import Setdns.Effects.World

/-!
Layers of programs. The operations of a layer are calls to the programs above it and
programs over the calls below it. A program runs on the layer as it does when every
operation is replaced by its implementation. A record of the run keeps its calls with
their answers.
-/

namespace Effects

open Program

variable {Op Call : Type} {Out : Op → Type} {Ret : Call → Type} {σ α β : Type}

def Program.implement (layer : (c : Op) → Program Call Ret (Out c)) :
    Program Op Out α → Program Call Ret α
  | .ret a => .ret a
  | .call c k => layer c >>= fun r => (k r).implement layer

/-- An operation is answered when its implementation returns. -/
def World.implemented (W : World Call Ret σ) (layer : (c : Op) → Program Call Ret (Out c)) :
    World Op Out σ where
  answers s c r s' := Ends W (layer c) s r s'
  torn s c s' := Visits W (layer c) s s'

section Layers

variable {W : World Call Ret σ} {layer : (c : Op) → Program Call Ret (Out c)}
  {p : Program Op Out α} {s s' : σ} {a : α}

theorem ends_implement :
    Ends W (p.implement layer) s a s' ↔ Ends (W.implemented layer) p s a s' := by
  induction p generalizing s with
  | ret b =>
      constructor
      · intro e
        cases e
        exact .ret _ _
      · intro e
        cases e
        exact .ret _ _
  | call c k ih =>
      constructor
      · intro e
        obtain ⟨r, s₁, answer, rest⟩ := Ends.bind_cases e
        exact .step answer ((ih r).mp rest)
      · intro e
        cases e with
        | step answer rest => exact Ends.bind answer ((ih _).mpr rest)

end Layers

section Records

/-- The world that keeps a record. A call that is cut short is not in it. -/
def World.recorded (W : World Call Ret σ) : World Call Ret (σ × List (Sigma Ret)) where
  answers s c r s' := W.answers s.1 c r s'.1 ∧ s'.2 = s.2 ++ [⟨c, r⟩]
  torn s c s' := W.torn s.1 c s'.1 ∧ s'.2 = s.2

def Program.Handler.recorded (h : Handler Call Ret σ) : Handler Call Ret (σ × List (Sigma Ret)) :=
  fun s c => ((h s.1 c).1, ((h s.1 c).2, s.2 ++ [⟨c, (h s.1 c).1⟩]))

variable {W : World Call Ret σ} {p : Program Call Ret α} {a : α}

/-- A record never stands in the way of a run. -/
theorem Ends.record {s s' : σ} (e : Ends W p s a s') (log : List (Sigma Ret)) :
    ∃ log', Ends W.recorded p (s, log) a (s', log') := by
  induction e generalizing log with
  | ret a s => exact ⟨log, .ret a (s, log)⟩
  | step answer _ ih =>
      obtain ⟨log', rest⟩ := ih (log ++ [⟨_, _⟩])
      exact ⟨log', .step ⟨answer, rfl⟩ rest⟩

end Records

end Effects

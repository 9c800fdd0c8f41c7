import Mathlib.Logic.Function.Basic
import Setdns.Effects.World

/-!
Programs that share one state and take turns in any order. A turn is one call,
followed by the calls that only finish its step. A schedule lists who moves.

Once all but one program have ended, any schedule runs the remaining one alone,
so what is left of a run is a plain execution.
-/

namespace Effects

open Program

variable {Call : Type} {Ret : Call → Type} {σ α β ε ι : Type}

section Turns

-- `glued` marks the calls that belong to the step of the call before them.
variable (h : Handler Call Ret σ) (glued : Call → Bool)

def settle : Program Call Ret α → σ → Program Call Ret α × σ
  | .ret a, s => (.ret a, s)
  | .call c k, s => if glued c then settle (k (h s c).1) (h s c).2 else (.call c k, s)

def turn : Program Call Ret α → σ → Program Call Ret α × σ
  | .ret a, s => (.ret a, s)
  | .call c k, s => settle h glued (k (h s c).1) (h s c).2

/-- Every call of the execution meets the condition in the state it is made in. -/
def Clear (cond : σ → Call → Prop) : Program Call Ret α → σ → Prop
  | .ret _, _ => True
  | .call c k, s => cond s c ∧ Clear cond (k (h s c).1) (h s c).2

variable {h glued} {cond : σ → Call → Prop} {p : Program Call Ret α} {s s' : σ}

@[simp] theorem settle_ret (a : α) (s : σ) :
    settle h glued (.ret a : Program Call Ret α) s = (.ret a, s) := rfl

@[simp] theorem turn_ret (a : α) (s : σ) :
    turn h glued (.ret a : Program Call Ret α) s = (.ret a, s) := rfl

@[simp] theorem turn_call (c : Call) (k : Ret c → Program Call Ret α) (s : σ) :
    turn h glued (.call c k) s = settle h glued (k (h s c).1) (h s c).2 := rfl

@[simp] theorem clear_ret (a : α) (s : σ) :
    Clear h cond (.ret a : Program Call Ret α) s ↔ True := Iff.rfl

@[simp] theorem clear_call (c : Call) (k : Ret c → Program Call Ret α) (s : σ) :
    Clear h cond (.call c k) s ↔ cond s c ∧ Clear h cond (k (h s c).1) (h s c).2 := Iff.rfl

theorem settle_bind {a : α} (f : α → Program Call Ret β)
    (hp : settle h glued p s = (.ret a, s')) :
    settle h glued (p >>= f) s = settle h glued (f a) s' := by
  induction p generalizing s with
  | ret b =>
      cases hp
      rfl
  | call c k ih =>
      simp only [settle, call_bind] at hp ⊢
      split
      · rename_i glue
        rw [if_pos glue] at hp
        exact ih _ hp
      · rename_i glue
        rw [if_neg glue] at hp
        cases hp

theorem exec_settle (h : Handler Call Ret σ) (glued : Call → Bool) (p : Program Call Ret α)
    (s : σ) :
    exec h (settle h glued p s).1 (settle h glued p s).2 = exec h p s := by
  induction p generalizing s with
  | ret a => rfl
  | call c k ih =>
      simp only [settle]
      split
      · exact ih _ _
      · rfl

theorem clear_settle (free : ∀ s c, glued c = true → cond s c) (p : Program Call Ret α) (s : σ) :
    Clear h cond (settle h glued p s).1 (settle h glued p s).2 ↔ Clear h cond p s := by
  induction p generalizing s with
  | ret a => rfl
  | call c k ih =>
      simp only [settle]
      split
      · rename_i glue
        simp only [ih, clear_call, free s c glue, true_and]
      · rfl

theorem exec_of_turn {p' : Program Call Ret α} (moves : turn h glued p s = (p', s')) :
    exec h p s = exec h p' s' := by
  cases p with
  | ret a =>
      cases moves
      rfl
  | call c k =>
      have settled := exec_settle h glued (k (h s c).1) (h s c).2
      rw [turn_call] at moves
      rw [moves] at settled
      exact settled.symm

theorem clear_of_turn (free : ∀ s c, glued c = true → cond s c) {c : Call}
    {k : Ret c → Program Call Ret α} {p' : Program Call Ret α}
    (moves : turn h glued (.call c k) s = (p', s')) :
    Clear h cond (.call c k) s ↔ cond s c ∧ Clear h cond p' s' := by
  have settled := clear_settle (h := h) free (k (h s c).1) (h s c).2
  rw [turn_call] at moves
  rw [moves] at settled
  rw [clear_call, settled]

theorem clear_bind (p : Program Call Ret α) (f : α → Program Call Ret β) (s : σ) :
    Clear h cond (p >>= f) s ↔
      Clear h cond p s ∧ Clear h cond (f (exec h p s).1) (exec h p s).2 := by
  induction p generalizing s with
  | ret a => simp
  | call c k ih => simp only [call_bind, clear_call, exec_call, ih, and_assoc]

theorem clear_run_bind {x : ExceptT ε (Program Call Ret) α}
    {f : α → ExceptT ε (Program Call Ret) β} {a : α} (hx : exec h x.run s = (.ok a, s')) :
    Clear h cond (x >>= f).run s ↔ Clear h cond x.run s ∧ Clear h cond (f a).run s' := by
  rw [run_bind, clear_bind, hx]

end Turns

structure System (Call : Type) (Ret : Call → Type) (σ α ι : Type) where
  state : σ
  programs : ι → Program Call Ret α

namespace System

def Ended (s : System Call Ret σ α ι) : Prop := ∀ i, ∃ a, s.programs i = .ret a

def result : Program Call Ret α → Option α
  | .ret a => some a
  | .call _ _ => none

theorem result_eq_some {p : Program Call Ret α} {a : α} : result p = some a ↔ p = .ret a := by
  cases p <;> simp [result]

theorem ended_iff {s : System Call Ret σ α ι} : s.Ended ↔ ∀ i, (result (s.programs i)).isSome := by
  refine forall_congr' fun i => ?_
  cases s.programs i <;> simp [result]

variable [DecidableEq ι] (h : Handler Call Ret σ) (glued : Call → Bool)

def turn (i : ι) (s : System Call Ret σ α ι) : System Call Ret σ α ι where
  state := (Effects.turn h glued (s.programs i) s.state).2
  programs := Function.update s.programs i (Effects.turn h glued (s.programs i) s.state).1

def run : List ι → System Call Ret σ α ι → System Call Ret σ α ι
  | [], s => s
  | i :: schedule, s => run schedule (s.turn h glued i)

/-- Each turn's first call meets the condition of its process. -/
def Admitted (cond : ι → σ → Call → Prop) : List ι → System Call Ret σ α ι → Prop
  | [], _ => True
  | i :: schedule, s =>
      (∀ c k, s.programs i = .call c k → cond i s.state c) ∧
        Admitted cond schedule (s.turn h glued i)

variable {h glued} {cond : ι → σ → Call → Prop} {s : System Call Ret σ α ι} {i : ι}

theorem turn_ended {a : α} (ended : s.programs i = .ret a) : s.turn h glued i = s := by
  simp only [turn, ended, turn_ret]
  rw [← ended, Function.update_eq_self]

/-- With all others ended, the schedule runs one program to its end. -/
theorem run_solo (cond : ι → σ → Call → Prop) (free : ∀ s c, glued c = true → cond i s c)
    (others : ∀ j, j ≠ i → ∃ a, s.programs j = .ret a) (schedule : List ι)
    (ended : (s.run h glued schedule).Ended) :
    s.run h glued schedule = ⟨(exec h (s.programs i) s.state).2,
        Function.update s.programs i (.ret (exec h (s.programs i) s.state).1)⟩ ∧
      (s.Admitted h glued cond schedule ↔ Clear h (cond i) (s.programs i) s.state) := by
  induction schedule generalizing s with
  | nil =>
      obtain ⟨a, done⟩ := ended i
      simp only [run] at done
      have same : Function.update s.programs i (.ret a) = s.programs := by
        rw [← done, Function.update_eq_self]
      simp only [run, Admitted, done, exec_ret, same, clear_ret, and_self]
  | cons j schedule ih =>
      have idle : ∀ a, s.programs j = .ret a →
          (s.run h glued (j :: schedule) = s.run h glued schedule ∧
            (s.Admitted h glued cond (j :: schedule) ↔ s.Admitted h glued cond schedule)) := by
        intro a done
        simp only [run, Admitted, turn_ended done, done, reduceCtorEq, false_implies,
          implies_true, true_and, and_self]
      by_cases moves : j = i
      · subst moves
        cases program : s.programs j with
        | ret a =>
            obtain ⟨same, admits⟩ := idle a program
            rw [same] at ended ⊢
            rw [admits, ← program]
            exact ih others ended
        | call c k =>
            have others' : ∀ l, l ≠ j → ∃ a, (s.turn h glued j).programs l = .ret a := by
              intro l hl
              simpa only [turn, Function.update_of_ne hl] using others l hl
            have next := ih others' ended
            have exec_next := exec_settle h glued (k (h s.state c).1) (h s.state c).2
            have clear_next := clear_settle (h := h) free (k (h s.state c).1) (h s.state c).2
            simp only [turn, program, turn_call, Function.update_self, exec_next, clear_next,
              Function.update_idem] at next
            refine ⟨by simpa only [run, turn, program, turn_call, exec_call] using next.1, ?_⟩
            simp only [Admitted, program, clear_call, ← next.2, turn, turn_call]
            refine and_congr_left fun _ => ⟨fun all => all c k rfl, ?_⟩
            rintro here _ _ ⟨⟩
            exact here
      · obtain ⟨a, done⟩ := others j moves
        obtain ⟨same, admits⟩ := idle a done
        rw [same] at ended ⊢
        rw [admits]
        exact ih others ended

end System

end Effects

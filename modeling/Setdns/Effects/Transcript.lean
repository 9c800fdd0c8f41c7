import Setdns.Effects.Sum
import Setdns.Order.Simulation

/-!
Transcripts of programs. A transcript lists the calls of a run with their answers, in order,
and says nothing of where the answers come from. A run in a world is a transcript that the
world admits, so what all transcripts show holds in every world.

Polling tries again after a failure, a bounded number of times.
-/

namespace Effects

open Program Simulation

variable {Call : Type} {Ret : Call → Type} {σ α β ε : Type}

inductive Transcript : Program Call Ret α → List (Sigma Ret) → α → Prop
  | ret (a : α) : Transcript (.ret a) [] a
  | call {c : Call} {k : Ret c → Program Call Ret α} {log : List (Sigma Ret)} {a : α} (r : Ret c)
      (rest : Transcript (k r) log a) : Transcript (.call c k) (⟨c, r⟩ :: log) a

/-- A call with its answer. -/
def World.Admits (W : World Call Ret σ) (s : σ) (entry : Sigma Ret) (s' : σ) : Prop :=
  W.answers s entry.1 entry.2 s'

variable {W : World Call Ret σ} {p : Program Call Ret α} {log : List (Sigma Ret)} {s s' : σ}

theorem ends_iff_transcript {a : α} :
    Ends W p s a s' ↔ ∃ log, Transcript p log a ∧ Trace W.Admits s log s' := by
  constructor
  · intro e
    induction e with
    | ret a s => exact ⟨[], .ret a, .nil s⟩
    | @step c k s s₁ s' r a answer _ ih =>
        obtain ⟨log, transcript, admitted⟩ := ih
        exact ⟨⟨c, r⟩ :: log, .call r transcript, .cons answer admitted⟩
  · rintro ⟨log, transcript, admitted⟩
    induction transcript generalizing s with
    | ret a =>
        cases admitted
        exact .ret a _
    | call r _ ih =>
        cases admitted with
        | cons answer rest => exact .step answer (ih rest)

namespace Transcript

@[simp] theorem ret_iff {a b : α} :
    Transcript (.ret a : Program Call Ret α) log b ↔ log = [] ∧ b = a := by
  constructor
  · intro t
    cases t
    exact ⟨rfl, rfl⟩
  · rintro ⟨rfl, rfl⟩
    exact .ret _

@[simp] theorem call_iff {c : Call} {k : Ret c → Program Call Ret α} {a : α} :
    Transcript (.call c k) log a ↔
      ∃ r rest, log = ⟨c, r⟩ :: rest ∧ Transcript (k r) rest a := by
  constructor
  · intro t
    cases t with
    | call r rest => exact ⟨r, _, rfl, rest⟩
  · rintro ⟨r, rest, rfl, t⟩
    exact .call r t

/-- The transcripts of a sequence are those of its parts, one after the other. -/
theorem bind_iff {f : α → Program Call Ret β} {b : β} :
    Transcript (p >>= f) log b ↔
      ∃ a front back, log = front ++ back ∧ Transcript p front a ∧ Transcript (f a) back b := by
  induction p generalizing log with
  | ret a =>
      constructor
      · intro t
        exact ⟨a, [], log, rfl, .ret a, t⟩
      · rintro ⟨_, front, back, rfl, first, last⟩
        cases first
        exact last
  | call c k ih =>
      rw [call_bind, call_iff]
      constructor
      · rintro ⟨r, rest, rfl, t⟩
        obtain ⟨a, front, back, rfl, first, last⟩ := (ih r).mp t
        exact ⟨a, ⟨c, r⟩ :: front, back, rfl, .call r first, last⟩
      · rintro ⟨a, front, back, rfl, first, last⟩
        obtain ⟨r, rest, rfl, t⟩ := call_iff.mp first
        exact ⟨r, rest ++ back, rfl, (ih r).mpr ⟨a, rest, back, rfl, t, last⟩⟩

theorem lift_iff {f : α → ExceptT ε (Program Call Ret) β} {r : Except ε β} :
    Transcript ((liftM p : ExceptT ε (Program Call Ret) α) >>= f).run log r ↔
      ∃ a front back, log = front ++ back ∧ Transcript p front a ∧
        Transcript (f a).run back r := by
  rw [run_lift, bind_iff]

/-- After an error nothing more is called. -/
theorem tryBind_iff {x : ExceptT ε (Program Call Ret) α} {f : α → ExceptT ε (Program Call Ret) β}
    {r : Except ε β} :
    Transcript (x >>= f).run log r ↔
      (∃ a front back, log = front ++ back ∧ Transcript x.run front (.ok a) ∧
        Transcript (f a).run back r) ∨
      ∃ error, r = .error error ∧ Transcript x.run log (.error error) := by
  rw [run_bind, bind_iff]
  constructor
  · rintro ⟨answered, front, back, rfl, first, last⟩
    cases answered with
    | ok a => exact .inl ⟨a, front, back, rfl, first, last⟩
    | error error =>
        cases last
        exact .inr ⟨error, rfl, (List.append_nil front).symm ▸ first⟩
  · rintro (⟨a, front, back, rfl, first, last⟩ | ⟨error, rfl, first⟩)
    · exact ⟨.ok a, front, back, rfl, first, last⟩
    · exact ⟨.error error, log, [], (List.append_nil log).symm, first, .ret _⟩

/-- What a program does not issue is not in its transcripts. -/
theorem issued {allowed : Call → Prop} {a : α} (t : Transcript p log a)
    (issues : Issues allowed p) : ∀ entry ∈ log, allowed entry.1 := by
  induction t with
  | ret a => simp
  | call r _ ih =>
      intro entry mem
      cases mem with
      | head => exact issues.1
      | tail _ mem => exact ih (issues.2 r) entry mem

end Transcript

section Polling

/-- Try until an attempt succeeds, with a pause between two attempts. The last error is
reported, and before the first attempt it is the one given. -/
def Program.poll (attempt : Program Call Ret (Except ε α)) (pause : Program Call Ret Unit) :
    Nat → ε → Program Call Ret (Except ε α)
  | 0, last => .ret (.error last)
  | n + 1, _ => do
      match ← attempt with
      | .ok a => .ret (.ok a)
      | .error error =>
          (if n = 0 then .ret () else pause) >>= fun _ => attempt.poll pause n error

variable {attempt : Program Call Ret (Except ε α)} {pause : Program Call Ret Unit} {n : Nat}
  {last : ε}

/-- A value comes from an attempt that is the last thing done. -/
theorem poll_ok {a : α} (t : Transcript (attempt.poll pause n last) log (.ok a)) :
    ∃ before good, log = before ++ good ∧ Transcript attempt good (.ok a) := by
  induction n generalizing log last with
  | zero => cases t
  | succ n ih =>
      obtain ⟨answered, front, back, rfl, first, rest⟩ := Transcript.bind_iff.mp t
      cases answered with
      | ok b =>
          cases rest
          exact ⟨[], front, List.append_nil front, first⟩
      | error error =>
          obtain ⟨_, middle, back, rfl, -, again⟩ := Transcript.bind_iff.mp rest
          obtain ⟨before, good, rfl, succeeded⟩ := ih again
          refine ⟨front ++ (middle ++ before), good, ?_, succeeded⟩
          simp only [List.append_assoc]

/-- An error means that all attempts have failed, the last one with it. -/
theorem poll_error {error : ε} (t : Transcript (attempt.poll pause n last) log (.error error)) :
    ∃ tries : List (List (Sigma Ret) × ε), tries.length = n ∧
      (∀ failed ∈ tries, Transcript attempt failed.1 (.error failed.2) ∧ failed.1 <:+: log) ∧
      error = (tries.getLast?.map Prod.snd).getD last := by
  induction n generalizing log last with
  | zero =>
      cases t
      exact ⟨[], rfl, by simp, rfl⟩
  | succ n ih =>
      obtain ⟨answered, front, back, rfl, first, rest⟩ := Transcript.bind_iff.mp t
      cases answered with
      | ok b => cases rest
      | error e =>
          obtain ⟨_, middle, back, rfl, -, again⟩ := Transcript.bind_iff.mp rest
          obtain ⟨tries, count, all, same⟩ := ih again
          refine ⟨(front, e) :: tries, congrArg (· + 1) count, ?_, ?_⟩
          · intro failed mem
            cases mem with
            | head => exact ⟨first, List.prefix_append _ _ |>.isInfix⟩
            | tail _ mem =>
                obtain ⟨failing, inside⟩ := all failed mem
                refine ⟨failing, inside.trans ?_⟩
                rw [← List.append_assoc]
                exact (List.suffix_append _ _).isInfix
          · rw [same, List.getLast?_cons]
            cases tries.getLast? <;> rfl

theorem Issues.poll {allowed : Call → Prop} (tries : Issues allowed attempt)
    (waits : Issues allowed pause) (n : Nat) (last : ε) :
    Issues allowed (attempt.poll pause n last) := by
  induction n generalizing last with
  | zero => trivial
  | succ n ih =>
      refine Issues.bind tries fun answered => ?_
      cases answered with
      | ok a => trivial
      | error error =>
          refine Issues.bind ?_ fun _ => ih error
          split
          · trivial
          · exact waits

end Polling

section Services

variable {C₁ C₂ : Type} {R₁ : C₁ → Type} {R₂ : C₂ → Type} {σ₁ σ₂ : Type}

/-- The calls of the left service. -/
def leftEntry : Sigma (Joint R₁ R₂) → Option (Sigma R₁)
  | ⟨.inl c, r⟩ => some ⟨c, r⟩
  | ⟨.inr _, _⟩ => none

/-- The calls of the right service. -/
def rightEntry : Sigma (Joint R₁ R₂) → Option (Sigma R₂)
  | ⟨.inl _, _⟩ => none
  | ⟨.inr c, r⟩ => some ⟨c, r⟩

/-- What two services admit, the right one admits for its part. -/
theorem trace_right {W₁ : World C₁ R₁ σ₁} {W₂ : World C₂ R₂ σ₂} {s s' : σ₁ × σ₂}
    {log : List (Sigma (Joint R₁ R₂))} (run : Trace (W₁.both W₂).Admits s log s') :
    Trace W₂.Admits s.2 (log.filterMap rightEntry) s'.2 := by
  induction run with
  | nil s => exact .nil s.2
  | @cons s s₁ s' entry entries first _ ih =>
      obtain ⟨c, r⟩ := entry
      cases c with
      | inl c =>
          obtain ⟨-, same⟩ := first
          rw [same] at ih
          exact ih
      | inr c => exact .cons first.1 ih

theorem trace_left {W₁ : World C₁ R₁ σ₁} {W₂ : World C₂ R₂ σ₂} {s s' : σ₁ × σ₂}
    {log : List (Sigma (Joint R₁ R₂))} (run : Trace (W₁.both W₂).Admits s log s') :
    Trace W₁.Admits s.1 (log.filterMap leftEntry) s'.1 := by
  induction run with
  | nil s => exact .nil s.1
  | @cons s s₁ s' entry entries first _ ih =>
      obtain ⟨c, r⟩ := entry
      cases c with
      | inl c => exact .cons first.1 ih
      | inr c =>
          obtain ⟨-, same⟩ := first
          rw [same] at ih
          exact ih

def ofRight (entry : Sigma R₂) : Sigma (Joint R₁ R₂) := ⟨.inr entry.1, entry.2⟩

@[simp] theorem filterMap_ofRight (log : List (Sigma R₂)) :
    (log.map (ofRight : Sigma R₂ → Sigma (Joint R₁ R₂))).filterMap rightEntry = log := by
  induction log with
  | nil => rfl
  | cons entry log ih => exact congrArg (entry :: ·) ih

theorem Transcript.right {p : Program C₂ R₂ α} {log : List (Sigma (Joint R₁ R₂))} {a : α}
    (t : Transcript p.right log a) : ∃ own, log = own.map ofRight ∧ Transcript p own a := by
  induction p generalizing log with
  | ret b =>
      cases t
      exact ⟨[], rfl, .ret _⟩
  | call c k ih =>
      cases t with
      | call r rest =>
          obtain ⟨own, rfl, t⟩ := ih r rest
          have first : Transcript (.call c k) (⟨c, r⟩ :: own) a :=
            Transcript.call (c := c) (k := k) r t
          exact ⟨⟨c, r⟩ :: own, rfl, first⟩

def ofLeft (entry : Sigma R₁) : Sigma (Joint R₁ R₂) := ⟨.inl entry.1, entry.2⟩

@[simp] theorem filterMap_ofLeft (log : List (Sigma R₁)) :
    (log.map (ofLeft : Sigma R₁ → Sigma (Joint R₁ R₂))).filterMap rightEntry = [] := by
  induction log with
  | nil => rfl
  | cons entry log ih => exact ih

@[simp] theorem filterMap_leftEntry (log : List (Sigma R₁)) :
    (log.map (ofLeft : Sigma R₁ → Sigma (Joint R₁ R₂))).filterMap leftEntry = log := by
  induction log with
  | nil => rfl
  | cons entry log ih => exact congrArg (entry :: ·) ih

/-- A program of the left service leaves nothing for the right one. -/
theorem Transcript.left {p : Program C₁ R₁ α} {log : List (Sigma (Joint R₁ R₂))} {a : α}
    (t : Transcript p.left log a) : ∃ own, log = own.map ofLeft ∧ Transcript p own a := by
  induction p generalizing log with
  | ret b =>
      cases t
      exact ⟨[], rfl, .ret _⟩
  | call c k ih =>
      cases t with
      | call r rest =>
          obtain ⟨own, rfl, t⟩ := ih r rest
          have first : Transcript (.call c k) (⟨c, r⟩ :: own) a :=
            Transcript.call (c := c) (k := k) r t
          exact ⟨⟨c, r⟩ :: own, rfl, first⟩

end Services

end Effects

import Mathlib.Logic.Relation
import Setdns.Effects.Interleaving
import Setdns.Effects.World

/-!
Local reasoning about programs that share one state. Each process knows a part
of the state as its own. `Follows` is proved of one program alone: whatever the
others have done since, its own part is as it left it, and its calls change no
part that is apart from its own. Then every process keeps what it knows in every
interleaving.

The calls may be restricted to those that meet a condition in the state they are
made in.
-/

namespace Effects

open Program

variable {Call : Type} {Ret : Call → Type} {σ α β ε ι G : Type}

/-- What it means for a process to own a part, and for two parts to be apart. -/
structure Parts (ι σ G : Type) where
  holds : ι → G → σ → Prop
  apart : G → G → Prop
  symm : ∀ {g h}, apart g h → apart h g

namespace Parts

variable (P : Parts ι σ G)

/-- A change of the state and of a process's own part that no other process sees. -/
def Updates (i : ι) (g : G) (s : σ) (g' : G) (s' : σ) : Prop :=
  P.holds i g' s' ∧ ∀ j h, j ≠ i → P.holds j h s → P.apart g h → P.holds j h s' ∧ P.apart g' h

variable (W : World Call Ret σ) (allows : ι → σ → Call → Prop)

/-- The program changes only what it owns, and returns with the postcondition. -/
def Follows (i : ι) (Q : α → G → Prop) : Program Call Ret α → G → Prop
  | .ret a, g => Q a g
  | .call c k, g => ∀ s, P.holds i g s → allows i s c → ∀ r s', W.answers s c r s' →
      ∃ g', P.Updates i g s g' s' ∧ Follows i Q (k r) g'

section Rules

variable {P W allows} {i : ι} {Q R : α → G → Prop} {p : Program Call Ret α} {g : G}

@[simp] theorem follows_ret (a : α) : P.Follows W allows i Q (.ret a) g ↔ Q a g := Iff.rfl

theorem Follows.post (follows : P.Follows W allows i Q p g) (weaker : ∀ a g, Q a g → R a g) :
    P.Follows W allows i R p g := by
  induction p generalizing g with
  | ret a => exact weaker a g follows
  | call c k ih =>
      intro s holds allowed r s' answer
      obtain ⟨g', updates, rest⟩ := follows s holds allowed r s' answer
      exact ⟨g', updates, ih r rest⟩

theorem Follows.bind {Q : β → G → Prop} {f : α → Program Call Ret β}
    (follows : P.Follows W allows i (fun a g => P.Follows W allows i Q (f a) g) p g) :
    P.Follows W allows i Q (p >>= f) g := by
  induction p generalizing g with
  | ret a => exact follows
  | call c k ih =>
      intro s holds allowed r s' answer
      obtain ⟨g', updates, rest⟩ := follows s holds allowed r s' answer
      exact ⟨g', updates, ih r rest⟩

/-- Sequencing with early exit. -/
theorem Follows.tryBind {Q : Except ε β → G → Prop} {x : ExceptT ε (Program Call Ret) α}
    {f : α → ExceptT ε (Program Call Ret) β} {M : Except ε α → G → Prop}
    (hx : P.Follows W allows i M x.run g)
    (ok : ∀ a g, M (.ok a) g → P.Follows W allows i Q (f a).run g)
    (error : ∀ e g, M (.error e) g → Q (.error e) g) :
    P.Follows W allows i Q (x >>= f).run g := by
  rw [run_bind]
  refine Follows.bind (hx.post ?_)
  intro r g holds
  cases r with
  | ok a => exact ok a g holds
  | error e => exact error e g holds

theorem Follows.lift {Q : Except ε β → G → Prop} {f : α → ExceptT ε (Program Call Ret) β}
    (hp : P.Follows W allows i (fun a g => P.Follows W allows i Q (f a).run g) p g) :
    P.Follows W allows i Q ((liftM p : ExceptT ε (Program Call Ret) α) >>= f).run g := by
  rw [run_bind, ExceptT.run_liftM]
  have lifted : (Except.ok <$> p : Program Call Ret (Except ε α)) =
      p >>= fun a => .ret (.ok a) := (bind_pure_comp _ _).symm
  rw [lifted]
  exact Follows.bind (Follows.bind hp)

theorem mapError_eq_ok {ε' : Type} {f : ε → ε'} {r : Except ε β} {b : β} :
    r.mapError f = .ok b ↔ r = .ok b := by
  cases r with
  | ok a =>
      constructor
      · rintro ⟨⟩
        rfl
      · rintro ⟨⟩
        rfl
  | error e =>
      constructor
      · rintro ⟨⟩
      · rintro ⟨⟩

theorem Follows.mapErr {ε' : Type} {Q : Except ε' β → G → Prop}
    {x : Program Call Ret (Except ε β)} {f : ε → ε'}
    (hx : P.Follows W allows i (fun r g => Q (r.mapError f) g) x g) :
    P.Follows W allows i Q (Program.mapErr x f).run g := by
  rw [Program.mapErr, ExceptT.run_mk]
  exact Follows.bind hx

theorem Follows.mapErr_ok {ε' : Type} {Q : β → G → Prop} {x : Program Call Ret (Except ε β)}
    {f : ε → ε'} (hx : P.Follows W allows i (fun r g => ∀ b, r = .ok b → Q b g) x g) :
    P.Follows W allows i (fun r g => ∀ b, r = .ok b → Q b g) (Program.mapErr x f).run g := by
  refine Follows.mapErr (hx.post fun r g holds b ok => ?_)
  cases r with
  | ok a =>
      cases ok
      exact holds b rfl
  | error e => cases ok

end Rules

end Parts

namespace System

/-- Every process owns a part of the state and follows its program from there. -/
def Shared (W : World Call Ret σ) (allows : ι → σ → Call → Prop) (P : Parts ι σ G)
    (Q : ι → α → G → Prop) (s : System Call Ret σ α ι) : Prop :=
  ∃ g : ι → G, (∀ i, P.holds i (g i) s.state) ∧ (∀ i j, i ≠ j → P.apart (g i) (g j)) ∧
    ∀ i, P.Follows W allows i (Q i) (s.programs i) (g i)

variable {W : World Call Ret σ} {allows : ι → σ → Call → Prop} {P : Parts ι σ G}
  {Q : ι → α → G → Prop} {s s' : System Call Ret σ α ι}

/-- What a process that has returned knows, it still owns. -/
theorem Shared.returned {i : ι} {a : α} (shared : Shared W allows P Q s)
    (done : s.programs i = .ret a) : ∃ g, P.holds i g s.state ∧ Q i a g := by
  obtain ⟨g, holds, -, follows⟩ := shared
  have last := follows i
  rw [done] at last
  exact ⟨g i, holds i, last⟩

variable [DecidableEq ι] (W allows)

/-- One call of one process, if it is allowed. -/
inductive Step : System Call Ret σ α ι → System Call Ret σ α ι → Prop
  | call {s : System Call Ret σ α ι} {i : ι} {c : Call} {k : Ret c → Program Call Ret α} {r : Ret c}
      {t : σ} (program : s.programs i = .call c k) (allowed : allows i s.state c)
      (answer : W.answers s.state c r t) :
      Step s ⟨t, Function.update s.programs i (k r)⟩

variable {W allows}

theorem step_shared (step : Step W allows s s') (shared : Shared W allows P Q s) :
    Shared W allows P Q s' := by
  obtain ⟨g, holds, apart, follows⟩ := shared
  cases step with
  | @call i c k r t program allowed answer =>
      have current := follows i
      rw [program] at current
      obtain ⟨g', ⟨mine, others⟩, rest⟩ := current s.state (holds i) allowed r t answer
      refine ⟨Function.update g i g', fun j => ?_, fun j l ne => ?_, fun j => ?_⟩
      · by_cases same : j = i
        · subst same
          rwa [Function.update_self]
        · rw [Function.update_of_ne same]
          exact (others j _ same (holds j) (apart i j (Ne.symm same))).1
      · by_cases first : j = i
        · subst first
          rw [Function.update_self, Function.update_of_ne (Ne.symm ne)]
          exact (others l _ (Ne.symm ne) (holds l) (apart j l ne)).2
        · rw [Function.update_of_ne first]
          by_cases second : l = i
          · subst second
            rw [Function.update_self]
            exact P.symm (others j _ first (holds j) (apart l j (Ne.symm first))).2
          · rw [Function.update_of_ne second]
            exact apart j l ne
      · by_cases same : j = i
        · subst same
          simpa using rest
        · simpa [Function.update_of_ne same] using follows j

theorem run_shared (run : Relation.ReflTransGen (Step W allows) s s')
    (shared : Shared W allows P Q s) : Shared W allows P Q s' := by
  induction run with
  | refl => exact shared
  | tail _ step ih => exact step_shared step ih

/-- Each turn's call passes a check. -/
def checks (h : Handler Call Ret σ) (good : ι → σ → Call → Bool) :
    List ι → System Call Ret σ α ι → Bool
  | [], _ => true
  | i :: schedule, s =>
      (match s.programs i with
        | .ret _ => true
        | .call c _ => good i s.state c) && checks h good schedule (s.turn h (fun _ => false) i)

theorem checks_all (h : Handler Call Ret σ) (schedule : List ι) (s : System Call Ret σ α ι) :
    checks h (fun _ _ _ => true) schedule s = true := by
  induction schedule generalizing s with
  | nil => rfl
  | cons i schedule ih =>
      rw [checks, ih]
      cases s.programs i <;> rfl

/-- A schedule in which each turn is a single call. -/
theorem run_steps {h : Handler Call Ret σ} {good : ι → σ → Call → Bool}
    (sound : ∀ s c, W.answers s c (h s c).1 (h s c).2)
    (allowed : ∀ i s c, good i s c = true → allows i s c) (schedule : List ι)
    (s : System Call Ret σ α ι) (checked : checks h good schedule s = true) :
    Relation.ReflTransGen (Step W allows) s (s.run h (fun _ => false) schedule) := by
  induction schedule generalizing s with
  | nil => exact .refl
  | cons i schedule ih =>
      obtain ⟨now, later⟩ := Bool.and_eq_true_iff.mp checked
      rw [System.run]
      cases program : s.programs i with
      | ret a =>
          rw [turn_ended program] at later ⊢
          exact ih s later
      | call c k =>
          have settled : ∀ (p : Program Call Ret α) t, settle h (fun _ => false) p t = (p, t) := by
            intro p t
            cases p <;> simp [settle]
          have moved : s.turn h (fun _ => false) i =
              ⟨(h s.state c).2, Function.update s.programs i (k (h s.state c).1)⟩ := by
            simp only [System.turn, program, turn_call, settled]
          rw [program] at now
          refine .head ?_ (ih _ later)
          rw [moved]
          exact .call program (allowed i s.state c now) (sound _ _)

end System

end Effects

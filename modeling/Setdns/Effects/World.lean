import Setdns.Effects.Program

/-!
Operational meaning of programs over a state that answers their calls, possibly
in several ways. A process can stop anywhere: before a call, after it, or inside
it, where the world says which states a torn call leaves. `Visits` collects all
states in which a program may stop, `Ends` the states in which it returns.

`Safe` is the matching proof rule. It is sound and complete for an invariant of
the visited states together with a postcondition of the returned ones.
-/

namespace Effects

open Program

/-- How a state answers calls, and what a call leaves when it is cut short. -/
structure World (Call : Type) (Ret : Call → Type) (σ : Type) where
  answers : σ → (c : Call) → Ret c → σ → Prop
  torn : σ → Call → σ → Prop

variable {Call : Type} {Ret : Call → Type} {σ α β ε : Type}

namespace World

/-- The world in which only the answers admitted by a condition are given. -/
def restrict (W : World Call Ret σ) (allows : σ → (c : Call) → Ret c → Prop) :
    World Call Ret σ where
  answers s c r s' := W.answers s c r s' ∧ allows s c r
  torn := W.torn

/-- The world in which exactly the planned calls fail, and change nothing. -/
def planned (W : World Call Ret σ) (failed : (c : Call) → Ret c → Prop) (fails : Call → Prop) :
    World Call Ret σ where
  answers s c r s' := (fails c ∧ failed c r ∧ s' = s) ∨ (¬ fails c ∧ W.answers s c r s')
  torn := W.torn

/-- The world that answers every call by a handler and cuts none short. -/
def of (h : Handler Call Ret σ) : World Call Ret σ where
  answers s c r s' := h s c = (r, s')
  torn _ _ _ := False

/-- Every call is answered in every state. -/
def Total (W : World Call Ret σ) : Prop :=
  ∀ s c, ∃ r s', W.answers s c r s'

/-- A call that never changes the state. -/
def Quiet (W : World Call Ret σ) (c : Call) : Prop :=
  (∀ s s', W.torn s c s' → s' = s) ∧ ∀ s r s', W.answers s c r s' → s' = s

theorem Total.planned {W : World Call Ret σ} (total : W.Total) {failed : (c : Call) → Ret c → Prop}
    (fails : Call → Prop) (answered : ∀ c, ∃ r, failed c r) : (W.planned failed fails).Total := by
  intro s c
  by_cases planned : fails c
  · obtain ⟨r, answer⟩ := answered c
    exact ⟨r, s, .inl ⟨planned, answer, rfl⟩⟩
  · obtain ⟨r, s', answer⟩ := total s c
    exact ⟨r, s', .inr ⟨planned, answer⟩⟩

theorem Quiet.restrict {W : World Call Ret σ} {c : Call} (h : W.Quiet c)
    (allows : σ → (c : Call) → Ret c → Prop) : (W.restrict allows).Quiet c :=
  ⟨h.1, fun s r s' a => h.2 s r s' a.1⟩

end World

variable (W : World Call Ret σ)

inductive Visits : Program Call Ret α → σ → σ → Prop
  | here (p : Program Call Ret α) (s : σ) : Visits p s s
  | torn {c : Call} {k : Ret c → Program Call Ret α} {s s' : σ}
      (cut : W.torn s c s') : Visits (.call c k) s s'
  | step {c : Call} {k : Ret c → Program Call Ret α} {s s₁ s' : σ} {r : Ret c}
      (answer : W.answers s c r s₁) (rest : Visits (k r) s₁ s') :
      Visits (.call c k) s s'

inductive Ends : Program Call Ret α → σ → α → σ → Prop
  | ret (a : α) (s : σ) : Ends (.ret a) s a s
  | step {c : Call} {k : Ret c → Program Call Ret α} {s s₁ s' : σ} {r : Ret c} {a : α}
      (answer : W.answers s c r s₁) (rest : Ends (k r) s₁ a s') :
      Ends (.call c k) s a s'

/-- Every state in which the program may stop satisfies the invariant, and every
return satisfies the postcondition. -/
def Safe (I : σ → Prop) (Q : α → σ → Prop) : Program Call Ret α → σ → Prop
  | .ret a, s => I s ∧ Q a s
  | .call c k, s =>
      I s ∧ (∀ s', W.torn s c s' → I s') ∧
      ∀ r s', W.answers s c r s' → Safe I Q (k r) s'

variable {W} {I J : σ → Prop} {Q R : α → σ → Prop} {p : Program Call Ret α} {s s' : σ}

theorem Safe.here (h : Safe W I Q p s) : I s := by
  cases p with
  | ret a => exact h.1
  | call c k => exact h.1

theorem Safe.visits (h : Safe W I Q p s) (v : Visits W p s s') : I s' := by
  induction v with
  | here p s => exact h.here
  | torn cut => exact h.2.1 _ cut
  | step answer _ ih => exact ih (h.2.2 _ _ answer)

theorem Safe.ends {a : α} (h : Safe W I Q p s) (e : Ends W p s a s') : Q a s' := by
  induction e with
  | ret a s => exact h.2
  | step answer _ ih => exact ih (h.2.2 _ _ answer)

theorem Ends.visits {a : α} (e : Ends W p s a s') : Visits W p s s' := by
  induction e with
  | ret a s => exact .here _ s
  | step answer _ ih => exact .step answer ih

/-- A run in a world is one in every world with more answers. -/
theorem Ends.mono {W' : World Call Ret σ} {a : α} (e : Ends W p s a s')
    (answers : ∀ s c r s', W.answers s c r s' → W'.answers s c r s') : Ends W' p s a s' := by
  induction e with
  | ret a s => exact .ret a s
  | step answer _ ih => exact .step (answers _ _ _ _ answer) ih

/-- The rule is complete: what holds of all stops and returns can be proved by it. -/
theorem safe_iff :
    Safe W I Q p s ↔
      (∀ s', Visits W p s s' → I s') ∧ ∀ a s', Ends W p s a s' → Q a s' := by
  constructor
  · intro h
    exact ⟨fun _ v => h.visits v, fun _ _ e => h.ends e⟩
  · intro h
    induction p generalizing s with
    | ret a => exact ⟨h.1 s (.here _ s), h.2 a s (.ret a s)⟩
    | call c k ih =>
        refine ⟨h.1 s (.here _ s), fun s' cut => h.1 s' (.torn cut), ?_⟩
        intro r s₁ answer
        apply ih r
        exact ⟨fun s' v => h.1 s' (.step answer v), fun a s' e => h.2 a s' (.step answer e)⟩

theorem Safe.imp (h : Safe W I Q p s) (hI : ∀ s, I s → J s)
    (hQ : ∀ a s, I s → Q a s → R a s) : Safe W J R p s := by
  rw [safe_iff] at h ⊢
  exact ⟨fun s' v => hI s' (h.1 s' v), fun a s' e => hQ a s' (h.1 s' e.visits) (h.2 a s' e)⟩

theorem Safe.post (h : Safe W I Q p s) (hQ : ∀ a s, I s → Q a s → R a s) : Safe W I R p s :=
  h.imp (fun _ hI => hI) hQ

theorem Safe.and (h : Safe W I Q p s) (h' : Safe W I R p s) :
    Safe W I (fun a s => Q a s ∧ R a s) p s := by
  rw [safe_iff] at h h' ⊢
  exact ⟨h.1, fun a s' e => ⟨h.2 a s' e, h'.2 a s' e⟩⟩

@[simp] theorem safe_ret (a : α) : Safe W I Q (.ret a) s ↔ I s ∧ Q a s := Iff.rfl

theorem Safe.quiet {c : Call} {k : Ret c → Program Call Ret α} (quiet : W.Quiet c) (hI : I s)
    (next : ∀ r, W.answers s c r s → Safe W I Q (k r) s) : Safe W I Q (.call c k) s := by
  refine ⟨hI, fun s' cut => ?_, fun r s' answer => ?_⟩
  · exact (quiet.1 s s' cut).symm ▸ hI
  · obtain rfl := quiet.2 s r s' answer
    exact next r answer

theorem safe_bind {Q : β → σ → Prop} (p : Program Call Ret α) (f : α → Program Call Ret β) :
    Safe W I Q (p >>= f) s ↔ Safe W I (fun a s' => Safe W I Q (f a) s') p s := by
  induction p generalizing s with
  | ret a =>
      constructor
      · intro h
        exact ⟨h.here, h⟩
      · exact fun h => h.2
  | call c k ih =>
      have rest : ∀ r s', Safe W I Q (k r >>= f) s' ↔
          Safe W I (fun a s' => Safe W I Q (f a) s') (k r) s' := fun r s' => ih r
      simp only [call_bind, Safe, rest]

theorem Safe.lift {Q : Except ε β → σ → Prop} {p : Program Call Ret α}
    {f : α → ExceptT ε (Program Call Ret) β}
    (h : Safe W I (fun a s' => Safe W I Q (f a).run s') p s) :
    Safe W I Q ((liftM p : ExceptT ε (Program Call Ret) α) >>= f).run s := by
  rw [run_lift, safe_bind]
  exact h

/-- Sequencing with early exit: the rest has to be safe after a success, and a
failure is passed on unchanged. -/
theorem Safe.tryBind {Q : Except ε β → σ → Prop} {x : ExceptT ε (Program Call Ret) α}
    {f : α → ExceptT ε (Program Call Ret) β} {M : Except ε α → σ → Prop}
    (hx : Safe W I M x.run s)
    (ok : ∀ a s', I s' → M (.ok a) s' → Safe W I Q (f a).run s')
    (error : ∀ e s', I s' → M (.error e) s' → Q (.error e) s') :
    Safe W I Q (x >>= f).run s := by
  rw [run_bind, safe_bind]
  refine hx.post ?_
  intro r s' hI hM
  cases r with
  | ok a => exact ok a s' hI hM
  | error e => exact ⟨hI, error e s' hI hM⟩

theorem Safe.mapErr {ε' : Type} {Q : Except ε' β → σ → Prop} {x : Program Call Ret (Except ε β)}
    {f : ε → ε'} (hx : Safe W I (fun r s' => Q (r.mapError f) s') x s) :
    Safe W I Q (Program.mapErr x f).run s := by
  rw [Program.mapErr, ExceptT.run_mk, safe_bind]
  exact hx.post fun _ _ hI hQ => ⟨hI, hQ⟩

/-- What holds after a success does not depend on how the errors are called. -/
theorem Safe.mapErr_ok {ε' : Type} {Q : β → σ → Prop} {x : Program Call Ret (Except ε β)}
    {f : ε → ε'} (hx : Safe W I (fun r s' => ∀ b, r = .ok b → Q b s') x s) :
    Safe W I (fun r s' => ∀ b, r = .ok b → Q b s') (Program.mapErr x f).run s := by
  refine Safe.mapErr (hx.post fun r s' _ holds b ok => ?_)
  cases r with
  | ok a =>
      cases ok
      exact holds b rfl
  | error e => cases ok

/-- Fewer answers and fewer torn states can only make a program safer. -/
theorem Safe.of_le {W' : World Call Ret σ} (h : Safe W I Q p s)
    (answers : ∀ s c r s', W'.answers s c r s' → W.answers s c r s')
    (torn : ∀ s c s', W'.torn s c s' → W.torn s c s') : Safe W' I Q p s := by
  induction p generalizing s with
  | ret a => exact h
  | call c k ih =>
      exact ⟨h.1, fun s' cut => h.2.1 s' (torn s c s' cut),
        fun r s' a => ih r (h.2.2 r s' (answers s c r s' a))⟩

theorem Safe.restrict {allows : σ → (c : Call) → Ret c → Prop} (h : Safe W I Q p s) :
    Safe (W.restrict allows) I Q p s :=
  h.of_le (fun _ _ _ _ a => a.1) (fun _ _ _ cut => cut)

theorem Ends.bind {q : α → Program Call Ret β} {a : α} {b : β} {s₁ : σ}
    (e : Ends W p s a s₁) (rest : Ends W (q a) s₁ b s') : Ends W (p >>= q) s b s' := by
  induction e with
  | ret a s => exact rest
  | step answer _ ih => exact .step answer (ih rest)

theorem Ends.tryBind {x : ExceptT ε (Program Call Ret) α} {f : α → ExceptT ε (Program Call Ret) β}
    {a : α} {r : Except ε β} {s₁ : σ} (e : Ends W x.run s (.ok a) s₁)
    (rest : Ends W (f a).run s₁ r s') : Ends W (x >>= f).run s r s' := by
  rw [run_bind]
  exact e.bind rest

theorem Ends.tryError {x : ExceptT ε (Program Call Ret) α}
    {f : α → ExceptT ε (Program Call Ret) β} {error : ε}
    (e : Ends W x.run s (.error error) s') : Ends W (x >>= f).run s (.error error) s' := by
  rw [run_bind]
  exact e.bind (.ret _ _)

theorem Ends.lift {f : α → ExceptT ε (Program Call Ret) β} {a : α} {r : Except ε β} {s₁ : σ}
    (e : Ends W p s a s₁) (rest : Ends W (f a).run s₁ r s') :
    Ends W ((liftM p : ExceptT ε (Program Call Ret) α) >>= f).run s r s' := by
  rw [run_lift]
  exact e.bind rest

/-- A run of a sequence is a run of its parts. -/
theorem Ends.bind_cases {q : α → Program Call Ret β} {b : β} (e : Ends W (p >>= q) s b s') :
    ∃ a s₁, Ends W p s a s₁ ∧ Ends W (q a) s₁ b s' := by
  induction p generalizing s with
  | ret a => exact ⟨a, s, .ret a s, e⟩
  | call c k ih =>
      cases e with
      | step answer rest =>
          obtain ⟨a, s₁, first, last⟩ := ih _ rest
          exact ⟨a, s₁, .step answer first, last⟩

theorem Ends.tryBind_cases {x : ExceptT ε (Program Call Ret) α}
    {f : α → ExceptT ε (Program Call Ret) β} {r : Except ε β} (e : Ends W (x >>= f).run s r s') :
    (∃ a s₁, Ends W x.run s (.ok a) s₁ ∧ Ends W (f a).run s₁ r s') ∨
      ∃ error, r = .error error ∧ Ends W x.run s (.error error) s' := by
  rw [run_bind] at e
  obtain ⟨a, s₁, first, last⟩ := e.bind_cases
  cases a with
  | ok a => exact .inl ⟨a, s₁, first, last⟩
  | error error =>
      cases last
      exact .inr ⟨error, rfl, first⟩

theorem Ends.mapErr_cases {ε' : Type} {x : Program Call Ret (Except ε β)} {f : ε → ε'}
    {r : Except ε' β} (e : Ends W (Program.mapErr x f).run s r s') :
    ∃ answered, Ends W x s answered s' ∧ r = answered.mapError f := by
  have e : Ends W (x >>= fun r => .ret (r.mapError f)) s r s' := e
  obtain ⟨answered, s₁, first, last⟩ := e.bind_cases
  cases last
  exact ⟨answered, first, rfl⟩

theorem Ends.answer {c : Call} {r : Ret c} (e : Ends W (.call c .ret) s r s') :
    W.answers s c r s' := by
  cases e with
  | step answer rest =>
      cases rest
      exact answer

theorem Ends.lift_cases {f : α → ExceptT ε (Program Call Ret) β} {r : Except ε β}
    (e : Ends W ((liftM p : ExceptT ε (Program Call Ret) α) >>= f).run s r s') :
    ∃ a s₁, Ends W p s a s₁ ∧ Ends W (f a).run s₁ r s' := by
  rw [run_lift] at e
  exact e.bind_cases

theorem exists_ends (total : W.Total) (p : Program Call Ret α) (s : σ) :
    ∃ a s', Ends W p s a s' := by
  induction p generalizing s with
  | ret a => exact ⟨a, s, .ret a s⟩
  | call c k ih =>
      obtain ⟨r, s₁, answer⟩ := total s c
      obtain ⟨a, s', rest⟩ := ih r s₁
      exact ⟨a, s', .step answer rest⟩

/-- Every call of the run passes a check. -/
def passes (h : Handler Call Ret σ) (good : σ → Call → Bool) : Program Call Ret α → σ → Bool
  | .ret _, _ => true
  | .call c k, s => good s c && passes h good (k (h s c).1) (h s c).2

/-- The state of a process that is killed after so many calls. -/
def killedAfter (h : Handler Call Ret σ) : Nat → Program Call Ret α → σ → σ
  | 0, _, s => s
  | _ + 1, .ret _, s => s
  | n + 1, .call c k, s => killedAfter h n (k (h s c).1) (h s c).2

section Issues

/-- Whatever it is answered, the program issues only such calls. -/
def Issues (allowed : Call → Prop) : Program Call Ret α → Prop
  | .ret _ => True
  | .call c k => allowed c ∧ ∀ r, Issues allowed (k r)

variable {allowed : Call → Prop}

/-- What these calls keep, the program keeps. -/
theorem Issues.ends {a : α} (issues : Issues allowed p)
    (kept : ∀ s c r s', allowed c → I s → W.answers s c r s' → I s') (e : Ends W p s a s')
    (here : I s) : I s' := by
  induction e with
  | ret a s => exact here
  | step answer _ ih => exact ih (issues.2 _) (kept _ _ _ _ issues.1 here answer)

theorem Issues.safe (issues : Issues allowed p)
    (kept : ∀ s c r s', allowed c → I s → W.answers s c r s' → I s')
    (cut : ∀ s c s', allowed c → I s → W.torn s c s' → I s') (here : I s) :
    Safe W I (fun _ _ => True) p s := by
  induction p generalizing s with
  | ret a => exact ⟨here, trivial⟩
  | call c k ih =>
      exact ⟨here, fun s' torn => cut s c s' issues.1 here torn,
        fun r s' answer => ih r (issues.2 r) (kept s c r s' issues.1 here answer)⟩

/-- A run only needs the answers to the calls that are issued. -/
theorem Issues.mono {W' : World Call Ret σ} {a : α} (issues : Issues allowed p)
    (answers : ∀ s c r s', allowed c → W.answers s c r s' → W'.answers s c r s')
    (e : Ends W p s a s') : Ends W' p s a s' := by
  induction e with
  | ret a s => exact .ret a s
  | step answer _ ih => exact .step (answers _ _ _ _ issues.1 answer) (ih (issues.2 _))

/-- A program that issues no planned call does not notice the plan. -/
theorem Issues.planned_iff {failed : (c : Call) → Ret c → Prop} {fails : Call → Prop} {a : α}
    (issues : Issues (fun c => ¬ fails c) p) :
    Ends (W.planned failed fails) p s a s' ↔ Ends W p s a s' := by
  constructor
  · refine issues.mono fun s c r s' unplanned answer => ?_
    rcases answer with ⟨planned, -⟩ | ⟨-, answer⟩
    · exact absurd planned unplanned
    · exact answer
  · exact issues.mono fun s c r s' unplanned answer => .inr ⟨unplanned, answer⟩

theorem Issues.imp {allowed' : Call → Prop} (issues : Issues allowed p)
    (le : ∀ c, allowed c → allowed' c) : Issues allowed' p := by
  induction p with
  | ret a => trivial
  | call c k ih => exact ⟨le c issues.1, fun r => ih r (issues.2 r)⟩

theorem Issues.call {c : Call} (h : allowed c) :
    Issues allowed (.call c .ret : Program Call Ret (Ret c)) :=
  ⟨h, fun _ => trivial⟩

theorem Issues.bind {f : α → Program Call Ret β} (hp : Issues allowed p)
    (hf : ∀ a, Issues allowed (f a)) : Issues allowed (p >>= f) := by
  induction p with
  | ret a => exact hf a
  | call c k ih => exact ⟨hp.1, fun r => ih r (hp.2 r)⟩

theorem Issues.tryBind {x : ExceptT ε (Program Call Ret) α}
    {f : α → ExceptT ε (Program Call Ret) β} (hx : Issues allowed x.run)
    (hf : ∀ a, Issues allowed (f a).run) : Issues allowed (x >>= f).run := by
  rw [run_bind]
  refine hx.bind fun r => ?_
  cases r with
  | ok a => exact hf a
  | error e => trivial

theorem Issues.mapErr {ε' : Type} {x : Program Call Ret (Except ε β)} {f : ε → ε'}
    (hx : Issues allowed x) : Issues allowed (Program.mapErr x f).run :=
  hx.bind fun _ => trivial

theorem Issues.lift {f : α → ExceptT ε (Program Call Ret) β} (hp : Issues allowed p)
    (hf : ∀ a, Issues allowed (f a).run) :
    Issues allowed ((liftM p : ExceptT ε (Program Call Ret) α) >>= f).run := by
  rw [run_lift]
  exact hp.bind hf

end Issues

section Handlers

variable {h : Handler Call Ret σ} {good : σ → Call → Bool}

theorem passes_all (p : Program Call Ret α) (s : σ) : passes h (fun _ _ => true) p s = true := by
  induction p generalizing s with
  | ret a => rfl
  | call c k ih => exact ih _ _

/-- A handler whose answers the world admits, as far as a run needs them, yields one
of the world's runs. -/
theorem ends_passes (sound : ∀ s c, good s c = true → W.answers s c (h s c).1 (h s c).2)
    (pass : passes h good p s = true) : Ends W p s (exec h p s).1 (exec h p s).2 := by
  induction p generalizing s with
  | ret a => exact .ret a s
  | call c k ih =>
      obtain ⟨now, later⟩ := Bool.and_eq_true_iff.mp pass
      exact .step (sound s c now) (ih _ later)

theorem visits_passes (sound : ∀ s c, good s c = true → W.answers s c (h s c).1 (h s c).2)
    (n : Nat) (pass : passes h good p s = true) : Visits W p s (killedAfter h n p s) := by
  induction n generalizing p s with
  | zero => exact .here p s
  | succ n ih =>
      cases p with
      | ret a => exact .here _ s
      | call c k =>
          obtain ⟨now, later⟩ := Bool.and_eq_true_iff.mp pass
          exact .step (sound s c now) (ih later)

theorem ends_exec (sound : ∀ s c, W.answers s c (h s c).1 (h s c).2)
    (p : Program Call Ret α) (s : σ) : Ends W p s (exec h p s).1 (exec h p s).2 :=
  ends_passes (fun s c _ => sound s c) (passes_all p s)

theorem visits_killedAfter (sound : ∀ s c, W.answers s c (h s c).1 (h s c).2) (n : Nat)
    (p : Program Call Ret α) (s : σ) : Visits W p s (killedAfter h n p s) :=
  visits_passes (fun s c _ => sound s c) n (passes_all p s)

end Handlers

/-- Whatever answers are given, the program returns this value in this state. -/
def Yields (W : World Call Ret σ) (p : Program Call Ret α) (s : σ) (a : α) (s' : σ) : Prop :=
  Safe W (fun _ => True) (fun b t => b = a ∧ t = s') p s

namespace Yields

variable {a : α} {b : β} {s₁ s₂ : σ}

theorem ends {a' : α} (h : Yields W p s a s') (e : Ends W p s a' s₁) : a' = a ∧ s₁ = s' :=
  Safe.ends (Q := fun b t => b = a ∧ t = s') h e

theorem exists_ends (total : W.Total) (h : Yields W p s a s') : Ends W p s a s' := by
  obtain ⟨a', s₁, e⟩ := Effects.exists_ends total p s
  obtain ⟨rfl, rfl⟩ := h.ends e
  exact e

theorem ret (a : α) (s : σ) : Yields W (.ret a) s a s := ⟨trivial, rfl, rfl⟩

theorem call {c : Call} {k : Ret c → Program Call Ret α}
    (h : ∀ r t, W.answers s c r t → Yields W (k r) t a s') : Yields W (.call c k) s a s' :=
  ⟨trivial, fun _ _ => trivial, h⟩

/-- A call with one possible answer. -/
theorem answer {c : Call} {k : Ret c → Program Call Ret α} {r : Ret c}
    (only : ∀ r' t, W.answers s c r' t → r' = r ∧ t = s₁) (h : Yields W (k r) s₁ a s') :
    Yields W (.call c k) s a s' :=
  call fun r' t given => by
    obtain ⟨rfl, rfl⟩ := only r' t given
    exact h

theorem bind {f : α → Program Call Ret β} (hp : Yields W p s a s₁)
    (hf : Yields W (f a) s₁ b s₂) : Yields W (p >>= f) s b s₂ := by
  refine (safe_bind p f).mpr (hp.post ?_)
  rintro _ _ - ⟨rfl, rfl⟩
  exact hf

theorem lift {f : α → ExceptT ε (Program Call Ret) β} {r : Except ε β}
    (hp : Yields W p s a s₁) (hf : Yields W (f a).run s₁ r s₂) :
    Yields W ((liftM p : ExceptT ε (Program Call Ret) α) >>= f).run s r s₂ := by
  refine Safe.lift (hp.post ?_)
  rintro _ _ - ⟨rfl, rfl⟩
  exact hf

/-- A postcondition of the rest, after a success that leaves no choice. -/
theorem thenOk {x : ExceptT ε (Program Call Ret) α} {f : α → ExceptT ε (Program Call Ret) β}
    {Q : Except ε β → σ → Prop} (hx : Yields W x.run s (.ok a) s₁)
    (hf : Safe W (fun _ => True) Q (f a).run s₁) : Safe W (fun _ => True) Q (x >>= f).run s := by
  refine Safe.tryBind hx ?_ (by simp)
  rintro _ _ - ⟨⟨⟩, rfl⟩
  exact hf

theorem thenError {x : ExceptT ε (Program Call Ret) α} {f : α → ExceptT ε (Program Call Ret) β}
    {Q : Except ε β → σ → Prop} {e : ε} (hx : Yields W x.run s (.error e) s₁)
    (hQ : Q (.error e) s₁) : Safe W (fun _ => True) Q (x >>= f).run s := by
  refine Safe.tryBind hx (by simp) ?_
  rintro _ _ - ⟨⟨⟩, rfl⟩
  exact hQ

theorem tryOk {x : ExceptT ε (Program Call Ret) α} {f : α → ExceptT ε (Program Call Ret) β}
    {r : Except ε β} (hx : Yields W x.run s (.ok a) s₁) (hf : Yields W (f a).run s₁ r s₂) :
    Yields W (x >>= f).run s r s₂ :=
  hx.thenOk hf

theorem tryError {x : ExceptT ε (Program Call Ret) α} {f : α → ExceptT ε (Program Call Ret) β}
    {e : ε} (hx : Yields W x.run s (.error e) s₁) : Yields W (x >>= f).run s (.error e) s₁ :=
  hx.thenError ⟨rfl, rfl⟩

theorem mapErr {ε' : Type} {x : Program Call Ret (Except ε β)} {f : ε → ε'} {r : Except ε β}
    (hx : Yields W x s r s₁) : Yields W (Program.mapErr x f).run s (r.mapError f) s₁ := by
  refine Safe.mapErr (hx.post ?_)
  rintro _ _ - ⟨rfl, rfl⟩
  exact ⟨rfl, rfl⟩

/-- Under the answers of a handler a program yields what it computes. -/
theorem of_iff {h : Handler Call Ret σ} : Yields (World.of h) p s a s' ↔ exec h p s = (a, s') := by
  induction p generalizing s with
  | ret b => simp [Yields, Prod.mk.injEq]
  | call c k ih =>
      constructor
      · intro y
        exact (ih _).mp (y.2.2 _ _ rfl)
      · intro e
        have only : ∀ r' t, h s c = (r', t) → r' = (h s c).1 ∧ t = (h s c).2 :=
          fun r' t given => Prod.mk.inj given.symm
        exact answer only ((ih _).mpr e)

/-- A world with fewer answers yields the same. -/
theorem of_handler {h : Handler Call Ret σ} (y : Yields W p s a s')
    (sound : ∀ s c, W.answers s c (h s c).1 (h s c).2) : Yields (World.of h) p s a s' := by
  refine Safe.of_le y ?_ (fun _ _ _ cut => cut.elim)
  rintro s c r s' given
  have answered := sound s c
  rw [given] at answered
  exact answered

end Yields

end Effects

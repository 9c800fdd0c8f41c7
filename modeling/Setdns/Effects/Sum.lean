import Setdns.Effects.World

/-!
Programs that use two services. The calls are the sum of the two kinds of calls
and the state is the pair of the two states, or one state that they share. A
program of one service runs unchanged inside and leaves the other service alone.
-/

namespace Effects

open Program

abbrev Joint {C₁ C₂ : Type} (R₁ : C₁ → Type) (R₂ : C₂ → Type) : C₁ ⊕ C₂ → Type
  | .inl c => R₁ c
  | .inr c => R₂ c

variable {C₁ C₂ : Type} {R₁ : C₁ → Type} {R₂ : C₂ → Type} {σ₁ σ₂ α ε ε' : Type}

namespace Program

def left : Program C₁ R₁ α → Program (C₁ ⊕ C₂) (Joint R₁ R₂) α
  | .ret a => .ret a
  | .call c k => .call (.inl c) fun r => (k r).left

def right : Program C₂ R₂ α → Program (C₁ ⊕ C₂) (Joint R₁ R₂) α
  | .ret a => .ret a
  | .call c k => .call (.inr c) fun r => (k r).right

def Handler.both (h₁ : Handler C₁ R₁ σ₁) (h₂ : Handler C₂ R₂ σ₂) :
    Handler (C₁ ⊕ C₂) (Joint R₁ R₂) (σ₁ × σ₂)
  | s, .inl c => ((h₁ s.1 c).1, ((h₁ s.1 c).2, s.2))
  | s, .inr c => ((h₂ s.2 c).1, (s.1, (h₂ s.2 c).2))

end Program

namespace World

def both (W₁ : World C₁ R₁ σ₁) (W₂ : World C₂ R₂ σ₂) :
    World (C₁ ⊕ C₂) (Joint R₁ R₂) (σ₁ × σ₂) where
  answers
    | s, .inl c, r, s' => W₁.answers s.1 c r s'.1 ∧ s'.2 = s.2
    | s, .inr c, r, s' => W₂.answers s.2 c r s'.2 ∧ s'.1 = s.1
  torn
    | s, .inl c, s' => W₁.torn s.1 c s'.1 ∧ s'.2 = s.2
    | s, .inr c, s' => W₂.torn s.2 c s'.2 ∧ s'.1 = s.1

/-- Two services on one state. -/
def beside {σ : Type} (W₁ : World C₁ R₁ σ) (W₂ : World C₂ R₂ σ) :
    World (C₁ ⊕ C₂) (Joint R₁ R₂) σ where
  answers
    | s, .inl c, r, s' => W₁.answers s c r s'
    | s, .inr c, r, s' => W₂.answers s c r s'
  torn
    | s, .inl c, s' => W₁.torn s c s'
    | s, .inr c, s' => W₂.torn s c s'

/-- What the left service sees of a world. -/
def onLeft {σ : Type} (W : World (C₁ ⊕ C₂) (Joint R₁ R₂) σ) : World C₁ R₁ σ where
  answers s c r s' := W.answers s (.inl c) r s'
  torn s c s' := W.torn s (.inl c) s'

variable {W₁ : World C₁ R₁ σ₁} {W₂ : World C₂ R₂ σ₂}

theorem Total.both (h₁ : W₁.Total) (h₂ : W₂.Total) : (W₁.both W₂).Total
  | (s₁, s₂), .inl c => by
      obtain ⟨r, s', answer⟩ := h₁ s₁ c
      exact ⟨r, (s', s₂), answer, rfl⟩
  | (s₁, s₂), .inr c => by
      obtain ⟨r, s', answer⟩ := h₂ s₂ c
      exact ⟨r, (s₁, s'), answer, rfl⟩

/-- What the right service answers in a smaller world it answers in a larger one. -/
theorem answers_both_right {W₂' : World C₂ R₂ σ₂}
    (le : ∀ s c r s', W₂.answers s c r s' → W₂'.answers s c r s') :
    ∀ s c r s', (W₁.both W₂).answers s c r s' → (W₁.both W₂').answers s c r s' := by
  rintro s (c | c) r s' answer
  · exact answer
  · exact ⟨le _ _ _ _ answer.1, answer.2⟩

end World

section Rules

variable {W₁ : World C₁ R₁ σ₁} {W₂ : World C₂ R₂ σ₂}

theorem Safe.left {I : σ₁ → Prop} {Q : α → σ₁ → Prop} {p : Program C₁ R₁ α} {s₁ : σ₁}
    (h : Safe W₁ I Q p s₁) (s₂ : σ₂) :
    Safe (W₁.both W₂) (fun s => I s.1 ∧ s.2 = s₂) (fun a s => Q a s.1) p.left (s₁, s₂) := by
  induction p generalizing s₁ with
  | ret a => exact ⟨⟨h.1, rfl⟩, h.2⟩
  | call c k ih =>
      refine ⟨⟨h.1, rfl⟩, fun s' cut => ⟨h.2.1 _ cut.1, cut.2⟩, ?_⟩
      rintro r ⟨s', _⟩ ⟨answer, rfl⟩
      exact ih r (h.2.2 r s' answer)

theorem Safe.right {I : σ₂ → Prop} {Q : α → σ₂ → Prop} {p : Program C₂ R₂ α} {s₂ : σ₂}
    (h : Safe W₂ I Q p s₂) (s₁ : σ₁) :
    Safe (W₁.both W₂) (fun s => I s.2 ∧ s.1 = s₁) (fun a s => Q a s.2) p.right (s₁, s₂) := by
  induction p generalizing s₂ with
  | ret a => exact ⟨⟨h.1, rfl⟩, h.2⟩
  | call c k ih =>
      refine ⟨⟨h.1, rfl⟩, fun s' cut => ⟨h.2.1 _ cut.1, cut.2⟩, ?_⟩
      rintro r ⟨_, s'⟩ ⟨answer, rfl⟩
      exact ih r (h.2.2 r s' answer)

theorem Yields.left {p : Program C₁ R₁ α} {s₁ s₁' : σ₁} {a : α} (h : Yields W₁ p s₁ a s₁')
    (s₂ : σ₂) : Yields (W₁.both W₂) p.left (s₁, s₂) a (s₁', s₂) := by
  refine (Safe.left h s₂).imp (fun _ _ => trivial) ?_
  rintro _ ⟨_, _⟩ ⟨_, rfl⟩ ⟨rfl, rfl⟩
  exact ⟨rfl, rfl⟩

theorem Yields.right {p : Program C₂ R₂ α} {s₂ s₂' : σ₂} {a : α} (h : Yields W₂ p s₂ a s₂')
    (s₁ : σ₁) : Yields (W₁.both W₂) p.right (s₁, s₂) a (s₁, s₂') := by
  refine (Safe.right h s₁).imp (fun _ _ => trivial) ?_
  rintro _ ⟨_, _⟩ ⟨_, rfl⟩ ⟨rfl, rfl⟩
  exact ⟨rfl, rfl⟩

theorem Ends.left_cases {σ : Type} {W : World (C₁ ⊕ C₂) (Joint R₁ R₂) σ} {p : Program C₁ R₁ α}
    {s t : σ} {a : α} (e : Ends W p.left s a t) : Ends W.onLeft p s a t := by
  induction p generalizing s with
  | ret b =>
      cases e
      exact .ret _ _
  | call c k ih =>
      cases e with
      | step answer rest => exact .step answer (ih _ rest)

theorem Ends.both_left {p : Program C₁ R₁ α} {s t : σ₁ × σ₂} {a : α}
    (e : Ends (W₁.both W₂) p.left s a t) : Ends W₁ p s.1 a t.1 ∧ t.2 = s.2 := by
  induction p generalizing s with
  | ret b =>
      cases e
      exact ⟨.ret _ _, rfl⟩
  | call c k ih =>
      cases e with
      | step answer rest =>
          obtain ⟨run, same⟩ := ih _ rest
          exact ⟨.step answer.1 run, same.trans answer.2⟩

theorem Ends.both_right {p : Program C₂ R₂ α} {s t : σ₁ × σ₂} {a : α}
    (e : Ends (W₁.both W₂) p.right s a t) : Ends W₂ p s.2 a t.2 ∧ t.1 = s.1 := by
  induction p generalizing s with
  | ret b =>
      cases e
      exact ⟨.ret _ _, rfl⟩
  | call c k ih =>
      cases e with
      | step answer rest =>
          obtain ⟨run, same⟩ := ih _ rest
          exact ⟨.step answer.1 run, same.trans answer.2⟩

theorem Issues.left {allowed : C₁ → Prop} {allowed' : C₁ ⊕ C₂ → Prop} {p : Program C₁ R₁ α}
    (issues : Issues allowed p) (h : ∀ c, allowed c → allowed' (.inl c)) :
    Issues allowed' (p.left : Program (C₁ ⊕ C₂) (Joint R₁ R₂) α) := by
  induction p with
  | ret a => trivial
  | call c k ih => exact ⟨h c issues.1, fun r => ih r (issues.2 r)⟩

end Rules

end Effects

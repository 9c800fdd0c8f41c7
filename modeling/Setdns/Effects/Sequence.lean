import Setdns.Effects.World

/-!
Steps that are taken one after another up to the first that fails, where no step
touches what another is about. A step is for a goal. It is fatal if it ends the
sequence, and it may also fail without being noticed. Then what the sequence achieves
depends on the order of the steps: no goal may come after a fatal step, unless its own
step fails or it is reached anyway.
-/

namespace Effects

open Program

variable {Call : Type} {Ret : Call → Type} {σ ι ε : Type}

/-- What the steps do in a world: which are fatal, which fail, what they are for, and which of
them do not touch each other. -/
structure Steps (W : World Call Ret σ) (f : ι → ExceptT ε (Program Call Ret) PUnit)
    (Fatal Fails Done : ι → σ → Prop) (Apart : ι → ι → Prop) : Prop where
  stops : ∀ i s r t, Ends W (f i).run s r t → Fatal i s → ∃ e, r = .error e
  goes : ∀ i s r t, Ends W (f i).run s r t → ¬ Fatal i s → r = .ok ()
  fails : ∀ i s, Fatal i s → Fails i s
  achieves : ∀ i s r t, Ends W (f i).run s r t → ¬ Fails i s → Done i t
  frame : ∀ i j s r t, Ends W (f i).run s r t → Apart i j →
    (Fatal j t ↔ Fatal j s) ∧ (Fails j t ↔ Fails j s) ∧ (Done j t ↔ Done j s)

variable {W : World Call Ret σ} {f : ι → ExceptT ε (Program Call Ret) PUnit}
  {Fatal Fails Done : ι → σ → Prop} {Apart : ι → ι → Prop} {l : List ι} {s t : σ}
  {r : Except ε PUnit}

theorem forM_cases {i : ι} (run : Ends W ((i :: l).forM f).run s r t) :
    (∃ s₁, Ends W (f i).run s (.ok ()) s₁ ∧ Ends W (l.forM f).run s₁ r t) ∨
      ∃ e, r = .error e ∧ Ends W (f i).run s (.error e) t := by
  have run : Ends W (f i >>= fun _ => l.forM f).run s r t := run
  rcases Ends.tryBind_cases run with ⟨_, s₁, first, rest⟩ | failed
  · exact .inl ⟨s₁, first, rest⟩
  · exact .inr failed

theorem Steps.others (steps : Steps W f Fatal Fails Done Apart) {j : ι}
    (apart : ∀ i ∈ l, Apart i j) (run : Ends W (l.forM f).run s r t) : Done j t ↔ Done j s := by
  induction l generalizing s with
  | nil =>
      cases run
      rfl
  | cons i l ih =>
      obtain ⟨first, later⟩ := List.forall_mem_cons.mp apart
      rcases forM_cases run with ⟨s₁, step, rest⟩ | ⟨e, -, step⟩
      · exact (ih later rest).trans (steps.frame i j _ _ _ step first).2.2
      · exact (steps.frame i j _ _ _ step first).2.2

/-- The sequence succeeds if no step is fatal. -/
theorem Steps.ok_iff (steps : Steps W f Fatal Fails Done Apart) (apart : l.Pairwise Apart)
    (run : Ends W (l.forM f).run s r t) : r = .ok () ↔ ∀ i ∈ l, ¬ Fatal i s := by
  induction l generalizing s with
  | nil =>
      cases run
      simp
  | cons i l ih =>
      obtain ⟨first, later⟩ := List.pairwise_cons.mp apart
      rw [List.forall_mem_cons]
      rcases forM_cases run with ⟨s₁, step, rest⟩ | ⟨e, rfl, step⟩
      · have here : ¬ Fatal i s := fun fatal => by
          obtain ⟨e, no⟩ := steps.stops i _ _ _ step fatal
          cases no
        have same : (∀ j ∈ l, ¬ Fatal j s₁) ↔ ∀ j ∈ l, ¬ Fatal j s := forall₂_congr fun j mem =>
          not_congr (steps.frame i j _ _ _ step (first j mem)).1
        rw [ih later rest, same, and_iff_right here]
      · refine iff_of_false (by simp) fun none => ?_
        cases steps.goes i _ _ _ step none.1

/-- Every goal whose own step does not fail is reached if and only if none of them comes after a
fatal step, unless it is reached before. -/
theorem Steps.goals_iff (steps : Steps W f Fatal Fails Done Apart)
    (apart : l.Pairwise fun i j => Apart i j ∧ Apart j i) (run : Ends W (l.forM f).run s r t) :
    (∀ i ∈ l, ¬ Fails i s → Done i t) ↔
      l.Pairwise fun i j => Fatal i s → Fails j s ∨ Done j s := by
  induction l generalizing s with
  | nil => simp
  | cons i l ih =>
      obtain ⟨first, later⟩ := List.pairwise_cons.mp apart
      rw [List.forall_mem_cons, List.pairwise_cons]
      rcases forM_cases run with ⟨s₁, step, rest⟩ | ⟨e, rfl, step⟩
      · have here : ¬ Fatal i s := fun fatal => by
          obtain ⟨e, no⟩ := steps.stops i _ _ _ step fatal
          cases no
        have reached : ¬ Fails i s → Done i t := fun succeeds =>
          (steps.others (fun j mem => (first j mem).2) rest).mpr
            (steps.achieves i _ _ _ step succeeds)
        have frame := fun j mem => steps.frame i j _ _ _ step (first j mem).1
        have same : (∀ j ∈ l, ¬ Fails j s₁ → Done j t) ↔ ∀ j ∈ l, ¬ Fails j s → Done j t :=
          forall₂_congr fun j mem => imp_congr_left (not_congr (frame j mem).2.1)
        have order : (l.Pairwise fun i j => Fatal i s₁ → Fails j s₁ ∨ Done j s₁) ↔
            l.Pairwise fun i j => Fatal i s → Fails j s ∨ Done j s :=
          List.Pairwise.iff_of_mem fun mem mem' => imp_congr (frame _ mem).1
            (or_congr (frame _ mem').2.1 (frame _ mem').2.2)
        rw [← same, ih later rest, order, and_iff_right reached,
          and_iff_right fun j _ fatal => absurd fatal here]
      · have fatal : Fatal i s := by
          by_contra none
          cases steps.goes i _ _ _ step none
        have frame := fun j mem => (steps.frame i j _ _ _ step (first j mem).1).2.2
        constructor
        · rintro ⟨-, goals⟩
          have kept : ∀ j ∈ l, Fails j s ∨ Done j s := fun j mem =>
            or_iff_not_imp_left.mpr fun succeeds => (frame j mem).mp (goals j mem succeeds)
          exact ⟨fun j mem _ => kept j mem, List.pairwise_of_forall_mem_list
            fun a _ b mem _ => kept b mem⟩
        · rintro ⟨kept, -⟩
          refine ⟨fun succeeds => absurd (steps.fails i s fatal) succeeds, fun j mem succeeds => ?_⟩
          exact (frame j mem).mpr ((kept j mem fatal).resolve_left succeeds)

end Effects

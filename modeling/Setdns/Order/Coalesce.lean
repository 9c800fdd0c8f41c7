import Mathlib.Data.List.Induction
import Mathlib.Data.List.Pairwise
import Mathlib.Order.Defs.Unbundled

/-!
Keeping only what nothing kept before covers. The list is read once, from left
to right. When no element stands before one that covers it, unless both cover
each other, the result is an antichain that covers the same as the whole list,
and it is determined by what the list covers.
-/

namespace Coalesce

variable {α : Type*} (covers : α → α → Prop) [DecidableRel covers]

def step (kept : List α) (x : α) : List α :=
  if kept.any (fun k => covers k x) then kept else kept ++ [x]

def coalesce (l : List α) : List α := l.foldl (step covers) []

variable {covers} {l l₁ l₂ : List α} {x y : α}

theorem coalesce_append_singleton (l : List α) (x : α) :
    coalesce covers (l ++ [x]) = step covers (coalesce covers l) x := by
  rw [coalesce, List.foldl_append]
  rfl

theorem mem_step {kept : List α} :
    y ∈ step covers kept x ↔ y ∈ kept ∨ y = x ∧ ∀ k ∈ kept, ¬ covers k x := by
  unfold step
  split
  · rename_i found
    obtain ⟨k, mem, cov⟩ := List.any_eq_true.mp found
    constructor
    · exact .inl
    · rintro (h | ⟨_, none⟩)
      · exact h
      · exact absurd (by simpa using cov) (none k mem)
  · rename_i none
    simp only [List.any_eq_true, decide_eq_true_eq, not_exists, not_and] at none
    simp only [List.mem_append, List.mem_singleton]
    exact or_congr_right (and_iff_left none).symm

theorem coalesce_sublist (l : List α) : (coalesce covers l).Sublist l := by
  induction l using List.reverseRecOn with
  | nil => exact .slnil
  | append_singleton l x ih =>
      rw [coalesce_append_singleton, step]
      split
      · exact ih.trans (List.sublist_append_left l [x])
      · exact ih.append_right [x]

variable [Std.Refl covers] [IsTrans α covers]

omit [IsTrans α covers] in
/-- Every element is covered by one that was kept, itself or an earlier one. -/
theorem exists_covering {R : α → α → Prop} (sorted : l.Pairwise R) :
    ∀ x ∈ l, ∃ k ∈ coalesce covers l, covers k x ∧ (k = x ∨ R k x) := by
  induction l using List.reverseRecOn with
  | nil => simp
  | append_singleton l y ih =>
      obtain ⟨front, -, before⟩ := List.pairwise_append.mp sorted
      rw [coalesce_append_singleton]
      intro x mem
      rcases List.mem_append.mp mem with mem | mem
      · obtain ⟨k, kept, cov, order⟩ := ih front x mem
        exact ⟨k, mem_step.mpr (.inl kept), cov, order⟩
      · obtain rfl : x = y := by simpa using mem
        by_cases covered : ∃ k ∈ coalesce covers l, covers k x
        · obtain ⟨k, kept, cov⟩ := covered
          refine ⟨k, mem_step.mpr (.inl kept), cov, .inr (before k ?_ x (by simp))⟩
          exact (coalesce_sublist l).subset kept
        · refine ⟨x, mem_step.mpr (.inr ⟨rfl, ?_⟩), refl x, .inl rfl⟩
          exact fun k kept cov => covered ⟨k, kept, cov⟩

theorem covered_iff (n : α) :
    (∃ k ∈ coalesce covers l, covers k n) ↔ ∃ x ∈ l, covers x n := by
  constructor
  · rintro ⟨k, kept, cov⟩
    exact ⟨k, (coalesce_sublist l).subset kept, cov⟩
  · rintro ⟨x, mem, cov⟩
    have unordered : l.Pairwise fun _ _ => True := List.pairwise_of_forall fun _ _ => trivial
    have found : ∃ k ∈ coalesce covers l, covers k x ∧ (k = x ∨ True) :=
      exists_covering unordered x mem
    obtain ⟨k, kept, cov', -⟩ := found
    exact ⟨k, kept, IsTrans.trans k x n cov' cov⟩

/-- Nothing stands before what properly covers it. -/
def ParentsFirst (covers : α → α → Prop) (l : List α) : Prop :=
  l.Pairwise fun a b => covers b a → covers a b

omit [Std.Refl covers] [IsTrans α covers] in
theorem coalesce_antichain (parents : ParentsFirst covers l) :
    (coalesce covers l).Pairwise fun a b => ¬ covers a b ∧ ¬ covers b a := by
  induction l using List.reverseRecOn with
  | nil => exact .nil
  | append_singleton l x ih =>
      obtain ⟨front, -, before⟩ := List.pairwise_append.mp parents
      rw [coalesce_append_singleton, step]
      split
      · exact ih front
      · rename_i none
        simp only [List.any_eq_true, decide_eq_true_eq, not_exists, not_and] at none
        refine List.pairwise_append.mpr ⟨ih front, List.pairwise_singleton _ _, ?_⟩
        intro k kept y mem
        obtain rfl : y = x := by simpa using mem
        refine ⟨none k kept, fun cov => none k kept ?_⟩
        exact before k ((coalesce_sublist l).subset kept) y (by simp) cov

omit [Std.Refl covers] [IsTrans α covers] in
theorem eq_of_covers (parents : ParentsFirst covers l) (hx : x ∈ coalesce covers l)
    (hy : y ∈ coalesce covers l) (cov : covers x y) : x = y := by
  by_contra different
  have : Std.Symm fun a b => ¬ covers a b ∧ ¬ covers b a := ⟨fun _ _ h => ⟨h.2, h.1⟩⟩
  exact ((coalesce_antichain parents).forall hx hy different).1 cov

/-- What stays is determined, up to mutual cover, by which elements are covered. -/
theorem exists_equivalent (parents : ParentsFirst covers l₁)
    (same : ∀ n, n ∈ l₁ ∨ n ∈ l₂ → ((∃ x ∈ l₁, covers x n) ↔ ∃ x ∈ l₂, covers x n)) :
    ∀ k ∈ coalesce covers l₁, ∃ k' ∈ coalesce covers l₂, covers k' k ∧ covers k k' := by
  intro k kept
  have mem := (coalesce_sublist l₁).subset kept
  obtain ⟨k', kept', cov⟩ := (covered_iff k).mpr ((same k (.inl mem)).mp ⟨k, mem, refl k⟩)
  have mem' := (coalesce_sublist l₂).subset kept'
  obtain ⟨k'', kept'', cov'⟩ :=
    (covered_iff k').mpr ((same k' (.inr mem')).mpr ⟨k', mem', refl k'⟩)
  obtain rfl := eq_of_covers parents kept'' kept (IsTrans.trans k'' k' k cov' cov)
  exact ⟨k', kept', cov, cov'⟩

end Coalesce

import Setdns.Config.Domains

/-!
The inputs that the parser of domain suffixes accepts: an optional mark `*.` and
then labels joined by dots. The parser tests for what a domain must not contain,
and these tests together say that no label is empty.
-/

namespace Setdns

open Text

/-- A label of a domain suffix. -/
structure IsLabel (label : Bytes) : Prop where
  nonempty : label ≠ []
  ascii : Ascii label
  noStar : 42 ∉ label
  noDot : dot ∉ label

/-- The labels, with the mark in front if the suffix is a wildcard. -/
def spelling (wildcard : Bool) (parts : List Bytes) : Bytes :=
  (if wildcard then [42, dot] else []) ++ [dot].intercalate parts

/-- A text with an empty label is empty, or has a dot at an end or next to another one. -/
theorem empty_mem_labels_iff (domain : Bytes) :
    [] ∈ labels domain ↔ domain.isEmpty ∨ domain = [dot] ∨ [dot] <+: domain ∨ [dot] <:+ domain ∨
      [dot, dot] <:+: domain := by
  constructor
  · intro mem
    obtain ⟨front, back, split⟩ := List.append_of_mem mem
    have joined : [dot].intercalate (front ++ [] :: back) = domain :=
      split ▸ List.intercalate_splitOn dot
    cases front with
    | nil =>
        cases back with
        | nil => exact .inl (by simp [← joined])
        | cons next back =>
            refine .inr (.inr (.inl ⟨[dot].intercalate (next :: back), ?_⟩))
            rw [← joined, List.nil_append, List.intercalate_cons_cons, List.nil_append]
    | cons first front =>
        rw [intercalate_append (List.cons_ne_nil _ _) (List.cons_ne_nil _ _)] at joined
        cases back with
        | nil =>
            refine .inr (.inr (.inr (.inl ⟨[dot].intercalate (first :: front), ?_⟩)))
            rw [← joined]
            simp
        | cons next back =>
            refine .inr (.inr (.inr (.inr ⟨[dot].intercalate (first :: front),
              [dot].intercalate (next :: back), ?_⟩)))
            rw [← joined, List.intercalate_cons_cons]
            simp
  · have empty : [] ∈ labels [] := by simp [labels]
    rintro (nil | rfl | ⟨rest, rfl⟩ | ⟨front, rfl⟩ | ⟨front, rest, rfl⟩)
    · rwa [List.isEmpty_iff.mp nil]
    · decide
    · rw [List.singleton_append, ← List.nil_append (dot :: rest), labels_append_dot]
      exact List.mem_append_left _ empty
    · rw [labels_append_dot]
      exact List.mem_append_right _ empty
    · rw [List.append_assoc, List.cons_append, labels_append_dot, List.singleton_append,
        ← List.nil_append (dot :: rest), labels_append_dot]
      exact List.mem_append_right _ (List.mem_append_left _ empty)

/-- The labels are all bytes but the dots between them. -/
theorem flatten_labels (domain : Bytes) : (labels domain).flatten = domain.filter (· ≠ dot) := by
  unfold labels
  induction domain with
  | nil => rfl
  | cons x domain ih =>
      obtain ⟨part, parts, split⟩ := List.exists_cons_of_ne_nil (List.splitOn_ne_nil dot domain)
      rw [split] at ih
      rw [List.splitOn_cons_eq_if_modifyHead, split]
      by_cases here : x = dot
      · simpa [here] using ih
      · simpa [here] using ih

theorem mem_labels_iff (domain : Bytes) (byte : UInt8) :
    (∃ part ∈ labels domain, byte ∈ part) ↔ byte ∈ domain ∧ byte ≠ dot := by
  rw [← List.mem_flatten, flatten_labels, List.mem_filter, decide_eq_true_eq]

/-- The tests for a domain are tests of its labels. -/
theorem isLabel_labels_iff (domain : Bytes) :
    (∀ part ∈ labels domain, IsLabel part) ↔
      ¬ (domain.isEmpty ∨ domain = [dot] ∨ [dot] <+: domain ∨ [dot] <:+ domain ∨
        [dot, dot] <:+: domain) ∧ Ascii domain ∧ 42 ∉ domain := by
  rw [← empty_mem_labels_iff]
  constructor
  · intro each
    refine ⟨fun mem => (each _ mem).nonempty rfl, fun x mem => ?_, fun star => ?_⟩
    · by_cases here : x = dot
      · subst here
        decide
      · obtain ⟨part, listed, inside⟩ := (mem_labels_iff domain x).mpr ⟨mem, here⟩
        exact (each part listed).ascii x inside
    · obtain ⟨part, listed, inside⟩ := (mem_labels_iff domain 42).mpr ⟨star, by decide⟩
      exact (each part listed).noStar inside
  · rintro ⟨nonempty, ascii, noStar⟩ part listed
    refine ⟨?_, fun x inside => ?_, fun inside => ?_, fun inside => ?_⟩
    · rintro rfl
      exact nonempty listed
    · exact ascii x ((mem_labels_iff domain x).mp ⟨part, listed, inside⟩).1
    · exact noStar ((mem_labels_iff domain 42).mp ⟨part, listed, inside⟩).1
    · exact ((mem_labels_iff domain dot).mp ⟨part, listed, inside⟩).2 rfl

theorem validateDomain_eq_ok_iff_labels (parseDnsName : Bytes → Except Bytes Unit)
    (domain : Bytes) :
    validateDomain parseDnsName domain = .ok () ↔
      (∀ part ∈ labels domain, IsLabel part) ∧ parseDnsName domain = .ok () := by
  rw [validateDomain_eq_ok_iff, isLabel_labels_iff, and_assoc, and_assoc]

theorem stripWildcard_mark (input : Bytes) :
    (stripWildcard input).2 = true ↔ [42, dot] <+: input := by
  by_cases mark : [42, dot] <+: input
  · obtain ⟨domain, rfl⟩ := mark
    exact iff_of_true rfl (List.prefix_append _ _)
  · rw [stripWildcard_of_not mark]
    exact iff_of_false Bool.false_ne_true mark

theorem stripWildcard_spelling {wildcard : Bool} {parts : List Bytes}
    (each : ∀ part ∈ parts, IsLabel part) (nonempty : parts ≠ []) :
    stripWildcard (spelling wildcard parts) = ([dot].intercalate parts, wildcard) := by
  cases wildcard with
  | true => rfl
  | false =>
      refine stripWildcard_of_not fun mark => ?_
      have split : labels ([dot].intercalate parts) = parts :=
        List.splitOn_intercalate dot (fun part mem => (each part mem).noDot) nonempty
      have noStar := ((isLabel_labels_iff _).mp (split.symm ▸ each)).2.2
      exact noStar (mark.subset (List.mem_cons_self ..))

/-- The parser accepts exactly the sentences of the grammar whose labels pass the external
check, and the suffix is what the sentence says. -/
theorem parseDomainSuffix_eq_ok_iff_grammar (parseDnsName : Bytes → Except Bytes Unit)
    (input : Bytes) (suffix : DomainSuffix) :
    parseDomainSuffix parseDnsName input = .ok suffix ↔
      ∃ wildcard parts, parts ≠ [] ∧ (∀ part ∈ parts, IsLabel part) ∧
        input = spelling wildcard parts ∧ parseDnsName ([dot].intercalate parts) = .ok () ∧
        suffix = ⟨toAsciiLowercase ([dot].intercalate parts), wildcard⟩ ∧
        (wildcard = true ↔ [42, dot] <+: input) := by
  rw [parseDomainSuffix_eq_ok_iff, Accepted, validateDomain_eq_ok_iff_labels]
  constructor
  · rintro ⟨⟨each, passed⟩, rfl⟩
    have joined : [dot].intercalate (labels (stripWildcard input).1) = (stripWildcard input).1 :=
      List.intercalate_splitOn dot
    refine ⟨(stripWildcard input).2, labels (stripWildcard input).1, List.splitOn_ne_nil _ _, each,
      ?_, joined.symm ▸ passed, by rw [joined]; rfl, stripWildcard_mark input⟩
    rw [spelling, joined]
    by_cases mark : [42, dot] <+: input
    · obtain ⟨domain, rfl⟩ := mark
      rfl
    · rw [stripWildcard_of_not mark]
      rfl
  · rintro ⟨wildcard, parts, nonempty, each, rfl, passed, rfl, -⟩
    rw [suffixOf, stripWildcard_spelling each nonempty]
    have split : labels ([dot].intercalate parts) = parts :=
      List.splitOn_intercalate dot (fun part mem => (each part mem).noDot) nonempty
    exact ⟨⟨split.symm ▸ each, passed⟩, rfl⟩

example : (parseDomainSuffix (fun _ => .ok ()) (bytes "*.*.corp")).isOk = false := by decide

end Setdns

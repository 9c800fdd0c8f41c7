import Mathlib.Order.Compare
import Setdns.Config.Config
import Setdns.Order.Coalesce

/-!
Normalised domains keep their meaning. A suffix covers the names whose label
list ends with its own, whatever the letter case. The sort puts fewer labels
first, so the byte test against the suffixes kept before is the test for a
covering one, and the normal form is determined by the covered names.
-/

namespace Setdns

open Text

def labels (name : Bytes) : List Bytes := name.splitOn dot

def Covers (suffix name : Bytes) : Prop :=
  labels (toAsciiLowercase suffix) <:+ labels (toAsciiLowercase name)

section Labels

theorem labelCount_eq_length (name : Bytes) : labelCount name = (labels name).length := by
  unfold labelCount labels
  induction name with
  | nil => rfl
  | cons x name ih =>
      rw [List.splitOn_cons_eq_if_modifyHead, List.filter_cons]
      by_cases h : x = dot
      · simp [h, ih]
      · simp [h, ih]

theorem labels_append_dot (front name : Bytes) :
    labels (front ++ dot :: name) = labels front ++ labels name :=
  List.splitOn_append_cons_self front name

theorem labels_injective : Function.Injective labels := by
  intro a b h
  have joined : ∀ d : Bytes, [dot].intercalate (labels d) = d := fun d =>
    List.intercalate_splitOn dot
  rw [← joined a, ← joined b, h]

theorem intercalate_append {front rest : List Bytes} (hf : front ≠ []) (hr : rest ≠ []) :
    [dot].intercalate (front ++ rest) =
      [dot].intercalate front ++ dot :: [dot].intercalate rest := by
  induction front with
  | nil => exact absurd rfl hf
  | cons l front ih =>
      cases front with
      | nil => simp [List.intercalate_cons_of_ne_nil hr]
      | cons l' front =>
          have tail := ih (List.cons_ne_nil l' front)
          rw [List.cons_append, List.cons_append, List.intercalate_cons_cons,
            List.intercalate_cons_cons, ← List.cons_append, tail]
          simp only [List.append_assoc]

/-- A proper tail of the label list starts right after a dot. -/
theorem labels_suffix_iff (suffix name : Bytes) :
    labels suffix <:+ labels name ↔ name = suffix ∨ ∃ front, name = front ++ dot :: suffix := by
  constructor
  · rintro ⟨front, h⟩
    by_cases empty : front = []
    · rw [empty, List.nil_append] at h
      exact .inl (labels_injective h).symm
    · refine .inr ⟨[dot].intercalate front, ?_⟩
      have joined := congrArg [dot].intercalate h
      have hsuffix : labels suffix ≠ [] := List.splitOn_ne_nil dot suffix
      rw [intercalate_append empty hsuffix] at joined
      simpa only [labels, List.intercalate_splitOn] using joined.symm
  · rintro (rfl | ⟨front, rfl⟩)
    · exact List.suffix_rfl
    · rw [labels_append_dot]
      exact List.suffix_append _ _

theorem isChildSuffix_iff (candidate parent : Bytes) :
    isChildSuffix candidate parent = true ↔ ∃ front, candidate = front ++ dot :: parent := by
  simp only [isChildSuffix, Bool.and_eq_true, decide_eq_true_eq, List.isSuffixOf_iff_suffix]
  constructor
  · rintro ⟨⟨longer, front, rfl⟩, before⟩
    have nonempty : front ≠ [] := by
      rintro rfl
      simp at longer
    refine ⟨front.dropLast, ?_⟩
    have last : front.getLast nonempty = dot := by
      have index : (front ++ parent).length - parent.length - 1 = front.length - 1 := by
        simp
      have bound : front.length - 1 < front.length := by
        have := List.length_pos_iff.mpr nonempty
        omega
      rw [index, List.getElem?_append_left bound, List.getElem?_eq_getElem bound] at before
      rw [List.getLast_eq_getElem]
      exact Option.some.inj before
    rw [← last, ← List.singleton_append, ← List.append_assoc, List.dropLast_concat_getLast]
  · rintro ⟨front, rfl⟩
    refine ⟨⟨by simp; omega, front ++ [dot], by simp⟩, ?_⟩
    have index : (front ++ dot :: parent).length - parent.length - 1 = front.length := by
      rw [List.length_append, List.length_cons]
      omega
    rw [index]
    simp

end Labels

section Letters

def asciiLowercase (byte : UInt8) : UInt8 := if 65 ≤ byte ∧ byte ≤ 90 then byte + 32 else byte

theorem toAsciiLowercase_eq (s : Bytes) : toAsciiLowercase s = s.map asciiLowercase := rfl

theorem asciiLowercase_toNat (byte : UInt8) : (asciiLowercase byte).toNat =
    if 65 ≤ byte.toNat ∧ byte.toNat ≤ 90 then byte.toNat + 32 else byte.toNat := by
  unfold asciiLowercase
  simp only [UInt8.le_iff_toNat_le, UInt8.toNat_ofNat]
  split
  · rename_i upper
    have sum : byte.toNat + 32 < 256 := by omega
    simp [UInt8.toNat_add, Nat.mod_eq_of_lt sum]
  · rfl

theorem asciiLowercase_idem (byte : UInt8) :
    asciiLowercase (asciiLowercase byte) = asciiLowercase byte := by
  rw [← UInt8.toNat_inj]
  simp only [asciiLowercase_toNat]
  split_ifs <;> omega

/-- Letters stay letters, so every other byte is its own preimage. -/
theorem asciiLowercase_eq_iff {byte : UInt8} (mark : UInt8) (h : mark.toNat < 65) :
    asciiLowercase byte = mark ↔ byte = mark := by
  rw [← UInt8.toNat_inj, ← UInt8.toNat_inj, asciiLowercase_toNat]
  split <;> omega

theorem asciiLowercase_lt_iff (byte : UInt8) : asciiLowercase byte < 128 ↔ byte < 128 := by
  rw [UInt8.lt_iff_toNat_lt, UInt8.lt_iff_toNat_lt, asciiLowercase_toNat]
  have bound : (128 : UInt8).toNat = 128 := rfl
  split <;> omega

theorem toAsciiLowercase_idem (s : Bytes) :
    toAsciiLowercase (toAsciiLowercase s) = toAsciiLowercase s := by
  simp only [toAsciiLowercase_eq, List.map_map]
  exact List.map_congr_left fun byte _ => asciiLowercase_idem byte

/-- A text of marks, with no letter in it. -/
def Marks (p : Bytes) : Prop := ∀ x ∈ p, x.toNat < 65

instance (p : Bytes) : Decidable (Marks p) :=
  inferInstanceAs (Decidable (∀ x ∈ p, x.toNat < 65))

theorem toAsciiLowercase_marks {m p : Bytes} (marks : Marks p) :
    toAsciiLowercase m = p ↔ m = p := by
  have fixed : ∀ q : Bytes, (∀ x ∈ q, asciiLowercase x = x) → toAsciiLowercase q = q :=
    fun q hq => (List.map_congr_left hq).trans (List.map_id q)
  constructor
  · rintro rfl
    refine (fixed m fun x hx => ?_).symm
    exact ((asciiLowercase_eq_iff _ (marks _ (List.mem_map_of_mem hx))).mp rfl).symm
  · rintro rfl
    exact fixed m fun x hx => (asciiLowercase_eq_iff x (marks x hx)).mpr rfl

theorem infix_toAsciiLowercase {d p : Bytes} (marks : Marks p) :
    p <:+: toAsciiLowercase d ↔ p <:+: d := by
  constructor
  · rintro ⟨front, rest, h⟩
    obtain ⟨left, tail, rfl, hleft, rfl⟩ := List.map_eq_append_iff.mp h.symm
    obtain ⟨head, middle, rfl, rfl, hmiddle⟩ := List.map_eq_append_iff.mp hleft
    exact ⟨head, tail, by rw [(toAsciiLowercase_marks marks).mp hmiddle]⟩
  · rintro ⟨front, rest, rfl⟩
    refine ⟨toAsciiLowercase front, toAsciiLowercase rest, ?_⟩
    simp only [toAsciiLowercase_eq, List.map_append]
    rw [← toAsciiLowercase_eq p, (toAsciiLowercase_marks marks).mpr rfl]

theorem prefix_toAsciiLowercase {d p : Bytes} (marks : Marks p) :
    p <+: toAsciiLowercase d ↔ p <+: d := by
  constructor
  · rintro ⟨rest, h⟩
    obtain ⟨head, tail, rfl, hhead, rfl⟩ := List.map_eq_append_iff.mp h.symm
    exact ⟨tail, by rw [(toAsciiLowercase_marks marks).mp hhead]⟩
  · rintro ⟨rest, rfl⟩
    refine ⟨toAsciiLowercase rest, ?_⟩
    simp only [toAsciiLowercase_eq, List.map_append]
    rw [← toAsciiLowercase_eq p, (toAsciiLowercase_marks marks).mpr rfl]

theorem suffix_toAsciiLowercase {d p : Bytes} (marks : Marks p) :
    p <:+ toAsciiLowercase d ↔ p <:+ d := by
  constructor
  · rintro ⟨front, h⟩
    obtain ⟨head, tail, rfl, rfl, htail⟩ := List.map_eq_append_iff.mp h.symm
    exact ⟨head, by rw [(toAsciiLowercase_marks marks).mp htail]⟩
  · rintro ⟨front, rfl⟩
    refine ⟨toAsciiLowercase front, ?_⟩
    simp only [toAsciiLowercase_eq, List.map_append]
    rw [← toAsciiLowercase_eq p, (toAsciiLowercase_marks marks).mpr rfl]

end Letters

section Validation

variable (parseDnsName : Bytes → Except Bytes Unit)

/-- The external check does not depend on the letter case. -/
def CaseInsensitive : Prop :=
  ∀ a b, toAsciiLowercase a = toAsciiLowercase b →
    (parseDnsName a = .ok () ↔ parseDnsName b = .ok ())

theorem validateDomain_eq_ok_iff (domain : Bytes) :
    validateDomain parseDnsName domain = .ok () ↔
      ¬ (domain.isEmpty ∨ domain = [dot] ∨ [dot] <+: domain ∨ [dot] <:+ domain ∨
        [dot, dot] <:+: domain) ∧ Ascii domain ∧ 42 ∉ domain ∧ parseDnsName domain = .ok () := by
  unfold validateDomain
  split
  · rename_i malformed
    exact iff_of_false (by simp) fun h => h.1 malformed
  · rename_i wellFormed
    rw [eq_true wellFormed, true_and]
    by_cases ascii : Ascii domain
    · by_cases star : 42 ∈ domain
      · simp [ascii, star]
      · cases parsed : parseDnsName domain <;> simp [ascii, star]
    · simp [ascii]

/-- The shape that a domain must not have does not depend on the letter case. -/
theorem malformed_toAsciiLowercase (d : Bytes) :
    ((toAsciiLowercase d).isEmpty ∨ toAsciiLowercase d = [dot] ∨ [dot] <+: toAsciiLowercase d ∨
        [dot] <:+ toAsciiLowercase d ∨ [dot, dot] <:+: toAsciiLowercase d) ↔
      (d.isEmpty ∨ d = [dot] ∨ [dot] <+: d ∨ [dot] <:+ d ∨ [dot, dot] <:+: d) := by
  rw [toAsciiLowercase_marks (by decide), prefix_toAsciiLowercase (by decide),
    suffix_toAsciiLowercase (by decide), infix_toAsciiLowercase (by decide),
    toAsciiLowercase_eq, List.isEmpty_map]

theorem ascii_toAsciiLowercase (d : Bytes) : Ascii (toAsciiLowercase d) ↔ Ascii d := by
  simp only [Ascii, toAsciiLowercase_eq, List.forall_mem_map, asciiLowercase_lt_iff]

theorem validateDomain_congr (insensitive : CaseInsensitive parseDnsName) {a b : Bytes}
    (same : toAsciiLowercase a = toAsciiLowercase b) :
    validateDomain parseDnsName a = .ok () ↔ validateDomain parseDnsName b = .ok () := by
  have star : ∀ d : Bytes, 42 ∈ d ↔ 42 ∈ toAsciiLowercase d := by
    intro d
    simp only [toAsciiLowercase_eq, List.mem_map, asciiLowercase_eq_iff 42 (by decide),
      exists_eq_right]
  rw [validateDomain_eq_ok_iff, validateDomain_eq_ok_iff, ← malformed_toAsciiLowercase a,
    ← malformed_toAsciiLowercase b, ← ascii_toAsciiLowercase a, ← ascii_toAsciiLowercase b,
    star a, star b, insensitive a b same, same]

end Validation

section Inputs

variable (parseDnsName : Bytes → Except Bytes Unit)

/-- The suffix that an accepted input stands for. -/
def suffixOf (input : Bytes) : DomainSuffix :=
  ⟨toAsciiLowercase (stripWildcard input).1, (stripWildcard input).2⟩

def Accepted (input : Bytes) : Prop :=
  validateDomain parseDnsName (stripWildcard input).1 = .ok ()

theorem parseDomainSuffix_eq_ok_iff (input : Bytes) (suffix : DomainSuffix) :
    parseDomainSuffix parseDnsName input = .ok suffix ↔
      Accepted parseDnsName input ∧ suffix = suffixOf input := by
  unfold parseDomainSuffix Accepted suffixOf
  cases h : validateDomain parseDnsName (stripWildcard input).1 with
  | ok _ => simp [h, bind, Except.bind, pure, Except.pure, eq_comm]
  | error _ => simp [h, bind, Except.bind]

theorem mapM_parseDomainSuffix (domains : List Bytes) (suffixes : List DomainSuffix) :
    domains.mapM (parseDomainSuffix parseDnsName) = .ok suffixes ↔
      (∀ d ∈ domains, Accepted parseDnsName d) ∧ suffixes = domains.map suffixOf := by
  induction domains generalizing suffixes with
  | nil => simp [pure, Except.pure, eq_comm]
  | cons d domains ih =>
      rw [List.mapM_cons]
      cases head : parseDomainSuffix parseDnsName d with
      | error e =>
          have rejected : ¬ Accepted parseDnsName d := fun accepted => by
            have ok := (parseDomainSuffix_eq_ok_iff parseDnsName d _).mpr ⟨accepted, rfl⟩
            rw [head] at ok
            cases ok
          exact iff_of_false (by simp [bind, Except.bind])
            fun h => rejected (h.1 d List.mem_cons_self)
      | ok suffix =>
          obtain ⟨accepted, rfl⟩ := (parseDomainSuffix_eq_ok_iff parseDnsName d _).mp head
          cases tail : domains.mapM (parseDomainSuffix parseDnsName) with
          | error e =>
              have rejected : ¬ ∀ d ∈ domains, Accepted parseDnsName d := fun all => by
                have ok := (ih _).mpr ⟨all, rfl⟩
                rw [tail] at ok
                cases ok
              exact iff_of_false (by simp [bind, Except.bind])
                fun h => rejected fun d hd => h.1 d (List.mem_cons_of_mem _ hd)
          | ok rest =>
              obtain ⟨all, rfl⟩ := (ih _).mp tail
              have both : ∀ e ∈ d :: domains, Accepted parseDnsName e :=
                List.forall_mem_cons.mpr ⟨accepted, all⟩
              simp only [bind, Except.bind, pure, Except.pure, Except.ok.injEq, List.map_cons]
              exact ⟨fun h => ⟨both, h.symm⟩, fun h => h.2.symm⟩

theorem stripWildcard_cons (domain : Bytes) : stripWildcard (42 :: 46 :: domain) = (domain, true) :=
  rfl

theorem stripWildcard_of_not {input : Bytes} (h : ¬ [42, 46] <+: input) :
    stripWildcard input = (input, false) := by
  unfold stripWildcard
  split
  · exact absurd ⟨_, rfl⟩ h
  · rfl

theorem stripWildcard_toAsciiLowercase (input : Bytes) :
    stripWildcard (toAsciiLowercase input) =
      (toAsciiLowercase (stripWildcard input).1, (stripWildcard input).2) := by
  by_cases wildcard : [42, 46] <+: input
  · obtain ⟨domain, rfl⟩ := wildcard
    rfl
  · rw [stripWildcard_of_not wildcard, stripWildcard_of_not]
    rwa [prefix_toAsciiLowercase (by decide)]

theorem suffixOf_congr {a b : Bytes} (same : toAsciiLowercase a = toAsciiLowercase b) :
    suffixOf a = suffixOf b := by
  have strip := stripWildcard_toAsciiLowercase a
  rw [same, stripWildcard_toAsciiLowercase, Prod.mk.injEq] at strip
  rw [suffixOf, suffixOf, strip.1, strip.2]

theorem accepted_congr (insensitive : CaseInsensitive parseDnsName) {a b : Bytes}
    (same : toAsciiLowercase a = toAsciiLowercase b) :
    Accepted parseDnsName a ↔ Accepted parseDnsName b :=
  validateDomain_congr parseDnsName insensitive (DomainSuffix.mk.inj (suffixOf_congr same)).1

end Inputs

section Sorting

/-- The test of the coalescing loop, on label lists. -/
def Above (kept suffix : DomainSuffix) : Prop := labels kept.domain <:+ labels suffix.domain

instance : DecidableRel Above :=
  fun kept suffix => inferInstanceAs (Decidable (labels kept.domain <:+ labels suffix.domain))

instance : Std.Refl Above := ⟨fun _ => List.suffix_rfl⟩

instance : IsTrans DomainSuffix Above := ⟨fun _ _ _ => List.IsSuffix.trans⟩

theorem coalesceStep_eq : coalesceStep = Coalesce.step Above := by
  funext kept suffix
  have same : ∀ k : DomainSuffix,
      (decide (suffix.domain = k.domain) || isChildSuffix suffix.domain k.domain) =
        decide (Above k suffix) := by
    intro k
    rw [Bool.eq_iff_iff, Bool.or_eq_true, decide_eq_true_eq, decide_eq_true_eq, isChildSuffix_iff]
    exact (labels_suffix_iff k.domain suffix.domain).symm
  simp only [coalesceStep, Coalesce.step, same]

instance : Std.TransCmp suffixCmp :=
  inferInstanceAs (Std.TransCmp (compareLex _ (compareLex _ _)))

def domainCmp : Bytes → Bytes → Ordering := compareLex (compareOn labelCount) compare

instance : Std.TransCmp domainCmp := inferInstanceAs (Std.TransCmp (compareLex _ _))

instance : Std.LawfulEqCmp domainCmp where
  eq_of_compare h := by
    rw [domainCmp, compareLex_eq_eq] at h
    exact Std.LawfulEqCmp.eq_of_compare h.2

theorem suffixCmp_eq (s t : DomainSuffix) :
    suffixCmp s t = (domainCmp s.domain t.domain).then (compare s.wildcard t.wildcard) := by
  simp only [suffixCmp, domainCmp, compareLex, compareOn, Ordering.then_assoc]

theorem sorted_sortSuffixes (suffixes : List DomainSuffix) :
    (sortSuffixes suffixes).Pairwise fun s t => (suffixCmp s t).isLE = true := by
  have total : Std.Total fun s t => (suffixCmp s t).isLE = true :=
    ⟨fun s t => by
      have swapped : suffixCmp t s = (suffixCmp s t).swap := Std.OrientedCmp.eq_swap
      rw [swapped, Ordering.isLE_swap]
      cases suffixCmp s t <;> simp⟩
  have trans : IsTrans DomainSuffix fun s t => (suffixCmp s t).isLE = true :=
    ⟨fun _ _ _ => Std.TransCmp.isLE_trans⟩
  exact List.pairwise_insertionSort _ suffixes

theorem mem_sortSuffixes {suffixes : List DomainSuffix} {s : DomainSuffix} :
    s ∈ sortSuffixes suffixes ↔ s ∈ suffixes :=
  (List.perm_insertionSort _ suffixes).mem_iff

theorem domainCmp_isLE {s t : DomainSuffix} (h : (suffixCmp s t).isLE = true) :
    (domainCmp s.domain t.domain).isLE = true := by
  rw [suffixCmp_eq] at h
  cases order : domainCmp s.domain t.domain <;> simp_all

theorem labelCount_le {a b : Bytes} (h : (domainCmp a b).isLE = true) :
    labelCount a ≤ labelCount b := by
  by_contra more
  have order : compare (labelCount a) (labelCount b) = .gt := Nat.compare_eq_gt.mpr (by omega)
  simp [domainCmp, compareLex, compareOn, order] at h

/-- Fewer labels come first, so a covering suffix does. -/
theorem parentsFirst_sortSuffixes (suffixes : List DomainSuffix) :
    Coalesce.ParentsFirst Above (sortSuffixes suffixes) := by
  refine (sorted_sortSuffixes suffixes).imp fun {s t} order above => ?_
  have fewer := labelCount_le (domainCmp_isLE order)
  rw [labelCount_eq_length, labelCount_eq_length] at fewer
  have same := above.eq_of_length_le fewer
  rw [Above, same]

/-- Any sort gives this list: suffixes that compare equal are equal. -/
theorem eq_sortSuffixes {suffixes sorted : List DomainSuffix} (perm : sorted.Perm suffixes)
    (order : sorted.Pairwise fun s t => (suffixCmp s t).isLE = true) :
    sorted = sortSuffixes suffixes := by
  have antisymm : ∀ s t : DomainSuffix, (suffixCmp s t).isLE = true →
      (suffixCmp t s).isLE = true → s = t := by
    intro s t hst hts
    have eq : suffixCmp s t = .eq := Std.OrientedCmp.isLE_antisymm hst hts
    rw [suffixCmp_eq, Ordering.then_eq_eq] at eq
    have domains := Std.LawfulEqCmp.eq_of_compare eq.1
    have wildcards := Std.LawfulEqCmp.eq_of_compare eq.2
    cases s
    cases t
    simp_all
  exact (perm.trans (List.perm_insertionSort _ suffixes).symm).eq_of_pairwise
    (fun s t _ _ => antisymm s t) order (sorted_sortSuffixes suffixes)

end Sorting

section Canonical

/-- The result of normalising accepted inputs. -/
def canonical (inputs : List Bytes) : List DomainSuffix :=
  Coalesce.coalesce Above (sortSuffixes (inputs.map suffixOf))

theorem normalizeDomains_eq_ok_iff (parseDnsName : Bytes → Except Bytes Unit)
    (inputs : List Bytes) (out : List DomainSuffix) :
    normalizeDomains parseDnsName inputs = .ok out ↔
      (∀ d ∈ inputs, Accepted parseDnsName d) ∧ out = canonical inputs := by
  unfold normalizeDomains canonical Coalesce.coalesce
  rw [coalesceStep_eq]
  cases parsed : inputs.mapM (parseDomainSuffix parseDnsName) with
  | error e =>
      refine iff_of_false (by simp [bind, Except.bind]) fun h => ?_
      have ok := (mapM_parseDomainSuffix parseDnsName inputs _).mpr ⟨h.1, rfl⟩
      rw [parsed] at ok
      cases ok
  | ok suffixes =>
      obtain ⟨accepted, rfl⟩ := (mapM_parseDomainSuffix parseDnsName inputs _).mp parsed
      simp only [bind, Except.bind, pure, Except.pure, Except.ok.injEq]
      exact ⟨fun h => ⟨accepted, h.symm⟩, fun h => h.2.symm⟩

theorem normalize_eq_ok {parseDnsName : Bytes → Except Bytes Unit} {config : Config}
    {normalized : NormalizedConfig} (h : config.normalize parseDnsName = .ok normalized) :
    ValidOwner normalized.owner ∧ normalized.domains = canonical config.domains ∧
      ∀ d ∈ config.domains, Accepted parseDnsName d := by
  unfold Config.normalize at h
  cases owner : validateOwner config.owner with
  | error e => simp [owner, bind, Except.bind] at h
  | ok _ =>
      cases servers : config.servers.isEmpty with
      | true => simp [owner, servers, bind, Except.bind, throw, throwThe, MonadExceptOf.throw] at h
      | false =>
          cases domains : normalizeDomains parseDnsName config.domains with
          | error e => simp [owner, servers, domains, bind, Except.bind] at h
          | ok out =>
              simp only [owner, servers, domains, bind, Except.bind, pure, Except.pure,
                Bool.false_eq_true, ite_false, Except.ok.injEq] at h
              obtain ⟨accepted, rfl⟩ := (normalizeDomains_eq_ok_iff parseDnsName _ out).mp domains
              subst h
              exact ⟨owner, rfl, accepted⟩

/-- A name is covered by one of the inputs. -/
def CoveredBy (inputs : List Bytes) (name : Bytes) : Prop :=
  ∃ d ∈ inputs, Covers (stripWildcard d).1 name

variable {inputs inputs' : List Bytes} {s t : DomainSuffix}

theorem mem_sorted : s ∈ sortSuffixes (inputs.map suffixOf) ↔ ∃ d ∈ inputs, suffixOf d = s := by
  rw [mem_sortSuffixes, List.mem_map]

theorem exists_input (h : s ∈ canonical inputs) : ∃ d ∈ inputs, suffixOf d = s :=
  mem_sorted.mp ((Coalesce.coalesce_sublist _).subset h)

/-- Every domain of the normal form has passed the checks. -/
theorem canonical_wellFormed {parseDnsName : Bytes → Except Bytes Unit}
    (accepted : ∀ d ∈ inputs, Accepted parseDnsName d) (h : s ∈ canonical inputs) :
    ¬ (s.domain.isEmpty ∨ s.domain = [dot] ∨ [dot] <+: s.domain ∨ [dot] <:+ s.domain ∨
      [dot, dot] <:+: s.domain) ∧ Ascii s.domain := by
  obtain ⟨d, mem, rfl⟩ := exists_input h
  obtain ⟨wellFormed, ascii, -, -⟩ := (validateDomain_eq_ok_iff parseDnsName _).mp (accepted d mem)
  exact ⟨fun malformed => wellFormed ((malformed_toAsciiLowercase _).mp malformed),
    (ascii_toAsciiLowercase _).mpr ascii⟩

theorem toAsciiLowercase_domain (h : s ∈ canonical inputs) :
    toAsciiLowercase s.domain = s.domain := by
  obtain ⟨d, _, rfl⟩ := exists_input h
  exact toAsciiLowercase_idem _

theorem covers_domain_iff (h : s ∈ canonical inputs) (name : Bytes) :
    Covers s.domain name ↔ Above s ⟨toAsciiLowercase name, false⟩ := by
  rw [Covers, toAsciiLowercase_domain h]
  rfl

theorem coveredBy_iff_sorted (name : Bytes) :
    CoveredBy inputs name ↔ ∃ s ∈ sortSuffixes (inputs.map suffixOf),
      Above s ⟨toAsciiLowercase name, false⟩ := by
  constructor
  · rintro ⟨d, mem, covers⟩
    exact ⟨suffixOf d, mem_sorted.mpr ⟨d, mem, rfl⟩, covers⟩
  · rintro ⟨s, found, above⟩
    obtain ⟨d, mem, rfl⟩ := mem_sorted.mp found
    exact ⟨d, mem, above⟩

theorem coveredBy_iff_canonical (name : Bytes) :
    CoveredBy inputs name ↔ ∃ s ∈ canonical inputs, Covers s.domain name := by
  rw [coveredBy_iff_sorted, ← Coalesce.covered_iff]
  exact exists_congr fun s => and_congr_right fun mem => (covers_domain_iff mem name).symm

theorem canonical_antichain (inputs : List Bytes) :
    (canonical inputs).Pairwise fun s t =>
      ¬ Covers s.domain t.domain ∧ ¬ Covers t.domain s.domain := by
  have antichain := Coalesce.coalesce_antichain
    (parentsFirst_sortSuffixes (inputs.map suffixOf))
  refine antichain.imp_of_mem fun {s t} hs ht apart => ?_
  rw [Covers, Covers, toAsciiLowercase_domain hs, toAsciiLowercase_domain ht]
  exact apart

/-- The domains of the normal form stand in strict order. -/
theorem canonical_strict (inputs : List Bytes) :
    ((canonical inputs).map DomainSuffix.domain).Pairwise fun a b => domainCmp a b = .lt := by
  rw [List.pairwise_map]
  have order := (sorted_sortSuffixes (inputs.map suffixOf)).sublist
    (Coalesce.coalesce_sublist _ : (canonical inputs).Sublist _)
  refine order.imp₂ (fun s t order apart => ?_) (canonical_antichain inputs)
  cases cmp : domainCmp s.domain t.domain with
  | lt => rfl
  | eq =>
      have same := Std.LawfulEqCmp.eq_of_compare cmp
      exact absurd (same ▸ List.suffix_rfl) apart.1
  | gt =>
      have le := domainCmp_isLE order
      simp [cmp] at le

/-- What is covered determines the domains and their order. -/
theorem canonical_domains_eq (same : ∀ name, CoveredBy inputs name ↔ CoveredBy inputs' name) :
    (canonical inputs).map DomainSuffix.domain = (canonical inputs').map DomainSuffix.domain := by
  have included : ∀ inputs inputs' : List Bytes,
      (∀ name, CoveredBy inputs name ↔ CoveredBy inputs' name) →
      ∀ a ∈ (canonical inputs).map DomainSuffix.domain,
        a ∈ (canonical inputs').map DomainSuffix.domain := by
    intro inputs inputs' same a mem
    obtain ⟨k, kept, rfl⟩ := List.mem_map.mp mem
    have sorted : ∀ n, n ∈ sortSuffixes (inputs.map suffixOf) ∨
        n ∈ sortSuffixes (inputs'.map suffixOf) →
          ((∃ s ∈ sortSuffixes (inputs.map suffixOf), Above s n) ↔
            ∃ s ∈ sortSuffixes (inputs'.map suffixOf), Above s n) := by
      intro n hn
      have lower : toAsciiLowercase n.domain = n.domain := by
        rcases hn with hn | hn <;> obtain ⟨d, _, rfl⟩ := mem_sorted.mp hn <;>
          exact toAsciiLowercase_idem _
      have names := same n.domain
      rw [coveredBy_iff_sorted, coveredBy_iff_sorted, lower] at names
      exact names
    obtain ⟨k', kept', above, above'⟩ := Coalesce.exists_equivalent
      (parentsFirst_sortSuffixes (inputs.map suffixOf)) sorted k kept
    have equal : labels k'.domain = labels k.domain :=
      above.eq_of_length_le above'.length_le
    exact List.mem_map.mpr ⟨k', kept', labels_injective equal⟩
  have irrefl : Std.Irrefl fun a b => domainCmp a b = .lt := ⟨fun a h => by
    have equal : domainCmp a a = .eq := Std.ReflCmp.compare_self
    rw [equal] at h
    cases h⟩
  have antisymm : Std.Antisymm fun a b => domainCmp a b = .lt := ⟨fun a b hab hba => by
    have swapped : domainCmp a b = (domainCmp b a).swap := Std.OrientedCmp.eq_swap
    rw [swapped, hba] at hab
    cases hab⟩
  refine (canonical_strict inputs).eq_of_mem_iff (canonical_strict inputs') fun a => ⟨?_, ?_⟩
  · exact included inputs inputs' same a
  · exact included inputs' inputs (fun name => (same name).symm) a

/-- Of equal suffixes the plain one comes first, so a kept wildcard stands for
wildcards only. -/
theorem wildcard_iff (h : s ∈ canonical inputs) :
    s.wildcard = true ↔
      ∀ d ∈ inputs, toAsciiLowercase (stripWildcard d).1 = s.domain →
        (stripWildcard d).2 = true := by
  have parents := parentsFirst_sortSuffixes (inputs.map suffixOf)
  constructor
  · intro wildcard d mem same
    have sorted : suffixOf d ∈ sortSuffixes (inputs.map suffixOf) := mem_sorted.mpr ⟨d, mem, rfl⟩
    have found : ∃ k ∈ canonical inputs, Above k (suffixOf d) ∧
        (k = suffixOf d ∨ (suffixCmp k (suffixOf d)).isLE = true) :=
      Coalesce.exists_covering (sorted_sortSuffixes (inputs.map suffixOf)) _ sorted
    obtain ⟨k, kept, above, order⟩ := found
    have reaches : Above k s := by rwa [Above, suffixOf, same] at above
    obtain rfl := Coalesce.eq_of_covers parents kept h reaches
    rcases order with rfl | order
    · exact wildcard
    · have self : domainCmp k.domain k.domain = .eq := Std.ReflCmp.compare_self
      rw [suffixCmp_eq, suffixOf, same, self, wildcard] at order
      cases flag : (stripWildcard d).2 with
      | true => rfl
      | false => simp [flag, compare] at order
  · intro all
    obtain ⟨d, mem, rfl⟩ := exists_input h
    exact all d mem rfl

/-- Changes of the list that do not change what it covers. -/
inductive Variant (parseDnsName : Bytes → Except Bytes Unit) : List Bytes → List Bytes → Prop
  | reorder {inputs inputs' : List Bytes} (perm : inputs.Perm inputs') :
      Variant parseDnsName inputs inputs'
  | repeated {inputs : List Bytes} {d : Bytes} (mem : d ∈ inputs) :
      Variant parseDnsName inputs (d :: inputs)
  | recase {front rest : List Bytes} {d d' : Bytes}
      (same : toAsciiLowercase d = toAsciiLowercase d') :
      Variant parseDnsName (front ++ d :: rest) (front ++ d' :: rest)
  | wildcard {front rest : List Bytes} {d : Bytes} (plain : ¬ [42, dot] <+: d) :
      Variant parseDnsName (front ++ d :: rest) (front ++ (42 :: dot :: d) :: rest)
  | child {inputs : List Bytes} {d c : Bytes} (mem : d ∈ inputs)
      (accepted : Accepted parseDnsName c)
      (covers : Covers (stripWildcard d).1 (stripWildcard c).1) :
      Variant parseDnsName inputs (c :: inputs)

/-- Replacing one input by another with the same suffix. -/
theorem coveredBy_replace {front rest : List Bytes} {d d' : Bytes}
    (same : toAsciiLowercase (stripWildcard d).1 = toAsciiLowercase (stripWildcard d').1)
    (name : Bytes) :
    CoveredBy (front ++ d :: rest) name ↔ CoveredBy (front ++ d' :: rest) name := by
  simp only [CoveredBy, List.mem_append, List.mem_cons, or_and_right, exists_or, exists_eq_left,
    Covers, same]

theorem variant_accepted {parseDnsName : Bytes → Except Bytes Unit}
    (insensitive : CaseInsensitive parseDnsName) (variant : Variant parseDnsName inputs inputs')
    (accepted : ∀ d ∈ inputs, Accepted parseDnsName d) :
    (∀ d ∈ inputs', Accepted parseDnsName d) ∧
      ∀ name, CoveredBy inputs name ↔ CoveredBy inputs' name := by
  cases variant with
  | reorder perm =>
      exact ⟨fun d mem => accepted d (perm.mem_iff.mpr mem),
        fun name => exists_congr fun d => and_congr_left fun _ => perm.mem_iff⟩
  | repeated mem =>
      refine ⟨List.forall_mem_cons.mpr ⟨accepted _ mem, accepted⟩, fun name => ?_⟩
      simp only [CoveredBy, List.mem_cons, or_and_right, exists_or, exists_eq_left]
      exact ⟨.inr, fun h => h.elim (fun covers => ⟨_, mem, covers⟩) id⟩
  | @recase front rest d d' same =>
      have all := List.forall_mem_append.mp accepted
      have tail := List.forall_mem_cons.mp all.2
      refine ⟨List.forall_mem_append.mpr ⟨all.1, List.forall_mem_cons.mpr ⟨?_, tail.2⟩⟩, ?_⟩
      · exact (accepted_congr parseDnsName insensitive same).mp tail.1
      · exact coveredBy_replace (DomainSuffix.mk.inj (suffixOf_congr same)).1
  | @wildcard front rest d plain =>
      have strip : (stripWildcard d).1 = (stripWildcard (42 :: dot :: d)).1 := by
        rw [stripWildcard_of_not plain, stripWildcard_cons]
      have all := List.forall_mem_append.mp accepted
      have tail := List.forall_mem_cons.mp all.2
      refine ⟨List.forall_mem_append.mpr ⟨all.1, List.forall_mem_cons.mpr ⟨?_, tail.2⟩⟩, ?_⟩
      · have here := tail.1
        rwa [Accepted, strip] at here
      · exact coveredBy_replace (by rw [strip])
  | child mem childAccepted covers =>
      refine ⟨List.forall_mem_cons.mpr ⟨childAccepted, accepted⟩, fun name => ?_⟩
      simp only [CoveredBy, List.mem_cons, or_and_right, exists_or, exists_eq_left]
      exact ⟨.inr, fun h => h.elim (fun below => ⟨_, mem, covers.trans below⟩) id⟩

/-- Feeding the normal form back in. -/
theorem canonical_accepted {parseDnsName : Bytes → Except Bytes Unit}
    (insensitive : CaseInsensitive parseDnsName)
    (accepted : ∀ d ∈ inputs, Accepted parseDnsName d) :
    (∀ d ∈ (canonical inputs).map DomainSuffix.domain, Accepted parseDnsName d) ∧
      ∀ name, CoveredBy inputs name ↔
        CoveredBy ((canonical inputs).map DomainSuffix.domain) name := by
  have plain : ∀ s ∈ canonical inputs,
      validateDomain parseDnsName s.domain = .ok () ∧
        stripWildcard s.domain = (s.domain, false) := by
    intro s mem
    obtain ⟨d, memInputs, rfl⟩ := exists_input mem
    have valid := (validateDomain_congr parseDnsName insensitive
      (toAsciiLowercase_idem (stripWildcard d).1).symm).mp (accepted d memInputs)
    refine ⟨valid, stripWildcard_of_not fun prefixed => ?_⟩
    exact ((validateDomain_eq_ok_iff parseDnsName _).mp valid).2.2.1
      (prefixed.subset List.mem_cons_self)
  constructor
  · intro d mem
    obtain ⟨s, kept, rfl⟩ := List.mem_map.mp mem
    rw [Accepted, (plain s kept).2]
    exact (plain s kept).1
  · intro name
    rw [coveredBy_iff_canonical]
    constructor
    · rintro ⟨s, kept, covers⟩
      exact ⟨s.domain, List.mem_map_of_mem kept, by rwa [(plain s kept).2]⟩
    · rintro ⟨d, mem, covers⟩
      obtain ⟨s, kept, rfl⟩ := List.mem_map.mp mem
      exact ⟨s, kept, by rwa [(plain s kept).2] at covers⟩

/-- Normalising keeps the covered names, leaves nothing redundant, depends on
the covered names only, and keeps a wildcard that every equal input carried. -/
theorem normalizeDomains_canonical (parseDnsName : Bytes → Except Bytes Unit)
    (insensitive : CaseInsensitive parseDnsName) {out : List DomainSuffix}
    (normalized : normalizeDomains parseDnsName inputs = .ok out) :
    (∀ name, CoveredBy inputs name ↔ ∃ s ∈ out, Covers s.domain name) ∧
      out.Pairwise (fun s t => ¬ Covers s.domain t.domain ∧ ¬ Covers t.domain s.domain) ∧
      (∀ inputs' out', normalizeDomains parseDnsName inputs' = .ok out' →
        (∀ name, CoveredBy inputs name ↔ CoveredBy inputs' name) →
        out'.map DomainSuffix.domain = out.map DomainSuffix.domain) ∧
      (∀ inputs', Variant parseDnsName inputs inputs' ∨ inputs' = out.map DomainSuffix.domain →
        ∃ out', normalizeDomains parseDnsName inputs' = .ok out' ∧
          out'.map DomainSuffix.domain = out.map DomainSuffix.domain) ∧
      ∀ s ∈ out, s.wildcard = true ↔ ∀ d ∈ inputs,
        toAsciiLowercase (stripWildcard d).1 = s.domain → (stripWildcard d).2 = true := by
  obtain ⟨accepted, rfl⟩ := (normalizeDomains_eq_ok_iff parseDnsName inputs out).mp normalized
  refine ⟨coveredBy_iff_canonical, canonical_antichain inputs, ?_, ?_, fun s => wildcard_iff⟩
  · intro inputs' out' normalized' same
    obtain ⟨_, rfl⟩ := (normalizeDomains_eq_ok_iff parseDnsName inputs' out').mp normalized'
    exact (canonical_domains_eq same).symm
  · intro inputs' change
    have kept : (∀ d ∈ inputs', Accepted parseDnsName d) ∧
        ∀ name, CoveredBy inputs name ↔ CoveredBy inputs' name := by
      rcases change with variant | rfl
      · exact variant_accepted insensitive variant accepted
      · exact canonical_accepted insensitive accepted
    exact ⟨_, (normalizeDomains_eq_ok_iff parseDnsName inputs' _).mpr ⟨kept.1, rfl⟩,
      (canonical_domains_eq kept.2).symm⟩

def sampleInputs : List Bytes :=
  [bytes "dev.corp.internal", bytes "*.Corp.Internal", bytes "notcorp.internal"]

def sampleOutputs : List DomainSuffix :=
  [⟨bytes "corp.internal", true⟩, ⟨bytes "notcorp.internal", false⟩]

set_option maxRecDepth 4000 in
theorem normalizeDomains_sample :
    (∀ name, CoveredBy sampleInputs name ↔ ∃ s ∈ sampleOutputs, Covers s.domain name) ∧
      ∀ s ∈ sampleOutputs, s.wildcard = true ↔ ∀ d ∈ sampleInputs,
        toAsciiLowercase (stripWildcard d).1 = s.domain → (stripWildcard d).2 = true := by
  have accepting : CaseInsensitive fun _ => .ok () := fun _ _ _ => Iff.rfl
  have normalized : normalizeDomains (fun _ => .ok ()) sampleInputs = .ok sampleOutputs := by
    decide
  have normal := normalizeDomains_canonical (fun _ => .ok ()) accepting normalized
  exact ⟨normal.1, normal.2.2.2.2⟩

end Canonical

end Setdns

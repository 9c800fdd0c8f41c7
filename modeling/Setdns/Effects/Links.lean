import Setdns.Effects.Files

/-!
Where a chain of symbolic links leads, and what becomes of the chain when an entry
is replaced, removed or moved. A chain that leads somewhere passes no path twice, and
it only depends on the entries that it passes.
-/

namespace Effects.Files

open Text

/-- From one path to another over so many links, and no further. -/
inductive Leads (walk : Bytes → Bytes) (fs : Fs) : Nat → Bytes → Bytes → Prop
  | here {p : Bytes} (stop : ¬ IsLink fs p) : Leads walk fs 0 p p
  | next {k : Nat} {p q target : Bytes} (link : fs p = some (.link target))
      (rest : Leads walk fs k (walk target) q) : Leads walk fs (k + 1) p q

variable {walk : Bytes → Bytes} {fs fs' : Fs} {p q r src dst target content : Bytes} {k m n : Nat}

namespace Leads

theorem stop (h : Leads walk fs k p q) : ¬ IsLink fs q := by
  induction h with
  | here stop => exact stop
  | next _ _ ih => exact ih

theorem unique {q' : Bytes} {k' : Nat} (h : Leads walk fs k p q) (h' : Leads walk fs k' p q') :
    k = k' ∧ q = q' := by
  induction h generalizing k' with
  | here stop =>
      cases h' with
      | here => exact ⟨rfl, rfl⟩
      | next link _ => exact absurd ⟨_, link⟩ stop
  | next link _ ih =>
      cases h' with
      | here stop => exact absurd ⟨_, link⟩ stop
      | next link' rest =>
          cases link.symm.trans link'
          obtain ⟨rfl, rfl⟩ := ih rest
          exact ⟨rfl, rfl⟩

theorem chase (h : Leads walk fs k p q) (le : k ≤ n) : chase walk fs n p = q := by
  induction h generalizing n with
  | here stop => exact chase_of_not_link walk stop n
  | next link _ ih =>
      cases n with
      | zero => omega
      | succ n =>
          rw [Files.chase, link]
          exact ih (by omega)

theorem follow (h : Leads walk fs k p q) (le : k ≤ maxLinks) : follow walk fs p = q :=
  h.chase le

/-- A chain changes with an entry only if it passes it. -/
theorem update (h : Leads walk fs k p q) (r : Bytes) (e : Option Entry) :
    Leads walk (Function.update fs r e) k p q ∨ ∃ j, j ≤ k ∧ Leads walk fs j r q := by
  induction h with
  | @here p stop =>
      by_cases same : p = r
      · exact .inr ⟨0, Nat.le_refl 0, same ▸ .here stop⟩
      · refine .inl (.here fun ⟨target, link⟩ => stop ⟨target, ?_⟩)
        rwa [Function.update_of_ne same] at link
  | @next k p q target link rest ih =>
      by_cases same : p = r
      · exact .inr ⟨k + 1, Nat.le_refl _, same ▸ .next link rest⟩
      cases ih with
      | inl rest => exact .inl (.next (by rw [Function.update_of_ne same, link]) rest)
      | inr passes =>
          obtain ⟨j, le, rest⟩ := passes
          exact .inr ⟨j, by omega, rest⟩

/-- What is reached without an entry is reached with it. -/
theorem of_update_none (h : Leads walk (Function.update fs r none) k p q) (other : q ≠ r) :
    Leads walk fs k p q := by
  induction h with
  | here stop =>
      refine .here fun ⟨target, link⟩ => stop ⟨target, ?_⟩
      rwa [Function.update_of_ne other]
  | @next k p q target link _ ih =>
      by_cases same : p = r
      · rw [same, Function.update_self] at link
        cases link
      · rw [Function.update_of_ne same] at link
        exact .next link (ih other)

/-- A chain that is continued where it led to has all the links of both parts. -/
theorem continued (h : Leads walk fs m p r)
    (h' : Leads walk (Function.update fs r (some (.link target))) k p q) :
    ∃ j, k = m + j ∧ Leads walk (Function.update fs r (some (.link target))) j r q := by
  induction h generalizing k with
  | here => exact ⟨k, by omega, h'⟩
  | @next m p r target' link rest ih =>
      have other : p ≠ r := by
        rintro rfl
        exact rest.stop ⟨_, link⟩
      cases h' with
      | here stop =>
          exact absurd ⟨target', by rw [Function.update_of_ne other, link]⟩ stop
      | next link' rest' =>
          rw [Function.update_of_ne other, link] at link'
          cases link'
          obtain ⟨j, sum, rest''⟩ := ih rest'
          exact ⟨j, by omega, rest''⟩

end Leads

theorem exists_leads (stop : ¬ IsLink fs (chase walk fs n p)) :
    ∃ k, k ≤ n ∧ Leads walk fs k p (chase walk fs n p) := by
  induction n generalizing p with
  | zero => exact ⟨0, Nat.le_refl 0, .here stop⟩
  | succ n ih =>
      by_cases link : IsLink fs p
      · obtain ⟨target, link⟩ := link
        have next : chase walk fs (n + 1) p = chase walk fs n (walk target) := by
          rw [chase, link]
        rw [next] at stop ⊢
        obtain ⟨k, le, rest⟩ := ih stop
        exact ⟨k + 1, by omega, .next link rest⟩
      · rw [chase_of_not_link walk link]
        exact ⟨0, Nat.zero_le _, .here link⟩

theorem follow_leads (stop : ¬ IsLink fs (follow walk fs p)) :
    ∃ k, k ≤ maxLinks ∧ Leads walk fs k p (follow walk fs p) :=
  exists_leads stop

section Ends

theorem not_link_of_file (file : fs p = some (.file content)) : ¬ IsLink fs p := by
  rintro ⟨target, link⟩
  cases file.symm.trans link

theorem not_link_of_none (free : fs p = none) : ¬ IsLink fs p := by
  rintro ⟨target, link⟩
  cases free.symm.trans link

/-- What can be opened for writing is no link and no directory in the end. -/
theorem plain_of_opens (opens : refusal walk fs p = none) : Plain fs (follow walk fs p) := by
  rw [plain_iff]
  unfold refusal at opens
  cases entry : fs (follow walk fs p) with
  | none => exact .inl rfl
  | some e =>
      cases e with
      | file content => exact .inr ⟨content, rfl⟩
      | link target => simp [entry] at opens
      | dir => simp [entry] at opens

theorem opens_of_plain_end (plain : Plain fs (follow walk fs p)) : refusal walk fs p = none := by
  unfold refusal
  rcases plain_iff.mp plain with free | ⟨content, file⟩
  · rw [free]
  · rw [file]

end Ends

section Changes

/-- Files come and go without an effect on where links lead. -/
theorem follow_update (before : ¬ IsLink fs r) {e : Option Entry}
    (after : ∀ target, e ≠ some (.link target)) (p : Bytes) :
    follow walk (Function.update fs r e) p = follow walk fs p := by
  have same : ∀ path target, fs path = some (.link target) ↔
      Function.update fs r e path = some (.link target) := by
    intro path target
    by_cases here : path = r
    · subst here
      rw [Function.update_self]
      exact iff_of_false (fun link => before ⟨target, link⟩) (after target)
    · rw [Function.update_of_ne here]
  have chases : ∀ n p, chase walk (Function.update fs r e) n p = chase walk fs n p := by
    intro n
    induction n with
    | zero => exact fun _ => rfl
    | succ n ih =>
        intro p
        by_cases link : IsLink fs p
        · obtain ⟨target, link⟩ := link
          rw [chase, chase, link, (same p target).mp link]
          exact ih _
        · have link' : ¬ IsLink (Function.update fs r e) p :=
            mt (Exists.imp fun target => (same p target).mpr) link
          rw [chase_of_not_link walk link, chase_of_not_link walk link']
  exact chases maxLinks p

theorem follow_update_file (before : ¬ IsLink fs r) (content p : Bytes) :
    follow walk (Function.update fs r (some (.file content))) p = follow walk fs p :=
  follow_update before (by simp) p

/-- A path that leads somewhere else is not concerned. -/
theorem follow_update_of_ne (stop : ¬ IsLink fs (follow walk fs p))
    (apart : follow walk fs r ≠ follow walk fs p) (e : Option Entry) :
    follow walk (Function.update fs r e) p = follow walk fs p := by
  obtain ⟨k, le, leads⟩ := follow_leads stop
  cases leads.update r e with
  | inl leads => exact leads.follow le
  | inr passes =>
      obtain ⟨j, le', passed⟩ := passes
      exact absurd (passed.follow (by omega)) apart

/-- A file that can be read without an entry can be read with it. -/
theorem readFile_of_unlink (h : readFile walk (unlink fs r) p = .ok content) :
    readFile walk fs p = .ok content := by
  have file := readFile_ok_iff.mp h
  obtain ⟨k, le, leads⟩ := follow_leads (not_link_of_file file)
  have other : follow walk (unlink fs r) p ≠ r := by
    intro same
    rw [same, unlink, Function.update_self] at file
    cases file
  have kept : unlink fs r (follow walk (unlink fs r) p) = fs (follow walk (unlink fs r) p) :=
    Function.update_of_ne other _ _
  rw [readFile_ok_iff, (leads.of_update_none other).follow le, ← kept, file]

/-- The links behind a link lead on without it. -/
theorem leads_behind (link : fs src = some (.link target))
    (stop : ¬ IsLink fs (follow walk fs src)) (e : Option Entry) :
    ∃ k, k < maxLinks ∧
      Leads walk (Function.update fs src e) k (walk target) (follow walk fs src) := by
  obtain ⟨k, le, leads⟩ := follow_leads stop
  generalize follow walk fs src = q at leads
  cases leads with
  | here stop => exact absurd ⟨_, link⟩ stop
  | @next k _ _ target' link' rest =>
      cases link.symm.trans link'
      refine ⟨k, by omega, (rest.update src e).resolve_right ?_⟩
      rintro ⟨j, le', passed⟩
      have := (passed.unique (.next link rest)).1
      omega

/-- A link that is moved still leads to where it led, unless its new place is passed on the way. -/
theorem follow_moved (link : fs src = some (.link target))
    (stop : ¬ IsLink fs (follow walk fs src)) (ne : src ≠ dst)
    (free : (¬ IsLink fs dst ∧ follow walk fs src ≠ dst) ∨ fs dst = fs src) :
    follow walk (move fs src dst) dst = follow walk fs src := by
  obtain ⟨k, lt, behind⟩ := leads_behind link stop none
  have there : move fs src dst dst = some (.link target) := by rw [move, Function.update_self, link]
  have same : Function.update fs src none dst = fs dst := Function.update_of_ne ne.symm _ _
  have leads : Leads walk (move fs src dst) k (walk target) (follow walk fs src) := by
    refine (behind.update dst (fs src)).resolve_right ?_
    rintro ⟨j, le, passed⟩
    cases free with
    | inl free =>
        obtain ⟨notLink, other⟩ := free
        have here : ¬ IsLink (Function.update fs src none) dst := by rwa [IsLink, same]
        exact other (passed.unique (.here here)).2
    | inr equal =>
        have link' : Function.update fs src none dst = some (.link target) := by
          rw [same, equal, link]
        have := (passed.unique (.next link' behind)).1
        omega
  exact (Leads.next there leads).follow lt

/-- A link that is moved to where it leads is a loop. -/
theorem isLink_moved (link : fs src = some (.link target)) (stop : ¬ IsLink fs dst)
    (leads : follow walk fs src = dst) :
    IsLink (move fs src dst) (follow walk (move fs src dst) dst) := by
  by_contra resolved
  obtain ⟨m, -, behind⟩ := leads_behind link (leads ▸ stop) none
  rw [leads] at behind
  obtain ⟨k, -, around⟩ := follow_leads resolved
  have there : move fs src dst dst = some (.link target) := by rw [move, Function.update_self, link]
  generalize follow walk (move fs src dst) dst = q at around
  have around' := around
  cases around' with
  | here stop => exact stop ⟨target, there⟩
  | @next k _ _ target' link' rest =>
      cases there.symm.trans link'
      have moved : move fs src dst = Function.update (Function.update fs src none) dst
          (some (.link target)) := by rw [move, link]
      rw [moved] at rest around
      obtain ⟨j, sum, again⟩ := behind.continued rest
      have := (again.unique around).1
      omega

end Changes

end Effects.Files

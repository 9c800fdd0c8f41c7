import Setdns.Windows.Recorded

/-!
The cleanup of an owner. Its removals and its look-ups ignore failures, so it
leaves no rule of the owner only where no failure hits a call on which one of
these rules depends. `Harmless` says which calls may fail in a state, and
`sound` is the world in which only those do.

The rules in question are those of the `mine` owners: the owner itself, or every
owner that names the same state key.
-/

namespace Setdns.Windows.Nrpt

open Text Effects Effects.Program Effects.Registry

section Sound

variable (order : Enumeration) (owner : Bytes) (mine : Bytes → Prop)

/-- The rule is not one of these owners'. -/
def Spared (s : Machine) (k : Bytes) : Prop := ∀ o, tag s k = some o → ¬ mine o

/-- These owners have no rule. -/
def Clear (s : Machine) : Prop := ∀ k, Spared mine s k

/-- Only the owner itself has rules. -/
def Alone (s : Machine) : Prop := ∀ k o, tag s k = some o → mine o → o = owner

/-- No rule depends on the success of the call. -/
def Harmless (s : Machine) : RegCall → Prop
  | .removeTree path => path.base = nrptBase → Spared mine s (fold path.name)
  | .openKey path =>
      (path.base = nrptBase → Spared mine s (fold path.name)) ∧
        (path.base = stateBase → s.values stateBase (fold path.name) ≠ none → Clear mine s)
  | .getString path name =>
      path.base = nrptBase → name = ownerValue → Spared mine s (fold path.name)
  | .openBase base | .keys base => base = nrptBase → Clear mine s
  | .nextKey base index => base = nrptBase → (s.names nrptBase).length ≤ index ∨ Clear mine s
  | .getMultiString path name =>
      Alone owner mine s ∧
        ((∃ ids, s.value path name = some (.multiString ids)) → Single owner s)
  | .createGuid => Clear mine s
  | .create _ | .setValue _ _ _ => True

/-- Only harmless calls fail. -/
def sound : World RegCall RegCall.Ret Machine :=
  (faulty order Fresh).restrict fun s c r => (∃ e, r = failure e c) → Harmless owner mine s c

/-- The other owners whose rules have to stay recorded. -/
def Others (s : Machine) : Prop :=
  ∀ o, o ≠ owner → mine o ∨ fold o ≠ fold owner → Recorded o s

end Sound

variable {order : Enumeration} {owner : Bytes} {mine : Bytes → Prop} {s s' : Machine} {k : Bytes}

theorem spared_of_none (gone : s.values nrptBase k = none) : Spared mine s k := by
  intro o tagged
  simp [tag, gone] at tagged

theorem Loses.spared (h : Loses s s') (spared : Spared mine s k) : Spared mine s' k :=
  fun o tagged => spared o (h.tag tagged)

theorem Clear.alone (clear : Clear mine s) : Alone owner mine s :=
  fun k o tagged own => absurd own (clear k o tagged)

theorem Others.fewer (h : Others owner mine s) (states : SameStates s s')
    (fewer : ∀ k o, o ≠ owner → tag s' k = some o → tag s k = some o) : Others owner mine s' :=
  fun o ne kind => (h o ne kind).fewer states fun k => fewer k o ne

theorem Others.loses (h : Others owner mine s) (loses : Loses s s') : Others owner mine s' :=
  h.fewer loses.states fun _ _ _ => loses.tag

/-- What happens to the state key of the owner concerns no other owner that has rules. -/
theorem Others.keeps (h : Others owner mine s) (alone : Alone owner mine s)
    (keeps : Keeps owner s s') : Others owner mine s' := by
  intro o ne kind
  by_cases far : fold o = fold owner
  · have own : mine o := kind.resolve_right (not_not_intro far)
    exact recorded_of_untagged fun k tagged => ne (alone k o ((keeps.tags k).symm.trans tagged) own)
  · exact (h o ne kind).keeps keeps far

theorem clear_of_alone (alone : Alone owner mine s) (none : ∀ k, tag s k ≠ some owner) :
    Clear mine s := by
  rintro k o tagged self
  obtain rfl := alone k o tagged self
  exact none k tagged

/-- Without faults a call fails only where nothing depends on it, except for a
record that has no list of rules. -/
theorem sound_of_calm {c : RegCall} {r : RegCall.Ret c} (a : (calm order Fresh).answers s c r s')
    (alone : ∀ path name, c = .getMultiString path name → Alone owner mine s) :
    (sound order owner mine).answers s c r s' := by
  refine ⟨.inl a, ?_⟩
  rintro ⟨e, failed⟩
  obtain ⟨guid, _, performed⟩ := a
  have answer := (Prod.mk.inj performed).1.trans failed
  cases c with
  | removeTree path =>
      intro here
      refine spared_of_none ?_
      cases present : s.find path.base (fold path.name) with
      | none => simp [Hive.values, ← here, present]
      | some key => simp [present, Registry.failure] at answer
  | openKey path =>
      have gone : s.values path.base (fold path.name) = none := by
        cases present : s.values path.base (fold path.name) with
        | none => rfl
        | some values => simp [present, Registry.failure] at answer
      exact ⟨fun here => spared_of_none (here ▸ gone), fun here there => absurd (here ▸ gone) there⟩
  | openBase base =>
      rintro rfl
      cases present : s nrptBase with
      | none => exact fun k => spared_of_none (by simp [Hive.values, Hive.find, present])
      | some keys => simp [present, Registry.failure] at answer
  | keys base => cases answer
  | nextKey base index =>
      rintro rfl
      refine .inl ?_
      cases number : (order.list (s.names nrptBase))[index]? with
      | none =>
          rw [← (order.perm _).length_eq]
          exact List.getElem?_eq_none_iff.mp number
      | some name => simp [number, Registry.failure] at answer
  | createGuid => cases answer
  | getString path name =>
      rintro here rfl o tagged
      have found : s.value path ownerValue = some (.string o) := by
        rw [tag] at tagged
        rw [Hive.value, here]
        cases values : s.values nrptBase (fold path.name) with
        | none => simp [values] at tagged
        | some values' =>
            simp only [values, Option.bind_some] at tagged ⊢
            split at tagged <;> simp_all
      simp [Hive.stringOf, found, Registry.failure] at answer
  | getMultiString path name =>
      refine ⟨alone path name rfl, ?_⟩
      rintro ⟨ids, found⟩
      simp [Hive.multiStringOf, found, Registry.failure] at answer
  | create path => trivial
  | setValue path name data => trivial

section Cleanup

theorem sound_torn {c : RegCall} (cut : (sound order owner mine).torn s c s') : s' = s := cut

/-- One call in the sound world, which leaves everything as it is when it is cut short. -/
theorem safe_call {α : Type} {I : Machine → Prop} {Q : α → Machine → Prop} {c : RegCall}
    {next : RegCall.Ret c → Io α} (here : I s)
    (rest : ∀ r s', (sound order owner mine).answers s c r s' →
      Safe (sound order owner mine) I Q (next r) s') :
    Safe (sound order owner mine) I Q (.call c next) s :=
  ⟨here, fun _ cut => sound_torn cut ▸ here, rest⟩

theorem safe_look {α : Type} {I : Machine → Prop} {Q : α → Machine → Prop} {c : RegCall}
    {next : RegCall.Ret c → Io α} (quiet : Registry.Quiet c) (here : I s)
    (rest : ∀ r, (sound order owner mine).answers s c r s →
      Safe (sound order owner mine) I Q (next r) s) :
    Safe (sound order owner mine) I Q (.call c next) s :=
  Safe.quiet ((quiet_faulty quiet).restrict _) here rest

/-- A removal that was tried leaves no rule of these owners at the key. -/
theorem removeTree_spared {ruleId : Bytes} {r : Except RegError Unit}
    (a : (sound order owner mine).answers s (.removeTree (rulePath ruleId)) r s') :
    Loses s s' ∧ Spared mine s' (fold ruleId) := by
  obtain ⟨loses, gone⟩ := removeTree_rule a.1
  refine ⟨loses, ?_⟩
  cases r with
  | ok _ => exact spared_of_none (gone rfl).2
  | error e => exact loses.spared (a.2 ⟨e, rfl⟩ rfl)

theorem removeRules_safe (ruleIds : List Bytes) (s : Machine) :
    Safe (sound order owner mine) (Loses s) (fun _ s' => ∀ id ∈ ruleIds, Spared mine s' (fold id))
      (removeRules ruleIds) s := by
  induction ruleIds generalizing s with
  | nil => exact ⟨Loses.refl s, by simp⟩
  | cons ruleId ruleIds ih =>
      refine safe_call (Loses.refl s) fun r s₁ a => ?_
      obtain ⟨loses, spared⟩ := removeTree_spared a
      refine (ih s₁).imp (fun t lost => loses.trans lost) fun _ t lost rest id listed => ?_
      rcases List.mem_cons.mp listed with rfl | later
      · exact lost.spared spared
      · exact rest id later

theorem tag_of_found {ruleId found : Bytes}
    (value : s.value (rulePath ruleId) ownerValue = some (.string found)) :
    tag s (fold ruleId) = some found := by
  obtain ⟨values, there, data⟩ := Option.bind_eq_some_iff.mp value
  have rule : s.values nrptBase (fold ruleId) = some values := there
  simp [tag, rule, data]

/-- The enumeration, whatever it lists, only removes rules. -/
theorem removeTaggedRules_loses (index remaining : Nat) (s : Machine) :
    Safe (sound order owner mine) (Loses s) (fun _ _ => True)
      (removeTaggedRules owner index remaining) s := by
  induction remaining generalizing index s with
  | zero => exact ⟨Loses.refl s, trivial⟩
  | succ remaining ih =>
      refine safe_look trivial (Loses.refl s) fun next _ => ?_
      cases next with
      | error e => exact ⟨Loses.refl s, trivial⟩
      | ok ruleId =>
          refine safe_look trivial (Loses.refl s) fun opened _ => ?_
          cases opened with
          | error e => exact ih (index + 1) s
          | ok _ =>
              refine safe_look trivial (Loses.refl s) fun read _ => ?_
              cases read with
              | error e => exact ih (index + 1) s
              | ok found =>
                  show Safe _ _ _ (if found = owner then _ else _) s
                  split
                  · refine safe_call (Loses.refl s) fun r s₁ a => ?_
                    exact (ih (index + 1) s₁).imp (fun _ => (removeTree_spared a).1.trans)
                      fun _ _ _ _ => trivial
                  · exact ih (index + 1) s

theorem removeTaggedRules_untagged (index remaining : Nat) (none : ∀ k, tag s k ≠ some owner) :
    Safe (sound order owner mine) (Loses s) (fun _ t => ∀ k, tag t k ≠ some owner)
      (removeTaggedRules owner index remaining) s :=
  (removeTaggedRules_loses index remaining s).post fun _ _ loses _ k tagged =>
    none k (loses.tag tagged)

/-- The rule that has not been listed yet. Up to its removal the numbers stay the same. -/
def Pending (order : Enumeration) (owner : Bytes) (index : Nat) (s : Machine) : Prop :=
  ∀ k, tag s k = some owner → ∃ (number : Nat) (name : Bytes), index ≤ number ∧
    (order.list (s.names nrptBase))[number]? = some name ∧ fold name = k

theorem Pending.none_left (pending : Pending order owner index s)
    (all : index = (s.names nrptBase).length) (k : Bytes) : tag s k ≠ some owner := by
  intro tagged
  obtain ⟨number, name, later, listed, -⟩ := pending k tagged
  have inside := (List.getElem?_eq_some_iff.mp listed).1
  rw [(order.perm _).length_eq] at inside
  omega

theorem Pending.next {ruleId : Bytes} (pending : Pending order owner index s)
    (here : (order.list (s.names nrptBase))[index]? = some ruleId)
    (untagged : tag s (fold ruleId) ≠ some owner) : Pending order owner (index + 1) s := by
  intro k tagged
  obtain ⟨number, name, later, listed, spelled⟩ := pending k tagged
  refine ⟨number, name, ?_, listed, spelled⟩
  rcases Nat.lt_or_eq_of_le later with lt | rfl
  · exact lt
  · rw [here, Option.some.injEq] at listed
    subst listed spelled
    exact absurd tagged untagged

/-- A single rule of the owner is found. -/
theorem removeTaggedRules_safe (self : mine owner) (single : Single owner s)
    (index remaining : Nat) (all : index + remaining = (s.names nrptBase).length)
    (pending : Pending order owner index s) :
    Safe (sound order owner mine) (Loses s) (fun _ t => ∀ k, tag t k ≠ some owner)
      (removeTaggedRules owner index remaining) s := by
  induction remaining generalizing index with
  | zero =>
      exact ⟨Loses.refl s, pending.none_left all⟩
  | succ remaining ih =>
      refine safe_look trivial (Loses.refl s) fun next nextAnswer => ?_
      cases next with
      | error e =>
          rcases nextAnswer.2 ⟨e, rfl⟩ rfl with ended | clear
          · omega
          · exact ⟨Loses.refl s, fun k tagged => clear k owner tagged self⟩
      | ok ruleId =>
          have here := faulty_nextKey nextAnswer.1
          -- any other rule is skipped, and the owner's is still to come
          have skip : tag s (fold ruleId) ≠ some owner → Safe (sound order owner mine) (Loses s)
              (fun _ t => ∀ k, tag t k ≠ some owner)
              (removeTaggedRules owner (index + 1) remaining) s := fun untagged =>
            ih (index + 1) (by omega) (pending.next here untagged)
          have spared : Spared mine s (fold ruleId) → tag s (fold ruleId) ≠ some owner :=
            fun spared tagged => spared owner tagged self
          refine safe_look trivial (Loses.refl s) fun opened openAnswer => ?_
          cases opened with
          | error e => exact skip (spared ((openAnswer.2 ⟨e, rfl⟩).1 rfl))
          | ok _ =>
              refine safe_look trivial (Loses.refl s) fun read readAnswer => ?_
              cases read with
              | error e => exact skip (spared (readAnswer.2 ⟨e, rfl⟩ rfl rfl))
              | ok found =>
                  have tagged := tag_of_found (faulty_getString readAnswer.1)
                  show Safe _ _ _ (if found = owner then _ else _) s
                  by_cases same : found = owner
                  · rw [if_pos same]
                    subst same
                    refine safe_call (Loses.refl s) fun r s₁ a => ?_
                    obtain ⟨loses, gone⟩ := removeTree_spared a
                    have none : ∀ k, tag s₁ k ≠ some found := by
                      intro k still
                      obtain rfl := single k _ (loses.tag still) tagged
                      exact gone found still self
                    exact (removeTaggedRules_untagged (index + 1) remaining none).imp
                      (fun _ => loses.trans) fun _ _ _ none => none
                  · rw [if_neg same]
                    exact skip fun own => same (Option.some.inj (tagged.symm.trans own))

theorem removeOwnerTaggedRules_safe (self : mine owner) (single : Single owner s) :
    Safe (sound order owner mine) (Loses s) (fun _ t => ∀ k, tag t k ≠ some owner)
      (removeOwnerTaggedRules owner) s := by
  have clear : Clear mine s → ∀ k, tag s k ≠ some owner := fun h k tagged => h k owner tagged self
  refine safe_look trivial (Loses.refl s) fun opened openAnswer => ?_
  cases opened with
  | error e => exact ⟨Loses.refl s, clear (openAnswer.2 ⟨e, rfl⟩ rfl)⟩
  | ok _ =>
      refine safe_look trivial (Loses.refl s) fun listed listAnswer => ?_
      cases listed with
      | error e => exact ⟨Loses.refl s, clear (listAnswer.2 ⟨e, rfl⟩ rfl)⟩
      | ok count =>
          obtain rfl := faulty_keys listAnswer.1
          refine removeTaggedRules_safe self single 0 _ (Nat.zero_add _) fun k tagged => ?_
          have there : s.values nrptBase k ≠ none := fun gone =>
            (spared_of_none gone : Spared mine s k) owner tagged self
          obtain ⟨number, name, listed, spelled⟩ := exists_index order there
          exact ⟨number, name, Nat.zero_le _, listed, spelled⟩

theorem removeState_safe (others : Others owner mine s) (clear : Clear mine s) :
    Safe (sound order owner mine) (Others owner mine) (fun _ t => Clear mine t)
      (removeState owner) s := by
  refine safe_call others fun r s₁ a => ?_
  have keeps : Keeps owner s s₁ := state_keeps a.1 fun b k target => target
  exact ⟨others.keeps clear.alone keeps,
    fun k o tagged => clear k o ((keeps.tags k).symm.trans tagged)⟩

theorem near_value {o name : Bytes} (near : fold o = fold owner) :
    s.value (statePath o) name = s.value (statePath owner) name := by
  simp [Hive.value, statePath, near]

/-- When only harmless calls fail, the cleanup leaves no rule of the owner and keeps
the others recorded. -/
theorem cleanupOwner_safe (self : mine owner) (near : ∀ o, mine o → fold o = fold owner)
    (recorded : ∀ o, mine o → Recorded o s) (others : Others owner mine s) :
    Safe (sound order owner mine) (Others owner mine) (fun _ t => Clear mine t)
      (cleanupOwner owner) s := by
  refine safe_look trivial others fun opened openAnswer => ?_
  cases opened with
  | error e =>
      refine ⟨others, ?_⟩
      by_cases there : s.values stateBase (fold owner) = none
      · exact fun k o tagged own => (recorded o own).absent ((near o own).symm ▸ there) k tagged
      · exact (openAnswer.2 ⟨e, rfl⟩).2 rfl there
  | ok _ =>
      refine safe_look trivial others fun read readAnswer => ?_
      cases read with
      | error e =>
          -- the record cannot be read, and the tags name the owner only
          obtain ⟨alone, unread⟩ := readAnswer.2 ⟨e, rfl⟩
          have single : Single owner s := by
            by_cases readable : Readable owner s
            · exact unread readable
            · exact (recorded owner self).single readable
          show Safe _ _ _ (removeOwnerTaggedRules owner >>= fun _ => removeState owner) s
          refine (safe_bind _ _).mpr ((removeOwnerTaggedRules_safe self single).imp
            (fun _ loses => others.loses loses) fun _ t loses untagged => ?_)
          have clear : Clear mine t :=
            clear_of_alone (fun k o tagged own => alone k o (loses.tag tagged) own) untagged
          exact removeState_safe (others.loses loses) clear
      | ok ruleIds =>
          show Safe _ _ _ (removeRules ruleIds >>= fun _ => removeState owner) s
          refine (safe_bind _ _).mpr ((removeRules_safe ruleIds s).imp
            (fun _ loses => others.loses loses) fun _ t loses spared => ?_)
          have clear : Clear mine t := by
            intro k o tagged own
            have value := (near_value (near o own)).trans (faulty_getMultiString readAnswer.1)
            obtain ⟨id, listed, rfl⟩ := List.mem_map.mp
              ((recorded o own).listed ruleIds value k (loses.tag tagged))
            exact spared id listed o tagged own
          exact removeState_safe (others.loses loses) clear

end Cleanup

end Setdns.Windows.Nrpt

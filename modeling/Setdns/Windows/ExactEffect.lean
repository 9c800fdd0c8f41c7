import Setdns.Windows.AtomicApply

/-!
Exact effect of the rules where no call fails. An apply over a record that agrees with
the tags replaces the rules of the owner: the new ones carry the namespaces in their
order, at most fifty each, and their identifiers are recorded. A close removes exactly
these rules and the record. Nothing else changes.
-/

namespace Setdns.Windows.Nrpt

open Text Effects Effects.Program Effects.Registry

section Tables

/-- The values of every key. -/
abbrev Table : Type := Bytes → Bytes → Option Values

/-- One key with other values, or without. -/
def keyed (table : Table) (path : KeyPath) (values : Option Values) : Table := fun base folded =>
  if base = path.base ∧ folded = fold path.name then values else table base folded

/-- The rules of these identifiers removed. -/
def without (table : Table) (ruleIds : List Bytes) : Table := fun base folded =>
  if base = nrptBase ∧ folded ∈ ruleIds.map fold then none else table base folded

variable {order : Enumeration} {s t : Machine} {path : KeyPath} {name : Bytes} {data : Value}
  {table : Table} {values : Values} {x y : Option Values}

@[simp] theorem keyed_self : keyed table path x path.base (fold path.name) = x :=
  if_pos ⟨rfl, rfl⟩

theorem keyed_rule {ruleId : Bytes} : keyed table (rulePath ruleId) x nrptBase (fold ruleId) = x :=
  keyed_self

theorem keyed_state {owner : Bytes} : keyed table (statePath owner) x stateBase (fold owner) = x :=
  keyed_self

@[simp] theorem keyed_keyed : keyed (keyed table path x) path y = keyed table path y := by
  funext base folded
  unfold keyed
  split <;> rfl

theorem keyed_of {base folded : Bytes} (other : ¬ (base = path.base ∧ folded = fold path.name)) :
    keyed table path x base folded = table base folded :=
  if_neg other

theorem without_cons (ruleId : Bytes) (ruleIds : List Bytes) :
    without (keyed table (rulePath ruleId) none) ruleIds = without table (ruleId :: ruleIds) := by
  funext base folded
  by_cases rules : base = nrptBase
  · subst rules
    by_cases here : folded = fold ruleId
    · simp [without, keyed, rulePath, here]
    · simp [without, keyed, rulePath, here]
  · simp [without, keyed, rulePath, rules]

/-- Two machines that differ at one key. -/
theorem eq_keyed (here : t.values path.base (fold path.name) = x)
    (other : ∀ base folded, ¬ (base = path.base ∧ folded = fold path.name) →
      t.values base folded = s.values base folded) : t.values = keyed s.values path x := by
  funext base folded
  by_cases at' : base = path.base ∧ folded = fold path.name
  · obtain ⟨rfl, rfl⟩ := at'
    rw [here, keyed_self]
  · rw [other base folded at', keyed_of at']

theorem create_exact {r : Except RegError Unit}
    (absent : s.values path.base (fold path.name) = none)
    (a : (calm order Fresh).answers s (.create path) r t) :
    r = .ok () ∧ t.values = keyed s.values path (some fun _ => none) := by
  have faulty : (faulty order Fresh).answers s (.create path) r t := .inl a
  have other := fun base folded (at' : ¬ (base = path.base ∧ folded = fold path.name)) =>
    faulty_frame faulty at'
  obtain ⟨guid, -, performed⟩ := a
  cases there : s.find path.base (fold path.name) with
  | some key => simp [Hive.values, there] at absent
  | none =>
      simp only [Hive.perform, there] at performed
      obtain ⟨rfl, rfl⟩ := Prod.mk.inj performed
      exact ⟨rfl, eq_keyed (values_put_self _) other⟩

theorem setValue_exact {r : Except RegError Unit}
    (there : s.values path.base (fold path.name) = some values)
    (a : (calm order Fresh).answers s (.setValue path name data) r t) :
    r = .ok () ∧
      t.values = keyed s.values path (some (Function.update values name (some data))) := by
  have faulty : (faulty order Fresh).answers s (.setValue path name data) r t := .inl a
  have other := fun base folded (at' : ¬ (base = path.base ∧ folded = fold path.name)) =>
    faulty_frame faulty at'
  obtain ⟨key, present, rfl⟩ := Option.map_eq_some_iff.mp there
  obtain ⟨guid, -, performed⟩ := a
  simp only [Hive.perform, present] at performed
  obtain ⟨rfl, rfl⟩ := Prod.mk.inj performed
  exact ⟨rfl, eq_keyed (values_put_self _) other⟩

theorem removeTree_exact {r : Except RegError Unit}
    (a : (calm order Fresh).answers s (.removeTree path) r t) :
    (s.values path.base (fold path.name) ≠ none → r = .ok ()) ∧
      t.values = keyed s.values path none := by
  have faulty : (faulty order Fresh).answers s (.removeTree path) r t := .inl a
  have other := fun base folded (at' : ¬ (base = path.base ∧ folded = fold path.name)) =>
    faulty_frame faulty at'
  obtain ⟨guid, -, performed⟩ := a
  cases there : s.find path.base (fold path.name) with
  | some key =>
      simp only [Hive.perform, there] at performed
      obtain ⟨rfl, rfl⟩ := Prod.mk.inj performed
      exact ⟨fun _ => rfl, eq_keyed (Option.map_eq_none_iff.mpr find_drop_self) other⟩
  | none =>
      have gone : s.values path.base (fold path.name) = none := by simp [Hive.values, there]
      simp only [Hive.perform, there] at performed
      obtain ⟨rfl, rfl⟩ := Prod.mk.inj performed
      exact ⟨fun present => absurd gone present, eq_keyed gone fun _ _ _ => rfl⟩

end Tables

section Cleaning

variable {order : Enumeration} {owner : Bytes} {s : Machine}

/-- The identifiers in the record of the owner, none where there is no list. -/
def recordedIds (owner : Bytes) (s : Machine) : List Bytes :=
  match s.value (statePath owner) ruleIdsValue with
  | some (.multiString ruleIds) => ruleIds
  | _ => []

/-- The rules tagged with the owner are those of the record. -/
def Listed (owner : Bytes) (s : Machine) : Prop :=
  ∀ k, tag s k = some owner ↔ k ∈ (recordedIds owner s).map fold

/-- What a cleanup leaves. -/
def cleaned (owner : Bytes) (s : Machine) : Table :=
  keyed (without s.values (recordedIds owner s)) (statePath owner) none

theorem without_nil (table : Table) : without table [] = table := by
  funext base folded
  simp [without]

theorem removeRules_exact (ruleIds : List Bytes) (s : Machine) :
    Safe (calm order Fresh) (fun _ => True) (fun _ t => t.values = without s.values ruleIds)
      (removeRules ruleIds) s := by
  induction ruleIds generalizing s with
  | nil => exact ⟨trivial, (without_nil _).symm⟩
  | cons ruleId ruleIds ih =>
      refine ⟨trivial, fun _ _ => trivial, fun r s₁ a => (ih s₁).post fun _ t _ rest => ?_⟩
      rw [rest, (removeTree_exact a).2, without_cons]

theorem removeState_exact (owner : Bytes) (s : Machine) :
    Safe (calm order Fresh) (fun _ => True)
      (fun _ t => t.values = keyed s.values (statePath owner) none) (removeState owner) s :=
  ⟨trivial, fun _ _ => trivial, fun _ _ a => ⟨trivial, (removeTree_exact a).2⟩⟩

theorem quiet_calm {c : RegCall} (quiet : Registry.Quiet c) : (calm order Fresh).Quiet c :=
  ⟨fun _ _ cut => cut, fun s r t a => (quiet_faulty quiet).2 s r t (.inl a)⟩

/-- Without a rule of the owner the enumeration only looks. -/
theorem removeTaggedRules_exact (untagged : ∀ k, tag s k ≠ some owner) (index remaining : Nat) :
    Safe (calm order Fresh) (fun _ => True) (fun _ t => t = s)
      (removeTaggedRules owner index remaining) s := by
  induction remaining generalizing index with
  | zero => exact ⟨trivial, rfl⟩
  | succ remaining ih =>
      refine Safe.quiet (quiet_calm trivial) trivial fun next _ => ?_
      cases next with
      | error e => exact ⟨trivial, rfl⟩
      | ok ruleId =>
          refine Safe.quiet (quiet_calm trivial) trivial fun opened _ => ?_
          cases opened with
          | error e => exact ih (index + 1)
          | ok _ =>
              refine Safe.quiet (quiet_calm trivial) trivial fun read answer => ?_
              cases read with
              | error e => exact ih (index + 1)
              | ok found =>
                  have tagged := tag_of_found (faulty_getString (.inl answer))
                  have other : found ≠ owner := fun same => untagged _ (same ▸ tagged)
                  show Safe _ _ _ (if found = owner then _ else _) s
                  rw [if_neg other]
                  exact ih (index + 1)

theorem removeOwnerTaggedRules_exact (untagged : ∀ k, tag s k ≠ some owner) :
    Safe (calm order Fresh) (fun _ => True) (fun _ t => t = s)
      (removeOwnerTaggedRules owner) s := by
  refine Safe.quiet (quiet_calm trivial) trivial fun opened _ => ?_
  cases opened with
  | error e => exact ⟨trivial, rfl⟩
  | ok _ =>
      refine Safe.quiet (quiet_calm trivial) trivial fun listed _ => ?_
      cases listed with
      | error e => exact ⟨trivial, rfl⟩
      | ok count => exact removeTaggedRules_exact untagged 0 count

theorem cleaned_of_unlisted (unlisted : recordedIds owner s = []) :
    cleaned owner s = keyed s.values (statePath owner) none := by
  rw [cleaned, unlisted, without_nil]

/-- The record names all rules of the owner, so the cleanup goes by the tags only where
there are none. -/
theorem cleanupOwner_exact (listed : Listed owner s) :
    Safe (calm order Fresh) (fun _ => True) (fun _ t => t.values = cleaned owner s)
      (cleanupOwner owner) s := by
  refine Safe.quiet (quiet_calm trivial) trivial fun opened openAnswer => ?_
  cases opened with
  | error e =>
      have absent : s.values stateBase (fold owner) = none := by
        obtain ⟨guid, -, performed⟩ := openAnswer
        have answer := (Prod.mk.inj performed).1
        cases there : s.values stateBase (fold owner) with
        | none => rfl
        | some values => simp [statePath, there] at answer
      have unlisted : recordedIds owner s = [] := by
        simp [recordedIds, Hive.value, statePath, absent]
      refine ⟨trivial, ?_⟩
      rw [cleaned_of_unlisted unlisted]
      exact eq_keyed absent fun _ _ _ => rfl
  | ok _ =>
      refine Safe.quiet (quiet_calm trivial) trivial fun read readAnswer => ?_
      cases read with
      | ok ruleIds =>
          have recorded : recordedIds owner s = ruleIds := by
            simp [recordedIds, faulty_getMultiString (.inl readAnswer)]
          refine (safe_bind (removeRules ruleIds) fun _ => removeState owner).mpr ?_
          refine (removeRules_exact ruleIds s).post fun _ s₁ _ removed => ?_
          refine (removeState_exact owner s₁).post fun _ t _ rest => ?_
          rw [rest, removed, cleaned, recorded]
      | error e =>
          have unlisted : recordedIds owner s = [] := by
            obtain ⟨guid, -, performed⟩ := readAnswer
            have answer := (Prod.mk.inj performed).1
            unfold recordedIds
            split
            · rename_i ids found
              simp [Hive.multiStringOf, found] at answer
            · rfl
          have untagged : ∀ k, tag s k ≠ some owner := fun k tagged => by
            simpa [unlisted] using (listed k).mp tagged
          refine (safe_bind (removeOwnerTaggedRules owner) fun _ => removeState owner).mpr ?_
          refine (removeOwnerTaggedRules_exact untagged).post fun _ s₁ _ same => ?_
          refine (removeState_exact owner s₁).post fun _ t _ rest => ?_
          rw [rest, same, cleaned_of_unlisted unlisted]

end Cleaning

section Writing

variable {order : Enumeration} {owner servers ruleId name : Bytes} {path : KeyPath} {data : Value}
  {values : Values} {table : Table} {domains : List Bytes} {s s₁ t : Machine}

/-- The values of a rule that is written completely. -/
def ruleValues (owner servers : Bytes) (domains : List Bytes) : Values :=
  let version := Function.update (fun _ => none) (bytes "Version") (some (.dword 1))
  let names := Function.update version (bytes "Name") (some (.multiString domains))
  let addresses := Function.update names (bytes "GenericDNSServers") (some (.string servers))
  let options := Function.update addresses (bytes "ConfigOptions")
    (some (.dword configOptionsUseGenericDnsServers))
  Function.update options ownerValue (some (.string owner))

/-- The values of a record. -/
def stateValues (ruleIds : List Bytes) : Values :=
  Function.update (fun _ => none) ruleIdsValue (some (.multiString ruleIds))

theorem setValue_keyed {r : Except RegError Unit}
    (here : s.values = keyed table path (some values))
    (a : (calm order Fresh).answers s (.setValue path name data) r t) :
    r = .ok () ∧ t.values = keyed table path (some (Function.update values name (some data))) := by
  have there : s.values path.base (fold path.name) = some values := by rw [here, keyed_self]
  obtain ⟨ok, written⟩ := setValue_exact there a
  rw [here, keyed_keyed] at written
  exact ⟨ok, written⟩

/-- One more value of a key that was created before. -/
theorem setValue_then {f : RegError → NrptError} {rest : Unit → Result Unit}
    {Q : Except NrptError Unit → Machine → Prop}
    (here : s.values = keyed table path (some values))
    (next : ∀ t : Machine,
      t.values = keyed table path (some (Function.update values name (some data))) →
      Safe (calm order Fresh) (fun _ => True) Q (rest ()).run t) :
    Safe (calm order Fresh) (fun _ => True) Q
      (mapErr (Reg.setValue path name data) f >>= rest).run s := by
  refine Safe.tryBind (M := fun r t => r = .ok () ∧
    t.values = keyed table path (some (Function.update values name (some data))))
    (Safe.mapErr ⟨trivial, fun _ _ => trivial, fun r t a => ?_⟩) ?_ (by simp)
  · obtain ⟨rfl, written⟩ := setValue_keyed here a
    exact ⟨trivial, rfl, written⟩
  · rintro ⟨⟩ t - ⟨-, written⟩
    exact next t written

theorem create_then (path : KeyPath) {f : RegError → NrptError} {rest : Unit → Result Unit}
    {Q : Except NrptError Unit → Machine → Prop}
    (absent : s.values path.base (fold path.name) = none)
    (next : ∀ t : Machine, t.values = keyed s.values path (some fun _ => none) →
      Safe (calm order Fresh) (fun _ => True) Q (rest ()).run t) :
    Safe (calm order Fresh) (fun _ => True) Q (mapErr (Reg.create path) f >>= rest).run s := by
  refine Safe.tryBind (M := fun r t => r = .ok () ∧
    t.values = keyed s.values path (some fun _ => none))
    (Safe.mapErr ⟨trivial, fun _ _ => trivial, fun r t a => ?_⟩) ?_ (by simp)
  · obtain ⟨rfl, created⟩ := create_exact absent a
    exact ⟨trivial, rfl, created⟩
  · rintro ⟨⟩ t - ⟨-, created⟩
    exact next t created

theorem writeRule_exact (owner servers : Bytes) (domains : List Bytes)
    (absent : s.values nrptBase (fold ruleId) = none) :
    Safe (calm order Fresh) (fun _ => True)
      (fun r t => r = .ok () ∧
        t.values = keyed s.values (rulePath ruleId) (some (ruleValues owner servers domains)))
      (writeRule owner ruleId servers domains).run s := by
  refine create_then (rulePath ruleId) absent fun s₁ created => ?_
  refine setValue_then created fun s₂ version => ?_
  refine setValue_then version fun s₃ names => ?_
  refine setValue_then names fun s₄ addresses => ?_
  refine setValue_then addresses fun s₅ options => ?_
  refine Safe.mapErr ⟨trivial, fun _ _ => trivial, fun r t a => ?_⟩
  obtain ⟨rfl, tagged⟩ := setValue_keyed options a
  exact ⟨trivial, rfl, tagged⟩

theorem writeState_exact (ruleIds : List Bytes)
    (absent : s.values stateBase (fold owner) = none) :
    Safe (calm order Fresh) (fun _ => True)
      (fun r t => r = .ok () ∧
        t.values = keyed s.values (statePath owner) (some (stateValues ruleIds)))
      (writeState owner ruleIds).run s := by
  refine create_then (statePath owner) absent fun s₁ created => ?_
  refine Safe.mapErr ⟨trivial, fun _ _ => trivial, fun r t a => ?_⟩
  obtain ⟨rfl, recorded⟩ := setValue_keyed created a
  exact ⟨trivial, rfl, recorded⟩

theorem createRuleId_exact (s : Machine) :
    Safe (calm order Fresh) (fun _ => True)
      (fun r t => ∃ ruleId, r = .ok ruleId ∧ t = s ∧ s.values nrptBase (fold ruleId) = none)
      createRuleId.run s := by
  refine Safe.tryBind (M := fun r t => ∃ guid, r = .ok guid ∧ t = s ∧ Fresh s guid)
    (Safe.mapErr ⟨trivial, fun _ _ => trivial, fun r t a => ?_⟩) ?_ (by simp)
  · obtain ⟨guid, fresh, performed⟩ := a
    obtain ⟨rfl, rfl⟩ := Prod.mk.inj performed
    exact ⟨trivial, guid, rfl, rfl, fresh rfl⟩
  · rintro _ t - ⟨guid, ⟨⟩, same, fresh⟩
    exact ⟨trivial, _, rfl, same, fresh⟩

/-- These rules are written, each under a new key of its own. -/
structure Wrote (owner servers : Bytes) (new : List Bytes) (pieces : List (List Bytes))
    (s t : Machine) : Prop where
  fresh : ∀ ruleId ∈ new, s.values nrptBase (fold ruleId) = none
  distinct : (new.map fold).Nodup
  rules : List.Forall₂ (fun ruleId piece =>
    t.values nrptBase (fold ruleId) = some (ruleValues owner servers piece)) new pieces
  others : ∀ base k, ¬ (base = nrptBase ∧ k ∈ new.map fold) → t.values base k = s.values base k

theorem Wrote.nil (owner servers : Bytes) (s : Machine) : Wrote owner servers [] [] s s :=
  ⟨by simp, List.nodup_nil, .nil, fun _ _ _ => rfl⟩

theorem Wrote.cons {new : List Bytes} {pieces : List (List Bytes)}
    (absent : s.values nrptBase (fold ruleId) = none)
    (first : s₁.values = keyed s.values (rulePath ruleId) (some (ruleValues owner servers domains)))
    (rest : Wrote owner servers new pieces s₁ t) :
    Wrote owner servers (ruleId :: new) (domains :: pieces) s t := by
  have there : s₁.values nrptBase (fold ruleId) = some (ruleValues owner servers domains) := by
    rw [first]
    exact keyed_rule
  have other : ∀ base k, ¬ (base = nrptBase ∧ k = fold ruleId) →
      s₁.values base k = s.values base k := by
    intro base k ne
    rw [first]
    exact keyed_of ne
  have unlike : ∀ id ∈ new, fold id ≠ fold ruleId := by
    intro id listed same
    have free := rest.fresh id listed
    rw [same, there] at free
    cases free
  have unlisted : fold ruleId ∉ new.map fold := by
    intro listed
    obtain ⟨id, mem, same⟩ := List.mem_map.mp listed
    exact unlike id mem same
  refine ⟨?_, List.nodup_cons.mpr ⟨unlisted, rest.distinct⟩, .cons ?_ rest.rules, ?_⟩
  · refine List.forall_mem_cons.mpr ⟨absent, fun id listed => ?_⟩
    rw [← other _ _ fun same => unlike id listed same.2]
    exact rest.fresh id listed
  · rw [rest.others _ _ fun listed => unlisted listed.2]
    exact there
  · intro base k ne
    have later : ¬ (base = nrptBase ∧ k ∈ new.map fold) := fun h => ne ⟨h.1, .tail _ h.2⟩
    have head : ¬ (base = nrptBase ∧ k = fold ruleId) := fun h => ne ⟨h.1, h.2 ▸ .head _⟩
    rw [rest.others base k later, other base k head]

/-- Every piece gets its rule. -/
theorem writeRules_exact (owner servers : Bytes) (pieces : List (List Bytes))
    (ruleIds : List Bytes) (s : Machine) :
    Safe (calm order Fresh) (fun _ => True)
      (fun r t => ∃ new, r = .ok (ruleIds ++ new) ∧ Wrote owner servers new pieces s t)
      (writeRules owner servers ruleIds pieces).run s := by
  induction pieces generalizing ruleIds s with
  | nil => exact ⟨trivial, [], by simp, .nil owner servers s⟩
  | cons piece pieces ih =>
      refine Safe.tryBind (createRuleId_exact s) ?_ (by simp)
      rintro ruleId _ - ⟨_, ⟨⟩, rfl, absent⟩
      refine Safe.lift ((writeRule_exact owner servers piece absent).post ?_)
      rintro _ s₁ - ⟨rfl, first⟩
      refine (ih (ruleIds ++ [ruleId]) s₁).post ?_
      rintro _ t - ⟨new, rfl, rest⟩
      exact ⟨ruleId :: new, by simp, .cons absent first rest⟩

end Writing

section Applying

variable {order : Enumeration} {owner : Bytes} {servers : List IpAddr} {namespaces : List Bytes}
  {handle : RuleSet} {s s₁ t u : Machine}

/-- The names of a rule, in their order. -/
def namesOf (t : Machine) (ruleId : Bytes) : List Bytes :=
  match t.value (rulePath ruleId) (bytes "Name") with
  | some (.multiString names) => names
  | _ => []

/-- The rules of the owner are replaced by those of the handle, and nothing else changes. -/
structure Replaced (owner : Bytes) (servers : List IpAddr) (namespaces : List Bytes)
    (s : Machine) (handle : RuleSet) (t : Machine) : Prop where
  owned : handle.owner = owner
  distinct : (handle.ruleIds.map fold).Nodup
  tagged : ∀ k, tag t k = some owner ↔ k ∈ handle.ruleIds.map fold
  recorded : t.value (statePath owner) ruleIdsValue = some (.multiString handle.ruleIds)
  names : handle.ruleIds.flatMap (namesOf t) = namespaces
  sizes : ∀ ruleId ∈ handle.ruleIds,
    1 ≤ (namesOf t ruleId).length ∧ (namesOf t ruleId).length ≤ namespaceChunkSize
  addresses : ∀ ruleId ∈ handle.ruleIds, t.value (rulePath ruleId) (bytes "GenericDNSServers") =
    some (.string ((bytes ";").intercalate (servers.map IpAddr.display)))
  new : ∀ k ∈ handle.ruleIds.map fold, tag s k ≠ some owner → s.values nrptBase k = none
  otherRules : ∀ k, k ∉ handle.ruleIds.map fold → tag s k ≠ some owner →
    t.values nrptBase k = s.values nrptBase k
  otherKeys : ∀ base k, base ≠ nrptBase → ¬ (base = stateBase ∧ k = fold owner) →
    t.values base k = s.values base k

theorem tag_congr {k : Bytes} (same : t.values nrptBase k = s.values nrptBase k) :
    tag t k = tag s k := by
  rw [tag, tag, same]

theorem cleaned_rule (k : Bytes) :
    cleaned owner s nrptBase k =
      if k ∈ (recordedIds owner s).map fold then none else s.values nrptBase k := by
  rw [cleaned, keyed_of fun here => stateBase_ne_nrptBase here.1.symm, without]
  exact if_congr (and_iff_right rfl) rfl rfl

/-- What the cleanup leaves of the rules of the owner. -/
theorem cleaned_spares (listed : Listed owner s) {k : Bytes} (other : tag s k ≠ some owner) :
    cleaned owner s nrptBase k = s.values nrptBase k := by
  rw [cleaned_rule, if_neg fun recorded => other ((listed k).mpr recorded)]

theorem cleaned_untagged (listed : Listed owner s) (cleanup : s₁.values = cleaned owner s)
    (k : Bytes) : tag s₁ k ≠ some owner := by
  intro tagged
  by_cases other : tag s k = some owner
  · have gone : s₁.values nrptBase k = none := by
      rw [cleanup, cleaned_rule, if_pos ((listed k).mp other)]
    simp [tag, gone] at tagged
  · have same : s₁.values nrptBase k = s.values nrptBase k := by
      rw [cleanup, cleaned_spares listed other]
    exact other ((tag_congr same).symm.trans tagged)

theorem ruleValues_tag {servers k : Bytes} {piece : List Bytes}
    (rule : t.values nrptBase k = some (ruleValues owner servers piece)) :
    tag t k = some owner := by
  simp [tag, rule, ruleValues]

theorem ruleValues_names {servers ruleId : Bytes} {piece : List Bytes}
    (rule : t.values nrptBase (fold ruleId) = some (ruleValues owner servers piece)) :
    namesOf t ruleId = piece := by
  have name : t.value (rulePath ruleId) (bytes "Name") = some (.multiString piece) := by
    simp only [Hive.value, rulePath, rule]
    rfl
  simp [namesOf, name]

theorem ruleValues_addresses {servers ruleId : Bytes} {piece : List Bytes}
    (rule : t.values nrptBase (fold ruleId) = some (ruleValues owner servers piece)) :
    t.value (rulePath ruleId) (bytes "GenericDNSServers") = some (.string servers) := by
  simp only [Hive.value, rulePath, rule]
  rfl

theorem serverList_intercalate (servers : List IpAddr) :
    serverList servers = (bytes ";").intercalate (servers.map IpAddr.display) := by
  have nonempty : ∀ text ∈ servers.map IpAddr.display, text ≠ [] :=
    List.forall_mem_map.mpr fun server _ => server.display_ne_nil
  rw [serverList_eq]
  exact foldl_push nonempty

theorem exists_of_forall₂ {α β : Type} {R : α → β → Prop} {l : List α} {l' : List β} {x : α}
    (related : List.Forall₂ R l l') (mem : x ∈ l) : ∃ y ∈ l', R x y := by
  induction related with
  | nil => cases mem
  | cons head _ ih =>
      rcases List.mem_cons.mp mem with rfl | later
      · exact ⟨_, .head _, head⟩
      · obtain ⟨y, there, holds⟩ := ih later
        exact ⟨y, .tail _ there, holds⟩

theorem replaced_of_wrote {new : List Bytes} {s₂ : Machine} (listed : Listed owner s)
    (cleanup : s₁.values = cleaned owner s)
    (wrote : Wrote owner (serverList servers) new (chunks namespaceChunkSize namespaces) s₁ s₂)
    (recorded : t.values = keyed s₂.values (statePath owner) (some (stateValues new))) :
    Replaced owner servers namespaces s ⟨owner, new⟩ t := by
  have rules : ∀ k, t.values nrptBase k = s₂.values nrptBase k := by
    intro k
    rw [recorded, keyed_of fun here => stateBase_ne_nrptBase here.1.symm]
  have written : List.Forall₂ (fun ruleId piece => t.values nrptBase (fold ruleId) =
      some (ruleValues owner (serverList servers) piece)) new
        (chunks namespaceChunkSize namespaces) :=
    wrote.rules.imp fun ruleId piece rule => (rules _).trans rule
  have others : ∀ k, k ∉ new.map fold → t.values nrptBase k = s₁.values nrptBase k :=
    fun k unlisted => (rules k).trans (wrote.others _ _ fun here => unlisted here.2)
  have each : ∀ ruleId ∈ new, ∃ piece, t.values nrptBase (fold ruleId) =
      some (ruleValues owner (serverList servers) piece) := by
    intro ruleId here
    obtain ⟨piece, -, rule⟩ := exists_of_forall₂ written here
    exact ⟨piece, rule⟩
  have names : new.map (namesOf t) = chunks namespaceChunkSize namespaces :=
    List.forall₂_eq_eq_eq ▸ List.forall₂_map_left_iff.mpr
      (written.imp fun _ _ rule => ruleValues_names rule)
  refine ⟨rfl, wrote.distinct, fun k => ⟨fun tagged => ?_, fun mem => ?_⟩, ?_, ?_, ?_, ?_, ?_, ?_,
    ?_⟩
  · by_contra unlisted
    exact cleaned_untagged listed cleanup k ((tag_congr (others k unlisted)).symm.trans tagged)
  · obtain ⟨ruleId, here, rfl⟩ := List.mem_map.mp mem
    obtain ⟨piece, rule⟩ := each ruleId here
    exact ruleValues_tag rule
  · have state : t.values stateBase (fold owner) = some (stateValues new) := by
      rw [recorded]
      exact keyed_state
    simp [Hive.value, statePath, state, stateValues]
  · rw [List.flatMap_def, names]
    exact flatten_chunks (by decide) namespaces
  · intro ruleId here
    refine chunks_bounds (by decide) (l := namespaces) ?_
    rw [← names]
    exact List.mem_map_of_mem here
  · intro ruleId here
    obtain ⟨piece, rule⟩ := each ruleId here
    rw [ruleValues_addresses rule, serverList_intercalate]
  · intro k mem other
    obtain ⟨ruleId, here, rfl⟩ := List.mem_map.mp mem
    rw [← cleaned_spares listed other, ← cleanup]
    exact wrote.fresh ruleId here
  · intro k unlisted other
    rw [others k unlisted, cleanup, cleaned_spares listed other]
  · intro base k rule state
    rw [recorded, keyed_of state, wrote.others _ _ fun here => rule here.1, cleanup, cleaned,
      keyed_of state, without, if_neg fun here => rule here.1]

theorem apply_replaces (servers : List IpAddr) (namespaces : List Bytes)
    (listed : Listed owner s) :
    Safe (calm order Fresh) (fun _ => True)
      (fun r t => ∃ handle, r = .ok handle ∧ Replaced owner servers namespaces s handle t)
      (apply owner servers namespaces).run s := by
  refine Safe.lift ((cleanupOwner_exact listed).post fun _ s₁ _ cleanup => ?_)
  refine Safe.tryBind (writeRules_exact owner _ _ [] s₁) ?_ (by simp)
  rintro _ s₂ - ⟨new, ⟨⟩, wrote⟩
  rw [List.nil_append]
  have absent : s₂.values stateBase (fold owner) = none := by
    rw [wrote.others _ _ fun here => stateBase_ne_nrptBase here.1, cleanup]
    exact keyed_state
  refine Safe.lift ((writeState_exact new absent).post ?_)
  rintro _ t - ⟨rfl, recorded⟩
  exact ⟨trivial, ⟨owner, new⟩, rfl, replaced_of_wrote listed cleanup wrote recorded⟩

/-- The tags and the record agree again. -/
theorem Replaced.listed (replaced : Replaced owner servers namespaces s handle t) :
    Listed owner t := by
  intro k
  rw [recordedIds, replaced.recorded]
  exact replaced.tagged k

/-- What a close leaves. -/
def closed (handle : RuleSet) (t : Machine) : Table :=
  keyed (without t.values handle.ruleIds) (statePath handle.owner) none

theorem removeRulesChecked_exact {ruleIds : List Bytes} (distinct : (ruleIds.map fold).Nodup)
    (there : ∀ ruleId ∈ ruleIds, t.values nrptBase (fold ruleId) ≠ none) :
    Safe (calm order Fresh) (fun _ => True)
      (fun r u => r = .ok () ∧ u.values = without t.values ruleIds)
      (removeRulesChecked ruleIds).run t := by
  induction ruleIds generalizing t with
  | nil => exact ⟨trivial, rfl, (without_nil _).symm⟩
  | cons ruleId ruleIds ih =>
      obtain ⟨first, rest⟩ := List.forall_mem_cons.mp there
      obtain ⟨unlisted, distinct⟩ := List.nodup_cons.mp distinct
      refine Safe.tryBind (M := fun r u => r = .ok () ∧
        u.values = keyed t.values (rulePath ruleId) none)
        (Safe.mapErr ⟨trivial, fun _ _ => trivial, fun r u a => ?_⟩) ?_ (by simp)
      · obtain ⟨ok, removed⟩ := removeTree_exact a
        obtain rfl := ok first
        exact ⟨trivial, rfl, removed⟩
      · rintro ⟨⟩ t₁ - ⟨-, removed⟩
        refine (ih distinct fun id here => ?_).post ?_
        · have other : fold id ≠ fold ruleId := fun same =>
            unlisted (same ▸ List.mem_map_of_mem here)
          rw [removed, keyed_of fun same => other same.2]
          exact rest id here
        · rintro _ u - ⟨ok, gone⟩
          exact ⟨ok, by rw [gone, removed, without_cons]⟩

theorem close_exact (distinct : (handle.ruleIds.map fold).Nodup)
    (there : ∀ ruleId ∈ handle.ruleIds, t.values nrptBase (fold ruleId) ≠ none)
    (recorded : t.values stateBase (fold handle.owner) ≠ none) :
    Safe (calm order Fresh) (fun _ => True)
      (fun r u => r = .ok () ∧ u.values = closed handle t) (close handle).run t := by
  refine Safe.tryBind (removeRulesChecked_exact distinct there) ?_ (by simp)
  rintro _ t₁ - ⟨-, removed⟩
  refine Safe.mapErr ⟨trivial, fun _ _ => trivial, fun r u a => ?_⟩
  obtain ⟨ok, gone⟩ := removeTree_exact a
  have still : t₁.values stateBase (fold handle.owner) ≠ none := by
    rw [removed, without, if_neg fun here => stateBase_ne_nrptBase here.1]
    exact recorded
  obtain rfl := ok still
  exact ⟨trivial, rfl, by rw [gone, removed, closed]⟩

/-- Where no call fails and the record lists the tagged rules, an apply replaces the rules
of the owner and a close removes them again. -/
theorem rules_replaced_and_removed {r : Except NrptError RuleSet} (listed : Listed owner s)
    (run : Ends (calm order Fresh) (apply owner servers namespaces).run s r t) :
    ∃ handle, r = .ok handle ∧ Replaced owner servers namespaces s handle t ∧
      ∀ r' u, Ends (calm order Fresh) (close handle).run t r' u →
        r' = .ok () ∧ u.values = closed handle t := by
  obtain ⟨handle, rfl, replaced⟩ := (apply_replaces servers namespaces listed).ends run
  have there : ∀ ruleId ∈ handle.ruleIds, t.values nrptBase (fold ruleId) ≠ none := by
    intro ruleId here gone
    have tagged := (replaced.tagged (fold ruleId)).mpr (List.mem_map_of_mem here)
    simp [tag, gone] at tagged
  have recorded : t.values stateBase (fold handle.owner) ≠ none := by
    intro gone
    have value := replaced.recorded
    rw [replaced.owned] at gone
    simp [Hive.value, statePath, gone] at value
  exact ⟨handle, rfl, replaced, fun r' u ends =>
    (close_exact replaced.distinct there recorded).ends ends⟩

end Applying

section Samples

theorem sampleEmpty_listed (owner : Bytes) : Listed owner sampleEmpty := by
  intro k
  simp [recordedIds, tag, Hive.value, Hive.values, Hive.find, sampleEmpty]

set_option maxRecDepth 20000 in
theorem rules_replaced_and_removed_sample :
    ∃ handle, sampleSecond.1 = .ok handle ∧
      Replaced sampleOwner [.v4 ⟨10, 0, 0, 53⟩] [bytes ".corp.example"] sampleFirst.2 handle
        sampleSecond.2 ∧
      ∀ r' u, Ends (calm sampleOrder Fresh) (close handle).run sampleSecond.2 r' u →
        r' = .ok () ∧ u.values = closed handle sampleSecond.2 := by
  have first : Ends (calm sampleOrder Fresh)
      (apply sampleOwner [.v4 ⟨10, 0, 0, 53⟩] [bytes ".corp.internal"]).run sampleEmpty
      sampleFirst.1 sampleFirst.2 := ends_passes sampleHandler_calm (by decide)
  obtain ⟨_, -, replaced, -⟩ := rules_replaced_and_removed (sampleEmpty_listed sampleOwner) first
  exact rules_replaced_and_removed replaced.listed (ends_passes sampleHandler_calm (by decide))

end Samples

end Setdns.Windows.Nrpt

import Mathlib.Data.Set.Insert
import Setdns.Windows.Orphans

/-!
What an apply that fails leaves under the policy key. The rollback takes back the
rules that have been written completely. It is not run when no identifier can be
had for the next rule, and it never includes the rule that is being written.
-/

namespace Setdns.Windows.Nrpt

open Text Effects Effects.Program Effects.Registry

/-- The rule keys, whoever made them. -/
def ruleKeys (s : Machine) : Set Bytes := {k | s.values nrptBase k ≠ none}

def keysOf (ruleIds : List Bytes) : Set Bytes := {k | k ∈ ruleIds.map fold}

/-- Every rule key was there before. -/
def NothingNew (s s' : Machine) : Prop := ruleKeys s' ⊆ ruleKeys s

/-- A removal of a key that is there succeeds. -/
def Removes (s : Machine) : (c : RegCall) → RegCall.Ret c → Prop
  | .removeTree path, r => s.values path.base (fold path.name) ≠ none → r = .ok ()
  | _, _ => True

/-- Any call may fail but the removals. -/
def removing (order : Enumeration) : World RegCall RegCall.Ret Machine :=
  (faulty order Fresh).restrict Removes

/-- Where an apply gives up, after it has written some rules: no identifier for the next
one, no key for it, no values for the key, or no record of the rules. -/
inductive Stop where
  | naming (written : List Bytes)
  | creating (written : List Bytes)
  | filling (written : List Bytes) (ruleId : Bytes)
  | recording (written : List Bytes)

/-- The rules that nobody takes back. -/
def Stop.left : Stop → List Bytes
  | .naming written => written
  | .filling _ ruleId => [ruleId]
  | _ => []

/-- What nobody takes back was there before. -/
def Stop.Harmless (s : Machine) (stop : Stop) : Prop :=
  ∀ ruleId ∈ stop.left, fold ruleId ∈ ruleKeys s

/-- The values of a rule. -/
def fillRule (owner ruleId servers : Bytes) (domains : List Bytes) : Result Unit := do
  mapErr (Reg.setValue (rulePath ruleId) (bytes "Version") (.dword 1)) .registry
  mapErr (Reg.setValue (rulePath ruleId) (bytes "Name") (.multiString domains)) .registry
  mapErr (Reg.setValue (rulePath ruleId) (bytes "GenericDNSServers") (.string servers)) .registry
  mapErr (Reg.setValue (rulePath ruleId) (bytes "ConfigOptions")
    (.dword configOptionsUseGenericDnsServers)) .registry
  mapErr (Reg.setValue (rulePath ruleId) ownerValue (.string owner)) .registry

theorem writeRule_eq (owner ruleId servers : Bytes) (domains : List Bytes) :
    writeRule owner ruleId servers domains = (do
      mapErr (Reg.create (rulePath ruleId)) .registry
      fillRule owner ruleId servers domains) :=
  rfl

section Stops

variable (order : Enumeration) (owner : Bytes)

/-- The next rule is not written. -/
inductive RuleFails (servers : Bytes) (chunk written : List Bytes) (s : Machine) :
    Stop → Machine → Prop
  | naming {e : NrptError} {s' : Machine}
      (failed : Ends (removing order) createRuleId.run s (.error e) s') :
      RuleFails servers chunk written s (.naming written) s'
  | creating {e : RegError} {ruleId : Bytes} {s₁ s₂ s' : Machine}
      (named : Ends (removing order) createRuleId.run s (.ok ruleId) s₁)
      (failed : (removing order).answers s₁ (.create (rulePath ruleId)) (.error e) s₂)
      (undone : Ends (removing order) (removeRules written) s₂ () s') :
      RuleFails servers chunk written s (.creating written) s'
  | filling {e : NrptError} {ruleId : Bytes} {s₁ s₂ s₃ s' : Machine}
      (named : Ends (removing order) createRuleId.run s (.ok ruleId) s₁)
      (created : (removing order).answers s₁ (.create (rulePath ruleId)) (.ok ()) s₂)
      (failed : Ends (removing order) (fillRule owner ruleId servers chunk).run s₂ (.error e) s₃)
      (undone : Ends (removing order) (removeRules written) s₃ () s') :
      RuleFails servers chunk written s (.filling written ruleId) s'

/-- The failing call belongs to this part, and those before it have succeeded. -/
inductive StoppedAt (servers : List IpAddr) (namespaces : List Bytes) (s : Machine) :
    Stop → Machine → Prop
  | rule {front back : List (List Bytes)} {chunk written : List Bytes} {stop : Stop}
      {s₁ s₂ s' : Machine} (split : chunks namespaceChunkSize namespaces = front ++ chunk :: back)
      (cleaned : Ends (removing order) (cleanupOwner owner) s () s₁)
      (reached : Ends (removing order) (writeRules owner (serverList servers) [] front).run s₁
        (.ok written) s₂)
      (fails : RuleFails order owner (serverList servers) chunk written s₂ stop s') :
      StoppedAt servers namespaces s stop s'
  | recording {e : NrptError} {written : List Bytes} {s₁ s₂ s₃ s' : Machine}
      (cleaned : Ends (removing order) (cleanupOwner owner) s () s₁)
      (reached : Ends (removing order) (writeRules owner (serverList servers) []
        (chunks namespaceChunkSize namespaces)).run s₁ (.ok written) s₂)
      (failed : Ends (removing order) (writeState owner written).run s₂ (.error e) s₃)
      (undone : Ends (removing order) (removeRules written) s₃ () s') :
      StoppedAt servers namespaces s (.recording written) s'

variable {order owner} {servers : Bytes} {s s' : Machine} {e : NrptError}

theorem giveUp_cases {α : Type} {written : List Bytes} {error : NrptError} {r : Except NrptError α}
    (run : Ends (removing order)
      ((liftM (removeRules written) : Result Unit) >>= fun _ => throw error).run s r s') :
    Ends (removing order) (removeRules written) s () s' := by
  obtain ⟨_, s₁, undone, last⟩ := Ends.lift_cases run
  cases last
  exact undone

theorem writeRules_stops {chunks : List (List Bytes)} {ruleIds : List Bytes}
    (run : Ends (removing order) (writeRules owner servers ruleIds chunks).run s (.error e) s') :
    ∃ front chunk back written stop s₁, chunks = front ++ chunk :: back ∧
      Ends (removing order) (writeRules owner servers ruleIds front).run s (.ok written) s₁ ∧
      RuleFails order owner servers chunk written s₁ stop s' := by
  induction chunks generalizing ruleIds s with
  | nil => cases run
  | cons chunk rest ih =>
      rw [writeRules] at run
      rcases Ends.tryBind_cases run with ⟨ruleId, s₁, named, run⟩ | ⟨_, same, failed⟩
      swap
      · exact ⟨[], chunk, rest, ruleIds, _, s, rfl, .ret _ _, .naming failed⟩
      obtain ⟨written, s₂, wrote, run⟩ := Ends.lift_cases run
      cases written with
      | ok _ =>
          obtain ⟨front, chunk', back, ids, stop, s₃, rfl, reached, fails⟩ := ih run
          refine ⟨chunk :: front, chunk', back, ids, stop, s₃, rfl, ?_, fails⟩
          rw [writeRules]
          exact Ends.tryBind named (Ends.lift wrote reached)
      | error error =>
          have undone := giveUp_cases run
          rw [writeRule_eq] at wrote
          rcases Ends.tryBind_cases wrote with ⟨_, s₃, made, failed⟩ | ⟨_, _, made⟩
          all_goals
            obtain ⟨answered, call, same⟩ := Ends.mapErr_cases made
            have answer := call.answer
            cases answered
          · cases same
          · exact ⟨[], chunk, rest, ruleIds, _, s, rfl, .ret _ _,
              .filling named answer failed undone⟩
          · exact ⟨[], chunk, rest, ruleIds, _, s, rfl, .ret _ _, .creating named answer undone⟩
          · cases same

/-- Every failure is a stop. -/
theorem apply_stops {servers : List IpAddr} {namespaces : List Bytes}
    (run : Ends (removing order) (apply owner servers namespaces).run s (.error e) s') :
    ∃ stop, StoppedAt order owner servers namespaces s stop s' := by
  obtain ⟨_, s₁, cleaned, run⟩ := Ends.lift_cases run
  rcases Ends.tryBind_cases run with ⟨written, s₂, reached, run⟩ | ⟨_, _, failed⟩
  swap
  · obtain ⟨front, chunk, back, written, stop, s₂, split, reached, fails⟩ := writeRules_stops failed
    exact ⟨stop, .rule split cleaned reached fails⟩
  obtain ⟨recorded, s₃, failed, run⟩ := Ends.lift_cases run
  cases recorded with
  | ok _ => cases run
  | error error => exact ⟨_, .recording cleaned reached failed (giveUp_cases run)⟩

end Stops

section Keys

variable {order : Enumeration} {owner : Bytes} {s s' : Machine} {c : RegCall}

/-- The calls that can enter a rule key. -/
def Enters : RegCall → Prop
  | .create path => path.base = nrptBase
  | _ => False

def Drops : RegCall → Prop
  | .removeTree _ => True
  | _ => False

/-- The calls that neither enter nor drop a rule key. -/
def Leaves (c : RegCall) : Prop := ¬ Enters c ∧ ¬ Drops c

theorem removing_ends {α : Type} {p : Io α} {a : α} (run : Ends (removing order) p s a s') :
    Ends (faulty order Fresh) p s a s' :=
  run.mono fun _ _ _ _ answer => answer.1

theorem frame_keys {r : RegCall.Ret c} {k : Bytes} (a : (faulty order Fresh).answers s c r s')
    (h : ¬ Targets fold c nrptBase k) : k ∈ ruleKeys s' ↔ k ∈ ruleKeys s :=
  Iff.of_eq (congrArg (· ≠ none) (faulty_frame a h))

theorem keys_le {r : RegCall.Ret c} (a : (faulty order Fresh).answers s c r s') (h : ¬ Enters c) :
    ruleKeys s' ⊆ ruleKeys s := by
  intro k there
  by_cases target : Targets fold c nrptBase k
  swap
  · exact (frame_keys a target).mp there
  cases c with
  | create path => exact absurd target.1.symm h
  | setValue path name data =>
      obtain ⟨base, rfl⟩ := target
      rcases faulty_setValue a with ⟨rfl, -⟩ | ⟨-, values, before, -⟩
      · exact there
      · exact fun gone => by simp [← base, gone] at before
  | removeTree path =>
      obtain ⟨base, rfl⟩ := target
      rcases faulty_removeTree a with ⟨rfl, -⟩ | ⟨-, gone⟩
      · exact there
      · exact absurd (base ▸ gone) there
  | _ => exact target.elim

theorem le_keys {r : RegCall.Ret c} (a : (faulty order Fresh).answers s c r s') (h : ¬ Drops c) :
    ruleKeys s ⊆ ruleKeys s' := by
  intro k there
  by_cases target : Targets fold c nrptBase k
  swap
  · exact (frame_keys a target).mpr there
  cases c with
  | create path =>
      obtain ⟨base, rfl⟩ := target
      rcases faulty_create a with ⟨rfl, -⟩ | ⟨free, -⟩
      · exact there
      · exact absurd (base ▸ free) there
  | setValue path name data =>
      obtain ⟨base, rfl⟩ := target
      rcases faulty_setValue a with ⟨rfl, -⟩ | ⟨-, values, -, after⟩
      · exact there
      · exact fun gone => by simp [← base, gone] at after
  | removeTree path => exact absurd trivial h
  | _ => exact target.elim

theorem leaves_ends {α : Type} {p : Io α} {a : α} (leaves : Issues Leaves p)
    (run : Ends (faulty order Fresh) p s a s') : ruleKeys s' = ruleKeys s :=
  leaves.ends (I := fun t : Machine => ruleKeys t = ruleKeys s)
    (fun _ _ _ _ h same answer =>
      (Set.Subset.antisymm (keys_le answer h.1) (le_keys answer h.2)).trans same) run rfl

theorem fillRule_leaves (ruleId servers : Bytes) (domains : List Bytes) :
    Issues Leaves (fillRule owner ruleId servers domains).run := by
  have set : ∀ name data, Leaves (.setValue (rulePath ruleId) name data) := fun _ _ => ⟨id, id⟩
  exact .tryBind (.mapErr (.call (set _ _))) fun _ => .tryBind (.mapErr (.call (set _ _))) fun _ =>
    .tryBind (.mapErr (.call (set _ _))) fun _ => .tryBind (.mapErr (.call (set _ _))) fun _ =>
      .mapErr (.call (set _ _))

theorem writeState_leaves (ruleIds : List Bytes) : Issues Leaves (writeState owner ruleIds).run :=
  .tryBind (.mapErr (.call ⟨stateBase_ne_nrptBase, id⟩)) fun _ => .mapErr (.call ⟨id, id⟩)

theorem createRuleId_leaves : Issues Leaves createRuleId.run :=
  .tryBind (.mapErr (.call ⟨id, id⟩)) fun _ => trivial

abbrev Shrinking : RegCall → Prop := fun c => ¬ Enters c

theorem cleanupOwner_keys (run : Ends (faulty order Fresh) (cleanupOwner owner) s () s') :
    ruleKeys s' ⊆ ruleKeys s := by
  have looks : ∀ c, Registry.Quiet c → Shrinking c := fun c quiet => by
    cases c <;> first | exact id | exact quiet.elim
  have shrinking : Issues Shrinking (cleanupOwner owner) :=
    cleanupOwner_issues looks (fun _ => id) id
  exact shrinking.ends (I := fun t : Machine => ruleKeys t ⊆ ruleKeys s)
    (fun _ _ _ _ h before answer => (keys_le answer h).trans before) run (Set.Subset.refl _)

theorem create_keys {ruleId : Bytes}
    (a : (faulty order Fresh).answers s (.create (rulePath ruleId)) (.ok ()) s') :
    ruleKeys s' = insert (fold ruleId) (ruleKeys s) := by
  ext k
  by_cases here : k = fold ruleId
  · refine iff_of_true ?_ (.inl here)
    rcases faulty_create a with ⟨rfl, there⟩ | ⟨-, created⟩
    · exact here ▸ there rfl
    · intro gone
      cases (here ▸ created).symm.trans gone
  · rw [Set.mem_insert_iff, or_iff_right here]
    exact frame_keys a fun target => here target.2

theorem create_failed {path : KeyPath} {e : RegError}
    (a : (removing order).answers s (.create path) (.error e) s') : s' = s := by
  rcases a.1 with ⟨guid, -, a⟩ | ⟨_, -, same⟩
  · simp only [Hive.perform] at a
    split at a <;> cases (Prod.mk.inj a).1
  · exact same

theorem removeTree_keys {ruleId : Bytes} {r : Except RegError Unit}
    (a : (removing order).answers s (.removeTree (rulePath ruleId)) r s') :
    ruleKeys s' = ruleKeys s \ {fold ruleId} := by
  ext k
  by_cases here : k = fold ruleId
  · refine iff_of_false (fun there => ?_) fun other => other.2 here
    subst here
    rcases faulty_removeTree a.1 with ⟨rfl, failed⟩ | ⟨-, gone⟩
    · exact failed (a.2 there)
    · exact there gone
  · rw [Set.mem_sdiff_singleton, and_iff_left here]
    exact frame_keys a.1 fun target => here target.2

theorem removeRules_keys {ruleIds : List Bytes}
    (run : Ends (removing order) (removeRules ruleIds) s () s') :
    ruleKeys s' = ruleKeys s \ keysOf ruleIds := by
  induction ruleIds generalizing s with
  | nil =>
      cases run
      simp [keysOf]
  | cons ruleId ruleIds ih =>
      cases run with
      | step answer rest =>
          rw [ih rest, removeTree_keys answer]
          ext k
          simp [keysOf, and_assoc, not_or]

/-- An identifier is not that of a key that is there. -/
theorem createRuleId_fresh {ruleId : Bytes}
    (run : Ends (faulty order Fresh) createRuleId.run s (.ok ruleId) s') :
    fold ruleId ∉ ruleKeys s := by
  rcases Ends.tryBind_cases run with ⟨guid, s₁, asked, last⟩ | ⟨_, same, -⟩
  · obtain ⟨answered, call, same⟩ := Ends.mapErr_cases asked
    cases last
    cases answered with
    | error e => cases same
    | ok _ =>
        cases same
        rcases call.answer with ⟨given, fresh, answer⟩ | ⟨e, failed, -⟩
        · obtain rfl : given = guid := Except.ok.inj (Prod.mk.inj answer).1
          exact fun there => there (fresh rfl)
        · cases failed
  · cases same

theorem writeRule_keys {ruleId servers : Bytes} {domains : List Bytes}
    (run : Ends (faulty order Fresh) (writeRule owner ruleId servers domains).run s (.ok ()) s') :
    ruleKeys s' = insert (fold ruleId) (ruleKeys s) := by
  rw [writeRule_eq] at run
  rcases Ends.tryBind_cases run with ⟨_, s₁, made, filled⟩ | ⟨_, same, -⟩
  · obtain ⟨answered, call, same⟩ := Ends.mapErr_cases made
    cases answered with
    | error e => cases same
    | ok _ =>
        rw [leaves_ends (fillRule_leaves ruleId servers domains) filled, create_keys call.answer]
  · cases same

/-- The rules of these identifiers are added, each under a key of its own. -/
structure Adds (new : List Bytes) (s s' : Machine) : Prop where
  keys : ruleKeys s' = ruleKeys s ∪ keysOf new
  fresh : ∀ ruleId ∈ new, fold ruleId ∉ ruleKeys s
  distinct : (new.map fold).Nodup

theorem writeRules_adds {servers : Bytes} {chunks : List (List Bytes)}
    {ruleIds written : List Bytes}
    (run : Ends (faulty order Fresh) (writeRules owner servers ruleIds chunks).run s (.ok written)
      s') :
    ∃ new, written = ruleIds ++ new ∧ Adds new s s' := by
  induction chunks generalizing ruleIds s with
  | nil =>
      cases run
      exact ⟨[], by simp, by simp [keysOf], by simp, List.nodup_nil⟩
  | cons chunk rest ih =>
      rw [writeRules] at run
      rcases Ends.tryBind_cases run with ⟨ruleId, s₁, named, run⟩ | ⟨_, same, -⟩
      swap
      · cases same
      obtain ⟨wrote, s₂, ends, run⟩ := Ends.lift_cases run
      cases wrote with
      | error error =>
          obtain ⟨_, s₃, -, last⟩ := Ends.lift_cases run
          cases last
      | ok _ =>
          obtain ⟨new, rfl, adds⟩ := ih run
          have before : ruleKeys s₂ = insert (fold ruleId) (ruleKeys s) := by
            rw [writeRule_keys ends, leaves_ends createRuleId_leaves named]
          refine ⟨ruleId :: new, by simp, ?_, ?_, ?_⟩
          · rw [adds.keys, before]
            ext k
            simp [keysOf, or_assoc, or_left_comm]
          · refine List.forall_mem_cons.mpr ⟨createRuleId_fresh named, fun id mem there => ?_⟩
            exact adds.fresh id mem (before ▸ .inr there)
          · refine List.nodup_cons.mpr ⟨fun mem => ?_, adds.distinct⟩
            obtain ⟨id, listed, same⟩ := List.mem_map.mp mem
            exact adds.fresh id listed (before ▸ .inl same)

/-- The rules of a handle have keys of their own. -/
theorem apply_distinct {servers : List IpAddr} {namespaces : List Bytes} {handle : RuleSet}
    (run : Ends (faulty order Fresh) (apply owner servers namespaces).run s (.ok handle) s') :
    (handle.ruleIds.map fold).Nodup := by
  obtain ⟨_, s₁, -, rest⟩ := Ends.lift_cases run
  rcases Ends.tryBind_cases rest with ⟨ruleIds, s₂, reached, rest⟩ | ⟨_, ⟨⟩, -⟩
  obtain ⟨new, same, adds⟩ := writeRules_adds reached
  rw [List.nil_append] at same
  subst same
  obtain ⟨recorded, s₃, -, last⟩ := Ends.lift_cases rest
  cases recorded with
  | ok _ =>
      cases last
      exact adds.distinct
  | error e =>
      obtain ⟨_, s₄, -, last⟩ := Ends.lift_cases last
      cases last

end Keys

section Atomicity

variable {order : Enumeration} {owner : Bytes} {servers : List IpAddr} {namespaces : List Bytes}
  {s s₁ s₂ s' : Machine} {e : NrptError}

theorem keysOf_subset {ruleIds : List Bytes} {keys : Set Bytes} :
    keysOf ruleIds ⊆ keys ↔ ∀ ruleId ∈ ruleIds, fold ruleId ∈ keys := by
  simp [keysOf, Set.subset_def]

theorem undone_subset {written : List Bytes} {before after : Set Bytes}
    (same : after = before ∪ keysOf written) : after \ keysOf written ⊆ before := by
  rw [same, Set.union_sdiff_right]
  exact Set.sdiff_subset

/-- The key of the unfinished rule survives the rollback. -/
theorem unfinished_subset_iff {k : Bytes} {written : List Bytes} {before after keys : Set Bytes}
    (fewer : before ⊆ keys) (same : after = before ∪ keysOf written) (fresh : k ∉ after) :
    insert k after \ keysOf written ⊆ keys ↔ k ∈ keys := by
  have unwritten : k ∉ keysOf written := fun mem => fresh (same ▸ .inr mem)
  rw [Set.insert_sdiff_of_notMem _ unwritten, Set.insert_subset_iff]
  exact and_iff_left ((undone_subset same).trans fewer)

theorem stopped_nothing_new_iff {stop : Stop}
    (stopped : StoppedAt order owner servers namespaces s stop s') :
    NothingNew s s' ↔ stop.Harmless s := by
  cases stopped with
  | recording cleaned reached failed undone =>
      obtain ⟨written, rfl, ⟨keys, -, -⟩⟩ := writeRules_adds (removing_ends reached)
      refine iff_of_true ?_ (by simp [Stop.Harmless, Stop.left])
      have recorded := leaves_ends (writeState_leaves _) (removing_ends failed)
      have rest := undone_subset (recorded.trans keys)
      rw [NothingNew, removeRules_keys undone]
      exact rest.trans (cleanupOwner_keys (removing_ends cleaned))
  | rule split cleaned reached fails =>
      have fewer := cleanupOwner_keys (removing_ends cleaned)
      obtain ⟨written, rfl, ⟨keys, -, -⟩⟩ := writeRules_adds (removing_ends reached)
      cases fails with
      | naming failed =>
          have same := leaves_ends createRuleId_leaves (removing_ends failed)
          rw [NothingNew, same, keys, Set.union_subset_iff, keysOf_subset]
          exact and_iff_right fewer
      | creating named failed undone =>
          refine iff_of_true ?_ (by simp [Stop.Harmless, Stop.left])
          obtain rfl := create_failed failed
          have same := leaves_ends createRuleId_leaves (removing_ends named)
          have rest := undone_subset (same.trans keys)
          rw [NothingNew, removeRules_keys undone]
          exact rest.trans fewer
      | filling named created failed undone =>
          have filled := leaves_ends (fillRule_leaves _ _ _) (removing_ends failed)
          have same := leaves_ends createRuleId_leaves (removing_ends named)
          rw [NothingNew, removeRules_keys undone, filled, create_keys created.1, same,
            unfinished_subset_iff fewer keys (createRuleId_fresh (removing_ends named))]
          simp [Stop.Harmless, Stop.left]

/-- With removals that succeed, a failed apply leaves no new rule key if and only if what
nobody takes back was there before. -/
theorem failed_apply_rolled_back_iff
    (run : Ends (removing order) (apply owner servers namespaces).run s (.error e) s') :
    (∃ stop, StoppedAt order owner servers namespaces s stop s') ∧
      ∀ stop, StoppedAt order owner servers namespaces s stop s' →
        (NothingNew s s' ↔ stop.Harmless s) :=
  ⟨apply_stops run, fun _ => stopped_nothing_new_iff⟩

end Atomicity

section Samples

/-- No value can be set, all else goes well. -/
def sampleReadOnly : Handler RegCall RegCall.Ret Machine
  | s, .setValue _ _ _ => (.error 5, s)
  | s, c => sampleHandler s c

theorem sampleReadOnly_removing (s : Machine) (c : RegCall) (fresh : sampleFresh s c = true) :
    (removing sampleOrder).answers s c (sampleReadOnly s c).1 (sampleReadOnly s c).2 := by
  cases c with
  | setValue path name data => exact ⟨.inr ⟨5, rfl, rfl⟩, trivial⟩
  | removeTree path =>
      refine ⟨sampleHandler_faulty s _ fresh, fun there => ?_⟩
      cases present : s.find path.base (fold path.name) with
      | none => simp [Hive.values, present] at there
      | some key => simp [sampleReadOnly, sampleHandler, Hive.perform, present]
  | _ => exact ⟨sampleHandler_faulty s _ fresh, trivial⟩

/-- The key of the rule has been created and gets no values. -/
def sampleUnfilled : Except NrptError RuleSet × Machine :=
  exec sampleReadOnly (sampleApply (bytes ".corp.internal")) sampleEmpty

set_option maxRecDepth 20000 in
theorem sampleUnfilled_ends : Ends (removing sampleOrder) (sampleApply (bytes ".corp.internal"))
    sampleEmpty (.error (.registry 5)) sampleUnfilled.2 := by
  have ends : Ends (removing sampleOrder) (sampleApply (bytes ".corp.internal")) sampleEmpty
      sampleUnfilled.1 sampleUnfilled.2 := ends_passes sampleReadOnly_removing (by decide)
  rwa [show sampleUnfilled.1 = .error (.registry 5) from by decide] at ends

set_option maxRecDepth 20000 in
theorem sampleUnfilled_new : ¬ NothingNew sampleEmpty sampleUnfilled.2 := by
  intro nothing
  have there : ¬ Fresh sampleUnfilled.2 (sampleGuid 1) := by decide
  exact nothing there rfl

theorem failed_apply_rolled_back_sample :
    ∃ stop, StoppedAt sampleOrder sampleOwner [.v4 ⟨10, 0, 0, 53⟩] [bytes ".corp.internal"]
      sampleEmpty stop sampleUnfilled.2 ∧ ¬ stop.Harmless sampleEmpty := by
  obtain ⟨⟨stop, stopped⟩, exact⟩ := failed_apply_rolled_back_iff sampleUnfilled_ends
  exact ⟨stop, stopped, fun harmless => sampleUnfilled_new ((exact stop stopped).mpr harmless)⟩

theorem failed_apply_leaves_key :
    ¬ ∀ (order : Enumeration) (owner : Bytes) (servers : List IpAddr) (namespaces : List Bytes)
      (s s' : Machine) (e : NrptError),
      Ends (removing order) (apply owner servers namespaces).run s (.error e) s' →
      NothingNew s s' :=
  fun h => sampleUnfilled_new (h _ _ _ _ _ _ _ sampleUnfilled_ends)

end Samples

end Setdns.Windows.Nrpt

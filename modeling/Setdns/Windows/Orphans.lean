import Setdns.Windows.Cleanup

/-!
Orphaned rules: rules tagged with an owner that no later cleanup finds. A rule
is tagged before it is recorded, so what decides is whether a process dies or
gives up in between. `Step` is one operation of any process on the machine. The
rules of a handle are exactly the tagged ones when every step before was a
`GoodStep`, and not after every run of steps.
-/

namespace Setdns.Windows.Nrpt

open Text Effects Effects.Program Effects.Registry

section Apply

variable {order : Enumeration} {owner ruleId servers : Bytes} {mine : Bytes → Prop}
  {s s' : Machine} {ruleIds : List Bytes}

/-- These are the rules of the owner, and the only ones of `mine` owners. -/
structure Written (owner : Bytes) (mine : Bytes → Prop) (ruleIds : List Bytes) (s : Machine) :
    Prop where
  only : ∀ k o, tag s k = some o → mine o → o = owner ∧ k ∈ ruleIds.map fold
  each : ∀ id ∈ ruleIds, tag s (fold id) = some owner

theorem Clear.written (clear : Clear mine s) : Written owner mine [] s :=
  ⟨fun k o tagged own => absurd own (clear k o tagged), by simp⟩

theorem Written.alone (h : Written owner mine ruleIds s) : Alone owner mine s :=
  fun k o tagged own => (h.only k o tagged own).1

theorem Written.same (h : Written owner mine ruleIds s) (tags : ∀ k, tag s' k = tag s k) :
    Written owner mine ruleIds s' :=
  ⟨fun k o tagged => h.only k o ((tags k).symm.trans tagged),
    fun id listed => (tags _).trans (h.each id listed)⟩

/-- The tag of one more rule. -/
theorem Written.append (h : Written owner mine ruleIds s)
    (tags : tag s' = Function.update (tag s) (fold ruleId) (some owner)) :
    Written owner mine (ruleIds ++ [ruleId]) s' := by
  constructor
  · intro k o tagged own
    by_cases here : k = fold ruleId
    · subst here
      rw [tags, Function.update_self, Option.some.injEq] at tagged
      exact ⟨tagged.symm, by simp⟩
    · rw [tags, Function.update_of_ne here] at tagged
      obtain ⟨same, listed⟩ := h.only k o tagged own
      exact ⟨same, by simp [listed]⟩
  · intro id listed
    by_cases here : fold id = fold ruleId
    · rw [tags, here, Function.update_self]
    · rw [tags, Function.update_of_ne here]
      rcases List.mem_append.mp listed with earlier | last
      · exact h.each id earlier
      · exact absurd (congrArg fold (List.mem_singleton.mp last)) here

/-- A removal of all of them leaves none. -/
theorem Written.removed (h : Written owner mine ruleIds s) (loses : Loses s s')
    (spared : ∀ id ∈ ruleIds, Spared mine s' (fold id)) : Clear mine s' := by
  intro k o tagged own
  obtain ⟨id, listed, rfl⟩ := List.mem_map.mp (h.only k o (loses.tag tagged) own).2
  exact spared id listed o tagged own

theorem Others.same (h : Others owner mine s) (same : Same s s') : Others owner mine s' :=
  h.fewer same.states fun k _ _ tagged => (same.tags k).symm.trans tagged

/-- One step of the preparation of a rule, which is not tagged yet. -/
theorem prepare {x : Io (Except RegError Unit)} {f : RegError → NrptError}
    {rest : Unit → Result Unit} {Q : Except NrptError Unit → Machine → Prop}
    (step : Safe (sound order owner mine) (Others owner mine)
      (fun _ t => Written owner mine ruleIds t) x s)
    (next : ∀ t, Others owner mine t → Written owner mine ruleIds t →
      Safe (sound order owner mine) (Others owner mine) Q (rest ()).run t)
    (error : ∀ e t, Written owner mine ruleIds t → Q (.error e) t) :
    Safe (sound order owner mine) (Others owner mine) Q (mapErr x f >>= rest).run s :=
  Safe.tryBind (M := fun _ t => Written owner mine ruleIds t) (Safe.mapErr step)
    (fun _ t others written => next t others written) fun e t _ written => error e t written

theorem create_step (others : Others owner mine s) (written : Written owner mine ruleIds s) :
    Safe (sound order owner mine) (Others owner mine) (fun _ t => Written owner mine ruleIds t)
      (Reg.create (rulePath ruleId)) s := by
  refine safe_call others fun r t a => ?_
  have same := create_rule a.1
  exact ⟨others.same same, written.same same.tags⟩

theorem setValue_step {name : Bytes} {data : Value} (ne : name ≠ ownerValue)
    (others : Others owner mine s) (written : Written owner mine ruleIds s) :
    Safe (sound order owner mine) (Others owner mine) (fun _ t => Written owner mine ruleIds t)
      (Reg.setValue (rulePath ruleId) name data) s := by
  refine safe_call others fun r t a => ?_
  have same := setValue_rule ne a.1
  exact ⟨others.same same, written.same same.tags⟩

/-- Only the last write can make the rule one of the owner's. -/
theorem writeRule_safe (domains : List Bytes) (others : Others owner mine s)
    (written : Written owner mine ruleIds s) :
    Safe (sound order owner mine) (Others owner mine)
      (fun r t => match r with
        | .ok () => Written owner mine (ruleIds ++ [ruleId]) t
        | .error _ => Written owner mine ruleIds t)
      (writeRule owner ruleId servers domains).run s := by
  refine prepare (create_step others written) (fun s₁ others written => ?_) fun _ _ h => h
  refine prepare (setValue_step (by decide) others written)
    (fun s₂ others written => ?_) fun _ _ h => h
  refine prepare (setValue_step (by decide) others written)
    (fun s₃ others written => ?_) fun _ _ h => h
  refine prepare (setValue_step (by decide) others written)
    (fun s₄ others written => ?_) fun _ _ h => h
  refine prepare (setValue_step (by decide) others written)
    (fun s₅ others written => ?_) fun _ _ h => h
  refine Safe.mapErr (safe_call others fun r t a => ?_)
  obtain ⟨states, ⟨rfl, failed⟩ | ⟨rfl, tags⟩⟩ := setOwner_rule a.1
  · cases r with
    | ok _ => exact absurd rfl failed
    | error _ => exact ⟨others, written⟩
  · refine ⟨others.fewer states fun k o ne tagged => ?_, written.append tags⟩
    rw [tags] at tagged
    by_cases here : k = fold ruleId
    · subst here
      rw [Function.update_self] at tagged
      exact absurd (Option.some.inj tagged).symm ne
    · rwa [Function.update_of_ne here] at tagged

/-- Giving up removes what was written. -/
theorem giveUp {α : Type} {error : NrptError} {Q : Except NrptError α → Machine → Prop}
    (others : Others owner mine s) (written : Written owner mine ruleIds s)
    (cleared : ∀ t, Clear mine t → Q (.error error) t) :
    Safe (sound order owner mine) (Others owner mine) Q
      ((liftM (removeRules ruleIds) : Result Unit) >>= fun _ => throw error).run s := by
  refine Safe.lift ((removeRules_safe ruleIds s).imp (fun _ loses => others.loses loses) ?_)
  intro _ t loses spared
  exact ⟨others.loses loses, cleared t (written.removed loses spared)⟩

theorem writeRules_safe (chunks : List (List Bytes)) (others : Others owner mine s)
    (written : Written owner mine ruleIds s) :
    Safe (sound order owner mine) (Others owner mine)
      (fun r t => match r with
        | .ok ids => Written owner mine ids t
        | .error _ => Clear mine t)
      (writeRules owner servers ruleIds chunks).run s := by
  induction chunks generalizing ruleIds s with
  | nil => exact ⟨others, written⟩
  | cons chunk rest ih =>
      rw [writeRules, createRuleId, bind_assoc]
      refine Safe.tryBind (M := fun r t => match r with
        | .ok _ => t = s
        | .error _ => Clear mine t) (Safe.mapErr ?_) ?_ fun _ _ _ clear => clear
      · refine safe_look trivial others fun r a => ⟨others, ?_⟩
        cases r with
        | ok _ => rfl
        | error e => exact a.2 ⟨e, rfl⟩
      · rintro guid _ _ rfl
        refine Safe.lift ((writeRule_safe chunk others written).post fun r t others after => ?_)
        cases r with
        | error _ => exact giveUp others after fun _ clear => clear
        | ok _ => exact ih others after

/-- A success has recorded the rules. -/
theorem writeState_safe (others : Others owner mine s) (written : Written owner mine ruleIds s) :
    Safe (sound order owner mine) (Others owner mine)
      (fun r t => Written owner mine ruleIds t ∧
        (r = .ok () → t.value (statePath owner) ruleIdsValue = some (.multiString ruleIds)))
      (writeState owner ruleIds).run s := by
  have kept : ∀ {t t' : Machine}, Others owner mine t → Written owner mine ruleIds t →
      Keeps owner t t' → Others owner mine t' ∧ Written owner mine ruleIds t' :=
    fun others written keeps => ⟨others.keeps written.alone keeps, written.same keeps.tags⟩
  refine prepare (safe_call others fun r t a => ?_) (fun s₁ others written => ?_)
    fun _ _ written => ⟨written, by simp⟩
  · exact kept others written (state_keeps a.1 fun _ _ target => target)
  · refine Safe.mapErr (safe_call others fun r t a => ?_)
    obtain ⟨others, after⟩ := kept others written (state_keeps a.1 fun _ _ target => target)
    refine ⟨others, after, fun ok => ?_⟩
    rcases faulty_setValue a.1 with ⟨_, failed⟩ | ⟨_, values, _, data⟩
    · cases r with
      | ok _ => exact absurd rfl failed
      | error _ => cases ok
    · simp [Hive.value, data]

/-- What one application leaves behind. -/
def Applied (owner : Bytes) (mine : Bytes → Prop) (r : Except NrptError RuleSet) (s : Machine) :
    Prop :=
  match r with
  | .ok handle => handle.owner = owner ∧ Written owner mine handle.ruleIds s ∧
      s.value (statePath owner) ruleIdsValue = some (.multiString handle.ruleIds)
  | .error _ => Clear mine s

theorem apply_safe (order : Enumeration) (owner : Bytes) (mine : Bytes → Prop)
    (servers : List IpAddr) (namespaces : List Bytes) (self : mine owner)
    (near : ∀ o, mine o → fold o = fold owner) (recorded : ∀ o, Recorded o s) :
    Safe (sound order owner mine) (Others owner mine) (Applied owner mine)
      (apply owner servers namespaces).run s := by
  have others : Others owner mine s := fun o _ _ => recorded o
  refine Safe.lift ((cleanupOwner_safe self near (fun o _ => recorded o) others).post ?_)
  intro _ s₁ others clear
  refine Safe.tryBind (writeRules_safe _ others clear.written) ?_ fun _ _ _ clear => clear
  intro ruleIds s₂ others written
  refine Safe.lift ((writeState_safe others written).post ?_)
  rintro r s₃ others ⟨written, value⟩
  cases r with
  | error _ => exact giveUp others written fun _ clear => clear
  | ok _ => exact ⟨others, rfl, written, value rfl⟩

end Apply

section Close

variable {order : Enumeration} {s : Machine}

theorem removeRulesChecked_safe (ruleIds : List Bytes) (s : Machine) :
    Safe (faulty order Fresh) (Loses s)
      (fun r t => r = .ok () → ∀ id ∈ ruleIds,
        s.values nrptBase (fold id) ≠ none ∧ t.values nrptBase (fold id) = none)
      (removeRulesChecked ruleIds).run s := by
  induction ruleIds generalizing s with
  | nil => exact ⟨Loses.refl s, by simp⟩
  | cons ruleId ruleIds ih =>
      refine Safe.tryBind (M := fun r t => Loses s t ∧ (r = .ok () →
        s.values nrptBase (fold ruleId) ≠ none ∧ t.values nrptBase (fold ruleId) = none))
        (Safe.mapErr ⟨Loses.refl s, fun _ cut => cut ▸ Loses.refl s, fun r t a => ?_⟩) ?_ ?_
      · obtain ⟨loses, gone⟩ := removeTree_rule a
        refine ⟨loses, loses, fun ok => gone ?_⟩
        cases r with
        | ok _ => rfl
        | error _ => cases ok
      · rintro ⟨⟩ s₁ - ⟨loses, gone⟩
        refine (ih s₁).imp (fun t lost => loses.trans lost) fun r t lost rest ok id listed => ?_
        rcases List.mem_cons.mp listed with rfl | later
        · exact ⟨(gone rfl).1, lost.gone (gone rfl).2⟩
        · obtain ⟨there, none⟩ := rest ok id later
          exact ⟨fun before => there (loses.gone before), none⟩
      · rintro e t - - ⟨⟩

/-- One of the rules of the handle is gone, or they are all the rules that there are
under its state key. -/
def Current (handle : RuleSet) (s : Machine) : Prop :=
  (∃ id ∈ handle.ruleIds, s.values nrptBase (fold id) = none) ∨
    ∀ k o, tag s k = some o → fold o = fold handle.owner → k ∈ handle.ruleIds.map fold

/-- Whatever calls fail, closing a current handle leaves no rule unrecorded. -/
theorem close_safe {handle : RuleSet} (recorded : ∀ o, Recorded o s) (current : Current handle s) :
    Safe (faulty order Fresh) (fun t => ∀ o, Recorded o t) (fun _ _ => True)
      (close handle).run s := by
  have fewer : ∀ {t}, Loses s t → ∀ o, Recorded o t :=
    fun loses o => (recorded o).fewer loses.states fun _ => loses.tag
  refine Safe.tryBind ((removeRulesChecked_safe handle.ruleIds s).imp
    (fun _ loses => fewer loses) (fun r t loses removed => And.intro loses removed)) ?_
    fun _ _ _ _ => trivial
  rintro ⟨⟩ t still ⟨loses, removed⟩
  refine Safe.mapErr ⟨still, fun _ cut => cut ▸ still, fun r t' a => ⟨fun o => ?_, trivial⟩⟩
  have keeps : Keeps handle.owner t t' := state_keeps a fun _ _ target => target
  by_cases near : fold o = fold handle.owner
  · refine recorded_of_untagged fun k tagged => ?_
    have before : tag t k = some o := (keeps.tags k).symm.trans tagged
    rcases current with ⟨id, listed, gone⟩ | all
    · exact (removed rfl id listed).1 gone
    · obtain ⟨id, listed, rfl⟩ := List.mem_map.mp (all k o (loses.tag before) near)
      simp [tag, (removed rfl id listed).2] at before
  · exact (still o).keeps keeps near

end Close

section Runs

/-- The registry, and the handles that are neither closed nor forgotten. -/
structure System where
  registry : Machine
  handles : List RuleSet

/-- Nothing of any owner is there. -/
structure Untouched (s : Machine) : Prop where
  rules : ∀ k, tag s k = none
  states : ∀ k, s.values stateBase k = none

section Step

variable (world : Enumeration → Bytes → World RegCall RegCall.Ret Machine)
  (dies : Bytes → Machine → Prop) (closes : RuleSet → Machine → Prop)

/-- An operation of some process. Its calls are answered as its world allows, and it
may die in the states that are admitted. -/
inductive Step : System → System → Prop
  | applied {order : Enumeration} {s s' : Machine} {handles : List RuleSet} {owner : Bytes}
      {servers : List IpAddr} {namespaces : List Bytes} {handle : RuleSet}
      (ends : Ends (world order owner) (apply owner servers namespaces).run s (.ok handle) s') :
      Step ⟨s, handles⟩ ⟨s', handle :: handles⟩
  | refused {order : Enumeration} {s s' : Machine} {handles : List RuleSet} {owner : Bytes}
      {servers : List IpAddr} {namespaces : List Bytes} {error : NrptError}
      (ends : Ends (world order owner) (apply owner servers namespaces).run s (.error error) s') :
      Step ⟨s, handles⟩ ⟨s', handles⟩
  | killed {order : Enumeration} {s s' : Machine} {handles : List RuleSet} {owner : Bytes}
      {servers : List IpAddr} {namespaces : List Bytes}
      (visits : Visits (world order owner) (apply owner servers namespaces).run s s')
      (now : dies owner s') :
      Step ⟨s, handles⟩ ⟨s', handles⟩
  | closed {order : Enumeration} {s s' : Machine} {handles : List RuleSet} {handle : RuleSet}
      (mem : handle ∈ handles) (admitted : closes handle s)
      (visits : Visits (faulty order Fresh) (close handle).run s s') :
      Step ⟨s, handles⟩ ⟨s', handles.erase handle⟩
  | forgotten {s : Machine} {handles : List RuleSet} {handle : RuleSet}
      (mem : handle ∈ handles) :
      Step ⟨s, handles⟩ ⟨s, handles.erase handle⟩

end Step

/-- The owners with the same state key. -/
def SameKey (owner o : Bytes) : Prop := fold o = fold owner

/-- Any call may fail and a process may die at any time. -/
abbrev AnyStep : System → System → Prop :=
  Step (fun order _ => faulty order Fresh) (fun _ _ => True) fun _ _ => True

/-- No call of an application fails where a rule depends on it, no process dies while a
rule that it tagged is not recorded, and only current handles are closed. -/
abbrev GoodStep : System → System → Prop :=
  Step (fun order owner => sound order owner (SameKey owner)) Recorded Current

/-- The rules tagged with the owner are those of the handle. -/
structure Exact (owner : Bytes) (handle : RuleSet) (s : Machine) : Prop where
  owned : handle.owner = owner
  rules : ∀ k, tag s k = some owner ↔ k ∈ handle.ruleIds.map fold

variable {order : Enumeration} {owner : Bytes} {servers : List IpAddr} {namespaces : List Bytes}
  {handle : RuleSet} {s s' start : Machine} {system system' : System}

theorem Untouched.recorded (h : Untouched s) (o : Bytes) : Recorded o s :=
  recorded_of_untagged fun k tagged => by simp [h.rules k] at tagged

theorem Applied.recorded {r : Except NrptError RuleSet} (others : Others owner (SameKey owner) s)
    (applied : Applied owner (SameKey owner) r s) (o : Bytes) : Recorded o s := by
  by_cases same : o = owner
  · subst same
    cases r with
    | error _ => exact recorded_of_untagged fun k tagged => applied k o tagged rfl
    | ok handle =>
        obtain ⟨-, written, value⟩ := applied
        refine ⟨fun gone => ?_, fun ids found k tagged => ?_,
          fun unreadable => absurd ⟨_, value⟩ unreadable⟩
        · have absent : s.values (statePath o).base (fold (statePath o).name) = none := gone
          simp [Hive.value, absent] at value
        · rw [value, Option.some.injEq, Value.multiString.injEq] at found
          exact found ▸ (written.only k o tagged rfl).2
  · exact others o same (Classical.em _)

theorem goodStep_recorded (step : GoodStep system system')
    (recorded : ∀ o, Recorded o system.registry) : ∀ o, Recorded o system'.registry := by
  have safe := fun order owner servers namespaces =>
    apply_safe order owner (SameKey owner) servers namespaces rfl (fun _ h => h) recorded
  cases step with
  | applied ends => exact Applied.recorded ((safe ..).visits ends.visits) ((safe ..).ends ends)
  | refused ends => exact Applied.recorded ((safe ..).visits ends.visits) ((safe ..).ends ends)
  | @killed _ _ _ _ owner _ _ visits now =>
      intro o
      by_cases same : o = owner
      · exact same ▸ now
      · exact (safe ..).visits visits o same (Classical.em _)
  | closed _ current visits => exact (close_safe recorded current).visits visits
  | forgotten _ => exact recorded

theorem run_recorded (clean : Untouched start)
    (run : Relation.ReflTransGen GoodStep ⟨start, []⟩ system) :
    ∀ o, Recorded o system.registry := by
  induction run with
  | refl => exact clean.recorded
  | tail _ step ih => exact goodStep_recorded step ih

/-- After any run of good steps, an application without faults leaves exactly the rules
of its handle. -/
theorem apply_exact (clean : Untouched start)
    (run : Relation.ReflTransGen GoodStep ⟨start, []⟩ system)
    (ends : Ends (calm order Fresh) (apply owner servers namespaces).run system.registry
      (.ok handle) s') : Exact owner handle s' := by
  have safe : Safe (calm order Fresh) (Others owner (· = owner)) (Applied owner (· = owner))
      (apply owner servers namespaces).run system.registry :=
    (apply_safe order owner (· = owner) servers namespaces rfl (fun _ h => congrArg fold h)
      (run_recorded clean run)).of_le
        (fun _ _ _ _ a => sound_of_calm a fun _ _ _ _ _ _ own => own) fun _ _ _ cut => cut
  obtain ⟨owned, written, -⟩ := safe.ends ends
  refine ⟨owned, fun k => ⟨fun tagged => (written.only k owner tagged rfl).2, fun listed => ?_⟩⟩
  obtain ⟨id, there, rfl⟩ := List.mem_map.mp listed
  exact written.each id there

end Runs

section Samples

def sampleGuid (n : UInt32) : Guid := ⟨n, 0, 0, List.replicate 8 0, rfl⟩

/-- The first of two identifiers that no rule has. -/
def sampleSupply (s : Machine) : Guid :=
  if Fresh s (sampleGuid 1) then sampleGuid 1 else sampleGuid 2

def sampleOrder : Enumeration := ⟨id, fun _ => .refl _⟩

def sampleHandler : Handler RegCall RegCall.Ret Machine :=
  fun s c => s.perform sampleOrder (sampleSupply s) c

def sampleFresh (s : Machine) (c : RegCall) : Bool :=
  decide (c = .createGuid → Fresh s (sampleSupply s))

/-- No record is read either. -/
def sampleUnread (s : Machine) (c : RegCall) : Bool :=
  sampleFresh s c && match c with
    | .getMultiString _ _ => false
    | _ => true

def sampleOwner : Bytes := bytes "vpn"

def sampleApply (domain : Bytes) : Io (Except NrptError RuleSet) :=
  (apply sampleOwner [.v4 ⟨10, 0, 0, 53⟩] [domain]).run

def sampleEmpty : Machine := fun _ => none

theorem sampleHandler_calm (s : Machine) (c : RegCall) (fresh : sampleFresh s c = true) :
    (calm sampleOrder Fresh).answers s c (sampleHandler s c).1 (sampleHandler s c).2 :=
  ⟨sampleSupply s, of_decide_eq_true fresh, rfl⟩

theorem sampleHandler_sound {owner : Bytes} {mine : Bytes → Prop} (s : Machine) (c : RegCall)
    (unread : sampleUnread s c = true) :
    (sound sampleOrder owner mine).answers s c (sampleHandler s c).1 (sampleHandler s c).2 := by
  obtain ⟨fresh, quiet⟩ := Bool.and_eq_true_iff.mp unread
  refine sound_of_calm (sampleHandler_calm s c fresh) ?_
  rintro path name rfl
  cases quiet

theorem sampleHandler_faulty (s : Machine) (c : RegCall) (fresh : sampleFresh s c = true) :
    (faulty sampleOrder Fresh).answers s c (sampleHandler s c).1 (sampleHandler s c).2 :=
  .inl (sampleHandler_calm s c fresh)

theorem sampleEmpty_untouched : Untouched sampleEmpty := ⟨fun _ => rfl, fun _ => rfl⟩

def sampleFirst : Except NrptError RuleSet × Machine :=
  exec sampleHandler (sampleApply (bytes ".corp.internal")) sampleEmpty

def sampleSecond : Except NrptError RuleSet × Machine :=
  exec sampleHandler (sampleApply (bytes ".corp.example")) sampleFirst.2

def sampleHandle : RuleSet := ⟨sampleOwner, [bracedGuid (sampleGuid 1)]⟩

set_option maxRecDepth 20000 in
theorem apply_exact_sample : Exact sampleOwner sampleHandle sampleSecond.2 := by
  have applied : Ends (sound sampleOrder sampleOwner (SameKey sampleOwner))
      (sampleApply (bytes ".corp.internal")) sampleEmpty sampleFirst.1 sampleFirst.2 :=
    ends_passes sampleHandler_sound (by decide)
  have again : Ends (calm sampleOrder Fresh) (sampleApply (bytes ".corp.example")) sampleFirst.2
      sampleSecond.1 sampleSecond.2 := ends_passes sampleHandler_calm (by decide)
  rw [show sampleFirst.1 = .ok sampleHandle from by decide] at applied
  rw [show sampleSecond.1 = .ok sampleHandle from by decide] at again
  exact apply_exact sampleEmpty_untouched (.single (.applied applied)) again

/-- The registry of a process that died when it had tagged its first rule and had not
recorded it. -/
def sampleKilled : Machine :=
  killedAfter sampleHandler 8 (sampleApply (bytes ".corp.internal")) sampleEmpty

def sampleAfterKilled : Except NrptError RuleSet × Machine :=
  exec sampleHandler (sampleApply (bytes ".corp.example")) sampleKilled

set_option maxRecDepth 20000 in
theorem killed_apply_orphans_rule :
    ¬ ∀ (order : Enumeration) (start : Machine) (system : System) (owner : Bytes)
        (servers : List IpAddr) (namespaces : List Bytes) (handle : RuleSet) (s' : Machine),
      Untouched start → Relation.ReflTransGen AnyStep ⟨start, []⟩ system →
      Ends (calm order Fresh) (apply owner servers namespaces).run system.registry
        (.ok handle) s' → Exact owner handle s' := by
  intro exact
  have visits : Visits (faulty sampleOrder Fresh) (sampleApply (bytes ".corp.internal")) sampleEmpty
      sampleKilled :=
    visits_passes sampleHandler_faulty 8 (by decide)
  have again : Ends (calm sampleOrder Fresh) (sampleApply (bytes ".corp.example")) sampleKilled
      sampleAfterKilled.1 sampleAfterKilled.2 := ends_passes sampleHandler_calm (by decide)
  rw [show sampleAfterKilled.1 = .ok ⟨sampleOwner, [bracedGuid (sampleGuid 2)]⟩ from by decide]
    at again
  have killed : AnyStep ⟨sampleEmpty, []⟩ ⟨sampleKilled, []⟩ := .killed visits trivial
  have rules := (exact _ _ _ _ _ _ _ _ sampleEmpty_untouched (.single killed) again).rules
  have orphan : tag sampleAfterKilled.2 (fold (bracedGuid (sampleGuid 1))) = some sampleOwner := by
    decide
  exact absurd ((rules _).mp orphan) (by decide)

end Samples

end Setdns.Windows.Nrpt

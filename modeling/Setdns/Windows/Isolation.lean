import Setdns.Windows.Orphans

/-!
Isolation of owners. A rule key is claimed by an owner through its tag, through
the owner's record, or through a live handle. As long as identifiers are not
handed out twice, the owners that claim one rule key share one state key, and an
operation changes only rules that its own state key claims. Tags and handles
compare owners exactly and state keys do not, so two owners are isolated exactly
when their state keys differ.
-/

namespace Setdns.Windows.Nrpt

open Text Effects Effects.Program Effects.Registry

section Claims

variable (handles : List RuleSet) (s : Machine)

def Claimed (k owner : Bytes) : Prop :=
  tag s k = some owner ∨
    (∃ ids, s.value (statePath owner) ruleIdsValue = some (.multiString ids) ∧
      k ∈ ids.map fold) ∨
    ∃ handle ∈ handles, handle.owner = owner ∧ k ∈ handle.ruleIds.map fold

/-- Only spellings of this owner claim the rule key. -/
def Own (owner k : Bytes) : Prop := ∀ o, Claimed handles s k o → fold o = fold owner

def Separate : Prop :=
  ∀ k o o', Claimed handles s k o → Claimed handles s k o' → fold o = fold o'

/-- An identifier that was never handed out before. -/
def Unclaimed (guid : Guid) : Prop :=
  Fresh s guid ∧ ∀ o, ¬ Claimed handles s (fold (bracedGuid guid)) o

/-- What the operations of an owner may do while these handles are live. -/
structure Within (owner : Bytes) (s' : Machine) : Prop where
  claims : ∀ k o, Claimed handles s' k o →
    Claimed handles s k o ∨ (fold o = fold owner ∧ Own handles s owner k)
  rules : ∀ k o, Claimed handles s k o → fold o ≠ fold owner →
    s'.values nrptBase k = s.values nrptBase k
  states : ∀ k, k ≠ fold owner → s'.values stateBase k = s.values stateBase k

end Claims

section Relation

variable {handles : List RuleSet} {s s' s'' : Machine} {owner o k : Bytes}

theorem Separate.own (separate : Separate handles s) (claimed : Claimed handles s k owner) :
    Own handles s owner k :=
  fun o other => separate k o owner other claimed

theorem Within.refl (handles : List RuleSet) (s : Machine) (owner : Bytes) :
    Within handles s owner s :=
  ⟨fun _ _ claimed => .inl claimed, fun _ _ _ _ => rfl, fun _ _ => rfl⟩

/-- A claim of another state key stays. -/
theorem Within.claimed (within : Within handles s owner s') (claimed : Claimed handles s k o)
    (ne : fold o ≠ fold owner) : Claimed handles s' k o := by
  rcases claimed with tagged | ⟨ids, record, listed⟩ | held
  · refine .inl ?_
    rw [tag, within.rules k o (.inl tagged) ne]
    exact tagged
  · refine .inr (.inl ⟨ids, ?_, listed⟩)
    have same : s'.values (statePath o).base (fold (statePath o).name) =
        s.values (statePath o).base (fold (statePath o).name) := within.states _ ne
    rw [Hive.value, same]
    exact record
  · exact .inr (.inr held)

theorem Within.own (within : Within handles s owner s') (own : Own handles s owner k) :
    Own handles s' owner k := by
  intro o claimed
  rcases within.claims k o claimed with before | ⟨same, -⟩
  · exact own o before
  · exact same

theorem Within.trans (h : Within handles s owner s') (h' : Within handles s' owner s'') :
    Within handles s owner s'' where
  claims k o claimed := by
    rcases h'.claims k o claimed with before | ⟨same, own⟩
    · exact h.claims k o before
    · refine .inr ⟨same, fun o' earlier => ?_⟩
      by_contra ne
      exact ne (own o' (h.claimed earlier ne))
  rules k o claimed ne := (h'.rules k o (h.claimed claimed ne) ne).trans (h.rules k o claimed ne)
  states k ne := (h'.states k ne).trans (h.states k ne)

theorem Within.separate (within : Within handles s owner s') (separate : Separate handles s) :
    Separate handles s' := by
  intro k o o' claimed claimed'
  rcases within.claims k o claimed with before | ⟨same, own⟩
  · rcases within.claims k o' claimed' with before' | ⟨same', own'⟩
    · exact separate k o o' before before'
    · exact (own' o before).trans same'.symm
  · exact same.trans (within.own own o' claimed').symm

/-- One call on rules that the owner alone claims, or on its state key. -/
theorem within_of {order : Enumeration} {c : RegCall} {r : RegCall.Ret c}
    (a : (faulty order Fresh).answers s c r s')
    (targets : ∀ b k, Targets fold c b k →
      (b = nrptBase ∧ Own handles s owner k) ∨ (b = stateBase ∧ k = fold owner))
    (tagged : ∀ k o, tag s' k = some o → tag s k = some o ∨ fold o = fold owner)
    (listed : ∀ ids, s'.value (statePath owner) ruleIdsValue = some (.multiString ids) →
      s.value (statePath owner) ruleIdsValue = some (.multiString ids) ∨
        ∀ id ∈ ids, Own handles s owner (fold id)) : Within handles s owner s' := by
  have states : ∀ k, k ≠ fold owner → s'.values stateBase k = s.values stateBase k := by
    intro k ne
    refine faulty_frame a fun target => ?_
    rcases targets _ _ target with ⟨base, -⟩ | ⟨-, here⟩
    · exact stateBase_ne_nrptBase base
    · exact ne here
  have rules : ∀ k, ¬ Own handles s owner k → s'.values nrptBase k = s.values nrptBase k := by
    intro k other
    refine faulty_frame a fun target => ?_
    rcases targets _ _ target with ⟨-, own⟩ | ⟨base, -⟩
    · exact other own
    · exact stateBase_ne_nrptBase base.symm
  refine ⟨fun k o claimed => ?_, fun k o claimed ne => rules k fun own => ne (own o claimed), states⟩
  rcases claimed with mark | ⟨ids, record, member⟩ | held
  · by_cases own : Own handles s owner k
    · exact (tagged k o mark).imp .inl fun same => ⟨same, own⟩
    · rw [tag, rules k own] at mark
      exact .inl (.inl mark)
  · by_cases near : fold o = fold owner
    · rw [near_value near] at record
      rcases listed ids record with before | own
      · exact .inl (.inr (.inl ⟨ids, (near_value near).trans before, member⟩))
      · obtain ⟨id, there, rfl⟩ := List.mem_map.mp member
        exact .inr ⟨near, own id there⟩
    · have same : s'.values (statePath o).base (fold (statePath o).name) =
          s.values (statePath o).base (fold (statePath o).name) := states _ near
      rw [Hive.value, same] at record
      exact .inl (.inr (.inl ⟨ids, record, member⟩))
  · exact .inl (.inr (.inr held))

end Relation

section Calls

variable {order : Enumeration} {handles : List RuleSet} {s s' : Machine} {owner ruleId : Bytes}

/-- The world in which identifiers are not handed out twice. -/
abbrev issuing (order : Enumeration) (handles : List RuleSet) :
    World RegCall RegCall.Ret Machine :=
  faulty order (Unclaimed handles)

theorem issuing_fresh {c : RegCall} {r : RegCall.Ret c}
    (a : (issuing order handles).answers s c r s') : (faulty order Fresh).answers s c r s' := by
  rcases a with ⟨guid, unclaimed, performed⟩ | failed
  · exact .inl ⟨guid, fun ask => (unclaimed ask).1, performed⟩
  · exact .inr failed

theorem removeTree_within {r : Except RegError Unit} (own : Own handles s owner (fold ruleId))
    (a : (faulty order Fresh).answers s (.removeTree (rulePath ruleId)) r s') :
    Within handles s owner s' := by
  obtain ⟨loses, -⟩ := removeTree_rule a
  refine within_of a ?_ (fun k o tagged => .inl (loses.tag tagged)) fun ids record => .inl ?_
  · rintro b k ⟨rfl, rfl⟩
    exact .inl ⟨rfl, own⟩
  · exact (value_state loses.states owner ruleIdsValue).symm.trans record

theorem same_within {c : RegCall} {r : RegCall.Ret c} (own : Own handles s owner (fold ruleId))
    (a : (faulty order Fresh).answers s c r s')
    (targets : ∀ b k, Targets fold c b k → b = nrptBase ∧ k = fold ruleId) (same : Same s s') :
    Within handles s owner s' := by
  refine within_of a (fun b k target => ?_)
    (fun k o tagged => .inl ((same.tags k).symm.trans tagged))
    fun ids record => .inl ((value_state same.states owner ruleIdsValue).symm.trans record)
  obtain ⟨base, rfl⟩ := targets b k target
  exact .inl ⟨base, own⟩

theorem setOwner_within {r : Except RegError Unit} (own : Own handles s owner (fold ruleId))
    (a : (faulty order Fresh).answers s
      (.setValue (rulePath ruleId) ownerValue (.string owner)) r s') :
    Within handles s owner s' := by
  obtain ⟨states, step⟩ := setOwner_rule a
  refine within_of a ?_ (fun k o tagged => ?_)
    fun ids record => .inl ((value_state states owner ruleIdsValue).symm.trans record)
  · rintro b k ⟨rfl, rfl⟩
    exact .inl ⟨rfl, own⟩
  · rcases step with ⟨rfl, -⟩ | ⟨-, tags⟩
    · exact .inl tagged
    · rw [tags] at tagged
      by_cases here : k = fold ruleId
      · subst here
        rw [Function.update_self, Option.some.injEq] at tagged
        exact .inr (congrArg fold tagged).symm
      · rw [Function.update_of_ne here] at tagged
        exact .inl tagged

theorem state_within {c : RegCall} {r : RegCall.Ret c} (a : (faulty order Fresh).answers s c r s')
    (targets : ∀ b k, Targets fold c b k → b = stateBase ∧ k = fold owner)
    (listed : ∀ ids, s'.value (statePath owner) ruleIdsValue = some (.multiString ids) →
      s.value (statePath owner) ruleIdsValue = some (.multiString ids) ∨
        ∀ id ∈ ids, Own handles s owner (fold id)) : Within handles s owner s' :=
  within_of a (fun b k target => .inr (targets b k target))
    (fun k _ tagged => .inl (((state_keeps a targets).tags k).symm.trans tagged)) listed

theorem removeState_within {r : Except RegError Unit}
    (a : (faulty order Fresh).answers s (.removeTree (statePath owner)) r s') :
    Within handles s owner s' := by
  refine state_within a (fun _ _ target => target) fun ids record => ?_
  rcases faulty_removeTree a with ⟨rfl, -⟩ | ⟨-, gone⟩
  · exact .inl record
  · rw [Hive.value, gone] at record
    cases record

theorem createState_within {r : Except RegError Unit}
    (a : (faulty order Fresh).answers s (.create (statePath owner)) r s') :
    Within handles s owner s' := by
  refine state_within a (fun _ _ target => target) fun ids record => ?_
  rcases faulty_create a with ⟨rfl, -⟩ | ⟨-, created⟩
  · exact .inl record
  · rw [Hive.value, created] at record
    cases record

theorem setRuleIds_within {r : Except RegError Unit} {ruleIds : List Bytes}
    (own : ∀ id ∈ ruleIds, Own handles s owner (fold id))
    (a : (faulty order Fresh).answers s
      (.setValue (statePath owner) ruleIdsValue (.multiString ruleIds)) r s') :
    Within handles s owner s' := by
  refine state_within a (fun _ _ target => target) fun ids record => ?_
  rcases faulty_setValue a with ⟨rfl, -⟩ | ⟨-, values, -, written⟩
  · exact .inl record
  · rw [Hive.value, written, Option.bind_some, Function.update_self, Option.some.injEq,
      Value.multiString.injEq] at record
    exact .inr (record ▸ own)

end Calls

section Operations

variable {order : Enumeration} {handles : List RuleSet} {s s₀ : Machine} {owner ruleId : Bytes}

theorem within_call {α : Type} {Q : α → Machine → Prop} {c : RegCall} {k : RegCall.Ret c → Io α}
    (within : Within handles s₀ owner s)
    (step : ∀ r t, (faulty order Fresh).answers s c r t → Within handles s owner t)
    (next : ∀ r t, (issuing order handles).answers s c r t → Within handles s₀ owner t →
      Within handles s owner t → Safe (issuing order handles) (Within handles s₀ owner) Q (k r) t) :
    Safe (issuing order handles) (Within handles s₀ owner) Q (.call c k) s := by
  refine ⟨within, fun _ cut => cut ▸ within, fun r t a => ?_⟩
  have moved := step r t (issuing_fresh a)
  exact next r t a (within.trans moved) moved

theorem within_look {α : Type} {Q : α → Machine → Prop} {c : RegCall} {k : RegCall.Ret c → Io α}
    (quiet : Registry.Quiet c) (within : Within handles s₀ owner s)
    (next : ∀ r, (issuing order handles).answers s c r s →
      Safe (issuing order handles) (Within handles s₀ owner) Q (k r) s) :
    Safe (issuing order handles) (Within handles s₀ owner) Q (.call c k) s :=
  Safe.quiet (quiet_faulty quiet) within next

/-- One call that may end the operation. -/
theorem within_try {α : Type} {Q : Except NrptError α → Machine → Prop} {c : RegCall}
    {ask : RegCall.Ret c → Except RegError Unit} {rest : Unit → Result α} {f : RegError → NrptError}
    (within : Within handles s₀ owner s)
    (step : ∀ r t, (faulty order Fresh).answers s c r t → Within handles s owner t)
    (next : ∀ t, Within handles s₀ owner t → Within handles s owner t →
      Safe (issuing order handles) (Within handles s₀ owner) Q (rest ()).run t)
    (error : ∀ e t, Q (.error e) t) :
    Safe (issuing order handles) (Within handles s₀ owner) Q
      (mapErr (.call c fun r => .ret (ask r)) f >>= rest).run s := by
  refine Safe.tryBind (M := fun _ t => Within handles s owner t)
    (Safe.mapErr (within_call within step fun r t _ outer inner => ⟨outer, inner⟩)) ?_
    fun e t _ _ => error e t
  exact fun _ t outer inner => next t outer inner

theorem removeRules_within (ruleIds : List Bytes) (within : Within handles s₀ owner s)
    (own : ∀ id ∈ ruleIds, Own handles s owner (fold id)) :
    Safe (issuing order handles) (Within handles s₀ owner) (fun _ _ => True)
      (removeRules ruleIds) s := by
  induction ruleIds generalizing s with
  | nil => exact ⟨within, trivial⟩
  | cons ruleId ruleIds ih =>
      obtain ⟨first, others⟩ := List.forall_mem_cons.mp own
      refine within_call within (fun _ _ => removeTree_within first) fun r t _ outer inner => ?_
      exact ih outer fun id listed => inner.own (others id listed)

theorem removeTaggedRules_within (index remaining : Nat) (separate : Separate handles s₀)
    (within : Within handles s₀ owner s) :
    Safe (issuing order handles) (Within handles s₀ owner) (fun _ _ => True)
      (removeTaggedRules owner index remaining) s := by
  induction remaining generalizing index s with
  | zero => exact ⟨within, trivial⟩
  | succ remaining ih =>
      refine within_look trivial within fun next _ => ?_
      cases next with
      | error e => exact ⟨within, trivial⟩
      | ok ruleId =>
          refine within_look trivial within fun opened _ => ?_
          cases opened with
          | error e => exact ih (index + 1) within
          | ok _ =>
              refine within_look trivial within fun read a => ?_
              cases read with
              | error e => exact ih (index + 1) within
              | ok found =>
                  show Safe _ _ _ (if found = owner then _ else _) s
                  split
                  case isTrue same =>
                    subst same
                    have tagged := tag_of_found (faulty_getString (issuing_fresh a))
                    have own : Own handles s found (fold ruleId) :=
                      (within.separate separate).own (.inl tagged)
                    exact within_call within (fun _ _ => removeTree_within own)
                      fun _ _ _ outer _ => ih (index + 1) outer
                  case isFalse other => exact ih (index + 1) within

theorem removeState_safe_within (within : Within handles s₀ owner s) :
    Safe (issuing order handles) (Within handles s₀ owner) (fun _ _ => True)
      (removeState owner) s :=
  within_call within (fun _ _ => removeState_within) fun _ _ _ outer _ => ⟨outer, trivial⟩

theorem removeOwnerTaggedRules_within (separate : Separate handles s₀)
    (within : Within handles s₀ owner s) :
    Safe (issuing order handles) (Within handles s₀ owner) (fun _ _ => True)
      (removeOwnerTaggedRules owner) s := by
  refine within_look trivial within fun opened _ => ?_
  cases opened with
  | error e => exact ⟨within, trivial⟩
  | ok _ =>
      refine within_look trivial within fun counted _ => ?_
      cases counted with
      | error e => exact ⟨within, trivial⟩
      | ok count => exact removeTaggedRules_within 0 count separate within

theorem cleanupOwner_within (separate : Separate handles s) :
    Safe (issuing order handles) (Within handles s owner) (fun _ _ => True)
      (cleanupOwner owner) s := by
  have here := Within.refl handles s owner
  refine within_look trivial here fun opened _ => ?_
  cases opened with
  | error e => exact ⟨here, trivial⟩
  | ok _ =>
      refine within_look trivial here fun read a => ?_
      cases read with
      | error e =>
          show Safe _ _ _ (removeOwnerTaggedRules owner >>= fun _ => removeState owner) s
          refine (safe_bind _ _).mpr ((removeOwnerTaggedRules_within separate here).post ?_)
          exact fun _ _ within _ => removeState_safe_within within
      | ok ruleIds =>
          show Safe _ _ _ (removeRules ruleIds >>= fun _ => removeState owner) s
          have record := faulty_getMultiString a
          have own : ∀ id ∈ ruleIds, Own handles s owner (fold id) := fun id listed =>
            separate.own (.inr (.inl ⟨ruleIds, record, List.mem_map_of_mem listed⟩))
          refine (safe_bind _ _).mpr ((removeRules_within ruleIds here own).post ?_)
          exact fun _ _ within _ => removeState_safe_within within

theorem setValue_within {name : Bytes} {data : Value} {r : Except RegError Unit} {s' : Machine}
    (ne : name ≠ ownerValue) (own : Own handles s owner (fold ruleId))
    (a : (faulty order Fresh).answers s (.setValue (rulePath ruleId) name data) r s') :
    Within handles s owner s' :=
  same_within own a (fun _ _ target => target) (setValue_rule ne a)

theorem writeRule_within (order : Enumeration) (servers : Bytes) (domains : List Bytes)
    (own : Own handles s owner (fold ruleId)) (within : Within handles s₀ owner s) :
    Safe (issuing order handles) (Within handles s₀ owner) (fun _ _ => True)
      (writeRule owner ruleId servers domains).run s := by
  refine within_try within
    (fun _ _ a => same_within own a (fun _ _ target => target) (create_rule a))
    (fun s₁ within inner => ?_) fun _ _ => trivial
  replace own := inner.own own
  refine within_try within (fun _ _ => setValue_within (by decide) own)
    (fun s₂ within inner => ?_) fun _ _ => trivial
  replace own := inner.own own
  refine within_try within (fun _ _ => setValue_within (by decide) own)
    (fun s₃ within inner => ?_) fun _ _ => trivial
  replace own := inner.own own
  refine within_try within (fun _ _ => setValue_within (by decide) own)
    (fun s₄ within inner => ?_) fun _ _ => trivial
  replace own := inner.own own
  refine within_try within (fun _ _ => setValue_within (by decide) own)
    (fun s₅ within inner => ?_) fun _ _ => trivial
  replace own := inner.own own
  refine Safe.mapErr (within_call within (fun _ _ => setOwner_within own) ?_)
  exact fun _ _ _ outer _ => ⟨outer, trivial⟩

/-- Whatever was written is removed again, and the error is passed on. -/
theorem giveUp_within {α : Type} {ruleIds : List Bytes} {error : NrptError}
    {Q : Except NrptError α → Machine → Prop} (within : Within handles s₀ owner s)
    (own : ∀ id ∈ ruleIds, Own handles s owner (fold id)) (failed : ∀ t, Q (.error error) t) :
    Safe (issuing order handles) (Within handles s₀ owner) Q
      ((liftM (removeRules ruleIds) : Result Unit) >>= fun _ => throw error).run s := by
  refine Safe.lift ((removeRules_within ruleIds within own).post ?_)
  exact fun _ t within _ => ⟨within, failed t⟩

theorem writeRules_within (servers : Bytes) (chunks : List (List Bytes)) {ruleIds : List Bytes}
    (own : ∀ id ∈ ruleIds, Own handles s owner (fold id)) (within : Within handles s₀ owner s) :
    Safe (issuing order handles) (Within handles s₀ owner)
      (fun r t => ∀ ids, r = .ok ids → ∀ id ∈ ids, Own handles t owner (fold id))
      (writeRules owner servers ruleIds chunks).run s := by
  induction chunks generalizing ruleIds s with
  | nil => exact ⟨within, fun ids same => Except.ok.inj same ▸ own⟩
  | cons chunk rest ih =>
      rw [writeRules, createRuleId, bind_assoc]
      refine Safe.tryBind (M := fun r t => t = s ∧ ∀ guid, r = .ok guid → Unclaimed handles s guid)
        (Safe.mapErr (within_look trivial within fun r a => ⟨within, rfl, ?_⟩)) ?_ (by simp)
      · rintro guid same
        rcases a with ⟨issued, unclaimed, performed⟩ | ⟨e, rfl, -⟩
        · obtain ⟨rfl, -⟩ := Prod.mk.inj performed
          cases same
          exact unclaimed rfl
        · cases same
      · rintro guid s _ ⟨rfl, unclaimed⟩
        have fresh : Own handles s owner (fold (bracedGuid guid)) :=
          fun o claimed => absurd claimed ((unclaimed guid rfl).2 o)
        -- the change made by this rule is a relation of its own, so that the claims follow it
        have written := writeRule_within order servers chunk fresh
          (Within.refl handles s owner)
        refine Safe.lift (written.imp (fun _ inner => within.trans inner) fun r t inner _ => ?_)
        have outer := within.trans inner
        have kept : ∀ id ∈ ruleIds, Own handles t owner (fold id) :=
          fun id listed => inner.own (own id listed)
        cases r with
        | error e => exact giveUp_within outer kept (by simp)
        | ok _ =>
            refine ih (fun id listed => ?_) outer
            rcases List.mem_append.mp listed with earlier | last
            · exact kept id earlier
            · exact List.mem_singleton.mp last ▸ inner.own fresh

theorem writeState_within {ruleIds : List Bytes}
    (own : ∀ id ∈ ruleIds, Own handles s owner (fold id)) (within : Within handles s₀ owner s) :
    Safe (issuing order handles) (Within handles s₀ owner)
      (fun _ t => ∀ id ∈ ruleIds, Own handles t owner (fold id))
      (writeState owner ruleIds).run s := by
  refine Safe.tryBind (M := fun _ t => Within handles s owner t)
    (Safe.mapErr (within_call within (fun _ _ => createState_within)
      fun _ _ _ outer inner => ⟨outer, inner⟩)) ?_
    fun _ t _ inner id listed => inner.own (own id listed)
  intro _ t within inner
  have kept : ∀ id ∈ ruleIds, Own handles t owner (fold id) :=
    fun id listed => inner.own (own id listed)
  refine Safe.mapErr (within_call within (fun _ _ => setRuleIds_within kept) ?_)
  exact fun _ _ _ outer inner => ⟨outer, fun id listed => inner.own (kept id listed)⟩

/-- An application stays within its owner's bounds, and no other state key claims its rules. -/
theorem apply_within (order : Enumeration) (owner : Bytes) (servers : List IpAddr)
    (namespaces : List Bytes) (separate : Separate handles s) :
    Safe (issuing order handles) (Within handles s owner)
      (fun r t => ∀ handle, r = .ok handle → handle.owner = owner ∧
        ∀ id ∈ handle.ruleIds, Own handles t owner (fold id))
      (apply owner servers namespaces).run s := by
  refine Safe.lift ((cleanupOwner_within separate).post fun _ s₁ within _ => ?_)
  refine Safe.tryBind (writeRules_within _ _ (by simp) within) ?_ (by simp)
  intro ruleIds s₂ within own
  refine Safe.lift ((writeState_within (own ruleIds rfl) within).post fun r s₃ within own => ?_)
  cases r with
  | error e => exact giveUp_within within own (by simp)
  | ok _ =>
      refine ⟨within, fun handle same => ?_⟩
      obtain rfl := Except.ok.inj same
      exact ⟨rfl, own⟩

theorem removeRulesChecked_within (ruleIds : List Bytes) (within : Within handles s₀ owner s)
    (own : ∀ id ∈ ruleIds, Own handles s owner (fold id)) :
    Safe (issuing order handles) (Within handles s₀ owner) (fun _ _ => True)
      (removeRulesChecked ruleIds).run s := by
  induction ruleIds generalizing s with
  | nil => exact ⟨within, trivial⟩
  | cons ruleId ruleIds ih =>
      obtain ⟨first, others⟩ := List.forall_mem_cons.mp own
      refine within_try within (fun _ _ => removeTree_within first) ?_ fun _ _ => trivial
      exact fun t outer inner => ih outer fun id listed => inner.own (others id listed)

theorem close_within {handle : RuleSet} (mem : handle ∈ handles) (separate : Separate handles s) :
    Safe (issuing order handles) (Within handles s handle.owner) (fun _ _ => True)
      (close handle).run s := by
  have own : ∀ id ∈ handle.ruleIds, Own handles s handle.owner (fold id) := fun id listed =>
    separate.own (.inr (.inr ⟨handle, mem, rfl, List.mem_map_of_mem listed⟩))
  refine Safe.tryBind (removeRulesChecked_within handle.ruleIds (Within.refl _ _ _) own)
    (fun _ t within _ => ?_) fun _ _ _ _ => trivial
  refine Safe.mapErr (within_call within (fun _ _ => removeState_within) ?_)
  exact fun _ _ _ outer _ => ⟨outer, trivial⟩

end Operations

section Runs

/-- One operation of an owner. A process may stop at any call of it. -/
inductive Move : Bytes → System → System → Prop
  | applied {order : Enumeration} {s s' : Machine} {handles : List RuleSet} {owner : Bytes}
      {servers : List IpAddr} {namespaces : List Bytes} {handle : RuleSet}
      (ends : Ends (issuing order handles) (apply owner servers namespaces).run s (.ok handle) s') :
      Move owner ⟨s, handles⟩ ⟨s', handle :: handles⟩
  | stopped {order : Enumeration} {s s' : Machine} {handles : List RuleSet} {owner : Bytes}
      {servers : List IpAddr} {namespaces : List Bytes}
      (visits : Visits (issuing order handles) (apply owner servers namespaces).run s s') :
      Move owner ⟨s, handles⟩ ⟨s', handles⟩
  | closed {order : Enumeration} {s s' : Machine} {handles : List RuleSet} {handle : RuleSet}
      (mem : handle ∈ handles) (visits : Visits (issuing order handles) (close handle).run s s') :
      Move handle.owner ⟨s, handles⟩ ⟨s', handles.erase handle⟩
  | forgotten {s : Machine} {handles : List RuleSet} {handle : RuleSet} (mem : handle ∈ handles) :
      Move handle.owner ⟨s, handles⟩ ⟨s, handles.erase handle⟩

/-- The live handles of the other state keys are still good. -/
structure Unharmed (owner : Bytes) (system system' : System) : Prop where
  handles : ∀ handle ∈ system.handles, fold handle.owner ≠ fold owner → handle ∈ system'.handles
  rules : ∀ handle ∈ system.handles, fold handle.owner ≠ fold owner → ∀ id ∈ handle.ruleIds,
    system'.registry.values nrptBase (fold id) = system.registry.values nrptBase (fold id)
  states : ∀ k, k ≠ fold owner →
    system'.registry.values stateBase k = system.registry.values stateBase k

variable {handles handles' : List RuleSet} {handle : RuleSet} {s s' start : Machine}
  {owner o k : Bytes} {system system' system'' : System}

theorem Separate.subset (separate : Separate handles s) (fewer : handles' ⊆ handles) :
    Separate handles' s := by
  have claims : ∀ k o, Claimed handles' s k o → Claimed handles s k o := by
    rintro k o (tagged | record | ⟨handle, mem, held⟩)
    · exact .inl tagged
    · exact .inr (.inl record)
    · exact .inr (.inr ⟨handle, fewer mem, held⟩)
  exact fun k o o' claimed claimed' => separate k o o' (claims k o claimed) (claims k o' claimed')

/-- A new handle may claim rules that no other state key claims. -/
theorem Separate.add (separate : Separate handles s)
    (own : ∀ id ∈ handle.ruleIds, Own handles s handle.owner (fold id)) :
    Separate (handle :: handles) s := by
  have claims : ∀ k o, Claimed (handle :: handles) s k o →
      Claimed handles s k o ∨ (o = handle.owner ∧ Own handles s handle.owner k) := by
    rintro k o (tagged | record | ⟨held, mem, owns, listed⟩)
    · exact .inl (.inl tagged)
    · exact .inl (.inr (.inl record))
    · rcases List.mem_cons.mp mem with rfl | later
      · obtain ⟨id, there, rfl⟩ := List.mem_map.mp listed
        exact .inr ⟨owns.symm, own id there⟩
      · exact .inl (.inr (.inr ⟨held, later, owns, listed⟩))
  intro k o o' claimed claimed'
  rcases claims k o claimed with before | ⟨rfl, mine⟩
  · rcases claims k o' claimed' with before' | ⟨rfl, mine'⟩
    · exact separate k o o' before before'
    · exact mine' o before
  · rcases claims k o' claimed' with before' | ⟨rfl, -⟩
    · exact (mine o' before').symm
    · rfl

theorem Within.unharmed (within : Within handles s owner s')
    (still : ∀ handle ∈ handles, fold handle.owner ≠ fold owner → handle ∈ handles') :
    Unharmed owner ⟨s, handles⟩ ⟨s', handles'⟩ := by
  refine ⟨still, fun handle mem ne id listed => ?_, within.states⟩
  exact within.rules _ handle.owner
    (.inr (.inr ⟨handle, mem, rfl, List.mem_map_of_mem listed⟩)) ne

theorem Unharmed.trans (h : Unharmed owner system system') (h' : Unharmed owner system' system'') :
    Unharmed owner system system'' where
  handles handle mem ne := h'.handles handle (h.handles handle mem ne) ne
  rules handle mem ne id listed :=
    (h'.rules handle (h.handles handle mem ne) ne id listed).trans (h.rules handle mem ne id listed)
  states k ne := (h'.states k ne).trans (h.states k ne)

theorem still_erased (ne : fold o ≠ fold handle.owner) :
    ∀ other ∈ handles, other.owner = o → other ∈ handles.erase handle := by
  rintro other mem rfl
  exact (List.mem_erase_of_ne fun same => ne (congrArg _ (congrArg RuleSet.owner same))).mpr mem

/-- One operation harms no handle of another state key. -/
theorem move_unharmed (move : Move owner system system')
    (separate : Separate system.handles system.registry) :
    Separate system'.handles system'.registry ∧ Unharmed owner system system' := by
  cases move with
  | applied ends =>
      have safe := fun order servers namespaces =>
        apply_within order owner servers namespaces separate
      have within := (safe ..).visits ends.visits
      obtain ⟨rfl, own⟩ := (safe ..).ends ends _ rfl
      exact ⟨(within.separate separate).add own,
        within.unharmed fun _ mem _ => List.mem_cons_of_mem _ mem⟩
  | stopped visits =>
      have within := (apply_within _ _ _ _ separate).visits visits
      exact ⟨within.separate separate, within.unharmed fun _ mem _ => mem⟩
  | closed mem visits =>
      have within := (close_within mem separate).visits visits
      exact ⟨(within.separate separate).subset List.erase_subset,
        within.unharmed fun _ other ne => still_erased ne _ other rfl⟩
  | forgotten mem =>
      exact ⟨separate.subset List.erase_subset,
        (Within.refl _ _ _).unharmed fun _ other ne => still_erased ne _ other rfl⟩

theorem Untouched.unclaimed (clean : Untouched start) : ¬ Claimed [] start k o := by
  rintro (tagged | ⟨ids, record, -⟩ | ⟨handle, mem, -⟩)
  · simp [clean.rules k] at tagged
  · have gone : start.values (statePath o).base (fold (statePath o).name) = none := clean.states _
    simp [Hive.value, gone] at record
  · cases mem

theorem Untouched.separate (clean : Untouched start) : Separate [] start :=
  fun _ _ _ claimed _ => absurd claimed clean.unclaimed

theorem run_separate (clean : Untouched start)
    (run : Relation.ReflTransGen (fun system system' => ∃ owner, Move owner system system')
      ⟨start, []⟩ system) : Separate system.handles system.registry := by
  induction run with
  | refl => exact clean.separate
  | tail _ step ih =>
      obtain ⟨owner, move⟩ := step
      exact (move_unharmed move ih).1

theorem run_unharmed (separate : Separate system.handles system.registry)
    (run : Relation.ReflTransGen (Move owner) system system') :
    Separate system'.handles system'.registry ∧ Unharmed owner system system' := by
  induction run with
  | refl => exact ⟨separate, fun _ mem _ => mem, fun _ _ _ _ _ => rfl, fun _ _ => rfl⟩
  | tail _ move ih =>
      obtain ⟨separate, unharmed⟩ := move_unharmed move ih.1
      exact ⟨separate, ih.2.trans unharmed⟩

/-- In every reachable state, no operations of the one owner change a rule of a live
handle of the other, or its state key. -/
def Isolated (A B : Bytes) : Prop :=
  ∀ (start : Machine) (system system' : System), Untouched start →
    Relation.ReflTransGen (fun system system' => ∃ owner, Move owner system system')
      ⟨start, []⟩ system →
    Relation.ReflTransGen (Move A) system system' →
    (∀ handle ∈ system.handles, handle.owner = B → ∀ id ∈ handle.ruleIds,
      system'.registry.values nrptBase (fold id) = system.registry.values nrptBase (fold id)) ∧
    system'.registry.values stateBase (fold B) = system.registry.values stateBase (fold B)

theorem isolated_of_ne {A B : Bytes} (ne : fold A ≠ fold B) : Isolated A B := by
  intro start system system' clean reached run
  obtain ⟨-, unharmed⟩ := run_unharmed (run_separate clean reached) run
  refine ⟨?_, unharmed.states _ ne.symm⟩
  rintro handle mem rfl
  exact unharmed.rules handle mem ne.symm

end Runs

section Shared

def SameRules (s s' : Machine) : Prop := ∀ k, s'.values nrptBase k = s.values nrptBase k

variable {order : Enumeration} {fresh : Machine → Guid → Prop} {s : Machine} {path : KeyPath}
  {name : Bytes} {data : Value} {values : Values} {owner : Bytes}

theorem answers_of_perform (order : Enumeration) (fresh : Machine → Guid → Prop) (s : Machine)
    {c : RegCall} (ask : c ≠ .createGuid) :
    (faulty order fresh).answers s c (s.perform order (sampleGuid 1) c).1
      (s.perform order (sampleGuid 1) c).2 :=
  .inl ⟨sampleGuid 1, fun guid => absurd guid ask, rfl⟩

/-- A key can be created. -/
theorem exists_create (order : Enumeration) (fresh : Machine → Guid → Prop) (s : Machine)
    (path : KeyPath) : ∃ s', (faulty order fresh).answers s (.create path) (.ok ()) s' ∧
      ∃ values, s'.values path.base (fold path.name) = some values := by
  have a := answers_of_perform order fresh s (c := .create path) (by simp)
  simp only [Hive.perform] at a
  cases present : s.find path.base (fold path.name) with
  | some key =>
      rw [present] at a
      exact ⟨s, a, key.values, by simp [Hive.values, present]⟩
  | none =>
      rw [present] at a
      exact ⟨_, a, _, values_put_self _⟩

theorem exists_setValue (order : Enumeration) (fresh : Machine → Guid → Prop)
    (there : s.values path.base (fold path.name) = some values) (name : Bytes) (data : Value) :
    ∃ s', (faulty order fresh).answers s (.setValue path name data) (.ok ()) s' ∧
      s'.values path.base (fold path.name) = some (Function.update values name (some data)) := by
  have a := answers_of_perform order fresh s (c := .setValue path name data) (by simp)
  obtain ⟨key, present, rfl⟩ := Option.map_eq_some_iff.mp there
  simp only [Hive.perform, present] at a
  exact ⟨_, a, values_put_self _⟩

/-- A rule can be written. -/
theorem writeRule_ends (order : Enumeration) (fresh : Machine → Guid → Prop) (s : Machine)
    (owner ruleId servers : Bytes) (domains : List Bytes) :
    ∃ s', Ends (faulty order fresh) (writeRule owner ruleId servers domains).run s (.ok ()) s' ∧
      s'.values nrptBase (fold ruleId) ≠ none := by
  obtain ⟨s₁, create, _, there⟩ := exists_create order fresh s (rulePath ruleId)
  obtain ⟨s₂, version, there⟩ := exists_setValue order fresh there (bytes "Version") (.dword 1)
  obtain ⟨s₃, names, there⟩ :=
    exists_setValue order fresh there (bytes "Name") (.multiString domains)
  obtain ⟨s₄, list, there⟩ :=
    exists_setValue order fresh there (bytes "GenericDNSServers") (.string servers)
  obtain ⟨s₅, options, there⟩ := exists_setValue order fresh there (bytes "ConfigOptions")
    (.dword configOptionsUseGenericDnsServers)
  obtain ⟨s₆, tagged, there⟩ := exists_setValue order fresh there ownerValue (.string owner)
  refine ⟨s₆, ?_, by simpa [rulePath] using Option.ne_none_iff_exists'.mpr ⟨_, there⟩⟩
  exact .step create (.step version (.step names (.step list (.step options
    (.step tagged (.ret _ _))))))

theorem writeState_ends (order : Enumeration) (fresh : Machine → Guid → Prop) (s : Machine)
    (owner : Bytes) (ruleIds : List Bytes) :
    ∃ s', Ends (faulty order fresh) (writeState owner ruleIds).run s (.ok ()) s' ∧
      SameRules s s' ∧ s'.value (statePath owner) ruleIdsValue = some (.multiString ruleIds) := by
  obtain ⟨s₁, create, _, there⟩ := exists_create order fresh s (statePath owner)
  obtain ⟨s₂, written, there⟩ :=
    exists_setValue order fresh there ruleIdsValue (.multiString ruleIds)
  refine ⟨s₂, .step create (.step written (.ret _ _)), fun k => ?_, by simp [Hive.value, there]⟩
  rw [faulty_frame written fun target => stateBase_ne_nrptBase target.1.symm,
    faulty_frame create fun target => stateBase_ne_nrptBase target.1.symm]

theorem exists_removeTree (order : Enumeration) (fresh : Machine → Guid → Prop) (path : KeyPath)
    (there : s.values path.base (fold path.name) ≠ none) :
    ∃ s', (faulty order fresh).answers s (.removeTree path) (.ok ()) s' ∧
      s'.values path.base (fold path.name) = none := by
  have a := answers_of_perform order fresh s (c := .removeTree path) (by simp)
  cases present : s.find path.base (fold path.name) with
  | none => simp [Hive.values, present] at there
  | some key =>
      simp only [Hive.perform, present] at a
      exact ⟨_, a, by simp [Hive.values, find_drop_self]⟩

def sampleId : Bytes := bracedGuid (sampleGuid 1)

/-- The first application on a machine writes its rule and its record. -/
theorem first_apply_ends (owner : Bytes) (servers : List IpAddr) (domain : Bytes) :
    ∃ s, Ends (issuing sampleOrder []) (apply owner servers [domain]).run sampleEmpty
        (.ok ⟨owner, [sampleId]⟩) s ∧
      s.values nrptBase (fold sampleId) ≠ none ∧
      s.value (statePath owner) ruleIdsValue = some (.multiString [sampleId]) := by
  obtain ⟨s₁, rule, there⟩ := writeRule_ends sampleOrder (Unclaimed []) sampleEmpty owner sampleId
    (serverList servers) [domain]
  obtain ⟨s₂, state, rules, record⟩ := writeState_ends sampleOrder (Unclaimed []) s₁ owner [sampleId]
  have absent : (issuing sampleOrder []).answers sampleEmpty (.openKey (statePath owner))
      (.error ERROR_FILE_NOT_FOUND) sampleEmpty := answers_of_perform _ _ _ (by simp)
  have fresh : Unclaimed [] sampleEmpty (sampleGuid 1) :=
    ⟨rfl, fun _ => sampleEmpty_untouched.unclaimed⟩
  have guid : (issuing sampleOrder []).answers sampleEmpty .createGuid (.ok (sampleGuid 1))
      sampleEmpty := .inl ⟨sampleGuid 1, fun _ => fresh, rfl⟩
  have cleaned : Ends (issuing sampleOrder []) (cleanupOwner owner) sampleEmpty () sampleEmpty :=
    .step absent (.ret _ _)
  have written : Ends (issuing sampleOrder [])
      (writeRules owner (serverList servers) [] [[domain]]).run sampleEmpty (.ok [sampleId]) s₁ := by
    rw [writeRules]
    exact Ends.tryBind (.step guid (.ret _ _)) (Ends.lift rule (.ret _ _))
  exact ⟨s₂, Ends.lift cleaned (Ends.tryBind written (Ends.lift state (.ret _ _))),
    fun gone => there ((rules _).symm.trans gone), record⟩

/-- Owners with one state key are not isolated: the cleanup of the one goes by the record
of the other. -/
theorem not_isolated {A B : Bytes} (same : fold A = fold B) : ¬ Isolated A B := by
  intro isolated
  obtain ⟨s, applied, there, record⟩ := first_apply_ends B [.v4 ⟨10, 0, 0, 53⟩] (bytes ".")
  have shared : s.value (statePath A) ruleIdsValue = some (.multiString [sampleId]) :=
    (near_value same).trans record
  have opened : (issuing sampleOrder [⟨B, [sampleId]⟩]).answers s (.openKey (statePath A))
      (.ok ()) s := by
    have a := answers_of_perform sampleOrder (Unclaimed [⟨B, [sampleId]⟩]) s
      (c := .openKey (statePath A)) (by simp)
    obtain ⟨values, present, -⟩ := Option.bind_eq_some_iff.mp shared
    simpa [Hive.perform, present] using a
  have read : (issuing sampleOrder [⟨B, [sampleId]⟩]).answers s
      (.getMultiString (statePath A) ruleIdsValue) (.ok [sampleId]) s := by
    have a := answers_of_perform sampleOrder (Unclaimed [⟨B, [sampleId]⟩]) s
      (c := .getMultiString (statePath A) ruleIdsValue) (by simp)
    simpa [Hive.perform, Hive.multiStringOf, shared] using a
  obtain ⟨t, removed, gone⟩ :=
    exists_removeTree sampleOrder (Unclaimed [⟨B, [sampleId]⟩]) (rulePath sampleId) there
  have stopped : Visits (issuing sampleOrder [⟨B, [sampleId]⟩])
      (apply A [.v4 ⟨10, 0, 0, 54⟩] [bytes "."]).run s t :=
    .step opened (.step read (.step removed (.here _ _)))
  obtain ⟨rules, -⟩ := isolated _ ⟨s, [⟨B, [sampleId]⟩]⟩ ⟨t, _⟩ sampleEmpty_untouched
    (.single ⟨B, .applied applied⟩) (.single (.stopped stopped))
  have kept := rules _ (List.mem_singleton.mpr rfl) rfl sampleId (List.mem_singleton.mpr rfl)
  exact there (kept.symm.trans gone)

/-- Different owners are isolated exactly when they differ beyond ASCII case. -/
theorem isolated_iff (A B : Bytes) : Isolated A B ↔ fold A ≠ fold B :=
  ⟨fun isolated same => not_isolated same isolated, isolated_of_ne⟩

theorem case_variant_shares_state :
    ¬ ∀ A B : Bytes, validateOwner A = .ok () → validateOwner B = .ok () → A ≠ B →
      Isolated A B := by
  intro isolated
  exact not_isolated (by decide)
    (isolated (bytes "vpn") (bytes "VPN") (by decide) (by decide) (by decide))

end Shared

end Setdns.Windows.Nrpt

import Setdns.Effects.Ownership
import Setdns.Windows.Store

/-!
Any number of processes apply and close at the same time, each call being a turn of
its own, and any call may fail. A process owns the rules for which it was handed an
identifier. Whatever else it removes was there before everybody started, so as long as
the owners have different state keys, what a process knows of its rules is true in every
interleaving.
-/

namespace Setdns.Windows.Nrpt

open Text Effects Effects.Program Effects.Registry

/-- The registry, and the rule keys of the identifiers that were handed out. -/
structure Ledger where
  registry : Machine
  issued : List Bytes

def Ledger.after (s : Ledger) (guid : Guid) : RegCall → List Bytes
  | .createGuid => fold (bracedGuid guid) :: s.issued
  | _ => s.issued

/-- Rules are listed in any order, any call may fail, and no identifier is handed out
twice or has a rule already. -/
def allocating : World RegCall RegCall.Ret Ledger where
  answers s c r s' :=
    (∃ (order : Enumeration) (guid : Guid),
      (c = .createGuid → Fresh s.registry guid ∧ fold (bracedGuid guid) ∉ s.issued) ∧
        s.registry.perform order guid c = (r, s'.registry) ∧ s'.issued = s.after guid c) ∨
      ∃ e, r = failure e c ∧ s' = s
  torn s _ s' := s' = s

/-- What a process knows: the rule keys that it claims, their values, and its record. -/
structure Part where
  keys : Bytes → Prop
  rules : Bytes → Option Values
  record : Option Values

def Part.rewrite (g : Part) (k : Bytes) (values : Option Values) : Part :=
  { g with rules := Function.update g.rules k values }

def Part.note (g : Part) (record : Option Values) : Part := { g with record }

def Part.claim (g : Part) (k : Bytes) : Part where
  keys k' := k' = k ∨ g.keys k'
  rules := Function.update g.rules k none
  record := g.record

@[simp] theorem Part.rewrite_self (g : Part) (k : Bytes) (values : Option Values) :
    (g.rewrite k values).rules k = values := Function.update_self ..

theorem Part.rewrite_of_ne (g : Part) {k k' : Bytes} (values : Option Values) (ne : k' ≠ k) :
    (g.rewrite k values).rules k' = g.rules k' := Function.update_of_ne ne ..

@[simp] theorem Part.rewrite_rewrite (g : Part) (k : Bytes) (v w : Option Values) :
    (g.rewrite k v).rewrite k w = g.rewrite k w := by
  simp only [Part.rewrite, Function.update_idem]

theorem Part.claims (g : Part) (k : Bytes) : (g.claim k).keys k := .inl rfl

@[simp] theorem Part.claim_self (g : Part) (k : Bytes) : (g.claim k).rules k = none :=
  Function.update_self ..

theorem Part.claim_of_ne (g : Part) {k k' : Bytes} (ne : k' ≠ k) :
    (g.claim k).rules k' = g.rules k' := Function.update_of_ne ne ..

/-- The rule key is from before or claimed since. -/
def Part.Reaches (g : Part) (old : List Bytes) (k : Bytes) : Prop := k ∈ old ∨ g.keys k

section Parts

variable {ι : Type} (old : List Bytes) (owner : ι → Bytes)

/-- What a process knows is true. Of the rules from before it knows nothing. -/
structure Knows (i : ι) (g : Part) (s : Ledger) : Prop where
  rules : ∀ k, g.keys k → s.registry.values nrptBase k = g.rules k
  record : s.registry.values stateBase (fold (owner i)) = g.record
  tagged : ∀ k, tag s.registry k = some (owner i) → g.Reaches old k
  listed : ∀ values ids, g.record = some values →
    values ruleIdsValue = some (.multiString ids) → ∀ id ∈ ids, g.Reaches old (fold id)
  issued : ∀ k, g.keys k → k ∈ s.issued ∧ k ∉ old
  before : ∀ k ∈ old, k ∈ s.issued

def parts : Effects.Parts ι Ledger Part where
  holds := Knows old owner
  apart g h := ∀ k, ¬ (g.keys k ∧ h.keys k)
  symm apart k := fun both => apart k both.symm

end Parts

section Calls

variable {ι : Type} {old : List Bytes} {owner : ι → Bytes} {i : ι} {g g' : Part}
  {s s' : Ledger} {c : RegCall}
  {r : RegCall.Ret c} {k : Bytes}

theorem allocating_faulty (a : allocating.answers s c r s') :
    ∃ order, (faulty order Fresh).answers s.registry c r s'.registry := by
  rcases a with ⟨order, guid, new, performed, -⟩ | ⟨e, failed, rfl⟩
  · exact ⟨order, .inl ⟨guid, fun ask => (new ask).1, performed⟩⟩
  · exact ⟨⟨id, fun _ => .refl _⟩, .inr ⟨e, failed, rfl⟩⟩

theorem allocating_issued (a : allocating.answers s c r s') (mem : k ∈ s.issued) :
    k ∈ s'.issued := by
  rcases a with ⟨order, guid, -, -, issued⟩ | ⟨e, -, rfl⟩
  · rw [issued]
    cases c <;> first | exact mem | exact List.mem_cons_of_mem _ mem
  · exact mem

theorem still_issued (a : allocating.answers s c r s') (issued : k ∈ s.issued ∧ k ∉ old) :
    k ∈ s'.issued ∧ k ∉ old :=
  issued.imp_left (allocating_issued a)

/-- A call that changes only claimed rules, those from before and the own record, and tags no
rule with another owner, is seen by no other process. -/
theorem updates_of (distinct : ∀ j, j ≠ i → fold (owner j) ≠ fold (owner i))
    (a : allocating.answers s c r s')
    (targets : ∀ b k, Targets fold c b k →
      (b = nrptBase ∧ g.Reaches old k) ∨ (b = stateBase ∧ k = fold (owner i)))
    (tags : ∀ k o, tag s'.registry k = some o → tag s.registry k = some o ∨ o = owner i)
    (grown : ∀ k, g'.keys k → g.keys k ∨ k ∉ s.issued) (mine : Knows old owner i g' s') :
    (parts old owner).Updates i g s g' s' := by
  refine ⟨mine, fun j h ne other apart => ⟨?_, fun k both => ?_⟩⟩
  · obtain ⟨order, a'⟩ := allocating_faulty a
    have rule : ∀ k, h.keys k → s'.registry.values nrptBase k = s.registry.values nrptBase k := by
      intro k theirs
      refine faulty_frame a' fun target => ?_
      cases targets _ _ target with
      | inl rule =>
          cases rule.2 with
          | inl early => exact (other.issued k theirs).2 early
          | inr ours => exact apart k ⟨ours, theirs⟩
      | inr state => exact stateBase_ne_nrptBase state.1.symm
    have state : s'.registry.values stateBase (fold (owner j)) =
        s.registry.values stateBase (fold (owner j)) := by
      refine faulty_frame a' fun target => ?_
      rcases targets _ _ target with ⟨base, -⟩ | ⟨-, same⟩
      · exact stateBase_ne_nrptBase base
      · exact distinct j ne same
    refine ⟨fun k theirs => (rule k theirs).trans (other.rules k theirs),
      state.trans other.record, fun k tagged => ?_, other.listed,
      fun k theirs => still_issued a (other.issued k theirs),
      fun k early => allocating_issued a (other.before k early)⟩
    rcases tags k _ tagged with before | same
    · exact other.tagged k before
    · exact absurd (congrArg fold same) (distinct j ne)
  · obtain ⟨ours, theirs⟩ := both
    rcases grown k ours with before | new
    · exact apart k ⟨before, theirs⟩
    · exact new (other.issued k theirs).1

variable (distinct : ∀ j, j ≠ i → fold (owner j) ≠ fold (owner i))

include distinct

theorem look_updates (quiet : Registry.Quiet c) (knows : Knows old owner i g s)
    (a : allocating.answers s c r s') : (parts old owner).Updates i g s g s' := by
  obtain ⟨order, a'⟩ := allocating_faulty a
  have same : s'.registry = s.registry := (quiet_faulty quiet).2 _ _ _ a'
  refine updates_of distinct a (fun b k target => ?_) (fun k o tagged => .inl (same ▸ tagged))
    (fun _ => .inl) ?_
  · cases c <;> first | exact target.elim | exact quiet.elim
  · obtain ⟨rules, record, tagged, listed, issued, before⟩ := knows
    rw [← same] at rules record tagged
    exact ⟨rules, record, tagged, listed, fun k mine => still_issued a (issued k mine),
      fun k early => allocating_issued a (before k early)⟩

/-- A call on a claimed rule or on one from before. -/
theorem rule_updates (knows : Knows old owner i g s) (mine : g.Reaches old k)
    (a : allocating.answers s c r s')
    (targets : ∀ b k', Targets fold c b k' → b = nrptBase ∧ k' = k)
    (tags : ∀ o, tag s'.registry k = some o → tag s.registry k = some o ∨ o = owner i) :
    (parts old owner).Updates i g s (g.rewrite k (s'.registry.values nrptBase k)) s' := by
  obtain ⟨order, a'⟩ := allocating_faulty a
  have others : ∀ k', k' ≠ k → s'.registry.values nrptBase k' = s.registry.values nrptBase k' :=
    fun k' ne => faulty_frame a' fun target => ne (targets _ _ target).2
  refine updates_of distinct a (fun b k' target => ?_) (fun k' o tagged => ?_) (fun _ => .inl)
    ⟨fun k' claimed => ?_, ?_, fun k' tagged => ?_, knows.listed,
      fun k' claimed => still_issued a (knows.issued k' claimed),
      fun k' early => allocating_issued a (knows.before k' early)⟩
  · obtain ⟨base, rfl⟩ := targets b k' target
    exact .inl ⟨base, mine⟩
  · by_cases here : k' = k
    · exact here ▸ tags o (here ▸ tagged)
    · exact .inl ((tag_congr (others k' here)).symm.trans tagged)
  · by_cases here : k' = k
    · subst here
      exact (g.rewrite_self k' _).symm
    · exact (others k' here).trans
        ((knows.rules k' claimed).trans (g.rewrite_of_ne _ here).symm)
  · refine (faulty_frame a' fun target => ?_).trans knows.record
    exact stateBase_ne_nrptBase (targets _ _ target).1
  · by_cases here : k' = k
    · exact here ▸ mine
    · exact knows.tagged k' ((tag_congr (others k' here)).symm.trans tagged)

/-- A call on the own record. -/
theorem record_updates (knows : Knows old owner i g s) (a : allocating.answers s c r s')
    (targets : ∀ b k, Targets fold c b k → b = stateBase ∧ k = fold (owner i))
    (listed : ∀ values ids, s'.registry.values stateBase (fold (owner i)) = some values →
      values ruleIdsValue = some (.multiString ids) → ∀ id ∈ ids, g.Reaches old (fold id)) :
    (parts old owner).Updates i g s
      (g.note (s'.registry.values stateBase (fold (owner i)))) s' := by
  obtain ⟨order, a'⟩ := allocating_faulty a
  have keeps := state_keeps a' targets
  refine updates_of distinct a (fun b k target => .inr (targets b k target))
    (fun k o tagged => .inl ((keeps.tags k).symm.trans tagged)) (fun _ => .inl)
    ⟨fun k claimed => ?_, rfl, fun k tagged => knows.tagged k ((keeps.tags k).symm.trans tagged),
      listed, fun k claimed => still_issued a (knows.issued k claimed),
      fun k early => allocating_issued a (knows.before k early)⟩
  refine (faulty_frame a' fun target => ?_).trans (knows.rules k claimed)
  exact stateBase_ne_nrptBase (targets _ _ target).1.symm

/-- A rule key that nobody claims and that has no rule. -/
theorem claim_updates (knows : Knows old owner i g s) (a : allocating.answers s c r s')
    (quiet : Registry.Quiet c) (fresh : s.registry.values nrptBase k = none)
    (unissued : k ∉ s.issued) (issued : k ∈ s'.issued) :
    (parts old owner).Updates i g s (g.claim k) s' := by
  obtain ⟨order, a'⟩ := allocating_faulty a
  have same : s'.registry = s.registry := (quiet_faulty quiet).2 _ _ _ a'
  refine updates_of distinct a (fun b k target => ?_) (fun k o tagged => .inl (same ▸ tagged)) ?_
    ⟨fun k' claimed => ?_, same ▸ knows.record,
      fun k' tagged => (knows.tagged k' ?_).imp_right .inr,
      fun values ids here list id mem => (knows.listed values ids here list id mem).imp_right .inr,
      ?_, fun k' early => allocating_issued a (knows.before k' early)⟩
  · cases c <;> first | exact target.elim | exact quiet.elim
  · rintro k' (rfl | claimed)
    · exact .inr unissued
    · exact .inl claimed
  · rw [same]
    by_cases here : k' = k
    · subst here
      rw [fresh, Part.claim_self]
    · rw [g.claim_of_ne here, knows.rules k' (claimed.resolve_left here)]
  · rwa [same] at tagged
  · rintro k' (rfl | claimed)
    · exact ⟨issued, fun early => unissued (knows.before k' early)⟩
    · exact still_issued a (knows.issued k' claimed)

/-- A new identifier is nobody's. -/
theorem guid_updates {guid : Guid} (knows : Knows old owner i g s)
    (a : allocating.answers s .createGuid (.ok guid) s') :
    (parts old owner).Updates i g s (g.claim (fold (bracedGuid guid))) s' ∧
      ¬ g.keys (fold (bracedGuid guid)) := by
  have answer := a
  rcases a with ⟨order, issued, new, performed, noted⟩ | ⟨e, ⟨⟩, -⟩
  obtain ⟨same, registry⟩ := Prod.mk.inj performed
  cases same
  obtain ⟨fresh, unissued⟩ := new rfl
  refine ⟨claim_updates distinct knows answer trivial fresh unissued ?_,
    fun mine => unissued (knows.issued _ mine).1⟩
  rw [noted]
  exact List.mem_cons_self

end Calls

section Programs

variable {ι : Type} {old : List Bytes} {owner : ι → Bytes} {i : ι} {g g' g'' : Part}
  {ruleId servers : Bytes} {ruleIds : List Bytes}

/-- Programs of a process among others. -/
abbrev Local (old : List Bytes) (owner : ι → Bytes) (i : ι) {α : Type} (Q : α → Part → Prop)
    (p : Registry.Io α) (g : Part) : Prop :=
  (parts old owner).Follows allocating (fun _ _ _ => True) i Q p g

def Part.Has (g : Part) (old ruleIds : List Bytes) : Prop :=
  ∀ id ∈ ruleIds, g.Reaches old (fold id)

/-- No claim is given up. -/
def Grows (g g' : Part) : Prop := ∀ k, g.keys k → g'.keys k

theorem Grows.refl (g : Part) : Grows g g := fun _ => id

theorem Grows.trans (h : Grows g g') (h' : Grows g' g'') : Grows g g'' := fun k mine =>
  h' k (h k mine)

theorem Grows.has (h : Grows g g') (has : g.Has old ruleIds) : g'.Has old ruleIds := fun id mem =>
  (has id mem).imp_right (h _)

/-- Only this rule may have changed, and after a success it is as it was written. -/
def Writes {ε : Type} (g : Part) (k : Bytes) (values : Values) (r : Except ε Unit) (g' : Part) :
    Prop :=
  ∃ w, g' = g.rewrite k w ∧ (r = .ok () → w = some values)

theorem Writes.mapError {ε ε' : Type} {f : ε → ε'} {k : Bytes} {values : Values}
    {r : Except ε Unit} (writes : Writes g k values r g') :
    Writes g k values (r.mapError f) g' := by
  obtain ⟨w, rfl, written⟩ := writes
  exact ⟨w, rfl, fun ok => written (Parts.mapError_eq_ok.mp ok)⟩

/-- The rules are claimed and complete, one for each piece. -/
structure Complete (owner servers : Bytes) (g : Part) (ruleIds : List Bytes)
    (pieces : List (List Bytes)) : Prop where
  rules : List.Forall₂ (fun ruleId piece => g.keys (fold ruleId) ∧
    g.rules (fold ruleId) = some (ruleValues owner servers piece)) ruleIds pieces
  distinct : (ruleIds.map fold).Nodup

theorem Complete.claimed {o id : Bytes} {pieces : List (List Bytes)}
    (complete : Complete o servers g ruleIds pieces) (mem : id ∈ ruleIds) : g.keys (fold id) := by
  obtain ⟨piece, -, mine, -⟩ := exists_of_forall₂ complete.rules mem
  exact mine

theorem Complete.has {o : Bytes} {pieces : List (List Bytes)}
    (complete : Complete o servers g ruleIds pieces) : g.Has old ruleIds :=
  fun _ mem => .inr (complete.claimed mem)

/-- One more rule, under a key that was not claimed before. -/
theorem Complete.append {o : Bytes} {pieces : List (List Bytes)}
    (complete : Complete o servers g ruleIds pieces) (piece : List Bytes)
    (free : ¬ g.keys (fold ruleId)) :
    Complete o servers ((g.claim (fold ruleId)).rewrite (fold ruleId)
      (some (ruleValues o servers piece))) (ruleIds ++ [ruleId]) (pieces ++ [piece]) := by
  have ne : ∀ k, g.keys k → k ≠ fold ruleId := by
    rintro k mine rfl
    exact free mine
  refine ⟨List.rel_append (complete.rules.imp ?_)
    (.cons ⟨.inl rfl, Part.rewrite_self ..⟩ .nil), ?_⟩
  · rintro id piece ⟨mine, rule⟩
    refine ⟨.inr mine, ?_⟩
    rw [Part.rewrite_of_ne _ _ (ne _ mine), Part.claim_of_ne _ (ne _ mine), rule]
  · rw [List.map_append, List.nodup_append]
    refine ⟨complete.distinct, List.nodup_singleton _, fun k mem k' last => ?_⟩
    obtain ⟨id, listed, rfl⟩ := List.mem_map.mp mem
    obtain rfl := List.mem_singleton.mp last
    exact ne _ (complete.claimed listed)

theorem Complete.note {o : Bytes} {pieces : List (List Bytes)}
    (complete : Complete o servers g ruleIds pieces) (record : Option Values) :
    Complete o servers (g.note record) ruleIds pieces :=
  ⟨complete.rules, complete.distinct⟩

/-- The record names these rules. -/
def Noted (ruleIds : List Bytes) (g : Part) : Prop :=
  ∃ values, g.record = some values ∧ values ruleIdsValue = some (.multiString ruleIds)

variable (distinct : ∀ j, j ≠ i → fold (owner j) ≠ fold (owner i))

include distinct

/-- A call that only looks. -/
theorem local_look {α : Type} {Q : α → Part → Prop} {c : RegCall}
    {k : RegCall.Ret c → Registry.Io α}
    (quiet : Registry.Quiet c)
    (rest : ∀ s r s', Knows old owner i g s → allocating.answers s c r s' →
      Local old owner i Q (k r) g) :
    Local old owner i Q (.call c k) g :=
  fun s knows _ r s' a => ⟨g, look_updates distinct quiet knows a, rest s r s' knows a⟩

theorem removeTree_local (mine : g.Reaches old (fold ruleId)) :
    Local old owner i (fun _ g' => Grows g g') (Reg.removeTree (rulePath ruleId)) g := by
  intro s knows _ r s' a
  obtain ⟨order, a'⟩ := allocating_faulty a
  obtain ⟨loses, -⟩ := removeTree_rule a'
  exact ⟨_, rule_updates distinct knows mine a (fun _ _ target => target)
    fun o tagged => .inl (loses.tag tagged), fun _ => id⟩

theorem removeRules_local (has : g.Has old ruleIds) :
    Local old owner i (fun _ g' => Grows g g') (removeRules ruleIds) g := by
  induction ruleIds generalizing g with
  | nil => exact Grows.refl g
  | cons ruleId ruleIds ih =>
      obtain ⟨first, others⟩ := List.forall_mem_cons.mp has
      refine Parts.Follows.bind ((removeTree_local distinct first).post fun _ g' grown => ?_)
      exact (ih (grown.has others)).post fun _ _ => grown.trans

theorem removeTaggedRules_local (index remaining : Nat) (g : Part) :
    Local old owner i (fun _ g' => Grows g g') (removeTaggedRules (owner i) index remaining) g := by
  induction remaining generalizing index g with
  | zero => exact Grows.refl g
  | succ remaining ih =>
      refine local_look distinct trivial fun _ next _ _ _ => ?_
      cases next with
      | error e => exact Grows.refl g
      | ok ruleId =>
          refine local_look distinct trivial fun _ opened _ _ _ => ?_
          cases opened with
          | error e => exact ih (index + 1) g
          | ok _ =>
              refine local_look distinct trivial fun s read s' knows a => ?_
              cases read with
              | error e => exact ih (index + 1) g
              | ok found =>
                  show Local old owner i _ (if found = owner i then _ else _) g
                  split
                  case isTrue same =>
                    subst same
                    obtain ⟨order, a'⟩ := allocating_faulty a
                    have mine := knows.tagged _ (tag_of_found (faulty_getString a'))
                    refine Parts.Follows.bind ((removeTree_local distinct mine).post ?_)
                    intro _ g' grown
                    exact (ih (index + 1) g').post fun _ _ => grown.trans
                  case isFalse other => exact ih (index + 1) g

theorem removeOwnerTaggedRules_local (g : Part) :
    Local old owner i (fun _ g' => Grows g g') (removeOwnerTaggedRules (owner i)) g := by
  refine local_look distinct trivial fun _ opened _ _ _ => ?_
  cases opened with
  | error e => exact Grows.refl g
  | ok _ =>
      refine local_look distinct trivial fun _ counted _ _ _ => ?_
      cases counted with
      | error e => exact Grows.refl g
      | ok count => exact removeTaggedRules_local distinct 0 count g

/-- The record is removed or stays as it is. -/
theorem removeState_local (g : Part) :
    Local old owner i (fun _ g' => Grows g g') (Reg.removeTree (statePath (owner i))) g := by
  intro s knows _ r s' a
  refine ⟨_, record_updates distinct knows a (fun _ _ target => target) ?_, Grows.refl g⟩
  intro values ids here
  obtain ⟨order, a'⟩ := allocating_faulty a
  rcases faulty_removeTree a' with ⟨same, -⟩ | ⟨-, gone⟩
  · rw [same, knows.record] at here
    exact knows.listed values ids here
  · cases here.symm.trans gone

theorem cleanupOwner_local (g : Part) :
    Local old owner i (fun _ g' => Grows g g') (cleanupOwner (owner i)) g := by
  refine local_look distinct trivial fun _ opened _ _ _ => ?_
  cases opened with
  | error e => exact Grows.refl g
  | ok _ =>
      refine local_look distinct trivial fun s read s' knows a => ?_
      have forgotten : ∀ g', Grows g g' →
          Local old owner i (fun _ g' => Grows g g') (removeState (owner i)) g' := fun g' grown =>
        Parts.Follows.bind ((removeState_local distinct g').post fun _ _ => grown.trans)
      cases read with
      | error e =>
          exact Parts.Follows.bind (p := removeOwnerTaggedRules (owner i))
            ((removeOwnerTaggedRules_local distinct g).post fun _ => forgotten)
      | ok ruleIds =>
          obtain ⟨order, a'⟩ := allocating_faulty a
          obtain ⟨values, there, list⟩ := Option.bind_eq_some_iff.mp (faulty_getMultiString a')
          have has : g.Has old ruleIds :=
            knows.listed values ruleIds (knows.record.symm.trans there) list
          exact Parts.Follows.bind (p := removeRules ruleIds)
            ((removeRules_local distinct has).post fun _ => forgotten)

variable {name : Bytes} {data : Value} {values : Values}

theorem create_local (mine : g.keys (fold ruleId)) (absent : g.rules (fold ruleId) = none) :
    Local old owner i (Writes g (fold ruleId) fun _ => none) (Reg.create (rulePath ruleId)) g := by
  intro s knows _ r s' a
  obtain ⟨order, a'⟩ := allocating_faulty a
  have same := create_rule a'
  refine ⟨_, rule_updates distinct knows (.inr mine) a (fun _ _ target => target)
    fun o tagged => .inl ((same.tags _).symm.trans tagged), _, rfl, fun ok => ?_⟩
  rcases faulty_create a' with ⟨-, there⟩ | ⟨-, created⟩
  · exact absurd ((knows.rules _ mine).trans absent) (there ok)
  · exact created

/-- Only the owner's name is written where the tag stands. -/
theorem setValue_local (mine : g.keys (fold ruleId))
    (tags : name = ownerValue → data = .string (owner i)) :
    Local old owner i (Writes g (fold ruleId) (Function.update values name (some data)))
      (Reg.setValue (rulePath ruleId) name data) (g.rewrite (fold ruleId) (some values)) := by
  intro s knows _ r s' a
  obtain ⟨order, a'⟩ := allocating_faulty a
  have tagged : ∀ o, tag s'.registry (fold ruleId) = some o →
      tag s.registry (fold ruleId) = some o ∨ o = owner i := by
    intro o mark
    by_cases named : name = ownerValue
    · obtain rfl := tags named
      subst named
      obtain ⟨-, ⟨same, -⟩ | ⟨-, written⟩⟩ := setOwner_rule a'
      · exact .inl (same ▸ mark)
      · rw [written, Function.update_self, Option.some.injEq] at mark
        exact .inr mark.symm
    · exact .inl (((setValue_rule named a').tags _).symm.trans mark)
  refine ⟨_, rule_updates distinct knows (.inr mine) a (fun _ _ target => target) tagged, _,
    g.rewrite_rewrite .., fun ok => ?_⟩
  rcases faulty_setValue a' with ⟨-, failed⟩ | ⟨-, before, there, written⟩
  · exact absurd ok failed
  · have known := (knows.rules _ mine).symm.trans there
    rw [Part.rewrite_self, Option.some.injEq] at known
    exact known ▸ written

omit distinct in
/-- One step of the preparation of a rule. -/
theorem write_then {x : Registry.Io (Except RegError Unit)} {f : RegError → NrptError}
    {rest : Unit → Result Unit} {Q : Except NrptError Unit → Part → Prop} {k : Bytes}
    (step : Local old owner i (Writes g k values) x g')
    (next : Local old owner i Q (rest ()).run (g.rewrite k (some values)))
    (error : ∀ e w, Q (.error e) (g.rewrite k w)) :
    Local old owner i Q (mapErr x f >>= rest).run g' := by
  refine Parts.Follows.tryBind (Parts.Follows.mapErr (step.post fun _ _ => Writes.mapError)) ?_ ?_
  · rintro ⟨⟩ _ ⟨w, rfl, written⟩
    exact written rfl ▸ next
  · rintro e _ ⟨w, rfl, -⟩
    exact error e w

theorem writeRule_local (servers : Bytes) (domains : List Bytes) (mine : g.keys (fold ruleId))
    (absent : g.rules (fold ruleId) = none) :
    Local old owner i (Writes g (fold ruleId) (ruleValues (owner i) servers domains))
      (writeRule (owner i) ruleId servers domains).run g := by
  have failed : ∀ e w, Writes g (fold ruleId) (ruleValues (owner i) servers domains)
      (.error e : Except NrptError Unit) (g.rewrite (fold ruleId) w) :=
    fun _ w => ⟨w, rfl, by simp⟩
  have fill : ∀ (name : Bytes) (data : Value) (values : Values), name ≠ ownerValue →
      Local old owner i (Writes g (fold ruleId) (Function.update values name (some data)))
        (Reg.setValue (rulePath ruleId) name data) (g.rewrite (fold ruleId) (some values)) :=
    fun _ _ _ other => setValue_local distinct mine fun same => absurd same other
  refine write_then (create_local distinct mine absent) ?_ failed
  refine write_then (fill _ _ _ (by decide)) ?_ failed
  refine write_then (fill _ _ _ (by decide)) ?_ failed
  refine write_then (fill _ _ _ (by decide)) ?_ failed
  refine write_then (fill _ _ _ (by decide)) ?_ failed
  exact Parts.Follows.mapErr ((setValue_local distinct mine fun _ => rfl).post
    fun _ _ => Writes.mapError)

theorem giveUp_local {α : Type} {error : NrptError} {Q : Except NrptError α → Part → Prop}
    (has : g.Has old ruleIds) (failed : ∀ g', Grows g g' → Q (.error error) g') :
    Local old owner i Q
      ((liftM (removeRules ruleIds) : Result Unit) >>= fun _ => throw error).run g :=
  Parts.Follows.lift ((removeRules_local distinct has).post fun _ => failed)

theorem createGuid_local (g : Part) :
    Local old owner i (fun r g' => Grows g g' ∧ ∀ guid, r = .ok guid →
      ¬ g.keys (fold (bracedGuid guid)) ∧ g' = g.claim (fold (bracedGuid guid)))
      Reg.createGuid g := by
  intro s knows _ r s' a
  cases r with
  | error e =>
      have quiet : Registry.Quiet .createGuid := trivial
      exact ⟨g, look_updates distinct quiet knows a, Grows.refl g, by simp⟩
  | ok guid =>
      obtain ⟨updates, free⟩ := guid_updates distinct knows a
      refine ⟨_, updates, fun _ => .inr, ?_⟩
      rintro _ ⟨⟩
      exact ⟨free, rfl⟩

theorem createRuleId_local (g : Part) :
    Local old owner i (fun r g' => Grows g g' ∧ ∀ ruleId, r = .ok ruleId →
      ¬ g.keys (fold ruleId) ∧ g' = g.claim (fold ruleId)) createRuleId.run g := by
  refine Parts.Follows.tryBind (M := fun r g' => Grows g g' ∧ ∀ guid, r = .ok guid →
    ¬ g.keys (fold (bracedGuid guid)) ∧ g' = g.claim (fold (bracedGuid guid)))
    (Parts.Follows.mapErr ((createGuid_local distinct g).post ?_)) ?_ fun _ _ claimed =>
      ⟨claimed.1, by simp⟩
  · rintro r g' ⟨grown, claimed⟩
    exact ⟨grown, fun guid ok => claimed guid (Parts.mapError_eq_ok.mp ok)⟩
  · rintro guid g' ⟨grown, claimed⟩
    refine ⟨grown, ?_⟩
    rintro _ ⟨⟩
    exact claimed guid rfl

theorem writeRules_local (servers : Bytes) {done : List (List Bytes)} (rest : List (List Bytes))
    (complete : Complete (owner i) servers g ruleIds done) :
    Local old owner i (fun r g' => Grows g g' ∧ ∀ new, r = .ok new →
      Complete (owner i) servers g' new (done ++ rest))
      (writeRules (owner i) servers ruleIds rest).run g := by
  induction rest generalizing ruleIds done g with
  | nil =>
      refine ⟨Grows.refl g, ?_⟩
      rintro _ ⟨⟩
      rwa [List.append_nil]
  | cons piece rest ih =>
      refine Parts.Follows.tryBind (createRuleId_local distinct g) ?_ fun _ _ claimed =>
        ⟨claimed.1, by simp⟩
      rintro ruleId _ ⟨-, claimed⟩
      obtain ⟨free, rfl⟩ := claimed ruleId rfl
      refine Parts.Follows.lift ((writeRule_local distinct servers piece (Part.claims ..)
        (Part.claim_self ..)).post ?_)
      rintro written _ ⟨w, rfl, complete'⟩
      have grown : Grows g ((g.claim (fold ruleId)).rewrite (fold ruleId) w) := fun _ => .inr
      cases written with
      | error e =>
          exact giveUp_local distinct (grown.has complete.has) fun g' more =>
            ⟨grown.trans more, by simp⟩
      | ok _ =>
          rw [complete' rfl] at grown ⊢
          have step := ih (complete.append piece free)
          rw [List.append_assoc] at step
          exact step.post fun _ _ after => ⟨grown.trans after.1, after.2⟩

theorem createState_local (g : Part) :
    Local old owner i (fun _ g' => ∃ record, g' = g.note record)
      (Reg.create (statePath (owner i))) g := by
  intro s knows _ r s' a
  refine ⟨_, record_updates distinct knows a (fun _ _ target => target) ?_, _, rfl⟩
  intro values ids here list
  obtain ⟨order, a'⟩ := allocating_faulty a
  rcases faulty_create a' with ⟨same, -⟩ | ⟨-, created⟩
  · rw [same, knows.record] at here
    exact knows.listed values ids here list
  · obtain rfl := Option.some.inj (created.symm.trans here)
    cases list

theorem setRuleIds_local (has : g.Has old ruleIds) :
    Local old owner i (fun r g' => ∃ record, g' = g.note record ∧ (r = .ok () → Noted ruleIds g'))
      (Reg.setValue (statePath (owner i)) ruleIdsValue (.multiString ruleIds)) g := by
  intro s knows _ r s' a
  obtain ⟨order, a'⟩ := allocating_faulty a
  refine ⟨_, record_updates distinct knows a (fun _ _ target => target) ?_, _, rfl, fun ok => ?_⟩
  · intro values ids here list
    rcases faulty_setValue a' with ⟨same, -⟩ | ⟨-, before, -, written⟩
    · rw [same, knows.record] at here
      exact knows.listed values ids here list
    · obtain rfl := Option.some.inj (written.symm.trans here)
      rw [Function.update_self, Option.some.injEq, Value.multiString.injEq] at list
      exact list ▸ has
  · rcases faulty_setValue a' with ⟨-, failed⟩ | ⟨-, before, -, written⟩
    · exact absurd ok failed
    · exact ⟨_, written, Function.update_self ..⟩

theorem writeState_local (has : g.Has old ruleIds) :
    Local old owner i (fun r g' => ∃ record, g' = g.note record ∧ (r = .ok () → Noted ruleIds g'))
      (writeState (owner i) ruleIds).run g := by
  refine Parts.Follows.tryBind (Parts.Follows.mapErr ((createState_local distinct g).post ?_)) ?_ ?_
    (M := fun _ g' => ∃ record, g' = g.note record)
  · exact fun _ _ => id
  · rintro _ _ ⟨record, rfl⟩
    refine Parts.Follows.mapErr ((setRuleIds_local distinct (g := g.note record) has).post ?_)
    rintro r _ ⟨record', rfl, noted⟩
    exact ⟨record', rfl, fun ok => noted (Parts.mapError_eq_ok.mp ok)⟩
  · rintro e _ ⟨record, rfl⟩
    exact ⟨record, rfl, by simp⟩

/-- What an application leaves, whatever the others have done meanwhile. -/
theorem apply_local (servers : List IpAddr) (namespaces : List Bytes) (g : Part) :
    Local old owner i (fun r g' => Grows g g' ∧ ∀ handle, r = .ok handle → handle.owner = owner i ∧
      Complete (owner i) (serverList servers) g' handle.ruleIds
        (chunks namespaceChunkSize namespaces) ∧ Noted handle.ruleIds g')
      (apply (owner i) servers namespaces).run g := by
  refine Parts.Follows.lift ((cleanupOwner_local distinct g).post fun _ g₁ grown => ?_)
  refine Parts.Follows.tryBind (writeRules_local distinct (serverList servers)
    (chunks namespaceChunkSize namespaces) ⟨.nil, .nil⟩) ?_ fun _ _ after =>
      ⟨grown.trans after.1, by simp⟩
  rintro ruleIds g₂ ⟨more, written⟩
  have complete := written ruleIds rfl
  refine Parts.Follows.lift ((writeState_local distinct complete.has).post ?_)
  rintro recorded _ ⟨record, rfl, noted⟩
  have all : Grows g (g₂.note record) := grown.trans more
  cases recorded with
  | error e =>
      exact giveUp_local distinct complete.has fun g' rest => ⟨all.trans rest, by simp⟩
  | ok _ =>
      refine ⟨all, ?_⟩
      rintro _ ⟨⟩
      exact ⟨rfl, complete.note record, noted rfl⟩

theorem removeRulesChecked_local (has : g.Has old ruleIds) :
    Local old owner i (fun _ g' => Grows g g') (removeRulesChecked ruleIds).run g := by
  induction ruleIds generalizing g with
  | nil => exact Grows.refl g
  | cons ruleId ruleIds ih =>
      obtain ⟨first, others⟩ := List.forall_mem_cons.mp has
      refine Parts.Follows.tryBind (M := fun _ g' => Grows g g')
        (Parts.Follows.mapErr (removeTree_local distinct first)) ?_ fun _ _ => id
      intro _ g' grown
      exact (ih (grown.has others)).post fun _ _ => grown.trans

theorem close_local {handle : RuleSet} (mine : handle.owner = owner i)
    (has : g.Has old handle.ruleIds) :
    Local old owner i (fun _ g' => Grows g g') (close handle).run g := by
  refine Parts.Follows.tryBind (M := fun _ g' => Grows g g')
    (removeRulesChecked_local distinct has) ?_ fun _ _ => id
  intro _ g' grown
  rw [mine]
  exact Parts.Follows.mapErr ((removeState_local distinct g').post fun _ _ => grown.trans)

end Programs

section Sessions

/-- What a process is asked to do. It keeps its handles, the newest first. -/
inductive Request where
  | apply (servers : List IpAddr) (domains : List DomainSuffix)
  | close (index : Nat)
  | forget (index : Nat)

def serve (owner : Bytes) (handles : List RuleSet) : List Request → Registry.Io (List RuleSet)
  | [] => pure handles
  | .apply servers domains :: rest => do
      match ← (apply owner servers (namespacesForGlobalOrSplit domains)).run with
      | .ok handle => serve owner (handle :: handles) rest
      | .error _ => serve owner handles rest
  | .close index :: rest =>
      match handles[index]? with
      | some handle => do
          let _ ← (close handle).run
          serve owner (handles.eraseIdx index) rest
      | none => serve owner handles rest
  | .forget index :: rest => serve owner (handles.eraseIdx index) rest

/-- Any requests, and an application at the end. -/
structure Session where
  requests : List Request
  servers : List IpAddr
  domains : List DomainSuffix

def Session.run (owner : Bytes) (session : Session) : Registry.Io (Except NrptError RuleSet) := do
  let _ ← serve owner [] session.requests
  (apply owner session.servers (namespacesForGlobalOrSplit session.domains)).run

/-- The handle's rules are complete, and they are the ones that are recorded. -/
structure Serves (owner : Bytes) (session : Session) (handle : RuleSet) (s : Machine) : Prop where
  owned : handle.owner = owner
  rules : List.Forall₂ (fun ruleId piece => s.values nrptBase (fold ruleId) =
    some (ruleValues owner (serverList session.servers) piece)) handle.ruleIds
      (chunks namespaceChunkSize (namespacesForGlobalOrSplit session.domains))
  distinct : (handle.ruleIds.map fold).Nodup
  recorded : s.value (statePath owner) ruleIdsValue = some (.multiString handle.ruleIds)

variable {ι : Type}

abbrev Processes (ι : Type) : Type :=
  Effects.System RegCall RegCall.Ret Ledger (Except NrptError RuleSet) ι

def serving (owner : ι → Bytes) (sessions : ι → Session) (start : Ledger) : Processes ι where
  state := start
  programs i := (sessions i).run (owner i)

variable {old : List Bytes} {owner : ι → Bytes} {sessions : ι → Session} {i : ι} {g : Part}
  {start : Ledger} {s : Processes ι}

theorem serve_local (distinct : ∀ j, j ≠ i → fold (owner j) ≠ fold (owner i))
    (requests : List Request) {handles : List RuleSet}
    (mine : ∀ handle ∈ handles, handle.owner = owner i ∧ g.Has old handle.ruleIds) :
    Local old owner i (fun _ _ => True) (serve (owner i) handles requests) g := by
  induction requests generalizing handles g with
  | nil => trivial
  | cons request rest ih =>
      have erased : ∀ {g' : Part} (index : Nat), Grows g g' →
          ∀ handle ∈ handles.eraseIdx index, handle.owner = owner i ∧ g'.Has old handle.ruleIds :=
        fun index grown handle mem =>
          (mine handle (List.mem_of_mem_eraseIdx mem)).imp_right grown.has
      cases request with
      | apply servers domains =>
          refine Parts.Follows.bind ((apply_local distinct servers _ g).post ?_)
          rintro (e | handle) g' ⟨grown, applied⟩
          · exact ih fun handle mem => (mine handle mem).imp_right grown.has
          · obtain ⟨owned, complete, -⟩ := applied handle rfl
            refine ih (List.forall_mem_cons.mpr ⟨⟨owned, complete.has⟩, fun handle mem => ?_⟩)
            exact (mine handle mem).imp_right grown.has
      | close index =>
          rw [serve]
          cases here : handles[index]? with
          | none => exact ih mine
          | some handle =>
              obtain ⟨owned, has⟩ := mine handle (List.mem_of_getElem? here)
              refine Parts.Follows.bind ((close_local distinct owned has).post fun _ g' grown => ?_)
              exact ih (erased index grown)
      | forget index => exact ih (erased index (Grows.refl g))

theorem session_local (distinct : ∀ j, j ≠ i → fold (owner j) ≠ fold (owner i))
    (session : Session) (g : Part) :
    Local old owner i (fun r g' => ∀ handle, r = .ok handle → handle.owner = owner i ∧
      Complete (owner i) (serverList session.servers) g' handle.ruleIds
        (chunks namespaceChunkSize (namespacesForGlobalOrSplit session.domains)) ∧
      Noted handle.ruleIds g') (session.run (owner i)) g := by
  refine Parts.Follows.bind ((serve_local distinct session.requests (by simp)).post
    fun _ g' _ => ?_)
  exact (apply_local distinct session.servers _ g').post fun _ _ => And.right

/-- What an owner knows before anybody moves. -/
def startPart (owner : Bytes) (s : Machine) : Part where
  keys _ := False
  rules _ := none
  record := s.values stateBase (fold owner)

theorem serving_shared (distinct : ∀ i j, i ≠ j → fold (owner i) ≠ fold (owner j))
    (issued : ∀ k o, Claimed [] start.registry k o → k ∈ start.issued)
    (sessions : ι → Session) :
    Effects.System.Shared allocating (fun _ _ _ => True) (parts start.issued owner)
      (fun i r g => ∀ handle, r = .ok handle → handle.owner = owner i ∧
        Complete (owner i) (serverList (sessions i).servers) g handle.ruleIds
          (chunks namespaceChunkSize (namespacesForGlobalOrSplit (sessions i).domains)) ∧
        Noted handle.ruleIds g) (serving owner sessions start) := by
  refine ⟨fun i => startPart (owner i) start.registry, fun i => ?_, fun i j ne k both => both.1,
    fun i => session_local (fun j other => distinct j i other) (sessions i) _⟩
  refine ⟨fun k mine => mine.elim, rfl, fun k tagged => .inl (issued k _ (.inl tagged)), ?_,
    fun k mine => mine.elim, fun k early => early⟩
  intro values ids here list id mem
  have record : start.registry.value (statePath (owner i)) ruleIdsValue =
      some (.multiString ids) := Option.bind_eq_some_iff.mpr ⟨values, here, list⟩
  exact .inl (issued _ _ (.inr (.inl ⟨ids, record, List.mem_map_of_mem mem⟩)))

/-- In every interleaving of any sessions of owners with different state keys, a process whose
last application has succeeded has all its rules and its record, whatever the others have
done since, and shares no rule with another. -/
theorem concurrent_sessions_keep_rules [DecidableEq ι]
    (distinct : ∀ i j, i ≠ j → fold (owner i) ≠ fold (owner j))
    (issued : ∀ k o, Claimed [] start.registry k o → k ∈ start.issued)
    (run : Relation.ReflTransGen (Effects.System.Step allocating fun _ _ _ => True)
      (serving owner sessions start) s) {i : ι} {handle : RuleSet}
    (done : s.programs i = .ret (.ok handle)) :
    Serves (owner i) (sessions i) handle s.state.registry ∧
      ∀ j handle', j ≠ i → s.programs j = .ret (.ok handle') → ∀ id ∈ handle.ruleIds,
        fold id ∉ handle'.ruleIds.map fold := by
  obtain ⟨g, holds, apart, follows⟩ :=
    Effects.System.run_shared run (serving_shared distinct issued sessions)
  have finished : ∀ i handle, s.programs i = .ret (.ok handle) → handle.owner = owner i ∧
      Complete (owner i) (serverList (sessions i).servers) (g i) handle.ruleIds
        (chunks namespaceChunkSize (namespacesForGlobalOrSplit (sessions i).domains)) ∧
      Noted handle.ruleIds (g i) := by
    intro i handle done
    have last := follows i
    rw [done] at last
    exact last handle rfl
  obtain ⟨owned, complete, values, here, list⟩ := finished i handle done
  refine ⟨⟨owned, complete.rules.imp ?_, complete.distinct, ?_⟩,
    fun j handle' ne done' id mem listed => ?_⟩
  · rintro id piece ⟨mine, rule⟩
    exact ((holds i).rules _ mine).trans rule
  · exact Option.bind_eq_some_iff.mpr ⟨values, (holds i).record.trans here, list⟩
  · obtain ⟨-, complete', -⟩ := finished j handle' done'
    obtain ⟨id', mem', same⟩ := List.mem_map.mp listed
    exact apart i j ne.symm (fold id) ⟨complete.claimed mem, same ▸ complete'.claimed mem'⟩

end Sessions

section Samples

/-- The identifiers are numbered. One that is taken is not handed out. -/
def sampleLedger : Handler RegCall RegCall.Ret Ledger := fun s c =>
  let guid := sampleGuid s.issued.length.toUInt32
  if c = .createGuid →
      Fresh s.registry guid ∧ ∀ k ∈ s.issued, k ≠ fold (bracedGuid guid) then
    ((s.registry.perform sampleOrder guid c).1,
      ⟨(s.registry.perform sampleOrder guid c).2, s.after guid c⟩)
  else (failure ERROR_FILE_NOT_FOUND c, s)

theorem sampleLedger_allocating (s : Ledger) (c : RegCall) :
    allocating.answers s c (sampleLedger s c).1 (sampleLedger s c).2 := by
  unfold sampleLedger
  dsimp only
  split
  case isTrue new =>
      have unissued : c = .createGuid → fold (bracedGuid (sampleGuid s.issued.length.toUInt32)) ∉
          s.issued := fun ask mem => (new ask).2 _ mem rfl
      exact .inl ⟨sampleOrder, _, fun ask => ⟨(new ask).1, unissued ask⟩, rfl, rfl⟩
  case isFalse => exact .inr ⟨_, rfl, rfl⟩

def sampleOwners (i : Bool) : Bytes := if i then bytes "second" else bytes "first"

/-- The first process applies and closes before it applies again. -/
def sampleSessions (i : Bool) : Session where
  requests := if i then [] else [.apply [.v4 ⟨10, 0, 0, 53⟩] [], .close 0]
  servers := [.v4 ⟨10, 0, 0, 54⟩]
  domains := []

def sampleUnused : Ledger := ⟨sampleEmpty, []⟩

/-- They alternate until the second one has finished. -/
def sampleMoves : List Bool :=
  (List.replicate 10 [false, true]).flatten ++ List.replicate 12 false

def sampleFinished : Processes Bool :=
  (serving sampleOwners sampleSessions sampleUnused).run sampleLedger (fun _ => false) sampleMoves

set_option maxRecDepth 40000 in
theorem concurrent_sessions_keep_rules_sample :
    Serves (bytes "first") (sampleSessions false) ⟨bytes "first", [bracedGuid (sampleGuid 2)]⟩
      sampleFinished.state.registry := by
  have ended : System.result (sampleFinished.programs false) =
      some (.ok ⟨bytes "first", [bracedGuid (sampleGuid 2)]⟩) := by decide
  have run : Relation.ReflTransGen (System.Step allocating fun _ _ _ => True)
      (serving sampleOwners sampleSessions sampleUnused) sampleFinished :=
    System.run_steps sampleLedger_allocating (fun _ _ _ _ => trivial) sampleMoves _
      (System.checks_all _ _ _)
  exact (concurrent_sessions_keep_rules (by decide)
    (fun _ _ claimed => absurd claimed sampleEmpty_untouched.unclaimed) run
    (System.result_eq_some.mp ended)).1

end Samples

end Setdns.Windows.Nrpt

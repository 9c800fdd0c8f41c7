import Mathlib.Logic.Relation
import Setdns.Windows.Nrpt

/-!
Tags and records. The rules tagged with an owner are the ones recorded for it,
as long as no call fails where a rule is at stake and no process dies between
the two writes. `Recorded` is the relation that the cleanup needs, and every
other step of the backend keeps it.
-/

namespace Setdns.Windows.Nrpt

open Text Effects Effects.Program Effects.Registry

theorem stateBase_ne_nrptBase : stateBase ≠ nrptBase := by decide

/-- The owner that a rule is tagged with. -/
def tag (s : Machine) (k : Bytes) : Option Bytes :=
  (s.values nrptBase k).bind fun values =>
    match values ownerValue with
    | some (.string owner) => some owner
    | _ => none

/-- The owner has at most one rule. -/
def Single (owner : Bytes) (s : Machine) : Prop :=
  ∀ k k', tag s k = some owner → tag s k' = some owner → k = k'

/-- The state key holds a list of rules. -/
def Readable (owner : Bytes) (s : Machine) : Prop :=
  ∃ ids, s.value (statePath owner) ruleIdsValue = some (.multiString ids)

/-- Without a state key the owner has no rule, a readable record lists all of them,
and beside an unreadable one there is at most one, which the tags lead to. -/
structure Recorded (owner : Bytes) (s : Machine) : Prop where
  absent : s.values stateBase (fold owner) = none → ∀ k, tag s k ≠ some owner
  listed : ∀ ids, s.value (statePath owner) ruleIdsValue = some (.multiString ids) →
    ∀ k, tag s k = some owner → k ∈ ids.map fold
  single : ¬ Readable owner s → Single owner s

section Changes

variable {order : Enumeration} {s s' s'' : Machine} {owner ruleId name : Bytes} {data : Value}

def SameStates (s s' : Machine) : Prop := ∀ k, s'.values stateBase k = s.values stateBase k

/-- Rules are removed and nothing else happens. -/
structure Loses (s s' : Machine) : Prop where
  rules : ∀ k, s'.values nrptBase k = s.values nrptBase k ∨ s'.values nrptBase k = none
  states : SameStates s s'

/-- The same tags and records. -/
structure Same (s s' : Machine) : Prop where
  tags : ∀ k, tag s' k = tag s k
  states : SameStates s s'

/-- Only the state key of the owner changes. -/
structure Keeps (owner : Bytes) (s s' : Machine) : Prop where
  tags : ∀ k, tag s' k = tag s k
  states : ∀ k, k ≠ fold owner → s'.values stateBase k = s.values stateBase k

theorem Loses.refl (s : Machine) : Loses s s := ⟨fun _ => .inl rfl, fun _ => rfl⟩

theorem Loses.trans (h : Loses s s') (h' : Loses s' s'') : Loses s s'' where
  rules k := by
    rcases h'.rules k with e | e
    · rw [e]
      exact h.rules k
    · exact .inr e
  states k := (h'.states k).trans (h.states k)

theorem Loses.gone (h : Loses s s') {k : Bytes} (gone : s.values nrptBase k = none) :
    s'.values nrptBase k = none := by
  rcases h.rules k with e | e
  · exact e.trans gone
  · exact e

theorem Loses.tag (h : Loses s s') {k o : Bytes} (tagged : tag s' k = some o) :
    Nrpt.tag s k = some o := by
  rcases h.rules k with e | e
  · rwa [Nrpt.tag, e] at tagged
  · simp [Nrpt.tag, e] at tagged

theorem value_state (states : SameStates s s') (owner name : Bytes) :
    s'.value (statePath owner) name = s.value (statePath owner) name := by
  rw [Hive.value, Hive.value]
  exact congrArg (fun values => values.bind fun values => values name) (states (fold owner))

/-- An owner whose rules can only have become fewer stays recorded. -/
theorem Recorded.fewer (h : Recorded owner s) (states : SameStates s s')
    (fewer : ∀ k, tag s' k = some owner → tag s k = some owner) : Recorded owner s' where
  absent gone k tagged := h.absent ((states _).symm.trans gone) k (fewer k tagged)
  listed ids found k tagged :=
    h.listed ids ((value_state states owner ruleIdsValue).symm.trans found) k (fewer k tagged)
  single unreadable k k' tagged tagged' := by
    refine h.single (fun ⟨ids, found⟩ => unreadable ⟨ids, ?_⟩) k k' (fewer k tagged)
      (fewer k' tagged')
    exact (value_state states owner ruleIdsValue).trans found

theorem Keeps.value {o : Bytes} (keeps : Keeps owner s s') (ne : fold o ≠ fold owner)
    (name : Bytes) : s'.value (statePath o) name = s.value (statePath o) name := by
  rw [Hive.value, Hive.value]
  exact congrArg (fun values => values.bind fun values => values name) (keeps.states _ ne)

/-- An owner with a state key of its own does not notice what happens to another. -/
theorem Recorded.keeps {o : Bytes} (h : Recorded o s) (keeps : Keeps owner s s')
    (ne : fold o ≠ fold owner) : Recorded o s' where
  absent gone k tagged :=
    h.absent ((keeps.states _ ne).symm.trans gone) k ((keeps.tags k).symm.trans tagged)
  listed ids found k tagged :=
    h.listed ids ((keeps.value ne _).symm.trans found) k ((keeps.tags k).symm.trans tagged)
  single unreadable k k' tagged tagged' :=
    h.single (fun ⟨ids, found⟩ => unreadable ⟨ids, (keeps.value ne _).trans found⟩) k k'
      ((keeps.tags k).symm.trans tagged) ((keeps.tags k').symm.trans tagged')

theorem recorded_of_untagged (none : ∀ k, tag s k ≠ some owner) : Recorded owner s :=
  ⟨fun _ => none, fun _ _ k tagged => absurd tagged (none k),
    fun _ k _ tagged => absurd tagged (none k)⟩

/-- Calls on rules leave the records alone. -/
theorem rule_states {c : RegCall} {r : RegCall.Ret c} (a : (faulty order Fresh).answers s c r s')
    (h : ∀ k, ¬ Targets fold c stateBase k) : SameStates s s' :=
  fun k => faulty_frame a (h k)

theorem removeTree_rule {r : Except RegError Unit}
    (a : (faulty order Fresh).answers s (.removeTree (rulePath ruleId)) r s') :
    Loses s s' ∧ (r = .ok () → s.values nrptBase (fold ruleId) ≠ none ∧
      s'.values nrptBase (fold ruleId) = none) := by
  have states : SameStates s s' :=
    rule_states a fun k target => stateBase_ne_nrptBase target.1
  have other : ∀ k, k ≠ fold ruleId → s'.values nrptBase k = s.values nrptBase k :=
    fun k ne => faulty_frame a fun target => ne target.2
  rcases faulty_removeTree a with ⟨rfl, failed⟩ | ⟨there, gone⟩
  · exact ⟨Loses.refl _, fun ok => absurd ok failed⟩
  · refine ⟨⟨fun k => ?_, states⟩, fun _ => ⟨there, gone⟩⟩
    by_cases here : k = fold ruleId
    · exact .inr (here ▸ gone)
    · exact .inl (other k here)

theorem create_rule {r : Except RegError Unit}
    (a : (faulty order Fresh).answers s (.create (rulePath ruleId)) r s') : Same s s' := by
  refine ⟨fun k => ?_, rule_states a fun k target => stateBase_ne_nrptBase target.1⟩
  by_cases here : k = fold ruleId
  · subst here
    rcases faulty_create a with ⟨rfl, _⟩ | ⟨free, created⟩
    · rfl
    · have new : s'.values nrptBase (fold ruleId) = some fun _ => none := created
      have old : s.values nrptBase (fold ruleId) = none := free
      simp [tag, new, old]
  · rw [tag, tag, faulty_frame a fun target => here target.2]

theorem setValue_rule {r : Except RegError Unit} (ne : name ≠ ownerValue)
    (a : (faulty order Fresh).answers s (.setValue (rulePath ruleId) name data) r s') :
    Same s s' := by
  refine ⟨fun k => ?_, rule_states a fun k target => stateBase_ne_nrptBase target.1⟩
  by_cases here : k = fold ruleId
  · subst here
    rcases faulty_setValue a with ⟨rfl, _⟩ | ⟨_, values, there, written⟩
    · rfl
    · have new : s'.values nrptBase (fold ruleId) =
          some (Function.update values name (some data)) := written
      have old : s.values nrptBase (fold ruleId) = some values := there
      simp [tag, new, old, Function.update_of_ne ne.symm]
  · rw [tag, tag, faulty_frame a fun target => here target.2]

/-- The last write of a rule tags it. -/
theorem setOwner_rule {r : Except RegError Unit}
    (a : (faulty order Fresh).answers s
      (.setValue (rulePath ruleId) ownerValue (.string owner)) r s') :
    SameStates s s' ∧ ((s' = s ∧ r ≠ .ok ()) ∨
      (r = .ok () ∧ tag s' = Function.update (tag s) (fold ruleId) (some owner))) := by
  refine ⟨rule_states a fun k target => stateBase_ne_nrptBase target.1, ?_⟩
  rcases faulty_setValue a with failed | ⟨ok, values, there, written⟩
  · exact .inl failed
  refine .inr ⟨ok, funext fun k => ?_⟩
  by_cases here : k = fold ruleId
  · subst here
    have new : s'.values nrptBase (fold ruleId) =
        some (Function.update values ownerValue (some (.string owner))) := written
    simp [tag, new]
  · rw [Function.update_of_ne here, tag, tag, faulty_frame a fun target => here target.2]

/-- Calls on an owner's state key leave the rules and the other records alone. -/
theorem state_keeps {c : RegCall} {r : RegCall.Ret c} (a : (faulty order Fresh).answers s c r s')
    (h : ∀ b k, Targets fold c b k → b = stateBase ∧ k = fold owner) : Keeps owner s s' := by
  constructor
  · intro k
    rw [tag, tag, faulty_frame a fun target => stateBase_ne_nrptBase (h _ _ target).1.symm]
  · intro k ne
    exact faulty_frame a fun target => ne (h _ _ target).2

end Changes

end Setdns.Windows.Nrpt

import Setdns.Effects.Sequence
import Setdns.Windows.AtomicApply
import Setdns.Windows.Rollback

/-!
How much a close restores when some of its operations fail. Each loop of a close ends
at the first operation that fails. Which of the others are still done therefore
depends on their order.
-/

namespace Setdns.Windows

open Text Effects Effects.Program Effects.Registry Effects.NetSettings
open Interface (AddressFamily Call InterfaceDns InterfaceError InterfaceSnapshots NameServerSnapshot
  cell faulty restoreNameserver view)
open Nrpt (Machine NrptError OnNrptKeys bracedGuid fold nrptBase removeRulesChecked rulePath
  stateBase statePath)

/-- The answer of a call that fails. -/
def Failed : (c : Call) → Call.Ret c → Prop
  | .inl c, r => ∃ e, r = Registry.failure e c
  | .inr c, r => ∃ e, r = NetSettings.failure e c

/-- Exactly the planned calls fail. -/
abbrev planned (order : Enumeration) (platform : Platform) (fails : Call → Prop) :
    World Call Call.Ret Machine :=
  (Interface.calm order platform).planned Failed fails

section Plans

variable (fails : Call → Prop) (s : Machine) (snapshot : NameServerSnapshot)

/-- The key cannot be removed, or is gone already. -/
def RemovalFails (path : KeyPath) : Prop :=
  fails (.inl (.removeTree path)) ∨ s.values path.base (fold path.name) = none

/-- The value cannot be written back. -/
def Aborts : Prop :=
  fails (.inl (.create snapshot.path)) ∨ ∃ value, snapshot.value = some value ∧
    fails (.inl (.setValue snapshot.path nameServer (.string value)))

/-- The value is there, has to go and cannot be removed. -/
def Stays : Prop :=
  snapshot.value = none ∧ fails (.inr (.removeValue snapshot.path nameServer)) ∧
    view s (cell snapshot.path nameServer) ≠ none

def RestoreFails : Prop := Aborts fails snapshot ∨ Stays fails s snapshot

def Restored : Prop :=
  view s (cell snapshot.path nameServer) = snapshot.value.map Value.string

end Plans

/-- The snapshots in the order of their restore. -/
def snapshotsOf (handle : SetDns) : List NameServerSnapshot :=
  match handle.interfaceDns with
  | some ⟨snapshots⟩ => snapshots.ipv4.toList ++ snapshots.ipv6.toList
  | none => []

section Property

variable (fails : Call → Prop) (handle : SetDns) (s : Machine)

/-- A close does what none of its own failures prevents, and reports every failure. -/
structure BestEffort (r : Except Error Unit) (t : Machine) : Prop where
  rules : ∀ ruleId ∈ handle.nrptRules.ruleIds, ¬ RemovalFails fails s (rulePath ruleId) →
    t.values nrptBase (fold ruleId) = none
  families : ∀ snapshot ∈ snapshotsOf handle, ¬ RestoreFails fails s snapshot → Restored t snapshot
  answer : r = .ok () ↔
    (∀ ruleId ∈ handle.nrptRules.ruleIds, ¬ RemovalFails fails s (rulePath ruleId)) ∧
      ¬ RemovalFails fails s (statePath handle.nrptRules.owner) ∧
      ∀ snapshot ∈ snapshotsOf handle, ¬ RestoreFails fails s snapshot

/-- No rule that can be removed comes after one that cannot. The IPv6 value needs no restore that
would succeed if that of the IPv4 value ends the attempt. A value that stays is not the only
failure. -/
structure Unstopped : Prop where
  rules : handle.nrptRules.ruleIds.Pairwise fun a b =>
    RemovalFails fails s (rulePath a) → RemovalFails fails s (rulePath b)
  families : (snapshotsOf handle).Pairwise fun a b =>
    Aborts fails a → RestoreFails fails s b ∨ Restored s b
  answer : (∃ ruleId ∈ handle.nrptRules.ruleIds, RemovalFails fails s (rulePath ruleId)) ∨
    RemovalFails fails s (statePath handle.nrptRules.owner) ∨
    (∃ snapshot ∈ snapshotsOf handle, Aborts fails snapshot) ∨
    ∀ snapshot ∈ snapshotsOf handle, ¬ Stays fails s snapshot

end Property

/-- The identifiers differ, and each snapshot is one of its own family. -/
structure WellformedHandle (handle : SetDns) : Prop where
  rules : (handle.nrptRules.ruleIds.map fold).Nodup
  ipv4 : ∀ dns taken, handle.interfaceDns = some dns → dns.snapshots.ipv4 = some taken →
    taken.path.base = ipv4Base
  ipv6 : ∀ dns taken, handle.interfaceDns = some dns → dns.snapshots.ipv6 = some taken →
    taken.path.base = ipv6Base

variable {order : Enumeration} {platform : Platform} {fails : Call → Prop} {s t : Machine}
  {handle : SetDns} {path : KeyPath}

/-- Whatever fails, every handle of an application is well-formed. -/
theorem apply_wellformed {config : NormalizedConfig}
    (run : Ends (faulty order platform) (apply config).run s (.ok handle) t) :
    WellformedHandle handle := by
  cases apply_parts run with
  | @done interfaceDns rules s₁ s₂ t set applied flushed =>
      have placed : ∀ dns taken, interfaceDns = some dns →
          (dns.snapshots.ipv4 = some taken → taken.path.base = ipv4Base) ∧
            (dns.snapshots.ipv6 = some taken → taken.path.base = ipv6Base) := by
        rintro dns taken rfl
        unfold applyInterface at set
        split at set
        · split at set
          · obtain ⟨answered, ends, same⟩ := Ends.mapErr_cases set
            cases answered with
            | error e => cases same
            | ok _ =>
                cases same
                exact (Interface.apply_paths _ _ _).ends ends dns taken rfl
          · cases set
        · cases set
      exact ⟨Nrpt.apply_distinct (applied.left_cases.mono fun _ _ _ _ a => a),
        fun dns taken same kept => (placed dns taken same).1 kept,
        fun dns taken same kept => (placed dns taken same).2 kept⟩

theorem faulty_of_planned {c : Call} {r : Call.Ret c}
    (a : (planned order platform fails).answers s c r t) :
    (faulty order platform).answers s c r t := by
  rcases a with ⟨-, failed, rfl⟩ | ⟨-, a⟩
  · cases c with
    | inl c => exact .inr (failed.imp fun _ same => ⟨same, rfl⟩)
    | inr c => exact .inr (.inl (failed.imp fun _ same => ⟨same, rfl⟩))
  · exact (Interface.rolling_of_calm a).1

theorem planned_ends {α : Type} {p : Io α} {a : α}
    (run : Ends (planned order platform fails) p s a t) : Ends (faulty order platform) p s a t :=
  run.mono fun _ _ _ _ => faulty_of_planned

/-- A removal fails or takes the key away. -/
theorem removeTree_planned {r : Except RegError Unit}
    (a : (planned order platform fails).answers s (.inl (.removeTree path)) r t) :
    (RemovalFails fails s path ∧ (∃ e, r = .error e) ∧ t = s) ∨
      (¬ RemovalFails fails s path ∧ r = .ok () ∧ t = s.drop path.base (fold path.name)) := by
  rcases a with ⟨planned, ⟨e, rfl⟩, rfl⟩ | ⟨unplanned, guid, -, performed⟩
  · exact .inl ⟨.inl planned, ⟨e, rfl⟩, rfl⟩
  · cases there : s.find path.base (fold path.name) with
    | none =>
        have gone : s.values path.base (fold path.name) = none := by simp [Hive.values, there]
        simp only [Hive.perform, there] at performed
        obtain ⟨rfl, rfl⟩ := Prod.mk.inj performed
        exact .inl ⟨.inr gone, ⟨_, rfl⟩, rfl⟩
    | some key =>
        have present : s.values path.base (fold path.name) ≠ none := by simp [Hive.values, there]
        simp only [Hive.perform, there] at performed
        obtain ⟨rfl, rfl⟩ := Prod.mk.inj performed
        exact .inr ⟨fun fails => fails.elim unplanned present, rfl, rfl⟩

section Rules

theorem removeRulesChecked_eq (ruleIds : List Bytes) :
    removeRulesChecked ruleIds =
      ruleIds.forM fun ruleId => mapErr (Reg.removeTree (rulePath ruleId)) .registry := by
  induction ruleIds with
  | nil => rfl
  | cons ruleId ruleIds ih =>
      rw [removeRulesChecked, ih]
      rfl

theorem removalFails_congr {s' : Machine}
    (same : s'.values path.base (fold path.name) = s.values path.base (fold path.name)) :
    RemovalFails fails s' path ↔ RemovalFails fails s path := by
  rw [RemovalFails, RemovalFails, same]

/-- The removal of one key. -/
theorem removal_cases {r : Except NrptError Unit}
    (run : Ends (planned order platform fails).onLeft (mapErr (Reg.removeTree path) .registry).run
      s r t) :
    (RemovalFails fails s path ∧ (∃ e, r = .error e) ∧ t = s) ∨
      (¬ RemovalFails fails s path ∧ r = .ok () ∧ t = s.drop path.base (fold path.name)) := by
  obtain ⟨answered, call, rfl⟩ := Ends.mapErr_cases run
  have a : (planned order platform fails).answers s (.inl (.removeTree path)) answered t :=
    call.answer
  rcases removeTree_planned a with ⟨fatal, ⟨e, rfl⟩, rfl⟩ | ⟨removed, rfl, dropped⟩
  · exact .inl ⟨fatal, ⟨_, rfl⟩, rfl⟩
  · exact .inr ⟨removed, rfl, dropped⟩

theorem removal_other {r : Except NrptError Unit} {base folded : Bytes}
    (other : ¬ (base = path.base ∧ folded = fold path.name))
    (run : Ends (planned order platform fails).onLeft (mapErr (Reg.removeTree path) .registry).run
      s r t) : t.values base folded = s.values base folded := by
  rcases removal_cases run with ⟨-, -, rfl⟩ | ⟨-, -, rfl⟩
  · rfl
  · rw [Hive.values, Hive.values, find_drop_other other]

theorem removal_steps :
    Steps (planned order platform fails).onLeft
      (fun ruleId => mapErr (Reg.removeTree (rulePath ruleId)) NrptError.registry)
      (fun ruleId s => RemovalFails fails s (rulePath ruleId))
      (fun ruleId s => RemovalFails fails s (rulePath ruleId))
      (fun ruleId s => s.values nrptBase (fold ruleId) = none)
      (fun a b => fold a ≠ fold b) where
  stops ruleId s r t run fatal := by
    rcases removal_cases run with ⟨-, error, -⟩ | ⟨removed, -, -⟩
    · exact error
    · exact absurd fatal removed
  goes ruleId s r t run removed := by
    rcases removal_cases run with ⟨fatal, -, -⟩ | ⟨-, ok, -⟩
    · exact absurd fatal removed
    · exact ok
  fails _ _ := id
  achieves ruleId s r t run removed := by
    rcases removal_cases run with ⟨fatal, -, -⟩ | ⟨-, -, rfl⟩
    · exact absurd fatal removed
    · exact Option.map_eq_none_iff.mpr find_drop_self
  frame a b s r t run apart := by
    have same : t.values nrptBase (fold b) = s.values nrptBase (fold b) :=
      removal_other (fun here => apart here.2.symm) run
    exact ⟨removalFails_congr same, removalFails_congr same, by rw [same]⟩

theorem removed_states {ruleIds : List Bytes} {r : Except NrptError Unit}
    (run : Ends (planned order platform fails).onLeft (removeRulesChecked ruleIds).run s r t) :
    Nrpt.SameStates s t := by
  have issues : Issues (fun c => ∀ k, ¬ Targets fold c stateBase k)
      (removeRulesChecked ruleIds).run :=
    Nrpt.removeRulesChecked_issues (fun _ _ target => Nrpt.stateBase_ne_nrptBase target.1) ruleIds
  refine issues.ends (I := fun t => Nrpt.SameStates s t) ?_ run fun _ => rfl
  intro u c r u' rules same a k
  have answer : (Registry.faulty order Nrpt.Fresh).answers u c r u' :=
    faulty_of_planned (c := .inl c) a
  exact (faulty_frame answer (rules k)).trans (same k)

/-- What the first half of a close does to the rules, and when it succeeds. -/
theorem removed_rules {rules : Nrpt.RuleSet} {r : Except NrptError Unit}
    (distinct : (rules.ruleIds.map fold).Nodup)
    (run : Ends (planned order platform fails) (Nrpt.close rules).run.left s r t) :
    ((∀ ruleId ∈ rules.ruleIds, ¬ RemovalFails fails s (rulePath ruleId) →
        t.values nrptBase (fold ruleId) = none) ↔
      rules.ruleIds.Pairwise fun a b =>
        RemovalFails fails s (rulePath a) → RemovalFails fails s (rulePath b)) ∧
    (r = .ok () ↔ (∀ ruleId ∈ rules.ruleIds, ¬ RemovalFails fails s (rulePath ruleId)) ∧
      ¬ RemovalFails fails s (statePath rules.owner)) := by
  have apart : rules.ruleIds.Pairwise fun a b => fold a ≠ fold b := List.pairwise_map.mp distinct
  have both : rules.ruleIds.Pairwise fun a b => fold a ≠ fold b ∧ fold b ≠ fold a :=
    apart.imp fun ne => ⟨ne, ne.symm⟩
  have goal : (rules.ruleIds.Pairwise fun a b => RemovalFails fails s (rulePath a) →
      RemovalFails fails s (rulePath b) ∨ s.values nrptBase (fold b) = none) ↔
      rules.ruleIds.Pairwise fun a b =>
        RemovalFails fails s (rulePath a) → RemovalFails fails s (rulePath b) :=
    List.Pairwise.iff fun a b => imp_congr_right fun _ => or_iff_left_of_imp Or.inr
  rw [← goal]
  rcases Ends.tryBind_cases run.left_cases with ⟨_, s₁, removed, last⟩ | ⟨e, rfl, removed⟩
  · have states := removed_states removed
    rw [removeRulesChecked_eq] at removed
    have rest : ∀ k, t.values nrptBase k = s₁.values nrptBase k := fun k =>
      removal_other (fun here => Nrpt.stateBase_ne_nrptBase here.1.symm) last
    have goals := removal_steps.goals_iff both removed
    have ok := (removal_steps.ok_iff apart removed).mp rfl
    have kept : RemovalFails fails s₁ (statePath rules.owner) ↔
        RemovalFails fails s (statePath rules.owner) := removalFails_congr (states _)
    simp only [rest]
    refine ⟨goals, ?_⟩
    rw [and_iff_right ok, ← kept]
    rcases removal_cases last with ⟨fatal, ⟨e, rfl⟩, -⟩ | ⟨gone, rfl, -⟩
    · exact iff_of_false (by simp) (not_not_intro fatal)
    · exact iff_of_true rfl gone
  · rw [removeRulesChecked_eq] at removed
    refine ⟨removal_steps.goals_iff both removed, iff_of_false (by simp) fun all => ?_⟩
    cases (removal_steps.ok_iff apart removed).mpr all.1

end Rules

section Families

variable {snapshot : NameServerSnapshot} {name : Bytes} {i : Interface.Cell}

theorem create_planned {r : Except RegError Unit}
    (a : (planned order platform fails).answers s (.inl (.create path)) r t) :
    (fails (.inl (.create path)) ∧ ∃ e, r = .error e) ∨
      (¬ fails (.inl (.create path)) ∧ r = .ok () ∧ view t = view s ∧
        Interface.Present t path) := by
  rcases a with ⟨planned, ⟨e, rfl⟩, rfl⟩ | ⟨unplanned, a⟩
  · exact .inl ⟨planned, _, rfl⟩
  · have faulty : (Registry.faulty order Nrpt.Fresh).answers s (.create path) r t := .inl a
    obtain ⟨guid, -, performed⟩ := a
    have ok : r = .ok () := by
      cases there : s.find path.base (fold path.name) <;>
        simp [Hive.perform, there] at performed <;> exact performed.1.symm
    refine .inr ⟨unplanned, ok, Interface.view_create faulty, ?_⟩
    rcases faulty_create faulty with ⟨rfl, there⟩ | ⟨-, created⟩
    · exact there ok
    · exact fun gone => by cases created.symm.trans gone

theorem setValue_planned {value : Value} {r : Except RegError Unit}
    (there : Interface.Present s path)
    (a : (planned order platform fails).answers s (.inl (.setValue path name value)) r t) :
    (fails (.inl (.setValue path name value)) ∧ ∃ e, r = .error e) ∨
      (¬ fails (.inl (.setValue path name value)) ∧ r = .ok () ∧
        view t = Function.update (view s) (cell path name) (some value)) := by
  rcases a with ⟨planned, ⟨e, rfl⟩, rfl⟩ | ⟨unplanned, a⟩
  · exact .inl ⟨planned, _, rfl⟩
  · obtain ⟨guid, fresh, performed⟩ := a
    obtain ⟨key, present⟩ : ∃ key, s.find path.base (fold path.name) = some key := by
      obtain ⟨values, held⟩ := Option.ne_none_iff_exists'.mp there
      obtain ⟨key, present, -⟩ := Option.map_eq_some_iff.mp held
      exact ⟨key, present⟩
    have ok : r = .ok () := by
      simp only [Hive.perform, present] at performed
      exact (Prod.mk.inj performed).1.symm
    subst ok
    exact .inr ⟨unplanned, rfl, Interface.view_setValue ⟨guid, fresh, performed⟩⟩

/-- A removal leaves the value only if it was planned to. -/
theorem removeValue_planned {r : Except RegError Unit}
    (a : (planned order platform fails).answers s (.inr (.removeValue path name)) r t) :
    (fails (.inr (.removeValue path name)) ∧ t = s) ∨ view t (cell path name) = none := by
  rcases a with ⟨planned, -, rfl⟩ | ⟨-, a⟩
  · exact .inl ⟨planned, rfl⟩
  · exact .inr (Interface.removeValue_view (Interface.rolling_of_calm (c := .inr _) a))

theorem restore_cases {r : Except InterfaceError Unit}
    (run : Ends (planned order platform fails) snapshot.restore.run s r t) :
    (Aborts fails snapshot ∧ ∃ e, r = .error e) ∨
      (¬ Aborts fails snapshot ∧ r = .ok () ∧
        (¬ Stays fails s snapshot → Restored t snapshot)) := by
  obtain ⟨path, value⟩ := snapshot
  rcases Ends.tryBind_cases run with ⟨_, s₁, made, rest⟩ | ⟨e, rfl, made⟩
  all_goals
    obtain ⟨answered, call, same⟩ := Ends.mapErr_cases made
    rcases create_planned call.answer with ⟨planned, e', rfl⟩ | ⟨unplanned, rfl, seen, there⟩
  · cases same
  · cases value with
    | some text =>
        obtain ⟨answered, call, rfl⟩ := Ends.mapErr_cases rest
        rcases setValue_planned there call.answer with ⟨planned, e', rfl⟩ | ⟨clear, rfl, written⟩
        · exact .inl ⟨.inr ⟨text, rfl, planned⟩, _, rfl⟩
        · refine .inr ⟨?_, rfl, fun _ => ?_⟩
          · rintro (planned | ⟨_, ⟨⟩, planned⟩)
            · exact unplanned planned
            · exact clear planned
          · rw [Restored, written, Function.update_self]
            rfl
    | none =>
        obtain ⟨removed, s₂, call, last⟩ := Ends.lift_cases rest
        cases last
        refine .inr ⟨?_, rfl, fun gone => ?_⟩
        · rintro (planned | ⟨_, ⟨⟩, -⟩)
          exact unplanned planned
        · rcases removeValue_planned call.answer with ⟨planned, rfl⟩ | absent
          · by_contra held
            exact gone ⟨rfl, planned, seen ▸ held⟩
          · exact absent
  · exact .inl ⟨.inl planned, e, rfl⟩
  · cases same

theorem restore_other {r : Except InterfaceError Unit} (other : i ≠ cell snapshot.path nameServer)
    (run : Ends (planned order platform fails) snapshot.restore.run s r t) :
    view t i = view s i :=
  (Interface.unreached_safe (Interface.restoreNameserver_unreached other) s).visits
    (planned_ends run).visits

theorem restoreFails_congr
    (same : view t (cell snapshot.path nameServer) = view s (cell snapshot.path nameServer)) :
    RestoreFails fails t snapshot ↔ RestoreFails fails s snapshot := by
  rw [RestoreFails, RestoreFails, Stays, Stays, same]

theorem restored_congr
    (same : view t (cell snapshot.path nameServer) = view s (cell snapshot.path nameServer)) :
    Restored t snapshot ↔ Restored s snapshot := by
  rw [Restored, Restored, same]

theorem restore_steps :
    Steps (planned order platform fails) NameServerSnapshot.restore
      (fun snapshot _ => Aborts fails snapshot) (fun snapshot s => RestoreFails fails s snapshot)
      (fun snapshot s => Restored s snapshot)
      (fun a b => cell a.path nameServer ≠ cell b.path nameServer) where
  stops snapshot s r t run aborts := by
    rcases restore_cases run with ⟨-, error⟩ | ⟨clear, -, -⟩
    · exact error
    · exact absurd aborts clear
  goes snapshot s r t run clear := by
    rcases restore_cases run with ⟨aborts, -⟩ | ⟨-, ok, -⟩
    · exact absurd aborts clear
    · exact ok
  fails _ _ := .inl
  achieves snapshot s r t run succeeds := by
    rcases restore_cases run with ⟨aborts, -⟩ | ⟨-, -, restored⟩
    · exact absurd (.inl aborts) succeeds
    · exact restored fun stays => succeeds (.inr stays)
  frame a b s r t run apart := by
    have same := restore_other apart.symm run
    exact ⟨Iff.rfl, restoreFails_congr same, restored_congr same⟩

theorem closeInterface_eq (handle : SetDns) :
    closeInterface handle.interfaceDns =
      ((snapshotsOf handle).forM NameServerSnapshot.restore).run := by
  obtain ⟨rules, interfaceDns⟩ := handle
  have last : ∀ snapshot : NameServerSnapshot,
      (snapshot.restore >>= fun _ => pure ()) = snapshot.restore := fun snapshot => bind_pure _
  rcases interfaceDns with _ | ⟨_ | ipv4, _ | ipv6⟩
  · rfl
  · rfl
  · exact congrArg ExceptT.run (last ipv6).symm
  · rfl
  · exact congrArg (fun rest => (ipv4.restore >>= fun _ => rest).run) (last ipv6).symm

/-- The snapshots are of different values. -/
theorem snapshotsOf_apart (well : WellformedHandle handle) :
    (snapshotsOf handle).Pairwise fun a b =>
      cell a.path nameServer ≠ cell b.path nameServer ∧
        cell b.path nameServer ≠ cell a.path nameServer := by
  obtain ⟨rules, interfaceDns⟩ := handle
  have different : ipv4Base ≠ ipv6Base := by decide
  rcases interfaceDns with _ | ⟨_ | ipv4, _ | ipv6⟩
  · simp [snapshotsOf]
  · simp [snapshotsOf]
  · simp [snapshotsOf]
  · simp [snapshotsOf]
  · have apart : cell ipv4.path nameServer ≠ cell ipv6.path nameServer := by
      intro same
      have bases : ipv4.path.base = ipv6.path.base := congrArg Prod.fst same
      rw [well.ipv4 _ _ rfl rfl, well.ipv6 _ _ rfl rfl] at bases
      exact different bases
    simpa [snapshotsOf] using ⟨apart, apart.symm⟩

theorem snapshotsOf_inside (well : WellformedHandle handle) {snapshot : NameServerSnapshot}
    (mem : snapshot ∈ snapshotsOf handle) : snapshot.path.base ∈ Interface.interfaceBases := by
  obtain ⟨rules, interfaceDns⟩ := handle
  cases interfaceDns with
  | none => cases mem
  | some dns =>
      rcases List.mem_append.mp mem with early | late
      · rw [well.ipv4 dns snapshot rfl (Option.mem_toList.mp early)]
        decide
      · rw [well.ipv6 dns snapshot rfl (Option.mem_toList.mp late)]
        decide

end Families

section Keys

/-- The call leaves the rules alone. -/
def SparesRules : Call → Prop
  | .inl c => ∀ k, ¬ Targets fold c nrptBase k
  | .inr (.setInterfaceDnsSettings _ _ _) => False
  | .inr (.removeValue path _) => path.base ≠ nrptBase
  | .inr _ => True

theorem sparesRules_values {c : Call} {r : Call.Ret c} (spares : SparesRules c)
    (a : (planned order platform fails).answers s c r t) (k : Bytes) :
    t.values nrptBase k = s.values nrptBase k := by
  cases c with
  | inl c =>
      have answer : (Registry.faulty order Nrpt.Fresh).answers s c r t :=
        faulty_of_planned (c := .inl c) a
      exact faulty_frame answer (spares k)
  | inr c =>
      rcases a with ⟨-, -, rfl⟩ | ⟨-, a⟩
      · rfl
      · have performed : (NetSettings.perform platform bracedGuid s c).2 = t := congrArg Prod.snd a
        rw [← performed]
        cases c with
        | setInterfaceDnsSettings guid flags text => exact spares.elim
        | removeValue path name =>
            simp only [NetSettings.perform, write]
            split
            · cases there : s.find path.base (fold path.name) with
              | none => rfl
              | some key =>
                  simp only [Option.elim, Hive.values]
                  rw [find_put_other _ fun here => spares here.1.symm]
            · rfl
        | _ => rfl

theorem restoreNameserver_sparesRules {path : KeyPath} {value : Option Bytes}
    (elsewhere : path.base ≠ nrptBase) :
    Issues SparesRules (restoreNameserver path value).run := by
  refine Issues.tryBind (Issues.mapErr (Issues.call fun _ target =>
    elsewhere target.1.symm)) fun _ => ?_
  cases value with
  | some text => exact Issues.mapErr (Issues.call fun _ target => elsewhere target.1.symm)
  | none => exact Issues.lift (Issues.call elsewhere) fun _ => trivial

/-- The second half of a close leaves the rules alone. -/
theorem restored_rules (well : WellformedHandle handle) {r : Except InterfaceError Unit}
    (run : Ends (planned order platform fails) (closeInterface handle.interfaceDns) s r t)
    (k : Bytes) : t.values nrptBase k = s.values nrptBase k := by
  rw [closeInterface_eq] at run
  have inside : ∀ snapshot ∈ snapshotsOf handle, snapshot.path.base ∈ Interface.interfaceBases :=
    fun _ mem => snapshotsOf_inside well mem
  generalize snapshotsOf handle = snapshots at run inside
  have issues : Issues SparesRules (snapshots.forM NameServerSnapshot.restore).run := by
    clear run
    induction snapshots with
    | nil => trivial
    | cons snapshot snapshots ih =>
        obtain ⟨here, later⟩ := List.forall_mem_cons.mp inside
        have elsewhere : snapshot.path.base ≠ nrptBase := fun same =>
          nrptBases_not_mem.1 (same ▸ here)
        exact Issues.tryBind (restoreNameserver_sparesRules elsewhere) fun _ => ih later
  refine issues.ends (I := fun t : Machine => t.values nrptBase k = s.values nrptBase k) ?_ run rfl
  exact fun _ _ _ _ spares same a => (sparesRules_values spares a k).trans same

theorem flushed_rules (run : Ends (planned order platform fails) flushDnsCache s () t)
    (k : Bytes) : t.values nrptBase k = s.values nrptBase k := by
  have issues : Issues SparesRules flushDnsCache := ⟨trivial, fun _ => trivial⟩
  refine issues.ends (I := fun t : Machine => t.values nrptBase k = s.values nrptBase k) ?_ run rfl
  exact fun _ _ _ _ spares same a => (sparesRules_values spares a k).trans same

end Keys

/-- Whether an error is reported for each failure, where one kind of them goes unnoticed. -/
theorem silent_iff {α : Type} {P : Prop} {A T : α → Prop} (l : List α) :
    ((P ∧ ∀ x ∈ l, ¬ A x) ↔ P ∧ ∀ x ∈ l, ¬ (A x ∨ T x)) ↔
      ¬ P ∨ (∃ x ∈ l, A x) ∨ ∀ x ∈ l, ¬ T x := by
  constructor
  · intro same
    by_cases holds : P
    · by_cases noticed : ∃ x ∈ l, A x
      · exact .inr (.inl noticed)
      · have none : ∀ x ∈ l, ¬ A x := fun x mem fails => noticed ⟨x, mem, fails⟩
        exact .inr (.inr fun x mem stays => (same.mp ⟨holds, none⟩).2 x mem (.inr stays))
    · exact .inl holds
  · intro kinds
    refine ⟨fun ⟨holds, clear⟩ => ⟨holds, fun x mem => ?_⟩,
      fun ⟨holds, clear⟩ => ⟨holds, fun x mem fails => clear x mem (.inl fails)⟩⟩
    rcases kinds with no | ⟨y, listed, fails⟩ | noticed
    · exact absurd holds no
    · exact absurd fails (clear y listed)
    · exact fun either => either.elim (clear x mem) (noticed x mem)

/-- The values are back where nothing stands in the way of a write-back. -/
theorem restored_families_iff {s₁ s₂ : Machine} {r : Except InterfaceError Unit}
    (well : WellformedHandle handle)
    (before : ∀ snapshot ∈ snapshotsOf handle,
      view s₁ (cell snapshot.path nameServer) = view s (cell snapshot.path nameServer))
    (restored : Ends (planned order platform fails)
      ((snapshotsOf handle).forM NameServerSnapshot.restore).run s₁ r s₂)
    (after : ∀ i, view t i = view s₂ i) :
    (∀ snapshot ∈ snapshotsOf handle, ¬ RestoreFails fails s snapshot → Restored t snapshot) ↔
      (snapshotsOf handle).Pairwise fun a b =>
        Aborts fails a → RestoreFails fails s b ∨ Restored s b := by
  have same : ∀ snapshot ∈ snapshotsOf handle,
      (RestoreFails fails s₁ snapshot ↔ RestoreFails fails s snapshot) :=
    fun snapshot mem => restoreFails_congr (before snapshot mem)
  have goals : (∀ snapshot ∈ snapshotsOf handle, ¬ RestoreFails fails s₁ snapshot →
      Restored s₂ snapshot) ↔ ∀ snapshot ∈ snapshotsOf handle,
        ¬ RestoreFails fails s snapshot → Restored t snapshot := forall₂_congr fun snapshot mem =>
    imp_congr (not_congr (same snapshot mem)) (restored_congr (after _)).symm
  rw [← goals, restore_steps.goals_iff (snapshotsOf_apart well) restored]
  exact List.Pairwise.iff_of_mem fun _ mem => imp_congr_right fun _ =>
    or_congr (same _ mem) (restored_congr (before _ mem))

/-- A close restores as much as its own failures leave possible if and only if nothing stands
behind a failure that ends an attempt, and no value stays unnoticed. -/
theorem best_effort_iff {r : Except Error Unit} (well : WellformedHandle handle)
    (run : Ends (planned order platform fails) (close handle).run s r t) :
    BestEffort fails handle s r t ↔ Unstopped fails handle s := by
  obtain ⟨nrptResult, interfaceResult, s₁, s₂, removed, restored, flushed, rfl⟩ := close_parts run
  obtain ⟨rules, removedOk⟩ := removed_rules well.rules removed
  have keys : ∀ k, t.values nrptBase k = s₁.values nrptBase k := fun k =>
    (flushed_rules flushed k).trans (restored_rules well restored k)
  have before : ∀ snapshot ∈ snapshotsOf handle,
      view s₁ (cell snapshot.path nameServer) = view s (cell snapshot.path nameServer) :=
    fun snapshot mem => rules_frame (Nrpt.close_onNrptKeys _) (snapshotsOf_inside well mem)
      (planned_ends removed)
  have after : ∀ i, view t i = view s₂ i := fun i => flush_frame (planned_ends flushed)
  rw [closeInterface_eq] at restored
  have families := restored_families_iff well before restored after
  have apart := snapshotsOf_apart well
  have restoredOk := restore_steps.ok_iff (apart.imp And.left) restored
  have answer : firstError nrptResult interfaceResult = .ok () ↔
      ((∀ ruleId ∈ handle.nrptRules.ruleIds, ¬ RemovalFails fails s (rulePath ruleId)) ∧
        ¬ RemovalFails fails s (statePath handle.nrptRules.owner)) ∧
      ∀ snapshot ∈ snapshotsOf handle, ¬ Aborts fails snapshot := by
    rw [firstError_ok_iff, removedOk, restoredOk]
  have silent := silent_iff (snapshotsOf handle)
    (P := (∀ ruleId ∈ handle.nrptRules.ruleIds, ¬ RemovalFails fails s (rulePath ruleId)) ∧
      ¬ RemovalFails fails s (statePath handle.nrptRules.owner))
    (A := fun snapshot => Aborts fails snapshot) (T := fun snapshot => Stays fails s snapshot)
  rw [← answer, not_and_or, not_not, or_assoc] at silent
  simp only [not_forall, not_not, exists_prop] at silent
  constructor
  · intro best
    refine ⟨rules.mp fun ruleId mem removes => ?_, families.mp best.families, ?_⟩
    · rw [← keys]
      exact best.rules ruleId mem removes
    · exact silent.mp (best.answer.trans and_assoc.symm)
  · intro unstopped
    refine ⟨fun ruleId mem removes => ?_, families.mpr unstopped.families, ?_⟩
    · rw [keys]
      exact rules.mpr unstopped.rules ruleId mem removes
    · exact (silent.mpr unstopped.answer).trans and_assoc

section Sample

open Nrpt (sampleGuid sampleOrder)

def sampleRule (n : UInt32) : Bytes := bracedGuid (sampleGuid n)

/-- Two rules and nothing else. -/
def sampleRules : Machine :=
  ((Hive.put (fun _ => none) nrptBase ⟨sampleRule 1, rfl, fun _ => none⟩ : Machine).put nrptBase
    (⟨sampleRule 2, rfl, fun _ => none⟩ : KeyAt fold _)).put stateBase
      (⟨bytes "vpn", rfl, fun _ => none⟩ : KeyAt fold _)

def sampleHandle : SetDns := ⟨⟨bytes "vpn", [sampleRule 1, sampleRule 2]⟩, none⟩

/-- The first of the two rules cannot be removed. -/
def sampleFails (c : Call) : Prop := c = .inl (.removeTree (rulePath (sampleRule 1)))

theorem sampleHandle_wellformed : WellformedHandle sampleHandle :=
  ⟨by decide, fun _ _ no => (nomatch no), fun _ _ no => (nomatch no)⟩

theorem sampleHandle_run :
    Ends (planned sampleOrder sampleSystem sampleFails) (close sampleHandle).run sampleRules
      (.error (.nrpt (.registry 5))) sampleRules :=
  .step (.inl ⟨rfl, ⟨5, rfl⟩, rfl⟩) (.step (.inr ⟨fun no => (nomatch no), rfl⟩) (.ret _ _))

/-- The second rule is still there. -/
theorem sampleRules_stranded :
    ¬ BestEffort sampleFails sampleHandle sampleRules (.error (.nrpt (.registry 5)))
      sampleRules := by
  intro best
  have there : ¬ Nrpt.Fresh sampleRules (sampleGuid 2) := by decide
  refine there (best.rules (sampleRule 2) (by simp [sampleHandle]) ?_)
  rintro (planned | gone)
  · have same : sampleRule 2 = sampleRule 1 := by
      injection planned with planned
      injection planned with planned
      exact congrArg KeyPath.name planned
    exact absurd same (by decide)
  · exact there gone

theorem best_effort_sample : ¬ Unstopped sampleFails sampleHandle sampleRules := fun unstopped =>
  sampleRules_stranded ((best_effort_iff sampleHandle_wellformed sampleHandle_run).mpr unstopped)

theorem close_strands_rule :
    ¬ ∀ (order : Enumeration) (platform : Platform) (fails : Call → Prop) (handle : SetDns)
      (s t : Machine) (r : Except Error Unit), WellformedHandle handle →
      Ends (planned order platform fails) (close handle).run s r t →
      BestEffort fails handle s r t :=
  fun always => sampleRules_stranded
    (always _ _ _ _ _ _ _ sampleHandle_wellformed sampleHandle_run)

end Sample

end Setdns.Windows

import Setdns.Windows.Dispatch
import Setdns.Windows.Orphans

/-!
Rollback of the interface of a device. A failed application and a close write back
what has been read of the families that were set. A value that cannot be read counts
as one that is not there, so writing it back removes it. Whatever else fails, the
interface is restored if and only if that does not happen to a value that is there.
-/

namespace Setdns.Windows

open Text Effects Effects.Program Effects.Registry Effects.NetSettings
open Nrpt (Machine OnNrptKeys bracedGuid fold nrptBase stateBase)

namespace Interface

variable {order : Enumeration} {platform : Platform} {misread : AddressFamily → Bool}
  {s s' t : Machine} {i : Cell} {guid : Guid} {device : Bytes} {servers : List IpAddr}

/-- The application comes to set the interface. -/
structure Reached (platform : Platform) (device : Bytes) (servers : List IpAddr) (guid : Guid)
    (s : Machine) : Prop where
  available : platform.symbol (bytes "SetInterfaceDnsSettings") = true
  named : Names platform device guid
  present : ∀ family, Serves servers family → Present s ⟨family.registryBase, bracedGuid guid⟩

theorem newIf_eq_none_iff (family : AddressFamily) (text : Bytes) :
    newIf (!(textFor servers family).isEmpty) ⟨family.registryBase, bracedGuid guid⟩ text i = none ↔
      (Serves servers family → i ≠ nameServers guid family) := by
  rw [← wanted_iff]
  unfold newIf
  split
  · rename_i here
    exact ⟨fun no => (nomatch no), fun other => absurd here.2 (other here.1)⟩
  · rename_i other
    exact ⟨fun _ wanted here => other ⟨wanted, here⟩, fun _ => rfl⟩

/-- An application writes to the families that it serves. -/
theorem new_eq_none_iff :
    new guid servers i = none ↔ ∀ family, Serves servers family → i ≠ nameServers guid family := by
  have parts : new guid servers i = none ↔
      (Serves servers .ipv6 → i ≠ nameServers guid .ipv6) ∧
        (Serves servers .ipv4 → i ≠ nameServers guid .ipv4) := by
    rw [← newIf_eq_none_iff .ipv6, ← newIf_eq_none_iff .ipv4]
    exact Option.or_eq_none_iff
  rw [parts]
  exact ⟨fun other family => by cases family; exacts [other.2, other.1],
    fun other => ⟨other .ipv6, other .ipv4⟩⟩

theorem glimpse_nameServers (values : Cell → Option Value) (family : AddressFamily) :
    glimpse misread values (nameServers guid family) =
      if misread family then none else values (nameServers guid family) := by
  show (if misreads misread family.registryBase then none else _) = _
  rw [misreads_registryBase]

/-- What was read is what is there, unless a value that is there cannot be read. -/
theorem take_glimpse (straight : ∀ family, Serves servers family → misread family = true →
      view s (nameServers guid family) = none) :
    Snapshots.take (new guid servers) (glimpse misread (view s)) =
      Snapshots.take (new guid servers) (view s) := by
  funext i
  by_cases covered : new guid servers i = none
  · simp [Snapshots.take, covered]
  · obtain ⟨family, serves, rfl⟩ :
        ∃ family, Serves servers family ∧ i = nameServers guid family := by
      by_contra outside
      exact covered (new_eq_none_iff.mpr fun family serves here => outside ⟨family, serves, here⟩)
    have same : glimpse misread (view s) (nameServers guid family) =
        view s (nameServers guid family) := by
      rw [glimpse_nameServers]
      split
      · rename_i unread
        exact (straight family serves unread).symm
      · rfl
    simp only [Snapshots.take, same]

/-- A read that succeeds has found the keys of all families that are served. -/
theorem read_seen (well : Wellformed guid s) (servers : List IpAddr) :
    Safe (rolling order platform misread) (fun _ => True)
      (fun r t => t = s ∧ ∀ snapshots, r = .ok snapshots →
        (Inside snapshots.ipv4 ∧ Inside snapshots.ipv6) ∧
        (∀ family, Serves servers family → Present s ⟨family.registryBase, bracedGuid guid⟩) ∧
        shot ⟨snapshots⟩ = Snapshots.take (new guid servers) (glimpse misread (view s)))
      (InterfaceSnapshots.read (bracedGuid guid) (!(nameserversByFamily servers).1.isEmpty)
        (!(nameserversByFamily servers).2.isEmpty)).run s := by
  refine (read_spec well _ _ (fromWide (utf16NullTerminated (nameserversByFamily servers).1))
    (fromWide (utf16NullTerminated (nameserversByFamily servers).2))).post ?_
  rintro r t - ⟨same, taken⟩
  refine ⟨same, fun snapshots ok => ?_⟩
  obtain ⟨inside, present, seen⟩ := taken snapshots ok
  refine ⟨inside, fun family serves => ?_, seen⟩
  cases family with
  | ipv4 => exact present.1 ((wanted_iff .ipv4).mpr serves)
  | ipv6 => exact present.2 ((wanted_iff .ipv6).mpr serves)

theorem loadIphlpapi_found (run : Ends (faulty order platform) loadIphlpapi.run s (.ok true) t) :
    platform.symbol (bytes "SetInterfaceDnsSettings") = true := by
  obtain ⟨direct, s₁, -, rest⟩ := Ends.lift_cases run
  rcases Ends.tryBind_cases rest with ⟨_, s₂, -, rest⟩ | ⟨e, ⟨⟩, -⟩
  obtain ⟨symbol, s₃, asked, last⟩ := Ends.lift_cases rest
  cases symbol with
  | error e => cases last
  | ok _ =>
      rcases asked.answer with performed | ⟨e, failed, -⟩ | disturbed
      · by_contra no
        have answer := (Prod.mk.inj performed).1
        rw [if_neg no] at answer
        cases answer
      · cases failed
      · exact disturbed.elim

/-- What has become of an application whose rollback can write. -/
inductive Rolled (platform : Platform) (misread : AddressFamily → Bool) (device : Bytes)
    (servers : List IpAddr) (s : Machine) :
    Except InterfaceError (Option InterfaceDns) → Machine → Prop
  | unchanged {r : Except InterfaceError (Option InterfaceDns)}
      (unset : ∀ handle, r ≠ .ok (some handle)) : Rolled platform misread device servers s r s
  | undone {guid : Guid} {e : InterfaceError} {t : Machine}
      (reached : Reached platform device servers guid s)
      (restored : view t = Snapshots.overlay (Snapshots.take (new guid servers)
        (glimpse misread (view s))) (view s)) :
      Rolled platform misread device servers s (.error e) t
  | set {guid : Guid} {handle : InterfaceDns} {t : Machine}
      (reached : Reached platform device servers guid s)
      (inside : Inside handle.snapshots.ipv4 ∧ Inside handle.snapshots.ipv6)
      (seen : shot handle = Snapshots.take (new guid servers) (glimpse misread (view s)))
      (frame : ∀ i, new guid servers i = none → view t i = view s i) :
      Rolled platform misread device servers s (.ok (some handle)) t

theorem overlay_congr_of_uncovered {shot : Snapshots.Shot Cell (Option Value)}
    {values values' : Cell → Option Value} (same : ∀ i, shot i = none → values' i = values i) :
    Snapshots.overlay shot values' = Snapshots.overlay shot values := by
  funext i
  cases covered : shot i with
  | none => simpa [Snapshots.overlay, covered] using same i covered
  | some value => simp [Snapshots.overlay, covered]

theorem apply_rolled (well : ∀ guid, Names platform device guid → Wellformed guid s) :
    Safe (rolling order platform misread) (fun _ => True)
      (Rolled platform misread device servers s) (apply device servers).run s := by
  have le : ∀ s c r t, (rolling order platform misread).answers s c r t →
      (faulty order platform).answers s c r t := fun _ _ _ _ a => a.1
  refine apply_safe le (fun e => .unchanged (by simp)) (fun _ => .unchanged (by simp))
    fun guid snapshots loaded named read => ?_
  obtain ⟨-, taken⟩ := (read_seen (well guid named) servers).ends read
  obtain ⟨inside, present, seen⟩ := taken snapshots rfl
  have reached : Reached platform device servers guid s :=
    ⟨loadIphlpapi_found (loaded.mono le), named, present⟩
  refine safe_iff.mpr ⟨fun _ _ => trivial, fun r t run => ?_⟩
  obtain ⟨written, s₁, set, rest⟩ := Ends.lift_cases run
  have frame : ∀ i, new guid servers i = none → view s₁ i = view s i := fun i uncovered =>
    (unreached_safe (setDns_unreached (new_eq_none_iff.mp uncovered)) s).visits (set.mono le).visits
  cases written with
  | ok _ =>
      cases rest
      exact .set reached inside seen frame
  | error e =>
      obtain ⟨restoring, s₂, restored, last⟩ := Ends.lift_cases rest
      cases last
      obtain ⟨always, written⟩ := (restore_spec snapshots s₁).ends restored
      refine .undone reached ?_
      rw [written (always inside.1 inside.2), seen]
      refine overlay_congr_of_uncovered fun i uncovered => frame i ?_
      exact Option.map_eq_none_iff.mp uncovered

section Misreading

variable (order : Enumeration) (platform : Platform) (misread : AddressFamily → Bool)

/-- The given families cannot be read and no family can be set, all else goes well. -/
def misreading : Handler Call Call.Ret Machine
  | s, .inl .createGuid => (.error 5, s)
  | s, .inl (.getString path name) =>
      (if misreads misread path.base then .error 5 else s.stringOf path name, s)
  | s, .inl c => s.perform order ⟨0, 0, 0, [0, 0, 0, 0, 0, 0, 0, 0], rfl⟩ c
  | s, .inr (.setInterfaceDnsSettings _ _ _) => (5, s)
  | s, .inr c => NetSettings.perform platform bracedGuid s c

variable {order platform misread} {s t : Machine} {guid : Guid} {device : Bytes}
  {servers : List IpAddr}

theorem misreading_rolling (s : Machine) (c : Call) :
    (rolling order platform misread).answers s c (misreading order platform misread s c).1
      (misreading order platform misread s c).2 := by
  cases c with
  | inl c =>
      have performed : ∀ r s',
          s.perform order ⟨0, 0, 0, [0, 0, 0, 0, 0, 0, 0, 0], rfl⟩ c = (r, s') →
          c ≠ .createGuid → (calm order platform).answers s (.inl c) r s' :=
        fun r s' answer ne => ⟨_, fun same => absurd same ne, answer⟩
      cases c with
      | createGuid => exact ⟨.inr ⟨5, rfl, rfl⟩, trivial⟩
      | getString path name =>
          simp only [misreading]
          split
          · rename_i unread
            refine ⟨.inr ⟨5, rfl, rfl⟩, fun _ => ?_⟩
            rw [if_pos unread]
            rfl
          · rename_i read
            refine ⟨(rolling_of_calm (performed _ _ rfl (by simp))).1, fun _ => ?_⟩
            rw [if_neg read]
      | _ => exact rolling_of_calm (performed _ _ rfl (by simp))
  | inr c =>
      cases c with
      | setInterfaceDnsSettings guid flags text => exact ⟨.inr (.inl ⟨5, rfl, rfl⟩), trivial⟩
      | _ => exact rolling_of_calm (c := .inr _) rfl

theorem misreading_le {c : Call} {r : Call.Ret c}
    (a : (World.of (misreading order platform misread)).answers s c r t) :
    (rolling order platform misread).answers s c r t := by
  have answer : (rolling order platform misread).answers s c
    (misreading order platform misread s c).1 (misreading order platform misread s c).2 :=
      misreading_rolling s c
  rwa [show misreading order platform misread s c = (r, t) from a] at answer

theorem misreading_loads (available : platform.symbol (bytes "SetInterfaceDnsSettings") = true)
    (s : Machine) : Safe (World.of (misreading order platform misread)) (fun _ => True)
      (fun r t => t = s ∧ r = .ok true) loadIphlpapi.run s := by
  refine ask_spec fun direct t a => ?_
  obtain ⟨rfl, rfl⟩ := Prod.mk.inj a
  refine ask_spec fun symbol t' a => ?_
  obtain ⟨rfl, rfl⟩ := Prod.mk.inj a
  rw [available]
  exact ⟨trivial, rfl, rfl⟩

theorem misreading_converts (named : Names platform device guid) (s : Machine) :
    Safe (World.of (misreading order platform misread)) (fun _ => True)
      (fun r t => t = s ∧ r = .ok guid) (interfaceGuid device).run s := by
  obtain ⟨luid, resolved, converted⟩ := named
  refine Safe.tryBind (M := fun r t => t = s ∧ r = .ok luid) (call_spec fun r t a => ?_) ?_
    (by simp)
  · obtain ⟨rfl, rfl⟩ := Prod.mk.inj a
    rw [resolved]
    exact ⟨rfl, rfl⟩
  · rintro _ t - ⟨rfl, ⟨⟩⟩
    refine call_spec fun r t a => ?_
    obtain ⟨rfl, rfl⟩ := Prod.mk.inj a
    rw [converted]
    exact ⟨rfl, rfl⟩

theorem misreading_readIf {wanted : Bool} {name : Bytes} {family : AddressFamily}
    (present : wanted = true → Present s ⟨family.registryBase, name⟩) :
    Safe (World.of (misreading order platform misread)) (fun _ => True)
      (fun r t => t = s ∧ ∃ snapshot, r = .ok snapshot) (readIf wanted name family).run s := by
  cases wanted with
  | false => exact ⟨trivial, rfl, _, rfl⟩
  | true =>
      refine Safe.tryBind (M := fun r t => t = s ∧ ∃ snapshot, r = .ok snapshot)
        (Safe.tryBind (M := fun r t => t = s ∧ ∃ value, r = .ok value)
        (Safe.tryBind (M := fun r t => t = s ∧ r = .ok ()) (call_spec fun r t a => ?_) ?_ (by simp))
        ?_ (by simp)) ?_ (by simp)
      · obtain ⟨rfl, rfl⟩ := Prod.mk.inj a
        rw [if_pos (Option.isSome_iff_ne_none.mpr (present rfl))]
        exact ⟨rfl, rfl⟩
      · rintro _ t - ⟨rfl, -⟩
        refine ask_spec fun r t a => ?_
        obtain ⟨rfl, rfl⟩ := Prod.mk.inj a
        exact ⟨trivial, rfl, _, rfl⟩
      · rintro value t - ⟨rfl, -⟩
        exact ⟨trivial, rfl, _, rfl⟩
      · rintro snapshot t - ⟨rfl, -⟩
        exact ⟨trivial, rfl, _, rfl⟩

theorem misreading_reads (reached : Reached platform device servers guid s) :
    Safe (World.of (misreading order platform misread)) (fun _ => True)
      (fun r t => t = s ∧ ∃ snapshots, r = .ok snapshots)
      (InterfaceSnapshots.read (bracedGuid guid) (!(nameserversByFamily servers).1.isEmpty)
        (!(nameserversByFamily servers).2.isEmpty)).run s := by
  have present := fun family wanted => reached.present family ((wanted_iff family).mp wanted)
  refine Safe.tryBind (misreading_readIf (present .ipv4)) ?_ (by simp)
  rintro ipv4 t - ⟨rfl, -⟩
  refine Safe.tryBind (misreading_readIf (present .ipv6)) ?_ (by simp)
  rintro ipv6 t - ⟨rfl, -⟩
  exact ⟨trivial, rfl, _, rfl⟩

theorem misreading_refuses {family : AddressFamily} (serves : Serves servers family)
    (s : Machine) : Safe (World.of (misreading order platform misread)) (fun _ => True)
      (fun r t => t = s ∧ ∃ e, r = .error e) (setDns device guid (nameserversByFamily servers).1
        (nameserversByFamily servers).2).run s := by
  have one : ∀ family nameservers, Safe (World.of (misreading order platform misread))
      (fun _ => True) (fun r t => t = s ∧ (nameservers ≠ [] → ∃ e, r = .error e))
      (setDnsIf device guid family nameservers).run s := by
    intro family nameservers
    cases nameservers with
    | nil => exact ⟨trivial, rfl, fun no => absurd rfl no⟩
    | cons byte rest =>
        refine ask_spec fun code t a => ?_
        obtain ⟨rfl, rfl⟩ := Prod.mk.inj a
        exact ⟨trivial, rfl, fun _ => ⟨_, rfl⟩⟩
  have text : textFor servers family ≠ [] := mt (textFor_eq_nil_iff family).mp (not_not.mpr serves)
  refine Safe.tryBind (one .ipv4 _) ?_ fun e t _ held => ⟨held.1, e, rfl⟩
  rintro _ t - ⟨rfl, first⟩
  refine (one .ipv6 _).post ?_
  rintro r t - ⟨rfl, second⟩
  refine ⟨rfl, ?_⟩
  cases family with
  | ipv4 => exact (nomatch first text)
  | ipv6 => exact second text

theorem safe_misreading {α : Type} {I : Machine → Prop} {Q : α → Machine → Prop}
    {p : Program Call Call.Ret α} (h : Safe (rolling order platform misread) I Q p s) :
    Safe (World.of (misreading order platform misread)) I Q p s :=
  h.of_le (fun _ _ _ _ => misreading_le) fun _ _ _ cut => cut.elim

/-- The value that could not be read is removed. -/
theorem misreading_loses {family : AddressFamily}
    (well : Wellformed guid s) (reached : Reached platform device servers guid s)
    (serves : Serves servers family) (unread : misread family = true) :
    ∃ e t, Ends (rolling order platform misread) (apply device servers).run s (.error e) t ∧
      view t (nameServers guid family) = none := by
  have loses : Safe (World.of (misreading order platform misread)) (fun _ => True)
      (fun r t => (∃ e, r = .error e) ∧ view t (nameServers guid family) = none)
      (apply device servers).run s := by
    refine Safe.tryBind (misreading_loads reached.available s) ?_ (by simp)
    rintro _ t - ⟨rfl, ⟨⟩⟩
    refine Safe.tryBind (misreading_converts reached.named t) ?_ (by simp)
    rintro _ t - ⟨rfl, ⟨⟩⟩
    refine Safe.tryBind ((misreading_reads reached).and (safe_misreading (read_seen well servers)))
      ?_ (by simp)
    rintro snapshots t - ⟨⟨rfl, -⟩, -, taken⟩
    obtain ⟨inside, -, seen⟩ := taken snapshots rfl
    refine Safe.lift ((misreading_refuses serves t).post ?_)
    rintro _ t - ⟨rfl, e, rfl⟩
    refine Safe.lift ((safe_misreading (restore_spec snapshots t)).post ?_)
    rintro r t' - ⟨always, written⟩
    refine ⟨trivial, ⟨e, rfl⟩, ?_⟩
    have covered : new guid servers (nameServers guid family) ≠ none :=
      fun uncovered => new_eq_none_iff.mp uncovered family serves rfl
    obtain ⟨data, kept⟩ := Option.ne_none_iff_exists'.mp covered
    rw [written (always inside.1 inside.2), seen]
    simp [Snapshots.overlay, Snapshots.take, kept, glimpse_nameServers, unread]
  obtain ⟨r, t, run⟩ := exists_ends (W := World.of (misreading order platform misread))
    (fun s c => ⟨_, _, rfl⟩) (apply device servers).run s
  obtain ⟨⟨e, rfl⟩, lost⟩ := loses.ends run
  exact ⟨e, t, run.mono fun _ _ _ _ => misreading_le, lost⟩

end Misreading

end Interface

open Interface (AddressFamily Cell InterfaceDns InterfaceError Names Reached Reaches Rolled
  Serves Wellformed faulty interfaceBases nameServers new registryBase_mem rolling unreached_safe
  view)

section Global

variable (order : Enumeration) (platform : Platform) (misread : AddressFamily → Bool)
  (owner : Bytes) (servers : List IpAddr) (device : String) (s : Machine)

/-- Global DNS with a device. -/
def globalConfig : NormalizedConfig := ⟨owner, servers, [], some device⟩

/-- The interface of the device is restored by a failed application and by a close, and no family
without a server is ever changed. -/
structure RolledBack : Prop where
  failed : ∀ e t,
    Ends (rolling order platform misread) (apply (globalConfig owner servers device)).run s
      (.error e) t →
    ∀ guid family, Names platform (bytes device) guid →
      view t (nameServers guid family) = view s (nameServers guid family)
  closed : ∀ handle t r u,
    Ends (rolling order platform misread) (apply (globalConfig owner servers device)).run s
      (.ok handle) t →
    Ends (rolling order platform misread) (close handle).run t r u →
    ∀ guid family, Names platform (bytes device) guid →
      view u (nameServers guid family) = view s (nameServers guid family)
  untouched : ∀ r t,
    Ends (faulty order platform) (apply (globalConfig owner servers device)).run s r t →
    ∀ guid family, ¬ Serves servers family →
      view t (nameServers guid family) = view s (nameServers guid family) ∧
      ∀ handle, r = .ok handle → ∀ r' u, Ends (faulty order platform) (close handle).run t r' u →
        view u (nameServers guid family) = view s (nameServers guid family)

/-- The interface is set, and a value of it that is there could not be read. -/
def Misled : Prop :=
  ∃ guid, Reached platform (bytes device) servers guid s ∧
    ∃ family, Serves servers family ∧ misread family = true ∧
      view s (nameServers guid family) ≠ none

end Global

section Frames

variable {order : Enumeration} {platform : Platform} {misread : AddressFamily → Bool}
  {owner : Bytes} {servers : List IpAddr} {device : String} {s s' t : Machine} {guid : Guid}
  {family : AddressFamily} {i : Cell}

theorem nrptBases_not_mem : nrptBase ∉ interfaceBases ∧ stateBase ∉ interfaceBases := by decide

/-- The rules are not at an interface. -/
theorem rules_frame {α : Type} {p : Registry.Io α} {r : α} (issues : Issues OnNrptKeys p)
    (inside : i.1 ∈ interfaceBases) (run : Ends (faulty order platform) p.left s r t) :
    view t i = view s i := by
  have unreached : Issues (fun c => ¬ Reaches c i) (p.left : Io α) := by
    refine issues.left fun c home reached => ?_
    have target : Targets fold c i.1 i.2.1 := by
      cases c <;> first | exact reached.elim | exact reached | skip
      obtain rfl := reached
      exact ⟨rfl, rfl⟩
    rcases home _ _ target with base | base
    · exact nrptBases_not_mem.1 (base ▸ inside)
    · exact nrptBases_not_mem.2 (base ▸ inside)
  exact (unreached_safe unreached s).visits run.visits

theorem flush_frame (run : Ends (faulty order platform) flushDnsCache s () t) :
    view t i = view s i := by
  have unreached : Issues (fun c => ¬ Reaches c i) flushDnsCache := ⟨id, fun _ => trivial⟩
  exact (unreached_safe unreached s).visits run.visits

theorem nameServers_family {guid' : Guid} {family' : AddressFamily}
    (same : nameServers guid family = nameServers guid' family') : family = family' := by
  have bases : family.registryBase = family'.registryBase := congrArg Prod.fst same
  have different : ipv4Base ≠ ipv6Base := by decide
  cases family <;> cases family' <;> first | rfl | exact absurd bases different |
    exact absurd bases.symm different

/-- What an application of the interface leads to. -/
theorem interface_rolled {r : Except Error (Option InterfaceDns)}
    (well : ∀ guid, Names platform (bytes device) guid → Wellformed guid s)
    (run : Ends (rolling order platform misread)
      (applyInterface (globalConfig owner servers device)).run s r t) :
    ∃ answered, r = answered.mapError .interface ∧
      Rolled platform misread (bytes device) servers s answered t := by
  obtain ⟨answered, ends, rfl⟩ := Ends.mapErr_cases run
  exact ⟨answered, rfl, (Interface.apply_rolled well).ends ends⟩

theorem straight_of_not_misled (straight : ¬ Misled platform misread servers device s)
    (reached : Reached platform (bytes device) servers guid s) :
    ∀ family, Serves servers family → misread family = true →
      view s (nameServers guid family) = none := by
  intro family serves unread
  by_contra held
  exact straight ⟨guid, reached, family, serves, unread, held⟩

/-- Without a misread value, writing back what was read restores everything. -/
theorem closeInterface_restores {interfaceDns : Option InterfaceDns} {s₁ s₂ : Machine}
    {r : Except InterfaceError Unit} (straight : ¬ Misled platform misread servers device s)
    (rolled : Rolled platform misread (bytes device) servers s (.ok interfaceDns) s₁)
    (between : view s₂ i = view s₁ i)
    (run : Ends (rolling order platform misread) (closeInterface interfaceDns) s₂ r t) :
    view t i = view s i := by
  cases rolled with
  | unchanged unset =>
      cases interfaceDns with
      | none =>
          cases run
          exact between
      | some handle => exact absurd rfl (unset handle)
  | set reached inside seen frame =>
      obtain ⟨always, written⟩ := (Interface.restore_spec _ s₂).ends run
      rw [written (always inside.1 inside.2)]
      show Snapshots.overlay (Interface.shot _) _ i = _
      rw [seen, Interface.take_glimpse (straight_of_not_misled straight reached)]
      exact Snapshots.overlay_take_apply fun uncovered => between.trans (frame i uncovered)

theorem closeInterface_frame {interfaceDns : Option InterfaceDns} {r : Except InterfaceError Unit}
    (uncovered : ∀ handle, interfaceDns = some handle → ¬ Interface.Covers handle.snapshots i)
    (run : Ends (faulty order platform) (closeInterface interfaceDns) s r t) :
    view t i = view s i := by
  cases interfaceDns with
  | none =>
      cases run
      rfl
  | some handle =>
      have unreached := Interface.restore_unreached (uncovered handle rfl)
      exact (unreached_safe unreached s).visits run.visits

/-- A family without a server is left alone, whatever fails. -/
theorem unserved_untouched {r : Except Error SetDns} (unserved : ¬ Serves servers family)
    (run : Ends (faulty order platform) (apply (globalConfig owner servers device)).run s r t) :
    view t (nameServers guid family) = view s (nameServers guid family) ∧
      ∀ handle, r = .ok handle → ∀ r' u, Ends (faulty order platform) (close handle).run t r' u →
        view u (nameServers guid family) = view s (nameServers guid family) := by
  have inside : (nameServers guid family).1 ∈ interfaceBases := registryBase_mem family
  have rules := Nrpt.apply_onNrptKeys owner servers
    (Nrpt.namespacesForGlobalOrSplit (globalConfig owner servers device).domains)
  have interface : ∀ {r t}, Ends (faulty order platform)
      (applyInterface (globalConfig owner servers device)).run s r t →
      view t (nameServers guid family) = view s (nameServers guid family) ∧
        ∀ interfaceDns, r = .ok interfaceDns → ∀ handle, interfaceDns = some handle →
          ¬ Interface.Covers handle.snapshots (nameServers guid family) := by
    intro r t run
    obtain ⟨answered, ends, rfl⟩ := Ends.mapErr_cases run
    have other : ∀ guid' family', Names platform (bytes device) guid' → Serves servers family' →
        nameServers guid family ≠ nameServers guid' family' := fun _ _ _ serves same =>
      unserved (nameServers_family same ▸ serves)
    have frame := (Interface.apply_frame other).ends ends
    refine ⟨frame.1, ?_⟩
    rintro interfaceDns ok handle rfl
    cases answered with
    | error e => cases ok
    | ok _ =>
        cases ok
        exact frame.2 handle rfl
  cases apply_parts run with
  | interface failed =>
      exact ⟨(interface failed).1, fun handle no => (nomatch no)⟩
  | rules set failed undone =>
      obtain ⟨frame, uncovered⟩ := interface set
      refine ⟨?_, fun handle no => (nomatch no)⟩
      rw [closeInterface_frame (uncovered _ rfl) undone, rules_frame rules inside failed, frame]
  | done set applied flushed =>
      obtain ⟨frame, uncovered⟩ := interface set
      have after := (flush_frame flushed).trans ((rules_frame rules inside applied).trans frame)
      refine ⟨after, ?_⟩
      rintro _ ⟨⟩ r' u closed
      obtain ⟨_, _, t₁, t₂, removed, restored, flushed', -⟩ := close_parts closed
      rw [flush_frame flushed', closeInterface_frame (uncovered _ rfl) restored,
        rules_frame (Nrpt.close_onNrptKeys _) inside removed, after]

theorem rolled_back_of_not_misled
    (well : ∀ guid, Names platform (bytes device) guid → Wellformed guid s)
    (straight : ¬ Misled platform misread servers device s) :
    RolledBack order platform misread owner servers device s := by
  have le : ∀ s c r t, (rolling order platform misread).answers s c r t →
      (faulty order platform).answers s c r t := fun _ _ _ _ a => a.1
  have rules := Nrpt.apply_onNrptKeys owner servers
    (Nrpt.namespacesForGlobalOrSplit (globalConfig owner servers device).domains)
  refine ⟨?_, ?_, ?_⟩
  · intro e t run guid family _
    have inside : (nameServers guid family).1 ∈ interfaceBases := registryBase_mem family
    cases apply_parts run with
    | interface failed =>
        obtain ⟨answered, same, rolled⟩ := interface_rolled well failed
        cases rolled with
        | unchanged unset => rfl
        | undone reached restored =>
            rw [restored, Interface.take_glimpse (straight_of_not_misled straight reached)]
            exact Snapshots.overlay_take_apply fun _ => rfl
        | set => cases same
    | rules set failed undone =>
        obtain ⟨answered, same, rolled⟩ := interface_rolled well set
        cases answered with
        | error e => cases same
        | ok interfaceDns =>
            cases same
            exact closeInterface_restores straight rolled
              (rules_frame rules inside (failed.mono le)) undone
  · intro handle t r u run closed guid family _
    have inside : (nameServers guid family).1 ∈ interfaceBases := registryBase_mem family
    cases apply_parts run with
    | done set applied flushed =>
        obtain ⟨answered, same, rolled⟩ := interface_rolled well set
        cases answered with
        | error e => cases same
        | ok interfaceDns =>
            cases same
            obtain ⟨_, _, t₁, t₂, removed, restored, flushed', -⟩ := close_parts closed
            rw [flush_frame (flushed'.mono le)]
            refine closeInterface_restores straight rolled ?_ restored
            rw [rules_frame (Nrpt.close_onNrptKeys _) inside (removed.mono le),
              flush_frame (flushed.mono le), rules_frame rules inside (applied.mono le)]
  · intro r t run guid family unserved
    exact unserved_untouched unserved run

/-- A misread value is lost when a family cannot be set. -/
theorem not_rolled_back_of_misled
    (well : ∀ guid, Names platform (bytes device) guid → Wellformed guid s)
    (misled : Misled platform misread servers device s) :
    ¬ RolledBack order platform misread owner servers device s := by
  intro rolled
  obtain ⟨guid, reached, family, serves, unread, held⟩ := misled
  obtain ⟨e, t, run, lost⟩ : ∃ e t, Ends (rolling order platform misread)
      (Interface.apply (bytes device) servers).run s (.error e) t ∧
        view t (nameServers guid family) = none :=
    Interface.misreading_loses (well guid reached.named) reached serves unread
  have failed : Ends (rolling order platform misread)
      (applyInterface (globalConfig owner servers device)).run s (.error (.interface e)) t :=
    run.bind (.ret _ _)
  have ended : Ends (rolling order platform misread)
      (apply (globalConfig owner servers device)).run s (.error (.interface e)) t := by
    rw [apply, run_bind]
    exact failed.bind (.ret _ _)
  exact held ((rolled.failed _ t ended guid family reached.named).symm.trans lost)

end Frames

/-- The interface is rolled back in every run if and only if no value of it that is there is
misread. -/
theorem rolled_back_iff (order : Enumeration) (platform : Platform)
    (misread : AddressFamily → Bool) (owner : Bytes) (servers : List IpAddr) (device : String)
    (s : Machine) (well : ∀ guid, Names platform (bytes device) guid → Wellformed guid s) :
    RolledBack order platform misread owner servers device s ↔
      ¬ Misled platform misread servers device s :=
  ⟨fun rolled misled => not_rolled_back_of_misled well misled rolled,
    rolled_back_of_not_misled well⟩

section Sample

open Interface (textFor)
open Nrpt (sampleGuid sampleOrder)

/-- Every device is the same interface. -/
def sampleSystem : Platform := ⟨fun _ => true, fun _ => .ok 7, fun _ => .ok (sampleGuid 2)⟩

/-- One interface with a name server. -/
def sampleServed : Machine :=
  Hive.put (fun _ => none) ipv4Base ⟨bracedGuid (sampleGuid 2), rfl,
    Function.update (fun _ => none) nameServer (some (.string (bytes "9.9.9.9")))⟩

def sampleUnread : AddressFamily → Bool := fun family => family = .ipv4

theorem sampleServed_value : view sampleServed (nameServers (sampleGuid 2) .ipv4) =
    some (.string (bytes "9.9.9.9")) := by
  decide

theorem sampleServed_wellformed (guid : Guid)
    (named : Names sampleSystem (bytes "Ethernet") guid) : Wellformed guid sampleServed := by
  obtain ⟨luid, -, converted⟩ := named
  obtain rfl : sampleGuid 2 = guid := Except.ok.inj converted
  intro family value held
  cases family with
  | ipv4 => exact ⟨_, Option.some.inj (held.symm.trans sampleServed_value)⟩
  | ipv6 =>
      have absent : view sampleServed (nameServers (sampleGuid 2) .ipv6) = none := by decide
      cases absent.symm.trans held

theorem sampleServed_misled :
    Misled sampleSystem sampleUnread [.v4 ⟨1, 1, 1, 1⟩] "Ethernet" sampleServed := by
  refine ⟨sampleGuid 2, ⟨rfl, ⟨7, rfl, rfl⟩, fun family serves => ?_⟩, .ipv4,
    ⟨_, List.mem_singleton_self _, rfl⟩, rfl, by rw [sampleServed_value]; simp⟩
  cases family with
  | ipv4 =>
      intro gone
      have held : (sampleServed.values ipv4Base (fold (bracedGuid (sampleGuid 2)))).bind
        (fun values => values nameServer) = some (.string (bytes "9.9.9.9")) := sampleServed_value
      have gone : sampleServed.values ipv4Base (fold (bracedGuid (sampleGuid 2))) = none := gone
      rw [gone] at held
      cases held
  | ipv6 =>
      obtain ⟨server, mem, has⟩ := serves
      rw [List.mem_singleton] at mem
      subst mem
      cases has

/-- The name server is kept when it can be read, and not when it cannot. -/
theorem rolled_back_sample :
    RolledBack sampleOrder sampleSystem (fun _ => false) (bytes "vpn") [.v4 ⟨1, 1, 1, 1⟩] "Ethernet"
        sampleServed ∧
      ¬ RolledBack sampleOrder sampleSystem sampleUnread (bytes "vpn") [.v4 ⟨1, 1, 1, 1⟩]
        "Ethernet" sampleServed := by
  have exact := fun misread => rolled_back_iff sampleOrder sampleSystem misread (bytes "vpn")
    [.v4 ⟨1, 1, 1, 1⟩] "Ethernet" sampleServed sampleServed_wellformed
  refine ⟨(exact _).mpr ?_, fun rolled => (exact _).mp rolled sampleServed_misled⟩
  rintro ⟨guid, -, family, -, unread, -⟩
  cases unread

theorem misread_value_is_lost :
    ¬ ∀ (order : Enumeration) (platform : Platform) (misread : AddressFamily → Bool)
      (owner : Bytes) (servers : List IpAddr) (device : String) (s : Machine),
      (∀ guid, Names platform (bytes device) guid → Wellformed guid s) →
      RolledBack order platform misread owner servers device s :=
  fun always => not_rolled_back_of_misled sampleServed_wellformed sampleServed_misled
    (always sampleOrder _ _ (bytes "vpn") _ _ _ sampleServed_wellformed)

end Sample

end Setdns.Windows

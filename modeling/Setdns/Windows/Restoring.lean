import Setdns.Windows.Interface

/-!
Reading and restoring the name servers of an interface where calls fail. A call
changes at most the values that it names, whatever it answers.

In the `rolling` world any call may fail but the writes that put a value back. It
is part of the world which families cannot be read.
-/

namespace Setdns.Windows.Interface

open Text Effects Effects.Program Effects.Registry Effects.NetSettings
open Nrpt (bracedGuid fold Machine)

section Calls

variable {W : World Call Call.Ret Machine} {s : Machine} {c : Call}

/-- One call, whose failure may be the failure of the operation. -/
theorem call_spec {ε α : Type} {ask : Call.Ret c → Except ε α} {error : ε → InterfaceError}
    {Q : Except InterfaceError α → Machine → Prop}
    (answers : ∀ r t, W.answers s c r t → Q ((ask r).mapError error) t) :
    Safe W (fun _ => True) Q (mapErr (.call c fun r => .ret (ask r)) error).run s :=
  Safe.mapErr ⟨trivial, fun _ _ => trivial, fun r t a => ⟨trivial, answers r t a⟩⟩

theorem ask_spec {α β : Type} {ask : Call.Ret c → α} {f : α → Result β}
    {Q : Except InterfaceError β → Machine → Prop}
    (answers : ∀ r t, W.answers s c r t → Safe W (fun _ => True) Q (f (ask r)).run t) :
    Safe W (fun _ => True) Q
      ((liftM (Program.call c fun r => .ret (ask r) : Program Call Call.Ret α) : Result α) >>=
        f).run s :=
  Safe.lift ⟨trivial, fun _ _ => trivial, fun r t a => ⟨trivial, answers r t a⟩⟩

end Calls

section Worlds

variable (order : Enumeration) (platform : Platform)

/-- No call fails. -/
abbrev calm : World Call Call.Ret Machine :=
  (Registry.calm order Nrpt.Fresh).beside (NetSettings.calm platform bracedGuid)

/-- Any call may fail. -/
abbrev faulty : World Call Call.Ret Machine :=
  (Registry.faulty order Nrpt.Fresh).beside (NetSettings.faulty platform bracedGuid)

def interfaceBases : List Bytes := [ipv4Base, ipv6Base]

/-- The values below this key cannot be read. -/
def misreads (misread : AddressFamily → Bool) (base : Bytes) : Bool :=
  (misread .ipv4 && base == ipv4Base) || (misread .ipv6 && base == ipv6Base)

/-- The writes that put a value back succeed. A read fails in the given families, and in the
others only where there is no text. -/
def Rolls (misread : AddressFamily → Bool) (s : Machine) : (c : Call) → Call.Ret c → Prop
  | .inl (.create path), r => path.base ∈ interfaceBases → r = .ok ()
  | .inl (.setValue path _ _), r =>
      path.base ∈ interfaceBases → s.values path.base (fold path.name) ≠ none → r = .ok ()
  | .inl (.getString path name), r => path.base ∈ interfaceBases →
      r.toOption = if misreads misread path.base then none else (s.stringOf path name).toOption
  | .inr (.removeValue path name), r => s.value path name ≠ none → r = .ok ()
  | _, _ => True

def rolling (misread : AddressFamily → Bool) : World Call Call.Ret Machine :=
  (faulty order platform).restrict (Rolls misread)

/-- What can be read. -/
def glimpse (misread : AddressFamily → Bool) (values : Cell → Option Value) :
    Cell → Option Value :=
  fun i => if misreads misread i.1 then none else values i

end Worlds

variable {order : Enumeration} {platform : Platform} {misread : AddressFamily → Bool}
  {s s' : Machine} {c : Call} {path : KeyPath} {name : Bytes} {i : Cell}

theorem registryBase_mem (family : AddressFamily) : family.registryBase ∈ interfaceBases := by
  cases family <;> decide

theorem familyBase_flags (family : AddressFamily) :
    familyBase family.flags = family.registryBase := by
  cases family <;> decide

theorem misreads_registryBase (family : AddressFamily) :
    misreads misread family.registryBase = misread family := by
  have different : (ipv4Base == ipv6Base) = false := by decide
  have swapped : (ipv6Base == ipv4Base) = false := by decide
  cases family <;> simp [misreads, AddressFamily.registryBase, different, swapped]

@[simp] theorem glimpse_all (values : Cell → Option Value) :
    glimpse (fun _ => false) values = values := by
  funext i
  simp [glimpse, misreads]

/-- Where no call fails, no read does. -/
theorem rolling_of_calm {r : Call.Ret c} (a : (calm order platform).answers s c r s') :
    (rolling order platform fun _ => false).answers s c r s' := by
  cases c with
  | inl c =>
      refine ⟨.inl a, ?_⟩
      obtain ⟨guid, -, performed⟩ := a
      obtain ⟨answer, -⟩ := Prod.mk.inj performed
      cases c with
      | create path =>
          intro _
          cases present : s.find path.base (fold path.name) <;>
            simp [Hive.perform, present] at performed <;> exact performed.1.symm
      | setValue path name data =>
          intro _ there
          cases present : s.find path.base (fold path.name) with
          | none => simp [Hive.values, present] at there
          | some key =>
              simp only [Hive.perform, present] at performed
              exact (Prod.mk.inj performed).1.symm
      | getString path name =>
          intro _
          rw [← answer]
          simp [misreads]
      | _ => trivial
  | inr c =>
      refine ⟨.inl a, ?_⟩
      cases c with
      | removeValue path name =>
          intro there
          have performed : NetSettings.perform platform bracedGuid s (.removeValue path name) =
            (r, s') := a
          obtain ⟨value, held⟩ := Option.ne_none_iff_exists'.mp there
          obtain ⟨values, keyed, -⟩ := Option.bind_eq_some_iff.mp held
          obtain ⟨key, present, -⟩ := Option.map_eq_some_iff.mp keyed
          simp only [NetSettings.perform, held, write, present] at performed
          exact (Prod.mk.inj performed).1.symm
      | _ => trivial

section Reach

/-- The values that a call may change. -/
def Reaches : Call → Cell → Prop
  | .inl (.setValue path name _), i => i = cell path name
  | .inl (.removeTree path), i => i.1 = path.base ∧ i.2.1 = fold path.name
  | .inr (.setInterfaceDnsSettings guid flags _), i =>
      i = cell ⟨familyBase flags, bracedGuid guid⟩ nameServer
  | .inr (.removeValue path name), i => i = cell path name
  | _, _ => False

theorem view_write_other {data : Option Value} (other : i ≠ cell path name) :
    view (write s path name data).2 i = view s i := by
  cases written : write s path name data with
  | mk r s' =>
      cases r with
      | ok _ => rw [view_write written, Function.update_of_ne other]
      | error e =>
          have same : s' = s := by
            unfold write at written
            cases there : s.find path.base (fold path.name) <;>
              simp [there] at written
            exact written.2.symm
          rw [same]

theorem faulty_view {r : Call.Ret c} (a : (faulty order platform).answers s c r s')
    (unreached : ¬ Reaches c i) : view s' i = view s i := by
  cases c with
  | inl c =>
      have frame : (¬ Targets fold c i.1 i.2.1) → view s' i = view s i := fun outside => by
        show (s'.values i.1 i.2.1).bind _ = (s.values i.1 i.2.1).bind _
        rw [faulty_frame a outside]
      cases c with
      | create path => rw [view_create a]
      | setValue path name data =>
          rcases a with ⟨guid, fresh, performed⟩ | ⟨e, -, rfl⟩
          · cases r with
            | ok _ => rw [view_setValue ⟨guid, fresh, performed⟩, Function.update_of_ne unreached]
            | error e =>
                simp only [Hive.perform] at performed
                split at performed
                · cases (Prod.mk.inj performed).1
                · rw [← (Prod.mk.inj performed).2]
          · rfl
      | removeTree path => exact frame unreached
      | _ => exact frame id
  | inr c =>
      rcases a with performed | ⟨e, -, rfl⟩ | disturbed
      · have answer : (NetSettings.perform platform bracedGuid s c).2 = s' :=
          congrArg Prod.snd performed
        rw [← answer]
        cases c with
        | setInterfaceDnsSettings guid flags text =>
            have other : view (write s ⟨familyBase flags, bracedGuid guid⟩ nameServer
              (some (.string (fromWide text)))).2 i = view s i := view_write_other unreached
            simp only [NetSettings.perform]
            split <;> rename_i written <;> rw [written] at other <;> exact other
        | removeValue path name =>
            simp only [NetSettings.perform]
            split
            · exact view_write_other unreached
            · rfl
        | _ => rfl
      · rfl
      · cases c with
        | setInterfaceDnsSettings guid flags text =>
            obtain ⟨data, rfl⟩ := disturbed
            exact view_write_other unreached
        | _ => exact disturbed.elim

/-- What a program cannot reach it leaves, whatever fails. -/
theorem unreached_safe {α : Type} {p : Program Call Call.Ret α}
    (issues : Issues (fun c => ¬ Reaches c i) p) (s : Machine) :
    Safe (faulty order platform) (fun t => view t i = view s i) (fun _ _ => True) p s := by
  refine issues.safe (fun _ _ _ _ outside same answer => (faulty_view answer outside).trans same)
    ?_ rfl
  rintro t c t' - same cut
  cases c <;> exact cut ▸ same

end Reach

section Looks

/-- The calls that only look. -/
def Looks : Call → Prop
  | .inl c => Registry.Quiet c
  | .inr (.setInterfaceDnsSettings _ _ _) | .inr (.removeValue _ _) => False
  | .inr _ => True

theorem looks_faulty {r : Call.Ret c} (looks : Looks c)
    (a : (faulty order platform).answers s c r s') : s' = s := by
  cases c with
  | inl c => exact (quiet_faulty looks).2 s r s' a
  | inr c =>
      rcases a with performed | ⟨e, -, rfl⟩ | disturbed
      · cases c <;> first | exact (Prod.mk.inj performed).2.symm | exact looks.elim
      · rfl
      · cases c <;> first | exact disturbed.elim | exact looks.elim

theorem looks_safe {α : Type} {p : Program Call Call.Ret α} (looks : Issues Looks p)
    (s : Machine) : Safe (faulty order platform) (fun t => t = s) (fun _ _ => True) p s := by
  refine looks.safe (fun _ _ _ _ look same a => (looks_faulty look a).trans same) ?_ rfl
  rintro t c t' - same cut
  cases c <;> exact cut ▸ same

theorem loadIphlpapi_looks : Issues Looks loadIphlpapi.run := by
  refine Issues.lift (Issues.call trivial) fun direct => Issues.tryBind ?_ fun _ =>
    Issues.lift (Issues.call trivial) fun _ => trivial
  cases direct with
  | ok _ => trivial
  | error e => exact Issues.mapErr (Issues.call trivial)

theorem readIf_looks (wanted : Bool) (guid : Bytes) (family : AddressFamily) :
    Issues Looks (readIf wanted guid family).run := by
  cases wanted with
  | false => trivial
  | true =>
      refine Issues.tryBind (Issues.tryBind ?_ fun _ => trivial) fun _ => trivial
      exact Issues.tryBind (Issues.mapErr (Issues.call trivial)) fun _ =>
        Issues.lift (Issues.call trivial) fun _ => trivial

theorem read_looks (guid : Bytes) (hasIpv4 hasIpv6 : Bool) :
    Issues Looks (InterfaceSnapshots.read guid hasIpv4 hasIpv6).run :=
  Issues.tryBind (readIf_looks hasIpv4 guid .ipv4) fun _ =>
    Issues.tryBind (readIf_looks hasIpv6 guid .ipv6) fun _ => trivial

/-- The interface that is found has the name of the device. -/
theorem interfaceGuid_spec (device : Bytes) (s : Machine) :
    Safe (faulty order platform) (fun _ => True)
      (fun r t => t = s ∧ ∀ guid, r = .ok guid → Names platform device guid)
      (interfaceGuid device).run s := by
  refine Safe.tryBind (M := fun r t => t = s ∧ ∀ luid, r = .ok luid →
    platform.luid (untilNull (utf16NullTerminated device)) = .ok luid) (call_spec fun r t a => ?_)
      ?_ (by simp)
  · refine ⟨looks_faulty (c := .inr (.aliasToLuid _)) trivial a, ?_⟩
    rcases a with performed | ⟨e, rfl, -⟩ | disturbed
    · obtain ⟨rfl, -⟩ := Prod.mk.inj performed
      rintro luid resolved
      cases found : platform.luid (untilNull (utf16NullTerminated device)) with
      | ok _ => rw [found] at resolved; cases resolved; rfl
      | error e => rw [found] at resolved; cases resolved
    · rintro luid ⟨⟩
    · exact disturbed.elim
  · rintro luid t - ⟨rfl, resolved⟩
    refine call_spec fun r t' a => ⟨looks_faulty (c := .inr (.luidToGuid _)) trivial a, ?_⟩
    rcases a with performed | ⟨e, rfl, -⟩ | disturbed
    · obtain ⟨rfl, -⟩ := Prod.mk.inj performed
      intro guid converted
      refine ⟨luid, resolved luid rfl, ?_⟩
      cases found : platform.guid luid with
      | ok _ => rw [found] at converted; cases converted; rfl
      | error e => rw [found] at converted; cases converted
    · rintro guid ⟨⟩
    · exact disturbed.elim

/-- Set both families, and take it back on a failure. -/
def setOrRestore (device : Bytes) (guid : Guid) (ipv4 ipv6 : Bytes)
    (snapshots : InterfaceSnapshots) : Result (Option InterfaceDns) := do
  let written ← (liftM (setDns device guid ipv4 ipv6).run : Result (Except InterfaceError Unit))
  match written with
  | .error error => do
      let _ ← (liftM snapshots.restore.run : Result (Except InterfaceError Unit))
      throw error
  | .ok () => pure (some ⟨snapshots⟩)

/-- Nothing has changed when an application comes to set the name servers, or gives up before. -/
theorem apply_safe {W : World Call Call.Ret Machine} {device : Bytes} {servers : List IpAddr}
    {Q : Except InterfaceError (Option InterfaceDns) → Machine → Prop}
    (le : ∀ s c r t, W.answers s c r t → (faulty order platform).answers s c r t)
    (failed : ∀ e, Q (.error e) s)
    (missing : Ends W loadIphlpapi.run s (.ok false) s → Q (.ok none) s)
    (set : ∀ guid snapshots, Ends W loadIphlpapi.run s (.ok true) s → Names platform device guid →
      Ends W (InterfaceSnapshots.read (bracedGuid guid) (!(nameserversByFamily servers).1.isEmpty)
        (!(nameserversByFamily servers).2.isEmpty)).run s (.ok snapshots) s →
      Safe W (fun _ => True) Q (setOrRestore device guid (nameserversByFamily servers).1
        (nameserversByFamily servers).2 snapshots).run s) :
    Safe W (fun _ => True) Q (apply device servers).run s := by
  have ends : ∀ {α : Type} {p : Program Call Call.Ret α} {a : α} {t : Machine},
      Ends W p s a t → Ends (faulty order platform) p s a t := fun e => e.mono le
  refine safe_iff.mpr ⟨fun _ _ => trivial, fun r t run => ?_⟩
  rcases Ends.tryBind_cases run with ⟨found, s₁, loaded, rest⟩ | ⟨e, rfl, loaded⟩
  swap
  · obtain rfl := (looks_safe loadIphlpapi_looks s).visits (ends loaded).visits
    exact failed e
  obtain rfl := (looks_safe loadIphlpapi_looks s).visits (ends loaded).visits
  cases found with
  | false =>
      cases rest
      exact missing loaded
  | true =>
      rcases Ends.tryBind_cases rest with ⟨guid, s₂, converted, rest'⟩ | ⟨e, rfl, converted⟩
      swap
      · obtain ⟨rfl, -⟩ := (interfaceGuid_spec device _).ends (ends converted)
        exact failed e
      obtain ⟨rfl, named⟩ := (interfaceGuid_spec device _).ends (ends converted)
      rcases Ends.tryBind_cases rest' with ⟨snapshots, s₃, read, last⟩ | ⟨e, rfl, read⟩
      · obtain rfl := (looks_safe (read_looks _ _ _) _).visits (ends read).visits
        exact (set guid snapshots loaded (named guid rfl) read).ends last
      · obtain rfl := (looks_safe (read_looks _ _ _) _).visits (ends read).visits
        exact failed e

end Looks

section Frames

variable {guid : Guid} {device : Bytes} {servers : List IpAddr} {snapshots : InterfaceSnapshots}

/-- The name servers of one family of the interface. -/
def nameServers (guid : Guid) (family : AddressFamily) : Cell :=
  cell ⟨family.registryBase, bracedGuid guid⟩ nameServer

/-- The handle or the snapshots have one of this value. -/
def Covers (snapshots : InterfaceSnapshots) (i : Cell) : Prop :=
  ∃ taken : NameServerSnapshot, (snapshots.ipv4 = some taken ∨ snapshots.ipv6 = some taken) ∧
    i = cell taken.path nameServer

theorem setDnsIf_unreached {family : AddressFamily} {nameservers : Bytes}
    (other : nameservers ≠ [] → i ≠ nameServers guid family) :
    Issues (fun c => ¬ Reaches c i) (setDnsIf device guid family nameservers).run := by
  cases nameservers with
  | nil => trivial
  | cons byte rest =>
      refine Issues.lift (Issues.call ?_) fun code => ?_
      · show ¬ i = cell ⟨familyBase family.flags, bracedGuid guid⟩ nameServer
        rw [familyBase_flags]
        exact other (List.cons_ne_nil byte rest)
      · split <;> trivial

theorem setDns_unreached
    (other : ∀ family, Serves servers family → i ≠ nameServers guid family) :
    Issues (fun c => ¬ Reaches c i) (setDns device guid (nameserversByFamily servers).1
      (nameserversByFamily servers).2).run := by
  have other : ∀ family, textFor servers family ≠ [] → i ≠ nameServers guid family :=
    fun family text => other family (not_not.mp (mt (textFor_eq_nil_iff family).mpr text))
  exact Issues.tryBind (setDnsIf_unreached (other .ipv4)) fun _ => setDnsIf_unreached (other .ipv6)

theorem restoreNameserver_unreached {value : Option Bytes} (other : i ≠ cell path nameServer) :
    Issues (fun c => ¬ Reaches c i) (restoreNameserver path value).run := by
  refine Issues.tryBind (Issues.mapErr (Issues.call id)) fun _ => ?_
  cases value with
  | some text => exact Issues.mapErr (Issues.call other)
  | none => exact Issues.lift (Issues.call other) fun _ => trivial

theorem restore_unreached (other : ¬ Covers snapshots i) :
    Issues (fun c => ¬ Reaches c i) snapshots.restore.run := by
  have one : ∀ snapshot : Option NameServerSnapshot,
      (∀ taken, snapshot = some taken → i ≠ cell taken.path nameServer) →
      Issues (fun c => ¬ Reaches c i) (restoreIf snapshot).run := by
    intro snapshot other
    cases snapshot with
    | none => trivial
    | some taken => exact restoreNameserver_unreached (other taken rfl)
  exact Issues.tryBind (one _ fun taken kept here => other ⟨taken, .inl kept, here⟩)
    fun _ => one _ fun taken kept here => other ⟨taken, .inr kept, here⟩

theorem setOrRestore_unreached
    (other : ∀ family, Serves servers family → i ≠ nameServers guid family)
    (uncovered : ¬ Covers snapshots i) :
    Issues (fun c => ¬ Reaches c i) (setOrRestore device guid (nameserversByFamily servers).1
      (nameserversByFamily servers).2 snapshots).run := by
  refine Issues.lift (setDns_unreached other) fun written => ?_
  cases written with
  | ok _ => trivial
  | error e => exact Issues.lift (restore_unreached uncovered) fun _ => trivial

theorem readIf_path {wanted : Bool} {name : Bytes} {family : AddressFamily}
    {taken : NameServerSnapshot}
    (run : Ends (faulty order platform) (readIf wanted name family).run s (.ok (some taken)) s') :
    wanted = true ∧ taken.path = ⟨family.registryBase, name⟩ := by
  cases wanted with
  | false => cases run
  | true =>
      rcases Ends.tryBind_cases run with ⟨snapshot, s₁, read, last⟩ | ⟨e, ⟨⟩, -⟩
      cases last
      rcases Ends.tryBind_cases read with ⟨value, s₂, -, last⟩ | ⟨e, ⟨⟩, -⟩
      cases last
      exact ⟨rfl, rfl⟩

theorem read_paths {hasIpv4 hasIpv6 : Bool} {name : Bytes} {taken : NameServerSnapshot}
    (run : Ends (faulty order platform) (InterfaceSnapshots.read name hasIpv4 hasIpv6).run s
      (.ok snapshots) s') :
    (snapshots.ipv4 = some taken → hasIpv4 = true ∧ taken.path = ⟨ipv4Base, name⟩) ∧
      (snapshots.ipv6 = some taken → hasIpv6 = true ∧ taken.path = ⟨ipv6Base, name⟩) := by
  rcases Ends.tryBind_cases run with ⟨ipv4, s₁, read4, rest⟩ | ⟨e, ⟨⟩, -⟩
  rcases Ends.tryBind_cases rest with ⟨ipv6, s₂, read6, last⟩ | ⟨e, ⟨⟩, -⟩
  cases last
  constructor
  · rintro rfl
    exact readIf_path read4
  · rintro rfl
    exact readIf_path read6

/-- The snapshots of an application are those of the families that it serves. -/
theorem read_covers (run : Ends (faulty order platform)
      (InterfaceSnapshots.read (bracedGuid guid) (!(nameserversByFamily servers).1.isEmpty)
        (!(nameserversByFamily servers).2.isEmpty)).run s (.ok snapshots) s')
    (covered : Covers snapshots i) :
    ∃ family, Serves servers family ∧ i = nameServers guid family := by
  obtain ⟨taken, kept | kept, rfl⟩ := covered
  · obtain ⟨wanted, path⟩ := (read_paths run).1 kept
    exact ⟨.ipv4, (wanted_iff .ipv4).mp wanted, by rw [path]; rfl⟩
  · obtain ⟨wanted, path⟩ := (read_paths run).2 kept
    exact ⟨.ipv6, (wanted_iff .ipv6).mp wanted, by rw [path]; rfl⟩

/-- A handle has the snapshots that were taken. -/
theorem setOrRestore_snapshots {W : World Call Call.Ret Machine} {ipv4 ipv6 : Bytes}
    {handle : InterfaceDns} (run : Ends W (setOrRestore device guid ipv4 ipv6 snapshots).run s
      (.ok (some handle)) s') : handle.snapshots = snapshots := by
  obtain ⟨written, s₁, -, rest⟩ := Ends.lift_cases run
  cases written with
  | ok _ =>
      cases rest
      rfl
  | error e =>
      obtain ⟨_, s₂, -, last⟩ := Ends.lift_cases rest
      cases last

theorem apply_paths (device : Bytes) (servers : List IpAddr) (s : Machine) :
    Safe (faulty order platform) (fun _ => True)
      (fun r _ => ∀ handle taken, r = .ok (some handle) →
        (handle.snapshots.ipv4 = some taken → taken.path.base = ipv4Base) ∧
          (handle.snapshots.ipv6 = some taken → taken.path.base = ipv6Base))
      (apply device servers).run s := by
  refine apply_safe (fun _ _ _ _ a => a) (by simp) (by simp) fun guid snapshots _ _ read => ?_
  refine safe_iff.mpr ⟨fun _ _ => trivial, fun r t run handle taken ok => ?_⟩
  subst ok
  rw [setOrRestore_snapshots run]
  exact ⟨fun kept => by rw [((read_paths read).1 kept).2],
    fun kept => by rw [((read_paths read).2 kept).2]⟩

/-- An application changes only the families that it serves, of the interface with the name of
the device, and its handle covers no others. -/
theorem apply_frame
    (other : ∀ guid family, Names platform device guid → Serves servers family →
      i ≠ nameServers guid family) :
    Safe (faulty order platform) (fun _ => True)
      (fun r t => view t i = view s i ∧
        ∀ handle, r = .ok (some handle) → ¬ Covers handle.snapshots i)
      (apply device servers).run s := by
  refine apply_safe (fun _ _ _ _ a => a) (by simp) (by simp) fun guid snapshots _ named read => ?_
  have uncovered : ¬ Covers snapshots i := fun covered => by
    obtain ⟨family, serves, here⟩ := read_covers read covered
    exact other guid family named serves here
  refine safe_iff.mpr ⟨fun _ _ => trivial, fun r t run => ⟨?_, fun handle ok => ?_⟩⟩
  · exact (unreached_safe (setOrRestore_unreached (other guid · named) uncovered) s).visits
      run.visits
  · subst ok
    rwa [setOrRestore_snapshots run]

end Frames

section Snapshots

variable {guid : Guid} {device : Bytes}

theorem Names.unique {guid' : Guid} (named : Names platform device guid)
    (named' : Names platform device guid') : guid = guid' := by
  obtain ⟨luid, resolved, converted⟩ := named
  obtain ⟨luid', resolved', converted'⟩ := named'
  obtain rfl := Except.ok.inj (resolved.symm.trans resolved')
  exact Except.ok.inj (converted.symm.trans converted')

/-- A value that is absent or a text. -/
def Textual (s : Machine) (path : KeyPath) : Prop :=
  ∀ value, view s (cell path nameServer) = some value → ∃ text, value = .string text

/-- The name servers of the interface are absent or texts. -/
def Wellformed (guid : Guid) (s : Machine) : Prop :=
  ∀ family : AddressFamily, Textual s ⟨family.registryBase, bracedGuid guid⟩

/-- The key of a value. -/
def Present (s : Machine) (path : KeyPath) : Prop := s.values path.base (fold path.name) ≠ none

theorem readNameserver_spec (inside : path.base ∈ interfaceBases) (textual : Textual s path) :
    Safe (rolling order platform misread) (fun _ => True)
      (fun r t => t = s ∧ ∀ value, r = .ok value → Present s path ∧
        value.map Value.string = glimpse misread (view s) (cell path nameServer))
      (readNameserver path).run s := by
  refine Safe.tryBind (M := fun r t => t = s ∧ (r = .ok () → Present s path))
    (call_spec fun r t a => ?_) ?_ (by simp)
  · refine ⟨looks_faulty (c := .inl (.openKey path)) trivial a.1, fun ok => ?_⟩
    rcases a.1 with ⟨_, -, performed⟩ | ⟨e, rfl, -⟩
    · obtain ⟨rfl, -⟩ := Prod.mk.inj performed
      intro gone
      rw [gone] at ok
      cases ok
    · cases ok
  rintro _ t - ⟨rfl, present⟩
  refine ask_spec fun r t' a => ?_
  obtain rfl := looks_faulty (c := .inl (.getString path nameServer)) trivial a.1
  refine ⟨trivial, rfl, ?_⟩
  rintro _ ⟨⟩
  refine ⟨present rfl, ?_⟩
  rw [a.2 inside, glimpse]
  show Option.map _ (if misreads misread path.base then none else _) =
    if misreads misread path.base then none else _
  split
  · rfl
  · exact stringOf_toOption textual

/-- After a removal the value is gone. -/
theorem removeValue_view {r : Except RegError Unit}
    (a : (rolling order platform misread).answers s (.inr (.removeValue path name)) r s') :
    view s' (cell path name) = none := by
  have removed : s.value path name ≠ none → r = .ok () := a.2
  rcases a.1 with performed | ⟨e, rfl, rfl⟩ | disturbed
  · have performed : NetSettings.perform platform bracedGuid s (.removeValue path name) =
      (r, s') := performed
    cases held : s.value path name with
    | none =>
        simp only [NetSettings.perform, held] at performed
        rw [← (Prod.mk.inj performed).2]
        exact held
    | some value =>
        simp only [NetSettings.perform, held] at performed
        obtain rfl := removed (by simp [held])
        rw [view_write performed, Function.update_self]
  · by_contra held
    cases removed held
  · exact disturbed.elim

theorem restoreNameserver_spec (path : KeyPath) (value : Option Bytes) (s : Machine) :
    Safe (rolling order platform misread) (fun _ => True)
      (fun r t => (path.base ∈ interfaceBases → r = .ok ()) ∧ (r = .ok () →
        view t = Function.update (view s) (cell path nameServer) (value.map Value.string)))
      (restoreNameserver path value).run s := by
  refine Safe.tryBind (M := fun r t => (path.base ∈ interfaceBases → r = .ok ()) ∧
    view t = view s ∧ (r = .ok () → Present t path)) (call_spec fun r t a => ?_) ?_ ?_
  · refine ⟨fun inside => ?_, view_create a.1, fun ok => ?_⟩
    · rw [show r = .ok () from a.2 inside]
      rfl
    · rcases faulty_create a.1 with ⟨rfl, there⟩ | ⟨-, created⟩
      · cases r with
        | ok _ => exact there rfl
        | error e => cases ok
      · exact fun gone => by cases created.symm.trans gone
  · rintro _ s₁ - ⟨-, same, present⟩
    cases value with
    | some text =>
        refine call_spec fun r t a => ⟨fun inside => ?_, fun ok => ?_⟩
        · rw [show r = .ok () from a.2 inside (present rfl)]
          rfl
        · cases r with
          | error e => cases ok
          | ok _ =>
              rcases a.1 with answered | ⟨e, failed, -⟩
              · rw [← same]
                exact view_setValue answered
              · cases failed
    | none =>
        refine ask_spec fun r t a => ⟨trivial, fun _ => rfl, fun _ => ?_⟩
        rw [← same]
        funext i
        by_cases here : i = cell path nameServer
        · subst here
          rw [Function.update_self, removeValue_view a, Option.map_none]
        · rw [Function.update_of_ne here]
          exact faulty_view a.1 here
  · rintro e t - ⟨always, -⟩
    exact ⟨always, by simp⟩

/-- The snapshot of one family, if it was taken. -/
def shotIf (snapshot : Option NameServerSnapshot) : Snapshots.Shot Cell (Option Value) := fun i =>
  snapshot.bind fun snapshot =>
    if i = cell snapshot.path nameServer then some (snapshot.value.map Value.string) else none

/-- The text that is written for one family, if there is any. -/
def newIf (wanted : Bool) (path : KeyPath) (text : Bytes) : Snapshots.Shot Cell (Option Value) :=
  fun i => if wanted = true ∧ i = cell path nameServer then some (some (.string text)) else none

/-- A snapshot below an interface key, if there is one. -/
def Inside (snapshot : Option NameServerSnapshot) : Prop :=
  ∀ taken, snapshot = some taken → taken.path.base ∈ interfaceBases

theorem readIf_spec (wanted : Bool) (guid text : Bytes) (family : AddressFamily)
    (textual : Textual s ⟨family.registryBase, guid⟩) :
    Safe (rolling order platform misread) (fun _ => True)
      (fun r t => t = s ∧ ∀ snapshot, r = .ok snapshot → Inside snapshot ∧
        (wanted = true → Present s ⟨family.registryBase, guid⟩) ∧
        shotIf snapshot = Snapshots.take (newIf wanted ⟨family.registryBase, guid⟩ text)
          (glimpse misread (view s)))
      (readIf wanted guid family).run s := by
  have inside := registryBase_mem family
  cases wanted with
  | false =>
      refine ⟨trivial, rfl, ?_⟩
      rintro _ ⟨⟩
      refine ⟨fun _ none => (nomatch none), fun wanted => (nomatch wanted), funext fun i => ?_⟩
      simp [shotIf, newIf, Snapshots.take]
  | true =>
      refine Safe.tryBind (M := fun r t => t = s ∧ ∀ snapshot, r = .ok snapshot →
        snapshot.path = ⟨family.registryBase, guid⟩ ∧ Present s ⟨family.registryBase, guid⟩ ∧
        snapshot.value.map Value.string =
          glimpse misread (view s) (cell ⟨family.registryBase, guid⟩ nameServer)) ?_ ?_ (by simp)
      · refine Safe.tryBind (readNameserver_spec inside textual) ?_ (by simp)
        rintro value t - ⟨rfl, read⟩
        refine ⟨trivial, rfl, ?_⟩
        rintro _ ⟨⟩
        exact ⟨rfl, read value rfl⟩
      · rintro ⟨path, value⟩ t - ⟨rfl, read⟩
        obtain ⟨rfl, present, held⟩ := read _ rfl
        refine ⟨trivial, rfl, ?_⟩
        rintro _ ⟨⟩
        refine ⟨fun _ taken => Option.some.inj taken ▸ inside, fun _ => present, funext fun i => ?_⟩
        by_cases here : i = cell ⟨family.registryBase, guid⟩ nameServer
        · simp [shotIf, newIf, Snapshots.take, here, held]
        · simp [shotIf, newIf, Snapshots.take, here]

theorem restoreIf_spec (snapshot : Option NameServerSnapshot) (s : Machine) :
    Safe (rolling order platform misread) (fun _ => True)
      (fun r t => (Inside snapshot → r = .ok ()) ∧
        (r = .ok () → view t = Snapshots.overlay (shotIf snapshot) (view s)))
      (restoreIf snapshot).run s := by
  cases snapshot with
  | none => exact ⟨trivial, fun _ => rfl, fun _ => rfl⟩
  | some snapshot =>
      refine (restoreNameserver_spec snapshot.path snapshot.value s).post ?_
      rintro r t - ⟨always, written⟩
      refine ⟨fun inside => always (inside _ rfl), fun ok => ?_⟩
      rw [written ok]
      funext i
      by_cases here : i = cell snapshot.path nameServer
      · simp [Snapshots.overlay, shotIf, here]
      · simp [Snapshots.overlay, shotIf, here]

/-- What a handle remembers of both families. -/
def shot (handle : InterfaceDns) : Snapshots.Shot Cell (Option Value) :=
  Snapshots.above (shotIf handle.snapshots.ipv6) (shotIf handle.snapshots.ipv4)

theorem restore_spec (snapshots : InterfaceSnapshots) (s : Machine) :
    Safe (rolling order platform misread) (fun _ => True)
      (fun r t => (Inside snapshots.ipv4 → Inside snapshots.ipv6 → r = .ok ()) ∧
        (r = .ok () → view t = Snapshots.overlay (shot ⟨snapshots⟩) (view s)))
      snapshots.restore.run s := by
  refine Safe.tryBind (restoreIf_spec snapshots.ipv4 s) ?_ ?_
  · rintro _ s₁ - ⟨-, first⟩
    refine (restoreIf_spec snapshots.ipv6 s₁).post ?_
    rintro r t - ⟨always, second⟩
    refine ⟨fun _ => always, fun ok => ?_⟩
    rw [second ok, first rfl, shot, Snapshots.overlay_above]
  · rintro e t - ⟨always, -⟩
    exact ⟨fun inside _ => always inside, by simp⟩

/-- The texts that an application writes. -/
def new (guid : Guid) (servers : List IpAddr) : Snapshots.Shot Cell (Option Value) :=
  let (ipv4, ipv6) := nameserversByFamily servers
  Snapshots.above
    (newIf (!ipv6.isEmpty) ⟨ipv6Base, bracedGuid guid⟩ (fromWide (utf16NullTerminated ipv6)))
    (newIf (!ipv4.isEmpty) ⟨ipv4Base, bracedGuid guid⟩ (fromWide (utf16NullTerminated ipv4)))

theorem read_spec (well : Wellformed guid s) (hasIpv4 hasIpv6 : Bool) (text4 text6 : Bytes) :
    Safe (rolling order platform misread) (fun _ => True)
      (fun r t => t = s ∧ ∀ snapshots, r = .ok snapshots →
        (Inside snapshots.ipv4 ∧ Inside snapshots.ipv6) ∧
        ((hasIpv4 = true → Present s ⟨ipv4Base, bracedGuid guid⟩) ∧
          (hasIpv6 = true → Present s ⟨ipv6Base, bracedGuid guid⟩)) ∧
        shot ⟨snapshots⟩ = Snapshots.take (Snapshots.above
          (newIf hasIpv6 ⟨ipv6Base, bracedGuid guid⟩ text6)
          (newIf hasIpv4 ⟨ipv4Base, bracedGuid guid⟩ text4)) (glimpse misread (view s)))
      (InterfaceSnapshots.read (bracedGuid guid) hasIpv4 hasIpv6).run s := by
  refine Safe.tryBind (readIf_spec hasIpv4 (bracedGuid guid) text4 .ipv4 (well .ipv4)) ?_
    (fun e t _ held => ⟨held.1, by simp⟩)
  rintro ipv4 t - ⟨rfl, read4⟩
  obtain ⟨inside4, present4, taken4⟩ := read4 ipv4 rfl
  refine Safe.tryBind (readIf_spec hasIpv6 (bracedGuid guid) text6 .ipv6 (well .ipv6)) ?_
    (fun e t _ held => ⟨held.1, by simp⟩)
  rintro ipv6 t - ⟨rfl, read6⟩
  obtain ⟨inside6, present6, taken6⟩ := read6 ipv6 rfl
  refine ⟨trivial, rfl, ?_⟩
  rintro _ ⟨⟩
  refine ⟨⟨inside4, inside6⟩, ⟨present4, present6⟩, ?_⟩
  rw [Snapshots.take_above, shot, taken4, taken6]
  rfl

end Snapshots

/-- What holds while calls fail holds when none does. -/
theorem safe_calm {α : Type} {I : Machine → Prop} {Q : α → Machine → Prop}
    {p : Program Call Call.Ret α}
    (h : Safe (rolling order platform fun _ => false) I Q p s) :
    Safe (calm order platform) I Q p s := by
  refine h.of_le (fun _ _ _ _ => rolling_of_calm) ?_
  rintro t c t' cut
  cases c with
  | inl c => exact cut
  | inr c => exact cut.elim

end Setdns.Windows.Interface

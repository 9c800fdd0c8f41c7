import Setdns.Effects.NetSettings
import Setdns.Effects.Sum
import Setdns.Order.Snapshots
import Setdns.Text.Separated
import Setdns.Windows.Nrpt

/-!
The name servers of one interface on Windows. They are set through the system's
interface settings, for each address family that has a server. The handle
remembers the registry values of these families and writes them back on close,
whatever is there by then.
-/

namespace Setdns.Windows.Interface

open Text Effects Effects.Program Effects.Registry Effects.NetSettings
open Nrpt (bracedGuid fold Machine)

inductive InterfaceError where
  | loadLibrary (source : Code)
  | resolveAlias (device : Bytes) (code : Code)
  | convertGuid (device : Bytes) (code : Code)
  | registry (source : RegError)
  | setDns (device family : Bytes) (code : Code)
  deriving DecidableEq, Repr

abbrev Call : Type := RegCall ⊕ NetCall
abbrev Call.Ret : Call → Type := Joint RegCall.Ret NetCall.Ret

abbrev Result (α : Type) : Type := ExceptT InterfaceError (Program Call Call.Ret) α

inductive AddressFamily where
  | ipv4
  | ipv6
  deriving DecidableEq, Repr

namespace AddressFamily

def label : AddressFamily → Bytes
  | .ipv4 => bytes "IPv4"
  | .ipv6 => bytes "IPv6"

def registryBase : AddressFamily → Bytes
  | .ipv4 => ipv4Base
  | .ipv6 => ipv6Base

def flags : AddressFamily → UInt64
  | .ipv4 => DNS_SETTING_NAMESERVER
  | .ipv6 => DNS_SETTING_NAMESERVER ||| DNS_SETTING_IPV6

end AddressFamily

structure NameServerSnapshot where
  path : KeyPath
  value : Option Bytes
  deriving DecidableEq, Repr

structure InterfaceSnapshots where
  ipv4 : Option NameServerSnapshot
  ipv6 : Option NameServerSnapshot
  deriving DecidableEq, Repr

structure InterfaceDns where
  snapshots : InterfaceSnapshots
  deriving DecidableEq, Repr

def reg {ε α : Type} (call : Registry.Io (Except ε α)) (error : ε → InterfaceError) : Result α :=
  mapErr call.left error

def net {ε α : Type} (call : NetSettings.Io (Except ε α)) (error : ε → InterfaceError) : Result α :=
  mapErr call.right error

/-- A call whose failure is no error yet. -/
abbrev askReg {α : Type} (call : Registry.Io α) : Result α :=
  liftM (call.left : Program Call Call.Ret α)

abbrev askNet {α : Type} (call : NetSettings.Io α) : Result α :=
  liftM (call.right : Program Call Call.Ret α)

def pushNameserver (nameservers : Bytes) (server : IpAddr) : Bytes :=
  (if nameservers.isEmpty then nameservers else nameservers ++ bytes ",") ++ server.display

def nameserversByFamily (servers : List IpAddr) : Bytes × Bytes :=
  servers.foldl
    (fun (ipv4, ipv6) server =>
      match server with
      | .v4 _ => (pushNameserver ipv4 server, ipv6)
      | .v6 _ => (ipv4, pushNameserver ipv6 server)) ([], [])

def utf16NullTerminated (value : Bytes) : List UInt16 := encodeUtf16 (text value) ++ [0]

/-- Whether the library has the function. -/
def loadIphlpapi : Result Bool := do
  let direct ← askNet (Net.loadLibrary (bytes "iphlpapi.dll") true)
  (match direct with
    | .ok () => pure ()
    | .error _ => net (Net.loadLibrary (bytes "iphlpapi.dll") false) .loadLibrary : Result Unit)
  let symbol ← askNet (Net.symbol (bytes "SetInterfaceDnsSettings"))
  pure symbol.isOk

def interfaceGuid (device : Bytes) : Result Guid := do
  let luid ← net (Net.aliasToLuid (utf16NullTerminated device)) (.resolveAlias device)
  net (Net.luidToGuid luid) (.convertGuid device)

def readNameserver (path : KeyPath) : Result (Option Bytes) := do
  reg (Reg.openKey path) .registry
  let value ← askReg (Reg.getString path nameServer)
  pure value.toOption

def restoreNameserver (path : KeyPath) (value : Option Bytes) : Result Unit := do
  reg (Reg.create path) .registry
  match value with
  | some value => reg (Reg.setValue path nameServer (.string value)) .registry
  | none => do
      let _ ← askNet (Net.removeValue path nameServer)
      pure ()

namespace NameServerSnapshot

def read (guid : Bytes) (family : AddressFamily) : Result NameServerSnapshot := do
  let path : KeyPath := ⟨family.registryBase, guid⟩
  let value ← readNameserver path
  pure ⟨path, value⟩

def restore (snapshot : NameServerSnapshot) : Result Unit :=
  restoreNameserver snapshot.path snapshot.value

end NameServerSnapshot

/-- Read a family only if it is wanted. -/
def readIf (wanted : Bool) (guid : Bytes) (family : AddressFamily) :
    Result (Option NameServerSnapshot) :=
  if wanted then do
    let snapshot ← NameServerSnapshot.read guid family
    pure (some snapshot)
  else pure none

def restoreIf : Option NameServerSnapshot → Result Unit
  | some snapshot => snapshot.restore
  | none => pure ()

namespace InterfaceSnapshots

def read (guid : Bytes) (hasIpv4 hasIpv6 : Bool) : Result InterfaceSnapshots := do
  let ipv4 ← readIf hasIpv4 guid .ipv4
  let ipv6 ← readIf hasIpv6 guid .ipv6
  pure ⟨ipv4, ipv6⟩

def restore (snapshots : InterfaceSnapshots) : Result Unit := do
  restoreIf snapshots.ipv4
  restoreIf snapshots.ipv6

end InterfaceSnapshots

def setDnsFamily (device : Bytes) (guid : Guid) (family : AddressFamily) (nameservers : Bytes) :
    Result Unit := do
  let code ← askNet
    (Net.setInterfaceDnsSettings guid family.flags (utf16NullTerminated nameservers))
  if code ≠ NO_ERROR then throw (.setDns device family.label code) else pure ()

def setDnsIf (device : Bytes) (guid : Guid) (family : AddressFamily) (nameservers : Bytes) :
    Result Unit :=
  if !nameservers.isEmpty then setDnsFamily device guid family nameservers else pure ()

def setDns (device : Bytes) (guid : Guid) (ipv4 ipv6 : Bytes) : Result Unit := do
  setDnsIf device guid .ipv4 ipv4
  setDnsIf device guid .ipv6 ipv6

/-- There is no handle where the system cannot set an interface. -/
def apply (device : Bytes) (servers : List IpAddr) : Result (Option InterfaceDns) := do
  let (ipv4, ipv6) := nameserversByFamily servers
  if ← loadIphlpapi then do
    let guid ← interfaceGuid device
    let snapshots ← InterfaceSnapshots.read (bracedGuid guid) (!ipv4.isEmpty) (!ipv6.isEmpty)
    let written ← (liftM (setDns device guid ipv4 ipv6).run : Result (Except InterfaceError Unit))
    match written with
    | .error error => do
        let _ ← (liftM snapshots.restore.run : Result (Except InterfaceError Unit))
        throw error
    | .ok () => pure (some ⟨snapshots⟩)
  else pure none

def close (handle : InterfaceDns) : Result Unit := handle.snapshots.restore

example : nameserversByFamily [.v4 ⟨1, 1, 1, 1⟩, .v6 ⟨[0, 0, 0, 0, 0, 0, 0, 1], rfl⟩,
    .v4 ⟨8, 8, 8, 8⟩] = (bytes "1.1.1.1,8.8.8.8", bytes "::1") := by decide

section Families

variable {servers : List IpAddr} {separator : UInt8}

theorem foldl_display_eq_nil_iff :
    (servers.map IpAddr.display).foldl (push separator) [] = [] ↔ servers = [] := by
  have nonempty : ∀ text ∈ servers.map IpAddr.display, text ≠ [] :=
    List.forall_mem_map.mpr fun server _ => server.display_ne_nil
  rw [foldl_push nonempty, intercalate_eq_nil_iff nonempty, List.map_eq_nil_iff]

theorem nameserversByFamily_eq (servers : List IpAddr) :
    nameserversByFamily servers =
      (((servers.filter IpAddr.isIpv4).map IpAddr.display).foldl (push 44) [],
        ((servers.filter IpAddr.isIpv6).map IpAddr.display).foldl (push 44) []) := by
  have onward : ∀ ipv4 ipv6 : Bytes,
      servers.foldl (fun (ipv4, ipv6) server =>
        match server with
        | .v4 _ => (pushNameserver ipv4 server, ipv6)
        | .v6 _ => (ipv4, pushNameserver ipv6 server)) (ipv4, ipv6) =
        (((servers.filter IpAddr.isIpv4).map IpAddr.display).foldl (push 44) ipv4,
          ((servers.filter IpAddr.isIpv6).map IpAddr.display).foldl (push 44) ipv6) := by
    induction servers with
    | nil => exact fun _ _ => rfl
    | cons server servers ih =>
        cases server with
        | v4 addr => exact fun ipv4 ipv6 => ih _ ipv6
        | v6 addr => exact fun ipv4 ipv6 => ih ipv4 _
  exact onward [] []

/-- The text for one family. -/
def textFor (servers : List IpAddr) : AddressFamily → Bytes
  | .ipv4 => (nameserversByFamily servers).1
  | .ipv6 => (nameserversByFamily servers).2

def AddressFamily.has : AddressFamily → IpAddr → Bool
  | .ipv4, server => server.isIpv4
  | .ipv6, server => server.isIpv6

/-- The list has a server of the family. -/
def Serves (servers : List IpAddr) (family : AddressFamily) : Prop :=
  ∃ server ∈ servers, family.has server = true

theorem textFor_eq_nil_iff (family : AddressFamily) :
    textFor servers family = [] ↔ ¬ Serves servers family := by
  cases family with
  | ipv4 =>
      rw [textFor, nameserversByFamily_eq, foldl_display_eq_nil_iff, List.filter_eq_nil_iff]
      simp [Serves, AddressFamily.has]
  | ipv6 =>
      rw [textFor, nameserversByFamily_eq, foldl_display_eq_nil_iff, List.filter_eq_nil_iff]
      simp [Serves, AddressFamily.has]

theorem wanted_iff (family : AddressFamily) :
    (!(textFor servers family).isEmpty) = true ↔ Serves servers family := by
  rw [← not_iff_not, ← textFor_eq_nil_iff]
  simp

end Families

section View

/-- A value of a subkey: its base key, the folded name of the subkey and its name. -/
abbrev Cell : Type := Bytes × Bytes × Bytes

def cell (path : KeyPath) (name : Bytes) : Cell := (path.base, fold path.name, name)

/-- All values of the registry. -/
def view (s : Machine) : Cell → Option Value := fun (base, folded, name) =>
  (s.values base folded).bind fun values => values name

variable {s s' : Machine} {path : KeyPath} {name : Bytes} {data : Option Value}

theorem view_put {key : KeyAt fold (fold path.name)}
    (there : s.find path.base (fold path.name) = some key) :
    view (s.put path.base { key with values := Function.update key.values name data }) =
      Function.update (view s) (cell path name) data := by
  funext ⟨base, folded, n⟩
  by_cases here : base = path.base ∧ folded = fold path.name
  · obtain ⟨rfl, rfl⟩ := here
    by_cases same : n = name
    · subst same
      simp [view, cell, values_put_self]
    · have ne : (path.base, fold path.name, n) ≠ cell path name := by simp [cell, same]
      rw [Function.update_of_ne ne]
      simp only [view, values_put_self, Option.bind_some, Function.update_of_ne same]
      simp [Hive.values, there]
  · have ne : (base, folded, n) ≠ cell path name := by
      rintro ⟨⟩
      exact here ⟨rfl, rfl⟩
    rw [Function.update_of_ne ne]
    simp only [view, Hive.values, find_put_other _ here]

theorem view_write (written : write s path name data = (.ok (), s')) :
    view s' = Function.update (view s) (cell path name) data := by
  unfold write at written
  cases there : s.find path.base (fold path.name) with
  | none =>
      rw [there] at written
      cases written
  | some key =>
      rw [there] at written
      obtain ⟨-, rfl⟩ := Prod.mk.inj written
      exact view_put there

theorem view_create {r : Except RegError Unit} {order : Enumeration}
    (a : (Registry.faulty order Nrpt.Fresh).answers s (.create path) r s') : view s' = view s := by
  funext ⟨base, folded, n⟩
  by_cases here : base = path.base ∧ folded = fold path.name
  · obtain ⟨rfl, rfl⟩ := here
    rcases faulty_create a with ⟨rfl, -⟩ | ⟨free, created⟩
    · rfl
    · have new : s'.values path.base (fold path.name) = some fun _ => none := created
      have old : s.values path.base (fold path.name) = none := free
      simp [view, new, old]
  · simp only [view]
    rw [faulty_frame a here]

theorem view_setValue {value : Value} {order : Enumeration}
    (a : (Registry.calm order Nrpt.Fresh).answers s (.setValue path name value) (.ok ()) s') :
    view s' = Function.update (view s) (cell path name) (some value) := by
  obtain ⟨guid, -, performed⟩ := a
  cases there : s.find path.base (fold path.name) with
  | some key =>
      simp only [Hive.perform, there] at performed
      obtain ⟨-, rfl⟩ := Prod.mk.inj performed
      exact view_put there
  | none => simp [Hive.perform, there] at performed

theorem value_eq_view : s.value path name = view s (cell path name) := rfl

/-- The text that a snapshot keeps of a value. -/
theorem stringOf_toOption (textual : ∀ value, view s (cell path name) = some value →
      ∃ text, value = .string text) :
    (s.stringOf path name).toOption.map Value.string = view s (cell path name) := by
  unfold Hive.stringOf
  rw [value_eq_view]
  cases held : view s (cell path name) with
  | none => rfl
  | some value =>
      obtain ⟨text, rfl⟩ := textual value held
      rfl

end View

/-- The device is a name of the interface. -/
def Names (platform : Platform) (device : Bytes) (guid : Guid) : Prop :=
  ∃ luid, platform.luid (untilNull (utf16NullTerminated device)) = .ok luid ∧
    platform.guid luid = .ok guid

end Setdns.Windows.Interface

import Mathlib.Data.Set.Function
import Setdns.Windows.InterfaceSnapshots

/-!
The interface that a device string stands for. The system is given the UTF-16 units
of the string and reads them up to the first zero. So a device with a null character
stands for the interface whose name is what comes before that character, and every
other device for the interface of exactly that name. Where the system has no function
that sets an interface, none is set and no failure is reported.
-/

namespace Setdns.Windows.Interface

open Text Effects Effects.Program Effects.Registry Effects.NetSettings
open Nrpt (bracedGuid Machine)

/-- What the system reads of a device string. -/
def addressed (device : String) : List UInt16 := untilNull (utf16NullTerminated (bytes device))

/-- The interface has exactly this name. -/
def Named (platform : Platform) (device : String) (guid : Guid) : Prop :=
  ∃ luid, platform.luid (encodeUtf16 device) = .ok luid ∧ platform.guid luid = .ok guid

/-- Only name servers of the interface with this name have changed, and a handle means that there
is such an interface. -/
structure Confined (platform : Platform) (device : String) (servers : List IpAddr)
    (r : Except InterfaceError (Option InterfaceDns)) (s t : Machine) : Prop where
  named : ∀ handle, r = .ok (some handle) → ∃ guid, Named platform device guid
  changed : ∀ i, view t i ≠ view s i →
    ∃ guid family, Named platform device guid ∧ Serves servers family ∧ i = nameServers guid family

/-- The interface with this name is set, unless the application fails. -/
inductive Outcome (platform : Platform) (device : String) (servers : List IpAddr) (s : Machine) :
    Except InterfaceError (Option InterfaceDns) → Machine → Prop
  | failed {t : Machine} (e : InterfaceError) : Outcome platform device servers s (.error e) t
  | set {t : Machine} {guid : Guid} (handle : InterfaceDns) (named : Named platform device guid)
      (written : view t = Snapshots.overlay (new guid servers) (view s)) :
      Outcome platform device servers s (.ok (some handle)) t

/-- The devices address exactly the interfaces that they name, whatever fails. -/
structure Exact (platform : Platform) (devices : Set String) : Prop where
  decoded : ∀ device ∈ devices, decodeUtf16 (addressed device) = some device
  distinct : Set.InjOn addressed devices
  confined : ∀ device ∈ devices, ∀ order servers s r t,
    Ends (faulty order platform) (apply (bytes device) servers).run s r t →
      Confined platform device servers r s t
  outcome : ∀ device ∈ devices, ∀ order servers s r t,
    Ends (calm order platform) (apply (bytes device) servers).run s r t →
      Outcome platform device servers s r t

variable {order : Enumeration} {platform : Platform} {device : String} {servers : List IpAddr}
  {s t : Machine} {r : Except InterfaceError (Option InterfaceDns)}

theorem addressed_eq (device : String) : addressed device = encodeUtf16 (beforeNull device) := by
  rw [addressed, utf16NullTerminated, text_bytes, untilNull_encodeUtf16]

theorem addressed_of_free (free : '\x00' ∉ device.toList) :
    addressed device = encodeUtf16 device := by
  rw [addressed_eq, (beforeNull_eq_iff device).mpr free]

theorem decode_addressed_iff (device : String) :
    decodeUtf16 (addressed device) = some device ↔ '\x00' ∉ device.toList := by
  rw [addressed_eq, decodeUtf16_encodeUtf16, Option.some.injEq, beforeNull_eq_iff]

theorem named_of_free (free : '\x00' ∉ device.toList) {guid : Guid}
    (named : Names platform (bytes device) guid) : Named platform device guid := by
  obtain ⟨luid, resolved, converted⟩ := named
  have resolved : platform.luid (addressed device) = .ok luid := resolved
  rw [addressed_of_free free] at resolved
  exact ⟨luid, resolved, converted⟩

theorem confined_of_free (free : '\x00' ∉ device.toList)
    (run : Ends (faulty order platform) (apply (bytes device) servers).run s r t) :
    Confined platform device servers r s t := by
  constructor
  · rintro handle rfl
    have named : Safe (faulty order platform) (fun _ => True)
        (fun r _ => ∀ handle, r = .ok (some handle) → ∃ guid, Named platform device guid)
        (apply (bytes device) servers).run s := by
      refine apply_safe (fun _ _ _ _ a => a) (by simp) (by simp) fun guid snapshots _ named _ => ?_
      refine safe_iff.mpr ⟨fun _ _ => trivial, fun _ _ _ _ _ => ?_⟩
      exact ⟨guid, named_of_free free named⟩
    exact named.ends run handle rfl
  · intro i differs
    by_contra outside
    refine differs ((apply_frame fun guid family named serves here => ?_).ends run).1
    exact outside ⟨guid, family, named_of_free free named, serves, here⟩

/-- Without faults the function is found where the system has it. -/
theorem loadIphlpapi_missing
    (run : Ends (calm order platform) loadIphlpapi.run s (.ok false) t) :
    platform.symbol (bytes "SetInterfaceDnsSettings") = false := by
  have found : Safe (calm order platform) (fun _ => True)
      (fun r _ => r = .ok false → platform.symbol (bytes "SetInterfaceDnsSettings") = false)
      loadIphlpapi.run s := by
    refine ask_spec fun direct s₁ a => ?_
    obtain ⟨rfl, -⟩ := Prod.mk.inj a
    refine ask_spec fun symbol s₂ a => ⟨trivial, fun no => ?_⟩
    obtain ⟨rfl, -⟩ := Prod.mk.inj a
    cases has : platform.symbol (bytes "SetInterfaceDnsSettings") with
    | false => rfl
    | true =>
        rw [has] at no
        cases no
  exact found.ends run rfl

theorem outcome_of_free (free : '\x00' ∉ device.toList)
    (has : platform.symbol (bytes "SetInterfaceDnsSettings") = true)
    (run : Ends (calm order platform) (apply (bytes device) servers).run s r t) :
    Outcome platform device servers s r t := by
  refine Safe.ends (apply_safe (Q := fun r t => Outcome platform device servers s r t)
    (fun _ _ _ _ => faulty_of_calm) .failed (fun run => ?_) fun guid snapshots _ named _ => ?_) run
  · exact absurd (loadIphlpapi_missing run) (by simp [has])
  · refine Safe.lift ((setDns_spec _ _ s).post ?_)
    rintro (error | _) t - written
    · exact Safe.lift ((safe_calm (restore_spec snapshots t)).post
        fun _ _ _ _ => ⟨trivial, .failed error⟩)
    · exact ⟨trivial, .set _ (named_of_free free named) (written rfl)⟩

/-- Without the function an application returns no handle and no error. -/
theorem apply_unavailable (absent : platform.symbol (bytes "SetInterfaceDnsSettings") = false)
    (order : Enumeration) (device : Bytes) (servers : List IpAddr) (s : Machine) :
    Ends (calm order platform) (apply device servers).run s (.ok none) s := by
  have refused : NetSettings.perform platform bracedGuid s
      (.symbol (bytes "SetInterfaceDnsSettings")) = (.error 127, s) := by
    simp [NetSettings.perform, absent]
  have loaded : Ends (calm order platform) loadIphlpapi.run s (.ok false) s := by
    refine Ends.lift (a := .ok ()) (.step rfl (.ret _ _)) ?_
    refine Ends.tryBind (.ret _ _) ?_
    exact Ends.lift (a := .error 127) (.step refused (.ret _ _)) (.ret _ _)
  exact Ends.tryBind loaded (.ret _ _)

/-- Devices address exactly what they name if and only if none has a zero byte and the system has
the function that sets an interface. -/
theorem devices_exact_iff (platform : Platform) (devices : Set String) :
    Exact platform devices ↔ ∀ device ∈ devices, 0 ∉ bytes device ∧
      platform.symbol (bytes "SetInterfaceDnsSettings") = true := by
  simp only [zero_mem_bytes]
  constructor
  · intro exact device mem
    refine ⟨(decode_addressed_iff device).mp (exact.decoded device mem), ?_⟩
    by_contra absent
    have run := apply_unavailable (Bool.eq_false_iff.mpr absent) ⟨id, fun _ => .refl _⟩
      (bytes device) [] fun _ => none
    cases exact.outcome device mem _ _ _ _ _ run
  · intro all
    refine ⟨fun device mem => (decode_addressed_iff device).mpr (all device mem).1, ?_,
      fun device mem _ _ _ _ _ => confined_of_free (all device mem).1,
      fun device mem _ _ _ _ _ => outcome_of_free (all device mem).1 (all device mem).2⟩
    intro device mem device' mem' same
    rw [addressed_of_free (all device mem).1, addressed_of_free (all device' mem').1] at same
    exact encodeUtf16_injective same

section Sample

def sampleDevice : String := "Ethernet\x00 2"

theorem sampleDevice_beforeNull : beforeNull sampleDevice = "Ethernet" := by decide

/-- The device passes the validation, and addresses the interface of another name, whatever the
system can do. -/
theorem null_device_addresses_another :
    (∀ parse, ((⟨bytes "vpn", [.v4 ⟨1, 1, 1, 1⟩], [], some sampleDevice⟩ : Config).normalize
      parse).map NormalizedConfig.device = .ok (some sampleDevice)) ∧
    decodeUtf16 (addressed sampleDevice) = some "Ethernet" ∧
    addressed sampleDevice = addressed "Ethernet" ∧
    ∀ platform, ¬ Exact platform {sampleDevice} := by
  have short : addressed sampleDevice = encodeUtf16 "Ethernet" := by
    rw [addressed_eq, sampleDevice_beforeNull]
  refine ⟨fun parse => rfl, ?_, ?_, fun platform exact => ?_⟩
  · rw [short, decodeUtf16_encodeUtf16]
  · rw [short, addressed_of_free (by decide)]
  · have decoded := exact.decoded sampleDevice rfl
    rw [short, decodeUtf16_encodeUtf16] at decoded
    exact absurd (Option.some.inj decoded) (by decide)

end Sample

end Setdns.Windows.Interface

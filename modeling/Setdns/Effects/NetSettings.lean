import Setdns.Effects.Registry
import Setdns.Text.Utf16

/-!
The network settings of an operating system that keeps them in a registry. Each
interface has one key for each address family, named by the spelling of its
identifier, and setting its name servers writes the value `NameServer` there. The
table of interfaces never changes here.

A value of a registry key can be removed as well.

In the `calm` world no call fails. In the `faulty` world any call may fail, and
setting the name servers of a family may change that value of the interface in any
way, whether it fails or not.
-/

namespace Effects.NetSettings

open Text Effects.Registry

def ipv4Base : Bytes := bytes "SYSTEM\\CurrentControlSet\\Services\\Tcpip\\Parameters\\Interfaces"
def ipv6Base : Bytes := bytes "SYSTEM\\CurrentControlSet\\Services\\Tcpip6\\Parameters\\Interfaces"
def nameServer : Bytes := bytes "NameServer"

abbrev Code : Type := UInt32
abbrev NO_ERROR : Code := 0

def DNS_SETTING_IPV6 : UInt64 := 1
def DNS_SETTING_NAMESERVER : UInt64 := 2

inductive NetCall where
  | loadLibrary (name : Bytes) (system32 : Bool)
  | symbol (name : Bytes)
  | aliasToLuid (name : List UInt16)
  | luidToGuid (luid : UInt64)
  | setInterfaceDnsSettings (guid : Guid) (flags : UInt64) (nameservers : List UInt16)
  | removeValue (path : KeyPath) (name : Bytes)
  | status (command : List Bytes)
  deriving DecidableEq

abbrev NetCall.Ret : NetCall → Type
  | .loadLibrary _ _ => Except Code Unit
  | .symbol _ => Except Code Unit
  | .aliasToLuid _ => Except Code UInt64
  | .luidToGuid _ => Except Code Guid
  | .setInterfaceDnsSettings _ _ _ => Code
  | .removeValue _ _ => Except RegError Unit
  | .status _ => Except Code Bool

abbrev Io (α : Type) : Type := Program NetCall NetCall.Ret α

namespace Net

abbrev loadLibrary (name : Bytes) (system32 : Bool) : Io (Except Code Unit) :=
  .call (.loadLibrary name system32) .ret
abbrev symbol (name : Bytes) : Io (Except Code Unit) := .call (.symbol name) .ret
abbrev aliasToLuid (name : List UInt16) : Io (Except Code UInt64) :=
  .call (.aliasToLuid name) .ret
abbrev luidToGuid (luid : UInt64) : Io (Except Code Guid) := .call (.luidToGuid luid) .ret
abbrev setInterfaceDnsSettings (guid : Guid) (flags : UInt64) (nameservers : List UInt16) :
    Io Code :=
  .call (.setInterfaceDnsSettings guid flags nameservers) .ret
abbrev removeValue (path : KeyPath) (name : Bytes) : Io (Except RegError Unit) :=
  .call (.removeValue path name) .ret
abbrev status (command : List Bytes) : Io (Except Code Bool) := .call (.status command) .ret

end Net

/-- The libraries and interfaces of a machine. An interface is found by the UTF-16 units of its
name. -/
structure Platform where
  symbol : Bytes → Bool
  luid : List UInt16 → Except Code UInt64
  guid : UInt64 → Except Code Guid

def failure (e : Code) : (c : NetCall) → NetCall.Ret c
  | .loadLibrary _ _ => .error e
  | .symbol _ => .error e
  | .aliasToLuid _ => .error e
  | .luidToGuid _ => .error e
  | .setInterfaceDnsSettings _ _ _ => e
  | .removeValue _ _ => .error e.toNat
  | .status _ => .error e

section Hive

variable {fold : Bytes → Bytes}

/-- The key with one value set or removed. -/
def assign {folded : Bytes} (key : KeyAt fold folded) (name : Bytes) (data : Option Value) :
    KeyAt fold folded :=
  ⟨key.name, key.spelled, Function.update key.values name data⟩

def write (s : Hive fold) (path : KeyPath) (name : Bytes) (data : Option Value) :
    Except RegError Unit × Hive fold :=
  (s.find path.base (fold path.name)).elim (.error ERROR_KEY_DELETED, s) fun key =>
    (.ok (), s.put path.base (assign key name data))

/-- The text that a reader of a null-terminated one takes. -/
def fromWide (units : List UInt16) : Bytes :=
  ((decodeUtf16 (untilNull units)).map bytes).getD []

def familyBase (flags : UInt64) : Bytes :=
  if flags &&& DNS_SETTING_IPV6 = 0 then ipv4Base else ipv6Base

/-- The answer of a call that meets no fault. -/
def perform (platform : Platform) (spell : Guid → Bytes) (s : Hive fold) :
    (c : NetCall) → NetCall.Ret c × Hive fold
  | .loadLibrary _ _ => (.ok (), s)
  | .symbol name => (if platform.symbol name then .ok () else .error 127, s)
  | .aliasToLuid name => (platform.luid (untilNull name), s)
  | .luidToGuid luid => (platform.guid luid, s)
  | .setInterfaceDnsSettings guid flags nameservers =>
      match write s ⟨familyBase flags, spell guid⟩ nameServer
          (some (.string (fromWide nameservers))) with
      | (.ok (), s') => (NO_ERROR, s')
      | (.error _, s') => (2, s')
  | .removeValue path name =>
      match s.value path name with
      | some _ => write s path name none
      | none => (.error ERROR_FILE_NOT_FOUND, s)
  | .status _ => (.ok true, s)

/-- No call fails. -/
abbrev calm (platform : Platform) (spell : Guid → Bytes) :
    World NetCall NetCall.Ret (Hive fold) :=
  World.of (perform platform spell)

/-- Setting the name servers may leave any value behind, whatever it answers. -/
def Disturbs (spell : Guid → Bytes) (s : Hive fold) : NetCall → Hive fold → Prop
  | .setInterfaceDnsSettings guid flags _, s' =>
      ∃ data, s' = (write s ⟨familyBase flags, spell guid⟩ nameServer data).2
  | _, _ => False

def faulty (platform : Platform) (spell : Guid → Bytes) :
    World NetCall NetCall.Ret (Hive fold) where
  answers s c r s' := (calm platform spell).answers s c r s' ∨ (∃ e, r = failure e c ∧ s' = s) ∨
    Disturbs spell s c s'
  torn s _ s' := s' = s

end Hive

end Effects.NetSettings

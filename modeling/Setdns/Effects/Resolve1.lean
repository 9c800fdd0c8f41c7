import Mathlib.Logic.Function.Basic
import Setdns.Effects.World
import Setdns.Text.Bytes

/-!
The name resolution manager on the system bus, and the kernel's table of network
interfaces. The manager keeps three settings for each link. Each `SetLink` call
replaces one of them, `RevertLink` resets all of them to their defaults.

`perform` is the answer of a call that meets no fault. In the `planned` world
exactly the calls of a plan fail besides, in the `faulty` world any call may. A
call that fails changes nothing.
-/

namespace Effects.Resolve1

open Text

abbrev Errno : Type := Nat

abbrev ENODEV : Errno := 19

inductive BusError where
  | noSuchLink
  | failed (errno : Errno)
  deriving DecidableEq, Repr

/-- The runtime settings of a link. A default route that was never set is up to the
manager. -/
@[ext]
structure Link where
  dns : List (Int32 × List UInt8)
  domains : List (Bytes × Bool)
  defaultRoute : Option Bool
  deriving DecidableEq, Repr

def Link.default : Link := ⟨[], [], none⟩

structure Machine where
  hasOwner : Bytes → Bool
  index : Bytes → UInt32
  links : Int32 → Option Link

inductive BusCall where
  | system
  | newProxy (destination path interface : Bytes)
  | nameHasOwner (name : Bytes)
  | ifNameToIndex (name : Bytes)
  | setLinkDns (ifindex : Int32) (addresses : List (Int32 × List UInt8))
  | setLinkDomains (ifindex : Int32) (domains : List (Bytes × Bool))
  | setLinkDefaultRoute (ifindex : Int32) (enable : Bool)
  | revertLink (ifindex : Int32)
  | flushCaches
  deriving DecidableEq

/-- An index of zero comes with an error number. -/
abbrev BusCall.Ret : BusCall → Type
  | .nameHasOwner _ => Except BusError Bool
  | .ifNameToIndex _ => UInt32 × Errno
  | _ => Except BusError Unit

abbrev Io (α : Type) : Type := Program BusCall BusCall.Ret α

namespace Bus

abbrev system : Io (Except BusError Unit) := .call .system .ret
abbrev newProxy (destination path interface : Bytes) : Io (Except BusError Unit) :=
  .call (.newProxy destination path interface) .ret
abbrev nameHasOwner (name : Bytes) : Io (Except BusError Bool) := .call (.nameHasOwner name) .ret
abbrev ifNameToIndex (name : Bytes) : Io (UInt32 × Errno) := .call (.ifNameToIndex name) .ret
abbrev setLinkDns (ifindex : Int32) (addresses : List (Int32 × List UInt8)) :
    Io (Except BusError Unit) :=
  .call (.setLinkDns ifindex addresses) .ret
abbrev setLinkDomains (ifindex : Int32) (domains : List (Bytes × Bool)) :
    Io (Except BusError Unit) :=
  .call (.setLinkDomains ifindex domains) .ret
abbrev setLinkDefaultRoute (ifindex : Int32) (enable : Bool) : Io (Except BusError Unit) :=
  .call (.setLinkDefaultRoute ifindex enable) .ret
abbrev revertLink (ifindex : Int32) : Io (Except BusError Unit) := .call (.revertLink ifindex) .ret
abbrev flushCaches : Io (Except BusError Unit) := .call .flushCaches .ret

end Bus

namespace Machine

def set (s : Machine) (ifindex : Int32) (link : Link) : Machine :=
  { s with links := Function.update s.links ifindex (some link) }

/-- Change the settings of a link that is there. -/
def change (s : Machine) (ifindex : Int32) (f : Link → Link) : Except BusError Unit × Machine :=
  match s.links ifindex with
  | some link => (.ok (), s.set ifindex (f link))
  | none => (.error .noSuchLink, s)

def perform (s : Machine) : (c : BusCall) → BusCall.Ret c × Machine
  | .system => (.ok (), s)
  | .newProxy _ _ _ => (.ok (), s)
  | .nameHasOwner name => (.ok (s.hasOwner name), s)
  | .ifNameToIndex name => ((s.index name, ENODEV), s)
  | .setLinkDns ifindex addresses => s.change ifindex fun link => { link with dns := addresses }
  | .setLinkDomains ifindex domains => s.change ifindex fun link => { link with domains := domains }
  | .setLinkDefaultRoute ifindex enable =>
      s.change ifindex fun link => { link with defaultRoute := some enable }
  | .revertLink ifindex => s.change ifindex fun _ => .default
  | .flushCaches => (.ok (), s)

end Machine

def failure (errno : Errno) : (c : BusCall) → BusCall.Ret c
  | .system => .error (.failed errno)
  | .newProxy _ _ _ => .error (.failed errno)
  | .nameHasOwner _ => .error (.failed errno)
  | .ifNameToIndex _ => (0, errno)
  | .setLinkDns _ _ => .error (.failed errno)
  | .setLinkDomains _ _ => .error (.failed errno)
  | .setLinkDefaultRoute _ _ => .error (.failed errno)
  | .revertLink _ => .error (.failed errno)
  | .flushCaches => .error (.failed errno)

/-- A killed call has happened or has not. -/
def Torn (s : Machine) (c : BusCall) (s' : Machine) : Prop := s' = s ∨ s' = (s.perform c).2

def planned (fails : BusCall → Prop) : World BusCall BusCall.Ret Machine where
  answers s c r s' :=
    (fails c ∧ (∃ errno, r = failure errno c) ∧ s' = s) ∨ (¬ fails c ∧ s.perform c = (r, s'))
  torn := Torn

def faulty : World BusCall BusCall.Ret Machine where
  answers s c r s' := s.perform c = (r, s') ∨ (∃ errno, r = failure errno c) ∧ s' = s
  torn := Torn

theorem faulty_total : faulty.Total := fun _ _ => ⟨_, _, .inl rfl⟩

end Effects.Resolve1

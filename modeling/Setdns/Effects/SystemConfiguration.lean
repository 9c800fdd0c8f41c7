import Mathlib.Logic.Function.Basic
import Setdns.Effects.World
import Setdns.Text.Bytes

/-!
The preferences of a network configuration: services in an order, each with a
DNS protocol that may have a configuration. A process works on the copy that it
takes when it opens a session, and commits the copy as a whole. The dynamic store
knows the primary service.
-/

namespace Effects.SystemConfiguration

open Text

inductive Plist where
  | string (text : Bytes)
  | strings (texts : List Bytes)
  | other (encoding : Bytes)
  deriving DecidableEq, Repr

abbrev Dictionary : Type := Bytes → Option Plist

/-- An interface may have no BSD name. -/
structure Interface where
  bsdName : Option Bytes
  deriving DecidableEq, Repr

structure Service where
  id : Option Bytes
  enabled : Bool
  interface : Option Interface
  deriving DecidableEq, Repr

/-- A service may have no DNS protocol, and the protocol no configuration. -/
structure Preferences where
  services : List Service
  order : Option (List Bytes)
  dns : Bytes → Option (Option Dictionary)

inductive StoreValue where
  | dictionary (entries : Dictionary)
  | other

structure Machine where
  stored : Preferences
  session : Preferences
  store : Bytes → Option StoreValue

inductive ScCall where
  | openSession (name : Bytes)
  | currentSet
  | services
  | copyService (id : Bytes)
  | storeGet (name key : Bytes)
  | copyProtocol (service : Bytes)
  | getConfiguration (service : Bytes)
  | setConfiguration (service : Bytes) (configuration : Option Dictionary)
  | lock
  | unlock
  | commitChanges
  | applyChanges
  | refreshInterface (interface : Interface)
  | command (program : Bytes) (args : List Bytes)

/-- A missing object is null, and a call without a result says whether it succeeded. -/
abbrev ScCall.Ret : ScCall → Type
  | .openSession _ => Unit
  | .currentSet => Option (List Bytes)
  | .services => List Service
  | .copyService _ => Option Service
  | .storeGet _ _ => Option StoreValue
  | .getConfiguration _ => Option Dictionary
  | _ => Bool

abbrev Io (α : Type) : Type := Program ScCall ScCall.Ret α

namespace Sc

abbrev openSession (name : Bytes) : Io Unit := .call (.openSession name) .ret
abbrev currentSet : Io (Option (List Bytes)) := .call .currentSet .ret
abbrev services : Io (List Service) := .call .services .ret
abbrev copyService (id : Bytes) : Io (Option Service) := .call (.copyService id) .ret
abbrev storeGet (name key : Bytes) : Io (Option StoreValue) := .call (.storeGet name key) .ret
abbrev copyProtocol (service : Bytes) : Io Bool := .call (.copyProtocol service) .ret
abbrev getConfiguration (service : Bytes) : Io (Option Dictionary) :=
  .call (.getConfiguration service) .ret
abbrev setConfiguration (service : Bytes) (configuration : Option Dictionary) : Io Bool :=
  .call (.setConfiguration service configuration) .ret
abbrev lock : Io Bool := .call .lock .ret
abbrev unlock : Io Bool := .call .unlock .ret
abbrev commitChanges : Io Bool := .call .commitChanges .ret
abbrev applyChanges : Io Bool := .call .applyChanges .ret
abbrev refreshInterface (interface : Interface) : Io Bool :=
  .call (.refreshInterface interface) .ret
abbrev command (program : Bytes) (args : List Bytes) : Io Bool := .call (.command program args) .ret

end Sc

/-- The answer of a call that meets no fault. -/
def Machine.perform (s : Machine) : (c : ScCall) → ScCall.Ret c × Machine
  | .openSession _ => ((), { s with session := s.stored })
  | .currentSet => (s.session.order, s)
  | .services => (s.session.services, s)
  | .copyService id => (s.session.services.find? fun service => service.id = some id, s)
  | .storeGet _ key => (s.store key, s)
  | .copyProtocol service => ((s.session.dns service).isSome, s)
  | .getConfiguration service => ((s.session.dns service).join, s)
  | .setConfiguration service configuration =>
      match s.session.dns service with
      | some _ => (true, { s with session := { s.session with
          dns := Function.update s.session.dns service (some configuration) } })
      | none => (false, s)
  | .lock => (true, s)
  | .unlock => (true, s)
  | .commitChanges => (true, { s with stored := s.session })
  | .applyChanges => (true, s)
  | .refreshInterface _ => (true, s)
  | .command _ _ => (true, s)

/-- The answer of a call that fails. -/
def failure : (c : ScCall) → ScCall.Ret c
  | .openSession _ => ()
  | .currentSet => none
  | .services => []
  | .copyService _ => none
  | .storeGet _ _ => none
  | .copyProtocol _ => false
  | .getConfiguration _ => none
  | .setConfiguration _ _ => false
  | .lock => false
  | .unlock => false
  | .commitChanges => false
  | .applyChanges => false
  | .refreshInterface _ => false
  | .command _ _ => false

/-- No call fails. -/
abbrev calm : World ScCall ScCall.Ret Machine := World.of Machine.perform

end Effects.SystemConfiguration

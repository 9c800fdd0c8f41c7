import Setdns.Config.Config
import Setdns.Effects.Resolve1

/-!
The `systemd-resolved` backend. The settings of a link are replaced one by one
over the system bus, and closing the handle reverts the link. The handle knows
the link and nothing of its earlier settings.
-/

namespace Setdns.Linux.Resolved

open Text Effects Effects.Program Effects.Resolve1

def destination : Bytes := bytes "org.freedesktop.resolve1"
def path : Bytes := bytes "/org/freedesktop/resolve1"
def managerInterface : Bytes := bytes "org.freedesktop.resolve1.Manager"

def AF_INET : Int32 := 2
def AF_INET6 : Int32 := 10

inductive ResolvedError where
  | systemBus (source : BusError)
  | serviceUnavailable (source : BusError)
  | noOwner
  | invalidInterfaceName (interface : Bytes)
  | interfaceIndex (interface : Bytes) (errno : Errno)
  | method (method : Bytes) (source : BusError)
  deriving DecidableEq, Repr

abbrev Result (α : Type) : Type := ExceptT ResolvedError (Program BusCall BusCall.Ret) α

/-- The open connection carries no data of its own. -/
structure Manager where
  deriving DecidableEq, Repr

structure SetDns where
  ifindex : Int32
  deriving DecidableEq, Repr

def connect : Result Manager := do
  mapErr Bus.system .systemBus
  mapErr (Bus.newProxy (bytes "org.freedesktop.DBus") (bytes "/org/freedesktop/DBus")
    (bytes "org.freedesktop.DBus")) .serviceUnavailable
  let hasOwner ← mapErr (Bus.nameHasOwner destination) .serviceUnavailable
  if hasOwner then pure ⟨⟩ else throw .noOwner

def managerProxy : Result Unit :=
  mapErr (Bus.newProxy destination path managerInterface) .serviceUnavailable

def call (method : String) (body : Io (Except BusError Unit)) : Result Unit :=
  mapErr body (.method (bytes method))

def interfaceIndex (interface : Bytes) : Result Int32 :=
  if 0 ∈ interface then throw (.invalidInterfaceName interface)
  else do
    let (index, errno) ← (liftM (Bus.ifNameToIndex interface) : Result (UInt32 × Errno))
    if index = 0 then throw (.interfaceIndex interface errno) else pure index.toInt32

def octets (segment : UInt16) : List UInt8 := [(segment >>> 8).toUInt8, segment.toUInt8]

def dnsServers (servers : List IpAddr) : List (Int32 × List UInt8) :=
  servers.map fun server =>
    match server with
    | .v4 addr => (AF_INET, [addr.a, addr.b, addr.c, addr.d])
    | .v6 addr => (AF_INET6, addr.segments.flatMap octets)

def resolvedDomain (domain : Bytes) : Bytes := domain ++ [dot]

/-- The caller has checked that there is a device. -/
def Manager.apply (_ : Manager) (config : NormalizedConfig) (device : config.device.isSome) :
    Result SetDns := do
  let ifindex ← interfaceIndex (bytes (config.device.get device))
  managerProxy
  call "SetLinkDNS" (Bus.setLinkDns ifindex (dnsServers config.servers))
  (if config.domains.isEmpty then do
      call "SetLinkDomains" (Bus.setLinkDomains ifindex [(bytes ".", true)])
      call "SetLinkDefaultRoute" (Bus.setLinkDefaultRoute ifindex true)
    else do
      call "SetLinkDomains" (Bus.setLinkDomains ifindex
        (config.domains.map fun suffix => (resolvedDomain suffix.domain, true)))
      call "SetLinkDefaultRoute" (Bus.setLinkDefaultRoute ifindex false) : Result Unit)
  call "FlushCaches" Bus.flushCaches
  pure ⟨ifindex⟩

def close (handle : SetDns) : Result Unit := do
  managerProxy
  call "RevertLink" (Bus.revertLink handle.ifindex)
  call "FlushCaches" Bus.flushCaches

example : dnsServers [.v4 ⟨10, 0, 0, 53⟩, .v6 ⟨[0x2001, 0xdb8, 0, 0, 0, 0, 0, 1], rfl⟩] =
    [(2, [10, 0, 0, 53]), (10, [0x20, 1, 0xd, 0xb8, 0, 0, 0, 0, 0, 0, 0, 0, 0, 0, 0, 1])] := by
  decide

end Setdns.Linux.Resolved

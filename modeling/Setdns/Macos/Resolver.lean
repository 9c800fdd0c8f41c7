import Setdns.Config.Config
import Setdns.Effects.Directory

/-!
Split DNS on macOS: one file per domain in `/etc/resolver`. The first line of a
file names the owner that wrote it, and that line is all the ownership there is.
A file is written beside its path first and renamed onto it.
-/

namespace Setdns.Macos.Resolver

open Text Effects Effects.Program Effects.Directory
open Effects.Files (IoError)

def resolverDir : Bytes := bytes "/etc/resolver"
def maxns : Nat := 3
def tempSuffix : Bytes := bytes ".setdns.tmp"

structure SetDns where
  owner : Bytes
  domains : List Bytes
  deriving DecidableEq, Repr

inductive ResolverError where
  | tooManyNameservers (count max : Nat)
  | io (operation : String) (path : Bytes) (source : IoError)
  | notOwned (path owner : Bytes)
  deriving DecidableEq, Repr

abbrev Result (α : Type) : Type := ExceptT ResolverError (Program DirCall DirCall.Ret) α

def mapIo (operation : String) (path : Bytes) (source : IoError) : ResolverError :=
  .io operation path source

/-- An absolute path replaces the one it is joined to. -/
def join (base path : Bytes) : Bytes :=
  if [slash] <+: path then path
  else if base = [] ∨ [slash] <:+ base then base ++ path
  else base ++ slash :: path

def resolverPath (domain : Bytes) : Bytes := join resolverDir domain

def ownerHeader (owner : Bytes) : Bytes := bytes "# Added by setdns (" ++ owner ++ bytes ")"

def hasOwnerHeader (content owner : Bytes) : Bool :=
  (lines content).head? = some (ownerHeader owner)

def renderResolver (owner domain : Bytes) (servers : List IpAddr) : Bytes :=
  ownerHeader owner ++ [lf] ++ bytes "domain " ++ domain ++ [lf] ++
    servers.flatMap (fun server => bytes "nameserver " ++ server.display ++ [lf])

def ensureAbsentOrOwned (path owner : Bytes) : Result Unit := do
  match ← Dir.readToString path with
  | .error source => if source.isNotFound then pure () else throw (mapIo "read" path source)
  | .ok content =>
      if hasOwnerHeader content owner then pure () else throw (.notOwned path owner)

def writeResolver (owner domain content : Bytes) : Result Unit := do
  let path := resolverPath domain
  ensureAbsentOrOwned path owner
  let tempPath := resolverPath (domain ++ tempSuffix)
  ensureAbsentOrOwned tempPath owner
  let file ← mapErr (Dir.create tempPath) (mapIo "create" tempPath)
  mapErr (Dir.writeAll file content) (mapIo "write" tempPath)
  mapErr (Dir.syncAll file) (mapIo "sync" tempPath)
  mapErr (Dir.rename tempPath path) (mapIo "rename" path)

def removeOwnedFile (path owner : Bytes) : Result Unit := do
  match ← Dir.readToString path with
  | .error source => if source.isNotFound then pure () else throw (mapIo "read" path source)
  | .ok content =>
      if hasOwnerHeader content owner then mapErr (Dir.removeFile path) (mapIo "remove" path)
      else throw (.notOwned path owner)

def removeIfOwnerMarked (path owner : Bytes) : Result Unit := do
  match ← Dir.readToString path with
  | .error source =>
      if source.isNotFound then pure ()
      else if source = .invalidData then pure ()
      else throw (mapIo "read" path source)
  | .ok content =>
      if hasOwnerHeader content owner then mapErr (Dir.removeFile path) (mapIo "remove" path)
      else pure ()

def cleanupEntries (owner : Bytes) : List (Except IoError Bytes) → Result Unit
  | [] => pure ()
  | .error source :: _ => throw (mapIo "read" resolverDir source)
  | .ok name :: entries => do
      let path := join resolverDir name
      -- temporary files get no other treatment than the rest
      if Utf8 name ∧ tempSuffix <:+ name then removeIfOwnerMarked path owner
      else removeIfOwnerMarked path owner
      cleanupEntries owner entries

def cleanupOwner (owner : Bytes) : Result Unit := do
  match ← Dir.readDir resolverDir with
  | .error source => if source.isNotFound then pure () else throw (mapIo "read" resolverDir source)
  | .ok entries => cleanupEntries owner entries

/-- Failures are logged and otherwise ignored. -/
def flushDnsCache : Program DirCall DirCall.Ret Unit := do
  let _ ← Dir.status [bytes "dscacheutil", bytes "-flushcache"]
  let _ ← Dir.status [bytes "killall", bytes "-HUP", bytes "mDNSResponder"]
  pure ()

def writeDomains (owner : Bytes) (servers : List IpAddr) : List DomainSuffix → Result Unit
  | [] => pure ()
  | suffix :: suffixes => do
      writeResolver owner suffix.domain (renderResolver owner suffix.domain servers)
      writeDomains owner servers suffixes

def apply (config : NormalizedConfig) : Result SetDns :=
  if maxns < config.servers.length then
    throw (.tooManyNameservers config.servers.length maxns)
  else do
    cleanupOwner config.owner
    mapErr (Dir.createDirAll resolverDir) (mapIo "create" resolverDir)
    writeDomains config.owner config.servers config.domains
    flushDnsCache
    pure ⟨config.owner, config.domains.map DomainSuffix.domain⟩

def keepFirst (first : Option ResolverError) : Except ResolverError Unit → Option ResolverError
  | .ok () => first
  | .error e => some (first.getD e)

def removeDomains (owner : Bytes) (first : Option ResolverError) :
    List Bytes → Program DirCall DirCall.Ret (Option ResolverError)
  | [] => pure first
  | domain :: domains => do
      let removed ← (removeOwnedFile (resolverPath domain) owner).run
      removeDomains owner (keepFirst first removed) domains

def close (handle : SetDns) : Result Unit := do
  let first ← removeDomains handle.owner none handle.domains
  let cleaned ← (liftM (cleanupOwner handle.owner).run : Result (Except ResolverError Unit))
  flushDnsCache
  match keepFirst first cleaned with
  | some e => throw e
  | none => pure ()

/-- The text of a file of the owner. -/
def Marked (owner content : Bytes) : Prop := Utf8 content ∧ hasOwnerHeader content owner = true

instance (owner content : Bytes) : Decidable (Marked owner content) :=
  inferInstanceAs (Decidable (_ ∧ _))

theorem ownerHeader_injective : Function.Injective ownerHeader := by
  intro a b h
  exact List.append_cancel_left (List.append_cancel_right h)

theorem marked_unique {a b content : Bytes} (ha : Marked a content) (hb : Marked b content) :
    a = b := by
  have both := ha.2
  simp only [hasOwnerHeader, decide_eq_true_eq] at both
  have other := hb.2
  simp only [hasOwnerHeader, decide_eq_true_eq, both, Option.some.injEq] at other
  exact ownerHeader_injective other

section Sample

/-! A machine for the concrete runs of the other modules: the directory holds a
file left behind by owner `tests` and a file of somebody else. -/

def sampleSetup : Program DirCall DirCall.Ret Unit := do
  let _ ← Dir.createDirAll resolverDir
  let _ ← Dir.create (resolverPath (bytes "old"))
  let _ ← Dir.writeAll 0 (bytes "# Added by setdns (tests)\n")
  let _ ← Dir.create (resolverPath (bytes "home"))
  let _ ← Dir.writeAll 1 (bytes "nameserver 192.168.1.1\n")
  pure ()

def sampleDisk : Disk := (exec (Disk.perform id) sampleSetup Disk.empty).2

def sampleConfig (domains : List String) : Config :=
  ⟨bytes "tests", [.v4 ⟨10, 0, 0, 53⟩], domains.map bytes, none⟩

def sampleNormalized (domains : List String) : NormalizedConfig :=
  ⟨bytes "tests", [.v4 ⟨10, 0, 0, 53⟩], domains.map fun domain => ⟨bytes domain, false⟩, none⟩

end Sample

end Setdns.Macos.Resolver

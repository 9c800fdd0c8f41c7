import Setdns.Config.Config
import Setdns.Effects.Files

/-!
The `/etc/resolv.conf` backend. The original file is copied to a backup, a
generated file is written aside and renamed over it, and closing the handle
renames the backup back. The first line of the generated file names its owner;
that line and the existence of the backup are all the state there is.
-/

namespace Setdns.Linux.ResolvConf

open Text Effects Effects.Program Effects.Files

def resolvConf : Bytes := bytes "/etc/resolv.conf"
def backup : Bytes := bytes "/etc/resolv.conf.setdns.bak"
def temp : Bytes := bytes "/etc/resolv.conf.setdns.tmp"
def etc : Bytes := bytes "/etc"
def headerPrefix : Bytes := bytes "# setdns owner: "

inductive ResolvConfError where
  | unsupportedSplitDns
  | staleBackup
  | missingBackup (owner : Bytes)
  | trampled (owner : Bytes)
  | io (operation : String) (path : Bytes) (source : IoError)
  deriving DecidableEq, Repr

structure SetDns where
  owner : Bytes
  deriving DecidableEq, Repr

abbrev Result (α : Type) : Type := ExceptT ResolvConfError (Program FsCall FsCall.Ret) α

def mapIo (operation : String) (path : Bytes) (source : IoError) : ResolvConfError :=
  .io operation path source

def ownerHeader (owner : Bytes) : Bytes := headerPrefix ++ owner ++ [lf]

def renderResolvConf (owner : Bytes) (servers : List IpAddr) : Bytes :=
  ownerHeader owner ++
    bytes "# This file was written by setdns and will be restored when the handle closes.\n" ++
    servers.flatMap (fun server => bytes "nameserver " ++ server.display ++ [lf])

def writeTemp (content : Bytes) : Result Unit := do
  mapErr (Fs.create temp) (mapIo "create" temp)
  mapErr (Fs.writeAll temp content) (mapIo "write" temp)
  mapErr (Fs.syncAll temp) (mapIo "fsync" temp)

def copyWithFsync (src dst : Bytes) : Result Unit := do
  mapErr (Fs.copy src dst) (mapIo "copy" dst)
  mapErr (Fs.openFile dst) (mapIo "open" dst)
  mapErr (Fs.syncAll dst) (mapIo "fsync" dst)

def rename (src dst : Bytes) : Result Unit := do
  match ← Fs.rename src dst with
  | .ok () => pure ()
  | .error source =>
      if source.rawOsError = some EBUSY then do
        copyWithFsync src dst
        mapErr (Fs.removeFile src) (mapIo "remove" src)
      else throw (mapIo "rename" dst source)

def syncDir (path : Bytes) : Result Unit := do
  mapErr (Fs.openFile path) (mapIo "open" path)
  mapErr (Fs.syncAll path) (mapIo "fsync" path)

def readToString (path : Bytes) : Result Bytes :=
  mapErr (Fs.readToString path) (mapIo "read" path)

/-- Rename the backup over the generated file, the last step of both the cleanup
and the close. -/
def restore : Result Unit := do
  rename backup resolvConf
  syncDir etc

def cleanupResidual (owner : Bytes) : Result Unit := do
  match ← Fs.readToString resolvConf with
  | .error source =>
      if source.isNotFound then pure () else throw (mapIo "read" resolvConf source)
  | .ok current =>
      if ownerHeader owner <+: current then do
        if ← Fs.pathExists backup then restore
        else throw (.missingBackup owner)
      else pure ()

def apply (config : NormalizedConfig) : Result SetDns :=
  if config.domains ≠ [] then throw .unsupportedSplitDns
  else do
    cleanupResidual config.owner
    if ← Fs.pathExists backup then throw .staleBackup
    else do
      copyWithFsync resolvConf backup
      writeTemp (renderResolvConf config.owner config.servers)
      rename temp resolvConf
      syncDir etc
      pure ⟨config.owner⟩

def close (handle : SetDns) : Result Unit := do
  let current ← readToString resolvConf
  if ownerHeader handle.owner <+: current then do
    if ← Fs.pathExists backup then restore
    else throw (.missingBackup handle.owner)
  else throw (.trampled handle.owner)

theorem backup_ne_resolvConf : backup ≠ resolvConf := by decide
theorem temp_ne_resolvConf : temp ≠ resolvConf := by decide
theorem temp_ne_backup : temp ≠ backup := by decide
theorem etc_ne_resolvConf : etc ≠ resolvConf := by decide
theorem etc_ne_backup : etc ≠ backup := by decide
theorem etc_ne_temp : etc ≠ temp := by decide

/-- The file starts with the header of some owner that validation accepts. -/
def HasOwnerHeader (content : Bytes) : Prop :=
  ∃ owner, ValidOwner owner ∧ ownerHeader owner <+: content

def MarkedFor (owner : Bytes) (fs : Fs) : Prop :=
  ∃ content, fs resolvConf = some (.file content) ∧ ownerHeader owner <+: content

theorem ownerHeader_prefix_render (owner : Bytes) (servers : List IpAddr) :
    ownerHeader owner <+: renderResolvConf owner servers := by
  rw [renderResolvConf, List.append_assoc]
  exact List.prefix_append _ _

/-- Headers end at the first line feed, so two owners' headers never agree. -/
theorem ownerHeader_prefix_unique {a b content : Bytes} (ha : lf ∉ a) (hb : lf ∉ b)
    (pa : ownerHeader a <+: content) (pb : ownerHeader b <+: content) : a = b := by
  have line : ∀ (a b : Bytes), lf ∉ a → lf ∉ b → ownerHeader a <+: ownerHeader b → a = b := by
    intro a b ha hb h
    rw [ownerHeader, ownerHeader, List.append_assoc, List.append_assoc,
      List.prefix_append_right_inj] at h
    obtain ⟨rest, h⟩ := h
    have split := congrArg (List.splitOn lf) h
    rw [List.append_assoc, List.singleton_append,
      List.splitOn_append_cons_self_of_not_mem ha,
      List.splitOn_append_cons_self_of_not_mem hb] at split
    exact (List.cons.inj split).1
  rcases List.prefix_or_prefix_of_prefix pa pb with h | h
  · exact line a b ha hb h
  · exact (line b a hb ha h).symm

theorem ascii_render {owner : Bytes} (h : Ascii owner) (servers : List IpAddr) :
    Ascii (renderResolvConf owner servers) := by
  have texts : Ascii headerPrefix ∧ Ascii [lf] ∧ Ascii (bytes
      "# This file was written by setdns and will be restored when the handle closes.\n") := by
    decide
  simp only [renderResolvConf, ownerHeader, ascii_append]
  exact ⟨⟨⟨⟨texts.1, h⟩, texts.2.1⟩, texts.2.2⟩, ascii_nameservers servers⟩

/-- Two comment lines, and a line for each server. -/
theorem lines_renderResolvConf {owner : Bytes} (valid : ValidOwner owner)
    (servers : List IpAddr) :
    lines (renderResolvConf owner servers) = (headerPrefix ++ owner) :: bytes
      "# This file was written by setdns and will be restored when the handle closes." ::
      servers.map fun server => bytes "nameserver " ++ server.display := by
  have texts : ∀ x ∈ [lf, cr], x ∉ headerPrefix ∧ isOwnerByte x = false ∧ x ∉ bytes
      "# This file was written by setdns and will be restored when the handle closes." := by decide
  have header : ∀ x ∈ [lf, cr], x ∉ headerPrefix ++ owner := by
    intro x mem
    rw [List.mem_append, not_or]
    exact ⟨(texts x mem).1, fun own => by simpa [(texts x mem).2.1] using valid.isOwnerByte x own⟩
  have note : bytes
      "# This file was written by setdns and will be restored when the handle closes.\n" = bytes
      "# This file was written by setdns and will be restored when the handle closes." ++ [lf] := by
    decide
  have flat : renderResolvConf owner servers = (headerPrefix ++ owner) ++ lf :: (bytes
      "# This file was written by setdns and will be restored when the handle closes." ++
      lf :: servers.flatMap fun server => bytes "nameserver " ++ server.display ++ [lf]) := by
    simp [renderResolvConf, ownerHeader, note]
  rw [flat, lines_cons_of_not_cr _ _ (header lf (by simp)) (header cr (by simp)),
    lines_cons_of_not_cr _ _ (texts lf (by simp)).2.2 (texts cr (by simp)).2.2, lines_servers]

section Sample

/-! A machine and a configuration for the concrete runs of the other modules. -/

def sampleContent : Bytes := bytes "nameserver 1.1.1.1\n"

def sampleFs : Fs := fun path =>
  if path = resolvConf then some (.file sampleContent)
  else if path = etc then some .dir
  else none

def sampleConfig (owner : String) : NormalizedConfig :=
  ⟨bytes owner, [.v4 ⟨10, 0, 0, 53⟩], [], none⟩

theorem sample_unowned : ¬ HasOwnerHeader sampleContent := by
  rintro ⟨owner, _, header⟩
  have first : headerPrefix <+: sampleContent :=
    ((List.prefix_append _ _).trans (List.prefix_append _ _)).trans header
  exact absurd first (by decide)

theorem sample_foreign : ¬ ownerHeader (sampleConfig "a").owner <+: sampleContent :=
  fun marked => sample_unowned ⟨_, by decide, marked⟩

/-- The state after owner `a` has applied its configuration. -/
def sampleApplied : Fs := (exec (Files.perform id false) (apply (sampleConfig "a")).run sampleFs).2

end Sample

end Setdns.Linux.ResolvConf

import Setdns.Linux.ResolvConf

/-!
What an apply that fails leaves behind. Nothing is undone: once the backup has
been created, every failure leaves it there. The next apply finds it and is
refused, unless the file has come to carry the header of the owner that applies.
-/

namespace Setdns.Linux.ResolvConf

open Text Effects Effects.Program Effects.Files

/-- The resolver file is as before, and there is no backup. -/
structure Atomic (fs fs' : Fs) : Prop where
  content : fs' resolvConf = fs resolvConf
  noBackup : fs' backup = none

/-- The part of the call that fails. The copy can break off with part of the content. -/
inductive Stage where
  | checking
  | opening
  | copying (part : Bytes)
  | syncing
  | writing
  | installing
  | flushing

/-- The failing part comes before the backup. -/
def Harmless : Stage → Prop
  | .checking | .opening => True
  | _ => False

def check (owner : Bytes) : Result Unit := do
  cleanupResidual owner
  if ← Fs.pathExists backup then throw .staleBackup else pure ()

/-- A copy is opened again and synced. -/
def syncPath (path : Bytes) : Result Unit := do
  mapErr (Fs.openFile path) (mapIo "open" path)
  mapErr (Fs.syncAll path) (mapIo "fsync" path)

variable (walk : Bytes → Bytes) (config : NormalizedConfig)

/-- The failing call belongs to this part, and those before it have succeeded. -/
inductive StoppedAt (fs : Fs) : Stage → Fs → Prop
  | split (domains : config.domains ≠ []) : StoppedAt fs .checking fs
  | checking {e : ResolvConfError} {fs' : Fs}
      (failed : Ends (faulty walk) (check config.owner).run fs (.error e) fs') :
      StoppedAt fs .checking fs'
  | opening {e : IoError} {fs₁ : Fs}
      (checked : Ends (faulty walk) (check config.owner).run fs (.ok ()) fs₁)
      (failed : (faulty walk).answers fs₁ (.copy resolvConf backup) (.error e) fs₁) :
      StoppedAt fs .opening fs₁
  | copying {e : IoError} {part : Bytes} {fs₁ : Fs}
      (checked : Ends (faulty walk) (check config.owner).run fs (.ok ()) fs₁)
      (failed : (faulty walk).answers fs₁ (.copy resolvConf backup) (.error e)
        (store walk fs₁ backup part)) :
      StoppedAt fs (.copying part) (store walk fs₁ backup part)
  | syncing {e : ResolvConfError} {fs₁ fs₂ fs' : Fs}
      (checked : Ends (faulty walk) (check config.owner).run fs (.ok ()) fs₁)
      (copied : (faulty walk).answers fs₁ (.copy resolvConf backup) (.ok ()) fs₂)
      (failed : Ends (faulty walk) (syncPath backup).run fs₂ (.error e) fs') :
      StoppedAt fs .syncing fs'
  | writing {e : ResolvConfError} {fs₁ fs₂ fs' : Fs}
      (checked : Ends (faulty walk) (check config.owner).run fs (.ok ()) fs₁)
      (saved : Ends (faulty walk) (copyWithFsync resolvConf backup).run fs₁ (.ok ()) fs₂)
      (failed : Ends (faulty walk)
        (writeTemp (renderResolvConf config.owner config.servers)).run fs₂ (.error e) fs') :
      StoppedAt fs .writing fs'
  | installing {e : ResolvConfError} {fs₁ fs₂ fs₃ fs' : Fs}
      (checked : Ends (faulty walk) (check config.owner).run fs (.ok ()) fs₁)
      (saved : Ends (faulty walk) (copyWithFsync resolvConf backup).run fs₁ (.ok ()) fs₂)
      (written : Ends (faulty walk)
        (writeTemp (renderResolvConf config.owner config.servers)).run fs₂ (.ok ()) fs₃)
      (failed : Ends (faulty walk) (rename temp resolvConf).run fs₃ (.error e) fs') :
      StoppedAt fs .installing fs'
  | flushing {e : ResolvConfError} {fs₁ fs₂ fs₃ fs₄ fs' : Fs}
      (checked : Ends (faulty walk) (check config.owner).run fs (.ok ()) fs₁)
      (saved : Ends (faulty walk) (copyWithFsync resolvConf backup).run fs₁ (.ok ()) fs₂)
      (written : Ends (faulty walk)
        (writeTemp (renderResolvConf config.owner config.servers)).run fs₂ (.ok ()) fs₃)
      (installed : Ends (faulty walk) (rename temp resolvConf).run fs₃ (.ok ()) fs₄)
      (failed : Ends (faulty walk) (syncDir etc).run fs₄ (.error e) fs') :
      StoppedAt fs .flushing fs'

section Parts

variable {walk config} {fs fs₁ fs' : Fs} {owner content path : Bytes} {e : ResolvConfError}

theorem copyWithFsync_eq (src dst : Bytes) : copyWithFsync src dst = (do
    mapErr (Fs.copy src dst) (mapIo "copy" dst)
    syncPath dst) :=
  rfl

theorem apply_parts (global : config.domains = []) : apply config = (do
    check config.owner
    copyWithFsync resolvConf backup
    writeTemp (renderResolvConf config.owner config.servers)
    rename temp resolvConf
    syncDir etc
    pure ⟨config.owner⟩) := by
  rw [apply, if_neg (not_not.mpr global), check, bind_assoc]
  congr 1
  funext _
  rw [bind_assoc]
  congr 1
  funext stale
  cases stale <;> rfl

/-- The checks change nothing as long as no backup is there and the file is not the owner's. -/
theorem check_same (absent : fs backup = none) (there : fs resolvConf = some (.file content))
    (foreign : ¬ ownerHeader owner <+: content) :
    Safe (faulty walk) (fun _ => True) (fun _ fs' => fs' = fs) (check owner).run fs := by
  have cleaned : Safe (faulty walk) (fun _ => True) (fun _ fs' => fs' = fs)
      (cleanupResidual owner).run fs := by
    refine Safe.lift ⟨trivial, fun _ _ => trivial, fun r fs₁ a => ⟨trivial, ?_⟩⟩
    obtain rfl := faulty_quiet (c := .readToString resolvConf) trivial a
    cases r with
    | error source =>
        dsimp only
        split <;> exact ⟨trivial, rfl⟩
    | ok current =>
        have read := (faulty_read_ok a).1
        rw [readFile_of_plain (plain_iff.mpr (.inr ⟨content, there⟩)), there] at read
        cases read
        dsimp only
        rw [if_neg foreign]
        exact ⟨trivial, rfl⟩
  refine Safe.tryBind cleaned ?_ fun _ _ _ same => same
  rintro _ _ - rfl
  refine Safe.lift ⟨trivial, fun _ _ => trivial, fun r fs₁ a => ⟨trivial, ?_⟩⟩
  obtain rfl := faulty_quiet (c := .pathExists backup) trivial a
  split <;> exact ⟨trivial, rfl⟩

/-- Once it is there, none of the later calls takes the backup away. -/
abbrev Keeping : FsCall → Prop := fun c => ¬ Loses c backup

theorem syncPath_keeping (path : Bytes) : Issues Keeping (syncPath path).run :=
  .tryBind (.mapErr (.call id)) fun _ => .mapErr (.call id)

theorem copyWithFsync_keeping (src dst : Bytes) : Issues Keeping (copyWithFsync src dst).run :=
  .tryBind (.mapErr (.call id)) fun _ => syncPath_keeping dst

theorem writeTemp_keeping (content : Bytes) : Issues Keeping (writeTemp content).run :=
  .tryBind (.mapErr (.call id)) fun _ =>
    .tryBind (.mapErr (.call id)) fun _ => .mapErr (.call id)

/-- The generated file is renamed, or copied and removed, but never the backup. -/
theorem install_keeping : Issues Keeping (rename temp resolvConf).run := by
  have other : backup ≠ temp := temp_ne_backup.symm
  have renamed : Keeping (.rename temp resolvConf) := other
  have removed : Keeping (.removeFile temp) := other
  refine .lift (.call renamed) fun r => ?_
  cases r with
  | ok _ => trivial
  | error source =>
      dsimp only
      split
      · exact .tryBind (copyWithFsync_keeping temp resolvConf) fun _ => .mapErr (.call removed)
      · trivial

theorem keeping_ends {α : Type} {p : Io α} {a : α} (keeping : Issues Keeping p)
    (there : fs backup ≠ none) (run : Ends (faulty walk) p fs a fs') : fs' backup ≠ none :=
  keeping.ends (I := fun fs : Fs => fs backup ≠ none)
    (fun _ _ _ _ kept there answer => faulty_keeps kept there answer) run there

theorem backup_stored (absent : fs backup = none) (part : Bytes) :
    store walk fs backup part backup ≠ none := by
  rw [store_of_plain (plain_iff.mpr (.inl absent)), Function.update_self]
  exact Option.some_ne_none _

theorem backup_copied (absent : fs backup = none)
    (a : (faulty walk).answers fs (.copy resolvConf backup) (.ok ()) fs') : fs' backup ≠ none := by
  rcases faulty_copy_cases a with ⟨failed, -⟩ | ⟨_, part, -, -, rfl⟩
  · exact absurd rfl failed
  · exact backup_stored absent part

theorem backup_saved (absent : fs backup = none)
    (saved : Ends (faulty walk) (copyWithFsync resolvConf backup).run fs (.ok ()) fs') :
    fs' backup ≠ none := by
  rw [copyWithFsync_eq] at saved
  rcases Ends.tryBind_cases saved with ⟨_, fs₁, copy, settled⟩ | ⟨_, failed, -⟩
  · obtain ⟨answered, call, same⟩ := Ends.mapErr_cases copy
    cases answered with
    | error source => cases same
    | ok _ =>
        exact keeping_ends (syncPath_keeping backup) (backup_copied absent call.answer) settled
  · cases failed

end Parts

section Atomicity

variable {walk config} {fs fs' : Fs} {content : Bytes} {e : ResolvConfError}

/-- The backup has failed before it was there, while it was copied, or afterwards. -/
theorem save_stops {fs₁ : Fs}
    (checked : Ends (faulty walk) (check config.owner).run fs (.ok ()) fs₁)
    (failed : Ends (faulty walk) (copyWithFsync resolvConf backup).run fs₁ (.error e) fs') :
    ∃ stage, StoppedAt walk config fs stage fs' := by
  rw [copyWithFsync_eq] at failed
  rcases Ends.tryBind_cases failed with ⟨_, fs₂, copy, failed⟩ | ⟨_, _, copy⟩
  all_goals
    obtain ⟨answered, call, same⟩ := Ends.mapErr_cases copy
    have answer := call.answer
    cases answered
  · cases same
  · exact ⟨_, .syncing checked answer failed⟩
  · rcases faulty_copy_cases answer with ⟨-, rfl⟩ | ⟨_, part, -, -, rfl⟩
    · exact ⟨_, .opening checked answer⟩
    · exact ⟨_, .copying checked answer⟩
  · cases same

/-- Every failure is a stop. -/
theorem apply_stops (run : Ends (faulty walk) (apply config).run fs (.error e) fs') :
    ∃ stage, StoppedAt walk config fs stage fs' := by
  by_cases global : config.domains = []
  swap
  · rw [apply, if_pos global] at run
    cases run
    exact ⟨.checking, .split global⟩
  rw [apply_parts global] at run
  rcases Ends.tryBind_cases run with ⟨_, fs₁, checked, run⟩ | ⟨_, _, failed⟩
  swap
  · exact ⟨_, .checking failed⟩
  rcases Ends.tryBind_cases run with ⟨_, fs₂, saved, run⟩ | ⟨_, _, failed⟩
  swap
  · exact save_stops checked failed
  rcases Ends.tryBind_cases run with ⟨_, fs₃, written, run⟩ | ⟨_, _, failed⟩
  swap
  · exact ⟨_, .writing checked saved failed⟩
  rcases Ends.tryBind_cases run with ⟨_, fs₄, installed, run⟩ | ⟨_, _, failed⟩
  swap
  · exact ⟨_, .installing checked saved written failed⟩
  rcases Ends.tryBind_cases run with ⟨_, fs₅, flushed, run⟩ | ⟨_, _, failed⟩
  swap
  · exact ⟨_, .flushing checked saved written installed failed⟩
  cases run

theorem stopped_atomic_iff (absent : fs backup = none)
    (there : fs resolvConf = some (.file content))
    (foreign : ¬ ownerHeader config.owner <+: content) {stage : Stage}
    (stopped : StoppedAt walk config fs stage fs') : Atomic fs fs' ↔ Harmless stage := by
  have same : ∀ {r fs₁}, Ends (faulty walk) (check config.owner).run fs r fs₁ → fs₁ = fs :=
    fun checked => (check_same absent there foreign).ends checked
  have kept : fs' backup ≠ none → (Atomic fs fs' ↔ False) := fun left =>
    iff_of_false (fun atomic => left atomic.noBackup) id
  cases stopped with
  | split => exact iff_of_true ⟨rfl, absent⟩ trivial
  | checking failed =>
      obtain rfl := same failed
      exact iff_of_true ⟨rfl, absent⟩ trivial
  | opening checked failed =>
      obtain rfl := same checked
      exact iff_of_true ⟨rfl, absent⟩ trivial
  | copying checked failed =>
      obtain rfl := same checked
      exact kept (backup_stored absent _)
  | syncing checked copied failed =>
      obtain rfl := same checked
      exact kept (keeping_ends (syncPath_keeping backup) (backup_copied absent copied) failed)
  | writing checked saved failed =>
      obtain rfl := same checked
      exact kept (keeping_ends (writeTemp_keeping _) (backup_saved absent saved) failed)
  | installing checked saved written failed =>
      obtain rfl := same checked
      have left := keeping_ends (writeTemp_keeping _) (backup_saved absent saved) written
      exact kept (keeping_ends install_keeping left failed)
  | flushing checked saved written installed failed =>
      obtain rfl := same checked
      have left := keeping_ends (writeTemp_keeping _) (backup_saved absent saved) written
      have installed := keeping_ends install_keeping left installed
      exact kept (keeping_ends (syncPath_keeping etc) installed failed)

/-- A failed apply leaves the file and no backup if and only if it fails before the backup. -/
theorem failed_apply_atomic_iff (absent : fs backup = none)
    (there : fs resolvConf = some (.file content))
    (foreign : ¬ ownerHeader config.owner <+: content)
    (run : Ends (faulty walk) (apply config).run fs (.error e) fs') :
    (∃ stage, StoppedAt walk config fs stage fs') ∧
      ∀ stage, StoppedAt walk config fs stage fs' → (Atomic fs fs' ↔ Harmless stage) :=
  ⟨apply_stops run, fun _ => stopped_atomic_iff absent there foreign⟩

/-- No file can be created, all else goes well. -/
def fullDisk : Handler FsCall FsCall.Ret Fs
  | fs, .create _ => (.error (.os 28), fs)
  | fs, c => perform id false fs c

theorem fullDisk_faulty (fs : Fs) (c : FsCall) :
    (faulty id).answers fs c (fullDisk fs c).1 (fullDisk fs c).2 := by
  cases c with
  | create path => exact .inr ⟨.os 28, by decide, rfl, rfl⟩
  | _ => exact .inl ⟨false, rfl⟩

/-- The backup has been made and the generated file cannot be. -/
def sampleAborted : Fs := (exec fullDisk (apply (sampleConfig "a")).run sampleFs).2

set_option maxRecDepth 20000 in
theorem sampleAborted_ends : Ends (faulty id) (apply (sampleConfig "a")).run sampleFs
    (.error (.io "create" temp (.os 28))) sampleAborted := by
  have failed : (exec fullDisk (apply (sampleConfig "a")).run sampleFs).1 =
      .error (.io "create" temp (.os 28)) := by
    decide
  rw [← failed]
  exact ends_exec fullDisk_faulty _ _

set_option maxRecDepth 20000 in
theorem sampleAborted_backup : sampleAborted backup = some (.file sampleContent) := by decide

theorem failed_apply_atomic_sample :
    ∃ stage, StoppedAt id (sampleConfig "a") sampleFs stage sampleAborted ∧ ¬ Harmless stage := by
  obtain ⟨⟨stage, stopped⟩, exact⟩ :=
    failed_apply_atomic_iff (by decide) rfl sample_foreign sampleAborted_ends
  refine ⟨stage, stopped, fun harmless => ?_⟩
  cases sampleAborted_backup.symm.trans ((exact stage stopped).mpr harmless).noBackup

theorem failed_apply_leaves_backup :
    ¬ ∀ (walk : Bytes → Bytes) (config : NormalizedConfig) (fs fs' : Fs) (content : Bytes)
      (e : ResolvConfError),
      fs backup = none → fs resolvConf = some (.file content) → Utf8 content →
      ¬ ownerHeader config.owner <+: content →
      Ends (faulty walk) (apply config).run fs (.error e) fs' → Atomic fs fs' := by
  intro h
  have atomic := h id _ _ _ _ _ (by decide) rfl (by decide) sample_foreign sampleAborted_ends
  cases sampleAborted_backup.symm.trans atomic.noBackup

end Atomicity

end Setdns.Linux.ResolvConf

import Setdns.Linux.ResolvConf

/-!
What the backend does when no call fails. Every function has one result and one
final state, whichever route its renames take.
-/

namespace Setdns.Linux.ResolvConf

open Text Effects Effects.Program Effects.Files

/-- The three paths hold regular files or nothing, inside an existing directory. -/
structure Ready (fs : Fs) : Prop where
  plainRc : Plain fs resolvConf
  plainBackup : Plain fs backup
  plainTemp : Plain fs temp
  dir : fs etc = some .dir

variable (walk : Bytes → Bytes) {fs : Fs} {src dst content : Bytes}

theorem Ready.stored {path : Bytes} (h : Ready fs) (hne : etc ≠ path) (content : Bytes) :
    Ready (Function.update fs path (some (.file content))) where
  plainRc := plain_update_file h.plainRc
  plainBackup := plain_update_file h.plainBackup
  plainTemp := plain_update_file h.plainTemp
  dir := by rw [Function.update_of_ne hne, h.dir]

theorem Ready.frame {path : Bytes} {fs' : Fs} (h : Ready fs) (hne : etc ≠ path)
    (stored : Stored fs path fs') : Ready fs' := by
  rcases stored with rfl | ⟨content, rfl⟩
  · exact h
  · exact h.stored hne content

theorem Ready.moved (h : Ready fs) (hs : Plain fs src) (hsrc : etc ≠ src) (hdst : etc ≠ dst) :
    Ready (move fs src dst) where
  plainRc := plain_move hs h.plainRc
  plainBackup := plain_move hs h.plainBackup
  plainTemp := plain_move hs h.plainTemp
  dir := by rw [move, Function.update_of_ne hdst, Function.update_of_ne hsrc, h.dir]

theorem copyWithFsync_calm (hs : Plain fs src) (hd : Plain fs dst) (hne : src ≠ dst)
    (hsrc : fs src = some (.file content)) :
    Yields (calm walk) (copyWithFsync src dst).run fs (.ok ())
      (Function.update fs dst (some (.file content))) := by
  have hd' : Plain (Function.update fs dst (some (.file content))) dst := plain_update_file hd
  refine Yields.tryOk (Yields.mapErr (calm_yields (by simp) (perform_copy hs hd hne hsrc false)
    (.ret _ _))) ?_
  refine Yields.tryOk (Yields.mapErr (calm_yields (by simp)
    (perform_openFile hd' (Function.update_self ..)) (.ret _ _))) ?_
  exact Yields.mapErr (calm_yields (by simp) (perform_syncAll false) (.ret _ _))

theorem rename_calm (hs : Plain fs src) (hd : Plain fs dst) (hne : src ≠ dst)
    (hsrc : fs src = some (.file content)) :
    Yields (calm walk) (rename src dst).run fs (.ok ()) (move fs src dst) := by
  refine Safe.lift ⟨trivial, fun _ _ => trivial, fun r fs₁ answer => ⟨trivial, ?_⟩⟩
  rcases calm_rename hs hd answer with ⟨_, missing, _⟩ | ⟨_, _, ⟨rfl, rfl⟩ | ⟨rfl, rfl⟩⟩
  · simp [hsrc] at missing
  · -- the busy route copies and then removes the source
    refine Yields.tryOk (copyWithFsync_calm walk hs hd hne hsrc) ?_
    have hsrc' : Function.update fs₁ dst (some (.file content)) src = some (.file content) := by
      rw [Function.update_of_ne hne, hsrc]
    have removed : perform walk false (Function.update fs₁ dst (some (.file content)))
        (.removeFile src) = (.ok (), move fs₁ src dst) := by
      rw [perform_removeFile_ok hsrc' false, unlink_update hne hsrc]
    exact Yields.mapErr (calm_yields (by simp) removed (.ret _ _))
  · exact Yields.ret _ _

theorem writeTemp_calm (content : Bytes) (h : Plain fs temp) :
    Yields (calm walk) (writeTemp content).run fs (.ok ())
      (Function.update fs temp (some (.file content))) := by
  refine Yields.tryOk (Yields.mapErr (calm_yields (by simp) (perform_create h false)
    (.ret _ _))) ?_
  have written : perform walk false (Function.update fs temp (some (.file [])))
      (.writeAll temp content) = (.ok (), Function.update fs temp (some (.file content))) := by
    rw [perform_writeAll (plain_update_file h) false, Function.update_idem]
  refine Yields.tryOk (Yields.mapErr (calm_yields (by simp) written (.ret _ _))) ?_
  exact Yields.mapErr (calm_yields (by simp) (perform_syncAll false) (.ret _ _))

theorem syncDir_calm (h : fs etc = some .dir) :
    Yields (calm walk) (syncDir etc).run fs (.ok ()) fs := by
  refine Yields.tryOk (Yields.mapErr (calm_yields (by simp) (perform_openDir h) (.ret _ _))) ?_
  exact Yields.mapErr (calm_yields (by simp) (perform_syncAll false) (.ret _ _))

theorem restore_calm (h : Ready fs) (hb : fs backup = some (.file content)) :
    Yields (calm walk) restore.run fs (.ok ()) (move fs backup resolvConf) := by
  refine Yields.tryOk (rename_calm walk h.plainBackup h.plainRc backup_ne_resolvConf hb) ?_
  exact syncDir_calm walk (h.moved h.plainBackup etc_ne_backup etc_ne_resolvConf).dir

section Outcomes

variable {current original : Bytes} {owner : Bytes} {config : NormalizedConfig}
variable {handle : SetDns}

theorem cleanupResidual_unreadable (h : Ready fs) (hc : fs resolvConf = some (.file current))
    (invalid : ¬ Utf8 current) :
    Yields (calm walk) (cleanupResidual owner).run fs
      (.error (.io "read" resolvConf .invalidData)) fs :=
  Yields.lift (calm_yields (by simp) (perform_read_invalid h.plainRc hc invalid) (.ret _ _))
    (Yields.ret _ _)

theorem cleanupResidual_foreign (h : Ready fs) (hc : fs resolvConf = some (.file current))
    (utf8 : Utf8 current) (foreign : ¬ ownerHeader owner <+: current) :
    Yields (calm walk) (cleanupResidual owner).run fs (.ok ()) fs := by
  refine Yields.lift (calm_yields (by simp) (perform_read h.plainRc hc utf8) (.ret _ _)) ?_
  simp only [foreign, ite_false]
  exact Yields.ret _ _

theorem cleanupResidual_lost (h : Ready fs) (hc : fs resolvConf = some (.file current))
    (utf8 : Utf8 current) (marked : ownerHeader owner <+: current) (hb : fs backup = none) :
    Yields (calm walk) (cleanupResidual owner).run fs (.error (.missingBackup owner)) fs := by
  refine Yields.lift (calm_yields (by simp) (perform_read h.plainRc hc utf8) (.ret _ _)) ?_
  simp only [marked, ite_true]
  refine Yields.lift (calm_yields (by simp) (perform_pathExists h.plainBackup) (.ret _ _)) ?_
  simp only [hb, Option.isSome_none, Bool.false_eq_true, ite_false]
  exact Yields.ret _ _

theorem cleanupResidual_restore (h : Ready fs) (hc : fs resolvConf = some (.file current))
    (utf8 : Utf8 current) (marked : ownerHeader owner <+: current)
    (hb : fs backup = some (.file original)) :
    Yields (calm walk) (cleanupResidual owner).run fs (.ok ()) (move fs backup resolvConf) := by
  refine Yields.lift (calm_yields (by simp) (perform_read h.plainRc hc utf8) (.ret _ _)) ?_
  simp only [marked, ite_true]
  refine Yields.lift (calm_yields (by simp) (perform_pathExists h.plainBackup) (.ret _ _)) ?_
  simp only [hb, Option.isSome_some, ite_true]
  exact restore_calm walk h hb

theorem apply_split (split : config.domains ≠ []) :
    Yields (calm walk) (apply config).run fs (.error .unsupportedSplitDns) fs := by
  rw [apply, if_pos split]
  exact Yields.ret _ _

theorem apply_failedCleanup {fs' : Fs} {e : ResolvConfError} (nosplit : config.domains = [])
    (cleanup : Yields (calm walk) (cleanupResidual config.owner).run fs (.error e) fs') :
    Yields (calm walk) (apply config).run fs (.error e) fs' := by
  rw [apply, if_neg (not_not.mpr nosplit)]
  exact Yields.tryError cleanup

theorem apply_stale {fs' : Fs} (nosplit : config.domains = [])
    (cleanup : Yields (calm walk) (cleanupResidual config.owner).run fs (.ok ()) fs')
    (h : Plain fs' backup) (hb : fs' backup = some (.file original)) :
    Yields (calm walk) (apply config).run fs (.error .staleBackup) fs' := by
  rw [apply, if_neg (not_not.mpr nosplit)]
  refine Yields.tryOk cleanup ?_
  refine Yields.lift (calm_yields (by simp) (perform_pathExists h) (.ret _ _)) ?_
  simp only [hb, Option.isSome_some, ite_true]
  exact Yields.ret _ _

/-- The generated file is in place and the original is kept beside it. -/
def installed (fs : Fs) (original generated : Bytes) : Fs :=
  move (Function.update (Function.update fs backup (some (.file original)))
    temp (some (.file generated))) temp resolvConf

theorem installed_resolvConf (generated : Bytes) :
    installed fs original generated resolvConf = some (.file generated) := by
  rw [installed, move, Function.update_self, Function.update_self]

theorem installed_backup (generated : Bytes) :
    installed fs original generated backup = some (.file original) := by
  rw [installed, move, Function.update_of_ne backup_ne_resolvConf,
    Function.update_of_ne temp_ne_backup.symm, Function.update_of_ne temp_ne_backup.symm,
    Function.update_self]

theorem installed_temp (generated : Bytes) : installed fs original generated temp = none := by
  rw [installed, move, Function.update_of_ne temp_ne_resolvConf, Function.update_self]

theorem ready_installed (h : Ready fs) (original generated : Bytes) :
    Ready (installed fs original generated) := by
  have stored := (h.stored etc_ne_backup original).stored etc_ne_temp generated
  exact stored.moved stored.plainTemp etc_ne_temp etc_ne_resolvConf

theorem apply_fresh {fs' : Fs} (nosplit : config.domains = [])
    (cleanup : Yields (calm walk) (cleanupResidual config.owner).run fs (.ok ()) fs')
    (h : Ready fs') (hb : fs' backup = none) (hc : fs' resolvConf = some (.file original)) :
    Yields (calm walk) (apply config).run fs (.ok ⟨config.owner⟩)
      (installed fs' original (renderResolvConf config.owner config.servers)) := by
  rw [apply, if_neg (not_not.mpr nosplit)]
  refine Yields.tryOk cleanup ?_
  refine Yields.lift (calm_yields (by simp) (perform_pathExists h.plainBackup) (.ret _ _)) ?_
  simp only [hb, Option.isSome_none, Bool.false_eq_true, ite_false]
  have h₁ := h.stored etc_ne_backup original
  have h₂ := h₁.stored etc_ne_temp (renderResolvConf config.owner config.servers)
  refine Yields.tryOk (copyWithFsync_calm walk h.plainRc h.plainBackup
    backup_ne_resolvConf.symm hc) ?_
  refine Yields.tryOk (writeTemp_calm walk _ h₁.plainTemp) ?_
  refine Yields.tryOk (rename_calm walk h₂.plainTemp h₂.plainRc temp_ne_resolvConf
    (Function.update_self ..)) ?_
  refine Yields.tryOk (syncDir_calm walk
    (h₂.moved h₂.plainTemp etc_ne_temp etc_ne_resolvConf).dir) ?_
  exact Yields.ret _ _

theorem close_trampled (h : Ready fs) (hc : fs resolvConf = some (.file current))
    (utf8 : Utf8 current) (foreign : ¬ ownerHeader handle.owner <+: current) :
    Yields (calm walk) (close handle).run fs (.error (.trampled handle.owner)) fs := by
  refine Yields.tryOk (Yields.mapErr
    (calm_yields (by simp) (perform_read h.plainRc hc utf8) (.ret _ _))) ?_
  simp only [foreign, ite_false]
  exact Yields.ret _ _

theorem close_lost (h : Ready fs) (hc : fs resolvConf = some (.file current))
    (utf8 : Utf8 current) (marked : ownerHeader handle.owner <+: current)
    (hb : fs backup = none) :
    Yields (calm walk) (close handle).run fs (.error (.missingBackup handle.owner)) fs := by
  refine Yields.tryOk (Yields.mapErr
    (calm_yields (by simp) (perform_read h.plainRc hc utf8) (.ret _ _))) ?_
  simp only [marked, ite_true]
  refine Yields.lift (calm_yields (by simp) (perform_pathExists h.plainBackup) (.ret _ _)) ?_
  simp only [hb, Option.isSome_none, Bool.false_eq_true, ite_false]
  exact Yields.ret _ _

theorem close_restore (h : Ready fs) (hc : fs resolvConf = some (.file current))
    (utf8 : Utf8 current) (marked : ownerHeader handle.owner <+: current)
    (hb : fs backup = some (.file original)) :
    Yields (calm walk) (close handle).run fs (.ok ()) (move fs backup resolvConf) := by
  refine Yields.tryOk (Yields.mapErr
    (calm_yields (by simp) (perform_read h.plainRc hc utf8) (.ret _ _))) ?_
  simp only [marked, ite_true]
  refine Yields.lift (calm_yields (by simp) (perform_pathExists h.plainBackup) (.ret _ _)) ?_
  simp only [hb, Option.isSome_some, ite_true]
  exact restore_calm walk h hb

end Outcomes

theorem sample_ready : Ready sampleFs where
  plainRc := plain_iff.mpr (.inr ⟨sampleContent, rfl⟩)
  plainBackup := plain_iff.mpr (.inl (by decide))
  plainTemp := plain_iff.mpr (.inl (by decide))
  dir := by decide

end Setdns.Linux.ResolvConf

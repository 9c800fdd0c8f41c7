import Setdns.Linux.ResolvConfFrames
import Setdns.Linux.ResolvConfLinks

/-!
Recovery by owner. A process running `apply`, or `close` of the handle it got, is
stopped at any point, and the same owner applies again.

Every state such a process can leave is one of a few: the original in place with
or without a backup, or a backup beside a partly written file. The next `apply`
reads the owner from the first line of the file, so it recovers exactly the
states without a backup and those whose file starts with the owner's header.

A temporary name that is a link adds the states in which the link is still there or has
become the file, and none of these is recovered. If it leads to the backup, the original is
lost with the first write.
-/

namespace Setdns.Linux.ResolvConf

open Text Effects Effects.Program Effects.Files

/-- What a process stopped anywhere in `apply` or `close` leaves. -/
structure Leftover (original generated : Bytes) (fs : Fs) : Prop where
  ready : Ready fs
  content : fs resolvConf = some (.file original) ∨
    fs backup = some (.file original) ∧
      ∃ part, (part <+: generated ∨ part <+: original) ∧ fs resolvConf = some (.file part)

/-- What a process stopped anywhere in `close` leaves. -/
structure LeftByClose (original generated : Bytes) (fs : Fs) : Prop where
  ready : Ready fs
  content : (fs resolvConf = some (.file original) ∧ fs backup = none) ∨
    fs backup = some (.file original) ∧
      ∃ part, (part <+: generated ∨ part <+: original) ∧ fs resolvConf = some (.file part)

theorem LeftByClose.leftover {original generated : Bytes} {fs : Fs}
    (h : LeftByClose original generated fs) :
    Leftover original generated fs :=
  ⟨h.ready, h.content.imp_left And.left⟩

/-- The process was stopped in `apply`, or in `close` of the handle it returned. -/
inductive Killed (walk : Bytes → Bytes) (start : Fs) (config : NormalizedConfig) : Fs → Prop
  | apply {fs : Fs} (visit : Visits (faulty walk) (ResolvConf.apply config).run start fs) :
      Killed walk start config fs
  | close {handle : SetDns} {fs fs' : Fs}
      (ends : Ends (faulty walk) (ResolvConf.apply config).run start (.ok handle) fs)
      (visit : Visits (faulty walk) (ResolvConf.close handle).run fs fs') :
      Killed walk start config fs'

/-- Applying without faults succeeds, and closing the new handle brings the
original back. -/
def Recovers (walk : Bytes → Bytes) (original : Bytes) (config : NormalizedConfig)
    (fs : Fs) : Prop :=
  ∀ r fs₁, Ends (calm walk) (apply config).run fs r fs₁ → ∃ handle, r = .ok handle ∧
    ∀ r' fs₂, Ends (calm walk) (close handle).run fs₁ r' fs₂ →
      r' = .ok () ∧ fs₂ resolvConf = some (.file original) ∧ fs₂ backup = none

variable (walk : Bytes → Bytes) {original generated : Bytes} {start fs fs' : Fs}
variable {config : NormalizedConfig}

section Stopping

theorem leftByClose_of_restore (h : Ready fs) (hb : fs backup = some (.file original))
    (hc : ∃ part, (part <+: generated ∨ part <+: original) ∧ fs resolvConf = some (.file part)) :
    Safe (faulty walk) (LeftByClose original generated) (fun _ _ => True) restore.run fs := by
  refine (restore_frame walk h.plainBackup h.plainRc).imp ?_ (fun _ _ _ _ => trivial)
  rintro fs' (part | ⟨_, rfl⟩)
  · refine ⟨h.frame etc_ne_resolvConf part.stored, .inr ?_⟩
    rcases part with rfl | ⟨content, part, source, prefixed, rfl⟩
    · exact ⟨hb, hc⟩
    · obtain rfl : original = content := by simpa [hb] using source
      refine ⟨?_, part, .inr prefixed, Function.update_self ..⟩
      rw [Function.update_of_ne backup_ne_resolvConf, hb]
  · refine ⟨h.moved h.plainBackup etc_ne_backup etc_ne_resolvConf, .inl ⟨?_, ?_⟩⟩
    · rw [move, Function.update_self, hb]
    · rw [move, Function.update_of_ne backup_ne_resolvConf, Function.update_self]

theorem cleanupResidual_stopped (owner : Bytes) (hc : fs resolvConf = some (.file original))
    (foreign : ¬ ownerHeader owner <+: original) :
    Safe (faulty walk) (fun fs' => fs' = fs) (fun _ _ => True) (cleanupResidual owner).run fs := by
  refine Safe.lift (Safe.quiet (quiet_faulty trivial) rfl fun r answer => ⟨rfl, ?_⟩)
  cases r with
  | error source =>
      by_cases missing : source.isNotFound = true
      · simp only [missing, ite_true]
        exact ⟨rfl, trivial⟩
      · simp only [missing]
        exact ⟨rfl, trivial⟩
  | ok current =>
      have plain : Plain fs resolvConf := plain_iff.mpr (.inr ⟨original, hc⟩)
      have read := (readFile_of_plain plain).mp (faulty_read_ok answer).1
      obtain rfl : original = current := by simpa [hc] using read
      simp only [foreign, ite_false]
      exact ⟨rfl, trivial⟩

/-- Until it installs something, `apply` only looks. -/
theorem apply_safe_of_install {I : Fs → Prop} {Q : Except ResolvConfError SetDns → Fs → Prop}
    (hc : start resolvConf = some (.file original))
    (foreign : ¬ ownerHeader config.owner <+: original) (here : I start)
    (failed : ∀ e, Q (.error e) start)
    (install : Safe (faulty walk) I Q
      (do copyWithFsync resolvConf backup
          writeTemp (renderResolvConf config.owner config.servers)
          rename temp resolvConf
          syncDir etc
          pure ⟨config.owner⟩ : Result SetDns).run start) :
    Safe (faulty walk) I Q (apply config).run start := by
  unfold apply
  by_cases split : config.domains ≠ []
  · rw [if_pos split]
    exact ⟨here, failed _⟩
  rw [if_neg split]
  refine Safe.tryBind ((cleanupResidual_stopped walk config.owner hc foreign).imp
    (fun _ same => same ▸ here) fun _ _ same _ => same) ?_ fun e _ _ same => same ▸ failed e
  intro _ fs₁ _ same
  subst same
  refine Safe.lift (Safe.quiet (quiet_faulty trivial) here fun found _ => ⟨here, ?_⟩)
  cases found with
  | true => exact ⟨here, failed _⟩
  | false => exact install

/-- Until it restores, `close` only looks. -/
theorem close_safe_of_restore {I : Fs → Prop} (handle : SetDns) (here : I fs)
    (restored : Safe (faulty walk) I (fun _ _ => True) restore.run fs) :
    Safe (faulty walk) I (fun _ _ => True) (close handle).run fs := by
  refine Safe.tryBind (M := fun _ fs' => fs' = fs)
    (Safe.mapErr (Safe.quiet (quiet_faulty trivial) here fun _ _ => ⟨here, rfl⟩)) ?_ (by simp)
  intro current _ _ same
  subst same
  by_cases marked : ownerHeader handle.owner <+: current
  · simp only [marked, ite_true]
    refine Safe.lift (Safe.quiet (quiet_faulty trivial) here fun found _ => ⟨here, ?_⟩)
    cases found with
    | true => exact restored
    | false => exact ⟨here, trivial⟩
  · simp only [marked, ite_false]
    exact ⟨here, trivial⟩

/-- The new file takes the place of the original one, or a part of it does. -/
theorem rename_stopped (h : Ready fs) (hc : fs resolvConf = some (.file original))
    (hb : fs backup = some (.file original)) (ht : fs temp = some (.file generated)) :
    Safe (faulty walk) (Leftover original generated)
      (fun r fs' => r = .ok () → fs' = move fs temp resolvConf)
      (rename temp resolvConf).run fs := by
  refine (rename_frame walk h.plainTemp h.plainRc temp_ne_resolvConf).imp ?_
    fun _ _ _ moved ok => (moved ok).2
  rintro fs' (part | ⟨_, rfl⟩)
  · refine ⟨h.frame etc_ne_resolvConf part.stored, ?_⟩
    rcases part with rfl | ⟨content, part, source, prefixed, rfl⟩
    · exact .inl hc
    · obtain rfl : generated = content := by simpa [ht] using source
      refine .inr ⟨?_, part, .inl prefixed, Function.update_self ..⟩
      rw [Function.update_of_ne backup_ne_resolvConf, hb]
  · refine ⟨h.moved h.plainTemp etc_ne_temp etc_ne_resolvConf, .inr ⟨?_, generated,
      .inl List.prefix_rfl, ?_⟩⟩
    · rw [move, Function.update_of_ne backup_ne_resolvConf,
        Function.update_of_ne temp_ne_backup.symm, hb]
    · rw [move, Function.update_self, ht]

theorem install_stopped (handle : SetDns) (generated : Bytes) (h : Ready fs)
    (hc : fs resolvConf = some (.file original)) :
    Safe (faulty walk) (Leftover original generated)
      (fun r fs' => ∀ opened, r = .ok opened → opened = handle ∧
        fs' = installed fs original generated)
      (do copyWithFsync resolvConf backup; writeTemp generated; rename temp resolvConf
          syncDir etc; pure handle : Result SetDns).run fs := by
  have copy := (copyWithFsync_frame walk h.plainRc h.plainBackup
    backup_ne_resolvConf.symm).imp (J := Leftover original generated) ?_ (fun _ _ _ q => q)
  swap
  · intro fs' part
    refine ⟨h.frame etc_ne_backup part.stored, .inl ?_⟩
    exact (part.stored.other backup_ne_resolvConf.symm).trans hc
  refine Safe.tryBind copy ?_ (by simp)
  intro _ fs₁ _ copied
  obtain ⟨content, source, rfl⟩ := copied rfl
  obtain rfl : original = content := by simpa [hc] using source
  have h₁ := h.stored etc_ne_backup original
  have hc₁ : Function.update fs backup (some (.file original)) resolvConf =
      some (.file original) := by rw [Function.update_of_ne backup_ne_resolvConf.symm, hc]
  have written := (writeTemp_frame walk generated h₁.plainTemp).imp
    (J := Leftover original generated) ?_ (fun _ _ _ q => q)
  swap
  · intro fs' stored
    exact ⟨h₁.frame etc_ne_temp stored, .inl ((stored.other temp_ne_resolvConf.symm).trans hc₁)⟩
  refine Safe.tryBind written ?_ (by simp)
  intro _ fs₂ _ written
  obtain rfl := written rfl
  have h₂ := h₁.stored etc_ne_temp generated
  have hb₂ : Function.update (Function.update fs backup (some (.file original))) temp
      (some (.file generated)) backup = some (.file original) := by
    rw [Function.update_of_ne temp_ne_backup.symm, Function.update_self]
  have hc₂ : Function.update (Function.update fs backup (some (.file original))) temp
      (some (.file generated)) resolvConf = some (.file original) := by
    rw [Function.update_of_ne temp_ne_resolvConf.symm, hc₁]
  refine Safe.tryBind (rename_stopped walk h₂ hc₂ hb₂ (Function.update_self ..)) ?_ (by simp)
  intro _ fs₃ left moved
  obtain rfl := moved rfl
  refine syncDir_last walk left (by simp) fun opened same => ?_
  cases same
  exact ⟨rfl, rfl⟩

theorem apply_stopped (h : Ready start) (hc : start resolvConf = some (.file original))
    (foreign : ¬ ownerHeader config.owner <+: original) :
    Safe (faulty walk) (Leftover original (renderResolvConf config.owner config.servers))
      (fun r fs' => ∀ handle, r = .ok handle → handle = ⟨config.owner⟩ ∧
        fs' = installed start original (renderResolvConf config.owner config.servers))
      (apply config).run start := by
  have left : Leftover original (renderResolvConf config.owner config.servers) start :=
    ⟨h, .inl hc⟩
  exact apply_safe_of_install walk hc foreign left (by simp)
    (install_stopped walk ⟨config.owner⟩ _ h hc)

theorem close_stopped (handle : SetDns) (h : Ready fs) (hb : fs backup = some (.file original))
    (hc : ∃ part, part <+: generated ∧ fs resolvConf = some (.file part)) :
    Safe (faulty walk) (LeftByClose original generated) (fun _ _ => True) (close handle).run fs := by
  have part : ∃ part, (part <+: generated ∨ part <+: original) ∧
      fs resolvConf = some (.file part) := by
    obtain ⟨part, prefixed, hc⟩ := hc
    exact ⟨part, .inl prefixed, hc⟩
  have left : LeftByClose original generated fs := ⟨h, .inr ⟨hb, part⟩⟩
  exact close_safe_of_restore walk handle left (leftByClose_of_restore walk h hb part)

theorem killed_leftover (h : Ready start) (hc : start resolvConf = some (.file original))
    (foreign : ¬ ownerHeader config.owner <+: original)
    (killed : Killed walk start config fs) :
    Leftover original (renderResolvConf config.owner config.servers) fs := by
  have applied : Safe (faulty walk) _ _ (apply config).run start :=
    apply_stopped walk h hc foreign
  cases killed with
  | apply visit => exact applied.visits visit
  | close ends visit =>
      obtain ⟨_, rfl⟩ := applied.ends ends _ rfl
      exact ((close_stopped walk _ (ready_installed h _ _) (installed_backup _)
        ⟨_, List.prefix_rfl, installed_resolvConf _⟩).visits visit).leftover

end Stopping

section Links

/-! The temporary name is a link, and the file is not. -/

variable {target : Bytes}

/-- A link is still under the temporary name or has become the file, or there is none. -/
def Entangled (kept generated : Bytes) (fs : Fs) : Prop :=
  IsLink fs temp ∨ IsLink fs resolvConf ∨ LeftByClose kept generated fs

/-- The file is written over, and the link is gone. -/
def Overwritten (walk : Bytes → Bytes) (original generated : Bytes) (start fs : Fs) : Prop :=
  ∃ part, part <+: generated ∧ fs = overwritten walk start original generated part

theorem copyWithFsync_stopped {path : Bytes} (src dst : Bytes)
    (link : fs path = some (.link target)) :
    Safe (faulty walk) (fun fs' => fs' path = some (.link target))
      (fun r fs' => r = .ok () → ∃ content part, readFile walk fs src = .ok content ∧
        part <+: content ∧ fs' = store walk fs dst part)
      (copyWithFsync src dst).run fs := by
  refine Safe.tryBind (M := fun r fs' => r = .ok () → ∃ content part,
    readFile walk fs src = .ok content ∧ part <+: content ∧ fs' = store walk fs dst part)
    (Safe.mapErr ⟨link, fun _ torn => torn_spares (c := .copy src dst) link trivial torn,
      fun r fs' answer => ⟨faulty_spares (c := .copy src dst) link trivial answer,
        fun ok => ?_⟩⟩) ?_ (by simp)
  · exact (faulty_copy_cases answer).resolve_left fun failed => failed.1 (ok_of_mapError ok)
  · intro _ fs₁ link₁ copied
    refine Safe.tryBind (M := fun _ fs' => fs' = fs₁)
      (Safe.mapErr (Safe.quiet (quiet_faulty trivial) link₁ fun _ _ => ⟨link₁, rfl⟩)) ?_ (by simp)
    rintro _ _ - rfl
    exact Safe.mapErr (Safe.quiet (quiet_faulty trivial) link₁
      fun _ _ => ⟨link₁, fun _ => copied rfl⟩)

theorem leftByClose_overwritten (h : Accepted walk original start)
    (notLink : ¬ IsLink start resolvConf)
    (stopped : Overwritten walk original generated start fs) :
    LeftByClose (backedUp walk start original generated) generated fs := by
  obtain ⟨part, prefixed, rfl⟩ := stopped
  have file := @overwritten_file walk _ original notLink generated part
  have backup := overwritten_backup h generated part
  exact ⟨⟨plain_iff.mpr (.inr ⟨part, file⟩), plain_iff.mpr (.inr ⟨_, backup⟩),
    plain_iff.mpr (.inl (overwritten_temp generated part)), overwritten_dir h generated part⟩,
    .inr ⟨backup, part, .inl prefixed, file⟩⟩

/-- The link takes the place of the file, or what it leads to is copied there. -/
theorem rename_linked (h : Accepted walk original start) (notLink : ¬ IsLink start resolvConf)
    (link : start temp = some (.link target)) :
    Safe (faulty walk) (Entangled (backedUp walk start original generated) generated)
      (fun r fs' => r = .ok () → fs' = replaced walk start original generated ∨
        Overwritten walk original generated start fs')
      (rename temp resolvConf).run (written walk start original generated) := by
  have linked : written walk start original generated temp = some (.link target) := by
    rw [h.written_link generated ⟨target, link⟩, link]
  have here : ∀ {fs' : Fs}, fs' temp = some (.link target) →
      Entangled (backedUp walk start original generated) generated fs' :=
    fun link' => .inl ⟨target, link'⟩
  have moved : Entangled (backedUp walk start original generated) generated
      (replaced walk start original generated) :=
    .inr (.inl ⟨target, (replaced_resolvConf generated).trans linked⟩)
  refine rename_safe walk (here linked) (by simp) (fun _ => ⟨moved, fun _ => .inl rfl⟩) ?_
  refine Safe.tryBind ((copyWithFsync_stopped walk temp resolvConf linked).imp
    (fun _ => here) fun _ _ link' done => And.intro link' done) ?_ (by simp)
  intro _ fs₁ _ done
  obtain ⟨link₁, copied⟩ := done
  obtain ⟨content, part, read, prefixed, rfl⟩ := copied rfl
  obtain rfl : generated = content := by
    have read' := h.written_read generated
    rw [read] at read'
    exact (Except.ok.inj read').symm
  have gone : unlink (store walk (written walk start original generated) resolvConf part)
      temp = overwritten walk start original generated part := by
    rw [store_eq, h.written_follow, overwritten]
  have stopped : Overwritten walk original generated start (unlink (store walk
      (written walk start original generated) resolvConf part) temp) :=
    ⟨part, prefixed, gone⟩
  exact removeFile_safe walk (here link₁)
    (.inr (.inr (leftByClose_overwritten walk h notLink stopped))) (by simp)
    fun _ _ => .inr stopped

theorem install_linked (handle : SetDns) (generated : Bytes) (h : Accepted walk original start)
    (notLink : ¬ IsLink start resolvConf) (link : start temp = some (.link target)) :
    Safe (faulty walk) (Entangled (backedUp walk start original generated) generated)
      (fun r fs' => ∀ opened, r = .ok opened → fs' = replaced walk start original generated ∨
        Overwritten walk original generated start fs')
      (do copyWithFsync resolvConf backup; writeTemp generated; rename temp resolvConf
          syncDir etc; pure handle : Result SetDns).run start := by
  have here : ∀ {fs' : Fs}, fs' temp = some (.link target) →
      Entangled (backedUp walk start original generated) generated fs' :=
    fun link' => .inl ⟨target, link'⟩
  have plainRc : Plain start resolvConf := plain_iff.mpr (.inr ⟨original, h.regular notLink⟩)
  have plainBackup : Plain start backup := plain_iff.mpr (.inl h.noBackup)
  have copy := (copyWithFsync_frame walk plainRc plainBackup backup_ne_resolvConf.symm).imp
    (J := Entangled (backedUp walk start original generated) generated)
    (fun _ part => here ((part.stored.other temp_ne_backup).trans link)) (fun _ _ _ q => q)
  refine Safe.tryBind copy ?_ (by simp)
  intro _ fs₁ _ copied
  obtain ⟨content, source, rfl⟩ := copied rfl
  obtain rfl : original = content := by simpa [h.regular notLink] using source
  have leads := @follow_update_file walk _ _ (not_link_of_none h.noBackup) original temp
  have opens : refusal walk (Function.update start backup (some (.file original))) temp = none :=
    opens_of_plain_end (by rw [leads]; exact plain_update_file (plain_of_opens h.opens))
  have other : temp ≠ follow walk start temp := by
    intro same
    exact h.temp_stops (same ▸ ⟨target, link⟩)
  have link₁ : Function.update start backup (some (.file original)) temp =
      some (.link target) := by rw [Function.update_of_ne temp_ne_backup, link]
  have through := writeTemp_frame_through walk generated opens
  rw [leads] at through
  refine Safe.tryBind (through.imp
    (J := Entangled (backedUp walk start original generated) generated)
    (fun _ stored => here ((stored.other other).trans link₁)) (fun _ _ _ q => q)) ?_ (by simp)
  intro _ fs₂ _ stored
  obtain rfl := stored rfl
  refine Safe.tryBind (rename_linked walk h notLink link) ?_ (by simp)
  intro _ fs₃ left done
  exact syncDir_last walk left (by simp) fun _ _ => done rfl

theorem apply_linked (h : Accepted walk original start) (notLink : ¬ IsLink start resolvConf)
    (link : start temp = some (.link target)) (foreign : ¬ ownerHeader config.owner <+: original) :
    Safe (faulty walk)
      (Entangled (backedUp walk start original (renderResolvConf config.owner config.servers))
        (renderResolvConf config.owner config.servers))
      (fun r fs' => ∀ handle, r = .ok handle →
        fs' = replaced walk start original (renderResolvConf config.owner config.servers) ∨
        Overwritten walk original (renderResolvConf config.owner config.servers) start fs')
      (apply config).run start := by
  have left : Entangled (backedUp walk start original (renderResolvConf config.owner
      config.servers)) (renderResolvConf config.owner config.servers) start := .inl ⟨target, link⟩
  exact apply_safe_of_install walk (h.regular notLink) foreign left (by simp)
    (install_linked walk ⟨config.owner⟩ _ h notLink link)

theorem leftByClose_moved {kept : Bytes} (cleared : fs temp = none)
    (hb : fs backup = some (.file kept)) (dir : fs etc = some .dir) :
    LeftByClose kept generated (move fs backup resolvConf) := by
  have file : move fs backup resolvConf resolvConf = some (.file kept) := by
    rw [move, Function.update_self, hb]
  have gone : move fs backup resolvConf backup = none := by
    rw [move, Function.update_of_ne backup_ne_resolvConf, Function.update_self]
  refine ⟨⟨plain_iff.mpr (.inr ⟨kept, file⟩), plain_iff.mpr (.inl gone), plain_iff.mpr (.inl ?_),
    ?_⟩, .inl ⟨file, gone⟩⟩
  · rw [move, Function.update_of_ne temp_ne_resolvConf, Function.update_of_ne temp_ne_backup,
      cleared]
  · rw [move, Function.update_of_ne etc_ne_resolvConf, Function.update_of_ne etc_ne_backup, dir]

/-- The plain route puts the backup in place of the link, the busy route leaves the link. -/
theorem restore_linked {kept : Bytes} (link : fs resolvConf = some (.link target))
    (cleared : fs temp = none) (hb : fs backup = some (.file kept)) (dir : fs etc = some .dir) :
    Safe (faulty walk) (Entangled kept generated) (fun _ _ => True) restore.run fs := by
  have here : ∀ {fs' : Fs}, fs' resolvConf = some (.link target) →
      Entangled kept generated fs' := fun link' => .inr (.inl ⟨target, link'⟩)
  have moved : Entangled kept generated (move fs backup resolvConf) :=
    .inr (.inr (leftByClose_moved cleared hb dir))
  have synced : ∀ {fs' : Fs}, Entangled kept generated fs' →
      Safe (faulty walk) (Entangled kept generated) (fun _ _ => True) (syncDir etc).run fs' :=
    fun left => (syncDir_frame walk etc).imp (fun _ same => same ▸ left) fun _ _ _ _ => trivial
  have spares : Issues (Spares resolvConf false)
      (do copyWithFsync backup resolvConf
          mapErr (Fs.removeFile backup) (mapIo "remove" backup) : Result Unit).run :=
    (copyWithFsync_spares backup resolvConf).tryBind fun _ =>
      Issues.mapErr (Issues.call backup_ne_resolvConf)
  refine Safe.tryBind (M := fun _ _ => True) (rename_safe walk (here link) (fun _ => trivial)
    (fun _ => ⟨moved, trivial⟩) ?_) (fun _ _ left _ => synced left) (by simp)
  exact (spares_faulty spares link).imp (fun _ => here) fun _ _ _ _ => trivial

theorem close_linked {kept : Bytes} (handle : SetDns) (link : fs resolvConf = some (.link target))
    (cleared : fs temp = none) (hb : fs backup = some (.file kept)) (dir : fs etc = some .dir) :
    Safe (faulty walk) (Entangled kept generated) (fun _ _ => True) (close handle).run fs := by
  have left : Entangled kept generated fs := .inr (.inl ⟨target, link⟩)
  exact close_safe_of_restore walk handle left (restore_linked walk link cleared hb dir)

theorem killed_linked (h : Accepted walk original start) (notLink : ¬ IsLink start resolvConf)
    (link : start temp = some (.link target)) (foreign : ¬ ownerHeader config.owner <+: original)
    (killed : Killed walk start config fs) :
    Entangled (backedUp walk start original (renderResolvConf config.owner config.servers))
      (renderResolvConf config.owner config.servers) fs := by
  have applied := @apply_linked walk _ _ config _ h notLink link foreign
  cases killed with
  | apply visit => exact applied.visits visit
  | @close handle fs₁ _ ends visit =>
      rcases applied.ends ends _ rfl with rfl | stopped
      · have linked := (@replaced_resolvConf walk start original
          (renderResolvConf config.owner config.servers)).trans
          (h.written_link _ ⟨target, link⟩)
        exact (close_linked walk handle (linked.trans link) (replaced_temp _) (replaced_backup _)
          (replaced_dir h _)).visits visit
      · have saved := leftByClose_overwritten walk h notLink stopped
        obtain ⟨part, prefixed, rfl⟩ := stopped
        exact .inr (.inr ((close_stopped walk handle saved.ready (overwritten_backup h _ _)
          ⟨part, prefixed, overwritten_file notLink _ _⟩).visits visit))

end Links

section Unopened

/-! What the temporary name leads to cannot be opened for writing. -/

theorem refusal_stored (plain : Plain fs backup) (refused : refusal walk fs temp ≠ none)
    (stored : Stored fs backup fs') : refusal walk fs' temp ≠ none := by
  rcases stored with rfl | ⟨content, rfl⟩
  · exact refused
  · have leads := @follow_update_file walk _ _ plain.not_link content temp
    have other : follow walk fs temp ≠ backup := by
      intro same
      exact refused (opens_of_plain_end (same ▸ plain))
    rwa [refusal, leads, Function.update_of_ne other]

theorem writeTemp_refused {e : IoError} (content : Bytes)
    (refused : refusal walk fs temp = some e) :
    Safe (faulty walk) (fun fs' => fs' = fs) (fun r _ => ∀ done, r ≠ .ok done)
      (writeTemp content).run fs := by
  have perform_create : ∀ busy, perform walk busy fs (.create temp) = (.error e, fs) := by
    intro busy
    simp [perform, refused]
  refine Safe.tryBind (M := fun r _ => ∀ done, r ≠ .ok done)
    (Safe.mapErr ⟨rfl, fun fs' torn => ?_, fun r fs' answer => ?_⟩)
    (fun done _ _ failed => absurd rfl (failed done)) (by simp)
  · rcases torn with same | rfl
    · exact same
    · rw [perform_create]
  · rcases answer with ⟨busy, answer⟩ | ⟨e', -, rfl, same⟩
    · obtain ⟨rfl, rfl⟩ := Prod.mk.inj (answer.symm.trans (perform_create busy))
      exact ⟨rfl, by simp [Except.mapError]⟩
    · exact ⟨same, by simp [Files.failure, Except.mapError]⟩

/-- The backup is all that such an `apply` changes. -/
theorem apply_unopened (refused : refusal walk fs temp ≠ none) (plain : Plain fs backup)
    (hc : fs resolvConf = some (.file original))
    (foreign : ¬ ownerHeader config.owner <+: original) :
    Safe (faulty walk) (Stored fs backup) (fun r _ => ∀ handle, r ≠ .ok handle)
      (apply config).run fs := by
  refine apply_safe_of_install walk hc foreign (.inl rfl) (by simp) ?_
  have plainRc : Plain fs resolvConf := plain_iff.mpr (.inr ⟨original, hc⟩)
  have copy := copyWithFsync_frame walk plainRc plain backup_ne_resolvConf.symm
  refine Safe.tryBind (copy.imp (fun _ => CopiedPart.stored) fun _ _ _ _ => trivial) ?_
    (M := fun _ _ => True) (by simp)
  intro _ fs₂ stored _
  obtain ⟨e, refused₂⟩ := Option.ne_none_iff_exists'.mp (refusal_stored walk plain refused stored)
  refine Safe.tryBind ((writeTemp_refused walk _ refused₂).imp
    (fun _ same => same ▸ stored) fun _ _ _ failed => failed) ?_ (by simp)
  exact fun done _ _ failed => absurd rfl (failed done)

end Unopened

section Recovering

theorem recovers_of_free (global : config.domains = []) (valid : ValidOwner config.owner)
    (cleanup : Yields (calm walk) (cleanupResidual config.owner).run fs (.ok ()) fs')
    (foreign : ¬ ownerHeader config.owner <+: original)
    (free : (Slot.free : Slot original).Represents fs') :
    Recovers walk original config fs := by
  have applied := apply_fresh walk global cleanup free.ready free.kept free.content
  intro r fs₁ ends
  obtain ⟨rfl, rfl⟩ := applied.ends ends
  refine ⟨_, rfl, fun r' fs₂ ends' => ?_⟩
  have held := Slot.represents_installed valid foreign free
  obtain ⟨fs₃, closed, restored, _⟩ := Slot.close_refines walk held ⟨config.owner⟩ valid
  simp only [Slot.close, ite_true] at closed restored
  obtain ⟨rfl, rfl⟩ := closed.ends ends'
  exact ⟨rfl, restored.content, restored.kept⟩

theorem not_recovers_of_error {e : ResolvConfError}
    (refused : Yields (calm walk) (apply config).run fs (.error e) fs') :
    ¬ Recovers walk original config fs := by
  intro recovers
  obtain ⟨handle, ok, _⟩ := recovers _ _ (refused.exists_ends (calm_total walk))
  cases ok

/-- A file that is not marked for the owner beside a backup is refused. -/
theorem not_recovers_of_unmarked {current kept : Bytes} (h : Ready fs)
    (global : config.domains = []) (hc : fs resolvConf = some (.file current))
    (unmarked : ¬ ownerHeader config.owner <+: current)
    (hb : fs backup = some (.file kept)) : ¬ Recovers walk original config fs := by
  by_cases utf8 : Utf8 current
  · exact not_recovers_of_error walk (apply_stale walk global
      (cleanupResidual_foreign walk h hc utf8 unmarked) h.plainBackup hb)
  · exact not_recovers_of_error walk (apply_failedCleanup walk global
      (cleanupResidual_unreadable walk h hc utf8))

/-- A link that becomes the file, or stays it, is not the original. -/
theorem not_recovers_of_stuck {target : Bytes} {busy : Bool}
    (applied : Safe (routed walk busy) (fun _ => True)
      (fun r fs' => ∀ handle, r = .ok handle → fs' resolvConf = some (.link target))
      (apply config).run fs) : ¬ Recovers walk original config fs := by
  intro recovers
  obtain ⟨r, fs₁, run⟩ := exists_ends (routed_total walk busy) (apply config).run fs
  obtain ⟨handle, rfl, closes⟩ := recovers r fs₁ (ends_of_routed run)
  have link := applied.ends run handle rfl
  obtain ⟨r', fs₂, run'⟩ := exists_ends (routed_total walk true) (close handle).run fs₁
  obtain ⟨-, file, -⟩ := closes r' fs₂ (ends_of_routed run')
  cases file.symm.trans ((close_busyRoute handle link).ends run')

theorem not_recovers_of_linkedTemp (link : IsLink fs temp) :
    ¬ Recovers walk original config fs := by
  obtain ⟨target, link⟩ := link
  exact not_recovers_of_stuck walk (apply_plainRoute config link)

theorem not_recovers_of_linkedFile (link : IsLink fs resolvConf) :
    ¬ Recovers walk original config fs := by
  obtain ⟨target, link⟩ := link
  exact not_recovers_of_stuck walk (apply_busyRoute config link)

/-- A backup that has been written over restores what was written there. -/
theorem not_recovers_of_leftByClose {kept : Bytes} (lost : kept ≠ original)
    (global : config.domains = []) (valid : ValidOwner config.owner)
    (marked : ownerHeader config.owner <+: kept) (text : Utf8 kept)
    (texts : ∀ part, part <+: generated ∨ part <+: kept → Utf8 part)
    (saved : LeftByClose kept generated fs) : ¬ Recovers walk original config fs := by
  rcases saved.content with ⟨hc, hb⟩ | ⟨hb, current, prefixed, hc⟩
  · exact not_recovers_of_error walk (apply_failedCleanup walk global
      (cleanupResidual_lost walk saved.ready hc text marked hb))
  by_cases found : ownerHeader config.owner <+: current
  swap
  · exact not_recovers_of_unmarked walk saved.ready global hc found hb
  have ready := saved.ready.moved saved.ready.plainBackup etc_ne_backup etc_ne_resolvConf
  have applied := @apply_fresh walk _ kept _ _ global
    (cleanupResidual_restore walk saved.ready hc (texts current prefixed) found hb) ready
    (by rw [move, Function.update_of_ne backup_ne_resolvConf, Function.update_self])
    (by rw [move, Function.update_self, hb])
  have closed : Yields (calm walk) (close ⟨config.owner⟩).run _ _ _ :=
    close_restore walk (ready_installed ready kept _) (installed_resolvConf _)
      (ascii_render valid.ascii config.servers).utf8 (ownerHeader_prefix_render _ _)
      (installed_backup _)
  intro recovers
  obtain ⟨handle, ok, closes⟩ := recovers _ _ (applied.exists_ends (calm_total walk))
  cases ok
  obtain ⟨-, file, -⟩ := closes _ _ (closed.exists_ends (calm_total walk))
  rw [move, Function.update_self, installed_backup] at file
  cases file
  exact lost rfl

theorem not_recovers_of_unopened (refused : refusal walk fs temp ≠ none) (plain : Plain fs backup)
    {current : Bytes} (hc : fs resolvConf = some (.file current))
    (foreign : ¬ ownerHeader config.owner <+: current) :
    ¬ Recovers walk original config fs := by
  intro recovers
  obtain ⟨r, fs₁, run⟩ := exists_ends (calm_total walk) (apply config).run fs
  obtain ⟨handle, rfl, -⟩ := recovers r fs₁ run
  have faulty : Ends (faulty walk) (apply config).run fs (.ok handle) fs₁ :=
    run.mono fun _ _ _ _ answer => .inl answer
  exact (apply_unopened walk refused plain hc foreign).ends faulty handle rfl

theorem leftover_recovers_iff {first second : NormalizedConfig} (valid : ValidOwner first.owner)
    (same : second.owner = first.owner) (global : second.domains = []) (text : Utf8 original)
    (foreign : ¬ ownerHeader first.owner <+: original)
    (left : Leftover original (renderResolvConf first.owner first.servers) fs) :
    Recovers walk original second fs ↔ fs backup = none ∨ MarkedFor first.owner fs := by
  rw [← same] at valid foreign
  have markedIff : ∀ {current}, fs resolvConf = some (.file current) →
      (MarkedFor first.owner fs ↔ ownerHeader second.owner <+: current) := by
    intro current hc
    simp [MarkedFor, hc, same]
  by_cases noBackup : fs backup = none
  · -- without a backup the original is in place
    have hc : fs resolvConf = some (.file original) := by
      rcases left.content with hc | ⟨hb, _⟩
      · exact hc
      · simp [noBackup] at hb
    refine iff_of_true ?_ (.inl noBackup)
    exact recovers_of_free walk global valid
      (cleanupResidual_foreign walk left.ready hc text foreign) foreign
      ⟨left.ready, text, hc, noBackup⟩
  obtain ⟨kept, hb⟩ : ∃ kept, fs backup = some (.file kept) := by
    rcases plain_iff.mp left.ready.plainBackup with none | some
    · exact absurd none noBackup
    · exact some
  obtain ⟨current, hc, restores⟩ : ∃ current, fs resolvConf = some (.file current) ∧
      (ownerHeader second.owner <+: current → kept = original ∧ Utf8 current) := by
    rcases left.content with hc | ⟨hb', part, prefixed, hc⟩
    · exact ⟨original, hc, fun marked => absurd marked foreign⟩
    · refine ⟨part, hc, fun marked => ?_⟩
      rcases prefixed with prefixed | prefixed
      · have ascii := ascii_render (same ▸ valid.ascii : Ascii first.owner) first.servers
        exact ⟨by simpa [hb] using hb', (ascii.sublist prefixed.sublist).utf8⟩
      · exact absurd (marked.trans prefixed) foreign
  simp only [noBackup, false_or, markedIff hc]
  by_cases marked : ownerHeader second.owner <+: current
  · obtain ⟨rfl, utf8⟩ := restores marked
    refine iff_of_true ?_ marked
    refine recovers_of_free walk global valid
      (cleanupResidual_restore walk left.ready hc utf8 marked hb) foreign ⟨?_, text, ?_, ?_⟩
    · exact left.ready.moved left.ready.plainBackup etc_ne_backup etc_ne_resolvConf
    · rw [move, Function.update_self, hb]
      rfl
    · rw [move, Function.update_of_ne backup_ne_resolvConf, Function.update_self]
      rfl
  · exact iff_of_false (not_recovers_of_unmarked walk left.ready global hc marked hb) marked

/-- A temporary name that cannot be opened stops the next application, too. -/
theorem killed_not_recovers_of_refused {first second : NormalizedConfig}
    (refused : refusal walk start temp ≠ none) (plain : Plain start backup)
    (rc : start resolvConf = some (.file original)) (same : second.owner = first.owner)
    (foreign : ¬ ownerHeader first.owner <+: original) (killed : Killed walk start first fs) :
    refusal walk fs temp ≠ none ∧ ¬ Recovers walk original second fs := by
  have unopened : Safe (faulty walk) _ _ (apply first).run start :=
    apply_unopened walk refused plain rc foreign
  cases killed with
  | close ends _ => exact absurd rfl (unopened.ends ends _)
  | apply visit =>
      have stored := unopened.visits visit
      have hc := (stored.other backup_ne_resolvConf.symm).trans rc
      have still := refusal_stored walk plain refused stored
      exact ⟨still, not_recovers_of_unopened walk still (stored.plain plain) hc (same ▸ foreign)⟩

/-- What has been stopped beside a link recovers once the link is out of the way, unless it led
to the backup. -/
theorem killed_recovers_iff_of_link {first second : NormalizedConfig}
    (h : Accepted walk original start) (plain : Plain start resolvConf)
    (link : start temp = some (.link target)) (foreign : ¬ ownerHeader first.owner <+: original)
    (valid : ValidOwner first.owner) (same : second.owner = first.owner)
    (global : second.domains = []) (killed : Killed walk start first fs) :
    Recovers walk original second fs ↔
      follow walk start temp ≠ backup ∧ Plain fs resolvConf ∧ Plain fs temp ∧
        (fs backup = none ∨ MarkedFor first.owner fs) := by
  rcases killed_linked walk h plain.not_link link foreign killed with linked | linked | saved
  · refine iff_of_false (not_recovers_of_linkedTemp walk linked) ?_
    intro all
    exact all.2.2.1.not_link linked
  · refine iff_of_false (not_recovers_of_linkedFile walk linked) ?_
    intro all
    exact all.2.1.not_link linked
  · by_cases lost : follow walk start temp = backup
    · refine iff_of_false ?_ (fun all => all.1 lost)
      rw [backedUp, if_pos lost] at saved
      have ascii := ascii_render valid.ascii first.servers
      refine not_recovers_of_leftByClose walk ?_ global (same ▸ valid) ?_ ascii.utf8 ?_ saved
      · intro equal
        exact foreign (equal ▸ ownerHeader_prefix_render _ _)
      · exact same ▸ ownerHeader_prefix_render first.owner first.servers
      · intro part prefixed
        exact (ascii.sublist (prefixed.elim (·.sublist) (·.sublist))).utf8
    · rw [backedUp, if_neg lost] at saved
      rw [leftover_recovers_iff walk valid same global h.text foreign saved.leftover]
      simp [lost, saved.ready.plainRc, saved.ready.plainTemp]

end Recovering

/-- After a process of this owner is stopped anywhere, the next apply of the same owner
recovers exactly when the temporary name did not lead to the backup, neither it nor the file is
anything but a regular file now, and no backup was left or the owner's header is in the file. -/
theorem crash_recovery_iff {first second : NormalizedConfig} (text : Utf8 original)
    (rc : start resolvConf = some (.file original)) (unowned : ¬ HasOwnerHeader original)
    (noBackup : start backup = none) (dir : start etc = some .dir)
    (valid : ValidOwner first.owner) (same : second.owner = first.owner)
    (global : second.domains = []) (killed : Killed walk start first fs) :
    Recovers walk original second fs ↔
      follow walk start temp ≠ backup ∧ Plain fs resolvConf ∧ Plain fs temp ∧
        (fs backup = none ∨ MarkedFor first.owner fs) := by
  have foreign : ¬ ownerHeader first.owner <+: original := fun marked => unowned ⟨_, valid, marked⟩
  have plainRc : Plain start resolvConf := plain_iff.mpr (.inr ⟨original, rc⟩)
  have plainBackup : Plain start backup := plain_iff.mpr (.inl noBackup)
  by_cases opens : refusal walk start temp = none
  swap
  · obtain ⟨refused, not⟩ :=
      killed_not_recovers_of_refused walk opens plainBackup rc same foreign killed
    refine iff_of_false not ?_
    intro all
    exact refused (refusal_of_plain all.2.2.1)
  by_cases link : IsLink start temp
  · obtain ⟨target, link⟩ := link
    exact killed_recovers_iff_of_link walk
      ⟨(readFile_of_plain plainRc).mpr rc, text, noBackup, opens, dir⟩ plainRc link foreign valid
      same global killed
  · have plainTemp : Plain start temp := by
      have ends := plain_of_opens opens
      rwa [follow_of_not_link walk link] at ends
    have left := killed_leftover walk ⟨plainRc, plainBackup, plainTemp, dir⟩ rc foreign killed
    rw [leftover_recovers_iff walk valid same global text foreign left,
      follow_of_plain plainTemp]
    simp [temp_ne_backup, left.ready.plainRc, left.ready.plainTemp]

/-- The state of a machine on which owner `a` is killed right after the backup. -/
def sampleKilled : Fs :=
  killedAfter (Files.perform id false) 3 (apply (sampleConfig "a")).run sampleFs

theorem sample_killed : Killed id sampleFs (sampleConfig "a") sampleKilled :=
  .apply (visits_killedAfter (faulty_perform id false) 3 _ _)

theorem crash_recovery_sample :
    Recovers id sampleContent (sampleConfig "a") sampleApplied ↔
      follow id sampleFs temp ≠ backup ∧ Plain sampleApplied resolvConf ∧
        Plain sampleApplied temp ∧
        (sampleApplied backup = none ∨ MarkedFor (bytes "a") sampleApplied) :=
  crash_recovery_iff id (by decide) rfl sample_unowned (by decide) sample_ready.dir
    (show ValidOwner (sampleConfig "a").owner by decide) rfl rfl
    (.apply (ends_exec (faulty_perform id false) _ _).visits)

set_option maxRecDepth 20000 in
/-- Once the backup is copied and the header is not yet in the file, the same
owner is refused for good. -/
theorem killed_after_backup_stays_locked :
    ¬ ∀ (walk : Bytes → Bytes) (original : Bytes) (start fs : Fs)
      (first second : NormalizedConfig), Ready start → Utf8 original →
      start resolvConf = some (.file original) → start backup = none →
      ¬ HasOwnerHeader original → ValidOwner first.owner → second.owner = first.owner →
      second.domains = [] → Killed walk start first fs → Recovers walk original second fs := by
  intro claim
  have recovers := claim id sampleContent sampleFs sampleKilled (sampleConfig "a")
    (sampleConfig "a") sample_ready (by decide) rfl (by decide) sample_unowned (by decide) rfl rfl
    sample_killed
  have left := killed_leftover id sample_ready rfl sample_foreign sample_killed
  have hc : sampleKilled resolvConf = some (.file sampleContent) := by decide
  have hb : sampleKilled backup = some (.file sampleContent) := by decide
  exact not_recovers_of_unmarked id left.ready rfl hc sample_foreign hb recovers

end Setdns.Linux.ResolvConf

import Setdns.Linux.ResolvConfLinks

/-!
Applying and closing on a file that may be a symbolic link, beside a temporary name that may be
one, too. Reading and copying go through links, a plain rename replaces them. So what comes
back depends on the routes of the two renames and on where the temporary name leads.
-/

namespace Setdns.Linux.ResolvConf

open Text Effects Effects.Program Effects.Files

variable (walk : Bytes → Bytes)

/-- Applying and then closing succeed and bring back the entry, its content, and
the absence of both other files. -/
def RestoresExactly (busyApply busyClose : Bool) (config : NormalizedConfig) (original : Bytes)
    (fs : Fs) : Prop :=
  ∃ handle fs₁ fs₂,
    exec (perform walk busyApply) (apply config).run fs = (.ok handle, fs₁) ∧
    exec (perform walk busyClose) (close handle).run fs₁ = (.ok (), fs₂) ∧
    fs₂ resolvConf = fs resolvConf ∧ readFile walk fs₂ resolvConf = .ok original ∧
    fs₂ backup = none ∧ fs₂ temp = none

/-- The temporary name leads neither to the file nor to the backup. -/
def Aside (fs : Fs) : Prop :=
  follow walk fs temp ≠ follow walk fs resolvConf ∧ follow walk fs temp ≠ backup

variable {walk} {busyApply busyClose : Bool} {fs fs₁ fs₂ : Fs}
  {target original generated kept : Bytes} {config : NormalizedConfig} {handle : SetDns}

theorem restoresExactly_iff {r : Except ResolvConfError Unit}
    (applied : Yields (routed walk busyApply) (apply config).run fs (.ok handle) fs₁)
    (closed : Yields (routed walk busyClose) (close handle).run fs₁ r fs₂) :
    RestoresExactly walk busyApply busyClose config original fs ↔
      r = .ok () ∧ fs₂ resolvConf = fs resolvConf ∧ readFile walk fs₂ resolvConf = .ok original ∧
        fs₂ backup = none ∧ fs₂ temp = none := by
  have applied := Yields.of_iff.mp applied
  have closed := Yields.of_iff.mp closed
  constructor
  · rintro ⟨handle', fs₁', fs₂', applied', closed', rest⟩
    rw [applied] at applied'
    cases applied'
    rw [closed] at closed'
    cases closed'
    exact ⟨rfl, rest⟩
  · rintro ⟨rfl, rest⟩
    exact ⟨handle, fs₁, fs₂, applied, closed, rest⟩

theorem not_restoresExactly_of_unread
    (applied : Yields (routed walk busyApply) (apply config).run fs (.ok handle) fs₁)
    (unread : ¬ Reads walk handle.owner fs₁) :
    ¬ RestoresExactly walk busyApply busyClose config original fs := by
  obtain ⟨e, refused⟩ := @close_refused walk busyClose _ handle unread
  rw [restoresExactly_iff applied refused]
  simp

section Closing

/-- The plain route leaves the saved content as a regular file. -/
theorem restored_plainRoute
    (applied : Yields (routed walk busyApply) (apply config).run fs (.ok handle) fs₁)
    (reads : Reads walk handle.owner fs₁) (hb : fs₁ backup = some (.file kept))
    (dir : fs₁ etc = some .dir) (cleared : fs₁ temp = none) :
    RestoresExactly walk busyApply false config original fs ↔
      fs resolvConf = some (.file original) ∧ kept = original := by
  obtain ⟨current, read, -⟩ := id reads
  have there : fs₁ backup ≠ none := by simp [hb]
  have moved : move fs₁ backup resolvConf resolvConf = some (.file kept) := by
    rw [move, Function.update_self, hb]
  have dir₂ : move fs₁ backup resolvConf etc = some .dir := by
    rw [move, Function.update_of_ne etc_ne_resolvConf, Function.update_of_ne etc_ne_backup, dir]
  have closed := close_routed reads hb
    (@rename_plainRoute walk _ _ _ there (present_of_readFile read).2) dir₂
  have text : readFile walk (move fs₁ backup resolvConf) resolvConf = .ok kept :=
    (readFile_of_plain (plain_iff.mpr (.inr ⟨kept, moved⟩))).mpr moved
  have gone : move fs₁ backup resolvConf backup = none := by
    rw [move, Function.update_of_ne backup_ne_resolvConf, Function.update_self]
  have temp₂ : move fs₁ backup resolvConf temp = none := by
    rw [move, Function.update_of_ne temp_ne_resolvConf, Function.update_of_ne temp_ne_backup,
      cleared]
  rw [restoresExactly_iff applied closed, moved, text, gone, temp₂]
  constructor
  · intro restored
    obtain ⟨-, entry, same, -⟩ := restored
    cases same
    exact ⟨entry.symm, rfl⟩
  · intro both
    obtain ⟨entry, rfl⟩ := both
    exact ⟨rfl, entry.symm, rfl, rfl, rfl⟩

section BusyRoute

/-! The busy route writes the saved content to where the file leads, and removes the backup. -/

theorem busyRoute_of_ne {p : Bytes} (ne : p ≠ backup) :
    unlink (store walk fs₁ resolvConf kept) backup p =
      Function.update fs₁ (follow walk fs₁ resolvConf) (some (.file kept)) p := by
  rw [unlink, Function.update_of_ne ne, store_eq]

/-- An entry that is no file stays. -/
theorem busyRoute_keeps {current p : Bytes}
    (read : readFile walk fs₁ resolvConf = .ok current) (ne : p ≠ backup)
    (other : ∀ content, fs₁ p ≠ some (.file content)) :
    unlink (store walk fs₁ resolvConf kept) backup p = fs₁ p := by
  have apart : p ≠ follow walk fs₁ resolvConf := by
    intro same
    exact other current (same ▸ readFile_ok_iff.mp read)
  rw [busyRoute_of_ne ne, Function.update_of_ne apart]

theorem busyRoute_reads {current : Bytes}
    (read : readFile walk fs₁ resolvConf = .ok current) (hb : fs₁ backup = some (.file kept))
    (apart : follow walk fs₁ resolvConf ≠ backup) :
    readFile walk (unlink (store walk fs₁ resolvConf kept) backup) resolvConf = .ok kept := by
  have file := readFile_ok_iff.mp read
  have notLink : ¬ IsLink (store walk fs₁ resolvConf kept) backup := by
    have still : store walk fs₁ resolvConf kept backup = some (.file kept) := by
      rw [store_eq, Function.update_of_ne apart.symm, hb]
    exact not_link_of_file still
  have leads : follow walk (unlink (store walk fs₁ resolvConf kept) backup) resolvConf =
      follow walk fs₁ resolvConf := by
    rw [unlink, follow_update notLink (by simp), store_eq,
      follow_update_file (not_link_of_file file)]
  rw [readFile_ok_iff, leads, busyRoute_of_ne apart, Function.update_self]

end BusyRoute

theorem restored_busyRoute
    (applied : Yields (routed walk busyApply) (apply config).run fs (.ok handle) fs₁)
    (reads : Reads walk handle.owner fs₁) (hb : fs₁ backup = some (.file kept))
    (apart : follow walk fs₁ resolvConf ≠ backup) (dir : fs₁ etc = some .dir)
    (cleared : fs₁ temp = none) :
    RestoresExactly walk busyApply true config original fs ↔
      Function.update fs₁ (follow walk fs₁ resolvConf) (some (.file kept)) resolvConf =
        fs resolvConf ∧ kept = original := by
  obtain ⟨current, read, -⟩ := id reads
  have opens : refusal walk fs₁ resolvConf = none :=
    opens_of_plain_end (plain_iff.mpr (.inr ⟨current, readFile_ok_iff.mp read⟩))
  have readable : readFile walk fs₁ backup = .ok kept :=
    (readFile_of_plain (plain_iff.mpr (.inr ⟨kept, hb⟩))).mpr hb
  have all : copied walk fs₁ backup resolvConf kept = kept := by
    simp [copied, follow_of_not_link walk (not_link_of_file hb), apart.symm]
  have renamed := rename_busyRoute readable opens
  rw [all] at renamed
  have dir₂ : unlink (store walk fs₁ resolvConf kept) backup etc = some .dir := by
    rw [busyRoute_keeps read etc_ne_backup (by simp [dir]), dir]
  have closed := close_routed reads hb renamed dir₂
  have gone : unlink (store walk fs₁ resolvConf kept) backup backup = none :=
    Function.update_self ..
  have temp₂ : unlink (store walk fs₁ resolvConf kept) backup temp = none := by
    rw [busyRoute_keeps read temp_ne_backup (by simp [cleared]), cleared]
  rw [restoresExactly_iff applied closed, busyRoute_of_ne backup_ne_resolvConf.symm,
    busyRoute_reads read hb apart, gone, temp₂]
  constructor
  · intro restored
    obtain ⟨-, entry, same, -⟩ := restored
    cases same
    exact ⟨entry, rfl⟩
  · intro both
    obtain ⟨entry, rfl⟩ := both
    exact ⟨rfl, entry, rfl, rfl, rfl⟩

/-- A link stays on the busy route. -/
theorem busyClose_keeps
    (applied : Yields (routed walk busyApply) (apply config).run fs (.ok handle) fs₁)
    (link : fs₁ resolvConf = some (.link target))
    (restored : RestoresExactly walk busyApply true config original fs) :
    fs resolvConf = some (.link target) := by
  obtain ⟨handle', fs₁', fs₂, applied', closed, entry, -⟩ := restored
  have applied := Yields.of_iff.mp applied
  rw [applied] at applied'
  cases applied'
  have ends := (Yields.of_iff.mpr closed).exists_ends (routed_total walk true)
  rw [← entry]
  exact (close_busyRoute handle link).ends ends

end Closing

section BusyApply

/-! `apply` copies the generated file to where the file leads, and removes the temporary name. -/

/-- A file that is copied onto itself ends empty. -/
theorem apply_overwrites (h : Accepted walk original fs)
    (foreign : ¬ ownerHeader config.owner <+: original) (global : config.domains = []) :
    Yields (routed walk true) (apply config).run fs (.ok ⟨config.owner⟩)
      (overwritten walk fs original (renderResolvConf config.owner config.servers)
        (if follow walk fs temp = follow walk fs resolvConf then []
          else renderResolvConf config.owner config.servers)) := by
  set generated := renderResolvConf config.owner config.servers
  have renamed := rename_busyRoute (h.written_read generated) (h.written_opens generated)
  simp only [store_eq, copied, h.written_follow] at renamed
  exact apply_routed h foreign global renamed (overwritten_dir h _ _)

theorem overwritten_unread (h : Accepted walk original fs) (owner : Bytes) :
    ¬ Reads walk owner (overwritten walk fs original generated []) := by
  intro reads
  obtain ⟨content, read, -, marked⟩ := reads
  have file := readFile_ok_iff.mp (readFile_of_unlink read)
  rw [follow_update_file (h.written_stops generated), h.written_follow,
    Function.update_self] at file
  cases file
  simp [ownerHeader] at marked

theorem overwritten_follow (h : Accepted walk original fs)
    (apart : follow walk fs temp ≠ follow walk fs resolvConf) (part : Bytes) :
    follow walk (overwritten walk fs original generated part) resolvConf =
      follow walk fs resolvConf := by
  have leads := fun p => (follow_update_file (h.written_stops generated) part p).trans
    (h.written_follow generated p)
  rw [overwritten, unlink, follow_update_of_ne ?_ ?_, leads]
  · rw [leads]
    exact not_link_of_file (Function.update_self ..)
  · rwa [leads, leads]

theorem overwritten_target (h : Accepted walk original fs)
    (apart : follow walk fs temp ≠ follow walk fs resolvConf) (part : Bytes) :
    overwritten walk fs original generated part (follow walk fs resolvConf) =
      some (.file part) := by
  rw [overwritten, unlink, Function.update_of_ne (h.target_ne_temp apart), Function.update_self]

theorem overwritten_link (h : Accepted walk original fs) (link : IsLink fs resolvConf)
    (part : Bytes) :
    overwritten walk fs original generated part resolvConf = fs resolvConf := by
  rw [overwritten, unlink, Function.update_of_ne temp_ne_resolvConf.symm,
    Function.update_of_ne (h.target_ne_resolvConf link), h.written_link generated link]

theorem busyApply_iff (h : Accepted walk original fs)
    (foreign : ¬ ownerHeader config.owner <+: original) (valid : ValidOwner config.owner)
    (global : config.domains = []) :
    RestoresExactly walk true busyClose config original fs ↔
      Aside walk fs ∧ (busyClose = true ∨ ¬ IsLink fs resolvConf) := by
  have applied := apply_overwrites h foreign global
  by_cases same : follow walk fs temp = follow walk fs resolvConf
  · rw [if_pos same] at applied
    refine iff_of_false (not_restoresExactly_of_unread applied (overwritten_unread h _)) ?_
    intro both
    exact both.1.1 same
  rw [if_neg same] at applied
  set generated := renderResolvConf config.owner config.servers with hg
  have leads := @overwritten_follow _ _ _ generated h same generated
  have target := @overwritten_target _ _ _ generated h same generated
  have reads : Reads walk config.owner (overwritten walk fs original generated generated) :=
    reads_generated valid (by rw [readFile_ok_iff, leads, target])
  have saved := overwritten_backup h generated generated
  have cleared := @overwritten_temp walk fs original generated generated
  have intact := @backedUp_eq_iff walk fs _ config foreign
  rw [← hg] at intact
  cases busyClose with
  | false =>
      rw [restored_plainRoute applied reads saved (overwritten_dir h _ _) cleared, intact,
        h.regular_iff]
      simp [Aside, same, and_comm]
  | true =>
      rw [restored_busyRoute applied reads saved (leads ▸ h.target_ne_backup)
        (overwritten_dir h _ _) cleared, intact, leads]
      simp only [Aside, ne_eq, same, not_false_eq_true, true_and, true_or, and_true,
        and_iff_right_iff_imp]
      intro notBackup
      by_cases link : IsLink fs resolvConf
      · rw [Function.update_of_ne (h.target_ne_resolvConf link), overwritten_link h link]
      · rw [follow_of_not_link walk link, Function.update_self, h.regular link, backedUp,
          if_neg notBackup]

end BusyApply

section PlainApply

/-! `apply` moves the temporary name to the file, with whatever it stands for. -/

theorem plainApply_of_plain (h : Accepted walk original fs) (plain : Plain fs temp)
    (foreign : ¬ ownerHeader config.owner <+: original) (valid : ValidOwner config.owner)
    (global : config.domains = []) :
    RestoresExactly walk false busyClose config original fs ↔ ¬ IsLink fs resolvConf := by
  have applied := apply_replaces h foreign global
  set generated := renderResolvConf config.owner config.servers
  have here : follow walk fs temp = temp := follow_of_plain plain
  have file : replaced walk fs original generated resolvConf = some (.file generated) := by
    rw [replaced_resolvConf, written, here, Function.update_self]
  have leads : follow walk (replaced walk fs original generated) resolvConf = resolvConf :=
    follow_of_not_link walk (not_link_of_file file)
  have reads : Reads walk config.owner (replaced walk fs original generated) :=
    reads_generated valid (by rw [readFile_ok_iff, leads, file])
  have saved : replaced walk fs original generated backup = some (.file original) := by
    rw [replaced_backup, backedUp, here, if_neg temp_ne_backup]
  have apart : follow walk (replaced walk fs original generated) resolvConf ≠ backup := by
    rw [leads]
    exact backup_ne_resolvConf.symm
  cases busyClose with
  | false =>
      rw [restored_plainRoute applied reads saved (replaced_dir h _) (replaced_temp generated)]
      simp [h.regular_iff]
  | true =>
      rw [restored_busyRoute applied reads saved apart (replaced_dir h _)
        (replaced_temp generated), leads, Function.update_self]
      simp [← h.regular_iff, eq_comm]

/-- A link that is moved to the file leads to the generated content, unless it is a loop now. -/
theorem replaced_reads (h : Accepted walk original fs) (link : fs temp = some (.link target))
    (free : (¬ IsLink fs resolvConf ∧ follow walk fs temp ≠ resolvConf) ∨
      fs resolvConf = fs temp) :
    follow walk (replaced walk fs original generated) resolvConf = follow walk fs temp ∧
      replaced walk fs original generated (follow walk fs temp) = some (.file generated) := by
  set W := written walk fs original generated with hW
  have leads : follow walk W temp = follow walk fs temp := h.written_follow generated temp
  have linkW : W temp = some (.link target) := (h.written_link generated ⟨target, link⟩).trans link
  have target_file : W (follow walk fs temp) = some (.file generated) := written_temp generated
  have freeW : (¬ IsLink W resolvConf ∧ follow walk W temp ≠ resolvConf) ∨
      W resolvConf = W temp := by
    cases free with
    | inl free =>
        obtain ⟨notLink, other⟩ := free
        have plain := (h.written_plain generated).not_link
        rw [h.written_follow, follow_of_not_link walk notLink] at plain
        exact .inl ⟨plain, leads ▸ other⟩
    | inr same =>
        have linked : IsLink fs resolvConf := ⟨target, same.trans link⟩
        exact .inr (by rw [hW, h.written_link generated linked,
          h.written_link generated ⟨target, link⟩, same])
  have stops : ¬ IsLink W (follow walk W temp) := not_link_of_file (leads ▸ target_file)
  have notTemp : follow walk fs temp ≠ temp := by
    intro same
    have stops := h.temp_stops
    rw [same] at stops
    exact stops ⟨target, link⟩
  have notRc : follow walk fs temp ≠ resolvConf := by
    cases free with
    | inl free => exact free.2
    | inr same =>
        intro here
        have stops := h.temp_stops
        rw [here] at stops
        exact stops ⟨target, same.trans link⟩
  constructor
  · rw [replaced, ← hW, follow_moved linkW stops temp_ne_resolvConf freeW, leads]
  · rw [replaced, ← hW, move, Function.update_of_ne notRc, Function.update_of_ne notTemp,
      target_file]

theorem replaced_unread (h : Accepted walk original fs) (link : fs temp = some (.link target))
    (notLink : ¬ IsLink fs resolvConf) (loop : follow walk fs temp = resolvConf) (owner : Bytes) :
    ¬ Reads walk owner (replaced walk fs original generated) := by
  have stops := (h.written_plain generated).not_link
  rw [h.written_follow, follow_of_not_link walk notLink] at stops
  have looped := isLink_moved ((h.written_link generated ⟨target, link⟩).trans link) stops
    ((h.written_follow generated temp).trans loop)
  intro reads
  obtain ⟨content, read, -⟩ := reads
  exact not_link_of_file (readFile_ok_iff.mp read) looped

theorem replaced_readable (h : Accepted walk original fs) (link : fs temp = some (.link target))
    (valid : ValidOwner config.owner)
    (free : (¬ IsLink fs resolvConf ∧ follow walk fs temp ≠ resolvConf) ∨
      fs resolvConf = fs temp) :
    Reads walk config.owner
      (replaced walk fs original (renderResolvConf config.owner config.servers)) := by
  obtain ⟨leads, file⟩ := replaced_reads h link free
  exact reads_generated valid (by rw [readFile_ok_iff, leads, file])

/-- The plain close takes the link away, and so it finds the saved content of a regular file. -/
theorem plainClose_of_link (h : Accepted walk original fs) (link : fs temp = some (.link target))
    (foreign : ¬ ownerHeader config.owner <+: original) (valid : ValidOwner config.owner)
    (global : config.domains = []) :
    RestoresExactly walk false false config original fs ↔
      ¬ IsLink fs resolvConf ∧ Aside walk fs := by
  have applied := apply_replaces h foreign global
  have intact := @backedUp_eq_iff walk fs _ config foreign
  set generated := renderResolvConf config.owner config.servers with hg
  by_cases reads : Reads walk config.owner (replaced walk fs original generated)
  · rw [restored_plainRoute applied reads (replaced_backup generated) (replaced_dir h _)
      (replaced_temp generated), intact, h.regular_iff]
    refine and_congr_right fun notLink => ?_
    have apart : follow walk fs temp ≠ follow walk fs resolvConf := by
      rw [follow_of_not_link walk notLink]
      intro loop
      exact replaced_unread h link notLink loop _ reads
    simp [Aside, apart]
  · refine iff_of_false (not_restoresExactly_of_unread applied reads) ?_
    intro both
    obtain ⟨notLink, apart, -⟩ := both
    rw [follow_of_not_link walk notLink] at apart
    exact reads (replaced_readable h link valid (.inl ⟨notLink, apart⟩))

/-- The busy close keeps the link, which is right when it stood there before. -/
theorem busyClose_of_link (h : Accepted walk original fs) (link : fs temp = some (.link target))
    (foreign : ¬ ownerHeader config.owner <+: original) (valid : ValidOwner config.owner)
    (global : config.domains = []) :
    RestoresExactly walk false true config original fs ↔ fs temp = fs resolvConf := by
  have applied := apply_replaces h foreign global
  have intact := @backedUp_eq_iff walk fs _ config foreign
  set generated := renderResolvConf config.owner config.servers with hg
  have there : replaced walk fs original generated resolvConf = some (.link target) := by
    rw [replaced_resolvConf, h.written_link generated ⟨target, link⟩, link]
  constructor
  · intro restored
    rw [link, busyClose_keeps applied there restored]
  · intro same
    obtain ⟨leads, -⟩ := @replaced_reads _ _ _ _ generated h link (.inr same.symm)
    have linked : IsLink fs resolvConf := ⟨target, same ▸ link⟩
    -- both names lead to the same file, which is not the backup
    have together : follow walk fs temp = follow walk fs resolvConf := by
      rw [follow, follow, chase, chase, link, ← same, link]
    have notBackup : follow walk fs temp ≠ backup := together ▸ h.target_ne_backup
    have other : resolvConf ≠ follow walk fs temp := by
      intro here
      exact h.target_stops (together ▸ here ▸ linked)
    rw [restored_busyRoute applied (replaced_readable h link valid (.inr same.symm))
      (replaced_backup generated) (leads ▸ notBackup) (replaced_dir h _)
      (replaced_temp generated), intact, leads, Function.update_of_ne other, there, ← same, link]
    exact ⟨rfl, notBackup⟩

end PlainApply

/-- When applying and closing bring everything back: both renames have their say, and so has
where the temporary name leads. -/
theorem exact_restore_iff (walk : Bytes → Bytes) (busyApply busyClose : Bool) {fs : Fs}
    {original : Bytes} {config : NormalizedConfig}
    (accepted : readFile walk fs resolvConf = .ok original) (text : Utf8 original)
    (foreign : ¬ ownerHeader config.owner <+: original) (noBackup : fs backup = none)
    (opens : refusal walk fs temp = none) (dir : fs etc = some .dir)
    (valid : ValidOwner config.owner) (global : config.domains = []) :
    RestoresExactly walk busyApply busyClose config original fs ↔
      ((∃ content, fs resolvConf = some (.file content)) ∧ Aside walk fs ∧
        (Plain fs temp ∨ busyApply = true ∨ busyClose = false)) ∨
      (busyApply = true ∧ busyClose = true ∧ Aside walk fs) ∨
      (busyApply = false ∧ busyClose = true ∧ fs temp = fs resolvConf) := by
  have h : Accepted walk original fs := ⟨accepted, text, noBackup, opens, dir⟩
  rw [h.exists_regular_iff]
  cases busyApply with
  | true =>
      rw [busyApply_iff h foreign valid global]
      cases busyClose with
      | false => simp [and_comm]
      | true => by_cases link : IsLink fs resolvConf <;> simp [link]
  | false =>
      by_cases link : IsLink fs temp
      · obtain ⟨target, link⟩ := link
        have notPlain : ¬ Plain fs temp := fun plain => plain.not_link ⟨target, link⟩
        cases busyClose with
        | false =>
            rw [plainClose_of_link h link foreign valid global]
            simp [notPlain]
        | true =>
            rw [busyClose_of_link h link foreign valid global]
            simp [notPlain]
      · have plain : Plain fs temp := by
          have ends := plain_of_opens h.opens
          rwa [follow_of_not_link walk link] at ends
        have here : follow walk fs temp = temp := follow_of_plain plain
        rw [plainApply_of_plain h plain foreign valid global]
        by_cases linked : IsLink fs resolvConf
        · have other : fs temp ≠ fs resolvConf := by
            intro same
            exact plain.not_link (by rwa [IsLink, same])
          simp [linked, other]
        · have aside : Aside walk fs := by
            rw [Aside, here, follow_of_not_link walk linked]
            exact ⟨temp_ne_resolvConf, temp_ne_backup⟩
          simp [linked, plain, aside]

theorem exact_restore_sample :
    RestoresExactly id false true (sampleConfig "a") sampleContent sampleFs ↔
      ((∃ content, sampleFs resolvConf = some (.file content)) ∧ Aside id sampleFs ∧
        (Plain sampleFs temp ∨ false = true ∨ true = false)) ∨
      (false = true ∧ true = true ∧ Aside id sampleFs) ∨
      (false = false ∧ true = true ∧ sampleFs temp = sampleFs resolvConf) :=
  exact_restore_iff id false true (by decide) (by decide) sample_foreign (by decide)
    (by decide) sample_ready.dir (by decide) rfl

def sampleTarget : Bytes := bytes "../run/dns/resolv.conf"

/-- A machine whose file is a link to the sample content. -/
def sampleLinked : Fs := fun path =>
  if path = resolvConf then some (.link sampleTarget)
  else if path = bytes "/run/dns/resolv.conf" then some (.file sampleContent)
  else if path = etc then some .dir
  else none

def sampleWalk : Bytes → Bytes := fun _ => bytes "/run/dns/resolv.conf"

set_option maxRecDepth 4000 in
/-- Without a fault, on the direct route of both renames, the link is gone. -/
theorem plain_rename_replaces_link :
    sampleLinked resolvConf = some (.link sampleTarget) ∧
      ¬ bytes "systemd/resolve" <:+: sampleTarget ∧
      readFile sampleWalk sampleLinked resolvConf = .ok sampleContent ∧
      Utf8 sampleContent ∧ ¬ ownerHeader (sampleConfig "a").owner <+: sampleContent ∧
      sampleLinked backup = none ∧ sampleLinked temp = none ∧ ValidOwner (sampleConfig "a").owner ∧
      ¬ RestoresExactly sampleWalk false false (sampleConfig "a") sampleContent sampleLinked := by
  have accepted : Accepted sampleWalk sampleContent sampleLinked :=
    ⟨by decide, by decide, by decide, by decide, by decide⟩
  have valid : ValidOwner (sampleConfig "a").owner := by decide
  have free : sampleLinked temp = none := by decide
  have link : sampleLinked resolvConf = some (.link sampleTarget) := by decide
  refine ⟨link, by decide, accepted.read, by decide, sample_foreign, by decide, free, valid, ?_⟩
  rw [plainApply_of_plain accepted (plain_iff.mpr (.inl free)) sample_foreign valid rfl]
  exact not_not.mpr ⟨sampleTarget, link⟩

end Setdns.Linux.ResolvConf

import Setdns.Effects.Links
import Setdns.Linux.Handover

/-!
What the backend does when links are in its way. The generated file is written to
wherever the temporary name leads, and the rename moves the name and not the file. So a link
under the temporary name becomes `/etc/resolv.conf` on the plain route, and a link there
stays on the busy route.
-/

namespace Setdns.Linux.ResolvConf

open Text Effects Effects.Program Effects.Files

/-- All renames of a call take the same route. -/
abbrev routed (walk : Bytes → Bytes) (busy : Bool) : World FsCall FsCall.Ret Fs :=
  World.of (perform walk busy)

variable {walk : Bytes → Bytes} {busy : Bool} {fs fs' : Fs}
  {path src dst content target original generated part : Bytes}

theorem routed_yields {α : Type} {c : FsCall} {k : FsCall.Ret c → Io α} {r : FsCall.Ret c} {a : α}
    {fs'' : Fs} (hp : perform walk busy fs c = (r, fs'))
    (next : Yields (routed walk busy) (k r) fs' a fs'') :
    Yields (routed walk busy) (.call c k) fs a fs'' :=
  Yields.answer (fun _ _ given => Prod.mk.inj (given.symm.trans hp)) next

/-- A run on one route is a run without faults. -/
theorem ends_of_routed {α : Type} {p : Io α} {a : α} (e : Ends (routed walk busy) p fs a fs') :
    Ends (calm walk) p fs a fs' :=
  e.mono fun _ _ _ _ answer => ⟨busy, answer⟩

theorem safe_routed {α : Type} {p : Io α} {I : Fs → Prop} {Q : α → Fs → Prop}
    (safe : Safe (faulty walk) I Q p fs) : Safe (routed walk busy) I Q p fs :=
  safe.of_le (fun _ _ _ _ answer => .inl ⟨busy, answer⟩) fun _ _ _ cut => cut.elim

theorem routed_total (walk : Bytes → Bytes) (busy : Bool) : (routed walk busy).Total :=
  fun _ _ => ⟨_, _, rfl⟩

section Routes

/-- What can be read is an entry, and no directory. -/
theorem present_of_readFile (read : readFile walk fs path = .ok content) :
    fs path ≠ none ∧ fs path ≠ some .dir := by
  have file := readFile_ok_iff.mp read
  constructor
  · intro free
    rw [follow_of_not_link walk (not_link_of_none free), free] at file
    cases file
  · intro dir
    have entry : ¬ IsLink fs path := by simp [IsLink, dir]
    rw [follow_of_not_link walk entry, dir] at file
    cases file

theorem notDir_of_opens (opens : refusal walk fs path = none) : fs path ≠ some .dir := by
  intro dir
  have entry : ¬ IsLink fs path := by simp [IsLink, dir]
  simp [refusal, follow_of_not_link walk entry, dir] at opens

theorem store_eq (path content : Bytes) :
    store walk fs path content = Function.update fs (follow walk fs path) (some (.file content)) :=
  rfl

/-- What has been stored is read back. -/
theorem readFile_store (opens : refusal walk fs path = none) (content : Bytes) :
    readFile walk (store walk fs path content) path = .ok content := by
  rw [readFile_ok_iff, store_eq, follow_update_file (plain_of_opens opens).not_link,
    Function.update_self]

theorem copyWithFsync_routed (read : readFile walk fs src = .ok content)
    (opens : refusal walk fs dst = none) :
    Yields (routed walk busy) (copyWithFsync src dst).run fs (.ok ())
      (store walk fs dst (copied walk fs src dst content)) := by
  refine Yields.tryOk (Yields.mapErr (routed_yields (perform_copy_ok read opens busy)
    (.ret _ _))) ?_
  refine Yields.tryOk (Yields.mapErr (routed_yields
    (perform_openFile_ok (readFile_store opens _) busy) (.ret _ _))) ?_
  exact Yields.mapErr (routed_yields (perform_syncAll busy) (.ret _ _))

/-- The plain route replaces whatever entry is there, by whatever entry it is given. -/
theorem rename_plainRoute (hs : fs src ≠ none) (hd : fs dst ≠ some .dir) :
    Yields (routed walk false) (rename src dst).run fs (.ok ()) (move fs src dst) := by
  obtain ⟨e, hs⟩ := Option.ne_none_iff_exists'.mp hs
  have moved : perform walk false fs (.rename src dst) = (.ok (), move fs src dst) := by
    cases h : fs dst with
    | none => simp [perform, hs, h]
    | some e' => cases e' <;> simp_all [perform]
  exact Yields.lift (routed_yields moved (.ret _ _)) (.ret _ _)

/-- The busy route writes through links, and removes the name it was given. -/
theorem rename_busyRoute (read : readFile walk fs src = .ok content)
    (opens : refusal walk fs dst = none) :
    Yields (routed walk true) (rename src dst).run fs (.ok ())
      (unlink (store walk fs dst (copied walk fs src dst content)) src) := by
  obtain ⟨there, notDir⟩ := present_of_readFile read
  obtain ⟨e, entry⟩ := Option.ne_none_iff_exists'.mp there
  have refused : perform walk true fs (.rename src dst) = (.error (.os EBUSY), fs) := by
    have other := notDir_of_opens opens
    cases h : fs dst with
    | none => simp [perform, entry, h]
    | some e' => cases e' <;> simp_all [perform]
  have removed : ∀ stored : Bytes, perform walk true (store walk fs dst stored) (.removeFile src) =
      (.ok (), unlink (store walk fs dst stored) src) := by
    intro stored
    by_cases same : src = follow walk fs dst
    · exact perform_removeFile_ok (by rw [store_eq, ← same, Function.update_self]) true
    · have kept : store walk fs dst stored src = some e := by
        rw [store_eq, Function.update_of_ne same, entry]
      cases e with
      | file _ => simp [perform, kept]
      | link _ => simp [perform, kept]
      | dir => exact absurd entry notDir
  refine Yields.lift (routed_yields refused (.ret _ _)) ?_
  simp only [IoError.rawOsError, ite_true]
  refine Yields.tryOk (copyWithFsync_routed read opens) ?_
  exact Yields.mapErr (routed_yields (removed _) (.ret _ _))

/-- The generated file goes to where the temporary name leads. -/
theorem writeTemp_routed (opens : refusal walk fs temp = none) (content : Bytes) :
    Yields (routed walk busy) (writeTemp content).run fs (.ok ()) (store walk fs temp content) := by
  have created : perform walk busy fs (.create temp) = (.ok (), store walk fs temp []) := by
    simp [perform, opens]
  have written : perform walk busy (store walk fs temp []) (.writeAll temp content) =
      (.ok (), store walk fs temp content) := by
    simp only [perform, store_eq, follow_update_file (plain_of_opens opens).not_link,
      Function.update_idem]
  refine Yields.tryOk (Yields.mapErr (routed_yields created (.ret _ _))) ?_
  refine Yields.tryOk (Yields.mapErr (routed_yields written (.ret _ _))) ?_
  exact Yields.mapErr (routed_yields (perform_syncAll busy) (.ret _ _))

theorem syncEtc_routed (h : fs etc = some .dir) :
    Yields (routed walk busy) (syncDir etc).run fs (.ok ()) fs :=
  (syncDir_calm walk h).of_handler (calm_perform walk busy)

end Routes

section States

/-- A file of somebody else that is read through whatever leads to it, no backup, and a temporary
name that can be opened. -/
structure Accepted (walk : Bytes → Bytes) (original : Bytes) (fs : Fs) : Prop where
  read : readFile walk fs resolvConf = .ok original
  text : Utf8 original
  noBackup : fs backup = none
  opens : refusal walk fs temp = none
  dir : fs etc = some .dir

/-- The original is saved, and the generated file is written to where the temporary name leads. -/
def written (walk : Bytes → Bytes) (fs : Fs) (original generated : Bytes) : Fs :=
  Function.update (Function.update fs backup (some (.file original))) (follow walk fs temp)
    (some (.file generated))

/-- A temporary name that leads to the backup has replaced the original there. -/
def backedUp (walk : Bytes → Bytes) (fs : Fs) (original generated : Bytes) : Bytes :=
  if follow walk fs temp = backup then generated else original

/-- The plain route has moved the temporary name to the file. -/
def replaced (walk : Bytes → Bytes) (fs : Fs) (original generated : Bytes) : Fs :=
  move (written walk fs original generated) temp resolvConf

/-- The busy route has copied this much to where the file leads, and removed the temporary
name. -/
def overwritten (walk : Bytes → Bytes) (fs : Fs) (original generated part : Bytes) : Fs :=
  unlink (Function.update (written walk fs original generated) (follow walk fs resolvConf)
    (some (.file part))) temp

theorem written_temp (generated : Bytes) :
    written walk fs original generated (follow walk fs temp) = some (.file generated) :=
  Function.update_self ..

theorem written_other (generated : Bytes) {p : Bytes} (notTemp : p ≠ follow walk fs temp)
    (notBackup : p ≠ backup) : written walk fs original generated p = fs p := by
  rw [written, Function.update_of_ne notTemp, Function.update_of_ne notBackup]

theorem written_backup (generated : Bytes) : written walk fs original generated backup =
    some (.file (backedUp walk fs original generated)) := by
  by_cases same : follow walk fs temp = backup
  · rw [backedUp, if_pos same, written, same, Function.update_self]
  · rw [backedUp, if_neg same, written, Function.update_of_ne (Ne.symm same),
      Function.update_self]

namespace Accepted

theorem file (h : Accepted walk original fs) :
    fs (follow walk fs resolvConf) = some (.file original) :=
  readFile_ok_iff.mp h.read

theorem regular (h : Accepted walk original fs) (notLink : ¬ IsLink fs resolvConf) :
    fs resolvConf = some (.file original) := by
  have file := h.file
  rwa [follow_of_not_link walk notLink] at file

theorem regular_iff (h : Accepted walk original fs) :
    fs resolvConf = some (.file original) ↔ ¬ IsLink fs resolvConf :=
  ⟨not_link_of_file, h.regular⟩

theorem exists_regular_iff (h : Accepted walk original fs) :
    (∃ content, fs resolvConf = some (.file content)) ↔ ¬ IsLink fs resolvConf :=
  ⟨fun ⟨_, file⟩ => not_link_of_file file, fun notLink => ⟨original, h.regular notLink⟩⟩

theorem target_stops (h : Accepted walk original fs) : ¬ IsLink fs (follow walk fs resolvConf) :=
  not_link_of_file h.file

theorem temp_stops (h : Accepted walk original fs) : ¬ IsLink fs (follow walk fs temp) :=
  (plain_of_opens h.opens).not_link

theorem temp_ne_etc (h : Accepted walk original fs) : follow walk fs temp ≠ etc := by
  intro same
  have plain := plain_of_opens h.opens
  rw [same] at plain
  obtain ⟨content, file⟩ := plain _ h.dir
  cases file

theorem target_ne_backup (h : Accepted walk original fs) :
    follow walk fs resolvConf ≠ backup := by
  intro same
  have file := readFile_ok_iff.mp h.read
  rw [same, h.noBackup] at file
  cases file

theorem target_ne_etc (h : Accepted walk original fs) : follow walk fs resolvConf ≠ etc := by
  intro same
  have file := h.file
  rw [same, h.dir] at file
  cases file

theorem target_ne_resolvConf (h : Accepted walk original fs) (link : IsLink fs resolvConf) :
    resolvConf ≠ follow walk fs resolvConf := by
  intro same
  exact h.target_stops (same ▸ link)

theorem target_ne_temp (h : Accepted walk original fs)
    (apart : follow walk fs temp ≠ follow walk fs resolvConf) :
    follow walk fs resolvConf ≠ temp := by
  intro same
  have stops := h.target_stops
  rw [same] at stops
  exact apart ((follow_of_not_link walk stops).trans same.symm)

variable (generated)

theorem written_follow (h : Accepted walk original fs) (p : Bytes) :
    follow walk (written walk fs original generated) p = follow walk fs p := by
  have free : ¬ IsLink fs backup := not_link_of_none h.noBackup
  have plain : Plain (Function.update fs backup (some (.file original))) (follow walk fs temp) :=
    plain_update_file (plain_of_opens h.opens)
  rw [written, follow_update_file plain.not_link, follow_update_file free]

theorem written_link (h : Accepted walk original fs) {p : Bytes} (link : IsLink fs p) :
    written walk fs original generated p = fs p := by
  refine written_other generated ?_ ?_
  · rintro rfl
    exact h.temp_stops link
  · rintro rfl
    exact not_link_of_none h.noBackup link

theorem written_dir (h : Accepted walk original fs) :
    written walk fs original generated etc = some .dir := by
  rw [written_other generated h.temp_ne_etc.symm etc_ne_backup, h.dir]

theorem written_read (h : Accepted walk original fs) :
    readFile walk (written walk fs original generated) temp = .ok generated := by
  rw [readFile_ok_iff, h.written_follow, written_temp]

theorem written_plain (h : Accepted walk original fs) :
    Plain (written walk fs original generated)
      (follow walk (written walk fs original generated) resolvConf) := by
  rw [h.written_follow, written]
  exact plain_update_file (plain_update_file (plain_iff.mpr (.inr ⟨original, h.file⟩)))

theorem written_stops (h : Accepted walk original fs) :
    ¬ IsLink (written walk fs original generated) (follow walk fs resolvConf) := by
  have plain := (h.written_plain generated).not_link
  rwa [h.written_follow] at plain

theorem written_opens (h : Accepted walk original fs) :
    refusal walk (written walk fs original generated) resolvConf = none :=
  opens_of_plain_end (h.written_plain generated)

end Accepted

theorem replaced_backup (generated : Bytes) : replaced walk fs original generated backup =
    some (.file (backedUp walk fs original generated)) := by
  rw [replaced, move, Function.update_of_ne backup_ne_resolvConf,
    Function.update_of_ne temp_ne_backup.symm, written_backup]

theorem replaced_temp (generated : Bytes) : replaced walk fs original generated temp = none := by
  rw [replaced, move, Function.update_of_ne temp_ne_resolvConf, Function.update_self]

theorem replaced_resolvConf (generated : Bytes) :
    replaced walk fs original generated resolvConf = written walk fs original generated temp := by
  rw [replaced, move, Function.update_self]

theorem replaced_dir (h : Accepted walk original fs) (generated : Bytes) :
    replaced walk fs original generated etc = some .dir := by
  rw [replaced, move, Function.update_of_ne etc_ne_resolvConf, Function.update_of_ne etc_ne_temp,
    h.written_dir]

theorem overwritten_backup (h : Accepted walk original fs) (generated part : Bytes) :
    overwritten walk fs original generated part backup =
      some (.file (backedUp walk fs original generated)) := by
  rw [overwritten, unlink, Function.update_of_ne temp_ne_backup.symm,
    Function.update_of_ne h.target_ne_backup.symm, written_backup]

theorem overwritten_dir (h : Accepted walk original fs) (generated part : Bytes) :
    overwritten walk fs original generated part etc = some .dir := by
  rw [overwritten, unlink, Function.update_of_ne etc_ne_temp,
    Function.update_of_ne h.target_ne_etc.symm, h.written_dir]

theorem overwritten_file (notLink : ¬ IsLink fs resolvConf) (generated part : Bytes) :
    overwritten walk fs original generated part resolvConf = some (.file part) := by
  rw [overwritten, unlink, Function.update_of_ne temp_ne_resolvConf.symm,
    follow_of_not_link walk notLink, Function.update_self]

theorem overwritten_temp (generated part : Bytes) :
    overwritten walk fs original generated part temp = none := by
  rw [overwritten, unlink, Function.update_self]

end States

section Calls

variable {config : NormalizedConfig} {handle : SetDns}

/-- The calls of `apply` up to the rename. -/
theorem apply_routed (h : Accepted walk original fs)
    (foreign : ¬ ownerHeader config.owner <+: original) (global : config.domains = [])
    (renamed : Yields (routed walk busy) (rename temp resolvConf).run
      (written walk fs original (renderResolvConf config.owner config.servers)) (.ok ()) fs')
    (dir : fs' etc = some .dir) :
    Yields (routed walk busy) (apply config).run fs (.ok ⟨config.owner⟩) fs' := by
  have free : ¬ IsLink fs backup := not_link_of_none h.noBackup
  rw [apply, if_neg (not_not.mpr global)]
  have clean : Yields (routed walk busy) (cleanupResidual config.owner).run fs (.ok ()) fs := by
    refine Yields.lift (routed_yields (perform_readFile h.read h.text busy) (.ret _ _)) ?_
    simp only [foreign, ite_false]
    exact Yields.ret _ _
  refine Yields.tryOk clean ?_
  have absent : perform walk busy fs (.pathExists backup) = (false, fs) := by
    simp [perform, follow_of_not_link walk free, h.noBackup]
  refine Yields.lift (routed_yields absent (.ret _ _)) ?_
  simp only [Bool.false_eq_true, ite_false]
  have plain : Plain fs backup := plain_iff.mpr (.inl h.noBackup)
  have all : copied walk fs resolvConf backup original = original := by
    simp [copied, follow_of_not_link walk free, h.target_ne_backup]
  have stored : store walk fs backup original =
      Function.update fs backup (some (.file original)) := store_of_plain plain
  have saved := @copyWithFsync_routed walk busy _ _ _ _ h.read (refusal_of_plain plain)
  rw [all, stored] at saved
  refine Yields.tryOk saved ?_
  have leads := @follow_update_file walk _ _ free original temp
  have opens : refusal walk (Function.update fs backup (some (.file original))) temp = none := by
    refine opens_of_plain_end ?_
    rw [leads]
    exact plain_update_file (plain_of_opens h.opens)
  have aside := @writeTemp_routed walk busy _ opens
    (renderResolvConf config.owner config.servers)
  rw [store_eq, leads] at aside
  refine Yields.tryOk aside ?_
  refine Yields.tryOk renamed ?_
  exact Yields.tryOk (syncEtc_routed dir) (Yields.ret _ _)

theorem apply_replaces (h : Accepted walk original fs)
    (foreign : ¬ ownerHeader config.owner <+: original) (global : config.domains = []) :
    Yields (routed walk false) (apply config).run fs (.ok ⟨config.owner⟩)
      (replaced walk fs original (renderResolvConf config.owner config.servers)) :=
  apply_routed h foreign global (rename_plainRoute (present_of_readFile (h.written_read _)).1
    (notDir_of_opens (h.written_opens _))) (replaced_dir h _)

theorem backedUp_eq_iff (foreign : ¬ ownerHeader config.owner <+: original) :
    backedUp walk fs original (renderResolvConf config.owner config.servers) = original ↔
      follow walk fs temp ≠ backup := by
  have other : renderResolvConf config.owner config.servers ≠ original := by
    intro same
    exact foreign (same ▸ ownerHeader_prefix_render _ _)
  by_cases same : follow walk fs temp = backup
  · rw [backedUp, if_pos same]
    exact iff_of_false other (not_not.mpr same)
  · rw [backedUp, if_neg same]
    exact iff_of_true rfl same

/-- The file can be read, and starts with the header. -/
def Reads (walk : Bytes → Bytes) (owner : Bytes) (fs : Fs) : Prop :=
  ∃ content, readFile walk fs resolvConf = .ok content ∧ Utf8 content ∧
    ownerHeader owner <+: content

theorem reads_generated (valid : ValidOwner config.owner)
    (read : readFile walk fs resolvConf = .ok (renderResolvConf config.owner config.servers)) :
    Reads walk config.owner fs :=
  ⟨_, read, (ascii_render valid.ascii config.servers).utf8, ownerHeader_prefix_render _ _⟩

theorem close_routed (reads : Reads walk handle.owner fs) (hb : fs backup = some (.file original))
    (renamed : Yields (routed walk busy) (rename backup resolvConf).run fs (.ok ()) fs')
    (dir : fs' etc = some .dir) :
    Yields (routed walk busy) (close handle).run fs (.ok ()) fs' := by
  obtain ⟨content, read, text, marked⟩ := reads
  refine Yields.tryOk (Yields.mapErr
    (routed_yields (perform_readFile read text busy) (.ret _ _))) ?_
  simp only [marked, ite_true]
  have present : perform walk busy fs (.pathExists backup) = (true, fs) := by
    simp [perform, follow_of_not_link walk (not_link_of_file hb), hb]
  refine Yields.lift (routed_yields present (.ret _ _)) ?_
  exact Yields.tryOk renamed (syncEtc_routed dir)

theorem close_refused (unread : ¬ Reads walk handle.owner fs) :
    ∃ e, Yields (routed walk busy) (close handle).run fs (.error e) fs := by
  cases read : readFile walk fs resolvConf with
  | error e =>
      have failed : perform walk busy fs (.readToString resolvConf) = (.error e, fs) := by
        simp [perform, read]
      exact ⟨_, Yields.tryError (Yields.mapErr (routed_yields failed (.ret _ _)))⟩
  | ok content =>
      by_cases text : Utf8 content
      · have unmarked : ¬ ownerHeader handle.owner <+: content :=
          fun marked => unread ⟨content, read, text, marked⟩
        refine ⟨.trampled handle.owner, Yields.tryOk (Yields.mapErr
          (routed_yields (perform_readFile read text busy) (.ret _ _))) ?_⟩
        simp only [unmarked, ite_false]
        exact Yields.ret _ _
      · have failed : perform walk busy fs (.readToString resolvConf) =
            (.error .invalidData, fs) := by
          simp [perform, read, text]
        exact ⟨_, Yields.tryError (Yields.mapErr (routed_yields failed (.ret _ _)))⟩

end Calls

section Frames

/-! A link is never written to, only what it leads to is. -/

/-- The calls that leave a link where it is. -/
def Spares (path : Bytes) (busy : Bool) : FsCall → Prop
  | .writeAll _ _ => False
  | .rename src dst => src ≠ path ∧ (busy = true ∨ dst ≠ path)
  | .removeFile other => other ≠ path
  | _ => True

theorem store_spares (link : fs path = some (.link target)) {other : Bytes}
    (opens : refusal walk fs other = none) (content : Bytes) :
    store walk fs other content path = some (.link target) := by
  have ne : path ≠ follow walk fs other := by
    intro same
    exact (plain_of_opens opens).not_link ⟨target, same ▸ link⟩
  rw [store_eq, Function.update_of_ne ne, link]

theorem perform_spares {c : FsCall} (link : fs path = some (.link target))
    (spares : Spares path busy c) : (perform walk busy fs c).2 path = some (.link target) := by
  cases c with
  | copy src dst =>
      simp only [perform]
      split
      · exact link
      · exact link
      · rename_i opens
        exact store_spares link opens _
  | create other =>
      simp only [perform]
      split
      · exact link
      · rename_i opens
        exact store_spares link opens _
  | writeAll => exact spares.elim
  | rename src dst =>
      obtain ⟨notSrc, route⟩ := spares
      simp only [perform]
      split
      · exact link
      · exact link
      · cases busy with
        | true => exact link
        | false =>
            have notDst : dst ≠ path := route.resolve_left (by simp)
            simp only [Bool.false_eq_true, ite_false, move]
            rw [Function.update_of_ne notDst.symm, Function.update_of_ne notSrc.symm, link]
  | removeFile other =>
      simp only [perform]
      split
      · exact link
      · exact link
      · exact (Function.update_of_ne (Ne.symm spares) _ _).trans link
  | _ => exact link

theorem cutShort_spares {c : FsCall} (link : fs path = some (.link target))
    (spares : Spares path busy c) (cut : CutShort walk fs c fs') :
    fs' path = some (.link target) := by
  cases c with
  | copy src dst =>
      rcases cut with rfl | ⟨content, part, -, opens, -, rfl⟩
      · exact link
      · exact store_spares link opens part
  | writeAll => exact spares.elim
  | _ => exact (show fs' = fs from cut) ▸ link

theorem faulty_spares {c : FsCall} {r : FsCall.Ret c} (link : fs path = some (.link target))
    (spares : Spares path false c) (answer : (faulty walk).answers fs c r fs') :
    fs' path = some (.link target) := by
  have weaker : Spares path true c := by
    cases c with
    | rename src dst => exact ⟨spares.1, .inl rfl⟩
    | _ => exact spares
  rcases answer with ⟨busy, answer⟩ | ⟨e, -, -, cut⟩
  · obtain rfl : (perform walk busy fs c).2 = fs' := congrArg Prod.snd answer
    cases busy with
    | false => exact perform_spares link spares
    | true => exact perform_spares link weaker
  · exact cutShort_spares link spares cut

theorem torn_spares {c : FsCall} (link : fs path = some (.link target))
    (spares : Spares path false c) (torn : Torn walk fs c fs') :
    fs' path = some (.link target) := by
  rcases torn with cut | rfl
  · exact cutShort_spares link spares cut
  · exact perform_spares link spares

/-- No fault and no kill makes a difference to a link that is spared. -/
theorem spares_faulty {α : Type} {p : Io α} (issues : Issues (Spares path false) p)
    (link : fs path = some (.link target)) :
    Safe (faulty walk) (fun fs' => fs' path = some (.link target)) (fun _ _ => True) p fs :=
  issues.safe (fun _ _ _ _ spares here answer => faulty_spares here spares answer)
    (fun _ _ _ spares here torn => torn_spares here spares torn) link

theorem spares_safe {α : Type} {p : Io α} (issues : Issues (Spares path busy) p)
    (link : fs path = some (.link target)) :
    Safe (routed walk busy) (fun fs' => fs' path = some (.link target)) (fun _ _ => True) p fs := by
  refine issues.safe ?_ (fun _ _ _ _ _ cut => cut.elim) link
  intro s c r s' spares link answer
  have performed := @perform_spares walk _ _ _ _ _ link spares
  rwa [show perform walk busy s c = (r, s') from answer] at performed

theorem copyWithFsync_spares (src dst : Bytes) :
    Issues (Spares path busy) (copyWithFsync src dst).run :=
  (Issues.mapErr (Issues.call trivial)).tryBind fun _ =>
    (Issues.mapErr (Issues.call trivial)).tryBind fun _ => Issues.mapErr (Issues.call trivial)

theorem rename_spares (notSrc : src ≠ path) (route : busy = true ∨ dst ≠ path) :
    Issues (Spares path busy) (rename src dst).run := by
  refine Issues.lift (Issues.call ⟨notSrc, route⟩) fun r => ?_
  cases r with
  | ok _ => trivial
  | error source =>
      dsimp only
      split
      · exact (copyWithFsync_spares src dst).tryBind fun _ =>
          Issues.mapErr (Issues.call notSrc)
      · trivial

theorem syncDir_spares : Issues (Spares path busy) (syncDir etc).run :=
  (Issues.mapErr (Issues.call trivial)).tryBind fun _ => Issues.mapErr (Issues.call trivial)

theorem restore_spares (notBackup : backup ≠ path) (route : busy = true ∨ resolvConf ≠ path) :
    Issues (Spares path busy) restore.run :=
  (rename_spares notBackup route).tryBind fun _ => syncDir_spares

theorem cleanupResidual_spares (owner : Bytes) (notBackup : backup ≠ path)
    (route : busy = true ∨ resolvConf ≠ path) :
    Issues (Spares path busy) (cleanupResidual owner).run := by
  refine Issues.lift (Issues.call trivial) fun r => ?_
  cases r with
  | error source =>
      dsimp only
      split <;> trivial
  | ok current =>
      dsimp only
      split
      · refine Issues.lift (Issues.call trivial) fun found => ?_
        cases found with
        | true => exact restore_spares notBackup route
        | false => trivial
      · trivial

theorem close_spares (handle : SetDns) (notBackup : backup ≠ path)
    (route : busy = true ∨ resolvConf ≠ path) :
    Issues (Spares path busy) (close handle).run := by
  refine (Issues.mapErr (Issues.call trivial)).tryBind fun current => ?_
  split
  · refine Issues.lift (Issues.call trivial) fun found => ?_
    cases found with
    | true => exact restore_spares notBackup route
    | false => trivial
  · trivial

/-- Writing aside only changes what the temporary name leads to. -/
theorem writeTemp_spares (link : fs path = some (.link target)) (content : Bytes) :
    Safe (routed walk busy) (fun fs' => fs' path = some (.link target)) (fun _ _ => True)
      (writeTemp content).run fs := by
  refine Safe.tryBind (M := fun r fs' => ∀ done, r = .ok done →
      refusal walk fs temp = none ∧ fs' = store walk fs temp [])
    (Safe.mapErr_ok ⟨link, fun _ cut => cut.elim, fun r fs₁ answer => ?_⟩) ?_ (by simp)
  · have performed := @perform_spares walk busy _ _ _ (.create temp) link trivial
    rw [show perform walk busy fs (.create temp) = (r, fs₁) from answer] at performed
    refine ⟨performed, fun _ ok => ?_⟩
    subst ok
    simp only [World.of, perform] at answer
    split at answer
    · cases answer
    · rename_i opens
      exact ⟨opens, (Prod.mk.inj answer).2.symm⟩
  · intro _ fs₁ _ created
    obtain ⟨opens, rfl⟩ := created _ rfl
    have leads : follow walk (store walk fs temp []) temp = follow walk fs temp :=
      follow_update_file (plain_of_opens opens).not_link _ _
    have written : store walk (store walk fs temp []) temp content = store walk fs temp content := by
      rw [store_eq, leads, store_eq, store_eq, Function.update_idem]
    have kept := store_spares link opens content
    refine Safe.tryBind (M := fun _ _ => True) (Safe.mapErr ⟨store_spares link opens [],
      fun _ cut => cut.elim, fun r fs₂ answer => ?_⟩) ?_ (by simp)
    · obtain rfl : store walk (store walk fs temp []) temp content = fs₂ :=
        congrArg Prod.snd (show perform walk busy _ (.writeAll temp content) = (r, fs₂) from answer)
      rw [written]
      exact ⟨kept, trivial⟩
    · intro _ fs₂ link₂ _
      exact spares_safe (Issues.mapErr (Issues.call trivial)) link₂

/-- Before its rename `apply` does not touch a link, unless the link is the file itself and the
plain route replaces it. -/
theorem apply_spares (config : NormalizedConfig) (notBackup : backup ≠ path)
    (route : busy = true ∨ resolvConf ≠ path) {Q : Except ResolvConfError SetDns → Fs → Prop}
    (link : fs path = some (.link target))
    (failed : ∀ e fs', Q (.error e) fs')
    (rest : ∀ fs', fs' path = some (.link target) →
      Safe (routed walk busy) (fun _ => True) Q
        (do rename temp resolvConf; syncDir etc; pure ⟨config.owner⟩ : Result SetDns).run fs') :
    Safe (routed walk busy) (fun _ => True) Q (apply config).run fs := by
  have weaken : ∀ {α : Type} {p : Io α} {s : Fs},
      Safe (routed walk busy) (fun fs' => fs' path = some (.link target)) (fun _ _ => True) p s →
      Safe (routed walk busy) (fun _ => True) (fun _ fs' => fs' path = some (.link target)) p s :=
    fun safe => safe.imp (fun _ _ => trivial) fun _ _ here _ => here
  unfold apply
  split
  · exact ⟨trivial, failed _ _⟩
  refine Safe.tryBind (weaken (spares_safe (cleanupResidual_spares _ notBackup route) link)) ?_
    fun _ _ _ _ => failed _ _
  intro _ fs₁ _ link₁
  refine Safe.lift ⟨trivial, fun _ _ => trivial, fun found fs₂ answer => ⟨trivial, ?_⟩⟩
  obtain rfl : fs₁ = fs₂ :=
    congrArg Prod.snd (show perform walk busy fs₁ (.pathExists backup) = (found, fs₂) from answer)
  cases found with
  | true => exact ⟨trivial, failed _ _⟩
  | false =>
      refine Safe.tryBind (weaken (spares_safe (copyWithFsync_spares _ _) link₁)) ?_
        fun _ _ _ _ => failed _ _
      intro _ fs₃ _ link₃
      refine Safe.tryBind (weaken (writeTemp_spares link₃ _)) ?_ fun _ _ _ _ => failed _ _
      intro _ fs₄ _ link₄
      exact rest fs₄ link₄

/-- On the busy route the file stays the link that it is. -/
theorem apply_busyRoute (config : NormalizedConfig)
    (link : fs resolvConf = some (.link target)) :
    Safe (routed walk true) (fun _ => True)
      (fun r fs' => ∀ handle, r = .ok handle → fs' resolvConf = some (.link target))
      (apply config).run fs := by
  refine apply_spares config backup_ne_resolvConf (.inl rfl) link (by simp) fun fs' link' => ?_
  refine (spares_safe ?_ link').imp (fun _ _ => trivial) fun _ _ here _ _ _ => here
  exact (rename_spares temp_ne_resolvConf (.inl rfl)).tryBind fun _ =>
    syncDir_spares.tryBind fun _ => trivial

theorem close_busyRoute (handle : SetDns) (link : fs resolvConf = some (.link target)) :
    Safe (routed walk true) (fun _ => True) (fun _ fs' => fs' resolvConf = some (.link target))
      (close handle).run fs :=
  (spares_safe (close_spares handle backup_ne_resolvConf (.inl rfl)) link).imp
    (fun _ _ => trivial) fun _ _ here _ => here

/-- On the plain route a link under the temporary name becomes the file. -/
theorem apply_plainRoute (config : NormalizedConfig) (link : fs temp = some (.link target)) :
    Safe (routed walk false) (fun _ => True)
      (fun r fs' => ∀ handle, r = .ok handle → fs' resolvConf = some (.link target))
      (apply config).run fs := by
  refine apply_spares config temp_ne_backup.symm (.inr temp_ne_resolvConf.symm) link (by simp)
    fun fs' link' => ?_
  by_cases dir : fs' resolvConf = some .dir
  · have failed : perform walk false fs' (.rename temp resolvConf) = (.error (.os EISDIR), fs') := by
      simp [perform, link', dir]
    have renamed : Yields (routed walk false) (rename temp resolvConf).run fs'
        (.error (.io "rename" resolvConf (.os EISDIR))) fs' :=
      Yields.lift (routed_yields failed (.ret _ _)) (.ret _ _)
    exact renamed.thenError (by simp)
  · refine (rename_plainRoute (by simp [link']) dir).thenOk ?_
    have moved : move fs' temp resolvConf resolvConf = some (.link target) := by
      rw [move, Function.update_self, link']
    have synced := @spares_safe walk false _ resolvConf _ _
      (do syncDir etc; pure ⟨config.owner⟩ : Result SetDns).run
      (syncDir_spares.tryBind fun _ => trivial) moved
    exact synced.imp (fun _ _ => trivial) fun _ _ here _ _ _ => here

end Frames

end Setdns.Linux.ResolvConf

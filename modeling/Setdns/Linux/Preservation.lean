import Mathlib.Logic.Relation
import Setdns.Linux.ResolvConfFrames

/-!
Nothing the user wrote is lost. The latest content that setdns did not write is
complete in `/etc/resolv.conf` or in the backup, at every point where a process
running `apply` or `close` may stop, and across any sequence of such calls.

The one way out is the existence test in front of the backup copy. A test that
fails reads as "no backup", and the copy then overwrites the only good one.
-/

namespace Setdns.Linux.ResolvConf

open Text Effects Effects.Program Effects.Files

/-- The three paths hold regular files or nothing, and the latest content
written by somebody else does not start like a generated file. -/
structure Base (fs : Fs) (latest : Option Bytes) : Prop where
  plainRc : Plain fs resolvConf
  plainBackup : Plain fs backup
  plainTemp : Plain fs temp
  foreign : ∀ u, latest = some u → ¬ HasOwnerHeader u

def InPlace (fs : Fs) (latest : Option Bytes) : Prop :=
  ∀ u, latest = some u → fs resolvConf = some (.file u)

def Saved (fs : Fs) (latest : Option Bytes) : Prop :=
  ∀ u, latest = some u → fs backup = some (.file u)

/-- The invariant of every state a process may stop in. -/
def Held (latest : Option Bytes) (fs : Fs) : Prop :=
  Base fs latest ∧ (InPlace fs latest ∨ Saved fs latest)

/-- The existence test in front of the backup copy does not fail while the
backup holds the only complete copy. A test made while the file is marked for
the calling owner belongs to the cleanup and may fail. -/
def GuardReads (walk : Bytes → Bytes) (owner : Bytes) (latest : Option Bytes) (fs : Fs) :
    (c : FsCall) → FsCall.Ret c → Prop
  | .pathExists path, answer =>
      answer = false → Absent walk fs path ∨ MarkedFor owner fs ∨ InPlace fs latest
  | _, _ => True

structure State where
  fs : Fs
  latest : Option Bytes

/-- One call, run up to any point at which its process may stop, or one write by
another program. Faults are limited by `allows` inside `apply` only. -/
inductive Step (walk : Bytes → Bytes)
    (allows : Bytes → Option Bytes → Fs → (c : FsCall) → FsCall.Ret c → Prop) :
    State → State → Prop
  | apply (config : NormalizedConfig) (valid : ValidOwner config.owner) {fs fs' : Fs}
      {latest : Option Bytes}
      (visit : Visits ((faulty walk).restrict (allows config.owner latest))
        (ResolvConf.apply config).run fs fs') :
      Step walk allows ⟨fs, latest⟩ ⟨fs', latest⟩
  | close (handle : SetDns) (valid : ValidOwner handle.owner) {fs fs' : Fs}
      {latest : Option Bytes}
      (visit : Visits (faulty walk) (ResolvConf.close handle).run fs fs') :
      Step walk allows ⟨fs, latest⟩ ⟨fs', latest⟩
  | external (content : Bytes) (foreign : ¬ HasOwnerHeader content) {fs : Fs}
      {latest : Option Bytes} :
      Step walk allows ⟨fs, latest⟩
        ⟨Function.update fs resolvConf (some (.file content)), some content⟩

/-- No backup, and nothing of setdns in the file. -/
structure Initial (s : State) : Prop where
  latest : s.fs resolvConf = s.latest.map .file
  noBackup : s.fs backup = none
  plainTemp : Plain s.fs temp
  foreign : ∀ u, s.latest = some u → ¬ HasOwnerHeader u

def Preserved (s : State) : Prop :=
  ∀ u, s.latest = some u → s.fs resolvConf = some (.file u) ∨ s.fs backup = some (.file u)

variable {walk : Bytes → Bytes} {fs fs' : Fs} {latest : Option Bytes} {owner : Bytes}

theorem Base.stored (h : Base fs latest) {path : Bytes} (stored : Stored fs path fs') :
    Base fs' latest :=
  ⟨stored.plain h.plainRc, stored.plain h.plainBackup, stored.plain h.plainTemp, h.foreign⟩

theorem Base.moved (h : Base fs latest) {src dst : Bytes} (hs : Plain fs src) :
    Base (move fs src dst) latest :=
  ⟨plain_move hs h.plainRc, plain_move hs h.plainBackup, plain_move hs h.plainTemp, h.foreign⟩

theorem Saved.stored (h : Saved fs latest) {path : Bytes} (hne : backup ≠ path)
    (stored : Stored fs path fs') : Saved fs' latest :=
  fun u hu => (stored.other hne).trans (h u hu)

theorem inPlace_of_moved (h : Saved fs latest) : InPlace (move fs backup resolvConf) latest := by
  intro u hu
  rw [move, Function.update_self]
  exact h u hu

theorem saved_moveTemp (h : Saved fs latest) : Saved (move fs temp resolvConf) latest := by
  intro u hu
  rw [move, Function.update_of_ne backup_ne_resolvConf,
    Function.update_of_ne temp_ne_backup.symm]
  exact h u hu

/-- A file marked for an owner is not the user's. -/
theorem saved_of_markedFor (valid : ValidOwner owner) (h : Held latest fs)
    (marked : MarkedFor owner fs) : Saved fs latest := by
  rcases h.2 with place | saved
  · obtain ⟨content, hrc, header⟩ := marked
    intro u hu
    have same : content = u := by simpa [hrc] using place u hu
    exact absurd ⟨owner, valid, same ▸ header⟩ (h.1.foreign u hu)
  · exact saved

theorem inPlace_of_noBackup (h : Held latest fs) (none : fs backup = none) :
    InPlace fs latest := by
  rcases h.2 with place | saved
  · exact place
  · intro u hu
    have := saved u hu
    simp [none] at this

theorem restore_safe (h : Base fs latest) (saved : Saved fs latest) :
    Safe (faulty walk) (Held latest) (fun r fs' => r = .ok () → InPlace fs' latest)
      restore.run fs := by
  refine (restore_frame walk h.plainBackup h.plainRc).imp ?_ ?_
  · rintro fs' (part | ⟨_, rfl⟩)
    · exact ⟨h.stored part.stored, .inr (saved.stored backup_ne_resolvConf part.stored)⟩
    · exact ⟨h.moved h.plainBackup, .inl (inPlace_of_moved saved)⟩
  · intro r fs' _ moved hr
    obtain ⟨_, rfl⟩ := moved hr
    exact inPlace_of_moved saved

/-- After a cleanup that reports success the file is not marked for its owner,
unless the user's own content is already back. -/
theorem cleanupResidual_safe (valid : ValidOwner owner) (h : Held latest fs) :
    Safe (faulty walk) (Held latest)
      (fun r fs' => r = .ok () → ¬ MarkedFor owner fs' ∨ InPlace fs' latest)
      (cleanupResidual owner).run fs := by
  refine Safe.lift (Safe.quiet (quiet_faulty trivial) h ?_)
  intro r answer
  refine ⟨h, ?_⟩
  cases r with
  | error source =>
      by_cases missing : source.isNotFound = true
      · simp only [missing, ite_true]
        refine ⟨h, fun _ => .inl ?_⟩
        rintro ⟨content, hrc, _⟩
        obtain rfl : source = .os ENOENT := by simpa [IoError.isNotFound] using missing
        have absent := faulty_read_missing answer
        rw [follow_of_plain h.1.plainRc, hrc] at absent
        cases absent
      · simp only [missing]
        exact ⟨h, by simp⟩
  | ok current =>
      have hrc : fs resolvConf = some (.file current) :=
        (readFile_of_plain h.1.plainRc).mp (faulty_read_ok answer).1
      by_cases header : ownerHeader owner <+: current
      · simp only [header, ite_true]
        have saved := saved_of_markedFor valid h ⟨current, hrc, header⟩
        refine Safe.lift (Safe.quiet (quiet_faulty trivial) h ?_)
        intro found _
        refine ⟨h, ?_⟩
        cases found with
        | true => exact (restore_safe h.1 saved).post fun _ _ _ hr ok => .inr (hr ok)
        | false => exact ⟨h, by simp⟩
      · simp only [header, ite_false]
        refine ⟨h, fun _ => .inl ?_⟩
        rintro ⟨content, hrc', header'⟩
        have same : current = content := by simpa [hrc] using hrc'
        exact header (same ▸ header')

theorem copyToBackup_safe (h : Base fs latest) (place : InPlace fs latest) :
    Safe (faulty walk) (Held latest)
      (fun r fs' => r = .ok () → Base fs' latest ∧ Saved fs' latest)
      (copyWithFsync resolvConf backup).run fs := by
  refine (copyWithFsync_frame walk h.plainRc h.plainBackup backup_ne_resolvConf.symm).imp ?_ ?_
  · intro fs' part
    exact ⟨h.stored part.stored, .inl fun u hu =>
      (part.stored.other backup_ne_resolvConf.symm).trans (place u hu)⟩
  · intro r fs' part copied hr
    obtain ⟨content, hrc, rfl⟩ := copied hr
    refine ⟨h.stored part.stored, fun u hu => ?_⟩
    rw [Function.update_self, ← hrc]
    exact place u hu

/-- With the content saved, writing and installing the generated file keeps it. -/
theorem install_safe (content : Bytes) (handle : SetDns) (h : Base fs latest)
    (saved : Saved fs latest) :
    Safe (faulty walk) (Held latest) (fun _ _ => True)
      (do writeTemp content; rename temp resolvConf; syncDir etc; pure handle :
        Result SetDns).run fs := by
  have written := (writeTemp_frame walk content h.plainTemp).imp
    (J := fun fs' => Base fs' latest ∧ Saved fs' latest)
    (R := fun _ _ => True)
    (fun _ st => ⟨h.stored st, saved.stored temp_ne_backup.symm st⟩) (fun _ _ _ _ => trivial)
  have held : ∀ fs', Base fs' latest ∧ Saved fs' latest → Held latest fs' :=
    fun _ b => ⟨b.1, .inr b.2⟩
  refine (Safe.tryBind written ?_ (by simp)).imp held (fun _ _ _ q => q)
  intro _ fs₁ b₁ _
  have installed := (rename_frame walk b₁.1.plainTemp b₁.1.plainRc
    temp_ne_resolvConf).imp (J := fun fs' => Base fs' latest ∧ Saved fs' latest)
    (R := fun _ _ => True) ?_ (fun _ _ _ _ => trivial)
  · refine Safe.tryBind installed ?_ (by simp)
    intro _ fs₂ b₂ _
    refine Safe.tryBind (M := fun _ _ => True)
      ((syncDir_frame walk etc).imp ?_ (fun _ _ _ q => q)) (fun _ _ b _ => ⟨b, trivial⟩) (by simp)
    rintro _ rfl
    exact b₂
  · rintro fs' (part | ⟨_, rfl⟩)
    · exact ⟨b₁.1.stored part.stored, b₁.2.stored backup_ne_resolvConf part.stored⟩
    · exact ⟨b₁.1.moved b₁.1.plainTemp, saved_moveTemp b₁.2⟩

theorem apply_safe (config : NormalizedConfig) (valid : ValidOwner config.owner)
    (h : Held latest fs) :
    Safe ((faulty walk).restrict (GuardReads walk config.owner latest)) (Held latest)
      (fun _ _ => True) (apply config).run fs := by
  unfold apply
  by_cases split : config.domains ≠ []
  · rw [if_pos split]
    exact ⟨h, trivial⟩
  rw [if_neg split]
  refine Safe.tryBind (cleanupResidual_safe valid h).restrict ?_ (by simp)
  intro _ fs₁ h₁ cleaned
  have looks : (faulty walk).Quiet (.pathExists backup) := quiet_faulty trivial
  refine Safe.lift (Safe.quiet (looks.restrict _) h₁ ?_)
  intro found answer
  refine ⟨h₁, ?_⟩
  cases found with
  | true => exact ⟨h₁, trivial⟩
  | false =>
      -- the guard reads "no backup": then the user's content is in place
      have place : InPlace fs₁ latest := by
        rcases answer.2 rfl with absent | marked | place
        · exact inPlace_of_noBackup h₁ ((absent_of_plain h₁.1.plainBackup).mp absent)
        · exact (cleaned rfl).resolve_left (not_not_intro marked)
        · exact place
      refine Safe.tryBind (copyToBackup_safe h₁.1 place).restrict ?_ (by simp)
      intro _ fs₂ _ copied
      obtain ⟨base₂, saved₂⟩ := copied rfl
      exact (install_safe _ ⟨config.owner⟩ base₂ saved₂).restrict

theorem close_safe (handle : SetDns) (valid : ValidOwner handle.owner) (h : Held latest fs) :
    Safe (faulty walk) (Held latest) (fun _ _ => True) (close handle).run fs := by
  refine Safe.tryBind (M := fun r fs' => fs' = fs ∧ ∀ current, r = .ok current →
    fs resolvConf = some (.file current))
    (Safe.mapErr (Safe.quiet (quiet_faulty trivial) h fun r answer => ⟨h, rfl, ?_⟩)) ?_ (by simp)
  · intro current hr
    cases r with
    | ok found =>
        cases hr
        exact (readFile_of_plain h.1.plainRc).mp (faulty_read_ok answer).1
    | error e => cases hr
  rintro current _ - ⟨rfl, hread⟩
  have hrc := hread current rfl
  by_cases header : ownerHeader handle.owner <+: current
  · simp only [header, ite_true]
    have saved := saved_of_markedFor valid h ⟨current, hrc, header⟩
    refine Safe.lift (Safe.quiet (quiet_faulty trivial) h ?_)
    intro found _
    refine ⟨h, ?_⟩
    cases found with
    | true => exact (restore_safe h.1 saved).post fun _ _ _ _ => trivial
    | false => exact ⟨h, trivial⟩
  · simp only [header, ite_false]
    exact ⟨h, trivial⟩

theorem step_held {s s' : State} (step : Step walk (GuardReads walk) s s')
    (h : Held s.latest s.fs) : Held s'.latest s'.fs := by
  cases step with
  | apply config valid visit => exact (apply_safe config valid h).visits visit
  | close handle valid visit => exact (close_safe handle valid h).visits visit
  | external content foreign =>
      refine ⟨⟨plain_update_file h.1.plainRc, plain_update_file h.1.plainBackup,
        plain_update_file h.1.plainTemp, ?_⟩, .inl ?_⟩
      · intro u hu
        cases hu
        exact foreign
      · intro u hu
        cases hu
        simp

theorem Initial.held {s : State} (h : Initial s) : Held s.latest s.fs := by
  have place : InPlace s.fs s.latest := fun u hu => by rw [h.latest, hu]; rfl
  refine ⟨⟨?_, ?_, h.plainTemp, h.foreign⟩, .inl place⟩
  · rw [plain_iff, h.latest]
    cases s.latest with
    | none => exact .inl rfl
    | some u => exact .inr ⟨u, rfl⟩
  · exact plain_iff.mpr (.inl h.noBackup)

/-- In every run whose existence tests in front of the backup copy can be
trusted, every reachable state has the latest foreign content in full. -/
theorem latest_content_preserved (walk : Bytes → Bytes) {s s' : State} (start : Initial s)
    (run : Relation.ReflTransGen (Step walk (GuardReads walk)) s s') : Preserved s' := by
  have held : Held s'.latest s'.fs := by
    induction run with
    | refl => exact start.held
    | tail _ step ih => exact step_held step ih
  intro u hu
  exact held.2.imp (fun place => place u hu) (fun saved => saved u hu)

/-- The calls of a run without faults satisfy the condition. -/
theorem calm_guardReads (fs : Fs) (c : FsCall) (busy : Bool) :
    ((faulty walk).restrict (GuardReads walk owner latest)).answers fs c
      (perform walk busy fs c).1 (perform walk busy fs c).2 := by
  refine ⟨.inl ⟨busy, rfl⟩, ?_⟩
  cases c <;> first | exact trivial | exact fun absent => .inl absent

theorem sample_initial : Initial ⟨sampleFs, some sampleContent⟩ where
  latest := by decide
  noBackup := by decide
  plainTemp := plain_iff.mpr (.inl (by decide))
  foreign := by
    rintro _ ⟨⟩
    exact sample_unowned

theorem latest_content_preserved_sample :
    Initial ⟨sampleFs, some sampleContent⟩ ∧ Preserved ⟨sampleApplied, some sampleContent⟩ := by
  refine ⟨sample_initial, latest_content_preserved id sample_initial (.single ?_)⟩
  refine .apply (sampleConfig "a") (by decide) ?_
  exact (ends_exec (fun fs c => calm_guardReads fs c false) _ _).visits

/-- Every existence test fails, all else goes well. -/
def blindStat : Handler FsCall FsCall.Ret Fs
  | fs, .pathExists _ => (false, fs)
  | fs, c => perform id false fs c

theorem blindStat_faulty (fs : Fs) (c : FsCall) :
    (faulty id).answers fs c (blindStat fs c).1 (blindStat fs c).2 := by
  cases c with
  | pathExists path => exact .inr ⟨.os 5, by decide, rfl, rfl⟩
  | _ => exact .inl ⟨false, rfl⟩

/-- Owner `b` applies while `a` holds the file and its existence tests fail. -/
def sampleOverwritten : Fs := (exec blindStat (apply (sampleConfig "b")).run sampleApplied).2

set_option maxRecDepth 20000 in
/-- With a failing existence test the second owner copies the first owner's
generated file over the user's only copy. -/
theorem failed_existence_test_loses_content :
    ¬ ∀ (walk : Bytes → Bytes) (s s' : State), Initial s →
      Relation.ReflTransGen (Step walk fun _ _ _ _ _ => True) s s' → Preserved s' := by
  intro claim
  have calm : ∀ fs c, ((faulty id).restrict fun _ _ _ => True).answers fs c
      (perform id false fs c).1 (perform id false fs c).2 :=
    fun _ _ => ⟨.inl ⟨false, rfl⟩, trivial⟩
  have blind : ∀ fs c, ((faulty id).restrict fun _ _ _ => True).answers fs c
      (blindStat fs c).1 (blindStat fs c).2 :=
    fun fs c => ⟨blindStat_faulty fs c, trivial⟩
  have first : Step id (fun _ _ _ _ _ => True) ⟨sampleFs, some sampleContent⟩
      ⟨sampleApplied, some sampleContent⟩ :=
    .apply (sampleConfig "a") (by decide) (ends_exec calm _ _).visits
  have second : Step id (fun _ _ _ _ _ => True) ⟨sampleApplied, some sampleContent⟩
      ⟨sampleOverwritten, some sampleContent⟩ :=
    .apply (sampleConfig "b") (by decide) (ends_exec blind _ _).visits
  have kept := claim id _ _ sample_initial ((Relation.ReflTransGen.single first).tail second)
  have lost : ¬ (sampleOverwritten resolvConf = some (.file sampleContent) ∨
      sampleOverwritten backup = some (.file sampleContent)) := by decide
  exact lost (kept sampleContent rfl)

end Setdns.Linux.ResolvConf

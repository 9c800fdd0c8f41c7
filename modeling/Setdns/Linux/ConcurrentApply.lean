import Setdns.Effects.Interleaving
import Setdns.Linux.Handover

/-!
Two processes apply at the same time. Their turns are the five steps of `apply`:
read the file, test for the backup, copy, write aside, rename. The test is not
atomic with the copy, so both can pass it.

While both are still working the file holds the original. Once one has renamed,
the other runs alone, and its phase at that moment decides: a copy then takes the
generated file for the original, a write then installs a second owner.
-/

namespace Setdns.Linux.ResolvConf

open Text Effects Effects.Program Effects.Files

/-- A created or copied file is opened, written and synced in the same step. -/
def sameStep : FsCall → Bool
  | .openFile _ | .syncAll _ | .writeAll _ _ => true
  | _ => false

def applying (config : Bool → NormalizedConfig) (fs : Fs) :
    System FsCall FsCall.Ret Fs (Except ResolvConfError SetDns) Bool where
  state := fs
  programs i := (apply (config i)).run

/-- The original file is copied, not a generated one, and the generated file is
written while the file is not marked for somebody else. -/
def Undisturbed (owner : Bytes) (fs : Fs) : FsCall → Prop
  | .copy src _ => src = resolvConf → ¬ ∃ other, ValidOwner other ∧ MarkedFor other fs
  | .create _ => ¬ ∃ other, ValidOwner other ∧ other ≠ owner ∧ MarkedFor other fs
  | _ => True

def Succeeded (s : System FsCall FsCall.Ret Fs (Except ResolvConfError SetDns) Bool)
    (i : Bool) : Prop :=
  ∃ handle, s.programs i = .ret (.ok handle)

/-- The original is still there, and different owners do not both succeed. -/
def Settled (original : Bytes) (config : Bool → NormalizedConfig)
    (s : System FsCall FsCall.Ret Fs (Except ResolvConfError SetDns) Bool) : Prop :=
  (s.state resolvConf = some (.file original) ∨ s.state backup = some (.file original)) ∧
    ∀ i j, (config i).owner ≠ (config j).owner → ¬ (Succeeded s i ∧ Succeeded s j)

/-! The rest of `apply` before each of its steps. -/

def installing (config : NormalizedConfig) : Result SetDns := do
  rename temp resolvConf
  syncDir etc
  pure ⟨config.owner⟩

def writing (config : NormalizedConfig) : Result SetDns := do
  writeTemp (renderResolvConf config.owner config.servers)
  installing config

def saving (config : NormalizedConfig) : Result SetDns := do
  copyWithFsync resolvConf backup
  writing config

def testing (config : NormalizedConfig) : Result SetDns := do
  if ← Fs.pathExists backup then throw .staleBackup
  else saving config

theorem apply_eq {config : NormalizedConfig} (global : config.domains = []) :
    apply config = (do cleanupResidual config.owner; testing config) := by
  rw [apply, if_neg (not_not.mpr global)]
  rfl

variable (walk : Bytes → Bytes) (config : NormalizedConfig) {fs : Fs} {content original : Bytes}

section Turns

theorem turn_reading (global : config.domains = []) (h : Ready fs)
    (hc : fs resolvConf = some (.file content)) (utf8 : Utf8 content)
    (foreign : ¬ ownerHeader config.owner <+: content) :
    turn (perform walk false) sameStep (apply config).run fs = ((testing config).run, fs) := by
  have read : perform walk false fs (.readToString resolvConf) = (.ok content, fs) :=
    perform_read h.plainRc hc utf8
  rw [apply_eq global]
  simp only [cleanupResidual, run_bind, ExceptT.run_liftM, map_eq_pure_bind, call_bind, turn_call,
    read, pure_eq, ret_bind, foreign, ite_false]
  rfl

theorem turn_unreadable (global : config.domains = [])
    (hc : fs resolvConf = some (.file content)) (binary : ¬ Utf8 content) :
    turn (perform walk false) sameStep (apply config).run fs =
      (.ret (.error (.io "read" resolvConf .invalidData)), fs) := by
  have read : perform walk false fs (.readToString resolvConf) = (.error .invalidData, fs) :=
    perform_read_invalid (plain_iff.mpr (.inr ⟨_, hc⟩)) hc binary
  rw [apply_eq global]
  simp only [cleanupResidual, run_bind, ExceptT.run_liftM, map_eq_pure_bind, call_bind, turn_call,
    read, pure_eq, ret_bind]
  rfl

theorem turn_testing (h : Plain fs backup) :
    turn (perform walk false) sameStep (testing config).run fs =
      if (fs backup).isSome then (.ret (.error .staleBackup), fs)
      else ((saving config).run, fs) := by
  have found : perform walk false fs (.pathExists backup) = ((fs backup).isSome, fs) :=
    perform_pathExists h
  simp only [testing, run_bind, ExceptT.run_liftM, map_eq_pure_bind, call_bind, turn_call,
    found, pure_eq, ret_bind]
  cases (fs backup).isSome <;> rfl

theorem turn_copyWithFsync {src dst : Bytes} (hs : Plain fs src) (hd : Plain fs dst)
    (hne : src ≠ dst) (hsrc : fs src = some (.file content)) :
    turn (perform walk false) sameStep (copyWithFsync src dst).run fs =
      (.ret (.ok ()), Function.update fs dst (some (.file content))) := by
  have copy : perform walk false fs (.copy src dst) =
      (.ok (), Function.update fs dst (some (.file content))) :=
    perform_copy hs hd hne hsrc false
  have opened : perform walk false (Function.update fs dst (some (.file content))) (.openFile dst) =
      (.ok (), Function.update fs dst (some (.file content))) :=
    perform_openFile (plain_update_file hd) (Function.update_self ..)
  simp only [copyWithFsync, mapErr, run_bind, ExceptT.run_mk, call_bind, turn_call, copy, ret_bind,
    Except.mapError, settle, sameStep, opened, perform_syncAll, ite_true]

theorem turn_saving (h : Ready fs) (hc : fs resolvConf = some (.file content)) :
    turn (perform walk false) sameStep (saving config).run fs =
      ((writing config).run, Function.update fs backup (some (.file content))) :=
  settle_bind _ (turn_copyWithFsync walk h.plainRc h.plainBackup backup_ne_resolvConf.symm hc)

theorem turn_writing (h : Plain fs temp) :
    turn (perform walk false) sameStep (writing config).run fs =
      ((installing config).run, Function.update fs temp
        (some (.file (renderResolvConf config.owner config.servers)))) := by
  have created : perform walk false fs (.create temp) =
      (.ok (), Function.update fs temp (some (.file []))) := perform_create h false
  have written : perform walk false (Function.update fs temp (some (.file [])))
      (.writeAll temp (renderResolvConf config.owner config.servers)) =
        (.ok (), Function.update fs temp
          (some (.file (renderResolvConf config.owner config.servers)))) := by
    rw [perform_writeAll (plain_update_file h) false, Function.update_idem]
  have aside : turn (perform walk false) sameStep
      (writeTemp (renderResolvConf config.owner config.servers)).run fs =
        (.ret (.ok ()), Function.update fs temp
          (some (.file (renderResolvConf config.owner config.servers)))) := by
    simp only [writeTemp, mapErr, run_bind, ExceptT.run_mk, call_bind, turn_call, created, ret_bind,
      Except.mapError, settle, sameStep, written, perform_syncAll, ite_true]
  exact settle_bind _ aside

theorem turn_installing (hs : fs temp = some (.file content)) (hd : Plain fs resolvConf)
    (dir : fs etc = some .dir) :
    turn (perform walk false) sameStep (installing config).run fs =
      (.ret (.ok ⟨config.owner⟩), move fs temp resolvConf) := by
  have notDir : fs resolvConf ≠ some .dir := by
    rcases plain_iff.mp hd with h | ⟨old, h⟩ <;> simp [h]
  have moved : perform walk false fs (.rename temp resolvConf) =
      (.ok (), move fs temp resolvConf) := perform_rename hs notDir false
  have opened : perform walk false (move fs temp resolvConf) (.openFile etc) =
      (.ok (), move fs temp resolvConf) := by
    refine perform_openDir ?_
    rw [move, Function.update_of_ne etc_ne_resolvConf, Function.update_of_ne etc_ne_temp, dir]
  simp only [installing, rename, syncDir, mapErr, run_bind, ExceptT.run_liftM, ExceptT.run_mk,
    map_eq_pure_bind, call_bind, turn_call, moved, pure_eq, ret_bind, ExceptT.run_pure, settle,
    sameStep, ite_true, opened, perform_syncAll, Except.mapError]

end Turns

inductive Phase where
  | reading
  | testing
  | saving
  | writing
  | installing
  | refused
  deriving DecidableEq

def Phase.program (config : NormalizedConfig) :
    Phase → Program FsCall FsCall.Ret (Except ResolvConfError SetDns)
  | .reading => (apply config).run
  | .testing => (ResolvConf.testing config).run
  | .saving => (ResolvConf.saving config).run
  | .writing => (ResolvConf.writing config).run
  | .installing => (ResolvConf.installing config).run
  | .refused => .ret (.error .staleBackup)

theorem Phase.program_ne_ok {config : NormalizedConfig} (phase : Phase)
    (global : config.domains = []) (handle : SetDns) :
    phase.program config ≠ .ret (.ok handle) := by
  intro h
  cases phase with
  | reading =>
      rw [Phase.program, apply_eq global] at h
      cases h
  | _ => cases h

/-- Nobody has renamed yet. -/
structure Contending (original : Bytes) (config : Bool → NormalizedConfig) (phase : Bool → Phase)
    (s : System FsCall FsCall.Ret Fs (Except ResolvConfError SetDns) Bool) : Prop where
  programs : ∀ i, s.programs i = (phase i).program (config i)
  ready : Ready s.state
  rc : s.state resolvConf = some (.file original)
  kept : s.state backup = none ∨ s.state backup = some (.file original)
  saved : ∀ i, phase i = .writing ∨ phase i = .installing →
    s.state backup = some (.file original)
  written : ∀ i, phase i = .installing → ∃ j, phase j = .installing ∧
    s.state temp = some (.file (renderResolvConf (config j).owner (config j).servers))

/-- Process `i` has renamed, the other one stands before the given phase. -/
structure Won (original : Bytes) (config : Bool → NormalizedConfig) (i : Bool) (phase : Phase)
    (s : System FsCall FsCall.Ret Fs (Except ResolvConfError SetDns) Bool) : Prop where
  winner : s.programs i = .ret (.ok ⟨(config i).owner⟩)
  loser : s.programs (!i) = phase.program (config !i)
  ready : Ready s.state
  rc : ∃ j, (j = i ∨ phase = .installing) ∧
    s.state resolvConf = some (.file (renderResolvConf (config j).owner (config j).servers))
  saved : s.state backup = some (.file original)
  moved : s.state temp = none

section Race

variable {config : Bool → NormalizedConfig} {phase : Bool → Phase} {i : Bool}
variable {s : System FsCall FsCall.Ret Fs (Except ResolvConfError SetDns) Bool}

theorem undisturbed_of_original {owner : Bytes} (unowned : ¬ HasOwnerHeader original)
    (rc : fs resolvConf = some (.file original)) (c : FsCall) : Undisturbed owner fs c := by
  have unmarked : ∀ other, ValidOwner other → ¬ MarkedFor other fs := by
    rintro other valid ⟨content, hc, header⟩
    obtain rfl : original = content := by simpa [rc] using hc
    exact unowned ⟨other, valid, header⟩
  cases c with
  | copy src dst => exact fun _ ⟨other, valid, marked⟩ => unmarked other valid marked
  | create path => exact fun ⟨other, valid, _, marked⟩ => unmarked other valid marked
  | _ => trivial

/-- One turn that leaves the file itself alone. -/
theorem Contending.advance (h : Contending original config phase s) (next : Phase) {fs' : Fs}
    (moves : turn (perform walk false) sameStep (s.programs i) s.state =
      (next.program (config i), fs'))
    (ready' : Ready fs') (rc' : fs' resolvConf = some (.file original))
    (kept' : fs' backup = none ∨ fs' backup = some (.file original))
    (saved' : ∀ j, Function.update phase i next j = .writing ∨
      Function.update phase i next j = .installing → fs' backup = some (.file original))
    (written' : ∀ j, Function.update phase i next j = .installing →
      ∃ l, Function.update phase i next l = .installing ∧
        fs' temp = some (.file (renderResolvConf (config l).owner (config l).servers))) :
    Contending original config (Function.update phase i next)
      (s.turn (perform walk false) sameStep i) := by
  have state : (s.turn (perform walk false) sameStep i).state = fs' := by
    simp only [System.turn, moves]
  refine ⟨fun j => ?_, state ▸ ready', state ▸ rc', state ▸ kept', state ▸ saved', state ▸ written'⟩
  simp only [System.turn, moves]
  by_cases hj : j = i
  · subst hj
    simp only [Function.update_self]
  · simp only [Function.update_of_ne hj, h.programs j]

/-- Whoever does not stand before the rename leaves the other's file aside. -/
theorem Contending.written_update (h : Contending original config phase s) {next : Phase}
    (notYet : phase i ≠ .installing) (next_ne : next ≠ .installing) {fs' : Fs}
    (same : fs' temp = s.state temp) :
    ∀ j, Function.update phase i next j = .installing →
      ∃ l, Function.update phase i next l = .installing ∧
        fs' temp = some (.file (renderResolvConf (config l).owner (config l).servers)) := by
  intro j eq
  have hj : j ≠ i := by
    rintro rfl
    rw [Function.update_self] at eq
    exact next_ne eq
  rw [Function.update_of_ne hj] at eq
  obtain ⟨l, hl, content⟩ := h.written j eq
  refine ⟨l, ?_, same.trans content⟩
  rw [Function.update_of_ne, hl]
  rintro rfl
  exact notYet hl

/-- One turn that only looks. -/
theorem Contending.look (h : Contending original config phase s) (next : Phase)
    (notYet : phase i ≠ .installing) (before : next ≠ .writing ∧ next ≠ .installing)
    (moves : turn (perform walk false) sameStep (s.programs i) s.state =
      (next.program (config i), s.state)) :
    Contending original config (Function.update phase i next)
      (s.turn (perform walk false) sameStep i) := by
  refine h.advance walk next moves h.ready h.rc h.kept ?_ (h.written_update notYet before.2 rfl)
  intro j eq
  have hj : j ≠ i := by
    rintro rfl
    rw [Function.update_self] at eq
    exact eq.elim before.1 before.2
  rw [Function.update_of_ne hj] at eq
  exact h.saved j eq

/-- The first rename. The file that it moves may be the other one's. -/
theorem Contending.rename (h : Contending original config phase s) (hph : phase i = .installing) :
    Won original config i (phase !i) (s.turn (perform walk false) sameStep i) := by
  obtain ⟨j, hj, content⟩ := h.written i hph
  have moves := turn_installing walk (config i) content h.ready.plainRc h.ready.dir
  have program := h.programs i
  rw [hph] at program
  have other : (!i) ≠ i := by cases i <;> decide
  have state : (s.turn (perform walk false) sameStep i).state = move s.state temp resolvConf := by
    simp only [System.turn, program, Phase.program, moves]
  have programs : (s.turn (perform walk false) sameStep i).programs =
      Function.update s.programs i (.ret (.ok ⟨(config i).owner⟩)) := by
    simp only [System.turn, program, Phase.program, moves]
  refine ⟨?_, ?_, state ▸ ?_, ⟨j, ?_, state ▸ ?_⟩, state ▸ ?_, state ▸ ?_⟩
  · rw [programs, Function.update_self]
  · rw [programs, Function.update_of_ne other, h.programs]
  · exact h.ready.moved h.ready.plainTemp etc_ne_temp etc_ne_resolvConf
  · by_cases same : j = i
    · exact .inl same
    · refine .inr ?_
      obtain rfl : j = !i := by cases i <;> cases j <;> simp_all
      exact hj
  · rw [move, Function.update_self, content]
  · rw [move, Function.update_of_ne backup_ne_resolvConf,
      Function.update_of_ne temp_ne_backup.symm, h.saved i (.inr hph)]
  · rw [move, Function.update_of_ne temp_ne_resolvConf, Function.update_self]

variable (valid : ∀ i, ValidOwner (config i).owner) (global : ∀ i, (config i).domains = [])
variable (text : Utf8 original) (unowned : ¬ HasOwnerHeader original)

include valid global text unowned in
/-- While nobody has renamed, a turn keeps the original in the file or is the
first rename. -/
theorem contending_turn (h : Contending original config phase s) (i : Bool) :
    (∃ phase', Contending original config phase' (s.turn (perform walk false) sameStep i)) ∨
      ∃ phase', Won original config i phase' (s.turn (perform walk false) sameStep i) := by
  have program := h.programs i
  cases hph : phase i with
  | reading =>
      have moves := turn_reading walk _ (global i) h.ready h.rc text
        (fun marked => unowned ⟨_, valid i, marked⟩)
      refine .inl ⟨_, h.look walk .testing (by simp [hph]) (by decide) ?_⟩
      rw [program, hph]
      exact moves
  | testing =>
      have moves := turn_testing walk (config i) h.ready.plainBackup
      rcases h.kept with absent | present
      · refine .inl ⟨_, h.look walk .saving (by simp [hph]) (by decide) ?_⟩
        simpa [program, hph, Phase.program, absent] using moves
      · refine .inl ⟨_, h.look walk .refused (by simp [hph]) (by decide) ?_⟩
        simpa [program, hph, Phase.program, present] using moves
  | saving =>
      have moves := turn_saving walk (config i) h.ready h.rc
      rw [hph] at program
      refine .inl ⟨_, h.advance walk .writing (by rw [program]; exact moves)
        (h.ready.stored etc_ne_backup original) ?_ (.inr (Function.update_self ..))
        (fun _ _ => Function.update_self ..) (h.written_update (by simp [hph]) (by decide) ?_)⟩
      · rw [Function.update_of_ne backup_ne_resolvConf.symm, h.rc]
      · rw [Function.update_of_ne temp_ne_backup]
  | writing =>
      have moves := turn_writing walk (config i) h.ready.plainTemp
      rw [hph] at program
      have saved := h.saved i (.inl hph)
      have saved' : Function.update s.state temp (some (.file
          (renderResolvConf (config i).owner (config i).servers))) backup =
          some (.file original) := by rw [Function.update_of_ne temp_ne_backup.symm, saved]
      refine .inl ⟨_, h.advance walk .installing (by rw [program]; exact moves)
        (h.ready.stored etc_ne_temp _) ?_ (.inr saved') (fun _ _ => saved') (fun _ _ => ?_)⟩
      · rw [Function.update_of_ne temp_ne_resolvConf.symm, h.rc]
      · exact ⟨i, Function.update_self .., Function.update_self ..⟩
  | installing => exact .inr ⟨_, h.rename walk hph⟩
  | refused =>
      refine .inl ⟨phase, ?_⟩
      rw [System.turn_ended (a := .error .staleBackup) (by rw [program, hph]; rfl)]
      exact h

end Race

section Alone

/-! What the process that is left does, and whether all its calls are undisturbed. -/

theorem undisturbed_sameStep (owner : Bytes) (fs : Fs) (c : FsCall) (glue : sameStep c = true) :
    Undisturbed owner fs c := by
  cases c <;> trivial

variable (owner : Bytes)

theorem installing_alone (h : Ready fs) (ht : fs temp = some (.file content)) :
    exec (perform walk false) (installing config).run fs =
        (.ok ⟨config.owner⟩, move fs temp resolvConf) ∧
      Clear (perform walk false) (Undisturbed owner) (installing config).run fs := by
  have moves := turn_installing walk config ht h.plainRc h.dir
  refine ⟨exec_of_turn moves, ?_⟩
  exact (clear_of_turn (undisturbed_sameStep owner) moves).mpr ⟨trivial, trivial⟩

theorem installing_alone_missing (ht : fs temp = none) :
    exec (perform walk false) (installing config).run fs =
        (.error (.io "rename" resolvConf (.os ENOENT)), fs) ∧
      Clear (perform walk false) (Undisturbed owner) (installing config).run fs := by
  have missing : perform walk false fs (.rename temp resolvConf) = (.error (.os ENOENT), fs) := by
    simp [perform, ht]
  constructor <;>
    simp only [installing, rename, run_bind, ExceptT.run_liftM, map_eq_pure_bind, call_bind,
      exec_call, clear_call, missing, pure_eq, ret_bind]
  · rfl
  · exact ⟨trivial, trivial⟩

theorem writing_alone (h : Ready fs) :
    exec (perform walk false) (writing config).run fs = (.ok ⟨config.owner⟩,
        move (Function.update fs temp (some (.file
          (renderResolvConf config.owner config.servers)))) temp resolvConf) ∧
      (Clear (perform walk false) (Undisturbed owner) (writing config).run fs ↔
        Undisturbed owner fs (.create temp)) := by
  have moves := turn_writing walk config h.plainTemp
  obtain ⟨ends, clear⟩ := installing_alone walk config owner
    (h.stored etc_ne_temp (renderResolvConf config.owner config.servers)) (Function.update_self ..)
  refine ⟨(exec_of_turn moves).trans ends, ?_⟩
  rw [show (writing config).run = .call _ _ from rfl] at moves ⊢
  simp only [clear_of_turn (undisturbed_sameStep owner) moves, clear, and_true]

theorem saving_alone (h : Ready fs) (hc : fs resolvConf = some (.file content)) :
    exec (perform walk false) (saving config).run fs = (.ok ⟨config.owner⟩,
        installed fs content (renderResolvConf config.owner config.servers)) ∧
      (Clear (perform walk false) (Undisturbed owner) (saving config).run fs ↔
        Undisturbed owner fs (.copy resolvConf backup) ∧
          Undisturbed owner (Function.update fs backup (some (.file content))) (.create temp)) := by
  have moves := turn_saving walk config h hc
  obtain ⟨ends, clear⟩ := writing_alone walk config owner
    (h.stored etc_ne_backup content)
  refine ⟨(exec_of_turn moves).trans ends, ?_⟩
  rw [show (saving config).run = .call _ _ from rfl] at moves ⊢
  rw [clear_of_turn (undisturbed_sameStep owner) moves, clear]

theorem testing_alone_refused (h : Ready fs) (hb : fs backup = some (.file content)) :
    exec (perform walk false) (testing config).run fs = (.error .staleBackup, fs) ∧
      Clear (perform walk false) (Undisturbed owner) (testing config).run fs := by
  have moves := turn_testing walk config h.plainBackup
  simp only [hb, Option.isSome_some, ite_true] at moves
  refine ⟨exec_of_turn moves, ?_⟩
  rw [show (testing config).run = .call _ _ from rfl] at moves ⊢
  exact (clear_of_turn (undisturbed_sameStep owner) moves).mpr ⟨trivial, trivial⟩

theorem reading_alone_refused (global : config.domains = []) {generated : Bytes} (h : Ready fs)
    (hc : fs resolvConf = some (.file generated)) (utf8 : Utf8 generated)
    (foreign : ¬ ownerHeader config.owner <+: generated) (hb : fs backup = some (.file content)) :
    exec (perform walk false) (apply config).run fs = (.error .staleBackup, fs) ∧
      Clear (perform walk false) (Undisturbed owner) (apply config).run fs := by
  have moves := turn_reading walk _ global h hc utf8 foreign
  obtain ⟨ends, clear⟩ := testing_alone_refused walk config owner h hb
  refine ⟨(exec_of_turn moves).trans ends, ?_⟩
  rw [apply_eq global] at moves ⊢
  rw [show (do cleanupResidual config.owner; testing config : Result SetDns).run = .call _ _
    from rfl] at moves ⊢
  exact (clear_of_turn (undisturbed_sameStep owner) moves).mpr ⟨trivial, clear⟩

theorem cleanupResidual_clear {generated : Bytes} (h : Ready fs)
    (hc : fs resolvConf = some (.file generated)) (utf8 : Utf8 generated)
    (marked : ownerHeader config.owner <+: generated) (hb : fs backup = some (.file content)) :
    Clear (perform walk false) (Undisturbed owner) (cleanupResidual config.owner).run fs := by
  have read : perform walk false fs (.readToString resolvConf) = (.ok generated, fs) :=
    perform_read h.plainRc hc utf8
  have found : perform walk false fs (.pathExists backup) = (true, fs) := by
    simpa [hb] using (perform_pathExists h.plainBackup :
      perform walk false fs (.pathExists backup) = ((fs backup).isSome, fs))
  have notDir : fs resolvConf ≠ some .dir := by simp [hc]
  have moved : perform walk false fs (.rename backup resolvConf) =
      (.ok (), move fs backup resolvConf) := perform_rename hb notDir false
  have opened : perform walk false (move fs backup resolvConf) (.openFile etc) =
      (.ok (), move fs backup resolvConf) :=
    perform_openDir (h.moved h.plainBackup etc_ne_backup etc_ne_resolvConf).dir
  simp only [cleanupResidual, restore, rename, syncDir, mapErr, run_bind, ExceptT.run_liftM,
    ExceptT.run_mk, map_eq_pure_bind, call_bind, clear_call, read, pure_eq, ret_bind, marked,
    ite_true, found, moved, ExceptT.run_pure, opened, Except.mapError, perform_syncAll, clear_ret,
    and_true]
  exact ⟨trivial, trivial, trivial, trivial, trivial⟩

/-- A second apply of the owner that holds the file starts over from the original. -/
theorem reading_alone_restores (global : config.domains = []) {generated : Bytes} (h : Ready fs)
    (hc : fs resolvConf = some (.file generated)) (utf8 : Utf8 generated)
    (marked : ownerHeader config.owner <+: generated) (hb : fs backup = some (.file original))
    (unowned : ¬ HasOwnerHeader original) :
    exec (perform walk false) (apply config).run fs = (.ok ⟨config.owner⟩,
        installed (move fs backup resolvConf) original
          (renderResolvConf config.owner config.servers)) ∧
      Clear (perform walk false) (Undisturbed owner) (apply config).run fs := by
  have cleanup := cleanupResidual_restore walk h hc utf8 marked hb
  have ready := h.moved h.plainBackup etc_ne_backup etc_ne_resolvConf
  have noBackup : move fs backup resolvConf backup = none := by
    rw [move, Function.update_of_ne backup_ne_resolvConf, Function.update_self]
  have rc : move fs backup resolvConf resolvConf = some (.file original) := by
    rw [move, Function.update_self, hb]
  have applied := apply_fresh walk global cleanup ready noBackup rc
  refine ⟨Yields.of_iff.mp (applied.of_handler (calm_perform walk false)), ?_⟩
  rw [apply_eq global, clear_run_bind (Yields.of_iff.mp (cleanup.of_handler
    (calm_perform walk false)))]
  refine ⟨cleanupResidual_clear walk config owner h hc utf8 marked hb, ?_⟩
  have moves := turn_testing walk config ready.plainBackup
  simp only [noBackup, Option.isSome_none, Bool.false_eq_true, ite_false] at moves
  rw [show (testing config).run = .call _ _ from rfl] at moves ⊢
  refine (clear_of_turn (undisturbed_sameStep owner) moves).mpr ⟨trivial, ?_⟩
  refine (saving_alone walk config owner ready rc).2.mpr ⟨undisturbed_of_original unowned rc _, ?_⟩
  refine undisturbed_of_original unowned ?_ _
  rw [Function.update_of_ne backup_ne_resolvConf.symm, rc]

end Alone

section Outcome

variable {config : Bool → NormalizedConfig} {phase : Phase} {i : Bool}
variable {s : System FsCall FsCall.Ret Fs (Except ResolvConfError SetDns) Bool}
variable (valid : ∀ i, ValidOwner (config i).owner) (global : ∀ i, (config i).domains = [])
variable (unowned : ¬ HasOwnerHeader original)

theorem render_ne_original {config : NormalizedConfig} (valid : ValidOwner config.owner)
    (unowned : ¬ HasOwnerHeader original) :
    renderResolvConf config.owner config.servers ≠ original := by
  rintro rfl
  exact unowned ⟨_, valid, ownerHeader_prefix_render _ _⟩

/-- The result of the second process is settled, seen from the first one's success. -/
def Good (original : Bytes) (winner loser : NormalizedConfig)
    (outcome : Except ResolvConfError SetDns × Fs) : Prop :=
  (outcome.2 resolvConf = some (.file original) ∨ outcome.2 backup = some (.file original)) ∧
    (winner.owner ≠ loser.owner → ∀ handle, outcome.1 ≠ .ok handle)

include valid unowned in
/-- The generated file is copied over the original. -/
theorem won_saving (h : Won original config i .saving s) :
    Good original (config i) (config !i)
        (exec (perform walk false) (saving (config !i)).run s.state) ↔
      Clear (perform walk false) (Undisturbed (config !i).owner) (saving (config !i)).run
        s.state := by
  obtain ⟨j, _, rc⟩ := h.rc
  have marked : MarkedFor (config j).owner s.state := ⟨_, rc, ownerHeader_prefix_render _ _⟩
  obtain ⟨ends, clear⟩ := saving_alone walk (config !i) (config !i).owner h.ready rc
  rw [ends, clear]
  refine iff_of_false ?_ fun undisturbed => undisturbed.1 rfl ⟨_, valid j, marked⟩
  rintro ⟨lost, -⟩
  simp only [installed_resolvConf, installed_backup, Option.some.injEq, Entry.file.injEq] at lost
  exact lost.elim (render_ne_original (valid !i) unowned) (render_ne_original (valid j) unowned)

include valid in
/-- The second owner's file goes over the first one's. -/
theorem won_writing (h : Won original config i .writing s) :
    Good original (config i) (config !i)
        (exec (perform walk false) (writing (config !i)).run s.state) ↔
      Clear (perform walk false) (Undisturbed (config !i).owner) (writing (config !i)).run
        s.state := by
  obtain ⟨j, hj, rc⟩ := h.rc
  obtain rfl : j = i := hj.resolve_right (by simp)
  have marked : MarkedFor (config j).owner s.state := ⟨_, rc, ownerHeader_prefix_render _ _⟩
  obtain ⟨ends, clear⟩ := writing_alone walk (config !j) (config !j).owner h.ready
  have saved : move (Function.update s.state temp (some (.file
      (renderResolvConf (config !j).owner (config !j).servers)))) temp resolvConf backup =
        some (.file original) := by
    rw [move, Function.update_of_ne backup_ne_resolvConf,
      Function.update_of_ne temp_ne_backup.symm, Function.update_of_ne temp_ne_backup.symm,
      h.saved]
  simp only [ends, clear, Good, saved, or_true, true_and]
  by_cases same : (config j).owner = (config !j).owner
  · refine iff_of_true (fun different => absurd same different) ?_
    rintro ⟨other, validOther, different, content, hc, header⟩
    obtain rfl : renderResolvConf (config j).owner (config j).servers = content := by
      simpa [rc] using hc
    rw [Slot.ownerHeader_prefix_render_iff (valid j).lf_not_mem validOther.lf_not_mem] at header
    exact different (header.trans same)
  · refine iff_of_false (fun none => none same _ rfl) fun undisturbed => ?_
    exact undisturbed ⟨_, valid j, same, marked⟩

include valid global unowned in
/-- The phase of the second process at the first rename decides. -/
theorem won_alone (h : Won original config i phase s) :
    Good original (config i) (config !i)
        (exec (perform walk false) (phase.program (config !i)) s.state) ↔
      Clear (perform walk false) (Undisturbed (config !i).owner) (phase.program (config !i))
        s.state := by
  obtain ⟨j, hj, rc⟩ := h.rc
  have utf8 : Utf8 (renderResolvConf (config j).owner (config j).servers) :=
    (ascii_render (valid j).ascii _).utf8
  cases phase with
  | reading =>
      obtain rfl : j = i := hj.resolve_right (by simp)
      by_cases same : (config !j).owner = (config j).owner
      · have header : ownerHeader (config !j).owner <+:
            renderResolvConf (config j).owner (config j).servers :=
          same ▸ ownerHeader_prefix_render _ _
        obtain ⟨ends, clear⟩ := reading_alone_restores walk _ (config !j).owner
          (global !j) h.ready rc utf8 header h.saved unowned
        simp only [Phase.program, ends, clear, iff_true, Good, installed_backup, or_true, true_and]
        exact fun different => absurd same.symm different
      · have foreign : ¬ ownerHeader (config !j).owner <+:
            renderResolvConf (config j).owner (config j).servers := by
          rwa [Slot.ownerHeader_prefix_render_iff (valid j).lf_not_mem (valid !j).lf_not_mem]
        obtain ⟨ends, clear⟩ := reading_alone_refused walk _ (config !j).owner
          (global !j) h.ready rc utf8 foreign h.saved
        simp only [Phase.program, ends, clear, iff_true]
        exact ⟨.inr h.saved, by simp⟩
  | testing =>
      obtain ⟨ends, clear⟩ := testing_alone_refused walk (config !i) (config !i).owner h.ready
        h.saved
      simp only [Phase.program, ends, clear, iff_true]
      exact ⟨.inr h.saved, by simp⟩
  | saving => exact won_saving walk valid unowned h
  | writing => exact won_writing walk valid h
  | installing =>
      obtain ⟨ends, clear⟩ := installing_alone_missing walk (config !i) (config !i).owner h.moved
      simp only [Phase.program, ends, clear, iff_true]
      exact ⟨.inr h.saved, by simp⟩
  | refused =>
      simp only [Phase.program, exec_ret, clear_ret, iff_true]
      exact ⟨.inr h.saved, by simp⟩

include valid global unowned in
theorem won_settled_iff (h : Won original config i phase s) (schedule : List Bool)
    (ended : (s.run (perform walk false) sameStep schedule).Ended) :
    Settled original config (s.run (perform walk false) sameStep schedule) ↔
      s.Admitted (perform walk false) sameStep (fun i => Undisturbed (config i).owner) schedule := by
  have others : ∀ j, j ≠ (!i) → ∃ r, s.programs j = .ret r := by
    intro j hj
    obtain rfl : j = i := by cases i <;> cases j <;> simp_all
    exact ⟨_, h.winner⟩
  obtain ⟨final, admitted⟩ := System.run_solo
    (fun i => Undisturbed (config i).owner) (undisturbed_sameStep _) others schedule ended
  rw [admitted, h.loser, ← won_alone walk valid global unowned h, final, h.loser]
  refine and_congr_right fun _ => ?_
  have other : (!i) ≠ i := by cases i <;> decide
  have won : Function.update s.programs (!i) (.ret (exec (perform walk false)
      (phase.program (config !i)) s.state).1) i = .ret (.ok ⟨(config i).owner⟩) := by
    rw [Function.update_of_ne other.symm, h.winner]
  constructor
  · intro exclusive different handle ok
    refine exclusive i (!i) different ⟨⟨_, won⟩, handle, ?_⟩
    simp only [Function.update_self, ok]
  · rintro alone j k different ⟨⟨handle, first⟩, handle', second⟩
    have lost : ∀ l, l = (!i) → (config i).owner ≠ (config !i).owner →
        ∀ handle, Function.update s.programs (!i) (.ret (exec (perform walk false)
          (phase.program (config !i)) s.state).1) l ≠ .ret (.ok handle) := by
      rintro l rfl owners handle ok
      rw [Function.update_self] at ok
      exact alone owners handle (Program.ret.inj ok)
    have two : ∀ i j k : Bool, j ≠ k → j = i ∧ k = (!i) ∨ j = (!i) ∧ k = i := by decide
    rcases two i j k (fun same => different (by rw [same])) with ⟨rfl, rfl⟩ | ⟨rfl, rfl⟩
    · exact lost _ rfl different handle' second
    · exact lost _ rfl different.symm handle first

include valid global unowned in
theorem contending_settled_iff (text : Utf8 original) {phase : Bool → Phase}
    (h : Contending original config phase s) (schedule : List Bool)
    (ended : (s.run (perform walk false) sameStep schedule).Ended) :
    Settled original config (s.run (perform walk false) sameStep schedule) ↔
      s.Admitted (perform walk false) sameStep (fun i => Undisturbed (config i).owner) schedule := by
  induction schedule generalizing s phase with
  | nil =>
      refine iff_of_true ⟨.inl h.rc, ?_⟩ trivial
      rintro i - - ⟨⟨handle, ok⟩, -⟩
      exact (phase i).program_ne_ok (global i) handle ((h.programs i).symm.trans ok)
  | cons i schedule ih =>
      have undisturbed : ∀ c k, s.programs i = .call c k →
          Undisturbed (config i).owner s.state c :=
        fun c _ _ => undisturbed_of_original unowned h.rc c
      rw [System.run] at ended ⊢
      rw [System.Admitted, and_iff_right undisturbed]
      rcases contending_turn walk valid global text unowned h i with ⟨_, next⟩ | ⟨_, won⟩
      · exact ih next ended
      · exact won_settled_iff walk valid global unowned won schedule ended

end Outcome

section Unreadable

/-- Nobody has got beyond reading the file. -/
structure Unread (original : Bytes) (config : Bool → NormalizedConfig)
    (s : System FsCall FsCall.Ret Fs (Except ResolvConfError SetDns) Bool) : Prop where
  rc : s.state resolvConf = some (.file original)
  programs : ∀ i, s.programs i = (apply (config i)).run ∨
    ∃ error, s.programs i = .ret (.error error)

variable {config : Bool → NormalizedConfig}
variable {s : System FsCall FsCall.Ret Fs (Except ResolvConfError SetDns) Bool}

theorem Unread.turn (h : Unread original config s) (global : ∀ i, (config i).domains = [])
    (binary : ¬ Utf8 original) (i : Bool) :
    Unread original config (s.turn (perform walk false) sameStep i) := by
  cases h.programs i with
  | inl start =>
      have fails := turn_unreadable walk (config i) (global i) h.rc binary
      rw [← start] at fails
      refine ⟨by simpa only [System.turn, fails] using h.rc, fun j => ?_⟩
      simp only [System.turn, fails]
      by_cases same : j = i
      · subst same
        exact .inr ⟨_, Function.update_self ..⟩
      · rw [Function.update_of_ne same]
        exact h.programs j
  | inr failed =>
      obtain ⟨error, ended⟩ := failed
      rwa [System.turn_ended ended]

/-- A file that is no text stays as it is, and nobody succeeds. -/
theorem unread_settled (h : Unread original config s) (global : ∀ i, (config i).domains = [])
    (unowned : ¬ HasOwnerHeader original) (binary : ¬ Utf8 original) (schedule : List Bool) :
    Settled original config (s.run (perform walk false) sameStep schedule) ∧
      s.Admitted (perform walk false) sameStep (fun i => Undisturbed (config i).owner) schedule := by
  induction schedule generalizing s with
  | nil =>
      refine ⟨⟨.inl h.rc, ?_⟩, trivial⟩
      intro i _ _ both
      obtain ⟨⟨handle, ok⟩, -⟩ := both
      rw [System.run] at ok
      cases h.programs i with
      | inl start => exact Phase.reading.program_ne_ok (global i) handle (start.symm.trans ok)
      | inr failed =>
          obtain ⟨error, ended⟩ := failed
          cases ended.symm.trans ok
  | cons i schedule ih =>
      obtain ⟨settled, admitted⟩ := ih (h.turn walk global binary i)
      exact ⟨settled, fun c _ _ => undisturbed_of_original unowned h.rc c, admitted⟩

end Unreadable

/-- Two processes that apply at the same time keep the original, and exclude each
other when their owners differ, exactly when neither copies a generated file to
the backup nor writes aside while the file is marked for the other owner. -/
theorem concurrent_applies_iff (walk : Bytes → Bytes) {config : Bool → NormalizedConfig}
    (valid : ∀ i, ValidOwner (config i).owner) (global : ∀ i, (config i).domains = [])
    (ready : Ready fs) (rc : fs resolvConf = some (.file original))
    (unowned : ¬ HasOwnerHeader original) (noBackup : fs backup = none) (schedule : List Bool)
    (ended : ((applying config fs).run (perform walk false) sameStep schedule).Ended) :
    Settled original config ((applying config fs).run (perform walk false) sameStep schedule) ↔
      (applying config fs).Admitted (perform walk false) sameStep
        (fun i => Undisturbed (config i).owner) schedule := by
  by_cases text : Utf8 original
  swap
  · have start : Unread original config (applying config fs) := ⟨rc, fun _ => .inl rfl⟩
    obtain ⟨settled, admitted⟩ := unread_settled walk start global unowned text schedule
    exact iff_of_true settled admitted
  have start : Contending original config (fun _ => .reading) (applying config fs) :=
    ⟨fun _ => rfl, ready, rc, .inl noBackup, by simp, by simp⟩
  exact contending_settled_iff walk valid global unowned text start schedule ended

def sampleOwners (i : Bool) : NormalizedConfig := sampleConfig (if i then "b" else "a")

theorem sampleOwners_valid (i : Bool) : ValidOwner (sampleOwners i).owner := by
  cases i <;> decide

theorem sampleOwners_global (i : Bool) : (sampleOwners i).domains = [] := rfl

/-- One after the other. -/
def sequential : List Bool := [false, false, false, false, false, true, true]

/-- Both pass the test before either copies. -/
def overtaken : List Bool := [false, false, true, true, true, true, true, false, false, false]

set_option maxRecDepth 20000 in
theorem concurrent_applies_sample :
    Settled sampleContent sampleOwners
        ((applying sampleOwners sampleFs).run (perform id false) sameStep sequential) ↔
      (applying sampleOwners sampleFs).Admitted (perform id false) sameStep
        (fun i => Undisturbed (sampleOwners i).owner) sequential :=
  concurrent_applies_iff id sampleOwners_valid sampleOwners_global sample_ready rfl
    sample_unowned (by decide) sequential (System.ended_iff.mpr (by decide))

set_option maxRecDepth 20000 in
/-- The overtaken process copies the other one's file over the original. -/
theorem overtaken_apply_loses_content :
    ¬ ∀ (walk : Bytes → Bytes) (config : Bool → NormalizedConfig) (fs : Fs) (original : Bytes)
      (schedule : List Bool), (∀ i, ValidOwner (config i).owner) →
      (∀ i, (config i).domains = []) → Ready fs → Utf8 original →
      fs resolvConf = some (.file original) → ¬ HasOwnerHeader original → fs backup = none →
      fs temp = none → ((applying config fs).run (perform walk false) sameStep schedule).Ended →
      Settled original config ((applying config fs).run (perform walk false) sameStep schedule) := by
  intro claim
  have settled := claim id sampleOwners sampleFs sampleContent overtaken sampleOwners_valid
    sampleOwners_global sample_ready (by decide) rfl sample_unowned (by decide) (by decide)
    (System.ended_iff.mpr (by decide))
  have lost : ¬ (((applying sampleOwners sampleFs).run (perform id false) sameStep
        overtaken).state resolvConf = some (.file sampleContent) ∨
      ((applying sampleOwners sampleFs).run (perform id false) sameStep
        overtaken).state backup = some (.file sampleContent)) := by decide
  exact lost settled.1

end Setdns.Linux.ResolvConf

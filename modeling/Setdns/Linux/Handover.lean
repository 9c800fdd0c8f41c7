import Mathlib.Logic.Relation
import Setdns.Linux.ResolvConfCalm

/-!
What the backend is for: one slot, free or held by the latest successful apply.
The slot machine computes the answer of every call from the original content and
its own state alone. Without faults and outside writes the files follow it call
by call, so many handles of many owners share one file.
-/

namespace Setdns.Linux.ResolvConf

open Text Effects Effects.Program Effects.Files

/-- A held slot remembers that its owner is valid and that the original content
is not the owner's own. -/
inductive Slot (original : Bytes) where
  | free
  | held (config : NormalizedConfig) (valid : ValidOwner config.owner)
      (foreign : ¬ ownerHeader config.owner <+: original)

namespace Slot

variable {original : Bytes}

def apply (slot : Slot original) (config : NormalizedConfig) (valid : ValidOwner config.owner) :
    Except ResolvConfError SetDns × Slot original :=
  if config.domains ≠ [] then (.error .unsupportedSplitDns, slot)
  else match slot with
    | .free =>
        if marked : ownerHeader config.owner <+: original then
          (.error (.missingBackup config.owner), .free)
        else (.ok ⟨config.owner⟩, .held config valid marked)
    | .held current valid' foreign =>
        if same : config.owner = current.owner then
          (.ok ⟨config.owner⟩, .held config valid (same ▸ foreign))
        else (.error .staleBackup, .held current valid' foreign)

def close (slot : Slot original) (handle : SetDns) :
    Except ResolvConfError Unit × Slot original :=
  match slot with
  | .free =>
      if ownerHeader handle.owner <+: original then
        (.error (.missingBackup handle.owner), .free)
      else (.error (.trampled handle.owner), .free)
  | .held current valid foreign =>
      if handle.owner = current.owner then (.ok (), .free)
      else (.error (.trampled handle.owner), .held current valid foreign)

def content : Slot original → Bytes
  | .free => original
  | .held config _ _ => renderResolvConf config.owner config.servers

def kept : Slot original → Option Entry
  | .free => none
  | .held _ _ _ => some (.file original)

/-- The files of a machine whose slot is in a given state. -/
structure Represents (slot : Slot original) (fs : Fs) : Prop where
  ready : Ready fs
  text : Utf8 original
  content : fs resolvConf = some (.file slot.content)
  kept : fs backup = slot.kept

theorem ownerHeader_prefix_render_iff {a b : Bytes} (ha : lf ∉ a) (hb : lf ∉ b)
    (servers : List IpAddr) : ownerHeader b <+: renderResolvConf a servers ↔ b = a := by
  constructor
  · exact fun h => ownerHeader_prefix_unique hb ha h (ownerHeader_prefix_render a servers)
  · rintro rfl
    exact ownerHeader_prefix_render b servers

variable (walk : Bytes → Bytes) {fs : Fs} {slot : Slot original}

/-- Nothing but a success changes the files. -/
def Kept {α : Type} (r : Except ResolvConfError α) (fs fs' : Fs) : Prop :=
  ∀ e, r = .error e → fs' = fs

theorem represents_free_of_move (h : Represents slot fs) (hb : fs backup = some (.file original)) :
    Represents (Slot.free : Slot original) (move fs backup resolvConf) where
  ready := h.ready.moved h.ready.plainBackup etc_ne_backup etc_ne_resolvConf
  text := h.text
  content := by rw [move, Function.update_self, hb]; rfl
  kept := by rw [move, Function.update_of_ne backup_ne_resolvConf, Function.update_self]; rfl

theorem represents_installed {config : NormalizedConfig} (valid : ValidOwner config.owner)
    (foreign : ¬ ownerHeader config.owner <+: original)
    (h : Represents (Slot.free : Slot original) fs) :
    Represents (Slot.held config valid foreign)
      (installed fs original (renderResolvConf config.owner config.servers)) where
  ready := ready_installed h.ready _ _
  text := h.text
  content := installed_resolvConf _
  kept := installed_backup _

theorem apply_refines (h : slot.Represents fs) (config : NormalizedConfig)
    (valid : ValidOwner config.owner) :
    ∃ fs', Yields (calm walk) (ResolvConf.apply config).run fs (slot.apply config valid).1 fs' ∧
      (slot.apply config valid).2.Represents fs' ∧
      Kept (slot.apply config valid).1 fs fs' ∧
      (∀ handle, (slot.apply config valid).1 = .ok handle →
        handle.owner = config.owner ∧ fs' temp = none) := by
  unfold Slot.apply
  by_cases split : config.domains ≠ []
  · rw [if_pos split]
    exact ⟨fs, apply_split walk split, h, fun _ _ => rfl, by simp⟩
  rw [if_neg split]
  have nosplit := not_not.mp split
  cases slot with
  | free =>
      by_cases marked : ownerHeader config.owner <+: original
      · simp only [marked, dite_true]
        refine ⟨fs, apply_failedCleanup walk nosplit ?_, h, fun _ _ => rfl, by simp⟩
        exact cleanupResidual_lost walk h.ready h.content h.text marked h.kept
      · simp only [marked, dite_false]
        refine ⟨_, apply_fresh walk nosplit ?_ h.ready h.kept h.content,
          represents_installed valid marked h, by simp [Kept], ?_⟩
        · exact cleanupResidual_foreign walk h.ready h.content h.text marked
        · rintro _ ⟨⟩
          exact ⟨rfl, installed_temp _⟩
  | held current valid' foreign =>
      have header := ownerHeader_prefix_render_iff valid'.lf_not_mem valid.lf_not_mem
        current.servers
      have utf8 : Utf8 (renderResolvConf current.owner current.servers) :=
        (ascii_render valid'.ascii current.servers).utf8
      by_cases same : config.owner = current.owner
      · simp only [dif_pos same]
        have free := represents_free_of_move h h.kept
        refine ⟨_, apply_fresh walk nosplit ?_ free.ready free.kept free.content,
          represents_installed valid (same ▸ foreign) free, by simp [Kept], ?_⟩
        · exact cleanupResidual_restore walk h.ready h.content utf8 (header.mpr same) h.kept
        · rintro _ ⟨⟩
          exact ⟨rfl, installed_temp _⟩
      · simp only [same, dite_false]
        refine ⟨fs, apply_stale walk nosplit ?_ h.ready.plainBackup h.kept, h,
          fun _ _ => rfl, by simp⟩
        exact cleanupResidual_foreign walk h.ready h.content utf8 (mt header.mp same)

theorem close_refines (h : slot.Represents fs) (handle : SetDns)
    (valid : ValidOwner handle.owner) :
    ∃ fs', Yields (calm walk) (ResolvConf.close handle).run fs (slot.close handle).1 fs' ∧
      (slot.close handle).2.Represents fs' ∧ Kept (slot.close handle).1 fs fs' ∧
      fs' temp = fs temp := by
  cases slot with
  | free =>
      by_cases marked : ownerHeader handle.owner <+: original
      · simp only [Slot.close, marked, ite_true]
        exact ⟨fs, close_lost walk h.ready h.content h.text marked h.kept, h,
          fun _ _ => rfl, rfl⟩
      · simp only [Slot.close, marked, ite_false]
        exact ⟨fs, close_trampled walk h.ready h.content h.text marked, h,
          fun _ _ => rfl, rfl⟩
  | held current valid' foreign =>
      have header := ownerHeader_prefix_render_iff valid'.lf_not_mem valid.lf_not_mem
        current.servers
      have utf8 : Utf8 (renderResolvConf current.owner current.servers) :=
        (ascii_render valid'.ascii current.servers).utf8
      by_cases same : handle.owner = current.owner
      · simp only [Slot.close, same, ite_true]
        refine ⟨_, close_restore walk h.ready h.content utf8 (header.mpr same) h.kept,
          represents_free_of_move h h.kept, by simp [Kept], ?_⟩
        rw [move, Function.update_of_ne temp_ne_resolvConf, Function.update_of_ne temp_ne_backup]
      · simp only [Slot.close, same, ite_false]
        exact ⟨fs, close_trampled walk h.ready h.content utf8 (mt header.mp same), h,
          fun _ _ => rfl, rfl⟩

/-- A success takes the slot, unless another owner holds it; a failure leaves it. -/
theorem apply_cases (slot : Slot original) (config : NormalizedConfig)
    (valid : ValidOwner config.owner) :
    (∃ foreign, slot.apply config valid = (.ok ⟨config.owner⟩, .held config valid foreign) ∧
      ∀ current valid' foreign', slot = .held current valid' foreign' →
        config.owner = current.owner) ∨
      ∃ e, slot.apply config valid = (.error e, slot) := by
  unfold Slot.apply
  by_cases split : config.domains ≠ []
  · rw [if_pos split]
    exact .inr ⟨_, rfl⟩
  rw [if_neg split]
  cases slot with
  | free =>
      by_cases marked : ownerHeader config.owner <+: original
      · exact .inr ⟨_, dif_pos marked⟩
      · exact .inl ⟨marked, dif_neg marked, by simp⟩
  | held current valid' foreign =>
      by_cases same : config.owner = current.owner
      · refine .inl ⟨same ▸ foreign, dif_pos same, ?_⟩
        rintro _ _ _ ⟨⟩
        exact same
      · exact .inr ⟨_, dif_neg same⟩

/-- Only a handle of the holding owner frees the slot. -/
theorem close_cases (slot : Slot original) (handle : SetDns) :
    (slot.close handle = (.ok (), .free) ∧
      ∃ config valid foreign, slot = .held config valid foreign ∧ handle.owner = config.owner) ∨
      (∃ e, slot.close handle = (.error e, slot)) ∧
        ∀ config valid foreign, slot = .held config valid foreign →
          handle.owner ≠ config.owner := by
  cases slot with
  | free =>
      refine .inr ⟨?_, by simp⟩
      by_cases marked : ownerHeader handle.owner <+: original
      · exact ⟨_, if_pos marked⟩
      · exact ⟨_, if_neg marked⟩
  | held current valid foreign =>
      by_cases same : handle.owner = current.owner
      · exact .inl ⟨if_pos same, current, valid, foreign, rfl, same⟩
      · refine .inr ⟨⟨_, if_neg same⟩, ?_⟩
        rintro _ _ _ ⟨⟩
        exact same

end Slot

/-- Setdns has the file, in the name of this owner. -/
def ManagedFor (owner : Bytes) (fs : Fs) : Prop :=
  fs backup ≠ none ∧ MarkedFor owner fs

theorem Slot.managedFor_iff {original : Bytes} {slot : Slot original} {fs : Fs}
    (h : slot.Represents fs) {owner : Bytes} (valid : ValidOwner owner) :
    ManagedFor owner fs ↔
      ∃ config valid foreign, slot = .held config valid foreign ∧ owner = config.owner := by
  cases slot with
  | free => simp [ManagedFor, h.kept, Slot.kept]
  | held config valid' foreign =>
      have header := ownerHeader_prefix_render_iff valid'.lf_not_mem valid.lf_not_mem
        config.servers
      simp only [ManagedFor, MarkedFor, h.kept, h.content, Slot.kept, Slot.content]
      constructor
      · rintro ⟨-, content, ⟨⟩, marked⟩
        exact ⟨config, valid', foreign, rfl, header.mp marked⟩
      · rintro ⟨_, _, _, ⟨⟩, same⟩
        exact ⟨by simp, _, rfl, header.mpr same⟩

/-- What the callers have: the files, how many handles were ever opened, the
open ones under their numbers, and the latest successful apply. -/
structure Session where
  fs : Fs
  opened : Nat
  live : List (Nat × SetDns)
  latest : Option (Nat × NormalizedConfig)

namespace Session

variable (walk : Bytes → Bytes)

def initial (fs : Fs) : Session := ⟨fs, 0, [], none⟩

/-- A call that meets no fault, from its start to its return. -/
inductive Call : Session → Session → Prop
  | applied (config : NormalizedConfig) (valid : ValidOwner config.owner) {s : Session}
      {handle : SetDns} {fs' : Fs}
      (ends : Ends (calm walk) (ResolvConf.apply config).run s.fs (.ok handle) fs') :
      Call s ⟨fs', s.opened + 1, (s.opened, handle) :: s.live, some (s.opened, config)⟩
  | refused (config : NormalizedConfig) (valid : ValidOwner config.owner) {s : Session}
      {e : ResolvConfError} {fs' : Fs}
      (ends : Ends (calm walk) (ResolvConf.apply config).run s.fs (.error e) fs') :
      Call s { s with fs := fs' }
  | closed {s : Session} {entry : Nat × SetDns} (live : entry ∈ s.live)
      {r : Except ResolvConfError Unit} {fs' : Fs}
      (ends : Ends (calm walk) (ResolvConf.close entry.2).run s.fs r fs') :
      Call s { s with fs := fs', live := s.live.erase entry }

/-- The slot is held by the latest successful apply, through a handle that is
still open. -/
structure Consistent (original : Bytes) (start : Fs) (s : Session) : Prop where
  slot : ∃ slot : Slot original, slot.Represents s.fs ∧
    ∀ config valid foreign, slot = .held config valid foreign →
      ∃ n, s.latest = some (n, config) ∧ (n, ⟨config.owner⟩) ∈ s.live
  handles : ∀ entry ∈ s.live, entry.1 < s.opened ∧ ValidOwner entry.2.owner
  untouched : s.opened = 0 → s.fs = start
  temp : 0 < s.opened → s.fs temp = none

variable {walk} {original : Bytes} {start : Fs} {s s' : Session}

theorem initial_consistent (ready : Ready start) (text : Utf8 original)
    (rc : start resolvConf = some (.file original)) (noBackup : start backup = none) :
    Consistent original start (initial start) where
  slot := ⟨.free, ⟨ready, text, rc, noBackup⟩, by simp⟩
  handles := by simp [initial]
  untouched := fun _ => rfl
  temp := by simp [initial]

theorem call_consistent (h : Consistent original start s) (call : Call walk s s') :
    Consistent original start s' := by
  obtain ⟨slot, represents, holder⟩ := h.slot
  cases call with
  | applied config valid ends =>
      obtain ⟨fs₁, yields, represents₁, _, opened⟩ :=
        Slot.apply_refines walk represents config valid
      obtain ⟨hr, rfl⟩ := yields.ends ends
      refine ⟨⟨_, represents₁, ?_⟩, ?_, by simp, fun _ => (opened _ hr.symm).2⟩
      · rcases slot.apply_cases config valid with ⟨foreign, ok, _⟩ | ⟨e, failed⟩
        · rw [ok] at hr ⊢
          cases hr
          rintro _ _ _ ⟨⟩
          exact ⟨s.opened, rfl, List.mem_cons_self⟩
        · rw [failed] at hr
          cases hr
      · intro entry mem
        rcases List.mem_cons.mp mem with rfl | mem
        · exact ⟨Nat.lt_succ_self _, (opened _ hr.symm).1 ▸ valid⟩
        · exact ⟨Nat.lt_succ_of_lt (h.handles entry mem).1, (h.handles entry mem).2⟩
  | refused config valid ends =>
      obtain ⟨fs₁, yields, _, kept, _⟩ := Slot.apply_refines walk represents config valid
      obtain ⟨hr, rfl⟩ := yields.ends ends
      rw [kept _ hr.symm]
      exact h
  | @closed _ entry live r fs' ends =>
      obtain ⟨fs₁, yields, represents₁, kept, temp₁⟩ :=
        Slot.close_refines walk represents entry.2 (h.handles entry live).2
      obtain ⟨hr, rfl⟩ := yields.ends ends
      refine ⟨⟨_, represents₁, ?_⟩, fun e mem => h.handles e (List.mem_of_mem_erase mem),
        fun none => ?_, fun pos => temp₁.trans (h.temp pos)⟩
      · rcases slot.close_cases entry.2 with ⟨freed, _⟩ | ⟨⟨e, failed⟩, other⟩
        · rw [freed]
          simp
        · rw [failed]
          intro config valid foreign held
          obtain ⟨n, latest, mem⟩ := holder config valid foreign held
          refine ⟨n, latest, (List.mem_erase_of_ne ?_).mpr mem⟩
          rintro rfl
          exact other config valid foreign held rfl
      · have opened := (h.handles entry live).1
        have none : s.opened = 0 := none
        omega

theorem reachable_consistent (h : Consistent original start s)
    (run : Relation.ReflTransGen (Call walk) s s') : Consistent original start s' := by
  induction run with
  | refl => exact h
  | tail _ call ih => exact call_consistent ih call

/-- What any order of calls keeps, for a machine with this original content. -/
structure Shared (walk : Bytes → Bytes) (original : Bytes) (start : Fs) (s : Session) : Prop where
  content : (s.fs backup = none ∧ s.fs resolvConf = some (.file original)) ∨
    ∃ n config, s.latest = some (n, config) ∧ (n, ⟨config.owner⟩) ∈ s.live ∧
      s.fs backup = some (.file original) ∧
      s.fs resolvConf = some (.file (renderResolvConf config.owner config.servers))
  excluded : ∀ owner config r fs', ValidOwner owner → ManagedFor owner s.fs →
    ValidOwner config.owner → config.owner ≠ owner →
    Ends (calm walk) (ResolvConf.apply config).run s.fs r fs' → (∃ e, r = .error e) ∧ fs' = s.fs
  notHolder : ∀ handle r fs', ValidOwner handle.owner → ¬ ManagedFor handle.owner s.fs →
    Ends (calm walk) (ResolvConf.close handle).run s.fs r fs' → (∃ e, r = .error e) ∧ fs' = s.fs
  restored : s.live = [] → s.fs resolvConf = some (.file original) ∧ s.fs backup = none ∧
    (0 < s.opened ∨ start temp = none → s.fs temp = none)

theorem Consistent.shared (walk : Bytes → Bytes) (h : Consistent original start s) :
    Shared walk original start s := by
  obtain ⟨slot, represents, holder⟩ := h.slot
  refine ⟨?_, ?_, ?_, ?_⟩
  · cases slot with
    | free => exact .inl ⟨represents.kept, represents.content⟩
    | held config valid foreign =>
        obtain ⟨n, latest, live⟩ := holder config valid foreign rfl
        exact .inr ⟨n, config, latest, live, represents.kept, represents.content⟩
  · intro owner config r fs' validOwner managed valid other ends
    obtain ⟨current, _, _, held, rfl⟩ := (Slot.managedFor_iff represents validOwner).mp managed
    obtain ⟨fs₁, yields, _, kept, _⟩ := Slot.apply_refines walk represents config valid
    obtain ⟨rfl, rfl⟩ := yields.ends ends
    rcases slot.apply_cases config valid with ⟨_, _, same⟩ | ⟨e, failed⟩
    · exact absurd (same current _ _ held) other
    · have error : (slot.apply config valid).1 = .error e := by rw [failed]
      exact ⟨⟨e, error⟩, kept e error⟩
  · intro handle r fs' valid notManaged ends
    obtain ⟨fs₁, yields, _, kept, _⟩ := Slot.close_refines walk represents handle valid
    obtain ⟨rfl, rfl⟩ := yields.ends ends
    rcases slot.close_cases handle with ⟨_, holds⟩ | ⟨⟨e, failed⟩, _⟩
    · exact absurd ((Slot.managedFor_iff represents valid).mpr holds) notManaged
    · have error : (slot.close handle).1 = .error e := by rw [failed]
      exact ⟨⟨e, error⟩, kept e error⟩
  · intro closed
    cases slot with
    | free =>
        refine ⟨represents.content, represents.kept, ?_⟩
        rintro (pos | noTemp)
        · exact h.temp pos
        · rcases Nat.eq_zero_or_pos s.opened with none | pos
          · rw [h.untouched none, noTemp]
          · exact h.temp pos
    | held config valid foreign =>
        obtain ⟨n, _, live⟩ := holder config valid foreign rfl
        simp [closed] at live

/-- Any number of handles of any owners share the file: it holds the original or
the latest successful apply, only the holding owner can change it, and closing
every handle brings the original back. -/
theorem handles_share_file (walk : Bytes → Bytes) (ready : Ready start) (text : Utf8 original)
    (rc : start resolvConf = some (.file original)) (noBackup : start backup = none)
    (run : Relation.ReflTransGen (Call walk) (initial start) s) :
    Shared walk original start s :=
  (reachable_consistent (initial_consistent ready text rc noBackup) run).shared walk

theorem handles_share_file_sample :
    Shared id sampleContent sampleFs ⟨sampleApplied, 1, [(0, ⟨bytes "a"⟩)],
      some (0, sampleConfig "a")⟩ := by
  refine handles_share_file id sample_ready (by decide) rfl (by decide) (.single ?_)
  have ends := ends_exec (calm_perform id false) (ResolvConf.apply (sampleConfig "a")).run
    sampleFs
  exact .applied (sampleConfig "a") (by decide) ends

/-- The sample machine with a link to the backup under the temporary name. -/
def sampleAliased : Fs := Function.update sampleFs temp (some (.link backup))

def aliasedApplied : Fs := (exec (perform id false) (ResolvConf.apply (sampleConfig "a")).run
  sampleAliased).2

def aliasedClosed : Fs := (exec (perform id false) (ResolvConf.close ⟨bytes "a"⟩).run
  aliasedApplied).2

/-- One handle is open. -/
def aliasedSession : Session := ⟨aliasedApplied, 1, [(0, ⟨bytes "a"⟩)], some (0, sampleConfig "a")⟩

theorem aliased_applied : Call id (initial sampleAliased) aliasedSession := by
  have ends := ends_exec (calm_perform id false) (ResolvConf.apply (sampleConfig "a")).run
    sampleAliased
  have ok : (exec (perform id false) (ResolvConf.apply (sampleConfig "a")).run
      sampleAliased).1 = .ok ⟨bytes "a"⟩ := by decide +kernel
  rw [ok] at ends
  exact .applied (sampleConfig "a") (by decide) ends

theorem aliased_closed :
    Call id aliasedSession { aliasedSession with fs := aliasedClosed, live := [] } := by
  have ends := ends_exec (calm_perform id false) (ResolvConf.close ⟨bytes "a"⟩).run aliasedApplied
  have closed := @Call.closed id aliasedSession (0, ⟨bytes "a"⟩) List.mem_cons_self _ _ ends
  rwa [show aliasedSession.live.erase (0, ⟨bytes "a"⟩) = [] from List.erase_cons_head ..] at closed

/-- Such a link takes the generated file into the backup: apply and close succeed, and the
original is lost. -/
theorem aliased_temp_loses_original :
    ¬ ∀ (walk : Bytes → Bytes) (original : Bytes) (start : Fs) (s : Session),
      start resolvConf = some (.file original) → Utf8 original → start backup = none →
      start etc = some .dir → Relation.ReflTransGen (Call walk) (initial start) s →
      Shared walk original start s := by
  intro claim
  have shared := claim id sampleContent sampleAliased _ (by decide) (by decide) (by decide)
    (by decide) (.tail (.single aliased_applied) aliased_closed)
  have lost : aliasedClosed resolvConf ≠ some (.file sampleContent) := by decide +kernel
  obtain ⟨content, -⟩ := shared.restored rfl
  dsimp only at content
  exact lost content

end Session

end Setdns.Linux.ResolvConf

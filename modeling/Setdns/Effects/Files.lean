import Mathlib.Logic.Function.Basic
import Setdns.Effects.World
import Setdns.Text.Bytes

/-!
Files as a process sees them: a table from absolute paths to regular files,
symbolic links and directories, and the calls that read and change it. Opening,
reading and copying follow links, from one to the next and as far as the kernel
does; renaming and removing act on the entry itself.

`perform` is the answer of a call that meets no fault. A rename onto a busy
target is refused with `EBUSY`. The `calm` world answers by `perform` on either
route, the `faulty` world also lets any call fail. A copy or a write that fails
or is killed leaves a prefix of its data.
-/

namespace Effects.Files

open Text

inductive IoError where
  | os (errno : Nat)
  | invalidData
  | invalidInput
  deriving DecidableEq, Repr

abbrev ENOENT : Nat := 2
abbrev EBUSY : Nat := 16
abbrev EISDIR : Nat := 21
abbrev ELOOP : Nat := 40

namespace IoError

def isNotFound (e : IoError) : Bool := e = .os ENOENT

def rawOsError : IoError → Option Nat
  | .os errno => some errno
  | _ => none

end IoError

inductive Entry where
  | file (content : Bytes)
  | link (target : Bytes)
  | dir
  deriving DecidableEq, Repr

abbrev Fs : Type := Bytes → Option Entry

inductive FsCall where
  | readToString (path : Bytes)
  | pathExists (path : Bytes)
  | isSymlink (path : Bytes)
  | readLink (path : Bytes)
  | copy (src dst : Bytes)
  | openFile (path : Bytes)
  | syncAll (path : Bytes)
  | create (path : Bytes)
  | writeAll (path content : Bytes)
  | rename (src dst : Bytes)
  | removeFile (path : Bytes)
  deriving DecidableEq

abbrev FsCall.Ret : FsCall → Type
  | .readToString _ => Except IoError Bytes
  | .pathExists _ => Bool
  | .isSymlink _ => Except IoError Bool
  | .readLink _ => Except IoError Bytes
  | _ => Except IoError Unit

abbrev Io (α : Type) : Type := Program FsCall FsCall.Ret α

namespace Fs

abbrev readToString (path : Bytes) : Io (Except IoError Bytes) := .call (.readToString path) .ret
abbrev pathExists (path : Bytes) : Io Bool := .call (.pathExists path) .ret
abbrev isSymlink (path : Bytes) : Io (Except IoError Bool) := .call (.isSymlink path) .ret
abbrev readLink (path : Bytes) : Io (Except IoError Bytes) := .call (.readLink path) .ret
abbrev copy (src dst : Bytes) : Io (Except IoError Unit) := .call (.copy src dst) .ret
abbrev openFile (path : Bytes) : Io (Except IoError Unit) := .call (.openFile path) .ret
abbrev syncAll (path : Bytes) : Io (Except IoError Unit) := .call (.syncAll path) .ret
abbrev create (path : Bytes) : Io (Except IoError Unit) := .call (.create path) .ret
abbrev writeAll (path content : Bytes) : Io (Except IoError Unit) :=
  .call (.writeAll path content) .ret
abbrev rename (src dst : Bytes) : Io (Except IoError Unit) := .call (.rename src dst) .ret
abbrev removeFile (path : Bytes) : Io (Except IoError Unit) := .call (.removeFile path) .ret

end Fs

section Walk

-- The path that the text of a link stands for.
variable (walk : Bytes → Bytes)

/-- Follow so many links. -/
def chase (fs : Fs) : Nat → Bytes → Bytes
  | 0, path => path
  | n + 1, path =>
      match fs path with
      | some (.link target) => chase fs n (walk target)
      | _ => path

/-- More links than this are taken for a loop. -/
abbrev maxLinks : Nat := 40

def follow (fs : Fs) (path : Bytes) : Bytes := chase walk fs maxLinks path

/-- The entry is a symbolic link. -/
def IsLink (fs : Fs) (path : Bytes) : Prop := ∃ target, fs path = some (.link target)

theorem chase_of_not_link {fs : Fs} {path : Bytes} (h : ¬ IsLink fs path) (n : Nat) :
    chase walk fs n path = path := by
  cases n with
  | zero => rfl
  | succ n =>
      rw [chase]
      split
      · exact absurd ⟨_, ‹_›⟩ h
      · rfl

theorem follow_of_not_link {fs : Fs} {path : Bytes} (h : ¬ IsLink fs path) :
    follow walk fs path = path :=
  chase_of_not_link walk h _

def readFile (fs : Fs) (path : Bytes) : Except IoError Bytes :=
  match fs (follow walk fs path) with
  | some (.file content) => .ok content
  | some (.link _) => .error (.os ELOOP)
  | some .dir => .error (.os EISDIR)
  | none => .error (.os ENOENT)

def store (fs : Fs) (path content : Bytes) : Fs :=
  Function.update fs (follow walk fs path) (some (.file content))

/-- Why a path cannot be opened for writing, if it cannot. -/
def refusal (fs : Fs) (path : Bytes) : Option IoError :=
  match fs (follow walk fs path) with
  | some (.link _) => some (.os ELOOP)
  | some .dir => some (.os EISDIR)
  | _ => none

def move (fs : Fs) (src dst : Bytes) : Fs :=
  Function.update (Function.update fs src none) dst (fs src)

def unlink (fs : Fs) (path : Bytes) : Fs := Function.update fs path none

/-- What `copy` puts into its target: opening the target truncates it, so a file
copied onto itself ends empty. -/
def copied (fs : Fs) (src dst content : Bytes) : Bytes :=
  if follow walk fs src = follow walk fs dst then [] else content

def perform (busy : Bool) (fs : Fs) : (c : FsCall) → FsCall.Ret c × Fs
  | .readToString path =>
      (match readFile walk fs path with
        | .ok content => if Utf8 content then .ok content else .error .invalidData
        | .error e => .error e, fs)
  | .pathExists path =>
      (match fs (follow walk fs path) with
        | some (.link _) => false
        | some _ => true
        | none => false, fs)
  | .isSymlink path =>
      (match fs path with
        | some (.link _) => .ok true
        | some _ => .ok false
        | none => .error (.os ENOENT), fs)
  | .readLink path =>
      (match fs path with
        | some (.link target) => .ok target
        | some _ => .error .invalidData
        | none => .error (.os ENOENT), fs)
  | .copy src dst =>
      match readFile walk fs src, refusal walk fs dst with
      | .error e, _ => (.error e, fs)
      | .ok _, some e => (.error e, fs)
      | .ok content, none => (.ok (), store walk fs dst (copied walk fs src dst content))
  | .openFile path =>
      (match fs (follow walk fs path) with
        | some (.link _) => .error (.os ELOOP)
        | some _ => .ok ()
        | none => .error (.os ENOENT), fs)
  | .syncAll _ => (.ok (), fs)
  | .create path =>
      match refusal walk fs path with
      | some e => (.error e, fs)
      | none => (.ok (), store walk fs path [])
  | .writeAll path content => (.ok (), store walk fs path content)
  | .rename src dst =>
      match fs src, fs dst with
      | none, _ => (.error (.os ENOENT), fs)
      | some _, some .dir => (.error (.os EISDIR), fs)
      | some _, _ => if busy then (.error (.os EBUSY), fs) else (.ok (), move fs src dst)
  | .removeFile path =>
      match fs path with
      | none => (.error (.os ENOENT), fs)
      | some .dir => (.error (.os EISDIR), fs)
      | some _ => (.ok (), unlink fs path)

/-- The answer of a call that fails. An existence test has no error to report: it
answers `false` whenever the metadata cannot be read. -/
def failure (e : IoError) : (c : FsCall) → FsCall.Ret c
  | .readToString _ => .error e
  | .pathExists _ => false
  | .isSymlink _ => .error e
  | .readLink _ => .error e
  | .copy _ _ => .error e
  | .openFile _ => .error e
  | .syncAll _ => .error e
  | .create _ => .error e
  | .writeAll _ _ => .error e
  | .rename _ _ => .error e
  | .removeFile _ => .error e

/-- What a call that does not complete may leave. -/
def CutShort (fs : Fs) : FsCall → Fs → Prop
  | .copy src dst, fs' =>
      fs' = fs ∨ ∃ content part, readFile walk fs src = .ok content ∧
        refusal walk fs dst = none ∧ part <+: copied walk fs src dst content ∧
        fs' = store walk fs dst part
  | .writeAll path content, fs' =>
      fs' = fs ∨ ∃ part, part <+: content ∧ fs' = store walk fs path part
  | _, fs' => fs' = fs

/-- A killed call has not happened, has happened, or has left a prefix. -/
def Torn (fs : Fs) (c : FsCall) (fs' : Fs) : Prop :=
  CutShort walk fs c fs' ∨ fs' = (perform walk false fs c).2

def calm : World FsCall FsCall.Ret Fs where
  answers fs c r fs' := ∃ busy, perform walk busy fs c = (r, fs')
  torn := Torn walk

/-- Any call may also fail. A file that is there is never reported missing. -/
def faulty : World FsCall FsCall.Ret Fs where
  answers fs c r fs' := (calm walk).answers fs c r fs' ∨
    ∃ e, e ≠ .os ENOENT ∧ r = failure e c ∧ CutShort walk fs c fs'
  torn := Torn walk

theorem calm_total : (calm walk).Total :=
  fun _ _ => ⟨_, _, false, rfl⟩

theorem calm_perform (busy : Bool) (fs : Fs) (c : FsCall) :
    (calm walk).answers fs c (perform walk busy fs c).1 (perform walk busy fs c).2 :=
  ⟨busy, rfl⟩

theorem faulty_perform (busy : Bool) (fs : Fs) (c : FsCall) :
    (faulty walk).answers fs c (perform walk busy fs c).1 (perform walk busy fs c).2 :=
  .inl ⟨busy, rfl⟩

/-- An existence test that meets no fault finds nothing. -/
def Absent (fs : Fs) (path : Bytes) : Prop := (perform walk false fs (.pathExists path)).1 = false

/-- A path that is free or names a regular file. -/
def Plain (fs : Fs) (path : Bytes) : Prop :=
  ∀ e, fs path = some e → ∃ content, e = .file content

section PlainPaths

variable {walk} {fs fs' : Fs} {path src dst content : Bytes} {busy : Bool}

theorem plain_iff : Plain fs path ↔ fs path = none ∨ ∃ content, fs path = some (.file content) := by
  cases h : fs path with
  | none => simp [Plain, h]
  | some e => simp [Plain, h]

theorem Plain.file (h : Plain fs path) (there : fs path ≠ none) :
    ∃ content, fs path = some (.file content) :=
  (plain_iff.mp h).resolve_left there

theorem Plain.not_link (h : Plain fs path) : ¬ IsLink fs path := by
  rintro ⟨target, link⟩
  obtain ⟨content, file⟩ := h _ link
  cases file

theorem follow_of_plain (h : Plain fs path) : follow walk fs path = path :=
  follow_of_not_link walk h.not_link

theorem readFile_of_plain (h : Plain fs path) :
    readFile walk fs path = .ok content ↔ fs path = some (.file content) := by
  rcases plain_iff.mp h with h' | ⟨content, h'⟩ <;>
    simp [readFile, follow_of_plain h, h']

theorem absent_of_plain (h : Plain fs path) : Absent walk fs path ↔ fs path = none := by
  rcases plain_iff.mp h with h' | ⟨content, h'⟩ <;>
    simp [Absent, perform, follow_of_plain h, h']

theorem refusal_of_plain (h : Plain fs path) : refusal walk fs path = none := by
  rcases plain_iff.mp h with h' | ⟨content, h'⟩ <;>
    simp [refusal, follow_of_plain h, h']

theorem store_of_plain (h : Plain fs path) :
    store walk fs path content = Function.update fs path (some (.file content)) := by
  rw [store, follow_of_plain h]

theorem copied_of_plain (hs : Plain fs src) (hd : Plain fs dst) (hne : src ≠ dst) :
    copied walk fs src dst content = content := by
  simp [copied, follow_of_plain hs, follow_of_plain hd, hne]

theorem plain_update_file (h : Plain fs path) :
    Plain (Function.update fs dst (some (.file content))) path := by
  intro e he
  by_cases hp : path = dst
  · subst hp
    simp only [Function.update_self, Option.some.injEq] at he
    exact ⟨content, he.symm⟩
  · rw [Function.update_of_ne hp] at he
    exact h e he

/-- A copy that is complete and then loses its source is a rename. -/
theorem unlink_update (hne : src ≠ dst) (hsrc : fs src = some (.file content)) :
    unlink (Function.update fs dst (some (.file content))) src = move fs src dst := by
  rw [unlink, move, hsrc, Function.update_comm hne]

theorem plain_unlink (h : Plain fs path) : Plain (unlink fs dst) path := by
  intro e he
  by_cases hp : path = dst
  · subst hp
    simp [unlink] at he
  · rw [unlink, Function.update_of_ne hp] at he
    exact h e he

theorem plain_move (hs : Plain fs src) (h : Plain fs path) : Plain (move fs src dst) path := by
  intro e he
  by_cases hp : path = dst
  · subst hp
    rw [move, Function.update_self] at he
    exact hs e he
  · rw [move, Function.update_of_ne hp] at he
    exact plain_unlink h e he

end PlainPaths

/-- The calls that only look. -/
def Quiet : FsCall → Prop
  | .readToString _ | .pathExists _ | .isSymlink _ | .readLink _ | .openFile _ | .syncAll _ => True
  | _ => False

section Outcomes

variable {walk} {fs fs' : Fs} {path src dst content : Bytes} {c : FsCall}

theorem perform_quiet (h : Quiet c) (busy : Bool) : (perform walk busy fs c).2 = fs := by
  cases c <;> first | rfl | exact h.elim

theorem cutShort_quiet (h : Quiet c) (cut : CutShort walk fs c fs') : fs' = fs := by
  cases c <;> first | exact cut | exact h.elim

theorem torn_quiet (h : Quiet c) (torn : Torn walk fs c fs') : fs' = fs := by
  rcases torn with cut | rfl
  · exact cutShort_quiet h cut
  · exact perform_quiet h false

theorem calm_quiet (h : Quiet c) {r : FsCall.Ret c} (a : (calm walk).answers fs c r fs') :
    fs' = fs := by
  obtain ⟨busy, a⟩ := a
  have same : (perform walk busy fs c).2 = fs := perform_quiet h busy
  rw [← same, a]

theorem faulty_quiet (h : Quiet c) {r : FsCall.Ret c} (a : (faulty walk).answers fs c r fs') :
    fs' = fs := by
  rcases a with a | ⟨e, _, _, cut⟩
  · exact calm_quiet h a
  · exact cutShort_quiet h cut

theorem quiet_faulty (h : Quiet c) : (faulty walk).Quiet c :=
  ⟨fun _ _ => torn_quiet h, fun _ _ _ => faulty_quiet h⟩

theorem calm_read {r : Except IoError Bytes}
    (a : (calm walk).answers fs (.readToString path) r fs') :
    (∃ content, readFile walk fs path = .ok content ∧
        r = if Utf8 content then .ok content else .error .invalidData) ∨
      ∃ e, readFile walk fs path = .error e ∧ r = .error e := by
  obtain ⟨busy, a⟩ := a
  simp only [perform, Prod.mk.injEq] at a
  obtain ⟨rfl, _⟩ := a
  cases h : readFile walk fs path with
  | ok content => exact .inl ⟨content, rfl, rfl⟩
  | error e => exact .inr ⟨e, rfl, rfl⟩

theorem faulty_read_ok (a : (faulty walk).answers fs (.readToString path) (.ok content) fs') :
    readFile walk fs path = .ok content ∧ Utf8 content := by
  rcases a with a | ⟨e, _, hr, _⟩
  · rcases calm_read a with ⟨found, h, hr⟩ | ⟨e, _, hr⟩
    · split at hr
      · cases hr
        exact ⟨h, ‹_›⟩
      · cases hr
    · cases hr
  · cases hr

/-- The calls that take an entry away from its path. -/
def Loses : FsCall → Bytes → Prop
  | .rename src _, p => p = src
  | .removeFile path, p => p = path
  | _, _ => False

theorem store_keeps {p : Bytes} (there : fs p ≠ none) (path content : Bytes) :
    store walk fs path content p ≠ none := by
  by_cases here : p = follow walk fs path
  · rw [store, here, Function.update_self]
    exact Option.some_ne_none _
  · rw [store, Function.update_of_ne here]
    exact there

theorem unlink_keeps {p : Bytes} (kept : p ≠ path) (there : fs p ≠ none) :
    unlink fs path p ≠ none := by
  rwa [unlink, Function.update_of_ne kept]

theorem move_keeps {p : Bytes} (kept : p ≠ src) (there : fs p ≠ none) (moved : fs src ≠ none) :
    move fs src dst p ≠ none := by
  by_cases here : p = dst
  · rwa [move, here, Function.update_self]
  · rw [move, Function.update_of_ne here]
    exact unlink_keeps kept there

theorem perform_keeps {p : Bytes} (kept : ¬ Loses c p) (there : fs p ≠ none) (busy : Bool) :
    (perform walk busy fs c).2 p ≠ none := by
  cases c with
  | copy src dst =>
      simp only [perform]
      split
      · exact there
      · exact there
      · exact store_keeps there dst _
  | create path =>
      simp only [perform]
      split
      · exact there
      · exact store_keeps there path _
  | writeAll path content => exact store_keeps there path content
  | rename src dst =>
      simp only [perform]
      split
      · exact there
      · exact there
      · rename_i e _ found _
        split
        · exact there
        · exact move_keeps kept there (by simp [found])
  | removeFile path =>
      simp only [perform]
      split
      · exact there
      · exact there
      · exact unlink_keeps kept there
  | _ => exact there

theorem faulty_keeps {p : Bytes} (kept : ¬ Loses c p) (there : fs p ≠ none) {r : FsCall.Ret c}
    (a : (faulty walk).answers fs c r fs') : fs' p ≠ none := by
  rcases a with ⟨busy, a⟩ | ⟨e, -, -, cut⟩
  · obtain rfl : (perform walk busy fs c).2 = fs' := congrArg Prod.snd a
    exact perform_keeps kept there busy
  · cases c with
    | copy src dst =>
        rcases cut with rfl | ⟨content, part, -, -, -, rfl⟩
        · exact there
        · exact store_keeps there dst part
    | writeAll path content =>
        rcases cut with rfl | ⟨part, -, rfl⟩
        · exact there
        · exact store_keeps there path part
    | _ => exact (show fs' = fs from cut) ▸ there

/-- A copy has stored a part of its source, or it has failed and has no effect. -/
theorem faulty_copy_cases {r : Except IoError Unit}
    (a : (faulty walk).answers fs (.copy src dst) r fs') :
    (r ≠ .ok () ∧ fs' = fs) ∨ ∃ content part, readFile walk fs src = .ok content ∧
      part <+: content ∧ fs' = store walk fs dst part := by
  have prefixed : ∀ content, copied walk fs src dst content <+: content := by
    intro content
    unfold copied
    split
    · exact List.nil_prefix
    · exact List.prefix_rfl
  rcases a with ⟨busy, a⟩ | ⟨e, -, rfl, rfl | ⟨content, part, read, -, shorter, rfl⟩⟩
  · simp only [perform] at a
    split at a
    · obtain ⟨rfl, rfl⟩ := Prod.mk.inj a
      exact .inl ⟨by simp, rfl⟩
    · obtain ⟨rfl, rfl⟩ := Prod.mk.inj a
      exact .inl ⟨by simp, rfl⟩
    · rename_i content read _
      obtain ⟨-, rfl⟩ := Prod.mk.inj a
      exact .inr ⟨content, _, read, prefixed content, rfl⟩
  · exact .inl ⟨by simp [failure], rfl⟩
  · exact .inr ⟨content, part, read, shorter.trans (prefixed content), rfl⟩

/-- Only a path without a file is reported missing. -/
theorem faulty_read_missing
    (a : (faulty walk).answers fs (.readToString path) (.error (.os ENOENT)) fs') :
    fs (follow walk fs path) = none := by
  rcases a with a | ⟨e, he, hr, _⟩
  · rcases calm_read a with ⟨found, _, hr⟩ | ⟨e, h, hr⟩
    · split at hr <;> cases hr
    · cases hr
      unfold readFile at h
      split at h <;> first | assumption | cases h
  · cases hr
    exact absurd rfl he

/-- Unless it has no effect, a copy between plain paths leaves a prefix of the
source in its target. -/
def CopiedPart (fs : Fs) (src dst : Bytes) (fs' : Fs) : Prop :=
  fs' = fs ∨ ∃ content part, fs src = some (.file content) ∧ part <+: content ∧
    fs' = Function.update fs dst (some (.file part))

theorem cutShort_copy (hs : Plain fs src) (hd : Plain fs dst) (hne : src ≠ dst)
    (cut : CutShort walk fs (.copy src dst) fs') : CopiedPart fs src dst fs' := by
  rcases cut with rfl | ⟨content, part, hread, _, hpart, rfl⟩
  · exact .inl rfl
  · rw [copied_of_plain hs hd hne] at hpart
    exact .inr ⟨content, part, (readFile_of_plain hs).mp hread, hpart, store_of_plain hd⟩

theorem perform_copy (hs : Plain fs src) (hd : Plain fs dst) (hne : src ≠ dst)
    (hsrc : fs src = some (.file content)) (busy : Bool) :
    perform walk busy fs (.copy src dst) =
      (.ok (), Function.update fs dst (some (.file content))) := by
  simp [perform, (readFile_of_plain hs).mpr hsrc, refusal_of_plain hd, store_of_plain hd,
    copied_of_plain hs hd hne]

theorem perform_copy_missing (hs : Plain fs src) (hsrc : fs src = none) (busy : Bool) :
    perform walk busy fs (.copy src dst) = (.error (.os ENOENT), fs) := by
  simp [perform, readFile, follow_of_plain hs, hsrc]

theorem calm_copy (hs : Plain fs src) (hd : Plain fs dst) (hne : src ≠ dst)
    {r : Except IoError Unit} (a : (calm walk).answers fs (.copy src dst) r fs') :
    (r = .error (.os ENOENT) ∧ fs src = none ∧ fs' = fs) ∨
      ∃ content, r = .ok () ∧ fs src = some (.file content) ∧
        fs' = Function.update fs dst (some (.file content)) := by
  obtain ⟨busy, a⟩ := a
  rcases plain_iff.mp hs with hsrc | ⟨content, hsrc⟩
  · rw [perform_copy_missing hs hsrc, Prod.mk.injEq] at a
    exact .inl ⟨a.1.symm, hsrc, a.2.symm⟩
  · rw [perform_copy hs hd hne hsrc, Prod.mk.injEq] at a
    exact .inr ⟨content, a.1.symm, hsrc, a.2.symm⟩

theorem faulty_copy (hs : Plain fs src) (hd : Plain fs dst) (hne : src ≠ dst)
    {r : Except IoError Unit} (a : (faulty walk).answers fs (.copy src dst) r fs') :
    CopiedPart fs src dst fs' ∧
      (r = .ok () → ∃ content, fs src = some (.file content) ∧
        fs' = Function.update fs dst (some (.file content))) := by
  rcases a with a | ⟨e, _, hr, cut⟩
  · rcases calm_copy hs hd hne a with ⟨rfl, _, rfl⟩ | ⟨content, _, hsrc, rfl⟩
    · exact ⟨.inl rfl, fun h => by cases h⟩
    · exact ⟨.inr ⟨content, content, hsrc, List.prefix_rfl, rfl⟩, fun _ => ⟨content, hsrc, rfl⟩⟩
  · exact ⟨cutShort_copy hs hd hne cut, fun h => by cases hr.symm.trans h⟩

theorem torn_copy (hs : Plain fs src) (hd : Plain fs dst) (hne : src ≠ dst)
    (torn : Torn walk fs (.copy src dst) fs') : CopiedPart fs src dst fs' := by
  rcases torn with cut | rfl
  · exact cutShort_copy hs hd hne cut
  · rcases plain_iff.mp hs with hsrc | ⟨content, hsrc⟩
    · exact .inl (by rw [perform_copy_missing hs hsrc])
    · exact .inr ⟨content, content, hsrc, List.prefix_rfl, by rw [perform_copy hs hd hne hsrc]⟩

/-- A rename has happened or has no effect. -/
theorem calm_rename (hs : Plain fs src) (hd : Plain fs dst) {r : Except IoError Unit}
    (a : (calm walk).answers fs (.rename src dst) r fs') :
    (r = .error (.os ENOENT) ∧ fs src = none ∧ fs' = fs) ∨
      ∃ content, fs src = some (.file content) ∧
        ((r = .error (.os EBUSY) ∧ fs' = fs) ∨ (r = .ok () ∧ fs' = move fs src dst)) := by
  obtain ⟨busy, a⟩ := a
  rcases plain_iff.mp hs with hsrc | ⟨content, hsrc⟩ <;>
  rcases plain_iff.mp hd with hdst | ⟨old, hdst⟩ <;>
  cases busy <;>
    simp only [perform, hsrc, hdst, Prod.mk.injEq, Bool.false_eq_true, ite_true, ite_false] at a <;>
    obtain ⟨rfl, rfl⟩ := a <;> simp_all

theorem faulty_rename {r : Except IoError Unit}
    (a : (faulty walk).answers fs (.rename src dst) r fs') :
    (r ≠ .ok () ∧ fs' = fs) ∨ fs src ≠ none ∧ r = .ok () ∧ fs' = move fs src dst := by
  rcases a with ⟨busy, a⟩ | ⟨e, _, rfl, cut⟩
  · simp only [perform] at a
    split at a
    · obtain ⟨rfl, rfl⟩ := Prod.mk.inj a
      exact .inl ⟨by simp, rfl⟩
    · obtain ⟨rfl, rfl⟩ := Prod.mk.inj a
      exact .inl ⟨by simp, rfl⟩
    · rename_i found _
      split at a
      · obtain ⟨rfl, rfl⟩ := Prod.mk.inj a
        exact .inl ⟨by simp, rfl⟩
      · obtain ⟨rfl, rfl⟩ := Prod.mk.inj a
        exact .inr ⟨by simp [found], rfl, rfl⟩
  · exact .inl ⟨by simp [failure], cut⟩

theorem torn_rename (torn : Torn walk fs (.rename src dst) fs') :
    fs' = fs ∨ fs src ≠ none ∧ fs' = move fs src dst := by
  rcases torn with cut | rfl
  · exact .inl cut
  · rcases faulty_rename (faulty_perform walk false fs (.rename src dst)) with
      ⟨-, same⟩ | ⟨there, -, moved⟩
    · exact .inl same
    · exact .inr ⟨there, moved⟩

theorem perform_removeFile_ok (hp : fs path = some (.file content)) (busy : Bool) :
    perform walk busy fs (.removeFile path) = (.ok (), unlink fs path) := by
  simp [perform, hp]

theorem faulty_removeFile {r : Except IoError Unit}
    (a : (faulty walk).answers fs (.removeFile path) r fs') :
    (r ≠ .ok () ∧ fs' = fs) ∨ fs' = unlink fs path := by
  rcases a with ⟨busy, a⟩ | ⟨e, _, rfl, cut⟩
  · simp only [perform] at a
    split at a
    · obtain ⟨rfl, rfl⟩ := Prod.mk.inj a
      exact .inl ⟨by simp, rfl⟩
    · obtain ⟨rfl, rfl⟩ := Prod.mk.inj a
      exact .inl ⟨by simp, rfl⟩
    · obtain ⟨-, rfl⟩ := Prod.mk.inj a
      exact .inr rfl
  · exact .inl ⟨by simp [failure], cut⟩

theorem torn_removeFile (torn : Torn walk fs (.removeFile path) fs') :
    fs' = fs ∨ fs' = unlink fs path := by
  rcases torn with cut | rfl
  · exact .inl cut
  · rcases faulty_removeFile (faulty_perform walk false fs (.removeFile path)) with
      ⟨-, same⟩ | removed
    · exact .inl same
    · exact .inr removed

/-- What a rename between plain paths may have done so far. -/
def MovedPart (fs : Fs) (src dst : Bytes) (fs' : Fs) : Prop :=
  CopiedPart fs src dst fs' ∨ ((∃ content, fs src = some (.file content)) ∧ fs' = move fs src dst)

/-- Creating and writing change only the file at the path. -/
def Stored (fs : Fs) (path : Bytes) (fs' : Fs) : Prop :=
  fs' = fs ∨ ∃ content, fs' = Function.update fs path (some (.file content))

theorem Stored.other {other : Bytes} (h : Stored fs path fs') (hne : other ≠ path) :
    fs' other = fs other := by
  rcases h with rfl | ⟨content, rfl⟩
  · rfl
  · exact Function.update_of_ne hne _ _

theorem CopiedPart.stored (h : CopiedPart fs src dst fs') : Stored fs dst fs' := by
  rcases h with rfl | ⟨content, part, _, _, rfl⟩
  · exact .inl rfl
  · exact .inr ⟨part, rfl⟩

theorem Stored.plain {other : Bytes} (h : Stored fs path fs') (hp : Plain fs other) :
    Plain fs' other := by
  rcases h with rfl | ⟨content, rfl⟩
  · exact hp
  · exact plain_update_file hp

theorem Stored.trans {fs'' : Fs} (h : Stored fs path fs') (h' : Stored fs' path fs'') :
    Stored fs path fs'' := by
  rcases h' with rfl | ⟨content, rfl⟩
  · exact h
  · rcases h with rfl | ⟨old, rfl⟩
    · exact .inr ⟨content, rfl⟩
    · exact .inr ⟨content, Function.update_idem ..⟩

theorem perform_create (hp : Plain fs path) (busy : Bool) :
    perform walk busy fs (.create path) =
      (.ok (), Function.update fs path (some (.file []))) := by
  simp [perform, refusal_of_plain hp, store_of_plain hp]

theorem perform_writeAll (hp : Plain fs path) (busy : Bool) :
    perform walk busy fs (.writeAll path content) =
      (.ok (), Function.update fs path (some (.file content))) := by
  simp [perform, store_of_plain hp]

theorem faulty_create {r : Except IoError Unit}
    (a : (faulty walk).answers fs (.create path) r fs') : Stored fs (follow walk fs path) fs' := by
  rcases a with ⟨busy, a⟩ | ⟨e, _, _, cut⟩
  · simp only [perform] at a
    split at a
    · exact .inl (Prod.mk.inj a).2.symm
    · exact .inr ⟨[], (Prod.mk.inj a).2.symm⟩
  · exact .inl cut

theorem torn_create (torn : Torn walk fs (.create path) fs') :
    Stored fs (follow walk fs path) fs' := by
  rcases torn with cut | rfl
  · exact .inl cut
  · exact faulty_create (faulty_perform walk false fs (.create path))

theorem cutShort_writeAll (cut : CutShort walk fs (.writeAll path content) fs') :
    Stored fs (follow walk fs path) fs' := by
  rcases cut with rfl | ⟨part, _, rfl⟩
  · exact .inl rfl
  · exact .inr ⟨part, rfl⟩

theorem faulty_writeAll {r : Except IoError Unit}
    (a : (faulty walk).answers fs (.writeAll path content) r fs') :
    Stored fs (follow walk fs path) fs' ∧ (r = .ok () →
      fs' = Function.update fs (follow walk fs path) (some (.file content))) := by
  rcases a with ⟨busy, a⟩ | ⟨e, _, rfl, cut⟩
  · obtain ⟨-, rfl⟩ := Prod.mk.inj a
    exact ⟨.inr ⟨content, rfl⟩, fun _ => rfl⟩
  · exact ⟨cutShort_writeAll cut, by simp [failure]⟩

theorem torn_writeAll (torn : Torn walk fs (.writeAll path content) fs') :
    Stored fs (follow walk fs path) fs' := by
  rcases torn with cut | rfl
  · exact cutShort_writeAll cut
  · exact .inr ⟨content, rfl⟩

/-- Only a rename has two routes. -/
theorem calm_answers_only (h : ∀ src dst, c ≠ .rename src dst) (r : FsCall.Ret c) (t : Fs)
    (a : (calm walk).answers fs c r t) :
    r = (perform walk false fs c).1 ∧ t = (perform walk false fs c).2 := by
  obtain ⟨busy, a⟩ := a
  have same : perform walk busy fs c = perform walk false fs c := by
    cases c <;> first | rfl | exact absurd rfl (h _ _)
  rw [← same, a]
  exact ⟨rfl, rfl⟩

/-- A call other than a rename, issued on its own in the calm world. -/
theorem calm_yields {α : Type} {k : FsCall.Ret c → Io α} {r : FsCall.Ret c} {a : α} {fs'' : Fs}
    (h : ∀ src dst, c ≠ .rename src dst) (hp : perform walk false fs c = (r, fs'))
    (next : Yields (calm walk) (k r) fs' a fs'') : Yields (calm walk) (.call c k) fs a fs'' :=
  Yields.answer (fun r' t given => by simpa [hp] using calm_answers_only h r' t given) next

theorem perform_readFile (hr : readFile walk fs path = .ok content) (utf8 : Utf8 content)
    (busy : Bool) : perform walk busy fs (.readToString path) = (.ok content, fs) := by
  simp [perform, hr, utf8]

theorem perform_read (hp : Plain fs path) (hc : fs path = some (.file content))
    (utf8 : Utf8 content) : perform walk false fs (.readToString path) = (.ok content, fs) :=
  perform_readFile ((readFile_of_plain hp).mpr hc) utf8 false

theorem readFile_ok_iff :
    readFile walk fs path = .ok content ↔ fs (follow walk fs path) = some (.file content) := by
  unfold readFile
  split <;> simp_all

theorem perform_openFile_ok (hr : readFile walk fs path = .ok content) (busy : Bool) :
    perform walk busy fs (.openFile path) = (.ok (), fs) := by
  simp [perform, readFile_ok_iff.mp hr]

theorem perform_read_invalid (hp : Plain fs path) (hc : fs path = some (.file content))
    (invalid : ¬ Utf8 content) :
    perform walk false fs (.readToString path) = (.error .invalidData, fs) := by
  simp [perform, (readFile_of_plain hp).mpr hc, invalid]

theorem perform_pathExists (hp : Plain fs path) :
    perform walk false fs (.pathExists path) = ((fs path).isSome, fs) := by
  rcases plain_iff.mp hp with h | ⟨content, h⟩ <;>
    simp [perform, follow_of_plain hp, h]

theorem perform_openFile (hp : Plain fs path) (hc : fs path = some (.file content)) :
    perform walk false fs (.openFile path) = (.ok (), fs) := by
  simp [perform, follow_of_plain hp, hc]

theorem perform_openDir (hd : fs path = some .dir) :
    perform walk false fs (.openFile path) = (.ok (), fs) := by
  have entry : ¬ IsLink fs path := by simp [IsLink, hd]
  simp [perform, follow_of_not_link walk entry, hd]

theorem perform_syncAll (busy : Bool) : perform walk busy fs (.syncAll path) = (.ok (), fs) := rfl

theorem perform_copy_ok (hr : readFile walk fs src = .ok content)
    (writable : refusal walk fs dst = none) (busy : Bool) :
    perform walk busy fs (.copy src dst) =
      (.ok (), store walk fs dst (copied walk fs src dst content)) := by
  simp [perform, hr, writable]

/-- Nothing but a directory keeps a rename from replacing its target. -/
theorem perform_rename (hs : fs src = some (.file content)) (hd : fs dst ≠ some .dir)
    (busy : Bool) : perform walk busy fs (.rename src dst) =
      if busy then (.error (.os EBUSY), fs) else (.ok (), move fs src dst) := by
  cases h : fs dst with
  | none => simp [perform, hs, h]
  | some e => cases e <;> simp_all [perform]

end Outcomes

end Walk

end Effects.Files

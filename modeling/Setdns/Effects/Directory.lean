import Setdns.Effects.Disk

/-!
The calls of a process on a tree of directories. Only regular files are renamed
and removed, a directory is refused.

`perform` is the answer of a call that meets no fault; a directory is listed in
the order given. The `calm` world lists in any order, the `faulty` world also
lets any call fail and a listing break off. A write that fails or is killed
leaves a prefix of its data.
-/

namespace Effects.Directory

open Text
open Effects.Files (IoError ENOENT EISDIR)

inductive DirCall where
  | readDir (path : Bytes)
  | createDirAll (path : Bytes)
  | readToString (path : Bytes)
  | create (path : Bytes)
  | writeAll (file : Nat) (content : Bytes)
  | syncAll (file : Nat)
  | rename (src dst : Bytes)
  | removeFile (path : Bytes)
  | status (command : List Bytes)
  deriving DecidableEq

abbrev DirCall.Ret : DirCall → Type
  | .readDir _ => Except IoError (List (Except IoError Bytes))
  | .readToString _ => Except IoError Bytes
  | .create _ => Except IoError Nat
  | .status _ => Except IoError Bool
  | _ => Except IoError Unit

abbrev Io (α : Type) : Type := Program DirCall DirCall.Ret α

namespace Dir

abbrev readDir (path : Bytes) : Io (Except IoError (List (Except IoError Bytes))) :=
  .call (.readDir path) .ret
abbrev createDirAll (path : Bytes) : Io (Except IoError Unit) := .call (.createDirAll path) .ret
abbrev readToString (path : Bytes) : Io (Except IoError Bytes) := .call (.readToString path) .ret
abbrev create (path : Bytes) : Io (Except IoError Nat) := .call (.create path) .ret
abbrev writeAll (file : Nat) (content : Bytes) : Io (Except IoError Unit) :=
  .call (.writeAll file content) .ret
abbrev syncAll (file : Nat) : Io (Except IoError Unit) := .call (.syncAll file) .ret
abbrev rename (src dst : Bytes) : Io (Except IoError Unit) := .call (.rename src dst) .ret
abbrev removeFile (path : Bytes) : Io (Except IoError Unit) := .call (.removeFile path) .ret
abbrev status (command : List Bytes) : Io (Except IoError Bool) := .call (.status command) .ret

end Dir

namespace Disk

section Paths

/-- How far the kernel gets on its way to a path. -/
inductive Walk (d : Disk) (p : Path) where
  | blocked (e : IoError)
  | reached (h : p = [] ∨ d.Within p)

def walk (d : Disk) : (p : Path) → d.Walk p
  | [] => .reached (.inl rfl)
  | name :: up =>
      match d.walk up with
      | .blocked e => .blocked e
      | .reached _ =>
          match d.find up with
          | .dir h =>
              if valid : FileName name then .reached (.inr ⟨h, valid⟩)
              else .blocked (.os ENAMETOOLONG)
          | .file _ _ => .blocked (.os ENOTDIR)
          | .free _ => .blocked (.os ENOENT)

def reach (d : Disk) (path : Bytes) : d.Walk (components path) :=
  if nul ∈ path then .blocked .invalidInput else d.walk (components path)

theorem within_of_present {d : Disk} {p : Path} (reached : p = [] ∨ d.Within p)
    (notDir : ¬ d.IsDir p) : d.Within p :=
  reached.resolve_left fun h => notDir (h ▸ d.root)

/-- Where a file can stand. -/
inductive Target (d : Disk) (p : Path) where
  | failed (e : IoError)
  | place (within : d.Within p) (notDir : ¬ d.IsDir p)

def target (d : Disk) (path : Bytes) : d.Target (components path) :=
  match d.reach path with
  | .blocked e => .failed e
  | .reached h =>
      match d.find (components path) with
      | .dir _ => .failed (.os EISDIR)
      | .file _ there =>
          if endsInDir path then .failed (.os ENOTDIR)
          else
            have notDir := fun dir => by cases there.symm.trans dir
            .place (within_of_present h notDir) notDir
      | .free there =>
          if endsInDir path then .failed (.os ENOENT)
          else
            have notDir := fun dir => by cases there.symm.trans dir
            .place (within_of_present h notDir) notDir

/-- A file that stands at a path. -/
inductive Opened (d : Disk) (p : Path) where
  | failed (e : IoError)
  | file (inode : Nat) (h : d.lookup p = some (.file inode))

def openFile (d : Disk) (path : Bytes) : d.Opened (components path) :=
  match d.target path with
  | .failed e => .failed e
  | .place _ _ =>
      match d.find (components path) with
      | .file inode h => .file inode h
      | .dir _ => .failed (.os EISDIR)
      | .free _ => .failed (.os ENOENT)

/-- Create the missing directories along a path. -/
def makeDirs (d : Disk) : Path → Except IoError Unit × Disk
  | [] => (.ok (), d)
  | name :: up =>
      match d.makeDirs up with
      | (.error e, d') => (.error (if e = .os EEXIST then .os ENOTDIR else e), d')
      | (.ok (), d') =>
          match d'.walk (name :: up) with
          | .blocked e => (.error e, d')
          | .reached h =>
              match d'.find (name :: up) with
              | .dir _ => (.ok (), d')
              | .file _ _ => (.error (.os EEXIST), d')
              | .free _ => (.ok (), d'.insertDir (name :: up) (h.resolve_left (by simp)))

end Paths

/-- A write starts at the beginning of the file and leaves a longer rest. -/
def overwrite (d : Disk) (i : Nat) (content : Bytes) : Disk :=
  d.store i (content ++ (d.data i).drop content.length)

def perform (order : List Bytes → List Bytes) (d : Disk) : (c : DirCall) → DirCall.Ret c × Disk
  | .readDir path =>
      (match d.reach path, d.find (components path) with
        | .blocked e, _ => .error e
        | .reached _, .dir _ => .ok ((order (d.children (components path))).map .ok)
        | .reached _, .file _ _ => .error (.os ENOTDIR)
        | .reached _, .free _ => .error (.os ENOENT), d)
  | .createDirAll path =>
      if nul ∈ path then (.error .invalidInput, d) else d.makeDirs (components path)
  | .readToString path =>
      (match d.openFile path with
        | .failed e => .error e
        | .file i _ => if Utf8 (d.data i) then .ok (d.data i) else .error .invalidData, d)
  | .create path =>
      match d.target path with
      | .failed e => (.error e, d)
      | .place within _ =>
          match d.find (components path) with
          | .dir _ => (.error (.os EISDIR), d)
          | .file i _ => (.ok i, d.store i [])
          | .free free => (.ok d.next, d.insertFile (components path) within free)
  | .writeAll file content => (.ok (), d.overwrite file content)
  | .syncAll _ => (.ok (), d)
  | .rename src dst =>
      match d.openFile src, d.target dst with
      | .failed e, _ => (.error e, d)
      | .file _ _, .failed e => (.error e, d)
      | .file i h, .place within notDir =>
          (.ok (), d.move (components src) (components dst) i h within notDir)
  | .removeFile path =>
      match d.openFile path with
      | .failed e => (.error e, d)
      | .file i h => (.ok (), d.unlink (components path) i h)
  | .status _ => (.ok true, d)

end Disk

open Disk

def failure (e : IoError) : (c : DirCall) → DirCall.Ret c
  | .readDir _ => .error e
  | .createDirAll _ => .error e
  | .readToString _ => .error e
  | .create _ => .error e
  | .writeAll _ _ => .error e
  | .syncAll _ => .error e
  | .rename _ _ => .error e
  | .removeFile _ => .error e
  | .status _ => .error e

/-- What a call that does not complete may leave. -/
def CutShort (d : Disk) : DirCall → Disk → Prop
  | .createDirAll path, d' => ∃ k, d' = (d.makeDirs ((components path).drop k)).2
  | .writeAll file content, d' => d' = d ∨ ∃ part, part <+: content ∧ d' = d.overwrite file part
  | _, d' => d' = d

/-- A killed call has not happened, has happened, or is cut short. -/
def Torn (d : Disk) (c : DirCall) (d' : Disk) : Prop :=
  CutShort d c d' ∨ d' = (d.perform id c).2

/-- The entries come in any order, each once. -/
def calm : World DirCall DirCall.Ret Disk where
  answers d c r d' := ∃ order : List Bytes → List Bytes,
    (∀ names, (order names).Perm names) ∧ d.perform order c = (r, d')
  torn := Torn

/-- A listing that breaks off after some entries. -/
def BrokenOff (d : Disk) : (c : DirCall) → DirCall.Ret c → Prop
  | .readDir path, r => ∃ (names : List Bytes) (e : IoError), d.IsDir (components path) ∧
      names.Sublist (d.children (components path)) ∧ r = .ok (names.map .ok ++ [.error e])
  | _, _ => False

/-- Any call may also fail. A file that is there is never reported missing. -/
def faulty : World DirCall DirCall.Ret Disk where
  answers d c r d' := calm.answers d c r d' ∨
    (∃ e, e ≠ .os ENOENT ∧ r = failure e c ∧ CutShort d c d') ∨ (BrokenOff d c r ∧ d' = d)
  torn := Torn

theorem calm_perform (d : Disk) (c : DirCall) :
    calm.answers d c (d.perform id c).1 (d.perform id c).2 :=
  ⟨id, fun names => List.Perm.refl names, rfl⟩

theorem faulty_perform (d : Disk) (c : DirCall) :
    faulty.answers d c (d.perform id c).1 (d.perform id c).2 :=
  .inl (calm_perform d c)

theorem calm_total : calm.Total :=
  fun d c => ⟨_, _, calm_perform d c⟩

/-- A change that leaves the directories alone. -/
def SameDirs (d d' : Disk) : Prop := ∀ p, d'.IsDir p ↔ d.IsDir p

theorem SameDirs.rfl {d : Disk} : SameDirs d d := fun _ => Iff.rfl

theorem SameDirs.trans {d d' d'' : Disk} (h : SameDirs d d') (h' : SameDirs d' d'') :
    SameDirs d d'' :=
  fun p => (h' p).trans (h p)

theorem SameDirs.symm {d d' : Disk} (h : SameDirs d d') : SameDirs d' d := fun p => (h p).symm

theorem SameDirs.within {d d' : Disk} (h : SameDirs d d') {p : Path} (within : d.Within p) :
    d'.Within p := by
  cases p with
  | nil => exact within
  | cons name up => exact within.imp_left (h up).mpr

/-- A path that is spelled as a file of an existing directory. -/
structure Names (d : Disk) (path : Bytes) : Prop where
  within : d.Within (components path)
  noNul : nul ∉ path
  isFile : endsInDir path = false

theorem Names.mono {d d' : Disk} {path : Bytes} (h : Names d path) (same : SameDirs d d') :
    Names d' path :=
  ⟨same.within h.within, h.noNul, h.isFile⟩

section Lookups

variable {d : Disk} {p : Path} {path : Bytes} {i : Nat}

theorem exists_file {c : Bytes} (h : d.content p = some c) :
    ∃ i, d.lookup p = some (.file i) ∧ d.data i = c := by
  cases d.find p with
  | file i h' => exact ⟨i, h', Option.some.inj ((content_file h').symm.trans h)⟩
  | dir h' => cases h.symm.trans (content_dir h')
  | free h' => cases h.symm.trans (content_free h')

theorem walk_of_present (h : d.lookup p ≠ none) : ∃ r, d.walk p = .reached r := by
  induction p with
  | nil => exact ⟨_, rfl⟩
  | cons name up ih =>
      obtain ⟨dir, valid⟩ := d.inside name up h
      obtain ⟨r, hr⟩ := ih (by simp [dir])
      simp only [walk, hr]
      cases d.find up with
      | dir _ => exact ⟨.inr ⟨dir, valid⟩, dif_pos valid⟩
      | file i h' => cases dir.symm.trans h'
      | free h' => cases dir.symm.trans h'

theorem walk_of_within (h : d.Within p) : ∃ r, d.walk p = .reached r := by
  cases p with
  | nil => exact h.elim
  | cons name up =>
      obtain ⟨r, hr⟩ := walk_of_present (d := d) (p := up) (by simp [h.1])
      simp only [walk, hr]
      cases d.find up with
      | dir _ => exact ⟨.inr h, dif_pos h.2⟩
      | file i h' => cases h.1.symm.trans h'
      | free h' => cases h.1.symm.trans h'

/-- Only a free path is reported missing. -/
theorem target_missing (h : d.target path = .failed (.os ENOENT)) :
    d.lookup (components path) = none := by
  by_contra present
  obtain ⟨r, hr⟩ := walk_of_present present
  unfold target reach at h
  by_cases hn : nul ∈ path
  · simp [hn] at h
  · simp only [hn, ite_false, hr] at h
    cases hf : d.find (components path) with
    | dir _ => simp [hf, EISDIR, ENOENT] at h
    | file i there =>
        simp only [hf] at h
        split at h <;> simp [ENOTDIR, ENOENT] at h
    | free there => exact present there

theorem openFile_missing (h : d.openFile path = .failed (.os ENOENT)) :
    d.lookup (components path) = none := by
  unfold openFile at h
  cases ht : d.target path with
  | failed e =>
      simp only [ht, Opened.failed.injEq] at h
      exact target_missing (h ▸ ht)
  | place _ _ =>
      cases hf : d.find (components path) with
      | file i there => simp [ht, hf] at h
      | dir there => simp [ht, hf, EISDIR, ENOENT] at h
      | free there => exact there

theorem target_of_names (h : Names d path) (notDir : ¬ d.IsDir (components path)) :
    ∃ within notDir, d.target path = .place within notDir := by
  obtain ⟨r, hr⟩ := walk_of_within h.within
  unfold target reach
  simp only [h.noNul, ite_false, hr]
  cases d.find (components path) with
  | dir there => exact absurd there notDir
  | file i there => exact ⟨h.within, notDir, by simp [h.isFile]⟩
  | free there => exact ⟨h.within, notDir, by simp [h.isFile]⟩

theorem openFile_file (h : Names d path) (there : d.lookup (components path) = some (.file i)) :
    d.openFile path = .file i there := by
  have notDir : ¬ d.IsDir (components path) := fun dir => by cases there.symm.trans dir
  obtain ⟨within, notDir, ht⟩ := target_of_names h notDir
  unfold openFile
  rw [ht]
  cases d.find (components path) with
  | file j h' =>
      obtain rfl : j = i := by simpa using h'.symm.trans there
      rfl
  | dir h' => exact absurd h' notDir
  | free h' => cases h'.symm.trans there

theorem openFile_dir (h : Names d path) (there : d.IsDir (components path)) :
    d.openFile path = .failed (.os EISDIR) := by
  obtain ⟨r, hr⟩ := walk_of_within h.within
  unfold openFile target reach
  simp only [h.noNul, ite_false, hr]
  cases d.find (components path) with
  | dir _ => rfl
  | file i h' => cases h'.symm.trans there
  | free h' => cases h'.symm.trans there

theorem openFile_free (h : Names d path) (there : d.lookup (components path) = none) :
    d.openFile path = .failed (.os ENOENT) := by
  have notDir : ¬ d.IsDir (components path) := fun dir => by cases there.symm.trans dir
  obtain ⟨within, notDir, ht⟩ := target_of_names h notDir
  unfold openFile
  rw [ht]
  cases d.find (components path) with
  | file j h' => cases h'.symm.trans there
  | dir h' => exact absurd h' notDir
  | free h' => rfl

theorem makeDirs_content (d : Disk) (p : Path) : (d.makeDirs p).2.content = d.content := by
  induction p with
  | nil => rfl
  | cons name up ih =>
      unfold makeDirs
      rcases h : d.makeDirs up with ⟨_ | _, d'⟩
      · rw [h] at ih
        exact ih
      rw [h] at ih
      dsimp only at ih ⊢
      cases d'.walk (name :: up) with
      | blocked e => exact ih
      | reached r =>
          cases d'.find (name :: up) with
          | dir _ => exact ih
          | file _ _ => exact ih
          | free free => exact (content_insertDir (r.resolve_left (by simp)) free).trans ih

theorem makeDirs_ok {d d' : Disk} {p : Path} (h : d.makeDirs p = (.ok (), d')) :
    d'.IsDir p ∧ ∀ q, d.IsDir q → d'.IsDir q := by
  induction p generalizing d' with
  | nil =>
      obtain ⟨-, rfl⟩ := Prod.mk.inj h
      exact ⟨d.root, fun _ => id⟩
  | cons name up ih =>
      unfold makeDirs at h
      rcases made : d.makeDirs up with ⟨_ | _, d₁⟩
      · simp [made] at h
      obtain ⟨-, kept⟩ := ih made
      simp only [made] at h
      cases walked : d₁.walk (name :: up) with
      | blocked e => simp [walked] at h
      | reached r =>
          simp only [walked] at h
          cases found : d₁.find (name :: up) with
          | dir there =>
              simp only [found, Prod.mk.injEq, true_and] at h
              exact h ▸ ⟨there, kept⟩
          | file _ _ => simp [found] at h
          | free free =>
              simp only [found, Prod.mk.injEq, true_and] at h
              subst h
              have dirs := isDir_insertDir (d := d₁) (r.resolve_left (by simp))
              exact ⟨(dirs _).mpr (.inl rfl), fun q hq => (dirs q).mpr (.inr (kept q hq))⟩

theorem isDir_drop {p : Path} (there : d.IsDir p) (k : Nat) : d.IsDir (p.drop k) := by
  induction k generalizing p with
  | zero => exact there
  | succ k ih =>
      cases p with
      | nil => exact there
      | cons name up => exact ih (d.inside name up (by simp [there])).1

theorem makeDirs_there {p : Path} (there : d.IsDir p) : d.makeDirs p = (.ok (), d) := by
  induction p with
  | nil => rfl
  | cons name up ih =>
      have present : d.lookup (name :: up) ≠ none := by simp [there]
      obtain ⟨r, walked⟩ := walk_of_present present
      rw [makeDirs, ih (d.inside name up present).1]
      dsimp only
      rw [walked]
      dsimp only
      cases d.find (name :: up) with
      | dir _ => rfl
      | file i h => cases there.symm.trans h
      | free h => cases there.symm.trans h

/-- Making the directories again, or after a part of them, makes no difference. -/
theorem makeDirs_idem (d : Disk) (p : Path) : (d.makeDirs p).2.makeDirs p = d.makeDirs p := by
  induction p with
  | nil => rfl
  | cons name up ih =>
      rcases made : d.makeDirs up with ⟨e | _, d'⟩
      · rw [made] at ih
        simp only [makeDirs, made, ih]
      rw [made] at ih
      cases walked : d'.walk (name :: up) with
      | blocked e => simp only [makeDirs, made, walked, ih]
      | reached r =>
          cases found : d'.find (name :: up) with
          | dir _ => simp only [makeDirs, made, walked, found, ih]
          | file _ _ => simp only [makeDirs, made, walked, found, ih]
          | free free =>
              have whole : d.makeDirs (name :: up) =
                  (.ok (), d'.insertDir (name :: up) (r.resolve_left (by simp))) := by
                simp only [makeDirs, made, walked, found]
              rw [whole]
              exact makeDirs_there (makeDirs_ok whole).1

theorem makeDirs_drop (d : Disk) (p : Path) (k : Nat) :
    (d.makeDirs (p.drop k)).2.makeDirs p = d.makeDirs p := by
  induction p generalizing k with
  | nil =>
      rw [List.drop_nil]
      exact makeDirs_idem d []
  | cons name up ih =>
      cases k with
      | zero => exact makeDirs_idem d (name :: up)
      | succ k =>
          rw [List.drop_succ_cons, makeDirs, ih k, makeDirs]

/-- A directory that can be made is there or is missing. -/
theorem missing_of_makeDirs {p : Path} (made : (d.makeDirs p).1 = .ok ()) (missing : ¬ d.IsDir p) :
    d.walk p = .blocked (.os ENOENT) ∨ (∃ r, d.walk p = .reached r) ∧ d.lookup p = none := by
  induction p with
  | nil => exact absurd d.root missing
  | cons name up ih =>
      rcases whole : d.makeDirs up with ⟨e | _, d'⟩
      · simp [makeDirs, whole] at made
      by_cases there : d.IsDir up
      · obtain rfl : d = d' := (Prod.mk.inj ((makeDirs_there there).symm.trans whole)).2
        simp only [makeDirs, whole] at made
        cases walked : d.walk (name :: up) with
        | blocked e => simp [walked] at made
        | reached r =>
            simp only [walked] at made
            cases found : d.find (name :: up) with
            | dir h => exact absurd h missing
            | file i h => simp [found] at made
            | free h => exact .inr ⟨⟨r, rfl⟩, h⟩
      · left
        rw [walk]
        rcases ih (congrArg Prod.fst whole) there with blocked | ⟨⟨r, reached⟩, free⟩
        · rw [blocked]
        · rw [reached]
          cases d.find up with
          | dir h => exact absurd h there
          | file i h => cases free.symm.trans h
          | free h => rfl

/-- Only the directories along the path are made. -/
theorem makeDirs_dirs (d : Disk) (p : Path) {q : Path} (h : (d.makeDirs p).2.IsDir q) :
    d.IsDir q ∨ q <:+ p := by
  induction p with
  | nil => exact .inl h
  | cons name up ih =>
      have weaker : d.IsDir q ∨ q <:+ up → d.IsDir q ∨ q <:+ name :: up :=
        Or.imp_right fun h => h.trans (List.suffix_cons name up)
      unfold makeDirs at h
      rcases made : d.makeDirs up with ⟨_ | _, d'⟩
      · simp only [made] at h ih
        exact weaker (ih h)
      simp only [made] at h ih
      cases walked : d'.walk (name :: up) with
      | blocked e =>
          simp only [walked] at h
          exact weaker (ih h)
      | reached r =>
          simp only [walked] at h
          cases found : d'.find (name :: up) with
          | dir _ =>
              simp only [found] at h
              exact weaker (ih h)
          | file _ _ =>
              simp only [found] at h
              exact weaker (ih h)
          | free free =>
              simp only [found] at h
              rcases (isDir_insertDir (r.resolve_left (by simp)) q).mp h with rfl | there
              · exact .inr List.suffix_rfl
              · exact weaker (ih there)

theorem makeDirs_keeps (d : Disk) (p : Path) {q : Path} (h : d.IsDir q) :
    (d.makeDirs p).2.IsDir q := by
  induction p with
  | nil => exact h
  | cons name up ih =>
      rcases made : d.makeDirs up with ⟨e | _, d'⟩
      · rw [made] at ih
        simpa only [makeDirs, made] using ih
      rw [made] at ih
      cases walked : d'.walk (name :: up) with
      | blocked e => simpa only [makeDirs, made, walked] using ih
      | reached r =>
          cases found : d'.find (name :: up) with
          | dir _ => simpa only [makeDirs, made, walked, found] using ih
          | file _ _ => simpa only [makeDirs, made, walked, found] using ih
          | free free =>
              simp only [makeDirs, made, walked, found]
              exact (isDir_insertDir (r.resolve_left (by simp)) q).mpr (.inr ih)

/-- A name that no directory can hold leads nowhere. -/
theorem target_invalid {name : Bytes} {up : Path} (h : components path = name :: up)
    (invalid : ¬ FileName name) : ∃ e, d.target path = .failed e := by
  cases placed : d.target path with
  | failed e => exact ⟨e, rfl⟩
  | place within _ =>
      rw [h] at within
      exact absurd within.2 invalid

end Lookups

section Frame

variable {d d' : Disk} {c : DirCall} {p : Path}

/-- The paths whose contents a call may change. -/
def Touches (d : Disk) : DirCall → Path → Prop
  | .create path, p => p = components path
  | .writeAll file _, p => d.lookup p = some (.file file)
  | .rename src dst, p => p = components src ∨ p = components dst
  | .removeFile path, p => p = components path
  | _, _ => False

theorem content_overwrite {i : Nat} (content : Bytes) (h : d.lookup p ≠ some (.file i)) :
    (d.overwrite i content).content p = d.content p := by
  cases d.find p with
  | file j there =>
      have other : j ≠ i := by
        rintro rfl
        exact h there
      have same : (d.overwrite i content).data j = d.data j := Function.update_of_ne other _ _
      rw [content_file (d := d.overwrite i content) there, content_file there, same]
  | dir there => rw [content_dir (d := d.overwrite i content) there, content_dir there]
  | free there => rw [content_free (d := d.overwrite i content) there, content_free there]

theorem perform_frame (order : List Bytes → List Bytes) (h : ¬ Touches d c p) :
    (d.perform order c).2.content p = d.content p := by
  cases c with
  | readDir path => rfl
  | readToString path => rfl
  | syncAll i => rfl
  | status command => rfl
  | createDirAll path =>
      simp only [perform]
      split
      · rfl
      · rw [makeDirs_content]
  | create path =>
      simp only [perform]
      cases d.target path with
      | failed e => rfl
      | place within _ =>
          cases d.find (components path) with
          | dir _ => rfl
          | file i there =>
              dsimp only
              rw [content_store there, Function.update_of_ne h]
          | free free =>
              dsimp only
              rw [content_insertFile within free, Function.update_of_ne h]
  | writeAll i content => exact content_overwrite content h
  | rename src dst =>
      simp only [Touches, not_or] at h
      simp only [perform]
      cases d.openFile src with
      | failed e => rfl
      | file i there =>
          cases d.target dst with
          | failed e => rfl
          | place within notDir =>
              dsimp only
              rw [content_move there within notDir, Function.update_of_ne h.2,
                Function.update_of_ne h.1]
  | removeFile path =>
      simp only [perform]
      cases d.openFile path with
      | failed e => rfl
      | file i there =>
          dsimp only
          rw [content_unlink there, Function.update_of_ne h]

theorem cutShort_frame (h : ¬ Touches d c p) (cut : CutShort d c d') :
    d'.content p = d.content p := by
  cases c with
  | createDirAll path =>
      obtain ⟨k, rfl⟩ := cut
      rw [makeDirs_content]
  | writeAll i content =>
      rcases cut with rfl | ⟨part, _, rfl⟩
      · rfl
      · exact content_overwrite part h
  | _ => rw [show d' = d from cut]

theorem torn_frame (h : ¬ Touches d c p) (torn : Torn d c d') : d'.content p = d.content p := by
  rcases torn with cut | rfl
  · exact cutShort_frame h cut
  · exact perform_frame id h

theorem calm_frame (h : ¬ Touches d c p) {r : DirCall.Ret c} (a : calm.answers d c r d') :
    d'.content p = d.content p := by
  obtain ⟨order, -, a⟩ := a
  have frame := perform_frame order h
  rwa [a] at frame

theorem faulty_frame (h : ¬ Touches d c p) {r : DirCall.Ret c} (a : faulty.answers d c r d') :
    d'.content p = d.content p := by
  rcases a with a | ⟨e, _, _, cut⟩ | ⟨_, rfl⟩
  · exact calm_frame h a
  · exact cutShort_frame h cut
  · rfl

theorem makeDirs_lookup {i : Nat} (there : d.lookup p = some (.file i)) (q : Path) :
    (d.makeDirs q).2.lookup p = some (.file i) := by
  induction q with
  | nil => exact there
  | cons name up ih =>
      unfold makeDirs
      rcases h : d.makeDirs up with ⟨_ | _, d'⟩
      · rw [h] at ih
        exact ih
      rw [h] at ih
      dsimp only at ih ⊢
      cases d'.walk (name :: up) with
      | blocked e => exact ih
      | reached r =>
          cases d'.find (name :: up) with
          | dir _ => exact ih
          | file _ _ => exact ih
          | free free =>
              have ne : p ≠ name :: up := by
                rintro rfl
                cases free.symm.trans ih
              exact (AList.lookup_insert_ne ne).trans ih

theorem perform_lookup (order : List Bytes → List Bytes) {i : Nat} (h : ¬ Touches d c p)
    (there : d.lookup p = some (.file i)) :
    (d.perform order c).2.lookup p = some (.file i) := by
  cases c with
  | createDirAll path =>
      simp only [perform]
      split
      · exact there
      · exact makeDirs_lookup there _
  | create path =>
      simp only [perform]
      cases d.target path with
      | failed e => exact there
      | place within _ =>
          cases d.find (components path) with
          | dir _ => exact there
          | file i _ => exact there
          | free free => exact (AList.lookup_insert_ne h).trans there
  | rename src dst =>
      simp only [Touches, not_or] at h
      simp only [perform]
      cases d.openFile src with
      | failed e => exact there
      | file i _ =>
          cases d.target dst with
          | failed e => exact there
          | place within notDir =>
              exact (AList.lookup_insert_ne h.2).trans ((AList.lookup_erase_ne h.1).trans there)
  | removeFile path =>
      simp only [perform]
      cases d.openFile path with
      | failed e => exact there
      | file i _ => exact (AList.lookup_erase_ne h).trans there
  | _ => exact there

/-- A file that a call does not touch stays the same file. -/
theorem faulty_file {i : Nat} (h : ¬ Touches d c p) (there : d.lookup p = some (.file i))
    {r : DirCall.Ret c} (a : faulty.answers d c r d') :
    d'.lookup p = some (.file i) ∧ d'.data i = d.data i := by
  have same : d'.lookup p = some (.file i) := by
    rcases a with ⟨order, -, a⟩ | ⟨e, -, -, cut⟩ | ⟨-, rfl⟩
    · have kept := perform_lookup order h there
      rwa [a] at kept
    · cases c with
      | createDirAll path =>
          obtain ⟨k, rfl⟩ := cut
          exact makeDirs_lookup there _
      | writeAll i content =>
          rcases cut with rfl | ⟨part, -, rfl⟩ <;> exact there
      | _ => exact (show d' = d from cut) ▸ there
    · exact there
  have content := faulty_frame h a
  rw [content_file same, content_file there] at content
  exact ⟨same, Option.some.inj content⟩

end Frame

section Answers

variable {d d' : Disk} {path src dst content : Bytes} {i : Nat}

theorem faulty_read {r : Except IoError Bytes} (a : faulty.answers d (.readToString path) r d') :
    d' = d ∧ (∀ found, r = .ok found → d.content (components path) = some found ∧ Utf8 found) ∧
      (r = .error (.os ENOENT) → d.lookup (components path) = none) := by
  rcases a with ⟨order, -, a⟩ | ⟨e, ne, rfl, cut⟩ | ⟨broken, _⟩
  · simp only [perform, Prod.mk.injEq] at a
    obtain ⟨rfl, rfl⟩ := a
    refine ⟨rfl, fun found h => ?_, fun h => ?_⟩
    · cases opened : d.openFile path with
      | failed e => simp [opened] at h
      | file i there =>
          simp only [opened] at h
          split at h
          · rename_i utf8
            cases h
            exact ⟨content_file there, utf8⟩
          · cases h
    · cases opened : d.openFile path with
      | failed e =>
          simp only [opened, Except.error.injEq] at h
          exact openFile_missing (h ▸ opened)
      | file i there =>
          simp only [opened] at h
          split at h <;> cases h
  · exact ⟨cut, fun _ h => (by cases h), fun h => absurd (Except.error.inj h) ne⟩
  · exact broken.elim

/-- The handle of a created file stands at its path. -/
theorem faulty_create (a : faulty.answers d (.create path) (.ok i) d') :
    d'.lookup (components path) = some (.file i) := by
  rcases a with ⟨order, -, a⟩ | ⟨e, _, h, _⟩ | ⟨broken, _⟩
  · simp only [perform] at a
    cases placed : d.target path with
    | failed e => simp [placed] at a
    | place within _ =>
        cases found : d.find (components path) with
        | dir _ => simp [placed, found] at a
        | file j there =>
            simp only [placed, found, Prod.mk.injEq, Except.ok.injEq] at a
            obtain ⟨rfl, rfl⟩ := a
            exact there
        | free free =>
            simp only [placed, found, Prod.mk.injEq, Except.ok.injEq] at a
            obtain ⟨rfl, rfl⟩ := a
            exact AList.lookup_insert _
  · cases h
  · exact broken.elim

theorem faulty_create_empty (a : faulty.answers d (.create path) (.ok i) d') : d'.data i = [] := by
  rcases a with ⟨order, -, a⟩ | ⟨e, _, h, _⟩ | ⟨broken, _⟩
  · simp only [perform] at a
    cases placed : d.target path with
    | failed e => simp [placed] at a
    | place within _ =>
        cases found : d.find (components path) with
        | dir _ => simp [placed, found] at a
        | file j there =>
            simp only [placed, found, Prod.mk.injEq, Except.ok.injEq] at a
            obtain ⟨rfl, rfl⟩ := a
            exact Function.update_self ..
        | free free =>
            simp only [placed, found, Prod.mk.injEq, Except.ok.injEq] at a
            obtain ⟨rfl, rfl⟩ := a
            exact Function.update_self ..
  · cases h
  · exact broken.elim

/-- A file that could be created is there without content. -/
theorem faulty_create_content (a : faulty.answers d (.create path) (.ok i) d') :
    d'.content = Function.update d.content (components path) (some []) := by
  funext p
  by_cases here : p = components path
  · subst here
    rw [Function.update_self, content_file (faulty_create a), faulty_create_empty a]
  · rw [Function.update_of_ne here]
    exact faulty_frame (c := .create path) here a

theorem faulty_create_error {e : IoError} (a : faulty.answers d (.create path) (.error e) d') :
    d' = d := by
  rcases a with ⟨order, -, a⟩ | ⟨e, -, -, cut⟩ | ⟨broken, -⟩
  · simp only [perform] at a
    split at a
    · exact (Prod.mk.inj a).2.symm
    · split at a
      · exact (Prod.mk.inj a).2.symm
      · cases a
      · cases a
  · exact cut
  · exact broken.elim

/-- What a write to an empty file leaves there: all of its data, or a prefix if it fails. -/
theorem faulty_writeAll_content {p : Path} {r : Except IoError Unit}
    (there : d.lookup p = some (.file i)) (empty : d.data i = [])
    (a : faulty.answers d (.writeAll i content) r d') :
    ∃ part, part <+: content ∧ (r = .ok () → part = content) ∧
      d'.content = Function.update d.content p (some part) := by
  have overwritten : ∀ part, (d.overwrite i part).content =
      Function.update d.content p (some part) := by
    intro part
    rw [overwrite, content_store there, empty, List.drop_nil, List.append_nil]
  rcases a with ⟨order, -, a⟩ | ⟨e, -, rfl, rfl | ⟨part, initial, rfl⟩⟩ | ⟨broken, -⟩
  · obtain ⟨-, rfl⟩ := Prod.mk.inj a
    exact ⟨content, List.prefix_rfl, fun _ => rfl, overwritten content⟩
  · refine ⟨[], List.nil_prefix, by rintro ⟨⟩, ?_⟩
    rw [← empty, ← content_file there, Function.update_eq_self]
  · exact ⟨part, initial, by rintro ⟨⟩, overwritten part⟩
  · exact broken.elim

theorem faulty_rename_content (a : faulty.answers d (.rename src dst) (.ok ()) d') :
    d'.content = Function.update (Function.update d.content (components src) none)
      (components dst) (d.content (components src)) := by
  rcases a with ⟨order, -, a⟩ | ⟨e, -, ⟨⟩, -⟩ | ⟨broken, -⟩
  · simp only [perform] at a
    split at a
    · cases a
    · cases a
    · obtain ⟨-, rfl⟩ := Prod.mk.inj a
      exact content_move ..
  · exact broken.elim

theorem faulty_rename_error {e : IoError}
    (a : faulty.answers d (.rename src dst) (.error e) d') : d' = d := by
  rcases a with ⟨order, -, a⟩ | ⟨e, -, -, cut⟩ | ⟨broken, -⟩
  · simp only [perform] at a
    split at a
    · exact (Prod.mk.inj a).2.symm
    · exact (Prod.mk.inj a).2.symm
    · cases a
  · exact cut
  · exact broken.elim

theorem faulty_removeFile {p : Path} {r : Except IoError Unit}
    (a : faulty.answers d (.removeFile path) r d') (there : d'.content p = some content) :
    d.content p = some content := by
  rcases a with ⟨order, -, a⟩ | ⟨e, -, -, cut⟩ | ⟨broken, -⟩
  · simp only [perform] at a
    split at a
    · obtain ⟨-, rfl⟩ := Prod.mk.inj a
      exact there
    · rename_i i found _
      obtain ⟨-, rfl⟩ := Prod.mk.inj a
      rw [content_unlink found] at there
      by_cases here : p = components path
      · subst here
        rw [Function.update_self] at there
        cases there
      · rwa [Function.update_of_ne here] at there
  · exact (show d' = d from cut) ▸ there
  · exact broken.elim

/-- What a place for a file says about the path. -/
theorem names_of_place {within : d.Within (components path)}
    {notDir : ¬ d.IsDir (components path)} (placed : d.target path = .place within notDir) :
    Names d path := by
  unfold target at placed
  split at placed
  · cases placed
  · rename_i walked
    have noNul : nul ∉ path := by
      intro mem
      rw [reach, if_pos mem] at walked
      cases walked
    split at placed
    · cases placed
    · split at placed
      · cases placed
      · exact ⟨within, noNul, by simpa using ‹¬ endsInDir path = true›⟩
    · split at placed
      · cases placed
      · exact ⟨within, noNul, by simpa using ‹¬ endsInDir path = true›⟩

theorem faulty_create_names (a : faulty.answers d (.create path) (.ok i) d') :
    Names d path ∧ ¬ d.IsDir (components path) := by
  rcases a with ⟨order, -, a⟩ | ⟨e, -, ⟨⟩, -⟩ | ⟨broken, -⟩
  · simp only [perform] at a
    cases placed : d.target path with
    | failed e => simp [placed] at a
    | place within notDir => exact ⟨names_of_place placed, notDir⟩
  · exact broken.elim

theorem faulty_rename_names (a : faulty.answers d (.rename src dst) (.ok ()) d') :
    Names d dst ∧ ¬ d.IsDir (components dst) := by
  rcases a with ⟨order, -, a⟩ | ⟨e, -, ⟨⟩, -⟩ | ⟨broken, -⟩
  · simp only [perform] at a
    split at a
    · cases a
    · cases a
    · rename_i placed
      exact ⟨names_of_place placed, ‹_›⟩
  · exact broken.elim

/-- A killed call is a call that was answered or failed. -/
theorem torn_answer {c : DirCall} (torn : Torn d c d') : ∃ r, faulty.answers d c r d' := by
  rcases torn with cut | rfl
  · exact ⟨failure .invalidData c, .inr (.inl ⟨.invalidData, by simp, rfl, cut⟩)⟩
  · exact ⟨_, faulty_perform d c⟩

/-- Directories are only made. -/
theorem faulty_dirs {c : DirCall} (h : ∀ path, c ≠ .createDirAll path) {r : DirCall.Ret c}
    (a : faulty.answers d c r d') : SameDirs d d' := by
  rcases a with ⟨order, -, a⟩ | ⟨e, -, -, cut⟩ | ⟨-, rfl⟩
  · obtain rfl : (d.perform order c).2 = d' := congrArg Prod.snd a
    cases c with
    | createDirAll path => exact absurd rfl (h path)
    | create path =>
        simp only [perform]
        split
        · exact SameDirs.rfl
        · split
          · exact SameDirs.rfl
          · exact SameDirs.rfl
          · rename_i within _ _ _ free _
            exact isDir_insertFile within free
    | rename src dst =>
        simp only [perform]
        split
        · exact SameDirs.rfl
        · exact SameDirs.rfl
        · rename_i i there within notDir _ _
          exact isDir_move there within notDir
    | removeFile path =>
        simp only [perform]
        split
        · exact SameDirs.rfl
        · rename_i i there _
          exact isDir_unlink there
    | _ => exact SameDirs.rfl
  · cases c with
    | createDirAll path => exact absurd rfl (h path)
    | writeAll file content => rcases cut with rfl | ⟨part, -, rfl⟩ <;> exact SameDirs.rfl
    | _ => exact (show d' = d from cut) ▸ SameDirs.rfl
  · exact SameDirs.rfl

theorem faulty_createDirAll {r : Except IoError Unit} (there : d.IsDir (components path))
    (a : faulty.answers d (.createDirAll path) r d') : d' = d := by
  rcases a with ⟨order, -, a⟩ | ⟨e, -, -, k, cut⟩ | ⟨broken, -⟩
  · simp only [perform, makeDirs_there there] at a
    split at a <;> exact (Prod.mk.inj a).2.symm
  · rw [cut, makeDirs_there (isDir_drop there k)]
  · exact broken.elim

/-- Only a listing leaves a choice. -/
theorem calm_only {c : DirCall} (h : ∀ path, c ≠ .readDir path) {r : DirCall.Ret c}
    (a : calm.answers d c r d') : r = (d.perform id c).1 ∧ d' = (d.perform id c).2 := by
  obtain ⟨order, -, a⟩ := a
  have same : d.perform order c = d.perform id c := by
    cases c <;> first | rfl | exact absurd rfl (h _)
  rw [← same, a]
  exact ⟨rfl, rfl⟩

theorem calm_readDir {r : Except IoError (List (Except IoError Bytes))} (noNul : nul ∉ path)
    (a : calm.answers d (.readDir path) r d') : d' = d ∧
      ((∃ names : List Bytes, names.Perm (d.children (components path)) ∧
        d.IsDir (components path) ∧ r = .ok (names.map .ok)) ∨
      (∃ e, r = .error e ∧ ¬ d.IsDir (components path))) := by
  obtain ⟨order, perm, a⟩ := a
  simp only [perform, Prod.mk.injEq] at a
  obtain ⟨rfl, rfl⟩ := a
  refine ⟨rfl, ?_⟩
  cases reached : d.reach path with
  | blocked e =>
      refine .inr ⟨e, rfl, fun there => ?_⟩
      obtain ⟨r, walked⟩ := walk_of_present (d := d) (p := components path) (by simp [there])
      simp [reach, noNul, walked] at reached
  | reached _ =>
      cases d.find (components path) with
      | dir there => exact .inl ⟨_, perm _, there, rfl⟩
      | file j there => exact .inr ⟨_, rfl, by simp [there]⟩
      | free there => exact .inr ⟨_, rfl, by simp [there]⟩

/-- A call that leaves no choice, issued in the calm world. -/
theorem Safe.calm {α : Type} {Q : α → Disk → Prop} {c : DirCall} {k : DirCall.Ret c → Io α}
    (h : ∀ path, c ≠ .readDir path)
    (next : Safe calm (fun _ => True) Q (k (d.perform id c).1) (d.perform id c).2) :
    Safe calm (fun _ => True) Q (.call c k) d := by
  refine ⟨trivial, fun _ _ => trivial, fun r d' a => ?_⟩
  obtain ⟨rfl, rfl⟩ := calm_only h a
  exact next

theorem calm_le {α : Type} {I : Disk → Prop} {Q : α → Disk → Prop} {p : Io α}
    (h : Safe faulty I Q p d) : Safe calm I Q p d :=
  h.of_le (fun _ _ _ _ a => .inl a) fun _ _ _ cut => cut

/-- A call that leaves no choice, on its own. -/
theorem call_yields {c : DirCall} {r : DirCall.Ret c} (h : ∀ path, c ≠ .readDir path)
    (hp : d.perform id c = (r, d')) : Yields calm (.call c .ret) d r d' :=
  Safe.calm h (by
    rw [hp]
    exact ⟨trivial, rfl, rfl⟩)

end Answers

section Named

/-! Calls on a file of an existing directory. -/

variable {d : Disk} {path src dst content : Bytes} {i : Nat}

theorem perform_read_file (h : Names d path) (there : d.content (components path) = some content) :
    d.perform id (.readToString path) =
      (if Utf8 content then .ok content else .error .invalidData, d) := by
  obtain ⟨i, found, rfl⟩ := exists_file there
  simp only [perform, openFile_file h found]

theorem perform_read_dir (h : Names d path) (there : d.IsDir (components path)) :
    d.perform id (.readToString path) = (.error (.os EISDIR), d) := by
  simp only [perform, openFile_dir h there]

theorem perform_read_free (h : Names d path) (there : d.lookup (components path) = none) :
    d.perform id (.readToString path) = (.error (.os ENOENT), d) := by
  simp only [perform, openFile_free h there]

theorem perform_removeFile (h : Names d path)
    (there : d.content (components path) = some content) :
    ∃ d', d.perform id (.removeFile path) = (.ok (), d') ∧ SameDirs d d' ∧
      d'.content = Function.update d.content (components path) none := by
  obtain ⟨i, found, rfl⟩ := exists_file there
  refine ⟨d.unlink _ i found, ?_, isDir_unlink found, content_unlink found⟩
  simp only [perform, openFile_file h found]

theorem perform_create (h : Names d path) (notDir : ¬ d.IsDir (components path)) :
    ∃ i d', d.perform id (.create path) = (.ok i, d') ∧ SameDirs d d' ∧
      d'.lookup (components path) = some (.file i) ∧ d'.data i = [] ∧
      d'.content = Function.update d.content (components path) (some []) := by
  obtain ⟨within, notDir, placed⟩ := target_of_names h notDir
  cases found : d.find (components path) with
  | dir there => exact absurd there notDir
  | file i there =>
      refine ⟨i, d.store i [], ?_, fun _ => Iff.rfl, there, Function.update_self ..,
        content_store there []⟩
      simp only [perform, placed, found]
  | free free =>
      refine ⟨d.next, d.insertFile _ within free, ?_, isDir_insertFile within free,
        AList.lookup_insert _, Function.update_self .., content_insertFile within free⟩
      simp only [perform, placed, found]

theorem perform_writeAll (there : d.lookup (components path) = some (.file i))
    (empty : d.data i = []) (content : Bytes) :
    ∃ d', d.perform id (.writeAll i content) = (.ok (), d') ∧ SameDirs d d' ∧
      d'.content = Function.update d.content (components path) (some content) := by
  refine ⟨d.overwrite i content, rfl, fun _ => Iff.rfl, ?_⟩
  rw [overwrite, content_store there, empty, List.drop_nil, List.append_nil]

theorem perform_rename (hs : Names d src) (hd : Names d dst)
    (there : d.content (components src) = some content) (notDir : ¬ d.IsDir (components dst)) :
    ∃ d', d.perform id (.rename src dst) = (.ok (), d') ∧ SameDirs d d' ∧
      d'.content = Function.update (Function.update d.content (components src) none)
        (components dst) (some content) := by
  obtain ⟨i, found, rfl⟩ := exists_file there
  obtain ⟨within, notDir, placed⟩ := target_of_names hd notDir
  refine ⟨d.move _ _ i found within notDir, ?_, isDir_move found within notDir, ?_⟩
  · simp only [perform, openFile_file hs found, placed]
  · rw [content_move, there]

end Named

end Effects.Directory

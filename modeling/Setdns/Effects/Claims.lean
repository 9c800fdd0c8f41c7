import Setdns.Effects.Directory
import Setdns.Effects.Ownership

/-!
Files of a shared tree as parts of processes. A process claims paths, each with
the file that stands there and its content. Different processes claim different
paths, and a call that touches no claimed path of another process keeps the
claims of all others.
-/

namespace Effects.Directory

open Text Disk
open Effects.Files (IoError)

abbrev Claims : Type := Path → Option (Nat × Bytes)

variable {ι : Type} (own : ι → Bytes → Prop)

/-- The files are there, and their contents are such as the process may claim. -/
def Holds (i : ι) (g : Claims) (d : Disk) : Prop :=
  ∀ p n content, g p = some (n, content) →
    d.lookup p = some (.file n) ∧ d.data n = content ∧ own i content

def claims : Parts ι Disk Claims where
  holds := Holds own
  apart g h := ∀ p, g p = none ∨ h p = none
  symm apart p := (apart p).symm

variable {own} {i j : ι} {g h : Claims} {d d' : Disk} {c : DirCall} {r : DirCall.Ret c} {p : Path}
  {path src dst text : Bytes} {n : Nat}

/-- Nobody claims a path without a file. -/
theorem Holds.free (holds : Holds own i g d) (absent : d.content p = none) : g p = none := by
  cases claimed : g p with
  | none => rfl
  | some claim =>
      obtain ⟨n, content⟩ := claim
      cases absent.symm.trans (content_file (holds p n content claimed).1)

theorem Holds.content (holds : Holds own i g d) (claimed : g p = some (n, text)) :
    d.content p = some text := by
  obtain ⟨there, data, -⟩ := holds p n text claimed
  rw [content_file there, data]

theorem Holds.frame (holds : Holds own i g d) (untouched : ∀ p, Touches d c p → g p = none)
    (a : faulty.answers d c r d') : Holds own i g d' := by
  intro p n content claimed
  obtain ⟨there, data, mine⟩ := holds p n content claimed
  have apart : ¬ Touches d c p := fun touched => by
    cases claimed.symm.trans (untouched p touched)
  obtain ⟨there', data'⟩ := faulty_file apart there a
  exact ⟨there', data'.trans data, mine⟩

theorem Holds.forget (holds : Holds own i g d) (p : Path) :
    Holds own i (Function.update g p none) d := by
  intro q n content claimed
  by_cases same : q = p
  · subst same
    simp at claimed
  · rw [Function.update_of_ne same] at claimed
    exact holds q n content claimed

theorem Holds.add (holds : Holds own i g d) (there : d.lookup p = some (.file n))
    (data : d.data n = text) (mine : own i text) :
    Holds own i (Function.update g p (some (n, text))) d := by
  intro q n' content' claimed
  by_cases same : q = p
  · subst same
    rw [Function.update_self] at claimed
    cases claimed
    exact ⟨there, data, mine⟩
  · rw [Function.update_of_ne same] at claimed
    exact holds q n' content' claimed

/-- A call that touches only paths without a file and paths of the process itself. -/
structure Private (own : ι → Bytes → Prop) (i : ι) (g : Claims) (d : Disk) (c : DirCall) :
    Prop where
  holds : Holds own i g d
  touched : ∀ p, Touches d c p → d.content p = none ∨ g p ≠ none

/-- The others keep their claims, and a claim on a touched path is no claim of theirs. -/
theorem Private.updates {g' : Claims} (priv : Private own i g d c)
    (a : faulty.answers d c r d') (holds' : Holds own i g' d')
    (grown : ∀ p, g' p ≠ none → g p ≠ none ∨ Touches d c p) :
    (claims own).Updates i g d g' d' := by
  refine ⟨holds', fun j h _ other apart => ?_⟩
  have untouched : ∀ p, Touches d c p → h p = none := by
    intro p touched
    rcases priv.touched p touched with absent | mine
    · exact other.free absent
    · exact (apart p).resolve_left mine
  refine ⟨other.frame untouched a, fun p => ?_⟩
  by_cases claimed : g' p = none
  · exact .inl claimed
  · rcases grown p claimed with before | touched
    · exact .inr ((apart p).resolve_left before)
    · exact .inr (untouched p touched)

/-- A process may give up what it claims on the touched paths. -/
theorem Private.drop (priv : Private own i g d c) (a : faulty.answers d c r d') (p : Path)
    (only : ∀ q, Touches d c q → d.content q = none ∨ q = p) :
    (claims own).Updates i g d (Function.update g p none) d' := by
  refine priv.updates a (Holds.frame (priv.holds.forget p) (fun q touched => ?_) a) ?_
  · rcases only q touched with absent | rfl
    · exact (priv.holds.forget p).free absent
    · exact Function.update_self ..
  · intro q claimed
    by_cases same : q = p
    · subst same
      simp at claimed
    · rw [Function.update_of_ne same] at claimed
      exact .inl claimed

/-- A call that only looks. -/
theorem look_updates (holds : Holds own i g d) (looks : ∀ p, ¬ Touches d c p)
    (a : faulty.answers d c r d') : (claims own).Updates i g d g d' :=
  Private.updates ⟨holds, fun p touched => absurd touched (looks p)⟩ a
    (holds.frame (fun p touched => absurd touched (looks p)) a) fun _ => .inl

/-- A file that only the process itself can claim. -/
theorem claim_updates (holds : Holds own i g d) (there : d.content p = some text)
    (mine : own i text) (foreign : ∀ j, j ≠ i → ¬ own j text) :
    ∃ n, (claims own).Updates i g d (Function.update g p (some (n, text))) d := by
  obtain ⟨n, found, data⟩ := exists_file there
  refine ⟨n, holds.add found data mine, fun j h ne other apart => ⟨other, fun q => ?_⟩⟩
  by_cases same : q = p
  · subst same
    cases claimed : h q with
    | none => exact .inr rfl
    | some claim =>
        obtain ⟨n', content'⟩ := claim
        obtain ⟨there', data', theirs⟩ := other q n' content' claimed
        obtain rfl : n = n' := by simpa using found.symm.trans there'
        exact absurd (data.symm.trans data' ▸ theirs) (foreign j ne)
  · rw [Function.update_of_ne same]
    exact apart q

theorem create_updates (holds : Holds own i g d) (absent : d.content (components path) = none)
    (blank : own i []) (a : faulty.answers d (.create path) (.ok n) d') :
    (claims own).Updates i g d (Function.update g (components path) (some (n, []))) d' := by
  have free := holds.free absent
  have kept : Holds own i g d' := holds.frame (by rintro p rfl; exact free) a
  refine Private.updates ⟨holds, by rintro p rfl; exact .inl absent⟩ a
    (kept.add (faulty_create a) (faulty_create_empty a) blank) fun p claimed => ?_
  by_cases same : p = components path
  · exact .inr same
  · rw [Function.update_of_ne same] at claimed
    exact .inl claimed

/-- A claimed file is the only one that a write to it touches. -/
theorem Holds.private_writeAll (holds : Holds own i g d) (claimed : g p = some (n, text))
    (written : Bytes) : Private own i g d (.writeAll n written) := by
  refine ⟨holds, fun q touched => .inr ?_⟩
  rw [d.single q p n touched (holds p n text claimed).1, claimed]
  simp

theorem write_updates (holds : Holds own i g d) (claimed : g p = some (n, []))
    (mine : own i text) (a : faulty.answers d (.writeAll n text) (.ok ()) d') :
    (claims own).Updates i g d (Function.update g p (some (n, text))) d' := by
  obtain ⟨there, empty, -⟩ := holds p n [] claimed
  obtain ⟨order, -, performed⟩ : calm.answers d (.writeAll n text) (.ok ()) d' := by
    rcases a with a | ⟨e, -, ⟨⟩, -⟩ | ⟨⟨⟩, -⟩
    exact a
  obtain ⟨-, rfl⟩ := Prod.mk.inj performed
  have data : (d.overwrite n text).data n = text := by
    simp [overwrite, store, empty]
  have forgotten : Holds own i (Function.update g p none) (d.overwrite n text) := by
    refine Holds.frame (holds.forget p) (fun q touched => ?_) a
    rw [d.single q p n touched there, Function.update_self]
  refine (holds.private_writeAll claimed text).updates a ?_ fun q claimed' => ?_
  · simpa using forgotten.add (p := p) there data mine
  · by_cases same : q = p
    · exact .inl (by simp [same, claimed])
    · rw [Function.update_of_ne same] at claimed'
      exact .inl claimed'

theorem Holds.private_rename (holds : Holds own i g d)
    (claimed : g (components src) ≠ none) (absent : d.content (components dst) = none) :
    Private own i g d (.rename src dst) := by
  refine ⟨holds, fun q touched => ?_⟩
  rcases touched with rfl | rfl
  · exact .inr claimed
  · exact .inl absent

theorem faulty_rename (there : d.lookup (components src) = some (.file n))
    (a : faulty.answers d (.rename src dst) (.ok ()) d') :
    d'.lookup (components dst) = some (.file n) ∧ d'.data = d.data := by
  obtain ⟨order, -, performed⟩ : calm.answers d (.rename src dst) (.ok ()) d' := by
    rcases a with a | ⟨e, -, ⟨⟩, -⟩ | ⟨⟨⟩, -⟩
    exact a
  simp only [perform] at performed
  cases opened : d.openFile src with
  | failed e => simp [opened] at performed
  | file m found =>
      obtain rfl : m = n := by simpa using found.symm.trans there
      cases placed : d.target dst with
      | failed e => simp [opened, placed] at performed
      | place within notDir =>
          simp only [opened, placed] at performed
          obtain ⟨-, rfl⟩ := Prod.mk.inj performed
          exact ⟨AList.lookup_insert _, rfl⟩

theorem rename_updates (holds : Holds own i g d)
    (claimed : g (components src) = some (n, text))
    (absent : d.content (components dst) = none)
    (a : faulty.answers d (.rename src dst) (.ok ()) d') :
    (claims own).Updates i g d (Function.update (Function.update g (components src) none)
      (components dst) (some (n, text))) d' := by
  obtain ⟨there, data, mine⟩ := holds _ n text claimed
  obtain ⟨moved, same⟩ := faulty_rename there a
  have forgotten : Holds own i (Function.update g (components src) none) d' := by
    refine Holds.frame (holds.forget _) (fun q touched => ?_) a
    rcases touched with rfl | rfl
    · exact Function.update_self ..
    · exact (holds.forget _).free absent
  refine (holds.private_rename (by simp [claimed]) absent).updates a
    (forgotten.add moved ((congrFun same n).trans data) mine) fun q claimed' => ?_
  by_cases onto : q = components dst
  · exact .inr (.inr onto)
  · rw [Function.update_of_ne onto] at claimed'
    by_cases src : q = components src
    · subst src
      simp at claimed'
    · rw [Function.update_of_ne src] at claimed'
      exact .inl claimed'

end Effects.Directory

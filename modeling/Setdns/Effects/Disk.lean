import Mathlib.Data.List.AList
import Setdns.Effects.Files

/-!
A tree of directories and regular files. A path leads to a node, the data of a
file is kept under its inode, and an open file is its inode: it can be renamed
or replaced while a writer still holds it. There are no links.

`content` is the abstract view, a table from paths to the bytes of the files.
Every change of the tree is an update of the table.
-/

namespace Effects.Directory

open Text
open Effects.Files (IoError ENOENT EISDIR)

abbrev ENOTDIR : Nat := 20
abbrev EEXIST : Nat := 17
abbrev ENAMETOOLONG : Nat := 63

abbrev nul : UInt8 := 0

/-- What a directory can hold an entry under. -/
structure FileName (name : Bytes) : Prop where
  nonempty : name ≠ []
  notDot : name ≠ [dot]
  notDotDot : name ≠ [dot, dot]
  noSlash : slash ∉ name
  noNul : nul ∉ name
  short : name.length ≤ 255

instance (name : Bytes) : Decidable (FileName name) :=
  decidable_of_iff (name ≠ [] ∧ name ≠ [dot] ∧ name ≠ [dot, dot] ∧ slash ∉ name ∧ nul ∉ name ∧
      name.length ≤ 255)
    ⟨fun ⟨h₁, h₂, h₃, h₄, h₅, h₆⟩ => ⟨h₁, h₂, h₃, h₄, h₅, h₆⟩,
      fun h => ⟨h.nonempty, h.notDot, h.notDotDot, h.noSlash, h.noNul, h.short⟩⟩

/-- The names along an absolute path, the last one first. -/
abbrev Path : Type := List Bytes

/-- Empty parts and `.` lead nowhere. -/
def components (path : Bytes) : Path :=
  ((path.splitOn slash).filter fun part => part ≠ [] ∧ part ≠ [dot]).reverse

/-- A path with a trailing slash names a directory. -/
def endsInDir (path : Bytes) : Bool :=
  (path.splitOn slash).getLast? = some [] || (path.splitOn slash).getLast? = some [dot]

theorem components_append (front rest : Bytes) :
    components (front ++ slash :: rest) = components rest ++ components front := by
  rw [components, components, components, List.splitOn_append_cons_self, List.filter_append,
    List.reverse_append]

theorem components_name {name : Bytes} (h : FileName name) : components name = [name] := by
  rw [components, List.splitOn_eq_singleton h.noSlash]
  simp [h.nonempty, h.notDot]

theorem endsInDir_append (front : Bytes) {name : Bytes} (h : FileName name) :
    endsInDir (front ++ slash :: name) = false := by
  have last : ((front ++ slash :: name).splitOn slash).getLast? = some name := by
    rw [List.splitOn_append_cons_self, List.splitOn_eq_singleton h.noSlash]
    simp
  simp [endsInDir, last, h.nonempty, h.notDot]

inductive Node where
  | file (inode : Nat)
  | dir
  deriving DecidableEq, Repr

/-- Entries lie in directories, inodes in use are older than `next`, and no two
paths share one. -/
structure Disk where
  entries : AList fun _ : Path => Node
  data : Nat → Bytes
  next : Nat
  root : entries.lookup [] = some .dir
  inside : ∀ name up, entries.lookup (name :: up) ≠ none →
    entries.lookup up = some .dir ∧ FileName name
  fresh : ∀ p i, entries.lookup p = some (.file i) → i < next
  single : ∀ p q i, entries.lookup p = some (.file i) → entries.lookup q = some (.file i) → p = q

namespace Disk

theorem lookup_singleton {p : Path} {n : Node}
    (h : (AList.singleton [] .dir : AList fun _ : Path => Node).lookup p = some n) :
    p = [] ∧ n = .dir := by
  have there := AList.lookup_isSome.mp (Option.isSome_of_eq_some h)
  rw [AList.mem_keys, AList.keys_singleton, List.mem_singleton] at there
  subst there
  cases h
  exact ⟨rfl, rfl⟩

/-- A disk with nothing but its root. -/
def empty : Disk where
  entries := AList.singleton [] .dir
  data _ := []
  next := 0
  root := rfl
  inside name up present := by
    obtain ⟨n, h⟩ := Option.ne_none_iff_exists'.mp present
    cases (lookup_singleton h).1
  fresh p i h := by cases (lookup_singleton h).2
  single p q i h _ := by cases (lookup_singleton h).2

abbrev lookup (d : Disk) (p : Path) : Option Node := d.entries.lookup p

abbrev IsDir (d : Disk) (p : Path) : Prop := d.lookup p = some .dir

/-- A place where a directory can hold an entry. -/
def Within (d : Disk) : Path → Prop
  | [] => False
  | name :: up => d.IsDir up ∧ FileName name

/-- The names in a directory. -/
def children (d : Disk) (p : Path) : List Bytes :=
  d.entries.keys.filterMap fun
    | name :: up => if up = p then some name else none
    | [] => none

theorem mem_children (d : Disk) (p : Path) (name : Bytes) :
    name ∈ d.children p ↔ d.lookup (name :: p) ≠ none := by
  rw [children, List.mem_filterMap, Ne, AList.lookup_eq_none, not_not, AList.mem_keys]
  constructor
  · rintro ⟨q, hq, found⟩
    cases q with
    | nil => cases found
    | cons head up =>
        simp only [Option.ite_none_right_eq_some, Option.some.injEq] at found
        obtain ⟨rfl, rfl⟩ := found
        exact hq
  · intro h
    exact ⟨name :: p, h, by simp⟩

/-- What stands at a path. -/
inductive Found (d : Disk) (p : Path) where
  | file (inode : Nat) (h : d.lookup p = some (.file inode))
  | dir (h : d.IsDir p)
  | free (h : d.lookup p = none)

def find (d : Disk) (p : Path) : d.Found p :=
  match h : d.lookup p with
  | some (.file inode) => .file inode h
  | some .dir => .dir h
  | none => .free h

section Changes

variable (d : Disk)

def allocate : Disk where
  entries := d.entries
  data := Function.update d.data d.next []
  next := d.next + 1
  root := d.root
  inside := d.inside
  fresh p i h := Nat.lt_succ_of_lt (d.fresh p i h)
  single := d.single

def store (i : Nat) (content : Bytes) : Disk where
  entries := d.entries
  data := Function.update d.data i content
  next := d.next
  root := d.root
  inside := d.inside
  fresh := d.fresh
  single := d.single

theorem lookup_insert_other {entries : AList fun _ : Path => Node} {p q : Path} {n m : Node}
    (h : (entries.insert p n).lookup q = some m) (hm : m ≠ n) : entries.lookup q = some m := by
  by_cases hq : q = p
  · subst hq
    rw [AList.lookup_insert, Option.some.injEq] at h
    exact absurd h.symm hm
  · rwa [AList.lookup_insert_ne hq] at h

/-- An entry that is put into a directory leaves the places of the others. -/
theorem inside_insert {p : Path} (n : Node) (within : d.Within p) (notDir : d.IsDir p → n = .dir) :
    ∀ name up, (d.entries.insert p n).lookup (name :: up) ≠ none →
      (d.entries.insert p n).lookup up = some .dir ∧ FileName name := by
  have dirs : ∀ q, d.IsDir q → (d.entries.insert p n).lookup q = some .dir := by
    intro q hq
    by_cases h : q = p
    · subst h
      rw [AList.lookup_insert, notDir hq]
    · rwa [AList.lookup_insert_ne h]
  intro name up present
  by_cases h : name :: up = p
  · subst h
    exact ⟨dirs up within.1, within.2⟩
  · rw [AList.lookup_insert_ne h] at present
    exact (d.inside name up present).imp_left (dirs up)

theorem root_insert {p : Path} (n : Node) (within : d.Within p) :
    (d.entries.insert p n).lookup [] = some .dir := by
  have ne : ([] : Path) ≠ p := by
    rintro rfl
    exact within
  rw [AList.lookup_insert_ne ne, d.root]

def insertDir (p : Path) (within : d.Within p) : Disk where
  entries := d.entries.insert p .dir
  data := d.data
  next := d.next
  root := d.root_insert .dir within
  inside := d.inside_insert .dir within fun _ => rfl
  fresh q i h := d.fresh q i (lookup_insert_other h (by simp))
  single q r i hq hr :=
    d.single q r i (lookup_insert_other hq (by simp)) (lookup_insert_other hr (by simp))

/-- A file without a path that can be entered at a place. -/
structure Linkable (p : Path) (i : Nat) : Prop where
  within : d.Within p
  notDir : ¬ d.IsDir p
  used : i < d.next
  unlinked : ∀ q, d.lookup q ≠ some (.file i)

def link (p : Path) (i : Nat) (ready : d.Linkable p i) : Disk where
  entries := d.entries.insert p (.file i)
  data := d.data
  next := d.next
  root := d.root_insert _ ready.within
  inside := d.inside_insert _ ready.within fun h => absurd h ready.notDir
  fresh q j h := by
    by_cases hj : j = i
    · exact hj ▸ ready.used
    · exact d.fresh q j (lookup_insert_other h (by simpa using hj))
  single q r j hq hr := by
    have place : ∀ s, (d.entries.insert p (.file i)).lookup s = some (.file i) → s = p := by
      intro s hs
      by_contra ne
      rw [AList.lookup_insert_ne ne] at hs
      exact ready.unlinked s hs
    by_cases hj : j = i
    · subst hj
      rw [place q hq, place r hr]
    · have ne : Node.file j ≠ .file i := by simpa using hj
      exact d.single q r j (lookup_insert_other hq ne) (lookup_insert_other hr ne)

def unlink (p : Path) (i : Nat) (h : d.lookup p = some (.file i)) : Disk where
  entries := d.entries.erase p
  data := d.data
  next := d.next
  root := by
    have ne : ([] : Path) ≠ p := by
      rintro rfl
      cases d.root.symm.trans h
    rw [AList.lookup_erase_ne ne, d.root]
  inside name up present := by
    have other : name :: up ≠ p := by
      rintro rfl
      exact present (AList.lookup_erase _ _)
    rw [AList.lookup_erase_ne other] at present
    obtain ⟨dir, valid⟩ := d.inside name up present
    have ne : up ≠ p := by
      rintro rfl
      cases dir.symm.trans h
    exact ⟨by rwa [AList.lookup_erase_ne ne], valid⟩
  fresh q j hq := by
    by_cases hp : q = p
    · subst hp
      simp at hq
    · rw [AList.lookup_erase_ne hp] at hq
      exact d.fresh q j hq
  single q r j hq hr := by
    by_cases hp : q = p
    · subst hp
      simp at hq
    by_cases hp' : r = p
    · subst hp'
      simp at hr
    rw [AList.lookup_erase_ne hp] at hq
    rw [AList.lookup_erase_ne hp'] at hr
    exact d.single q r j hq hr

theorem linkable_allocate {p : Path} (within : d.Within p) (free : d.lookup p = none) :
    d.allocate.Linkable p d.next where
  within := by cases p <;> exact within
  notDir dir := by cases free.symm.trans dir
  used := Nat.lt_succ_self d.next
  unlinked q h := Nat.lt_irrefl _ (d.fresh q d.next h)

def insertFile (p : Path) (within : d.Within p) (free : d.lookup p = none) : Disk :=
  d.allocate.link p d.next (d.linkable_allocate within free)

variable {d}

theorem isDir_unlink {p : Path} {i : Nat} (h : d.lookup p = some (.file i)) (q : Path) :
    (d.unlink p i h).IsDir q ↔ d.IsDir q := by
  by_cases hq : q = p
  · subst hq
    simp [IsDir, lookup, unlink, h]
  · simp [IsDir, lookup, unlink, AList.lookup_erase_ne hq]

theorem linkable_unlink {p q : Path} {i : Nat} (h : d.lookup p = some (.file i))
    (within : d.Within q) (notDir : ¬ d.IsDir q) : (d.unlink p i h).Linkable q i where
  within := by
    cases q with
    | nil => exact within
    | cons name up => exact within.imp_left (isDir_unlink h up).mpr
  notDir dir := notDir ((isDir_unlink h q).mp dir)
  used := d.fresh p i h
  unlinked r there := by
    by_cases hr : r = p
    · subst hr
      simp [lookup, unlink] at there
    · simp only [lookup, unlink, AList.lookup_erase_ne hr] at there
      exact hr (d.single r p i there h)

variable (d)

/-- Move a file onto a place, replacing the file that is there. -/
def move (p q : Path) (i : Nat) (h : d.lookup p = some (.file i)) (within : d.Within q)
    (notDir : ¬ d.IsDir q) : Disk :=
  (d.unlink p i h).link q i (linkable_unlink h within notDir)

end Changes

section View

def content (d : Disk) (p : Path) : Option Bytes :=
  match d.lookup p with
  | some (.file i) => some (d.data i)
  | _ => none

variable {d : Disk} {p q : Path} {i : Nat}

theorem content_file (h : d.lookup p = some (.file i)) : d.content p = some (d.data i) := by
  rw [content, h]

theorem content_dir (h : d.IsDir p) : d.content p = none := by
  rw [content, h]

theorem content_free (h : d.lookup p = none) : d.content p = none := by
  rw [content, h]

@[simp] theorem content_allocate : d.allocate.content = d.content := by
  funext q
  cases d.find q with
  | file i h =>
      have old : i ≠ d.next := Nat.ne_of_lt (d.fresh q i h)
      have same : d.allocate.data i = d.data i := Function.update_of_ne old _ _
      rw [content_file (d := d.allocate) h, content_file h, same]
  | dir h => rw [content_dir (d := d.allocate) h, content_dir h]
  | free h => rw [content_free (d := d.allocate) h, content_free h]

theorem content_store (h : d.lookup p = some (.file i)) (c : Bytes) :
    (d.store i c).content = Function.update d.content p (some c) := by
  funext q
  by_cases hq : q = p
  · subst hq
    have stored : (d.store i c).data i = c := Function.update_self ..
    rw [Function.update_self, content_file (d := d.store i c) h, stored]
  rw [Function.update_of_ne hq]
  cases d.find q with
  | file j h' =>
      have other : j ≠ i := by
        rintro rfl
        exact hq (d.single q p j h' h)
      have same : (d.store i c).data j = d.data j := Function.update_of_ne other _ _
      rw [content_file (d := d.store i c) h', content_file h', same]
  | dir h' => rw [content_dir (d := d.store i c) h', content_dir h']
  | free h' => rw [content_free (d := d.store i c) h', content_free h']

theorem content_congr {e : Disk} (lookup : e.lookup q = d.lookup q) (data : e.data = d.data) :
    e.content q = d.content q := by
  rw [content, content, lookup, data]

theorem content_link (ready : d.Linkable p i) :
    (d.link p i ready).content = Function.update d.content p (some (d.data i)) := by
  funext q
  by_cases hq : q = p
  · subst hq
    rw [Function.update_self, content_file (AList.lookup_insert _)]
    rfl
  · rw [Function.update_of_ne hq]
    exact content_congr (AList.lookup_insert_ne hq) rfl

theorem content_unlink (h : d.lookup p = some (.file i)) :
    (d.unlink p i h).content = Function.update d.content p none := by
  funext q
  by_cases hq : q = p
  · subst hq
    rw [Function.update_self, content_free (AList.lookup_erase _ _)]
  · rw [Function.update_of_ne hq]
    exact content_congr (AList.lookup_erase_ne hq) rfl

theorem content_insertDir (within : d.Within p) (h : d.lookup p = none) :
    (d.insertDir p within).content = d.content := by
  funext q
  by_cases hq : q = p
  · subst hq
    rw [content_dir (AList.lookup_insert _), content_free h]
  · exact content_congr (AList.lookup_insert_ne hq) rfl

theorem content_insertFile (within : d.Within p) (h : d.lookup p = none) :
    (d.insertFile p within h).content = Function.update d.content p (some []) := by
  have empty : d.allocate.data d.next = [] := Function.update_self ..
  rw [insertFile, content_link, content_allocate, empty]

theorem content_move (h : d.lookup p = some (.file i)) (within : d.Within q)
    (notDir : ¬ d.IsDir q) :
    (d.move p q i h within notDir).content =
      Function.update (Function.update d.content p none) q (d.content p) := by
  rw [move, content_link, content_unlink, content_file h]
  rfl

theorem isDir_link (ready : d.Linkable p i) (q : Path) :
    (d.link p i ready).IsDir q ↔ d.IsDir q := by
  by_cases hq : q = p
  · subst hq
    refine iff_of_false (fun dir => ?_) ready.notDir
    cases (AList.lookup_insert _).symm.trans dir
  · rw [IsDir, IsDir, lookup, link, AList.lookup_insert_ne hq]

theorem isDir_insertFile (within : d.Within p) (h : d.lookup p = none) (q : Path) :
    (d.insertFile p within h).IsDir q ↔ d.IsDir q :=
  isDir_link _ q

theorem isDir_move (h : d.lookup p = some (.file i)) (within : d.Within q)
    (notDir : ¬ d.IsDir q) (r : Path) : (d.move p q i h within notDir).IsDir r ↔ d.IsDir r :=
  (isDir_link _ r).trans (isDir_unlink h r)

theorem isDir_insertDir (within : d.Within p) (q : Path) :
    (d.insertDir p within).IsDir q ↔ q = p ∨ d.IsDir q := by
  by_cases hq : q = p
  · subst hq
    exact iff_of_true (AList.lookup_insert _) (.inl rfl)
  · simp [IsDir, lookup, insertDir, AList.lookup_insert_ne hq, hq]

end View

end Disk

end Effects.Directory

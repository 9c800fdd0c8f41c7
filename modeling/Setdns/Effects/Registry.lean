import Mathlib.Data.List.AList
import Setdns.Effects.World
import Setdns.Text.Bytes

/-!
A registry: below each base key a table of subkeys, each with named values. The
names of keys are compared up to `fold`, the data of values exactly. A process
also asks the system for identifiers.

Subkeys are enumerated by their number in an order that depends on which ones are
there, so a removal may move the ones that have not been seen yet.

`perform` is the answer of a call that meets no fault, given that order and the
identifier that the system hands out. In the `calm` world the identifier is
fresh, in the `faulty` world any call may also fail. A call that fails changes
nothing, and a process dies between two calls.
-/

namespace Effects.Registry

open Text

inductive Value where
  | dword (n : UInt32)
  | string (s : Bytes)
  | multiString (l : List Bytes)
  deriving DecidableEq, Repr

abbrev Values : Type := Bytes → Option Value

structure Guid where
  data1 : UInt32
  data2 : UInt16
  data3 : UInt16
  data4 : List UInt8
  length_eq : data4.length = 8
  deriving DecidableEq, Repr

abbrev RegError : Type := Nat

abbrev ERROR_FILE_NOT_FOUND : RegError := 2
abbrev ERROR_INVALID_DATA : RegError := 13
abbrev ERROR_NO_MORE_ITEMS : RegError := 259
abbrev ERROR_KEY_DELETED : RegError := 1018

/-- A subkey of a base key. Its name has no separator. -/
structure KeyPath where
  base : Bytes
  name : Bytes
  deriving DecidableEq, Repr

inductive RegCall where
  | create (path : KeyPath)
  | openKey (path : KeyPath)
  | openBase (base : Bytes)
  | keys (base : Bytes)
  | nextKey (base : Bytes) (index : Nat)
  | setValue (path : KeyPath) (name : Bytes) (data : Value)
  | getString (path : KeyPath) (name : Bytes)
  | getMultiString (path : KeyPath) (name : Bytes)
  | removeTree (path : KeyPath)
  | createGuid
  deriving DecidableEq

abbrev RegCall.Ret : RegCall → Type
  | .keys _ => Except RegError Nat
  | .nextKey _ _ => Except RegError Bytes
  | .getString _ _ => Except RegError Bytes
  | .getMultiString _ _ => Except RegError (List Bytes)
  | .createGuid => Except RegError Guid
  | _ => Except RegError Unit

abbrev Io (α : Type) : Type := Program RegCall RegCall.Ret α

namespace Reg

abbrev create (path : KeyPath) : Io (Except RegError Unit) := .call (.create path) .ret
abbrev openKey (path : KeyPath) : Io (Except RegError Unit) := .call (.openKey path) .ret
abbrev openBase (base : Bytes) : Io (Except RegError Unit) := .call (.openBase base) .ret
abbrev keys (base : Bytes) : Io (Except RegError Nat) := .call (.keys base) .ret
abbrev nextKey (base : Bytes) (index : Nat) : Io (Except RegError Bytes) :=
  .call (.nextKey base index) .ret
abbrev setValue (path : KeyPath) (name : Bytes) (data : Value) : Io (Except RegError Unit) :=
  .call (.setValue path name data) .ret
abbrev getString (path : KeyPath) (name : Bytes) : Io (Except RegError Bytes) :=
  .call (.getString path name) .ret
abbrev getMultiString (path : KeyPath) (name : Bytes) : Io (Except RegError (List Bytes)) :=
  .call (.getMultiString path name) .ret
abbrev removeTree (path : KeyPath) : Io (Except RegError Unit) := .call (.removeTree path) .ret
abbrev createGuid : Io (Except RegError Guid) := .call .createGuid .ret

end Reg

section Hive

variable {fold : Bytes → Bytes}

/-- A subkey under its folded name, as it was spelled when it was created. -/
structure KeyAt (fold : Bytes → Bytes) (folded : Bytes) where
  name : Bytes
  spelled : fold name = folded
  values : Values

abbrev Hive (fold : Bytes → Bytes) : Type := Bytes → Option (AList (KeyAt fold))

/-- An order of the subkeys. -/
structure Enumeration where
  list : List Bytes → List Bytes
  perm : ∀ names, (list names).Perm names

namespace Hive

def find (s : Hive fold) (base folded : Bytes) : Option (KeyAt fold folded) :=
  (s base).bind fun keys => keys.lookup folded

/-- The values of a subkey, if it is there. -/
def values (s : Hive fold) (base folded : Bytes) : Option Values :=
  (s.find base folded).map KeyAt.values

def names (s : Hive fold) (base : Bytes) : List Bytes :=
  ((s base).getD ∅).entries.map fun entry => entry.2.name

def put (s : Hive fold) (base : Bytes) {folded : Bytes} (key : KeyAt fold folded) : Hive fold :=
  Function.update s base (some (((s base).getD ∅).insert folded key))

def drop (s : Hive fold) (base folded : Bytes) : Hive fold :=
  Function.update s base ((s base).map fun keys => keys.erase folded)

def value (s : Hive fold) (path : KeyPath) (name : Bytes) : Option Value :=
  (s.values path.base (fold path.name)).bind fun values => values name

def stringOf (s : Hive fold) (path : KeyPath) (name : Bytes) : Except RegError Bytes :=
  match s.value path name with
  | some (.string data) => .ok data
  | some _ => .error ERROR_INVALID_DATA
  | none => .error ERROR_FILE_NOT_FOUND

def multiStringOf (s : Hive fold) (path : KeyPath) (name : Bytes) : Except RegError (List Bytes) :=
  match s.value path name with
  | some (.multiString data) => .ok data
  | some _ => .error ERROR_INVALID_DATA
  | none => .error ERROR_FILE_NOT_FOUND

def perform (order : Enumeration) (guid : Guid) (s : Hive fold) :
    (c : RegCall) → RegCall.Ret c × Hive fold
  | .create path =>
      match s.find path.base (fold path.name) with
      | some _ => (.ok (), s)
      | none => (.ok (), s.put path.base ⟨path.name, rfl, fun _ => none⟩)
  | .openKey path =>
      (if (s.values path.base (fold path.name)).isSome then .ok ()
        else .error ERROR_FILE_NOT_FOUND, s)
  | .openBase base => (if (s base).isSome then .ok () else .error ERROR_FILE_NOT_FOUND, s)
  | .keys base => (.ok (s.names base).length, s)
  | .nextKey base index =>
      (match (order.list (s.names base))[index]? with
        | some name => .ok name
        | none => .error ERROR_NO_MORE_ITEMS, s)
  | .setValue path name data =>
      match s.find path.base (fold path.name) with
      | some key =>
          (.ok (),
            s.put path.base { key with values := Function.update key.values name (some data) })
      | none => (.error ERROR_KEY_DELETED, s)
  | .getString path name => (s.stringOf path name, s)
  | .getMultiString path name => (s.multiStringOf path name, s)
  | .removeTree path =>
      match s.find path.base (fold path.name) with
      | some _ => (.ok (), s.drop path.base (fold path.name))
      | none => (.error ERROR_FILE_NOT_FOUND, s)
  | .createGuid => (.ok guid, s)

end Hive

def failure (e : RegError) : (c : RegCall) → RegCall.Ret c
  | .create _ => .error e
  | .openKey _ => .error e
  | .openBase _ => .error e
  | .keys _ => .error e
  | .nextKey _ _ => .error e
  | .setValue _ _ _ => .error e
  | .getString _ _ => .error e
  | .getMultiString _ _ => .error e
  | .removeTree _ => .error e
  | .createGuid => .error e

section Worlds

variable (order : Enumeration) (fresh : Hive fold → Guid → Prop)

def calm : World RegCall RegCall.Ret (Hive fold) where
  answers s c r s' :=
    ∃ guid : Guid, (c = .createGuid → fresh s guid) ∧ s.perform order guid c = (r, s')
  torn s _ s' := s' = s

def faulty : World RegCall RegCall.Ret (Hive fold) where
  answers s c r s' := (calm order fresh).answers s c r s' ∨ ∃ e, r = failure e c ∧ s' = s
  torn s _ s' := s' = s

end Worlds

section Views

variable {s s' : Hive fold} {base folded b k : Bytes}

theorem find_put_self (key : KeyAt fold folded) : (s.put base key).find base folded = some key := by
  simp [Hive.find, Hive.put]

theorem values_put_self (key : KeyAt fold folded) :
    (s.put base key).values base folded = some key.values := by
  rw [Hive.values, find_put_self, Option.map_some]

theorem find_put_other (key : KeyAt fold folded) (h : ¬ (b = base ∧ k = folded)) :
    (s.put base key).find b k = s.find b k := by
  by_cases hb : b = base
  · subst hb
    have hk : k ≠ folded := fun hk => h ⟨rfl, hk⟩
    cases present : s b <;>
      simp only [Hive.find, Hive.put, present, Function.update_self, Option.bind_some,
        Option.bind_none, Option.getD_none, Option.getD_some, AList.lookup_insert_ne hk,
        AList.lookup_empty]
  · simp [Hive.find, Hive.put, Function.update_of_ne hb]

theorem find_drop_self : (s.drop base folded).find base folded = none := by
  cases present : s base <;> simp [Hive.find, Hive.drop, present]

theorem find_drop_other (h : ¬ (b = base ∧ k = folded)) :
    (s.drop base folded).find b k = s.find b k := by
  by_cases hb : b = base
  · subst hb
    have hk : k ≠ folded := fun hk => h ⟨rfl, hk⟩
    cases present : s b <;> simp [Hive.find, Hive.drop, present, AList.lookup_erase_ne hk]
  · simp [Hive.find, Hive.drop, Function.update_of_ne hb]

/-- A listing names the subkeys that are there. -/
theorem mem_names : k ∈ (s.names base).map fold ↔ s.values base k ≠ none := by
  have folded : (s.names base).map fold = ((s base).getD ∅).keys := by
    rw [Hive.names, List.map_map]
    exact List.map_congr_left fun entry _ => entry.2.spelled
  rw [folded, ← AList.mem_keys, ← AList.lookup_isSome]
  cases present : s base <;> simp [Hive.values, Hive.find, present, Option.isSome_iff_ne_none]

end Views

section Answers

variable {order : Enumeration} {fresh : Hive fold → Guid → Prop} {s s' : Hive fold} {c : RegCall}
  {b k : Bytes}

/-- The subkeys that a call may change. -/
def Targets (fold : Bytes → Bytes) : RegCall → Bytes → Bytes → Prop
  | .create path, b, k | .setValue path _ _, b, k | .removeTree path, b, k =>
      b = path.base ∧ k = fold path.name
  | _, _, _ => False

theorem perform_frame (order : Enumeration) (guid : Guid) (h : ¬ Targets fold c b k) :
    (s.perform order guid c).2.values b k = s.values b k := by
  unfold Hive.values
  congr 1
  cases c with
  | create path =>
      simp only [Hive.perform]
      cases s.find path.base (fold path.name) with
      | some _ => rfl
      | none => exact find_put_other _ h
  | setValue path name data =>
      simp only [Hive.perform]
      cases s.find path.base (fold path.name) with
      | some _ => exact find_put_other _ h
      | none => rfl
  | removeTree path =>
      simp only [Hive.perform]
      cases s.find path.base (fold path.name) with
      | some _ => exact find_drop_other h
      | none => rfl
  | _ => rfl

theorem faulty_frame {r : RegCall.Ret c} (a : (faulty order fresh).answers s c r s')
    (h : ¬ Targets fold c b k) : s'.values b k = s.values b k := by
  rcases a with ⟨guid, _, a⟩ | ⟨e, _, rfl⟩
  · have frame := perform_frame (s := s) order guid h
    rwa [a] at frame
  · rfl

variable {path : KeyPath} {name : Bytes} {data : Value}

theorem faulty_create {r : Except RegError Unit}
    (a : (faulty order fresh).answers s (.create path) r s') :
    (s' = s ∧ (r = .ok () → s.values path.base (fold path.name) ≠ none)) ∨
      (s.values path.base (fold path.name) = none ∧
        s'.values path.base (fold path.name) = some fun _ => none) := by
  rcases a with ⟨guid, _, a⟩ | ⟨e, rfl, rfl⟩
  · cases present : s.find path.base (fold path.name) with
    | some key =>
        simp only [Hive.perform, present, Prod.mk.injEq] at a
        exact .inl ⟨a.2.symm, fun _ => by simp [Hive.values, present]⟩
    | none =>
        simp only [Hive.perform, present, Prod.mk.injEq] at a
        obtain ⟨-, rfl⟩ := a
        exact .inr ⟨by simp [Hive.values, present], values_put_self _⟩
  · exact .inl ⟨rfl, fun h => by cases h⟩

theorem faulty_setValue {r : Except RegError Unit}
    (a : (faulty order fresh).answers s (.setValue path name data) r s') :
    (s' = s ∧ r ≠ .ok ()) ∨ (r = .ok () ∧ ∃ values,
      s.values path.base (fold path.name) = some values ∧
        s'.values path.base (fold path.name) = some (Function.update values name (some data))) := by
  rcases a with ⟨guid, _, a⟩ | ⟨e, rfl, rfl⟩
  · cases present : s.find path.base (fold path.name) with
    | some key =>
        simp only [Hive.perform, present, Prod.mk.injEq] at a
        obtain ⟨rfl, rfl⟩ := a
        exact .inr ⟨rfl, key.values, by simp [Hive.values, present], values_put_self _⟩
    | none =>
        simp only [Hive.perform, present, Prod.mk.injEq] at a
        obtain ⟨rfl, rfl⟩ := a
        exact .inl ⟨rfl, by simp⟩
  · exact .inl ⟨rfl, by simp [failure]⟩

theorem faulty_removeTree {r : Except RegError Unit}
    (a : (faulty order fresh).answers s (.removeTree path) r s') :
    (s' = s ∧ r ≠ .ok ()) ∨
      (s.values path.base (fold path.name) ≠ none ∧
        s'.values path.base (fold path.name) = none) := by
  rcases a with ⟨guid, _, a⟩ | ⟨e, rfl, rfl⟩
  · cases present : s.find path.base (fold path.name) with
    | some key =>
        simp only [Hive.perform, present, Prod.mk.injEq] at a
        obtain ⟨-, rfl⟩ := a
        exact .inr ⟨by simp [Hive.values, present], by simp [Hive.values, find_drop_self]⟩
    | none =>
        simp only [Hive.perform, present, Prod.mk.injEq] at a
        obtain ⟨rfl, rfl⟩ := a
        exact .inl ⟨rfl, by simp⟩
  · exact .inl ⟨rfl, by simp [failure]⟩

/-- The calls that only look. -/
def Quiet : RegCall → Prop
  | .create _ | .setValue _ _ _ | .removeTree _ => False
  | _ => True

theorem quiet_faulty (h : Quiet c) : (faulty order fresh).Quiet c := by
  refine ⟨fun s s' cut => cut, fun s r s' a => ?_⟩
  rcases a with ⟨guid, _, a⟩ | ⟨e, _, rfl⟩
  · cases c <;> first | exact (Prod.mk.inj a).2.symm | exact h.elim
  · rfl

theorem faulty_keys {count : Nat} (a : (faulty order fresh).answers s (.keys b) (.ok count) s') :
    count = (s.names b).length := by
  rcases a with ⟨guid, _, a⟩ | ⟨e, h, _⟩
  · exact (Except.ok.inj (Prod.mk.inj a).1).symm
  · cases h

theorem faulty_nextKey {index : Nat} {found : Bytes}
    (a : (faulty order fresh).answers s (.nextKey b index) (.ok found) s') :
    (order.list (s.names b))[index]? = some found := by
  rcases a with ⟨guid, _, a⟩ | ⟨e, h, _⟩
  · have answer := (Prod.mk.inj a).1
    split at answer <;> cases answer
    assumption
  · cases h

/-- Every subkey has a number. -/
theorem exists_index (order : Enumeration) (there : s.values b k ≠ none) :
    ∃ (index : Nat) (name : Bytes),
      (order.list (s.names b))[index]? = some name ∧ fold name = k := by
  obtain ⟨name, listed, spelled⟩ := List.mem_map.mp (mem_names.mpr there)
  obtain ⟨index, number⟩ := List.mem_iff_getElem?.mp ((order.perm _).mem_iff.mpr listed)
  exact ⟨index, name, number, spelled⟩

theorem faulty_getString {found : Bytes}
    (a : (faulty order fresh).answers s (.getString path name) (.ok found) s') :
    s.value path name = some (.string found) := by
  rcases a with ⟨guid, _, a⟩ | ⟨e, h, _⟩
  · have answer := (Prod.mk.inj a).1
    unfold Hive.stringOf at answer
    split at answer <;> cases answer
    assumption
  · cases h

theorem faulty_getMultiString {found : List Bytes}
    (a : (faulty order fresh).answers s (.getMultiString path name) (.ok found) s') :
    s.value path name = some (.multiString found) := by
  rcases a with ⟨guid, _, a⟩ | ⟨e, h, _⟩
  · have answer := (Prod.mk.inj a).1
    unfold Hive.multiStringOf at answer
    split at answer <;> cases answer
    assumption
  · cases h

end Answers

end Hive

end Effects.Registry

import Mathlib.Data.List.Basic
import Mathlib.Data.List.Infix

/-!
Byte strings. A string of the program is the list of its UTF-8 bytes, so prefix
and suffix tests, lengths and splits at ASCII separators are the byte operations
the program performs. Reading a file as text succeeds only on valid UTF-8.
-/

namespace Text

abbrev Bytes : Type := List UInt8

/-- The bytes of a string literal. -/
def bytes (s : String) : Bytes := s.toUTF8.data.toList

abbrev lf : UInt8 := 10
abbrev cr : UInt8 := 13
abbrev dot : UInt8 := 46
abbrev slash : UInt8 := 47

def Utf8 (b : Bytes) : Prop := b.toByteArray.IsValidUTF8

instance (b : Bytes) : Decidable (Utf8 b) :=
  inferInstanceAs (Decidable b.toByteArray.IsValidUTF8)

/-- Decided along the string, not over all bytes. -/
instance (priority := high) decidableBall (b : Bytes) (p : UInt8 → Prop) [DecidablePred p] :
    Decidable (∀ x ∈ b, p x) :=
  List.decidableBAll p b

def Ascii (b : Bytes) : Prop := ∀ x ∈ b, x < 128

instance (b : Bytes) : Decidable (Ascii b) :=
  inferInstanceAs (Decidable (∀ x ∈ b, x < 128))

@[simp] theorem ascii_nil : Ascii [] := by simp [Ascii]

@[simp] theorem ascii_cons (x : UInt8) (b : Bytes) : Ascii (x :: b) ↔ x < 128 ∧ Ascii b := by
  simp [Ascii]

@[simp] theorem ascii_append (a b : Bytes) : Ascii (a ++ b) ↔ Ascii a ∧ Ascii b := by
  simp [Ascii, or_imp, forall_and]

theorem Ascii.sublist {a b : Bytes} (h : Ascii b) (sub : a.Sublist b) : Ascii a :=
  fun x hx => h x (sub.subset hx)

private theorem utf8_singleton (x : UInt8) (h : x < 128) : Utf8 [x] := by
  have hx : x.toNat < 128 := by simpa using UInt8.lt_iff_toNat_lt.mp h
  have valid : x.toNat.isValidChar := Or.inl (by omega)
  let c : Char := Char.ofNat x.toNat
  have hc : String.utf8EncodeChar c = [x] := by
    have made : c = Char.ofNatAux x.toNat valid := dif_pos valid
    have hv : c.val.toNat = x.toNat := by
      rw [made]
      rfl
    simp only [String.utf8EncodeChar, hv]
    rw [if_pos (by omega)]
    simp
  have := Char.isValidUTF8_toByteArray_utf8EncodeChar (c := c)
  rwa [hc] at this

theorem Ascii.utf8 {b : Bytes} (h : Ascii b) : Utf8 b := by
  induction b with
  | nil => exact ByteArray.isValidUTF8_empty
  | cons x b ih =>
      obtain ⟨hx, hb⟩ := (ascii_cons x b).mp h
      have joined : (x :: b).toByteArray = [x].toByteArray ++ b.toByteArray := by
        rw [← List.toByteArray_append]; rfl
      unfold Utf8
      rw [joined]
      exact (utf8_singleton x hx).append (ih hb)

/-- Lines as a text reader yields them: a line ends at a line feed, a carriage
return directly before it is dropped, and no empty line follows the last one. -/
def lines (b : Bytes) : List Bytes :=
  let parts := b.splitOn lf
  parts.dropLast.map (fun l => if l.getLast? = some cr then l.dropLast else l) ++
    if parts.getLast? = some [] then [] else parts.getLast?.toList

@[simp] theorem lines_nil : lines [] = [] := rfl

theorem lines_single {l : Bytes} (hlf : lf ∉ l) (nonempty : l ≠ []) : lines l = [l] := by
  simp [lines, List.splitOn_eq_singleton hlf, nonempty]

theorem lines_cons (l rest : Bytes) (hlf : lf ∉ l) :
    lines (l ++ lf :: rest) =
      (if l.getLast? = some cr then l.dropLast else l) :: lines rest := by
  have split := List.splitOn_append_cons_self_of_not_mem hlf rest
  obtain ⟨p, ps, h⟩ := List.exists_cons_of_ne_nil (List.splitOn_ne_nil lf rest)
  simp only [lines, split, h]
  simp

theorem lines_cons_of_not_cr (l rest : Bytes) (hlf : lf ∉ l) (hcr : cr ∉ l) :
    lines (l ++ lf :: rest) = l :: lines rest := by
  rw [lines_cons l rest hlf, if_neg]
  exact fun h => hcr (List.mem_of_getLast? h)

end Text

import Mathlib.Data.List.TakeWhile
import Mathlib.Tactic.SplitIfs
import Setdns.Text.Bytes

/-!
Texts as UTF-16 code units. A character beyond the first plane is a pair of
surrogates, and decoding fails on a surrogate that is not part of a pair. A
reader of a null-terminated text sees the units before the first zero, and only a
null character is written as a zero, here and in UTF-8.
-/

namespace Text

/-- The text that the bytes encode. -/
def text (b : Bytes) : String := if valid : Utf8 b then ⟨b.toByteArray, valid⟩ else ""

theorem text_bytes (s : String) : text (bytes s) = s := by
  have same : (bytes s).toByteArray = s.toByteArray := ByteArray.ext (by simp [bytes])
  have valid : Utf8 (bytes s) := by
    unfold Utf8
    rw [same]
    exact s.isValidUTF8
  rw [text, dif_pos valid]
  exact String.ext_iff.mpr (by simp [same])

def encodeUtf16Char (c : Char) : List UInt16 :=
  if c.toNat < 0x10000 then [UInt16.ofNat c.toNat]
  else [UInt16.ofNat (0xD800 + (c.toNat - 0x10000) / 0x400),
    UInt16.ofNat (0xDC00 + (c.toNat - 0x10000) % 0x400)]

def encodeUtf16 (s : String) : List UInt16 := s.toList.flatMap encodeUtf16Char

def IsSurrogate (unit : UInt16) : Prop := 0xD800 ≤ unit ∧ unit ≤ 0xDFFF

instance (unit : UInt16) : Decidable (IsSurrogate unit) := inferInstanceAs (Decidable (_ ∧ _))

/-- A high surrogate and a low one. -/
def IsPair (high low : UInt16) : Prop :=
  (0xD800 ≤ high ∧ high < 0xDC00) ∧ 0xDC00 ≤ low ∧ low ≤ 0xDFFF

instance (high low : UInt16) : Decidable (IsPair high low) :=
  inferInstanceAs (Decidable ((_ ∧ _) ∧ _ ∧ _))

def decodeUtf16Chars : List UInt16 → Option (List Char)
  | [] => some []
  | [unit] => if IsSurrogate unit then none else some [Char.ofNat unit.toNat]
  | unit :: next :: rest =>
      if IsSurrogate unit then
        if IsPair unit next then
          (decodeUtf16Chars rest).map (Char.ofNat
            (0x10000 + (unit.toNat - 0xD800) * 0x400 + (next.toNat - 0xDC00)) :: ·)
        else none
      else (decodeUtf16Chars (next :: rest)).map (Char.ofNat unit.toNat :: ·)

def decodeUtf16 (units : List UInt16) : Option String :=
  (decodeUtf16Chars units).map String.ofList

/-- The units before the first zero. -/
def untilNull (units : List UInt16) : List UInt16 := units.takeWhile (· ≠ 0)

theorem decodeUtf16Chars_cons {unit : UInt16} (single : ¬ IsSurrogate unit) (rest : List UInt16) :
    decodeUtf16Chars (unit :: rest) = (decodeUtf16Chars rest).map (Char.ofNat unit.toNat :: ·) := by
  cases rest with
  | nil => simp [decodeUtf16Chars, single]
  | cons next rest => rw [decodeUtf16Chars, if_neg single]

theorem decodeUtf16Chars_pair {high low : UInt16} (pair : IsPair high low) (rest : List UInt16) :
    decodeUtf16Chars (high :: low :: rest) = (decodeUtf16Chars rest).map (Char.ofNat
      (0x10000 + (high.toNat - 0xD800) * 0x400 + (low.toNat - 0xDC00)) :: ·) := by
  have surrogate : IsSurrogate high := by
    have bounds := pair.1
    simp only [UInt16.le_iff_toNat_le, UInt16.lt_iff_toNat_lt, UInt16.reduceToNat] at bounds
    simp only [IsSurrogate, UInt16.le_iff_toNat_le, UInt16.reduceToNat]
    omega
  rw [decodeUtf16Chars, if_pos surrogate, if_pos pair]

theorem decodeUtf16Chars_encode (c : Char) (rest : List UInt16) :
    decodeUtf16Chars (encodeUtf16Char c ++ rest) = (decodeUtf16Chars rest).map (c :: ·) := by
  have valid : c.toNat < 0xD800 ∨ 0xDFFF < c.toNat ∧ c.toNat < 0x110000 := c.valid
  unfold encodeUtf16Char
  split
  · rename_i plane
    have unit : (UInt16.ofNat c.toNat).toNat = c.toNat := by
      rw [UInt16.toNat_ofNat']
      omega
    have single : ¬ IsSurrogate (UInt16.ofNat c.toNat) := by
      simp only [IsSurrogate, UInt16.le_iff_toNat_le, unit, UInt16.reduceToNat]
      omega
    rw [List.singleton_append, decodeUtf16Chars_cons single, unit, Char.ofNat_toNat]
  · rename_i beyond
    have high : (UInt16.ofNat (0xD800 + (c.toNat - 0x10000) / 0x400)).toNat =
        0xD800 + (c.toNat - 0x10000) / 0x400 := by
      rw [UInt16.toNat_ofNat']
      omega
    have low : (UInt16.ofNat (0xDC00 + (c.toNat - 0x10000) % 0x400)).toNat =
        0xDC00 + (c.toNat - 0x10000) % 0x400 := by
      rw [UInt16.toNat_ofNat']
      omega
    have pair : IsPair (UInt16.ofNat (0xD800 + (c.toNat - 0x10000) / 0x400))
        (UInt16.ofNat (0xDC00 + (c.toNat - 0x10000) % 0x400)) := by
      simp only [IsPair, UInt16.le_iff_toNat_le, UInt16.lt_iff_toNat_lt, high, low,
        UInt16.reduceToNat]
      omega
    have number : 0x10000 + (0xD800 + (c.toNat - 0x10000) / 0x400 - 0xD800) * 0x400 +
        (0xDC00 + (c.toNat - 0x10000) % 0x400 - 0xDC00) = c.toNat := by
      omega
    rw [List.cons_append, List.singleton_append, decodeUtf16Chars_pair pair, high, low, number,
      Char.ofNat_toNat]

/-- Decoding inverts encoding. -/
theorem decodeUtf16_encodeUtf16 (s : String) : decodeUtf16 (encodeUtf16 s) = some s := by
  have chars : ∀ l : List Char, decodeUtf16Chars (l.flatMap encodeUtf16Char) = some l := by
    intro l
    induction l with
    | nil => rfl
    | cons c l ih => rw [List.flatMap_cons, decodeUtf16Chars_encode, ih, Option.map_some]
  rw [decodeUtf16, encodeUtf16, chars, Option.map_some, String.ofList_toList]

theorem encodeUtf16_injective : Function.Injective encodeUtf16 := by
  intro a b same
  have decoded := congrArg decodeUtf16 same
  rw [decodeUtf16_encodeUtf16, decodeUtf16_encodeUtf16] at decoded
  exact Option.some.inj decoded

/-- Only the null character has a zero unit. -/
theorem zero_mem_encodeUtf16Char (c : Char) : 0 ∈ encodeUtf16Char c ↔ c = '\x00' := by
  have valid : c.toNat < 0xD800 ∨ 0xDFFF < c.toNat ∧ c.toNat < 0x110000 := c.valid
  rw [← Char.toNat_inj, show ('\x00' : Char).toNat = 0 from rfl]
  unfold encodeUtf16Char
  split
  · simp only [List.mem_singleton, ← UInt16.toNat_inj, UInt16.toNat_ofNat',
      UInt16.toNat_zero]
    omega
  · simp only [List.mem_cons, List.not_mem_nil, or_false, ← UInt16.toNat_inj,
      UInt16.toNat_ofNat', UInt16.toNat_zero]
    omega

/-- The characters before the first null. -/
def beforeNull (s : String) : String := String.ofList (s.toList.takeWhile (· ≠ '\x00'))

theorem untilNull_encodeUtf16 (s : String) :
    untilNull (encodeUtf16 s ++ [0]) = encodeUtf16 (beforeNull s) := by
  have chars : ∀ l : List Char, untilNull (l.flatMap encodeUtf16Char ++ [0]) =
      (l.takeWhile (· ≠ '\x00')).flatMap encodeUtf16Char := by
    intro l
    induction l with
    | nil => rfl
    | cons c l ih =>
        have zero := zero_mem_encodeUtf16Char c
        by_cases null : c = '\x00'
        · subst null
          rfl
        · have units : ∀ unit ∈ encodeUtf16Char c, decide (unit ≠ 0) = true := by
            intro unit mem
            rw [decide_eq_true_eq]
            rintro rfl
            exact null (zero.mp mem)
          rw [untilNull] at ih
          rw [List.takeWhile_cons_of_pos (by simp [null]), List.flatMap_cons, List.flatMap_cons,
            untilNull, List.append_assoc, List.takeWhile_append_of_pos units, ih]
  rw [encodeUtf16, encodeUtf16, chars, beforeNull, String.toList_ofList]

theorem beforeNull_eq_iff (s : String) : beforeNull s = s ↔ '\x00' ∉ s.toList := by
  rw [beforeNull, ← String.toList_inj, String.toList_ofList, List.takeWhile_eq_self_iff]
  simp only [decide_eq_true_eq]
  exact ⟨fun free mem => free _ mem rfl, fun free c mem null => free (null ▸ mem)⟩

theorem bytes_eq (s : String) : bytes s = s.toList.flatMap String.utf8EncodeChar := by
  have encoded : s.toByteArray = (s.toList.flatMap String.utf8EncodeChar).toByteArray :=
    String.utf8Encode_toList.symm
  show s.toByteArray.data.toList = _
  rw [encoded]
  simp

theorem zero_mem_utf8EncodeChar (c : Char) : 0 ∈ String.utf8EncodeChar c ↔ c = '\x00' := by
  rw [← Char.toNat_inj, show ('\x00' : Char).toNat = 0 from rfl]
  have value : c.val.toNat = c.toNat := rfl
  unfold String.utf8EncodeChar
  simp only [value]
  split_ifs <;> simp only [List.mem_cons, List.not_mem_nil, or_false, ← UInt8.toNat_inj,
    UInt8.toNat_ofNat', UInt8.toNat_zero] <;> omega

/-- A string has a zero byte exactly where it has a null character. -/
theorem zero_mem_bytes (s : String) : 0 ∈ bytes s ↔ '\x00' ∈ s.toList := by
  simp [bytes_eq, zero_mem_utf8EncodeChar]

end Text

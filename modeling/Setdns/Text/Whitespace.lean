import Setdns.Text.Bytes

/-!
Unicode whitespace in UTF-8 text. No encoding of a whitespace character starts
with a continuation byte, so a search byte by byte finds the same characters as
a search along the characters.
-/

namespace Text

/-- The encodings of the characters with the property `White_Space`. -/
def whitespace : List Bytes :=
  [[9], [10], [11], [12], [13], [32], [0xC2, 0x85], [0xC2, 0xA0], [0xE1, 0x9A, 0x80],
    [0xE2, 0x80, 0x80], [0xE2, 0x80, 0x81], [0xE2, 0x80, 0x82], [0xE2, 0x80, 0x83],
    [0xE2, 0x80, 0x84], [0xE2, 0x80, 0x85], [0xE2, 0x80, 0x86], [0xE2, 0x80, 0x87],
    [0xE2, 0x80, 0x88], [0xE2, 0x80, 0x89], [0xE2, 0x80, 0x8A], [0xE2, 0x80, 0xA8],
    [0xE2, 0x80, 0xA9], [0xE2, 0x80, 0xAF], [0xE2, 0x81, 0x9F], [0xE3, 0x80, 0x80]]

/-- The rest behind one whitespace character. -/
def stripWhitespace (b : Bytes) : Option Bytes :=
  whitespace.findSome? fun encoding => encoding.isPrefixOf? b

def trimStartFrom : Nat → Bytes → Bytes
  | 0, b => b
  | fuel + 1, b =>
      match stripWhitespace b with
      | some rest => trimStartFrom fuel rest
      | none => b

def trimStart (b : Bytes) : Bytes := trimStartFrom b.length b

/-- The bytes up to the next whitespace character, and the rest. -/
def spanField : Bytes → Bytes × Bytes
  | [] => ([], [])
  | x :: b =>
      if (stripWhitespace (x :: b)).isSome then ([], x :: b)
      else (x :: (spanField b).1, (spanField b).2)

def splitWhitespaceFrom : Nat → Bytes → List Bytes
  | 0, _ => []
  | fuel + 1, b =>
      match trimStart b with
      | [] => []
      | x :: rest => (spanField (x :: rest)).1 :: splitWhitespaceFrom fuel (spanField (x :: rest)).2

def splitWhitespace (b : Bytes) : List Bytes := splitWhitespaceFrom b.length b

/-- A byte that begins no whitespace character. -/
def Solid (x : UInt8) : Prop := ∀ encoding ∈ whitespace, encoding.head? ≠ some x

instance (x : UInt8) : Decidable (Solid x) := inferInstanceAs (Decidable (∀ e ∈ whitespace, _))

variable {x : UInt8} {b field rest : Bytes}

@[simp] theorem stripWhitespace_nil : stripWhitespace [] = none := rfl

theorem stripWhitespace_solid (solid : Solid x) (b : Bytes) : stripWhitespace (x :: b) = none := by
  refine List.findSome?_eq_none_iff.mpr fun encoding mem => ?_
  have other := solid encoding mem
  cases encoding with
  | nil => exact absurd mem (by decide)
  | cons y tail =>
      have ne : (y == x) = false := beq_eq_false_iff_ne.mpr fun same => other (by simp [same])
      simp [List.isPrefixOf?, ne]

theorem trimStart_solid (solid : Solid x) (b : Bytes) : trimStart (x :: b) = x :: b := by
  rw [trimStart, List.length_cons, trimStartFrom, stripWhitespace_solid solid]

/-- A field reaches up to the whitespace behind it. -/
theorem spanField_append (solid : ∀ x ∈ field, Solid x)
    (ends : rest = [] ∨ (stripWhitespace rest).isSome) :
    spanField (field ++ rest) = (field, rest) := by
  induction field with
  | nil =>
      cases rest with
      | nil => rfl
      | cons y tail =>
          have space : (stripWhitespace (y :: tail)).isSome := ends.resolve_left (by simp)
          rw [List.nil_append, spanField, if_pos space]
  | cons x field ih =>
      obtain ⟨first, others⟩ := List.forall_mem_cons.mp solid
      rw [List.cons_append, spanField, stripWhitespace_solid first, ih others]
      simp

/-- Two fields with one space between them. -/
theorem splitWhitespace_pair {x y : UInt8} {first second : Bytes}
    (solid : ∀ z ∈ x :: first, Solid z) (solid' : ∀ z ∈ y :: second, Solid z) :
    splitWhitespace (x :: first ++ 32 :: (y :: second)) = [x :: first, y :: second] := by
  have space : ∀ b, stripWhitespace (32 :: b) = some b := fun b => rfl
  have next : trimStart (32 :: y :: second) = y :: second := by
    simp only [trimStart, List.length_cons, trimStartFrom, space,
      stripWhitespace_solid (solid' y List.mem_cons_self)]
  have one : spanField (x :: first ++ 32 :: y :: second) = (x :: first, 32 :: y :: second) :=
    spanField_append solid (.inr (by rw [space]; rfl))
  have two : spanField (y :: second) = (y :: second, []) := by
    simpa using spanField_append solid' (.inl rfl)
  rw [splitWhitespace, List.length_append, List.length_cons, List.length_cons, List.length_cons,
    show first.length + 1 + (second.length + 1 + 1) =
      first.length + second.length + 1 + 1 + 1 by omega,
    splitWhitespaceFrom, List.cons_append, trimStart_solid (solid x List.mem_cons_self)]
  simp only [← List.cons_append, one]
  rw [splitWhitespaceFrom, next]
  simp only [two]
  rfl

example : splitWhitespace (bytes " options\tedns0  trust-ad") =
    [bytes "options", bytes "edns0", bytes "trust-ad"] := by decide

end Text

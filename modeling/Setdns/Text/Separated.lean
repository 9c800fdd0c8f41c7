import Setdns.Text.Bytes

/-!
Texts put together with a separator between them, and taken apart again. A text
is pushed behind the earlier ones, and the separator only where there is already
something. So an empty result says that there was no text, as long as no text is
empty itself.
-/

namespace Text

variable {separator : UInt8} {texts : List Bytes}

def push (separator : UInt8) (result text : Bytes) : Bytes :=
  (if result.isEmpty then result else result ++ [separator]) ++ text

/-- The texts between the separators. There are none in an empty text. -/
def pieces (separator : UInt8) (text : Bytes) : List Bytes :=
  if text.isEmpty then [] else text.splitOn separator

theorem push_of_ne_nil {result : Bytes} (h : result ≠ []) (text : Bytes) :
    push separator result text = result ++ separator :: text := by
  simp [push, h]

theorem foldl_push_of_ne_nil {result : Bytes} (h : result ≠ []) :
    texts.foldl (push separator) result = [separator].intercalate (result :: texts) := by
  induction texts generalizing result with
  | nil => simp
  | cons text texts ih =>
      rw [List.foldl_cons, push_of_ne_nil h, ih (by simp), List.intercalate_cons_cons]
      cases texts with
      | nil => simp
      | cons next texts => simp [List.intercalate_cons_cons]

theorem foldl_push (nonempty : ∀ text ∈ texts, text ≠ []) :
    texts.foldl (push separator) [] = [separator].intercalate texts := by
  cases texts with
  | nil => rfl
  | cons text texts => exact foldl_push_of_ne_nil (nonempty text (List.mem_cons_self ..))

theorem intercalate_eq_nil_iff (nonempty : ∀ text ∈ texts, text ≠ []) :
    [separator].intercalate texts = [] ↔ texts = [] := by
  cases texts with
  | nil => simp
  | cons text texts =>
      have first : text ≠ [] := nonempty text (List.mem_cons_self ..)
      cases texts with
      | nil => simp [first]
      | cons next texts => simp [List.intercalate_cons_cons]

/-- Taking apart gives the texts back. -/
theorem pieces_intercalate (nonempty : ∀ text ∈ texts, text ≠ [])
    (free : ∀ text ∈ texts, separator ∉ text) :
    pieces separator ([separator].intercalate texts) = texts := by
  unfold pieces
  split
  · rename_i empty
    exact ((intercalate_eq_nil_iff nonempty).mp (List.isEmpty_iff.mp empty)).symm
  · rename_i text
    have some : texts ≠ [] := by
      rintro rfl
      exact text rfl
    exact List.splitOn_intercalate separator free some

end Text

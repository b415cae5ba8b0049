import Mathlib.Tactic

/-!
# C strings

`strlen` of `sys/string.c`, and `memcpy` of `mm/memop.c` as it is used on strings.  A string is the
list of its bytes from a pointer on, up to its `NUL` at least.
-/

namespace Soaplin

/-- The bytes of a string literal. -/
def cString (s : String) : List UInt8 := s.toUTF8.toList ++ [0]

/-- `strlen`.  The count includes the `NUL`. -/
def strlen : List UInt8 → ℕ
  | [] => 0
  | b :: str => if b ≠ 0 then strlen str + 1 else 1

/-- The text of the string in a buffer: the bytes before its `NUL`, if the buffer has one. -/
def cText : List UInt8 → Option (List UInt8)
  | [] => none
  | b :: str => if b = 0 then some [] else (cText str).map (b :: ·)

/-- `memcpy(dest, src, n)` on the bytes of a buffer `dest`. -/
def copyBytes (dest src : List UInt8) (n : ℕ) : List UInt8 := src.take n ++ dest.drop n

variable {str text rest : List UInt8}

/-- Bytes that are not `NUL` come before the text of the rest. -/
lemma cText_append (htext : 0 ∉ text) : cText (text ++ str) = (cText str).map (text ++ ·) := by
  induction text with
  | nil => simp
  | cons b text ih =>
    obtain ⟨hb, hrest⟩ : b ≠ 0 ∧ 0 ∉ text := by
      simpa [eq_comm, not_or] using htext
    rw [List.cons_append, cText, if_neg hb, ih hrest, Option.map_map]
    rfl

/-- The text in front of a `NUL`. -/
lemma cText_append_nul (htext : 0 ∉ text) : cText (text ++ 0 :: rest) = some text := by
  rw [cText_append htext, cText, if_pos rfl, Option.map_some, List.append_nil]

/-- `strlen` counts the text and the `NUL`. -/
lemma strlen_append_nul (htext : 0 ∉ text) : strlen (text ++ 0 :: rest) = text.length + 1 := by
  induction text with
  | nil => simp [strlen]
  | cons b text ih =>
    obtain ⟨hb, hrest⟩ : b ≠ 0 ∧ 0 ∉ text := by
      simpa [eq_comm, not_or] using htext
    rw [List.cons_append, strlen, if_pos hb, ih hrest, List.length_cons]

/-- So `strlen` bytes of a string are its text and the `NUL`. -/
lemma take_strlen (h : cText str = some text) : str.take (strlen str) = text ++ [0] := by
  induction str generalizing text with
  | nil => cases h
  | cons b str ih =>
    by_cases hb : b = 0
    · rw [cText, if_pos hb] at h
      cases h
      rw [strlen, if_neg (not_not.mpr hb), hb]
      rfl
    · rw [cText, if_neg hb] at h
      obtain ⟨text, htext, rfl⟩ := Option.map_eq_some_iff.mp h
      rw [strlen, if_pos hb, List.take_succ_cons, ih htext]
      rfl

end Soaplin

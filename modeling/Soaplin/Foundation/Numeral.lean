import Mathlib.Tactic
import Mathlib.Data.Nat.Digits.Lemmas

/-!
# Positional numerals

Mathlib's `Nat.digits` lists the digits of a number from the least significant one on.  A numeral is
written the other way round: `value b ds` is the number that the digits `ds` denote when the most
significant one comes first, which is what a loop `n = n * b + d` computes.  `read` reads a numeral
at the start of a text, in any alphabet whose symbols are recognised by a function `digit`;
it reads back a number written with leading zeros (`read_numeral`).
-/

namespace Numeral

variable {α : Type*} {b n k : ℕ} {ds : List ℕ} {digit : α → Option ℕ} {glyph : ℕ → α}
  {rest : List α}

/-- The number with the digits `ds` to the base `b`, the most significant one first. -/
def value (b : ℕ) (ds : List ℕ) : ℕ := ds.foldl (fun n d => n * b + d) 0

/-- The value in terms of the list of digits from the least significant one on. -/
lemma value_eq_ofDigits (b : ℕ) (ds : List ℕ) : value b ds = Nat.ofDigits b ds.reverse := by
  induction ds using List.reverseRecOn with
  | nil => rfl
  | append_singleton ds d ih =>
    have hstep : value b (ds ++ [d]) = value b ds * b + d := by
      simp [value, List.foldl_append]
    rw [hstep, ih, List.reverse_append, List.reverse_singleton, List.singleton_append,
      Nat.ofDigits_cons]
    ring

/-- More digits behind a numeral. -/
lemma value_append (b : ℕ) (ds es : List ℕ) :
    value b (ds ++ es) = value b ds * b ^ es.length + value b es := by
  rw [value_eq_ofDigits, List.reverse_append, Nat.ofDigits_append, ← value_eq_ofDigits,
    ← value_eq_ofDigits, List.length_reverse]
  ring

/-- Zeros denote zero. -/
lemma value_replicate_zero (b k : ℕ) : value b (List.replicate k 0) = 0 := by
  induction k with
  | zero => rfl
  | succ k ih =>
    rw [List.replicate_succ', value_append, ih]
    simp [value]

/-- Zeros in front of a numeral do not change its value. -/
lemma value_replicate_zero_append (b k : ℕ) (ds : List ℕ) :
    value b (List.replicate k 0 ++ ds) = value b ds := by
  rw [value_append, value_replicate_zero, Nat.zero_mul, Nat.zero_add]

/-- The digits of a number denote it. -/
lemma value_reverse_digits (b n : ℕ) : value b (Nat.digits b n).reverse = n := by
  rw [value_eq_ofDigits, List.reverse_reverse, Nat.ofDigits_digits]

/-! ### Reading a text -/

/-- The digits at the start of a text. -/
def leadingDigits (digit : α → Option ℕ) : List α → List ℕ
  | [] => []
  | a :: text =>
    match digit a with
    | some d => d :: leadingDigits digit text
    | none => []

/-- The number at the start of a text. -/
def read (digit : α → Option ℕ) (b : ℕ) (text : List α) : ℕ := value b (leadingDigits digit text)

/-- The text does not go on with a digit. -/
def NoDigit (digit : α → Option ℕ) (rest : List α) : Prop := ∀ a ∈ rest.head?, digit a = none

/-- There is no digit at the start. -/
lemma leadingDigits_of_noDigit (h : NoDigit digit rest) : leadingDigits digit rest = [] := by
  cases rest with
  | nil => rfl
  | cons a rest =>
    have ha : digit a = none := h a rfl
    rw [leadingDigits, ha]

/-- Glyphs are read as the digits that they stand for. -/
lemma leadingDigits_map_append (hds : ∀ d ∈ ds, digit (glyph d) = some d) (hrest : NoDigit digit rest) :
    leadingDigits digit (ds.map glyph ++ rest) = ds := by
  induction ds with
  | nil => exact leadingDigits_of_noDigit hrest
  | cons d ds ih =>
    rw [List.map_cons, List.cons_append, leadingDigits, hds d List.mem_cons_self]
    exact congrArg (d :: ·) (ih fun e he => hds e (List.mem_cons_of_mem d he))

/-- A numeral with leading zeros is read back. -/
theorem read_numeral (hb : 1 < b) (hglyph : ∀ d < b, digit (glyph d) = some d)
    (hrest : NoDigit digit rest) (k n : ℕ) :
    read digit b (List.replicate k (glyph 0) ++ (Nat.digits b n).reverse.map glyph ++ rest) = n := by
  have hdigits : ∀ d ∈ List.replicate k 0 ++ (Nat.digits b n).reverse, digit (glyph d) = some d := by
    intro d hd
    apply hglyph
    rcases List.mem_append.mp hd with hd | hd
    · rw [List.eq_of_mem_replicate hd]
      omega
    · exact Nat.digits_lt_base hb (List.mem_reverse.mp hd)
  rw [← List.map_replicate, ← List.map_append, read, leadingDigits_map_append hdigits hrest,
    value_replicate_zero_append, value_reverse_digits]

end Numeral

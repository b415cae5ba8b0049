import Mathlib.Tactic

/-!
# Unsigned 64-bit arithmetic on natural numbers

A machine word is a natural number below `2 ^ 64`.  `wadd` and `wsub` are the wrapping sum and
difference of C's `uint64_t`; the lemmas below say when no wrap happens and that a displacement is
undone by the opposite one.  The last section reads the bits of a word by division, which is the
form in which `omega` handles them.
-/

namespace Word64

/-- The number of values of a 64-bit word. -/
abbrev modulus : ℕ := 2 ^ 64

/-- Wrapping addition of two words. -/
def wadd (a b : ℕ) : ℕ := (a + b) % modulus

/-- Wrapping subtraction of two words. -/
def wsub (a b : ℕ) : ℕ := (a + (modulus - b % modulus)) % modulus

/-- A sum that fits in a word does not wrap. -/
lemma wadd_of_lt {a b : ℕ} (h : a + b < modulus) : wadd a b = a + b :=
  Nat.mod_eq_of_lt h

/-- A wrapping sum is a word. -/
lemma wadd_lt (a b : ℕ) : wadd a b < modulus :=
  Nat.mod_lt _ (by decide)

/-- A wrapping difference is a word. -/
lemma wsub_lt (a b : ℕ) : wsub a b < modulus :=
  Nat.mod_lt _ (by decide)

/-- Subtracting a smaller word does not wrap. -/
lemma wsub_of_le {a b : ℕ} (h : b ≤ a) (ha : a < modulus) : wsub a b = a - b := by
  simp only [wsub, modulus] at *
  omega

/-- A displacement by `d` is undone by subtracting `d`. -/
lemma wsub_wadd_cancel {a : ℕ} (d : ℕ) (ha : a < modulus) : wsub (wadd a d) d = a := by
  simp only [wsub, wadd, modulus] at *
  omega

/-- Subtracting `d` is undone by a displacement by `d`. -/
lemma wadd_wsub_cancel {a : ℕ} (d : ℕ) (ha : a < modulus) : wadd (wsub a d) d = a := by
  simp only [wsub, wadd, modulus] at *
  omega

/-- An offset added after a displacement may be added before it. -/
lemma wsub_wadd_wadd {a k : ℕ} (d : ℕ) (ha : a + k < modulus) :
    wsub (wadd (wadd a d) k) d = a + k := by
  simp only [wsub, wadd, modulus] at *
  omega

/-! ### Bits by division -/

/-- A field of `k` bits starting at bit `n` is a remainder of a quotient. -/
lemma shiftRight_and_mask (v n k : ℕ) : (v >>> n) &&& (2 ^ k - 1) = v / 2 ^ n % 2 ^ k := by
  rw [Nat.and_two_pow_sub_one_eq_mod, Nat.shiftRight_eq_div_pow]

/-- The mask `2 ^ n * (2 ^ k - 1)` keeps the `k` bits from bit `n` on, in place. -/
lemma and_shifted_mask (v n k : ℕ) :
    v &&& (2 ^ n * (2 ^ k - 1)) = 2 ^ n * (v / 2 ^ n % 2 ^ k) := by
  apply Nat.eq_of_testBit_eq
  intro i
  rw [Nat.testBit_and, Nat.testBit_two_pow_mul, Nat.testBit_two_pow_mul, Nat.testBit_two_pow_sub_one,
    Nat.testBit_mod_two_pow, Nat.testBit_div_two_pow]
  by_cases hi : n ≤ i
  · have hsum : i - n + n = i := Nat.sub_add_cancel hi
    simp [hi, hsum, Bool.and_comm]
  · simp [hi]

/-- Or-ing flags below `2 ^ n` into a multiple of `2 ^ n` is addition. -/
lemma or_eq_add_of_dvd {a b n : ℕ} (ha : a % 2 ^ n = 0) (hb : b < 2 ^ n) : a ||| b = a + b := by
  have h := Nat.two_pow_add_eq_or_of_lt hb (a / 2 ^ n)
  have ha' : 2 ^ n * (a / 2 ^ n) = a := by
    have := Nat.div_add_mod a (2 ^ n)
    omega
  rw [ha'] at h
  exact h.symm

end Word64

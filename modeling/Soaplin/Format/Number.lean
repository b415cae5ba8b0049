import Soaplin.Foundation.Numeral
import Soaplin.Format.Layout

/-!
# The digits of a number

`npf_utoa_rev` writes the digits that Mathlib's `Nat.digits` lists, and `0` for zero; the loop over the
bits of a binary conversion writes those to the base 2 (`npfUtoaRev_eq`, `binaryText_npfBinLen`).
Either way the payload of a number is a numeral: zeros and then its digits.  The numbers of 64 bits
fit in the conversion buffer, also with the leading zero of the octal form.
-/

namespace Soaplin

open Numeral

/-- `NANOPRINTF_CONVERSION_BUFFER_SIZE`. -/
def npfConversionBufferSize : ℕ := 23

/-! ### The loop of `npf_utoa_rev` -/

variable {base n : ℕ} {caseAdj : UInt8} {text : List UInt8}

lemma npfGlyph_zero (caseAdj : UInt8) : npfGlyph caseAdj 0 = ch '0' := rfl

/-- The digits that `npf_utoa_rev` writes. -/
theorem npfUtoaRev_eq (val : ℕ) (hbase : 1 < base) (caseAdj : UInt8) :
    npfUtoaRev val base hbase caseAdj =
      if val = 0 then [ch '0'] else (Nat.digits base val).map (npfGlyph caseAdj) := by
  induction val using Nat.strong_induction_on with
  | _ val ih =>
    rw [npfUtoaRev]
    by_cases hval : val = 0
    · subst hval
      rw [if_pos (Nat.zero_div base), if_pos rfl, Nat.zero_mod]
      rfl
    · have hpos : 0 < val := Nat.pos_of_ne_zero hval
      rw [if_neg hval, Nat.digits_def' hbase hpos, List.map_cons]
      by_cases hlast : val / base = 0
      · rw [if_pos hlast, hlast, Nat.digits_zero, List.map_nil]
      · rw [if_neg hlast, ih (val / base) (Nat.div_lt_self hpos hbase), if_neg hlast]

/-- The number of digits is bounded as for `Nat.digits`. -/
lemma length_npfUtoaRev_le {val k : ℕ} (hbase : 1 < base) (hk : 0 < k) (hval : val < base ^ k) :
    (npfUtoaRev val base hbase caseAdj).length ≤ k := by
  rw [npfUtoaRev_eq]
  split
  · exact hk
  · rw [List.length_map]
    exact (Nat.digits_length_le_iff hbase val).mpr hval

/-! ### Numerals -/

/-- The text is that of `n` to the base `base`, with any number of leading zeros. -/
def IsNumeral (base : ℕ) (caseAdj : UInt8) (n : ℕ) (text : List UInt8) : Prop :=
  ∃ k, text = List.replicate k (ch '0') ++ (Nat.digits base n).reverse.map (npfGlyph caseAdj)

lemma isNumeral_nil : IsNumeral base caseAdj 0 [] := ⟨0, by simp⟩

/-- More leading zeros. -/
lemma IsNumeral.zeros (h : IsNumeral base caseAdj n text) (j : ℕ) :
    IsNumeral base caseAdj n (List.replicate j (ch '0') ++ text) := by
  obtain ⟨k, rfl⟩ := h
  exact ⟨j + k, by rw [← List.append_assoc, List.replicate_append_replicate]⟩

/-- Zeros behind a numeral multiply the number. -/
lemma IsNumeral.append_zeros (h : IsNumeral base caseAdj n text) (hbase : 1 < base) (j : ℕ) :
    IsNumeral base caseAdj (n * base ^ j) (text ++ List.replicate j (ch '0')) := by
  obtain ⟨k, rfl⟩ := h
  rcases Nat.eq_zero_or_pos n with rfl | hn
  · exact ⟨k + j, by simp [List.replicate_append_replicate]⟩
  · refine ⟨k, ?_⟩
    rw [Nat.mul_comm, Nat.digits_base_pow_mul hbase hn, List.reverse_append, List.map_append,
      List.reverse_replicate, List.map_replicate, npfGlyph_zero, List.append_assoc]

/-- The payload of `npf_utoa_rev` is a numeral. -/
lemma isNumeral_npfUtoaRev (val : ℕ) (hbase : 1 < base) (caseAdj : UInt8) :
    IsNumeral base caseAdj val (npfUtoaRev val base hbase caseAdj).reverse := by
  rw [npfUtoaRev_eq]
  split
  · next hval =>
    subst hval
    exact ⟨1, by simp⟩
  · exact ⟨0, by rw [List.map_reverse]; rfl⟩

/-! ### Binary numbers -/

/-- The character of a bit. -/
lemma bitByte_eq (u : BitVec 64) (i : ℕ) (caseAdj : UInt8) :
    bitByte u i = npfGlyph caseAdj (u.toNat / 2 ^ i % 2) := by
  have hbit : (u >>> i &&& 1).toNat = u.toNat / 2 ^ i % 2 := by
    rw [BitVec.toNat_and, BitVec.toNat_ushiftRight, Nat.shiftRight_eq_div_pow]
    exact Nat.and_one_is_mod _
  have hdigit : u.toNat / 2 ^ i % 2 < 10 := by omega
  rw [npfGlyph, if_pos hdigit, bitByte]
  congr 1
  apply UInt8.toNat_inj.mp
  rw [UInt8.toNat_ofBitVec, BitVec.toNat_setWidth, hbit, UInt8.toNat_ofNat']

/-- The number of bits is the number of binary digits. -/
lemma npfBinLen_eq {u : BitVec 64} (hu : u ≠ 0) : npfBinLen u = (Nat.digits 2 u.toNat).length := by
  have hlow : 2 ^ (64 - 1 - u.clz.toNat) ≤ u.toNat :=
    BitVec.two_pow_sub_clz_le_toNat_of_ne_zero (by decide) hu
  have hhigh : u.toNat < 2 ^ (64 - u.clz.toNat) := BitVec.toNat_lt_two_pow_sub_clz
  have hle := (Nat.digits_length_le_iff (by decide) u.toNat).mpr hhigh
  have hlt := (Nat.lt_digits_length_iff (by decide) u.toNat).mpr hlow
  rw [npfBinLen, if_neg hu]
  omega

/-- The payload of a binary conversion is a numeral. -/
lemma isNumeral_binaryText (u : BitVec 64) (caseAdj : UInt8) :
    IsNumeral 2 caseAdj u.toNat (binaryText u (npfBinLen u)) := by
  by_cases hu : u = 0
  · subst hu
    have hzero : binaryText 0 (npfBinLen 0) = [ch '0'] := by decide
    exact ⟨1, hzero.trans (by simp)⟩
  · refine ⟨0, ?_⟩
    have hbits : (List.range (npfBinLen u)).map (bitByte u) =
        (Nat.digits 2 u.toNat).map (npfGlyph caseAdj) := by
      apply List.ext_getElem
      · rw [List.length_map, List.length_map, List.length_range, npfBinLen_eq hu]
      · intro i hi hi'
        have hdigit := Nat.getD_digits u.toNat i (b := 2) le_rfl
        rw [List.length_map] at hi'
        rw [List.getD_eq_getElem?_getD, List.getElem?_eq_getElem hi', Option.getD_some] at hdigit
        rw [List.getElem_map, List.getElem_map, List.getElem_range, bitByte_eq u i caseAdj, hdigit]
    rw [binaryText, hbits, List.map_reverse]
    rfl

end Soaplin

import Soaplin.Format.Semantics
import Soaplin.Runtime

/-!
# Printing into a buffer

`npf_vsnprintf` leaves the output of the format in the buffer, cut off one byte before the end, and a
`NUL` behind it; the bytes behind that `NUL` are those of before, but for the last one, which is always
cleared (`npfVsnprintf_some_iff`).  So the buffer holds a string whatever is printed
(`cText_bufferAfter`), and the result is the length that the output would have had.
-/

namespace Soaplin

/-- The buffer `dst` after the bytes `out` have been put into it. -/
def bufferFilled (dst out : List UInt8) : List UInt8 :=
  out.take dst.length ++ dst.drop out.length

/-- The buffer `dst` after the output `out`. -/
def bufferAfter (dst out : List UInt8) : List UInt8 :=
  (bufferFilled dst (out ++ [0])).set (dst.length - 1) 0

variable {dst out : List UInt8}

lemma length_bufferFilled (dst out : List UInt8) : (bufferFilled dst out).length = dst.length := by
  rw [bufferFilled, List.length_append, List.length_take, List.length_drop]
  omega

/-- The context after the bytes `out`. -/
lemma npfBufputc_filled (dst out : List UInt8) (b : UInt8) :
    npfBufputc b ⟨bufferFilled dst out, dst.length, min out.length dst.length⟩ =
      ⟨bufferFilled dst (out ++ [b]), dst.length, min (out ++ [b]).length dst.length⟩ := by
  rw [npfBufputc, List.length_append, List.length_singleton]
  by_cases hroom : out.length < dst.length
  · rw [if_pos (by simp only; omega), min_eq_left hroom.le, min_eq_left hroom]
    congr 1
    rw [bufferFilled, bufferFilled, List.take_of_length_le hroom.le,
      List.take_of_length_le (by simpa using hroom), List.length_append, List.length_singleton,
      List.set_append_right _ _ le_rfl, Nat.sub_self, List.drop_eq_getElem_cons hroom,
      List.set_cons_zero, List.append_assoc, List.singleton_append]
  · rw [if_neg (by simp only; omega), min_eq_right (by omega), min_eq_right (by omega)]
    congr 1
    rw [bufferFilled, bufferFilled, List.take_append_of_le_length (by omega),
      List.drop_of_length_le (by omega), List.drop_of_length_le (by simp; omega)]

/-- Bytes put into an empty buffer context. -/
lemma foldl_npfBufputc (dst out : List UInt8) :
    out.foldl (fun bpc b => npfBufputc b bpc) ⟨dst, dst.length, 0⟩ =
      ⟨bufferFilled dst out, dst.length, min out.length dst.length⟩ := by
  induction out using List.reverseRecOn with
  | nil => simp [bufferFilled]
  | append_singleton out b ih =>
    rw [List.foldl_append, ih]
    exact npfBufputc_filled dst out b

/-- The `NUL` is put behind the bytes. -/
lemma npfBufputc_nul (dst out : List UInt8) :
    (npfBufputc 0 (out.foldl (fun bpc b => npfBufputc b bpc) ⟨dst, dst.length, 0⟩)).dst =
      bufferFilled dst (out ++ [0]) := by
  rw [foldl_npfBufputc, npfBufputc_filled]

/-- The last byte is cleared, if there is one. -/
lemma bufferAfter_eq (dst out : List UInt8) :
    (if dst.length ≠ 0 then (bufferFilled dst (out ++ [0])).set (dst.length - 1) 0
      else bufferFilled dst (out ++ [0])) = bufferAfter dst out := by
  rw [bufferAfter]
  split
  · rfl
  · next hempty =>
    have hnil : bufferFilled dst (out ++ [0]) = [] := by
      rw [← List.length_eq_zero_iff, length_bufferFilled]
      omega
    rw [hnil, List.set_nil]

/-- What is left in a buffer is what the format means. -/
lemma prints_of_npfVsnprintf {format : List UInt8} {args : List VaArg} {buf : List UInt8} {n : ℕ}
    (h : npfVsnprintf (some dst) dst.length format args = some (some buf, n)) :
    ∃ out, FormatPrints format args out ∧ out.length ≤ intMax ∧ n = out.length ∧
      buf = bufferAfter dst out := by
  unfold npfVsnprintf at h
  dsimp only at h
  obtain ⟨s, hrun, hret⟩ := Option.bind_eq_some_iff.mp h
  obtain ⟨out, hprints, hlen, rfl⟩ := prints_of_npfVpprintf npfBufputc hrun
  simp only [npfBufputc_nul, bufferAfter_eq, Option.pure_def, Option.some.injEq,
    Prod.mk.injEq] at hret
  exact ⟨out, hprints, hlen, hret.2.symm, hret.1.symm⟩

/-- What the format means is left in the buffer. -/
lemma npfVsnprintf_of_prints (dst : List UInt8) {format out : List UInt8} {args : List VaArg}
    (h : FormatPrints format args out) (hlen : out.length ≤ intMax) :
    npfVsnprintf (some dst) dst.length format args =
      some (some (bufferAfter dst out), out.length) := by
  unfold npfVsnprintf
  dsimp only
  rw [npfVpprintf_of_prints npfBufputc ⟨dst, dst.length, 0⟩ h hlen]
  change some (_, _) = _
  simp only [npfBufputc_nul, bufferAfter_eq]

/-- `npf_vsnprintf` with a buffer: the output is left in the buffer, as far as it fits, and the result
is its length. -/
theorem npfVsnprintf_some_iff (dst format : List UInt8) (args : List VaArg) (buf : List UInt8)
    (n : ℕ) :
    npfVsnprintf (some dst) dst.length format args = some (some buf, n) ↔
      ∃ out, FormatPrints format args out ∧ out.length ≤ intMax ∧ n = out.length ∧
        buf = bufferAfter dst out := by
  constructor
  · exact prints_of_npfVsnprintf
  · rintro ⟨out, hprints, hlen, rfl, rfl⟩
    exact npfVsnprintf_of_prints dst hprints hlen

/-- The length that the output would have is the same without a buffer. -/
theorem npfVsnprintf_none_iff (bufsz : ℕ) (format : List UInt8) (args : List VaArg) (n : ℕ) :
    npfVsnprintf none bufsz format args = some (none, n) ↔
      ∃ out, FormatPrints format args out ∧ out.length ≤ intMax ∧ n = out.length := by
  unfold npfVsnprintf
  constructor
  · intro h
    obtain ⟨s, hrun, hret⟩ := Option.bind_eq_some_iff.mp h
    obtain ⟨out, hprints, hlen, rfl⟩ := prints_of_npfVpprintf npfBufputcNop hrun
    cases hret
    exact ⟨out, hprints, hlen, rfl⟩
  · rintro ⟨out, hprints, hlen, rfl⟩
    rw [npfVpprintf_of_prints npfBufputcNop ⟨[], bufsz, 0⟩ hprints hlen]
    rfl

/-! ### The string in the buffer -/

/-- Text before a `NUL`. -/
lemma cText_nul (text rest : List UInt8) :
    cText (text ++ 0 :: rest) = some (text.takeWhile (· ≠ 0)) := by
  induction text with
  | nil => rfl
  | cons b text ih =>
    rw [List.cons_append, cText]
    by_cases hb : b = 0
    · rw [if_pos hb, List.takeWhile_cons_of_neg (by simpa using hb)]
    · rw [if_neg hb, ih, List.takeWhile_cons_of_pos (by simpa using hb)]
      rfl

/-- The buffer holds the output, cut off before its last byte: a string, whatever the output is. -/
theorem cText_bufferAfter (hdst : dst ≠ []) (out : List UInt8) :
    cText (bufferAfter dst out) = some ((out.take (dst.length - 1)).takeWhile (· ≠ 0)) := by
  have hpos : 0 < dst.length := List.length_pos_of_ne_nil hdst
  by_cases hroom : out.length < dst.length
  · -- the output fits, with its `NUL`
    have hfilled : bufferFilled dst (out ++ [0]) = out ++ 0 :: dst.drop (out.length + 1) := by
      rw [bufferFilled, List.take_of_length_le (by simpa using hroom), List.length_append,
        List.length_singleton, List.append_assoc, List.singleton_append]
    rw [bufferAfter, hfilled, List.take_of_length_le (by omega)]
    rw [List.set_append_right _ _ (by omega)]
    cases hk : dst.length - 1 - out.length with
    | zero => exact cText_nul out _
    | succ k => exact cText_nul out _
  · -- the output is cut off
    have hfilled : bufferFilled dst (out ++ [0]) = out.take dst.length := by
      rw [bufferFilled, List.take_append_of_le_length (by omega),
        List.drop_of_length_le (by simp; omega), List.append_nil]
    have hsplit : out.take dst.length =
        out.take (dst.length - 1) ++ (out.take dst.length).drop (dst.length - 1) := by
      have h := (List.take_append_drop (dst.length - 1) (out.take dst.length)).symm
      rwa [List.take_take, min_eq_left (by omega)] at h
    have hlen : (out.take (dst.length - 1)).length = dst.length - 1 := by
      rw [List.length_take]
      omega
    rw [bufferAfter, hfilled, hsplit, List.set_append_right _ _ hlen.le, hlen, Nat.sub_self]
    cases hrest : (out.take dst.length).drop (dst.length - 1) with
    | nil =>
      have hzero := congrArg List.length hrest
      rw [List.length_drop, List.length_take, List.length_nil] at hzero
      omega
    | cons b rest => exact cText_nul _ rest

end Soaplin

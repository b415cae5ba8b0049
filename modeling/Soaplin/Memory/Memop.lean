import Soaplin.Foundation.OrderedCopy
import Soaplin.Foundation.ByteMemory

/-!
# Moving bytes

`memmove` of `mm/memop.c`.  It goes up when the source lies above the destination and down when it
lies below.  Both loops are ordered copies in the sense of `OrderedCopy`; in the direction that is
chosen no byte is read after it was written, so whatever the overlap the bytes are copied as if
through a snapshot (`memmove_snapshot`).
-/

namespace Soaplin

open Word64 ByteMemory OrderedCopy

/-! ### The model -/

/-- The first `i` iterations of the loop of `memmove` that goes up. -/
def moveUp (m : Memory) (pdest psrc : ℕ) : ℕ → Memory
  | 0 => m
  | i + 1 =>
    let m := moveUp m pdest psrc i
    Function.update m (wadd pdest i) (m (wadd psrc i))

/-- The loop of `memmove` that goes down, from the value `i` of its counter on. -/
def moveDown (m : Memory) (pdest psrc : ℕ) : ℕ → Memory
  | 0 => m
  | i + 1 => moveDown (Function.update m (wadd pdest i) (m (wadd psrc i))) pdest psrc i

/-- `memmove`: its result and the memory. -/
def memmove (m : Memory) (dest src n : ℕ) : ℕ × Memory :=
  if src > dest then (dest, moveUp m dest src n)
  else if src < dest then (dest, moveDown m dest src n)
  else (dest, m)

variable {m : Memory} {dest src n i j : ℕ}

/-! ### The loops as ordered copies -/

/-- The loop that goes up takes the indices in their order. -/
lemma moveUp_eq_copyAlong (m : Memory) (dest src n : ℕ) :
    moveUp m dest src n = copyAlong (wadd dest) (wadd src) (List.range n) m :=
  eq_copyAlong_range (fun _ => rfl) n

/-- The loop that goes down takes them in the opposite order. -/
lemma moveDown_eq_copyAlong (m : Memory) (dest src n : ℕ) :
    moveDown m dest src n = copyAlong (wadd dest) (wadd src) (List.range n).reverse m := by
  induction n generalizing m with
  | zero => rfl
  | succ n ih =>
    rw [moveDown, ih, List.range_succ, List.reverse_append]
    rfl

/-- Two addresses in ranges that do not wrap are equal only if the sums are. -/
lemma wadd_ne_wadd {a b : ℕ} (ha : a + i < modulus) (hb : b + j < modulus)
    (hne : a + i ≠ b + j) : wadd a i ≠ wadd b j := by
  rw [wadd_of_lt ha, wadd_of_lt hb]
  exact hne

/-- The indices of a range in their order. -/
lemma pairwise_range_lt (n : ℕ) : (List.range n).Pairwise fun i j => i < j ∧ j < n :=
  List.pairwise_lt_range.imp_of_mem fun _ hj hij => ⟨hij, List.mem_range.mp hj⟩

/-- Going up, a source above the destination is read before it is overwritten. -/
lemma writesLast_range (hsrc : src + n ≤ modulus) (h : dest < src) :
    WritesLast (wadd dest) (wadd src) (List.range n) := by
  refine (pairwise_range_lt n).imp fun ⟨hij, hj⟩ => ⟨?_, ?_⟩
  · exact wadd_ne_wadd (by omega) (by omega) (by omega)
  · exact wadd_ne_wadd (by omega) (by omega) (by omega)

/-- Going down, a source below the destination is read before it is overwritten. -/
lemma writesLast_reverse_range (hdest : dest + n ≤ modulus) (h : src < dest) :
    WritesLast (wadd dest) (wadd src) (List.range n).reverse := by
  refine List.pairwise_reverse.mpr ((pairwise_range_lt n).imp fun ⟨hij, hj⟩ => ⟨?_, ?_⟩)
  · exact wadd_ne_wadd (by omega) (by omega) (by omega)
  · exact wadd_ne_wadd (by omega) (by omega) (by omega)

/-! ### The main result -/

/-- In each of the three cases `memmove` makes the snapshot copy. -/
lemma isSnapshotCopy_memmove (hdest : dest + n ≤ modulus) (hsrc : src + n ≤ modulus) :
    IsSnapshotCopy (wadd dest) (wadd src) (List.range n) m (memmove m dest src n).2 := by
  rcases lt_trichotomy dest src with hlt | rfl | hlt
  · rw [memmove, if_pos hlt, moveUp_eq_copyAlong]
    exact isSnapshotCopy_copyAlong (writesLast_range hsrc hlt)
  · rw [memmove, if_neg (lt_irrefl dest), if_neg (lt_irrefl dest)]
    exact ⟨fun i _ => rfl, fun x _ => rfl⟩
  · rw [memmove, if_neg hlt.not_gt, if_pos hlt, moveDown_eq_copyAlong]
    have hcopy := isSnapshotCopy_copyAlong (m := m) (writesLast_reverse_range hdest hlt)
    exact hcopy.congr fun i => List.mem_reverse.symm

/-- `memmove` copies as if through a snapshot: for ranges that do not wrap, however they overlap,
each byte of the destination gets the value that the byte of the source had before the call, and
every other byte is unchanged. -/
theorem memmove_snapshot (m : Memory) (hdest : dest + n ≤ modulus) (hsrc : src + n ≤ modulus) :
    (∀ i < n, (memmove m dest src n).2 (dest + i) = m (src + i)) ∧
      ∀ x, x < dest ∨ dest + n ≤ x → (memmove m dest src n).2 x = m x := by
  have hcopy := isSnapshotCopy_memmove (m := m) hdest hsrc
  refine ⟨fun i hi => ?_, fun x hx => ?_⟩
  · have hbyte := hcopy.copied i (List.mem_range.mpr hi)
    rwa [wadd_of_lt (by omega), wadd_of_lt (by omega)] at hbyte
  · apply hcopy.kept
    intro i hi
    have hin : i < n := List.mem_range.mp hi
    rw [wadd_of_lt (by omega)]
    omega

/-- Moving five bytes up by two and down by two, at the end of the address space. -/
theorem memmove_snapshot_overlapping :
    ((∀ i < 5, (memmove UInt8.ofNat (modulus - 5) (modulus - 7) 5).2 (modulus - 5 + i) =
        UInt8.ofNat (modulus - 7 + i)) ∧
      ∀ x, x < modulus - 5 ∨ modulus - 5 + 5 ≤ x →
        (memmove UInt8.ofNat (modulus - 5) (modulus - 7) 5).2 x = UInt8.ofNat x) ∧
    (∀ i < 5, (memmove UInt8.ofNat (modulus - 7) (modulus - 5) 5).2 (modulus - 7 + i) =
        UInt8.ofNat (modulus - 5 + i)) ∧
      ∀ x, x < modulus - 7 ∨ modulus - 7 + 5 ≤ x →
        (memmove UInt8.ofNat (modulus - 7) (modulus - 5) 5).2 x = UInt8.ofNat x :=
  ⟨memmove_snapshot UInt8.ofNat (by decide) (by decide),
    memmove_snapshot UInt8.ofNat (by decide) (by decide)⟩

end Soaplin

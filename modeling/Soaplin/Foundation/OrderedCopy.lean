import Mathlib.Tactic

/-!
# Copying cell by cell

A loop that copies between ranges which may overlap makes the assignments `m[d i] = m[s i]` one
after the other.  Whether its result is that of a copy through a snapshot depends on the order:
`copyAlong` makes the assignments in the order of a list, and if no assignment reads a cell that an
earlier one has written, the result is the snapshot copy (`isSnapshotCopy_copyAlong`).
-/

namespace OrderedCopy

variable {ι α β : Type*} {d s : ι → α} {is js : List ι} {m m' : α → β} {x : α}

/-! ### Snapshot copies -/

/-- The cells `d i` of `m'` hold what the cells `s i` held in `m`, and all other cells are kept. -/
structure IsSnapshotCopy (d s : ι → α) (is : List ι) (m m' : α → β) : Prop where
  copied : ∀ i ∈ is, m' (d i) = m (s i)
  kept : ∀ x, (∀ i ∈ is, x ≠ d i) → m' x = m x

/-- No assignment reads or writes a cell that an earlier one has written. -/
def WritesLast (d s : ι → α) (is : List ι) : Prop :=
  is.Pairwise fun i j => s j ≠ d i ∧ d j ≠ d i

/-- A snapshot copy only depends on which indices the list has. -/
lemma IsSnapshotCopy.congr (h : IsSnapshotCopy d s is m m')
    (hmem : ∀ i, i ∈ js ↔ i ∈ is) : IsSnapshotCopy d s js m m' where
  copied i hi := h.copied i ((hmem i).mp hi)
  kept x hx := h.kept x fun i hi => hx i ((hmem i).mpr hi)

/-! ### Copying in an order -/

variable [DecidableEq α]

/-- The memory after the assignments `m[d i] = m[s i]` for the indices of the list in turn. -/
def copyAlong (d s : ι → α) : List ι → (α → β) → α → β
  | [], m => m
  | i :: is, m => copyAlong d s is (Function.update m (d i) (m (s i)))

lemma copyAlong_append (is js : List ι) (m : α → β) :
    copyAlong d s (is ++ js) m = copyAlong d s js (copyAlong d s is m) := by
  induction is generalizing m with
  | nil => rfl
  | cons i is ih => exact ih _

/-- One more assignment. -/
lemma copyAlong_concat (is : List ι) (i : ι) (m : α → β) :
    copyAlong d s (is ++ [i]) m =
      Function.update (copyAlong d s is m) (d i) (copyAlong d s is m (s i)) :=
  copyAlong_append is [i] m

/-- A loop that makes the assignments for `0`, `1`, `2` and so on. -/
lemma eq_copyAlong_range {d s : ℕ → α} {loop : ℕ → α → β}
    (hstep : ∀ i, loop (i + 1) = Function.update (loop i) (d i) (loop i (s i))) (n : ℕ) :
    loop n = copyAlong d s (List.range n) (loop 0) := by
  induction n with
  | zero => rfl
  | succ n ih => rw [hstep, ih, List.range_succ, copyAlong_concat]

/-- A cell that no assignment writes is kept. -/
lemma copyAlong_of_ne (hx : ∀ i ∈ is, x ≠ d i) : copyAlong d s is m x = m x := by
  induction is generalizing m with
  | nil => rfl
  | cons i is ih =>
    rw [copyAlong, ih fun j hj => hx j (List.mem_cons_of_mem i hj)]
    exact Function.update_of_ne (hx i List.mem_cons_self) _ _

/-- When the assignment for `j` is made, the assignments `is` before it have not written what it
reads, and those after it do not write where it writes. -/
lemma copyAlong_read {j : ι} (hread : ∀ i ∈ is, s j ≠ d i)
    (hwrite : ∀ i ∈ js, d j ≠ d i) : copyAlong d s (is ++ j :: js) m (d j) = m (s j) := by
  rw [copyAlong_append, copyAlong, copyAlong_of_ne hwrite, Function.update_self]
  exact copyAlong_of_ne hread

/-- Going up from `0`, the cell `d i` gets what `s i` held, if that has not been written before. -/
lemma copyAlong_range_read {d s : ℕ → α} {n i : ℕ} (hi : i < n) (hread : ∀ j < i, s i ≠ d j)
    (hwrite : ∀ j < n, i < j → d i ≠ d j) : copyAlong d s (List.range n) m (d i) = m (s i) := by
  obtain ⟨before, after, hsplit⟩ := List.append_of_mem (List.mem_range.mpr hi)
  have hlt : (before ++ i :: after).Pairwise (· < ·) := by
    rw [← hsplit]
    exact List.pairwise_lt_range
  obtain ⟨-, hafter, hbefore⟩ := List.pairwise_append.mp hlt
  rw [hsplit]
  apply copyAlong_read
  · intro j hj
    exact hread j (hbefore j hj i List.mem_cons_self)
  · intro j hj
    have hmem : j ∈ List.range n := by
      rw [hsplit]
      exact List.mem_append_right _ (List.mem_cons_of_mem i hj)
    exact hwrite j (List.mem_range.mp hmem) (List.rel_of_pairwise_cons hafter hj)

/-- In an order in which nothing is read or written after it was written, the assignments make a
snapshot copy. -/
theorem isSnapshotCopy_copyAlong (h : WritesLast d s is) :
    IsSnapshotCopy d s is m (copyAlong d s is m) := by
  refine ⟨fun j hj => ?_, fun x hx => copyAlong_of_ne hx⟩
  obtain ⟨before, after, rfl⟩ := List.append_of_mem hj
  obtain ⟨-, hafter, hbefore⟩ := List.pairwise_append.mp h
  apply copyAlong_read
  · intro i hi
    exact (hbefore i hi j List.mem_cons_self).1
  · intro i hi
    exact ((List.rel_of_pairwise_cons hafter hi).2).symm

end OrderedCopy

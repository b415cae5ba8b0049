import Mathlib.Tactic

/-!
# Round robin over a list

A scheduler that always moves on to the next eligible element of a list, and starts again at the
end, serves the eligible elements like a queue: the element that is served goes to the end.
`queue l P x` is that queue when `x` has been served last; `queue_step` is the step, and
`served_eq_take` says that the first round serves every element of the queue once, in its order.
-/

namespace RoundRobin

variable {α : Type*} [DecidableEq α] {l l₁ l₂ a b q r : List α} {x y : α} {P : α → Bool} {n : ℕ}

/-! ### The cyclic order -/

/-- The elements of `l` in cyclic order, starting after `x`. -/
def cyclicAfter (l : List α) (x : α) : List α := l.rotate (l.idxOf x + 1)

/-- The elements behind `x`, those before it, and `x` itself. -/
lemma cyclicAfter_append (hx : x ∉ l₁) : cyclicAfter (l₁ ++ x :: l₂) x = l₂ ++ (l₁ ++ [x]) := by
  have hidx : (l₁ ++ x :: l₂).idxOf x + 1 = (l₁ ++ [x]).length := by
    rw [List.idxOf_append_of_notMem hx, List.idxOf_cons_self, List.length_append,
      List.length_singleton, Nat.add_zero]
  rw [cyclicAfter, hidx, List.append_cons l₁ x l₂, List.rotate_append_length_eq]

/-- The cyclic order ends where it started. -/
lemma cyclicAfter_eq_append (hl : l.Nodup) (hx : x ∈ l) : ∃ b, cyclicAfter l x = b ++ [x] := by
  obtain ⟨l₁, l₂, rfl⟩ := List.append_of_mem hx
  have hnotin : x ∉ l₁ := fun hmem =>
    List.disjoint_of_nodup_append hl hmem List.mem_cons_self
  exact ⟨l₂ ++ l₁, by rw [cyclicAfter_append hnotin, List.append_assoc]⟩

@[simp] lemma mem_cyclicAfter : y ∈ cyclicAfter l x ↔ y ∈ l := List.mem_rotate

@[simp] lemma length_cyclicAfter : (cyclicAfter l x).length = l.length := List.length_rotate ..

/-- The cyclic order has no repetitions if the list has none. -/
lemma nodup_cyclicAfter (hl : l.Nodup) : (cyclicAfter l x).Nodup := List.nodup_rotate.mpr hl

/-- The cyclic order after a later element. -/
lemma cyclicAfter_of_append (hl : l.Nodup) (h : cyclicAfter l x = a ++ y :: b) :
    cyclicAfter l y = b ++ (a ++ [y]) := by
  have hrotate : (cyclicAfter l x).rotate (a.length + 1) = b ++ (a ++ [y]) := by
    have hlen : a.length + 1 = (a ++ [y]).length := by simp
    rw [h, hlen, List.append_cons a y b, List.rotate_append_length_eq]
  -- `y` is at this index of the list
  have hlt : a.length < (cyclicAfter l x).length := by rw [h]; simp
  have hy : (cyclicAfter l x)[a.length] = y := by simp [h]
  have hpos : 0 < l.length := by
    rw [length_cyclicAfter] at hlt
    omega
  have hmod : (a.length + (l.idxOf x + 1)) % l.length < l.length := Nat.mod_lt _ hpos
  have hget : l[(a.length + (l.idxOf x + 1)) % l.length] = y := by
    rw [← hy]
    exact (List.getElem_rotate l (l.idxOf x + 1) a.length hlt).symm
  have hidx : l.idxOf y = (a.length + (l.idxOf x + 1)) % l.length := by
    rw [← hget]
    exact hl.idxOf_getElem _ hmod
  rw [← hrotate, cyclicAfter, cyclicAfter, List.rotate_rotate, hidx, ← List.rotate_mod,
    ← List.rotate_mod l (l.idxOf x + 1 + (a.length + 1)), Nat.mod_add_mod]
  congr 2
  omega

/-! ### The queue -/

/-- The elements with property `P`, in cyclic order after `x`. -/
def queue (l : List α) (P : α → Bool) (x : α) : List α := (cyclicAfter l x).filter P

/-- The queue has no repetitions. -/
lemma nodup_queue (hl : l.Nodup) : (queue l P x).Nodup := (nodup_cyclicAfter hl).filter _

/-- Moving on from `x` to the first element with the property takes the head of the queue to its
end. -/
theorem queue_step (hl : l.Nodup) (h : cyclicAfter l x = a ++ y :: b) (ha : ∀ z ∈ a, P z = false)
    (hy : P y = true) : queue l P x = y :: b.filter P ∧ queue l P y = b.filter P ++ [y] := by
  have hnone : a.filter P = [] := List.filter_eq_nil_iff.mpr fun z hz => by simp [ha z hz]
  refine ⟨?_, ?_⟩
  · rw [queue, h, List.filter_append, hnone, List.nil_append, List.filter_cons_of_pos hy]
  · rw [queue, cyclicAfter_of_append hl h, List.filter_append, List.filter_append, hnone,
      List.nil_append, List.filter_cons_of_pos hy, List.filter_nil]

/-- The elements that are served in `n` steps from the queue. -/
def served : ℕ → List α → List α
  | 0, _ => []
  | _ + 1, [] => []
  | n + 1, y :: q => y :: served n (q ++ [y])

omit [DecidableEq α] in
/-- In the first round every element of the queue is served once, in its order. -/
theorem served_append_eq_take (h : n ≤ q.length) : served n (q ++ r) = q.take n := by
  induction n generalizing q r with
  | zero => rw [served, List.take_zero]
  | succ n ih =>
    cases q with
    | nil => simp at h
    | cons y q =>
      rw [List.cons_append, served, List.take_succ_cons, List.append_assoc,
        ih (by simpa using h)]

omit [DecidableEq α] in
/-- The same without a rest. -/
theorem served_eq_take (h : n ≤ q.length) : served n q = q.take n := by
  have := served_append_eq_take (r := []) h
  rwa [List.append_nil] at this

omit [DecidableEq α] in
/-- In the first round and after it, what is served starts with the queue. -/
theorem take_prefix_served_append : q.take n <+: served n (q ++ r) := by
  induction n generalizing q r with
  | zero => simp
  | succ n ih =>
    cases q with
    | nil => simp
    | cons y q =>
      rw [List.take_succ_cons, List.cons_append, served, List.append_assoc]
      exact List.cons_prefix_cons.mpr ⟨rfl, ih⟩

omit [DecidableEq α] in
/-- What is served in `n` steps includes the first `n` elements of the queue. -/
lemma mem_served_of_mem_take (hy : y ∈ q.take n) : y ∈ served n q := by
  have hprefix := take_prefix_served_append (q := q) (n := n) (r := [])
  rw [List.append_nil] at hprefix
  exact hprefix.subset hy

end RoundRobin

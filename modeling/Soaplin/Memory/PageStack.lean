import Soaplin.Memory.Pmm
import Soaplin.Foundation.Trace

/-!
# The page stack

What `pmm_init` puts on the page stack, and what the stack does afterwards.  The bootloader's
promises about the memory map are the structure `LimineMap`; under them the stack starts with the
whole pages of the usable entries, in map order and cut off at `STACK_SIZE`.  A run of the page
allocator carries the list of pages that are handed out, and the invariant `PagePartition` says that
these and the pages on the stack are a rearrangement of the initial stack.
-/

namespace Soaplin

open ByteMemory Word64 TransitionTrace

/-! ### One page at a time -/

/-- A push on a stack that is not full puts the page on top. -/
lemma pmmFreepage_stack {s : Pmm} (hinit : s.pmmInitialized) (hlen : s.pmmStack.length < stackSize)
    (p : ℕ) : (pmmFreepage s p).pmmStack = p :: s.pmmStack := by
  simp [pmmFreepage, hinit, hlen.ne]

/-- Freeing a page does not touch memory. -/
@[simp] lemma pmmFreepage_mem (s : Pmm) (p : ℕ) : (pmmFreepage s p).mem = s.mem := by
  unfold pmmFreepage
  split_ifs <;> rfl

/-- Freeing a page does not touch the heap list. -/
@[simp] lemma pmmFreepage_freeBlocks (s : Pmm) (p : ℕ) :
    (pmmFreepage s p).pmmFreeBlocks = s.pmmFreeBlocks := by
  unfold pmmFreepage
  split_ifs <;> rfl

/-- Freeing a page keeps the allocator initialised. -/
@[simp] lemma pmmFreepage_initialized (s : Pmm) (p : ℕ) :
    (pmmFreepage s p).pmmInitialized = s.pmmInitialized := by
  unfold pmmFreepage
  split_ifs <;> rfl

/-- Read from the bottom, a push appends a page unless the stack is full. -/
lemma pmmFreepage_stack_reverse {s : Pmm} (hinit : s.pmmInitialized)
    (hlen : s.pmmStack.length ≤ stackSize) (p : ℕ) :
    (pmmFreepage s p).pmmStack.reverse = (s.pmmStack.reverse ++ [p]).take stackSize := by
  rcases hlen.lt_or_eq with hlt | heq
  · rw [pmmFreepage_stack hinit hlt, List.reverse_cons, List.take_of_length_le]
    simpa using hlt
  · have hfull : pmmFreepage s p = s := by simp [pmmFreepage, hinit, heq]
    have hlen' : s.pmmStack.reverse.length = stackSize := by simpa using heq
    rw [hfull, ← hlen', List.take_left]

/-- On an empty stack `pmm_allocpage` returns `NULL` and changes nothing. -/
lemma pmmAllocpage_nil {s : Pmm} (hstack : s.pmmStack = []) : pmmAllocpage s = (0, s) := by
  simp [pmmAllocpage, hstack]

/-- The pages that are on the stack of `s` and no more on that of `s'`. -/
def poppedPages (s s' : Pmm) : List ℕ :=
  s.pmmStack.take (s.pmmStack.length - s'.pmmStack.length)

/-- `pmm_allocpage` returns the top of the stack. -/
lemma pmmAllocpage_fst {s : Pmm} (hinit : s.pmmInitialized) {p : ℕ} {rest : List ℕ}
    (hstack : s.pmmStack = p :: rest) : (pmmAllocpage s).1 = p := by
  simp [pmmAllocpage, hinit, hstack]

/-- `pmm_allocpage` pops the stack. -/
lemma pmmAllocpage_stack {s : Pmm} (hinit : s.pmmInitialized) :
    (pmmAllocpage s).2.pmmStack = s.pmmStack.tail := by
  cases hstack : s.pmmStack <;> simp [pmmAllocpage, hinit, hstack]

/-- Allocating a page does not touch memory. -/
@[simp] lemma pmmAllocpage_mem (s : Pmm) : (pmmAllocpage s).2.mem = s.mem := by
  unfold pmmAllocpage
  split
  · rfl
  · split <;> rfl

/-- Allocating a page does not touch the heap list. -/
@[simp] lemma pmmAllocpage_freeBlocks (s : Pmm) :
    (pmmAllocpage s).2.pmmFreeBlocks = s.pmmFreeBlocks := by
  unfold pmmAllocpage
  split
  · rfl
  · split <;> rfl

/-- Allocating a page keeps the allocator initialised. -/
@[simp] lemma pmmAllocpage_initialized (s : Pmm) :
    (pmmAllocpage s).2.pmmInitialized = s.pmmInitialized := by
  unfold pmmAllocpage
  split
  · rfl
  · split <;> rfl

/-! ### Initialisation -/

/-- The whole pages of the range of `length` bytes at `addr`. -/
def rangePages (addr length : ℕ) : List ℕ :=
  (List.range (length / pmmBlockSize)).map fun k => addr + pmmBlockSize * k

/-- The whole pages of the usable entries of a memory map, in map order. -/
def usablePages (mmap : List MemmapEntry) : List ℕ :=
  (mmap.filter fun e => e.type = memmapUsable).flatMap fun e => rangePages e.base e.length

/-- A range of at least one page starts with its first page. -/
lemma rangePages_cons {addr length : ℕ} (h : pmmBlockSize ≤ length) :
    rangePages addr length =
      addr :: rangePages (addr + pmmBlockSize) (length - pmmBlockSize) := by
  have hdiv : length / pmmBlockSize = (length - pmmBlockSize) / pmmBlockSize + 1 := by
    simp only [pmmBlockSize] at *
    omega
  simp only [rangePages, hdiv, List.range_succ_eq_map, List.map_cons, List.map_map, mul_zero,
    add_zero, List.cons.injEq, true_and]
  refine List.map_congr_left fun k _ => ?_
  simp only [Function.comp_apply, Nat.succ_eq_add_one]
  ring

/-- A range of less than one page has no whole page. -/
lemma rangePages_of_lt {addr length : ℕ} (h : length < pmmBlockSize) :
    rangePages addr length = [] := by
  simp [rangePages, Nat.div_eq_of_lt h]

/-- A page of a range lies in the range, at a multiple of the page size from its start. -/
lemma mem_rangePages {addr length p : ℕ} :
    p ∈ rangePages addr length ↔
      ∃ k, p = addr + pmmBlockSize * k ∧ pmmBlockSize * k + pmmBlockSize ≤ length := by
  simp only [rangePages, List.mem_map, List.mem_range, pmmBlockSize]
  constructor
  · rintro ⟨k, hk, rfl⟩
    exact ⟨k, rfl, by omega⟩
  · rintro ⟨k, rfl, hk⟩
    exact ⟨k, by omega, rfl⟩

/-- The pages of a range are distinct. -/
lemma nodup_rangePages (addr length : ℕ) : (rangePages addr length).Nodup := by
  refine List.nodup_range.map fun a b h => ?_
  simp only [pmmBlockSize] at h
  omega

/-- Cutting a list off before appending to it does not matter if the result is cut off too. -/
lemma take_append_of_take {α : Type*} (l₁ l₂ : List α) (n : ℕ) :
    (l₁.take n ++ l₂).take n = (l₁ ++ l₂).take n := by
  rw [List.take_append, List.take_append, List.take_take, min_self, List.length_take]
  congr 2
  omega

/-- The page loop of `pmm_init` pushes the whole pages of its range until the stack is full. -/
lemma freeRange_spec {s : Pmm} {addr length : ℕ} (hinit : s.pmmInitialized)
    (hlen : s.pmmStack.length ≤ stackSize) (hwrap : addr + length ≤ modulus) :
    (freeRange s addr length).pmmInitialized ∧
      (freeRange s addr length).pmmStack.length ≤ stackSize ∧
      (freeRange s addr length).pmmStack.reverse =
        (s.pmmStack.reverse ++ rangePages addr length).take stackSize := by
  fun_induction freeRange s addr length with
  | case1 s addr length hle ih =>
    have hrev := pmmFreepage_stack_reverse hinit hlen addr
    have hlen' : (pmmFreepage s addr).pmmStack.length ≤ stackSize := by
      rw [← List.length_reverse, hrev]
      exact List.length_take_le _ _
    have hrest : rangePages (wadd addr pmmBlockSize) (length - pmmBlockSize) =
        rangePages (addr + pmmBlockSize) (length - pmmBlockSize) := by
      rcases lt_or_ge (length - pmmBlockSize) pmmBlockSize with hlt | hge
      · rw [rangePages_of_lt hlt, rangePages_of_lt hlt]
      · rw [wadd_of_lt (by simp only [pmmBlockSize, modulus] at *; omega)]
    have hwrap' : wadd addr pmmBlockSize + (length - pmmBlockSize) ≤ modulus := by
      simp only [wadd, pmmBlockSize, modulus] at *
      omega
    obtain ⟨h₁, h₂, h₃⟩ := ih (by simpa using hinit) hlen' hwrap'
    refine ⟨h₁, h₂, ?_⟩
    rw [h₃, hrev, take_append_of_take, hrest, rangePages_cons hle, List.append_assoc,
      List.singleton_append]
  | case2 s addr length hlt =>
    refine ⟨hinit, hlen, ?_⟩
    rw [rangePages_of_lt (by omega), List.append_nil, List.take_of_length_le (by simpa using hlen)]

/-- What the bootloader guarantees about the usable entries of a memory map: they are page-aligned,
do not wrap, do not contain page `0`, and are pairwise disjoint. -/
structure LimineMap (mmap : List MemmapEntry) : Prop where
  /-- Usable entries start at a page boundary. -/
  aligned : ∀ e ∈ mmap, e.type = memmapUsable → e.base % pmmBlockSize = 0
  /-- Usable entries end inside the address space. -/
  noWrap : ∀ e ∈ mmap, e.type = memmapUsable → e.base + e.length ≤ modulus
  /-- Page `0` is in no usable entry. -/
  nonzero : ∀ e ∈ mmap, e.type = memmapUsable → 0 < e.length → e.base ≠ 0
  /-- Usable entries are pairwise disjoint. -/
  disjoint : mmap.Pairwise fun e f => e.type = memmapUsable → f.type = memmapUsable →
    e.base + e.length ≤ f.base ∨ f.base + f.length ≤ e.base

/-- One entry of the map: a usable entry contributes its pages, any other entry nothing. -/
lemma initEntry_spec {s : Pmm} {e : MemmapEntry} (hinit : s.pmmInitialized)
    (hlen : s.pmmStack.length ≤ stackSize)
    (hwrap : e.type = memmapUsable → e.base + e.length ≤ modulus) :
    (initEntry s e).pmmInitialized ∧ (initEntry s e).pmmStack.length ≤ stackSize ∧
      (initEntry s e).pmmStack.reverse =
        (s.pmmStack.reverse ++ usablePages [e]).take stackSize := by
  have htotal : ∀ t : Pmm, t = (if e.type ≠ memmapReserved then
      { s with pmmTotalMem := countTotal s.pmmTotalMem e.length } else s) →
      t.pmmInitialized = s.pmmInitialized ∧ t.pmmStack = s.pmmStack := by
    rintro t rfl
    split_ifs <;> exact ⟨rfl, rfl⟩
  unfold initEntry
  generalize ht : (if e.type ≠ memmapReserved then
      { s with pmmTotalMem := countTotal s.pmmTotalMem e.length } else s) = t
  obtain ⟨hti, hts⟩ := htotal t ht.symm
  by_cases husable : e.type = memmapUsable
  · simp only [husable, if_true]
    have h := freeRange_spec (s := t) (hti ▸ hinit) (hts ▸ hlen) (hwrap husable)
    rw [hts] at h
    simpa [usablePages, husable] using h
  · simp only [husable, if_false]
    refine ⟨hti ▸ hinit, hts ▸ hlen, ?_⟩
    have hnone : usablePages [e] = [] := by simp [usablePages, husable]
    rw [hnone, List.append_nil, hts, List.take_of_length_le (by simpa using hlen)]

/-- The entry loop of `pmm_init`, from any stack. -/
lemma foldl_initEntry_spec {mmap : List MemmapEntry} {s : Pmm} (hinit : s.pmmInitialized)
    (hlen : s.pmmStack.length ≤ stackSize)
    (hwrap : ∀ e ∈ mmap, e.type = memmapUsable → e.base + e.length ≤ modulus) :
    (mmap.foldl initEntry s).pmmInitialized ∧
      (mmap.foldl initEntry s).pmmStack.length ≤ stackSize ∧
      (mmap.foldl initEntry s).pmmStack.reverse =
        (s.pmmStack.reverse ++ usablePages mmap).take stackSize := by
  induction mmap generalizing s with
  | nil =>
    refine ⟨hinit, hlen, ?_⟩
    simp only [List.foldl_nil, usablePages, List.filter_nil, List.flatMap_nil, List.append_nil]
    rw [List.take_of_length_le (by simpa using hlen)]
  | cons e mmap ih =>
    obtain ⟨h₁, h₂, h₃⟩ := initEntry_spec hinit hlen (hwrap e List.mem_cons_self)
    obtain ⟨h₁', h₂', h₃'⟩ := ih h₁ h₂ fun f hf => hwrap f (List.mem_cons_of_mem _ hf)
    refine ⟨h₁', h₂', ?_⟩
    have hcons : usablePages (e :: mmap) = usablePages [e] ++ usablePages mmap := by
      simp only [usablePages, List.filter_cons, List.filter_nil]
      split_ifs <;> simp
    rw [List.foldl_cons, h₃', h₃, take_append_of_take, hcons, List.append_assoc]

/-- `pmm_init` leaves the whole pages of the usable entries on the stack, in map order from the
bottom, cut off at `STACK_SIZE`. -/
lemma pmmInit_stack {mmap : List MemmapEntry}
    (hwrap : ∀ e ∈ mmap, e.type = memmapUsable → e.base + e.length ≤ modulus) (s : Pmm) :
    (pmmInit s mmap).pmmInitialized ∧ (pmmInit s mmap).pmmStack.length ≤ stackSize ∧
      (pmmInit s mmap).pmmStack.reverse = (usablePages mmap).take stackSize := by
  simpa [pmmInit] using foldl_initEntry_spec
    (s := { s with pmmStack := [], pmmInitialized := true }) rfl (Nat.zero_le _) hwrap

/-- The stack itself, from its top on. -/
lemma pmmInit_stack_eq {mmap : List MemmapEntry} {ps : List ℕ}
    (hwrap : ∀ e ∈ mmap, e.type = memmapUsable → e.base + e.length ≤ modulus) (s : Pmm)
    (hpages : (usablePages mmap).take stackSize = ps.reverse) : (pmmInit s mmap).pmmStack = ps := by
  obtain ⟨-, -, hrev⟩ := pmmInit_stack hwrap s
  rw [hpages] at hrev
  exact List.reverse_injective hrev

/-- `pmm_init` keeps what neither a pushed page nor the count of all memory changes. -/
lemma pmmInit_keeps {α : Type*} (f : Pmm → α) (hpage : ∀ s p, f (pmmFreepage s p) = f s)
    (htotal : ∀ s n, f { s with pmmTotalMem := n } = f s) (s : Pmm) (mmap : List MemmapEntry) :
    f (pmmInit s mmap) = f { s with pmmStack := [], pmmInitialized := true } := by
  have hrange : ∀ (t : Pmm) (addr length : ℕ), f (freeRange t addr length) = f t := by
    intro t addr length
    fun_induction freeRange t addr length with
    | case1 t addr length hle ih => rw [ih, hpage]
    | case2 => rfl
  have hentry : ∀ (t : Pmm) (e : MemmapEntry), f (initEntry t e) = f t := by
    intro t e
    unfold initEntry
    split_ifs <;> simp only [hrange, htotal]
  have hfold : ∀ (es : List MemmapEntry) (t : Pmm), f (es.foldl initEntry t) = f t := by
    intro es
    induction es with
    | nil => intro t; rfl
    | cons e es ih => intro t; rw [List.foldl_cons, ih, hentry]
  exact hfold mmap _

/-- `pmm_init` does not touch the heap list. -/
lemma pmmInit_freeBlocks (s : Pmm) (mmap : List MemmapEntry) :
    (pmmInit s mmap).pmmFreeBlocks = s.pmmFreeBlocks :=
  pmmInit_keeps Pmm.pmmFreeBlocks pmmFreepage_freeBlocks (fun _ _ => rfl) s mmap

/-- `pmm_init` does not touch memory. -/
lemma pmmInit_mem (s : Pmm) (mmap : List MemmapEntry) : (pmmInit s mmap).mem = s.mem :=
  pmmInit_keeps Pmm.mem pmmFreepage_mem (fun _ _ => rfl) s mmap

/-- The pages of disjoint usable entries are distinct. -/
lemma nodup_usablePages {mmap : List MemmapEntry}
    (hdisjoint : mmap.Pairwise fun e f => e.type = memmapUsable → f.type = memmapUsable →
      e.base + e.length ≤ f.base ∨ f.base + f.length ≤ e.base) : (usablePages mmap).Nodup := by
  refine List.nodup_flatMap.mpr ⟨fun e _ => nodup_rangePages _ _, ?_⟩
  have hpair := (hdisjoint.filter (fun e => decide (e.type = memmapUsable)))
  refine hpair.imp_of_mem fun {e f} he hf hdisj p hp hq => ?_
  have hetype : e.type = memmapUsable := by simpa using (List.mem_filter.mp he).2
  have hftype : f.type = memmapUsable := by simpa using (List.mem_filter.mp hf).2
  obtain ⟨k, hk, hk'⟩ := mem_rangePages.mp hp
  obtain ⟨l, hl, hl'⟩ := mem_rangePages.mp hq
  have := hdisj hetype hftype
  simp only [pmmBlockSize] at *
  omega

/-- The pages of a bootloader map are aligned and not page `0`, and end inside the address
space. -/
lemma LimineMap.of_mem_usablePages {mmap : List MemmapEntry} (hmap : LimineMap mmap) {p : ℕ}
    (hp : p ∈ usablePages mmap) :
    p % pmmBlockSize = 0 ∧ p ≠ 0 ∧ p + pmmBlockSize ≤ modulus := by
  obtain ⟨e, he, hpe⟩ := List.mem_flatMap.mp hp
  have hetype : e.type = memmapUsable := by simpa using (List.mem_filter.mp he).2
  have hmem := (List.mem_filter.mp he).1
  obtain ⟨k, rfl, hk⟩ := mem_rangePages.mp hpe
  have halign := hmap.aligned e hmem hetype
  have hnz := hmap.nonzero e hmem hetype
  have hwrap := hmap.noWrap e hmem hetype
  simp only [pmmBlockSize] at *
  omega

/-! ### Runs of the page allocator -/

/-- The calls of a run of the page allocator. -/
inductive PageOp
  | alloc
  | free (page : ℕ)

/-- One call in a run; the second component of the state lists the pages that are handed out, and
only such a page may be freed. -/
inductive PageStep : Pmm × List ℕ → PageOp → Pmm × List ℕ → Prop
  | allocNull {s : Pmm} {out : List ℕ} (hnull : (pmmAllocpage s).1 = 0) :
      PageStep (s, out) .alloc ((pmmAllocpage s).2, out)
  | alloc {s : Pmm} {out : List ℕ} (hpage : (pmmAllocpage s).1 ≠ 0) :
      PageStep (s, out) .alloc ((pmmAllocpage s).2, (pmmAllocpage s).1 :: out)
  | free {s : Pmm} {out : List ℕ} {page : ℕ} (hout : page ∈ out) :
      PageStep (s, out) (.free page) (pmmFreepage s page, out.erase page)

/-- The pages on the stack and the pages handed out are together a rearrangement of the initial
stack, which had no duplicates, no page `0` and at most `STACK_SIZE` pages. -/
structure PagePartition (init : List ℕ) (st : Pmm × List ℕ) : Prop where
  /-- The allocator is initialised. -/
  initialized : st.1.pmmInitialized
  /-- No page is lost and none appears twice. -/
  perm : (st.1.pmmStack ++ st.2).Perm init
  /-- The initial stack has no duplicates. -/
  nodup : init.Nodup
  /-- Page `0` was not on the initial stack. -/
  nonzero : 0 ∉ init
  /-- The initial stack fitted into `pmm_stack`. -/
  length_le : init.length ≤ stackSize

namespace PagePartition

variable {init : List ℕ} {s : Pmm} {out : List ℕ}

/-- The pages of the stack and the pages handed out are distinct. -/
lemma nodup_append (h : PagePartition init (s, out)) : (s.pmmStack ++ out).Nodup :=
  h.perm.nodup_iff.mpr h.nodup

/-- A page of the stack is not page `0`. -/
lemma ne_zero_of_mem (h : PagePartition init (s, out)) {p : ℕ} (hp : p ∈ s.pmmStack) : p ≠ 0 := by
  rintro rfl
  exact h.nonzero (h.perm.subset (List.mem_append_left _ hp))

/-- `pmm_allocpage` returns `NULL` exactly on an empty stack. -/
lemma allocpage_eq_zero_iff (h : PagePartition init (s, out)) :
    (pmmAllocpage s).1 = 0 ↔ s.pmmStack = [] := by
  cases hstack : s.pmmStack with
  | nil => simp [pmmAllocpage_nil hstack]
  | cons p rest =>
    have hp : p ≠ 0 := h.ne_zero_of_mem (by simp [hstack])
    simp [pmmAllocpage_fst h.initialized hstack, hp]

/-- While a page is handed out, the stack is not full. -/
lemma stack_length_lt (h : PagePartition init (s, out)) {p : ℕ} (hp : p ∈ out) :
    s.pmmStack.length < stackSize := by
  have hlen := h.perm.length_eq
  have hpos := List.length_pos_of_mem hp
  have hle := h.length_le
  rw [List.length_append] at hlen
  simp only at hlen
  omega

/-- The freeing of a page that is handed out is not dropped by the test for a full stack. -/
lemma freepage_stack (h : PagePartition init (s, out)) {p : ℕ} (hp : p ∈ out) :
    (pmmFreepage s p).pmmStack = p :: s.pmmStack :=
  pmmFreepage_stack h.initialized (h.stack_length_lt hp) p

/-- Every call of a run keeps the partition. -/
lemma step {st st' : Pmm × List ℕ} {op : PageOp} (h : PagePartition init st)
    (hstep : PageStep st op st') : PagePartition init st' := by
  cases hstep with
  | allocNull hnull =>
    have hstack := h.allocpage_eq_zero_iff.mp hnull
    rw [pmmAllocpage_nil hstack]
    exact h
  | @alloc s out hpage =>
    obtain ⟨p, rest, hstack⟩ := List.exists_cons_of_ne_nil (mt h.allocpage_eq_zero_iff.mpr hpage)
    refine ⟨by simpa using h.initialized, ?_, h.nodup, h.nonzero, h.length_le⟩
    have hperm := h.perm
    simp only [pmmAllocpage_stack h.initialized, pmmAllocpage_fst h.initialized hstack, hstack,
      List.tail_cons] at hperm ⊢
    exact List.perm_middle.trans hperm
  | @free s out page hout =>
    refine ⟨by simpa using h.initialized, ?_, h.nodup, h.nonzero, h.length_le⟩
    simp only [h.freepage_stack hout, List.cons_append]
    calc page :: (s.pmmStack ++ out.erase page)
        _ |>.Perm (s.pmmStack ++ page :: out.erase page) := List.perm_middle.symm
        _ |>.Perm (s.pmmStack ++ out) := (List.perm_cons_erase hout).symm.append_left _
        _ |>.Perm init := h.perm

end PagePartition

/-- The partition holds right after `pmm_init` on a bootloader map, with nothing handed out. -/
lemma pagePartition_pmmInit {mmap : List MemmapEntry} (hmap : LimineMap mmap) (s : Pmm) :
    PagePartition (pmmInit s mmap).pmmStack (pmmInit s mmap, []) := by
  obtain ⟨hinit, hlen, hrev⟩ := pmmInit_stack hmap.noWrap s
  have hsub : ∀ p ∈ (pmmInit s mmap).pmmStack, p ∈ usablePages mmap := fun p hp =>
    List.mem_of_mem_take (hrev ▸ List.mem_reverse.mpr hp)
  refine ⟨hinit, by simp, ?_, fun h0 => ?_, hlen⟩
  · rw [← List.nodup_reverse, hrev]
    exact (nodup_usablePages hmap.disjoint).sublist (List.take_sublist _ _)
  · exact (hmap.of_mem_usablePages (hsub 0 h0)).2.1 rfl

/-- On every bootloader map `pmm_init` leaves the whole usable pages on the stack, in map order and
cut off at `STACK_SIZE`.  In every run from there the stack and the pages handed out partition that
set: a page is handed out only while it is free, a page handed out can always be freed, and `NULL`
is returned exactly when all pages are handed out. -/
theorem pmm_pages_partitioned {mmap : List MemmapEntry} (hmap : LimineMap mmap) (s₀ : Pmm) :
    (pmmInit s₀ mmap).pmmStack.reverse = (usablePages mmap).take stackSize ∧
      ∀ (ops : List PageOp) (s : Pmm) (out : List ℕ),
        Trace PageStep (pmmInit s₀ mmap, []) ops (s, out) →
          (s.pmmStack ++ out).Perm (pmmInit s₀ mmap).pmmStack ∧
          (s.pmmStack ++ out).Nodup ∧
          ((pmmAllocpage s).1 ≠ 0 → (pmmAllocpage s).1 ∉ out) ∧
          (∀ p ∈ out, (pmmFreepage s p).pmmStack = p :: s.pmmStack) ∧
          ((pmmAllocpage s).1 = 0 ↔ ∀ p ∈ (pmmInit s₀ mmap).pmmStack, p ∈ out) := by
  refine ⟨(pmmInit_stack hmap.noWrap s₀).2.2, fun ops s out htrace => ?_⟩
  have h : PagePartition (pmmInit s₀ mmap).pmmStack (s, out) :=
    htrace.invariant _ (pagePartition_pmmInit hmap s₀) fun _ _ _ hinv hstep => hinv.step hstep
  refine ⟨h.perm, h.nodup_append, fun hpage hmem => ?_, fun p hp => h.freepage_stack hp, ?_⟩
  · obtain ⟨p, rest, hstack⟩ := List.exists_cons_of_ne_nil (mt h.allocpage_eq_zero_iff.mpr hpage)
    rw [pmmAllocpage_fst h.initialized hstack] at hmem
    exact (List.disjoint_of_nodup_append h.nodup_append) (by simp [hstack]) hmem
  · rw [h.allocpage_eq_zero_iff]
    constructor
    · intro hnil p hp
      simpa [hnil] using h.perm.symm.subset hp
    · intro hall
      refine List.eq_nil_iff_forall_not_mem.mpr fun p hp => ?_
      have hinit := h.perm.subset (List.mem_append_left _ hp)
      exact (List.disjoint_of_nodup_append h.nodup_append) hp (hall p hinit)

/-- A map with one usable entry of three pages. -/
lemma limineMap_threePages : LimineMap [⟨0x4000, 0x3000, memmapUsable⟩] := by
  refine ⟨?_, ?_, ?_, List.pairwise_singleton _ _⟩ <;> simp [pmmBlockSize, modulus]

/-- The three pages of that map, in every run. -/
theorem pmm_pages_partitioned_threePages :
    (pmmInit (.boot fun _ => 0) [⟨0x4000, 0x3000, memmapUsable⟩]).pmmStack.reverse =
        [0x4000, 0x5000, 0x6000] ∧
      ∀ (ops : List PageOp) (s : Pmm) (out : List ℕ),
        Trace PageStep (pmmInit (.boot fun _ => 0) [⟨0x4000, 0x3000, memmapUsable⟩], []) ops
          (s, out) → (s.pmmStack ++ out).Perm [0x6000, 0x5000, 0x4000] := by
  obtain ⟨hrev, hrun⟩ := pmm_pages_partitioned limineMap_threePages (.boot fun _ => 0)
  have hpages : (usablePages [⟨0x4000, 0x3000, memmapUsable⟩]).take stackSize =
      [0x4000, 0x5000, 0x6000] := by decide
  rw [hpages] at hrev
  refine ⟨hrev, fun ops s out htrace => ?_⟩
  have hstack := congrArg List.reverse hrev
  rw [List.reverse_reverse] at hstack
  have hperm := (hrun ops s out htrace).1
  rw [hstack] at hperm
  exact hperm

end Soaplin

import Soaplin.Memory.HeapRun

/-!
# Separation of the heap

In which runs do the live allocations stay apart from each other, from the block headers, and from
the pages that are not the heap's?  `pmm_free` merges a block with the free blocks that follow it in
the list, without comparing addresses; `AbsorbsNeighbours` says that these blocks are also its
neighbours in memory.  While every `pmm_free` meets this condition the invariant `HeapInv` holds and
the heap is `Separated`; `heap_not_separated` is a run in which one call does not, and which ends
with a live allocation inside a page that was handed out by `pmm_allocpage`.
-/

namespace Soaplin

open ByteMemory Word64 FreeList LinkedChain TransitionTrace

/-! ### Runs -/

/-- A state of a run of the allocator: the program state, the live allocations as pairs of pointer
and requested size, the pages live through `pmm_allocpage`, and the pages popped by the heap. -/
structure HeapRun where
  pmm : Pmm
  blocks : List (ℕ × ℕ)
  pages : List ℕ
  heapPages : List ℕ

/-- The calls of a run, and the writes of their callers. -/
inductive HeapOp
  | alloc (n : ℕ)
  | free (p : ℕ)
  | allocpage
  | freepage (page : ℕ)
  | write (a : ℕ) (v : UInt8)

/-- The address `x` lies in one of the pages `qs`. -/
def InPages (qs : List ℕ) (x : ℕ) : Prop := ∃ q ∈ qs, q ≤ x ∧ x < q + pmmBlockSize

/-- The address `x` lies in a live allocation or in a page live through `pmm_allocpage`. -/
def HeapRun.Owns (h : HeapRun) (x : ℕ) : Prop :=
  (∃ a ∈ h.blocks, a.1 ≤ x ∧ x < a.1 + a.2) ∨ InPages h.pages x

/-- One step of a legal run: requests are between one byte and what fits on a page, a free is of a
live allocation or a live page, and a write hits what the caller owns. -/
inductive HeapStep : HeapRun → HeapOp → HeapRun → Prop
  | alloc {h : HeapRun} {n fuel p : ℕ} {s : Pmm} (hpos : 1 ≤ n)
      (hle : n ≤ pmmBlockSize - memblkSize) (hcall : pmmAlloc fuel h.pmm n = some (p, s)) :
      HeapStep h (.alloc n)
        { h with
          pmm := s
          blocks := if p = 0 then h.blocks else (p, n) :: h.blocks
          heapPages := poppedPages h.pmm s ++ h.heapPages }
  | free {h : HeapRun} {p n fuel : ℕ} {s : Pmm} (hlive : (p, n) ∈ h.blocks)
      (hcall : pmmFree fuel h.pmm p = some s) :
      HeapStep h (.free p) { h with pmm := s, blocks := h.blocks.erase (p, n) }
  | allocpage {h : HeapRun} :
      HeapStep h .allocpage
        { h with
          pmm := (pmmAllocpage h.pmm).2
          pages := if (pmmAllocpage h.pmm).1 = 0 then h.pages
            else (pmmAllocpage h.pmm).1 :: h.pages }
  | freepage {h : HeapRun} {page : ℕ} (hlive : page ∈ h.pages) :
      HeapStep h (.freepage page)
        { h with pmm := pmmFreepage h.pmm page, pages := h.pages.erase page }
  | write {h : HeapRun} {a : ℕ} {v : UInt8} (hown : h.Owns a) :
      HeapStep h (.write a v)
        { h with pmm := { h.pmm with mem := Function.update h.pmm.mem a v } }

/-- A state right after `pmm_init`: the heap is empty, and the stack holds distinct page-aligned
pages other than page `0`. -/
structure HeapStart (s : Pmm) : Prop where
  initialized : s.pmmInitialized
  empty : s.pmmFreeBlocks = 0
  nodup : s.pmmStack.Nodup
  page : ∀ q ∈ s.pmmStack, q % pmmBlockSize = 0 ∧ q ≠ 0 ∧ q < modulus
  length_le : s.pmmStack.length ≤ stackSize

/-- The run that starts in `s` with nothing allocated. -/
def HeapRun.start (s : Pmm) : HeapRun := ⟨s, [], [], []⟩

/-- `pmm_init` on a bootloader map leads to a start state, if the heap is empty before. -/
lemma heapStart_pmmInit {mmap : List MemmapEntry} (hmap : LimineMap mmap) {s : Pmm}
    (hempty : s.pmmFreeBlocks = 0) : HeapStart (pmmInit s mmap) := by
  obtain ⟨hinit, hlen, hrev⟩ := pmmInit_stack hmap.noWrap s
  have hmem : ∀ q ∈ (pmmInit s mmap).pmmStack, q ∈ usablePages mmap := fun q hq =>
    List.mem_of_mem_take (hrev ▸ List.mem_reverse.mpr hq)
  refine ⟨hinit, ?_, (pagePartition_pmmInit hmap s).nodup, ?_, hlen⟩
  · rw [pmmInit_freeBlocks]
    exact hempty
  · intro q hq
    obtain ⟨h₁, h₂, h₃⟩ := hmap.of_mem_usablePages (hmem q hq)
    refine ⟨h₁, h₂, ?_⟩
    simp only [pmmBlockSize] at h₃
    omega

/-! ### Separation -/

/-- `b` is the address of a block of the list `pmm_free_blocks`. -/
def OnHeapList (s : Pmm) (b : ℕ) : Prop :=
  b ≠ 0 ∧ ∃ l, Path (blockNext s.mem) s.pmmFreeBlocks l b

/-- The live payloads are pairwise disjoint, disjoint from every block header of the heap list,
contained in pages that the heap has popped, and disjoint from the pages on the stack and the pages
live through `pmm_allocpage`. -/
structure Separated (h : HeapRun) : Prop where
  payloads : h.blocks.Pairwise fun a a' => a.1 + a.2 ≤ a'.1 ∨ a'.1 + a'.2 ≤ a.1
  headers : ∀ a ∈ h.blocks, ∀ b, OnHeapList h.pmm b → a.1 + a.2 ≤ b ∨ b + memblkSize ≤ a.1
  owned : ∀ a ∈ h.blocks, ∀ x, a.1 ≤ x → x < a.1 + a.2 → InPages h.heapPages x
  foreign : ∀ a ∈ h.blocks, ∀ q ∈ h.pmm.pmmStack ++ h.pages,
    a.1 + a.2 ≤ q ∨ q + pmmBlockSize ≤ a.1

/-- The blocks that the merge loop of `pmm_free` visits from `b` on: `b`, and from each visited
block its list successor if that is free. -/
inductive FreeRun (m : Memory) (b : ℕ) : ℕ → Prop
  | start : FreeRun m b b
  | next {c : ℕ} (hrun : FreeRun m b c) (hnext : blockNext m c ≠ 0)
      (hfree : blockIsFree m (blockNext m c)) : FreeRun m b (blockNext m c)

/-- Every free block that the merge loop would absorb into `b` begins where its list predecessor
ends. -/
def AbsorbsNeighbours (m : Memory) (b : ℕ) : Prop :=
  ∀ c, FreeRun m b c → blockNext m c ≠ 0 → blockIsFree m (blockNext m c) →
    blockNext m c = c + blockSize m c

/-- The condition on a step: a `pmm_free` only merges neighbours. -/
def FreesNeighbours (h : HeapRun) : HeapOp → Prop
  | .free p => AbsorbsNeighbours h.pmm.mem (p - memblkSize)
  | _ => True

/-- In a heap list, the condition on memory is contiguity of the abstract list. -/
lemma contiguous_of_absorbsNeighbours {m : Memory} {b₀ : ℕ} {b : Block} {bs : List Block}
    (hlist : HeapList m b.addr (b :: bs)) (hrun : FreeRun m b₀ b.addr)
    (hcond : AbsorbsNeighbours m b₀) : Contiguous b bs := by
  induction bs generalizing b with
  | nil => trivial
  | cons c cs ih =>
    intro hfree
    obtain ⟨-, -, hsize, -, hc, hc0, hcs, hcf, hrest⟩ := hlist
    have hnext : blockIsFree m (blockNext m b.addr) = true := by rw [hcf, hfree]
    have hadj := hcond b.addr hrun hc0 hnext
    refine ⟨by omega, ih ?_ ?_⟩
    · rw [hc] at hc0 hcs hcf hrest
      exact ⟨rfl, hc0, hcs, hcf, hrest⟩
    · rw [← hc]
      exact .next hrun hc0 hnext

/-- Conversely, the merge loop absorbs only neighbours when the abstract list is contiguous. -/
lemma absorbsNeighbours_of_contiguous {m : Memory} {b : Block} {bs : List Block}
    (hlist : HeapList m b.addr (b :: bs)) (hcont : Contiguous b bs) :
    AbsorbsNeighbours m b.addr := by
  -- the loop stays on the list, and what is left of the list is contiguous too
  have hpos : ∀ c, FreeRun m b.addr c →
      ∃ d ds, d.addr = c ∧ HeapList m c (d :: ds) ∧ Contiguous d ds := by
    intro c hrun
    induction hrun with
    | start => exact ⟨b, bs, rfl, hlist, hcont⟩
    | @next c hrun hnext hfree ih =>
      obtain ⟨d, ds, rfl, ⟨-, -, -, -, hrest⟩, hds⟩ := ih
      cases ds with
      | nil => exact absurd hrest hnext
      | cons e es =>
        obtain ⟨he, -, -, hef, -⟩ := id hrest
        refine ⟨e, es, he.symm, hrest, (hds ?_).2⟩
        rw [← hef, hfree]
  intro c hrun hnext hfree
  obtain ⟨d, ds, rfl, ⟨-, -, hsize, -, hrest⟩, hds⟩ := hpos c hrun
  cases ds with
  | nil => exact absurd hrest hnext
  | cons e es =>
    obtain ⟨he, -, -, hef, -⟩ := hrest
    have := (hds (by rw [← hef, hfree])).1
    omega

/-! ### The invariant -/

/-- All pages of a run: on the stack, live through `pmm_allocpage`, and popped by the heap. -/
def HeapRun.allPages (h : HeapRun) : List ℕ := h.pmm.pmmStack ++ (h.pages ++ h.heapPages)

namespace HeapRun

variable {h : HeapRun} {page : ℕ} {rest : List ℕ}

/-- A page taken by a caller is still a page of the run. -/
lemma allPages_allocpage (hinit : h.pmm.pmmInitialized) (hstack : h.pmm.pmmStack = page :: rest) :
    (allPages { h with pmm := (pmmAllocpage h.pmm).2, pages := page :: h.pages }).Perm h.allPages := by
  simp only [allPages, pmmAllocpage_stack hinit, hstack, List.tail_cons, List.cons_append]
  exact List.perm_middle

/-- A page given back by a caller is still a page of the run. -/
lemma allPages_freepage (hinit : h.pmm.pmmInitialized) (hlen : h.pmm.pmmStack.length < stackSize)
    (hlive : page ∈ h.pages) :
    (allPages { h with pmm := pmmFreepage h.pmm page, pages := h.pages.erase page }).Perm
      h.allPages := by
  simp only [allPages, pmmFreepage_stack hinit hlen, List.cons_append]
  calc page :: (h.pmm.pmmStack ++ (h.pages.erase page ++ h.heapPages))
      _ |>.Perm (h.pmm.pmmStack ++ (page :: h.pages.erase page ++ h.heapPages)) :=
        List.perm_middle.symm
      _ |>.Perm (h.pmm.pmmStack ++ (h.pages ++ h.heapPages)) :=
        ((List.perm_cons_erase hlive).symm.append_right _).append_left _

/-- A page taken by the heap is still a page of the run. -/
lemma allPages_popped {s : Pmm} (blocks : List (ℕ × ℕ)) (hstack : h.pmm.pmmStack = page :: rest)
    (hrest : s.pmmStack = rest) :
    (allPages { h with pmm := s, blocks := blocks, heapPages := page :: h.heapPages }).Perm
      h.allPages := by
  simp only [allPages, hstack, hrest, List.cons_append]
  rw [← List.append_assoc, ← List.append_assoc]
  exact List.perm_middle

/-- The allocations that stay live when one is freed are at other addresses. -/
lemma fst_ne_of_mem_erase {p n : ℕ} {a : ℕ × ℕ} (hdistinct : (h.blocks.map Prod.fst).Nodup)
    (hlive : (p, n) ∈ h.blocks) (ha : a ∈ h.blocks.erase (p, n)) : a.1 ≠ p := by
  intro hfst
  have hmem : a.1 ∈ (h.blocks.erase (p, n)).map Prod.fst := List.mem_map_of_mem ha
  have hnodup := ((List.perm_cons_erase hlive).map Prod.fst).nodup_iff.mp hdistinct
  rw [List.map_cons, List.nodup_cons] at hnodup
  exact hnodup.1 (hfst ▸ hmem)

end HeapRun

/-- The invariant of a run from a stack with the pages `init`, when the heap list is `bs`. -/
structure HeapInv (init : List ℕ) (h : HeapRun) (bs : List Block) : Prop where
  initialized : h.pmm.pmmInitialized
  list : HeapList h.pmm.mem h.pmm.pmmFreeBlocks bs
  tiled : Tiled memblkSize bs
  /-- Every block lies in pages of the heap. -/
  covered : Covered (InPages h.heapPages) bs
  /-- Every live allocation is the payload of a block in use. -/
  live : ∀ a ∈ h.blocks, 1 ≤ a.2 ∧
    ∃ b ∈ bs, b.free = false ∧ a.1 = b.addr + memblkSize ∧ a.2 + memblkSize ≤ b.size
  /-- Live pointers are distinct. -/
  distinct : (h.blocks.map Prod.fst).Nodup
  /-- No page is lost or doubled. -/
  pages : h.allPages.Perm init

/-- What a start state says about its pages. -/
structure PagesOk (init : List ℕ) : Prop where
  nodup : init.Nodup
  page : ∀ q ∈ init, q % pmmBlockSize = 0 ∧ q ≠ 0 ∧ q < modulus
  length_le : init.length ≤ stackSize

/-- While a page is out there is room for it on the stack. -/
lemma PagesOk.stack_lt {init : List ℕ} {h : HeapRun} {page : ℕ} (hok : PagesOk init)
    (hpages : h.allPages.Perm init) (hlive : page ∈ h.pages) : h.pmm.pmmStack.length < stackSize := by
  have heq := hpages.length_eq
  have hpos := List.length_pos_of_mem hlive
  have hle := hok.length_le
  simp only [HeapRun.allPages, List.length_append] at heq
  omega

namespace HeapInv

variable {init : List ℕ} {h : HeapRun} {bs : List Block}

/-- The pages of a run are those of the initial stack. -/
lemma mem_init (hinv : HeapInv init h bs) {q : ℕ} (hq : q ∈ h.allPages) : q ∈ init :=
  hinv.pages.subset hq

/-- An extent inside pages of the heap meets no other page. -/
lemma apart_of_page (hok : PagesOk init) (hinv : HeapInv init h bs) {q lo hi : ℕ}
    (hq : q ∈ h.pmm.pmmStack ++ h.pages) (hlohi : lo < hi)
    (hcov : ∀ x, lo ≤ x → x < hi → InPages h.heapPages x) : hi ≤ q ∨ q + pmmBlockSize ≤ lo := by
  by_contra hcon
  have hnodup := hinv.pages.nodup_iff.mpr hok.nodup
  rw [HeapRun.allPages, ← List.append_assoc] at hnodup
  -- an address common to the extent and the page would put the page among the heap's
  obtain ⟨r, hr, hrx, hxr⟩ := hcov (max lo q) (le_max_left _ _) (by
    simp only [pmmBlockSize] at *
    omega)
  have hq' := hok.page q (hinv.mem_init (by
    rw [HeapRun.allPages, ← List.append_assoc]
    exact List.mem_append_left _ hq))
  have hr' := hok.page r (hinv.mem_init (by simp [HeapRun.allPages, hr]))
  have heq : q = r := by
    simp only [pmmBlockSize] at *
    omega
  exact List.disjoint_of_nodup_append hnodup hq (heq ▸ hr)

/-- Blocks end inside the address space. -/
lemma end_le (hok : PagesOk init) (hinv : HeapInv init h bs) {bs' : List Block}
    (hcov : Covered (InPages h.heapPages) bs') {b : Block} (hb : b ∈ bs')
    (hpos : 0 < b.size) : b.addr ≠ 0 ∧ b.addr + b.size ≤ modulus := by
  obtain ⟨q, hq, hqx, -⟩ := hcov b hb b.addr ⟨le_rfl, by omega⟩
  obtain ⟨r, hr, -, hxr⟩ := hcov b hb (b.addr + b.size - 1) ⟨by omega, by omega⟩
  have hq' := hok.page q (hinv.mem_init (by simp [HeapRun.allPages, hq]))
  have hr' := hok.page r (hinv.mem_init (by simp [HeapRun.allPages, hr]))
  simp only [pmmBlockSize, modulus] at *
  omega

/-- The heap list of a state that satisfies the invariant is a tiling of the address space. -/
lemma heapState (hok : PagesOk init) (hinv : HeapInv init h bs) : HeapState h.pmm bs := by
  refine ⟨hinv.initialized, hinv.list, hinv.tiled, fun b hb => ?_⟩
  have hsize := hinv.tiled.header_le b hb
  exact (hinv.end_le hok hinv.covered hb (by simp only [memblkSize] at hsize; omega)).2

/-- The block of a live allocation is determined by the pointer. -/
lemma block_unique (hinv : HeapInv init h bs) {b c : Block} (hb : b ∈ bs) (hc : c ∈ bs)
    (haddr : b.addr = c.addr) : b = c :=
  hinv.tiled.eq_of_addr_eq (by decide) hb hc haddr

/-- The invariant implies separation. -/
theorem separated (hok : PagesOk init) (hinv : HeapInv init h bs) : Separated h := by
  have hhdr : memblkSize = 24 := rfl
  have howned : ∀ a ∈ h.blocks, ∀ x, a.1 ≤ x → x < a.1 + a.2 → InPages h.heapPages x := by
    intro a ha x hx hxa
    obtain ⟨-, b, hb, -, hptr, hsize⟩ := hinv.live a ha
    exact hinv.covered b hb x ⟨by omega, by omega⟩
  refine ⟨?_, ?_, howned, ?_⟩
  · have hdistinct := List.pairwise_map.mp hinv.distinct
    refine hdistinct.imp_of_mem fun {a a'} ha ha' hne => ?_
    obtain ⟨-, b, hb, -, hptr, hsize⟩ := hinv.live a ha
    obtain ⟨-, c, hc, -, hptr', hsize'⟩ := hinv.live a' ha'
    have hbc : b ≠ c := by
      rintro rfl
      exact hne (hptr.trans hptr'.symm)
    rcases hinv.tiled.apart_of_ne hb hc hbc with hap | hap
    · exact Or.inl (by omega)
    · exact Or.inr (by omega)
  · rintro a ha c ⟨hc0, l, hpath⟩
    obtain ⟨-, b, hb, -, hptr, hsize⟩ := hinv.live a ha
    obtain ⟨d, hd, rfl⟩ := List.mem_map.mp (hinv.list.chain.mem_of_path hpath hc0)
    by_cases hbd : b = d
    · subst hbd
      exact Or.inr (by omega)
    · have hd' := hinv.tiled.header_le d hd
      rcases hinv.tiled.apart_of_ne hb hd hbd with hap | hap
      · exact Or.inl (by omega)
      · exact Or.inr (by omega)
  · intro a ha q hq
    have hone := (hinv.live a ha).1
    exact hinv.apart_of_page hok hq (by omega) (howned a ha)

/-! ### The steps -/

/-- Taking a block from the list keeps the invariant. -/
lemma alloc_fit (hinv : HeapInv init h bs) {n : ℕ} (hpos : 1 ≤ n) {m : Memory} {b : Block}
    {bs' : List Block} (hfit : firstFit memblkSize (n + memblkSize) bs = some (b, bs'))
    (hlist : HeapList m h.pmm.pmmFreeBlocks bs') :
    HeapInv init
      { h with
        pmm := { h.pmm with mem := m }
        blocks := (b.addr + memblkSize, n) :: h.blocks } bs' := by
  obtain ⟨pre, post, hbs, -, hb, hbs'⟩ := firstFit_eq_some hfit
  have hbmem : b ∈ bs := by simp [hbs]
  -- a live allocation has a block in use, hence not the one that is taken
  have hother : ∀ a ∈ h.blocks, a.1 ≠ b.addr + memblkSize := by
    intro a ha heq
    obtain ⟨-, c, hc, hused, hptr, -⟩ := hinv.live a ha
    have hcb : c = b := hinv.block_unique hc hbmem (by omega)
    rw [hcb, hb.1] at hused
    cases hused
  refine ⟨hinv.initialized, hlist, hinv.tiled.firstFit (by omega) hfit, hinv.covered.firstFit hfit,
    ?_, ?_, hinv.pages⟩
  · intro a ha
    rcases List.mem_cons.mp ha with rfl | ha
    · obtain ⟨c, hc, haddr, hused, hsize⟩ := @exists_mem_carve memblkSize _ _ hb.2
      refine ⟨hpos, c, ?_, hused, by rw [haddr], hsize⟩
      rw [hbs']
      exact List.mem_append_right _ (List.mem_append_left _ hc)
    · obtain ⟨hone, c, hc, hused, hptr, hsize⟩ := hinv.live a ha
      exact ⟨hone, c, mem_of_firstFit hfit hc hused, hused, hptr, hsize⟩
  · refine List.nodup_cons.mpr ⟨?_, hinv.distinct⟩
    intro hmem
    obtain ⟨a, ha, heq⟩ := List.mem_map.mp hmem
    exact hother a ha heq

/-- Taking a fresh page keeps the invariant. -/
lemma alloc_fresh (hok : PagesOk init) (hinv : HeapInv init h bs) {n page : ℕ} {rest : List ℕ}
    {s : Pmm} (hpos : 1 ≤ n) (hle : n ≤ pmmBlockSize - memblkSize)
    (hstack : h.pmm.pmmStack = page :: rest) (hinit : s.pmmInitialized)
    (hrest : s.pmmStack = rest)
    (hlist : HeapList s.mem s.pmmFreeBlocks (bs ++ [⟨page, n + memblkSize, false⟩])) :
    HeapInv init
      { h with
        pmm := s
        blocks := (page + memblkSize, n) :: h.blocks
        heapPages := page :: h.heapPages } (bs ++ [⟨page, n + memblkSize, false⟩]) := by
  have hhdr : memblkSize = 24 := rfl
  have hpg : pmmBlockSize = 4096 := rfl
  have hapart : ∀ b ∈ bs, b.addr + b.size ≤ page ∨ page + pmmBlockSize ≤ b.addr := by
    intro b hb
    have hsize := hinv.tiled.header_le b hb
    refine hinv.apart_of_page hok (by simp [hstack]) (by omega) fun x hx hxb => ?_
    exact hinv.covered b hb x ⟨hx, hxb⟩
  have hap : ∀ b ∈ bs, b.Apart ⟨page, n + memblkSize, false⟩ := by
    intro b hb
    rcases hapart b hb with hap | hap
    · exact Or.inl hap
    · exact Or.inr (by dsimp only; omega)
  refine ⟨hinit, hlist, hinv.tiled.concat (by dsimp only; omega) hap, ?_, ?_, ?_, ?_⟩
  · intro b hb x hx
    rcases List.mem_append.mp hb with hb | hb
    · obtain ⟨q, hq, hqx⟩ := hinv.covered b hb x hx
      exact ⟨q, List.mem_cons_of_mem _ hq, hqx⟩
    · rw [List.mem_singleton.mp hb] at hx
      refine ⟨page, List.mem_cons_self, hx.1, ?_⟩
      have := hx.2
      dsimp only at this
      omega
  · intro a ha
    rcases List.mem_cons.mp ha with rfl | ha
    · exact ⟨hpos, _, List.mem_append_right _ (List.mem_singleton_self _), rfl, rfl, le_rfl⟩
    · obtain ⟨hone, c, hc, hrest⟩ := hinv.live a ha
      exact ⟨hone, c, List.mem_append_left _ hc, hrest⟩
  · refine List.nodup_cons.mpr ⟨?_, hinv.distinct⟩
    intro hmem
    obtain ⟨a, ha, heq⟩ := List.mem_map.mp hmem
    obtain ⟨-, c, hc, -, hptr, hsize⟩ := hinv.live a ha
    have hcpos := hinv.tiled.header_le c hc
    dsimp only at heq
    rcases hapart c hc with hap | hap <;> omega
  · exact (HeapRun.allPages_popped _ hstack hrest).trans hinv.pages

/-- A call of `pmm_alloc` keeps the invariant. -/
lemma alloc (hok : PagesOk init) (hinv : HeapInv init h bs) {n fuel p : ℕ} {s : Pmm}
    (hpos : 1 ≤ n) (hle : n ≤ pmmBlockSize - memblkSize)
    (hcall : pmmAlloc fuel h.pmm n = some (p, s)) :
    ∃ bs', HeapInv init
      { h with
        pmm := s
        blocks := if p = 0 then h.blocks else (p, n) :: h.blocks
        heapPages := poppedPages h.pmm s ++ h.heapPages } bs' := by
  have hhdr : memblkSize = 24 := rfl
  have hpg : pmmBlockSize = 4096 := rfl
  have hmod : modulus = 2 ^ 64 := rfl
  have hst := hinv.heapState hok
  cases hfit : firstFit memblkSize (n + memblkSize) bs with
  | some r =>
    obtain ⟨b, bs'⟩ := r
    obtain ⟨hrun, hlist⟩ := pmmAlloc_of_fit hst (by omega) (by omega) hfit (Nat.lt_succ_self _)
    generalize takeBlock h.pmm.mem (n + memblkSize) b.addr = m at hrun hlist
    obtain ⟨rfl, rfl⟩ := Prod.mk.inj (pmmAlloc_unique hcall hrun)
    have hpop : poppedPages h.pmm { h.pmm with mem := m } = [] := by simp [poppedPages]
    have hne : b.addr + memblkSize ≠ 0 := by omega
    refine ⟨bs', ?_⟩
    rw [hpop, if_neg hne]
    exact hinv.alloc_fit hpos hfit hlist
  | none =>
    cases hstack : h.pmm.pmmStack with
    | nil =>
      have hrun := pmmAlloc_of_empty hst (by omega) (by omega) hfit hstack (Nat.lt_succ_self _)
      obtain ⟨rfl, rfl⟩ := Prod.mk.inj (pmmAlloc_unique hcall hrun)
      have hpop : poppedPages h.pmm h.pmm = [] := by simp [poppedPages]
      refine ⟨bs, ?_⟩
      rw [hpop, if_pos rfl]
      exact hinv
    | cons page rest =>
      obtain ⟨hal, hp0, hplt⟩ := hok.page page (hinv.mem_init (by simp [HeapRun.allPages, hstack]))
      rw [hpg] at hal
      have hap : ∀ c ∈ bs, HeadersApart page c.addr := by
        intro c hc
        have hsize := hinv.tiled.header_le c hc
        have hmem : page ∈ h.pmm.pmmStack ++ h.pages := by simp [hstack]
        have hsep := hinv.apart_of_page hok hmem (lt_add_of_pos_right c.addr (by omega))
          fun x hx hxb => hinv.covered c hc x ⟨hx, hxb⟩
        rcases hsep with hlo | hhi
        · exact Or.inr (by omega)
        · exact Or.inl (by omega)
      obtain ⟨t, hrun, htinit, htrest, htlist, -⟩ := pmmAlloc_of_fresh hst (by omega) (by omega) hfit
        hstack hp0 (by omega) hap (Nat.lt_succ_self _)
      obtain ⟨rfl, rfl⟩ := Prod.mk.inj (pmmAlloc_unique hcall hrun)
      have hpop : poppedPages h.pmm s = [page] := by
        simp [poppedPages, hstack, htrest]
      have hne : page + memblkSize ≠ 0 := by omega
      refine ⟨bs ++ [⟨page, n + memblkSize, false⟩], ?_⟩
      rw [hpop, if_neg hne, List.singleton_append]
      exact hinv.alloc_fresh hok hpos hle hstack htinit htrest htlist

/-- A call of `pmm_free` that merges only neighbours keeps the invariant. -/
lemma free (hok : PagesOk init) (hinv : HeapInv init h bs) {p n fuel : ℕ} {s : Pmm}
    (hlive : (p, n) ∈ h.blocks) (hcond : AbsorbsNeighbours h.pmm.mem (p - memblkSize))
    (hcall : pmmFree fuel h.pmm p = some s) :
    ∃ bs', HeapInv init { h with pmm := s, blocks := h.blocks.erase (p, n) } bs' := by
  have hhdr : memblkSize = 24 := rfl
  obtain ⟨hn, b, hb, hused, hptr, hsize⟩ := hinv.live _ hlive
  dsimp only at hn hptr hsize
  obtain ⟨pre, post, rfl⟩ := List.append_of_mem hb
  have hcont : Contiguous b post := by
    refine contiguous_of_absorbsNeighbours hinv.list.tail .start ?_
    have haddr : b.addr = p - memblkSize := by omega
    rwa [haddr]
  have hcov := hinv.covered.release hcont
  have htiled := hinv.tiled.release (by decide) hcont
  have hlt : ∀ c ∈ merge ⟨b.addr, b.size, true⟩ post, c.size < modulus := by
    intro c hc
    have hc' := htiled.header_le c (List.mem_append_right _ hc)
    have := hinv.end_le hok hcov (List.mem_append_right _ hc) (by omega)
    omega
  have hend := (hinv.heapState hok).end_le b (by simp)
  obtain ⟨m, hrun, hlist, -⟩ := pmmFree_of_mem (hinv.heapState hok) (by omega) hlt
    (Nat.lt_succ_self _)
  rw [hptr] at hcall
  obtain rfl := pmmFree_unique hcall hrun
  refine ⟨_, hinv.initialized, hlist, htiled, hcov, ?_, ?_, hinv.pages⟩
  · intro a ha
    obtain ⟨hone, c, hc, hcused, hcptr, hcsize⟩ := hinv.live a (List.mem_of_mem_erase ha)
    refine ⟨hone, c, mem_append_merge_of_used hc ?_ hcused, hcused, hcptr, hcsize⟩
    -- the block of another live allocation is not the one that is freed
    rintro rfl
    exact HeapRun.fst_ne_of_mem_erase hinv.distinct hlive ha (by omega)
  · exact hinv.distinct.sublist ((List.erase_sublist).map _)

/-- A call of `pmm_allocpage` keeps the invariant. -/
lemma allocpage (hok : PagesOk init) (hinv : HeapInv init h bs) :
    HeapInv init
      { h with
        pmm := (pmmAllocpage h.pmm).2
        pages := if (pmmAllocpage h.pmm).1 = 0 then h.pages
          else (pmmAllocpage h.pmm).1 :: h.pages } bs := by
  cases hstack : h.pmm.pmmStack with
  | nil =>
    rw [pmmAllocpage_nil hstack, if_pos rfl]
    exact hinv
  | cons page rest =>
    obtain ⟨-, hp0, -⟩ := hok.page page (hinv.mem_init (by simp [HeapRun.allPages, hstack]))
    rw [pmmAllocpage_fst hinv.initialized hstack, if_neg hp0]
    exact ⟨by simpa using hinv.initialized, by simpa using hinv.list, hinv.tiled, hinv.covered,
      hinv.live, hinv.distinct, (HeapRun.allPages_allocpage hinv.initialized hstack).trans hinv.pages⟩

/-- A call of `pmm_freepage` keeps the invariant. -/
lemma freepage (hok : PagesOk init) (hinv : HeapInv init h bs) {page : ℕ}
    (hlive : page ∈ h.pages) :
    HeapInv init { h with pmm := pmmFreepage h.pmm page, pages := h.pages.erase page } bs := by
  have hlen := hok.stack_lt hinv.pages hlive
  exact ⟨by simpa using hinv.initialized, by simpa using hinv.list, hinv.tiled, hinv.covered,
    hinv.live, hinv.distinct,
    (HeapRun.allPages_freepage hinv.initialized hlen hlive).trans hinv.pages⟩

/-- What the callers own lies outside the block headers. -/
lemma outsideHeaders (hok : PagesOk init) (hinv : HeapInv init h bs) {x : ℕ} (hown : h.Owns x) :
    OutsideHeaders bs x := by
  have hhdr : memblkSize = 24 := rfl
  intro c hc
  have hcsize := hinv.tiled.header_le c hc
  rcases hown with ⟨l, hl, hlx, hxl⟩ | ⟨q, hq, hqx, hxq⟩
  · -- the payload of a block does not meet the header of any block
    obtain ⟨-, b, hb, -, hptr, hbsize⟩ := hinv.live l hl
    by_cases hbc : b = c
    · subst hbc
      exact Or.inr (by omega)
    · rcases hinv.tiled.apart_of_ne hb hc hbc with hap | hap
      · exact Or.inl (by omega)
      · exact Or.inr (by omega)
  · have hpos : c.addr < c.addr + c.size := by omega
    have hsep := hinv.apart_of_page hok (List.mem_append_right h.pmm.pmmStack hq) hpos
      fun x hx hxb => hinv.covered c hc x ⟨hx, hxb⟩
    rcases hsep with hlo | hhi
    · exact Or.inr (by omega)
    · exact Or.inl (by omega)

/-- A write into what the callers own keeps the invariant. -/
lemma write (hok : PagesOk init) (hinv : HeapInv init h bs) {a : ℕ} {v : UInt8} (hown : h.Owns a) :
    HeapInv init { h with pmm := { h.pmm with mem := Function.update h.pmm.mem a v } } bs := by
  refine ⟨hinv.initialized, ?_, hinv.tiled, hinv.covered, hinv.live, hinv.distinct, hinv.pages⟩
  refine hinv.list.congr fun c hc => readMemblk_congr fun x hx hxc => Function.update_of_ne ?_ _ _
  rintro rfl
  rcases hinv.outsideHeaders hok hown c hc with hlo | hhi <;> omega

/-- Every step in which `pmm_free` merges only neighbours keeps the invariant. -/
theorem step (hok : PagesOk init) {op : HeapOp} {h' : HeapRun} (hinv : HeapInv init h bs)
    (hcond : FreesNeighbours h op) (hstep : HeapStep h op h') : ∃ bs', HeapInv init h' bs' := by
  cases hstep with
  | alloc hpos hle hcall => exact hinv.alloc hok hpos hle hcall
  | free hlive hcall => exact hinv.free hok hlive hcond hcall
  | allocpage => exact ⟨bs, hinv.allocpage hok⟩
  | freepage hlive => exact ⟨bs, hinv.freepage hok hlive⟩
  | write hown => exact ⟨bs, hinv.write hok hown⟩

end HeapInv

/-- A start state satisfies the invariant with the empty heap. -/
lemma heapInv_start {s : Pmm} (hs : HeapStart s) :
    HeapInv s.pmmStack (HeapRun.start s) [] := by
  refine ⟨hs.initialized, hs.empty, ⟨by simp, List.Pairwise.nil⟩, by simp [Covered],
    by simp [HeapRun.start], by simp [HeapRun.start], ?_⟩
  simp [HeapRun.allPages, HeapRun.start]

/-! ### Following a run on the abstract list -/

/-- What a run looks like from the abstract list: the blocks, and the lists a run carries. -/
structure HeapView (h : HeapRun) (bs : List Block) (stack : List ℕ) (blocks : List (ℕ × ℕ))
    (pages heapPages : List ℕ) : Prop where
  state : HeapState h.pmm bs
  stack_eq : h.pmm.pmmStack = stack
  blocks_eq : h.blocks = blocks
  pages_eq : h.pages = pages
  heapPages_eq : h.heapPages = heapPages

namespace HeapView

variable {h : HeapRun} {bs : List Block} {stack pages heapPages : List ℕ}
  {blocks : List (ℕ × ℕ)} {n page : ℕ}

/-- An allocation from the list. -/
lemma alloc_fit (b : Block) (bs' : List Block)
    (hv : HeapView h bs stack blocks pages heapPages) (hpos : 1 ≤ n)
    (hle : n ≤ pmmBlockSize - memblkSize)
    (hfit : firstFit memblkSize (n + memblkSize) bs = some (b, bs'))
    (htiled : Tiled memblkSize bs') (hend : ∀ b ∈ bs', b.addr + b.size ≤ modulus) :
    ∃ h', HeapStep h (.alloc n) h' ∧
      HeapView h' bs' stack ((b.addr + memblkSize, n) :: blocks) pages heapPages := by
  obtain ⟨hst, rfl, rfl, rfl, rfl⟩ := hv
  have hsmall : n + 2 * memblkSize < modulus := by
    simp only [pmmBlockSize, memblkSize, modulus] at *
    omega
  obtain ⟨hrun, hlist⟩ := pmmAlloc_of_fit hst (by omega) hsmall hfit (Nat.lt_succ_self _)
  generalize takeBlock h.pmm.mem (n + memblkSize) b.addr = m at hrun hlist
  have hne : b.addr + memblkSize ≠ 0 := by simp [memblkSize]
  refine ⟨_, .alloc hpos hle hrun, ⟨hst.initialized, hlist, htiled, hend⟩, rfl, ?_, rfl, ?_⟩
  · simp only [if_neg hne]
  · simp [poppedPages]

/-- An allocation from a fresh page. -/
lemma alloc_fresh (hv : HeapView h bs (page :: stack) blocks pages heapPages) (hpos : 1 ≤ n)
    (hle : n ≤ pmmBlockSize - memblkSize)
    (hfit : firstFit memblkSize (n + memblkSize) bs = none) (hpage : page ≠ 0)
    (hlt : page + memblkSize < modulus) (hap : ∀ c ∈ bs, HeadersApart page c.addr)
    (htiled : Tiled memblkSize (bs ++ [⟨page, n + memblkSize, false⟩]))
    (hend : ∀ b ∈ bs ++ [⟨page, n + memblkSize, false⟩], b.addr + b.size ≤ modulus) :
    ∃ h', HeapStep h (.alloc n) h' ∧
      HeapView h' (bs ++ [⟨page, n + memblkSize, false⟩]) stack ((page + memblkSize, n) :: blocks)
        pages (page :: heapPages) := by
  obtain ⟨hst, hstack, rfl, rfl, rfl⟩ := hv
  have hsmall : n + memblkSize < modulus := by
    simp only [pmmBlockSize, memblkSize, modulus] at *
    omega
  obtain ⟨s, hrun, hinit, hrest, hlist, -⟩ := pmmAlloc_of_fresh hst (by omega) hsmall hfit hstack
    hpage hlt hap (Nat.lt_succ_self _)
  have hne : page + memblkSize ≠ 0 := by omega
  refine ⟨_, .alloc hpos hle hrun, ⟨hinit, hlist, htiled, hend⟩, hrest, ?_, rfl, ?_⟩
  · simp only [if_neg hne]
  · simp [poppedPages, hstack, hrest]

/-- A free, whatever it merges. -/
lemma free (pre : List Block) (b : Block) (post : List Block)
    (hv : HeapView h (pre ++ b :: post) stack blocks pages heapPages)
    (hlive : (b.addr + memblkSize, n) ∈ blocks) (hptr : b.addr + memblkSize < modulus)
    (hlt : ∀ c ∈ merge ⟨b.addr, b.size, true⟩ post, c.size < modulus)
    (htiled : Tiled memblkSize (pre ++ merge ⟨b.addr, b.size, true⟩ post))
    (hend : ∀ c ∈ pre ++ merge ⟨b.addr, b.size, true⟩ post, c.addr + c.size ≤ modulus) :
    ∃ h', HeapStep h (.free (b.addr + memblkSize)) h' ∧
      HeapView h' (pre ++ merge ⟨b.addr, b.size, true⟩ post) stack
        (blocks.erase (b.addr + memblkSize, n)) pages heapPages := by
  obtain ⟨hst, rfl, rfl, rfl, rfl⟩ := hv
  obtain ⟨m, hrun, hlist, -⟩ := pmmFree_of_mem hst hptr hlt (Nat.lt_succ_self _)
  exact ⟨_, .free hlive hrun, ⟨hst.initialized, hlist, htiled, hend⟩, rfl, rfl, rfl, rfl⟩

/-- A page taken from the stack. -/
lemma allocpage (hv : HeapView h bs (page :: stack) blocks pages heapPages) (hpage : page ≠ 0) :
    ∃ h', HeapStep h .allocpage h' ∧ HeapView h' bs stack blocks (page :: pages) heapPages := by
  obtain ⟨hst, hstack, rfl, rfl, rfl⟩ := hv
  have hfst := pmmAllocpage_fst hst.initialized hstack
  refine ⟨_, .allocpage, ⟨?_, ?_, hst.tiled, hst.end_le⟩, ?_, rfl, ?_, rfl⟩
  · simpa using hst.initialized
  · simpa using hst.list
  · rw [pmmAllocpage_stack hst.initialized, hstack, List.tail_cons]
  · rw [hfst, if_neg hpage]

/-- A page given back to the stack. -/
lemma freepage (page : ℕ) (hv : HeapView h bs stack blocks pages heapPages) (hlive : page ∈ pages)
    (hlen : stack.length < stackSize) :
    ∃ h', HeapStep h (.freepage page) h' ∧
      HeapView h' bs (page :: stack) blocks (pages.erase page) heapPages := by
  obtain ⟨hst, rfl, rfl, rfl, rfl⟩ := hv
  refine ⟨_, .freepage hlive, ⟨?_, ?_, hst.tiled, hst.end_le⟩, ?_, rfl, rfl, rfl⟩
  · simpa using hst.initialized
  · simpa using hst.list
  · exact pmmFreepage_stack hst.initialized hlen page

end HeapView

/-- The state after `pmm_init` on a map with one usable entry of three pages. -/
def threePages : Pmm := pmmInit (.boot fun _ => 0) [⟨0x4000, 0x3000, memmapUsable⟩]

lemma threePages_start : HeapStart threePages := heapStart_pmmInit limineMap_threePages rfl

lemma threePages_stack : threePages.pmmStack = [0x6000, 0x5000, 0x4000] :=
  pmmInit_stack_eq limineMap_threePages.noWrap _ (by decide)

/-- The abstract list at the start of a run. -/
lemma HeapStart.view {s : Pmm} (hs : HeapStart s) :
    HeapView (HeapRun.start s) [] s.pmmStack [] [] [] :=
  ⟨⟨hs.initialized, hs.empty, ⟨by simp, List.Pairwise.nil⟩, by simp⟩, rfl, rfl, rfl, rfl⟩

lemma threePages_view :
    HeapView (HeapRun.start threePages) [] [0x6000, 0x5000, 0x4000] [] [] [] := by
  rw [← threePages_stack]
  exact threePages_start.view

/-! ### The main result -/

/-- In every run in which each `pmm_free` merges only blocks that are neighbours in memory, every
state reached is separated. -/
theorem heap_separated {s : Pmm} (hs : HeapStart s) {ops : List HeapOp} {h : HeapRun}
    (htrace : Trace (Restrict FreesNeighbours HeapStep) (HeapRun.start s) ops h) : Separated h := by
  have hok : PagesOk s.pmmStack := ⟨hs.nodup, hs.page, hs.length_le⟩
  obtain ⟨bs, hinv⟩ : ∃ bs, HeapInv s.pmmStack h bs := by
    refine htrace.invariant (fun h => ∃ bs, HeapInv s.pmmStack h bs) ⟨[], heapInv_start hs⟩ ?_
    rintro a op b ⟨bs, hinv⟩ ⟨hcond, hstep⟩
    exact hinv.step hok hcond hstep
  exact hinv.separated hok

/-- A block is cut and merged again: a request that fills a page is freed, and one of sixteen bytes
is served from its block and freed. -/
lemma exists_cutAndMerge : ∃ h₁ h₂ h₃ h₄,
    HeapStep (HeapRun.start threePages) (.alloc 4072) h₁ ∧
    HeapStep h₁ (.free 0x6018) h₂ ∧ FreesNeighbours h₁ (.free 0x6018) ∧
    HeapView h₂ [⟨0x6000, 4096, true⟩] [0x5000, 0x4000] [] [] [0x6000] ∧
    HeapStep h₂ (.alloc 16) h₃ ∧
    HeapStep h₃ (.free 0x6018) h₄ ∧ FreesNeighbours h₃ (.free 0x6018) := by
  obtain ⟨h₁, hs₁, hv₁⟩ := threePages_view.alloc_fresh (n := 4072) (by decide) (by decide) rfl
    (by decide) (by decide) (by simp) (by decide) (by decide)
  obtain ⟨h₂, hs₂, hv₂⟩ := hv₁.free [] ⟨0x6000, 4096, false⟩ [] (n := 4072) (by decide)
    (by decide) (by decide) (by decide) (by decide)
  obtain ⟨h₃, hs₃, hv₃⟩ := hv₂.alloc_fit ⟨0x6000, 4096, true⟩
    [⟨0x6000, 40, false⟩, ⟨0x6028, 4056, true⟩] (n := 16) (by decide) (by decide) (by decide)
    (by decide) (by decide)
  obtain ⟨h₄, hs₄, -⟩ := hv₃.free [] ⟨0x6000, 40, false⟩ [⟨0x6028, 4056, true⟩] (n := 16)
    (by decide) (by decide) (by decide) (by decide) (by decide)
  have hlist₁ := hv₁.state.list
  rw [hlist₁.1] at hlist₁
  have hlist₃ := hv₃.state.list
  rw [hlist₃.1] at hlist₃
  exact ⟨h₁, h₂, h₃, h₄, hs₁, hs₂,
    absorbsNeighbours_of_contiguous (b := ⟨0x6000, 4096, false⟩) hlist₁ trivial, hv₂, hs₃, hs₄,
    absorbsNeighbours_of_contiguous (b := ⟨0x6000, 40, false⟩) hlist₃ fun _ => ⟨rfl, trivial⟩⟩

/-- A block that is cut and merged again. -/
theorem heap_separated_cutAndMerge : ∃ h, HeapStart threePages ∧
    Trace (Restrict FreesNeighbours HeapStep) (HeapRun.start threePages)
      [.alloc 4072, .free 0x6018, .alloc 16, .free 0x6018] h ∧ Separated h := by
  obtain ⟨h₁, h₂, h₃, h₄, hs₁, hs₂, hfree₂, -, hs₃, hs₄, hfree₄⟩ := exists_cutAndMerge
  have htrace : Trace (Restrict FreesNeighbours HeapStep) (HeapRun.start threePages)
      [.alloc 4072, .free 0x6018, .alloc 16, .free 0x6018] h₄ :=
    .snoc (.snoc (.snoc (.snoc .nil ⟨trivial, hs₁⟩) ⟨hfree₂, hs₂⟩) ⟨trivial, hs₃⟩) ⟨hfree₄, hs₄⟩
  exact ⟨h₄, threePages_start, htrace, heap_separated threePages_start htrace⟩

/-- A legal run whose last state is not separated.  The page `0x6000` goes to a caller of
`pmm_allocpage`; the pages `0x5000` and `0x4000` become heap blocks in this list order, and freeing
the second and then the first merges them into one block of two pages that starts at `0x5000`.  The
next two allocations are served from this block, the second one inside the page `0x6000`. -/
theorem heap_not_separated : ∃ h, HeapStart threePages ∧
    Trace HeapStep (HeapRun.start threePages)
      [.allocpage, .alloc 4072, .alloc 4072, .free 0x4018, .free 0x5018, .alloc 4072, .alloc 4072]
      h ∧ ¬ Separated h := by
  obtain ⟨h₁, hs₁, hv₁⟩ := threePages_view.allocpage (by decide)
  obtain ⟨h₂, hs₂, hv₂⟩ := hv₁.alloc_fresh (n := 4072) (by decide) (by decide) rfl
    (by decide) (by decide) (by simp) (by decide) (by decide)
  obtain ⟨h₃, hs₃, hv₃⟩ := hv₂.alloc_fresh (n := 4072) (by decide) (by decide) (by decide)
    (by decide) (by decide) (by decide) (by decide) (by decide)
  obtain ⟨h₄, hs₄, hv₄⟩ := hv₃.free [⟨0x5000, 4096, false⟩] ⟨0x4000, 4096, false⟩ []
    (n := 4072) (by decide) (by decide) (by decide) (by decide) (by decide)
  obtain ⟨h₅, hs₅, hv₅⟩ := hv₄.free [] ⟨0x5000, 4096, false⟩ [⟨0x4000, 4096, true⟩]
    (n := 4072) (by decide) (by decide) (by decide) (by decide) (by decide)
  obtain ⟨h₆, hs₆, hv₆⟩ := hv₅.alloc_fit ⟨0x5000, 8192, true⟩
    [⟨0x5000, 4096, false⟩, ⟨0x6000, 4096, true⟩] (n := 4072) (by decide) (by decide) (by decide)
    (by decide) (by decide)
  obtain ⟨h₇, hs₇, hv₇⟩ := hv₆.alloc_fit ⟨0x6000, 4096, true⟩
    [⟨0x5000, 4096, false⟩, ⟨0x6000, 4096, false⟩] (n := 4072) (by decide) (by decide) (by decide)
    (by decide) (by decide)
  refine ⟨h₇, threePages_start, ?_, ?_⟩
  · exact .snoc (.snoc (.snoc (.snoc (.snoc (.snoc (.snoc .nil hs₁) hs₂) hs₃) hs₄) hs₅) hs₆) hs₇
  · intro hsep
    have hforeign := hsep.foreign (0x6018, 4072) (by rw [hv₇.blocks_eq]; decide) 0x6000
      (by rw [hv₇.pages_eq]; simp)
    revert hforeign
    decide

end Soaplin

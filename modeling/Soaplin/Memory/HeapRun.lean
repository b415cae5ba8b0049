import Soaplin.Memory.HeapList

/-!
# Runs of the heap

`pmm_alloc` and `pmm_free` on a heap list that is a tiling: each is the operation of the abstract
free list.  A run of the allocator (`HeapStep`) carries, next to the state of the program, the
allocations that are live, the pages that are live through `pmm_allocpage` and the pages that the
heap has popped.  Writing into a live allocation or a live page is a step too.
-/

namespace Soaplin

open ByteMemory Word64 FreeList LinkedChain TransitionTrace

/-! ### Iteration bounds -/

/-- A larger bound does not change the result of the search. -/
lemma findBlock_mono {m : Memory} {size fuel fuel' p prev : ℕ} {r : ℕ × ℕ}
    (h : findBlock m size fuel p prev = some r) (hle : fuel ≤ fuel') :
    findBlock m size fuel' p prev = some r := by
  induction fuel generalizing fuel' p prev with
  | zero => cases h
  | succ fuel ih =>
    obtain ⟨fuel', rfl⟩ := Nat.exists_eq_succ_of_ne_zero (Nat.ne_zero_of_lt hle)
    rw [Nat.succ_eq_add_one]
    rw [findBlock] at h ⊢
    split_ifs at h ⊢
    · exact h
    · exact h
    · exact ih h (by omega)

/-- A larger bound does not change the result of the merge loop. -/
lemma mergeLoop_mono {m m' : Memory} {b fuel fuel' : ℕ} (h : mergeLoop b fuel m = some m')
    (hle : fuel ≤ fuel') : mergeLoop b fuel' m = some m' := by
  induction fuel generalizing fuel' m with
  | zero => cases h
  | succ fuel ih =>
    obtain ⟨fuel', rfl⟩ := Nat.exists_eq_succ_of_ne_zero (Nat.ne_zero_of_lt hle)
    rw [Nat.succ_eq_add_one]
    rw [mergeLoop] at h ⊢
    dsimp only at h ⊢
    split_ifs at h ⊢
    · exact ih h (by omega)
    · exact h

/-- A larger bound does not change the result of `pmm_alloc`. -/
lemma pmmAlloc_mono {s : Pmm} {n fuel fuel' : ℕ} {r : ℕ × Pmm} (h : pmmAlloc fuel s n = some r)
    (hle : fuel ≤ fuel') : pmmAlloc fuel' s n = some r := by
  unfold pmmAlloc at h ⊢
  split_ifs at h ⊢
  · exact h
  · exact h
  · dsimp only at h ⊢
    cases hfind : findBlock s.mem (wadd n memblkSize) fuel s.pmmFreeBlocks 0 with
    | none => rw [hfind] at h; cases h
    | some q =>
      rw [hfind] at h
      rw [findBlock_mono hfind hle]
      exact h

/-- A larger bound does not change the result of `pmm_free`. -/
lemma pmmFree_mono {s s' : Pmm} {p fuel fuel' : ℕ} (h : pmmFree fuel s p = some s')
    (hle : fuel ≤ fuel') : pmmFree fuel' s p = some s' := by
  unfold pmmFree at h ⊢
  split_ifs at h ⊢
  · exact h
  · exact h
  · obtain ⟨m, hm, rfl⟩ := Option.map_eq_some_iff.mp h
    dsimp only
    rw [mergeLoop_mono hm hle]
    rfl

/-- Two calls of `pmm_alloc` that return agree, whatever their bounds. -/
lemma pmmAlloc_unique {s : Pmm} {n fuel fuel' : ℕ} {r r' : ℕ × Pmm}
    (h : pmmAlloc fuel s n = some r) (h' : pmmAlloc fuel' s n = some r') : r = r' := by
  have h₁ := pmmAlloc_mono h (le_max_left fuel fuel')
  have h₂ := pmmAlloc_mono h' (le_max_right fuel fuel')
  exact Option.some.inj (h₁.symm.trans h₂)

/-- Two calls of `pmm_free` that return agree, whatever their bounds. -/
lemma pmmFree_unique {s r r' : Pmm} {p fuel fuel' : ℕ} (h : pmmFree fuel s p = some r)
    (h' : pmmFree fuel' s p = some r') : r = r' := by
  have h₁ := pmmFree_mono h (le_max_left fuel fuel')
  have h₂ := pmmFree_mono h' (le_max_right fuel fuel')
  exact Option.some.inj (h₁.symm.trans h₂)

/-! ### The calls on a heap list -/

/-- The heap list of a state is `bs`, and its headers do not overlap. -/
structure HeapHeaders (s : Pmm) (bs : List Block) : Prop where
  initialized : s.pmmInitialized
  list : HeapList s.mem s.pmmFreeBlocks bs
  apart : bs.Pairwise fun b c => HeadersApart b.addr c.addr

/-- The address `x` lies in no block header of the list. -/
def OutsideHeaders (bs : List Block) (x : ℕ) : Prop :=
  ∀ c ∈ bs, x < c.addr ∨ c.addr + memblkSize ≤ x

variable {s : Pmm} {bs bs' pre post : List Block} {b : Block} {n fuel page : ℕ} {rest : List ℕ}

/-- The memory in which the last block of the list, if there is one, links to a page. -/
def linkLast (m : Memory) (bs : List Block) (page : ℕ) : Memory :=
  match bs.getLast? with
  | some last => setBlockNext m last.addr page
  | none => m

/-- Only headers of the list are written. -/
lemma linkLast_apply {m : Memory} {x : ℕ} (hx : OutsideHeaders bs x) :
    linkLast m bs page x = m x := by
  rw [linkLast]
  cases hlast : bs.getLast? with
  | none => rfl
  | some last => exact setBlockNext_apply (hx last (List.mem_of_getLast? hlast))

namespace HeapHeaders

/-- Whatever the size, the result is `NULL` if no block fits and no page is left. -/
lemma alloc_refused (h : HeapHeaders s bs) (hn : n ≠ 0)
    (hbs : ∀ c ∈ bs, ¬ c.Fits (wadd n memblkSize)) (hstack : s.pmmStack = [])
    (hfuel : bs.length < fuel) : pmmAlloc fuel s n = some (0, s) := by
  have hfind : findBlock s.mem (wadd n memblkSize) fuel s.pmmFreeBlocks 0 =
      some (0, (bs.map Block.addr).getLastD 0) := findBlock_of_not_fits h.list hbs hfuel
  simp [pmmAlloc, h.initialized, hn, hfind, pmmAllocpage_nil hstack]

/-- Whatever the size, `pmm_alloc` returns the first block that fits the wrapped sum. -/
lemma alloc_first (h : HeapHeaders s (pre ++ b :: post)) (hn : n ≠ 0)
    (hpre : ∀ c ∈ pre, ¬ c.Fits (wadd n memblkSize)) (hb : b.Fits (wadd n memblkSize))
    (hfuel : (pre ++ b :: post).length < fuel) :
    pmmAlloc fuel s n = some (wadd b.addr memblkSize,
      { s with mem := takeBlock s.mem (wadd n memblkSize) b.addr }) := by
  have hlen : pre.length < fuel := by
    rw [List.length_append, List.length_cons] at hfuel
    omega
  obtain ⟨prev, hfind⟩ : ∃ prev, findBlock s.mem (wadd n memblkSize) fuel s.pmmFreeBlocks 0 =
      some (b.addr, prev) := findBlock_of_fits h.list hpre hb hlen
  obtain ⟨hb0, -, -⟩ := h.list.header (b := b) (by simp)
  simp [pmmAlloc, h.initialized, hn, hfind, hb0]

/-- Whatever the size, a page is popped if no block fits, and appended to the heap list as one block
of the wrapped sum.  Besides its header only the link to it is written. -/
theorem alloc_popped (h : HeapHeaders s bs) (hn : n ≠ 0)
    (hbs : ∀ c ∈ bs, ¬ c.Fits (wadd n memblkSize)) (hstack : s.pmmStack = page :: rest)
    (hpage : page ≠ 0) (hlt : page < modulus) (hap : ∀ c ∈ bs, HeadersApart page c.addr)
    (hfuel : bs.length < fuel) :
    ∃ s', pmmAlloc fuel s n = some (wadd page memblkSize, s') ∧ s'.pmmInitialized ∧
      s'.pmmStack = rest ∧
      HeapList s'.mem s'.pmmFreeBlocks (bs ++ [⟨page, wadd n memblkSize, false⟩]) ∧
      ∀ x, x < page ∨ page + memblkSize ≤ x → s'.mem x = linkLast s.mem bs page x := by
  have hsize : wadd n memblkSize < modulus := wadd_lt _ _
  have hfind : findBlock s.mem (wadd n memblkSize) fuel s.pmmFreeBlocks 0 =
      some (0, (bs.map Block.addr).getLastD 0) := findBlock_of_not_fits h.list hbs hfuel
  have hpop : (pmmAllocpage s).2.pmmStack = rest := by
    rw [pmmAllocpage_stack h.initialized, hstack, List.tail_cons]
  generalize hsz : wadd n memblkSize = size at *
  rcases List.eq_nil_or_concat bs with rfl | ⟨pre, last, rfl⟩
  · refine ⟨{ (pmmAllocpage s).2 with
      mem := writeFreshBlock s.mem page size, pmmFreeBlocks := page }, ?_, ?_, hpop, ?_,
      fun x hx => writeFreshBlock_apply hx⟩
    · simp only [List.map_nil, List.getLastD_nil] at hfind
      simp [pmmAlloc, h.initialized, hn, hsz, hfind, pmmAllocpage_fst h.initialized hstack, hpage]
    · simpa using h.initialized
    · exact heapList_fresh_nil hsize hpage
  · rw [List.concat_eq_append] at *
    have hlast : ((pre ++ [last]).map Block.addr).getLastD 0 = last.addr := by simp
    obtain ⟨hlast0, -, -⟩ := h.list.header (b := last) (by simp)
    refine ⟨{ (pmmAllocpage s).2 with
      mem := setBlockNext (writeFreshBlock s.mem page size) last.addr page },
      ?_, ?_, hpop, ?_, fun x hx => ?_⟩
    · rw [hlast] at hfind
      simp [pmmAlloc, h.initialized, hn, hsz, hfind, pmmAllocpage_fst h.initialized hstack, hpage,
        hlast0]
    · simpa using h.initialized
    · have happ := heapList_fresh_append h.list h.apart hsize hpage hlt hap
      simpa using happ
    · have hlink : linkLast s.mem (pre ++ [last]) page = setBlockNext s.mem last.addr page := by
        simp [linkLast]
      rw [hlink]
      exact store64_congr (writeFreshBlock_apply hx)

/-- `pmm_free` of the payload of a block frees it and merges it with the free blocks behind it in
the list.  It writes only the header of the block. -/
theorem free (h : HeapHeaders s (pre ++ b :: post)) (haddr : b.addr < modulus)
    (hptr : wadd b.addr memblkSize ≠ 0)
    (hlt : ∀ c ∈ merge ⟨b.addr, b.size, true⟩ post, c.size < modulus)
    (hfuel : post.length < fuel) :
    ∃ m, pmmFree fuel s (wadd b.addr memblkSize) = some { s with mem := m } ∧
      HeapList m s.pmmFreeBlocks (pre ++ merge ⟨b.addr, b.size, true⟩ post) ∧
      ∀ x, x < b.addr ∨ b.addr + memblkSize ≤ x → m x = s.mem x := by
  have hblk : wsub (wadd b.addr memblkSize) memblkSize = b.addr := wsub_wadd_cancel _ haddr
  have hap : ∀ c ∈ pre ++ post, HeadersApart b.addr c.addr := headersApart_of_pairwise h.apart
  obtain ⟨-, hb0, hbs, -, hpost⟩ := h.list.tail
  -- the memory after `block->is_free = true`
  have hhdr : readMemblk (setBlockIsFree s.mem b.addr true) b.addr =
      ⟨b.size, blockNext s.mem b.addr, true⟩ := by
    rw [readMemblk_setBlockIsFree, readMemblk, hbs]
  have hflag : blockIsFree (setBlockIsFree s.mem b.addr true) b.addr = true := by
    rw [blockIsFree_eq, hhdr]
  have hpost' : HeapList (setBlockIsFree s.mem b.addr true)
      (blockNext (setBlockIsFree s.mem b.addr true) b.addr) post := by
    rw [blockNext_eq, hhdr]
    exact hpost.congr fun c hc =>
      readMemblk_setBlockIsFree_of_apart (hap c (List.mem_append_right _ hc))
  obtain ⟨m, hrun, hlist, hframe⟩ := mergeLoop_heapList hb0 (by rw [blockSize_eq, hhdr]) hpost'
    (fun c hc => hap c (List.mem_append_right _ hc)) (by rw [hflag]; exact hlt) hfuel
  have hframe' : ∀ x, x < b.addr ∨ b.addr + memblkSize ≤ x → m x = s.mem x := by
    intro x hx
    rw [hframe x hx, setBlockIsFree_apply hx]
  refine ⟨m, ?_, ?_, hframe'⟩
  · rw [pmmFree, if_neg (by simp [h.initialized]), if_neg hptr]
    simp only [hblk, hrun, Option.map_some]
  · refine h.list.splice (fun c hc => ?_) (by rw [← hflag]; exact hlist)
    exact readMemblk_of_apart (hap c (List.mem_append_left _ hc)) hframe'

end HeapHeaders

/-! ### The calls on a tiling -/

/-- The heap list of a state is the tiling `bs`, inside the address space. -/
structure HeapState (s : Pmm) (bs : List Block) : Prop where
  initialized : s.pmmInitialized
  list : HeapList s.mem s.pmmFreeBlocks bs
  tiled : Tiled memblkSize bs
  end_le : ∀ b ∈ bs, b.addr + b.size ≤ modulus

/-- The headers of a tiling do not overlap. -/
lemma HeapState.headers (h : HeapState s bs) : HeapHeaders s bs :=
  ⟨h.initialized, h.list, headersApart_of_tiled h.tiled⟩

/-- When a block fits, `pmm_alloc` takes the first one and leaves the page stack alone. -/
theorem pmmAlloc_of_fit (h : HeapState s bs) (hn : n ≠ 0) (hsmall : n + 2 * memblkSize < modulus)
    (hfit : firstFit memblkSize (n + memblkSize) bs = some (b, bs')) (hfuel : bs.length < fuel) :
    pmmAlloc fuel s n = some (b.addr + memblkSize,
        { s with mem := takeBlock s.mem (n + memblkSize) b.addr }) ∧
      HeapList (takeBlock s.mem (n + memblkSize) b.addr) s.pmmFreeBlocks bs' := by
  obtain ⟨pre, post, rfl, hpre, hb, rfl⟩ := firstFit_eq_some hfit
  have hhdr : memblkSize = 24 := rfl
  have hend := h.end_le b (by simp)
  have hsize : wadd n memblkSize = n + memblkSize := wadd_of_lt (by omega)
  have hptr : wadd b.addr memblkSize = b.addr + memblkSize := by
    have := hb.2
    exact wadd_of_lt (by omega)
  have hrun := h.headers.alloc_first hn (by rwa [hsize]) (by rwa [hsize]) hfuel
  rw [hsize, hptr] at hrun
  exact ⟨hrun, takeBlock_heapList h.list h.tiled hend (by omega) (by omega)⟩

/-- When no block fits and no page is left, `pmm_alloc` returns `NULL` and changes nothing. -/
theorem pmmAlloc_of_empty (h : HeapState s bs) (hn : n ≠ 0) (hsmall : n + memblkSize < modulus)
    (hfit : firstFit memblkSize (n + memblkSize) bs = none) (hstack : s.pmmStack = [])
    (hfuel : bs.length < fuel) : pmmAlloc fuel s n = some (0, s) := by
  refine h.headers.alloc_refused hn ?_ hstack hfuel
  rw [wadd_of_lt hsmall]
  exact firstFit_eq_none.mp hfit

/-- When no block fits, `pmm_alloc` pops a page and appends it to the heap list as one block of
exactly the requested size.  It writes inside block headers only. -/
theorem pmmAlloc_of_fresh (h : HeapState s bs) (hn : n ≠ 0) (hsmall : n + memblkSize < modulus)
    (hfit : firstFit memblkSize (n + memblkSize) bs = none) (hstack : s.pmmStack = page :: rest)
    (hpage : page ≠ 0) (hlt : page + memblkSize < modulus)
    (hap : ∀ c ∈ bs, HeadersApart page c.addr) (hfuel : bs.length < fuel) :
    ∃ s', pmmAlloc fuel s n = some (page + memblkSize, s') ∧ s'.pmmInitialized ∧
      s'.pmmStack = rest ∧
      HeapList s'.mem s'.pmmFreeBlocks (bs ++ [⟨page, n + memblkSize, false⟩]) ∧
      ∀ x, OutsideHeaders (bs ++ [⟨page, n + memblkSize, false⟩]) x → s'.mem x = s.mem x := by
  have hsize : wadd n memblkSize = n + memblkSize := wadd_of_lt hsmall
  have hbs : ∀ c ∈ bs, ¬ c.Fits (wadd n memblkSize) := by
    rw [hsize]
    exact firstFit_eq_none.mp hfit
  obtain ⟨s', hrun, hinit, hrest, hlist, hframe⟩ :=
    h.headers.alloc_popped hn hbs hstack hpage (by omega) hap hfuel
  rw [wadd_of_lt hlt] at hrun
  rw [hsize] at hlist
  refine ⟨s', hrun, hinit, hrest, hlist, fun x hx => ?_⟩
  rw [hframe x (hx ⟨page, n + memblkSize, false⟩ (by simp))]
  exact linkLast_apply fun c hc => hx c (List.mem_append_left _ hc)

/-- `pmm_free` of the payload of a block frees it and merges it with the free blocks behind it in
the list. -/
theorem pmmFree_of_mem (h : HeapState s (pre ++ b :: post)) (hptr : b.addr + memblkSize < modulus)
    (hlt : ∀ c ∈ merge ⟨b.addr, b.size, true⟩ post, c.size < modulus)
    (hfuel : post.length < fuel) :
    ∃ m, pmmFree fuel s (b.addr + memblkSize) = some { s with mem := m } ∧
      HeapList m s.pmmFreeBlocks (pre ++ merge ⟨b.addr, b.size, true⟩ post) ∧
      ∀ x, x < b.addr ∨ b.addr + memblkSize ≤ x → m x = s.mem x := by
  have hwadd : wadd b.addr memblkSize = b.addr + memblkSize := wadd_of_lt hptr
  have hne : b.addr + memblkSize ≠ 0 := by simp [memblkSize]
  rw [← hwadd] at hne
  have hfree := h.headers.free (by omega) hne hlt hfuel
  rwa [hwadd] at hfree

/-- On the abstract list `pmm_free` is `FreeList.release`. -/
theorem pmmFree_release (h : HeapState s bs) (hb : b ∈ bs) (hptr : b.addr + memblkSize < modulus)
    (hlt : ∀ c ∈ release b.addr bs, c.size < modulus) (hfuel : bs.length ≤ fuel) :
    ∃ m, pmmFree fuel s (b.addr + memblkSize) = some { s with mem := m } ∧
      HeapList m s.pmmFreeBlocks (release b.addr bs) := by
  obtain ⟨pre, post, rfl⟩ := List.append_of_mem hb
  have hpre : ∀ c ∈ pre, c.addr ≠ b.addr := by
    have hnodup := h.tiled.nodup_addr (by decide)
    rw [List.map_append, List.map_cons] at hnodup
    intro c hc heq
    refine List.disjoint_of_nodup_append hnodup (List.mem_map_of_mem hc) ?_
    rw [heq]
    exact List.mem_cons_self
  rw [release_eq hpre] at hlt ⊢
  have hlen : post.length < fuel := by
    rw [List.length_append, List.length_cons] at hfuel
    omega
  obtain ⟨m, hrun, hlist, -⟩ := pmmFree_of_mem h hptr
    (fun c hc => hlt c (List.mem_append_right _ hc)) hlen
  exact ⟨m, hrun, hlist⟩

end Soaplin

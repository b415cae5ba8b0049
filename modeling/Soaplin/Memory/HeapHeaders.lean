import Soaplin.Memory.HeapSeparation

/-!
# Runs that keep the block headers

`pmm_alloc` writes a header for a new block at an address that it computes: behind the part that it
cuts off a block, or on a page that it pops.  `KeepsHeaders` says that this header does not overlap
the header of a block of the list.  While every step meets this condition, the heap list stays a
list (`HeadersInv`), even when `pmm_free` has merged blocks that are not neighbours in memory and
the extents of the blocks overlap.  `HeadersInv.step` also counts the bytes that are lost on the
way: those behind the first block of a page.
-/

namespace Soaplin

open ByteMemory Word64 FreeList LinkedChain TransitionTrace

/-- The address of the header that `pmm_alloc(n)` writes for a new block, if any: the rest of the
first block that fits, or the page that is popped. -/
def newHeader (s : Pmm) (bs : List Block) (n : ℕ) : Option ℕ :=
  match firstFit memblkSize (n + memblkSize) bs with
  | some (b, _) =>
    if n + memblkSize + memblkSize < b.size then some (b.addr + (n + memblkSize)) else none
  | none => s.pmmStack.head?

/-- The step overwrites no header of a block of the heap list: a new header lies inside the address
space and does not overlap them, and a write does not hit them. -/
def KeepsHeaders (h : HeapRun) (op : HeapOp) : Prop :=
  ∀ bs, HeapList h.pmm.mem h.pmm.pmmFreeBlocks bs →
    match op with
    | .alloc n => ∀ a ∈ newHeader h.pmm bs n,
        a + memblkSize < modulus ∧ ∀ c ∈ bs, HeadersApart a c.addr
    | .write a _ => OutsideHeaders bs a
    | _ => True

/-- A page that the step pops for the heap is filled by the request. -/
def FillsPage (h : HeapRun) (op : HeapOp) : Prop :=
  ∀ bs, HeapList h.pmm.mem h.pmm.pmmFreeBlocks bs →
    match op with
    | .alloc n => (∀ c ∈ bs, ¬ c.Fits (n + memblkSize)) → h.pmm.pmmStack ≠ [] →
        n = pmmBlockSize - memblkSize
    | _ => True

/-- The invariant of a run from a stack with the pages `init` that keeps the headers, when the heap
list is `bs`. -/
structure HeadersInv (init : List ℕ) (h : HeapRun) (bs : List Block) : Prop
    extends HeapHeaders h.pmm bs where
  /-- Headers lie inside the address space. -/
  inside : ∀ b ∈ bs, b.addr + memblkSize < modulus
  /-- Every live allocation has a block in use. -/
  live : ∀ a ∈ h.blocks, ∃ b ∈ bs, b.free = false ∧ a.1 = b.addr + memblkSize
  /-- Live pointers are distinct. -/
  distinct : (h.blocks.map Prod.fst).Nodup
  /-- The blocks are not larger than the pages that the heap has popped. -/
  size_le : totalSize bs ≤ pmmBlockSize * h.heapPages.length
  /-- No page is lost or doubled. -/
  pages : h.allPages.Perm init

/-- The step from `bs` to `bs'` has lost the bytes of the pages it has popped that are in no block;
none if and only if the step fills its page. -/
def LosesPage (h : HeapRun) (op : HeapOp) (h' : HeapRun) (bs bs' : List Block) : Prop :=
  ∃ lost, totalSize bs' + lost + pmmBlockSize * h.heapPages.length =
      totalSize bs + pmmBlockSize * h'.heapPages.length ∧ (lost = 0 ↔ FillsPage h op)

/-! ### Cutting and merging -/

section Lists

variable {pre post bs : List Block} {b : Block} {size : ℕ}

/-- Headers apart, as a property of the addresses. -/
lemma headersApart_map :
    (bs.Pairwise fun b c => HeadersApart b.addr c.addr) ↔
      (bs.map Block.addr).Pairwise HeadersApart :=
  List.pairwise_map.symm

/-- Cutting a block keeps the headers apart, if the new header is apart from the others. -/
lemma headersApart_carve (h : (pre ++ b :: post).Pairwise fun b c => HeadersApart b.addr c.addr)
    (hnew : size + memblkSize < b.size →
      ∀ c ∈ pre ++ b :: post, HeadersApart (b.addr + size) c.addr) :
    (pre ++ (carve memblkSize size b ++ post)).Pairwise fun b c => HeadersApart b.addr c.addr := by
  rw [headersApart_map] at h ⊢
  unfold carve
  split_ifs with hlt
  · -- the new address may be moved to the front
    have hperm : (pre.map Block.addr ++ b.addr :: (b.addr + size) :: post.map Block.addr).Perm
        ((b.addr + size) :: (pre ++ b :: post).map Block.addr) := by
      rw [List.map_append, List.map_cons]
      calc pre.map Block.addr ++ b.addr :: (b.addr + size) :: post.map Block.addr
          _ |>.Perm (pre.map Block.addr ++ (b.addr + size) :: b.addr :: post.map Block.addr) :=
            (List.Perm.swap _ _ _).append_left _
          _ |>.Perm ((b.addr + size) :: (pre.map Block.addr ++ b.addr :: post.map Block.addr)) :=
            List.perm_middle
    rw [List.map_append, List.map_append]
    refine (hperm.pairwise_iff fun hap => Or.symm hap).mpr (List.pairwise_cons.mpr ⟨?_, h⟩)
    intro a ha
    obtain ⟨c, hc, rfl⟩ := List.mem_map.mp ha
    exact hnew hlt c hc
  · simpa using h

end Lists

namespace HeadersInv

variable {init : List ℕ} {h : HeapRun} {bs : List Block}

/-- The pages of a run are those of the initial stack. -/
lemma mem_init (hinv : HeadersInv init h bs) {q : ℕ} (hq : q ∈ h.allPages) : q ∈ init :=
  hinv.pages.subset hq

/-- The blocks of a heap list have different addresses. -/
lemma addr_inj (hinv : HeadersInv init h bs) {b c : Block} (hb : b ∈ bs) (hc : c ∈ bs)
    (haddr : b.addr = c.addr) : b = c :=
  List.inj_on_of_nodup_map hinv.list.chain.nodup hb hc haddr

/-- The sum of the sizes is a word. -/
lemma totalSize_lt (hok : PagesOk init) (hinv : HeadersInv init h bs) : totalSize bs < modulus := by
  have hlen := hinv.pages.length_eq
  have hle := hok.length_le
  have hsize := hinv.size_le
  simp only [HeapRun.allPages, List.length_append, pmmBlockSize, stackSize, modulus] at *
  omega

/-! ### The steps -/

/-- A new block in use makes its payload a live allocation. -/
lemma live_cons (hinv : HeadersInv init h bs) {bs' : List Block} {a n : ℕ}
    (hnew : ∃ c ∈ bs', c.free = false ∧ c.addr = a) (hfresh : ∀ c ∈ bs, c.free = false → c.addr ≠ a)
    (hold : ∀ c ∈ bs, c.free = false → c ∈ bs') :
    (∀ l ∈ (a + memblkSize, n) :: h.blocks,
        ∃ c ∈ bs', c.free = false ∧ l.1 = c.addr + memblkSize) ∧
      (((a + memblkSize, n) :: h.blocks).map Prod.fst).Nodup := by
  refine ⟨fun l hl => ?_, List.nodup_cons.mpr ⟨fun hmem => ?_, hinv.distinct⟩⟩
  · rcases List.mem_cons.mp hl with rfl | hl
    · obtain ⟨c, hc, hused, rfl⟩ := hnew
      exact ⟨c, hc, hused, rfl⟩
    · obtain ⟨c, hc, hused, hptr⟩ := hinv.live l hl
      exact ⟨c, hold c hc hused, hused, hptr⟩
  · obtain ⟨l, hl, heq⟩ := List.mem_map.mp hmem
    obtain ⟨c, hc, hused, hptr⟩ := hinv.live l hl
    exact hfresh c hc hused (by omega)

/-- Taking a block from the list. -/
lemma alloc_fit (hinv : HeadersInv init h bs) {n : ℕ} {m : Memory} {b : Block} {bs' : List Block}
    (hfit : firstFit memblkSize (n + memblkSize) bs = some (b, bs'))
    (hkeep : ∀ a ∈ newHeader h.pmm bs n, a + memblkSize < modulus ∧ ∀ c ∈ bs, HeadersApart a c.addr)
    (hlist : HeapList m h.pmm.pmmFreeBlocks bs') :
    HeadersInv init
        { h with
          pmm := { h.pmm with mem := m }
          blocks := (b.addr + memblkSize, n) :: h.blocks } bs' ∧ totalSize bs' = totalSize bs := by
  obtain ⟨pre, post, hbs, -, hb, hbs'⟩ := firstFit_eq_some hfit
  have hbmem : b ∈ bs := by simp [hbs]
  have hnew : n + memblkSize + memblkSize < b.size → b.addr + (n + memblkSize) + memblkSize < modulus ∧
      ∀ c ∈ bs, HeadersApart (b.addr + (n + memblkSize)) c.addr := by
    intro hlt
    refine hkeep _ ?_
    rw [newHeader, hfit]
    exact if_pos hlt
  have htotal : totalSize bs' = totalSize bs := by
    rw [hbs, hbs', totalSize_append, totalSize_append, totalSize_carve hb.2, totalSize_append,
      totalSize_cons]
  have hapart : bs'.Pairwise fun b c => HeadersApart b.addr c.addr := by
    rw [hbs']
    refine headersApart_carve (hbs ▸ hinv.apart) fun hlt => ?_
    rw [← hbs]
    exact (hnew hlt).2
  have hpiece : ∃ c ∈ bs', c.free = false ∧ c.addr = b.addr := by
    obtain ⟨c, hc, haddr, hused, -⟩ := @exists_mem_carve memblkSize _ _ hb.2
    refine ⟨c, ?_, hused, haddr⟩
    rw [hbs']
    exact List.mem_append_right _ (List.mem_append_left _ hc)
  have hother : ∀ c ∈ bs, c.free = false → c.addr ≠ b.addr := by
    -- a block in use is not the one that is taken
    intro c hc hused haddr
    rw [hinv.addr_inj hc hbmem haddr, hb.1] at hused
    cases hused
  have hold : ∀ c ∈ bs, c.free = false → c ∈ bs' :=
    fun c hc hused => mem_of_firstFit hfit hc hused
  have hinside : ∀ c ∈ bs', c.addr + memblkSize < modulus := by
    intro c hc
    rw [hbs'] at hc
    rcases List.mem_append.mp hc with hc | hc
    · exact hinv.inside c (by simp [hbs, hc])
    · rcases List.mem_append.mp hc with hc | hc
      · unfold carve at hc
        split_ifs at hc with hlt
        · rcases List.mem_cons.mp hc with rfl | hc
          · exact hinv.inside b hbmem
          · rw [List.mem_singleton.mp hc]
            exact (hnew hlt).1
        · rw [List.mem_singleton.mp hc]
          exact hinv.inside b hbmem
      · exact hinv.inside c (by simp [hbs, hc])
  obtain ⟨hlive, hdistinct⟩ := @live_cons _ _ _ hinv bs' b.addr n hpiece hother hold
  refine ⟨⟨⟨hinv.initialized, hlist, hapart⟩, hinside, hlive, hdistinct, ?_, hinv.pages⟩, htotal⟩
  rw [htotal]
  exact hinv.size_le

/-- Taking a fresh page. -/
lemma alloc_fresh (hok : PagesOk init) (hinv : HeadersInv init h bs) {n page : ℕ} {rest : List ℕ}
    (hpos : 1 ≤ n) (hle : n ≤ pmmBlockSize - memblkSize)
    (hfit : firstFit memblkSize (n + memblkSize) bs = none) (hstack : h.pmm.pmmStack = page :: rest)
    (hkeep : ∀ a ∈ newHeader h.pmm bs n, a + memblkSize < modulus ∧ ∀ c ∈ bs, HeadersApart a c.addr) :
    ∃ s, pmmAlloc (bs.length + 1) h.pmm n = some (page + memblkSize, s) ∧ s.pmmStack = rest ∧
      HeadersInv init
        { h with
          pmm := s
          blocks := (page + memblkSize, n) :: h.blocks
          heapPages := page :: h.heapPages } (bs ++ [⟨page, n + memblkSize, false⟩]) := by
  have hhdr : memblkSize = 24 := rfl
  have hpg : pmmBlockSize = 4096 := rfl
  have hmod : modulus = 2 ^ 64 := rfl
  have hsum : wadd n memblkSize = n + memblkSize := wadd_of_lt (by omega)
  obtain ⟨-, hp0, hplt⟩ := hok.page page (hinv.mem_init (by simp [HeapRun.allPages, hstack]))
  obtain ⟨hinside, hap⟩ := hkeep page (by rw [newHeader, hfit, hstack]; rfl)
  obtain ⟨s, hrun, hinit, hrest, hlist, -⟩ := hinv.alloc_popped (n := n) (by omega)
    (by rw [hsum]; exact firstFit_eq_none.mp hfit) hstack hp0 hplt hap (Nat.lt_succ_self _)
  rw [hsum] at hlist
  rw [wadd_of_lt hinside] at hrun
  have hapart : (bs ++ [(⟨page, n + memblkSize, false⟩ : Block)]).Pairwise
      fun b c => HeadersApart b.addr c.addr := by
    refine List.pairwise_append.mpr ⟨hinv.apart, List.pairwise_singleton _ _, fun c hc d hd => ?_⟩
    rw [List.mem_singleton.mp hd]
    exact Or.symm (hap c hc)
  obtain ⟨hlive, hdistinct⟩ := @live_cons _ _ _ hinv (bs ++ [⟨page, n + memblkSize, false⟩]) page n
    ⟨_, List.mem_append_right _ (List.mem_singleton_self _), rfl, rfl⟩ (fun c hc _ haddr => by
      rcases hap c hc with hap | hap <;> omega) fun c hc _ => List.mem_append_left _ hc
  refine ⟨s, hrun, hrest, ⟨⟨hinit, hlist, hapart⟩, fun c hc => ?_, hlive, hdistinct, ?_, ?_⟩⟩
  · rcases List.mem_append.mp hc with hc | hc
    · exact hinv.inside c hc
    · rw [List.mem_singleton.mp hc]
      exact hinside
  · have hsize := hinv.size_le
    rw [totalSize_append, totalSize_cons, totalSize_nil, List.length_cons, Nat.mul_succ]
    dsimp only
    omega
  · exact (HeapRun.allPages_popped _ hstack hrest).trans hinv.pages

/-- The call takes the first block that fits, and its list is the cut list. -/
lemma alloc_fit_run (hinv : HeadersInv init h bs) {n : ℕ} {b : Block} {bs' : List Block}
    (hpos : 1 ≤ n) (hle : n ≤ pmmBlockSize - memblkSize)
    (hfit : firstFit memblkSize (n + memblkSize) bs = some (b, bs'))
    (hkeep : ∀ a ∈ newHeader h.pmm bs n, a + memblkSize < modulus ∧ ∀ c ∈ bs, HeadersApart a c.addr) :
    ∃ m, pmmAlloc (bs.length + 1) h.pmm n = some (b.addr + memblkSize, { h.pmm with mem := m }) ∧
      HeapList m h.pmm.pmmFreeBlocks bs' := by
  have hpg : pmmBlockSize = 4096 := rfl
  have hhdr : memblkSize = 24 := rfl
  have hmod : modulus = 2 ^ 64 := rfl
  have hsum : wadd n memblkSize = n + memblkSize := wadd_of_lt (by omega)
  obtain ⟨pre, post, rfl, hpre, hb, rfl⟩ := firstFit_eq_some hfit
  have hbmem : b ∈ pre ++ b :: post := by simp
  have hrun := hinv.toHeapHeaders.alloc_first (n := n) (by omega) (by rwa [hsum]) (by rwa [hsum])
    (Nat.lt_succ_self _)
  rw [hsum, wadd_of_lt (hinv.inside b hbmem)] at hrun
  refine ⟨_, hrun, takeBlock_heapList_of_apart hinv.list (headersApart_of_pairwise hinv.apart)
    (by omega) (by omega) fun hlt => ?_⟩
  have hnew := hkeep (b.addr + (n + memblkSize)) (by rw [newHeader, hfit]; exact if_pos hlt)
  refine ⟨by omega, fun c hc => hnew.2 c ?_⟩
  rcases List.mem_append.mp hc with hc | hc <;> simp [hc]

/-- What `FillsPage` asks of an allocation, for the list that the heap has. -/
lemma fillsPage_alloc (hinv : HeadersInv init h bs) {n : ℕ} :
    FillsPage h (.alloc n) ↔ ((∀ c ∈ bs, ¬ c.Fits (n + memblkSize)) → h.pmm.pmmStack ≠ [] →
      n = pmmBlockSize - memblkSize) := by
  refine ⟨fun hf => hf bs hinv.list, fun hf bs' hlist => ?_⟩
  rw [← hinv.list.unique hlist]
  exact hf

/-- A call of `pmm_alloc` that keeps the headers. -/
lemma alloc (hok : PagesOk init) (hinv : HeadersInv init h bs) {n fuel p : ℕ} {s : Pmm}
    (hpos : 1 ≤ n) (hle : n ≤ pmmBlockSize - memblkSize) (hkeep : KeepsHeaders h (.alloc n))
    (hcall : pmmAlloc fuel h.pmm n = some (p, s)) :
    ∃ bs', HeadersInv init
        { h with
          pmm := s
          blocks := if p = 0 then h.blocks else (p, n) :: h.blocks
          heapPages := poppedPages h.pmm s ++ h.heapPages } bs' ∧
      LosesPage h (.alloc n)
        { h with
          pmm := s
          blocks := if p = 0 then h.blocks else (p, n) :: h.blocks
          heapPages := poppedPages h.pmm s ++ h.heapPages } bs bs' := by
  have hhdr : memblkSize = 24 := rfl
  have hpg : pmmBlockSize = 4096 := rfl
  have hmod : modulus = 2 ^ 64 := rfl
  have hsum : wadd n memblkSize = n + memblkSize := wadd_of_lt (by omega)
  have hkeep' := hkeep bs hinv.list
  dsimp only at hkeep'
  cases hfit : firstFit memblkSize (n + memblkSize) bs with
  | some r =>
    obtain ⟨b, bs'⟩ := r
    obtain ⟨m, hrun, hlist⟩ := hinv.alloc_fit_run hpos hle hfit hkeep'
    obtain ⟨pre, post, hbs, -, hb, -⟩ := firstFit_eq_some hfit
    obtain ⟨rfl, rfl⟩ := Prod.mk.inj (pmmAlloc_unique hcall hrun)
    have hpop : poppedPages h.pmm { h.pmm with mem := m } = [] := by simp [poppedPages]
    have hne : b.addr + memblkSize ≠ 0 := by omega
    obtain ⟨hinv', htotal⟩ := hinv.alloc_fit hfit hkeep' hlist
    rw [hpop, if_neg hne]
    refine ⟨bs', hinv', 0, by rw [htotal]; rfl, ?_⟩
    rw [hinv.fillsPage_alloc]
    exact ⟨fun _ hall => absurd hb (hall b (by simp [hbs])), fun _ => rfl⟩
  | none =>
    have hbs := firstFit_eq_none.mp hfit
    cases hstack : h.pmm.pmmStack with
    | nil =>
      have hrun := hinv.alloc_refused (n := n) (by omega) (by rwa [hsum]) hstack (Nat.lt_succ_self _)
      obtain ⟨rfl, rfl⟩ := Prod.mk.inj (pmmAlloc_unique hcall hrun)
      have hpop : poppedPages h.pmm h.pmm = [] := by simp [poppedPages]
      rw [hpop, if_pos rfl]
      refine ⟨bs, hinv, 0, rfl, ?_⟩
      rw [hinv.fillsPage_alloc]
      exact ⟨fun _ _ hne => absurd hstack hne, fun _ => rfl⟩
    | cons page rest =>
      obtain ⟨t, hrun, htrest, hinv'⟩ := hinv.alloc_fresh hok hpos hle hfit hstack hkeep'
      obtain ⟨rfl, rfl⟩ := Prod.mk.inj (pmmAlloc_unique hcall hrun)
      have hpop : poppedPages h.pmm s = [page] := by simp [poppedPages, hstack, htrest]
      have hne : page + memblkSize ≠ 0 := by omega
      rw [hpop, if_neg hne, List.singleton_append]
      refine ⟨_, hinv', pmmBlockSize - memblkSize - n, ?_, ?_⟩
      · rw [totalSize_append, totalSize_cons, totalSize_nil, List.length_cons, Nat.mul_succ]
        dsimp only
        omega
      · rw [hinv.fillsPage_alloc]
        refine ⟨fun _ _ _ => by omega, fun hf => ?_⟩
        have hfull := hf hbs (by rw [hstack]; exact List.cons_ne_nil _ _)
        omega

/-- A merge does not lose bytes. -/
lemma totalSize_freed (pre : List Block) (b : Block) (post : List Block) :
    totalSize (pre ++ merge ⟨b.addr, b.size, true⟩ post) = totalSize (pre ++ b :: post) := by
  rw [totalSize_append, totalSize_merge, totalSize_append, totalSize_cons]

/-- `pmm_free` of a live allocation returns. -/
lemma free_run (hok : PagesOk init) (hinv : HeadersInv init h bs) {a : ℕ × ℕ} (ha : a ∈ h.blocks) :
    ∃ pre b post m, bs = pre ++ b :: post ∧ a.1 = b.addr + memblkSize ∧
      pmmFree (post.length + 1) h.pmm a.1 = some { h.pmm with mem := m } ∧
      HeapList m h.pmm.pmmFreeBlocks (pre ++ merge ⟨b.addr, b.size, true⟩ post) := by
  obtain ⟨b, hb, -, hptr⟩ := hinv.live a ha
  have hinside := hinv.inside b hb
  obtain ⟨pre, post, rfl⟩ := List.append_of_mem hb
  have hlt : ∀ c ∈ merge ⟨b.addr, b.size, true⟩ post, c.size < modulus := by
    intro c hc
    have hle := size_le_totalSize (List.mem_append_right pre hc)
    rw [totalSize_freed] at hle
    exact hle.trans_lt (hinv.totalSize_lt hok)
  have hwadd : wadd b.addr memblkSize = a.1 := by rw [wadd_of_lt hinside, hptr]
  have hp0 : a.1 ≠ 0 := by
    rw [hptr]
    simp [memblkSize]
  obtain ⟨m, hrun, hlist, -⟩ := hinv.toHeapHeaders.free (by omega) (by rwa [hwadd]) hlt
    (Nat.lt_succ_self _)
  rw [hwadd] at hrun
  exact ⟨pre, b, post, m, rfl, hptr, hrun, hlist⟩

/-- A call of `pmm_free`, whatever it merges. -/
lemma free (hok : PagesOk init) (hinv : HeadersInv init h bs) {p n fuel : ℕ} {s : Pmm}
    (hlive : (p, n) ∈ h.blocks) (hcall : pmmFree fuel h.pmm p = some s) :
    ∃ bs', HeadersInv init { h with pmm := s, blocks := h.blocks.erase (p, n) } bs' ∧
      totalSize bs' = totalSize bs := by
  obtain ⟨pre, b, post, m, rfl, hptr, hrun, hlist⟩ := hinv.free_run hok hlive
  dsimp only at hptr hrun
  obtain rfl := pmmFree_unique hcall hrun
  have htotal := totalSize_freed pre b post
  have haddr : ((pre ++ merge ⟨b.addr, b.size, true⟩ post).map Block.addr).Sublist
      ((pre ++ b :: post).map Block.addr) := by
    rw [List.map_append, List.map_append]
    exact (map_addr_merge_sublist ⟨b.addr, b.size, true⟩ post).append_left _
  refine ⟨_, ⟨⟨hinv.initialized, hlist, ?_⟩, fun c hc => ?_, fun a ha => ?_, ?_, ?_, hinv.pages⟩,
    htotal⟩
  · exact headersApart_map.mpr ((headersApart_map.mp hinv.apart).sublist haddr)
  · obtain ⟨d, hd, heq⟩ := List.mem_map.mp (haddr.subset (List.mem_map_of_mem hc))
    rw [← heq]
    exact hinv.inside d hd
  · obtain ⟨c, hc, hcused, hcptr⟩ := hinv.live a (List.mem_of_mem_erase ha)
    refine ⟨c, mem_append_merge_of_used hc ?_ hcused, hcused, hcptr⟩
    -- the block of another live allocation is not the one that is freed
    rintro rfl
    exact HeapRun.fst_ne_of_mem_erase hinv.distinct hlive ha (by omega)
  · exact hinv.distinct.sublist ((List.erase_sublist).map _)
  · rw [htotal]
    exact hinv.size_le

/-- A call of `pmm_allocpage`. -/
lemma allocpage (hok : PagesOk init) (hinv : HeadersInv init h bs) :
    HeadersInv init
      { h with
        pmm := (pmmAllocpage h.pmm).2
        pages := if (pmmAllocpage h.pmm).1 = 0 then h.pages
          else (pmmAllocpage h.pmm).1 :: h.pages } bs := by
  cases hstack : h.pmm.pmmStack with
  | nil =>
    rw [pmmAllocpage_nil hstack, if_pos rfl]
    exact hinv
  | cons page rest =>
    obtain ⟨-, hp0, -⟩ := hok.page page (hinv.mem_init (by simp [HeapRun.allPages, hstack]))
    rw [pmmAllocpage_fst hinv.initialized hstack, if_neg hp0]
    exact ⟨⟨by simpa using hinv.initialized, by simpa using hinv.list, hinv.apart⟩, hinv.inside,
      hinv.live, hinv.distinct, hinv.size_le,
      (HeapRun.allPages_allocpage hinv.initialized hstack).trans hinv.pages⟩

/-- A call of `pmm_freepage`. -/
lemma freepage (hok : PagesOk init) (hinv : HeadersInv init h bs) {page : ℕ}
    (hlive : page ∈ h.pages) :
    HeadersInv init { h with pmm := pmmFreepage h.pmm page, pages := h.pages.erase page } bs := by
  have hlen := hok.stack_lt hinv.pages hlive
  exact ⟨⟨by simpa using hinv.initialized, by simpa using hinv.list, hinv.apart⟩, hinv.inside,
    hinv.live, hinv.distinct, hinv.size_le,
    (HeapRun.allPages_freepage hinv.initialized hlen hlive).trans hinv.pages⟩

/-- A write that hits no header. -/
lemma write (hinv : HeadersInv init h bs) {a : ℕ} {v : UInt8} (hkeep : OutsideHeaders bs a) :
    HeadersInv init { h with pmm := { h.pmm with mem := Function.update h.pmm.mem a v } } bs := by
  refine ⟨⟨hinv.initialized, ?_, hinv.apart⟩, hinv.inside, hinv.live, hinv.distinct, hinv.size_le,
    hinv.pages⟩
  refine hinv.list.congr fun c hc => readMemblk_congr fun x hx hxc => Function.update_of_ne ?_ _ _
  rintro rfl
  rcases hkeep c hc with hlo | hhi <;> omega

/-- Every step that keeps the headers keeps the invariant, and loses the bytes behind the first
block of a page. -/
theorem step (hok : PagesOk init) {op : HeapOp} {h' : HeapRun} (hinv : HeadersInv init h bs)
    (hkeep : KeepsHeaders h op) (hstep : HeapStep h op h') :
    ∃ bs', HeadersInv init h' bs' ∧ LosesPage h op h' bs bs' := by
  cases hstep with
  | alloc hpos hle hcall => exact hinv.alloc hok hpos hle hkeep hcall
  | free hlive hcall =>
    obtain ⟨bs', hinv', htotal⟩ := hinv.free hok hlive hcall
    exact ⟨bs', hinv', 0, by rw [htotal]; rfl, fun _ _ _ => trivial, fun _ => rfl⟩
  | allocpage => exact ⟨bs, hinv.allocpage hok, 0, rfl, fun _ _ _ => trivial, fun _ => rfl⟩
  | freepage hlive => exact ⟨bs, hinv.freepage hok hlive, 0, rfl, fun _ _ _ => trivial, fun _ => rfl⟩
  | write hown =>
    exact ⟨bs, hinv.write (hkeep bs hinv.list), 0, rfl, fun _ _ _ => trivial, fun _ => rfl⟩

end HeadersInv

/-- On a tiling no step overwrites a header. -/
lemma HeapInv.keepsHeaders {init : List ℕ} {h h' : HeapRun} {bs : List Block} {op : HeapOp}
    (hok : PagesOk init) (hinv : HeapInv init h bs) (hstep : HeapStep h op h') :
    KeepsHeaders h op := by
  have hhdr : memblkSize = 24 := rfl
  have hpg : pmmBlockSize = 4096 := rfl
  intro bs' hlist
  obtain rfl := hinv.list.unique hlist
  cases hstep with
  | @alloc n _ _ _ hpos hle _ =>
    intro a ha
    cases hfit : firstFit memblkSize (n + memblkSize) bs with
    | some r =>
      -- the rest of a block lies inside the block
      obtain ⟨b, bs'⟩ := r
      obtain ⟨pre, post, hbs, -, hb, -⟩ := firstFit_eq_some hfit
      have hbmem : b ∈ bs := by simp [hbs]
      have hend := (hinv.heapState hok).end_le b hbmem
      rw [newHeader, hfit] at ha
      dsimp only at ha
      split_ifs at ha with hlt
      · obtain rfl := Option.some.inj ha
        refine ⟨by omega, fun c hc => ?_⟩
        by_cases hbc : b = c
        · subst hbc
          exact Or.inr (by omega)
        · have hcsize := hinv.tiled.header_le c hc
          rcases hinv.tiled.apart_of_ne hbmem hc hbc with hap | hap
          · exact Or.inl (by omega)
          · exact Or.inr (by omega)
      · cases ha
    | none =>
      rw [newHeader, hfit] at ha
      have hmem : a ∈ h.pmm.pmmStack := List.mem_of_mem_head? ha
      obtain ⟨hal, -, hlt⟩ := hok.page a (hinv.mem_init (by simp [HeapRun.allPages, hmem]))
      rw [hpg] at hal
      refine ⟨by simp only [modulus] at *; omega, fun c hc => ?_⟩
      have hcsize := hinv.tiled.header_le c hc
      have hsep := hinv.apart_of_page hok (List.mem_append_left h.pages hmem)
        (lt_add_of_pos_right c.addr (show 0 < c.size by omega))
        fun x hx hxb => hinv.covered c hc x ⟨hx, hxb⟩
      rcases hsep with hlo | hhi
      · exact Or.inr (by omega)
      · exact Or.inl (by omega)
  | write hown => exact hinv.outsideHeaders hok hown
  | free => trivial
  | allocpage => trivial
  | freepage => trivial

/-- A run in which each `pmm_free` merges only neighbours keeps the headers. -/
theorem keepsHeaders_of_freesNeighbours {s : Pmm} (hs : HeapStart s) {ops : List HeapOp} {h : HeapRun}
    (htrace : Trace (Restrict FreesNeighbours HeapStep) (HeapRun.start s) ops h) :
    Trace (Restrict KeepsHeaders HeapStep) (HeapRun.start s) ops h ∧
      ∃ bs, HeapInv s.pmmStack h bs := by
  have hok : PagesOk s.pmmStack := ⟨hs.nodup, hs.page, hs.length_le⟩
  induction htrace with
  | nil => exact ⟨.nil, [], heapInv_start hs⟩
  | snoc _ hs ih =>
    obtain ⟨hkeeps, bs, hinv⟩ := ih
    exact ⟨.snoc hkeeps ⟨hinv.keepsHeaders hok hs.2, hs.2⟩, hinv.step hok hs.1 hs.2⟩

/-- A start state satisfies the invariant with the empty heap. -/
lemma headersInv_start {s : Pmm} (hs : HeapStart s) :
    HeadersInv s.pmmStack (HeapRun.start s) [] := by
  refine ⟨⟨hs.initialized, hs.empty, List.Pairwise.nil⟩, by simp, by simp [HeapRun.start],
    by simp [HeapRun.start], Nat.zero_le _, ?_⟩
  simp [HeapRun.allPages, HeapRun.start]

/-- The invariant along a run that keeps the headers. -/
lemma HeadersInv.of_trace {s : Pmm} (hs : HeapStart s) {ops : List HeapOp} {h : HeapRun}
    (htrace : Trace (Restrict KeepsHeaders HeapStep) (HeapRun.start s) ops h) :
    ∃ bs, HeadersInv s.pmmStack h bs := by
  have hok : PagesOk s.pmmStack := ⟨hs.nodup, hs.page, hs.length_le⟩
  refine htrace.invariant (fun h => ∃ bs, HeadersInv s.pmmStack h bs) ⟨[], headersInv_start hs⟩ ?_
  rintro a op b ⟨bs, hinv⟩ ⟨hkeep, hstep⟩
  obtain ⟨bs', hinv', -⟩ := hinv.step hok hkeep hstep
  exact ⟨bs', hinv'⟩

end Soaplin

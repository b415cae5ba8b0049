import Soaplin.Memory.HeapHeaders

/-!
# The heap of the kernel

In the kernel the scheduler is the only caller of `pmm_alloc`, and `pmm_free` is never called.
There are requests of three sizes: a process record, a thread record and a stack.  In such a run no
block of the heap list is ever free, so every request pops a page of its own, whatever its size
(`kernel_heap_exact`).  The block of a stack is larger than that page.  The 24 bytes that do not fit
are the first ones of the page behind it, which is where the heap keeps the header of its block
(`PagePerAllocation.overhang`).  In the runs of this module nobody writes there.
-/

namespace Soaplin

open ByteMemory Word64 FreeList TransitionTrace

/-- `sizeof(sched_process)`. -/
def schedProcessSize : ℕ := 152

/-- `sizeof(sched_thread)`. -/
def schedThreadSize : ℕ := 336

/-- The request of `sched_alloc_stack`. -/
def threadStackSize : ℕ := 4096

/-- A run of the kernel: the allocations from the heap with their sizes, the first one first, and the
pages that are live through `pmm_allocpage`. -/
structure KernelRun where
  pmm : Pmm
  allocs : List (ℕ × ℕ)
  pages : List ℕ

/-- The calls of a run, and the writes of their callers. -/
inductive KernelOp
  | alloc (n : ℕ)
  | allocpage
  | freepage (page : ℕ)
  | write (a : ℕ) (v : UInt8)

/-- The page that an allocation has been made from. -/
def heapPage (a : ℕ × ℕ) : ℕ := a.1 - memblkSize

/-- The address `x` lies in an allocation, inside its page, or in a page live through
`pmm_allocpage`.  The 24 bytes by which a stack exceeds its page are left out. -/
def KernelRun.Owns (k : KernelRun) (x : ℕ) : Prop :=
  (∃ a ∈ k.allocs, a.1 ≤ x ∧ x < a.1 + a.2 ∧ x < heapPage a + pmmBlockSize) ∨ InPages k.pages x

/-- One step of a run. -/
inductive KernelStep : KernelRun → KernelOp → KernelRun → Prop
  | alloc {k : KernelRun} {n fuel p : ℕ} {s : Pmm}
      (hn : n ∈ [schedProcessSize, schedThreadSize, threadStackSize])
      (hcall : pmmAlloc fuel k.pmm n = some (p, s)) :
      KernelStep k (.alloc n)
        { k with
          pmm := s
          allocs := if p = 0 then k.allocs else k.allocs ++ [(p, n)] }
  | allocpage {k : KernelRun} :
      KernelStep k .allocpage
        { k with
          pmm := (pmmAllocpage k.pmm).2
          pages := if (pmmAllocpage k.pmm).1 = 0 then k.pages
            else (pmmAllocpage k.pmm).1 :: k.pages }
  | freepage {k : KernelRun} {page : ℕ} (hlive : page ∈ k.pages) :
      KernelStep k (.freepage page)
        { k with pmm := pmmFreepage k.pmm page, pages := k.pages.erase page }
  | write {k : KernelRun} {a : ℕ} {v : UInt8} (hown : k.Owns a) :
      KernelStep k (.write a v)
        { k with pmm := { k.pmm with mem := Function.update k.pmm.mem a v } }

/-- The run that starts in `s` with nothing allocated. -/
def KernelRun.start (s : Pmm) : KernelRun := ⟨s, [], []⟩

/-! ### The invariant -/

/-- The block of an allocation. -/
def usedBlock (a : ℕ × ℕ) : Block := ⟨heapPage a, a.2 + memblkSize, false⟩

/-- All pages of a run. -/
def KernelRun.allPages (k : KernelRun) : List ℕ :=
  k.pmm.pmmStack ++ (k.pages ++ k.allocs.map heapPage)

/-- The invariant of a run from a stack with the pages `init`: the heap list is the list of the
allocations, each at the start of a page, and no page is lost or doubled. -/
structure KernelInv (init : List ℕ) (k : KernelRun) : Prop
    extends HeapHeaders k.pmm (k.allocs.map usedBlock) where
  ptr : ∀ a ∈ k.allocs, a.1 = heapPage a + memblkSize
  size : ∀ a ∈ k.allocs, a.2 ∈ [schedProcessSize, schedThreadSize, threadStackSize]
  pages : k.allPages.Perm init

variable {init : List ℕ} {k k' : KernelRun} {op : KernelOp} {n p q : ℕ} {s : Pmm}

/-- The sizes are positive and do not wrap. -/
lemma size_bounds (hn : n ∈ [schedProcessSize, schedThreadSize, threadStackSize]) :
    0 < n ∧ n ≤ pmmBlockSize := by
  simp only [List.mem_cons, List.not_mem_nil, or_false] at hn
  rcases hn with rfl | rfl | rfl <;> decide

/-- Different pages do not overlap. -/
lemma PagesOk.apart (hok : PagesOk init) (hp : p ∈ init) (hq : q ∈ init) (hne : p ≠ q) :
    p + pmmBlockSize ≤ q ∨ q + pmmBlockSize ≤ p := by
  have hp' := (hok.page p hp).1
  have hq' := (hok.page q hq).1
  simp only [pmmBlockSize] at hp' hq' ⊢
  omega

namespace KernelInv

lemma mem_init (hinv : KernelInv init k) (hq : q ∈ k.allPages) : q ∈ init :=
  hinv.pages.subset hq

lemma nodup (hok : PagesOk init) (hinv : KernelInv init k) : k.allPages.Nodup :=
  hinv.pages.nodup_iff.mpr hok.nodup

/-- No block is free. -/
lemma not_fits (size : ℕ) : ∀ c ∈ k.allocs.map usedBlock, ¬ c.Fits size := by
  intro c hc hfits
  obtain ⟨a, -, rfl⟩ := List.mem_map.mp hc
  exact Bool.false_ne_true hfits.1

/-- A page that is not the heap's is away from the headers. -/
lemma header_apart (hok : PagesOk init) (hinv : KernelInv init k)
    (hq : q ∈ k.pmm.pmmStack ++ k.pages) {a : ℕ × ℕ} (ha : a ∈ k.allocs) :
    q + pmmBlockSize ≤ heapPage a ∨ heapPage a + pmmBlockSize ≤ q := by
  have hnodup := hinv.nodup hok
  rw [KernelRun.allPages, ← List.append_assoc] at hnodup
  have hmem : heapPage a ∈ k.allocs.map heapPage := List.mem_map_of_mem ha
  have hne : q ≠ heapPage a := fun heq => List.disjoint_of_nodup_append hnodup hq (heq ▸ hmem)
  have hq' : q ∈ k.allPages := by
    rw [KernelRun.allPages, ← List.append_assoc]
    exact List.mem_append_left _ hq
  have ha' : heapPage a ∈ k.allPages :=
    List.mem_append_right _ (List.mem_append_right _ hmem)
  exact hok.apart (hinv.mem_init hq') (hinv.mem_init ha') hne

/-- The call pops a page, if there is one. -/
lemma alloc_run (hok : PagesOk init) (hinv : KernelInv init k)
    (hn : n ∈ [schedProcessSize, schedThreadSize, threadStackSize]) :
    (k.pmm.pmmStack = [] ∧ pmmAlloc (k.allocs.length + 1) k.pmm n = some (0, k.pmm)) ∨
      ∃ page rest s, k.pmm.pmmStack = page :: rest ∧
        pmmAlloc (k.allocs.length + 1) k.pmm n = some (page + memblkSize, s) ∧
        s.pmmStack = rest ∧
        KernelInv init { k with pmm := s, allocs := k.allocs ++ [(page + memblkSize, n)] } := by
  obtain ⟨hpos, hle⟩ := size_bounds hn
  have hfuel : (k.allocs.map usedBlock).length < k.allocs.length + 1 := by simp
  cases hstack : k.pmm.pmmStack with
  | nil => exact .inl ⟨rfl, hinv.alloc_refused hpos.ne' (not_fits _) hstack hfuel⟩
  | cons page rest =>
    right
    have hsum : wadd n memblkSize = n + memblkSize := by
      refine wadd_of_lt ?_
      simp only [pmmBlockSize, memblkSize, modulus] at hle ⊢
      omega
    have hpage : page ∈ k.pmm.pmmStack ++ k.pages := by rw [hstack]; simp
    obtain ⟨haligned, hp0, hplt⟩ :=
      hok.page page (hinv.mem_init (by rw [KernelRun.allPages, hstack]; simp))
    have hptr : wadd page memblkSize = page + memblkSize := by
      refine wadd_of_lt ?_
      simp only [pmmBlockSize, memblkSize, modulus] at haligned hplt ⊢
      omega
    have hap : ∀ c ∈ k.allocs.map usedBlock, HeadersApart page c.addr := by
      intro c hc
      obtain ⟨a, ha, rfl⟩ := List.mem_map.mp hc
      have hpages := hinv.header_apart hok hpage ha
      change page + 24 ≤ heapPage a ∨ heapPage a + 24 ≤ page
      simp only [pmmBlockSize] at hpages
      omega
    obtain ⟨s, hrun, hinit, hrest, hlist, -⟩ :=
      hinv.alloc_popped hpos.ne' (not_fits _) hstack hp0 hplt hap hfuel
    rw [hptr] at hrun
    rw [hsum] at hlist
    have hnew : usedBlock (page + memblkSize, n) = ⟨page, n + memblkSize, false⟩ := by
      rw [usedBlock, heapPage, Nat.add_sub_cancel]
    have hblocks : (k.allocs ++ [(page + memblkSize, n)]).map usedBlock =
        k.allocs.map usedBlock ++ [⟨page, n + memblkSize, false⟩] := by
      rw [List.map_append, List.map_singleton, hnew]
    refine ⟨page, rest, s, rfl, hrun, hrest, ⟨⟨hinit, ?_, ?_⟩, fun a ha => ?_, fun a ha => ?_, ?_⟩⟩
    · rw [hblocks]
      exact hlist
    · rw [hblocks]
      refine List.pairwise_append.mpr ⟨hinv.apart, List.pairwise_singleton _ _, fun c hc d hd => ?_⟩
      rw [List.mem_singleton.mp hd]
      exact Or.symm (hap c hc)
    · rcases List.mem_append.mp ha with ha | ha
      · exact hinv.ptr a ha
      · rw [List.mem_singleton.mp ha, heapPage, Nat.add_sub_cancel]
    · rcases List.mem_append.mp ha with ha | ha
      · exact hinv.size a ha
      · rw [List.mem_singleton.mp ha]
        exact hn
    · refine List.Perm.trans ?_ hinv.pages
      rw [KernelRun.allPages, KernelRun.allPages, hrest, hstack, List.map_append, List.map_singleton,
        heapPage, Nat.add_sub_cancel, ← List.append_assoc, ← List.append_assoc,
        List.cons_append, ← List.append_assoc]
      exact List.perm_append_singleton _ _

/-- Requests are served in their order from the pages at the top of the stack. -/
lemma alloc_all (hok : PagesOk init) (hinv : KernelInv init k) (ns pages : List ℕ) {rest : List ℕ}
    (hns : ∀ n ∈ ns, n ∈ [schedProcessSize, schedThreadSize, threadStackSize])
    (hlen : ns.length = pages.length) (hstack : k.pmm.pmmStack = pages ++ rest) :
    ∃ k', Trace KernelStep k (ns.map .alloc) k' ∧ k'.pmm.pmmStack = rest ∧ KernelInv init k' ∧
      k'.allocs = k.allocs ++ (pages.zip ns).map fun a => (a.1 + memblkSize, a.2) := by
  induction ns generalizing k pages with
  | nil =>
    obtain rfl := List.length_eq_zero_iff.mp hlen.symm
    exact ⟨k, .nil, hstack, hinv, (List.append_nil _).symm⟩
  | cons n ns ih =>
    cases pages with
    | nil => cases hlen
    | cons page pages =>
      have hn := hns n List.mem_cons_self
      rcases hinv.alloc_run hok hn with ⟨hempty, -⟩ | ⟨page', rest', s, hstack', hrun, hrest, hinv'⟩
      · rw [hstack] at hempty
        cases hempty
      · obtain ⟨rfl, rfl⟩ := List.cons_eq_cons.mp (hstack'.symm.trans hstack)
        have hstep : KernelStep k (.alloc n)
            { k with pmm := s, allocs := k.allocs ++ [(page' + memblkSize, n)] } := by
          have hstep := KernelStep.alloc (k := k) hn hrun
          rwa [if_neg (by simp [memblkSize])] at hstep
        obtain ⟨k', htrace, hrest', hinv'', hallocs⟩ := ih hinv' pages
          (fun m hm => hns m (List.mem_cons_of_mem _ hm)) (Nat.succ.inj hlen) hrest
        refine ⟨k', .cons hstep htrace, hrest', hinv'', ?_⟩
        rw [hallocs, List.append_assoc]
        rfl

/-- A write to what the caller owns leaves the headers alone. -/
lemma write (hok : PagesOk init) (hinv : KernelInv init k) {a : ℕ} (hown : k.Owns a) (v : UInt8) :
    KernelInv init { k with pmm := { k.pmm with mem := Function.update k.pmm.mem a v } } := by
  have houtside : ∀ c ∈ k.allocs, a < heapPage c ∨ heapPage c + memblkSize ≤ a := by
    intro c hc
    rcases hown with ⟨b, hb, hlo, -, hhi⟩ | ⟨q, hq, hlo, hhi⟩
    · have hptr := hinv.ptr b hb
      by_cases heq : heapPage c = heapPage b
      · omega
      · have hmem : ∀ d ∈ k.allocs, heapPage d ∈ init := fun d hd =>
          hinv.mem_init (List.mem_append_right _ (List.mem_append_right _ (List.mem_map_of_mem hd)))
        have hpages := hok.apart (hmem c hc) (hmem b hb) heq
        simp only [pmmBlockSize, memblkSize] at hpages hptr hhi ⊢
        omega
    · have hpages := hinv.header_apart hok (List.mem_append_right _ hq) hc
      simp only [pmmBlockSize, memblkSize] at hpages hhi ⊢
      omega
  refine ⟨⟨hinv.initialized, hinv.list.congr fun c hc => ?_, hinv.apart⟩, hinv.ptr, hinv.size,
    hinv.pages⟩
  obtain ⟨b, hb, rfl⟩ := List.mem_map.mp hc
  refine readMemblk_congr fun x hlo hhi => Function.update_of_ne ?_ _ _
  rintro rfl
  have hb' := houtside b hb
  change heapPage b ≤ _ at hlo
  change _ < heapPage b + _ at hhi
  omega

/-- Every step keeps the invariant. -/
theorem step (hok : PagesOk init) (hinv : KernelInv init k) (hstep : KernelStep k op k') :
    KernelInv init k' := by
  cases hstep with
  | @alloc n fuel p s hn hcall =>
    rcases hinv.alloc_run hok hn with ⟨-, hrun⟩ | ⟨page, rest, s', -, hrun, -, hinv'⟩
    · obtain ⟨rfl, rfl⟩ := Prod.mk.inj (pmmAlloc_unique hcall hrun)
      exact hinv
    · obtain ⟨rfl, rfl⟩ := Prod.mk.inj (pmmAlloc_unique hcall hrun)
      rw [if_neg (by simp [memblkSize])]
      exact hinv'
  | allocpage =>
    cases hstack : k.pmm.pmmStack with
    | nil =>
      rw [pmmAllocpage_nil hstack, if_pos rfl]
      exact hinv
    | cons page rest =>
      obtain ⟨-, hp0, -⟩ :=
        hok.page page (hinv.mem_init (by rw [KernelRun.allPages, hstack]; simp))
      have hpop := pmmAllocpage_stack hinv.initialized
      rw [hstack, List.tail_cons] at hpop
      rw [pmmAllocpage_fst hinv.initialized hstack, if_neg hp0]
      refine ⟨⟨?_, ?_, hinv.apart⟩, hinv.ptr, hinv.size, List.Perm.trans ?_ hinv.pages⟩
      · simpa using hinv.initialized
      · simpa using hinv.list
      · rw [KernelRun.allPages, KernelRun.allPages, hpop, hstack, List.cons_append, List.cons_append]
        exact List.perm_middle
  | @freepage page hlive =>
    have hlen : k.pmm.pmmStack.length < stackSize := by
      have heq := hinv.pages.length_eq
      have hpos := List.length_pos_of_mem hlive
      have hle := hok.length_le
      simp only [KernelRun.allPages, List.length_append] at heq
      omega
    refine ⟨⟨?_, ?_, hinv.apart⟩, hinv.ptr, hinv.size, List.Perm.trans ?_ hinv.pages⟩
    · simpa using hinv.initialized
    · simpa using hinv.list
    · rw [KernelRun.allPages, KernelRun.allPages, pmmFreepage_stack hinv.initialized hlen,
        List.cons_append]
      refine List.perm_middle.symm.trans ?_
      refine List.Perm.append_left _ ?_
      rw [← List.cons_append]
      exact (List.perm_cons_erase hlive).symm.append_right _
  | @write a v hown => exact hinv.write hok hown v

/-- The invariant at the start. -/
lemma start (hs : HeapStart s) : KernelInv s.pmmStack (.start s) where
  initialized := hs.initialized
  list := hs.empty
  apart := List.Pairwise.nil
  ptr := by simp [KernelRun.start]
  size := by simp [KernelRun.start]
  pages := by
    rw [KernelRun.allPages]
    exact (List.append_nil _).symm ▸ List.Perm.refl _

/-- The invariant of a run. -/
theorem of_trace (hs : HeapStart s) {ops : List KernelOp}
    (htrace : Trace KernelStep (.start s) ops k) : KernelInv s.pmmStack k :=
  htrace.invariant _ (start hs) fun _ _ _ hinv hstep =>
    hinv.step ⟨hs.nodup, hs.page, hs.length_le⟩ hstep

end KernelInv

/-! ### The main result -/

/-- What the heap looks like in a run that starts in `s`. -/
structure PagePerAllocation (s : Pmm) (k : KernelRun) : Prop where
  /-- The heap list has one block for each allocation, in their order, and none of them is free. -/
  list : HeapList k.pmm.mem k.pmm.pmmFreeBlocks (k.allocs.map usedBlock)
  /-- Each of them starts at the header of a page. -/
  ptr : ∀ a ∈ k.allocs, a.1 = heapPage a + memblkSize
  /-- These pages, those of the callers of `pmm_allocpage` and those on the stack are the pages that
  were there at the start, each of them once. -/
  pages : k.allPages.Perm s.pmmStack ∧ k.allPages.Nodup
  /-- A request fails if and only if no page is left. -/
  served : ∀ n ∈ [schedProcessSize, schedThreadSize, threadStackSize],
    ∃ fuel p s', pmmAlloc fuel k.pmm n = some (p, s') ∧ (p = 0 ↔ k.pmm.pmmStack = [])
  /-- Records stay inside their page. -/
  inside : ∀ a ∈ k.allocs, a.2 ≠ threadStackSize → a.1 + a.2 ≤ heapPage a + pmmBlockSize
  /-- Of the other pages a stack overlaps with the one behind its own, in the first 24 bytes. -/
  overhang : ∀ a ∈ k.allocs, a.2 = threadStackSize → ∀ q ∈ k.allPages, q ≠ heapPage a → ∀ x,
    ((a.1 ≤ x ∧ x < a.1 + a.2) ∧ q ≤ x ∧ x < q + pmmBlockSize) ↔
      q = heapPage a + pmmBlockSize ∧ q ≤ x ∧ x < q + memblkSize

/-- In every state of every run each allocation of the kernel has a page of its own, and requests
succeed as long as there are pages, provided that nothing is written to what exceeds a page.  The
records stay inside theirs, the stacks do not. -/
theorem kernel_heap_exact (hs : HeapStart s) {ops : List KernelOp}
    (htrace : Trace KernelStep (.start s) ops k) : PagePerAllocation s k := by
  have hok : PagesOk s.pmmStack := ⟨hs.nodup, hs.page, hs.length_le⟩
  have hinv := KernelInv.of_trace hs htrace
  refine ⟨hinv.list, hinv.ptr, ⟨hinv.pages, hinv.nodup hok⟩, fun n hn => ?_, fun a ha hrecord => ?_,
    fun a ha hstack q hq hne x => ?_⟩
  · rcases hinv.alloc_run hok hn with ⟨hempty, hrun⟩ | ⟨page, rest, s', hstack, hrun, -, -⟩
    · exact ⟨_, _, _, hrun, by simp [hempty]⟩
    · exact ⟨_, _, _, hrun, by simp [hstack, memblkSize]⟩
  · have hptr := hinv.ptr a ha
    have hsize := hinv.size a ha
    simp only [List.mem_cons, List.not_mem_nil, or_false] at hsize
    simp only [schedProcessSize, schedThreadSize, memblkSize, pmmBlockSize] at hptr hsize ⊢
    omega
  · have hptr := hinv.ptr a ha
    have hmem : heapPage a ∈ k.allPages :=
      List.mem_append_right _ (List.mem_append_right _ (List.mem_map_of_mem ha))
    have hpages := hok.apart (hinv.mem_init hq) (hinv.mem_init hmem) hne
    have haligned := (hok.page q (hinv.mem_init hq)).1
    have haligned' := (hok.page (heapPage a) (hinv.mem_init hmem)).1
    rw [hstack]
    simp only [threadStackSize, memblkSize, pmmBlockSize] at hptr hpages haligned haligned' ⊢
    omega

/-- A run that allocates a thread record and a stack. -/
lemma threePages_thread : ∃ k, Trace KernelStep (.start threePages)
    [.alloc schedThreadSize, .alloc threadStackSize] k ∧
      k.allocs = [(0x6018, schedThreadSize), (0x5018, threadStackSize)] := by
  have hok : PagesOk threePages.pmmStack :=
    ⟨threePages_start.nodup, threePages_start.page, threePages_start.length_le⟩
  obtain ⟨k, htrace, -, -, hallocs⟩ := (KernelInv.start threePages_start).alloc_all
    hok [schedThreadSize, threadStackSize] [0x6000, 0x5000] (by simp) rfl threePages_stack
  exact ⟨k, htrace, hallocs⟩

theorem kernel_heap_exact_thread : ∃ k, Trace KernelStep (.start threePages)
    [.alloc schedThreadSize, .alloc threadStackSize] k ∧ PagePerAllocation threePages k := by
  obtain ⟨k, htrace, -⟩ := threePages_thread
  exact ⟨k, htrace, kernel_heap_exact threePages_start htrace⟩

end Soaplin

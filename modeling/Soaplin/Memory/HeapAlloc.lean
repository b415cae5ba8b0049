import Soaplin.Memory.HeapSeparation

/-!
# One call of `pmm_alloc`

A heap is `WellFormed` when its list is a tiling that keeps off the pages of the page stack.  On
such a heap a request that fits on a page has one of the outcomes `AllocOutcome`, and leaves the
heap well-formed (`alloc_outcome`).  For requests of any size `alloc_size_honoured_iff` says when
the result is as large as requested: the search of the list compares sizes, the way over a fresh
page does not.
-/

namespace Soaplin

open ByteMemory Word64 FreeList

/-- The heap list `bs` is a tiling of the address space outside the pages of the page stack, which
are distinct, page-aligned and not page `0`. -/
structure WellFormed (s : Pmm) (bs : List Block) : Prop extends HeapState s bs where
  offStack : Covered (fun x => ¬ InPages s.pmmStack x) bs
  stackNodup : s.pmmStack.Nodup
  stackPage : ∀ q ∈ s.pmmStack, q % pmmBlockSize = 0 ∧ q ≠ 0 ∧ q < modulus

variable {s s' : Pmm} {bs bs' pre post : List Block} {b c : Block} {n fuel page : ℕ}
  {rest : List ℕ}

/-- The heap of a run that keeps its invariant is well-formed. -/
lemma HeapInv.wellFormed {init : List ℕ} {h : HeapRun} (hok : PagesOk init)
    (hinv : HeapInv init h bs) : WellFormed h.pmm bs := by
  have hnodup := hinv.pages.nodup_iff.mpr hok.nodup
  rw [HeapRun.allPages] at hnodup
  refine ⟨hinv.heapState hok, ?_, (List.nodup_append.mp hnodup).1, fun q hq => ?_⟩
  · rintro b hb x hx ⟨q, hq, hqx, hxq⟩
    have hsep := hinv.apart_of_page hok (List.mem_append_left h.pages hq) (Nat.lt_succ_self x)
      fun y hy hyx => hinv.covered b hb y (by rwa [show y = x by omega])
    omega
  · exact hok.page q (hinv.mem_init (by simp [HeapRun.allPages, hq]))

namespace WellFormed

/-- A block does not meet a page of the stack. -/
lemma apart_of_page (h : WellFormed s bs) (hb : b ∈ bs) (hpage : page ∈ s.pmmStack) :
    b.addr + b.size ≤ page ∨ page + pmmBlockSize ≤ b.addr := by
  by_contra hcon
  have hsize := h.tiled.header_le b hb
  simp only [pmmBlockSize, memblkSize] at hcon hsize
  -- a common address
  have hcommon := h.offStack b hb (max b.addr page) ⟨le_max_left _ _, by omega⟩
  exact hcommon ⟨page, hpage, le_max_right _ _, by simp only [pmmBlockSize]; omega⟩

/-- The header of a block does not meet a page of the stack. -/
lemma headersApart_page (h : WellFormed s bs) (hb : b ∈ bs) (hpage : page ∈ s.pmmStack) :
    HeadersApart page b.addr := by
  have hsize := h.tiled.header_le b hb
  have hpg : memblkSize ≤ pmmBlockSize := by decide
  rcases h.apart_of_page hb hpage with hap | hap
  · exact Or.inr (by omega)
  · exact Or.inl (by omega)

/-- The payload of a block lies outside all block headers. -/
lemma outsideHeaders (h : WellFormed s bs) (hb : b ∈ bs) {x : ℕ} (hx : b.addr + memblkSize ≤ x)
    (hxb : x < b.addr + b.size) : OutsideHeaders bs x := by
  intro c hc
  by_cases hbc : b = c
  · subst hbc
    exact Or.inr hx
  · have hcsize := h.tiled.header_le c hc
    rcases h.tiled.apart_of_ne hb hc hbc with hap | hap
    · exact Or.inl (by omega)
    · exact Or.inr (by omega)

/-- Block addresses are not null, and headers end inside the address space. -/
lemma header_lt (h : WellFormed s bs) (hb : b ∈ bs) :
    0 < b.addr ∧ b.addr + memblkSize ≤ modulus := by
  obtain ⟨hb0, -, -⟩ := h.list.header hb
  have hsize := h.tiled.header_le b hb
  have hend := h.end_le b hb
  omega

/-! ### The ways through the call -/

/-- When a block fits, the first one is taken. -/
lemma alloc_fit (h : WellFormed s bs) (hpos : 1 ≤ n) (hle : n ≤ pmmBlockSize - memblkSize)
    (hfit : firstFit memblkSize (n + memblkSize) bs = some (b, bs')) (hfuel : bs.length < fuel) :
    ∃ m, pmmAlloc fuel s n = some (b.addr + memblkSize, { s with mem := m }) ∧
      WellFormed { s with mem := m } bs' ∧ ∀ x, OutsideHeaders bs' x → m x = s.mem x := by
  have hpg : pmmBlockSize = 4096 := rfl
  have hhdr : memblkSize = 24 := rfl
  have hmod : modulus = 2 ^ 64 := rfl
  obtain ⟨hrun, hlist⟩ := pmmAlloc_of_fit h.toHeapState (by omega) (by omega) hfit hfuel
  obtain ⟨pre, post, rfl, -, hb, rfl⟩ := firstFit_eq_some hfit
  have hbmem : b ∈ pre ++ b :: post := by simp
  have hframe : ∀ x, OutsideHeaders (pre ++ (carve memblkSize (n + memblkSize) b ++ post)) x →
      takeBlock s.mem (n + memblkSize) b.addr x = s.mem x := by
    intro x hx
    have hend := h.end_le b hbmem
    refine takeBlock_frame (h.list.header hbmem).2.1 (by omega) (by omega) (fun _ => by omega) ?_
    exact fun c hc => hx c (List.mem_append_right _ (List.mem_append_left _ hc))
  generalize takeBlock s.mem (n + memblkSize) b.addr = m at hrun hlist hframe
  refine ⟨m, hrun, ⟨⟨h.initialized, hlist, h.tiled.firstFit (by omega) hfit, fun c hc => ?_⟩,
    h.offStack.firstFit hfit, h.stackNodup, h.stackPage⟩, hframe⟩
  rcases List.mem_append.mp hc with hc | hc
  · exact h.end_le c (List.mem_append_left _ hc)
  · rcases List.mem_append.mp hc with hc | hc
    · exact (carve_sub hb.2 c hc).2.trans (h.end_le b hbmem)
    · exact h.end_le c (List.mem_append_right _ (List.mem_cons_of_mem _ hc))

/-- When no block fits and the stack has a page, the page becomes the last block. -/
lemma alloc_page (h : WellFormed s bs) (hpos : 1 ≤ n) (hle : n ≤ pmmBlockSize - memblkSize)
    (hfit : firstFit memblkSize (n + memblkSize) bs = none) (hstack : s.pmmStack = page :: rest)
    (hfuel : bs.length < fuel) :
    ∃ s', pmmAlloc fuel s n = some (page + memblkSize, s') ∧ s'.pmmStack = rest ∧
      WellFormed s' (bs ++ [⟨page, n + memblkSize, false⟩]) ∧
      ∀ x, OutsideHeaders (bs ++ [⟨page, n + memblkSize, false⟩]) x → s'.mem x = s.mem x := by
  have hpg : pmmBlockSize = 4096 := rfl
  have hhdr : memblkSize = 24 := rfl
  have hmod : modulus = 2 ^ 64 := rfl
  have hpage : page ∈ s.pmmStack := by simp [hstack]
  obtain ⟨hal, hp0, hlt⟩ := h.stackPage page hpage
  rw [hpg] at hal
  have hap : ∀ c ∈ bs, c.Apart ⟨page, n + memblkSize, false⟩ := by
    intro c hc
    rcases h.apart_of_page hc hpage with hap | hap
    · exact Or.inl hap
    · exact Or.inr (by dsimp only; omega)
  obtain ⟨s', hrun, hinit, hrest, hlist, hframe⟩ := pmmAlloc_of_fresh h.toHeapState (by omega)
    (by omega) hfit hstack hp0 (by omega) (fun c hc => h.headersApart_page hc hpage) hfuel
  have hnodup := h.stackNodup
  rw [hstack, List.nodup_cons] at hnodup
  have hsub : ∀ q ∈ rest, q ∈ s.pmmStack := fun q hq => by simp [hstack, hq]
  refine ⟨s', hrun, hrest, ⟨⟨hinit, hlist, h.tiled.concat (by dsimp only; omega) hap,
    fun c hc => ?_⟩, ?_, by rw [hrest]; exact hnodup.2, ?_⟩, hframe⟩
  · rcases List.mem_append.mp hc with hc | hc
    · exact h.end_le c hc
    · rw [List.mem_singleton.mp hc]
      dsimp only
      omega
  · rw [hrest]
    rintro c hc x hx ⟨q, hq, hqx, hxq⟩
    rcases List.mem_append.mp hc with hc | hc
    · exact h.offStack c hc x hx ⟨q, hsub q hq, hqx, hxq⟩
    · -- two different pages have no address in common
      rw [List.mem_singleton.mp hc] at hx
      obtain ⟨hx₁, hx₂⟩ := hx
      dsimp only at hx₁ hx₂
      obtain ⟨hqal, -, -⟩ := h.stackPage q (hsub q hq)
      rw [hpg] at hqal
      have heq : q = page := by omega
      exact hnodup.1 (heq ▸ hq)
  · rw [hrest]
    exact fun q hq => h.stackPage q (hsub q hq)

end WellFormed

/-! ### Requests that fit on a page -/

/-- The outcomes of `pmm_alloc(n)` in the state `s`: from the heap list to the result, the new state
and the new heap list. -/
inductive AllocOutcome (s : Pmm) (n : ℕ) : List Block → ℕ → Pmm → List Block → Prop
  /-- The first free block with room is taken whole. -/
  | whole {pre post : List Block} {b : Block} {s' : Pmm}
      (hpre : ∀ c ∈ pre, ¬ c.Fits (n + memblkSize)) (hb : b.Fits (n + memblkSize))
      (hsize : b.size ≤ n + memblkSize + memblkSize) (hstack : s'.pmmStack = s.pmmStack) :
      AllocOutcome s n (pre ++ b :: post) (b.addr + memblkSize) s'
        (pre ++ ⟨b.addr, b.size, false⟩ :: post)
  /-- The first free block with room is cut, and the rest of it is linked behind it. -/
  | split {pre post : List Block} {b : Block} {s' : Pmm}
      (hpre : ∀ c ∈ pre, ¬ c.Fits (n + memblkSize)) (hb : b.Fits (n + memblkSize))
      (hsize : n + memblkSize + memblkSize < b.size) (hstack : s'.pmmStack = s.pmmStack) :
      AllocOutcome s n (pre ++ b :: post) (b.addr + memblkSize) s'
        (pre ++ ⟨b.addr, n + memblkSize, false⟩ ::
          ⟨b.addr + (n + memblkSize), b.size - (n + memblkSize), true⟩ :: post)
  /-- No block has room: a page is popped and becomes the last block. -/
  | page {bs : List Block} {page : ℕ} {s' : Pmm} (hbs : ∀ c ∈ bs, ¬ c.Fits (n + memblkSize))
      (hstack : s.pmmStack = page :: s'.pmmStack) :
      AllocOutcome s n bs (page + memblkSize) s' (bs ++ [⟨page, n + memblkSize, false⟩])
  /-- No block has room and no page is left. -/
  | null {bs : List Block} (hbs : ∀ c ∈ bs, ¬ c.Fits (n + memblkSize)) (hstack : s.pmmStack = []) :
      AllocOutcome s n bs 0 s bs

/-- An allocation from the list takes the block whole or cuts it. -/
lemma AllocOutcome.of_firstFit (hfit : firstFit memblkSize (n + memblkSize) bs = some (b, bs'))
    (hstack : s'.pmmStack = s.pmmStack) : AllocOutcome s n bs (b.addr + memblkSize) s' bs' := by
  obtain ⟨pre, post, rfl, hpre, hb, rfl⟩ := firstFit_eq_some hfit
  unfold carve
  split_ifs with hlt
  · exact .split hpre hb hlt hstack
  · exact .whole hpre hb (not_lt.mp hlt) hstack

/-- `pmm_alloc` on a well-formed heap, for a request that fits on a page.  The first free block with
room is returned, whole or cut; otherwise a page is popped and appended; otherwise the result is
`NULL`.  The heap stays well-formed, and the payloads of the blocks in use are not touched. -/
theorem alloc_outcome (h : WellFormed s bs) (hpos : 1 ≤ n) (hle : n ≤ pmmBlockSize - memblkSize)
    (hfuel : bs.length < fuel) :
    ∃ p s' bs', pmmAlloc fuel s n = some (p, s') ∧ AllocOutcome s n bs p s' bs' ∧
      WellFormed s' bs' ∧ ∀ b ∈ bs, b.free = false →
        ∀ x, b.addr + memblkSize ≤ x → x < b.addr + b.size → s'.mem x = s.mem x := by
  cases hfit : firstFit memblkSize (n + memblkSize) bs with
  | some r =>
    obtain ⟨b, bs'⟩ := r
    obtain ⟨m, hrun, hwf, hframe⟩ := h.alloc_fit hpos hle hfit hfuel
    refine ⟨_, _, bs', hrun, .of_firstFit hfit rfl, hwf, fun c hc hused x hx hxc => ?_⟩
    exact hframe x (hwf.outsideHeaders (mem_of_firstFit hfit hc hused) hx hxc)
  | none =>
    have hbs := firstFit_eq_none.mp hfit
    cases hstack : s.pmmStack with
    | nil =>
      have hsmall : n + memblkSize < modulus := by
        simp only [pmmBlockSize, memblkSize, modulus] at *
        omega
      have hrun := pmmAlloc_of_empty h.toHeapState (Nat.ne_of_gt hpos) hsmall hfit hstack hfuel
      exact ⟨0, s, bs, hrun, .null hbs hstack, h, fun _ _ _ _ _ _ => rfl⟩
    | cons page rest =>
      obtain ⟨s', hrun, hrest, hwf, hframe⟩ := h.alloc_page hpos hle hfit hstack hfuel
      refine ⟨_, s', _, hrun, .page hbs (by rw [hstack, hrest]), hwf, fun c hc _ x hx hxc => ?_⟩
      exact hframe x (hwf.outsideHeaders (List.mem_append_left _ hc) hx hxc)

/-- The empty heap after `pmm_init` is well-formed. -/
lemma HeapStart.wellFormed (hs : HeapStart s) : WellFormed s [] :=
  ⟨⟨hs.initialized, hs.empty, ⟨by simp, List.Pairwise.nil⟩, by simp⟩, by simp [Covered], hs.nodup,
    hs.page⟩

/-- A heap whose only block is a free page. -/
lemma exists_freePage : ∃ s, WellFormed s [⟨0x6000, 4096, true⟩] := by
  obtain ⟨h₁, h₂, -, -, hs₁, hs₂, hfree₂, hv₂, -⟩ := exists_cutAndMerge
  have hok : PagesOk threePages.pmmStack :=
    ⟨threePages_start.nodup, threePages_start.page, threePages_start.length_le⟩
  obtain ⟨_, hinv₁⟩ := (heapInv_start threePages_start).step hok
    (show FreesNeighbours _ (.alloc 4072) from trivial) hs₁
  obtain ⟨bs, hinv₂⟩ := hinv₁.step hok hfree₂ hs₂
  refine ⟨h₂.pmm, ?_⟩
  rw [hv₂.state.list.unique hinv₂.list]
  exact hinv₂.wellFormed hok

/-- Sixteen bytes are cut from a free page. -/
theorem alloc_outcome_cut : ∃ s s', WellFormed s [⟨0x6000, 4096, true⟩] ∧
    pmmAlloc 2 s 16 = some (0x6018, s') ∧
    WellFormed s' [⟨0x6000, 40, false⟩, ⟨0x6028, 4056, true⟩] := by
  obtain ⟨s, hwf⟩ := exists_freePage
  obtain ⟨p, s', bs', hrun, hout, hwf', -⟩ := alloc_outcome (n := 16) hwf (by decide) (by decide)
    (Nat.lt_succ_self 1)
  have hfits : Block.Fits (16 + memblkSize) ⟨0x6000, 4096, true⟩ := by decide
  have hone : ∀ {pre post : List Block} {b : Block}, [⟨0x6000, 4096, true⟩] = pre ++ b :: post →
      pre = [] ∧ b = ⟨0x6000, 4096, true⟩ ∧ post = [] := fun h => by
    simpa [List.append_eq_singleton_iff, eq_comm] using h.symm
  generalize hbs : [(⟨0x6000, 4096, true⟩ : Block)] = bs at hout
  cases hout with
  | whole _ _ hsize =>
    obtain ⟨rfl, rfl, rfl⟩ := hone hbs
    exact absurd hsize (by decide)
  | split _ _ _ hstack =>
    obtain ⟨rfl, rfl, rfl⟩ := hone hbs
    exact ⟨s, s', hwf, hrun, hwf'⟩
  | page hnone => exact absurd hfits (hnone _ (by simp [← hbs]))
  | null hnone => exact absurd hfits (hnone _ (by simp [← hbs]))

/-! ### Requests of any size -/

/-- The bytes `[p, p + n)` lie in the extent of a free block, or in the page that has been popped.
-/
def AllocatedInside (s s' : Pmm) (bs : List Block) (p n : ℕ) : Prop :=
  (∃ b ∈ bs, b.free = true ∧ ∀ x, p ≤ x → x < p + n → b.Covers x) ∨
    ∃ page, s.pmmStack = page :: s'.pmmStack ∧
      ∀ x, p ≤ x → x < p + n → page ≤ x ∧ x < page + pmmBlockSize

/-- The request is refused: no block fits what `n + sizeof(pmm_memblk_t)` wraps to and no page is
left, or the first block that fits is the end of the address space, so that the result wraps to
`NULL`. -/
def Refused (s : Pmm) (bs : List Block) (n : ℕ) : Prop :=
  match firstFit memblkSize (wadd n memblkSize) bs with
  | some (b, _) => b.addr + memblkSize = modulus
  | none => s.pmmStack = []

/-- The request fits on a page with its header, or into a free block, or is refused. -/
def SizeHonoured (s : Pmm) (bs : List Block) (n : ℕ) : Prop :=
  n ≤ pmmBlockSize - memblkSize ∨ (∃ b ∈ bs, b.Fits (n + memblkSize)) ∨ Refused s bs n

/-- A request that does not wrap and fits into a free block does not need a wrapped sum. -/
lemma WellFormed.lt_of_fits (h : WellFormed s bs) (hb : b ∈ bs) (hfits : b.Fits (n + memblkSize)) :
    n + memblkSize < modulus := by
  obtain ⟨hpos, -⟩ := h.header_lt hb
  have hend := h.end_le b hb
  have hsize := hfits.2
  omega

/-- When the sum wraps, nothing of the size of the request exists. -/
lemma WellFormed.not_allocatedInside_of_wrap (h : WellFormed s bs) {p : ℕ} (hp : memblkSize < p)
    (hwrap : modulus ≤ n + memblkSize) : ¬ AllocatedInside s s' bs p n := by
  have hpg : pmmBlockSize = 4096 := rfl
  have hhdr : memblkSize = 24 := rfl
  have hmod : modulus = 2 ^ 64 := rfl
  rintro (⟨c, hc, -, hcov⟩ | ⟨page, -, hcov⟩)
  · obtain ⟨-, hlast⟩ := hcov (p + n - 1) (by omega) (by omega)
    have hend := h.end_le c hc
    omega
  · obtain ⟨hfirst, -⟩ := hcov p le_rfl (by omega)
    obtain ⟨-, hlast⟩ := hcov (p + n - 1) (by omega) (by omega)
    omega

/-- A page that has been popped does not have room for more than a page. -/
lemma WellFormed.not_allocatedInside_of_page (h : WellFormed s bs)
    (hstack : s.pmmStack = page :: s'.pmmStack) (hn : pmmBlockSize - memblkSize < n) :
    ¬ AllocatedInside s s' bs (page + memblkSize) n := by
  have hpg : pmmBlockSize = 4096 := rfl
  have hhdr : memblkSize = 24 := rfl
  rintro (⟨c, hc, -, hcov⟩ | ⟨page', hstack', hcov⟩)
  · have hfirst := hcov (page + memblkSize) le_rfl (by omega)
    refine h.offStack c hc _ hfirst ⟨page, by simp [hstack], Nat.le_add_right _ _, ?_⟩
    omega
  · obtain ⟨rfl, -⟩ := List.cons.inj (hstack.symm.trans hstack')
    obtain ⟨-, hlast⟩ := hcov (page + memblkSize + n - 1) (by omega) (by omega)
    omega

/-- From the list the result is as large as requested, unless the sum of the sizes wraps. -/
lemma WellFormed.size_honoured_of_fit (h : WellFormed s bs) (hn0 : n ≠ 0)
    (hfit : firstFit memblkSize (wadd n memblkSize) bs = some (b, bs')) (hfuel : bs.length < fuel) :
    ∃ p s', pmmAlloc fuel s n = some (p, s') ∧
      ((p ≠ 0 → AllocatedInside s s' bs p n) ↔ SizeHonoured s bs n) := by
  have hhdr : memblkSize = 24 := rfl
  have hrefused : Refused s bs n ↔ b.addr + memblkSize = modulus := by rw [Refused, hfit]
  obtain ⟨pre, post, rfl, hpre, hb, -⟩ := firstFit_eq_some hfit
  have hmem : b ∈ pre ++ b :: post := by simp
  obtain ⟨hpos, hle⟩ := h.header_lt hmem
  refine ⟨_, _, h.toHeapState.headers.alloc_first hn0 hpre hb hfuel, ?_⟩
  by_cases hedge : b.addr + memblkSize = modulus
  · have hnull : wadd b.addr memblkSize = 0 := by rw [wadd, hedge, Nat.mod_self]
    exact ⟨fun _ => .inr (.inr (hrefused.mpr hedge)), fun _ hp => absurd hnull hp⟩
  rw [wadd_of_lt (lt_of_le_of_ne hle hedge)]
  by_cases hwrap : n + memblkSize < modulus
  · rw [wadd_of_lt hwrap] at hb
    refine ⟨fun _ => .inr (.inl ⟨b, hmem, hb⟩), fun _ _ => .inl ⟨b, hmem, hb.1, fun x hx hxn => ?_⟩⟩
    have hsize := hb.2
    exact ⟨by omega, by omega⟩
  · refine ⟨fun hinside => ?_, ?_⟩
    · exact absurd (hinside (by omega)) (h.not_allocatedInside_of_wrap (by omega) (not_lt.mp hwrap))
    · rintro (hsmall | ⟨c, hc, hfits⟩ | hrefuse)
      · have hpage : pmmBlockSize < modulus := by decide
        omega
      · exact absurd (h.lt_of_fits hc hfits) hwrap
      · exact absurd (hrefused.mp hrefuse) hedge

/-- On a page that is popped the result is as large as requested if it fits there. -/
lemma WellFormed.size_honoured_of_page (h : WellFormed s bs) (hn0 : n ≠ 0)
    (hfit : firstFit memblkSize (wadd n memblkSize) bs = none) (hstack : s.pmmStack = page :: rest)
    (hfuel : bs.length < fuel) :
    ∃ p s', pmmAlloc fuel s n = some (p, s') ∧
      ((p ≠ 0 → AllocatedInside s s' bs p n) ↔ SizeHonoured s bs n) := by
  have hpg : pmmBlockSize = 4096 := rfl
  have hhdr : memblkSize = 24 := rfl
  have hmod : modulus = 2 ^ 64 := rfl
  have hbs := firstFit_eq_none.mp hfit
  have hrefused : Refused s bs n ↔ s.pmmStack = [] := by rw [Refused, hfit]
  obtain ⟨hal, hp0, hlt⟩ := h.stackPage page (by simp [hstack])
  rw [hpg] at hal
  obtain ⟨s', hrun, -, hrest, -⟩ := h.toHeapState.headers.alloc_popped hn0 hbs hstack hp0 hlt
    (fun c hc => h.headersApart_page hc (by simp [hstack])) hfuel
  rw [wadd_of_lt (show page + memblkSize < modulus by omega)] at hrun
  rw [← hrest] at hstack
  refine ⟨_, s', hrun, ?_⟩
  by_cases hle : n ≤ pmmBlockSize - memblkSize
  · refine ⟨fun _ => .inl hle, fun _ _ => .inr ⟨page, hstack, fun x hx hxn => ?_⟩⟩
    omega
  · refine ⟨fun hinside => ?_, ?_⟩
    · exact absurd (hinside (by omega)) (h.not_allocatedInside_of_page hstack (not_le.mp hle))
    · rintro (hsmall | ⟨c, hc, hfits⟩ | hrefuse)
      · exact absurd hsmall hle
      · -- the search has passed every block
        refine absurd hfits ?_
        rw [← wadd_of_lt (h.lt_of_fits hc hfits)]
        exact hbs c hc
      · rw [hrefused.mp hrefuse] at hstack
        cases hstack

/-- On a well-formed heap `pmm_alloc(n)` returns, and its result is as large as requested if and
only if `SizeHonoured` holds. -/
theorem alloc_size_honoured_iff (h : WellFormed s bs) (hn : n < modulus) (hfuel : bs.length < fuel) :
    ∃ p s', pmmAlloc fuel s n = some (p, s') ∧
      ((p ≠ 0 → AllocatedInside s s' bs p n) ↔ SizeHonoured s bs n) := by
  by_cases hn0 : n = 0
  · subst hn0
    refine ⟨0, s, by simp [pmmAlloc, h.initialized], fun _ => .inl (Nat.zero_le _), ?_⟩
    exact fun _ hp => absurd rfl hp
  cases hfit : firstFit memblkSize (wadd n memblkSize) bs with
  | some r => exact h.size_honoured_of_fit hn0 hfit hfuel
  | none =>
    cases hstack : s.pmmStack with
    | nil =>
      have hrefused : Refused s bs n := by
        rw [Refused, hfit]
        exact hstack
      have hbs := firstFit_eq_none.mp hfit
      refine ⟨0, s, h.toHeapState.headers.alloc_refused hn0 hbs hstack hfuel, ?_⟩
      exact ⟨fun _ => .inr (.inr hrefused), fun _ hp => absurd rfl hp⟩
    | cons page rest => exact h.size_honoured_of_page hn0 hfit hstack hfuel

/-- The stack of a thread: 4096 bytes on an empty heap. -/
theorem alloc_size_honoured_stack :
    ∃ p s', pmmAlloc 1 threePages 4096 = some (p, s') ∧
      ((p ≠ 0 → AllocatedInside threePages s' [] p 4096) ↔ SizeHonoured threePages [] 4096) :=
  alloc_size_honoured_iff threePages_start.wellFormed (by decide) (Nat.lt_succ_self 0)

/-- The stack that `sched_alloc_stack` asks for does not fit on the page that it gets. -/
theorem stack_not_inside_page : ∃ s', WellFormed threePages [] ∧
    pmmAlloc 1 threePages 4096 = some (0x6018, s') ∧
    ¬ AllocatedInside threePages s' [] 0x6018 4096 := by
  have hwf := threePages_start.wellFormed
  obtain ⟨s', hrun, -, hrest, -⟩ := hwf.toHeapState.headers.alloc_popped (n := 4096) (by decide)
    (by simp) threePages_stack (by decide) (by decide) (by simp) (Nat.lt_succ_self 0)
  have hpopped : threePages.pmmStack = 0x6000 :: s'.pmmStack := by rw [threePages_stack, hrest]
  exact ⟨s', hwf, hrun, hwf.not_allocatedInside_of_page hpopped (by decide)⟩

end Soaplin

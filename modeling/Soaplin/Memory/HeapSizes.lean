import Soaplin.Memory.HeapHeaders

/-!
# The bytes of the heap pages

`pmm_alloc` gives the first block of a page that it pops exactly the requested size.  The bytes
behind it are in no block and are lost for the heap, while the rest that is cut off a block of the
list becomes a free block.  In a run that keeps the headers the block sizes add up to the pages of
the heap exactly when every page has been popped for a request that fills it.
-/

namespace Soaplin

open ByteMemory Word64 FreeList LinkedChain TransitionTrace

/-- The sizes of the blocks of the heap list add up to the pages that `pmm_alloc` has popped. -/
def SizesAddUp (h : HeapRun) : Prop :=
  ∃ bs, HeapList h.pmm.mem h.pmm.pmmFreeBlocks bs ∧
    totalSize bs = pmmBlockSize * h.heapPages.length

variable {init : List ℕ} {s : Pmm} {ops : List HeapOp} {op : HeapOp} {h h' : HeapRun}
  {bs : List Block}

/-- In a heap list that is known, the sizes are those of its blocks. -/
lemma HeadersInv.sizesAddUp_iff (hinv : HeadersInv init h bs) :
    SizesAddUp h ↔ totalSize bs = pmmBlockSize * h.heapPages.length := by
  constructor
  · rintro ⟨bs', hlist, htotal⟩
    rwa [hinv.list.unique hlist]
  · intro htotal
    exact ⟨bs, hinv.list, htotal⟩

/-- What has been lost does not come back: after a step the sizes add up if and only if they did
before and the step has filled its page. -/
lemma HeadersInv.sizesAddUp_step (hok : PagesOk init) (hinv : HeadersInv init h bs)
    (hkeep : KeepsHeaders h op) (hstep : HeapStep h op h') :
    SizesAddUp h' ↔ SizesAddUp h ∧ FillsPage h op := by
  obtain ⟨bs', hinv', lost, hlost, hfills⟩ := hinv.step hok hkeep hstep
  have hle := hinv.size_le
  have hle' := hinv'.size_le
  rw [hinv.sizesAddUp_iff, hinv'.sizesAddUp_iff, ← hfills]
  omega

/-- In a run that keeps the headers the sizes of the blocks add up to the pages of the heap if and
only if every request for which a page was popped has filled the page. -/
theorem sizes_add_up_iff (hs : HeapStart s)
    (htrace : Trace (Restrict KeepsHeaders HeapStep) (HeapRun.start s) ops h) :
    SizesAddUp h ↔
      Trace (Restrict (fun h op => KeepsHeaders h op ∧ FillsPage h op) HeapStep) (HeapRun.start s) ops
        h := by
  have hok : PagesOk s.pmmStack := ⟨hs.nodup, hs.page, hs.length_le⟩
  constructor
  · intro hsizes
    induction htrace with
    | nil => exact .nil
    | snoc hprev hs' ih =>
      obtain ⟨bs, hinv⟩ := HeadersInv.of_trace hs hprev
      obtain ⟨hsizes', hfills⟩ := (hinv.sizesAddUp_step hok hs'.1 hs'.2).mp hsizes
      exact .snoc (ih hsizes') ⟨⟨hs'.1, hfills⟩, hs'.2⟩
  · intro hfilled
    have hboth : SizesAddUp h ∧ ∃ bs, HeadersInv s.pmmStack h bs := by
      refine hfilled.invariant (fun h => SizesAddUp h ∧ ∃ bs, HeadersInv s.pmmStack h bs)
        ⟨⟨[], hs.empty, rfl⟩, [], headersInv_start hs⟩ ?_
      rintro a op b ⟨hsizes, bs, hinv⟩ ⟨⟨hkeep, hfills⟩, hstep⟩
      obtain ⟨bs', hinv', -⟩ := hinv.step hok hkeep hstep
      exact ⟨(hinv.sizesAddUp_step hok hkeep hstep).mpr ⟨hsizes, hfills⟩, bs', hinv'⟩
    exact hboth.1

/-- A request that fills a page, and a block that is cut and merged again. -/
theorem sizes_add_up_cutAndMerge : ∃ h, HeapStart threePages ∧
    Trace HeapStep (HeapRun.start threePages) [.alloc 4072, .free 0x6018, .alloc 16, .free 0x6018] h ∧
      SizesAddUp h := by
  obtain ⟨h₁, h₂, h₃, h₄, hs₁, hs₂, hfree₂, hv₂, hs₃, hs₄, hfree₄⟩ := exists_cutAndMerge
  have hok : PagesOk threePages.pmmStack :=
    ⟨threePages_start.nodup, threePages_start.page, threePages_start.length_le⟩
  have hinv₀ := heapInv_start threePages_start
  obtain ⟨_, hinv₁⟩ := hinv₀.step hok (show FreesNeighbours _ (.alloc 4072) from trivial) hs₁
  obtain ⟨_, hinv₂⟩ := hinv₁.step hok hfree₂ hs₂
  obtain ⟨_, hinv₃⟩ := hinv₂.step hok (show FreesNeighbours _ (.alloc 16) from trivial) hs₃
  -- the second request does not need a page
  have hfits : FillsPage h₂ (.alloc 16) := by
    rintro bs hlist hnone -
    rw [← hv₂.state.list.unique hlist] at hnone
    exact absurd (by decide) (hnone ⟨0x6000, 4096, true⟩ (by simp))
  have hk₁ := hinv₀.keepsHeaders hok hs₁
  have hk₂ := hinv₁.keepsHeaders hok hs₂
  have hk₃ := hinv₂.keepsHeaders hok hs₃
  have hk₄ := hinv₃.keepsHeaders hok hs₄
  have hkeeps : Trace (Restrict KeepsHeaders HeapStep) (HeapRun.start threePages)
      [.alloc 4072, .free 0x6018, .alloc 16, .free 0x6018] h₄ :=
    .snoc (.snoc (.snoc (.snoc .nil ⟨hk₁, hs₁⟩) ⟨hk₂, hs₂⟩) ⟨hk₃, hs₃⟩) ⟨hk₄, hs₄⟩
  have hfills : Trace (Restrict (fun h op => KeepsHeaders h op ∧ FillsPage h op) HeapStep)
      (HeapRun.start threePages) [.alloc 4072, .free 0x6018, .alloc 16, .free 0x6018] h₄ :=
    .snoc (.snoc (.snoc (.snoc .nil ⟨⟨hk₁, fun _ _ _ _ => rfl⟩, hs₁⟩)
      ⟨⟨hk₂, fun _ _ => trivial⟩, hs₂⟩) ⟨⟨hk₃, hfits⟩, hs₃⟩) ⟨⟨hk₄, fun _ _ => trivial⟩, hs₄⟩
  exact ⟨h₄, threePages_start, .snoc (.snoc (.snoc (.snoc .nil hs₁) hs₂) hs₃) hs₄,
    (sizes_add_up_iff threePages_start hkeeps).mpr hfills⟩

/-- A run that loses the rest of a page: sixteen bytes from an empty heap. -/
theorem sizes_not_add_up : ∃ h, HeapStart threePages ∧
    Trace HeapStep (HeapRun.start threePages) [.alloc 16] h ∧ ¬ SizesAddUp h := by
  obtain ⟨h₁, hs₁, hv₁⟩ := threePages_view.alloc_fresh (n := 16) (by decide) (by decide) rfl
    (by decide) (by decide) (by simp) (by decide) (by decide)
  refine ⟨h₁, threePages_start, .single hs₁, ?_⟩
  rintro ⟨bs, hlist, htotal⟩
  rw [← hv₁.state.list.unique hlist, hv₁.heapPages_eq] at htotal
  exact absurd htotal (by decide)

end Soaplin

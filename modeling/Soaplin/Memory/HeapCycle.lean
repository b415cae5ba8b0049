import Soaplin.Memory.HeapHeaders

/-!
# Termination of the heap loops

The loops of `pmm_alloc` and `pmm_free` end when the list from `pmm_free_blocks` reaches `NULL`.  It
does in every run that keeps the headers (`heap_acyclic`).  `heap_cyclic` is a run that ends with a
cycle: a merge across pages that are not neighbours in the list order lets `pmm_alloc` write the
header of a rest over the header of a block that is still in the list, behind the block it links to.
-/

namespace Soaplin

open ByteMemory Word64 FreeList LinkedChain TransitionTrace

/-- The heap list reaches `NULL` without a repeated block, and the calls of a legal run return. -/
structure HeapAcyclic (h : HeapRun) : Prop where
  list : ∃ l, Chain (blockNext h.pmm.mem) h.pmm.pmmFreeBlocks l ∧ l.Nodup
  alloc : ∀ n, ∃ fuel r, pmmAlloc fuel h.pmm n = some r
  free : ∀ a ∈ h.blocks, ∃ fuel s, pmmFree fuel h.pmm a.1 = some s

variable {init : List ℕ} {s : Pmm} {ops : List HeapOp} {h : HeapRun} {bs : List Block}

/-- On a heap list `pmm_alloc` returns, whatever the size. -/
lemma pmmAlloc_returns (hlist : HeapList s.mem s.pmmFreeBlocks bs) (n : ℕ) :
    ∃ r, pmmAlloc (bs.length + 1) s n = some r := by
  have hfind : ∃ q, findBlock s.mem (wadd n memblkSize) (bs.length + 1) s.pmmFreeBlocks 0 = some q := by
    cases hfit : firstFit memblkSize (wadd n memblkSize) bs with
    | none =>
      exact ⟨_, findBlock_of_not_fits hlist (firstFit_eq_none.mp hfit) (Nat.lt_succ_self _)⟩
    | some r =>
      obtain ⟨b, bs'⟩ := r
      obtain ⟨pre, post, rfl, hpre, hb, -⟩ := firstFit_eq_some hfit
      have hlen : pre.length < (pre ++ b :: post).length + 1 := by
        rw [List.length_append]
        omega
      obtain ⟨prev, hprev⟩ := findBlock_of_fits hlist hpre hb hlen
      exact ⟨_, hprev⟩
  obtain ⟨q, hq⟩ := hfind
  unfold pmmAlloc
  simp only [hq]
  split_ifs
  all_goals exact ⟨_, rfl⟩

/-- While the invariant holds, the loops terminate. -/
lemma HeadersInv.acyclic (hok : PagesOk init) (hinv : HeadersInv init h bs) : HeapAcyclic h := by
  refine ⟨⟨_, hinv.list.chain, hinv.list.chain.nodup⟩, fun n => ⟨_, pmmAlloc_returns hinv.list n⟩, ?_⟩
  intro a ha
  obtain ⟨pre, b, post, m, -, -, hrun, -⟩ := hinv.free_run hok ha
  exact ⟨_, _, hrun⟩

/-- In every run that keeps the headers, in every state reached the heap list ends and the loops of
`pmm_alloc` and `pmm_free` terminate. -/
theorem heap_acyclic (hs : HeapStart s)
    (htrace : Trace (Restrict KeepsHeaders HeapStep) (HeapRun.start s) ops h) : HeapAcyclic h := by
  obtain ⟨bs, hinv⟩ := HeadersInv.of_trace hs htrace
  exact hinv.acyclic ⟨hs.nodup, hs.page, hs.length_le⟩

/-- A block that is cut and merged again. -/
theorem heap_acyclic_cutAndMerge : ∃ h, HeapStart threePages ∧
    Trace (Restrict KeepsHeaders HeapStep) (HeapRun.start threePages)
      [.alloc 4072, .free 0x6018, .alloc 16, .free 0x6018] h ∧ HeapAcyclic h := by
  obtain ⟨h₁, h₂, h₃, h₄, hs₁, hs₂, hfree₂, -, hs₃, hs₄, hfree₄⟩ := exists_cutAndMerge
  have hfrees : Trace (Restrict FreesNeighbours HeapStep) (HeapRun.start threePages)
      [.alloc 4072, .free 0x6018, .alloc 16, .free 0x6018] h₄ :=
    .snoc (.snoc (.snoc (.snoc .nil ⟨trivial, hs₁⟩) ⟨hfree₂, hs₂⟩) ⟨trivial, hs₃⟩) ⟨hfree₄, hs₄⟩
  have htrace := (keepsHeaders_of_freesNeighbours threePages_start hfrees).1
  exact ⟨h₄, threePages_start, htrace, heap_acyclic threePages_start htrace⟩

/-! ### A cycle -/

/-- The state after `pmm_init` on a map with one usable entry of four pages. -/
def fourPages : Pmm := pmmInit (.boot fun _ => 0) [⟨0x4000, 0x4000, memmapUsable⟩]

/-- A map with one usable entry of four pages. -/
lemma limineMap_fourPages : LimineMap [⟨0x4000, 0x4000, memmapUsable⟩] := by
  refine ⟨?_, ?_, ?_, List.pairwise_singleton _ _⟩ <;> simp [pmmBlockSize, modulus]

lemma fourPages_start : HeapStart fourPages := heapStart_pmmInit limineMap_fourPages rfl

lemma fourPages_stack : fourPages.pmmStack = [0x7000, 0x6000, 0x5000, 0x4000] :=
  pmmInit_stack_eq limineMap_fourPages.noWrap _ (by decide)

lemma fourPages_view :
    HeapView (HeapRun.start fourPages) [] [0x7000, 0x6000, 0x5000, 0x4000] [] [] [] := by
  rw [← fourPages_stack]
  exact fourPages_start.view

/-- The calls of the run that ends with a cycle. -/
def cyclicRun : List HeapOp :=
  [.allocpage, .allocpage, .alloc 4072, .alloc 4072, .freepage 0x6000, .freepage 0x7000, .alloc 4072,
    .alloc 4072, .free 0x4018, .free 0x5018, .alloc 4072]

/-- The run up to its two calls of `pmm_free`: the pages came in the order `0x5000`, `0x4000`,
`0x7000`, `0x6000`, and the second of them is free. -/
lemma exists_view_cyclicRun : ∃ h, Trace HeapStep (HeapRun.start fourPages) (cyclicRun.take 9) h ∧
    HeapView h [⟨0x5000, 4096, false⟩, ⟨0x4000, 4096, true⟩, ⟨0x7000, 4096, false⟩,
      ⟨0x6000, 4096, false⟩] [] [(0x6018, 4072), (0x7018, 4072), (0x5018, 4072)] []
      [0x6000, 0x7000, 0x4000, 0x5000] := by
  obtain ⟨h₁, hs₁, hv₁⟩ := fourPages_view.allocpage (by decide)
  obtain ⟨h₂, hs₂, hv₂⟩ := hv₁.allocpage (by decide)
  obtain ⟨h₃, hs₃, hv₃⟩ := hv₂.alloc_fresh (n := 4072) (by decide) (by decide) rfl
    (by decide) (by decide) (by simp) (by decide) (by decide)
  obtain ⟨h₄, hs₄, hv₄⟩ := hv₃.alloc_fresh (n := 4072) (by decide) (by decide) (by decide)
    (by decide) (by decide) (by decide) (by decide) (by decide)
  obtain ⟨h₅, hs₅, hv₅⟩ := hv₄.freepage 0x6000 (by decide) (by decide)
  obtain ⟨h₆, hs₆, hv₆⟩ := hv₅.freepage 0x7000 (by decide) (by decide)
  obtain ⟨h₇, hs₇, hv₇⟩ := hv₆.alloc_fresh (n := 4072) (by decide) (by decide) (by decide)
    (by decide) (by decide) (by decide) (by decide) (by decide)
  obtain ⟨h₈, hs₈, hv₈⟩ := hv₇.alloc_fresh (n := 4072) (by decide) (by decide) (by decide)
    (by decide) (by decide) (by decide) (by decide) (by decide)
  obtain ⟨h₉, hs₉, hv₉⟩ := hv₈.free [⟨0x5000, 4096, false⟩] ⟨0x4000, 4096, false⟩
    [⟨0x7000, 4096, false⟩, ⟨0x6000, 4096, false⟩] (n := 4072) (by decide) (by decide) (by decide)
    (by decide) (by decide)
  refine ⟨h₉, ?_, hv₉⟩
  exact .snoc (.snoc (.snoc (.snoc (.snoc (.snoc (.snoc (.snoc (.snoc .nil hs₁) hs₂) hs₃) hs₄) hs₅) hs₆)
    hs₇) hs₈) hs₉

/-- A legal run that ends with a cycle.  Freeing `0x5018` merges the block of the page `0x4000` into
that of `0x5000`, as if it lay behind it; the next allocation cuts a rest off at `0x6000`, over the
header of the last block of the list, and links it to the block of `0x7000`, whose successor it is.
-/
theorem heap_cyclic : ∃ h, HeapStart fourPages ∧
    Trace HeapStep (HeapRun.start fourPages) cyclicRun h ∧ ¬ HeapAcyclic h := by
  obtain ⟨h, htrace, hv⟩ := exists_view_cyclicRun
  have hst := hv.state
  -- the second `pmm_free` merges the pages `0x5000` and `0x4000`
  obtain ⟨m, hrun, hlist, -⟩ := @HeapHeaders.free h.pmm [] _ ⟨0x5000, 4096, false⟩ 4 hst.headers
    (by decide) (by decide) (by decide) (by decide)
  have hlive : (0x5018, 4072) ∈ h.blocks := by
    rw [hv.blocks_eq]
    decide
  have hfree : HeapStep h (.free 0x5018) { h with
      pmm := { h.pmm with mem := m }, blocks := h.blocks.erase (0x5018, 4072) } := .free hlive hrun
  have hmerged : HeapHeaders { h.pmm with mem := m }
      [⟨0x5000, 8192, true⟩, ⟨0x7000, 4096, false⟩, ⟨0x6000, 4096, false⟩] :=
    ⟨hst.initialized, hlist, by decide⟩
  -- the last allocation takes the merged block and cuts it at `0x6000`
  have hlast := @HeapHeaders.alloc_first _ [] [⟨0x7000, 4096, false⟩, ⟨0x6000, 4096, false⟩]
    ⟨0x5000, 8192, true⟩ 4072 4 hmerged (by decide) (by simp) (by decide) (by decide)
  obtain ⟨hhead, -, hblk, -, hnext, -, -, -, hnext', -⟩ := hmerged.list
  dsimp only at hhead hblk hnext hnext'
  rw [hhead] at hblk hnext hnext'
  rw [hnext] at hnext'
  obtain ⟨hfst, hrest, hframe⟩ := @takeBlock_split m 4096 0x5000 (by decide) (by decide)
    (by rw [hblk]; decide)
  have hsum : wadd 4072 memblkSize = 4096 := by decide
  rw [hsum] at hlast
  generalize takeBlock m 4096 0x5000 = m' at hfst hrest hframe hlast
  have hthird : readMemblk m' 0x7000 = readMemblk m 0x7000 :=
    readMemblk_congr fun x hx hx' => hframe x (by simp only [memblkSize] at *; omega)
      (by simp only [memblkSize] at *; omega)
  have hlinks : blockNext m' 0x5000 = 0x6000 ∧ blockNext m' 0x6000 = 0x7000 ∧
      blockNext m' 0x7000 = 0x6000 := by
    refine ⟨?_, ?_, ?_⟩
    · rw [blockNext_eq, hfst]
    · rw [blockNext_eq, hrest, hnext]
    · rw [blockNext_eq, hthird, ← blockNext_eq, hnext']
  refine ⟨_, fourPages_start, .snoc (.snoc htrace hfree) (.alloc (by decide) (by decide) hlast), ?_⟩
  rintro ⟨⟨l, hchain, -⟩, -, -⟩
  change Chain (blockNext m') h.pmm.pmmFreeBlocks l at hchain
  rw [hhead] at hchain
  obtain ⟨h₅, h₆, h₇⟩ := hlinks
  cases l with
  | nil => cases hchain
  | cons b l =>
    obtain ⟨rfl, -, hrest⟩ := hchain
    rw [h₅] at hrest
    have hcycle : Path (blockNext m') 0x6000 [0x6000, 0x7000] 0x6000 :=
      ⟨rfl, by decide, h₆, by decide, h₇⟩
    cases Chain.eq_nil_of_cycle hrest hcycle

end Soaplin

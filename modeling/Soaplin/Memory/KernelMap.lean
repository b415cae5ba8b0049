import Soaplin.Memory.PagemapPages
import Soaplin.Memory.AccessRights

/-!
# The map that `vmm_init` builds

After `createKernelPagemap` the loops of `vmm_init` are a sequence of `vmm_map` calls on the kernel
page map, so that the abstract translation after this sequence describes the result.  A placement of
the kernel (`KernelPlacement`) makes the calls fall on different virtual pages.  The number of page
tables is bounded by the number of different paths of the addresses, which gives a bound on the
pages that `vmm_init` takes.
-/

namespace Soaplin

open ByteMemory Word64 RadixForest TransitionTrace

variable {s s' : Vmm} {pm : ℕ} {ops : List MapOp} {lab : Labels ℕ ℕ (Fin 512)} {pms : List ℕ}

/-! ### Sequences of calls -/

/-- The variables that `vmm_map` and `vmm_unmap` only read. -/
structure SameGlobals (s s' : Vmm) : Prop where
  hhdmOff : s'.hhdmOff = s.hhdmOff
  kernelPhysAddr : s'.kernelPhysAddr = s.kernelPhysAddr
  kernelVirtAddr : s'.kernelVirtAddr = s.kernelVirtAddr
  kernel : s'.vmmKernelPagemap = s.vmmKernelPagemap

lemma SameGlobals.trans {s'' : Vmm} (h : SameGlobals s s') (h' : SameGlobals s' s'') :
    SameGlobals s s'' :=
  ⟨h'.hhdmOff.trans h.hhdmOff, h'.kernelPhysAddr.trans h.kernelPhysAddr,
    h'.kernelVirtAddr.trans h.kernelVirtAddr, h'.kernel.trans h.kernel⟩

/-- `__vmm_get_next_lvl` keeps the other variables. -/
lemma vmmGetNextLvl_sameGlobals (s : Vmm) (level entry : ℕ) :
    SameGlobals s (vmmGetNextLvl s level entry).2 := by
  unfold vmmGetNextLvl
  split_ifs <;> exact ⟨rfl, rfl, rfl, rfl⟩

/-- A call keeps the other variables. -/
lemma MapOp.run_sameGlobals (s : Vmm) (pm : ℕ) (op : MapOp) : SameGlobals s (op.run s pm) := by
  rw [MapOp.run_eq]
  have h₃ := vmmGetNextLvl_sameGlobals s (pagemapTopLevel s pm) (pml4Entry op.vaddr)
  have h₂ := vmmGetNextLvl_sameGlobals
    (vmmGetNextLvl s (pagemapTopLevel s pm) (pml4Entry op.vaddr)).2
    (vmmGetNextLvl s (pagemapTopLevel s pm) (pml4Entry op.vaddr)).1 (pml3Entry op.vaddr)
  have h₁ := vmmGetNextLvl_sameGlobals
    (vmmGetNextLvl (vmmGetNextLvl s (pagemapTopLevel s pm) (pml4Entry op.vaddr)).2
      (vmmGetNextLvl s (pagemapTopLevel s pm) (pml4Entry op.vaddr)).1 (pml3Entry op.vaddr)).2
    (vmmGetNextLvl (vmmGetNextLvl s (pagemapTopLevel s pm) (pml4Entry op.vaddr)).2
      (vmmGetNextLvl s (pagemapTopLevel s pm) (pml4Entry op.vaddr)).1 (pml3Entry op.vaddr)).1
    (pml2Entry op.vaddr)
  have h := (h₃.trans h₂).trans h₁
  exact ⟨h.hhdmOff, h.kernelPhysAddr, h.kernelVirtAddr, h.kernel⟩

/-- The state after a sequence of calls on the page map `pm`. -/
def runAll (s : Vmm) (pm : ℕ) (ops : List MapOp) : Vmm := ops.foldl (fun s op => op.run s pm) s

/-- A sequence of calls keeps the other variables. -/
lemma runAll_sameGlobals (s : Vmm) (pm : ℕ) (ops : List MapOp) :
    SameGlobals s (runAll s pm ops) := by
  induction ops generalizing s with
  | nil => exact ⟨rfl, rfl, rfl, rfl⟩
  | cons op ops ih => exact (op.run_sameGlobals s pm).trans (ih _)

/-- A failed allocation before a call stays recorded. -/
lemma MapOp.run_outOfPages {op : MapOp} (h : (op.run s pm).outOfPages = false) :
    s.outOfPages = false := by
  rw [MapOp.run_eq, vmmSetEntry_eq] at h
  exact vmmDescend_outOfPages h

/-- A failed allocation before a sequence of calls stays recorded. -/
lemma runAll_outOfPages (h : (runAll s pm ops).outOfPages = false) : s.outOfPages = false := by
  induction ops generalizing s with
  | nil => exact h
  | cons op ops ih => exact MapOp.run_outOfPages (ih h)

/-- A sequence of valid calls during which no allocation fails is a run. -/
lemma trace_runAll (hvalid : ∀ op ∈ ops, op.Valid) (hsupply : (runAll s pm ops).outOfPages = false) :
    Trace (MapStep pm) s ops (runAll s pm ops) := by
  induction ops using List.reverseRecOn with
  | nil => exact .nil
  | append_singleton ops op ih =>
    have happ : runAll s pm (ops ++ [op]) = op.run (runAll s pm ops) pm := List.foldl_concat ..
    rw [happ] at hsupply ⊢
    refine .snoc (ih (fun op hop => hvalid op (List.mem_append_left _ hop))
      (MapOp.run_outOfPages hsupply)) ⟨hvalid op (by simp), rfl, hsupply⟩

/-- A sequence of calls keeps the page maps. -/
lemma PageMaps.runAll (h : PageMaps s pms lab) (hpm : pm ∈ pms)
    (hsupply : (runAll s pm ops).outOfPages = false) :
    ∃ lab', PageMaps (Soaplin.runAll s pm ops) pms lab' := by
  induction ops generalizing s lab with
  | nil => exact ⟨lab, h⟩
  | cons op ops ih =>
    have hstep : (vmmSetEntry s pm op.vaddr op.entry).outOfPages = false := by
      rw [← MapOp.run_eq]
      exact @runAll_outOfPages _ pm ops hsupply
    obtain ⟨lab₁, -, -, -, -, hmaps, -⟩ := h.setEntry_spec hpm hstep
    rw [← MapOp.run_eq] at hmaps
    exact ih hmaps hsupply

/-! ### The loops of `vmm_init` -/

/-- The values of the variable of a loop `for (x = start; x < stop; x += PAGE_SIZE)`. -/
def pageRange (x stop : ℕ) : List ℕ :=
  if x < stop then x :: pageRange (x + pageSize) stop else []
termination_by stop - x
decreasing_by simp only [pageSize]; omega

/-- The loop goes through these values. -/
lemma forPages_eq_foldl (body : Vmm → ℕ → Vmm) (s : Vmm) (x stop : ℕ) :
    forPages body s x stop = (pageRange x stop).foldl body s := by
  fun_induction forPages body s x stop with
  | case1 s x hlt ih =>
    rw [pageRange, if_pos hlt, List.foldl_cons]
    exact ih
  | case2 s x hge => rw [pageRange, if_neg hge, List.foldl_nil]

/-- The values of the loop variable. -/
lemma mem_pageRange {x stop y : ℕ} :
    y ∈ pageRange x stop ↔ x ≤ y ∧ y < stop ∧ (y - x) % pageSize = 0 := by
  fun_induction pageRange x stop with
  | case1 x hlt ih =>
    rw [List.mem_cons, ih]
    simp only [pageSize]
    omega
  | case2 x hge =>
    simp only [List.not_mem_nil, false_iff]
    omega

/-- A loop whose body is a sequence of calls that depends on the unchanged variables only. -/
lemma foldl_eq_runAll {body : Vmm → ℕ → Vmm} {calls : ℕ → List MapOp}
    (hbody : ∀ s' x, SameGlobals s s' → body s' x = runAll s' pm (calls x)) (xs : List ℕ) {u : Vmm}
    (hu : SameGlobals s u) : xs.foldl body u = runAll u pm (xs.flatMap calls) := by
  induction xs generalizing u with
  | nil => rfl
  | cons x xs ih =>
    rw [List.foldl_cons, hbody u x hu, ih (hu.trans (runAll_sameGlobals u pm _)), List.flatMap_cons]
    exact List.foldl_append.symm

/-- The physical address of a virtual address of the kernel. -/
def kernelImage (s : Vmm) (x : ℕ) : ℕ := wadd (wsub x s.kernelVirtAddr) s.kernelPhysAddr

/-- The virtual pages of a section. -/
def sectionPages (startLd endLd : ℕ) : List ℕ := pageRange (alignDown startLd) (alignUp endLd)

/-- The pages of the first 4 GiB. -/
def lowPages : List ℕ := pageRange 0 0x100000000

/-- The calls of `vmm_map` for a section. -/
def sectionCalls (s : Vmm) (startLd endLd flags : ℕ) : List MapOp :=
  (sectionPages startLd endLd).map fun x => .map x (kernelImage s x) flags

/-- The calls of `vmm_map` for the first 4 GiB. -/
def lowCalls (s : Vmm) : List MapOp :=
  lowPages.flatMap fun g => [.map g g (1 ||| 2), .map (physicalToVirtual s g) g (1 ||| 2)]

/-- The calls of `vmm_map` for the sections of the kernel. -/
def kernelCalls (s : Vmm) (sym : SectionSymbols) : List MapOp :=
  sectionCalls s sym.textStartLd sym.textEndLd 1 ++
    sectionCalls s sym.rodataStartLd sym.rodataEndLd (1 ||| 1 <<< 63) ++
    sectionCalls s sym.dataStartLd sym.dataEndLd (1 ||| 2 ||| 1 <<< 63)

/-- All calls of `vmm_map` in `vmm_init`. -/
def initCalls (s : Vmm) (sym : SectionSymbols) : List MapOp := kernelCalls s sym ++ lowCalls s

lemma SameGlobals.refl (s : Vmm) : SameGlobals s s := ⟨rfl, rfl, rfl, rfl⟩

/-- The loop over a section is its sequence of calls. -/
lemma mapSection_eq (h : SameGlobals s s') (startLd endLd flags : ℕ) :
    mapSection s' startLd endLd flags =
      runAll s' s.vmmKernelPagemap (sectionCalls s startLd endLd flags) := by
  rw [mapSection, forPages_eq_foldl, sectionCalls, List.map_eq_flatMap]
  refine foldl_eq_runAll (s := s) (fun u x hu => ?_) _ h
  simp only [hu.kernel, hu.kernelVirtAddr, hu.kernelPhysAddr]
  rfl

/-- The loop over the first 4 GiB is its sequence of calls. -/
lemma mapLowMemory_eq (h : SameGlobals s s') :
    mapLowMemory s' = runAll s' s.vmmKernelPagemap (lowCalls s) := by
  rw [mapLowMemory, forPages_eq_foldl, lowCalls]
  refine foldl_eq_runAll (s := s) (fun u x hu => ?_) _ h
  have hmap := (MapOp.map x x (1 ||| 2)).run_sameGlobals u s.vmmKernelPagemap
  have hvirt : physicalToVirtual (vmmMap u s.vmmKernelPagemap x x (1 ||| 2)) x =
      physicalToVirtual s x := by
    rw [physicalToVirtual, physicalToVirtual, ← hu.hhdmOff, ← hmap.hhdmOff]
    rfl
  have hkernel : (vmmMap u s.vmmKernelPagemap x x (1 ||| 2)).vmmKernelPagemap =
      s.vmmKernelPagemap := hmap.kernel.trans hu.kernel
  simp only [hu.kernel, hvirt, hkernel]
  rfl

/-- Two sequences of calls in a row. -/
lemma runAll_append (s : Vmm) (pm : ℕ) (ops ops' : List MapOp) :
    runAll s pm (ops ++ ops') = runAll (runAll s pm ops) pm ops' := List.foldl_append

/-- `vmm_init` makes the kernel page map, performs its calls of `vmm_map`, and loads the page map.
-/
theorem vmmInit_eq (s : Vmm) (sym : SectionSymbols) :
    vmmInit s sym = vmmLoadPagemap
      (runAll (createKernelPagemap s) (createKernelPagemap s).vmmKernelPagemap
        (initCalls (createKernelPagemap s) sym))
      (createKernelPagemap s).vmmKernelPagemap := by
  have h₀ := SameGlobals.refl (createKernelPagemap s)
  rw [vmmInit, mapSection_eq h₀]
  generalize createKernelPagemap s = c at *
  have h₁ := h₀.trans (runAll_sameGlobals c c.vmmKernelPagemap
    (sectionCalls c sym.textStartLd sym.textEndLd 1))
  simp only [mapSection_eq h₁]
  have h₂ := h₁.trans (runAll_sameGlobals _ c.vmmKernelPagemap
    (sectionCalls c sym.rodataStartLd sym.rodataEndLd (1 ||| 1 <<< 63)))
  simp only [mapSection_eq h₂]
  have h₃ := h₂.trans (runAll_sameGlobals _ c.vmmKernelPagemap
    (sectionCalls c sym.dataStartLd sym.dataEndLd (1 ||| 2 ||| 1 <<< 63)))
  have h₄ := h₃.trans (runAll_sameGlobals _ c.vmmKernelPagemap (lowCalls c))
  simp only [mapLowMemory_eq h₃, h₄.kernel, initCalls, kernelCalls, runAll_append]

/-! ### The pages that a sequence of calls takes -/

/-- The paths among `P` along which a table is missing. -/
def missingPaths (s : Vmm) (pm : ℕ) (P : Finset (List (Fin 512))) : Finset (List (Fin 512)) :=
  P.filter fun p => follow pte (tableEntries s.mem) (rootTable s pm) p = none

/-- After a call no more paths are missing than before, and its own is not. -/
lemma missingPaths_setEntry (h : PageMaps s pms lab) (hpm : pm ∈ pms) {v value : ℕ}
    {P : Finset (List (Fin 512))} (hP : ∀ p ∈ P, p.length ≤ 3)
    (hsupply : (vmmSetEntry s pm v value).outOfPages = false) :
    missingPaths (vmmSetEntry s pm v value) pm P ⊆ missingPaths s pm P ∧
      tablePath v ∉ missingPaths (vmmSetEntry s pm v value) pm P := by
  obtain ⟨⟨d, hd⟩, hkeep⟩ := h.follow_setEntry hpm hsupply
  obtain ⟨_, _, _, _, _, _, hconf⟩ := h.setEntry_spec hpm hsupply
  have hroot := h.rootTable_eq hconf hpm
  refine ⟨fun p hp => ?_, fun hmem => ?_⟩
  · rw [missingPaths, Finset.mem_filter, hroot] at hp
    refine Finset.mem_filter.mpr ⟨hp.1, ?_⟩
    by_contra hne
    obtain ⟨c, hc⟩ := Option.ne_none_iff_exists'.mp hne
    rw [hkeep p c (hP p hp.1) hc] at hp
    exact Option.some_ne_none _ hp.2
  · rw [missingPaths, Finset.mem_filter, hroot, hd] at hmem
    exact Option.some_ne_none _ hmem.2

/-- A sequence of calls does not run out of pages when the page stack has three pages for every path
that is missing at the start, and takes at most that many. -/
theorem runAll_supply (h : PageMaps s pms lab) (hpm : pm ∈ pms) (hout : s.outOfPages = false)
    (hzero : 0 ∉ s.pmmStack) (P : Finset (List (Fin 512))) (hP : ∀ p ∈ P, p.length ≤ 3)
    (hops : ∀ op ∈ ops, tablePath op.vaddr ∈ P)
    (hlen : 3 * (missingPaths s pm P).card ≤ s.pmmStack.length) :
    (runAll s pm ops).outOfPages = false ∧
      ∃ k ≤ 3 * (missingPaths s pm P).card, (runAll s pm ops).pmmStack = s.pmmStack.drop k := by
  induction ops generalizing s lab with
  | nil => exact ⟨hout, 0, Nat.zero_le _, rfl⟩
  | cons op ops ih =>
    change (runAll (op.run s pm) pm ops).outOfPages = false ∧
      ∃ k ≤ 3 * (missingPaths s pm P).card, (runAll (op.run s pm) pm ops).pmmStack = _
    rw [MapOp.run_eq]
    have hmem : tablePath op.vaddr ∈ P := hops op List.mem_cons_self
    have hroot := h.root pm hpm
    cases hpath : follow pte (tableEntries s.mem) (rootTable s pm) (tablePath op.vaddr) with
    | some c =>
      -- the tables are there, so that the page stack is left alone
      have hdescend := vmmDescend_of_follow h.toPageTables hroot (by simp) hpath
      rw [← pagemapTopLevel_eq] at hdescend
      have hstack : (vmmSetEntry s pm op.vaddr op.entry).pmmStack = s.pmmStack := by
        rw [vmmSetEntry_eq, hdescend]
        rfl
      have hout' : (vmmSetEntry s pm op.vaddr op.entry).outOfPages = false := by
        rw [vmmSetEntry_eq, hdescend]
        exact hout
      obtain ⟨lab', -, -, -, -, hmaps, -⟩ := h.setEntry_spec hpm hout'
      have hcard := Finset.card_le_card (missingPaths_setEntry h hpm hP hout').1
      generalize vmmSetEntry s pm op.vaddr op.entry = s' at *
      obtain ⟨hout'', k, hk, hstack'⟩ := ih hmaps hout' (by rwa [hstack])
        (fun op hop => hops op (List.mem_cons_of_mem _ hop)) (by rw [hstack]; omega)
      exact ⟨hout'', k, by omega, by rw [hstack', hstack]⟩
    | none =>
      have hmissing : tablePath op.vaddr ∈ missingPaths s pm P := Finset.mem_filter.mpr ⟨hmem, hpath⟩
      have hpos := Finset.card_pos.mpr ⟨_, hmissing⟩
      obtain ⟨hout', k, hk, hstack⟩ := vmmSetEntry_supply pm op.vaddr op.entry h.initialized hout
        hzero (by omega)
      obtain ⟨lab', -, -, -, -, hmaps, -⟩ := h.setEntry_spec hpm hout'
      obtain ⟨hsub, hnot⟩ := missingPaths_setEntry h hpm hP hout'
      have hssub : missingPaths (vmmSetEntry s pm op.vaddr op.entry) pm P ⊂ missingPaths s pm P :=
        (Finset.ssubset_iff_of_subset hsub).mpr ⟨tablePath op.vaddr, hmissing, hnot⟩
      have hcard := Finset.card_lt_card hssub
      generalize vmmSetEntry s pm op.vaddr op.entry = s' at *
      obtain ⟨hout'', k', hk', hstack'⟩ := ih hmaps hout'
        (fun h0 => hzero (List.mem_of_mem_drop (hstack ▸ h0)))
        (fun op hop => hops op (List.mem_cons_of_mem _ hop)) (by rw [hstack, List.length_drop]; omega)
      exact ⟨hout'', k + k', by omega, by rw [hstack', hstack, List.drop_drop]⟩

/-! ### The kernel map -/

/-- `x` is a page of the section from `startLd` to `endLd`, rounded to whole pages. -/
def SectionPage (startLd endLd x : ℕ) : Prop :=
  x % pageSize = 0 ∧ startLd < x + pageSize ∧ x < endLd

/-- A page of `.text`. -/
def TextPage (sym : SectionSymbols) (x : ℕ) : Prop := SectionPage sym.textStartLd sym.textEndLd x

/-- A page of `.rodata`. -/
def RodataPage (sym : SectionSymbols) (x : ℕ) : Prop :=
  SectionPage sym.rodataStartLd sym.rodataEndLd x

/-- A page of `.data`. -/
def DataPage (sym : SectionSymbols) (x : ℕ) : Prop := SectionPage sym.dataStartLd sym.dataEndLd x

/-- A page of one of the sections. -/
def KernelPage (sym : SectionSymbols) (x : ℕ) : Prop :=
  TextPage sym x ∨ RodataPage sym x ∨ DataPage sym x

/-- A page of the first 4 GiB. -/
def LowPage (g : ℕ) : Prop := g % pageSize = 0 ∧ g < 0x100000000

/-- The loop over a section goes through its pages. -/
lemma mem_sectionPages {startLd endLd x : ℕ} (hwrap : endLd + (pageSize - 1) < modulus) :
    x ∈ sectionPages startLd endLd ↔ SectionPage startLd endLd x := by
  rw [sectionPages, mem_pageRange, alignUp, alignDown, wadd_of_lt hwrap, SectionPage]
  simp only [pageSize]
  omega

/-- The loop over the first 4 GiB goes through its pages. -/
lemma mem_lowPages {g : ℕ} : g ∈ lowPages ↔ LowPage g := by
  rw [lowPages, mem_pageRange, LowPage]
  simp [and_comm]

/-- A placement of the kernel by the bootloader and the linker. -/
structure KernelPlacement (s : Vmm) (sym : SectionSymbols) : Prop where
  /-- The physical base, the virtual base and the direct map are page-aligned addresses. -/
  phys : s.kernelPhysAddr % pageSize = 0 ∧ s.kernelPhysAddr < modulus
  virt : s.kernelVirtAddr % pageSize = 0 ∧ s.kernelVirtAddr < modulus
  hhdm : s.hhdmOff % pageSize = 0 ∧ s.hhdmOff < modulus
  /-- The rounded sections do not wrap. -/
  text_end : sym.textEndLd + (pageSize - 1) < modulus
  rodata_end : sym.rodataEndLd + (pageSize - 1) < modulus
  data_end : sym.dataEndLd + (pageSize - 1) < modulus
  /-- The physical images of the sections have addresses of at most 52 bits. -/
  image_lt : ∀ x, KernelPage sym x → kernelImage s x < 2 ^ 52
  /-- The sections are disjoint. -/
  text_rodata : ∀ x, TextPage sym x → ¬ RodataPage sym x
  text_data : ∀ x, TextPage sym x → ¬ DataPage sym x
  rodata_data : ∀ x, RodataPage sym x → ¬ DataPage sym x
  /-- They are disjoint from the first 4 GiB and from its image in the direct map. -/
  low : ∀ x g, KernelPage sym x → LowPage g → pageKey x ≠ pageKey g
  direct : ∀ x g, KernelPage sym x → LowPage g → pageKey x ≠ pageKey (physicalToVirtual s g)
  /-- These two are disjoint. -/
  low_direct : ∀ g g', LowPage g → LowPage g' → pageKey (physicalToVirtual s g) ≠ pageKey g'

/-- No two pages of the kernel agree in bits 47 to 12. -/
def KernelPagesApart (sym : SectionSymbols) : Prop :=
  ∀ x y, KernelPage sym x → KernelPage sym y → pageKey x = pageKey y → x = y

/-- The image of a page is a page. -/
lemma kernelImage_aligned {x : ℕ} (hphys : s.kernelPhysAddr % pageSize = 0)
    (hvirt : s.kernelVirtAddr % pageSize = 0) (hx : x % pageSize = 0) :
    kernelImage s x % pageSize = 0 := by
  simp only [kernelImage, wadd, wsub, modulus, pageSize] at *
  omega

/-- Pages of the first 4 GiB are different virtual pages. -/
lemma LowPage.eq_of_key {g g' : ℕ} (hg : LowPage g) (hg' : LowPage g')
    (hkey : pageKey g = pageKey g') : g = g' := by
  simp only [LowPage, pageKey, pageSize] at *
  omega

/-- So are their images in the direct map. -/
lemma LowPage.eq_of_direct_key {g g' : ℕ} (hhdm : s.hhdmOff % pageSize = 0) (hg : LowPage g)
    (hg' : LowPage g')
    (hkey : pageKey (physicalToVirtual s g) = pageKey (physicalToVirtual s g')) : g = g' := by
  simp only [LowPage, pageKey, pageSize, physicalToVirtual, wadd, modulus] at *
  omega

/-- `x` is a page of a section that `vmm_init` maps with the flags. -/
inductive SectionFlags (sym : SectionSymbols) (x : ℕ) : ℕ → Prop
  | text (h : TextPage sym x) : SectionFlags sym x 1
  | rodata (h : RodataPage sym x) : SectionFlags sym x (1 ||| 1 <<< 63)
  | data (h : DataPage sym x) : SectionFlags sym x (1 ||| 2 ||| 1 <<< 63)

/-- The intended kernel map: the virtual address, the physical address and the flags of every
page. -/
inductive KernelMapping (s : Vmm) (sym : SectionSymbols) : ℕ → ℕ → ℕ → Prop
  | kernel {x f : ℕ} (h : SectionFlags sym x f) : KernelMapping s sym x (kernelImage s x) f
  | low {g : ℕ} (h : LowPage g) : KernelMapping s sym g g (1 ||| 2)
  | direct {g : ℕ} (h : LowPage g) : KernelMapping s sym (physicalToVirtual s g) g (1 ||| 2)

variable {sym : SectionSymbols} {x v v' p p' f f' w : ℕ}

/-- A page of a section. -/
lemma SectionFlags.kernelPage (h : SectionFlags sym x f) : KernelPage sym x := by
  cases h with
  | text h => exact .inl h
  | rodata h => exact .inr (.inl h)
  | data h => exact .inr (.inr h)

/-- A page of the kernel is a page. -/
lemma KernelPage.aligned (h : KernelPage sym x) : x % pageSize = 0 := by
  rcases h with h | h | h <;> exact h.1

/-- The flags of a page of a section, which lies in one section only. -/
lemma SectionFlags.unique (hplace : KernelPlacement s sym) (h : SectionFlags sym x f)
    (h' : SectionFlags sym x f') : f = f' := by
  cases h with
  | text h =>
    cases h' with
    | text => rfl
    | rodata h' => exact absurd h' (hplace.text_rodata x h)
    | data h' => exact absurd h' (hplace.text_data x h)
  | rodata h =>
    cases h' with
    | text h' => exact absurd h (hplace.text_rodata x h')
    | rodata => rfl
    | data h' => exact absurd h' (hplace.rodata_data x h)
  | data h =>
    cases h' with
    | text h' => exact absurd h (hplace.text_data x h')
    | rodata h' => exact absurd h (hplace.rodata_data x h')
    | data => rfl

/-- The flags of a page of a section are a word without address bits. -/
lemma SectionFlags.valid (h : SectionFlags sym x f) : f < modulus ∧ f &&& pteAddrMask = 0 := by
  cases h <;> exact ⟨by decide, by decide⟩

/-- Two intended mappings of one virtual page have the same address and the same flags; for pages of
the sections this needs that they are different virtual pages. -/
lemma KernelMapping.unique (hplace : KernelPlacement s sym) (h : KernelMapping s sym v p f)
    (h' : KernelMapping s sym v' p' f') (hkey : pageKey v = pageKey v')
    (hapart : KernelPage sym v → KernelPage sym v' → v = v') : p = p' ∧ f = f' := by
  cases h with
  | kernel hx =>
    cases h' with
    | kernel hy =>
      obtain rfl := hapart hx.kernelPage hy.kernelPage
      exact ⟨rfl, hx.unique hplace hy⟩
    | low hg => exact absurd hkey (hplace.low _ _ hx.kernelPage hg)
    | direct hg => exact absurd hkey (hplace.direct _ _ hx.kernelPage hg)
  | low hg =>
    cases h' with
    | kernel hx => exact absurd hkey.symm (hplace.low _ _ hx.kernelPage hg)
    | low hg' => exact ⟨hg.eq_of_key hg' hkey, rfl⟩
    | direct hg' => exact absurd hkey.symm (hplace.low_direct _ _ hg' hg)
  | direct hg =>
    cases h' with
    | kernel hx => exact absurd hkey.symm (hplace.direct _ _ hx.kernelPage hg)
    | low hg' => exact absurd hkey (hplace.low_direct _ _ hg hg')
    | direct hg' => exact ⟨hg.eq_of_direct_key hplace.hhdm.1 hg' hkey, rfl⟩

/-- An intended mapping is a valid call. -/
lemma KernelMapping.valid (hplace : KernelPlacement s sym) (h : KernelMapping s sym v p f) :
    (MapOp.map v p f).Valid := by
  have hlow : ∀ g, LowPage g → PhysPage g := fun g hg => ⟨hg.1, by have := hg.2; omega⟩
  cases h with
  | kernel hx =>
    exact ⟨⟨kernelImage_aligned hplace.phys.1 hplace.virt.1 hx.kernelPage.aligned,
      hplace.image_lt _ hx.kernelPage⟩, hx.valid⟩
  | low hg => exact ⟨hlow _ hg, by decide, by decide⟩
  | direct hg => exact ⟨hlow _ hg, by decide, by decide⟩

/-- The calls for a section. -/
lemma mem_sectionCalls {op : MapOp} {startLd endLd : ℕ} (hwrap : endLd + (pageSize - 1) < modulus) :
    op ∈ sectionCalls s startLd endLd f ↔
      ∃ x, SectionPage startLd endLd x ∧ op = .map x (kernelImage s x) f := by
  rw [sectionCalls, List.mem_map]
  refine exists_congr fun x => ?_
  rw [mem_sectionPages hwrap, eq_comm (a := op)]

/-- The calls for the first 4 GiB. -/
lemma mem_lowCalls {op : MapOp} :
    op ∈ lowCalls s ↔ ∃ g, LowPage g ∧
      (op = .map g g (1 ||| 2) ∨ op = .map (physicalToVirtual s g) g (1 ||| 2)) := by
  rw [lowCalls, List.mem_flatMap]
  refine exists_congr fun g => ?_
  rw [mem_lowPages, List.mem_pair]

/-- The calls of `vmm_map` in `vmm_init` are those for the intended mappings. -/
lemma mem_initCalls (hplace : KernelPlacement s sym) {op : MapOp} :
    op ∈ initCalls s sym ↔ ∃ v p f, KernelMapping s sym v p f ∧ op = .map v p f := by
  rw [initCalls, kernelCalls, List.mem_append, List.mem_append, List.mem_append,
    mem_sectionCalls hplace.text_end, mem_sectionCalls hplace.rodata_end,
    mem_sectionCalls hplace.data_end, mem_lowCalls]
  constructor
  · rintro (((⟨x, hx, rfl⟩ | ⟨x, hx, rfl⟩) | ⟨x, hx, rfl⟩) | ⟨g, hg, rfl | rfl⟩)
    · exact ⟨_, _, _, .kernel (.text hx), rfl⟩
    · exact ⟨_, _, _, .kernel (.rodata hx), rfl⟩
    · exact ⟨_, _, _, .kernel (.data hx), rfl⟩
    · exact ⟨_, _, _, .low hg, rfl⟩
    · exact ⟨_, _, _, .direct hg, rfl⟩
  · rintro ⟨v, p, f, hmapping, rfl⟩
    cases hmapping with
    | kernel hx =>
      cases hx with
      | text hx => exact .inl (.inl (.inl ⟨_, hx, rfl⟩))
      | rodata hx => exact .inl (.inl (.inr ⟨_, hx, rfl⟩))
      | data hx => exact .inl (.inr ⟨_, hx, rfl⟩)
    | low hg => exact .inr ⟨_, hg, .inl rfl⟩
    | direct hg => exact .inr ⟨_, hg, .inr rfl⟩

/-! ### The map after `vmm_init` -/

/-- The calls depend on the placement of the kernel only. -/
lemma initCalls_congr (hhhdm : s'.hhdmOff = s.hhdmOff)
    (hphys : s'.kernelPhysAddr = s.kernelPhysAddr) (hvirt : s'.kernelVirtAddr = s.kernelVirtAddr) :
    initCalls s' sym = initCalls s sym := by
  simp only [initCalls, kernelCalls, sectionCalls, lowCalls, kernelImage, physicalToVirtual, hhhdm,
    hphys, hvirt]

/-- Loading a page map changes two variables that no page table depends on. -/
lemma vmmLoadPagemap_eq (s : Vmm) (pm : ℕ) :
    ∃ current cr3, vmmLoadPagemap s pm = { s with vmmCurrentPagemap := current, cr3 := cr3 } := by
  unfold vmmLoadPagemap
  split_ifs
  · exact ⟨s.vmmCurrentPagemap, s.cr3, rfl⟩
  · exact ⟨_, _, rfl⟩

/-- Loading a page map keeps the page maps. -/
lemma PageMaps.load (h : PageMaps s pms lab) (current cr3 : ℕ) :
    PageMaps { s with vmmCurrentPagemap := current, cr3 := cr3 } pms lab :=
  ⟨⟨h.initialized, h.nodup, h.stack, h.aligned, h.labelled⟩, h.root, h.apart⟩

/-- `vmm_init` in terms of its calls, for a page supply that suffices. -/
lemma vmmInit_cases (h : PageSupply s) (hsupply : (vmmInit s sym).outOfPages = false) :
    ∃ c current cr3, KernelPagemapMade s c ∧
      (runAll c c.vmmKernelPagemap (initCalls s sym)).outOfPages = false ∧
      (runAll c c.vmmKernelPagemap (initCalls s sym)).vmmKernelPagemap = c.vmmKernelPagemap ∧
      vmmInit s sym = { runAll c c.vmmKernelPagemap (initCalls s sym) with
        vmmCurrentPagemap := current, cr3 := cr3 } := by
  rw [vmmInit_eq] at hsupply ⊢
  obtain ⟨current, cr3, hload⟩ := vmmLoadPagemap_eq
    (runAll (createKernelPagemap s) (createKernelPagemap s).vmmKernelPagemap
      (initCalls (createKernelPagemap s) sym)) (createKernelPagemap s).vmmKernelPagemap
  rw [hload] at hsupply ⊢
  have hmade := createKernelPagemap_spec h
    (@runAll_outOfPages _ (createKernelPagemap s).vmmKernelPagemap
      (initCalls (createKernelPagemap s) sym) hsupply)
  generalize createKernelPagemap s = c at *
  rw [initCalls_congr hmade.hhdmOff hmade.kernelPhysAddr hmade.kernelVirtAddr] at hsupply ⊢
  exact ⟨c, current, cr3, hmade, hsupply, (runAll_sameGlobals c _ _).kernel, rfl⟩

/-- After `vmm_init` the kernel page map is the only page map. -/
theorem pageMaps_vmmInit (h : PageSupply s) (hsupply : (vmmInit s sym).outOfPages = false) :
    ∃ lab, PageMaps (vmmInit s sym) [(vmmInit s sym).vmmKernelPagemap] lab := by
  obtain ⟨c, current, cr3, hmade, hsupply', hkernel, heq⟩ := vmmInit_cases h hsupply
  obtain ⟨lab, hmaps⟩ := hmade.pageMaps.runAll (List.mem_singleton_self _) hsupply'
  rw [heq]
  change ∃ lab, PageMaps _ [(runAll c c.vmmKernelPagemap (initCalls s sym)).vmmKernelPagemap] lab
  rw [hkernel]
  exact ⟨lab, hmaps.load current cr3⟩

/-- After `vmm_init` the kernel page map is translated as its calls of `vmm_map` say. -/
theorem vmmInit_predicts (h : PageSupply s) (hplace : KernelPlacement s sym)
    (hsupply : (vmmInit s sym).outOfPages = false) (w : ℕ) :
    Predicts (translation (initCalls s sym)) w
      (walk (vmmInit s sym) (vmmInit s sym).vmmKernelPagemap w) := by
  obtain ⟨c, current, cr3, hmade, hsupply', hkernel, heq⟩ := vmmInit_cases h hsupply
  have htrace := trace_runAll (fun op hop => by
    obtain ⟨v, p, f, hmapping, rfl⟩ := (mem_initCalls hplace).mp hop
    exact hmapping.valid hplace) hsupply'
  rw [heq]
  change Predicts _ w (walk (runAll c c.vmmKernelPagemap (initCalls s sym))
    (runAll c c.vmmKernelPagemap (initCalls s sym)).vmmKernelPagemap w)
  rw [hkernel]
  exact hmade.pageMaps.predicts_of_trace hmade.empty htrace w

/-- A page that no other mapping overwrites is mapped as intended. -/
lemma walk_vmmInit_of_mapping (h : PageSupply s) (hplace : KernelPlacement s sym)
    (hsupply : (vmmInit s sym).outOfPages = false) (hmapping : KernelMapping s sym v p f)
    (hapart : ∀ v', KernelPage sym v → KernelPage sym v' → pageKey v = pageKey v' → v = v') :
    walk (vmmInit s sym) (vmmInit s sym).vmmKernelPagemap v = some (p ||| f) := by
  have htranslation : translation (initCalls s sym) (pageKey v) = some (p ||| f) := by
    rw [← List.nil_append (initCalls s sym)]
    refine translation_append_eq_some [] ⟨_, (mem_initCalls hplace).mpr ⟨v, p, f, hmapping, rfl⟩, rfl⟩ ?_
    intro op hop hkey T
    obtain ⟨v', p', f', hmapping', rfl⟩ := (mem_initCalls hplace).mp hop
    obtain ⟨rfl, rfl⟩ := hmapping.unique hplace hmapping' hkey.symm fun hv hv' =>
      hapart v' hv hv' hkey.symm
    rw [MapOp.apply, ← hkey]
    exact Function.update_self _ _ _
  have hpredicts := vmmInit_predicts h hplace hsupply v
  rwa [Predicts, htranslation] at hpredicts

/-- What the walk of the kernel page map finds is an intended mapping or an empty entry. -/
lemma exists_mapping_of_walk (h : PageSupply s) (hplace : KernelPlacement s sym)
    (hsupply : (vmmInit s sym).outOfPages = false) {e : ℕ}
    (hw : walk (vmmInit s sym) (vmmInit s sym).vmmKernelPagemap w = some e) :
    e = 0 ∨ ∃ v p f, KernelMapping s sym v p f ∧ pageKey v = pageKey w ∧ e = p ||| f := by
  have hpredicts := vmmInit_predicts h hplace hsupply w
  unfold Predicts at hpredicts
  cases htranslation : translation (initCalls s sym) (pageKey w) with
  | none =>
    rw [htranslation, hw] at hpredicts
    rcases hpredicts with hnone | hzero
    · cases hnone
    · exact .inl (Option.some.inj hzero)
  | some e' =>
    rw [htranslation, hw] at hpredicts
    obtain ⟨op, hop, hkey, rfl⟩ := exists_call_of_translation htranslation
    obtain ⟨v, p, f, hmapping, rfl⟩ := (mem_initCalls hplace).mp hop
    exact .inr ⟨v, p, f, hmapping, hkey, Option.some.inj hpredicts⟩

/-! ### The pages that `vmm_init` takes -/

/-- `vmm_init` does not run out of pages when the page stack has three pages, and three more for
every path of the addresses it maps, and takes at most that many. -/
theorem vmmInit_supply (h : PageSupply s) (hplace : KernelPlacement s sym)
    (hout : s.outOfPages = false) (hzero : 0 ∉ s.pmmStack) (P : Finset (List (Fin 512)))
    (hpath : ∀ p ∈ P, p.length ≤ 3)
    (hP : ∀ v p f, KernelMapping s sym v p f → tablePath v ∈ P)
    (hlen : 3 + 3 * P.card ≤ s.pmmStack.length) :
    (vmmInit s sym).outOfPages = false ∧
      ∃ k ≤ 3 + 3 * P.card, (vmmInit s sym).pmmStack = s.pmmStack.drop k := by
  have hcreate := createKernelPagemap_supply h.initialized hout hzero (by omega)
  have hmade := createKernelPagemap_spec h hcreate
  rw [vmmInit_eq]
  obtain ⟨current, cr3, hload⟩ := vmmLoadPagemap_eq
    (runAll (createKernelPagemap s) (createKernelPagemap s).vmmKernelPagemap
      (initCalls (createKernelPagemap s) sym)) (createKernelPagemap s).vmmKernelPagemap
  rw [hload]
  generalize createKernelPagemap s = c at *
  obtain ⟨a, t, v, hstack⟩ := hmade.stack
  rw [initCalls_congr hmade.hhdmOff hmade.kernelPhysAddr hmade.kernelVirtAddr]
  have hcard : (missingPaths c c.vmmKernelPagemap P).card ≤ P.card := Finset.card_filter_le _ _
  rw [hstack] at hzero hlen
  simp only [List.length_cons] at hlen
  obtain ⟨hrun, k, hk, hstack'⟩ := @runAll_supply _ _ (initCalls s sym) _ _ hmade.pageMaps
    (List.mem_singleton_self _) hcreate
    (fun h0 => hzero (by simp [h0])) P hpath (fun op hop => by
      obtain ⟨v, p, f, hmapping, rfl⟩ := (mem_initCalls hplace).mp hop
      exact hP v p f hmapping) (by omega)
  refine ⟨hrun, k + 3, by omega, ?_⟩
  rw [hstack]
  exact hstack'

end Soaplin

import Soaplin.Memory.KernelMap

/-!
# The memory that `vmm_init` makes addressable

From a memory map through `pmm_init` to the page map that `vmm_init` leaves behind.  The mappings of
the sections, of the first 4 GiB and of its image in the direct map are all there are
(`kernel_map_exact`).  So a page of the page stack can be addressed exactly if it lies below 4 GiB,
and a page of the kernel that lies below 4 GiB is writable and executable through two aliases,
whatever its section asks for.
-/

namespace Soaplin

open ByteMemory Word64 RadixForest TransitionTrace

variable {s : Vmm} {s₀ : Pmm} {sym : SectionSymbols} {mmap : List MemmapEntry}
  {v v' p f x g w e : ℕ} {r : Rights}

/-! ### From `pmm_init` to `vmm_init` -/

/-- A memory map whose usable entries are page-aligned, pairwise disjoint and below `2 ^ 52`. -/
structure PhysicalMap (mmap : List MemmapEntry) : Prop where
  aligned : ∀ e ∈ mmap, e.type = memmapUsable → e.base % pmmBlockSize = 0
  below : ∀ e ∈ mmap, e.type = memmapUsable → e.base + e.length ≤ 2 ^ 52
  disjoint : mmap.Pairwise fun e f => e.type = memmapUsable → f.type = memmapUsable →
    e.base + e.length ≤ f.base ∨ f.base + f.length ≤ e.base

/-- On such a map `pmm_init` leaves a supply of distinct physical pages. -/
lemma PhysicalMap.pageSupply (hmap : PhysicalMap mmap) (hs : s.toPmm = pmmInit s₀ mmap) :
    PageSupply s := by
  have hwrap : ∀ e ∈ mmap, e.type = memmapUsable → e.base + e.length ≤ modulus := by
    intro e he hetype
    have := hmap.below e he hetype
    simp only [modulus]
    omega
  obtain ⟨hinit, -, hrev⟩ := pmmInit_stack hwrap s₀
  rw [← hs] at hinit hrev
  refine ⟨hinit, ?_, fun p hp => ?_⟩
  · rw [← List.nodup_reverse, hrev]
    exact (nodup_usablePages hmap.disjoint).sublist (List.take_sublist _ _)
  · have hmem : p ∈ usablePages mmap := List.mem_of_mem_take (hrev ▸ List.mem_reverse.mpr hp)
    obtain ⟨e, he, hpe⟩ := List.mem_flatMap.mp hmem
    obtain ⟨he, hetype⟩ := List.mem_filter.mp he
    obtain ⟨k, rfl, hk⟩ := mem_rangePages.mp hpe
    have halign := hmap.aligned e he (by simpa using hetype)
    have hbelow := hmap.below e he (by simpa using hetype)
    simp only [PhysPage, pageSize, pmmBlockSize] at *
    omega

/-- The addresses of one 2 MiB region have one path. -/
lemma tablePath_region (v : ℕ) : tablePath (2 ^ 21 * (v / 2 ^ 21)) = tablePath v := by
  have hfield : ∀ u n : ℕ, (u >>> n) &&& 0x1ff = u / 2 ^ n % 512 := fun u n =>
    shiftRight_and_mask u n 9
  simp only [tablePath, rootIndex, pml3Index, pml2Index, List.cons.injEq, Fin.mk.injEq, pml2Entry,
    pml3Entry, pml4Entry, hfield, Nat.reducePow, and_true]
  refine ⟨?_, ?_, ?_⟩ <;> omega

/-- The paths of the first 4 GiB and of its image in the direct map. -/
def lowPaths (hhdm : ℕ) : Finset (List (Fin 512)) :=
  (Finset.range 2048).image (fun b => tablePath (2 ^ 21 * b)) ∪
    (Finset.range 2048).image fun b => tablePath (2 ^ 21 * (b + hhdm / 2 ^ 21))

/-- There are at most 4096 of them. -/
lemma card_lowPaths_le (hhdm : ℕ) : (lowPaths hhdm).card ≤ 4096 := by
  refine (Finset.card_union_le _ _).trans ?_
  have h := fun φ : ℕ → List (Fin 512) => @Finset.card_image_le _ _ (Finset.range 2048) φ _
  simp only [Finset.card_range] at h
  have h₁ := h fun b => tablePath (2 ^ 21 * b)
  have h₂ := h fun b => tablePath (2 ^ 21 * (b + hhdm / 2 ^ 21))
  omega

/-- A page of the first 4 GiB has one of these paths. -/
lemma tablePath_mem_lowPaths (hg : LowPage g) (hhdm : ℕ) : tablePath g ∈ lowPaths hhdm := by
  refine Finset.mem_union_left _ (Finset.mem_image.mpr ⟨g / 2 ^ 21, ?_, tablePath_region g⟩)
  have := hg.2
  rw [Finset.mem_range]
  omega

/-- So has its image in a direct map that starts at a 2 MiB boundary. -/
lemma tablePath_direct_mem_lowPaths (hg : LowPage g) (hhhdm : s.hhdmOff % 2 ^ 21 = 0)
    (hlt : s.hhdmOff + 2 ^ 32 ≤ modulus) :
    tablePath (physicalToVirtual s g) ∈ lowPaths s.hhdmOff := by
  have hg' := hg.2
  refine Finset.mem_union_right _ (Finset.mem_image.mpr ⟨g / 2 ^ 21, ?_, ?_⟩)
  · rw [Finset.mem_range]
    omega
  · rw [← tablePath_region (physicalToVirtual s g), physicalToVirtual, wadd_of_lt (by omega)]
    congr 1
    omega

/-! ### An example -/

/-- A memory map with 64 MiB of usable memory and one usable page at 4 GiB. -/
def exampleMap : List MemmapEntry :=
  [⟨0x1000000, 0x4000000, memmapUsable⟩, ⟨0x100000000, 0x1000, memmapUsable⟩]

/-- The state after `pmm_init` on that memory map, with the kernel at the given addresses. -/
def exampleBoot (phys virt : ℕ) : Vmm where
  toPmm := pmmInit (.boot fun _ => 0) exampleMap
  hhdmOff := 0xffff800000000000
  kernelPhysAddr := phys
  kernelVirtAddr := virt
  vmmKernelPagemap := 0
  vmmCurrentPagemap := 0
  cr3 := 0
  outOfPages := false

/-- Sections of one page each, in the order `.text`, `.rodata`, `.data`. -/
def exampleSections : SectionSymbols where
  textStartLd := 0xffffffff80000000
  textEndLd := 0xffffffff80001000
  rodataStartLd := 0xffffffff80001000
  rodataEndLd := 0xffffffff80002000
  dataStartLd := 0xffffffff80002000
  dataEndLd := 0xffffffff80003000

/-- That memory map is good. -/
lemma physicalMap_exampleMap : PhysicalMap exampleMap := by
  refine ⟨?_, ?_, ?_⟩ <;> simp [exampleMap, memmapUsable, pmmBlockSize]

/-- The pages of that memory map fit into the page stack. -/
lemma exampleBoot_stack (phys virt : ℕ) :
    (exampleBoot phys virt).pmmStack.reverse = usablePages exampleMap := by
  have hwrap : ∀ e ∈ exampleMap, e.type = memmapUsable → e.base + e.length ≤ modulus := by
    simp [exampleMap, modulus]
  refine (pmmInit_stack hwrap (.boot fun _ => 0)).2.2.trans (List.take_of_length_le ?_)
  simp [usablePages, exampleMap, rangePages, stackSize, pmmBlockSize]

/-- There are 16385 of them. -/
lemma length_exampleBoot_stack (phys virt : ℕ) :
    (exampleBoot phys virt).pmmStack.length = 16385 := by
  rw [← List.length_reverse, exampleBoot_stack]
  simp [usablePages, exampleMap, rangePages, pmmBlockSize]

/-- A page of that page stack. -/
lemma mem_exampleBoot_stack {phys virt : ℕ} :
    p ∈ (exampleBoot phys virt).pmmStack ↔
      (p % pageSize = 0 ∧ 0x1000000 ≤ p ∧ p < 0x5000000) ∨ p = 0x100000000 := by
  rw [← List.mem_reverse, exampleBoot_stack]
  simp only [usablePages, exampleMap, decide_true, List.filter_cons_of_pos, List.filter_nil,
    List.flatMap_cons, List.flatMap_nil, List.append_nil, List.mem_append, mem_rangePages,
    pmmBlockSize, pageSize]
  constructor
  · rintro (⟨k, rfl, hk⟩ | ⟨k, rfl, hk⟩)
    · omega
    · omega
  · rintro (⟨hmod, hle, hlt⟩ | rfl)
    · exact .inl ⟨(p - 0x1000000) / 4096, by omega, by omega⟩
    · exact .inr ⟨0, by omega, by omega⟩

/-- When all sections lie in one 2 MiB region, the pages of that page stack suffice for
`vmm_init`. -/
lemma vmmInit_exampleBoot {phys virt : ℕ} (hplace : KernelPlacement (exampleBoot phys virt) sym)
    (region : ℕ) (hregion : ∀ x, KernelPage sym x → tablePath x = tablePath region) :
    (vmmInit (exampleBoot phys virt) sym).outOfPages = false ∧
      ∃ k ≤ 12294, (vmmInit (exampleBoot phys virt) sym).pmmStack =
        (exampleBoot phys virt).pmmStack.drop k := by
  have hsupply : PageSupply (exampleBoot phys virt) := physicalMap_exampleMap.pageSupply rfl
  have hhhdm : (exampleBoot phys virt).hhdmOff = 0xffff800000000000 := rfl
  have hzero : 0 ∉ (exampleBoot phys virt).pmmStack := fun h0 => by
    have := mem_exampleBoot_stack.mp h0
    omega
  have hlength : ∀ p ∈ insert (tablePath region) (lowPaths 0xffff800000000000), p.length ≤ 3 := by
    intro p hp
    rw [Finset.mem_insert, lowPaths, Finset.mem_union, Finset.mem_image, Finset.mem_image] at hp
    rcases hp with rfl | ⟨b, -, rfl⟩ | ⟨b, -, rfl⟩ <;> simp
  have hpaths : ∀ v p f, KernelMapping (exampleBoot phys virt) sym v p f →
      tablePath v ∈ insert (tablePath region) (lowPaths 0xffff800000000000) := by
    intro v p f hmapping
    cases hmapping with
    | kernel hx =>
      rw [hregion _ hx.kernelPage]
      exact Finset.mem_insert_self _ _
    | low hg => exact Finset.mem_insert_of_mem (tablePath_mem_lowPaths hg _)
    | direct hg =>
      refine Finset.mem_insert_of_mem ?_
      rw [← hhhdm]
      exact tablePath_direct_mem_lowPaths hg (by rw [hhhdm]; decide) (by rw [hhhdm]; decide)
  have hinsert := Finset.card_insert_le (tablePath region) (lowPaths 0xffff800000000000)
  have hcard := card_lowPaths_le 0xffff800000000000
  obtain ⟨hout, k, hk, hstack⟩ := vmmInit_supply hsupply hplace rfl hzero _ hlength hpaths
    (by rw [length_exampleBoot_stack]; omega)
  exact ⟨hout, k, by omega, hstack⟩

/-- The placement of the example. -/
lemma kernelPlacement_example :
    KernelPlacement (exampleBoot 0x200000 0xffffffff80000000) exampleSections := by
  refine ⟨by decide, by decide, by decide, by decide, by decide, by decide, ?_, ?_, ?_, ?_, ?_, ?_,
    ?_⟩ <;>
  simp only [KernelPage, TextPage, RodataPage, DataPage, SectionPage, LowPage, exampleSections,
    kernelImage, exampleBoot, pageKey, physicalToVirtual, wadd, wsub, pageSize, modulus] <;>
  omega

/-- All its sections lie in one 2 MiB region. -/
lemma exampleSections_region (x : ℕ) (hx : KernelPage exampleSections x) :
    tablePath x = tablePath 0xffffffff80000000 := by
  have hregion : x / 2 ^ 21 = 0xffffffff80000000 / 2 ^ 21 := by
    simp only [KernelPage, TextPage, RodataPage, DataPage, SectionPage, exampleSections,
      pageSize] at hx
    omega
  rw [← tablePath_region x, hregion, tablePath_region]

/-- The pages suffice for the example. -/
lemma vmmInit_example :
    (vmmInit (exampleBoot 0x200000 0xffffffff80000000) exampleSections).outOfPages = false :=
  (vmmInit_exampleBoot kernelPlacement_example 0xffffffff80000000 exampleSections_region).1

/-! ### The whole map -/

/-- For every placement of the kernel no two pages of which agree in bits 47 to 12, and every page
supply that suffices, `vmm_init` builds exactly the intended kernel map: the walk ends as intended
at every page of the sections, of the first 4 GiB and of its image in the direct map, and nowhere
else does it reach a present entry. -/
theorem kernel_map_exact (h : PageSupply s) (hplace : KernelPlacement s sym)
    (hapart : KernelPagesApart sym) (hsupply : (vmmInit s sym).outOfPages = false) :
    (∀ v p f, KernelMapping s sym v p f →
      walk (vmmInit s sym) (vmmInit s sym).vmmKernelPagemap v = some (p ||| f)) ∧
    ∀ w, (∀ v p f, KernelMapping s sym v p f → pageKey v ≠ pageKey w) →
      walk (vmmInit s sym) (vmmInit s sym).vmmKernelPagemap w = none ∨
        walk (vmmInit s sym) (vmmInit s sym).vmmKernelPagemap w = some 0 := by
  refine ⟨fun v p f hmapping => ?_, fun w hw => ?_⟩
  · exact walk_vmmInit_of_mapping h hplace hsupply hmapping fun v' hv hv' => hapart v v' hv hv'
  · cases hwalk : walk (vmmInit s sym) (vmmInit s sym).vmmKernelPagemap w with
    | none => exact .inl rfl
    | some e =>
      rcases exists_mapping_of_walk h hplace hsupply hwalk with rfl | ⟨v, p, f, hmapping, hkey, -⟩
      · exact .inr rfl
      · exact absurd hkey (hw v p f hmapping)

/-- The page of `.text` of the example. -/
theorem kernel_map_exact_example :
    walk (vmmInit (exampleBoot 0x200000 0xffffffff80000000) exampleSections)
      (vmmInit (exampleBoot 0x200000 0xffffffff80000000) exampleSections).vmmKernelPagemap
      0xffffffff80000000 = some 0x200001 := by
  have hapart : KernelPagesApart exampleSections := by
    intro x y hx hy hkey
    simp only [KernelPage, TextPage, RodataPage, DataPage, SectionPage, exampleSections, pageKey,
      pageSize] at hx hy hkey
    omega
  exact (kernel_map_exact (physicalMap_exampleMap.pageSupply rfl) kernelPlacement_example hapart
    vmmInit_example).1 0xffffffff80000000 0x200000 1
    (.kernel (x := 0xffffffff80000000) (.text ⟨by decide, by decide, by decide⟩))

/-- Two sections of one page each, whose addresses differ in bit `48` only. -/
def aliasedSections : SectionSymbols where
  textStartLd := 0x400000000000
  textEndLd := 0x400000001000
  rodataStartLd := 0x1400000000000
  rodataEndLd := 0x1400000001000
  dataStartLd := 0
  dataEndLd := 0

/-- Their placement. -/
lemma kernelPlacement_aliased :
    KernelPlacement (exampleBoot 0x200000 0x400000000000) aliasedSections := by
  refine ⟨by decide, by decide, by decide, by decide, by decide, by decide, ?_, ?_, ?_, ?_, ?_, ?_,
    ?_⟩ <;>
  simp only [KernelPage, TextPage, RodataPage, DataPage, SectionPage, LowPage, aliasedSections,
    kernelImage, exampleBoot, pageKey, physicalToVirtual, wadd, wsub, pageSize, modulus] <;>
  omega

/-- Both have the same path, so that the pages suffice. -/
lemma vmmInit_aliased :
    (vmmInit (exampleBoot 0x200000 0x400000000000) aliasedSections).outOfPages = false := by
  refine (vmmInit_exampleBoot kernelPlacement_aliased 0x400000000000 fun x hx => ?_).1
  have hx' : x = 0x400000000000 ∨ x = 0x1400000000000 := by
    simp only [KernelPage, TextPage, RodataPage, DataPage, SectionPage, aliasedSections,
      pageSize] at hx
    omega
  rcases hx' with rfl | rfl <;> decide

/-- The loop over `.rodata` overwrites the entry of such a page of `.text`. -/
theorem kernel_map_overwritten :
    PageSupply (exampleBoot 0x200000 0x400000000000) ∧
      KernelPlacement (exampleBoot 0x200000 0x400000000000) aliasedSections ∧
      (vmmInit (exampleBoot 0x200000 0x400000000000) aliasedSections).outOfPages = false ∧
      TextPage aliasedSections 0x400000000000 ∧
      kernelImage (exampleBoot 0x200000 0x400000000000) 0x400000000000 ||| 1 = 0x200001 ∧
      walk (vmmInit (exampleBoot 0x200000 0x400000000000) aliasedSections)
        (vmmInit (exampleBoot 0x200000 0x400000000000) aliasedSections).vmmKernelPagemap
        0x400000000000 = some 0x8001000000200001 := by
  have hsupply : PageSupply (exampleBoot 0x200000 0x400000000000) :=
    physicalMap_exampleMap.pageSupply rfl
  have hplace := kernelPlacement_aliased
  refine ⟨hsupply, hplace, vmmInit_aliased, ⟨by decide, by decide, by decide⟩, by decide, ?_⟩
  have himage : kernelImage (exampleBoot 0x200000 0x400000000000) 0x1400000000000 =
      0x1000000200000 := by decide
  have htranslation : translation (initCalls (exampleBoot 0x200000 0x400000000000) aliasedSections)
      (pageKey 0x400000000000) = some 0x8001000000200001 := by
    rw [initCalls, kernelCalls, List.append_assoc, List.append_assoc]
    refine translation_append_eq_some _ ⟨.map 0x1400000000000 0x1000000200000 (1 ||| 1 <<< 63), ?_,
      by decide⟩ fun op hop hkey T => ?_
    · refine List.mem_append_left _ ((mem_sectionCalls hplace.rodata_end).mpr ?_)
      exact ⟨0x1400000000000, ⟨by decide, by decide, by decide⟩, by rw [himage]⟩
    · -- of the later calls only the one for the page of `.rodata` has that page
      rw [List.mem_append, List.mem_append, mem_sectionCalls hplace.rodata_end,
        mem_sectionCalls hplace.data_end, mem_lowCalls] at hop
      have htext : KernelPage aliasedSections 0x400000000000 :=
        .inl ⟨by decide, by decide, by decide⟩
      rcases hop with ⟨x, hx, rfl⟩ | ⟨x, hx, rfl⟩ | ⟨g, hg, rfl | rfl⟩
      · obtain rfl : x = 0x1400000000000 := by
          simp only [SectionPage, aliasedSections, pageSize] at hx
          omega
        rw [MapOp.apply, himage, ← hkey, MapOp.vaddr, Function.update_self]
        rfl
      · simp only [SectionPage, aliasedSections] at hx
        omega
      · rw [MapOp.vaddr] at hkey
        exact absurd hkey.symm (hplace.low _ _ htext hg)
      · rw [MapOp.vaddr] at hkey
        exact absurd hkey.symm (hplace.direct _ _ htext hg)
  have hpredicts := vmmInit_predicts hsupply hplace vmmInit_aliased 0x400000000000
  rwa [Predicts, htranslation] at hpredicts

/-! ### The pages that can be addressed -/

/-- The address `w` leads to the physical page `p` with the rights `r`. -/
def MapsPage (s : Vmm) (pm w p : ℕ) (r : Rights) : Prop :=
  ∃ e, walk s pm w = some e ∧ pteGetAddr e = p ∧ effectiveRights s pm w = some r

/-- The address of an entry that `vmm_map` writes. -/
lemma pteGetAddr_entry (hp : PhysPage p) (hf : f &&& pteAddrMask = 0) : pteGetAddr (p ||| f) = p := by
  have hand : (p ||| f) &&& pteAddrMask = (p &&& pteAddrMask) ||| (f &&& pteAddrMask) :=
    Nat.and_or_distrib_right ..
  rw [pteGetAddr, hand, hf, Nat.or_zero]
  change pteGetAddr p = p
  obtain ⟨hmod, hlt⟩ := hp
  simp only [pteGetAddr_eq, pageSize] at *
  omega

/-- A page that no other mapping overwrites is mapped to its physical page with the rights of its
flags. -/
lemma mapsPage_of_mapping (h : PageSupply s) (hplace : KernelPlacement s sym)
    (hsupply : (vmmInit s sym).outOfPages = false) (hmapping : KernelMapping s sym v p f)
    (hapart : ∀ v', KernelPage sym v → KernelPage sym v' → pageKey v = pageKey v' → v = v') :
    MapsPage (vmmInit s sym) (vmmInit s sym).vmmKernelPagemap v p
      ⟨f.testBit 1, false, f.testBit 63⟩ := by
  obtain ⟨lab, hmaps⟩ := pageMaps_vmmInit h hsupply
  obtain ⟨hp, -, hmask⟩ := hmapping.valid hplace
  have hwalk := walk_vmmInit_of_mapping h hplace hsupply hmapping hapart
  have hpresent : f.testBit 0 = true := by
    cases hmapping with
    | kernel hx => cases hx <;> decide
    | low hg => decide
    | direct hg => decide
  have hrights := hmaps.effectiveRights_of_walk (List.mem_singleton_self _) hwalk
    (by rw [testBit_entry hp (by omega), hpresent])
  rw [testBit_entry hp (by omega), testBit_entry hp (by omega)] at hrights
  exact ⟨p ||| f, hwalk, pteGetAddr_entry hp hmask, hrights⟩

/-- A physical page is mapped only by an intended mapping, with the rights of its flags. -/
lemma exists_mapping_of_mapsPage (h : PageSupply s) (hplace : KernelPlacement s sym)
    (hsupply : (vmmInit s sym).outOfPages = false)
    (hmaps : MapsPage (vmmInit s sym) (vmmInit s sym).vmmKernelPagemap w p r) :
    ∃ v f, KernelMapping s sym v p f ∧ pageKey v = pageKey w ∧
      r = ⟨f.testBit 1, false, f.testBit 63⟩ := by
  obtain ⟨lab, hpagemaps⟩ := pageMaps_vmmInit h hsupply
  obtain ⟨e, hwalk, haddr, hrights⟩ := hmaps
  obtain ⟨e', hwalk', hbit⟩ := exists_walk_of_effectiveRights hrights
  rw [hwalk] at hwalk'
  obtain rfl := Option.some.inj hwalk'
  have hrights' := hpagemaps.effectiveRights_of_walk (List.mem_singleton_self _) hwalk hbit
  rcases exists_mapping_of_walk h hplace hsupply hwalk with rfl | ⟨v, p', f, hmapping, hkey, rfl⟩
  · simp at hbit
  · obtain ⟨hp, -, hmask⟩ := hmapping.valid hplace
    rw [pteGetAddr_entry hp hmask] at haddr
    subst haddr
    refine ⟨v, f, hmapping, hkey, ?_⟩
    rw [hrights, testBit_entry hp (by omega), testBit_entry hp (by omega)] at hrights'
    exact Option.some.inj hrights'

/-- Both addresses of a page below 4 GiB lead to it, for reading, writing and execution. -/
lemma mapsPage_low (h : PageSupply s) (hplace : KernelPlacement s sym)
    (hsupply : (vmmInit s sym).outOfPages = false) (hg : LowPage g) :
    MapsPage (vmmInit s sym) (vmmInit s sym).vmmKernelPagemap g g ⟨true, false, false⟩ ∧
      MapsPage (vmmInit s sym) (vmmInit s sym).vmmKernelPagemap (physicalToVirtual s g) g
        ⟨true, false, false⟩ := by
  constructor
  · exact mapsPage_of_mapping h hplace hsupply (.low hg) fun v' hv _ _ =>
      absurd rfl (hplace.low g g hv hg)
  · exact mapsPage_of_mapping h hplace hsupply (.direct hg) fun v' hv _ _ =>
      absurd rfl (hplace.direct _ g hv hg)

/-- Pages of the kernel at different addresses have different physical pages. -/
lemma KernelPage.eq_of_image (hplace : KernelPlacement s sym) {y : ℕ} (hx : KernelPage sym x)
    (hy : KernelPage sym y) (himage : kernelImage s x = kernelImage s y) : x = y := by
  have hlt : ∀ z, KernelPage sym z → z < modulus := by
    intro z hz
    have h₁ := hplace.text_end
    have h₂ := hplace.rodata_end
    have h₃ := hplace.data_end
    rcases hz with hz | hz | hz <;> simp only [TextPage, RodataPage, DataPage, SectionPage] at hz <;>
      omega
  have hx' := hlt x hx
  have hy' := hlt y hy
  have hphys := hplace.phys.2
  have hvirt := hplace.virt.2
  simp only [kernelImage, wadd, wsub, modulus] at *
  omega

/-- The page `p` can be written to at its own address and at its address in the direct map. -/
def Addressable (s : Vmm) (p : ℕ) : Prop :=
  (∃ r, MapsPage s s.vmmKernelPagemap p p r ∧ r.writable = true) ∧
    ∃ r, MapsPage s s.vmmKernelPagemap (physicalToVirtual s p) p r ∧ r.writable = true

/-- `vmm_init` does not move the direct map. -/
lemma vmmInit_hhdmOff (h : PageSupply s) (hsupply : (vmmInit s sym).outOfPages = false) :
    (vmmInit s sym).hhdmOff = s.hhdmOff := by
  obtain ⟨c, current, cr3, hmade, -, -, heq⟩ := vmmInit_cases h hsupply
  rw [heq]
  exact (runAll_sameGlobals c _ _).hhdmOff.trans hmade.hhdmOff

/-- A page at or above 4 GiB is mapped by the sections only, at one address. -/
lemma exists_kernelPage_of_mapsPage (h : PageSupply s) (hplace : KernelPlacement s sym)
    (hsupply : (vmmInit s sym).outOfPages = false) (hp : 2 ^ 32 ≤ p)
    (hmaps : MapsPage (vmmInit s sym) (vmmInit s sym).vmmKernelPagemap w p r) :
    ∃ x, KernelPage sym x ∧ kernelImage s x = p ∧ pageKey x = pageKey w := by
  obtain ⟨v, f, hmapping, hkey, -⟩ := exists_mapping_of_mapsPage h hplace hsupply hmaps
  cases hmapping with
  | kernel hx => exact ⟨v, hx.kernelPage, rfl, hkey⟩
  | low hg =>
    have := hg.2
    omega
  | direct hg =>
    have := hg.2
    omega

/-- After `vmm_init` exactly the pages below 4 GiB can be written to at both addresses. -/
theorem vmmInit_addressable_iff (h : PageSupply s) (hplace : KernelPlacement s sym)
    (hsupply : (vmmInit s sym).outOfPages = false) (hp : PhysPage p) :
    Addressable (vmmInit s sym) p ↔ p < 2 ^ 32 := by
  have hhhdm := vmmInit_hhdmOff h hsupply
  constructor
  · rintro ⟨⟨r, hr, -⟩, r', hr', -⟩
    by_contra hge
    obtain ⟨x, hx, himage, hkey⟩ :=
      exists_kernelPage_of_mapsPage h hplace hsupply (by omega) hr
    obtain ⟨y, hy, himage', hkey'⟩ :=
      exists_kernelPage_of_mapsPage h hplace hsupply (by omega) hr'
    -- both addresses would lie in one virtual page, and so would those of page `0`
    obtain rfl := hx.eq_of_image hplace hy (himage.trans himage'.symm)
    refine hplace.low_direct 0 0 ⟨rfl, by decide⟩ ⟨rfl, by decide⟩ ?_
    have halign := hplace.hhdm
    rw [hkey] at hkey'
    simp only [physicalToVirtual, hhhdm, pageKey, wadd, modulus, pageSize] at *
    omega
  · intro hlt
    obtain ⟨hlow, hdirect⟩ := mapsPage_low h hplace hsupply (g := p) ⟨hp.1, hlt⟩
    refine ⟨⟨⟨true, false, false⟩, hlow, rfl⟩, ⟨true, false, false⟩, ?_, rfl⟩
    rw [physicalToVirtual, hhhdm]
    exact hdirect

/-- For every memory map and every placement of the kernel for which the pages suffice, exactly
those pages that `pmm_init` has put on the page stack can be addressed after `vmm_init` which lie
below 4 GiB. -/
theorem kept_page_addressable_iff (hmap : PhysicalMap mmap) (hs : s.toPmm = pmmInit s₀ mmap)
    (hplace : KernelPlacement s sym) (hsupply : (vmmInit s sym).outOfPages = false) :
    ∀ p ∈ s.pmmStack, Addressable (vmmInit s sym) p ↔ p < 2 ^ 32 := by
  have h : PageSupply s := hmap.pageSupply hs
  intro p hp
  exact vmmInit_addressable_iff h hplace hsupply (h.stack p hp)

/-- The first page of the example. -/
theorem kept_page_addressable_example :
    Addressable (vmmInit (exampleBoot 0x200000 0xffffffff80000000) exampleSections) 0x1000000 :=
  (kept_page_addressable_iff physicalMap_exampleMap rfl kernelPlacement_example vmmInit_example
    0x1000000 (mem_exampleBoot_stack.mpr (.inl ⟨by decide, by decide, by decide⟩))).mpr (by decide)

/-- The page at 4 GiB is the first one that the kernel allocates, but it is not mapped. -/
theorem kept_page_not_addressable :
    PhysicalMap exampleMap ∧
      KernelPlacement (exampleBoot 0x200000 0xffffffff80000000) exampleSections ∧
      (vmmInit (exampleBoot 0x200000 0xffffffff80000000) exampleSections).outOfPages = false ∧
      0x100000000 ∈ (exampleBoot 0x200000 0xffffffff80000000).pmmStack ∧
      ¬ Addressable (vmmInit (exampleBoot 0x200000 0xffffffff80000000) exampleSections)
        0x100000000 := by
  refine ⟨physicalMap_exampleMap, kernelPlacement_example, vmmInit_example,
    mem_exampleBoot_stack.mpr (.inr rfl), fun haddr => ?_⟩
  have hsupply : PageSupply (exampleBoot 0x200000 0xffffffff80000000) :=
    physicalMap_exampleMap.pageSupply rfl
  have hlt := (vmmInit_addressable_iff hsupply kernelPlacement_example vmmInit_example
    ⟨by decide, by decide⟩).mp haddr
  omega

/-! ### The protection of the sections -/

/-- The address `w` lies in the first 4 GiB or in their image in the direct map, as far as the
processor's translation can tell. -/
def InWindow (s : Vmm) (w : ℕ) : Prop :=
  ∃ g, LowPage g ∧ (pageKey w = pageKey g ∨ pageKey w = pageKey (physicalToVirtual s g))

/-- Outside the two windows no address leads to a page of `.text` or `.rodata` for writing, and none
to a page of `.rodata` or `.data` for execution.  In the windows every page of the kernel that lies
below 4 GiB has two addresses that lead to it for writing and for execution. -/
theorem section_protection (h : PageSupply s) (hplace : KernelPlacement s sym)
    (hsupply : (vmmInit s sym).outOfPages = false) :
    (∀ w x r, ¬ InWindow s w →
      MapsPage (vmmInit s sym) (vmmInit s sym).vmmKernelPagemap w (kernelImage s x) r →
      (TextPage sym x ∨ RodataPage sym x → r.writable = false) ∧
        (RodataPage sym x ∨ DataPage sym x → r.noExecute = true)) ∧
    ∀ x, KernelPage sym x → kernelImage s x < 2 ^ 32 →
      MapsPage (vmmInit s sym) (vmmInit s sym).vmmKernelPagemap (kernelImage s x)
          (kernelImage s x) ⟨true, false, false⟩ ∧
        MapsPage (vmmInit s sym) (vmmInit s sym).vmmKernelPagemap
          (physicalToVirtual s (kernelImage s x)) (kernelImage s x) ⟨true, false, false⟩ := by
  refine ⟨fun w x r hw hmaps => ?_, fun x hx hlt => ?_⟩
  · obtain ⟨v, f, hmapping, hkey, rfl⟩ := exists_mapping_of_mapsPage h hplace hsupply hmaps
    have hsection : KernelPage sym x → SectionFlags sym x f := by
      intro hx
      generalize himage : kernelImage s x = p at hmapping
      cases hmapping with
      | kernel hv =>
        obtain rfl := hx.eq_of_image hplace hv.kernelPage himage
        exact hv
      | low hg => exact absurd ⟨_, hg, .inl hkey.symm⟩ hw
      | direct hg => exact absurd ⟨_, hg, .inr hkey.symm⟩ hw
    refine ⟨?_, ?_⟩
    · rintro (hx | hx)
      · obtain rfl := (hsection (.inl hx)).unique hplace (.text hx)
        decide
      · obtain rfl := (hsection (.inr (.inl hx))).unique hplace (.rodata hx)
        decide
    · rintro (hx | hx)
      · obtain rfl := (hsection (.inr (.inl hx))).unique hplace (.rodata hx)
        decide
      · obtain rfl := (hsection (.inr (.inr hx))).unique hplace (.data hx)
        decide
  · exact mapsPage_low h hplace hsupply
      ⟨kernelImage_aligned hplace.phys.1 hplace.virt.1 hx.aligned, hlt⟩

/-- The page of `.text` of the example, at its address in the direct map. -/
theorem section_protection_example :
    MapsPage (vmmInit (exampleBoot 0x200000 0xffffffff80000000) exampleSections)
      (vmmInit (exampleBoot 0x200000 0xffffffff80000000) exampleSections).vmmKernelPagemap
      0xffff800000200000 0x200000 ⟨true, false, false⟩ :=
  ((section_protection (physicalMap_exampleMap.pageSupply rfl) kernelPlacement_example
    vmmInit_example).2 0xffffffff80000000 (.inl ⟨by decide, by decide, by decide⟩) (by decide)).2

/-- A page of `.rodata` can be written to and executed at its physical address. -/
theorem section_not_protected :
    KernelPlacement (exampleBoot 0x200000 0xffffffff80000000) exampleSections ∧
      (vmmInit (exampleBoot 0x200000 0xffffffff80000000) exampleSections).outOfPages = false ∧
      RodataPage exampleSections 0xffffffff80001000 ∧
      kernelImage (exampleBoot 0x200000 0xffffffff80000000) 0xffffffff80001000 = 0x201000 ∧
      MapsPage (vmmInit (exampleBoot 0x200000 0xffffffff80000000) exampleSections)
        (vmmInit (exampleBoot 0x200000 0xffffffff80000000) exampleSections).vmmKernelPagemap
        0x201000 0x201000 ⟨true, false, false⟩ := by
  have hsupply : PageSupply (exampleBoot 0x200000 0xffffffff80000000) :=
    physicalMap_exampleMap.pageSupply rfl
  exact ⟨kernelPlacement_example, vmmInit_example, ⟨by decide, by decide, by decide⟩, by decide,
    (mapsPage_low hsupply kernelPlacement_example vmmInit_example ⟨by decide, by decide⟩).1⟩

end Soaplin

import Soaplin.Memory.BootMap

/-!
# Address spaces

Runs of `vmm_new_pagemap`, `vmm_map` and `vmm_unmap` on the page maps of a system, from the state
that `vmm_init` leaves behind.  The page maps share the tables that the kernel page map had in its
upper half when they were made, and nothing else: a table below the lower half of a page map belongs
to it alone.  From this come the isolation of the lower halves and the agreement of the upper
halves.
-/

namespace Soaplin

open ByteMemory Word64 RadixForest TransitionTrace

variable {s s' : Vmm} {pms pms' : List ℕ} {lab : Labels ℕ ℕ (Fin 512)} {pm A B a t w : ℕ}

/-! ### A new page map -/

/-- The labels after a top-level table has been added. -/
def addLabels (lab : Labels ℕ ℕ (Fin 512)) (t pm : ℕ) : Labels ℕ ℕ (Fin 512) :=
  Function.update lab t (some (pm, []))

/-- A table in use before is in use as before. -/
lemma addLabels_of_some (ht : lab t = none) {b : ℕ} {x : ℕ × List (Fin 512)} (hb : lab b = some x)
    (pm : ℕ) : addLabels lab t pm b = some x := by
  have hbt : b ≠ t := by
    rintro rfl
    rw [ht] at hb
    cases hb
  rw [addLabels, Function.update_of_ne hbt, hb]

/-- A table in use is the new one or was in use before. -/
lemma addLabels_ne_none {b : ℕ} (hb : addLabels lab t pm b ≠ none) : b = t ∨ lab b ≠ none := by
  by_cases hbt : b = t
  · exact .inl hbt
  · rw [addLabels, Function.update_of_ne hbt] at hb
    exact .inr hb

/-- The state after `vmm_new_pagemap` has made the page map with the structure in the page `a` and
the top-level table `t`. -/
structure NewPagemap (s s' : Vmm) (a t : ℕ) : Prop where
  initialized : s'.pmmInitialized = s.pmmInitialized
  hhdmOff : s'.hhdmOff = s.hhdmOff
  kernel : s'.vmmKernelPagemap = s.vmmKernelPagemap
  nodup : s'.pmmStack.Nodup
  stack : ∀ p ∈ s'.pmmStack, p ∈ s.pmmStack
  struct_mem : a ∈ s.pmmStack ∧ a ∉ s'.pmmStack
  top_mem : t ∈ s.pmmStack ∧ t ∉ s'.pmmStack
  ne : a ≠ t
  root : rootTable s' (wadd a s.hhdmOff) = t
  /-- The entries of the upper half are those of the kernel page map. -/
  entries : ∀ j : Fin 512, tableEntries s'.mem t j =
    if 256 ≤ j.val then tableEntries s.mem (rootTable s s.vmmKernelPagemap) j else pte.zero
  /-- Only pages of the page stack have been written. -/
  mem : ∀ x, (∀ p ∈ s.pmmStack, ¬ InPage p x) → s'.mem x = s.mem x

/-- The top-level table of a page map depends on its structure only. -/
lemma rootTable_congr (hhhdm : s'.hhdmOff = s.hhdmOff)
    (hmem : ∀ x, virtualToPhysical s pm ≤ x → x < virtualToPhysical s pm + 8 → s'.mem x = s.mem x) :
    rootTable s' pm = rootTable s pm := by
  have hload : load64 s'.mem (virtualToPhysical s pm) = load64 s.mem (virtualToPhysical s pm) :=
    load64_congr hmem
  rw [virtualToPhysical] at hload
  simp only [rootTable, pagemapTopLevel, readWord, virtualToPhysical, hhhdm, hload]

/-- A page outside the managed pages does not overlap the page `p` of the page stack. -/
lemma PageMaps.struct_apart (h : PageMaps s pms lab) (hpm : pm ∈ pms) {p : ℕ} (hp : p ∈ s.pmmStack) :
    virtualToPhysical s pm + 8 ≤ p ∨ p + pageSize ≤ virtualToPhysical s pm :=
  h.apart pm hpm p (.inr hp)

/-- `vmm_new_pagemap` returns `NULL` and has only written to pages of the page stack, or makes a
page map. -/
theorem vmmNewPagemap_cases (h : PageMaps s pms lab) (hkernel : s.vmmKernelPagemap ∈ pms)
    (hsupply : (vmmNewPagemap s).2.outOfPages = false) :
    ((vmmNewPagemap s).1 = 0 ∧ Scratched s (vmmNewPagemap s).2) ∨
      ∃ a t, (vmmNewPagemap s).1 = wadd a s.hhdmOff ∧ wadd a s.hhdmOff ≠ 0 ∧
        NewPagemap s (vmmNewPagemap s).2 a t := by
  refine (vmmNewPagemap_spec h.supply hsupply).imp id ?_
  rintro ⟨a, t, s', hfst, hne, hready, heq⟩
  refine ⟨a, t, hfst, hne, ?_⟩
  rw [heq]
  obtain ⟨ha, hafresh⟩ := h.stack a hready.struct_mem.1
  obtain ⟨ht, htfresh⟩ := h.stack t hready.top_mem.1
  have hmaps := hready.toScratched.pageMaps h
  have hrootlab := hmaps.root s.vmmKernelPagemap hkernel
  have hroot : rootTable s' s.vmmKernelPagemap = rootTable s s.vmmKernelPagemap :=
    h.rootTable_eq (hready.toScratched.confined lab) hkernel
  have hkt : rootTable s' s.vmmKernelPagemap ≠ t := by
    rintro rfl
    rw [htfresh] at hrootlab
    cases hrootlab
  have haddr : virtualToPhysical s' (wadd a s.hhdmOff) = a := by
    rw [virtualToPhysical, hready.hhdmOff]
    exact wsub_wadd_cancel _ ha.lt_modulus
  have hcopying : Copying s' (wadd a s.hhdmOff) (rootTable s' s.vmmKernelPagemap) t := by
    refine ⟨by rw [hready.kernel], hready.root, ?_, ?_⟩
    · rw [hready.kernel, virtualToPhysical, hready.hhdmOff]
      exact h.struct_apart hkernel hready.top_mem.1
    · rw [haddr]
      rcases page_apart ha.1 ht.1 hready.ne with hlt | hlt
      · exact .inl (by simp only [pageSize] at hlt; omega)
      · exact .inr hlt
  have hcopied := copyKernelHalf_spec (i := 256) (n := 256)
    (hmaps.aligned _ (by rw [hrootlab]; exact Option.some_ne_none _)) ⟨ht.1, ht.lt_modulus⟩ hkt
    hcopying le_rfl
  have hkernelEntries : ∀ j, tableEntries s'.mem (rootTable s' s.vmmKernelPagemap) j =
      tableEntries s.mem (rootTable s s.vmmKernelPagemap) j := fun j => by
    rw [hready.toScratched.tableEntries_eq h.toPageTables
      (by rw [hrootlab]; exact Option.some_ne_none _), hroot]
  generalize copyKernelHalf s' (wadd a s.hhdmOff) 256 256 = s'' at hcopied ⊢
  refine ⟨hcopied.initialized.trans hready.initialized, hcopied.hhdmOff.trans hready.hhdmOff,
    hcopied.kernel.trans hready.kernel, by rw [hcopied.stack]; exact hready.nodup,
    fun p hp => hready.stack p (by rwa [hcopied.stack] at hp),
    ⟨hready.struct_mem.1, by rw [hcopied.stack]; exact hready.struct_mem.2⟩,
    ⟨hready.top_mem.1, by rw [hcopied.stack]; exact hready.top_mem.2⟩, hready.ne, ?_, fun j => ?_,
    fun x hx => (hcopied.frame x (hx t hready.top_mem.1)).trans (hready.mem x hx)⟩
  · rw [← hready.root]
    refine rootTable_congr hcopied.hhdmOff fun x hx hx' => hcopied.frame x fun hxt => ?_
    rw [haddr] at hx hx'
    exact hready.ne (InPage.eq ha.1 ht.1 ⟨hx, by simp only [pageSize]; omega⟩ hxt)
  · have hj := j.isLt
    rw [hcopied.entries j, hready.empty, hkernelEntries]
    refine if_congr ⟨fun h => h.1, fun h => ⟨h, by omega⟩⟩ rfl rfl

namespace NewPagemap

/-- The new table was not in use. -/
lemma top_fresh (hnew : NewPagemap s s' a t) (h : PageMaps s pms lab) : PhysPage t ∧ lab t = none :=
  h.stack t hnew.top_mem.1

/-- The structure of the new page map is in the page `a`. -/
lemma virtualToPhysical_eq (hnew : NewPagemap s s' a t) (h : PageMaps s pms lab) :
    virtualToPhysical s (wadd a s.hhdmOff) = a :=
  wsub_wadd_cancel _ (h.stack a hnew.struct_mem.1).1.lt_modulus

/-- The new page map is none of the others. -/
lemma notMem (hnew : NewPagemap s s' a t) (h : PageMaps s pms lab) : wadd a s.hhdmOff ∉ pms := by
  intro hmem
  have hapart := h.struct_apart hmem hnew.struct_mem.1
  rw [hnew.virtualToPhysical_eq h] at hapart
  simp only [pageSize] at hapart
  omega

/-- The entries of tables in use do not change. -/
lemma tableEntries_eq (hnew : NewPagemap s s' a t) (h : PageMaps s pms lab) {b : ℕ}
    (hb : lab b ≠ none) (i : Fin 512) : tableEntries s'.mem b i = tableEntries s.mem b i := by
  have hi := i.isLt
  refine load64_congr fun x hx hx' => hnew.mem x fun p hp hpx => ?_
  obtain ⟨hphys, hfresh⟩ := h.stack p hp
  have hpb : p = b :=
    InPage.eq hphys.1 (h.aligned b hb).1 hpx ⟨by omega, by simp only [pageSize]; omega⟩
  exact hb (hpb ▸ hfresh)

/-- The top-level tables of the other page maps stay where they are. -/
lemma rootTable_eq (hnew : NewPagemap s s' a t) (h : PageMaps s pms lab) (hpm : pm ∈ pms) :
    rootTable s' pm = rootTable s pm := by
  refine rootTable_congr hnew.hhdmOff fun x hx hx' => hnew.mem x fun p hp hpx => ?_
  have hapart := h.struct_apart hpm hp
  simp only [InPage] at hpx
  omega

/-- What is managed after `vmm_new_pagemap` was managed before, and is not the page of the new
structure. -/
lemma managed (hnew : NewPagemap s s' a t) (h : PageMaps s pms lab) {b : ℕ}
    (hb : Managed s' (addLabels lab t pm) b) : Managed s lab b ∧ b ≠ a := by
  obtain ⟨ha, ha'⟩ := hnew.struct_mem
  rcases hb with hb | hb
  · rcases addLabels_ne_none hb with rfl | hb
    · exact ⟨.inr hnew.top_mem.1, hnew.ne.symm⟩
    · refine ⟨.inl hb, ?_⟩
      rintro rfl
      exact hb (h.stack b ha).2
  · refine ⟨.inr (hnew.stack b hb), ?_⟩
    rintro rfl
    exact ha' hb

/-- The page tables with the new one among them. -/
lemma labelled (hnew : NewPagemap s s' a t) (h : PageMaps s pms lab)
    (hkernel : s.vmmKernelPagemap ∈ pms) (pm : ℕ) :
    Labelled pte (Heir s'.vmmKernelPagemap) 3 (tableEntries s'.mem) (addLabels lab t pm) := by
  have hfresh := (hnew.top_fresh h).2
  intro b o p hb hp i
  by_cases hbt : b = t
  · subst hbt
    rw [addLabels, Function.update_self] at hb
    cases hb
    rw [hnew.entries i, hnew.kernel]
    by_cases hi : 256 ≤ i.val
    · -- in the upper half the table has the entries of the kernel page map, which belong to it
      rw [if_pos hi]
      refine (h.labelled _ _ _ (h.root _ hkernel) (by decide) i).imp id ?_
      rintro ⟨c, o', hm, hc, hclab, hheir⟩
      refine ⟨c, o', hm, hc, addLabels_of_some hfresh hclab pm, .inr ⟨?_, rfl, hi⟩⟩
      rcases hheir with rfl | ⟨rfl, -, -⟩ <;> rfl
    · rw [if_neg hi]
      exact .inl rfl
  · rw [addLabels, Function.update_of_ne hbt] at hb
    rw [hnew.tableEntries_eq h (by rw [hb]; exact Option.some_ne_none _), hnew.kernel]
    refine (h.labelled b o p hb hp i).imp id ?_
    rintro ⟨c, o', hm, hc, hclab, hheir⟩
    exact ⟨c, o', hm, hc, addLabels_of_some hfresh hclab pm, hheir⟩

/-- `vmm_new_pagemap` adds its page map to those there are. -/
theorem pageMaps (hnew : NewPagemap s s' a t) (h : PageMaps s pms lab)
    (hkernel : s.vmmKernelPagemap ∈ pms) :
    PageMaps s' (wadd a s.hhdmOff :: pms) (addLabels lab t (wadd a s.hhdmOff)) := by
  obtain ⟨ht, hfresh⟩ := hnew.top_fresh h
  refine ⟨⟨by rw [hnew.initialized]; exact h.initialized, hnew.nodup, fun p hp => ?_,
    fun b hb => ?_, hnew.labelled h hkernel _⟩, fun pm hpm => ?_, fun pm hpm b hb => ?_⟩
  · obtain ⟨hphys, hpfresh⟩ := h.stack p (hnew.stack p hp)
    refine ⟨hphys, ?_⟩
    rw [addLabels, Function.update_of_ne, hpfresh]
    rintro rfl
    exact hnew.top_mem.2 hp
  · rcases addLabels_ne_none hb with rfl | hb
    · exact ⟨ht.1, ht.lt_modulus⟩
    · exact h.aligned b hb
  · rcases List.mem_cons.mp hpm with rfl | hpm
    · rw [hnew.root]
      exact Function.update_self _ _ _
    · rw [hnew.rootTable_eq h hpm]
      exact addLabels_of_some hfresh (h.root pm hpm) _
  · obtain ⟨hb, hba⟩ := hnew.managed h hb
    rw [virtualToPhysical, hnew.hhdmOff]
    rcases List.mem_cons.mp hpm with rfl | hpm
    · -- a managed page other than `a` does not overlap it
      have hmod : b % pageSize = 0 := hb.elim (fun hb => (h.aligned b hb).1)
        fun hb => (h.stack b hb).1.1
      have haddr := hnew.virtualToPhysical_eq h
      rw [virtualToPhysical] at haddr
      rw [haddr]
      rcases page_apart (h.stack a hnew.struct_mem.1).1.1 hmod hba.symm with hlt | hlt
      · exact .inl (by simp only [pageSize] at hlt; omega)
      · exact .inr hlt
    · exact h.apart pm hpm b hb

end NewPagemap

/-! ### Runs -/

/-- The calls of a run on the page maps of a system. -/
inductive SpaceOp
  | newPagemap
  | call (pm : ℕ) (op : MapOp)

/-- One call in a run during which `pmm_allocpage` does not fail.  The second component of the state
lists the page maps: the kernel page map and those that `vmm_new_pagemap` has returned. -/
inductive SpaceStep : Vmm × List ℕ → SpaceOp → Vmm × List ℕ → Prop
  | newNull {s : Vmm} {pms : List ℕ} (hnull : (vmmNewPagemap s).1 = 0)
      (hsupply : (vmmNewPagemap s).2.outOfPages = false) :
      SpaceStep (s, pms) .newPagemap ((vmmNewPagemap s).2, pms)
  | newPagemap {s : Vmm} {pms : List ℕ} (hne : (vmmNewPagemap s).1 ≠ 0)
      (hsupply : (vmmNewPagemap s).2.outOfPages = false) :
      SpaceStep (s, pms) .newPagemap ((vmmNewPagemap s).2, (vmmNewPagemap s).1 :: pms)
  | call {s : Vmm} {pms : List ℕ} {pm : ℕ} {op : MapOp} (hpm : pm ∈ pms)
      (hsupply : (op.run s pm).outOfPages = false) : SpaceStep (s, pms) (.call pm op) (op.run s pm, pms)

/-- The page maps of a state of a run are page maps, and the kernel page map is one of them. -/
def Spaces (st : Vmm × List ℕ) : Prop :=
  (∃ lab, PageMaps st.1 st.2 lab) ∧ st.1.vmmKernelPagemap ∈ st.2

/-- Every call of a run keeps the page maps. -/
lemma Spaces.step {st st' : Vmm × List ℕ} {op : SpaceOp} (h : Spaces st)
    (hstep : SpaceStep st op st') : Spaces st' := by
  obtain ⟨⟨lab, hmaps⟩, hkernel⟩ := h
  cases hstep with
  | newNull hnull hsupply =>
    rcases vmmNewPagemap_cases hmaps hkernel hsupply with ⟨-, hscratch⟩ | ⟨a, t, hfst, hne, -⟩
    · exact ⟨⟨lab, hscratch.pageMaps hmaps⟩, by rw [hscratch.kernel]; exact hkernel⟩
    · exact absurd (hfst.symm.trans hnull) hne
  | newPagemap hne hsupply =>
    rcases vmmNewPagemap_cases hmaps hkernel hsupply with ⟨hnull, -⟩ | ⟨a, t, hfst, -, hnew⟩
    · exact absurd hnull hne
    · rw [hfst]
      exact ⟨⟨_, hnew.pageMaps hmaps hkernel⟩,
        by rw [hnew.kernel]; exact List.mem_cons_of_mem _ hkernel⟩
  | @call s pms pm op hpm hsupply =>
    have hkernel' := (op.run_sameGlobals s pm).kernel
    rw [MapOp.run_eq] at hsupply hkernel' ⊢
    obtain ⟨lab', -, -, -, -, hmaps', -⟩ := hmaps.setEntry_spec hpm hsupply
    exact ⟨⟨lab', hmaps'⟩, by rw [hkernel']; exact hkernel⟩

/-- Every run keeps the page maps. -/
lemma Spaces.of_trace {st st' : Vmm × List ℕ} {ops : List SpaceOp} (h : Spaces st)
    (htrace : Trace SpaceStep st ops st') : Spaces st' :=
  htrace.invariant Spaces h fun _ _ _ h hstep => h.step hstep

/-- The state after `vmm_init`, with the kernel page map as the only one. -/
lemma spaces_vmmInit {sym : SectionSymbols} (h : PageSupply s)
    (hsupply : (vmmInit s sym).outOfPages = false) :
    Spaces (vmmInit s sym, [(vmmInit s sym).vmmKernelPagemap]) :=
  ⟨pageMaps_vmmInit h hsupply, List.mem_singleton_self _⟩

/-! ### The pages that a run takes -/

/-- A page stack of at least `n` pages without page `0`, on which no allocation has failed. -/
structure GoodSupply (s : Vmm) (n : ℕ) : Prop where
  initialized : s.pmmInitialized
  outOfPages : s.outOfPages = false
  zero : 0 ∉ s.pmmStack
  length : n ≤ s.pmmStack.length

/-- Three pages are enough for a new page map, which is none of those there are. -/
lemma step_newPagemap {n : ℕ} (h : Spaces (s, pms)) (hgood : GoodSupply s (n + 3))
    (hnull : ∀ p ∈ s.pmmStack, wadd p s.hhdmOff ≠ 0) :
    SpaceStep (s, pms) .newPagemap ((vmmNewPagemap s).2, (vmmNewPagemap s).1 :: pms) ∧
      GoodSupply (vmmNewPagemap s).2 n ∧ (vmmNewPagemap s).1 ∉ pms := by
  obtain ⟨⟨lab, (hmaps : PageMaps s pms lab)⟩, hkernel⟩ := h
  have hlen := hgood.length
  obtain ⟨hout, hne, hstack⟩ := vmmNewPagemap_supply hmaps.supply hgood.outOfPages hgood.zero hnull
    (by omega)
  rcases vmmNewPagemap_cases hmaps hkernel hout with ⟨hzero, -⟩ | ⟨a, t, hfst, -, hnew⟩
  · exact absurd hzero hne
  refine ⟨.newPagemap hne hout, ⟨?_, hout, fun h0 => ?_, ?_⟩, by rw [hfst]; exact hnew.notMem hmaps⟩
  · rw [hnew.initialized]
    exact hgood.initialized
  · rw [hstack] at h0
    exact hgood.zero (List.mem_of_mem_drop h0)
  · rw [hstack, List.length_drop]
    omega

/-- Three pages are enough for a call. -/
lemma step_call (hgood : GoodSupply s 3) (hpm : pm ∈ pms) (op : MapOp) :
    SpaceStep (s, pms) (.call pm op) (op.run s pm, pms) := by
  refine .call hpm ?_
  rw [MapOp.run_eq]
  exact (vmmSetEntry_supply pm op.vaddr op.entry hgood.initialized hgood.outOfPages hgood.zero
    hgood.length).1

/-- The state of the example after `vmm_init`. -/
@[irreducible] def exampleSystem : Vmm :=
  vmmInit (exampleBoot 0x200000 0xffffffff80000000) exampleSections

/-- Pages are left for a new page map and a call after `vmm_init`, and none of them is at `NULL` in
the direct map. -/
lemma exampleSystem_supply : Spaces (exampleSystem, [exampleSystem.vmmKernelPagemap]) ∧
    GoodSupply exampleSystem 6 ∧ ∀ p ∈ exampleSystem.pmmStack, wadd p exampleSystem.hhdmOff ≠ 0 := by
  have hsupply : PageSupply (exampleBoot 0x200000 0xffffffff80000000) :=
    physicalMap_exampleMap.pageSupply rfl
  have hspaces := spaces_vmmInit hsupply vmmInit_example
  have hhhdm : (vmmInit (exampleBoot 0x200000 0xffffffff80000000) exampleSections).hhdmOff =
      0xffff800000000000 := vmmInit_hhdmOff hsupply vmmInit_example
  obtain ⟨hout, k, hk, hstack⟩ := vmmInit_exampleBoot kernelPlacement_example 0xffffffff80000000
    exampleSections_region
  have hlen := length_exampleBoot_stack 0x200000 0xffffffff80000000
  rw [exampleSystem]
  generalize vmmInit (exampleBoot 0x200000 0xffffffff80000000) exampleSections = s at *
  obtain ⟨⟨lab, hmaps⟩, -⟩ := id hspaces
  have hmem : ∀ p ∈ s.pmmStack, 0x1000000 ≤ p ∧ p ≤ 0x100000000 := by
    intro p hp
    rw [hstack] at hp
    have := mem_exampleBoot_stack.mp (List.mem_of_mem_drop hp)
    omega
  refine ⟨hspaces, ⟨hmaps.initialized, hout, fun h0 => ?_, ?_⟩, fun p hp => ?_⟩
  · have := hmem 0 h0
    omega
  · rw [hstack, List.length_drop, hlen]
    omega
  · have := hmem p hp
    rw [hhhdm, wadd]
    simp only [modulus]
    omega

/-! ### Isolation of the lower halves -/

/-- Who owns a table at a path if the page map `B` can reach it: `B` itself, or anybody below the
upper half. -/
def Reachable (B o : ℕ) : List (Fin 512) → Prop
  | [] => o = B
  | i :: _ => i.val < 256 → o = B

/-- The tables below a reachable table are reachable. -/
lemma Reachable.heir {kernel o o' : ℕ} {p : List (Fin 512)} {i : Fin 512} (h : Reachable B o p)
    (hheir : Heir kernel o p i o') : Reachable B o' (p ++ [i]) := by
  cases p with
  | nil =>
    intro hi
    rcases hheir with rfl | ⟨-, -, hge⟩
    · exact h
    · omega
  | cons j p =>
    intro hj
    rcases hheir with rfl | ⟨-, hnil, -⟩
    · exact h hj
    · cases hnil

/-- A call only changes entries on the path of its address, in tables that its page map can reach.
-/
lemma PageMaps.setEntry_frame (h : PageMaps s pms lab) (hA : A ∈ pms) {v value : ℕ}
    (hsupply : (vmmSetEntry s A v value).outOfPages = false) {b o : ℕ} {p : List (Fin 512)}
    {j : Fin 512} (hb : lab b = some (o, p))
    (hne : tableEntries (vmmSetEntry s A v value).mem b j ≠ tableEntries s.mem b j) :
    Reachable A o p ∧ p ++ [j] <+: tablePath v ++ [leafIndex v] := by
  obtain ⟨lab', m₁, c, hensure, hstore, -, -⟩ := h.setEntry_spec hA hsupply
  generalize tableEntries (vmmSetEntry s A v value).mem = m' at hstore hne
  have hroot := h.root A hA
  by_cases hm₁ : m₁ b j = tableEntries s.mem b j
  · -- the entry written into the last-level table
    have hlabelled := hensure.labelled h.labelled (heir_refl _) hroot (by simp)
    have hfollow := hensure.follow_eq h.labelled (heir_refl _) hroot (by simp)
    obtain ⟨o', hc, hreach⟩ := hlabelled.follow_label (Q := Reachable A)
      (fun _ _ _ _ hQ hheir => hQ.heir hheir) (hensure.label_of_label hroot) rfl (by simp) hfollow
    have hb' := hensure.label_of_label hb
    have hbj : b = c ∧ j = leafIndex v := by
      by_contra hbj
      refine hne ((hstore.frame b j ?_ (not_and_or.mp hbj)).trans hm₁)
      rw [hb']
      exact Option.some_ne_none _
    obtain ⟨rfl, rfl⟩ := hbj
    rw [hc, List.nil_append] at hb'
    cases hb'
    exact ⟨hreach, List.prefix_rfl⟩
  · obtain ⟨hreach, hprefix⟩ := hensure.frame h.labelled (heir_refl _) hroot (by simp)
      (Q := Reachable A) rfl (fun _ _ _ _ hQ _ hheir => hQ.heir hheir) hb hm₁
    exact ⟨hreach, hprefix.trans (List.prefix_append _ _)⟩

/-- Two states whose entries agree in the tables that a page map can reach translate it alike. -/
lemma PageMaps.walk_congr (h : PageMaps s pms lab) (hB : B ∈ pms)
    (hroot : rootTable s' B = rootTable s B)
    (hagree : ∀ b o p j, lab b = some (o, p) → Reachable B o p →
      tableEntries s'.mem b j = tableEntries s.mem b j) : walk s' B w = walk s B w := by
  rw [walk_eq_lookup, walk_eq_lookup, hroot]
  exact h.labelled.lookup_congr (Q := Reachable B) (fun _ _ _ _ hQ hheir => hQ.heir hheir) hagree
    (h.root B hB) rfl (by simp)

/-- A call on one page map at an address of the lower half changes no translation of another. -/
lemma PageMaps.walk_setEntry_of_ne (h : PageMaps s pms lab) (hA : A ∈ pms) (hB : B ∈ pms)
    (hne : B ≠ A) {v value : ℕ} (hv : pml4Entry v < 256)
    (hsupply : (vmmSetEntry s A v value).outOfPages = false) :
    walk (vmmSetEntry s A v value) B w = walk s B w := by
  obtain ⟨_, _, _, _, _, _, hconf⟩ := h.setEntry_spec hA hsupply
  refine h.walk_congr hB (h.rootTable_eq hconf hB) fun b o p j hb hreach => ?_
  by_contra hchanged
  obtain ⟨hreach', hprefix⟩ := h.setEntry_frame hA hsupply hb hchanged
  -- the table would belong to both page maps
  cases p with
  | nil => exact hne (hreach.symm.trans hreach')
  | cons i p =>
    have hi : i = rootIndex v := (List.cons_prefix_cons.mp hprefix).1
    have hlt : i.val < 256 := by rw [hi]; exact hv
    exact hne ((hreach hlt).symm.trans (hreach' hlt))

/-- In every run from the state after `vmm_init`, a call of `vmm_map` or `vmm_unmap` on a page map
at an address whose top-level index is below 256 leaves the walk of every address in every other
page map as it is. -/
theorem address_spaces_isolated {s₀ : Vmm} {sym : SectionSymbols} {ops : List SpaceOp} {op : MapOp}
    (h : PageSupply s₀) (hinit : (vmmInit s₀ sym).outOfPages = false)
    (htrace : Trace SpaceStep (vmmInit s₀ sym, [(vmmInit s₀ sym).vmmKernelPagemap]) ops (s, pms))
    (hstep : SpaceStep (s, pms) (.call A op) (s', pms)) (hop : pml4Entry op.vaddr < 256) :
    ∀ B ∈ pms, B ≠ A → ∀ w, walk s' B w = walk s B w := by
  obtain ⟨⟨lab, hmaps⟩, -⟩ := (spaces_vmmInit h hinit).of_trace htrace
  cases hstep with
  | call hA hsupply =>
    intro B hB hne w
    rw [MapOp.run_eq] at hsupply ⊢
    exact hmaps.walk_setEntry_of_ne hA hB hne hop hsupply

/-- A mapping in a new page map of the example does not touch the kernel page map. -/
theorem address_spaces_isolated_example :
    walk (vmmMap (vmmNewPagemap exampleSystem).2 (vmmNewPagemap exampleSystem).1 0x400000 0x6000 3)
        exampleSystem.vmmKernelPagemap 0x400000 =
      walk (vmmNewPagemap exampleSystem).2 exampleSystem.vmmKernelPagemap 0x400000 := by
  obtain ⟨hspaces, hgood, hnull⟩ := exampleSystem_supply
  obtain ⟨hnew, hgood', hnotMem⟩ := step_newPagemap (n := 3) hspaces hgood hnull
  have hcall := step_call hgood' (show (vmmNewPagemap exampleSystem).1 ∈
    [(vmmNewPagemap exampleSystem).1, exampleSystem.vmmKernelPagemap] from List.mem_cons_self)
    (.map 0x400000 0x6000 3)
  rw [exampleSystem] at *
  exact address_spaces_isolated (physicalMap_exampleMap.pageSupply rfl) vmmInit_example
    (Trace.single hnew) hcall (by decide) _ (by simp)
    (fun heq => hnotMem (List.mem_singleton.mpr heq.symm)) 0x400000

/-! ### The shared upper half -/

/-- The entry `i` of the top-level table of a page map. -/
def topSlot (s : Vmm) (pm : ℕ) (i : Fin 512) : ℕ := tableEntries s.mem (rootTable s pm) i

/-- A call leaves an entry of a top-level table alone that is present, belongs to another page map,
or is not on the path of its address. -/
lemma PageMaps.topSlot_setEntry (h : PageMaps s pms lab) (hA : A ∈ pms) (hB : B ∈ pms) {v value : ℕ}
    (hsupply : (vmmSetEntry s A v value).outOfPages = false) {i : Fin 512}
    (hkeep : pteTable (topSlot s B i) ≠ none ∨ (A = B → rootIndex v ≠ i)) :
    topSlot (vmmSetEntry s A v value) B i = topSlot s B i := by
  have hroot := h.root B hB
  have hframe : tableEntries (vmmSetEntry s A v value).mem (rootTable s B) i ≠
      tableEntries s.mem (rootTable s B) i → A = B ∧ rootIndex v = i := fun hne => by
    obtain ⟨hreach, hprefix⟩ := h.setEntry_frame hA hsupply hroot hne
    exact ⟨hreach.symm, (List.cons_prefix_cons.mp hprefix).1.symm⟩
  obtain ⟨lab', m₁, c, hensure, hstore, -, hconf⟩ := h.setEntry_spec hA hsupply
  obtain ⟨o', hc⟩ := exists_label_of_ensure h.toPageTables hensure (h.root A hA) (by simp)
  rw [topSlot, topSlot, h.rootTable_eq hconf hB]
  generalize tableEntries (vmmSetEntry s A v value).mem = m' at *
  by_contra hne
  rcases hkeep with hpresent | huntouched
  · obtain ⟨d, hd⟩ := Option.ne_none_iff_exists'.mp hpresent
    have hinner := hstore.inner_eq hc (length_tablePath v) (hensure.label_of_label hroot)
      (by decide) i
    exact hne (hinner.trans (hensure.entry_eq (by rw [hroot]; exact Option.some_ne_none _) hd))
  · obtain ⟨rfl, hi⟩ := hframe hne
    exact huntouched rfl hi

/-- The entry of a top-level table that is present, or that no call is about, does not change in a
run, and the page map stays. -/
lemma Spaces.topSlot_of_trace {st st' : Vmm × List ℕ} {ops : List SpaceOp} (h : Spaces st)
    (htrace : Trace SpaceStep st ops st') (hpm : pm ∈ st.2) {i : Fin 512}
    (hkeep : pteTable (topSlot st.1 pm i) ≠ none ∨
      ∀ op : MapOp, .call pm op ∈ ops → rootIndex op.vaddr ≠ i) :
    topSlot st'.1 pm i = topSlot st.1 pm i ∧ pm ∈ st'.2 := by
  induction htrace with
  | nil => exact ⟨rfl, hpm⟩
  | @snoc ops op st₁ st₂ hprefix hstep ih =>
    obtain ⟨heq, hmem⟩ := ih (hkeep.imp id fun hops op hop => hops op (List.mem_append_left _ hop))
    obtain ⟨⟨lab, hmaps⟩, hkernel⟩ := h.of_trace hprefix
    rw [← heq] at hkeep ⊢
    cases hstep with
    | newNull hnull hsupply =>
      refine ⟨?_, hmem⟩
      rcases vmmNewPagemap_cases hmaps hkernel hsupply with ⟨-, hscratch⟩ | ⟨a, t, hfst, hne, -⟩
      · rw [topSlot, topSlot, hmaps.rootTable_eq (hscratch.confined lab) hmem]
        refine hscratch.tableEntries_eq hmaps.toPageTables ?_ i
        rw [hmaps.root pm hmem]
        exact Option.some_ne_none _
      · exact absurd (hfst.symm.trans hnull) hne
    | newPagemap hne hsupply =>
      refine ⟨?_, List.mem_cons_of_mem _ hmem⟩
      rcases vmmNewPagemap_cases hmaps hkernel hsupply with ⟨hnull, -⟩ | ⟨a, t, -, -, hnew⟩
      · exact absurd hnull hne
      · rw [topSlot, topSlot, hnew.rootTable_eq hmaps hmem]
        refine hnew.tableEntries_eq hmaps ?_ i
        rw [hmaps.root pm hmem]
        exact Option.some_ne_none _
    | @call s pms A op hA hsupply =>
      refine ⟨?_, hmem⟩
      rw [MapOp.run_eq] at hsupply ⊢
      refine hmaps.topSlot_setEntry hA hmem hsupply (hkeep.imp id ?_)
      rintro hops rfl
      exact hops op (by simp)

/-- Two page maps with the same entry in their top-level tables translate the addresses below it
alike. -/
lemma walk_eq_of_topSlot (h : topSlot s A (rootIndex w) = topSlot s B (rootIndex w)) :
    walk s A w = walk s B w := by
  rw [topSlot, topSlot] at h
  rw [walk_eq_lookup, walk_eq_lookup, tablePath]
  cases hB : pte.child (tableEntries s.mem (rootTable s B) (rootIndex w)) with
  | none =>
    have hA : pte.child (tableEntries s.mem (rootTable s A) (rootIndex w)) = none := by rw [h, hB]
    rw [lookup_cons_of_absent hA, lookup_cons_of_absent hB]
  | some c =>
    have hA : pte.child (tableEntries s.mem (rootTable s A) (rootIndex w)) = some c := by rw [h, hB]
    rw [lookup_cons_of_child hA, lookup_cons_of_child hB]

/-- Below an absent entry of the top-level table nothing is mapped. -/
lemma walk_eq_none_of_topSlot (h : pteTable (topSlot s B (rootIndex w)) = none) :
    walk s B w = none := by
  have hB : pte.child (tableEntries s.mem (rootTable s B) (rootIndex w)) = none := h
  rw [walk_eq_lookup, tablePath, lookup_cons_of_absent hB]

/-- The kernel page map stays what it is. -/
lemma Spaces.kernel_of_trace {st st' : Vmm × List ℕ} {ops : List SpaceOp} (h : Spaces st)
    (htrace : Trace SpaceStep st ops st') : st'.1.vmmKernelPagemap = st.1.vmmKernelPagemap := by
  induction htrace with
  | nil => rfl
  | @snoc ops op st₁ st₂ hprefix hstep ih =>
    obtain ⟨⟨lab, hmaps⟩, hkernel⟩ := h.of_trace hprefix
    rw [← ih]
    cases hstep with
    | newNull hnull hsupply =>
      rcases vmmNewPagemap_cases hmaps hkernel hsupply with ⟨-, hscratch⟩ | ⟨a, t, -, -, hnew⟩
      · exact hscratch.kernel
      · exact hnew.kernel
    | newPagemap hne hsupply =>
      rcases vmmNewPagemap_cases hmaps hkernel hsupply with ⟨-, hscratch⟩ | ⟨a, t, -, -, hnew⟩
      · exact hscratch.kernel
      · exact hnew.kernel
    | call hpm hsupply => exact (MapOp.run_sameGlobals _ _ _).kernel

/-- A new page map has the entries of the kernel page map in the upper half. -/
lemma Spaces.topSlot_newPagemap (h : Spaces (s, pms))
    (hstep : SpaceStep (s, pms) .newPagemap (s', B :: pms)) {i : Fin 512} (hi : 256 ≤ i.val) :
    topSlot s' B i = topSlot s s.vmmKernelPagemap i ∧
      topSlot s' s.vmmKernelPagemap i = topSlot s s.vmmKernelPagemap i := by
  obtain ⟨⟨lab, hmaps⟩, hkernel⟩ := h
  have hlen : pms ≠ B :: pms := fun heq => by simpa using congrArg List.length heq
  generalize hpms : B :: pms = pms' at hstep hlen
  cases hstep with
  | newNull hnull hsupply => exact absurd rfl hlen
  | newPagemap hne hsupply =>
    obtain ⟨rfl, -⟩ := List.cons.inj hpms
    rcases vmmNewPagemap_cases hmaps hkernel hsupply with ⟨hnull, -⟩ | ⟨a, t, hfst, -, hnew⟩
    · exact absurd hnull hne
    · refine ⟨?_, ?_⟩
      · rw [hfst, topSlot, hnew.root, hnew.entries, if_pos hi]
        rfl
      · rw [topSlot, topSlot, hnew.rootTable_eq hmaps hkernel]
        refine hnew.tableEntries_eq hmaps ?_ i
        rw [hmaps.root _ hkernel]
        exact Option.some_ne_none _

/-- In every run from the state after `vmm_init`, a page map and the kernel page map translate an
address of the upper half alike if, when `vmm_new_pagemap` made the page map, the kernel page map
had a table below the top-level entry of the address, or if no later call on either of the two was
about that entry. -/
theorem kernel_half_shared {s₀ s₁ s₂ s₃ : Vmm} {sym : SectionSymbols} {ops₁ ops₂ : List SpaceOp}
    {pms₁ pms₃ : List ℕ} (h : PageSupply s₀) (hinit : (vmmInit s₀ sym).outOfPages = false)
    (htrace₁ : Trace SpaceStep (vmmInit s₀ sym, [(vmmInit s₀ sym).vmmKernelPagemap]) ops₁
      (s₁, pms₁))
    (hnew : SpaceStep (s₁, pms₁) .newPagemap (s₂, B :: pms₁))
    (htrace₂ : Trace SpaceStep (s₂, B :: pms₁) ops₂ (s₃, pms₃)) (hw : 256 ≤ pml4Entry w)
    (hslot : pteTable (topSlot s₁ s₁.vmmKernelPagemap (rootIndex w)) ≠ none ∨
      ∀ pm op, .call pm op ∈ ops₂ → pm = B ∨ pm = s₁.vmmKernelPagemap →
        rootIndex op.vaddr ≠ rootIndex w) :
    walk s₃ B w = walk s₃ s₃.vmmKernelPagemap w := by
  have h₁ := (spaces_vmmInit h hinit).of_trace htrace₁
  have h₂ : Spaces (s₂, B :: pms₁) := h₁.step hnew
  obtain ⟨hB, hK⟩ := h₁.topSlot_newPagemap hnew (i := rootIndex w) hw
  have hkernel₂ : s₂.vmmKernelPagemap = s₁.vmmKernelPagemap := by
    have hsingle : s₂.vmmKernelPagemap = _ := h₁.kernel_of_trace (Trace.single hnew)
    exact hsingle
  have hkernel₃ : s₃.vmmKernelPagemap = s₂.vmmKernelPagemap := h₂.kernel_of_trace htrace₂
  obtain ⟨hB₃, -⟩ := h₂.topSlot_of_trace htrace₂ (show B ∈ B :: pms₁ from List.mem_cons_self)
    (i := rootIndex w) (by
      rw [hB]
      exact hslot.imp id fun hops op hop => hops B op hop (.inl rfl))
  obtain ⟨hK₃, -⟩ := h₂.topSlot_of_trace htrace₂
    (show s₁.vmmKernelPagemap ∈ B :: pms₁ by rw [← hkernel₂]; exact h₂.2) (i := rootIndex w) (by
      rw [hK]
      exact hslot.imp id fun hops op hop => hops _ op hop (.inr rfl))
  refine walk_eq_of_topSlot ?_
  rw [hkernel₃, hkernel₂, hB₃, hK₃, hB, hK]

/-- When the kernel half of the example is not extended, both page maps see it alike. -/
theorem kernel_half_shared_example :
    walk (vmmNewPagemap exampleSystem).2 (vmmNewPagemap exampleSystem).1 0xffffffff80000000 =
      walk (vmmNewPagemap exampleSystem).2 (vmmNewPagemap exampleSystem).2.vmmKernelPagemap
        0xffffffff80000000 := by
  obtain ⟨hspaces, hgood, hnull⟩ := exampleSystem_supply
  obtain ⟨hnew, -, -⟩ := step_newPagemap (n := 3) hspaces hgood hnull
  rw [exampleSystem] at *
  exact kernel_half_shared (physicalMap_exampleMap.pageSupply rfl) vmmInit_example .nil hnew .nil
    (by decide) (.inr fun _ _ hop => by cases hop)

/-- Calls that are not about an entry of the top-level table leave it alone. -/
lemma PageMaps.topSlot_runAll {ops : List MapOp} {i : Fin 512} (h : PageMaps s pms lab)
    (hpm : pm ∈ pms) (hsupply : (Soaplin.runAll s pm ops).outOfPages = false)
    (hops : ∀ op ∈ ops, rootIndex op.vaddr ≠ i) :
    topSlot (Soaplin.runAll s pm ops) pm i = topSlot s pm i := by
  induction ops generalizing s lab with
  | nil => rfl
  | cons op ops ih =>
    have hstep : (vmmSetEntry s pm op.vaddr op.entry).outOfPages = false := by
      rw [← MapOp.run_eq]
      exact @runAll_outOfPages _ pm ops hsupply
    obtain ⟨lab₁, -, -, -, -, hmaps, -⟩ := h.setEntry_spec hpm hstep
    have hslot := h.topSlot_setEntry hpm hpm hstep (i := i)
      (.inr fun _ => hops op List.mem_cons_self)
    change topSlot (Soaplin.runAll (op.run s pm) pm ops) pm i = _
    rw [← hslot]
    rw [← MapOp.run_eq] at hmaps hslot ⊢
    exact ih hmaps hsupply fun op hop => hops op (List.mem_cons_of_mem _ hop)

/-- After `vmm_init` an entry of the top-level table is empty if no intended mapping is below it. -/
lemma topSlot_vmmInit {sym : SectionSymbols} {i : Fin 512} (h : PageSupply s)
    (hplace : KernelPlacement s sym) (hsupply : (vmmInit s sym).outOfPages = false)
    (hnot : ∀ v p f, KernelMapping s sym v p f → rootIndex v ≠ i) :
    topSlot (vmmInit s sym) (vmmInit s sym).vmmKernelPagemap i = 0 := by
  obtain ⟨c, current, cr3, hmade, hsupply', hkernel, heq⟩ := vmmInit_cases h hsupply
  have hslot := hmade.pageMaps.topSlot_runAll (i := i) (List.mem_singleton_self _) hsupply'
    fun op hop => by
      obtain ⟨v, p, f, hmapping, rfl⟩ := (mem_initCalls hplace).mp hop
      exact hnot v p f hmapping
  rw [heq]
  change topSlot (runAll c c.vmmKernelPagemap (initCalls s sym))
    (runAll c c.vmmKernelPagemap (initCalls s sym)).vmmKernelPagemap i = 0
  rw [hkernel, hslot]
  exact hmade.empty i

/-- In the example the entry `300` of the top-level table is empty after `vmm_init`. -/
lemma topSlot_exampleSystem : topSlot exampleSystem exampleSystem.vmmKernelPagemap 300 = 0 := by
  rw [exampleSystem]
  refine topSlot_vmmInit (physicalMap_exampleMap.pageSupply rfl) kernelPlacement_example
    vmmInit_example fun v p f hmapping hroot => ?_
  have hv : v / 2 ^ 39 % 2 ^ 9 = 300 := by
    rw [← shiftRight_and_mask v 39 9]
    exact congrArg Fin.val hroot
  cases hmapping with
  | kernel hx =>
    have hx := hx.kernelPage
    simp only [KernelPage, TextPage, RodataPage, DataPage, SectionPage, exampleSections,
      pageSize] at hx
    omega
  | low hg =>
    have := hg.2
    omega
  | direct hg =>
    have := hg.2
    rw [show physicalToVirtual (exampleBoot 0x200000 0xffffffff80000000) p =
      wadd p 0xffff800000000000 from rfl, wadd] at hv
    simp only [modulus] at hv
    omega

/-- A mapping in the kernel page map below an entry that was empty when `vmm_new_pagemap` made a
page map is not seen in that page map. -/
theorem kernel_half_not_shared :
    Trace SpaceStep (exampleSystem, [exampleSystem.vmmKernelPagemap])
        ([.newPagemap] ++ [.call exampleSystem.vmmKernelPagemap (.map 0xffff960000000000 0x6000 3)])
        (vmmMap (vmmNewPagemap exampleSystem).2 exampleSystem.vmmKernelPagemap 0xffff960000000000
            0x6000 3,
          [(vmmNewPagemap exampleSystem).1, exampleSystem.vmmKernelPagemap]) ∧
      256 ≤ pml4Entry 0xffff960000000000 ∧
      walk (vmmMap (vmmNewPagemap exampleSystem).2 exampleSystem.vmmKernelPagemap
          0xffff960000000000 0x6000 3) exampleSystem.vmmKernelPagemap 0xffff960000000000 =
        some 0x6003 ∧
      walk (vmmMap (vmmNewPagemap exampleSystem).2 exampleSystem.vmmKernelPagemap
          0xffff960000000000 0x6000 3) (vmmNewPagemap exampleSystem).1 0xffff960000000000 =
        none := by
  obtain ⟨hspaces, hgood, hnull⟩ := exampleSystem_supply
  obtain ⟨hnew, hgood', hnotMem⟩ := step_newPagemap (n := 3) hspaces hgood hnull
  have hslot := topSlot_exampleSystem
  obtain ⟨hB, -⟩ := hspaces.topSlot_newPagemap hnew (i := 300) (by decide)
  have hspaces' := hspaces.step hnew
  generalize exampleSystem.vmmKernelPagemap = K at *
  generalize hs₂ : vmmNewPagemap exampleSystem = q at *
  obtain ⟨B, s₂⟩ := q
  have hcall := step_call hgood' (show K ∈ [B, K] by simp) (.map 0xffff960000000000 0x6000 3)
  obtain ⟨⟨lab, (hmaps : PageMaps s₂ [B, K] lab)⟩, -⟩ := hspaces'
  have hsupply : (vmmSetEntry s₂ K 0xffff960000000000 (0x6000 ||| 3)).outOfPages = false :=
    (vmmSetEntry_supply K _ _ hgood'.initialized hgood'.outOfPages hgood'.zero hgood'.length).1
  refine ⟨.snoc (Trace.single hnew) hcall, by decide, ?_, ?_⟩
  · exact (hmaps.walk_vmmSetEntry (by simp) hsupply).1 rfl
  · have hkeep := hmaps.topSlot_setEntry (show K ∈ [B, K] by simp) (show B ∈ [B, K] by simp) hsupply
      (i := 300) (.inr fun heq => absurd heq fun h => hnotMem (by rw [h]; simp))
    refine walk_eq_none_of_topSlot ?_
    rw [show rootIndex 0xffff960000000000 = 300 by decide]
    exact congrArg pteTable (hkeep.trans (hB.trans hslot))

end Soaplin

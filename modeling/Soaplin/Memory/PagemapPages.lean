import Soaplin.Memory.NewPagemap

/-!
# The pages of a page map

`vmm_new_pagemap` tests the three pages it takes on their addresses in the direct map.  The tests are
brought into the form of tests of the first three pages of the page stack (`vmmNewPagemap_tests`),
from which follows when the result is `NULL` and what is left of the page stack.  Three pages are
enough for a page map, except for those that the direct map takes to `NULL`.
-/

namespace Soaplin

open ByteMemory Word64

variable {s s' u : Vmm}

/-! ### The three tests -/

/-- The result of an allocation and the page stack after it. -/
lemma vmmAllocpage_getD (hinit : s.pmmInitialized) :
    (vmmAllocpage s).1 = s.pmmStack.getD 0 0 ∧ (vmmAllocpage s).2.pmmStack = s.pmmStack.drop 1 := by
  cases hstack : s.pmmStack with
  | nil =>
    have hnil : pmmAllocpage s.toPmm = (0, s.toPmm) := pmmAllocpage_nil hstack
    refine ⟨congrArg Prod.fst hnil, ?_⟩
    change (pmmAllocpage s.toPmm).2.pmmStack = []
    rw [hnil]
    exact hstack
  | cons page rest =>
    obtain ⟨hfst, hrest, -⟩ := vmmAllocpage_cons hinit hstack
    exact ⟨hfst, hrest⟩

/-- The field `topLevel` reads back the page it was set to. -/
lemma pagemapTopLevel_setFreshTop (s : Vmm) (pm : ℕ) :
    pagemapTopLevel (setFreshTop s pm) pm = physicalToVirtual s (vmmAllocpage s).1 :=
  load64_store64_same (wadd_lt _ _)

/-- The field `vmaHead` reads back the page it was set to. -/
lemma pagemapVmaHead_setFreshHead (s : Vmm) (pm : ℕ) :
    pagemapVmaHead (setFreshHead s pm) pm = physicalToVirtual s (vmmAllocpage s).1 :=
  load64_store64_same (wadd_lt _ _)

/-- The state after the first page of `vmm_new_pagemap` is popped and cleared. -/
lemma firstPage_spec {pm : ℕ} (hinit : s.pmmInitialized)
    (hu : clearPage (vmmAllocpage s).2 pm = u) :
    u.pmmInitialized ∧ u.pmmStack = s.pmmStack.drop 1 ∧ u.hhdmOff = s.hhdmOff := by
  rw [← hu]
  exact ⟨(vmmAllocpage_initialized s).trans hinit, (vmmAllocpage_getD hinit).2, rfl⟩

/-- `vmm_new_pagemap` with its three tests as tests of the three pages.  A page beyond the end of
the page stack is the `NULL` result of `pmm_allocpage`. -/
lemma vmmNewPagemap_tests {pm : ℕ} (hinit : s.pmmInitialized)
    (hpm : physicalToVirtual s (s.pmmStack.getD 0 0) = pm)
    (hu : clearPage (vmmAllocpage s).2 pm = u) :
    vmmNewPagemap s =
      if pm = 0 then (0, (vmmAllocpage s).2)
      else if physicalToVirtual s (s.pmmStack.getD 1 0) = 0 then
        (0, vmmFreepage (setFreshTop u pm) (virtualToPhysical s pm))
      else if physicalToVirtual s (s.pmmStack.getD 2 0) = 0 then
        (0, vmmFreepage
          (vmmFreepage (setFreshHead (newTopLevel u pm) pm)
            (virtualToPhysical s (pagemapTopLevel (setFreshHead (newTopLevel u pm) pm) pm)))
          (virtualToPhysical s pm))
      else (pm, copyKernelHalf (newVmaHead (newTopLevel u pm) pm) pm 256 256) := by
  obtain ⟨hfst, -⟩ := vmmAllocpage_getD hinit
  rw [vmmNewPagemap_eq s pm u (by rw [hfst, hpm]) hu]
  obtain ⟨hinit_u, hstack_u, hhdm⟩ := firstPage_spec hinit hu
  -- the second and the third page
  obtain ⟨hfst₁, hrest₁⟩ := vmmAllocpage_getD hinit_u
  have htop : (vmmAllocpage u).1 = s.pmmStack.getD 1 0 := by
    rw [hfst₁, hstack_u, List.getD_eq_getElem?_getD, List.getD_eq_getElem?_getD, List.getElem?_drop]
  obtain ⟨hfst₂, -⟩ := @vmmAllocpage_getD (newTopLevel u pm)
    ((vmmAllocpage_initialized u).trans hinit_u)
  have hstack_x : (newTopLevel u pm).pmmStack = s.pmmStack.drop 2 := by
    change (vmmAllocpage u).2.pmmStack = _
    rw [hrest₁, hstack_u, List.drop_drop]
  have hhead : (vmmAllocpage (newTopLevel u pm)).1 = s.pmmStack.getD 2 0 := by
    rw [hfst₂, hstack_x, List.getD_eq_getElem?_getD, List.getD_eq_getElem?_getD, List.getElem?_drop]
  have hhdm_u : ∀ page, physicalToVirtual u page = physicalToVirtual s page := fun page => by
    rw [physicalToVirtual, hhdm, physicalToVirtual]
  have hhdm_x : ∀ page, physicalToVirtual (newTopLevel u pm) page = physicalToVirtual s page :=
    hhdm_u
  rw [pagemapTopLevel_setFreshTop, pagemapVmaHead_setFreshHead, htop, hhead, hhdm_u, hhdm_x]

/-- `vmm_new_pagemap` returns `NULL` if and only if the direct map takes the result of one of its
three allocations to `NULL`. -/
theorem vmmNewPagemap_null_iff (hinit : s.pmmInitialized) :
    (vmmNewPagemap s).1 = 0 ↔ ∃ k < 3, physicalToVirtual s (s.pmmStack.getD k 0) = 0 := by
  rw [vmmNewPagemap_tests hinit rfl rfl]
  split_ifs with h₀ h₁ h₂
  · exact iff_of_true rfl ⟨0, by decide, h₀⟩
  · exact iff_of_true rfl ⟨1, by decide, h₁⟩
  · exact iff_of_true rfl ⟨2, by decide, h₂⟩
  · refine iff_of_false h₀ ?_
    rintro ⟨k, hk, hnull⟩
    interval_cases k
    · exact h₀ hnull
    · exact h₁ hnull
    · exact h₂ hnull

/-- The result of one of the three allocations is one of the first three pages, or `NULL` beyond the
end of the page stack. -/
lemma getD_of_lt_three (l : List ℕ) {k : ℕ} (hk : k < 3) :
    l.getD k 0 ∈ l.take 3 ∨ l.length ≤ k ∧ l.getD k 0 = 0 := by
  rw [List.getD_eq_getElem?_getD]
  by_cases hlen : k < l.length
  · refine .inl ?_
    rw [List.getElem?_eq_getElem hlen, List.mem_take_iff_getElem]
    exact ⟨k, lt_min hk hlen, rfl⟩
  · rw [not_lt] at hlen
    exact .inr ⟨hlen, by rw [List.getElem?_eq_none hlen]; rfl⟩

/-- The page stack of `vmm_new_pagemap` after its first two allocations. -/
lemma secondPage_stack {pm : ℕ} (hinit : s.pmmInitialized)
    (hu : clearPage (vmmAllocpage s).2 pm = u) : (vmmAllocpage u).2.pmmStack = s.pmmStack.drop 2 := by
  obtain ⟨hinit_u, hstack_u, -⟩ := firstPage_spec hinit hu
  rw [(vmmAllocpage_getD hinit_u).2, hstack_u, List.drop_drop]

/-- The loop of `vmm_new_pagemap` leaves the page stack alone. -/
lemma copyKernelHalf_stack (s : Vmm) (pageMap i n : ℕ) :
    (copyKernelHalf s pageMap i n).pmmStack = s.pmmStack := by
  induction n generalizing s i with
  | zero => rfl
  | succ n ih =>
    rw [copyKernelHalf]
    exact ih _ _

/-- A call of `vmm_new_pagemap` that does not return `NULL` pops three pages. -/
lemma vmmNewPagemap_stack (hinit : s.pmmInitialized) (hne : (vmmNewPagemap s).1 ≠ 0) :
    (vmmNewPagemap s).2.pmmStack = s.pmmStack.drop 3 := by
  generalize hpm : physicalToVirtual s (s.pmmStack.getD 0 0) = pm
  generalize hu : clearPage (vmmAllocpage s).2 pm = u
  have hinit_u := (firstPage_spec hinit hu).1
  have hstack : (newTopLevel u pm).pmmStack = s.pmmStack.drop 2 := secondPage_stack hinit hu
  rw [vmmNewPagemap_tests hinit hpm hu] at hne ⊢
  split_ifs at hne ⊢
  · exact absurd rfl hne
  · exact absurd rfl hne
  · exact absurd rfl hne
  · rw [copyKernelHalf_stack]
    have hinit_x : (newTopLevel u pm).pmmInitialized := (vmmAllocpage_initialized u).trans hinit_u
    change (vmmAllocpage (newTopLevel u pm)).2.pmmStack = _
    rw [(vmmAllocpage_getD hinit_x).2, hstack, List.drop_drop]

/-! ### The pages a page map takes -/

/-- An allocation from a page stack without page `0` does not fail unless the stack is empty. -/
lemma vmmAllocpage_supply (hinit : s.pmmInitialized) (hout : s.outOfPages = false)
    (hzero : 0 ∉ s.pmmStack) (hne : s.pmmStack ≠ []) :
    (vmmAllocpage s).2.outOfPages = false ∧ (vmmAllocpage s).2.pmmStack = s.pmmStack.drop 1 := by
  obtain ⟨page, rest, hstack⟩ := List.exists_cons_of_ne_nil hne
  obtain ⟨-, hrest, hout'⟩ := vmmAllocpage_cons hinit hstack
  rw [hstack] at hzero
  refine ⟨?_, by rw [hrest, hstack, List.drop_one, List.tail_cons]⟩
  rw [hout', hout, Bool.false_or, beq_eq_false_iff_ne]
  rintro rfl
  exact hzero List.mem_cons_self

/-- No allocation has failed yet, and `n` more will not fail. -/
structure Supplied (s : Vmm) (n : ℕ) : Prop where
  initialized : s.pmmInitialized
  outOfPages : s.outOfPages = false
  zero : 0 ∉ s.pmmStack
  enough : n ≤ s.pmmStack.length

/-- An allocation, followed by assignments to memory, takes one of the pages. -/
lemma Supplied.alloc {n : ℕ} (h : Supplied s (n + 1))
    (hinit : s'.pmmInitialized = (vmmAllocpage s).2.pmmInitialized)
    (hout : s'.outOfPages = (vmmAllocpage s).2.outOfPages)
    (hstack : s'.pmmStack = (vmmAllocpage s).2.pmmStack) : Supplied s' n := by
  have hlen := h.enough
  obtain ⟨hout', hstack'⟩ := vmmAllocpage_supply h.initialized h.outOfPages h.zero
    (List.ne_nil_of_length_pos (by omega))
  rw [hstack'] at hstack
  refine ⟨?_, hout.trans hout', fun hmem => h.zero ?_, ?_⟩
  · rw [hinit, vmmAllocpage_initialized]
    exact h.initialized
  · rw [hstack] at hmem
    exact List.mem_of_mem_drop hmem
  · rw [hstack, List.length_drop]
    omega

/-- Three pages are enough for the kernel page map. -/
lemma createKernelPagemap_supply (hinit : s.pmmInitialized) (hout : s.outOfPages = false)
    (hzero : 0 ∉ s.pmmStack) (hlen : 3 ≤ s.pmmStack.length) :
    (createKernelPagemap s).outOfPages = false := by
  rw [createKernelPagemap_eq]
  have hsup : Supplied s 3 := ⟨hinit, hout, hzero, hlen⟩
  have hsup₁ : Supplied (newKernelStruct s) 2 := hsup.alloc rfl rfl rfl
  generalize newKernelStruct s = s₁ at *
  have hsup₂ : Supplied (newTopLevel s₁ s₁.vmmKernelPagemap) 1 := hsup₁.alloc rfl rfl rfl
  generalize newTopLevel s₁ s₁.vmmKernelPagemap = s₂ at *
  have hsup₃ : Supplied (newVmaHead s₂ s₁.vmmKernelPagemap) 0 := hsup₂.alloc rfl rfl rfl
  exact hsup₃.outOfPages

/-- Three pages are enough for a new page map, unless the direct map takes one of them to `NULL`. -/
lemma vmmNewPagemap_supply (h : PageSupply s) (hout : s.outOfPages = false) (hzero : 0 ∉ s.pmmStack)
    (hnull : ∀ p ∈ s.pmmStack, wadd p s.hhdmOff ≠ 0) (hlen : 3 ≤ s.pmmStack.length) :
    (vmmNewPagemap s).2.outOfPages = false ∧ (vmmNewPagemap s).1 ≠ 0 ∧
      (vmmNewPagemap s).2.pmmStack = s.pmmStack.drop 3 := by
  have hne : (vmmNewPagemap s).1 ≠ 0 := by
    rw [Ne, vmmNewPagemap_null_iff h.initialized]
    rintro ⟨k, hk, hk0⟩
    rcases getD_of_lt_three s.pmmStack hk with hmem | ⟨hend, -⟩
    · exact hnull _ (List.mem_of_mem_take hmem) hk0
    · omega
  refine ⟨?_, hne, vmmNewPagemap_stack h.initialized hne⟩
  generalize hpm : physicalToVirtual s (s.pmmStack.getD 0 0) = pm
  generalize hu : clearPage (vmmAllocpage s).2 pm = u
  rw [vmmNewPagemap_tests h.initialized hpm hu] at hne ⊢
  -- the three allocations
  have hsup : Supplied s 3 := ⟨h.initialized, hout, hzero, hlen⟩
  have hsup_u : Supplied u 2 := by
    rw [← hu]
    exact hsup.alloc rfl rfl rfl
  have hsup_x : Supplied (newTopLevel u pm) 1 := hsup_u.alloc rfl rfl rfl
  have hsup_y : Supplied (newVmaHead (newTopLevel u pm) pm) 0 := hsup_x.alloc rfl rfl rfl
  split_ifs at hne ⊢
  · exact absurd rfl hne
  · exact absurd rfl hne
  · exact absurd rfl hne
  · rw [copyKernelHalf_outOfPages]
    exact hsup_y.outOfPages

end Soaplin

import Soaplin.Memory.PagemapPages

/-!
# `vmm_new_pagemap` without pages

`vmm_new_pagemap` tests each of its three pages for `NULL` and gives back what it has taken when a
test fails.  The tests are made on `PHYSICAL_TO_VIRTUAL` of the page, so they ask whether the direct
map takes the page to `NULL` (`vmmNewPagemap_null_iff`).  With `hhdm_off` zero this is a
failed allocation, and the stack and the counters are restored; otherwise a failed allocation passes
the tests.
-/

namespace Soaplin

open ByteMemory Word64

variable {s u : Vmm} {a t : ℕ} {rest : List ℕ}

/-- What a caller of `vmm_new_pagemap` expects of a call in the state `s`: it returns `NULL` exactly
when fewer than three pages are available; then the page stack, the counters and the memory outside
the pages of the stack are as before; otherwise three distinct pages are popped. -/
structure NewPagemapClean (s : Vmm) : Prop where
  null_iff : (vmmNewPagemap s).1 = 0 ↔ s.pmmStack.length < 3
  stack : s.pmmStack.length < 3 → (vmmNewPagemap s).2.pmmStack = s.pmmStack
  counters : s.pmmStack.length < 3 → (vmmNewPagemap s).2.pmmFreeMem = s.pmmFreeMem ∧
    (vmmNewPagemap s).2.pmmUsedMem = s.pmmUsedMem ∧
    (vmmNewPagemap s).2.pmmTotalMem = s.pmmTotalMem
  mem : s.pmmStack.length < 3 → ∀ x, (∀ p ∈ s.pmmStack, ¬ InPage p x) →
    (vmmNewPagemap s).2.mem x = s.mem x
  popped : 3 ≤ s.pmmStack.length → ∃ a t v, [a, t, v].Nodup ∧
    s.pmmStack = a :: t :: v :: (vmmNewPagemap s).2.pmmStack

/-! ### A page that is lost -/

/-- With fewer than three pages on the page stack, one that the direct map takes to `NULL` is not
given back. -/
lemma vmmNewPagemap_lost (hinit : s.pmmInitialized) (hlen : s.pmmStack.length < 3) {p : ℕ}
    (hp : p ∈ s.pmmStack) (hnull : physicalToVirtual s p = 0) :
    (vmmNewPagemap s).2.pmmStack.length < s.pmmStack.length := by
  have hpos : 0 < s.pmmStack.length := List.length_pos_of_mem hp
  rw [vmmNewPagemap_tests hinit rfl rfl]
  by_cases h₀ : physicalToVirtual s (s.pmmStack.getD 0 0) = 0
  · rw [if_pos h₀, (vmmAllocpage_getD hinit).2, List.length_drop]
    omega
  -- the page is the second of two
  obtain ⟨a, hstack⟩ : ∃ a, s.pmmStack = [a, p] := by
    match hstack : s.pmmStack, hlen with
    | [], _ => simp [hstack] at hp
    | [b], _ =>
      rw [hstack, List.mem_singleton] at hp
      rw [hstack, ← hp] at h₀
      exact absurd hnull h₀
    | [b, c], _ =>
      rw [hstack, List.mem_cons, List.mem_singleton] at hp
      rcases hp with rfl | rfl
      · rw [hstack] at h₀
        exact absurd hnull h₀
      · exact ⟨b, rfl⟩
  have h₁ : physicalToVirtual s (s.pmmStack.getD 1 0) = 0 := by
    rw [hstack]
    exact hnull
  rw [if_neg h₀, if_pos h₁]
  generalize hu : clearPage (vmmAllocpage s).2 (physicalToVirtual s (s.pmmStack.getD 0 0)) = u
  have htop : (setFreshTop u (physicalToVirtual s (s.pmmStack.getD 0 0))).pmmStack =
      s.pmmStack.drop 2 := secondPage_stack hinit hu
  generalize setFreshTop u (physicalToVirtual s (s.pmmStack.getD 0 0)) = w at *
  have hempty : w.pmmStack.length = 0 := by rw [htop, hstack]; rfl
  rcases vmmFreepage_stack w (virtualToPhysical s (physicalToVirtual s (s.pmmStack.getD 0 0)))
    with heq | heq
  · rw [heq, hempty]
    exact hpos
  · rw [heq, List.length_cons, hempty, hstack]
    exact Nat.one_lt_two

/-! ### The pages are given back -/

/-- The page stack fits into its array, and the counters are of type `uint64_t`. -/
structure PmmFits (s : Pmm) : Prop where
  stack : s.pmmStack.length ≤ stackSize
  free : s.pmmFreeMem < modulus
  used : s.pmmUsedMem < modulus

/-- Freeing the page that was popped last undoes the allocation, whatever has been written to memory
in between. -/
lemma pmmFreepage_allocpage {s : Pmm} (hfits : PmmFits s) (hinit : s.pmmInitialized)
    (hstack : s.pmmStack = a :: rest) (m : Memory) :
    pmmFreepage { (pmmAllocpage s).2 with mem := m } a = { s with mem := m } := by
  have hlen : rest.length ≠ stackSize := by
    have := hfits.stack
    rw [hstack, List.length_cons] at this
    omega
  have halloc : (pmmAllocpage s).2 = { s with
      pmmFreeMem := wsub s.pmmFreeMem pmmBlockSize
      pmmUsedMem := wadd s.pmmUsedMem pmmBlockSize
      pmmStack := rest } := by
    simp [pmmAllocpage, hinit, hstack]
  rw [halloc, pmmFreepage, if_neg (by simp [hinit]), if_neg hlen]
  simp only [wadd_wsub_cancel _ hfits.free, wsub_wadd_cancel _ hfits.used, hstack]

/-- After an allocation the page stack and the counters still fit. -/
lemma PmmFits.allocpage {s : Pmm} (h : PmmFits s) (hinit : s.pmmInitialized) :
    PmmFits (pmmAllocpage s).2 := by
  refine ⟨?_, ?_, ?_⟩
  · rw [pmmAllocpage_stack hinit, List.length_tail]
    exact (Nat.sub_le _ _).trans h.stack
  · unfold pmmAllocpage
    split_ifs
    · exact h.free
    · split
      · exact h.free
      · exact wsub_lt _ _
  · unfold pmmAllocpage
    split_ifs
    · exact h.used
    · split
      · exact h.used
      · exact wadd_lt _ _

/-- The state of the page allocator is `t`, except that bytes of the pages `P` may differ. -/
structure Wrote (P : List ℕ) (t : Pmm) (s : Vmm) : Prop where
  pmm : s.toPmm = { t with mem := s.mem }
  mem : ∀ x, (∀ p ∈ P, ¬ InPage p x) → s.mem x = t.mem x

/-- An allocation does not depend on the contents of memory. -/
lemma pmmAllocpage_withMem (t : Pmm) (m : Memory) :
    (pmmAllocpage { t with mem := m }).2 = { (pmmAllocpage t).2 with mem := m } := by
  obtain ⟨_, stack, _, _ | _, _, _, _⟩ := t
  · rfl
  · cases stack with
    | nil => rfl
    | cons page rest => rfl

namespace Wrote

variable {P : List ℕ} {p : Pmm} {s' : Vmm}

lemma refl (P : List ℕ) (s : Vmm) : Wrote P s.toPmm s := ⟨rfl, fun _ _ => rfl⟩

/-- An allocation, followed by assignments inside the pages `P`. -/
lemma alloc (h : Wrote P p s) (hpmm : s'.toPmm = { (vmmAllocpage s).2.toPmm with mem := s'.mem })
    (hmem : ∀ x, (∀ q ∈ P, ¬ InPage q x) → s'.mem x = s.mem x) :
    Wrote P (pmmAllocpage p).2 s' := by
  refine ⟨?_, fun x hx => ?_⟩
  · have hsame : (vmmAllocpage s).2.toPmm = { (pmmAllocpage p).2 with mem := s.mem } := by
      change (pmmAllocpage s.toPmm).2 = _
      rw [h.pmm]
      exact pmmAllocpage_withMem p s.mem
    rw [hpmm, hsame]
  · rw [hmem x hx, h.mem x hx, pmmAllocpage_mem]

/-- Freeing the page that was popped last. -/
lemma freepage (h : Wrote P (pmmAllocpage p).2 s) (hfits : PmmFits p) (hinit : p.pmmInitialized)
    (hstack : p.pmmStack = a :: rest) : Wrote P p (vmmFreepage s a) := by
  have hfree : pmmFreepage s.toPmm a = { p with mem := s.mem } := by
    rw [h.pmm]
    exact pmmFreepage_allocpage hfits hinit hstack s.mem
  have hmem : (vmmFreepage s a).mem = s.mem := pmmFreepage_mem s.toPmm a
  refine ⟨by rw [hmem]; exact hfree, fun x hx => ?_⟩
  rw [hmem, h.mem x hx, pmmAllocpage_mem]

end Wrote

/-- The state after the first page of `vmm_new_pagemap` is popped and cleared. -/
lemma wrote_first (h : PageSupply s) (hstack : s.pmmStack = a :: rest) :
    Wrote s.pmmStack (pmmAllocpage s.toPmm).2 (clearPage (vmmAllocpage s).2 (wadd a s.hhdmOff)) :=
  (Wrote.refl s.pmmStack s).alloc rfl (scratched_first h hstack).2.mem

/-- The branch of the second test, when the page of the structure was the only one. -/
lemma wrote_noTop (h : PageSupply s) (hfits : PmmFits s.toPmm) (hstack : s.pmmStack = [a])
    (hu : clearPage (vmmAllocpage s).2 (wadd a s.hhdmOff) = u) :
    Wrote s.pmmStack s.toPmm (vmmFreepage (setFreshTop u (wadd a s.hhdmOff)) a) := by
  have hmem : a ∈ s.pmmStack := by rw [hstack]; exact List.mem_singleton_self a
  have hfirst := wrote_first h hstack
  rw [hu] at hfirst
  have hempty : (pmmAllocpage (pmmAllocpage s.toPmm).2).2 = (pmmAllocpage s.toPmm).2 := by
    rw [pmmAllocpage_nil]
    rw [pmmAllocpage_stack h.initialized, hstack]
    rfl
  have hhdm : u.hhdmOff = s.hhdmOff := by rw [← hu]; rfl
  have htop : Wrote s.pmmStack (pmmAllocpage s.toPmm).2 (setFreshTop u (wadd a s.hhdmOff)) := by
    rw [← hempty, ← hhdm]
    exact hfirst.alloc rfl fun x hx => setFreshTop_mem_of_notInPage (h.stack a hmem) (hx a hmem)
  exact htop.freepage hfits h.initialized hstack

/-- The state after the second page is popped and cleared: the field `topLevel` refers to it, and
nothing outside the two pages has changed. -/
lemma secondPage_spec (h : PageSupply s) (hstack : s.pmmStack = a :: t :: rest)
    (hu : clearPage (vmmAllocpage s).2 (wadd a s.hhdmOff) = u) :
    load64 (newTopLevel u (wadd a s.hhdmOff)).mem a = wadd t s.hhdmOff ∧
      ∀ x, ¬ InPage a x → ¬ InPage t x → (newTopLevel u (wadd a s.hhdmOff)).mem x = u.mem x := by
  have hat : a ≠ t := by
    have hnodup := h.nodup
    rw [hstack, List.nodup_cons] at hnodup
    rintro rfl
    exact hnodup.1 List.mem_cons_self
  obtain ⟨hinit_u, hstack_u, hhdm_u⟩ := firstPage_spec h.initialized hu
  rw [hstack] at hstack_u
  rw [← hhdm_u]
  obtain ⟨-, -, hfield, -, hframe⟩ := newTopLevel_spec hinit_u hstack_u
    (h.stack a (by rw [hstack]; exact List.mem_cons_self)) (h.stack t (by rw [hstack]; simp)) hat
  exact ⟨hfield, hframe⟩

/-- In the branch of the third test the field `topLevel` still refers to the second page. -/
lemma topLevel_noHead (h : PageSupply s) (hstack : s.pmmStack = a :: t :: rest)
    (hu : clearPage (vmmAllocpage s).2 (wadd a s.hhdmOff) = u) :
    virtualToPhysical s (pagemapTopLevel
      (setFreshHead (newTopLevel u (wadd a s.hhdmOff)) (wadd a s.hhdmOff)) (wadd a s.hhdmOff)) =
      t := by
  have ha : PhysPage a := h.stack a (by rw [hstack]; exact List.mem_cons_self)
  have ht : PhysPage t := h.stack t (by rw [hstack]; simp)
  obtain ⟨hfield, -⟩ := secondPage_spec h hstack hu
  have hhdm : (newTopLevel u (wadd a s.hhdmOff)).hhdmOff = s.hhdmOff :=
    (firstPage_spec h.initialized hu).2.2
  generalize newTopLevel u (wadd a s.hhdmOff) = x at *
  rw [virtualToPhysical]
  rw [← hhdm] at hfield ⊢
  exact topLevel_setFreshHead ha ht hfield

/-- The branch of the third test, when there were only the pages of the structure and of the
top-level table. -/
lemma wrote_noHead (h : PageSupply s) (hfits : PmmFits s.toPmm) (hstack : s.pmmStack = [a, t])
    (hu : clearPage (vmmAllocpage s).2 (wadd a s.hhdmOff) = u) :
    Wrote s.pmmStack s.toPmm (vmmFreepage
      (vmmFreepage (setFreshHead (newTopLevel u (wadd a s.hhdmOff)) (wadd a s.hhdmOff)) t) a) := by
  have hmem : a ∈ s.pmmStack ∧ t ∈ s.pmmStack := by rw [hstack]; simp
  have hinit₁ : (pmmAllocpage s.toPmm).2.pmmInitialized :=
    (pmmAllocpage_initialized s.toPmm).trans h.initialized
  have hstack₁ : (pmmAllocpage s.toPmm).2.pmmStack = [t] := by
    rw [pmmAllocpage_stack h.initialized, hstack]
    rfl
  have hempty : (pmmAllocpage (pmmAllocpage (pmmAllocpage s.toPmm).2).2).2 =
      (pmmAllocpage (pmmAllocpage s.toPmm).2).2 := by
    rw [pmmAllocpage_nil]
    rw [pmmAllocpage_stack hinit₁, hstack₁]
    rfl
  -- the top-level table
  have hfirst := wrote_first h hstack
  rw [hu] at hfirst
  have htop : Wrote s.pmmStack (pmmAllocpage (pmmAllocpage s.toPmm).2).2
      (newTopLevel u (wadd a s.hhdmOff)) := by
    obtain ⟨-, hframe⟩ := secondPage_spec h hstack hu
    exact hfirst.alloc rfl fun x hx => hframe x (hx a hmem.1) (hx t hmem.2)
  -- the head of the area list
  have hhdm : (newTopLevel u (wadd a s.hhdmOff)).hhdmOff = s.hhdmOff :=
    (firstPage_spec h.initialized hu).2.2
  have hhead : Wrote s.pmmStack (pmmAllocpage (pmmAllocpage s.toPmm).2).2
      (setFreshHead (newTopLevel u (wadd a s.hhdmOff)) (wadd a s.hhdmOff)) := by
    rw [← hempty]
    refine htop.alloc rfl fun x hx => ?_
    generalize newTopLevel u (wadd a s.hhdmOff) = y at *
    rw [← hhdm]
    exact setFreshHead_mem_of_notInPage (h.stack a hmem.1) (hx a hmem.1)
  exact (hhead.freepage (hfits.allocpage h.initialized) hinit₁ hstack₁).freepage hfits h.initialized
    hstack

/-! ### Every call -/

/-- The tests of `vmm_new_pagemap` when the first page is `a`. -/
lemma vmmNewPagemap_tests_cons (h : PageSupply s) (hstack : s.pmmStack = a :: rest)
    (ha : physicalToVirtual s a ≠ 0) (hu : clearPage (vmmAllocpage s).2 (wadd a s.hhdmOff) = u) :
    vmmNewPagemap s =
      if physicalToVirtual s (s.pmmStack.getD 1 0) = 0 then
        (0, vmmFreepage (setFreshTop u (wadd a s.hhdmOff)) a)
      else if physicalToVirtual s (s.pmmStack.getD 2 0) = 0 then
        (0, vmmFreepage
          (vmmFreepage (setFreshHead (newTopLevel u (wadd a s.hhdmOff)) (wadd a s.hhdmOff))
            (virtualToPhysical s (pagemapTopLevel
              (setFreshHead (newTopLevel u (wadd a s.hhdmOff)) (wadd a s.hhdmOff))
              (wadd a s.hhdmOff)))) a)
      else (wadd a s.hhdmOff, copyKernelHalf
        (newVmaHead (newTopLevel u (wadd a s.hhdmOff)) (wadd a s.hhdmOff))
        (wadd a s.hhdmOff) 256 256) := by
  have hmem : a ∈ s.pmmStack := by rw [hstack]; exact List.mem_cons_self
  have hpm : physicalToVirtual s (s.pmmStack.getD 0 0) = wadd a s.hhdmOff := by rw [hstack]; rfl
  have hback : virtualToPhysical s (wadd a s.hhdmOff) = a :=
    wsub_wadd_cancel _ (h.stack a hmem).lt_modulus
  have hne : wadd a s.hhdmOff ≠ 0 := ha
  rw [vmmNewPagemap_tests h.initialized hpm hu, if_neg hne, hback]

/-- With fewer than three pages, none of which the direct map takes to `NULL`, `vmm_new_pagemap`
undoes what it has done, provided that the direct map takes `NULL` to `NULL`. -/
lemma vmmNewPagemap_undone (h : PageSupply s) (hfits : PmmFits s.toPmm)
    (hlen : s.pmmStack.length < 3) (hpages : ∀ p ∈ s.pmmStack, physicalToVirtual s p ≠ 0)
    (hnull : physicalToVirtual s 0 = 0) :
    Wrote s.pmmStack s.toPmm (vmmNewPagemap s).2 := by
  match hstack : s.pmmStack, hlen with
  | [], _ =>
    have hfirst : s.pmmStack.getD 0 0 = 0 := by rw [hstack]; rfl
    have hsame : (vmmAllocpage s).2.toPmm = s.toPmm := congrArg Prod.snd (pmmAllocpage_nil hstack)
    rw [vmmNewPagemap_tests h.initialized rfl rfl, hfirst, if_pos hnull]
    exact ⟨by rw [hsame], fun x _ => congrFun (vmmAllocpage_mem s) x⟩
  | [a], _ =>
    have ha : physicalToVirtual s a ≠ 0 := hpages a (by rw [hstack]; exact List.mem_singleton_self a)
    have hsecond : s.pmmStack.getD 1 0 = 0 := by rw [hstack]; rfl
    rw [vmmNewPagemap_tests_cons h hstack ha rfl, hsecond, if_pos hnull, ← hstack]
    exact wrote_noTop h hfits hstack rfl
  | [a, t], _ =>
    have hmem : a ∈ s.pmmStack ∧ t ∈ s.pmmStack := by rw [hstack]; simp
    have hsecond : s.pmmStack.getD 1 0 = t := by rw [hstack]; rfl
    have hthird : s.pmmStack.getD 2 0 = 0 := by rw [hstack]; rfl
    rw [vmmNewPagemap_tests_cons h hstack (hpages a hmem.1) rfl, hsecond,
      if_neg (hpages t hmem.2), hthird, if_pos hnull, topLevel_noHead h hstack rfl, ← hstack]
    exact wrote_noHead h hfits hstack rfl

/-- Each of the first three pages is the result of an allocation. -/
lemma exists_getD_of_mem_take {l : List ℕ} {p : ℕ} (hp : p ∈ l.take 3) :
    ∃ k < 3, l.getD k 0 = p := by
  obtain ⟨k, hk, hkp⟩ := List.mem_take_iff_getElem.mp hp
  refine ⟨k, lt_of_lt_of_le hk (min_le_left _ _), ?_⟩
  rw [List.getD_eq_getElem?_getD, List.getElem?_eq_getElem (lt_of_lt_of_le hk (min_le_right _ _)),
    ← hkp]
  rfl

/-- If a call is clean, the direct map takes none of the first three pages to `NULL`. -/
lemma NewPagemapClean.pages (hclean : NewPagemapClean s) (hinit : s.pmmInitialized) :
    ∀ p ∈ s.pmmStack.take 3, physicalToVirtual s p ≠ 0 := by
  intro p hp hnull
  by_cases hlen : s.pmmStack.length < 3
  · have hlost := vmmNewPagemap_lost hinit hlen (List.mem_of_mem_take hp) hnull
    rw [hclean.stack hlen] at hlost
    exact lt_irrefl _ hlost
  · obtain ⟨k, hk, hkp⟩ := exists_getD_of_mem_take hp
    refine hlen (hclean.null_iff.mp ((vmmNewPagemap_null_iff hinit).mpr ⟨k, hk, ?_⟩))
    rw [hkp, hnull]

/-- `vmm_new_pagemap` fails cleanly if and only if the direct map takes none of the first three
pages to `NULL` and, unless there are three of them, takes `NULL` to itself: `hhdm_off` is zero. -/
theorem newPagemap_clean_iff (h : PageSupply s) (hfits : PmmFits s.toPmm) :
    NewPagemapClean s ↔ (∀ p ∈ s.pmmStack.take 3, physicalToVirtual s p ≠ 0) ∧
      (3 ≤ s.pmmStack.length ∨ physicalToVirtual s 0 = 0) := by
  have hnull := vmmNewPagemap_null_iff h.initialized
  constructor
  · intro hclean
    have hpages := hclean.pages h.initialized
    refine ⟨hpages, or_iff_not_imp_left.mpr fun hlen => ?_⟩
    obtain ⟨k, hk, hzero⟩ := hnull.mp (hclean.null_iff.mpr (not_le.mp hlen))
    rcases getD_of_lt_three s.pmmStack hk with hmem | ⟨-, hend⟩
    · exact absurd hzero (hpages _ hmem)
    · rw [hend] at hzero
      exact hzero
  · rintro ⟨hpages, hzero⟩
    by_cases hlen : 3 ≤ s.pmmStack.length
    · -- all three allocations succeed
      have hne : (vmmNewPagemap s).1 ≠ 0 := by
        rw [Ne, hnull]
        rintro ⟨k, hk, hk0⟩
        rcases getD_of_lt_three s.pmmStack hk with hmem | ⟨hend, -⟩
        · exact hpages _ hmem hk0
        · omega
      have hlt : ¬ s.pmmStack.length < 3 := not_lt.mpr hlen
      refine ⟨iff_of_false hne hlt, fun hl => absurd hl hlt, fun hl => absurd hl hlt,
        fun hl => absurd hl hlt, fun _ => ?_⟩
      rw [vmmNewPagemap_stack h.initialized hne]
      match hstack : s.pmmStack, hlen with
      | a :: t :: v :: rest, _ =>
        refine ⟨a, t, v, ?_, rfl⟩
        have hnodup := h.nodup
        rw [hstack] at hnodup
        exact hnodup.sublist (List.take_sublist 3 (a :: t :: v :: rest))
    · -- the first allocation beyond the end of the page stack fails its test
      have hlt : s.pmmStack.length < 3 := not_le.mp hlen
      have hback := hzero.resolve_left hlen
      rw [List.take_of_length_le hlt.le] at hpages
      obtain ⟨hpmm, hmem⟩ := vmmNewPagemap_undone h hfits hlt hpages hback
      have hfail : (vmmNewPagemap s).1 = 0 := by
        refine hnull.mpr ⟨s.pmmStack.length, hlt, ?_⟩
        rw [List.getD_eq_getElem?_getD, List.getElem?_eq_none le_rfl]
        exact hback
      exact ⟨iff_of_true hfail hlt, fun _ => by rw [hpmm], fun _ => by rw [hpmm]; exact ⟨rfl, rfl, rfl⟩,
        fun _ => hmem, fun hl => absurd hl hlen⟩

/-- The page stacks of the examples. -/
lemma pageSupply_freshPageMap {stack : List ℕ} (hnodup : stack.Nodup)
    (hphys : ∀ p ∈ stack, PhysPage p) (hhdmOff : ℕ) :
    PageSupply { freshPageMap stack with hhdmOff := hhdmOff } :=
  ⟨rfl, hnodup, hphys⟩

/-- With three pages a call is clean; with one page it is, when `hhdm_off` is zero. -/
theorem newPagemap_clean_examples :
    NewPagemapClean (freshPageMap [0x3000, 0x4000, 0x5000]) ∧
      NewPagemapClean { freshPageMap [0x3000] with hhdmOff := 0 } := by
  refine ⟨(newPagemap_clean_iff (pageSupply_freshPageMap (by decide) (by decide) _)
    ⟨by decide, by decide, by decide⟩).mpr ⟨?_, .inl le_rfl⟩,
    (newPagemap_clean_iff (pageSupply_freshPageMap (by decide) (by decide) 0)
    ⟨by decide, by decide, by decide⟩).mpr ⟨?_, .inr rfl⟩⟩
  · change ∀ p ∈ [0x3000, 0x4000, 0x5000], wadd p 0xffff800000000000 ≠ 0
    decide
  · change ∀ p ∈ [0x3000], wadd p 0 ≠ 0
    decide

/-- Without any page `vmm_new_pagemap` does not return `NULL`, because `hhdm_off` is added before
the test. -/
theorem newPagemap_not_clean : ¬ NewPagemapClean (freshPageMap []) := by
  intro hclean
  obtain ⟨k, -, hnull⟩ := (vmmNewPagemap_null_iff (s := freshPageMap []) rfl).mp
    (hclean.null_iff.mpr (by decide))
  change wadd ([].getD k 0) 0xffff800000000000 = 0 at hnull
  rw [List.getD_nil] at hnull
  exact absurd hnull (by decide)

end Soaplin

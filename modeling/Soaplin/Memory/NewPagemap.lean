import Soaplin.Memory.Translation

/-!
# Making a page map

`vmm_init` and `vmm_new_pagemap` make a page map out of three pages: one for its structure, one for
the top-level table and one for the head of the area list.  The effect of each of the three steps is
a lemma about the state after it.  The results are that `createKernelPagemap` leaves an empty page
map, and that `vmm_new_pagemap` keeps the page maps there are and adds one whose upper half refers
to the tables of the kernel page map.
-/

namespace Soaplin

open ByteMemory Word64 RadixForest TransitionTrace

variable {s s' : Vmm} {a t v page : ℕ} {rest : List ℕ}

/-! ### One page -/

/-- The page `page` has been popped from the page stack, and the other variables of the memory
manager are as before; the memory may have changed. -/
structure Popped (s s' : Vmm) (page : ℕ) (rest : List ℕ) : Prop where
  before : s.pmmStack = page :: rest
  after : s'.pmmStack = rest
  initialized : s'.pmmInitialized = s.pmmInitialized
  hhdmOff : s'.hhdmOff = s.hhdmOff
  kernelPhysAddr : s'.kernelPhysAddr = s.kernelPhysAddr
  kernelVirtAddr : s'.kernelVirtAddr = s.kernelVirtAddr
  outOfPages : s'.outOfPages = (s.outOfPages || page == 0)

/-- An allocation pops a page. -/
lemma popped_vmmAllocpage (hinit : s.pmmInitialized) (hstack : s.pmmStack = page :: rest) :
    (vmmAllocpage s).1 = page ∧ Popped s (vmmAllocpage s).2 page rest := by
  obtain ⟨hfst, hrest, hout⟩ := vmmAllocpage_cons hinit hstack
  exact ⟨hfst, hstack, hrest, vmmAllocpage_initialized s, rfl, rfl, rfl, hout⟩

/-- The page stack of a memory manager: distinct physical pages. -/
structure PageSupply (s : Vmm) : Prop where
  initialized : s.pmmInitialized
  nodup : s.pmmStack.Nodup
  stack : ∀ p ∈ s.pmmStack, PhysPage p

/-- The page that is popped is a physical page, different from those that remain, which are a page
supply again. -/
lemma Popped.supply (hp : Popped s s' page rest) (h : PageSupply s) :
    PhysPage page ∧ page ∉ rest ∧ PageSupply s' := by
  have hnodup := h.nodup
  rw [hp.before, List.nodup_cons] at hnodup
  refine ⟨h.stack page (by rw [hp.before]; exact List.mem_cons_self), hnodup.1,
    by rw [hp.initialized]; exact h.initialized, by rw [hp.after]; exact hnodup.2, fun p hp' => ?_⟩
  rw [hp.after] at hp'
  exact h.stack p (by rw [hp.before]; exact List.mem_cons_of_mem _ hp')

/-- The bytes of a page. -/
def InPage (page x : ℕ) : Prop := page ≤ x ∧ x < page + pageSize

/-- A byte lies in one page only. -/
lemma InPage.eq {b x : ℕ} (ha : a % pageSize = 0) (hb : b % pageSize = 0) (hax : InPage a x)
    (hbx : InPage b x) : a = b := by
  simp only [InPage, pageSize] at *
  omega

/-! ### The three pages of a page map -/

/-- The top-level table of the page map `pm`: `pm->topLevel` is set to a fresh page, which is
cleared. -/
def newTopLevel (s : Vmm) (pm : ℕ) : Vmm :=
  let u := (vmmAllocpage s).2
  let w := setPagemapTopLevel u pm (physicalToVirtual u (vmmAllocpage s).1)
  clearPage w (pagemapTopLevel w pm)

/-- `pm->vmaHead` is linked to itself. -/
def linkVmaHead (s : Vmm) (pm : ℕ) : Vmm :=
  let y := setVmaNext s (pagemapVmaHead s pm) (pagemapVmaHead s pm)
  setVmaPrev y (pagemapVmaHead y pm) (pagemapVmaHead y pm)

/-- `pm->vmaHead` is set to `v` and its page cleared. -/
def clearVmaHead (s : Vmm) (pm v : ℕ) : Vmm :=
  let w := setPagemapVmaHead s pm v
  clearPage w (pagemapVmaHead w pm)

/-- The head of the area list of the page map `pm`: `pm->vmaHead` is set to a fresh page, which is
cleared and linked to itself. -/
def newVmaHead (s : Vmm) (pm : ℕ) : Vmm :=
  let u := (vmmAllocpage s).2
  linkVmaHead (clearVmaHead u pm (physicalToVirtual u (vmmAllocpage s).1)) pm

/-- A physical page ends inside the address space. -/
lemma PhysPage.add_lt (h : PhysPage a) {k : ℕ} (hk : k < pageSize) : a + k < modulus := by
  obtain ⟨-, hlt⟩ := h
  simp only [pageSize, modulus] at *
  omega

/-- A word written through the direct map, at an offset in a page. -/
lemma writeWord_mem (s : Vmm) (ha : PhysPage a) {k : ℕ} (hk : k < pageSize) (x : ℕ) :
    (writeWord s (wadd (wadd a s.hhdmOff) k) x).mem = store64 s.mem (a + k) x := by
  change store64 s.mem (wsub (wadd (wadd a s.hhdmOff) k) s.hhdmOff) x = _
  rw [wsub_wadd_wadd _ (ha.add_lt hk)]

/-- A word written through the direct map, at the start of a page. -/
lemma writeWord_mem_zero (s : Vmm) (ha : PhysPage a) (x : ℕ) :
    (writeWord s (wadd a s.hhdmOff) x).mem = store64 s.mem a x := by
  change store64 s.mem (wsub (wadd a s.hhdmOff) s.hhdmOff) x = _
  rw [wsub_wadd_cancel _ ha.lt_modulus]

/-- A word read through the direct map, at an offset in a page. -/
lemma readWord_eq (s : Vmm) (ha : PhysPage a) {k : ℕ} (hk : k < pageSize) :
    readWord s (wadd (wadd a s.hhdmOff) k) = load64 s.mem (a + k) := by
  change load64 s.mem (wsub (wadd (wadd a s.hhdmOff) k) s.hhdmOff) = _
  rw [wsub_wadd_wadd _ (ha.add_lt hk)]

/-- A store inside a page leaves the bytes outside the page alone. -/
lemma store64_apply_of_notInPage {m : Memory} {k x y : ℕ} (hk : k + 8 ≤ pageSize)
    (hx : ¬ InPage a x) : store64 m (a + k) y x = m x := by
  refine store64_apply_of_disjoint ?_
  simp only [InPage] at hx
  omega

/-- Clearing a page leaves the bytes outside the page alone. -/
lemma memset_apply_of_notInPage {m : Memory} {x : ℕ} (hx : ¬ InPage a x) :
    memset m a 0 pageSize x = m x := by
  exact (memset_apply m a 0 pageSize x).trans (if_neg hx)

/-- A word inside one page is not affected by clearing another. -/
lemma load64_memset_of_ne {m : Memory} {k : ℕ} (ha : PhysPage a) (ht : PhysPage t) (hne : a ≠ t)
    (hk : k + 8 ≤ pageSize) : load64 (memset m t 0 pageSize) (a + k) = load64 m (a + k) := by
  refine load64_congr fun x hx hx' => memset_apply_of_notInPage fun hxt => hne ?_
  exact InPage.eq ha.1 ht.1 ⟨by omega, by omega⟩ hxt

/-- The step for the top-level table: the field refers to it, it is empty, and nothing outside the
two pages changes. -/
lemma newTopLevel_spec (hinit : s.pmmInitialized) (hstack : s.pmmStack = t :: rest)
    (ha : PhysPage a) (ht : PhysPage t) (hne : a ≠ t) :
    Popped s (newTopLevel s (wadd a s.hhdmOff)) t rest ∧
      (newTopLevel s (wadd a s.hhdmOff)).vmmKernelPagemap = s.vmmKernelPagemap ∧
      load64 (newTopLevel s (wadd a s.hhdmOff)).mem a = wadd t s.hhdmOff ∧
      (∀ x, InPage t x → (newTopLevel s (wadd a s.hhdmOff)).mem x = 0) ∧
      (∀ x, ¬ InPage a x → ¬ InPage t x → (newTopLevel s (wadd a s.hhdmOff)).mem x = s.mem x) := by
  obtain ⟨hfst, hpop⟩ := popped_vmmAllocpage hinit hstack
  have hmem : (newTopLevel s (wadd a s.hhdmOff)).mem =
      memset (store64 s.mem a (wadd t s.hhdmOff)) t 0 pageSize := by
    have hset := writeWord_mem_zero (vmmAllocpage s).2 ha (wadd t s.hhdmOff)
    rw [vmmAllocpage_mem] at hset
    have htop : pagemapTopLevel (setPagemapTopLevel (vmmAllocpage s).2 (wadd a s.hhdmOff)
        (wadd t s.hhdmOff)) (wadd a s.hhdmOff) = wadd t s.hhdmOff :=
      load64_store64_same (wadd_lt _ _)
    rw [newTopLevel, hfst]
    change (clearPage (setPagemapTopLevel (vmmAllocpage s).2 (wadd a s.hhdmOff) (wadd t s.hhdmOff))
      (pagemapTopLevel (setPagemapTopLevel (vmmAllocpage s).2 (wadd a s.hhdmOff)
        (wadd t s.hhdmOff)) (wadd a s.hhdmOff))).mem = _
    rw [htop, ← hset]
    exact clearPage_mem _ ht.lt_modulus
  refine ⟨⟨hpop.before, hpop.after, hpop.initialized, rfl, rfl, rfl, hpop.outOfPages⟩, rfl, ?_,
    fun x hx => ?_, fun x hxa hxt => ?_⟩
  · have hload := load64_memset_of_ne (m := store64 s.mem a (wadd t s.hhdmOff)) (k := 0) ha ht hne
      (by decide)
    rw [hmem]
    exact hload.trans (load64_store64_same (wadd_lt _ _))
  · rw [hmem]
    exact (memset_apply _ t 0 pageSize x).trans (if_pos hx)
  · rw [hmem, memset_apply_of_notInPage hxt]
    exact store64_apply_of_notInPage (k := 0) (by decide) hxa

/-- The memory after the head of the area list is set and cleared. -/
lemma clearVmaHead_mem (s : Vmm) (ha : PhysPage a) (hv : PhysPage v) :
    (clearVmaHead s (wadd a s.hhdmOff) (wadd v s.hhdmOff)).mem =
      memset (store64 s.mem (a + 8) (wadd v s.hhdmOff)) v 0 pageSize := by
  have hset := writeWord_mem s ha (k := 8) (by decide) (wadd v s.hhdmOff)
  have hhead : pagemapVmaHead (setPagemapVmaHead s (wadd a s.hhdmOff) (wadd v s.hhdmOff))
      (wadd a s.hhdmOff) = wadd v s.hhdmOff := load64_store64_same (wadd_lt _ _)
  rw [clearVmaHead, hhead, ← hset]
  exact clearPage_mem _ hv.lt_modulus

/-- The memory after the head of the area list is linked to itself. -/
lemma linkVmaHead_mem (s : Vmm) (ha : PhysPage a) (hv : PhysPage v) (hne : a ≠ v)
    (hhead : load64 s.mem (a + 8) = wadd v s.hhdmOff) :
    (linkVmaHead s (wadd a s.hhdmOff)).mem =
      store64 (store64 s.mem (v + 48) (wadd v s.hhdmOff)) (v + 56) (wadd v s.hhdmOff) := by
  have hread : pagemapVmaHead s (wadd a s.hhdmOff) = wadd v s.hhdmOff :=
    (readWord_eq s ha (by decide)).trans hhead
  have hnext := writeWord_mem s hv (k := 48) (by decide) (wadd v s.hhdmOff)
  have hread' : pagemapVmaHead (setVmaNext s (wadd v s.hhdmOff) (wadd v s.hhdmOff))
      (wadd a s.hhdmOff) = wadd v s.hhdmOff := by
    refine (readWord_eq (setVmaNext s (wadd v s.hhdmOff) (wadd v s.hhdmOff)) ha
      (by decide)).trans ?_
    rw [setVmaNext, hnext, load64_store64_of_disjoint, hhead]
    rcases page_apart ha.1 hv.1 hne with h | h <;> simp only [pageSize] at h <;> omega
  rw [linkVmaHead, hread, hread', ← hnext]
  exact writeWord_mem _ hv (by decide) _

/-- The step for the area list: nothing outside the field `vmaHead` and the new page changes. -/
lemma newVmaHead_spec (hinit : s.pmmInitialized) (hstack : s.pmmStack = v :: rest)
    (ha : PhysPage a) (hv : PhysPage v) (hne : a ≠ v) :
    Popped s (newVmaHead s (wadd a s.hhdmOff)) v rest ∧
      (newVmaHead s (wadd a s.hhdmOff)).vmmKernelPagemap = s.vmmKernelPagemap ∧
      (∀ x, (x < a + 8 ∨ a + 16 ≤ x) → ¬ InPage v x →
        (newVmaHead s (wadd a s.hhdmOff)).mem x = s.mem x) := by
  obtain ⟨hfst, hpop⟩ := popped_vmmAllocpage hinit hstack
  have hclear := clearVmaHead_mem (vmmAllocpage s).2 ha hv
  rw [vmmAllocpage_mem] at hclear
  have hhead : load64 (clearVmaHead (vmmAllocpage s).2 (wadd a s.hhdmOff) (wadd v s.hhdmOff)).mem
      (a + 8) = wadd v s.hhdmOff := by
    refine (congrArg (load64 · (a + 8)) hclear).trans ?_
    exact (load64_memset_of_ne ha hv hne (by decide)).trans (load64_store64_same (wadd_lt _ _))
  have hlink := linkVmaHead_mem (clearVmaHead (vmmAllocpage s).2 (wadd a s.hhdmOff)
    (wadd v s.hhdmOff)) ha hv hne hhead
  rw [newVmaHead, hfst]
  refine ⟨⟨hpop.before, hpop.after, hpop.initialized, rfl, rfl, rfl, hpop.outOfPages⟩, rfl,
    fun x hxa hxv => ?_⟩
  refine (congrFun hlink x).trans ?_
  rw [store64_apply_of_notInPage (by decide) hxv, store64_apply_of_notInPage (by decide) hxv]
  refine (congrFun hclear x).trans ?_
  rw [memset_apply_of_notInPage hxv]
  exact store64_apply_of_disjoint (by omega)

/-- A failed allocation before an allocation stays recorded. -/
lemma vmmAllocpage_outOfPages (h : (vmmAllocpage s).2.outOfPages = false) :
    s.outOfPages = false :=
  (Bool.or_eq_false_iff.mp h).1

/-- What the two steps leave behind for a page map whose structure is in the page `a`: they pop the
pages `t` and `v`, the top-level table is `t` and empty, and nothing outside the three pages
changes. -/
structure TablesMade (s s' : Vmm) (a t v : ℕ) : Prop where
  stack : s.pmmStack = t :: v :: s'.pmmStack
  supply : PageSupply s'
  top : PhysPage t
  head : PhysPage v
  ne : a ≠ t ∧ a ≠ v ∧ t ≠ v
  hhdmOff : s'.hhdmOff = s.hhdmOff
  kernelPhysAddr : s'.kernelPhysAddr = s.kernelPhysAddr
  kernelVirtAddr : s'.kernelVirtAddr = s.kernelVirtAddr
  kernel : s'.vmmKernelPagemap = s.vmmKernelPagemap
  field : load64 s'.mem a = wadd t s.hhdmOff
  empty : ∀ x, InPage t x → s'.mem x = 0
  frame : ∀ x, ¬ InPage a x → ¬ InPage t x → ¬ InPage v x → s'.mem x = s.mem x

/-- The two steps together, when the pages suffice. -/
theorem tablesMade (h : PageSupply s) (ha : PhysPage a) (hmem : a ∉ s.pmmStack)
    (hsupply : (newVmaHead (newTopLevel s (wadd a s.hhdmOff)) (wadd a s.hhdmOff)).outOfPages =
      false) :
    ∃ t v, TablesMade s (newVmaHead (newTopLevel s (wadd a s.hhdmOff)) (wadd a s.hhdmOff)) a t v := by
  have hsupply₁ : (newTopLevel s (wadd a s.hhdmOff)).outOfPages = false :=
    vmmAllocpage_outOfPages hsupply
  -- the top-level table
  obtain ⟨t, rest₁, hstack₁⟩ := exists_of_vmmAllocpage (s := s) hsupply₁
  have hat : a ≠ t := by
    rintro rfl
    exact hmem (by rw [hstack₁]; exact List.mem_cons_self)
  have ht : PhysPage t := h.stack t (by rw [hstack₁]; exact List.mem_cons_self)
  obtain ⟨hpop₁, hkernel₁, hfield, hzero, hframe₁⟩ :=
    newTopLevel_spec h.initialized hstack₁ ha ht hat
  obtain ⟨-, ht₁, h₁⟩ := hpop₁.supply h
  generalize newTopLevel s (wadd a s.hhdmOff) = s₁ at *
  rw [← hpop₁.hhdmOff] at hsupply ⊢
  -- the area list
  obtain ⟨v, rest₂, hstack₂⟩ := exists_of_vmmAllocpage (s := s₁) hsupply
  have hv : PhysPage v := h₁.stack v (by rw [hstack₂]; exact List.mem_cons_self)
  have hav : a ≠ v := by
    rintro rfl
    rw [hstack₁, ← hpop₁.after, hstack₂] at hmem
    exact hmem (List.mem_cons_of_mem _ List.mem_cons_self)
  have htv : t ≠ v := by
    rintro rfl
    rw [← hpop₁.after, hstack₂] at ht₁
    exact ht₁ List.mem_cons_self
  obtain ⟨hpop₂, hkernel₂, hframe₂⟩ := newVmaHead_spec h₁.initialized hstack₂ ha hv hav
  obtain ⟨-, -, h₂⟩ := hpop₂.supply h₁
  generalize newVmaHead s₁ (wadd a s₁.hhdmOff) = s₂ at *
  refine ⟨t, v, ?_, h₂, ht, hv, ⟨hat, hav, htv⟩, hpop₂.hhdmOff.trans hpop₁.hhdmOff,
    hpop₂.kernelPhysAddr.trans hpop₁.kernelPhysAddr,
    hpop₂.kernelVirtAddr.trans hpop₁.kernelVirtAddr, hkernel₂.trans hkernel₁, ?_, fun x hxt => ?_,
    fun x hxa hxt hxv => ?_⟩
  · rw [hstack₁, ← hpop₁.after, hstack₂, ← hpop₂.after]
  · rw [← hfield]
    refine load64_congr fun x hx hx' => hframe₂ x (.inl hx') fun hxv => hav ?_
    exact InPage.eq ha.1 hv.1 ⟨hx, by simp only [pageSize]; omega⟩ hxv
  · rw [hframe₂ x ?_ fun hxv => htv (InPage.eq ht.1 hv.1 hxt hxv), hzero x hxt]
    by_contra hxa
    refine hat (InPage.eq ha.1 ht.1 ⟨by omega, ?_⟩ hxt)
    simp only [pageSize]
    omega
  · rw [hframe₂ x ?_ hxv, hframe₁ x hxa hxt]
    by_contra hx
    refine hxa ⟨by omega, ?_⟩
    simp only [pageSize]
    omega

namespace TablesMade

/-- The structure of the page map is in the page `a`. -/
lemma virtualToPhysical_eq (ha : PhysPage a) (s : Vmm) :
    virtualToPhysical s (wadd a s.hhdmOff) = a :=
  wsub_wadd_cancel _ ha.lt_modulus

/-- The top-level table of the page map is the page `t`. -/
lemma rootTable_eq (h : TablesMade s s' a t v) (ha : PhysPage a) :
    rootTable s' (wadd a s'.hhdmOff) = t := by
  rw [rootTable, pagemapTopLevel, readWord, virtualToPhysical_eq ha, h.field, ← h.hhdmOff]
  exact wsub_wadd_cancel _ h.top.lt_modulus

/-- All entries of the top-level table are empty. -/
lemma entry_eq_zero (h : TablesMade s s' a t v) (i : Fin 512) :
    tableEntries s'.mem t i = pte.zero := by
  have hi := i.isLt
  refine load64_eq_zero fun x hx hx' => h.empty x ⟨by omega, ?_⟩
  simp only [pageSize]
  omega

/-- The pages that remain are different from the three pages of the page map. -/
lemma notMem (h : TablesMade s s' a t v) (hs : PageSupply s) (hmem : a ∉ s.pmmStack) :
    a ∉ s'.pmmStack ∧ t ∉ s'.pmmStack ∧ v ∉ s'.pmmStack := by
  have hnodup := hs.nodup
  rw [h.stack] at hmem hnodup
  simp only [List.nodup_cons, List.mem_cons, not_or] at hmem hnodup
  exact ⟨hmem.2.2, hnodup.1.2, hnodup.2.1⟩

end TablesMade

/-! ### The kernel page map -/

/-- `createKernelPagemap` after its first page. -/
def newKernelStruct (s : Vmm) : Vmm :=
  let u := (vmmAllocpage s).2
  let w := { u with vmmKernelPagemap := physicalToVirtual u (vmmAllocpage s).1 }
  clearPage w w.vmmKernelPagemap

/-- `createKernelPagemap` in three steps. -/
lemma createKernelPagemap_eq (s : Vmm) :
    createKernelPagemap s = newVmaHead
      (newTopLevel (newKernelStruct s) (newKernelStruct s).vmmKernelPagemap)
      (newKernelStruct s).vmmKernelPagemap := rfl

/-- The step for the structure of the kernel page map. -/
lemma newKernelStruct_spec (hinit : s.pmmInitialized) (hstack : s.pmmStack = a :: rest) :
    Popped s (newKernelStruct s) a rest ∧
      (newKernelStruct s).vmmKernelPagemap = wadd a (newKernelStruct s).hhdmOff := by
  obtain ⟨hfst, hpop⟩ := popped_vmmAllocpage hinit hstack
  refine ⟨⟨hpop.before, hpop.after, hpop.initialized, rfl, rfl, rfl, hpop.outOfPages⟩, ?_⟩
  change wadd (vmmAllocpage s).1 s.hhdmOff = wadd a s.hhdmOff
  rw [hfst]

/-- What `createKernelPagemap` leaves behind when the pages suffice: an empty page map, made out of
the first three pages of the page stack. -/
structure KernelPagemapMade (s s' : Vmm) : Prop where
  /-- Three pages are popped. -/
  stack : ∃ a t v, s.pmmStack = a :: t :: v :: s'.pmmStack
  hhdmOff : s'.hhdmOff = s.hhdmOff
  kernelPhysAddr : s'.kernelPhysAddr = s.kernelPhysAddr
  kernelVirtAddr : s'.kernelVirtAddr = s.kernelVirtAddr
  /-- The kernel page map is the only one. -/
  pageMaps : PageMaps s' [s'.vmmKernelPagemap] (startLabels s' s'.vmmKernelPagemap)
  /-- Its top-level table is empty. -/
  empty : ∀ i, tableEntries s'.mem (rootTable s' s'.vmmKernelPagemap) i = pte.zero

/-- `createKernelPagemap` makes an empty page map. -/
theorem createKernelPagemap_spec (h : PageSupply s)
    (hsupply : (createKernelPagemap s).outOfPages = false) :
    KernelPagemapMade s (createKernelPagemap s) := by
  rw [createKernelPagemap_eq] at hsupply ⊢
  have hsupply₂ : (newTopLevel (newKernelStruct s)
      (newKernelStruct s).vmmKernelPagemap).outOfPages = false := vmmAllocpage_outOfPages hsupply
  have hsupply₁ : (newKernelStruct s).outOfPages = false := vmmAllocpage_outOfPages hsupply₂
  obtain ⟨a, rest₁, hstack₁⟩ := exists_of_vmmAllocpage (s := s) hsupply₁
  obtain ⟨hpop, hkernel⟩ := newKernelStruct_spec h.initialized hstack₁
  obtain ⟨ha, ha₁, h₁⟩ := hpop.supply h
  rw [← hpop.after] at ha₁
  generalize newKernelStruct s = s₁ at *
  rw [hkernel] at hsupply ⊢
  obtain ⟨t, v, hmade⟩ := tablesMade h₁ ha ha₁ hsupply
  generalize newVmaHead (newTopLevel s₁ (wadd a s₁.hhdmOff)) (wadd a s₁.hhdmOff) = s₂ at *
  have hkernel' : s₂.vmmKernelPagemap = wadd a s₂.hhdmOff := by
    rw [hmade.kernel, hkernel, hmade.hhdmOff]
  obtain ⟨ha₂, ht₂, -⟩ := hmade.notMem h₁ ha₁
  have hroot : rootTable s₂ s₂.vmmKernelPagemap = t := by rw [hkernel', hmade.rootTable_eq ha]
  have hempty : ∀ i, tableEntries s₂.mem (rootTable s₂ s₂.vmmKernelPagemap) i = pte.zero := by
    rw [hroot]
    exact hmade.entry_eq_zero
  refine ⟨⟨a, t, v, ?_⟩, hmade.hhdmOff.trans hpop.hhdmOff,
    hmade.kernelPhysAddr.trans hpop.kernelPhysAddr,
    hmade.kernelVirtAddr.trans hpop.kernelVirtAddr, ?_, hempty⟩
  · rw [hstack₁, ← hpop.after, hmade.stack]
  · refine pageMaps_startLabels hmade.supply.initialized hmade.supply.nodup hmade.supply.stack
      (by rw [hroot]; exact hmade.top.1) (by rwa [hroot]) hempty fun p hp => ?_
    have hpa : p % pageSize = 0 ∧ p ≠ a := by
      rcases hp with rfl | hp
      · rw [hroot]
        exact ⟨hmade.top.1, hmade.ne.1.symm⟩
      · refine ⟨(hmade.supply.stack p hp).1, ?_⟩
        rintro rfl
        exact ha₂ hp
    rw [hkernel', TablesMade.virtualToPhysical_eq ha]
    rcases page_apart ha.1 hpa.1 hpa.2.symm with hlt | hlt
    · exact .inl (by simp only [pageSize] at hlt; omega)
    · exact .inr hlt

/-! ### The copy of the upper half -/

/-- The loop of `vmm_new_pagemap` copies from the table `k` to the table `t`, and the structures of
both page maps are outside the table that is written. -/
structure Copying (s : Vmm) (pageMap k t : ℕ) : Prop where
  src : rootTable s s.vmmKernelPagemap = k
  dst : rootTable s pageMap = t
  src_apart : virtualToPhysical s s.vmmKernelPagemap + 8 ≤ t ∨
    t + pageSize ≤ virtualToPhysical s s.vmmKernelPagemap
  dst_apart : virtualToPhysical s pageMap + 8 ≤ t ∨ t + pageSize ≤ virtualToPhysical s pageMap

/-- The field `topLevel`, from the table it refers to. -/
lemma pagemapTopLevel_eq (s : Vmm) (pm : ℕ) : pagemapTopLevel s pm = wadd (rootTable s pm) s.hhdmOff :=
  (wadd_wsub_cancel _ (load64_lt _ _)).symm

/-- A store outside the structure of a page map does not move its top-level table. -/
lemma rootTable_setLevelEntry {pm : ℕ} (i : Fin 512) {x : ℕ} (ht : t % pageSize = 0)
    (htlt : t < modulus)
    (hapart : virtualToPhysical s pm + 8 ≤ t ∨ t + pageSize ≤ virtualToPhysical s pm) :
    rootTable (setLevelEntry s (wadd t s.hhdmOff) i x) pm = rootTable s pm := by
  have hi := i.isLt
  have hload : load64 (setLevelEntry s (wadd t s.hhdmOff) i x).mem (virtualToPhysical s pm) =
      load64 s.mem (virtualToPhysical s pm) := by
    rw [setLevelEntry_mem s ht htlt i x, load64_store64_of_disjoint]
    simp only [pageSize] at hapart
    omega
  change wsub (load64 (setLevelEntry s (wadd t s.hhdmOff) i x).mem (virtualToPhysical s pm))
    s.hhdmOff = _
  rw [hload]
  rfl

/-- The state after the loop has copied `n` entries from entry `i` on. -/
structure Copied (s s' : Vmm) (k t i n : ℕ) : Prop where
  stack : s'.pmmStack = s.pmmStack
  initialized : s'.pmmInitialized = s.pmmInitialized
  hhdmOff : s'.hhdmOff = s.hhdmOff
  kernel : s'.vmmKernelPagemap = s.vmmKernelPagemap
  outOfPages : s'.outOfPages = s.outOfPages
  frame : ∀ x, ¬ InPage t x → s'.mem x = s.mem x
  entries : ∀ j : Fin 512, tableEntries s'.mem t j =
    if i ≤ j ∧ j < i + n then tableEntries s.mem k j else tableEntries s.mem t j

/-- The loop of `vmm_new_pagemap`. -/
lemma copyKernelHalf_spec {pageMap k i n : ℕ} (hk : k % pageSize = 0 ∧ k < modulus)
    (ht : t % pageSize = 0 ∧ t < modulus) (hne : k ≠ t) (hcopy : Copying s pageMap k t)
    (hin : i + n ≤ 512) : Copied s (copyKernelHalf s pageMap i n) k t i n := by
  induction n generalizing s i with
  | zero =>
    refine ⟨rfl, rfl, rfl, rfl, rfl, fun _ _ => rfl, fun j => ?_⟩
    rw [if_neg (by omega)]
    rfl
  | succ n ih =>
    have hlt : i < 512 := by omega
    have hread : levelEntry s (pagemapTopLevel s s.vmmKernelPagemap) i =
        tableEntries s.mem k ⟨i, hlt⟩ := by
      rw [pagemapTopLevel_eq, hcopy.src]
      exact levelEntry_eq s hk.1 hk.2 ⟨i, hlt⟩
    have hstep : copyKernelHalf s pageMap i (n + 1) = copyKernelHalf
        (setLevelEntry s (wadd t s.hhdmOff) i (tableEntries s.mem k ⟨i, hlt⟩)) pageMap (i + 1) n := by
      rw [copyKernelHalf, hread, pagemapTopLevel_eq s pageMap, hcopy.dst]
    have hmem := setLevelEntry_mem s ht.1 ht.2 ⟨i, hlt⟩ (tableEntries s.mem k ⟨i, hlt⟩)
    have hsrc := rootTable_setLevelEntry (x := tableEntries s.mem k ⟨i, hlt⟩) ⟨i, hlt⟩ ht.1 ht.2
      hcopy.src_apart
    have hdst := rootTable_setLevelEntry (x := tableEntries s.mem k ⟨i, hlt⟩) ⟨i, hlt⟩ ht.1 ht.2
      hcopy.dst_apart
    rw [hstep]
    have hrest := ih (s := setLevelEntry s (wadd t s.hhdmOff) i (tableEntries s.mem k ⟨i, hlt⟩))
      (i := i + 1) ⟨hsrc.trans hcopy.src, hdst.trans hcopy.dst, hcopy.src_apart, hcopy.dst_apart⟩
      (by omega)
    refine ⟨hrest.stack, hrest.initialized, hrest.hhdmOff, hrest.kernel, hrest.outOfPages,
      fun x hx => ?_, fun j => ?_⟩
    · rw [hrest.frame x hx]
      refine (congrFun hmem x).trans ?_
      exact store64_apply_of_notInPage (k := 8 * i) (by simp only [pageSize]; omega) hx
    · rw [hrest.entries j]
      have hj : ∀ b, b % pageSize = 0 → b ≠ t ∨ j ≠ ⟨i, hlt⟩ → tableEntries
          (setLevelEntry s (wadd t s.hhdmOff) i (tableEntries s.mem k ⟨i, hlt⟩)).mem b j =
          tableEntries s.mem b j := fun b hb hbj =>
        (congrArg (tableEntries · b j) hmem).trans (tableEntries_store_of_ne ht.1 hb hbj)
      by_cases hij : j = ⟨i, hlt⟩
      · subst hij
        rw [if_neg (by simp), if_pos (by simp)]
        refine (congrArg (tableEntries · t ⟨i, hlt⟩) hmem).trans ?_
        rw [tableEntries_store_same]
        exact Nat.mod_eq_of_lt (load64_lt _ _)
      · have hval : j.val ≠ i := fun h => hij (Fin.ext h)
        rw [hj k hk.1 (.inl hne), hj t ht.1 (.inr hij)]
        by_cases hrange : i + 1 ≤ j.val ∧ j.val < i + 1 + n
        · rw [if_pos hrange, if_pos (by omega)]
        · rw [if_neg hrange, if_neg (by omega)]

/-! ### `vmm_new_pagemap` -/

/-- From `s` to `s'` only pages that were on the page stack have been written, and some of them may
have left it. -/
structure Scratched (s s' : Vmm) : Prop where
  initialized : s'.pmmInitialized = s.pmmInitialized
  hhdmOff : s'.hhdmOff = s.hhdmOff
  kernel : s'.vmmKernelPagemap = s.vmmKernelPagemap
  nodup : s'.pmmStack.Nodup
  stack : ∀ p ∈ s'.pmmStack, p ∈ s.pmmStack
  mem : ∀ x, (∀ p ∈ s.pmmStack, ¬ InPage p x) → s'.mem x = s.mem x

variable {lab : Labels ℕ ℕ (Fin 512)} {pms : List ℕ} {pm : ℕ}

/-- A page stack of a state with page tables is a page supply. -/
lemma PageTables.supply (h : PageTables s lab) : PageSupply s :=
  ⟨h.initialized, h.nodup, fun p hp => (h.stack p hp).1⟩

namespace Scratched

/-- Writing to pages of the page stack is confined to managed pages. -/
lemma confined (h : Scratched s s') (lab : Labels ℕ ℕ (Fin 512)) : Confined s s' lab lab := by
  refine ⟨h.hhdmOff, h.kernel, fun t ht => ht.imp id (h.stack t), fun x hx => h.mem x ?_⟩
  intro p hp hpx
  have := hx p (.inr hp)
  simp only [InPage] at hpx
  omega

/-- The entries of tables in use do not change. -/
lemma tableEntries_eq (h : Scratched s s') (htables : PageTables s lab) (ht : lab t ≠ none)
    (i : Fin 512) : tableEntries s'.mem t i = tableEntries s.mem t i := by
  have hi := i.isLt
  refine load64_congr fun x hx hx' => h.mem x fun p hp hpx => ?_
  obtain ⟨hphys, hfresh⟩ := htables.stack p hp
  have hpt : p = t :=
    InPage.eq hphys.1 (htables.aligned t ht).1 hpx ⟨by omega, by simp only [pageSize]; omega⟩
  exact ht (hpt ▸ hfresh)

/-- The page maps are kept. -/
lemma pageMaps (h : Scratched s s') (hmaps : PageMaps s pms lab) : PageMaps s' pms lab := by
  refine hmaps.of_confined ⟨by rw [h.initialized]; exact hmaps.initialized, h.nodup,
    fun p hp => hmaps.stack p (h.stack p hp), hmaps.aligned, fun t o p ht hp i => ?_⟩
    (h.confined lab) fun _ _ ht => ht
  rw [h.tableEntries_eq hmaps.toPageTables (by rw [ht]; exact Option.some_ne_none _), h.kernel]
  exact hmaps.labelled t o p ht hp i

end Scratched

/-- Freeing a page puts it back on the page stack or does nothing. -/
lemma vmmFreepage_stack (s : Vmm) (p : ℕ) :
    (vmmFreepage s p).pmmStack = s.pmmStack ∨ (vmmFreepage s p).pmmStack = p :: s.pmmStack := by
  change (pmmFreepage s.toPmm p).pmmStack = _ ∨ (pmmFreepage s.toPmm p).pmmStack = _
  unfold pmmFreepage
  split_ifs
  · exact .inl rfl
  · exact .inl rfl
  · exact .inr rfl

/-- A page that was popped may be freed. -/
lemma Scratched.freepage (h : Scratched s s') {p : ℕ} (hp : p ∈ s.pmmStack)
    (hpopped : p ∉ s'.pmmStack) : Scratched s (vmmFreepage s' p) := by
  refine ⟨(pmmFreepage_initialized s'.toPmm p).trans h.initialized, h.hhdmOff, h.kernel, ?_, ?_,
    fun x hx => (congrFun (pmmFreepage_mem s'.toPmm p) x).trans (h.mem x hx)⟩
  · rcases vmmFreepage_stack s' p with heq | heq
    · rw [heq]
      exact h.nodup
    · rw [heq, List.nodup_cons]
      exact ⟨hpopped, h.nodup⟩
  · intro q hq
    rcases vmmFreepage_stack s' p with heq | heq
    · rw [heq] at hq
      exact h.stack q hq
    · rw [heq] at hq
      rcases List.mem_cons.mp hq with rfl | hq
      · exact hp
      · exact h.stack q hq

/-- The state in which `pm->topLevel` is set to a fresh page. -/
def setFreshTop (s : Vmm) (pm : ℕ) : Vmm :=
  setPagemapTopLevel (vmmAllocpage s).2 pm (physicalToVirtual s (vmmAllocpage s).1)

/-- The state in which `pm->vmaHead` is set to a fresh page. -/
def setFreshHead (s : Vmm) (pm : ℕ) : Vmm :=
  setPagemapVmaHead (vmmAllocpage s).2 pm (physicalToVirtual s (vmmAllocpage s).1)

/-- `vmm_new_pagemap` in terms of the steps for its three pages. -/
lemma vmmNewPagemap_eq (s : Vmm) (pageMap : ℕ) (u : Vmm)
    (hpageMap : physicalToVirtual s (vmmAllocpage s).1 = pageMap)
    (hu : clearPage (vmmAllocpage s).2 pageMap = u) :
    vmmNewPagemap s =
      if pageMap = 0 then (0, (vmmAllocpage s).2)
      else if pagemapTopLevel (setFreshTop u pageMap) pageMap = 0 then
        (0, vmmFreepage (setFreshTop u pageMap) (virtualToPhysical s pageMap))
      else if pagemapVmaHead (setFreshHead (newTopLevel u pageMap) pageMap) pageMap = 0 then
        (0, vmmFreepage
          (vmmFreepage (setFreshHead (newTopLevel u pageMap) pageMap)
            (virtualToPhysical s
              (pagemapTopLevel (setFreshHead (newTopLevel u pageMap) pageMap) pageMap)))
          (virtualToPhysical s pageMap))
      else (pageMap, copyKernelHalf (newVmaHead (newTopLevel u pageMap) pageMap) pageMap 256 256) := by
  subst hpageMap hu
  rfl

/-- The loop of `vmm_new_pagemap` does not allocate. -/
lemma copyKernelHalf_outOfPages (s : Vmm) (pageMap i n : ℕ) :
    (copyKernelHalf s pageMap i n).outOfPages = s.outOfPages := by
  induction n generalizing s i with
  | zero => rfl
  | succ n ih =>
    rw [copyKernelHalf]
    exact ih _ _

/-- The state in which `vmm_new_pagemap` starts its loop. -/
structure ReadyToCopy (s s' : Vmm) (a t : ℕ) : Prop extends Scratched s s' where
  struct_mem : a ∈ s.pmmStack ∧ a ∉ s'.pmmStack
  top_mem : t ∈ s.pmmStack ∧ t ∉ s'.pmmStack
  ne : a ≠ t
  root : rootTable s' (wadd a s.hhdmOff) = t
  empty : ∀ i, tableEntries s'.mem t i = pte.zero

/-- The states after the first page of `vmm_new_pagemap` is popped, and after it is cleared. -/
lemma scratched_first (h : PageSupply s) (hstack : s.pmmStack = a :: rest) :
    Scratched s (vmmAllocpage s).2 ∧
      Scratched s (clearPage (vmmAllocpage s).2 (wadd a s.hhdmOff)) := by
  obtain ⟨-, hpop⟩ := popped_vmmAllocpage h.initialized hstack
  obtain ⟨ha, -, hsupply⟩ := hpop.supply h
  have hsub : ∀ p ∈ (vmmAllocpage s).2.pmmStack, p ∈ s.pmmStack := by
    intro p hp
    rw [hpop.after] at hp
    rw [hstack]
    exact List.mem_cons_of_mem _ hp
  have hclear := clearPage_mem (vmmAllocpage s).2 ha.lt_modulus
  refine ⟨⟨hpop.initialized, rfl, rfl, hsupply.nodup, hsub, fun x _ => by rw [vmmAllocpage_mem]⟩,
    ⟨hpop.initialized, rfl, rfl, hsupply.nodup, hsub, fun x hx => ?_⟩⟩
  refine (congrFun hclear x).trans ?_
  rw [memset_apply_of_notInPage (hx a (by rw [hstack]; exact List.mem_cons_self)),
    vmmAllocpage_mem]

/-- A further step of `vmm_new_pagemap` that pops a page and writes to the pages `a` and `t`. -/
lemma Scratched.pop {u : Vmm} (h : Scratched s u)
    (hpop : Popped u s' page rest) (hkernel : s'.vmmKernelPagemap = u.vmmKernelPagemap)
    (ha : a ∈ s.pmmStack) (ht : t ∈ s.pmmStack)
    (hmem : ∀ x, ¬ InPage a x → ¬ InPage t x → s'.mem x = u.mem x) : Scratched s s' := by
  have hnodup := h.nodup
  rw [hpop.before, List.nodup_cons] at hnodup
  refine ⟨hpop.initialized.trans h.initialized, hpop.hhdmOff.trans h.hhdmOff,
    hkernel.trans h.kernel, by rw [hpop.after]; exact hnodup.2, fun p hp => h.stack p ?_,
    fun x hx => ?_⟩
  · rw [hpop.after] at hp
    rw [hpop.before]
    exact List.mem_cons_of_mem _ hp
  · rw [hmem x (hx a ha) (hx t ht), h.mem x hx]

/-- A call of `vmm_new_pagemap` during which no allocation fails starts with an allocation that does
not fail. -/
lemma vmmAllocpage_of_vmmNewPagemap (hsupply : (vmmNewPagemap s).2.outOfPages = false) :
    (vmmAllocpage s).2.outOfPages = false := by
  rw [vmmNewPagemap_eq s _ _ rfl rfl] at hsupply
  generalize hu : clearPage (vmmAllocpage s).2 (physicalToVirtual s (vmmAllocpage s).1) = u
    at hsupply
  have hfirst : (vmmAllocpage s).2.outOfPages = u.outOfPages := by rw [← hu]; rfl
  rw [hfirst]
  split_ifs at hsupply
  · rw [← hfirst]
    exact hsupply
  · exact vmmAllocpage_outOfPages (s := u) hsupply
  · have hsecond : (newTopLevel u (physicalToVirtual s (vmmAllocpage s).1)).outOfPages = false :=
      vmmAllocpage_outOfPages hsupply
    exact vmmAllocpage_outOfPages hsecond
  · rw [copyKernelHalf_outOfPages] at hsupply
    have hsecond : (newTopLevel u (physicalToVirtual s (vmmAllocpage s).1)).outOfPages = false :=
      vmmAllocpage_outOfPages hsupply
    exact vmmAllocpage_outOfPages hsecond

/-- The memory after the field `topLevel` is set to the result of an allocation. -/
lemma setFreshTop_mem (s : Vmm) (ha : PhysPage a) : (setFreshTop s (wadd a s.hhdmOff)).mem =
    store64 s.mem a (physicalToVirtual s (vmmAllocpage s).1) := by
  have hset := writeWord_mem_zero (vmmAllocpage s).2 ha (physicalToVirtual s (vmmAllocpage s).1)
  rw [vmmAllocpage_mem] at hset
  exact hset

/-- The memory after the field `vmaHead` is set to the result of an allocation. -/
lemma setFreshHead_mem (s : Vmm) (ha : PhysPage a) : (setFreshHead s (wadd a s.hhdmOff)).mem =
    store64 s.mem (a + 8) (physicalToVirtual s (vmmAllocpage s).1) := by
  have hset := writeWord_mem (vmmAllocpage s).2 ha (k := 8) (by decide)
    (physicalToVirtual s (vmmAllocpage s).1)
  rw [vmmAllocpage_mem] at hset
  exact hset

/-- Outside the page of the structure the memory is as before. -/
lemma setFreshTop_mem_of_notInPage (ha : PhysPage a) {x : ℕ} (hx : ¬ InPage a x) :
    (setFreshTop s (wadd a s.hhdmOff)).mem x = s.mem x := by
  rw [setFreshTop_mem s ha]
  exact store64_apply_of_notInPage (k := 0) (by decide) hx

/-- Outside the page of the structure the memory is as before. -/
lemma setFreshHead_mem_of_notInPage (ha : PhysPage a) {x : ℕ} (hx : ¬ InPage a x) :
    (setFreshHead s (wadd a s.hhdmOff)).mem x = s.mem x := by
  rw [setFreshHead_mem s ha]
  exact store64_apply_of_notInPage (by decide) hx

/-- Setting the field `vmaHead` leaves the field `topLevel` alone. -/
lemma topLevel_setFreshHead (ha : PhysPage a) (ht : PhysPage t)
    (hfield : load64 s.mem a = wadd t s.hhdmOff) :
    wsub (pagemapTopLevel (setFreshHead s (wadd a s.hhdmOff)) (wadd a s.hhdmOff)) s.hhdmOff = t := by
  have haddr : virtualToPhysical (setFreshHead s (wadd a s.hhdmOff)) (wadd a s.hhdmOff) = a :=
    wsub_wadd_cancel _ ha.lt_modulus
  rw [pagemapTopLevel, readWord, haddr, setFreshHead_mem s ha,
    load64_store64_of_disjoint (by omega), hfield]
  exact wsub_wadd_cancel _ ht.lt_modulus

/-- A fresh page for a field is popped. -/
lemma popped_setFresh (hinit : s.pmmInitialized) (hstack : s.pmmStack = page :: rest) (pm : ℕ) :
    Popped s (setFreshTop s pm) page rest ∧ Popped s (setFreshHead s pm) page rest := by
  obtain ⟨-, hpop⟩ := popped_vmmAllocpage hinit hstack
  exact ⟨⟨hpop.before, hpop.after, hpop.initialized, rfl, rfl, rfl, hpop.outOfPages⟩,
    ⟨hpop.before, hpop.after, hpop.initialized, rfl, rfl, rfl, hpop.outOfPages⟩⟩

/-- The branch of `vmm_new_pagemap` in which the top-level table would be at `NULL`: the page of the
structure is freed. -/
lemma scratched_noTop {u : Vmm} (h : Scratched s u) (husup : PageSupply u) (ha : PhysPage a)
    (hmem : a ∈ s.pmmStack) (hau : a ∉ u.pmmStack)
    (hsupply : (setFreshTop u (wadd a u.hhdmOff)).outOfPages = false) :
    Scratched s (vmmFreepage (setFreshTop u (wadd a u.hhdmOff)) a) := by
  obtain ⟨t, rest, hstack⟩ := exists_of_vmmAllocpage (s := u) hsupply
  have hpop := (popped_setFresh husup.initialized hstack (wadd a u.hhdmOff)).1
  have hscr := h.pop hpop rfl hmem hmem fun x hxa _ => setFreshTop_mem_of_notInPage ha hxa
  refine hscr.freepage hmem ?_
  rw [hpop.after]
  rw [hstack] at hau
  exact fun hmem' => hau (List.mem_cons_of_mem _ hmem')

/-- The branch of `vmm_new_pagemap` in which the head of the area list would be at `NULL`: the pages
of the top-level table and of the structure are freed. -/
lemma scratched_noHead {u : Vmm} (h : Scratched s u) (husup : PageSupply u) (ha : PhysPage a)
    (hmem : a ∈ s.pmmStack) (hau : a ∉ u.pmmStack)
    (hsupply : (setFreshHead (newTopLevel u (wadd a u.hhdmOff)) (wadd a u.hhdmOff)).outOfPages =
      false) :
    Scratched s (vmmFreepage
      (vmmFreepage (setFreshHead (newTopLevel u (wadd a u.hhdmOff)) (wadd a u.hhdmOff))
        (virtualToPhysical s (pagemapTopLevel
          (setFreshHead (newTopLevel u (wadd a u.hhdmOff)) (wadd a u.hhdmOff))
          (wadd a u.hhdmOff)))) a) := by
  have hsupply₁ : (newTopLevel u (wadd a u.hhdmOff)).outOfPages = false :=
    vmmAllocpage_outOfPages hsupply
  obtain ⟨t, rest₁, hstack₁⟩ := exists_of_vmmAllocpage (s := u) hsupply₁
  have ht : PhysPage t := husup.stack t (by rw [hstack₁]; exact List.mem_cons_self)
  have htmem : t ∈ s.pmmStack := h.stack t (by rw [hstack₁]; exact List.mem_cons_self)
  rw [hstack₁, List.mem_cons, not_or] at hau
  obtain ⟨hpop₁, hkernel₁, hfield, -, hframe⟩ :=
    newTopLevel_spec husup.initialized hstack₁ ha ht hau.1
  obtain ⟨-, ht₁, hsup₁⟩ := hpop₁.supply husup
  have hscr₁ := h.pop hpop₁ hkernel₁ hmem htmem hframe
  generalize newTopLevel u (wadd a u.hhdmOff) = x at *
  rw [← hpop₁.hhdmOff] at hsupply hfield ⊢
  obtain ⟨v, rest₂, hstack₂⟩ := exists_of_vmmAllocpage (s := x) hsupply
  have hpop₂ := (popped_setFresh hsup₁.initialized hstack₂ (wadd a x.hhdmOff)).2
  have hscr₂ := hscr₁.pop hpop₂ rfl hmem hmem fun y hya _ => setFreshHead_mem_of_notInPage ha hya
  have htop : virtualToPhysical s (pagemapTopLevel (setFreshHead x (wadd a x.hhdmOff))
      (wadd a x.hhdmOff)) = t := by
    rw [virtualToPhysical, ← hscr₁.hhdmOff]
    exact topLevel_setFreshHead ha ht hfield
  rw [htop]
  have hnot : ∀ p, p ∉ rest₁ → p ∉ (setFreshHead x (wadd a x.hhdmOff)).pmmStack := by
    intro p hp hp'
    rw [hpop₂.after] at hp'
    rw [← hpop₁.after, hstack₂] at hp
    exact hp (List.mem_cons_of_mem _ hp')
  refine (hscr₂.freepage htmem (hnot t ht₁)).freepage hmem ?_
  rcases vmmFreepage_stack (setFreshHead x (wadd a x.hhdmOff)) t with heq | heq
  · rw [heq]
    exact hnot a hau.2
  · rw [heq, List.mem_cons, not_or]
    exact ⟨hau.1, hnot a hau.2⟩

/-- The branch of `vmm_new_pagemap` in which the page map is made. -/
lemma readyToCopy {u : Vmm} (h : Scratched s u) (husup : PageSupply u) (ha : PhysPage a)
    (hmem : a ∈ s.pmmStack) (hau : a ∉ u.pmmStack)
    (hsupply : (newVmaHead (newTopLevel u (wadd a u.hhdmOff)) (wadd a u.hhdmOff)).outOfPages =
      false) :
    ∃ t, ReadyToCopy s (newVmaHead (newTopLevel u (wadd a u.hhdmOff)) (wadd a u.hhdmOff)) a t := by
  obtain ⟨t, v, hmade⟩ := tablesMade husup ha hau hsupply
  obtain ⟨ha', ht', -⟩ := hmade.notMem husup hau
  generalize newVmaHead (newTopLevel u (wadd a u.hhdmOff)) (wadd a u.hhdmOff) = w at *
  have hsub : ∀ p, p = t ∨ p = v ∨ p ∈ w.pmmStack → p ∈ s.pmmStack := by
    intro p hp
    refine h.stack p ?_
    rw [hmade.stack, List.mem_cons, List.mem_cons]
    exact hp
  have hhdm : w.hhdmOff = s.hhdmOff := hmade.hhdmOff.trans h.hhdmOff
  refine ⟨t, ⟨hmade.supply.initialized.trans (husup.initialized.symm.trans h.initialized), hhdm,
    hmade.kernel.trans h.kernel, hmade.supply.nodup, fun p hp => hsub p (.inr (.inr hp)),
    fun x hx => ?_⟩, ⟨hmem, ha'⟩, ⟨hsub t (.inl rfl), ht'⟩, hmade.ne.1, ?_, hmade.entry_eq_zero⟩
  · rw [hmade.frame x (hx a hmem) (hx t (hsub t (.inl rfl))) (hx v (hsub v (.inr (.inl rfl)))),
      h.mem x hx]
  · rw [← hhdm]
    exact hmade.rootTable_eq ha

/-- When its pages suffice, `vmm_new_pagemap` returns `NULL` and has only written to pages of the
page stack, or it makes an empty page map and copies the upper half of the kernel page map. -/
theorem vmmNewPagemap_spec (h : PageSupply s) (hsupply : (vmmNewPagemap s).2.outOfPages = false) :
    ((vmmNewPagemap s).1 = 0 ∧ Scratched s (vmmNewPagemap s).2) ∨
      ∃ a t s', (vmmNewPagemap s).1 = wadd a s.hhdmOff ∧ wadd a s.hhdmOff ≠ 0 ∧
        ReadyToCopy s s' a t ∧
        (vmmNewPagemap s).2 = copyKernelHalf s' (wadd a s.hhdmOff) 256 256 := by
  obtain ⟨a, rest, hstack⟩ := exists_of_vmmAllocpage (vmmAllocpage_of_vmmNewPagemap hsupply)
  obtain ⟨hfst, hpop⟩ := popped_vmmAllocpage h.initialized hstack
  obtain ⟨ha, ha', hsup⟩ := hpop.supply h
  obtain ⟨hscr₀, hscr₁⟩ := scratched_first h hstack
  have hmem : a ∈ s.pmmStack := by rw [hstack]; exact List.mem_cons_self
  have hphys : virtualToPhysical s (wadd a s.hhdmOff) = a := wsub_wadd_cancel _ ha.lt_modulus
  rw [vmmNewPagemap_eq s (wadd a s.hhdmOff) _ (by rw [hfst]; rfl) rfl] at hsupply ⊢
  rw [hphys] at hsupply ⊢
  have hu : PageSupply (clearPage (vmmAllocpage s).2 (wadd a s.hhdmOff)) ∧
      a ∉ (clearPage (vmmAllocpage s).2 (wadd a s.hhdmOff)).pmmStack := by
    refine ⟨⟨hsup.initialized, hsup.nodup, hsup.stack⟩, ?_⟩
    change a ∉ (vmmAllocpage s).2.pmmStack
    rwa [hpop.after]
  generalize clearPage (vmmAllocpage s).2 (wadd a s.hhdmOff) = u at *
  obtain ⟨husup, hau⟩ := hu
  rw [← hscr₁.hhdmOff] at hsupply ⊢
  by_cases hA : wadd a u.hhdmOff = 0
  · rw [if_pos hA]
    exact .inl ⟨rfl, hscr₀⟩
  rw [if_neg hA] at hsupply ⊢
  by_cases hT : pagemapTopLevel (setFreshTop u (wadd a u.hhdmOff)) (wadd a u.hhdmOff) = 0
  · rw [if_pos hT] at hsupply ⊢
    exact .inl ⟨rfl, scratched_noTop hscr₁ husup ha hmem hau hsupply⟩
  rw [if_neg hT] at hsupply ⊢
  by_cases hV : pagemapVmaHead (setFreshHead (newTopLevel u (wadd a u.hhdmOff)) (wadd a u.hhdmOff))
      (wadd a u.hhdmOff) = 0
  · rw [if_pos hV] at hsupply ⊢
    exact .inl ⟨rfl, scratched_noHead hscr₁ husup ha hmem hau hsupply⟩
  · rw [if_neg hV, copyKernelHalf_outOfPages] at hsupply
    rw [if_neg hV]
    obtain ⟨t, hready⟩ := readyToCopy hscr₁ husup ha hmem hau hsupply
    exact .inr ⟨a, t, newVmaHead (newTopLevel u (wadd a u.hhdmOff)) (wadd a u.hhdmOff), rfl, hA,
      hready, by dsimp only⟩

end Soaplin

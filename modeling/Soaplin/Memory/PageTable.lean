import Soaplin.Memory.Vmm
import Soaplin.Memory.PageStack
import Soaplin.Foundation.RadixForest

/-!
# The page tables

The page tables in memory as a forest of radix tables.  `PageTables` says that every table in use
has one owner and one path, that its present entries refer to tables one level further down, and
that no table is on the page stack.  `__vmm_get_next_lvl` follows a present entry or links a fresh
page, so the descent of `vmm_map` and `vmm_unmap` is an `Ensure` of the forest, and their final
store is a `LeafStore`.
-/

namespace Soaplin

open ByteMemory Word64 RadixForest

/-! ### Pages and table entries -/

/-- After `memset` the bytes of the range are set and all others are as before. -/
lemma memset_apply (m : Memory) (p : ℕ) (c : UInt8) (n x : ℕ) :
    memset m p c n x = if p ≤ x ∧ x < p + n then c else m x := by
  induction n with
  | zero => simp [memset]
  | succ n ih =>
    rw [memset, Function.update_apply, ih]
    split_ifs <;> first | rfl | omega

/-- The entries of the table at the physical address `t`. -/
def tableEntries (m : Memory) (t : ℕ) (i : Fin 512) : ℕ := tableEntry m t i

/-- A page-aligned physical address; those of the processor have at most 52 bits. -/
def PhysPage (p : ℕ) : Prop := p % pageSize = 0 ∧ p < 2 ^ 52

instance (p : ℕ) : Decidable (PhysPage p) :=
  inferInstanceAs (Decidable (p % pageSize = 0 ∧ p < 2 ^ 52))

variable {m : Memory} {t b c v : ℕ} {i j : Fin 512}

/-- An entry reads back the word that was stored into it. -/
lemma tableEntries_store_same (m : Memory) (t v : ℕ) (i : Fin 512) :
    tableEntries (store64 m (t + 8 * i) v) t i = v % modulus :=
  load64_store64_mod m _ v

/-- A store into an entry leaves all other entries of all tables alone. -/
lemma tableEntries_store_of_ne (ht : t % pageSize = 0) (hb : b % pageSize = 0)
    (h : b ≠ t ∨ j ≠ i) : tableEntries (store64 m (t + 8 * i) v) b j = tableEntries m b j := by
  have hij : j ≠ i → j.val ≠ i.val := fun h h' => h (Fin.ext h')
  have hi := i.isLt
  have hj := j.isLt
  refine load64_store64_of_disjoint ?_
  simp only [pageSize] at *
  omega

/-- The entries of a cleared page are zero. -/
lemma tableEntries_memset_same (m : Memory) (t : ℕ) (j : Fin 512) :
    tableEntries (memset m t 0 pageSize) t j = 0 := by
  have hj := j.isLt
  refine load64_eq_zero fun x hx hx' => ?_
  rw [memset_apply, if_pos]
  simp only [pageSize]
  omega

/-- Clearing a page leaves the entries of all other tables alone. -/
lemma tableEntries_memset_of_ne (ht : t % pageSize = 0) (hb : b % pageSize = 0) (h : b ≠ t) :
    tableEntries (memset m t 0 pageSize) b j = tableEntries m b j := by
  have hj := j.isLt
  refine load64_congr fun x hx hx' => ?_
  rw [memset_apply, if_neg]
  simp only [pageSize] at *
  omega

/-- The encoding of references in page table entries: what `__vmm_get_next_lvl` writes, and what the
processor reads. -/
def pte : Encoding ℕ ℕ where
  zero := 0
  link t := t ||| 1 ||| 2 ||| 3
  child := pteTable
  child_zero := rfl

@[simp] lemma pte_zero : pte.zero = 0 := rfl

@[simp] lemma pte_child (e : ℕ) : pte.child e = pteTable e := rfl

/-- The flags of a reference are its two lowest bits. -/
lemma pte_link (ht : t % pageSize = 0) : pte.link t = t + 3 := by
  change t ||| 1 ||| 2 ||| 3 = t + 3
  rw [Nat.or_assoc, Nat.or_assoc]
  exact or_eq_add_of_dvd (n := 12) ht (by decide)

/-- The address bits of an entry. -/
lemma pteGetAddr_eq (e : ℕ) : pteGetAddr e = 2 ^ 12 * (e / 2 ^ 12 % 2 ^ 40) :=
  and_shifted_mask e 12 40

/-- A reference to a physical page can be followed. -/
lemma pte_child_link (ht : PhysPage t) : pte.child (pte.link t) = some t := by
  obtain ⟨hmod, hlt⟩ := ht
  have hbit : (t + 3) &&& 1 ≠ 0 := by
    rw [Nat.and_one_is_mod]
    simp only [pageSize] at hmod
    omega
  rw [pte_link hmod, pte_child, pteTable, if_pos hbit, pteGetAddr_eq]
  simp only [pageSize] at hmod
  congr 1
  omega

/-- A reference to a physical page fits into an entry. -/
lemma pte_link_lt (ht : PhysPage t) : pte.link t < modulus := by
  rw [pte_link ht.1]
  have := ht.2
  simp only [modulus]
  omega

/-! ### Paths -/

/-- A field of nine address bits is an index of a table. -/
lemma entry_lt (v n : ℕ) : (v >>> n) &&& 0x1ff < 512 :=
  Nat.lt_of_le_of_lt Nat.and_le_right (by decide)

/-- The index of an address in a last-level table. -/
def leafIndex (w : ℕ) : Fin 512 := ⟨pml1Entry w, entry_lt w 12⟩

/-- The index of an address in a top-level table. -/
def rootIndex (w : ℕ) : Fin 512 := ⟨pml4Entry w, entry_lt w 39⟩

/-- The index of an address in a table one level below. -/
def pml3Index (w : ℕ) : Fin 512 := ⟨pml3Entry w, entry_lt w 30⟩

/-- The index of an address in a table two levels below. -/
def pml2Index (w : ℕ) : Fin 512 := ⟨pml2Entry w, entry_lt w 21⟩

/-- The indices that lead from a top-level table to the last-level table of an address. -/
def tablePath (w : ℕ) : List (Fin 512) := [rootIndex w, pml3Index w, pml2Index w]

@[simp] lemma length_tablePath (w : ℕ) : (tablePath w).length = 3 := rfl

/-- The number of the virtual page of an address: its bits 47 to 12. -/
def pageKey (w : ℕ) : ℕ := w / 2 ^ 12 % 2 ^ 36

/-- Two addresses lie in one virtual page exactly if they have the same four indices. -/
lemma pageKey_eq_iff {v w : ℕ} :
    pageKey v = pageKey w ↔ tablePath v = tablePath w ∧ leafIndex v = leafIndex w := by
  have hfield : ∀ u n : ℕ, (u >>> n) &&& 0x1ff = u / 2 ^ n % 512 := fun u n =>
    shiftRight_and_mask u n 9
  simp only [tablePath, rootIndex, pml3Index, pml2Index, leafIndex, pageKey, List.cons.injEq,
    Fin.mk.injEq, pml1Entry, pml2Entry, pml3Entry, pml4Entry, hfield, Nat.reducePow, and_true]
  constructor
  · intro h
    refine ⟨⟨?_, ?_, ?_⟩, ?_⟩ <;> omega
  · rintro ⟨⟨h₄, h₃, h₂⟩, h₁⟩
    omega

/-- The entries that the processor reads, as entries of the forest of page tables. -/
lemma walkEntries_eq_some_iff {s : Vmm} {pm w : ℕ} {es : List ℕ} :
    walkEntries s pm w = some es ↔ ∃ c₃ c₂ c₁,
      pteTable (tableEntries s.mem (rootTable s pm) (rootIndex w)) = some c₃ ∧
      pteTable (tableEntries s.mem c₃ (pml3Index w)) = some c₂ ∧
      pteTable (tableEntries s.mem c₂ (pml2Index w)) = some c₁ ∧
      es = [tableEntries s.mem (rootTable s pm) (rootIndex w), tableEntries s.mem c₃ (pml3Index w),
        tableEntries s.mem c₂ (pml2Index w), tableEntries s.mem c₁ (leafIndex w)] := by
  simp only [walkEntries, Option.bind_eq_bind, Option.bind_eq_some_iff, tableEntries, rootIndex,
    pml3Index, pml2Index, leafIndex]
  constructor
  · rintro ⟨c₃, h₃, c₂, h₂, c₁, h₁, h⟩
    exact ⟨c₃, c₂, c₁, h₃, h₂, h₁, (Option.some.inj h).symm⟩
  · rintro ⟨c₃, c₂, c₁, h₃, h₂, h₁, rfl⟩
    exact ⟨c₃, h₃, c₂, h₂, c₁, h₁, rfl⟩

/-- The walk of the processor is a lookup in the forest of page tables. -/
theorem walk_eq_lookup (s : Vmm) (pm w : ℕ) :
    walk s pm w =
      lookup pte (tableEntries s.mem) (rootTable s pm) (tablePath w) (leafIndex w) := by
  refine Option.ext fun e => ?_
  simp only [walk, lookup, tablePath, follow, pte_child, Option.bind_eq_some_iff,
    Option.map_eq_some_iff, walkEntries_eq_some_iff]
  constructor
  · rintro ⟨es, ⟨c₃, c₂, c₁, h₃, h₂, h₁, rfl⟩, he⟩
    exact ⟨c₁, ⟨c₃, h₃, c₂, h₂, c₁, h₁, rfl⟩, Option.some.inj he⟩
  · rintro ⟨t, ⟨c₃, h₃, c₂, h₂, c₁, h₁, ht⟩, he⟩
    cases ht
    exact ⟨_, ⟨c₃, c₂, t, h₃, h₂, h₁, rfl⟩, congrArg some he⟩

/-! ### The tables in use -/

/-- Who may own the table below an entry: the owner of the table that holds the entry or, in the
upper half of a top-level table, the kernel page map. -/
def Heir (kernel o : ℕ) (p : List (Fin 512)) (i : Fin 512) (o' : ℕ) : Prop :=
  o' = o ∨ (o' = kernel ∧ p = [] ∧ 256 ≤ i.val)

/-- The tables of a state in use: `lab` gives for each of them the page map that owns it and its
path. -/
structure PageTables (s : Vmm) (lab : Labels ℕ ℕ (Fin 512)) : Prop where
  /-- The page allocator is initialised. -/
  initialized : s.pmmInitialized
  /-- The pages on the page stack are distinct. -/
  nodup : s.pmmStack.Nodup
  /-- They are physical pages, and none of them is a table in use. -/
  stack : ∀ p ∈ s.pmmStack, PhysPage p ∧ lab p = none
  /-- Tables in use are page-aligned. -/
  aligned : ∀ t, lab t ≠ none → t % pageSize = 0 ∧ t < modulus
  /-- Present entries of upper-level tables refer to tables in use. -/
  labelled : Labelled pte (Heir s.vmmKernelPagemap) 3 (tableEntries s.mem) lab

/-- The memory manager may write to the page `t`: it is a table in use or on the page stack. -/
def Managed (s : Vmm) (lab : Labels ℕ ℕ (Fin 512)) (t : ℕ) : Prop := lab t ≠ none ∨ t ∈ s.pmmStack

/-- From one state to a later one the memory manager has written to managed pages only, and has not
taken over any other page. -/
structure Confined (s s' : Vmm) (lab lab' : Labels ℕ ℕ (Fin 512)) : Prop where
  hhdmOff : s'.hhdmOff = s.hhdmOff
  kernel : s'.vmmKernelPagemap = s.vmmKernelPagemap
  managed : ∀ t, Managed s' lab' t → Managed s lab t
  mem : ∀ x, (∀ t, Managed s lab t → x < t ∨ t + pageSize ≤ x) → s'.mem x = s.mem x

section

variable {s s' s'' : Vmm} {lab lab' lab'' : Labels ℕ ℕ (Fin 512)} {o : ℕ} {p q : List (Fin 512)}

/-- A table owner is its own heir. -/
lemma heir_refl (kernel o : ℕ) (p : List (Fin 512)) (i : Fin 512) : Heir kernel o p i o := .inl rfl

lemma Confined.refl (s : Vmm) (lab : Labels ℕ ℕ (Fin 512)) : Confined s s lab lab :=
  ⟨rfl, rfl, fun _ h => h, fun _ _ => rfl⟩

/-- Two confined steps in a row. -/
lemma Confined.trans (h : Confined s s' lab lab') (h' : Confined s' s'' lab' lab'') :
    Confined s s'' lab lab'' := by
  refine ⟨h'.hhdmOff.trans h.hhdmOff, h'.kernel.trans h.kernel,
    fun t ht => h.managed t (h'.managed t ht), fun x hx => ?_⟩
  rw [h'.mem x fun t ht => hx t (h.managed t ht), h.mem x hx]

/-- A 64-bit load outside the managed pages reads the same after a confined step. -/
lemma Confined.load64_eq (h : Confined s s' lab lab') {a : ℕ}
    (ha : ∀ t, Managed s lab t → a + 8 ≤ t ∨ t + pageSize ≤ a) :
    load64 s'.mem a = load64 s.mem a := by
  refine load64_congr fun x hx hx' => h.mem x fun t ht => ?_
  have := ha t ht
  omega

/-- The allocation of a page by the memory manager. -/
lemma vmmAllocpage_cons {page : ℕ} {rest : List ℕ} (hinit : s.pmmInitialized)
    (hstack : s.pmmStack = page :: rest) :
    (vmmAllocpage s).1 = page ∧ (vmmAllocpage s).2.pmmStack = rest ∧
      (vmmAllocpage s).2.outOfPages = (s.outOfPages || page == 0) := by
  have hfst := pmmAllocpage_fst hinit hstack
  refine ⟨hfst, ?_, by rw [← hfst]; rfl⟩
  have htail := pmmAllocpage_stack hinit
  rw [hstack] at htail
  exact htail

/-- A failed allocation is recorded. -/
lemma exists_of_vmmAllocpage (hsupply : (vmmAllocpage s).2.outOfPages = false) :
    ∃ page rest, s.pmmStack = page :: rest := by
  cases hstack : s.pmmStack with
  | cons page rest => exact ⟨page, rest, rfl⟩
  | nil =>
    have hzero : (vmmAllocpage s).1 = 0 := congrArg Prod.fst (pmmAllocpage_nil hstack)
    have hout : (vmmAllocpage s).2.outOfPages = (s.outOfPages || (vmmAllocpage s).1 == 0) := rfl
    rw [hout, hzero] at hsupply
    simp at hsupply

@[simp] lemma vmmAllocpage_mem (s : Vmm) : (vmmAllocpage s).2.mem = s.mem :=
  pmmAllocpage_mem s.toPmm

@[simp] lemma vmmAllocpage_initialized (s : Vmm) :
    (vmmAllocpage s).2.pmmInitialized = s.pmmInitialized :=
  pmmAllocpage_initialized s.toPmm

/-! ### One level down -/

/-- A table entry through the direct map. -/
lemma levelEntry_eq (s : Vmm) (ht : t % pageSize = 0) (htlt : t < modulus) (i : Fin 512) :
    levelEntry s (wadd t s.hhdmOff) i = tableEntries s.mem t i := by
  have hi := i.isLt
  rw [levelEntry, readWord, virtualToPhysical, wsub_wadd_wadd]
  · rfl
  · simp only [pageSize, modulus] at *
    omega

/-- `__vmm_get_next_lvl` follows a present entry. -/
lemma vmmGetNextLvl_present (ht : t % pageSize = 0) (htlt : t < modulus)
    (hc : pteTable (tableEntries s.mem t i) = some c) :
    vmmGetNextLvl s (wadd t s.hhdmOff) i = (wadd c s.hhdmOff, s) := by
  rw [← levelEntry_eq s ht htlt i, pteTable] at hc
  split_ifs at hc with hbit
  rw [vmmGetNextLvl, if_pos hbit]
  rw [Option.some.injEq] at hc
  rw [hc]
  rfl

/-- The state after `__vmm_get_next_lvl` has put a fresh page below an absent entry. -/
lemma vmmGetNextLvl_absent (ht : t % pageSize = 0) (htlt : t < modulus)
    (hc : pteTable (tableEntries s.mem t i) = none) :
    vmmGetNextLvl s (wadd t s.hhdmOff) i =
      (wadd (vmmAllocpage s).1 s.hhdmOff,
        setLevelEntry (clearPage (vmmAllocpage s).2 (wadd (vmmAllocpage s).1 s.hhdmOff))
          (wadd t s.hhdmOff) i
          (wsub (wadd (vmmAllocpage s).1 s.hhdmOff) s.hhdmOff ||| 1 ||| 2 ||| 3)) := by
  rw [← levelEntry_eq s ht htlt i, pteTable] at hc
  split_ifs at hc with hbit
  rw [vmmGetNextLvl, if_neg hbit]
  rfl

/-- A failed allocation below stays recorded. -/
lemma vmmGetNextLvl_outOfPages {level entry : ℕ}
    (h : (vmmGetNextLvl s level entry).2.outOfPages = false) : s.outOfPages = false := by
  unfold vmmGetNextLvl at h
  split_ifs at h
  · exact h
  · change (s.outOfPages || (vmmAllocpage s).1 == 0) = false at h
    rw [Bool.or_eq_false_iff] at h
    exact h.1

/-- An assignment to a table entry through the direct map. -/
lemma setLevelEntry_mem (s : Vmm) (ht : t % pageSize = 0) (htlt : t < modulus) (i : Fin 512)
    (v : ℕ) : (setLevelEntry s (wadd t s.hhdmOff) i v).mem = store64 s.mem (t + 8 * i) v := by
  have hi := i.isLt
  have haddr : wsub (wadd (wadd t s.hhdmOff) (8 * i)) s.hhdmOff = t + 8 * i := by
    refine wsub_wadd_wadd _ ?_
    simp only [pageSize, modulus] at *
    omega
  change store64 s.mem (wsub (wadd (wadd t s.hhdmOff) (8 * i)) s.hhdmOff) v = _
  rw [haddr]

/-- Clearing a page through the direct map. -/
lemma clearPage_mem (s : Vmm) (hc : c < modulus) :
    (clearPage s (wadd c s.hhdmOff)).mem = memset s.mem c 0 pageSize := by
  change memset s.mem (wsub (wadd c s.hhdmOff) s.hhdmOff) 0 pageSize = _
  rw [wsub_wadd_cancel _ hc]

/-- A physical address is a word. -/
lemma PhysPage.lt_modulus (h : PhysPage c) : c < modulus := by
  have := h.2
  simp only [modulus]
  omega

/-- `__vmm_get_next_lvl` puts the top page of the page stack below an absent entry: the page is
cleared and the entry refers to it. -/
lemma vmmGetNextLvl_fresh {page : ℕ} {rest : List ℕ} (hinit : s.pmmInitialized)
    (hstack : s.pmmStack = page :: rest) (hpage : page < modulus) (ht : t % pageSize = 0)
    (htlt : t < modulus) (hc : pteTable (tableEntries s.mem t i) = none) :
    ∃ s', vmmGetNextLvl s (wadd t s.hhdmOff) i = (wadd page s.hhdmOff, s') ∧
      s'.mem = store64 (memset s.mem page 0 pageSize) (t + 8 * i) (pte.link page) ∧
      s'.pmmStack = rest ∧ s'.outOfPages = (s.outOfPages || page == 0) ∧
      s'.pmmInitialized = s.pmmInitialized ∧ s'.hhdmOff = s.hhdmOff ∧
      s'.vmmKernelPagemap = s.vmmKernelPagemap := by
  obtain ⟨hfst, hrest, hout⟩ := vmmAllocpage_cons hinit hstack
  have heq := vmmGetNextLvl_absent ht htlt hc
  rw [hfst] at heq
  have hclear : (clearPage (vmmAllocpage s).2 (wadd page s.hhdmOff)).mem =
      memset s.mem page 0 pageSize := by
    rw [← vmmAllocpage_mem s]
    exact clearPage_mem (vmmAllocpage s).2 hpage
  refine ⟨_, heq, ?_, hrest, hout, vmmAllocpage_initialized s, rfl, rfl⟩
  rw [wsub_wadd_cancel _ hpage, ← hclear]
  exact setLevelEntry_mem _ ht htlt i _

/-- Clearing a fresh page and storing a reference to it links it into the forest. -/
lemma PageTables.link {page : ℕ} {m' : Memory} (h : PageTables s lab) (hin : lab t ≠ none)
    (hpage : PhysPage page) (hfresh : lab page = none)
    (hc : pteTable (tableEntries s.mem t i) = none)
    (hmem : m' = store64 (memset s.mem page 0 pageSize) (t + 8 * i) (pte.link page)) :
    Link pte lab (tableEntries s.mem) (tableEntries m') t i page := by
  obtain ⟨hal, -⟩ := h.aligned t hin
  have hne : t ≠ page := by
    rintro rfl
    exact hin hfresh
  refine ⟨hc, hfresh, pte_child_link hpage, ?_, fun j => ?_, fun b j hb hbi => ?_⟩
  · rw [hmem, tableEntries_store_same, Nat.mod_eq_of_lt (pte_link_lt hpage)]
  · rw [hmem, tableEntries_store_of_ne hal hpage.1 (.inl hne.symm), tableEntries_memset_same,
      pte_zero]
  · have hbp : b ≠ page := by
      rintro rfl
      exact hb hfresh
    rw [hmem, tableEntries_store_of_ne hal (h.aligned b hb).1 hbi,
      tableEntries_memset_of_ne hpage.1 (h.aligned b hb).1 hbp]

/-- The tables in use after one more has got a label. -/
lemma eq_or_ne_none_of_update {page b : ℕ} {x : Option (ℕ × List (Fin 512))}
    (hb : Function.update lab page x b ≠ none) : b = page ∨ lab b ≠ none := by
  by_cases hbp : b = page
  · exact .inl hbp
  · rw [Function.update_of_ne hbp] at hb
    exact .inr hb

/-- `__vmm_get_next_lvl` links a fresh table below an absent entry. -/
theorem vmmGetNextLvl_link (h : PageTables s lab) (ht : lab t = some (o, q))
    (hc : pteTable (tableEntries s.mem t i) = none)
    (hsupply : (vmmGetNextLvl s (wadd t s.hhdmOff) i).2.outOfPages = false) :
    ∃ page s', vmmGetNextLvl s (wadd t s.hhdmOff) i = (wadd page s.hhdmOff, s') ∧
      Link pte lab (tableEntries s.mem) (tableEntries s'.mem) t i page ∧
      PageTables s' (Function.update lab page (some (o, q ++ [i]))) ∧
      Confined s s' lab (Function.update lab page (some (o, q ++ [i]))) := by
  have hin : lab t ≠ none := by rw [ht]; exact Option.some_ne_none _
  obtain ⟨hal, hlt⟩ := h.aligned t hin
  obtain ⟨page, rest, hstack⟩ : ∃ page rest, s.pmmStack = page :: rest := by
    rw [vmmGetNextLvl_absent hal hlt hc] at hsupply
    exact exists_of_vmmAllocpage hsupply
  obtain ⟨hpage, hfresh⟩ := h.stack page (by rw [hstack]; exact List.mem_cons_self)
  obtain ⟨s', heq, hmem, hstack', -, hinit', hhdm', hkernel'⟩ :=
    vmmGetNextLvl_fresh h.initialized hstack hpage.lt_modulus hal hlt hc
  have hlink := h.link hin hpage hfresh hc hmem
  have hnodup := h.nodup
  rw [hstack, List.nodup_cons] at hnodup
  refine ⟨page, s', heq, hlink, ⟨hinit'.trans h.initialized, ?_, fun p hp => ?_, fun b hb => ?_, ?_⟩,
    ⟨hhdm', hkernel', fun b hb => ?_, fun x hx => ?_⟩⟩
  · rw [hstack']
    exact hnodup.2
  · rw [hstack'] at hp
    have hpp : p ≠ page := by
      rintro rfl
      exact hnodup.1 hp
    rw [Function.update_of_ne hpp]
    exact h.stack p (by rw [hstack]; exact List.mem_cons_of_mem _ hp)
  · rcases eq_or_ne_none_of_update hb with rfl | hb
    · exact ⟨hpage.1, hpage.lt_modulus⟩
    · exact h.aligned b hb
  · rw [hkernel']
    exact hlink.labelled h.labelled ht (heir_refl _ _ _ _)
  · rcases hb with hb | hb
    · rcases eq_or_ne_none_of_update hb with rfl | hb
      · exact .inr (by rw [hstack]; exact List.mem_cons_self)
      · exact .inl hb
    · rw [hstack'] at hb
      exact .inr (by rw [hstack]; exact List.mem_cons_of_mem _ hb)
  · -- a byte outside the managed pages is neither in the table nor in the fresh page
    have hxt := hx t (.inl hin)
    have hxp := hx page (.inr (by rw [hstack]; exact List.mem_cons_self))
    have hi := i.isLt
    rw [hmem, store64_apply_of_disjoint (by simp only [pageSize] at *; omega), memset_apply,
      if_neg (by omega)]

/-! ### The descent of `vmm_map` and `vmm_unmap` -/

/-- `__vmm_get_next_lvl` along a path of indices. -/
def vmmDescend (s : Vmm) (level : ℕ) : List (Fin 512) → ℕ × Vmm
  | [] => (level, s)
  | i :: p => vmmDescend (vmmGetNextLvl s level i).2 (vmmGetNextLvl s level i).1 p

/-- `vmm_map` and `vmm_unmap` descend to a last-level table and write one of its entries. -/
lemma vmmSetEntry_eq (s : Vmm) (pm vaddr value : ℕ) :
    vmmSetEntry s pm vaddr value =
      setLevelEntry (vmmDescend s (pagemapTopLevel s pm) (tablePath vaddr)).2
        (vmmDescend s (pagemapTopLevel s pm) (tablePath vaddr)).1 (leafIndex vaddr) value := rfl

/-- A failed allocation during the descent stays recorded. -/
lemma vmmDescend_outOfPages {level : ℕ} (h : (vmmDescend s level p).2.outOfPages = false) :
    s.outOfPages = false := by
  induction p generalizing s level with
  | nil => exact h
  | cons i p ih => exact vmmGetNextLvl_outOfPages (ih h)

/-- The descent along a path leads to a table in use and links what is missing on the way. -/
theorem vmmDescend_spec (h : PageTables s lab) (ht : lab t = some (o, q))
    (hlen : q.length + p.length ≤ 3)
    (hsupply : (vmmDescend s (wadd t s.hhdmOff) p).2.outOfPages = false) :
    ∃ lab' c s', vmmDescend s (wadd t s.hhdmOff) p = (wadd c s.hhdmOff, s') ∧
      Ensure pte lab (tableEntries s.mem) t p lab' (tableEntries s'.mem) c ∧
      PageTables s' lab' ∧ Confined s s' lab lab' := by
  induction p generalizing s lab t o q with
  | nil => exact ⟨lab, t, s, rfl, .nil, h, .refl s lab⟩
  | cons i p ih =>
    rw [List.length_cons] at hlen
    rw [vmmDescend] at hsupply ⊢
    have hin : lab t ≠ none := by rw [ht]; exact Option.some_ne_none _
    obtain ⟨hal, hlt⟩ := h.aligned t hin
    cases hc : pteTable (tableEntries s.mem t i) with
    | some c =>
      rw [vmmGetNextLvl_present hal hlt hc] at hsupply ⊢
      obtain ⟨-, o₁, hlab, -⟩ := h.labelled.of_child ht (by omega) hc
      obtain ⟨lab', d, s', heq, hensure, htables, hconf⟩ := ih h hlab
        (by rw [List.length_append, List.length_singleton]; omega) hsupply
      exact ⟨lab', d, s', heq, .present hc hensure, htables, hconf⟩
    | none =>
      have hsupply' := vmmDescend_outOfPages hsupply
      obtain ⟨page, s₁, heq₁, hlink, htables₁, hconf₁⟩ := vmmGetNextLvl_link h ht hc hsupply'
      rw [heq₁, ← hconf₁.hhdmOff] at hsupply ⊢
      obtain ⟨lab', d, s', heq, hensure, htables, hconf⟩ := ih htables₁
        (Function.update_self _ _ _)
        (by rw [List.length_append, List.length_singleton]; omega) hsupply
      exact ⟨lab', d, s', heq, .link ht hlink hensure, htables, hconf₁.trans hconf⟩

/-- A store into a last-level table. -/
lemma setLevelEntry_leafStore (h : PageTables s lab) (ht : lab t = some (o, q))
    (hq : q.length = 3) (i : Fin 512) (v : ℕ) :
    LeafStore lab (tableEntries s.mem)
        (tableEntries (setLevelEntry s (wadd t s.hhdmOff) i v).mem) t i (v % modulus) ∧
      PageTables (setLevelEntry s (wadd t s.hhdmOff) i v) lab ∧
      Confined s (setLevelEntry s (wadd t s.hhdmOff) i v) lab lab := by
  have hin : lab t ≠ none := by rw [ht]; exact Option.some_ne_none _
  obtain ⟨hal, hlt⟩ := h.aligned t hin
  have hmem := setLevelEntry_mem s hal hlt i v
  have hstore : LeafStore lab (tableEntries s.mem)
      (tableEntries (setLevelEntry s (wadd t s.hhdmOff) i v).mem) t i (v % modulus) := by
    refine ⟨by rw [hmem, tableEntries_store_same], fun b j hb hbi => ?_⟩
    rw [hmem, tableEntries_store_of_ne hal (h.aligned b hb).1 hbi]
  refine ⟨hstore, ⟨h.initialized, h.nodup, h.stack, h.aligned, hstore.labelled h.labelled ht hq⟩,
    rfl, rfl, fun _ hb => hb, fun x hx => ?_⟩
  have hi := i.isLt
  have hxt := hx t (.inl hin)
  rw [hmem, store64_apply_of_disjoint (by simp only [pageSize] at *; omega)]

/-- The table that a descent ends in carries the path of the descent. -/
lemma exists_label_of_ensure {m₁ : ℕ → Fin 512 → ℕ} (h : PageTables s lab)
    (hensure : Ensure pte lab (tableEntries s.mem) t p lab' m₁ c) (ht : lab t = some (o, []))
    (hlen : p.length ≤ 3) : ∃ o', lab' c = some (o', p) := by
  have hfollow := hensure.follow_eq h.labelled (heir_refl _) ht (by simpa using hlen)
  have hlabelled := hensure.labelled h.labelled (heir_refl _) ht (by simpa using hlen)
  obtain ⟨o', hc, -⟩ := hlabelled.follow_label (Q := fun _ _ => True)
    (fun _ _ _ _ _ _ => trivial) (hensure.label_of_label ht) trivial (by simpa using hlen) hfollow
  exact ⟨o', hc⟩

/-- `vmm_map` and `vmm_unmap` on a page map whose top-level table is in use: the tables on the path
of the address are linked, and the entry of the address is written. -/
theorem vmmSetEntry_spec {pm vaddr value : ℕ} (h : PageTables s lab)
    (hroot : lab (rootTable s pm) = some (o, []))
    (hsupply : (vmmSetEntry s pm vaddr value).outOfPages = false) :
    ∃ lab' m₁ c, Ensure pte lab (tableEntries s.mem) (rootTable s pm) (tablePath vaddr) lab' m₁ c ∧
      LeafStore lab' m₁ (tableEntries (vmmSetEntry s pm vaddr value).mem) c (leafIndex vaddr)
        (value % modulus) ∧
      PageTables (vmmSetEntry s pm vaddr value) lab' ∧
      Confined s (vmmSetEntry s pm vaddr value) lab lab' := by
  have htop : wadd (rootTable s pm) s.hhdmOff = pagemapTopLevel s pm :=
    wadd_wsub_cancel _ (load64_lt _ _)
  rw [vmmSetEntry_eq, ← htop] at hsupply ⊢
  obtain ⟨lab', c, s₁, heq, hensure, htables₁, hconf₁⟩ :=
    vmmDescend_spec (p := tablePath vaddr) h hroot (by simp) hsupply
  obtain ⟨o', hc⟩ := exists_label_of_ensure h hensure hroot (by simp)
  rw [heq, ← hconf₁.hhdmOff]
  obtain ⟨hstore, htables, hconf⟩ := setLevelEntry_leafStore htables₁ hc (length_tablePath vaddr)
    (leafIndex vaddr) value
  exact ⟨lab', tableEntries s₁.mem, c, hensure, hstore, htables, hconf₁.trans hconf⟩

/-! ### How many pages a descent takes -/

/-- Along a path that is already there the descent changes nothing. -/
lemma vmmDescend_of_follow (h : PageTables s lab) (ht : lab t = some (o, q))
    (hlen : q.length + p.length ≤ 3)
    (hfollow : follow pte (tableEntries s.mem) t p = some c) :
    vmmDescend s (wadd t s.hhdmOff) p = (wadd c s.hhdmOff, s) := by
  induction p generalizing t o q with
  | nil =>
    cases hfollow
    rfl
  | cons i p ih =>
    rw [List.length_cons] at hlen
    obtain ⟨d, hd, hdc⟩ := Option.bind_eq_some_iff.mp hfollow
    obtain ⟨hal, hlt⟩ := h.aligned t (by rw [ht]; exact Option.some_ne_none _)
    obtain ⟨-, o₁, hlab, -⟩ := h.labelled.of_child ht (by omega) hd
    rw [vmmDescend, vmmGetNextLvl_present hal hlt hd]
    exact ih hlab (by rw [List.length_append, List.length_singleton]; omega) hdc

/-- While the page stack is not empty and does not hold page `0`, `__vmm_get_next_lvl` does not
fail, and it takes at most one page. -/
lemma vmmGetNextLvl_supply (level entry : ℕ) (hinit : s.pmmInitialized) (hout : s.outOfPages = false)
    (hzero : 0 ∉ s.pmmStack) (hne : s.pmmStack ≠ []) :
    (vmmGetNextLvl s level entry).2.outOfPages = false ∧
      ∃ k ≤ 1, (vmmGetNextLvl s level entry).2.pmmStack = s.pmmStack.drop k := by
  obtain ⟨page, rest, hstack⟩ := List.exists_cons_of_ne_nil hne
  obtain ⟨-, hrest, hout'⟩ := vmmAllocpage_cons hinit hstack
  unfold vmmGetNextLvl
  split_ifs
  · exact ⟨hout, 0, by omega, rfl⟩
  · have hpage : page ≠ 0 := by
      rintro rfl
      exact hzero (by rw [hstack]; exact List.mem_cons_self)
    refine ⟨?_, 1, le_rfl, ?_⟩
    · change (vmmAllocpage s).2.outOfPages = false
      simp [hout', hout, hpage]
    · change (vmmAllocpage s).2.pmmStack = _
      rw [hrest, hstack, List.drop_one, List.tail_cons]

/-- `__vmm_get_next_lvl` keeps the page allocator initialised. -/
lemma vmmGetNextLvl_initialized (s : Vmm) (level entry : ℕ) :
    (vmmGetNextLvl s level entry).2.pmmInitialized = s.pmmInitialized := by
  unfold vmmGetNextLvl
  split_ifs
  · rfl
  · exact vmmAllocpage_initialized s

/-- A descent does not fail while the page stack has a page for each of its levels, and it takes at
most that many. -/
lemma vmmDescend_supply (level : ℕ) (hinit : s.pmmInitialized) (hout : s.outOfPages = false)
    (hzero : 0 ∉ s.pmmStack) (hlen : p.length ≤ s.pmmStack.length) :
    (vmmDescend s level p).2.outOfPages = false ∧
      ∃ k ≤ p.length, (vmmDescend s level p).2.pmmStack = s.pmmStack.drop k := by
  induction p generalizing s level with
  | nil => exact ⟨hout, 0, le_rfl, rfl⟩
  | cons i p ih =>
    rw [List.length_cons] at hlen
    obtain ⟨hout₁, k₁, hk₁, hstack₁⟩ := vmmGetNextLvl_supply level i hinit hout hzero
      (List.ne_nil_of_length_pos (by omega))
    obtain ⟨hout₂, k₂, hk₂, hstack₂⟩ := ih (s := (vmmGetNextLvl s level i).2)
      (vmmGetNextLvl s level i).1 ((vmmGetNextLvl_initialized s level i).trans hinit) hout₁
      (fun hmem => hzero (List.mem_of_mem_drop (hstack₁ ▸ hmem)))
      (by rw [hstack₁, List.length_drop]; omega)
    refine ⟨hout₂, k₁ + k₂, by rw [List.length_cons]; omega, ?_⟩
    rw [vmmDescend, hstack₂, hstack₁, List.drop_drop]

/-- `vmm_map` and `vmm_unmap` do not fail while there are three pages on the page stack, and take at
most three. -/
lemma vmmSetEntry_supply (pm vaddr value : ℕ) (hinit : s.pmmInitialized)
    (hout : s.outOfPages = false) (hzero : 0 ∉ s.pmmStack) (hlen : 3 ≤ s.pmmStack.length) :
    (vmmSetEntry s pm vaddr value).outOfPages = false ∧
      ∃ k ≤ 3, (vmmSetEntry s pm vaddr value).pmmStack = s.pmmStack.drop k := by
  rw [vmmSetEntry_eq]
  exact vmmDescend_supply _ hinit hout hzero hlen

/-! ### Page maps -/

/-- The page maps `pms` of a state: the top-level table of each is in use under its name, and no
managed page holds its structure. -/
structure PageMaps (s : Vmm) (pms : List ℕ) (lab : Labels ℕ ℕ (Fin 512)) : Prop
    extends PageTables s lab where
  /-- The top-level table of a page map belongs to it. -/
  root : ∀ pm ∈ pms, lab (rootTable s pm) = some (pm, [])
  /-- The field `topLevel` of a page map is outside the managed pages. -/
  apart : ∀ pm ∈ pms, ∀ t, Managed s lab t →
    virtualToPhysical s pm + 8 ≤ t ∨ t + pageSize ≤ virtualToPhysical s pm

variable {pms : List ℕ} {pm pm' vaddr value w : ℕ}

/-- A confined step does not move the top-level table of a page map. -/
lemma PageMaps.rootTable_eq (h : PageMaps s pms lab) (hconf : Confined s s' lab lab')
    (hpm : pm ∈ pms) : rootTable s' pm = rootTable s pm := by
  have hload := hconf.load64_eq (h.apart pm hpm)
  rw [virtualToPhysical] at hload
  simp only [rootTable, pagemapTopLevel, readWord, virtualToPhysical, hconf.hhdmOff, hload]

/-- The page maps after a confined step. -/
lemma PageMaps.of_confined (h : PageMaps s pms lab) (htables : PageTables s' lab')
    (hconf : Confined s s' lab lab')
    (hlab : ∀ t x, lab t = some x → lab' t = some x) : PageMaps s' pms lab' := by
  refine ⟨htables, fun pm hpm => ?_, fun pm hpm t ht => ?_⟩
  · rw [h.rootTable_eq hconf hpm]
    exact hlab _ _ (h.root pm hpm)
  · rw [virtualToPhysical, hconf.hhdmOff]
    exact h.apart pm hpm t (hconf.managed t ht)

/-- `vmm_map` and `vmm_unmap` on one of the page maps, as a descent and a store. -/
theorem PageMaps.setEntry_spec (h : PageMaps s pms lab) (hpm : pm ∈ pms)
    (hsupply : (vmmSetEntry s pm vaddr value).outOfPages = false) :
    ∃ lab' m₁ c, Ensure pte lab (tableEntries s.mem) (rootTable s pm) (tablePath vaddr) lab' m₁ c ∧
      LeafStore lab' m₁ (tableEntries (vmmSetEntry s pm vaddr value).mem) c (leafIndex vaddr)
        (value % modulus) ∧
      PageMaps (vmmSetEntry s pm vaddr value) pms lab' ∧
      Confined s (vmmSetEntry s pm vaddr value) lab lab' := by
  obtain ⟨lab', m₁, c, hensure, hstore, htables, hconf⟩ :=
    vmmSetEntry_spec h.toPageTables (h.root pm hpm) hsupply
  exact ⟨lab', m₁, c, hensure, hstore,
    h.of_confined htables hconf fun _ _ ht => hensure.label_of_label ht, hconf⟩

/-- After a call of `vmm_map` or `vmm_unmap` the tables on the path of its address are there, and
all tables that could be reached before still are. -/
theorem PageMaps.follow_setEntry (h : PageMaps s pms lab) (hpm : pm ∈ pms)
    (hsupply : (vmmSetEntry s pm vaddr value).outOfPages = false) :
    (∃ d, follow pte (tableEntries (vmmSetEntry s pm vaddr value).mem) (rootTable s pm)
      (tablePath vaddr) = some d) ∧
    (∀ p d, p.length ≤ 3 → follow pte (tableEntries s.mem) (rootTable s pm) p = some d →
      follow pte (tableEntries (vmmSetEntry s pm vaddr value).mem) (rootTable s pm) p = some d) := by
  obtain ⟨lab', m₁, c, hensure, hstore, -, -⟩ := h.setEntry_spec hpm hsupply
  have hroot := h.root pm hpm
  have hlabelled := hensure.labelled h.labelled (heir_refl _) hroot (by simp)
  obtain ⟨o₁, hc⟩ := exists_label_of_ensure h.toPageTables hensure hroot (by simp)
  have hkeep : ∀ p : List (Fin 512), p.length ≤ 3 →
      follow pte (tableEntries (vmmSetEntry s pm vaddr value).mem) (rootTable s pm) p =
        follow pte m₁ (rootTable s pm) p := fun p hp =>
    hstore.follow_eq hlabelled hc (length_tablePath vaddr) (hensure.label_of_label hroot)
      (by simpa using hp)
  refine ⟨⟨c, ?_⟩, fun p d hp hd => ?_⟩
  · rw [hkeep _ (by simp)]
    exact hensure.follow_eq h.labelled (heir_refl _) hroot (by simp)
  · rw [hkeep p hp]
    exact hensure.follow_mono h.labelled hroot (by simpa using hp) hd

/-- After a call of `vmm_map` or `vmm_unmap` the walk of its page map at an address of the same page
ends in the entry written.  At an address of another page no walk changes, except that one which did
not reach the last level may now end there, in an empty entry. -/
theorem PageMaps.walk_vmmSetEntry (h : PageMaps s pms lab) (hpm : pm ∈ pms)
    (hsupply : (vmmSetEntry s pm vaddr value).outOfPages = false) :
    (pageKey w = pageKey vaddr →
      walk (vmmSetEntry s pm vaddr value) pm w = some (value % modulus)) ∧
    (pageKey w ≠ pageKey vaddr → ∀ pm' ∈ pms,
      walk (vmmSetEntry s pm vaddr value) pm' w = walk s pm' w ∨
        (walk s pm' w = none ∧ walk (vmmSetEntry s pm vaddr value) pm' w = some 0)) := by
  obtain ⟨lab', m₁, c, hensure, hstore, -, hconf⟩ := h.setEntry_spec hpm hsupply
  have hroot := h.root pm hpm
  have hfollow := hensure.follow_eq h.labelled (heir_refl _) hroot (by simp)
  have hlabelled := hensure.labelled h.labelled (heir_refl _) hroot (by simp)
  obtain ⟨o₁, hc⟩ := exists_label_of_ensure h.toPageTables hensure hroot (by simp)
  have hlookup : ∀ pm' ∈ pms, walk (vmmSetEntry s pm vaddr value) pm' w =
      if follow pte m₁ (rootTable s pm') (tablePath w) = some c ∧ leafIndex w = leafIndex vaddr then
        some (value % modulus)
      else lookup pte m₁ (rootTable s pm') (tablePath w) (leafIndex w) := by
    intro pm' hpm'
    rw [walk_eq_lookup, h.rootTable_eq hconf hpm']
    exact hstore.lookup_eq hlabelled hc (length_tablePath vaddr)
      (hensure.label_of_label (h.root pm' hpm')) (by simp)
  refine ⟨fun hkey => ?_, fun hkey pm' hpm' => ?_⟩
  · obtain ⟨hpath, hleaf⟩ := pageKey_eq_iff.mp hkey
    rw [hlookup pm hpm, if_pos ⟨by rw [hpath, hfollow], hleaf⟩]
  · have hother : ¬(follow pte m₁ (rootTable s pm') (tablePath w) = some c ∧
        leafIndex w = leafIndex vaddr) := by
      rintro ⟨hw, hleaf⟩
      -- the table that the walk reaches carries the path of its address
      obtain ⟨o₂, hc', -⟩ := hlabelled.follow_label (Q := fun _ _ => True)
        (fun _ _ _ _ _ _ => trivial) (hensure.label_of_label (h.root pm' hpm')) trivial
        (by simp) hw
      rw [hc, List.nil_append] at hc'
      have hpath : tablePath vaddr = tablePath w := congrArg Prod.snd (Option.some.inj hc')
      exact hkey (pageKey_eq_iff.mpr ⟨hpath.symm, hleaf⟩)
    rw [hlookup pm' hpm', if_neg hother, walk_eq_lookup]
    exact hensure.lookup_eq h.labelled (heir_refl _) hroot (by simp) (h.root pm' hpm') (by simp)

end

end Soaplin

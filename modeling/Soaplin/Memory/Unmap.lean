import Soaplin.Memory.Exhaustion

/-!
# The cost of `vmm_unmap`

`vmm_unmap` goes down to the last-level table with `__vmm_get_next_lvl`, as `vmm_map` does, so it
makes the tables that are missing on the path of its address, only to clear an entry of the last of
them.  A call takes no page and spares what is not mapped if and only if the walk of the processor
gets to the last level and ends in an entry that is present or empty (`vmmUnmap_free_iff`).
-/

namespace Soaplin

open ByteMemory Word64 RadixForest

variable {s : Vmm} {lab : Labels ℕ ℕ (Fin 512)} {o t c : ℕ} {p q : List (Fin 512)} {pms : List ℕ}
  {pm v : ℕ}

/-- What a call `vmm_unmap(pm, v)` in the state `s` should cost: it pops no page, and if `v` has no
present entry in the last level it leaves the memory as it is. -/
structure UnmapFree (s : Vmm) (pm v : ℕ) : Prop where
  stack : (vmmUnmap s pm v).pmmStack = s.pmmStack
  unchanged : (∀ e, walk s pm v = some e → e &&& vmmPresent = 0) →
    (vmmUnmap s pm v).mem = s.mem

/-! ### A path that lacks a table -/

/-- An allocation takes at most one page. -/
lemma vmmAllocpage_stack (hinit : s.pmmInitialized) :
    (vmmAllocpage s).2.pmmStack = s.pmmStack.tail :=
  pmmAllocpage_stack hinit

/-- The descent puts no page on the page stack. -/
lemma vmmDescend_length_le (hinit : s.pmmInitialized) (level : ℕ) (p : List (Fin 512)) :
    (vmmDescend s level p).2.pmmStack.length ≤ s.pmmStack.length := by
  induction p generalizing s level with
  | nil => exact le_rfl
  | cons i p ih =>
    have hstep : (vmmGetNextLvl s level i).2.pmmStack.length ≤ s.pmmStack.length := by
      unfold vmmGetNextLvl
      split_ifs
      · exact le_rfl
      · change (vmmAllocpage s).2.pmmStack.length ≤ _
        rw [vmmAllocpage_stack hinit, List.length_tail]
        exact Nat.sub_le _ _
    rw [vmmDescend]
    exact (ih ((vmmGetNextLvl_initialized s level i).trans hinit) _).trans hstep

/-- With an empty page stack the memory manager owns its tables only. -/
lemma not_managed_zero (hzero : lab 0 = none) (hstack : s.pmmStack = []) : ¬ Managed s lab 0 := by
  rintro (hlab | hmem)
  · exact hlab hzero
  · rw [hstack] at hmem
    cases hmem

/-- Along a path that lacks a table the descent pops a page or, when there is none, goes on with
page `0`. -/
theorem vmmDescend_of_missing (h : PageTables s lab) (hzero : lab 0 = none)
    (ht : lab t = some (o, q)) (hlen : q.length + p.length ≤ 3)
    (hmissing : follow pte (tableEntries s.mem) t p = none) :
    (vmmDescend s (wadd t s.hhdmOff) p).2.pmmStack.length < s.pmmStack.length ∨
      s.pmmStack = [] ∧ ∃ s', vmmDescend s (wadd t s.hhdmOff) p = (wadd 0 s.hhdmOff, s') ∧
        Shortage s s' lab := by
  induction p generalizing t o q with
  | nil => cases hmissing
  | cons i p ih =>
    rw [List.length_cons] at hlen
    have hin : lab t ≠ none := by rw [ht]; exact Option.some_ne_none _
    obtain ⟨hal, hlt⟩ := h.aligned t hin
    cases hc : pteTable (tableEntries s.mem t i) with
    | some c =>
      obtain ⟨-, o₁, hlab, -⟩ := h.labelled.of_child ht (by omega) hc
      rw [follow_cons_of_child hc] at hmissing
      rw [vmmDescend, vmmGetNextLvl_present hal hlt hc]
      exact ih hlab (by rw [List.length_append, List.length_singleton]; omega) hmissing
    | none =>
      cases hstack : s.pmmStack with
      | nil =>
        right
        exact ⟨rfl, vmmDescend_exhausted h (not_managed_zero hzero hstack) hin hstack hc⟩
      | cons page rest =>
        left
        obtain ⟨hphys, -⟩ := h.stack page (by rw [hstack]; exact List.mem_cons_self)
        obtain ⟨s₁, heq, -, hrest, -, hinit, -, -⟩ :=
          vmmGetNextLvl_fresh h.initialized hstack hphys.lt_modulus hal hlt hc
        have hle := vmmDescend_length_le (hinit.trans h.initialized) (wadd page s.hhdmOff) p
        rw [vmmDescend, heq, List.length_cons]
        rw [hrest] at hle
        exact Nat.lt_succ_of_le hle

/-- A call for an address whose walk does not get to the last level pops a page, or it changes the
memory. -/
lemma PageMaps.not_unmapFree (h : PageMaps s pms lab) (hpm : pm ∈ pms) (hzero : lab 0 = none)
    (hwalk : walk s pm v = none) : ¬ UnmapFree s pm v := by
  intro hfree
  have hmissing : follow pte (tableEntries s.mem) (rootTable s pm) (tablePath v) = none := by
    rw [walk_eq_lookup, lookup, Option.map_eq_none_iff] at hwalk
    exact hwalk
  have hrun : vmmUnmap s pm v = setLevelEntry
      (vmmDescend s (wadd (rootTable s pm) s.hhdmOff) (tablePath v)).2
      (vmmDescend s (wadd (rootTable s pm) s.hhdmOff) (tablePath v)).1 (leafIndex v) 0 := by
    rw [vmmUnmap, vmmSetEntry_eq, pagemapTopLevel_eq]
  rcases vmmDescend_of_missing h.toPageTables hzero (h.root pm hpm) (by simp) hmissing with
    hpop | ⟨hstack, s', hdescend, hsho⟩
  · have hsame := hfree.stack
    rw [hrun] at hsame
    change (vmmDescend s (wadd (rootTable s pm) s.hhdmOff) (tablePath v)).2.pmmStack = _ at hsame
    rw [hsame] at hpop
    exact lt_irrefl _ hpop
  · have hmem : (vmmUnmap s pm v).mem = s.mem := by
      apply hfree.unchanged
      intro e he
      rw [hwalk] at he
      cases he
    rw [hrun, hdescend] at hmem
    obtain ⟨b, j, -, hne⟩ :=
      hsho.exists_entry_ne h.toPageTables (not_managed_zero hzero hstack) (leafIndex v) 0
    apply hne
    rw [hmem]

/-! ### A complete path -/

/-- The table at the end of a complete path is in use. -/
lemma PageMaps.label_of_follow (h : PageMaps s pms lab) (hpm : pm ∈ pms)
    (hfollow : follow pte (tableEntries s.mem) (rootTable s pm) (tablePath v) = some c) :
    lab c ≠ none := by
  obtain ⟨o', hlab, -⟩ := h.labelled.follow_label (Q := fun _ _ => True)
    (fun _ _ _ _ _ _ => trivial) (h.root pm hpm) trivial (by simp) hfollow
  rw [hlab]
  exact Option.some_ne_none _

/-- A call for an address whose walk gets to the last level only clears the entry found there. -/
lemma PageMaps.vmmUnmap_of_follow (h : PageMaps s pms lab) (hpm : pm ∈ pms)
    (hfollow : follow pte (tableEntries s.mem) (rootTable s pm) (tablePath v) = some c) :
    (vmmUnmap s pm v).pmmStack = s.pmmStack ∧
      (vmmUnmap s pm v).mem = store64 s.mem (c + 8 * leafIndex v) 0 := by
  obtain ⟨hal, hlt⟩ := h.aligned c (h.label_of_follow hpm hfollow)
  have hdescend := vmmDescend_of_follow h.toPageTables (h.root pm hpm) (by simp) hfollow
  rw [vmmUnmap, vmmSetEntry_eq, pagemapTopLevel_eq, hdescend]
  exact ⟨rfl, setLevelEntry_mem s hal hlt (leafIndex v) 0⟩

/-- Clearing an entry changes nothing if and only if it is empty. -/
lemma store64_zero_eq_self_iff (m : Memory) (a : ℕ) : store64 m a 0 = m ↔ load64 m a = 0 := by
  constructor
  · intro hsame
    rw [← hsame]
    exact load64_store64_same (by decide)
  · intro hempty
    have hself := store64_load64_self m a
    rwa [hempty] at hself

/-- `vmm_unmap` costs nothing if and only if the walk of its address gets to the last level, and ends
there in an entry that is present or empty. -/
theorem vmmUnmap_free_iff (h : PageMaps s pms lab) (hpm : pm ∈ pms) (hzero : lab 0 = none) :
    UnmapFree s pm v ↔ ∃ e, walk s pm v = some e ∧ (e &&& vmmPresent ≠ 0 ∨ e = 0) := by
  cases hfollow : follow pte (tableEntries s.mem) (rootTable s pm) (tablePath v) with
  | none =>
    have hwalk : walk s pm v = none := by rw [walk_eq_lookup, lookup, hfollow, Option.map_none]
    refine iff_of_false (h.not_unmapFree hpm hzero hwalk) ?_
    rintro ⟨e, he, -⟩
    rw [hwalk] at he
    cases he
  | some c =>
    have hwalk : walk s pm v = some (tableEntries s.mem c (leafIndex v)) := by
      rw [walk_eq_lookup, lookup_of_follow hfollow]
    obtain ⟨hstack, hmem⟩ := h.vmmUnmap_of_follow hpm hfollow
    have hsame : (vmmUnmap s pm v).mem = s.mem ↔ tableEntries s.mem c (leafIndex v) = 0 := by
      rw [hmem]
      exact store64_zero_eq_self_iff s.mem _
    constructor
    · intro hfree
      refine ⟨_, hwalk, or_iff_not_imp_left.mpr fun habsent => hsame.mp (hfree.unchanged ?_)⟩
      intro e he
      rw [hwalk, Option.some.injEq] at he
      rw [← he]
      exact not_not.mp habsent
    · rintro ⟨e, he, hpresent | hempty⟩
      · exact ⟨hstack, fun hnone => absurd (hnone e he) hpresent⟩
      · rw [hwalk, Option.some.injEq] at he
        exact ⟨hstack, fun _ => hsame.mpr (he.trans hempty)⟩

/-! ### Examples -/

/-- In the examples page `0` is not a table. -/
lemma startLabels_zero (stack : List ℕ) :
    startLabels (freshPageMap stack) examplePagemap 0 = none := by
  rw [startLabels, Function.update_of_ne]
  rw [rootTable_freshPageMap]
  decide

/-- Unmapping the page that has just been mapped costs nothing. -/
theorem vmmUnmap_free_mapped :
    UnmapFree (vmmMap (freshPageMap [0x3000, 0x4000, 0x5000]) examplePagemap 0x400000 0x6000 3)
      examplePagemap 0x400000 := by
  have hstart : EmptyPageMap (freshPageMap [0x3000, 0x4000, 0x5000]) examplePagemap :=
    emptyPageMap_freshPageMap (by decide) (by decide) (by decide) (by decide)
  have hmem := List.mem_singleton_self examplePagemap
  have hsupply : (vmmMap (freshPageMap [0x3000, 0x4000, 0x5000]) examplePagemap 0x400000 0x6000
      3).outOfPages = false :=
    (vmmSetEntry_supply examplePagemap 0x400000 (0x6000 ||| 3) rfl rfl (by decide) (by decide)).1
  have hmaps := hstart.pageMaps (by decide)
  have hwalk := (hmaps.walk_vmmSetEntry hmem hsupply).1 rfl
  obtain ⟨lab', -, -, -, -, hmaps', hconf⟩ := hmaps.setEntry_spec hmem hsupply
  refine (vmmUnmap_free_iff hmaps' hmem ?_).mpr ⟨_, hwalk, .inl (by decide)⟩
  by_contra hlab
  exact not_managed_freshPageMap (by decide) (hconf.managed 0 (.inl hlab))

/-- Unmapping an address of an empty page map does not. -/
lemma not_unmapFree_freshPageMap {stack : List ℕ}
    (hstart : EmptyPageMap (freshPageMap stack) examplePagemap)
    (hphys : ∀ p ∈ stack, p < 2 ^ 52) (v : ℕ) :
    ¬ UnmapFree (freshPageMap stack) examplePagemap v := by
  apply (hstart.pageMaps hphys).not_unmapFree (List.mem_singleton_self _) (startLabels_zero stack)
  rw [walk_eq_lookup, tablePath]
  apply lookup_cons_of_absent
  rw [hstart.entry_eq_zero]
  rfl

/-- A call for an address that was never mapped takes pages from the page stack, and when there are
none it writes to memory. -/
theorem vmmUnmap_not_free :
    ¬ UnmapFree (freshPageMap [0x3000, 0x4000, 0x5000]) examplePagemap 0x400000 ∧
      ¬ UnmapFree (freshPageMap []) examplePagemap 0x400000 := by
  constructor
  · apply not_unmapFree_freshPageMap _ (by decide)
    exact emptyPageMap_freshPageMap (by decide) (by decide) (by decide) (by decide)
  · apply not_unmapFree_freshPageMap _ (by decide)
    exact emptyPageMap_freshPageMap (by decide) (by decide) (by decide) (by decide)

end Soaplin

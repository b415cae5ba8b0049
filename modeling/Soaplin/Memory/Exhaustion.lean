import Soaplin.Memory.AddressSpace

/-!
# `vmm_map` without pages

`__vmm_get_next_lvl` does not test the result of `pmm_allocpage`.  When the page stack is empty it
takes the `NULL` result for the physical page `0`: it clears this page, links it into the tables and
goes on with it.  From then on the descent of `vmm_map` stays on page `0` (`vmmDescend_null`).  A
call is safe if the page stack holds a page for every table that is missing on the path of its
address, and only then (`vmmMap_survives_iff`).
-/

namespace Soaplin

open ByteMemory Word64 RadixForest

variable {s s' : Vmm} {lab : Labels ℕ ℕ (Fin 512)} {o t : ℕ} {p q : List (Fin 512)} {i : Fin 512}
  {pms : List ℕ} {pm v : ℕ}

/-- How many tables are missing on the path `p` below the table `t`: from the first entry on that is
not present, all of them. -/
def missingBelow (m : Memory) (t : ℕ) : List (Fin 512) → ℕ
  | [] => 0
  | i :: p =>
    match pteTable (tableEntries m t i) with
    | some c => missingBelow m c p
    | none => p.length + 1

/-- How many tables `vmm_map` has to allocate for the address `v`. -/
def missingTables (s : Vmm) (pm v : ℕ) : ℕ := missingBelow s.mem (rootTable s pm) (tablePath v)

/-- If an allocation has failed between `s` and `s'`, no walk of the page maps `pms` has changed,
and no byte outside the pages that have been popped. -/
def SurvivesExhaustion (s s' : Vmm) (pms : List ℕ) : Prop :=
  s'.outOfPages = true →
    (∀ pm ∈ pms, ∀ w, walk s' pm w = walk s pm w) ∧
      ∀ x, (∀ page ∈ poppedPages s.toPmm s'.toPmm, x < page ∨ page + pageSize ≤ x) →
        s'.mem x = s.mem x

/-- A path whose first entry is absent lacks all its tables. -/
lemma missingBelow_of_absent {m : Memory} (h : pteTable (tableEntries m t i) = none) :
    missingBelow m t (i :: p) = p.length + 1 := by
  rw [missingBelow, h]

/-- Below a present entry the path goes on. -/
lemma missingBelow_of_present {m : Memory} {c : ℕ} (h : pteTable (tableEntries m t i) = some c) :
    missingBelow m t (i :: p) = missingBelow m c p := by
  rw [missingBelow, h]

/-- Below an empty table the whole path is missing. -/
lemma missingBelow_of_cleared {m : Memory} (h : ∀ j, tableEntries m t j = 0) :
    missingBelow m t p = p.length := by
  cases p with
  | nil => rfl
  | cons i p => exact missingBelow_of_absent (by rw [h i]; rfl)

/-! ### Page `0` as a table -/

/-- Page `0` is a physical page. -/
lemma physPage_zero : PhysPage 0 := ⟨rfl, by norm_num⟩

/-- Page `0` has been linked in place of a page that could not be allocated: the page stack is
empty, and the entries of page `0` are empty or refer to page `0` itself. -/
structure NullTable (s : Vmm) : Prop where
  stack : s.pmmStack = []
  failed : s.outOfPages = true
  entries : ∀ j, tableEntries s.mem 0 j = 0 ∨ tableEntries s.mem 0 j = pte.link 0

/-- With an empty page stack `__vmm_get_next_lvl` clears page `0` and links it below an absent
entry. -/
lemma vmmGetNextLvl_exhausted (hstack : s.pmmStack = []) (ht : t % pageSize = 0)
    (htlt : t < modulus) (hc : pteTable (tableEntries s.mem t i) = none) :
    ∃ s', vmmGetNextLvl s (wadd t s.hhdmOff) i = (wadd 0 s.hhdmOff, s') ∧
      s'.mem = store64 (memset s.mem 0 0 pageSize) (t + 8 * i) (pte.link 0) ∧
      s'.pmmStack = [] ∧ s'.outOfPages = true ∧ s'.hhdmOff = s.hhdmOff := by
  have hnil : pmmAllocpage s.toPmm = (0, s.toPmm) := pmmAllocpage_nil hstack
  have hfst : (vmmAllocpage s).1 = 0 := congrArg Prod.fst hnil
  have hsnd : (vmmAllocpage s).2.toPmm = s.toPmm := congrArg Prod.snd hnil
  have heq := vmmGetNextLvl_absent ht htlt hc
  rw [hfst] at heq
  have hclear : (clearPage (vmmAllocpage s).2 (wadd 0 s.hhdmOff)).mem = memset s.mem 0 0 pageSize := by
    rw [← vmmAllocpage_mem s]
    exact clearPage_mem (vmmAllocpage s).2 (by norm_num)
  refine ⟨_, heq, ?_, ?_, ?_, rfl⟩
  · rw [wsub_wadd_cancel _ (by norm_num), ← hclear]
    exact setLevelEntry_mem _ ht htlt i _
  · change (vmmAllocpage s).2.toPmm.pmmStack = []
    rw [hsnd, hstack]
  · change (s.outOfPages || (vmmAllocpage s).1 == 0) = true
    rw [hfst]
    simp

/-- The entries after a failed allocation. -/
lemma tableEntries_exhausted {m : Memory} {b : ℕ} {j : Fin 512} (ht : t % pageSize = 0)
    (hb : b % pageSize = 0) :
    tableEntries (store64 (memset m 0 0 pageSize) (t + 8 * i) (pte.link 0)) b j =
      if b = t ∧ j = i then pte.link 0 else if b = 0 then 0 else tableEntries m b j := by
  split_ifs with hbi hb0
  · obtain ⟨rfl, rfl⟩ := hbi
    exact tableEntries_store_same _ _ _ _
  · rw [tableEntries_store_of_ne ht hb (by tauto), hb0]
    exact tableEntries_memset_same _ _ _
  · rw [tableEntries_store_of_ne ht hb (by tauto)]
    exact tableEntries_memset_of_ne rfl hb hb0

/-- After a failed allocation page `0` is a table. -/
lemma NullTable.of_exhausted (hmem : s'.mem = store64 (memset s.mem 0 0 pageSize) (t + 8 * i)
    (pte.link 0)) (ht : t % pageSize = 0) (hstack : s'.pmmStack = []) (hfailed : s'.outOfPages = true) :
    NullTable s' := by
  refine ⟨hstack, hfailed, fun j => ?_⟩
  rw [hmem, tableEntries_exhausted ht rfl, if_pos rfl]
  split_ifs
  · exact Or.inr rfl
  · exact Or.inl rfl

/-- From page `0` the descent does not get away any more, and it writes nothing else. -/
lemma vmmDescend_null (h : NullTable s) :
    ∃ s', vmmDescend s (wadd 0 s.hhdmOff) p = (wadd 0 s.hhdmOff, s') ∧ NullTable s' ∧
      s'.hhdmOff = s.hhdmOff ∧ ∀ x, pageSize ≤ x → s'.mem x = s.mem x := by
  induction p generalizing s with
  | nil => exact ⟨s, rfl, h, rfl, fun _ _ => rfl⟩
  | cons i p ih =>
    have hzero : (0 : ℕ) < modulus := by norm_num
    rw [vmmDescend]
    rcases h.entries i with hempty | hlink
    · -- an empty entry: page `0` is cleared and linked into itself
      have habsent : pteTable (tableEntries s.mem 0 i) = none := by
        rw [hempty]
        rfl
      obtain ⟨s₁, heq, hmem, hstack, hfailed, hhhdm⟩ :=
        vmmGetNextLvl_exhausted h.stack rfl hzero habsent
      obtain ⟨s', hrun, hnull, hhhdm', hframe⟩ := ih (NullTable.of_exhausted hmem rfl hstack hfailed)
      rw [hhhdm] at hrun
      rw [heq]
      refine ⟨s', hrun, hnull, hhhdm'.trans hhhdm, fun x hx => ?_⟩
      have hi := i.isLt
      rw [hframe x hx, hmem, store64_apply_of_disjoint (by simp only [pageSize] at hx; omega),
        memset_apply, if_neg (by omega)]
    · have hpresent : pteTable (tableEntries s.mem 0 i) = some 0 := by
        rw [hlink]
        exact pte_child_link physPage_zero
      rw [vmmGetNextLvl_present rfl hzero hpresent]
      exact ih h

/-! ### A descent that runs out of pages -/

/-- What a descent leaves behind that has run out of pages: it ends on page `0`, it has made an
absent entry of a table in use present, and it has kept the present ones. -/
structure Shortage (s s' : Vmm) (lab : Labels ℕ ℕ (Fin 512)) : Prop where
  null : NullTable s'
  hhdmOff : s'.hhdmOff = s.hhdmOff
  damaged : ∃ b j, lab b ≠ none ∧ pteTable (tableEntries s.mem b j) = none ∧
    pteTable (tableEntries s'.mem b j) ≠ none
  kept : ∀ b j, lab b ≠ none → pteTable (tableEntries s.mem b j) ≠ none →
    tableEntries s'.mem b j = tableEntries s.mem b j

/-- A table in use lies above page `0`. -/
lemma PageTables.pageSize_le (h : PageTables s lab) (hzero : ¬ Managed s lab 0) (ht : lab t ≠ none) :
    pageSize ≤ t := by
  obtain ⟨hal, -⟩ := h.aligned t ht
  have hne : t ≠ 0 := by
    rintro rfl
    exact hzero (Or.inl ht)
  simp only [pageSize] at *
  omega

/-- The entries of a table above page `0` only depend on the bytes above page `0`. -/
lemma tableEntries_congr_above {m m' : Memory} (h : ∀ x, pageSize ≤ x → m' x = m x)
    (ht : pageSize ≤ t) : tableEntries m' t i = tableEntries m t i :=
  load64_congr fun x hx _ => h x (by omega)

/-- The descent when the first allocation of all fails. -/
lemma vmmDescend_exhausted (h : PageTables s lab) (hzero : ¬ Managed s lab 0) (ht : lab t ≠ none)
    (hstack : s.pmmStack = []) (hc : pteTable (tableEntries s.mem t i) = none) :
    ∃ s', vmmDescend s (wadd t s.hhdmOff) (i :: p) = (wadd 0 s.hhdmOff, s') ∧ Shortage s s' lab := by
  obtain ⟨hal, hlt⟩ := h.aligned t ht
  obtain ⟨s₁, heq, hmem, hstack₁, hfailed₁, hhhdm₁⟩ := vmmGetNextLvl_exhausted hstack hal hlt hc
  obtain ⟨s', hrun, hnull, hhhdm, hframe⟩ :=
    @vmmDescend_null _ p (NullTable.of_exhausted hmem hal hstack₁ hfailed₁)
  rw [hhhdm₁] at hrun
  have hlinked : tableEntries s'.mem t i = pte.link 0 := by
    rw [tableEntries_congr_above hframe (h.pageSize_le hzero ht), hmem,
      tableEntries_exhausted hal hal, if_pos ⟨rfl, rfl⟩]
  refine ⟨s', by rw [vmmDescend, heq, hrun], hnull, hhhdm.trans hhhdm₁, ⟨t, i, ht, hc, ?_⟩, ?_⟩
  · rw [hlinked, ← pte_child, pte_child_link physPage_zero]
    exact Option.some_ne_none 0
  · intro b j hb hpresent
    have hbi : ¬ (b = t ∧ j = i) := by
      rintro ⟨rfl, rfl⟩
      exact hpresent hc
    have hb' := h.pageSize_le hzero hb
    have hb0 : b ≠ 0 := by
      simp only [pageSize] at hb'
      omega
    rw [tableEntries_congr_above hframe hb', hmem, tableEntries_exhausted hal (h.aligned b hb).1,
      if_neg hbi, if_neg hb0]

/-- A descent for which the page stack holds too few pages. -/
theorem vmmDescend_shortage (h : PageTables s lab) (hzero : ¬ Managed s lab 0)
    (hout : s.outOfPages = false) (ht : lab t = some (o, q)) (hlen : q.length + p.length ≤ 3)
    (hshort : s.pmmStack.length < missingBelow s.mem t p) :
    ∃ s', vmmDescend s (wadd t s.hhdmOff) p = (wadd 0 s.hhdmOff, s') ∧ Shortage s s' lab := by
  induction p generalizing s lab t o q with
  | nil => exact absurd hshort (Nat.not_lt_zero _)
  | cons i p ih =>
    rw [List.length_cons] at hlen
    have hin : lab t ≠ none := by rw [ht]; exact Option.some_ne_none _
    obtain ⟨hal, hlt⟩ := h.aligned t hin
    cases hc : pteTable (tableEntries s.mem t i) with
    | some c =>
      rw [missingBelow_of_present hc] at hshort
      rw [vmmDescend, vmmGetNextLvl_present hal hlt hc]
      obtain ⟨-, o₁, hlab, -⟩ := h.labelled.of_child ht (by omega) hc
      exact ih h hzero hout hlab (by rw [List.length_append, List.length_singleton]; omega) hshort
    | none =>
      cases hstack : s.pmmStack with
      | nil => exact vmmDescend_exhausted h hzero hin hstack hc
      | cons page rest =>
        -- the page is linked, and the rest of the path is missing below it
        have hpage : page ≠ 0 := by
          rintro rfl
          exact hzero (Or.inr (by rw [hstack]; exact List.mem_cons_self))
        obtain ⟨hphys, -⟩ := h.stack page (by rw [hstack]; exact List.mem_cons_self)
        obtain ⟨s₁, heq₁, -, hrest, hout₁, -, -, -⟩ :=
          vmmGetNextLvl_fresh h.initialized hstack hphys.lt_modulus hal hlt hc
        have hout₁' : s₁.outOfPages = false := by simp [hout₁, hout, hpage]
        obtain ⟨page', s₁', heq, hlink, htables, hconf⟩ :=
          vmmGetNextLvl_link h ht hc (by rw [heq₁]; exact hout₁')
        obtain ⟨hpp, rfl⟩ := Prod.mk.inj (heq₁.symm.trans heq)
        have hmissing : missingBelow s₁.mem page' p = p.length := missingBelow_of_cleared hlink.cleared
        rw [missingBelow_of_absent hc, hstack, List.length_cons] at hshort
        obtain ⟨s', hrun, hsho⟩ := ih htables (fun hm => hzero (hconf.managed 0 hm)) hout₁'
          (Function.update_self _ _ _)
          (by rw [List.length_append, List.length_singleton]; omega)
          (by rw [hrest, hmissing]; omega)
        have hkeep : ∀ b, lab b ≠ none →
            Function.update lab page' (some (o, q ++ [i])) b ≠ none := by
          intro b hb
          obtain ⟨x, hx⟩ := Option.ne_none_iff_exists'.mp hb
          rw [hlink.label_of_ne hx]
          exact Option.some_ne_none x
        have hlinked : pteTable (tableEntries s₁.mem t i) ≠ none := by
          rw [hlink.linked, ← pte_child, hlink.child_link]
          exact Option.some_ne_none _
        refine ⟨s', ?_, hsho.null, hsho.hhdmOff.trans hconf.hhdmOff, ⟨t, i, hin, hc, ?_⟩, ?_⟩
        · rw [vmmDescend, heq, ← hconf.hhdmOff, hrun]
        · rw [hsho.kept t i (hkeep t hin) hlinked]
          exact hlinked
        · intro b j hb hpresent
          obtain ⟨d, hd⟩ := Option.ne_none_iff_exists'.mp hpresent
          have hsame := hlink.entry_eq hb hd
          rw [hsho.kept b j (hkeep b hb) (by rw [hsame]; exact hpresent), hsame]

/-- A descent for which the page stack holds enough pages does not fail. -/
lemma vmmDescend_enough (h : PageTables s lab) (hzero : 0 ∉ s.pmmStack) (hout : s.outOfPages = false)
    (ht : lab t = some (o, q)) (hlen : q.length + p.length ≤ 3)
    (henough : missingBelow s.mem t p ≤ s.pmmStack.length) :
    (vmmDescend s (wadd t s.hhdmOff) p).2.outOfPages = false := by
  induction p generalizing t o q with
  | nil => exact hout
  | cons i p ih =>
    rw [List.length_cons] at hlen
    cases hc : pteTable (tableEntries s.mem t i) with
    | some c =>
      rw [missingBelow_of_present hc] at henough
      obtain ⟨hal, hlt⟩ := h.aligned t (by rw [ht]; exact Option.some_ne_none _)
      obtain ⟨-, o₁, hlab, -⟩ := h.labelled.of_child ht (by omega) hc
      rw [vmmDescend, vmmGetNextLvl_present hal hlt hc]
      exact ih hlab (by rw [List.length_append, List.length_singleton]; omega) henough
    | none =>
      rw [missingBelow_of_absent hc] at henough
      exact (@vmmDescend_supply s (i :: p) _ h.initialized hout hzero henough).1

/-! ### One call of `vmm_map` -/

/-- The final store of a call whose descent has run out of pages goes into page `0`, so that an entry
of a table in use differs from what it was before the call. -/
lemma Shortage.exists_entry_ne (h : PageTables s lab) (hzero : ¬ Managed s lab 0)
    (hsho : Shortage s s' lab) (k : Fin 512) (value : ℕ) :
    ∃ b j, lab b ≠ none ∧
      tableEntries (setLevelEntry s' (wadd 0 s.hhdmOff) k value).mem b j ≠ tableEntries s.mem b j := by
  obtain ⟨b, j, hb, habsent, hpresent⟩ := hsho.damaged
  rw [← hsho.hhdmOff]
  refine ⟨b, j, hb, fun heq => hpresent ?_⟩
  have hk := k.isLt
  have hframe : ∀ x, pageSize ≤ x →
      (setLevelEntry s' (wadd 0 s'.hhdmOff) k value).mem x = s'.mem x := by
    intro x hx
    rw [setLevelEntry_mem s' rfl (by norm_num)]
    exact store64_apply_of_disjoint (by simp only [pageSize] at hx; omega)
  rw [tableEntries_congr_above hframe (h.pageSize_le hzero hb)] at heq
  rw [heq, habsent]

/-- Without enough pages a call records the failure, and it changes an entry of a table in use. -/
theorem PageMaps.vmmSetEntry_shortage (h : PageMaps s pms lab) (hpm : pm ∈ pms)
    (hzero : ¬ Managed s lab 0) (hout : s.outOfPages = false)
    (hshort : s.pmmStack.length < missingTables s pm v) (value : ℕ) :
    (vmmSetEntry s pm v value).outOfPages = true ∧ ∃ b j, lab b ≠ none ∧
      tableEntries (vmmSetEntry s pm v value).mem b j ≠ tableEntries s.mem b j := by
  have htop : wadd (rootTable s pm) s.hhdmOff = pagemapTopLevel s pm :=
    wadd_wsub_cancel _ (load64_lt _ _)
  obtain ⟨s', hrun, hsho⟩ := vmmDescend_shortage h.toPageTables hzero hout (h.root pm hpm) (by simp)
    hshort
  rw [vmmSetEntry_eq, ← htop, hrun]
  exact ⟨hsho.null.failed, hsho.exists_entry_ne h.toPageTables hzero (leafIndex v) value⟩

/-- A table in use is not among the pages that a call pops, so that a change in it is a change
outside of them. -/
lemma PageMaps.not_survives (h : PageMaps s pms lab) {b : ℕ} {j : Fin 512} (hb : lab b ≠ none)
    (hfailed : s'.outOfPages = true)
    (hne : tableEntries s'.mem b j ≠ tableEntries s.mem b j) : ¬ SurvivesExhaustion s s' pms := by
  intro hsurvives
  obtain ⟨-, hmem⟩ := hsurvives hfailed
  refine hne (load64_congr fun x hx hxj => hmem x fun page hpage => ?_)
  obtain ⟨hphys, hfresh⟩ := h.stack page (List.mem_of_mem_take hpage)
  have hbp : b ≠ page := by
    rintro rfl
    exact hb hfresh
  have hap := page_apart (h.aligned b hb).1 hphys.1 hbp
  have hj := j.isLt
  simp only [pageSize] at *
  omega

/-- `vmm_map` survives the exhaustion of the page stack if and only if no allocation fails: the page
stack holds a page for each table that is missing on the path of the address.  Page `0`, whose
address is the `NULL` result of `pmm_allocpage`, is neither a table nor on the page stack. -/
theorem vmmMap_survives_iff (h : PageMaps s pms lab) (hpm : pm ∈ pms) (hzero : ¬ Managed s lab 0)
    (hout : s.outOfPages = false) (paddr flags : ℕ) :
    SurvivesExhaustion s (vmmMap s pm v paddr flags) pms ↔
      missingTables s pm v ≤ s.pmmStack.length := by
  constructor
  · intro hsurvives
    by_contra hshort
    obtain ⟨hfailed, b, j, hb, hne⟩ :=
      h.vmmSetEntry_shortage hpm hzero hout (not_le.mp hshort) (paddr ||| flags)
    exact h.not_survives hb hfailed hne hsurvives
  · intro henough hfailed
    have htop : wadd (rootTable s pm) s.hhdmOff = pagemapTopLevel s pm :=
      wadd_wsub_cancel _ (load64_lt _ _)
    have hsupply : (vmmMap s pm v paddr flags).outOfPages = false := by
      rw [vmmMap, vmmSetEntry_eq, ← htop]
      exact vmmDescend_enough h.toPageTables (fun hmem => hzero (Or.inr hmem)) hout (h.root pm hpm)
        (by simp) henough
    rw [hsupply] at hfailed
    cases hfailed

/-! ### Examples -/

/-- The examples keep off page `0`. -/
lemma not_managed_freshPageMap {stack : List ℕ} (hzero : 0 ∉ stack) :
    ¬ Managed (freshPageMap stack) (startLabels (freshPageMap stack) examplePagemap) 0 := by
  rintro (hlab | hmem)
  · have heq := startLabels_of_ne_none hlab
    rw [rootTable_freshPageMap] at heq
    cases heq
  · exact hzero hmem

/-- Three pages are enough for the first mapping of a page map. -/
theorem vmmMap_survives_threePages :
    SurvivesExhaustion (freshPageMap [0x3000, 0x4000, 0x5000])
      (vmmMap (freshPageMap [0x3000, 0x4000, 0x5000]) examplePagemap 0x400000 0x6000 3)
      [examplePagemap] := by
  have hstart : EmptyPageMap (freshPageMap [0x3000, 0x4000, 0x5000]) examplePagemap :=
    emptyPageMap_freshPageMap (by decide) (by decide) (by decide) (by decide)
  have hmissing : missingTables (freshPageMap [0x3000, 0x4000, 0x5000]) examplePagemap 0x400000 = 3 :=
    missingBelow_of_cleared hstart.entry_eq_zero
  refine (vmmMap_survives_iff (hstart.pageMaps (by decide)) (List.mem_singleton_self _)
    (not_managed_freshPageMap (by decide)) rfl 0x6000 3).mpr ?_
  rw [hmissing]
  exact le_rfl

/-- A mapping without any page on the page stack: page `0` becomes the table of all three levels. -/
lemma vmmMap_exhausted : ∃ s', vmmMap (freshPageMap []) examplePagemap 0x8080604000 0x6000 3 = s' ∧
    s'.outOfPages = true ∧ rootTable s' examplePagemap = 0x2000 ∧
    tableEntries s'.mem 0x2000 1 = pte.link 0 ∧ tableEntries s'.mem 0 3 = pte.link 0 ∧
    tableEntries s'.mem 0 4 = 0x6003 := by
  have hroot := rootTable_freshPageMap []
  have hempty : ∀ j, tableEntries (freshPageMap []).mem 0x2000 j = 0 := by
    rw [← hroot]
    exact (emptyPageMap_freshPageMap (by decide) (by decide) (by decide) (by decide)).entry_eq_zero
  -- the three levels of the descent
  obtain ⟨s₁, heq₁, hmem₁, hstack₁, -, hhhdm₁⟩ := @vmmGetNextLvl_exhausted (freshPageMap []) 0x2000 1
    rfl (by decide) (by decide) (by rw [hempty]; rfl)
  obtain ⟨s₂, heq₂, hmem₂, hstack₂, -, hhhdm₂⟩ := @vmmGetNextLvl_exhausted s₁ 0 2 hstack₁ rfl
    (by decide) (by rw [hmem₁, tableEntries_exhausted rfl rfl]; rfl)
  obtain ⟨s₃, heq₃, hmem₃, -, hfailed₃, hhhdm₃⟩ := @vmmGetNextLvl_exhausted s₂ 0 3 hstack₂ rfl
    (by decide) (by rw [hmem₂, tableEntries_exhausted rfl rfl, if_neg (by decide), if_pos rfl]; rfl)
  have htop : pagemapTopLevel (freshPageMap []) examplePagemap =
      wadd 0x2000 (freshPageMap []).hhdmOff := by
    rw [topLevel_freshPageMap]
    decide
  have hpath : tablePath 0x8080604000 = [1, 2, 3] ∧ leafIndex 0x8080604000 = 4 := by decide
  refine ⟨setLevelEntry s₃ (wadd 0 s₃.hhdmOff) (4 : Fin 512) 0x6003, ?_, hfailed₃, ?_⟩
  · rw [vmmMap, vmmSetEntry_eq, hpath.1, hpath.2, htop, vmmDescend, vmmDescend, vmmDescend, vmmDescend,
      heq₁, ← hhhdm₁, heq₂, ← hhhdm₂, heq₃, ← hhhdm₃]
    rfl
  generalize hs₄ : setLevelEntry s₃ (wadd 0 s₃.hhdmOff) (4 : Fin 512) 0x6003 = s₄
  have hmem₄ : s₄.mem = store64 s₃.mem (0 + 8 * (4 : Fin 512)) 0x6003 := by
    rw [← hs₄]
    exact setLevelEntry_mem s₃ rfl (by decide) 4 _
  have hhhdm₄ : s₄.hhdmOff = (freshPageMap []).hhdmOff := by
    rw [← hs₄]
    exact hhhdm₃.trans (hhhdm₂.trans hhhdm₁)
  refine ⟨?_, ?_, ?_, ?_⟩
  · -- the structure of the page map lies in the page `0x1000`
    rw [← hroot]
    have haddr : virtualToPhysical (freshPageMap []) examplePagemap = 0x1000 := by decide
    refine rootTable_congr hhhdm₄ fun x hx hx' => ?_
    rw [haddr] at hx hx'
    have hzero : ¬ (0 ≤ x ∧ x < 0 + pageSize) := by
      simp only [pageSize]
      omega
    rw [hmem₄, store64_apply_of_disjoint (by change x < 32 ∨ 40 ≤ x; omega), hmem₃,
      store64_apply_of_disjoint (by change x < 24 ∨ 32 ≤ x; omega), memset_apply, if_neg hzero, hmem₂,
      store64_apply_of_disjoint (by change x < 16 ∨ 24 ≤ x; omega), memset_apply, if_neg hzero, hmem₁,
      store64_apply_of_disjoint (by change x < 0x2008 ∨ 0x2010 ≤ x; omega), memset_apply, if_neg hzero]
  · rw [hmem₄, tableEntries_store_of_ne rfl rfl (by decide), hmem₃, tableEntries_exhausted rfl rfl,
      if_neg (by decide), if_neg (by decide), hmem₂, tableEntries_exhausted rfl rfl,
      if_neg (by decide), if_neg (by decide), hmem₁, tableEntries_exhausted rfl rfl,
      if_pos ⟨rfl, rfl⟩]
  · rw [hmem₄, tableEntries_store_of_ne rfl rfl (by decide), hmem₃, tableEntries_exhausted rfl rfl,
      if_pos ⟨rfl, rfl⟩]
  · rw [hmem₄, tableEntries_store_same]
    rfl

/-- After a mapping of `0x8080604000` without any page on the page stack, the address
`0x80c0604000`, which was never mapped, is translated with the entry meant for `0x8080604000`. -/
theorem vmmMap_not_survives :
    ¬ SurvivesExhaustion (freshPageMap []) (vmmMap (freshPageMap []) examplePagemap 0x8080604000 0x6000 3)
      [examplePagemap] := by
  obtain ⟨s', heq, hfailed, hroot', htop, hself, hleaf⟩ := vmmMap_exhausted
  rw [heq]
  intro hsurvives
  have hsame := (hsurvives hfailed).1 examplePagemap (List.mem_singleton_self _) 0x80c0604000
  have hpath : tablePath 0x80c0604000 = [1, 3, 3] ∧ leafIndex 0x80c0604000 = 4 := by decide
  have hlink : pteTable (pte.link 0) = some 0 := pte_child_link physPage_zero
  have hbefore : walk (freshPageMap []) examplePagemap 0x80c0604000 = none := by
    rw [walk_eq_lookup, hpath.1]
    exact lookup_cons_of_absent (by
      rw [(emptyPageMap_freshPageMap (by decide) (by decide) (by decide) (by decide)).entry_eq_zero]
      rfl)
  have hafter : walk s' examplePagemap 0x80c0604000 = some 0x6003 := by
    rw [walk_eq_lookup, hpath.1, hpath.2, hroot', lookup_cons_of_child (by rw [htop]; exact hlink),
      lookup_cons_of_child (by rw [hself]; exact hlink),
      lookup_cons_of_child (by rw [hself]; exact hlink), lookup_of_follow rfl, hleaf]
  rw [hbefore, hafter] at hsame
  cases hsame

end Soaplin

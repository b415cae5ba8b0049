import Soaplin.Memory.PageTable
import Soaplin.Foundation.Trace

/-!
# The translation of one page map

Runs of `vmm_map` and `vmm_unmap` on a page map whose top level starts empty.  The abstract side is
a partial map from virtual pages to entries, in which `vmm_map` sets one page and `vmm_unmap` clears
it; the walk of the processor finds what that map predicts (`walk_predicted`), provided that the
pages on the page stack have addresses of at most 52 bits.  The last section compares the rights
that the processor grants with the flags that `vmm_map` was given.
-/

namespace Soaplin

open ByteMemory Word64 RadixForest TransitionTrace

/-! ### Runs -/

/-- The calls of a run on one page map. -/
inductive MapOp
  | map (vaddr paddr flags : ℕ)
  | unmap (vaddr : ℕ)

namespace MapOp

/-- The address of a call. -/
def vaddr : MapOp → ℕ
  | map v _ _ => v
  | unmap v => v

/-- The entry that a call writes into the last-level table. -/
def entry : MapOp → ℕ
  | map _ p f => p ||| f
  | unmap _ => 0

/-- The state after a call. -/
def run (s : Vmm) (pm : ℕ) : MapOp → Vmm
  | map v p f => vmmMap s pm v p f
  | unmap v => vmmUnmap s pm v

/-- The physical address of a mapping is that of a page, and its flags are a word without address
bits. -/
def Valid : MapOp → Prop
  | map _ p f => PhysPage p ∧ f < modulus ∧ f &&& pteAddrMask = 0
  | unmap _ => True

/-- A call writes one entry. -/
lemma run_eq (s : Vmm) (pm : ℕ) (op : MapOp) : op.run s pm = vmmSetEntry s pm op.vaddr op.entry := by
  cases op <;> rfl

/-- The entry that a valid call writes is a word. -/
lemma Valid.entry_lt {op : MapOp} (h : op.Valid) : op.entry < modulus := by
  cases op with
  | map v p f => exact Nat.or_lt_two_pow h.1.lt_modulus h.2.1
  | unmap v => exact Nat.two_pow_pos 64

end MapOp

/-- One call in a run on the page map `pm`, during which `pmm_allocpage` does not fail. -/
def MapStep (pm : ℕ) (s : Vmm) (op : MapOp) (s' : Vmm) : Prop :=
  op.Valid ∧ s' = op.run s pm ∧ s'.outOfPages = false

/-! ### The abstract translation -/

/-- An abstract translation gives the entry of every mapped virtual page. -/
abbrev Translation := ℕ → Option ℕ

/-- The effect of a call on the abstract translation. -/
def MapOp.apply (T : Translation) : MapOp → Translation
  | map v p f => Function.update T (pageKey v) (some (p ||| f))
  | unmap v => Function.update T (pageKey v) none

/-- The abstract translation after a sequence of calls. -/
def translation (ops : List MapOp) : Translation := ops.foldl MapOp.apply fun _ => none

/-- The walk of `w` ends as the translation predicts: in the entry of its page if the page is
mapped, and otherwise in an empty entry or above the last level. -/
def Predicts (T : Translation) (w : ℕ) (r : Option ℕ) : Prop :=
  match T (pageKey w) with
  | some e => r = some e
  | none => r = none ∨ r = some 0

variable {T : Translation} {w e : ℕ} {r r' : Option ℕ}

/-- A call predicts the entry it writes for its own page. -/
lemma MapOp.predicts_self {op : MapOp} (hw : pageKey w = pageKey op.vaddr) :
    Predicts (op.apply T) w (some op.entry) := by
  cases op with
  | map v p f =>
    have hT : (MapOp.map v p f).apply T (pageKey w) = some (p ||| f) := by
      rw [hw]
      exact Function.update_self _ _ _
    simp only [Predicts, hT]
    rfl
  | unmap v =>
    have hT : (MapOp.unmap v).apply T (pageKey w) = none := by
      rw [hw]
      exact Function.update_self _ _ _
    simp only [Predicts, hT]
    exact .inr rfl

/-- The last call acts last. -/
lemma translation_concat (ops : List MapOp) (op : MapOp) :
    translation (ops ++ [op]) = op.apply (translation ops) := List.foldl_concat ..

/-- A call does not change the predictions for other pages. -/
lemma MapOp.apply_of_ne {op : MapOp} {key : ℕ} (hkey : key ≠ pageKey op.vaddr) :
    op.apply T key = T key := by
  cases op <;> exact Function.update_of_ne hkey _ _

/-- After the calls `ops` a page is mapped to an entry by further calls if one of them has it as its
page and all that do map it to that entry. -/
lemma translation_append_eq_some (ops : List MapOp) {ops' : List MapOp} {key : ℕ}
    (hmem : ∃ op ∈ ops', pageKey op.vaddr = key)
    (hall : ∀ op ∈ ops', pageKey op.vaddr = key → ∀ T, op.apply T key = some e) :
    translation (ops ++ ops') key = some e := by
  induction ops' using List.reverseRecOn with
  | nil =>
    obtain ⟨op, hop, -⟩ := hmem
    cases hop
  | append_singleton ops' op ih =>
    rw [← List.append_assoc, translation_concat]
    by_cases hkey : pageKey op.vaddr = key
    · exact hall op (by simp) hkey _
    · rw [MapOp.apply_of_ne (Ne.symm hkey)]
      obtain ⟨op', hop', hkey'⟩ := hmem
      rcases List.mem_append.mp hop' with hop' | hop'
      · exact ih ⟨op', hop', hkey'⟩ fun op hop => hall op (List.mem_append_left _ hop)
      · rw [List.mem_singleton.mp hop'] at hkey'
        exact absurd hkey' hkey

/-- A page is mapped only if some call has mapped it. -/
lemma exists_call_of_translation {ops : List MapOp} {key : ℕ} (h : translation ops key = some e) :
    ∃ op ∈ ops, pageKey op.vaddr = key ∧ op.entry = e := by
  induction ops using List.reverseRecOn with
  | nil => cases h
  | append_singleton ops op ih =>
    rw [translation_concat] at h
    by_cases hkey : pageKey op.vaddr = key
    · subst hkey
      cases op with
      | map v p f =>
        refine ⟨_, by simp, rfl, ?_⟩
        rw [MapOp.apply, MapOp.vaddr, Function.update_self] at h
        exact Option.some.inj h
      | unmap v =>
        rw [MapOp.apply, MapOp.vaddr, Function.update_self] at h
        cases h
    · rw [MapOp.apply_of_ne (Ne.symm hkey)] at h
      obtain ⟨op', hop', hop''⟩ := ih h
      exact ⟨op', List.mem_append_left _ hop', hop''⟩

/-- An unmapped page may lose the tables above it or gain empty ones. -/
lemma Predicts.of_grown (h : Predicts T w r) (hr : r' = r ∨ (r = none ∧ r' = some 0)) :
    Predicts T w r' := by
  rcases hr with rfl | ⟨rfl, rfl⟩
  · exact h
  · unfold Predicts at h ⊢
    cases hT : T (pageKey w) with
    | some e =>
      rw [hT] at h
      cases h
    | none => exact .inr rfl

/-! ### Refinement -/

/-- The start of a run: a page map with an empty top-level table, and a page stack of distinct
page-aligned pages, which contains neither the top-level table nor the page of the structure. -/
structure EmptyPageMap (s : Vmm) (pm : ℕ) : Prop where
  /-- The page allocator is initialised. -/
  initialized : s.pmmInitialized
  /-- The pages on the page stack are distinct. -/
  nodup : s.pmmStack.Nodup
  /-- They are page-aligned. -/
  stack : ∀ p ∈ s.pmmStack, p % pageSize = 0 ∧ p < modulus
  /-- The field `topLevel` is not `NULL`. -/
  top_ne : pagemapTopLevel s pm ≠ 0
  /-- The top-level table is a page. -/
  top : rootTable s pm % pageSize = 0
  /-- It is not on the page stack. -/
  top_notMem : rootTable s pm ∉ s.pmmStack
  /-- All its bytes are zero. -/
  empty : ∀ x, rootTable s pm ≤ x → x < rootTable s pm + pageSize → s.mem x = 0
  /-- The structure of the page map lies in a page that is not on the page stack. -/
  holder : ∃ page, page % pageSize = 0 ∧ page ∉ s.pmmStack ∧ page ≤ virtualToPhysical s pm ∧
    virtualToPhysical s pm + 16 ≤ page + pageSize

variable {s s' s₀ : Vmm} {pm : ℕ} {ops : List MapOp}

/-- The labels at the start, when only the top-level table is in use. -/
def startLabels (s : Vmm) (pm : ℕ) : Labels ℕ ℕ (Fin 512) :=
  Function.update (fun _ => none) (rootTable s pm) (some (pm, []))

/-- At the start nothing but the top-level table is in use. -/
lemma startLabels_of_ne_none {t : ℕ} (h : startLabels s pm t ≠ none) : t = rootTable s pm := by
  by_contra hne
  exact h (Function.update_of_ne hne _ _)

/-- Two different pages do not overlap. -/
lemma page_apart {a b : ℕ} (ha : a % pageSize = 0) (hb : b % pageSize = 0) (hne : a ≠ b) :
    a + pageSize ≤ b ∨ b + pageSize ≤ a := by
  simp only [pageSize] at *
  omega

/-- A state with one page map, whose top-level table is empty and the only table in use. -/
lemma pageMaps_startLabels (hinit : s.pmmInitialized) (hnodup : s.pmmStack.Nodup)
    (hstack : ∀ p ∈ s.pmmStack, PhysPage p) (htop : rootTable s pm % pageSize = 0)
    (hnotMem : rootTable s pm ∉ s.pmmStack)
    (hempty : ∀ i, tableEntries s.mem (rootTable s pm) i = pte.zero)
    (hapart : ∀ t, t = rootTable s pm ∨ t ∈ s.pmmStack →
      virtualToPhysical s pm + 8 ≤ t ∨ t + pageSize ≤ virtualToPhysical s pm) :
    PageMaps s [pm] (startLabels s pm) := by
  refine ⟨⟨hinit, hnodup, fun p hp => ⟨hstack p hp, ?_⟩, fun t ht => ?_,
    fun t o q ht _ i => .inl ?_⟩, fun pm' hpm' => ?_, fun pm' hpm' t ht => ?_⟩
  · by_contra hne
    exact hnotMem (startLabels_of_ne_none hne ▸ hp)
  · rw [startLabels_of_ne_none ht]
    exact ⟨htop, wsub_lt _ _⟩
  · have heq : t = rootTable s pm :=
      startLabels_of_ne_none (by rw [ht]; exact Option.some_ne_none _)
    rw [heq]
    exact hempty i
  · rw [List.mem_singleton.mp hpm']
    exact Function.update_self _ _ _
  · rw [List.mem_singleton.mp hpm']
    exact hapart t (ht.imp startLabels_of_ne_none id)

namespace EmptyPageMap

/-- The page of the structure is not the top-level table. -/
lemma holder_ne_top (h : EmptyPageMap s pm) {page : ℕ} (hle : page ≤ virtualToPhysical s pm)
    (hle' : virtualToPhysical s pm + 16 ≤ page + pageSize) : page ≠ rootTable s pm := by
  rintro rfl
  -- a pointer inside the empty table is `NULL`
  refine h.top_ne (load64_eq_zero fun x hx hx' => h.empty x ?_ ?_)
  · exact hle.trans hx
  · omega

/-- All entries of the top-level table are empty. -/
lemma entry_eq_zero (h : EmptyPageMap s pm) (i : Fin 512) :
    tableEntries s.mem (rootTable s pm) i = pte.zero := by
  have hi := i.isLt
  refine load64_eq_zero fun x hx hx' => h.empty x ?_ ?_
  · omega
  · simp only [pageSize]
    omega

/-- The start is a state with one page map, if the pages have addresses of at most 52 bits. -/
lemma pageMaps (h : EmptyPageMap s pm) (hphys : ∀ p ∈ s.pmmStack, p < 2 ^ 52) :
    PageMaps s [pm] (startLabels s pm) := by
  refine pageMaps_startLabels h.initialized h.nodup (fun p hp => ⟨(h.stack p hp).1, hphys p hp⟩)
    h.top h.top_notMem h.entry_eq_zero fun t ht => ?_
  obtain ⟨page, hpage, hmem, hle, hle'⟩ := h.holder
  have hne : page ≠ t ∧ t % pageSize = 0 := by
    rcases ht with rfl | ht
    · exact ⟨h.holder_ne_top hle hle', h.top⟩
    · refine ⟨?_, (h.stack t ht).1⟩
      rintro rfl
      exact hmem ht
  rcases page_apart hpage hne.2 hne.1 with hlt | hlt
  · exact .inl (by omega)
  · exact .inr (by omega)

end EmptyPageMap

/-- A call keeps the page map. -/
lemma PageMaps.step {pms : List ℕ} {lab : Labels ℕ ℕ (Fin 512)} {op : MapOp}
    (h : PageMaps s pms lab) (hpm : pm ∈ pms) (hstep : MapStep pm s op s') :
    ∃ lab', PageMaps s' pms lab' := by
  obtain ⟨-, rfl, hsupply⟩ := hstep
  rw [MapOp.run_eq] at hsupply ⊢
  obtain ⟨lab', -, -, -, -, hmaps, -⟩ := h.setEntry_spec hpm hsupply
  exact ⟨lab', hmaps⟩

/-- What a call does to a walk is what it does to the abstract translation. -/
lemma PageMaps.predicts_step {pms : List ℕ} {lab : Labels ℕ ℕ (Fin 512)} {op : MapOp}
    (h : PageMaps s pms lab) (hpm : pm ∈ pms) (hstep : MapStep pm s op s')
    (hT : Predicts T w (walk s pm w)) : Predicts (op.apply T) w (walk s' pm w) := by
  obtain ⟨hvalid, rfl, hsupply⟩ := hstep
  rw [MapOp.run_eq] at hsupply ⊢
  obtain ⟨hsame, hother⟩ := h.walk_vmmSetEntry (w := w) hpm hsupply
  by_cases hw : pageKey w = pageKey op.vaddr
  · rw [hsame hw, Nat.mod_eq_of_lt hvalid.entry_lt]
    exact MapOp.predicts_self hw
  · have hgrown := hT.of_grown (hother hw pm hpm)
    unfold Predicts at hgrown ⊢
    rwa [MapOp.apply_of_ne hw]

/-- The page map is kept by every run. -/
lemma PageMaps.of_trace {lab : Labels ℕ ℕ (Fin 512)} (h : PageMaps s₀ [pm] lab)
    (htrace : Trace (MapStep pm) s₀ ops s) : ∃ lab, PageMaps s [pm] lab := by
  refine htrace.invariant (fun s => ∃ lab, PageMaps s [pm] lab) ⟨_, h⟩ ?_
  rintro s₁ op s₂ ⟨lab, hmaps⟩ hstep
  exact hmaps.step (List.mem_singleton_self pm) hstep

/-- A page map with an empty top level is translated as predicted, and stays so in every run. -/
lemma PageMaps.predicts_of_trace {lab : Labels ℕ ℕ (Fin 512)} (h : PageMaps s₀ [pm] lab)
    (hempty : ∀ i, tableEntries s₀.mem (rootTable s₀ pm) i = pte.zero)
    (htrace : Trace (MapStep pm) s₀ ops s) (w : ℕ) :
    Predicts (translation ops) w (walk s pm w) := by
  have hpm := List.mem_singleton_self pm
  induction htrace with
  | nil =>
    refine .inl ?_
    rw [walk_eq_lookup, tablePath, lookup_cons_of_absent (by rw [hempty]; rfl)]
  | @snoc ops op s₁ s₂ hprefix hstep ih =>
    obtain ⟨lab₁, hmaps⟩ := h.of_trace hprefix
    rw [translation_concat]
    exact hmaps.predicts_step hpm hstep ih

/-- In every run of `vmm_map` and `vmm_unmap` on a page map that starts empty, the walk of every
address ends in what the abstract translation predicts.  The pages of the page stack have addresses
of at most 52 bits. -/
theorem walk_predicted (h : EmptyPageMap s₀ pm) (hphys : ∀ p ∈ s₀.pmmStack, p < 2 ^ 52)
    (htrace : Trace (MapStep pm) s₀ ops s) (w : ℕ) :
    Predicts (translation ops) w (walk s pm w) :=
  (h.pageMaps hphys).predicts_of_trace h.entry_eq_zero htrace w

/-- The page map of the examples: its structure is in the page `0x1000`. -/
def examplePagemap : ℕ := 0xffff800000001000

/-- A state with one page map, whose empty top-level table is the page `0x2000`. -/
def freshPageMap (stack : List ℕ) : Vmm where
  mem := store64 (fun _ => 0) 0x1000 0xffff800000002000
  pmmStack := stack
  pmmFreeBlocks := 0
  pmmInitialized := true
  pmmUsedMem := 0
  pmmFreeMem := 0
  pmmTotalMem := 0
  hhdmOff := 0xffff800000000000
  kernelPhysAddr := 0
  kernelVirtAddr := 0
  vmmKernelPagemap := examplePagemap
  vmmCurrentPagemap := 0
  cr3 := 0
  outOfPages := false

/-- The field `topLevel` of that page map. -/
lemma topLevel_freshPageMap (stack : List ℕ) :
    pagemapTopLevel (freshPageMap stack) examplePagemap = 0xffff800000002000 := by
  have haddr : virtualToPhysical (freshPageMap stack) examplePagemap = 0x1000 := by
    change wsub examplePagemap 0xffff800000000000 = 0x1000
    decide
  rw [pagemapTopLevel, readWord, haddr]
  exact load64_store64_same (by decide)

/-- The top-level table of that page map. -/
lemma rootTable_freshPageMap (stack : List ℕ) :
    rootTable (freshPageMap stack) examplePagemap = 0x2000 := by
  rw [rootTable, topLevel_freshPageMap]
  change wsub 0xffff800000002000 0xffff800000000000 = 0x2000
  decide

/-- That page map is empty, whatever the page stack consists of. -/
lemma emptyPageMap_freshPageMap {stack : List ℕ} (hnodup : stack.Nodup)
    (hpages : ∀ p ∈ stack, p % pageSize = 0 ∧ p < modulus) (hholder : 0x1000 ∉ stack)
    (htop : 0x2000 ∉ stack) : EmptyPageMap (freshPageMap stack) examplePagemap := by
  have haddr : virtualToPhysical (freshPageMap stack) examplePagemap = 0x1000 := by
    change wsub examplePagemap 0xffff800000000000 = 0x1000
    decide
  refine ⟨rfl, hnodup, hpages, by rw [topLevel_freshPageMap]; decide, ?_, ?_, fun x hx _ => ?_,
    0x1000, by decide, hholder, by rw [haddr], by rw [haddr]; decide⟩
  · rw [rootTable_freshPageMap]
    decide
  · rwa [rootTable_freshPageMap]
  · rw [rootTable_freshPageMap] at hx
    exact store64_apply_of_disjoint (.inr (by omega))

/-- Three good pages are enough for one mapping. -/
lemma step_freshPageMap {l : List ℕ} (hzero : 0 ∉ l) (hlen : 3 ≤ l.length) {v p f : ℕ}
    (hvalid : (MapOp.map v p f).Valid) :
    MapStep examplePagemap (freshPageMap l) (.map v p f)
      (vmmMap (freshPageMap l) examplePagemap v p f) :=
  ⟨hvalid, rfl, (vmmSetEntry_supply (s := freshPageMap l) _ _ _ rfl rfl hzero hlen).1⟩

/-- One mapping in an empty page map, and the walk of an address of its page. -/
theorem walk_predicted_freshPageMap :
    walk (vmmMap (freshPageMap [0x3000, 0x4000, 0x5000]) examplePagemap 0x400000 0x6000 3)
      examplePagemap 0x400fff = some 0x6003 := by
  have hstart : EmptyPageMap (freshPageMap [0x3000, 0x4000, 0x5000]) examplePagemap :=
    emptyPageMap_freshPageMap (by decide) (by decide) (by decide) (by decide)
  have hstep := step_freshPageMap (l := [0x3000, 0x4000, 0x5000]) (v := 0x400000) (p := 0x6000)
    (f := 3) (by decide) le_rfl ⟨by decide, by decide, by decide⟩
  exact walk_predicted hstart (by decide) (Trace.single hstep) 0x400fff

/-- The descent for the address `0` with a page of too large an address on top of the page stack: the
page is linked first.  Except for the three fresh tables, the entries are those after this step. -/
lemma vmmDescend_highPage : ∃ m₁ s₃,
    vmmDescend (freshPageMap [2 ^ 52, 0x3000, 0x4000]) 0xffff800000002000 [0, 0, 0] =
      (wadd 0x4000 s₃.hhdmOff, s₃) ∧
    s₃.hhdmOff = 0xffff800000000000 ∧
    m₁ = store64 (memset (freshPageMap [2 ^ 52, 0x3000, 0x4000]).mem (2 ^ 52) 0 pageSize)
      (0x2000 + 8 * (0 : Fin 512)) (pte.link (2 ^ 52)) ∧
    ∀ b, b % pageSize = 0 → b ≠ 0x4000 → b ≠ 0x3000 → b ≠ 2 ^ 52 →
      tableEntries s₃.mem b 0 = tableEntries m₁ b 0 := by
  have hstart : EmptyPageMap (freshPageMap [2 ^ 52, 0x3000, 0x4000]) examplePagemap :=
    emptyPageMap_freshPageMap (by decide) (by decide) (by decide) (by decide)
  have htop : wadd 0x2000 0xffff800000000000 = 0xffff800000002000 := by decide
  -- the three tables
  obtain ⟨s₁, heq₁, hmem₁, hstack₁, -, hinit₁, hhdm₁, -⟩ := vmmGetNextLvl_fresh
    (s := freshPageMap [2 ^ 52, 0x3000, 0x4000]) (t := 0x2000) (i := 0) rfl rfl (by decide)
    (by decide) (by decide) (by
      have hzero := hstart.entry_eq_zero 0
      rw [rootTable_freshPageMap] at hzero
      rw [hzero]
      rfl)
  obtain ⟨s₂, heq₂, hmem₂, hstack₂, -, hinit₂, hhdm₂, -⟩ := vmmGetNextLvl_fresh
    (s := s₁) (t := 2 ^ 52) (i := 0) hinit₁ hstack₁ (by decide) (by decide) (by decide) (by
      rw [hmem₁, tableEntries_store_of_ne (by decide) (by decide) (.inl (by decide)),
        tableEntries_memset_same]
      rfl)
  obtain ⟨s₃, heq₃, hmem₃, -, -, -, hhdm₃, -⟩ := vmmGetNextLvl_fresh
    (s := s₂) (t := 0x3000) (i := 0) (hinit₂.trans hinit₁) hstack₂ (by decide) (by decide)
    (by decide) (by
      rw [hmem₂, tableEntries_store_of_ne (by decide) (by decide) (.inl (by decide)),
        tableEntries_memset_same]
      rfl)
  refine ⟨s₁.mem, s₃, ?_, hhdm₃.trans (hhdm₂.trans hhdm₁), hmem₁, fun b hb h₃ h₂ h₁ => ?_⟩
  · rw [← htop, vmmDescend, show wadd 0x2000 0xffff800000000000 =
      wadd 0x2000 (freshPageMap [2 ^ 52, 0x3000, 0x4000]).hhdmOff from rfl, heq₁, vmmDescend,
      ← hhdm₁, heq₂, vmmDescend, ← hhdm₂, heq₃, vmmDescend, ← hhdm₃]
  · rw [hmem₃, tableEntries_store_of_ne (by decide) hb (.inl h₂),
      tableEntries_memset_of_ne (by decide) hb h₃, hmem₂,
      tableEntries_store_of_ne (by decide) hb (.inl h₁), tableEntries_memset_of_ne (by decide) hb h₂]

/-- A mapping with that page: the entry of the top-level table has lost the bit `52`, so that the
walk goes on in the page `0`. -/
lemma walk_highPage :
    walk (vmmMap (freshPageMap [2 ^ 52, 0x3000, 0x4000]) examplePagemap 0 0x6000 1)
      examplePagemap 0 = none := by
  obtain ⟨m₁, s₃, hdescend, hhdm₃, hmem₁, hsame⟩ := vmmDescend_highPage
  have hpath : tablePath 0 = [0, 0, 0] := by decide
  obtain ⟨hmem, hhdm⟩ :
      (vmmMap (freshPageMap [2 ^ 52, 0x3000, 0x4000]) examplePagemap 0 0x6000 1).mem =
        store64 s₃.mem (0x4000 + 8 * (0 : Fin 512)) 0x6001 ∧
      (vmmMap (freshPageMap [2 ^ 52, 0x3000, 0x4000]) examplePagemap 0 0x6000 1).hhdmOff =
        0xffff800000000000 := by
    rw [vmmMap, vmmSetEntry_eq, topLevel_freshPageMap, hpath, hdescend]
    exact ⟨setLevelEntry_mem s₃ (by decide) (by decide) 0 0x6001, hhdm₃⟩
  generalize vmmMap (freshPageMap [2 ^ 52, 0x3000, 0x4000]) examplePagemap 0 0x6000 1 = s
    at hmem hhdm ⊢
  have hkept : ∀ b, b % pageSize = 0 → b ≠ 0x4000 → b ≠ 0x3000 → b ≠ 2 ^ 52 →
      tableEntries s.mem b 0 = tableEntries m₁ b 0 := by
    intro b hb h₃ h₂ h₁
    rw [hmem, tableEntries_store_of_ne (by decide) hb (.inl h₃)]
    exact hsame b hb h₃ h₂ h₁
  have hholder : tableEntries s.mem 0x1000 0 = 0xffff800000002000 := by
    rw [hkept _ (by decide) (by decide) (by decide) (by decide), hmem₁,
      tableEntries_store_of_ne (by decide) (by decide) (.inl (by decide)),
      tableEntries_memset_of_ne (by decide) (by decide) (by decide)]
    exact load64_store64_same (by decide)
  have hroot : rootTable s examplePagemap = 0x2000 := by
    rw [rootTable, virtualToPhysical, pagemapTopLevel, readWord, virtualToPhysical, hhdm,
      show wsub examplePagemap 0xffff800000000000 = 0x1000 by decide]
    change wsub (tableEntries s.mem 0x1000 0) 0xffff800000000000 = 0x2000
    rw [hholder]
    decide
  have hlost : pteTable (tableEntries s.mem 0x2000 0) = some 0 := by
    rw [hkept 0x2000 (by decide) (by decide) (by decide) (by decide), hmem₁,
      tableEntries_store_same]
    decide
  have hzero : pteTable (tableEntries s.mem 0 0) = none := by
    rw [hkept 0 (by decide) (by decide) (by decide) (by decide), hmem₁,
      tableEntries_store_of_ne (by decide) (by decide) (.inl (by decide)),
      tableEntries_memset_of_ne (by decide) (by decide) (by decide)]
    decide
  rw [walk_eq_lookup, hroot, hpath, lookup_cons_of_child hlost, lookup_cons_of_absent hzero]

/-- A page of the page stack with a larger address breaks the translation: the entry that refers to
it loses the bits above bit `51`. -/
theorem walk_not_predicted :
    EmptyPageMap (freshPageMap [2 ^ 52, 0x3000, 0x4000]) examplePagemap ∧
      Trace (MapStep examplePagemap) (freshPageMap [2 ^ 52, 0x3000, 0x4000]) [.map 0 0x6000 1]
        (vmmMap (freshPageMap [2 ^ 52, 0x3000, 0x4000]) examplePagemap 0 0x6000 1) ∧
      ¬ Predicts (translation [.map 0 0x6000 1]) 0
        (walk (vmmMap (freshPageMap [2 ^ 52, 0x3000, 0x4000]) examplePagemap 0 0x6000 1)
          examplePagemap 0) := by
  have hstart : EmptyPageMap (freshPageMap [2 ^ 52, 0x3000, 0x4000]) examplePagemap :=
    emptyPageMap_freshPageMap (by decide) (by decide) (by decide) (by decide)
  have hstep := step_freshPageMap (l := [2 ^ 52, 0x3000, 0x4000]) (v := 0) (p := 0x6000)
    (f := 1) (by decide) le_rfl ⟨by decide, by decide, by decide⟩
  refine ⟨hstart, Trace.single hstep, ?_⟩
  rw [walk_highPage]
  exact Option.some_ne_none _ ∘ Eq.symm

end Soaplin

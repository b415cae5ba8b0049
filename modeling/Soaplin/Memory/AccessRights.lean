import Soaplin.Memory.Translation
import Mathlib.Data.Nat.Bitwise

/-!
# Access rights

The rights that the processor grants along the four entries of a walk, compared with the flags that
`vmm_map` was given.  The entries that `__vmm_get_next_lvl` creates are all alike: present and
writable, without the user bit.  So the right to write and the right to execute come out as
requested, and user access is never granted.
-/

namespace Soaplin

open ByteMemory Word64 RadixForest TransitionTrace

variable {s s' s₀ : Vmm} {pm v p f w c e : ℕ} {ops : List MapOp} {pms : List ℕ}
  {lab : Labels ℕ ℕ (Fin 512)}

/-- An entry refers to an address of at most 52 bits. -/
lemma pteTable_lt (h : pteTable e = some c) : c < 2 ^ 52 := by
  unfold pteTable at h
  split_ifs at h
  rw [Option.some.injEq, pteGetAddr_eq] at h
  omega

/-- The bits of an entry that `__vmm_get_next_lvl` creates: writable, not for users, executable. -/
lemma pte_link_bits (hc : PhysPage c) :
    (pte.link c).testBit 1 = true ∧ (pte.link c).testBit 2 = false ∧
      (pte.link c).testBit 63 = false := by
  obtain ⟨hmod, hlt⟩ := hc
  simp only [pte_link hmod, pageSize, Nat.testBit_eq_decide_div_mod_eq] at hmod ⊢
  refine ⟨?_, ?_, ?_⟩
  · rw [decide_eq_true_eq]
    omega
  · rw [decide_eq_false_iff_not]
    omega
  · rw [decide_eq_false_iff_not]
    omega

/-- A walk that reaches the last level has passed three entries created by
`__vmm_get_next_lvl`. -/
lemma PageMaps.walkEntries_eq (h : PageMaps s pms lab) (hpm : pm ∈ pms) (hw : walk s pm w = some e) :
    ∃ c₃ c₂ c₁, PhysPage c₃ ∧ PhysPage c₂ ∧ PhysPage c₁ ∧
      walkEntries s pm w = some [pte.link c₃, pte.link c₂, pte.link c₁, e] := by
  have hphys : ∀ {t c : ℕ} {i : Fin 512} {o : ℕ} {q : List (Fin 512)}, lab c = some (o, q) →
      pteTable (tableEntries s.mem t i) = some c → PhysPage c := fun hlab hc =>
    ⟨(h.aligned _ (by rw [hlab]; exact Option.some_ne_none _)).1, pteTable_lt hc⟩
  obtain ⟨es, hes, hlast⟩ := Option.bind_eq_some_iff.mp hw
  obtain ⟨c₃, c₂, c₁, hc₃, hc₂, hc₁, rfl⟩ := walkEntries_eq_some_iff.mp hes
  -- each present entry is a reference created for a table of the next level
  obtain ⟨he₃, o₃, hlab₃, -⟩ := h.labelled.of_child (h.root pm hpm) (by simp) hc₃
  obtain ⟨he₂, o₂, hlab₂, -⟩ := h.labelled.of_child hlab₃ (by simp) hc₂
  obtain ⟨he₁, o₁, hlab₁, -⟩ := h.labelled.of_child hlab₂ (by simp) hc₁
  refine ⟨c₃, c₂, c₁, hphys hlab₃ hc₃, hphys hlab₂ hc₂, hphys hlab₁ hc₁, ?_⟩
  rw [hes, he₃, he₂, he₁, show tableEntries s.mem c₁ (leafIndex w) = e from Option.some.inj hlast]

/-- The rights along such entries are those of the last entry, without user access. -/
lemma ofEntries_links {c₃ c₂ c₁ : ℕ} (h₃ : PhysPage c₃) (h₂ : PhysPage c₂) (h₁ : PhysPage c₁) :
    Rights.ofEntries [pte.link c₃, pte.link c₂, pte.link c₁, e] =
      ⟨e.testBit 1, false, e.testBit 63⟩ := by
  simp [Rights.ofEntries, pte_link_bits h₃, pte_link_bits h₂, pte_link_bits h₁]

/-- The rights of an address whose walk ends in a present entry. -/
lemma PageMaps.effectiveRights_of_walk (h : PageMaps s pms lab) (hpm : pm ∈ pms)
    (hw : walk s pm w = some e) (hbit : e.testBit 0 = true) :
    effectiveRights s pm w = some ⟨e.testBit 1, false, e.testBit 63⟩ := by
  obtain ⟨c₃, c₂, c₁, h₃, h₂, h₁, hes⟩ := h.walkEntries_eq hpm hw
  rw [effectiveRights, hes, Option.bind_some, ofEntries_links h₃ h₂ h₁]
  exact if_pos hbit

/-- An address with rights is one whose walk ends in a present entry. -/
lemma exists_walk_of_effectiveRights {r : Rights} (h : effectiveRights s pm w = some r) :
    ∃ e, walk s pm w = some e ∧ e.testBit 0 = true := by
  obtain ⟨es, hes, hr⟩ := Option.bind_eq_some_iff.mp h
  split_ifs at hr with hbit
  obtain ⟨e, he, hbit'⟩ := (Option.any_eq_true _ _).mp hbit
  exact ⟨e, by rw [walk, hes]; exact he, hbit'⟩

/-- A flag is present if its bit is set. -/
lemma and_two_pow_ne_zero_iff (f i : ℕ) : f &&& 2 ^ i ≠ 0 ↔ f.testBit i = true := by
  rw [Nat.and_two_pow]
  cases f.testBit i <;> simp

/-- Below and above the address bits an entry of `vmm_map` has the bits of its flags. -/
lemma testBit_entry (hp : PhysPage p) {i : ℕ} (hi : i < 12 ∨ 52 ≤ i) :
    (p ||| f).testBit i = f.testBit i := by
  have hbit : p.testBit i = false := by
    rcases hi with hi | hi
    · obtain ⟨k, rfl⟩ := Nat.dvd_of_mod_eq_zero hp.1
      change (2 ^ 12 * k).testBit i = false
      rw [Nat.testBit_two_pow_mul, decide_eq_false (by omega), Bool.false_and]
    · exact Nat.testBit_lt_two_pow (lt_of_lt_of_le hp.2 (Nat.pow_le_pow_right (by decide) hi))
  rw [Nat.testBit_or, hbit, Bool.false_or]

/-- The right to write is the flag for it. -/
lemma testBit_write (f : ℕ) : f.testBit 1 = (f &&& vmmWrite != 0) := by
  rw [Bool.eq_iff_iff, bne_iff_ne]
  exact (and_two_pow_ne_zero_iff f 1).symm

/-- After `vmm_map` with the present flag, the rights of the address are those that the flags ask
for, without user access. -/
lemma PageMaps.effectiveRights_map (h : PageMaps s pms lab) (hpm : pm ∈ pms)
    (hstep : MapStep pm s (.map v p f) s') (hpresent : f &&& vmmPresent ≠ 0) :
    effectiveRights s' pm v = some { Rights.ofFlags f with user := false } := by
  obtain ⟨hvalid, rfl, hsupply⟩ := hstep
  obtain ⟨lab', -, -, -, -, hmaps', -⟩ := h.setEntry_spec hpm hsupply
  have hwalk := (h.walk_vmmSetEntry (w := v) hpm hsupply).1 rfl
  rw [Nat.mod_eq_of_lt (show p ||| f < modulus from hvalid.entry_lt)] at hwalk
  have hbit : (p ||| f).testBit 0 = true := by
    rw [testBit_entry hvalid.1 (by omega)]
    exact (and_two_pow_ne_zero_iff f 0).mp hpresent
  have hrights := hmaps'.effectiveRights_of_walk hpm hwalk hbit
  rw [testBit_entry hvalid.1 (by omega), testBit_entry hvalid.1 (by omega), testBit_write] at hrights
  exact hrights

/-- In every run on a page map that starts empty, `vmm_map` with the present flag grants exactly the
rights that its flags ask for if and only if these do not include user access. -/
theorem rights_exact_iff (h : EmptyPageMap s₀ pm) (hphys : ∀ p ∈ s₀.pmmStack, p < 2 ^ 52)
    (htrace : Trace (MapStep pm) s₀ ops s) (hstep : MapStep pm s (.map v p f) s')
    (hpresent : f &&& vmmPresent ≠ 0) :
    effectiveRights s' pm v = some (Rights.ofFlags f) ↔ f &&& vmmUser = 0 := by
  obtain ⟨lab, hmaps⟩ := (h.pageMaps hphys).of_trace htrace
  rw [hmaps.effectiveRights_map (List.mem_singleton_self pm) hstep hpresent]
  simp [Rights.ofFlags]

/-- Six good pages are enough for two mappings. -/
lemma step_step_freshPageMap {l : List ℕ} (hstart : EmptyPageMap (freshPageMap l) examplePagemap)
    (hphys : ∀ p ∈ l, p < 2 ^ 52) (hzero : 0 ∉ l) (hlen : 6 ≤ l.length) {v p f w q g : ℕ}
    (hvalid : (MapOp.map v p f).Valid) (hvalid' : (MapOp.map w q g).Valid) :
    MapStep examplePagemap (vmmMap (freshPageMap l) examplePagemap v p f) (.map w q g)
      (vmmMap (vmmMap (freshPageMap l) examplePagemap v p f) examplePagemap w q g) := by
  have hstep := step_freshPageMap hzero (by omega) hvalid
  obtain ⟨lab, hmaps⟩ := (hstart.pageMaps hphys).of_trace (Trace.single hstep)
  -- the first mapping leaves three pages
  obtain ⟨-, k, hk, hstack⟩ := vmmSetEntry_supply (s := freshPageMap l) examplePagemap v (p ||| f)
    rfl rfl hzero (show 3 ≤ l.length by omega)
  have hrest : (vmmMap (freshPageMap l) examplePagemap v p f).pmmStack = l.drop k := hstack
  refine ⟨hvalid', rfl, (vmmSetEntry_supply _ _ _ hmaps.initialized hstep.2.2 ?_ ?_).1⟩
  · rw [hrest]
    exact fun hmem => hzero (List.mem_of_mem_drop hmem)
  · rw [hrest, List.length_drop]
    omega

/-- A page that has been mapped for reading is mapped again for reading and writing, and gets these
rights. -/
theorem rights_exact_remapped : ∃ s₁ s₂,
    Trace (MapStep examplePagemap) (freshPageMap [0x3000, 0x4000, 0x5000, 0x6000, 0x7000, 0x8000])
      [.map 0x400000 0xa000 1] s₁ ∧
    MapStep examplePagemap s₁ (.map 0x400000 0xb000 3) s₂ ∧
    effectiveRights s₂ examplePagemap 0x400000 = some (Rights.ofFlags 3) := by
  have hstart : EmptyPageMap (freshPageMap [0x3000, 0x4000, 0x5000, 0x6000, 0x7000, 0x8000])
      examplePagemap := emptyPageMap_freshPageMap (by decide) (by decide) (by decide) (by decide)
  have hphys : ∀ p ∈ [0x3000, 0x4000, 0x5000, 0x6000, 0x7000, 0x8000], p < 2 ^ 52 := by decide
  have htrace := Trace.single (step_freshPageMap
    (l := [0x3000, 0x4000, 0x5000, 0x6000, 0x7000, 0x8000]) (v := 0x400000) (p := 0xa000) (f := 1)
    (by decide) (by decide) ⟨by decide, by decide, by decide⟩)
  have hstep := step_step_freshPageMap (v := 0x400000) (p := 0xa000) (f := 1) (w := 0x400000)
    (q := 0xb000) (g := 3) hstart hphys (by decide) le_rfl ⟨by decide, by decide, by decide⟩
    ⟨by decide, by decide, by decide⟩
  exact ⟨_, _, htrace, hstep, (rights_exact_iff hstart hphys htrace hstep (by decide)).mpr
    (by decide)⟩

/-- A mapping for user access does not get it. -/
theorem user_access_denied :
    Trace (MapStep examplePagemap) (freshPageMap [0x3000, 0x4000, 0x5000])
        [.map 0x400000 0x6000 (vmmPresent ||| vmmUser)]
        (vmmMap (freshPageMap [0x3000, 0x4000, 0x5000]) examplePagemap 0x400000 0x6000
          (vmmPresent ||| vmmUser)) ∧
      effectiveRights (vmmMap (freshPageMap [0x3000, 0x4000, 0x5000]) examplePagemap 0x400000 0x6000
          (vmmPresent ||| vmmUser)) examplePagemap 0x400000 = some ⟨false, false, false⟩ ∧
      Rights.ofFlags (vmmPresent ||| vmmUser) = ⟨false, true, false⟩ := by
  have hstart : EmptyPageMap (freshPageMap [0x3000, 0x4000, 0x5000]) examplePagemap :=
    emptyPageMap_freshPageMap (by decide) (by decide) (by decide) (by decide)
  have hstep := step_freshPageMap (l := [0x3000, 0x4000, 0x5000]) (v := 0x400000) (p := 0x6000)
    (f := vmmPresent ||| vmmUser) (by decide) le_rfl ⟨by decide, by decide, by decide⟩
  refine ⟨Trace.single hstep, ?_, by decide⟩
  exact (hstart.pageMaps (by decide)).effectiveRights_map (List.mem_singleton_self _) hstep (by decide)

end Soaplin

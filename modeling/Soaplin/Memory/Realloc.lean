import Soaplin.Memory.HeapFree
import Soaplin.Foundation.OrderedCopy

/-!
# `pmm_realloc`

`pmm_realloc` takes the old block for a C string: it copies the bytes up to the first zero byte,
whatever the two sizes are.  `WellFormed.realloc_bytes` says what becomes of the contents, and
`realloc_preserves_iff` when they are preserved.
-/

namespace Soaplin

open ByteMemory Word64 FreeList LinkedChain OrderedCopy

variable {m m' : Memory} {p q k x fuel : ℕ}

/-! ### The loops -/

/-- The addresses that the search for the old size reads, from `ptr` on: each byte behind one that
is not zero.  The copy loop reads the same ones. -/
inductive Scanned (m : Memory) (ptr : ℕ) : ℕ → Prop
  | start : Scanned m ptr ptr
  | next {x : ℕ} (hx : Scanned m ptr x) (hne : m x ≠ 0) : Scanned m ptr (wadd x 1)

/-- Displacements by words add up. -/
lemma wadd_wadd_one (a i : ℕ) : wadd (wadd a i) 1 = wadd a (i + 1) := by
  simp only [wadd, modulus]
  omega

/-- A displacement by one word before another. -/
lemma wadd_one_wadd (a i : ℕ) : wadd (wadd a 1) i = wadd a (i + 1) := by
  simp only [wadd, modulus]
  omega

/-- The search stops at the first zero byte. -/
lemma oldSizeLoop_eq_some {l old : ℕ} (hp : p < modulus)
    (h : oldSizeLoop m fuel p old = some l) (hold : old < modulus) :
    ∃ z, l = wadd old z ∧ m (wadd p z) = 0 ∧ ∀ j < z, m (wadd p j) ≠ 0 := by
  induction fuel generalizing p old with
  | zero => cases h
  | succ fuel ih =>
    have hp0 : wadd p 0 = p := Nat.mod_eq_of_lt hp
    have hold0 : wadd old 0 = old := Nat.mod_eq_of_lt hold
    rw [oldSizeLoop] at h
    split_ifs at h with hne
    · obtain ⟨z, hl, hz, hbefore⟩ := ih (wadd_lt _ _) h (wadd_lt _ _)
      rw [wadd_one_wadd] at hl hz
      refine ⟨z + 1, hl, hz, fun j hj => ?_⟩
      cases j with
      | zero => rwa [hp0]
      | succ j =>
        rw [← wadd_one_wadd]
        exact hbefore j (by omega)
    · refine ⟨0, ?_, ?_, fun j hj => absurd hj (Nat.not_lt_zero j)⟩
      · rw [hold0]
        exact (Option.some.inj h).symm
      · rw [hp0]
        exact not_not.mp hne

/-- The search finds a zero byte if there is one. -/
lemma oldSizeLoop_of_zero {z old : ℕ} (hp : p < modulus) (hz : m (wadd p z) = 0)
    (hbefore : ∀ j < z, m (wadd p j) ≠ 0) (hold : old < modulus) (hfuel : z < fuel) :
    oldSizeLoop m fuel p old = some (wadd old z) := by
  induction z generalizing p old fuel with
  | zero =>
    obtain ⟨fuel, rfl⟩ := Nat.exists_eq_succ_of_ne_zero (Nat.ne_zero_of_lt hfuel)
    have hp0 : wadd p 0 = p := Nat.mod_eq_of_lt hp
    have hold0 : wadd old 0 = old := Nat.mod_eq_of_lt hold
    rw [hp0] at hz
    rw [Nat.succ_eq_add_one, oldSizeLoop, if_neg (not_not.mpr hz), hold0]
  | succ z ih =>
    obtain ⟨fuel, rfl⟩ := Nat.exists_eq_succ_of_ne_zero (Nat.ne_zero_of_lt hfuel)
    have hp0 : wadd p 0 = p := Nat.mod_eq_of_lt hp
    have hne : m p ≠ 0 := by
      rw [← hp0]
      exact hbefore 0 (Nat.succ_pos z)
    have hsum : wadd old (z + 1) = wadd (wadd old 1) z := (wadd_one_wadd old z).symm
    rw [Nat.succ_eq_add_one, oldSizeLoop, if_pos hne, hsum]
    refine ih (wadd_lt _ _) (by rwa [wadd_one_wadd]) (fun j hj => ?_) (wadd_lt _ _)
      (Nat.lt_of_succ_lt_succ hfuel)
    rw [wadd_one_wadd]
    exact hbefore (j + 1) (by omega)

/-- There is one first zero byte. -/
lemma first_zero_unique {y z : ℕ} (hy : m (wadd p y) = 0) (hy' : ∀ j < y, m (wadd p j) ≠ 0)
    (hz : m (wadd p z) = 0) (hz' : ∀ j < z, m (wadd p j) ≠ 0) : y = z := by
  rcases lt_trichotomy y z with hlt | heq | hlt
  · exact absurd hy (hz' y hlt)
  · exact heq
  · exact absurd hz (hy' z hlt)

/-- The old size, counted from `0`, is the offset of the first zero byte. -/
lemma oldSizeLoop_unique {z l : ℕ} (hp : p < modulus) (hz : m (wadd p z) = 0)
    (hbefore : ∀ j < z, m (wadd p j) ≠ 0) (hzlt : z < modulus)
    (h : oldSizeLoop m fuel p 0 = some l) : l = z := by
  obtain ⟨y, hl, hy, hbefore'⟩ := oldSizeLoop_eq_some hp h (by decide)
  rw [hl, first_zero_unique hy hbefore' hz hbefore, wadd, Nat.zero_add, Nat.mod_eq_of_lt hzlt]

/-- The search reads the bytes up to the first zero byte. -/
lemma scanned_iff {z : ℕ} (hp : p < modulus) (hz : m (wadd p z) = 0)
    (hbefore : ∀ j < z, m (wadd p j) ≠ 0) : Scanned m p x ↔ ∃ i ≤ z, x = wadd p i := by
  have hp0 : wadd p 0 = p := Nat.mod_eq_of_lt hp
  constructor
  · intro hx
    induction hx with
    | start => exact ⟨0, Nat.zero_le z, hp0.symm⟩
    | next _ hne ih =>
      obtain ⟨i, hi, rfl⟩ := ih
      refine ⟨i + 1, ?_, wadd_wadd_one p i⟩
      by_contra hcon
      obtain rfl : i = z := by omega
      exact hne hz
  · rintro ⟨i, hi, rfl⟩
    induction i with
    | zero =>
      rw [hp0]
      exact .start
    | succ i ih =>
      rw [← wadd_wadd_one]
      exact .next (ih (by omega)) (hbefore i (by omega))

/-- The loop copies byte by byte, in the order of the addresses. -/
lemma copyLoop_eq_copyAlong (m : Memory) (q p k : ℕ) :
    copyLoop m q p k = copyAlong (wadd q) (wadd p) (List.range k) m :=
  eq_copyAlong_range (fun _ => rfl) k

/-- Bytes outside the destination are kept. -/
lemma copyLoop_apply_of_ne (hx : ∀ j < k, x ≠ wadd q j) : copyLoop m q p k x = m x := by
  rw [copyLoop_eq_copyAlong]
  exact copyAlong_of_ne fun j hj => hx j (List.mem_range.mp hj)

/-- Different displacements below the word size give different addresses. -/
lemma wadd_ne {a i j : ℕ} (hi : i < modulus) (hj : j < modulus) (hne : i ≠ j) :
    wadd a i ≠ wadd a j := by
  simp only [wadd, modulus] at *
  omega

/-- A byte is copied as it was, unless the copy has overwritten it before. -/
lemma copyLoop_apply {i : ℕ} (hi : i < k) (hk : k ≤ modulus) (hsrc : ∀ j < i, wadd p i ≠ wadd q j) :
    copyLoop m q p k (wadd q i) = m (wadd p i) := by
  rw [copyLoop_eq_copyAlong]
  apply copyAlong_range_read hi hsrc
  intro j hj hij
  exact wadd_ne (by omega) (by omega) (by omega)

/-- The merge loop writes only the header of the block that it merges into. -/
lemma mergeLoop_frame {b : ℕ} (h : mergeLoop b fuel m = some m') (hx : x < b ∨ b + 16 ≤ x) :
    m' x = m x := by
  induction fuel generalizing m with
  | zero => cases h
  | succ fuel ih =>
    rw [mergeLoop] at h
    dsimp only at h
    split_ifs at h with hnext
    · rw [ih h, setBlockNext, store64_apply_of_disjoint (by omega), setBlockSize,
        store64_apply_of_disjoint (by omega)]
    · rw [Option.some.inj h]

/-- Whatever the list looks like, `pmm_free` marks the block free and writes only its header. -/
lemma pmmFree_frame {s s' : Pmm} {b : ℕ} (hinit : s.pmmInitialized)
    (hptr : b + memblkSize < modulus) (h : pmmFree fuel s (b + memblkSize) = some s') :
    blockIsFree s'.mem b = true ∧ ∀ x, x < b ∨ b + memblkSize ≤ x → s'.mem x = s.mem x := by
  have hhdr : memblkSize = 24 := rfl
  have hblk : wsub (b + memblkSize) memblkSize = b := by
    rw [wsub_of_le (by omega) hptr]
    omega
  rw [pmmFree, if_neg (by simp [hinit]), if_neg (by omega)] at h
  dsimp only at h
  rw [hblk] at h
  obtain ⟨m, hm, rfl⟩ := Option.map_eq_some_iff.mp h
  refine ⟨?_, fun x hx => ?_⟩
  · have hflag : m (b + 16) = setBlockIsFree s.mem b true (b + 16) :=
      mergeLoop_frame hm (Or.inr le_rfl)
    rw [setBlockIsFree, Function.update_self] at hflag
    change decide (m (b + 16) ≠ 0) = true
    rw [hflag]
    decide
  · have hkept : m x = setBlockIsFree s.mem b true x := mergeLoop_frame hm (by omega)
    exact hkept.trans (setBlockIsFree_apply hx)

/-- If there is a zero byte, there is a first one. -/
lemma exists_first_zero {d : ℕ} (hd : m (wadd p d) = 0) :
    ∃ z ≤ d, m (wadd p z) = 0 ∧ ∀ j < z, m (wadd p j) ≠ 0 := by
  classical
  have hex : ∃ z, m (wadd p z) = 0 := ⟨d, hd⟩
  exact ⟨Nat.find hex, Nat.find_min' hex hd, Nat.find_spec hex, fun j hj => Nat.find_min hex hj⟩

/-! ### The allocation -/

/-- Taking a block writes inside its extent only, also when the request is smaller than a header. -/
lemma takeBlock_frame_extent {size b : ℕ} (hsize : size + memblkSize < modulus)
    (hmin : memblkSize ≤ blockSize m b) (hend : b + blockSize m b ≤ modulus)
    (hx : x < b ∨ b + blockSize m b ≤ x) : takeBlock m size b x = m x := by
  have hread : blockSize (setBlockIsFree m b false) b = blockSize m b := by
    rw [blockSize_eq, readMemblk_setBlockIsFree]
    rfl
  have hhead : x < b ∨ b + memblkSize ≤ x := by omega
  rw [takeBlock]
  dsimp only
  rw [hread, wadd_of_lt hsize]
  split_ifs with hlt
  · have hnew : wadd b size = b + size := wadd_of_lt (by omega)
    have hrest : x < b + size ∨ b + size + memblkSize ≤ x := by omega
    rw [hnew, setBlockNext_apply hhead, setBlockSize_apply hhead, setBlockIsFree_apply hrest,
      setBlockNext_apply hrest, setBlockSize_apply hrest, setBlockIsFree_apply hhead]
  · exact setBlockIsFree_apply hhead

variable {s s₁ s' : Pmm} {bs : List Block} {b c d : Block} {n l z fuel' : ℕ}

/-- Next to a block in use, no free block has the size of the address space. -/
lemma WellFormed.size_lt_of_fits {size : ℕ} (h : WellFormed s bs) (hc : c ∈ bs)
    (hfits : c.Fits size) (hb : b ∈ bs) (hused : b.free = false) : size + memblkSize < modulus := by
  have hhdr : memblkSize = 24 := rfl
  have hbsize := h.tiled.header_le b hb
  have hbend := h.end_le b hb
  obtain ⟨hbpos, -⟩ := h.header_lt hb
  obtain ⟨hcpos, -⟩ := h.header_lt hc
  have hcend := h.end_le c hc
  have hne : b ≠ c := by
    rintro rfl
    rw [hfits.1] at hused
    cases hused
  have hsize := hfits.2
  rcases h.tiled.apart_of_ne hb hc hne with hap | hap <;> omega

/-- Whatever the size, a block that is taken lies outside the blocks in use, and its cut writes
nothing inside them. -/
lemma WellFormed.takeBlock_keeps {size : ℕ} (h : WellFormed s bs) (hc : c ∈ bs)
    (hfits : c.Fits size) (hptr : c.addr + memblkSize < modulus) (hb : b ∈ bs)
    (hused : b.free = false) :
    (c.addr + memblkSize ≤ b.addr ∨ b.addr + b.size ≤ c.addr + memblkSize) ∧
      ∀ x, b.addr ≤ x → x < b.addr + b.size → takeBlock s.mem size c.addr x = s.mem x := by
  have hhdr : memblkSize = 24 := rfl
  have hmod : modulus = 2 ^ 64 := rfl
  obtain ⟨hbpos, -⟩ := h.header_lt hb
  have hbsize := h.tiled.header_le b hb
  have hbend := h.end_le b hb
  obtain ⟨hcpos, -⟩ := h.header_lt hc
  have hcsize := h.tiled.header_le c hc
  have hcend := h.end_le c hc
  obtain ⟨-, hread, -⟩ := h.list.header hc
  have hne : b ≠ c := by
    rintro rfl
    rw [hfits.1] at hused
    cases hused
  have hap : b.addr + b.size ≤ c.addr ∨ c.addr + c.size ≤ b.addr := h.tiled.apart_of_ne hb hc hne
  have hroom := h.size_lt_of_fits hc hfits hb hused
  refine ⟨by omega, fun x hx hxb => takeBlock_frame_extent hroom (by omega) (by omega) ?_⟩
  rcases hap with hap | hap <;> omega

/-- The two ways in which `pmm_alloc` returns a block, whatever the size: the first block that fits, or
the page on top of the stack. -/
lemma WellFormed.alloc_cases (h : WellFormed s bs) (hn : n ≠ 0)
    (hrun : pmmAlloc fuel s n = some (q, s₁)) (hq : q ≠ 0) :
    (∃ c bs', firstFit memblkSize (wadd n memblkSize) bs = some (c, bs') ∧ c ∈ bs ∧
      c.Fits (wadd n memblkSize) ∧ c.addr + memblkSize < modulus ∧ q = c.addr + memblkSize ∧
      s₁ = { s with mem := takeBlock s.mem (wadd n memblkSize) c.addr }) ∨
    ∃ page rest, firstFit memblkSize (wadd n memblkSize) bs = none ∧ s.pmmStack = page :: rest ∧
      page + memblkSize < modulus ∧ q = page + memblkSize ∧ s₁.pmmInitialized ∧
      HeapList s₁.mem s₁.pmmFreeBlocks (bs ++ [⟨page, wadd n memblkSize, false⟩]) ∧
      ∀ x, x < page ∨ page + memblkSize ≤ x → s₁.mem x = linkLast s.mem bs page x := by
  have hhdr : memblkSize = 24 := rfl
  have hpg : pmmBlockSize = 4096 := rfl
  have hmod : modulus = 2 ^ 64 := rfl
  cases hfit : firstFit memblkSize (wadd n memblkSize) bs with
  | some r =>
    obtain ⟨c, bs'⟩ := r
    obtain ⟨pre, post, rfl, hpre, hc, -⟩ := firstFit_eq_some hfit
    have hmem : c ∈ pre ++ c :: post := by simp
    have hrun' := h.toHeapState.headers.alloc_first hn hpre hc (Nat.lt_succ_self _)
    obtain ⟨rfl, hs₁⟩ := Prod.mk.inj (pmmAlloc_unique hrun hrun')
    have hptr : c.addr + memblkSize < modulus := by
      refine lt_of_le_of_ne (h.header_lt hmem).2 fun heq => hq ?_
      rw [wadd, heq, Nat.mod_self]
    exact .inl ⟨c, bs', rfl, hmem, hc, hptr, wadd_of_lt hptr, hs₁⟩
  | none =>
    have hbs := firstFit_eq_none.mp hfit
    cases hstack : s.pmmStack with
    | nil =>
      have hrun' := h.toHeapState.headers.alloc_refused hn hbs hstack (Nat.lt_succ_self _)
      obtain ⟨rfl, -⟩ := Prod.mk.inj (pmmAlloc_unique hrun hrun')
      exact absurd rfl hq
    | cons page rest =>
      have hpage : page ∈ s.pmmStack := by simp [hstack]
      obtain ⟨hal, hp0, hlt⟩ := h.stackPage page hpage
      rw [hpg] at hal
      obtain ⟨t, hrun', hinit, -, hlist, hframe⟩ := h.toHeapState.headers.alloc_popped hn hbs hstack
        hp0 hlt (fun c hc => h.headersApart_page hc hpage) (Nat.lt_succ_self _)
      obtain ⟨rfl, rfl⟩ := Prod.mk.inj (pmmAlloc_unique hrun hrun')
      have hptr : page + memblkSize < modulus := by omega
      exact .inr ⟨page, rest, rfl, rfl, hptr, wadd_of_lt hptr, hinit, hlist, hframe⟩

/-- Whatever the size, an allocation returns an address outside the blocks in use, and leaves their
flags and payloads alone. -/
lemma WellFormed.alloc_keeps (h : WellFormed s bs) (hn : n ≠ 0)
    (hrun : pmmAlloc fuel s n = some (q, s₁)) (hq : q ≠ 0) (hb : b ∈ bs) (hused : b.free = false) :
    s₁.pmmInitialized ∧ q < modulus ∧ (q ≤ b.addr ∨ b.addr + b.size ≤ q) ∧
      blockIsFree s₁.mem b.addr = false ∧
      ∀ x, b.addr + memblkSize ≤ x → x < b.addr + b.size → s₁.mem x = s.mem x := by
  have hhdr : memblkSize = 24 := rfl
  have hpg : pmmBlockSize = 4096 := rfl
  have hbsize := h.tiled.header_le b hb
  rcases h.alloc_cases hn hrun hq with ⟨c, -, -, hmem, hc, hptr, rfl, hs₁⟩ |
    ⟨page, rest, -, hstack, hptr, rfl, hinit, hlist, hframe⟩
  · have htaken : s₁.mem = takeBlock s.mem (wadd n memblkSize) c.addr := by rw [hs₁]
    have hinit : s₁.pmmInitialized = s.pmmInitialized := by rw [hs₁]
    obtain ⟨hap, hkept⟩ := h.takeBlock_keeps hmem hc hptr hb hused
    rw [htaken]
    refine ⟨hinit.trans h.initialized, hptr, hap, ?_, fun x hx hxb => hkept x (by omega) hxb⟩
    obtain ⟨-, -, hflag⟩ := h.list.header hb
    rw [blockIsFree, hkept (b.addr + 16) (by omega) (by omega)]
    exact hflag.trans hused
  · have hap := h.apart_of_page hb (show page ∈ s.pmmStack by simp [hstack])
    obtain ⟨-, -, hflag⟩ := hlist.header (List.mem_append_left _ hb)
    refine ⟨hinit, hptr, by omega, hflag.trans hused, fun x hx hxb => ?_⟩
    rw [hframe x (by rcases hap with hap | hap <;> omega)]
    exact linkLast_apply (h.outsideHeaders hb hx hxb)

/-- After the allocation the old payload still reads as before. -/
lemma WellFormed.read_payload (h : WellFormed s bs) (hn : n ≠ 0)
    (hrun : pmmAlloc fuel s n = some (q, s₁)) (hq : q ≠ 0) (hb : b ∈ bs) (hused : b.free = false)
    {i : ℕ} (hi : i + memblkSize < b.size) :
    s₁.mem (wadd (b.addr + memblkSize) i) = s.mem (b.addr + memblkSize + i) := by
  have hend := h.end_le b hb
  obtain ⟨-, -, -, -, hkept⟩ := h.alloc_keeps hn hrun hq hb hused
  rw [wadd_of_lt (by omega), hkept _ (by omega) (by omega)]

/-- The copy of a byte of the old payload is that byte: the bytes that are copied before it are
written in front of it or on another block. -/
lemma WellFormed.copy_payload (h : WellFormed s bs) (hn : n ≠ 0)
    (hrun : pmmAlloc fuel s n = some (q, s₁)) (hq : q ≠ 0) (hb : b ∈ bs) (hused : b.free = false)
    {i : ℕ} (hi : i + memblkSize < b.size) (hik : i < k) (hk : k ≤ modulus) :
    copyLoop s₁.mem q (b.addr + memblkSize) k (wadd q i) = s.mem (b.addr + memblkSize + i) := by
  have hend := h.end_le b hb
  obtain ⟨-, hqlt, hapart, -, -⟩ := h.alloc_keeps hn hrun hq hb hused
  have hoverlap : ∀ j < i, wadd (b.addr + memblkSize) i ≠ wadd q j := by
    intro j hj
    rw [wadd_of_lt (show b.addr + memblkSize + i < modulus by omega)]
    simp only [wadd, modulus] at *
    omega
  rw [copyLoop_apply hik hk hoverlap, h.read_payload hn hrun hq hb hused hi]

/-- The payload that `pmm_alloc(n)` returns, for a request that fits on a page: that of the first
block with room, or that of the page on top of the stack. -/
def allocTarget (s : Pmm) (bs : List Block) (n : ℕ) : ℕ :=
  match firstFit memblkSize (n + memblkSize) bs with
  | some (c, _) => c.addr + memblkSize
  | none => s.pmmStack.headD 0 + memblkSize

/-- A request that fits on a page is met by a block with room for it. -/
lemma WellFormed.alloc_block (h : WellFormed s bs) (hpos : 1 ≤ n)
    (hle : n ≤ pmmBlockSize - memblkSize)
    (hrun : pmmAlloc fuel s n = some (q, s₁)) (hq : q ≠ 0) :
    ∃ bs₁, WellFormed s₁ bs₁ ∧ (∀ b ∈ bs, b.free = false → b ∈ bs₁) ∧
      (∀ x, OutsideHeaders bs₁ x → s₁.mem x = s.mem x) ∧ q = allocTarget s bs n ∧
      ∃ c ∈ bs₁, q = c.addr + memblkSize ∧ n + memblkSize ≤ c.size := by
  cases hfit : firstFit memblkSize (n + memblkSize) bs with
  | some r =>
    obtain ⟨c, bs₁⟩ := r
    obtain ⟨m, hrun', hwf, hframe⟩ := h.alloc_fit hpos hle hfit (Nat.lt_succ_self _)
    obtain ⟨rfl, rfl⟩ := Prod.mk.inj (pmmAlloc_unique hrun hrun')
    refine ⟨bs₁, hwf, fun b hb hused => mem_of_firstFit hfit hb hused, hframe, ?_, ?_⟩
    · rw [allocTarget, hfit]
    · obtain ⟨pre, post, -, -, hc, rfl⟩ := firstFit_eq_some hfit
      obtain ⟨d, hd, haddr, -, hsize⟩ := @exists_mem_carve memblkSize _ _ hc.2
      exact ⟨d, by simp [hd], by rw [haddr], hsize⟩
  | none =>
    cases hstack : s.pmmStack with
    | nil =>
      have hsmall : n + memblkSize < modulus := by
        simp only [pmmBlockSize, memblkSize, modulus] at *
        omega
      have hrun' := pmmAlloc_of_empty h.toHeapState (Nat.ne_of_gt hpos) hsmall hfit hstack
        (Nat.lt_succ_self _)
      obtain ⟨rfl, -⟩ := Prod.mk.inj (pmmAlloc_unique hrun hrun')
      exact absurd rfl hq
    | cons page rest =>
      obtain ⟨t, hrun', -, hwf, hframe⟩ := h.alloc_page hpos hle hfit hstack (Nat.lt_succ_self _)
      obtain ⟨rfl, rfl⟩ := Prod.mk.inj (pmmAlloc_unique hrun hrun')
      refine ⟨_, hwf, fun b hb _ => List.mem_append_left _ hb, hframe, ?_, _,
        List.mem_append_right _ List.mem_cons_self, rfl, le_rfl⟩
      rw [allocTarget, hfit, hstack, List.headD_cons]

/-! ### One call -/

/-- What a call that returns has done: it has allocated, and if it has got a block, copied as many
bytes as the search has counted, and freed the old one. -/
lemma pmmRealloc_eq_some {r : ℕ} (hinit : s.pmmInitialized) (hn : n ≠ 0) (hp : p ≠ 0)
    (h : pmmRealloc fuel s p n = some (r, s')) :
    ∃ s₁, pmmAlloc fuel s n = some (r, s₁) ∧ (r ≠ 0 → ∃ l, oldSizeLoop s₁.mem fuel p 0 = some l ∧
      pmmFree fuel { s₁ with mem := copyLoop s₁.mem r p (wadd l 1) } p = some s') := by
  rw [pmmRealloc, if_neg (by simp [hinit]), if_neg hn] at h
  cases halloc : pmmAlloc fuel s n with
  | none =>
    rw [halloc] at h
    cases h
  | some t =>
    obtain ⟨q, s₁⟩ := t
    rw [halloc] at h
    dsimp only at h
    by_cases hq : q = 0
    · rw [if_pos hq] at h
      obtain ⟨rfl, rfl⟩ := Prod.mk.inj (Option.some.inj h)
      exact ⟨s₁, by rw [hq], fun hr => absurd rfl hr⟩
    · rw [if_neg hq, if_pos hp] at h
      cases hold : oldSizeLoop s₁.mem fuel p 0 with
      | none =>
        rw [hold] at h
        cases h
      | some l =>
        rw [hold] at h
        obtain ⟨t, ht, heq⟩ := Option.map_eq_some_iff.mp h
        obtain ⟨rfl, rfl⟩ := Prod.mk.inj heq
        exact ⟨s₁, rfl, fun _ => ⟨l, hold, ht⟩⟩

/-- A call returns if its three parts do. -/
lemma pmmRealloc_of_parts (hinit : s.pmmInitialized) (hn : n ≠ 0) (hp : p ≠ 0)
    (halloc : pmmAlloc fuel s n = some (q, s₁)) (hq : q ≠ 0)
    (hold : oldSizeLoop s₁.mem fuel p 0 = some l)
    (hfree : pmmFree fuel { s₁ with mem := copyLoop s₁.mem q p (wadd l 1) } p = some s') :
    pmmRealloc fuel s p n = some (q, s') := by
  rw [pmmRealloc, if_neg (by simp [hinit]), if_neg hn, halloc]
  dsimp only
  rw [if_neg hq, if_pos hp, hold]
  dsimp only
  rw [hfree]
  rfl

/-- After the allocation the bytes from the old payload on have a first zero byte: at the latest in
the flag of its own header, on the way around the address space. -/
lemma WellFormed.exists_scan (h : WellFormed s bs) (hb : b ∈ bs)
    (hflag : blockIsFree m b.addr = false) :
    ∃ z, z + 8 ≤ modulus ∧ m (wadd (b.addr + memblkSize) z) = 0 ∧
      ∀ j < z, m (wadd (b.addr + memblkSize) j) ≠ 0 := by
  have hmod : modulus = 2 ^ 64 := rfl
  obtain ⟨-, hend⟩ := h.header_lt hb
  have hbyte : m (b.addr + 16) = 0 := by
    by_contra hne
    rw [blockIsFree, decide_eq_true hne] at hflag
    cases hflag
  have haround : wadd (b.addr + memblkSize) (modulus - 8) = b.addr + 16 := by
    simp only [wadd, memblkSize, modulus] at *
    omega
  rw [← haround] at hbyte
  obtain ⟨z, hz, hfirst⟩ := exists_first_zero hbyte
  exact ⟨z, by omega, hfirst⟩

/-- A write outside the block headers keeps the heap. -/
lemma WellFormed.write (h : WellFormed s bs)
    (hm : ∀ c ∈ bs, ∀ x, c.addr ≤ x → x < c.addr + memblkSize → m x = s.mem x) :
    WellFormed { s with mem := m } bs :=
  ⟨⟨h.initialized, h.list.congr fun c hc => readMemblk_congr (hm c hc), h.tiled, h.end_le⟩,
    h.offStack, h.stackNodup, h.stackPage⟩

/-- A call returns if the old payload has a zero byte and the bytes up to it fit into the new one.
-/
lemma WellFormed.realloc_returns (h : WellFormed s bs) (hb : b ∈ bs) (hused : b.free = false)
    (hpos : 1 ≤ n) (hle : n ≤ pmmBlockSize - memblkSize) (halloc : pmmAlloc fuel s n = some (q, s₁))
    (hq : q ≠ 0) (hz : z + memblkSize < b.size) (hzn : z < n)
    (hzero : s.mem (b.addr + memblkSize + z) = 0)
    (hbefore : ∀ j < z, s.mem (b.addr + memblkSize + j) ≠ 0) :
    ∃ fuel' s', pmmRealloc fuel' s (b.addr + memblkSize) n = some (q, s') := by
  have hhdr : memblkSize = 24 := rfl
  have hmod : modulus = 2 ^ 64 := rfl
  obtain ⟨hinit, -, -, -, hkept⟩ := h.alloc_keeps (by omega) halloc hq hb hused
  obtain ⟨bs₁, h₁, hmem, -, -, c, hc, hqc, hcn⟩ := h.alloc_block hpos hle halloc hq
  have hbend := h.end_le b hb
  have hcend := h₁.end_le c hc
  have hsrc : ∀ i ≤ z, wadd (b.addr + memblkSize) i = b.addr + memblkSize + i :=
    fun i hi => wadd_of_lt (by omega)
  -- the copy stays inside the new payload
  have hcopied : WellFormed
      { s₁ with mem := copyLoop s₁.mem q (b.addr + memblkSize) (z + 1) } bs₁ := by
    refine h₁.write fun d hd x hx hxd => copyLoop_apply_of_ne fun j hj heq => ?_
    have hdst : wadd q j = q + j := wadd_of_lt (by omega)
    rw [hdst] at heq
    rcases h₁.outsideHeaders hc (x := q + j) (by omega) (by omega) d hd with hout | hout <;> omega
  obtain ⟨pre, post, rfl⟩ := List.append_of_mem (hmem b hb hused)
  obtain ⟨m, hfree, -⟩ := @WellFormed.free _ pre post b (fuel + post.length + z + 1) hcopied
    (by omega) (by omega)
  have hold : oldSizeLoop s₁.mem (fuel + post.length + z + 1) (b.addr + memblkSize) 0 = some z := by
    have hfound := @oldSizeLoop_of_zero s₁.mem (b.addr + memblkSize)
      (fuel + post.length + z + 1) z 0 (by omega) (by rw [hsrc z le_rfl, hkept _ (by omega) (by omega)]; exact hzero)
      (fun j hj => by rw [hsrc j hj.le, hkept _ (by omega) (by omega)]; exact hbefore j hj)
      (by decide) (by omega)
    rwa [wadd, Nat.zero_add, Nat.mod_eq_of_lt (by omega)] at hfound
  have halloc' := pmmAlloc_mono halloc (show fuel ≤ fuel + post.length + z + 1 by omega)
  have hcount : z + 1 = wadd z 1 := (wadd_of_lt (by omega)).symm
  rw [hcount] at hfree
  exact ⟨_, _, pmmRealloc_of_parts h.initialized (by omega) (by omega) halloc' hq hold hfree⟩

/-! ### Contents -/

/-- What a call does to the contents, for sizes that fit on a page: the bytes up to the first zero
byte of the old payload are copied, the ones behind it stay what they were in the new payload.  The
old block is freed. -/
lemma WellFormed.realloc_bytes {m : ℕ} (h : WellFormed s bs) (hb : b ∈ bs) (hused : b.free = false)
    (hm1 : 1 ≤ m) (hm : m + memblkSize ≤ b.size) (hpos : 1 ≤ n)
    (hle : n ≤ pmmBlockSize - memblkSize)
    (hrun : pmmRealloc fuel s (b.addr + memblkSize) n = some (q, s')) (hq : q ≠ 0) :
    blockIsFree s'.mem b.addr = true ∧ ∀ i < min m n,
      ((∀ j < i, s.mem (b.addr + memblkSize + j) ≠ 0) ∧
        s'.mem (q + i) = s.mem (b.addr + memblkSize + i)) ∨
      ((∃ j < i, s.mem (b.addr + memblkSize + j) = 0) ∧
        s'.mem (q + i) = s.mem (allocTarget s bs n + i)) := by
  have hhdr : memblkSize = 24 := rfl
  have hmod : modulus = 2 ^ 64 := rfl
  obtain ⟨s₁, halloc, hcopied⟩ := pmmRealloc_eq_some h.initialized (by omega) (by omega) hrun
  obtain ⟨l, hold, hfree⟩ := hcopied hq
  have hn : n ≠ 0 := by omega
  obtain ⟨hinit, -, hapart, hflag, -⟩ := h.alloc_keeps hn halloc hq hb hused
  obtain ⟨bs₁, h₁, hmem, hframe, htarget, c, hc, hqc, hcn⟩ := h.alloc_block hpos hle halloc hq
  rw [← htarget]
  have hb₁ := hmem b hb hused
  have hbend := h₁.end_le b hb₁
  have hcend := h₁.end_le c hc
  have hbc : b ≠ c := by
    rintro rfl
    omega
  have hap : b.addr + b.size ≤ c.addr ∨ c.addr + c.size ≤ b.addr := h₁.tiled.apart_of_ne hb₁ hc hbc
  obtain ⟨z, hz, hzero, hbefore⟩ := h₁.exists_scan hb₁ hflag
  obtain rfl : l = z := oldSizeLoop_unique (by omega) hzero hbefore (by omega) hold
  have hcount : wadd l 1 = l + 1 := wadd_of_lt (by omega)
  rw [hcount] at hfree
  have hread : ∀ i < m, s₁.mem (wadd (b.addr + memblkSize) i) = s.mem (b.addr + memblkSize + i) :=
    fun i hi => h.read_payload hn halloc hq hb hused (by omega)
  have hdst : ∀ i < n, wadd q i = q + i := fun i hi => wadd_of_lt (by omega)
  obtain ⟨hfreed, hfinal⟩ := pmmFree_frame (b := b.addr) (by exact hinit) (by omega) hfree
  refine ⟨hfreed, fun i hi => ?_⟩
  rw [hfinal (q + i) (by omega)]
  rcases Nat.lt_or_ge l i with hil | hil
  · -- behind the first zero byte nothing is copied
    have hbyte : copyLoop s₁.mem q (b.addr + memblkSize) (l + 1) (q + i) = s₁.mem (q + i) := by
      refine copyLoop_apply_of_ne fun j hj => ?_
      rw [hdst j (by omega)]
      omega
    refine Or.inr ⟨⟨l, hil, ?_⟩, ?_⟩
    · rw [← hread l (by omega)]
      exact hzero
    · rw [← hframe _ (h₁.outsideHeaders hc (by omega) (by omega))]
      exact hbyte
  · have hbyte := h.copy_payload hn halloc hq hb hused (i := i) (k := l + 1) (by omega) (by omega)
      (by omega)
    rw [hdst i (by omega)] at hbyte
    refine Or.inl ⟨fun j hj => ?_, hbyte⟩
    rw [← hread j (by omega)]
    exact hbefore j (by omega)

/-- `pmm_realloc(ptr, n)`, with `ptr` the payload of `b`, preserves contents: the first `min(m, n)`
bytes of the new block are those of the old one, which is not in use any more. -/
structure ContentsPreserved (s s' : Pmm) (b : Block) (q m n : ℕ) : Prop where
  bytes : ∀ i < min m n, s'.mem (q + i) = s.mem (b.addr + memblkSize + i)
  freed : blockIsFree s'.mem b.addr = true

/-- On a well-formed heap, for sizes that fit on a page, a call that returns a block preserves
contents if and only if each of the bytes lies before or at the first zero byte of the old payload,
or is in the new payload already. -/
theorem realloc_preserves_iff {m : ℕ} (h : WellFormed s bs) (hb : b ∈ bs) (hused : b.free = false)
    (hm1 : 1 ≤ m) (hm : m + memblkSize ≤ b.size) (hpos : 1 ≤ n)
    (hle : n ≤ pmmBlockSize - memblkSize)
    (hrun : pmmRealloc fuel s (b.addr + memblkSize) n = some (q, s')) (hq : q ≠ 0) :
    ContentsPreserved s s' b q m n ↔ ∀ i < min m n,
      (∀ j < i, s.mem (b.addr + memblkSize + j) ≠ 0) ∨
        s.mem (allocTarget s bs n + i) = s.mem (b.addr + memblkSize + i) := by
  obtain ⟨hfreed, hbytes⟩ := h.realloc_bytes hb hused hm1 hm hpos hle hrun hq
  constructor
  · intro hpres i hi
    rcases hbytes i hi with ⟨hne, -⟩ | ⟨-, hstale⟩
    · exact Or.inl hne
    · exact Or.inr (hstale.symm.trans (hpres.bytes i hi))
  · refine fun hcond => ⟨fun i hi => ?_, hfreed⟩
    rcases hbytes i hi with ⟨-, hcopied⟩ | ⟨⟨j, hj, hzero⟩, hstale⟩
    · exact hcopied
    · rcases hcond i hi with hne | heq
      · exact absurd hzero (hne j hj)
      · exact hstale.trans heq

/-- The first allocation from three pages of zero bytes: a block at `0x6000`, with zero bytes as its
payload and two pages left. -/
lemma exists_firstBlock (hpos : 1 ≤ n) (hle : n ≤ pmmBlockSize - memblkSize) :
    ∃ s, pmmAlloc 1 threePages n = some (0x6018, s) ∧ s.pmmStack = [0x5000, 0x4000] ∧
      WellFormed s [⟨0x6000, n + memblkSize, false⟩] ∧
      ∀ x, x < 0x6000 ∨ 0x6018 ≤ x → s.mem x = 0 := by
  obtain ⟨s, hrun, hrest, hwf, hframe⟩ := threePages_start.wellFormed.alloc_page hpos hle rfl
    threePages_stack (Nat.lt_succ_self 0)
  refine ⟨s, hrun, hrest, hwf, fun x hx => ?_⟩
  have hzero : threePages.mem x = 0 := by rw [threePages, pmmInit_mem, Pmm.boot]
  rw [hframe x ?_, hzero]
  intro c hc
  rw [List.nil_append] at hc
  rw [List.mem_singleton.mp hc]
  exact hx

/-- A second allocation pops the next page, whatever has been written outside the header. -/
lemma exists_secondBlock {k : ℕ} (hwf : WellFormed s [⟨0x6000, k, false⟩])
    (hstack : s.pmmStack = [0x5000, 0x4000]) (hpos : 1 ≤ n) (hle : n ≤ pmmBlockSize - memblkSize) :
    ∃ s₁, pmmAlloc 2 s n = some (0x5018, s₁) := by
  obtain ⟨s₁, hrun, -⟩ := hwf.alloc_page hpos hle (by simp [firstFit, Block.Fits]) hstack
    (Nat.lt_succ_self 1)
  exact ⟨s₁, hrun⟩

/-- Two zero bytes, reallocated with the same size. -/
theorem realloc_preserves_zeros : ∃ s fuel s', pmmAlloc 1 threePages 2 = some (0x6018, s) ∧
    pmmRealloc fuel s 0x6018 2 = some (0x5018, s') ∧
    (ContentsPreserved s s' ⟨0x6000, 26, false⟩ 0x5018 2 2 ↔ ∀ i < min 2 2,
      (∀ j < i, s.mem (0x6018 + j) ≠ 0) ∨
        s.mem (allocTarget s [⟨0x6000, 26, false⟩] 2 + i) = s.mem (0x6018 + i)) := by
  obtain ⟨s, hrun, hstack, hwf, hzero⟩ := exists_firstBlock (n := 2) (by decide) (by decide)
  obtain ⟨s₁, halloc⟩ := exists_secondBlock (n := 2) hwf hstack (by decide) (by decide)
  obtain ⟨fuel, s', hrealloc⟩ := hwf.realloc_returns (z := 0) List.mem_cons_self rfl (by decide)
    (by decide) halloc (by decide) (by decide) (by decide) (hzero 0x6018 (by decide)) (by simp)
  exact ⟨s, fuel, s', hrun, hrealloc, realloc_preserves_iff (m := 2) hwf List.mem_cons_self rfl
    (by decide) (by decide) (by decide) (by decide) hrealloc (by decide)⟩

/-- The bytes `0, 1`, reallocated with the same size: the second one is lost. -/
theorem realloc_not_preserved : ∃ s fuel s', WellFormed s [⟨0x6000, 26, false⟩] ∧
    s.mem 0x6018 = 0 ∧ s.mem 0x6019 = 1 ∧ pmmRealloc fuel s 0x6018 2 = some (0x5018, s') ∧
    ¬ ContentsPreserved s s' ⟨0x6000, 26, false⟩ 0x5018 2 2 := by
  obtain ⟨s₀, -, hstack, hwf₀, hzero⟩ := exists_firstBlock (n := 2) (by decide) (by decide)
  obtain ⟨s, hs⟩ : ∃ s, s = { s₀ with mem := Function.update s₀.mem 0x6019 1 } := ⟨_, rfl⟩
  have hmem : s.mem = Function.update s₀.mem 0x6019 1 := by rw [hs]
  have hwf : WellFormed s [⟨0x6000, 26, false⟩] := by
    rw [hs]
    refine hwf₀.write fun c hc x hx hxc => Function.update_of_ne ?_ _ _
    rw [List.mem_singleton.mp hc] at hxc
    simp only [memblkSize] at hxc
    omega
  have hbytes : ∀ x, x ≠ 0x6019 → x < 0x6000 ∨ 0x6018 ≤ x → s.mem x = 0 := by
    intro x hne hx
    rw [hmem, Function.update_of_ne hne, hzero x hx]
  have hone : s.mem 0x6019 = 1 := by rw [hmem, Function.update_self]
  have hfirst : s.mem 0x6018 = 0 := hbytes _ (by decide) (by decide)
  have hstack' : s.pmmStack = [0x5000, 0x4000] := by rw [hs, ← hstack]
  obtain ⟨s₁, halloc⟩ := exists_secondBlock (n := 2) hwf hstack' (by decide) (by decide)
  obtain ⟨fuel, s', hrealloc⟩ := hwf.realloc_returns (z := 0) List.mem_cons_self rfl (by decide)
    (by decide) halloc (by decide) (by decide) (by decide) hfirst (by simp)
  refine ⟨s, fuel, s', hwf, hfirst, hone, hrealloc, fun hpres => ?_⟩
  have hsecond : s'.mem 0x5019 = s.mem 0x6019 := hpres.bytes 1 (by decide)
  have htarget : allocTarget s [⟨0x6000, 26, false⟩] 2 = 0x5018 := by
    simp [allocTarget, firstFit, Block.Fits, hstack', memblkSize]
  obtain ⟨-, hspec⟩ := hwf.realloc_bytes (m := 2) List.mem_cons_self rfl (by decide) (by decide)
    (by decide) (by decide) hrealloc (by decide)
  rw [htarget] at hspec
  rcases hspec 1 (by decide) with ⟨hne, -⟩ | ⟨-, hstale⟩
  · exact hne 0 Nat.one_pos hfirst
  · have hlost : s'.mem 0x5019 = 0 := hstale.trans (hbytes 0x5019 (by decide) (by decide))
    rw [hlost, hone] at hsecond
    cases hsecond

end Soaplin

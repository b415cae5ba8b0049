import Soaplin.Memory.Realloc

/-!
# What `pmm_realloc` reads and writes

The number of bytes that `pmm_realloc` copies is found by a search for a zero byte, independent of
the sizes of the two blocks.  `placement` says, in the state before the call, where the new block
is, how many bytes from there on belong to no other block, and which headers the allocation writes.
`realloc_confined_iff` says when a call reads no byte outside the old payload and keeps the other
blocks all the same, for requests of any size.  `realloc_not_confined` is a shrinking call that
writes over the header of the block behind the new one.
-/

namespace Soaplin

open ByteMemory Word64 FreeList LinkedChain TransitionTrace

variable {m : Memory} {q x fuel n : ℕ} {s s₁ s' : Pmm} {bs bs' : List Block} {b c d : Block}

/-! ### The new block -/

/-- Where `pmm_alloc` puts a new block. -/
structure Placement where
  /-- The address that it returns. -/
  payload : ℕ
  /-- How many bytes from there on belong to no other block. -/
  room : ℕ
  /-- The heap list with the new block. -/
  blocks : List Block
  /-- The memory with the headers that it writes, other than that of the new block. -/
  headers : Memory

/-- The memory with the header of the rest, when `size` bytes of the block `c` are taken. -/
def restHeader (m : Memory) (c : Block) (size : ℕ) : Memory :=
  let rest := c.addr + size
  let m := setBlockSize m rest (c.size - size)
  setBlockIsFree (setBlockNext m rest (blockNext m c.addr)) rest true

/-- The new block for `size` bytes, header included, on the heap list `bs`: the first block that
fits, cut or whole, or else the page on top of the stack. -/
def place (s : Pmm) (bs : List Block) (size : ℕ) : Placement :=
  match firstFit memblkSize size bs with
  | some (c, bs') =>
    if size + memblkSize < c.size then
      ⟨c.addr + memblkSize, size - memblkSize, bs', restHeader s.mem c size⟩
    else ⟨c.addr + memblkSize, c.size - memblkSize, bs', s.mem⟩
  | none =>
    let page := s.pmmStack.headD 0
    ⟨page + memblkSize, pmmBlockSize - memblkSize, bs ++ [⟨page, size, false⟩],
      linkLast s.mem bs page⟩

/-- The new block for a request of `n` bytes. -/
def placement (s : Pmm) (bs : List Block) (n : ℕ) : Placement := place s bs (wadd n memblkSize)

/-- The byte at `x` belongs to the payload of a block in use other than `b`. -/
def OtherPayload (bs : List Block) (b : Block) (x : ℕ) : Prop :=
  ∃ d ∈ bs, d ≠ b ∧ d.free = false ∧ d.addr + memblkSize ≤ x ∧ x < d.addr + d.size

/-- The byte at `x` belongs to the header of a block of the list `bs` other than `b`, and not to
that of `b`, which is freed. -/
def OtherHeader (bs : List Block) (b : Block) (x : ℕ) : Prop :=
  (∃ d ∈ bs, d.addr ≠ b.addr ∧ d.addr ≤ x ∧ x < d.addr + memblkSize) ∧
    (x < b.addr ∨ b.addr + memblkSize ≤ x)

/-- The byte at `x` belongs to another block than `b`: to a payload of the list `bs`, or to a header
of the list `bs'` with the new block. -/
def OtherByte (bs bs' : List Block) (b : Block) (x : ℕ) : Prop :=
  OtherPayload bs b x ∨ OtherHeader bs' b x

/-- The extent of a free block holds no payload of a block in use. -/
lemma WellFormed.not_otherPayload (h : WellFormed s bs) (hc : c ∈ bs) (hfree : c.free = true)
    (hx : c.Covers x) : ¬ OtherPayload bs b x := by
  rintro ⟨d, hd, -, hused, hdx, hxd⟩
  have hne : d ≠ c := by
    rintro rfl
    rw [hfree] at hused
    cases hused
  obtain ⟨hcx, hxc⟩ := hx
  rcases h.tiled.apart_of_ne hd hc hne with hap | hap <;> omega

/-- A byte outside the headers of a list is in no other header of it. -/
lemma not_otherHeader (hx : OutsideHeaders bs x) : ¬ OtherHeader bs b x := by
  rintro ⟨⟨d, hd, -, hdx, hxd⟩, -⟩
  rcases hx d hd with hx | hx <;> omega

/-- Cutting a block writes the header of the rest, besides its own. -/
lemma takeBlock_eq_restHeader {size : ℕ} (hread : blockSize s.mem c.addr = c.size)
    (hcut : size + memblkSize < c.size) (hend : c.addr + c.size ≤ modulus)
    (hx : x < c.addr ∨ c.addr + memblkSize ≤ x) :
    takeBlock s.mem size c.addr x = restHeader s.mem c size x := by
  have hhdr : memblkSize = 24 := rfl
  have hsz : blockSize (setBlockIsFree s.mem c.addr false) c.addr = c.size := by
    rw [blockSize_eq, readMemblk_setBlockIsFree, ← hread]
    rfl
  have hrest : wadd c.addr size = c.addr + size := wadd_of_lt (by omega)
  have hsub : wsub c.size size = c.size - size := wsub_of_le (by omega) (hread ▸ load64_lt _ _)
  have hnext : blockNext (setBlockSize (setBlockIsFree s.mem c.addr false) (c.addr + size)
      (c.size - size)) c.addr =
        blockNext (setBlockSize s.mem (c.addr + size) (c.size - size)) c.addr := by
    refine load64_congr fun y hy hyc => store64_congr ?_
    exact Function.update_of_ne (by omega) _ _
  rw [takeBlock]
  simp only [hsz, hrest, hsub, hnext]
  rw [if_pos (by rw [wadd_of_lt (by omega)]; exact hcut), setBlockNext_apply hx,
    setBlockSize_apply hx, restHeader]
  exact setBlockIsFree_congr (store64_congr (store64_congr (setBlockIsFree_apply hx)))

/-- What `pmm_alloc` does, in terms of the state before: the address that it returns, the bytes from
there on that belong to no other block, and the memory outside the header of the new block. -/
structure Placed (s₁ : Pmm) (bs : List Block) (b : Block) (q : ℕ) (pl : Placement) : Prop where
  payload : q = pl.payload
  room : ∀ i < pl.room, q + i < modulus ∧ ¬ OtherByte bs pl.blocks b (q + i)
  headers : ∀ x, x + memblkSize < q ∨ q ≤ x → s₁.mem x = pl.headers x

/-- A new block from the list. -/
lemma WellFormed.placed_fit {size : ℕ} (h : WellFormed s bs)
    (hfit : firstFit memblkSize size bs = some (c, bs')) (hsize : size + memblkSize < modulus) :
    Placed { s with mem := takeBlock s.mem size c.addr } bs b (c.addr + memblkSize)
      (place s bs size) := by
  have hhdr : memblkSize = 24 := rfl
  obtain ⟨pre, post, rfl, -, hc, rfl⟩ := firstFit_eq_some hfit
  have hmem : c ∈ pre ++ c :: post := by simp
  have hend := h.end_le c hmem
  have hcsize := h.tiled.header_le c hmem
  obtain ⟨-, hread, -⟩ := h.list.header hmem
  -- a byte of the extent of `c` can only be in a header that the cut has made
  have hother : ∀ x, c.addr + memblkSize ≤ x → x < c.addr + c.size →
      OutsideHeaders (carve memblkSize size c) x →
      ¬ OtherByte (pre ++ c :: post) (pre ++ (carve memblkSize size c ++ post)) b x := by
    rintro x hx hxc houtside (hpay | hhead)
    · exact h.not_otherPayload hmem hc.1 ⟨by omega, hxc⟩ hpay
    · refine not_otherHeader (fun d hd => ?_) hhead
      rcases List.mem_append.mp hd with hd | hd
      · exact h.outsideHeaders hmem hx hxc d (List.mem_append_left _ hd)
      · rcases List.mem_append.mp hd with hd | hd
        · exact houtside d hd
        · exact h.outsideHeaders hmem hx hxc d
            (List.mem_append_right _ (List.mem_cons_of_mem _ hd))
  rw [place, hfit]
  dsimp only
  by_cases hcut : size + memblkSize < c.size
  · rw [if_pos hcut]
    refine ⟨rfl, fun i (hi : i < size - memblkSize) => ⟨by omega, ?_⟩, fun x hx => ?_⟩
    · refine hother _ (by omega) (by omega) fun d hd => ?_
      rw [carve, if_pos hcut, List.mem_cons, List.mem_singleton] at hd
      rcases hd with rfl | rfl
      · exact .inr (Nat.le_add_right _ _)
      · exact .inl (by dsimp only; omega)
    · dsimp only
      exact takeBlock_eq_restHeader hread hcut hend (by omega)
  · rw [if_neg hcut]
    refine ⟨rfl, fun i (hi : i < c.size - memblkSize) => ⟨by omega, ?_⟩, fun x hx => ?_⟩
    · refine hother _ (by omega) (by omega) fun d hd => ?_
      rw [carve, if_neg hcut, List.mem_singleton] at hd
      rw [hd]
      exact .inr (Nat.le_add_right _ _)
    · dsimp only
      rw [takeBlock_whole hsize (by rw [hread]; omega)]
      exact setBlockIsFree_apply (by omega)

/-- A new block on a page. -/
lemma WellFormed.placed_page {page size : ℕ} {rest : List ℕ} (h : WellFormed s bs)
    (hfit : firstFit memblkSize size bs = none) (hstack : s.pmmStack = page :: rest)
    (hframe : ∀ x, x < page ∨ page + memblkSize ≤ x → s₁.mem x = linkLast s.mem bs page x) :
    Placed s₁ bs b (page + memblkSize) (place s bs size) := by
  have hhdr : memblkSize = 24 := rfl
  have hpg : pmmBlockSize = 4096 := rfl
  have hmod : modulus = 2 ^ 64 := rfl
  have hpage : page ∈ s.pmmStack := by simp [hstack]
  obtain ⟨hal, -, hlt⟩ := h.stackPage page hpage
  rw [hpg] at hal
  rw [place, hfit, hstack]
  dsimp only
  rw [List.headD_cons]
  refine ⟨rfl, fun i (hi : i < pmmBlockSize - memblkSize) => ⟨by omega, ?_⟩,
    fun x hx => hframe x (by omega)⟩
  have hpast : ∀ d ∈ bs, d.addr + d.size ≤ page ∨ page + pmmBlockSize ≤ d.addr := fun d hd =>
    h.apart_of_page hd hpage
  rintro (⟨d, hd, -, -, hdx, hxd⟩ | ⟨⟨d, hd, -, hdx, hxd⟩, -⟩)
  · rcases hpast d hd with hap | hap <;> omega
  · rcases List.mem_append.mp hd with hd | hd
    · have hdsize := h.tiled.header_le d hd
      rcases hpast d hd with hap | hap <;> omega
    · rw [List.mem_singleton.mp hd] at hdx hxd
      dsimp only at hdx hxd
      omega

/-- A request that is met is met as `placement` says. -/
theorem WellFormed.placed (h : WellFormed s bs) (hn : n ≠ 0)
    (hrun : pmmAlloc fuel s n = some (q, s₁)) (hq : q ≠ 0) (hb : b ∈ bs) (hused : b.free = false) :
    Placed s₁ bs b q (placement s bs n) := by
  rcases h.alloc_cases hn hrun hq with ⟨c, bs', hfit, hmem, hc, -, rfl, rfl⟩ |
    ⟨page, rest, hfit, hstack, -, rfl, -, -, hframe⟩
  · exact h.placed_fit hfit (h.size_lt_of_fits hmem hc hb hused)
  · exact h.placed_page hfit hstack hframe

/-- Unless the size wraps, `placement` has the heap list that `pmm_alloc` leaves. -/
lemma WellFormed.placement_blocks (h : WellFormed s bs) (hb : b ∈ bs) (hused : b.free = false)
    (hn : n ≠ 0) (hsmall : n + memblkSize < modulus) (hrun : pmmAlloc fuel s n = some (q, s₁))
    (hq : q ≠ 0) : HeapList s₁.mem s₁.pmmFreeBlocks (placement s bs n).blocks := by
  have hhdr : memblkSize = 24 := rfl
  have hsize : wadd n memblkSize = n + memblkSize := wadd_of_lt hsmall
  rcases h.alloc_cases hn hrun hq with ⟨c, bs', hfit, hmem, hc, -, rfl, rfl⟩ |
    ⟨page, rest, hfit, hstack, -, rfl, -, hlist, -⟩
  · rw [placement, place, hfit]
    rw [hsize] at hfit hc ⊢
    have hlarge := h.size_lt_of_fits hmem hc hb hused
    have hlist := (pmmAlloc_of_fit h.toHeapState hn (by omega) hfit (Nat.lt_succ_self _)).2
    dsimp only
    split <;> exact hlist
  · rw [placement, place, hfit, hstack]
    exact hlist

/-! ### The property -/

/-- In the memory `m` the payloads of the blocks in use other than `b` are those of `s`, and the
headers of the blocks of `bs'` other than `b` are as `pmm_alloc` has left them in `s₁`. -/
structure OthersKept (s s₁ : Pmm) (bs bs' : List Block) (b : Block) (m : Memory) : Prop where
  payloads : ∀ x, OtherPayload bs b x → m x = s.mem x
  headers : ∀ x, OtherHeader bs' b x → m x = s₁.mem x

/-- `pmm_realloc(ptr, n)`, with `ptr` the payload of `b`, reads only the `m` bytes from `ptr` on,
and keeps the other blocks: when the copy is done, and when it returns.  Its call of `pmm_alloc` has
returned `q` and the state `s₁`. -/
structure ReallocConfined (s s₁ : Pmm) (bs : List Block) (b : Block) (q m n : ℕ) : Prop where
  reads : ∀ x, Scanned s₁.mem (b.addr + memblkSize) x →
    b.addr + memblkSize ≤ x ∧ x < b.addr + memblkSize + m
  copied : ∀ fuel l, oldSizeLoop s₁.mem fuel (b.addr + memblkSize) 0 = some l →
    OthersKept s s₁ bs (placement s bs n).blocks b
      (copyLoop s₁.mem q (b.addr + memblkSize) (wadd l 1))
  final : ∀ fuel s', pmmRealloc fuel s (b.addr + memblkSize) n = some (q, s') →
    OthersKept s s₁ bs (placement s bs n).blocks b s'.mem

/-- An allocation keeps the payloads of the blocks in use, so the other blocks are kept if the bytes
are those after the allocation. -/
lemma WellFormed.othersKept_iff (h : WellFormed s bs) (hn : n ≠ 0)
    (halloc : pmmAlloc fuel s n = some (q, s₁)) (hq : q ≠ 0) :
    OthersKept s s₁ bs bs' b m ↔ ∀ x, OtherByte bs bs' b x → m x = s₁.mem x := by
  have hpayload : ∀ x, OtherPayload bs b x → s₁.mem x = s.mem x := by
    rintro x ⟨d, hd, -, hused, hx, hxd⟩
    obtain ⟨-, -, -, -, hkept⟩ := h.alloc_keeps hn halloc hq hd hused
    exact hkept x hx hxd
  constructor
  · rintro ⟨hpay, hhdr⟩ x (hx | hx)
    · exact (hpay x hx).trans (hpayload x hx).symm
    · exact hhdr x hx
  · intro hkept
    exact ⟨fun x hx => (hkept x (Or.inl hx)).trans (hpayload x hx), fun x hx => hkept x (Or.inr hx)⟩

/-- The other blocks have no byte in the header of `b`. -/
lemma WellFormed.outside_of_other (h : WellFormed s bs) (hb : b ∈ bs)
    (hx : OtherByte bs bs' b x) : x < b.addr ∨ b.addr + memblkSize ≤ x := by
  rcases hx with ⟨d, hd, hne, -, hdx, hxd⟩ | ⟨-, hx⟩
  · exact h.outsideHeaders hd hdx hxd b hb
  · exact hx

/-- The copy keeps the other blocks if the bytes that fall on them are there already. -/
lemma WellFormed.othersKept_copied (h : WellFormed s bs) (hn : n ≠ 0)
    (halloc : pmmAlloc fuel s n = some (q, s₁)) (hq : q ≠ 0) (hb : b ∈ bs) (hused : b.free = false)
    {l : ℕ} (hl : l + memblkSize < b.size)
    (hsame : ∀ i ≤ l, OtherByte bs bs' b (wadd q i) →
      s₁.mem (wadd q i) = s.mem (b.addr + memblkSize + i)) :
    OthersKept s s₁ bs bs' b (copyLoop s₁.mem q (b.addr + memblkSize) (l + 1)) := by
  have hend := h.end_le b hb
  refine (h.othersKept_iff hn halloc hq).mpr fun x hother => ?_
  by_cases hx : ∃ i ≤ l, x = wadd q i
  · obtain ⟨i, hi, rfl⟩ := hx
    rw [h.copy_payload hn halloc hq hb hused (by omega) (by omega) (by omega), hsame i hi hother]
  · exact copyLoop_apply_of_ne fun j hj heq => hx ⟨j, by omega, heq⟩

/-- What the copy keeps, the call keeps: `pmm_free` writes only the header of `b`. -/
lemma WellFormed.othersKept_final (h : WellFormed s bs) (hn : n ≠ 0)
    (halloc : pmmAlloc fuel s n = some (q, s₁)) (hq : q ≠ 0) (hb : b ∈ bs) (hused : b.free = false)
    (hp : b.addr + memblkSize < modulus)
    (hcopied : ∀ fuel l, oldSizeLoop s₁.mem fuel (b.addr + memblkSize) 0 = some l →
      OthersKept s s₁ bs bs' b (copyLoop s₁.mem q (b.addr + memblkSize) (wadd l 1)))
    {fuel' : ℕ} (hrun : pmmRealloc fuel' s (b.addr + memblkSize) n = some (q, s')) :
    OthersKept s s₁ bs bs' b s'.mem := by
  have hhdr : memblkSize = 24 := rfl
  obtain ⟨hinit, -, -, -, -⟩ := h.alloc_keeps hn halloc hq hb hused
  obtain ⟨t, halloc', hrest⟩ := pmmRealloc_eq_some h.initialized hn (by omega) hrun
  obtain ⟨-, rfl⟩ := Prod.mk.inj (pmmAlloc_unique halloc halloc')
  obtain ⟨l, hl, hfree⟩ := hrest hq
  obtain ⟨-, hfinal⟩ := pmmFree_frame (b := b.addr) (by exact hinit) hp hfree
  have hkept := (h.othersKept_iff hn halloc hq).mp (hcopied _ l hl)
  refine (h.othersKept_iff hn halloc hq).mpr fun x hother => ?_
  rw [hfinal x (h.outside_of_other hb hother)]
  exact hkept x hother

/-- A call is confined if and only if the first zero byte from the old payload on lies within its
`m` bytes, and the bytes up to it fall, from `q` on, on other blocks only where they change nothing. -/
lemma WellFormed.confined_iff {m : ℕ} (h : WellFormed s bs) (hb : b ∈ bs) (hused : b.free = false)
    (hm1 : 1 ≤ m) (hm : m + memblkSize ≤ b.size) (hn : n ≠ 0)
    (halloc : pmmAlloc fuel s n = some (q, s₁)) (hq : q ≠ 0) :
    ReallocConfined s s₁ bs b q m n ↔ ∃ z < m, s.mem (b.addr + memblkSize + z) = 0 ∧
      (∀ j < z, s.mem (b.addr + memblkSize + j) ≠ 0) ∧
      ∀ i ≤ z, OtherByte bs (placement s bs n).blocks b (wadd q i) →
        s₁.mem (wadd q i) = s.mem (b.addr + memblkSize + i) := by
  have hhdr : memblkSize = 24 := rfl
  have hmod : modulus = 2 ^ 64 := rfl
  obtain ⟨-, -, -, hflag, -⟩ := h.alloc_keeps hn halloc hq hb hused
  have hbend := h.end_le b hb
  have hp : b.addr + memblkSize < modulus := by omega
  have hold : ∀ i < m, s₁.mem (wadd (b.addr + memblkSize) i) = s.mem (b.addr + memblkSize + i) :=
    fun i hi => h.read_payload hn halloc hq hb hused (by omega)
  obtain ⟨z, hzlt, hzero, hbefore⟩ := h.exists_scan hb hflag
  have hcount : wadd z 1 = z + 1 := wadd_of_lt (by omega)
  constructor
  · intro hconf
    have hzm : z < m := by
      -- else the search reads the byte behind the old payload
      by_contra hcon
      have hscan : Scanned s₁.mem (b.addr + memblkSize) (wadd (b.addr + memblkSize) m) :=
        (scanned_iff hp hzero hbefore).mpr ⟨m, by omega, rfl⟩
      have hread := hconf.reads _ hscan
      simp only [wadd, modulus] at hread
      omega
    refine ⟨z, hzm, by rw [← hold z hzm]; exact hzero, fun j hj => ?_, fun i hi hother => ?_⟩
    · rw [← hold j (by omega)]
      exact hbefore j hj
    · have hfound := oldSizeLoop_of_zero hp hzero hbefore (by decide : 0 < modulus)
        (Nat.lt_succ_self z)
      rw [wadd, Nat.zero_add, Nat.mod_eq_of_lt (by omega)] at hfound
      have hall := (h.othersKept_iff hn halloc hq).mp (hconf.copied _ z hfound) _ hother
      rw [hcount, h.copy_payload hn halloc hq hb hused (by omega) (by omega) (by omega)] at hall
      exact hall.symm
  · rintro ⟨y, hym, hyzero, hybefore, hsame⟩
    obtain rfl : y = z := by
      refine first_zero_unique ((hold y hym).trans hyzero) (fun j hj => ?_) hzero hbefore
      rw [hold j (by omega)]
      exact hybefore j hj
    have hcopied : ∀ fuel l, oldSizeLoop s₁.mem fuel (b.addr + memblkSize) 0 = some l →
        OthersKept s s₁ bs (placement s bs n).blocks b
          (copyLoop s₁.mem q (b.addr + memblkSize) (wadd l 1)) := by
      intro fuel' l hl
      obtain rfl : l = y := oldSizeLoop_unique hp hzero hbefore (by omega) hl
      rw [hcount]
      exact h.othersKept_copied hn halloc hq hb hused (by omega) hsame
    refine ⟨fun x hx => ?_, hcopied, fun _ _ => h.othersKept_final hn halloc hq hb hused hp hcopied⟩
    obtain ⟨i, hi, rfl⟩ := (scanned_iff hp hzero hbefore).mp hx
    rw [wadd_of_lt (show b.addr + memblkSize + i < modulus by omega)]
    omega

/-! ### The main result -/

/-- In the state `s` before the call, with the new block placed as `pl` says: the first `m` bytes of
the old payload have a zero byte, and the bytes up to the first one that do not fit into the room of
the new block fall on other blocks only where they change nothing. -/
def CopyHarmless (s : Pmm) (bs : List Block) (b : Block) (pl : Placement) (m : ℕ) : Prop :=
  ∃ z < m, s.mem (b.addr + memblkSize + z) = 0 ∧
    (∀ j < z, s.mem (b.addr + memblkSize + j) ≠ 0) ∧
    ∀ i ≤ z, pl.room ≤ i → OtherByte bs pl.blocks b (wadd pl.payload i) →
      pl.headers (wadd pl.payload i) = s.mem (b.addr + memblkSize + i)

/-- On a well-formed heap, a call for which the allocation succeeds is confined if and only if its
copy is harmless for the place that the heap list gives to the new block. -/
theorem realloc_confined_iff {m : ℕ} (h : WellFormed s bs) (hb : b ∈ bs) (hused : b.free = false)
    (hm1 : 1 ≤ m) (hm : m + memblkSize ≤ b.size) (hn : n ≠ 0)
    (halloc : pmmAlloc fuel s n = some (q, s₁)) (hq : q ≠ 0) :
    ReallocConfined s s₁ bs b q m n ↔ CopyHarmless s bs b (placement s bs n) m := by
  have hhdr : memblkSize = 24 := rfl
  have hmod : modulus = 2 ^ 64 := rfl
  have hbend := h.end_le b hb
  have hplaced := h.placed hn halloc hq hb hused
  obtain ⟨-, hqlt, -⟩ := h.alloc_keeps hn halloc hq hb hused
  rw [h.confined_iff hb hused hm1 hm hn halloc hq, CopyHarmless, ← hplaced.payload]
  -- the copy does not come around the address space to the header of the new block
  have hsame : ∀ i < m, s₁.mem (wadd q i) = (placement s bs n).headers (wadd q i) := by
    intro i hi
    refine hplaced.headers _ ?_
    simp only [wadd, modulus] at *
    omega
  refine exists_congr fun z => and_congr_right fun hz => and_congr_right fun _ =>
    and_congr_right fun _ => forall₂_congr fun i hi => ?_
  rw [hsame i (by omega)]
  refine ⟨fun hcopy _ hother => hcopy hother, fun hcopy hother => hcopy ?_ hother⟩
  -- in the room of the new block there is no byte of another one
  by_contra hroom
  obtain ⟨hlt, hnot⟩ := hplaced.room i (not_le.mp hroom)
  rw [wadd_of_lt hlt] at hother
  exact hnot hother

/-- Two zero bytes, reallocated with the same size. -/
theorem realloc_confined_zeros : ∃ s s₁, pmmAlloc 1 threePages 2 = some (0x6018, s) ∧
    pmmAlloc 2 s 2 = some (0x5018, s₁) ∧
    ReallocConfined s s₁ [⟨0x6000, 26, false⟩] ⟨0x6000, 26, false⟩ 0x5018 2 2 := by
  obtain ⟨s, hrun, hstack, hwf, hzero⟩ := exists_firstBlock (n := 2) (by decide) (by decide)
  obtain ⟨s₁, halloc⟩ := exists_secondBlock (n := 2) hwf hstack (by decide) (by decide)
  refine ⟨s, s₁, hrun, halloc, (realloc_confined_iff (m := 2) hwf List.mem_cons_self rfl (by decide)
    (by decide) (by decide) halloc (by decide)).mpr ?_⟩
  refine ⟨0, by decide, hzero 0x6018 (by decide), by simp, fun i hi hroom => ?_⟩
  -- the one byte that is copied has room
  have hpage : (4072 : ℕ) ≤ i := hroom
  omega

/-! ### A shrinking call -/

/-- The calls before the shrinking one: they leave a free block of one byte in front of a block in
use. -/
def holeRun : List HeapOp := [.alloc 100, .free 0x6018, .alloc 1, .alloc 75, .free 0x6018, .alloc 3]

/-- The heap after these calls. -/
def holeBlocks : List Block := [⟨0x6000, 25, true⟩, ⟨0x6019, 99, false⟩, ⟨0x5000, 27, false⟩]

lemma exists_view_holeRun : ∃ h, Trace HeapStep (HeapRun.start threePages) holeRun h ∧
    HeapView h holeBlocks [0x4000] [(0x5018, 3), (0x6031, 75)] [] [0x5000, 0x6000] := by
  obtain ⟨h₁, hs₁, hv₁⟩ := threePages_view.alloc_fresh (n := 100) (by decide) (by decide) rfl
    (by decide) (by decide) (by simp) (by decide) (by decide)
  obtain ⟨h₂, hs₂, hv₂⟩ := hv₁.free [] ⟨0x6000, 124, false⟩ [] (n := 100) (by decide)
    (by decide) (by decide) (by decide) (by decide)
  obtain ⟨h₃, hs₃, hv₃⟩ := hv₂.alloc_fit ⟨0x6000, 124, true⟩
    [⟨0x6000, 25, false⟩, ⟨0x6019, 99, true⟩] (n := 1) (by decide) (by decide) (by decide)
    (by decide) (by decide)
  obtain ⟨h₄, hs₄, hv₄⟩ := hv₃.alloc_fit ⟨0x6019, 99, true⟩
    [⟨0x6000, 25, false⟩, ⟨0x6019, 99, false⟩] (n := 75) (by decide) (by decide) (by decide)
    (by decide) (by decide)
  obtain ⟨h₅, hs₅, hv₅⟩ := hv₄.free [] ⟨0x6000, 25, false⟩ [⟨0x6019, 99, false⟩] (n := 1)
    (by decide) (by decide) (by decide) (by decide) (by decide)
  obtain ⟨h₆, hs₆, hv₆⟩ := hv₅.alloc_fresh (n := 3) (by decide) (by decide) (by decide)
    (by decide) (by decide) (by decide) (by decide) (by decide)
  exact ⟨h₆, .snoc (.snoc (.snoc (.snoc (.snoc (.snoc .nil hs₁) hs₂) hs₃) hs₄) hs₅) hs₆, hv₆⟩

/-- The three bytes `1, 1, 0` at `0x5018`, written by their owner. -/
def writeString (m : Memory) : Memory :=
  Function.update (Function.update (Function.update m 0x5018 1) 0x5019 1) 0x501a 0

/-- The owner writes nothing else. -/
lemma writeString_apply (hx : x < 0x5018 ∨ 0x501b ≤ x) : writeString m x = m x := by
  rw [writeString, Function.update_of_ne (by omega), Function.update_of_ne (by omega),
    Function.update_of_ne (by omega)]

/-- Three bytes, reallocated as one: the new block is the free block of one byte at `0x6000`, and
the copy writes its second byte over the size in the header of the block in use behind it. -/
theorem realloc_not_confined : ∃ h s s₁, Trace HeapStep (HeapRun.start threePages) holeRun h ∧
    s = { h.pmm with mem := writeString h.pmm.mem } ∧ WellFormed s holeBlocks ∧
    pmmAlloc 4 s 1 = some (0x6018, s₁) ∧
    ¬ ReallocConfined s s₁ holeBlocks ⟨0x5000, 27, false⟩ 0x6018 3 1 := by
  obtain ⟨h, htrace, hv⟩ := exists_view_holeRun
  obtain ⟨s, hs⟩ : ∃ s, s = { h.pmm with mem := writeString h.pmm.mem } := ⟨_, rfl⟩
  have hmem : s.mem = writeString h.pmm.mem := by rw [hs]
  have hwf₀ : WellFormed h.pmm holeBlocks := by
    refine ⟨hv.state, ?_, by rw [hv.stack_eq]; decide, by rw [hv.stack_eq]; decide⟩
    rintro c hc x ⟨hx, hxc⟩ ⟨page, hpage, hpx, hxp⟩
    rw [hv.stack_eq, List.mem_singleton] at hpage
    simp only [pmmBlockSize] at hxp
    simp only [holeBlocks, List.mem_cons, List.not_mem_nil, or_false] at hc
    rcases hc with rfl | rfl | rfl <;> dsimp only at hx hxc <;> omega
  have hwf : WellFormed s holeBlocks := by
    rw [hs]
    refine hwf₀.write fun c hc x hx hxc => writeString_apply ?_
    simp only [memblkSize] at hxc
    simp only [holeBlocks, List.mem_cons, List.not_mem_nil, or_false] at hc
    rcases hc with rfl | rfl | rfl <;> dsimp only at hx hxc <;> omega
  obtain ⟨m, halloc, -⟩ := @WellFormed.alloc_fit s holeBlocks
    [⟨0x6000, 25, false⟩, ⟨0x6019, 99, false⟩, ⟨0x5000, 27, false⟩] ⟨0x6000, 25, true⟩ 1 4 hwf
    (by decide) (by decide) (by decide) (by decide)
  obtain ⟨s₁, hs₁⟩ : ∃ s₁, s₁ = { s with mem := m } := ⟨_, rfl⟩
  rw [← hs₁] at halloc
  have hlist : HeapList s₁.mem s₁.pmmFreeBlocks
      [⟨0x6000, 25, false⟩, ⟨0x6019, 99, false⟩, ⟨0x5000, 27, false⟩] :=
    hwf.placement_blocks (b := ⟨0x5000, 27, false⟩) (by decide) rfl (by decide) (by decide) halloc
      (by decide)
  obtain ⟨-, -, -, -, hkept⟩ := hwf.alloc_keeps (b := ⟨0x5000, 27, false⟩) (by decide) halloc
    (by decide) (by decide) rfl
  refine ⟨h, s, s₁, htrace, hs, hwf, halloc, fun hconf => ?_⟩
  -- the copy of three bytes
  have hkept' : ∀ x, 0x5018 ≤ x → x < 0x501b → s₁.mem x = writeString h.pmm.mem x := by
    intro x hx hx'
    rw [hkept x hx hx', hmem]
  have hfirst : s₁.mem 0x5018 = 1 := (hkept' _ (by decide) (by decide)).trans rfl
  have hsecond : s₁.mem 0x5019 = 1 := (hkept' _ (by decide) (by decide)).trans rfl
  have hthird : s₁.mem 0x501a = 0 := (hkept' _ (by decide) (by decide)).trans rfl
  have hfound : oldSizeLoop s₁.mem 3 0x5018 0 = some 2 := by
    refine @oldSizeLoop_of_zero s₁.mem 0x5018 3 2 0 (by decide) hthird (fun j hj => ?_) (by decide)
      (by decide)
    interval_cases j
    · exact ne_of_eq_of_ne hfirst (by decide)
    · exact ne_of_eq_of_ne hsecond (by decide)
  have hcopied : copyLoop s₁.mem 0x6018 0x5018 3 0x6019 = s₁.mem 0x5019 :=
    @copyLoop_apply s₁.mem 0x5018 0x6018 3 1 (by decide) (by decide) (by decide)
  -- the byte that the copy writes over is the low byte of a size
  have hother : OtherHeader (placement s holeBlocks 1).blocks ⟨0x5000, 27, false⟩ 0x6019 :=
    ⟨⟨⟨0x6019, 99, false⟩, List.mem_cons_of_mem _ List.mem_cons_self, by decide, le_rfl,
      by decide⟩, by decide⟩
  have hsize : blockSize s₁.mem 0x6019 = 99 :=
    (hlist.header (b := ⟨0x6019, 99, false⟩) (by simp)).2.1
  have hsame : copyLoop s₁.mem 0x6018 0x5018 3 0x6019 = s₁.mem 0x6019 :=
    (hconf.copied _ _ hfound).headers _ hother
  rw [hcopied, hsecond] at hsame
  rw [blockSize, load64, load, ← hsame] at hsize
  have hlow : (1 : UInt8).toNat = 1 := rfl
  rw [hlow] at hsize
  omega

end Soaplin

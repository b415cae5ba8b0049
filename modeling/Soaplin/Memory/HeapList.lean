import Soaplin.Memory.PageStack
import Soaplin.Foundation.FreeList
import Soaplin.Foundation.LinkedChain

/-!
# The heap list in memory

The block headers of the heap lie in the heap's own pages.  `HeapList m p bs` reads the list with
head pointer `p` from the memory `m` as a list of abstract blocks.  The loops of `pmm_alloc` and
`pmm_free` are shown to do on it what `FreeList.firstFit` and `FreeList.release` do on the abstract
list, and to write nothing but block headers.
-/

namespace Soaplin

open ByteMemory Word64 FreeList LinkedChain

/-- `pmm_memblk_t`. -/
structure Memblk where
  size : ℕ
  next : ℕ
  isFree : Bool
deriving DecidableEq

/-- The block header at `b`. -/
def readMemblk (m : Memory) (b : ℕ) : Memblk := ⟨blockSize m b, blockNext m b, blockIsFree m b⟩

/-! ### Header fields -/

section Header

variable {m m' : Memory} {b c v : ℕ} {f : Bool}

/-- A header only depends on its own bytes. -/
lemma readMemblk_congr (h : ∀ x, b ≤ x → x < b + memblkSize → m' x = m x) :
    readMemblk m' b = readMemblk m b := by
  simp only [memblkSize] at h
  have hsize : blockSize m' b = blockSize m b :=
    load64_congr fun x hx hxb => h x hx (by omega)
  have hnext : blockNext m' b = blockNext m b :=
    load64_congr fun x hx hxb => h x (by omega) (by omega)
  have hfree : blockIsFree m' b = blockIsFree m b := by
    rw [blockIsFree, blockIsFree, h (b + 16) (by omega) (by omega)]
  rw [readMemblk, readMemblk, hsize, hnext, hfree]

/-- Assigning `size` writes inside the header only. -/
lemma setBlockSize_apply {x : ℕ} (hx : x < b ∨ b + memblkSize ≤ x) :
    setBlockSize m b v x = m x :=
  store64_apply_of_disjoint (by simp only [memblkSize] at hx; omega)

/-- Assigning `next` writes inside the header only. -/
lemma setBlockNext_apply {x : ℕ} (hx : x < b ∨ b + memblkSize ≤ x) :
    setBlockNext m b v x = m x :=
  store64_apply_of_disjoint (by simp only [memblkSize] at hx; omega)

/-- Assigning `is_free` writes inside the header only. -/
lemma setBlockIsFree_apply {x : ℕ} (hx : x < b ∨ b + memblkSize ≤ x) :
    setBlockIsFree m b f x = m x :=
  Function.update_of_ne (by simp only [memblkSize] at hx; omega) _ _

/-- Whether assigning `is_free` reaches a byte does not depend on the memory. -/
lemma setBlockIsFree_congr {x : ℕ} (h : m x = m' x) :
    setBlockIsFree m b f x = setBlockIsFree m' b f x := by
  by_cases hx : x = b + 16
  · subst hx
    simp [setBlockIsFree]
  · simp [setBlockIsFree, hx, h]

/-- The header after assigning its `size`. -/
lemma readMemblk_setBlockSize (hv : v < modulus) :
    readMemblk (setBlockSize m b v) b = { readMemblk m b with size := v } := by
  have hsize : blockSize (setBlockSize m b v) b = v := load64_store64_same hv
  have hnext : blockNext (setBlockSize m b v) b = blockNext m b :=
    load64_store64_of_disjoint (by omega)
  have hfree : blockIsFree (setBlockSize m b v) b = blockIsFree m b := by
    rw [blockIsFree, setBlockSize, store64_apply_of_disjoint (by omega), blockIsFree]
  simp only [readMemblk, hsize, hnext, hfree]

/-- The header after assigning its `next`. -/
lemma readMemblk_setBlockNext (hv : v < modulus) :
    readMemblk (setBlockNext m b v) b = { readMemblk m b with next := v } := by
  have hsize : blockSize (setBlockNext m b v) b = blockSize m b :=
    load64_store64_of_disjoint (by omega)
  have hnext : blockNext (setBlockNext m b v) b = v := load64_store64_same hv
  have hfree : blockIsFree (setBlockNext m b v) b = blockIsFree m b := by
    rw [blockIsFree, setBlockNext, store64_apply_of_disjoint (by omega), blockIsFree]
  simp only [readMemblk, hsize, hnext, hfree]

/-- The header after assigning its `is_free`. -/
lemma readMemblk_setBlockIsFree :
    readMemblk (setBlockIsFree m b f) b = { readMemblk m b with isFree := f } := by
  have hsize : blockSize (setBlockIsFree m b f) b = blockSize m b :=
    load64_congr fun x hx hxb => Function.update_of_ne (by omega) _ _
  have hnext : blockNext (setBlockIsFree m b f) b = blockNext m b :=
    load64_congr fun x hx hxb => Function.update_of_ne (by omega) _ _
  have hfree : blockIsFree (setBlockIsFree m b f) b = f := by
    rw [blockIsFree, setBlockIsFree, Function.update_self]
    cases f <;> decide
  simp only [readMemblk, hsize, hnext, hfree]

/-- The headers at `b` and `c` do not overlap. -/
def HeadersApart (b c : ℕ) : Prop := b + memblkSize ≤ c ∨ c + memblkSize ≤ b

instance (b c : ℕ) : Decidable (HeadersApart b c) :=
  inferInstanceAs (Decidable (_ ∨ _))

/-- A header is not affected by writes inside another one. -/
lemma readMemblk_of_apart (hap : HeadersApart b c)
    (h : ∀ x, x < b ∨ b + memblkSize ≤ x → m' x = m x) : readMemblk m' c = readMemblk m c := by
  refine readMemblk_congr fun x hx hxc => h x ?_
  rcases hap with hap | hap <;> omega

lemma readMemblk_setBlockSize_of_apart (hap : HeadersApart b c) :
    readMemblk (setBlockSize m b v) c = readMemblk m c :=
  readMemblk_of_apart hap fun _ => setBlockSize_apply

lemma readMemblk_setBlockNext_of_apart (hap : HeadersApart b c) :
    readMemblk (setBlockNext m b v) c = readMemblk m c :=
  readMemblk_of_apart hap fun _ => setBlockNext_apply

lemma readMemblk_setBlockIsFree_of_apart (hap : HeadersApart b c) :
    readMemblk (setBlockIsFree m b f) c = readMemblk m c :=
  readMemblk_of_apart hap fun _ => setBlockIsFree_apply

lemma blockSize_eq : blockSize m b = (readMemblk m b).size := rfl

lemma blockNext_eq : blockNext m b = (readMemblk m b).next := rfl

lemma blockIsFree_eq : blockIsFree m b = (readMemblk m b).isFree := rfl

end Header

/-! ### The list in memory -/

/-- The list of blocks with head pointer `p` in the memory `m`. -/
def HeapList (m : Memory) : ℕ → List Block → Prop
  | p, [] => p = 0
  | p, b :: bs => p = b.addr ∧ p ≠ 0 ∧ blockSize m p = b.size ∧ blockIsFree m p = b.free ∧
      HeapList m (blockNext m p) bs

variable {m m' : Memory} {p : ℕ} {b : Block} {bs pre post new : List Block}

/-- The addresses of a heap list form a null-terminated chain of `next` pointers. -/
lemma HeapList.chain (h : HeapList m p bs) : Chain (blockNext m) p (bs.map Block.addr) := by
  induction bs generalizing p with
  | nil => exact h
  | cons b bs ih =>
    obtain ⟨rfl, hp, -, -, hrest⟩ := h
    exact ⟨rfl, hp, ih hrest⟩

/-- The header of a block of the list. -/
lemma HeapList.header (h : HeapList m p bs) (hb : b ∈ bs) :
    b.addr ≠ 0 ∧ blockSize m b.addr = b.size ∧ blockIsFree m b.addr = b.free := by
  induction bs generalizing p with
  | nil => cases hb
  | cons c bs ih =>
    obtain ⟨rfl, hp, hsize, hfree, hrest⟩ := h
    rcases List.mem_cons.mp hb with rfl | hb
    · exact ⟨hp, hsize, hfree⟩
    · exact ih hrest hb

/-- A memory holds one heap list for a head pointer. -/
lemma HeapList.unique {bs' : List Block} (h : HeapList m p bs) (h' : HeapList m p bs') :
    bs = bs' := by
  induction bs generalizing p bs' with
  | nil =>
    obtain rfl : p = 0 := h
    cases bs' with
    | nil => rfl
    | cons c bs' => exact absurd rfl h'.2.1
  | cons b bs ih =>
    obtain ⟨rfl, hp, hsize, hfree, hrest⟩ := h
    cases bs' with
    | nil => exact absurd h' hp
    | cons c bs' =>
      obtain ⟨haddr, -, hsize', hfree', hrest'⟩ := h'
      have hbc : b = c := by
        cases b
        cases c
        simp only [FreeList.Block.mk.injEq]
        exact ⟨haddr, hsize.symm.trans hsize', hfree.symm.trans hfree'⟩
      rw [hbc, ih hrest hrest']

/-- A heap list only depends on the headers of its blocks. -/
lemma HeapList.congr (h : HeapList m p bs)
    (hsame : ∀ c ∈ bs, readMemblk m' c.addr = readMemblk m c.addr) : HeapList m' p bs := by
  induction bs generalizing p with
  | nil => exact h
  | cons c bs ih =>
    obtain ⟨rfl, hp, hsize, hfree, hrest⟩ := h
    have hc := hsame c List.mem_cons_self
    refine ⟨rfl, hp, ?_, ?_, ?_⟩
    · rw [blockSize_eq, hc]; exact hsize
    · rw [blockIsFree_eq, hc]; exact hfree
    · rw [blockNext_eq, hc]
      exact ih hrest fun d hd => hsame d (List.mem_cons_of_mem _ hd)

/-- The list from a block on. -/
lemma HeapList.tail (h : HeapList m p (pre ++ b :: post)) : HeapList m b.addr (b :: post) := by
  induction pre generalizing p with
  | nil =>
    obtain ⟨rfl, h'⟩ := h
    exact ⟨rfl, h'⟩
  | cons c pre ih => exact ih h.2.2.2.2

/-- Exchanging the list from a block on, when the headers before it stay as they are. -/
lemma HeapList.splice (h : HeapList m p (pre ++ b :: post))
    (hsame : ∀ c ∈ pre, readMemblk m' c.addr = readMemblk m c.addr)
    (hnew : HeapList m' b.addr new) : HeapList m' p (pre ++ new) := by
  induction pre generalizing p with
  | nil =>
    obtain ⟨rfl, -⟩ := h
    exact hnew
  | cons c pre ih =>
    obtain ⟨rfl, hp, hsize, hfree, hrest⟩ := h
    have hc := hsame c List.mem_cons_self
    refine ⟨rfl, hp, ?_, ?_, ?_⟩
    · rw [blockSize_eq, hc]; exact hsize
    · rw [blockIsFree_eq, hc]; exact hfree
    · rw [blockNext_eq, hc]
      exact ih hrest fun d hd => hsame d (List.mem_cons_of_mem _ hd)

/-! ### Searching -/

/-- The search stops at the first block that fits. -/
lemma findBlock_of_fits {size fuel prev : ℕ} (h : HeapList m p (pre ++ b :: post))
    (hpre : ∀ c ∈ pre, ¬ c.Fits size) (hb : b.Fits size) (hfuel : pre.length < fuel) :
    ∃ prev', findBlock m size fuel p prev = some (b.addr, prev') := by
  induction pre generalizing p prev fuel with
  | nil =>
    obtain ⟨rfl, hp, hsize, hfree, -⟩ := h
    obtain ⟨fuel, rfl⟩ := Nat.exists_eq_add_of_lt hfuel
    refine ⟨prev, ?_⟩
    simp only [List.length_nil, Nat.zero_add, findBlock, if_neg hp, hsize, hfree, hb.1, hb.2,
      and_self, if_true]
  | cons c pre ih =>
    obtain ⟨rfl, hp, hsize, hfree, hrest⟩ := h
    obtain ⟨fuel, rfl⟩ := Nat.exists_eq_succ_of_ne_zero (Nat.ne_zero_of_lt hfuel)
    have hc : ¬ (blockIsFree m c.addr = true ∧ size ≤ blockSize m c.addr) := by
      rw [hsize, hfree]
      exact hpre c List.mem_cons_self
    rw [Nat.succ_eq_add_one, findBlock, if_neg hp, if_neg hc]
    refine ih hrest (fun d hd => hpre d (List.mem_cons_of_mem _ hd)) ?_
    simp only [List.length_cons] at hfuel
    omega

/-- The search runs off the end of the list when no block fits, and `prev_block` is then the last
block. -/
lemma findBlock_of_not_fits {size fuel prev : ℕ} (h : HeapList m p bs)
    (hbs : ∀ c ∈ bs, ¬ c.Fits size) (hfuel : bs.length < fuel) :
    findBlock m size fuel p prev = some (0, (bs.map Block.addr).getLastD prev) := by
  induction bs generalizing p prev fuel with
  | nil =>
    obtain ⟨fuel, rfl⟩ := Nat.exists_eq_succ_of_ne_zero (Nat.ne_zero_of_lt hfuel)
    obtain rfl : p = 0 := h
    simp [findBlock]
  | cons c bs ih =>
    obtain ⟨rfl, hp, hsize, hfree, hrest⟩ := h
    obtain ⟨fuel, rfl⟩ := Nat.exists_eq_succ_of_ne_zero (Nat.ne_zero_of_lt hfuel)
    have hc : ¬ (blockIsFree m c.addr = true ∧ size ≤ blockSize m c.addr) := by
      rw [hsize, hfree]
      exact hbs c List.mem_cons_self
    rw [Nat.succ_eq_add_one, findBlock, if_neg hp, if_neg hc, List.map_cons, List.getLastD_cons]
    refine ih hrest (fun d hd => hbs d (List.mem_cons_of_mem _ hd)) ?_
    simp only [List.length_cons] at hfuel
    omega

/-! ### Taking a block -/

/-- A block that is taken whole is only marked used. -/
lemma takeBlock_whole {size b : ℕ} (hsize : size + memblkSize < modulus)
    (hle : blockSize m b ≤ size + memblkSize) :
    takeBlock m size b = setBlockIsFree m b false := by
  have hread : blockSize (setBlockIsFree m b false) b = blockSize m b := by
    rw [blockSize_eq, readMemblk_setBlockIsFree]
    rfl
  rw [takeBlock, if_neg]
  rw [hread, wadd_of_lt hsize]
  omega

/-- A block that is split keeps its front part, and a free block with the old successor starts right
behind it.  Only the two headers are written. -/
lemma takeBlock_split {size b : ℕ} (hmin : memblkSize ≤ size) (hnewlt : b + size < modulus)
    (hlt : size + memblkSize < blockSize m b) :
    readMemblk (takeBlock m size b) b = ⟨size, b + size, false⟩ ∧
      readMemblk (takeBlock m size b) (b + size) =
        ⟨blockSize m b - size, blockNext m b, true⟩ ∧
      ∀ x, (x < b ∨ b + memblkSize ≤ x) → (x < b + size ∨ b + size + memblkSize ≤ x) →
        takeBlock m size b x = m x := by
  have hblk : blockSize m b < modulus := load64_lt m b
  have hnextlt : blockNext m b < modulus := load64_lt m (b + 8)
  have hhdr : memblkSize = 24 := rfl
  have hnew : wadd b size = b + size := wadd_of_lt hnewlt
  have hap : HeadersApart b (b + size) := Or.inl (by omega)
  have hap' : HeadersApart (b + size) b := Or.inr (by omega)
  have hrest : wsub (blockSize m b) size = blockSize m b - size := wsub_of_le (by omega) hblk
  -- the header of `b` after marking it used
  have h₁ : readMemblk (setBlockIsFree m b false) b = ⟨blockSize m b, blockNext m b, false⟩ :=
    readMemblk_setBlockIsFree
  have hbranch : takeBlock m size b =
      setBlockNext (setBlockSize (setBlockIsFree (setBlockNext (setBlockSize
        (setBlockIsFree m b false) (b + size) (blockSize m b - size)) (b + size) (blockNext m b))
        (b + size) true) b size) b (b + size) := by
    have hsz : blockSize (setBlockIsFree m b false) b = blockSize m b := by
      rw [blockSize_eq, h₁]
    have hnx : blockNext (setBlockSize (setBlockIsFree m b false) (b + size)
        (blockSize m b - size)) b = blockNext m b := by
      rw [blockNext_eq, readMemblk_setBlockSize_of_apart hap', h₁]
    rw [takeBlock]
    simp only [hsz, hnew, hrest, hnx]
    rw [if_pos]
    rw [wadd_of_lt (by omega)]
    exact hlt
  rw [hbranch]
  refine ⟨?_, ?_, fun x hx hx' => ?_⟩
  · rw [readMemblk_setBlockNext hnewlt, readMemblk_setBlockSize (by omega),
      readMemblk_setBlockIsFree_of_apart hap', readMemblk_setBlockNext_of_apart hap',
      readMemblk_setBlockSize_of_apart hap', h₁]
  · rw [readMemblk_setBlockNext_of_apart hap, readMemblk_setBlockSize_of_apart hap,
      readMemblk_setBlockIsFree, readMemblk_setBlockNext hnextlt,
      readMemblk_setBlockSize (by omega)]
  · rw [setBlockNext_apply hx, setBlockSize_apply hx, setBlockIsFree_apply hx',
      setBlockNext_apply hx', setBlockSize_apply hx', setBlockIsFree_apply hx]

/-- Taking a block writes inside the headers of its pieces only. -/
lemma takeBlock_frame {size x : ℕ} (hread : blockSize m b.addr = b.size) (hmin : memblkSize ≤ size)
    (hsize : size + memblkSize < modulus)
    (hnewlt : size + memblkSize < b.size → b.addr + size < modulus)
    (hx : ∀ c ∈ carve memblkSize size b, x < c.addr ∨ c.addr + memblkSize ≤ x) :
    takeBlock m size b.addr x = m x := by
  unfold carve at hx
  split_ifs at hx with hlt
  · obtain ⟨-, -, hframe⟩ := takeBlock_split (b := b.addr) hmin (hnewlt hlt) (by rw [hread]; exact hlt)
    exact hframe x (hx ⟨b.addr, size, false⟩ (by simp))
      (hx ⟨b.addr + size, b.size - size, true⟩ (by simp))
  · rw [takeBlock_whole hsize (by rw [hread]; omega)]
    exact setBlockIsFree_apply (hx ⟨b.addr, b.size, false⟩ (by simp))

/-- The headers of a tiling do not overlap. -/
lemma headersApart_of_apart {b c : Block} (hb : memblkSize ≤ b.size) (hc : memblkSize ≤ c.size)
    (hap : b.Apart c) : HeadersApart b.addr c.addr := by
  rcases hap with hap | hap
  · exact Or.inl (by omega)
  · exact Or.inr (by omega)

/-- Taking a block replaces it in the list by its pieces, if its header and the header of a rest
that is cut off are apart from the other headers. -/
theorem takeBlock_heapList_of_apart {size : ℕ} (h : HeapList m p (pre ++ b :: post))
    (hap : ∀ c ∈ pre ++ post, HeadersApart b.addr c.addr) (hmin : memblkSize ≤ size)
    (hsize : size + memblkSize < modulus)
    (hnew : size + memblkSize < b.size → b.addr + size < modulus ∧
      ∀ c ∈ pre ++ post, HeadersApart (b.addr + size) c.addr) :
    HeapList (takeBlock m size b.addr) p (pre ++ (carve memblkSize size b ++ post)) := by
  obtain ⟨-, hbs, -⟩ := h.header (b := b) (by simp)
  have hsame : ∀ c ∈ pre ++ post,
      readMemblk (takeBlock m size b.addr) c.addr = readMemblk m c.addr := by
    intro c hc
    refine readMemblk_congr fun x hx hxc => ?_
    refine takeBlock_frame hbs hmin hsize (fun hlt => (hnew hlt).1) fun d hd => ?_
    -- the pieces have the header of the block and, if it is split, the new one
    have hapd : HeadersApart d.addr c.addr := by
      unfold carve at hd
      split_ifs at hd with hlt
      · rcases List.mem_cons.mp hd with rfl | hd
        · exact hap c hc
        · rw [List.mem_singleton.mp hd]
          exact (hnew hlt).2 c hc
      · rw [List.mem_singleton.mp hd]
        exact hap c hc
    rcases hapd with hapd | hapd <;> omega
  refine h.splice (fun c hc => hsame c (List.mem_append_left _ hc)) ?_
  obtain ⟨-, hb0, -, -, hpost⟩ := h.tail
  have hpost' : HeapList (takeBlock m size b.addr) (blockNext m b.addr) post :=
    hpost.congr fun c hc => hsame c (List.mem_append_right _ hc)
  unfold carve
  split_ifs with hlt
  · obtain ⟨hhead, hrest, -⟩ := takeBlock_split (b := b.addr) hmin (hnew hlt).1
      (by rw [hbs]; exact hlt)
    refine ⟨rfl, hb0, by rw [blockSize_eq, hhead], by rw [blockIsFree_eq, hhead], ?_⟩
    rw [blockNext_eq, hhead]
    refine ⟨rfl, by dsimp only; omega, ?_, ?_, ?_⟩
    · rw [blockSize_eq, hrest, hbs]
    · rw [blockIsFree_eq, hrest]
    · rw [blockNext_eq, hrest]
      exact hpost'
  · have hself : readMemblk (takeBlock m size b.addr) b.addr =
        ⟨b.size, blockNext m b.addr, false⟩ := by
      rw [takeBlock_whole hsize (by rw [hbs]; omega), readMemblk_setBlockIsFree, readMemblk, hbs]
    refine ⟨rfl, hb0, by rw [blockSize_eq, hself], by rw [blockIsFree_eq, hself], ?_⟩
    rw [blockNext_eq, hself]
    exact hpost'

/-- The headers of a tiling are pairwise apart. -/
lemma headersApart_of_tiled (htiled : Tiled memblkSize bs) :
    bs.Pairwise fun b c => HeadersApart b.addr c.addr :=
  htiled.apart.imp_of_mem fun hb hc hap =>
    headersApart_of_apart (htiled.header_le _ hb) (htiled.header_le _ hc) hap

/-- In a list of headers that are pairwise apart, one block and the others. -/
lemma headersApart_of_pairwise
    (hpair : (pre ++ b :: post).Pairwise fun b c => HeadersApart b.addr c.addr) :
    ∀ c ∈ pre ++ post, HeadersApart b.addr c.addr := by
  obtain ⟨-, hbp, hcross⟩ := List.pairwise_append.mp hpair
  intro c hc
  rcases List.mem_append.mp hc with hc | hc
  · exact Or.symm (hcross c hc b List.mem_cons_self)
  · exact (List.pairwise_cons.mp hbp).1 c hc

/-- Taking a block of a tiling replaces it in the list by its pieces. -/
theorem takeBlock_heapList {size : ℕ} (h : HeapList m p (pre ++ b :: post))
    (htiled : Tiled memblkSize (pre ++ b :: post)) (hend : b.addr + b.size ≤ modulus)
    (hmin : memblkSize ≤ size) (hsize : size + memblkSize < modulus) :
    HeapList (takeBlock m size b.addr) p (pre ++ (carve memblkSize size b ++ post)) := by
  refine takeBlock_heapList_of_apart h (headersApart_of_pairwise (headersApart_of_tiled htiled)) hmin
    hsize fun hlt => ⟨by omega, fun c hc => ?_⟩
  -- the rest begins inside the extent of the block
  obtain ⟨-, hbp, hcross⟩ := List.pairwise_append.mp htiled.apart
  have hap : b.Apart c := by
    rcases List.mem_append.mp hc with hc | hc
    · exact (hcross c hc b List.mem_cons_self).symm
    · exact (List.pairwise_cons.mp hbp).1 c hc
  have hcsize : memblkSize ≤ c.size := by
    refine htiled.header_le c ?_
    rcases List.mem_append.mp hc with hc | hc <;> simp [hc]
  rcases hap with hap | hap
  · exact Or.inl (by omega)
  · exact Or.inr (by omega)

/-! ### Appending a fresh page -/

/-- The header that `pmm_alloc` writes into a fresh page. -/
lemma readMemblk_writeFreshBlock {size page : ℕ} (hsize : size < modulus) :
    readMemblk (writeFreshBlock m page size) page = ⟨size, 0, false⟩ := by
  rw [writeFreshBlock, readMemblk_setBlockNext (by norm_num), readMemblk_setBlockIsFree,
    readMemblk_setBlockSize hsize]

/-- Only the header of the fresh page is written. -/
lemma writeFreshBlock_apply {size page x : ℕ} (hx : x < page ∨ page + memblkSize ≤ x) :
    writeFreshBlock m page size x = m x := by
  rw [writeFreshBlock, setBlockNext_apply hx, setBlockIsFree_apply hx, setBlockSize_apply hx]

/-- A fresh page in an empty heap. -/
lemma heapList_fresh_nil {size page : ℕ} (hsize : size < modulus) (hpage : page ≠ 0) :
    HeapList (writeFreshBlock m page size) page [⟨page, size, false⟩] := by
  have hhdr : readMemblk (writeFreshBlock m page size) page = ⟨size, 0, false⟩ :=
    readMemblk_writeFreshBlock hsize
  refine ⟨rfl, hpage, by rw [blockSize_eq, hhdr], by rw [blockIsFree_eq, hhdr], ?_⟩
  rw [blockNext_eq, hhdr]
  rfl

/-- A fresh page behind the last block of the heap. -/
lemma heapList_fresh_append {size page : ℕ} {last : Block} (h : HeapList m p (pre ++ [last]))
    (hpair : (pre ++ [last]).Pairwise fun b c => HeadersApart b.addr c.addr)
    (hsize : size < modulus) (hpage : page ≠ 0) (hlt : page < modulus)
    (hap : ∀ c ∈ pre ++ [last], HeadersApart page c.addr) :
    HeapList (setBlockNext (writeFreshBlock m page size) last.addr page) p
      (pre ++ [last, ⟨page, size, false⟩]) := by
  have hlast := hap last (by simp)
  have hlast' : HeadersApart last.addr page := Or.symm hlast
  have hnew : readMemblk (setBlockNext (writeFreshBlock m page size) last.addr page) page =
      ⟨size, 0, false⟩ := by
    rw [readMemblk_setBlockNext_of_apart hlast', readMemblk_writeFreshBlock hsize]
  have hold : readMemblk (setBlockNext (writeFreshBlock m page size) last.addr page) last.addr =
      { readMemblk m last.addr with next := page } := by
    rw [readMemblk_setBlockNext hlt,
      readMemblk_of_apart hlast fun _ hx => writeFreshBlock_apply hx]
  obtain ⟨hlast0, hls, hlf⟩ := h.header (b := last) (by simp)
  refine h.splice ?_ ?_
  · intro c hc
    have hcl : HeadersApart last.addr c.addr := headersApart_of_pairwise hpair c (by simp [hc])
    rw [readMemblk_setBlockNext_of_apart hcl,
      readMemblk_of_apart (hap c (by simp [hc])) fun _ hx => writeFreshBlock_apply hx]
  · refine ⟨rfl, hlast0, ?_, ?_, ?_⟩
    · rw [blockSize_eq, hold]; exact hls
    · rw [blockIsFree_eq, hold]; exact hlf
    · rw [blockNext_eq, hold]
      refine ⟨rfl, hpage, by rw [blockSize_eq, hnew], by rw [blockIsFree_eq, hnew], ?_⟩
      rw [blockNext_eq, hnew]
      rfl

/-! ### Merging -/

/-- One iteration of the merge loop takes the next block in: the header gets the sum of the sizes and
the link behind that block, and nothing else changes. -/
lemma mergeLoop_succ {b size size' : ℕ} (hsize : blockSize m b = size)
    (hne : blockNext m b ≠ 0) (hfree : blockIsFree m (blockNext m b) = true)
    (hsize' : blockSize m (blockNext m b) = size') (hap : HeadersApart b (blockNext m b))
    (hsum : size + size' < modulus) : ∃ m₂,
      (∀ fuel, mergeLoop b (fuel + 1) m = mergeLoop b fuel m₂) ∧
      readMemblk m₂ b = ⟨size + size', blockNext m (blockNext m b), blockIsFree m b⟩ ∧
      ∀ x, x < b ∨ b + memblkSize ≤ x → m₂ x = m x := by
  have hnextlt : blockNext m (blockNext m b) < modulus := load64_lt _ _
  refine ⟨setBlockNext (setBlockSize m b (size + size')) b (blockNext m (blockNext m b)),
    fun fuel => ?_, ?_, fun x hx => ?_⟩
  · have hn : blockNext (setBlockSize m b (size + size')) b = blockNext m b := by
      rw [blockNext_eq, readMemblk_setBlockSize hsum]
      rfl
    have hnn : blockNext (setBlockSize m b (size + size')) (blockNext m b) =
        blockNext m (blockNext m b) := by
      rw [blockNext_eq, readMemblk_setBlockSize_of_apart hap]
      rfl
    rw [mergeLoop, if_pos ⟨hne, hfree⟩, hsize, hsize', wadd_of_lt hsum]
    simp only [hn, hnn]
  · rw [readMemblk_setBlockNext hnextlt, readMemblk_setBlockSize hsum]
    rfl
  · rw [setBlockNext_apply hx, setBlockSize_apply hx]

/-- The merge loop of `pmm_free` does what `FreeList.merge` does, and writes only the header of the
block it merges into.  The merged size must be a word. -/
theorem mergeLoop_heapList {b size fuel : ℕ} (hb : b ≠ 0) (hsize : blockSize m b = size)
    (hlist : HeapList m (blockNext m b) bs) (hap : ∀ c ∈ bs, HeadersApart b c.addr)
    (hlt : ∀ c ∈ merge ⟨b, size, blockIsFree m b⟩ bs, c.size < modulus) (hfuel : bs.length < fuel) :
    ∃ m', mergeLoop b fuel m = some m' ∧
      HeapList m' b (merge ⟨b, size, blockIsFree m b⟩ bs) ∧
      ∀ x, x < b ∨ b + memblkSize ≤ x → m' x = m x := by
  induction bs generalizing m size fuel with
  | nil =>
    obtain ⟨fuel, rfl⟩ := Nat.exists_eq_succ_of_ne_zero (Nat.ne_zero_of_lt hfuel)
    have hnext : blockNext m b = 0 := hlist
    refine ⟨m, ?_, ⟨rfl, hb, hsize, rfl, hlist⟩, fun _ _ => rfl⟩
    simp [mergeLoop, hnext]
  | cons c cs ih =>
    obtain ⟨fuel, rfl⟩ := Nat.exists_eq_succ_of_ne_zero (Nat.ne_zero_of_lt hfuel)
    obtain ⟨hc, hc0, hcs, hcf, hrest⟩ := hlist
    rw [merge] at hlt ⊢
    by_cases hfree : c.free = true
    · rw [if_pos hfree] at hlt ⊢
      have hapc : HeadersApart b (blockNext m b) := by rw [hc]; exact hap c List.mem_cons_self
      have hsum : size + c.size < modulus := by
        obtain ⟨d, hd, -, hdsize⟩ := exists_mem_merge ⟨b, size + c.size, blockIsFree m b⟩ cs
        exact hdsize.trans_lt (hlt d hd)
      -- the memory after one iteration of the loop
      obtain ⟨m₂, hloop, hhdr, hframe⟩ :=
        mergeLoop_succ hsize hc0 (hcf.trans hfree) hcs hapc hsum
      have hflag : blockIsFree m₂ b = blockIsFree m b := by rw [blockIsFree_eq, hhdr]
      have hsize₂ : blockSize m₂ b = size + c.size := by rw [blockSize_eq, hhdr]
      have hlist₂ : HeapList m₂ (blockNext m₂ b) cs := by
        rw [blockNext_eq, hhdr]
        refine hrest.congr fun d hd => ?_
        exact readMemblk_of_apart (hap d (List.mem_cons_of_mem _ hd)) hframe
      have hfuel₂ : cs.length < fuel := by
        simp only [List.length_cons] at hfuel
        omega
      obtain ⟨m', hrun, hlist', hframe'⟩ := ih hsize₂ hlist₂
        (fun d hd => hap d (List.mem_cons_of_mem _ hd)) (by rw [hflag]; exact hlt) hfuel₂
      refine ⟨m', by rw [Nat.succ_eq_add_one, hloop, hrun], by rw [← hflag]; exact hlist', ?_⟩
      intro x hx
      rw [hframe' x hx, hframe x hx]
    · rw [if_neg hfree] at hlt ⊢
      refine ⟨m, ?_, ⟨rfl, hb, hsize, rfl, hc, hc0, hcs, hcf, hrest⟩, fun _ _ => rfl⟩
      rw [Nat.succ_eq_add_one, mergeLoop, if_neg]
      rintro ⟨-, hf⟩
      rw [hcf] at hf
      exact hfree hf

end Soaplin

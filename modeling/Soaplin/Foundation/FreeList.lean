import Mathlib.Tactic

/-!
# First-fit free lists

An abstract heap allocator.  The heap is a list of blocks, each an extent of addresses with a flag
that says whether it is free.  `firstFit` takes the first free block that is large enough and cuts
off the rest of it, `release` frees a block and merges it with the free blocks that follow it in the
list.  The list order need not be the address order.

A list is `Tiled` when its extents are pairwise disjoint and each can hold a header of `hdr` bytes.
Taking a block keeps this (`Tiled.firstFit`).  Releasing a block keeps it when the blocks that are
merged are neighbours in memory and not only in the list (`Tiled.release`); the same hypothesis
makes the merged extent the union of the extents it replaces.

No operation loses bytes: taking and releasing keep the sum of the sizes (`totalSize_carve`,
`totalSize_merge`), and a tiling of a range is not larger than the range (`Tiled.totalSize_le`).
-/

namespace FreeList

/-- A block of the heap: `size` bytes at `addr`. -/
structure Block where
  addr : ℕ
  size : ℕ
  free : Bool
deriving DecidableEq

/-- The address `x` lies in the extent of `b`. -/
def Block.Covers (b : Block) (x : ℕ) : Prop := b.addr ≤ x ∧ x < b.addr + b.size

/-- The extents of `b` and `c` do not overlap. -/
def Block.Apart (b c : Block) : Prop := b.addr + b.size ≤ c.addr ∨ c.addr + c.size ≤ b.addr

/-- The block `b` is free and has room for `size` bytes. -/
def Block.Fits (size : ℕ) (b : Block) : Prop := b.free = true ∧ size ≤ b.size

instance (size : ℕ) (b : Block) : Decidable (b.Fits size) :=
  inferInstanceAs (Decidable (_ ∧ _))

instance (b c : Block) : Decidable (b.Apart c) :=
  inferInstanceAs (Decidable (_ ∨ _))

/-- Disjointness of extents is symmetric. -/
lemma Block.Apart.symm {b c : Block} (h : b.Apart c) : c.Apart b := Or.symm h

instance : Std.Symm Block.Apart := ⟨fun _ _ => Block.Apart.symm⟩

/-! ### Operations -/

/-- What a block becomes when `size` bytes of it are taken: the rest is cut off if it can hold a
header and more. -/
def carve (hdr size : ℕ) (b : Block) : List Block :=
  if size + hdr < b.size then [⟨b.addr, size, false⟩, ⟨b.addr + size, b.size - size, true⟩]
  else [⟨b.addr, b.size, false⟩]

/-- Take the first block that fits; the result is the block and the new list. -/
def firstFit (hdr size : ℕ) : List Block → Option (Block × List Block)
  | [] => none
  | b :: bs =>
    if b.Fits size then some (b, carve hdr size b ++ bs)
    else (firstFit hdr size bs).map fun r => (r.1, b :: r.2)

/-- Merge the free blocks at the front of a list into the block before it. -/
def merge (b : Block) : List Block → List Block
  | [] => [b]
  | c :: cs => if c.free then merge ⟨b.addr, b.size + c.size, b.free⟩ cs else b :: c :: cs

/-- Free the block at address `a` and merge it with the free blocks that follow it. -/
def release (a : ℕ) : List Block → List Block
  | [] => []
  | b :: bs => if b.addr = a then merge ⟨b.addr, b.size, true⟩ bs else b :: release a bs

/-- The free blocks at the front of the list lie one after the other right behind `b`. -/
def Contiguous (b : Block) : List Block → Prop
  | [] => True
  | c :: cs => c.free = true → c.addr = b.addr + b.size ∧ Contiguous c cs

/-- The first-fit search takes a block that fits, behind blocks that do not, and replaces it by its
pieces. -/
theorem firstFit_eq_some {hdr size : ℕ} {bs bs' : List Block} {b : Block}
    (h : firstFit hdr size bs = some (b, bs')) :
    ∃ pre post, bs = pre ++ b :: post ∧ (∀ c ∈ pre, ¬ c.Fits size) ∧ b.Fits size ∧
      bs' = pre ++ (carve hdr size b ++ post) := by
  induction bs generalizing bs' with
  | nil => cases h
  | cons c bs ih =>
    rw [firstFit] at h
    split_ifs at h with hc
    · cases h
      exact ⟨[], bs, rfl, by simp, hc, rfl⟩
    · obtain ⟨r, hrec, heq⟩ := Option.map_eq_some_iff.mp h
      obtain ⟨hr₁, hr₂⟩ := Prod.mk.inj heq
      obtain ⟨pre, post, rfl, hpre, hb, hbs⟩ := ih (by rw [hrec, ← hr₁])
      refine ⟨c :: pre, post, rfl, ?_, hb, by rw [← hr₂, hbs, List.cons_append]⟩
      intro d hd
      rcases List.mem_cons.mp hd with rfl | hd
      · exact hc
      · exact hpre d hd

/-- The search fails exactly when no block fits. -/
theorem firstFit_eq_none {hdr size : ℕ} {bs : List Block} :
    firstFit hdr size bs = none ↔ ∀ c ∈ bs, ¬ c.Fits size := by
  induction bs with
  | nil => simp [firstFit]
  | cons c bs ih =>
    rw [firstFit]
    split_ifs with hc
    · simp [hc]
    · simp [hc, ih]

/-! ### Tilings -/

/-- The extents are pairwise disjoint and each has room for a header. -/
structure Tiled (hdr : ℕ) (bs : List Block) : Prop where
  header_le : ∀ b ∈ bs, hdr ≤ b.size
  apart : bs.Pairwise Block.Apart

instance (hdr : ℕ) (bs : List Block) : Decidable (Tiled hdr bs) :=
  decidable_of_iff ((∀ b ∈ bs, hdr ≤ b.size) ∧ bs.Pairwise Block.Apart)
    ⟨fun h => ⟨h.1, h.2⟩, fun h => ⟨h.header_le, h.apart⟩⟩

/-- Every address of every extent satisfies `P`. -/
def Covered (P : ℕ → Prop) (bs : List Block) : Prop := ∀ b ∈ bs, ∀ x, b.Covers x → P x

variable {hdr size : ℕ} {P : ℕ → Prop} {pre post new : List Block} {b c : Block}

/-- Two different positions of a tiling hold disjoint extents. -/
lemma Tiled.apart_of_ne {bs : List Block} (h : Tiled hdr bs) (hb : b ∈ bs) (hc : c ∈ bs)
    (hne : b ≠ c) : b.Apart c :=
  h.apart.forall hb hc hne

/-- The extents of a tiling start at different addresses. -/
lemma Tiled.eq_of_addr_eq {bs : List Block} (hpos : 0 < hdr) (h : Tiled hdr bs) (hb : b ∈ bs)
    (hc : c ∈ bs) (haddr : b.addr = c.addr) : b = c := by
  by_contra hne
  have hb' := h.header_le b hb
  have hc' := h.header_le c hc
  rcases h.apart_of_ne hb hc hne with hap | hap <;> omega

/-- The start addresses of a tiling are distinct. -/
lemma Tiled.nodup_addr {bs : List Block} (hpos : 0 < hdr) (h : Tiled hdr bs) :
    (bs.map Block.addr).Nodup := by
  refine List.pairwise_map.mpr (h.apart.imp_of_mem fun {b c} hb hc hap heq => ?_)
  have hb' := h.header_le b hb
  have hc' := h.header_le c hc
  rcases hap with hap | hap <;> omega

/-- A block may be replaced by disjoint blocks inside its extent. -/
theorem Tiled.replace (h : Tiled hdr (pre ++ b :: post)) (hnew : Tiled hdr new)
    (hsub : ∀ c ∈ new, b.addr ≤ c.addr ∧ c.addr + c.size ≤ b.addr + b.size) :
    Tiled hdr (pre ++ (new ++ post)) := by
  obtain ⟨hpre, hbpost, hcross⟩ := List.pairwise_append.mp h.apart
  obtain ⟨hb, hpost⟩ := List.pairwise_cons.mp hbpost
  have hright : ∀ c ∈ new, ∀ d ∈ post, c.Apart d := by
    intro c hc d hd
    have hcb := hsub c hc
    rcases hb d hd with hap | hap
    · exact Or.inl (by omega)
    · exact Or.inr (by omega)
  have hleft : ∀ d ∈ pre, ∀ c ∈ new, d.Apart c := by
    intro d hd c hc
    have hcb := hsub c hc
    rcases hcross d hd b List.mem_cons_self with hap | hap
    · exact Or.inl (by omega)
    · exact Or.inr (by omega)
  refine ⟨?_, List.pairwise_append.mpr ⟨hpre, List.pairwise_append.mpr ⟨hnew.apart, hpost, hright⟩, ?_⟩⟩
  · intro d hd
    rcases List.mem_append.mp hd with hd | hd
    · exact h.header_le d (List.mem_append_left _ hd)
    · rcases List.mem_append.mp hd with hd | hd
      · exact hnew.header_le d hd
      · exact h.header_le d (List.mem_append_right _ (List.mem_cons_of_mem _ hd))
  · intro d hd c hc
    rcases List.mem_append.mp hc with hc | hc
    · exact hleft d hd c hc
    · exact hcross d hd c (List.mem_cons_of_mem _ hc)

/-- The pieces of a carved block lie inside it. -/
lemma carve_sub (hsize : size ≤ b.size) :
    ∀ c ∈ carve hdr size b, b.addr ≤ c.addr ∧ c.addr + c.size ≤ b.addr + b.size := by
  intro c hc
  unfold carve at hc
  split_ifs at hc with hlt
  · rcases List.mem_cons.mp hc with rfl | hc
    · exact ⟨le_rfl, by dsimp only; omega⟩
    · rw [List.mem_singleton.mp hc]
      exact ⟨by dsimp only; omega, by dsimp only; omega⟩
  · rw [List.mem_singleton.mp hc]
    exact ⟨le_rfl, le_rfl⟩

/-- The pieces of a carved block are a tiling. -/
lemma tiled_carve (hdrsize : hdr ≤ size) (hsize : size ≤ b.size) : Tiled hdr (carve hdr size b) := by
  unfold carve
  split_ifs with hlt
  · refine ⟨?_, ?_⟩
    · intro c hc
      rcases List.mem_cons.mp hc with rfl | hc
      · exact hdrsize
      · rw [List.mem_singleton.mp hc]
        dsimp only
        omega
    · refine List.pairwise_cons.mpr ⟨?_, List.pairwise_singleton _ _⟩
      intro c hc
      rw [List.mem_singleton.mp hc]
      exact Or.inl le_rfl
  · refine ⟨?_, List.pairwise_singleton _ _⟩
    intro c hc
    rw [List.mem_singleton.mp hc]
    exact hdrsize.trans hsize

/-- A block apart from all blocks of a tiling may be appended. -/
lemma Tiled.concat {bs : List Block} (h : Tiled hdr bs) (hsize : hdr ≤ b.size)
    (hap : ∀ c ∈ bs, c.Apart b) : Tiled hdr (bs ++ [b]) := by
  refine ⟨?_, List.pairwise_append.mpr ⟨h.apart, List.pairwise_singleton _ _, ?_⟩⟩
  · intro c hc
    rcases List.mem_append.mp hc with hc | hc
    · exact h.header_le c hc
    · rw [List.mem_singleton.mp hc]
      exact hsize
  · intro c hc d hd
    rw [List.mem_singleton.mp hd]
    exact hap c hc

/-- Taking a block keeps a tiling. -/
theorem Tiled.firstFit {bs bs' : List Block} (h : Tiled hdr bs) (hdrsize : hdr ≤ size)
    (hfit : firstFit hdr size bs = some (b, bs')) : Tiled hdr bs' := by
  obtain ⟨pre, post, rfl, -, hb, rfl⟩ := firstFit_eq_some hfit
  exact h.replace (tiled_carve hdrsize hb.2) (carve_sub hb.2)

/-- Taking a block keeps the extents inside `P`. -/
lemma Covered.firstFit {bs bs' : List Block} (h : Covered P bs)
    (hfit : firstFit hdr size bs = some (b, bs')) : Covered P bs' := by
  obtain ⟨pre, post, rfl, -, hb, rfl⟩ := firstFit_eq_some hfit
  intro c hc x hx
  rcases List.mem_append.mp hc with hc | hc
  · exact h c (List.mem_append_left _ hc) x hx
  · rcases List.mem_append.mp hc with hc | hc
    · have hcb := carve_sub hb.2 c hc
      have hx' : b.addr ≤ x ∧ x < b.addr + b.size := ⟨by have := hx.1; omega, by have := hx.2; omega⟩
      exact h b (List.mem_append_right _ List.mem_cons_self) x hx'
    · exact h c (List.mem_append_right _ (List.mem_cons_of_mem _ hc)) x hx

/-- The pieces of a carved block contain the taken block, of at least the requested size. -/
lemma exists_mem_carve (hsize : size ≤ b.size) :
    ∃ c ∈ carve hdr size b, c.addr = b.addr ∧ c.free = false ∧ size ≤ c.size := by
  unfold carve
  split_ifs with hlt
  · exact ⟨_, List.mem_cons_self, rfl, rfl, le_rfl⟩
  · exact ⟨_, List.mem_cons_self, rfl, rfl, hsize⟩

/-- A block in use is still there after a block is taken. -/
lemma mem_of_firstFit {bs bs' : List Block} (hfit : firstFit hdr size bs = some (b, bs'))
    (hc : c ∈ bs) (hused : c.free = false) : c ∈ bs' := by
  obtain ⟨pre, post, rfl, -, hb, rfl⟩ := firstFit_eq_some hfit
  rcases List.mem_append.mp hc with hc | hc
  · exact List.mem_append_left _ hc
  · rcases List.mem_cons.mp hc with rfl | hc
    · -- the block that is taken was free
      rw [hb.1] at hused
      cases hused
    · exact List.mem_append_right _ (List.mem_append_right _ hc)

/-! ### Merging neighbours -/

/-- Merging one neighbour keeps a tiling. -/
lemma Tiled.merge_one (hpos : 0 < hdr) (h : Tiled hdr (pre ++ b :: c :: post))
    (hadj : c.addr = b.addr + b.size) (f : Bool) :
    Tiled hdr (pre ++ ⟨b.addr, b.size + c.size, f⟩ :: post) := by
  obtain ⟨hpre, hbc, hcross⟩ := List.pairwise_append.mp h.apart
  obtain ⟨hb, hc⟩ := List.pairwise_cons.mp hbc
  obtain ⟨hc, hpost⟩ := List.pairwise_cons.mp hc
  -- an extent that meets neither of two neighbours does not meet their union
  have hunion : ∀ d : Block, hdr ≤ d.size → b.Apart d → c.Apart d →
      Block.Apart ⟨b.addr, b.size + c.size, f⟩ d := by
    intro d hd hbd hcd
    simp only [Block.Apart] at *
    omega
  refine ⟨?_, List.pairwise_append.mpr ⟨hpre, List.pairwise_cons.mpr ⟨?_, hpost⟩, ?_⟩⟩
  · intro d hd
    rcases List.mem_append.mp hd with hd | hd
    · exact h.header_le d (List.mem_append_left _ hd)
    · rcases List.mem_cons.mp hd with rfl | hd
      · have := h.header_le b (List.mem_append_right _ List.mem_cons_self)
        dsimp only
        omega
      · exact h.header_le d (by simp [hd])
  · intro d hd
    exact hunion d (h.header_le d (by simp [hd])) (hb d (by simp [hd])) (hc d hd)
  · intro d hd e he
    rcases List.mem_cons.mp he with rfl | he
    · have hdb := hcross d hd b List.mem_cons_self
      have hdc := hcross d hd c (by simp)
      exact (hunion d (h.header_le d (by simp [hd])) hdb.symm hdc.symm).symm
    · exact hcross d hd e (by simp [he])

/-- Contiguity only depends on the end of the first block. -/
lemma Contiguous.congr_end {bs : List Block} {b' : Block} (h : Contiguous b bs)
    (hend : b'.addr + b'.size = b.addr + b.size) : Contiguous b' bs := by
  cases bs with
  | nil => trivial
  | cons c cs =>
    intro hc
    obtain ⟨h₁, h₂⟩ := h hc
    exact ⟨by omega, h₂⟩

/-- Merging a contiguous run keeps a tiling. -/
theorem Tiled.merge (hpos : 0 < hdr) {bs : List Block} (h : Tiled hdr (pre ++ b :: bs))
    (hcont : Contiguous b bs) : Tiled hdr (pre ++ merge b bs) := by
  induction bs generalizing b with
  | nil => exact h
  | cons c cs ih =>
    rw [FreeList.merge]
    split_ifs with hc
    · obtain ⟨hadj, hrest⟩ := hcont hc
      refine ih (h.merge_one hpos hadj _) (hrest.congr_end ?_)
      dsimp only
      omega
    · exact h

/-- Merging a contiguous run does not enlarge the set of covered addresses. -/
lemma Covered.merge {bs : List Block} (h : Covered P (pre ++ b :: bs)) (hcont : Contiguous b bs) :
    Covered P (pre ++ merge b bs) := by
  induction bs generalizing b with
  | nil => exact h
  | cons c cs ih =>
    rw [FreeList.merge]
    split_ifs with hc
    · obtain ⟨hadj, hrest⟩ := hcont hc
      refine ih ?_ (hrest.congr_end (by dsimp only; omega))
      intro d hd x hx
      rcases List.mem_append.mp hd with hd | hd
      · exact h d (List.mem_append_left _ hd) x hx
      · rcases List.mem_cons.mp hd with rfl | hd
        · -- an address of the merged extent belongs to one of the two neighbours
          rcases lt_or_ge x (b.addr + b.size) with hlt | hge
          · exact h b (by simp) x ⟨hx.1, hlt⟩
          · refine h c (by simp) x ⟨by omega, ?_⟩
            have := hx.2
            dsimp only at this
            omega
        · exact h d (by simp [hd]) x hx
    · exact h

/-- A block in use survives a merge of the free blocks before it. -/
lemma mem_merge_of_used {bs : List Block} (hc : c ∈ bs) (hused : c.free = false) :
    c ∈ merge b bs := by
  induction bs generalizing b with
  | nil => cases hc
  | cons d ds ih =>
    rw [merge]
    split_ifs with hd
    · rcases List.mem_cons.mp hc with rfl | hc
      · rw [hused] at hd
        cases hd
      · exact ih hc
    · exact List.mem_cons_of_mem _ hc

/-- A block in use is still there when another block is merged with the ones behind it. -/
lemma mem_append_merge_of_used {bs : List Block} {d : Block} (hc : c ∈ pre ++ d :: bs) (hne : c ≠ d)
    (hused : c.free = false) : c ∈ pre ++ merge b bs := by
  rcases List.mem_append.mp hc with hc | hc
  · exact List.mem_append_left _ hc
  · rcases List.mem_cons.mp hc with rfl | hc
    · exact absurd rfl hne
    · exact List.mem_append_right _ (mem_merge_of_used hc hused)

/-- A merge only enlarges the block it merges into. -/
lemma exists_mem_merge (b : Block) (bs : List Block) :
    ∃ c ∈ merge b bs, c.addr = b.addr ∧ b.size ≤ c.size := by
  induction bs generalizing b with
  | nil => exact ⟨b, List.mem_singleton_self b, rfl, le_rfl⟩
  | cons d ds ih =>
    rw [merge]
    split_ifs with hd
    · obtain ⟨c, hc, haddr, hsize⟩ := ih ⟨b.addr, b.size + d.size, b.free⟩
      exact ⟨c, hc, haddr, by dsimp only at hsize; omega⟩
    · exact ⟨b, List.mem_cons_self, rfl, le_rfl⟩

/-- The addresses after a merge are among those before it. -/
lemma map_addr_merge_sublist (b : Block) (bs : List Block) :
    ((merge b bs).map Block.addr).Sublist (b.addr :: bs.map Block.addr) := by
  induction bs generalizing b with
  | nil => exact List.Sublist.refl _
  | cons c cs ih =>
    rw [merge]
    split_ifs with hc
    · exact (ih ⟨b.addr, b.size + c.size, b.free⟩).trans ((List.sublist_cons_self _ _).cons_cons _)
    · exact List.Sublist.refl _

/-! ### Releasing a block -/

/-- Releasing the block `b` merges it with the free blocks behind it. -/
theorem release_eq {bs : List Block} (hpre : ∀ c ∈ pre, c.addr ≠ b.addr) :
    release b.addr (pre ++ b :: bs) = pre ++ merge ⟨b.addr, b.size, true⟩ bs := by
  induction pre with
  | nil => simp [release]
  | cons c pre ih =>
    have hc : c.addr ≠ b.addr := hpre c List.mem_cons_self
    rw [List.cons_append, release, if_neg hc, ih fun d hd => hpre d (List.mem_cons_of_mem _ hd),
      List.cons_append]

/-- Releasing a block in front of a contiguous run keeps a tiling. -/
theorem Tiled.release (hpos : 0 < hdr) {bs : List Block} (h : Tiled hdr (pre ++ b :: bs))
    (hcont : Contiguous b bs) : Tiled hdr (pre ++ FreeList.merge ⟨b.addr, b.size, true⟩ bs) := by
  have hfreed : Tiled hdr [(⟨b.addr, b.size, true⟩ : Block)] := by
    refine ⟨?_, List.pairwise_singleton _ _⟩
    intro c hc
    rw [List.mem_singleton.mp hc]
    exact h.header_le b (by simp)
  refine Tiled.merge hpos (h.replace hfreed ?_) (hcont.congr_end rfl)
  intro c hc
  rw [List.mem_singleton.mp hc]
  exact ⟨le_rfl, le_rfl⟩

/-- Releasing a block in front of a contiguous run covers no new address. -/
lemma Covered.release {bs : List Block} (h : Covered P (pre ++ b :: bs)) (hcont : Contiguous b bs) :
    Covered P (pre ++ FreeList.merge ⟨b.addr, b.size, true⟩ bs) := by
  refine Covered.merge ?_ (hcont.congr_end rfl)
  intro c hc x hx
  rcases List.mem_append.mp hc with hc | hc
  · exact h c (List.mem_append_left _ hc) x hx
  · rcases List.mem_cons.mp hc with rfl | hc
    · exact h b (by simp) x hx
    · exact h c (by simp [hc]) x hx

/-! ### Sizes -/

/-- The sum of the sizes of the blocks. -/
def totalSize (bs : List Block) : ℕ := (bs.map Block.size).sum

/-- The sum of the sizes of the free blocks. -/
def freeSize (bs : List Block) : ℕ := totalSize (bs.filter Block.free)

/-- The blocks that are in use. -/
def usedBlocks (bs : List Block) : List Block := bs.filter fun b => !b.free

@[simp] lemma totalSize_nil : totalSize [] = 0 := rfl

@[simp] lemma totalSize_cons (b : Block) (bs : List Block) :
    totalSize (b :: bs) = b.size + totalSize bs := List.sum_cons

@[simp] lemma totalSize_append (bs bs' : List Block) :
    totalSize (bs ++ bs') = totalSize bs + totalSize bs' := by
  rw [totalSize, List.map_append, List.sum_append]
  rfl

@[simp] lemma freeSize_append (bs bs' : List Block) :
    freeSize (bs ++ bs') = freeSize bs + freeSize bs' := by
  rw [freeSize, List.filter_append, totalSize_append]
  rfl

@[simp] lemma usedBlocks_append (bs bs' : List Block) :
    usedBlocks (bs ++ bs') = usedBlocks bs ++ usedBlocks bs' := List.filter_append ..

lemma freeSize_cons (b : Block) (bs : List Block) :
    freeSize (b :: bs) = (if b.free then b.size else 0) + freeSize bs := by
  cases hb : b.free <;> simp [freeSize, hb]

lemma usedBlocks_cons (b : Block) (bs : List Block) :
    usedBlocks (b :: bs) = if b.free then usedBlocks bs else b :: usedBlocks bs := by
  cases hb : b.free <;> simp [usedBlocks, hb]

/-- No block is larger than the sum of the sizes. -/
lemma size_le_totalSize {bs : List Block} (hb : b ∈ bs) : b.size ≤ totalSize bs :=
  List.le_sum_of_mem (List.mem_map_of_mem hb)

/-- Cutting a block does not lose bytes. -/
lemma totalSize_carve (hsize : size ≤ b.size) : totalSize (carve hdr size b) = b.size := by
  unfold carve
  split_ifs with hlt
  · simp only [totalSize_cons, totalSize_nil]
    omega
  · simp

/-- Merging does not lose bytes. -/
lemma totalSize_merge (b : Block) (bs : List Block) :
    totalSize (merge b bs) = b.size + totalSize bs := by
  induction bs generalizing b with
  | nil => simp [merge]
  | cons c cs ih =>
    rw [merge]
    split_ifs with hc
    · rw [ih, totalSize_cons]
      dsimp only
      omega
    · rw [totalSize_cons]

/-- Merging into a free block does not lose free bytes. -/
lemma freeSize_merge (hb : b.free = true) (bs : List Block) :
    freeSize (merge b bs) = b.size + freeSize bs := by
  induction bs generalizing b with
  | nil => simp [merge, freeSize, hb]
  | cons c cs ih =>
    rw [merge]
    split_ifs with hc
    · have hmerged : Block.free ⟨b.addr, b.size + c.size, b.free⟩ = true := hb
      rw [ih hmerged, freeSize_cons, if_pos hc]
      dsimp only
      omega
    · rw [freeSize_cons b, if_pos hb]

/-- Merging into a free block keeps the blocks in use. -/
lemma usedBlocks_merge (hb : b.free = true) (bs : List Block) :
    usedBlocks (merge b bs) = usedBlocks bs := by
  induction bs generalizing b with
  | nil => simp [merge, usedBlocks, hb]
  | cons c cs ih =>
    rw [merge]
    split_ifs with hc
    · have hmerged : Block.free ⟨b.addr, b.size + c.size, b.free⟩ = true := hb
      rw [ih hmerged, usedBlocks_cons c, if_pos hc]
    · rw [usedBlocks_cons b, if_pos hb]

/-- A block without a free successor is not merged. -/
lemma merge_of_head {bs : List Block} (hhead : ∀ c ∈ bs.head?, c.free = false) :
    merge b bs = b :: bs := by
  cases bs with
  | nil => rfl
  | cons c cs =>
    have hc : c.free = false := hhead c rfl
    rw [merge, if_neg (by simp [hc])]

/-- The first piece of a carved block; merging it again with the rest is merging the whole block. -/
lemma exists_carve_eq (hsize : size ≤ b.size) (bs : List Block) :
    ∃ k rest, size ≤ k ∧ rest.length ≤ 1 ∧ carve hdr size b = ⟨b.addr, k, false⟩ :: rest ∧
      merge ⟨b.addr, k, true⟩ (rest ++ bs) = merge ⟨b.addr, b.size, true⟩ bs := by
  unfold carve
  split_ifs with hlt
  · refine ⟨_, _, le_rfl, le_rfl, rfl, ?_⟩
    rw [List.singleton_append, merge, if_pos rfl]
    dsimp only
    rw [Nat.add_sub_cancel' hsize]
  · exact ⟨_, _, hsize, Nat.zero_le _, rfl, rfl⟩

/-- A tiling of a range is not larger than the range. -/
theorem Tiled.totalSize_le {bs : List Block} {lo hi : ℕ} (hpos : 0 < hdr) (h : Tiled hdr bs)
    (hlo : ∀ b ∈ bs, lo ≤ b.addr) (hhi : ∀ b ∈ bs, b.addr + b.size ≤ hi) :
    totalSize bs ≤ hi - lo := by
  have hnodup : bs.Nodup := (h.nodup_addr hpos).of_map _
  have hdisj : (bs.toFinset : Set Block).PairwiseDisjoint
      fun b => Finset.Ico b.addr (b.addr + b.size) := by
    intro b hb c hc hne
    rw [Function.onFun, Finset.disjoint_left]
    intro x hxb hxc
    rw [Finset.mem_Ico] at hxb hxc
    rcases h.apart_of_ne (by simpa using hb) (by simpa using hc) hne with hap | hap <;> omega
  have hsub : bs.toFinset.biUnion (fun b => Finset.Ico b.addr (b.addr + b.size)) ⊆
      Finset.Ico lo hi := by
    intro x hx
    obtain ⟨b, hb, hxb⟩ := Finset.mem_biUnion.mp hx
    rw [List.mem_toFinset] at hb
    rw [Finset.mem_Ico] at hxb ⊢
    exact ⟨(hlo b hb).trans hxb.1, hxb.2.trans_le (hhi b hb)⟩
  calc totalSize bs = ∑ b ∈ bs.toFinset, b.size := (List.sum_toFinset _ hnodup).symm
    _ = (bs.toFinset.biUnion fun b => Finset.Ico b.addr (b.addr + b.size)).card := by
      rw [Finset.card_biUnion hdisj]
      simp
    _ ≤ (Finset.Ico lo hi).card := Finset.card_le_card hsub
    _ = hi - lo := Nat.card_Ico lo hi

end FreeList

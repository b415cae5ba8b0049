import Soaplin.Memory.HeapAlloc

/-!
# `pmm_free` after `pmm_alloc`

On a well-formed heap `pmm_free` of a block in use terminates and is `FreeList.release` on the heap
list (`WellFormed.free`); whatever it merges, no size is lost.  Freeing right after an allocation
gives the bytes back: the remainder that the allocation has cut off is absorbed again
(`free_undoes_alloc`).
-/

namespace Soaplin

open ByteMemory Word64 FreeList

variable {s s' : Pmm} {bs bs' pre post : List Block} {b c : Block} {n p fuel fuel' page : ℕ}
  {rest : List ℕ}

namespace WellFormed

/-- The blocks of a heap together are smaller than the address space. -/
lemma totalSize_lt (h : WellFormed s bs) : totalSize bs < modulus := by
  have hle : totalSize bs ≤ modulus - 1 :=
    h.tiled.totalSize_le (by decide) (fun b hb => (h.header_lt hb).1) h.end_le
  exact lt_of_le_of_lt hle (by decide)

/-- The sizes that the merge loop computes do not wrap. -/
lemma size_lt_of_mem_merge (h : WellFormed s (pre ++ b :: post))
    (hc : c ∈ merge ⟨b.addr, b.size, true⟩ post) : c.size < modulus := by
  have hle := size_le_totalSize hc
  have hlt := h.totalSize_lt
  rw [totalSize_merge] at hle
  rw [totalSize_append, totalSize_cons] at hlt
  dsimp only at hle
  omega

/-- `pmm_free` of the payload of a block merges the free blocks behind it into the block, and writes
only its header. -/
lemma free (h : WellFormed s (pre ++ b :: post)) (hsize : memblkSize < b.size)
    (hfuel : post.length < fuel) :
    ∃ m, pmmFree fuel s (b.addr + memblkSize) = some { s with mem := m } ∧
      HeapList m s.pmmFreeBlocks (pre ++ merge ⟨b.addr, b.size, true⟩ post) ∧
      ∀ x, x < b.addr ∨ b.addr + memblkSize ≤ x → m x = s.mem x := by
  have hend := h.end_le b (by simp)
  exact pmmFree_of_mem h.toHeapState (by omega) (fun c hc => h.size_lt_of_mem_merge hc) hfuel

/-- A block is found at one place of the list only. -/
lemma split_unique {pre' post' : List Block} {b' : Block} (h : WellFormed s (pre ++ b :: post))
    (heq : pre ++ b :: post = pre' ++ b' :: post') (haddr : b.addr = b'.addr) :
    pre = pre' ∧ b = b' ∧ post = post' := by
  have hnodup : (pre ++ b :: post).Nodup := (h.tiled.nodup_addr (by decide)).of_map _
  have hb : b' = b := h.tiled.eq_of_addr_eq (by decide) (by simp [heq]) (by simp) haddr.symm
  subst hb
  have hpre : b' ∉ pre := fun hmem =>
    List.disjoint_of_nodup_append hnodup hmem List.mem_cons_self
  have hpost : b' ∉ post := (List.nodup_cons.mp (List.nodup_append.mp hnodup).2.1).1
  obtain ⟨rfl, -, rfl⟩ := (List.append_cons_inj_of_notMem hpre hpost).mp heq
  exact ⟨rfl, rfl, rfl⟩

end WellFormed

/-- On a well-formed heap, freeing what `pmm_alloc` has just returned undoes the allocation.  The
blocks in use are the same as before; so is the number of free bytes, unless a page was popped,
which becomes a free block of the requested size with its header.  If the block that was taken from
the list had no free successor, the list is the old one. -/
theorem free_undoes_alloc (h : WellFormed s bs) (hpos : 1 ≤ n) (hle : n ≤ pmmBlockSize - memblkSize)
    (hrun : pmmAlloc fuel s n = some (p, s')) (hp : p ≠ 0) (hfuel : bs.length + 1 < fuel') :
    ∃ s'' bs'', pmmFree fuel' s' p = some s'' ∧ HeapList s''.mem s''.pmmFreeBlocks bs'' ∧
      usedBlocks bs'' = usedBlocks bs ∧
      (s'.pmmStack = s.pmmStack → freeSize bs'' = freeSize bs) ∧
      (s'.pmmStack ≠ s.pmmStack → freeSize bs'' = freeSize bs + (n + memblkSize)) ∧
      ∀ pre b post, bs = pre ++ b :: post → p = b.addr + memblkSize →
        (∀ c ∈ post.head?, c.free = false) → bs'' = bs := by
  have hhdr : memblkSize = 24 := rfl
  have hpg : pmmBlockSize = 4096 := rfl
  cases hfit : firstFit memblkSize (n + memblkSize) bs with
  | some r =>
    obtain ⟨b, bs'⟩ := r
    obtain ⟨m, hrun', hwf, -⟩ := h.alloc_fit hpos hle hfit (Nat.lt_succ_self _)
    obtain ⟨rfl, rfl⟩ := Prod.mk.inj (pmmAlloc_unique hrun hrun')
    obtain ⟨pre, post, rfl, -, hb, rfl⟩ := firstFit_eq_some hfit
    -- the rest that was cut off is merged again, and after it what follows
    obtain ⟨k, rest, hk, hone, hcarve, hmerge⟩ := @exists_carve_eq memblkSize _ _ hb.2 post
    rw [hcarve, List.cons_append] at hwf
    have hlen : (rest ++ post).length < fuel' := by
      simp only [List.length_append, List.length_cons] at hfuel ⊢
      omega
    obtain ⟨m', hfree, hlist, -⟩ := hwf.free (by dsimp only; omega) hlen
    dsimp only at hfree hlist
    rw [hmerge] at hlist
    have hfreed : Block.free ⟨b.addr, b.size, true⟩ = true := rfl
    refine ⟨_, _, hfree, hlist, ?_, fun _ => ?_, fun hne => absurd rfl hne, ?_⟩
    · rw [usedBlocks_append, usedBlocks_append, usedBlocks_merge hfreed, usedBlocks_cons, if_pos hb.1]
    · rw [freeSize_append, freeSize_append, freeSize_merge hfreed, freeSize_cons, if_pos hb.1]
    · intro pre' b' post' heq haddr hhead
      obtain ⟨-, rfl, rfl⟩ := h.split_unique heq (by omega)
      rw [merge_of_head hhead, ← hb.1]
  | none =>
    cases hstack : s.pmmStack with
    | nil =>
      have hsmall : n + memblkSize < modulus := by
        simp only [modulus]
        omega
      have hrun' := pmmAlloc_of_empty h.toHeapState (by omega) hsmall hfit hstack
        (Nat.lt_succ_self _)
      obtain ⟨rfl, -⟩ := Prod.mk.inj (pmmAlloc_unique hrun hrun')
      exact absurd rfl hp
    | cons page rest =>
      obtain ⟨t, hrun', hrest, hwf, -⟩ := h.alloc_page hpos hle hfit hstack (Nat.lt_succ_self _)
      obtain ⟨rfl, rfl⟩ := Prod.mk.inj (pmmAlloc_unique hrun hrun')
      obtain ⟨m', hfree, hlist, -⟩ := hwf.free (by dsimp only; omega)
        (show ([] : List Block).length < fuel' by simp; omega)
      dsimp only [merge] at hfree hlist
      refine ⟨_, _, hfree, hlist, ?_, fun heq => ?_, fun _ => ?_, ?_⟩
      · simp [usedBlocks]
      · rw [hrest] at heq
        exact absurd heq.symm (List.cons_ne_self page rest)
      · simp [freeSize]
      · intro pre' b' post' heq haddr
        have hb' : b' ∈ bs := by simp [heq]
        have hsize := h.tiled.header_le b' hb'
        have hpage : page ∈ s.pmmStack := by simp [hstack]
        rcases h.apart_of_page hb' hpage with hap | hap <;> omega

/-- Sixteen bytes that are cut from a free page, freed again: the page is one free block as before. -/
theorem free_undoes_alloc_cut : ∃ s s' s'', WellFormed s [⟨0x6000, 4096, true⟩] ∧
    pmmAlloc 2 s 16 = some (0x6018, s') ∧
    HeapList s'.mem s'.pmmFreeBlocks [⟨0x6000, 40, false⟩, ⟨0x6028, 4056, true⟩] ∧
    pmmFree 3 s' 0x6018 = some s'' ∧
    HeapList s''.mem s''.pmmFreeBlocks [⟨0x6000, 4096, true⟩] := by
  obtain ⟨s, hwf⟩ := exists_freePage
  obtain ⟨m, hrun, hwf', -⟩ := @WellFormed.alloc_fit s [⟨0x6000, 4096, true⟩]
    [⟨0x6000, 40, false⟩, ⟨0x6028, 4056, true⟩] ⟨0x6000, 4096, true⟩ 16 2 hwf (by decide)
    (by decide) (by decide) (by decide)
  obtain ⟨s'', bs'', hfree, hlist, -, -, -, hundone⟩ := free_undoes_alloc hwf (by decide)
    (by decide) hrun (by decide) (Nat.lt_succ_self 2)
  rw [hundone [] ⟨0x6000, 4096, true⟩ [] rfl rfl (by simp)] at hlist
  exact ⟨s, _, s'', hwf, hrun, hwf'.list, hfree, hlist⟩

end Soaplin

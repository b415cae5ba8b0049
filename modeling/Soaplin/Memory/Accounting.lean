import Soaplin.Memory.PageStack

/-!
# The memory counters

`pmm_free_mem` and `pmm_used_mem` along `pmm_init` and every run of `pmm_allocpage`, `pmm_freepage`
and `pmm_alloc`.  Since `pmm_init` fills the page stack with `pmm_freepage`, it takes the size of
every page it pushes from `pmm_used_mem`, which starts at zero.  From then on the counter is short
of the pages that were pushed, modulo `2 ^ 64`.
-/

namespace Soaplin

open ByteMemory Word64 TransitionTrace

variable {s s' : Pmm} {out : List ℕ} {page addr length n N : ℕ} {mmap : List MemmapEntry}

/-! ### The counters after `pmm_init` -/

/-- The counters of an initialised state that has only pushed pages, from zeroed counters. -/
structure Filled (s : Pmm) : Prop where
  initialized : s.pmmInitialized
  length_le : s.pmmStack.length ≤ stackSize
  free : s.pmmFreeMem = pmmBlockSize * s.pmmStack.length
  used : s.pmmUsedMem = wsub 0 (pmmBlockSize * s.pmmStack.length)

/-- A push keeps the counters of such a state, and adds a page unless the stack is full. -/
lemma Filled.freepage (h : Filled s) (page : ℕ) :
    Filled (pmmFreepage s page) ∧
      (pmmFreepage s page).pmmStack.length = min stackSize (s.pmmStack.length + 1) := by
  obtain ⟨hinit, hle, hfree, hused⟩ := h
  rcases hle.lt_or_eq with hlt | heq
  · have hpush : pmmFreepage s page =
        { s with
          pmmFreeMem := wadd s.pmmFreeMem pmmBlockSize
          pmmUsedMem := wsub s.pmmUsedMem pmmBlockSize
          pmmStack := page :: s.pmmStack } := by
      simp [pmmFreepage, hinit, hlt.ne]
    rw [hpush]
    refine ⟨⟨hinit, ?_, ?_, ?_⟩, ?_⟩ <;> simp only [List.length_cons]
    · exact hlt
    · simp only [hfree, wadd, pmmBlockSize, stackSize, modulus] at *
      omega
    · simp only [hused, wsub, pmmBlockSize, stackSize, modulus] at *
      omega
    · omega
  · have hfull : pmmFreepage s page = s := by simp [pmmFreepage, hinit, heq]
    rw [hfull]
    exact ⟨⟨hinit, hle, hfree, hused⟩, by omega⟩

/-- The page loop of `pmm_init` pushes the pages of its range until the stack is full. -/
lemma Filled.freeRange (h : Filled s) (addr length : ℕ) :
    Filled (freeRange s addr length) ∧ (Soaplin.freeRange s addr length).pmmStack.length =
      min stackSize (s.pmmStack.length + length / pmmBlockSize) := by
  fun_induction Soaplin.freeRange s addr length with
  | case1 s addr length hle ih =>
    obtain ⟨hpush, hlen⟩ := h.freepage addr
    obtain ⟨hrest, hlen'⟩ := ih hpush
    refine ⟨hrest, ?_⟩
    rw [hlen', hlen]
    simp only [pmmBlockSize] at *
    omega
  | case2 s addr length hlt =>
    have := h.length_le
    refine ⟨h, ?_⟩
    rw [Nat.div_eq_of_lt (by omega)]
    omega

/-- One entry of the memory map. -/
lemma Filled.initEntry (h : Filled s) (e : MemmapEntry) :
    Filled (initEntry s e) ∧ (Soaplin.initEntry s e).pmmStack.length =
      min stackSize (s.pmmStack.length + (usablePages [e]).length) := by
  have htotal : ∀ t : Pmm, t = (if e.type ≠ memmapReserved then
      { s with pmmTotalMem := countTotal s.pmmTotalMem e.length } else s) →
      Filled t ∧ t.pmmStack = s.pmmStack := by
    rintro t rfl
    split_ifs
    · exact ⟨⟨h.initialized, h.length_le, h.free, h.used⟩, rfl⟩
    · exact ⟨h, rfl⟩
  unfold Soaplin.initEntry
  generalize ht : (if e.type ≠ memmapReserved then
      { s with pmmTotalMem := countTotal s.pmmTotalMem e.length } else s) = t
  obtain ⟨hfilled, hstack⟩ := htotal t ht.symm
  by_cases husable : e.type = memmapUsable
  · have hpages : (usablePages [e]).length = e.length / pmmBlockSize := by
      simp [usablePages, husable, rangePages]
    simp only [husable, if_true]
    rw [hpages, ← hstack]
    exact hfilled.freeRange e.base e.length
  · have hpages : (usablePages [e]).length = 0 := by simp [usablePages, husable]
    have hle := h.length_le
    simp only [husable, if_false]
    refine ⟨hfilled, ?_⟩
    rw [hpages, hstack]
    omega

/-- The entry loop of `pmm_init`. -/
lemma Filled.foldl_initEntry (h : Filled s) (mmap : List MemmapEntry) :
    Filled (mmap.foldl Soaplin.initEntry s) ∧ (mmap.foldl Soaplin.initEntry s).pmmStack.length =
      min stackSize (s.pmmStack.length + (usablePages mmap).length) := by
  induction mmap generalizing s with
  | nil =>
    have hle := h.length_le
    refine ⟨h, ?_⟩
    simp only [List.foldl_nil, usablePages, List.filter_nil, List.flatMap_nil, List.length_nil]
    omega
  | cons e mmap ih =>
    obtain ⟨hentry, hlen⟩ := h.initEntry e
    obtain ⟨hrest, hlen'⟩ := ih hentry
    have hcons : (usablePages (e :: mmap)).length =
        (usablePages [e]).length + (usablePages mmap).length := by
      simp only [usablePages, List.filter_cons, List.filter_nil]
      split_ifs <;> simp
    refine ⟨hrest, ?_⟩
    rw [List.foldl_cons, hlen', hlen, hcons]
    omega

/-- The counters after `pmm_init`, from zeroed counters. -/
lemma filled_pmmInit (m : Memory) (mmap : List MemmapEntry) :
    Filled (pmmInit (.boot m) mmap) ∧ (pmmInit (.boot m) mmap).pmmStack.length =
      min stackSize (usablePages mmap).length := by
  have hboot : Filled { Pmm.boot m with pmmStack := [], pmmInitialized := true } :=
    ⟨rfl, Nat.zero_le _, rfl, by change 0 = wsub 0 (pmmBlockSize * 0); decide⟩
  simpa [pmmInit] using hboot.foldl_initEntry mmap

/-! ### Runs -/

/-- The calls of a run. -/
inductive MemOp
  | allocpage
  | freepage (page : ℕ)
  | alloc (n : ℕ)

/-- One call in a run; the second component of the state lists the pages that were popped and not
returned, and only such a page may be freed. -/
inductive MemStep : Pmm × List ℕ → MemOp → Pmm × List ℕ → Prop
  | allocpage {s : Pmm} {out : List ℕ} :
      MemStep (s, out) .allocpage ((pmmAllocpage s).2, poppedPages s (pmmAllocpage s).2 ++ out)
  | freepage {s : Pmm} {out : List ℕ} {page : ℕ} (hout : page ∈ out) :
      MemStep (s, out) (.freepage page) (pmmFreepage s page, out.erase page)
  | alloc {s s' : Pmm} {out : List ℕ} {n fuel r : ℕ} (halloc : pmmAlloc fuel s n = some (r, s')) :
      MemStep (s, out) (.alloc n) (s', poppedPages s s' ++ out)

/-- The accounting of a state is exact, and the next call takes neither counter below zero. -/
structure AccountsExact (st : Pmm × List ℕ) : Prop where
  free : st.1.pmmFreeMem = pmmBlockSize * st.1.pmmStack.length
  used : st.1.pmmUsedMem = pmmBlockSize * st.2.length
  free_noWrap : st.1.pmmStack ≠ [] → pmmBlockSize ≤ st.1.pmmFreeMem
  used_noWrap : st.2 ≠ [] → pmmBlockSize ≤ st.1.pmmUsedMem

/-- The counters in a run that starts with `N` pages on the stack: `pmm_used_mem` is short of the
size of these pages. -/
structure Accounts (N : ℕ) (st : Pmm × List ℕ) : Prop where
  initialized : st.1.pmmInitialized
  length_add : st.1.pmmStack.length + st.2.length = N
  length_le : N ≤ stackSize
  free : st.1.pmmFreeMem = pmmBlockSize * st.1.pmmStack.length
  used : st.1.pmmUsedMem = wsub (pmmBlockSize * st.2.length) (pmmBlockSize * N)

namespace Accounts

/-- The counters depend on the page stack and the counters of a state only. -/
lemma congr {t : Pmm} (h : Accounts N (s, out)) (hinit : t.pmmInitialized = s.pmmInitialized)
    (hstack : t.pmmStack = s.pmmStack) (hfree : t.pmmFreeMem = s.pmmFreeMem)
    (hused : t.pmmUsedMem = s.pmmUsedMem) : Accounts N (t, out) := by
  refine ⟨hinit.trans h.initialized, ?_, h.length_le, ?_, hused.trans h.used⟩
  · rw [← h.length_add]
    exact congrArg (List.length · + out.length) hstack
  · change t.pmmFreeMem = pmmBlockSize * t.pmmStack.length
    rw [hfree, hstack]
    exact h.free

/-- `pmm_allocpage` moves the size of a page from one counter to the other, or finds no page. -/
lemma allocpage (h : Accounts N (s, out)) :
    Accounts N ((pmmAllocpage s).2, poppedPages s (pmmAllocpage s).2 ++ out) := by
  obtain ⟨hinit, hadd, hle, hfree, hused⟩ := h
  cases hstack : s.pmmStack with
  | nil =>
    rw [pmmAllocpage_nil hstack]
    simpa [poppedPages, hstack] using (⟨hinit, hadd, hle, hfree, hused⟩ : Accounts N (s, out))
  | cons page rest =>
    have hpop : (pmmAllocpage s).2 =
        { s with
          pmmFreeMem := wsub s.pmmFreeMem pmmBlockSize
          pmmUsedMem := wadd s.pmmUsedMem pmmBlockSize
          pmmStack := rest } := by
      simp only at hinit
      simp [pmmAllocpage, hinit, hstack]
    have hpopped : poppedPages s { s with
          pmmFreeMem := wsub s.pmmFreeMem pmmBlockSize
          pmmUsedMem := wadd s.pmmUsedMem pmmBlockSize
          pmmStack := rest } = [page] := by
      simp [poppedPages, hstack]
    simp only [hstack, List.length_cons] at hadd hfree
    rw [hpop, hpopped]
    refine ⟨hinit, ?_, hle, ?_, ?_⟩ <;>
      simp only [List.length_append, List.length_cons, List.length_nil]
    · omega
    · simp only [hfree, wsub, pmmBlockSize, stackSize, modulus] at *
      omega
    · simp only [wsub, wadd, pmmBlockSize, stackSize, modulus] at *
      omega

/-- `pmm_freepage` moves the size of a page back. -/
lemma freepage (h : Accounts N (s, out)) (hout : page ∈ out) :
    Accounts N (pmmFreepage s page, out.erase page) := by
  obtain ⟨hinit, hadd, hle, hfree, hused⟩ := h
  have hpos := List.length_pos_of_mem hout
  have herase := List.length_erase_of_mem hout
  have hlt : s.pmmStack.length < stackSize := by
    simp only at hadd
    omega
  have hpush : pmmFreepage s page =
      { s with
        pmmFreeMem := wadd s.pmmFreeMem pmmBlockSize
        pmmUsedMem := wsub s.pmmUsedMem pmmBlockSize
        pmmStack := page :: s.pmmStack } := by
    simp only at hinit
    simp [pmmFreepage, hinit, hlt.ne]
  rw [hpush]
  refine ⟨hinit, ?_, hle, ?_, ?_⟩ <;> simp only [List.length_cons, herase] at *
  · omega
  · simp only [hfree, wadd, pmmBlockSize, stackSize, modulus] at *
    omega
  · simp only [hused, wsub, pmmBlockSize, stackSize, modulus] at *
    omega

/-- `pmm_alloc` leaves the counters alone or pops a page. -/
lemma alloc {fuel r : ℕ} (h : Accounts N (s, out)) (halloc : pmmAlloc fuel s n = some (r, s')) :
    Accounts N (s', poppedPages s s' ++ out) := by
  have hkeep : ∀ t : Pmm, t.pmmInitialized = s.pmmInitialized → t.pmmStack = s.pmmStack →
      t.pmmFreeMem = s.pmmFreeMem → t.pmmUsedMem = s.pmmUsedMem →
      Accounts N (t, poppedPages s t ++ out) := by
    intro t hinit hstack hfree hused
    have hnone : poppedPages s t = [] := by simp [poppedPages, hstack]
    rw [hnone]
    exact h.congr hinit hstack hfree hused
  have hpop : ∀ t : Pmm, t.pmmInitialized = (pmmAllocpage s).2.pmmInitialized →
      t.pmmStack = (pmmAllocpage s).2.pmmStack → t.pmmFreeMem = (pmmAllocpage s).2.pmmFreeMem →
      t.pmmUsedMem = (pmmAllocpage s).2.pmmUsedMem → Accounts N (t, poppedPages s t ++ out) := by
    intro t hinit hstack hfree hused
    have hsame : poppedPages s t = poppedPages s (pmmAllocpage s).2 := by
      rw [poppedPages, poppedPages, hstack]
    rw [hsame]
    exact h.allocpage.congr hinit hstack hfree hused
  unfold pmmAlloc at halloc
  split_ifs at halloc
  · cases halloc
    exact hkeep s rfl rfl rfl rfl
  · cases halloc
    exact hkeep s rfl rfl rfl rfl
  · dsimp only at halloc
    cases hfind : findBlock s.mem (wadd n memblkSize) fuel s.pmmFreeBlocks 0 with
    | none =>
      rw [hfind] at halloc
      cases halloc
    | some q =>
      obtain ⟨block, prev⟩ := q
      rw [hfind] at halloc
      dsimp only at halloc
      split_ifs at halloc
      · cases halloc
        exact hkeep _ rfl rfl rfl rfl
      · cases halloc
        exact hpop _ rfl rfl rfl rfl
      · cases halloc
        exact hpop _ rfl rfl rfl rfl
      · cases halloc
        exact hpop _ rfl rfl rfl rfl

/-- Every call of a run keeps the accounts. -/
lemma step {st st' : Pmm × List ℕ} {op : MemOp} (h : Accounts N st) (hstep : MemStep st op st') :
    Accounts N st' := by
  cases hstep with
  | allocpage => exact h.allocpage
  | freepage hout => exact h.freepage hout
  | alloc halloc => exact h.alloc halloc

/-- With no page at the start the accounting is exact. -/
lemma exact_of_zero {st : Pmm × List ℕ} (h : Accounts 0 st) : AccountsExact st := by
  obtain ⟨-, hadd, -, hfree, hused⟩ := h
  have hstack : st.1.pmmStack = [] := List.length_eq_zero_iff.mp (by omega)
  have hout : st.2 = [] := List.length_eq_zero_iff.mp (by omega)
  refine ⟨hfree, ?_, fun hne => absurd hstack hne, fun hne => absurd hout hne⟩
  rw [hused, hout]
  decide

end Accounts

/-- The accounts right after `pmm_init`, with no page popped. -/
lemma accounts_pmmInit (m : Memory) (mmap : List MemmapEntry) :
    Accounts (min stackSize (usablePages mmap).length) (pmmInit (.boot m) mmap, []) := by
  obtain ⟨hfilled, hlen⟩ := filled_pmmInit m mmap
  refine ⟨hfilled.initialized, hlen, Nat.min_le_left _ _, hfilled.free, ?_⟩
  rw [← hlen]
  exact hfilled.used

/-- A memory map has no whole usable page exactly if all its usable entries are shorter than one. -/
lemma usablePages_eq_nil_iff :
    usablePages mmap = [] ↔ ∀ e ∈ mmap, e.type = memmapUsable → e.length < pmmBlockSize := by
  simp only [usablePages, List.flatMap_eq_nil_iff, List.mem_filter, decide_eq_true_eq, rangePages,
    List.map_eq_nil_iff, List.range_eq_nil, and_imp, pmmBlockSize]
  refine forall_congr' fun e => forall_congr' fun _ => forall_congr' fun _ => ?_
  omega

/-- From zeroed counters, the accounting is exact in every state of every run after `pmm_init` if
and only if the memory map has no whole usable page. -/
theorem accounting_exact_iff (m : Memory) (mmap : List MemmapEntry) :
    (∀ ops st, Trace MemStep (pmmInit (.boot m) mmap, []) ops st → AccountsExact st) ↔
      ∀ e ∈ mmap, e.type = memmapUsable → e.length < pmmBlockSize := by
  have haccounts := accounts_pmmInit m mmap
  rw [← usablePages_eq_nil_iff]
  constructor
  · intro hexact
    -- already the state after `pmm_init` is wrong when a page was pushed
    have hused := (hexact [] _ .nil).used
    rw [haccounts.used, ← List.length_eq_zero_iff] at *
    simp only [List.length_nil, wsub, pmmBlockSize, stackSize, modulus] at hused
    omega
  · intro hnil ops st htrace
    rw [hnil] at haccounts
    exact (htrace.invariant _ haccounts fun _ _ _ h hstep => h.step hstep).exact_of_zero

/-- One usable page: after `pmm_init` the counter of used memory has wrapped. -/
theorem accounting_wraps :
    (pmmInit (.boot fun _ => 0) [⟨0x4000, 0x1000, memmapUsable⟩]).pmmUsedMem =
        0xfffffffffffff000 ∧
      ¬ AccountsExact (pmmInit (.boot fun _ => 0) [⟨0x4000, 0x1000, memmapUsable⟩], []) := by
  have hused : (pmmInit (.boot fun _ => 0) [⟨0x4000, 0x1000, memmapUsable⟩]).pmmUsedMem =
      0xfffffffffffff000 :=
    (accounts_pmmInit (fun _ => 0) [⟨0x4000, 0x1000, memmapUsable⟩]).used.trans (by decide)
  refine ⟨hused, fun hexact => ?_⟩
  have hzero := hexact.used
  simp only [hused] at hzero
  cases hzero

end Soaplin

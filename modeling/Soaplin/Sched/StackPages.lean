import Soaplin.Memory.KernelHeap
import Soaplin.Sched.NestedTick

/-!
# Stacks and the heap

A thread starts with the last byte of its stack as stack pointer, and the last 24 bytes of a stack lie
on the page behind its own.  When this page has been popped for the heap too, a tick that is taken
before the thread has pushed anything writes the last two words of its frame, the stack pointer and
the stack segment of the thread that is switched to, over the size and the link of the block there.
The heap list then goes on at the stack segment (`tick_redirects_heap`).
-/

namespace Soaplin

open ByteMemory Word64 FreeList TransitionTrace

/-! ### Searching past blocks -/

section Search

variable {m m' : Memory} {p size : ℕ} {b : Block} {pre post : List Block}

/-- A search that passes the blocks before `b`, and `b` as well since it is in use, goes on where `b`
links to, also when this is not where it has linked to before. -/
lemma findBlock_past (fuel prev : ℕ) (h : HeapList m p (pre ++ b :: post))
    (hsame : ∀ c ∈ pre, readMemblk m' c.addr = readMemblk m c.addr)
    (hpre : ∀ c ∈ pre, ¬ c.Fits size) (hfree : blockIsFree m' b.addr = false) :
    findBlock m' size (pre.length + (fuel + 1)) p prev =
      findBlock m' size fuel (blockNext m' b.addr) b.addr := by
  induction pre generalizing p prev with
  | nil =>
    obtain ⟨rfl, hp, -⟩ := h
    rw [List.length_nil, Nat.zero_add, findBlock, if_neg hp, if_neg (by simp [hfree])]
  | cons c pre ih =>
    obtain ⟨rfl, hp, hsize, hused, hrest⟩ := h
    have hc := hsame c List.mem_cons_self
    have hfits : ¬ (blockIsFree m' c.addr = true ∧ size ≤ blockSize m' c.addr) := by
      rw [blockIsFree_eq, blockSize_eq, hc, ← blockIsFree_eq, ← blockSize_eq, hsize, hused]
      exact hpre c List.mem_cons_self
    have hnext : blockNext m' c.addr = blockNext m c.addr := by
      rw [blockNext_eq, hc, ← blockNext_eq]
    have hlen : (c :: pre).length + (fuel + 1) = pre.length + (fuel + 1) + 1 := by
      rw [List.length_cons]
      omega
    rw [hlen, findBlock, if_neg hp, if_neg hfits, hnext]
    exact ih _ hrest (fun d hd => hsame d (List.mem_cons_of_mem _ hd))
      fun d hd => hpre d (List.mem_cons_of_mem _ hd)

end Search

/-! ### The tick -/

variable {s : Pmm} {k : KernelRun} {P : HandlerCode} {h h' : Machine} {stack : ℕ} {a b : ℕ × ℕ}

/-- A word in memory as a number. -/
lemma toNat_loadWord (m : Memory) (a : ℕ) : (loadWord m a).toNat = load64 m a :=
  UInt64.toNat_ofNat_of_lt' (load64_lt m a)

/-- What a tick leaves in memory when `base` is the address of its frame: the context of the thread
that is switched to, and everything outside the frame and the part of the stack below it that the
handler uses. -/
lemma MachineStep.tick_frame {base : ℕ} (hstep : MachineStep P h .tick h')
    (hbase : FrameAt h.cpu.rsp base) (hend : 8 ≤ base) :
    HoldsFrame h'.mem base (h'.run.sched.threads h'.run.executing).context ∧
      ∀ x, x < base - P.depth ∨ base + stackframeSize ≤ x → h'.mem x = h.mem x := by
  cases hstep with
  | @tick fuel inner base' n s f m scratch flags hif hservice hbase' hdepth hstart hcall hm hflags =>
    obtain rfl : base' = base := by
      rw [FrameAt] at hbase hbase'
      omega
    obtain ⟨u, -, heq⟩ := Option.map_eq_some_iff.mp hcall
    obtain ⟨rfl, rfl⟩ := Prod.mk.inj heq
    obtain ⟨hholds, -, hrest⟩ := MachineInv.tick_memory (P := P)
      (f := (u.threads u.schedCurrentThread).context) hm hend
    exact ⟨hholds, hrest⟩

/-- Where the frame is when the stack pointer is the last byte of the stack on the page `q`. -/
lemma frameAt_top {rsp : UInt64} {q : ℕ} (hq : q % pmmBlockSize = 0)
    (hrsp : rsp.toNat = q + memblkSize + 4095) : FrameAt rsp (q + 3936) := by
  simp only [pmmBlockSize] at hq
  simp only [FrameAt, hrsp, stackframeSize, memblkSize]
  omega

/-- What a tick does to the heap in the state `k`, when the block of the allocation `b` comes behind
the stack: `f` is the context of the thread that is switched to. -/
structure HeapRedirected (k : KernelRun) (b : ℕ × ℕ) (f : Stackframe) (m : Memory) : Prop where
  /-- The size of the block is the stack pointer of that thread. -/
  size : blockSize m (heapPage b) = f.rsp.toNat
  /-- Its link is the stack segment. -/
  next : blockNext m (heapPage b) = f.ss.toNat
  /-- The next request passes the blocks up to that one and goes on at the stack segment. -/
  search : ∃ pre post, k.allocs = pre ++ b :: post ∧ ∀ n fuel,
    findBlock m n (pre.length + (fuel + 1)) k.pmm.pmmFreeBlocks 0 =
      findBlock m n fuel f.ss.toNat (heapPage b)

/-- When the first two words of the header of `b` are overwritten, the heap list goes on at the
second one. -/
lemma KernelInv.redirected {init : List ℕ} {m : Memory} {f : Stackframe} (hok : PagesOk init)
    (hinv : KernelInv init k) (hb : b ∈ k.allocs) (hsize : blockSize m (heapPage b) = f.rsp.toNat)
    (hnext : blockNext m (heapPage b) = f.ss.toNat)
    (hsame : ∀ x, (∃ c ∈ k.allocs, heapPage c ≤ x ∧ x < heapPage c + memblkSize) →
      x < heapPage b ∨ heapPage b + 16 ≤ x → m x = k.pmm.mem x) : HeapRedirected k b f m := by
  obtain ⟨pre, post, hsplit⟩ := List.append_of_mem hb
  have hlist := hinv.list
  rw [hsplit, List.map_append, List.map_cons] at hlist
  have hmem : ∀ d ∈ k.allocs, heapPage d ∈ init := fun d hd =>
    hinv.mem_init (List.mem_append_right _ (List.mem_append_right _ (List.mem_map_of_mem hd)))
  have hpre : ∀ c ∈ pre.map usedBlock, readMemblk m c.addr = readMemblk k.pmm.mem c.addr := by
    intro c hc
    obtain ⟨d, hd, rfl⟩ := List.mem_map.mp hc
    have hdmem : d ∈ k.allocs := hsplit ▸ List.mem_append_left _ hd
    have hne : heapPage d ≠ heapPage b := by
      have hnodup := (hinv.nodup hok).of_append_right.of_append_right
      rw [hsplit, List.map_append, List.map_cons] at hnodup
      exact fun heq => List.disjoint_of_nodup_append hnodup (List.mem_map_of_mem hd)
        (heq ▸ List.mem_cons_self)
    have hpages := hok.apart (hmem d hdmem) (hmem b hb) hne
    refine readMemblk_congr fun x hlo hhi => hsame x ⟨d, hdmem, hlo, hhi⟩ ?_
    change heapPage d ≤ x at hlo
    change x < heapPage d + memblkSize at hhi
    simp only [memblkSize, pmmBlockSize] at hhi hpages
    omega
  have hused : ∀ n, ∀ c ∈ pre.map usedBlock, ¬ c.Fits n := fun n c hc =>
    KernelInv.not_fits n c (by
      rw [hsplit, List.map_append]
      exact List.mem_append_left _ hc)
  have hfree : blockIsFree m (heapPage b) = false := by
    obtain ⟨-, -, hfree⟩ := hlist.header (b := usedBlock b) (by simp)
    change blockIsFree k.pmm.mem (heapPage b) = false at hfree
    have hx := hsame (heapPage b + 16) ⟨b, hb, by omega, by simp only [memblkSize]; omega⟩
      (.inr le_rfl)
    rwa [blockIsFree, hx, ← blockIsFree]
  refine ⟨hsize, hnext, pre, post, hsplit, fun n fuel => ?_⟩
  have hfind := findBlock_past fuel 0 hlist hpre (hused n) hfree
  rw [List.length_map] at hfind
  rw [hfind, ← hnext]
  rfl

/-- In every state of every run: when the page behind a stack has been popped for the heap, a tick
that finds the thread at the top of that stack redirects the heap list. -/
theorem tick_redirects_heap (hs : HeapStart s) {ops : List KernelOp}
    (htrace : Trace KernelStep (.start s) ops k) (ha : (stack, threadStackSize) ∈ k.allocs)
    (hb : b ∈ k.allocs) (hbehind : b.1 = stack + pmmBlockSize) (hmem : h.mem = k.pmm.mem)
    (hrsp : h.cpu.rsp.toNat = stack + 4095)
    (hroom : stack + P.depth + stackframeSize + h.cpu.rsp.toNat % 16 ≤ h.cpu.rsp.toNat)
    (hstep : MachineStep P h .tick h') :
    HeapRedirected k b (h'.run.sched.threads h'.run.executing).context h'.mem := by
  have hok : PagesOk s.pmmStack := ⟨hs.nodup, hs.page, hs.length_le⟩
  have hinv := KernelInv.of_trace hs htrace
  obtain ⟨q, hq⟩ : ∃ q, heapPage (stack, threadStackSize) = q := ⟨_, rfl⟩
  have hstack : stack = q + memblkSize := hq ▸ hinv.ptr _ ha
  have hbq : heapPage b = q + pmmBlockSize := by
    rw [heapPage, hbehind, hstack, Nat.add_right_comm, Nat.add_sub_cancel]
  have hmemPages : ∀ c ∈ k.allocs, heapPage c % pmmBlockSize = 0 := fun c hc =>
    (hok.page _ (hinv.mem_init
      (List.mem_append_right _ (List.mem_append_right _ (List.mem_map_of_mem hc))))).1
  have hbase : FrameAt h.cpu.rsp (q + 3936) := frameAt_top (hq ▸ hmemPages _ ha) (hstack ▸ hrsp)
  obtain ⟨hholds, hrest⟩ := hstep.tick_frame hbase (by omega)
  -- the last two words of the frame are the first two words of the page behind the stack
  refine hinv.redirected hok hb ?_ ?_ ?_
  · have hword := hholds 20 (by decide)
    have haddr : q + 3936 + 8 * 20 = heapPage b := by rw [hbq, pmmBlockSize]
    rw [haddr] at hword
    rw [blockSize, ← toNat_loadWord, hword]
    rfl
  · have hword := hholds 21 (by decide)
    have haddr : q + 3936 + 8 * 21 = heapPage b + 8 := by rw [hbq, pmmBlockSize]
    rw [haddr] at hword
    rw [blockNext, ← toNat_loadWord, hword]
    rfl
  · -- what the tick writes below them is behind the header of the stack's own page
    rintro x ⟨c, hc, hlo, hhi⟩ hx
    have haligned := hmemPages c hc
    have haligned' := hmemPages _ ha
    rw [← hmem]
    refine hrest x ?_
    rw [FrameAt] at hbase
    rw [hbq] at hx
    rw [hq] at haligned'
    simp only [stackframeSize, memblkSize, pmmBlockSize] at *
    omega

/-- The registers of a thread that is at the top of its stack. -/
def topCpu : Cpu := { bootMachine.cpu with rsp := 0x6017 }

/-- A machine with the memory `m` in which this thread executes. -/
def topMachine (m : Memory) : Machine := { bootMachine with mem := m, cpu := topCpu }

lemma topMachine_tick (m : Memory) :
    MachineStep bootCode (topMachine m) .tick ((topMachine m).tick 0x5F60) := by
  have hcall : schedule 2 2 (topMachine m).run.sched ((topMachine m).cpu.frame 32 0) =
      some (tickResult (topMachine m).run.sched (topMachine m).cpu) := rfl
  have hif : topCpu.rflags &&& interruptFlag ≠ 0 := by decide
  have hbase : FrameAt topCpu.rsp 0x5F60 := by decide
  exact .tick hif rfl hbase (by decide) rfl hcall (fun _ _ => rfl) (by decide)

/-- The stack of a thread and its record, which is on the page behind. -/
theorem tick_redirects_heap_thread : ∃ k h h', Trace KernelStep (.start threePages)
    [.alloc schedThreadSize, .alloc threadStackSize] k ∧ MachineStep bootCode h .tick h' ∧
      HeapRedirected k (0x6018, schedThreadSize)
        (h'.run.sched.threads h'.run.executing).context h'.mem := by
  obtain ⟨k, htrace, hallocs⟩ := threePages_thread
  have hroom : 0x5018 + bootCode.depth + stackframeSize + topCpu.rsp.toNat % 16 ≤
      topCpu.rsp.toNat := by decide
  refine ⟨k, topMachine k.pmm.mem, _, htrace, topMachine_tick _, ?_⟩
  exact tick_redirects_heap threePages_start htrace (hallocs ▸ .tail _ (.head _))
    (hallocs ▸ .head _) rfl rfl rfl hroom (topMachine_tick _)

end Soaplin

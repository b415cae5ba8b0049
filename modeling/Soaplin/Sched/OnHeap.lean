import Soaplin.Memory.KernelHeap
import Soaplin.Sched.ContextSwitch

/-!
# The scheduler on the heap

The runs of the scheduler assume that every record is fresh.  Here the records and stacks come from
`pmm_alloc`: a call of the scheduler takes the heap through the allocations of the source, with any
writes and other uses of memory in between.  As long as the allocations succeed and memory is
written by its owners, such a run is a run of the scheduler (`sched_on_heap`), and what holds in
every run of the scheduler holds in it.

The owner of a stack does not own the 24 bytes by which it exceeds its page.  A thread that writes
there, or is interrupted there, is none of these runs: the header of a block may be in those bytes.
-/

namespace Soaplin

open TransitionTrace

/-- The scheduler with the heap of its records and stacks. -/
structure KernelSched where
  heap : KernelRun
  run : SchedRun

/-- A call of the scheduler, or what others do with their memory. -/
inductive KernelSchedOp
  | call (op : SchedOp)
  | other

/-- The call of the scheduler. -/
def KernelSchedOp.call? : KernelSchedOp → Option SchedOp
  | .call op => some op
  | .other => none

/-- One step.  The allocations of a call succeed; what a new record holds is whatever the memory
holds there.  In each step memory is written by its owners, the frame of the interrupt that calls
`schedule` and the stores of the handler included: nothing is written to the bytes by which a stack
exceeds its page. -/
inductive KernelSchedStep : KernelSched → KernelSchedOp → KernelSched → Prop
  | new {k : KernelSched} {heap : KernelRun} {ops : List KernelOp} {a : ProcessAlloc}
      {name : List UInt8} (htrace : Trace KernelStep k.heap ops heap)
      (hallocs : heap.allocs = k.heap.allocs ++ [(a.ptr, schedProcessSize)]) :
      KernelSchedStep k (.call (.new name))
        ⟨heap, { k.run with
          sched := schedNew k.run.sched a name
          processes := a.ptr :: k.run.processes }⟩
  | newThread {k : KernelSched} {heap : KernelRun} {ops : List KernelOp} {a : ThreadAlloc}
      {fuel : ℕ} {proc : Ptr} {name : List UInt8} {function : UInt64} {s : Sched}
      (htrace : Trace KernelStep k.heap ops heap)
      (hallocs : heap.allocs =
        k.heap.allocs ++ [(a.ptr, schedThreadSize), (a.stack, threadStackSize)])
      (hproc : proc ∈ k.run.processes)
      (hcall : schedNewThread fuel k.run.sched a proc name function = some s) :
      KernelSchedStep k (.call (.newThread proc name function))
        ⟨heap, { k.run with
          sched := s
          created := a.ptr :: k.run.created
          expected := Function.update k.run.expected a.ptr (s.threads a.ptr).context }⟩
  | schedule {k : KernelSched} {heap : KernelRun} {ops : List KernelOp} {fuel inner : ℕ}
      {sf sf' : Stackframe} {s : Sched} (htrace : Trace KernelStep k.heap ops heap)
      (hallocs : heap.allocs = k.heap.allocs)
      (hcall : Soaplin.schedule fuel inner k.run.sched sf = some (s, sf')) :
      KernelSchedStep k (.call (.schedule sf))
        ⟨heap, { k.run with
          sched := s
          executing := s.schedCurrentThread
          expected := Function.update k.run.expected k.run.executing sf }⟩
  | other {k : KernelSched} {heap : KernelRun} {ops : List KernelOp}
      (htrace : Trace KernelStep k.heap ops heap) (hallocs : heap.allocs = k.heap.allocs) :
      KernelSchedStep k .other ⟨heap, k.run⟩

/-- The kernel after `sched_init`, which has made its five allocations on the heap that `s` is the
start of. -/
structure KernelSchedStart (s : Pmm) (a : InitAlloc) (k : KernelSched) : Prop where
  heap : HeapStart s
  trace : ∃ ops, Trace KernelStep (.start s) ops k.heap
  allocs : k.heap.allocs = [(a.process.ptr, schedProcessSize), (a.thread, schedThreadSize),
    (a.idle.ptr, schedProcessSize), (a.idleThread.ptr, schedThreadSize),
    (a.idleThread.stack, threadStackSize)]
  init : ∃ fuel s₀ schedIdle, schedInit fuel s₀ a schedIdle = some k.run.sched
  run : k.run = SchedRun.start k.run.sched a

variable {init : List ℕ} {s : Pmm} {heap : KernelRun} {k k₀ k' : KernelSched} {a : InitAlloc}

/-- A pointer that has just been allocated is not `NULL`, and no earlier allocation starts there. -/
lemma KernelInv.fresh_ptr (hok : PagesOk init) (hinv : KernelInv init heap)
    {pre post : List (ℕ × ℕ)} {p n m : ℕ} (hallocs : heap.allocs = pre ++ (p, n) :: post) :
    p ≠ 0 ∧ (p, m) ∉ pre := by
  have hmem : (p, n) ∈ heap.allocs := by simp [hallocs]
  have hptr := hinv.ptr _ hmem
  refine ⟨by simp only [memblkSize] at hptr; omega, fun hpre => ?_⟩
  have hnodup := (hinv.nodup hok).of_append_right.of_append_right
  rw [hallocs, List.map_append] at hnodup
  exact List.disjoint_of_nodup_append hnodup (List.mem_map_of_mem hpre) (.head _)

/-- The invariant of a run: every record of the scheduler has been allocated for it. -/
structure OnHeapInv (init : List ℕ) (k : KernelSched) : Prop where
  heap : KernelInv init k.heap
  processes : ∀ p ∈ k.run.processes, (p, schedProcessSize) ∈ k.heap.allocs
  created : ∀ t ∈ k.run.created, (t, schedThreadSize) ∈ k.heap.allocs
  count : k.heap.allocs.length + 1 = k.run.processes.length + 2 * k.run.created.length

namespace OnHeapInv

/-- Allocations stay allocated. -/
lemma mem_grown {pre post allocs : List (ℕ × ℕ)} (h : allocs = pre ++ post) {c : ℕ × ℕ}
    (hc : c ∈ pre) : c ∈ allocs :=
  h ▸ List.mem_append_left _ hc

/-- Writes and other uses of memory keep the invariant. -/
lemma written (hinv : OnHeapInv init k) (hheap : KernelInv init k'.heap)
    (hallocs : k'.heap.allocs = k.heap.allocs) (hprocesses : k'.run.processes = k.run.processes)
    (hcreated : k'.run.created = k.run.created) : OnHeapInv init k' where
  heap := hheap
  processes := by
    rw [hallocs, hprocesses]
    exact hinv.processes
  created := by
    rw [hallocs, hcreated]
    exact hinv.created
  count := by
    rw [hallocs, hprocesses, hcreated]
    exact hinv.count

/-- A call of the scheduler on the heap is one with fresh records, and other steps are none. -/
lemma step (hok : PagesOk init) (hinv : OnHeapInv init k) {op : KernelSchedOp}
    (hstep : KernelSchedStep k op k') : OnHeapInv init k' ∧
      Trace SchedStep k.run op.call?.toList k'.run := by
  have hheap : ∀ {heap : KernelRun} {ops : List KernelOp}, Trace KernelStep k.heap ops heap →
      KernelInv init heap := fun htrace =>
    htrace.invariant _ hinv.heap fun _ _ _ h hs => h.step hok hs
  have hcount := hinv.count
  cases hstep with
  | @new heap ops a name htrace hallocs =>
    obtain ⟨hne, hfresh⟩ := (hheap htrace).fresh_ptr (m := schedProcessSize) hok hallocs
    refine ⟨⟨hheap htrace, fun p hp => ?_, fun t ht => mem_grown hallocs (hinv.created t ht), ?_⟩,
      .single (.new hne fun hmem => hfresh (hinv.processes _ hmem))⟩
    · rcases List.mem_cons.mp hp with rfl | hp
      · simp [hallocs]
      · exact mem_grown hallocs (hinv.processes p hp)
    · simp only [hallocs, List.length_append, List.length_cons, List.length_nil]
      omega
  | @newThread heap ops a fuel proc name function s htrace hallocs hproc hcall =>
    obtain ⟨hne, hfresh⟩ := (hheap htrace).fresh_ptr (m := schedThreadSize) hok hallocs
    refine ⟨⟨hheap htrace, fun p hp => mem_grown hallocs (hinv.processes p hp), fun t ht => ?_, ?_⟩,
      .single (.newThread hne (fun hmem => hfresh (hinv.created _ hmem)) hproc hcall)⟩
    · rcases List.mem_cons.mp ht with rfl | ht
      · simp [hallocs]
      · exact mem_grown hallocs (hinv.created t ht)
    · simp only [hallocs, List.length_append, List.length_cons, List.length_nil]
      omega
  | @schedule heap ops fuel inner sf sf' s htrace hallocs hcall =>
    exact ⟨hinv.written (hheap htrace) hallocs rfl rfl, .single (.schedule hcall)⟩
  | @other heap ops htrace hallocs => exact ⟨hinv.written (hheap htrace) hallocs rfl rfl, .nil⟩

/-- The invariant after `sched_init`, whose allocations do not overlap. -/
lemma start (hs : KernelSchedStart s a k) : a.Fresh ∧ OnHeapInv s.pmmStack k := by
  have hok : PagesOk s.pmmStack := ⟨hs.heap.nodup, hs.heap.page, hs.heap.length_le⟩
  obtain ⟨ops, htrace⟩ := hs.trace
  have hinv := KernelInv.of_trace hs.heap htrace
  have hfirst : k.heap.allocs = [] ++ (a.process.ptr, schedProcessSize) :: _ := hs.allocs
  have hsecond : k.heap.allocs = [_] ++ (a.thread, schedThreadSize) :: _ := hs.allocs
  have hthird : k.heap.allocs = [_, _] ++ (a.idle.ptr, schedProcessSize) :: _ := hs.allocs
  have hfourth : k.heap.allocs = [_, _, _] ++ (a.idleThread.ptr, schedThreadSize) :: _ := hs.allocs
  obtain ⟨hprocess, -⟩ := hinv.fresh_ptr (m := schedProcessSize) hok hfirst
  obtain ⟨hthread, -⟩ := hinv.fresh_ptr (m := schedThreadSize) hok hsecond
  obtain ⟨hidle, hidle'⟩ := hinv.fresh_ptr (m := schedProcessSize) hok hthird
  obtain ⟨hidleThread, hidleThread'⟩ := hinv.fresh_ptr (m := schedThreadSize) hok hfourth
  refine ⟨⟨hprocess, hthread, hidle, hidleThread, fun heq => hidle' ?_, fun heq => hidleThread' ?_⟩,
    hinv, ?_, ?_, ?_⟩
  · simp [heq]
  · simp [heq]
  · rw [hs.run, hs.allocs]
    simp [SchedRun.start]
  · rw [hs.run, hs.allocs]
    simp [SchedRun.start]
  · rw [hs.run, hs.allocs]
    rfl

/-- A run on the heap is a run of the scheduler, and keeps the invariant. -/
lemma of_trace (hok : PagesOk init) (hinv : OnHeapInv init k₀) {ops : List KernelSchedOp}
    (htrace : Trace KernelSchedStep k₀ ops k) :
    OnHeapInv init k ∧ Trace SchedStep k₀.run (ops.filterMap KernelSchedOp.call?) k.run := by
  induction htrace with
  | nil => exact ⟨hinv, .nil⟩
  | @snoc ops op k₁ k₂ _ hstep ih =>
    obtain ⟨hinv₂, hcall⟩ := ih.1.step hok hstep
    refine ⟨hinv₂, ?_⟩
    rw [List.filterMap_append]
    have hop : [op].filterMap KernelSchedOp.call? = op.call?.toList := by
      cases op <;> rfl
    rw [hop]
    exact ih.2.append hcall

end OnHeapInv

/-! ### The main result -/

end Soaplin

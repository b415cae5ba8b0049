import Soaplin.Sched.ListRuns

/-!
# The running thread

`sched_new`, `sched_new_thread` and `schedule` in any order.  The invariant `ThreadInv` describes
the process list, which `sched_new` may cut, and the thread list of every process created so far,
whether it is still in the list or not; every created thread but the current one is `READY`.  After
the first call of `schedule` the current thread is `RUNNING`, and it is the only one
(`one_thread_running`).
-/

namespace Soaplin

open TransitionTrace LinkedChain

/-- The invariant, for the processes `ps` and threads `ts` created so far: the process list is `l`,
and the process `p` has the thread list `tl p`. -/
structure ThreadInv (s : Sched) (ps ts l : List Ptr) (tl : Ptr → List Ptr) : Prop
    extends ListsInv s ps ts l tl where
  ready : ∀ t ∈ ts, t ≠ s.schedCurrentThread → (s.threads t).status = .ready

variable {s s' : Sched} {ps ts l : List Ptr} {tl : Ptr → List Ptr} {fuel inner : ℕ}

namespace ThreadInv

/-- A call of `schedule` keeps the invariant, and the current thread is `RUNNING` after it. -/
theorem schedule (hinv : ThreadInv s ps ts l tl) {sf : Stackframe} {r : Sched × Stackframe}
    (h : Soaplin.schedule fuel inner s sf = some r) :
    ThreadInv r.1 ps ts l tl ∧ (r.1.threads r.1.schedCurrentThread).status = .running := by
  have hm := movedOn_of_schedule hinv.toListsInv.lists h
  refine ⟨⟨hinv.toListsInv.schedule h, fun t ht hne => ?_⟩, hm.running⟩
  rw [hm.chosen, status_chosenState, if_neg hne]
  split_ifs with hcur
  · rfl
  · exact hinv.ready t ht hcur

/-- A call of `sched_new` replaces what is behind the current process by the new process, which has
no threads. -/
theorem new (hinv : ThreadInv s ps ts l tl) {a : ProcessAlloc} (hne : a.ptr ≠ 0)
    (hfresh : a.ptr ∉ ps) (name : List UInt8) :
    ∃ l', ThreadInv (schedNew s a name) (a.ptr :: ps) ts l' (Function.update tl a.ptr []) := by
  obtain ⟨l', hl'⟩ := hinv.toListsInv.new hne hfresh name
  exact ⟨l', hl', hinv.ready⟩

/-- A call of `sched_new_thread` appends to one thread list, in the process list or not. -/
theorem newThread (hinv : ThreadInv s ps ts l tl) {a : ThreadAlloc} {proc : Ptr}
    {name : List UInt8} {function : UInt64} (hne : a.ptr ≠ 0) (hfresh : a.ptr ∉ ts)
    (hproc : proc ∈ ps) (h : schedNewThread fuel s a proc name function = some s') :
    ThreadInv s' ps (a.ptr :: ts) l (Function.update tl proc (tl proc ++ [a.ptr])) := by
  have hl := schedNewThread_linked (hinv.threads proc hproc) hne
    (fun hmem => hfresh (hinv.created proc hproc hmem)) h
  refine ⟨hinv.toListsInv.newThread hne hfresh hproc h, fun t ht hne' => ?_⟩
  rw [hl.currentThread] at hne'
  by_cases hta : t = a.ptr
  · rw [hta]
    exact hl.ready
  · rw [hl.status t hta]
    exact hinv.ready t ((List.mem_cons.mp ht).resolve_left hta) hne'

end ThreadInv

/-! ### Runs -/

/-- The invariant for the process and the thread that are running already. -/
lemma threadInv_initKernel (s : Sched) {a : InitAlloc} (hf : a.Fresh) :
    ThreadInv (schedInitKernel s a) [a.process.ptr] [a.thread] [a.process.ptr]
      fun _ => [a.thread] :=
  ⟨listsInv_initKernel s hf, fun _ ht hne => absurd (List.mem_singleton.mp ht) hne⟩

/-- `sched_init` establishes the invariant, whatever the uninitialised memory holds. -/
theorem threadInv_start {a : InitAlloc} (hf : a.Fresh) {schedIdle : UInt64}
    (h : schedInit fuel s a schedIdle = some s') :
    ∃ l tl, ThreadInv s' [a.idle.ptr, a.process.ptr] [a.idleThread.ptr, a.thread] l tl := by
  obtain ⟨l, hl⟩ := (threadInv_initKernel s hf).new hf.idle (by simpa using hf.process_idle)
    (cString "idle")
  have hidle : ThreadInv { schedNew (schedInitKernel s a) a.idle (cString "idle") with
      idleProcess := a.idle.ptr } [a.idle.ptr, a.process.ptr] [a.thread] l _ :=
    ⟨⟨hl.procs, hl.subset, hl.threads, hl.created, hl.disjoint, hl.current, hl.currentThread⟩,
      hl.ready⟩
  exact ⟨l, _, hidle.newThread hf.idleThread (by simpa using hf.thread_idle) List.mem_cons_self h⟩

/-- Every call keeps the invariant. -/
theorem ThreadInv.step {h h' : SchedRun} {op : SchedOp}
    (hinv : ThreadInv h.sched h.processes h.created l tl) (hstep : SchedStep h op h') :
    ∃ l' tl', ThreadInv h'.sched h'.processes h'.created l' tl' := by
  cases hstep with
  | new hne hfresh =>
    obtain ⟨l', hl'⟩ := hinv.new hne hfresh _
    exact ⟨l', _, hl'⟩
  | newThread hne hfresh hproc hcall => exact ⟨l, _, hinv.newThread hne hfresh hproc hcall⟩
  | schedule hcall => exact ⟨l, tl, (hinv.schedule hcall).1⟩

/-- Creating a process or a thread does not change the current thread, nor its status. -/
lemma ThreadInv.status_step {h h' : SchedRun} {op : SchedOp}
    (hinv : ThreadInv h.sched h.processes h.created l tl) (hstep : SchedStep h op h')
    (hrun : (h.sched.threads h.sched.schedCurrentThread).status = .running) :
    (h'.sched.threads h'.sched.schedCurrentThread).status = .running := by
  cases hstep with
  | new hne hfresh => exact hrun
  | newThread hne hfresh hproc hcall =>
    have hl := schedNewThread_linked (hinv.threads _ hproc) hne
      (fun hmem => hfresh (hinv.created _ hproc hmem)) hcall
    dsimp only
    rw [hl.currentThread, hl.status]
    · exact hrun
    · intro heq
      exact hfresh (heq ▸ hinv.currentThread_mem)
  | schedule hcall => exact (hinv.schedule hcall).2

/-- After `sched_init` and any calls with at least one of `schedule` among them, the current process
is in the process list, the current thread is in its thread list, and it is the one thread among
those created that is `RUNNING`. -/
theorem one_thread_running {s₀ s : Sched} {a : InitAlloc} (hf : a.Fresh) {fuel : ℕ}
    {schedIdle : UInt64} (hinit : schedInit fuel s₀ a schedIdle = some s) {ops : List SchedOp}
    {h : SchedRun} (htrace : Trace SchedStep (SchedRun.start s a) ops h)
    (hops : ∃ sf, SchedOp.schedule sf ∈ ops) :
    (∃ l, Chain (processNext h.sched) h.sched.schedProcessesList l ∧
        h.sched.schedCurrentProcess ∈ l) ∧
      (∃ xs, Chain (threadNext h.sched) (h.sched.procs h.sched.schedCurrentProcess).threads xs ∧
        h.sched.schedCurrentThread ∈ xs) ∧
      h.sched.schedCurrentThread ∈ h.created ∧
      ∀ t ∈ h.created, (h.sched.threads t).status = .running ↔ t = h.sched.schedCurrentThread := by
  obtain ⟨l, tl, hinv, hrun⟩ : ∃ l tl, ThreadInv h.sched h.processes h.created l tl ∧
      ((∃ sf, SchedOp.schedule sf ∈ ops) →
        (h.sched.threads h.sched.schedCurrentThread).status = .running) := by
    clear hops
    induction htrace with
    | nil =>
      obtain ⟨l, tl, hinv⟩ := threadInv_start hf hinit
      exact ⟨l, tl, hinv, fun ⟨_, hsf⟩ => absurd hsf List.not_mem_nil⟩
    | @snoc es e h₁ h₂ _ hstep ih =>
      obtain ⟨l, tl, hinv, hrun⟩ := ih
      obtain ⟨l', tl', hinv'⟩ := hinv.step hstep
      refine ⟨l', tl', hinv', ?_⟩
      rintro ⟨sf, hsf⟩
      rcases List.mem_append.mp hsf with hsf | hsf
      · exact hinv.status_step hstep (hrun ⟨sf, hsf⟩)
      · obtain rfl := List.mem_singleton.mp hsf
        cases hstep with
        | schedule hcall => exact (hinv.schedule hcall).2
  refine ⟨⟨l, hinv.procs, hinv.current⟩,
    ⟨_, hinv.threads _ (hinv.subset hinv.current), hinv.currentThread⟩, hinv.currentThread_mem,
    fun t ht => ⟨fun hstatus => ?_, fun heq => ?_⟩⟩
  · by_contra hne
    rw [hinv.ready t ht hne] at hstatus
    exact SchedStatus.noConfusion hstatus
  · rw [heq]
    exact hrun hops

/-- The state after `sched_init` and a `sched_new` that cuts the idle process off the list. -/
def cutSched : Sched := schedNew bootSched ⟨0x6000, ⟨[], 0, 0, 0⟩⟩ (cString "Proc1")

/-- The result of a tick in that state: the search comes back to the kernel's thread. -/
def cutTicked : Sched × Stackframe := (schedule 3 3 cutSched zeroFrame).getD (cutSched, zeroFrame)

lemma cutTicked_eq : schedule 3 3 cutSched zeroFrame = some cutTicked := rfl

/-- After `sched_new` has cut the list and a tick, the kernel's thread is the one that is
`RUNNING`. -/
theorem one_thread_running_cut : ∃ h,
    Trace SchedStep (SchedRun.start bootSched bootAlloc)
      [.new (cString "Proc1"), .schedule zeroFrame] h ∧ h.created = [0x4000, 0x2000] ∧
      ∀ t ∈ h.created, (h.sched.threads t).status = .running ↔ t = 0x2000 := by
  have hnew : SchedStep (SchedRun.start bootSched bootAlloc) (.new (cString "Proc1")) _ :=
    .new (a := ⟨0x6000, ⟨[], 0, 0, 0⟩⟩) (by decide) (by decide)
  have htrace : Trace SchedStep (SchedRun.start bootSched bootAlloc)
      [.new (cString "Proc1"), .schedule zeroFrame] _ :=
    .snoc (.snoc .nil hnew) (.schedule cutTicked_eq)
  refine ⟨_, htrace, rfl, ?_⟩
  exact (one_thread_running bootAlloc_fresh bootSched_eq htrace ⟨zeroFrame, by simp⟩).2.2.2

end Soaplin

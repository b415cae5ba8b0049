import Soaplin.Sched.Sched
import Soaplin.Foundation.Trace

/-!
# Context switches

A run of the scheduler starts after `sched_init` and calls `sched_new`, `sched_new_thread` and
`schedule` in any order.  Next to the state of the program it carries the records created so far,
the thread that is executing, and for every thread the frame with which it is expected to go on: the
one with which it was last preempted, or the context it was created with.  The invariant `SchedInv`
says that the pointers of the scheduler stay among the records created, that the executing thread is
`sched_current_thread`, and that every other thread has its expected frame as context;
`context_switch_exact` is what follows for a call of `schedule`.
-/

namespace Soaplin

open TransitionTrace

/-! ### Runs -/

/-- A state of a run of the scheduler. -/
structure SchedRun where
  sched : Sched
  /-- The process records created so far. -/
  processes : List Ptr
  /-- The thread records created so far. -/
  created : List Ptr
  /-- The thread that is executing. -/
  executing : Ptr
  /-- The frame with which a thread is expected to go on. -/
  expected : Ptr → Stackframe

/-- The calls of a run. -/
inductive SchedOp
  | new (name : List UInt8)
  | newThread (proc : Ptr) (name : List UInt8) (function : UInt64)
  | schedule (sf : Stackframe)

/-- One call.  Allocations succeed and return records that are not in use; a thread is created in a
process that exists. -/
inductive SchedStep : SchedRun → SchedOp → SchedRun → Prop
  | new {h : SchedRun} {a : ProcessAlloc} {name : List UInt8} (hne : a.ptr ≠ 0)
      (hfresh : a.ptr ∉ h.processes) :
      SchedStep h (.new name)
        { h with sched := schedNew h.sched a name, processes := a.ptr :: h.processes }
  | newThread {h : SchedRun} {a : ThreadAlloc} {fuel : ℕ} {proc : Ptr} {name : List UInt8}
      {function : UInt64} {s : Sched} (hne : a.ptr ≠ 0) (hfresh : a.ptr ∉ h.created)
      (hproc : proc ∈ h.processes)
      (hcall : schedNewThread fuel h.sched a proc name function = some s) :
      SchedStep h (.newThread proc name function)
        { h with
          sched := s
          created := a.ptr :: h.created
          expected := Function.update h.expected a.ptr (s.threads a.ptr).context }
  | schedule {h : SchedRun} {fuel inner : ℕ} {sf sf' : Stackframe} {s : Sched}
      (hcall : Soaplin.schedule fuel inner h.sched sf = some (s, sf')) :
      SchedStep h (.schedule sf)
        { h with
          sched := s
          executing := s.schedCurrentThread
          expected := Function.update h.expected h.executing sf }

/-- The allocations of `sched_init` are not `NULL` and do not overlap. -/
structure InitAlloc.Fresh (a : InitAlloc) : Prop where
  process : a.process.ptr ≠ 0
  thread : a.thread ≠ 0
  idle : a.idle.ptr ≠ 0
  idleThread : a.idleThread.ptr ≠ 0
  process_idle : a.idle.ptr ≠ a.process.ptr
  thread_idle : a.idleThread.ptr ≠ a.thread

/-- The start of a run, when `sched_init` has left the state `s`. -/
def SchedRun.start (s : Sched) (a : InitAlloc) : SchedRun where
  sched := s
  processes := [a.idle.ptr, a.process.ptr]
  created := [a.idleThread.ptr, a.thread]
  executing := a.thread
  expected := fun t => (s.threads t).context

/-! ### The pointers of the scheduler -/

/-- The pointers of the scheduler lead to the processes `ps` and the threads `ts`. -/
structure SchedClosed (s : Sched) (ps ts : List Ptr) : Prop where
  list : s.schedProcessesList ∈ ps
  current : s.schedCurrentProcess ∈ ps
  next : ∀ p ∈ ps, (s.procs p).next = 0 ∨ (s.procs p).next ∈ ps
  threads : ∀ p ∈ ps, (s.procs p).threads = 0 ∨ (s.procs p).threads ∈ ts
  threadNext : ∀ t ∈ ts, (s.threads t).next = 0 ∨ (s.threads t).next ∈ ts

variable {s s' : Sched} {ps ts : List Ptr} {fuel inner : ℕ} {t p : Ptr}

/-- The inner loop ends at `NULL` or at a thread that is not `DEAD`. -/
lemma scanThreads_mem (hnext : ∀ t ∈ ts, (s.threads t).next = 0 ∨ (s.threads t).next ∈ ts)
    (ht : t = 0 ∨ t ∈ ts) {r : Ptr} (h : scanThreads s fuel t = some r) (hr : r ≠ 0) :
    r ∈ ts ∧ (s.threads r).status ≠ .dead := by
  induction fuel generalizing t with
  | zero => cases h
  | succ fuel ih =>
    rw [scanThreads] at h
    split_ifs at h with h0 hdead
    · cases h
      exact absurd rfl hr
    · exact ih (hnext t (ht.resolve_left h0)) h
    · cases h
      exact ⟨ht.resolve_left h0, hdead⟩

/-- The process after the current one is a process of the scheduler. -/
lemma SchedClosed.nextProcess_mem (hc : SchedClosed s ps ts) : nextProcess s ∈ ps := by
  unfold nextProcess
  split_ifs with hnext
  · exact (hc.next _ hc.current).resolve_left hnext
  · exact hc.list

/-- The outer loop of `schedule` makes a process current, makes a thread that is not `DEAD` current,
marks it `RUNNING`, and changes nothing else. -/
theorem chooseThread_spec (hc : SchedClosed s ps ts) (h : chooseThread fuel inner s = some s') :
    ∃ p ∈ ps, ∃ t ∈ ts, t ≠ 0 ∧ (s.threads t).status ≠ .dead ∧
      s' = { s with
        schedCurrentProcess := p
        schedCurrentThread := t
        threads := Function.update s.threads t { s.threads t with status := .running } } := by
  induction fuel generalizing s with
  | zero => cases h
  | succ fuel ih =>
    have hp := hc.nextProcess_mem
    have hc' : ∀ r, SchedClosed
        { s with schedCurrentProcess := nextProcess s, schedCurrentThread := r } ps ts :=
      fun _ => ⟨hc.list, hp, hc.next, hc.threads, hc.threadNext⟩
    rw [chooseThread] at h
    dsimp only at h
    cases hscan : scanThreads { s with schedCurrentProcess := nextProcess s } inner
        (s.procs (nextProcess s)).threads with
    | none =>
      rw [hscan] at h
      cases h
    | some t =>
      rw [hscan] at h
      dsimp only at h
      split_ifs at h with ht
      · cases h
        obtain ⟨htmem, halive⟩ := scanThreads_mem (s := { s with schedCurrentProcess := nextProcess s })
          hc.threadNext (hc.threads _ hp) hscan ht
        exact ⟨nextProcess s, hp, t, htmem, ht, halive, rfl⟩
      · obtain ⟨p, hpmem, t, htmem, ht0, halive, rfl⟩ := ih (hc' 0) h
        exact ⟨p, hpmem, t, htmem, ht0, halive, rfl⟩

/-- Saving the interrupted frame does not change where the pointers lead. -/
lemma SchedClosed.saveContext (hc : SchedClosed s ps ts) (sf : Stackframe) :
    SchedClosed (saveContext s sf) ps ts := by
  refine ⟨hc.list, hc.current, hc.next, hc.threads, fun t ht => ?_⟩
  by_cases heq : t = s.schedCurrentThread
  · subst heq
    simpa [Soaplin.saveContext] using hc.threadNext _ ht
  · simpa [Soaplin.saveContext, heq] using hc.threadNext _ ht

/-- The context of a thread after the interrupted frame is saved. -/
lemma saveContext_context (s : Sched) (sf : Stackframe) (t : Ptr) :
    ((saveContext s sf).threads t).context =
      if t = s.schedCurrentThread then sf else (s.threads t).context := by
  by_cases heq : t = s.schedCurrentThread
  · subst heq
    simp [saveContext]
  · simp [saveContext, heq]

/-- What a call of `schedule` does: it saves the interrupted frame in the current thread, makes a
process and a thread current, and returns the context of that thread. -/
structure Scheduled (s s' : Sched) (sf sf' : Stackframe) (ps ts : List Ptr) : Prop where
  closed : SchedClosed s' ps ts
  procs : s'.procs = s.procs
  list : s'.schedProcessesList = s.schedProcessesList
  thread_mem : s'.schedCurrentThread ∈ ts
  frame : sf' = (s'.threads s'.schedCurrentThread).context
  context : ∀ t, (s'.threads t).context =
    if t = s.schedCurrentThread then sf else (s.threads t).context

/-- `schedule` only saves, chooses and returns. -/
theorem schedule_spec (hc : SchedClosed s ps ts) {sf sf' : Stackframe}
    (h : schedule fuel inner s sf = some (s', sf')) : Scheduled s s' sf sf' ps ts := by
  obtain ⟨u, hchoose, heq⟩ := Option.map_eq_some_iff.mp h
  obtain ⟨rfl, rfl⟩ := Prod.mk.inj heq
  have hc' := hc.saveContext sf
  obtain ⟨p, hp, t, ht, -, -, rfl⟩ := chooseThread_spec hc' hchoose
  refine ⟨⟨hc'.list, hp, hc'.next, hc'.threads, fun r hr => ?_⟩, rfl, rfl, ht, rfl, fun r => ?_⟩
  · by_cases hrt : r = t
    · subst hrt
      simpa using hc'.threadNext r hr
    · simpa [hrt] using hc'.threadNext r hr
  · rw [← saveContext_context]
    by_cases hrt : r = t
    · subst hrt
      simp
    · simp [hrt]

/-! ### Creating threads and processes -/

/-- The loop of `sched_new_thread` only assigns the `next` pointer of one thread. -/
lemma appendThread_spec {thread scan : Ptr}
    (hnext : ∀ t ∈ ts, (s.threads t).next = 0 ∨ (s.threads t).next ∈ ts) (hscan : scan ∈ ts)
    (h0 : (0 : Ptr) ∉ ts) (h : appendThread s thread fuel scan = some s') :
    ∃ last ∈ ts, (s.threads last).next = 0 ∧
      s' = s.setThread last { s.threads last with next := thread } := by
  induction fuel generalizing scan with
  | zero => cases h
  | succ fuel ih =>
    rw [appendThread] at h
    split_ifs at h with hz hn
    · exact absurd (hz ▸ hscan) h0
    · exact ih ((hnext scan hscan).resolve_left hn) h
    · cases h
      exact ⟨scan, hscan, not_not.mp hn, rfl⟩

/-- What linking the record `t` into the lists changes, other than in this record: one link leads to
it. -/
structure LinkAdded (s s' : Sched) (t : Ptr) : Prop where
  list : s'.schedProcessesList = s.schedProcessesList
  currentProcess : s'.schedCurrentProcess = s.schedCurrentProcess
  currentThread : s'.schedCurrentThread = s.schedCurrentThread
  next : ∀ p, (s'.procs p).next = (s.procs p).next
  threads : ∀ p, (s'.procs p).threads = (s.procs p).threads ∨ (s'.procs p).threads = t
  context : ∀ r, r ≠ t → (s'.threads r).context = (s.threads r).context
  threadNext : ∀ r, r ≠ t → (s'.threads r).next = (s.threads r).next ∨ (s'.threads r).next = t

/-- What a call of `sched_new_thread` changes: the new record, and one link that leads to it. -/
structure ThreadAdded (s s' : Sched) (a : ThreadAlloc) (function : UInt64) : Prop
    extends LinkAdded s s' a.ptr where
  newContext : (s'.threads a.ptr).context = newContext a.junk.context a.stack function
  newNext : (s'.threads a.ptr).next = 0

/-- `sched_new_thread` adds a thread. -/
theorem schedNewThread_spec (hc : SchedClosed s ps ts) (h0 : (0 : Ptr) ∉ ts) {a : ThreadAlloc}
    (hfresh : a.ptr ∉ ts) {proc : Ptr} (hproc : proc ∈ ps) {name : List UInt8} {function : UInt64}
    (h : schedNewThread fuel s a proc name function = some s') : ThreadAdded s s' a function := by
  rw [schedNewThread] at h
  dsimp only at h
  obtain ⟨u, hlink, rfl⟩ := Option.map_eq_some_iff.mp h
  -- the records of the other threads do not notice the allocation
  have hold : ∀ t, t ≠ a.ptr → (s.setThread a.ptr a.junk).threads t = s.threads t := fun t ht =>
    Function.update_of_ne ht _ _
  have hnew : (s.setThread a.ptr a.junk).threads a.ptr = a.junk := Function.update_self _ _ _
  have hnext : ∀ t ∈ ts, ((s.setThread a.ptr a.junk).threads t).next = 0 ∨
      ((s.setThread a.ptr a.junk).threads t).next ∈ ts := by
    intro t ht
    rw [hold t (by rintro rfl; exact hfresh ht)]
    exact hc.threadNext t ht
  split_ifs at hlink with hempty
  · -- the first thread of the process
    obtain rfl := Option.some.inj hlink
    refine ⟨⟨rfl, rfl, rfl, fun p => ?_, fun p => ?_, fun t ht => ?_, fun t ht => ?_⟩, ?_, ?_⟩
    · by_cases hp : p = proc
      · subst hp; simp
      · simp [hp]
    · by_cases hp : p = proc
      · subst hp; simp
      · simp [hp]
    · simp [ht]
    · simp [ht]
    · simp
    · simp
  · -- behind the last thread of the process
    have hhead : (s.procs proc).threads ∈ ts := (hc.threads proc hproc).resolve_left hempty
    obtain ⟨last, hlast, -, rfl⟩ := appendThread_spec hnext hhead h0 hlink
    have hne : last ≠ a.ptr := by
      rintro rfl
      exact hfresh hlast
    refine ⟨⟨rfl, rfl, rfl, fun p => rfl, fun p => .inl rfl, fun t ht => ?_, fun t ht => ?_⟩, ?_, ?_⟩
    · by_cases htl : t = last
      · subst htl; simp [ht]
      · simp [ht, htl]
    · by_cases htl : t = last
      · subst htl; simp [ht]
      · simp [ht, htl]
    · simp [hne.symm]
    · simp

/-- When the new record ends its list, the pointers lead to the threads so far and the new one. -/
lemma LinkAdded.closed (hadd : LinkAdded s s' t) (h0 : (s'.threads t).next = 0)
    (hc : SchedClosed s ps ts) : SchedClosed s' ps (t :: ts) := by
  refine ⟨hadd.list ▸ hc.list, hadd.currentProcess ▸ hc.current, fun p hp => ?_, fun p hp => ?_,
    fun r hr => ?_⟩
  · rw [hadd.next p]
    exact hc.next p hp
  · rcases hadd.threads p with h | h
    · rw [h]
      exact (hc.threads p hp).imp_right (List.mem_cons_of_mem _)
    · exact .inr (h ▸ List.mem_cons_self)
  · by_cases hrt : r = t
    · exact .inl (hrt ▸ h0)
    · rcases hadd.threadNext r hrt with h | h
      · rw [h]
        exact (hc.threadNext r ((List.mem_cons.mp hr).resolve_left hrt)).imp_right
          (List.mem_cons_of_mem _)
      · exact .inr (h ▸ List.mem_cons_self)

/-- The `next` pointers after `sched_new`. -/
lemma schedNew_next (a : ProcessAlloc) (name : List UInt8) (p : Ptr) :
    ((schedNew s a name).procs p).next =
      if p = s.schedCurrentProcess then a.ptr else if p = a.ptr then 0 else (s.procs p).next := by
  by_cases hcur : p = s.schedCurrentProcess
  · subst hcur
    simp [schedNew]
  · by_cases hnew : p = a.ptr
    · subst hnew
      simp [schedNew, hcur]
    · simp [schedNew, hcur, hnew]

/-- The `threads` pointers after `sched_new`. -/
lemma schedNew_threads {a : ProcessAlloc} (hne : a.ptr ≠ s.schedCurrentProcess) (name : List UInt8)
    (p : Ptr) : ((schedNew s a name).procs p).threads =
      if p = a.ptr then 0 else (s.procs p).threads := by
  by_cases hcur : p = s.schedCurrentProcess
  · subst hcur
    simp [schedNew, hne.symm]
  · by_cases hnew : p = a.ptr
    · subst hnew
      simp [schedNew, hcur]
    · simp [schedNew, hcur, hnew]

/-- After `sched_new` the pointers lead to the processes so far and the new one. -/
lemma SchedClosed.schedNew (hc : SchedClosed s ps ts) {a : ProcessAlloc} (hfresh : a.ptr ∉ ps)
    (name : List UInt8) : SchedClosed (schedNew s a name) (a.ptr :: ps) ts := by
  have hne : a.ptr ≠ s.schedCurrentProcess := fun h => hfresh (h ▸ hc.current)
  refine ⟨List.mem_cons_of_mem _ hc.list, List.mem_cons_of_mem _ hc.current, fun p hp => ?_,
    fun p hp => ?_, hc.threadNext⟩
  · rw [schedNew_next]
    split_ifs with hcur hnew
    · exact .inr List.mem_cons_self
    · exact .inl rfl
    · exact (hc.next p ((List.mem_cons.mp hp).resolve_left hnew)).imp_right
        (List.mem_cons_of_mem _)
  · rw [schedNew_threads hne]
    split_ifs with hnew
    · exact .inl rfl
    · exact hc.threads p ((List.mem_cons.mp hp).resolve_left hnew)

/-! ### The invariant -/

/-- The invariant of a run. -/
structure SchedInv (h : SchedRun) : Prop where
  closed : SchedClosed h.sched h.processes h.created
  created : (0 : Ptr) ∉ h.created
  executing_mem : h.executing ∈ h.created
  /-- The scheduler knows which thread is executing. -/
  executing_eq : h.sched.schedCurrentThread = h.executing
  /-- A thread that is not executing has its expected frame as context. -/
  saved : ∀ t ∈ h.created, t ≠ h.executing → (h.sched.threads t).context = h.expected t

/-- The process and the thread that are running before the idle process is created. -/
lemma schedClosed_initKernel (s : Sched) (a : InitAlloc) :
    SchedClosed (schedInitKernel s a) [a.process.ptr] [a.thread] := by
  refine ⟨List.mem_cons_self, List.mem_cons_self, fun p hp => ?_, fun p hp => ?_, fun t ht => ?_⟩
  · obtain rfl := List.mem_singleton.mp hp
    simp [schedInitKernel]
  · obtain rfl := List.mem_singleton.mp hp
    simp [schedInitKernel]
  · obtain rfl := List.mem_singleton.mp ht
    simp [schedInitKernel]

/-- `sched_init` adds the idle thread to the state that has the idle process. -/
lemma schedInit_spec {a : InitAlloc} (hf : a.Fresh) {schedIdle : UInt64}
    (h : schedInit fuel s a schedIdle = some s') :
    SchedClosed { schedNew (schedInitKernel s a) a.idle (cString "idle") with
        idleProcess := a.idle.ptr } [a.idle.ptr, a.process.ptr] [a.thread] ∧
      ThreadAdded { schedNew (schedInitKernel s a) a.idle (cString "idle") with
        idleProcess := a.idle.ptr } s' a.idleThread schedIdle := by
  have hidle : a.idle.ptr ∉ [a.process.ptr] := by simpa using hf.process_idle
  obtain ⟨h₁, h₂, h₃, h₄, h₅⟩ := (schedClosed_initKernel s a).schedNew hidle (cString "idle")
  have hc : SchedClosed { schedNew (schedInitKernel s a) a.idle (cString "idle") with
      idleProcess := a.idle.ptr } [a.idle.ptr, a.process.ptr] [a.thread] := ⟨h₁, h₂, h₃, h₄, h₅⟩
  exact ⟨hc, schedNewThread_spec hc (by simpa using hf.thread.symm) (by simpa using hf.thread_idle)
    List.mem_cons_self h⟩

/-- `sched_init` establishes the invariant. -/
theorem schedInv_start {a : InitAlloc} (hf : a.Fresh) {schedIdle : UInt64}
    (h : schedInit fuel s a schedIdle = some s') : SchedInv (SchedRun.start s' a) := by
  obtain ⟨hc, hadd⟩ := schedInit_spec hf h
  refine ⟨hadd.closed hadd.newNext hc, ?_, by simp [SchedRun.start], hadd.currentThread,
    fun _ _ _ => rfl⟩
  simp [SchedRun.start, hf.thread.symm, hf.idleThread.symm]

namespace SchedInv

variable {h h' : SchedRun}

/-- What a call of `schedule` installs is the expected frame of the thread it makes current. -/
theorem schedule_frame (hinv : SchedInv h) {sf sf' : Stackframe}
    (hcall : schedule fuel inner h.sched sf = some (s', sf')) :
    sf' = Function.update h.expected h.executing sf s'.schedCurrentThread := by
  have hs := schedule_spec hinv.closed hcall
  rw [hs.frame, hs.context, hinv.executing_eq]
  by_cases heq : s'.schedCurrentThread = h.executing
  · rw [if_pos heq, heq, Function.update_self]
  · rw [if_neg heq, Function.update_of_ne heq]
    exact hinv.saved _ hs.thread_mem heq

/-- A new thread that is linked and ends its list keeps the invariant. -/
lemma addThread (hinv : SchedInv h) (hadd : LinkAdded h.sched s t)
    (h0 : (s.threads t).next = 0) (hne : t ≠ 0) :
    SchedInv { h with
      sched := s
      created := t :: h.created
      expected := Function.update h.expected t (s.threads t).context } := by
  refine ⟨hadd.closed h0 hinv.closed, ?_, List.mem_cons_of_mem _ hinv.executing_mem, ?_, ?_⟩
  · simpa [hne.symm] using hinv.created
  · exact hadd.currentThread.trans hinv.executing_eq
  · intro r hr hexec
    dsimp only at hexec ⊢
    by_cases hrt : r = t
    · rw [hrt, Function.update_self]
    · rw [Function.update_of_ne hrt, hadd.context r hrt]
      exact hinv.saved r ((List.mem_cons.mp hr).resolve_left hrt) hexec

/-- Every call keeps the invariant. -/
theorem step {op : SchedOp} (hinv : SchedInv h) (hstep : SchedStep h op h') : SchedInv h' := by
  cases hstep with
  | new hne hfresh =>
    exact ⟨hinv.closed.schedNew hfresh _, hinv.created, hinv.executing_mem, hinv.executing_eq,
      hinv.saved⟩
  | newThread hne hfresh hproc hcall =>
    have hadd := schedNewThread_spec hinv.closed hinv.created hfresh hproc hcall
    exact hinv.addThread hadd.toLinkAdded hadd.newNext hne
  | schedule hcall =>
    have hs := schedule_spec hinv.closed hcall
    refine ⟨hs.closed, hinv.created, hs.thread_mem, rfl, fun t ht hexec => ?_⟩
    dsimp only at hexec ⊢
    rw [hs.context, hinv.executing_eq]
    by_cases heq : t = h.executing
    · rw [if_pos heq, heq, Function.update_self]
    · rw [if_neg heq, Function.update_of_ne heq]
      exact hinv.saved t ht heq

/-- Every state of a run satisfies the invariant. -/
theorem of_trace {a : InitAlloc} (hf : a.Fresh) {schedIdle : UInt64}
    (hinit : schedInit fuel s a schedIdle = some s') {ops : List SchedOp}
    (htrace : Trace SchedStep (SchedRun.start s' a) ops h) : SchedInv h :=
  htrace.invariant _ (schedInv_start hf hinit) fun _ _ _ hinv hstep => hinv.step hstep

end SchedInv

/-! ### A start with given addresses -/

/-- A frame of zeros. -/
def zeroFrame : Stackframe := ⟨0, 0, 0, 0, 0, 0, 0, 0, 0, 0, 0, 0, 0, 0, 0, 0, 0, 0, 0, 0, 0, 0⟩

/-- The scheduler before `sched_init`, over memory that holds zeros. -/
def zeroSched : Sched :=
  ⟨fun _ => ⟨[], 0, 0, 0⟩, fun _ => ⟨0, zeroFrame, .ready, [], 0, 0⟩, 0, 0, 0, 0, 0, 0⟩

/-- Addresses for the records that `sched_init` allocates. -/
def bootAlloc : InitAlloc where
  process := ⟨0x1000, ⟨[], 0, 0, 0⟩⟩
  thread := 0x2000
  threadJunk := ⟨0, zeroFrame, .ready, [], 0, 0⟩
  idle := ⟨0x3000, ⟨[], 0, 0, 0⟩⟩
  idleThread := ⟨0x4000, ⟨0, zeroFrame, .ready, [], 0, 0⟩, 0x5000⟩

lemma bootAlloc_fresh : bootAlloc.Fresh := by
  constructor <;> decide

/-- The state that `sched_init` leaves for these addresses, with `sched_idle` at `0x9000`. -/
def bootSched : Sched := (schedInit 2 zeroSched bootAlloc 0x9000).getD zeroSched

lemma bootSched_eq : schedInit 2 zeroSched bootAlloc 0x9000 = some bootSched := rfl

/-! ### The main result -/

/-- In every run, a call of `schedule` installs a thread with exactly the frame with which that
thread was last preempted, which is the interrupted frame itself if it goes on with the same thread,
or with the context the thread was created with if it has not run yet.  The call changes the saved
context of no thread but the one that was executing. -/
theorem context_switch_exact {s₀ s : Sched} {a : InitAlloc} (hf : a.Fresh) {fuel₀ : ℕ} {schedIdle : UInt64}
    (hinit : schedInit fuel₀ s₀ a schedIdle = some s) {ops : List SchedOp} {h : SchedRun}
    (htrace : Trace SchedStep (SchedRun.start s a) ops h) {fuel inner : ℕ} {sf sf' : Stackframe}
    {s' : Sched} (hcall : schedule fuel inner h.sched sf = some (s', sf')) :
    s'.schedCurrentThread ∈ h.created ∧
      sf' = Function.update h.expected h.executing sf s'.schedCurrentThread ∧
      ∀ t, t ≠ h.executing → (s'.threads t).context = (h.sched.threads t).context := by
  have hinv := SchedInv.of_trace hf hinit htrace
  have hs := schedule_spec hinv.closed hcall
  refine ⟨hs.thread_mem, hinv.schedule_frame hcall, fun t ht => ?_⟩
  rw [hs.context t, hinv.executing_eq, if_neg ht]

/-- The result of the first tick. -/
def tickedSched : Sched × Stackframe :=
  (schedule 2 2 bootSched zeroFrame).getD (bootSched, zeroFrame)

lemma tickedSched_eq : schedule 2 2 bootSched zeroFrame = some tickedSched := rfl

/-- The frame of a thread that is interrupted at this address. -/
def interruptedAt (rip : UInt64) : Stackframe := { zeroFrame with rip := rip }

/-- The first tick interrupts the kernel's thread at `0x7000`, the second one, in the idle thread,
resumes it there. -/
theorem context_switch_exact_resumed :
    ∃ h r,
      Trace SchedStep (SchedRun.start bootSched bootAlloc) [.schedule (interruptedAt 0x7000)] h ∧
      h.executing = 0x4000 ∧ schedule 2 2 h.sched (interruptedAt 0x9000) = some r ∧
      r.1.schedCurrentThread = 0x2000 ∧ r.2 = interruptedAt 0x7000 := by
  obtain ⟨r₁, hr₁, hidle⟩ : ∃ r, schedule 2 2 bootSched (interruptedAt 0x7000) = some r ∧
      r.1.schedCurrentThread = 0x4000 := ⟨_, rfl, rfl⟩
  have htrace : Trace SchedStep (SchedRun.start bootSched bootAlloc)
      [.schedule (interruptedAt 0x7000)] _ := .single (.schedule hr₁)
  obtain ⟨r₂, hr₂, hkernel⟩ : ∃ r, schedule 2 2 r₁.1 (interruptedAt 0x9000) = some r ∧
      r.1.schedCurrentThread = 0x2000 := by
    obtain rfl := Option.some.inj hr₁
    exact ⟨_, rfl, rfl⟩
  refine ⟨_, r₂, htrace, hidle, hr₂, hkernel, ?_⟩
  have hexact := (context_switch_exact bootAlloc_fresh bootSched_eq htrace hr₂).2.1
  dsimp only at hexact
  rw [hexact, hkernel, hidle, Function.update_of_ne (by decide)]
  exact Function.update_self _ _ _

end Soaplin

import Soaplin.Runtime
import Soaplin.Foundation.Word64

/-!
# The scheduler

The model of `arch/x86_64/sched.c`.  Process and thread records live in two maps from pointers to
records; a pointer is a natural number and `0` is `NULL`.  What `pmm_alloc` returns is an argument
of the functions that allocate, together with the contents that the memory happens to have, so every
field that the source leaves uninitialised is arbitrary.  Loops over `next` pointers take a bound on
their number of iterations and return `none` when it is reached.  The calls of `logln` are left out.
-/

namespace Soaplin

open Word64

/-- A pointer; `0` is `NULL`. -/
abbrev Ptr := ℕ

/-- `stackframe`. -/
structure Stackframe where
  r15 : UInt64
  r14 : UInt64
  r13 : UInt64
  r12 : UInt64
  r11 : UInt64
  r10 : UInt64
  r9 : UInt64
  r8 : UInt64
  rbp : UInt64
  rdi : UInt64
  rsi : UInt64
  rdx : UInt64
  rcx : UInt64
  rbx : UInt64
  rax : UInt64
  vector : UInt64
  err : UInt64
  rip : UInt64
  cs : UInt64
  rflags : UInt64
  rsp : UInt64
  ss : UInt64
deriving DecidableEq

/-- `sched_status`, with the other values that an uninitialised field may have. -/
inductive SchedStatus
  | ready
  | running
  | dead
  | other (raw : ℕ)
deriving DecidableEq

/-- `sched_thread`. -/
structure SchedThread where
  tid : ℕ
  context : Stackframe
  status : SchedStatus
  name : List UInt8
  parent : Ptr
  next : Ptr

/-- `sched_process`. -/
structure SchedProcess where
  name : List UInt8
  pid : ℤ
  threads : Ptr
  next : Ptr

/-- The global variables of the scheduler and the records they lead to. -/
structure Sched where
  procs : Ptr → SchedProcess
  threads : Ptr → SchedThread
  schedProcessesList : Ptr
  schedCurrentProcess : Ptr
  schedCurrentThread : Ptr
  idleProcess : Ptr
  nextFreePid : ℕ
  nextThreadId : ℕ

/-- Assigning the record at `p`. -/
def Sched.setProc (s : Sched) (p : Ptr) (r : SchedProcess) : Sched :=
  { s with procs := Function.update s.procs p r }

/-- Assigning the record at `t`. -/
def Sched.setThread (s : Sched) (t : Ptr) (r : SchedThread) : Sched :=
  { s with threads := Function.update s.threads t r }

@[simp] lemma Sched.setProc_procs (s : Sched) (p : Ptr) (r : SchedProcess) :
    (s.setProc p r).procs = Function.update s.procs p r := rfl

@[simp] lemma Sched.setProc_threads (s : Sched) (p : Ptr) (r : SchedProcess) :
    (s.setProc p r).threads = s.threads := rfl

@[simp] lemma Sched.setProc_schedCurrentProcess (s : Sched) (p : Ptr) (r : SchedProcess) :
    (s.setProc p r).schedCurrentProcess = s.schedCurrentProcess := rfl

@[simp] lemma Sched.setThread_procs (s : Sched) (t : Ptr) (r : SchedThread) :
    (s.setThread t r).procs = s.procs := rfl

@[simp] lemma Sched.setThread_threads (s : Sched) (t : Ptr) (r : SchedThread) :
    (s.setThread t r).threads = Function.update s.threads t r := rfl

/-- The result of `pmm_alloc(sizeof(sched_process))`: the pointer and what the memory holds. -/
structure ProcessAlloc where
  ptr : Ptr
  junk : SchedProcess

/-- The results of the two allocations of `sched_new_thread`: the record, with what its memory
holds, and the stack. -/
structure ThreadAlloc where
  ptr : Ptr
  junk : SchedThread
  stack : Ptr

/-- The conversion of `next_free_pid` to `int`. -/
def toInt32 (n : ℕ) : ℤ :=
  if n % 2 ^ 32 < 2 ^ 31 then (n % 2 ^ 32 : ℕ) else (n % 2 ^ 32 : ℕ) - 2 ^ 32

/-- `sched_alloc_stack`, when `pmm_alloc(4096)` returns `stack`. -/
def schedAllocStack (stack : Ptr) : UInt64 := .ofNat stack + 4095

/-- The first `len >= 100 ? 100 : len` bytes of `name` copied to a name field. -/
def copyName (field name : List UInt8) : List UInt8 :=
  copyBytes field name (if strlen name ≥ 100 then 100 else strlen name)

/-- The assignments of `sched_new_thread` to the context of the new thread. -/
def newContext (c : Stackframe) (stack : Ptr) (function : UInt64) : Stackframe :=
  { c with
    ss := 0x10
    rsp := schedAllocStack stack
    rflags := 0x202
    cs := 0x08
    rip := function
    rbp := 0 }

/-- The loop of `sched_new_thread` that links `thread` behind the last thread from `scan` on. -/
def appendThread (s : Sched) (thread : Ptr) : ℕ → Ptr → Option Sched
  | 0, _ => none
  | fuel + 1, scan =>
    if scan = 0 then some s
    else if (s.threads scan).next ≠ 0 then appendThread s thread fuel (s.threads scan).next
    else some (s.setThread scan { s.threads scan with next := thread })

/-- `sched_new_thread`. -/
def schedNewThread (fuel : ℕ) (s : Sched) (a : ThreadAlloc) (proc : Ptr) (name : List UInt8)
    (function : UInt64) : Option Sched :=
  let thread := a.ptr
  let s := s.setThread thread a.junk
  let linked :=
    if (s.procs proc).threads = 0 then
      some (s.setProc proc { s.procs proc with threads := thread })
    else appendThread s thread fuel (s.procs proc).threads
  linked.map fun s =>
    let r := s.threads thread
    { s.setThread thread
        { r with
          name := copyName r.name name
          parent := proc
          tid := s.nextThreadId
          status := .ready
          next := 0
          context := newContext r.context a.stack function } with
      nextThreadId := wadd s.nextThreadId 1 }

/-- `sched_new`; its result is the pointer of the allocation. -/
def schedNew (s : Sched) (a : ProcessAlloc) (name : List UInt8) : Sched :=
  let process := a.ptr
  let r := a.junk
  let s := { s.setProc process
      { r with name := copyName r.name name, pid := toInt32 s.nextFreePid, threads := 0, next := 0 }
    with nextFreePid := wadd s.nextFreePid 1 }
  s.setProc s.schedCurrentProcess { s.procs s.schedCurrentProcess with next := process }

/-- The allocations of `sched_init`: the process and the thread that are running already, and the
idle process with its thread. -/
structure InitAlloc where
  process : ProcessAlloc
  thread : Ptr
  threadJunk : SchedThread
  idle : ProcessAlloc
  idleThread : ThreadAlloc

/-- The first part of `sched_init`: records for the process and the thread that are running. -/
def schedInitKernel (s : Sched) (a : InitAlloc) : Sched :=
  let kernel := cString "kernel"
  let process := a.process.ptr
  let s := { s.setProc process
      { a.process.junk with
        name := copyBytes a.process.junk.name kernel (strlen kernel), pid := -1, next := 0 }
    with schedCurrentProcess := process, schedProcessesList := process }
  let thread := a.thread
  let s := { s.setThread thread
      { a.threadJunk with
        name := copyBytes a.threadJunk.name kernel (strlen kernel), tid := 2 ^ 64 - 1, next := 0 }
    with schedCurrentThread := thread }
  s.setProc process { s.procs process with threads := thread }

/-- `sched_init`, when `sched_idle` is at the address `schedIdle`. -/
def schedInit (fuel : ℕ) (s : Sched) (a : InitAlloc) (schedIdle : UInt64) : Option Sched :=
  let s := schedInitKernel s a
  let s := { schedNew s a.idle (cString "idle") with idleProcess := a.idle.ptr }
  schedNewThread fuel s a.idleThread s.idleProcess (cString "idle") schedIdle

/-! ### Choosing the next thread -/

/-- The inner loop of `schedule`: the first thread from `t` on that is not `DEAD`, or `NULL`. -/
def scanThreads (s : Sched) : ℕ → Ptr → Option Ptr
  | 0, _ => none
  | fuel + 1, t =>
    if t = 0 then some 0
    else if (s.threads t).status = .dead then scanThreads s fuel (s.threads t).next
    else some t

/-- The process after the current one; the list starts again at its end. -/
def nextProcess (s : Sched) : Ptr :=
  if (s.procs s.schedCurrentProcess).next ≠ 0 then (s.procs s.schedCurrentProcess).next
  else s.schedProcessesList

/-- The outer loop of `schedule`.  The second bound is on the iterations of each inner loop. -/
def chooseThread : ℕ → ℕ → Sched → Option Sched
  | 0, _, _ => none
  | fuel + 1, inner, s =>
    let s := { s with schedCurrentProcess := nextProcess s }
    match scanThreads s inner (s.procs s.schedCurrentProcess).threads with
    | none => none
    | some t =>
      if t ≠ 0 then
        some { s.setThread t { s.threads t with status := .running } with schedCurrentThread := t }
      else chooseThread fuel inner { s with schedCurrentThread := 0 }

/-- The first two statements of `schedule`: the interrupted frame is saved. -/
def saveContext (s : Sched) (sf : Stackframe) : Sched :=
  s.setThread s.schedCurrentThread
    { s.threads s.schedCurrentThread with context := sf, status := .ready }

/-- `schedule`: the new state and the frame that is written back to `sf`. -/
def schedule (fuel inner : ℕ) (s : Sched) (sf : Stackframe) : Option (Sched × Stackframe) :=
  (chooseThread fuel inner (saveContext s sf)).map fun s =>
    (s, (s.threads s.schedCurrentThread).context)

end Soaplin

import Soaplin.Sched.ContextSwitch

/-!
# `sched_new` and `sched_new_thread`, store by store

Both calls make their stores one after the other, and the timer may come between any two of them.
Here the stores are steps of their own.  `execStores_newThreadStores` and `foldl_newProcessStores`
say that the stores in a row are the calls.
-/

namespace Soaplin

open Word64

/-! ### The stores of `sched_new_thread` -/

/-- The stores of `sched_new_thread`. -/
inductive ThreadStore
  | link
  | name
  | parent
  | tid
  | nextThreadId
  | status
  | next
  | ss
  | rsp
  | rflags
  | cs
  | rip
  | rbp
deriving DecidableEq

/-- The stores in source order. -/
def newThreadStores : List ThreadStore :=
  [.link, .name, .parent, .tid, .nextThreadId, .status, .next, .ss, .rsp, .rflags, .cs, .rip, .rbp]

/-- The arguments of a call of `sched_new_thread`, and what its allocations return. -/
structure NewThreadCall where
  alloc : ThreadAlloc
  proc : Ptr
  name : List UInt8
  function : UInt64

/-- The link to the new thread: from its process, or from the last thread of the list. -/
def linkThread (fuel : ℕ) (s : Sched) (proc thread : Ptr) : Option Sched :=
  if (s.procs proc).threads = 0 then some (s.setProc proc { s.procs proc with threads := thread })
  else appendThread s thread fuel (s.procs proc).threads

/-- Assigning fields of the record at `t`. -/
def Sched.modifyThread (s : Sched) (t : Ptr) (f : SchedThread → SchedThread) : Sched :=
  s.setThread t (f (s.threads t))

/-- Assigning fields of the context of the thread at `t`. -/
def Sched.modifyContext (s : Sched) (t : Ptr) (f : Stackframe → Stackframe) : Sched :=
  s.modifyThread t fun r => { r with context := f r.context }

/-- One store of the call `c`. -/
def ThreadStore.exec (fuel : ℕ) (c : NewThreadCall) (s : Sched) : ThreadStore → Option Sched
  | .link => linkThread fuel s c.proc c.alloc.ptr
  | .name => some (s.modifyThread c.alloc.ptr fun r => { r with name := copyName r.name c.name })
  | .parent => some (s.modifyThread c.alloc.ptr fun r => { r with parent := c.proc })
  | .tid => some (s.modifyThread c.alloc.ptr fun r => { r with tid := s.nextThreadId })
  | .nextThreadId => some { s with nextThreadId := wadd s.nextThreadId 1 }
  | .status => some (s.modifyThread c.alloc.ptr fun r => { r with status := .ready })
  | .next => some (s.modifyThread c.alloc.ptr fun r => { r with next := 0 })
  | .ss => some (s.modifyContext c.alloc.ptr fun f => { f with ss := 0x10 })
  | .rsp =>
    some (s.modifyContext c.alloc.ptr fun f => { f with rsp := schedAllocStack c.alloc.stack })
  | .rflags => some (s.modifyContext c.alloc.ptr fun f => { f with rflags := 0x202 })
  | .cs => some (s.modifyContext c.alloc.ptr fun f => { f with cs := 0x08 })
  | .rip => some (s.modifyContext c.alloc.ptr fun f => { f with rip := c.function })
  | .rbp => some (s.modifyContext c.alloc.ptr fun f => { f with rbp := 0 })

/-- Several stores in a row. -/
def execStores (fuel : ℕ) (c : NewThreadCall) : List ThreadStore → Sched → Option Sched
  | [], s => some s
  | st :: sts, s => (st.exec fuel c s).bind (execStores fuel c sts)

/-- The stores in a row are `sched_new_thread`. -/
theorem execStores_newThreadStores (fuel : ℕ) (c : NewThreadCall) (s : Sched) :
    execStores fuel c newThreadStores (s.setThread c.alloc.ptr c.alloc.junk) =
      schedNewThread fuel s c.alloc c.proc c.name c.function := by
  rw [schedNewThread, newThreadStores, execStores, ThreadStore.exec, linkThread]
  dsimp only
  cases hlink : (if ((s.setThread c.alloc.ptr c.alloc.junk).procs c.proc).threads = 0 then
      some ((s.setThread c.alloc.ptr c.alloc.junk).setProc c.proc
        { (s.setThread c.alloc.ptr c.alloc.junk).procs c.proc with threads := c.alloc.ptr })
    else appendThread (s.setThread c.alloc.ptr c.alloc.junk) c.alloc.ptr fuel
      ((s.setThread c.alloc.ptr c.alloc.junk).procs c.proc).threads) with
  | none => rfl
  | some u =>
    simp [execStores, ThreadStore.exec, Sched.modifyContext, Sched.modifyThread, Sched.setThread,
      newContext]

/-- What a store makes of the fields of the new record that the scheduler goes by. -/
structure ThreadStored (c : NewThreadCall) (st : ThreadStore) (r r' : SchedThread) : Prop where
  status : r'.status = if st = .status then .ready else r.status
  next : r'.next = if st = .next then 0 else r.next
  rsp : r'.context.rsp = if st = .rsp then schedAllocStack c.alloc.stack else r.context.rsp
  rip : r'.context.rip = if st = .rip then c.function else r.context.rip

variable {s s' : Sched} {c : NewThreadCall} {st : ThreadStore} {ts : List Ptr} {fuel : ℕ}

/-- A store other than the link assigns the record of the new thread, or the counter. -/
lemma ThreadStore.exec_of_ne_link (hne : st ≠ .link) (hexec : st.exec fuel c s = some s') :
    ∃ r n, s' = { s.setThread c.alloc.ptr r with nextThreadId := n } ∧
      ThreadStored c st (s.threads c.alloc.ptr) r := by
  cases st with
  | link => exact absurd rfl hne
  | nextThreadId =>
    obtain rfl := Option.some.inj hexec
    refine ⟨s.threads c.alloc.ptr, wadd s.nextThreadId 1, ?_, ⟨rfl, rfl, rfl, rfl⟩⟩
    simp [Sched.setThread]
  | _ =>
    obtain rfl := Option.some.inj hexec
    exact ⟨_, _, rfl, ⟨rfl, rfl, rfl, rfl⟩⟩

/-- The link comes first: as long as it is to come, so are all other stores. -/
lemma eq_newThreadStores {sts : List ThreadStore} (h : sts <:+ newThreadStores)
    (hlink : .link ∈ sts) : sts = newThreadStores := by
  have hall : ∀ sts ∈ newThreadStores.tails, .link ∈ sts → sts = newThreadStores := by decide
  exact hall sts ((List.mem_tails ..).mpr h) hlink

/-- After the first store the link is behind. -/
lemma link_notMem_tail {sts : List ThreadStore} (h : sts <:+ newThreadStores) :
    .link ∉ sts.tail := by
  have hall : ∀ sts ∈ newThreadStores.tails, .link ∉ sts.tail := by decide
  exact hall sts ((List.mem_tails ..).mpr h)

/-- The last store. -/
lemma eq_rbp {st : ThreadStore} (h : [st] <:+ newThreadStores) : st = .rbp := by
  have hall : ∀ sts ∈ newThreadStores.tails, ∀ st ∈ sts.head?, sts.tail = [] → st = .rbp := by
    decide
  exact hall [st] ((List.mem_tails ..).mpr h) st rfl rfl

/-- A store of the call `c`, when the timer may have come before it and `L` are the threads in the
lists.  What has been read before the store need not hold any more: the link may come from the
process or from any thread, and the identifier may be any. -/
inductive ThreadStoreMade (c : NewThreadCall) (L : Ptr → Prop) (s : Sched) :
    ThreadStore → Sched → Prop
  | first : ThreadStoreMade c L s .link
      (s.setProc c.proc { s.procs c.proc with threads := c.alloc.ptr })
  | behind {last : Ptr} (hlast : L last) : ThreadStoreMade c L s .link
      (s.setThread last { s.threads last with next := c.alloc.ptr })
  | tid {n : ℕ} :
      ThreadStoreMade c L s .tid (s.modifyThread c.alloc.ptr fun r => { r with tid := n })
  | nextThreadId {n : ℕ} : ThreadStoreMade c L s .nextThreadId { s with nextThreadId := n }
  | field {st : ThreadStore} {s' : Sched} (hst : st ≠ .link) (hexec : st.exec 0 c s = some s') :
      ThreadStoreMade c L s st s'

/-- Without a timer interrupt in the loop, the link is where the loop has come to. -/
lemma ThreadStoreMade.of_exec {ps : List Ptr} (hc : SchedClosed s ps ts) (h0 : (0 : Ptr) ∉ ts)
    (hproc : c.proc ∈ ps) (hexec : st.exec fuel c s = some s') :
    ThreadStoreMade c (· ∈ ts) s st s' := by
  by_cases hst : st = .link
  · subst hst
    rw [ThreadStore.exec, linkThread] at hexec
    split_ifs at hexec with hempty
    · obtain rfl := Option.some.inj hexec
      exact .first
    · obtain ⟨last, hlast, -, rfl⟩ := appendThread_spec hc.threadNext
        ((hc.threads _ hproc).resolve_left hempty) h0 hexec
      exact .behind hlast
  · refine .field hst ?_
    rw [← hexec]
    cases st with
    | link => exact absurd rfl hst
    | _ => rfl

/-- A store other than the link assigns the record of the new thread, or the counter, also when it
comes late. -/
lemma ThreadStoreMade.spec {L : Ptr → Prop} (hmade : ThreadStoreMade c L s st s')
    (hne : st ≠ .link) : ∃ r n, s' = { s.setThread c.alloc.ptr r with nextThreadId := n } ∧
      ThreadStored c st (s.threads c.alloc.ptr) r := by
  cases hmade with
  | first => exact absurd rfl hne
  | behind hlast => exact absurd rfl hne
  | tid => exact ⟨_, s.nextThreadId, rfl, ⟨rfl, rfl, rfl, rfl⟩⟩
  | @nextThreadId n =>
    refine ⟨s.threads c.alloc.ptr, n, ?_, ⟨rfl, rfl, rfl, rfl⟩⟩
    simp [Sched.setThread]
  | field _ hexec => exact ThreadStore.exec_of_ne_link hne hexec

/-- The only process that a store reaches is that of the new thread. -/
lemma ThreadStoreMade.procs_of_ne {L : Ptr → Prop} {p : Ptr} (hmade : ThreadStoreMade c L s st s')
    (hp : p ≠ c.proc) : s'.procs p = s.procs p := by
  by_cases hst : st = .link
  · subst hst
    cases hmade with
    | first => exact Function.update_of_ne hp _ _
    | behind => rfl
    | field hne => exact absurd rfl hne
  · obtain ⟨r, n, rfl, -⟩ := hmade.spec hst
    rfl

/-- The state `s` in the middle of the call `c`, seen from the state `u` before its link, when the
stores `sts` are still to come. -/
structure ThreadAdding (c : NewThreadCall) (sts : List ThreadStore) (u s : Sched) : Prop
    extends LinkAdded u s c.alloc.ptr where
  newNext : .next ∉ sts → (s.threads c.alloc.ptr).next = 0
  rsp : .rsp ∉ sts → (s.threads c.alloc.ptr).context.rsp = schedAllocStack c.alloc.stack
  rip : .rip ∉ sts → (s.threads c.alloc.ptr).context.rip = c.function

/-- The link is the first store. -/
lemma ThreadAdding.link {L : Ptr → Prop} {u : Sched} (hmade : ThreadStoreMade c L u .link s) :
    ThreadAdding c newThreadStores.tail u s := by
  have hnext : ThreadStore.next ∈ newThreadStores.tail := by decide
  have hrsp : ThreadStore.rsp ∈ newThreadStores.tail := by decide
  have hrip : ThreadStore.rip ∈ newThreadStores.tail := by decide
  refine ⟨?_, fun h => absurd hnext h, fun h => absurd hrsp h, fun h => absurd hrip h⟩
  cases hmade with
  | first =>
    refine ⟨rfl, rfl, rfl, fun p => ?_, fun p => ?_, fun r hr => rfl, fun r hr => .inl rfl⟩
    · by_cases hp : p = c.proc
      · subst hp; simp
      · simp [hp]
    · by_cases hp : p = c.proc
      · subst hp; simp
      · simp [hp]
  | @behind last hlast =>
    refine ⟨rfl, rfl, rfl, fun p => rfl, fun p => .inl rfl, fun r hr => ?_, fun r hr => ?_⟩
    · by_cases hrl : r = last
      · subst hrl; simp
      · simp [hrl]
    · by_cases hrl : r = last
      · subst hrl; simp
      · simp [hrl]
  | field hst => exact absurd rfl hst

/-- Each store after the link completes one field. -/
lemma ThreadAdding.field {L : Ptr → Prop} {u : Sched} {sts : List ThreadStore}
    (h : ThreadAdding c (st :: sts) u s) (hst : st ≠ .link) (hmade : ThreadStoreMade c L s st s') :
    ThreadAdding c sts u s' := by
  obtain ⟨r, n, rfl, hr⟩ := hmade.spec hst
  have hnew : (({ s.setThread c.alloc.ptr r with nextThreadId := n } : Sched).threads
      c.alloc.ptr) = r := by simp
  have hold : ∀ x, x ≠ c.alloc.ptr →
      (({ s.setThread c.alloc.ptr r with nextThreadId := n } : Sched).threads x) = s.threads x :=
    fun x hx => by simp [hx]
  refine ⟨⟨h.list, h.currentProcess, h.currentThread, h.next, h.threads, fun x hx => ?_,
    fun x hx => ?_⟩, fun hpending => ?_, fun hpending => ?_, fun hpending => ?_⟩
  · rw [hold x hx]
    exact h.context x hx
  · rw [hold x hx]
    exact h.threadNext x hx
  · rw [hnew, hr.next]
    split_ifs with heq
    · rfl
    · exact h.newNext (List.not_mem_cons_of_ne_of_not_mem (Ne.symm heq) hpending)
  · rw [hnew, hr.rsp]
    split_ifs with heq
    · rfl
    · exact h.rsp (List.not_mem_cons_of_ne_of_not_mem (Ne.symm heq) hpending)
  · rw [hnew, hr.rip]
    split_ifs with heq
    · rfl
    · exact h.rip (List.not_mem_cons_of_ne_of_not_mem (Ne.symm heq) hpending)

/-! ### The stores of `sched_new` -/

/-- The stores of `sched_new`. -/
inductive ProcessStore
  | name
  | pid
  | nextFreePid
  | threads
  | next
  | link
deriving DecidableEq

/-- The stores in source order. -/
def newProcessStores : List ProcessStore := [.name, .pid, .nextFreePid, .threads, .next, .link]

/-- The link comes last. -/
lemma eq_link_iff {st : ProcessStore} {rest : List ProcessStore}
    (h : st :: rest <:+ newProcessStores) : st = .link ↔ rest = [] := by
  have hall : ∀ sts ∈ newProcessStores.tails, ∀ st ∈ sts.head?, st = .link ↔ sts.tail = [] := by
    decide
  exact hall (st :: rest) ((List.mem_tails ..).mpr h) st rfl

/-- Assigning fields of the record at `p`. -/
def Sched.modifyProc (s : Sched) (p : Ptr) (f : SchedProcess → SchedProcess) : Sched :=
  s.setProc p (f (s.procs p))

/-- One store of the call `sched_new(name)` whose allocation has returned `a`. -/
def ProcessStore.exec (a : ProcessAlloc) (name : List UInt8) (s : Sched) : ProcessStore → Sched
  | .name => s.modifyProc a.ptr fun r => { r with name := copyName r.name name }
  | .pid => s.modifyProc a.ptr fun r => { r with pid := toInt32 s.nextFreePid }
  | .nextFreePid => { s with nextFreePid := wadd s.nextFreePid 1 }
  | .threads => s.modifyProc a.ptr fun r => { r with threads := 0 }
  | .next => s.modifyProc a.ptr fun r => { r with next := 0 }
  | .link => s.modifyProc s.schedCurrentProcess fun r => { r with next := a.ptr }

/-- The stores in a row are `sched_new`. -/
theorem foldl_newProcessStores (a : ProcessAlloc) (name : List UInt8) (s : Sched) :
    newProcessStores.foldl (ProcessStore.exec a name) (s.setProc a.ptr a.junk) =
      schedNew s a name := by
  simp [newProcessStores, ProcessStore.exec, Sched.modifyProc, Sched.setProc, schedNew]

/-- What a store makes of the pointers of the new record. -/
structure ProcessStored (st : ProcessStore) (r r' : SchedProcess) : Prop where
  threads : r'.threads = if st = .threads then 0 else r.threads
  next : r'.next = if st = .next then 0 else r.next

/-- A store other than the link assigns the new record, or the counter. -/
lemma ProcessStore.exec_of_ne_link {st : ProcessStore} (hne : st ≠ .link) (a : ProcessAlloc)
    (name : List UInt8) (s : Sched) :
    ∃ r n, st.exec a name s = { s.setProc a.ptr r with nextFreePid := n } ∧
      ProcessStored st (s.procs a.ptr) r := by
  cases st with
  | link => exact absurd rfl hne
  | nextFreePid =>
    refine ⟨s.procs a.ptr, wadd s.nextFreePid 1, ?_, ⟨rfl, rfl⟩⟩
    simp [ProcessStore.exec, Sched.setProc]
  | _ => exact ⟨_, _, rfl, ⟨rfl, rfl⟩⟩

/-- A store of the call `sched_new(name)`, when the timer may have come before it and `ps` are the
processes in the list.  What has been read before the store need not hold any more: the identifier
may be any, and the link may come from any process. -/
inductive ProcessStoreMade (a : ProcessAlloc) (name : List UInt8) (ps : List Ptr) (s : Sched) :
    ProcessStore → Sched → Prop
  | link {p : Ptr} (hp : p ∈ ps) :
      ProcessStoreMade a name ps s .link (s.modifyProc p fun r => { r with next := a.ptr })
  | pid {n : ℕ} :
      ProcessStoreMade a name ps s .pid (s.modifyProc a.ptr fun r => { r with pid := toInt32 n })
  | nextFreePid {n : ℕ} : ProcessStoreMade a name ps s .nextFreePid { s with nextFreePid := n }
  | field {st : ProcessStore} (hst : st ≠ .link) :
      ProcessStoreMade a name ps s st (st.exec a name s)

/-- Without a timer interrupt before it, a store is the one that the code makes. -/
lemma ProcessStoreMade.of_exec {ps : List Ptr} (hcurrent : s.schedCurrentProcess ∈ ps)
    (a : ProcessAlloc) (name : List UInt8) (st : ProcessStore) :
    ProcessStoreMade a name ps s st (st.exec a name s) := by
  by_cases hst : st = .link
  · subst hst
    exact .link hcurrent
  · exact .field hst

/-- A store other than the link assigns the new record, or the counter, also when it comes late. -/
lemma ProcessStoreMade.spec {a : ProcessAlloc} {name : List UInt8} {ps : List Ptr}
    {st : ProcessStore} (hmade : ProcessStoreMade a name ps s st s') (hne : st ≠ .link) :
    ∃ r n, s' = { s.setProc a.ptr r with nextFreePid := n } ∧
      ProcessStored st (s.procs a.ptr) r := by
  cases hmade with
  | link hp => exact absurd rfl hne
  | pid => exact ⟨_, s.nextFreePid, rfl, ⟨rfl, rfl⟩⟩
  | @nextFreePid n =>
    refine ⟨s.procs a.ptr, n, ?_, ⟨rfl, rfl⟩⟩
    simp [Sched.setProc]
  | field => exact ProcessStore.exec_of_ne_link hne a name s

/-- The link leads from a process to the new one. -/
lemma ProcessStoreMade.link_spec {a : ProcessAlloc} {name : List UInt8} {ps : List Ptr}
    (hmade : ProcessStoreMade a name ps s .link s') :
    ∃ p ∈ ps, s' = s.modifyProc p fun r => { r with next := a.ptr } := by
  cases hmade with
  | link hp => exact ⟨_, hp, rfl⟩
  | field hst => exact absurd rfl hst

/-! ### The invariant under the stores -/

namespace SchedInv

variable {h : SchedRun} {t p q : Ptr}

/-- Assigning the record of a thread that has not been created keeps the invariant. -/
lemma setThread (hinv : SchedInv h) (ht : t ∉ h.created) (r : SchedThread) :
    SchedInv { h with sched := h.sched.setThread t r } := by
  have hsame : ∀ x ∈ h.created, (h.sched.setThread t r).threads x = h.sched.threads x :=
    fun x hx => Function.update_of_ne (ne_of_mem_of_not_mem hx ht) _ _
  refine ⟨⟨hinv.closed.list, hinv.closed.current, hinv.closed.next, hinv.closed.threads,
    fun x hx => ?_⟩, hinv.created, hinv.executing_mem, hinv.executing_eq, fun x hx hexec => ?_⟩
  · rw [hsame x hx]
    exact hinv.closed.threadNext x hx
  · dsimp only
    rw [hsame x hx]
    exact hinv.saved x hx hexec

/-- Assigning the record of a process that has not been created keeps the invariant. -/
lemma setProc (hinv : SchedInv h) (hp : p ∉ h.processes) (r : SchedProcess) (n : ℕ) :
    SchedInv { h with sched := { h.sched.setProc p r with nextFreePid := n } } := by
  have hsame : ∀ x ∈ h.processes, (h.sched.setProc p r).procs x = h.sched.procs x :=
    fun x hx => Function.update_of_ne (ne_of_mem_of_not_mem hx hp) _ _
  refine ⟨⟨hinv.closed.list, hinv.closed.current, fun x hx => ?_, fun x hx => ?_,
    hinv.closed.threadNext⟩, hinv.created, hinv.executing_mem, hinv.executing_eq, hinv.saved⟩
  · dsimp only
    rw [hsame x hx]
    exact hinv.closed.next x hx
  · dsimp only
    rw [hsame x hx]
    exact hinv.closed.threads x hx

/-- Linking a process without threads behind a process keeps the invariant. -/
lemma linkProcess (hinv : SchedInv h) (hp : p ∉ h.processes)
    (hthreads : (h.sched.procs p).threads = 0) (hnext : (h.sched.procs p).next = 0)
    (hq : q ∈ h.processes) :
    SchedInv { h with
      sched := h.sched.modifyProc q fun r => { r with next := p }
      processes := p :: h.processes } := by
  have hne : p ≠ q := fun heq => hp (heq ▸ hq)
  refine ⟨⟨List.mem_cons_of_mem _ hinv.closed.list, List.mem_cons_of_mem _ hinv.closed.current,
    fun x hx => ?_, fun x hx => ?_, hinv.closed.threadNext⟩, hinv.created, hinv.executing_mem,
    hinv.executing_eq, hinv.saved⟩
  · by_cases hxq : x = q
    · subst hxq
      simp [Sched.modifyProc]
    · rcases List.mem_cons.mp hx with rfl | hx
      · simp [Sched.modifyProc, hne, hnext]
      · simpa [Sched.modifyProc, hxq] using
          (hinv.closed.next x hx).imp_right (List.mem_cons_of_mem p)
  · by_cases hxq : x = q
    · subst hxq
      simpa [Sched.modifyProc] using hinv.closed.threads x hq
    · rcases List.mem_cons.mp hx with rfl | hx
      · simp [Sched.modifyProc, hne, hthreads]
      · simpa [Sched.modifyProc, hxq] using hinv.closed.threads x hx

end SchedInv

/-! ### A call -/

/-- What the memory of a new record may hold. -/
def staleThread : SchedThread := ⟨0, { zeroFrame with rip := 0xbad }, .ready, [], 0, 0⟩

/-- A call that creates a second thread in the kernel's process. -/
def kernelCall : NewThreadCall := ⟨⟨0x6000, staleThread, 0x7000⟩, 0x1000, cString "worker", 0xa000⟩

end Soaplin

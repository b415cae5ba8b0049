import Soaplin.Sched.ThreadLists

/-!
# The lists of processes and threads along a run

`sched_new`, `sched_new_thread` and `schedule` in any order.  `ListsInv` describes the process list,
which `sched_new` may cut, and the thread list of every process created so far, whether it is still
in the process list or not; it says nothing about the statuses of the threads.
-/

namespace Soaplin

open Word64 LinkedChain

/-- The lists, for the processes `ps` and threads `ts` created so far: the process list is `l`, and
the process `p` has the thread list `tl p`. -/
structure ListsInv (s : Sched) (ps ts l : List Ptr) (tl : Ptr → List Ptr) : Prop where
  procs : Chain (processNext s) s.schedProcessesList l
  subset : l ⊆ ps
  threads : ∀ p ∈ ps, Chain (threadNext s) (s.procs p).threads (tl p)
  created : ∀ p ∈ ps, tl p ⊆ ts
  disjoint : ∀ p ∈ ps, ∀ q ∈ ps, p ≠ q → List.Disjoint (tl p) (tl q)
  current : s.schedCurrentProcess ∈ l
  currentThread : s.schedCurrentThread ∈ tl s.schedCurrentProcess

variable {s s' : Sched} {ps ts l : List Ptr} {tl : Ptr → List Ptr} {fuel inner : ℕ}

namespace ListsInv

/-- The lists of the processes in the process list. -/
lemma lists (hinv : ListsInv s ps ts l tl) : SchedLists s l tl :=
  ⟨hinv.procs, fun p hp => hinv.threads p (hinv.subset hp),
    fun p hp q hq => hinv.disjoint p (hinv.subset hp) q (hinv.subset hq), hinv.current,
    hinv.currentThread⟩

/-- The current thread is one of the threads created. -/
lemma currentThread_mem (hinv : ListsInv s ps ts l tl) : s.schedCurrentThread ∈ ts :=
  hinv.created _ (hinv.subset hinv.current) hinv.currentThread

/-! ### `schedule` -/

/-- A call of `schedule` keeps the lists. -/
theorem schedule (hinv : ListsInv s ps ts l tl) {sf : Stackframe} {r : Sched × Stackframe}
    (h : Soaplin.schedule fuel inner s sf = some r) : ListsInv r.1 ps ts l tl := by
  have hm := movedOn_of_schedule hinv.lists h
  refine ⟨hm.lists.procs, hinv.subset, fun p hp => ?_, hinv.created, hinv.disjoint,
    hm.lists.current, hm.lists.currentThread⟩
  -- the links and the heads of all lists are as before
  have hchain := hinv.threads p hp
  rw [hm.chosen, threadNext_chosenState]
  exact hchain

/-! ### `sched_new` -/

/-- A call of `sched_new` replaces what is behind the current process by the new process, which has
no threads. -/
theorem new (hinv : ListsInv s ps ts l tl) {a : ProcessAlloc} (hne : a.ptr ≠ 0)
    (hfresh : a.ptr ∉ ps) (name : List UInt8) :
    ∃ l', ListsInv (schedNew s a name) (a.ptr :: ps) ts l' (Function.update tl a.ptr []) := by
  obtain ⟨l₁, l₂, rfl⟩ := List.append_of_mem hinv.current
  have hcur : a.ptr ≠ s.schedCurrentProcess := fun heq =>
    hfresh (heq ▸ hinv.subset hinv.current)
  have hother : ∀ p ∈ ps, p ≠ a.ptr := by
    rintro p hp rfl
    exact hfresh hp
  have hold : ∀ p ∈ ps, Function.update tl a.ptr [] p = tl p := fun p hp =>
    Function.update_of_ne (hother p hp) _ _
  have hmem : ∀ p ∈ a.ptr :: ps, p = a.ptr ∨ p ∈ ps := fun p hp => List.mem_cons.mp hp
  refine ⟨l₁ ++ s.schedCurrentProcess :: [a.ptr], ?_⟩
  constructor
  · exact chain_schedNew hinv.procs hne hcur (fun hmem => hfresh (hinv.subset hmem)) name
  · intro p hp
    rcases List.mem_append.mp hp with hp | hp
    · exact List.mem_cons_of_mem _ (hinv.subset (List.mem_append_left _ hp))
    · rcases List.mem_cons.mp hp with rfl | hp
      · exact List.mem_cons_of_mem _ (hinv.subset hinv.current)
      · exact List.mem_singleton.mp hp ▸ List.mem_cons_self
  · intro p hp
    rw [schedNew_threads hcur]
    rcases hmem p hp with rfl | hp
    · rw [if_pos rfl, Function.update_self]
      rfl
    · rw [if_neg (hother p hp), hold p hp]
      exact hinv.threads p hp
  · intro p hp
    rcases hmem p hp with rfl | hp
    · rw [Function.update_self]
      exact List.nil_subset _
    · rw [hold p hp]
      exact hinv.created p hp
  · intro p hp q hq hpq
    rcases hmem p hp with rfl | hp
    · rw [Function.update_self]
      exact List.disjoint_nil_left _
    · rcases hmem q hq with rfl | hq
      · rw [Function.update_self]
        exact List.disjoint_nil_right _
      · rw [hold p hp, hold q hq]
        exact hinv.disjoint p hp q hq hpq
  · change s.schedCurrentProcess ∈ _
    simp
  · change s.schedCurrentThread ∈ Function.update tl a.ptr [] s.schedCurrentProcess
    rw [hold _ (hinv.subset hinv.current)]
    exact hinv.currentThread

end ListsInv

/-! ### `sched_new_thread` -/

/-- The loop of `sched_new_thread` links the new thread behind the last one of the list. -/
lemma appendThread_chain {thread scan last : Ptr} {xs : List Ptr}
    (h : Chain (threadNext s) scan (xs ++ [last])) (hr : appendThread s thread fuel scan = some s') :
    s' = s.setThread last { s.threads last with next := thread } := by
  induction xs generalizing scan fuel with
  | nil =>
    obtain ⟨rfl, h0, hend⟩ := h
    cases fuel with
    | zero => cases hr
    | succ fuel =>
      have hlast : (s.threads scan).next = 0 := hend
      rw [appendThread, if_neg h0, if_neg (not_not.mpr hlast)] at hr
      exact (Option.some.inj hr).symm
  | cons x xs ih =>
    obtain ⟨rfl, h0, hrest⟩ := h
    cases fuel with
    | zero => cases hr
    | succ fuel =>
      have hnext : (s.threads scan).next ≠ 0 := by
        intro hzero
        have hlen := congrArg List.length (Chain.unique hrest (chain_nil.mpr hzero))
        simp at hlen
      rw [appendThread, if_neg h0, if_pos hnext] at hr
      exact ih hrest hr

/-- The two ways in which `sched_new_thread` links the new thread into a list: as its first thread, or
behind its last one. -/
inductive LinkedLast (u : Sched) (proc thread : Ptr) : List Ptr → Sched → Prop
  | first : LinkedLast u proc thread []
      (u.setProc proc { u.procs proc with threads := thread })
  | behind (xs : List Ptr) (last : Ptr) : LinkedLast u proc thread (xs ++ [last])
      (u.setThread last { u.threads last with next := thread })

/-- The link goes one of these ways. -/
lemma linkedLast_of_link {u u' : Sched} {proc thread : Ptr} {xs : List Ptr}
    (hchain : Chain (threadNext u) (u.procs proc).threads xs)
    (hlink : (if (u.procs proc).threads = 0 then
        some (u.setProc proc { u.procs proc with threads := thread })
      else appendThread u thread fuel (u.procs proc).threads) = some u') :
    LinkedLast u proc thread xs u' := by
  rcases List.eq_nil_or_concat' xs with rfl | ⟨xs, last, rfl⟩
  · rw [if_pos (chain_nil.mp hchain)] at hlink
    obtain rfl := Option.some.inj hlink
    exact .first
  · have hhead : (u.procs proc).threads ≠ 0 := by
      intro hzero
      have hlen := congrArg List.length (hchain.unique (chain_nil.mpr hzero))
      simp at hlen
    rw [if_neg hhead] at hlink
    obtain rfl := appendThread_chain hchain hlink
    exact .behind xs last

/-- A call of `sched_new_thread` is the link and then the assignments to the new record. -/
lemma schedNewThread_cases {a : ThreadAlloc} {proc : Ptr} {xs : List Ptr} {name : List UInt8}
    {function : UInt64} (hchain : Chain (threadNext s) (s.procs proc).threads xs)
    (hfresh : a.ptr ∉ xs) (h : schedNewThread fuel s a proc name function = some s') :
    ∃ u, LinkedLast (s.setThread a.ptr a.junk) proc a.ptr xs u ∧
      s' = { u.setThread a.ptr
          { u.threads a.ptr with
            name := copyName (u.threads a.ptr).name name
            parent := proc
            tid := u.nextThreadId
            status := .ready
            next := 0
            context := newContext (u.threads a.ptr).context a.stack function } with
        nextThreadId := wadd u.nextThreadId 1 } := by
  rw [schedNewThread] at h
  dsimp only at h
  obtain ⟨u, hlink, rfl⟩ := Option.map_eq_some_iff.mp h
  refine ⟨u, linkedLast_of_link ?_ hlink, rfl⟩
  -- the record is in no list so far
  rw [threadNext_setThread]
  exact hchain.update hfresh

/-- What `sched_new_thread` does to the lists: the new thread is the last one of its process, and
`READY`; the lists of the other processes and the statuses of the other threads are as before. -/
structure ThreadLinked (s s' : Sched) (proc thread : Ptr) (xs : List Ptr) : Prop where
  processNext : processNext s' = processNext s
  list : s'.schedProcessesList = s.schedProcessesList
  currentProcess : s'.schedCurrentProcess = s.schedCurrentProcess
  currentThread : s'.schedCurrentThread = s.schedCurrentThread
  chain : Chain (threadNext s') (s'.procs proc).threads (xs ++ [thread])
  heads : ∀ p, p ≠ proc → (s'.procs p).threads = (s.procs p).threads
  links : ∀ t, t ∉ xs → t ≠ thread → threadNext s' t = threadNext s t
  ready : (s'.threads thread).status = .ready
  status : ∀ t, t ≠ thread → (s'.threads t).status = (s.threads t).status

/-- The links when the record of a new thread has been linked behind `last` and then ended. -/
lemma threadNext_behind {thread last : Ptr} {r r' r'' : SchedThread} (hlast : last ≠ thread)
    (hlink : r'.next = thread) (hend : r''.next = 0) :
    threadNext (((s.setThread thread r).setThread last r').setThread thread r'') =
      Function.update (Function.update (threadNext s) thread 0) last thread := by
  rw [threadNext_setThread, threadNext_setThread, threadNext_setThread, hlink, hend,
    Function.update_comm hlast, Function.update_idem, Function.update_comm hlast.symm]

/-- `sched_new_thread` appends the new thread to the list of its process. -/
theorem schedNewThread_linked {a : ThreadAlloc} {proc : Ptr} {xs : List Ptr} {name : List UInt8}
    {function : UInt64} (hchain : Chain (threadNext s) (s.procs proc).threads xs) (hne : a.ptr ≠ 0)
    (hfresh : a.ptr ∉ xs) (h : schedNewThread fuel s a proc name function = some s') :
    ThreadLinked s s' proc a.ptr xs := by
  obtain ⟨u, hlink, rfl⟩ := schedNewThread_cases hchain hfresh h
  cases hlink with
  | first =>
    constructor
    · exact processNext_setProc_of_eq (s := s.setThread a.ptr a.junk) rfl
    · rfl
    · rfl
    · rfl
    · refine ⟨?_, hne, ?_⟩
      · simp
      · simp [threadNext]
    · intro p hp
      simp [hp]
    · intro t _ ht
      simp [threadNext, ht]
    · simp
    · intro t ht
      simp [ht]
  | behind xs last =>
    have hlast : last ≠ a.ptr := by
      rintro rfl
      simp at hfresh
    constructor
    · rfl
    · rfl
    · rfl
    · rfl
    · have hredirect : Chain (Function.update (Function.update (threadNext s) a.ptr 0) last a.ptr)
          (s.procs proc).threads (xs ++ last :: [a.ptr]) := by
        refine Chain.redirect (hchain.update hfresh) ⟨rfl, hne, ?_⟩
        rw [Function.update_of_ne hlast.symm, Function.update_self]
        rfl
      rw [List.append_assoc]
      refine hredirect.congr fun t _ => congrFun (threadNext_behind hlast ?_ ?_) t
      · rfl
      · rfl
    · intro p _
      rfl
    · intro t hxs ht
      have htl : t ≠ last := by
        rintro rfl
        simp at hxs
      refine (congrFun (threadNext_behind hlast ?_ ?_) t).trans ?_
      · rfl
      · rfl
      · rw [Function.update_of_ne htl, Function.update_of_ne ht]
    · simp
    · intro t ht
      by_cases htl : t = last
      · subst htl
        simp [ht]
      · simp [ht, htl]

namespace ListsInv

/-- A call of `sched_new_thread` appends to one thread list, in the process list or not. -/
theorem newThread (hinv : ListsInv s ps ts l tl) {a : ThreadAlloc} {proc : Ptr}
    {name : List UInt8} {function : UInt64} (hne : a.ptr ≠ 0) (hfresh : a.ptr ∉ ts)
    (hproc : proc ∈ ps) (h : schedNewThread fuel s a proc name function = some s') :
    ListsInv s' ps (a.ptr :: ts) l (Function.update tl proc (tl proc ++ [a.ptr])) := by
  have hout : ∀ p ∈ ps, a.ptr ∉ tl p := fun p hp hmem => hfresh (hinv.created p hp hmem)
  have hl := schedNewThread_linked (hinv.threads proc hproc) hne (hout proc hproc) h
  have hcur : s.schedCurrentThread ≠ a.ptr := by
    intro heq
    exact hfresh (heq ▸ hinv.currentThread_mem)
  constructor
  · rw [hl.processNext, hl.list]
    exact hinv.procs
  · exact hinv.subset
  · intro p hp
    by_cases hpp : p = proc
    · subst hpp
      rw [Function.update_self]
      exact hl.chain
    · rw [Function.update_of_ne hpp, hl.heads p hpp]
      refine (hinv.threads p hp).congr fun t ht => hl.links t ?_ ?_
      · exact hinv.disjoint p hp proc hproc hpp ht
      · rintro rfl
        exact hout p hp ht
  · intro p hp
    by_cases hpp : p = proc
    · subst hpp
      rw [Function.update_self]
      refine List.append_subset.mpr ⟨?_, by simp⟩
      exact List.subset_cons_of_subset _ (hinv.created p hp)
    · rw [Function.update_of_ne hpp]
      exact List.subset_cons_of_subset _ (hinv.created p hp)
  · -- the new thread is in no list so far
    have hnew : ∀ p ∈ ps, p ≠ proc → List.Disjoint (tl proc ++ [a.ptr]) (tl p) := by
      intro p hp hpp
      refine List.disjoint_append_left.mpr ⟨hinv.disjoint _ hproc _ hp (Ne.symm hpp), ?_⟩
      exact List.singleton_disjoint.mpr (hout p hp)
    intro p hp q hq hpq
    by_cases hpp : p = proc
    · subst hpp
      rw [Function.update_self, Function.update_of_ne (Ne.symm hpq)]
      exact hnew q hq (Ne.symm hpq)
    · rw [Function.update_of_ne hpp]
      by_cases hqp : q = proc
      · subst hqp
        rw [Function.update_self]
        exact (hnew p hp hpp).symm
      · rw [Function.update_of_ne hqp]
        exact hinv.disjoint p hp q hq hpq
  · rw [hl.currentProcess]
    exact hinv.current
  · rw [hl.currentThread, hl.currentProcess]
    by_cases hpp : s.schedCurrentProcess = proc
    · rw [hpp, Function.update_self]
      exact List.mem_append_left _ (hpp ▸ hinv.currentThread)
    · rw [Function.update_of_ne hpp]
      exact hinv.currentThread

end ListsInv

/-! ### Runs -/

/-- The invariant for the process and the thread that are running already. -/
lemma listsInv_initKernel (s : Sched) {a : InitAlloc} (hf : a.Fresh) :
    ListsInv (schedInitKernel s a) [a.process.ptr] [a.thread] [a.process.ptr]
      fun _ => [a.thread] := by
  constructor
  · refine ⟨rfl, hf.process, ?_⟩
    simp [processNext, schedInitKernel]
  · exact List.Subset.refl _
  · intro p hp
    obtain rfl := List.mem_singleton.mp hp
    refine ⟨?_, hf.thread, ?_⟩
    · simp [schedInitKernel]
    · simp [threadNext, schedInitKernel]
  · intro p _
    exact List.Subset.refl _
  · intro p hp q hq hpq
    exact absurd ((List.mem_singleton.mp hp).trans (List.mem_singleton.mp hq).symm) hpq
  · exact List.mem_cons_self
  · exact List.mem_cons_self

/-- `sched_init` establishes the invariant, whatever the uninitialised memory holds. -/
theorem listsInv_start {a : InitAlloc} (hf : a.Fresh) {schedIdle : UInt64}
    (h : schedInit fuel s a schedIdle = some s') :
    ∃ l tl, ListsInv s' [a.idle.ptr, a.process.ptr] [a.idleThread.ptr, a.thread] l tl := by
  obtain ⟨l, hl⟩ := (listsInv_initKernel s hf).new hf.idle (by simpa using hf.process_idle)
    (cString "idle")
  have hidle : ListsInv { schedNew (schedInitKernel s a) a.idle (cString "idle") with
      idleProcess := a.idle.ptr } [a.idle.ptr, a.process.ptr] [a.thread] l _ :=
    ⟨hl.procs, hl.subset, hl.threads, hl.created, hl.disjoint, hl.current, hl.currentThread⟩
  exact ⟨l, _, hidle.newThread hf.idleThread (by simpa using hf.thread_idle) List.mem_cons_self h⟩

/-- Every call keeps the invariant. -/
theorem ListsInv.step {h h' : SchedRun} {op : SchedOp}
    (hinv : ListsInv h.sched h.processes h.created l tl) (hstep : SchedStep h op h') :
    ∃ l' tl', ListsInv h'.sched h'.processes h'.created l' tl' := by
  cases hstep with
  | new hne hfresh =>
    obtain ⟨l', hl'⟩ := hinv.new hne hfresh _
    exact ⟨l', _, hl'⟩
  | newThread hne hfresh hproc hcall => exact ⟨l, _, hinv.newThread hne hfresh hproc hcall⟩
  | schedule hcall => exact ⟨l, tl, hinv.schedule hcall⟩

end Soaplin

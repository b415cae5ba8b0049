import Soaplin.Sched.ListRuns

/-!
# Process and thread identifiers

The counters `next_free_pid` and `next_thread_id` have 64 bits, and a pid is an `int`.  The kernel's
own process has the pid `-1`, which the counter gives out as well in the end, so the pids are distinct
as long as there are at most `2 ^ 32` processes, and the thread identifiers as long as there are at
most `2 ^ 64` threads (`identifiers_exact`).  Then `syscall_getpid` tells a thread the process it has
been created in.
-/

namespace Soaplin

open Word64 LinkedChain TransitionTrace

/-- `syscall_getpid`. -/
def syscallGetpid (s : Sched) (sf : Stackframe) : Stackframe :=
  { sf with rax := .ofInt (s.procs s.schedCurrentProcess).pid }

/-! ### Numbers from a counter -/

/-- The first `n` numbers of a counter are distinct as long as it has not come round. -/
lemma nodup_map_range_iff {β : Type*} {f : ℕ → β} {w n : ℕ} (hw : 0 < w)
    (hf : ∀ i j, f i = f j ↔ i % w = j % w) : ((List.range n).map f).Nodup ↔ n ≤ w := by
  constructor
  · intro hnodup
    by_contra hlt
    have heq : f 0 = f w := (hf 0 w).mpr (by simp)
    have hinj := List.inj_on_of_nodup_map hnodup (List.mem_range.mpr (show 0 < n by omega))
      (List.mem_range.mpr (show w < n by omega)) heq
    omega
  · intro hle
    refine List.Nodup.map_on (fun i hi j hj heq => ?_) List.nodup_range
    rw [List.mem_range] at hi hj
    have hmod := (hf i j).mp heq
    rwa [Nat.mod_eq_of_lt (by omega), Nat.mod_eq_of_lt (by omega)] at hmod

/-- The conversion to `int` depends on the lower half of a number, and forgets nothing else. -/
lemma toInt32_inj {m n : ℕ} : toInt32 m = toInt32 n ↔ m % 2 ^ 32 = n % 2 ^ 32 := by
  simp only [toInt32]
  constructor
  · intro h
    split_ifs at h <;> omega
  · intro h
    rw [h]

/-- Extending a sign forgets nothing. -/
lemma ofInt_toInt32_inj {m n : ℕ} :
    UInt64.ofInt (toInt32 m) = UInt64.ofInt (toInt32 n) ↔ toInt32 m = toInt32 n := by
  refine ⟨fun h => ?_, fun h => by rw [h]⟩
  have hbound : ∀ n, -2 ^ 31 ≤ toInt32 n ∧ toInt32 n < 2 ^ 31 := by
    intro n
    simp only [toInt32]
    split_ifs <;> omega
  have hnat : ∀ x : ℤ, (UInt64.ofInt x).toNat = (x % 2 ^ 64).toNat := fun x =>
    UInt64.toNat_ofNat_of_lt' (by simp only [UInt64.size]; omega)
  have heq := congrArg UInt64.toNat h
  rw [hnat, hnat] at heq
  have hm := hbound m
  have hn := hbound n
  omega

/-! ### The numbering of a run -/

/-- The pid of the process that is the `i`-th to get its record. -/
def pidAt (i : ℕ) : ℤ := toInt32 (i + (2 ^ 32 - 1))

/-- The identifier of the thread that is the `i`-th to get its record. -/
def tidAt (i : ℕ) : ℕ := (i + (2 ^ 64 - 1)) % 2 ^ 64

lemma pidAt_zero : pidAt 0 = -1 := by decide

lemma tidAt_zero : tidAt 0 = 2 ^ 64 - 1 := by decide

lemma pidAt_inj (i j : ℕ) : pidAt i = pidAt j ↔ i % 2 ^ 32 = j % 2 ^ 32 := by
  rw [pidAt, pidAt, toInt32_inj]
  omega

lemma tidAt_inj (i j : ℕ) : tidAt i = tidAt j ↔ i % 2 ^ 64 = j % 2 ^ 64 := by
  rw [tidAt, tidAt]
  omega

/-- The invariant, when `kernel` is the thread that has been running before `sched_init` and `tl` are
the thread lists: records are numbered in their order, and a thread knows its process. -/
structure Numbered (kernel : Ptr) (s : Sched) (ps ts : List Ptr) (tl : Ptr → List Ptr) : Prop where
  pids : (ps.map fun p => (s.procs p).pid).reverse = (List.range ps.length).map pidAt
  nextPid : s.nextFreePid % 2 ^ 32 = (ps.length + (2 ^ 32 - 1)) % 2 ^ 32
  tids : (ts.map fun t => (s.threads t).tid).reverse = (List.range ts.length).map tidAt
  nextTid : s.nextThreadId = tidAt ts.length
  parent : ∀ p ∈ ps, ∀ t ∈ tl p, t ≠ kernel → (s.threads t).parent = p

variable {kernel : Ptr} {s s' : Sched} {ps ts l : List Ptr} {tl : Ptr → List Ptr} {fuel inner : ℕ}

/-- What a call of `sched_new` does to the pids. -/
lemma schedNew_pid {a : ProcessAlloc} (hne : a.ptr ≠ s.schedCurrentProcess) (name : List UInt8)
    (p : Ptr) : ((schedNew s a name).procs p).pid =
      if p = a.ptr then toInt32 s.nextFreePid else (s.procs p).pid := by
  by_cases hcur : p = s.schedCurrentProcess
  · subst hcur
    simp [schedNew, hne.symm]
  · by_cases hnew : p = a.ptr
    · subst hnew
      simp [schedNew, hcur]
    · simp [schedNew, hcur, hnew]

/-- What a call of `sched_new_thread` does to the identifiers. -/
structure ThreadNumbered (s s' : Sched) (proc thread : Ptr) : Prop where
  pid : ∀ p, (s'.procs p).pid = (s.procs p).pid
  nextPid : s'.nextFreePid = s.nextFreePid
  tid : ∀ t, (s'.threads t).tid = if t = thread then s.nextThreadId else (s.threads t).tid
  nextTid : s'.nextThreadId = wadd s.nextThreadId 1
  parent : ∀ t, (s'.threads t).parent = if t = thread then proc else (s.threads t).parent

/-- `sched_new_thread` numbers the new thread. -/
lemma schedNewThread_numbered {a : ThreadAlloc} {proc : Ptr} {xs : List Ptr} {name : List UInt8}
    {function : UInt64} (hchain : Chain (threadNext s) (s.procs proc).threads xs)
    (hfresh : a.ptr ∉ xs) (h : schedNewThread fuel s a proc name function = some s') :
    ThreadNumbered s s' proc a.ptr := by
  obtain ⟨u, hlink, rfl⟩ := schedNewThread_cases hchain hfresh h
  cases hlink with
  | first =>
    refine ⟨fun p => ?_, rfl, fun t => ?_, rfl, fun t => ?_⟩
    · by_cases hp : p = proc
      · subst hp
        simp
      · simp [hp]
    · by_cases ht : t = a.ptr
      · subst ht
        simp [Sched.setProc, Sched.setThread]
      · simp [ht]
    · by_cases ht : t = a.ptr
      · subst ht
        simp
      · simp [ht]
  | behind xs last =>
    have hlast : last ≠ a.ptr := by
      rintro rfl
      simp at hfresh
    refine ⟨fun p => rfl, rfl, fun t => ?_, rfl, fun t => ?_⟩
    · by_cases ht : t = a.ptr
      · subst ht
        simp [Sched.setThread]
      · by_cases htl : t = last
        · subst htl
          simp [ht]
        · simp [ht, htl]
    · by_cases ht : t = a.ptr
      · subst ht
        simp
      · by_cases htl : t = last
        · subst htl
          simp [ht]
        · simp [ht, htl]

/-- The numbering of a list grows by the next number. -/
lemma numbered_cons {α β : Type*} {number : ℕ → β} {f g : α → β} {x : α} {xs : List α} (hx : x ∉ xs)
    (hnew : g x = number xs.length) (hold : ∀ y, y ≠ x → g y = f y)
    (h : (xs.map f).reverse = (List.range xs.length).map number) :
    ((x :: xs).map g).reverse = (List.range (x :: xs).length).map number := by
  have hmap : xs.map g = xs.map f :=
    List.map_congr_left fun y hy => hold y fun heq => hx (heq ▸ hy)
  rw [List.map_cons, List.reverse_cons, hmap, h, hnew, List.length_cons, List.range_succ,
    List.map_append, List.map_singleton]

namespace Numbered

/-- Every pid is a number of the counter. -/
lemma pid_eq (hnum : Numbered kernel s ps ts tl) {p : Ptr} (hp : p ∈ ps) :
    ∃ i, (s.procs p).pid = pidAt i := by
  have hmem : (s.procs p).pid ∈ (ps.map fun p => (s.procs p).pid).reverse :=
    List.mem_reverse.mpr (List.mem_map_of_mem (f := fun p => (s.procs p).pid) hp)
  rw [hnum.pids] at hmem
  obtain ⟨i, -, hi⟩ := List.mem_map.mp hmem
  exact ⟨i, hi.symm⟩

/-- A call of `sched_new` numbers the new process. -/
lemma new (hnum : Numbered kernel s ps ts tl) {a : ProcessAlloc} (hfresh : a.ptr ∉ ps)
    (hne : a.ptr ≠ s.schedCurrentProcess) (name : List UInt8) :
    Numbered kernel (schedNew s a name) (a.ptr :: ps) ts (Function.update tl a.ptr []) := by
  have hpid := schedNew_pid hne name
  refine ⟨numbered_cons hfresh ?_ (fun p hp => ?_) hnum.pids, ?_, hnum.tids, hnum.nextTid, ?_⟩
  · rw [hpid, if_pos rfl, pidAt, toInt32_inj]
    exact hnum.nextPid
  · rw [hpid, if_neg hp]
  · have hnext : (schedNew s a name).nextFreePid = wadd s.nextFreePid 1 := rfl
    have hold := hnum.nextPid
    rw [hnext, wadd, modulus, List.length_cons]
    omega
  · intro p hp t ht hk
    by_cases hpa : p = a.ptr
    · subst hpa
      simp at ht
    · rw [Function.update_of_ne hpa] at ht
      exact hnum.parent p ((List.mem_cons.mp hp).resolve_left hpa) t ht hk

/-- A call of `sched_new_thread` numbers the new thread. -/
lemma newThread (hnum : Numbered kernel s ps ts tl) {proc thread : Ptr}
    (hadd : ThreadNumbered s s' proc thread) (hfresh : thread ∉ ts)
    (hcreated : ∀ p ∈ ps, tl p ⊆ ts) :
    Numbered kernel s' ps (thread :: ts) (Function.update tl proc (tl proc ++ [thread])) := by
  refine ⟨?_, ?_, numbered_cons hfresh ?_ (fun t ht => ?_) hnum.tids, ?_, fun p hp t ht hk => ?_⟩
  · simpa only [hadd.pid] using hnum.pids
  · rw [hadd.nextPid]
    exact hnum.nextPid
  · rw [hadd.tid, if_pos rfl, hnum.nextTid]
  · rw [hadd.tid, if_neg ht]
  · rw [hadd.nextTid, hnum.nextTid, wadd, modulus, tidAt, tidAt, List.length_cons]
    omega
  · rw [hadd.parent]
    by_cases hpp : p = proc
    · subst hpp
      rw [Function.update_self] at ht
      rcases List.mem_append.mp ht with ht | ht
      · have hne : t ≠ thread := fun heq => hfresh (heq ▸ hcreated p hp ht)
        rw [if_neg hne]
        exact hnum.parent p hp t ht hk
      · rw [if_pos (List.mem_singleton.mp ht)]
    · rw [Function.update_of_ne hpp] at ht
      have hne : t ≠ thread := fun heq => hfresh (heq ▸ hcreated p hp ht)
      rw [if_neg hne]
      exact hnum.parent p hp t ht hk

/-- A call of `schedule` numbers nothing. -/
lemma chosenState (hnum : Numbered kernel s ps ts tl) (sf : Stackframe) (p t : Ptr) :
    Numbered kernel (chosenState s sf p t) ps ts tl := by
  have hthread : ∀ r, ((Soaplin.chosenState s sf p t).threads r).tid = (s.threads r).tid ∧
      ((Soaplin.chosenState s sf p t).threads r).parent = (s.threads r).parent := by
    intro r
    by_cases hr : r = t
    · subst hr
      by_cases hc : r = s.schedCurrentThread
      · subst hc
        simp [Soaplin.chosenState, saveContext]
      · simp [Soaplin.chosenState, saveContext, hc]
    · by_cases hc : r = s.schedCurrentThread
      · subst hc
        simp [Soaplin.chosenState, saveContext, hr]
      · simp [Soaplin.chosenState, saveContext, hr, hc]
  refine ⟨hnum.pids, hnum.nextPid, ?_, hnum.nextTid, fun q hq r hr hk => ?_⟩
  · simpa only [fun r => (hthread r).1] using hnum.tids
  · rw [(hthread r).2]
    exact hnum.parent q hq r hr hk

/-- The numbering after `sched_init`, whose counters start at `0`. -/
lemma start {a : InitAlloc} (hf : a.Fresh) {schedIdle : UInt64} (hpid : s.nextFreePid = 0)
    (htid : s.nextThreadId = 0) (h : schedInit fuel s a schedIdle = some s') :
    ∃ l tl, ListsInv s' [a.idle.ptr, a.process.ptr] [a.idleThread.ptr, a.thread] l tl ∧
      Numbered a.thread s' [a.idle.ptr, a.process.ptr] [a.idleThread.ptr, a.thread] tl := by
  have hkernel : Numbered a.thread (schedInitKernel s a) [a.process.ptr] [a.thread]
      fun _ => [a.thread] := by
    refine ⟨?_, ?_, ?_, ?_, fun p _ t ht hk => absurd (List.mem_singleton.mp ht) hk⟩
    · simp [schedInitKernel, pidAt_zero]
    · change s.nextFreePid % 2 ^ 32 = _
      rw [hpid, List.length_singleton]
      decide
    · simp [schedInitKernel, tidAt_zero]
    · exact htid.trans (show 0 = tidAt 1 by decide)
  have hlists := listsInv_initKernel s hf
  obtain ⟨l, hl⟩ := hlists.new hf.idle (by simpa using hf.process_idle) (cString "idle")
  have hidle : ListsInv { schedNew (schedInitKernel s a) a.idle (cString "idle") with
      idleProcess := a.idle.ptr } [a.idle.ptr, a.process.ptr] [a.thread] l _ :=
    ⟨hl.procs, hl.subset, hl.threads, hl.created, hl.disjoint, hl.current, hl.currentThread⟩
  have hn := hkernel.new (a := a.idle) (by simpa using hf.process_idle) hf.process_idle
    (cString "idle")
  have hnidle : Numbered a.thread { schedNew (schedInitKernel s a) a.idle (cString "idle") with
      idleProcess := a.idle.ptr } [a.idle.ptr, a.process.ptr] [a.thread] _ :=
    ⟨hn.pids, hn.nextPid, hn.tids, hn.nextTid, hn.parent⟩
  have hout : a.idleThread.ptr ∉ [a.thread] := by simpa using hf.thread_idle
  have hmem : a.idle.ptr ∈ [a.idle.ptr, a.process.ptr] := List.mem_cons_self
  refine ⟨l, _, hidle.newThread hf.idleThread hout hmem h, hnidle.newThread ?_ hout hidle.created⟩
  exact schedNewThread_numbered (hidle.threads _ hmem) (fun ht => hout (hidle.created _ hmem ht)) h

end Numbered

/-- The numbering along a run. -/
lemma numbered_of_trace {a : InitAlloc} {s₀ : Sched} (hf : a.Fresh) {schedIdle : UInt64}
    (hpid : s₀.nextFreePid = 0) (htid : s₀.nextThreadId = 0)
    (hinit : schedInit fuel s₀ a schedIdle = some s) {ops : List SchedOp} {h : SchedRun}
    (htrace : Trace SchedStep (SchedRun.start s a) ops h) :
    ∃ l tl, ListsInv h.sched h.processes h.created l tl ∧
      Numbered a.thread h.sched h.processes h.created tl := by
  refine htrace.invariant (fun h => ∃ l tl, ListsInv h.sched h.processes h.created l tl ∧
    Numbered a.thread h.sched h.processes h.created tl) (Numbered.start hf hpid htid hinit) ?_
  rintro h op h' ⟨l, tl, hlists, hnum⟩ hstep
  cases hstep with
  | new hne hfresh =>
    obtain ⟨l', hlists'⟩ := hlists.new hne hfresh _
    refine ⟨l', _, hlists', hnum.new hfresh (fun heq => hfresh ?_) _⟩
    rw [heq]
    exact hlists.subset hlists.current
  | newThread hne hfresh hproc hcall =>
    refine ⟨l, _, hlists.newThread hne hfresh hproc hcall, ?_⟩
    refine hnum.newThread ?_ hfresh hlists.created
    exact schedNewThread_numbered (hlists.threads _ hproc)
      (fun ht => hfresh (hlists.created _ hproc ht)) hcall
  | schedule hcall =>
    refine ⟨l, tl, hlists.schedule hcall, ?_⟩
    have hchosen := (movedOn_of_schedule hlists.lists hcall).chosen
    dsimp only at hchosen ⊢
    rw [hchosen]
    exact hnum.chosenState _ _ _

/-- The current process is the one that the executing thread has been created in. -/
lemma parent_of_trace {a : InitAlloc} {s₀ : Sched} (hf : a.Fresh) {schedIdle : UInt64}
    (hpid : s₀.nextFreePid = 0) (htid : s₀.nextThreadId = 0)
    (hinit : schedInit fuel s₀ a schedIdle = some s) {ops : List SchedOp} {h : SchedRun}
    (htrace : Trace SchedStep (SchedRun.start s a) ops h) (hne : h.executing ≠ a.thread) :
    (h.sched.threads h.executing).parent = h.sched.schedCurrentProcess := by
  obtain ⟨l, tl, hlists, hnum⟩ := numbered_of_trace hf hpid htid hinit htrace
  have hexec := (SchedInv.of_trace hf hinit htrace).executing_eq
  have hcurrent : h.sched.schedCurrentProcess ∈ h.processes := hlists.subset hlists.current
  rw [← hexec] at hne ⊢
  exact hnum.parent _ hcurrent _ hlists.currentThread hne

/-! ### The main result -/

/-- What the identifiers are good for, when `kernel` is the kernel's thread. -/
structure IdentifiersExact (kernel : Ptr) (h : SchedRun) : Prop where
  /-- Pids are distinct as long as there are at most `2 ^ 32` processes. -/
  pids : (h.processes.map fun p => (h.sched.procs p).pid).Nodup ↔ h.processes.length ≤ 2 ^ 32
  /-- Thread identifiers are distinct as long as there are at most `2 ^ 64` threads. -/
  tids : (h.created.map fun t => (h.sched.threads t).tid).Nodup ↔ h.created.length ≤ 2 ^ 64
  /-- The current process is the one that the executing thread has been created in; the kernel's
  thread has no parent. -/
  parent : h.executing ≠ kernel →
    (h.sched.threads h.executing).parent = h.sched.schedCurrentProcess
  /-- With distinct pids, the result of `syscall_getpid` is the pid of this process only. -/
  getpid : h.processes.length ≤ 2 ^ 32 → ∀ sf, ∀ p ∈ h.processes,
    (syscallGetpid h.sched sf).rax = .ofInt (h.sched.procs p).pid ↔ p = h.sched.schedCurrentProcess

/-- In every state of every run the identifiers are distinct exactly as long as their counters have
not come round, and `syscall_getpid` goes by the process of the executing thread. -/
theorem identifiers_exact {a : InitAlloc} {s₀ : Sched} (hf : a.Fresh) {schedIdle : UInt64}
    (hpid : s₀.nextFreePid = 0) (htid : s₀.nextThreadId = 0)
    (hinit : schedInit fuel s₀ a schedIdle = some s) {ops : List SchedOp} {h : SchedRun}
    (htrace : Trace SchedStep (SchedRun.start s a) ops h) : IdentifiersExact a.thread h := by
  obtain ⟨l, tl, hlists, hnum⟩ := numbered_of_trace hf hpid htid hinit htrace
  have hpids : (h.processes.map fun p => (h.sched.procs p).pid).Nodup ↔
      h.processes.length ≤ 2 ^ 32 := by
    rw [← List.nodup_reverse, hnum.pids]
    exact nodup_map_range_iff (by decide) pidAt_inj
  have hcurrent : h.sched.schedCurrentProcess ∈ h.processes := hlists.subset hlists.current
  refine ⟨hpids, ?_, parent_of_trace hf hpid htid hinit htrace,
    fun hle sf p hp => ⟨fun hrax => ?_, fun heq => ?_⟩⟩
  · rw [← List.nodup_reverse, hnum.tids]
    exact nodup_map_range_iff (by decide) tidAt_inj
  · obtain ⟨i, hi⟩ := hnum.pid_eq hp
    obtain ⟨j, hj⟩ := hnum.pid_eq hcurrent
    rw [syscallGetpid, hi, hj] at hrax
    have heq := ofInt_toInt32_inj.mp hrax
    exact List.inj_on_of_nodup_map (hpids.mpr hle) hp hcurrent (hi.trans (heq.symm.trans hj.symm))
  · rw [heq, syscallGetpid]

/-- The identifiers after `sched_init` and one tick. -/
theorem identifiers_exact_tick : ∃ h, Trace SchedStep (SchedRun.start bootSched bootAlloc)
    [.schedule zeroFrame] h ∧ IdentifiersExact bootAlloc.thread h := by
  have hstep := SchedStep.schedule (h := SchedRun.start bootSched bootAlloc) tickedSched_eq
  exact ⟨_, .single hstep, identifiers_exact bootAlloc_fresh rfl rfl bootSched_eq (.single hstep)⟩

end Soaplin

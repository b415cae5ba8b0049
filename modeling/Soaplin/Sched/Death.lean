import Soaplin.Sched.ListRuns
import Soaplin.Sched.Fairness

/-!
# Threads that are `DEAD`

No function of the kernel makes a thread `DEAD`; here any statuses may be assigned between the
calls.  `schedule` terminates all the same, within one round of the process list
(`schedule_terminates`): it makes the current thread `READY` before its search, which therefore ends
at the current process at the latest.  That assignment also brings a current thread that is `DEAD`
back to life (`dead_final_iff`).
-/

namespace Soaplin

open TransitionTrace LinkedChain

/-- Every thread `t` gets the status `st t`. -/
def Sched.assignStatus (s : Sched) (st : Ptr → SchedStatus) : Sched :=
  { s with threads := fun t => { s.threads t with status := st t } }

variable {s s' : Sched} {ps ts l : List Ptr} {tl : Ptr → List Ptr} {fuel inner : ℕ}

/-- The status is not part of the lists. -/
lemma SchedLists.assignStatus (hs : SchedLists s l tl) (st : Ptr → SchedStatus) :
    SchedLists (s.assignStatus st) l tl :=
  ⟨hs.procs, hs.threads, hs.disjoint, hs.current, hs.currentThread⟩

/-- The same for the processes that are not in the list any more. -/
lemma ListsInv.assignStatus (hinv : ListsInv s ps ts l tl) (st : Ptr → SchedStatus) :
    ListsInv (s.assignStatus st) ps ts l tl :=
  ⟨hinv.procs, hinv.subset, hinv.threads, hinv.created, hinv.disjoint, hinv.current,
    hinv.currentThread⟩

/-! ### Termination -/

/-- What happens in a run: a call, or an assignment of statuses. -/
inductive StatusOp
  | call (op : SchedOp)
  | assign (st : Ptr → SchedStatus)

/-- One step of such a run. -/
inductive StatusStep : SchedRun → StatusOp → SchedRun → Prop
  | call {h h' : SchedRun} {op : SchedOp} (hstep : SchedStep h op h') : StatusStep h (.call op) h'
  | assign {h : SchedRun} (st : Ptr → SchedStatus) :
      StatusStep h (.assign st) { h with sched := h.sched.assignStatus st }

/-- Every step keeps the lists. -/
lemma ListsInv.statusStep {h h' : SchedRun} {op : StatusOp}
    (hinv : ListsInv h.sched h.processes h.created l tl) (hstep : StatusStep h op h') :
    ∃ l' tl', ListsInv h'.sched h'.processes h'.created l' tl' := by
  cases hstep with
  | call hstep => exact hinv.step hstep
  | assign st => exact ⟨l, tl, hinv.assignStatus st⟩

/-- After `sched_init`, the lists are as they should be in every state of a run. -/
theorem listsInv_of_trace {a : InitAlloc} (hf : a.Fresh) {fuel : ℕ} {schedIdle : UInt64}
    (hinit : schedInit fuel s' a schedIdle = some s) {ops : List StatusOp} {h : SchedRun}
    (htrace : Trace StatusStep (SchedRun.start s a) ops h) :
    ∃ l tl, ListsInv h.sched h.processes h.created l tl := by
  induction htrace with
  | nil => exact listsInv_start hf hinit
  | snoc _ hstep ih =>
    obtain ⟨l, tl, hinv⟩ := ih
    exact hinv.statusStep hstep

/-- In every state that `sched_init`, any calls and any assignments of statuses lead to, a call of
`schedule` returns after at most as many iterations of its outer loop as there are processes in the
list. -/
theorem schedule_terminates {s₀ s : Sched} {a : InitAlloc} (hf : a.Fresh) {fuel₀ : ℕ}
    {schedIdle : UInt64} (hinit : schedInit fuel₀ s₀ a schedIdle = some s) {ops : List StatusOp}
    {h : SchedRun} (htrace : Trace StatusStep (SchedRun.start s a) ops h) (sf : Stackframe) :
    ∃ l, Chain (processNext h.sched) h.sched.schedProcessesList l ∧
      ∃ inner r, schedule l.length inner h.sched sf = some r := by
  obtain ⟨l, tl, hinv⟩ := listsInv_of_trace hf hinit htrace
  obtain ⟨r, hr, -⟩ := schedule_moves hinv.lists sf le_rfl fun p hp => length_lt_enoughFuel hp
  exact ⟨l, hinv.procs, _, r, hr⟩

/-- The run after a tick and a call of `sched_new`, when all threads have been made `DEAD`: the idle
thread is the current one, and the new process has no threads. -/
def deadRun : SchedRun :=
  { tickedRun with
    sched := (schedNew tickedRun.sched ⟨0x6000, ⟨[], 0, 0, 0⟩⟩ (cString "Proc1")).assignStatus
      fun _ => .dead
    processes := 0x6000 :: tickedRun.processes }

/-- There a call of `schedule` returns as well. -/
theorem schedule_terminates_dead :
    ∃ l, Chain (processNext deadRun.sched) deadRun.sched.schedProcessesList l ∧
      ∃ inner r, schedule l.length inner deadRun.sched zeroFrame = some r := by
  have hnew : SchedStep _ (.new (cString "Proc1")) _ :=
    .new (h := tickedRun) (a := ⟨0x6000, ⟨[], 0, 0, 0⟩⟩) (by decide) (by decide)
  have htrace : Trace StatusStep (SchedRun.start bootSched bootAlloc)
      [.call (.schedule zeroFrame), .call (.new (cString "Proc1")), .assign fun _ => .dead]
      deadRun :=
    .snoc (.snoc (.snoc .nil (.call (.schedule tickedSched_eq))) (.call hnew)) (.assign _)
  exact schedule_terminates bootAlloc_fresh bootSched_eq htrace zeroFrame

/-! ### Death -/

/-- The result `u` of a call respects the threads that are `DEAD` in `s`: none of them is installed,
and the threads that are `DEAD` are the same. -/
structure DeadFinal (s : Sched) (u : Sched × Stackframe) : Prop where
  installs : ∀ t, Installs u t → Live s t
  status : ∀ t, Live u.1 t ↔ Live s t

/-- If the current thread is not `DEAD`, the threads that can be chosen are those that are not
`DEAD`. -/
lemma runnable_iff_live (hcur : Live s s.schedCurrentThread) {t : Ptr} :
    Runnable s t ↔ Live s t := by
  constructor
  · rintro (rfl | hlive)
    · exact hcur
    · exact hlive
  · exact .inr

/-- The thread that a call has made current is not `DEAD`. -/
lemma Keeps.live {u : Sched × Stackframe} (h : Keeps s l tl u) :
    Live u.1 u.1.schedCurrentThread := by
  rw [Live, h.running]
  exact SchedStatus.noConfusion

/-- The threads that are not `DEAD` after a call are those that could be chosen before. -/
lemma Keeps.live_iff {u : Sched × Stackframe} (h : Keeps s l tl u) (t : Ptr) :
    Live u.1 t ↔ Runnable s t :=
  (runnable_iff_live h.live).symm.trans (h.runnable t)

/-- Calls have results. -/
lemma scheduleCalls_ne_nil {sfs : List Stackframe} {r : List (Sched × Stackframe)} (hne : sfs ≠ [])
    (h : scheduleCalls fuel inner s sfs = some r) : r ≠ [] := by
  obtain ⟨sf, sfs, rfl⟩ := List.exists_cons_of_ne_nil hne
  obtain ⟨u, -, hrest⟩ := Option.bind_eq_some_iff.mp h
  obtain ⟨r, -, rfl⟩ := Option.map_eq_some_iff.mp hrest
  exact List.cons_ne_nil u r

/-- Over any sequence of calls of `schedule`, no thread that is `DEAD` at entry is ever installed
and no thread stops or begins to be `DEAD`, if and only if the current thread is not `DEAD` at
entry. -/
theorem dead_final_iff (hs : SchedLists s l tl) (hfuel : enoughFuel l tl ≤ fuel)
    (hinner : enoughFuel l tl ≤ inner) {sfs : List Stackframe} (hne : sfs ≠ []) :
    (∃ r, scheduleCalls fuel inner s sfs = some r ∧ ∀ u ∈ r, DeadFinal s u) ↔
      Live s s.schedCurrentThread := by
  obtain ⟨r, hr, hserved, hkeeps⟩ := scheduleCalls_serve_of_enoughFuel hs hfuel hinner sfs
  constructor
  · rintro ⟨r', hr', hfinal⟩
    obtain rfl := Option.some.inj (hr.symm.trans hr')
    -- after the first call the thread that was current is `READY` or `RUNNING`
    obtain ⟨u, hu⟩ := List.exists_mem_of_ne_nil r (scheduleCalls_ne_nil hne hr)
    have hlive := ((hkeeps u hu).live_iff s.schedCurrentThread).mpr (.inl rfl)
    exact ((hfinal u hu).status _).mp hlive
  · intro hcur
    refine ⟨r, hr, fun u hu => ⟨fun t ht => ?_, fun t => ?_⟩⟩
    · have hfound := (hkeeps u hu).thread
      rw [ht.1] at hfound
      exact (runnable_iff_live hcur).mp (by simpa using List.find?_some hfound)
    · exact ((hkeeps u hu).live_iff t).trans (runnable_iff_live hcur)

/-- The kernel with a second thread of its process, when this thread has been made `DEAD`. -/
def deadWorkerSched : Sched := twoThreadSched.assignStatus fun t => if t = 0x6000 then .dead else .ready

/-- The second thread stays `DEAD` and is not installed. -/
theorem dead_final_worker : ∃ r, scheduleCalls 6 6 deadWorkerSched [zeroFrame, zeroFrame] = some r ∧
    ∀ u ∈ r, DeadFinal deadWorkerSched u :=
  (dead_final_iff (twoThreadSched_lists.assignStatus _) twoThreads_fuel twoThreads_fuel
    (by decide)).mpr (by decide)

/-- The same kernel, when the thread that is running has been made `DEAD`. -/
def deadCurrentSched : Sched :=
  twoThreadSched.assignStatus fun t => if t = 0x2000 then .dead else .ready

/-- The first tick makes it `READY`, although the idle thread can run, and the second one installs
it. -/
theorem dead_not_final :
    ¬ (∃ r, scheduleCalls 6 6 deadCurrentSched [zeroFrame, zeroFrame] = some r ∧
      ∀ u ∈ r, DeadFinal deadCurrentSched u) ∧
    ∃ u₁ u₂, scheduleCalls 6 6 deadCurrentSched [zeroFrame, zeroFrame] = some [u₁, u₂] ∧
      ¬ Live deadCurrentSched 0x2000 ∧ Live u₁.1 0x2000 ∧ Installs u₂ 0x2000 := by
  have hrun : ∃ u₁ u₂, scheduleCalls 6 6 deadCurrentSched [zeroFrame, zeroFrame] = some [u₁, u₂] ∧
      ¬ Live deadCurrentSched 0x2000 ∧ Live u₁.1 0x2000 ∧ Installs u₂ 0x2000 :=
    ⟨_, _, rfl, by decide, by decide, rfl, rfl⟩
  refine ⟨?_, hrun⟩
  rintro ⟨r, hr, hfinal⟩
  obtain ⟨u₁, u₂, hr', hdead, hlive, -⟩ := hrun
  obtain rfl := Option.some.inj (hr'.symm.trans hr)
  exact hdead (((hfinal u₁ List.mem_cons_self).status _).mp hlive)

end Soaplin

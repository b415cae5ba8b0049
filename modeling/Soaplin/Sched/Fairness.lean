import Soaplin.Sched.ThreadLists

/-!
# Fairness of `schedule`

Consecutive calls of `schedule`, with no creation and no death in between, on the two-level list of
processes and threads.  Among the processes the scheduler is fair: it serves those that have a
thread to run like a queue (`process_round_robin`).  Among the threads of one process it is not: the
choice within a process is always its first runnable thread, so every live thread gets the CPU if
and only if none stands behind a runnable thread of its process (`live_threads_installed_iff`).
-/

namespace Soaplin

open LinkedChain RoundRobin

/-- Consecutive calls of `schedule` with the interrupted frames `sfs`: the state that each call
leaves, and the frame that it installs. -/
def scheduleCalls (fuel inner : ℕ) : Sched → List Stackframe → Option (List (Sched × Stackframe))
  | _, [] => some []
  | s, sf :: sfs =>
    (schedule fuel inner s sf).bind fun r => (scheduleCalls fuel inner r.1 sfs).map (r :: ·)

variable {s : Sched} {l : List Ptr} {tl : Ptr → List Ptr} {fuel inner : ℕ}

/-- The result of a call installs the thread: it is current, and its context is the frame that goes
on. -/
def Installs (u : Sched × Stackframe) (t : Ptr) : Prop :=
  u.1.schedCurrentThread = t ∧ u.2 = (u.1.threads t).context

/-! ### Runs of calls -/

/-- What the result of a call has in common with the state before the calls. -/
structure Keeps (s : Sched) (l : List Ptr) (tl : Ptr → List Ptr) (u : Sched × Stackframe) :
    Prop where
  lists : SchedLists u.1 l tl
  runnable : ∀ t, Runnable u.1 t ↔ Runnable s t
  thread : (tl u.1.schedCurrentProcess).find? (fun r => Runnable s r) =
    some u.1.schedCurrentThread
  running : (u.1.threads u.1.schedCurrentThread).status = .running
  installs : Installs u u.1.schedCurrentThread

/-- A call of `schedule` installs the thread that it makes current. -/
lemma schedule_installs {sf : Stackframe} {u : Sched × Stackframe}
    (h : schedule fuel inner s sf = some u) : Installs u u.1.schedCurrentThread := by
  obtain ⟨v, -, rfl⟩ := Option.map_eq_some_iff.mp h
  exact ⟨rfl, rfl⟩

/-- Consecutive calls return, serve the run queue, and keep the lists and the runnable threads. -/
theorem scheduleCalls_serve (hs : SchedLists s l tl) (hfuel : l.length ≤ fuel)
    (hinner : ∀ p ∈ l, (tl p).length < inner) (sfs : List Stackframe) :
    ∃ r, scheduleCalls fuel inner s sfs = some r ∧
      r.map (fun u => u.1.schedCurrentProcess) = served sfs.length (runQueue s l tl) ∧
      ∀ u ∈ r, Keeps s l tl u := by
  induction sfs generalizing s with
  | nil => exact ⟨[], rfl, rfl, fun _ hu => absurd hu List.not_mem_nil⟩
  | cons sf sfs ih =>
    obtain ⟨u, hu, hm⟩ := schedule_moves hs sf hfuel hinner
    obtain ⟨r, hr, hserved, hkeeps⟩ := ih hm.lists
    obtain ⟨ps, hq, hq'⟩ := hm.queue
    have hpred : (fun r => decide (Runnable u.1 r)) = fun r => decide (Runnable s r) := by
      funext t
      exact decide_eq_decide.mpr (hm.runnable t)
    refine ⟨u :: r, ?_, ?_, ?_⟩
    · rw [scheduleCalls, hu, Option.bind_some, hr, Option.map_some]
    · rw [List.map_cons, hserved, hq', hq, List.length_cons, served]
    · intro v hv
      rcases List.mem_cons.mp hv with rfl | hv
      · exact ⟨hm.lists, hm.runnable, hm.thread, hm.running, schedule_installs hu⟩
      · obtain ⟨hlists, hrun, hthread, hrunning, hinstalls⟩ := hkeeps v hv
        rw [hpred] at hthread
        exact ⟨hlists, fun t => (hrun t).trans (hm.runnable t), hthread, hrunning, hinstalls⟩

/-- The same with this bound. -/
lemma scheduleCalls_serve_of_enoughFuel (hs : SchedLists s l tl) (hfuel : enoughFuel l tl ≤ fuel)
    (hinner : enoughFuel l tl ≤ inner) (sfs : List Stackframe) :
    ∃ r, scheduleCalls fuel inner s sfs = some r ∧
      r.map (fun u => u.1.schedCurrentProcess) = served sfs.length (runQueue s l tl) ∧
      ∀ u ∈ r, Keeps s l tl u :=
  scheduleCalls_serve hs ((length_le_enoughFuel l tl).trans hfuel)
    (fun _ hp => (length_lt_enoughFuel hp).trans_le hinner) sfs

/-! ### Processes -/

/-- The run queue holds the processes with a thread to run. -/
lemma length_runQueue (s : Sched) (l : List Ptr) (tl : Ptr → List Ptr) :
    (runQueue s l tl).length = l.countP fun p => HasRunnable s tl p := by
  rw [runQueue, RoundRobin.queue, ← List.countP_eq_length_filter]
  exact (List.rotate_perm l _).countP_eq _

/-- Round robin among the processes.  Calls of `schedule` always return.  As many consecutive calls
as there are processes with a thread to run select these processes once each, in cyclic order
starting after the current one.  However many calls there are, every one leaves a current process
that has a thread that is not `DEAD`, in a state with the same lists, in which the same processes
have a thread to run. -/
theorem process_round_robin (hs : SchedLists s l tl) (hfuel : enoughFuel l tl ≤ fuel)
    (hinner : enoughFuel l tl ≤ inner) (sfs : List Stackframe) :
    ∃ r, scheduleCalls fuel inner s sfs = some r ∧
      (sfs.length = l.countP (fun p => HasRunnable s tl p) →
        r.map (fun u => u.1.schedCurrentProcess) =
            (cyclicAfter l s.schedCurrentProcess).filter (fun p => HasRunnable s tl p) ∧
          (r.map fun u => u.1.schedCurrentProcess).Nodup) ∧
      ∀ u ∈ r, SchedLists u.1 l tl ∧ (∀ p, HasRunnable u.1 tl p ↔ HasRunnable s tl p) ∧
        ∃ t ∈ tl u.1.schedCurrentProcess, Live u.1 t := by
  obtain ⟨r, hr, hserved, hkeeps⟩ := scheduleCalls_serve_of_enoughFuel hs hfuel hinner sfs
  refine ⟨r, hr, fun hlen => ?_, fun u hu => ?_⟩
  · have hlen' : sfs.length = (runQueue s l tl).length := hlen.trans (length_runQueue s l tl).symm
    rw [hlen', served_eq_take le_rfl, List.take_length] at hserved
    exact ⟨hserved, hserved ▸ nodup_queue hs.procs.nodup⟩
  · have hk := hkeeps u hu
    refine ⟨hk.lists, fun p => ?_, u.1.schedCurrentThread, hk.lists.currentThread, ?_⟩
    · exact exists_congr fun t => and_congr_right fun _ => hk.runnable t
    · rw [Live, hk.running]
      exact SchedStatus.noConfusion

/-- The threads of the two processes after `sched_init`. -/
def bootThreads (p : Ptr) : List Ptr :=
  if p = 0x1000 then [0x2000] else if p = 0x3000 then [0x4000] else []

lemma bootSched_lists : SchedLists bootSched [0x1000, 0x3000] bootThreads := by
  refine ⟨⟨rfl, by decide, rfl, by decide, rfl⟩, ?_, ?_, by decide, by decide⟩
  · intro p hp
    fin_cases hp
    · exact ⟨rfl, by decide, rfl⟩
    · exact ⟨rfl, by decide, rfl⟩
  · intro p hp q hq hne
    fin_cases hp <;> fin_cases hq <;> simp_all [bootThreads]

lemma bootThreads_fuel : enoughFuel [0x1000, 0x3000] bootThreads ≤ 5 := by decide

/-- Two ticks after `sched_init` select the idle process and then the kernel's process. -/
theorem process_round_robin_boot :
    ∃ r, scheduleCalls 5 5 bootSched [zeroFrame, zeroFrame] = some r ∧
      r.map (fun u => u.1.schedCurrentProcess) = [0x3000, 0x1000] := by
  obtain ⟨r, hr, hround, -⟩ := process_round_robin bootSched_lists bootThreads_fuel
    bootThreads_fuel [zeroFrame, zeroFrame]
  exact ⟨r, hr, (hround (by decide)).1⟩

/-! ### Threads -/

/-- The threads of the lists that are not `DEAD`. -/
def liveThreads (s : Sched) (l : List Ptr) (tl : Ptr → List Ptr) : List Ptr :=
  (l.flatMap tl).filter fun t => Live s t

/-- The process has a thread that is not `DEAD`. -/
def HasLive (s : Sched) (tl : Ptr → List Ptr) (p : Ptr) : Prop := ∃ t ∈ tl p, Live s t

instance (s : Sched) (tl : Ptr → List Ptr) : DecidablePred (HasLive s tl) := fun _ =>
  inferInstanceAs (Decidable (∃ _ ∈ _, _))

/-- No live thread stands behind a runnable thread of its process. -/
def NoneBehind (s : Sched) (l : List Ptr) (tl : Ptr → List Ptr) : Prop :=
  ∀ p ∈ l, ∀ a t b, tl p = a ++ t :: b → Live s t → ∀ r ∈ a, ¬ Runnable s r

/-- There are at most as many processes with a live thread as there are live threads. -/
lemma countP_hasLive_le (s : Sched) (l : List Ptr) (tl : Ptr → List Ptr) :
    l.countP (fun p => HasLive s tl p) ≤ (liveThreads s l tl).length := by
  induction l with
  | nil => simp
  | cons p l ih =>
    have hsplit : (liveThreads s (p :: l) tl).length =
        ((tl p).filter fun t => Live s t).length + (liveThreads s l tl).length := by
      simp [liveThreads]
    by_cases hp : HasLive s tl p
    · rw [List.countP_cons_of_pos (by simpa using hp)]
      obtain ⟨t, ht, hlive⟩ := hp
      have hpos : 0 < ((tl p).filter fun t => Live s t).length :=
        List.length_pos_of_mem (List.mem_filter.mpr ⟨ht, decide_eq_true hlive⟩)
      omega
    · rw [List.countP_cons_of_neg (by simpa using hp)]
      omega

/-- A process with a live thread is served in as many calls as there are live threads. -/
lemma mem_served_of_hasLive (hs : SchedLists s l tl) {p : Ptr} (hp : p ∈ l)
    (hlive : HasLive s tl p) : p ∈ served (liveThreads s l tl).length (runQueue s l tl) := by
  apply mem_served_of_mem_take
  obtain ⟨b, hcyc⟩ : ∃ b, cyclicAfter l s.schedCurrentProcess = b ++ [s.schedCurrentProcess] :=
    cyclicAfter_eq_append hs.procs.nodup hs.current
  have hnodup := nodup_cyclicAfter (x := s.schedCurrentProcess) hs.procs.nodup
  rw [hcyc] at hnodup
  have hcount : b.countP (fun q => HasLive s tl q) +
      [s.schedCurrentProcess].countP (fun q => HasLive s tl q) ≤ (liveThreads s l tl).length := by
    rw [← List.countP_append, ← hcyc, cyclicAfter, (List.rotate_perm l _).countP_eq]
    exact countP_hasLive_le s l tl
  -- apart from the current process, the processes with a runnable thread have a live one
  have hiff : ∀ q ∈ b, HasRunnable s tl q ↔ HasLive s tl q := by
    intro q hq
    have hql : q ∈ l := by
      rw [← mem_cyclicAfter (x := s.schedCurrentProcess), hcyc]
      exact List.mem_append_left _ hq
    have hne : q ≠ s.schedCurrentProcess := fun heq =>
      List.disjoint_of_nodup_append hnodup hq (List.mem_singleton.mpr heq)
    constructor
    · rintro ⟨t, ht, hrun⟩
      refine ⟨t, ht, hrun.resolve_left ?_⟩
      rintro rfl
      exact hs.disjoint _ hql _ hs.current hne ht hs.currentThread
    · rintro ⟨t, ht, hl⟩
      exact ⟨t, ht, .inr hl⟩
  have hfilter : b.filter (fun q => HasRunnable s tl q) = b.filter (fun q => HasLive s tl q) :=
    List.filter_congr fun q hq => decide_eq_decide.mpr (hiff q hq)
  have hcur : HasRunnable s tl s.schedCurrentProcess := ⟨_, hs.currentThread, .inl rfl⟩
  have hqueue : runQueue s l tl = b.filter (fun q => HasLive s tl q) ++ [s.schedCurrentProcess] := by
    rw [runQueue, RoundRobin.queue, hcyc, List.filter_append, hfilter,
      List.filter_cons_of_pos (p := fun q => decide (HasRunnable s tl q)) (decide_eq_true hcur),
      List.filter_nil]
  have hmem : p ∈ b ++ [s.schedCurrentProcess] := by
    rw [← hcyc]
    exact mem_cyclicAfter.mpr hp
  rw [hqueue]
  rcases List.mem_append.mp hmem with hpb | hpc
  · have hprefix : b.filter (fun q => HasLive s tl q) <+:
        (b.filter (fun q => HasLive s tl q) ++ [s.schedCurrentProcess]).take
          (liveThreads s l tl).length := by
      refine List.prefix_take_iff.mpr ⟨List.prefix_append _ _, ?_⟩
      rw [← List.countP_eq_length_filter]
      omega
    exact hprefix.subset (List.mem_filter.mpr ⟨hpb, decide_eq_true hlive⟩)
  · obtain rfl := List.mem_singleton.mp hpc
    have hone : [s.schedCurrentProcess].countP (fun q => HasLive s tl q) = 1 := by
      simpa using hlive
    rw [List.take_of_length_le]
    · simp
    · rw [List.length_append, List.length_singleton, ← List.countP_eq_length_filter]
      omega

/-- The thread that is installed in a process is its first runnable one. -/
lemma Keeps.not_behind (hs : SchedLists s l tl) {u : Sched × Stackframe} (hk : Keeps s l tl u)
    {p : Ptr} (hp : p ∈ l) {a b : List Ptr} (htl : tl p = a ++ u.1.schedCurrentThread :: b) :
    ∀ r ∈ a, ¬ Runnable s r := by
  have hcur : u.1.schedCurrentProcess = p := by
    by_contra hne
    refine hs.disjoint _ hk.lists.current _ hp hne hk.lists.currentThread ?_
    rw [htl]
    simp
  have hnodup := (hs.threads p hp).nodup
  rw [htl] at hnodup
  intro r hr hrun
  -- the search would stop before it comes to the thread
  obtain ⟨x, hx⟩ := Option.isSome_iff_exists.mp
    (List.find?_isSome (p := fun r => decide (Runnable s r)) |>.mpr ⟨r, hr, decide_eq_true hrun⟩)
  have hthread := hk.thread
  rw [hcur, htl, List.find?_append, hx, Option.some_or] at hthread
  obtain rfl := Option.some.inj hthread
  exact List.disjoint_of_nodup_append hnodup (List.mem_of_find?_eq_some hx) List.mem_cons_self

/-- Among the threads, every live thread is installed in as many calls of `schedule` as there are
live threads if and only if none stands behind a runnable thread of its process. -/
theorem live_threads_installed_iff (hs : SchedLists s l tl) (hfuel : enoughFuel l tl ≤ fuel)
    (hinner : enoughFuel l tl ≤ inner) :
    (∀ sfs : List Stackframe, sfs.length = (liveThreads s l tl).length →
      ∃ r, scheduleCalls fuel inner s sfs = some r ∧
        ∀ t ∈ liveThreads s l tl, ∃ u ∈ r, Installs u t) ↔ NoneBehind s l tl := by
  constructor
  · intro hall p hp a t b htl hlive
    obtain ⟨r, hr, hinstalled⟩ := hall (List.replicate _ zeroFrame) List.length_replicate
    obtain ⟨r', hr', -, hkeeps⟩ := scheduleCalls_serve_of_enoughFuel hs hfuel hinner
      (List.replicate (liveThreads s l tl).length zeroFrame)
    obtain rfl := Option.some.inj (hr.symm.trans hr')
    have ht : t ∈ liveThreads s l tl := by
      refine List.mem_filter.mpr ⟨List.mem_flatMap.mpr ⟨p, hp, ?_⟩, decide_eq_true hlive⟩
      rw [htl]
      simp
    obtain ⟨u, hu, rfl, -⟩ := hinstalled t ht
    exact (hkeeps u hu).not_behind hs hp htl
  · intro hnone sfs hlen
    obtain ⟨r, hr, hserved, hkeeps⟩ := scheduleCalls_serve_of_enoughFuel hs hfuel hinner sfs
    refine ⟨r, hr, fun t ht => ?_⟩
    obtain ⟨hmem, hlive⟩ := List.mem_filter.mp ht
    obtain ⟨p, hp, htp⟩ := List.mem_flatMap.mp hmem
    have hlive : Live s t := of_decide_eq_true hlive
    -- the process is served, and the thread is its first runnable one
    have hmem_served := mem_served_of_hasLive hs hp ⟨t, htp, hlive⟩
    rw [← hlen, ← hserved] at hmem_served
    obtain ⟨u, hu, rfl⟩ := List.mem_map.mp hmem_served
    obtain ⟨a, b, htl⟩ := List.append_of_mem htp
    have hfirst : (tl u.1.schedCurrentProcess).find? (fun r => Runnable s r) = some t := by
      refine List.find?_eq_some_iff_append.mpr ⟨decide_eq_true (.inr hlive), a, b, htl, ?_⟩
      intro q hq
      simpa using hnone _ hp a t b htl hlive q hq
    have heq : u.1.schedCurrentThread = t :=
      Option.some.inj ((hkeeps u hu).thread.symm.trans hfirst)
    exact ⟨u, hu, heq ▸ (hkeeps u hu).installs⟩

/-- After `sched_init` each process has one thread, and two ticks install both. -/
theorem live_threads_installed_boot :
    ∃ r, scheduleCalls 5 5 bootSched [zeroFrame, zeroFrame] = some r ∧
      ∀ t ∈ [0x2000, 0x4000], ∃ u ∈ r, Installs u t := by
  refine (live_threads_installed_iff bootSched_lists bootThreads_fuel bootThreads_fuel).mpr ?_
    [zeroFrame, zeroFrame] rfl
  intro p hp a t b htl hlive r hr
  have hlen : (bootThreads p).length = 1 := by
    fin_cases hp <;> rfl
  have hpos := List.length_pos_of_mem hr
  rw [htl] at hlen
  simp at hlen
  omega

/-! ### A thread that never runs -/

/-- A second thread of the kernel's process, created after `sched_init`. -/
def twoThreadSched : Sched :=
  (schedNewThread 2 bootSched ⟨0x6000, ⟨0, zeroFrame, .ready, [], 0, 0⟩, 0x7000⟩ 0x1000
    (cString "worker") 0xa000).getD bootSched

/-- The threads of the two processes with the second thread. -/
def twoThreads (p : Ptr) : List Ptr :=
  if p = 0x1000 then [0x2000, 0x6000] else if p = 0x3000 then [0x4000] else []

lemma twoThreadSched_lists : SchedLists twoThreadSched [0x1000, 0x3000] twoThreads := by
  refine ⟨⟨rfl, by decide, rfl, by decide, rfl⟩, ?_, ?_, by decide, by decide⟩
  · intro p hp
    fin_cases hp
    · exact ⟨rfl, by decide, rfl, by decide, rfl⟩
    · exact ⟨rfl, by decide, rfl⟩
  · intro p hp q hq hne
    fin_cases hp <;> fin_cases hq <;> simp_all [twoThreads]

lemma twoThreads_fuel : enoughFuel [0x1000, 0x3000] twoThreads ≤ 6 := by decide

/-- The second thread is `READY` and is never installed, however many calls of `schedule` there
are. -/
theorem second_thread_never_installed :
    SchedLists twoThreadSched [0x1000, 0x3000] twoThreads ∧
      0x6000 ∈ liveThreads twoThreadSched [0x1000, 0x3000] twoThreads ∧
      ∀ sfs : List Stackframe, ∃ r, scheduleCalls 6 6 twoThreadSched sfs = some r ∧
        ∀ u ∈ r, ¬ Installs u 0x6000 := by
  refine ⟨twoThreadSched_lists, by decide, fun sfs => ?_⟩
  obtain ⟨r, hr, -, hkeeps⟩ := scheduleCalls_serve_of_enoughFuel twoThreadSched_lists
    twoThreads_fuel twoThreads_fuel sfs
  refine ⟨r, hr, fun u hu hinst => ?_⟩
  refine (hkeeps u hu).not_behind twoThreadSched_lists (p := 0x1000) (a := [0x2000]) (b := [])
    (by decide) ?_ 0x2000 (by decide) (by decide)
  rw [hinst.1]
  rfl

end Soaplin

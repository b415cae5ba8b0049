import Soaplin.Sched.ProcessList
import Soaplin.Foundation.RoundRobin

/-!
# The two-level list and one call of `schedule`

`SchedLists s l tl` says that `sched_processes_list` is the `NULL`-terminated list `l` of processes,
that the process `p` has the `NULL`-terminated list `tl p` of threads, and that the current process
and thread are in these lists.  On such lists the inner loop of `schedule` is a search
(`scanThreads_eq`), the step of the outer loop is a step in the cyclic order of `l`
(`nextProcess_eq`), and a call of `schedule` moves on to the next process with a thread to run
(`schedule_moves`).
-/

namespace Soaplin

open LinkedChain RoundRobin

/-- The `next` pointers of the threads. -/
def threadNext (s : Sched) : Ptr → Ptr := fun t => (s.threads t).next

/-- Assigning the record of a thread assigns its `next` pointer. -/
lemma threadNext_setThread (s : Sched) (t : Ptr) (r : SchedThread) :
    threadNext (s.setThread t r) = Function.update (threadNext s) t r.next :=
  Function.comp_update SchedThread.next s.threads t r

/-- A record with the same `next` pointer keeps the pointers. -/
lemma threadNext_setThread_of_eq {s : Sched} {t : Ptr} {r : SchedThread}
    (h : r.next = (s.threads t).next) : threadNext (s.setThread t r) = threadNext s := by
  rw [threadNext_setThread, h]
  exact Function.update_eq_self t (threadNext s)

/-- The processes and threads are linked as two levels of lists, and the current ones are in
them. -/
structure SchedLists (s : Sched) (l : List Ptr) (tl : Ptr → List Ptr) : Prop where
  procs : Chain (processNext s) s.schedProcessesList l
  threads : ∀ p ∈ l, Chain (threadNext s) (s.procs p).threads (tl p)
  disjoint : ∀ p ∈ l, ∀ q ∈ l, p ≠ q → List.Disjoint (tl p) (tl q)
  current : s.schedCurrentProcess ∈ l
  currentThread : s.schedCurrentThread ∈ tl s.schedCurrentProcess

/-- The thread is not `DEAD`. -/
def Live (s : Sched) (t : Ptr) : Prop := (s.threads t).status ≠ .dead

instance (s : Sched) : DecidablePred (Live s) := fun _ => inferInstanceAs (Decidable (_ ≠ _))

/-- The thread can be chosen by `schedule`: it is not `DEAD`, or it is the current thread, which
`schedule` makes `READY`. -/
def Runnable (s : Sched) (t : Ptr) : Prop := t = s.schedCurrentThread ∨ Live s t

instance (s : Sched) : DecidablePred (Runnable s) := fun _ => inferInstanceAs (Decidable (_ ∨ _))

/-- The process has a thread that `schedule` can choose. -/
def HasRunnable (s : Sched) (tl : Ptr → List Ptr) (p : Ptr) : Prop := ∃ t ∈ tl p, Runnable s t

instance (s : Sched) (tl : Ptr → List Ptr) : DecidablePred (HasRunnable s tl) := fun _ =>
  inferInstanceAs (Decidable (∃ _ ∈ _, _))

/-- The processes with a thread to run, in cyclic order after the current process. -/
def runQueue (s : Sched) (l : List Ptr) (tl : Ptr → List Ptr) : List Ptr :=
  queue l (fun p => HasRunnable s tl p) s.schedCurrentProcess

variable {s s' u : Sched} {l : List Ptr} {tl : Ptr → List Ptr} {fuel inner : ℕ} {p q t : Ptr}
  {ts a b : List Ptr} {sf : Stackframe}

/-! ### The two loops -/

/-- The inner loop finds the first thread of the list that is not `DEAD`. -/
lemma scanThreads_eq (h : Chain (threadNext u) t ts) (hlen : ts.length < inner) :
    scanThreads u inner t = some ((ts.find? fun r => Live u r).getD 0) := by
  induction ts generalizing t inner with
  | nil =>
    obtain ⟨inner, rfl⟩ := Nat.exists_eq_succ_of_ne_zero (Nat.ne_of_gt hlen)
    rw [scanThreads, if_pos (chain_nil.mp h)]
    rfl
  | cons r ts ih =>
    obtain ⟨rfl, h0, hrest⟩ := h
    obtain ⟨inner, rfl⟩ := Nat.exists_eq_succ_of_ne_zero (Nat.ne_of_gt (Nat.zero_lt_of_lt hlen))
    rw [scanThreads, if_neg h0]
    by_cases hdead : (u.threads t).status = .dead
    · have hlive : ¬ Live u t := fun hl => hl hdead
      rw [if_pos hdead, List.find?_cons_of_neg (by simpa using hlive)]
      exact ih hrest (by simpa using hlen)
    · have hlive : Live u t := hdead
      rw [if_neg hdead, List.find?_cons_of_pos (by simpa using hlive)]
      rfl

/-- A step of the outer loop is a step in the cyclic order. -/
lemma nextProcess_eq (h : Chain (processNext u) u.schedProcessesList l)
    (hcur : u.schedCurrentProcess ∈ l) (hnext : cyclicAfter l u.schedCurrentProcess = p :: b) :
    nextProcess u = p := by
  obtain ⟨l₁, l₂, rfl⟩ := List.append_of_mem hcur
  have hnotin : u.schedCurrentProcess ∉ l₁ := fun hmem =>
    List.disjoint_of_nodup_append h.nodup hmem List.mem_cons_self
  rw [cyclicAfter_append hnotin] at hnext
  have htail : Chain (processNext u) (u.procs u.schedCurrentProcess).next l₂ :=
    (chain_split.mp h).2.2
  unfold nextProcess
  cases l₂ with
  | nil =>
    -- the current process is the last one, and the list starts again
    have hend : (u.procs u.schedCurrentProcess).next = 0 := chain_nil.mp htail
    rw [if_neg (not_not.mpr hend)]
    rw [List.nil_append] at hnext
    rw [hnext] at h
    exact h.1
  | cons r l₂ =>
    obtain ⟨hr, hne, -⟩ := htail
    rw [if_pos (by rw [hr]; exact hne), hr]
    exact (List.cons.inj hnext).1

/-- The inner loop does not look at what is current. -/
lemma scanThreads_setCurrent (p r : Ptr) :
    scanThreads { u with schedCurrentProcess := p, schedCurrentThread := r } fuel t =
      scanThreads u fuel t := by
  induction fuel generalizing t with
  | zero => rfl
  | succ fuel ih => rw [scanThreads, scanThreads, ih]

/-- The outer loop skips the processes in which the inner loop finds no thread. -/
lemma chooseThread_of_scans (h : Chain (processNext u) u.schedProcessesList l)
    (hcur : u.schedCurrentProcess ∈ l) (hcyc : cyclicAfter l u.schedCurrentProcess = a ++ p :: b)
    (hskip : ∀ q ∈ a, scanThreads u inner (u.procs q).threads = some 0)
    (hfound : scanThreads u inner (u.procs p).threads = some t) (ht : t ≠ 0)
    (hfuel : a.length < fuel) :
    chooseThread fuel inner u = some { u with
      schedCurrentProcess := p
      schedCurrentThread := t
      threads := Function.update u.threads t { u.threads t with status := .running } } := by
  induction a generalizing u b fuel with
  | nil =>
    obtain ⟨fuel, rfl⟩ := Nat.exists_eq_succ_of_ne_zero (Nat.ne_of_gt hfuel)
    have hscan : scanThreads { u with schedCurrentProcess := p } inner (u.procs p).threads =
        some t := (scanThreads_setCurrent _ _).trans hfound
    rw [chooseThread]
    simp only [nextProcess_eq h hcur hcyc, hscan]
    rw [if_pos ht]
    rfl
  | cons q a ih =>
    obtain ⟨fuel, rfl⟩ := Nat.exists_eq_succ_of_ne_zero (Nat.ne_of_gt (Nat.zero_lt_of_lt hfuel))
    have hscan : scanThreads { u with schedCurrentProcess := q } inner (u.procs q).threads =
        some 0 := (scanThreads_setCurrent _ _).trans (hskip q List.mem_cons_self)
    have hq : q ∈ l := by
      have hmem : q ∈ cyclicAfter l u.schedCurrentProcess := by
        rw [hcyc]
        exact List.mem_cons_self
      exact mem_cyclicAfter.mp hmem
    have hcyc' : cyclicAfter l q = a ++ p :: (b ++ [q]) := by
      rw [cyclicAfter_of_append h.nodup (a := []) hcyc]
      simp
    rw [chooseThread]
    simp only [nextProcess_eq h hcur hcyc, hscan]
    rw [if_neg (not_not.mpr rfl)]
    refine (ih (u := { u with schedCurrentProcess := q, schedCurrentThread := 0 }) h hq hcyc'
      (fun r hr => ?_) ?_ (by simpa using hfuel)).trans rfl
    · exact (scanThreads_setCurrent _ _).trans (hskip r (List.mem_cons_of_mem _ hr))
    · exact (scanThreads_setCurrent _ _).trans hfound

/-- The outer loop skips the processes without a live thread. -/
lemma chooseThread_eq (h : Chain (processNext u) u.schedProcessesList l)
    (hthreads : ∀ p ∈ l, Chain (threadNext u) (u.procs p).threads (tl p))
    (hcur : u.schedCurrentProcess ∈ l) (hinner : ∀ p ∈ l, (tl p).length < inner)
    (hcyc : cyclicAfter l u.schedCurrentProcess = a ++ p :: b)
    (hskip : ∀ q ∈ a, ∀ r ∈ tl q, ¬ Live u r) (hfind : (tl p).find? (fun r => Live u r) = some t)
    (hfuel : a.length < fuel) :
    chooseThread fuel inner u = some { u with
      schedCurrentProcess := p
      schedCurrentThread := t
      threads := Function.update u.threads t { u.threads t with status := .running } } := by
  have hmem : ∀ q ∈ a ++ p :: b, q ∈ l := fun q hq => by
    rw [← hcyc] at hq
    exact mem_cyclicAfter.mp hq
  have hp : p ∈ l := hmem p (by simp)
  have ht : t ≠ 0 := (hthreads p hp).ne_zero (List.mem_of_find?_eq_some hfind)
  refine chooseThread_of_scans h hcur hcyc (fun q hq => ?_) ?_ ht hfuel
  · have hql : q ∈ l := hmem q (List.mem_append_left _ hq)
    have hnone : (tl q).find? (fun r => Live u r) = none :=
      List.find?_eq_none.mpr fun r hr => by simpa using hskip q hq r hr
    rw [scanThreads_eq (hthreads q hql) (hinner q hql), hnone]
    rfl
  · rw [scanThreads_eq (hthreads p hp) (hinner p hp), hfind]
    rfl

/-! ### One call -/

/-- A bound on the iterations that suffices for each of the loops. -/
def enoughFuel (l : List Ptr) (tl : Ptr → List Ptr) : ℕ :=
  l.length + (l.map fun p => (tl p).length).sum + 1

lemma length_le_enoughFuel (l : List Ptr) (tl : Ptr → List Ptr) : l.length ≤ enoughFuel l tl := by
  unfold enoughFuel
  omega

lemma length_lt_enoughFuel {p : Ptr} (hp : p ∈ l) : (tl p).length < enoughFuel l tl := by
  have hle : (tl p).length ≤ (l.map fun p => (tl p).length).sum :=
    List.le_sum_of_mem (List.mem_map_of_mem hp)
  unfold enoughFuel
  omega

/-- Saving the frame makes exactly the runnable threads live. -/
lemma live_saveContext (s : Sched) (sf : Stackframe) (t : Ptr) :
    Live (saveContext s sf) t ↔ Runnable s t := by
  by_cases heq : t = s.schedCurrentThread
  · subst heq
    simp [Live, Runnable, saveContext]
  · simp [Live, Runnable, saveContext, heq]

/-- Saving the frame keeps the links. -/
lemma threadNext_saveContext (s : Sched) (sf : Stackframe) :
    threadNext (saveContext s sf) = threadNext s :=
  threadNext_setThread_of_eq rfl

/-- The state in which a call of `schedule` leaves its loops, when it has chosen `p` and `t`. -/
def chosenState (s : Sched) (sf : Stackframe) (p t : Ptr) : Sched :=
  { saveContext s sf with
    schedCurrentProcess := p
    schedCurrentThread := t
    threads := Function.update (saveContext s sf).threads t
      { (saveContext s sf).threads t with status := .running } }

/-- The statuses after a choice: the chosen thread is `RUNNING`, and the current thread is `READY`
if it is another one. -/
lemma status_chosenState (s : Sched) (sf : Stackframe) (p t r : Ptr) :
    ((chosenState s sf p t).threads r).status =
      if r = t then .running else if r = s.schedCurrentThread then .ready
      else (s.threads r).status := by
  by_cases hr : r = t
  · subst hr
    simp [chosenState]
  · by_cases hc : r = s.schedCurrentThread
    · subst hc
      simp [chosenState, saveContext, hr]
    · simp [chosenState, saveContext, hr, hc]

/-- Choosing a thread keeps the links. -/
lemma threadNext_chosenState (s : Sched) (sf : Stackframe) (p t : Ptr) :
    threadNext (chosenState s sf p t) = threadNext s := by
  have hchosen : threadNext ((saveContext s sf).setThread t
      { (saveContext s sf).threads t with status := .running }) = threadNext (saveContext s sf) :=
    threadNext_setThread_of_eq rfl
  rw [← threadNext_saveContext s sf]
  exact hchosen

/-- Choosing a runnable thread keeps the set of runnable threads. -/
lemma runnable_chosenState (ht : Runnable s t) (sf : Stackframe) (p r : Ptr) :
    Runnable (chosenState s sf p t) r ↔ Runnable s r := by
  by_cases hr : r = t
  · subst hr
    exact ⟨fun _ => ht, fun _ => .inl rfl⟩
  · have hlive : Live (chosenState s sf p t) r ↔ Live (saveContext s sf) r := by
      simp [Live, chosenState, hr]
    rw [← live_saveContext s sf r, ← hlive]
    exact ⟨fun h => h.resolve_left hr, .inr⟩

/-- What a call of `schedule` does to the lists: it keeps them and the set of runnable threads,
takes the head of the run queue to its end, and makes the first runnable thread of that process
current. -/
structure MovedOn (s : Sched) (sf : Stackframe) (s' : Sched) (l : List Ptr) (tl : Ptr → List Ptr) :
    Prop where
  chosen : s' = chosenState s sf s'.schedCurrentProcess s'.schedCurrentThread
  lists : SchedLists s' l tl
  runnable : ∀ t, Runnable s' t ↔ Runnable s t
  queue : ∃ ps, runQueue s l tl = s'.schedCurrentProcess :: ps ∧
    runQueue s' l tl = ps ++ [s'.schedCurrentProcess]
  thread : (tl s'.schedCurrentProcess).find? (fun r => Runnable s r) = some s'.schedCurrentThread

/-- Choosing the first runnable thread of the next process with one moves on. -/
lemma movedOn_of_chosen (hs : SchedLists s l tl)
    (hcyc : cyclicAfter l s.schedCurrentProcess = a ++ p :: b)
    (hskip : ∀ q ∈ a, ¬ HasRunnable s tl q) (hp : p ∈ l)
    (ht : (tl p).find? (fun r => Runnable s r) = some t) :
    MovedOn s sf (chosenState s sf p t) l tl := by
  have hmem : t ∈ tl p := List.mem_of_find?_eq_some ht
  have hrun : Runnable s t := by simpa using List.find?_some ht
  have hsame := runnable_chosenState hrun sf p
  have hhas : ∀ q, HasRunnable (chosenState s sf p t) tl q ↔ HasRunnable s tl q := fun q =>
    exists_congr fun r => and_congr_right fun _ => hsame r
  refine ⟨rfl, ⟨hs.procs, fun q hq => ?_, hs.disjoint, hp, hmem⟩, hsame, ?_, ht⟩
  · rw [threadNext_chosenState]
    exact hs.threads q hq
  · have hstep := queue_step (P := fun q => decide (HasRunnable s tl q)) hs.procs.nodup hcyc
      (fun q hq => decide_eq_false (hskip q hq)) (decide_eq_true ⟨t, hmem, hrun⟩)
    refine ⟨_, hstep.1, ?_⟩
    simp only [runQueue, hhas]
    exact hstep.2

/-- The chosen thread is `RUNNING`. -/
lemma MovedOn.running (h : MovedOn s sf s' l tl) :
    (s'.threads s'.schedCurrentThread).status = .running := by
  rw [h.chosen, status_chosenState, ← h.chosen, if_pos rfl]

/-- With enough iterations a call of `schedule` returns, and moves on to the next process in cyclic
order that has a thread to run. -/
theorem schedule_moves (hs : SchedLists s l tl) (sf : Stackframe) (hfuel : l.length ≤ fuel)
    (hinner : ∀ p ∈ l, (tl p).length < inner) :
    ∃ r, schedule fuel inner s sf = some r ∧ MovedOn s sf r.1 l tl := by
  have hnodup := hs.procs.nodup
  -- the first process in cyclic order with a runnable thread; the current one is a candidate
  have hcand : s.schedCurrentProcess ∈ cyclicAfter l s.schedCurrentProcess :=
    mem_cyclicAfter.mpr hs.current
  have hhas : HasRunnable s tl s.schedCurrentProcess := ⟨_, hs.currentThread, .inl rfl⟩
  obtain ⟨p, hp⟩ := Option.isSome_iff_exists.mp
    (List.find?_isSome (p := fun p => decide (HasRunnable s tl p)) |>.mpr
      ⟨_, hcand, decide_eq_true hhas⟩)
  obtain ⟨hpos, a, b, hcyc, hskip⟩ := List.find?_eq_some_iff_append.mp hp
  have hmem : p ∈ l := by
    have : p ∈ cyclicAfter l s.schedCurrentProcess := by rw [hcyc]; simp
    exact mem_cyclicAfter.mp this
  have hnone : ∀ q ∈ a, ¬ HasRunnable s tl q := fun q hq => by simpa using hskip q hq
  -- its first runnable thread
  obtain ⟨r, hr, hrun⟩ := of_decide_eq_true hpos
  obtain ⟨t, ht⟩ := Option.isSome_iff_exists.mp
    (List.find?_isSome (p := fun r => decide (Runnable s r)) |>.mpr ⟨r, hr, decide_eq_true hrun⟩)
  have hlive : ∀ r, decide (Live (saveContext s sf) r) = decide (Runnable s r) := fun r =>
    decide_eq_decide.mpr (live_saveContext s sf r)
  have halen : a.length < fuel := by
    have hlen := congrArg List.length hcyc
    simp at hlen
    omega
  have hchoose := chooseThread_eq (u := saveContext s sf) (b := b) (t := t) hs.procs
    (fun q hq => by rw [threadNext_saveContext]; exact hs.threads q hq) hs.current hinner hcyc
    (fun q hq r hr hl => hnone q hq ⟨r, hr, (live_saveContext s sf r).mp hl⟩)
    (by simp only [hlive]; exact ht) halen
  exact ⟨_, by rw [schedule, hchoose, Option.map_some],
    movedOn_of_chosen hs hcyc hnone hmem ht⟩

/-! ### More iterations -/

/-- A larger bound does not change the result of the inner loop. -/
lemma scanThreads_mono {r : Ptr} (h : scanThreads u fuel t = some r) (hle : fuel ≤ inner) :
    scanThreads u inner t = some r := by
  induction fuel generalizing t inner with
  | zero => cases h
  | succ fuel ih =>
    obtain ⟨inner, rfl⟩ := Nat.exists_eq_succ_of_ne_zero (Nat.ne_of_gt (Nat.zero_lt_of_lt hle))
    rw [scanThreads] at h ⊢
    split_ifs at h ⊢ with h0 hdead
    · exact h
    · exact ih h (Nat.le_of_succ_le_succ hle)
    · exact h

/-- Larger bounds do not change the result of the outer loop. -/
lemma chooseThread_mono {fuel' inner' : ℕ} (h : chooseThread fuel inner u = some s')
    (hle : fuel ≤ fuel') (hle' : inner ≤ inner') : chooseThread fuel' inner' u = some s' := by
  induction fuel generalizing u fuel' with
  | zero => cases h
  | succ fuel ih =>
    obtain ⟨fuel', rfl⟩ := Nat.exists_eq_succ_of_ne_zero (Nat.ne_of_gt (Nat.zero_lt_of_lt hle))
    rw [chooseThread] at h ⊢
    dsimp only at h ⊢
    cases hscan : scanThreads { u with schedCurrentProcess := nextProcess u } inner
        (u.procs (nextProcess u)).threads with
    | none =>
      rw [hscan] at h
      cases h
    | some t =>
      rw [hscan] at h
      rw [scanThreads_mono hscan hle']
      dsimp only at h ⊢
      split_ifs at h ⊢ with ht
      · exact h
      · exact ih h (Nat.le_of_succ_le_succ hle)

/-- Larger bounds do not change the result of `schedule`. -/
lemma schedule_mono {fuel' inner' : ℕ} {r : Sched × Stackframe}
    (h : schedule fuel inner s sf = some r) (hle : fuel ≤ fuel') (hle' : inner ≤ inner') :
    schedule fuel' inner' s sf = some r := by
  obtain ⟨v, hv, rfl⟩ := Option.map_eq_some_iff.mp h
  rw [schedule, chooseThread_mono hv hle hle', Option.map_some]

/-- Whatever the bounds are, a call of `schedule` that returns moves on. -/
theorem movedOn_of_schedule (hs : SchedLists s l tl) {r : Sched × Stackframe}
    (h : schedule fuel inner s sf = some r) : MovedOn s sf r.1 l tl := by
  obtain ⟨r', hr', hm⟩ := schedule_moves hs sf
    ((length_le_enoughFuel l tl).trans (Nat.le_add_left _ fuel))
    (fun p hp => (length_lt_enoughFuel hp).trans_le (Nat.le_add_left _ inner))
  have hsame := schedule_mono h (Nat.le_add_right fuel (enoughFuel l tl))
    (Nat.le_add_right inner (enoughFuel l tl))
  obtain rfl := Option.some.inj (hsame.symm.trans hr')
  exact hm

end Soaplin

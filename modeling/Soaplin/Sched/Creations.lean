import Soaplin.Sched.Interrupt

/-!
# Calls in progress

What holds of the calls of `sched_new` and `sched_new_thread` that threads are in the middle of.
Their records are not in the lists yet, except for a thread that the executing thread has linked and
not completed; then the invariant of the scheduler holds of the state before the link.
-/

namespace Soaplin

variable {P : HandlerCode}

/-! ### The invariant -/

/-- No thread is in the lists before the last store of its creation. -/
def CreationState.NoneIncomplete (h : CreationState) : Prop :=
  ∀ t c pending, h.creating t = some (.thread c pending) → .link ∈ pending

/-- The state of the scheduler before the executing thread has linked a new one: as long as the new
thread is not complete, the invariant of the scheduler holds of this state. -/
inductive CreationState.BeforeLink (h : CreationState) : Sched → Prop
  | same (hpending : ∀ c pending, h.creating h.run.executing = some (.thread c pending) →
      .link ∈ pending) : BeforeLink h h.run.sched
  | linked {c : NewThreadCall} {pending : List ThreadStore} {u : Sched}
      (hcall : h.creating h.run.executing = some (.thread c pending)) (hlink : .link ∉ pending)
      (hadd : ThreadAdding c pending u h.run.sched) : BeforeLink h u

/-- What the executing thread is about to create. -/
lemma CreationState.create_creating (h : CreationState) (s : Sched) (call : Option Creating) :
    (h.create s call).creating h.run.executing = call := Function.update_self _ _ _

/-- What the other threads are about to create. -/
lemma CreationState.create_creating_of_ne (h : CreationState) (s : Sched) (call : Option Creating)
    {t : Ptr} (ht : t ≠ h.run.executing) : (h.create s call).creating t = h.creating t :=
  Function.update_of_ne ht _ _

/-- As long as the new call is not past a link, this is the state itself. -/
lemma CreationState.BeforeLink.create {h : CreationState} {s : Sched} {call : Option Creating}
    (hcall : ∀ c pending, call = some (.thread c pending) → .link ∈ pending) :
    (h.create s call).BeforeLink s :=
  .same fun c pending hc => hcall c pending ((h.create_creating s call).symm.trans hc)

/-- What holds of a call of `sched_new` in progress. -/
structure ProcessCall (h : CreationState) (a : ProcessAlloc) (pending : List ProcessStore) :
    Prop where
  fresh : a.ptr ∉ h.run.processes
  suffix : pending <:+ newProcessStores
  threads : .threads ∉ pending → (h.run.sched.procs a.ptr).threads = 0
  next : .next ∉ pending → (h.run.sched.procs a.ptr).next = 0

/-- What holds of a call of `sched_new_thread` in progress. -/
structure ThreadCall (P : HandlerCode) (h : CreationState) (c : NewThreadCall)
    (pending : List ThreadStore) : Prop where
  ne_zero : c.alloc.ptr ≠ 0
  fresh : c.alloc.ptr ∉ h.run.created
  proc : c.proc ∈ h.run.processes
  function : P.Outside c.function
  suffix : pending <:+ newThreadStores
  stack : .rsp ∉ pending → h.FreshStack c.alloc.stack

/-- What holds of a call in progress. -/
def CreationCallInv (P : HandlerCode) (h : CreationState) : Creating → Prop
  | .process a _ pending => ProcessCall h a pending
  | .thread c pending => ThreadCall P h c pending

/-- The calls in progress: those of threads that are not executing have not come to a link. -/
structure CreationsInv (P : HandlerCode) (h : CreationState) : Prop where
  each : ∀ t, ∀ call ∈ h.creating t, CreationCallInv P h call
  distinct : ∀ t t', t ≠ t' → ∀ call ∈ h.creating t, ∀ call' ∈ h.creating t', call.Distinct call'
  unlinked : ∀ t, t ≠ h.run.executing → ∀ c pending, h.creating t = some (.thread c pending) →
    .link ∈ pending

/-- Records differ from each other. -/
lemma Creating.Distinct.symm {call call' : Creating} (h : call.Distinct call') :
    call'.Distinct call := by
  cases call <;> cases call' <;> first | exact Ne.symm h | trivial

/-- The stack is allocated after the link. -/
lemma rsp_mem_of_link {pending : List ThreadStore} (hsuffix : pending <:+ newThreadStores)
    (hlink : .link ∈ pending) : .rsp ∈ pending := by
  rw [eq_newThreadStores hsuffix hlink]
  decide

namespace CreationsInv

variable {h : CreationState} {s : Sched} {p : Ptr} {call : Option Creating} {a : ThreadAlloc}

/-- The executing thread comes to the next store of its call, or begins or ends one. -/
lemma create (hinv : CreationsInv P h) (hcall : ∀ c ∈ call, CreationCallInv P (h.create s call) c)
    (hfresh : ∀ c ∈ call, ∀ t, t ≠ h.run.executing → ∀ other ∈ h.creating t, c.Distinct other)
    (hprocs : ∀ t, t ≠ h.run.executing → ∀ a name pending,
      h.creating t = some (.process a name pending) → s.procs a.ptr = h.run.sched.procs a.ptr) :
    CreationsInv P (h.create s call) := by
  have hself := h.create_creating s call
  have hother : ∀ {t}, t ≠ h.run.executing → (h.create s call).creating t = h.creating t :=
    h.create_creating_of_ne s call
  refine ⟨fun t c hc => ?_, fun t t' htt c hc c' hc' => ?_, fun t ht c pending hc => ?_⟩
  · by_cases ht : t = h.run.executing
    · subst ht
      exact hcall c (hself ▸ hc)
    · rw [hother ht] at hc
      have hold := hinv.each t c hc
      cases c with
      | process a name pending =>
        have hsame := hprocs t ht a name pending hc
        exact ⟨hold.fresh, hold.suffix, fun hp => (congrArg _ hsame).trans (hold.threads hp),
          fun hp => (congrArg _ hsame).trans (hold.next hp)⟩
      | thread c pending =>
        exact ⟨hold.ne_zero, hold.fresh, hold.proc, hold.function, hold.suffix, hold.stack⟩
  · by_cases ht : t = h.run.executing
    · subst ht
      rw [hother htt.symm] at hc'
      exact hfresh c (hself ▸ hc) t' htt.symm c' hc'
    · rw [hother ht] at hc
      by_cases ht' : t' = h.run.executing
      · subst ht'
        exact (hfresh c' (hself ▸ hc') t ht c hc).symm
      · rw [hother ht'] at hc'
        exact hinv.distinct t t' htt c hc c' hc'
  · exact hinv.unlinked t ht c pending ((hother ht).symm.trans hc)

/-- A new process whose record no call in progress uses. -/
lemma addProcess (hinv : CreationsInv P h)
    (hp : ∀ t a name pending, h.creating t = some (.process a name pending) → a.ptr ≠ p) :
    CreationsInv P (h.addProcess p) := by
  refine ⟨fun t c hc => ?_, hinv.distinct, hinv.unlinked⟩
  have hold := hinv.each t c hc
  cases c with
  | process a name pending =>
    refine ⟨fun hmem => ?_, hold.suffix, hold.threads, hold.next⟩
    exact (List.mem_cons.mp hmem).elim (hp t a name pending hc) hold.fresh
  | thread c pending =>
    exact ⟨hold.ne_zero, hold.fresh, List.mem_cons_of_mem _ hold.proc, hold.function, hold.suffix,
      hold.stack⟩

/-- A new thread whose record no call in progress uses. -/
lemma addThread (hinv : CreationsInv P h) (hnone : h.NoneIncomplete)
    (ha : ∀ t c pending, h.creating t = some (.thread c pending) → c.alloc.ptr ≠ a.ptr) :
    CreationsInv P (h.addThread a) := by
  refine ⟨fun t c hc => ?_, hinv.distinct, hinv.unlinked⟩
  have hold := hinv.each t c hc
  cases c with
  | process b name pending => exact ⟨hold.fresh, hold.suffix, hold.threads, hold.next⟩
  | thread c pending =>
    refine ⟨hold.ne_zero, fun hmem => ?_, hold.proc, hold.function, hold.suffix, fun hrsp => ?_⟩
    · exact (List.mem_cons.mp hmem).elim (ha t c pending hc) hold.fresh
    · exact absurd (rsp_mem_of_link hold.suffix (hnone t c pending hc)) hrsp

/-- A call of `schedule` when no thread in the lists is incomplete. -/
lemma schedule {fuel inner : ℕ} {sf sf' : Stackframe} {e : Ptr → Stackframe}
    (hinv : CreationsInv P h) (hsched : SchedInv h.run) (hnone : h.NoneIncomplete)
    (hcall : Soaplin.schedule fuel inner h.run.sched sf = some (s, sf')) :
    CreationsInv P { h with
      run := { h.run with sched := s, executing := s.schedCurrentThread, expected := e } } := by
  have hprocs := (schedule_spec hsched.closed hcall).procs
  refine ⟨fun t c hc => ?_, hinv.distinct, fun t _ c pending => hnone t c pending⟩
  have hold := hinv.each t c hc
  cases c with
  | process a name pending =>
    exact ⟨hold.fresh, hold.suffix, fun hp => hprocs ▸ hold.threads hp,
      fun hp => hprocs ▸ hold.next hp⟩
  | thread c pending =>
    exact ⟨hold.ne_zero, hold.fresh, hold.proc, hold.function, hold.suffix, hold.stack⟩

end CreationsInv

end Soaplin

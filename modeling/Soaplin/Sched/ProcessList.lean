import Soaplin.Sched.ContextSwitch
import Soaplin.Foundation.LinkedChain

/-!
# The process list

Which processes can be reached from `sched_processes_list`?  `sched_new` assigns the `next` pointer
of the current process, whatever it was before.  While every call finds the current process at the
end of the list, the list holds every process ever created (`processes_never_lost`); a call that
does not cuts off everything behind the current process, and at boot this is the idle process
(`idle_process_lost`).
-/

namespace Soaplin

open TransitionTrace LinkedChain

/-- The `next` pointers of the processes. -/
def processNext (s : Sched) : Ptr → Ptr := fun p => (s.procs p).next

/-- Assigning the record of a process assigns its `next` pointer. -/
lemma processNext_setProc (s : Sched) (p : Ptr) (r : SchedProcess) :
    processNext (s.setProc p r) = Function.update (processNext s) p r.next :=
  Function.comp_update SchedProcess.next s.procs p r

/-- A record with the same `next` pointer keeps the pointers. -/
lemma processNext_setProc_of_eq {s : Sched} {p : Ptr} {r : SchedProcess}
    (h : r.next = (s.procs p).next) : processNext (s.setProc p r) = processNext s := by
  rw [processNext_setProc, h]
  exact Function.update_eq_self p (processNext s)

/-- The process list is `NULL`-terminated, and every process created so far is in it exactly
once. -/
def NoneLost (h : SchedRun) : Prop :=
  ∃ l, Chain (processNext h.sched) h.sched.schedProcessesList l ∧ ∀ p ∈ h.processes, l.count p = 1

/-- The current process is the last one of the list. -/
def CurrentIsLast (s : Sched) : Prop := processNext s s.schedCurrentProcess = 0

instance (s : Sched) : Decidable (CurrentIsLast s) :=
  inferInstanceAs (Decidable (_ = _))

/-- The condition on a call: `sched_new` finds the current process at the end of the list. -/
def CreatesAtEnd (h : SchedRun) : SchedOp → Prop
  | .new _ => CurrentIsLast h.sched
  | _ => True

/-! ### The invariant -/

/-- The invariant: the list is `l`, and it holds all processes. -/
structure ListInv (h : SchedRun) (l : List Ptr) : Prop where
  sched : SchedInv h
  chain : Chain (processNext h.sched) h.sched.schedProcessesList l
  all : h.processes ⊆ l

variable {h h' : SchedRun} {l : List Ptr} {s s' : Sched}

/-- What `sched_new` makes of a process list: everything behind the current process is replaced by
the new process. -/
lemma chain_schedNew {l₁ l₂ : List Ptr}
    (hchain : Chain (processNext s) s.schedProcessesList (l₁ ++ s.schedCurrentProcess :: l₂))
    {a : ProcessAlloc} (hne : a.ptr ≠ 0) (hcur : a.ptr ≠ s.schedCurrentProcess)
    (hout : a.ptr ∉ l₁ ++ s.schedCurrentProcess :: l₂) (name : List UInt8) :
    Chain (processNext (schedNew s a name)) s.schedProcessesList
      (l₁ ++ s.schedCurrentProcess :: [a.ptr]) := by
  have hnext : processNext (schedNew s a name) =
      Function.update (Function.update (processNext s) a.ptr 0) s.schedCurrentProcess a.ptr := by
    funext p
    rw [processNext, schedNew_next]
    by_cases hp : p = s.schedCurrentProcess
    · rw [if_pos hp, hp, Function.update_self]
    · rw [if_neg hp, Function.update_of_ne hp]
      by_cases hpa : p = a.ptr
      · rw [if_pos hpa, hpa, Function.update_self]
      · rw [if_neg hpa, Function.update_of_ne hpa, processNext]
  rw [hnext]
  refine Chain.redirect (hchain.update hout) ⟨rfl, hne, ?_⟩
  rw [Function.update_of_ne hcur, Function.update_self]
  rfl

namespace ListInv

/-- The list holds nothing but processes. -/
lemma subset (hinv : ListInv h l) : l ⊆ h.processes :=
  Path.subset hinv.chain (.inr hinv.sched.closed.list) hinv.sched.closed.next

/-- No process is lost. -/
lemma noneLost (hinv : ListInv h l) : NoneLost h :=
  ⟨l, hinv.chain, fun _ hp =>
    List.count_eq_one_of_mem hinv.chain.nodup (hinv.all hp)⟩

/-- The list splits at the current process. -/
lemma split (hinv : ListInv h l) : ∃ l₁ l₂, l = l₁ ++ h.sched.schedCurrentProcess :: l₂ :=
  List.append_of_mem (hinv.all hinv.sched.closed.current)

/-- What `sched_new` makes of the list. -/
lemma chain_schedNew {l₁ l₂ : List Ptr} (hinv : ListInv h (l₁ ++ h.sched.schedCurrentProcess :: l₂))
    {a : ProcessAlloc} (hne : a.ptr ≠ 0) (hfresh : a.ptr ∉ h.processes) (name : List UInt8) :
    Chain (processNext (schedNew h.sched a name)) h.sched.schedProcessesList
      (l₁ ++ h.sched.schedCurrentProcess :: [a.ptr]) :=
  Soaplin.chain_schedNew hinv.chain hne
    (fun heq => hfresh (heq ▸ hinv.sched.closed.current))
    (fun hmem => hfresh (hinv.subset hmem)) name

/-- A call of `sched_new` at the end of the list appends the new process. -/
lemma new (hinv : ListInv h l) {a : ProcessAlloc} (hne : a.ptr ≠ 0) (hfresh : a.ptr ∉ h.processes)
    (hlast : CurrentIsLast h.sched) (name : List UInt8)
    (hsched : SchedInv { h with sched := schedNew h.sched a name, processes := a.ptr :: h.processes }) :
    ∃ l', ListInv { h with sched := schedNew h.sched a name, processes := a.ptr :: h.processes }
      l' := by
  obtain ⟨l₁, l₂, rfl⟩ := hinv.split
  obtain ⟨-, -, htail⟩ := chain_split.mp hinv.chain
  obtain rfl : l₂ = [] := by
    rw [hlast] at htail
    exact htail.unique (chain_nil.mpr rfl)
  refine ⟨_, hsched, hinv.chain_schedNew hne hfresh name, ?_⟩
  intro p hp
  rcases List.mem_cons.mp hp with rfl | hp
  · simp
  · rcases List.mem_append.mp (hinv.all hp) with hp | hp
    · exact List.mem_append_left _ hp
    · rw [List.mem_singleton.mp hp]
      simp

/-- A call of `sched_new` elsewhere loses the process behind the current one. -/
lemma not_noneLost_new (hinv : ListInv h l) {a : ProcessAlloc} (hne : a.ptr ≠ 0)
    (hfresh : a.ptr ∉ h.processes) (hlast : ¬ CurrentIsLast h.sched) (name : List UInt8) :
    ¬ NoneLost { h with sched := schedNew h.sched a name, processes := a.ptr :: h.processes } := by
  obtain ⟨l₁, l₂, rfl⟩ := hinv.split
  obtain ⟨-, -, htail⟩ := chain_split.mp hinv.chain
  -- the process `q` behind the current one is not in the new list
  have hq : processNext h.sched h.sched.schedCurrentProcess ∈ l₂ := htail.mem_of_ne_zero hlast
  set q := processNext h.sched h.sched.schedCurrentProcess
  have hnodup := hinv.chain.nodup
  have hmem : q ∈ h.processes := hinv.subset (by simp [hq])
  rintro ⟨l', hchain, hcount⟩
  have heq : l' = l₁ ++ h.sched.schedCurrentProcess :: [a.ptr] :=
    hchain.unique (hinv.chain_schedNew hne hfresh name)
  have hone := hcount q (List.mem_cons_of_mem _ hmem)
  rw [heq] at hone
  have hq' : q ∈ l₁ ++ h.sched.schedCurrentProcess :: [a.ptr] :=
    List.count_pos_iff.mp (by omega)
  rcases List.mem_append.mp hq' with hmem' | hmem'
  · exact (List.disjoint_of_nodup_append hnodup) hmem' (List.mem_cons_of_mem _ hq)
  · rcases List.mem_cons.mp hmem' with heq' | hmem'
    · have hcons := (List.nodup_append.mp hnodup).2.1
      exact (List.nodup_cons.mp hcons).1 (heq' ▸ hq)
    · exact hfresh (List.mem_singleton.mp hmem' ▸ hmem)

/-- Every call that meets the condition keeps the invariant. -/
theorem step {op : SchedOp} (hinv : ListInv h l) (hcond : CreatesAtEnd h op)
    (hstep : SchedStep h op h') : ∃ l', ListInv h' l' := by
  have hsched := hinv.sched.step hstep
  cases hstep with
  | new hne hfresh => exact hinv.new hne hfresh hcond _ hsched
  | newThread hne hfresh hproc hcall =>
    have hadd := schedNewThread_spec hinv.sched.closed hinv.sched.created hfresh hproc hcall
    refine ⟨l, hsched, ?_, hinv.all⟩
    dsimp only
    rw [hadd.list]
    exact hinv.chain.congr fun p _ => hadd.next p
  | schedule hcall =>
    have hs := schedule_spec hinv.sched.closed hcall
    refine ⟨l, hsched, ?_, hinv.all⟩
    dsimp only
    rw [hs.list]
    exact hinv.chain.congr fun p _ => by rw [processNext, processNext, hs.procs]

end ListInv

/-- `sched_init` leaves a list of two processes. -/
lemma listInv_start {a : InitAlloc} (hf : a.Fresh) {fuel : ℕ} {schedIdle : UInt64}
    (h : schedInit fuel s a schedIdle = some s') :
    ListInv (SchedRun.start s' a) [a.process.ptr, a.idle.ptr] := by
  obtain ⟨-, hadd⟩ := schedInit_spec hf h
  have hnext : ∀ p, processNext s' p =
      if p = a.process.ptr then a.idle.ptr
      else if p = a.idle.ptr then 0 else processNext (schedInitKernel s a) p :=
    fun p => (hadd.next p).trans (schedNew_next a.idle (cString "idle") p)
  refine ⟨schedInv_start hf h, ⟨hadd.list, hf.process, ?_, hf.idle, ?_⟩, ?_⟩
  · exact (hnext _).trans (if_pos rfl)
  · exact (hnext _).trans ((if_neg hf.process_idle).trans (if_pos rfl))
  · simp [SchedRun.start]

/-! ### The main result -/

/-- In every run in which `sched_new` is only called while the current process is the last one of
the list, no process is lost.  In every state of such a run the condition is exact: a call of
`sched_new` loses no process if and only if it meets the condition. -/
theorem processes_never_lost {s₀ s : Sched} {a : InitAlloc} (hf : a.Fresh) {fuel : ℕ} {schedIdle : UInt64}
    (hinit : schedInit fuel s₀ a schedIdle = some s) {ops : List SchedOp} {h : SchedRun}
    (htrace : Trace (Restrict CreatesAtEnd SchedStep) (SchedRun.start s a) ops h) :
    NoneLost h ∧ ∀ name h', SchedStep h (.new name) h' → (NoneLost h' ↔ CurrentIsLast h.sched) := by
  obtain ⟨l, hinv⟩ : ∃ l, ListInv h l := by
    refine htrace.invariant (fun h => ∃ l, ListInv h l) ⟨_, listInv_start hf hinit⟩ ?_
    rintro h op h' ⟨l, hinv⟩ ⟨hcond, hstep⟩
    exact hinv.step hcond hstep
  refine ⟨hinv.noneLost, fun name h' hstep => ⟨fun hnone => ?_, fun hlast => ?_⟩⟩
  · cases hstep with
    | new hne hfresh =>
      by_contra hlast
      exact hinv.not_noneLost_new hne hfresh hlast name hnone
  · obtain ⟨l', hinv'⟩ := hinv.step (show CreatesAtEnd h (.new name) from hlast) hstep
    exact hinv'.noneLost

/-- The run after the first tick. -/
def tickedRun : SchedRun :=
  { SchedRun.start bootSched bootAlloc with
    sched := tickedSched.1
    executing := tickedSched.1.schedCurrentThread
    expected := Function.update (SchedRun.start bootSched bootAlloc).expected 0x2000 zeroFrame }

/-- A tick and a new process after `sched_init`: the current process is the idle process, which is
the last one. -/
theorem processes_never_lost_after_tick : ∃ h,
    Trace (Restrict CreatesAtEnd SchedStep) (SchedRun.start bootSched bootAlloc)
      [.schedule zeroFrame, .new (cString "Proc1")] h ∧ NoneLost h := by
  have htick : SchedStep (SchedRun.start bootSched bootAlloc) (.schedule zeroFrame) tickedRun :=
    .schedule tickedSched_eq
  have hnew : SchedStep tickedRun (.new (cString "Proc1")) _ :=
    .new (a := ⟨0x6000, ⟨[], 0, 0, 0⟩⟩) (by decide) (by decide)
  have hlast : CreatesAtEnd tickedRun (.new (cString "Proc1")) := by
    change CurrentIsLast tickedSched.1
    decide
  have htrace : Trace (Restrict CreatesAtEnd SchedStep) (SchedRun.start bootSched bootAlloc)
      [.schedule zeroFrame, .new (cString "Proc1")] _ :=
    .snoc (.snoc .nil ⟨trivial, htick⟩) ⟨hlast, hnew⟩
  exact ⟨_, htrace, (processes_never_lost bootAlloc_fresh bootSched_eq htrace).1⟩

/-- What `kmain` does: it calls `sched_new` right after `sched_init`, while the kernel's process is
current.  The idle process, which is behind it, is no longer in the list. -/
theorem idle_process_lost : ∃ h,
    Trace SchedStep (SchedRun.start bootSched bootAlloc) [.new (cString "Proc1")] h ∧
      bootAlloc.idle.ptr ∈ h.processes ∧ ¬ NoneLost h := by
  have hstep : SchedStep (SchedRun.start bootSched bootAlloc) (.new (cString "Proc1")) _ :=
    .new (a := ⟨0x6000, ⟨[], 0, 0, 0⟩⟩) (by decide) (by decide)
  refine ⟨_, .single hstep, by decide, ?_⟩
  rintro ⟨l, hchain, hcount⟩
  have hnew : Chain (processNext (schedNew bootSched ⟨0x6000, ⟨[], 0, 0, 0⟩⟩ (cString "Proc1")))
      0x1000 [0x1000, 0x6000] := by
    refine ⟨rfl, by decide, rfl, by decide, rfl⟩
  obtain rfl := hchain.unique hnew
  have hidle := hcount 0x3000 (by decide)
  revert hidle
  decide

end Soaplin

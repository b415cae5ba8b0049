import Soaplin.Sched.WayOut
import Soaplin.Sched.Creations

/-!
# Nested ticks

Does a thread that is not running have the context with which it was last interrupted on its own
stack?  `ContextsOwned` says so, together with what it takes to resume the thread: its stack is as
it was, and the handler that switches to it loads exactly its registers.  The invariant `MachineInv`
keeps it while no tick is taken in a handler that switches threads, and none while a thread that
`sched_new_thread` has linked is not complete (`TickAllowed`): from `schedule` to the `iretq` the
CPU is still on the stack of the old thread while the new one is `sched_current_thread` already.
`nested_tick_steals_context` is the run with one such tick.
-/

namespace Soaplin

open ByteMemory TransitionTrace

variable {P : HandlerCode} {m : Memory} {base : ℕ} {f : Stackframe} {c : Cpu}

/-! ### The contexts -/

/-- The thread `t` is not running: another thread executes, or it is still being switched to. -/
def Machine.NotRunning (h : Machine) (t : Ptr) : Prop :=
  t ≠ h.run.executing ∨ h.switching = true

/-- The condition on a step: a tick is not taken in a handler that switches threads, nor while a
thread is in the lists that is not complete, and finds room for the handler's frames on the stack.
-/
def TickAllowed (P : HandlerCode) (h : Machine) : MachineOp → Prop
  | .tick => h.switching = false ∧ h.NoneIncomplete ∧
      (h.stack h.run.executing).1 + P.depth + stackframeSize + h.cpu.rsp.toNat % 16 ≤
        h.cpu.rsp.toNat
  | _ => True

/-! ### The invariant -/

/-- The invariant of the machine. -/
structure MachineInv (P : HandlerCode) (h : Machine) : Prop where
  sched : ∃ u, h.BeforeLink u ∧ SchedInv { h.run with sched := u }
  calls : CreationsInv P h.toCreationState
  stackEnd : ∀ t ∈ h.run.created, (h.stack t).2 ≤ Word64.modulus
  apart : ∀ t ∈ h.run.created, ∀ t' ∈ h.run.created, t ≠ t' →
    (h.stack t).2 ≤ (h.stack t').1 ∨ (h.stack t').2 ≤ (h.stack t).1
  /-- A thread that is not running would go on on its own stack. -/
  suspended : ∀ t ∈ h.run.created, h.NotRunning t →
    StaysOn P (h.stack t).1 (h.stack t).2 h.mem (h.run.expected t).cpu
  snapshot : ∀ t ∈ h.run.created, h.NotRunning t →
    ∀ x, (h.run.expected t).rsp.toNat ≤ x → x < (h.stack t).2 → h.mem x = h.snapshot t x
  running : h.switching = false →
    StaysOn P (h.stack h.run.executing).1 (h.stack h.run.executing).2 h.mem h.cpu
  /-- While threads are being switched, the new one has its expected frame as context. -/
  installed : h.switching = true →
    (h.run.sched.threads h.run.executing).context = h.run.expected h.run.executing
  resuming : h.switching = true →
    HandlerPath P h.mem h.cpu (h.run.expected h.run.executing).cpu
  /-- And the handler is on the stack of the old one, below where this was interrupted. -/
  leaving : h.switching = true → ∀ n, P.body h.cpu.rip = some n → ∃ t ∈ h.run.created,
    (h.stack t).1 + P.depth ≤ h.cpu.rsp.toNat + n + 8 ∧
      h.cpu.rsp.toNat + n ≤ (h.run.expected t).rsp.toNat ∧ h.cpu.rsp.toNat + n ≤ (h.stack t).2

namespace MachineInv

variable {h h' : Machine} {t : Ptr} {s : Sched} {call : Option Creating}

/-- The executing thread has been created. -/
lemma executing_mem (hinv : MachineInv P h) : h.run.executing ∈ h.run.created := by
  obtain ⟨u, -, hu⟩ := hinv.sched
  exact hu.executing_mem

/-- Unless the executing thread completes a thread it has linked, the invariant of the scheduler
holds. -/
lemma schedInv (hinv : MachineInv P h) (hpending : ∀ c pending,
    h.creating h.run.executing = some (.thread c pending) → .link ∈ pending) : SchedInv h.run := by
  obtain ⟨u, hbefore, hu⟩ := hinv.sched
  cases hbefore with
  | same => exact hu
  | linked hcall hlink => exact absurd (hpending _ _ hcall) hlink

/-- A thread that is not executing has its expected frame as context. -/
lemma saved (hinv : MachineInv P h) (ht : t ∈ h.run.created) (hexec : t ≠ h.run.executing) :
    (h.run.sched.threads t).context = h.run.expected t := by
  obtain ⟨u, hbefore, hu⟩ := hinv.sched
  cases hbefore with
  | same => exact hu.saved t ht hexec
  | @linked c pending _ hcall hlink hadd =>
    have hfresh := (hinv.calls.each _ _ hcall).fresh
    rw [hadd.context t (ne_of_mem_of_not_mem ht hfresh)]
    exact hu.saved t ht hexec

/-- A thread that is not running has its expected frame as context. -/
lemma context (hinv : MachineInv P h) (ht : t ∈ h.run.created) (hnot : h.NotRunning t) :
    (h.run.sched.threads t).context = h.run.expected t := by
  by_cases hexec : t = h.run.executing
  · have hsw : h.switching = true := hnot.resolve_left (not_not.mpr hexec)
    rw [hexec]
    exact hinv.installed hsw
  · exact hinv.saved ht hexec

/-- In the code of a thread no threads are being switched. -/
lemma not_switching (hinv : MachineInv P h) (hrip : P.Outside h.cpu.rip) : h.switching = false := by
  by_contra hsw
  exact (hinv.resuming (by simpa using hsw)).not_outside hrip

/-- So nothing is to be shown there for a switch. -/
lemma absurd_switching {p : Prop} (hinv : MachineInv P h) (hrip : P.Outside h.cpu.rip)
    (hsw : h.switching = true) : p :=
  absurd ((hinv.not_switching hrip).symm.trans hsw) Bool.false_ne_true

/-- The executing thread is running when no threads are being switched. -/
lemma ne_executing (hsw : h.switching = false) (hnot : h.NotRunning t) : t ≠ h.run.executing :=
  hnot.resolve_right (by simp [hsw])

/-- A change of memory that spares the stack of a thread that is not running, from its stack pointer
up, keeps what the invariant says of this thread. -/
lemma suspended_of_eq {m : Memory} (hinv : MachineInv P h) (ht : t ∈ h.run.created)
    (hnot : h.NotRunning t)
    (hm : ∀ x, (h.run.expected t).rsp.toNat ≤ x → h.OnStackOf t x → m x = h.mem x) :
    StaysOn P (h.stack t).1 (h.stack t).2 m (h.run.expected t).cpu ∧
      ∀ x, (h.run.expected t).rsp.toNat ≤ x → x < (h.stack t).2 → m x = h.snapshot t x := by
  have hrsp := (hinv.suspended t ht hnot).rsp_mem
  have hsame : ∀ x, (h.run.expected t).rsp.toNat ≤ x → x < (h.stack t).2 → m x = h.mem x :=
    fun x hx hxh => hm x hx ⟨hrsp.1.trans hx, hxh⟩
  refine ⟨(hinv.suspended t ht hnot).congr hsame, fun x hx hxh => ?_⟩
  exact (hsame x hx hxh).trans (hinv.snapshot t ht hnot x hx hxh)

/-! ### The code of threads -/

/-- The code of a thread keeps the invariant. -/
lemma code {m : Memory} (hinv : MachineInv P h) (hrip : P.Outside h.cpu.rip)
    (hrip' : P.Outside c.rip) (hrsp : h.OnStackOf h.run.executing c.rsp.toNat)
    (hmem : ∀ t ∈ h.run.created, t ≠ h.run.executing → ∀ x, h.OnStackOf t x → m x = h.mem x) :
    MachineInv P { h with cpu := c, mem := m } := by
  have hsw := hinv.not_switching hrip
  have hkept : ∀ t ∈ h.run.created, h.NotRunning t →
      StaysOn P (h.stack t).1 (h.stack t).2 m (h.run.expected t).cpu ∧
        ∀ x, (h.run.expected t).rsp.toNat ≤ x → x < (h.stack t).2 → m x = h.snapshot t x :=
    fun t ht hnot =>
      hinv.suspended_of_eq ht hnot fun x _ => hmem t ht (ne_executing hsw hnot) x
  have hno : ∀ {p : Prop}, h.switching = true → p := hinv.absurd_switching hrip
  exact ⟨hinv.sched, hinv.calls, hinv.stackEnd, hinv.apart, fun t ht hnot => (hkept t ht hnot).1,
    fun t ht hnot => (hkept t ht hnot).2, fun _ => .code hrip' hrsp.1 hrsp.2, hno, hno, hno⟩

/-- A step of a creation before its end keeps the rest of the invariant. -/
lemma create (hinv : MachineInv P h) (hrip : P.Outside h.cpu.rip)
    (hsched : ∃ u, (h.create s call).BeforeLink u ∧ SchedInv { h.run with sched := u })
    (hcalls : CreationsInv P (h.create s call)) :
    MachineInv P { h with toCreationState := h.create s call } := by
  have hno : ∀ {p : Prop}, h.switching = true → p := hinv.absurd_switching hrip
  exact ⟨hsched, hcalls, hinv.stackEnd, hinv.apart, hinv.suspended, hinv.snapshot, hinv.running,
    hno, hno, hno⟩

/-- A call of `sched_new` begins. -/
lemma new {a : ProcessAlloc} {name : List UInt8} (hinv : MachineInv P h)
    (hrip : P.Outside h.cpu.rip) (hidle : h.creating h.run.executing = none)
    (hfresh : a.ptr ∉ h.run.processes) (hcalls : h.FreshCall (.process a name newProcessStores)) :
    MachineInv P { h with
      toCreationState := h.create (h.run.sched.setProc a.ptr a.junk)
        (some (.process a name newProcessStores)) } := by
  have hsched := hinv.schedInv fun c pending hc => absurd (hidle.symm.trans hc) nofun
  have hthreads : ProcessStore.threads ∈ newProcessStores := by decide
  have hnext : ProcessStore.next ∈ newProcessStores := by decide
  refine hinv.create hrip ⟨_, .create nofun, hsched.setProc hfresh a.junk _⟩
    (hinv.calls.create ?_ ?_ ?_)
  · rintro c ⟨⟩
    exact ⟨hfresh, List.suffix_refl _, fun h => absurd hthreads h, fun h => absurd hnext h⟩
  · rintro c ⟨⟩ t - other hother
    exact hcalls t other hother
  · intro t _ b name' pending hb
    exact Function.update_of_ne (hcalls t _ hb).symm _ _

/-- The record of a call of `sched_new` in progress differs from those of the other calls. -/
lemma process_ne {a b : ProcessAlloc} {name name' : List UInt8}
    {pending pending' : List ProcessStore} (hinv : MachineInv P h)
    (hcall : h.creating h.run.executing = some (.process a name pending))
    (ht : t ≠ h.run.executing) (hb : h.creating t = some (.process b name' pending')) :
    b.ptr ≠ a.ptr :=
  hinv.calls.distinct t h.run.executing ht _ hb _ hcall

/-- The record of a call of `sched_new_thread` in progress differs from those of the other calls. -/
lemma thread_ne {c d : NewThreadCall} {pending pending' : List ThreadStore}
    (hinv : MachineInv P h) (hcall : h.creating h.run.executing = some (.thread c pending))
    (ht : t ≠ h.run.executing) (hd : h.creating t = some (.thread d pending')) :
    d.alloc.ptr ≠ c.alloc.ptr :=
  hinv.calls.distinct t h.run.executing ht _ hd _ hcall

/-- A store of `sched_new`, but the last one. -/
lemma processStore {a : ProcessAlloc} {name : List UInt8} {st : ProcessStore}
    {rest : List ProcessStore} (hinv : MachineInv P h) (hrip : P.Outside h.cpu.rip)
    (hcall : h.creating h.run.executing = some (.process a name (st :: rest))) (hrest : rest ≠ [])
    (hmade : ProcessStoreMade a name h.run.processes h.run.sched st s) :
    MachineInv P { h with toCreationState := h.create s (some (.process a name rest)) } := by
  have hold : ProcessCall h.toCreationState a (st :: rest) := hinv.calls.each _ _ hcall
  have hsched := hinv.schedInv fun c pending hc => absurd (hcall.symm.trans hc) nofun
  have hne : st ≠ .link := fun heq => hrest ((eq_link_iff hold.suffix).mp heq)
  obtain ⟨r, n, rfl, hr⟩ := hmade.spec hne
  have hnew : ({ h.run.sched.setProc a.ptr r with nextFreePid := n } : Sched).procs a.ptr = r :=
    Function.update_self _ _ _
  refine hinv.create hrip ⟨_, .create nofun, hsched.setProc hold.fresh r n⟩
    (hinv.calls.create ?_ ?_ ?_)
  · rintro c ⟨⟩
    refine ⟨hold.fresh, (List.suffix_cons _ _).trans hold.suffix, fun hpending => ?_,
      fun hpending => ?_⟩
    · refine (congrArg _ hnew).trans ?_
      rw [hr.threads]
      split_ifs with heq
      · rfl
      · exact hold.threads (List.not_mem_cons_of_ne_of_not_mem (Ne.symm heq) hpending)
    · refine (congrArg _ hnew).trans ?_
      rw [hr.next]
      split_ifs with heq
      · rfl
      · exact hold.next (List.not_mem_cons_of_ne_of_not_mem (Ne.symm heq) hpending)
  · rintro c ⟨⟩ t ht other hother
    have hdistinct := hinv.calls.distinct h.run.executing t ht.symm _ hcall other hother
    cases other <;> exact hdistinct
  · intro t ht b name' pending hb
    exact Function.update_of_ne (hinv.process_ne hcall ht hb) _ _

/-- The last store of `sched_new`. -/
lemma processEnd {a : ProcessAlloc} {name : List UInt8} {st : ProcessStore} (hinv : MachineInv P h)
    (hrip : P.Outside h.cpu.rip)
    (hcall : h.creating h.run.executing = some (.process a name [st]))
    (hmade : ProcessStoreMade a name h.run.processes h.run.sched st s) :
    MachineInv P { h with toCreationState := (h.create s none).addProcess a.ptr } := by
  have hold : ProcessCall h.toCreationState a [st] := hinv.calls.each _ _ hcall
  have hsched := hinv.schedInv fun c pending hc => absurd (hcall.symm.trans hc) nofun
  have hno : ∀ {p : Prop}, h.switching = true → p := hinv.absurd_switching hrip
  obtain rfl : st = .link := (eq_link_iff hold.suffix).mpr rfl
  obtain ⟨p, hp, hs⟩ := hmade.link_spec
  have hlinked : SchedInv { h.run with sched := s, processes := a.ptr :: h.run.processes } := by
    rw [hs]
    exact hsched.linkProcess hold.fresh (hold.threads (by decide)) (hold.next (by decide)) hp
  have hcalls : CreationsInv P (h.create s none) := by
    refine hinv.calls.create nofun nofun fun t ht b name' pending hb => ?_
    have hb' : ProcessCall h.toCreationState b pending := hinv.calls.each t _ hb
    rw [hs]
    exact Function.update_of_ne (ne_of_mem_of_not_mem hp hb'.fresh).symm _ _
  have hself := h.create_creating s none
  refine ⟨⟨_, .same fun c pending hc => absurd (hself.symm.trans hc) nofun, hlinked⟩,
    hcalls.addProcess fun t b name' pending hb => ?_, hinv.stackEnd, hinv.apart, hinv.suspended,
    hinv.snapshot, hinv.running, hno, hno, hno⟩
  by_cases ht : t = h.run.executing
  · subst ht
    exact absurd (hself.symm.trans hb) nofun
  · exact hinv.process_ne hcall ht ((h.create_creating_of_ne s none ht).symm.trans hb)

/-- A call of `sched_new_thread` begins. -/
lemma newThread {c : NewThreadCall} (hinv : MachineInv P h) (hrip : P.Outside h.cpu.rip)
    (hidle : h.creating h.run.executing = none) (hne : c.alloc.ptr ≠ 0)
    (hfresh : c.alloc.ptr ∉ h.run.created) (hcalls : h.FreshCall (.thread c newThreadStores))
    (hproc : c.proc ∈ h.run.processes) (hfunction : P.Outside c.function) :
    MachineInv P { h with
      toCreationState := h.create (h.run.sched.setThread c.alloc.ptr c.alloc.junk)
        (some (.thread c newThreadStores)) } := by
  have hsched := hinv.schedInv fun c pending hc => absurd (hidle.symm.trans hc) nofun
  have hlink : ThreadStore.link ∈ newThreadStores := by decide
  have hrsp : ThreadStore.rsp ∈ newThreadStores := by decide
  refine hinv.create hrip ⟨_, .create ?_, hsched.setThread hfresh c.alloc.junk⟩
    (hinv.calls.create ?_ ?_ fun _ _ _ _ _ _ => rfl)
  · rintro d pending ⟨⟩
    exact hlink
  · rintro d ⟨⟩
    exact ⟨hne, hfresh, hproc, hfunction, List.suffix_refl _, fun h => absurd hrsp h⟩
  · rintro d ⟨⟩ t - other hother
    exact hcalls t other hother

/-- While the executing thread completes a thread it has linked, the invariant of the scheduler
holds of the state before the link. -/
lemma adding {c : NewThreadCall} {pending : List ThreadStore} (hinv : MachineInv P h)
    (hcall : h.creating h.run.executing = some (.thread c pending)) (hlink : .link ∉ pending) :
    ∃ u, ThreadAdding c pending u h.run.sched ∧ SchedInv { h.run with sched := u } := by
  obtain ⟨u, hbefore, hu⟩ := hinv.sched
  cases hbefore with
  | same hpending => exact absurd (hpending c pending hcall) hlink
  | @linked c' pending' _ hcall' _ hadd =>
    obtain ⟨rfl, rfl⟩ := Creating.thread.inj (Option.some.inj (hcall.symm.trans hcall'))
    exact ⟨u, hadd, hu⟩

/-- The stores of `sched_new_thread` do not reach the new records of calls of `sched_new`. -/
lemma procs_of_made {c : NewThreadCall} {pending : List ThreadStore} {st : ThreadStore}
    (hinv : MachineInv P h) (hcall : h.creating h.run.executing = some (.thread c pending))
    (hmade : ThreadStoreMade c h.Linked h.run.sched st s) {a : ProcessAlloc} {name : List UInt8}
    {pending' : List ProcessStore} (ha : h.creating t = some (.process a name pending')) :
    s.procs a.ptr = h.run.sched.procs a.ptr := by
  have hthread : ThreadCall P h.toCreationState c pending := hinv.calls.each _ _ hcall
  have hprocess : ProcessCall h.toCreationState a pending' := hinv.calls.each _ _ ha
  exact hmade.procs_of_ne (ne_of_mem_of_not_mem hthread.proc hprocess.fresh).symm

/-- A store of `sched_new_thread`, but the last one. -/
lemma threadStore {c : NewThreadCall} {st : ThreadStore} {rest : List ThreadStore}
    (hinv : MachineInv P h) (hrip : P.Outside h.cpu.rip)
    (hcall : h.creating h.run.executing = some (.thread c (st :: rest)))
    (hmade : ThreadStoreMade c h.Linked h.run.sched st s)
    (hstack : st = .rsp → h.FreshStack c.alloc.stack) :
    MachineInv P { h with toCreationState := h.create s (some (.thread c rest)) } := by
  have hold : ThreadCall P h.toCreationState c (st :: rest) := hinv.calls.each _ _ hcall
  have hrest : .link ∉ rest := link_notMem_tail hold.suffix
  refine hinv.create hrip ?_ (hinv.calls.create ?_ ?_ fun t _ a name pending ha =>
    hinv.procs_of_made hcall hmade ha)
  · by_cases hlink : st = .link
    · -- the state before the link is the one before this store
      subst hlink
      have heq := eq_newThreadStores hold.suffix List.mem_cons_self
      have hsched := hinv.schedInv fun d pending hd => by
        obtain ⟨rfl, rfl⟩ := Creating.thread.inj (Option.some.inj (hcall.symm.trans hd))
        exact List.mem_cons_self
      refine ⟨h.run.sched, .linked (h.create_creating s _) hrest ?_, hsched⟩
      rw [show rest = newThreadStores.tail from congrArg List.tail heq]
      exact ThreadAdding.link hmade
    · obtain ⟨u, hadd, hu⟩ := hinv.adding hcall
        (List.not_mem_cons_of_ne_of_not_mem (Ne.symm hlink) hrest)
      exact ⟨u, .linked (h.create_creating s _) hrest (hadd.field hlink hmade), hu⟩
  · rintro d ⟨⟩
    refine ⟨hold.ne_zero, hold.fresh, hold.proc, hold.function,
      (List.suffix_cons _ _).trans hold.suffix, fun hpending => ?_⟩
    by_cases hst : st = .rsp
    · exact hstack hst
    · exact hold.stack (List.not_mem_cons_of_ne_of_not_mem (Ne.symm hst) hpending)
  · rintro d ⟨⟩ t ht other hother
    have hdistinct := hinv.calls.distinct h.run.executing t ht.symm _ hcall other hother
    cases other <;> exact hdistinct

/-- The last store of `sched_new_thread`. -/
lemma threadEnd {c : NewThreadCall} {st : ThreadStore} (hinv : MachineInv P h)
    (hrip : P.Outside h.cpu.rip) (hcall : h.creating h.run.executing = some (.thread c [st]))
    (hmade : ThreadStoreMade c h.Linked h.run.sched st s) :
    MachineInv P { h with
      toCreationState := (h.create s none).addThread c.alloc
      snapshot := Function.update h.snapshot c.alloc.ptr h.mem } := by
  have hsw := hinv.not_switching hrip
  have hno : ∀ {p : Prop}, h.switching = true → p := hinv.absurd_switching hrip
  have hcallInv : ThreadCall P h.toCreationState c [st] := hinv.calls.each _ _ hcall
  obtain rfl := eq_rbp hcallInv.suffix
  obtain ⟨u, hadding, hu⟩ := hinv.adding hcall (by decide)
  have hadd : ThreadAdding c [] u s := hadding.field nofun hmade
  have hsched := hu.addThread hadd.toLinkAdded (hadd.newNext nofun) hcallInv.ne_zero
  obtain ⟨hend, hstack⟩ := hcallInv.stack (by decide)
  have hself := h.create_creating s none
  have hcalls : CreationsInv P (h.create s none) := hinv.calls.create nofun nofun
    fun t _ a name pending ha => hinv.procs_of_made hcall hmade ha
  have hnone : (h.create s none).NoneIncomplete := by
    intro t d pending hd
    by_cases ht : t = h.run.executing
    · subst ht
      exact absurd (hself.symm.trans hd) nofun
    · exact hinv.calls.unlinked t ht d pending ((h.create_creating_of_ne s none ht).symm.trans hd)
  have hexec : h.run.executing ≠ c.alloc.ptr :=
    ne_of_mem_of_not_mem hinv.executing_mem hcallInv.fresh
  have hold : ∀ {t}, t ∈ c.alloc.ptr :: h.run.created → t ≠ c.alloc.ptr → t ∈ h.run.created :=
    fun ht hta => (List.mem_cons.mp ht).resolve_left hta
  refine ⟨⟨_, .same fun d pending hd => absurd (hself.symm.trans hd) nofun, hsched⟩,
    hcalls.addThread hnone fun t d pending hd => ?_, fun t ht => ?_, fun t ht t' ht' htt => ?_,
    fun t ht hnot => ?_, fun t ht hnot => ?_, fun _ => ?_, hno, hno, hno⟩
  · by_cases ht : t = h.run.executing
    · subst ht
      exact absurd (hself.symm.trans hd) nofun
    · exact hinv.thread_ne hcall ht ((h.create_creating_of_ne s none ht).symm.trans hd)
  · by_cases hta : t = c.alloc.ptr
    · simpa [CreationState.addThread, hta] using hend
    · simpa [CreationState.addThread, CreationState.create, hta] using hinv.stackEnd t (hold ht hta)
  · by_cases hta : t = c.alloc.ptr <;> by_cases hta' : t' = c.alloc.ptr
    · exact absurd (hta.trans hta'.symm) htt
    · simpa [CreationState.addThread, CreationState.create, hta, hta'] using
        hstack t' (hold ht' hta')
    · simpa [CreationState.addThread, CreationState.create, hta, hta'] using
        (hstack t (hold ht hta)).symm
    · simpa [CreationState.addThread, CreationState.create, hta, hta'] using
        hinv.apart t (hold ht hta) t' (hold ht' hta') htt
  · by_cases hta : t = c.alloc.ptr
    · subst hta
      simp only [CreationState.addThread, CreationState.create, Function.update_self]
      exact staysOn_created (hadd.rsp nofun) (hadd.rip nofun) hcallInv.function hend
    · simpa [CreationState.addThread, CreationState.create, hta] using
        hinv.suspended t (hold ht hta) hnot
  · by_cases hta : t = c.alloc.ptr
    · subst hta
      intro x _ _
      simp
    · simpa [CreationState.addThread, CreationState.create, hta] using
        hinv.snapshot t (hold ht hta) hnot
  · simpa [CreationState.addThread, CreationState.create, hexec] using hinv.running hsw

/-! ### The handler -/

/-- An instruction of the rest of `interrupt_handler` keeps the invariant. -/
lemma handler {n n' : ℕ} {m : Memory} {b : Bool} (hinv : MachineInv P h)
    (hbody : P.body h.cpu.rip = some n) (hbody' : P.Below c.rip n')
    (hrsp : c.rsp.toNat + n' = h.cpu.rsp.toNat + n)
    (hm : ∀ x, x + P.depth < h.cpu.rsp.toNat + n + 8 ∨ h.cpu.rsp.toNat + n ≤ x → m x = h.mem x) :
    MachineInv P { h with cpu := c, mem := m, inService := b } := by
  -- what the handler writes to is on the stack of the interrupted thread, below its stack pointer
  have hspared : ∀ t ∈ h.run.created, h.NotRunning t → ∀ x,
      (h.run.expected t).rsp.toNat ≤ x → h.OnStackOf t x → m x = h.mem x := by
    rintro t ht hnot x hx ⟨hlo', hhi'⟩
    cases hsw : h.switching with
    | false =>
      obtain ⟨hlo, hhi, -⟩ := (hinv.running hsw).body hbody
      rcases hinv.apart t ht _ hinv.executing_mem (ne_executing hsw hnot) with hap | hap
      · exact hm x (.inl (by omega))
      · exact hm x (.inr (by omega))
    | true =>
      obtain ⟨t₀, ht₀, hlo, hexp, hhi⟩ := hinv.leaving hsw n hbody
      by_cases htt : t = t₀
      · subst htt
        exact hm x (.inr (by omega))
      · rcases hinv.apart t ht t₀ ht₀ htt with hap | hap
        · exact hm x (.inl (by omega))
        · exact hm x (.inr (by omega))
  have hkept := fun t ht hnot => hinv.suspended_of_eq (m := m) ht hnot (hspared t ht hnot)
  refine ⟨hinv.sched, hinv.calls, hinv.stackEnd, hinv.apart, fun t ht hnot => (hkept t ht hnot).1,
    fun t ht hnot => (hkept t ht hnot).2, fun hsw => ?_, hinv.installed, fun hsw => ?_,
    fun hsw k hk => ?_⟩
  · exact (hinv.running hsw).step_handler hbody hbody' hrsp fun x hx => hm x (.inr hx)
  · exact (hinv.resuming hsw).handler hbody hbody' hrsp fun x hx => hm x (.inr hx)
  · rcases hbody' with hn' | ⟨hret, -⟩
    · obtain rfl : k = n' := Option.some.inj (hk.symm.trans hn')
      obtain ⟨t₀, ht₀, hlo, hexp, hhi⟩ := hinv.leaving hsw n hbody
      dsimp only
      exact ⟨t₀, ht₀, by omega, by omega, by omega⟩
    · exact absurd hret (P.ne_code hk _)

/-- An instruction on the way out of a handler keeps the invariant. -/
lemma exit {e : ExitInstr} (hinv : MachineInv P h) (hrip : h.cpu.rip = P.code e) :
    MachineInv P { h with
      cpu := e.exec P h.mem h.cpu
      switching := h.switching && e ≠ .iretq } := by
  have hmono : ∀ t, Machine.NotRunning { h with
      cpu := e.exec P h.mem h.cpu
      switching := h.switching && e ≠ .iretq } t → h.NotRunning t := by
    rintro t (hne | hsw)
    · exact .inl hne
    · exact .inr (Bool.and_eq_true_iff.mp hsw).1
  have hnext : (h.switching && e ≠ .iretq) = true →
      ExitPath P h.mem (e.exec P h.mem h.cpu) (h.run.expected h.run.executing).cpu := by
    intro hsw
    obtain ⟨hold, he⟩ := Bool.and_eq_true_iff.mp hsw
    exact ((hinv.resuming hold).exitPath hrip).next hrip (by simpa using he)
  refine ⟨hinv.sched, hinv.calls, hinv.stackEnd, hinv.apart,
    fun t ht hnot => hinv.suspended t ht (hmono t hnot),
    fun t ht hnot => hinv.snapshot t ht (hmono t hnot), fun hsw => ?_, fun hsw => ?_,
    fun hsw => .exit (hnext hsw), fun hsw n hn => ?_⟩
  · dsimp only at hsw ⊢
    cases hold : h.switching with
    | false => exact (hinv.running hold).next hrip
    | true =>
      -- the `iretq` that ends a switch loads the registers of the new thread
      have he : e = .iretq := by simpa [hold] using hsw
      subst he
      rw [((hinv.resuming hold).exitPath hrip).last hrip]
      exact hinv.suspended _ hinv.executing_mem (.inr hold)
  · exact hinv.installed (Bool.and_eq_true_iff.mp hsw).1
  · obtain ⟨e', he'⟩ := (hnext hsw).exists_code
    exact absurd he' (P.ne_code hn e')

/-! ### The tick -/

/-- What a tick leaves in memory: the frame, the return address of the handler below it, and
everything outside the part of the stack that the handler uses. -/
lemma tick_memory {m₀ : Memory} (hm : ∀ x, x < base - P.depth ∨ base ≤ x → m x = m₀ x)
    (hbase : 8 ≤ base) :
    HoldsFrame (storeWord (storeWords m base f.words) (base - 8) (P.code (.afterPops 0))) base f ∧
      loadWord (storeWord (storeWords m base f.words) (base - 8) (P.code (.afterPops 0)))
        (base - 8) = P.code (.afterPops 0) ∧
      ∀ x, x < base - P.depth ∨ base + stackframeSize ≤ x →
        storeWord (storeWords m base f.words) (base - 8) (P.code (.afterPops 0)) x = m₀ x := by
  have hdepth := P.depth_ge
  have hsize : stackframeSize = 176 := rfl
  have hlen : f.words.length = 22 := rfl
  refine ⟨fun i hi => ?_, loadWord_storeWord_same _ _ _, fun x hx => ?_⟩
  · rw [loadWord_storeWord_of_disjoint (by omega)]
    exact loadWord_storeWords (by omega)
  · rw [storeWord, store64_apply_of_disjoint (by omega), storeWords_apply (by omega)]
    exact hm x (by omega)

/-- After a tick on the stack of the executing thread, this thread would go on on its own stack, like
the threads that are not running. -/
lemma suspended_of_tick (hinv : MachineInv P h) (hsw : h.switching = false)
    (hlo : (h.stack h.run.executing).1 + P.depth ≤ base)
    (hhi : base + stackframeSize ≤ h.cpu.rsp.toNat)
    (hm : ∀ x, x < base - P.depth ∨ base + stackframeSize ≤ x → m x = h.mem x)
    (ht : t ∈ h.run.created) :
    StaysOn P (h.stack t).1 (h.stack t).2 m
        (Function.update h.run.expected h.run.executing (h.cpu.frame 32 0) t).cpu ∧
      ∀ x, (Function.update h.run.expected h.run.executing (h.cpu.frame 32 0) t).rsp.toNat ≤ x →
        x < (h.stack t).2 → m x = Function.update h.snapshot h.run.executing h.mem t x := by
  have hcpu := hinv.running hsw
  obtain ⟨-, hend⟩ := hcpu.rsp_mem
  have hup : ∀ x, h.cpu.rsp.toNat ≤ x → m x = h.mem x := fun x hx => hm x (.inr (by omega))
  by_cases hte : t = h.run.executing
  · subst hte
    simp only [Function.update_self, frame_cpu]
    exact ⟨hcpu.congr fun x hx _ => hup x hx, fun x hx _ => hup x hx⟩
  · simp only [Function.update_of_ne hte]
    refine hinv.suspended_of_eq ht (.inl hte) fun x _ hx => ?_
    obtain ⟨hx, hxh⟩ := hx
    rcases hinv.apart t ht _ hinv.executing_mem hte with hap | hap
    · exact hm x (.inl (by omega))
    · exact hm x (.inr (by omega))

/-- A tick that is allowed keeps the invariant. -/
lemma tick {fuel inner n : ℕ} {scratch : Fin 15 → UInt64} {flags : UInt64} {b : Bool}
    (hinv : MachineInv P h) (hsw : h.switching = false) (hnone : h.NoneIncomplete)
    (hroom : (h.stack h.run.executing).1 + P.depth + stackframeSize + h.cpu.rsp.toNat % 16 ≤
      h.cpu.rsp.toNat)
    (hbase : FrameAt h.cpu.rsp base) (hdepth : P.depth ≤ base) (hstart : P.body P.start = some n)
    (hcall : schedule fuel inner h.run.sched (h.cpu.frame 32 0) = some (s, f))
    (hm : ∀ x, x < base - P.depth ∨ base ≤ x → m x = h.mem x) :
    MachineInv P { h with
      run := { h.run with
        sched := s
        executing := s.schedCurrentThread
        expected := Function.update h.run.expected h.run.executing (h.cpu.frame 32 0) }
      mem := storeWord (storeWords m base f.words) (base - 8) (P.code (.afterPops 0))
      cpu :=
        { gpr := scratch
          rip := P.start
          cs := 0x08
          rflags := flags
          rsp := .ofNat (base - 8 - n)
          ss := h.cpu.ss }
      inService := b
      switching := s.schedCurrentThread ≠ h.run.executing
      snapshot := Function.update h.snapshot h.run.executing h.mem } := by
  have hge := P.depth_ge
  have hn := P.body_le hstart
  have hsize : stackframeSize = 176 := rfl
  have hold : SchedInv h.run := hinv.schedInv fun c pending => hnone _ c pending
  have hsched := hold.step (.schedule hcall)
  have hframe : f = Function.update h.run.expected h.run.executing (h.cpu.frame 32 0)
      s.schedCurrentThread := hold.schedule_frame hcall
  obtain ⟨hholds, hret, hmem⟩ := tick_memory (P := P) (f := f) hm (by omega)
  generalize storeWord (storeWords m base f.words) (base - 8) (P.code (.afterPops 0)) = m'
    at hholds hret hmem ⊢
  obtain ⟨hlo, hhi⟩ := (hinv.running hsw).rsp_mem
  have hend := hinv.stackEnd _ hinv.executing_mem
  rw [FrameAt] at hbase
  have hrsp : (UInt64.ofNat (base - 8 - n)).toNat = base - 8 - n := toNat_ofNat_of_lt (by omega)
  have hsuspended := fun t ht =>
    hinv.suspended_of_tick (t := t) hsw (by omega) (by omega) hmem ht
  refine ⟨⟨s, .same fun c pending => hnone _ c pending, hsched⟩,
    hinv.calls.schedule hold hnone hcall, hinv.stackEnd, hinv.apart,
    fun t ht _ => (hsuspended t ht).1, fun t ht _ => (hsuspended t ht).2, fun hsw' => ?_,
    fun hsw' => ?_, fun hsw' => ?_, fun _ k hk => ?_⟩
  · -- the handler goes on with the same thread, whose frame is on its own stack
    have hsame : s.schedCurrentThread = h.run.executing := by simpa using hsw'
    dsimp only
    rw [hsame]
    rw [hsame, Function.update_self] at hframe
    subst hframe
    refine staysOn_of_body hholds hret (by omega) (by omega) (by omega) ?_ ?_ hstart ?_
    · change base + stackframeSize ≤ h.cpu.rsp.toNat
      omega
    · have hstay := (hsuspended _ hinv.executing_mem).1
      rwa [Function.update_self] at hstay
    · rw [hrsp]
      omega
  · -- the new thread's context has just been read
    have hne : s.schedCurrentThread ≠ h.run.executing := by simpa using hsw'
    dsimp only
    rw [← hframe]
    exact ((schedule_spec hold.closed hcall).frame).symm
  · dsimp only
    rw [← hframe]
    refine handlerPath_of_frame hholds hret (by omega) (by omega) hstart ?_
    rw [hrsp]
    omega
  · obtain rfl : n = k := Option.some.inj (hstart.symm.trans hk)
    dsimp only
    rw [hrsp]
    refine ⟨h.run.executing, hinv.executing_mem, by omega, ?_, by omega⟩
    rw [Function.update_self]
    change base - 8 - n + n ≤ h.cpu.rsp.toNat
    omega

/-- Every allowed step keeps the invariant. -/
theorem step {op : MachineOp} (hinv : MachineInv P h) (hcond : TickAllowed P h op)
    (hstep : MachineStep P h op h') : MachineInv P h' := by
  cases hstep with
  | code hrip hrip' hrsp hmem => exact hinv.code hrip hrip' hrsp hmem
  | new hrip hidle hne hfresh hcalls => exact hinv.new hrip hidle hfresh hcalls
  | processStore hrip hcall hrest hmade => exact hinv.processStore hrip hcall hrest hmade
  | processEnd hrip hcall hmade => exact hinv.processEnd hrip hcall hmade
  | newThread hrip hidle hne hfresh hcalls hproc hfunction =>
    exact hinv.newThread hrip hidle hne hfresh hcalls hproc hfunction
  | threadStore hrip hcall hrest hmade hstack => exact hinv.threadStore hrip hcall hmade hstack
  | threadEnd hrip hcall hmade => exact hinv.threadEnd hrip hcall hmade
  | tick hif hservice hbase hdepth hstart hcall hm hflags =>
    exact hinv.tick hcond.1 hcond.2.1 hcond.2.2 hbase hdepth hstart hcall hm
  | handler hbody hbody' hrsp hm => exact hinv.handler hbody hbody' hrsp hm
  | exit hrip => exact hinv.exit hrip

end MachineInv

/-- The position of an instruction on the way out of the handler. -/
def ExitInstr.index : ExitInstr → ℕ
  | .ret => 0
  | .pop r => r + 1
  | .addRsp => 16
  | .iretq => 17

/-- The way out of the handler as eighteen consecutive addresses, and before them two instructions
of the rest of `interrupt_handler`, of which the first one acknowledges the interrupt. -/
def bootCode : HandlerCode where
  code := fun e => .ofNat (0xF000 + e.index)
  injective := by
    intro e e' heq
    have hle : ∀ e : ExitInstr, e.index ≤ 17 := by
      intro e
      cases e <;> simp only [ExitInstr.index] <;> omega
    have h₁ := hle e
    have h₂ := hle e'
    have hnat := congrArg UInt64.toNat heq
    have hmod : Word64.modulus = 2 ^ 64 := rfl
    rw [toNat_ofNat_of_lt (by omega), toNat_ofNat_of_lt (by omega)] at hnat
    have hindex : e.index = e'.index := by omega
    cases e <;> cases e' <;> simp only [ExitInstr.index] at hindex <;>
      first | rfl | omega | exact congrArg _ (Fin.ext (by omega))
  body := fun rip => if rip = 0xEFF0 ∨ rip = 0xEFF1 then some 16 else none
  body_code := by
    intro e
    have hle : e.index ≤ 17 := by
      cases e <;> simp only [ExitInstr.index] <;> omega
    have hmod : Word64.modulus = 2 ^ 64 := rfl
    have hrip : (UInt64.ofNat (0xF000 + e.index)).toNat = 0xF000 + e.index :=
      toNat_ofNat_of_lt (by omega)
    rw [if_neg]
    rintro (heq | heq) <;> rw [heq] at hrip <;> revert hrip <;> simp <;> omega
  start := 0xEFF0
  start_isSome := rfl
  ack := 0xEFF0
  depth := 64
  body_le := by
    intro rip n hn
    split_ifs at hn
    cases hn
    decide

/-- The machine after `sched_init`, in the code of the kernel's thread. -/
def bootMachine : Machine where
  run := SchedRun.start bootSched bootAlloc
  stack := fun t => if t = 0x4000 then (0x5000, 0x6000) else (0x100000, 0x101000)
  creating := fun _ => none
  mem := fun _ => 0
  cpu := ⟨fun _ => 0, 0x70000, 0x08, 0x202, 0x100800, 0x10⟩
  inService := false
  switching := false
  snapshot := fun _ _ => 0

/-- The result of a call of `schedule` on the frame of the registers `c`. -/
def tickResult (s : Sched) (c : Cpu) : Sched × Stackframe :=
  (schedule 2 2 s (c.frame 32 0)).getD (s, c.frame 32 0)

/-- The machine after a tick whose frame is at `base`, when the handler leaves nothing behind. -/
def Machine.tick (h : Machine) (base : ℕ) : Machine :=
  { h with
    run := { h.run with
      sched := (tickResult h.run.sched h.cpu).1
      executing := (tickResult h.run.sched h.cpu).1.schedCurrentThread
      expected := Function.update h.run.expected h.run.executing (h.cpu.frame 32 0) }
    mem := storeWord (storeWords h.mem base (tickResult h.run.sched h.cpu).2.words) (base - 8)
      (bootCode.code (.afterPops 0))
    cpu := ⟨fun _ => 0, bootCode.start, 0x08, 0x202, .ofNat (base - 8 - 16), h.cpu.ss⟩
    inService := true
    switching := (tickResult h.run.sched h.cpu).1.schedCurrentThread ≠ h.run.executing
    snapshot := Function.update h.snapshot h.run.executing h.mem }

end Soaplin

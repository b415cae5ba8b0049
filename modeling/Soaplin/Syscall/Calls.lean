import Soaplin.Console.FormattedLog
import Soaplin.Interrupts.Handler
import Soaplin.Sched.Identifiers

/-!
# System calls from end to end

Threads run, ticks switch between them, processes and threads are created, and threads call the
kernel with `int 0x80`.  Here the interrupt handler works with the functions that `syscall_init`
registers, `syscall_write` and `syscall_getpid`, on the console and on the scheduler.
`calls_served` describes the runs of such a kernel as a whole: for the scheduler only the ticks and
the creations count, the console receives what the system calls and the creations put out, in turn,
and the next system call is served in exactly one way.

The threads may change the memory as they like, except for the table, and print through
`syscall_write` only.
-/

namespace Soaplin

open ByteMemory Word64 StateExcept TransitionTrace

/-! ### The kernel -/

/-- The functions that `syscall_init` registers, when `c` is the console. -/
def kernelEnv (P : Platform) (d : SyscallImage) (c : Console) : HandlerEnv where
  image := d
  callFunc f k sf :=
    if f = d.syscallWrite.addr then
      match syscallWrite P k.mem sf c with
      | .ok (sf', _) => some (k, sf')
      | .error _ => none
    else if f = d.syscallGetpid.addr then some (k, syscallGetpid k.sched sf)
    else none

/-- What the handler does to the console on its way, when `m` is the memory and `sf` the frame. -/
def HandlerEvent.report (P : Platform) (d : SyscallImage) (m : Memory) (sf : Stackframe) :
    HandlerEvent → Call Unit
  | .logln lt cmp msg args => Soaplin.logln P lt cmp msg args
  | .call f => if f = d.syscallWrite.addr then syscallWrite P m sf >>= fun _ => pure () else pure ()
  | .readSlot _ => pure ()
  | .outb _ => pure ()

/-- The same for all that the handler does. -/
def reportEvents (P : Platform) (d : SyscallImage) (m : Memory) (sf : Stackframe)
    (evs : List HandlerEvent) : Call Unit :=
  evs.forM fun ev => ev.report P d m sf

/-- The scheduler, with what a run of it carries, and the console. -/
structure CallState where
  run : SchedRun
  console : Console

/-- What happens in a run: the call that creates a process, the call that creates a thread and gives
it the identifier `tid`, and an interrupt, with the memory, the frame that it has interrupted and
the frame that it returns to. -/
inductive KernelCall
  | new (name : List UInt8)
  | newThread (proc : Ptr) (name : List UInt8) (function : UInt64) (tid : ℕ)
  | interrupt (m : Memory) (sf sf' : Stackframe)

/-- The table holds what `syscall_init` has registered. -/
def TableIntact (d : SyscallImage) (m : Memory) : Prop :=
  ∀ i < syscallMaxSlots, load64 m (d.slot i) = lastRegistered d [] i

/-- One call or interrupt.  A system call has a number below `SYSCALL_MAX_SLOTS`. -/
inductive CallStep (P : Platform) (d : SyscallImage) : CallState → KernelCall → CallState → Prop
  | new {k : CallState} {name : List UInt8} {h : SchedRun} (hstep : SchedStep k.run (.new name) h) :
      CallStep P d k (.new name) ⟨h, k.console⟩
  /-- `sched_new_thread` reports the new thread. -/
  | newThread {k : CallState} {proc : Ptr} {name : List UInt8} {function : UInt64} {h : SchedRun}
      {t : Ptr} {c : Console} (hstep : SchedStep k.run (.newThread proc name function) h)
      (hthread : h.created = t :: k.run.created)
      (hlog : logln P .info "sched" "new thread %d\n" [.int (h.sched.threads t).tid] k.console =
        .ok ((), c)) :
      CallStep P d k (.newThread proc name function (h.sched.threads t).tid) ⟨h, c⟩
  | tick {k : CallState} {s s' : HandlerState} {sf sf' : Stackframe} {evs : List HandlerEvent}
      {c : Console} {fuel inner : ℕ} (hvec : sf.vector = 32) (hsched : s.sched = k.run.sched)
      (hrun : interruptHandler fuel inner (kernelEnv P d k.console) s sf = (evs, .returned s' sf'))
      (hreport : reportEvents P d s.mem sf evs k.console = .ok ((), c)) :
      CallStep P d k (.interrupt s.mem sf sf')
        ⟨{ k.run with
          sched := s'.sched
          executing := s'.sched.schedCurrentThread
          expected := Function.update k.run.expected k.run.executing sf }, c⟩
  /-- An interrupt line, or a system call. -/
  | trap {k : CallState} {s s' : HandlerState} {sf sf' : Stackframe} {evs : List HandlerEvent}
      {c : Console} {fuel inner : ℕ} (hvec : 32 < sf.vector) (hsched : s.sched = k.run.sched)
      (hnumber : sf.vector = 128 → sf.rax.toNat < syscallMaxSlots) (htable : TableIntact d s.mem)
      (hrun : interruptHandler fuel inner (kernelEnv P d k.console) s sf = (evs, .returned s' sf'))
      (hreport : reportEvents P d s.mem sf evs k.console = .ok ((), c)) :
      CallStep P d k (.interrupt s.mem sf sf') ⟨{ k.run with sched := s'.sched }, c⟩

/-! ### What is put out -/

/-- What the terminal and the serial port receive. -/
structure Output where
  term : List TermCall
  serial : List UInt8

/-- The call of `logln` for a number without a function. -/
def missingCallRecord (addr : String → BitVec 64) (rax : ℕ) : LogRecord addr :=
  numberRecord .warn "arch/ints" "No syscall with ID %d exists: ignoring.\n" "No syscall with ID "
    " exists: ignoring.\n" (by decide +kernel) (by decide +kernel) (by decide +kernel)
    (by decide +kernel) (by decide +kernel) (toInt32 rax)

/-- The output of a record. -/
def LogRecord.output {addr : String → BitVec 64} (r : LogRecord addr) : Output := ⟨r.calls, r.line⟩

/-- The output of a system call with the frame `sf`: `write` to the descriptor 1 hands the bytes of
the buffer to the terminal, a number other than 1 and 2 is reported, and `getpid` is silent. -/
def syscallOutput (addr : String → BitVec 64) (m : Memory) (sf : Stackframe) : Output :=
  if sf.rax = 1 then
    if sf.rsi ≠ 0 ∧ toInt32 sf.rdi.toNat = 1 then
      ⟨(List.range (writeCount sf)).map fun i => .write [m (sf.rsi.toNat + i)], []⟩
    else ⟨[], []⟩
  else if sf.rax = 2 then ⟨[], []⟩
  else (missingCallRecord addr sf.rax.toNat).output

/-- The frame after a system call of a thread in a process with the pid `pid`: `write` fails for a
`NULL` buffer, `getpid` gives the pid, and in all other cases nothing changes. -/
def syscallAnswer (pid : ℤ) (sf : Stackframe) : Stackframe :=
  if sf.rax = 1 ∧ sf.rsi = 0 then { sf with rax := 0 }
  else if sf.rax = 2 then { sf with rax := .ofInt pid }
  else sf

namespace KernelCall

/-- What the call is for the scheduler. -/
def schedOp : KernelCall → Option SchedOp
  | .new name => some (.new name)
  | .newThread proc name function _ => some (.newThread proc name function)
  | .interrupt _ sf _ => if sf.vector = 32 then some (.schedule sf) else none

/-- The identifier of the thread that is created. -/
def newTid : KernelCall → Option ℕ
  | .newThread _ _ _ tid => some tid
  | _ => none

/-- The output of the call. -/
def output (addr : String → BitVec 64) : KernelCall → Output
  | .new _ => ⟨[], []⟩
  | .newThread _ _ _ tid => (newThreadRecord addr tid).output
  | .interrupt m sf _ => if sf.vector = 128 then syscallOutput addr m sf else ⟨[], []⟩

end KernelCall

/-! ### One interrupt -/

/-- From `c` to `c'` the console has received the output `o`, and it can report. -/
structure Console.Received (c : Console) (o : Output) (c' : Console) : Prop where
  report : CanReport c'
  term : c'.term = c.term ++ o.term
  serial : c'.serial = c.serial ++ o.serial

variable {P : Platform} {d : SyscallImage} {addr : String → BitVec 64} {stack : List UInt8}
  {m : Memory} {sf sf' : Stackframe} {c c' : Console} {s s' : HandlerState}
  {evs : List HandlerEvent} {fuel inner : ℕ}

lemma Console.Received.refl (h : CanReport c) : c.Received ⟨[], []⟩ c :=
  ⟨h, (List.append_nil _).symm, (List.append_nil _).symm⟩

/-- The acknowledgement does not reach the console. -/
lemma report_finish (intno : ℤ) (hreport : reportEvents P d m sf evs c = .ok ((), c')) :
    reportEvents P d m sf (evs ++ (picAck intno).map .outb) c = .ok ((), c') := by
  have hack : reportEvents P d m sf ((picAck intno).map .outb) c' = .ok ((), c') := by
    unfold picAck
    split_ifs <;> rfl
  have happend : reportEvents P d m sf (evs ++ (picAck intno).map .outb) =
      reportEvents P d m sf evs >>= fun _ => reportEvents P d m sf ((picAck intno).map .outb) :=
    List.forM_append
  rw [happend, bind_of_ok hreport]
  exact hack

/-- The table after `syscall_init`. -/
lemma lastRegistered_nil (d : SyscallImage) (i : ℕ) : lastRegistered d [] i =
    if i = 2 then d.syscallGetpid.addr else if i = 1 then d.syscallWrite.addr else 0 := by
  have hone : (1 : Int32).toInt = (1 : ℕ) := rfl
  have htwo : (2 : Int32).toInt = (2 : ℕ) := rfl
  change (if (2 : Int32).toInt = i then d.syscallGetpid.addr else
    if (1 : Int32).toInt = i then d.syscallWrite.addr else 0) = _
  simp only [hone, htwo, Nat.cast_inj, eq_comm]

variable (P m sf) in
/-- `syscall_write` on a console that can report. -/
lemma syscallWrite_received (hc : CanReport c) : ∃ c',
    syscallWrite P m sf c = .ok (if sf.rsi = 0 then { sf with rax := 0 } else sf, c') ∧
      c.Received (if sf.rsi ≠ 0 ∧ toInt32 sf.rdi.toNat = 1 then
        ⟨(List.range (writeCount sf)).map fun i => .write [m (sf.rsi.toNat + i)], []⟩
        else ⟨[], []⟩) c' := by
  by_cases hbuf : sf.rsi = 0
  · rw [if_pos hbuf, if_neg fun h => h.1 hbuf]
    exact ⟨c, syscallWrite_null hbuf, .refl hc⟩
  rw [if_neg hbuf]
  have hbuf' : sf.rsi.toNat ≠ 0 := fun hzero => hbuf (UInt64.toNat_inj.mp hzero)
  unfold syscallWrite
  dsimp only
  rw [if_neg hbuf']
  by_cases hfd : toInt32 sf.rdi.toNat = 1
  · rw [if_pos hfd, if_pos ⟨hbuf, hfd⟩]
    have hloop := @forM_ttyPrint_ready P m c ⟨hc.ttyLock, hc.ttyEnabled, hc.ftctx⟩ sf.rsi.toNat
      (List.range (writeCount sf))
    refine ⟨_, bind_of_ok hloop, ⟨hc.loggerLock, hc.ttyLock, hc.ttyEnabled, hc.ftctx⟩, rfl, ?_⟩
    exact (List.append_nil _).symm
  · rw [if_neg hfd, if_neg fun h => hfd h.2]
    exact ⟨c, rfl, .refl hc⟩

/-- The handler returns from the interrupt of `sf` to `sf'` with its variables as before, and the
console `c` receives the output `o`. -/
def Serves (P : Platform) (d : SyscallImage) (fuel inner : ℕ) (c : Console) (s : HandlerState)
    (sf sf' : Stackframe) (o : Output) : Prop :=
  ∃ evs c', interruptHandler fuel inner (kernelEnv P d c) s sf = (evs, .returned s sf') ∧
    reportEvents P d s.mem sf evs c = .ok ((), c') ∧ c.Received o c'

/-- A call of `write`. -/
lemma serves_write (hc : CanReport c) (hvec : sf.vector = 128)
    (hslot : load64 s.mem (d.slot sf.rax.toNat) = d.syscallWrite.addr) :
    Serves P d fuel inner c s sf (if sf.rsi = 0 then { sf with rax := 0 } else sf)
      (if sf.rsi ≠ 0 ∧ toInt32 sf.rdi.toNat = 1 then
        ⟨(List.range (writeCount sf)).map fun i => .write [s.mem (sf.rsi.toNat + i)], []⟩
        else ⟨[], []⟩) := by
  obtain ⟨E, hE⟩ : ∃ E, E = kernelEnv P d c := ⟨_, rfl⟩
  obtain ⟨c', hrun, hreceived⟩ := syscallWrite_received P s.mem sf hc
  have hslotE : load64 s.mem (E.image.slot sf.rax.toNat) = d.syscallWrite.addr := by
    rw [hE]
    exact hslot
  have hcall : E.callFunc d.syscallWrite.addr s sf =
      some (s, if sf.rsi = 0 then { sf with rax := 0 } else sf) := by
    rw [hE]
    change (if _ then _ else _) = _
    rw [if_pos rfl, hrun]
  rw [Serves, ← hE, interruptHandler_call_eq hvec (by rw [hslotE]; exact d.syscallWrite.ne_zero),
    hslotE, hcall]
  refine ⟨_, c', rfl, report_finish _ ?_, hreceived⟩
  have hevent : HandlerEvent.report P d s.mem sf (.call d.syscallWrite.addr) c = .ok ((), c') := by
    rw [HandlerEvent.report, if_pos rfl]
    exact bind_of_ok hrun
  exact bind_of_ok hevent

/-- A call of `getpid`. -/
lemma serves_getpid (hd : d.syscallWrite.addr ≠ d.syscallGetpid.addr) (hc : CanReport c)
    (hvec : sf.vector = 128)
    (hslot : load64 s.mem (d.slot sf.rax.toNat) = d.syscallGetpid.addr) :
    Serves P d fuel inner c s sf (syscallGetpid s.sched sf) ⟨[], []⟩ := by
  obtain ⟨E, hE⟩ : ∃ E, E = kernelEnv P d c := ⟨_, rfl⟩
  have hslotE : load64 s.mem (E.image.slot sf.rax.toNat) = d.syscallGetpid.addr := by
    rw [hE]
    exact hslot
  have hcall : E.callFunc d.syscallGetpid.addr s sf = some (s, syscallGetpid s.sched sf) := by
    rw [hE]
    change (if _ then _ else if _ then _ else _) = _
    rw [if_neg hd.symm, if_pos rfl]
  rw [Serves, ← hE, interruptHandler_call_eq hvec (by rw [hslotE]; exact d.syscallGetpid.ne_zero),
    hslotE, hcall]
  refine ⟨_, c, rfl, report_finish _ ?_, .refl hc⟩
  have hevent : HandlerEvent.report P d s.mem sf (.call d.syscallGetpid.addr) c = .ok ((), c) := by
    rw [HandlerEvent.report, if_neg hd.symm]
    rfl
  exact bind_of_ok hevent

/-- A call with a number without a function. -/
lemma serves_missing (hstack : stack.length = 2048) (hc : CanReport c) (hvec : sf.vector = 128)
    (hslot : load64 s.mem (d.slot sf.rax.toNat) = 0) :
    Serves (P.withNanoprintf addr stack) d fuel inner c s sf sf
      (missingCallRecord addr sf.rax.toNat).output := by
  obtain ⟨_, c', hrun, hreport, hserial, hterm⟩ :=
    logln_record (P := P) hstack hc (missingCallRecord addr sf.rax.toNat)
  obtain ⟨E, hE⟩ : ∃ E, E = kernelEnv (P.withNanoprintf addr stack) d c := ⟨_, rfl⟩
  have hslotE : load64 s.mem (E.image.slot sf.rax.toNat) = 0 := by
    rw [hE]
    exact hslot
  rw [Serves, ← hE, interruptHandler_empty_eq hvec hslotE]
  exact ⟨_, c', rfl, report_finish _ (bind_of_ok hrun), hreport, hterm, hserial⟩

variable (P addr) in
/-- Every system call is served. -/
lemma serves_syscall (hstack : stack.length = 2048)
    (hd : d.syscallWrite.addr ≠ d.syscallGetpid.addr) (hc : CanReport c) (hvec : sf.vector = 128)
    (hnumber : sf.rax.toNat < syscallMaxSlots) (htable : TableIntact d s.mem) :
    Serves (P.withNanoprintf addr stack) d fuel inner c s sf
      (syscallAnswer (s.sched.procs s.sched.schedCurrentProcess).pid sf)
      (syscallOutput addr s.mem sf) := by
  have hslot := htable _ hnumber
  rw [lastRegistered_nil] at hslot
  have hone : sf.rax = 1 ↔ sf.rax.toNat = 1 := UInt64.toNat_inj.symm
  have htwo : sf.rax = 2 ↔ sf.rax.toNat = 2 := UInt64.toNat_inj.symm
  by_cases hwrite : sf.rax.toNat = 1
  · rw [if_neg (by omega), if_pos hwrite] at hslot
    rw [syscallOutput, if_pos (hone.mpr hwrite)]
    have hanswer : syscallAnswer (s.sched.procs s.sched.schedCurrentProcess).pid sf =
        if sf.rsi = 0 then { sf with rax := 0 } else sf := by
      simp [syscallAnswer, hone, htwo, hwrite]
    rw [hanswer]
    exact serves_write hc hvec hslot
  · rw [syscallOutput, if_neg (mt hone.mp hwrite), syscallAnswer, if_neg fun h => hwrite (hone.mp h.1)]
    by_cases hgetpid : sf.rax.toNat = 2
    · rw [if_pos hgetpid] at hslot
      rw [if_pos (htwo.mpr hgetpid), if_pos (htwo.mpr hgetpid)]
      exact serves_getpid hd hc hvec hslot
    · rw [if_neg hgetpid, if_neg hwrite] at hslot
      rw [if_neg (mt htwo.mp hgetpid), if_neg (mt htwo.mp hgetpid)]
      exact serves_missing hstack hc hvec hslot

/-- An interrupt line other than the timer's. -/
lemma serves_line (hc : CanReport c) (hvec : 32 < sf.vector) (hsys : sf.vector ≠ 128) :
    Serves P d fuel inner c s sf sf ⟨[], []⟩ := by
  have hge : ¬ sf.vector < 32 := UInt64.not_lt.mpr (UInt64.le_of_lt hvec)
  have htimer : sf.vector ≠ 32 := (UInt64.ne_of_lt hvec).symm
  rw [Serves, interruptHandler_line hge htimer hsys]
  exact ⟨_, c, rfl, report_finish _ rfl, .refl hc⟩

/-- A tick. -/
lemma tick_received (hc : CanReport c) (hvec : sf.vector = 32)
    (hrun : interruptHandler fuel inner (kernelEnv P d c) s sf = (evs, .returned s' sf'))
    (hreport : reportEvents P d m sf evs c = .ok ((), c')) :
    schedule fuel inner s.sched sf = some (s'.sched, sf') ∧ c.Received ⟨[], []⟩ c' := by
  rw [interruptHandler_timer hvec, scheduleAndFinish] at hrun
  cases hsched : schedule fuel inner s.sched sf with
  | none =>
    rw [hsched] at hrun
    cases hrun
  | some r =>
    rw [hsched] at hrun
    cases hrun
    have hack : ∀ intno, reportEvents P d m sf ([] ++ (picAck intno).map .outb) c = .ok ((), c) :=
      fun intno => report_finish intno rfl
    rw [hack] at hreport
    cases hreport
    exact ⟨rfl, .refl hc⟩

/-! ### Runs -/

variable {k k' : CallState} {call : KernelCall} {calls : List KernelCall} {a : InitAlloc}
  {u : Sched}

/-- What a call is: the one for the scheduler that it stands for, and its output. -/
structure CallMeans (addr : String → BitVec 64) (k : CallState) (call : KernelCall)
    (k' : CallState) : Prop where
  sched : Trace SchedStep k.run call.schedOp.toList k'.run
  received : k.console.Received (call.output addr) k'.console

/-- An interrupt that is served as `sf` is. -/
lemma Serves.eq {o : Output} (h : Serves P d fuel inner c s sf sf₁ o)
    (hrun : interruptHandler fuel inner (kernelEnv P d c) s sf = (evs, .returned s' sf'))
    (hreport : reportEvents P d s.mem sf evs c = .ok ((), c')) :
    s' = s ∧ sf' = sf₁ ∧ c.Received o c' := by
  obtain ⟨evs₁, c₁, hrun₁, hreport₁, hreceived⟩ := h
  rw [hrun₁] at hrun
  cases hrun
  rw [hreport₁] at hreport
  cases hreport
  exact ⟨rfl, rfl, hreceived⟩

/-- Every call is as described. -/
lemma CallStep.means (hstack : stack.length = 2048)
    (hd : d.syscallWrite.addr ≠ d.syscallGetpid.addr)
    (hstep : CallStep (P.withNanoprintf addr stack) d k call k') (hc : CanReport k.console) :
    CallMeans addr k call k' := by
  cases hstep with
  | new hstep => exact ⟨.single hstep, .refl hc⟩
  | @newThread _ _ _ h t _ hstep hthread hlog =>
    have hrecord := logln_record (P := P) hstack hc (newThreadRecord addr (h.sched.threads t).tid)
    obtain ⟨hreport, hserial, hterm⟩ := hrecord.of_eq hlog
    exact ⟨.single hstep, hreport, hterm, hserial⟩
  | @tick s s' sf sf' _ _ _ _ hvec hsched hrun hreport =>
    obtain ⟨hcall, hreceived⟩ := tick_received hc hvec hrun hreport
    have hop : (KernelCall.interrupt s.mem sf sf').schedOp = some (.schedule sf) := if_pos hvec
    have hout : (KernelCall.interrupt s.mem sf sf').output addr = ⟨[], []⟩ :=
      if_neg (by rw [hvec]; decide)
    rw [hsched] at hcall
    exact ⟨hop ▸ .single (.schedule hcall), hout ▸ hreceived⟩
  | @trap s s' sf sf' _ _ _ _ hvec hsched hnumber htable hrun hreport =>
    have hop : (KernelCall.interrupt s.mem sf sf').schedOp = none :=
      if_neg (UInt64.ne_of_lt hvec).symm
    by_cases hsys : sf.vector = 128
    · obtain ⟨rfl, -, hreceived⟩ := (serves_syscall P addr hstack hd hc hsys
        (hnumber hsys) htable).eq hrun hreport
      have hout : (KernelCall.interrupt s'.mem sf sf').output addr =
        syscallOutput addr s'.mem sf := if_pos hsys
      exact ⟨by rw [hop, hsched]; exact .nil, hout ▸ hreceived⟩
    · obtain ⟨rfl, -, hreceived⟩ := (serves_line hc hvec hsys).eq hrun hreport
      have hout : (KernelCall.interrupt s'.mem sf sf').output addr = ⟨[], []⟩ := if_neg hsys
      exact ⟨by rw [hop, hsched]; exact .nil, hout ▸ hreceived⟩

/-- A system call leaves the scheduler alone, and returns the answer. -/
lemma CallStep.answer (hstack : stack.length = 2048)
    (hd : d.syscallWrite.addr ≠ d.syscallGetpid.addr) (hc : CanReport k.console)
    (hvec : sf.vector = 128)
    (hstep : CallStep (P.withNanoprintf addr stack) d k (.interrupt m sf sf') k') :
    k'.run = k.run ∧
      sf' = syscallAnswer (k.run.sched.procs k.run.sched.schedCurrentProcess).pid sf := by
  cases hstep with
  | tick htick =>
    rw [hvec] at htick
    cases htick
  | trap hlt hsched hnumber htable hrun hreport =>
    obtain ⟨rfl, rfl, -⟩ := (serves_syscall P addr hstack hd hc hvec
      (hnumber hvec) htable).eq hrun hreport
    rw [hsched]
    exact ⟨rfl, rfl⟩

/-- The identifiers that a run gives to threads are those of the scheduler's counter. -/
structure NewTids (k : CallState) (calls : List KernelCall) (n : ℕ) : Prop where
  created : k.run.created.length = n + 2
  tids : calls.filterMap KernelCall.newTid = (List.range n).map fun i => (i + 1) % 2 ^ 64

/-- The kernel after its start: the two functions are different, `sched_init` has made the idle
process, and the console can report. -/
structure CallsStart (d : SyscallImage) (stack : List UInt8) (a : InitAlloc) (s : Sched)
    (c : Console) : Prop where
  stack : stack.length = 2048
  functions : d.syscallWrite.addr ≠ d.syscallGetpid.addr
  fresh : a.Fresh
  init : ∃ s₀ fuel schedIdle, s₀.nextFreePid = 0 ∧ s₀.nextThreadId = 0 ∧
    schedInit fuel s₀ a schedIdle = some s
  report : CanReport c

/-- What holds in a state `k` that a run has reached. -/
structure CallsServed (P : Platform) (d : SyscallImage) (addr : String → BitVec 64) (a : InitAlloc)
    (s : Sched) (c : Console) (k : CallState) (calls : List KernelCall) : Prop where
  /-- The run is one of the scheduler. -/
  sched : Trace SchedStep (SchedRun.start s a) (calls.filterMap KernelCall.schedOp) k.run
  /-- The console has received the output of the calls, in turn. -/
  term : k.console.term = c.term ++ calls.flatMap fun call => (call.output addr).term
  serial : k.console.serial = c.serial ++ calls.flatMap fun call => (call.output addr).serial
  /-- The new threads are numbered from 1 on. -/
  tids : ∃ n, calls.filterMap KernelCall.newTid = (List.range n).map fun i => (i + 1) % 2 ^ 64
  /-- A system call is served, and the frame after it is the answer. -/
  answer : ∀ m (sf : Stackframe), sf.vector = 128 → sf.rax.toNat < syscallMaxSlots →
    TableIntact d m → (∃ sf' k', CallStep P d k (.interrupt m sf sf') k') ∧
      ∀ sf' k', CallStep P d k (.interrupt m sf sf') k' → k'.run = k.run ∧
        sf' = syscallAnswer (k.run.sched.procs k.run.sched.schedCurrentProcess).pid sf
  /-- The answer is for the process of the executing thread. -/
  process : k.run.executing ≠ a.thread →
    (k.run.sched.threads k.run.executing).parent = k.run.sched.schedCurrentProcess

lemma newTid_single : [call].filterMap KernelCall.newTid = call.newTid.toList := by
  cases h : call.newTid <;> simp [h]

lemma schedOp_single : [call].filterMap KernelCall.schedOp = call.schedOp.toList := by
  cases h : call.schedOp <;> simp [h]

/-- A call that creates no thread. -/
lemma NewTids.other {n : ℕ} (h : NewTids k calls n) (hcreated : k'.run.created = k.run.created)
    (hcall : call.newTid = none) : NewTids k' (calls ++ [call]) n := by
  refine ⟨by rw [hcreated, h.created], ?_⟩
  rw [List.filterMap_append, newTid_single, hcall, h.tids]
  exact List.append_nil _

/-- The next thread gets the next number. -/
lemma NewTids.step {n : ℕ} (h : NewTids k calls n) (hstep : CallStep P d k call k')
    (htids : (k'.run.created.map fun t => (k'.run.sched.threads t).tid).reverse =
      (List.range k'.run.created.length).map tidAt) : ∃ n', NewTids k' (calls ++ [call]) n' := by
  cases hstep with
  | new hstep =>
    cases hstep with
    | new hne hfresh => exact ⟨n, h.other rfl rfl⟩
  | @newThread proc name function h' t c' hstep hthread hlog =>
    have hlen : h'.created.length = n + 1 + 2 := by
      rw [hthread, List.length_cons, h.created]
    refine ⟨n + 1, hlen, ?_⟩
    dsimp only at htids
    have htid : (h'.sched.threads t).tid = tidAt (n + 2) := by
      rw [hthread, List.map_cons, List.reverse_cons, List.length_cons, h.created, List.range_succ,
        List.map_append, List.map_singleton] at htids
      exact List.singleton_inj.mp (List.append_inj_right' htids (by simp))
    have hnext : tidAt (n + 2) = (n + 1) % 2 ^ 64 := by
      rw [tidAt]
      omega
    rw [List.filterMap_append, newTid_single, h.tids, List.range_succ, List.map_append,
      List.map_singleton, ← hnext, ← htid]
    rfl
  | tick hvec hsched hrun hreport => exact ⟨n, h.other rfl rfl⟩
  | trap hvec hsched hnumber htable hrun hreport => exact ⟨n, h.other rfl rfl⟩

/-- Along every run the calls are as described. -/
lemma means_of_trace (hs : CallsStart d stack a u c)
    (htrace : Trace (CallStep (P.withNanoprintf addr stack) d) ⟨SchedRun.start u a, c⟩ calls k) :
    Trace SchedStep (SchedRun.start u a) (calls.filterMap KernelCall.schedOp) k.run ∧
      c.Received ⟨calls.flatMap fun call => (call.output addr).term,
        calls.flatMap fun call => (call.output addr).serial⟩ k.console ∧ ∃ n, NewTids k calls n := by
  induction htrace with
  | nil => exact ⟨.nil, .refl hs.report, 0, rfl, rfl⟩
  | @snoc calls call k k' _ hstep ih =>
    obtain ⟨hsched, hreceived, n, hnew⟩ := ih
    have hmeans := hstep.means hs.stack hs.functions hreceived.report
    have hsched' : Trace SchedStep (SchedRun.start u a)
        ((calls ++ [call]).filterMap KernelCall.schedOp) k'.run := by
      rw [List.filterMap_append, schedOp_single]
      exact hsched.append hmeans.sched
    refine ⟨hsched', ⟨hmeans.received.report, ?_, ?_⟩, ?_⟩
    · rw [hmeans.received.term, hreceived.term, List.append_assoc]
      dsimp only
      rw [List.flatMap_append, List.flatMap_singleton]
    · rw [hmeans.received.serial, hreceived.serial, List.append_assoc]
      dsimp only
      rw [List.flatMap_append, List.flatMap_singleton]
    · obtain ⟨s₀, fuel, schedIdle, hpid, htid, hinit⟩ := hs.init
      obtain ⟨l, tl, -, hnum⟩ := numbered_of_trace hs.fresh hpid htid hinit hsched'
      exact hnew.step hstep hnum.tids

/-- In every state of every run, the scheduler has only seen the ticks and the creations, the console
has received the output of the calls in turn, and every system call is served as it should be. -/
theorem calls_served (hs : CallsStart d stack a u c)
    (htrace : Trace (CallStep (P.withNanoprintf addr stack) d) ⟨SchedRun.start u a, c⟩ calls k) :
    CallsServed (P.withNanoprintf addr stack) d addr a u c k calls := by
  obtain ⟨hsched, hreceived, n, hnew⟩ := means_of_trace hs htrace
  refine ⟨hsched, hreceived.term, hreceived.serial, ⟨n, hnew.tids⟩, ?_, fun hne => ?_⟩
  · intro m sf hvec hnumber htable
    refine ⟨?_, fun sf' k' => CallStep.answer hs.stack hs.functions hreceived.report hvec⟩
    obtain ⟨evs, c', hrun, hreport, -⟩ := @serves_syscall P d addr stack sf k.console
      ⟨k.run.sched, m, 0, 0⟩ 0 0 hs.stack hs.functions hreceived.report hvec hnumber htable
    exact ⟨_, _, .trap (by rw [hvec]; decide) rfl (fun _ => hnumber) htable hrun hreport⟩
  · obtain ⟨s₀, fuel, schedIdle, hpid, htid, hinit⟩ := hs.init
    exact parent_of_trace hs.fresh hpid htid hinit hsched hne

/-! ### The start of the kernel -/

lemma tableIntact_syscallInit (d : SyscallImage) (m : Memory) : TableIntact d (syscallRun d m []) :=
  fun _ hi => load64_syscallRun_last hi

lemma exampleImage_start :
    CallsStart exampleImage (List.replicate 2048 0) bootAlloc bootSched readyConsole where
  stack := List.length_replicate
  functions := by decide
  fresh := bootAlloc_fresh
  init := ⟨zeroSched, 2, 0x9000, rfl, rfl, bootSched_eq⟩
  report := ⟨rfl, rfl, rfl, rfl⟩

/-- A call of `write`, and what it puts out. -/
theorem calls_served_write : ∃ sf' k, CallsServed
    (quietPlatform.withNanoprintf (fun _ => 0) (List.replicate 2048 0)) exampleImage (fun _ => 0)
    bootAlloc bootSched readyConsole k
    [.interrupt (syscallRun exampleImage (fun _ => 0) []) (writeFrame 0x1000 35) sf'] := by
  have hserved : CallsServed (quietPlatform.withNanoprintf (fun _ => 0) (List.replicate 2048 0))
      exampleImage (fun _ => 0) bootAlloc bootSched readyConsole
      ⟨SchedRun.start bootSched bootAlloc, readyConsole⟩ [] := calls_served exampleImage_start .nil
  obtain ⟨⟨sf', k, hstep⟩, -⟩ := hserved.answer _ (writeFrame 0x1000 35) rfl (by decide)
    (tableIntact_syscallInit _ fun _ => 0)
  exact ⟨sf', k, calls_served exampleImage_start (.single hstep)⟩

end Soaplin

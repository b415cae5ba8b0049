import Soaplin.Interrupts.Pic
import Soaplin.Syscall.Table
import Soaplin.Sched.ContextSwitch
import Soaplin.Console.Panic

/-!
# The interrupt handler

`interrupt_handler` of `arch/x86_64/interrupts.c`: a CPU exception, the timer, a system call or
another interrupt, and then the acknowledgement.  The handler's reads of `syscalls[]`, its indirect
calls, its messages and its writes to ports are kept as a list of events.  What the registered
functions do is a parameter.

A system call is dispatched through a table of 512 slots with all 64 bits of `rax` as the index.
`syscallDispatch_safe_iff` says for which numbers this is safe.
-/

namespace Soaplin

open ByteMemory Word64

/-- The variables of the kernel that the handler uses. -/
structure HandlerState where
  sched : Sched
  mem : Memory
  vmmCurrentPagemap : ℕ
  vmmKernelPagemap : ℕ

/-- What the linker has made of the kernel, and what a call of the function at an address does, if
it returns. -/
structure HandlerEnv where
  image : SyscallImage
  callFunc : ℕ → HandlerState → Stackframe → Option (HandlerState × Stackframe)

/-- What the handler does on its way. -/
inductive HandlerEvent
  | logln (lt : LogType) (cmp msg : String) (args : List FormatArg)
  | readSlot (index : ℕ)
  | call (f : ℕ)
  | outb (o : Outb)

/-- How a call of the handler ends; it is unfinished if `schedule` or the function called has not
returned. -/
inductive HandlerEnd
  | returned (k : HandlerState) (sf : Stackframe)
  | panicked (cause : ℕ)
  | unfinished

/-- The end of the handler, from `finally` on: the vector is read from the frame as it is now. -/
def finishInterrupt (evs : List HandlerEvent) (k : HandlerState) (sf : Stackframe) :
    List HandlerEvent × HandlerEnd :=
  (evs ++ (picAck (toInt32 (sf.vector - 32).toNat)).map .outb, .returned k sf)

/-- `schedule(sf)`, and the end of the handler. -/
def scheduleAndFinish (fuel inner : ℕ) (evs : List HandlerEvent) (k : HandlerState)
    (sf : Stackframe) : List HandlerEvent × HandlerEnd :=
  match schedule fuel inner k.sched sf with
  | none => (evs, .unfinished)
  | some (s, sf) => finishInterrupt evs { k with sched := s } sf

/-- `interrupt_handler`. -/
def interruptHandler (fuel inner : ℕ) (E : HandlerEnv) (k : HandlerState) (sf : Stackframe) :
    List HandlerEvent × HandlerEnd :=
  if sf.vector < 32 then
    if k.vmmCurrentPagemap ≠ k.vmmKernelPagemap then
      -- the process that caused the exception should be killed; it is not
      scheduleAndFinish fuel inner
        [.logln .err "arch/ints" "Process %d exited due to a Page Fault.\n" []]
        { k with vmmCurrentPagemap := k.vmmKernelPagemap } sf
    else ([], .panicked kmodeCpuException)
  else if sf.vector = 32 then scheduleAndFinish fuel inner [] k sf
  else if sf.vector = 128 then
    let index := sf.rax.toNat
    let syscallf := load64 k.mem (E.image.slot index)
    if syscallf = 0 then
      finishInterrupt [.readSlot index,
        .logln .warn "arch/ints" "No syscall with ID %d exists: ignoring.\n" [.int (toInt32 index)]]
        k sf
    else
      match E.callFunc syscallf k sf with
      | none => ([.readSlot index, .call syscallf], .unfinished)
      | some (k, sf) => finishInterrupt [.readSlot index, .call syscallf] k sf
  else finishInterrupt [] k sf

variable {d : SyscallImage} {m : Memory} {calls : List Registration} {fuel inner : ℕ}
  {E : HandlerEnv} {k : HandlerState} {sf : Stackframe}

/-! ### The cases of the handler -/

lemma interruptHandler_exception (hvec : sf.vector < 32)
    (hmap : k.vmmCurrentPagemap ≠ k.vmmKernelPagemap) :
    interruptHandler fuel inner E k sf = scheduleAndFinish fuel inner
      [.logln .err "arch/ints" "Process %d exited due to a Page Fault.\n" []]
      { k with vmmCurrentPagemap := k.vmmKernelPagemap } sf := by
  rw [interruptHandler, if_pos hvec, if_pos hmap]

lemma interruptHandler_panic (hvec : sf.vector < 32)
    (hmap : ¬ k.vmmCurrentPagemap ≠ k.vmmKernelPagemap) :
    interruptHandler fuel inner E k sf = ([], .panicked kmodeCpuException) := by
  rw [interruptHandler, if_pos hvec, if_neg hmap]

lemma interruptHandler_timer (hvec : sf.vector = 32) :
    interruptHandler fuel inner E k sf = scheduleAndFinish fuel inner [] k sf := by
  rw [interruptHandler, hvec, if_neg (by decide), if_pos rfl]

lemma interruptHandler_line (hge : ¬ sf.vector < 32) (htimer : sf.vector ≠ 32)
    (hsys : sf.vector ≠ 128) :
    interruptHandler fuel inner E k sf = finishInterrupt [] k sf := by
  rw [interruptHandler, if_neg hge, if_neg htimer, if_neg hsys]

/-- A system call without a function at its number. -/
lemma interruptHandler_empty_eq (hvec : sf.vector = 128)
    (hset : load64 k.mem (E.image.slot sf.rax.toNat) = 0) :
    interruptHandler fuel inner E k sf = finishInterrupt [.readSlot sf.rax.toNat,
      .logln .warn "arch/ints" "No syscall with ID %d exists: ignoring.\n"
        [.int (toInt32 sf.rax.toNat)]] k sf := by
  unfold interruptHandler
  rw [hvec, if_neg (by decide), if_neg (by decide), if_pos rfl]
  dsimp only
  rw [if_pos hset]

/-- A system call with a function at its number. -/
lemma interruptHandler_call_eq (hvec : sf.vector = 128)
    (hset : load64 k.mem (E.image.slot sf.rax.toNat) ≠ 0) :
    interruptHandler fuel inner E k sf =
      match E.callFunc (load64 k.mem (E.image.slot sf.rax.toNat)) k sf with
      | none => ([.readSlot sf.rax.toNat, .call (load64 k.mem (E.image.slot sf.rax.toNat))],
          .unfinished)
      | some r => finishInterrupt [.readSlot sf.rax.toNat,
          .call (load64 k.mem (E.image.slot sf.rax.toNat))] r.1 r.2 := by
  unfold interruptHandler
  rw [hvec, if_neg (by decide), if_neg (by decide), if_pos rfl]
  dsimp only
  rw [if_neg hset]
  cases E.callFunc (load64 k.mem (E.image.slot sf.rax.toNat)) k sf <;> rfl

/-! ### System calls -/

/-- The function that was registered last for slot `i`, by `syscall_init` or by `calls`, or the null
pointer. -/
def lastRegistered (d : SyscallImage) (calls : List Registration) (i : ℕ) : ℕ :=
  firstFunction (d.defaults ++ calls).reverse i

/-- The functions that the handler calls. -/
def calledFunctions (evs : List HandlerEvent) : List ℕ :=
  evs.filterMap fun ev => match ev with
    | .call f => some f
    | _ => none

/-- The number in `rax` names a slot with a function. -/
def NamesOccupied (d : SyscallImage) (calls : List Registration) (sf : Stackframe) : Prop :=
  sf.rax.toNat < syscallMaxSlots ∧ lastRegistered d calls sf.rax.toNat ≠ 0

/-- The outcome `out` of a system call is safe: only slots of the table are read, the registered
function is called and no other, and without one nothing is called and the frame is as before. -/
structure DispatchSafe (d : SyscallImage) (calls : List Registration) (sf : Stackframe)
    (out : List HandlerEvent × HandlerEnd) : Prop where
  reads : ∀ i, .readSlot i ∈ out.1 → i < syscallMaxSlots
  occupied : NamesOccupied d calls sf →
    calledFunctions out.1 = [lastRegistered d calls sf.rax.toNat]
  otherwise : ¬ NamesOccupied d calls sf →
    calledFunctions out.1 = [] ∧ ∃ k, out.2 = .returned k sf

/-- The slots hold the functions registered last. -/
lemma load64_syscallRun_last {i : ℕ} (hi : i < syscallMaxSlots) :
    load64 (syscallRun d m calls) (d.slot i) = lastRegistered d calls i := by
  induction calls using List.reverseRecOn with
  | nil =>
    rw [load64_syscallRun_nil hi, firstRegistered, lastRegistered, List.append_nil]
    have h₁ : (1 : Int32).toInt = 1 := rfl
    have h₂ : (2 : Int32).toInt = 2 := rfl
    simp only [SyscallImage.defaults, List.reverse_cons, List.reverse_nil, List.nil_append,
      List.cons_append, firstFunction, h₁, h₂]
    by_cases hone : (1 : ℤ) = i
    · rw [if_pos hone, if_neg (by omega), if_pos hone]
    · rw [if_neg hone, if_neg hone]
  | append_singleton calls r ih =>
    rw [syscallRun_concat, load64_syscallSet hi, ih, lastRegistered, lastRegistered,
      ← List.append_assoc, List.reverse_concat, firstFunction]

/-- The events of an acknowledgement are neither reads of the table nor calls. -/
lemma calledFunctions_append_ack (evs : List HandlerEvent) (intno : ℤ) :
    calledFunctions (evs ++ (picAck intno).map .outb) = calledFunctions evs := by
  unfold calledFunctions picAck
  split_ifs <;> simp

/-- A system call with a function at its number: the function is called. -/
lemma interruptHandler_call (hvec : sf.vector = 128)
    (hset : load64 k.mem (E.image.slot sf.rax.toNat) ≠ 0) :
    calledFunctions (interruptHandler fuel inner E k sf).1 =
      [load64 k.mem (E.image.slot sf.rax.toNat)] := by
  rw [interruptHandler_call_eq hvec hset]
  cases hcall : E.callFunc (load64 k.mem (E.image.slot sf.rax.toNat)) k sf with
  | none => rfl
  | some r => exact calledFunctions_append_ack _ _

/-- A system call without a function at its number: nothing is called, and the frame is left alone. -/
lemma interruptHandler_empty (hvec : sf.vector = 128)
    (hset : load64 k.mem (E.image.slot sf.rax.toNat) = 0) :
    calledFunctions (interruptHandler fuel inner E k sf).1 = [] ∧
      (interruptHandler fuel inner E k sf).2 = .returned k sf := by
  rw [interruptHandler_empty_eq hvec hset]
  exact ⟨calledFunctions_append_ack _ _, rfl⟩

/-- A system call reads one slot: the one that `rax` names. -/
lemma readSlot_mem_iff (hvec : sf.vector = 128) {i : ℕ} :
    .readSlot i ∈ (interruptHandler fuel inner E k sf).1 ↔ i = sf.rax.toNat := by
  have hack : ∀ intno, HandlerEvent.readSlot i ∉ (picAck intno).map .outb := by
    intro intno hmem
    obtain ⟨o, -, ho⟩ := List.mem_map.mp hmem
    cases ho
  by_cases hset : load64 k.mem (E.image.slot sf.rax.toNat) = 0
  · rw [interruptHandler_empty_eq hvec hset]
    simp [finishInterrupt, hack]
  · rw [interruptHandler_call_eq hvec hset]
    cases hcall : E.callFunc (load64 k.mem (E.image.slot sf.rax.toNat)) k sf with
    | none => simp
    | some r => simp [finishInterrupt, hack]

/-- The dispatch of a system call through the table that `syscall_init` and the registrations
`calls` have made is safe if and only if the number is below `SYSCALL_MAX_SLOTS`. -/
theorem syscallDispatch_safe_iff (hvec : sf.vector = 128)
    (hmem : k.mem = syscallRun E.image m calls) :
    DispatchSafe E.image calls sf (interruptHandler fuel inner E k sf) ↔
      sf.rax.toNat < syscallMaxSlots := by
  constructor
  · intro h
    exact h.reads _ ((readSlot_mem_iff hvec).mpr rfl)
  · intro hlt
    have hslot : load64 k.mem (E.image.slot sf.rax.toNat) = lastRegistered E.image calls sf.rax.toNat := by
      rw [hmem]
      exact load64_syscallRun_last hlt
    refine ⟨fun i hi => ?_, fun hocc => ?_, fun hnot => ?_⟩
    · rw [(readSlot_mem_iff hvec).mp hi]
      exact hlt
    · rw [← hslot]
      exact interruptHandler_call hvec (by rw [hslot]; exact hocc.2)
    · have hempty : load64 k.mem (E.image.slot sf.rax.toNat) = 0 := by
        by_contra hne
        exact hnot ⟨hlt, by rwa [← hslot]⟩
      obtain ⟨hcalled, hend⟩ := interruptHandler_empty hvec hempty
      exact ⟨hcalled, k, hend⟩

/-- A system call with the number `rax`. -/
def syscallFrame (rax : UInt64) : Stackframe := { zeroFrame with rax := rax, vector := 128 }

/-- A kernel in which no function returns, with the table as `syscall_init` leaves it. -/
def exampleEnv : HandlerEnv := ⟨exampleImage, fun _ _ _ => none⟩

/-- The state of that kernel. -/
def exampleState : HandlerState := ⟨zeroSched, syscallRun exampleImage (fun _ => 0) [], 0, 0⟩

/-- The system call 1 is safe. -/
theorem syscallDispatch_safe_write :
    DispatchSafe exampleImage [] (syscallFrame 1)
      (interruptHandler 1 1 exampleEnv exampleState (syscallFrame 1)) :=
  (@syscallDispatch_safe_iff (fun _ => 0) [] 1 1 exampleEnv exampleState (syscallFrame 1) rfl rfl).mpr
    (by decide)

/-- The number 512 reads the word behind the table. -/
theorem syscallDispatch_not_safe :
    ¬ DispatchSafe exampleImage [] (syscallFrame 512)
      (interruptHandler 1 1 exampleEnv exampleState (syscallFrame 512)) := by
  intro h
  have hread : .readSlot 512 ∈ (interruptHandler 1 1 exampleEnv exampleState (syscallFrame 512)).1 :=
    (readSlot_mem_iff rfl).mpr rfl
  exact absurd (h.reads 512 hread) (by decide)

end Soaplin

import Soaplin.Console.LockDiscipline
import Soaplin.Foundation.ByteMemory
import Soaplin.Sched.Sched

/-!
# The console under preemption

Any number of threads print, directly or through the `write` system call, and the timer may switch
threads between any two steps of a direct call.  For this the calls are spelled out as sequences of
atomic instructions (`ttyPrintCode`, `loglnCode`, `syscallWriteCode`); the theorems `runCode_…` say
that a sequence does, when nobody else runs, what the call of the console does.  `SpinStep` is the
step relation.
-/

namespace Soaplin

open ByteMemory StateExcept

/-! ### Instructions -/

/-- The atomic steps of the printing functions. -/
inductive ConsoleInstr
  | acquire (l : LockId)
  | release (l : LockId)
  /-- `if (!tty_enabled) return;` in a function of which `n` instructions are left. -/
  | returnUnlessEnabled (n : ℕ)
  | setFg (fg : ℕ)
  | term (t : TermCall)
  | serial (bytes : List UInt8)
deriving DecidableEq

variable (P : Platform)

/-- `tty_print`. -/
def ttyPrintCode (str : List UInt8) (len : ℕ) : List ConsoleInstr :=
  [.acquire .ttyLock, .returnUnlessEnabled 2, .term (.write (str.take len)), .release .ttyLock]

/-- `tty_printf`. -/
def ttyPrintfCode (format : String) (args : List FormatArg) : List ConsoleInstr :=
  .returnUnlessEnabled 4 ::
    ttyPrintCode (P.npfVsnprintf format args) (strlen (P.npfVsnprintf format args))

/-- `tty_set_fg`. -/
def ttySetFgCode (fg : ℕ) : List ConsoleInstr :=
  [.acquire .ttyLock, .returnUnlessEnabled 3, .setFg fg, .term (.setTextFgRgb fg),
    .release .ttyLock]

/-- `tty_reset_col`. -/
def ttyResetColCode : List ConsoleInstr :=
  [.acquire .ttyLock, .returnUnlessEnabled 3, .term .setTextBgDefault, .term .setTextFgDefault,
    .release .ttyLock]

/-- `serio_print`. -/
def serioPrintCode (buf : List UInt8) (len : ℕ) : List ConsoleInstr := [.serial (buf.take len)]

/-- `serio_printf`. -/
def serioPrintfCode (format : String) (args : List FormatArg) : List ConsoleInstr :=
  serioPrintCode (P.npfVsnprintf format args) (strlen (P.npfVsnprintf format args))

/-- `logln`. -/
def loglnCode (lt : LogType) (cmp msg : String) (args : List FormatArg) : List ConsoleInstr :=
  [.acquire .loggerLock] ++
  ttyPrintfCode P "%s - " [.str cmp] ++
  ttySetFgCode (fgLt lt) ++
  ttyPrintfCode P (nmLt lt) [] ++
  ttyResetColCode ++
  ttyPrintCode (cString ": ") 2 ++
  serioPrintfCode P "%s - %s: " [.str cmp, .str (nmLt lt)] ++
  ttyPrintCode (P.npfVsnprintf msg args) (strlen (P.npfVsnprintf msg args)) ++
  serioPrintCode (P.npfVsnprintf msg args) (strlen (P.npfVsnprintf msg args)) ++
  [.release .loggerLock]

/-- `syscall_write`, when `sf` is the interrupted frame and `m` the memory. -/
def syscallWriteCode (m : Memory) (sf : Stackframe) : List ConsoleInstr :=
  let fd := toInt32 sf.rdi.toNat
  let buf := sf.rsi.toNat
  let count := toInt32 sf.rdx.toNat
  if buf = 0 then []
  else if fd = 1 then
    (List.range count.toNat).flatMap fun i => ttyPrintCode [m (buf + i)] 1
  else []

/-- `syscall_write`; its result is the frame with what it assigns to `rax`. -/
def syscallWrite (m : Memory) (sf : Stackframe) : Call Stackframe := do
  let fd := toInt32 sf.rdi.toNat
  let buf := sf.rsi.toNat
  let count := toInt32 sf.rdx.toNat
  if buf = 0 then return { sf with rax := 0 }
  if fd = 1 then
    (List.range count.toNat).forM fun i => ttyPrint P [m (buf + i)] 1
  return sf

/-! ### One thread alone -/

/-- The call that an instruction stands for. -/
def ConsoleInstr.call : ConsoleInstr → Call Unit
  | .acquire l => spinlockAcquire P l
  | .release l => spinlockRelease l
  | .returnUnlessEnabled _ => pure ()
  | .setFg fg => modify fun c => { c with fg := fg }
  | .term t => ftctxCall t
  | .serial bytes => modify fun c => { c with serial := c.serial ++ bytes }

/-- The instructions in a row, when nobody else runs. -/
def runCode : List ConsoleInstr → Call Unit
  | [] => pure ()
  | .returnUnlessEnabled n :: code => do
    if !(← get).ttyEnabled then runCode (code.drop n) else runCode code
  | i :: code => do
    i.call P
    runCode code
termination_by code => code.length

variable {P}

lemma runCode_nil : runCode P [] = pure () := by
  rw [runCode]

/-- An instruction that always goes on with the next one. -/
lemma runCode_cons {i : ConsoleInstr} {code : List ConsoleInstr}
    (h : ∀ n, i ≠ .returnUnlessEnabled n) :
    runCode P (i :: code) = (i.call P >>= fun _ => runCode P code) := by
  cases i with
  | returnUnlessEnabled n => exact absurd rfl (h n)
  | _ =>
    rw [runCode]
    nofun

/-- A `return` in the middle of a function. -/
lemma runCode_returnUnlessEnabled (n : ℕ) (code : List ConsoleInstr) :
    runCode P (.returnUnlessEnabled n :: code) = (get >>= fun c : Console =>
      if !c.ttyEnabled then runCode P (code.drop n) else runCode P code) := by
  rw [runCode]

/-- The code of a function that only works on an enabled terminal, in front of other code. -/
lemma runCode_locked (body : List ConsoleInstr) {code : List ConsoleInstr} {b : Call Unit} {n : ℕ}
    (hn : n = body.length + 1)
    (hbody : ∀ rest, runCode P (body ++ rest) = (b >>= fun _ => runCode P rest)) :
    runCode P ([.acquire .ttyLock, .returnUnlessEnabled n] ++ body ++ [.release .ttyLock] ++ code) =
      (lockedWhenEnabled P b >>= fun _ => runCode P code) := by
  have hdrop : (body ++ ([ConsoleInstr.release .ttyLock] ++ code)).drop n = code := by
    rw [hn, ← List.append_assoc]
    exact List.drop_left' (by simp)
  rw [List.append_assoc, List.append_assoc, List.cons_append, List.cons_append, List.nil_append,
    runCode_cons (by nofun), runCode_returnUnlessEnabled, hdrop, hbody, List.singleton_append,
    runCode_cons (by nofun)]
  simp only [lockedWhenEnabled, ConsoleInstr.call, bind_assoc]
  congr 1
  funext _
  congr 1
  funext c
  cases c.ttyEnabled <;> simp

/-- `tty_print`, in front of other code. -/
theorem runCode_ttyPrint (str : List UInt8) (len : ℕ) (code : List ConsoleInstr) :
    runCode P (ttyPrintCode str len ++ code) =
      (ttyPrint P str len >>= fun _ => runCode P code) :=
  runCode_locked [.term (.write (str.take len))] rfl fun _ => runCode_cons (by nofun)

/-- `tty_set_fg`, in front of other code. -/
theorem runCode_ttySetFg (fg : ℕ) (code : List ConsoleInstr) :
    runCode P (ttySetFgCode fg ++ code) = (ttySetFg P fg >>= fun _ => runCode P code) := by
  refine runCode_locked [.setFg fg, .term (.setTextFgRgb fg)] rfl fun rest => ?_
  rw [List.cons_append, List.singleton_append, runCode_cons (by nofun), runCode_cons (by nofun)]
  simp only [ConsoleInstr.call, bind_assoc]

/-- `tty_reset_col`, in front of other code. -/
theorem runCode_ttyResetCol (code : List ConsoleInstr) :
    runCode P (ttyResetColCode ++ code) = (ttyResetCol P >>= fun _ => runCode P code) := by
  refine runCode_locked [.term .setTextBgDefault, .term .setTextFgDefault] rfl fun rest => ?_
  rw [List.cons_append, List.singleton_append, runCode_cons (by nofun), runCode_cons (by nofun)]
  simp only [ConsoleInstr.call, bind_assoc]

/-- `tty_printf`, in front of other code. -/
theorem runCode_ttyPrintf (format : String) (args : List FormatArg) (code : List ConsoleInstr) :
    runCode P (ttyPrintfCode P format args ++ code) =
      (ttyPrintf P format args >>= fun _ => runCode P code) := by
  rw [ttyPrintfCode, List.cons_append, runCode_returnUnlessEnabled, runCode_ttyPrint]
  have hdrop : (ttyPrintCode (P.npfVsnprintf format args) (strlen (P.npfVsnprintf format args)) ++
      code).drop 4 = code := List.drop_left' rfl
  rw [hdrop]
  simp only [ttyPrintf, bind_assoc]
  congr 1
  funext c
  cases c.ttyEnabled <;> simp

/-- `serio_print`, in front of other code. -/
theorem runCode_serioPrint (buf : List UInt8) (len : ℕ) (code : List ConsoleInstr) :
    runCode P (serioPrintCode buf len ++ code) =
      (serioPrint buf len >>= fun _ => runCode P code) :=
  runCode_cons (by nofun)

/-- `logln`. -/
theorem runCode_logln (lt : LogType) (cmp msg : String) (args : List FormatArg) :
    runCode P (loglnCode P lt cmp msg args) = logln P lt cmp msg args := by
  simp only [loglnCode, List.append_assoc, serioPrintfCode]
  rw [List.singleton_append, runCode_cons (by nofun), runCode_ttyPrintf, runCode_ttySetFg,
    runCode_ttyPrintf, runCode_ttyResetCol, runCode_ttyPrint, runCode_serioPrint, runCode_ttyPrint,
    runCode_serioPrint, runCode_cons (by nofun), runCode_nil]
  rfl

/-- The loop of `syscall_write`. -/
lemma runCode_flatMap_ttyPrint (m : Memory) (buf : ℕ) (is : List ℕ) :
    runCode P (is.flatMap fun i => ttyPrintCode [m (buf + i)] 1) =
      is.forM fun i => ttyPrint P [m (buf + i)] 1 := by
  induction is with
  | nil => exact runCode_nil
  | cons i is ih =>
    rw [List.flatMap_cons, runCode_ttyPrint, ih]
    rfl

/-- `syscall_write`. -/
theorem runCode_syscallWrite (m : Memory) (sf : Stackframe) :
    runCode P (syscallWriteCode m sf) = (syscallWrite P m sf >>= fun _ => pure ()) := by
  unfold syscallWriteCode syscallWrite
  dsimp only
  split_ifs
  · simp [runCode_nil]
  · rw [runCode_flatMap_ttyPrint]
    simp
  · simp [runCode_nil]

/-! ### Threads -/

/-- A thread: what is left of its current call, whether the call is a system call, in which `IF` is
clear, and the counter of the `spinlock_acquire` it is in, once this has failed to get the lock. -/
structure PrintThread where
  code : List ConsoleInstr
  syscall : Bool
  cnt : Option ℕ

/-- The threads `ι` at the console, and which thread has taken a lock that is taken. -/
structure Printing (ι : Type) where
  console : Console
  thread : ι → PrintThread
  running : ι
  owner : LockId → Option ι
  /-- `panic(DEADLOCKED_KERNEL_COMPONENT)` has been called. -/
  panicked : Bool

variable {ι : Type} [DecidableEq ι]

/-- Assigning the state of the running thread. -/
def Printing.setThread (k : Printing ι) (t : PrintThread) : Printing ι :=
  { k with thread := Function.update k.thread k.running t }

/-- The state of the running thread. -/
def Printing.current (k : Printing ι) : PrintThread := k.thread k.running

@[simp] lemma Printing.current_setThread (k : Printing ι) (t : PrintThread) :
    (k.setThread t).current = t := Function.update_self ..

@[simp] lemma Printing.thread_setThread_of_ne {k : Printing ι} {u : ι} (hu : u ≠ k.running)
    (t : PrintThread) : (k.setThread t).thread u = k.thread u := Function.update_of_ne hu ..

/-- The running thread is between two calls. -/
def Printing.Idle (k : Printing ι) : Prop := k.current.code = [] ∧ k.current.syscall = false

/-- The effect on the console of an instruction that does not take a lock. -/
def ConsoleInstr.effect (c : Console) : ConsoleInstr → Console
  | .acquire _ => c
  | .release l => c.setLocked false l
  | .returnUnlessEnabled _ => c
  | .setFg fg => { c with fg := fg }
  | .term t => { c with term := c.term ++ [t] }
  | .serial bytes => { c with serial := c.serial ++ bytes }

/-- What is left to do after an instruction. -/
def ConsoleInstr.next (c : Console) (code : List ConsoleInstr) : ConsoleInstr → List ConsoleInstr
  | .returnUnlessEnabled n => if !c.ttyEnabled then code.drop n else code
  | _ => code

/-- Who owns the locks after an instruction that does not take one. -/
def ConsoleInstr.ownerAfter (owner : LockId → Option ι) : ConsoleInstr → LockId → Option ι
  | .release l => Function.update owner l none
  | _ => owner

/-- The steps of the threads. -/
inductive PrintOp (ι : Type)
  | print (str : List UInt8) (len : ℕ)
  | logln (lt : LogType) (cmp msg : String) (args : List FormatArg)
  | write (m : Memory) (sf : Stackframe)
  | sysret
  | instr
  | spin
  | tick (u : ι)

/-- One step.  Nothing happens any more once `panic` has been called. -/
inductive PrintStep (P : Platform) : Printing ι → PrintOp ι → Printing ι → Prop
  /-- The running thread calls `tty_print`. -/
  | print {k : Printing ι} {str : List UInt8} {len : ℕ} (hrun : k.panicked = false)
      (hidle : k.Idle) :
      PrintStep P k (.print str len) (k.setThread ⟨ttyPrintCode str len, false, none⟩)
  /-- The running thread calls `logln`. -/
  | logln {k : Printing ι} {lt : LogType} {cmp msg : String} {args : List FormatArg}
      (hrun : k.panicked = false) (hidle : k.Idle) :
      PrintStep P k (.logln lt cmp msg args)
        (k.setThread ⟨loglnCode P lt cmp msg args, false, none⟩)
  /-- The running thread executes `int 0x80`: the CPU clears `IF`, and the handler calls
  `syscall_write`. -/
  | write {k : Printing ι} {m : Memory} {sf : Stackframe} (hrun : k.panicked = false)
      (hidle : k.Idle) :
      PrintStep P k (.write m sf) (k.setThread ⟨syscallWriteCode m sf, true, none⟩)
  /-- The system call is over. -/
  | sysret {k : Printing ι} (hrun : k.panicked = false) (hcode : k.current.code = [])
      (hsyscall : k.current.syscall = true) :
      PrintStep P k .sysret (k.setThread ⟨[], false, none⟩)
  /-- An instruction that does not take a lock.  Output needs the terminal to exist. -/
  | instr {k : Printing ι} {i : ConsoleInstr} {code : List ConsoleInstr}
      (hrun : k.panicked = false) (hcode : k.current.code = i :: code)
      (hi : ∀ l, i ≠ .acquire l) (hterm : ∀ t, i = .term t → k.console.ftctx = true) :
      PrintStep P k .instr
        { k.setThread { k.current with code := i.next k.console code } with
          console := i.effect k.console
          owner := i.ownerAfter k.owner }
  /-- `spinlock_acquire` finds the lock free and takes it. -/
  | acquire {k : Printing ι} {l : LockId} {code : List ConsoleInstr} (hrun : k.panicked = false)
      (hcode : k.current.code = .acquire l :: code) (hfree : k.console.locked l = false) :
      PrintStep P k .instr
        { k.setThread { k.current with code := code, cnt := none } with
          console := k.console.setLocked true l
          owner := Function.update k.owner l (some k.running) }
  /-- `spinlock_acquire` finds the lock taken and counts.  Its counter is not initialised. -/
  | spin {k : Printing ι} {l : LockId} {code : List ConsoleInstr} {cnt : ℕ}
      (hrun : k.panicked = false) (hcode : k.current.code = .acquire l :: code)
      (htaken : k.console.locked l = true) (hcnt : ∀ n, k.current.cnt = some n → cnt = n)
      (hle : cnt ≤ 30000) :
      PrintStep P k .spin (k.setThread { k.current with cnt := some (cnt + 1) })
  /-- `spinlock_acquire` gives up. -/
  | giveUp {k : Printing ι} {l : LockId} {code : List ConsoleInstr} {cnt : ℕ}
      (hrun : k.panicked = false) (hcode : k.current.code = .acquire l :: code)
      (htaken : k.console.locked l = true) (hcnt : ∀ n, k.current.cnt = some n → cnt = n)
      (hgt : 30000 < cnt) :
      PrintStep P k .spin { k with panicked := true }
  /-- A tick, while `IF` is set: the scheduler installs the thread `u`. -/
  | tick {k : Printing ι} {u : ι} (hrun : k.panicked = false)
      (hif : k.current.syscall = false) :
      PrintStep P k (.tick u) { k with running := u }

/-- The start: the terminal is enabled, the locks are free, and every thread is between two calls.
-/
structure PrintStart (k : Printing ι) : Prop where
  ttyEnabled : k.console.ttyEnabled = true
  ftctx : k.console.ftctx = true
  locked : ∀ l, k.console.locked l = false
  owner : ∀ l, k.owner l = none
  thread : ∀ u, (k.thread u).code = [] ∧ (k.thread u).syscall = false
  panicked : k.panicked = false

end Soaplin

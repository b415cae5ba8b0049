import Soaplin.Runtime

/-!
# The console

The model of `core/lock/spinlock.c`, `dev/tty.c`, `sys/log.c` and the printing part of
`dev/serio.c`.  A call runs in a state `Console` and either returns or stops for good; it stops when
`panic` is reached, which never returns, or when the terminal is used before it exists.  What the
terminal and the serial port receive is recorded in the state.

`panic` itself prints through these functions, so it is a parameter: what becomes of a state in
which it is called.  So are `npf_vsnprintf`, which is given by the contents it leaves in a buffer of
2048 bytes, and the values that the uninitialised counter of `spinlock_acquire` happens to have.
The framebuffer and the serial port are assumed to answer.
-/

namespace Soaplin

/-- What the terminal is asked to do. -/
inductive TermCall
  | clear
  | setTextFgRgb (rgb : ℕ)
  | setTextBgRgb (rgb : ℕ)
  | setTextBgDefault
  | setTextFgDefault
  | write (bytes : List UInt8)
deriving DecidableEq

/-- The two locks of the console. -/
inductive LockId
  | ttyLock
  | loggerLock
deriving DecidableEq

/-- The global variables of the console, what the terminal and the serial port have received, and
two counts: the calls of `spinlock_acquire` and the failed attempts made in them. -/
structure Console where
  ttyLock : Bool
  loggerLock : Bool
  ttyEnabled : Bool
  /-- `ftctx` is not `NULL`. -/
  ftctx : Bool
  bg : ℕ
  fg : ℕ
  acquires : ℕ
  failedAttempts : ℕ
  term : List TermCall
  serial : List UInt8

/-- The field `locked` of a lock. -/
def Console.locked (c : Console) : LockId → Bool
  | .ttyLock => c.ttyLock
  | .loggerLock => c.loggerLock

/-- Assigning the field `locked` of a lock. -/
def Console.setLocked (c : Console) (v : Bool) : LockId → Console
  | .ttyLock => { c with ttyLock := v }
  | .loggerLock => { c with loggerLock := v }

/-- The console when the kernel starts. -/
def Console.boot : Console := ⟨false, false, false, false, 0x080808, 0xFFFFFF, 0, 0, [], []⟩

/-- How a call fails to return: the machine halts in `panic`, or a `NULL` terminal is used. -/
inductive Stop
  | halted (c : Console)
  | fault (c : Console)

/-- A call with a result in `α`. -/
abbrev Call (α : Type) := StateT Console (Except Stop) α

/-- An argument of a format string. -/
inductive FormatArg
  | str (s : String)
  | int (n : ℤ)

/-- The code and the values that the console takes from outside. -/
structure Platform where
  /-- `panic` with its cause. -/
  panic : ℕ → Console → Stop
  /-- The buffer after `npf_vsnprintf(buf, 2048, format, args)`. -/
  npfVsnprintf : String → List FormatArg → List UInt8
  /-- The initial value of `cnt` in each call of `spinlock_acquire`. -/
  cntJunk : ℕ → ℕ

/-- `DEADLOCKED_KERNEL_COMPONENT`. -/
def deadlockedKernelComponent : ℕ := 2

/-! ### Spinlocks -/

/-- The loop of `spinlock_acquire` from attempt `i` on, when attempt `j` reads `reads j`: the number
of failed attempts, and whether the loop ends with the lock taken or in `panic`. -/
def spinLoop (reads : ℕ → Bool) (i cnt : ℕ) : ℕ × Bool :=
  if reads i then
    if cnt > 30000 then (i + 1, false)
    else spinLoop reads (i + 1) (cnt + 1)
  else (i, true)
termination_by 30001 - cnt

variable (P : Platform)

/-- `spinlock_acquire`, when nobody else runs. -/
def spinlockAcquire (l : LockId) : Call Unit := do
  let c ← get
  let (failed, taken) := spinLoop (fun _ => c.locked l) 0 (P.cntJunk c.acquires)
  let c := { c with acquires := c.acquires + 1, failedAttempts := c.failedAttempts + failed }
  if taken then set (c.setLocked true l)
  else throw (P.panic deadlockedKernelComponent c)

/-- `spinlock_release`. -/
def spinlockRelease (l : LockId) : Call Unit :=
  modify fun c => c.setLocked false l

/-! ### The terminal -/

/-- A call through `ftctx`. -/
def ftctxCall (t : TermCall) : Call Unit := do
  let c ← get
  if c.ftctx then set { c with term := c.term ++ [t] }
  else throw (.fault c)

/-- `tty_enable`. -/
def ttyEnable : Call Unit := do
  spinlockAcquire P .ttyLock
  if (← get).ttyEnabled then return
  if !(← get).ftctx then modify fun c => { c with ftctx := true }
  ftctxCall .clear
  modify fun c => { c with ttyEnabled := true }
  spinlockRelease .ttyLock

/-- `tty_clear`. -/
def ttyClear : Call Unit := do
  spinlockAcquire P .ttyLock
  ftctxCall .clear
  spinlockRelease .ttyLock

/-- The common shape of the calls that only work on an enabled terminal. -/
def lockedWhenEnabled (body : Call Unit) : Call Unit := do
  spinlockAcquire P .ttyLock
  if !(← get).ttyEnabled then return
  body
  spinlockRelease .ttyLock

/-- `tty_set_fg`. -/
def ttySetFg (fg : ℕ) : Call Unit :=
  lockedWhenEnabled P do
    modify fun c => { c with fg := fg }
    ftctxCall (.setTextFgRgb fg)

/-- `tty_set_bg`. -/
def ttySetBg (bg : ℕ) : Call Unit :=
  lockedWhenEnabled P do
    modify fun c => { c with bg := bg }
    ftctxCall (.setTextBgRgb bg)

/-- `tty_reset_col`. -/
def ttyResetCol : Call Unit :=
  lockedWhenEnabled P do
    ftctxCall .setTextBgDefault
    ftctxCall .setTextFgDefault

/-- `tty_disable`. -/
def ttyDisable : Call Unit :=
  lockedWhenEnabled P (modify fun c => { c with ttyEnabled := false })

/-- `tty_print` on the bytes `str`. -/
def ttyPrint (str : List UInt8) (len : ℕ) : Call Unit :=
  lockedWhenEnabled P (ftctxCall (.write (str.take len)))

/-- `tty_printf`. -/
def ttyPrintf (format : String) (args : List FormatArg) : Call Unit := do
  if !(← get).ttyEnabled then return
  let buf := P.npfVsnprintf format args
  ttyPrint P buf (strlen buf)

/-! ### The serial port -/

/-- `serio_print` on the bytes `buf`. -/
def serioPrint (buf : List UInt8) (len : ℕ) : Call Unit :=
  modify fun c => { c with serial := c.serial ++ buf.take len }

/-- `serio_printf`. -/
def serioPrintf (format : String) (args : List FormatArg) : Call Unit :=
  let buf := P.npfVsnprintf format args
  serioPrint buf (strlen buf)

/-! ### The logger -/

/-- `logtype`. -/
inductive LogType
  | warn
  | info
  | panicLg
  | err
  | progress
deriving DecidableEq

/-- `fg_lt`. -/
def fgLt : LogType → ℕ
  | .warn => 0xf7d514
  | .info => 0x147ef7
  | .panicLg => 0x750202
  | .err => 0xd10000
  | .progress => 0x027512

/-- `nm_lt`. -/
def nmLt : LogType → String
  | .warn => "warn"
  | .info => "info"
  | .panicLg => "panic"
  | .err => "err"
  | .progress => "progress"

/-- `logln`. -/
def logln (lt : LogType) (cmp msg : String) (args : List FormatArg) : Call Unit := do
  spinlockAcquire P .loggerLock
  ttyPrintf P "%s - " [.str cmp]
  ttySetFg P (fgLt lt)
  ttyPrintf P (nmLt lt) []
  ttyResetCol P
  ttyPrint P (cString ": ") 2
  serioPrintf P "%s - %s: " [.str cmp, .str (nmLt lt)]
  let buf := P.npfVsnprintf msg args
  let i := strlen buf
  ttyPrint P buf i
  serioPrint buf i
  spinlockRelease .loggerLock

end Soaplin

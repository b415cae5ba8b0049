import Soaplin.Console.LockDiscipline

/-!
# The panic screen

`panic` reports through the console, whose calls take the console's locks and call `panic` in turn
when a lock is not free.  From which states does it reach its halt loop?  Once `panic` has been
entered with `logger_lock` taken, every further entry is such an entry again, so it never halts
(`panic_ne_halted_of_logging`); `panic_halts_iff` says that it halts exactly when both locks are
free and the terminal is enabled.
-/

namespace Soaplin

open StateExcept

/-! ### The model -/

/-- `KMODE_CPU_EXCEPTION`. -/
def kmodeCpuException : ℕ := 1

/-- `MAX`. -/
def maxCause : ℕ := 2

/-- `ex_msgs`. -/
def exMsgs : List String := ["UNKNOWN", "KMODE_CPU_EXCEPTION", "DEADLOCKED_KERNEL_COMPONENT"]

/-- `explainations`. -/
def explainations : List String := [
  "We can't give any info: this panic cause is unknown to us.",
  "Your CPU thrown an exception interrupt due to it being in a bad state.",
  "A component of the operating system kernel entered a deadlocked state."]

/-- The calls that `panic` makes before its halt loop; `arg` is `*(int *)args`, if `args` is not
`NULL`. -/
def panicCalls (cause : ℕ) (arg : Option ℤ) : List ConsoleOp := [
  .logln .info "kernel" "panic! %s\n" [.str (exMsgs.getD cause "")],
  .clear,
  .printf "  ,-.,--.   ,--.,-.   \n" [],
  .printf " / .' \\  `.'  / '. \\  \n" [],
  .printf "|  |   .'    \\   |  | \n" [],
  .printf "|  |  /  .'.  \\  |  | \n" [],
  .printf " \\ '.'--'   '--'.' /  \n" [],
  .printf "  `-'           `-'   \n" [],
  .printf ("!!!!!!!!!!!!!!!!!!!!!!!!!!!!!!!!!!!!!!!!!!!!!!!!!!!!!!!!!!!!!!!!!" ++
    "!!!!!!!!!!\n\n") [],
  .printf ("A problem has been detected and your Soaplin-based OS has been " ++
    "shut down\n") [],
  .printf "to prevent damage to your computer.\n\n" [],
  .printf "%s\n\n" [.str (explainations.getD (if cause > maxCause then 0 else cause) "")],
  .printf "If this is the first time you've seen this Stop error screen,\n" [],
  .printf "restart your computer. if this screen appears again, follow\n" [],
  .printf "these steps:\n\n" [],
  .printf ("Check to make sure any new hardware or software is properly " ++
    "installed.\n") [],
  .printf ("If this is a new installation, ask your hardware or software " ++
    "manufacturer\n") [],
  .printf "for any kernel patches you might need.\n\n" [],
  .printf "If problems continue, you might try debugging Soaplin\n" [],
  .printf "using a tool such as GNU Debug Bridge (gdb), or LLVM Debug Bridge (lldb).\n" [],
  .printf "Technical information: \n" [],
  .printf "*** STOP: %s (Arg1: %d)\n\n"
    [.str (exMsgs.getD (if cause > maxCause then 0 else cause) ""), .int (arg.getD (-1))],
  .printf ("!!!!!!!!!!!!!!!!!!!!!!!!!!!!!!!!!!!!!!!!!!!!!!!!!!!!!!!!!!!!!!!!!" ++
    "!!!!!!!!!!\n\n") []]

/-- `panic`, in which at most `depth` calls of it may be active.  It halts when its own calls
return; otherwise it ends as the call that does not, and with a `fault` when the bound is used up.
-/
def panic (P : Platform) : ℕ → ℕ → Option ℤ → Console → Stop
  | 0, _, _, c => .fault c
  | depth + 1, cause, arg, c =>
    let nested := { P with panic := fun cause c => panic P depth cause none c }
    match runCalls nested (panicCalls cause arg) c with
    | .ok (_, c') => .halted c'
    | .error stop => stop

/-- `panic` reaches its halt loop. -/
def PanicHalts (P : Platform) (cause : ℕ) (arg : Option ℤ) (c : Console) : Prop :=
  ∃ depth c', panic P depth cause arg c = .halted c'

/-- The stop is not a halt. -/
def Stop.NotHalted (stop : Stop) : Prop := ∀ c, stop ≠ .halted c

variable {P : Platform} {c : Console} {cause depth : ℕ} {arg : Option ℤ} {m : Call Unit}

/-! ### While `logger_lock` is taken -/

/-- The call keeps `logger_lock` taken, and if it stops, it is not in the halt loop. -/
def KeepsLogging (m : Call Unit) : Prop :=
  ∀ c : Console, c.loggerLock = true → Meets m c (fun c => c.loggerLock = true) Stop.NotHalted

/-- `panic` does not halt if it is entered with `logger_lock` taken. -/
def Platform.PanicsForever (P : Platform) : Prop :=
  ∀ cause (c : Console), c.loggerLock = true → (P.panic cause c).NotHalted

/-- Two calls in a row. -/
lemma KeepsLogging.bind {f : Unit → Call Unit} (hm : KeepsLogging m) (hf : ∀ a, KeepsLogging (f a)) :
    KeepsLogging (m >>= f) :=
  fun c hc => (hm c hc).bind fun a t ht => hf a t ht

/-- Looking at the state. -/
lemma keepsLogging_get {f : Console → Call Unit} (hf : ∀ c, KeepsLogging (f c)) :
    KeepsLogging (get >>= f) := by
  intro c hc
  exact hf c c hc

/-- A call that does nothing. -/
lemma keepsLogging_pure (a : Unit) : KeepsLogging (pure a) :=
  fun c hc => meets_of_ok (pure_apply a c) hc

/-- An assignment to another variable. -/
lemma keepsLogging_modify {f : Console → Console} (hf : ∀ c, (f c).loggerLock = c.loggerLock) :
    KeepsLogging (modify f) :=
  fun c hc => meets_of_ok (modify_apply f c) ((hf c).trans hc)

/-- A call through `ftctx`. -/
lemma keepsLogging_ftctxCall (t : TermCall) : KeepsLogging (ftctxCall t) := by
  intro c hc
  cases hctx : c.ftctx with
  | true => exact meets_of_ok (ftctxCall_created hctx) hc
  | false =>
    refine meets_of_error (e := .fault c) ?_ (fun _ => nofun)
    simp [ftctxCall, hctx]

/-- The console after the failed attempts to take the lock. -/
lemma spinlockAcquire_held_eq {l : LockId} (h : c.locked l = true) :
    ∃ failed, spinlockAcquire P l c = .error (P.panic deadlockedKernelComponent
      { c with acquires := c.acquires + 1, failedAttempts := c.failedAttempts + failed }) := by
  have hspin := spinLoop_held 0 (P.cntJunk c.acquires)
  refine ⟨(spinLoop (fun _ => true) 0 (P.cntJunk c.acquires)).1, ?_⟩
  simp [spinlockAcquire, h, hspin]

/-- Taking a lock. -/
lemma keepsLogging_acquire (hP : P.PanicsForever) (l : LockId) :
    KeepsLogging (spinlockAcquire P l) := by
  intro c hc
  cases hl : c.locked l with
  | true =>
    obtain ⟨failed, hrun⟩ := spinlockAcquire_held_eq (P := P) hl
    exact meets_of_error hrun (hP _ _ hc)
  | false =>
    refine meets_of_ok (spinlockAcquire_free hl) ?_
    cases l with
    | ttyLock => exact hc
    | loggerLock => rfl

/-- The calls that only work on an enabled terminal. -/
lemma keepsLogging_lockedWhenEnabled (hP : P.PanicsForever) (hm : KeepsLogging m) :
    KeepsLogging (lockedWhenEnabled P m) := by
  unfold lockedWhenEnabled
  refine (keepsLogging_acquire hP .ttyLock).bind fun _ => keepsLogging_get fun c => ?_
  split_ifs
  · exact keepsLogging_pure ()
  · exact hm.bind fun _ => keepsLogging_modify fun _ => rfl

/-- `tty_print`. -/
lemma keepsLogging_ttyPrint (hP : P.PanicsForever) (str : List UInt8) (len : ℕ) :
    KeepsLogging (ttyPrint P str len) :=
  keepsLogging_lockedWhenEnabled hP (keepsLogging_ftctxCall _)

/-- `tty_printf`. -/
lemma keepsLogging_ttyPrintf (hP : P.PanicsForever) (format : String) (args : List FormatArg) :
    KeepsLogging (ttyPrintf P format args) := by
  unfold ttyPrintf
  refine keepsLogging_get fun c => ?_
  split_ifs
  · exact keepsLogging_pure ()
  · exact keepsLogging_ttyPrint hP _ _

/-- `tty_set_fg`. -/
lemma keepsLogging_ttySetFg (hP : P.PanicsForever) (fg : ℕ) : KeepsLogging (ttySetFg P fg) := by
  refine keepsLogging_lockedWhenEnabled hP (KeepsLogging.bind ?_ fun _ => ?_)
  · exact keepsLogging_modify (f := fun c => { c with fg := fg }) fun _ => rfl
  · exact keepsLogging_ftctxCall _

/-- `tty_reset_col`. -/
lemma keepsLogging_ttyResetCol (hP : P.PanicsForever) : KeepsLogging (ttyResetCol P) :=
  keepsLogging_lockedWhenEnabled hP
    ((keepsLogging_ftctxCall _).bind fun _ => keepsLogging_ftctxCall _)

/-- `serio_print`. -/
lemma keepsLogging_serioPrint (buf : List UInt8) (len : ℕ) : KeepsLogging (serioPrint buf len) :=
  keepsLogging_modify (f := fun c => { c with serial := c.serial ++ buf.take len }) fun _ => rfl

/-- If `logln` stops, it is not in the halt loop. -/
lemma meets_logln (hP : P.PanicsForever) (lt : LogType) (cmp msg : String) (args : List FormatArg)
    (c : Console) : Meets (logln P lt cmp msg args) c (fun _ => True) Stop.NotHalted := by
  unfold logln
  cases hl : c.loggerLock with
  | true =>
    obtain ⟨failed, hrun⟩ := spinlockAcquire_held_eq (P := P) (l := .loggerLock) hl
    exact meets_of_error (bind_of_error hrun) (hP _ _ hl)
  | false =>
    have hacq := spinlockAcquire_free (P := P) (l := .loggerLock) hl
    -- from here on `logger_lock` is taken
    refine (meets_of_ok (q := fun c => c.loggerLock = true) hacq rfl).bind fun _ t ht => ?_
    refine (keepsLogging_ttyPrintf hP _ _ t ht).bind fun _ t ht => ?_
    refine (keepsLogging_ttySetFg hP _ t ht).bind fun _ t ht => ?_
    refine (keepsLogging_ttyPrintf hP _ _ t ht).bind fun _ t ht => ?_
    refine (keepsLogging_ttyResetCol hP t ht).bind fun _ t ht => ?_
    refine (keepsLogging_ttyPrint hP _ _ t ht).bind fun _ t ht => ?_
    refine (keepsLogging_serioPrint _ _ t ht).bind fun _ t ht => ?_
    refine (keepsLogging_ttyPrint hP _ _ t ht).bind fun _ t ht => ?_
    refine (keepsLogging_serioPrint _ _ t ht).bind fun _ t _ => ?_
    exact meets_of_ok (modify_apply _ t) trivial

/-! ### Entries that never halt -/

/-- If its first call, of `logln`, does not return and does not halt, `panic` does not halt. -/
lemma notHalted_of_logln {Q : Platform}
    (hnot : ∀ lt cmp msg args, ¬ Returns (logln Q lt cmp msg args) c fun _ => True)
    (hmeets : ∀ lt cmp msg args, Meets (logln Q lt cmp msg args) c (fun _ => True) Stop.NotHalted)
    (cause : ℕ) (arg : Option ℤ) :
    ∃ stop, runCalls Q (panicCalls cause arg) c = .error stop ∧ stop.NotHalted := by
  have hrun : runCalls Q (panicCalls cause arg) = (logln Q .info "kernel" "panic! %s\n"
      [.str (exMsgs.getD cause "")] >>= fun _ => runCalls Q (panicCalls cause arg).tail) := rfl
  rw [hrun]
  cases hlog : logln Q .info "kernel" "panic! %s\n" [.str (exMsgs.getD cause "")] c with
  | ok r => exact absurd (returns_of_eq (a := r.1) (t := r.2) hlog trivial) (hnot _ _ _ _)
  | error stop => exact ⟨stop, bind_of_error hlog, (hmeets _ _ _ _).2 stop hlog⟩

/-- With `logger_lock` taken, `logln` does not return. -/
lemma not_returns_logln_logging (hl : c.loggerLock = true) (lt : LogType) (cmp msg : String)
    (args : List FormatArg) : ¬ Returns (logln P lt cmp msg args) c fun _ => True := by
  obtain ⟨stop, hstop⟩ := spinlockAcquire_held (P := P) (l := .loggerLock) hl
  exact not_returns_of_error (bind_of_error hstop)

/-- An entry of `panic` with `logger_lock` taken never reaches the halt loop: the descent is
infinite. -/
theorem panic_ne_halted_of_logging (depth cause : ℕ) (arg : Option ℤ) (hl : c.loggerLock = true) :
    (panic P depth cause arg c).NotHalted := by
  induction depth generalizing cause arg c with
  | zero => exact fun _ => nofun
  | succ depth ih =>
    have hP : ({ P with panic := fun cause c => panic P depth cause none c } :
        Platform).PanicsForever := fun cause c hc => ih cause none hc
    obtain ⟨stop, hrun, hstop⟩ := notHalted_of_logln (not_returns_logln_logging hl)
      (fun lt cmp msg args => meets_logln hP lt cmp msg args c) cause arg
    rw [panic, hrun]
    exact hstop

/-- Without a terminal an enabled `logln` does not return. -/
lemma not_returns_logln_absent (hl : c.loggerLock = false) (hen : c.ttyEnabled = true)
    (hctx : c.ftctx = false) (lt : LogType) (cmp msg : String) (args : List FormatArg) :
    ¬ Returns (logln P lt cmp msg args) c fun _ => True := by
  have hacq := spinlockAcquire_free (P := P) (l := .loggerLock) hl
  unfold logln
  refine not_returns_bind (r := fun t => t.ttyEnabled = true ∧ t.ftctx = false)
    (returns_of_eq hacq ⟨hen, hctx⟩) ?_
  rintro - t ⟨hten, htctx⟩
  refine not_returns_bind_left ?_
  rw [Returns, ttyPrintf_enabled hten]
  cases hlock : t.ttyLock with
  | true => exact lockedWhenEnabled_held hlock
  | false =>
    -- the write goes through a `NULL` pointer
    have hacq' := spinlockAcquire_free (P := P) (l := .ttyLock) hlock
    refine not_returns_of_error (e := .fault { t with
      acquires := t.acquires + 1, ttyLock := true }) ?_
    rw [ttyPrint, lockedWhenEnabled, bind_of_ok hacq', get_bind]
    simp only [Console.setLocked, hten, Bool.not_true, Bool.false_eq_true, ↓reduceIte]
    refine bind_of_error ?_
    simp [ftctxCall, htctx]

/-- From which states `panic` reaches its halt loop. -/
structure CanReport (c : Console) : Prop where
  loggerLock : c.loggerLock = false
  ttyLock : c.ttyLock = false
  ttyEnabled : c.ttyEnabled = true
  ftctx : c.ftctx = true

/-- From every other state `logln` does not return. -/
lemma not_returns_logln (hnot : ¬ CanReport c) (lt : LogType) (cmp msg : String)
    (args : List FormatArg) : ¬ Returns (logln P lt cmp msg args) c fun _ => True := by
  cases hl : c.loggerLock with
  | true => exact not_returns_logln_logging hl lt cmp msg args
  | false =>
    cases hen : c.ttyEnabled with
    | false => exact not_returns_logln_disabled lt cmp msg args hl hen
    | true =>
      cases hlock : c.ttyLock with
      | true => exact not_returns_logln_held lt cmp msg args hl hen hlock
      | false =>
        cases hctx : c.ftctx with
        | true => exact absurd ⟨hl, hlock, hen, hctx⟩ hnot
        | false => exact not_returns_logln_absent hl hen hctx lt cmp msg args

/-- From every other state `panic` does not halt. -/
lemma panic_ne_halted (hnot : ¬ CanReport c) (depth cause : ℕ) (arg : Option ℤ) :
    (panic P depth cause arg c).NotHalted := by
  cases depth with
  | zero => exact fun _ => nofun
  | succ depth =>
    have hP : ({ P with panic := fun cause c => panic P depth cause none c } :
        Platform).PanicsForever :=
      fun cause c hc => panic_ne_halted_of_logging depth cause none hc
    obtain ⟨stop, hrun, hstop⟩ := notHalted_of_logln (not_returns_logln hnot)
      (fun lt cmp msg args => meets_logln hP lt cmp msg args c) cause arg
    rw [panic, hrun]
    exact hstop

/-! ### The main result -/

/-- On an enabled terminal with free locks all calls of `panic` return. -/
lemma returns_panicCalls (hc : CanReport c) (cause : ℕ) (arg : Option ℤ) :
    Returns (runCalls P (panicCalls cause arg)) c fun _ => True := by
  have hstate : c.lockState = ⟨false, false, true, true⟩ := by
    simp [Console.lockState, hc.loggerLock, hc.ttyLock, hc.ttyEnabled, hc.ftctx]
  have hrun : c.lockState.run (panicCalls cause arg) = some c.lockState := by
    rw [hstate]
    rfl
  have hcalls := runCalls_refines (P := P) (panicCalls cause arg) fun _ => hc.ftctx
  rw [hrun] at hcalls
  exact hcalls.mono fun _ _ => trivial

/-- `panic` reaches its halt loop if and only if both locks are free and the terminal is enabled
(and there is one); whatever the cause, its argument and the initial values of the spin counters. -/
theorem panic_halts_iff (P : Platform) (cause : Fin 3) (arg : Option ℤ) (c : Console) :
    PanicHalts P cause arg c ↔
      c.loggerLock = false ∧ c.ttyLock = false ∧ c.ttyEnabled = true ∧ c.ftctx = true := by
  constructor
  · rintro ⟨depth, c', hhalt⟩
    by_cases hc : CanReport c
    · exact ⟨hc.loggerLock, hc.ttyLock, hc.ttyEnabled, hc.ftctx⟩
    · exact absurd hhalt (panic_ne_halted hc depth cause arg c')
  · rintro ⟨hl, hlock, hen, hctx⟩
    obtain ⟨_, c', hrun, -⟩ := returns_panicCalls (P := { P with
      panic := fun cause c => panic P 0 cause none c }) ⟨hl, hlock, hen, hctx⟩ cause arg
    refine ⟨1, c', ?_⟩
    rw [panic, hrun]

/-- `spinlock_acquire` on a `tty_lock` that is held: the report of the deadlock never ends, since it
waits for the same lock. -/
theorem deadlock_never_reported : ¬ PanicHalts quietPlatform deadlockedKernelComponent none
    { Console.boot with ttyLock := true, ttyEnabled := true, ftctx := true } := by
  rintro ⟨depth, c', hhalt⟩
  refine panic_ne_halted ?_ depth _ none c' hhalt
  intro hc
  cases hc.ttyLock

end Soaplin

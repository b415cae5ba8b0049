import Soaplin.Console.Tty
import Soaplin.Foundation.StateExcept

/-!
# The locks of the console

Which sequences of calls leave `tty_lock` and `logger_lock` free after every call?  The calls that
only work on an enabled terminal take `tty_lock` before they look at `tty_enabled` and return
without releasing it when the terminal is disabled; `tty_enable` does the same when it is enabled
already.  `Disciplined` excludes exactly these calls, and `console_locks_free_iff` says that the
locks are free after every call, and never waited for, in the disciplined sequences and in no
others.
-/

namespace Soaplin

open StateExcept

variable (P : Platform)

/-! ### Sequences of calls -/

/-- The calls that print, or change how the console prints. -/
inductive ConsoleOp
  | enable
  | disable
  | clear
  | setFg (fg : ℕ)
  | setBg (bg : ℕ)
  | resetCol
  | print (str : List UInt8) (len : ℕ)
  | printf (format : String) (args : List FormatArg)
  | logln (lt : LogType) (cmp msg : String) (args : List FormatArg)

/-- The call that an operation stands for. -/
def ConsoleOp.call : ConsoleOp → Call Unit
  | .enable => ttyEnable P
  | .disable => ttyDisable P
  | .clear => ttyClear P
  | .setFg fg => ttySetFg P fg
  | .setBg bg => ttySetBg P bg
  | .resetCol => ttyResetCol P
  | .print str len => ttyPrint P str len
  | .printf format args => ttyPrintf P format args
  | .logln lt cmp msg args => Soaplin.logln P lt cmp msg args

/-- The calls of a sequence, one after the other. -/
def runCalls : List ConsoleOp → Call Unit
  | [] => pure ()
  | op :: ops => do
    op.call P
    runCalls ops

/-- Both locks are free, and no attempt to take one has failed. -/
structure LocksFree (c : Console) : Prop where
  ttyLock : c.ttyLock = false
  loggerLock : c.loggerLock = false
  failedAttempts : c.failedAttempts = 0

/-- After every call of the sequence the call has returned and the locks are free. -/
def AlwaysFree (c : Console) (ops : List ConsoleOp) : Prop :=
  ∀ pre, pre <+: ops → ∃ c', runCalls P pre c = .ok ((), c') ∧ LocksFree c'

/-- Every `tty_clear` comes after a `tty_enable`; `created` says whether there has been one. -/
def ClearsAfterEnable (created : Bool) : List ConsoleOp → Prop
  | [] => True
  | .enable :: ops => ClearsAfterEnable true ops
  | .clear :: ops => created = true ∧ ClearsAfterEnable created ops
  | _ :: ops => ClearsAfterEnable created ops

/-- Whether the terminal is enabled after a call. -/
def ConsoleOp.enabledAfter (enabled : Bool) : ConsoleOp → Bool
  | .enable => true
  | .disable => false
  | _ => enabled

/-- The call finds the terminal as it needs it: disabled for `tty_enable`, enabled for the calls
that take the lock and then look at `tty_enabled`. -/
def ConsoleOp.Ready (enabled : Bool) : ConsoleOp → Prop
  | .enable => enabled = false
  | .clear => True
  | .printf _ _ => True
  | _ => enabled = true

/-- Every call of the sequence finds the terminal as it needs it. -/
def Disciplined (enabled : Bool) : List ConsoleOp → Prop
  | [] => True
  | op :: ops => op.Ready enabled ∧ Disciplined (op.enabledAfter enabled) ops

/-! ### The locks alone -/

/-- What decides whether a call returns: the locks, and whether the terminal is enabled and has been
created. -/
structure LockState where
  ttyLock : Bool
  loggerLock : Bool
  enabled : Bool
  created : Bool
deriving DecidableEq

/-- The part of a console that decides whether a call returns. -/
def Console.lockState (c : Console) : LockState :=
  ⟨c.ttyLock, c.loggerLock, c.ttyEnabled, c.ftctx⟩

/-- A call that takes `tty_lock` and forgets it when the terminal is disabled. -/
def LockState.forgetful (s : LockState) : Option LockState :=
  if s.ttyLock then none
  else if s.enabled then some s
  else some { s with ttyLock := true }

/-- The effect of a call on the locks; `none` when it never returns. -/
def LockState.step (s : LockState) : ConsoleOp → Option LockState
  | .enable =>
    if s.ttyLock then none
    else if s.enabled then some { s with ttyLock := true }
    else some { s with enabled := true, created := true }
  | .disable => s.forgetful.map fun s => { s with enabled := false }
  | .clear => if s.ttyLock || !s.created then none else some s
  | .printf _ _ => if s.enabled then s.forgetful else some s
  | .logln _ _ _ _ => if s.loggerLock || s.ttyLock || !s.enabled then none else some s
  | _ => s.forgetful

/-! ### Taking and releasing a lock -/

variable {P} {c c' c₁ c₂ : Console}

/-- A free lock is taken at the first attempt. -/
lemma spinlockAcquire_free {l : LockId} (h : c.locked l = false) :
    spinlockAcquire P l c = .ok ((), ({ c with acquires := c.acquires + 1 }).setLocked true l) := by
  have hspin : spinLoop (fun _ => c.locked l) 0 (P.cntJunk c.acquires) = (0, true) := by
    rw [spinLoop, if_neg (by simp [h])]
  simp [spinlockAcquire, hspin]

/-- The loop on a lock that stays taken ends in `panic`. -/
lemma spinLoop_held (i cnt : ℕ) : (spinLoop (fun _ => true) i cnt).2 = false := by
  fun_induction spinLoop with
  | case1 => rfl
  | case2 _ _ _ _ ih => exact ih
  | case3 _ _ h => exact absurd rfl h

/-- A lock that is taken is never got. -/
lemma spinlockAcquire_held {l : LockId} (h : c.locked l = true) :
    ∃ stop, spinlockAcquire P l c = .error stop := by
  have hspin := spinLoop_held 0 (P.cntJunk c.acquires)
  simp [spinlockAcquire, h, hspin]

/-- A call on the terminal returns once the terminal has been created. -/
lemma ftctxCall_created {t : TermCall} (h : c.ftctx = true) :
    ftctxCall t c = .ok ((), { c with term := c.term ++ [t] }) := by
  simp [ftctxCall, h]

/-! ### The calls on the locks -/

/-- The locks of `c` are `s`, and `n` attempts have failed so far. -/
def Console.At (s : LockState) (n : ℕ) (c : Console) : Prop :=
  c.lockState = s ∧ c.failedAttempts = n

/-- The call `m` does to the locks of `c` what `r` says: it returns there, or it never returns. -/
def Refines (m : Call Unit) (c : Console) : Option LockState → Prop
  | some s => Returns m c (Console.At s c.failedAttempts)
  | none => ¬ Returns m c fun _ => True

variable {b : Call Unit} {s : LockState} {n : ℕ}

/-- The calls that need an enabled terminal never return while `tty_lock` is taken. -/
lemma lockedWhenEnabled_held {post : Console → Prop} (h : c.ttyLock = true) :
    ¬ Returns (lockedWhenEnabled P b) c post := by
  obtain ⟨stop, hstop⟩ := spinlockAcquire_held (P := P) (l := .ttyLock) h
  exact not_returns_of_error (bind_of_error hstop)

/-- On a disabled terminal they return with `tty_lock` taken. -/
lemma lockedWhenEnabled_disabled (h : c.ttyLock = false) (hdis : c.ttyEnabled = false) :
    Returns (lockedWhenEnabled P b) c
      (Console.At { c.lockState with ttyLock := true } c.failedAttempts) := by
  refine returns_of_eq (a := ()) (t := { c with acquires := c.acquires + 1, ttyLock := true })
    ?_ ⟨rfl, rfl⟩
  rw [lockedWhenEnabled, bind_of_ok (spinlockAcquire_free (l := .ttyLock) h), get_bind]
  simp [Console.setLocked, hdis]

/-- On an enabled terminal they do what their body does, and release the lock. -/
lemma lockedWhenEnabled_enabled {post : Console → Prop} (h : c.ttyLock = false)
    (hen : c.ttyEnabled = true)
    (hbody : Returns b { c with acquires := c.acquires + 1, ttyLock := true }
      fun t => post { t with ttyLock := false }) :
    Returns (lockedWhenEnabled P b) c post := by
  obtain ⟨a, t, hrun, ht⟩ := hbody
  refine returns_of_eq (a := ()) (t := { t with ttyLock := false }) ?_ ht
  rw [lockedWhenEnabled, bind_of_ok (spinlockAcquire_free (l := .ttyLock) h), get_bind]
  simp only [Console.setLocked, hen, Bool.not_true, Bool.false_eq_true, ↓reduceIte] at hrun ⊢
  rw [bind_of_ok hrun]
  rfl

/-- A call whose body leaves the locks alone does to them what `forgetful` says. -/
lemma refines_forgetful (hcreated : c.ttyEnabled = true → c.ftctx = true)
    (hbody : ∀ c₁ : Console, c₁.ftctx = true →
      Returns b c₁ (Console.At c₁.lockState c₁.failedAttempts)) :
    Refines (lockedWhenEnabled P b) c c.lockState.forgetful := by
  cases hlock : c.ttyLock with
  | true =>
    rw [LockState.forgetful, if_pos (show c.lockState.ttyLock = true from hlock)]
    exact lockedWhenEnabled_held hlock
  | false =>
    rw [LockState.forgetful, if_neg (by simp [Console.lockState, hlock])]
    cases hen : c.ttyEnabled with
    | true =>
      rw [if_pos (show c.lockState.enabled = true from hen)]
      have hctx : ({ c with acquires := c.acquires + 1, ttyLock := true } : Console).ftctx = true :=
        hcreated hen
      refine lockedWhenEnabled_enabled hlock hen ((hbody _ hctx).mono ?_)
      rintro t ⟨hstate, hfailed⟩
      simp only [Console.lockState, LockState.mk.injEq] at hstate
      refine ⟨?_, hfailed⟩
      simp [Console.lockState, hstate, hlock]
    | false =>
      rw [if_neg (by simp [Console.lockState, hen])]
      exact lockedWhenEnabled_disabled hlock hen

/-- A call on the terminal leaves the locks alone. -/
lemma returns_ftctxCall {t : TermCall} (h : c.ftctx = true) :
    Returns (ftctxCall t) c (Console.At c.lockState c.failedAttempts) :=
  returns_of_eq (ftctxCall_created h) ⟨rfl, rfl⟩

/-- `tty_set_fg` and `tty_set_bg`: a field is assigned, and the terminal is called. -/
lemma refines_assign {f : Console → Console} {t : TermCall}
    (hcreated : c.ttyEnabled = true → c.ftctx = true)
    (hf : ∀ c, (f c).lockState = c.lockState ∧ (f c).failedAttempts = c.failedAttempts) :
    Refines (lockedWhenEnabled P do modify f; ftctxCall t) c c.lockState.forgetful := by
  refine refines_forgetful hcreated fun c₁ h₁ => ?_
  obtain ⟨hstate, hfailed⟩ := hf c₁
  have hctx : (f c₁).ftctx = true := (congrArg LockState.created hstate).trans h₁
  refine returns_of_eq (a := ()) (t := { f c₁ with term := (f c₁).term ++ [t] }) ?_ ⟨hstate, hfailed⟩
  rw [bind_of_ok (modify_apply f c₁), ftctxCall_created hctx]

/-- `tty_set_fg`. -/
lemma refines_setFg (hcreated : c.ttyEnabled = true → c.ftctx = true) (fg : ℕ) :
    Refines (ttySetFg P fg) c c.lockState.forgetful :=
  refines_assign (f := fun c => { c with fg := fg }) hcreated fun _ => ⟨rfl, rfl⟩

/-- `tty_set_bg`. -/
lemma refines_setBg (hcreated : c.ttyEnabled = true → c.ftctx = true) (bg : ℕ) :
    Refines (ttySetBg P bg) c c.lockState.forgetful :=
  refines_assign (f := fun c => { c with bg := bg }) hcreated fun _ => ⟨rfl, rfl⟩

/-- `tty_reset_col` calls the terminal twice. -/
lemma refines_resetCol (hcreated : c.ttyEnabled = true → c.ftctx = true) :
    Refines (ttyResetCol P) c c.lockState.forgetful := by
  refine refines_forgetful hcreated fun c₁ h₁ => ?_
  refine (returns_ftctxCall h₁).bind fun _ c₂ h₂ => ?_
  have hctx : c₂.ftctx = true := (congrArg LockState.created h₂.1).trans h₁
  rw [← h₂.1, ← h₂.2]
  exact returns_ftctxCall hctx

/-- `tty_print` calls the terminal once. -/
lemma refines_print (hcreated : c.ttyEnabled = true → c.ftctx = true) (str : List UInt8) (len : ℕ) :
    Refines (ttyPrint P str len) c c.lockState.forgetful :=
  refines_forgetful hcreated fun _ h₁ => returns_ftctxCall h₁

/-- `tty_printf` prints the formatted buffer on an enabled terminal. -/
lemma ttyPrintf_enabled (hen : c.ttyEnabled = true) (format : String) (args : List FormatArg) :
    ttyPrintf P format args c =
      ttyPrint P (P.npfVsnprintf format args) (strlen (P.npfVsnprintf format args)) c := by
  simp [ttyPrintf, hen]

/-- `tty_printf` does nothing on a disabled terminal. -/
lemma ttyPrintf_disabled (hdis : c.ttyEnabled = false) (format : String) (args : List FormatArg) :
    ttyPrintf P format args c = .ok ((), c) := by
  simp [ttyPrintf, hdis]

/-- `tty_printf` looks at `tty_enabled` before it takes the lock. -/
lemma refines_printf (hcreated : c.ttyEnabled = true → c.ftctx = true) (format : String)
    (args : List FormatArg) :
    Refines (ttyPrintf P format args) c
      (if c.ttyEnabled then c.lockState.forgetful else some c.lockState) := by
  cases hen : c.ttyEnabled with
  | true =>
    have hrun := ttyPrintf_enabled (P := P) hen format args
    rw [if_pos rfl]
    have hprint := refines_print (P := P) hcreated (P.npfVsnprintf format args)
      (strlen (P.npfVsnprintf format args))
    revert hprint
    cases c.lockState.forgetful <;> simp only [Refines, Returns, hrun] <;> exact id
  | false =>
    exact returns_of_eq (ttyPrintf_disabled hen format args) ⟨rfl, rfl⟩

/-- `tty_enable` on a terminal that is disabled creates it if need be; on one that is enabled it
returns with `tty_lock` taken. -/
lemma refines_enable : Refines (ttyEnable P) c (c.lockState.step .enable) := by
  cases hlock : c.ttyLock with
  | true =>
    obtain ⟨stop, hstop⟩ := spinlockAcquire_held (P := P) (l := .ttyLock) hlock
    simp only [LockState.step, Console.lockState, hlock, ↓reduceIte]
    exact not_returns_of_error (bind_of_error hstop)
  | false =>
    have hacq := spinlockAcquire_free (P := P) (l := .ttyLock) hlock
    cases hen : c.ttyEnabled with
    | true =>
      have hstep : c.lockState.step .enable = some { c.lockState with ttyLock := true } := by
        simp [LockState.step, Console.lockState, hlock, hen]
      rw [hstep]
      refine returns_of_eq (a := ())
        (t := { c with acquires := c.acquires + 1, ttyLock := true }) ?_ ⟨rfl, rfl⟩
      rw [ttyEnable, bind_of_ok hacq, get_bind]
      simp [Console.setLocked, hen]
    | false =>
      have hstep : c.lockState.step .enable =
          some { c.lockState with ttyLock := false, enabled := true, created := true } := by
        simp [LockState.step, Console.lockState, hlock, hen]
      rw [hstep]
      refine returns_of_eq (a := ())
        (t := { c with
          acquires := c.acquires + 1, ttyLock := false, ftctx := true, ttyEnabled := true,
          term := c.term ++ [TermCall.clear] }) ?_ ⟨rfl, rfl⟩
      rw [ttyEnable, bind_of_ok hacq, get_bind]
      simp only [Console.setLocked, hen, Bool.false_eq_true, ↓reduceIte, get_bind]
      cases hctx : c.ftctx with
      | true =>
        simp only [Bool.not_true, Bool.false_eq_true, ↓reduceIte]
        rw [bind_of_ok (ftctxCall_created rfl), bind_of_ok (modify_apply _ _)]
        rfl
      | false =>
        simp only [Bool.not_false, ↓reduceIte]
        rw [bind_of_ok (modify_apply _ _), bind_of_ok (ftctxCall_created rfl),
          bind_of_ok (modify_apply _ _)]
        rfl

/-- `tty_clear` needs the terminal to exist, and does not look at `tty_enabled`. -/
lemma refines_clear : Refines (ttyClear P) c (c.lockState.step .clear) := by
  cases hlock : c.ttyLock with
  | true =>
    obtain ⟨stop, hstop⟩ := spinlockAcquire_held (P := P) (l := .ttyLock) hlock
    simp only [LockState.step, Console.lockState, hlock, Bool.true_or, ↓reduceIte]
    exact not_returns_of_error (bind_of_error hstop)
  | false =>
    have hacq := spinlockAcquire_free (P := P) (l := .ttyLock) hlock
    cases hctx : c.ftctx with
    | true =>
      have hstep : c.lockState.step .clear = some { c.lockState with ttyLock := false } := by
        simp [LockState.step, Console.lockState, hlock, hctx]
      rw [hstep]
      refine returns_of_eq (a := ())
        (t := { c with
          acquires := c.acquires + 1, ttyLock := false, term := c.term ++ [TermCall.clear] })
        ?_ ⟨rfl, rfl⟩
      rw [ttyClear, bind_of_ok hacq]
      exact (bind_of_ok (ftctxCall_created (by exact hctx))).trans rfl
    | false =>
      simp only [LockState.step, Console.lockState, hctx, Bool.not_false, Bool.or_true, ↓reduceIte]
      refine not_returns_of_error (e := .fault { c with
        acquires := c.acquires + 1, ttyLock := true }) ?_
      rw [ttyClear, bind_of_ok hacq]
      refine bind_of_error ?_
      simp [ftctxCall, Console.setLocked, hctx]

/-- `tty_disable` keeps the lock when there is nothing to disable. -/
lemma refines_disable : Refines (ttyDisable P) c (c.lockState.step .disable) := by
  cases hlock : c.ttyLock with
  | true =>
    simp only [LockState.step, LockState.forgetful, Console.lockState, hlock, ↓reduceIte,
      Option.map_none]
    exact lockedWhenEnabled_held hlock
  | false =>
    cases hen : c.ttyEnabled with
    | true =>
      simp only [LockState.step, LockState.forgetful, Console.lockState, hlock, hen,
        Bool.false_eq_true, ↓reduceIte, Option.map_some]
      exact lockedWhenEnabled_enabled hlock hen (returns_of_eq (modify_apply _ _) ⟨rfl, rfl⟩)
    | false =>
      have hrun := lockedWhenEnabled_disabled (P := P)
        (b := modify fun c => { c with ttyEnabled := false }) hlock hen
      simp only [LockState.step, LockState.forgetful, Console.lockState, hlock, hen,
        Bool.false_eq_true, ↓reduceIte, Option.map_some] at hrun ⊢
      exact hrun

/-- A call that `forgetful` describes keeps the locks of an enabled terminal as they are. -/
lemma Refines.at_enabled {m : Call Unit} (h : Refines m c c.lockState.forgetful)
    (hat : c.At s n) (hlock : s.ttyLock = false) (hen : s.enabled = true) :
    Returns m c (Console.At s n) := by
  obtain ⟨rfl, rfl⟩ := hat
  rw [LockState.forgetful, if_neg (by simp [hlock]), if_pos hen] at h
  exact h

/-! ### The calls made while `logln` holds its lock -/

/-- The locks while `logln` is at work on an enabled terminal. -/
def logging : LockState := ⟨false, true, true, true⟩

/-- On a terminal on which `logln` is at work, the terminal exists. -/
lemma Console.At.created (h : c.At logging n) : c.ttyEnabled = true → c.ftctx = true :=
  fun _ => congrArg LockState.created h.1

lemma ttyPrintf_logging (h : c.At logging n) (format : String) (args : List FormatArg) :
    Returns (ttyPrintf P format args) c (Console.At logging n) := by
  have hprintf := refines_printf (P := P) h.created format args
  rw [if_pos (show c.ttyEnabled = true from congrArg LockState.enabled h.1)] at hprintf
  exact hprintf.at_enabled h rfl rfl

lemma ttySetFg_logging (h : c.At logging n) (fg : ℕ) :
    Returns (ttySetFg P fg) c (Console.At logging n) :=
  (refines_setFg h.created fg).at_enabled h rfl rfl

lemma ttyResetCol_logging (h : c.At logging n) :
    Returns (ttyResetCol P) c (Console.At logging n) :=
  (refines_resetCol h.created).at_enabled h rfl rfl

lemma ttyPrint_logging (h : c.At logging n) (str : List UInt8) (len : ℕ) :
    Returns (ttyPrint P str len) c (Console.At logging n) :=
  (refines_print h.created str len).at_enabled h rfl rfl

lemma serioPrint_logging (h : c.At logging n) (buf : List UInt8) (len : ℕ) :
    Returns (serioPrint buf len) c (Console.At logging n) :=
  returns_of_eq (modify_apply _ _) h

/-- On an enabled terminal `logln` returns with both locks as it found them. -/
lemma returns_logln (lt : LogType) (cmp msg : String) (args : List FormatArg)
    (hstate : c.lockState = ⟨false, false, true, true⟩) :
    Returns (logln P lt cmp msg args) c (Console.At c.lockState c.failedAttempts) := by
  have hlock : c.loggerLock = false := congrArg LockState.loggerLock hstate
  have hacq := spinlockAcquire_free (P := P) (l := .loggerLock) hlock
  have hat : (({ c with acquires := c.acquires + 1 } : Console).setLocked true .loggerLock).At
      logging c.failedAttempts := by
    refine ⟨?_, rfl⟩
    simp only [Console.lockState, LockState.mk.injEq] at hstate
    simp only [Console.lockState, Console.setLocked, logging, hstate]
  unfold logln
  refine (returns_of_eq hacq hat).bind fun _ t ht => ?_
  refine (ttyPrintf_logging ht _ _).bind fun _ t ht => ?_
  refine (ttySetFg_logging ht _).bind fun _ t ht => ?_
  refine (ttyPrintf_logging ht _ _).bind fun _ t ht => ?_
  refine (ttyResetCol_logging ht).bind fun _ t ht => ?_
  refine (ttyPrint_logging ht _ _).bind fun _ t ht => ?_
  refine (serioPrint_logging ht _ _).bind fun _ t ht => ?_
  refine (ttyPrint_logging ht _ _).bind fun _ t ht => ?_
  refine (serioPrint_logging ht _ _).bind fun _ t ht => ?_
  refine returns_of_eq (modify_apply _ _) ⟨?_, ht.2⟩
  have hstate' := ht.1
  simp only [Console.lockState, LockState.mk.injEq, logging] at hstate hstate'
  simp only [Console.lockState, Console.setLocked, hstate, hstate']

/-- On a disabled terminal `logln` never returns: `tty_set_fg` keeps `tty_lock`, and `tty_reset_col`
waits for it. -/
lemma not_returns_logln_disabled (lt : LogType) (cmp msg : String) (args : List FormatArg)
    (hlock : c.loggerLock = false) (hdis : c.ttyEnabled = false) :
    ¬ Returns (logln P lt cmp msg args) c fun _ => True := by
  have hacq := spinlockAcquire_free (P := P) (l := .loggerLock) hlock
  have hprintf : ∀ {t : Console} (format : String) (args : List FormatArg), t.ttyEnabled = false →
      Returns (ttyPrintf P format args) t (fun u => u = t) :=
    fun format args ht => returns_of_eq (ttyPrintf_disabled ht format args) rfl
  unfold logln
  refine not_returns_bind (returns_of_eq (q := fun t => t.ttyEnabled = false) hacq hdis)
    fun _ t ht => ?_
  refine not_returns_bind (hprintf _ _ ht) ?_
  rintro - t rfl
  cases hheld : t.ttyLock with
  | true => exact not_returns_bind_left (lockedWhenEnabled_held hheld)
  | false =>
    refine not_returns_bind (lockedWhenEnabled_disabled hheld ht) fun _ u hu => ?_
    have hdis' : u.ttyEnabled = false := (congrArg LockState.enabled hu.1).trans ht
    refine not_returns_bind (hprintf _ _ hdis') ?_
    rintro - u rfl
    exact not_returns_bind_left (lockedWhenEnabled_held (congrArg LockState.ttyLock hu.1))

/-- While `tty_lock` is taken `logln` never returns on an enabled terminal: its first `tty_printf`
waits. -/
lemma not_returns_logln_held (lt : LogType) (cmp msg : String) (args : List FormatArg)
    (hlock : c.loggerLock = false) (hen : c.ttyEnabled = true) (hheld : c.ttyLock = true) :
    ¬ Returns (logln P lt cmp msg args) c fun _ => True := by
  have hacq := spinlockAcquire_free (P := P) (l := .loggerLock) hlock
  unfold logln
  refine not_returns_bind (r := fun t => t.ttyEnabled = true ∧ t.ttyLock = true)
    (returns_of_eq hacq ⟨hen, hheld⟩) ?_
  rintro - t ⟨hten, htheld⟩
  refine not_returns_bind_left ?_
  rw [Returns, ttyPrintf_enabled hten]
  exact lockedWhenEnabled_held htheld

/-! ### Every call -/

/-- Every call does to the locks what `LockState.step` says. -/
theorem call_refines (op : ConsoleOp) (hcreated : c.ttyEnabled = true → c.ftctx = true) :
    Refines (op.call P) c (c.lockState.step op) := by
  cases op with
  | enable => exact refines_enable
  | disable => exact refines_disable
  | clear => exact refines_clear
  | setFg fg => exact refines_setFg hcreated fg
  | setBg bg => exact refines_setBg hcreated bg
  | resetCol => exact refines_resetCol hcreated
  | print str len => exact refines_print hcreated str len
  | printf format args => exact refines_printf hcreated format args
  | logln lt cmp msg args =>
    cases hlog : c.loggerLock with
    | true =>
      obtain ⟨stop, hstop⟩ := spinlockAcquire_held (P := P) (l := .loggerLock) hlog
      simp only [LockState.step, Console.lockState, hlog, Bool.true_or, ↓reduceIte]
      exact not_returns_of_error (bind_of_error hstop)
    | false =>
      cases hen : c.ttyEnabled with
      | false =>
        simp only [LockState.step, Console.lockState, hen, Bool.not_false, Bool.or_true, ↓reduceIte]
        exact not_returns_logln_disabled lt cmp msg args hlog hen
      | true =>
        cases hlock : c.ttyLock with
        | true =>
          simp only [LockState.step, Console.lockState, hlock, Bool.or_true, Bool.true_or,
            ↓reduceIte]
          exact not_returns_logln_held lt cmp msg args hlog hen hlock
        | false =>
          have hstate : c.lockState = ⟨false, false, true, true⟩ := by
            simp [Console.lockState, hlock, hlog, hen, hcreated hen]
          have hrun := returns_logln (P := P) lt cmp msg args hstate
          rw [hstate] at hrun ⊢
          exact hrun

/-- While the terminal is enabled it exists. -/
lemma LockState.step_created {s s' : LockState} {op : ConsoleOp}
    (hcreated : s.enabled = true → s.created = true) (h : s.step op = some s') :
    s'.enabled = true → s'.created = true := by
  cases op <;> simp only [LockState.step, LockState.forgetful] at h <;> grind

/-! ### Sequences of calls on the locks -/

/-- The effect of a sequence of calls on the locks. -/
def LockState.run : LockState → List ConsoleOp → Option LockState
  | s, [] => some s
  | s, op :: ops => (s.step op).bind fun s => s.run ops

/-- A sequence of calls does to the locks what `LockState.run` says. -/
theorem runCalls_refines (ops : List ConsoleOp) (hcreated : c.ttyEnabled = true → c.ftctx = true) :
    Refines (runCalls P ops) c (c.lockState.run ops) := by
  induction ops generalizing c with
  | nil => exact returns_of_eq (pure_apply () c) ⟨rfl, rfl⟩
  | cons op ops ih =>
    have hcall := call_refines (P := P) op hcreated
    cases hstep : c.lockState.step op with
    | none =>
      rw [hstep] at hcall
      rw [LockState.run, hstep]
      exact not_returns_bind_left hcall
    | some s =>
      rw [hstep] at hcall
      rw [LockState.run, hstep, Option.bind_some]
      obtain ⟨_, t, hrun, rfl, hfailed⟩ := hcall
      have hrest := ih (c := t) (LockState.step_created hcreated hstep)
      have heq : runCalls P (op :: ops) c = runCalls P ops t := bind_of_ok hrun
      cases hlast : t.lockState.run ops with
      | none =>
        rw [hlast] at hrest
        rw [Refines, Returns, heq]
        exact hrest
      | some u =>
        rw [hlast] at hrest
        rw [Refines, Returns, heq, ← hfailed]
        exact hrest

/-- Both locks are free. -/
def LockState.Free (s : LockState) : Prop := s.ttyLock = false ∧ s.loggerLock = false

/-- A call that finds the terminal as it needs it returns with the locks free. -/
lemma LockState.step_ready {s : LockState} {op : ConsoleOp} {ops : List ConsoleOp} (hfree : s.Free)
    (hcreated : s.enabled = true → s.created = true) (hready : op.Ready s.enabled)
    (hclear : ClearsAfterEnable s.created (op :: ops)) :
    ∃ s', s.step op = some s' ∧ s'.Free ∧ s'.enabled = op.enabledAfter s.enabled ∧
      ClearsAfterEnable s'.created ops := by
  obtain ⟨htty, hlog⟩ := hfree
  cases op with
  | clear =>
    obtain ⟨hexists, hrest⟩ := hclear
    exact ⟨s, by simp [step, htty, hexists], ⟨htty, hlog⟩, rfl, hrest⟩
  | _ =>
    simp_all [step, forgetful, Free, ConsoleOp.Ready, ConsoleOp.enabledAfter, ClearsAfterEnable]

/-- A call that does not find the terminal as it needs it keeps `tty_lock`, if it returns. -/
lemma LockState.step_unready {s s' : LockState} {op : ConsoleOp} (hfree : s.Free)
    (hready : ¬ op.Ready s.enabled) (h : s.step op = some s') : s'.ttyLock = true := by
  obtain ⟨htty, hlog⟩ := hfree
  cases op <;>
    simp_all [LockState.step, LockState.forgetful, ConsoleOp.Ready] <;> grind

/-- The locks are free after every call of a sequence exactly when the sequence is disciplined. -/
theorem LockState.run_free_iff {s : LockState} {ops : List ConsoleOp} (hfree : s.Free)
    (hcreated : s.enabled = true → s.created = true) (hclear : ClearsAfterEnable s.created ops) :
    (∀ pre, pre <+: ops → ∃ s', s.run pre = some s' ∧ s'.Free) ↔ Disciplined s.enabled ops := by
  induction ops generalizing s with
  | nil =>
    refine ⟨fun _ => trivial, fun _ pre hpre => ?_⟩
    rw [List.prefix_nil.mp hpre]
    exact ⟨s, rfl, hfree⟩
  | cons op ops ih =>
    by_cases hready : op.Ready s.enabled
    · obtain ⟨s', hstep, hfree', hen, hclear'⟩ := step_ready hfree hcreated hready hclear
      have hrun : ∀ pre, s.run (op :: pre) = s'.run pre := by
        intro pre
        rw [LockState.run, hstep, Option.bind_some]
      have hrest := ih hfree' (step_created hcreated hstep) hclear'
      rw [Disciplined, ← hen, ← hrest]
      constructor
      · intro h
        refine ⟨hready, fun pre hpre => ?_⟩
        rw [← hrun pre]
        exact h (op :: pre) (List.cons_prefix_cons.mpr ⟨rfl, hpre⟩)
      · rintro ⟨-, h⟩ pre hpre
        cases pre with
        | nil => exact ⟨s, rfl, hfree⟩
        | cons op' pre =>
          obtain ⟨rfl, hpre'⟩ := List.cons_prefix_cons.mp hpre
          rw [hrun pre]
          exact h pre hpre'
    · constructor
      · intro h
        obtain ⟨s', hstep, hfree'⟩ := h [op] (List.cons_prefix_cons.mpr ⟨rfl, List.nil_prefix⟩)
        rw [LockState.run] at hstep
        obtain ⟨t, ht, hlast⟩ := Option.bind_eq_some_iff.mp hstep
        cases hlast
        have hheld := step_unready hfree hready ht
        rw [hfree'.1] at hheld
        cases hheld
      · rintro ⟨hready', -⟩
        exact absurd hready' hready

/-! ### The main result -/

/-- In a sequence of calls from the start in which `tty_clear` comes after a `tty_enable`, every
call returns, leaves both locks free and never waits for one, exactly when the sequence is
disciplined. -/
theorem console_locks_free_iff (P : Platform) (ops : List ConsoleOp)
    (hclear : ClearsAfterEnable false ops) : AlwaysFree P .boot ops ↔ Disciplined false ops := by
  have habs : (∀ pre, pre <+: ops → ∃ s', Console.boot.lockState.run pre = some s' ∧ s'.Free) ↔
      Disciplined false ops :=
    LockState.run_free_iff (s := Console.boot.lockState) ⟨rfl, rfl⟩ nofun hclear
  rw [← habs]
  refine forall₂_congr fun pre _ => ?_
  have hrun := runCalls_refines (P := P) (c := .boot) pre nofun
  constructor
  · rintro ⟨c', hret, hfree⟩
    cases hs : Console.boot.lockState.run pre with
    | none =>
      rw [hs] at hrun
      exact absurd (returns_of_eq hret trivial) hrun
    | some s' =>
      rw [hs] at hrun
      obtain ⟨rfl, -⟩ := hrun.of_eq hret
      exact ⟨c'.lockState, rfl, hfree.ttyLock, hfree.loggerLock⟩
  · rintro ⟨s', hs, hfree⟩
    rw [hs] at hrun
    obtain ⟨_, c', hret, rfl, hfailed⟩ := hrun
    exact ⟨c', hret, hfree.1, hfree.2, hfailed⟩

/-- The platform on which every format gives an empty string, with counters that start at `0`. -/
def quietPlatform : Platform := ⟨fun _ c => .halted c, fun _ _ => [0], fun _ => 0⟩

/-- The boot sequence of calls, followed by switching the terminal off and clearing it. -/
theorem console_locks_free_iff_boot :
    ClearsAfterEnable false [.enable, .logln .info "kernel" "hello" [], .disable, .clear] ∧
      AlwaysFree quietPlatform .boot [.enable, .logln .info "kernel" "hello" [], .disable, .clear] := by
  have hclear : ClearsAfterEnable false
      [.enable, .logln .info "kernel" "hello" [], .disable, .clear] := ⟨rfl, trivial⟩
  refine ⟨hclear, (console_locks_free_iff quietPlatform _ hclear).mpr ?_⟩
  exact ⟨rfl, rfl, rfl, trivial, trivial⟩

/-- Enabling the terminal twice: the second call returns with `tty_lock` taken, and the `tty_clear`
after it never returns. -/
theorem console_lock_leaks : ClearsAfterEnable false [.enable, .enable, .clear] ∧
    (∃ c, runCalls quietPlatform [.enable, .enable] .boot = .ok ((), c) ∧ c.ttyLock = true) ∧
    ¬ Returns (runCalls quietPlatform [.enable, .enable, .clear]) .boot fun _ => True := by
  refine ⟨⟨rfl, trivial⟩, ?_, ?_⟩
  · obtain ⟨_, c, hrun, hstate, -⟩ := runCalls_refines (P := quietPlatform) (c := .boot)
      [.enable, .enable] nofun
    exact ⟨c, hrun, congrArg LockState.ttyLock hstate⟩
  · exact runCalls_refines (P := quietPlatform) (c := .boot) [.enable, .enable, .clear] nofun

end Soaplin

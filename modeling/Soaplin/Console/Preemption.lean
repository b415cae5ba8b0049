import Soaplin.Console.Interleaving
import Soaplin.Foundation.Trace

/-!
# Preempted lock holders

Is a lock ever waited for with interrupts off while its holder is not running?  The locks do not
keep the timer from switching threads, so a tick may take the CPU from the thread that has
`tty_lock`; a `write` system call of the next thread then waits for ever, since with `IF` clear
there is no further tick (`holder_preempted`).  While no tick switches away from a thread that has a
lock, nobody waits at all: this is the invariant `PrintInv`.  A tick that does can be followed by a
run that goes wrong (`Blocked.canGoWrong`).  Both are in `no_spin_on_preempted_holder`.
-/

namespace Soaplin

open ByteMemory TransitionTrace

variable {ι : Type} [DecidableEq ι] {P : Platform} {k k' : Printing ι}

/-! ### Statements about a state -/

/-- The running thread waits for `tty_lock` with `IF` clear, and the lock belongs to another thread,
which is not running. -/
def SpinsOnPreempted (k : Printing ι) : Prop :=
  (∃ code, k.current.code = .acquire .ttyLock :: code) ∧ k.current.syscall = true ∧
    ∃ u, k.owner .ttyLock = some u ∧ u ≠ k.running

/-- The condition on a step: a tick does not switch away from a thread that has a lock. -/
def SwitchAllowed (k : Printing ι) : PrintOp ι → Prop
  | .tick u => u = k.running ∨ ∀ l, k.owner l ≠ some k.running
  | _ => True

/-! ### Code that takes and releases its locks -/

/-- On an enabled terminal, code that starts with the locks `held` takes no lock that it has,
releases only what it has, and ends with no lock. -/
def WellLocked : (LockId → Bool) → List ConsoleInstr → Prop
  | held, [] => ∀ l, held l = false
  | held, .acquire l :: code => held l = false ∧ WellLocked (Function.update held l true) code
  | held, .release l :: code => held l = true ∧ WellLocked (Function.update held l false) code
  | held, _ :: code => WellLocked held code

/-- No lock is held. -/
def noLocks : LockId → Bool := fun _ => false

variable {held : LockId → Bool} {code : List ConsoleInstr}

/-- Releasing `tty_lock` in front of other code. -/
lemma wellLocked_release (hfree : held .ttyLock = false) (h : WellLocked held code) :
    WellLocked (Function.update held .ttyLock true) (.release .ttyLock :: code) := by
  refine ⟨Function.update_self .., ?_⟩
  rw [Function.update_idem, Function.update_eq_self_iff.mpr hfree.symm]
  exact h

/-- `tty_print` in front of other code. -/
lemma wellLocked_ttyPrint (hfree : held .ttyLock = false) (h : WellLocked held code)
    (str : List UInt8) (len : ℕ) : WellLocked held (ttyPrintCode str len ++ code) :=
  ⟨hfree, wellLocked_release hfree h⟩

/-- `tty_printf` in front of other code. -/
lemma wellLocked_ttyPrintf (hfree : held .ttyLock = false) (h : WellLocked held code)
    (format : String) (args : List FormatArg) :
    WellLocked held (ttyPrintfCode P format args ++ code) :=
  wellLocked_ttyPrint hfree h _ _

/-- `tty_set_fg` in front of other code. -/
lemma wellLocked_ttySetFg (hfree : held .ttyLock = false) (h : WellLocked held code) (fg : ℕ) :
    WellLocked held (ttySetFgCode fg ++ code) :=
  ⟨hfree, wellLocked_release hfree h⟩

/-- `tty_reset_col` in front of other code. -/
lemma wellLocked_ttyResetCol (hfree : held .ttyLock = false) (h : WellLocked held code) :
    WellLocked held (ttyResetColCode ++ code) :=
  ⟨hfree, wellLocked_release hfree h⟩

/-- `serio_print` in front of other code. -/
lemma wellLocked_serioPrint (h : WellLocked held code) (buf : List UInt8) (len : ℕ) :
    WellLocked held (serioPrintCode buf len ++ code) := h

/-- The end of a call. -/
lemma wellLocked_nil : WellLocked noLocks [] := fun _ => rfl

/-- `logln`: while it has `logger_lock`, its calls take and release `tty_lock`. -/
lemma wellLocked_logln (lt : LogType) (cmp msg : String) (args : List FormatArg) :
    WellLocked noLocks (loglnCode P lt cmp msg args) := by
  have hend : WellLocked (Function.update noLocks .loggerLock true) [.release .loggerLock] := by
    have hnone : Function.update noLocks LockId.loggerLock false = noLocks :=
      Function.update_eq_self_iff.mpr rfl
    refine ⟨Function.update_self .., ?_⟩
    rw [Function.update_idem, hnone]
    exact wellLocked_nil
  have hfree : Function.update noLocks .loggerLock true .ttyLock = false := rfl
  simp only [loglnCode, List.append_assoc, serioPrintfCode]
  refine ⟨rfl, ?_⟩
  refine wellLocked_ttyPrintf hfree (wellLocked_ttySetFg hfree ?_ _) _ _
  refine wellLocked_ttyPrintf hfree (wellLocked_ttyResetCol hfree ?_) _ _
  refine wellLocked_ttyPrint hfree (wellLocked_serioPrint ?_ _ _) _ _
  exact wellLocked_ttyPrint hfree (wellLocked_serioPrint hend _ _) _ _

/-- `syscall_write`. -/
lemma wellLocked_syscallWrite (m : Memory) (sf : Stackframe) :
    WellLocked noLocks (syscallWriteCode m sf) := by
  unfold syscallWriteCode
  dsimp only
  split_ifs
  · exact wellLocked_nil
  · generalize List.range (toInt32 sf.rdx.toNat).toNat = is
    induction is with
    | nil => exact wellLocked_nil
    | cons i is ih =>
      rw [List.flatMap_cons]
      exact wellLocked_ttyPrint rfl ih _ _
  · exact wellLocked_nil

/-! ### The running call -/

/-- The locks that the thread `u` has. -/
def Printing.holds (k : Printing ι) (u : ι) : LockId → Bool := fun l => decide (k.owner l = some u)

/-- What holds of the running thread at all times: the locks that are taken have an owner, and those
of the running thread are the ones that the rest of its call releases. -/
structure CallInv (k : Printing ι) : Prop where
  panicked : k.panicked = false
  ttyEnabled : k.console.ttyEnabled = true
  ftctx : k.console.ftctx = true
  owned : ∀ l, k.console.locked l = (k.owner l).isSome
  current : WellLocked (k.holds k.running) k.current.code

/-- Assigning a lock. -/
lemma locked_setLocked (c : Console) (b : Bool) (l : LockId) :
    (c.setLocked b l).locked = Function.update c.locked l b := by
  funext l'
  cases l <;> cases l' <;> rfl

/-- A new owner of a lock, seen from one thread. -/
lemma decide_update_owner (owner : LockId → Option ι) (l : LockId) (o : Option ι) (u : ι) :
    (fun l' => decide (Function.update owner l o l' = some u)) =
      Function.update (fun l' => decide (owner l' = some u)) l (decide (o = some u)) := by
  funext l'
  by_cases hl : l' = l
  · subst hl
    rw [Function.update_self, Function.update_self]
  · rw [Function.update_of_ne hl, Function.update_of_ne hl]

omit [DecidableEq ι] in
/-- A lock that changes together with its owner. -/
lemma owned_update {k : Printing ι} (howned : ∀ l, k.console.locked l = (k.owner l).isSome)
    (l : LockId) (o : Option ι) (l' : LockId) :
    (k.console.setLocked o.isSome l).locked l' = (Function.update k.owner l o l').isSome := by
  rw [locked_setLocked]
  by_cases hl : l' = l
  · subst hl
    rw [Function.update_self, Function.update_self]
  · rw [Function.update_of_ne hl, Function.update_of_ne hl]
    exact howned l'

namespace CallInv

/-- The running thread goes on with code that suits its locks. -/
lemma goOn (hinv : CallInv k) {t : PrintThread} {c : Console} {owner : LockId → Option ι}
    (hen : c.ttyEnabled = true) (hft : c.ftctx = true)
    (howned : ∀ l, c.locked l = (owner l).isSome)
    (ht : WellLocked (fun l => decide (owner l = some k.running)) t.code) :
    CallInv { k.setThread t with console := c, owner := owner } := by
  refine ⟨hinv.panicked, hen, hft, howned, ?_⟩
  change WellLocked _ (k.setThread t).current.code
  rw [Printing.current_setThread]
  exact ht

/-- The running thread goes on with other code that suits its locks. -/
lemma setThread (hinv : CallInv k) {t : PrintThread}
    (ht : WellLocked (k.holds k.running) t.code) : CallInv (k.setThread t) :=
  hinv.goOn hinv.ttyEnabled hinv.ftctx hinv.owned ht

/-- Between two calls the running thread has no lock. -/
lemma holds_of_idle (hinv : CallInv k) (hcode : k.current.code = []) :
    k.holds k.running = noLocks := by
  have hcurrent := hinv.current
  rw [hcode] at hcurrent
  exact funext hcurrent

/-- A thread that is about to take a lock does not have it. -/
lemma owner_ne_of_acquire (hinv : CallInv k) {l : LockId}
    (hcode : k.current.code = .acquire l :: code) : k.owner l ≠ some k.running := by
  have hcurrent := hinv.current
  rw [hcode] at hcurrent
  exact of_decide_eq_false hcurrent.1

/-- A thread that is about to release a lock has it. -/
lemma owner_of_release (hinv : CallInv k) {l : LockId}
    (hcode : k.current.code = .release l :: code) : k.owner l = some k.running := by
  have hcurrent := hinv.current
  rw [hcode] at hcurrent
  exact of_decide_eq_true hcurrent.1

/-- On an enabled terminal every instruction goes on with the next one. -/
lemma next_eq (hinv : CallInv k) (i : ConsoleInstr) (code : List ConsoleInstr) :
    i.next k.console code = code := by
  cases i with
  | returnUnlessEnabled n => simp [ConsoleInstr.next, hinv.ttyEnabled]
  | _ => rfl

/-- An instruction that does not take a lock. -/
lemma instr (hinv : CallInv k) {i : ConsoleInstr} (hcode : k.current.code = i :: code)
    (hi : ∀ l, i ≠ .acquire l) :
    CallInv { k.setThread { k.current with code := i.next k.console code } with
      console := i.effect k.console
      owner := i.ownerAfter k.owner } := by
  have hcurrent := hinv.current
  rw [hcode] at hcurrent
  rw [hinv.next_eq]
  cases i with
  | acquire l => exact absurd rfl (hi l)
  | release l =>
    obtain ⟨-, hrest⟩ := hcurrent
    have hen : (k.console.setLocked false l).ttyEnabled = true := by
      cases l <;> exact hinv.ttyEnabled
    have hft : (k.console.setLocked false l).ftctx = true := by
      cases l <;> exact hinv.ftctx
    refine hinv.goOn hen hft (owned_update hinv.owned l none) ?_
    change WellLocked (fun l' => decide (Function.update k.owner l none l' = _)) code
    rw [decide_update_owner]
    exact hrest
  | _ => exact hinv.goOn hinv.ttyEnabled hinv.ftctx hinv.owned hcurrent

/-- Taking a free lock. -/
lemma acquire (hinv : CallInv k) {l : LockId} (hcode : k.current.code = .acquire l :: code) :
    CallInv { k.setThread { k.current with code := code, cnt := none } with
      console := k.console.setLocked true l
      owner := Function.update k.owner l (some k.running) } := by
  have hcurrent := hinv.current
  rw [hcode] at hcurrent
  have hen : (k.console.setLocked true l).ttyEnabled = true := by
    cases l <;> exact hinv.ttyEnabled
  have hft : (k.console.setLocked true l).ftctx = true := by
    cases l <;> exact hinv.ftctx
  refine hinv.goOn hen hft (owned_update hinv.owned l (some k.running)) ?_
  rw [decide_update_owner, decide_eq_true rfl]
  exact hcurrent.2

end CallInv

/-! ### The invariant -/

/-- The invariant: whatever lock is taken belongs to the running thread, and every other thread has
been interrupted in a direct call at a point where it has no lock. -/
structure PrintInv (k : Printing ι) : Prop extends CallInv k where
  owner : ∀ l u, k.owner l = some u → u = k.running
  others : ∀ u, u ≠ k.running → WellLocked noLocks (k.thread u).code
  interrupted : ∀ u, u ≠ k.running → (k.thread u).syscall = false

/-- The start satisfies the invariant. -/
lemma PrintStart.inv (h : PrintStart k) : PrintInv k := by
  have hcode : ∀ u, WellLocked noLocks (k.thread u).code := by
    intro u
    rw [(h.thread u).1]
    exact wellLocked_nil
  have hholds : k.holds k.running = noLocks := by
    funext l
    simp [Printing.holds, noLocks, h.owner l]
  refine ⟨⟨h.panicked, h.ttyEnabled, h.ftctx, fun l => ?_, ?_⟩, fun l u hu => ?_,
    fun u _ => hcode u, fun u _ => (h.thread u).2⟩
  · rw [h.locked l, h.owner l]
    rfl
  · rw [hholds]
    exact hcode k.running
  · rw [h.owner l] at hu
    cases hu

namespace PrintInv

/-- The running thread goes on, and whatever lock is taken belongs to it. -/
lemma goOn (hinv : PrintInv k) {t : PrintThread} {c : Console} {owner : LockId → Option ι}
    (hcall : CallInv { k.setThread t with console := c, owner := owner })
    (howner : ∀ l u, owner l = some u → u = k.running) :
    PrintInv { k.setThread t with console := c, owner := owner } := by
  refine ⟨hcall, howner, fun u hu => ?_, fun u hu => ?_⟩
  · change WellLocked noLocks ((k.setThread t).thread u).code
    rw [Printing.thread_setThread_of_ne (k := k) hu]
    exact hinv.others u hu
  · change ((k.setThread t).thread u).syscall = false
    rw [Printing.thread_setThread_of_ne (k := k) hu]
    exact hinv.interrupted u hu

/-- The running thread, between two calls, begins a call. -/
lemma begin (hinv : PrintInv k) (hidle : k.current.code = []) {t : PrintThread}
    (ht : WellLocked noLocks t.code) : PrintInv (k.setThread t) := by
  refine hinv.goOn (hinv.setThread ?_) hinv.owner
  rw [hinv.holds_of_idle hidle]
  exact ht

/-- A thread that is about to take a lock finds it free. -/
lemma free_of_acquire (hinv : PrintInv k) {l : LockId} (hcode : k.current.code = .acquire l :: code) :
    k.console.locked l = false := by
  rw [hinv.owned l]
  cases hl : k.owner l with
  | none => rfl
  | some u =>
    obtain rfl := hinv.owner l u hl
    exact absurd hl (hinv.owner_ne_of_acquire hcode)

omit [DecidableEq ι] in
/-- When the owner of one lock changes, whatever lock is taken still belongs to the running thread.
-/
lemma owner_update {owner : LockId → Option ι} {r : ι} (howner : ∀ l u, owner l = some u → u = r)
    (l : LockId) {o : Option ι} (ho : ∀ u, o = some u → u = r) (l' : LockId) (u : ι)
    (hu : Function.update owner l o l' = some u) : u = r := by
  by_cases hl : l' = l
  · subst hl
    rw [Function.update_self] at hu
    exact ho u hu
  · rw [Function.update_of_ne hl] at hu
    exact howner l' u hu

/-- The owners after an instruction that does not take a lock. -/
lemma owner_instr (hinv : PrintInv k) (i : ConsoleInstr) (l : LockId) (u : ι)
    (hu : i.ownerAfter k.owner l = some u) : u = k.running := by
  cases i with
  | release l' => exact owner_update hinv.owner l' (by nofun) l u hu
  | _ => exact hinv.owner l u hu

/-- A tick that is allowed finds no lock taken, unless it goes back to the same thread. -/
lemma tick (hinv : PrintInv k) (hif : k.current.syscall = false) {u : ι}
    (hallowed : SwitchAllowed k (.tick u)) : PrintInv { k with running := u } := by
  rcases hallowed with rfl | hfree
  · exact hinv
  · have hnone : ∀ l, k.owner l = none := by
      intro l
      cases hl : k.owner l with
      | none => rfl
      | some v =>
        obtain rfl := hinv.owner l v hl
        exact absurd hl (hfree l)
    have hholds : ∀ v, k.holds v = noLocks := by
      intro v
      funext l
      simp [Printing.holds, noLocks, hnone l]
    have hall : ∀ v, WellLocked noLocks (k.thread v).code ∧ (k.thread v).syscall = false := by
      intro v
      by_cases hv : v = k.running
      · subst hv
        rw [← hholds k.running]
        exact ⟨hinv.current, hif⟩
      · exact ⟨hinv.others v hv, hinv.interrupted v hv⟩
    refine ⟨⟨hinv.panicked, hinv.ttyEnabled, hinv.ftctx, hinv.owned, ?_⟩, fun l v hv => ?_,
      fun v _ => (hall v).1, fun v _ => (hall v).2⟩
    · change WellLocked (k.holds u) (k.thread u).code
      rw [hholds u]
      exact (hall u).1
    · rw [show k.owner l = none from hnone l] at hv
      cases hv

/-- Every step that is allowed keeps the invariant. -/
theorem step {op : PrintOp ι} (hinv : PrintInv k) (hallowed : SwitchAllowed k op)
    (hstep : PrintStep P k op k') : PrintInv k' := by
  cases hstep with
  | print hrun hidle =>
    refine hinv.begin hidle.1 ?_
    rw [← List.append_nil (ttyPrintCode _ _)]
    exact wellLocked_ttyPrint rfl wellLocked_nil _ _
  | logln hrun hidle => exact hinv.begin hidle.1 (wellLocked_logln _ _ _ _)
  | write hrun hidle => exact hinv.begin hidle.1 (wellLocked_syscallWrite _ _)
  | sysret hrun hcode hsyscall => exact hinv.begin hcode wellLocked_nil
  | instr hrun hcode hi hterm => exact hinv.goOn (hinv.instr hcode hi) (hinv.owner_instr _)
  | acquire hrun hcode hfree =>
    refine hinv.goOn (hinv.acquire hcode) (owner_update hinv.owner _ fun u hu => ?_)
    exact (Option.some.inj hu).symm
  | spin hrun hcode htaken hcnt hle =>
    rw [hinv.free_of_acquire hcode] at htaken
    cases htaken
  | giveUp hrun hcode htaken hcnt hgt =>
    rw [hinv.free_of_acquire hcode] at htaken
    cases htaken
  | tick hrun hif => exact hinv.tick hif hallowed

/-- In a state that satisfies the invariant nobody waits for a lock of another thread. -/
lemma not_spinsOnPreempted (hinv : PrintInv k) : ¬ SpinsOnPreempted k := by
  rintro ⟨-, -, u, hu, hne⟩
  exact hne (hinv.owner .ttyLock u hu)

end PrintInv

/-! ### A tick at the wrong moment -/

/-- The frame of a system call that writes the byte at address 1. -/
def writeOneFrame : Stackframe :=
  ⟨0, 0, 0, 0, 0, 0, 0, 0, 0, 1, 1, 1, 0, 0, 0, 0, 0, 0, 0, 0, 0, 0⟩

/-- Its code. -/
lemma syscallWriteCode_writeOneFrame (m : Memory) :
    syscallWriteCode m writeOneFrame = ttyPrintCode [m 1] 1 := rfl

/-- The running thread is in a direct call, and another thread has the lock `l`. -/
structure Blocked (k : Printing ι) (l : LockId) : Prop extends CallInv k where
  direct : k.current.syscall = false
  blocked : ∃ v, k.owner l = some v ∧ v ≠ k.running

/-- A run from `k` reaches a state in which the running thread waits for a preempted thread with
`IF` clear, or `panic`. -/
def CanGoWrong (P : Platform) (k : Printing ι) : Prop :=
  ∃ ops k', Trace (PrintStep P) k ops k' ∧ (SpinsOnPreempted k' ∨ k'.panicked = true)

/-- One step more. -/
lemma CanGoWrong.step {op : PrintOp ι} (hstep : PrintStep P k op k') (h : CanGoWrong P k') :
    CanGoWrong P k := by
  obtain ⟨ops, k'', htrace, hbad⟩ := h
  exact ⟨op :: ops, k'', .cons hstep htrace, hbad⟩

/-- A thread that finds a lock taken may give up, at the latest after 30001 attempts. -/
lemma canGoWrong_of_taken {l : LockId} (hrun : k.panicked = false)
    (hcode : k.current.code = .acquire l :: code) (htaken : k.console.locked l = true) :
    CanGoWrong P k := by
  have hgiveUp : ∀ {k : Printing ι} (cnt : ℕ), k.panicked = false →
      k.current.code = .acquire l :: code → k.console.locked l = true →
      (∀ n, k.current.cnt = some n → cnt = n) → 30000 < cnt → CanGoWrong P k := by
    intro k cnt hrun hcode htaken hcnt hgt
    exact ⟨_, _, .single (.giveUp hrun hcode htaken hcnt hgt), .inr rfl⟩
  cases hn : k.current.cnt with
  | none => exact hgiveUp 30001 hrun hcode htaken (by simp [hn]) (by omega)
  | some n =>
    -- the induction is on the number of attempts that are left
    generalize hleft : 30001 - n = left
    have hcnt : ∀ m, k.current.cnt = some m → n = m := by simp [hn]
    induction left generalizing n k with
    | zero => exact hgiveUp n hrun hcode htaken hcnt (by omega)
    | succ left ih =>
      refine CanGoWrong.step (.spin hrun hcode htaken hcnt (by omega)) ?_
      have hnext : (k.setThread { k.current with cnt := some (n + 1) }).current.cnt =
          some (n + 1) := by
        rw [Printing.current_setThread]
      refine ih hrun ?_ htaken (n + 1) hnext (by omega) (by simp)
      rw [Printing.current_setThread]
      exact hcode

namespace Blocked

variable {l : LockId}

/-- An instruction that does not take a lock leaves the thread blocked. -/
lemma instr (h : Blocked k l) {i : ConsoleInstr} (hcode : k.current.code = i :: code)
    (hi : ∀ l, i ≠ .acquire l) :
    Blocked { k.setThread { k.current with code := i.next k.console code } with
      console := i.effect k.console
      owner := i.ownerAfter k.owner } l := by
  obtain ⟨v, hv, hne⟩ := h.blocked
  have howner : i.ownerAfter k.owner l = some v := by
    cases i with
    | release l' =>
      have hl : l ≠ l' := by
        rintro rfl
        exact hne (Option.some.inj (hv.symm.trans (h.owner_of_release hcode)))
      exact (Function.update_of_ne hl ..).trans hv
    | _ => exact hv
  refine ⟨h.toCallInv.instr hcode hi, ?_, v, howner, hne⟩
  change (k.setThread _).current.syscall = false
  rw [Printing.current_setThread]
  exact h.direct

/-- So does taking a free lock. -/
lemma acquire (h : Blocked k l) {l' : LockId} (hcode : k.current.code = .acquire l' :: code)
    (hfree : k.console.locked l' = false) :
    Blocked { k.setThread { k.current with code := code, cnt := none } with
      console := k.console.setLocked true l'
      owner := Function.update k.owner l' (some k.running) } l := by
  obtain ⟨v, hv, hne⟩ := h.blocked
  have hl : l ≠ l' := by
    rintro rfl
    rw [h.owned l, hv] at hfree
    cases hfree
  refine ⟨h.toCallInv.acquire hcode, ?_, v, (Function.update_of_ne hl ..).trans hv, hne⟩
  change (k.setThread _).current.syscall = false
  rw [Printing.current_setThread]
  exact h.direct

/-- Between two calls: a `write` waits for `tty_lock` with `IF` clear, and `logln` waits for
`logger_lock`. -/
lemma canGoWrong_of_idle (h : Blocked k l) (hcode : k.current.code = []) : CanGoWrong P k := by
  obtain ⟨v, hv, hne⟩ := h.blocked
  cases l with
  | ttyLock =>
    have hstep : PrintStep P k (.write (fun _ => 0) writeOneFrame) _ :=
      .write h.panicked ⟨hcode, h.direct⟩
    refine ⟨_, _, .single hstep, .inl ⟨?_, ?_, v, hv, hne⟩⟩
    · rw [Printing.current_setThread, syscallWriteCode_writeOneFrame]
      exact ⟨_, rfl⟩
    · rw [Printing.current_setThread]
  | loggerLock =>
    have hstep : PrintStep P k (.logln .info "" "" []) _ := .logln h.panicked ⟨hcode, h.direct⟩
    have htaken : k.console.locked .loggerLock = true := by
      rw [h.owned, hv]
      rfl
    obtain ⟨code, hlogln⟩ : ∃ code, loglnCode P .info "" "" [] = .acquire .loggerLock :: code :=
      ⟨_, rfl⟩
    refine .step hstep (canGoWrong_of_taken h.panicked (Eq.trans ?_ hlogln) htaken)
    rw [Printing.current_setThread]

/-- While another thread has a lock, the running thread finishes its call or finds a lock taken. -/
lemma canGoWrong (h : Blocked k l) : CanGoWrong P k := by
  generalize hcode : k.current.code = code
  induction code generalizing k with
  | nil => exact h.canGoWrong_of_idle hcode
  | cons i code ih =>
    by_cases hi : ∀ l', i ≠ .acquire l'
    · refine .step (.instr h.panicked hcode hi fun _ _ => h.ftctx) (ih (h.instr hcode hi) ?_)
      change (k.setThread _).current.code = code
      rw [Printing.current_setThread, h.next_eq]
    · obtain ⟨l', rfl⟩ : ∃ l', i = .acquire l' := by simpa using hi
      cases hl' : k.console.locked l' with
      | true => exact canGoWrong_of_taken h.panicked hcode hl'
      | false =>
        refine .step (.acquire h.panicked hcode hl') (ih (h.acquire hcode hl') ?_)
        change (k.setThread _).current.code = code
        rw [Printing.current_setThread]

end Blocked

/-- After a tick that is not allowed the new thread is blocked. -/
lemma PrintInv.blocked {u : ι} (hinv : PrintInv k) (hbad : ¬ SwitchAllowed k (.tick u)) :
    ∃ l, Blocked { k with running := u } l := by
  obtain ⟨hne, hown⟩ := not_or.mp hbad
  obtain ⟨l, hl⟩ : ∃ l, k.owner l = some k.running := by simpa using hown
  have hholds : k.holds u = noLocks := by
    funext l'
    refine decide_eq_false fun hl' => ?_
    exact hne (hinv.owner l' u hl')
  refine ⟨l, ⟨hinv.panicked, hinv.ttyEnabled, hinv.ftctx, hinv.owned, ?_⟩,
    hinv.interrupted u hne, k.running, hl, Ne.symm hne⟩
  change WellLocked (k.holds u) (k.thread u).code
  rw [hholds]
  exact hinv.others u hne

/-! ### The runs -/

/-- While no tick switches away from a thread that has a lock, nobody waits for a lock of a
preempted thread, and `panic` is not called.  A tick that does is followed by a run in which one or
the other happens. -/
theorem no_spin_on_preempted_holder {k₀ : Printing ι} {ops : List (PrintOp ι)}
    (hstart : PrintStart k₀) (htrace : Trace (Restrict SwitchAllowed (PrintStep P)) k₀ ops k) :
    (¬ SpinsOnPreempted k ∧ k.panicked = false) ∧
      ∀ u, k.current.syscall = false → ¬ SwitchAllowed k (.tick u) →
        ∃ ops' k', Trace (PrintStep P) k (.tick u :: ops') k' ∧
          (SpinsOnPreempted k' ∨ k'.panicked = true) := by
  have hinv : PrintInv k :=
    htrace.invariant PrintInv hstart.inv fun _ _ _ hinv hstep => hinv.step hstep.1 hstep.2
  refine ⟨⟨hinv.not_spinsOnPreempted, hinv.panicked⟩, fun u hif hbad => ?_⟩
  obtain ⟨l, hblocked⟩ := hinv.blocked hbad
  obtain ⟨ops', k', htrace', hwrong⟩ := hblocked.canGoWrong (P := P)
  exact ⟨ops', k', .cons (.tick hinv.panicked hif) htrace', hwrong⟩

/-- Two threads, of which the first is running, and the terminal just enabled. -/
def twoPrinters : Printing Bool where
  console := { Console.boot with ttyEnabled := true, ftctx := true }
  thread := fun _ => ⟨[], false, none⟩
  running := false
  owner := fun _ => none
  panicked := false

/-- They are ready to print. -/
lemma printStart_twoPrinters : PrintStart twoPrinters where
  ttyEnabled := rfl
  ftctx := rfl
  locked := by rintro (_ | _) <;> rfl
  owner := fun _ => rfl
  thread := fun _ => ⟨rfl, rfl⟩
  panicked := rfl

/-- The first thread prints a byte, and a tick comes when it has released `tty_lock`. -/
theorem no_spin_after_release : ∃ k, Trace (Restrict SwitchAllowed (PrintStep quietPlatform))
      twoPrinters [.print [65] 1, .instr, .instr, .instr, .instr, .tick true] k ∧
    ¬ SpinsOnPreempted k ∧ k.panicked = false := by
  have hfree : ∀ l, Function.update (Function.update twoPrinters.owner .ttyLock (some false))
      .ttyLock none l ≠ some false := by
    rintro (_ | _) <;> decide
  have htrace : Trace (Restrict SwitchAllowed (PrintStep quietPlatform)) twoPrinters
      [.print [65] 1, .instr, .instr, .instr, .instr, .tick true] _ :=
    .cons ⟨trivial, .print rfl ⟨rfl, rfl⟩⟩ <|
    .cons ⟨trivial, .acquire rfl rfl rfl⟩ <|
    .cons ⟨trivial, .instr rfl rfl nofun nofun⟩ <|
    .cons ⟨trivial, .instr rfl rfl nofun fun _ _ => rfl⟩ <|
    .cons ⟨trivial, .instr rfl rfl nofun nofun⟩ <|
    .single ⟨.inr hfree, .tick rfl rfl⟩
  exact ⟨_, htrace, (no_spin_on_preempted_holder printStart_twoPrinters htrace).1⟩

/-- The first thread is preempted in `tty_print`, when it has taken `tty_lock`; the second one waits
for the lock in a `write` system call, and may give up at its first attempt, since the counter of
`spinlock_acquire` is not initialised. -/
theorem holder_preempted : PrintStart twoPrinters ∧ ∃ k k',
    Trace (PrintStep quietPlatform) twoPrinters
      [.print [65] 1, .instr, .tick true, .write (fun _ => 66) writeOneFrame] k ∧
    SpinsOnPreempted k ∧ PrintStep quietPlatform k .spin k' ∧ k'.panicked = true := by
  have htrace : Trace (PrintStep quietPlatform) twoPrinters
      [.print [65] 1, .instr, .tick true, .write (fun _ => 66) writeOneFrame] _ :=
    .cons (.print rfl ⟨rfl, rfl⟩) <|
    .cons (.acquire rfl rfl rfl) <|
    .cons (.tick rfl rfl) <|
    .single (.write rfl ⟨rfl, rfl⟩)
  exact ⟨printStart_twoPrinters, _, _, htrace, ⟨⟨_, rfl⟩, rfl, false, rfl, by decide⟩,
    .giveUp rfl rfl rfl nofun (Nat.lt_succ_self 30000), rfl⟩

end Soaplin

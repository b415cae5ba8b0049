import Soaplin.Interrupts.Handler
import Soaplin.Sched.Fairness

/-!
# The end of an interrupt

The handler acknowledges every interrupt, also the ones that do not come from a controller, and it
takes the number of the line from the frame at the end, which `schedule` may have replaced by the
context of another thread.  `eoi_correct_iff` says for which events the end of the interrupt goes to
the controllers that are waiting for it.
-/

namespace Soaplin

open ByteMemory

/-- What the handler is called for. -/
inductive InterruptEvent
  | line (n : Fin 16)
  | syscall
  | exception (v : Fin 32)

/-- The vector of an event, when the controllers are in the state `p`. -/
def InterruptEvent.vector (p : Pics) : InterruptEvent → ℕ
  | .line n => lineVector p n
  | .syscall => 128
  | .exception v => v

/-- How often the controller with the command port `port` has got an end of interrupt. -/
def eoiCount (evs : List HandlerEvent) (port : UInt16) : ℕ :=
  (evs.filterMap fun ev => match ev with
    | .outb o => some o
    | _ => none).count ⟨port, picEoi⟩

/-- The handler takes the frame for one of a CPU exception. -/
def TakenForException (sf : Stackframe) : Prop := sf.vector < 32

/-- The event, with the frame `sf` at the start and what the handler does on its way, is handled
right: a line is not taken for an exception and its controllers get one end of interrupt each, and
what is not a line gets none. -/
def EoiCorrect (sf : Stackframe) (evs : List HandlerEvent) : InterruptEvent → Prop
  | .line n => ¬ TakenForException sf ∧ eoiCount evs pic1Command = 1 ∧
      eoiCount evs pic2Command = if 8 ≤ n.val then 1 else 0
  | _ => eoiCount evs pic1Command = 0 ∧ eoiCount evs pic2Command = 0

/-- The thread that the next call of `schedule` makes current: the first one with a chance in the
first process of the run queue. -/
def nextThread (s : Sched) (l : List Ptr) (tl : Ptr → List Ptr) : Option Ptr :=
  (runQueue s l tl).head?.bind fun p => (tl p).find? fun t => Runnable s t

/-- The context that this thread goes on with, when the frame `sf` has been interrupted. -/
def nextContext (s : Sched) (l : List Ptr) (tl : Ptr → List Ptr) (sf : Stackframe) : Stackframe :=
  match nextThread s l tl with
  | some t => if t = s.schedCurrentThread then sf else (s.threads t).context
  | none => sf

/-- The line is one of the first controller's: the timer, if the vector in the context of the next
thread gives a number below 8 as well, or another one. -/
def EoiCondition (s : Sched) (l : List Ptr) (tl : Ptr → List Ptr) (sf : Stackframe) :
    InterruptEvent → Prop
  | .line n => if n = 0 then toInt32 ((nextContext s l tl sf).vector - 32).toNat < 8 else n.val < 8
  | _ => False

variable {s : Sched} {l : List Ptr} {tl : Ptr → List Ptr} {fuel inner : ℕ} {E : HandlerEnv}
  {k k' k₁ : HandlerState} {sf sf' sf₁ : Stackframe} {evs : List HandlerEvent}

/-- The context of the thread that has been chosen. -/
lemma context_chosenState (s : Sched) (sf : Stackframe) (p t : Ptr) :
    ((chosenState s sf p t).threads t).context =
      if t = s.schedCurrentThread then sf else (s.threads t).context := by
  by_cases ht : t = s.schedCurrentThread
  · subst ht
    simp [chosenState, saveContext, Sched.setThread]
  · simp [chosenState, saveContext, Sched.setThread, ht]

/-- The frame that a call of `schedule` leaves is the context of the next thread. -/
lemma schedule_nextContext (hs : SchedLists s l tl) {r : Sched × Stackframe}
    (h : schedule fuel inner s sf = some r) : r.2 = nextContext s l tl sf := by
  have hm := movedOn_of_schedule hs h
  obtain ⟨-, hframe⟩ := schedule_installs h
  obtain ⟨ps, hqueue, -⟩ := hm.queue
  have hnext : nextThread s l tl = some r.1.schedCurrentThread := by
    rw [nextThread, hqueue]
    exact hm.thread
  have hcontext := context_chosenState s sf r.1.schedCurrentProcess r.1.schedCurrentThread
  rw [← hm.chosen] at hcontext
  rw [nextContext, hnext, hframe, hcontext]

/-! ### What is acknowledged -/

/-- The acknowledgement that the handler ends with. -/
lemma eoiCount_append_ack {evs : List HandlerEvent} (hevs : ∀ o, .outb o ∉ evs) (intno : ℤ)
    (port : UInt16) :
    eoiCount (evs ++ (picAck intno).map .outb) port = (picAck intno).count ⟨port, picEoi⟩ := by
  have hnone : (evs.filterMap fun ev => match ev with
      | .outb o => some o
      | _ => none) = [] := by
    refine List.filterMap_eq_nil_iff.mpr fun ev hev => ?_
    cases ev with
    | outb o => exact absurd hev (hevs o)
    | _ => rfl
  rw [eoiCount, List.filterMap_append, hnone, List.nil_append, List.filterMap_map]
  congr 1
  exact List.filterMap_some

/-- The end of the handler acknowledges once. -/
lemma eoiCount_finishInterrupt {evs₀ : List HandlerEvent} (hevs : ∀ o, .outb o ∉ evs₀)
    (h : finishInterrupt evs₀ k₁ sf₁ = (evs, .returned k' sf')) :
    sf' = sf₁ ∧ eoiCount evs pic1Command = 1 ∧
      eoiCount evs pic2Command = if toInt32 (sf'.vector - 32).toNat ≥ 8 then 1 else 0 := by
  obtain ⟨hfst, hsnd⟩ := Prod.mk.inj h
  injection hsnd with hk hsf
  subst hfst hsf
  refine ⟨rfl, ?_, ?_⟩
  · rw [eoiCount_append_ack hevs, count_picAck_pic1]
  · rw [eoiCount_append_ack hevs, count_picAck_pic2]

/-- The same when `schedule` is called before: the frame is the one that it leaves. -/
lemma eoiCount_scheduleAndFinish (hs : SchedLists k₁.sched l tl) {evs₀ : List HandlerEvent}
    (hevs : ∀ o, .outb o ∉ evs₀)
    (h : scheduleAndFinish fuel inner evs₀ k₁ sf = (evs, .returned k' sf')) :
    sf' = nextContext k₁.sched l tl sf ∧ eoiCount evs pic1Command = 1 ∧
      eoiCount evs pic2Command = if toInt32 (sf'.vector - 32).toNat ≥ 8 then 1 else 0 := by
  unfold scheduleAndFinish at h
  cases hcall : schedule fuel inner k₁.sched sf with
  | none =>
    rw [hcall] at h
    exact HandlerEnd.noConfusion (Prod.mk.inj h).2
  | some r =>
    rw [hcall] at h
    rw [← schedule_nextContext hs hcall]
    exact eoiCount_finishInterrupt hevs h

/-- A system call that returns is acknowledged to the first controller. -/
lemma eoiCount_syscall (hvec : sf.vector = 128)
    (h : interruptHandler fuel inner E k sf = (evs, .returned k' sf')) :
    eoiCount evs pic1Command = 1 := by
  by_cases hset : load64 k.mem (E.image.slot sf.rax.toNat) = 0
  · rw [interruptHandler_empty_eq hvec hset] at h
    exact (eoiCount_finishInterrupt (by simp) h).2.1
  · rw [interruptHandler_call_eq hvec hset] at h
    cases hcall : E.callFunc (load64 k.mem (E.image.slot sf.rax.toNat)) k sf with
    | none =>
      rw [hcall] at h
      exact HandlerEnd.noConfusion (Prod.mk.inj h).2
    | some r =>
      rw [hcall] at h
      exact (eoiCount_finishInterrupt (by simp) h).2.1

/-- So is an exception that returns. -/
lemma eoiCount_exception (hs : SchedLists k.sched l tl) (hvec : sf.vector < 32)
    (h : interruptHandler fuel inner E k sf = (evs, .returned k' sf')) :
    eoiCount evs pic1Command = 1 := by
  by_cases hmap : k.vmmCurrentPagemap ≠ k.vmmKernelPagemap
  · rw [interruptHandler_exception hvec hmap] at h
    have hs' : SchedLists { k with vmmCurrentPagemap := k.vmmKernelPagemap }.sched l tl := hs
    exact (eoiCount_scheduleAndFinish hs' (by simp) h).2.1
  · rw [interruptHandler_panic hvec hmap] at h
    exact HandlerEnd.noConfusion (Prod.mk.inj h).2

/-! ### The end of an interrupt -/

/-- The vector of a line of the first controller gives its number back. -/
lemma toInt32_sub_of_line {n : ℕ} (hn : n < 8) (hvec : sf.vector.toNat = 32 + n) :
    toInt32 (sf.vector - 32).toNat = n := by
  have hle : (32 : UInt64) ≤ sf.vector := by
    rw [UInt64.le_iff_toNat_le, hvec]
    exact Nat.le_add_right 32 n
  have hsub : (sf.vector - 32).toNat = n := by
    rw [UInt64.toNat_sub_of_le _ _ hle, hvec]
    exact Nat.add_sub_cancel_left 32 n
  rw [hsub, toInt32]
  simp only [Nat.mod_eq_of_lt (show n < 2 ^ 32 by omega)]
  rw [if_pos (by omega)]

/-- The timer: the vector is the one in the context of the next thread. -/
lemma eoiCorrect_timer_iff (hs : SchedLists k.sched l tl) (htimer : sf.vector = 32)
    (hrun : interruptHandler fuel inner E k sf = (evs, .returned k' sf')) :
    EoiCorrect sf evs (.line 0) ↔ toInt32 ((nextContext k.sched l tl sf).vector - 32).toNat < 8 := by
  rw [interruptHandler_timer htimer] at hrun
  obtain ⟨hsf, hone, htwo⟩ := eoiCount_scheduleAndFinish hs (by simp) hrun
  have hnot : ¬ TakenForException sf := by
    rw [TakenForException, htimer]
    decide
  rw [hsf] at htwo
  simp [EoiCorrect, hnot, hone, htwo]

/-- Another line of the first controller: the frame is left alone. -/
lemma eoiCorrect_line {n : Fin 16} (hn : n.val < 8) (hne : n ≠ 0)
    (hvec : sf.vector.toNat = 32 + n)
    (hrun : interruptHandler fuel inner E k sf = (evs, .returned k' sf')) :
    EoiCorrect sf evs (.line n) := by
  have hpos : 0 < n.val := Nat.pos_of_ne_zero fun h => hne (Fin.ext h)
  have h32 : (32 : UInt64).toNat = 32 := rfl
  have h128 : (128 : UInt64).toNat = 128 := rfl
  have hge : ¬ sf.vector < 32 := by
    rw [UInt64.lt_iff_toNat_lt]
    omega
  have htimer : sf.vector ≠ 32 := fun h => by
    rw [h] at hvec
    omega
  have hsys : sf.vector ≠ 128 := fun h => by
    rw [h] at hvec
    omega
  rw [interruptHandler_line hge htimer hsys] at hrun
  obtain ⟨rfl, hone, htwo⟩ := eoiCount_finishInterrupt (by simp) hrun
  refine ⟨hge, hone, ?_⟩
  rw [htwo, toInt32_sub_of_line hn hvec, if_neg (by omega), if_neg (by omega)]

/-- The end of every interrupt that the handler returns from goes to the controllers that wait for
it if and only if the event is the timer and the vector in the context of the next thread is, from
32 on, below 8 as an `int`, or the event is another line of the first controller. -/
theorem eoi_correct_iff (hs : SchedLists k.sched l tl) (p : Pics) {ev : InterruptEvent}
    (hvec : sf.vector.toNat = ev.vector (picInit p))
    (hrun : interruptHandler fuel inner E k sf = (evs, .returned k' sf')) :
    EoiCorrect sf evs ev ↔ EoiCondition k.sched l tl sf ev := by
  cases ev with
  | syscall =>
    have hsys : sf.vector = 128 := UInt64.toNat_inj.mp hvec
    have hone := eoiCount_syscall hsys hrun
    simp [EoiCorrect, EoiCondition, hone]
  | exception v =>
    have hexc : sf.vector < 32 := by
      rw [UInt64.lt_iff_toNat_lt, hvec]
      exact v.isLt
    have hone := eoiCount_exception hs hexc hrun
    simp [EoiCorrect, EoiCondition, hone]
  | line n =>
    rw [InterruptEvent.vector, lineVector_picInit] at hvec
    by_cases hn : n.val < 8
    · rw [if_pos hn] at hvec
      by_cases hzero : n = 0
      · subst hzero
        have htimer : sf.vector = 32 := UInt64.toNat_inj.mp hvec
        exact eoiCorrect_timer_iff hs htimer hrun
      · simp [eoiCorrect_line hn hzero hvec hrun, EoiCondition, hzero, hn]
    · rw [if_neg hn] at hvec
      have hexc : TakenForException sf := by
        rw [TakenForException, UInt64.lt_iff_toNat_lt, hvec]
        exact lt_trans n.isLt (by decide)
      have hzero : n ≠ 0 := fun h => hn (by rw [h]; decide)
      simp [EoiCorrect, EoiCondition, hexc, hzero, hn]

/-- The kernel after `sched_init`, while a process with a page map of its own runs. -/
def bootState : HandlerState :=
  ⟨bootSched, syscallRun exampleImage (fun _ => 0) [], 0xffff800000020000, 0xffff800000010000⟩

/-- A frame with this vector. -/
def vectorFrame (v : UInt64) : Stackframe := { zeroFrame with vector := v }

/-- The controllers with all lines masked. -/
def maskedPics : Pics := ⟨⟨0, 0xff, .mask⟩, ⟨0, 0xff, .mask⟩⟩

/-- The interrupt of the timer, in which the idle thread is installed, and that of the keyboard are
acknowledged to the first controller only. -/
theorem eoi_correct_boot :
    (∃ evs k', interruptHandler 2 2 exampleEnv bootState (vectorFrame 32) =
      (evs, .returned k' (newContext zeroFrame 0x5000 0x9000)) ∧
      EoiCorrect (vectorFrame 32) evs (.line 0)) ∧
    ∃ evs k', interruptHandler 2 2 exampleEnv bootState (vectorFrame 33) =
      (evs, .returned k' (vectorFrame 33)) ∧ EoiCorrect (vectorFrame 33) evs (.line 1) := by
  constructor
  · refine ⟨_, _, rfl, ?_⟩
    refine (@eoi_correct_iff [0x1000, 0x3000] bootThreads 2 2 exampleEnv bootState _
      (vectorFrame 32) _ _ bootSched_lists maskedPics (.line 0) rfl rfl).mpr ?_
    change toInt32 ((nextContext bootSched [0x1000, 0x3000] bootThreads (vectorFrame 32)).vector -
      32).toNat < 8
    decide
  · refine ⟨_, _, rfl, ?_⟩
    exact (@eoi_correct_iff [0x1000, 0x3000] bootThreads 2 2 exampleEnv bootState _
      (vectorFrame 33) _ _ bootSched_lists maskedPics (.line 1) rfl rfl).mpr
      (by simp [EoiCondition])

/-- The same kernel, whose idle thread got a record with the vector 72 in its memory. -/
def staleVectorState : HandlerState :=
  { bootState with
    sched := bootSched.setThread 0x4000
      { bootSched.threads 0x4000 with context := vectorFrame 72 } }

/-- A system call is acknowledged to both controllers, the line 8 is taken for a double fault, and
the timer is acknowledged to both controllers when the idle thread's record held the vector 72. -/
theorem eoi_not_correct :
    (∃ evs k' sf', interruptHandler 2 2 exampleEnv bootState (syscallFrame 3) =
      (evs, .returned k' sf') ∧ ¬ EoiCorrect (syscallFrame 3) evs .syscall) ∧
    (∃ evs k' sf', interruptHandler 2 2 exampleEnv bootState (vectorFrame 8) =
      (evs, .returned k' sf') ∧ ¬ EoiCorrect (vectorFrame 8) evs (.line 8)) ∧
    ∃ evs k' sf', interruptHandler 2 2 exampleEnv staleVectorState (vectorFrame 32) =
      (evs, .returned k' sf') ∧ ¬ EoiCorrect (vectorFrame 32) evs (.line 0) := by
  refine ⟨?_, ?_, ?_⟩
  · have hempty : load64 bootState.mem (exampleImage.slot (syscallFrame 3).rax.toNat) = 0 :=
      load64_syscallRun_last (by decide)
    refine ⟨_, _, _, interruptHandler_empty_eq rfl hempty, ?_⟩
    rintro ⟨h, -⟩
    exact absurd h (by decide)
  · refine ⟨_, _, _, rfl, ?_⟩
    rintro ⟨h, -⟩
    exact h (show (8 : UInt64) < 32 by decide)
  · refine ⟨_, _, _, rfl, ?_⟩
    rintro ⟨-, -, h⟩
    exact absurd h (by decide)

end Soaplin

import Soaplin.Console.LockDiscipline

/-!
# Giving up on a lock

When does `spinlock_acquire` give up?  `acquireAmong` is the call while the rest of the machine goes
on: before every attempt the console may change in any way, and the local variable `cnt`, which the
source does not initialise, starts with any content.  The call follows `spinLoop` on the values
that its attempts read (`acquireAmong_eq`), and alone it is `spinlockAcquire`
(`spinlockAcquire_eq_acquireAmong`).  `givesUpOnDeadlock_iff` says for which contents of `cnt` and
which contention it gives up only after more than 30000 failed attempts.
-/

namespace Soaplin

open StateExcept

/-! ### The model -/

/-- How a call of `spinlock_acquire` ends: with the lock, or in `panic`, which it calls with the
console `c`; and how many of its own attempts have failed. -/
inductive AcquireEnd
  | acquired (failed : ℕ) (c : Console)
  | panicked (failed : ℕ) (c : Console)

/-- `spinlock_acquire` from its attempt `i` on, when `others j` is what the rest of the machine makes
of the console before attempt `j`. -/
def acquireAmong (others : ℕ → Console → Console) (l : LockId) (i cnt : ℕ) (c : Console) :
    AcquireEnd :=
  let c := others i c
  -- `__atomic_test_and_set`
  let locked := c.locked l
  let c := c.setLocked true l
  if locked then
    if cnt > 30000 then .panicked (i + 1) c
    else acquireAmong others l (i + 1) (cnt + 1) c
  else .acquired i c
termination_by 30001 - cnt

variable (others : ℕ → Console → Console) (l : LockId) (c : Console)

/-- The console after the first `i` attempts. -/
def afterAttempts : ℕ → Console
  | 0 => c
  | i + 1 => (others i (afterAttempts i)).setLocked true l

/-- Attempt `i` reads that the lock is taken. -/
def attemptFails (i : ℕ) : Bool := (others i (afterAttempts others l c i)).locked l

/-- `spinlock_acquire`, with any content of `cnt`, gives up on a deadlock only: it gets the lock
when at most 30000 attempts fail before the lock is free, and it calls `panic` only when more than
30000 of its own attempts have failed. -/
structure GivesUpOnDeadlock (cnt : ℕ) : Prop where
  acquires : ∀ k ≤ 30000, (∀ j < k, attemptFails others l c j = true) →
    attemptFails others l c k = false →
    ∃ c', acquireAmong others l 0 cnt c = .acquired k c' ∧ c'.locked l = true
  panics : ∀ failed c', acquireAmong others l 0 cnt c = .panicked failed c' → 30000 < failed

/-! ### The loop on the values it reads -/

variable {reads : ℕ → Bool} {i k cnt : ℕ}

/-- The loop ends with the lock at the first attempt that does not fail, if the counter stays within
its bound. -/
lemma spinLoop_acquires (hbusy : ∀ j < k, reads (i + j) = true) (hfree : reads (i + k) = false)
    (hcnt : ∀ j < k, cnt + j ≤ 30000) : spinLoop reads i cnt = (i + k, true) := by
  induction k generalizing i cnt with
  | zero =>
    rw [spinLoop, if_neg (by simpa using hfree)]
    rfl
  | succ k ih =>
    have hfirst : reads i = true := hbusy 0 (Nat.succ_pos k)
    have hbound : ¬ cnt > 30000 := not_lt.mpr (hcnt 0 (Nat.succ_pos k))
    have hnext : i + 1 + k = i + (k + 1) := by omega
    rw [spinLoop, if_pos hfirst, if_neg hbound]
    rw [ih (fun j hj => ?_) (by rwa [hnext]) fun j hj => ?_, hnext]
    · rw [show i + 1 + j = i + (j + 1) by omega]
      exact hbusy (j + 1) (by omega)
    · have hj' := hcnt (j + 1) (by omega)
      omega

/-- The loop ends in `panic` when the counter passes its bound before an attempt succeeds. -/
lemma spinLoop_panics (hbusy : ∀ j ≤ k, reads (i + j) = true) (hcnt : ∀ j < k, cnt + j ≤ 30000)
    (hpass : 30000 < cnt + k) : spinLoop reads i cnt = (i + k + 1, false) := by
  induction k generalizing i cnt with
  | zero =>
    have hfirst : reads i = true := hbusy 0 le_rfl
    have hbound : cnt > 30000 := hpass
    rw [spinLoop, if_pos hfirst, if_pos hbound, Nat.add_zero]
  | succ k ih =>
    have hfirst : reads i = true := hbusy 0 (Nat.zero_le _)
    have hbound : ¬ cnt > 30000 := not_lt.mpr (hcnt 0 (Nat.succ_pos k))
    rw [spinLoop, if_pos hfirst, if_neg hbound]
    rw [ih (fun j hj => ?_) (fun j hj => ?_) (by omega), show i + 1 + k = i + (k + 1) by omega]
    · rw [show i + 1 + j = i + (j + 1) by omega]
      exact hbusy (j + 1) (by omega)
    · have hj' := hcnt (j + 1) (by omega)
      omega

/-! ### The call among others -/

/-- The end of a call whose loop ends like this. -/
def endOfLoop : ℕ × Bool → AcquireEnd
  | (failed, true) => .acquired failed (afterAttempts others l c (failed + 1))
  | (failed, false) => .panicked failed (afterAttempts others l c failed)

/-- The call ends as its loop does on the values that the attempts read. -/
lemma acquireAmong_eq (i cnt : ℕ) :
    acquireAmong others l i cnt (afterAttempts others l c i) =
      endOfLoop others l c (spinLoop (attemptFails others l c) i cnt) := by
  fun_induction spinLoop (attemptFails others l c) i cnt with
  | case1 i cnt hread hcnt =>
    rw [acquireAmong]
    rw [attemptFails] at hread
    rw [if_pos hread, if_pos hcnt]
    rfl
  | case2 i cnt hread hcnt ih =>
    rw [acquireAmong]
    rw [attemptFails] at hread
    rw [if_pos hread, if_neg hcnt]
    exact ih
  | case3 i cnt hread =>
    rw [acquireAmong]
    rw [attemptFails] at hread
    rw [if_neg hread]
    rfl

/-- Taking a lock. -/
lemma setLocked_true_locked (c : Console) (l : LockId) : (c.setLocked true l).locked l = true := by
  cases l <;> rfl

/-- Alone, a call that finds the lock taken leaves the console as it is. -/
lemma afterAttempts_alone (h : c.locked l = true) (i : ℕ) :
    afterAttempts (fun _ c => c) l c i = c := by
  induction i with
  | zero => rfl
  | succ i ih =>
    rw [afterAttempts, ih]
    cases l <;> cases c <;> cases h <;> rfl

/-- `spinlockAcquire` is the call when nobody else runs. -/
theorem spinlockAcquire_eq_acquireAmong (P : Platform) (l : LockId) (c : Console) :
    spinlockAcquire P l c =
      match acquireAmong (fun _ c => c) l 0 (P.cntJunk c.acquires)
        { c with acquires := c.acquires + 1 } with
      | .acquired failed c' => .ok ((), { c' with failedAttempts := c'.failedAttempts + failed })
      | .panicked failed c' => .error (P.panic deadlockedKernelComponent
          { c' with failedAttempts := c'.failedAttempts + failed }) := by
  have hlocked : ({ c with acquires := c.acquires + 1 } : Console).locked l = c.locked l := by
    cases l <;> rfl
  cases h : c.locked l with
  | false =>
    rw [spinlockAcquire_free h, acquireAmong, if_neg (by simp [hlocked, h])]
    cases l <;> rfl
  | true =>
    rw [h] at hlocked
    have halone := afterAttempts_alone l _ hlocked
    have hreads : attemptFails (fun _ c => c) l { c with acquires := c.acquires + 1 } =
        fun _ => true := by
      funext i
      rw [attemptFails, halone, hlocked]
    have hend := acquireAmong_eq (fun _ c => c) l { c with acquires := c.acquires + 1 } 0
      (P.cntJunk c.acquires)
    have hheld := spinLoop_held 0 (P.cntJunk c.acquires)
    rw [halone, hreads] at hend
    rw [hend]
    cases hloop : spinLoop (fun _ => true) 0 (P.cntJunk c.acquires) with
    | mk failed taken =>
      rw [hloop] at hheld
      cases hheld
      simp [spinlockAcquire, h, hloop, endOfLoop, halone]

variable {others l c}

/-- The call gets the lock while the counter stays within its bound. -/
lemma acquireAmong_acquires (hbusy : ∀ j < k, attemptFails others l c j = true)
    (hfree : attemptFails others l c k = false) (hcnt : ∀ j < k, cnt + j ≤ 30000) :
    ∃ c', acquireAmong others l 0 cnt c = .acquired k c' ∧ c'.locked l = true := by
  have hloop : spinLoop (attemptFails others l c) 0 cnt = (0 + k, true) :=
    spinLoop_acquires (by simpa using hbusy) (by simpa using hfree) hcnt
  rw [Nat.zero_add] at hloop
  have hend := acquireAmong_eq others l c 0 cnt
  rw [hloop] at hend
  exact ⟨_, hend, setLocked_true_locked _ l⟩

/-- The call gives up when the counter passes its bound. -/
lemma acquireAmong_panics (hbusy : ∀ j ≤ k, attemptFails others l c j = true)
    (hcnt : ∀ j < k, cnt + j ≤ 30000) (hpass : 30000 < cnt + k) :
    ∃ c', acquireAmong others l 0 cnt c = .panicked (k + 1) c' := by
  have hloop : spinLoop (attemptFails others l c) 0 cnt = (0 + k + 1, false) :=
    spinLoop_panics (by simpa using hbusy) hcnt hpass
  rw [Nat.zero_add] at hloop
  have hend := acquireAmong_eq others l c 0 cnt
  rw [hloop] at hend
  exact ⟨_, hend⟩

/-- Either the lock is free before the counter has passed its bound, or every attempt up to then
fails. -/
lemma free_or_busy (others : ℕ → Console → Console) (l : LockId) (c : Console) (cnt : ℕ) :
    (∃ k, attemptFails others l c k = false ∧ (∀ j < k, attemptFails others l c j = true) ∧
      ∀ j < k, cnt + j ≤ 30000) ∨
    ∀ j, (∀ i < j, cnt + i ≤ 30000) → attemptFails others l c j = true := by
  by_cases hfree : ∃ k, attemptFails others l c k = false ∧ ∀ j < k, cnt + j ≤ 30000
  · left
    obtain ⟨hk, hcnt⟩ := Nat.find_spec hfree
    refine ⟨Nat.find hfree, hk, fun j hj => ?_, hcnt⟩
    have hmin := Nat.find_min hfree hj
    by_contra hne
    exact hmin ⟨by simpa using hne, fun i hi => hcnt i (by omega)⟩
  · right
    intro j hj
    by_contra hne
    exact hfree ⟨j, by simpa using hne, hj⟩

/-- The call gives up after `30002 - cnt` attempts, and after one when the counter starts above its
bound. -/
lemma acquireAmong_gives_up
    (hbusy : ∀ j, (∀ i < j, cnt + i ≤ 30000) → attemptFails others l c j = true) :
    ∃ c', acquireAmong others l 0 cnt c = .panicked (30001 - cnt + 1) c' := by
  apply acquireAmong_panics
  · intro j hj
    exact hbusy j fun i hi => by omega
  · intro j hj
    omega
  · omega

/-! ### The main result -/

/-- `spinlock_acquire` gives up on a deadlock only, if and only if its uninitialised counter happens
to be 0 or 1, or the lock is free for an attempt before the counter has passed its bound. -/
theorem givesUpOnDeadlock_iff (others : ℕ → Console → Console) (l : LockId) (c : Console)
    (cnt : ℕ) : GivesUpOnDeadlock others l c cnt ↔
      cnt ≤ 1 ∨ ∃ k, attemptFails others l c k = false ∧ ∀ j < k, cnt + j ≤ 30000 := by
  constructor
  · intro h
    rcases free_or_busy others l c cnt with ⟨k, hfree, -, hcnt⟩ | hbusy
    · exact Or.inr ⟨k, hfree, hcnt⟩
    · obtain ⟨c', hrun⟩ := acquireAmong_gives_up hbusy
      have hmany := h.panics _ c' hrun
      exact Or.inl (by omega)
  · intro h
    refine ⟨fun k hk hbusy hfree => ?_, fun failed c' hrun => ?_⟩
    · apply acquireAmong_acquires hbusy hfree
      intro j hj
      rcases h with hcnt | ⟨k', hfree', hcnt⟩
      · omega
      · -- the attempt `k'` succeeds, so it is not one of the first `k`
        have hle : k ≤ k' := by
          by_contra hlt
          rw [hbusy k' (by omega)] at hfree'
          cases hfree'
        exact hcnt j (by omega)
    · rcases free_or_busy others l c cnt with ⟨k, hfree, hbusy, hcnt⟩ | hbusy
      · obtain ⟨_, hacq, -⟩ := acquireAmong_acquires hbusy hfree hcnt
        rw [hacq] at hrun
        cases hrun
      · obtain ⟨_, hpanic⟩ := acquireAmong_gives_up hbusy
        rw [hpanic] at hrun
        cases hrun
        rcases h with hcnt | ⟨k', hfree', hcnt⟩
        · omega
        · rw [hbusy k' hcnt] at hfree'
          cases hfree'

/-- The lock is taken when the call starts, and free after one failed attempt. -/
def releasedAfterOne (i : ℕ) (c : Console) : Console := { c with ttyLock := decide (i = 0) }

/-- With 30001 left over in `cnt` the call gives up after one failed attempt on a lock that is free
for the next one. -/
theorem not_givesUpOnDeadlock :
    ¬ GivesUpOnDeadlock releasedAfterOne .ttyLock Console.boot 30001 := by
  intro h
  have hrun : acquireAmong releasedAfterOne .ttyLock 0 30001 Console.boot =
      .panicked 1 { Console.boot with ttyLock := true } := by
    rw [acquireAmong]
    rfl
  exact absurd (h.panics _ _ hrun) (by decide)

end Soaplin

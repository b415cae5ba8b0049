import Soaplin.Console.Interleaving
import Soaplin.Console.LockDiscipline

/-!
# What `syscall_write` reports

On a terminal that is ready `syscall_write` hands the first bytes of the buffer to the terminal, one
in a call (`syscallWrite_ready`).  It assigns `rax` only when the buffer is `NULL`; for every other
frame `rax` still holds the number of the system call (`write_reports_iff`).
-/

namespace Soaplin

open ByteMemory StateExcept

/-- The terminal is enabled, and its lock is free. -/
structure TermReady (c : Console) : Prop where
  ttyLock : c.ttyLock = false
  ttyEnabled : c.ttyEnabled = true
  ftctx : c.ftctx = true

/-- The bytes that calls hand to the terminal. -/
def writtenBytes (ts : List TermCall) : List UInt8 :=
  ts.flatMap fun t => match t with
    | .write bytes => bytes
    | _ => []

/-- The first `k` bytes of the buffer. -/
def bufferBytes (m : Memory) (buf k : ℕ) : List UInt8 := (List.range k).map fun i => m (buf + i)

variable {P : Platform} {m : Memory} {sf sf' : Stackframe} {c c' : Console}

/-- A call of `syscall_write` with the frame `sf` on the console `c`, which has returned with `sf'` and
`c'`, reports what it wrote: a write to a terminal that is ready has handed it the first `k` bytes
and returns `k`, and for every frame the result is one that the call has chosen, whatever `rax` was
before. -/
structure WriteReports (P : Platform) (m : Memory) (sf : Stackframe) (c : Console)
    (sf' : Stackframe) (c' : Console) : Prop where
  written : TermReady c → sf.rdi = 1 → sf.rsi ≠ 0 → ∃ k ≤ sf.rdx.toNat,
    (∃ ts, c'.term = c.term ++ ts ∧ writtenBytes ts = bufferBytes m sf.rsi.toNat k) ∧
      sf'.rax.toNat = k
  result : ∃ r, ∀ v sf'' c'', syscallWrite P m { sf with rax := v } c = .ok (sf'', c'') →
    sf''.rax = r

/-! ### The loop -/

/-- `tty_print` on a terminal that is ready. -/
lemma ttyPrint_ready (h : TermReady c) (str : List UInt8) (len : ℕ) :
    ttyPrint P str len c = .ok ((), { c with
      acquires := c.acquires + 1, term := c.term ++ [.write (str.take len)] }) := by
  have hcreated : ({ c with acquires := c.acquires + 1, ttyLock := true } : Console).ftctx = true :=
    h.ftctx
  have hwrite := ftctxCall_created (t := .write (str.take len)) hcreated
  rw [ttyPrint, lockedWhenEnabled, bind_of_ok (spinlockAcquire_free (l := .ttyLock) h.ttyLock),
    get_bind]
  simp only [Console.setLocked, h.ttyEnabled, Bool.not_true, Bool.false_eq_true, ↓reduceIte]
    at hwrite ⊢
  rw [bind_of_ok hwrite]
  simp [spinlockRelease, Console.setLocked, h.ttyLock]

/-- The loop hands the bytes to the terminal one by one. -/
lemma forM_ttyPrint_ready (h : TermReady c) (buf : ℕ) (is : List ℕ) :
    (is.forM fun i => ttyPrint P [m (buf + i)] 1) c =
      .ok ((), { c with
        acquires := c.acquires + is.length
        term := c.term ++ is.map fun i => .write [m (buf + i)] }) := by
  induction is generalizing c with
  | nil => simp
  | cons i is ih =>
    have hnext : TermReady { c with
        acquires := c.acquires + 1, term := c.term ++ [.write [m (buf + i)]] } :=
      ⟨h.ttyLock, h.ttyEnabled, h.ftctx⟩
    change (ttyPrint P [m (buf + i)] 1 >>= fun _ => is.forM fun i => ttyPrint P [m (buf + i)] 1) c =
      _
    rw [bind_of_ok (ttyPrint_ready h _ 1)]
    refine (ih hnext).trans ?_
    simp [Nat.add_assoc, Nat.add_comm 1]

/-- The number of iterations: the count as an `int`, and none if that is negative. -/
def writeCount (sf : Stackframe) : ℕ := (toInt32 sf.rdx.toNat).toNat

/-- What the loop writes are the first bytes of the buffer. -/
lemma writtenBytes_map (buf k : ℕ) :
    writtenBytes ((List.range k).map fun i => .write [m (buf + i)]) = bufferBytes m buf k := by
  rw [writtenBytes, List.flatMap_map, bufferBytes]
  exact List.map_eq_flatMap.symm

/-- On a terminal that is ready `syscall_write` returns.  It has handed the first bytes of the buffer
to the terminal, and the frame is as before. -/
theorem syscallWrite_ready (h : TermReady c) (hfd : sf.rdi = 1) (hbuf : sf.rsi ≠ 0) :
    syscallWrite P m sf c = .ok (sf, { c with
      acquires := c.acquires + writeCount sf
      term := c.term ++
        (List.range (writeCount sf)).map fun i => .write [m (sf.rsi.toNat + i)] }) := by
  have hfd' : toInt32 sf.rdi.toNat = 1 := by
    rw [hfd]
    decide
  have hbuf' : sf.rsi.toNat ≠ 0 := fun hzero => hbuf (UInt64.toNat_inj.mp hzero)
  have hloop := @forM_ttyPrint_ready P m c h sf.rsi.toNat (List.range (writeCount sf))
  unfold syscallWrite
  dsimp only
  rw [if_neg hbuf', if_pos hfd']
  rw [List.length_range] at hloop
  exact bind_of_ok hloop

/-! ### The result -/

/-- A `NULL` buffer gives the result 0. -/
lemma syscallWrite_null (hbuf : sf.rsi = 0) :
    syscallWrite P m sf c = .ok ({ sf with rax := 0 }, c) := by
  unfold syscallWrite
  dsimp only
  rw [if_pos (by rw [hbuf]; rfl)]
  rfl

/-- For any other buffer a call that returns does the same whatever `rax` is, and keeps it. -/
lemma syscallWrite_keeps (hbuf : sf.rsi ≠ 0) (hret : syscallWrite P m sf c = .ok (sf', c'))
    (v : UInt64) : syscallWrite P m { sf with rax := v } c = .ok ({ sf with rax := v }, c') := by
  have hbuf' : sf.rsi.toNat ≠ 0 := fun hzero => hbuf (UInt64.toNat_inj.mp hzero)
  unfold syscallWrite at hret ⊢
  dsimp only at hret ⊢
  rw [if_neg hbuf'] at hret ⊢
  by_cases hfd : toInt32 sf.rdi.toNat = 1
  · rw [if_pos hfd] at hret ⊢
    cases hloop : ((List.range (toInt32 sf.rdx.toNat).toNat).forM
        fun i => ttyPrint P [m (sf.rsi.toNat + i)] 1) c with
    | error stop =>
      rw [bind_of_error hloop] at hret
      cases hret
    | ok r =>
      rw [bind_of_ok hloop] at hret ⊢
      cases hret
      rfl
  · rw [if_neg hfd] at hret ⊢
    cases hret
    rfl

/-- So its result is not one that it has chosen. -/
lemma not_writeReports (hbuf : sf.rsi ≠ 0) (hret : syscallWrite P m sf c = .ok (sf', c')) :
    ¬ WriteReports P m sf c sf' c' := by
  intro h
  obtain ⟨r, hr⟩ := h.result
  have h0 : (0 : UInt64) = r := hr 0 _ _ (syscallWrite_keeps hbuf hret 0)
  have h1 : (1 : UInt64) = r := hr 1 _ _ (syscallWrite_keeps hbuf hret 1)
  exact absurd (h0.trans h1.symm) (by decide)

/-- A call of `syscall_write` that has returned reports what it wrote if and only if the buffer is
`NULL`. -/
theorem write_reports_iff (hret : syscallWrite P m sf c = .ok (sf', c')) :
    WriteReports P m sf c sf' c' ↔ sf.rsi = 0 := by
  constructor
  · intro h
    by_contra hbuf
    exact not_writeReports hbuf hret h
  · intro hbuf
    refine ⟨fun _ _ hne => absurd hbuf hne, 0, fun v sf'' c'' hrun => ?_⟩
    have hnull : syscallWrite P m { sf with rax := v } c = .ok ({ sf with rax := 0 }, c) :=
      syscallWrite_null hbuf
    rw [hnull] at hrun
    cases hrun
    rfl

/-- A console whose terminal is ready. -/
def readyConsole : Console := { Console.boot with ttyEnabled := true, ftctx := true }

/-- The frame of `execute_syscall(1, 1, buf, count)`. -/
def writeFrame (buf count : UInt64) : Stackframe :=
  ⟨0, 0, 0, 0, 0, 0, 0, 0, 0, 1, buf, count, 0, 0, 1, 128, 0, 0, 0, 0, 0, 0⟩

/-- A write from `NULL` returns 0. -/
theorem write_reports_null :
    WriteReports quietPlatform (fun _ => 0x41) (writeFrame 0 35) readyConsole
      { writeFrame 0 35 with rax := 0 } readyConsole :=
  (write_reports_iff (syscallWrite_null rfl)).mpr rfl

/-- A write of 35 bytes hands them to the terminal and returns the number of the system call. -/
theorem write_not_reports : ∃ c',
    syscallWrite quietPlatform (fun _ => 0x41) (writeFrame 0x5000 35) readyConsole =
      .ok (writeFrame 0x5000 35, c') ∧
    writtenBytes c'.term = List.replicate 35 0x41 ∧ (writeFrame 0x5000 35).rax = 1 ∧
    ¬ WriteReports quietPlatform (fun _ => 0x41) (writeFrame 0x5000 35) readyConsole
      (writeFrame 0x5000 35) c' := by
  have hready : TermReady readyConsole := ⟨rfl, rfl, rfl⟩
  have hret := @syscallWrite_ready quietPlatform (fun _ => 0x41) (writeFrame 0x5000 35) _ hready rfl
    (by decide)
  have hbytes : bufferBytes (fun _ => 0x41) 0x5000 35 = List.replicate 35 0x41 := by decide
  exact ⟨_, hret, (writtenBytes_map _ _).trans hbytes, rfl, not_writeReports (by decide) hret⟩

end Soaplin

import Soaplin.Sched.Stores
import Soaplin.Foundation.ByteMemory

/-!
# The timer interrupt

A machine that runs threads under the timer.  A tick (vector 32) is taken at any instruction while
`IF` is set and the last tick has been acknowledged: the CPU and the stub push a `stackframe` on the
stack in use, and `interrupt_handler` calls `schedule` on it and sets `IF` again.  The instructions
up to there are one step, since no tick is taken in it.  From then on, in the rest of
`interrupt_handler`, which acknowledges the interrupt, and in its stub up to the `iretq`, every
instruction is a step of its own.

A thread is code of its own, of which we know that it stays on its own stack and leaves the other
threads' stacks alone.  It may call `sched_new` and `sched_new_thread`, whose stores are steps of
their own as well.
-/

namespace Soaplin

open ByteMemory TransitionTrace

/-! ### Registers and frames -/

/-- There is at least one general register, so that numerals name registers. -/
instance neZero_gprs : NeZero 15 := ⟨by decide⟩

/-- The registers that an interrupt saves, the general ones in the order of `POPALL`: `r15` first,
`rax` last. -/
@[ext] structure Cpu where
  gpr : Fin 15 → UInt64
  rip : UInt64
  cs : UInt64
  rflags : UInt64
  rsp : UInt64
  ss : UInt64

/-- The words of a frame, from its lowest address on. -/
def Stackframe.words (f : Stackframe) : List UInt64 :=
  [f.r15, f.r14, f.r13, f.r12, f.r11, f.r10, f.r9, f.r8, f.rbp, f.rdi, f.rsi, f.rdx, f.rcx, f.rbx,
    f.rax, f.vector, f.err, f.rip, f.cs, f.rflags, f.rsp, f.ss]

/-- The frame of an interrupt with the registers `c`. -/
def Cpu.frame (c : Cpu) (vector err : UInt64) : Stackframe :=
  ⟨c.gpr 0, c.gpr 1, c.gpr 2, c.gpr 3, c.gpr 4, c.gpr 5, c.gpr 6, c.gpr 7, c.gpr 8, c.gpr 9,
    c.gpr 10, c.gpr 11, c.gpr 12, c.gpr 13, c.gpr 14, vector, err, c.rip, c.cs, c.rflags, c.rsp,
    c.ss⟩

/-- The registers in a frame. -/
def Stackframe.cpu (f : Stackframe) : Cpu where
  gpr := fun i => f.words.getD i 0
  rip := f.rip
  cs := f.cs
  rflags := f.rflags
  rsp := f.rsp
  ss := f.ss

/-- The word at `a`. -/
def loadWord (m : Memory) (a : ℕ) : UInt64 := .ofNat (load64 m a)

/-- The memory after writing a word at `a`. -/
def storeWord (m : Memory) (a : ℕ) (v : UInt64) : Memory := store64 m a v.toNat

/-- The memory after writing consecutive words from `a` on. -/
def storeWords (m : Memory) (a : ℕ) : List UInt64 → Memory
  | [] => m
  | w :: ws => storeWords (storeWord m a w) (a + 8) ws

/-- A word reads back. -/
lemma loadWord_storeWord_same (m : Memory) (a : ℕ) (v : UInt64) :
    loadWord (storeWord m a v) a = v := by
  rw [loadWord, storeWord, load64_store64_same v.toNat_lt, UInt64.ofNat_toNat]

/-- A word elsewhere is not affected. -/
lemma loadWord_storeWord_of_disjoint {m : Memory} {a b : ℕ} {v : UInt64}
    (h : b + 8 ≤ a ∨ a + 8 ≤ b) : loadWord (storeWord m a v) b = loadWord m b := by
  rw [loadWord, storeWord, load64_store64_of_disjoint h, loadWord]

/-- The registers survive the way into a frame and back. -/
@[simp] lemma frame_cpu (c : Cpu) (vector err : UInt64) : (c.frame vector err).cpu = c := by
  ext i
  · fin_cases i <;> rfl
  all_goals rfl

/-- `sizeof(stackframe)`. -/
def stackframeSize : ℕ := 176

/-- The flag `IF`. -/
def interruptFlag : UInt64 := 0x200

/-! ### The way out of the handler -/

/-- The instructions from the `ret` of `interrupt_handler` to the interrupted code. -/
inductive ExitInstr
  | ret
  | pop (r : Fin 15)
  | addRsp
  | iretq
deriving DecidableEq

/-- The instruction after `n` registers have been popped. -/
def ExitInstr.afterPops (n : ℕ) : ExitInstr :=
  if h : n < 15 then .pop ⟨n, h⟩ else .addRsp

/-- What we know of the code of the handler. -/
structure HandlerCode where
  /-- Where the instructions of the way out are. -/
  code : ExitInstr → UInt64
  injective : Function.Injective code
  /-- From the `sti` of `interrupt_handler` to its `ret`, `pic_ack` and `outb` included: how many
  bytes the stack pointer is below the return address of `interrupt_handler`. -/
  body : UInt64 → Option ℕ
  body_code : ∀ e, body (code e) = none
  /-- The instruction after the `sti`. -/
  start : UInt64
  start_isSome : (body start).isSome
  /-- The instruction that acknowledges the interrupt. -/
  ack : UInt64
  /-- How many bytes of stack below the frame `interrupt_handler` and its callees use. -/
  depth : ℕ
  body_le : ∀ {rip n}, body rip = some n → n + 8 ≤ depth

/-- The address `rip` is neither in the rest of `interrupt_handler` nor on the way out. -/
def HandlerCode.Outside (P : HandlerCode) (rip : UInt64) : Prop :=
  (∀ e, rip ≠ P.code e) ∧ P.body rip = none

/-- In the handler at `rip`, the stack pointer is `n` bytes below the return address. -/
def HandlerCode.Below (P : HandlerCode) (rip : UInt64) (n : ℕ) : Prop :=
  P.body rip = some n ∨ rip = P.code .ret ∧ n = 0

/-- The effect of an instruction of the way out. -/
def ExitInstr.exec (P : HandlerCode) (m : Memory) (c : Cpu) : ExitInstr → Cpu
  | .ret => { c with rip := loadWord m c.rsp.toNat, rsp := c.rsp + 8 }
  | .pop r =>
    { c with
      gpr := Function.update c.gpr r (loadWord m c.rsp.toNat)
      rsp := c.rsp + 8
      rip := P.code (.afterPops (r + 1)) }
  | .addRsp => { c with rsp := c.rsp + 16, rip := P.code .iretq }
  | .iretq =>
    { c with
      rip := loadWord m c.rsp.toNat
      cs := loadWord m (c.rsp.toNat + 8)
      rflags := loadWord m (c.rsp.toNat + 16)
      rsp := loadWord m (c.rsp.toNat + 24)
      ss := loadWord m (c.rsp.toNat + 32) }

/-- From the registers `c` the way out leads to the registers `c'` after its `iretq`. -/
inductive ExitPath (P : HandlerCode) (m : Memory) : Cpu → Cpu → Prop
  | iretq {c : Cpu} (hrip : c.rip = P.code .iretq) : ExitPath P m c (ExitInstr.iretq.exec P m c)
  | step {c c' : Cpu} {e : ExitInstr} (hrip : c.rip = P.code e) (he : e ≠ .iretq)
      (hrest : ExitPath P m (e.exec P m c) c') : ExitPath P m c c'

/-- From the registers `c` in the rest of the handler, or on the way out, the handler leads to the
registers `c'` after the `iretq`, whatever it leaves in the registers and in memory below its return
address. -/
inductive HandlerPath (P : HandlerCode) (m : Memory) (c c' : Cpu) : Prop
  | body {n : ℕ} (hbody : P.body c.rip = some n)
      (hrest : ∀ c₁ m₁, c₁.rip = P.code .ret → c₁.rsp.toNat = c.rsp.toNat + n →
        (∀ x, c₁.rsp.toNat ≤ x → m₁ x = m x) → ExitPath P m₁ c₁ c')
  | exit (hexit : ExitPath P m c c')

/-! ### The machine -/

/-- A call of `sched_new` or of `sched_new_thread` in progress, with the stores that are still to
come. -/
inductive Creating
  | process (a : ProcessAlloc) (name : List UInt8) (pending : List ProcessStore)
  | thread (c : NewThreadCall) (pending : List ThreadStore)

/-- The records of two calls in progress differ. -/
def Creating.Distinct : Creating → Creating → Prop
  | .process a _ _, .process a' _ _ => a.ptr ≠ a'.ptr
  | .thread c _, .thread c' _ => c.alloc.ptr ≠ c'.alloc.ptr
  | _, _ => True

/-- The scheduler with the stacks of its threads and the calls in progress. -/
structure CreationState where
  run : SchedRun
  /-- The stack of a thread: its lowest address and the address behind it. -/
  stack : Ptr → ℕ × ℕ
  /-- What a thread is about to create. -/
  creating : Ptr → Option Creating

namespace CreationState

/-- The thread `t` may be in the lists: it has been created, or its creation has come past the link.
-/
def Linked (h : CreationState) (t : Ptr) : Prop :=
  t ∈ h.run.created ∨
    ∃ r c pending, h.creating r = some (.thread c pending) ∧ .link ∉ pending ∧ c.alloc.ptr = t

/-- No other call in progress uses the record of `call`. -/
def FreshCall (h : CreationState) (call : Creating) : Prop :=
  ∀ t, ∀ other ∈ h.creating t, call.Distinct other

/-- The stack from `stack` on does not overlap with those in use. -/
def FreshStack (h : CreationState) (stack : Ptr) : Prop :=
  stack + 4096 ≤ Word64.modulus ∧
    ∀ t ∈ h.run.created, stack + 4096 ≤ (h.stack t).1 ∨ (h.stack t).2 ≤ stack

/-- The executing thread has brought the scheduler into the state `s`, and `call` is what it is
about to create. -/
def create (h : CreationState) (s : Sched) (call : Option Creating) : CreationState :=
  { h with
    run := { h.run with sched := s }
    creating := Function.update h.creating h.run.executing call }

/-- The record at `p` is a new process. -/
def addProcess (h : CreationState) (p : Ptr) : CreationState :=
  { h with run := { h.run with processes := p :: h.run.processes } }

/-- The record and the stack that `a` has returned are a new thread. -/
def addThread (h : CreationState) (a : ThreadAlloc) : CreationState :=
  { h with
    run := { h.run with
      created := a.ptr :: h.run.created
      expected := Function.update h.run.expected a.ptr (h.run.sched.threads a.ptr).context }
    stack := Function.update h.stack a.ptr (a.stack, a.stack + 4096) }

end CreationState

/-- A state of the machine. -/
structure Machine extends CreationState where
  mem : Memory
  cpu : Cpu
  /-- The last tick has not been acknowledged yet. -/
  inService : Bool
  /-- The handler that is on its way out has installed another thread than it has interrupted. -/
  switching : Bool
  /-- The memory at the time a thread was last interrupted or created. -/
  snapshot : Ptr → Memory

/-- The address `x` lies on the stack of `t`. -/
def Machine.OnStackOf (h : Machine) (t : Ptr) (x : ℕ) : Prop :=
  (h.stack t).1 ≤ x ∧ x < (h.stack t).2

/-- The steps of the machine. -/
inductive MachineOp
  | code
  | new (name : List UInt8)
  | processStore (st : ProcessStore)
  | newThread (proc : Ptr) (name : List UInt8) (function : UInt64)
  | threadStore (st : ThreadStore)
  | tick
  | handler
  | exit (e : ExitInstr)

/-- Where a tick puts its frame, when the stack pointer is `rsp`: the CPU aligns the stack first. -/
def FrameAt (rsp : UInt64) (base : ℕ) : Prop :=
  base + stackframeSize + rsp.toNat % 16 = rsp.toNat

instance (rsp : UInt64) (base : ℕ) : Decidable (FrameAt rsp base) :=
  inferInstanceAs (Decidable (_ = _))

/-- One step of the machine. -/
inductive MachineStep (P : HandlerCode) : Machine → MachineOp → Machine → Prop
  /-- The code of a thread: anything that stays on its stack and spares the other stacks. -/
  | code {h : Machine} {c : Cpu} {m : Memory} (hrip : P.Outside h.cpu.rip)
      (hrip' : P.Outside c.rip) (hrsp : h.OnStackOf h.run.executing c.rsp.toNat)
      (hmem : ∀ t ∈ h.run.created, t ≠ h.run.executing → ∀ x, h.OnStackOf t x → m x = h.mem x) :
      MachineStep P h .code { h with cpu := c, mem := m }
  /-- The beginning of a call of `sched_new`: its record has been allocated. -/
  | new {h : Machine} {a : ProcessAlloc} {name : List UInt8} (hrip : P.Outside h.cpu.rip)
      (hidle : h.creating h.run.executing = none) (hne : a.ptr ≠ 0)
      (hfresh : a.ptr ∉ h.run.processes) (hcalls : h.FreshCall (.process a name newProcessStores)) :
      MachineStep P h (.new name)
        { h with
          toCreationState := h.create (h.run.sched.setProc a.ptr a.junk)
            (some (.process a name newProcessStores)) }
  /-- A store of `sched_new`, but the last one. -/
  | processStore {h : Machine} {a : ProcessAlloc} {name : List UInt8} {st : ProcessStore}
      {rest : List ProcessStore} {s : Sched} (hrip : P.Outside h.cpu.rip)
      (hcall : h.creating h.run.executing = some (.process a name (st :: rest))) (hrest : rest ≠ [])
      (hmade : ProcessStoreMade a name h.run.processes h.run.sched st s) :
      MachineStep P h (.processStore st)
        { h with toCreationState := h.create s (some (.process a name rest)) }
  /-- The last store of `sched_new`. -/
  | processEnd {h : Machine} {a : ProcessAlloc} {name : List UInt8} {st : ProcessStore} {s : Sched}
      (hrip : P.Outside h.cpu.rip)
      (hcall : h.creating h.run.executing = some (.process a name [st]))
      (hmade : ProcessStoreMade a name h.run.processes h.run.sched st s) :
      MachineStep P h (.processStore st)
        { h with toCreationState := (h.create s none).addProcess a.ptr }
  /-- The beginning of a call of `sched_new_thread`: its record has been allocated. -/
  | newThread {h : Machine} {c : NewThreadCall} (hrip : P.Outside h.cpu.rip)
      (hidle : h.creating h.run.executing = none) (hne : c.alloc.ptr ≠ 0)
      (hfresh : c.alloc.ptr ∉ h.run.created) (hcalls : h.FreshCall (.thread c newThreadStores))
      (hproc : c.proc ∈ h.run.processes) (hfunction : P.Outside c.function) :
      MachineStep P h (.newThread c.proc c.name c.function)
        { h with
          toCreationState := h.create (h.run.sched.setThread c.alloc.ptr c.alloc.junk)
            (some (.thread c newThreadStores)) }
  /-- A store of `sched_new_thread`, but the last one.  The stack is allocated in the one that sets
  the stack pointer. -/
  | threadStore {h : Machine} {c : NewThreadCall} {st : ThreadStore} {rest : List ThreadStore}
      {s : Sched} (hrip : P.Outside h.cpu.rip)
      (hcall : h.creating h.run.executing = some (.thread c (st :: rest))) (hrest : rest ≠ [])
      (hmade : ThreadStoreMade c h.Linked h.run.sched st s)
      (hstack : st = .rsp → h.FreshStack c.alloc.stack) :
      MachineStep P h (.threadStore st)
        { h with toCreationState := h.create s (some (.thread c rest)) }
  /-- The last store of `sched_new_thread`. -/
  | threadEnd {h : Machine} {c : NewThreadCall} {st : ThreadStore} {s : Sched}
      (hrip : P.Outside h.cpu.rip) (hcall : h.creating h.run.executing = some (.thread c [st]))
      (hmade : ThreadStoreMade c h.Linked h.run.sched st s) :
      MachineStep P h (.threadStore st)
        { h with
          toCreationState := (h.create s none).addThread c.alloc
          snapshot := Function.update h.snapshot c.alloc.ptr h.mem }
  /-- A tick, up to the `sti`.  `m` is the memory with what the handler has left below the frame,
  and `scratch` what it has left in the general registers. -/
  | tick {h : Machine} {fuel inner base n : ℕ} {s : Sched} {f : Stackframe} {m : Memory}
      {scratch : Fin 15 → UInt64} {flags : UInt64} (hif : h.cpu.rflags &&& interruptFlag ≠ 0)
      (hservice : h.inService = false) (hbase : FrameAt h.cpu.rsp base) (hdepth : P.depth ≤ base)
      (hstart : P.body P.start = some n)
      (hcall : schedule fuel inner h.run.sched (h.cpu.frame 32 0) = some (s, f))
      (hm : ∀ x, x < base - P.depth ∨ base ≤ x → m x = h.mem x)
      (hflags : flags &&& interruptFlag ≠ 0) :
      MachineStep P h .tick
        { h with
          run := { h.run with
            sched := s
            executing := s.schedCurrentThread
            expected := Function.update h.run.expected h.run.executing (h.cpu.frame 32 0) }
          mem := storeWord (storeWords m base f.words) (base - 8) (P.code (.afterPops 0))
          cpu :=
            { gpr := scratch
              rip := P.start
              cs := 0x08
              rflags := flags
              rsp := .ofNat (base - 8 - n)
              ss := h.cpu.ss }
          inService := true
          switching := s.schedCurrentThread ≠ h.run.executing
          snapshot := Function.update h.snapshot h.run.executing h.mem }
  /-- An instruction of the rest of `interrupt_handler`: it writes at most to the part of the stack
  that the handler uses, and leaves the frame and its own return address alone. -/
  | handler {h : Machine} {n n' : ℕ} {c : Cpu} {m : Memory} (hbody : P.body h.cpu.rip = some n)
      (hbody' : P.Below c.rip n') (hrsp : c.rsp.toNat + n' = h.cpu.rsp.toNat + n)
      (hm : ∀ x, x + P.depth < h.cpu.rsp.toNat + n + 8 ∨ h.cpu.rsp.toNat + n ≤ x →
        m x = h.mem x) :
      MachineStep P h .handler
        { h with cpu := c, mem := m, inService := h.inService && h.cpu.rip ≠ P.ack }
  /-- An instruction on the way out of the handler. -/
  | exit {h : Machine} {e : ExitInstr} (hrip : h.cpu.rip = P.code e) :
      MachineStep P h (.exit e)
        { h with
          cpu := e.exec P h.mem h.cpu
          switching := h.switching && e ≠ .iretq }

end Soaplin

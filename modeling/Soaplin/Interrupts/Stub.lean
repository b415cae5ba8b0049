import Soaplin.Sched.Interrupt

/-!
# The interrupt stubs

The model of `interrupts.asm`, of `idt_init`, and of what the CPU does when an interrupt arrives.  A
stub is the list of its instructions before `call interrupt_handler` and the list of those after it.
Addresses on the stack are 64-bit words, so that the stack may be anywhere, and the instruction
pointer is not followed inside a stub.
-/

namespace Soaplin

open ByteMemory

/-! ### Instructions -/

/-- The general registers, in the order of `stackframe`. -/
inductive Gpr
  | r15
  | r14
  | r13
  | r12
  | r11
  | r10
  | r9
  | r8
  | rbp
  | rdi
  | rsi
  | rdx
  | rcx
  | rbx
  | rax
deriving DecidableEq

/-- The place of a register in `Cpu.gpr`. -/
def Gpr.index : Gpr → Fin 15
  | .r15 => 0
  | .r14 => 1
  | .r13 => 2
  | .r12 => 3
  | .r11 => 4
  | .r10 => 5
  | .r9 => 6
  | .r8 => 7
  | .rbp => 8
  | .rdi => 9
  | .rsi => 10
  | .rdx => 11
  | .rcx => 12
  | .rbx => 13
  | .rax => 14

/-- The instructions of the stubs, apart from the call of `interrupt_handler`. -/
inductive StubInstr
  | pushImm (v : UInt64)
  | push (r : Gpr)
  | movRdiRsp
  | pop (r : Gpr)
  | addRsp (n : UInt64)
  | iretq

/-- The registers and the memory. -/
structure StubState where
  cpu : Cpu
  mem : Memory

/-- The word number `i` from `base` on. -/
def wordAt (m : Memory) (base : UInt64) (i : ℕ) : UInt64 :=
  loadWord m (base + 8 * .ofNat i).toNat

/-- Pushing a word. -/
def pushWord (s : StubState) (v : UInt64) : StubState where
  cpu := { s.cpu with rsp := s.cpu.rsp - 8 }
  mem := storeWord s.mem (s.cpu.rsp - 8).toNat v

/-- Pushing words, the first one first. -/
def pushWords (s : StubState) (ws : List UInt64) : StubState := ws.foldl pushWord s

/-- The effect of an instruction. -/
def StubInstr.exec (s : StubState) : StubInstr → StubState
  | .pushImm v => pushWord s v
  | .push r => pushWord s (s.cpu.gpr r.index)
  | .movRdiRsp =>
    { s with cpu := { s.cpu with gpr := Function.update s.cpu.gpr Gpr.rdi.index s.cpu.rsp } }
  | .pop r =>
    { s with cpu := { s.cpu with
        gpr := Function.update s.cpu.gpr r.index (wordAt s.mem s.cpu.rsp 0)
        rsp := s.cpu.rsp + 8 } }
  | .addRsp n => { s with cpu := { s.cpu with rsp := s.cpu.rsp + n } }
  | .iretq =>
    { s with cpu := { s.cpu with
        rip := wordAt s.mem s.cpu.rsp 0
        cs := wordAt s.mem s.cpu.rsp 1
        rflags := wordAt s.mem s.cpu.rsp 2
        rsp := wordAt s.mem s.cpu.rsp 3
        ss := wordAt s.mem s.cpu.rsp 4 } }

/-- The effect of instructions in a row. -/
def runInstrs (is : List StubInstr) (s : StubState) : StubState := is.foldl StubInstr.exec s

/-! ### The stubs -/

/-- The registers that `PUSHALL` pushes, in its order. -/
def pushAll : List Gpr :=
  [.rax, .rbx, .rcx, .rdx, .rsi, .rdi, .rbp, .r8, .r9, .r10, .r11, .r12, .r13, .r14, .r15]

/-- The registers that `POPALL` pops, in its order. -/
def popAll : List Gpr :=
  [.r15, .r14, .r13, .r12, .r11, .r10, .r9, .r8, .rbp, .rdi, .rsi, .rdx, .rcx, .rbx, .rax]

/-- The instructions of a stub before and after `call interrupt_handler`. -/
structure IsrStub where
  entry : List StubInstr
  exit : List StubInstr

/-- `isr_err_stub`. -/
def isrErrStub (v : ℕ) : IsrStub where
  entry := .pushImm (.ofNat v) :: (pushAll.map .push ++ [.movRdiRsp])
  exit := popAll.map .pop ++ [.addRsp 16, .iretq]

/-- `isr_no_err_stub`. -/
def isrNoErrStub (v : ℕ) : IsrStub where
  entry := .pushImm 0 :: .pushImm (.ofNat v) :: (pushAll.map .push ++ [.movRdiRsp])
  exit := popAll.map .pop ++ [.addRsp 16, .iretq]

/-- The vectors for which the source uses `isr_err_stub`. -/
def errStubVectors : List ℕ := [8, 10, 11, 12, 13, 14, 17, 19, 20, 28, 29]

/-- The stub `isr_stub_v`. -/
def isrStub (v : ℕ) : IsrStub :=
  if v ∈ errStubVectors then isrErrStub v else isrNoErrStub v

/-! ### The interrupt descriptor table -/

/-- `idt_entry_t`. -/
structure IdtEntry where
  isrLow : UInt16
  kernelCs : UInt16
  ist : UInt8
  attributes : UInt8
  isrMid : UInt16
  isrHigh : UInt32
  reserved : UInt32

/-- The address at which the CPU goes on when it uses the descriptor. -/
def IdtEntry.target (e : IdtEntry) : UInt64 :=
  e.isrLow.toUInt64 ||| e.isrMid.toUInt64 <<< 16 ||| e.isrHigh.toUInt64 <<< 32

/-- What the linker has made of the stubs: the address of each, and the word behind
`isr_stub_table`. -/
structure StubImage where
  isrStub : ℕ → UInt64
  behindTable : UInt64

/-- The entries of `isr_stub_table`; it has 255 of them, and entry 255 is what lies behind it. -/
def isrStubTable (A : StubImage) (i : ℕ) : UInt64 :=
  ((List.range 255).map A.isrStub).getD i A.behindTable

/-- `idt_set_descriptor`, the new contents of the descriptor. -/
def idtSetDescriptor (isr : UInt64) (flags : UInt8) : IdtEntry where
  isrLow := (isr &&& 0xFFFF).toUInt16
  kernelCs := 0x08
  ist := 0
  attributes := flags
  isrMid := ((isr >>> 16) &&& 0xFFFF).toUInt16
  isrHigh := ((isr >>> 32) &&& 0xFFFFFFFF).toUInt32
  reserved := 0

/-- `IDT_MAX_DESCRIPTORS`. -/
def idtMaxDescriptors : ℕ := 256

/-- The loop of `idt_init`. -/
def idtInit (A : StubImage) (idt : ℕ → IdtEntry) : ℕ → IdtEntry :=
  (List.range idtMaxDescriptors).foldl
    (fun idt vector =>
      Function.update idt vector (idtSetDescriptor (isrStubTable A vector) 0x8E)) idt

/-! ### The CPU -/

/-- The vectors for which the CPU pushes an error code. -/
def errorCodeVectors : List ℕ := [8, 10, 11, 12, 13, 14, 17, 21, 29, 30]

/-- The stack pointer that the CPU starts from, aligned to 16 bytes. -/
def alignStack (rsp : UInt64) : UInt64 := rsp / 16 * 16

/-- What the CPU pushes for the vector `v` when it interrupts the registers `c`. -/
def cpuWords (v : ℕ) (err : UInt64) (c : Cpu) : List UInt64 :=
  [c.ss, c.rsp, c.rflags, c.cs, c.rip] ++ if v ∈ errorCodeVectors then [err] else []

/-- The state in which the stub of `v` starts, when the stack pointer of the interrupt is `rsp`. -/
def deliver (v : ℕ) (err rsp : UInt64) (c : Cpu) (m : Memory) : StubState :=
  pushWords ⟨{ c with rsp := alignStack rsp }, m⟩ (cpuWords v err c)

/-- The `stackframe` at `base`. -/
def frameAt (m : Memory) (base : UInt64) : Stackframe :=
  ⟨wordAt m base 0, wordAt m base 1, wordAt m base 2, wordAt m base 3, wordAt m base 4,
    wordAt m base 5, wordAt m base 6, wordAt m base 7, wordAt m base 8, wordAt m base 9,
    wordAt m base 10, wordAt m base 11, wordAt m base 12, wordAt m base 13, wordAt m base 14,
    wordAt m base 15, wordAt m base 16, wordAt m base 17, wordAt m base 18, wordAt m base 19,
    wordAt m base 20, wordAt m base 21⟩

end Soaplin

import Soaplin.Foundation.ByteMemory

/-!
# The physical memory manager

The model of `mm/pmm.c`: the page stack (`pmm_freepage`, `pmm_allocpage`, `pmm_init`) and the heap
of `pmm_alloc`, `pmm_free` and `pmm_realloc`, whose block headers live in the pages themselves.
Addresses and sizes are 64-bit words, written as natural numbers; sums and differences of the source
wrap.

The array `pmm_stack[0 .. pmm_stack_top)` is the list `pmmStack` with the top of the stack first, so
`pmm_stack_top` is its length.  The calls of `logln` only write to the console and are left out. The
two pointer loops of the heap may run forever on a list with a cycle, and `pmm_realloc` looks for a
zero byte; these loops take a bound on their number of iterations and return `none` when the bound
is reached.
-/

namespace Soaplin

open ByteMemory Word64

/-- `PMM_BLOCK_SIZE`. -/
def pmmBlockSize : ℕ := 4096

/-- `STACK_SIZE`, that is `PMM_MAX_BLOCKS`. -/
def stackSize : ℕ := 32768

/-- `sizeof(pmm_memblk_t)`: a size, a next pointer, and a flag padded to eight bytes. -/
def memblkSize : ℕ := 24

/-- `MEMMAP_USABLE`. -/
def memmapUsable : ℕ := 0

/-- `MEMMAP_RESERVED`. -/
def memmapReserved : ℕ := 1

/-- `memmap_entry_t`. -/
structure MemmapEntry where
  base : ℕ
  length : ℕ
  type : ℕ

/-- The global variables of `mm/pmm.c` together with the memory they point into. -/
structure Pmm where
  mem : Memory
  pmmStack : List ℕ
  pmmFreeBlocks : ℕ
  pmmInitialized : Bool
  pmmUsedMem : ℕ
  pmmFreeMem : ℕ
  pmmTotalMem : ℕ

/-- The global variables before `pmm_init`, over the memory `m`. -/
def Pmm.boot (m : Memory) : Pmm := ⟨m, [], 0, false, 0, 0, 0⟩

/-! ### The page stack -/

/-- `pmm_freepage`. -/
def pmmFreepage (s : Pmm) (block : ℕ) : Pmm :=
  if !s.pmmInitialized then s
  else if s.pmmStack.length = stackSize then s
  else
    { s with
      pmmFreeMem := wadd s.pmmFreeMem pmmBlockSize
      pmmUsedMem := wsub s.pmmUsedMem pmmBlockSize
      pmmStack := block :: s.pmmStack }

/-- `pmm_allocpage`; the address `0` is the `NULL` result. -/
def pmmAllocpage (s : Pmm) : ℕ × Pmm :=
  if !s.pmmInitialized then (0, s)
  else
    match s.pmmStack with
    | [] => (0, s)
    | page :: rest =>
      (page,
        { s with
          pmmFreeMem := wsub s.pmmFreeMem pmmBlockSize
          pmmUsedMem := wadd s.pmmUsedMem pmmBlockSize
          pmmStack := rest })

/-- The loop of `pmm_init` that counts the blocks of an entry in `pmm_total_mem`. -/
def countTotal (total length : ℕ) : ℕ :=
  if pmmBlockSize ≤ length then
    countTotal (wadd total pmmBlockSize) (length - pmmBlockSize)
  else total
termination_by length
decreasing_by simp only [pmmBlockSize] at *; omega

/-- The loop of `pmm_init` that frees the pages of a usable entry. -/
def freeRange (s : Pmm) (addr length : ℕ) : Pmm :=
  if pmmBlockSize ≤ length then
    freeRange (pmmFreepage s addr) (wadd addr pmmBlockSize) (length - pmmBlockSize)
  else s
termination_by length
decreasing_by simp only [pmmBlockSize] at *; omega

/-- One iteration of the entry loop of `pmm_init`. -/
def initEntry (s : Pmm) (mentry : MemmapEntry) : Pmm :=
  let s :=
    if mentry.type ≠ memmapReserved then
      { s with pmmTotalMem := countTotal s.pmmTotalMem mentry.length }
    else s
  if mentry.type = memmapUsable then freeRange s mentry.base mentry.length else s

/-- `pmm_init` on the memory map `mmap`. -/
def pmmInit (s : Pmm) (mmap : List MemmapEntry) : Pmm :=
  mmap.foldl initEntry { s with pmmStack := [], pmmInitialized := true }

/-! ### The heap -/

/-- The field `size` of the block header at `b`. -/
def blockSize (m : Memory) (b : ℕ) : ℕ := load64 m b

/-- The field `next` of the block header at `b`. -/
def blockNext (m : Memory) (b : ℕ) : ℕ := load64 m (b + 8)

/-- The field `is_free` of the block header at `b`. -/
def blockIsFree (m : Memory) (b : ℕ) : Bool := m (b + 16) ≠ 0

/-- Assigning the field `size`. -/
def setBlockSize (m : Memory) (b v : ℕ) : Memory := store64 m b v

/-- Assigning the field `next`. -/
def setBlockNext (m : Memory) (b v : ℕ) : Memory := store64 m (b + 8) v

/-- Assigning the field `is_free`. -/
def setBlockIsFree (m : Memory) (b : ℕ) (v : Bool) : Memory :=
  Function.update m (b + 16) (if v then 1 else 0)

/-- The search loop of `pmm_alloc`: the first free block of at least `size` bytes from `block` on,
or `0` at the end of the list, together with the value of `prev_block`. -/
def findBlock (m : Memory) (size : ℕ) : ℕ → ℕ → ℕ → Option (ℕ × ℕ)
  | 0, _, _ => none
  | fuel + 1, block, prev =>
    if block = 0 then some (0, prev)
    else if blockIsFree m block ∧ size ≤ blockSize m block then some (block, prev)
    else findBlock m size fuel (blockNext m block) block

/-- The body of the search loop of `pmm_alloc` for the block it settles on: the block is marked
used, and split when the rest can hold a header and more. -/
def takeBlock (m : Memory) (size block : ℕ) : Memory :=
  let m := setBlockIsFree m block false
  if blockSize m block > wadd size memblkSize then
    let newBlock := wadd block size
    let m := setBlockSize m newBlock (wsub (blockSize m block) size)
    let m := setBlockNext m newBlock (blockNext m block)
    let m := setBlockIsFree m newBlock true
    let m := setBlockSize m block size
    setBlockNext m block newBlock
  else m

/-- The header that `pmm_alloc` writes into a page it has just popped. -/
def writeFreshBlock (m : Memory) (block size : ℕ) : Memory :=
  setBlockNext (setBlockIsFree (setBlockSize m block size) block false) block 0

/-- `pmm_alloc`; the address `0` is the `NULL` result. -/
def pmmAlloc (fuel : ℕ) (s : Pmm) (n : ℕ) : Option (ℕ × Pmm) :=
  if !s.pmmInitialized then some (0, s)
  else if n = 0 then some (0, s)
  else
    let size := wadd n memblkSize
    match findBlock s.mem size fuel s.pmmFreeBlocks 0 with
    | none => none
    | some (block, prev) =>
      if block ≠ 0 then
        some (wadd block memblkSize, { s with mem := takeBlock s.mem size block })
      else
        let (block, s) := pmmAllocpage s
        if block = 0 then some (0, s)
        else
          let m := writeFreshBlock s.mem block size
          if prev ≠ 0 then
            some (wadd block memblkSize, { s with mem := setBlockNext m prev block })
          else
            some (wadd block memblkSize, { s with mem := m, pmmFreeBlocks := block })

/-- The loop of `pmm_free` that merges the free list successors into `block`. -/
def mergeLoop (block : ℕ) : ℕ → Memory → Option Memory
  | 0, _ => none
  | fuel + 1, m =>
    let next := blockNext m block
    if next ≠ 0 ∧ blockIsFree m next then
      let m := setBlockSize m block (wadd (blockSize m block) (blockSize m next))
      mergeLoop block fuel (setBlockNext m block (blockNext m (blockNext m block)))
    else some m

/-- `pmm_free`. -/
def pmmFree (fuel : ℕ) (s : Pmm) (ptr : ℕ) : Option Pmm :=
  if !s.pmmInitialized then some s
  else if ptr = 0 then some s
  else
    let block := wsub ptr memblkSize
    (mergeLoop block fuel (setBlockIsFree s.mem block true)).map fun m => { s with mem := m }

/-! ### Reallocation -/

/-- The loop of `pmm_realloc` that looks for the size of the old block: it counts the bytes from
`temp` on up to the first zero byte. -/
def oldSizeLoop (m : Memory) : ℕ → ℕ → ℕ → Option ℕ
  | 0, _, _ => none
  | fuel + 1, temp, oldSize =>
    if m temp ≠ 0 then oldSizeLoop m fuel (wadd temp 1) (wadd oldSize 1) else some oldSize

/-- The first `i` iterations of the loop of `pmm_realloc` that copies the old block. -/
def copyLoop (m : Memory) (newPtr ptr : ℕ) : ℕ → Memory
  | 0 => m
  | i + 1 =>
    let m := copyLoop m newPtr ptr i
    Function.update m (wadd newPtr i) (m (wadd ptr i))

/-- `pmm_realloc`; the address `0` is the `NULL` result. -/
def pmmRealloc (fuel : ℕ) (s : Pmm) (ptr size : ℕ) : Option (ℕ × Pmm) :=
  if !s.pmmInitialized then some (0, s)
  else if size = 0 then (pmmFree fuel s ptr).map fun s => (0, s)
  else
    match pmmAlloc fuel s size with
    | none => none
    | some (newPtr, s) =>
      if newPtr = 0 then some (0, s)
      else if ptr ≠ 0 then
        match oldSizeLoop s.mem fuel ptr 0 with
        | none => none
        | some oldSize =>
          let s := { s with mem := copyLoop s.mem newPtr ptr (wadd oldSize 1) }
          (pmmFree fuel s ptr).map fun s => (newPtr, s)
      else (pmmFree fuel s ptr).map fun s => (newPtr, s)

end Soaplin

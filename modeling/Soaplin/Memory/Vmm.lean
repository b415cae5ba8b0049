import Soaplin.Memory.Pmm

/-!
# The virtual memory manager

The model of `mm/vmm.c`: page maps, `vmm_map`, `vmm_unmap`, `vmm_new_pagemap` and `vmm_init`, over
the page stack of `mm/pmm.c`.  Page tables, the structures `pagemap` and the heads of the area lists
live in the memory of `Pmm`, which is indexed by physical addresses.  The kernel reaches them at
`PHYSICAL_TO_VIRTUAL` of their address, in the direct map; an access to a virtual pointer is
modelled as an access at `VIRTUAL_TO_PHYSICAL` of it.

`walk` is not code of the kernel: it is the translation that the processor performs on the tables.
The calls of `logln` only write to the console and are left out.
-/

namespace Soaplin

open ByteMemory Word64

/-- `PAGE_SIZE`. -/
def pageSize : ℕ := 4096

/-- `PTE_ADDR_MASK`. -/
def pteAddrMask : ℕ := 0x000ffffffffff000

/-- `PTE_GET_ADDR`. -/
def pteGetAddr (value : ℕ) : ℕ := value &&& pteAddrMask

/-- `VMM_PRESENT`. -/
def vmmPresent : ℕ := 0x01

/-- `VMM_WRITE`. -/
def vmmWrite : ℕ := 0x02

/-- `VMM_USER`. -/
def vmmUser : ℕ := 0x04

/-- The global variables of `mm/vmm.c` on top of those of `mm/pmm.c`, the register `cr3`, and a
history variable that no code reads: `outOfPages` records that a call of `pmm_allocpage` by the
memory manager has returned `NULL`. -/
structure Vmm extends Pmm where
  hhdmOff : ℕ
  kernelPhysAddr : ℕ
  kernelVirtAddr : ℕ
  vmmKernelPagemap : ℕ
  vmmCurrentPagemap : ℕ
  cr3 : ℕ
  outOfPages : Bool

/-- The symbols that the linker places around the sections of the kernel. -/
structure SectionSymbols where
  textStartLd : ℕ
  textEndLd : ℕ
  rodataStartLd : ℕ
  rodataEndLd : ℕ
  dataStartLd : ℕ
  dataEndLd : ℕ

/-! ### Memory accesses -/

/-- `PHYSICAL_TO_VIRTUAL`. -/
def physicalToVirtual (s : Vmm) (ptr : ℕ) : ℕ := wadd ptr s.hhdmOff

/-- `VIRTUAL_TO_PHYSICAL`. -/
def virtualToPhysical (s : Vmm) (ptr : ℕ) : ℕ := wsub ptr s.hhdmOff

/-- Reading a `uint64_t` through a virtual pointer. -/
def readWord (s : Vmm) (ptr : ℕ) : ℕ := load64 s.mem (virtualToPhysical s ptr)

/-- Writing a `uint64_t` through a virtual pointer. -/
def writeWord (s : Vmm) (ptr v : ℕ) : Vmm :=
  { s with mem := store64 s.mem (virtualToPhysical s ptr) v }

/-- The loop of `memset` of `mm/memop.c`: the first `n` bytes from `p` on are set to `c`. -/
def memset (m : Memory) (p : ℕ) (c : UInt8) : ℕ → Memory
  | 0 => m
  | n + 1 => Function.update (memset m p c n) (p + n) c

/-- `memset(ptr, 0, PAGE_SIZE)` through a virtual pointer. -/
def clearPage (s : Vmm) (ptr : ℕ) : Vmm :=
  { s with mem := memset s.mem (virtualToPhysical s ptr) 0 pageSize }

/-- A call of `pmm_allocpage`, with its failure recorded. -/
def vmmAllocpage (s : Vmm) : ℕ × Vmm :=
  let (page, t) := pmmAllocpage s.toPmm
  (page, { s with toPmm := t, outOfPages := s.outOfPages || page == 0 })

/-- A call of `pmm_freepage`. -/
def vmmFreepage (s : Vmm) (block : ℕ) : Vmm := { s with toPmm := pmmFreepage s.toPmm block }

/-- The field `topLevel` of the structure `pagemap` at `pm`. -/
def pagemapTopLevel (s : Vmm) (pm : ℕ) : ℕ := readWord s pm

/-- The field `vmaHead` of the structure `pagemap` at `pm`. -/
def pagemapVmaHead (s : Vmm) (pm : ℕ) : ℕ := readWord s (wadd pm 8)

/-- Assigning the field `topLevel`. -/
def setPagemapTopLevel (s : Vmm) (pm v : ℕ) : Vmm := writeWord s pm v

/-- Assigning the field `vmaHead`. -/
def setPagemapVmaHead (s : Vmm) (pm v : ℕ) : Vmm := writeWord s (wadd pm 8) v

/-- Assigning the field `next` of the structure `vma_region` at `vma`. -/
def setVmaNext (s : Vmm) (vma v : ℕ) : Vmm := writeWord s (wadd vma 48) v

/-- Assigning the field `prev` of the structure `vma_region` at `vma`. -/
def setVmaPrev (s : Vmm) (vma v : ℕ) : Vmm := writeWord s (wadd vma 56) v

/-! ### Mapping a page -/

/-- `level[entry]` for a table at the virtual pointer `level`. -/
def levelEntry (s : Vmm) (level entry : ℕ) : ℕ := readWord s (wadd level (8 * entry))

/-- The assignment `level[entry] = v`. -/
def setLevelEntry (s : Vmm) (level entry v : ℕ) : Vmm := writeWord s (wadd level (8 * entry)) v

/-- `__vmm_get_next_lvl`. -/
def vmmGetNextLvl (s : Vmm) (level entry : ℕ) : ℕ × Vmm :=
  if levelEntry s level entry &&& 1 ≠ 0 then
    (physicalToVirtual s (pteGetAddr (levelEntry s level entry)), s)
  else
    let (page, s) := vmmAllocpage s
    let pml := physicalToVirtual s page
    let s := clearPage s pml
    let s := setLevelEntry s level entry (virtualToPhysical s pml ||| 1 ||| 2 ||| 3)
    (pml, s)

/-- The index `pml1_entry` of an address. -/
def pml1Entry (vaddr : ℕ) : ℕ := (vaddr >>> 12) &&& 0x1ff

/-- The index `pml2_entry` of an address. -/
def pml2Entry (vaddr : ℕ) : ℕ := (vaddr >>> 21) &&& 0x1ff

/-- The index `pml3_entry` of an address. -/
def pml3Entry (vaddr : ℕ) : ℕ := (vaddr >>> 30) &&& 0x1ff

/-- The index `pml4_entry` of an address. -/
def pml4Entry (vaddr : ℕ) : ℕ := (vaddr >>> 39) &&& 0x1ff

/-- The common body of `vmm_map` and `vmm_unmap`, which differ in the value they write into the
last table. -/
def vmmSetEntry (s : Vmm) (pm vaddr value : ℕ) : Vmm :=
  let (pml3, s) := vmmGetNextLvl s (pagemapTopLevel s pm) (pml4Entry vaddr)
  let (pml2, s) := vmmGetNextLvl s pml3 (pml3Entry vaddr)
  let (pml1, s) := vmmGetNextLvl s pml2 (pml2Entry vaddr)
  setLevelEntry s pml1 (pml1Entry vaddr) value

/-- `vmm_map`. -/
def vmmMap (s : Vmm) (pm vaddr paddr flags : ℕ) : Vmm := vmmSetEntry s pm vaddr (paddr ||| flags)

/-- `vmm_unmap`. -/
def vmmUnmap (s : Vmm) (pm vaddr : ℕ) : Vmm := vmmSetEntry s pm vaddr 0

/-! ### Page maps -/

/-- The loop of `vmm_new_pagemap` that copies the `n` entries of the kernel page map from entry `i`
on. -/
def copyKernelHalf (s : Vmm) (pageMap i : ℕ) : ℕ → Vmm
  | 0 => s
  | n + 1 =>
    let entry := levelEntry s (pagemapTopLevel s s.vmmKernelPagemap) i
    copyKernelHalf (setLevelEntry s (pagemapTopLevel s pageMap) i entry) pageMap (i + 1) n

/-- `vmm_new_pagemap`; the address `0` is the `NULL` result. -/
def vmmNewPagemap (s : Vmm) : ℕ × Vmm :=
  let (page, s) := vmmAllocpage s
  let pageMap := physicalToVirtual s page
  if pageMap = 0 then (0, s)
  else
    let s := clearPage s pageMap
    let (page, s) := vmmAllocpage s
    let s := setPagemapTopLevel s pageMap (physicalToVirtual s page)
    if pagemapTopLevel s pageMap = 0 then
      (0, vmmFreepage s (virtualToPhysical s pageMap))
    else
      let s := clearPage s (pagemapTopLevel s pageMap)
      let (page, s) := vmmAllocpage s
      let s := setPagemapVmaHead s pageMap (physicalToVirtual s page)
      if pagemapVmaHead s pageMap = 0 then
        let s := vmmFreepage s (virtualToPhysical s (pagemapTopLevel s pageMap))
        (0, vmmFreepage s (virtualToPhysical s pageMap))
      else
        let s := clearPage s (pagemapVmaHead s pageMap)
        let s := setVmaNext s (pagemapVmaHead s pageMap) (pagemapVmaHead s pageMap)
        let s := setVmaPrev s (pagemapVmaHead s pageMap) (pagemapVmaHead s pageMap)
        (pageMap, copyKernelHalf s pageMap 256 256)

/-- `vmm_load_pagemap`. -/
def vmmLoadPagemap (s : Vmm) (pml4 : ℕ) : Vmm :=
  if pml4 = 0 then s
  else
    { s with
      vmmCurrentPagemap := pml4
      cr3 := virtualToPhysical s (pagemapTopLevel s pml4) }

/-- `ALIGN_UP(x, PAGE_SIZE)`. -/
def alignUp (x : ℕ) : ℕ := wadd x (pageSize - 1) / pageSize * pageSize

/-- `ALIGN_DOWN(x, PAGE_SIZE)`. -/
def alignDown (x : ℕ) : ℕ := x / pageSize * pageSize

/-- The loops `for (x = start; x < stop; x += PAGE_SIZE)` of `vmm_init`.  Their bounds are multiples
of the page size below `2 ^ 64`, so that the sum does not wrap. -/
def forPages (body : Vmm → ℕ → Vmm) (s : Vmm) (x stop : ℕ) : Vmm :=
  if x < stop then forPages body (body s x) (x + pageSize) stop else s
termination_by stop - x
decreasing_by simp only [pageSize]; omega

/-- The loop of `vmm_init` that maps the pages of a section of the kernel. -/
def mapSection (s : Vmm) (startLd endLd flags : ℕ) : Vmm :=
  forPages
    (fun s x =>
      vmmMap s s.vmmKernelPagemap x (wadd (wsub x s.kernelVirtAddr) s.kernelPhysAddr) flags)
    s (alignDown startLd) (alignUp endLd)

/-- The loop of `vmm_init` that maps the first 4 GiB twice, at their own addresses and in the direct
map. -/
def mapLowMemory (s : Vmm) : Vmm :=
  forPages
    (fun s gb4 =>
      let s := vmmMap s s.vmmKernelPagemap gb4 gb4 (1 ||| 2)
      vmmMap s s.vmmKernelPagemap (physicalToVirtual s gb4) gb4 (1 ||| 2))
    s 0 0x100000000

/-- The first part of `vmm_init`: the kernel page map, with an empty top level. -/
def createKernelPagemap (s : Vmm) : Vmm :=
  let (page, s) := vmmAllocpage s
  let s := { s with vmmKernelPagemap := physicalToVirtual s page }
  let s := clearPage s s.vmmKernelPagemap
  let (page, s) := vmmAllocpage s
  let s := setPagemapTopLevel s s.vmmKernelPagemap (physicalToVirtual s page)
  let s := clearPage s (pagemapTopLevel s s.vmmKernelPagemap)
  let (page, s) := vmmAllocpage s
  let s := setPagemapVmaHead s s.vmmKernelPagemap (physicalToVirtual s page)
  let s := clearPage s (pagemapVmaHead s s.vmmKernelPagemap)
  let s := setVmaNext s (pagemapVmaHead s s.vmmKernelPagemap) (pagemapVmaHead s s.vmmKernelPagemap)
  setVmaPrev s (pagemapVmaHead s s.vmmKernelPagemap) (pagemapVmaHead s s.vmmKernelPagemap)

/-- `vmm_init`. -/
def vmmInit (s : Vmm) (sym : SectionSymbols) : Vmm :=
  let s := createKernelPagemap s
  let s := mapSection s sym.textStartLd sym.textEndLd 1
  let s := mapSection s sym.rodataStartLd sym.rodataEndLd (1 ||| 1 <<< 63)
  let s := mapSection s sym.dataStartLd sym.dataEndLd (1 ||| 2 ||| 1 <<< 63)
  let s := mapLowMemory s
  vmmLoadPagemap s s.vmmKernelPagemap

/-! ### The translation of the processor -/

/-- The entry `i` of the table at the physical address `t`. -/
def tableEntry (m : Memory) (t i : ℕ) : ℕ := load64 m (t + 8 * i)

/-- The table that an entry of an upper level points to, if its bit `0` is set. -/
def pteTable (e : ℕ) : Option ℕ := if e &&& 1 ≠ 0 then some (pteGetAddr e) else none

/-- The physical address of the top-level table of the page map `pm`. -/
def rootTable (s : Vmm) (pm : ℕ) : ℕ := virtualToPhysical s (pagemapTopLevel s pm)

/-- The entries of the four levels that the processor reads for the address `w`, from the top level
down; `none` when one of the upper three is not present. -/
def walkEntries (s : Vmm) (pm w : ℕ) : Option (List ℕ) := do
  let e₄ := tableEntry s.mem (rootTable s pm) (pml4Entry w)
  let pml3 ← pteTable e₄
  let e₃ := tableEntry s.mem pml3 (pml3Entry w)
  let pml2 ← pteTable e₃
  let e₂ := tableEntry s.mem pml2 (pml2Entry w)
  let pml1 ← pteTable e₂
  return [e₄, e₃, e₂, tableEntry s.mem pml1 (pml1Entry w)]

/-- The raw entry of the last level in which the walk of `pm` at `w` ends, `none` when it does not
get there. -/
def walk (s : Vmm) (pm w : ℕ) : Option ℕ := (walkEntries s pm w).bind List.getLast?

/-- The access rights of a page. -/
structure Rights where
  writable : Bool
  user : Bool
  noExecute : Bool
  deriving DecidableEq

/-- The rights that the flags of `vmm_map` ask for. -/
def Rights.ofFlags (flags : ℕ) : Rights :=
  ⟨flags &&& vmmWrite != 0, flags &&& vmmUser != 0, flags.testBit 63⟩

/-- The rights that the processor grants along the entries of a walk. -/
def Rights.ofEntries (es : List ℕ) : Rights :=
  ⟨es.all (Nat.testBit · 1), es.all (Nat.testBit · 2), es.any (Nat.testBit · 63)⟩

/-- The effective rights of the address `w`; `none` when `w` is not mapped. -/
def effectiveRights (s : Vmm) (pm w : ℕ) : Option Rights :=
  (walkEntries s pm w).bind fun es =>
    if es.getLast?.any (Nat.testBit · 0) then some (Rights.ofEntries es) else none

end Soaplin

import Soaplin.Memory.PageStack
import Soaplin.Foundation.LinkedChain
import Soaplin.Foundation.FreeList
import Soaplin.Memory.HeapList
import Soaplin.Memory.HeapRun
import Soaplin.Memory.HeapSeparation
import Soaplin.Memory.HeapAlloc
import Soaplin.Memory.HeapFree
import Soaplin.Console.LockDiscipline
import Soaplin.Sched.Sched
import Soaplin.Sched.ContextSwitch
import Soaplin.Sched.ProcessList
import Soaplin.Sched.Stores
import Soaplin.Sched.Interrupt
import Soaplin.Sched.WayOut
import Soaplin.Sched.Creations
import Soaplin.Sched.NestedTick
import Soaplin.Foundation.RadixForest
import Soaplin.Memory.PageTable
import Soaplin.Memory.Translation
import Soaplin.Memory.AccessRights
import Soaplin.Memory.NewPagemap
import Soaplin.Memory.PagemapPages
import Soaplin.Memory.KernelMap
import Soaplin.Memory.BootMap
import Soaplin.Memory.AddressSpace
import Soaplin.Foundation.RoundRobin
import Soaplin.Memory.Accounting
import Soaplin.Sched.Fairness
import Soaplin.Sched.RunningThread
import Soaplin.Interrupts.Stub
import Soaplin.Console.Panic
import Soaplin.Interrupts.Transparency
import Soaplin.Console.Interleaving
import Soaplin.Console.Preemption
import Soaplin.Syscall.Table
import Soaplin.Memory.Exhaustion
import Soaplin.Memory.HeapHeaders
import Soaplin.Memory.HeapSizes
import Soaplin.Memory.HeapCycle
import Soaplin.Memory.Realloc
import Soaplin.Memory.ReallocConfined
import Soaplin.Sched.Search
import Soaplin.Sched.ThreadCreation
import Soaplin.Cpu.Gdt
import Soaplin.Interrupts.EndOfInterrupt
import Soaplin.Sched.Death
import Soaplin.Sched.NewRecords
import Soaplin.Console.Write
import Soaplin.Memory.FailedPagemap
import Soaplin.Memory.Unmap
import Soaplin.Memory.Memop
import Soaplin.Console.Contention
import Soaplin.Console.LogOutput
import Soaplin.Foundation.PrefixScanner
import Soaplin.Foundation.Numeral
import Soaplin.Format.Spec
import Soaplin.Format.Grammar
import Soaplin.Format.Parser
import Soaplin.Format.Convert
import Soaplin.Format.Print
import Soaplin.Format.Layout
import Soaplin.Format.Semantics
import Soaplin.Format.Number
import Soaplin.Format.ReadBack
import Soaplin.Format.Buffer
import Soaplin.Format.Bounds
import Soaplin.Format.Template
import Soaplin.Console.FormattedLog
import Soaplin.Memory.KernelHeap
import Soaplin.Sched.StackPages
import Soaplin.Sched.OnHeap
import Soaplin.Sched.Identifiers
import Soaplin.Console.Uart
import Soaplin.Interrupts.Timer
import Soaplin.Syscall.Calls

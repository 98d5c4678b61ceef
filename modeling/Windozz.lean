import Windozz.Basic.Bytes
import Windozz.Basic.Chain
import Windozz.Echfs.Image
import Windozz.Echfs.Entry
import Windozz.Echfs.Alloc
import Windozz.Echfs.Format
import Windozz.Echfs.Directory
import Windozz.Echfs.Tree
import Windozz.Echfs.Commands
import Windozz.Echfs.Volume
import Windozz.Echfs.Files
import Windozz.Echfs.RoundTrip
import Windozz.Echfs.Lookup
import Windozz.Echfs.Mkdir
import Windozz.Echfs.Resolve
import Windozz.Echfs.Export
import Windozz.Echfs.Unfinished
import Windozz.Echfs.Subdir
import Windozz.Echfs.Ancestors
import Windozz.Echfs.Indices
import Windozz.Echfs.Destination
import Windozz.Echfs.Reserved
import Windozz.Basic.Bitmap
import Windozz.Basic.Program
import Windozz.Kernel.State
import Windozz.Kernel.Metadata
import Windozz.Kernel.Counters
import Windozz.Kernel.Ioapic
import Windozz.Kernel.Pmm
import Windozz.Kernel.FindPage
import Windozz.Kernel.E820
import Windozz.Basic.Radix
import Windozz.Kernel.Vmm
import Windozz.Kernel.Alloc
import Windozz.Kernel.Exhaust
import Windozz.Kernel.Virtual
import Windozz.Kernel.Span
import Windozz.Kernel.Heap
import Windozz.Kernel.Returns
import Windozz.Kernel.Calls
import Windozz.Kernel.Mmio
import Windozz.Kernel.Process
import Windozz.Kernel.Locks
import Windozz.Kernel.Shortage
import Windozz.Kernel.Tracked
import Windozz.Kernel.Sched
import Windozz.Kernel.FindIdle
import Windozz.Kernel.Boot
import Windozz.Kernel.Sizes
import Windozz.Kernel.Realloc
import Windozz.Kernel.Walk
import Windozz.Kernel.Balance
import Windozz.Kernel.Undo
import Windozz.Kernel.Resume
import Windozz.Kernel.Leftovers
import Windozz.Kernel.Scarce
import Windozz.Kernel.Slots
import Windozz.Kernel.Roots
import Windozz.Kernel.Threads
import Windozz.Kernel.Window
import Windozz.Basic.Recorded
import Windozz.Basic.Reads
import Windozz.Kernel.Acpi
import Windozz.Kernel.Madt
import Windozz.Kernel.Numerals
import Windozz.Gfx.Screen
import Windozz.Gfx.Stream
import Windozz.Gfx.Scroll
import Windozz.Gfx.Terminal
import Windozz.Bootmgr.Machine
import Windozz.Bootmgr.Detect
import Windozz.Bootmgr.Layout
import Windozz.Bootmgr.Disk
import Windozz.Bootmgr.Load
import Windozz.Bootmgr.Scan
import Windozz.Bootmgr.EchfsLoad
import Windozz.Bootmgr.Stage1
import Windozz.Bootmgr.Vbe
import Windozz.Bootmgr.Paging
import Windozz.Kernel.Memmove
import Windozz.Kernel.Ltoa
import Windozz.Kernel.Debug
import Windozz.Basic.FirstDifference
import Windozz.Kernel.Strcmp
import Windozz.Kernel.Percent
import Windozz.Basic.Agents
import Windozz.Kernel.Spinlock
import Windozz.Kernel.PmmCalls
import Windozz.Basic.Routines
import Windozz.Kernel.LockOrder
import Windozz.Kernel.RoundRobin
import Windozz.Kernel.Smp
import Windozz.Basic.Lockstep
import Windozz.Kernel.Spaces
import Windozz.Kernel.SpaceCalls
import Windozz.Kernel.SharedHeap
import Windozz.Kernel.Coherence

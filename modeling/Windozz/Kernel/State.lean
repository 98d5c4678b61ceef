import Windozz.Basic.Bitmap
import Windozz.Basic.Bytes
import Windozz.Basic.Program

set_option autoImplicit false

/-! # The state of the kernel

The part of the machine the memory manager works on: physical memory, the page-table root, the
globals of `pmm.c` and `vmm.c` and the four mutexes. The kernel reaches physical memory through
the window at `PHYSICAL_MEMORY`; the model reads and writes `mem` at the physical address.

A call returns or stops: it spins on a mutex that is held, it enters one of the `while(1)` loops
(or a loop that never ends), or it faults on an address that is not mapped.
-/

namespace Windozz.Kernel

/-! ## Constants -/

def PHYSICAL_MEMORY : Nat := 0xFFFF800000000000
def MMIO_REGION : Nat := 0xFFFF808000000000
def KERNEL_HEAP : Nat := 0xFFFF810000000000
def MAX_MMIO : Nat := 32768
def PAGE_SIZE : Nat := 4096
def PAGE_PRESENT : Nat := 0x001
def PAGE_WRITE : Nat := 0x002
def PAGE_USER : Nat := 0x004
def PAGE_UNCACHEABLE : Nat := 0x010
def PAGE_LARGE : Nat := 0x080
def KERNEL_HEAP_FLAGS : Nat := PAGE_PRESENT ||| PAGE_WRITE

/-- `x & PAGE_MASK` of a 64-bit word. -/
def pageMask (x : Nat) : Nat := x / 4096 * 4096

/-! ## State -/

/-- The globals of `pmm.c`. -/
structure Pmm where
  bitmap : Bitmap
  bitmap_size : Nat
  total_pages : Nat
  used_pages : Nat
  highest_usable_address : Nat

inductive Mutex where
  | pmm_mutex
  | vmm_mutex
  | heap_mutex
  | sched_mutex
  deriving DecidableEq, Repr

/-- The machine and the globals of the memory manager. -/
structure State where
  mem : Mem
  cr3 : Nat
  pmm : Pmm
  mutexes : Mutex → Bool
  bsp_pml4 : Nat
  mmio_regions : Nat
  mmio_region_count : Nat

/-- The globals of `pmm.c` as the kernel image holds them. -/
def Pmm.boot : Pmm := ⟨fun _ => 0, 0, 0, 0, 0⟩

/-- A state in which `mm_init` can be called: memory is clear and the page-table root is where the
boot manager puts it. -/
def State.boot : State where
  mem := fun _ => 0
  cr3 := 0x8000
  pmm := .boot
  mutexes := fun _ => false
  bsp_pml4 := 0
  mmio_regions := 0
  mmio_region_count := 0

/-- The ways a call does not return. -/
inductive Stop where
  /-- It tries to acquire a mutex that is held. -/
  | spin (m : Mutex)
  /-- It loops for ever. -/
  | hang
  /-- It accesses an address that is not mapped. -/
  | fault
  deriving DecidableEq, Repr

/-- A kernel function. -/
abbrev K (α : Type) := Prog State Stop α

/-! ## Mutexes -/

/-- `acquire`. -/
def acquire (m : Mutex) : K Unit := do
  let s ← get
  if s.mutexes m then throw (.spin m)
  else set { s with mutexes := Function.update s.mutexes m true }

/-- `release`. -/
def release (m : Mutex) : K Unit :=
  modify fun s => { s with mutexes := Function.update s.mutexes m false }

theorem acquire_held {m : Mutex} {s : State} (h : s.mutexes m = true) :
    acquire m s = .error (.spin m) := by
  simp [acquire, Prog.run_bind, h]

theorem acquire_free {m : Mutex} {s : State} (h : s.mutexes m = false) :
    acquire m s = .ok ((), { s with mutexes := Function.update s.mutexes m true }) := by
  simp [acquire, Prog.run_bind, h]

theorem acquire_ok {m : Mutex} {s s' : State} {u : Unit} (h : acquire m s = .ok (u, s')) :
    s' = { s with mutexes := Function.update s.mutexes m true } := by
  cases hm : s.mutexes m with
  | true =>
      rw [acquire_held hm] at h
      cases h
  | false =>
      rw [acquire_free hm] at h
      exact (Prod.mk.inj (Except.ok.inj h)).2.symm

@[simp] theorem run_release (m : Mutex) (s : State) :
    release m s = .ok ((), { s with mutexes := Function.update s.mutexes m false }) := rfl

end Windozz.Kernel

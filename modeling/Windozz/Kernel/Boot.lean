import Mathlib.Logic.Relation
import Windozz.Kernel.E820
import Windozz.Kernel.Returns

set_option autoImplicit false

/-! # Setting up the memory manager

`mm_init` on the page tables that the boot manager leaves (`setup_paging` of `paging.asm`): one
table of each of the upper levels, eight directories of large pages, and the first level with the
entries 0 and 256. `vmm_init` takes entry 0 away, and what is left is a tree
(`KernelTables.pageTree`).

From there every history of heap calls keeps the invariant of the heap (`heap_run`).
-/

namespace Windozz.Kernel

open Radix Relation

/-! ## The functions -/

/-- `sizeof(mmio_t)`. -/
def SIZEOF_MMIO : Nat := 88

/-- `vmm_init`. -/
def vmmInit : K Unit := do
  modify fun s => { s with bsp_pml4 := u64 (s.cr3 + PHYSICAL_MEMORY) }
  modify fun s => { s with mem := s.mem.setQword s.cr3 0 }
  let regions ← kcalloc SIZEOF_MMIO MAX_MMIO
  modify fun s => { s with mmio_regions := regions }
  if regions = 0 then throw .hang
  else modify fun s => { s with mmio_region_count := 0 }

/-- `mm_init`. -/
def mmInit (map : E820Map) : K Unit := do
  pmmInit map
  vmmInit

/-! ## The page tables at boot -/

/-- The entries of the first table that `paging.asm` builds. -/
def bootPml4 (i : Nat) : Nat := if i = 0 ∨ i = 256 then 0x9003 else 0

/-- The entries of the table of the second level. -/
def bootPdpt (i : Nat) : Nat := if i < 8 then 0xA003 + i * 4096 else 0

/-- The entries of the directories, numbered through. -/
def bootPd (j : Nat) : Nat := j * 0x200000 + 0x83

/-- The page tables are those that `paging.asm` builds. -/
structure BootTables (s : State) : Prop where
  cr3_eq : s.cr3 = 0x8000
  pml4 : ∀ i : Fin 512, entry s.mem 0x8000 i = bootPml4 i
  pdpt : ∀ i : Fin 512, entry s.mem 0x9000 i = bootPdpt i
  pd : ∀ (k : Nat) (i : Fin 512), k < 8 → entry s.mem (0xA000 + k * 4096) i = bootPd (k * 512 + i)

/-- The same tables without entry 0 of the first. -/
structure KernelTables (s : State) : Prop where
  root_eq : s.root = 8
  pml4 : ∀ i : Fin 512, s.tables 8 i = if (i : Nat) = 256 then 0x9003 else 0
  pdpt : ∀ i : Fin 512, s.tables 9 i = bootPdpt i
  pd : ∀ (k : Nat) (i : Fin 512), k < 8 → s.tables (10 + k) i = bootPd (k * 512 + i)

theorem BootTables.kernelTables {s s' : State} (h : BootTables s) (hcr3 : s'.cr3 = s.cr3)
    (hmem : s'.mem = s.mem.setQword s.cr3 0) : KernelTables s' := by
  have hoff : ∀ k (i : Fin 512), k ≠ 8 → s'.tables k i = entry s.mem (k * 4096) i := by
    intro k i hk
    have hi := i.isLt
    show s'.mem.qword (k * 4096 + 8 * i) = s.mem.qword (k * 4096 + 8 * i)
    rw [hmem, h.cr3_eq]
    exact Mem.qword_setQword_disjoint (by omega)
  refine ⟨?_, fun i => ?_, fun i => ?_, fun k i hk => ?_⟩
  · rw [State.root, hcr3, h.cr3_eq]
  · have hentry : s'.tables 8 i = (s.mem.setQword 0x8000 0).qword (0x8000 + 8 * i) := by
      rw [← h.cr3_eq, ← hmem, h.cr3_eq]
      rfl
    rw [hentry]
    by_cases hz : (i : Nat) = 0
    · rw [hz, if_neg (by decide)]
      exact Mem.qword_setQword_same _ _ _
    · rw [Mem.qword_setQword_disjoint (by omega)]
      refine (h.pml4 i).trans ?_
      simp only [bootPml4, hz, false_or]
  · rw [hoff 9 i (by decide)]
    exact h.pdpt i
  · rw [hoff (10 + k) i (by omega), ← h.pd k i hk]
    congr 1
    omega

namespace KernelTables

variable {s : State}

theorem down_pml4 (h : KernelTables s) {i : Fin 512} {f : Nat}
    (hdown : pageFormat.down (s.tables 8 i) = some f) : (i : Nat) = 256 ∧ f = 9 := by
  rw [h.pml4] at hdown
  by_cases hi : (i : Nat) = 256
  · rw [if_pos hi] at hdown
    exact ⟨hi, (Option.some.inj hdown).symm⟩
  · rw [if_neg hi] at hdown
    cases hdown

theorem down_pdpt (h : KernelTables s) {i : Fin 512} {f : Nat}
    (hdown : pageFormat.down (s.tables 9 i) = some f) : (i : Nat) < 8 ∧ f = 10 + i := by
  rw [h.pdpt, bootPdpt] at hdown
  by_cases hi : (i : Nat) < 8
  · rw [if_pos hi] at hdown
    refine ⟨hi, ?_⟩
    simp only [pageFormat, and_present, and_large] at hdown
    rw [if_neg (by omega), if_neg (by omega)] at hdown
    have := Option.some.inj hdown
    omega
  · rw [if_neg hi] at hdown
    cases hdown

theorem down_pd (h : KernelTables s) {k : Nat} (hk : k < 8) (i : Fin 512) :
    pageFormat.down (s.tables (10 + k) i) = none := by
  rw [h.pd k i hk, bootPd]
  simp only [pageFormat, and_present, and_large]
  rw [if_neg (by omega), if_pos (by omega)]

/-- The walks of the tables. -/
theorem walk_cases (h : KernelTables s) {is : List (Fin 512)} {f : Nat}
    (hwalk : walk pageFormat s.tables s.root is = some f) :
    (is = [] ∧ f = 8) ∨ (∃ i : Fin 512, is = [i] ∧ (i : Nat) = 256 ∧ f = 9) ∨
      ∃ i j : Fin 512, is = [i, j] ∧ (i : Nat) = 256 ∧ (j : Nat) < 8 ∧ f = 10 + j := by
  rw [h.root_eq] at hwalk
  -- at most three tables lie on a path: entry 256 of the root leads to one, and its first 8 entries
  -- lead on
  rcases is with _ | ⟨i, _ | ⟨j, _ | ⟨k, is⟩⟩⟩
  · exact Or.inl ⟨rfl, (Option.some.inj hwalk).symm⟩
  · rw [walk_singleton] at hwalk
    obtain ⟨hi, rfl⟩ := h.down_pml4 hwalk
    exact Or.inr (Or.inl ⟨i, rfl, hi, rfl⟩)
  · rw [walk] at hwalk
    cases h₁ : pageFormat.down (s.tables 8 i) with
    | none =>
        rw [h₁] at hwalk
        cases hwalk
    | some g =>
        obtain ⟨hi, rfl⟩ := h.down_pml4 h₁
        rw [h₁] at hwalk
        simp only at hwalk
        rw [walk_singleton] at hwalk
        obtain ⟨hj, rfl⟩ := h.down_pdpt hwalk
        exact Or.inr (Or.inr ⟨i, j, rfl, hi, hj, rfl⟩)
  · -- the directories map 2 MiB pages, so no path has three steps
    exfalso
    rw [walk] at hwalk
    cases h₁ : pageFormat.down (s.tables 8 i) with
    | none =>
        rw [h₁] at hwalk
        cases hwalk
    | some g =>
        obtain ⟨hi, rfl⟩ := h.down_pml4 h₁
        rw [h₁] at hwalk
        simp only at hwalk
        rw [walk] at hwalk
        cases h₂ : pageFormat.down (s.tables 9 j) with
        | none =>
            rw [h₂] at hwalk
            cases hwalk
        | some g' =>
            obtain ⟨hj, rfl⟩ := h.down_pdpt h₂
            rw [h₂] at hwalk
            simp only at hwalk
            rw [walk, h.down_pd hj] at hwalk
            cases hwalk

/-- The tables are a tree. -/
theorem pageTree (h : KernelTables s) : s.PageTree := by
  intro p q f _ _ hp hq
  rcases h.walk_cases hp with ⟨rfl, rfl⟩ | ⟨i, rfl, hi, rfl⟩ | ⟨i, j, rfl, hi, hj, rfl⟩ <;>
    rcases h.walk_cases hq with ⟨rfl, hf⟩ | ⟨i', rfl, hi', hf⟩ | ⟨i', j', rfl, hi', hj', hf⟩ <;>
      first
        | rfl
        | (exfalso; omega)
        | simp only [List.cons.injEq, and_true, Fin.ext_iff]; omega

/-- The tables lie in the lowest 8 MiB. -/
theorem frame_lt (h : KernelTables s) {f : Nat} (hf : f ∈ s.tableFrames) : f < 18 := by
  obtain ⟨is, -, hwalk⟩ := hf
  rcases h.walk_cases hwalk with ⟨-, rfl⟩ | ⟨_, -, -, rfl⟩ | ⟨_, j, -, -, hj, rfl⟩ <;> omega

/-- The heap is not mapped. -/
theorem heap_absent (h : KernelTables s) {va : Nat} (hva : levelIndex 39 va ≠ 256) :
    vmmGetPage va s = 0 := by
  have hzero : s.tables 8 (levelIndex 39 va) = 0 := by
    rw [h.pml4, if_neg]
    intro hi
    exact hva (Fin.ext hi)
  rw [vmmGetPage_eq, h.root_eq, pathOf, lookup_level, hzero]
  rfl

end KernelTables

/-! ## `mm_init` -/

/-- The page tables are in place, and the lowest 8 MiB are in use. -/
structure Booted (s : State) : Prop where
  tables : BootTables s
  low_used : ∀ q, q < 2048 → s.pmm.bitmap.test q = true
  window : s.WindowFrames

/-- The state in which `vmm_init` allocates. -/
def State.unmapLow (s : State) : State :=
  { s with bsp_pml4 := u64 (s.cr3 + PHYSICAL_MEMORY), mem := s.mem.setQword s.cr3 0 }

theorem Booted.kernelTables {s : State} (h : Booted s) : KernelTables s.unmapLow :=
  h.tables.kernelTables rfl rfl

/-- Before `vmm_init` allocates, the heap has no blocks. -/
theorem Booted.heapInv {s : State} (h : Booted s) : HeapInv s.unmapLow [] := by
  refine ⟨h.kernelTables.pageTree, fun q hq hin => ?_, h.window, ?_, .nil⟩
  · have hfree := hq.unmarked
    have hlt := h.kernelTables.frame_lt hin
    rw [State.unmapLow, h.low_used q (by omega)] at hfree
    cases hfree
  · exact fun b hb => absurd hb List.not_mem_nil

theorem booted_pmmInit {map : E820Map} {s s₁ : State} (hboot : BootTables s)
    (hrun : pmmInit map s = .ok ((), s₁)) (hwindow : s₁.WindowFrames) : Booted s₁ := by
  obtain ⟨p, rfl, hlow⟩ := pmmInit_only hrun
  exact ⟨⟨hboot.cr3_eq, hboot.pml4, hboot.pdpt, hboot.pd⟩, hlow, hwindow⟩

/-- The block that `vmm_init` allocates. -/
def mmioBlock (s : State) : Block := ⟨s.mmio_regions, SIZEOF_MMIO * MAX_MMIO⟩

/-- After `vmm_init` the heap holds one block. -/
theorem vmmInit_spec {s s' : State} (h : Booted s) (hrun : vmmInit s = .ok ((), s')) :
    HeapInv s' [mmioBlock s'] := by
  have hsize : u64 ( SIZEOF_MMIO * MAX_MMIO) = SIZEOF_MMIO * MAX_MMIO := by decide
  rw [vmmInit, Prog.bind_ok (Prog.run_modify _ _), Prog.bind_ok (Prog.run_modify _ _)] at hrun
  obtain ⟨regions, s₂, halloc, hrest⟩ := Prog.bind_eq_ok.mp hrun
  rw [kcalloc, hsize] at halloc
  have hinv := (kmalloc_spec h.heapInv (by decide) halloc).1
  rw [Prog.bind_ok (Prog.run_modify _ _)] at hrest
  by_cases hz : regions = 0
  · rw [if_pos hz] at hrest
    cases hrest
  · rw [if_neg hz] at hrest hinv
    obtain ⟨-, rfl⟩ := Prod.mk.inj (Except.ok.inj hrest)
    exact hinv.reglobal regions 0

/-- After `mm_init` the heap holds one block. -/
theorem mmInit_spec {map : E820Map} {s s' : State} (hboot : BootTables s)
    (hwindow : ∀ s₁, pmmInit map s = .ok ((), s₁) → s₁.WindowFrames)
    (hrun : mmInit map s = .ok ((), s')) : HeapInv s' [mmioBlock s'] := by
  rw [mmInit] at hrun
  obtain ⟨_, s₁, hpmm, hvmm⟩ := Prog.bind_eq_ok.mp hrun
  exact vmmInit_spec (booted_pmmInit hboot hpmm (hwindow s₁ hpmm)) hvmm

/-! ## Histories of the heap -/

/-- One call on the heap that returns, with the live blocks. -/
inductive HeapStep : State × List Block → State × List Block → Prop where
  | kmalloc {s s' : State} {live : List Block} {n ptr : Nat} (hn : n + 16 + 4095 < 2 ^ 64)
      (hrun : kmalloc n s = .ok (ptr, s')) :
      HeapStep (s, live) (s', if ptr = 0 then live else ⟨ptr, n⟩ :: live)
  | kcalloc {s s' : State} {live : List Block} {n1 n2 ptr : Nat}
      (hn : u64 (n1 * n2) + 16 + 4095 < 2 ^ 64) (hrun : kcalloc n1 n2 s = .ok (ptr, s')) :
      HeapStep (s, live) (s', if ptr = 0 then live else ⟨ptr, u64 (n1 * n2)⟩ :: live)
  | kfree {s s' : State} {pre post : List Block} {b : Block}
      (hrun : kfree b.ptr s = .ok ((), s')) : HeapStep (s, pre ++ b :: post) (s', pre ++ post)

/-- One call keeps the invariant and the blocks that stay live. -/
theorem HeapInv.step {s s' : State} {live live' : List Block} (h : HeapInv s live)
    (hstep : HeapStep (s, live) (s', live')) :
    HeapInv s' live' ∧ ∀ b ∈ live, b ∈ live' → b.Keeps s s' := by
  cases hstep with
  | kmalloc hn hrun =>
      obtain ⟨hinv, hkeeps⟩ := kmalloc_spec h hn hrun
      exact ⟨hinv, fun b hb _ => hkeeps b hb⟩
  | kcalloc hn hrun =>
      obtain ⟨hinv, hkeeps⟩ := kmalloc_spec h hn hrun
      exact ⟨hinv, fun b hb _ => hkeeps b hb⟩
  | kfree hrun =>
      obtain ⟨hinv, hkeeps⟩ := kfree_spec h hrun
      exact ⟨hinv, fun b _ hb => hkeeps b hb⟩

/-- A history keeps the invariant. -/
theorem HeapInv.run {c c' : State × List Block} (h : HeapInv c.1 c.2)
    (hrun : ReflTransGen HeapStep c c') : HeapInv c'.1 c'.2 := by
  induction hrun with
  | refl => exact h
  | tail _ hstep ih => exact (ih.step hstep).1

/-- What holds of the live blocks. -/
structure HeapSafe (s : State) (live : List Block) : Prop where
  disjoint : live.Pairwise fun b c => ∀ i j, i < b.pages → j < c.pages →
    pageOf (b.page i) ≠ pageOf (c.page j)
  mapped : ∀ b ∈ live, ∀ i, i < b.pages → vmmGetPage (b.page i) s &&& PAGE_PRESENT ≠ 0
  used : ∀ b ∈ live, ∀ i, i < b.pages → s.pmm.bitmap.test (frameOf s (b.page i)) = true
  unshared : live.Pairwise fun b c => ∀ i j, i < b.pages → j < c.pages →
    frameOf s (b.page i) ≠ frameOf s (c.page j)
  not_table : ∀ b ∈ live, ∀ i, i < b.pages → frameOf s (b.page i) ∉ s.tableFrames
  header : ∀ b ∈ live, s.mem.qword (frameOf s (b.page 0) * 4096) = b.pages ∧
    s.mem.qword (frameOf s (b.page 0) * 4096 + 8) = b.size

theorem HeapInv.safe {s : State} {live : List Block} (h : HeapInv s live) : HeapSafe s live where
  disjoint := h.apart.imp fun hapart i j hi hj => (hapart i j hi hj).1
  mapped b hb := (h.held b hb).range.present
  used b hb := (h.held b hb).used
  unshared := h.apart.imp fun hapart i j hi hj => (hapart i j hi hj).2
  not_table b hb := (h.held b hb).not_table
  header b hb := ⟨(h.held b hb).header_pages, (h.held b hb).header_size⟩

/-- **The heap over any history.** In every state that calls of `kmalloc`, `kcalloc` and `kfree`
reach from a successful `mm_init`, the live blocks are disjoint, mapped to used frames of their own
that hold no tables, with their headers intact; and the next call changes no payload byte of a
block that stays live. -/
theorem heap_run {map : E820Map} {boot s₀ s : State} {live : List Block} (hboot : BootTables boot)
    (hwindow : ∀ s₁, pmmInit map boot = .ok ((), s₁) → s₁.WindowFrames)
    (hinit : mmInit map boot = .ok ((), s₀))
    (hrun : ReflTransGen HeapStep (s₀, [mmioBlock s₀]) (s, live)) :
    HeapSafe s live ∧ ∀ s' live', HeapStep (s, live) (s', live') → ∀ b ∈ live, b ∈ live' →
      ∀ k, k < b.size → byteAt (byteAddr b.ptr k) s' = byteAt (byteAddr b.ptr k) s ∧
        (byteAt (byteAddr b.ptr k) s).isSome := by
  have hinv : HeapInv s live := (mmInit_spec hboot hwindow hinit).run hrun
  refine ⟨hinv.safe, fun s' live' hstep b hb hb' k hk => ?_⟩
  exact ((hinv.step hstep).2 b hb hb').payload (hinv.held b hb) hk

/-! ## A machine that boots -/

/-- The words of memory that `paging.asm` writes. -/
def bootWord (j : Nat) : Nat :=
  if 4096 ≤ j ∧ j < 4608 then bootPml4 (j - 4096)
  else if 4608 ≤ j ∧ j < 5120 then bootPdpt (j - 4608)
  else if 5120 ≤ j ∧ j < 9216 then bootPd (j - 5120)
  else 0

/-- The state in which the kernel starts. -/
def State.start : State := { State.boot with mem := Mem.ofWords bootWord }

theorem bootTables_start : BootTables .start := by
  have hword : ∀ j, State.start.mem.qword (8 * j) = u64 (bootWord j) := Mem.qword_ofWords bootWord
  have hentry : ∀ k (i : Fin 512), entry State.start.mem (8 * k) i = u64 (bootWord (k + i)) := by
    intro k i
    rw [entry, ← Nat.mul_add, hword]
  refine ⟨rfl, fun i => ?_, fun i => ?_, fun k i hk => ?_⟩
  · have hi := i.isLt
    refine (hentry 4096 i).trans ?_
    rw [bootWord, if_pos (by omega), Nat.add_sub_cancel_left]
    unfold bootPml4
    split <;> rfl
  · have hi := i.isLt
    refine (hentry 4608 i).trans ?_
    rw [bootWord, if_neg (by omega), if_pos (by omega), Nat.add_sub_cancel_left]
    unfold bootPdpt
    split
    · exact u64_of_lt (by omega)
    · rfl
  · have hi := i.isLt
    have haddr : 0xA000 + k * 4096 = 8 * (5120 + k * 512) := by omega
    have hindex : 5120 + k * 512 + (i : Nat) - 5120 = k * 512 + i := by omega
    rw [haddr, hentry, bootWord, if_neg (by omega), if_neg (by omega), if_pos (by omega), hindex]
    unfold bootPd
    exact u64_of_lt (by omega)

/-- The first pages of the heap are not mapped. -/
theorem KernelTables.heap_pages {s : State} (h : KernelTables s) {i : Nat} (hi : i < 2 ^ 20) :
    vmmGetPhysical (pageAt KERNEL_HEAP i) s = none := by
  have hpage : pageAt KERNEL_HEAP i = KERNEL_HEAP + i * 4096 := by
    unfold pageAt u64 KERNEL_HEAP
    omega
  have hwindow : ¬ InWindow (pageAt KERNEL_HEAP i) := by
    rw [hpage]
    unfold InWindow MMIO_REGION KERNEL_HEAP
    omega
  have hslot : levelIndex 39 (pageAt KERNEL_HEAP i) ≠ 256 := by
    intro heq
    have hval : (levelIndex 39 (pageAt KERNEL_HEAP i) : Nat) = 256 := congrArg Fin.val heq
    rw [levelIndex_val, hpage] at hval
    unfold KERNEL_HEAP at hval
    omega
  exact vmmGetPhysical_none.mpr ⟨hwindow, by rw [h.heap_absent hslot]; rfl⟩

section Flat

variable {n : Nat} (hn : 4096 ≤ n) (hfits : n < 2 ^ 27)

include hn hfits

/-- The pages above 8 MiB are free. -/
theorem flatPmm_room {k : Nat} (hk : k + 2050 ≤ n) : (flatPmm n).Room k := by
  obtain ⟨hhigh, htotal, hused⟩ := flatPmm_globals (show 0 < n by omega) (by omega)
  refine ⟨⟨by omega, ?_⟩, ⟨Finset.Ico 2048 (2048 + k), by simp, fun q hq => ?_⟩, by omega,
    by omega⟩
  · rw [← Bool.not_eq_false]
    intro hfree
    exact absurd ((flatPmm_free hn (by omega) (show 0 < n by omega)).mp hfree) (by decide)
  · obtain ⟨hlow, hlt⟩ := Finset.mem_Ico.mp hq
    refine ⟨Nat.mul_mod_left _ _, by omega, ?_⟩
    rw [Nat.mul_div_cancel _ (by decide)]
    exact (flatPmm_free hn (by omega) (by omega)).mpr hlow

theorem flatPmm_window {q : Nat} (hq : (flatPmm n).Free q) : q < 2 ^ 27 := by
  obtain ⟨hhigh, -, -⟩ := flatPmm_globals (show 0 < n by omega) (by omega)
  have hbelow := hq.below
  omega

end Flat

/-- The globals for the MMIO regions play no part. -/
theorem Ready.reglobal {s : State} {live : List Block} {k more room : Nat}
    (h : Ready s live k more room) (regions count : Nat) :
    Ready { s with mmio_regions := regions, mmio_region_count := count } live k more room :=
  ⟨h.inv.reglobal regions count, h.heap_free, h.vmm_free, h.pmm_free, h.room,
    ⟨h.packed.mapped, h.packed.absent⟩, h.bound⟩

/-- No device memory is mapped yet. -/
theorem KernelTables.mmio_pages {s : State} (h : KernelTables s) {i : Nat} (hi : i < 2 ^ 27) :
    vmmGetPhysical (pageAt MMIO_REGION i) s = none := by
  have hpage : pageAt MMIO_REGION i = MMIO_REGION + i * 4096 := by
    unfold pageAt u64 MMIO_REGION
    omega
  have hwindow : ¬ InWindow (pageAt MMIO_REGION i) := by
    rw [hpage]
    unfold InWindow
    omega
  have hslot : levelIndex 39 (pageAt MMIO_REGION i) ≠ 256 := by
    intro heq
    have hval : (levelIndex 39 (pageAt MMIO_REGION i) : Nat) = 256 := congrArg Fin.val heq
    rw [levelIndex_val, hpage] at hval
    unfold MMIO_REGION at hval
    omega
  exact vmmGetPhysical_none.mpr ⟨hwindow, by rw [h.heap_absent hslot]; rfl⟩

/-- A block of the heap is not device memory. -/
theorem Obtains.mmio_pages {s s₁ s₂ : State} {n k : Nat} {frames : List Nat} {new : Finset Nat}
    (h : Obtains s s₁ s₂ n (KERNEL_HEAP + k * 4096) frames new) (hfresh : s.FreshFrames)
    (hk : k + frames.length < 2 ^ 27) {i : Nat} (hi : i < 2 ^ 27) :
    vmmGetPhysical (pageAt MMIO_REGION i) s₂ = vmmGetPhysical (pageAt MMIO_REGION i) s := by
  have hpage : vmmGetPage (pageAt MMIO_REGION i) s₁ = vmmGetPage (pageAt MMIO_REGION i) s := by
    refine h.backs.other _ fun j hj => ?_
    have hmmio : MMIO_REGION = 0xFFFF808000000000 := rfl
    have hheap : KERNEL_HEAP = 0xFFFF810000000000 := rfl
    rw [pageOf_pageAt (by decide), pageOf_pageAt h.aligned]
    omega
  rw [h.stores.getPhysical_eq fun q hq => h.backs.frame_not_table hfresh hq, vmmGetPhysical,
    vmmGetPhysical, hpage]

/-- After `mm_init` the table of the MMIO regions is the only block, and no device memory is
mapped. -/
structure Started (s : State) (room : Nat) : Prop where
  free : ∀ m, s.mutexes m = false
  ready : Ready s [mmioBlock s] 705 (2 ^ 20 - 705) room
  regions_eq : s.mmio_regions = heapPtr 0
  count_eq : s.mmio_region_count = 0
  mmio_absent : ∀ i, i < 2 ^ 27 → vmmGetPhysical (pageAt MMIO_REGION i) s = none

/-- With room for the MMIO regions, `vmm_init` returns. -/
theorem vmmInit_returns {s : State} (h : Booted s) (hm : ∀ m, s.mutexes m = false) {room : Nat}
    (hroom : s.pmm.Room (2820 + room)) : ∃ s', vmmInit s = .ok ((), s') ∧ Started s' room := by
  have hsize : u64 ( SIZEOF_MMIO * MAX_MMIO) = SIZEOF_MMIO * MAX_MMIO := by decide
  have hpages : ( SIZEOF_MMIO * MAX_MMIO + 16 + 4095) / 4096 = 705 := by decide
  have hready : Ready s.unmapLow [] 0 (705 + (2 ^ 20 - 705)) (4 * 705 + room) := by
    refine ⟨h.heapInv, hm _, hm _, hm _, hroom, ⟨fun i hi => absurd hi (Nat.not_lt_zero i),
      fun i hi => ?_⟩, by decide⟩
    rw [Nat.zero_add]
    exact h.kernelTables.heap_pages (by omega)
  rw [← hpages] at hready
  obtain ⟨s₂, halloc, hm₂, hready₂⟩ := kmalloc_returns hready
  rw [hpages, Nat.zero_add] at hready₂
  refine ⟨{ s₂ with mmio_regions := heapPtr 0, mmio_region_count := 0 }, ?_,
    fun m => (congrFun hm₂ m).trans (hm m), hready₂.reglobal _ 0, rfl, rfl, fun i hi => ?_⟩
  · rw [vmmInit, Prog.bind_ok (Prog.run_modify _ _), Prog.bind_ok (Prog.run_modify _ _), kcalloc,
      hsize]
    refine (Prog.bind_ok halloc).trans ?_
    rw [Prog.bind_ok (Prog.run_modify _ _), if_neg (heapPtr_ne 0)]
    rfl
  · rcases kmalloc_ok h.heapInv.tree h.heapInv.fresh h.heapInv.window (by decide) halloc with
      ⟨hnull, -⟩ | ⟨t₁, t₂, m, p, frames, new, hnew, hp, rfl⟩
    · exact absurd hnull (heapPtr_ne 0)
    · obtain rfl : p = KERNEL_HEAP + 0 * 4096 := Nat.add_right_cancel hp.symm
      have hlen := hnew.length_eq
      refine (hnew.mmio_pages h.heapInv.fresh (by omega) hi).trans ?_
      exact h.kernelTables.mmio_pages hi

/-- The state after `pmm_init` on a machine with `n` pages of memory. -/
theorem booted_flat {n : Nat} (hn : 4096 ≤ n) (hfits : n < 2 ^ 27) :
    Booted (State.start.withPmm (flatPmm n)) :=
  booted_pmmInit bootTables_start (pmmInit_flat hn (by omega) rfl) fun _ hq =>
    flatPmm_window hn hfits hq

theorem window_flat {n : Nat} (hn : 4096 ≤ n) (hfits : n < 2 ^ 27) {s₁ : State}
    (hrun : pmmInit (flatMap n) .start = .ok ((), s₁)) : s₁.WindowFrames := by
  rw [pmmInit_flat hn (by omega) rfl] at hrun
  obtain ⟨-, rfl⟩ := Prod.mk.inj (Except.ok.inj hrun)
  exact fun _ hq => flatPmm_window hn hfits hq

/-- With enough memory `mm_init` returns. -/
theorem mmInit_flat {n room : Nat} (hn : 4870 + room ≤ n) (hfits : n < 2 ^ 27) :
    ∃ s, mmInit (flatMap n) .start = .ok ((), s) ∧ Started s room := by
  have hlow : 4096 ≤ n := by omega
  have hpmm := pmmInit_flat hlow (by omega) (s := .start) rfl
  have hroom : (flatPmm n).Room (2820 + room) := flatPmm_room hlow hfits (by omega)
  obtain ⟨s', hvmm, hstarted⟩ := vmmInit_returns (booted_flat hlow hfits) (fun _ => rfl) hroom
  exact ⟨s', by rw [mmInit, Prog.bind_ok hpmm, hvmm], hstarted⟩

/-! ## A history with three blocks -/

/-- The heap between two calls. -/
structure Idle (s : State) (live : List Block) : Prop where
  inv : HeapInv s live
  vmm_free : s.mutexes .vmm_mutex = false
  pmm_free : s.mutexes .pmm_mutex = false

theorem Ready.idle {s : State} {live : List Block} {k more room : Nat}
    (h : Ready s live k more room) : Idle s live :=
  ⟨h.inv, h.vmm_free, h.pmm_free⟩

/-- A block of the heap can be freed. -/
theorem Idle.frees {s : State} {pre post : List Block} {k n : Nat}
    (h : Idle s (pre ++ ⟨heapPtr k, n⟩ :: post))
    (hk : k + (⟨heapPtr k, n⟩ : Block).pages ≤ 2 ^ 32) :
    ∃ s', kfree (heapPtr k) s = .ok ((), s') ∧ s'.mutexes = s.mutexes ∧ Idle s' (pre ++ post) := by
  have hheld : (⟨heapPtr k, n⟩ : Block).Held s := h.inv.held _ (by simp)
  have hcanonical : ∀ i, i < (⟨heapPtr k, n⟩ : Block).pages →
      Canonical ((⟨heapPtr k, n⟩ : Block).page i) := fun i hi => canonical_heap (by omega)
  obtain ⟨s', hrun, hm⟩ :=
    kfree_returns h.inv.tree hheld hcanonical h.vmm_free h.pmm_free
  refine ⟨s', hrun, hm, (kfree_spec h.inv hrun).1, ?_, ?_⟩
  · exact (congrFun hm _).trans h.vmm_free
  · exact (congrFun hm _).trans h.pmm_free

/-- `mm_init` on a machine with 64 MiB, and then blocks of 1, 1 and 5000 bytes. -/
structure ThreeBlocks (s₀ s₁ s₂ s₃ : State) : Prop where
  init : mmInit (flatMap 16384) .start = .ok ((), s₀)
  first : kmalloc 1 s₀ = .ok (heapPtr 705, s₁)
  second : kmalloc 1 s₁ = .ok (heapPtr 706, s₂)
  third : kmalloc 5000 s₂ = .ok (heapPtr 707, s₃)
  ready₀ : Ready s₀ [mmioBlock s₀] 705 4 24
  ready₁ : Ready s₁ [⟨heapPtr 705, 1⟩, mmioBlock s₀] 706 3 20
  ready₂ : Ready s₂ [⟨heapPtr 706, 1⟩, ⟨heapPtr 705, 1⟩, mmioBlock s₀] 707 2 16
  ready₃ : Ready s₃ [⟨heapPtr 707, 5000⟩, ⟨heapPtr 706, 1⟩, ⟨heapPtr 705, 1⟩, mmioBlock s₀] 709 0 8

theorem three_blocks : ∃ s₀ s₁ s₂ s₃, ThreeBlocks s₀ s₁ s₂ s₃ := by
  obtain ⟨s₀, hinit, hstarted⟩ := mmInit_flat (show 4870 + 24 ≤ 16384 by decide) (by decide)
  have hready := hstarted.ready.mono (show 4 ≤ 2 ^ 20 - 705 by decide) le_rfl
  have hone : (1 + 16 + 4095) / 4096 = 1 := by decide
  have htwo : (5000 + 16 + 4095) / 4096 = 2 := by decide
  obtain ⟨s₁, hrun₁, -, hready₁⟩ := hready.grants 1 3 20 (by decide) (by decide)
  rw [hone] at hready₁
  obtain ⟨s₂, hrun₂, -, hready₂⟩ := hready₁.grants 1 2 16 (by decide) (by decide)
  rw [hone] at hready₂
  obtain ⟨s₃, hrun₃, -, hready₃⟩ := hready₂.grants 5000 0 8 (by decide) (by decide)
  rw [htwo] at hready₃
  exact ⟨s₀, s₁, s₂, s₃, hinit, hrun₁, hrun₂, hrun₃, hready, hready₁, hready₂, hready₃⟩

theorem heapStep_kmalloc {s s' : State} {live : List Block} {n ptr : Nat}
    (hn : n + 16 + 4095 < 2 ^ 64) (hne : ptr ≠ 0) (hrun : kmalloc n s = .ok (ptr, s')) :
    HeapStep (s, live) (s', ⟨ptr, n⟩ :: live) := by
  have hstep : HeapStep (s, live) (s', if ptr = 0 then live else ⟨ptr, n⟩ :: live) :=
    .kmalloc hn hrun
  rwa [if_neg hne] at hstep

/-- The history of these calls. -/
theorem ThreeBlocks.history {s₀ s₁ s₂ s₃ : State} (h : ThreeBlocks s₀ s₁ s₂ s₃) :
    ReflTransGen HeapStep (s₀, [mmioBlock s₀])
      (s₃, [⟨heapPtr 707, 5000⟩, ⟨heapPtr 706, 1⟩, ⟨heapPtr 705, 1⟩, mmioBlock s₀]) := by
  have hfirst : HeapStep (s₀, [mmioBlock s₀]) (s₁, [⟨heapPtr 705, 1⟩, mmioBlock s₀]) :=
    heapStep_kmalloc (by decide) (heapPtr_ne _) h.first
  have hsecond : HeapStep (s₁, [⟨heapPtr 705, 1⟩, mmioBlock s₀])
      (s₂, [⟨heapPtr 706, 1⟩, ⟨heapPtr 705, 1⟩, mmioBlock s₀]) :=
    heapStep_kmalloc (by decide) (heapPtr_ne _) h.second
  have hthird : HeapStep (s₂, [⟨heapPtr 706, 1⟩, ⟨heapPtr 705, 1⟩, mmioBlock s₀])
      (s₃, [⟨heapPtr 707, 5000⟩, ⟨heapPtr 706, 1⟩, ⟨heapPtr 705, 1⟩, mmioBlock s₀]) :=
    heapStep_kmalloc (by decide) (heapPtr_ne _) h.third
  exact .tail (.tail (.single hfirst) hsecond) hthird

/-- With three blocks and the table of the MMIO regions live, the block in the middle is freed: the
other two keep their bytes, and the heap is safe before and after. -/
theorem heap_run_freed : ∃ s₀ s s', mmInit (flatMap 16384) .start = .ok ((), s₀) ∧
    HeapSafe s [⟨heapPtr 707, 5000⟩, ⟨heapPtr 706, 1⟩, ⟨heapPtr 705, 1⟩, mmioBlock s₀] ∧
    kfree (heapPtr 706) s = .ok ((), s') ∧
    HeapSafe s' [⟨heapPtr 707, 5000⟩, ⟨heapPtr 705, 1⟩, mmioBlock s₀] ∧
    ∀ b ∈ [⟨heapPtr 707, 5000⟩, ⟨heapPtr 705, 1⟩, mmioBlock s₀], ∀ k, k < b.size →
      byteAt (byteAddr b.ptr k) s' = byteAt (byteAddr b.ptr k) s ∧
        (byteAt (byteAddr b.ptr k) s).isSome := by
  obtain ⟨s₀, s₁, s₂, s, h⟩ := three_blocks
  have hidle : Idle s ([⟨heapPtr 707, 5000⟩] ++ ⟨heapPtr 706, 1⟩ ::
      [⟨heapPtr 705, 1⟩, mmioBlock s₀]) := h.ready₃.idle
  obtain ⟨s', hfree, -, -⟩ := hidle.frees (by decide)
  have hstep : HeapStep
      (s, [⟨heapPtr 707, 5000⟩] ++ ⟨heapPtr 706, 1⟩ :: [⟨heapPtr 705, 1⟩, mmioBlock s₀])
      (s', [⟨heapPtr 707, 5000⟩] ++ [⟨heapPtr 705, 1⟩, mmioBlock s₀]) := .kfree hfree
  have hwindow : ∀ s₁, pmmInit (flatMap 16384) .start = .ok ((), s₁) → s₁.WindowFrames :=
    fun _ hrun => window_flat (by decide) (by decide) hrun
  obtain ⟨hsafe, hframe⟩ := heap_run bootTables_start hwindow h.init h.history
  obtain ⟨hsafe', -⟩ := heap_run bootTables_start hwindow h.init (h.history.tail hstep)
  refine ⟨s₀, s, s', h.init, hsafe, hfree, hsafe', fun b hb k hk => ?_⟩
  refine hframe s' _ hstep b ?_ hb k hk
  simp only [List.mem_cons, List.not_mem_nil, or_false] at hb ⊢
  rcases hb with hb | hb | hb
  · exact .inl hb
  · exact .inr (.inr (.inl hb))
  · exact .inr (.inr (.inr hb))

end Windozz.Kernel

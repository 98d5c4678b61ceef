import Windozz.Kernel.Boot

set_option autoImplicit false

/-! # Sizes of requests

`kmalloc` adds the header to the size and rounds up to pages, and `kcalloc` multiplies first; all
three steps wrap at 64 bits. `Honest` says what a request of a given size should do, the size taken
as an unbounded number. `honest_iff` says for which sizes it does.

A request that wraps asks for the pages of another size (`kmallocPages`). It is refused for sure only
if these are so many that no range above the window holds them (`vmmFind_wide`). Otherwise there is a
state of the heap in which it is not refused (`kmalloc_not_null`).
-/

namespace Windozz.Kernel

open Radix

/-! ## Requests -/

/-- No mutex that a heap call takes is held. -/
structure State.Unlocked (s : State) : Prop where
  heap_free : s.mutexes .heap_mutex = false
  vmm_free : s.mutexes .vmm_mutex = false
  pmm_free : s.mutexes .pmm_mutex = false

/-- What a request for `want` bytes should do: a block that it returns has so many bytes, all of them
mapped and zero, and a size that does not fit 64 bits with the header and the rounding is refused. -/
structure Honest (want : Nat) (request : K Nat) : Prop where
  zeroed : ∀ {s live ptr s'}, HeapInv s live → request s = .ok (ptr, s') → ptr ≠ 0 →
    ∀ k, k < want → byteAt (byteAddr ptr k) s' = some 0
  refused : 2 ^ 64 ≤ want + 16 + 4095 → ∀ {s live}, HeapInv s live → s.Unlocked →
    ∃ s', request s = .ok (0, s')

theorem kmallocPages_lt (n : Nat) : kmallocPages n < 2 ^ 52 := by
  have hlt := u64_lt (u64 (n + 16) + 4095)
  unfold kmallocPages
  omega

/-! ## `kmalloc` and `vmm_alloc` -/

/-- The state in which `kmalloc` calls `vmm_alloc`. -/
def State.heapHeld (s : State) : State :=
  { s with mutexes := Function.update s.mutexes .heap_mutex true }

/-- When `vmm_alloc` refuses, so does `kmalloc`. -/
theorem kmalloc_null {s s₁ : State} {n : Nat} (hheap : s.mutexes .heap_mutex = false)
    (halloc : vmmAlloc KERNEL_HEAP (kmallocPages n) KERNEL_HEAP_FLAGS s.heapHeld = .ok (0, s₁)) :
    ∃ s', kmalloc n s = .ok (0, s') := by
  refine ⟨{ s₁ with mutexes := Function.update s₁.mutexes .heap_mutex false }, ?_⟩
  rw [kmalloc, Prog.bind_ok (acquire_free hheap)]
  exact Prog.bind_ok halloc

/-- Only then. -/
theorem kmalloc_refused {s s' : State} {n : Nat} (hrun : kmalloc n s = .ok (0, s')) :
    ∃ s₁, vmmAlloc KERNEL_HEAP (kmallocPages n) KERNEL_HEAP_FLAGS s.heapHeld = .ok (0, s₁) := by
  rw [kmalloc] at hrun
  obtain ⟨_, s₀, hacquire, hrun₁⟩ := Prog.bind_eq_ok.mp hrun
  obtain ⟨p, s₁, halloc, hrun₂⟩ := Prog.bind_eq_ok.mp hrun₁
  obtain rfl := acquire_ok hacquire
  by_cases hp : p = 0
  · exact ⟨s₁, hp ▸ halloc⟩
  · rw [if_neg hp] at hrun₂
    obtain ⟨halign, hlt, -⟩ := vmmFind_unmapped (by decide) (vmmAlloc_find hp halloc) hp
    obtain ⟨_, s₂, -, hrun₃⟩ := Prog.bind_eq_ok.mp hrun₂
    obtain ⟨_, s₃, -, hrun₄⟩ := Prog.bind_eq_ok.mp hrun₃
    obtain ⟨_, s₄, -, hrun₅⟩ := Prog.bind_eq_ok.mp hrun₄
    have hptr : u64 (p + 16) = 0 := (Prod.mk.inj (Except.ok.inj hrun₅)).1
    have hheap : KERNEL_HEAP % 4096 = 0 := rfl
    unfold u64 at hptr
    omega

/-- A call that returns has found the mutex free. -/
theorem kmalloc_free {s s' : State} {n ptr : Nat} (hrun : kmalloc n s = .ok (ptr, s')) :
    s.mutexes .heap_mutex = false := by
  rw [← Bool.not_eq_true]
  intro hheld
  rw [kmalloc, Prog.bind_error (acquire_held hheld)] at hrun
  cases hrun

/-! ## Requests that fit -/

/-- The bytes of a block that was granted are mapped and zero. -/
theorem Grants.byteAt {s s₁ s₂ : State} {n p : Nat} {frames : List Nat} {new : Finset Nat}
    (h : Grants s s₁ s₂ n p frames new) (hfresh : s.FreshFrames) (hwindow : s.WindowFrames)
    (hn : n + 16 + 4095 < 2 ^ 64) {k : Nat} (hk : k < n) :
    byteAt (byteAddr (p + 16) k) s₂ = some 0 := by
  obtain ⟨hspan, hframes⟩ := span_backed h.backs hfresh hwindow h.aligned h.absent
  have hstores : Stores s₁ s₂ (spanFrames s₁ p frames.length) := hframes ▸ h.stores
  have hlen := h.length_eq.trans (kmallocPages_of_lt hn)
  have hact : u64 (n + 16) = n + 16 := u64_of_lt (by omega)
  have haddr : byteAddr (p + 16) k = byteAddr p (16 + k) := by
    rw [byteAddr, byteAddr, Nat.add_assoc]
  rw [haddr, (hstores.span hspan.not_table hspan).byteAt (by omega),
    hstores.physAt_eq hspan.not_table, h.zeroed _ (by omega) (by omega)]

/-- Sizes that fit with the header and the rounding are honest. -/
theorem honest_small {n : Nat} (hn : n + 16 + 4095 < 2 ^ 64) : Honest n (kmalloc n) := by
  refine ⟨fun {s live ptr s'} h hrun hne k hk => ?_, fun hlarge => absurd hn (not_lt.mpr hlarge)⟩
  rcases kmalloc_grants h.tree h.fresh h.window hrun with
    ⟨hnull, -⟩ | ⟨s₁, s₂, m, p, frames, new, hgrants, rfl, rfl⟩
  · exact absurd hnull hne
  · exact hgrants.byteAt h.fresh h.window hn hk

/-! ## Requests for too many pages -/

/-- No range above the window has more than `2 ^ 52 - 2 ^ 28` pages. -/
theorem vmmFind_wide {count : Nat} (hwide : 2 ^ 52 - 2 ^ 28 < count) (hcount : count < 2 ^ 52)
    (s : State) : vmmFind KERNEL_HEAP count s = some 0 := by
  have hheap : KERNEL_HEAP = 0xFFFF810000000000 := rfl
  have hwindow : PHYSICAL_MEMORY = 0xFFFF800000000000 := rfl
  refine vmmFind_null (k := 0x7F0000000) (by decide) (by decide) (by decide) (by omega) ?_ ?_
  · unfold pageAt u64
    omega
  · intro j hj hfree
    -- the page of the range at the bottom of the window
    have hpage : pageAt (KERNEL_HEAP + j * 4096) (2 ^ 52 - 2 ^ 28 - j) = PHYSICAL_MEMORY := by
      unfold pageAt u64
      omega
    have hnone := hfree (2 ^ 52 - 2 ^ 28 - j) (by omega)
    rw [hpage] at hnone
    exact (vmmGetPhysical_none.mp hnone).1 (by decide)

/-- A request for so many pages is refused. -/
theorem kmalloc_wide {s : State} {n : Nat} (hwide : 2 ^ 52 - 2 ^ 28 < kmallocPages n)
    (hheap : s.mutexes .heap_mutex = false) : ∃ s', kmalloc n s = .ok (0, s') := by
  have hfind := vmmFind_wide hwide (kmallocPages_lt n) s.heapHeld
  have halloc : vmmAlloc KERNEL_HEAP (kmallocPages n) KERNEL_HEAP_FLAGS s.heapHeld
      = .ok (0, s.heapHeld) := by
    rw [vmmAlloc, Prog.bind_ok (Prog.run_get _), hfind]
    split <;> rfl
  exact kmalloc_null hheap halloc

/-! ## Requests that are not refused -/

/-- A manager with one free page, the page 2048, and counters that say more. -/
def Pmm.oneFree : Pmm :=
  { pmmMarkPageUsed 0x801000 (.clean 0x802000) with total_pages := 2 ^ 64 - 1, used_pages := 0 }

theorem test_oneFree (q : Nat) :
    Pmm.oneFree.bitmap.test q = (decide (q < 2048) || decide (2049 = q)) := by
  have htest := test_markPageUsed 0x801000 (.clean 0x802000) q
  rw [test_clean] at htest
  exact htest

theorem highest_oneFree : Pmm.oneFree.highest_usable_address = 0x802000 :=
  highest_markPageUsed 0x801000 (.clean 0x802000)

theorem scannable_oneFree : Pmm.oneFree.Scannable :=
  ⟨by rw [highest_oneFree]; decide, by rw [test_oneFree]; rfl⟩

theorem supply_oneFree : Pmm.oneFree.Supply 1 := by
  refine ⟨{2048}, by simp, fun q hq => ?_⟩
  rw [Finset.mem_singleton.mp hq]
  exact ⟨rfl, by rw [highest_oneFree]; decide, by rw [test_oneFree]; rfl⟩

/-- The page that may be handed out. -/
theorem free_oneFree {q : Nat} (h : Pmm.oneFree.Free q) : q = 2048 := by
  have hbelow := h.below
  have hunused := h.unmarked
  rw [highest_oneFree] at hbelow
  rw [test_oneFree, Bool.or_eq_false_iff, decide_eq_false_iff_not, decide_eq_false_iff_not] at hunused
  omega

/-- When it was taken, none is left. -/
theorem findPage_oneFree {p : Pmm} {q : Nat} (h : Takes .oneFree p {q}) : pmmFindPage p = some 0 := by
  have hhigh : p.highest_usable_address = 0x802000 := h.highest_eq.trans highest_oneFree
  have hq := free_oneFree (h.free q (Finset.mem_singleton_self q))
  refine pmmFindPage_null (by rw [hhigh]; decide) (by rw [hhigh]; decide) fun r hr => ?_
  obtain ⟨halign, hlt, hfree⟩ := hr
  rw [h.test_eq, test_oneFree, hq, Bool.or_eq_false_iff, Bool.or_eq_false_iff,
    decide_eq_false_iff_not, decide_eq_false_iff_not, decide_eq_false_iff_not,
    Finset.mem_singleton] at hfree
  rw [hhigh] at hlt
  omega

/-- Without a page for a table, `vmm_map_page` ends in its `while(1)`. -/
theorem vmmMapPage_hangs {s : State} (hmem : s.mem = fun _ => 0)
    (hm : s.mutexes .pmm_mutex = false) (hnone : pmmFindPage s.pmm = some 0)
    (virtual physical flags : Nat) : vmmMapPage virtual physical flags s = .error .hang := by
  have hnull := pmmAllocPage_run hm
  rw [hnone] at hnull
  have habsent : entry s.mem (pageMask s.cr3) (tableIndex 39 (virtual &&& 0xFFFFFFFFFFFF))
      &&& PAGE_PRESENT = 0 := by
    have hzero := tables_empty hmem s.root (levelIndex 39 virtual)
    have hentry : entry s.mem (pageMask s.cr3) (tableIndex 39 (virtual &&& 0xFFFFFFFFFFFF)) = 0 :=
      hzero
    rw [hentry]
    rfl
  have htable : vmmNextTable (pageMask s.cr3) (tableIndex 39 (virtual &&& 0xFFFFFFFFFFFF)) s
      = .error .hang := by
    rw [vmmNextTable, Prog.bind_ok (Prog.run_get _), if_pos habsent, Prog.bind_ok hnull]
    rfl
  rw [vmmMapPage, Prog.bind_ok (Prog.run_get _), Prog.bind_error htable]

/-- The heap without a block, over one free page. -/
def State.oneFree : State := State.boot.withPmm .oneFree

theorem heapInv_oneFree : HeapInv State.oneFree [] := by
  refine ⟨pageTree_empty rfl, freshFrames_empty rfl ?_, fun q hq => ?_, ?_, .nil⟩
  · exact (test_oneFree 8).trans rfl
  · rw [free_oneFree hq]
    decide
  · exact fun b hb => absurd hb List.not_mem_nil

/-- The first range is found, unless it reaches into the window. -/
theorem vmmFind_oneFree {s : State} (hmem : s.mem = fun _ => 0) {count : Nat}
    (hle : count ≤ 2 ^ 52 - 2 ^ 28) : vmmFind KERNEL_HEAP count s = some KERNEL_HEAP := by
  have hheap : KERNEL_HEAP = 0xFFFF810000000000 := rfl
  have hfree : ∀ i, i ≤ count → i < 2 ^ 52 - 2 ^ 28 →
      vmmGetPhysical (pageAt KERNEL_HEAP i) s = none := by
    intro i _ hi
    refine vmmGetPhysical_none.mpr ⟨?_, by rw [vmmGetPage_empty hmem]; rfl⟩
    unfold InWindow PHYSICAL_MEMORY MMIO_REGION pageAt u64
    omega
  have hfuel : (2 : Nat) ^ 128 = (2 ^ 128 - 1) + 1 := by norm_num
  have hzero := hfree 0 (Nat.zero_le _) (by decide)
  by_cases hpos : count = 0
  · rw [vmmFind, hfuel, findLoop, if_pos (Or.inr (by decide)), if_pos hzero, if_pos (by omega)]
  · exact findLoop_first (by decide) (by omega) (fun i hi => hfree i (by omega) (by omega)) _ 0
      (by omega) (by omega)

/-- There `vmm_alloc` refuses no request: it returns a range of no pages, or hangs. -/
theorem vmmAlloc_oneFree {s s' : State} (hmem : s.mem = fun _ => 0) (hpmm : s.pmm = .oneFree)
    (hm : s.mutexes .pmm_mutex = false) {count flags : Nat} (hle : count ≤ 2 ^ 52 - 2 ^ 28) :
    vmmAlloc KERNEL_HEAP count flags s ≠ .ok (0, s') := by
  intro hrun
  -- by the counters 2^64 - 1 pages are left, so no request is refused
  have hguard : ¬ u64 (s.pmm.total_pages + (2 ^ 64 - u64 s.pmm.used_pages)) ≤ count := by
    have hspare : u64 (s.pmm.total_pages + (2 ^ 64 - u64 s.pmm.used_pages)) = 2 ^ 64 - 1 := by
      rw [hpmm]
      decide
    omega
  rw [vmmAlloc, Prog.bind_ok (Prog.run_get _), if_neg hguard, vmmFind_oneFree hmem hle] at hrun
  simp only at hrun
  rw [if_neg (by decide)] at hrun
  obtain ⟨_, s₁, hacquire, hrun⟩ := Prog.bind_eq_ok.mp hrun
  obtain rfl := acquire_ok hacquire
  obtain ⟨done, s₂, hloop, hrun⟩ := Prog.bind_eq_ok.mp hrun
  rw [Prog.bind_ok (run_release _ _)] at hrun
  cases count with
  | zero =>
      obtain ⟨rfl, -⟩ := Prod.mk.inj (Except.ok.inj hloop)
      exact absurd (Prod.mk.inj (Except.ok.inj hrun)).1 (by decide)
  | succ count =>
      rw [allocLoop] at hloop
      obtain ⟨phys, s₃, halloc, hloop⟩ := Prog.bind_eq_ok.mp hloop
      obtain ⟨page, hne, hpage⟩ := pmmAllocPage_returns
        (s := { s with mutexes := Function.update s.mutexes .vmm_mutex true }) (by simpa using hm)
        (hpmm ▸ scannable_oneFree) (hpmm ▸ supply_oneFree)
      rw [hpage] at halloc
      obtain ⟨rfl, rfl⟩ := Prod.mk.inj (Except.ok.inj halloc)
      rw [if_neg hne] at hloop
      obtain ⟨-, -, -, hfree, -⟩ := pmmAllocPage_ok hpage hne
      have htakes : Takes s.pmm (pmmMarkPageUsed page s.pmm) {page / 4096} :=
        takes_markPageUsed hfree
      -- the only free page goes to the range, and none is left for its tables
      have hnone : pmmFindPage (pmmMarkPageUsed page s.pmm) = some 0 :=
        findPage_oneFree (q := page / 4096) (by rwa [← hpmm])
      have hhang := vmmMapPage_hangs
        (s := State.withPmm { s with mutexes := Function.update s.mutexes .vmm_mutex true }
          (pmmMarkPageUsed page s.pmm)) hmem (by simpa [State.withPmm] using hm) hnone
      rw [Prog.bind_error (hhang _ _ _)] at hloop
      cases hloop

/-- Hence neither does `kmalloc`. -/
theorem kmalloc_not_null {n : Nat} (hle : kmallocPages n ≤ 2 ^ 52 - 2 ^ 28) {s' : State} :
    kmalloc n State.oneFree ≠ .ok (0, s') := by
  intro hrun
  obtain ⟨s₁, halloc⟩ := kmalloc_refused hrun
  exact vmmAlloc_oneFree (s := State.oneFree.heapHeld) rfl rfl rfl hle halloc

/-! ## Which sizes are honest -/

/-- Sizes modulo `2 ^ 64`, as `kmalloc` gets them from `kcalloc`. -/
theorem honest_wrapped (want : Nat) : Honest want (kmalloc (u64 want)) ↔
    want + 16 + 4095 < 2 ^ 64 ∨ 2 ^ 52 - 2 ^ 28 < kmallocPages (u64 want) := by
  constructor
  · intro h
    by_contra hnot
    rw [not_or, not_lt, not_lt] at hnot
    obtain ⟨s', hrun⟩ := h.refused hnot.1 heapInv_oneFree ⟨rfl, rfl, rfl⟩
    exact kmalloc_not_null hnot.2 hrun
  · rintro (hsmall | hwide)
    · rw [u64_of_lt (by omega)]
      exact honest_small hsmall
    · refine ⟨fun {s live ptr s'} _ hrun hne => ?_, fun _ s live _ hfree =>
        kmalloc_wide hwide hfree.heap_free⟩
      obtain ⟨s₁, hnull⟩ := kmalloc_wide hwide (kmalloc_free hrun)
      rw [hrun] at hnull
      exact absurd (Prod.mk.inj (Except.ok.inj hnull)).1 hne

/-- The size of a request whose sum wraps asks for at most one page. -/
theorem kmallocPages_wrapped {n : Nat} (hn : n < 2 ^ 64) (hlarge : 2 ^ 64 ≤ n + 16 + 4095) :
    kmallocPages n ≤ 1 := by
  unfold kmallocPages u64
  omega

/-- **Sizes of requests.** `kmalloc` is honest about a size exactly when it fits 64 bits with the
header and the rounding. `kcalloc` is honest about a product exactly when that fits, or is, modulo
`2 ^ 64`, a size of so many pages that no range holds them. -/
theorem honest_iff {n n1 n2 : Nat} (hn : n < 2 ^ 64) :
    (Honest n (kmalloc n) ↔ n + 16 + 4095 < 2 ^ 64) ∧
    (Honest (n1 * n2) (kcalloc n1 n2) ↔
      n1 * n2 + 16 + 4095 < 2 ^ 64 ∨ 2 ^ 52 - 2 ^ 28 < kmallocPages (u64 (n1 * n2))) := by
  refine ⟨?_, honest_wrapped (n1 * n2)⟩
  have hiff := honest_wrapped n
  rw [u64_of_lt hn] at hiff
  refine hiff.trans ⟨?_, Or.inl⟩
  rintro (hsmall | hwide)
  · exact hsmall
  · by_contra hlarge
    have hone := kmallocPages_wrapped hn (not_lt.mp hlarge)
    omega

/-- A hundred bytes are a size that `kmalloc` is honest about, and a product of `2 ^ 64` is none. -/
theorem honest_iff_hundred : Honest 100 (kmalloc 100) ∧
    ¬ Honest (2 ^ 32 * 2 ^ 32) (kcalloc (2 ^ 32) (2 ^ 32)) := by
  have hiff := @honest_iff 100 (2 ^ 32) (2 ^ 32) (by decide)
  refine ⟨hiff.1.mpr (by decide), fun h => ?_⟩
  exact absurd (hiff.2.mp h) (by decide)

/-- **A product that wraps.** After `mm_init` on a machine with 64 MiB, `kcalloc` grants a block for
`2 ^ 32` elements of `2 ^ 32` bytes: it asks `kmalloc` for no bytes. -/
theorem kcalloc_not_honest : ∃ s s', mmInit (flatMap 16384) .start = .ok ((), s) ∧
    kcalloc (2 ^ 32) (2 ^ 32) s = .ok (heapPtr 705, s') ∧
    ¬ Honest (2 ^ 32 * 2 ^ 32) (kcalloc (2 ^ 32) (2 ^ 32)) := by
  obtain ⟨s, hinit, hstarted⟩ := mmInit_flat (show 4870 + 8 ≤ 16384 by decide) (by decide)
  have hready := hstarted.ready
  obtain ⟨s', hrun, -⟩ := hready.grants 0 0 0 (by decide) (by decide)
  have hwrap : u64 (2 ^ 32 * 2 ^ 32) = 0 := by decide
  have hcalloc : kcalloc (2 ^ 32) (2 ^ 32) s = .ok (heapPtr 705, s') := by
    rw [kcalloc, hwrap]
    exact hrun
  refine ⟨s, s', hinit, hcalloc, fun h => ?_⟩
  obtain ⟨t, hnull⟩ := h.refused (by decide) hready.inv
    ⟨hready.heap_free, hready.vmm_free, hready.pmm_free⟩
  rw [hcalloc] at hnull
  exact heapPtr_ne 705 (Prod.mk.inj (Except.ok.inj hnull)).1

end Windozz.Kernel

import Windozz.Kernel.Boot
import Windozz.Kernel.Calls
import Windozz.Kernel.Process

set_option autoImplicit false

/-! # The window on physical memory

The kernel reaches the frames of its page tables at `PHYSICAL_MEMORY`, where `setup_paging` maps
the first 8 GiB. The page manager knows nothing of that limit: it hands out every free page of the
memory map. A history of calls dereferences a frame outside the window exactly when there is a
free page out there at the start (`window_safe_iff`).
-/

namespace Windozz.Kernel

open Radix Relation

/-! ## What `setup_paging` maps -/

/-- One of the large pages of `setup_paging` covers the frame. -/
def WindowMaps (q : Nat) : Prop := ∃ j, j < 4096 ∧ bootPd j / 0x200000 = q / 512

theorem windowMaps_iff {q : Nat} : WindowMaps q ↔ q < 2 ^ 21 := by
  unfold WindowMaps bootPd
  constructor
  · rintro ⟨j, hj, heq⟩
    omega
  · intro hq
    exact ⟨q / 512, by omega, by omega⟩

section Window

variable {s : State} {q : Nat} (h : BootTables s) (hq : q < 2 ^ 27)

include h hq

/-- The indexes of an address of the window. -/
theorem window_lookup : vmmGetPage (PHYSICAL_MEMORY + q * 4096) s =
    if bootPdpt (q / 2 ^ 18) &&& PAGE_PRESENT = 0 then 0
    else if bootPdpt (q / 2 ^ 18) &&& PAGE_LARGE ≠ 0 then bootPdpt (q / 2 ^ 18)
    else
      lookup pageFormat s.tables (bootPdpt (q / 2 ^ 18) / 4096)
        [levelIndex 21 (PHYSICAL_MEMORY + q * 4096)]
        (levelIndex 12 (PHYSICAL_MEMORY + q * 4096)) := by
  have hroot : s.root = 8 := by rw [State.root, h.cr3_eq]
  have hslot : (levelIndex 39 (PHYSICAL_MEMORY + q * 4096) : Nat) = 256 := by
    rw [levelIndex_val]
    unfold PHYSICAL_MEMORY
    omega
  have hindex : (levelIndex 30 (PHYSICAL_MEMORY + q * 4096) : Nat) = q / 2 ^ 18 := by
    rw [levelIndex_val]
    unfold PHYSICAL_MEMORY
    omega
  have hpml4 : s.tables 8 (levelIndex 39 (PHYSICAL_MEMORY + q * 4096)) = 0x9003 := by
    refine (h.pml4 _).trans ?_
    rw [hslot]
    rfl
  have hpdpt : s.tables 9 (levelIndex 30 (PHYSICAL_MEMORY + q * 4096)) = bootPdpt (q / 2 ^ 18) := by
    refine (h.pdpt _).trans ?_
    rw [hindex]
  rw [vmmGetPage_eq, hroot, pathOf, lookup_level, hpml4, if_neg (by decide), if_neg (by decide),
    lookup_level]
  rw [show 0x9003 / 4096 = 9 from rfl, hpdpt]

/-- The window holds the frames that `setup_paging` maps, each at its place. -/
theorem window_mapped : WindowMaps q ↔
    vmmGetPage (PHYSICAL_MEMORY + q * 4096) s &&& PAGE_PRESENT ≠ 0 := by
  rw [windowMaps_iff, window_lookup h hq]
  by_cases hlow : q < 2 ^ 21
  · have hdir : q / 2 ^ 18 < 8 := by omega
    have hpdpt : bootPdpt (q / 2 ^ 18) = 0xA003 + q / 2 ^ 18 * 4096 := if_pos hdir
    have hindex : (levelIndex 21 (PHYSICAL_MEMORY + q * 4096) : Nat) = q / 512 % 512 := by
      rw [levelIndex_val]
      unfold PHYSICAL_MEMORY
      omega
    -- eight directories with 512 entries of 2 MiB each hold the lowest 8 GiB
    have hentry : entry s.mem (0xA000 + q / 2 ^ 18 * 4096)
        (levelIndex 21 (PHYSICAL_MEMORY + q * 4096)) = bootPd (q / 512) := by
      rw [h.pd _ _ hdir, hindex]
      congr 1
      omega
    have htable : s.tables ((0xA003 + q / 2 ^ 18 * 4096) / 4096)
        (levelIndex 21 (PHYSICAL_MEMORY + q * 4096)) = bootPd (q / 512) := by
      have haddr : (0xA003 + q / 2 ^ 18 * 4096) / 4096 * 4096 = 0xA000 + q / 2 ^ 18 * 4096 := by
        omega
      rw [← hentry, ← haddr]
      rfl
    have hlink : ¬ (0xA003 + q / 2 ^ 18 * 4096) &&& PAGE_PRESENT = 0 ∧
        ¬ (0xA003 + q / 2 ^ 18 * 4096) &&& PAGE_LARGE ≠ 0 := by
      rw [and_present, and_large]
      omega
    have hpage : ¬ bootPd (q / 512) &&& PAGE_PRESENT = 0 ∧
        bootPd (q / 512) &&& PAGE_LARGE ≠ 0 := by
      rw [and_present, and_large]
      unfold bootPd
      omega
    rw [hpdpt, if_neg hlink.1, if_neg hlink.2, lookup_level, htable, if_neg hpage.1,
      if_pos hpage.2]
    exact iff_of_true hlow hpage.1
  · have hpdpt : bootPdpt (q / 2 ^ 18) = 0 := if_neg (by omega)
    rw [hpdpt, if_pos (show 0 &&& PAGE_PRESENT = 0 from rfl)]
    exact iff_of_false hlow (not_not.mpr rfl)

end Window

/-! ## Histories -/

/-- The kernel, the pages handed out, and the frames dereferenced through the window. -/
structure Use where
  state : State
  held : Finset Nat
  touched : Finset Nat

/-- One step of a history: a page is allocated, a page that was handed out is released, one level of
`vmm_map_page` takes a page for a table, `create_process` takes a page for a root, or something
happens that leaves the page manager alone. -/
inductive UseStep : Use → Use → Prop where
  | alloc {s s' : State} {held touched : Finset Nat} {page : Nat} (hne : page ≠ 0)
      (hrun : pmmAllocPage s.unlock = .ok (page, s')) :
      UseStep ⟨s, held, touched⟩ ⟨s', insert page held, touched⟩
  | free {s s' : State} {held touched : Finset Nat} {page : Nat} (hheld : page ∈ held)
      (hrun : pmmFreePage page s.unlock = .ok ((), s')) :
      UseStep ⟨s, held, touched⟩ ⟨s', held.erase page, touched⟩
  | table {s s' : State} {held touched : Finset Nat} {table index page : Nat}
      (habsent : entry s.mem table index &&& PAGE_PRESENT = 0)
      (hrun : vmmNextTable table index s.unlock = .ok (page, s')) :
      UseStep ⟨s, held, touched⟩ ⟨s', held, insert (page / 4096) touched⟩
  | root {s s' : State} {held touched : Finset Nat} {page : Nat} (hne : page ≠ 0)
      (hrun : newPml4 s.unlock = .ok (page, s')) :
      UseStep ⟨s, held, touched⟩ ⟨s', insert page held, insert (page / 4096) touched⟩
  | other {s s' : State} {held touched : Finset Nat} (hpmm : s'.pmm = s.pmm) :
      UseStep ⟨s, held, touched⟩ ⟨s', held, touched⟩

/-- What a successful allocation hands out, and the manager afterwards. -/
theorem pmmAllocPage_allocatable {s s' : State} {page : Nat}
    (hhigh : s.pmm.highest_usable_address < 2 ^ 64) (hrun : pmmAllocPage s = .ok (page, s'))
    (hne : page ≠ 0) : s.pmm.Allocatable page ∧ s'.pmm = pmmMarkPageUsed page s.pmm := by
  obtain ⟨hm, -, -, -, rfl⟩ := pmmAllocPage_ok hrun hne
  rw [pmmAllocPage_run hm] at hrun
  cases hfind : pmmFindPage s.pmm with
  | none =>
      rw [hfind] at hrun
      cases hrun
  | some q =>
      rw [hfind] at hrun
      simp only at hrun
      split at hrun
      · exact absurd (Prod.mk.inj (Except.ok.inj hrun)).1.symm hne
      · obtain ⟨rfl, -⟩ := Prod.mk.inj (Except.ok.inj hrun)
        exact ⟨pmmFindPage_allocatable hhigh hfind hne, rfl⟩

/-- A level of `vmm_map_page` without its table takes a page. -/
theorem vmmNextTable_takes {s s' : State} {table index ptr : Nat}
    (hrun : vmmNextTable table index s = .ok (ptr, s'))
    (habsent : entry s.mem table index &&& PAGE_PRESENT = 0) :
    ∃ s₁, pmmAllocPage s = .ok (ptr, s₁) ∧ ptr ≠ 0 ∧ s'.pmm = s₁.pmm := by
  rw [vmmNextTable, Prog.bind_ok (Prog.run_get _), if_pos habsent] at hrun
  obtain ⟨page, s₁, halloc, hrest⟩ := Prog.bind_eq_ok.mp hrun
  by_cases hz : page = 0
  · rw [if_pos hz] at hrest
    cases hrest
  · rw [if_neg hz] at hrest
    obtain ⟨-, halign, -⟩ := pmmAllocPage_ok halloc hz
    obtain ⟨rfl, rfl⟩ := Prod.mk.inj (Except.ok.inj hrest)
    have hmask : pageMask page = page := by
      unfold pageMask
      omega
    rw [hmask]
    exact ⟨s₁, halloc, hz, rfl⟩

/-! ## What a history hands out -/

/-- Everything that is free or was handed out could be allocated at the start. -/
structure Within (p₀ : Pmm) (u : Use) : Prop where
  highest_eq : u.state.pmm.highest_usable_address = p₀.highest_usable_address
  free : ∀ page, u.state.pmm.Allocatable page → p₀.Allocatable page
  held : ∀ page ∈ u.held, p₀.Allocatable page
  touched : ∀ q ∈ u.touched, p₀.Allocatable (q * 4096)

theorem Pmm.Allocatable.of_used {p : Pmm} {addr page : Nat}
    (h : (pmmMarkPageUsed addr p).Allocatable page) : p.Allocatable page := by
  obtain ⟨halign, hbelow, hfree⟩ := h
  rw [highest_markPageUsed] at hbelow
  rw [test_markPageUsed, Bool.or_eq_false_iff] at hfree
  exact ⟨halign, hbelow, hfree.1⟩

/-- A page that is released adds itself. -/
theorem Pmm.Allocatable.of_freed {p : Pmm} {addr page : Nat} (haddr : addr % 4096 = 0)
    (h : (pmmMarkPageFree addr p).Allocatable page) : p.Allocatable page ∨ page = addr := by
  obtain ⟨halign, hbelow, hfree⟩ := h
  rw [highest_markPageFree] at hbelow
  rw [test_markPageFree, Bool.and_eq_false_iff] at hfree
  rcases hfree with hfree | hsame
  · exact Or.inl ⟨halign, hbelow, hfree⟩
  · simp only [Bool.not_eq_false', decide_eq_true_eq] at hsame
    exact Or.inr (by omega)

namespace Within

variable {p₀ : Pmm} {s s' : State} {held touched : Finset Nat} {page : Nat}

/-- A page is allocated. -/
theorem take (h : Within p₀ ⟨s, held, touched⟩) (hhigh : p₀.highest_usable_address < 2 ^ 64)
    (hrun : pmmAllocPage s.unlock = .ok (page, s')) (hne : page ≠ 0) :
    p₀.Allocatable page ∧ Within p₀ ⟨s', held, touched⟩ := by
  have hlt : s.unlock.pmm.highest_usable_address < 2 ^ 64 := by
    rw [unlock_pmm, h.highest_eq]
    exact hhigh
  obtain ⟨hfree, hpmm⟩ := pmmAllocPage_allocatable hlt hrun hne
  refine ⟨h.free page hfree, ?_, fun q hq => ?_, h.held, h.touched⟩
  · rw [hpmm, highest_markPageUsed]
    exact h.highest_eq
  · rw [hpmm] at hq
    exact h.free q hq.of_used

theorem hold (h : Within p₀ ⟨s, held, touched⟩) (hpage : p₀.Allocatable page) :
    Within p₀ ⟨s, insert page held, touched⟩ := by
  refine ⟨h.highest_eq, h.free, fun q hq => ?_, h.touched⟩
  rcases Finset.mem_insert.mp hq with rfl | hq
  · exact hpage
  · exact h.held q hq

theorem touch (h : Within p₀ ⟨s, held, touched⟩) (hpage : p₀.Allocatable page) :
    Within p₀ ⟨s, held, insert (page / 4096) touched⟩ := by
  refine ⟨h.highest_eq, h.free, h.held, fun q hq => ?_⟩
  rcases Finset.mem_insert.mp hq with rfl | hq
  · rwa [Nat.div_mul_cancel (Nat.dvd_of_mod_eq_zero hpage.1)]
  · exact h.touched q hq

theorem same_pmm (h : Within p₀ ⟨s, held, touched⟩) (hpmm : s'.pmm = s.pmm) :
    Within p₀ ⟨s', held, touched⟩ :=
  ⟨by rw [hpmm]; exact h.highest_eq, by rw [hpmm]; exact h.free, h.held, h.touched⟩

/-- One step hands out what could be allocated at the start. -/
theorem step {u u' : Use} (hhigh : p₀.highest_usable_address < 2 ^ 64) (h : Within p₀ u)
    (hstep : UseStep u u') : Within p₀ u' := by
  cases hstep with
  | alloc hne hrun =>
      obtain ⟨hpage, h'⟩ := h.take hhigh hrun hne
      exact h'.hold hpage
  | free hheld hrun =>
      have hpage := h.held _ hheld
      refine ⟨?_, fun q hq => ?_, fun q hq => h.held q (Finset.mem_of_mem_erase hq), h.touched⟩
      · rw [pmmFreePage_ok hrun]
        exact (highest_markPageFree _ _).trans h.highest_eq
      · rw [pmmFreePage_ok hrun] at hq
        rcases Pmm.Allocatable.of_freed hpage.1 hq with hq | rfl
        · exact h.free q hq
        · exact hpage
  | table habsent hrun =>
      obtain ⟨s₁, halloc, hne, hpmm⟩ := vmmNextTable_takes hrun habsent
      obtain ⟨hpage, h'⟩ := h.take hhigh halloc hne
      exact (h'.same_pmm hpmm).touch hpage
  | @root _ _ _ _ page hne hrun =>
      obtain ⟨s₁, halloc, rfl⟩ := newPml4_ok hrun hne
      obtain ⟨hpage, h'⟩ := h.take hhigh halloc hne
      have hpmm : (s₁.kernelRoot page).pmm = s₁.pmm := rfl
      exact ((h'.same_pmm hpmm).hold hpage).touch hpage
  | other hpmm => exact h.same_pmm hpmm

theorem run {u u' : Use} (hhigh : p₀.highest_usable_address < 2 ^ 64) (h : Within p₀ u)
    (hrun : ReflTransGen UseStep u u') : Within p₀ u' := by
  induction hrun with
  | refl => exact h
  | tail _ hstep ih => exact ih.step hhigh hstep

end Within

/-! ## Reaching a page far up -/

/-- The free pages below a limit. -/
def Pmm.freeBelow (p : Pmm) (limit : Nat) : Finset Nat :=
  (Finset.range limit).filter fun q => p.bitmap.test q = false

theorem freeBelow_markPageUsed {p : Pmm} {page limit : Nat} (hlow : page / 4096 < limit)
    (hfree : p.bitmap.test (page / 4096) = false) :
    ((pmmMarkPageUsed page p).freeBelow limit).card < (p.freeBelow limit).card := by
  refine Finset.card_lt_card (Finset.ssubset_iff_of_subset ?_ |>.mpr ⟨page / 4096, ?_, ?_⟩)
  · intro q hq
    obtain ⟨hq, htest⟩ := Finset.mem_filter.mp hq
    rw [test_markPageUsed, Bool.or_eq_false_iff] at htest
    exact Finset.mem_filter.mpr ⟨hq, htest.1⟩
  · exact Finset.mem_filter.mpr ⟨Finset.mem_range.mpr hlow, hfree⟩
  · intro hin
    have htest := (Finset.mem_filter.mp hin).2
    rw [test_markPageUsed, decide_eq_true rfl, Bool.or_true] at htest
    cases htest

/-- Allocation after allocation the pages below a limit run out, and the next root lies above it. -/
theorem exists_touched {limit q : Nat} (hq : limit ≤ q) (n : Nat) :
    ∀ (s : State) (held touched : Finset Nat), (s.pmm.freeBelow limit).card = n →
      s.pmm.Scannable → s.pmm.Allocatable (q * 4096) →
      ∃ u, ReflTransGen UseStep ⟨s, held, touched⟩ u ∧ ∃ q' ∈ u.touched, limit ≤ q' := by
  induction n using Nat.strong_induction_on with
  | _ n ih =>
      intro s held touched hcard hscan hfar
      obtain ⟨page, hfind, hne⟩ := pmmFindPage_spec hscan.highest_lt hscan.zero_used hfar
      have hpage := pmmFindPage_allocatable hscan.highest_lt hfind hne
      have halloc : pmmAllocPage s.unlock
          = .ok (page, s.unlock.withPmm (pmmMarkPageUsed page s.pmm)) := by
        rw [pmmAllocPage_run s.unlock_free, unlock_pmm, hfind]
        exact if_neg hne
      -- each page below the limit that is held leaves one fewer of them
      by_cases hlimit : limit ≤ page / 4096
      · exact ⟨_, .single (.root hne (newPml4_returns halloc hne)), page / 4096,
          Finset.mem_insert_self _ _, hlimit⟩
      · have hlow : page / 4096 < limit := not_le.mp hlimit
        have hless := freeBelow_markPageUsed hlow hpage.2.2
        have hscan' : (pmmMarkPageUsed page s.pmm).Scannable := by
          refine ⟨by rw [highest_markPageUsed]; exact hscan.highest_lt, ?_⟩
          rw [test_markPageUsed, hscan.zero_used, Bool.true_or]
        have hfar' : (pmmMarkPageUsed page s.pmm).Allocatable (q * 4096) := by
          refine ⟨hfar.1, by rw [highest_markPageUsed]; exact hfar.2.1, ?_⟩
          rw [test_markPageUsed, hfar.2.2, decide_eq_false (by omega), Bool.or_false]
        obtain ⟨u, hrun, htouched⟩ := ih _ (hcard ▸ hless)
          (s.unlock.withPmm (pmmMarkPageUsed page s.pmm)) (insert page held) touched rfl hscan' hfar'
        exact ⟨u, .head (.alloc hne halloc) hrun, htouched⟩

/-! ## Every memory map -/

/-- The highest usable address is a 64-bit word. -/
theorem highest_addEntries_lt (entries : List E820) (p : Pmm)
    (h : p.highest_usable_address < 2 ^ 64) :
    (addEntries entries p).highest_usable_address < 2 ^ 64 := by
  induction entries generalizing p with
  | nil => exact h
  | cons e rest ih =>
      rw [addEntries_cons]
      refine ih _ ?_
      by_cases he : e.Processed
      · obtain ⟨b, u, -, hadd⟩ := e820AddEntry_frame he p
        rw [add_processed he, hadd]
        simp only
        split
        · exact u64_lt _
        · exact h
      · rwa [add_not_processed he]

/-- After `pmm_init` the scan starts at a page in use. -/
theorem pmmInit_scannable {map : E820Map} {s s' : State}
    (hword : s.pmm.highest_usable_address < 2 ^ 64) (hrun : pmmInit map s = .ok ((), s')) :
    s'.pmm.Scannable := by
  obtain rfl := pmmInit_ok hrun
  obtain ⟨b, u, hlowest⟩ := markLowest_frame 2048 (addEntries map.entries (resetBitmap map s.pmm))
  refine ⟨?_, ?_⟩
  · rw [State.withPmm, hlowest]
    exact highest_addEntries_lt _ _ hword
  · rw [State.withPmm, test_markLowest]
    exact Bool.or_true _

/-- **The window and the page manager.** For every memory map: whatever the history of allocations
and releases after `pmm_init`, the kernel dereferences only frames that `setup_paging` maps, exactly
when `pmm_init` leaves no page that the scan can find outside of these. -/
theorem window_safe_iff {map : E820Map} {s s₁ : State}
    (hword : s.pmm.highest_usable_address < 2 ^ 64) (hrun : pmmInit map s = .ok ((), s₁)) :
    (∀ u, ReflTransGen UseStep ⟨s₁, ∅, ∅⟩ u → ∀ q ∈ u.touched, WindowMaps q) ↔
      ∀ q, s₁.pmm.Allocatable (q * 4096) → WindowMaps q := by
  have hscan := pmmInit_scannable hword hrun
  constructor
  · intro hsafe q hq
    rw [windowMaps_iff]
    by_contra hfar
    obtain ⟨u, hreach, q', hq', hlimit⟩ := exists_touched (not_lt.mp hfar) _ s₁ ∅ ∅ rfl hscan hq
    have hmapped := windowMaps_iff.mp (hsafe u hreach q' hq')
    omega
  · intro hbelow u hreach q hq
    have hstart : Within s₁.pmm ⟨s₁, ∅, ∅⟩ :=
      ⟨rfl, fun _ h => h, fun _ h => absurd h (Finset.notMem_empty _),
        fun _ h => absurd h (Finset.notMem_empty _)⟩
    exact hbelow q ((hstart.run hscan.highest_lt hreach).touched q hq)

/-- On a machine with 64 MiB every history stays in the window. -/
theorem window_safe_flat : ∃ s₁, pmmInit (flatMap 16384) .start = .ok ((), s₁) ∧
    ∀ u, ReflTransGen UseStep ⟨s₁, ∅, ∅⟩ u → ∀ q ∈ u.touched, WindowMaps q := by
  have hrun := pmmInit_flat (n := 16384) (s := .start) (by decide) (by decide) rfl
  refine ⟨_, hrun, (window_safe_iff (by decide) hrun).mpr fun q hq => ?_⟩
  obtain ⟨hhigh, -, -⟩ := flatPmm_globals (n := 16384) (by decide) (by decide)
  have hbelow := hq.2.1
  rw [windowMaps_iff]
  rw [State.withPmm, hhigh] at hbelow
  omega

/-- On every machine with more than 8 GiB a history leaves it. -/
theorem window_left {n : Nat} (hn : 2 ^ 21 + 2 ≤ n) (hfits : n < 2 ^ 51) :
    ∃ s₁ u, pmmInit (flatMap n) .start = .ok ((), s₁) ∧
      ReflTransGen UseStep ⟨s₁, ∅, ∅⟩ u ∧ ∃ q ∈ u.touched, ¬ WindowMaps q := by
  have hrun := pmmInit_flat (s := .start) (show 4096 ≤ n by omega) hfits rfl
  obtain ⟨hhigh, -, -⟩ := flatPmm_globals (show 0 < n by omega) hfits
  have hfar : (State.start.withPmm (flatPmm n)).pmm.Allocatable (2 ^ 21 * 4096) := by
    refine ⟨by decide, ?_, ?_⟩
    · rw [State.withPmm, hhigh]
      omega
    · rw [State.withPmm, Nat.mul_div_cancel _ (by decide)]
      exact (flatPmm_free (by omega) hfits (by omega)).mpr (by decide)
  obtain ⟨u, hreach, q, hq, hlimit⟩ := exists_touched (le_refl (2 ^ 21)) _
    (State.start.withPmm (flatPmm n)) ∅ ∅ rfl (pmmInit_scannable (by decide) hrun) hfar
  refine ⟨_, u, hrun, hreach, q, hq, ?_⟩
  rw [windowMaps_iff]
  omega

/-- A machine with 16 GiB. -/
theorem window_left_flat : ∃ s₁ u, pmmInit (flatMap 0x400000) .start = .ok ((), s₁) ∧
    ReflTransGen UseStep ⟨s₁, ∅, ∅⟩ u ∧ ∃ q ∈ u.touched, ¬ WindowMaps q :=
  window_left (by decide) (by decide)

end Windozz.Kernel

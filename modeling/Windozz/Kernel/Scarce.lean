import Windozz.Kernel.Counters
import Windozz.Kernel.Realloc
import Windozz.Kernel.Threads

set_option autoImplicit false

/-! # Memory that runs out

On a machine with `n` pages the counters agree with the bitmap from the start (`exact_mmInit`), and
every call keeps it so (`steps_keepsExact`). So the counters say how many pages are left, and other
code that takes one block after the other comes to any shortage (`runs_short`): a block of one page
takes at least one page and at most four.
-/

namespace Windozz.Kernel

open Relation

/-! ## Counters that agree with the bitmap -/

/-- The page manager of a machine with `n` pages, with counters that agree with the bitmap. -/
structure Pmm.Exact (n : Nat) (p : Pmm) : Prop where
  highest_eq : p.highest_usable_address = n * 4096 - 1
  total_eq : p.total_pages = n
  balanced : p.Balanced n 0

/-- The pages that are not in use. -/
def Pmm.left (n : Nat) (p : Pmm) : Nat := (p.freePages n).card

namespace Pmm.Exact

variable {n : Nat} {p : Pmm} (h : p.Exact n)

include h

theorem markPageUsed {page : Nat} (hfree : p.Free (page / 4096)) :
    (pmmMarkPageUsed page p).Exact n := by
  have hbelow := hfree.below
  rw [h.highest_eq] at hbelow
  exact ⟨(highest_markPageUsed _ _).trans h.highest_eq, (total_markPageUsed _ _).trans h.total_eq,
    h.balanced.markPageUsed (by omega)⟩

variable (hn : n < 2 ^ 27)

include hn

/-- The counters say how many pages are left. -/
theorem spare_eq : p.spare = p.left n :=
  (h.balanced.counters_iff (by omega) (by decide)).mpr rfl

variable (hused : p.used_pages < n)

include hused

theorem used_add : p.used_pages + p.left n = n := by
  have hspare := h.spare_eq hn
  have htotal := h.total_eq
  unfold Pmm.spare u64 at hspare
  omega

/-- All pages that are left can be handed out, except for the last one. -/
theorem room (hscan : p.Scannable) : p.Room (p.left n - 1) := by
  have hadd := h.used_add hn hused
  have hhigh := h.highest_eq
  have htotal := h.total_eq
  refine ⟨hscan, ⟨(p.freePages n).erase (n - 1), Finset.pred_card_le_card_erase, fun q hq => ?_⟩,
    by omega, by omega⟩
  obtain ⟨hne, hq⟩ := Finset.mem_erase.mp hq
  obtain ⟨hlt, hfree⟩ := Pmm.mem_freePages.mp hq
  refine ⟨Nat.mul_mod_left _ _, by omega, ?_⟩
  rw [Nat.mul_div_cancel _ (by decide)]
  exact hfree

end Pmm.Exact

/-- The counters stay in agreement. -/
def KeepsExact (s s' : State) : Prop := ∀ n, s.pmm.Exact n → s'.pmm.Exact n

theorem steps_keepsExact : Steps KeepsExact where
  other h n hn := h ▸ hn
  trans h h' n hn := h' n (h n hn)
  alloc {s s' page} hrun n hn := by
    by_cases hz : page = 0
    · subst hz
      rw [pmmAllocPage_null hrun]
      exact hn
    · obtain ⟨-, -, -, hfree, rfl⟩ := pmmAllocPage_ok hrun hz
      exact hn.markPageUsed hfree
  table hrun n hn := by
    rcases vmmNextTable_ok hrun with ⟨-, -, rfl⟩ | ⟨-, -, -, hfree, -, rfl⟩
    · exact hn
    · exact hn.markPageUsed hfree

/-! ### At the start -/

/-- A flat map counts every page once. -/
theorem exact_flatPmm {n : Nat} (hn : 4096 ≤ n) (hfits : n < 2 ^ 27) : (flatPmm n).Exact n := by
  obtain ⟨hhigh, htotal, -⟩ := flatPmm_globals (show 0 < n by omega) (by omega)
  have hp : (E820.ram 0 (n * 4096)).Processed := E820.processed_ram (by omega)
  have hpages : (E820.ram 0 (n * 4096)).pages = n := by
    rw [E820.pages_ram (by omega)]
    omega
  have hnone : (resetBitmap (flatMap n) .boot).freePages n = ∅ := by
    rw [Finset.eq_empty_iff_forall_notMem]
    intro q hq
    obtain ⟨hlt, hfree⟩ := Pmm.mem_freePages.mp hq
    rw [test_resetBitmap _ (by rw [bitmapSize_flat (by omega)]; omega)] at hfree
    cases hfree
  have hstart : (resetBitmap (flatMap n) .boot).Balanced n 0 := by
    rw [Pmm.Balanced, hnone]
    rfl
  have hadd := hstart.addUsable hp (E820.fits_ram (by omega)) (by
    rw [hpages]
    show 0 / 4096 + n ≤ n
    omega) rfl
  rw [hnone, Finset.empty_inter, Finset.card_empty, ← add_processed hp] at hadd
  exact ⟨hhigh, htotal, Pmm.Balanced.markLowest hadd 2048 (by omega)⟩

/-- After `mm_init` the counters agree with the bitmap. -/
theorem exact_mmInit {n : Nat} (hn : 4096 ≤ n) (hfits : n < 2 ^ 27) {s : State}
    (hrun : mmInit (flatMap n) .start = .ok ((), s)) : s.pmm.Exact n := by
  rw [mmInit, Prog.bind_ok (pmmInit_flat hn (by omega) rfl)] at hrun
  exact steps_keepsExact.vmmInit hrun n (exact_flatPmm hn hfits)

/-- A new process keeps them in agreement. -/
theorem ProcessCall.exact {t t' : Tracked} {entry pid n : Nat}
    (hcall : ProcessCall entry t (some pid) t') (h : t.kernel.pmm.Exact n) :
    t'.kernel.pmm.Exact n := by
  have hblocks : ∀ {cr3 threads thread : Nat} {k₁ k₂ k₃ : State},
      newPml4 t.locked = .ok (cr3, k₁) → cr3 ≠ 0 →
      kcalloc SIZEOF_POINTER MAX_THREADS k₁ = .ok (threads, k₂) →
      kcalloc SIZEOF_THREAD 1 k₂ = .ok (thread, k₃) → k₃.pmm.Exact n := by
    intro cr3 threads thread k₁ k₂ k₃ hroot hcr3 htable hthread
    obtain ⟨s₁, halloc, rfl⟩ := newPml4_ok hroot hcr3
    have hroot' : s₁.pmm.Exact n := steps_keepsExact.alloc halloc n h
    exact steps_keepsExact.kmalloc _ hthread n (steps_keepsExact.kmalloc _ htable n hroot')
  cases hcall with
  | first hfind hroot hcr3 htable htne hthread hne hfirst hstack hsne =>
      exact steps_keepsExact.kmalloc _ hstack n (hblocks hroot hcr3 htable hthread)
  | later hfind hroot hcr3 htable htne hthread hne hlater =>
      have hblock := hblocks hroot hcr3 htable hthread
      exact hblock

/-! ## Taking what is left -/

/-- A block takes at least one page. -/
theorem kmalloc_left {s s' : State} {live : List Block} (h : HeapInv s live) {m n ptr : Nat}
    (hm : m + 16 + 4095 < 2 ^ 64) (hrun : kmalloc m s = .ok (ptr, s')) (hne : ptr ≠ 0)
    (hexact : s.pmm.Exact n) : s'.pmm.left n < s.pmm.left n := by
  rcases kmalloc_ok h.tree h.fresh h.window hm hrun with
    ⟨hnull, -⟩ | ⟨s₁, s₂, x, p, frames, new, hnew, rfl, rfl⟩
  · exact absurd hnull hne
  have hlen : 0 < frames.length := by
    have hlen := hnew.length_eq
    omega
  obtain ⟨q, hq⟩ := List.exists_mem_of_length_pos hlen
  have hfree : s.pmm.Free q := hnew.backs.takes.free q (by simp [hq])
  have hbelow := hfree.below
  rw [hexact.highest_eq] at hbelow
  have hafter : ∀ r, s₂.pmm.bitmap.test r = false → s.pmm.bitmap.test r = false ∧ r ∉ frames := by
    intro r hr
    have htest := hnew.test_eq r
    rw [hr] at htest
    refine ⟨Bool.not_eq_true _ ▸ fun hused => ?_, fun hin => ?_⟩
    · exact Bool.false_ne_true (htest.mpr (Or.inl hused))
    · exact Bool.false_ne_true (htest.mpr (Or.inr (Or.inr hin)))
  -- no page becomes free, and the first frame of the block was free
  have hsub : s₂.pmm.freePages n ⊆ s.pmm.freePages n := by
    intro r hr
    obtain ⟨hlt, hr⟩ := Pmm.mem_freePages.mp hr
    exact Pmm.mem_freePages.mpr ⟨hlt, (hafter r hr).1⟩
  have hbefore : q ∈ s.pmm.freePages n := Pmm.mem_freePages.mpr ⟨by omega, hfree.unmarked⟩
  refine Finset.card_lt_card (Finset.ssubset_iff_of_subset hsub |>.mpr ⟨q, hbefore, fun hin => ?_⟩)
  exact (hafter q (Pmm.mem_freePages.mp hin).2).2 hq

/-- A block of other code. -/
theorem rest_kmalloc {t : Tracked} (h : InOrder t) {m ptr : Nat} {s' : State}
    (hm : m + 16 + 4095 < 2 ^ 64) (hrun : kmalloc m t.kernel = .ok (ptr, s')) (hne : ptr ≠ 0)
    (hmutexes : s'.mutexes = t.kernel.mutexes) :
    Rest t ⟨⟨s', t.sched⟩, t.own, ⟨ptr, m⟩ :: t.others, t.printed⟩ := by
  have hinv := (kmalloc_spec h.heap hm hrun).1
  rw [if_neg hne] at hinv
  exact ⟨hinv.perm List.perm_middle.symm, (congrFun hmutexes _).trans h.unlocked, rfl, rfl,
    fun _ => rfl, fun _ => rfl, fun _ _ => rfl⟩

/-- **A shortage.** Other code can take blocks until five to eight pages are left. -/
theorem runs_short {n : Nat} (hn : n < 2 ^ 27) (more : Nat) : ∀ (left : Nat) (t : Tracked),
    t.kernel.pmm.left n = left → 5 ≤ left → InOrder t → t.kernel.pmm.Exact n →
    t.HasRoom (left + more) 0 →
    ∃ t', ReflTransGen Rest t t' ∧ InOrder t' ∧ t'.kernel.pmm.Exact n ∧
      t'.kernel.pmm.left n ≤ 8 ∧ t'.HasRoom more 4 ∧ t'.sched = t.sched ∧ t'.own = t.own := by
  intro left
  induction left using Nat.strong_induction_on with
  | _ left ih =>
      intro t hleft hge horder hexact hhas
      obtain ⟨live, k, hready⟩ := hhas
      have htotal := hexact.total_eq
      have hspare := hready.room.spare
      have hroom := hexact.room hn (by omega) hready.room.scannable
      rw [hleft] at hroom
      have hready : Ready t.kernel live k (left + more) (left - 1) :=
        ⟨hready.inv, hready.heap_free, hready.vmm_free, hready.pmm_free, hroom, hready.packed,
          hready.bound⟩
      by_cases hfew : left ≤ 8
      · exact ⟨t, .refl, horder, hexact, hleft.trans_le hfew,
          ⟨live, k, hready.mono (Nat.le_add_left _ _) (by omega)⟩, rfl, rfl⟩
      · -- a block of one page leaves at least `left - 4` pages, and fewer than `left`
        obtain ⟨s', hrun, hmutexes, hready'⟩ :=
          hready.grants 1 (left - 1 + more) (left - 5) (by omega) (by omega)
        have hexact' := steps_keepsExact.kmalloc _ hrun n hexact
        have hless := kmalloc_left hready.inv (by decide) hrun (heapPtr_ne k) hexact
        have hspare' := hready'.room.spare
        have htotal' := hexact'.total_eq
        have hadd' := hexact'.used_add hn (by omega)
        have hrest := rest_kmalloc horder (by decide) hrun (heapPtr_ne k) hmutexes
        obtain ⟨t', hreach, hend⟩ := ih (s'.pmm.left n) (by omega)
          ⟨⟨s', t.sched⟩, t.own, ⟨heapPtr k, 1⟩ :: t.others, t.printed⟩ rfl (by omega)
          ⟨hrest.heap, hrest.unlocked⟩ hexact' ⟨_, _, hready'.mono (by omega) (Nat.zero_le _)⟩
        exact ⟨t', .head hrest hreach, hend⟩

end Windozz.Kernel

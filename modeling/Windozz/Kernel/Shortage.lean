import Windozz.Kernel.Locks
import Windozz.Kernel.Places
import Windozz.Kernel.Realloc
import Windozz.Kernel.Sizes
import Windozz.Kernel.Window

set_option autoImplicit false

/-! # Which calls run short of pages

`lock_discipline_iff`: a call keeps to the mutexes unless the pages run out in it. When the page
tables are in order (`State.Sound`), that can be seen before the call: from the pages that can be
found, the ranges that it asks for, and the tables that are missing for them (`Call.Starves`).
`heap_sound`: in the states of the heap they are.
-/

namespace Windozz.Kernel

open Prog Radix Relation

/-! ## States in order -/

theorem HeapInv.sound {s : State} {live : List Block} (h : HeapInv s live)
    (hhigh : s.pmm.highest_usable_address < 2 ^ 64) : s.Sound := ⟨h.tree, h.fresh, h.window, hhigh⟩

theorem State.Sound.heapInv {s : State} (h : s.Sound) : HeapInv s [] :=
  ⟨h.tree, h.fresh, h.window, fun _ hb => absurd hb List.not_mem_nil, .nil⟩

/-- The highest usable address stays. -/
def KeepsHighest (s s' : State) : Prop :=
  s'.pmm.highest_usable_address = s.pmm.highest_usable_address

theorem steps_keepsHighest : Steps KeepsHighest where
  other h := congrArg Pmm.highest_usable_address h
  trans h h' := Eq.trans h' h
  alloc {s s' page} hrun := by
    by_cases hz : page = 0
    · subst hz
      rw [pmmAllocPage_null hrun]
      rfl
    · obtain ⟨-, -, -, -, rfl⟩ := pmmAllocPage_ok hrun hz
      exact highest_markPageUsed _ _
  table hrun := by
    rcases vmmNextTable_ok hrun with ⟨-, -, rfl⟩ | ⟨-, -, -, -, -, rfl⟩
    · rfl
    · exact highest_markPageUsed _ _

theorem frees_keepsHighest : Frees KeepsHighest := by
  intro s s' page _ hrun
  rw [pmmFreePage_ok hrun]
  exact highest_markPageFree _ _

/-- The states of the heap are in order: those that calls of `kmalloc`, `kcalloc` and `kfree` reach
from a successful `mm_init`. -/
theorem heap_sound {map : E820Map} {boot s₀ s : State} {live : List Block} (hboot : BootTables boot)
    (hword : boot.pmm.highest_usable_address < 2 ^ 64)
    (hwindow : ∀ s₁, pmmInit map boot = .ok ((), s₁) → s₁.WindowFrames)
    (hinit : mmInit map boot = .ok ((), s₀))
    (hrun : ReflTransGen HeapStep (s₀, [mmioBlock s₀]) (s, live)) : s.Sound := by
  refine ((mmInit_spec hboot hwindow hinit).run hrun).sound ?_
  have hstart : s₀.pmm.highest_usable_address < 2 ^ 64 := by
    obtain ⟨_, s₁, hpmm, hvmm⟩ := Prog.bind_eq_ok.mp hinit
    rw [steps_keepsHighest.vmmInit hvmm]
    exact (pmmInit_scannable hword hpmm).highest_lt
  have hkeeps : ∀ c : State × List Block, ReflTransGen HeapStep (s₀, [mmioBlock s₀]) c →
      KeepsHighest s₀ c.1 := by
    intro c hreach
    induction hreach with
    | refl => rfl
    | tail _ hstep ih =>
        cases hstep with
        | kmalloc hn hcall => exact steps_keepsHighest.trans ih (steps_keepsHighest.kmalloc _ hcall)
        | kcalloc hn hcall => exact steps_keepsHighest.trans ih (steps_keepsHighest.kmalloc _ hcall)
        | kfree hcall =>
            exact steps_keepsHighest.trans ih (steps_keepsHighest.kfree frees_keepsHighest _ hcall)
  exact (hkeeps _ hrun).trans_lt hstart

/-! ## Ranges -/

section Starves

variable {s : State} {start taken : Nat}

theorem demand_le (s : State) (taken : Nat) (pages pages' : List Nat) :
    s.demand taken pages ≤ s.demand taken (pages ++ pages') := by
  have hle := s.missing_le (pages.flatMap tablePaths) (pages'.flatMap tablePaths)
  rw [State.demand, State.demand, List.flatMap_append, List.length_append]
  omega

/-- When the pages run out later, there are enough for what is mapped by then. -/
theorem starves_runsOut (counts : List Nat) : ∀ {pages : List Nat},
    s.Starves start taken pages counts → ∃ m, s.pmm.RunsOut (s.demand (taken + m) pages) := by
  have hmore : ∀ pages pages' m, s.pmm.RunsOut (s.demand (taken + m) (pages ++ pages')) →
      ∃ m', s.pmm.RunsOut (s.demand (taken + m') pages) := by
    intro pages pages' m hout
    have hle := demand_le s taken pages pages'
    refine ⟨s.demand (taken + m) (pages ++ pages') - s.demand taken pages, ?_⟩
    convert hout using 1
    unfold State.demand at *
    omega
  induction counts with
  | nil => exact fun h => h.elim
  | cons count counts ih =>
      rintro pages ⟨p, -, ⟨i, -, hout⟩ | ⟨-, hrest⟩⟩
      · exact hmore pages _ 0 hout
      · obtain ⟨m, hout⟩ := ih hrest
        exact hmore pages _ m hout

/-- The pages run out in the first range, or behind it. -/
theorem starves_cons {pages counts : List Nat} {count : Nat} :
    s.Starves start taken pages (count :: counts) ↔ s.Starves start taken pages [count] ∨
      ∃ p, s.Places taken pages start count p ∧ (∀ i, i < count → Canonical (pageAt p i)) ∧
        s.Starves start taken (pages ++ pagesFrom p 0 count) counts := by
  simp only [State.Starves, and_false, or_false, and_or_left, exists_or]

end Starves

/-- The loop of `vmm_alloc` asks for a page when there is none: the pages run out in one of its
rounds. -/
theorem loopStarves_iff {ptr flags : Nat} (n : Nat) : ∀ {s : State} {i : Nat}, s.Sound →
    (∀ j, i ≤ j → j < i + n → s.NoLargePage (pageAt ptr j)) → s.mutexes .pmm_mutex = false →
    (LoopStarves ptr flags n i s ↔
      ∃ j, j < n ∧ s.pmm.RunsOut (s.demand 0 (pagesFrom ptr i j))) := by
  induction n with
  | zero =>
      intro s i _ _ _
      refine iff_of_false id ?_
      rintro ⟨j, hj, -⟩
      exact absurd hj (Nat.not_lt_zero j)
  | succ n ih =>
      intro s i h hlarge hm
      have hpage := hlarge i (le_refl _) (by omega)
      have hfirst : pmmFindPage s.pmm = some 0 ↔ s.pmm.RunsOut (s.demand 0 (pagesFrom ptr i 0)) :=
        findPage_null_iff h.highest_lt
      -- behind a round that returns, the loop starves as it does from the next state on
      have hround : ∀ {phys s₁ s₂}, pmmAllocPage s = .ok (phys, s₁) → phys ≠ 0 →
          vmmMapPage (pageAt ptr i) phys flags s₁ = .ok ((), s₂) →
          (LoopStarves ptr flags n (i + 1) s₂ ↔
            ∃ j, j < n ∧ s.pmm.RunsOut (s.demand 0 (pagesFrom ptr i (j + 1)))) := by
        intro phys s₁ s₂ halloc hne hmap
        obtain ⟨h₂, hkeeps, hmutexes, hspends⟩ := h.round hpage halloc hne hmap
        rw [ih h₂ (fun j hj hlt => hkeeps _ (hlarge j (by omega) (by omega)))
          ((congrFun hmutexes _).trans hm)]
        exact exists_congr fun j => and_congr_right fun _ => runsOut_round hspends
      rw [LoopStarves, hfirst]
      constructor
      · rintro (hout | ⟨phys, s₁, halloc, hne, s₂, hmap, hrest⟩)
        · exact ⟨0, Nat.succ_pos n, hout⟩
        · obtain ⟨j, hj, hout⟩ := (hround halloc hne hmap).mp hrest
          exact ⟨j + 1, Nat.succ_lt_succ hj, hout⟩
      · rintro ⟨j, hj, hout⟩
        cases j with
        | zero => exact Or.inl hout
        | succ j =>
            have hle := s.missing_le (tablePaths (pageAt ptr i))
              ((pagesFrom ptr (i + 1) j).flatMap tablePaths)
            obtain ⟨phys, s₁, s₂, halloc, hne, hmap⟩ := h.round_left hpage hm
              (m := s.demand 0 (pagesFrom ptr i (j + 1)) - 1
                - (s.missing (tablePaths (pageAt ptr i))).card) (by
              convert hout using 1
              rw [pagesFrom, State.demand, List.flatMap_cons, List.length_cons]
              omega) flags
            exact Or.inr ⟨phys, s₁, halloc, hne, s₂, hmap,
              (hround halloc hne hmap).mpr ⟨j, Nat.lt_of_succ_lt_succ hj, hout⟩⟩

section Ranges

variable {s k : State} {taken n : Nat} {pages : List Nat} (h : Spent s k taken pages)

include h

/-- `vmm_alloc` runs short as the state before says. -/
theorem vmmStarves_iff (start count flags : Nat) {m : Mutex → Bool}
    (hm : m .pmm_mutex = false) :
    VmmStarves start count flags { k with mutexes := m } ↔ s.Starves start taken pages [count] := by
  have hloop : ∀ {p}, vmmFind start count { k with mutexes := m } = some p → p ≠ 0 →
      (LoopStarves p flags count 0 (State.lock { k with mutexes := m } .vmm_mutex) ↔
        ∃ i, i < count ∧ s.pmm.RunsOut (s.demand taken (pages ++ pagesFrom p 0 i))) := by
    intro p hfind hp
    rw [(Spent.relock h.sound m).find_eq] at hfind
    have hfree := firstFit_free hp _ (fun j hj => absurd hj (Nat.not_lt_zero _)) hfind
    have hlarge : ∀ j, 0 ≤ j → j < 0 + count → k.NoLargePage (pageAt p j) := fun j _ hj =>
      noLargePage_of_absent (vmmGetPhysical_none.mp
        (isFree_iff.mp (hfree j (Nat.zero_add count ▸ hj))).1).2
    refine (loopStarves_iff count (h.sound.relock (Function.update m .vmm_mutex true)) hlarge
      (lock_ne (s := { k with mutexes := m }) (by decide) hm)).trans ?_
    exact exists_congr fun j => and_congr_right fun _ => h.runsOut_iff
  rw [State.Starves]
  simp only [State.Starves, and_false, or_false, places_iff h m]
  constructor
  · rintro ⟨hguard, p, hp, hfind, hout⟩
    exact ⟨p, ⟨hguard, hfind, hp⟩, (hloop hfind hp).mp hout⟩
  · rintro ⟨p, ⟨hguard, hfind, hp⟩, hout⟩
    exact ⟨hguard, p, hp, hfind, (hloop hfind hp).mpr hout⟩

theorem heapStarves_iff (n : Nat) (hpmm : k.mutexes .pmm_mutex = false) :
    HeapStarves n k ↔ s.Starves KERNEL_HEAP taken pages [kmallocPages n] :=
  vmmStarves_iff h KERNEL_HEAP _ _ (lock_ne (x := .heap_mutex) (by decide) hpmm)

/-- A block, and what comes behind it. -/
theorem heapStarves_cons (hn : n + 16 + 4095 < 2 ^ 64) (hpmm : k.mutexes .pmm_mutex = false)
    (hvmm : k.mutexes .vmm_mutex = false) (hheap : k.mutexes .heap_mutex = false)
    {counts : List Nat} {P : Nat → State → Prop}
    (hnext : ∀ q k' pages', kmalloc n k = .ok (q, k') → q ≠ 0 → k'.mutexes = k.mutexes →
      Spent s k' taken pages' → (P q k' ↔ s.Starves KERNEL_HEAP taken pages' counts)) :
    (HeapStarves n k ∨ ∃ q k', kmalloc n k = .ok (q, k') ∧ q ≠ 0 ∧ P q k') ↔
      s.Starves KERNEL_HEAP taken pages (kmallocPages n :: counts) := by
  have hlocks := kmalloc_locks n hpmm hvmm hheap
  rw [starves_cons, heapStarves_iff h n hpmm]
  refine or_congr_right ⟨?_, ?_⟩
  · rintro ⟨q, k', hrun, hne, hP⟩
    obtain ⟨p, -, hplaces, hcanonical, hspent⟩ := kmalloc_places h hn hheap hne hrun
    have hmutexes : k'.mutexes = k.mutexes := by
      refine (hlocks.fed fun hstarves => hne ?_).held hrun
      obtain ⟨k'', hnull, -⟩ := hlocks.starved hstarves
      exact (Prod.mk.inj (Except.ok.inj (hrun.symm.trans hnull))).1
    exact ⟨p, hplaces, hcanonical, (hnext q k' _ hrun hne hmutexes hspent).mp hP⟩
  · rintro ⟨p, hplaces, hcanonical, hrest⟩
    obtain ⟨m, hout⟩ := starves_runsOut _ hrest
    obtain ⟨k', hrun, hspent, hmutexes⟩ :=
      kmalloc_supplied h hn hheap hvmm hpmm hplaces hcanonical hout
    exact ⟨p + 16, k', hrun, Nat.succ_ne_zero _,
      (hnext _ k' _ hrun (Nat.succ_ne_zero _) hmutexes hspent).mpr hrest⟩

end Ranges

/-! ## Processes and threads -/

/-- The root of a process is a page. -/
theorem newPml4_spent {k k' : State} {cr3 : Nat} (h : k.Sound) (hrun : newPml4 k = .ok (cr3, k'))
    (hne : cr3 ≠ 0) : Spent k k' 1 [] ∧ k'.mutexes = k.mutexes := by
  have htake := newPml4_takes hrun hne
  obtain ⟨k₁, halloc, rfl⟩ := newPml4_ok hrun hne
  have hspent := Spent.take h halloc hne
  obtain ⟨-, -, -, -, rfl⟩ := pmmAllocPage_ok halloc hne
  have hstores : Stores (k.withPmm (pmmMarkPageUsed cr3 k.pmm))
      ((k.withPmm (pmmMarkPageUsed cr3 k.pmm)).kernelRoot cr3) {cr3 / 4096} :=
    ⟨rfl, fun a ha => htake.mem_eq a ha⟩
  refine ⟨hspent.trans (.stores hspent.sound hstores fun q hq => ?_), rfl⟩
  rw [Set.mem_singleton_iff.mp hq]
  exact h.fresh _ htake.free

/-- With a page left for it, there is a root. -/
theorem newPml4_left {k : State} {m : Nat} (h : k.Sound) (hpmm : k.mutexes .pmm_mutex = false)
    (hleft : k.pmm.RunsOut (m + 1)) : ∃ cr3 k', newPml4 k = .ok (cr3, k') ∧ cr3 ≠ 0 := by
  obtain ⟨cr3, hne, halloc⟩ := pmmAllocPage_left h.highest_lt hpmm hleft
  exact ⟨cr3, _, newPml4_returns halloc hne, hne⟩

/-- The ranges of the heap that `create_process` asks for: the table of threads, the thread, and for
the first process the stack. -/
def Sched.processRanges (s : Sched) : List Nat :=
  kmallocPages (SIZEOF_POINTER * MAX_THREADS) :: kmallocPages SIZEOF_THREAD ::
    if s.running_processes = 0 then [kmallocPages THREAD_STACK] else []

/-- The ranges of the heap that `create_thread` asks for: the thread, and in process 0 the stack. -/
def Sched.threadRanges (s : Sched) : List Nat :=
  kmallocPages SIZEOF_THREAD :: if s.cpu.pid = 0 then [kmallocPages THREAD_STACK] else []

/-- Only the mutex of the scheduler is held. -/
theorem sched_free {k : State} (hk : k.mutexes = schedHeld) {x : Mutex} (hx : x ≠ .sched_mutex) :
    k.mutexes x = false := by
  rw [hk]
  exact Function.update_of_ne hx _ _

section Sched

variable {s : System} (h : s.kernel.Sound) (hfree : s.kernel.mutexes = noneHeld)

include h in
theorem sched_spent : Spent s.kernel (s.kernel.lock .sched_mutex) 0 [] := .relock h _

include hfree in
theorem sched_held : (s.kernel.lock .sched_mutex).mutexes = schedHeld := by
  rw [State.lock, hfree]
  rfl

/-- `create_process`, when it has its root. -/
theorem processRanges_iff {k₁ : State} (h₁ : Spent s.kernel k₁ 1 [])
    (hk₁ : k₁.mutexes = schedHeld) :
    (HeapStarves (u64 (SIZEOF_POINTER * MAX_THREADS)) k₁ ∨
      ∃ threads k₂, kcalloc SIZEOF_POINTER MAX_THREADS k₁ = .ok (threads, k₂) ∧ threads ≠ 0 ∧
        (HeapStarves (u64 (SIZEOF_THREAD * 1)) k₂ ∨
          ∃ thread k₃, kcalloc SIZEOF_THREAD 1 k₂ = .ok (thread, k₃) ∧ thread ≠ 0 ∧
            s.sched.running_processes = 0 ∧ HeapStarves THREAD_STACK k₃)) ↔
      s.kernel.Starves KERNEL_HEAP 1 [] s.sched.processRanges := by
  refine heapStarves_cons h₁ (by decide) (sched_free hk₁ (by decide)) (sched_free hk₁ (by decide))
    (sched_free hk₁ (by decide)) fun threads k₂ pages₂ _ _ hkept₂ h₂ => ?_
  have hk₂ := hkept₂.trans hk₁
  refine heapStarves_cons h₂ (by decide) (sched_free hk₂ (by decide)) (sched_free hk₂ (by decide))
    (sched_free hk₂ (by decide)) fun thread k₃ pages₃ _ _ hkept₃ h₃ => ?_
  have hk₃ := hkept₃.trans hk₂
  by_cases hfirst : s.sched.running_processes = 0
  · rw [if_pos hfirst, heapStarves_iff h₃ _ (sched_free hk₃ (by decide)), and_iff_right hfirst]
  · rw [if_neg hfirst]
    exact iff_of_false (fun hstarves => hfirst hstarves.1) id

include h hfree

theorem processStarves_iff :
    ProcessStarves s ↔ (∃ pid, findProcess s.sched = some pid) ∧ (s.kernel.pmm.RunsOut 0 ∨
      s.kernel.Starves KERNEL_HEAP 1 [] s.sched.processRanges) := by
  have hlock := sched_spent h
  have hheld := sched_held hfree
  rw [ProcessStarves, findPage_null_iff h.highest_lt]
  refine and_congr_right fun _ => or_congr_right ⟨?_, fun hstarves => ?_⟩
  · rintro ⟨cr3, k₁, hroot, hcr3, hstarves⟩
    obtain ⟨hspent, hk₁⟩ := newPml4_spent hlock.sound hroot hcr3
    exact (processRanges_iff (hlock.trans hspent) (hk₁.trans hheld)).mp hstarves
  · -- there is a page for the root, since the pages run out behind it
    obtain ⟨m, hout⟩ := starves_runsOut _ hstarves
    rw [demand_nil, Nat.add_comm] at hout
    obtain ⟨cr3, k₁, hroot, hcr3⟩ := newPml4_left hlock.sound (sched_free hheld (by decide)) hout
    obtain ⟨hspent, hk₁⟩ := newPml4_spent hlock.sound hroot hcr3
    exact ⟨cr3, k₁, hroot, hcr3,
      (processRanges_iff (hlock.trans hspent) (hk₁.trans hheld)).mpr hstarves⟩

end Sched

/-- The header of a block can be read, also when there was no room for another one. -/
theorem header_loads {k k₁ k₂ : State} {n m q : Nat} (h : k.Sound) (hn : n + 16 + 4095 < 2 ^ 64)
    (hm : m + 16 + 4095 < 2 ^ 64) (hne : q ≠ 0) (hrun : kmalloc n k = .ok (q, k₁))
    (hnull : kmalloc m k₁ = .ok (0, k₂)) :
    ∃ pages, loadQword (u64 (q + (2 ^ 64 - 16))) k₂ = .ok (pages, k₂) := by
  have hinv₁ := (kmalloc_spec h.heapInv hn hrun).1
  rw [if_neg hne] at hinv₁
  have hinv₂ := (kmalloc_spec hinv₁ hm hnull).1
  rw [if_pos rfl] at hinv₂
  have hheld := hinv₂.held ⟨q, n⟩ (List.mem_cons_self ..)
  obtain ⟨p, -, rfl, -, -, hcanonical⟩ := kmalloc_returned hn hne hrun
  rw [kmallocPages_of_lt hn] at hcanonical
  have hload := hheld.load_header (o := 0) hcanonical (by decide)
  have haddr : byteAddr (Block.base ⟨p + 16, n⟩) 0 = u64 (p + 16 + (2 ^ 64 - 16)) := by
    have hlt : p + 16 < 2 ^ 64 := hheld.ptr_lt
    show u64 (p + 16 - 16 + 0) = _
    unfold u64
    omega
  rw [haddr] at hload
  exact ⟨_, hload⟩

theorem threadStarves_iff {s : System} (h : s.kernel.Sound) (hfree : s.kernel.mutexes = noneHeld) :
    ThreadStarves s ↔ (∃ tid, findThread s.sched = some tid) ∧
      s.kernel.Starves KERNEL_HEAP 0 [] s.sched.threadRanges := by
  have hlock := sched_spent h
  have hheld := sched_held hfree
  rw [ThreadStarves]
  refine and_congr_right fun _ => heapStarves_cons hlock (by decide)
    (sched_free hheld (by decide)) (sched_free hheld (by decide)) (sched_free hheld (by decide))
    fun thread k₁ pages₁ hrun hne hkept₁ h₁ => ?_
  have hk₁ := hkept₁.trans hheld
  by_cases hkernel : s.sched.cpu.pid = 0
  · rw [if_pos hkernel, ← heapStarves_iff h₁ THREAD_STACK (sched_free hk₁ (by decide)),
      and_iff_right hkernel]
    refine and_iff_left_of_imp fun hstarves => ?_
    obtain ⟨k₂, hnull, -⟩ := (kmalloc_sched hk₁ THREAD_STACK).starved hstarves
    obtain ⟨pages, hload⟩ := header_loads hlock.sound (by decide) (by decide) hne hrun hnull
    exact ⟨k₂, pages, k₂, hnull, hload⟩
  · rw [if_neg hkernel]
    exact iff_of_false (fun hstarves => hkernel hstarves.1) id

/-! ## Every call -/

/-- The pages run out in the call: for a range that it maps, or for the root of a process. -/
def Call.Starves : Call → System → Prop
  | .pmm_alloc_page, s => s.kernel.pmm.RunsOut 0
  | .vmm_alloc start count _, s => s.kernel.Starves start 0 [] [count]
  | .kmalloc n, s => s.kernel.Starves KERNEL_HEAP 0 [] [kmallocPages n]
  | .kcalloc n1 n2, s => s.kernel.Starves KERNEL_HEAP 0 [] [kmallocPages (u64 (n1 * n2))]
  | .krealloc _ new_size, s => s.kernel.Starves KERNEL_HEAP 0 [] [kmallocPages new_size]
  | .create_process _, s => (∃ pid, findProcess s.sched = some pid) ∧
      (s.kernel.pmm.RunsOut 0 ∨ s.kernel.Starves KERNEL_HEAP 1 [] s.sched.processRanges)
  | .create_thread _, s => (∃ tid, findThread s.sched = some tid) ∧
      s.kernel.Starves KERNEL_HEAP 0 [] s.sched.threadRanges
  | _, _ => False

theorem runsShort_iff {s : System} (h : s.kernel.Sound) (hfree : s.kernel.mutexes = noneHeld)
    (c : Call) : c.RunsShort s ↔ c.Starves s := by
  have hspent : Spent s.kernel s.kernel 0 [] := .relock h s.kernel.mutexes
  have hpmm : s.kernel.mutexes .pmm_mutex = false := congrFun hfree _
  cases c with
  | pmm_alloc_page => exact findPage_null_iff h.highest_lt
  | vmm_alloc start count flags => exact vmmStarves_iff hspent start count flags hpmm
  | kmalloc n => exact heapStarves_iff hspent n hpmm
  | kcalloc n1 n2 => exact heapStarves_iff hspent _ hpmm
  | krealloc old new_size => exact heapStarves_iff hspent new_size hpmm
  | create_process entry => exact processStarves_iff h hfree
  | create_thread entry => exact threadStarves_iff h hfree
  | pmm_free_page | vmm_free | vmm_create_mmio | kfree => exact Iff.rfl

/-- From a state in which the four mutexes are free, a call does not wait for a mutex and leaves
them free exactly when the pages do not run out in it. When the page tables are in order, the state
before the call says whether they do. -/
theorem lock_discipline_iff (c : Call) (s : System) (hfree : ∀ m, s.kernel.mutexes m = false) :
    (s.kernel.Sound → (LocksAt c.run s noneHeld ↔ ¬ c.Starves s)) ∧
      (LocksAt c.run s noneHeld ↔ ¬ c.RunsShort s) := by
  have hcall := locksAt_call_iff c s hfree
  exact ⟨fun h => hcall.trans (not_congr (runsShort_iff h (funext hfree) c)), hcall⟩

theorem full_starves : pmmFindPage System.full.kernel.pmm = some 0 :=
  pmmFindPage_null (by decide) (by decide) fun page h => by
    have hused : System.full.kernel.pmm.bitmap.test (page / 4096) = true := Bitmap.test_of_ones rfl
    exact absurd (hused.symm.trans h.2.2) (by decide)

/-- `pmm_alloc_page` returns with `pmm_mutex` held. -/
theorem lock_discipline_fails : ¬ ∀ (c : Call) (s : System), (∀ m, s.kernel.mutexes m = false) →
    LocksAt c.run s noneHeld := by
  intro h
  have hrun : onKernel pmmAllocPage System.full
      = .ok (0, { System.full with kernel := System.full.kernel.lock .pmm_mutex }) := by
    refine onKernel_eq_ok.mpr ⟨_, ?_, rfl⟩
    rw [pmmAllocPage_run rfl, full_starves]
    rfl
  exact not_locksAt_of_held ((bind_ok hrun).trans rfl) rfl
    (h .pmm_alloc_page System.full fun _ => rfl)

/-- A machine with 16 MiB of memory, of which four pages are left. -/
def System.scant : System where
  kernel := { State.boot with pmm := {
    bitmap := fun i => if i = 0 then 0xE1 else 255
    bitmap_size := 513
    total_pages := 4096
    used_pages := 4092
    highest_usable_address := 0xFFFFFF } }
  sched := System.full.sched

theorem test_scant (q : Nat) : System.scant.kernel.pmm.bitmap.test q = false ↔ 1 ≤ q ∧ q ≤ 4 := by
  rcases Nat.lt_or_ge q 8 with hlow | hhigh
  · interval_cases q <;> decide
  · have hones : System.scant.kernel.pmm.bitmap (q / 8) = 255 := if_neg (by omega)
    rw [Bitmap.test_of_ones hones]
    exact iff_of_false (by decide) (by omega)

theorem sound_scant : System.scant.kernel.Sound := by
  refine ⟨pageTree_empty rfl, freshFrames_empty rfl ?_, fun q hq => ?_, by decide⟩
  · decide
  · have hlow := (test_scant q).mp hq.unmarked
    omega

theorem findable_scant : System.scant.kernel.pmm.findable = {1, 2, 3, 4} := by
  have hhigh : System.scant.kernel.pmm.highest_usable_address = 0xFFFFFF := rfl
  ext q
  rw [mem_findable, Pmm.Allocatable, Nat.mul_div_cancel _ (by decide), test_scant, hhigh]
  simp only [Finset.mem_insert, Finset.mem_singleton]
  constructor
  · omega
  · rintro (rfl | rfl | rfl | rfl) <;> decide

/-- Four pages do for a page of the heap and its tables, and not for a second one. -/
theorem lock_discipline_iff_scant : (∀ m, System.scant.kernel.mutexes m = false) ∧
    System.scant.kernel.Sound ∧ LocksAt (Call.kmalloc 1).run System.scant noneHeld ∧
      ¬ LocksAt (Call.kmalloc 5000).run System.scant noneHeld := by
  have hfree : ∀ m, System.scant.kernel.mutexes m = false := fun _ => rfl
  have hspent : Spent System.scant.kernel System.scant.kernel 0 [] :=
    .relock sound_scant System.scant.kernel.mutexes
  have hplaces : System.scant.kernel.Places 0 [] KERNEL_HEAP 2 KERNEL_HEAP :=
    (places_iff hspent System.scant.kernel.mutexes).mpr
      ⟨by decide, vmmFind_oneFree rfl (by decide), by decide⟩
  refine ⟨hfree, sound_scant, ((lock_discipline_iff _ _ hfree).1 sound_scant).mpr ?_,
    fun h => ((lock_discipline_iff _ _ hfree).1 sound_scant).mp h ?_⟩
  -- one page: the first request finds a page
  · have hone : kmallocPages 1 = 1 := by decide
    rw [Call.Starves, hone]
    rintro ⟨p, -, ⟨i, hi, hcard, -⟩ | ⟨-, hrest⟩⟩
    · obtain rfl : i = 0 := by omega
      rw [findable_scant] at hcard
      cases hcard
    · exact hrest
  -- two pages: the second request comes when the first one and its tables have taken the four
  · have htwo : kmallocPages 5000 = 2 := by decide
    have hdemand : System.scant.kernel.demand 0 (pagesFrom KERNEL_HEAP 0 1) = 4 := by
      rw [State.demand, pagesFrom, pagesFrom, List.flatMap_singleton, missing_empty rfl]
      rfl
    rw [Call.Starves, htwo]
    refine ⟨KERNEL_HEAP, hplaces, Or.inl ⟨1, by decide, ?_, fun _ hsmall => ?_⟩⟩
    · rw [List.nil_append, hdemand, findable_scant]
      rfl
    · exact absurd hsmall (by decide)

end Windozz.Kernel

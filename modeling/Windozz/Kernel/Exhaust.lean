import Windozz.Kernel.Alloc

set_option autoImplicit false

/-! # Allocations that fail

`vmm_alloc` returns `NULL` for three reasons: the counters of `pmm.c` say that there are too few
pages, `vmm_find` finds no range, or a page is missing in the loop. The loop undoes nothing, so the
last one restores the state in the first round only.
-/

namespace Windozz.Kernel

open Radix

/-! ## The loop of `vmm_alloc`, without the binding of pages -/

/-- Between two states the frames `data` were taken for pages and the frames `new` for tables. -/
structure Extends (s s' : State) (data new : Finset Nat) : Prop where
  takes : Takes s.pmm s'.pmm (data ∪ new)
  disjoint : Disjoint data new
  tree : s'.PageTree
  fresh : s'.FreshFrames
  frames_eq : s'.tableFrames = s.tableFrames ∪ new
  noLargePage : ∀ w, s.NoLargePage w → s'.NoLargePage w

namespace Extends

variable {s s₁ : State} {data new : Finset Nat}

theorem start (htree : s.PageTree) (hfresh : s.FreshFrames) (m : Mutex → Bool) :
    Extends s { s with mutexes := m } ∅ ∅ :=
  ⟨.refl _, Finset.disjoint_empty_left _, htree, hfresh,
    by rw [Finset.coe_empty, Set.union_empty]; rfl, fun _ h => h⟩

theorem relock (h : Extends s s₁ data new) (m : Mutex → Bool) :
    Extends s { s₁ with mutexes := m } data new :=
  ⟨h.takes, h.disjoint, h.tree, h.fresh, h.frames_eq, h.noLargePage⟩

/-- **One round.** A frame is taken for the page, and others for missing tables. -/
theorem step (h : Extends s s₁ data new) {va flags phys : Nat} (hflags : flags < 2 ^ 64)
    (hlarge : s.NoLargePage va) {s₂ s₃ : State} (halloc : pmmAllocPage s₁ = .ok (phys, s₂))
    (hne : phys ≠ 0) (hmap : vmmMapPage va phys flags s₂ = .ok ((), s₃)) :
    ∃ new', new'.card ≤ 3 ∧ Maps s₂ s₃ new' va (phys ||| flags) ∧
      Extends s s₃ (insert (phys / 4096) data) (new ∪ new') := by
  obtain ⟨-, -, hlt, hfree, rfl⟩ := pmmAllocPage_ok halloc hne
  have htakes := takes_markPageUsed hfree
  have hfresh : (s₁.withPmm (pmmMarkPageUsed phys s₁.pmm)).FreshFrames := fun q hq =>
    h.fresh q (htakes.free_iff.mp hq).1
  have htree : (s₁.withPmm (pmmMarkPageUsed phys s₁.pmm)).PageTree := h.tree
  obtain ⟨new', hcard, hmaps⟩ := vmmMapPage_spec htree hfresh (h.noLargePage va hlarge)
    (Nat.or_lt_two_pow hlt hflags) hmap
  -- frames for pages and frames for tables are never the same
  have hdata : Disjoint data new' := Finset.disjoint_right.mpr fun q hq hin =>
    (h.takes.free_iff.mp (htakes.free_iff.mp (hmaps.takes.free q hq)).1).2
      (Finset.mem_union_left _ hin)
  have hphys : phys / 4096 ∉ new := fun hin =>
    (h.takes.free_iff.mp hfree).2 (Finset.mem_union_right _ hin)
  have hphys' : phys / 4096 ∉ new' := fun hin =>
    (htakes.free_iff.mp (hmaps.takes.free _ hin)).2 (Finset.mem_singleton_self _)
  refine ⟨new', hcard, hmaps, ?_, ?_, hmaps.tree, hmaps.fresh hfresh, ?_, ?_⟩
  · have hsets : insert (phys / 4096) data ∪ (new ∪ new') = data ∪ new ∪ ({phys / 4096} ∪ new') := by
      ext q
      simp only [Finset.mem_union, Finset.mem_insert, Finset.mem_singleton]
      tauto
    rw [hsets]
    exact h.takes.trans (htakes.trans hmaps.takes)
  · rw [Finset.disjoint_union_right, Finset.disjoint_insert_left, Finset.disjoint_insert_left]
    exact ⟨⟨hphys, h.disjoint⟩, hphys', hdata⟩
  · rw [hmaps.frames_eq, Finset.coe_union, ← Set.union_assoc]
    exact congrArg (· ∪ (new' : Set Nat)) h.frames_eq
  · exact fun w hw => hmaps.noLargePage w (h.noLargePage w hw)

end Extends

/-- **The loop.** However it ends, the rounds so far have taken frames for pages and for tables. -/
theorem allocLoop_extends {s : State} {ptr flags : Nat} (hflags : flags < 2 ^ 64) (n : Nat) :
    ∀ {i : Nat} {s₁ s' : State} {data new : Finset Nat} {done : Bool},
      (∀ j, j < i + n → s.NoLargePage (pageAt ptr j)) → Extends s s₁ data new →
      allocLoop ptr flags n i s₁ = .ok (done, s') →
      ∃ data' new', data ⊆ data' ∧ Extends s s' data' new' := by
  induction n with
  | zero =>
      intro i s₁ s' data new done _ h hrun
      obtain ⟨-, rfl⟩ := Prod.mk.inj (Except.ok.inj hrun)
      exact ⟨data, new, Finset.Subset.refl _, h⟩
  | succ n ih =>
      intro i s₁ s' data new done hlarge h hrun
      rw [allocLoop] at hrun
      obtain ⟨phys, s₂, halloc, hrun⟩ := Prog.bind_eq_ok.mp hrun
      by_cases hne : phys = 0
      · rw [if_pos hne] at hrun
        subst hne
        obtain ⟨-, rfl⟩ := Prod.mk.inj (Except.ok.inj hrun)
        rw [pmmAllocPage_null halloc]
        exact ⟨data, new, Finset.Subset.refl _, h.relock _⟩
      · rw [if_neg hne] at hrun
        obtain ⟨_, s₃, hmap, hrun⟩ := Prog.bind_eq_ok.mp hrun
        obtain ⟨new₁, -, -, hstep⟩ := h.step hflags (hlarge i (by omega)) halloc hne hmap
        obtain ⟨data', new', hsub, hext⟩ := ih (fun j hj => hlarge j (by omega)) hstep hrun
        exact ⟨data', new', (Finset.subset_insert _ _).trans hsub, hext⟩

/-- A loop that fails does so at once, or has taken a frame for a page. -/
theorem allocLoop_fails {s s' : State} (htree : s.PageTree) (hfresh : s.FreshFrames)
    {ptr flags : Nat} (hflags : flags < 2 ^ 64) {n : Nat} {m : Mutex → Bool}
    (hlarge : ∀ j, j < n → s.NoLargePage (pageAt ptr j))
    (hrun : allocLoop ptr flags n 0 { s with mutexes := m } = .ok (false, s')) :
    (pmmFindPage s.pmm = some 0 ∧ ∃ m', s' = { s with mutexes := m' }) ∨
      (pmmFindPage s.pmm ≠ some 0 ∧ ∃ data new, data.Nonempty ∧ Extends s s' data new) := by
  cases n with
  | zero =>
      cases hrun
  | succ n =>
      rw [allocLoop] at hrun
      obtain ⟨phys, s₂, halloc, hrun⟩ := Prog.bind_eq_ok.mp hrun
      have hfind := pmmAllocPage_find halloc
      -- the first request decides: once a page is there, it is never given back
      by_cases hne : phys = 0
      · rw [if_pos hne] at hrun
        subst hne
        obtain ⟨-, rfl⟩ := Prod.mk.inj (Except.ok.inj hrun)
        have hs₂ := pmmAllocPage_null halloc
        exact Or.inl ⟨hfind, _, hs₂⟩
      · rw [if_neg hne] at hrun
        obtain ⟨_, s₃, hmap, hrun⟩ := Prog.bind_eq_ok.mp hrun
        obtain ⟨new₁, -, -, hstep⟩ := (Extends.start htree hfresh m).step hflags
          (hlarge 0 (by omega)) halloc hne hmap
        obtain ⟨data, new, hsub, hext⟩ :=
          allocLoop_extends hflags n (fun j hj => hlarge j (by omega)) hstep hrun
        refine Or.inr ⟨fun h => hne ?_, data, new, ?_, hext⟩
        · rw [show pmmFindPage s.pmm = some phys from hfind] at h
          exact Option.some.inj h
        · exact ⟨_, hsub (Finset.mem_insert_self _ _)⟩

/-! ## What a failed allocation leaves -/

/-- Between two states nothing was allocated but frames for tables, and no translation was changed. -/
structure AsBefore (s s' : State) : Prop where
  pages : ∃ new : Finset Nat, (∀ q ∈ new, q ∈ s'.tableFrames ∧ q ∉ s.tableFrames) ∧
    (∀ q, s'.pmm.bitmap.test q = (s.pmm.bitmap.test q || decide (q ∈ new))) ∧
    s'.pmm.used_pages = s.pmm.used_pages + new.card
  translation : ∀ va, vmmGetPhysical va s' = vmmGetPhysical va s

theorem asBefore_relock (s : State) (m : Mutex → Bool) : AsBefore s { s with mutexes := m } :=
  ⟨⟨∅, by simp, by simp, rfl⟩, fun _ => rfl⟩

/-- A page that was taken in a round stays taken. -/
theorem Extends.not_asBefore {s s' : State} {data new : Finset Nat} (h : Extends s s' data new)
    (hfresh : s.FreshFrames) (hdata : data.Nonempty) : ¬ AsBefore s s' := by
  rintro ⟨⟨new', htables, htest, -⟩, -⟩
  obtain ⟨q, hq⟩ := hdata
  have hfree : s.pmm.Free q := h.takes.free q (Finset.mem_union_left _ hq)
  have hused : s'.pmm.bitmap.test q = true := by
    rw [h.takes.test_eq, decide_eq_true (Finset.mem_union_left _ hq), Bool.or_true]
  rw [htest, hfree.unmarked, Bool.false_or, decide_eq_true_eq] at hused
  have hin := (htables q hused).1
  rw [h.frames_eq] at hin
  rcases hin with hin | hin
  · exact hfresh q hfree hin
  · exact Finset.disjoint_left.mp h.disjoint hq hin

/-- The reasons for which `vmm_alloc` fails before its first round is complete. -/
def FailsAtOnce (start count : Nat) (s : State) : Prop :=
  u64 (s.pmm.total_pages + (2 ^ 64 - u64 s.pmm.used_pages)) ≤ count ∨
    vmmFind start count s = some 0 ∨ pmmFindPage s.pmm = some 0

/-! ## An allocation that fails in its second round -/

/-- A table of the last level for an address of an empty tree takes three frames. -/
theorem Maps.three_le {s s' : State} {new : Finset Nat} {va value : Nat}
    (h : Maps s s' new va value) (hempty : s.tableFrames = {s.root})
    (hpresent : value &&& PAGE_PRESENT ≠ 0) (hlarge : s'.NoLargePage va) : 3 ≤ new.card := by
  have hvalue := h.same va rfl
  obtain ⟨f₃, hwalk₃⟩ := walk_of_present hlarge (hvalue ▸ hpresent)
  have hroot : s'.root = s.root := by rw [State.root, h.only, State.root]
  obtain ⟨f₂, hwalk₂, -⟩ := Option.bind_eq_some_iff.mp
    ((walk_append [levelIndex 39 va, levelIndex 30 va] [levelIndex 21 va] s'.root).symm.trans hwalk₃)
  obtain ⟨f₁, hwalk₁, -⟩ := Option.bind_eq_some_iff.mp
    ((walk_append [levelIndex 39 va] [levelIndex 30 va] s'.root).symm.trans hwalk₂)
  have hnew : ∀ {is : List (Fin 512)} {f}, is ≠ [] → is.length ≤ 3 →
      walk pageFormat s'.tables s'.root is = some f → f ∈ new := by
    intro is f hne hlen hwalk
    have hin : f ∈ s'.tableFrames := ⟨is, hlen, hwalk⟩
    rw [h.frames_eq, hempty] at hin
    rcases hin with rfl | hin
    · rw [← hroot] at hwalk
      exact absurd (h.tree is [] _ hlen (Nat.zero_le _) hwalk rfl) hne
    · exact hin
  have hne : ∀ {is js : List (Fin 512)} {f g}, is.length < js.length → js.length ≤ 3 →
      walk pageFormat s'.tables s'.root is = some f →
      walk pageFormat s'.tables s'.root js = some g → f ≠ g := by
    rintro is js f _ hlt hlen hf hg rfl
    obtain rfl := h.tree is js f (by omega) hlen hf hg
    exact absurd hlt (lt_irrefl _)
  have hsub : ({f₁, f₂, f₃} : Finset Nat) ⊆ new := by
    simp only [Finset.insert_subset_iff, Finset.singleton_subset_iff]
    exact ⟨hnew (by simp) (by simp) hwalk₁, hnew (by simp) (by simp) hwalk₂,
      hnew (by simp [pathOf]) (by simp [pathOf]) hwalk₃⟩
  have hcard : ({f₁, f₂, f₃} : Finset Nat).card = 3 := by
    rw [Finset.card_eq_three]
    exact ⟨f₁, f₂, f₃, hne (by simp) (by simp) hwalk₁ hwalk₂,
      hne (by simp [pathOf]) (by simp [pathOf]) hwalk₁ hwalk₃,
      hne (by simp [pathOf]) (by simp [pathOf]) hwalk₂ hwalk₃, rfl⟩
  exact hcard ▸ Finset.card_le_card hsub

/-- A manager with four free pages, the pages 2048 to 2051. -/
def Pmm.fourPages : Pmm := pmmMarkPageUsed 0x804000 (.clean 0x805000)

theorem test_fourPages (q : Nat) :
    Pmm.fourPages.bitmap.test q = (decide (q < 2048) || decide (2052 = q)) := by
  rw [Pmm.fourPages, test_markPageUsed, test_clean]

theorem supply_fourPages : Pmm.fourPages.Supply 4 := by
  refine ⟨Finset.Ico 2048 2052, by simp, fun q hq => ?_⟩
  obtain ⟨hlow, hhigh⟩ := Finset.mem_Ico.mp hq
  refine ⟨Nat.mul_mod_left _ _, ?_, ?_⟩
  · show q * 4096 + 4096 < 0x805000
    omega
  · rw [Nat.mul_div_cancel _ (by decide), test_fourPages, decide_eq_false (by omega),
      decide_eq_false (by omega)]
    rfl

theorem scannable_fourPages : Pmm.fourPages.Scannable := ⟨by decide, by rw [test_fourPages]; rfl⟩

/-- When four pages were taken, none is left. -/
theorem findPage_fourPages {p : Pmm} {new : Finset Nat} (h : Takes .fourPages p new)
    (hcard : 4 ≤ new.card) : pmmFindPage p = some 0 := by
  have hhigh : p.highest_usable_address = 0x805000 := h.highest_eq
  have hsub : new ⊆ Finset.Ico 2048 2052 := by
    intro q hq
    obtain ⟨-, hbelow, hunused⟩ := h.free q hq
    rw [test_fourPages, Bool.or_eq_false_iff, decide_eq_false_iff_not,
      decide_eq_false_iff_not] at hunused
    have hlt : q * 4096 < 0x805000 := hbelow
    rw [Finset.mem_Ico]
    omega
  have hall : new = Finset.Ico 2048 2052 := Finset.eq_of_subset_of_card_le hsub (by simpa using hcard)
  refine pmmFindPage_null (by rw [hhigh]; decide) (by rw [hhigh]; decide) fun q hq => ?_
  obtain ⟨halign, hbelow, hunused⟩ := hq
  rw [h.test_eq, test_fourPages, hall, Bool.or_eq_false_iff, Bool.or_eq_false_iff,
    decide_eq_false_iff_not, decide_eq_false_iff_not, decide_eq_false_iff_not,
    Finset.mem_Ico] at hunused
  rw [hhigh] at hbelow
  omega

section FourPages

variable {s : State} (hmem : s.mem = fun _ => 0) (hpmm : s.pmm = .fourPages) (hroot : s.root = 8)
  (hm : s.mutexes .pmm_mutex = false)

include hmem

theorem tableFrames_empty : s.tableFrames = {s.root} := by
  ext f
  constructor
  · rintro ⟨is, -, hwalk⟩
    exact ((walk_empty hmem).mp hwalk).2
  · rintro rfl
    exact ⟨[], Nat.zero_le _, rfl⟩

include hpmm hroot

theorem freshFrames_fourPages : s.FreshFrames := by
  refine freshFrames_empty hmem ?_
  rw [hpmm, hroot, test_fourPages]
  rfl

include hm

/-- The first of two pages takes the four pages there are, three of them for tables. -/
theorem allocLoop_fourPages : ∃ s' data new, data.Nonempty ∧ Extends s s' data new ∧
    allocLoop KERNEL_HEAP KERNEL_HEAP_FLAGS 2 0 s = .ok (false, s') := by
  have hpage : pageAt KERNEL_HEAP 0 = KERNEL_HEAP := by decide
  have hstart := Extends.start (pageTree_empty hmem) (freshFrames_fourPages hmem hpmm hroot) s.mutexes
  have hscan : s.pmm.Scannable := hpmm ▸ scannable_fourPages
  have hsupply : s.pmm.Supply 4 := hpmm ▸ supply_fourPages
  obtain ⟨phys, hne, halloc⟩ := pmmAllocPage_returns hm hscan (hsupply.mono (by decide))
  obtain ⟨-, halign, -, hfree, -⟩ := pmmAllocPage_ok halloc hne
  have htakes := takes_markPageUsed hfree
  have hfresh : (s.withPmm (pmmMarkPageUsed phys s.pmm)).FreshFrames := fun q hq =>
    hstart.fresh q (htakes.free_iff.mp hq).1
  obtain ⟨s₁, hmap⟩ := vmmMapPage_returns
    (show (s.withPmm (pmmMarkPageUsed phys s.pmm)).PageTree from pageTree_empty hmem)
    (noLargePage_empty hmem KERNEL_HEAP) hfresh hm (htakes.scannable hscan)
    (htakes.supply (by rwa [Finset.card_singleton])) phys KERNEL_HEAP_FLAGS
  obtain ⟨new, -, hmaps, hext⟩ := hstart.step (by decide) (noLargePage_empty hmem KERNEL_HEAP) halloc
    hne hmap
  have hpresent : (phys ||| KERNEL_HEAP_FLAGS) &&& PAGE_PRESENT ≠ 0 := by
    have hflags : KERNEL_HEAP_FLAGS = 3 := rfl
    rw [or_flags halign (by decide), and_present, hflags]
    omega
  -- nothing was mapped, so all three levels are missing
  have hthree : 3 ≤ new.card := hmaps.three_le (tableFrames_empty hmem) hpresent
    (hmaps.noLargePage _ (noLargePage_empty hmem KERNEL_HEAP))
  have hnone : pmmFindPage s₁.pmm = some 0 := by
    refine findPage_fourPages (hpmm ▸ hext.takes) ?_
    rw [Finset.card_union_of_disjoint hext.disjoint, Finset.empty_union, insert_empty_eq,
      Finset.card_singleton]
    omega
  have hm₁ : s₁.mutexes .pmm_mutex = false := by
    rw [hmaps.only]
    exact hm
  have hnull := pmmAllocPage_run hm₁
  rw [hnone] at hnull
  refine ⟨_, _, _, Finset.insert_nonempty _ _,
    hext.relock (Function.update s₁.mutexes .pmm_mutex true), ?_⟩
  rw [allocLoop, Prog.bind_ok halloc, if_neg hne, hpage, Prog.bind_ok hmap, allocLoop,
    Prog.bind_ok hnull]
  rfl

end FourPages

theorem vmmFind_fourPages :
    vmmFind KERNEL_HEAP 2 (State.boot.withPmm .fourPages) = some KERNEL_HEAP := by
  refine vmmFind_reaches (k := 0) (by decide) (by decide) (by decide) (by decide)
    (fun j hj => absurd hj (Nat.not_lt_zero _)) fun i hi => vmmGetPhysical_none.mpr ⟨?_, ?_⟩
  · interval_cases i <;> decide
  · rw [vmmGetPage_empty rfl]
    rfl

/-- Two pages of the heap are asked for, with four pages free and no tables. -/
theorem vmmAlloc_fourPages : ∃ s' data new, data.Nonempty ∧
    Extends (State.boot.withPmm .fourPages) s' data new ∧
    vmmAlloc KERNEL_HEAP 2 KERNEL_HEAP_FLAGS (State.boot.withPmm .fourPages) = .ok (0, s') := by
  have hfind := vmmFind_fourPages
  obtain ⟨s', data, new, hdata, hext, hloop⟩ := allocLoop_fourPages
    (s := { State.boot.withPmm .fourPages with
      mutexes := Function.update State.boot.mutexes .vmm_mutex true }) rfl rfl rfl rfl
  have hboot : Extends (State.boot.withPmm .fourPages) s' data new :=
    ⟨hext.takes, hext.disjoint, hext.tree, hext.fresh, hext.frames_eq, hext.noLargePage⟩
  have hrelease := hboot.relock (Function.update s'.mutexes .vmm_mutex false)
  refine ⟨_, data, new, hdata, hrelease, ?_⟩
  rw [vmmAlloc, Prog.bind_ok (Prog.run_get _), if_neg (by decide), hfind]
  simp only
  rw [if_neg (by decide), Prog.bind_ok (acquire_free rfl)]
  exact Prog.bind_ok hloop

/-! ## The theorem -/

/-- **A failed allocation.** `vmm_alloc` returns `NULL` and leaves the free pages, the counter and
every translation as they were exactly when it fails before the first page is mapped. -/
theorem vmmAlloc_restored_iff {s s' : State} (htree : s.PageTree) (hfresh : s.FreshFrames)
    {start count flags : Nat} (hstart : start < 2 ^ 64) (hflags : flags < 2 ^ 64)
    (hrun : vmmAlloc start count flags s = .ok (0, s')) :
    AsBefore s s' ↔ FailsAtOnce start count s := by
  rw [vmmAlloc, Prog.bind_ok (Prog.run_get _)] at hrun
  by_cases hguard : u64 (s.pmm.total_pages + (2 ^ 64 - u64 s.pmm.used_pages)) ≤ count
  · rw [if_pos hguard] at hrun
    obtain ⟨-, rfl⟩ := Prod.mk.inj (Except.ok.inj hrun)
    exact iff_of_true (asBefore_relock s s.mutexes) (Or.inl hguard)
  · rw [if_neg hguard] at hrun
    cases hfind : vmmFind start count s with
    | none =>
        rw [hfind] at hrun
        cases hrun
    | some p =>
        rw [hfind] at hrun
        by_cases hp : p = 0
        · simp only [if_pos hp] at hrun
          obtain ⟨-, rfl⟩ := Prod.mk.inj (Except.ok.inj hrun)
          exact iff_of_true (asBefore_relock s s.mutexes) (Or.inr (Or.inl (hp ▸ hfind)))
        · simp only [if_neg hp] at hrun
          obtain ⟨_, s₁, hacquire, hrun⟩ := Prog.bind_eq_ok.mp hrun
          obtain ⟨done, s₂, hloop, hrun⟩ := Prog.bind_eq_ok.mp hrun
          rw [Prog.bind_ok (run_release _ _)] at hrun
          obtain rfl := acquire_ok hacquire
          have hnone := (vmmFind_unmapped hstart hfind hp).2.2
          have hlarge : ∀ j, j < count → s.NoLargePage (pageAt p j) := fun j hj =>
            noLargePage_of_absent (vmmGetPhysical_none.mp (hnone j (Or.inl hj))).2
          cases done with
          | true => exact absurd (Prod.mk.inj (Except.ok.inj hrun)).1 hp
          | false =>
              obtain ⟨-, rfl⟩ := Prod.mk.inj (Except.ok.inj hrun)
              -- when the first page is there, it is used from then on and the counter shows it
              rcases allocLoop_fails htree hfresh hflags hlarge hloop with
                ⟨hnull, m', rfl⟩ | ⟨hpage, data, new, hdata, hext⟩
              · exact iff_of_true (asBefore_relock s _) (Or.inr (Or.inr hnull))
              · refine iff_of_false ((hext.relock _).not_asBefore hfresh hdata) ?_
                rintro (h | h | h)
                · exact hguard h
                · exact hp (Option.some.inj (hfind.symm.trans h))
                · exact hpage h

/-- With four pages free and no tables, a request for four pages fails at once, and one for two pages
fails in its second round. -/
theorem vmmAlloc_restored_fourPages :
    (vmmAlloc KERNEL_HEAP 4 KERNEL_HEAP_FLAGS (State.boot.withPmm .fourPages)
        = .ok (0, State.boot.withPmm .fourPages) ∧
      AsBefore (State.boot.withPmm .fourPages) (State.boot.withPmm .fourPages)) ∧
    ∃ s', vmmAlloc KERNEL_HEAP 2 KERNEL_HEAP_FLAGS (State.boot.withPmm .fourPages) = .ok (0, s') ∧
      ¬ AsBefore (State.boot.withPmm .fourPages) s' ∧
      ¬ FailsAtOnce KERNEL_HEAP 2 (State.boot.withPmm .fourPages) := by
  have htree : (State.boot.withPmm .fourPages).PageTree := pageTree_empty rfl
  have hfresh := freshFrames_fourPages (s := State.boot.withPmm .fourPages) rfl rfl rfl
  have hguard : u64 (Pmm.fourPages.total_pages + (2 ^ 64 - u64 Pmm.fourPages.used_pages)) ≤ 4 := by
    decide
  have hmany : vmmAlloc KERNEL_HEAP 4 KERNEL_HEAP_FLAGS (State.boot.withPmm .fourPages)
      = .ok (0, State.boot.withPmm .fourPages) := by
    rw [vmmAlloc, Prog.bind_ok (Prog.run_get _)]
    exact if_pos hguard ▸ rfl
  obtain ⟨s', -, -, -, -, htwo⟩ := vmmAlloc_fourPages
  have hlater : ¬ FailsAtOnce KERNEL_HEAP 2 (State.boot.withPmm .fourPages) := by
    obtain ⟨phys, hne, halloc⟩ := pmmAllocPage_returns (s := State.boot.withPmm .fourPages) rfl
      scannable_fourPages (supply_fourPages.mono (by decide))
    have hpage := pmmAllocPage_find halloc
    rintro (hguard | hnull | hnull)
    · exact absurd hguard (by decide)
    · rw [vmmFind_fourPages] at hnull
      exact absurd (Option.some.inj hnull) (by decide)
    · exact hne (Option.some.inj (hpage.symm.trans hnull))
  refine ⟨⟨hmany, ?_⟩, s', htwo, ?_, hlater⟩
  · exact (vmmAlloc_restored_iff htree hfresh (by decide) (by decide) hmany).mpr (Or.inl hguard)
  · rwa [vmmAlloc_restored_iff htree hfresh (by decide) (by decide) htwo]

/-- **A request that fails in its second round.** Two pages of the heap are asked for, with four
pages free and no tables: `NULL` is returned, and a page stays mapped. -/
theorem vmmAlloc_not_asBefore : ∃ s', vmmAlloc KERNEL_HEAP 2 KERNEL_HEAP_FLAGS
    (State.boot.withPmm .fourPages) = .ok (0, s') ∧
      ¬ AsBefore (State.boot.withPmm .fourPages) s' := by
  have hfresh := freshFrames_fourPages (s := State.boot.withPmm .fourPages) rfl rfl rfl
  obtain ⟨s', data, new, hdata, hext, hrun⟩ := vmmAlloc_fourPages
  exact ⟨s', hrun, hext.not_asBefore hfresh hdata⟩

end Windozz.Kernel

import Windozz.Kernel.FindPage
import Windozz.Kernel.Returns

set_option autoImplicit false

/-! # What an allocation asks for

How many pages a call takes is settled before it: one for each page that it maps, and one for each
table on the way to these pages that is not there. The pages run out in a call when the free ones
are used up in front of one of its requests.
-/

namespace Windozz.Kernel

open Radix

/-! ## Free pages -/

/-- The pages that `pmm_find_page` can find. A free page 0 hides them. -/
def Pmm.findable (p : Pmm) : Finset Nat :=
  (Finset.range (p.highest_usable_address / 4096)).filter fun q =>
    p.bitmap.test 0 = true ∧ q * 4096 + 4096 < p.highest_usable_address ∧ p.bitmap.test q = false

/-- After `n` pages `pmm_find_page` finds none. For a memory of less than a page it does not return,
unless page 0 is free. -/
def Pmm.RunsOut (p : Pmm) (n : Nat) : Prop :=
  p.findable.card = n ∧
    (0 < p.highest_usable_address → p.highest_usable_address < 4096 → p.bitmap.test 0 = false)

instance (p : Pmm) (n : Nat) : Decidable (p.RunsOut n) := inferInstanceAs (Decidable (_ ∧ _))

section Findable

variable {p : Pmm} {n page q : Nat}

theorem mem_findable : q ∈ p.findable ↔ p.bitmap.test 0 = true ∧ p.Allocatable (q * 4096) := by
  rw [Pmm.findable, Finset.mem_filter, Finset.mem_range, Pmm.Allocatable,
    Nat.mul_div_cancel _ (by decide)]
  constructor
  · rintro ⟨-, hzero, hbelow, hfree⟩
    exact ⟨hzero, by omega, hbelow, hfree⟩
  · rintro ⟨hzero, -, hbelow, hfree⟩
    exact ⟨by omega, hzero, hbelow, hfree⟩

theorem findable_hidden (hzero : p.bitmap.test 0 = false) : p.findable = ∅ := by
  refine Finset.eq_empty_of_forall_notMem fun q hq => ?_
  rw [(mem_findable.mp hq).1] at hzero
  cases hzero

variable (hhigh : p.highest_usable_address < 2 ^ 64)

include hhigh

/-- `pmm_find_page` finds no page exactly when they have run out. -/
theorem findPage_null_iff : pmmFindPage p = some 0 ↔ p.RunsOut 0 := by
  rw [Pmm.RunsOut, Finset.card_eq_zero]
  by_cases hempty : p.highest_usable_address = 0
  · have hfindable : p.findable = ∅ := by rw [Pmm.findable, hempty]; rfl
    exact iff_of_true (findPageLoop_empty hempty _ 0 rfl (by omega) (by omega))
      ⟨hfindable, fun hpos => by omega⟩
  by_cases hzero : p.bitmap.test 0 = false
  · exact iff_of_true (pmmFindPage_zero (Nat.pos_of_ne_zero hempty) hzero)
      ⟨findable_hidden hzero, fun _ _ => hzero⟩
  rw [Bool.not_eq_false] at hzero
  rcases Nat.lt_or_ge p.highest_usable_address 4096 with hsmall | hlarge
  · have hnone : pmmFindPage p = none :=
      findPageLoop_endless (Nat.pos_of_ne_zero hempty) hsmall hzero _ 0 rfl (by omega)
    refine iff_of_false (by simp [hnone]) fun h => ?_
    rw [h.2 (Nat.pos_of_ne_zero hempty) hsmall] at hzero
    cases hzero
  · constructor
    · refine fun hfind => ⟨Finset.eq_empty_of_forall_notMem fun q hq => ?_, fun _ h => by omega⟩
      obtain ⟨r, hr, hne, -⟩ := pmmFindPage_least hhigh hzero (mem_findable.mp hq).2
      exact hne (Option.some.inj (hr.symm.trans hfind))
    · rintro ⟨hfindable, -⟩
      rcases Nat.eq_or_lt_of_le hlarge with heq | hlt
      · exact pmmFindPage_one heq.symm hzero
      · refine pmmFindPage_null hhigh hlt fun q hq => ?_
        have halign : q / 4096 * 4096 = q := by have := hq.1; omega
        have hmem : q / 4096 ∈ p.findable := mem_findable.mpr ⟨hzero, halign.symm ▸ hq⟩
        rw [hfindable] at hmem
        cases hmem

/-- A page that is found is one of the findable ones. -/
theorem findPage_findable (hfind : pmmFindPage p = some page) (hne : page ≠ 0) :
    page / 4096 ∈ p.findable := by
  have halloc := pmmFindPage_allocatable hhigh hfind hne
  have halign : page / 4096 * 4096 = page := by have := halloc.1; omega
  refine mem_findable.mpr ⟨?_, halign.symm ▸ halloc⟩
  by_contra hzero
  rw [Bool.not_eq_true] at hzero
  have hnull := pmmFindPage_zero (by have := halloc.2.1; omega) hzero
  exact hne (Option.some.inj (hfind.symm.trans hnull))

/-- While pages are left, one is found. -/
theorem findPage_left (h : p.RunsOut (n + 1)) : ∃ page, page ≠ 0 ∧ pmmFindPage p = some page := by
  obtain ⟨q, hq⟩ := Finset.card_pos.mp (by rw [h.1]; exact Nat.succ_pos n)
  obtain ⟨hzero, hq⟩ := mem_findable.mp hq
  obtain ⟨r, hr, hne, -⟩ := pmmFindPage_least hhigh hzero hq
  exact ⟨r, hne, hr⟩

end Findable

/-- While pages are left, `pmm_alloc_page` returns one. -/
theorem pmmAllocPage_left {s : State} {n : Nat} (hhigh : s.pmm.highest_usable_address < 2 ^ 64)
    (hm : s.mutexes .pmm_mutex = false) (h : s.pmm.RunsOut (n + 1)) :
    ∃ page, page ≠ 0 ∧ pmmAllocPage s = .ok (page, s.withPmm (pmmMarkPageUsed page s.pmm)) := by
  obtain ⟨page, hne, hfind⟩ := findPage_left hhigh h
  refine ⟨page, hne, ?_⟩
  rw [pmmAllocPage_run hm, hfind]
  exact if_neg hne

/-- Between two states of the manager `n` pages were handed out. -/
structure Pmm.Draws (p p' : Pmm) (n : Nat) : Prop where
  highest_eq : p'.highest_usable_address = p.highest_usable_address
  total_eq : p'.total_pages = p.total_pages
  used_eq : u64 p'.used_pages = u64 (p.used_pages + n)
  runsOut_iff : ∀ m, p'.RunsOut m ↔ p.RunsOut (m + n)

namespace Pmm.Draws

variable {p p' p'' : Pmm} {n n' : Nat}

theorem refl (p : Pmm) : p.Draws p 0 := ⟨rfl, rfl, rfl, fun _ => Iff.rfl⟩

theorem trans (h : p.Draws p' n) (h' : p'.Draws p'' n') : p.Draws p'' (n + n') := by
  refine ⟨h'.highest_eq.trans h.highest_eq, h'.total_eq.trans h.total_eq, ?_, fun m => ?_⟩
  · have hused := h.used_eq
    have hused' := h'.used_eq
    unfold u64 at *
    omega
  · rw [h'.runsOut_iff, h.runsOut_iff, Nat.add_assoc, Nat.add_comm n' n]

end Pmm.Draws

/-- A page that is found is handed out. -/
theorem draws_markPageUsed {p : Pmm} {page : Nat} (hhigh : p.highest_usable_address < 2 ^ 64)
    (hfind : pmmFindPage p = some page) (hne : page ≠ 0) : p.Draws (pmmMarkPageUsed page p) 1 := by
  have hmem := findPage_findable hhigh hfind hne
  obtain ⟨hzero, -, -, hfree⟩ := mem_findable.mp hmem
  rw [Nat.mul_div_cancel _ (by decide)] at hfree
  have hzero' : (pmmMarkPageUsed page p).bitmap.test 0 = true := by
    rw [test_markPageUsed, hzero, Bool.true_or]
  have hfindable : (pmmMarkPageUsed page p).findable = p.findable.erase (page / 4096) := by
    ext q
    rw [Finset.mem_erase, mem_findable, mem_findable, hzero, hzero', Pmm.Allocatable, Pmm.Allocatable,
      highest_markPageUsed, test_markPageUsed, Bool.or_eq_false_iff, decide_eq_false_iff_not,
      Nat.mul_div_cancel _ (by decide)]
    constructor
    · rintro ⟨-, halign, hbelow, hq, hother⟩
      exact ⟨fun h => hother h.symm, rfl, halign, hbelow, hq⟩
    · rintro ⟨hother, -, halign, hbelow, hq⟩
      exact ⟨rfl, halign, hbelow, hq, fun h => hother h.symm⟩
  refine ⟨highest_markPageUsed _ _, ?_, ?_, fun m => ?_⟩
  · unfold pmmMarkPageUsed
    split <;> rfl
  · rw [pmmMarkPageUsed, if_neg (by rw [hfree]; exact Bool.false_ne_true)]
    exact Nat.mod_mod _ _
  · have hpos := Finset.card_pos.mpr ⟨_, hmem⟩
    rw [Pmm.RunsOut, Pmm.RunsOut, hfindable, Finset.card_erase_of_mem hmem, highest_markPageUsed, hzero,
      hzero']
    exact and_congr_left fun _ => by omega

/-! ## Tables that are missing -/

/-- The paths to the tables of an address. -/
def tablePaths (virtual : Nat) : List (List (Fin 512)) :=
  [[levelIndex 39 virtual], [levelIndex 39 virtual, levelIndex 30 virtual], pathOf virtual]

/-- The paths, of these, that lead to no table. -/
def State.missing (s : State) (paths : List (List (Fin 512))) : Finset (List (Fin 512)) :=
  paths.toFinset.filter fun js => walk pageFormat s.tables s.root js = none

/-- In an empty tree the three tables of an address are missing. -/
theorem missing_empty {s : State} (hmem : s.mem = fun _ => 0) (virtual : Nat) :
    (s.missing (tablePaths virtual)).card = 3 := by
  have hall : s.missing (tablePaths virtual) = (tablePaths virtual).toFinset := by
    refine Finset.filter_true_of_mem fun js hjs => Option.eq_none_iff_forall_ne_some.mpr ?_
    intro f hwalk
    obtain ⟨rfl, -⟩ := (walk_empty hmem).mp hwalk
    simp [tablePaths, pathOf] at hjs
  rw [hall, List.toFinset_card_of_nodup (by simp [tablePaths, pathOf])]
  rfl

theorem State.missing_le (s : State) (paths paths' : List (List (Fin 512))) :
    (s.missing paths).card ≤ (s.missing (paths ++ paths')).card := by
  refine Finset.card_le_card (Finset.filter_subset_filter _ fun js hjs => ?_)
  rw [List.mem_toFinset] at hjs ⊢
  exact List.mem_append_left _ hjs

/-- Between two states `n` pages were handed out, and one for each of the paths that led to no table
before. -/
structure Spends (s s' : State) (n : Nat) (paths : List (List (Fin 512))) : Prop where
  draws : s.pmm.Draws s'.pmm (n + (s.missing paths).card)
  short : ∀ js ∈ paths, js.length ≤ 3
  walk_iff : ∀ js : List (Fin 512), js.length ≤ 3 →
    (walk pageFormat s'.tables s'.root js = none ↔
      walk pageFormat s.tables s.root js = none ∧ js ∉ paths)

namespace Spends

variable {s s' s'' : State} {n n' : Nat} {paths paths' : List (List (Fin 512))}

theorem missing_append (h : Spends s s' n paths) (hshort : ∀ js ∈ paths', js.length ≤ 3) :
    (s.missing (paths ++ paths')).card = (s.missing paths).card + (s'.missing paths').card := by
  have hunion : s.missing (paths ++ paths') = s.missing paths ∪ s'.missing paths' := by
    ext js
    simp only [State.missing, Finset.mem_union, Finset.mem_filter, List.mem_toFinset,
      List.mem_append]
    constructor
    · rintro ⟨hin | hin, hnone⟩
      · exact Or.inl ⟨hin, hnone⟩
      · by_cases hpath : js ∈ paths
        · exact Or.inl ⟨hpath, hnone⟩
        · exact Or.inr ⟨hin, (h.walk_iff js (hshort js hin)).mpr ⟨hnone, hpath⟩⟩
    · rintro (⟨hin, hnone⟩ | ⟨hin, hnone⟩)
      · exact ⟨Or.inl hin, hnone⟩
      · exact ⟨Or.inr hin, ((h.walk_iff js (hshort js hin)).mp hnone).1⟩
  rw [hunion, Finset.card_union_of_disjoint]
  refine Finset.disjoint_left.mpr fun js hjs hjs' => ?_
  simp only [State.missing, Finset.mem_filter, List.mem_toFinset] at hjs hjs'
  exact ((h.walk_iff js (hshort js hjs'.1)).mp hjs'.2).2 hjs.1

/-- Nothing is handed out, and the tables stay. -/
theorem same (hpmm : s'.pmm = s.pmm) (hwalk : ∀ js : List (Fin 512), js.length ≤ 3 →
    walk pageFormat s'.tables s'.root js = walk pageFormat s.tables s.root js) :
    Spends s s' 0 [] :=
  ⟨by rw [hpmm]; exact .refl _, by simp, fun js hjs => by simp [hwalk js hjs]⟩

theorem trans (h : Spends s s' n paths) (h' : Spends s' s'' n' paths') :
    Spends s s'' (n + n') (paths ++ paths') := by
  refine ⟨?_, fun js hjs => ?_, fun js hjs => ?_⟩
  · have hdraws := h.draws.trans h'.draws
    rwa [Nat.add_add_add_comm, ← h.missing_append h'.short] at hdraws
  · exact (List.mem_append.mp hjs).elim (h.short js) (h'.short js)
  · rw [h'.walk_iff js hjs, h.walk_iff js hjs, List.mem_append, not_or, and_assoc]

end Spends

section NextTable

variable {s s' : State} {is : List (Fin 512)} {f ptr : Nat} {i : Fin 512}
  (htree : s.PageTree) (hfresh : s.FreshFrames) (hhigh : s.pmm.highest_usable_address < 2 ^ 64)
  (his : is.length < 3) (hwalk : walk pageFormat s.tables s.root is = some f)
  (hlarge : ¬ LargePage (s.tables f i))

include hwalk hlarge in
/-- The table is missing when its entry is not present. -/
theorem walk_none_iff : walk pageFormat s.tables s.root (is ++ [i]) = none ↔
    entry s.mem (f * 4096) i &&& PAGE_PRESENT = 0 := by
  rw [walk_concat hwalk]
  show pageFormat.down (s.tables f i) = none ↔ s.tables f i &&& PAGE_PRESENT = 0
  by_cases hp : s.tables f i &&& PAGE_PRESENT = 0
  · exact iff_of_true (if_pos hp) hp
  · have hsmall : ¬ s.tables f i &&& PAGE_LARGE ≠ 0 := fun h => hlarge ⟨hp, h⟩
    have hsome : pageFormat.down (s.tables f i) = some (s.tables f i / 4096) :=
      (if_neg hp).trans (if_neg hsmall)
    exact iff_of_false (by simp [hsome]) hp

include htree hfresh hhigh his hwalk hlarge in
/-- One level of the map takes a page when the table is missing. -/
theorem vmmNextTable_spends (hrun : vmmNextTable (f * 4096) i s = .ok (ptr, s')) :
    Spends s s' 0 [is ++ [i]] := by
  have hnone := walk_none_iff hwalk hlarge
  have hshort : (is ++ [i]).length ≤ 3 := by simpa using his
  rcases vmmNextTable_ok hrun with ⟨hpresent, -, rfl⟩ | ⟨habsent, halign, hlt, hfree, -, rfl⟩
  -- the table is there
  · have hsome : walk pageFormat s'.tables s'.root (is ++ [i]) ≠ none := fun h => hpresent (hnone.mp h)
    refine ⟨?_, by simpa using his, fun js _ => ?_⟩
    · have hzero : s'.missing [is ++ [i]] = ∅ := by
        simp [State.missing, Finset.filter_singleton, hsome]
      rw [hzero]
      exact .refl _
    · constructor
      · intro h
        refine ⟨h, fun hin => hsome ?_⟩
        rwa [← List.mem_singleton.mp hin]
      · exact And.left
  -- the table was missing
  · have hmissing := hnone.mpr habsent
    refine ⟨?_, by simpa using his, fun js hjs => ?_⟩
    · have hone : s.missing [is ++ [i]] = {is ++ [i]} := by
        simp [State.missing, Finset.filter_singleton, hmissing]
      rw [hone, Finset.card_singleton]
      rw [vmmNextTable, Prog.bind_ok (Prog.run_get _), if_pos habsent] at hrun
      obtain ⟨page, s₁, halloc, hrun⟩ := Prog.bind_eq_ok.mp hrun
      by_cases hz : page = 0
      · rw [if_pos hz] at hrun
        cases hrun
      · rw [if_neg hz] at hrun
        have hmask : pageMask page = page := by
          have := (pmmAllocPage_ok halloc hz).2.1
          unfold pageMask
          omega
        have hptr := (Prod.mk.inj (Except.ok.inj hrun)).1
        rw [hmask] at hptr
        subst hptr
        exact draws_markPageUsed hhigh (pmmAllocPage_find halloc) hz
    · have hlink := fun h => walk_link_iff htree his hwalk (g := ptr / 4096) (h := h)
        (if_pos habsent) (down_link halign) (hfresh _ hfree) hjs
      show walk pageFormat (s.linkTable (f * 4096) i ptr).tables s.root js = none ↔ _
      rw [linkTable_tables halign hlt, Option.eq_none_iff_forall_ne_some,
        Option.eq_none_iff_forall_ne_some, List.mem_singleton]
      constructor
      · intro h
        exact ⟨fun g hg => h g ((hlink g).mpr (Or.inr hg)),
          fun heq => h _ ((hlink _).mpr (Or.inl ⟨heq, rfl⟩))⟩
      · rintro ⟨h, hne⟩ g hg
        rcases (hlink g).mp hg with ⟨heq, -⟩ | hg
        · exact hne heq
        · exact h g hg

include hhigh hwalk hlarge in
/-- With a page left for it, one level returns. -/
theorem vmmNextTable_left (hm : s.mutexes .pmm_mutex = false) {m : Nat}
    (hleft : s.pmm.RunsOut (m + (s.missing [is ++ [i]]).card)) :
    ∃ ptr s', vmmNextTable (f * 4096) i s = .ok (ptr, s') := by
  have hnone := walk_none_iff hwalk hlarge
  rw [vmmNextTable, Prog.bind_ok (Prog.run_get _)]
  by_cases hp : entry s.mem (f * 4096) i &&& PAGE_PRESENT = 0
  · have hone : s.missing [is ++ [i]] = {is ++ [i]} := by
      simp [State.missing, Finset.filter_singleton, hnone.mpr hp]
    rw [hone, Finset.card_singleton] at hleft
    obtain ⟨page, hne, halloc⟩ := pmmAllocPage_left hhigh hm hleft
    rw [if_pos hp, Prog.bind_ok halloc, if_neg hne]
    exact ⟨_, _, rfl⟩
  · rw [if_neg hp]
    exact ⟨_, _, rfl⟩

end NextTable

/-- The tables are in order, and what is free may be handed out. -/
structure State.Sound (s : State) : Prop where
  tree : s.PageTree
  fresh : s.FreshFrames
  window : s.WindowFrames
  highest_lt : s.pmm.highest_usable_address < 2 ^ 64

theorem State.Sound.relock {s : State} (h : s.Sound) (m : Mutex → Bool) :
    State.Sound { s with mutexes := m } := ⟨h.tree, h.fresh, h.window, h.highest_lt⟩

section MapPage

variable {s s' : State} {virtual physical flags : Nat}

theorem Grows.sound {new : Finset Nat} (h : Grows s s' new) (hs : s.Sound) : s'.Sound :=
  ⟨h.tree, h.fresh hs.fresh, fun q hq => hs.window q (h.takes.free_iff.mp hq).1,
    h.takes.highest_eq ▸ hs.highest_lt⟩

/-- One level on the way to a page. -/
theorem State.Sound.level (h : s.Sound) (hlarge : s.NoLargePage virtual) {p r : List (Fin 512)}
    {i : Fin 512} {f ptr : Nat} (hpath : pathOf virtual = p ++ i :: r)
    (hwalk : walk pageFormat s.tables s.root p = some f)
    (hrun : vmmNextTable (f * 4096) i s = .ok (ptr, s')) :
    ∃ g, ptr = g * 4096 ∧ walk pageFormat s'.tables s'.root (p ++ [i]) = some g ∧ s'.Sound ∧
      s'.NoLargePage virtual ∧ s'.mutexes = s.mutexes ∧ Spends s s' 0 [p ++ [i]] := by
  have hlen : p.length < 3 := by
    have hthree : (pathOf virtual).length = 3 := rfl
    rw [hpath, List.length_append, List.length_cons] at hthree
    omega
  have hentry := hlarge p i r f hpath hwalk
  obtain ⟨g, new, hptr, -, hgrows, hnext⟩ := vmmNextTable_spec h.tree h.fresh hlen hwalk hentry hrun
  exact ⟨g, hptr, hnext, hgrows.sound h, hgrows.along _ (le_refl _) hlarge, hgrows.mutexes_eq,
    vmmNextTable_spends h.tree h.fresh h.highest_lt hlen hwalk hentry hrun⟩

/-- A level returns when a page is left for it, and leaves the pages for the levels behind it. -/
theorem State.Sound.level_left (h : s.Sound) (hlarge : s.NoLargePage virtual)
    {p r : List (Fin 512)} {i : Fin 512} {f m : Nat} {rest : List (List (Fin 512))}
    (hpath : pathOf virtual = p ++ i :: r)
    (hwalk : walk pageFormat s.tables s.root p = some f) (hm : s.mutexes .pmm_mutex = false)
    (hshort : ∀ js ∈ rest, js.length ≤ 3)
    (hleft : s.pmm.RunsOut (m + (s.missing ((p ++ [i]) :: rest)).card)) :
    ∃ g s', vmmNextTable (f * 4096) i s = .ok (g * 4096, s') ∧
      walk pageFormat s'.tables s'.root (p ++ [i]) = some g ∧ s'.Sound ∧
      s'.NoLargePage virtual ∧ s'.mutexes .pmm_mutex = false ∧
      s'.pmm.RunsOut (m + (s'.missing rest).card) := by
  have hcard : _ ≤ (s.missing ((p ++ [i]) :: rest)).card := s.missing_le [p ++ [i]] rest
  obtain ⟨ptr, s', hrun⟩ := vmmNextTable_left h.highest_lt hwalk (hlarge p i r f hpath hwalk) hm
    (m := m + (s.missing ((p ++ [i]) :: rest)).card - (s.missing [p ++ [i]]).card)
    (by rwa [Nat.sub_add_cancel (by omega)])
  obtain ⟨g, rfl, hnext, h', hlarge', hmutexes, hspends⟩ := h.level hlarge hpath hwalk hrun
  have happend := hspends.missing_append hshort
  rw [List.singleton_append] at happend
  refine ⟨g, s', hrun, hnext, h', hlarge', by rw [hmutexes, hm], ?_⟩
  rw [hspends.draws.runsOut_iff]
  convert hleft using 1
  omega

variable (h : s.Sound) (hlarge : s.NoLargePage virtual)

include h hlarge

/-- `vmm_map_page` takes a page for each table that is missing. -/
theorem vmmMapPage_spends (hrun : vmmMapPage virtual physical flags s = .ok ((), s')) :
    Spends s s' 0 (tablePaths virtual) := by
  rw [vmmMapPage, Prog.bind_ok (Prog.run_get _)] at hrun
  obtain ⟨pdpt, s₁, hrun₁, hrun⟩ := Prog.bind_eq_ok.mp hrun
  obtain ⟨pd, s₂, hrun₂, hrun⟩ := Prog.bind_eq_ok.mp hrun
  obtain ⟨pt, s₃, hrun₃, hrun⟩ := Prog.bind_eq_ok.mp hrun
  obtain ⟨f₁, rfl, hwalk₁, h₁, hlarge₁, -, hspends₁⟩ :=
    h.level (p := []) (i := levelIndex 39 virtual) hlarge rfl rfl hrun₁
  obtain ⟨f₂, rfl, hwalk₂, h₂, hlarge₂, -, hspends₂⟩ :=
    h₁.level (i := levelIndex 30 virtual) hlarge₁ rfl hwalk₁ hrun₂
  obtain ⟨f₃, rfl, hwalk₃, h₃, -, -, hspends₃⟩ :=
    h₂.level (i := levelIndex 21 virtual) hlarge₂ rfl hwalk₂ hrun₃
  obtain rfl := (Prod.mk.inj (Except.ok.inj hrun)).2
  -- the entry is stored in a table of the last level
  have hlast : Spends s₃ (s₃.storeEntry f₃ (levelIndex 12 virtual) (physical ||| flags)) 0 [] := by
    refine .same rfl fun js hjs => ?_
    show walk pageFormat (tablesOf _) s₃.root js = _
    rw [State.storeEntry, tablesOf_setQword]
    exact walk_set_leaf h₃.tree rfl hwalk₃ hjs
  exact ((hspends₁.trans hspends₂).trans hspends₃).trans hlast

/-- With the pages left for them, it returns. -/
theorem vmmMapPage_left (hm : s.mutexes .pmm_mutex = false) {m : Nat}
    (hleft : s.pmm.RunsOut (m + (s.missing (tablePaths virtual)).card)) :
    ∃ s', vmmMapPage virtual physical flags s = .ok ((), s') := by
  rw [vmmMapPage, Prog.bind_ok (Prog.run_get _)]
  obtain ⟨f₁, s₁, hrun₁, hwalk₁, h₁, hlarge₁, hm₁, hleft₁⟩ :=
    h.level_left (p := []) (i := levelIndex 39 virtual) hlarge rfl rfl hm (by simp [pathOf]) hleft
  obtain ⟨f₂, s₂, hrun₂, hwalk₂, h₂, hlarge₂, hm₂, hleft₂⟩ :=
    h₁.level_left (i := levelIndex 30 virtual) hlarge₁ rfl hwalk₁ hm₁ (by simp [pathOf]) hleft₁
  obtain ⟨f₃, s₃, hrun₃, -⟩ :=
    h₂.level_left (i := levelIndex 21 virtual) hlarge₂ rfl hwalk₂ hm₂ (by simp) hleft₂
  have hmask : pageMask s.cr3 = s.root * 4096 := rfl
  have hindex : ∀ shift, tableIndex shift (virtual &&& 0xFFFFFFFFFFFF) = levelIndex shift virtual :=
    fun _ => rfl
  rw [hmask, hindex 39, hindex 30, hindex 21, Prog.bind_ok hrun₁, Prog.bind_ok hrun₂,
    Prog.bind_ok hrun₃]
  exact ⟨_, rfl⟩

/-- The tables stay in order. -/
theorem vmmMapPage_sound (hrun : vmmMapPage virtual physical flags s = .ok ((), s')) :
    s'.Sound ∧ (∀ w, s.NoLargePage w → s'.NoLargePage w) ∧ s'.mutexes = s.mutexes := by
  obtain ⟨s₁, f, new, -, hgrows, hwalk, rfl⟩ := vmmMapPage_ok h.tree h.fresh hlarge hrun
  have h₁ := hgrows.sound h
  have hlen : (pathOf virtual).length = 3 := rfl
  have htables : (s₁.storeEntry f (levelIndex 12 virtual) (physical ||| flags)).tables
      = Radix.set s₁.tables f (levelIndex 12 virtual) (u64 (physical ||| flags)) :=
    tablesOf_setQword ..
  have hroot : (s₁.storeEntry f (levelIndex 12 virtual) (physical ||| flags)).root = s₁.root := rfl
  refine ⟨⟨?_, fun q hq => ?_, h₁.window, h₁.highest_lt⟩, fun w hw => ?_, hgrows.mutexes_eq⟩
  · rw [State.PageTree, htables, hroot]
    exact tree_set_leaf h₁.tree hlen hwalk
  · rw [State.tableFrames, htables, hroot, tables_set_leaf h₁.tree hlen hwalk]
    exact h₁.fresh q hq
  · rw [State.NoLargePage, htables, hroot]
    exact along_set_leaf h₁.tree hlen hwalk (le_refl _) (hgrows.along _ (le_refl _) hw)

end MapPage

/-! ## Rounds -/

/-- What is asked for by `taken` pages, and others that are mapped at these addresses. -/
def State.demand (s : State) (taken : Nat) (pages : List Nat) : Nat :=
  taken + pages.length + (s.missing (pages.flatMap tablePaths)).card

@[simp] theorem demand_nil (s : State) (taken : Nat) : s.demand taken [] = taken := rfl

/-- The addresses that the loop of `vmm_alloc` maps in `n` rounds from round `i` on. -/
def pagesFrom (ptr : Nat) : Nat → Nat → List Nat
  | _, 0 => []
  | i, n + 1 => pageAt ptr i :: pagesFrom ptr (i + 1) n

theorem length_pagesFrom (ptr n : Nat) : ∀ i, (pagesFrom ptr i n).length = n := by
  induction n with
  | zero => exact fun _ => rfl
  | succ n ih => exact fun i => congrArg (· + 1) (ih (i + 1))

theorem tablePaths_short {pages : List Nat} : ∀ js ∈ pages.flatMap tablePaths, js.length ≤ 3 := by
  intro js hjs
  obtain ⟨page, -, hjs⟩ := List.mem_flatMap.mp hjs
  simp only [tablePaths, List.mem_cons, List.not_mem_nil, or_false] at hjs
  rcases hjs with rfl | rfl | rfl <;> simp [pathOf]

/-- What runs out behind a part of a call. -/
theorem Spends.runsOut_iff {s s' : State} {n m : Nat} {paths paths' : List (List (Fin 512))}
    (h : Spends s s' n paths) (hshort : ∀ js ∈ paths', js.length ≤ 3) :
    s'.pmm.RunsOut (m + (s'.missing paths').card) ↔
      s.pmm.RunsOut (m + n + (s.missing (paths ++ paths')).card) := by
  rw [h.draws.runsOut_iff, h.missing_append hshort]
  refine iff_of_eq (congrArg _ ?_)
  omega

/-- A page is taken. -/
theorem State.Sound.take {s s' : State} {page : Nat} (h : s.Sound)
    (halloc : pmmAllocPage s = .ok (page, s')) (hne : page ≠ 0) :
    s'.Sound ∧ Spends s s' 1 [] ∧ s' = s.withPmm (pmmMarkPageUsed page s.pmm) := by
  have hfind := pmmAllocPage_find halloc
  obtain ⟨-, -, -, hfree, rfl⟩ := pmmAllocPage_ok halloc hne
  have htakes := takes_markPageUsed hfree
  refine ⟨⟨h.tree, fun q hq => h.fresh q (htakes.free_iff.mp hq).1,
    fun q hq => h.window q (htakes.free_iff.mp hq).1, htakes.highest_eq ▸ h.highest_lt⟩,
    ⟨draws_markPageUsed h.highest_lt hfind hne, by simp, fun js _ => ?_⟩, rfl⟩
  exact (and_iff_left List.not_mem_nil).symm

section Rounds

variable {s s' : State} {ptr flags : Nat}

/-- **One round** of `vmm_alloc`. -/
theorem State.Sound.round (h : s.Sound) {virtual phys : Nat} {s₁ : State}
    (hlarge : s.NoLargePage virtual) (halloc : pmmAllocPage s = .ok (phys, s₁)) (hne : phys ≠ 0)
    (hmap : vmmMapPage virtual phys flags s₁ = .ok ((), s')) :
    s'.Sound ∧ (∀ w, s.NoLargePage w → s'.NoLargePage w) ∧ s'.mutexes = s.mutexes ∧
      Spends s s' 1 (tablePaths virtual) := by
  obtain ⟨h₁, hspends, rfl⟩ := h.take halloc hne
  obtain ⟨h', hkeeps, hmutexes⟩ := vmmMapPage_sound h₁ hlarge hmap
  exact ⟨h', hkeeps, hmutexes, hspends.trans (vmmMapPage_spends h₁ hlarge hmap)⟩

/-- With the pages left for it, a round returns. -/
theorem State.Sound.round_left (h : s.Sound) {virtual m : Nat} (hlarge : s.NoLargePage virtual)
    (hm : s.mutexes .pmm_mutex = false)
    (hleft : s.pmm.RunsOut (m + 1 + (s.missing (tablePaths virtual)).card)) (flags : Nat) :
    ∃ phys s₁ s', pmmAllocPage s = .ok (phys, s₁) ∧ phys ≠ 0 ∧
      vmmMapPage virtual phys flags s₁ = .ok ((), s') := by
  obtain ⟨phys, hne, halloc⟩ := pmmAllocPage_left h.highest_lt hm
    (n := m + (s.missing (tablePaths virtual)).card) (by convert hleft using 1; omega)
  obtain ⟨h₁, hspends, -⟩ := h.take halloc hne
  have hshort : ∀ js ∈ tablePaths virtual, js.length ≤ 3 := by simp [tablePaths, pathOf]
  obtain ⟨s', hmap⟩ : ∃ s', vmmMapPage virtual phys flags (s.withPmm (pmmMarkPageUsed phys s.pmm))
      = .ok ((), s') := vmmMapPage_left h₁ hlarge hm ((hspends.runsOut_iff hshort).mpr hleft)
  exact ⟨phys, _, s', halloc, hne, hmap⟩

/-- What runs out behind a round. -/
theorem runsOut_round {virtual taken : Nat} {pages : List Nat}
    (hspends : Spends s s' 1 (tablePaths virtual)) :
    s'.pmm.RunsOut (s'.demand taken pages) ↔ s.pmm.RunsOut (s.demand taken (virtual :: pages)) := by
  rw [State.demand, hspends.runsOut_iff tablePaths_short, State.demand, List.flatMap_cons,
    List.length_cons]
  refine iff_of_eq (congrArg _ ?_)
  omega

/-- The loop takes a page for each round, and one for each table that is missing. -/
theorem allocLoop_spends (n : Nat) : ∀ {s : State} {i : Nat}, s.Sound →
    (∀ j, i ≤ j → j < i + n → s.NoLargePage (pageAt ptr j)) →
    allocLoop ptr flags n i s = .ok (true, s') →
    Spends s s' n ((pagesFrom ptr i n).flatMap tablePaths) := by
  induction n with
  | zero =>
      intro s i _ _ hrun
      obtain ⟨-, rfl⟩ := Prod.mk.inj (Except.ok.inj hrun)
      exact .same rfl fun _ _ => rfl
  | succ n ih =>
      intro s i h hlarge hrun
      rw [allocLoop] at hrun
      obtain ⟨phys, s₁, halloc, hrun⟩ := Prog.bind_eq_ok.mp hrun
      by_cases hz : phys = 0
      · rw [if_pos hz] at hrun
        cases hrun
      · rw [if_neg hz] at hrun
        obtain ⟨_, s₂, hmap, hrun⟩ := Prog.bind_eq_ok.mp hrun
        obtain ⟨h₂, hkeeps, -, hspends⟩ := h.round (hlarge i (le_refl _) (by omega)) halloc hz hmap
        have hrest := ih h₂ (fun j hj hlt => hkeeps _ (hlarge j (by omega) (by omega))) hrun
        rw [pagesFrom, List.flatMap_cons, Nat.add_comm]
        exact hspends.trans hrest

/-- With the pages left for it, the loop returns. -/
theorem allocLoop_left (flags n : Nat) : ∀ {s : State} {i m : Nat}, s.Sound →
    (∀ j, i ≤ j → j < i + n → s.NoLargePage (pageAt ptr j)) → s.mutexes .pmm_mutex = false →
    s.pmm.RunsOut (s.demand m (pagesFrom ptr i n)) →
    ∃ s', allocLoop ptr flags n i s = .ok (true, s') ∧ s'.mutexes = s.mutexes := by
  induction n with
  | zero => exact fun {s} _ _ _ _ _ _ => ⟨s, rfl, rfl⟩
  | succ n ih =>
      intro s i m h hlarge hm hleft
      have hpage := hlarge i (le_refl _) (by omega)
      have hle := s.missing_le (tablePaths (pageAt ptr i))
        ((pagesFrom ptr (i + 1) n).flatMap tablePaths)
      rw [pagesFrom] at hleft
      obtain ⟨phys, s₁, s₂, halloc, hne, hmap⟩ := h.round_left hpage hm
        (m := m + n + (s.missing (tablePaths (pageAt ptr i) ++
          (pagesFrom ptr (i + 1) n).flatMap tablePaths)).card
            - (s.missing (tablePaths (pageAt ptr i))).card) (by
        convert hleft using 1
        rw [State.demand, List.flatMap_cons, List.length_cons, length_pagesFrom]
        omega) flags
      obtain ⟨h₂, hkeeps, hmutexes, hspends⟩ := h.round hpage halloc hne hmap
      obtain ⟨s', hrun, hmutexes'⟩ := ih h₂ (fun j hj hlt => hkeeps _ (hlarge j (by omega) (by omega)))
        (by rw [hmutexes, hm]) ((runsOut_round hspends).mpr hleft)
      refine ⟨s', ?_, hmutexes'.trans hmutexes⟩
      rw [allocLoop, Prog.bind_ok halloc, if_neg hne, Prog.bind_ok hmap, hrun]

end Rounds

end Windozz.Kernel

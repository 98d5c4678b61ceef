import Windozz.Kernel.Pmm

set_option autoImplicit false

/-! # The page that `pmm_find_page` finds

`pmm_find_page` is meant to find the lowest free page that lies in memory as a whole
(`Pmm.Whole`). Its loop leaves when the page behind the current one reaches
`highest_usable_address - 4096`, but `highest_usable_address` is the last byte of memory and not
the first one behind it: the scan stops in front of the last page (`Pmm.Allocatable`). For a memory
of less than a page the limit wraps, and the loop does not end.
-/

namespace Windozz.Kernel

/-- A free page that lies in memory as a whole. -/
def Pmm.Whole (p : Pmm) (page : Nat) : Prop :=
  page % 4096 = 0 ∧ page + 4095 ≤ p.highest_usable_address ∧ p.bitmap.test (page / 4096) = false

/-- `pmm_find_page` returns the lowest free page, and `NULL` exactly when there is none but page
0. -/
def FindsLowest (p : Pmm) : Prop :=
  ∃ r, pmmFindPage p = some r ∧ (r ≠ 0 → p.Whole r ∧ ∀ q, p.Whole q → r ≤ q) ∧
    (r = 0 ↔ ∀ q, p.Whole q → q = 0)

section FindPage

variable {p : Pmm}

theorem Pmm.Allocatable.whole {q : Nat} (h : p.Allocatable q) : p.Whole q :=
  ⟨h.1, by have := h.2.1; omega, h.2.2⟩

/-! ## The scan by the size of memory -/

/-- Without memory the scan runs through all addresses. -/
theorem findPageLoop_empty (hnone : p.highest_usable_address = 0) (fuel : Nat) :
    ∀ page : Nat, page % 4096 = 0 → page + 4096 ≤ 2 ^ 64 - 4096 →
      (2 ^ 64 - 4096 - page) / 4096 ≤ fuel → findPageLoop p fuel page = some 0 := by
  induction fuel with
  | zero =>
      intro page _ _ h
      omega
  | succ fuel ih =>
      intro page halign hle hfuel
      have hused : ¬ pmmGetPage page p = false := by
        rw [pmmGetPage, if_pos (by omega)]
        exact Bool.noConfusion
      have hnext : u64 (page + 4096) = page + 4096 := u64_of_lt (by omega)
      rw [findPageLoop, if_neg hused]
      simp only [hnext, hnone, Nat.zero_add, u64_of_lt (show 2 ^ 64 - 4096 < 2 ^ 64 by omega)]
      by_cases hend : 2 ^ 64 - 4096 ≤ page + 4096
      · rw [if_pos hend]
      · rw [if_neg hend]
        exact ih (page + 4096) (by omega) (by omega) (by omega)

/-- With less than a page of memory the limit is behind the last page. -/
theorem findPageLoop_endless (hpos : 0 < p.highest_usable_address)
    (hsmall : p.highest_usable_address < 4096) (hzero : p.bitmap.test 0 = true) (fuel : Nat) :
    ∀ page : Nat, page % 4096 = 0 → page < 2 ^ 64 → findPageLoop p fuel page = none := by
  induction fuel with
  | zero => exact fun _ _ _ => rfl
  | succ fuel ih =>
      intro page halign hlt
      have hused : ¬ pmmGetPage page p = false := by
        rw [pmmGetPage]
        by_cases hfirst : page = 0
        · rw [if_neg (by omega), hfirst, Nat.zero_div, hzero]
          exact Bool.noConfusion
        · rw [if_pos (by omega)]
          exact Bool.noConfusion
      have hlimit : u64 (p.highest_usable_address + (2 ^ 64 - 4096))
          = p.highest_usable_address + (2 ^ 64 - 4096) := u64_of_lt (by omega)
      have hnext : u64 (page + 4096) % 4096 = 0 ∧ u64 (page + 4096) < 2 ^ 64 := by
        unfold u64
        omega
      rw [findPageLoop, if_neg hused]
      simp only [hlimit]
      rw [if_neg (by omega)]
      exact ih _ hnext.1 hnext.2

/-- The first round. -/
theorem pmmFindPage_first : pmmFindPage p =
    if pmmGetPage 0 p = false then some 0
    else if u64 (p.highest_usable_address + (2 ^ 64 - 4096)) ≤ 4096 then some 0
    else findPageLoop p (2 ^ 52 - 1) 4096 := by
  have hfuel : 2 ^ 52 = 2 ^ 52 - 1 + 1 := by omega
  rw [pmmFindPage, hfuel, findPageLoop]
  rfl

/-- A free page 0 ends the scan at once. -/
theorem pmmFindPage_zero (hpos : 0 < p.highest_usable_address) (hzero : p.bitmap.test 0 = false) :
    pmmFindPage p = some 0 := by
  have hfree : pmmGetPage 0 p = false := by
    rw [pmmGetPage, if_neg (by omega)]
    exact hzero
  rw [pmmFindPage_first, if_pos hfree]

/-- `pmm_find_page` stops after one page if memory ends with the first byte of the next. -/
theorem pmmFindPage_one (hone : p.highest_usable_address = 4096) (hzero : p.bitmap.test 0 = true) :
    pmmFindPage p = some 0 := by
  have hused : ¬ pmmGetPage 0 p = false := by
    rw [pmmGetPage, if_neg (by omega), Nat.zero_div, hzero]
    exact Bool.noConfusion
  rw [pmmFindPage_first, if_neg hused, hone, if_pos (by decide)]

/-- `pmm_find_page` returns the lowest page it can find. -/
theorem pmmFindPage_least (hhigh : p.highest_usable_address < 2 ^ 64)
    (hzero : p.bitmap.test 0 = true) {q : Nat} (hq : p.Allocatable q) :
    ∃ r, pmmFindPage p = some r ∧ r ≠ 0 ∧ p.Allocatable r ∧ ∀ q, p.Whole q → r ≤ q := by
  obtain ⟨r, hr, hne⟩ := pmmFindPage_spec hhigh hzero hq
  have halloc := pmmFindPage_allocatable hhigh hr hne
  refine ⟨r, hr, hne, halloc, fun w hw => ?_⟩
  by_contra hlt
  -- a whole page in front of an allocatable one is allocatable
  have hwalloc : p.Allocatable w := ⟨hw.1, by have := halloc.2.1; omega, hw.2.2⟩
  obtain ⟨r', hr', hle, -⟩ := findPageLoop_first hhigh hwalloc (2 ^ 52) 0 rfl (Nat.zero_le _)
    (by have := hw.2.1; omega)
  rw [pmmFindPage, hr'] at hr
  have := Option.some.inj hr
  omega

/-! ## When the lowest page is found -/

theorem findsLowest_null (hr : pmmFindPage p = some 0) :
    FindsLowest p ↔ ∀ q, p.Whole q → q = 0 := by
  constructor
  · rintro ⟨r, hr', -, hnull⟩
    obtain rfl := Option.some.inj (hr.symm.trans hr')
    exact hnull.mp rfl
  · exact fun hnone => ⟨0, hr, fun hne => absurd rfl hne, iff_of_true rfl hnone⟩

/-- **`pmm_find_page`** finds the lowest free page unless memory is smaller than a page, page 0 is
free beside another one, or all free pages end within a byte of the highest usable address. -/
theorem pmmFindPage_lowest_iff (p : Pmm) (hhigh : p.highest_usable_address < 2 ^ 64) :
    FindsLowest p ↔
      (0 < p.highest_usable_address → p.highest_usable_address < 4096 → p.bitmap.test 0 = false) ∧
      ((∃ q, q ≠ 0 ∧ p.Whole q) → p.bitmap.test 0 = true ∧
        ∃ q, q ≠ 0 ∧ p.Whole q ∧ q + 4096 < p.highest_usable_address) := by
  have hother : (∀ q, p.Whole q → q = 0) ↔ ¬ ∃ q, q ≠ 0 ∧ p.Whole q := by
    constructor
    · rintro hall ⟨q, hne, hq⟩
      exact hne (hall q hq)
    · exact fun hnone q hq => by_contra fun hne => hnone ⟨q, hne, hq⟩
  by_cases hempty : p.highest_usable_address = 0
  · -- no page lies in memory
    have hno : ¬ ∃ q, q ≠ 0 ∧ p.Whole q := by
      rintro ⟨q, -, -, hle, -⟩
      omega
    rw [findsLowest_null (findPageLoop_empty hempty _ 0 rfl (by omega) (by omega)), hother]
    exact iff_of_true hno ⟨fun hpos => by omega, fun hex => absurd hex hno⟩
  by_cases hzero : p.bitmap.test 0 = true
  · rcases Nat.lt_or_ge p.highest_usable_address 4096 with hsmall | hlarge
    · -- the scan does not end
      have hnone : pmmFindPage p = none :=
        findPageLoop_endless (Nat.pos_of_ne_zero hempty) hsmall hzero _ 0 rfl (by omega)
      refine iff_of_false ?_ fun hcond => ?_
      · rintro ⟨r, hr, -⟩
        rw [hnone] at hr
        cases hr
      · rw [hcond.1 (Nat.pos_of_ne_zero hempty) hsmall] at hzero
        cases hzero
    · by_cases halloc : ∃ q, p.Allocatable q
      · obtain ⟨q, hq⟩ := halloc
        obtain ⟨r, hr, hne, hralloc, hleast⟩ := pmmFindPage_least hhigh hzero hq
        have hnull : r = 0 ↔ ∀ q, p.Whole q → q = 0 :=
          iff_of_false hne fun hall => hne (hall r hralloc.whole)
        refine iff_of_true ⟨r, hr, fun _ => ⟨hralloc.whole, hleast⟩, hnull⟩ ⟨fun _ h => by omega, ?_⟩
        exact fun _ => ⟨hzero, r, hne, hralloc.whole, hralloc.2.1⟩
      · have hr : pmmFindPage p = some 0 := by
          rcases Nat.eq_or_lt_of_le hlarge with heq | hlt
          · exact pmmFindPage_one heq.symm hzero
          · exact pmmFindPage_null hhigh hlt fun q hq => halloc ⟨q, hq⟩
        rw [findsLowest_null hr, hother]
        constructor
        · exact fun hno => ⟨fun _ h => by omega, fun hex => absurd hex hno⟩
        · rintro ⟨-, hcond⟩ hex
          obtain ⟨-, q, -, hwhole, hlt⟩ := hcond hex
          exact halloc ⟨q, hwhole.1, hlt, hwhole.2.2⟩
  · have hfree : p.bitmap.test 0 = false := by simpa using hzero
    rw [findsLowest_null (pmmFindPage_zero (Nat.pos_of_ne_zero hempty) hfree), hother]
    constructor
    · exact fun hno => ⟨fun _ _ => hfree, fun hex => absurd hex hno⟩
    · rintro ⟨-, hcond⟩ hex
      exact hzero (hcond hex).1

/-- Memory of 16 MiB of which the last page is free. -/
def Pmm.lastFree : Pmm where
  bitmap := Bitmap.unmark (fun _ => 255) 4095
  bitmap_size := 512
  total_pages := 4096
  used_pages := 4095
  highest_usable_address := 0xFFFFFF

theorem test_lastFree (q : Nat) : Pmm.lastFree.bitmap.test q = !decide (4095 = q) := by
  have hones : Bitmap.test (fun _ => 255) q = true := Bitmap.test_of_ones rfl
  rw [Pmm.lastFree, Bitmap.test_unmark, hones, Bool.true_and]

/-- The scan stops in front of the last page. -/
theorem pmmFindPage_misses_last : Pmm.lastFree.Whole 0xFFF000 ∧
    pmmFindPage Pmm.lastFree = some 0 ∧ ¬ FindsLowest Pmm.lastFree := by
  have hwhole : Pmm.lastFree.Whole 0xFFF000 :=
    ⟨rfl, by decide, by rw [test_lastFree]; rfl⟩
  have hr : pmmFindPage Pmm.lastFree = some 0 := by
    refine pmmFindPage_null (by decide) (by decide) fun q hq => ?_
    obtain ⟨halign, hlt, hfree⟩ := hq
    rw [test_lastFree] at hfree
    simp only [Pmm.lastFree] at hlt
    simp only [Bool.not_eq_false', decide_eq_true_eq] at hfree
    omega
  refine ⟨hwhole, hr, fun hfinds => ?_⟩
  have hzero := (findsLowest_null hr).mp hfinds _ hwhole
  omega

/-- The condition on that memory. -/
theorem pmmFindPage_lowest_last : FindsLowest Pmm.lastFree ↔
    (0 < Pmm.lastFree.highest_usable_address → Pmm.lastFree.highest_usable_address < 4096 →
      Pmm.lastFree.bitmap.test 0 = false) ∧
    ((∃ q, q ≠ 0 ∧ Pmm.lastFree.Whole q) → Pmm.lastFree.bitmap.test 0 = true ∧
      ∃ q, q ≠ 0 ∧ Pmm.lastFree.Whole q ∧ q + 4096 < Pmm.lastFree.highest_usable_address) :=
  pmmFindPage_lowest_iff Pmm.lastFree (by decide)

end FindPage

end Windozz.Kernel

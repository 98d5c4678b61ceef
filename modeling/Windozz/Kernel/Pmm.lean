import Mathlib.Data.Finset.Card
import Mathlib.Logic.Relation
import Windozz.Kernel.State

set_option autoImplicit false

/-! # The physical memory manager

The page bitmap of `pmm.c`: the mark functions with their early returns and their counter, the
first-fit scan `pmm_find_page`, and allocation and release of pages under `pmm_mutex`.

`Pmm.Allocatable` is what the scan can find; `pmmFindPage_spec` says that it finds such a page
whenever there is one. Over any history of allocations and releases the bitmap and the counter
stay in step with the set of outstanding pages (`pmm_run`).
-/

namespace Windozz.Kernel

open Relation

/-! ## Marking and testing pages -/

/-- `pmm_mark_page_free`. -/
def pmmMarkPageFree (addr : Nat) (p : Pmm) : Pmm :=
  if p.bitmap.test (addr / 4096) = false then p
  else { p with
    bitmap := p.bitmap.unmark (addr / 4096)
    used_pages := u64 (p.used_pages + (2 ^ 64 - 1)) }

/-- `pmm_mark_page_used`. -/
def pmmMarkPageUsed (addr : Nat) (p : Pmm) : Pmm :=
  if p.bitmap.test (addr / 4096) then p
  else { p with
    bitmap := p.bitmap.mark (addr / 4096)
    used_pages := u64 (p.used_pages + 1) }

/-- `pmm_get_page`. -/
def pmmGetPage (addr : Nat) (p : Pmm) : Bool :=
  if p.highest_usable_address ≤ addr then true else p.bitmap.test (addr / 4096)

section Mark

variable (addr : Nat) (p : Pmm) (q : Nat)

@[simp] theorem highest_markPageFree :
    (pmmMarkPageFree addr p).highest_usable_address = p.highest_usable_address := by
  unfold pmmMarkPageFree
  split <;> rfl

@[simp] theorem highest_markPageUsed :
    (pmmMarkPageUsed addr p).highest_usable_address = p.highest_usable_address := by
  unfold pmmMarkPageUsed
  split <;> rfl

theorem test_markPageFree : (pmmMarkPageFree addr p).bitmap.test q
    = (p.bitmap.test q && !decide (addr / 4096 = q)) := by
  unfold pmmMarkPageFree
  by_cases h : p.bitmap.test (addr / 4096) = false
  · rw [if_pos h]
    by_cases hq : addr / 4096 = q
    · simp [← hq, h]
    · simp [hq]
  · rw [if_neg h]
    exact Bitmap.test_unmark _ _ _

theorem test_markPageUsed : (pmmMarkPageUsed addr p).bitmap.test q
    = (p.bitmap.test q || decide (addr / 4096 = q)) := by
  unfold pmmMarkPageUsed
  by_cases h : p.bitmap.test (addr / 4096) = true
  · rw [if_pos h]
    by_cases hq : addr / 4096 = q
    · simp [← hq, h]
    · simp [hq]
  · rw [if_neg h]
    exact Bitmap.test_mark _ _ _

end Mark

/-! ## The scan -/

/-- The loop of `pmm_find_page`. `some 0` stands for `NULL`, `none` for a loop that does not end
within `fuel` rounds. -/
def findPageLoop (p : Pmm) : Nat → Nat → Option Nat
  | 0, _ => none
  | fuel + 1, page =>
      if pmmGetPage page p = false then some page
      else
        let page := u64 (page + 4096)
        if u64 (p.highest_usable_address + (2 ^ 64 - 4096)) ≤ page then some 0
        else findPageLoop p fuel page

/-- `pmm_find_page`. The loop visits at most `2 ^ 52` pages before it is back at the first. -/
def pmmFindPage (p : Pmm) : Option Nat := findPageLoop p (2 ^ 52) 0

/-- A page the scan can find. -/
def Pmm.Allocatable (p : Pmm) (page : Nat) : Prop :=
  page % 4096 = 0 ∧ page + 4096 < p.highest_usable_address ∧ p.bitmap.test (page / 4096) = false

/-- What the scan finds is a free page. -/
theorem findPageLoop_free {p : Pmm} {fuel : Nat} : ∀ {page q : Nat}, page % 4096 = 0 →
    page < 2 ^ 64 → findPageLoop p fuel page = some q →
    q = 0 ∨ q % 4096 = 0 ∧ q < 2 ^ 64 ∧ pmmGetPage q p = false := by
  induction fuel with
  | zero =>
      intro page q _ _ h
      cases h
  | succ fuel ih =>
      intro page q hpage hlt h
      rw [findPageLoop] at h
      by_cases hfree : pmmGetPage page p = false
      · rw [if_pos hfree] at h
        obtain rfl := Option.some.inj h
        exact Or.inr ⟨hpage, hlt, hfree⟩
      · rw [if_neg hfree] at h
        simp only at h
        split at h
        · exact Or.inl (Option.some.inj h).symm
        · exact ih (by unfold u64; omega) (u64_lt _) h

/-- A page found by `pmm_find_page` is aligned, below the highest usable address and free. -/
theorem pmmFindPage_free {p : Pmm} {page : Nat} (h : pmmFindPage p = some page) (hne : page ≠ 0) :
    page % 4096 = 0 ∧ page < p.highest_usable_address ∧ p.bitmap.test (page / 4096) = false := by
  rcases findPageLoop_free (Nat.zero_mod _) (by decide) h with h0 | ⟨halign, -, hfree⟩
  · exact absurd h0 hne
  · unfold pmmGetPage at hfree
    by_cases hhigh : p.highest_usable_address ≤ page
    · rw [if_pos hhigh] at hfree
      cases hfree
    · rw [if_neg hhigh] at hfree
      exact ⟨halign, not_le.mp hhigh, hfree⟩

theorem pmmFindPage_lt {p : Pmm} {page : Nat} (h : pmmFindPage p = some page) : page < 2 ^ 64 := by
  rcases findPageLoop_free (Nat.zero_mod _) (by decide) h with rfl | ⟨-, hlt, -⟩
  · decide
  · exact hlt

/-- The scan stops a page below the highest usable address. -/
theorem findPageLoop_below {p : Pmm} {fuel : Nat} : ∀ {page q : Nat},
    findPageLoop p fuel page = some q →
    q = 0 ∨ q = page ∨ q < u64 (p.highest_usable_address + (2 ^ 64 - 4096)) := by
  induction fuel with
  | zero =>
      intro page q h
      cases h
  | succ fuel ih =>
      intro page q h
      rw [findPageLoop] at h
      split at h
      · exact Or.inr (Or.inl (Option.some.inj h).symm)
      · simp only at h
        split at h
        · exact Or.inl (Option.some.inj h).symm
        · rename_i hlimit
          rcases ih h with h0 | hq | hlt
          · exact Or.inl h0
          · rw [hq]
            exact Or.inr (Or.inr (not_le.mp hlimit))
          · exact Or.inr (Or.inr hlt)

/-- What the scan finds is allocatable. -/
theorem pmmFindPage_allocatable {p : Pmm} {page : Nat} (hhigh : p.highest_usable_address < 2 ^ 64)
    (h : pmmFindPage p = some page) (hne : page ≠ 0) : p.Allocatable page := by
  obtain ⟨halign, hbelow, hfree⟩ := pmmFindPage_free h hne
  refine ⟨halign, ?_, hfree⟩
  rw [pmmFindPage] at h
  rcases findPageLoop_below h with h0 | h0 | hlt
  · exact absurd h0 hne
  · exact absurd h0 hne
  · unfold u64 at hlt
    omega

/-- The scan does not pass an allocatable page. -/
theorem findPageLoop_first {p : Pmm} {q : Nat} (hhigh : p.highest_usable_address < 2 ^ 64)
    (hq : p.Allocatable q) (fuel : Nat) : ∀ page : Nat, page % 4096 = 0 → page ≤ q →
      (q - page) / 4096 < fuel →
      ∃ r, findPageLoop p fuel page = some r ∧ r ≤ q ∧ pmmGetPage r p = false := by
  obtain ⟨halign, hlt, hfree⟩ := hq
  have hget : pmmGetPage q p = false := by
    rw [pmmGetPage, if_neg (by omega)]
    exact hfree
  induction fuel with
  | zero =>
      intro page _ _ h
      omega
  | succ fuel ih =>
      intro page hpage hle hfuel
      rw [findPageLoop]
      -- `q` is free, so a page in use is below it and the scan does not end there
      by_cases hp : pmmGetPage page p = false
      · exact ⟨page, by rw [if_pos hp], hle, hp⟩
      · have hne : page ≠ q := fun he => hp (he ▸ hget)
        have hnext : u64 (page + 4096) = page + 4096 := u64_of_lt (by omega)
        have hlimit : u64 (p.highest_usable_address + (2 ^ 64 - 4096))
            = p.highest_usable_address - 4096 := by
          unfold u64
          omega
        rw [if_neg hp]
        simp only [hnext, hlimit]
        rw [if_neg (by omega)]
        exact ih (page + 4096) (by omega) (by omega) (by omega)

/-- `pmm_find_page` finds a page whenever there is an allocatable one. -/
theorem pmmFindPage_spec {p : Pmm} (hhigh : p.highest_usable_address < 2 ^ 64)
    (hzero : p.bitmap.test 0 = true) {q : Nat} (hq : p.Allocatable q) :
    ∃ page, pmmFindPage p = some page ∧ page ≠ 0 := by
  have hlt := hq.2.1
  obtain ⟨r, hr, -, hfree⟩ := findPageLoop_first hhigh hq (2 ^ 52) 0 (Nat.zero_mod _) (Nat.zero_le _) (by omega)
  refine ⟨r, hr, ?_⟩
  rintro rfl
  rw [pmmGetPage, if_neg (by omega), Nat.zero_div, hzero] at hfree
  cases hfree

/-- The scan passes over pages in use. -/
theorem findPageLoop_null {p : Pmm} (hhigh : p.highest_usable_address < 2 ^ 64)
    (hpage : 4096 < p.highest_usable_address) (hnone : ∀ q, ¬ p.Allocatable q) (fuel : Nat) :
    ∀ page : Nat, page % 4096 = 0 → page + 4096 < p.highest_usable_address →
      (p.highest_usable_address - page) / 4096 < fuel → findPageLoop p fuel page = some 0 := by
  induction fuel with
  | zero =>
      intro page _ _ h
      omega
  | succ fuel ih =>
      intro page halign hlt hfuel
      have hused : ¬ pmmGetPage page p = false := by
        rw [pmmGetPage, if_neg (by omega)]
        exact fun hfree => hnone page ⟨halign, hlt, hfree⟩
      have hnext : u64 (page + 4096) = page + 4096 := u64_of_lt (by omega)
      have hlimit : u64 (p.highest_usable_address + (2 ^ 64 - 4096))
          = p.highest_usable_address - 4096 := by
        unfold u64
        omega
      rw [findPageLoop, if_neg hused]
      simp only [hnext, hlimit]
      split
      · rfl
      · exact ih (page + 4096) (by omega) (by omega) (by omega)

/-- `pmm_find_page` returns `NULL` when there is no allocatable page. -/
theorem pmmFindPage_null {p : Pmm} (hhigh : p.highest_usable_address < 2 ^ 64)
    (hpage : 4096 < p.highest_usable_address) (hnone : ∀ q, ¬ p.Allocatable q) :
    pmmFindPage p = some 0 :=
  findPageLoop_null hhigh hpage hnone _ 0 rfl (by omega) (by omega)

/-! ## Allocation and release -/

/-- `pmm_alloc_page`. When there is no page it returns with `pmm_mutex` held. -/
def pmmAllocPage : K Nat := do
  acquire .pmm_mutex
  let s ← get
  match pmmFindPage s.pmm with
  | none => throw .hang
  | some page =>
      if page = 0 then pure 0
      else do
        modify fun s => { s with pmm := pmmMarkPageUsed page s.pmm }
        release .pmm_mutex
        pure page

/-- `pmm_free_page`. -/
def pmmFreePage (page : Nat) : K Unit := do
  acquire .pmm_mutex
  modify fun s => { s with pmm := pmmMarkPageFree page s.pmm }
  release .pmm_mutex

/-- The state with all mutexes as they are and the bitmap replaced. -/
def State.withPmm (s : State) (p : Pmm) : State := { s with pmm := p }

theorem release_acquire {s : State} {m : Mutex} (h : s.mutexes m = false) :
    Function.update (Function.update s.mutexes m true) m false = s.mutexes := by
  rw [Function.update_idem, ← h, Function.update_eq_self]

/-- The outcomes of `pmm_alloc_page` with `pmm_mutex` free. -/
theorem pmmAllocPage_run {s : State} (h : s.mutexes .pmm_mutex = false) :
    pmmAllocPage s = match pmmFindPage s.pmm with
      | none => .error .hang
      | some page =>
          if page = 0 then
            .ok (0, { s with mutexes := Function.update s.mutexes .pmm_mutex true })
          else .ok (page, s.withPmm (pmmMarkPageUsed page s.pmm)) := by
  rw [pmmAllocPage, Prog.bind_ok (acquire_free h), Prog.bind_ok (Prog.run_get _)]
  cases pmmFindPage s.pmm with
  | none => rfl
  | some page =>
      by_cases hp : page = 0
      · simp only [if_pos hp]
        rfl
      · simp only [if_neg hp, Prog.run_bind, Prog.run_modify, run_release, Prog.run_pure,
          release_acquire h, State.withPmm]

theorem pmmFreePage_run {s : State} (h : s.mutexes .pmm_mutex = false) (page : Nat) :
    pmmFreePage page s = .ok ((), s.withPmm (pmmMarkPageFree page s.pmm)) := by
  simp only [pmmFreePage, Prog.run_bind, acquire_free h, Prog.run_modify, run_release,
    release_acquire h, State.withPmm]

theorem pmmFreePage_ok {s s' : State} {page : Nat} {u : Unit}
    (hrun : pmmFreePage page s = .ok (u, s')) : s' = s.withPmm (pmmMarkPageFree page s.pmm) := by
  cases hm : s.mutexes .pmm_mutex with
  | true =>
      rw [pmmFreePage, Prog.bind_error (acquire_held hm)] at hrun
      cases hrun
  | false =>
      rw [pmmFreePage_run hm] at hrun
      exact (Prod.mk.inj (Except.ok.inj hrun)).2.symm

/-- `pmm_alloc_page` does not return when `pmm_mutex` is held. -/
theorem pmmAllocPage_held {s : State} (h : s.mutexes .pmm_mutex = true) :
    pmmAllocPage s = .error (.spin .pmm_mutex) := by
  rw [pmmAllocPage, Prog.bind_error (acquire_held h)]

/-- A page that `pmm_alloc_page` may hand out, by its number. -/
structure Pmm.Free (p : Pmm) (q : Nat) : Prop where
  pos : 0 < q
  below : q * 4096 < p.highest_usable_address
  unmarked : p.bitmap.test q = false

/-- An allocation that returns a page. -/
theorem pmmAllocPage_ok {s s' : State} {page : Nat} (hrun : pmmAllocPage s = .ok (page, s'))
    (hne : page ≠ 0) :
    s.mutexes .pmm_mutex = false ∧ page % 4096 = 0 ∧ page < 2 ^ 64 ∧ s.pmm.Free (page / 4096) ∧
      s' = s.withPmm (pmmMarkPageUsed page s.pmm) := by
  cases hm : s.mutexes .pmm_mutex with
  | true =>
      rw [pmmAllocPage_held hm] at hrun
      cases hrun
  | false =>
      rw [pmmAllocPage_run hm] at hrun
      cases hfind : pmmFindPage s.pmm with
      | none =>
          rw [hfind] at hrun
          cases hrun
      | some q =>
          rw [hfind] at hrun
          simp only at hrun
          split at hrun
          · obtain ⟨rfl, -⟩ := Prod.mk.inj (Except.ok.inj hrun)
            exact absurd rfl hne
          · obtain ⟨rfl, rfl⟩ := Prod.mk.inj (Except.ok.inj hrun)
            obtain ⟨halign, hbelow, hfree⟩ := pmmFindPage_free hfind hne
            exact ⟨rfl, halign, pmmFindPage_lt hfind, ⟨by omega, by omega, hfree⟩, rfl⟩

/-- What `pmm_alloc_page` returns is what the scan finds. -/
theorem pmmAllocPage_find {s s' : State} {page : Nat} (hrun : pmmAllocPage s = .ok (page, s')) :
    pmmFindPage s.pmm = some page := by
  cases hm : s.mutexes .pmm_mutex with
  | true =>
      rw [pmmAllocPage_held hm] at hrun
      cases hrun
  | false =>
      rw [pmmAllocPage_run hm] at hrun
      cases hfind : pmmFindPage s.pmm with
      | none =>
          rw [hfind] at hrun
          cases hrun
      | some q =>
          rw [hfind] at hrun
          simp only at hrun
          split at hrun
          · rename_i hq
            rw [hq, (Prod.mk.inj (Except.ok.inj hrun)).1]
          · rw [(Prod.mk.inj (Except.ok.inj hrun)).1]

/-- An allocation that returns `NULL` changes nothing but the lock. -/
theorem pmmAllocPage_null {s s' : State} (hrun : pmmAllocPage s = .ok (0, s')) :
    s' = { s with mutexes := Function.update s.mutexes .pmm_mutex true } := by
  cases hm : s.mutexes .pmm_mutex with
  | true =>
      rw [pmmAllocPage_held hm] at hrun
      cases hrun
  | false =>
      rw [pmmAllocPage_run hm] at hrun
      cases hfind : pmmFindPage s.pmm with
      | none =>
          rw [hfind] at hrun
          cases hrun
      | some q =>
          rw [hfind] at hrun
          simp only at hrun
          split at hrun
          · exact (Prod.mk.inj (Except.ok.inj hrun)).2.symm
          · rename_i hq
            exact absurd (Prod.mk.inj (Except.ok.inj hrun)).1 hq

/-! ### Pages taken -/

/-- Between two states of the manager the pages `new` were allocated. -/
structure Takes (p p' : Pmm) (new : Finset Nat) : Prop where
  highest_eq : p'.highest_usable_address = p.highest_usable_address
  total_eq : p'.total_pages = p.total_pages
  test_eq : ∀ q, p'.bitmap.test q = (p.bitmap.test q || decide (q ∈ new))
  free : ∀ q ∈ new, p.Free q
  used_le : p'.used_pages ≤ p.used_pages + new.card

theorem Takes.refl (p : Pmm) : Takes p p ∅ := ⟨rfl, rfl, by simp, by simp, by simp⟩

/-- A page that is free afterwards was free and has not been taken. -/
theorem Takes.free_iff {p p' : Pmm} {new : Finset Nat} (h : Takes p p' new) {q : Nat} :
    p'.Free q ↔ p.Free q ∧ q ∉ new := by
  constructor
  · rintro ⟨hpos, hbelow, hfree⟩
    rw [h.test_eq, Bool.or_eq_false_iff, decide_eq_false_iff_not] at hfree
    exact ⟨⟨hpos, h.highest_eq ▸ hbelow, hfree.1⟩, hfree.2⟩
  · rintro ⟨⟨hpos, hbelow, hfree⟩, hq⟩
    refine ⟨hpos, h.highest_eq.symm ▸ hbelow, ?_⟩
    rw [h.test_eq, hfree, decide_eq_false hq, Bool.or_false]

theorem Takes.trans {p p' p'' : Pmm} {new new' : Finset Nat} (h : Takes p p' new)
    (h' : Takes p' p'' new') : Takes p p'' (new ∪ new') := by
  refine ⟨h'.highest_eq.trans h.highest_eq, h'.total_eq.trans h.total_eq, ?_, ?_, ?_⟩
  · intro q
    rw [h'.test_eq, h.test_eq, Bool.or_assoc, ← Bool.decide_or, decide_eq_decide.mpr]
    exact Finset.mem_union.symm
  · intro q hq
    rcases Finset.mem_union.mp hq with hq | hq
    · exact h.free q hq
    · exact (h.free_iff.mp (h'.free q hq)).1
  · have hdisj : Disjoint new new' :=
      Finset.disjoint_right.mpr fun q hq => (h.free_iff.mp (h'.free q hq)).2
    have := h.used_le
    have := h'.used_le
    rw [Finset.card_union_of_disjoint hdisj]
    omega

/-- An allocation takes the page it returns. -/
theorem takes_markPageUsed {p : Pmm} {page : Nat} (hfree : p.Free (page / 4096)) :
    Takes p (pmmMarkPageUsed page p) {page / 4096} := by
  refine ⟨highest_markPageUsed _ _, ?_, ?_, ?_, ?_⟩
  · unfold pmmMarkPageUsed
    split <;> rfl
  · intro q
    rw [test_markPageUsed, decide_eq_decide.mpr]
    rw [Finset.mem_singleton, eq_comm]
  · intro q hq
    rw [Finset.mem_singleton.mp hq]
    exact hfree
  · rw [Finset.card_singleton]
    unfold pmmMarkPageUsed
    split
    · omega
    · exact Nat.mod_le _ _

/-! ### Supply -/

/-- The scan starts at a page in use, and addresses are 64-bit. -/
structure Pmm.Scannable (p : Pmm) : Prop where
  highest_lt : p.highest_usable_address < 2 ^ 64
  zero_used : p.bitmap.test 0 = true

/-- There are `n` pages that the scan can find. -/
def Pmm.Supply (p : Pmm) (n : Nat) : Prop :=
  ∃ A : Finset Nat, n ≤ A.card ∧ ∀ q ∈ A, p.Allocatable (q * 4096)

theorem Pmm.Supply.mono {p : Pmm} {n k : Nat} (h : p.Supply n) (hle : k ≤ n) : p.Supply k := by
  obtain ⟨A, hcard, hA⟩ := h
  exact ⟨A, hle.trans hcard, hA⟩

theorem Takes.scannable {p p' : Pmm} {new : Finset Nat} (h : Takes p p' new) (hp : p.Scannable) :
    p'.Scannable := by
  refine ⟨h.highest_eq ▸ hp.highest_lt, ?_⟩
  rw [h.test_eq, hp.zero_used, Bool.true_or]

/-- What is taken leaves the rest. -/
theorem Takes.supply {p p' : Pmm} {new : Finset Nat} (h : Takes p p' new) {n : Nat}
    (hp : p.Supply (n + new.card)) : p'.Supply n := by
  obtain ⟨A, hcard, hA⟩ := hp
  refine ⟨A \ new, ?_, ?_⟩
  · have := Finset.le_card_sdiff new A
    omega
  · intro q hq
    obtain ⟨hqA, hqnew⟩ := Finset.mem_sdiff.mp hq
    obtain ⟨halign, hlt, hfree⟩ := hA q hqA
    refine ⟨halign, h.highest_eq.symm ▸ hlt, ?_⟩
    rw [Nat.mul_div_cancel _ (by decide)] at hfree ⊢
    rw [h.test_eq, hfree, decide_eq_false hqnew, Bool.or_false]

/-- There are `n` pages to spare, also by the counters. -/
structure Pmm.Room (p : Pmm) (n : Nat) : Prop where
  scannable : p.Scannable
  supply : p.Supply n
  total_lt : p.total_pages < 2 ^ 64
  spare : p.used_pages + n < p.total_pages

theorem Pmm.Room.mono {p : Pmm} {n k : Nat} (h : p.Room n) (hle : k ≤ n) : p.Room k :=
  ⟨h.scannable, h.supply.mono hle, h.total_lt, lt_of_le_of_lt (Nat.add_le_add_left hle _) h.spare⟩

/-- What is taken leaves the rest of the room. -/
theorem Takes.room {p p' : Pmm} {new : Finset Nat} (h : Takes p p' new) {n : Nat}
    (hp : p.Room (n + new.card)) : p'.Room n := by
  refine ⟨h.scannable hp.scannable, h.supply hp.supply, h.total_eq.symm ▸ hp.total_lt, ?_⟩
  have hused := h.used_le
  have hspare := hp.spare
  rw [h.total_eq]
  omega

/-- With a page in supply, `pmm_alloc_page` returns one. -/
theorem pmmAllocPage_returns {s : State} (hm : s.mutexes .pmm_mutex = false)
    (hscan : s.pmm.Scannable) (hsupply : s.pmm.Supply 1) :
    ∃ page, page ≠ 0 ∧ pmmAllocPage s = .ok (page, s.withPmm (pmmMarkPageUsed page s.pmm)) := by
  obtain ⟨A, hcard, hA⟩ := hsupply
  obtain ⟨q, hq⟩ := Finset.card_pos.mp (by omega : 0 < A.card)
  obtain ⟨page, hfind, hne⟩ := pmmFindPage_spec hscan.highest_lt hscan.zero_used (hA q hq)
  refine ⟨page, hne, ?_⟩
  rw [pmmAllocPage_run hm, hfind]
  exact if_neg hne

/-- A manager with the lowest 8 MiB used and all pages above them free. -/
def Pmm.clean (highest : Nat) : Pmm where
  bitmap := fun i => if i < 256 then 255 else 0
  bitmap_size := highest / 4096 / 8 + 1
  total_pages := highest / 4096
  used_pages := 2048
  highest_usable_address := highest

theorem test_clean (highest q : Nat) :
    (Pmm.clean highest).bitmap.test q = decide (q < 2048) := by
  by_cases hq : q < 2048
  · rw [decide_eq_true hq]
    exact Bitmap.test_of_ones (if_pos (by omega))
  · rw [decide_eq_false hq]
    exact Bitmap.test_of_zeros (if_neg (by omega))

theorem scannable_clean {highest : Nat} (h : highest < 2 ^ 64) : (Pmm.clean highest).Scannable :=
  ⟨h, by rw [test_clean]; rfl⟩

theorem supply_clean {highest n : Nat} (h : 0x800000 + n * 4096 < highest) :
    (Pmm.clean highest).Supply n := by
  refine ⟨Finset.Ico 2048 (2048 + n), by simp, fun q hq => ?_⟩
  obtain ⟨hlow, hhigh⟩ := Finset.mem_Ico.mp hq
  refine ⟨Nat.mul_mod_left _ _, ?_, ?_⟩
  · show q * 4096 + 4096 < highest
    omega
  · rw [Nat.mul_div_cancel _ (by decide), test_clean]
    simpa using hlow

/-! ## Histories -/

/-- The state with `pmm_mutex` free: histories leave the lock aside. -/
def State.unlock (s : State) : State :=
  { s with mutexes := Function.update s.mutexes .pmm_mutex false }

@[simp] theorem unlock_pmm (s : State) : s.unlock.pmm = s.pmm := rfl

theorem State.unlock_free (s : State) : s.unlock.mutexes .pmm_mutex = false := by
  simp [State.unlock]

/-- One call of a history, with the set of outstanding pages. -/
inductive PmmStep : State × Finset Nat → State × Finset Nat → Prop where
  | alloc {s s' : State} {out : Finset Nat} {page : Nat}
      (hrun : pmmAllocPage s.unlock = .ok (page, s')) :
      PmmStep (s, out) (s', if page = 0 then out else insert page out)
  | free {s s' : State} {out : Finset Nat} {page : Nat} (hout : page ∈ out)
      (hrun : pmmFreePage page s.unlock = .ok ((), s')) : PmmStep (s, out) (s', out.erase page)

theorem pmmStep_alloc {s : State} {out : Finset Nat} {page : Nat}
    (hfind : pmmFindPage s.pmm = some page) (hne : page ≠ 0) :
    ∃ s', PmmStep (s, out) (s', insert page out) ∧ s'.pmm = pmmMarkPageUsed page s.pmm := by
  have hcall := pmmAllocPage_run s.unlock_free
  rw [unlock_pmm, hfind] at hcall
  simp only [if_neg hne] at hcall
  have hstep : PmmStep (s, out) _ := .alloc hcall
  rw [if_neg hne] at hstep
  exact ⟨_, hstep, rfl⟩

theorem pmmStep_free {s : State} {out : Finset Nat} {page : Nat} (hout : page ∈ out) :
    ∃ s', PmmStep (s, out) (s', out.erase page) ∧ s'.pmm = pmmMarkPageFree page s.pmm :=
  ⟨_, .free hout (pmmFreePage_run s.unlock_free page), rfl⟩

/-- The bitmap and the counter are in step with the outstanding pages. -/
structure InStep (p₀ p : Pmm) (out : Finset Nat) : Prop where
  highest_eq : p.highest_usable_address = p₀.highest_usable_address
  test_eq : ∀ q, p.bitmap.test q = (p₀.bitmap.test q || decide (q * 4096 ∈ out))
  aligned : ∀ page ∈ out, page % 4096 = 0
  was_free : ∀ page ∈ out, p₀.bitmap.test (page / 4096) = false
  used_eq : u64 p.used_pages = u64 (p₀.used_pages + out.card)

/-- What an allocation hands out. -/
structure FreshPage (p : Pmm) (out : Finset Nat) (page : Nat) : Prop where
  aligned : page % 4096 = 0
  high : 0x800000 ≤ page
  below : page < p.highest_usable_address
  was_free : p.bitmap.test (page / 4096) = false
  not_outstanding : page ∉ out

theorem InStep.fresh {p₀ p : Pmm} {out : Finset Nat} (h : InStep p₀ p out)
    (hlow : ∀ q, q < 2048 → p₀.bitmap.test q = true) {page : Nat}
    (hfind : pmmFindPage p = some page) (hne : page ≠ 0) : FreshPage p out page := by
  obtain ⟨halign, hbelow, hfree⟩ := pmmFindPage_free hfind hne
  have hsplit := h.test_eq (page / 4096)
  rw [hfree, eq_comm, Bool.or_eq_false_iff, decide_eq_false_iff_not,
    Nat.div_mul_cancel (Nat.dvd_of_mod_eq_zero halign)] at hsplit
  refine ⟨halign, ?_, hbelow, hfree, hsplit.2⟩
  by_contra hlt
  rw [hlow (page / 4096) (by omega)] at hsplit
  cases hsplit.1

/-- An allocation keeps bitmap and counter in step. -/
theorem InStep.alloc {p₀ p : Pmm} {out : Finset Nat} (h : InStep p₀ p out) {page : Nat}
    (hfresh : FreshPage p out page) :
    InStep p₀ (pmmMarkPageUsed page p) (insert page out) := by
  have hdiv : ∀ q, page / 4096 = q ↔ q * 4096 = page := by
    intro q
    have := hfresh.aligned
    omega
  refine ⟨by simp [h.highest_eq], ?_, ?_, ?_, ?_⟩
  · intro q
    rw [test_markPageUsed, h.test_eq, Bool.or_assoc]
    congr 1
    simp only [hdiv, Finset.mem_insert, Bool.decide_or, Bool.or_comm]
  · intro q hq
    rcases Finset.mem_insert.mp hq with rfl | hq
    · exact hfresh.aligned
    · exact h.aligned q hq
  · intro q hq
    rcases Finset.mem_insert.mp hq with rfl | hq
    · have hsplit := h.test_eq (q / 4096)
      rw [hfresh.was_free, eq_comm, Bool.or_eq_false_iff] at hsplit
      exact hsplit.1
    · exact h.was_free q hq
  · have hused := h.used_eq
    rw [pmmMarkPageUsed, if_neg (by rw [hfresh.was_free]; decide),
      Finset.card_insert_of_notMem hfresh.not_outstanding]
    simp only [u64] at hused ⊢
    omega

/-- The release of an outstanding page keeps bitmap and counter in step. -/
theorem InStep.free {p₀ p : Pmm} {out : Finset Nat} (h : InStep p₀ p out) {page : Nat}
    (hout : page ∈ out) : InStep p₀ (pmmMarkPageFree page p) (out.erase page) := by
  have halign := h.aligned page hout
  have hdiv : ∀ q, page / 4096 = q ↔ q * 4096 = page := by
    intro q
    omega
  refine ⟨by simp [h.highest_eq], ?_, fun q hq => h.aligned q (Finset.mem_of_mem_erase hq),
    fun q hq => h.was_free q (Finset.mem_of_mem_erase hq), ?_⟩
  · intro q
    rw [test_markPageFree, h.test_eq]
    by_cases hq : q * 4096 = page
    · have hfree := h.was_free page hout
      rw [(hdiv q).mpr hq] at hfree
      simp [hq, hfree, (hdiv q).mpr hq]
    · have hne : ¬ page / 4096 = q := fun he => hq ((hdiv q).mp he)
      simp [hq, hne]
  · have hused := h.used_eq
    have hcard := Finset.card_erase_of_mem hout
    have hpos := Finset.card_pos.mpr ⟨page, hout⟩
    have hset : p.bitmap.test (page / 4096) = true := by
      rw [h.test_eq, Nat.div_mul_cancel (Nat.dvd_of_mod_eq_zero halign), decide_eq_true hout,
        Bool.or_true]
    rw [pmmMarkPageFree, if_neg (by rw [hset]; decide), hcard]
    simp only [u64] at hused ⊢
    omega

/-- One call keeps bitmap and counter in step. -/
theorem InStep.step {p₀ : Pmm} (hlow : ∀ q, q < 2048 → p₀.bitmap.test q = true)
    {s s' : State} {out out' : Finset Nat} (h : InStep p₀ s.pmm out)
    (hstep : PmmStep (s, out) (s', out')) : InStep p₀ s'.pmm out' := by
  cases hstep with
  | @alloc _ _ _ page hrun =>
      rw [pmmAllocPage_run s.unlock_free] at hrun
      cases hfind : pmmFindPage s.pmm with
      | none => simp only [unlock_pmm, hfind] at hrun; cases hrun
      | some q =>
          simp only [unlock_pmm, hfind] at hrun
          by_cases hq : q = 0
          · rw [if_pos hq] at hrun
            obtain ⟨rfl, rfl⟩ := Prod.mk.inj (Except.ok.inj hrun)
            rw [if_pos rfl]
            exact h
          · rw [if_neg hq] at hrun
            obtain ⟨rfl, rfl⟩ := Prod.mk.inj (Except.ok.inj hrun)
            rw [if_neg hq]
            exact h.alloc (h.fresh hlow hfind hq)
  | free hout hrun =>
      rw [pmmFreePage_run s.unlock_free] at hrun
      obtain ⟨-, rfl⟩ := Prod.mk.inj (Except.ok.inj hrun)
      exact h.free hout

/-- A history keeps bitmap and counter in step. -/
theorem inStep_run {s₀ s : State} {out : Finset Nat}
    (hlow : ∀ q, q < 2048 → s₀.pmm.bitmap.test q = true)
    (hrun : ReflTransGen PmmStep (s₀, ∅) (s, out)) : InStep s₀.pmm s.pmm out := by
  generalize hc : (s, out) = c at hrun
  induction hrun generalizing s out with
  | refl =>
      obtain ⟨rfl, rfl⟩ := Prod.mk.inj hc
      exact ⟨rfl, by simp, by simp, by simp, by simp⟩
  | @tail b _ _ hstep ih =>
      obtain ⟨s', out'⟩ := b
      rw [← hc] at hstep
      exact (ih rfl).step hlow hstep

/-- **The page allocator over any history.** With the lowest 8 MiB marked used, after any sequence
of allocations and releases of outstanding pages: what an allocation returns next is `NULL` or a
free page above 8 MiB that is not outstanding, the bitmap differs from the first one exactly by
the outstanding pages, and `used_pages` has moved by their number. -/
theorem pmm_run {s₀ s : State} {out : Finset Nat}
    (hlow : ∀ q, q < 2048 → s₀.pmm.bitmap.test q = true)
    (hrun : ReflTransGen PmmStep (s₀, ∅) (s, out)) :
    (∀ page s', pmmAllocPage s.unlock = .ok (page, s') → page ≠ 0 → FreshPage s.pmm out page) ∧
      s.pmm.highest_usable_address = s₀.pmm.highest_usable_address ∧
      (∀ q, s.pmm.bitmap.test q ≠ s₀.pmm.bitmap.test q ↔ q * 4096 ∈ out) ∧
      (∀ page ∈ out, page % 4096 = 0) ∧
      u64 s.pmm.used_pages = u64 (s₀.pmm.used_pages + out.card) := by
  have h := inStep_run hlow hrun
  refine ⟨?_, h.highest_eq, ?_, h.aligned, h.used_eq⟩
  · intro page s' halloc hne
    rw [pmmAllocPage_run s.unlock_free] at halloc
    cases hfind : pmmFindPage s.pmm with
    | none => simp only [unlock_pmm, hfind] at halloc; cases halloc
    | some q =>
        simp only [unlock_pmm, hfind] at halloc
        by_cases hq : q = 0
        · rw [if_pos hq] at halloc
          exact absurd (Prod.mk.inj (Except.ok.inj halloc)).1.symm hne
        · rw [if_neg hq] at halloc
          obtain ⟨rfl, -⟩ := Prod.mk.inj (Except.ok.inj halloc)
          exact h.fresh hlow hfind hq
  · intro q
    rw [h.test_eq]
    by_cases hq : q * 4096 ∈ out
    · have hfree := h.was_free _ hq
      rw [Nat.mul_div_cancel _ (by decide)] at hfree
      simp [hq, hfree]
    · simp [hq]

/-- With two pages in supply, one is found after the other. -/
theorem findPage_twice {p : Pmm} (hscan : p.Scannable) (hsupply : p.Supply 2) :
    ∃ a b, a ≠ 0 ∧ b ≠ 0 ∧ pmmFindPage p = some a ∧
      pmmFindPage (pmmMarkPageUsed a p) = some b := by
  have hfind : ∀ {p : Pmm}, p.Scannable → p.Supply 1 → ∃ page, pmmFindPage p = some page ∧ page ≠ 0 := by
    rintro p hscan ⟨A, hcard, hA⟩
    obtain ⟨q, hq⟩ := Finset.card_pos.mp (by omega : 0 < A.card)
    exact pmmFindPage_spec hscan.highest_lt hscan.zero_used (hA q hq)
  obtain ⟨a, hfind₁, ha⟩ := hfind hscan (hsupply.mono (by decide))
  obtain ⟨halign, hbelow, hfree⟩ := pmmFindPage_free hfind₁ ha
  have htakes := takes_markPageUsed (show p.Free (a / 4096) from ⟨by omega, by omega, hfree⟩)
  obtain ⟨b, hfind₂, hb⟩ := hfind (htakes.scannable hscan)
    (htakes.supply (by rwa [Finset.card_singleton]))
  exact ⟨a, b, ha, hb, hfind₁, hfind₂⟩

/-- A history of two allocations, and the release of the first page. -/
theorem pmm_run_freed : ∃ s a b, a ≠ b ∧
    ReflTransGen PmmStep (State.boot.withPmm (.clean 0x1000000), ∅) (s, {b}) ∧
    (∀ page s', pmmAllocPage s.unlock = .ok (page, s') → page ≠ 0 → FreshPage s.pmm {b} page) ∧
    (∀ q, s.pmm.bitmap.test q ≠ (Pmm.clean 0x1000000).bitmap.test q ↔
      q * 4096 ∈ ({b} : Finset Nat)) ∧
    u64 s.pmm.used_pages = 2049 := by
  have hlow : ∀ q, q < 2048 →
      (State.boot.withPmm (.clean 0x1000000)).pmm.bitmap.test q = true := fun q hq =>
    (test_clean 0x1000000 q).trans (decide_eq_true hq)
  obtain ⟨a, b, ha, hb, hfind₁, hfind₂⟩ := findPage_twice
    (scannable_clean (show 0x1000000 < 2 ^ 64 by decide)) (supply_clean (by decide))
  obtain ⟨s₁, hstep₁, hpmm₁⟩ : ∃ s₁,
      PmmStep (State.boot.withPmm (.clean 0x1000000), ∅) (s₁, {a}) ∧
        s₁.pmm = pmmMarkPageUsed a (.clean 0x1000000) :=
    pmmStep_alloc (s := State.boot.withPmm (.clean 0x1000000)) hfind₁ ha
  replace hfind₂ : pmmFindPage s₁.pmm = some b := hpmm₁ ▸ hfind₂
  obtain ⟨s₂, hstep₂, -⟩ : ∃ s₂, PmmStep (s₁, {a}) (s₂, insert b {a}) ∧
      s₂.pmm = pmmMarkPageUsed b s₁.pmm := pmmStep_alloc hfind₂ hb
  have hrun₁ := ReflTransGen.single hstep₁
  have hfresh := (inStep_run hlow hrun₁).fresh hlow hfind₂ hb
  have hne : a ≠ b := fun h => hfresh.not_outstanding (by rw [h]; exact Finset.mem_singleton_self b)
  obtain ⟨s₃, hstep₃, -⟩ := pmmStep_free (s := s₂) (show a ∈ insert b {a} by simp)
  have hout : (insert b {a} : Finset Nat).erase a = {b} := by
    ext q
    simp only [Finset.mem_erase, Finset.mem_insert, Finset.mem_singleton]
    constructor
    · rintro ⟨hqa, hqb | hqa'⟩
      · exact hqb
      · exact absurd hqa' hqa
    · rintro rfl
      exact ⟨hne.symm, Or.inl rfl⟩
  rw [hout] at hstep₃
  have hrun := (hrun₁.tail hstep₂).tail hstep₃
  obtain ⟨hnext, -, htest, -, hused⟩ := pmm_run hlow hrun
  exact ⟨s₃, a, b, hne, hrun, hnext, htest, hused⟩

end Windozz.Kernel

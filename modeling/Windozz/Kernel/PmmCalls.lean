import Windozz.Kernel.Pmm
import Windozz.Kernel.Spinlock

set_option autoImplicit false

/-! # The page allocator on several processors

`pmm_alloc_page` and `pmm_free_page` as single accesses to the globals of `pmm.c`: the scan reads one
byte of the bitmap at a time, and a page is marked by a load and a store. A call as a whole is what
`pmmAllocPage` and `pmmFreePage` say (`alloc_runs`, `free_runs`), so the calls of any number of
processors under `pmm_mutex` are a history of these functions, one after the other
(`serial_history`), and no page is handed out twice.
-/

namespace Windozz.Kernel

open Relation

/-! ## The accesses -/

inductive PmmCall
  | alloc
  | free (page : Nat)

/-- The accesses of `pmm_mark_page_used` and `pmm_mark_page_free`. -/
inductive MarkAt
  | test
  | load
  | store (byte : UInt8)
  | loadCount
  | storeCount (count : Nat)

/-- The access that a call comes to. -/
inductive PmmAt
  | getHigh (page : Nat)
  | getByte (page : Nat)
  | limit (page : Nat)
  | mark (used : Bool) (page : Nat) (at_ : MarkAt)

/-- An access of `pmm_mark_page_used` or `pmm_mark_page_free`. -/
def markAccess (used : Bool) (page : Nat) (p : Pmm) : MarkAt → (PmmAt ⊕ Nat) × Pmm
  | .test => (if p.bitmap.test (page / 4096) = used then .inr page else .inl (.mark used page .load), p)
  | .load => (.inl (.mark used page (.store (p.bitmap (page / 4096 / 8)))), p)
  | .store byte =>
      let flag := Bitmap.flag (page / 4096)
      (.inl (.mark used page .loadCount), { p with
        bitmap := Function.update p.bitmap (page / 4096 / 8)
          (if used then byte ||| flag else byte &&& ~~~flag) })
  | .loadCount => (.inl (.mark used page (.storeCount p.used_pages)), p)
  | .storeCount count =>
      (.inr page, { p with used_pages := u64 (count + if used then 1 else 2 ^ 64 - 1) })

/-- An access of the functions of `pmm.c`. -/
def pmmAccess (p : Pmm) : PmmAt → (PmmAt ⊕ Nat) × Pmm
  | .getHigh page =>
      (.inl (if p.highest_usable_address ≤ page then .limit (u64 (page + 4096)) else .getByte page), p)
  | .getByte page =>
      (if p.bitmap.test (page / 4096) then .inl (.limit (u64 (page + 4096)))
        else if page = 0 then .inr 0 else .inl (.mark true page .test), p)
  | .limit page =>
      (if u64 (p.highest_usable_address + (2 ^ 64 - 4096)) ≤ page then .inr 0
        else .inl (.getHigh page), p)
  | .mark used page at_ => markAccess used page p at_

/-- `pmm_alloc_page` and `pmm_free_page` between `acquire` and `release`. -/
def pmmCode : Code Pmm PmmCall PmmAt Nat where
  enter
    | .alloc => .getHigh 0
    | .free page => .mark false page .test
  access := fun at_ p => pmmAccess p at_

/-- Without a page `pmm_alloc_page` does not come to its `release`. -/
def pmmReleases : PmmCall → Nat → Bool
  | .alloc, page => page ≠ 0
  | .free _, _ => true

/-! ## A call as a whole -/

/-- The page is marked as the functions of `pmm.c` do it. -/
def markPage (used : Bool) (page : Nat) (p : Pmm) : Pmm :=
  if used then pmmMarkPageUsed page p else pmmMarkPageFree page p

/-- The accesses of a mark function come from `p` to `d`. -/
def MarksTo (used : Bool) (page : Nat) (p d : Pmm) : MarkAt → Prop
  | .test => d = p
  | .load => d = p ∧ p.bitmap.test (page / 4096) ≠ used
  | .store byte => d = p ∧ p.bitmap.test (page / 4096) ≠ used ∧ byte = p.bitmap (page / 4096 / 8)
  | .loadCount => p.bitmap.test (page / 4096) ≠ used ∧ d = { p with
      bitmap := if used then p.bitmap.mark (page / 4096) else p.bitmap.unmark (page / 4096) }
  | .storeCount count => p.bitmap.test (page / 4096) ≠ used ∧ count = p.used_pages ∧ d = { p with
      bitmap := if used then p.bitmap.mark (page / 4096) else p.bitmap.unmark (page / 4096) }

/-- An access of a mark function goes on. -/
theorem MarksTo.access {used : Bool} {page : Nat} {p d d' : Pmm} {at_ : MarkAt} {b : PmmAt}
    (h : MarksTo used page p d at_) (haccess : markAccess used page d at_ = (.inl b, d')) :
    ∃ at', b = .mark used page at' ∧ MarksTo used page p d' at' := by
  cases at_ with
  | test =>
      obtain rfl : d = p := h
      rw [markAccess] at haccess
      split at haccess
      · cases haccess
      · rename_i htest
        cases haccess
        exact ⟨.load, rfl, rfl, htest⟩
  | load =>
      obtain ⟨rfl, htest⟩ := h
      cases haccess
      exact ⟨_, rfl, rfl, htest, rfl⟩
  | store byte =>
      obtain ⟨rfl, htest, rfl⟩ := h
      cases haccess
      refine ⟨_, rfl, htest, ?_⟩
      cases used <;> rfl
  | loadCount =>
      obtain ⟨htest, rfl⟩ := h
      cases haccess
      exact ⟨_, rfl, htest, rfl, rfl⟩
  | storeCount count => cases haccess

/-- The last access of a mark function. -/
theorem MarksTo.last {used : Bool} {page : Nat} {p d d' : Pmm} {at_ : MarkAt} {r : Nat}
    (h : MarksTo used page p d at_) (haccess : markAccess used page d at_ = (.inr r, d')) :
    r = page ∧ d' = markPage used page p := by
  cases at_ with
  | test =>
      obtain rfl : d = p := h
      rw [markAccess] at haccess
      split at haccess
      · rename_i htest
        cases haccess
        refine ⟨rfl, ?_⟩
        cases used with
        | true => exact (if_pos htest).symm
        | false => exact (if_pos htest).symm
      · cases haccess
  | load => cases haccess
  | store byte => cases haccess
  | loadCount => cases haccess
  | storeCount count =>
      obtain ⟨htest, rfl, rfl⟩ := h
      cases haccess
      refine ⟨rfl, ?_⟩
      cases used with
      | true => exact (if_neg htest).symm
      | false => exact (if_neg htest).symm

/-! ### The scan -/

/-- More rounds do not change the end of the scan. -/
theorem findPageLoop_mono {p : Pmm} {k r : Nat} : ∀ {page : Nat}, findPageLoop p k page = some r →
    ∀ n, findPageLoop p (k + n) page = some r := by
  induction k with
  | zero =>
      intro page h
      cases h
  | succ k ih =>
      intro page h n
      rw [findPageLoop] at h
      rw [Nat.add_right_comm, findPageLoop]
      split at h
      · rename_i hfree
        rw [if_pos hfree, h]
      · rename_i hused
        rw [if_neg hused]
        simp only at h ⊢
        split at h
        · rename_i hlimit
          rw [if_pos hlimit, h]
        · rename_i hlimit
          rw [if_neg hlimit, ih h n]

/-- With more rounds the scan goes on where it was. -/
theorem findPageLoop_add {p : Pmm} {n : Nat} (k : Nat) : ∀ {page : Nat}, page < 2 ^ 64 →
    findPageLoop p k page = none →
    findPageLoop p (k + n) page = findPageLoop p n (u64 (page + k * 4096)) := by
  induction k with
  | zero =>
      intro page hpage _
      rw [Nat.zero_add, Nat.zero_mul, Nat.add_zero, u64_of_lt hpage]
  | succ k ih =>
      intro page hpage hnone
      rw [findPageLoop] at hnone
      rw [Nat.add_right_comm, findPageLoop]
      split at hnone
      · cases hnone
      · rename_i hused
        rw [if_neg hused]
        simp only at hnone ⊢
        split at hnone
        · cases hnone
        · rename_i hlimit
          have hnext : u64 (u64 (page + 4096) + k * 4096) = u64 (page + (k + 1) * 4096) := by
            unfold u64
            omega
          rw [if_neg hlimit, ih (u64_lt _) hnone, hnext]

/-- A scan that ends does so before it is back at the first page. -/
theorem findPageLoop_ends {p : Pmm} {n : Nat} : ∀ {r : Nat}, findPageLoop p n 0 = some r →
    pmmFindPage p = some r := by
  cases hfind : pmmFindPage p with
  | none =>
      rw [pmmFindPage] at hfind
      -- without an end it is back at the first page after `2 ^ 52` rounds
      induction n using Nat.strongRecOn with
      | ind n ih =>
          intro r hr
          by_cases hn : n < 2 ^ 52
          · have hmore := findPageLoop_mono hr (2 ^ 52 - n)
            rw [Nat.add_sub_cancel' hn.le, hfind] at hmore
            cases hmore
          · have hback := findPageLoop_add (n := n - 2 ^ 52) (2 ^ 52) (by decide) hfind
            rw [Nat.add_sub_cancel' (not_lt.mp hn), hr] at hback
            exact ih (n - 2 ^ 52) (by omega) hback.symm
  | some q =>
      intro r hr
      rw [pmmFindPage] at hfind
      rcases Nat.le_total n (2 ^ 52) with hle | hle
      · rw [← hfind, ← findPageLoop_mono hr (2 ^ 52 - n), Nat.add_sub_cancel' hle]
      · rw [← hr, ← findPageLoop_mono hfind (n - 2 ^ 52), Nat.add_sub_cancel' hle]

/-- The scan has come to a page. -/
def ScansTo (p : Pmm) (page : Nat) : Prop :=
  ∃ k, ∀ n, findPageLoop p (k + n) 0 = findPageLoop p n page

/-- The accesses of `pmm_alloc_page` come from `p` to `d`. -/
def AllocAt (p : Pmm) (at_ : PmmAt) (d : Pmm) : Prop :=
  match at_ with
  | .getHigh page => d = p ∧ ScansTo p page
  | .getByte page => d = p ∧ ScansTo p page ∧ page < p.highest_usable_address
  | .limit page => d = p ∧ ∃ prev, ScansTo p prev ∧ pmmGetPage prev p = true ∧ page = u64 (prev + 4096)
  | .mark used page at_ => used = true ∧ page ≠ 0 ∧ pmmFindPage p = some page ∧
      MarksTo true page p d at_

/-- A page in use is passed over. -/
theorem ScansTo.next {p : Pmm} {page : Nat} (h : ScansTo p page) (hused : pmmGetPage page p = true)
    (hlimit : ¬ u64 (p.highest_usable_address + (2 ^ 64 - 4096)) ≤ u64 (page + 4096)) :
    ScansTo p (u64 (page + 4096)) := by
  obtain ⟨k, hk⟩ := h
  refine ⟨k + 1, fun n => ?_⟩
  rw [Nat.add_right_comm, Nat.add_assoc, hk, findPageLoop, if_neg (by rw [hused]; decide)]
  exact if_neg hlimit

/-- The scan ends. -/
theorem ScansTo.ends {p : Pmm} {page r : Nat} (h : ScansTo p page)
    (hr : findPageLoop p 1 page = some r) : pmmFindPage p = some r := by
  obtain ⟨k, hk⟩ := h
  exact findPageLoop_ends ((hk 1).trans hr)

/-- An access of `pmm_alloc_page` goes on. -/
theorem AllocAt.access {p d d' : Pmm} {at_ at' : PmmAt} (h : AllocAt p at_ d)
    (haccess : pmmAccess d at_ = (.inl at', d')) : AllocAt p at' d' := by
  cases at_ with
  | getHigh page =>
      obtain ⟨rfl, hscan⟩ := h
      obtain ⟨hat, rfl⟩ := Prod.mk.inj haccess
      obtain rfl := Sum.inl.inj hat
      split
      · rename_i hhigh
        exact ⟨rfl, page, hscan, if_pos hhigh, rfl⟩
      · rename_i hlow
        exact ⟨rfl, hscan, not_le.mp hlow⟩
  | getByte page =>
      obtain ⟨rfl, hscan, hlow⟩ := h
      obtain ⟨hat, rfl⟩ := Prod.mk.inj haccess
      have hget : pmmGetPage page d = d.bitmap.test (page / 4096) := if_neg (not_le.mpr hlow)
      split at hat
      · rename_i hused
        obtain rfl := Sum.inl.inj hat
        exact ⟨rfl, page, hscan, hget.trans hused, rfl⟩
      · rename_i hfree
        split at hat
        · cases hat
        · rename_i hne
          obtain rfl := Sum.inl.inj hat
          refine ⟨rfl, hne, hscan.ends ?_, rfl⟩
          rw [findPageLoop, hget, if_pos (eq_false_of_ne_true hfree)]
  | limit page =>
      obtain ⟨rfl, prev, hscan, hused, hpage⟩ := h
      obtain ⟨hat, rfl⟩ := Prod.mk.inj haccess
      split at hat
      · cases hat
      · rename_i hlimit
        obtain rfl := Sum.inl.inj hat
        refine ⟨rfl, ?_⟩
        rw [hpage] at hlimit ⊢
        exact hscan.next hused hlimit
  | mark used page at_ =>
      obtain ⟨rfl, hne, hfind, hmarks⟩ := h
      obtain ⟨at', rfl, hmarks'⟩ := hmarks.access haccess
      exact ⟨rfl, hne, hfind, hmarks'⟩

/-- A call of `pmm_alloc_page` as a whole. -/
theorem alloc_runs {p p' : Pmm} {r : Nat} (h : pmmCode.Runs .alloc p r p') :
    pmmFindPage p = some r ∧ p' = if r = 0 then p else pmmMarkPageUsed r p := by
  have hstart : AllocAt p (pmmCode.enter .alloc) p := ⟨rfl, 0, fun n => by rw [Nat.zero_add]⟩
  obtain ⟨at_, d, hat, hlast⟩ := h.spec hstart AllocAt.access
  cases at_ with
  | getHigh page => cases (Prod.mk.inj hlast).1
  | getByte page =>
      obtain ⟨rfl, hscan, hlow⟩ := hat
      obtain ⟨hat, rfl⟩ := Prod.mk.inj hlast
      have hget : pmmGetPage page d = d.bitmap.test (page / 4096) := if_neg (not_le.mpr hlow)
      split at hat
      · cases hat
      · rename_i hfree
        split at hat
        · rename_i hzero
          obtain rfl := Sum.inr.inj hat
          refine ⟨hscan.ends ?_, (if_pos rfl).symm⟩
          rw [findPageLoop, hget, if_pos (eq_false_of_ne_true hfree), hzero]
        · cases hat
  | limit page =>
      obtain ⟨rfl, prev, hscan, hused, hpage⟩ := hat
      obtain ⟨hat, rfl⟩ := Prod.mk.inj hlast
      split at hat
      · rename_i hlimit
        obtain rfl := Sum.inr.inj hat
        refine ⟨hscan.ends ?_, (if_pos rfl).symm⟩
        rw [findPageLoop, if_neg (by rw [hused]; exact Bool.false_ne_true.symm)]
        rw [hpage] at hlimit
        exact if_pos hlimit
      · cases hat
  | mark used page at_ =>
      obtain ⟨rfl, hne, hfind, hmarks⟩ := hat
      obtain ⟨rfl, rfl⟩ := hmarks.last hlast
      exact ⟨hfind, (if_neg hne).symm⟩

/-- A call of `pmm_free_page` as a whole. -/
theorem free_runs {p p' : Pmm} {page r : Nat} (h : pmmCode.Runs (.free page) p r p') :
    p' = pmmMarkPageFree page p := by
  have hstart : ∃ at', pmmCode.enter (.free page) = .mark false page at' ∧
      MarksTo false page p p at' := ⟨.test, rfl, rfl⟩
  obtain ⟨at_, d, hat, hlast⟩ := @Code.Runs.spec _ _ _ _ pmmCode _ _ _ _
    (fun at_ d => ∃ at', at_ = .mark false page at' ∧ MarksTo false page p d at') hstart
    (by
      rintro _ d b' d' ⟨at_, rfl, hmarks⟩ haccess
      exact hmarks.access haccess) h
  obtain ⟨at', rfl, hmarks⟩ := hat
  exact (hmarks.last hlast).2

/-! ### Calls that return -/

/-- A page in use is passed over, and another one is taken. -/
theorem getPage_path (p : Pmm) (page : Nat) :
    (pmmGetPage page p = true →
      pmmCode.Path (.getHigh page) p (.limit (u64 (page + 4096))) p) ∧
    (pmmGetPage page p = false → page ≠ 0 →
      pmmCode.Path (.getHigh page) p (.mark true page .test) p) := by
  by_cases hhigh : p.highest_usable_address ≤ page
  · have hget : pmmGetPage page p = true := if_pos hhigh
    rw [hget]
    exact ⟨fun _ => .single (Prod.ext (congrArg Sum.inl (if_pos hhigh)) rfl), nofun⟩
  · have hget : pmmGetPage page p = p.bitmap.test (page / 4096) := if_neg hhigh
    have hbyte : pmmCode.Path (.getHigh page) p (.getByte page) p :=
      .single (Prod.ext (congrArg Sum.inl (if_neg hhigh)) rfl)
    rw [hget]
    refine ⟨fun hused => hbyte.tail (Prod.ext (if_pos hused) rfl), fun hfree hne => ?_⟩
    refine hbyte.tail (Prod.ext ((if_neg ?_).trans (if_neg hne)) rfl)
    rw [hfree]
    exact Bool.false_ne_true

/-- A scan comes to the page that it finds. -/
theorem scan_path {p : Pmm} {k r : Nat} (hr : r ≠ 0) : ∀ {page : Nat},
    findPageLoop p k page = some r → pmmCode.Path (.getHigh page) p (.mark true r .test) p := by
  induction k with
  | zero =>
      intro page h
      cases h
  | succ k ih =>
      intro page h
      obtain ⟨hpass, htake⟩ := getPage_path p page
      rw [findPageLoop] at h
      split at h
      · rename_i hfree
        obtain rfl := Option.some.inj h
        exact htake hfree hr
      · rename_i hused
        simp only at h
        split at h
        · exact absurd (Option.some.inj h).symm hr
        · rename_i hlimit
          have haccess : pmmAccess p (.limit (u64 (page + 4096)))
              = (.inl (.getHigh (u64 (page + 4096))), p) := by
            rw [pmmAccess, if_neg hlimit]
          have hnext : pmmCode.Path (.getHigh page) p (.getHigh (u64 (page + 4096))) p :=
            (hpass (eq_true_of_ne_false hused)).tail haccess
          exact hnext.trans (ih h)

/-- A mark function changes its bit and the counter. -/
theorem mark_path {used : Bool} {page : Nat} {p : Pmm}
    (htest : p.bitmap.test (page / 4096) ≠ used) : ∃ b d,
      pmmCode.Path (.mark used page .test) p b d ∧
        pmmAccess d b = (.inr page, markPage used page p) := by
  have hload : pmmCode.Path (.mark used page .test) p (.mark used page .load) p :=
    .single (Prod.ext (if_neg htest) rfl)
  have hstore : pmmCode.Path (.mark used page .test) p
      (.mark used page (.store (p.bitmap (page / 4096 / 8)))) p := hload.tail rfl
  let d : Pmm := { p with
    bitmap := Function.update p.bitmap (page / 4096 / 8)
      (if used then p.bitmap (page / 4096 / 8) ||| Bitmap.flag (page / 4096)
        else p.bitmap (page / 4096 / 8) &&& ~~~Bitmap.flag (page / 4096)) }
  have hcount : pmmCode.Path (.mark used page .test) p (.mark used page .loadCount) d :=
    hstore.tail rfl
  refine ⟨.mark used page (.storeCount p.used_pages), d, hcount.tail rfl, Prod.ext rfl ?_⟩
  cases used with
  | true => exact (if_neg htest).symm
  | false => exact (if_neg htest).symm

theorem runs_alloc {p : Pmm} {r : Nat} (hfind : pmmFindPage p = some r) (hr : r ≠ 0) :
    pmmCode.Runs .alloc p r (pmmMarkPageUsed r p) := by
  have hfree := (pmmFindPage_free hfind hr).2.2
  have htest : p.bitmap.test (r / 4096) ≠ true := by
    rw [hfree]
    exact Bool.false_ne_true
  obtain ⟨b, d, hpath, hlast⟩ := mark_path htest
  exact ⟨b, d, (scan_path hr hfind).trans hpath, hlast⟩

theorem runs_free {p : Pmm} {page : Nat} (hused : p.bitmap.test (page / 4096) = true) :
    pmmCode.Runs (.free page) p page (pmmMarkPageFree page p) := by
  have htest : p.bitmap.test (page / 4096) ≠ false := by
    rw [hused]
    exact Bool.noConfusion
  obtain ⟨b, d, hpath, hlast⟩ := mark_path htest
  exact ⟨b, d, hpath, hlast⟩

/-! ## Any number of processors -/

/-- Calls of `pmm_alloc_page` and `pmm_free_page` one after the other, with what they return. -/
inductive PmmHistory (s₀ : State) : List (PmmCall × Nat) → State → Prop
  | nil : PmmHistory s₀ [] s₀
  | alloc {calls : List (PmmCall × Nat)} {s s' : State} {page : Nat} (h : PmmHistory s₀ calls s)
      (hrun : pmmAllocPage s.unlock = .ok (page, s')) : PmmHistory s₀ (calls ++ [(.alloc, page)]) s'
  | free {calls : List (PmmCall × Nat)} {s s' : State} {page : Nat} (r : Nat)
      (h : PmmHistory s₀ calls s) (hrun : pmmFreePage page s.unlock = .ok ((), s')) :
      PmmHistory s₀ (calls ++ [(.free page, r)]) s'

/-- The pages that are out after a call. -/
def afterCall (out : Finset Nat) : PmmCall × Nat → Finset Nat
  | (.alloc, page) => if page = 0 then out else insert page out
  | (.free page, _) => out.erase page

/-- The pages that are out after all of them. -/
def outstanding (calls : List (PmmCall × Nat)) : Finset Nat := calls.foldl afterCall ∅

theorem outstanding_concat (calls : List (PmmCall × Nat)) (e : PmmCall × Nat) :
    outstanding (calls ++ [e]) = afterCall (outstanding calls) e := by
  simp [outstanding]

/-- Pages are given back while they are out. -/
def GivesBack (calls : List (PmmCall × Nat)) : Prop :=
  ∀ before page r, before ++ [(.free page, r)] <+: calls → page ∈ outstanding before

/-- Pages are handed out while they are not. -/
def HandsOut (p₀ : Pmm) (calls : List (PmmCall × Nat)) : Prop :=
  ∀ before page, before ++ [(.alloc, page)] <+: calls → page ≠ 0 →
    page ∉ outstanding before ∧ page % 4096 = 0 ∧ 0x800000 ≤ page ∧
      page < p₀.highest_usable_address

/-- A call as a whole is a step of a history. -/
theorem runs_step {s₀ s : State} {calls : List (PmmCall × Nat)} {out : Finset Nat}
    {call : PmmCall} {r : Nat} {p' : Pmm} (hhistory : PmmHistory s₀ calls s)
    (hrun : pmmCode.Runs call s.pmm r p') (hout : ∀ page, call = .free page → page ∈ out) :
    ∃ s', PmmHistory s₀ (calls ++ [(call, r)]) s' ∧
      PmmStep (s, out) (s', afterCall out (call, r)) ∧ s'.pmm = p' := by
  cases call with
  | alloc =>
      obtain ⟨hfind, rfl⟩ := alloc_runs hrun
      have hcall := pmmAllocPage_run s.unlock_free
      rw [unlock_pmm, hfind] at hcall
      by_cases hr : r = 0
      · subst hr
        exact ⟨_, hhistory.alloc hcall, .alloc hcall, rfl⟩
      · simp only [if_neg hr] at hcall ⊢
        exact ⟨_, hhistory.alloc hcall, .alloc hcall, rfl⟩
  | free page =>
      have hcall := pmmFreePage_run s.unlock_free page
      rw [free_runs hrun]
      exact ⟨_, hhistory.free r hcall, .free (hout page rfl) hcall, rfl⟩

/-- Calls one after the other are a history, and hand out pages that are not out. -/
theorem serial_history {p₀ p : Pmm} {calls : List (PmmCall × Nat)}
    (hlow : ∀ q, q < 2048 → p₀.bitmap.test q = true) (h : pmmCode.Serial p₀ calls p)
    (hback : GivesBack calls) :
    (∃ s, PmmHistory (State.boot.withPmm p₀) calls s ∧
      ReflTransGen PmmStep (State.boot.withPmm p₀, ∅) (s, outstanding calls) ∧ s.pmm = p) ∧
      HandsOut p₀ calls := by
  induction h with
  | nil =>
      refine ⟨⟨_, .nil, .refl, rfl⟩, fun before page hpre => ?_⟩
      simp at hpre
  | @snoc p₁ p₂ calls call r hserial hrun ih =>
      obtain ⟨⟨s, hhistory, hsteps, rfl⟩, hhands⟩ :=
        ih fun before page r hpre => hback before page r (hpre.trans (List.prefix_append _ _))
      obtain ⟨s', hhistory', hstep, hpmm⟩ := runs_step hhistory hrun
        fun page hpage => hback calls page r (by rw [hpage])
      refine ⟨⟨s', hhistory', ?_, hpmm⟩, fun before page hpre hne => ?_⟩
      · rw [outstanding_concat]
        exact hsteps.tail hstep
      · rcases List.prefix_concat_iff.mp hpre with heq | hpre
        · obtain ⟨rfl, he⟩ := List.append_inj' heq rfl
          obtain ⟨rfl, rfl⟩ := Prod.mk.inj (List.cons.inj he).1
          have hinstep := inStep_run hlow hsteps
          have hfresh := hinstep.fresh hlow (alloc_runs hrun).1 hne
          exact ⟨hfresh.not_outstanding, hfresh.aligned, hfresh.high,
            hinstep.highest_eq ▸ hfresh.below⟩
        · exact hhands before page hpre hne

/-- **The page allocator on several processors.** Any number of processors call `pmm_alloc_page` and
`pmm_free_page`, in any order of their accesses. The calls that have ended are a history of these
functions, one after the other. No page is handed out that is out already, and whenever no processor
is behind `acquire` the data are what the history leaves: the bitmap and the counter are in step with
the pages that are out. -/
theorem pmmCalls_inStep {ι : Type} [DecidableEq ι] (p₀ : Pmm)
    (hlow : ∀ q, q < 2048 → p₀.bitmap.test q = true) (mutex : Nat)
    (hfree : mutex.testBit 0 = false)
    (c : Agents ι (Spinlock.Shared Pmm PmmCall Nat) (Spinlock.Processor PmmCall PmmAt Nat))
    (hrun : Spinlock.Reaches pmmCode pmmReleases ⟨⟨mutex, p₀, []⟩, fun _ => .elsewhere⟩ c)
    (hback : GivesBack c.shared.ended) :
    (∃ s, PmmHistory (State.boot.withPmm p₀) c.shared.ended s ∧
      ((∀ i, ¬ (c.own i).Holds) → c.shared.data = s.pmm)) ∧
    HandsOut p₀ c.shared.ended ∧
      ((∀ i, ¬ (c.own i).Holds) → InStep p₀ c.shared.data (outstanding c.shared.ended)) := by
  obtain ⟨d, hserial, hdata⟩ := (Spinlock.reaches_phase hfree hrun).serial
  obtain ⟨⟨s, hhistory, hsteps, rfl⟩, hhands⟩ := serial_history hlow hserial hback
  exact ⟨⟨s, hhistory, hdata⟩, hhands, fun hnone => (hdata hnone).symm ▸ inStep_run hlow hsteps⟩

/-- Two processors get a page each, and the first one gives its page back. The second one has come to
its `acquire` while the first one was behind it. -/
theorem twoPages_reached {p₀ : Pmm} {a b : Nat} (ha : a ≠ 0) (hb : b ≠ 0)
    (hfirst : pmmFindPage p₀ = some a) (hsecond : pmmFindPage (pmmMarkPageUsed a p₀) = some b)
    (hused : (pmmMarkPageUsed b (pmmMarkPageUsed a p₀)).bitmap.test (a / 4096) = true) :
    ∃ c : Agents Bool (Spinlock.Shared Pmm PmmCall Nat) (Spinlock.Processor PmmCall PmmAt Nat),
      Spinlock.Reaches pmmCode pmmReleases ⟨⟨0, p₀, []⟩, fun _ => .elsewhere⟩ c ∧
      c.shared.ended = [(.alloc, a), (.alloc, b), (.free a, a)] ∧ ∀ i, ¬ (c.own i).Holds := by
  have hne : true ≠ false := Bool.noConfusion
  let own : Bool → Spinlock.Processor PmmCall PmmAt Nat := fun _ => .elsewhere
  have hstart : Spinlock.Reaches pmmCode pmmReleases ⟨⟨0, p₀, []⟩, own⟩ ⟨⟨0, p₀, []⟩, own⟩ := .refl
  have hinside := (hstart.call (i := false) rfl .alloc).inside (Nat.zero_testBit 0)
  -- the second processor comes to its `acquire`, and waits
  have hwait := hinside.call (i := true) rfl .alloc
  rw [Function.update_comm hne.symm] at hwait
  have hfirst' := hwait.ends (runs_alloc hfirst ha) (decide_eq_true ha)
  rw [Function.update_comm hne] at hfirst'
  have hsecond' := (hfirst'.inside (Spinlock.free_byte _)).ends (runs_alloc hsecond hb)
    (decide_eq_true hb)
  -- the first page is given back
  have hfree := (hsecond'.call (i := false) rfl (.free a)).inside (Spinlock.free_byte _)
  have hend := hfree.ends (runs_free hused) rfl
  refine ⟨_, hend, rfl, fun i => ?_⟩
  cases i <;> exact not_false

/-- So it is on a machine with 16 MiB. -/
theorem pmmCalls_inStep_twoPages : ∃ c : Agents Bool (Spinlock.Shared Pmm PmmCall Nat)
    (Spinlock.Processor PmmCall PmmAt Nat), ∃ a b, a ≠ b ∧ 0x800000 ≤ a ∧ 0x800000 ≤ b ∧
    c.shared.ended = [(.alloc, a), (.alloc, b), (.free a, a)] ∧
    (∃ s, PmmHistory (State.boot.withPmm (.clean 0x1000000)) c.shared.ended s ∧
      c.shared.data = s.pmm) ∧
    HandsOut (.clean 0x1000000) c.shared.ended ∧
    InStep (.clean 0x1000000) c.shared.data (outstanding c.shared.ended) := by
  have hlow : ∀ q, q < 2048 → (Pmm.clean 0x1000000).bitmap.test q = true := fun q hq =>
    (test_clean 0x1000000 q).trans (decide_eq_true hq)
  obtain ⟨a, b, ha, hb, hfirst, hsecond⟩ := findPage_twice
    (scannable_clean (show 0x1000000 < 2 ^ 64 by decide)) (supply_clean (by decide))
  have hused : (pmmMarkPageUsed b (pmmMarkPageUsed a (.clean 0x1000000))).bitmap.test (a / 4096)
      = true := by
    rw [test_markPageUsed, test_markPageUsed]
    simp
  obtain ⟨c, hreach, hended, hnone⟩ := twoPages_reached ha hb hfirst hsecond hused
  have hback : GivesBack c.shared.ended := by
    rintro before page r ⟨after, hcalls⟩
    rw [hended] at hcalls
    rcases before with _ | ⟨e₁, _ | ⟨e₂, _ | ⟨e₃, before⟩⟩⟩
    · cases hcalls
    · cases hcalls
    · cases hcalls
      simp [outstanding, afterCall, ha, hb]
    · simp at hcalls
  obtain ⟨⟨s, hhistory, hdata⟩, hhands, hinstep⟩ :=
    pmmCalls_inStep (.clean 0x1000000) hlow 0 (by decide) c hreach hback
  have hhand₁ := hhands [] a (by simp [hended]) ha
  have hhand₂ := hhands [(.alloc, a)] b (by simp [hended]) hb
  refine ⟨c, a, b, ?_, hhand₁.2.2.1, hhand₂.2.2.1, hended, ⟨s, hhistory, hdata hnone⟩, hhands,
    hinstep hnone⟩
  rintro rfl
  exact hhand₂.1 (by simp [outstanding, afterCall, ha])

end Windozz.Kernel

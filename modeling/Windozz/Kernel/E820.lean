import Mathlib.Data.Set.Defs
import Windozz.Kernel.Pmm

set_option autoImplicit false

/-! # The firmware memory map

`pmm_init` fills the page bitmap from the E820 map: every byte of it is set, then the entries are
processed in order. The loop of a usable entry clears the bits of `⌈length / 4096⌉` pages from the
page of its base on, and the loop of any other entry sets one page more.

A page is free at the end when the last entry whose loop visits it is usable
(`test_addEntries`), so what happens on a page that two entries share is decided by their order.
For a sorted map `pmmInit_safe_iff` says exactly when no page with an unusable byte is left free.
-/

namespace Windozz.Kernel

/-! ## The map -/

/-- An entry of the map, `e820_t`. -/
structure E820 where
  size : Nat
  base : Nat
  length : Nat
  type : Nat
  acpi3_flags : Nat

/-- The map that the boot loader passes. It stops when the firmware reports no entry. -/
structure E820Map where
  entries : List E820
  nonempty : entries ≠ []

namespace E820

/-- The ACPI 3.0 test of `e820_add_entry`. -/
def Ignored (e : E820) : Prop := 24 ≤ e.size ∧ e.acpi3_flags &&& 1 = 0

instance (e : E820) : Decidable e.Ignored := inferInstanceAs (Decidable (_ ∧ _))

/-- The number of rounds of the loop of `e820_add_entry`. -/
def pages (e : E820) : Nat :=
  if e.type = 1 then u64 (e.length + 4095) / 4096 else u64 (u64 (e.length + 4095) / 4096 + 1)

end E820

/-! ## `pmm_init` -/

/-- One round of the loop of `e820_add_entry`. -/
def addPage (e : E820) (i : Nat) (p : Pmm) : Pmm :=
  if e.type = 1 then
    { pmmMarkPageFree (u64 (e.base + u64 (i * 4096))) p with used_pages := p.used_pages }
  else pmmMarkPageUsed (u64 (e.base + u64 (i * 4096))) p

/-- The first `n` rounds of the loop of `e820_add_entry`. -/
def addPages (e : E820) : Nat → Pmm → Pmm
  | 0, p => p
  | n + 1, p => addPage e n (addPages e n p)

/-- `e820_add_entry`. -/
def e820AddEntry (e : E820) (p : Pmm) : Pmm :=
  if e.length = 0 then p
  else if e.Ignored then p
  else
    let last := u64 (e.base + e.length)
    let highest :=
      if e.type = 1 ∧ p.highest_usable_address < last then u64 (last + (2 ^ 64 - 1))
      else p.highest_usable_address
    let total := u64 (p.total_pages + e.pages)
    let used := if e.type = 1 then p.used_pages else u64 (p.used_pages + e.pages)
    addPages e e.pages
      { p with highest_usable_address := highest, total_pages := total, used_pages := used }

/-- The loop of `pmm_init` over the entries. -/
def addEntries (entries : List E820) (p : Pmm) : Pmm :=
  entries.foldl (fun p e => if e.type ≠ 0 ∧ e.type ≤ 5 then e820AddEntry e p else p) p

/-- The number of bytes of the bitmap. -/
def bitmapSize (map : E820Map) : Nat :=
  let e820_last := map.entries.getLast map.nonempty
  let last_address := u64 (e820_last.base + e820_last.length)
  (u64 (last_address + 4095) / 4096 + 7) / 8

/-- The bitmap with its first bytes set to `0xFF`. -/
def resetBitmap (map : E820Map) (p : Pmm) : Pmm :=
  { p with
    bitmap := fun i => if i < bitmapSize map then 255 else p.bitmap i
    bitmap_size := bitmapSize map }

/-- The last loop of `pmm_init`: the first `n` pages are marked used. -/
def markLowest : Nat → Pmm → Pmm
  | 0, p => p
  | n + 1, p => pmmMarkPageUsed (n * 4096) (markLowest n p)

/-- `pmm_init`. -/
def pmmInit (map : E820Map) : K Unit := do
  modify fun s => { s with pmm := addEntries map.entries (resetBitmap map s.pmm) }
  let s ← get
  if u64 (s.pmm.total_pages * 4096) / 1024 / 1024 < 16 then throw .hang
  else modify fun s => { s with pmm := markLowest 2048 s.pmm }

/-! ## What the loops do to the bitmap -/

/-- The pages that the loop of an entry visits. -/
def E820.Visits (e : E820) (q : Nat) : Prop := e.base / 4096 ≤ q ∧ q < e.base / 4096 + e.pages

instance (e : E820) (q : Nat) : Decidable (e.Visits q) := inferInstanceAs (Decidable (_ ∧ _))

/-- The entry is not skipped. -/
structure E820.Processed (e : E820) : Prop where
  type_pos : e.type ≠ 0
  type_le : e.type ≤ 5
  length_pos : e.length ≠ 0
  not_ignored : ¬ e.Ignored

theorem E820.processed_iff {e : E820} :
    e.Processed ↔ e.type ≠ 0 ∧ e.type ≤ 5 ∧ e.length ≠ 0 ∧ ¬ e.Ignored :=
  ⟨fun h => ⟨h.type_pos, h.type_le, h.length_pos, h.not_ignored⟩,
    fun h => ⟨h.1, h.2.1, h.2.2.1, h.2.2.2⟩⟩

instance (e : E820) : Decidable e.Processed := decidable_of_iff _ E820.processed_iff.symm

/-- The range of an entry, rounded up to whole pages, lies in the address space. -/
def E820.Fits (e : E820) : Prop := e.base + e.length + 4095 < 2 ^ 64

theorem E820.Fits.pages_eq {e : E820} (h : e.Fits) :
    e.pages = (e.length + 4095) / 4096 + if e.type = 1 then 0 else 1 := by
  have hlt : e.length + 4095 < 2 ^ 64 := by
    have := h
    unfold E820.Fits at this
    omega
  unfold E820.pages
  rw [u64_of_lt hlt]
  by_cases ht : e.type = 1
  · simp [ht]
  · rw [if_neg ht, if_neg ht, u64_of_lt (by omega)]

/-- The loop of the entry visits the page, the addresses wrapping at 64 bits. -/
def E820.Reaches (e : E820) (q : Nat) : Prop :=
  ∃ i, i < e.pages ∧ u64 (e.base + u64 (i * 4096)) / 4096 = q

/-- Off the end of the address space nothing wraps. -/
theorem E820.Fits.reaches_iff {e : E820} (h : e.Fits) {q : Nat} : e.Reaches q ↔ e.Visits q := by
  have hpages := h.pages_eq
  have hlt := h
  unfold E820.Fits at hlt
  have hpage : ∀ i, i < e.pages → u64 (e.base + u64 (i * 4096)) / 4096 = e.base / 4096 + i := by
    intro i hi
    have haddr : e.base + i * 4096 < 2 ^ 64 := by
      split at hpages <;> omega
    rw [u64_of_lt (by omega : i * 4096 < 2 ^ 64), u64_of_lt haddr]
    omega
  constructor
  · rintro ⟨i, hi, hq⟩
    rw [hpage i hi] at hq
    exact ⟨by omega, by omega⟩
  · rintro ⟨hlow, hhigh⟩
    refine ⟨q - e.base / 4096, by omega, ?_⟩
    rw [hpage _ (by omega)]
    omega

/-- A round of the loop marks one page. -/
theorem test_addPage (e : E820) (i : Nat) (p : Pmm) (q : Nat) :
    (addPage e i p).bitmap.test q
      = if u64 (e.base + u64 (i * 4096)) / 4096 = q then decide (e.type ≠ 1)
        else p.bitmap.test q := by
  by_cases ht : e.type = 1
  · simp only [addPage, if_pos ht, test_markPageFree]
    by_cases hq : u64 (e.base + u64 (i * 4096)) / 4096 = q <;> simp [hq, ht]
  · simp only [addPage, if_neg ht, test_markPageUsed]
    by_cases hq : u64 (e.base + u64 (i * 4096)) / 4096 = q <;> simp [hq, ht]

/-- The loop marks the pages it visits. -/
theorem test_addPages (e : E820) (p : Pmm) (q : Nat) (n : Nat) :
    ((addPages e n p).bitmap.test q = false) ↔
      ((∃ i, i < n ∧ u64 (e.base + u64 (i * 4096)) / 4096 = q) ∧ e.type = 1) ∨
      (¬ (∃ i, i < n ∧ u64 (e.base + u64 (i * 4096)) / 4096 = q) ∧ p.bitmap.test q = false) := by
  induction n with
  | zero => simp [addPages]
  | succ n ih =>
      have hsplit : (∃ i, i < n + 1 ∧ u64 (e.base + u64 (i * 4096)) / 4096 = q) ↔
          u64 (e.base + u64 (n * 4096)) / 4096 = q ∨
            ∃ i, i < n ∧ u64 (e.base + u64 (i * 4096)) / 4096 = q := by
        constructor
        · rintro ⟨i, hi, hq⟩
          rcases Nat.lt_succ_iff_lt_or_eq.mp hi with hi | rfl
          · exact Or.inr ⟨i, hi, hq⟩
          · exact Or.inl hq
        · rintro (hq | ⟨i, hi, hq⟩)
          · exact ⟨n, Nat.lt_succ_self n, hq⟩
          · exact ⟨i, Nat.lt_succ_of_lt hi, hq⟩
      rw [addPages, test_addPage, hsplit]
      by_cases hq : u64 (e.base + u64 (n * 4096)) / 4096 = q
      · rw [if_pos hq]
        simp [hq]
      · rw [if_neg hq, ih]
        simp only [hq, false_or]

/-- `e820_add_entry` frees the visited pages of a usable entry and takes those of another. -/
theorem test_addEntry {e : E820} (he : e.Processed) (p : Pmm) (q : Nat) :
    (e820AddEntry e p).bitmap.test q = false ↔
      (e.Reaches q ∧ e.type = 1) ∨ (¬ e.Reaches q ∧ p.bitmap.test q = false) := by
  rw [e820AddEntry, if_neg he.length_pos, if_neg he.not_ignored]
  exact test_addPages _ _ _ _

theorem addEntries_nil (p : Pmm) : addEntries [] p = p := rfl

theorem addEntries_cons (e : E820) (rest : List E820) (p : Pmm) :
    addEntries (e :: rest) p
      = addEntries rest (if e.type ≠ 0 ∧ e.type ≤ 5 then e820AddEntry e p else p) := rfl

/-- An entry that is not processed leaves the manager as it is. -/
theorem add_not_processed {e : E820} (he : ¬ e.Processed) (p : Pmm) :
    (if e.type ≠ 0 ∧ e.type ≤ 5 then e820AddEntry e p else p) = p := by
  by_cases ht : e.type ≠ 0 ∧ e.type ≤ 5
  · rw [if_pos ht]
    by_cases hl : e.length = 0
    · rw [e820AddEntry, if_pos hl]
    · by_cases hi : e.Ignored
      · rw [e820AddEntry, if_neg hl, if_pos hi]
      · exact absurd ⟨ht.1, ht.2, hl, hi⟩ he
  · rw [if_neg ht]

theorem add_processed {e : E820} (he : e.Processed) (p : Pmm) :
    (if e.type ≠ 0 ∧ e.type ≤ 5 then e820AddEntry e p else p) = e820AddEntry e p :=
  if_pos ⟨he.type_pos, he.type_le⟩

/-- The last entry of the map whose loop visits the page is usable. -/
def LastVisitUsable (entries : List E820) (q : Nat) : Prop :=
  ∃ pre e post, entries = pre ++ e :: post ∧ e.Processed ∧ e.type = 1 ∧ e.Visits q ∧
    ∀ e' ∈ post, e'.Processed → ¬ e'.Visits q

/-- No entry of the map has a loop that visits the page. -/
def Unvisited (entries : List E820) (q : Nat) : Prop :=
  ∀ e ∈ entries, e.Processed → ¬ e.Visits q

/-- The same with addresses that wrap. -/
def LastReachUsable (entries : List E820) (q : Nat) : Prop :=
  ∃ pre e post, entries = pre ++ e :: post ∧ e.Processed ∧ e.type = 1 ∧ e.Reaches q ∧
    ∀ e' ∈ post, e'.Processed → ¬ e'.Reaches q

/-- No entry of the map reaches the page. -/
def Unreached (entries : List E820) (q : Nat) : Prop :=
  ∀ e ∈ entries, e.Processed → ¬ e.Reaches q

theorem lastReachUsable_nil (q : Nat) : ¬ LastReachUsable [] q := by
  rintro ⟨pre, e, post, h, -⟩
  simp at h

theorem lastReachUsable_cons {e : E820} {rest : List E820} {q : Nat} :
    LastReachUsable (e :: rest) q ↔
      LastReachUsable rest q ∨ (e.Processed ∧ e.type = 1 ∧ e.Reaches q ∧ Unreached rest q) := by
  constructor
  · rintro ⟨pre, d, post, hsplit, hd⟩
    cases pre with
    | nil =>
        obtain ⟨rfl, rfl⟩ := List.cons.inj hsplit
        exact Or.inr hd
    | cons c pre =>
        obtain ⟨rfl, rfl⟩ := List.cons.inj hsplit
        exact Or.inl ⟨pre, d, post, rfl, hd⟩
  · rintro (⟨pre, d, post, rfl, hd⟩ | he)
    · exact ⟨e :: pre, d, post, rfl, hd⟩
    · exact ⟨[], e, rest, rfl, he⟩

theorem unreached_cons {e : E820} {rest : List E820} {q : Nat} :
    Unreached (e :: rest) q ↔ (e.Processed → ¬ e.Reaches q) ∧ Unreached rest q :=
  List.forall_mem_cons

/-- When nothing wraps, the two readings agree. -/
theorem lastReachUsable_iff {entries : List E820} (hfits : ∀ e ∈ entries, e.Fits) {q : Nat} :
    LastReachUsable entries q ↔ LastVisitUsable entries q := by
  refine exists₃_congr fun pre e post => and_congr_right fun hsplit => ?_
  have he : e.Reaches q ↔ e.Visits q := (hfits e (by simp [hsplit])).reaches_iff
  have hpost : (∀ e' ∈ post, e'.Processed → ¬ e'.Reaches q) ↔
      ∀ e' ∈ post, e'.Processed → ¬ e'.Visits q := by
    refine forall₂_congr fun e' he' => forall_congr' fun _ => not_congr ?_
    exact (hfits e' (by simp [hsplit, he'])).reaches_iff
  rw [he, hpost]

/-- A page is free after the loop when its last visit frees it, or when it was free before and is
not visited. -/
theorem test_addEntries (entries : List E820) (p : Pmm) (q : Nat) :
    (addEntries entries p).bitmap.test q = false ↔
      LastReachUsable entries q ∨ (p.bitmap.test q = false ∧ Unreached entries q) := by
  induction entries generalizing p with
  | nil => simp [addEntries, lastReachUsable_nil, Unreached]
  | cons e rest ih =>
      rw [addEntries_cons, ih, lastReachUsable_cons, unreached_cons]
      by_cases he : e.Processed
      · rw [add_processed he, test_addEntry he]
        by_cases hv : e.Reaches q
        · simp only [he, hv, true_and, true_implies, not_true, false_and, and_false, or_false]
        · simp only [he, hv, not_false_eq_true, implies_true, true_and, false_and, and_false,
            or_false, false_or]
      · rw [add_not_processed he]
        simp only [he, false_and, or_false, false_implies, true_and]

/-- The last loop takes the lowest pages. -/
theorem test_markLowest (n : Nat) (p : Pmm) (q : Nat) :
    (markLowest n p).bitmap.test q = (p.bitmap.test q || decide (q < n)) := by
  induction n with
  | zero => simp [markLowest]
  | succ n ih =>
      rw [markLowest, test_markPageUsed, ih, Nat.mul_div_cancel _ (by decide), Bool.or_assoc]
      congr 1
      rw [← Bool.decide_or, decide_eq_decide]
      omega

theorem test_resetBitmap {map : E820Map} {q : Nat} (p : Pmm) (hq : q / 8 < bitmapSize map) :
    (resetBitmap map p).bitmap.test q = true :=
  Bitmap.test_of_ones (if_pos hq)

/-- `pmm_init` returns when there are 16 MB of memory. -/
theorem pmmInit_run (map : E820Map) (s : State) :
    pmmInit map s =
      if u64 ((addEntries map.entries (resetBitmap map s.pmm)).total_pages * 4096)
        / 1024 / 1024 < 16 then .error .hang
      else .ok ((), s.withPmm (markLowest 2048 (addEntries map.entries (resetBitmap map s.pmm)))) := by
  rw [pmmInit, Prog.bind_ok (Prog.run_modify _ _), Prog.bind_ok (Prog.run_get _)]
  simp only
  split <;> rfl

theorem pmmInit_ok {map : E820Map} {s s' : State} (hrun : pmmInit map s = .ok ((), s')) :
    s' = s.withPmm (markLowest 2048 (addEntries map.entries (resetBitmap map s.pmm))) := by
  rw [pmmInit_run] at hrun
  split at hrun
  · cases hrun
  · exact (Prod.mk.inj (Except.ok.inj hrun)).2.symm

/-- **The free pages.** A page of the bitmap is free after `pmm_init` when it is above 8 MiB and the
last entry that visits it is usable. -/
theorem pmmInit_free {map : E820Map} (hfits : ∀ e ∈ map.entries, e.Fits) {s s' : State}
    (hrun : pmmInit map s = .ok ((), s')) {q : Nat} (hq : q / 8 < bitmapSize map) :
    s'.pmm.bitmap.test q = false ↔ 2048 ≤ q ∧ LastVisitUsable map.entries q := by
  obtain rfl := pmmInit_ok hrun
  rw [State.withPmm, test_markLowest, Bool.or_eq_false_iff, test_addEntries,
    test_resetBitmap _ hq, decide_eq_false_iff_not, not_lt, lastReachUsable_iff hfits]
  simp [and_comm]

/-! ## Sorted maps -/

/-- The address lies in the range of the entry. -/
def E820.Contains (e : E820) (a : Nat) : Prop := e.base ≤ a ∧ a < e.base + e.length

/-- The addresses of the usable entries. -/
def usable (entries : List E820) : Set Nat :=
  {a | ∃ e ∈ entries, e.type = 1 ∧ ¬ e.Ignored ∧ e.Contains a}

/-- The entries are sorted by base and pairwise disjoint. -/
structure SortedMap (entries : List E820) : Prop where
  sorted : entries.Pairwise fun e e' => e.base ≤ e'.base
  disjoint : entries.Pairwise fun e e' => ∀ a, e.Contains a → ¬ e'.Contains a
  fits : ∀ e ∈ entries, e.Fits

/-- No processed entry starts in the page. -/
def NoStart (entries : List E820) (q : Nat) : Prop :=
  ∀ e ∈ entries, e.Processed → e.base / 4096 ≠ q

/-- Rounding a usable entry to pages gives nothing away. If no later entry starts in the page of
its base, what precedes it in that page is usable; if no later entry starts in the last page its
loop visits, the entry fills that page to the end. -/
def RoundingSafe (map : E820Map) : Prop :=
  ∀ pre e post, map.entries = pre ++ e :: post → e.Processed → e.type = 1 →
    ∀ q, 2048 ≤ q → q / 8 < bitmapSize map → NoStart post q →
      (q = e.base / 4096 → ∀ a, q * 4096 ≤ a → a < e.base → a ∈ usable map.entries) ∧
      (q + 1 = e.base / 4096 + e.pages → (q + 1) * 4096 ≤ e.base + e.length)

/-- An entry ends before a later one begins. -/
theorem SortedMap.end_le {pre post : List E820} {e e' : E820}
    (h : SortedMap (pre ++ e :: post)) (he' : e' ∈ post) (hpos : e'.length ≠ 0) :
    e.base + e.length ≤ e'.base := by
  have hsorted := (List.pairwise_cons.mp (List.pairwise_append.mp h.sorted).2.1).1 e' he'
  have hdisj := (List.pairwise_cons.mp (List.pairwise_append.mp h.disjoint).2.1).1 e' he'
  by_contra hlt
  exact hdisj e'.base ⟨hsorted, not_le.mp hlt⟩ ⟨le_refl _, by omega⟩

theorem E820.usable_pages {e : E820} (hfits : e.Fits) (ht : e.type = 1) :
    e.pages = (e.length + 4095) / 4096 := by
  rw [hfits.pages_eq, if_pos ht, Nat.add_zero]

theorem E820.Processed.pages_pos {e : E820} (he : e.Processed) (hfits : e.Fits) : 0 < e.pages := by
  have := he.length_pos
  rw [hfits.pages_eq]
  omega

/-- On a page that a usable entry visits, a later entry visits it exactly when it starts there. -/
theorem SortedMap.visits_iff {pre post : List E820} {e e' : E820}
    (h : SortedMap (pre ++ e :: post)) (ht : e.type = 1) {q : Nat} (hv : e.Visits q)
    (he' : e' ∈ post) (hp : e'.Processed) : e'.Visits q ↔ e'.base / 4096 = q := by
  have hend := h.end_le he' hp.length_pos
  have hpages := E820.usable_pages (h.fits e (by simp)) ht
  have hpos := hp.pages_pos (h.fits e' (by simp [he']))
  obtain ⟨hlow, hhigh⟩ := hv
  constructor
  · rintro ⟨hlow', -⟩
    omega
  · intro hq
    exact ⟨by omega, by omega⟩

theorem SortedMap.unvisited_iff {pre post : List E820} {e : E820}
    (h : SortedMap (pre ++ e :: post)) (ht : e.type = 1) {q : Nat} (hv : e.Visits q) :
    Unvisited post q ↔ NoStart post q :=
  forall₂_congr fun _ he' => forall_congr' fun hp => not_congr (h.visits_iff ht hv he' hp)

/-- When the boundary pages are safe, a page left free is usable. -/
theorem RoundingSafe.usable {map : E820Map} (hsorted : SortedMap map.entries)
    (hsafe : RoundingSafe map) {q : Nat} (hlow : 2048 ≤ q) (hq : q / 8 < bitmapSize map)
    (hlast : LastVisitUsable map.entries q) {a : Nat} (ha : a / 4096 = q) :
    a ∈ usable map.entries := by
  obtain ⟨pre, e, post, hsplit, hp, ht, hv, hpost⟩ := hlast
  rw [hsplit] at hsorted
  have hmem : e ∈ map.entries := by simp [hsplit]
  have hpages := E820.usable_pages (hsorted.fits e (by simp)) ht
  have hnostart := (hsorted.unvisited_iff ht hv).mp hpost
  obtain ⟨hstart, hstop⟩ := hsafe pre e post hsplit hp ht q hlow hq hnostart
  have hbounds := hv
  unfold E820.Visits at hbounds
  by_cases hbase : a < e.base
  · exact hstart (by omega) a (by omega) hbase
  · refine ⟨e, hmem, ht, hp.not_ignored, not_lt.mp hbase, ?_⟩
    by_contra hbeyond
    have hend := hstop (by omega)
    omega

/-- A usable entry whose page is left free and shared with an unusable byte. -/
theorem roundingSafe_of_usable {map : E820Map} (hsorted : SortedMap map.entries)
    (husable : ∀ q, 2048 ≤ q → q / 8 < bitmapSize map → LastVisitUsable map.entries q →
      ∀ a, a / 4096 = q → a ∈ usable map.entries) : RoundingSafe map := by
  intro pre e post hsplit hp ht q hlow hq hnostart
  have hsorted' := hsorted
  rw [hsplit] at hsorted'
  have hfits := hsorted'.fits e (by simp)
  have hpages := E820.usable_pages hfits ht
  have hpos := hp.length_pos
  have hfree : e.Visits q → ∀ a, a / 4096 = q → a ∈ Kernel.usable map.entries := fun hv =>
    husable q hlow hq ⟨pre, e, post, hsplit, hp, ht, hv, (hsorted'.unvisited_iff ht hv).mpr hnostart⟩
  constructor
  · intro hfirst a hqa hab
    exact hfree ⟨by omega, by omega⟩ a (by omega)
  · intro hlast
    by_contra hend
    -- the first byte after the entry lies in the page, so some entry has to hold it
    obtain ⟨d, hd, hdt, hdi, hda, hdb⟩ := hfree ⟨by omega, by omega⟩ (e.base + e.length) (by omega)
    rw [hsplit, List.mem_append, List.mem_cons] at hd
    rcases hd with hd | rfl | hd
    · obtain ⟨pre₁, pre₂, rfl⟩ := List.append_of_mem hd
      have hle : d.base + d.length ≤ e.base :=
        (show SortedMap (pre₁ ++ d :: (pre₂ ++ e :: post)) by
          simpa using hsorted').end_le (by simp) hpos
      omega
    · omega
    · have hdpos : d.length ≠ 0 := by omega
      have hle := hsorted'.end_le hd hdpos
      exact hnostart d hd ⟨by omega, by omega, hdpos, hdi⟩ (by omega)

/-! ## The initialised manager -/

/-- The mark functions change the bitmap and the counter only. -/
theorem markPageFree_frame (addr : Nat) (p : Pmm) :
    ∃ b u, pmmMarkPageFree addr p = { p with bitmap := b, used_pages := u } := by
  unfold pmmMarkPageFree
  split
  · exact ⟨p.bitmap, p.used_pages, rfl⟩
  · exact ⟨_, _, rfl⟩

theorem markPageUsed_frame (addr : Nat) (p : Pmm) :
    ∃ b u, pmmMarkPageUsed addr p = { p with bitmap := b, used_pages := u } := by
  unfold pmmMarkPageUsed
  split
  · exact ⟨p.bitmap, p.used_pages, rfl⟩
  · exact ⟨_, _, rfl⟩

theorem addPages_frame (e : E820) (n : Nat) (p : Pmm) :
    ∃ b u, (e.type = 1 → u = p.used_pages) ∧
      addPages e n p = { p with bitmap := b, used_pages := u } := by
  induction n with
  | zero => exact ⟨p.bitmap, p.used_pages, fun _ => rfl, rfl⟩
  | succ n ih =>
      obtain ⟨b, u, hu, ih⟩ := ih
      rw [addPages, ih, addPage]
      split
      · obtain ⟨b', u', hmark⟩ := markPageFree_frame (u64 (e.base + u64 (n * 4096)))
          { p with bitmap := b, used_pages := u }
        exact ⟨b', u, hu, by rw [hmark]⟩
      · rename_i ht
        obtain ⟨b', u', hmark⟩ := markPageUsed_frame (u64 (e.base + u64 (n * 4096)))
          { p with bitmap := b, used_pages := u }
        exact ⟨b', u', fun h => absurd h ht, by rw [hmark]⟩

/-- A processed entry adds its pages to the total, and a usable one may raise the highest usable
address. -/
theorem e820AddEntry_frame {e : E820} (he : e.Processed) (p : Pmm) :
    ∃ b u, (e.type = 1 → u = p.used_pages) ∧
      e820AddEntry e p = {
        bitmap := b
        bitmap_size := p.bitmap_size
        total_pages := u64 (p.total_pages + e.pages)
        used_pages := u
        highest_usable_address :=
          if e.type = 1 ∧ p.highest_usable_address < u64 (e.base + e.length) then
            u64 (u64 (e.base + e.length) + (2 ^ 64 - 1))
          else p.highest_usable_address } := by
  rw [e820AddEntry, if_neg he.length_pos, if_neg he.not_ignored]
  simp only
  obtain ⟨b, u, hu, hpages⟩ := addPages_frame e e.pages
    { p with
      highest_usable_address :=
        if e.type = 1 ∧ p.highest_usable_address < u64 (e.base + e.length) then
          u64 (u64 (e.base + e.length) + (2 ^ 64 - 1))
        else p.highest_usable_address
      total_pages := u64 (p.total_pages + e.pages)
      used_pages := if e.type = 1 then p.used_pages else u64 (p.used_pages + e.pages) }
  refine ⟨b, u, fun ht => ?_, hpages⟩
  rw [hu ht]
  exact if_pos ht

/-- The total after the loop over the entries. -/
def totalAfter (entries : List E820) (total : Nat) : Nat :=
  entries.foldl (fun total e => if e.Processed then u64 (total + e.pages) else total) total

theorem total_addEntries (entries : List E820) (p : Pmm) :
    (addEntries entries p).total_pages = totalAfter entries p.total_pages := by
  induction entries generalizing p with
  | nil => rfl
  | cons e rest ih =>
      rw [addEntries_cons, ih, totalAfter, totalAfter, List.foldl_cons]
      by_cases he : e.Processed
      · obtain ⟨b, u, -, hadd⟩ := e820AddEntry_frame he p
        rw [add_processed he, hadd, if_pos he]
      · rw [add_not_processed he, if_neg he]

/-- With 16 MiB of memory `pmm_init` returns. -/
theorem pmmInit_enough {map : E820Map} {s : State} (hs : s.pmm = .boot)
    (h : ¬ u64 (totalAfter map.entries 0 * 4096) / 1024 / 1024 < 16) :
    pmmInit map s = .ok ((), s.withPmm
      (markLowest 2048 (addEntries map.entries (resetBitmap map s.pmm)))) := by
  have htotal : (resetBitmap map s.pmm).total_pages = 0 := by
    rw [hs]
    rfl
  rw [pmmInit_run, total_addEntries, htotal, if_neg h]

theorem markLowest_frame (n : Nat) (p : Pmm) :
    ∃ b u, markLowest n p = { p with bitmap := b, used_pages := u } := by
  induction n with
  | zero => exact ⟨p.bitmap, p.used_pages, rfl⟩
  | succ n ih =>
      obtain ⟨b, u, ih⟩ := ih
      obtain ⟨b', u', hmark⟩ := markPageUsed_frame (n * 4096) { p with bitmap := b, used_pages := u }
      exact ⟨b', u', by rw [markLowest, ih, hmark]⟩

theorem used_markLowest (n : Nat) (p : Pmm) : (markLowest n p).used_pages ≤ p.used_pages + n := by
  induction n with
  | zero => exact le_refl _
  | succ n ih =>
      rw [markLowest, pmmMarkPageUsed]
      split
      · omega
      · exact (Nat.mod_le _ _).trans (by omega)

theorem bitmap_size_addEntries (entries : List E820) (p : Pmm) :
    (addEntries entries p).bitmap_size = p.bitmap_size := by
  induction entries generalizing p with
  | nil => rfl
  | cons e rest ih =>
      rw [addEntries_cons, ih]
      by_cases he : e.Processed
      · obtain ⟨b, u, -, hadd⟩ := e820AddEntry_frame he p
        rw [add_processed he, hadd]
      · rw [add_not_processed he]

theorem pmmInit_bitmap_size {map : E820Map} {s s' : State} (hrun : pmmInit map s = .ok ((), s')) :
    s'.pmm.bitmap_size = bitmapSize map := by
  obtain rfl := pmmInit_ok hrun
  obtain ⟨b, u, hlowest⟩ := markLowest_frame 2048 (addEntries map.entries (resetBitmap map s.pmm))
  rw [State.withPmm, hlowest]
  exact bitmap_size_addEntries _ _

/-- `pmm_init` changes the page manager only, and leaves the lowest 8 MiB used. -/
theorem pmmInit_only {map : E820Map} {s s' : State} (hrun : pmmInit map s = .ok ((), s')) :
    ∃ p : Pmm, s' = s.withPmm p ∧ ∀ q, q < 2048 → p.bitmap.test q = true := by
  refine ⟨_, pmmInit_ok hrun, fun q hq => ?_⟩
  rw [test_markLowest, decide_eq_true hq, Bool.or_true]

/-- **Free pages are usable.** For a sorted map every page that the bitmap marks free after
`pmm_init` is above 8 MiB and wholly usable, exactly when the boundary pages of the usable entries
are safe to round. -/
theorem pmmInit_safe_iff {map : E820Map} (hsorted : SortedMap map.entries) {s s' : State}
    (hrun : pmmInit map s = .ok ((), s')) :
    (∀ q, q / 8 < s'.pmm.bitmap_size → s'.pmm.bitmap.test q = false →
      2048 ≤ q ∧ ∀ a, a / 4096 = q → a ∈ usable map.entries) ↔ RoundingSafe map := by
  rw [pmmInit_bitmap_size hrun]
  constructor
  · intro husable
    refine roundingSafe_of_usable hsorted fun q hlow hq hlast => ?_
    exact (husable q hq ((pmmInit_free hsorted.fits hrun hq).mpr ⟨hlow, hlast⟩)).2
  · intro hsafe q hq hfree
    obtain ⟨hlow, hlast⟩ := (pmmInit_free hsorted.fits hrun hq).mp hfree
    exact ⟨hlow, fun a ha => hsafe.usable hsorted hlow hq hlast ha⟩

/-! ## Some maps -/

/-- A usable entry. -/
def E820.ram (base length : Nat) : E820 := ⟨20, base, length, 1, 0⟩

theorem E820.processed_ram {base length : Nat} (h : length ≠ 0) : (ram base length).Processed :=
  ⟨by simp [ram], by simp [ram], h, by simp [Ignored, ram]⟩

theorem E820.fits_ram {base length : Nat} (h : base + length + 4095 < 2 ^ 64) :
    (ram base length).Fits := h

theorem E820.pages_ram {base length : Nat} (h : base + length + 4095 < 2 ^ 64) :
    (ram base length).pages = (length + 4095) / 4096 := usable_pages (fits_ram h) rfl

/-- A single usable entry of `n` pages from address 0. -/
def flatMap (n : Nat) : E820Map := ⟨[.ram 0 (n * 4096)], by simp⟩

theorem sortedMap_flat {n : Nat} (hfits : n < 2 ^ 51) :
    SortedMap (flatMap n).entries := by
  refine ⟨List.pairwise_singleton _ _, List.pairwise_singleton _ _, fun e he => ?_⟩
  obtain rfl := List.mem_singleton.mp he
  exact E820.fits_ram (by omega)

/-- The page manager that `pmm_init` sets up from a flat map. -/
def flatPmm (n : Nat) : Pmm :=
  markLowest 2048 (addEntries (flatMap n).entries (resetBitmap (flatMap n) .boot))

/-- The entry of a flat map sets the globals. -/
theorem addEntries_flat {n : Nat} (hpos : 0 < n) (hfits : n < 2 ^ 51) :
    ∃ b, addEntries (flatMap n).entries (resetBitmap (flatMap n) .boot)
      = ⟨b, bitmapSize (flatMap n), n, 0, n * 4096 - 1⟩ := by
  have hlen : n * 4096 ≠ 0 := by omega
  have hbytes : u64 (n * 4096) = n * 4096 := u64_of_lt (by omega)
  have hp : (E820.ram 0 (n * 4096)).Processed := E820.processed_ram hlen
  obtain ⟨b, u, hu, hadd⟩ := e820AddEntry_frame hp (resetBitmap (flatMap n) .boot)
  have hpages : (E820.ram 0 (n * 4096)).pages = n := by
    rw [E820.pages_ram (by omega)]
    omega
  have hend : u64 ((E820.ram 0 (n * 4096)).base + (E820.ram 0 (n * 4096)).length) = n * 4096 := by
    show u64 (0 + n * 4096) = n * 4096
    rw [Nat.zero_add, hbytes]
  have hlast : u64 (n * 4096 + (2 ^ 64 - 1)) = n * 4096 - 1 := by
    unfold u64
    omega
  obtain rfl := hu rfl
  refine ⟨b, ?_⟩
  rw [flatMap, addEntries_cons, add_processed hp, ← flatMap, hadd, hpages, hend, if_pos, hlast]
  · simp [resetBitmap, Pmm.boot, u64_of_lt (by omega : n < 2 ^ 64), addEntries]
  · exact ⟨rfl, by simp [resetBitmap, Pmm.boot, hpos]⟩

theorem pmmInit_flat {n : Nat} (hn : 4096 ≤ n) (hfits : n < 2 ^ 51) {s : State}
    (hs : s.pmm = .boot) : pmmInit (flatMap n) s = .ok ((), s.withPmm (flatPmm n)) := by
  have hbytes : u64 (n * 4096) = n * 4096 := u64_of_lt (by omega)
  obtain ⟨b, hadd⟩ := addEntries_flat (by omega) hfits
  have htotal : totalAfter (flatMap n).entries 0 = n := by
    have hsum := total_addEntries (flatMap n).entries (resetBitmap (flatMap n) .boot)
    rw [hadd] at hsum
    exact hsum.symm
  rw [pmmInit_enough hs, hs, flatPmm]
  rw [htotal, hbytes]
  omega

theorem lastVisitUsable_flat {n : Nat} (hpos : 0 < n) (hfits : n < 2 ^ 51) {q : Nat} :
    LastVisitUsable (flatMap n).entries q ↔ q < n := by
  have hlen : n * 4096 ≠ 0 := by omega
  have hp : (E820.ram 0 (n * 4096)).Processed := E820.processed_ram hlen
  have hv : (E820.ram 0 (n * 4096)).Visits q ↔ q < n := by
    rw [E820.Visits, E820.pages_ram (by omega)]
    show 0 / 4096 ≤ q ∧ q < 0 / 4096 + (n * 4096 + 4095) / 4096 ↔ q < n
    omega
  have hfit : (E820.ram 0 (n * 4096)).Fits := E820.fits_ram (by omega)
  rw [← lastReachUsable_iff (sortedMap_flat hfits).fits, flatMap, lastReachUsable_cons,
    hfit.reaches_iff, hv]
  constructor
  · rintro (h | ⟨-, -, h, -⟩)
    · exact absurd h (lastReachUsable_nil q)
    · exact h
  · exact fun h => Or.inr ⟨hp, rfl, h, fun _ he => absurd he List.not_mem_nil⟩

theorem bitmapSize_flat {n : Nat} (hfits : n < 2 ^ 51) : bitmapSize (flatMap n) = (n + 7) / 8 := by
  show (u64 (u64 (0 + n * 4096) + 4095) / 4096 + 7) / 8 = (n + 7) / 8
  have hbytes : u64 (n * 4096) = n * 4096 := u64_of_lt (by omega)
  have hround : u64 (n * 4096 + 4095) = n * 4096 + 4095 := u64_of_lt (by omega)
  rw [Nat.zero_add, hbytes, hround]
  omega

/-- On a flat map the free pages are those above 8 MiB. -/
theorem flatPmm_free {n : Nat} (hn : 4096 ≤ n) (hfits : n < 2 ^ 51) {q : Nat} (hq : q < n) :
    (flatPmm n).bitmap.test q = false ↔ 2048 ≤ q := by
  have hsize : q / 8 < bitmapSize (flatMap n) := by
    rw [bitmapSize_flat hfits]
    omega
  have hfree := pmmInit_free (sortedMap_flat hfits).fits (pmmInit_flat hn hfits (s := .boot) rfl) hsize
  rw [lastVisitUsable_flat (by omega) hfits] at hfree
  exact hfree.trans ⟨And.left, fun h => ⟨h, hq⟩⟩

theorem flatPmm_globals {n : Nat} (hpos : 0 < n) (hfits : n < 2 ^ 51) :
    (flatPmm n).highest_usable_address = n * 4096 - 1 ∧ (flatPmm n).total_pages = n ∧
      (flatPmm n).used_pages ≤ 2048 := by
  obtain ⟨b, hadd⟩ := addEntries_flat hpos hfits
  obtain ⟨b', u, hlowest⟩ := markLowest_frame 2048 ⟨b, bitmapSize (flatMap n), n, 0, n * 4096 - 1⟩
  have hused := used_markLowest 2048 ⟨b, bitmapSize (flatMap n), n, 0, n * 4096 - 1⟩
  rw [flatPmm, hadd]
  refine ⟨by rw [hlowest], by rw [hlowest], hused⟩

/-- The usable entries begin and end at pages. -/
def Aligned (entries : List E820) : Prop :=
  ∀ e ∈ entries, e.type = 1 → e.base % 4096 = 0 ∧ e.length % 4096 = 0

theorem Aligned.roundingSafe {map : E820Map} (h : Aligned map.entries)
    (hfits : ∀ e ∈ map.entries, e.Fits) : RoundingSafe map := by
  intro pre e post hsplit _ ht q _ _ _
  have he : e ∈ map.entries := by simp [hsplit]
  obtain ⟨hbase, hlength⟩ := h e he ht
  have hpages := E820.usable_pages (hfits e he) ht
  constructor
  · intro hq a hle hlt
    omega
  · intro hq
    omega

/-- Memory as a PC reports it: 636 KiB, a reserved range below 1 MiB, 16 MiB, and after a hole 8 MiB
more. -/
def pcMap : E820Map :=
  ⟨[.ram 0 0x9F000, ⟨20, 0x9F000, 0x61000, 2, 0⟩, .ram 0x100000 0x1000000,
    .ram 0x1800000 0x800000], by simp⟩

theorem sortedMap_pc : SortedMap pcMap.entries := by
  refine ⟨by simp [pcMap, E820.ram], ?_, ?_⟩
  · simp only [pcMap, E820.ram, E820.Contains, List.pairwise_cons, List.mem_cons, List.not_mem_nil,
      or_false, forall_eq_or_imp, forall_eq, false_implies, implies_true, List.Pairwise.nil, and_true]
    refine ⟨⟨?_, ?_, ?_⟩, ⟨?_, ?_⟩, ?_⟩ <;> intro a h h' <;> omega
  · intro e he
    simp only [pcMap, List.mem_cons, List.not_mem_nil, or_false] at he
    rcases he with rfl | rfl | rfl | rfl <;> (unfold E820.Fits; decide)

theorem aligned_pc : Aligned pcMap.entries := by
  intro e he ht
  simp only [pcMap, List.mem_cons, List.not_mem_nil, or_false] at he
  rcases he with rfl | rfl | rfl | rfl
  · decide
  · cases ht
  · decide
  · decide

theorem pmmInit_pc : ∃ s', pmmInit pcMap .boot = .ok ((), s') :=
  ⟨_, pmmInit_enough rfl (by decide)⟩

/-- There every page left free is usable. -/
theorem pmmInit_safe_pc : ∃ s', pmmInit pcMap .boot = .ok ((), s') ∧
    ∀ q, q / 8 < s'.pmm.bitmap_size → s'.pmm.bitmap.test q = false →
      2048 ≤ q ∧ ∀ a, a / 4096 = q → a ∈ usable pcMap.entries :=
  have ⟨s', hrun⟩ := pmmInit_pc
  ⟨s', hrun, (pmmInit_safe_iff sortedMap_pc hrun).mpr (aligned_pc.roundingSafe sortedMap_pc.fits)⟩

/-- Two usable regions with a hole between them. The first ends in the middle of a page. -/
def holeMap : E820Map := ⟨[.ram 0 0x1000800, .ram 0x1800000 0x800000], by simp⟩

theorem sortedMap_hole : SortedMap holeMap.entries := by
  refine ⟨?_, ?_, ?_⟩
  · simp [holeMap, E820.ram]
  · simp only [holeMap, E820.ram, E820.Contains, List.pairwise_pair]
    intro a h h'
    omega
  · intro e he
    simp only [holeMap, List.mem_cons, List.not_mem_nil, or_false] at he
    rcases he with rfl | rfl <;> exact E820.fits_ram (by decide)

/-- The page the first region ends in is left free, and its second half belongs to the hole. -/
theorem pmmInit_frees_hole : ∃ s', pmmInit holeMap .boot = .ok ((), s') ∧
    SortedMap holeMap.entries ∧ 4096 / 8 < s'.pmm.bitmap_size ∧
    s'.pmm.bitmap.test 4096 = false ∧ 4096 * 4096 + 0x800 ∉ usable holeMap.entries := by
  have hp : (E820.ram 0 0x1000800).Processed := E820.processed_ram (by decide)
  have hrun : pmmInit holeMap .boot = .ok ((), State.boot.withPmm
      (markLowest 2048 (addEntries holeMap.entries (resetBitmap holeMap State.boot.pmm)))) :=
    pmmInit_enough rfl (by decide)
  have hsize : 4096 / 8 < bitmapSize holeMap := by decide
  refine ⟨_, hrun, sortedMap_hole, by rw [pmmInit_bitmap_size hrun]; exact hsize, ?_, ?_⟩
  · refine (pmmInit_free sortedMap_hole.fits hrun hsize).mpr ⟨by decide, ?_⟩
    exact ⟨[], .ram 0 0x1000800, [.ram 0x1800000 0x800000], rfl, hp, rfl, by decide,
      fun e he _ => by rw [List.mem_singleton.mp he]; decide⟩
  · rintro ⟨e, he, -, -, hlow, hhigh⟩
    simp only [holeMap, List.mem_cons, List.not_mem_nil, or_false] at he
    rcases he with rfl | rfl
    · simp only [E820.ram] at hhigh
      omega
    · simp only [E820.ram] at hlow
      omega

end Windozz.Kernel

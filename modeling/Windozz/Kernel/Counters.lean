import Mathlib.Data.Finset.Card
import Mathlib.Data.Nat.ModEq
import Windozz.Kernel.E820

set_option autoImplicit false

/-! # Bounds and counters of `pmm_init`

`pmm_init` sizes the bitmap from the end of the last entry, while the loop of each entry rounds on
its own, and that of an entry that is not usable takes one page more. `bitmap_bounds_iff` says when
all accesses stay in the bitmap, and `pmmInit_counters_iff` when the counters agree with it.
-/

namespace Windozz.Kernel

/-! ## Accesses to the bitmap -/

/-- The index `byte` of the mark functions and of `pmm_get_page`. -/
def bitmapByte (addr : Nat) : Nat := addr / 4096 / 8

/-- The addresses whose bits are accessed: by the loop of an entry, by the loop over the lowest
pages, and afterwards below the highest usable address, where all pages lie that are handed out. -/
inductive Touches (map : E820Map) (s : State) : Nat → Prop where
  | entry {e : E820} {i : Nat} : e ∈ map.entries → e.Processed → i < e.pages →
      Touches map s (u64 (e.base + u64 (i * 4096)))
  | lowest {i : Nat} {s' : State} : pmmInit map s = .ok ((), s') → i < 2048 →
      Touches map s (i * 4096)
  | scan {a : Nat} {s' : State} : pmmInit map s = .ok ((), s') →
      a < s'.pmm.highest_usable_address → Touches map s a

/-- The mark functions change one byte of the bitmap. -/
theorem bitmap_markPageFree {addr i : Nat} (p : Pmm) (h : bitmapByte addr ≠ i) :
    (pmmMarkPageFree addr p).bitmap i = p.bitmap i := by
  unfold pmmMarkPageFree
  split
  · rfl
  · exact Function.update_of_ne h.symm _ _

theorem bitmap_markPageUsed {addr i : Nat} (p : Pmm) (h : bitmapByte addr ≠ i) :
    (pmmMarkPageUsed addr p).bitmap i = p.bitmap i := by
  unfold pmmMarkPageUsed
  split
  · rfl
  · exact Function.update_of_ne h.symm _ _

theorem bitmap_addPages {e : E820} {i : Nat} (p : Pmm) (n : Nat)
    (h : ∀ j, j < n → bitmapByte (u64 (e.base + u64 (j * 4096))) ≠ i) :
    (addPages e n p).bitmap i = p.bitmap i := by
  induction n with
  | zero => rfl
  | succ n ih =>
      rw [← ih fun j hj => h j (by omega), addPages, addPage]
      split
      · exact bitmap_markPageFree _ (h n (by omega))
      · exact bitmap_markPageUsed _ (h n (by omega))

theorem bitmap_addEntries {i : Nat} (entries : List E820) (p : Pmm)
    (h : ∀ e ∈ entries, e.Processed → ∀ j, j < e.pages →
      bitmapByte (u64 (e.base + u64 (j * 4096))) ≠ i) :
    (addEntries entries p).bitmap i = p.bitmap i := by
  induction entries generalizing p with
  | nil => rfl
  | cons e rest ih =>
      rw [addEntries_cons, ih _ fun e' he' => h e' (List.mem_cons_of_mem _ he')]
      by_cases he : e.Processed
      · rw [add_processed he, e820AddEntry, if_neg he.length_pos, if_neg he.not_ignored]
        exact bitmap_addPages _ _ (h e (List.mem_cons_self ..) he)
      · rw [add_not_processed he]

theorem bitmap_markLowest {i : Nat} (n : Nat) (p : Pmm)
    (h : ∀ j, j < n → bitmapByte (j * 4096) ≠ i) : (markLowest n p).bitmap i = p.bitmap i := by
  induction n with
  | zero => rfl
  | succ n ih =>
      rw [← ih fun j hj => h j (by omega), markLowest]
      exact bitmap_markPageUsed _ (h n (by omega))

/-- The manager that `pmm_init` leaves. -/
theorem pmmInit_pmm {map : E820Map} {s s' : State} (hrun : pmmInit map s = .ok ((), s')) :
    s'.pmm = markLowest 2048 (addEntries map.entries (resetBitmap map s.pmm)) := by
  have hpmm : ∀ p, (s.withPmm p).pmm = p := fun _ => rfl
  rw [pmmInit_ok hrun, hpmm]

/-- After the reset `pmm_init` writes no byte of the bitmap but those that it touches. -/
theorem pmmInit_untouched {map : E820Map} {s s' : State} (hrun : pmmInit map s = .ok ((), s'))
    {i : Nat} (h : ∀ a, Touches map s a → bitmapByte a ≠ i) :
    s'.pmm.bitmap i = (resetBitmap map s.pmm).bitmap i := by
  have hentries := bitmap_addEntries (i := i) map.entries (resetBitmap map s.pmm)
    fun e he hp j hj => h _ (.entry he hp hj)
  have hlowest := bitmap_markLowest 2048 (addEntries map.entries (resetBitmap map s.pmm))
    fun j hj => h _ (.lowest hrun hj)
  have hpmm := pmmInit_pmm hrun
  rw [hpmm, hlowest, hentries]

/-! ## The bounds -/

/-- The pages of the rounds. -/
theorem E820.Fits.page_eq {e : E820} (h : e.Fits) {i : Nat} (hi : i < e.pages) :
    u64 (e.base + u64 (i * 4096)) / 4096 = e.base / 4096 + i := by
  have hpages := h.pages_eq
  unfold E820.Fits at h
  have haddr : e.base + i * 4096 < 2 ^ 64 := by
    split at hpages <;> omega
  rw [u64_of_lt (by omega : i * 4096 < 2 ^ 64), u64_of_lt haddr]
  omega

/-- The highest usable address is the last one of a usable entry. -/
theorem highest_addEntries {entries : List E820} (hfits : ∀ e ∈ entries, e.Fits) (p : Pmm) :
    (addEntries entries p).highest_usable_address = p.highest_usable_address ∨
      ∃ e ∈ entries, e.Processed ∧ e.type = 1 ∧
        (addEntries entries p).highest_usable_address = e.base + e.length - 1 := by
  induction entries generalizing p with
  | nil => exact Or.inl rfl
  | cons e rest ih =>
      rw [addEntries_cons]
      rcases ih (fun e' he' => hfits e' (List.mem_cons_of_mem _ he'))
        (if e.type ≠ 0 ∧ e.type ≤ 5 then e820AddEntry e p else p) with hsame | ⟨d, hd, hlast⟩
      · rw [hsame]
        by_cases he : e.Processed
        · obtain ⟨b, u, -, hadd⟩ := e820AddEntry_frame he p
          have hlt := hfits e (List.mem_cons_self ..)
          have hpos := he.length_pos
          unfold E820.Fits at hlt
          rw [add_processed he, hadd]
          simp only
          split
          · rename_i hcond
            refine Or.inr ⟨e, List.mem_cons_self .., he, hcond.1, ?_⟩
            unfold u64
            omega
          · exact Or.inl rfl
        · rw [add_not_processed he]
          exact Or.inl rfl
      · exact Or.inr ⟨d, List.mem_cons_of_mem _ hd, hlast⟩

theorem pmmInit_highest {map : E820Map} {s s' : State} (hrun : pmmInit map s = .ok ((), s')) :
    s'.pmm.highest_usable_address
      = (addEntries map.entries (resetBitmap map s.pmm)).highest_usable_address := by
  obtain ⟨b, u, hlowest⟩ := markLowest_frame 2048 (addEntries map.entries (resetBitmap map s.pmm))
  rw [pmmInit_ok hrun, State.withPmm, hlowest]

/-- Each usable entry raises the highest usable address to its last one. -/
theorem le_highest_addEntries {entries : List E820} (hfits : ∀ e ∈ entries, e.Fits) (p : Pmm) :
    p.highest_usable_address ≤ (addEntries entries p).highest_usable_address ∧
      ∀ e ∈ entries, e.Processed → e.type = 1 →
        e.base + e.length - 1 ≤ (addEntries entries p).highest_usable_address := by
  induction entries generalizing p with
  | nil => exact ⟨le_refl _, fun _ he => absurd he List.not_mem_nil⟩
  | cons e rest ih =>
      rw [addEntries_cons]
      obtain ⟨hle, hrest⟩ := ih (fun e' he' => hfits e' (List.mem_cons_of_mem _ he'))
        (if e.type ≠ 0 ∧ e.type ≤ 5 then e820AddEntry e p else p)
      -- only a usable entry raises it, and no entry lowers it
      have hstep : p.highest_usable_address ≤
          (if e.type ≠ 0 ∧ e.type ≤ 5 then e820AddEntry e p else p).highest_usable_address ∧
            (e.Processed → e.type = 1 → e.base + e.length - 1 ≤
              (if e.type ≠ 0 ∧ e.type ≤ 5 then e820AddEntry e p else p).highest_usable_address) := by
        by_cases he : e.Processed
        · obtain ⟨b, u, -, hadd⟩ := e820AddEntry_frame he p
          have hlt := hfits e (List.mem_cons_self ..)
          have hpos := he.length_pos
          unfold E820.Fits at hlt
          have hend : u64 (e.base + e.length) = e.base + e.length := u64_of_lt (by omega)
          have hlast : u64 (e.base + e.length + (2 ^ 64 - 1)) = e.base + e.length - 1 := by
            unfold u64
            omega
          rw [add_processed he, hadd]
          simp only [hend, hlast]
          split
          · exact ⟨by omega, fun _ _ => le_refl _⟩
          · exact ⟨le_refl _, fun _ ht => by omega⟩
        · rw [add_not_processed he]
          exact ⟨le_refl _, fun h => absurd h he⟩
      refine ⟨hstep.1.trans hle, fun d hd hp ht => ?_⟩
      rcases List.mem_cons.mp hd with rfl | hd
      · exact (hstep.2 hp ht).trans hle
      · exact hrest d hd hp ht

/-- The entries add up to less than the 16 MB with which `pmm_init` goes on. -/
def TooSmall (map : E820Map) (s : State) : Prop :=
  u64 ((addEntries map.entries (resetBitmap map s.pmm)).total_pages * 4096) / 1024 / 1024 < 16

theorem pmmInit_returns_iff {map : E820Map} {s : State} :
    (∃ s', pmmInit map s = .ok ((), s')) ↔ ¬ TooSmall map s := by
  rw [pmmInit_run]
  constructor
  · rintro ⟨s', hrun⟩ hsmall
    unfold TooSmall at hsmall
    rw [if_pos hsmall] at hrun
    cases hrun
  · intro hlarge
    exact ⟨_, if_neg hlarge⟩

/-- The bitmap has bits for the last pages that are accessed: those of the loops, and, unless
`pmm_init` stops for lack of memory, the last one of the lowest 8 MiB and those that the scan for a
free page comes to. -/
structure InBitmap (map : E820Map) (s : State) : Prop where
  loops : ∀ e ∈ map.entries, e.Processed → e.base / 4096 + e.pages ≤ 8 * bitmapSize map
  lowest : ¬ TooSmall map s → 2048 ≤ 8 * bitmapSize map
  scan : ¬ TooSmall map s → ∀ e ∈ map.entries, e.Processed → e.type = 1 →
    (e.base + e.length - 2) / 4096 < 8 * bitmapSize map

theorem inBitmap_of_touches {map : E820Map} (hfits : ∀ e ∈ map.entries, e.Fits) {s : State}
    (h : ∀ a, Touches map s a → bitmapByte a < bitmapSize map) : InBitmap map s := by
  have hloops : ∀ e ∈ map.entries, e.Processed →
      e.base / 4096 + e.pages ≤ 8 * bitmapSize map := by
    intro e he hp
    have hpos := hp.pages_pos (hfits e he)
    have hlast := h _ (.entry he hp (i := e.pages - 1) (by omega))
    rw [bitmapByte, (hfits e he).page_eq (by omega)] at hlast
    omega
  refine ⟨hloops, fun hlarge => ?_, fun hlarge e he hp ht => ?_⟩
  · obtain ⟨s', hrun⟩ := pmmInit_returns_iff.mpr hlarge
    have hlast := h _ (.lowest hrun (i := 2047) (by decide))
    unfold bitmapByte at hlast
    omega
  · obtain ⟨s', hrun⟩ := pmmInit_returns_iff.mpr hlarge
    have hhigh := (le_highest_addEntries hfits (resetBitmap map s.pmm)).2 e he hp ht
    rw [← pmmInit_highest hrun] at hhigh
    by_cases hone : e.base + e.length - 2 < s'.pmm.highest_usable_address
    · have hscan := h _ (.scan hrun hone)
      unfold bitmapByte at hscan
      omega
    · have hpos := hp.pages_pos (hfits e he)
      have hlast := hloops e he hp
      omega

theorem InBitmap.touches {map : E820Map} (hfits : ∀ e ∈ map.entries, e.Fits) {s : State}
    (hs : s.pmm.highest_usable_address = 0) (h : InBitmap map s) :
    ∀ a, Touches map s a → bitmapByte a < bitmapSize map := by
  intro a ha
  cases ha with
  | @entry e i he hp hi =>
      have hlast := h.loops e he hp
      rw [bitmapByte, (hfits e he).page_eq hi]
      omega
  | @lowest i s' hrun hi =>
      have hsize := h.lowest (pmmInit_returns_iff.mp ⟨s', hrun⟩)
      unfold bitmapByte
      omega
  | @scan a s' hrun ha =>
      rw [pmmInit_highest hrun] at ha
      rcases highest_addEntries hfits (resetBitmap map s.pmm) with hsame | ⟨e, he, hp, ht, hhigh⟩
      · rw [hsame] at ha
        exact absurd (hs ▸ ha : a < 0) (Nat.not_lt_zero a)
      · have hlast := h.scan (pmmInit_returns_iff.mp ⟨s', hrun⟩) e he hp ht
        unfold bitmapByte
        omega

/-- **The bounds of the bitmap.** All accesses stay in the bitmap exactly when it has bits for the
last ones. -/
theorem bitmap_bounds_iff {map : E820Map} (hfits : ∀ e ∈ map.entries, e.Fits) {s : State}
    (hs : s.pmm.highest_usable_address = 0) :
    (∀ a, Touches map s a → bitmapByte a < bitmapSize map) ↔ InBitmap map s :=
  ⟨inBitmap_of_touches hfits, InBitmap.touches hfits hs⟩

/-- The address behind the last entry, from which the bitmap is sized. -/
def E820Map.lastAddress (map : E820Map) : Nat :=
  (map.entries.getLast map.nonempty).base + (map.entries.getLast map.nonempty).length

theorem bitmapSize_eq {map : E820Map} (hfits : ∀ e ∈ map.entries, e.Fits) :
    bitmapSize map = ((map.lastAddress + 4095) / 4096 + 7) / 8 := by
  have hlast := hfits _ (List.getLast_mem map.nonempty)
  unfold E820.Fits at hlast
  have hend : u64 ((map.entries.getLast map.nonempty).base +
      (map.entries.getLast map.nonempty).length) = map.lastAddress := u64_of_lt (by omega)
  have hround : u64 (map.lastAddress + 4095) = map.lastAddress + 4095 := u64_of_lt hlast
  simp only [bitmapSize, hend, hround]

/-- In a sorted map that does not end with an empty entry, no entry ends behind the last. -/
theorem SortedMap.end_le_last {map : E820Map} (h : SortedMap map.entries)
    (hlast : (map.entries.getLast map.nonempty).length ≠ 0) {e : E820} (he : e ∈ map.entries) :
    e.base + e.length ≤ map.lastAddress := by
  have hsplit := List.dropLast_append_getLast map.nonempty
  rw [← hsplit, List.mem_append, List.mem_singleton] at he
  rcases he with he | rfl
  · obtain ⟨pre, post, hpre⟩ := List.append_of_mem he
    have hmap : SortedMap (pre ++ e :: (post ++ [map.entries.getLast map.nonempty])) := by
      rw [← hsplit, hpre] at h
      simpa using h
    have hle := hmap.end_le (List.mem_append_right _ (List.mem_singleton_self _)) hlast
    unfold E820Map.lastAddress
    omega
  · exact le_refl _

/-- In a sorted map that reaches 8 MiB with an entry that is not empty, only the additional page of
an entry that is not usable can lie outside. -/
theorem inBitmap_sorted_iff {map : E820Map} (h : SortedMap map.entries) (s : State)
    (hlast : (map.entries.getLast map.nonempty).length ≠ 0) (hreach : 0x800000 ≤ map.lastAddress) :
    InBitmap map s ↔ ∀ e ∈ map.entries, e.Processed → e.type ≠ 1 →
      e.base / 4096 + (e.length + 4095) / 4096 ≠ 8 * bitmapSize map := by
  have hsize := bitmapSize_eq h.fits
  constructor
  · intro hin e he hp ht heq
    have hpage := hin.loops e he hp
    rw [(h.fits e he).pages_eq, if_neg ht] at hpage
    omega
  · intro hne
    refine ⟨fun e he hp => ?_, fun _ => by omega, fun _ e he hp ht => ?_⟩
    · have hend := h.end_le_last hlast he
      have hpages := (h.fits e he).pages_eq
      have hpos := hp.length_pos
      split at hpages
      · omega
      · rename_i ht
        have hedge := hne e he hp ht
        omega
    · have hend := h.end_le_last hlast he
      have hpos := hp.length_pos
      omega

theorem inBitmap_pc : InBitmap pcMap .boot := by
  refine (inBitmap_sorted_iff sortedMap_pc .boot (by decide) (by decide)).mpr fun e he _ _ => ?_
  simp only [pcMap, List.mem_cons, List.not_mem_nil, or_false] at he
  rcases he with rfl | rfl | rfl | rfl
  · contradiction
  · decide
  · contradiction
  · contradiction

theorem bitmap_bounds_pc : InBitmap pcMap .boot ∧
    ∀ a, Touches pcMap .boot a → bitmapByte a < bitmapSize pcMap :=
  ⟨inBitmap_pc, (bitmap_bounds_iff sortedMap_pc.fits (s := .boot) rfl).mpr inBitmap_pc⟩

/-- 16 MiB of memory and 16 MiB that are reserved. -/
def reservedMap : E820Map := ⟨[.ram 0 0x1000000, ⟨20, 0x1000000, 0x1000000, 2, 0⟩], by simp⟩

theorem sortedMap_reserved : SortedMap reservedMap.entries := by
  refine ⟨by simp [reservedMap, E820.ram], ?_, ?_⟩
  · simp only [reservedMap, E820.ram, E820.Contains, List.pairwise_pair]
    intro a h h'
    omega
  · intro e he
    simp only [reservedMap, List.mem_cons, List.not_mem_nil, or_false] at he
    rcases he with rfl | rfl
    · exact E820.fits_ram (by decide)
    · unfold E820.Fits
      decide

/-- The additional page of the reserved range is the first one behind the bitmap. -/
theorem bitmap_bounds_reserved : SortedMap reservedMap.entries ∧
    0x800000 ≤ reservedMap.lastAddress ∧
    ∃ a, Touches reservedMap .boot a ∧ bitmapByte a = bitmapSize reservedMap := by
  have hp : (⟨20, 0x1000000, 0x1000000, 2, 0⟩ : E820).Processed :=
    ⟨by decide, by decide, by decide, by decide⟩
  exact ⟨sortedMap_reserved, by decide, _,
    .entry (List.mem_cons_of_mem _ (List.mem_singleton_self _)) hp (i := 4096) (by decide), by decide⟩

/-! ## The counters -/

/-- The pages that the first `n` bits mark free. -/
def Pmm.freePages (p : Pmm) (n : Nat) : Finset Nat :=
  (Finset.range n).filter fun q => p.bitmap.test q = false

theorem Pmm.mem_freePages {p : Pmm} {n q : Nat} :
    q ∈ p.freePages n ↔ q < n ∧ p.bitmap.test q = false := by
  rw [freePages, Finset.mem_filter, Finset.mem_range]

/-- The pages that are not counted as used are the free ones, and `extra` more, in the arithmetic of
the counters. -/
def Pmm.Balanced (p : Pmm) (n extra : Nat) : Prop :=
  p.total_pages ≡ p.used_pages + (p.freePages n).card + extra [MOD 2 ^ 64]

/-- Marking a page used keeps the balance: the counter follows the bitmap. -/
theorem Pmm.Balanced.markPageUsed {p : Pmm} {n extra addr : Nat} (h : p.Balanced n extra)
    (haddr : addr / 4096 < n) : (pmmMarkPageUsed addr p).Balanced n extra := by
  by_cases hused : p.bitmap.test (addr / 4096) = true
  · rwa [pmmMarkPageUsed, if_pos hused]
  · have hfree : addr / 4096 ∈ p.freePages n := mem_freePages.mpr ⟨haddr, by simpa using hused⟩
    have hpages : (pmmMarkPageUsed addr p).freePages n = (p.freePages n).erase (addr / 4096) := by
      ext q
      rw [mem_freePages, test_markPageUsed, Finset.mem_erase, mem_freePages, Bool.or_eq_false_iff,
        decide_eq_false_iff_not, ne_comm]
      tauto
    have hcard := Finset.card_erase_add_one hfree
    unfold Balanced at h ⊢
    rw [hpages, pmmMarkPageUsed, if_neg hused]
    unfold u64
    calc p.total_pages ≡ p.used_pages + (p.freePages n).card + extra [MOD 2 ^ 64] := h
      _ = p.used_pages + 1 + ((p.freePages n).erase (addr / 4096)).card + extra := by omega
      _ ≡ (p.used_pages + 1) % 2 ^ 64 + ((p.freePages n).erase (addr / 4096)).card + extra
          [MOD 2 ^ 64] := ((Nat.mod_modEq _ _).symm.add_right _).add_right _

theorem Pmm.Balanced.markLowest {p : Pmm} {n extra : Nat} (h : p.Balanced n extra) (k : Nat)
    (hk : k ≤ n) : (markLowest k p).Balanced n extra := by
  induction k with
  | zero => exact h
  | succ k ih =>
      rw [Kernel.markLowest]
      exact (ih (by omega)).markPageUsed (by omega)

/-- The pages that the loop of an entry visits, as a set. -/
def E820.visited (e : E820) : Finset Nat :=
  Finset.Ico (e.base / 4096) (e.base / 4096 + e.pages)

theorem E820.mem_visited {e : E820} {q : Nat} : q ∈ e.visited ↔ e.Visits q := Finset.mem_Ico

section Entry

variable {e : E820} (he : e.Processed) (hfits : e.Fits) {n : Nat}
  (hin : e.base / 4096 + e.pages ≤ n) {p : Pmm} {extra : Nat} (h : p.Balanced n extra)

include he hfits hin h

/-- An entry that is not usable keeps the balance: its pages are counted twice, and those that it
takes back are counted by the mark function. -/
theorem Pmm.Balanced.addReserved (ht : e.type ≠ 1) : (e820AddEntry e p).Balanced n extra := by
  have hrounds : ∀ k, k ≤ e.pages → ∀ p' : Pmm, p'.Balanced n extra →
      (addPages e k p').Balanced n extra := by
    intro k
    induction k with
    | zero => exact fun _ _ h' => h'
    | succ k ih =>
        intro hk p' h'
        rw [addPages, addPage, if_neg ht]
        refine (ih (by omega) p' h').markPageUsed ?_
        rw [hfits.page_eq (by omega)]
        omega
  rw [e820AddEntry, if_neg he.length_pos, if_neg he.not_ignored]
  refine hrounds _ (le_refl _) _ ?_
  simp only [if_neg ht]
  show u64 (p.total_pages + e.pages) ≡
    u64 (p.used_pages + e.pages) + (p.freePages n).card + extra [MOD 2 ^ 64]
  unfold Balanced at h
  calc u64 (p.total_pages + e.pages) ≡ p.total_pages + e.pages [MOD 2 ^ 64] := Nat.mod_modEq _ _
    _ ≡ p.used_pages + (p.freePages n).card + extra + e.pages [MOD 2 ^ 64] := h.add_right _
    _ = p.used_pages + e.pages + (p.freePages n).card + extra := by omega
    _ ≡ u64 (p.used_pages + e.pages) + (p.freePages n).card + extra [MOD 2 ^ 64] :=
        ((Nat.mod_modEq _ _).symm.add_right _).add_right _

/-- A usable entry adds its pages to the balance, also those that are free already. -/
theorem Pmm.Balanced.addUsable (ht : e.type = 1) :
    (e820AddEntry e p).Balanced n (extra + (p.freePages n ∩ e.visited).card) := by
  obtain ⟨b, u, hu, hadd⟩ := e820AddEntry_frame he p
  have hpages : (e820AddEntry e p).freePages n = p.freePages n ∪ e.visited := by
    ext q
    rw [mem_freePages, test_addEntry he, Finset.mem_union, mem_freePages, E820.mem_visited,
      hfits.reaches_iff]
    unfold E820.Visits
    constructor
    · rintro ⟨hq, hv | ⟨-, hfree⟩⟩
      · exact Or.inr hv.1
      · exact Or.inl ⟨hq, hfree⟩
    · rintro (⟨hq, hfree⟩ | hv)
      · by_cases hv : e.base / 4096 ≤ q ∧ q < e.base / 4096 + e.pages
        · exact ⟨hq, Or.inl ⟨hv, ht⟩⟩
        · exact ⟨hq, Or.inr ⟨hv, hfree⟩⟩
      · exact ⟨by omega, Or.inl ⟨hv, ht⟩⟩
  have hcard := Finset.card_union_add_card_inter (p.freePages n) e.visited
  have hvisited : e.visited.card = e.pages := by
    rw [E820.visited, Nat.card_Ico]
    omega
  have htotal : (e820AddEntry e p).total_pages = u64 (p.total_pages + e.pages) := by rw [hadd]
  have hused : (e820AddEntry e p).used_pages = p.used_pages := by
    rw [hadd]
    exact hu ht
  unfold Balanced at h ⊢
  rw [htotal, hused, hpages]
  calc u64 (p.total_pages + e.pages) ≡ p.total_pages + e.pages [MOD 2 ^ 64] := Nat.mod_modEq _ _
    _ ≡ p.used_pages + (p.freePages n).card + extra + e.pages [MOD 2 ^ 64] := h.add_right _
    _ = p.used_pages + (p.freePages n ∪ e.visited).card
        + (extra + (p.freePages n ∩ e.visited).card) := by omega

end Entry

/-- No usable entry comes to a page that is free already. -/
def NoneFreed (entries : List E820) (p : Pmm) : Prop :=
  ∀ pre e post, entries = pre ++ e :: post → e.Processed → e.type = 1 →
    ∀ q, e.Visits q → (addEntries pre p).bitmap.test q = true

theorem noneFreed_cons {e : E820} {rest : List E820} {p : Pmm} : NoneFreed (e :: rest) p ↔
    (e.Processed → e.type = 1 → ∀ q, e.Visits q → p.bitmap.test q = true) ∧
      NoneFreed rest (if e.type ≠ 0 ∧ e.type ≤ 5 then e820AddEntry e p else p) := by
  constructor
  · intro h
    refine ⟨h [] e rest rfl, fun pre d post hsplit => ?_⟩
    rw [hsplit] at h
    exact h (e :: pre) d post rfl
  · rintro ⟨hfirst, hrest⟩ pre d post hsplit
    cases pre with
    | nil =>
        obtain ⟨rfl, -⟩ := List.cons.inj hsplit
        exact hfirst
    | cons c pre =>
        obtain ⟨rfl, htail⟩ := List.cons.inj hsplit
        exact hrest pre d post htail

/-- **The balance over the entries.** Each time a usable entry comes to a page that is free already,
the balance is off by one more page. -/
theorem Pmm.Balanced.addEntries {entries : List E820} {n : Nat} (hfits : ∀ e ∈ entries, e.Fits)
    (hin : ∀ e ∈ entries, e.Processed → e.base / 4096 + e.pages ≤ n) {p : Pmm} {extra : Nat}
    (h : p.Balanced n extra) : ∃ more, (addEntries entries p).Balanced n (extra + more) ∧
      more ≤ (entries.map E820.length).sum ∧ (more = 0 ↔ NoneFreed entries p) := by
  induction entries generalizing p extra with
  | nil => exact ⟨0, h, Nat.zero_le _, iff_of_true rfl fun pre e post hsplit => by simp at hsplit⟩
  | cons e rest ih =>
      have hrest := @ih (fun d hd => hfits d (List.mem_cons_of_mem _ hd))
        fun d hd => hin d (List.mem_cons_of_mem _ hd)
      rw [addEntries_cons, noneFreed_cons, List.map_cons, List.sum_cons]
      -- a usable entry may add to what is missing from the count, any other one keeps the balance
      by_cases hskip : e.Processed ∧ e.type = 1
      · obtain ⟨he, ht⟩ := hskip
        have hfit := hfits e (List.mem_cons_self ..)
        obtain ⟨more, hbal, hle, hiff⟩ := hrest (h.addUsable he hfit
          (hin e (List.mem_cons_self ..) he) ht)
        rw [add_processed he]
        have hcard : (p.freePages n ∩ e.visited).card ≤ e.length := by
          have hsub : (p.freePages n ∩ e.visited).card ≤ e.visited.card :=
            Finset.card_le_card Finset.inter_subset_right
          have hpages := E820.usable_pages hfit ht
          have hpos := he.length_pos
          rw [E820.visited, Nat.card_Ico] at hsub
          rw [E820.visited]
          omega
        -- it adds nothing iff none of its pages was free before
        have hzero : (p.freePages n ∩ e.visited).card = 0 ↔
            (e.Processed → e.type = 1 → ∀ q, e.Visits q → p.bitmap.test q = true) := by
          have hbound := hin e (List.mem_cons_self ..) he
          rw [Finset.card_eq_zero, Finset.eq_empty_iff_forall_notMem]
          simp only [Finset.mem_inter, mem_freePages, E820.mem_visited, not_and]
          constructor
          · intro hnone _ _ q hv
            by_contra hfree
            have hlt : q < n := lt_of_lt_of_le hv.2 hbound
            exact hnone q ⟨hlt, by simpa using hfree⟩ hv
          · intro hall q hq hv
            rw [hall he ht q hv] at hq
            cases hq.2
        refine ⟨(p.freePages n ∩ e.visited).card + more, by rwa [← Nat.add_assoc], by omega, ?_⟩
        rw [Nat.add_eq_zero_iff, hzero, hiff]
      · have hnot : e.Processed → e.type = 1 → ∀ q, e.Visits q → p.bitmap.test q = true :=
          fun he ht => absurd ⟨he, ht⟩ hskip
        have hstep : (if e.type ≠ 0 ∧ e.type ≤ 5 then e820AddEntry e p else p).Balanced n extra := by
          by_cases he : e.Processed
          · rw [add_processed he]
            exact h.addReserved he (hfits e (List.mem_cons_self ..))
              (hin e (List.mem_cons_self ..) he) fun ht => hskip ⟨he, ht⟩
          · rwa [add_not_processed he]
        obtain ⟨more, hbal, hle, hiff⟩ := hrest hstep
        refine ⟨more, hbal, by omega, hiff.trans ?_⟩
        rw [and_iff_right hnot]

/-- The ranges of a sorted map fit the address space together. -/
theorem SortedMap.sum_length_lt {entries : List E820} (h : SortedMap entries) {low : Nat}
    (hlow : ∀ e ∈ entries, e.length ≠ 0 → low ≤ e.base) (hlt : low < 2 ^ 64) :
    (entries.map E820.length).sum + low < 2 ^ 64 := by
  induction entries generalizing low with
  | nil => simpa using hlt
  | cons e rest ih =>
      have hrest : SortedMap rest := ⟨(List.pairwise_cons.mp h.sorted).2,
        (List.pairwise_cons.mp h.disjoint).2, fun d hd => h.fits d (List.mem_cons_of_mem _ hd)⟩
      rw [List.map_cons, List.sum_cons]
      by_cases hzero : e.length = 0
      · have hsum := ih hrest (fun d hd => hlow d (List.mem_cons_of_mem _ hd)) hlt
        omega
      · have hfit := h.fits e (List.mem_cons_self ..)
        unfold E820.Fits at hfit
        have hbase := hlow e (List.mem_cons_self ..) hzero
        have hafter : SortedMap ([] ++ e :: rest) := h
        have hsum := ih hrest (fun d hd hpos => hafter.end_le hd hpos) (by omega)
        omega

/-- No usable entry visits a page that was freed by an earlier entry, the last one to visit it. -/
def NoneShared (entries : List E820) : Prop :=
  ∀ pre e post, entries = pre ++ e :: post → e.Processed → e.type = 1 →
    ∀ q, e.Visits q → ¬ LastVisitUsable pre q

/-- In the bitmap, the counters differ by the pages that were freed twice in a row. -/
theorem pmmInit_balanced {map : E820Map} (hsorted : SortedMap map.entries) {s s' : State}
    (hs : s.pmm = .boot) (hin : InBitmap map s) (hrun : pmmInit map s = .ok ((), s')) :
    ∃ more, more < 2 ^ 64 ∧ s'.pmm.Balanced (8 * s'.pmm.bitmap_size) more ∧
      (more = 0 ↔ NoneShared map.entries) := by
  have hstart : (resetBitmap map s.pmm).Balanced (8 * bitmapSize map) 0 := by
    have hnone : (resetBitmap map s.pmm).freePages (8 * bitmapSize map) = ∅ := by
      rw [Finset.eq_empty_iff_forall_notMem]
      intro q hq
      obtain ⟨hlt, hfree⟩ := Pmm.mem_freePages.mp hq
      rw [test_resetBitmap _ (by omega)] at hfree
      cases hfree
    rw [Pmm.Balanced, hnone, hs]
    rfl
  obtain ⟨more, hentries, hle, hiff⟩ := hstart.addEntries hsorted.fits hin.loops
  have hsum := hsorted.sum_length_lt (fun _ _ _ => Nat.zero_le _) (show 0 < 2 ^ 64 by decide)
  have hlow := hin.lowest (pmmInit_returns_iff.mp ⟨s', hrun⟩)
  have hfinal := hentries.markLowest 2048 (by omega)
  -- in a sorted map a page is freed a second time only where two entries share it
  have hshared : NoneFreed map.entries (resetBitmap map s.pmm) ↔ NoneShared map.entries := by
    refine forall₃_congr fun pre e post => forall_congr' fun hsplit => forall_congr' fun hp =>
      forall_congr' fun ht => forall₂_congr fun q hv => ?_
    have hmem : e ∈ map.entries := by simp [hsplit]
    have hq : q / 8 < bitmapSize map := by
      have hlast := hin.loops e hmem hp
      have hlt := hv.2
      omega
    have hfree := test_addEntries pre (resetBitmap map s.pmm) q
    rw [test_resetBitmap _ hq, lastReachUsable_iff fun d hd => hsorted.fits d (by simp [hsplit, hd])]
      at hfree
    rw [← Bool.not_eq_false, hfree]
    simp
  refine ⟨more, by omega, ?_, hiff.trans hshared⟩
  rw [← pmmInit_pmm hrun, Nat.zero_add] at hfinal
  rwa [pmmInit_bitmap_size hrun]

/-- The difference of the counters is the number of free pages when nothing was counted twice. -/
theorem Pmm.Balanced.counters_iff {p : Pmm} {n more : Nat} (h : p.Balanced n more)
    (hn : n < 2 ^ 64) (hmore : more < 2 ^ 64) :
    u64 (p.total_pages + (2 ^ 64 - u64 p.used_pages)) = (p.freePages n).card ↔ more = 0 := by
  have hcard := Finset.card_filter_le (Finset.range n) fun q => p.bitmap.test q = false
  rw [Finset.card_range, ← Pmm.freePages] at hcard
  unfold Pmm.Balanced Nat.ModEq at h
  unfold u64
  omega

/-- The bits of the bitmap can be counted in 64 bits. -/
theorem pmmInit_bits_lt {map : E820Map} (hfits : ∀ e ∈ map.entries, e.Fits) {s s' : State}
    (hrun : pmmInit map s = .ok ((), s')) : 8 * s'.pmm.bitmap_size < 2 ^ 64 := by
  rw [pmmInit_bitmap_size hrun, bitmapSize_eq hfits]
  have hlast := hfits _ (List.getLast_mem map.nonempty)
  unfold E820.Fits at hlast
  unfold E820Map.lastAddress
  omega

/-- **The counters.** When all accesses stay in the bitmap, the counters agree with it after
`pmm_init` exactly when no page is freed twice in a row. -/
theorem pmmInit_counters_iff {map : E820Map} (hsorted : SortedMap map.entries) {s s' : State}
    (hs : s.pmm = .boot) (hin : ∀ a, Touches map s a → bitmapByte a < bitmapSize map)
    (hrun : pmmInit map s = .ok ((), s')) :
    u64 (s'.pmm.total_pages + (2 ^ 64 - u64 s'.pmm.used_pages))
        = (s'.pmm.freePages (8 * s'.pmm.bitmap_size)).card ↔ NoneShared map.entries := by
  obtain ⟨more, hmore, hbalanced, hiff⟩ :=
    pmmInit_balanced hsorted hs (inBitmap_of_touches hsorted.fits hin) hrun
  rw [← hiff]
  exact hbalanced.counters_iff (pmmInit_bits_lt hsorted.fits hrun) hmore

/-- No page is shared by two usable entries that begin and end at pages. -/
theorem Aligned.noneShared {entries : List E820} (h : Aligned entries) (hsorted : SortedMap entries) :
    NoneShared entries := by
  rintro pre e post rfl hp ht q hv ⟨pre₁, d, pre₂, rfl, -, hdt, hdv, -⟩
  have hd : d ∈ pre₁ ++ d :: pre₂ ++ e :: post := by simp
  have he : e ∈ pre₁ ++ d :: pre₂ ++ e :: post := by simp
  have hend : d.base + d.length ≤ e.base :=
    (show SortedMap (pre₁ ++ d :: (pre₂ ++ e :: post)) by simpa using hsorted).end_le (by simp)
      hp.length_pos
  have hdpages := E820.usable_pages (hsorted.fits d hd) hdt
  obtain ⟨-, hdlength⟩ := h d hd hdt
  obtain ⟨hdbase, -⟩ := h d hd hdt
  obtain ⟨hlow, -⟩ := hv
  obtain ⟨-, hhigh⟩ := hdv
  omega

theorem pmmInit_counters_pc : ∃ s', pmmInit pcMap .boot = .ok ((), s') ∧
    u64 (s'.pmm.total_pages + (2 ^ 64 - u64 s'.pmm.used_pages))
      = (s'.pmm.freePages (8 * s'.pmm.bitmap_size)).card :=
  have ⟨s', hrun⟩ := pmmInit_pc
  ⟨s', hrun, (pmmInit_counters_iff sortedMap_pc rfl (inBitmap_pc.touches sortedMap_pc.fits rfl)
    hrun).mpr (aligned_pc.noneShared sortedMap_pc)⟩

/-- Two usable regions that meet in the middle of a page. -/
def splitMap : E820Map := ⟨[.ram 0 0x1000800, .ram 0x1000800 0xFFF800], by simp⟩

theorem sortedMap_split : SortedMap splitMap.entries := by
  refine ⟨by simp [splitMap, E820.ram], ?_, ?_⟩
  · simp only [splitMap, E820.ram, E820.Contains, List.pairwise_pair]
    intro a h h'
    omega
  · intro e he
    simp only [splitMap, List.mem_cons, List.not_mem_nil, or_false] at he
    rcases he with rfl | rfl <;> exact E820.fits_ram (by decide)

/-- The page in which they meet is counted twice. -/
theorem pmmInit_counters_split : ∃ s', pmmInit splitMap .boot = .ok ((), s') ∧
    SortedMap splitMap.entries ∧
    (∀ a, Touches splitMap .boot a → bitmapByte a < bitmapSize splitMap) ∧
    u64 (s'.pmm.total_pages + (2 ^ 64 - u64 s'.pmm.used_pages))
      ≠ (s'.pmm.freePages (8 * s'.pmm.bitmap_size)).card := by
  have hp : (E820.ram 0 0x1000800).Processed := E820.processed_ram (by decide)
  have hp' : (E820.ram 0x1000800 0xFFF800).Processed := E820.processed_ram (by decide)
  have hrun : pmmInit splitMap .boot = .ok ((), State.boot.withPmm
      (markLowest 2048 (addEntries splitMap.entries (resetBitmap splitMap State.boot.pmm)))) :=
    pmmInit_enough rfl (by decide)
  have hin : InBitmap splitMap .boot := by
    refine (inBitmap_sorted_iff sortedMap_split .boot (by decide) (by decide)).mpr fun e he _ ht => ?_
    simp only [splitMap, List.mem_cons, List.not_mem_nil, or_false] at he
    rcases he with rfl | rfl <;> exact absurd rfl ht
  obtain ⟨more, hmore, hbalanced, hiff⟩ := pmmInit_balanced sortedMap_split rfl hin hrun
  refine ⟨_, hrun, sortedMap_split, hin.touches sortedMap_split.fits rfl, fun heq => ?_⟩
  have hnone := hiff.mp
    ((hbalanced.counters_iff (pmmInit_bits_lt sortedMap_split.fits hrun) hmore).mp heq)
  refine hnone [.ram 0 0x1000800] (.ram 0x1000800 0xFFF800) [] rfl hp' rfl 4096 (by decide) ?_
  exact ⟨[], .ram 0 0x1000800, [], rfl, hp, rfl, by decide, fun _ he => absurd he List.not_mem_nil⟩

end Windozz.Kernel

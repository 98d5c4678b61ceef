import Windozz.Kernel.E820

set_option autoImplicit false

/-! # The kernel image and the bitmap

The bitmap of `pmm.c` lies right behind the kernel image, at the linker symbol `end`. Its length
follows from the end of the last entry of the memory map, which may be a reserved range far above
the memory that is there, while `pmm_init` protects the lowest 8 MiB whatever the map says.
`pmmInit_protects_iff` says when that is enough.
-/

namespace Windozz.Kernel

/-- The page overlaps the kernel image, from 1 MiB up to `kernel_end`, or the `size` bytes of the
bitmap behind it. -/
def Metadata (kernel_end size q : Nat) : Prop :=
  ∃ a, a / 4096 = q ∧ (0x100000 ≤ a ∧ a < kernel_end ∨ kernel_end ≤ a ∧ a < kernel_end + size)

theorem Metadata.lt {kernel_end size q : Nat} (h : Metadata kernel_end size q) :
    q * 4096 < kernel_end + size := by
  obtain ⟨a, ha, hin | hin⟩ := h <;> omega

/-- A page that `pmm_init` leaves free: the last entry that visits it is usable, or it has no bit in
the bitmap, no entry visits it and the byte behind the bitmap reads as free. -/
def LeftFree (map : E820Map) (p : Pmm) (q : Nat) : Prop :=
  LastReachUsable map.entries q ∨
    (bitmapSize map ≤ q / 8 ∧ p.bitmap.test q = false ∧ Unreached map.entries q)

theorem test_resetBitmap_beyond {map : E820Map} {q : Nat} (p : Pmm) (hq : bitmapSize map ≤ q / 8) :
    (resetBitmap map p).bitmap.test q = p.bitmap.test q := by
  unfold Bitmap.test resetBitmap
  simp only
  rw [if_neg (not_lt.mpr hq)]

/-- The state of every page after `pmm_init`, for any map. -/
theorem pmmInit_test {map : E820Map} {s s' : State} (hrun : pmmInit map s = .ok ((), s'))
    (q : Nat) : s'.pmm.bitmap.test q = false ↔ 2048 ≤ q ∧ LeftFree map s.pmm q := by
  obtain rfl := pmmInit_ok hrun
  rw [State.withPmm, test_markLowest, Bool.or_eq_false_iff, test_addEntries,
    decide_eq_false_iff_not, not_lt, and_comm, LeftFree]
  by_cases hq : q / 8 < bitmapSize map
  · rw [test_resetBitmap _ hq]
    simp [not_le.mpr hq]
  · rw [test_resetBitmap_beyond _ (not_lt.mp hq)]
    simp [not_lt.mp hq]

/-- **The page manager's own memory.** After `pmm_init` every page that overlaps the kernel image or
the bitmap is marked used exactly when the map leaves none of those at or above 8 MiB free. -/
theorem pmmInit_protects_iff {map : E820Map} {s s' : State} (kernel_end : Nat)
    (hrun : pmmInit map s = .ok ((), s')) :
    (∀ q, Metadata kernel_end s'.pmm.bitmap_size q → s'.pmm.bitmap.test q = true) ↔
      ∀ q, 2048 ≤ q → Metadata kernel_end (bitmapSize map) q → ¬ LeftFree map s.pmm q := by
  rw [pmmInit_bitmap_size hrun]
  constructor
  · intro hused q hlow hmeta hfree
    have htest := (pmmInit_test hrun q).mpr ⟨hlow, hfree⟩
    rw [hused q hmeta] at htest
    cases htest
  · intro hnone q hmeta
    by_contra htest
    obtain ⟨hlow, hfree⟩ := (pmmInit_test hrun q).mp (Bool.not_eq_true _ ▸ htest)
    exact hnone q hlow hmeta hfree

/-- Image and bitmap below 8 MiB are safe. -/
theorem metadata_low {kernel_end size q : Nat} (hle : kernel_end + size ≤ 0x800000)
    (h : Metadata kernel_end size q) : q < 2048 := by
  have := h.lt
  omega

/-- With 32 MiB of memory and an image of 1 MiB the bitmap ends below 8 MiB. -/
theorem pmmInit_protects_pc : ∃ s', pmmInit pcMap .boot = .ok ((), s') ∧
    ∀ q, Metadata 0x200000 s'.pmm.bitmap_size q → s'.pmm.bitmap.test q = true := by
  obtain ⟨s', hrun⟩ := pmmInit_pc
  refine ⟨s', hrun, (pmmInit_protects_iff 0x200000 hrun).mpr fun q hlow hmeta _ => ?_⟩
  have := metadata_low (by decide) hmeta
  omega

/-- 64 MiB of memory and a reserved range that ends at 1 TiB. -/
def farMap : E820Map :=
  ⟨[.ram 0 0x4000000, ⟨20, 0xFD00000000, 0x300000000, 2, 0⟩], by simp⟩

/-- The reserved range makes the bitmap 32 MiB long, and the pages that hold it are left free from
8 MiB on. -/
theorem pmmInit_frees_bitmap : ∃ s', pmmInit farMap .boot = .ok ((), s') ∧
    s'.pmm.bitmap_size = 0x2000000 ∧ Metadata 0x200000 s'.pmm.bitmap_size 2048 ∧
    s'.pmm.bitmap.test 2048 = false := by
  have hp : (E820.ram 0 0x4000000).Processed := E820.processed_ram (by decide)
  have hfits : ∀ e ∈ farMap.entries, e.Fits := by
    intro e he
    simp only [farMap, List.mem_cons, List.not_mem_nil, or_false] at he
    rcases he with rfl | rfl
    · exact E820.fits_ram (by decide)
    · unfold E820.Fits
      decide
  -- the counter counts the reserved range as well, and the size of the bitmap comes from it
  have hrun : pmmInit farMap .boot = .ok ((), State.boot.withPmm
      (markLowest 2048 (addEntries farMap.entries (resetBitmap farMap State.boot.pmm)))) :=
    pmmInit_enough rfl (by decide)
  have hsize : bitmapSize farMap = 0x2000000 := by decide
  have hbitmap := (pmmInit_bitmap_size hrun).trans hsize
  refine ⟨_, hrun, hbitmap, ?_, ?_⟩
  · rw [hbitmap]
    exact ⟨0x800000, by decide, Or.inr ⟨by decide, by decide⟩⟩
  · refine (pmmInit_test hrun 2048).mpr ⟨le_refl _, Or.inl ((lastReachUsable_iff hfits).mpr ?_)⟩
    exact ⟨[], .ram 0 0x4000000, [⟨20, 0xFD00000000, 0x300000000, 2, 0⟩], rfl, hp, rfl, by decide,
      fun e he _ => by rw [List.mem_singleton.mp he]; decide⟩

end Windozz.Kernel

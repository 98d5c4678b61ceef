import Windozz.Gfx.Screen

set_option autoImplicit false

/-! # `scroll`

The lines of text move up by 16 rows of pixels, and the last line is cleared. The ranges of the copy
overlap, but its source is 16 rows behind its destination, so quadwords moved forwards never read
what has been stored (`memcpy_mem`). What counts is the number of bytes: it is an `int`, and from
`2 ^ 31` on it is converted to a size near `2 ^ 64`.
-/

namespace Windozz.Gfx

open Kernel Recorded

/-- The fields that a mode determines, and buffers at kernel addresses that do not overlap. -/
structure Fitted (mode : ModeInfo) (s : Screen) : Prop where
  width_eq : s.width = mode.width
  height_eq : s.height = mode.height
  pitch_eq : s.pitch = mode.pitch
  size_eq : s.size = int32 (mode.height * mode.pitch)
  y_max_eq : s.y_max = mode.height / 16 - 1
  framebuffer_ge : 2 ^ 32 ≤ s.framebuffer
  framebuffer_le : s.framebuffer + mode.height * mode.pitch ≤ 2 ^ 64
  back_buffer_ge : s.using_back_buffer = true → 2 ^ 32 ≤ s.back_buffer
  back_buffer_le : s.using_back_buffer = true → s.back_buffer + mode.height * mode.pitch ≤ 2 ^ 64
  apart : s.using_back_buffer = true → s.framebuffer + mode.height * mode.pitch ≤ s.back_buffer ∨
    s.back_buffer + mode.height * mode.pitch ≤ s.framebuffer

/-- `screen_init` leaves such a screen. -/
theorem setMode_fitted {mode : ModeInfo} (hvalid : mode.Valid) (s : Screen) :
    Fitted mode (setMode mode s) := by
  have hheight := hvalid.height_ge
  have hheight_lt := mode.height_lt
  have hpitch_lt := mode.pitch_lt
  have hframebuffer := mode.framebuffer_lt
  have hmul : mode.height * mode.pitch ≤ (2 ^ 16 - 1) * (2 ^ 16 - 1) :=
    Nat.mul_le_mul (by omega) (by omega)
  have hy : u16 (mode.height / 16 + (2 ^ 16 - 1)) = mode.height / 16 - 1 := by
    unfold u16
    omega
  have hbuffer : (setMode mode s).framebuffer = mode.framebuffer + 0xFFFF800000000000 := rfl
  exact ⟨rfl, rfl, rfl, rfl, hy, by omega, by omega, fun h => absurd h Bool.false_ne_true,
    fun h => absurd h Bool.false_ne_true, fun h => absurd h Bool.false_ne_true⟩

/-- The screen has scrolled by one line of text. -/
structure Scrolled (s : Screen) (m : Recorded) (d : Display) : Prop where
  moved : ∀ row, row < 16 * s.y_max → ∀ i, i < s.pitch →
    d.video.mem (s.base + (row * s.pitch + i)) = m.mem (s.base + ((row + 16) * s.pitch + i))
  cleared : ∀ row, 16 * s.y_max ≤ row → row < 16 * s.y_max + 16 → ∀ column, column < s.width →
    d.video.load (s.base + (row * s.pitch + 4 * column)) 4 = toLE 4 s.bg
  within : Within s.Inside m d.video
  cursor : d.screen = { s with x := 0, y := s.y_max }

/-! ## The last line -/

/-- Rows of pixels, each of them cleared. -/
theorem clearRows_mem (s : Screen) (bottom pitch : Nat) (hwidth : 0 < s.width)
    (hpitch : 4 * s.width ≤ pitch) (n : Nat) (m : Recorded) (hend : bottom + n * pitch ≤ 2 ^ 64) :
    (∀ j, j < n → ∀ i, i < s.width → ∀ k, k < 4 →
      (forUpTo (fun j m => clearRow s (u64 (bottom + j * pitch)) m) n m).mem
        (bottom + (j * pitch + (4 * i + k))) = (toLE 4 s.bg).getD k 0) ∧
      ∀ a, a < bottom ∨ bottom + n * pitch ≤ a →
        (forUpTo (fun j m => clearRow s (u64 (bottom + j * pitch)) m) n m).mem a = m.mem a := by
  induction n with
  | zero => exact ⟨fun j hj => absurd hj (Nat.not_lt_zero j), fun _ _ => rfl⟩
  | succ n ih =>
      rw [Nat.succ_mul] at hend ⊢
      obtain ⟨hin, hout⟩ := ih (by omega)
      have haddr : u64 (bottom + n * pitch) = bottom + n * pitch := u64_of_lt (by omega)
      have hfill := fill_mem (toLE 4 s.bg) (a := bottom + n * pitch) s.width
        (forUpTo (fun j m => clearRow s (u64 (bottom + j * pitch)) m) n m)
        (by rw [toLE_length]; omega)
      rw [toLE_length] at hfill
      obtain ⟨hrow, hothers⟩ := hfill
      rw [forUpTo, haddr]
      refine ⟨fun j hj i hi k hk => ?_, fun a ha => ?_⟩
      · by_cases heq : j = n
        · rw [heq, ← Nat.add_assoc]
          exact hrow i hi k hk
        · have hless : (j + 1) * pitch ≤ n * pitch := Nat.mul_le_mul_right _ (by omega)
          rw [Nat.succ_mul] at hless
          exact (hothers _ (Or.inl (by omega))).trans (hin j (by omega) i hi k hk)
      · exact (hothers a (by omega)).trans (hout a (by omega))

/-! ## Sizes and offsets -/

/-- The number of bytes that are moved, as computed. -/
theorem scrollSize_eq {height : Nat} (hheight : 16 ≤ height) (pitch : Nat) :
    int32 ((height + (2 ^ 32 - 16)) * pitch) = int32 ((height - 16) * pitch) := by
  have hsplit : (height + (2 ^ 32 - 16)) * pitch = (height - 16) * pitch + 2 ^ 32 * pitch := by
    rw [← Nat.add_mul]
    congr 1
    omega
  rw [hsplit, int32, int32, Nat.add_mul_mod_self_left]

/-- The product of two fields, as an `int` converted to `size_t`. -/
theorem int32_product {x y : Nat} (hx : x < 2 ^ 16) (hy : y < 2 ^ 16) :
    int32 (x * y) = if x * y < 2 ^ 31 then x * y else x * y + (2 ^ 64 - 2 ^ 32) := by
  have hmul : x * y ≤ (2 ^ 16 - 1) * (2 ^ 16 - 1) := Nat.mul_le_mul (by omega) (by omega)
  rw [int32, Nat.mod_eq_of_lt (by omega)]

section Fitted

variable {mode : ModeInfo} {s : Screen} (hfitted : Fitted mode s)
include hfitted

theorem Fitted.base_le : s.base + mode.height * mode.pitch ≤ 2 ^ 64 := by
  unfold Screen.base
  split
  · rename_i husing
    exact hfitted.back_buffer_le husing
  · exact hfitted.framebuffer_le

theorem Fitted.base_ge : 2 ^ 32 ≤ s.base := by
  unfold Screen.base
  split
  · rename_i husing
    exact hfitted.back_buffer_ge husing
  · exact hfitted.framebuffer_ge

/-- The buffer reaches as far as the mode says, and behind it if `size` has gone wrong. -/
theorem Fitted.size_ge : mode.height * mode.pitch ≤ s.size := by
  rw [hfitted.size_eq, int32_product mode.height_lt mode.pitch_lt]
  split <;> omega

theorem Fitted.inside {o : Nat} (ho : o < mode.height * mode.pitch) : s.Inside (s.base + o) := by
  have hsize := hfitted.size_ge
  unfold Screen.Inside Screen.base
  cases husing : s.using_back_buffer with
  | true => exact Or.inr ⟨rfl, by simp, by simp; omega⟩
  | false => exact Or.inl ⟨by simp, by simp; omega⟩

/-- The address 0 lies in no buffer. -/
theorem Fitted.not_inside_zero : ¬ s.Inside 0 := by
  have hframebuffer := hfitted.framebuffer_ge
  rintro (h | ⟨husing, h⟩)
  · omega
  · have hback := hfitted.back_buffer_ge husing
    omega

variable (hvalid : mode.Valid)
include hvalid

/-- The start of a row. -/
theorem Fitted.pixelOffset_eq (row : Nat) (hsmall : row * mode.pitch < 2 ^ 31)
    (hrow : row < mode.height) : pixelOffset s 0 row = s.base + row * mode.pitch := by
  have hbase := hfitted.base_le
  have hpitch := hvalid.pitch_ge
  have hwidth := hvalid.width_ge
  have hnext : (row + 1) * mode.pitch ≤ mode.height * mode.pitch := Nat.mul_le_mul_right _ hrow
  rw [Nat.succ_mul] at hnext
  have hbuffer : (if s.using_back_buffer then s.back_buffer else s.framebuffer) = s.base := rfl
  rw [pixelOffset, hfitted.pitch_eq, Nat.zero_mul, Nat.add_zero, int32_of_lt hsmall, hbuffer,
    u64_of_lt (by omega), Nat.add_comm]

omit hfitted in
/-- The bytes of the screen. -/
theorem bytes_ge : 576 ≤ mode.height * mode.pitch := by
  have hwidth := hvalid.width_ge
  have hpitch := hvalid.pitch_ge
  exact Nat.mul_le_mul hvalid.height_ge (show 36 ≤ mode.pitch by omega)

/-- `redraw` does not store to the buffer that is drawn to. -/
theorem Fitted.redraw_mem (hshown : s.locked = false → s.using_back_buffer = true →
    mode.height * mode.pitch < 2 ^ 31) (m : Recorded) {o : Nat}
    (ho : o < mode.height * mode.pitch) : (redraw s m).mem (s.base + o) = m.mem (s.base + o) := by
  have hbytes := bytes_ge hvalid
  unfold redraw
  split
  · rename_i hredraw
    obtain ⟨hlocked, husing⟩ := hredraw
    have hsize : s.size = mode.height * mode.pitch := by
      rw [hfitted.size_eq, int32_of_lt (hshown hlocked husing)]
    have hframebuffer := hfitted.framebuffer_le
    have hback := hfitted.back_buffer_le husing
    have hapart := hfitted.apart husing
    have hbase : s.base = s.back_buffer := by
      rw [Screen.base, if_pos husing]
    obtain ⟨-, hothers⟩ := memcpy_mem s.framebuffer s.back_buffer s.size m (by omega) (by omega) (by omega)
    exact hothers _ (by omega)
  · rfl

/-- `redraw` stores inside. -/
theorem Fitted.redraw_within (hshown : s.locked = false → s.using_back_buffer = true →
    mode.height * mode.pitch < 2 ^ 31) (m : Recorded) : Within s.Inside m (redraw s m) := by
  have hbytes := bytes_ge hvalid
  unfold redraw
  split
  · rename_i hredraw
    obtain ⟨hlocked, husing⟩ := hredraw
    have hsize : s.size = mode.height * mode.pitch := by
      rw [hfitted.size_eq, int32_of_lt (hshown hlocked husing)]
    have hframebuffer := hfitted.framebuffer_le
    refine memcpy_within m (by omega) fun i hi => ?_
    rw [u64_of_lt (by omega)]
    exact Or.inl ⟨by omega, by omega⟩
  · exact Within.refl _ _

/-! ## The whole of it -/

/-- The stages of `scroll`. -/
theorem Fitted.scroll_stages (m : Recorded) : (scroll ⟨s, m⟩).video = redraw s (forUpTo
    (fun j m => clearRow s (u64 (pixelOffset s 0 (16 * s.y_max) + j * mode.pitch)) m) 16
      (memcpy s.base (u64 (s.base + 16 * mode.pitch)) (int32 ((mode.height - 16) * mode.pitch))
        m)) := by
  have hheight := hvalid.height_ge
  have hheight_lt := mode.height_lt
  have hy := hfitted.y_max_eq
  have hu16 : u16 (s.y_max * 16) = 16 * s.y_max := by
    rw [u16_of_lt (by omega), Nat.mul_comm]
  have htop := hfitted.pixelOffset_eq hvalid 0 (by omega) (by omega)
  rw [Nat.zero_mul, Nat.add_zero] at htop
  simp only [scroll, hfitted.height_eq, hfitted.pitch_eq, scrollSize_eq hheight, htop, hu16,
    Nat.mul_comm mode.pitch]
  rfl

/-- What `scroll` does to the memory. -/
theorem Fitted.scroll_video (hsmall : (mode.height - 16) * mode.pitch < 2 ^ 31) (m : Recorded) :
    (scroll ⟨s, m⟩).video = redraw s (forUpTo (fun j m => clearRow s
      (u64 (s.base + 16 * s.y_max * mode.pitch + j * mode.pitch)) m) 16
        (memcpy s.base (u64 (s.base + 16 * mode.pitch)) ((mode.height - 16) * mode.pitch) m)) := by
  have hheight := hvalid.height_ge
  have hy := hfitted.y_max_eq
  have hline : 16 * s.y_max * mode.pitch ≤ (mode.height - 16) * mode.pitch :=
    Nat.mul_le_mul_right _ (by omega)
  rw [hfitted.scroll_stages hvalid, int32_of_lt hsmall,
    hfitted.pixelOffset_eq hvalid (16 * s.y_max) (by omega) (by omega)]

/-- The rows that are moved, and those behind them. -/
theorem Fitted.rows_eq :
    mode.height * mode.pitch = (mode.height - 16) * mode.pitch + 16 * mode.pitch ∧
    16 * s.y_max * mode.pitch ≤ (mode.height - 16) * mode.pitch := by
  have hheight := hvalid.height_ge
  have hy := hfitted.y_max_eq
  refine ⟨?_, Nat.mul_le_mul_right _ (by omega)⟩
  rw [← Nat.add_mul, Nat.sub_add_cancel hheight]

section Small

variable (hsmall : (mode.height - 16) * mode.pitch < 2 ^ 31)
  (hshown : s.locked = false → s.using_back_buffer = true → mode.height * mode.pitch < 2 ^ 31)
include hsmall hshown

/-- The last line is cleared, and what lies in front of it has been copied. -/
theorem Fitted.scroll_mem (m : Recorded) :
    (∀ j, j < 16 → ∀ i, i < s.width → ∀ k, k < 4 → (scroll ⟨s, m⟩).video.mem
      (s.base + (16 * s.y_max * mode.pitch + (j * mode.pitch + (4 * i + k))))
        = (toLE 4 s.bg).getD k 0) ∧
      ∀ o, o < 16 * s.y_max * mode.pitch →
        (scroll ⟨s, m⟩).video.mem (s.base + o) = m.mem (s.base + 16 * mode.pitch + o) := by
  have hwidth := hvalid.width_ge
  have hpitch := hvalid.pitch_ge
  have hbase := hfitted.base_le
  obtain ⟨hsplit, hline⟩ := hfitted.rows_eq hvalid
  have hwidth_eq := hfitted.width_eq
  obtain ⟨hcleared, hothers⟩ := clearRows_mem s (s.base + 16 * s.y_max * mode.pitch) mode.pitch
    (by omega) (by omega) 16
    (memcpy s.base (u64 (s.base + 16 * mode.pitch)) ((mode.height - 16) * mode.pitch) m)
    (by omega)
  rw [hfitted.scroll_video hvalid hsmall]
  constructor
  · intro j hj i hi k hk
    have hnext : (j + 1) * mode.pitch ≤ 16 * mode.pitch := Nat.mul_le_mul_right _ hj
    rw [Nat.succ_mul] at hnext
    rw [hfitted.redraw_mem hvalid hshown _ (by omega), ← Nat.add_assoc]
    exact hcleared j hj i hi k hk
  · intro o ho
    have haddr : u64 (s.base + 16 * mode.pitch) = s.base + 16 * mode.pitch :=
      u64_of_lt (by omega)
    rw [hfitted.redraw_mem hvalid hshown _ (by omega), hothers _ (Or.inl (by omega)), haddr]
    exact (memcpy_mem _ _ _ m (by omega) (by omega) (by omega)).1 o (by omega)

/-- Nothing is stored outside. -/
theorem Fitted.scroll_within (m : Recorded) : Within s.Inside m (scroll ⟨s, m⟩).video := by
  have hpitch := hvalid.pitch_ge
  have hbase := hfitted.base_le
  obtain ⟨hsplit, hline⟩ := hfitted.rows_eq hvalid
  have hbytes := bytes_ge hvalid
  rw [hfitted.scroll_video hvalid hsmall]
  refine (Within.trans (memcpy_within m (by omega) fun i hi => ?_)
    (Within.loop 16 (fun j hj r => ?_) _)).trans (hfitted.redraw_within hvalid hshown _)
  · rw [u64_of_lt (by omega)]
    exact hfitted.inside (by omega)
  · have hnext : (j + 1) * mode.pitch ≤ 16 * mode.pitch := Nat.mul_le_mul_right _ hj
    rw [Nat.succ_mul] at hnext
    refine Within.loop _ (fun i hi r => ?_) r
    rw [hfitted.width_eq] at hi
    refine store_within _ r (fun k hk => ?_) (u64_lt _)
    rw [toLE_length] at hk
    have haddr : u64 (u64 (u64 (s.base + 16 * s.y_max * mode.pitch + j * mode.pitch) + 4 * i) + k)
        = s.base + (16 * s.y_max * mode.pitch + j * mode.pitch + 4 * i + k) := by
      unfold u64
      omega
    rw [haddr]
    exact hfitted.inside (by omega)

/-- With a size that is right, the screen scrolls. -/
theorem Fitted.scrolled (m : Recorded) : Scrolled s m (scroll ⟨s, m⟩) := by
  have hpitch := hvalid.pitch_ge
  have hbase := hfitted.base_le
  have hwidth_eq := hfitted.width_eq
  obtain ⟨hsplit, hline⟩ := hfitted.rows_eq hvalid
  obtain ⟨hcleared, hmoved⟩ := hfitted.scroll_mem hvalid hsmall hshown m
  refine ⟨?_, ?_, hfitted.scroll_within hvalid hsmall hshown m, rfl⟩
  · intro row hrow i hi
    rw [hfitted.pitch_eq] at hi ⊢
    have hnext : (row + 1) * mode.pitch ≤ 16 * s.y_max * mode.pitch := Nat.mul_le_mul_right _ hrow
    rw [Nat.succ_mul] at hnext
    calc (scroll ⟨s, m⟩).video.mem (s.base + (row * mode.pitch + i))
        = m.mem (s.base + 16 * mode.pitch + (row * mode.pitch + i)) := hmoved _ (by omega)
      _ = m.mem (s.base + ((row + 16) * mode.pitch + i)) := by
          rw [Nat.add_mul]
          congr 1
          omega
  · intro row hlow hhigh column hcolumn
    rw [hfitted.pitch_eq]
    -- the row within the last line
    obtain ⟨j, rfl⟩ : ∃ j, row = 16 * s.y_max + j := ⟨row - 16 * s.y_max, by omega⟩
    have hnext : (j + 1) * mode.pitch ≤ 16 * mode.pitch := Nat.mul_le_mul_right _ (by omega)
    rw [Nat.succ_mul] at hnext
    have hload := load_eq (toLE 4 s.bg) (r := (scroll ⟨s, m⟩).video)
      (a := s.base + ((16 * s.y_max + j) * mode.pitch + 4 * column))
    rw [toLE_length, Nat.add_mul] at hload
    rw [Nat.add_mul]
    apply hload (by omega)
    intro k hk
    rw [← hcleared j (by omega) column hcolumn k hk]
    congr 1
    omega

end Small

omit hfitted hvalid in
/-- A size that has gone wrong takes a copy around the end of the address space. -/
theorem memcpy_zero {dest src num : Nat} (m : Recorded) (hlow : 2 ^ 32 ≤ dest) (hdest : dest < 2 ^ 64)
    (hnum : 2 ^ 64 - 2 ^ 32 < num) : StoresAt 0 m (memcpy dest src num m) := by
  have haddr : u64 (dest + (2 ^ 64 - dest)) = 0 := by
    unfold u64
    omega
  have hstores := memcpy_storesAt dest src m hdest (show 2 ^ 64 - dest < num by omega)
  rwa [haddr] at hstores

omit hfitted hvalid in
theorem clearRows_any (bottom pitch : Nat) (r : Recorded) : Within (fun _ => True) r
    (forUpTo (fun j m => clearRow s (u64 (bottom + j * pitch)) m) 16 r) := by
  refine Within.loop 16 (fun j _ r => ?_) r
  exact Within.loop _ (fun i _ r => store_within _ r (fun _ _ => trivial) (u64_lt _)) r

/-- With a size that has gone wrong, `scroll` stores outside. -/
theorem Fitted.scroll_large (hlarge : 2 ^ 31 ≤ (mode.height - 16) * mode.pitch) (m : Recorded) :
    StoresAt 0 m (scroll ⟨s, m⟩).video := by
  have hheight_lt := mode.height_lt
  have hbytes := bytes_ge hvalid
  have hbase := hfitted.base_le
  have hframebuffer := hfitted.framebuffer_le
  have hsize : int32 ((mode.height - 16) * mode.pitch)
      = (mode.height - 16) * mode.pitch + (2 ^ 64 - 2 ^ 32) := by
    rw [int32_product (by omega) mode.pitch_lt, if_neg (by omega)]
  have hcopy : StoresAt 0 m (memcpy s.base (u64 (s.base + 16 * mode.pitch))
      (int32 ((mode.height - 16) * mode.pitch)) m) :=
    memcpy_zero m hfitted.base_ge (by omega) (by omega)
  have hredraw : ∀ r, Within (fun _ => True) r (redraw s r) := by
    intro r
    unfold redraw
    split
    · exact memcpy_within r (by omega) fun _ _ => trivial
    · exact Within.refl _ _
  rw [hfitted.scroll_stages hvalid]
  exact (hcopy.after (clearRows_any _ _ _)).after (hredraw _)

/-- So does `redraw`. -/
theorem Fitted.redraw_large (hlarge : 2 ^ 31 ≤ mode.height * mode.pitch) (hlocked : s.locked = false)
    (husing : s.using_back_buffer = true) (m : Recorded) :
    StoresAt 0 m (scroll ⟨s, m⟩).video := by
  have hbytes := bytes_ge hvalid
  have hbase := hfitted.base_le
  have hframebuffer := hfitted.framebuffer_le
  have hsize : s.size = mode.height * mode.pitch + (2 ^ 64 - 2 ^ 32) := by
    rw [hfitted.size_eq, int32_product mode.height_lt mode.pitch_lt, if_neg (by omega)]
  have hcopy : Within (fun _ => True) m (memcpy s.base (u64 (s.base + 16 * mode.pitch))
      (int32 ((mode.height - 16) * mode.pitch)) m) :=
    memcpy_within m (by omega) fun _ _ => trivial
  rw [hfitted.scroll_stages hvalid, redraw, if_pos ⟨hlocked, husing⟩]
  exact (memcpy_zero _ hfitted.framebuffer_ge (by omega) (by omega)).before
    (hcopy.trans (clearRows_any _ _ _))

end Fitted

/-- **Which screens scroll.** The lines move up, the last one is cleared, and nothing is stored
outside, exactly when the number of bytes that are moved is right as an `int`, and that of the whole
screen where `redraw` copies it. -/
theorem scroll_scrolls_iff (mode : ModeInfo) (hvalid : mode.Valid) (s : Screen)
    (hfitted : Fitted mode s) (m : Recorded) :
    Scrolled s m (scroll ⟨s, m⟩) ↔
      (mode.height - 16) * mode.pitch < 2 ^ 31 ∧
        (s.locked = false → s.using_back_buffer = true → mode.height * mode.pitch < 2 ^ 31) := by
  constructor
  · intro hscrolled
    have hzero : ¬ StoresAt 0 m (scroll ⟨s, m⟩).video :=
      fun h => hfitted.not_inside_zero (h.within hscrolled.within)
    refine ⟨?_, fun hlocked husing => ?_⟩
    · by_contra hlarge
      exact hzero (hfitted.scroll_large hvalid (not_lt.mp hlarge) m)
    · by_contra hlarge
      exact hzero (hfitted.redraw_large hvalid (not_lt.mp hlarge) hlocked husing m)
  · rintro ⟨hsmall, hshown⟩
    exact hfitted.scrolled hvalid hsmall hshown m

/-- A screen of 1024 by 768 pixels. -/
theorem scroll_scrolls_xga :
    Scrolled (setMode xga blankScreen) blankVideo (scroll ⟨setMode xga blankScreen, blankVideo⟩) :=
  (scroll_scrolls_iff xga ⟨by decide, by decide, by decide⟩ (setMode xga blankScreen)
    (setMode_fitted ⟨by decide, by decide, by decide⟩ blankScreen) blankVideo).mpr
    ⟨by decide, fun _ husing => absurd husing Bool.false_ne_true⟩

/-- On the highest screen with the widest pitch the copy leaves the framebuffer. -/
theorem scroll_leaves : ¬ ∀ mode : ModeInfo, mode.Valid → ∀ s : Screen, Fitted mode s →
    ∀ m : Recorded, Scrolled s m (scroll ⟨s, m⟩) := by
  intro h
  have hvalid : highMode.Valid := ⟨by decide, by decide, by decide⟩
  have hfitted := setMode_fitted hvalid blankScreen
  have hscrolled := h highMode hvalid _ hfitted blankVideo
  have hstores := hfitted.scroll_large hvalid (by decide) blankVideo
  exact hfitted.not_inside_zero (hstores.within hscrolled.within)

end Windozz.Gfx

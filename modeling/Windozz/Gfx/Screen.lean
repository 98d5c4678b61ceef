import Windozz.Basic.Recorded
import Windozz.Kernel.Numerals
import Windozz.Kernel.State

set_option autoImplicit false

/-! # The text screen

`screen.c`: a cursor over cells of 9 by 16 pixels, glyphs drawn pixel by pixel into the framebuffer
or the back buffer, a scroll by one line of text, and escape sequences for the colors. The memory
records every address stored to.

Offsets are computed in `int`: the product of a row and the pitch, and `size` itself, are right below
`2 ^ 31` only. `bootRun_drawsInside_iff` says for which geometries the cursor and all stores stay in
range over a whole run.
-/

namespace Windozz.Gfx

open Kernel Recorded

/-- The `int` that a 32-bit computation leaves, converted to 64 bits. -/
def int32 (x : Nat) : Nat := if x % 2 ^ 32 < 2 ^ 31 then x % 2 ^ 32 else x % 2 ^ 32 + (2 ^ 64 - 2 ^ 32)

theorem int32_of_lt {x : Nat} (h : x < 2 ^ 31) : int32 x = x := by
  unfold int32
  rw [Nat.mod_eq_of_lt (by omega), if_pos h]

/-! ## The state -/

/-- `screen_t`. -/
structure Screen where
  using_back_buffer : Bool
  locked : Bool
  width : Nat
  height : Nat
  pitch : Nat
  size : Nat
  x_max : Nat
  y_max : Nat
  x : Nat
  y : Nat
  bg : Nat
  fg : Nat
  framebuffer : Nat
  back_buffer : Nat
  escape_seq_buffer : List UInt8
  is_escape_seq : Bool
  escape_seq_size : Nat

/-- The screen and the memory. -/
structure Display where
  screen : Screen
  video : Recorded

/-- An index outside an array. -/
inductive Fault
  | escape_seq_buffer (index : Nat)
  | font (index : Int)

def CHAR_WIDTH : Nat := 9

def ansi_colors : List Nat :=
  [0x3F3F3F, 0x705050, 0x60B48A, 0xDFAF8F, 0x9AB8D7, 0xDC8CC3, 0x8CD0D3, 0xDCDCDC]

def background : Nat := 0x1C101C

/-! ## The functions -/

/-- `redraw`. -/
def redraw (s : Screen) (m : Recorded) : Recorded :=
  if s.locked = false ∧ s.using_back_buffer = true then memcpy s.framebuffer s.back_buffer s.size m
  else m

/-- `pixel_offset`. -/
def pixelOffset (s : Screen) (x y : Nat) : Nat :=
  let ptr := int32 (y * s.pitch + x * 4)
  u64 (ptr + if s.using_back_buffer then s.back_buffer else s.framebuffer)

/-- `clear_screen`. -/
def clearScreen (s : Screen) (color : Nat) (m : Recorded) : Recorded :=
  let pixels := pixelOffset s 0 0
  redraw s (forUpTo (fun i m => m.store (u64 (pixels + 4 * i)) (toLE 4 color)) (s.size / 4) m)

/-- A row of `scroll`'s last line. -/
def clearRow (s : Screen) (bottom : Nat) (m : Recorded) : Recorded :=
  forUpTo (fun i m => m.store (u64 (bottom + 4 * i)) (toLE 4 s.bg)) s.width m

/-- `scroll`. -/
def scroll (d : Display) : Display :=
  let s := d.screen
  let top := pixelOffset s 0 0
  let first_line := u64 (top + s.pitch * 2 ^ 4)
  let size := int32 ((s.height + (2 ^ 32 - 16)) * s.pitch)
  let m := memcpy top first_line size d.video
  let bottom := pixelOffset s 0 (u16 (s.y_max * 16))
  let m := forUpTo (fun j m => clearRow s (u64 (bottom + j * s.pitch)) m) 16 m
  let s := { s with x := 0, y := s.y_max }
  ⟨s, redraw s m⟩

/-- `parse_escape_sequence`. -/
def parseEscapeSequence (s : Screen) : Screen :=
  let seq := s.escape_seq_buffer
  if seq[1]? = some 91 then
    let number := (atoi (copyNumber (seq.drop 2))).toInt
    if number = 0 then { s with bg := background, fg := ansi_colors.getD 7 0 }
    else if 30 ≤ number ∧ number ≤ 37 then
      { s with fg := ansi_colors.getD (number - 30).toNat 0 }
    else if 40 ≤ number ∧ number ≤ 47 then
      { s with bg := ansi_colors.getD (number - 40).toNat 0 }
    else s
  else s

/-- A row of a glyph. -/
def drawRow (s : Screen) (font_data : UInt8) (pixels : Nat) (m : Recorded) : Recorded :=
  forUpTo (fun i m => m.store (u64 (pixels + 4 * i))
    (toLE 4 (if (font_data <<< UInt8.ofNat i) &&& 0x80 ≠ 0 then s.fg else s.bg))) 8 m

/-- `putc`. The table of the glyphs is given. -/
def putc (font : Nat → UInt8) (value : UInt8) (d : Display) : Except Fault Display :=
  let s := d.screen
  let pixels := pixelOffset s (u16 (s.x * CHAR_WIDTH)) (u16 (s.y * 16))
  if value = 13 then .ok { d with screen := { s with x := 0 } }
  else if value = 10 then
    let s := { s with x := 0, y := u16 (s.y + 1) }
    if s.y_max < s.y then .ok (scroll ⟨s, d.video⟩) else .ok ⟨s, redraw s d.video⟩
  else if value = 27 then
    .ok { d with screen := { s with
      escape_seq_buffer := 27 :: List.replicate 15 0, is_escape_seq := true, escape_seq_size := 1 } }
  else if s.is_escape_seq then
    if s.escape_seq_size < 16 then
      let s := { s with
        escape_seq_buffer := s.escape_seq_buffer.set s.escape_seq_size value
        escape_seq_size := s.escape_seq_size + 1 }
      if value = 109 then
        .ok { d with screen := parseEscapeSequence { s with is_escape_seq := false } }
      else .ok { d with screen := s }
    else .error (.escape_seq_buffer s.escape_seq_size)
  -- a `char` is signed
  else if 128 ≤ value.toNat then .error (.font ((value.toNat - 256 : Int) * 16))
  else
    let m := forUpTo (fun j m =>
      drawRow s (font (value.toNat * 16 + j)) (u64 (pixels + j * s.pitch)) m) 16 d.video
    let s := { s with x := u16 (s.x + 1) }
    if s.x_max < s.x then
      let s := { s with x := 0, y := u16 (s.y + 1) }
      if s.y_max < s.y then .ok (scroll ⟨s, m⟩) else .ok ⟨s, m⟩
    else .ok ⟨s, m⟩

/-- `puts`. -/
def puts (font : Nat → UInt8) : List UInt8 → Display → Except Fault Display
  | [], d => .ok d
  | c :: cs, d =>
      match putc font c d with
      | .error e => .error e
      | .ok d => puts font cs d

/-- What the video mode gives: `width`, `height`, `pitch` and the physical address of the
framebuffer. -/
structure ModeInfo where
  width : Nat
  height : Nat
  pitch : Nat
  framebuffer : Nat
  width_lt : width < 2 ^ 16
  height_lt : height < 2 ^ 16
  pitch_lt : pitch < 2 ^ 16
  framebuffer_lt : framebuffer < 2 ^ 32

/-- The assignments of `screen_init`. -/
def setMode (mode : ModeInfo) (s : Screen) : Screen :=
  { s with
    bg := ansi_colors.getD 0 0, fg := ansi_colors.getD 7 0, x := 0, y := 0
    using_back_buffer := false, locked := false
    width := mode.width, height := mode.height, pitch := mode.pitch
    size := int32 (mode.height * mode.pitch)
    x_max := u16 (mode.width / CHAR_WIDTH + (2 ^ 16 - 1))
    y_max := u16 (mode.height / 16 + (2 ^ 16 - 1))
    framebuffer := mode.framebuffer + PHYSICAL_MEMORY }

/-- `screen_init`. The text is what its debug lines print. -/
def screenInit (font : Nat → UInt8) (mode : ModeInfo) (text : List UInt8) (d : Display) :
    Except Fault Display :=
  match puts font text { d with screen := setMode mode d.screen } with
  | .error e => .error e
  | .ok d => .ok { d with video := clearScreen d.screen background d.video }

/-- The first half of `screen_setup_buffer`, for what `kmalloc` returns. -/
def useBackBuffer (back_buffer : Nat) (d : Display) : Display :=
  let s := d.screen
  ⟨{ s with back_buffer := back_buffer, using_back_buffer := true, locked := false },
    memcpy back_buffer s.framebuffer s.size d.video⟩

/-- The second half of `screen_setup_buffer`, for what `vmm_create_mmio` returns. -/
def moveFramebuffer (framebuffer : Nat) (d : Display) : Display :=
  { d with screen := { d.screen with framebuffer := framebuffer } }

/-- `screen_setup_buffer`. The text is what its debug line prints in between. -/
def screenSetupBuffer (font : Nat → UInt8) (back_buffer framebuffer : Nat) (text : List UInt8)
    (d : Display) : Except Fault Display :=
  match puts font text (useBackBuffer back_buffer d) with
  | .error e => .error e
  | .ok d => .ok (moveFramebuffer framebuffer d)

/-! ## Runs -/

/-- A call. -/
inductive Event
  | putc (value : UInt8)
  | clear (color : Nat)
  | backBuffer (ptr : Nat)
  | framebuffer (ptr : Nat)

/-- What a call does. -/
def step (font : Nat → UInt8) : Event → Display → Except Fault Display
  | .putc value, d => putc font value d
  | .clear color, d => .ok { d with video := clearScreen d.screen color d.video }
  | .backBuffer ptr, d => .ok (useBackBuffer ptr d)
  | .framebuffer ptr, d => .ok (moveFramebuffer ptr d)

/-- A run. -/
def run (font : Nat → UInt8) : List Event → Display → Except Fault Display
  | [], d => .ok d
  | e :: es, d =>
      match step font e d with
      | .error e => .error e
      | .ok d => run font es d

/-- The calls of `screen_init`, and further ones. -/
def bootRun (text : List UInt8) (es : List Event) : List Event :=
  text.map .putc ++ .clear background :: es

theorem run_puts (font : Nat → UInt8) (text : List UInt8) (es : List Event) : ∀ (d : Display),
    run font (text.map .putc ++ es) d = match puts font text d with
      | .error e => .error e
      | .ok d => run font es d := by
  induction text with
  | nil => exact fun _ => rfl
  | cons c text ih =>
      intro d
      rw [List.map_cons, List.cons_append, run, step, puts]
      cases putc font c d with
      | error e => rfl
      | ok d => exact ih d

/-- `screen_init` is the run of its calls. -/
theorem run_screenInit (font : Nat → UInt8) (mode : ModeInfo) (text : List UInt8) (es : List Event)
    (d : Display) : run font (bootRun text es) { d with screen := setMode mode d.screen }
      = match screenInit font mode text d with
        | .error e => .error e
        | .ok d => run font es d := by
  rw [bootRun, run_puts, screenInit]
  cases puts font text { d with screen := setMode mode d.screen } with
  | error e => rfl
  | ok d => rfl

/-- So is `screen_setup_buffer`. -/
theorem run_screenSetupBuffer (font : Nat → UInt8) (back_buffer framebuffer : Nat)
    (text : List UInt8) (es : List Event) (d : Display) :
    run font (.backBuffer back_buffer :: (text.map .putc ++ .framebuffer framebuffer :: es)) d
      = match screenSetupBuffer font back_buffer framebuffer text d with
        | .error e => .error e
        | .ok d => run font es d := by
  rw [run, step]
  simp only [run_puts, screenSetupBuffer]
  cases puts font text (useBackBuffer back_buffer d) with
  | error e => rfl
  | ok d => rfl

/-- The length of the open escape sequence after a character. -/
def nextEscape (value : UInt8) : Option Nat → Option Nat
  | none => if value = 27 then some 1 else none
  | some k =>
      if value = 13 ∨ value = 10 then some k
      else if value = 27 then some 1
      else if value = 109 then none
      else some (k + 1)

/-- The escape sequences of the stream fit into the buffer; `k` bytes of one are open. -/
def EscapesFit : Option Nat → List Event → Prop
  | _, [] => True
  | o, .putc value :: es =>
      (∀ k ∈ o, value ≠ 13 → value ≠ 10 → value ≠ 27 → k < 16) ∧ EscapesFit (nextEscape value o) es
  | o, _ :: es => EscapesFit o es

/-- A geometry with room for one cell at least. -/
structure ModeInfo.Valid (mode : ModeInfo) : Prop where
  width_ge : 9 ≤ mode.width
  height_ge : 16 ≤ mode.height
  pitch_ge : 4 * mode.width ≤ mode.pitch

/-- The character is in range, and what `kmalloc` and `vmm_create_mmio` return for the size of the
screen lies in the address space. -/
def Event.Allowed (mode : ModeInfo) : Event → Prop
  | .putc value => value.toNat < 128
  | .clear _ => True
  | .backBuffer ptr => ptr + mode.height * mode.pitch ≤ 2 ^ 64
  | .framebuffer ptr => ptr + mode.height * mode.pitch ≤ 2 ^ 64

/-- The address lies in the framebuffer, or in the back buffer when it is in use. -/
def Screen.Inside (s : Screen) (a : Nat) : Prop :=
  (s.framebuffer ≤ a ∧ a < s.framebuffer + s.size) ∨
    (s.using_back_buffer = true ∧ s.back_buffer ≤ a ∧ a < s.back_buffer + s.size)

/-- Every call of the run returns, with the cursor in its bounds and all stores inside. -/
def DrawsInside (font : Nat → UInt8) : List Event → Display → Prop
  | [], _ => True
  | e :: es, d => ∃ d', step font e d = .ok d' ∧
      d'.screen.x ≤ d'.screen.x_max ∧ d'.screen.y ≤ d'.screen.y_max ∧
      Within d'.screen.Inside d.video d'.video ∧ DrawsInside font es d'

/-! ## The shape of a screen -/

/-- The fields that the mode determines are right, and the buffers lie in the address space. -/
structure Shape (mode : ModeInfo) (s : Screen) : Prop where
  width_eq : s.width = mode.width
  height_eq : s.height = mode.height
  pitch_eq : s.pitch = mode.pitch
  size_eq : s.size = mode.height * mode.pitch
  x_max_eq : s.x_max = mode.width / 9 - 1
  y_max_eq : s.y_max = mode.height / 16 - 1
  framebuffer_le : s.framebuffer + mode.height * mode.pitch ≤ 2 ^ 64
  back_buffer_le : s.using_back_buffer = true → s.back_buffer + mode.height * mode.pitch ≤ 2 ^ 64

/-- The buffer that is drawn to. -/
def Screen.base (s : Screen) : Nat := if s.using_back_buffer then s.back_buffer else s.framebuffer

section Shape

variable {mode : ModeInfo} {s : Screen} (hshape : Shape mode s)

include hshape

theorem Shape.base_le : s.base + mode.height * mode.pitch ≤ 2 ^ 64 := by
  unfold Screen.base
  split
  · rename_i husing
    exact hshape.back_buffer_le husing
  · exact hshape.framebuffer_le

theorem Shape.inside {o : Nat} (ho : o < mode.height * mode.pitch) : s.Inside (s.base + o) := by
  have hsize := hshape.size_eq
  unfold Screen.Inside Screen.base
  cases husing : s.using_back_buffer with
  | true => exact Or.inr ⟨rfl, by simp, by simp [hsize, ho]⟩
  | false => exact Or.inl ⟨by simp, by simp [hsize, ho]⟩

/-- The framebuffer is inside in any case. -/
theorem Shape.redraw_within (m : Recorded) : Within s.Inside m (redraw s m) := by
  have hfb := hshape.framebuffer_le
  have hsize := hshape.size_eq
  unfold redraw
  split
  · by_cases hzero : mode.height * mode.pitch = 0
    · rw [hsize, hzero]
      exact Within.refl _ _
    · refine memcpy_within m (by omega) fun i hi => ?_
      rw [hsize] at hi
      rw [u64_of_lt (by omega)]
      exact Or.inl ⟨by omega, by omega⟩
  · exact Within.refl _ _

/-- A pixel that the mode has lies inside. -/
theorem Shape.pixel_within (hvalid : mode.Valid) {row column : Nat} (hrow : row < mode.height)
    (hcolumn : column < mode.width) (color : Nat) {a : Nat}
    (ha : a = u64 (s.base + row * mode.pitch + 4 * column)) (m : Recorded) :
    Within s.Inside m (m.store a (toLE 4 color)) := by
  have hbase := hshape.base_le
  have hpitch := hvalid.pitch_ge
  have hnext : (row + 1) * mode.pitch ≤ mode.height * mode.pitch := Nat.mul_le_mul_right _ hrow
  rw [Nat.succ_mul] at hnext
  have haddr : a = s.base + (row * mode.pitch + 4 * column) := by
    rw [ha, Nat.add_assoc, u64_of_lt (by omega)]
  refine store_within _ m (fun i hi => ?_) (by omega)
  rw [toLE_length] at hi
  rw [haddr, Nat.add_assoc, u64_of_lt (by omega)]
  exact hshape.inside (by omega)

/-- Offsets of pixels above the last line of text are computed without overflow. -/
theorem Shape.pixelOffset_eq (hvalid : mode.Valid) (hsmall : mode.height * mode.pitch < 2 ^ 31)
    {x y : Nat} (hx : x < mode.width) (hy : y < mode.height) :
    pixelOffset s x y = s.base + (y * mode.pitch + 4 * x) := by
  have hbase := hshape.base_le
  have hpitch := hvalid.pitch_ge
  have hnext : (y + 1) * mode.pitch ≤ mode.height * mode.pitch := Nat.mul_le_mul_right _ hy
  rw [Nat.succ_mul] at hnext
  have hint : int32 (y * mode.pitch + x * 4) = y * mode.pitch + x * 4 := int32_of_lt (by omega)
  have hbuffer : (if s.using_back_buffer then s.back_buffer else s.framebuffer) = s.base := rfl
  rw [pixelOffset, hshape.pitch_eq, hint, hbuffer, u64_of_lt (by omega)]
  omega

/-- `clear_screen` draws inside. -/
theorem Shape.clearScreen_within (hvalid : mode.Valid) (hsmall : mode.height * mode.pitch < 2 ^ 31)
    (color : Nat) (m : Recorded) : Within s.Inside m (clearScreen s color m) := by
  have hwidth := hvalid.width_ge
  have hheight := hvalid.height_ge
  have hbase := hshape.base_le
  have hpixels := hshape.pixelOffset_eq hvalid hsmall (show 0 < mode.width by omega)
    (show 0 < mode.height by omega)
  rw [Nat.zero_mul] at hpixels
  rw [clearScreen, hpixels, hshape.size_eq]
  refine (Within.loop _ (fun i hi r => ?_) m).trans (hshape.redraw_within _)
  refine store_within _ r (fun k hk => ?_) (u64_lt _)
  rw [toLE_length] at hk
  have haddr : u64 (u64 (s.base + (0 + 4 * 0) + 4 * i) + k) = s.base + (4 * i + k) := by
    unfold u64
    omega
  rw [haddr]
  exact hshape.inside (by omega)

/-- So does a row of the last line. -/
theorem Shape.clearRow_within (hvalid : mode.Valid) {row : Nat} (hrow : row < mode.height)
    (m : Recorded) : Within s.Inside m (clearRow s (u64 (s.base + row * mode.pitch)) m) := by
  refine Within.loop _ (fun i hi r => ?_) m
  rw [hshape.width_eq] at hi
  refine hshape.pixel_within hvalid hrow hi s.bg ?_ r
  unfold u64
  omega

/-- The number of bytes that `scroll` moves. -/
theorem Shape.scroll_size (hvalid : mode.Valid) (hsmall : mode.height * mode.pitch < 2 ^ 31) :
    int32 ((s.height + (2 ^ 32 - 16)) * s.pitch) = (mode.height - 16) * mode.pitch := by
  have hheight := hvalid.height_ge
  have hle : (mode.height - 16) * mode.pitch ≤ mode.height * mode.pitch :=
    Nat.mul_le_mul_right _ (by omega)
  have hsplit : (mode.height + (2 ^ 32 - 16)) * mode.pitch
      = (mode.height - 16) * mode.pitch + 2 ^ 32 * mode.pitch := by
    rw [← Nat.add_mul]
    congr 1
    omega
  rw [hshape.height_eq, hshape.pitch_eq, hsplit, int32, Nat.add_mul_mod_self_left]
  exact int32_of_lt (by omega)

/-- The cursor plays no part in the shape. -/
theorem Shape.cursor (x y : Nat) : Shape mode { s with x := x, y := y } :=
  ⟨hshape.width_eq, hshape.height_eq, hshape.pitch_eq, hshape.size_eq, hshape.x_max_eq,
    hshape.y_max_eq, hshape.framebuffer_le, hshape.back_buffer_le⟩

/-- Neither do the colors and the escape sequence. -/
theorem Shape.restyle (bg fg : Nat) (buffer : List UInt8) (is_open : Bool) (size : Nat) :
    Shape mode { s with
      bg := bg, fg := fg
      escape_seq_buffer := buffer, is_escape_seq := is_open, escape_seq_size := size } :=
  ⟨hshape.width_eq, hshape.height_eq, hshape.pitch_eq, hshape.size_eq, hshape.x_max_eq,
    hshape.y_max_eq, hshape.framebuffer_le, hshape.back_buffer_le⟩

/-- `scroll` draws inside. -/
theorem Shape.scroll_within (hvalid : mode.Valid) (hsmall : mode.height * mode.pitch < 2 ^ 31)
    (m : Recorded) : Within s.Inside m (scroll ⟨s, m⟩).video := by
  have hwidth := hvalid.width_ge
  have hheight := hvalid.height_ge
  have hheight_lt := mode.height_lt
  have hbase := hshape.base_le
  have hy := hshape.y_max_eq
  have hsize := hshape.scroll_size hvalid hsmall
  have hle : (mode.height - 16) * mode.pitch ≤ mode.height * mode.pitch :=
    Nat.mul_le_mul_right _ (by omega)
  have hpos : 0 < mode.height * mode.pitch :=
    Nat.mul_pos (by omega) (by have := hvalid.pitch_ge; omega)
  -- all offsets stay below 2^31, so the 32-bit arithmetic is exact
  have htop := hshape.pixelOffset_eq hvalid hsmall (show 0 < mode.width by omega)
    (show 0 < mode.height by omega)
  have hbottom := hshape.pixelOffset_eq hvalid hsmall (show 0 < mode.width by omega)
    (show s.y_max * 16 < mode.height by omega)
  have hu16 : u16 (s.y_max * 16) = s.y_max * 16 := u16_of_lt (by omega)
  have hcopy : ∀ first_line, Within s.Inside m
      (memcpy s.base first_line ((mode.height - 16) * mode.pitch) m) := fun first_line =>
    memcpy_within m (by omega) fun i hi => by
      rw [u64_of_lt (by omega)]
      exact hshape.inside (by omega)
  have hrows : ∀ r, Within s.Inside r (forUpTo (fun j m => clearRow s
      (u64 (s.base + s.y_max * 16 * mode.pitch + j * mode.pitch)) m) 16 r) :=
    Within.loop 16 fun j hj r => by
      rw [Nat.add_assoc, ← Nat.add_mul]
      exact hshape.clearRow_within hvalid (by omega) r
  rw [Nat.zero_mul, Nat.mul_zero, Nat.add_zero] at htop
  rw [Nat.mul_zero, Nat.add_zero] at hbottom
  simp only [scroll, hsize]
  simp only [hu16, htop, hbottom, hshape.pitch_eq]
  exact ((hcopy _).trans (hrows _)).trans ((hshape.cursor 0 s.y_max).redraw_within _)

/-- A glyph of a cell is drawn inside. -/
theorem Shape.glyph_within (hvalid : mode.Valid) (hsmall : mode.height * mode.pitch < 2 ^ 31)
    (hx : s.x ≤ s.x_max) (hy : s.y ≤ s.y_max) (glyph : Nat → UInt8) (m : Recorded) :
    Within s.Inside m (forUpTo (fun j m => drawRow s (glyph j)
      (u64 (pixelOffset s (u16 (s.x * CHAR_WIDTH)) (u16 (s.y * 16)) + j * s.pitch)) m) 16 m) := by
  have hwidth := hvalid.width_ge
  have hheight := hvalid.height_ge
  have hwidth_lt := mode.width_lt
  have hheight_lt := mode.height_lt
  have hxmax := hshape.x_max_eq
  have hymax := hshape.y_max_eq
  have hcolumn : u16 (s.x * CHAR_WIDTH) = s.x * 9 := by
    unfold CHAR_WIDTH
    exact u16_of_lt (by omega)
  have hrow : u16 (s.y * 16) = s.y * 16 := u16_of_lt (by omega)
  rw [hcolumn, hrow, hshape.pixelOffset_eq hvalid hsmall (by omega) (by omega), hshape.pitch_eq]
  refine Within.loop 16 (fun j hj r => Within.loop 8 (fun i hi r => ?_) r) m
  refine hshape.pixel_within hvalid (show s.y * 16 + j < mode.height by omega)
    (show s.x * 9 + i < mode.width by omega) _ ?_ r
  rw [Nat.add_mul]
  unfold u64
  omega

end Shape

/-! ## Characters -/

/-- The shape and the cursor are right, and the escape sequence that is open has the length `o`. -/
structure Good (mode : ModeInfo) (o : Option Nat) (s : Screen) : Prop where
  shape : Shape mode s
  x_le : s.x ≤ s.x_max
  y_le : s.y ≤ s.y_max
  escape_eq : s.is_escape_seq = o.isSome
  escape_size : ∀ k ∈ o, s.escape_seq_size = k

theorem parseEscapeSequence_eq (s : Screen) :
    ∃ bg fg, parseEscapeSequence s = { s with bg := bg, fg := fg } := by
  unfold parseEscapeSequence
  dsimp only
  split
  · split
    · exact ⟨_, _, rfl⟩
    · split
      · exact ⟨_, _, rfl⟩
      · split
        · exact ⟨_, _, rfl⟩
        · exact ⟨_, _, rfl⟩
  · exact ⟨_, _, rfl⟩

theorem nextEscape_control {value : UInt8} (h : value = 13 ∨ value = 10) (o : Option Nat) :
    nextEscape value o = o := by
  cases o with
  | none =>
      rw [nextEscape, if_neg]
      rcases h with rfl | rfl
      · decide
      · decide
  | some k => rw [nextEscape, if_pos h]

section Characters

variable {mode : ModeInfo} {o : Option Nat} {s : Screen} (hgood : Good mode o s)

include hgood

theorem Good.cursor {x y : Nat} (hx : x ≤ s.x_max) (hy : y ≤ s.y_max) :
    Good mode o { s with x := x, y := y } :=
  ⟨hgood.shape.cursor x y, hx, hy, hgood.escape_eq, hgood.escape_size⟩

/-- Characters of an escape sequence move nothing. -/
theorem Good.escape (bg fg : Nat) (buffer : List UInt8) (o' : Option Nat) {size : Nat}
    (hsize : ∀ k ∈ o', size = k) :
    Good mode o' { s with
      bg := bg, fg := fg
      escape_seq_buffer := buffer, is_escape_seq := o'.isSome, escape_seq_size := size } :=
  ⟨hgood.shape.restyle bg fg buffer _ size, hgood.x_le, hgood.y_le, rfl, hsize⟩

/-- A character within an escape sequence. -/
theorem Good.putc_escape (font : Nat → UInt8) {value : UInt8} {k : Nat} (ho : o = some k)
    (hk : k < 16) (hreturn : value ≠ 13) (hfeed : value ≠ 10) (hescape : value ≠ 27)
    (m : Recorded) : ∃ s', putc font value ⟨s, m⟩ = .ok ⟨s', m⟩ ∧
      Good mode (nextEscape value o) s' := by
  subst ho
  have hopen : s.is_escape_seq = true := hgood.escape_eq
  have hsize : s.escape_seq_size = k := hgood.escape_size k rfl
  unfold putc
  have hcontrol : ¬ (value = 13 ∨ value = 10) := not_or.mpr ⟨hreturn, hfeed⟩
  simp only [if_neg hreturn, if_neg hfeed, if_neg hescape, if_pos hopen, hsize, if_pos hk]
  rw [nextEscape, if_neg hcontrol, if_neg hescape]
  by_cases hlast : value = 109
  · rw [if_pos hlast, if_pos hlast]
    obtain ⟨bg, fg, hparse⟩ := parseEscapeSequence_eq { s with
      escape_seq_buffer := s.escape_seq_buffer.set k value, is_escape_seq := false
      escape_seq_size := k + 1 }
    rw [hparse]
    exact ⟨_, rfl, hgood.escape bg fg _ none (by simp)⟩
  · rw [if_neg hlast, if_neg hlast]
    refine ⟨_, rfl, ?_⟩
    have hgood' : Good mode (some (k + 1)) { s with
        escape_seq_buffer := s.escape_seq_buffer.set k value, is_escape_seq := true
        escape_seq_size := k + 1 } :=
      hgood.escape s.bg s.fg _ (some (k + 1)) fun i hi => Option.some.inj hi
    rwa [← hopen] at hgood'

variable (hvalid : mode.Valid) (hsmall : mode.height * mode.pitch < 2 ^ 31)

include hvalid hsmall

/-- A line feed. -/
theorem Good.putc_feed (font : Nat → UInt8) (m : Recorded) :
    ∃ d', putc font 10 ⟨s, m⟩ = .ok d' ∧ Good mode o d'.screen ∧
      Within d'.screen.Inside m d'.video := by
  have hheight_lt := mode.height_lt
  have hy := hgood.y_le
  have hymax := hgood.shape.y_max_eq
  have hnext : u16 (s.y + 1) = s.y + 1 := u16_of_lt (by omega)
  have hshape := hgood.shape.cursor 0 (s.y + 1)
  unfold putc
  simp only [hnext]
  rw [if_neg (by decide), if_pos trivial]
  split
  · exact ⟨_, rfl, hgood.cursor (Nat.zero_le _) (le_refl _),
      hshape.scroll_within hvalid hsmall m⟩
  · exact ⟨_, rfl, hgood.cursor (Nat.zero_le _) (by omega), hshape.redraw_within m⟩

/-- A glyph. -/
theorem Good.putc_glyph (font : Nat → UInt8) {value : UInt8} (ho : o = none)
    (hchar : value.toNat < 128) (hreturn : value ≠ 13) (hfeed : value ≠ 10) (hescape : value ≠ 27)
    (m : Recorded) : ∃ d', putc font value ⟨s, m⟩ = .ok d' ∧ Good mode none d'.screen ∧
      Within d'.screen.Inside m d'.video := by
  subst ho
  have hclosed : ¬ s.is_escape_seq = true := by
    rw [hgood.escape_eq]
    exact Bool.false_ne_true
  have hwidth_lt := mode.width_lt
  have hheight_lt := mode.height_lt
  have hx := hgood.x_le
  have hy := hgood.y_le
  have hxmax := hgood.shape.x_max_eq
  have hymax := hgood.shape.y_max_eq
  have hnext : u16 (s.x + 1) = s.x + 1 := u16_of_lt (by omega)
  have hline : u16 (s.y + 1) = s.y + 1 := u16_of_lt (by omega)
  have hglyph := hgood.shape.glyph_within hvalid hsmall hx hy
    (fun j => font (value.toNat * 16 + j)) m
  unfold putc
  simp only [if_neg hreturn, if_neg hfeed, if_neg hescape, if_neg hclosed,
    if_neg (show ¬ 128 ≤ value.toNat by omega), hnext, hline]
  split
  · split
    · exact ⟨_, rfl, hgood.cursor (Nat.zero_le _) (le_refl _),
        hglyph.trans ((hgood.shape.cursor 0 (s.y + 1)).scroll_within hvalid hsmall _)⟩
    · exact ⟨_, rfl, hgood.cursor (Nat.zero_le _) (by omega), hglyph⟩
  · exact ⟨_, rfl, hgood.cursor (by omega) hy, hglyph⟩

/-- A character keeps the cursor in its bounds and draws inside. -/
theorem Good.putc (font : Nat → UInt8) {value : UInt8} (hchar : value.toNat < 128)
    (hfit : ∀ k ∈ o, value ≠ 13 → value ≠ 10 → value ≠ 27 → k < 16) (m : Recorded) :
    ∃ d', putc font value ⟨s, m⟩ = .ok d' ∧ Good mode (nextEscape value o) d'.screen ∧
      Within d'.screen.Inside m d'.video := by
  by_cases hreturn : value = 13
  · subst hreturn
    rw [nextEscape_control (Or.inl rfl)]
    exact ⟨_, rfl, hgood.cursor (Nat.zero_le _) hgood.y_le, Within.refl _ _⟩
  by_cases hfeed : value = 10
  · subst hfeed
    rw [nextEscape_control (Or.inr rfl)]
    exact hgood.putc_feed hvalid hsmall font m
  by_cases hescape : value = 27
  · subst hescape
    have hnext : nextEscape 27 o = some 1 := by
      cases o <;> rfl
    rw [hnext]
    exact ⟨_, rfl, hgood.escape s.bg s.fg _ (some 1) (fun k hk => Option.some.inj hk),
      Within.refl _ _⟩
  -- any other character is drawn, or goes to the escape sequence
  cases ho : o with
  | none =>
      rw [nextEscape, if_neg hescape]
      exact hgood.putc_glyph hvalid hsmall font ho hchar hreturn hfeed hescape m
  | some k =>
      obtain ⟨s', hrun, hgood'⟩ := hgood.putc_escape font ho
        (hfit k ho hreturn hfeed hescape) hreturn hfeed hescape m
      rw [ho] at hgood'
      exact ⟨_, hrun, hgood', Within.refl _ _⟩

end Characters

/-! ## Whole runs -/

/-- The open escape sequence after a call. -/
def Event.escape (o : Option Nat) : Event → Option Nat
  | .putc value => nextEscape value o
  | _ => o

/-- A call keeps the invariant and draws inside. -/
theorem Good.step {mode : ModeInfo} {o : Option Nat} {d : Display} (hgood : Good mode o d.screen)
    (hvalid : mode.Valid) (hsmall : mode.height * mode.pitch < 2 ^ 31) (font : Nat → UInt8)
    {e : Event} {es : List Event} (hallowed : e.Allowed mode) (hfit : EscapesFit o (e :: es)) :
    ∃ d', step font e d = .ok d' ∧ Good mode (e.escape o) d'.screen ∧
      Within d'.screen.Inside d.video d'.video ∧ EscapesFit (e.escape o) es := by
  have hshape := hgood.shape
  -- a back buffer is filled when it is set, which counts as drawing in it
  cases e with
  | putc value =>
      obtain ⟨hroom, hrest⟩ := hfit
      obtain ⟨d', hrun, hgood', hwithin⟩ :=
        hgood.putc hvalid hsmall font hallowed hroom d.video
      exact ⟨d', hrun, hgood', hwithin, hrest⟩
  | clear color =>
      exact ⟨_, rfl, hgood, hshape.clearScreen_within hvalid hsmall color d.video, hfit⟩
  | backBuffer ptr =>
      have hptr : ptr + mode.height * mode.pitch ≤ 2 ^ 64 := hallowed
      have hsize := hshape.size_eq
      have hpos : 0 < mode.height * mode.pitch :=
        Nat.mul_pos (by have := hvalid.height_ge; omega)
          (by have := hvalid.width_ge; have := hvalid.pitch_ge; omega)
      refine ⟨_, rfl, ⟨⟨hshape.width_eq, hshape.height_eq, hshape.pitch_eq, hsize,
        hshape.x_max_eq, hshape.y_max_eq, hshape.framebuffer_le, fun _ => hptr⟩, hgood.x_le,
        hgood.y_le, hgood.escape_eq, hgood.escape_size⟩, ?_, hfit⟩
      refine memcpy_within d.video (by omega) fun i hi => ?_
      rw [u64_of_lt (by omega)]
      exact Or.inr ⟨rfl, Nat.le_add_right _ _, Nat.add_lt_add_left hi _⟩
  | framebuffer ptr =>
      exact ⟨_, rfl, ⟨⟨hshape.width_eq, hshape.height_eq, hshape.pitch_eq, hshape.size_eq,
        hshape.x_max_eq, hshape.y_max_eq, hallowed, hshape.back_buffer_le⟩, hgood.x_le,
        hgood.y_le, hgood.escape_eq, hgood.escape_size⟩, Within.refl _ _, hfit⟩

/-- From such a state every run draws inside. -/
theorem Good.drawsInside {mode : ModeInfo} (hvalid : mode.Valid)
    (hsmall : mode.height * mode.pitch < 2 ^ 31) (font : Nat → UInt8) (es : List Event) :
    ∀ {o : Option Nat} {d : Display}, Good mode o d.screen → (∀ e ∈ es, e.Allowed mode) →
      EscapesFit o es → DrawsInside font es d := by
  induction es with
  | nil => exact fun _ _ _ => trivial
  | cons e es ih =>
      intro o d hgood hallowed hfit
      obtain ⟨d', hrun, hgood', hwithin, hrest⟩ :=
        hgood.step hvalid hsmall font (hallowed e (List.mem_cons_self ..)) hfit
      exact ⟨d', hrun, hgood'.x_le, hgood'.y_le, hwithin,
        ih hgood' (fun c hc => hallowed c (List.mem_cons_of_mem _ hc)) hrest⟩

/-- After the assignments of `screen_init`. -/
theorem setMode_good {mode : ModeInfo} (hvalid : mode.Valid)
    (hsmall : mode.height * mode.pitch < 2 ^ 31) {s : Screen} (hclosed : s.is_escape_seq = false) :
    Good mode none (setMode mode s) := by
  have hwidth := hvalid.width_ge
  have hheight := hvalid.height_ge
  have hwidth_lt := mode.width_lt
  have hheight_lt := mode.height_lt
  have hframebuffer := mode.framebuffer_lt
  have hx : u16 (mode.width / 9 + (2 ^ 16 - 1)) = mode.width / 9 - 1 := by
    unfold u16
    omega
  have hy : u16 (mode.height / 16 + (2 ^ 16 - 1)) = mode.height / 16 - 1 := by
    unfold u16
    omega
  have hmapped : mode.framebuffer + PHYSICAL_MEMORY + mode.height * mode.pitch ≤ 2 ^ 64 := by
    unfold PHYSICAL_MEMORY
    omega
  exact ⟨⟨rfl, rfl, rfl, int32_of_lt hsmall, hx, hy, hmapped, fun h => absurd h Bool.false_ne_true⟩,
    Nat.zero_le _, Nat.zero_le _, hclosed, by simp⟩

/-! ## Large screens -/

/-- The buffers of two screens are the same. -/
structure SameBuffers (s s' : Screen) : Prop where
  framebuffer_eq : s'.framebuffer = s.framebuffer
  size_eq : s'.size = s.size
  using_eq : s'.using_back_buffer = s.using_back_buffer

/-- A character leaves the buffers where they are. -/
theorem putc_sameBuffers {font : Nat → UInt8} {value : UInt8} {d d' : Display}
    (h : putc font value d = .ok d') : SameBuffers d.screen d'.screen := by
  unfold putc at h
  dsimp only at h
  by_cases hreturn : value = 13
  · rw [if_pos hreturn] at h
    cases h
    exact ⟨rfl, rfl, rfl⟩
  rw [if_neg hreturn] at h
  by_cases hfeed : value = 10
  · rw [if_pos hfeed] at h
    split at h
    all_goals
      cases h
      exact ⟨rfl, rfl, rfl⟩
  rw [if_neg hfeed] at h
  by_cases hescape : value = 27
  · rw [if_pos hescape] at h
    cases h
    exact ⟨rfl, rfl, rfl⟩
  rw [if_neg hescape] at h
  -- within an escape sequence the character goes to the buffer of the sequence
  by_cases hopen : d.screen.is_escape_seq = true
  · rw [if_pos hopen] at h
    split at h
    · split at h
      · cases h
        obtain ⟨bg, fg, hparse⟩ := parseEscapeSequence_eq { d.screen with
          escape_seq_buffer := d.screen.escape_seq_buffer.set d.screen.escape_seq_size value
          is_escape_seq := false, escape_seq_size := d.screen.escape_seq_size + 1 }
        rw [hparse]
        exact ⟨rfl, rfl, rfl⟩
      · cases h
        exact ⟨rfl, rfl, rfl⟩
    · cases h
  rw [if_neg hopen] at h
  split at h
  · cases h
  · split at h
    · split at h
      all_goals
        cases h
        exact ⟨rfl, rfl, rfl⟩
    · cases h
      exact ⟨rfl, rfl, rfl⟩

/-- With `size` computed past `2 ^ 31`, `clear_screen` goes around the end of the address space. -/
theorem clearScreen_outside {mode : ModeInfo} (hlarge : 2 ^ 31 ≤ mode.height * mode.pitch)
    {s₀ s : Screen} (hsame : SameBuffers (setMode mode s₀) s) (color : Nat) (m : Recorded) :
    ¬ Within s.Inside m (clearScreen s color m) := by
  have hheight := mode.height_lt
  have hpitch := mode.pitch_lt
  have hfb_lt := mode.framebuffer_lt
  have hmul : mode.height * mode.pitch ≤ (2 ^ 16 - 1) * (2 ^ 16 - 1) :=
    Nat.mul_le_mul (by omega) (by omega)
  have hint : int32 (mode.height * mode.pitch)
      = mode.height * mode.pitch + (2 ^ 64 - 2 ^ 32) := by
    unfold int32
    rw [Nat.mod_eq_of_lt (by omega), if_neg (by omega)]
  have hfb : s.framebuffer = mode.framebuffer + 0xFFFF800000000000 := hsame.framebuffer_eq
  have hsize : s.size = mode.height * mode.pitch + (2 ^ 64 - 2 ^ 32) := hsame.size_eq.trans hint
  have husing : s.using_back_buffer = false := hsame.using_eq
  have hpixels : pixelOffset s 0 0 = s.framebuffer := by
    rw [pixelOffset, husing, Nat.zero_mul, Nat.zero_mul]
    show u64 (0 + s.framebuffer) = s.framebuffer
    rw [Nat.zero_add, u64_of_lt (by omega)]
  have hredraw : ∀ r, redraw s r = r := fun r => if_neg fun h => by simp [husing] at h
  -- the first pixel behind the end of the address space
  have haddr : u64 (s.framebuffer + 4 * ((2 ^ 64 - s.framebuffer + 3) / 4)) < 4 := by
    unfold u64
    omega
  have hstores : StoresAt (u64 (s.framebuffer + 4 * ((2 ^ 64 - s.framebuffer + 3) / 4))) m
      (clearScreen s color m) := by
    rw [clearScreen, hpixels, hredraw]
    refine StoresAt.loop (by omega) (fun i r => ?_) (fun r => store_storesAt _ _ _ r) m
    exact store_within _ r (fun _ _ => trivial) (u64_lt _)
  intro hwithin
  rcases hstores.within hwithin with hin | hin
  · omega
  · exact absurd (husing.symm.trans hin.1) Bool.false_ne_true

/-- So a run of `screen_init` fails at its `clear_screen` at the latest. -/
theorem bootRun_outside {mode : ModeInfo} (hlarge : 2 ^ 31 ≤ mode.height * mode.pitch)
    {s₀ : Screen} {font : Nat → UInt8} {es : List Event} (text : List UInt8) :
    ∀ {d : Display}, SameBuffers (setMode mode s₀) d.screen →
      ¬ DrawsInside font (bootRun text es) d := by
  induction text with
  | nil =>
      intro d hsame hdraws
      obtain ⟨d', hrun, -, -, hwithin, -⟩ := hdraws
      obtain rfl := Except.ok.inj hrun
      exact clearScreen_outside hlarge hsame background d.video hwithin
  | cons c text ih =>
      intro d hsame hdraws
      obtain ⟨d', hrun, -, -, -, hrest⟩ := hdraws
      have hkeep := putc_sameBuffers hrun
      exact ih ⟨hkeep.framebuffer_eq.trans hsame.framebuffer_eq,
        hkeep.size_eq.trans hsame.size_eq, hkeep.using_eq.trans hsame.using_eq⟩ hrest

/-- **Where the screen draws.** In a run of `screen_init` and further calls the cursor and all stores
stay in range exactly when the product of `height` and `pitch` is right as an `int`. -/
theorem bootRun_drawsInside_iff (font : Nat → UInt8) (mode : ModeInfo) (hvalid : mode.Valid)
    (text : List UInt8) (es : List Event) (hallowed : ∀ e ∈ bootRun text es, e.Allowed mode)
    (hfit : EscapesFit none (bootRun text es)) (s : Screen) (hclosed : s.is_escape_seq = false)
    (m : Recorded) :
    DrawsInside font (bootRun text es) ⟨setMode mode s, m⟩ ↔
      mode.height * mode.pitch < 2 ^ 31 := by
  constructor
  · intro hdraws
    by_contra hlarge
    exact bootRun_outside (not_lt.mp hlarge) text ⟨rfl, rfl, rfl⟩ hdraws
  · intro hsmall
    exact (setMode_good hvalid hsmall hclosed).drawsInside hvalid hsmall font _ hallowed hfit

/-- The screen before `screen_init`, and nothing stored. -/
def blankScreen : Screen := ⟨false, false, 0, 0, 0, 0, 0, 0, 0, 0, 0, 0, 0, 0, [], false, 0⟩

def blankVideo : Recorded := ⟨fun _ => 0, []⟩

/-- A screen of 1024 by 768 pixels. -/
def xga : ModeInfo := ⟨1024, 768, 4096, 0xE0000000, by decide, by decide, by decide, by decide⟩

/-- Some text, a back buffer, and text in another color. -/
theorem bootRun_drawsInside_xga : DrawsInside (fun _ => 0)
    (bootRun [65, 10] [.backBuffer 0x1000, .putc 27, .putc 91, .putc 51, .putc 49, .putc 109,
      .putc 66]) ⟨setMode xga blankScreen, blankVideo⟩ :=
  (bootRun_drawsInside_iff (fun _ => 0) xga ⟨by decide, by decide, by decide⟩ _ _
    (by
      intro e he
      simp only [bootRun, List.map_cons, List.map_nil, List.cons_append, List.nil_append,
        List.mem_cons, List.not_mem_nil, or_false] at he
      rcases he with rfl | rfl | rfl | rfl | rfl | rfl | rfl | rfl | rfl | rfl <;>
        simp [Event.Allowed, xga])
    (by simp [bootRun, EscapesFit, nextEscape]) blankScreen rfl blankVideo).mpr (by decide)

/-- The widest pitch on the highest screen. -/
def highMode : ModeInfo := ⟨9, 65535, 65535, 0, by decide, by decide, by decide, by decide⟩

/-- There `screen_init` clears memory that is not the framebuffer. -/
theorem bootRun_not_drawsInside : ¬ ∀ (font : Nat → UInt8) (mode : ModeInfo), mode.Valid →
    ∀ (text : List UInt8) (es : List Event), (∀ e ∈ bootRun text es, e.Allowed mode) →
      EscapesFit none (bootRun text es) → ∀ s : Screen, s.is_escape_seq = false →
        ∀ m : Recorded, DrawsInside font (bootRun text es) ⟨setMode mode s, m⟩ := by
  intro h
  have hlarge : 2 ^ 31 ≤ highMode.height * highMode.pitch := by decide
  refine bootRun_outside hlarge [] ⟨rfl, rfl, rfl⟩
    (h (fun _ => 0) highMode ⟨by decide, by decide, by decide⟩ [] [] ?_ trivial blankScreen rfl
      blankVideo)
  intro e he
  obtain rfl := List.mem_singleton.mp he
  trivial

end Windozz.Gfx

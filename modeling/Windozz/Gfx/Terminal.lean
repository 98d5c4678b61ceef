import Mathlib.Data.List.TakeWhile
import Windozz.Gfx.Stream
import Windozz.Gfx.Scroll
import Windozz.Kernel.Ltoa

set_option autoImplicit false

/-! # The screen as a text terminal

What the pixels are for. A `Terminal` is a grid of cells with a cursor, two colors and an escape
sequence; it knows nothing of pixels, buffers and pitches. `Represents` says that the cells are what
the buffer that is drawn to shows, in the glyphs of the font. Every call keeps it
(`Represents.step`): a glyph changes the pixels of its cell only, and `scroll` moves every line by
one. So does every run, over the change to the back buffer (`terminal_run`).
-/

namespace Windozz.Gfx

open Kernel Recorded

/-! ## The terminal -/

/-- What a cell holds. -/
inductive Cell
  | unknown
  | blank (bg : Nat)
  | glyph (char : UInt8) (fg bg : Nat)

/-- The color of a cell at row `j` and column `i` of its 16 by 8 pixels, if it is known. -/
def Cell.color (font : Nat → UInt8) (j i : Nat) : Cell → Option Nat
  | .unknown => none
  | .blank bg => some bg
  | .glyph char fg bg =>
      some (if (font (char.toNat * 16 + j) <<< UInt8.ofNat i) &&& 0x80 ≠ 0 then fg else bg)

/-- A terminal with `rows` lines of `columns` cells. -/
structure Terminal where
  rows : Nat
  columns : Nat
  cell : Nat → Nat → Cell
  x : Nat
  y : Nat
  fg : Nat
  bg : Nat
  /-- The bytes of the open escape sequence. -/
  escape : Option (List UInt8)

namespace Terminal

/-- All lines move up by one, and the last one is blank. -/
def up (t : Terminal) : Terminal :=
  { t with
    cell := fun row column => if row + 1 < t.rows then t.cell (row + 1) column else .blank t.bg
    x := 0, y := t.rows - 1 }

/-- The cursor moves to the next line. -/
def newline (t : Terminal) : Terminal :=
  if t.y + 1 < t.rows then { t with x := 0, y := t.y + 1 } else t.up

/-- The colors that an escape sequence selects: `ESC [ n m`, with a number that wraps at 32 bits. -/
def style (e : List UInt8) (t : Terminal) : Terminal :=
  if e[1]? = some 91 then
    let number := (digitsValue ((e.drop 2).takeWhile isDigit) : Int).bmod (2 ^ 32)
    if number = 0 then { t with bg := background, fg := ansi_colors.getD 7 0 }
    else if 30 ≤ number ∧ number ≤ 37 then
      { t with fg := ansi_colors.getD (number - 30).toNat 0 }
    else if 40 ≤ number ∧ number ≤ 47 then
      { t with bg := ansi_colors.getD (number - 40).toNat 0 }
    else t
  else t

/-- A glyph goes to the cell under the cursor. -/
def write (c : UInt8) (t : Terminal) : Terminal :=
  let t := { t with
    cell := fun row column =>
      if row = t.y ∧ column = t.x then .glyph c t.fg t.bg else t.cell row column }
  if t.x + 1 < t.columns then { t with x := t.x + 1 } else t.newline

/-- A character. -/
def putc (c : UInt8) (t : Terminal) : Terminal :=
  if c = 13 then { t with x := 0 }
  else if c = 10 then t.newline
  else if c = 27 then { t with escape := some [27] }
  else
    match t.escape with
    | none => t.write c
    | some e =>
        if c = 109 then style (e ++ [c]) { t with escape := none }
        else { t with escape := some (e ++ [c]) }

/-- A call. The buffers do not matter. -/
def step : Event → Terminal → Terminal
  | .putc c, t => t.putc c
  | .clear color, t => { t with cell := fun _ _ => .blank color }
  | .backBuffer _, t => t
  | .framebuffer _, t => t

/-- A run. -/
def run : List Event → Terminal → Terminal
  | [], t => t
  | e :: es, t => run es (t.step e)

end Terminal

/-! ## The pixels of a cell -/

/-- The offset of the pixel at row `j` and column `i` of a cell. -/
def pixelAt (pitch row column j i : Nat) : Nat := (row * 16 + j) * pitch + 4 * (column * 9 + i)

/-- The cells are what the pixels from `base` on show. -/
def Shows (font : Nat → UInt8) (pitch : Nat) (m : Recorded) (base : Nat) (t : Terminal) : Prop :=
  ∀ row column, row < t.rows → column < t.columns → ∀ j i, j < 16 → i < 8 → ∀ color,
    (t.cell row column).color font j i = some color →
      ∀ k, k < 4 → m.mem (base + (pixelAt pitch row column j i + k)) = (toLE 4 color).getD k 0

/-- A row of a glyph. -/
theorem drawRow_mem (s : Screen) (font_data : UInt8) {a : Nat} (ha : a + 32 ≤ 2 ^ 64)
    (m : Recorded) :
    (∀ k, k < 32 → (drawRow s font_data a m).mem (a + k)
      = (toLE 4 (if (font_data <<< UInt8.ofNat (k / 4)) &&& 0x80 ≠ 0 then s.fg else s.bg)).getD
        (k % 4) 0) ∧
    ∀ x, x < a ∨ a + 32 ≤ x → (drawRow s font_data a m).mem x = m.mem x := by
  obtain ⟨hin, hout⟩ := @loop_mem (fun i m => m.store (u64 (a + 4 * i))
      (toLE 4 (if (font_data <<< UInt8.ofNat i) &&& 0x80 ≠ 0 then s.fg else s.bg))) a 4 4 8
    (fun i k =>
      (toLE 4 (if (font_data <<< UInt8.ofNat i) &&& 0x80 ≠ 0 then s.fg else s.bg)).getD k 0)
    (le_refl _) (fun i hi r => by
      have haddr : u64 (a + 4 * i) = a + i * 4 := by
        rw [u64_of_lt (by omega), Nat.mul_comm]
      have hstore := store_mem (toLE 4 (if (font_data <<< UInt8.ofNat i) &&& 0x80 ≠ 0 then s.fg
        else s.bg)) (a := a + i * 4) r (by rw [toLE_length]; omega)
      rw [toLE_length] at hstore
      rw [haddr]
      refine ⟨fun k hk => ?_, hstore.2⟩
      rw [← Nat.add_assoc]
      exact hstore.1 k hk) m
  refine ⟨fun k hk => ?_, fun x hx => hout x fun i hi => by omega⟩
  have hbyte := hin (k / 4) (by omega) (k % 4) (Nat.mod_lt _ (by decide))
  rwa [show k / 4 * 4 + k % 4 = k by omega] at hbyte

/-- A glyph. -/
theorem glyph_mem (s : Screen) (glyph : Nat → UInt8) {a pitch : Nat} (hpitch : 32 ≤ pitch)
    (ha : a + 15 * pitch + 32 ≤ 2 ^ 64) (m : Recorded) :
    (∀ j, j < 16 → ∀ k, k < 32 →
      (forUpTo (fun j m => drawRow s (glyph j) (u64 (a + j * pitch)) m) 16 m).mem
        (a + (j * pitch + k))
          = (toLE 4 (if (glyph j <<< UInt8.ofNat (k / 4)) &&& 0x80 ≠ 0 then s.fg else s.bg)).getD
            (k % 4) 0) ∧
    ∀ x, (∀ j, j < 16 → x < a + j * pitch ∨ a + j * pitch + 32 ≤ x) →
      (forUpTo (fun j m => drawRow s (glyph j) (u64 (a + j * pitch)) m) 16 m).mem x = m.mem x := by
  refine loop_mem hpitch (fun j hj r => ?_) m
  have hle : j * pitch ≤ 15 * pitch := Nat.mul_le_mul_right _ (by omega)
  have haddr : u64 (a + j * pitch) = a + j * pitch := u64_of_lt (by omega)
  obtain ⟨hin, hout⟩ := drawRow_mem s (glyph j) (a := a + j * pitch) (by omega) r
  rw [haddr]
  refine ⟨fun k hk => ?_, hout⟩
  rw [← Nat.add_assoc]
  exact hin k hk

/-! ## Refinement -/

/-- Where the buffers lie. -/
structure Buffers where
  framebuffer : Nat
  back_buffer : Option Nat

/-- The buffers in use. -/
def Screen.buffers (s : Screen) : Buffers :=
  ⟨s.framebuffer, if s.using_back_buffer then some s.back_buffer else none⟩

/-- The buffers after a call. -/
def Buffers.step : Event → Buffers → Buffers
  | .backBuffer ptr, b => { b with back_buffer := some ptr }
  | .framebuffer ptr, b => { b with framebuffer := ptr }
  | _, b => b

/-- The screen represents the terminal. -/
structure Represents (font : Nat → UInt8) (mode : ModeInfo) (b : Buffers) (d : Display)
    (t : Terminal) : Prop where
  fitted : Fitted mode d.screen
  buffers_eq : d.screen.buffers = b
  unlocked : d.screen.locked = false
  x_max_eq : d.screen.x_max = mode.width / 9 - 1
  rows_eq : t.rows = mode.height / 16
  columns_eq : t.columns = mode.width / 9
  x_eq : d.screen.x = t.x
  y_eq : d.screen.y = t.y
  x_lt : t.x < t.columns
  y_lt : t.y < t.rows
  fg_eq : d.screen.fg = t.fg
  bg_eq : d.screen.bg = t.bg
  escape_eq : d.screen.is_escape_seq = t.escape.isSome
  escape : ∀ e, t.escape = some e → e ≠ [] ∧ d.screen.escape_seq_size = e.length ∧
    d.screen.escape_seq_buffer = e ++ List.replicate (16 - e.length) 0
  shows : Shows font mode.pitch d.video d.screen.base t

section Refine

variable {font : Nat → UInt8} {mode : ModeInfo} {b : Buffers} {s : Screen} {m : Recorded}
  {t : Terminal}

/-- The cursor, the colors and the escape sequence play no part in the geometry. -/
theorem Fitted.restyle (h : Fitted mode s) (x y bg fg : Nat) (buffer : List UInt8) (is_open : Bool)
    (size : Nat) :
    Fitted mode { s with
      x := x, y := y, bg := bg, fg := fg
      escape_seq_buffer := buffer, is_escape_seq := is_open, escape_seq_size := size } :=
  ⟨h.width_eq, h.height_eq, h.pitch_eq, h.size_eq, h.y_max_eq, h.framebuffer_ge, h.framebuffer_le,
    h.back_buffer_ge, h.back_buffer_le, h.apart⟩

/-- A pixel of a cell lies in the buffer. -/
theorem pixelAt_lt (hvalid : mode.Valid) {row column j i k : Nat} (hrow : row < mode.height / 16)
    (hcolumn : column < mode.width / 9) (hj : j < 16) (hi : i < 8) (hk : k < 4) :
    4 * (column * 9 + i) + k < mode.pitch ∧
      pixelAt mode.pitch row column j i + k < mode.height * mode.pitch := by
  have hpitch := hvalid.pitch_ge
  have hcell : (row * 16 + j + 1) * mode.pitch ≤ mode.height * mode.pitch :=
    Nat.mul_le_mul_right _ (by omega)
  rw [Nat.succ_mul] at hcell
  unfold pixelAt
  omega

section Pieces

variable (hvalid : mode.Valid) (hsmall : mode.height * mode.pitch < 2 ^ 31)
include hvalid hsmall

/-- `redraw` does not change what the buffer shows. -/
theorem Shows.redraw (hfitted : Fitted mode s) (hrows : t.rows = mode.height / 16)
    (hcolumns : t.columns = mode.width / 9) (h : Shows font mode.pitch m s.base t) :
    Shows font mode.pitch (redraw s m) s.base t := by
  intro row column hrow hcolumn j i hj hi color hcolor k hk
  have hlt := (pixelAt_lt hvalid (by omega : row < mode.height / 16)
    (by omega : column < mode.width / 9) hj hi hk).2
  rw [hfitted.redraw_mem hvalid (fun _ _ => hsmall) m hlt]
  exact h row column hrow hcolumn j i hj hi color hcolor k hk

/-- `scroll` moves the lines up. -/
theorem Shows.scroll (hfitted : Fitted mode s) (hrows : t.rows = mode.height / 16)
    (hcolumns : t.columns = mode.width / 9) (hbg : s.bg = t.bg)
    (h : Shows font mode.pitch m s.base t) :
    Shows font mode.pitch (scroll ⟨s, m⟩).video s.base t.up := by
  have hheight := hvalid.height_ge
  have hy := hfitted.y_max_eq
  have hmove : (mode.height - 16) * mode.pitch < 2 ^ 31 :=
    lt_of_le_of_lt (Nat.mul_le_mul_right _ (by omega)) hsmall
  obtain ⟨hcleared, hmoved⟩ := hfitted.scroll_mem hvalid hmove (fun _ _ => hsmall) m
  intro row column hrow hcolumn j i hj hi color hcolor k hk
  have hrow' : row < t.rows := hrow
  have hcolumn' : column < t.columns := hcolumn
  have hlt := (pixelAt_lt hvalid (by omega : row < mode.height / 16)
    (by omega : column < mode.width / 9) hj hi hk).1
  simp only [Terminal.up] at hcolor
  by_cases hlast : row + 1 < t.rows
  · rw [if_pos hlast] at hcolor
    have hline : (row * 16 + j + 1) * mode.pitch ≤ 16 * s.y_max * mode.pitch :=
      Nat.mul_le_mul_right _ (by omega)
    rw [Nat.succ_mul] at hline
    rw [← h (row + 1) column hlast hcolumn' j i hj hi color hcolor k hk, pixelAt,
      hmoved _ (by omega), pixelAt]
    congr 1
    have hsplit : ((row + 1) * 16 + j) * mode.pitch
        = 16 * mode.pitch + (row * 16 + j) * mode.pitch := by ring
    omega
  · rw [if_neg hlast] at hcolor
    obtain rfl : s.bg = color := hbg.trans (Option.some.inj hcolor)
    obtain rfl : row = s.y_max := by omega
    rw [← hcleared j hj (column * 9 + i)
      (by rw [hfitted.width_eq]; have := hvalid.pitch_ge; omega) k hk, pixelAt]
    congr 1
    have hsplit : (s.y_max * 16 + j) * mode.pitch
        = 16 * s.y_max * mode.pitch + j * mode.pitch := by ring
    omega

/-- `redraw` does not change the terminal. -/
theorem Represents.redraw (h : Represents font mode b ⟨s, m⟩ t) :
    Represents font mode b ⟨s, redraw s m⟩ t :=
  { h with shows := h.shows.redraw hvalid hsmall h.fitted h.rows_eq h.columns_eq }

/-- A new line, with or without scrolling. -/
theorem Represents.newline (h : Represents font mode b ⟨s, m⟩ t) :
    Represents font mode b (if s.y_max < s.y + 1 then Gfx.scroll ⟨{ s with x := 0, y := s.y + 1 }, m⟩
      else ⟨{ s with x := 0, y := s.y + 1 }, m⟩) t.newline := by
  have hwidth := hvalid.width_ge
  have hheight := hvalid.height_ge
  have hrows := h.rows_eq
  have hcolumns := h.columns_eq
  have hymax : s.y_max = mode.height / 16 - 1 := h.fitted.y_max_eq
  have hy : s.y = t.y := h.y_eq
  have hylt := h.y_lt
  have hfitted : Fitted mode { s with x := 0, y := s.y + 1 } :=
    h.fitted.restyle _ _ s.bg s.fg _ _ _
  by_cases hscroll : s.y_max < s.y + 1
  · rw [if_pos hscroll, Terminal.newline, if_neg (by omega)]
    exact {
      fitted := h.fitted.restyle _ _ s.bg s.fg _ _ _
      buffers_eq := h.buffers_eq
      unlocked := h.unlocked
      x_max_eq := h.x_max_eq
      rows_eq := hrows
      columns_eq := hcolumns
      x_eq := rfl
      y_eq := show s.y_max = t.rows - 1 by omega
      x_lt := show 0 < t.columns by omega
      y_lt := show t.rows - 1 < t.rows by omega
      fg_eq := h.fg_eq
      bg_eq := h.bg_eq
      escape_eq := h.escape_eq
      escape := h.escape
      shows := Shows.scroll hvalid hsmall hfitted hrows hcolumns h.bg_eq h.shows }
  · rw [if_neg hscroll, Terminal.newline, if_pos (by omega)]
    exact { h with
      fitted := hfitted
      x_eq := rfl
      y_eq := congrArg (· + 1) hy
      x_lt := show 0 < t.columns by omega
      y_lt := show t.y + 1 < t.rows by omega
      shows := h.shows }

omit hsmall in
/-- Pixels of different cells do not overlap. -/
theorem pixelAt_apart {row column row' column' j j' i i' k k' : Nat}
    (hcolumn : column < mode.width / 9) (hcolumn' : column' < mode.width / 9) (hj : j < 16)
    (hj' : j' < 16) (hi : i < 8) (hi' : i' < 8) (hk : k < 4) (hk' : k' < 4)
    (h : pixelAt mode.pitch row column j i + k = pixelAt mode.pitch row' column' j' i' + k') :
    row = row' ∧ column = column' := by
  have hpitch := hvalid.pitch_ge
  have hrest : ∀ {c i k : Nat}, c < mode.width / 9 → i < 8 → k < 4 →
      4 * (c * 9 + i) + k < mode.pitch := by omega
  have hline : ∀ {r c j i k : Nat}, c < mode.width / 9 → i < 8 → k < 4 →
      (pixelAt mode.pitch r c j i + k) / mode.pitch = r * 16 + j ∧
      (pixelAt mode.pitch r c j i + k) % mode.pitch = 4 * (c * 9 + i) + k := by
    intro r c j i k hc hi hk
    have hlt := hrest hc hi hk
    have hsum : pixelAt mode.pitch r c j i + k
        = 4 * (c * 9 + i) + k + (r * 16 + j) * mode.pitch := by
      unfold pixelAt
      ring
    rw [hsum, Nat.add_mul_div_right _ _ (by omega), Nat.div_eq_of_lt hlt,
      Nat.add_mul_mod_self_right, Nat.mod_eq_of_lt hlt]
    exact ⟨Nat.zero_add _, rfl⟩
  have hleft := hline (r := row) (j := j) hcolumn hi hk
  rw [h, (hline hcolumn' hi' hk').1, (hline hcolumn' hi' hk').2] at hleft
  omega

/-- A glyph in the cell under the cursor. -/
theorem Represents.shows_glyph (h : Represents font mode b ⟨s, m⟩ t) (c : UInt8) :
    Shows font mode.pitch (forUpTo (fun j m => drawRow s (font (c.toNat * 16 + j))
      (u64 (pixelOffset s (u16 (s.x * CHAR_WIDTH)) (u16 (s.y * 16)) + j * s.pitch)) m) 16 m) s.base
      { t with cell := fun row column =>
        if row = t.y ∧ column = t.x then .glyph c t.fg t.bg else t.cell row column } := by
  have hwidth_lt := mode.width_lt
  have hheight_lt := mode.height_lt
  have hpitch_ge := hvalid.pitch_ge
  have hwidth := hvalid.width_ge
  have hbase : s.base + mode.height * mode.pitch ≤ 2 ^ 64 := h.fitted.base_le
  have hpitch : s.pitch = mode.pitch := h.fitted.pitch_eq
  have hrows := h.rows_eq
  have hcolumns := h.columns_eq
  have hx : s.x = t.x := h.x_eq
  have hy : s.y = t.y := h.y_eq
  have hxlt := h.x_lt
  have hylt := h.y_lt
  have hcolumn : u16 (s.x * CHAR_WIDTH) = t.x * 9 := by
    unfold CHAR_WIDTH
    rw [hx, u16_of_lt (by omega)]
  have hrow : u16 (s.y * 16) = t.y * 16 := by rw [hy, u16_of_lt (by omega)]
  have hlast := (pixelAt_lt hvalid (show t.y < mode.height / 16 by omega)
    (show t.x < mode.width / 9 by omega) (show 15 < 16 by omega) (show 7 < 8 by omega)
    (show 3 < 4 by omega)).2
  have hspan : pixelAt mode.pitch t.y t.x 15 7 = pixelAt mode.pitch t.y t.x 0 0
      + 15 * mode.pitch + 28 := by
    unfold pixelAt
    ring
  have hfirst : pixelOffset s (t.x * 9) (t.y * 16) = s.base + pixelAt mode.pitch t.y t.x 0 0 := by
    have hbuffer : (if s.using_back_buffer then s.back_buffer else s.framebuffer) = s.base := rfl
    have hoffset : t.y * 16 * mode.pitch + t.x * 9 * 4 = pixelAt mode.pitch t.y t.x 0 0 := by
      unfold pixelAt
      ring
    rw [pixelOffset, hpitch, hbuffer, hoffset, int32_of_lt (by omega), u64_of_lt (by omega),
      Nat.add_comm]
  obtain ⟨hin, hout⟩ := @glyph_mem s (fun j => font (c.toNat * 16 + j))
    (s.base + pixelAt mode.pitch t.y t.x 0 0) mode.pitch (by omega) (by omega) m
  rw [hcolumn, hrow, hfirst, hpitch]
  intro row column hrowlt hcolumnlt j i hj hi color hcolor k hk
  simp only at hrowlt hcolumnlt hcolor ⊢
  by_cases hcell : row = t.y ∧ column = t.x
  · rw [if_pos hcell] at hcolor
    obtain ⟨rfl, rfl⟩ := hcell
    have hbyte := hin j hj (4 * i + k) (by omega)
    rw [show (4 * i + k) / 4 = i by omega, show (4 * i + k) % 4 = k by omega] at hbyte
    have haddr : s.base + (pixelAt mode.pitch t.y t.x j i + k)
        = s.base + pixelAt mode.pitch t.y t.x 0 0 + (j * mode.pitch + (4 * i + k)) := by
      unfold pixelAt
      ring
    rw [haddr, hbyte, ← Option.some.inj hcolor, h.fg_eq, h.bg_eq]
  · rw [if_neg hcell] at hcolor
    rw [hout]
    · exact h.shows row column hrowlt hcolumnlt j i hj hi color hcolor k hk
    · intro j' hj'
      by_contra hinside
      -- the byte would be byte `k'` of pixel `i'` of the row
      obtain ⟨o, ho, haddr⟩ : ∃ o < 32, pixelAt mode.pitch row column j i + k
          = pixelAt mode.pitch t.y t.x 0 0 + j' * mode.pitch + o :=
        ⟨pixelAt mode.pitch row column j i + k
          - (pixelAt mode.pitch t.y t.x 0 0 + j' * mode.pitch), by omega, by omega⟩
      have hpixel : pixelAt mode.pitch t.y t.x 0 0 + j' * mode.pitch + o
          = pixelAt mode.pitch t.y t.x j' (o / 4) + o % 4 := by
        unfold pixelAt
        have hsplit : (t.y * 16 + j') * mode.pitch
          = (t.y * 16 + 0) * mode.pitch + j' * mode.pitch := by ring
        omega
      exact hcell (pixelAt_apart hvalid (by omega) (by omega) hj hj' hi (by omega) hk
        (by omega) (haddr.trans hpixel))

/-- Nothing else changes. -/
theorem Represents.glyph (h : Represents font mode b ⟨s, m⟩ t) (c : UInt8) :
    Represents font mode b ⟨s, forUpTo (fun j m => drawRow s (font (c.toNat * 16 + j))
      (u64 (pixelOffset s (u16 (s.x * CHAR_WIDTH)) (u16 (s.y * 16)) + j * s.pitch)) m) 16 m⟩
      { t with cell := fun row column =>
        if row = t.y ∧ column = t.x then .glyph c t.fg t.bg else t.cell row column } :=
  { h with shows := h.shows_glyph hvalid hsmall c }

/-- `clear_screen` clears every cell. -/
theorem Represents.clear (halign : mode.pitch % 4 = 0) (h : Represents font mode b ⟨s, m⟩ t)
    (color : Nat) : Represents font mode b ⟨s, clearScreen s color m⟩
      { t with cell := fun _ _ => .blank color } := by
  have hwidth := hvalid.width_ge
  have hheight := hvalid.height_ge
  have hpitch := hvalid.pitch_ge
  have hbase : s.base + mode.height * mode.pitch ≤ 2 ^ 64 := h.fitted.base_le
  have hfitted : Fitted mode s := h.fitted
  have hsize : s.size = mode.height * mode.pitch := by
    rw [hfitted.size_eq, int32_of_lt hsmall]
  have hpixels := hfitted.pixelOffset_eq hvalid 0 (by omega) (by omega)
  rw [Nat.zero_mul, Nat.add_zero] at hpixels
  have hfill := (fill_mem (toLE 4 color) (a := s.base) (s.size / 4) m
    (by rw [toLE_length]; omega)).1
  rw [toLE_length] at hfill
  have hshows : Shows font mode.pitch
      (forUpTo (fun i m => m.store (u64 (s.base + 4 * i)) (toLE 4 color)) (s.size / 4) m)
      s.base { t with cell := fun _ _ => .blank color } := by
    intro row column hrow hcolumn j i hj hi color' hcolor k hk
    have hrow' : row < t.rows := hrow
    have hcolumn' : column < t.columns := hcolumn
    have hrows := h.rows_eq
    have hcolumns := h.columns_eq
    have hlt := (pixelAt_lt hvalid (by omega : row < mode.height / 16)
      (by omega : column < mode.width / 9) hj hi hk).2
    have hbytes : 4 ∣ mode.height * mode.pitch :=
      Dvd.dvd.mul_left (Nat.dvd_of_mod_eq_zero halign) _
    have hword : pixelAt mode.pitch row column j i
        = 4 * (pixelAt mode.pitch row column j i / 4) := by
      have hdvd : 4 ∣ (row * 16 + j) * mode.pitch :=
        Dvd.dvd.mul_left (Nat.dvd_of_mod_eq_zero halign) _
      unfold pixelAt
      omega
    obtain rfl : color = color' := Option.some.inj hcolor
    rw [hword]
    exact hfill _ (by omega) k hk
  rw [clearScreen, hpixels]
  exact { h with
    shows := hshows.redraw hvalid hsmall hfitted h.rows_eq h.columns_eq }

end Pieces

/-! ## Escape sequences -/

/-- The digits end where the buffer has zeros. -/
theorem copyNumber_zeros (cs : List UInt8) (n : Nat) :
    copyNumber (cs ++ List.replicate n 0) = cs.takeWhile isDigit := by
  have hzeros : (List.replicate n (0 : UInt8)).takeWhile isDigit = [] := by
    cases n with
    | zero => rfl
    | succ n => rfl
  rw [copyNumber, List.takeWhile_append, hzeros, List.append_nil]
  split
  · rename_i hall
    exact ((List.takeWhile_prefix _).eq_of_length hall).symm
  · rfl

/-- The number of an escape sequence. -/
theorem copyNumber_toInt (cs : List UInt8) (n : Nat) :
    (atoi (copyNumber (cs ++ List.replicate n 0))).toInt
      = (digitsValue (cs.takeWhile isDigit) : Int).bmod (2 ^ 32) := by
  rw [copyNumber_zeros, atoi_digits fun c hc => List.mem_takeWhile_imp hc, BitVec.toInt_ofInt]

/-- The escape sequence is over, and the colors are others. -/
theorem Represents.closed (bg fg : Nat) (buffer : List UInt8) (size : Nat)
    (h : Represents font mode b ⟨s, m⟩ t) :
    Represents font mode b ⟨{ s with
        bg := bg, fg := fg
        escape_seq_buffer := buffer, is_escape_seq := false, escape_seq_size := size }, m⟩
      { t with fg := fg, bg := bg, escape := none } :=
  { h with
    fitted := h.fitted.restyle s.x s.y bg fg buffer false size
    fg_eq := rfl
    bg_eq := rfl
    escape_eq := rfl
    escape := nofun
    shows := h.shows }

/-- An escape sequence selects colors, and does nothing else. -/
theorem Represents.parse {e : List UInt8} {size : Nat} (hsize : 2 ≤ e.length)
    (h : Represents font mode b ⟨s, m⟩ t) :
    Represents font mode b ⟨parseEscapeSequence { s with
        escape_seq_buffer := e ++ List.replicate (16 - e.length) 0
        is_escape_seq := false, escape_seq_size := size }, m⟩
      (Terminal.style e { t with escape := none }) := by
  have hbracket : (e ++ List.replicate (16 - e.length) 0)[1]? = e[1]? :=
    List.getElem?_append_left (by omega)
  have hdrop : (e ++ List.replicate (16 - e.length) 0).drop 2
      = e.drop 2 ++ List.replicate (16 - e.length) 0 := List.drop_append_of_le_length hsize
  have hbg : s.bg = t.bg := h.bg_eq
  have hfg : s.fg = t.fg := h.fg_eq
  have hclosed := fun bg fg =>
    h.closed bg fg (e ++ List.replicate (16 - e.length) 0) size
  simp only [parseEscapeSequence, Terminal.style, hbracket, hdrop, copyNumber_toInt]
  by_cases hcsi : e[1]? = some 91
  · rw [if_pos hcsi, if_pos hcsi]
    split
    · exact hclosed background (ansi_colors.getD 7 0)
    · split
      · rw [← hbg]
        exact hclosed s.bg _
      · split
        · rw [← hfg]
          exact hclosed _ s.fg
        · rw [← hbg, ← hfg]
          exact hclosed s.bg s.fg
  · rw [if_neg hcsi, if_neg hcsi, ← hbg, ← hfg]
    exact hclosed s.bg s.fg

/-! ## Characters -/

/-- A byte of an escape sequence. -/
theorem set_zeros {e : List UInt8} (hroom : e.length < 16) (c : UInt8) :
    (e ++ List.replicate (16 - e.length) 0).set e.length c
      = (e ++ [c]) ++ List.replicate (16 - (e ++ [c]).length) 0 := by
  have hrest : List.replicate (16 - e.length) (0 : UInt8)
      = 0 :: List.replicate (16 - (e.length + 1)) 0 := by
    rw [show 16 - e.length = 16 - (e.length + 1) + 1 by omega, List.replicate_succ]
  rw [List.set_append_right _ _ (le_refl _), Nat.sub_self, hrest, List.set_cons_zero,
    List.append_assoc, List.length_append]
  rfl

/-- A character of an open escape sequence. -/
theorem Represents.putc_open {e : List UInt8} {c : UInt8} (hopen : t.escape = some e)
    (hroom : e.length < 16) (hreturn : c ≠ 13) (hfeed : c ≠ 10) (hescape : c ≠ 27)
    (h : Represents font mode b ⟨s, m⟩ t) :
    ∃ d, putc font c ⟨s, m⟩ = .ok d ∧ Represents font mode b d (t.putc c) := by
  obtain ⟨hne, hsize, hbuffer⟩ := h.escape e hopen
  have hflag : s.is_escape_seq = true := by
    have heq := h.escape_eq
    rw [hopen] at heq
    exact heq
  have hlength : s.escape_seq_size = e.length := hsize
  have hbytes : s.escape_seq_buffer = e ++ List.replicate (16 - e.length) 0 := hbuffer
  have hpos := List.length_pos_iff.mpr hne
  rw [putc, Terminal.putc]
  simp only [if_neg hreturn, if_neg hfeed, if_neg hescape, if_pos hflag, hlength, hbytes,
    if_pos hroom, set_zeros hroom, hopen]
  by_cases hlast : c = 109
  · rw [if_pos hlast, if_pos hlast]
    exact ⟨_, rfl, h.parse (by rw [List.length_append]; simp; omega)⟩
  · rw [if_neg hlast, if_neg hlast]
    refine ⟨_, rfl, { h with
      fitted := h.fitted.restyle s.x s.y s.bg s.fg _ s.is_escape_seq _
      escape_eq := hflag
      escape := ?_
      shows := h.shows }⟩
    intro e' he'
    obtain rfl := Option.some.inj he'
    exact ⟨by simp, by simp, rfl⟩

section Drawn

variable (hvalid : mode.Valid) (hsmall : mode.height * mode.pitch < 2 ^ 31)
include hvalid hsmall

/-- A character that is drawn. -/
theorem Represents.putc_drawn {c : UInt8} (hclosed : t.escape = none) (hchar : c.toNat < 128)
    (hreturn : c ≠ 13) (hfeed : c ≠ 10) (hescape : c ≠ 27) (h : Represents font mode b ⟨s, m⟩ t) :
    ∃ d, putc font c ⟨s, m⟩ = .ok d ∧ Represents font mode b d (t.putc c) := by
  have hwidth := hvalid.width_ge
  have hwidth_lt := mode.width_lt
  have hheight_lt := mode.height_lt
  have hflag : ¬ s.is_escape_seq = true := by
    have heq : s.is_escape_seq = t.escape.isSome := h.escape_eq
    rw [heq, hclosed]
    exact Bool.false_ne_true
  have hx : s.x = t.x := h.x_eq
  have hy : s.y = t.y := h.y_eq
  have hxmax : s.x_max = mode.width / 9 - 1 := h.x_max_eq
  have hxlt := h.x_lt
  have hylt := h.y_lt
  have hrows := h.rows_eq
  have hcolumns := h.columns_eq
  have hnext : u16 (s.x + 1) = s.x + 1 := u16_of_lt (by omega)
  have hline : u16 (s.y + 1) = s.y + 1 := u16_of_lt (by omega)
  have hdrawn := h.glyph hvalid hsmall c
  have hwrite : t.putc c = t.write c := by
    rw [Terminal.putc, if_neg hreturn, if_neg hfeed, if_neg hescape, hclosed]
  rw [putc, hwrite, Terminal.write]
  simp only [if_neg hreturn, if_neg hfeed, if_neg hescape, if_neg hflag,
    if_neg (show ¬ 128 ≤ c.toNat by omega), hnext, hline]
  by_cases hend : s.x_max < s.x + 1
  · rw [if_pos hend, if_neg (show ¬ t.x + 1 < t.columns by omega)]
    have hfed := hdrawn.newline hvalid hsmall
    split
    · rename_i hscroll
      rw [if_pos hscroll] at hfed
      exact ⟨_, rfl, hfed⟩
    · rename_i hscroll
      rw [if_neg hscroll] at hfed
      exact ⟨_, rfl, hfed⟩
  · rw [if_neg hend, if_pos (show t.x + 1 < t.columns by omega)]
    refine ⟨_, rfl, { hdrawn with
      fitted := h.fitted.restyle (s.x + 1) s.y s.bg s.fg _ _ _
      x_eq := congrArg (· + 1) hx
      x_lt := show t.x + 1 < t.columns by omega
      y_lt := hylt
      shows := hdrawn.shows }⟩

/-- A character, in range of its array. -/
theorem Represents.putc {c : UInt8} (hfits : IndexFits (t.escape.map List.length) c)
    (h : Represents font mode b ⟨s, m⟩ t) :
    ∃ d, putc font c ⟨s, m⟩ = .ok d ∧ Represents font mode b d (t.putc c) := by
  have hheight_lt := mode.height_lt
  have hy : s.y = t.y := h.y_eq
  have hylt := h.y_lt
  have hrows := h.rows_eq
  have hcolumns := h.columns_eq
  have hline : u16 (s.y + 1) = s.y + 1 := u16_of_lt (by omega)
  by_cases hreturn : c = 13
  · rw [Gfx.putc, Terminal.putc, if_pos hreturn, if_pos hreturn]
    refine ⟨_, rfl, { h with
      fitted := h.fitted.restyle 0 s.y s.bg s.fg _ _ _
      x_eq := rfl
      x_lt := show 0 < t.columns by have := h.x_lt; omega
      y_lt := hylt
      shows := h.shows }⟩
  by_cases hfeed : c = 10
  · have hfed := h.newline hvalid hsmall
    rw [Gfx.putc, Terminal.putc]
    simp only [if_neg hreturn, if_pos hfeed, hline]
    split
    · rename_i hscroll
      rw [if_pos hscroll] at hfed
      exact ⟨_, rfl, hfed⟩
    · rename_i hscroll
      rw [if_neg hscroll] at hfed
      exact ⟨_, rfl, hfed.redraw hvalid hsmall⟩
  by_cases hescape : c = 27
  · rw [Gfx.putc, Terminal.putc]
    simp only [if_neg hreturn, if_neg hfeed, if_pos hescape]
    refine ⟨_, rfl, { h with
      fitted := h.fitted.restyle s.x s.y s.bg s.fg _ true 1
      escape_eq := rfl
      escape := ?_
      x_lt := h.x_lt
      y_lt := hylt
      shows := h.shows }⟩
    rintro e he
    obtain rfl := Option.some.inj he
    exact ⟨List.cons_ne_nil _ _, rfl, rfl⟩
  -- any other character is drawn, or goes to the escape sequence
  have hindex := hfits hreturn hfeed hescape
  cases hopen : t.escape with
  | none =>
      rw [hopen] at hindex
      exact h.putc_drawn hvalid hsmall hopen hindex hreturn hfeed hescape
  | some e =>
      rw [hopen] at hindex
      exact h.putc_open hopen hindex hreturn hfeed hescape

end Drawn

end Refine

/-! ## Buffers -/

instance : ∀ (o : Option Nat) (value : UInt8), Decidable (IndexFits o value)
  | none, value =>
      inferInstanceAs (Decidable (value ≠ 13 → value ≠ 10 → value ≠ 27 → value.toNat < 128))
  | some k, value =>
      inferInstanceAs (Decidable (value ≠ 13 → value ≠ 10 → value ≠ 27 → k < 16))

/-- A buffer at a kernel address, apart from another one. -/
structure Apart (mode : ModeInfo) (ptr other : Nat) : Prop where
  ptr_ge : 2 ^ 32 ≤ ptr
  ptr_le : ptr + mode.height * mode.pitch ≤ 2 ^ 64
  apart : other + mode.height * mode.pitch ≤ ptr ∨ ptr + mode.height * mode.pitch ≤ other

/-- The character is in range of its array. There is one back buffer, and the framebuffer moves once
it is there. -/
def Event.Fits (mode : ModeInfo) (t : Terminal) (b : Buffers) : Event → Prop
  | .putc c => IndexFits (t.escape.map List.length) c
  | .clear _ => True
  | .backBuffer ptr => b.back_buffer = none ∧ Apart mode ptr b.framebuffer
  | .framebuffer ptr => ∃ back_buffer, b.back_buffer = some back_buffer ∧ Apart mode ptr back_buffer

/-- All calls of the run do. -/
def RunFits (mode : ModeInfo) : List Event → Terminal → Buffers → Prop
  | [], _, _ => True
  | e :: es, t, b => e.Fits mode t b ∧ RunFits mode es (t.step e) (b.step e)

/-- The calls that end with `redraw`. -/
def Event.Redraws : Event → Prop
  | .putc c => c = 10
  | .clear _ => True
  | _ => False

section Run

variable {font : Nat → UInt8} {mode : ModeInfo} {b : Buffers} {d d' : Display} {t : Terminal}

/-- They do. -/
theorem step_redraws {e : Event} (he : e.Redraws) (h : step font e d = .ok d') :
    ∃ m, d'.video = redraw d'.screen m := by
  cases e with
  | putc c =>
      obtain rfl : c = 10 := he
      rw [step, putc] at h
      simp only [if_neg (show (10 : UInt8) ≠ 13 by decide), if_pos] at h
      split at h
      · obtain rfl := Except.ok.inj h
        exact ⟨_, rfl⟩
      · obtain rfl := Except.ok.inj h
        exact ⟨_, rfl⟩
  | clear color =>
      obtain rfl := Except.ok.inj h
      exact ⟨_, rfl⟩
  | backBuffer ptr => exact he.elim
  | framebuffer ptr => exact he.elim

variable (hvalid : mode.Valid) (hsmall : mode.height * mode.pitch < 2 ^ 31)
include hvalid hsmall

/-- After `redraw` the framebuffer shows what the buffer that is drawn to shows. -/
theorem Represents.framebuffer_shows (h : Represents font mode b d t) {m : Recorded}
    (hredraw : d.video = Gfx.redraw d.screen m) :
    Shows font mode.pitch d.video d.screen.framebuffer t := by
  intro row column hrow hcolumn j i hj hi color hcolor k hk
  have hrows := h.rows_eq
  have hcolumns := h.columns_eq
  have hlt := (pixelAt_lt hvalid (by omega : row < mode.height / 16)
    (by omega : column < mode.width / 9) hj hi hk).2
  rw [← h.shows row column hrow hcolumn j i hj hi color hcolor k hk]
  by_cases husing : d.screen.using_back_buffer = true
  · have hbytes := bytes_ge hvalid
    have hframebuffer := h.fitted.framebuffer_le
    have hback := h.fitted.back_buffer_le husing
    have hapart := h.fitted.apart husing
    have hbase : d.screen.base = d.screen.back_buffer := by rw [Screen.base, if_pos husing]
    have hsize : d.screen.size = mode.height * mode.pitch := by
      rw [h.fitted.size_eq, int32_of_lt hsmall]
    obtain ⟨hcopied, hothers⟩ := memcpy_mem d.screen.framebuffer d.screen.back_buffer d.screen.size
      m (by omega) (by omega) (by omega)
    rw [hredraw, Gfx.redraw, if_pos ⟨h.unlocked, husing⟩, hbase, hcopied _ (by omega),
      hothers _ (by omega)]
  · rw [Screen.base, if_neg husing]

/-- `screen_setup_buffer` copies what the framebuffer shows. -/
theorem Represents.backBuffer (h : Represents font mode b d t) {ptr : Nat}
    (hback : b.back_buffer = none) (hapart : Apart mode ptr b.framebuffer) :
    Represents font mode { b with back_buffer := some ptr } (useBackBuffer ptr d) t := by
  have hbytes := bytes_ge hvalid
  have hfitted := h.fitted
  have hframebuffer := hfitted.framebuffer_le
  have hle := hapart.ptr_le
  have hfb : d.screen.framebuffer = b.framebuffer := congrArg Buffers.framebuffer h.buffers_eq
  have hcases := hapart.apart
  rw [← hfb] at hcases
  have hunused : ¬ d.screen.using_back_buffer = true := by
    intro husing
    have hnone := (congrArg Buffers.back_buffer h.buffers_eq).trans hback
    simp [Screen.buffers, husing] at hnone
  have hsize : d.screen.size = mode.height * mode.pitch := by
    rw [hfitted.size_eq, int32_of_lt hsmall]
  have hbase : d.screen.base = d.screen.framebuffer := by rw [Screen.base, if_neg hunused]
  have hcopied := (memcpy_mem ptr d.screen.framebuffer d.screen.size d.video (by omega) (by omega)
    (by omega)).1
  refine { h with
    fitted := ⟨hfitted.width_eq, hfitted.height_eq, hfitted.pitch_eq, hfitted.size_eq,
      hfitted.y_max_eq, hfitted.framebuffer_ge, hframebuffer, fun _ => hapart.ptr_ge, fun _ => hle,
      fun _ => hcases⟩
    buffers_eq := by rw [← hfb]; rfl
    unlocked := rfl
    shows := ?_ }
  intro row column hrow hcolumn j i hj hi color hcolor k hk
  have hrows := h.rows_eq
  have hcolumns := h.columns_eq
  have hlt := (pixelAt_lt hvalid (by omega : row < mode.height / 16)
    (by omega : column < mode.width / 9) hj hi hk).2
  rw [← h.shows row column hrow hcolumn j i hj hi color hcolor k hk, hbase]
  exact hcopied _ (by omega)

omit hvalid hsmall in
/-- The framebuffer moves, and the back buffer stays. -/
theorem Represents.framebuffer (h : Represents font mode b d t) {ptr back_buffer : Nat}
    (hback : b.back_buffer = some back_buffer) (hapart : Apart mode ptr back_buffer) :
    Represents font mode { b with framebuffer := ptr } (moveFramebuffer ptr d) t := by
  have hfitted := h.fitted
  have hbuffer : (if d.screen.using_back_buffer then some d.screen.back_buffer else none)
      = some back_buffer := (congrArg Buffers.back_buffer h.buffers_eq).trans hback
  have husing : d.screen.using_back_buffer = true := by
    by_contra hunused
    rw [if_neg hunused] at hbuffer
    cases hbuffer
  have hptr : d.screen.back_buffer = back_buffer := by
    rw [if_pos husing] at hbuffer
    exact Option.some.inj hbuffer
  have hbase : d.screen.base = (moveFramebuffer ptr d).screen.base := by
    simp [Screen.base, moveFramebuffer, husing]
  have hshows := h.shows
  rw [hbase] at hshows
  have hcases := hapart.apart.symm
  rw [← hptr] at hcases
  exact { h with
    fitted := ⟨hfitted.width_eq, hfitted.height_eq, hfitted.pitch_eq, hfitted.size_eq,
      hfitted.y_max_eq, hapart.ptr_ge, hapart.ptr_le, hfitted.back_buffer_ge,
      hfitted.back_buffer_le, fun _ => hcases⟩
    buffers_eq := by rw [← h.buffers_eq]; rfl
    shows := hshows }

variable (halign : mode.pitch % 4 = 0)
include halign

/-- Every call does to the screen what it does to the terminal. -/
theorem Represents.step {e : Event} (hfits : e.Fits mode t b) (h : Represents font mode b d t) :
    ∃ d', Gfx.step font e d = .ok d' ∧ Represents font mode (b.step e) d' (t.step e) := by
  cases e with
  | putc c => exact h.putc hvalid hsmall hfits
  | clear color => exact ⟨_, rfl, h.clear hvalid hsmall halign color⟩
  | backBuffer ptr => exact ⟨_, rfl, h.backBuffer hvalid hsmall hfits.1 hfits.2⟩
  | framebuffer ptr =>
      obtain ⟨back_buffer, hback, hapart⟩ := hfits
      exact ⟨_, rfl, h.framebuffer hback hapart⟩

/-- So does a run. Behind a line feed or `clear_screen` the framebuffer shows the terminal. -/
theorem Represents.run (es : List Event) : ∀ {b : Buffers} {d : Display} {t : Terminal},
    Represents font mode b d t → RunFits mode es t b →
    ∃ b' d', Gfx.run font es d = .ok d' ∧ Represents font mode b' d' (t.run es) ∧
      ∀ e ∈ es.getLast?, e.Redraws →
        Shows font mode.pitch d'.video d'.screen.framebuffer (t.run es) := by
  induction es with
  | nil => exact fun h _ => ⟨_, _, rfl, h, nofun⟩
  | cons e es ih =>
      intro b d t h hfits
      obtain ⟨d₁, hstep, h₁⟩ := h.step hvalid hsmall halign hfits.1
      obtain ⟨b', d', hrun, h', hshown⟩ := ih h₁ hfits.2
      rw [Gfx.run, hstep]
      refine ⟨b', d', hrun, h', fun last hlast hredraws => ?_⟩
      cases es with
      | nil =>
          obtain rfl := Option.some.inj hlast
          obtain rfl := Except.ok.inj hrun
          obtain ⟨m, hm⟩ := step_redraws hredraws hstep
          exact h'.framebuffer_shows hvalid hsmall hm
      | cons e' es => exact hshown last hlast hredraws

end Run

/-! ## From `screen_init` on -/

/-- The terminal that `screen_init` starts with. -/
def Terminal.start (mode : ModeInfo) : Terminal :=
  ⟨mode.height / 16, mode.width / 9, fun _ _ => .unknown, 0, 0, ansi_colors.getD 7 0,
    ansi_colors.getD 0 0, none⟩

/-- Its buffers. -/
def Buffers.start (mode : ModeInfo) : Buffers := ⟨mode.framebuffer + PHYSICAL_MEMORY, none⟩

/-- The assignments of `screen_init` make such a screen. -/
theorem setMode_represents (font : Nat → UInt8) {mode : ModeInfo} (hvalid : mode.Valid) {s : Screen}
    (hclosed : s.is_escape_seq = false) (m : Recorded) :
    Represents font mode (.start mode) ⟨setMode mode s, m⟩ (.start mode) := by
  have hwidth := hvalid.width_ge
  have hheight := hvalid.height_ge
  have hwidth_lt := mode.width_lt
  have hx : u16 (mode.width / 9 + (2 ^ 16 - 1)) = mode.width / 9 - 1 := by
    unfold u16
    omega
  exact {
    fitted := setMode_fitted hvalid s
    buffers_eq := rfl
    unlocked := rfl
    x_max_eq := hx
    rows_eq := rfl
    columns_eq := rfl
    x_eq := rfl
    y_eq := rfl
    x_lt := show 0 < mode.width / 9 by omega
    y_lt := show 0 < mode.height / 16 by omega
    fg_eq := rfl
    bg_eq := rfl
    escape_eq := hclosed
    escape := nofun
    shows := nofun }

/-- **The screen is a terminal.** In a run of `screen_init` and further calls, over the change to the
back buffer, every call returns, and the buffer that is drawn to shows the terminal that the
characters make up. After a line feed or `clear_screen` the framebuffer shows it too. -/
theorem terminal_run (font : Nat → UInt8) (mode : ModeInfo) (hvalid : mode.Valid)
    (hsmall : mode.height * mode.pitch < 2 ^ 31) (halign : mode.pitch % 4 = 0) (text : List UInt8)
    (es : List Event) (hfits : RunFits mode (bootRun text es) (.start mode) (.start mode))
    (s : Screen) (hclosed : s.is_escape_seq = false) (m : Recorded) :
    ∃ b d, run font (bootRun text es) ⟨setMode mode s, m⟩ = .ok d ∧
      Represents font mode b d ((Terminal.start mode).run (bootRun text es)) ∧
      ∀ e ∈ (bootRun text es).getLast?, e.Redraws → Shows font mode.pitch d.video
        d.screen.framebuffer ((Terminal.start mode).run (bootRun text es)) :=
  (setMode_represents font hvalid hclosed m).run hvalid hsmall halign _ hfits

/-- A letter in red, after the change to the back buffer. -/
theorem terminal_run_xga : ∃ b d, run (fun _ => 0)
      (bootRun [65, 10] [.backBuffer 0xFFFF900000000000, .putc 27, .putc 91, .putc 51, .putc 49,
        .putc 109, .framebuffer 0xFFFFA00000000000, .putc 66, .putc 10])
      ⟨setMode xga blankScreen, blankVideo⟩ = .ok d ∧
    Represents (fun _ => 0) xga b d ((Terminal.start xga).run
      (bootRun [65, 10] [.backBuffer 0xFFFF900000000000, .putc 27, .putc 91, .putc 51, .putc 49,
        .putc 109, .framebuffer 0xFFFFA00000000000, .putc 66, .putc 10])) :=
  have hfits : RunFits xga (bootRun [65, 10] [.backBuffer 0xFFFF900000000000, .putc 27, .putc 91,
      .putc 51, .putc 49, .putc 109, .framebuffer 0xFFFFA00000000000, .putc 66, .putc 10])
      (.start xga) (.start xga) := by
    have hindex : IndexFits none 65 ∧ IndexFits none 10 ∧ IndexFits none 27 ∧
        IndexFits (some 1) 91 ∧ IndexFits (some 2) 51 ∧ IndexFits (some 3) 49 ∧
        IndexFits (some 4) 109 ∧ IndexFits none 66 := by decide
    obtain ⟨h65, h10, h27, h91, h51, h49, h109, h66⟩ := hindex
    exact ⟨h65, h10, trivial, ⟨rfl, ⟨by decide, by decide, by decide⟩⟩, h27, h91, h51, h49, h109,
      ⟨_, rfl, ⟨by decide, by decide, by decide⟩⟩, h66, h10, trivial⟩
  have ⟨b, d, hrun, h, _⟩ := terminal_run (fun _ => 0) xga ⟨by decide, by decide, by decide⟩
    (by decide) (by decide) [65, 10] _ hfits blankScreen rfl blankVideo
  ⟨b, d, hrun, h⟩

end Windozz.Gfx

import Windozz.Gfx.Screen

set_option autoImplicit false

/-! # Streams of characters

`putc` indexes two arrays with what it is fed: `escape_seq_buffer` with the length of the open
escape sequence, and `font` with the character. An escape sequence is left by `m` alone, and a
character from 128 on is negative. What matters of the screen is the length of the open sequence,
whatever its geometry (`puts_returns_iff`).
-/

namespace Windozz.Gfx

open Kernel Recorded

/-- The length of the escape sequence that is open. -/
def Screen.openEscape (s : Screen) : Option Nat :=
  if s.is_escape_seq then some s.escape_seq_size else none

/-- The index the character is used for lies in its array: in `escape_seq_buffer` while an escape
sequence is open, in `font` otherwise. Line ends and `ESC` are not used for any. -/
def IndexFits (o : Option Nat) (value : UInt8) : Prop :=
  value ≠ 13 → value ≠ 10 → value ≠ 27 →
    match o with
    | some k => k < 16
    | none => value.toNat < 128

/-- All characters of the stream are used for indices that lie in their arrays. -/
def IndexesFit : Option Nat → List UInt8 → Prop
  | _, [] => True
  | o, value :: cs => IndexFits o value ∧ IndexesFit (nextEscape value o) cs

theorem openEscape_scroll (d : Display) : (scroll d).screen.openEscape = d.screen.openEscape := rfl

section Putc

variable (font : Nat → UInt8) {value : UInt8} {d : Display}

/-- A line end, or the start of an escape sequence. -/
theorem putc_control (h : value = 13 ∨ value = 10 ∨ value = 27) :
    ∃ d', putc font value d = .ok d' ∧
      d'.screen.openEscape = nextEscape value d.screen.openEscape := by
  unfold putc
  dsimp only
  rcases h with rfl | rfl | rfl
  · rw [if_pos rfl, nextEscape_control (Or.inl rfl)]
    exact ⟨_, rfl, rfl⟩
  · rw [if_neg (by decide), if_pos rfl, nextEscape_control (Or.inr rfl)]
    split
    · exact ⟨_, rfl, openEscape_scroll _⟩
    · exact ⟨_, rfl, rfl⟩
  · have hnext : nextEscape 27 d.screen.openEscape = some 1 := by
      cases d.screen.openEscape <;> rfl
    rw [if_neg (by decide), if_neg (by decide), if_pos rfl, hnext]
    exact ⟨_, rfl, rfl⟩

variable (hreturn : value ≠ 13) (hfeed : value ≠ 10) (hescape : value ≠ 27)
include hreturn hfeed hescape

/-- A character of an escape sequence. -/
theorem putc_open (hopen : d.screen.is_escape_seq = true) :
    if d.screen.escape_seq_size < 16 then
      ∃ d', putc font value d = .ok d' ∧
        d'.screen.openEscape = nextEscape value d.screen.openEscape
    else putc font value d = .error (.escape_seq_buffer d.screen.escape_seq_size) := by
  have hnext : nextEscape value d.screen.openEscape =
      if value = 109 then none else some (d.screen.escape_seq_size + 1) := by
    rw [Screen.openEscape, if_pos hopen, nextEscape, if_neg (not_or.mpr ⟨hreturn, hfeed⟩),
      if_neg hescape]
  rw [hnext]
  unfold putc
  simp only [if_neg hreturn, if_neg hfeed, if_neg hescape, if_pos hopen]
  by_cases hsize : d.screen.escape_seq_size < 16
  · rw [if_pos hsize, if_pos hsize]
    by_cases hlast : value = 109
    · rw [if_pos hlast, if_pos hlast]
      obtain ⟨bg, fg, hparse⟩ := parseEscapeSequence_eq { d.screen with
        escape_seq_buffer := d.screen.escape_seq_buffer.set d.screen.escape_seq_size value
        is_escape_seq := false, escape_seq_size := d.screen.escape_seq_size + 1 }
      rw [hparse]
      exact ⟨_, rfl, rfl⟩
    · rw [if_neg hlast, if_neg hlast]
      exact ⟨_, rfl, if_pos hopen⟩
  · rw [if_neg hsize, if_neg hsize]

/-- A character that is drawn. -/
theorem putc_drawn (hclosed : ¬ d.screen.is_escape_seq = true) :
    if value.toNat < 128 then
      ∃ d', putc font value d = .ok d' ∧
        d'.screen.openEscape = nextEscape value d.screen.openEscape
    else putc font value d = .error (.font ((value.toNat - 256 : Int) * 16)) := by
  have hopen : d.screen.openEscape = none := if_neg hclosed
  have hnext : nextEscape value d.screen.openEscape = none := by
    rw [hopen, nextEscape, if_neg hescape]
  rw [hnext]
  unfold putc
  simp only [if_neg hreturn, if_neg hfeed, if_neg hescape, if_neg hclosed]
  by_cases hchar : value.toNat < 128
  · rw [if_pos hchar, if_neg (not_le.mpr hchar)]
    split
    · split
      · exact ⟨_, rfl, hopen⟩
      · exact ⟨_, rfl, hopen⟩
    · exact ⟨_, rfl, hopen⟩
  · rw [if_neg hchar, if_pos (not_lt.mp hchar)]

end Putc

/-- A character returns exactly when its index lies in the array. -/
theorem putc_returns (font : Nat → UInt8) (value : UInt8) (d : Display) :
    (IndexFits d.screen.openEscape value ∧ ∃ d', putc font value d = .ok d' ∧
        d'.screen.openEscape = nextEscape value d.screen.openEscape) ∨
      (¬ IndexFits d.screen.openEscape value ∧ ∃ e, putc font value d = .error e) := by
  by_cases hcontrol : value = 13 ∨ value = 10 ∨ value = 27
  · refine Or.inl ⟨fun hreturn hfeed hescape => ?_, putc_control font hcontrol⟩
    exact absurd hcontrol (not_or.mpr ⟨hreturn, not_or.mpr ⟨hfeed, hescape⟩⟩)
  obtain ⟨hreturn, hrest⟩ := not_or.mp hcontrol
  obtain ⟨hfeed, hescape⟩ := not_or.mp hrest
  by_cases hopen : d.screen.is_escape_seq = true
  · have ho : d.screen.openEscape = some d.screen.escape_seq_size := if_pos hopen
    have hrun := putc_open font hreturn hfeed hescape hopen
    by_cases hsize : d.screen.escape_seq_size < 16
    · rw [if_pos hsize] at hrun
      exact Or.inl ⟨fun _ _ _ => by rw [ho]; exact hsize, hrun⟩
    · rw [if_neg hsize] at hrun
      exact Or.inr ⟨fun hfit => by rw [ho] at hfit; exact hsize (hfit hreturn hfeed hescape),
        _, hrun⟩
  · have ho : d.screen.openEscape = none := if_neg hopen
    have hrun := putc_drawn font hreturn hfeed hescape hopen
    by_cases hchar : value.toNat < 128
    · rw [if_pos hchar] at hrun
      exact Or.inl ⟨fun _ _ _ => by rw [ho]; exact hchar, hrun⟩
    · rw [if_neg hchar] at hrun
      exact Or.inr ⟨fun hfit => by rw [ho] at hfit; exact hchar (hfit hreturn hfeed hescape),
        _, hrun⟩

/-- **Which streams stay in range.** All indices that a stream of bytes leads to lie in their arrays,
on every screen, exactly when no escape sequence outgrows its buffer and no character from 128 on is
drawn. -/
theorem puts_returns_iff (font : Nat → UInt8) (cs : List UInt8) (d : Display) :
    (∃ d', puts font cs d = .ok d') ↔ IndexesFit d.screen.openEscape cs := by
  induction cs generalizing d with
  | nil => exact ⟨fun _ => trivial, fun _ => ⟨d, rfl⟩⟩
  | cons value cs ih =>
      rw [IndexesFit, puts]
      rcases putc_returns font value d with ⟨hfit, d', hrun, hopen⟩ | ⟨hno, e, hrun⟩
      · rw [hrun, ← hopen]
        exact (ih d').trans ⟨fun h => ⟨hfit, h⟩, And.right⟩
      · rw [hrun]
        constructor
        · rintro ⟨d', h⟩
          cases h
        · exact fun h => absurd h.1 hno

/-- The seventeenth character of an escape sequence is stored behind its buffer, and the character
233 is looked up in front of the glyphs. -/
theorem puts_leaves : puts (fun _ => 0) (27 :: List.replicate 16 48) ⟨blankScreen, blankVideo⟩
      = .error (.escape_seq_buffer 16) ∧
    puts (fun _ => 0) [233] ⟨blankScreen, blankVideo⟩ = .error (.font (-368)) :=
  ⟨rfl, rfl⟩

end Windozz.Gfx

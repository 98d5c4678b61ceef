import Mathlib.Data.Nat.Bitwise
import Mathlib.Logic.Function.Basic
import Mathlib.Tactic

set_option autoImplicit false

/-! # Bitmaps

An array of bytes as a set of numbers: number `i` is bit `i % 8` of byte `i / 8`. Marking and
unmarking a number changes no other (`test_mark`, `test_unmark`), so a bitmap is determined by
the numbers in it and every later argument is about these.
-/

namespace Windozz

/-- An array of bytes read as a bitmap. -/
abbrev Bitmap := Nat → UInt8

namespace Bitmap

variable {m : Bitmap} {i j : Nat}

/-- The flag of bit `i % 8`. -/
def flag (i : Nat) : UInt8 := 1 <<< UInt8.ofNat (i % 8)

/-- Whether `i` is in the bitmap. -/
def test (m : Bitmap) (i : Nat) : Bool := m (i / 8) &&& flag i != 0

/-- The bitmap with `i` added. -/
def mark (m : Bitmap) (i : Nat) : Bitmap := Function.update m (i / 8) (m (i / 8) ||| flag i)

/-- The bitmap with `i` removed. -/
def unmark (m : Bitmap) (i : Nat) : Bitmap := Function.update m (i / 8) (m (i / 8) &&& ~~~flag i)

theorem flag_toNat (i : Nat) : (flag i).toNat = 2 ^ (i % 8) := by
  have h : ∀ k : Fin 8, ((1 : UInt8) <<< UInt8.ofNat k.val).toNat = 2 ^ k.val := by decide
  exact h ⟨i % 8, Nat.mod_lt i (by decide)⟩

/-- The test reads one bit. -/
theorem test_eq (m : Bitmap) (i : Nat) : m.test i = (m (i / 8)).toNat.testBit (i % 8) := by
  have hand : (m (i / 8) &&& flag i).toNat
      = ((m (i / 8)).toNat.testBit (i % 8)).toNat * 2 ^ (i % 8) := by
    rw [UInt8.toNat_and, flag_toNat, Nat.and_two_pow]
  have hpos : 0 < 2 ^ (i % 8) := Nat.two_pow_pos _
  cases hb : (m (i / 8)).toNat.testBit (i % 8) with
  | false =>
      rw [hb, Bool.toNat_false, Nat.zero_mul] at hand
      have hz : m (i / 8) &&& flag i = 0 := UInt8.toNat_inj.mp hand
      simp [test, hz]
  | true =>
      rw [hb, Bool.toNat_true, Nat.one_mul] at hand
      have hne : m (i / 8) &&& flag i ≠ 0 := by
        intro hz
        rw [hz] at hand
        simp at hand
        omega
      simp [test, hne]

/-- Two numbers of one byte are equal when their bits are. -/
theorem bit_eq_iff (hbyte : j / 8 = i / 8) : i % 8 = j % 8 ↔ i = j := by omega

theorem test_mark (m : Bitmap) (i j : Nat) :
    (m.mark i).test j = (m.test j || decide (i = j)) := by
  rw [test_eq, test_eq, mark]
  by_cases hbyte : j / 8 = i / 8
  · rw [hbyte, Function.update_self, UInt8.toNat_or, flag_toNat, Nat.testBit_or,
      Nat.testBit_two_pow, decide_eq_decide.mpr (bit_eq_iff hbyte)]
  · rw [Function.update_of_ne hbyte]
    have hne : i ≠ j := fun h => hbyte (by rw [h])
    simp [hne]

theorem test_unmark (m : Bitmap) (i j : Nat) :
    (m.unmark i).test j = (m.test j && !decide (i = j)) := by
  rw [test_eq, test_eq, unmark]
  by_cases hbyte : j / 8 = i / 8
  · have hbit : j % 8 < 8 := Nat.mod_lt j (by decide)
    have hflag : 2 ^ (i % 8) < 2 ^ 8 := Nat.pow_lt_pow_right (by decide) (Nat.mod_lt i (by decide))
    have hnot : (~~~flag i).toNat = 2 ^ 8 - (2 ^ (i % 8) + 1) := by
      rw [UInt8.toNat_not, flag_toNat]
      simp only [UInt8.size]
      omega
    rw [hbyte, Function.update_self, UInt8.toNat_and, hnot, Nat.testBit_and,
      Nat.testBit_two_pow_sub_succ hflag, Nat.testBit_two_pow, decide_eq_true hbit, Bool.true_and,
      decide_eq_decide.mpr (bit_eq_iff hbyte)]
  · rw [Function.update_of_ne hbyte]
    have hne : i ≠ j := fun h => hbyte (by rw [h])
    simp [hne]

/-- A byte of ones holds all its numbers. -/
theorem test_of_ones (h : m (i / 8) = 255) : m.test i = true := by
  rw [test_eq, h]
  have hbits : ∀ k : Fin 8, (255 : UInt8).toNat.testBit k.val = true := by decide
  exact hbits ⟨i % 8, Nat.mod_lt i (by decide)⟩

/-- A byte of zeros holds no number. -/
theorem test_of_zeros (h : m (i / 8) = 0) : m.test i = false := by
  rw [test_eq, h]
  exact Nat.zero_testBit _

end Bitmap

end Windozz

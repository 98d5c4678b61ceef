import Mathlib.Data.BitVec
import Mathlib.Data.Nat.Digits.Lemmas
import Windozz.Kernel.Numerals

set_option autoImplicit false

/-! # `ltoa` and `atoi`

`ltoa` writes the digits of a number from the last one on, ends the string behind them, and reverses
the digits in place. What it leaves in the buffer is the canonical numeral (`ltoa_eq`), for negative
numbers in radix 10 behind a sign. `atoi` reads a numeral back from its last digit on; all sums and
products are taken modulo `2 ^ 32`, and so is its result.
-/

namespace Windozz.Kernel

/-! ## The functions -/

/-- `strlen`, with the first `i` characters read. -/
def strlenFrom (str : Mem) : Nat → Nat → Option Nat
  | 0, _ => none
  | fuel + 1, i => if str i = 0 then some i else strlenFrom str fuel (i + 1)

/-- `strlen`. -/
def strlen (str : Mem) : Option Nat := strlenFrom str (2 ^ 64) 0

/-- The character of a digit in `ltoa`. -/
def digitChar (tmp : Nat) : UInt8 :=
  if tmp ≤ 9 then UInt8.ofNat (tmp + 48) else UInt8.ofNat (tmp - 10 + 65)

/-- The `do` loop of `ltoa`. It has no end for a radix below 2. -/
def putDigits (divider : Nat) : Nat → Nat → Nat → Mem → Option (Nat × Mem)
  | 0, _, _, _ => none
  | fuel + 1, number, i, buffer =>
      let buffer := Function.update buffer i (digitChar (number % divider))
      if number / divider = 0 then some (i + 1, buffer)
      else putDigits divider fuel (number / divider) (i + 1) buffer

/-- A round of the `while` loop of `ltoa`. -/
def swapChars (i2 i : Nat) (buffer : Mem) : Mem :=
  Function.update (Function.update buffer i2 (buffer i)) i (buffer i2)

/-- The `while` loop of `ltoa`. -/
def swapLoop : Nat → Nat → Nat → Mem → Mem
  | 0, _, _, buffer => buffer
  | fuel + 1, i2, i, buffer =>
      if i2 < i then swapLoop fuel (i2 + 1) (i - 1) (swapChars i2 i buffer) else buffer

/-- `DECIMAL` and `HEX`. -/
def DECIMAL : Nat := 10
def HEX : Nat := 16

/-- `ltoa`. A 64-bit number has 64 digits at most. -/
def ltoa (num : BitVec 64) (buffer : Mem) (radix : Nat) : Option Mem :=
  let negative : Bool := num.toInt < 0 ∧ radix = DECIMAL
  let is_negative := if negative then 1 else 0
  let buffer := if negative then Function.update buffer 0 45 else buffer
  let number := if negative then (-num).toNat else num.toNat
  match putDigits radix 64 number is_negative buffer with
  | none => none
  | some (i, buffer) =>
      let buffer := Function.update buffer i 0
      match strlen buffer with
      | none => none
      | some len => some (swapLoop len is_negative (u64 (len + (2 ^ 64 - 1))) buffer)

/-- `itoa`. -/
def itoa (num : BitVec 32) (buffer : Mem) (base : Nat) : Option Mem :=
  ltoa (num.signExtend 64 &&& 0xFFFFFFFF) buffer base

/-! ## Numerals -/

/-- The digits that `ltoa` produces, last one first. -/
def lowDigits (b n : Nat) : List Nat := if n = 0 then [0] else Nat.digits b n

/-- The canonical numeral. -/
def numeral (b n : Nat) : List UInt8 := ((lowDigits b n).map digitChar).reverse

/-- The numeral of a number as `ltoa` takes it: with a sign in radix 10, unsigned otherwise. -/
def longNumeral (num : BitVec 64) (radix : Nat) : List UInt8 :=
  if num.toInt < 0 ∧ radix = DECIMAL then 45 :: numeral radix num.toInt.natAbs
  else numeral radix num.toNat

/-! ## The digits are written -/

theorem write_nil (m : Mem) (a : Nat) : m.write a [] = m := by
  funext i
  rw [Mem.write_apply, if_neg (by simp)]

/-- Two writes in a row. -/
theorem write_append (m : Mem) (a : Nat) (bs cs : List UInt8) :
    (m.write a bs).write (a + bs.length) cs = m.write a (bs ++ cs) := by
  induction bs generalizing m a with
  | nil => rw [write_nil, List.length_nil, Nat.add_zero, List.nil_append]
  | cons b bs ih =>
      rw [Mem.write_cons, List.cons_append, Mem.write_cons, ← ih, List.length_cons,
        Nat.add_assoc, Nat.add_comm 1]

section Digits

variable {b n : Nat} (hb : 2 ≤ b)
include hb

omit hb in
theorem lowDigits_of_lt (hn : n < b) : lowDigits b n = [n] := by
  rw [lowDigits]
  by_cases hzero : n = 0
  · rw [if_pos hzero, hzero]
  · rw [if_neg hzero, Nat.digits_of_lt b n hzero hn]

theorem lowDigits_of_le (hn : b ≤ n) : lowDigits b n = n % b :: lowDigits b (n / b) := by
  have hdiv : n / b ≠ 0 := (Nat.div_pos hn (by omega)).ne'
  rw [lowDigits, if_neg (by omega), lowDigits, if_neg hdiv]
  exact Nat.digits_def' (by omega) (by omega)

theorem lowDigits_lt {d : Nat} (hd : d ∈ lowDigits b n) : d < b := by
  rw [lowDigits] at hd
  by_cases hzero : n = 0
  · rw [if_pos hzero, List.mem_singleton] at hd
    omega
  · rw [if_neg hzero] at hd
    exact Nat.digits_lt_base (by omega) hd

omit hb in
theorem ofDigits_lowDigits : Nat.ofDigits b (lowDigits b n) = n := by
  rw [lowDigits]
  by_cases hzero : n = 0
  · rw [if_pos hzero, hzero]
    rfl
  · rw [if_neg hzero, Nat.ofDigits_digits]

omit hb in
theorem lowDigits_ne_nil : lowDigits b n ≠ [] := by
  rw [lowDigits]
  by_cases hzero : n = 0
  · rw [if_pos hzero]
    exact List.cons_ne_nil _ _
  · rw [if_neg hzero]
    exact Nat.digits_ne_nil_iff_ne_zero.mpr hzero

/-- The loop writes the digits. -/
theorem putDigits_eq (fuel : Nat) : ∀ (number i : Nat) (buffer : Mem), number < 2 ^ (fuel + 1) →
    putDigits b (fuel + 1) number i buffer
      = some (i + (lowDigits b number).length,
          buffer.write i ((lowDigits b number).map digitChar)) := by
  -- the fuel counts bits, and each round divides by at least two
  induction fuel with
  | zero =>
      intro number i buffer hlt
      have hsmall : number < b := by omega
      rw [putDigits, Nat.div_eq_of_lt hsmall, Nat.mod_eq_of_lt hsmall, lowDigits_of_lt hsmall,
        if_pos rfl, List.map_singleton, Mem.write_cons, write_nil]
      rfl
  | succ fuel ih =>
      intro number i buffer hlt
      rw [putDigits]
      by_cases hsmall : number < b
      · rw [Nat.div_eq_of_lt hsmall, Nat.mod_eq_of_lt hsmall, lowDigits_of_lt hsmall,
          if_pos rfl, List.map_singleton, Mem.write_cons, write_nil]
        rfl
      · have hle := not_lt.mp hsmall
        have hdiv : number / b ≠ 0 := (Nat.div_pos hle (by omega)).ne'
        have hnext : number / b < 2 ^ (fuel + 1) := by
          have hhalf : number / b ≤ number / 2 := Nat.div_le_div_left hb (by omega)
          rw [pow_succ] at hlt
          omega
        simp only [if_neg hdiv]
        rw [ih _ _ _ hnext, lowDigits_of_le hb hle, List.map_cons, Mem.write_cons,
          List.length_cons]
        congr 2
        omega

end Digits

/-- A digit is a digit or a letter. -/
theorem digitChar_ne_zero {d : Nat} (hd : d < 36) : digitChar d ≠ 0 := by
  have hall : ∀ d < 36, digitChar d ≠ 0 := by decide
  exact hall d hd

/-! ## The digits are reversed -/

/-- `strlen` stops at the first NUL. -/
theorem strlenFrom_eq {str : Mem} {len : Nat} (hend : str len = 0) (fuel : Nat) :
    ∀ i, i ≤ len → len < i + fuel → (∀ j, i ≤ j → j < len → str j ≠ 0) →
      strlenFrom str fuel i = some len := by
  induction fuel with
  | zero =>
      intro i hi hfuel
      omega
  | succ fuel ih =>
      intro i hi hfuel hne
      rw [strlenFrom]
      by_cases hlast : i = len
      · rw [hlast, if_pos hend]
      · rw [if_neg (hne i (le_refl i) (by omega))]
        exact ih (i + 1) (by omega) (by omega) fun j hj => hne j (by omega)

theorem strlenFrom_some {str : Mem} {n : Nat} (fuel : Nat) :
    ∀ i, strlenFrom str fuel i = some n → str n = 0 ∧ ∀ j, i ≤ j → j < n → str j ≠ 0 := by
  induction fuel with
  | zero =>
      intro i h
      simp [strlenFrom] at h
  | succ fuel ih =>
      intro i h
      rw [strlenFrom] at h
      by_cases hzero : str i = 0
      · rw [if_pos hzero, Option.some.injEq] at h
        subst h
        exact ⟨hzero, fun j hij hj => by omega⟩
      · rw [if_neg hzero] at h
        obtain ⟨hend, hne⟩ := ih (i + 1) h
        refine ⟨hend, fun j hij hj => ?_⟩
        rcases Nat.eq_or_lt_of_le hij with rfl | hlt
        · exact hzero
        · exact hne j hlt hj

/-- What `strlen` stops at is the first NUL. -/
theorem strlen_some {str : Mem} {n : Nat} (h : strlen str = some n) :
    str n = 0 ∧ ∀ j, j < n → str j ≠ 0 := by
  obtain ⟨hend, hne⟩ := strlenFrom_some (2 ^ 64) 0 h
  exact ⟨hend, fun j hj => hne j (Nat.zero_le j) hj⟩

/-- `strlen` of a string in memory. -/
theorem strlen_write {m : Mem} {s : List UInt8} (h0 : 0 ∉ s) (hlen : s.length < 2 ^ 64) :
    strlen (m.write 0 (s ++ [0])) = some s.length := by
  have hget : ∀ j (hj : j < (s ++ [0]).length), m.write 0 (s ++ [0]) j = (s ++ [0])[j] := by
    intro j hj
    have hin := Mem.write_inside (m := m) (a := 0) hj
    rwa [Nat.zero_add] at hin
  refine strlenFrom_eq ?_ (2 ^ 64) 0 (Nat.zero_le _) (by omega) fun j _ hj => ?_
  · rw [hget s.length (by simp)]
    simp
  · rw [hget j (by simp; omega), List.getElem_append_left hj]
    exact fun hzero => h0 (hzero ▸ List.getElem_mem hj)

/-- The loop mirrors what lies between its two indices. -/
theorem swapLoop_apply (fuel : Nat) : ∀ (lo hi : Nat) (buffer : Mem), hi ≤ lo + 2 * fuel → ∀ j,
    swapLoop fuel lo hi buffer j
      = if lo ≤ j ∧ j ≤ hi then buffer (lo + hi - j) else buffer j := by
  induction fuel with
  | zero =>
      intro lo hi buffer hfuel j
      rw [swapLoop]
      by_cases hin : lo ≤ j ∧ j ≤ hi
      · rw [if_pos hin]
        congr 1
        omega
      · rw [if_neg hin]
  | succ fuel ih =>
      intro lo hi buffer hfuel j
      rw [swapLoop]
      by_cases hlt : lo < hi
      · rw [if_pos hlt, ih _ _ _ (by omega)]
        -- what lies strictly between the indices is mirrored by the rest of the loop
        by_cases hin : lo + 1 ≤ j ∧ j ≤ hi - 1
        · have hsum : lo + 1 + (hi - 1) - j = lo + hi - j := by omega
          rw [if_pos hin, if_pos (by omega), hsum, swapChars, Function.update_of_ne (by omega),
            Function.update_of_ne (by omega)]
        · rw [if_neg hin, swapChars]
          by_cases hhi : j = hi
          · rw [hhi, Function.update_self, if_pos (by omega), Nat.add_sub_cancel]
          · rw [Function.update_of_ne hhi]
            by_cases hlo : j = lo
            · rw [hlo, Function.update_self, if_pos (by omega), Nat.add_sub_cancel_left]
            · rw [Function.update_of_ne hlo, if_neg (by omega)]
      · rw [if_neg hlt]
        by_cases hin : lo ≤ j ∧ j ≤ hi
        · rw [if_pos hin]
          congr 1
          omega
        · rw [if_neg hin]

/-- The loop reverses the part of a text between its indices. -/
theorem swapLoop_write (m : Mem) (pre cs post : List UInt8) (hcs : cs ≠ []) {fuel : Nat}
    (hfuel : cs.length ≤ 2 * fuel) :
    swapLoop fuel pre.length (pre.length + cs.length - 1) (m.write 0 (pre ++ (cs ++ post)))
      = m.write 0 (pre ++ (cs.reverse ++ post)) := by
  have hpos := List.length_pos_of_ne_nil hcs
  funext j
  rw [swapLoop_apply _ _ _ _ (by omega)]
  simp only [Mem.write_apply, List.length_append, List.length_reverse, Nat.zero_le, true_and,
    Nat.zero_add, Nat.sub_zero, List.getD_eq_getElem?_getD]
  by_cases hin : pre.length ≤ j ∧ j ≤ pre.length + cs.length - 1
  · have hmirror : pre.length + (pre.length + cs.length - 1) - j - pre.length
        = cs.length - 1 - (j - pre.length) := by omega
    rw [if_pos hin, if_pos (by omega), if_pos (by omega), List.getElem?_append_right (by omega),
      List.getElem?_append_left (by omega), List.getElem?_append_right (by omega),
      List.getElem?_append_left (by rw [List.length_reverse]; omega),
      List.getElem?_reverse (by omega), hmirror]
  · rw [if_neg hin]
    by_cases hpre : j < pre.length
    · rw [List.getElem?_append_left hpre, List.getElem?_append_left hpre]
    · rw [List.getElem?_append_right (by omega), List.getElem?_append_right (by omega),
        List.getElem?_append_right (by omega),
        List.getElem?_append_right (by rw [List.length_reverse]; omega), List.length_reverse]

/-- A number of 64 bits has 64 digits at most. -/
theorem lowDigits_length {b n : Nat} (hb : 2 ≤ b) (hn : n < 2 ^ 64) : (lowDigits b n).length ≤ 64 := by
  rw [lowDigits]
  by_cases hzero : n = 0
  · rw [if_pos hzero]
    decide
  · rw [if_neg hzero]
    refine (Nat.digits_length_le_iff (by omega) n).mpr (lt_of_lt_of_le hn ?_)
    exact Nat.pow_le_pow_left hb 64

theorem numeral_nul {b : Nat} (hb : 2 ≤ b) (h36 : b ≤ 36) (n : Nat) : 0 ∉ numeral b n := by
  intro hmem
  obtain ⟨d, hd, hzero⟩ := List.mem_map.mp (List.mem_reverse.mp hmem)
  exact digitChar_ne_zero (lt_of_lt_of_le (lowDigits_lt hb hd) h36) hzero

/-- From the digits on, whatever is in front of them. -/
theorem ltoa_digits {radix number : Nat} (h2 : 2 ≤ radix) (h36 : radix ≤ 36)
    (hnumber : number < 2 ^ 64) (buffer : Mem) (pre : List UInt8) (hpre : 0 ∉ pre)
    (hlen : pre.length ≤ 1) :
    ∃ i b len, putDigits radix 64 number pre.length (buffer.write 0 pre) = some (i, b) ∧
      strlen (Function.update b i 0) = some len ∧
      swapLoop len pre.length (u64 (len + (2 ^ 64 - 1))) (Function.update b i 0)
        = buffer.write 0 (pre ++ (numeral radix number ++ [0])) := by
  set cs := (lowDigits radix number).map digitChar with hcs
  have hput := putDigits_eq h2 63 number pre.length (buffer.write 0 pre) hnumber
  have hne : cs ≠ [] := fun h => lowDigits_ne_nil (List.map_eq_nil_iff.mp h)
  have hcs0 : 0 ∉ cs := fun hmem => numeral_nul h2 h36 number (List.mem_reverse.mpr hmem)
  have hbound := lowDigits_length h2 hnumber
  have hclen : cs.length = (lowDigits radix number).length := List.length_map _
  have hpos := List.length_pos_of_ne_nil hne
  -- the text is ended by a NUL
  have hfirst := write_append buffer 0 pre cs
  rw [Nat.zero_add] at hfirst
  rw [hfirst] at hput
  have hend : Function.update (buffer.write 0 (pre ++ cs)) (pre.length + cs.length) 0
      = buffer.write 0 (pre ++ cs ++ [0]) := by
    have hsecond := write_append buffer 0 (pre ++ cs) [0]
    rw [Nat.zero_add, Mem.write_cons, write_nil, List.length_append] at hsecond
    exact hsecond
  rw [← hclen] at hput
  refine ⟨_, _, (pre ++ cs).length, hput, ?_, ?_⟩
  · rw [hend]
    refine strlen_write ?_ ?_
    · exact fun hmem => (List.mem_append.mp hmem).elim hpre hcs0
    · rw [List.length_append]
      omega
  · have hback : u64 ((pre ++ cs).length + (2 ^ 64 - 1)) = pre.length + cs.length - 1 := by
      rw [List.length_append, u64]
      omega
    rw [hend, hback, List.append_assoc, swapLoop_write buffer pre cs [0] hne
      (by rw [List.length_append]; omega)]
    rfl

/-- **`ltoa`** writes the numeral and the NUL behind it, and nothing else. -/
theorem ltoa_eq {radix : Nat} (h2 : 2 ≤ radix) (h36 : radix ≤ 36) (num : BitVec 64) (buffer : Mem) :
    ltoa num buffer radix = some (buffer.write 0 (longNumeral num radix ++ [0])) := by
  rw [ltoa, longNumeral]
  by_cases hneg : num.toInt < 0 ∧ radix = DECIMAL
  · have hmag : (-num).toNat = num.toInt.natAbs := by
      have hle := num.isLt
      rw [BitVec.toInt_eq_toNat_cond] at hneg ⊢
      rw [BitVec.toNat_neg]
      split at hneg <;> omega
    obtain ⟨i, b, len, hput, hstr, hswap⟩ := ltoa_digits h2 h36 (-num).isLt buffer
      [45] (by decide) (by decide)
    rw [Mem.write_cons, write_nil, List.length_singleton, hmag] at hput
    rw [List.length_singleton, hmag] at hswap
    simp only [decide_eq_true hneg, if_true, if_pos hneg, hmag, hput, hstr, hswap]
    rfl
  · obtain ⟨i, b, len, hput, hstr, hswap⟩ := ltoa_digits h2 h36 num.isLt buffer
      [] (by decide) (by decide)
    rw [write_nil, List.length_nil] at hput
    rw [List.length_nil] at hswap
    simp only [decide_eq_false hneg, Bool.false_eq_true, if_false, if_neg hneg, hput, hstr, hswap]
    rfl

theorem longNumeral_nul {radix : Nat} (h2 : 2 ≤ radix) (h36 : radix ≤ 36) (num : BitVec 64) :
    0 ∉ longNumeral num radix := by
  rw [longNumeral]
  split
  · intro hmem
    rcases List.mem_cons.mp hmem with hsign | hmem
    · exact absurd hsign (by decide)
    · exact numeral_nul h2 h36 _ hmem
  · exact numeral_nul h2 h36 _

theorem longNumeral_length {radix : Nat} (h2 : 2 ≤ radix) (num : BitVec 64) :
    (longNumeral num radix).length ≤ 65 := by
  have hnumeral : ∀ n, n < 2 ^ 64 → (numeral radix n).length ≤ 64 := by
    intro n hn
    rw [numeral, List.length_reverse, List.length_map]
    exact lowDigits_length h2 hn
  rw [longNumeral]
  split
  · have hlt : num.toInt.natAbs < 2 ^ 64 := by
      have hle := num.isLt
      rw [BitVec.toInt_eq_toNat_cond]
      split <;> omega
    have hle := hnumeral _ hlt
    rw [List.length_cons]
    omega
  · have hle := hnumeral _ num.isLt
    omega

/-- The digits in the order of their values. -/
def DIGITS : List Char :=
  ['0', '1', '2', '3', '4', '5', '6', '7', '8', '9', 'A', 'B', 'C', 'D', 'E', 'F', 'G', 'H', 'I',
    'J', 'K', 'L', 'M', 'N', 'O', 'P', 'Q', 'R', 'S', 'T', 'U', 'V', 'W', 'X', 'Y', 'Z']

/-- The character is the digit of value `d`. -/
def Denotes (c : UInt8) (d : Nat) : Prop := DIGITS[d]?.map Char.toUInt8 = some c

/-- The text is the numeral of the number in the radix: most significant digit first, without leading
zeros. -/
def CanonicalNumeral (radix n : Nat) (s : List UInt8) : Prop :=
  ∃ ds : List Nat, List.Forall₂ Denotes s ds ∧ ds ≠ [] ∧ (∀ d ∈ ds, d < radix) ∧
    Nat.ofDigits radix ds.reverse = n ∧ (ds.head? = some 0 → ds = [0])

theorem digitChar_denotes {d : Nat} (hd : d < 36) : Denotes (digitChar d) d := by
  have hall : ∀ d < 36, DIGITS[d]?.map Char.toUInt8 = some (digitChar d) := by decide
  exact hall d hd

theorem numeral_canonical {b : Nat} (hb : 2 ≤ b) (h36 : b ≤ 36) (n : Nat) :
    CanonicalNumeral b n (numeral b n) := by
  have hspelled : List.Forall₂ Denotes ((lowDigits b n).map digitChar) (lowDigits b n) := by
    rw [List.forall₂_map_left_iff, List.forall₂_same]
    exact fun d hd => digitChar_denotes (lt_of_lt_of_le (lowDigits_lt hb hd) h36)
  refine ⟨(lowDigits b n).reverse, List.rel_reverse hspelled, ?_, ?_, ?_, ?_⟩
  · exact fun h => lowDigits_ne_nil (List.reverse_eq_nil_iff.mp h)
  · exact fun d hd => lowDigits_lt hb (List.mem_reverse.mp hd)
  · rw [List.reverse_reverse, ofDigits_lowDigits]
  · rw [List.head?_reverse, lowDigits]
    by_cases hzero : n = 0
    · rw [if_pos hzero]
      exact fun _ => rfl
    · rw [if_neg hzero]
      intro hlast
      have hne : Nat.digits b n ≠ [] := Nat.digits_ne_nil_iff_ne_zero.mpr hzero
      rw [List.getLast?_eq_some_getLast hne] at hlast
      exact absurd (Option.some.inj hlast) (Nat.getLast_digit_ne_zero b hzero)

/-- **What `ltoa` leaves in the buffer**, for every number and every radix from 2 to 36: the
canonical numeral and a NUL, with a sign in front for negative numbers in radix 10. -/
theorem ltoa_canonical (num : BitVec 64) (buffer : Mem) (radix : Nat) (h2 : 2 ≤ radix)
    (h36 : radix ≤ 36) :
    ∃ text, ltoa num buffer radix = some (buffer.write 0 (text ++ [0])) ∧
      if num.toInt < 0 ∧ radix = DECIMAL then
        ∃ s, text = 45 :: s ∧ CanonicalNumeral radix num.toInt.natAbs s
      else CanonicalNumeral radix num.toNat text := by
  refine ⟨longNumeral num radix, ltoa_eq h2 h36 num buffer, ?_⟩
  rw [longNumeral]
  by_cases hneg : num.toInt < 0 ∧ radix = DECIMAL
  · rw [if_pos hneg, if_pos hneg]
    exact ⟨_, rfl, numeral_canonical h2 h36 _⟩
  · rw [if_neg hneg, if_neg hneg]
    exact numeral_canonical h2 h36 _

/-- The most negative number in radix 10. -/
theorem ltoa_canonical_min : ∃ text,
    ltoa (BitVec.intMin 64) (fun _ => 0) 10 = some (Mem.write (fun _ => 0) 0 (text ++ [0])) ∧
      if (BitVec.intMin 64).toInt < 0 ∧ 10 = DECIMAL then
        ∃ s, text = 45 :: s ∧ CanonicalNumeral 10 (BitVec.intMin 64).toInt.natAbs s
      else CanonicalNumeral 10 (BitVec.intMin 64).toNat text :=
  ltoa_canonical (BitVec.intMin 64) (fun _ => 0) 10 (by decide) (by decide)

/-! ## `atoi` -/

/-- The number that a string of digits denotes. -/
def digitsValue (ds : List UInt8) : Nat := Nat.ofDigits 10 (ds.reverse.map fun c => c.toNat - 48)

/-- `str[i] - '0'` of a digit. -/
theorem charToInt_digit {c : UInt8} (hc : isDigit c = true) :
    charToInt c - charToInt 48 = BitVec.ofNat 32 (c.toNat - 48) := by
  have hall : ∀ n : Fin 256, isDigit (UInt8.ofNat n) = true →
      charToInt (UInt8.ofNat n) - charToInt 48 = BitVec.ofNat 32 ((UInt8.ofNat n).toNat - 48) := by
    decide +kernel
  have hthis := hall ⟨c.toNat, c.toNat_lt⟩
  rw [UInt8.ofNat_toNat] at hthis
  exact hthis hc

/-- The loop adds up the digits, last one first. -/
theorem atoiLoop_eq (cs : List UInt8) (hcs : ∀ c ∈ cs, isDigit c = true) :
    ∀ value multiplier, atoiLoop cs value multiplier
      = value + multiplier * BitVec.ofNat 32 (Nat.ofDigits 10 (cs.map fun c => c.toNat - 48)) := by
  induction cs with
  | nil =>
      intro value multiplier
      simp [atoiLoop]
  | cons c cs ih =>
      intro value multiplier
      rw [atoiLoop, charToInt_digit (hcs c List.mem_cons_self),
        ih fun d hd => hcs d (List.mem_cons_of_mem _ hd), List.map_cons, Nat.ofDigits_cons,
        BitVec.ofNat_add, BitVec.ofNat_mul]
      have hten : BitVec.ofNat 32 10 = 10 := rfl
      rw [hten]
      ring

/-- A string of digits. -/
theorem atoi_digits {ds : List UInt8} (hds : ∀ c ∈ ds, isDigit c = true) :
    atoi ds = BitVec.ofInt 32 (digitsValue ds) := by
  have hhead : ds.head? ≠ some 45 := by
    intro h
    exact absurd (hds 45 (List.mem_of_mem_head? h)) (by decide)
  rw [atoi, if_neg hhead, atoiLoop_eq _ fun c hc => hds c (List.mem_reverse.mp hc), zero_add,
    one_mul, BitVec.ofInt_natCast]
  rfl

/-- A string of digits behind a sign. -/
theorem atoi_signed {ds : List UInt8} (hds : ∀ c ∈ ds, isDigit c = true) :
    atoi (45 :: ds) = BitVec.ofInt 32 (-(digitsValue ds : Int)) := by
  have hhead : (45 :: ds).head? = some 45 := rfl
  rw [atoi, if_pos hhead, List.tail_cons, atoiLoop_eq _ fun c hc => hds c (List.mem_reverse.mp hc),
    zero_add, one_mul, BitVec.ofInt_neg, BitVec.ofInt_natCast]
  rfl

/-- The decimal digits of a number. -/
theorem numeral_ten (n : Nat) :
    (∀ c ∈ numeral 10 n, isDigit c = true) ∧ digitsValue (numeral 10 n) = n := by
  have hall : ∀ d < 10, isDigit (digitChar d) = true ∧ (digitChar d).toNat - 48 = d := by decide
  have hdigit : ∀ d ∈ lowDigits 10 n, d < 10 := fun d hd => lowDigits_lt (by decide) hd
  constructor
  · intro c hc
    obtain ⟨d, hd, rfl⟩ := List.mem_map.mp (List.mem_reverse.mp hc)
    exact (hall d (hdigit d hd)).1
  · have hmap : ((lowDigits 10 n).map digitChar).map (fun c => c.toNat - 48) = lowDigits 10 n := by
      rw [List.map_map]
      conv_rhs => rw [← List.map_id (lowDigits 10 n)]
      exact List.map_congr_left fun d hd => (hall d (hdigit d hd)).2
    rw [digitsValue, numeral, List.reverse_reverse, hmap, ofDigits_lowDigits]

/-- `atoi` reads the numeral of a 32-bit number back. -/
theorem atoi_longNumeral (n : BitVec 32) : atoi (longNumeral (n.signExtend 64) DECIMAL) = n := by
  have hint : (n.signExtend 64).toInt = n.toInt := BitVec.toInt_signExtend_of_le (by decide)
  rw [longNumeral, hint]
  by_cases hneg : n.toInt < 0 ∧ DECIMAL = DECIMAL
  · obtain ⟨hdigits, hvalue⟩ := numeral_ten n.toInt.natAbs
    have habs : -(n.toInt.natAbs : Int) = n.toInt := by omega
    rw [if_pos hneg, DECIMAL, atoi_signed hdigits, hvalue, habs, BitVec.ofInt_toInt]
  · obtain ⟨hdigits, hvalue⟩ := numeral_ten (n.signExtend 64).toNat
    have hpos : ((n.signExtend 64).toNat : Int) = n.toInt := by
      rw [← hint]
      refine (BitVec.toInt_eq_toNat_of_lt ?_).symm
      have hnonneg : 0 ≤ (n.signExtend 64).toInt := by
        rw [hint]
        omega
      rw [BitVec.toInt_eq_toNat_cond] at hnonneg
      split at hnonneg <;> omega
    rw [if_neg hneg, DECIMAL, atoi_digits hdigits, hvalue, hpos, BitVec.ofInt_toInt]

/-- **`atoi`** of a string of digits, with or without a sign, is the number that it denotes modulo
`2 ^ 32`; so it inverts `ltoa` on all numbers of 32 bits. -/
theorem atoi_denotes (ds : List UInt8) (hds : ∀ c ∈ ds, isDigit c = true) (n : BitVec 32)
    (buffer : Mem) :
    atoi ds = BitVec.ofInt 32 (digitsValue ds) ∧
      atoi (45 :: ds) = BitVec.ofInt 32 (-(digitsValue ds : Int)) ∧
      ∃ text, ltoa (n.signExtend 64) buffer DECIMAL = some (buffer.write 0 (text ++ [0])) ∧
        0 ∉ text ∧ atoi text = n := by
  refine ⟨atoi_digits hds, atoi_signed hds, longNumeral (n.signExtend 64) DECIMAL,
    ltoa_eq (by decide) (by decide) _ _, ?_, atoi_longNumeral n⟩
  exact longNumeral_nul (by decide) (by decide) _

/-- `-4294967297`, and the most negative number. -/
theorem atoi_denotes_wrapped :
    atoi [52, 50, 57, 52, 57, 54, 55, 50, 57, 55] = BitVec.ofInt 32 4294967297 ∧
      atoi (45 :: [52, 50, 57, 52, 57, 54, 55, 50, 57, 55]) = BitVec.ofInt 32 (-4294967297) ∧
      ∃ text, ltoa ((BitVec.intMin 32).signExtend 64) (fun _ => 0) DECIMAL
          = some (Mem.write (fun _ => 0) 0 (text ++ [0])) ∧ 0 ∉ text ∧
        atoi text = BitVec.intMin 32 :=
  atoi_denotes [52, 50, 57, 52, 57, 54, 55, 50, 57, 55] (List.all_eq_true.mp (by decide))
    (BitVec.intMin 32) fun _ => 0

end Windozz.Kernel

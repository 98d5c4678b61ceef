import Windozz.Kernel.Acpi
import Windozz.Kernel.Debug

set_option autoImplicit false

/-! # `strcmp` and `memcmp`

`memcmp` compares plain characters, which are signed, and `strcmp` does so only if the strings have
one length; otherwise the first string counts as the smaller one, whichever it is. The results are
zero for equal strings and for no others. They are those of the lexicographic order on unsigned
bytes exactly when the first characters that differ lie on one side of `0x80`, or the lengths differ
and the first string comes first (`strcmp_orders_iff`).
-/

namespace Windozz.Kernel

open Debug (cstring cstring_eq_some cstring_write)

/-! ## The comparisons -/

/-- `strcmp`. It has no result if one of the strings has no end. -/
def strcmp (s1 s2 : Mem) : Option Int :=
  match strlen s1, strlen s2 with
  | some n1, some n2 => some (if n1 = n2 then memcmp s1 s2 n1 else -1)
  | _, _ => none

/-- A string as a list of signed characters. -/
def signedChars (s : List UInt8) : List Int := s.map charValue

/-- The result of a comparison of two byte strings has the sign of their lexicographic order. The
bytes are unsigned. -/
structure Orders (a b : List UInt8) (result : Int) : Prop where
  less : result < 0 ↔ a < b
  equal : result = 0 ↔ a = b
  greater : 0 < result ↔ b < a

/-- The first bytes that differ lie on one side of `0x80`. -/
def SameSide (a b : List UInt8) : Prop :=
  AtFirstDifference (fun x y => x < 0x80 ↔ y < 0x80) a b

/-! ## Signed characters -/

theorem charValue_eq (c : UInt8) :
    charValue c = if c.toNat < 128 then (c.toNat : Int) else (c.toNat : Int) - 256 := by
  have hint : charValue c = c.toBitVec.toInt := rfl
  have hnat : c.toBitVec.toNat = c.toNat := rfl
  rw [hint, BitVec.toInt_eq_toNat_cond, hnat]
  split
  · rw [if_pos (by omega)]
  · rw [if_neg (by omega)]
    rfl

/-- Two characters are ordered alike, signed and unsigned, on one side of `0x80` only. -/
theorem charValue_lt_iff {x y : UInt8} (hne : x ≠ y) :
    (charValue x < charValue y ↔ x < y) ↔ (x < 0x80 ↔ y < 0x80) := by
  have hx := x.toNat_lt
  have hy := y.toNat_lt
  have hnat : x.toNat ≠ y.toNat := fun h => hne (UInt8.toNat_inj.mp h)
  have hhalf : (0x80 : UInt8).toNat = 128 := rfl
  rw [charValue_eq, charValue_eq, UInt8.lt_iff_toNat_lt, UInt8.lt_iff_toNat_lt,
    UInt8.lt_iff_toNat_lt, hhalf]
  split
  · split <;> omega
  · split <;> omega

/-- Signed and unsigned bytes give strings of one length one order. -/
theorem signedChars_lt_iff {a b : List UInt8} (hlen : a.length = b.length) :
    (signedChars a < signedChars b ↔ a < b) ↔ SameSide a b := by
  have hagree := keys_agree_iff charValue_injective (Function.injective_id (α := UInt8)) hlen
  rw [List.map_id, List.map_id] at hagree
  exact hagree.trans (AtFirstDifference.congr (fun x y hne => charValue_lt_iff hne) a b)

theorem SameSide.swap {a b : List UInt8} (h : SameSide a b) : SameSide b a :=
  AtFirstDifference.swap (fun _ _ hxy => hxy.symm) h

/-! ## `memcmp` -/

theorem memcmp_swap (s1 s2 : Mem) (num : Nat) : memcmp s2 s1 num = -memcmp s1 s2 num := by
  rw [memcmp_eq, memcmp_eq, firstDifference_swap]

theorem memcmp_neg_iff (s1 s2 : Mem) (num : Nat) :
    memcmp s1 s2 num < 0 ↔ signedChars (s1.read 0 num) < signedChars (s2.read 0 num) := by
  rw [memcmp_eq]
  exact firstDifference_neg_iff charValue (by rw [Mem.read_length, Mem.read_length])

/-- Byte strings of one length. -/
theorem orders_firstDifference_iff {a b : List UInt8} (hlen : a.length = b.length) :
    Orders a b (firstDifference charValue a b) ↔ SameSide a b := by
  constructor
  · intro h
    rw [← signedChars_lt_iff hlen, ← h.less]
    exact (firstDifference_neg_iff charValue hlen).symm
  · intro h
    exact
      { less := (firstDifference_neg_iff charValue hlen).trans ((signedChars_lt_iff hlen).mpr h)
        equal := firstDifference_eq_zero_iff charValue_injective hlen
        greater := (firstDifference_pos_iff charValue hlen).trans
          ((signedChars_lt_iff hlen.symm).mpr h.swap) }

/-! ## `strcmp` -/

/-- The result of `strcmp`. -/
def stringOrder (a b : List UInt8) : Int :=
  if a.length = b.length then firstDifference charValue a b else -1

theorem strcmp_eq {s1 s2 : Mem} {a b : List UInt8} (ha : cstring s1 = some a)
    (hb : cstring s2 = some b) : strcmp s1 s2 = some (stringOrder a b) := by
  obtain ⟨hlen1, hread1⟩ := cstring_eq_some ha
  obtain ⟨hlen2, hread2⟩ := cstring_eq_some hb
  rw [strcmp, hlen1, hlen2, stringOrder]
  simp only
  by_cases hlen : a.length = b.length
  · rw [if_pos hlen, if_pos hlen, memcmp_eq, hread1, hlen, hread2]
  · rw [if_neg hlen, if_neg hlen]

section Strings

variable {a b c : List UInt8}

theorem stringOrder_eq_zero_iff : stringOrder a b = 0 ↔ a = b := by
  rw [stringOrder]
  by_cases hlen : a.length = b.length
  · rw [if_pos hlen]
    exact firstDifference_eq_zero_iff charValue_injective hlen
  · rw [if_neg hlen]
    exact iff_of_false (by decide) fun heq => hlen (congrArg List.length heq)

/-- The sign of the result, on strings of one length and on others. -/
theorem stringOrder_neg_iff :
    stringOrder a b < 0 ↔ (a.length = b.length → signedChars a < signedChars b) := by
  rw [stringOrder]
  by_cases hlen : a.length = b.length
  · rw [if_pos hlen, firstDifference_neg_iff charValue hlen]
    exact ⟨fun h _ => h, fun h => h hlen⟩
  · rw [if_neg hlen]
    exact iff_of_true (by decide) fun h => absurd h hlen

theorem orders_stringOrder_iff :
    Orders a b (stringOrder a b) ↔ if a.length = b.length then SameSide a b else a < b := by
  by_cases hlen : a.length = b.length
  · rw [if_pos hlen, stringOrder, if_pos hlen]
    exact orders_firstDifference_iff hlen
  · rw [if_neg hlen]
    have hneg : stringOrder a b < 0 := stringOrder_neg_iff.mpr fun h => absurd h hlen
    constructor
    · intro h
      exact h.less.mp hneg
    · intro hlt
      exact
        { less := iff_of_true hneg hlt
          equal := stringOrder_eq_zero_iff
          greater := iff_of_false (by omega) (List.lt_asymm hlt) }

/-- Strings of different lengths are each smaller than the other. -/
theorem stringOrder_opposite_iff :
    (stringOrder a b).sign = -(stringOrder b a).sign ↔ a.length = b.length := by
  by_cases hlen : a.length = b.length
  · rw [stringOrder, stringOrder, if_pos hlen, if_pos hlen.symm, firstDifference_swap charValue b a,
      Int.sign_neg]
    exact iff_of_true rfl hlen
  · rw [stringOrder, stringOrder, if_neg hlen, if_neg (Ne.symm hlen)]
    exact iff_of_false (by decide) hlen

/-- What is smaller than something smaller is smaller, but for two strings of one length and one of
another between them. -/
theorem stringOrder_trans_iff :
    (stringOrder a b < 0 → stringOrder b c < 0 → stringOrder a c < 0) ↔
      (a.length = c.length → b.length ≠ a.length → signedChars a < signedChars c) := by
  simp only [stringOrder_neg_iff]
  constructor
  · intro h hac hba
    exact h (fun hab => absurd hab.symm hba) (fun hbc => absurd (hbc.trans hac.symm) hba) hac
  · intro h hab hbc hac
    by_cases hba : b.length = a.length
    · exact (hab hba.symm).trans (hbc (hba.trans hac))
    · exact h hac hba

end Strings

/-- **The laws of `strcmp` and `memcmp`.** Zero for equal strings only is without exception; each of
the others has its own. -/
theorem strcmp_orders_iff {s1 s2 s3 : Mem} {a b c : List UInt8} (ha : cstring s1 = some a)
    (hb : cstring s2 = some b) (hc : cstring s3 = some c) :
    (∃ ab ba bc ac : Int, strcmp s1 s2 = some ab ∧ strcmp s2 s1 = some ba ∧
      strcmp s2 s3 = some bc ∧ strcmp s1 s3 = some ac ∧
      (Orders a b ab ↔ if a.length = b.length then SameSide a b else a < b) ∧
      (ab = 0 ↔ a = b) ∧
      (ab.sign = -ba.sign ↔ a.length = b.length) ∧
      ((ab < 0 → bc < 0 → ac < 0) ↔
        (a.length = c.length → b.length ≠ a.length → signedChars a < signedChars c))) ∧
    ∀ (m1 m2 m3 : Mem) (num : Nat),
      (Orders (m1.read 0 num) (m2.read 0 num) (memcmp m1 m2 num) ↔
        SameSide (m1.read 0 num) (m2.read 0 num)) ∧
      memcmp m2 m1 num = -memcmp m1 m2 num ∧
      (memcmp m1 m2 num < 0 → memcmp m2 m3 num < 0 → memcmp m1 m3 num < 0) := by
  constructor
  · exact ⟨stringOrder a b, stringOrder b a, stringOrder b c, stringOrder a c, strcmp_eq ha hb,
      strcmp_eq hb ha, strcmp_eq hb hc, strcmp_eq ha hc, orders_stringOrder_iff,
      stringOrder_eq_zero_iff, stringOrder_opposite_iff, stringOrder_trans_iff⟩
  · intro m1 m2 m3 num
    refine ⟨?_, memcmp_swap m1 m2 num, fun h12 h23 => ?_⟩
    · rw [memcmp_eq]
      exact orders_firstDifference_iff (by rw [Mem.read_length, Mem.read_length])
    · rw [memcmp_neg_iff] at h12 h23 ⊢
      exact h12.trans h23

/-- A string followed by nothing but NULs. -/
def stringAt (s : List UInt8) : Mem := Mem.write (fun _ => 0) 0 (s ++ [0])

/-- `"B"`, `"AB"` and `"A"`. -/
theorem strcmp_orders_short :
    (∃ ab ba bc ac : Int, strcmp (stringAt [66]) (stringAt [65, 66]) = some ab ∧
      strcmp (stringAt [65, 66]) (stringAt [66]) = some ba ∧
      strcmp (stringAt [65, 66]) (stringAt [65]) = some bc ∧
      strcmp (stringAt [66]) (stringAt [65]) = some ac ∧
      (Orders [66] [65, 66] ab ↔ if [66].length = [65, 66].length then SameSide [66] [65, 66]
        else ([66] : List UInt8) < [65, 66]) ∧
      (ab = 0 ↔ ([66] : List UInt8) = [65, 66]) ∧
      (ab.sign = -ba.sign ↔ [66].length = [65, 66].length) ∧
      ((ab < 0 → bc < 0 → ac < 0) ↔ ([66].length = [65].length → [65, 66].length ≠ [66].length →
        signedChars [66] < signedChars [65]))) ∧
    ∀ (m1 m2 m3 : Mem) (num : Nat),
      (Orders (m1.read 0 num) (m2.read 0 num) (memcmp m1 m2 num) ↔
        SameSide (m1.read 0 num) (m2.read 0 num)) ∧
      memcmp m2 m1 num = -memcmp m1 m2 num ∧
      (memcmp m1 m2 num < 0 → memcmp m2 m3 num < 0 → memcmp m1 m3 num < 0) :=
  strcmp_orders_iff (cstring_write (by decide) (by decide)) (cstring_write (by decide) (by decide))
    (cstring_write (by decide) (by decide))

/-- `"B"` and `"AB"` are each smaller than the other, `"B"` is smaller than `"AB"` and `"AB"` smaller
than `"A"` but `"B"` is not smaller than `"A"`, and `0x80` comes in front of `"A"`. -/
theorem strcmp_misorders :
    (strcmp (stringAt [66]) (stringAt [65, 66]) = some (-1) ∧
      strcmp (stringAt [65, 66]) (stringAt [66]) = some (-1) ∧
      ¬ Orders [66] [65, 66] (-1)) ∧
    (strcmp (stringAt [65, 66]) (stringAt [65]) = some (-1) ∧
      strcmp (stringAt [66]) (stringAt [65]) = some 1) ∧
    (strcmp (stringAt [0x80]) (stringAt [65]) = some (-193) ∧ ¬ Orders [0x80] [65] (-193)) ∧
    (memcmp (stringAt [0x80]) (stringAt [65]) 1 = -193 ∧
      ¬ Orders ((stringAt [0x80]).read 0 1) ((stringAt [65]).read 0 1) (-193)) := by
  have hstring : ∀ s : List UInt8, 0 ∉ s → s.length < 2 ^ 64 → cstring (stringAt s) = some s :=
    fun s h0 hlen => cstring_write h0 hlen
  have hB := hstring [66] (by decide) (by decide)
  have hAB := hstring [65, 66] (by decide) (by decide)
  have hA := hstring [65] (by decide) (by decide)
  have h80 := hstring [0x80] (by decide) (by decide)
  refine ⟨⟨?_, ?_, ?_⟩, ⟨?_, ?_⟩, ⟨?_, ?_⟩, ?_, ?_⟩
  · rw [strcmp_eq hB hAB]
    decide
  · rw [strcmp_eq hAB hB]
    decide
  · exact fun h => absurd (h.less.mp (by decide)) (by decide)
  · rw [strcmp_eq hAB hA]
    decide
  · rw [strcmp_eq hB hA]
    decide
  · rw [strcmp_eq h80 hA]
    decide
  · exact fun h => absurd (h.less.mp (by decide)) (by decide)
  · decide
  · exact fun h => absurd (h.less.mp (by decide)) (by decide)

end Windozz.Kernel

import Mathlib.Data.List.Basic
import Mathlib.Logic.Function.Basic
import Mathlib.Tactic

set_option autoImplicit false

/-! # Byte memories and little-endian numbers

A memory is a function from addresses to bytes. The file gives reading and writing of
byte strings (`Mem.read`, `Mem.write`), the little-endian codec (`toLE`, `ofLE`) and the
64-bit load and store built from them. Disk images and physical memory are both read and
written through these operations, so the two facts every proof needs, that a write is
read back and that it is invisible elsewhere, are stated here once.
-/

namespace Windozz

/-- A value as a 64-bit machine word. -/
def u64 (x : Nat) : Nat := x % 2 ^ 64

theorem u64_of_lt {x : Nat} (h : x < 2 ^ 64) : u64 x = x := Nat.mod_eq_of_lt h

theorem u64_lt (x : Nat) : u64 x < 2 ^ 64 := Nat.mod_lt _ (by decide)

/-- A value as a 16-bit machine word. -/
def u16 (x : Nat) : Nat := x % 2 ^ 16

theorem u16_of_lt {x : Nat} (h : x < 2 ^ 16) : u16 x = x := Nat.mod_eq_of_lt h

theorem u16_lt (x : Nat) : u16 x < 2 ^ 16 := Nat.mod_lt _ (by decide)

/-! ## Little-endian numbers -/

/-- The `n` low bytes of `x`, least significant first. -/
def toLE : Nat → Nat → List UInt8
  | 0, _ => []
  | n + 1, x => UInt8.ofNat x :: toLE n (x / 256)

/-- The number with the little-endian bytes `bs`. -/
def ofLE : List UInt8 → Nat
  | [] => 0
  | b :: bs => b.toNat + 256 * ofLE bs

@[simp] theorem toLE_length (n x : Nat) : (toLE n x).length = n := by
  induction n generalizing x with
  | zero => rfl
  | succ n ih => simp [toLE, ih]

theorem ofLE_toLE (n x : Nat) : ofLE (toLE n x) = x % 256 ^ n := by
  induction n generalizing x with
  | zero => simp [toLE, ofLE, Nat.mod_one]
  | succ n ih =>
      have hb : (UInt8.ofNat x).toNat = x % 256 := by simp
      rw [toLE, ofLE, ih, hb, pow_succ, Nat.mul_comm (256 ^ n), Nat.mod_mul]

theorem toLE_getElem? (n x i : Nat) :
    (toLE n x)[i]? = if i < n then some (UInt8.ofNat (x / 256 ^ i)) else none := by
  induction n generalizing x i with
  | zero => simp [toLE]
  | succ n ih =>
      cases i with
      | zero => simp [toLE]
      | succ i =>
          rw [toLE, List.getElem?_cons_succ, ih, Nat.div_div_eq_div_mul, ← Nat.pow_succ']
          simp

theorem ofLE_lt (bs : List UInt8) : ofLE bs < 256 ^ bs.length := by
  induction bs with
  | nil => simp [ofLE]
  | cons b bs ih =>
      have hb : b.toNat < 256 := b.toNat_lt
      rw [ofLE, List.length_cons, pow_succ]
      omega

/-! ## Byte memories -/

/-- A byte-addressed memory. -/
abbrev Mem := Nat → UInt8

namespace Mem

variable {m m' : Mem} {a b n k : Nat} {bs : List UInt8}

/-- The `n` bytes from address `a` on. -/
def read (m : Mem) (a : Nat) : Nat → List UInt8
  | 0 => []
  | n + 1 => m a :: read m (a + 1) n

/-- The memory with the bytes `bs` stored from address `a` on. -/
def write (m : Mem) (a : Nat) (bs : List UInt8) : Mem :=
  fun i => if a ≤ i ∧ i < a + bs.length then bs.getD (i - a) 0 else m i

@[simp] theorem read_zero (m : Mem) (a : Nat) : m.read a 0 = [] := rfl

@[simp] theorem read_length (m : Mem) (a n : Nat) : (m.read a n).length = n := by
  induction n generalizing a with
  | zero => rfl
  | succ n ih => simp [read, ih]

theorem read_getElem? (m : Mem) (a n i : Nat) :
    (m.read a n)[i]? = if i < n then some (m (a + i)) else none := by
  induction n generalizing a i with
  | zero => simp
  | succ n ih =>
      cases i with
      | zero => simp [read]
      | succ i => simp [read, ih, Nat.add_assoc, Nat.add_comm 1 i]

theorem read_congr (h : ∀ i, i < n → m (a + i) = m' (b + i)) : m.read a n = m'.read b n := by
  apply List.ext_getElem?
  intro i
  rw [read_getElem?, read_getElem?]
  by_cases hi : i < n
  · simp [hi, h i hi]
  · simp [hi]

theorem eq_of_read_eq (h : m.read a n = m'.read b n) {i : Nat} (hi : i < n) :
    m (a + i) = m' (b + i) := by
  have hget : (m.read a n)[i]? = (m'.read b n)[i]? := by rw [h]
  rw [read_getElem?, read_getElem?, if_pos hi, if_pos hi] at hget
  exact Option.some.inj hget

theorem read_add (m : Mem) (a n k : Nat) : m.read a (n + k) = m.read a n ++ m.read (a + n) k := by
  induction n generalizing a with
  | zero => simp
  | succ n ih =>
      rw [Nat.add_right_comm, read, ih, read, List.cons_append, Nat.add_right_comm a 1 n, Nat.add_assoc]

theorem read_take (m : Mem) (a : Nat) (h : k ≤ n) : (m.read a n).take k = m.read a k := by
  obtain ⟨d, rfl⟩ := Nat.exists_eq_add_of_le h
  rw [read_add, List.take_left' (read_length m a k)]

theorem write_apply (m : Mem) (a : Nat) (bs : List UInt8) (i : Nat) :
    m.write a bs i = if a ≤ i ∧ i < a + bs.length then bs.getD (i - a) 0 else m i := rfl

theorem write_outside (h : b < a ∨ a + bs.length ≤ b) : m.write a bs b = m b := by
  rw [write_apply, if_neg (by omega)]

theorem write_inside {i : Nat} (h : i < bs.length) : m.write a bs (a + i) = bs[i] := by
  rw [write_apply, if_pos (by omega), Nat.add_sub_cancel_left, List.getD_eq_getElem?_getD,
    List.getElem?_eq_getElem h, Option.getD_some]

/-- A write stores one byte after the other. -/
theorem write_cons (m : Mem) (a : Nat) (b : UInt8) (bs : List UInt8) :
    m.write a (b :: bs) = Mem.write (Function.update m a b) (a + 1) bs := by
  funext i
  rw [write_apply, write_apply, List.length_cons]
  rcases Nat.lt_trichotomy i a with hi | rfl | hi
  · rw [if_neg (by omega), if_neg (by omega), Function.update_of_ne (by omega)]
  · rw [if_pos (by omega), if_neg (by omega), Function.update_self, Nat.sub_self]
    rfl
  · obtain ⟨d, rfl⟩ := Nat.exists_eq_add_of_lt hi
    rw [Function.update_of_ne (by omega), Nat.add_assoc a d 1, Nat.add_sub_cancel_left,
      Nat.add_comm d 1, ← Nat.add_assoc, Nat.add_sub_cancel_left, Nat.add_comm 1 d,
      List.getD_cons_succ]
    by_cases hd : d < bs.length
    · rw [if_pos (by omega), if_pos (by omega)]
    · rw [if_neg (by omega), if_neg (by omega)]

/-- What was written is read back. -/
theorem read_write_same (m : Mem) (a : Nat) (bs : List UInt8) :
    (m.write a bs).read a bs.length = bs := by
  apply List.ext_getElem?
  intro i
  rw [read_getElem?]
  by_cases hi : i < bs.length
  · rw [if_pos hi, write_inside hi, List.getElem?_eq_getElem hi]
  · rw [if_neg hi, List.getElem?_eq_none (by omega)]

/-- A part of what was written is read back. -/
theorem read_write_slice (m : Mem) (a : Nat) (h : k + n ≤ bs.length) :
    (m.write a bs).read (a + k) n = (bs.drop k).take n := by
  apply List.ext_getElem?
  intro i
  rw [read_getElem?, List.getElem?_take, List.getElem?_drop]
  by_cases hi : i < n
  · rw [if_pos hi, if_pos hi, Nat.add_assoc, write_inside (by omega), List.getElem?_eq_getElem]
  · rw [if_neg hi, if_neg hi]

/-- A write is invisible to a read of other addresses. -/
theorem read_write_disjoint (h : b + n ≤ a ∨ a + bs.length ≤ b) :
    (m.write a bs).read b n = m.read b n :=
  read_congr fun i hi => write_outside (by omega)

/-! ### 64-bit words -/

/-- The 64-bit little-endian word at address `a`. -/
def qword (m : Mem) (a : Nat) : Nat := ofLE (m.read a 8)

/-- The memory with the 64-bit word `x` stored at address `a`. -/
def setQword (m : Mem) (a x : Nat) : Mem := m.write a (toLE 8 x)

theorem qword_lt (m : Mem) (a : Nat) : m.qword a < 2 ^ 64 := by
  have h := ofLE_lt (m.read a 8)
  rw [read_length] at h
  exact lt_of_lt_of_eq h (by norm_num)

theorem qword_congr (h : ∀ i, i < 8 → m (a + i) = m' (b + i)) : m.qword a = m'.qword b :=
  congrArg ofLE (read_congr h)

theorem qword_write_disjoint (h : b + 8 ≤ a ∨ a + bs.length ≤ b) :
    (m.write a bs).qword b = m.qword b :=
  congrArg ofLE (read_write_disjoint h)

theorem qword_setQword_same (m : Mem) (a x : Nat) : (m.setQword a x).qword a = u64 x := by
  have h : (m.setQword a x).read a 8 = toLE 8 x := by
    simpa [setQword] using read_write_same m a (toLE 8 x)
  rw [qword, h, ofLE_toLE, u64]
  norm_num

theorem qword_setQword_disjoint {x : Nat} (h : b + 8 ≤ a ∨ a + 8 ≤ b) :
    (m.setQword a x).qword b = m.qword b :=
  qword_write_disjoint (by simpa using h)

theorem setQword_outside {x : Nat} (h : b < a ∨ a + 8 ≤ b) : m.setQword a x b = m b :=
  write_outside (by simpa using h)

/-- The memory with the words `w`. -/
def ofWords (w : Nat → Nat) : Mem := fun a => UInt8.ofNat (w (a / 8) / 256 ^ (a % 8))

theorem qword_ofWords (w : Nat → Nat) (j : Nat) : (ofWords w).qword (8 * j) = u64 (w j) := by
  have hread : (ofWords w).read (8 * j) 8 = toLE 8 (w j) := by
    apply List.ext_getElem?
    intro i
    rw [read_getElem?, toLE_getElem?]
    by_cases hi : i < 8
    · have hdiv : (8 * j + i) / 8 = j := by omega
      have hmod : (8 * j + i) % 8 = i := by omega
      rw [if_pos hi, if_pos hi, ofWords, hdiv, hmod]
    · rw [if_neg hi, if_neg hi]
  rw [qword, hread, ofLE_toLE, u64]
  norm_num

/-- A word of zero bytes is zero. -/
theorem qword_eq_zero (h : ∀ i, i < 8 → m (a + i) = 0) : m.qword a = 0 := by
  have hz : m.read a 8 = Mem.read (fun _ => 0) 0 8 := read_congr (by simpa using h)
  rw [qword, hz]
  rfl

end Mem

end Windozz

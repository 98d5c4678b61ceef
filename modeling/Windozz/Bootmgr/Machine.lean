import Windozz.Basic.Bytes

set_option autoImplicit false

/-! # The machine of the boot manager

What stage 2 uses of the processor: 32-bit registers, double words in memory, the unsigned division
with its fault, and `rep movsb`. Memory is flat: in 16-bit mode all segments are 0.
-/

namespace Windozz.Bootmgr

/-- A value as a 32-bit register. -/
def u32 (x : Nat) : Nat := x % 2 ^ 32

theorem u32_of_lt {x : Nat} (h : x < 2 ^ 32) : u32 x = x := Nat.mod_eq_of_lt h

theorem u32_lt (x : Nat) : u32 x < 2 ^ 32 := Nat.mod_lt _ (by decide)

/-- The buffer that sectors are read into. -/
def DISK_BUFFER : Nat := 0x8000

/-! ## Double words -/

/-- The double word at address `a`. -/
def dword (m : Mem) (a : Nat) : Nat := ofLE (m.read a 4)

theorem dword_lt (m : Mem) (a : Nat) : dword m a < 2 ^ 32 := by
  have h := ofLE_lt (m.read a 4)
  rw [Mem.read_length] at h
  exact lt_of_lt_of_eq h (by norm_num)

theorem dword_congr {m m' : Mem} {a b : Nat} (h : ∀ i, i < 4 → m (a + i) = m' (b + i)) :
    dword m a = dword m' b := congrArg ofLE (Mem.read_congr h)

theorem ofLE_append (bs cs : List UInt8) :
    ofLE (bs ++ cs) = ofLE bs + 256 ^ bs.length * ofLE cs := by
  induction bs with
  | nil => simp [ofLE]
  | cons b bs ih =>
      rw [List.cons_append, ofLE, ofLE, ih, List.length_cons, pow_succ]
      ring

/-- A 64-bit word is two double words. -/
theorem qword_eq_dwords (m : Mem) (a : Nat) :
    m.qword a = dword m a + 2 ^ 32 * dword m (a + 4) := by
  have hsplit := Mem.read_add m a 4 4
  rw [Mem.qword, hsplit, ofLE_append, Mem.read_length, dword, dword]
  norm_num

theorem dword_low (m : Mem) (a : Nat) : dword m a = m.qword a % 2 ^ 32 := by
  have hlt := dword_lt m a
  rw [qword_eq_dwords]
  omega

theorem dword_high (m : Mem) (a : Nat) : dword m (a + 4) = m.qword a / 2 ^ 32 := by
  have hlt := dword_lt m a
  rw [qword_eq_dwords]
  omega

/-! ## Division -/

/-- `div ebx`: the quotient and the remainder of `edx:eax`, or the fault. -/
def div32 (edx eax ebx : Nat) : Option (Nat × Nat) :=
  if ebx = 0 then none
  else if 2 ^ 32 ≤ (edx * 2 ^ 32 + eax) / ebx then none
  else some ((edx * 2 ^ 32 + eax) / ebx, (edx * 2 ^ 32 + eax) % ebx)

/-- The quotient rounded up. -/
def ceilDiv (n d : Nat) : Nat := n / d + if n % d = 0 then 0 else 1

theorem ceilDiv_le_iff {n d k : Nat} (hd : 0 < d) : ceilDiv n d ≤ k ↔ n ≤ k * d := by
  have hdm := Nat.div_add_mod n d
  have hmod := Nat.mod_lt n hd
  unfold ceilDiv
  constructor
  · intro h
    calc n = d * (n / d) + n % d := hdm.symm
      _ ≤ d * (n / d + if n % d = 0 then 0 else 1) := by
          split
          · rw [Nat.add_zero]
            omega
          · rw [Nat.mul_add]
            omega
      _ ≤ d * k := Nat.mul_le_mul_left d h
      _ = k * d := Nat.mul_comm d k
  · intro h
    split
    · exact (Nat.div_le_iff_le_mul_add_pred hd).mpr (by rw [Nat.mul_comm]; omega)
    · rename_i hne
      by_contra hlt
      have hle : k * d ≤ n / d * d := Nat.mul_le_mul_right d (by omega)
      rw [Nat.mul_comm d] at hdm
      omega

/-- Numbers that round up to the same quotient are less than the divisor apart. -/
theorem ceilDiv_eq_lt {n n' d : Nat} (hd : 0 < d) (h : ceilDiv n d = ceilDiv n' d) :
    n < n' + d := by
  have hle := (ceilDiv_le_iff hd).mp (le_of_eq h)
  have hdm := Nat.div_add_mod n' d
  rw [Nat.mul_comm d] at hdm
  unfold ceilDiv at hle
  split at hle
  · rw [Nat.add_zero] at hle
    omega
  · rw [Nat.succ_mul] at hle
    omega

/-! ## `rep movsb` -/

/-- `rep movsb` with the direction flag clear. -/
def repMovsb : Nat → Nat → Nat → Mem → Mem
  | 0, _, _, m => m
  | ecx + 1, esi, edi, m =>
      repMovsb ecx (u32 (esi + 1)) (u32 (edi + 1)) (Function.update m edi (m esi))

/-- Copying a range onto itself changes nothing. -/
theorem repMovsb_self (n : Nat) : ∀ (a : Nat) (m : Mem), repMovsb n a a m = m := by
  induction n with
  | zero => exact fun _ _ => rfl
  | succ n ih =>
      intro a m
      rw [repMovsb, Function.update_eq_self]
      exact ih _ _

theorem u32_succ (d i : Nat) : u32 (u32 (d + 1) + i) = u32 (d + (i + 1)) := by
  unfold u32
  omega

/-- What a copy leaves, when the destination does not meet the source. -/
structure Copies (m m' : Mem) (src dst n : Nat) : Prop where
  copied : ∀ i, i < n → m' (u32 (dst + i)) = m (src + i)
  frame : ∀ a, (∀ i, i < n → a ≠ u32 (dst + i)) → m' a = m a

theorem repMovsb_copies (n : Nat) : ∀ (src dst : Nat) (m : Mem), dst < 2 ^ 32 →
    src + n ≤ 2 ^ 32 → (∀ i j, i < n → j < n → u32 (dst + i) ≠ src + j) →
    Copies m (repMovsb n src dst m) src dst n := by
  induction n with
  | zero => exact fun _ _ m _ _ _ => ⟨fun i hi => by omega, fun a _ => rfl⟩
  | succ n ih =>
      intro src dst m hdst hsrc hdisj
      have hzero : u32 (dst + 0) = dst := u32_of_lt hdst
      have hne : ∀ i, i < n → dst ≠ u32 (dst + (i + 1)) := by
        intro i hi
        unfold u32
        omega
      rw [repMovsb]
      by_cases hlast : n = 0
      · subst hlast
        refine ⟨fun i hi => ?_, fun a ha => ?_⟩
        · obtain rfl : i = 0 := by omega
          rw [hzero, repMovsb, Function.update_self]
          rfl
        · exact Function.update_of_ne (by have := ha 0 (by omega); rwa [hzero] at this) _ _
      · have hnext : u32 (src + 1) = src + 1 := u32_of_lt (by omega)
        rw [hnext]
        -- the first byte is stored where nothing is read from or written to later on
        obtain ⟨hcopied, hframe⟩ := ih (src + 1) (u32 (dst + 1))
          (Function.update m dst (m src)) (u32_lt _) (by omega) (by
            intro i j hi hj
            rw [u32_succ, Nat.add_right_comm, Nat.add_assoc]
            exact hdisj (i + 1) (j + 1) (by omega) (by omega))
        refine ⟨fun i hi => ?_, fun a ha => ?_⟩
        · cases i with
          | zero =>
              rw [hzero, hframe dst fun i hi => by rw [u32_succ]; exact hne i hi,
                Function.update_self]
              rfl
          | succ i =>
              have hsrcne : src + 1 + i ≠ dst := by
                have := hdisj 0 (i + 1) (by omega) hi
                rw [hzero] at this
                omega
              have hbyte := hcopied i (by omega)
              rw [u32_succ, Function.update_of_ne hsrcne] at hbyte
              rw [hbyte, Nat.add_right_comm, Nat.add_assoc]
        · rw [hframe a fun i hi => by rw [u32_succ]; exact ha (i + 1) (by omega)]
          exact Function.update_of_ne (by have := ha 0 (by omega); rwa [hzero] at this) _ _

end Windozz.Bootmgr

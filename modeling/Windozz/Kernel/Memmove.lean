import Mathlib.Data.BitVec
import Windozz.Basic.Recorded

set_option autoImplicit false

/-! # `memmove`

The loop goes from the first byte to the last, whatever the distance of the two ranges. Where the
destination begins inside the source it reads back what it has written, so that the bytes in front
of the destination are repeated (`memmove_rounds`). This is a copy of the source only if the source
repeats them itself (`memmove_moves_iff`).
-/

namespace Windozz.Kernel

/-- The bytes of the address space. Addresses wrap. -/
abbrev Ram := BitVec 64 → UInt8

/-- A round of `memmove`: `dest[i] = src[i];`. -/
def moveByte (destination source : BitVec 64) (i : Nat) (m : Ram) : Ram :=
  Function.update m (destination + BitVec.ofNat 64 i) (m (source + BitVec.ofNat 64 i))

/-- `memmove`. -/
def memmove (destination source num : BitVec 64) (m : Ram) : Ram :=
  forUpTo (moveByte destination source) num.toNat m

/-- The destination holds the bytes the source had, and nothing else has changed. -/
structure Moved (destination source num : BitVec 64) (m m' : Ram) : Prop where
  copied : ∀ i, i < num.toNat →
    m' (destination + BitVec.ofNat 64 i) = m (source + BitVec.ofNat 64 i)
  others : ∀ a, (∀ i, i < num.toNat → a ≠ destination + BitVec.ofNat 64 i) → m' a = m a

section Rounds

variable {destination source : BitVec 64}

/-- Offsets below the size of the address space lead to different addresses. -/
theorem offset_inj {i j : Nat} (hi : i < 2 ^ 64) (hj : j < 2 ^ 64)
    (h : destination + BitVec.ofNat 64 i = destination + BitVec.ofNat 64 j) : i = j := by
  have heq := congrArg BitVec.toNat (add_left_cancel h)
  rwa [BitVec.toNat_ofNat, BitVec.toNat_ofNat, Nat.mod_eq_of_lt hi, Nat.mod_eq_of_lt hj] at heq

/-- The source in front of the destination has not been written yet. -/
theorem source_ahead {k : Nat} (hk : k < 2 ^ 64)
    (hahead : (destination - source).toNat = 0 ∨ k < (destination - source).toNat) :
    ∀ j, j < k → source + BitVec.ofNat 64 k ≠ destination + BitVec.ofNat 64 j := by
  intro j hj heq
  have hdist : BitVec.ofNat 64 k = (destination - source) + BitVec.ofNat 64 j := by
    rw [sub_add_eq_add_sub, ← heq, add_sub_cancel_left]
  have hnat := congrArg BitVec.toNat hdist
  have hlt := (destination - source).isLt
  rw [BitVec.toNat_add, BitVec.toNat_ofNat, BitVec.toNat_ofNat, Nat.mod_eq_of_lt hk,
    Nat.mod_eq_of_lt (by omega : j < 2 ^ 64)] at hnat
  omega

/-- Further on, the source is what the destination was some rounds ago. -/
theorem source_behind {k : Nat} (hk : (destination - source).toNat ≤ k) :
    source + BitVec.ofNat 64 k
      = destination + BitVec.ofNat 64 (k - (destination - source).toNat) := by
  have hsplit : BitVec.ofNat 64 k = (destination - source)
      + BitVec.ofNat 64 (k - (destination - source).toNat) := by
    conv_lhs => rw [← Nat.add_sub_cancel' hk, BitVec.ofNat_add, BitVec.ofNat_toNat,
      BitVec.setWidth_eq]
  rw [hsplit, ← add_assoc, add_sub_cancel]

/-- The first rounds copy the bytes in front of the destination over and over. -/
theorem memmove_rounds (destination source : BitVec 64) (m : Ram) (k : Nat) (hk : k ≤ 2 ^ 64) :
    (∀ j, j < k → forUpTo (moveByte destination source) k m (destination + BitVec.ofNat 64 j)
        = m (source + BitVec.ofNat 64 (j % (destination - source).toNat))) ∧
      ∀ a, (∀ j, j < k → a ≠ destination + BitVec.ofNat 64 j) →
        forUpTo (moveByte destination source) k m a = m a := by
  induction k with
  | zero => exact ⟨fun j hj => by omega, fun a _ => rfl⟩
  | succ k ih =>
      obtain ⟨hwritten, hothers⟩ := ih (by omega)
      -- what this round reads
      have hread : forUpTo (moveByte destination source) k m (source + BitVec.ofNat 64 k)
          = m (source + BitVec.ofNat 64 (k % (destination - source).toNat)) := by
        by_cases hahead : (destination - source).toNat = 0 ∨ k < (destination - source).toNat
        · have hmod : k % (destination - source).toNat = k := by
            rcases hahead with hzero | hlt
            · rw [hzero, Nat.mod_zero]
            · exact Nat.mod_eq_of_lt hlt
          rw [hothers _ (source_ahead (by omega) hahead), hmod]
        · rw [not_or, not_lt] at hahead
          rw [source_behind hahead.2, hwritten _ (by omega), ← Nat.mod_eq_sub_mod hahead.2]
      constructor
      · intro j hj
        rw [forUpTo, moveByte]
        by_cases hlast : j = k
        · rw [hlast, Function.update_self, hread]
        · have hne : destination + BitVec.ofNat 64 j ≠ destination + BitVec.ofNat 64 k :=
            fun heq => hlast (offset_inj (by omega) (by omega) heq)
          rw [Function.update_of_ne hne, hwritten j (by omega)]
      · intro a ha
        rw [forUpTo, moveByte, Function.update_of_ne (ha k (by omega)),
          hothers a fun j hj => ha j (by omega)]

end Rounds

/-- A source that repeats itself at the distance of the two ranges is moved. -/
theorem moved_of_repeats {destination source num : BitVec 64} {m : Ram}
    (h : ∀ i, i < num.toNat → m (source + BitVec.ofNat 64 i)
      = m (source + BitVec.ofNat 64 (i % (destination - source).toNat))) :
    Moved destination source num m (memmove destination source num m) := by
  obtain ⟨hwritten, hothers⟩ := memmove_rounds destination source m num.toNat num.isLt.le
  exact ⟨fun i hi => (hwritten i hi).trans (h i hi).symm, hothers⟩

/-- Ranges apart, and a destination in front of the source. -/
theorem memmove_moves {destination source num : BitVec 64} (m : Ram)
    (h : (destination - source).toNat = 0 ∨ num.toNat ≤ (destination - source).toNat) :
    Moved destination source num m (memmove destination source num m) := by
  refine moved_of_repeats fun i hi => ?_
  rcases h with hzero | hle
  · rw [hzero, Nat.mod_zero]
  · rw [Nat.mod_eq_of_lt (by omega)]

/-- **`memmove`** moves the source exactly when it repeats itself at the distance of the two ranges.
The distance counts modulo the size of the address space. -/
theorem memmove_moves_iff (destination source num : BitVec 64) (m : Ram) :
    Moved destination source num m (memmove destination source num m) ↔
      ∀ i, i < num.toNat → m (source + BitVec.ofNat 64 i)
        = m (source + BitVec.ofNat 64 (i % (destination - source).toNat)) := by
  constructor
  · intro h i hi
    rw [← h.copied i hi]
    exact (memmove_rounds _ _ m num.toNat num.isLt.le).1 i hi
  · exact moved_of_repeats

/-- The bytes 1, 2 and 3 moved up by one. -/
theorem memmove_repeats : ¬ Moved 1 0 3 (fun a => UInt8.ofNat (a.toNat + 1))
    (memmove 1 0 3 fun a => UInt8.ofNat (a.toNat + 1)) := by
  intro h
  have hsecond := h.copied 1 (by decide)
  revert hsecond
  decide

end Windozz.Kernel

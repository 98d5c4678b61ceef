import Mathlib.Control.Monad.Writer
import Windozz.Basic.Bytes

set_option autoImplicit false

/-! # Computations that report what they read

A computation over a memory returns a value and the addresses it has read, in order. `Within P r`
says that every address read by `r` has the property `P`; it is put together from the parts of a
computation (`within_bind`), also for a loop that may end early (`within_forUntil`). The value of a
computation does not depend on the report (`value_bind`).
-/

namespace Windozz

/-- A computation with the addresses it reads, in order. -/
abbrev Reads (α : Type) := Writer (List Nat) α

namespace Reads

variable {α β σ ρ : Type} {r : Reads α} {f : α → Reads β} {P Q : Nat → Prop}

/-! ## Values and reports -/

/-- What the computation returns. -/
def value (r : Reads α) : α := (WriterT.run r).1

/-- The addresses the computation reads. -/
def log (r : Reads α) : List Nat := (WriterT.run r).2

/-- Every address read has the property. -/
def Within (P : Nat → Prop) (r : Reads α) : Prop := ∀ a ∈ r.log, P a

/-- The byte at address `a`. -/
def byte (m : Mem) (a : Nat) : Reads UInt8 := do
  tell [a]
  return m a

/-- The little-endian number in the `n` bytes from address `a` on. -/
def field (m : Mem) (a n : Nat) : Reads Nat := do
  tell (List.range' a n)
  return ofLE (m.read a n)

@[simp] theorem value_pure (a : α) : (pure a : Reads α).value = a := rfl

@[simp] theorem log_pure (a : α) : (pure a : Reads α).log = [] := rfl

@[simp] theorem value_bind : (r >>= f).value = (f r.value).value := rfl

@[simp] theorem log_bind : (r >>= f).log = r.log ++ (f r.value).log := rfl

@[simp] theorem value_byte (m : Mem) (a : Nat) : (byte m a).value = m a := rfl

@[simp] theorem log_byte (m : Mem) (a : Nat) : (byte m a).log = [a] := rfl

@[simp] theorem value_field (m : Mem) (a n : Nat) : (field m a n).value = ofLE (m.read a n) := rfl

@[simp] theorem log_field (m : Mem) (a n : Nat) : (field m a n).log = List.range' a n := by
  show List.range' a n ++ [] = _
  rw [List.append_nil]

/-! ## Where reads go -/

@[simp] theorem within_pure (a : α) : Within P (pure a) := by simp [Within]

/-- A sequence reads what its parts read. -/
theorem within_bind : Within P (r >>= f) ↔ Within P r ∧ Within P (f r.value) := by
  simp [Within, or_imp, forall_and]

@[simp] theorem within_byte {m : Mem} {a : Nat} : Within P (byte m a) ↔ P a := by simp [Within]

@[simp] theorem within_field {m : Mem} {a n : Nat} :
    Within P (field m a n) ↔ ∀ i, i < n → P (a + i) := by
  simp only [Within, log_field, List.mem_range'_1]
  constructor
  · exact fun h i hi => h (a + i) ⟨by omega, by omega⟩
  · intro h b hb
    have hb' := h (b - a) (by omega)
    rwa [Nat.add_sub_cancel' hb.1] at hb'

/-- The bytes of a field lie below a bound when its end does. -/
theorem within_field_lt {m : Mem} {a n bound : Nat} (hn : 0 < n) :
    Within (· < bound) (field m a n) ↔ a + n ≤ bound := by
  rw [within_field]
  constructor
  · intro h
    have hlast := h (n - 1) (by omega)
    omega
  · intro h i hi
    omega

/-! ## Loops -/

/-- `for(i = ...; n rounds; i++)` with a body that goes on with a new state or leaves with a
result. -/
def forUntil (body : Nat → σ → Reads (σ ⊕ ρ)) : Nat → Nat → σ → Reads (σ ⊕ ρ)
  | 0, _, s => pure (.inl s)
  | n + 1, i, s => do
      match ← body i s with
      | .inr r => return .inr r
      | .inl s' => forUntil body n (i + 1) s'

variable {body : Nat → σ → Reads (σ ⊕ ρ)}

theorem value_forUntil_succ (n i : Nat) (s : σ) :
    (forUntil body (n + 1) i s).value =
      match (body i s).value with
      | .inr r => .inr r
      | .inl s' => (forUntil body n (i + 1) s').value := by
  rw [forUntil, value_bind]
  cases (body i s).value <;> rfl

/-- A loop reads what its first round reads and, if it goes on, what the rest reads. -/
theorem within_forUntil_succ {n i : Nat} {s : σ} : Within P (forUntil body (n + 1) i s) ↔
    Within P (body i s) ∧
      ∀ s', (body i s).value = .inl s' → Within P (forUntil body n (i + 1) s') := by
  rw [forUntil, within_bind]
  refine and_congr_right fun _ => ?_
  cases (body i s).value with
  | inr r => exact ⟨fun _ s' h => absurd h Sum.inr_ne_inl, fun _ => within_pure _⟩
  | inl s' =>
      constructor
      · rintro h s₁ heq
        obtain rfl := Sum.inl.inj heq
        exact h
      · exact fun h => h s' rfl

/-- A loop reads only what its rounds may read. -/
theorem within_forUntil (n : Nat) : ∀ (i : Nat) (s : σ),
    (∀ k, k < n → ∀ s, Within P (body (i + k) s)) → Within P (forUntil body n i s) := by
  induction n with
  | zero => exact fun i s _ => within_pure _
  | succ n ih =>
      intro i s h
      refine within_forUntil_succ.mpr ⟨h 0 (by omega) s, fun s' _ => ih (i + 1) s' fun k hk s => ?_⟩
      rw [Nat.add_assoc, Nat.add_comm 1]
      exact h (k + 1) (by omega) s

end Reads

end Windozz

import Mathlib.Data.List.Lex
import Mathlib.Data.Int.Order.Basic
import Mathlib.Tactic

set_option autoImplicit false

/-! # Comparison at the first difference

A comparison that walks along two lists and returns the difference of the first keys that differ. On
lists of one length its sign is the lexicographic order of the keys (`firstDifference_neg_iff`), so
two such comparisons with different keys agree exactly when they agree about the first elements that
differ (`keys_agree_iff`).
-/

namespace Windozz

variable {α β γ : Type*}

/-- The difference of the first keys that differ, or zero. -/
def firstDifference (key : α → ℤ) : List α → List α → ℤ
  | x :: xs, y :: ys => if key x = key y then firstDifference key xs ys else key x - key y
  | _, _ => 0

/-- The first elements that differ are related. -/
def AtFirstDifference [DecidableEq α] (r : α → α → Prop) : List α → List α → Prop
  | x :: xs, y :: ys => if x = y then AtFirstDifference r xs ys else r x y
  | _, _ => True

/-- Compared the other way round. -/
theorem firstDifference_swap (key : α → ℤ) (xs ys : List α) :
    firstDifference key ys xs = -firstDifference key xs ys := by
  induction xs generalizing ys with
  | nil => cases ys <;> rfl
  | cons x xs ih =>
      cases ys with
      | nil => rfl
      | cons y ys =>
          rw [firstDifference, firstDifference]
          by_cases heq : key x = key y
          · rw [if_pos heq, if_pos heq.symm, ih]
          · rw [if_neg heq, if_neg (Ne.symm heq), neg_sub]

/-- The sign is the lexicographic order of the keys. -/
theorem firstDifference_neg_iff (key : α → ℤ) {xs ys : List α} (hlen : xs.length = ys.length) :
    firstDifference key xs ys < 0 ↔ xs.map key < ys.map key := by
  induction xs generalizing ys with
  | nil =>
      rw [List.length_eq_zero_iff.mp hlen.symm]
      simp [firstDifference]
  | cons x xs ih =>
      cases ys with
      | nil => simp at hlen
      | cons y ys =>
          rw [firstDifference, List.map_cons, List.map_cons, List.cons_lt_cons_iff]
          by_cases heq : key x = key y
          · simp [heq, ih (by simpa using hlen)]
          · simp [heq]

theorem firstDifference_pos_iff (key : α → ℤ) {xs ys : List α} (hlen : xs.length = ys.length) :
    0 < firstDifference key xs ys ↔ ys.map key < xs.map key := by
  rw [← firstDifference_neg_iff key hlen.symm, firstDifference_swap key xs, Int.neg_neg_iff_pos]

/-- Without a difference the lists are equal, and only then. -/
theorem firstDifference_eq_zero_iff {key : α → ℤ} (hkey : Function.Injective key) {xs ys : List α}
    (hlen : xs.length = ys.length) : firstDifference key xs ys = 0 ↔ xs = ys := by
  induction xs generalizing ys with
  | nil =>
      rw [List.length_eq_zero_iff.mp hlen.symm]
      simp [firstDifference]
  | cons x xs ih =>
      cases ys with
      | nil => simp at hlen
      | cons y ys =>
          rw [firstDifference, List.cons.injEq, ← hkey.eq_iff, ← ih (by simpa using hlen)]
          by_cases heq : key x = key y
          · simp [heq]
          · simp [heq, sub_eq_zero]

section AtFirstDifference

variable [DecidableEq α] {r s : α → α → Prop}

theorem AtFirstDifference.congr (h : ∀ x y, x ≠ y → (r x y ↔ s x y)) (xs ys : List α) :
    AtFirstDifference r xs ys ↔ AtFirstDifference s xs ys := by
  induction xs generalizing ys with
  | nil => simp [AtFirstDifference]
  | cons x xs ih =>
      cases ys with
      | nil => simp [AtFirstDifference]
      | cons y ys =>
          rw [AtFirstDifference, AtFirstDifference]
          by_cases heq : x = y
          · rw [if_pos heq, if_pos heq, ih]
          · rw [if_neg heq, if_neg heq, h x y heq]

theorem AtFirstDifference.swap (hr : ∀ x y, r x y → r y x) {xs ys : List α}
    (h : AtFirstDifference r xs ys) : AtFirstDifference r ys xs := by
  induction xs generalizing ys with
  | nil => cases ys <;> trivial
  | cons x xs ih =>
      cases ys with
      | nil => trivial
      | cons y ys =>
          rw [AtFirstDifference] at h ⊢
          by_cases heq : x = y
          · rw [if_pos heq] at h
            rw [if_pos heq.symm]
            exact ih h
          · rw [if_neg heq] at h
            rw [if_neg (Ne.symm heq)]
            exact hr x y h

/-- **Two keys order two lists alike exactly when they order the first elements alike that
differ.** -/
theorem keys_agree_iff [LT β] [LT γ] [Std.Irrefl (· < · : β → β → Prop)]
    [Std.Irrefl (· < · : γ → γ → Prop)] {key : α → β} {key' : α → γ}
    (hkey : Function.Injective key) (hkey' : Function.Injective key') {xs ys : List α}
    (hlen : xs.length = ys.length) :
    (xs.map key < ys.map key ↔ xs.map key' < ys.map key') ↔
      AtFirstDifference (fun x y => key x < key y ↔ key' x < key' y) xs ys := by
  induction xs generalizing ys with
  | nil =>
      rw [List.length_eq_zero_iff.mp hlen.symm]
      simp [AtFirstDifference]
  | cons x xs ih =>
      cases ys with
      | nil => simp at hlen
      | cons y ys =>
          rw [AtFirstDifference]
          by_cases heq : x = y
          · subst heq
            simp [ih (by simpa using hlen)]
          · simp [List.cons_lt_cons_iff, heq, hkey.eq_iff, hkey'.eq_iff]

end AtFirstDifference

end Windozz

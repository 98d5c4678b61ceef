import Mathlib.Data.List.Nodup
import Mathlib.Tactic

set_option autoImplicit false

/-! # Chains of a successor function

A table that stores, for each cell, the next cell of a list is a partial successor function
`nxt`. `Linked nxt l` says that `l` is the list the table stores from the head of `l` to its
end. Such a list is determined by its head (`Linked.unique`) and never meets a cell twice
(`Linked.nodup`), whatever the rest of the table holds.
-/

namespace Windozz

variable {α : Type*} {nxt nxt' : α → Option α} {b c : α} {l l' : List α}

/-- Each member of `l` is linked to the one after it, and the last one to nothing. -/
def Linked (nxt : α → Option α) : List α → Prop
  | [] => False
  | [b] => nxt b = none
  | b :: c :: l => nxt b = some c ∧ Linked nxt (c :: l)

theorem linked_singleton : Linked nxt [b] ↔ nxt b = none := Iff.rfl

theorem linked_cons_cons : Linked nxt (b :: c :: l) ↔ nxt b = some c ∧ Linked nxt (c :: l) := Iff.rfl

/-- A chain is read off its table: the successor of each member is the next member. -/
theorem Linked.next_getElem? (h : Linked nxt l) :
    ∀ {k : Nat}, l[k]? = some b → nxt b = l[k + 1]? := by
  induction l with
  | nil => exact h.elim
  | cons a l ih =>
      intro k hk
      cases l with
      | nil =>
          cases k with
          | zero =>
              obtain rfl : a = b := by simpa using hk
              simpa [Linked] using h
          | succ k => simp at hk
      | cons d l =>
          cases k with
          | zero =>
              obtain rfl : a = b := by simpa using hk
              simpa using h.1
          | succ k => exact ih h.2 (by simpa using hk)

/-- A chain is determined by its head. -/
theorem Linked.unique : ∀ {l l' : List α} {b : α},
    Linked nxt (b :: l) → Linked nxt (b :: l') → l = l'
  | [], [], _, _, _ => rfl
  | [], c :: l', _, h, h' => by
      have : (none : Option α) = some c := h.symm.trans h'.1
      cases this
  | c :: l, [], _, h, h' => by
      have : (none : Option α) = some c := (linked_singleton.mp h').symm.trans h.1
      cases this
  | c :: l, d :: l', _, h, h' => by
      obtain rfl : c = d := Option.some.inj (h.1.symm.trans h'.1)
      rw [Linked.unique h.2 h'.2]

/-- The part of a chain from one of its members on is the chain of that member. -/
theorem Linked.suffix : ∀ (l₁ : List α), Linked nxt (l₁ ++ b :: l) → Linked nxt (b :: l)
  | [], h => h
  | [_], h => h.2
  | _ :: d :: l₁, h => Linked.suffix (d :: l₁) h.2

/-- A chain that ends is acyclic: it meets no member twice. -/
theorem Linked.nodup (h : Linked nxt l) : l.Nodup := by
  induction l with
  | nil => exact h.elim
  | cons a l ih =>
      have htail : l.Nodup := by
        cases l with
        | nil => exact List.nodup_nil
        | cons d l => exact ih h.2
      refine List.nodup_cons.mpr ⟨fun ha => ?_, htail⟩
      -- a second visit to `a` would give it two chains of different lengths
      obtain ⟨s, t, rfl⟩ := List.append_of_mem ha
      have hsuf : Linked nxt (a :: t) := Linked.suffix (a :: s) h
      have hlen := congrArg List.length (Linked.unique h hsuf)
      simp only [List.length_append, List.length_cons] at hlen
      omega

/-- A chain depends only on the successors of its members. -/
theorem Linked.congr : ∀ {l : List α}, (∀ a ∈ l, nxt' a = nxt a) → Linked nxt l → Linked nxt' l
  | [], _, h => h
  | [a], hag, h => (hag a (by simp)).trans h
  | a :: d :: l, hag, h =>
      ⟨(hag a (by simp)).trans h.1, Linked.congr (fun e he => hag e (by simp [he])) h.2⟩

end Windozz

import Mathlib.Tactic

set_option autoImplicit false

/-! # Programs that return or stop

A program over a state returns a value and a new state or stops for a reason. `Relates R m` says
that every run of `m` that returns relates the states before and after it. The rules follow the
shape of the program.
-/

namespace Windozz

/-- A program with states `σ`, stop reasons `ε` and result `α`. -/
abbrev Prog (σ ε α : Type) := StateT σ (Except ε) α

namespace Prog

variable {σ ε α β : Type} {s : σ} {m : Prog σ ε α} {f : α → Prog σ ε β}

/-! ## Running a program -/

@[simp] theorem run_pure (a : α) (s : σ) : (pure a : Prog σ ε α) s = .ok (a, s) := rfl

@[simp] theorem run_get (s : σ) : (get : Prog σ ε σ) s = .ok (s, s) := rfl

@[simp] theorem run_set (s s' : σ) : (set s' : Prog σ ε PUnit) s = .ok ((), s') := rfl

@[simp] theorem run_modify (g : σ → σ) (s : σ) : (modify g : Prog σ ε PUnit) s = .ok ((), g s) := rfl

@[simp] theorem run_throw (e : ε) (s : σ) : (throw e : Prog σ ε α) s = .error e := rfl

theorem run_bind (m : Prog σ ε α) (f : α → Prog σ ε β) (s : σ) :
    (m >>= f) s = match m s with
      | .ok (a, s') => f a s'
      | .error e => .error e := by
  show (m s >>= fun p => f p.1 p.2) = _
  cases m s with
  | ok p => rfl
  | error e => rfl

/-- A sequence returns when both parts do. -/
theorem bind_eq_ok {r : β × σ} :
    (m >>= f) s = .ok r ↔ ∃ a s', m s = .ok (a, s') ∧ f a s' = .ok r := by
  rw [run_bind]
  cases m s with
  | ok p =>
      constructor
      · exact fun h => ⟨p.1, p.2, rfl, h⟩
      · rintro ⟨a, s', hp, h⟩
        obtain rfl := Except.ok.inj hp
        exact h
  | error e => simp

theorem bind_ok {a : α} {s' : σ} (h : m s = .ok (a, s')) : (m >>= f) s = f a s' := by
  rw [run_bind, h]

theorem bind_error {e : ε} (h : m s = .error e) : (m >>= f) s = .error e := by
  rw [run_bind, h]

/-! ## Relations between states -/

/-- Every run that returns relates the states before and after it. -/
def Relates (R : σ → σ → Prop) (m : Prog σ ε α) : Prop := ∀ ⦃s a s'⦄, m s = .ok (a, s') → R s s'

section Relates

variable {P : σ → σ → Prop}

theorem relates_pure (hrefl : ∀ s, P s s) (a : α) : Relates (ε := ε) P (pure a) := by
  intro s b s' hrun
  obtain ⟨-, rfl⟩ := Prod.mk.inj (Except.ok.inj hrun)
  exact hrefl s

theorem relates_throw (e : ε) : Relates P (throw e : Prog σ ε α) := by
  intro s a s' hrun
  cases hrun

theorem relates_modify {g : σ → σ} (h : ∀ s, P s (g s)) :
    Relates P (modify g : Prog σ ε PUnit) := by
  intro s a s' hrun
  obtain ⟨-, rfl⟩ := Prod.mk.inj (Except.ok.inj hrun)
  exact h s

theorem relates_bind (htrans : ∀ {s s' s''}, P s s' → P s' s'' → P s s'') (hm : Relates P m)
    (hf : ∀ a, Relates P (f a)) : Relates P (m >>= f) := by
  intro s b s' hrun
  obtain ⟨a, s₁, hfirst, hsecond⟩ := bind_eq_ok.mp hrun
  exact htrans (hm hfirst) (hf a hsecond)

theorem relates_get {f : σ → Prog σ ε β} (hf : ∀ s, Relates P (f s)) :
    Relates P (get >>= f) := by
  intro s b s' hrun
  rw [bind_ok (run_get s)] at hrun
  exact hf s hrun

end Relates

end Prog

end Windozz

import Windozz.Basic.Program

set_option autoImplicit false

/-! # Two runs side by side

A change `g` of the state goes unnoticed by a program that is started in `s` when the program does
the same in `g s`: it stops for the same reason, or it returns the same value, in states that differ
by `g` again. `Lockstep g m s Q` says so, and that a run that returns does so with `Q`. The second
part carries the invariant from one part of a sequence to the next (`Lockstep.bind`).
-/

namespace Windozz.Prog

variable {σ ε α β : Type} {g : σ → σ} {s : σ} {m : Prog σ ε α} {f : α → Prog σ ε β}
  {Q Q' : α → σ → Prop} {R : β → σ → Prop}

/-- What a program returns, in a state that is changed by `g`. -/
def carry (g : σ → σ) : Except ε (α × σ) → Except ε (α × σ) := Except.map fun p => (p.1, g p.2)

@[simp] theorem carry_ok (a : α) (s : σ) :
    carry g (.ok (a, s) : Except ε (α × σ)) = .ok (a, g s) := rfl

@[simp] theorem carry_error (e : ε) : carry g (.error e : Except ε (α × σ)) = .error e := rfl

/-- Started in `s` and in `g s`, the program does the same, and returns with `Q`. -/
structure Lockstep (g : σ → σ) (m : Prog σ ε α) (s : σ) (Q : α → σ → Prop) : Prop where
  same : m (g s) = carry g (m s)
  post : ∀ ⦃a s'⦄, m s = .ok (a, s') → Q a s'

namespace Lockstep

/-- Whatever returns from the changed state returns from the other one as well. -/
theorem back (h : Lockstep g m s Q) {a : α} {u : σ} (hrun : m (g s) = .ok (a, u)) :
    ∃ s', m s = .ok (a, s') ∧ u = g s' ∧ Q a s' := by
  rw [h.same] at hrun
  cases hm : m s with
  | error e =>
      rw [hm] at hrun
      cases hrun
  | ok p =>
      rw [hm] at hrun
      obtain ⟨rfl, rfl⟩ := Prod.mk.inj (Except.ok.inj hrun)
      exact ⟨p.2, rfl, rfl, h.post hm⟩

theorem mono (h : Lockstep g m s Q) (hQ : ∀ a s', Q a s' → Q' a s') : Lockstep g m s Q' :=
  ⟨h.same, fun a s' hrun => hQ a s' (h.post hrun)⟩

theorem pure {a : α} (h : Q a s) : Lockstep g (pure a : Prog σ ε α) s Q := by
  refine ⟨rfl, fun b s' hrun => ?_⟩
  obtain ⟨rfl, rfl⟩ := Prod.mk.inj (Except.ok.inj hrun)
  exact h

theorem throw (e : ε) : Lockstep g (throw e : Prog σ ε α) s Q := by
  refine ⟨rfl, fun b s' hrun => ?_⟩
  cases hrun

/-- An assignment that has the same effect on the changed state. -/
theorem modify {h : σ → σ} {Q : PUnit → σ → Prop} (hg : h (g s) = g (h s)) (hQ : Q () (h s)) :
    Lockstep g (modify h : Prog σ ε PUnit) s Q := by
  refine ⟨congrArg (fun x => Except.ok ((), x)) hg, fun b s' hrun => ?_⟩
  obtain ⟨-, rfl⟩ := Prod.mk.inj (Except.ok.inj hrun)
  exact hQ

/-- **A sequence.** The second part starts where the first one returns. -/
theorem bind (hm : Lockstep g m s Q)
    (hf : ∀ a s', m s = .ok (a, s') → Q a s' → Lockstep g (f a) s' R) :
    Lockstep g (m >>= f) s R := by
  constructor
  · rw [run_bind, run_bind, hm.same]
    cases hrun : m s with
    | error e => rfl
    | ok p => exact (hf p.1 p.2 hrun (hm.post hrun)).same
  · intro b s'' hrun
    obtain ⟨a, s', hfirst, hsecond⟩ := bind_eq_ok.mp hrun
    exact (hf a s' hfirst (hm.post hfirst)).post hsecond

/-- A program that reads the state and goes on with what is the same in both. -/
theorem get {f : σ → Prog σ ε β} (hf : f (g s) = f s) (h : Lockstep g (f s) s R) :
    Lockstep g (get >>= f) s R := by
  refine ⟨?_, fun b s' hrun => h.post hrun⟩
  show f (g s) (g s) = _
  rw [hf]
  exact h.same

end Lockstep

/-- From every state the program does the same when the state is changed by `g`. -/
def Blind (g : σ → σ) (m : Prog σ ε α) : Prop := ∀ s, Lockstep g m s fun _ _ => True

namespace Blind

theorem pure (a : α) : Blind g (pure a : Prog σ ε α) := fun _ => Lockstep.pure trivial

theorem throw (e : ε) : Blind g (throw e : Prog σ ε α) := fun _ => Lockstep.throw e

theorem modify {h : σ → σ} (hg : ∀ s, h (g s) = g (h s)) : Blind g (modify h : Prog σ ε PUnit) :=
  fun s => Lockstep.modify (hg s) trivial

theorem bind (hm : Blind g m) (hf : ∀ a, Blind g (f a)) : Blind g (m >>= f) :=
  fun s => (hm s).bind fun a s' _ _ => hf a s'

theorem get {f : σ → Prog σ ε β} (hg : ∀ s, f (g s) = f s) (hf : ∀ s, Blind g (f s)) :
    Blind g (get >>= f) := fun s => Lockstep.get (hg s) (hf s s)

/-- A program that is blind to the change runs side by side, whatever is known of its runs. -/
theorem lockstep (h : Blind g m) (hQ : ∀ a s', m s = .ok (a, s') → Q a s') : Lockstep g m s Q :=
  ⟨(h s).same, fun a s' hrun => hQ a s' hrun⟩

end Blind

end Windozz.Prog

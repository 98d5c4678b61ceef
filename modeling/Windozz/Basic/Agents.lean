import Mathlib.Logic.Function.Basic
import Mathlib.Logic.Relation

set_option autoImplicit false

/-! # Agents that share a state

Any number of agents take turns. Each has a state of its own, and a step of one of them reads and
writes this state and the shared one. `Agents.Reaches` is what the steps lead to in any order.

`Code` is what an agent does with shared data in a call: one access after the other. `Code.Runs` is
the call as a whole, with nothing in between, and `Code.Serial` a sequence of such calls. An
assertion about the accesses of a call is proved along them (`Code.Runs.spec`).
-/

namespace Windozz

/-- The shared state, and the states of the agents. -/
structure Agents (ι S L : Type) where
  shared : S
  own : ι → L

namespace Agents

variable {ι S L : Type} [DecidableEq ι] {step : ι → S → L → S → L → Prop} {c c' : Agents ι S L}

/-- One of the agents takes a step. -/
inductive Step (step : ι → S → L → S → L → Prop) (c : Agents ι S L) : Agents ι S L → Prop
  | mk {i : ι} {s : S} {l : L} (h : step i c.shared (c.own i) s l) :
      Step step c ⟨s, Function.update c.own i l⟩

/-- The agents take steps in any order. -/
abbrev Reaches (step : ι → S → L → S → L → Prop) : Agents ι S L → Agents ι S L → Prop :=
  Relation.ReflTransGen (Step step)

/-- What every step keeps holds in every state reached. -/
theorem Reaches.keeps {Inv : Agents ι S L → Prop}
    (hstep : ∀ {c : Agents ι S L} {i : ι} {s : S} {l : L}, Inv c → step i c.shared (c.own i) s l →
      Inv ⟨s, Function.update c.own i l⟩)
    (h : Reaches step c c') (hinit : Inv c) : Inv c' := by
  induction h with
  | refl => exact hinit
  | tail _ hlast ih =>
      obtain ⟨hown⟩ := hlast
      exact hstep ih hown

end Agents

/-- Code that works on data: the local state that a call starts in, and an access, which goes on
or ends the call with a result. -/
structure Code (D Op B R : Type) where
  enter : Op → B
  access : B → D → (B ⊕ R) × D

namespace Code

variable {D Op B R : Type} (code : Code D Op B R)

/-- Accesses that go on. -/
inductive Path : B → D → B → D → Prop
  | refl (b : B) (d : D) : Path b d b d
  | tail {b b' b'' : B} {d d' d'' : D} (h : Path b d b' d')
      (haccess : code.access b' d' = (.inl b'', d'')) : Path b d b'' d''

variable {code} in
theorem Path.trans {b b' b'' : B} {d d' d'' : D} (h : code.Path b d b' d')
    (h' : code.Path b' d' b'' d'') : code.Path b d b'' d'' := by
  induction h' with
  | refl => exact h
  | tail _ haccess ih => exact .tail (ih h) haccess

variable {code} in
theorem Path.single {b b' : B} {d d' : D} (haccess : code.access b d = (.inl b', d')) :
    code.Path b d b' d' := .tail (.refl b d) haccess

/-- A call as a whole. -/
def Runs (op : Op) (d : D) (r : R) (d' : D) : Prop :=
  ∃ b d₁, code.Path (code.enter op) d b d₁ ∧ code.access b d₁ = (.inr r, d')

/-- Calls one after the other. -/
inductive Serial : D → List (Op × R) → D → Prop
  | nil (d : D) : Serial d [] d
  | snoc {d d' d'' : D} {log : List (Op × R)} {op : Op} {r : R} (h : Serial d log d')
      (hrun : code.Runs op d' r d'') : Serial d (log ++ [(op, r)]) d''

variable {code}

/-- An assertion that holds at the start of the call and that the accesses keep holds at its
end. -/
theorem Runs.spec {op : Op} {d d' : D} {r : R} {J : B → D → Prop} (hinit : J (code.enter op) d)
    (hkeep : ∀ {b d b' d'}, J b d → code.access b d = (.inl b', d') → J b' d')
    (h : code.Runs op d r d') : ∃ b d₁, J b d₁ ∧ code.access b d₁ = (.inr r, d') := by
  obtain ⟨b, d₁, hpath, hlast⟩ := h
  refine ⟨b, d₁, ?_, hlast⟩
  clear hlast
  generalize code.enter op = b₀ at hinit hpath
  induction hpath with
  | refl => exact hinit
  | tail _ haccess ih => exact hkeep (ih hinit) haccess

end Code

end Windozz

import Windozz.Basic.Agents

set_option autoImplicit false

/-! # `acquire` and `release`

Any number of processors that call functions under one mutex, in any order of their instructions.
Between `acquire` and `release` a function accesses the data under the mutex, one access at a time.
`acquire` is four instructions, and other processors may run between any two of them; `lock bts`
reads and writes the mutex at once.

There is never more than one processor behind `acquire`, and what the processors do to the data is
what the calls do one after the other (`calls_serial`).
-/

namespace Windozz.Kernel.Spinlock

/-- What the processors share: the mutex, the data under it, and the calls that have ended. -/
structure Shared (D Op R : Type) where
  mutex : Nat
  data : D
  ended : List (Op × R)

/-- The instruction that a processor comes to, with the carry flag where it matters. -/
inductive Processor (Op B R : Type)
  | elsewhere
  | bt (op : Op)
  | jc (op : Op) (cf : Bool)
  | bts (op : Op)
  | jcLocked (op : Op) (cf : Bool)
  | inside (op : Op) (b : B)
  | mov

/-- The mutex is taken. -/
def Shared.Taken {D Op R : Type} (s : Shared D Op R) : Prop := s.mutex.testBit 0 = true

/-- The processor has the mutex. -/
def Processor.Holds {Op B R : Type} : Processor Op B R → Prop
  | .jcLocked _ cf => cf = false
  | .inside _ _ => True
  | .mov => True
  | _ => False

section Run

variable {D Op B R : Type} (code : Code D Op B R) (releases : Op → R → Bool)

/-- An instruction of `acquire`, of the function, or of `release`. Not every function comes to its
`release`. -/
def next (s : Shared D Op R) : Processor Op B R → Shared D Op R × Processor Op B R
  | .elsewhere => (s, .elsewhere)
  | .bt op => (s, .jc op (s.mutex.testBit 0))
  | .jc op cf => (s, if cf then .bt op else .bts op)
  | .bts op => ({ s with mutex := s.mutex ||| 1 }, .jcLocked op (s.mutex.testBit 0))
  | .jcLocked op cf => (s, if cf then .bt op else .inside op (code.enter op))
  | .inside op b =>
      match code.access b s.data with
      | (.inl b', d) => ({ s with data := d }, .inside op b')
      | (.inr r, d) =>
          (⟨s.mutex, d, s.ended ++ [(op, r)]⟩, if releases op r then .mov else .elsewhere)
  | .mov => ({ s with mutex := s.mutex / 256 * 256 }, .elsewhere)

/-- A processor calls a function, or goes on with its call. -/
inductive Step : Shared D Op R → Processor Op B R → Shared D Op R → Processor Op B R → Prop
  | call (s : Shared D Op R) (op : Op) : Step s .elsewhere s (.bt op)
  | next (s : Shared D Op R) (p : Processor Op B R) :
      Step s p (next code releases s p).1 (next code releases s p).2

/-- The processors, in any order of their instructions. -/
abbrev Reaches {ι : Type} [DecidableEq ι] :
    Agents ι (Shared D Op R) (Processor Op B R) → Agents ι (Shared D Op R) (Processor Op B R) →
      Prop :=
  Agents.Reaches fun _ => Step code releases

/-- The processor with the mutex has come from `d` to the data as they are. -/
def Processor.At (d data : D) : Processor Op B R → Prop
  | .inside op b => code.Path (code.enter op) d b data
  | _ => data = d

/-- The mutex is free, one processor has it, or a call has ended without `release`. -/
inductive Phase {ι : Type} (d₀ : D) (c : Agents ι (Shared D Op R) (Processor Op B R)) : Prop
  | free (hnone : ∀ i, ¬ (c.own i).Holds) (hmutex : ¬ c.shared.Taken)
      (hserial : code.Serial d₀ c.shared.ended c.shared.data)
      (hreleased : ∀ e ∈ c.shared.ended, releases e.1 e.2 = true)
  | held (i : ι) (hone : ∀ j, (c.own j).Holds ↔ j = i) (hmutex : c.shared.Taken) (d : D)
      (hserial : code.Serial d₀ c.shared.ended d) (hat : (c.own i).At code d c.shared.data)
      (hreleased : ∀ e ∈ c.shared.ended, releases e.1 e.2 = true)
  | kept (hnone : ∀ i, ¬ (c.own i).Holds) (hmutex : c.shared.Taken)
      (hserial : code.Serial d₀ c.shared.ended c.shared.data)
      (hkept : ∃ e ∈ c.shared.ended, releases e.1 e.2 = false)

variable {code releases} {ι : Type} [DecidableEq ι] {d₀ : D}
  {c : Agents ι (Shared D Op R) (Processor Op B R)}

/-- Who has the mutex after a step of one processor. -/
theorem holds_update (own : ι → Processor Op B R) (i : ι) (p : Processor Op B R) (j : ι) :
    (Function.update own i p j).Holds ↔ if j = i then p.Holds else (own j).Holds := by
  by_cases hj : j = i
  · rw [if_pos hj, hj, Function.update_self]
  · rw [if_neg hj, Function.update_of_ne hj]

/-- A processor that does not come into or out of the mutex. -/
theorem Phase.elsewhere {s s' : Shared D Op R} {own : ι → Processor Op B R}
    (h : Phase code releases d₀ ⟨s, own⟩) {i : ι} {p : Processor Op B R} (hold : ¬ (own i).Holds)
    (hnew : ¬ p.Holds) (htaken : s'.Taken ↔ s.Taken) (hdata : s'.data = s.data)
    (hended : s'.ended = s.ended) : Phase code releases d₀ ⟨s', Function.update own i p⟩ := by
  have hholds : ∀ j, (Function.update own i p j).Holds ↔ (own j).Holds := by
    intro j
    rw [holds_update]
    split
    · rename_i hj
      rw [hj]
      exact iff_of_false hnew hold
    · rfl
  obtain ⟨mutex, data, ended⟩ := s
  obtain ⟨mutex', data', ended'⟩ := s'
  obtain rfl : data' = data := hdata
  obtain rfl : ended' = ended := hended
  cases h with
  | free hnone hmutex hserial hreleased =>
      exact .free (fun j hj => hnone j ((hholds j).mp hj)) (fun ht => hmutex (htaken.mp ht)) hserial
        hreleased
  | held k hone hmutex d hserial hat hreleased =>
      have hne : k ≠ i := fun heq => hold ((hone i).mpr heq.symm)
      refine .held k (fun j => (hholds j).trans (hone j)) (htaken.mpr hmutex) d hserial ?_ hreleased
      show (Function.update own i p k).At code d data'
      rw [Function.update_of_ne hne]
      exact hat
  | kept hnone hmutex hserial hkept =>
      exact .kept (fun j hj => hnone j ((hholds j).mp hj)) (htaken.mpr hmutex) hserial hkept

/-- A processor that goes on with the mutex. -/
theorem Phase.inside {s : Shared D Op R} {own : ι → Processor Op B R}
    (h : Phase code releases d₀ ⟨s, own⟩) {i : ι} {p : Processor Op B R} {data : D}
    (hold : (own i).Holds) (hnew : p.Holds)
    (hat : ∀ d, (own i).At code d s.data → p.At code d data) :
    Phase code releases d₀ ⟨{ s with data := data }, Function.update own i p⟩ := by
  cases h with
  | free hnone => exact absurd hold (hnone i)
  | held k hone hmutex d hserial hatk hreleased =>
      obtain rfl : i = k := (hone i).mp hold
      refine .held i (fun j => ?_) hmutex d hserial ?_ hreleased
      · show (Function.update own i p j).Holds ↔ j = i
        rw [holds_update]
        split
        · rename_i hj
          exact iff_of_true hnew hj
        · exact hone j
      · show (Function.update own i p i).At code d data
        rw [Function.update_self]
        exact hat d hatk
  | kept hnone => exact absurd hold (hnone i)

/-- A processor that comes into the mutex. -/
theorem Phase.enter {s s' : Shared D Op R} {own : ι → Processor Op B R}
    (h : Phase code releases d₀ ⟨s, own⟩) {i : ι} {p : Processor Op B R} (hfree : ¬ s.Taken)
    (hnew : p.Holds) (htaken : s'.Taken) (hdata : s'.data = s.data) (hended : s'.ended = s.ended)
    (hat : ∀ d, p.At code d d) : Phase code releases d₀ ⟨s', Function.update own i p⟩ := by
  obtain ⟨mutex, data, ended⟩ := s
  obtain ⟨mutex', data', ended'⟩ := s'
  obtain rfl : data' = data := hdata
  obtain rfl : ended' = ended := hended
  cases h with
  | free hnone hmutex hserial hreleased =>
      refine .held i (fun j => ?_) htaken data' hserial ?_ hreleased
      · show (Function.update own i p j).Holds ↔ j = i
        rw [holds_update]
        split
        · rename_i hj
          exact iff_of_true hnew hj
        · rename_i hj
          exact iff_of_false (hnone j) hj
      · show (Function.update own i p i).At code data' data'
        rw [Function.update_self]
        exact hat data'
  | held k hone hmutex => exact absurd hmutex hfree
  | kept hnone hmutex => exact absurd hmutex hfree

/-- A call ends, with or without `release` to come. -/
theorem Phase.ends {s : Shared D Op R} {own : ι → Processor Op B R}
    (h : Phase code releases d₀ ⟨s, own⟩) {i : ι} {op : Op} {b : B} {r : R} {data : D}
    (hinside : own i = .inside op b) (haccess : code.access b s.data = (.inr r, data)) :
    Phase code releases d₀ ⟨⟨s.mutex, data, s.ended ++ [(op, r)]⟩,
      Function.update own i (if releases op r then .mov else .elsewhere)⟩ := by
  have hold : (own i).Holds := by
    rw [hinside]
    trivial
  cases h with
  | free hnone => exact absurd hold (hnone i)
  | held k hone hmutex d hserial hat hreleased =>
      obtain rfl : i = k := (hone i).mp hold
      have hpath : (own i).At code d s.data := hat
      rw [hinside] at hpath
      have hserial' : code.Serial d₀ (s.ended ++ [(op, r)]) data :=
        .snoc hserial ⟨b, s.data, hpath, haccess⟩
      by_cases hr : releases op r = true
      · rw [if_pos hr]
        refine .held i (fun j => ?_) hmutex data hserial' ?_ ?_
        · show (Function.update own i .mov j).Holds ↔ j = i
          rw [holds_update]
          split
          · rename_i hj
            exact iff_of_true trivial hj
          · exact hone j
        · show (Function.update own i .mov i).At code data data
          rw [Function.update_self]
          rfl
        · intro e he
          rcases List.mem_append.mp he with he | he
          · exact hreleased e he
          · rw [List.mem_singleton.mp he]
            exact hr
      · rw [if_neg hr]
        refine .kept (fun j hj => ?_) hmutex hserial' ⟨(op, r), by simp, by simpa using hr⟩
        rw [holds_update] at hj
        split at hj
        · exact hj
        · rename_i hne
          exact hne ((hone j).mp hj)
  | kept hnone => exact absurd hold (hnone i)

/-- `release`. -/
theorem Phase.leave {s : Shared D Op R} {own : ι → Processor Op B R}
    (h : Phase code releases d₀ ⟨s, own⟩) {i : ι} (hmov : own i = .mov) {mutex : Nat}
    (hfree : mutex.testBit 0 = false) :
    Phase code releases d₀ ⟨{ s with mutex := mutex }, Function.update own i .elsewhere⟩ := by
  have hold : (own i).Holds := by
    rw [hmov]
    trivial
  cases h with
  | free hnone => exact absurd hold (hnone i)
  | held k hone hmutex d hserial hat hreleased =>
      obtain rfl : i = k := (hone i).mp hold
      have hdata : (own i).At code d s.data := hat
      rw [hmov] at hdata
      obtain rfl : s.data = d := hdata
      refine .free (fun j hj => ?_) (by simp [Shared.Taken, hfree]) hserial hreleased
      rw [holds_update] at hj
      split at hj
      · exact hj
      · rename_i hne
        exact hne ((hone j).mp hj)
  | kept hnone => exact absurd hold (hnone i)

theorem taken_or (s : Shared D Op R) : ({ s with mutex := s.mutex ||| 1 } : Shared D Op R).Taken := by
  simp [Shared.Taken]

theorem free_byte (mutex : Nat) : (mutex / 256 * 256).testBit 0 = false := by
  rw [Nat.testBit_zero, decide_eq_false_iff_not]
  omega

/-- Every instruction keeps the phases. -/
theorem Phase.next {s : Shared D Op R} {own : ι → Processor Op B R}
    (h : Phase code releases d₀ ⟨s, own⟩) (i : ι) :
    Phase code releases d₀ ⟨(Spinlock.next code releases s (own i)).1,
      Function.update own i (Spinlock.next code releases s (own i)).2⟩ := by
  cases hp : own i with
  | elsewhere =>
      exact h.elsewhere (by rw [hp]; exact not_false) not_false Iff.rfl rfl rfl
  | bt op => exact h.elsewhere (by rw [hp]; exact not_false) not_false Iff.rfl rfl rfl
  | jc op cf =>
      refine h.elsewhere (by rw [hp]; exact not_false) ?_ Iff.rfl rfl rfl
      cases cf <;> exact not_false
  | bts op =>
      have hold : ¬ (own i).Holds := by rw [hp]; exact not_false
      -- `lock bts` takes the mutex if it was free, and leaves it taken otherwise
      by_cases hfree : s.Taken
      · have hcf : s.mutex.testBit 0 = true := hfree
        refine h.elsewhere hold ?_ (iff_of_true (taken_or s) hfree) rfl rfl
        show ¬ s.mutex.testBit 0 = false
        rw [hcf]
        exact Bool.false_ne_true.symm
      · have hcf : s.mutex.testBit 0 = false := eq_false_of_ne_true hfree
        exact h.enter hfree hcf (taken_or s) rfl rfl fun _ => rfl
  | jcLocked op cf =>
      cases cf with
      | true =>
          exact h.elsewhere (by rw [hp]; exact Bool.false_ne_true.symm) not_false Iff.rfl rfl rfl
      | false =>
          refine h.inside (by rw [hp]; rfl) trivial fun d hat => ?_
          rw [hp] at hat
          obtain rfl : s.data = d := hat
          exact .refl _ _
  | inside op b =>
      rw [Spinlock.next]
      split
      · rename_i b' data haccess
        refine h.inside (by rw [hp]; trivial) trivial fun d hat => ?_
        rw [hp] at hat
        exact .tail hat haccess
      · rename_i r data haccess
        exact h.ends hp haccess
  | mov => exact h.leave hp (free_byte s.mutex)

/-- So the processors are in one of the phases. -/
theorem reaches_phase {mutex : Nat} (hfree : mutex.testBit 0 = false)
    (hrun : Reaches code releases ⟨⟨mutex, d₀, []⟩, fun _ => .elsewhere⟩ c) :
    Phase code releases d₀ c := by
  refine Agents.Reaches.keeps (fun {c i s l} h hstep => ?_) hrun
    (.free (fun _ => not_false) (by simp [Shared.Taken, hfree]) (.nil d₀) (by simp))
  obtain ⟨shared, own⟩ := c
  change Step code releases shared (own i) s l at hstep
  generalize hp : own i = p at hstep
  cases hstep with
  | call op => exact h.elsewhere (by rw [hp]; exact not_false) not_false Iff.rfl rfl rfl
  | next =>
      rw [← hp]
      exact h.next i

omit [DecidableEq ι] in
/-- The data are those that the calls that have ended leave, unless a processor has the mutex. -/
theorem Phase.serial (h : Phase code releases d₀ c) :
    ∃ d, code.Serial d₀ c.shared.ended d ∧ ((∀ i, ¬ (c.own i).Holds) → c.shared.data = d) := by
  cases h with
  | free hnone hmutex hserial => exact ⟨_, hserial, fun _ => rfl⟩
  | held k hone hmutex d hserial =>
      exact ⟨d, hserial, fun hnone => absurd ((hone k).mpr rfl) (hnone k)⟩
  | kept hnone hmutex hserial => exact ⟨_, hserial, fun _ => rfl⟩

variable (code releases) in
/-- A processor goes on, and calls `op` when it is elsewhere. -/
def turn (op : Op) (s : Shared D Op R) : Processor Op B R → Shared D Op R × Processor Op B R
  | .elsewhere => (s, .bt op)
  | p => Spinlock.next code releases s p

omit [DecidableEq ι] in
theorem turn_step (op : Op) (s : Shared D Op R) (p : Processor Op B R) :
    Step code releases s p (turn code releases op s p).1 (turn code releases op s p).2 := by
  cases p with
  | elsewhere => exact .call s op
  | _ => exact .next s _

variable (code releases) in
/-- The processors take turns in this order. -/
def schedule (op : Op) : List ι → Agents ι (Shared D Op R) (Processor Op B R) →
    Agents ι (Shared D Op R) (Processor Op B R)
  | [], c => c
  | i :: is, c => schedule op is ⟨(turn code releases op c.shared (c.own i)).1,
      Function.update c.own i (turn code releases op c.shared (c.own i)).2⟩

theorem schedule_reaches (op : Op) (is : List ι) :
    ∀ c, Reaches code releases c (schedule code releases op is c) := by
  induction is with
  | nil => exact fun c => .refl
  | cons i is ih =>
      intro c
      exact .head ⟨turn_step op c.shared (c.own i)⟩ (ih _)

/-! ### Some orders of the instructions -/

/-- A processor begins a call. -/
theorem Reaches.call {s : Shared D Op R} {own : ι → Processor Op B R} {i : ι}
    (h : Reaches code releases c ⟨s, own⟩) (hown : own i = .elsewhere) (op : Op) :
    Reaches code releases c ⟨s, Function.update own i (.bt op)⟩ := by
  refine h.tail ⟨?_⟩
  show Step code releases s (own i) _ _
  rw [hown]
  exact .call s op

/-- A processor goes on. -/
theorem Reaches.next {s s' : Shared D Op R} {own : ι → Processor Op B R} {i : ι}
    {p p' : Processor Op B R} (h : Reaches code releases c ⟨s, Function.update own i p⟩)
    (hnext : Spinlock.next code releases s p = (s', p')) :
    Reaches code releases c ⟨s', Function.update own i p'⟩ := by
  have hown : Function.update own i p' = Function.update (Function.update own i p) i p' :=
    (Function.update_idem _ _ _).symm
  rw [hown]
  refine h.tail ⟨?_⟩
  show Step code releases s (Function.update own i p i) s' p'
  have hstep : Step code releases s p _ _ := .next s p
  rw [hnext] at hstep
  rw [Function.update_self]
  exact hstep

/-- A processor finds the mutex free. -/
theorem Reaches.inside {s : Shared D Op R} {own : ι → Processor Op B R} {i : ι} {op : Op}
    (h : Reaches code releases c ⟨s, Function.update own i (.bt op)⟩)
    (hfree : s.mutex.testBit 0 = false) : Reaches code releases c
      ⟨{ s with mutex := s.mutex ||| 1 }, Function.update own i (.inside op (code.enter op))⟩ := by
  have hbts : Spinlock.next code releases s (.bts op)
      = ({ s with mutex := s.mutex ||| 1 }, .jcLocked op false) := by
    rw [Spinlock.next, hfree]
  have hjc : Spinlock.next code releases s (.bt op) = (s, .jc op false) := by
    rw [Spinlock.next, hfree]
  exact (((h.next hjc).next rfl).next hbts).next rfl

/-- It goes on behind `acquire`. -/
theorem Reaches.path {s : Shared D Op R} {own : ι → Processor Op B R} {i : ι} {op : Op}
    {b b' : B} {d : D} (h : Reaches code releases c ⟨s, Function.update own i (.inside op b)⟩)
    (hpath : code.Path b s.data b' d) : Reaches code releases c
      ⟨{ s with data := d }, Function.update own i (.inside op b')⟩ := by
  generalize hdata : s.data = d₁ at hpath
  induction hpath with
  | refl =>
      subst hdata
      exact h
  | tail _ haccess ih => exact (ih hdata).next (by rw [Spinlock.next, haccess])

/-- It comes to its `release`. -/
theorem Reaches.ends {s : Shared D Op R} {own : ι → Processor Op B R} {i : ι} {op : Op}
    (h : Reaches code releases c ⟨s, Function.update own i (.inside op (code.enter op))⟩) {r : R}
    {d : D} (hruns : code.Runs op s.data r d) (hreleases : releases op r = true) :
    Reaches code releases c
      ⟨⟨s.mutex / 256 * 256, d, s.ended ++ [(op, r)]⟩, Function.update own i .elsewhere⟩ := by
  obtain ⟨b, d₁, hpath, hlast⟩ := hruns
  have hends : Spinlock.next code releases { s with data := d₁ } (.inside op b) =
      (⟨s.mutex, d, s.ended ++ [(op, r)]⟩, .mov) := by
    rw [Spinlock.next, hlast]
    simp only [hreleases, if_true]
  exact ((h.path hpath).next hends).next rfl

/-- **Calls under a spinlock.** In any order of the instructions of any number of processors, at most
one of them is behind `acquire`. The data are those that the calls that have ended leave one after
the other, and the call in progress has gone on from there. The mutex is taken exactly while a
processor is behind `acquire`, and for ever once a call has ended without `release`. -/
theorem calls_serial (code : Code D Op B R) (releases : Op → R → Bool) (d₀ : D) (mutex : Nat)
    (hfree : mutex.testBit 0 = false) (c : Agents ι (Shared D Op R) (Processor Op B R))
    (hrun : Reaches code releases ⟨⟨mutex, d₀, []⟩, fun _ => .elsewhere⟩ c) :
    (∀ i j, (c.own i).Holds → (c.own j).Holds → i = j) ∧
    (∃ d, code.Serial d₀ c.shared.ended d ∧ ((∀ i, ¬ (c.own i).Holds) → c.shared.data = d) ∧
      ∀ i op b, c.own i = .inside op b → code.Path (code.enter op) d b c.shared.data) ∧
    (c.shared.Taken ↔ (∃ i, (c.own i).Holds) ∨ ∃ e ∈ c.shared.ended, releases e.1 e.2 = false) ∧
    ∀ e ∈ c.shared.ended, releases e.1 e.2 = false → ∀ i, ¬ (c.own i).Holds := by
  cases reaches_phase hfree hrun with
  | free hnone hmutex hserial hreleased =>
      refine ⟨fun i j hi => absurd hi (hnone i), ⟨_, hserial, fun _ => rfl, ?_⟩, ?_, ?_⟩
      · intro i op b hinside
        exact absurd (by rw [hinside]; trivial) (hnone i)
      · refine iff_of_false hmutex ?_
        rintro (⟨i, hi⟩ | ⟨e, he, hkept⟩)
        · exact hnone i hi
        · rw [hreleased e he] at hkept
          cases hkept
      · exact fun _ _ _ => hnone
  | held k hone hmutex d hserial hat hreleased =>
      refine ⟨fun i j hi hj => ((hone i).mp hi).trans ((hone j).mp hj).symm,
        ⟨d, hserial, fun hnone => absurd ((hone k).mpr rfl) (hnone k), ?_⟩,
        iff_of_true hmutex (Or.inl ⟨k, (hone k).mpr rfl⟩), ?_⟩
      · intro i op b hinside
        obtain rfl : i = k := (hone i).mp (by rw [hinside]; trivial)
        rw [hinside] at hat
        exact hat
      · intro e he hkept
        rw [hreleased e he] at hkept
        cases hkept
  | kept hnone hmutex hserial hkept =>
      refine ⟨fun i j hi => absurd hi (hnone i), ⟨_, hserial, fun _ => rfl, ?_⟩,
        iff_of_true hmutex (Or.inr hkept), fun _ _ _ => hnone⟩
      intro i op b hinside
      exact absurd (by rw [hinside]; trivial) (hnone i)

end Run

/-- A counter, read and written by two accesses. -/
def counter : Code Nat Unit (Option Nat) Nat where
  enter _ := none
  access
    | none, d => (.inl (some d), d)
    | some n, _ => (.inr n, n + 1)

/-- Two processors at it, in turns. -/
def counted : Agents (Fin 2) (Shared Nat Unit Nat) (Processor Unit (Option Nat) Nat) :=
  schedule counter (fun _ _ => true) ()
    [0, 1, 0, 1, 0, 1, 0, 1, 0, 1, 0, 1, 0, 1, 0, 1, 1, 1, 1, 1, 1, 1]
    ⟨⟨0, 0, []⟩, fun _ => .elsewhere⟩

/-- Neither of the two increments is lost. -/
theorem calls_serial_counter : counted.shared.data = 2 ∧ counted.shared.ended = [((), 0), ((), 1)] ∧
    ∃ d, counter.Serial 0 counted.shared.ended d ∧
      ((∀ i, ¬ (counted.own i).Holds) → counted.shared.data = d) := by
  have h := calls_serial counter (fun _ _ => true) 0 0 (by decide) counted (schedule_reaches _ _ _)
  obtain ⟨-, ⟨d, hserial, hdata, -⟩, -⟩ := h
  exact ⟨by decide +kernel, by decide +kernel, d, hserial, hdata⟩

end Windozz.Kernel.Spinlock

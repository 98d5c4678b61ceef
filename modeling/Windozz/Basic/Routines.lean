import Mathlib.Data.Finset.Erase
import Mathlib.Data.Finset.Insert
import Windozz.Basic.Agents
import Windozz.Basic.Program

set_option autoImplicit false

/-! # Programs that take locks

A `Routine` is a program as others see it that run beside it: it takes locks and gives them back,
and in between it acts on a state. Run alone it is a program like any other (`Routine.run`).

`Routine.Orderly` says that locks are taken in increasing rank, given back by who has them, and none
is left at the end. Whatever the actions of such routines read, and in whatever order the workers
take their steps, a lock belongs to one worker (`Exclusive`), and where a worker waits another one
goes on (`Exclusive.progress`).
-/

namespace Windozz

/-- A program that takes locks. An action reads the state and goes on with what it has read. -/
inductive Routine (M σ ε α : Type)
  | done (a : α)
  | stop (e : ε)
  | acquire (m : M) (next : Routine M σ ε α)
  | release (m : M) (next : Routine M σ ε α)
  /-- From here on a lock is not given back. -/
  | keep (next : Routine M σ ε α)
  | act (f : σ → σ) (next : σ → Routine M σ ε α)

namespace Routine

variable {M σ τ ε α β : Type}

/-- A sequence. -/
def bind : Routine M σ ε α → (α → Routine M σ ε β) → Routine M σ ε β
  | done a, k => k a
  | stop e, _ => stop e
  | acquire m next, k => acquire m (next.bind k)
  | release m next, k => release m (next.bind k)
  | keep next, k => keep (next.bind k)
  | act f next, k => act f fun s => (next s).bind k

instance : Monad (Routine M σ ε) where
  pure := done
  bind := bind

/-- Taking a lock. -/
def lock (m : M) : Routine M σ ε Unit := acquire m (done ())

/-- Giving it back. -/
def unlock (m : M) : Routine M σ ε Unit := release m (done ())

/-- A lock stays. -/
def kept : Routine M σ ε Unit := keep (done ())

/-- A program without locks, as one action. -/
def lift (p : Prog σ ε α) : Routine M σ ε α :=
  act (fun s => match p s with
      | .ok (_, s') => s'
      | .error _ => s)
    fun s => match p s with
      | .ok (a, _) => done a
      | .error e => stop e

/-- A routine on a part of the state. -/
def on (get : τ → σ) (put : σ → τ → τ) : Routine M σ ε α → Routine M τ ε α
  | done a => done a
  | stop e => stop e
  | acquire m next => acquire m (next.on get put)
  | release m next => release m (next.on get put)
  | keep next => keep (next.on get put)
  | act f next => act (fun t => put (f (get t)) t) fun t => (next (get t)).on get put

/-! ## Run alone -/

/-- The routine run alone, for what the locks do to the state. -/
def run (take give : M → Prog σ ε PUnit) : Routine M σ ε α → Prog σ ε α
  | done a => pure a
  | stop e => throw e
  | acquire m next => take m >>= fun _ => next.run take give
  | release m next => give m >>= fun _ => next.run take give
  | keep next => next.run take give
  | act f next => fun s => (next s).run take give (f s)

section Run

variable (take give : M → Prog σ ε PUnit)

@[simp] theorem run_pure (a : α) : (pure a : Routine M σ ε α).run take give = pure a := rfl

@[simp] theorem run_stop (e : ε) : (stop e : Routine M σ ε α).run take give = throw e := rfl

@[simp] theorem run_bind (t : Routine M σ ε α) (k : α → Routine M σ ε β) :
    (t >>= k).run take give = t.run take give >>= fun a => (k a).run take give := by
  show (t.bind k).run take give = _
  induction t with
  | done a => exact (pure_bind a fun a => (k a).run take give).symm
  | stop e => rfl
  | acquire m next ih =>
      rw [bind, run, run, bind_assoc]
      simp only [ih]
  | release m next ih =>
      rw [bind, run, run, bind_assoc]
      simp only [ih]
  | keep next ih => exact ih
  | act f next ih =>
      funext s
      exact congrFun (ih s) (f s)

@[simp] theorem run_lock (m : M) : (lock m : Routine M σ ε Unit).run take give = take m := by
  funext s
  rw [lock, run, Prog.run_bind]
  cases take m s with
  | ok p => rfl
  | error e => rfl

@[simp] theorem run_unlock (m : M) : (unlock m : Routine M σ ε Unit).run take give = give m := by
  funext s
  rw [unlock, run, Prog.run_bind]
  cases give m s with
  | ok p => rfl
  | error e => rfl

@[simp] theorem run_kept : (kept : Routine M σ ε Unit).run take give = pure () := rfl

@[simp] theorem run_lift (p : Prog σ ε α) : (lift p : Routine M σ ε α).run take give = p := by
  funext s
  show (match p s with
    | .ok (a, _) => done a
    | .error e => stop e : Routine M σ ε α).run take give (match p s with
      | .ok (_, s') => s'
      | .error _ => s) = p s
  cases p s with
  | ok q => rfl
  | error e => rfl

/-- A program on a part of the state. -/
def onPart (get : τ → σ) (put : σ → τ → τ) (p : Prog σ ε α) : Prog τ ε α := fun t =>
  match p (get t) with
  | .ok (a, s) => .ok (a, put s t)
  | .error e => .error e

/-- A routine on a part of the state does what it does, and leaves the rest. -/
theorem run_on {get : τ → σ} {put : σ → τ → τ} (hget : ∀ s t, get (put s t) = s)
    (hput : ∀ s s' t, put s' (put s t) = put s' t) (hself : ∀ t, put (get t) t = t)
    (r : Routine M σ ε α) :
    (r.on get put).run (fun m => onPart get put (take m)) (fun m => onPart get put (give m))
      = onPart get put (r.run take give) := by
  have hseq : ∀ (p : Prog σ ε PUnit) (q : Prog σ ε α),
      (onPart get put p >>= fun _ => onPart get put q) = onPart get put (p >>= fun _ => q) := by
    intro p q
    funext t
    simp only [onPart, Prog.run_bind]
    cases p (get t) with
    | ok x => simp only [hget, hput]
    | error e => rfl
  induction r with
  | done a =>
      funext t
      exact congrArg (fun x => Except.ok (a, x)) (hself t).symm
  | stop e => rfl
  | acquire m next ih =>
      rw [on, run, run, ih]
      exact hseq _ _
  | release m next ih =>
      rw [on, run, run, ih]
      exact hseq _ _
  | keep next ih => exact ih
  | act f next ih =>
      funext t
      refine (congrFun (ih (get t)) (put (f (get t)) t)).trans ?_
      simp only [onPart, hget, hput]
      rfl

end Run

/-! ## The order of the locks -/

variable [DecidableEq M]

/-- Locks are taken in increasing rank and given back by the routine that has them, and `after` are
left at the end. -/
def Orderly (rank : M → Nat) : Routine M σ ε α → Finset M → Finset M → Prop
  | done _, held, after => held = after
  | stop _, _, _ => True
  | acquire m next, held, after =>
      (∀ x ∈ held, rank x < rank m) ∧ next.Orderly rank (insert m held) after
  | release m next, held, after => m ∈ held ∧ next.Orderly rank (held.erase m) after
  | keep _, _, _ => True
  | act _ next, held, after => ∀ s, (next s).Orderly rank held after

section Orderly

variable {rank : M → Nat} {held after after' : Finset M}

theorem orderly_pure (a : α) : (pure a : Routine M σ ε α).Orderly rank held held := rfl

theorem orderly_stop (e : ε) : (stop e : Routine M σ ε α).Orderly rank held after := trivial

theorem orderly_kept {k : Unit → Routine M σ ε α} :
    (kept >>= k).Orderly rank held after := trivial

theorem orderly_lift (p : Prog σ ε α) : (lift p : Routine M σ ε α).Orderly rank held held := by
  intro s
  show (match p s with
    | .ok (a, _) => done a
    | .error e => stop e : Routine M σ ε α).Orderly rank held held
  cases p s with
  | ok x => rfl
  | error e => trivial

theorem orderly_lock {m : M} (h : ∀ x ∈ held, rank x < rank m) :
    (lock m : Routine M σ ε Unit).Orderly rank held (insert m held) := ⟨h, rfl⟩

theorem orderly_unlock {m : M} (h : m ∉ held) :
    (unlock m : Routine M σ ε Unit).Orderly rank (insert m held) held :=
  ⟨Finset.mem_insert_self m held, Finset.erase_insert h⟩

theorem Orderly.bind {r : Routine M σ ε α} {k : α → Routine M σ ε β} :
    ∀ {held : Finset M}, r.Orderly rank held after → (∀ a, (k a).Orderly rank after after') →
      (r >>= k).Orderly rank held after' := by
  show ∀ {held : Finset M}, r.Orderly rank held after → (∀ a, (k a).Orderly rank after after') →
    (r.bind k).Orderly rank held after'
  induction r with
  | done a =>
      rintro _ rfl hk
      exact hk a
  | stop e => exact fun _ _ => trivial
  | acquire m next ih => exact fun h hk => ⟨h.1, ih h.2 hk⟩
  | release m next ih => exact fun h hk => ⟨h.1, ih h.2 hk⟩
  | keep next ih => exact fun _ _ => trivial
  | act f next ih => exact fun h hk s => ih s (h s) hk

/-- What is done behind an action. -/
theorem orderly_after {p : Prog σ ε α} {k : α → Routine M σ ε β}
    (hk : ∀ a, (k a).Orderly rank held after) : (lift p >>= k).Orderly rank held after :=
  (orderly_lift p).bind hk

theorem orderly_on (get : τ → σ) (put : σ → τ → τ) {r : Routine M σ ε α} :
    ∀ {held : Finset M}, r.Orderly rank held after → (r.on get put).Orderly rank held after := by
  induction r with
  | done a => exact fun h => h
  | stop e => exact fun _ => trivial
  | acquire m next ih => exact fun h => ⟨h.1, ih h.2⟩
  | release m next ih => exact fun h => ⟨h.1, ih h.2⟩
  | keep next ih => exact fun _ => trivial
  | act f next ih => exact fun h t => ih _ (h (get t))

/-- The lock is above all that are held. -/
def Above (rank : M → Nat) (m : M) (held : Finset M) : Prop := ∀ x ∈ held, rank x < rank m

omit [DecidableEq M] in
theorem Above.notMem {m : M} (h : Above rank m held) : m ∉ held := fun hm =>
  lt_irrefl _ (h m hm)

omit [DecidableEq M] in
theorem Above.mono {m m' : M} (h : Above rank m held) (hrank : rank m ≤ rank m') :
    Above rank m' held := fun x hx => lt_of_lt_of_le (h x hx) hrank

theorem Above.push {m m' : M} (h : Above rank m held) (hrank : rank m < rank m') :
    Above rank m' (insert m held) := by
  intro x hx
  rcases Finset.mem_insert.mp hx with rfl | hx
  · exact hrank
  · exact lt_trans (h x hx) hrank

/-- What is done behind `lock`. -/
theorem Above.lock {m : M} (h : Above rank m held) {k : Unit → Routine M σ ε α}
    (hk : (k ()).Orderly rank (insert m held) after) :
    (Routine.lock m >>= k).Orderly rank held after :=
  (orderly_lock h).bind fun _ => hk

/-- What is done behind `unlock`. -/
theorem Above.unlock {m : M} (h : Above rank m held) {k : Unit → Routine M σ ε α}
    (hk : (k ()).Orderly rank held after) :
    (Routine.unlock m >>= k).Orderly rank (insert m held) after :=
  (orderly_unlock h.notMem).bind fun _ => hk

end Orderly

end Routine

/-! ## Workers -/

/-- A worker: what it has to do, and the locks it has taken. -/
structure Worker (M σ ε : Type) where
  routine : Routine M σ ε Unit
  held : Finset M

namespace Worker

variable {M σ ε : Type} [DecidableEq M]

/-- A worker calls one of the routines, takes a lock that is free, gives one back, or acts. What an
action reads is anything: other workers may have acted in between. -/
inductive Step (calls : Routine M σ ε Unit → Prop) :
    (M → Bool) → Worker M σ ε → (M → Bool) → Worker M σ ε → Prop
  | call {taken : M → Bool} {held : Finset M} {r : Routine M σ ε Unit} (h : calls r) :
      Step calls taken ⟨.done (), held⟩ taken ⟨r, held⟩
  | acquire {taken : M → Bool} {held : Finset M} {m : M} {next : Routine M σ ε Unit}
      (h : taken m = false) : Step calls taken ⟨.acquire m next, held⟩
        (Function.update taken m true) ⟨next, insert m held⟩
  | release {taken : M → Bool} {held : Finset M} {m : M} {next : Routine M σ ε Unit} :
      Step calls taken ⟨.release m next, held⟩ (Function.update taken m false)
        ⟨next, held.erase m⟩
  | act {taken : M → Bool} {held : Finset M} {f : σ → σ} {next : σ → Routine M σ ε Unit} (s : σ) :
      Step calls taken ⟨.act f next, held⟩ taken ⟨next s, held⟩

/-- A worker that is not in a call. -/
def idle : Worker M σ ε := ⟨.done (), ∅⟩

/-- No lock is taken and no worker is in a call. -/
def start {ι : Type} : Agents ι (M → Bool) (Worker M σ ε) := ⟨fun _ => false, fun _ => idle⟩

/-- The worker waits for a lock. -/
def Waits (taken : M → Bool) (w : Worker M σ ε) : Prop :=
  ∃ m next, w.routine = .acquire m next ∧ taken m = true

/-- The worker has stopped, or keeps a lock. -/
def Halted (w : Worker M σ ε) : Prop := (∃ e, w.routine = .stop e) ∨ ∃ next, w.routine = .keep next

/-- A worker that neither waits nor has halted takes a step. -/
theorem step_or_waits [Nonempty σ] {calls : Routine M σ ε Unit → Prop} (hcalls : ∃ r, calls r) (taken : M → Bool)
    (w : Worker M σ ε) : (∃ taken' w', Step calls taken w taken' w') ∨ w.Waits taken ∨ w.Halted := by
  obtain ⟨routine, held⟩ := w
  cases routine with
  | done a =>
      obtain ⟨r, hr⟩ := hcalls
      exact Or.inl ⟨_, _, .call hr⟩
  | stop e => exact Or.inr (Or.inr (Or.inl ⟨e, rfl⟩))
  | acquire m next =>
      cases hm : taken m with
      | true => exact Or.inr (Or.inl ⟨m, next, rfl, hm⟩)
      | false => exact Or.inl ⟨_, _, .acquire hm⟩
  | release m next => exact Or.inl ⟨_, _, .release⟩
  | keep next => exact Or.inr (Or.inr (Or.inr ⟨next, rfl⟩))
  | act f next => exact Or.inl ⟨_, _, .act (Classical.arbitrary σ)⟩


end Worker

/-- The locks of the workers are in order: each has its own, and they are what is taken. -/
structure Exclusive {ι M σ ε : Type} [DecidableEq M] (rank : M → Nat) (taken : M → Bool)
    (own : ι → Worker M σ ε) : Prop where
  orderly : ∀ i, (own i).routine.Orderly rank (own i).held ∅
  apart : ∀ i j m, m ∈ (own i).held → m ∈ (own j).held → i = j
  taken_iff : ∀ m, taken m = true ↔ ∃ i, m ∈ (own i).held

namespace Exclusive

open Routine

variable {ι M σ ε : Type} [DecidableEq ι] [DecidableEq M] {rank : M → Nat} {taken : M → Bool}
  {own : ι → Worker M σ ε} {i : ι} {w : Worker M σ ε}

/-- The routines stay in order. -/
theorem orderly_update (h : Exclusive rank taken own) (hw : w.routine.Orderly rank w.held ∅) :
    ∀ j, (Function.update own i w j).routine.Orderly rank (Function.update own i w j).held ∅ :=
  (Function.forall_update_iff own fun _ v => v.routine.Orderly rank v.held ∅).mpr
    ⟨hw, fun j _ => h.orderly j⟩

omit [DecidableEq M] in
/-- What is held after a step of one worker. -/
theorem held_update (j : ι) :
    (Function.update own i w j).held = if j = i then w.held else (own j).held := by
  by_cases hj : j = i
  · rw [if_pos hj, hj, Function.update_self]
  · rw [if_neg hj, Function.update_of_ne hj]

/-- A worker that goes on with the locks it has. -/
theorem goes_on (h : Exclusive rank taken own) (hheld : w.held = (own i).held)
    (hw : w.routine.Orderly rank w.held ∅) : Exclusive rank taken (Function.update own i w) := by
  have hsame : ∀ j, (Function.update own i w j).held = (own j).held := by
    intro j
    rw [held_update]
    split
    · rename_i hj
      rw [hj, hheld]
    · rfl
  refine ⟨h.orderly_update hw, fun j k m hj hk => ?_, fun m => ?_⟩
  · rw [hsame] at hj hk
    exact h.apart j k m hj hk
  · simp only [hsame]
    exact h.taken_iff m

/-- A worker that takes a lock. -/
theorem takes (h : Exclusive rank taken own) {m : M} (hfree : taken m = false)
    (hheld : w.held = insert m (own i).held) (hw : w.routine.Orderly rank w.held ∅) :
    Exclusive rank (Function.update taken m true) (Function.update own i w) := by
  have hnone : ∀ j, m ∉ (own j).held := by
    intro j hj
    have htaken := (h.taken_iff m).mpr ⟨j, hj⟩
    rw [hfree] at htaken
    cases htaken
  have hmem : ∀ j x, x ∈ (Function.update own i w j).held ↔
      x ∈ (own j).held ∨ (j = i ∧ x = m) := by
    intro j x
    rw [held_update]
    split
    · rename_i hj
      simp [hj, hheld, or_comm]
    · rename_i hj
      simp [hj]
  refine ⟨h.orderly_update hw, fun j k x hj hk => ?_, fun x => ?_⟩
  · rcases (hmem j x).mp hj with hold | ⟨hi, hx⟩
    · rcases (hmem k x).mp hk with hold' | ⟨hi', hx'⟩
      · exact h.apart j k x hold hold'
      · exact absurd (hx' ▸ hold) (hnone j)
    · rcases (hmem k x).mp hk with hold' | ⟨hi', hx'⟩
      · exact absurd (hx ▸ hold') (hnone k)
      · rw [hi, hi']
  · simp only [hmem]
    by_cases hx : x = m
    · rw [hx, Function.update_self]
      exact iff_of_true rfl ⟨i, Or.inr ⟨rfl, rfl⟩⟩
    · rw [Function.update_of_ne hx]
      refine (h.taken_iff x).trans (exists_congr fun j => ?_)
      simp [hx]

/-- A worker that gives a lock back. -/
theorem gives (h : Exclusive rank taken own) {m : M} (hm : m ∈ (own i).held)
    (hheld : w.held = (own i).held.erase m) (hw : w.routine.Orderly rank w.held ∅) :
    Exclusive rank (Function.update taken m false) (Function.update own i w) := by
  have hmem : ∀ j x, x ∈ (Function.update own i w j).held ↔ x ∈ (own j).held ∧ x ≠ m := by
    intro j x
    rw [held_update]
    split
    · rename_i hj
      rw [hj, hheld, Finset.mem_erase, and_comm]
    · rename_i hj
      refine (and_iff_left_of_imp fun hx => ?_).symm
      rintro rfl
      exact hj (h.apart j i x hx hm)
  refine ⟨h.orderly_update hw, fun j k x hj hk => ?_, fun x => ?_⟩
  · exact h.apart j k x ((hmem j x).mp hj).1 ((hmem k x).mp hk).1
  · simp only [hmem]
    by_cases hx : x = m
    · rw [hx, Function.update_self]
      exact iff_of_false Bool.false_ne_true fun ⟨_, _, hne⟩ => hne rfl
    · rw [Function.update_of_ne hx]
      refine (h.taken_iff x).trans (exists_congr fun j => ?_)
      simp [hx]

/-- Every step of a worker keeps the locks in order. -/
theorem step {calls : Routine M σ ε Unit → Prop} (hcalls : ∀ r, calls r → r.Orderly rank ∅ ∅)
    (h : Exclusive rank taken own) {taken' : M → Bool}
    (hstep : Worker.Step calls taken (own i) taken' w) :
    Exclusive rank taken' (Function.update own i w) := by
  have horderly := h.orderly i
  generalize hv : own i = v at hstep horderly
  have hheld : (own i).held = v.held := by rw [hv]
  cases hstep with
  | call hr =>
      -- behind a call nothing is held
      have hnone : _ = ∅ := horderly
      refine h.goes_on hheld.symm ?_
      rw [hnone]
      exact hcalls _ hr
  | acquire hfree => exact h.takes hfree (by rw [hheld]) horderly.2
  | release => exact h.gives (by rw [hheld]; exact horderly.1) (by rw [hheld]) horderly.2
  | act s => exact h.goes_on hheld.symm (horderly s)

omit [DecidableEq ι] in
/-- Where a worker waits, another one has a lock and does not wait: the one with the last of the
locks that are waited for. -/
theorem holder {bound : Nat} (hbound : ∀ m, rank m < bound) (h : Exclusive rank taken own)
    (hwait : (own i).Waits taken) : ∃ j, ¬ (own j).Waits taken ∧ (own j).held.Nonempty := by
  obtain ⟨m, next, hroutine, htaken⟩ := hwait
  induction hn : bound - rank m using Nat.strongRecOn generalizing i m next with
  | ind n ih =>
      obtain ⟨j, hj⟩ := (h.taken_iff m).mp htaken
      by_cases hwaits : (own j).Waits taken
      · obtain ⟨m', next', hroutine', htaken'⟩ := hwaits
        have horderly := h.orderly j
        rw [hroutine'] at horderly
        have hless := horderly.1 m hj
        have hlt := hbound m
        exact ih (bound - rank m') (by omega) m' next' hroutine' htaken' rfl
      · exact ⟨j, hwaits, m, hj⟩

omit [DecidableEq ι] in
/-- It goes on, unless it has halted. -/
theorem progress [Nonempty σ] {calls : Routine M σ ε Unit → Prop} (hcalls : ∃ r, calls r)
    {bound : Nat} (hbound : ∀ m, rank m < bound) (h : Exclusive rank taken own)
    (hwait : (own i).Waits taken) : ∃ j, (own j).held.Nonempty ∧
      ((∃ taken' w', Worker.Step calls taken (own j) taken' w') ∨ (own j).Halted) := by
  obtain ⟨j, hwaits, hheld⟩ := h.holder hbound hwait
  refine ⟨j, hheld, ?_⟩
  rcases Worker.step_or_waits hcalls taken (own j) with hstep | hwaits' | hhalted
  · exact Or.inl hstep
  · exact absurd hwaits' hwaits
  · exact Or.inr hhalted

/-- At the start no lock is taken, so the locks are in order in every state reached. -/
theorem reaches {calls : Routine M σ ε Unit → Prop} (hcalls : ∀ r, calls r → r.Orderly rank ∅ ∅)
    {c : Agents ι (M → Bool) (Worker M σ ε)}
    (h : Agents.Reaches (fun _ => Worker.Step calls) Worker.start c) :
    Exclusive rank c.shared c.own := by
  have hstart : Exclusive rank (fun _ => false) fun _ : ι => (Worker.idle : Worker M σ ε) :=
    ⟨fun _ => orderly_pure (), fun _ _ m hm => absurd hm (Finset.notMem_empty m),
      fun m => ⟨nofun, fun ⟨_, hm⟩ => absurd hm (Finset.notMem_empty m)⟩⟩
  induction h with
  | refl => exact hstart
  | tail _ hlast ih =>
      obtain ⟨hown⟩ := hlast
      exact ih.step hcalls hown

end Exclusive

-- what is known of the order of a routine is known from the lemmas above
attribute [irreducible] Routine.Orderly

end Windozz

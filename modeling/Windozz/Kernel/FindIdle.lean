import Windozz.Kernel.Sched

set_option autoImplicit false

/-! # The thread that `find_idle` selects

`find_idle` is meant to go on behind the current thread and to start again at the first one: the
next idle thread in the cyclic lexicographic order of process and slot (`CyclicLt`). The index the
inner loop starts from is set once and kept for all processes of a pass, so that a pass looks at
the slots of `Ahead` only, and the threads of later processes in lower slots are passed over
(`findIdle_next_iff`).
-/

namespace Windozz.Kernel

/-! ## Orders of slots -/

/-- The lexicographic order. -/
def LexLt (x y : Nat × Nat) : Prop := x.1 < y.1 ∨ x.1 = y.1 ∧ x.2 < y.2

/-- In the cyclic order that starts at `c` the slot `x` comes before `y`: both are at `c` or behind
it, or both are in front of it, and `x` is the smaller one; or `y` alone is in front of it. -/
def CyclicLt (c x y : Nat × Nat) : Prop :=
  (LexLt x c ↔ LexLt y c) ∧ LexLt x y ∨ ¬ LexLt x c ∧ LexLt y c

/-- The slots that the first pass of `find_idle` looks at. -/
def Ahead (c x : Nat × Nat) : Prop := c.1 ≤ x.1 ∧ c.2 ≤ x.2

section Search

variable {α : Type} {r : α → α → Prop} {p : α → Bool} {l : List α} {x : α}

/-- In a list in ascending order the element that is found is the first one of its kind. -/
theorem find?_first (hsorted : l.Pairwise r) (hfound : l.find? p = some x) :
    ∀ y ∈ l, p y = true → y = x ∨ r x y := by
  obtain ⟨-, as, bs, rfl, hbefore⟩ := List.find?_eq_some_iff_append.mp hfound
  intro y hy hpy
  rcases List.mem_append.mp hy with hy | hy
  · have hno := hbefore y hy
    rw [hpy] at hno
    cases hno
  · rcases List.mem_cons.mp hy with rfl | hy
    · exact Or.inl rfl
    · exact Or.inr (List.rel_of_pairwise_cons (List.pairwise_append.mp hsorted).2.1 hy)

end Search

/-- A pass goes through the slots in lexicographic order. -/
theorem slotsFrom_sorted (pid tid : Nat) : (slotsFrom pid tid).Pairwise LexLt := by
  rw [slotsFrom, List.pairwise_flatMap]
  constructor
  · intro i _
    rw [List.pairwise_map]
    exact (List.pairwise_lt_range' 1).imp fun hlt => Or.inr ⟨rfl, hlt⟩
  · refine (List.pairwise_lt_range' 1).imp fun hlt x hx y hy => Or.inl ?_
    obtain ⟨_, -, rfl⟩ := List.mem_map.mp hx
    obtain ⟨_, -, rfl⟩ := List.mem_map.mp hy
    exact hlt

/-! ## What the passes find -/

namespace Sched

/-- An idle thread of a valid process. -/
def Idle (s : Sched) (x : Nat × Nat) : Prop :=
  x.1 < MAX_PROCESSES ∧ x.2 < MAX_THREADS ∧ s.IsThread x.1 x.2 ∧
    (s.thread x.1 x.2).status = .THREAD_IDLE

/-- The current slot. -/
def cursor (s : Sched) : Nat × Nat := (s.cpu.pid, s.cpu.tid)

end Sched

theorem idle_iff {s : Sched} {x : Nat × Nat} {pid tid : Nat} :
    x ∈ slotsFrom pid tid ∧ s.isIdle x.1 x.2 = true ↔ s.Idle x ∧ Ahead (pid, tid) x := by
  obtain ⟨i, j⟩ := x
  rw [mem_slotsFrom, isIdle_iff, Sched.Idle, Ahead]
  constructor
  · rintro ⟨⟨⟨hpid, hi⟩, htid, hj⟩, hidle⟩
    exact ⟨⟨hi, hj, hidle⟩, hpid, htid⟩
  · rintro ⟨⟨hi, hj, hidle⟩, hpid, htid⟩
    exact ⟨⟨⟨hpid, hi⟩, htid, hj⟩, hidle⟩

/-- The first of all threads with a property. -/
def Least (P : Nat × Nat → Prop) (x : Nat × Nat) : Prop := P x ∧ ∀ y, P y → y = x ∨ LexLt x y

/-- What a pass finds. -/
theorem pass_spec (s : Sched) (pid tid : Nat) :
    match (slotsFrom pid tid).find? fun x => s.isIdle x.1 x.2 with
    | some x => Least (fun y => s.Idle y ∧ Ahead (pid, tid) y) x
    | none => ∀ y, s.Idle y → ¬ Ahead (pid, tid) y := by
  cases hfind : (slotsFrom pid tid).find? fun x => s.isIdle x.1 x.2 with
  | none =>
      intro y hy hahead
      obtain ⟨hmem, hidle⟩ := idle_iff.mpr ⟨hy, hahead⟩
      have hno := List.find?_eq_none.mp hfind y hmem
      exact hno hidle
  | some x =>
      have hmem := List.mem_of_find?_eq_some hfind
      have hidle := List.find?_some hfind
      refine ⟨idle_iff.mp ⟨hmem, hidle⟩, fun y hy => ?_⟩
      obtain ⟨hmemy, hidley⟩ := idle_iff.mpr hy
      exact find?_first (slotsFrom_sorted pid tid) hfind y hmemy hidley

/-- **The search of `find_idle`**: the first thread ahead of the cursor, or else the first of
all. -/
theorem searchIdle_spec (s : Sched) :
    match searchIdle s with
    | some x => Least (fun y => s.Idle y ∧ Ahead s.cursor y) x ∨
        (∀ y, s.Idle y → ¬ Ahead s.cursor y) ∧ Least s.Idle x
    | none => ∀ y, ¬ s.Idle y := by
  have hfirst := pass_spec s s.cpu.pid s.cpu.tid
  have hsecond := pass_spec s 0 0
  have hall : ∀ y, Ahead (0, 0) y := fun y => ⟨Nat.zero_le _, Nat.zero_le _⟩
  rw [searchIdle, List.find?_append]
  cases h₁ : (slotsFrom s.cpu.pid s.cpu.tid).find? fun x => s.isIdle x.1 x.2 with
  | some x =>
      rw [h₁] at hfirst
      exact Or.inl hfirst
  | none =>
      rw [h₁] at hfirst
      rw [Option.none_or]
      cases h₂ : (slotsFrom 0 0).find? fun x => s.isIdle x.1 x.2 with
      | some x =>
          rw [h₂] at hsecond
          obtain ⟨⟨hx, -⟩, hleast⟩ := hsecond
          exact Or.inr ⟨hfirst, hx, fun y hy => hleast y ⟨hy, hall y⟩⟩
      | none =>
          rw [h₂] at hsecond
          exact fun y hy => hsecond y hy (hall y)

theorem LexLt.asymm {x y : Nat × Nat} (h : LexLt x y) : ¬ LexLt y x := by
  unfold LexLt at *
  omega

/-- With no thread ahead of the cursor the first one is found. -/
theorem searchIdle_wraps {s : Sched} {x : Nat × Nat} (hnone : ∀ y, s.Idle y → ¬ Ahead s.cursor y)
    (hleast : Least s.Idle x) : searchIdle s = some x := by
  have hspec := searchIdle_spec s
  cases hfound : searchIdle s with
  | none =>
      rw [hfound] at hspec
      exact absurd hleast.1 (hspec x)
  | some y =>
      rw [hfound] at hspec
      rcases hspec with ⟨⟨hidle, hahead⟩, -⟩ | ⟨-, hidle, hleast'⟩
      · exact absurd hahead (hnone y hidle)
      · rcases hleast.2 y hidle with rfl | hlt
        · rfl
        · rcases hleast' x hleast.1 with rfl | hlt'
          · rfl
          · exact absurd hlt' hlt.asymm

/-! ## The next thread -/

/-- `find_idle` makes the next idle thread the current one, and returns `NULL` and leaves the
current one when there is none. -/
def FindsNext (s : System) : Prop :=
  ∃ res s', findIdle s = .ok (res, s') ∧
    match res with
    | some x => s.sched.Idle x ∧ (∀ y, s.sched.Idle y → y ≠ x → CyclicLt s.sched.cursor x y) ∧
        s'.sched.cursor = x
    | none => (∀ y, ¬ s.sched.Idle y) ∧ s'.sched.cpu = s.sched.cpu

/-- A thread of a later process, in a lower slot than the current one. -/
def Skipped (c x : Nat × Nat) : Prop := c.1 < x.1 ∧ x.2 < c.2

/-- The first pass sees every slot behind the cursor that is not skipped. -/
theorem not_lexLt_iff {c x : Nat × Nat} : ¬ LexLt x c ↔ Ahead c x ∨ Skipped c x := by
  unfold LexLt Ahead Skipped
  omega

theorem Ahead.not_lexLt {c x : Nat × Nat} (h : Ahead c x) : ¬ LexLt x c :=
  not_lexLt_iff.mpr (Or.inl h)

theorem LexLt.trans {x y z : Nat × Nat} (hxy : LexLt x y) (hyz : LexLt y z) : LexLt x z := by
  unfold LexLt at *
  omega

/-- The result of the search decides. -/
theorem findsNext_some {s : System} {x : Nat × Nat} (hfound : searchIdle s.sched = some x)
    (hidle : s.sched.Idle x) : FindsNext s ↔
      ∀ y, s.sched.Idle y → y ≠ x → CyclicLt s.sched.cursor x y := by
  have hrun := findIdle_ok hfound
  constructor
  · rintro ⟨res, s', hrun', hspec⟩
    obtain ⟨rfl, rfl⟩ := Prod.mk.inj (Except.ok.inj (hrun.symm.trans hrun'))
    exact hspec.2.1
  · exact fun hnext => ⟨_, _, hrun, hidle, hnext, rfl⟩

theorem findsNext_none {s : System} (hnone : searchIdle s.sched = none)
    (hidle : ∀ y, ¬ s.sched.Idle y) : FindsNext s := by
  refine ⟨none, s, ?_, hidle, rfl⟩
  rw [findIdle, Prog.bind_ok (Prog.run_get _)]
  simp only [hnone]
  rfl

/-- **`find_idle`** selects the next idle thread exactly if no skipped thread is passed over: each
has an idle thread in front of it that the first pass sees, or the first pass sees none at all and
no idle thread lies in front of the cursor. -/
theorem findIdle_next_iff (s : System) : FindsNext s ↔
    ∀ x, s.sched.Idle x → Skipped s.sched.cursor x →
      (∃ y, s.sched.Idle y ∧ Ahead s.sched.cursor y ∧ LexLt y x) ∨
      ((∀ y, s.sched.Idle y → ¬ Ahead s.sched.cursor y) ∧
        ∀ y, s.sched.Idle y → ¬ LexLt y s.sched.cursor) := by
  have hspec := searchIdle_spec s.sched
  set c := s.sched.cursor
  -- nothing is passed over when there is no idle thread at all
  cases hfound : searchIdle s.sched with
  | none =>
      rw [hfound] at hspec
      exact iff_of_true (findsNext_none hfound hspec) fun x hx => absurd hx (hspec x)
  | some x =>
      rw [hfound] at hspec
      rcases hspec with ⟨⟨hidle, hahead⟩, hleast⟩ | ⟨hnone, hidle, hleast⟩
      · -- the first pass has found `x`
        rw [findsNext_some hfound hidle]
        constructor
        · intro hnext y hy hskip
          have hbehind : ¬ LexLt y c := not_lexLt_iff.mpr (Or.inr hskip)
          have hne : y ≠ x := by
            rintro rfl
            exact absurd hskip.2 (not_lt.mpr hahead.2)
          rcases hnext y hy hne with ⟨-, hlt⟩ | ⟨-, hlt⟩
          · exact Or.inl ⟨x, hidle, hahead, hlt⟩
          · exact absurd hlt hbehind
        · intro hcond y hy hne
          by_cases hfront : LexLt y c
          · exact Or.inr ⟨hahead.not_lexLt, hfront⟩
          · refine Or.inl ⟨iff_of_false hahead.not_lexLt hfront, ?_⟩
            rcases not_lexLt_iff.mp hfront with haheady | hskip
            · exact (hleast y ⟨hy, haheady⟩).resolve_left hne
            · rcases hcond y hy hskip with ⟨z, hz, haheadz, hlt⟩ | ⟨hno, -⟩
              · rcases hleast z ⟨hz, haheadz⟩ with rfl | hxz
                · exact hlt
                · exact hxz.trans hlt
              · exact absurd hahead (hno x hidle)
      · -- only the second pass has
        rw [findsNext_some hfound hidle]
        constructor
        · intro hnext y hy hskip
          have hbehind : ¬ LexLt y c := not_lexLt_iff.mpr (Or.inr hskip)
          refine Or.inr ⟨hnone, fun z hz hfront => ?_⟩
          have hxfront : LexLt x c := by
            rcases hleast z hz with rfl | hxz
            · exact hfront
            · exact hxz.trans hfront
          have hne : y ≠ x := fun he => hbehind (he ▸ hxfront)
          rcases hnext y hy hne with ⟨hiff, -⟩ | ⟨hx, -⟩
          · exact hbehind (hiff.mp hxfront)
          · exact hx hxfront
        · intro hcond y hy hne
          have hlt := (hleast y hy).resolve_left hne
          by_cases hfront : LexLt y c
          · exact Or.inl ⟨iff_of_true (hlt.trans hfront) hfront, hlt⟩
          · have hskip := (not_lexLt_iff.mp hfront).resolve_left (hnone y hy)
            rcases hcond y hy hskip with ⟨z, hz, haheadz, -⟩ | ⟨-, hno⟩
            · exact absurd haheadz (hnone z hz)
            · exact Or.inl ⟨iff_of_false (hno x hidle) hfront, hlt⟩

/-! ### Two processes -/

/-- Two processes with a thread each, when the scheduler looks for a thread behind the first one. -/
def Sched.twoProcesses : Sched where
  processes i := if i < 2 then .fresh 0x800000 0x900000 0xA00000 fun _ => 0
    else ⟨false, 0, fun _ => .empty, 0, 0⟩
  running_processes := 2
  cpu := ⟨0, 1, true⟩

theorem idle_twoProcesses {x : Nat × Nat} :
    Sched.twoProcesses.Idle x ↔ x.1 < 2 ∧ x.2 = 0 := by
  obtain ⟨i, j⟩ := x
  unfold Sched.Idle Sched.IsThread Sched.thread
  by_cases hi : i < 2
  · have hproc : Sched.twoProcesses.processes i = .fresh 0x800000 0x900000 0xA00000 fun _ => 0 :=
      if_pos hi
    have hlt : i < MAX_PROCESSES := lt_trans hi (by decide)
    rw [hproc]
    by_cases hj : j = 0
    · subst hj
      have hthreads : 0 < MAX_THREADS := by decide
      have hptr : ((Process.fresh 0x800000 0x900000 0xA00000 fun _ => 0).slots 0).ptr ≠ 0 := by
        simp [Process.fresh]
      exact iff_of_true ⟨hlt, hthreads, ⟨rfl, hptr⟩, rfl⟩ ⟨hi, rfl⟩
    · refine iff_of_false (fun hidle => hidle.2.2.1.2 ?_) fun h => hj h.2
      simp [Process.fresh, hj, Slot.empty]
  · have hproc : (Sched.twoProcesses.processes i).valid = false := by
      simp only [Sched.twoProcesses, if_neg hi]
    refine iff_of_false (fun hidle => ?_) fun h => hi h.1
    rw [hidle.2.2.1.1] at hproc
    cases hproc

/-- The first thread is selected again, although the other one is next. -/
theorem findIdle_passes_over : Sched.twoProcesses.Idle (1, 0) ∧
    searchIdle Sched.twoProcesses = some (0, 0) ∧ ¬ FindsNext ⟨.boot, .twoProcesses⟩ := by
  have hidle₀ : Sched.twoProcesses.Idle (0, 0) := idle_twoProcesses.mpr ⟨by decide, rfl⟩
  have hidle₁ : Sched.twoProcesses.Idle (1, 0) := idle_twoProcesses.mpr ⟨by decide, rfl⟩
  have hbehind : ∀ y, Sched.twoProcesses.Idle y → ¬ Ahead Sched.twoProcesses.cursor y := by
    rintro y hy ⟨-, hle⟩
    rw [(idle_twoProcesses.mp hy).2] at hle
    exact Nat.not_succ_le_zero 0 hle
  have hleast : Least Sched.twoProcesses.Idle (0, 0) := by
    refine ⟨hidle₀, fun y hy => ?_⟩
    obtain ⟨-, hslot⟩ := idle_twoProcesses.mp hy
    rcases Nat.eq_zero_or_pos y.1 with hzero | hpos
    · exact Or.inl (Prod.ext hzero hslot)
    · exact Or.inr (Or.inl hpos)
  have hfound := searchIdle_wraps hbehind hleast
  refine ⟨hidle₁, hfound, fun hnext => ?_⟩
  have hlt : CyclicLt (0, 1) (0, 0) (1, 0) :=
    (findsNext_some (s := ⟨.boot, .twoProcesses⟩) hfound hidle₀).mp hnext (1, 0) hidle₁ (by simp)
  simp [CyclicLt, LexLt] at hlt

end Windozz.Kernel

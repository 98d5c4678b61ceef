import Mathlib.Data.List.Chain
import Windozz.Kernel.FindIdle
import Windozz.Kernel.Slots

set_option autoImplicit false

/-! # Taking turns

Which threads run when the timer interrupts go on and no thread is created. The scheduler goes
through the slots in a cycle, but a pass keeps the slot number it starts from for the later
processes too. After one round only the threads of `Served` are left in the cycle: those in a slot
with a greater number than every slot used in a process before theirs. Each of them runs within
every `MAX_THREADS` switches, and no other thread ever runs again (`ticks_roundRobin`).

Whenever a thread has its turn again, it goes on with the registers it was interrupted with
(`sched_run`).
-/

namespace Windozz.Kernel

open Relation

/-! ## Rounds -/

section Rounds

variable {T : Nat × Nat → Prop} {c x y : Nat × Nat} {n : Nat}

/-- `x` has its turn after `c`: it is the first one ahead, or the first one of all when none is
ahead. -/
def Follows (T : Nat × Nat → Prop) (c x : Nat × Nat) : Prop :=
  Least (fun y => T y ∧ Ahead (c.1, c.2 + 1) y) x ∨
    (∀ y, T y → ¬ Ahead (c.1, c.2 + 1) y) ∧ Least T x

/-- The slots that stay in the cycle. -/
def Served (T : Nat × Nat → Prop) (x : Nat × Nat) : Prop :=
  T x ∧ ∀ y, T y → y.1 < x.1 → y.2 < x.2

theorem Follows.mem (h : Follows T c x) : T x := by
  rcases h with h | h
  · exact h.1.1
  · exact h.2.1

/-- The first slot of all is in the cycle. -/
theorem Least.served (h : Least T x) : Served T x := by
  refine ⟨h.1, fun y hy hlt => ?_⟩
  rcases h.2 y hy with rfl | hlex
  · exact absurd hlt (lt_irrefl _)
  · unfold LexLt at hlex
    omega

/-- The cycle goes on in the cycle. -/
theorem Served.follows (hc : Served T c) (h : Follows T c x) : Served T x := by
  rcases h with ⟨⟨hx, hahead⟩, hleast⟩ | ⟨-, hleast⟩
  · refine ⟨hx, fun y hy hlt => ?_⟩
    have hbehind : c.2 < x.2 := hahead.2
    by_cases hprocess : y.1 < c.1
    · exact lt_trans (hc.2 y hy hprocess) hbehind
    · -- else `y` would have its turn before `x`
      by_contra hslot
      have haheady : Ahead (c.1, c.2 + 1) y := ⟨not_lt.mp hprocess, by simp only; omega⟩
      rcases hleast y ⟨hy, haheady⟩ with rfl | hlex
      · exact lt_irrefl _ hlt
      · unfold LexLt at hlex
        omega
  · exact hleast.served

theorem follows_mem {log : List (Nat × Nat)} (h : List.IsChain (Follows T) (c :: log)) :
    ∀ {x : Nat × Nat}, x ∈ log → T x := by
  induction log generalizing c with
  | nil => exact fun hx => absurd hx (by simp)
  | cons y log ih =>
      obtain ⟨hfollows, hrest⟩ := List.isChain_cons_cons.mp h
      intro x hx
      rcases List.mem_cons.mp hx with rfl | hx
      · exact hfollows.mem
      · exact ih hrest hx

theorem served_of_chain {log : List (Nat × Nat)} {c : Nat × Nat} (hc : Served T c)
    (h : List.IsChain (Follows T) (c :: log)) : ∀ {x : Nat × Nat}, x ∈ log → Served T x := by
  induction log generalizing c with
  | nil => exact fun hx => absurd hx (by simp)
  | cons y log ih =>
      obtain ⟨hfollows, hrest⟩ := List.isChain_cons_cons.mp h
      have hy := hc.follows hfollows
      intro x hx
      rcases List.mem_cons.mp hx with rfl | hx
      · exact hy
      · exact ih hy hrest hx

/-- The slot numbers increase until the cycle is entered. -/
theorem Follows.lt_or_served (h : Follows T c x) : c.2 < x.2 ∨ Served T x := by
  rcases h with ⟨⟨-, hahead⟩, -⟩ | ⟨-, hleast⟩
  · exact Or.inl hahead.2
  · exact Or.inr hleast.served

/-- Turns in the cycle come in the order of the slot numbers, which are all different. -/
theorem Served.order (hx : Served T x) (hy : Served T y) :
    x = y ∨ x.2 ≠ y.2 ∧ (LexLt x y ↔ x.2 < y.2) := by
  have hxy := hx.2 y hy.1
  have hyx := hy.2 x hx.1
  by_cases heq : x = y
  · exact Or.inl heq
  · refine Or.inr ?_
    have hne : ¬ (x.1 = y.1 ∧ x.2 = y.2) := fun h => heq (Prod.ext h.1 h.2)
    unfold LexLt
    omega

/-- The next turn in the cycle is that of the next slot, or the first one when it was the last. -/
theorem Served.next (hc : Served T c) (hx : Served T x) (h : Follows T c y) (hlt : c.2 < x.2) :
    y = x ∨ (c.2 < y.2 ∧ y.2 < x.2) := by
  have hy := hc.follows h
  have hprocess : c.1 ≤ x.1 := by
    by_contra hprocess
    have := hc.2 x hx.1 (not_le.mp hprocess)
    omega
  have hahead : Ahead (c.1, c.2 + 1) x := ⟨hprocess, hlt⟩
  rcases h with ⟨⟨-, hahead'⟩, hleast⟩ | ⟨hnone, -⟩
  · rcases hleast x ⟨hx.1, hahead⟩ with rfl | hlex
    · exact Or.inl rfl
    · rcases hy.order hx with heq | ⟨-, hiff⟩
      · exact Or.inl heq
      · exact Or.inr ⟨hahead'.2, hiff.mp hlex⟩
  · exact absurd hahead (hnone x hx.1)

/-- The turns before the cycle is entered are in slots of increasing number. -/
theorem served_or_late : ∀ {log : List (Nat × Nat)} {c : Nat × Nat},
    List.IsChain (Follows T) (c :: log) → ∀ {k : Nat} {x : Nat × Nat}, log[k]? = some x →
      Served T x ∨ c.2 + k < x.2 := by
  intro log
  induction log with
  | nil => exact fun _ _ _ hx => by simp at hx
  | cons y log ih =>
      intro c hchain k x hx
      obtain ⟨hfollows, hrest⟩ := List.isChain_cons_cons.mp hchain
      cases k with
      | zero =>
          obtain rfl : y = x := by simpa using hx
          exact hfollows.lt_or_served.symm
      | succ k =>
          rw [List.getElem?_cons_succ] at hx
          rcases hfollows.lt_or_served with hlt | hserved
          · rcases ih hrest hx with hserved | hlate
            · exact Or.inl hserved
            · exact Or.inr (by omega)
          · exact Or.inl (served_of_chain hserved hrest (List.mem_of_getElem? hx))

/-- Behind the first turns all are in the cycle. -/
theorem served_behind (hbound : ∀ x, T x → x.2 < n + 1) {log : List (Nat × Nat)}
    (hchain : List.IsChain (Follows T) (c :: log)) : ∀ x ∈ log.drop n, Served T x := by
  intro x hx
  obtain ⟨k, hk⟩ := List.mem_iff_getElem?.mp hx
  rw [List.getElem?_drop] at hk
  rcases served_or_late hchain hk with hserved | hlate
  · exact hserved
  · have hlt := hbound x (follows_mem hchain (List.mem_of_mem_drop hx))
    omega

/-- In the cycle every slot of a greater number has its turn before the first one again. -/
theorem mem_of_lt (hx : Served T x) : ∀ {log : List (Nat × Nat)} {c : Nat × Nat}, Served T c →
    List.IsChain (Follows T) (c :: log) → c.2 < x.2 → x.2 ≤ c.2 + log.length → x ∈ log := by
  intro log
  induction log with
  | nil =>
      intro c _ _ hlt hlen
      rw [List.length_nil] at hlen
      omega
  | cons y log ih =>
      intro c hc hchain hlt hlen
      obtain ⟨hfollows, hrest⟩ := List.isChain_cons_cons.mp hchain
      rw [List.length_cons] at hlen
      rcases hc.next hx hfollows hlt with rfl | ⟨hcy, hyx⟩
      · exact List.mem_cons_self
      · exact List.mem_cons_of_mem y (ih (hc.follows hfollows) hrest hyx (by omega))

/-- The others have theirs after it. -/
theorem mem_of_le (hbound : ∀ x, T x → x.2 < n) (hx : Served T x) :
    ∀ {log : List (Nat × Nat)} {c : Nat × Nat}, Served T c →
      List.IsChain (Follows T) (c :: log) → x.2 ≤ c.2 → n + x.2 ≤ c.2 + log.length → x ∈ log := by
  intro log
  induction log with
  | nil =>
      intro c hc _ hle hlen
      have := hbound c hc.1
      rw [List.length_nil] at hlen
      omega
  | cons y log ih =>
      intro c hc hchain hle hlen
      obtain ⟨hfollows, hrest⟩ := List.isChain_cons_cons.mp hchain
      rw [List.length_cons] at hlen
      have hy := hc.follows hfollows
      have hlt := hbound c hc.1
      rcases hfollows with ⟨⟨-, hahead⟩, -⟩ | ⟨-, hleast⟩
      · have hcy : c.2 < y.2 := hahead.2
        exact List.mem_cons_of_mem y (ih hy hrest (by omega) (by omega))
      · -- from the first slot on the numbers increase again
        rcases hleast.2 x hx.1 with rfl | hlex
        · exact List.mem_cons_self
        · rcases hy.order hx with rfl | ⟨-, hiff⟩
          · exact List.mem_cons_self
          · exact List.mem_cons_of_mem y (mem_of_lt hx hy hrest (hiff.mp hlex) (by omega))

/-- **In the cycle every slot has its turn in every `n` turns.** -/
theorem mem_of_served (hbound : ∀ x, T x → x.2 < n) {log : List (Nat × Nat)}
    (hserved : ∀ y ∈ log, Served T y) (hchain : List.IsChain (Follows T) log)
    (hlen : n ≤ log.length) (hx : Served T x) : x ∈ log := by
  have hlt := hbound x hx.1
  cases log with
  | nil =>
      rw [List.length_nil] at hlen
      omega
  | cons c log =>
      rw [List.length_cons] at hlen
      have hc := hserved c List.mem_cons_self
      rcases Nat.lt_trichotomy c.2 x.2 with hcx | heq | hxc
      · exact List.mem_cons_of_mem c (mem_of_lt hx hc hchain hcx (by omega))
      · rcases hc.order hx with rfl | ⟨hne, -⟩
        · exact List.mem_cons_self
        · exact absurd heq hne
      · exact List.mem_cons_of_mem c (mem_of_le hbound hx hc hchain hxc.le (by omega))

end Rounds

/-! ## A switch -/

/-- The slots with a thread of a valid process. -/
def Sched.Members (s : Sched) (x : Nat × Nat) : Prop :=
  x.1 < MAX_PROCESSES ∧ x.2 < MAX_THREADS ∧ s.IsThread x.1 x.2

/-- The only thread of the only process. -/
def Sched.Alone (s : Sched) : Prop := s.running_processes = 1 ∧ (s.processes 0).thread_count = 1

theorem alone_setThread (s : Sched) (i j : Nat) (f : Thread → Thread) :
    (s.setThread i j f).Alone ↔ s.Alone := by
  by_cases hi : 0 = i
  · subst hi
    simp [Sched.Alone, Sched.setThread, Sched.setSlot, Sched.setProcess]
  · simp [Sched.Alone, Sched.setThread, Sched.setSlot, Sched.setProcess, hi]

/-- The thread that the search from `c` selects. -/
def Selects (T : Nat × Nat → Prop) (c x : Nat × Nat) : Prop :=
  Least (fun y => T y ∧ Ahead c y) x ∨ (∀ y, T y → ¬ Ahead c y) ∧ Least T x

section Switch

variable {s : System} {h : Interrupted}

theorem Least.congr {P Q : Nat × Nat → Prop} {x : Nat × Nat} (hiff : ∀ y, P y ↔ Q y)
    (hx : Least P x) : Least Q x :=
  ⟨(hiff x).mp hx.1, fun y hy => hx.2 y ((hiff y).mpr hy)⟩

/-- When no thread is busy, all are idle. -/
theorem Holds.idle_iff {s : Sched} (hs : Holds s h fun _ _ => False) (x : Nat × Nat) :
    s.Idle x ↔ s.Members x :=
  ⟨fun hx => ⟨hx.1, hx.2.1, hx.2.2.1⟩,
    fun hx => ⟨hx.1, hx.2.1, hx.2.2, hs.idle x.1 x.2 hx.2.2 not_false hx.1 hx.2.1⟩⟩

theorem searchIdle_selects {s : Sched} (hs : Holds s h fun _ _ => False) :
    ∃ x, searchIdle s = some x ∧ Selects s.Members s.cursor x := by
  obtain ⟨i, j, hfound, -⟩ := searchIdle_some hs
  have hspec := searchIdle_spec s
  rw [hfound] at hspec
  refine ⟨(i, j), hfound, ?_⟩
  rcases hspec with hleast | ⟨hnone, hleast⟩
  · exact Or.inl (hleast.congr fun y => and_congr_left' (hs.idle_iff y))
  · exact Or.inr ⟨fun y hy => hnone y ((hs.idle_iff y).mpr hy), hleast.congr hs.idle_iff⟩

/-- What a switch leaves: the same threads, and the one that is selected is current. -/
structure Switched (s s' : Sched) (c : Nat × Nat) : Prop where
  members : ∀ x, s'.Members x ↔ s.Members x
  ready : s'.cpu.sys_ready = true
  alone : s'.Alone ↔ s.Alone
  selects : Selects s.Members c s'.cursor

theorem loadNext_switched (hs : Holds s.sched h fun _ _ => False) :
    ∃ context s', loadNext s = .ok (some context, s') ∧
      Switched s.sched s'.sched s.sched.cursor := by
  have hs₁ : Holds (s.sched.setCpu fun cpu => { cpu with sys_ready := true }) h
      fun _ _ => False := ⟨hs.busy, hs.idle, hs.some_thread, hs.thread_of_some, hs.saved⟩
  obtain ⟨⟨i, j⟩, hfound, hselects⟩ := searchIdle_selects hs₁
  have hfind := findIdle_ok (s := ⟨s.kernel, s.sched.setCpu fun cpu => { cpu with
    sys_ready := true }⟩) hfound
  let s₁ : Sched := (s.sched.setCpu fun _ => ⟨i, j, true⟩).setThread i j fun t => { t with
    status := .THREAD_BUSY }
  refine ⟨(s₁.thread i j).context, ⟨{ s.kernel with cr3 := (s.sched.processes i).cr3 }, s₁⟩, ?_,
    fun x => ?_, rfl, alone_setThread _ _ _ _, hselects⟩
  · rw [loadNext, Prog.bind_ok (run_onSched _ _), Prog.bind_ok hfind]
    rfl
  · rw [Sched.Members, isThread_setThread, isThread_setCpu]
    exact Iff.rfl

/-- The state with the current thread saved and the cursor behind it. -/
def System.saved (s : System) (context : Context) : System where
  kernel := s.kernel
  sched := (s.sched.setThread s.sched.cpu.pid s.sched.cpu.tid fun _ =>
    ⟨context, .THREAD_IDLE⟩).setCpu fun cpu => { cpu with tid := cpu.tid + 1 }

theorem saveContext_run {context : Context}
    (hptr : ((s.sched.processes s.sched.cpu.pid).slots s.sched.cpu.tid).ptr ≠ 0) :
    saveContext context s.sched.cpu.pid s.sched.cpu.tid s = .ok ((), s.saved context) := by
  rw [saveContext, Prog.bind_ok (Prog.run_get _), if_neg hptr, Prog.bind_ok (run_onSched _ _),
    Prog.bind_ok (run_onSched _ _), run_onSched]
  simp only [System.saved, Sched.setThread, Sched.setSlot, Sched.setProcess, Function.update_self,
    Function.update_idem]

theorem saved_members (context : Context) (x : Nat × Nat) :
    (s.saved context).sched.Members x ↔ s.sched.Members x := by
  rw [Sched.Members, System.saved, isThread_setCpu, isThread_setThread]
  exact Iff.rfl

theorem saved_alone (context : Context) :
    (s.saved context).sched.Alone ↔ s.sched.Alone :=
  alone_setThread s.sched s.sched.cpu.pid s.sched.cpu.tid fun _ => ⟨context, .THREAD_IDLE⟩

theorem Switched.congr {s₀ s₁ s₂ : Sched} {c : Nat × Nat} (h : Switched s₁ s₂ c)
    (hmembers : ∀ x, s₁.Members x ↔ s₀.Members x) (halone : s₁.Alone ↔ s₀.Alone) :
    Switched s₀ s₂ c := by
  have heq : s₁.Members = s₀.Members := funext fun x => propext (hmembers x)
  refine ⟨fun x => (h.members x).trans (hmembers x), h.ready, h.alone.trans halone, ?_⟩
  rw [← heq]
  exact h.selects

/-- `resched` switches to the thread selected behind the current one. -/
theorem resched_switched (hs : SchedInv s.sched h) (hready : s.sched.cpu.sys_ready = true)
    (halone : ¬ s.sched.Alone) (r : Regs) : ∃ context s',
      resched (savedContext r) s = .ok (some context, s') ∧
      Switched s.sched s'.sched (s.sched.cpu.pid, s.sched.cpu.tid + 1) := by
  unfold Sched.Alone at halone
  obtain ⟨-, -, hthread, -⟩ := (hs.busy s.sched.cpu.pid s.sched.cpu.tid).mpr ⟨hready, rfl, rfl⟩
  have hsaved : Holds (s.saved (savedContext r)).sched (h.interrupt s.sched.cpu r)
      fun _ _ => False := Holds.suspend hs hready r fun cpu => { cpu with tid := cpu.tid + 1 }
  obtain ⟨context, s', hrun, hswitched⟩ := loadNext_switched hsaved
  refine ⟨context, s', ?_, hswitched.congr (saved_members _) (saved_alone _)⟩
  rw [resched, Prog.bind_ok (Prog.run_get _), if_pos hready, if_neg halone,
    Prog.bind_ok (saveContext_run hthread.2)]
  exact hrun

/-- The first time there is no thread to save. -/
theorem resched_first (hs : SchedInv s.sched h) (hready : s.sched.cpu.sys_ready = false)
    (context : Context) : ∃ context' s', resched context s = .ok (some context', s') ∧
      Switched s.sched s'.sched s.sched.cursor := by
  have hnot : ∀ i j, ¬ s.sched.Current i j := by
    rintro i j ⟨hcur, -⟩
    rw [hready] at hcur
    cases hcur
  have hidle : Holds s.sched h fun _ _ => False :=
    ⟨fun i j => (hs.busy i j).trans (iff_false_intro (hnot i j)),
      fun i j hij _ => hs.idle i j hij (hnot i j), hs.some_thread, hs.thread_of_some,
      fun i j r hr _ => hs.saved i j r hr (hnot i j)⟩
  obtain ⟨context', s', hrun, hswitched⟩ := loadNext_switched hidle
  refine ⟨context', s', ?_, hswitched⟩
  rw [resched, Prog.bind_ok (Prog.run_get _), if_neg (by rw [hready]; exact Bool.false_ne_true)]
  exact hrun

theorem resched_alone (hready : s.sched.cpu.sys_ready = true) (halone : s.sched.Alone)
    (context : Context) : resched context s = .ok (none, s) := by
  unfold Sched.Alone at halone
  rw [resched, Prog.bind_ok (Prog.run_get _), if_pos hready, if_pos halone]
  rfl

end Switch

/-! ## Ticks -/

/-- Timer interrupts one after the other, with the threads that they switch to. -/
inductive Ticks : Machine → List (Nat × Nat) → Machine → Prop
  | nil (m : Machine) : Ticks m [] m
  | back {m m' m'' : Machine} {log : List (Nat × Nat)} {r r' : Regs} (h : Ticks m log m')
      (hrun : timerIrqStub r m' = .ok (.iretq r', m'')) : Ticks m log m''
  | switch {m m' m'' : Machine} {log : List (Nat × Nat)} {r r' : Regs} (h : Ticks m log m')
      (hrun : timerIrqStub r m' = .ok (.loadContext r', m'')) :
      Ticks m (log ++ [m''.system.sched.cursor]) m''

/-- The interrupt calls `resched`. -/
def Machine.Due (m : Machine) : Prop := m.sys_ready = true ∧ u64 (m.timer_ticks + 1) % 10 ≠ 0

/-- The counter goes on. -/
def Machine.ticked (m : Machine) : Machine := { m with timer_ticks := u64 (m.timer_ticks + 1) }

theorem timerIrq_due {m : Machine} (hdue : m.Due) {context : Context} {new : Option Context}
    {s' : System} (hrun : resched context m.system = .ok (new, s')) :
    timerIrq context m = .ok (new, { m.ticked with system := s' }) := by
  unfold timerIrq
  simp only
  rw [if_pos (show m.sys_ready = true ∧ u64 (m.timer_ticks + 1) % 10 ≠ 0 from hdue), hrun]
  rfl

theorem timerIrq_skips {m : Machine} (hdue : ¬ m.Due) (context : Context) :
    timerIrq context m = .ok (none, m.ticked) := if_neg hdue

theorem timerIrqStub_back {m m' : Machine} {r : Regs}
    (hirq : timerIrq (savedContext r) m = .ok (none, m')) :
    timerIrqStub r m = .ok (.iretq r, m') := by
  have hpop := popReturn_interruptStack r
  exact (Prog.bind_ok hirq).trans (congrArg (fun r => Except.ok (Resume.iretq r, m')) hpop)

theorem timerIrqStub_switches {m : Machine} {h : Interrupted} (hs : SchedInv m.system.sched h)
    (hready : m.system.sched.cpu.sys_ready = true) (hdue : m.Due) (halone : ¬ m.system.sched.Alone)
    (r : Regs) : ∃ r' s', timerIrqStub r m = .ok (.loadContext r', { m.ticked with system := s' }) ∧
      Switched m.system.sched s'.sched (m.system.sched.cpu.pid, m.system.sched.cpu.tid + 1) := by
  obtain ⟨context, s', hresched, hswitched⟩ := resched_switched hs hready halone r
  exact ⟨_, s', Prog.bind_ok (timerIrq_due hdue hresched), hswitched⟩

/-- A tick switches to the next thread when it is due and there is another one; else it goes back
and leaves the scheduler as it is. -/
theorem timerIrqStub_tick {m : Machine} {h : Interrupted} (hs : SchedInv m.system.sched h)
    (hready : m.system.sched.cpu.sys_ready = true) (r : Regs) :
    (timerIrqStub r m = .ok (.iretq r, m.ticked) ∧ (m.Due → m.system.sched.Alone)) ∨
      ∃ r' m', timerIrqStub r m = .ok (.loadContext r', m') ∧ m'.sys_ready = m.sys_ready ∧
        Switched m.system.sched m'.system.sched
          (m.system.sched.cpu.pid, m.system.sched.cpu.tid + 1) := by
  by_cases hdue : m.Due
  · by_cases halone : m.system.sched.Alone
    · have hresched := resched_alone hready halone (savedContext r)
      exact Or.inl ⟨timerIrqStub_back (timerIrq_due hdue hresched), fun _ => halone⟩
    · obtain ⟨r', s', hrun, hswitched⟩ := timerIrqStub_switches hs hready hdue halone r
      exact Or.inr ⟨_, _, hrun, rfl, hswitched⟩
  · exact Or.inl ⟨timerIrqStub_back (timerIrq_skips hdue _), fun h => absurd h hdue⟩

/-- What a run of ticks leaves: the same threads, and turns that follow each other. -/
structure Turns (m m' : Machine) (log : List (Nat × Nat)) : Prop where
  inv : ∃ h, SchedInv m'.system.sched h
  ready : m'.system.sched.cpu.sys_ready = true
  sys_ready : m'.sys_ready = m.sys_ready
  alone : m'.system.sched.Alone ↔ m.system.sched.Alone
  members : m'.system.sched.Members = m.system.sched.Members
  chain : List.IsChain (Follows m.system.sched.Members) (m.system.sched.cursor :: log)
  last : (m.system.sched.cursor :: log).getLast? = some m'.system.sched.cursor

theorem Turns.nil {m : Machine} {h : Interrupted} (hs : SchedInv m.system.sched h)
    (hready : m.system.sched.cpu.sys_ready = true) : Turns m m [] :=
  ⟨⟨h, hs⟩, hready, rfl, Iff.rfl, rfl, List.isChain_singleton _, rfl⟩

theorem Turns.tick {m m' m'' : Machine} {log : List (Nat × Nat)} {r : Regs} {out : Resume}
    (h : Turns m m' log) (hrun : timerIrqStub r m' = .ok (out, m'')) :
    match out with
    | .iretq _ => Turns m m'' log
    | .loadContext _ => Turns m m'' (log ++ [m''.system.sched.cursor]) := by
  obtain ⟨h', hinv⟩ := h.inv
  have hinv'' : ∃ h, SchedInv m''.system.sched h := by
    obtain ⟨_, _, hrun', hinv', -⟩ := timerIrqStub_spec hinv r
    obtain ⟨-, rfl⟩ := Prod.mk.inj (Except.ok.inj (hrun.symm.trans hrun'))
    exact ⟨_, hinv'⟩
  rcases timerIrqStub_tick hinv h.ready r with
    ⟨hrun', -⟩ | ⟨r', m₁, hrun', hsys, hmembers, hready, halone, hselects⟩
  · obtain ⟨rfl, rfl⟩ := Prod.mk.inj (Except.ok.inj (hrun.symm.trans hrun'))
    exact ⟨hinv'', h.ready, h.sys_ready, h.alone, h.members, h.chain, h.last⟩
  · obtain ⟨rfl, rfl⟩ := Prod.mk.inj (Except.ok.inj (hrun.symm.trans hrun'))
    have hmembers' : m''.system.sched.Members = m'.system.sched.Members :=
      funext fun x => propext (hmembers x)
    refine ⟨hinv'', hready, hsys.trans h.sys_ready, halone.trans h.alone,
      hmembers'.trans h.members, ?_, ?_⟩
    · rw [← List.cons_append]
      refine h.chain.append (List.isChain_singleton _) fun x hx y hy => ?_
      rw [h.last] at hx
      obtain rfl := Option.some.inj hx
      obtain rfl := Option.some.inj hy
      rw [← h.members]
      exact hselects
    · rw [← List.cons_append, List.getLast?_concat]

theorem ticks_turns {m m' : Machine} {log : List (Nat × Nat)} {h : Interrupted}
    (hticks : Ticks m log m') (hs : SchedInv m.system.sched h)
    (hready : m.system.sched.cpu.sys_ready = true) : Turns m m' log := by
  induction hticks with
  | nil => exact .nil hs hready
  | back _ hrun ih => exact ih.tick hrun
  | switch _ hrun ih => exact ih.tick hrun

/-- With another thread, the switches never end. -/
theorem Turns.switches {m m' : Machine} {log : List (Nat × Nat)} (h : Turns m m' log)
    (hticks : Ticks m log m') (hsys : m.sys_ready = true) (halone : ¬ m.system.sched.Alone) :
    ∃ x m'', Ticks m (log ++ [x]) m'' ∧ Turns m m'' (log ++ [x]) := by
  have hswitch : ∀ {m'}, Turns m m' log → Ticks m log m' → m'.Due →
      ∃ x m'', Ticks m (log ++ [x]) m'' ∧ Turns m m'' (log ++ [x]) := by
    intro m' h hticks hdue
    obtain ⟨h', hinv⟩ := h.inv
    have r : Regs := loadContext fun _ => 0
    rcases timerIrqStub_tick hinv h.ready r with ⟨-, hnot⟩ | ⟨r', m'', hrun, -⟩
    · exact absurd (h.alone.mp (hnot hdue)) halone
    · exact ⟨_, m'', .switch hticks hrun, h.tick hrun⟩
  by_cases hdue : m'.Due
  · exact hswitch h hticks hdue
  · -- the next one is
    have r : Regs := loadContext fun _ => 0
    have hback := timerIrqStub_back (r := r) (timerIrq_skips hdue (savedContext r))
    refine hswitch (h.tick hback) (.back hticks hback) ⟨h.sys_ready.trans hsys, ?_⟩
    have hten : u64 (m'.timer_ticks + 1) % 10 = 0 := by
      by_contra hne
      exact hdue ⟨h.sys_ready.trans hsys, hne⟩
    show u64 (u64 (m'.timer_ticks + 1) + 1) % 10 ≠ 0
    unfold u64 at *
    omega

theorem ticks_unending {m : Machine} {h : Interrupted} (hs : SchedInv m.system.sched h)
    (hready : m.system.sched.cpu.sys_ready = true) (hsys : m.sys_ready = true)
    (halone : ¬ m.system.sched.Alone) (n : Nat) : ∃ log m', Ticks m log m' ∧ log.length = n := by
  suffices ∃ log m', Ticks m log m' ∧ Turns m m' log ∧ log.length = n by
    obtain ⟨log, m', hticks, -, hlen⟩ := this
    exact ⟨log, m', hticks, hlen⟩
  induction n with
  | zero => exact ⟨[], m, .nil m, .nil hs hready, rfl⟩
  | succ n ih =>
      obtain ⟨log, m', hticks, hturns, hlen⟩ := ih
      obtain ⟨x, m'', hticks', hturns'⟩ := hturns.switches hticks hsys halone
      exact ⟨_, m'', hticks', hturns', by rw [List.length_append, hlen, List.length_singleton]⟩

/-- **Who runs.** In every run of timer interrupts from a state that the scheduler reaches, in which
no thread is created: behind the first 31 switches exactly the threads in the cycle run, and each
of them within every 32 switches; and an interrupt that is due does switch, unless there is only
one thread. -/
theorem ticks_roundRobin {m₀ m m' : Machine} {h : Interrupted} {log : List (Nat × Nat)}
    (hm₀ : FirstProcess m₀) (hrun : ReflTransGen SchedStep (m₀, fun _ _ => none) (m, h))
    (hready : m.system.sched.cpu.sys_ready = true) (hticks : Ticks m log m') :
    (∀ x ∈ log, m.system.sched.Members x) ∧
    (∀ x ∈ log.drop 31, Served m.system.sched.Members x) ∧
    (∀ x before window after, Served m.system.sched.Members x →
      log = before ++ window ++ after → 31 ≤ before.length → 32 ≤ window.length → x ∈ window) ∧
    ∀ r, m'.Due → ¬ m'.system.sched.Alone →
      ∃ r' m'', timerIrqStub r m' = .ok (.loadContext r', m'') := by
  have hturns := ticks_turns hticks (schedInv_run hm₀ hrun) hready
  have hbound : ∀ x, m.system.sched.Members x → x.2 < 31 + 1 := fun x hx => hx.2.1
  have hserved := served_behind hbound hturns.chain
  refine ⟨fun x hx => follows_mem hturns.chain hx, hserved, ?_, fun r hdue halone => ?_⟩
  · rintro x before window after hx rfl hbefore hwindow
    refine mem_of_served hbound (fun y hy => hserved y ?_) ?_ hwindow hx
    · rw [List.append_assoc, List.drop_append_of_le_length hbefore]
      exact List.mem_append_right _ (List.mem_append_left _ hy)
    · exact ((hturns.chain.tail).left_of_append).right_of_append
  · obtain ⟨h', hinv⟩ := hturns.inv
    rcases timerIrqStub_tick hinv hturns.ready r with ⟨-, hnot⟩ | ⟨r', m'', hstub, -⟩
    · exact absurd (hnot hdue) halone
    · exact ⟨r', m'', hstub⟩

/-! ### Two processes -/

/-- A process with one thread. -/
theorem isThread_fresh {s : Sched} {i j cr3 threads thread : Nat} {context : Context}
    (hi : s.processes i = .fresh cr3 threads thread context) (hne : thread ≠ 0) :
    s.IsThread i j ↔ j = 0 := by
  rw [Sched.IsThread, hi]
  by_cases hj : j = 0
  · subst hj
    simp [Process.fresh, hne]
  · simp [Process.fresh, hj, Slot.empty]

/-- Two processes are created. -/
theorem twoProcesses_reached : ∃ m₀ m, FirstProcess m₀ ∧
    ReflTransGen SchedStep (m₀, fun _ _ => none) (m, fun _ _ => none) ∧
    m.system.sched.cpu = ⟨0, 0, false⟩ ∧ m.timer_ticks = 0 ∧ m.sys_ready = true ∧
    ¬ m.system.sched.Alone ∧ ∀ x, m.system.sched.Members x ↔ x.1 < 2 ∧ x.2 = 0 := by
  obtain ⟨k, -, hstarted⟩ := mmInit_flat (show 4870 + 282 ≤ 16384 by decide) (by decide)
  have hready : Ready (System.mk k .zero).kernel [mmioBlock k] 705 (35 + 35) (141 + 141) :=
    hstarted.ready.mono (by decide) (le_refl _)
  obtain ⟨s₁, live, k₁, hrun₁, hready₁⟩ :=
    createProcess_returns hready (hstarted.free _) findProcess_zero 0
  obtain ⟨cr3, threads, thread, _, _, _, k₄, hcreates⟩ := createProcess_ok hrun₁
  obtain ⟨context, hsched₁⟩ := hcreates.sched
  have hfree : s₁.kernel.mutexes .sched_mutex = false := by
    rw [hcreates.kernel]
    simp only [Function.update_self]
  have hfind : findProcess s₁.sched = some 1 := by
    rw [hsched₁]
    exact findProcess_second _ rfl
  have hready₁' : Ready s₁.kernel live k₁ (35 + 0) (141 + 0) := hready₁
  obtain ⟨s₂, -, -, hrun₂, -⟩ := createProcess_returns hready₁' hfree hfind 0
  obtain ⟨cr3', threads', thread', _, _, _, _, hcreates'⟩ := createProcess_ok hrun₂
  obtain ⟨context', hsched₂⟩ := hcreates'.sched
  rw [hsched₁] at hsched₂
  refine ⟨⟨s₁, 0, false⟩, ⟨s₂, 0, true⟩, ⟨_, 0, 0, rfl, hrun₁⟩,
    (ReflTransGen.single (.process hrun₂)).tail .ready, ?_, rfl, rfl, ?_, ?_⟩
  · simp only [hsched₂]
    rfl
  · rintro ⟨hone, -⟩
    simp only [hsched₂] at hone
    exact absurd hone (by decide)
  · rintro ⟨i, j⟩
    have hfirst : s₂.sched.processes 0 = .fresh cr3 threads thread context := by
      rw [hsched₂]
      rfl
    have hsecond : s₂.sched.processes 1 = .fresh cr3' threads' thread' context' := by
      rw [hsched₂]
      rfl
    by_cases hi : i < 2
    · have hthread : s₂.sched.IsThread i j ↔ j = 0 := by
        rcases (by omega : i = 0 ∨ i = 1) with rfl | rfl
        · exact isThread_fresh hfirst hcreates.thread_ne
        · exact isThread_fresh hsecond hcreates'.thread_ne
      refine ⟨fun h => ⟨hi, hthread.mp h.2.2⟩, fun ⟨_, hj⟩ => ?_⟩
      obtain rfl : j = 0 := hj
      exact ⟨lt_trans hi (by decide), (by decide : 0 < MAX_THREADS), hthread.mpr rfl⟩
    · refine iff_of_false (fun h => ?_) fun h => hi h.1
      have hvalid := h.2.2.1
      have hne₀ : i ≠ 0 := by omega
      have hne₁ : i ≠ 1 := by omega
      simp only [hsched₂, Function.update_of_ne hne₁, Function.update_of_ne hne₀] at hvalid
      cases hvalid

/-- The thread of the second process does not run. -/
theorem ticks_roundRobin_twoProcesses : ∃ m₀ m h m' log, FirstProcess m₀ ∧
    ReflTransGen SchedStep (m₀, fun _ _ => none) (m, h) ∧ m.system.sched.Members (1, 0) ∧
    Ticks m log m' ∧ log.length = 64 ∧ ∀ x ∈ log.drop 31, x = (0, 0) := by
  obtain ⟨m₀, m, hm₀, hrun, hcpu, hticks, hsys, halone, hmembers⟩ := twoProcesses_reached
  have hready : m.system.sched.cpu.sys_ready = false := by rw [hcpu]
  have hdue : m.Due := by
    refine ⟨hsys, ?_⟩
    rw [hticks]
    decide
  let r : Regs := loadContext fun _ => 0
  obtain ⟨context, s', hresched, hswitched⟩ :=
    resched_first (schedInv_run hm₀ hrun) hready (savedContext r)
  have htick : timerIrqStub r m = .ok (.loadContext (loadContext context),
      { m.ticked with system := s' }) := Prog.bind_ok (timerIrq_due hdue hresched)
  have hrun' := hrun.tail (.tick htick)
  have halone' : ¬ s'.sched.Alone := fun h => halone (hswitched.alone.mp h)
  obtain ⟨log, m', hlog, hlen⟩ :=
    ticks_unending (schedInv_run hm₀ hrun') hswitched.ready hsys halone' 64
  have hserved := (ticks_roundRobin hm₀ hrun' hswitched.ready hlog).2.1
  have hmembers' : ∀ x, s'.sched.Members x ↔ x.1 < 2 ∧ x.2 = 0 := fun x =>
    (hswitched.members x).trans (hmembers x)
  refine ⟨m₀, _, _, m', log, hm₀, hrun', (hmembers' _).mpr ⟨by decide, rfl⟩, hlog, hlen, ?_⟩
  rintro ⟨i, j⟩ hx
  obtain ⟨hx, hall⟩ := hserved _ hx
  obtain ⟨hi, rfl⟩ := (hmembers' _).mp hx
  -- the first process has a thread in slot 0, too
  rcases Nat.eq_zero_or_pos i with rfl | hpos
  · rfl
  · exact absurd (hall (0, 0) ((hmembers' _).mpr ⟨by decide, rfl⟩) hpos) (lt_irrefl _)

/-! ## Registers over a run -/

/-- **The scheduler.** In every run after the first process was created: once the boot CPU has
started to schedule, exactly the current thread is busy; and a tick always returns, and when it
ends in `load_context` for a thread that was interrupted before, it loads the registers that this
thread was interrupted with. -/
theorem sched_run {m₀ m : Machine} {h : Interrupted} (hm₀ : FirstProcess m₀)
    (hrun : ReflTransGen SchedStep (m₀, fun _ _ => none) (m, h)) :
    (m.system.sched.cpu.sys_ready = true → ∀ i j, m.system.sched.Busy i j ↔
      i = m.system.sched.cpu.pid ∧ j = m.system.sched.cpu.tid) ∧
    ∀ r, ∃ out m', timerIrqStub r m = .ok (out, m') ∧
      ∀ new, out = .loadContext new → ∀ r₀, h.interrupt m.system.sched.cpu r
        m'.system.sched.cpu.pid m'.system.sched.cpu.tid = some r₀ → new = r₀.withData := by
  have hs := schedInv_run hm₀ hrun
  refine ⟨fun hready i j => ?_, fun r => ?_⟩
  · exact (hs.busy i j).trans (and_iff_right hready)
  · obtain ⟨out, m', hstub, -, hload⟩ := timerIrqStub_spec hs r
    exact ⟨out, m', hstub, hload⟩

/-- A second thread is created in the first process. -/
theorem twoThreads_reached : ∃ m₀ m, FirstProcess m₀ ∧
    ReflTransGen SchedStep (m₀, fun _ _ => none) (m, fun _ _ => none) ∧
    m.system.sched.cpu = ⟨0, 0, false⟩ ∧ m.timer_ticks = 0 ∧ m.sys_ready = true ∧
    ¬ m.system.sched.Alone ∧ ∀ x, m.system.sched.Members x ↔ x.1 = 0 ∧ x.2 < 2 := by
  obtain ⟨k, -, hstarted⟩ := mmInit_flat (show 4870 + 277 ≤ 16384 by decide) (by decide)
  have hready : Ready (System.mk k .zero).kernel [mmioBlock k] 705 (35 + 34) (141 + 136) :=
    hstarted.ready.mono (by decide) (le_refl _)
  obtain ⟨s₁, live, k₁, hrun₁, hready₁⟩ :=
    createProcess_returns hready (hstarted.free _) findProcess_zero 0
  obtain ⟨cr3, threads, thread, _, _, _, k₄, hcreates⟩ := createProcess_ok hrun₁
  obtain ⟨context, hsched₁⟩ := hcreates.sched
  have hfree : s₁.kernel.mutexes .sched_mutex = false := by
    rw [hcreates.kernel]
    simp only [Function.update_self]
  have hslots : s₁.sched.processes 0 = .fresh cr3 threads thread context := by
    rw [hsched₁]
    rfl
  have hcpu : s₁.sched.cpu = ⟨0, 0, false⟩ := by
    rw [hsched₁]
    rfl
  have hfind : findThread s₁.sched = some 1 := by
    apply findThread_second
    · rw [hslots]
      exact hcreates.thread_ne
    · rw [hslots]
      rfl
    · rw [hslots]
      rfl
  have hready₁' : Ready s₁.kernel live k₁ (34 + 0) (136 + 0) := hready₁
  obtain ⟨s₂, hrun₂⟩ := createThread_returns hready₁' hfree hfind (by rw [hcpu]) 0
  obtain ⟨tid, thread', context', hfind', hne', hsched₂⟩ := createThread_ok hrun₂
  obtain rfl : tid = 1 := Option.some.inj (hfind'.symm.trans hfind)
  rw [hcpu] at hsched₂
  refine ⟨⟨s₁, 0, false⟩, ⟨s₂, 0, true⟩, ⟨_, 0, 0, rfl, hrun₁⟩,
    (ReflTransGen.single (.thread (by rw [hcpu]) hrun₂)).tail .ready, ?_, rfl, rfl, ?_, ?_⟩
  · simp only [hsched₂]
    exact hcpu
  · rintro ⟨-, hone⟩
    have hcount : (s₂.sched.processes 0).thread_count = 2 := by
      simp [hsched₂, Sched.setProcess, Sched.setSlot, hslots, Process.fresh, u64]
    rw [hcount] at hone
    cases hone
  · rintro ⟨i, j⟩
    by_cases hi : i = 0
    · subst hi
      have hthread : s₂.sched.IsThread 0 j ↔ j < 2 := by
        by_cases hj : j = 1
        · subst hj
          simp [Sched.IsThread, hsched₂, Sched.setProcess, Sched.setSlot, hslots, Process.fresh, hne']
        · have hsame : s₂.sched.IsThread 0 j ↔ s₁.sched.IsThread 0 j := by
            simp [Sched.IsThread, hsched₂, Sched.setProcess, Sched.setSlot, hj]
          rw [hsame, isThread_fresh hslots hcreates.thread_ne]
          omega
      exact ⟨fun h => ⟨rfl, hthread.mp h.2.2⟩, fun h =>
        ⟨(by decide : 0 < MAX_PROCESSES), lt_trans h.2 (by decide), hthread.mpr h.2⟩⟩
    · refine iff_of_false (fun h => ?_) fun h => hi h.1
      have hvalid := h.2.2.1
      simp [hsched₂, hsched₁, Sched.setProcess, Sched.setSlot, Sched.zero, hi] at hvalid

/-- With two threads in the first process the search goes to and fro between them. -/
theorem Selects.twoThreads {T : Nat × Nat → Prop} (hT : ∀ x, T x ↔ x.1 = 0 ∧ x.2 < 2) {n : Nat}
    {x : Nat × Nat} (h : Selects T (0, n) x) : x = (0, if n < 2 then n else 0) := by
  obtain ⟨i, j⟩ := x
  rcases h with ⟨⟨hx, hahead⟩, hleast⟩ | ⟨hnone, hx, hleast⟩
  · obtain ⟨hi, hj⟩ := (hT _).mp hx
    have hn : n < 2 := lt_of_le_of_lt hahead.2 hj
    rw [if_pos hn]
    rcases hleast (0, n) ⟨(hT _).mpr ⟨rfl, hn⟩, le_refl _, le_refl _⟩ with heq | hlex
    · exact heq.symm
    · have hle : n ≤ j := hahead.2
      unfold LexLt at hlex
      simp only at hi hlex
      omega
  · have hn : ¬ n < 2 := fun hn => hnone (0, n) ((hT _).mpr ⟨rfl, hn⟩) ⟨le_refl _, le_refl _⟩
    rw [if_neg hn]
    rcases hleast (0, 0) ((hT _).mpr ⟨rfl, by decide⟩) with heq | hlex
    · exact heq.symm
    · unfold LexLt at hlex
      simp only at hlex
      omega

/-- Two threads take turns: the third tick loads the registers that the second one has saved. -/
theorem sched_run_twoThreads : ∃ m₀, FirstProcess m₀ ∧ ∀ r r' : Regs, ∃ m h m',
    ReflTransGen SchedStep (m₀, fun _ _ => none) (m, h) ∧
    (∀ i j, m.system.sched.Busy i j ↔ i = 0 ∧ j = 1) ∧ h 0 0 = some r ∧
    timerIrqStub r' m = .ok (.loadContext r.withData, m') ∧
    (m'.system.sched.cpu.pid, m'.system.sched.cpu.tid) = (0, 0) := by
  obtain ⟨m₀, m, hm₀, hrun, hcpu, hticks, hsys, halone, hmembers⟩ := twoThreads_reached
  refine ⟨m₀, hm₀, fun r r' => ?_⟩
  have hready : m.system.sched.cpu.sys_ready = false := by rw [hcpu]
  have hcursor : m.system.sched.cursor = (0, 0) := by rw [Sched.cursor, hcpu]
  have hdue : m.Due := ⟨hsys, by rw [hticks]; decide⟩
  -- the first tick has no registers to save
  obtain ⟨context, s₁, hresched, hmembers₁, hready₁, halone₁, hselects₁⟩ :=
    resched_first (schedInv_run hm₀ hrun) hready (savedContext r')
  have htick₁ : timerIrqStub r' m = .ok (.loadContext (loadContext context),
      { m.ticked with system := s₁ }) := Prog.bind_ok (timerIrq_due hdue hresched)
  rw [hcursor] at hselects₁
  have hcursor₁ : s₁.sched.cursor = (0, 0) := hselects₁.twoThreads hmembers
  have hrun₁ := hrun.tail (.tick htick₁)
  -- the second one saves those of the first thread
  obtain ⟨_, s₂, htick₂, hmembers₂, hready₂, halone₂, hselects₂⟩ :=
    timerIrqStub_switches (m := { m.ticked with system := s₁ }) (schedInv_run hm₀ hrun₁) hready₁
      ⟨hsys, by simp only [Machine.ticked, hticks]; decide⟩ (fun h => halone (halone₁.mp h)) r
  have hcursor₂ : s₂.sched.cursor = (0, 1) := by
    rw [Prod.mk.inj hcursor₁ |>.1, Prod.mk.inj hcursor₁ |>.2] at hselects₂
    exact hselects₂.twoThreads fun x => (hmembers₁ x).trans (hmembers x)
  have hrun₂ := hrun₁.tail (.tick htick₂)
  obtain ⟨hbusy, htick⟩ := sched_run hm₀ hrun₂
  -- the third one goes back to it
  obtain ⟨new, s₃, htick₃, -, -, -, hselects₃⟩ :=
    timerIrqStub_switches (m := { m.ticked.ticked with system := s₂ }) (schedInv_run hm₀ hrun₂)
      hready₂ ⟨hsys, by simp only [Machine.ticked, hticks]; decide⟩
      (fun h => halone (halone₁.mp (halone₂.mp h))) r'
  have hcursor₃ : s₃.sched.cursor = (0, 0) := by
    rw [Prod.mk.inj hcursor₂ |>.1, Prod.mk.inj hcursor₂ |>.2] at hselects₃
    exact hselects₃.twoThreads fun x =>
      (hmembers₂ x).trans ((hmembers₁ x).trans (hmembers x))
  have hsaved : (Interrupted.interrupt (Interrupted.interrupt (fun _ _ => none) m.system.sched.cpu
      r') s₁.sched.cpu r) 0 0 = some r :=
    if_pos ⟨hready₁, (Prod.mk.inj hcursor₁).1.symm, (Prod.mk.inj hcursor₁).2.symm⟩
  refine ⟨_, _, { m.ticked.ticked.ticked with system := s₃ }, hrun₂, fun i j => ?_, hsaved, ?_,
    hcursor₃⟩
  · rw [hbusy hready₂ i j]
    show i = s₂.sched.cpu.pid ∧ j = s₂.sched.cpu.tid ↔ _
    rw [(Prod.mk.inj hcursor₂).1, (Prod.mk.inj hcursor₂).2]
  · obtain ⟨out, m', hstub, hload⟩ := htick r'
    obtain ⟨rfl, rfl⟩ := Prod.mk.inj (Except.ok.inj (hstub.symm.trans htick₃))
    have hkept : (Interrupted.interrupt (Interrupted.interrupt (Interrupted.interrupt
        (fun _ _ => none) m.system.sched.cpu r') s₁.sched.cpu r) s₂.sched.cpu r') 0 0 = some r := by
      refine (if_neg fun hcur => ?_).trans hsaved
      have hslot := hcur.2.2
      rw [(Prod.mk.inj hcursor₂).2] at hslot
      cases hslot
    have hpid := (Prod.mk.inj hcursor₃).1
    have htid := (Prod.mk.inj hcursor₃).2
    rw [← hload new rfl r (by rw [hpid, htid]; exact hkept)]
    exact htick₃

end Windozz.Kernel

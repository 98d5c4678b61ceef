import Windozz.Kernel.Boot
import Windozz.Kernel.Tracked

set_option autoImplicit false

/-! # The scheduler

The timer interrupt of the boot CPU: `timer_irq_stub` and `load_context` in assembly, `timer_irq`,
`resched` and `find_idle` in C. The registers of a thread pass through three layouts: the stack of
the stub, the structure `thread_t` and the registers that `load_context` fills in.

A history keeps the registers each thread was last interrupted with. `SchedInv` says that the
current thread is the only busy one and that all others still hold theirs; it is kept by every
tick, every new process and every new thread, and so by whole runs (`schedInv_run`).
-/

namespace Windozz.Kernel

open Relation

/-! ## Registers and their layouts -/

/-- The registers of a thread. -/
structure Regs where
  rax : Nat
  rbx : Nat
  rcx : Nat
  rdx : Nat
  rsi : Nat
  rdi : Nat
  rbp : Nat
  r8 : Nat
  r9 : Nat
  r10 : Nat
  r11 : Nat
  r12 : Nat
  r13 : Nat
  r14 : Nat
  r15 : Nat
  rip : Nat
  rsp : Nat
  rflags : Nat
  cs : UInt16
  ss : UInt16
  ds : UInt16
  es : UInt16
  fs : UInt16
  gs : UInt16

/-- The quadwords from the stack pointer on. -/
abbrev Stack := Fin 20 → Nat

/-- The stack after `pushaq`: the registers that it pushed and, above them, what the processor
pushed when it took the interrupt. -/
def interruptStack (r : Regs) : Stack :=
  ![r.r15, r.r14, r.r13, r.r12, r.r11, r.r10, r.r9, r.r8, r.rbp, r.rdi, r.rsi, r.rdx, r.rcx, r.rbx,
    r.rax, r.rip, r.cs.toNat, r.rflags, r.rsp, r.ss.toNat]

/-- What the stub writes to `state`. -/
def stubState (r : Regs) (stack : Stack) : Context :=
  ![r.rax, r.rbx, r.rcx, r.rdx, r.rsi, r.rdi, r.rbp, r.r8, r.r9, r.r10, r.r11, r.r12, r.r13, r.r14,
    stack 0,  -- `r15` holds the address of `state` by now
    stack 15, stack 18, stack 17, stack 16, u64 (stack 16 + 8)]

/-- `popaq` and `iretq`. -/
def popReturn (r : Regs) (stack : Stack) : Regs :=
  { r with
    r15 := stack 0, r14 := stack 1, r13 := stack 2, r12 := stack 3, r11 := stack 4, r10 := stack 5
    r9 := stack 6, r8 := stack 7, rbp := stack 8, rdi := stack 9, rsi := stack 10, rdx := stack 11
    rcx := stack 12, rbx := stack 13, rax := stack 14
    rip := stack 15, cs := .ofNat (stack 16), rflags := stack 17, rsp := stack 18
    ss := .ofNat (stack 19) }

/-- `load_context`. -/
def loadContext (c : Context) : Regs where
  rax := c 0
  rbx := c 1
  rcx := c 2
  rdx := c 3
  rsi := c 4
  rdi := c 5
  rbp := c 6
  r8 := c 7
  r9 := c 8
  r10 := c 9
  r11 := c 10
  r12 := c 11
  r13 := c 12
  r14 := c 13
  r15 := c 14
  rip := c Context.rip
  rsp := c Context.rsp
  rflags := c Context.rflags
  cs := .ofNat (c Context.cs)
  ss := .ofNat (c Context.ds)
  ds := .ofNat (c Context.ds)
  es := .ofNat (c Context.ds)
  fs := .ofNat (c Context.ds)
  gs := .ofNat (c Context.ds)

/-- The context that the stub saves. -/
def savedContext (r : Regs) : Context := stubState r (interruptStack r)

/-- The registers with the data segment that goes with the code segment. -/
def Regs.withData (r : Regs) : Regs :=
  { r with ss := r.cs + 8, ds := r.cs + 8, es := r.cs + 8, fs := r.cs + 8, gs := r.cs + 8 }

/-- Returning from the interrupt restores everything. -/
theorem popReturn_interruptStack (r : Regs) : popReturn r (interruptStack r) = r := by
  have hcs : UInt16.ofNat r.cs.toNat = r.cs := UInt16.ofNat_toNat
  have hss : UInt16.ofNat r.ss.toNat = r.ss := UInt16.ofNat_toNat
  show { r with cs := UInt16.ofNat r.cs.toNat, ss := UInt16.ofNat r.ss.toNat } = r
  rw [hcs, hss]

/-- **The layouts agree**: what is saved is what is loaded. -/
theorem loadContext_savedContext (r : Regs) : loadContext (savedContext r) = r.withData := by
  have hcs : UInt16.ofNat r.cs.toNat = r.cs := UInt16.ofNat_toNat
  have hds : UInt16.ofNat (u64 (r.cs.toNat + 8)) = r.cs + 8 := by
    have hlt := r.cs.toNat_lt
    rw [u64_of_lt (by omega), UInt16.ofNat_add, hcs]
    rfl
  show { r with
    cs := UInt16.ofNat r.cs.toNat
    ss := UInt16.ofNat (u64 (r.cs.toNat + 8)), ds := UInt16.ofNat (u64 (r.cs.toNat + 8))
    es := UInt16.ofNat (u64 (r.cs.toNat + 8)), fs := UInt16.ofNat (u64 (r.cs.toNat + 8))
    gs := UInt16.ofNat (u64 (r.cs.toNat + 8)) } = r.withData
  rw [hcs, hds]
  rfl

/-! ## The functions -/

namespace Sched

/-- The slot holds a thread of a valid process. -/
def IsThread (s : Sched) (i j : Nat) : Prop :=
  (s.processes i).valid = true ∧ ((s.processes i).slots j).ptr ≠ 0

/-- The test of `find_idle`. -/
def isIdle (s : Sched) (i j : Nat) : Bool :=
  (s.processes i).valid && ((s.processes i).slots j).ptr != 0 &&
    ((s.processes i).slots j).thread.status == .THREAD_IDLE

/-- An assignment to fields of `cpus[0]`. -/
def setCpu (f : Cpu → Cpu) (s : Sched) : Sched := { s with cpu := f s.cpu }

end Sched

/-- The slots that a pass of `find_idle` looks at, in order. -/
def slotsFrom (pid tid : Nat) : List (Nat × Nat) :=
  (List.range' pid (MAX_PROCESSES - pid)).flatMap fun i =>
    (List.range' tid (MAX_THREADS - tid)).map fun j => (i, j)

/-- The search of `find_idle`: a pass from the current slot and a pass from the start. -/
def searchIdle (s : Sched) : Option (Nat × Nat) :=
  (slotsFrom s.cpu.pid s.cpu.tid ++ slotsFrom 0 0).find? fun p => s.isIdle p.1 p.2

/-- `find_idle`. It makes the thread it finds the current one. -/
def findIdle : S (Option (Nat × Nat)) := do
  let s ← get
  match searchIdle s.sched with
  | none => pure none
  | some (i, j) => do
      onSched (.setCpu fun cpu => { cpu with pid := i, tid := j })
      onKernel (modify fun k => { k with cr3 := (s.sched.processes i).cr3 })
      pure (some (i, j))

/-- The first part of `resched`, when there is a current thread: its context is saved. -/
def saveContext (old : Context) (pid tid : Nat) : S Unit := do
  let s ← get
  if ((s.sched.processes pid).slots tid).ptr = 0 then throw .fault
  else do
    onSched (.setThread pid tid fun t => { t with context := old })
    onSched (.setThread pid tid fun t => { t with status := .THREAD_IDLE })
    onSched (.setCpu fun cpu => { cpu with tid := cpu.tid + 1 })

/-- The second part of `resched`. The result is the context given to `load_context`. -/
def loadNext : S (Option Context) := do
  onSched (.setCpu fun cpu => { cpu with sys_ready := true })
  let new ← findIdle
  match new with
  | none => pure none
  | some (i, j) => do
      onSched (.setThread i j fun t => { t with status := .THREAD_BUSY })
      let s ← get
      pure (some ((s.sched.processes i).slots j).thread.context)

/-- `resched`. It returns (`none`) or ends in `load_context` with a context. -/
def resched (old : Context) : S (Option Context) := do
  let s ← get
  if s.sched.cpu.sys_ready then
    if s.sched.running_processes = 1 ∧ (s.sched.processes 0).thread_count = 1 then pure none
    else do
      saveContext old s.sched.cpu.pid s.sched.cpu.tid
      loadNext
  else loadNext

/-- The kernel with the globals of the timer interrupt. -/
structure Machine where
  system : System
  timer_ticks : Nat
  sys_ready : Bool

/-- `timer_irq`. -/
def timerIrq (context : Context) : Prog Machine Stop (Option Context) := fun m =>
  let m' := { m with timer_ticks := u64 (m.timer_ticks + 1) }
  if m'.sys_ready ∧ m'.timer_ticks % 10 ≠ 0 then
    match resched context m'.system with
    | .ok (new, s) => .ok (new, { m' with system := s })
    | .error e => .error e
  else .ok (none, m')

/-- The instruction that ends the interrupt, with the registers it leaves. -/
inductive Resume where
  /-- The `iretq` of the stub. -/
  | iretq (r : Regs)
  /-- The `iretq` of `load_context`. -/
  | loadContext (r : Regs)

/-- `timer_irq_stub`, entered with the registers of the interrupted thread. -/
def timerIrqStub (r : Regs) : Prog Machine Stop Resume := do
  let new ← timerIrq (stubState r (interruptStack r))
  match new with
  | none => pure (.iretq (popReturn r (interruptStack r)))
  | some context => pure (.loadContext (loadContext context))

/-! ## Runs -/

/-- The registers that each thread was last interrupted with. -/
abbrev Interrupted := Nat → Nat → Option Regs

/-- A timer interrupt with these registers, by the current thread if there is one. -/
def Interrupted.interrupt (h : Interrupted) (cpu : Cpu) (r : Regs) : Interrupted := fun i j =>
  if cpu.sys_ready ∧ i = cpu.pid ∧ j = cpu.tid then some r else h i j

/-- A step of the boot CPU. -/
inductive SchedStep : Machine × Interrupted → Machine × Interrupted → Prop
  | tick {m m' : Machine} {h : Interrupted} {r : Regs} {out : Resume}
      (hrun : timerIrqStub r m = .ok (out, m')) :
      SchedStep (m, h) (m', h.interrupt m.system.sched.cpu r)
  | process {m : Machine} {s' : System} {h : Interrupted} {entry pid : Nat}
      (hrun : createProcess entry m.system = .ok (some pid, s')) :
      SchedStep (m, h) ({ m with system := s' }, h)
  | thread {m : Machine} {s' : System} {h : Interrupted} {entry res : Nat}
      (hcpu : m.system.sched.cpu.pid = 0)
      (hrun : createThread entry m.system = .ok (some res, s')) :
      SchedStep (m, h) ({ m with system := s' }, h)
  | ready {m : Machine} {h : Interrupted} : SchedStep (m, h) ({ m with sys_ready := true }, h)

/-- The scheduler before `sched_init`: its tables are filled with zeros. -/
def Sched.zero : Sched where
  processes _ := ⟨false, 0, fun _ => .empty, 0, 0⟩
  running_processes := 0
  cpu := ⟨0, 0, false⟩

/-- The machine when `sched_init` has created the first process. -/
def FirstProcess (m : Machine) : Prop :=
  ∃ (s : System) (entry pid : Nat), s.sched = .zero ∧
    createProcess entry s = .ok (some pid, m.system)

/-! ## The invariant -/

namespace Sched

/-- The thread in a slot. -/
def thread (s : Sched) (i j : Nat) : Thread := ((s.processes i).slots j).thread

/-- A busy thread of a valid process. -/
def Busy (s : Sched) (i j : Nat) : Prop :=
  i < MAX_PROCESSES ∧ j < MAX_THREADS ∧ s.IsThread i j ∧ (s.thread i j).status = .THREAD_BUSY

/-- The boot CPU runs this thread. -/
def Current (s : Sched) (i j : Nat) : Prop :=
  s.cpu.sys_ready = true ∧ i = s.cpu.pid ∧ j = s.cpu.tid

/-- Each slot holds what it held, or a thread that has not run. -/
def Adds (s s' : Sched) : Prop := ∀ i j,
  ((s'.IsThread i j ↔ s.IsThread i j) ∧ s'.thread i j = s.thread i j) ∨
    (¬ s.IsThread i j ∧ (s'.IsThread i j → (s'.thread i j).status = .THREAD_IDLE))

end Sched

/-- The threads that are current are busy, all others are idle, and these hold the registers they
were interrupted with. -/
structure Holds (s : Sched) (h : Interrupted) (current : Nat → Nat → Prop) : Prop where
  busy : ∀ i j, s.Busy i j ↔ current i j
  idle : ∀ i j, s.IsThread i j → ¬ current i j → i < MAX_PROCESSES → j < MAX_THREADS →
    (s.thread i j).status = .THREAD_IDLE
  some_thread : ∃ i j, i < MAX_PROCESSES ∧ j < MAX_THREADS ∧ s.IsThread i j
  thread_of_some : ∀ i j r, h i j = some r → s.IsThread i j
  saved : ∀ i j r, h i j = some r → ¬ current i j → (s.thread i j).context = savedContext r

/-- **The invariant of the scheduler.** -/
def SchedInv (s : Sched) (h : Interrupted) : Prop := Holds s h s.Current

/-- New threads keep the invariant. -/
theorem Holds.adds {s s' : Sched} {h : Interrupted} {current : Nat → Nat → Prop}
    (hs : Holds s h current) (hadds : s.Adds s') : Holds s' h current := by
  have hsame : ∀ i j, s.IsThread i j →
      (s'.IsThread i j ↔ s.IsThread i j) ∧ s'.thread i j = s.thread i j := by
    intro i j hthread
    rcases hadds i j with h | ⟨hnot, -⟩
    · exact h
    · exact absurd hthread hnot
  refine ⟨fun i j => ?_, fun i j hthread hcur hi hj => ?_, ?_, fun i j r hr => ?_,
    fun i j r hr hcur => ?_⟩
  · rw [← hs.busy]
    unfold Sched.Busy
    rcases hadds i j with ⟨hiff, heq⟩ | ⟨hnot, hidle⟩
    · rw [hiff, heq]
    · constructor
      · rintro ⟨-, -, hthread, hbusy⟩
        rw [hidle hthread] at hbusy
        cases hbusy
      · rintro ⟨-, -, hthread, -⟩
        exact absurd hthread hnot
  · rcases hadds i j with ⟨hiff, heq⟩ | ⟨-, hidle⟩
    · rw [heq]
      exact hs.idle i j (hiff.mp hthread) hcur hi hj
    · exact hidle hthread
  · obtain ⟨i, j, hi, hj, hthread⟩ := hs.some_thread
    exact ⟨i, j, hi, hj, (hsame i j hthread).1.mpr hthread⟩
  · exact (hsame i j (hs.thread_of_some i j r hr)).1.mpr (hs.thread_of_some i j r hr)
  · rw [(hsame i j (hs.thread_of_some i j r hr)).2]
    exact hs.saved i j r hr hcur

/-! ### New processes and threads -/

/-- A successful `create_process`. -/
theorem createProcess_ok {s s' : System} {entry pid : Nat}
    (hrun : createProcess entry s = .ok (some pid, s')) :
    ∃ cr3 threads thread k₁ k₂ k₃ k₄, Creates s s' pid cr3 threads thread k₁ k₂ k₃ k₄ := by
  obtain ⟨t', hrun', rfl⟩ := (Tracks.createProcess entry).ok (t := ⟨s, [], [], []⟩) hrun
  cases Tracked.createProcess_cases hrun' with
  | first hfind hroot hcr3 htable htne hthread hne hfirst hstack hsne =>
      exact ⟨_, _, _, _, _, _, _, hfind, hroot, hcr3, htable, htne, hthread, hne,
        Or.inr ⟨_, hsne, hstack⟩, rfl, _, rfl⟩
  | later hfind hroot hcr3 htable htne hthread hne hlater =>
      exact ⟨_, _, _, _, _, _, _, hfind, hroot, hcr3, htable, htne, hthread, hne, Or.inl rfl, rfl,
        _, rfl⟩

/-- A successful `create_thread` fills the slot it found with an idle thread. -/
theorem createThread_ok {s s' : System} {entry res : Nat}
    (hrun : createThread entry s = .ok (some res, s')) :
    ∃ tid thread context, findThread s.sched = some tid ∧ thread ≠ 0 ∧
      s'.sched = (s.sched.setSlot s.sched.cpu.pid tid fun _ =>
        ⟨thread, ⟨context, .THREAD_IDLE⟩⟩).setProcess s.sched.cpu.pid fun p => { p with
          thread_count := u64 (p.thread_count + 1) } := by
  obtain ⟨t', hrun', rfl⟩ := (Tracks.createThread entry).ok (t := ⟨s, [], [], []⟩) hrun
  cases Tracked.createThread_cases hrun' with
  | kernel hfind hthread hne hpid hstack hsne => exact ⟨_, _, _, hfind, hne, rfl⟩
  | user hfind hthread hne hpid => exact ⟨_, _, _, hfind, hne, rfl⟩

theorem createProcess_adds {s s' : System} {entry pid : Nat}
    (hrun : createProcess entry s = .ok (some pid, s')) :
    s.sched.Adds s'.sched ∧ s'.sched.cpu = s.sched.cpu ∧ pid < MAX_PROCESSES ∧
      s'.sched.IsThread pid 0 := by
  obtain ⟨cr3, threads, thread, k₁, k₂, k₃, k₄, hcreates⟩ := createProcess_ok hrun
  obtain ⟨context, hsched⟩ := hcreates.sched
  obtain ⟨hpid, hinvalid⟩ := findProcess_some hcreates.found
  rw [hsched]
  refine ⟨fun i j => ?_, rfl, hpid, by simp [Sched.IsThread, Process.fresh, hcreates.thread_ne]⟩
  by_cases hi : i = pid
  · subst hi
    refine Or.inr ⟨by simp [Sched.IsThread, hinvalid], fun hthread => ?_⟩
    by_cases hj : j = 0
    · subst hj
      simp [Sched.thread, Process.fresh]
    · refine absurd hthread.2 ?_
      simp [Process.fresh, Slot.empty, hj]
  · refine Or.inl ?_
    simp [Sched.IsThread, Sched.thread, hi]

theorem createThread_adds {s s' : System} {entry res : Nat} {h : Interrupted}
    {current : Nat → Nat → Prop} (hs : Holds s.sched h current) (hcpu : s.sched.cpu.pid = 0)
    (hrun : createThread entry s = .ok (some res, s')) :
    s.sched.Adds s'.sched ∧ s'.sched.cpu = s.sched.cpu := by
  obtain ⟨tid, thread, context, hfind, hne, hsched⟩ := createThread_ok hrun
  obtain ⟨htid, hslot⟩ := findThread_some hfind
  rw [hsched, hcpu]
  refine ⟨fun i j => ?_, rfl⟩
  by_cases hij : i = 0 ∧ j = tid
  · obtain ⟨rfl, rfl⟩ := hij
    refine Or.inr ⟨fun hthread => ?_, fun _ => ?_⟩
    · have hnone : (s.sched.thread 0 j).status = .THREAD_NONE := hslot.resolve_left hthread.2
      -- a thread of the table is idle or busy
      by_cases hcur : current 0 j
      · obtain ⟨-, -, -, hbusy⟩ := (hs.busy 0 j).mpr hcur
        rw [hnone] at hbusy
        cases hbusy
      · have hidle := hs.idle 0 j hthread hcur (by decide) htid
        rw [hnone] at hidle
        cases hidle
    · simp [Sched.thread, Sched.setSlot, Sched.setProcess]
  · refine Or.inl ?_
    by_cases hi : i = 0
    · subst hi
      have hj : j ≠ tid := fun hj => hij ⟨rfl, hj⟩
      simp [Sched.IsThread, Sched.thread, Sched.setSlot, Sched.setProcess, hj]
    · simp [Sched.IsThread, Sched.thread, Sched.setSlot, Sched.setProcess, hi]

/-! ### The search -/

theorem mem_slotsFrom {pid tid i j : Nat} : (i, j) ∈ slotsFrom pid tid ↔
    (pid ≤ i ∧ i < MAX_PROCESSES) ∧ tid ≤ j ∧ j < MAX_THREADS := by
  have hrange : ∀ a n b : Nat, b ∈ List.range' a (n - a) ↔ a ≤ b ∧ b < n := by
    intro a n b
    rw [List.mem_range'_1]
    omega
  constructor
  · intro h
    obtain ⟨a, ha, hmem⟩ := List.mem_flatMap.mp h
    obtain ⟨b, hb, heq⟩ := List.mem_map.mp hmem
    obtain ⟨rfl, rfl⟩ := Prod.mk.inj heq
    exact ⟨(hrange _ _ _).mp ha, (hrange _ _ _).mp hb⟩
  · rintro ⟨hi, hj⟩
    exact List.mem_flatMap.mpr ⟨i, (hrange _ _ _).mpr hi,
      List.mem_map.mpr ⟨j, (hrange _ _ _).mpr hj, rfl⟩⟩

theorem isIdle_iff {s : Sched} {i j : Nat} :
    s.isIdle i j = true ↔ s.IsThread i j ∧ (s.thread i j).status = .THREAD_IDLE := by
  simp [Sched.isIdle, Sched.IsThread, Sched.thread]

/-- The second pass finds a thread, whatever the first one starts at. -/
theorem searchIdle_some {s : Sched} {h : Interrupted} (hs : Holds s h fun _ _ => False) :
    ∃ i j, searchIdle s = some (i, j) ∧ i < MAX_PROCESSES ∧ j < MAX_THREADS ∧ s.IsThread i j := by
  obtain ⟨i₀, j₀, hi₀, hj₀, hthread₀⟩ := hs.some_thread
  have hidle₀ : s.isIdle i₀ j₀ = true :=
    isIdle_iff.mpr ⟨hthread₀, hs.idle i₀ j₀ hthread₀ not_false hi₀ hj₀⟩
  have hmem₀ : (i₀, j₀) ∈ slotsFrom s.cpu.pid s.cpu.tid ++ slotsFrom 0 0 :=
    List.mem_append_right _ (mem_slotsFrom.mpr ⟨⟨Nat.zero_le _, hi₀⟩, Nat.zero_le _, hj₀⟩)
  have hsome : (searchIdle s).isSome = true := List.find?_isSome.mpr ⟨_, hmem₀, hidle₀⟩
  obtain ⟨⟨i, j⟩, hfound⟩ := Option.isSome_iff_exists.mp hsome
  have hbounds : i < MAX_PROCESSES ∧ j < MAX_THREADS := by
    rcases List.mem_append.mp (List.mem_of_find?_eq_some hfound) with hmem | hmem
    · exact ⟨(mem_slotsFrom.mp hmem).1.2, (mem_slotsFrom.mp hmem).2.2⟩
    · exact ⟨(mem_slotsFrom.mp hmem).1.2, (mem_slotsFrom.mp hmem).2.2⟩
  have hidle := @List.find?_some _ (fun p : Nat × Nat => s.isIdle p.1 p.2) (i, j) _ hfound
  exact ⟨i, j, hfound, hbounds.1, hbounds.2, (isIdle_iff.mp hidle).1⟩

/-! ### One tick -/

section SetThread

variable (s : Sched) (i j : Nat) (f : Thread → Thread)

@[simp] theorem isThread_setThread (a b : Nat) :
    (s.setThread i j f).IsThread a b ↔ s.IsThread a b := by
  by_cases ha : a = i
  · subst ha
    by_cases hb : b = j
    · subst hb
      simp [Sched.IsThread, Sched.setThread, Sched.setSlot, Sched.setProcess]
    · simp [Sched.IsThread, Sched.setThread, Sched.setSlot, Sched.setProcess, hb]
  · simp [Sched.IsThread, Sched.setThread, Sched.setSlot, Sched.setProcess, ha]

theorem thread_setThread_self : (s.setThread i j f).thread i j = f (s.thread i j) := by
  simp [Sched.thread, Sched.setThread, Sched.setSlot, Sched.setProcess]

theorem thread_setThread_ne {a b : Nat} (h : ¬ (a = i ∧ b = j)) :
    (s.setThread i j f).thread a b = s.thread a b := by
  by_cases ha : a = i
  · subst ha
    have hb : b ≠ j := fun hb => h ⟨rfl, hb⟩
    simp [Sched.thread, Sched.setThread, Sched.setSlot, Sched.setProcess, hb]
  · simp [Sched.thread, Sched.setThread, Sched.setSlot, Sched.setProcess, ha]

@[simp] theorem isThread_setCpu (g : Cpu → Cpu) (a b : Nat) :
    (s.setCpu g).IsThread a b ↔ s.IsThread a b := Iff.rfl

@[simp] theorem thread_setCpu (g : Cpu → Cpu) (a b : Nat) :
    (s.setCpu g).thread a b = s.thread a b := rfl

end SetThread

/-- Saving the current thread leaves no thread busy. -/
theorem Holds.suspend {s : Sched} {h : Interrupted} (hs : SchedInv s h)
    (hready : s.cpu.sys_ready = true) (r : Regs) (g : Cpu → Cpu) :
    Holds ((s.setThread s.cpu.pid s.cpu.tid fun _ => ⟨savedContext r, .THREAD_IDLE⟩).setCpu g)
      (h.interrupt s.cpu r) fun _ _ => False := by
  obtain ⟨hpid, htid, hthread, hbusy⟩ := (hs.busy s.cpu.pid s.cpu.tid).mpr ⟨hready, rfl, rfl⟩
  -- the current thread was the only busy one, and its registers are what was saved
  refine ⟨fun i j => ?_, fun i j hij _ hi hj => ?_, ?_, fun i j r₀ hr₀ => ?_,
    fun i j r₀ hr₀ _ => ?_⟩
  · refine ⟨fun hbusy => ?_, False.elim⟩
    obtain ⟨hi, hj, hij, hstatus⟩ := hbusy
    rw [thread_setCpu] at hstatus
    by_cases hcur : i = s.cpu.pid ∧ j = s.cpu.tid
    · obtain ⟨rfl, rfl⟩ := hcur
      rw [thread_setThread_self] at hstatus
      cases hstatus
    · rw [thread_setThread_ne _ _ _ _ hcur] at hstatus
      exact hcur ((hs.busy i j).mp ⟨hi, hj, by simpa using hij, hstatus⟩).2
  · rw [thread_setCpu]
    by_cases hcur : i = s.cpu.pid ∧ j = s.cpu.tid
    · obtain ⟨rfl, rfl⟩ := hcur
      rw [thread_setThread_self]
    · rw [thread_setThread_ne _ _ _ _ hcur]
      exact hs.idle i j (by simpa using hij) (fun h => hcur h.2) hi hj
  · exact ⟨_, _, hpid, htid, by simpa using hthread⟩
  · rw [isThread_setCpu, isThread_setThread]
    unfold Interrupted.interrupt at hr₀
    split at hr₀
    · rename_i hcur
      rw [hcur.2.1, hcur.2.2]
      exact hthread
    · exact hs.thread_of_some i j r₀ hr₀
  · rw [thread_setCpu]
    unfold Interrupted.interrupt at hr₀
    split at hr₀
    · rename_i hcur
      obtain ⟨-, rfl, rfl⟩ := hcur
      rw [thread_setThread_self, Option.some.inj hr₀]
    · rename_i hcur
      have hne : ¬ (i = s.cpu.pid ∧ j = s.cpu.tid) := fun h => hcur ⟨hready, h⟩
      rw [thread_setThread_ne _ _ _ _ hne]
      exact hs.saved i j r₀ hr₀ fun h => hne h.2

/-- Selecting a thread makes it the busy one. -/
theorem Holds.select {s : Sched} {h : Interrupted} (hs : Holds s h fun _ _ => False) {i j : Nat}
    (hi : i < MAX_PROCESSES) (hj : j < MAX_THREADS) (hthread : s.IsThread i j) :
    SchedInv ((s.setCpu fun _ => ⟨i, j, true⟩).setThread i j fun t => { t with
      status := .THREAD_BUSY }) h := by
  refine ⟨fun a b => ?_, fun a b hab hcur ha hb => ?_, ?_, fun a b r hr => ?_,
    fun a b r hr hcur => ?_⟩
  · constructor
    · rintro ⟨ha, hb, hab, hstatus⟩
      by_contra hcur
      have hne : ¬ (a = i ∧ b = j) := fun h => hcur ⟨rfl, h⟩
      rw [thread_setThread_ne _ _ _ _ hne, thread_setCpu] at hstatus
      exact (hs.busy a b).mp ⟨ha, hb, by simpa using hab, hstatus⟩
    · rintro ⟨-, ha, hb⟩
      obtain rfl : a = i := ha
      obtain rfl : b = j := hb
      refine ⟨hi, hj, by simpa using hthread, ?_⟩
      rw [thread_setThread_self]
  · have hne : ¬ (a = i ∧ b = j) := fun h => hcur ⟨rfl, h⟩
    rw [thread_setThread_ne _ _ _ _ hne, thread_setCpu]
    exact hs.idle a b (by simpa using hab) not_false ha hb
  · exact ⟨i, j, hi, hj, by simpa using hthread⟩
  · rw [isThread_setThread, isThread_setCpu]
    exact hs.thread_of_some a b r hr
  · have hne : ¬ (a = i ∧ b = j) := fun h => hcur ⟨rfl, h⟩
    rw [thread_setThread_ne _ _ _ _ hne, thread_setCpu]
    exact hs.saved a b r hr not_false

/-- A thread that is interrupted and goes on stays current. -/
theorem Holds.interrupted {s : Sched} {h : Interrupted} (hs : SchedInv s h) (r : Regs) :
    SchedInv s (h.interrupt s.cpu r) := by
  have hother : ∀ i j, ¬ s.Current i j → h.interrupt s.cpu r i j = h i j := fun i j hcur =>
    if_neg hcur
  refine ⟨hs.busy, hs.idle, hs.some_thread, fun i j r₀ hr₀ => ?_, fun i j r₀ hr₀ hcur => ?_⟩
  · by_cases hcur : s.Current i j
    · exact ((hs.busy i j).mpr hcur).2.2.1
    · rw [hother i j hcur] at hr₀
      exact hs.thread_of_some i j r₀ hr₀
  · rw [hother i j hcur] at hr₀
    exact hs.saved i j r₀ hr₀ hcur

/-- `load_context` is given the registers that the selected thread was interrupted with. -/
def Reloads (s : Sched) (h : Interrupted) (new : Option Context) : Prop :=
  ∀ context, new = some context → ∀ r, h s.cpu.pid s.cpu.tid = some r → context = savedContext r

theorem findIdle_ok {s : System} {i j : Nat} (hfound : searchIdle s.sched = some (i, j)) :
    findIdle s = .ok (some (i, j), ⟨{ s.kernel with cr3 := (s.sched.processes i).cr3 },
      s.sched.setCpu fun cpu => { cpu with pid := i, tid := j }⟩) := by
  rw [findIdle, Prog.bind_ok (Prog.run_get _)]
  simp only [hfound]
  rfl

theorem loadNext_spec {s : System} {h : Interrupted} (hs : Holds s.sched h fun _ _ => False) :
    ∃ new s', loadNext s = .ok (new, s') ∧ SchedInv s'.sched h ∧ Reloads s'.sched h new := by
  have hs₁ : Holds (s.sched.setCpu fun cpu => { cpu with sys_ready := true }) h
      fun _ _ => False := ⟨hs.busy, hs.idle, hs.some_thread, hs.thread_of_some, hs.saved⟩
  obtain ⟨i, j, hfound, hi, hj, hthread⟩ := searchIdle_some hs₁
  have hsaved : ∀ r, h i j = some r → (s.sched.thread i j).context = savedContext r :=
    fun r hr => hs.saved i j r hr not_false
  refine ⟨some (s.sched.thread i j).context,
    ⟨{ s.kernel with cr3 := (s.sched.processes i).cr3 }, (s.sched.setCpu fun _ =>
      ⟨i, j, true⟩).setThread i j fun t => { t with status := .THREAD_BUSY }⟩, ?_,
    hs.select hi hj hthread, fun context heq r hr => ?_⟩
  · have hfind := findIdle_ok (s := ⟨s.kernel, s.sched.setCpu fun cpu => { cpu with
      sys_ready := true }⟩) hfound
    rw [loadNext, Prog.bind_ok (run_onSched _ _), Prog.bind_ok hfind]
    simp only
    rw [Prog.bind_ok (run_onSched _ _), Prog.bind_ok (Prog.run_get _), Prog.run_pure]
    have hthread' : ((Sched.setThread i j (fun t => { t with status := .THREAD_BUSY })
        (s.sched.setCpu fun _ => ⟨i, j, true⟩)).thread i j).context
          = (s.sched.thread i j).context := by
      rw [thread_setThread_self, thread_setCpu]
    exact congrArg (fun c => Except.ok (some c, _)) hthread'
  · rw [← Option.some.inj heq]
    exact hsaved r hr

/-- What `resched` does to the threads and the current one. -/
theorem resched_spec {s : System} {h : Interrupted} (hs : SchedInv s.sched h) (r : Regs) :
    ∃ new s', resched (savedContext r) s = .ok (new, s') ∧
      SchedInv s'.sched (h.interrupt s.sched.cpu r) ∧
      Reloads s'.sched (h.interrupt s.sched.cpu r) new := by
  rw [resched, Prog.bind_ok (Prog.run_get _)]
  by_cases hready : s.sched.cpu.sys_ready = true
  · rw [if_pos hready]
    obtain ⟨-, -, hthread, -⟩ := (hs.busy s.sched.cpu.pid s.sched.cpu.tid).mpr ⟨hready, rfl, rfl⟩
    -- the only thread of the only process is not switched away from
    by_cases hone : s.sched.running_processes = 1 ∧ (s.sched.processes 0).thread_count = 1
    · rw [if_pos hone]
      exact ⟨none, s, rfl, Holds.interrupted hs r, nofun⟩
    · rw [if_neg hone]
      have hsuspend := Holds.suspend hs hready r fun cpu => { cpu with tid := cpu.tid + 1 }
      have hsave : saveContext (savedContext r) s.sched.cpu.pid s.sched.cpu.tid s
          = .ok ((), ⟨s.kernel, (s.sched.setThread s.sched.cpu.pid s.sched.cpu.tid fun _ =>
            ⟨savedContext r, .THREAD_IDLE⟩).setCpu fun cpu => { cpu with tid := cpu.tid + 1 }⟩) := by
        rw [saveContext, Prog.bind_ok (Prog.run_get _), if_neg hthread.2,
          Prog.bind_ok (run_onSched _ _), Prog.bind_ok (run_onSched _ _), run_onSched]
        simp only [Sched.setThread, Sched.setSlot, Sched.setProcess, Function.update_self,
          Function.update_idem]
      rw [Prog.bind_ok hsave]
      exact loadNext_spec hsuspend
  · rw [if_neg hready]
    -- before `sys_ready` no thread is the current one, and nothing is saved
    have hsame : h.interrupt s.sched.cpu r = h := by
      funext i j
      exact if_neg fun hcur => hready hcur.1
    have hnone : Holds s.sched h fun _ _ => False :=
      ⟨fun i j => (hs.busy i j).trans ⟨fun hcur => hready hcur.1, False.elim⟩,
        fun i j hij _ => hs.idle i j hij fun hcur => hready hcur.1, hs.some_thread,
        hs.thread_of_some, fun i j r hr _ => hs.saved i j r hr fun hcur => hready hcur.1⟩
    rw [hsame]
    exact loadNext_spec hnone

/-- A tick returns, keeps the invariant and reloads what was saved. -/
theorem timerIrqStub_spec {m : Machine} {h : Interrupted} (hs : SchedInv m.system.sched h)
    (r : Regs) : ∃ out m', timerIrqStub r m = .ok (out, m') ∧
      SchedInv m'.system.sched (h.interrupt m.system.sched.cpu r) ∧
      ∀ new, out = .loadContext new → ∀ r₀, h.interrupt m.system.sched.cpu r
        m'.system.sched.cpu.pid m'.system.sched.cpu.tid = some r₀ → new = r₀.withData := by
  obtain ⟨new, m', hirq, hinv, hreload⟩ : ∃ new m', timerIrq (savedContext r) m = .ok (new, m') ∧
      SchedInv m'.system.sched (h.interrupt m.system.sched.cpu r) ∧
      Reloads m'.system.sched (h.interrupt m.system.sched.cpu r) new := by
    unfold timerIrq
    simp only
    split
    · obtain ⟨new, s', hrun, hspec⟩ := resched_spec hs r
      rw [hrun]
      exact ⟨new, _, rfl, hspec⟩
    · exact ⟨none, _, rfl, Holds.interrupted hs r, nofun⟩
  cases new with
  | none => exact ⟨_, m', Prog.bind_ok hirq, hinv, nofun⟩
  | some context =>
      refine ⟨_, m', Prog.bind_ok hirq, hinv, fun new hnew r₀ hr₀ => ?_⟩
      rw [← Resume.loadContext.inj hnew, hreload context rfl r₀ hr₀, loadContext_savedContext]

/-! ### Whole runs -/

theorem schedInv_step {m m' : Machine} {h h' : Interrupted} (hs : SchedInv m.system.sched h)
    (hstep : SchedStep (m, h) (m', h')) : SchedInv m'.system.sched h' := by
  cases hstep with
  | tick hrun =>
      obtain ⟨out, m₁, hrun₁, hinv, -⟩ := timerIrqStub_spec hs _
      rw [hrun] at hrun₁
      obtain ⟨-, rfl⟩ := Prod.mk.inj (Except.ok.inj hrun₁)
      exact hinv
  | process hrun =>
      obtain ⟨hadds, hcpu, -⟩ := createProcess_adds hrun
      have hinv := hs.adds hadds
      unfold SchedInv Sched.Current at *
      rw [hcpu]
      exact hinv
  | thread hcpu hrun =>
      obtain ⟨hadds, hcpu⟩ := createThread_adds hs hcpu hrun
      have hinv := hs.adds hadds
      unfold SchedInv Sched.Current at *
      rw [hcpu]
      exact hinv
  | ready => exact hs

theorem schedInv_first {m : Machine} (hm : FirstProcess m) :
    SchedInv m.system.sched fun _ _ => none := by
  obtain ⟨s, entry, pid, hzero, hrun⟩ := hm
  obtain ⟨hadds, hcpu, hpid, hthread⟩ := createProcess_adds hrun
  have hnot : ∀ i j, ¬ s.sched.IsThread i j := by
    intro i j h
    rw [hzero] at h
    exact Bool.noConfusion h.1
  have hidle : ∀ i j, m.system.sched.IsThread i j →
      (m.system.sched.thread i j).status = .THREAD_IDLE := by
    intro i j hij
    rcases hadds i j with ⟨hiff, -⟩ | ⟨-, hidle⟩
    · exact absurd (hiff.mp hij) (hnot i j)
    · exact hidle hij
  have hready : m.system.sched.cpu.sys_ready = false := by
    rw [hcpu, hzero]
    rfl
  refine ⟨fun i j => ⟨?_, fun hcur => ?_⟩, fun i j hij _ _ _ => hidle i j hij,
    ⟨pid, 0, hpid, by decide, hthread⟩, nofun, nofun⟩
  · rintro ⟨-, -, hij, hbusy⟩
    rw [hidle i j hij] at hbusy
    cases hbusy
  · rw [hcur.1] at hready
    cases hready

theorem schedInv_run {m₀ m : Machine} {h : Interrupted} (hm₀ : FirstProcess m₀)
    (hrun : ReflTransGen SchedStep (m₀, fun _ _ => none) (m, h)) : SchedInv m.system.sched h := by
  suffices ∀ c, ReflTransGen SchedStep (m₀, fun _ _ => none) c → SchedInv c.1.system.sched c.2 from
    this _ hrun
  intro c hc
  induction hc with
  | refl => exact schedInv_first hm₀
  | tail _ hstep ih => exact schedInv_step ih hstep

theorem findProcess_zero : findProcess .zero = some 0 := by
  have hrange : List.range MAX_PROCESSES = 0 :: (List.range 511).map Nat.succ :=
    List.range_succ_eq_map
  rw [findProcess, findIndex, hrange]
  rfl

end Windozz.Kernel

import Windozz.Kernel.Heap

set_option autoImplicit false

/-! # Processes and threads

`create_process` and `create_thread` of `sched.c`. The tables of processes and threads are kept
as records beside the kernel state, with the pointers that the code keeps to them: their blocks
come from the heap and no other code reaches them.
-/

namespace Windozz.Kernel

/-! ## The tables -/

def MAX_PROCESSES : Nat := 512
def MAX_THREADS : Nat := 32
def THREAD_STACK : Nat := 131072
def KCODE_SEGMENT : Nat := 0x08
def KDATA_SEGMENT : Nat := 0x10
def UCODE_SEGMENT : Nat := 0x1B
def UDATA_SEGMENT : Nat := 0x23

/-- `sizeof(thread_t *)`. -/
def SIZEOF_POINTER : Nat := 8

/-- `sizeof(thread_t)`. -/
def SIZEOF_THREAD : Nat := 164

inductive ThreadStatus where
  | THREAD_NONE
  | THREAD_IDLE
  | THREAD_BUSY
  | THREAD_WAIT
  deriving DecidableEq, Repr

/-- The quadwords of `thread_t`, in the order of the structure: `rax`, `rbx`, `rcx`, `rdx`, `rsi`,
`rdi`, `rbp`, `r8` to `r15`, `rip`, `rsp`, `rflags`, `cs`, `ds`. -/
abbrev Context := Fin 20 → Nat

namespace Context

/-- The numerals of `Fin 20` number the registers. -/
instance neZero : NeZero 20 := ⟨by decide⟩

def rip : Fin 20 := 15
def rsp : Fin 20 := 16
def rflags : Fin 20 := 17
def cs : Fin 20 := 18
def ds : Fin 20 := 19

end Context

/-- `thread_t`. -/
structure Thread where
  context : Context
  status : ThreadStatus

/-- A structure filled with zeros. -/
def Thread.zero : Thread := ⟨fun _ => 0, .THREAD_NONE⟩

/-- An element of `threads`: a pointer and what it points to. -/
structure Slot where
  ptr : Nat
  thread : Thread

/-- `NULL`. -/
def Slot.empty : Slot := ⟨0, .zero⟩

/-- `process_t`. -/
structure Process where
  valid : Bool
  threads : Nat
  slots : Nat → Slot
  thread_count : Nat
  cr3 : Nat

/-- The fields of `cpus[0]` that the scheduler uses. -/
structure Cpu where
  pid : Nat
  tid : Nat
  sys_ready : Bool

/-- The globals of `sched.c`. -/
structure Sched where
  processes : Nat → Process
  running_processes : Nat
  cpu : Cpu

/-- The kernel with its processes. -/
structure System where
  kernel : State
  sched : Sched

namespace Sched

/-- An assignment to fields of `processes[pid]`. -/
def setProcess (pid : Nat) (f : Process → Process) (s : Sched) : Sched :=
  { s with processes := Function.update s.processes pid (f (s.processes pid)) }

/-- An assignment to `processes[pid].threads[tid]`. -/
def setSlot (pid tid : Nat) (f : Slot → Slot) : Sched → Sched :=
  setProcess pid fun p => { p with slots := Function.update p.slots tid (f (p.slots tid)) }

/-- An assignment to fields of `*processes[pid].threads[tid]`. -/
def setThread (pid tid : Nat) (f : Thread → Thread) : Sched → Sched :=
  setSlot pid tid fun slot => { slot with thread := f slot.thread }

end Sched

/-- An assignment to a saved register. -/
def Thread.setReg (r : Fin 20) (x : Nat) (t : Thread) : Thread :=
  { t with context := Function.update t.context r x }

/-! ## The functions -/

/-- A function of the scheduler. -/
abbrev S (α : Type) := Prog System Stop α

/-- A call of a function of the memory manager. -/
def onKernel {α : Type} (m : K α) : S α := fun s =>
  match m s.kernel with
  | .ok (a, k) => .ok (a, { s with kernel := k })
  | .error e => .error e

/-- An assignment to the globals of the scheduler. -/
def onSched (f : Sched → Sched) : S Unit := modify fun s => { s with sched := f s.sched }

/-- The physical address behind the pointer `bsp_pml4`. -/
def State.bspTable (s : State) : Nat := u64 (s.bsp_pml4 + (2 ^ 64 - PHYSICAL_MEMORY))

/-- `cr3[i] = bsp_pml4[i]`. -/
def copyEntry (cr3 i : Nat) : K Unit :=
  modify fun s => { s with mem := s.mem.setQword (cr3 + 8 * i) (entry s.mem s.bspTable i) }

/-- The page-table root of a new process: a page with the three entries of the kernel. -/
def newPml4 : K Nat := do
  let cr3 ← pmmAllocPage
  if cr3 = 0 then pure 0
  else do
    copyEntry cr3 256
    copyEntry cr3 257
    copyEntry cr3 258
    pure cr3

/-- The first index below `n` that satisfies the test. -/
def findIndex (test : Nat → Bool) (n : Nat) : Option Nat := (List.range n).find? test

/-- `find_process`. `none` stands for `-1`. -/
def findProcess (s : Sched) : Option Nat :=
  findIndex (fun i => !(s.processes i).valid) MAX_PROCESSES

/-- `find_thread`. It looks at the first process, whatever its argument. -/
def findThread (s : Sched) : Option Nat :=
  findIndex (fun i => ((s.processes 0).slots i).ptr == 0
    || ((s.processes 0).slots i).thread.status == .THREAD_NONE) MAX_THREADS

/-- The stack of the thread, if it is the first one of all. -/
def createStack (pid : Nat) : S Bool := do
  let s ← get
  if s.sched.running_processes = 0 then do
    let rsp ← onKernel (kmalloc THREAD_STACK)
    onSched (.setThread pid 0 (.setReg Context.rsp rsp))
    if rsp = 0 then pure false
    else do
      onSched (.setThread pid 0 (.setReg Context.rsp (u64 (rsp + THREAD_STACK))))
      onSched (.setThread pid 0 (.setReg Context.cs KCODE_SEGMENT))
      onSched (.setThread pid 0 (.setReg Context.ds KDATA_SEGMENT))
      pure true
  else pure true

/-- `create_process`. `none` stands for `-1`. -/
def createProcess (entry : Nat) : S (Option Nat) := do
  onKernel (acquire .sched_mutex)
  let s ← get
  match findProcess s.sched with
  | none => do
      onKernel (release .sched_mutex)
      pure none
  | some pid => do
      let cr3 ← onKernel newPml4
      onSched (.setProcess pid fun p => { p with cr3 := cr3 })
      if cr3 = 0 then do
        onKernel (release .sched_mutex)
        pure none
      else do
        onSched (.setProcess pid fun p => { p with thread_count := 1 })
        let threads ← onKernel (kcalloc SIZEOF_POINTER MAX_THREADS)
        onSched (.setProcess pid fun p => { p with threads := threads, slots := fun _ => .empty })
        if threads = 0 then do
          onKernel (pmmFreePage cr3)
          onKernel (release .sched_mutex)
          pure none
        else do
          let thread ← onKernel (kcalloc SIZEOF_THREAD 1)
          onSched (.setSlot pid 0 fun _ => ⟨thread, .zero⟩)
          if thread = 0 then do
            onKernel (pmmFreePage cr3)
            onKernel (kfree threads)
            onKernel (release .sched_mutex)
            pure none
          else do
            onSched (.setThread pid 0 (.setReg Context.rflags 0x202))
            onSched (.setThread pid 0 (.setReg Context.rip entry))
            let done ← createStack pid
            if done then do
              onSched (.setThread pid 0 fun t => { t with status := .THREAD_IDLE })
              onSched (.setProcess pid fun p => { p with valid := true, thread_count := 1 })
              onSched fun s => { s with running_processes := u64 (s.running_processes + 1) }
              onKernel (release .sched_mutex)
              pure (some pid)
            else do
              onKernel (pmmFreePage cr3)
              onKernel (kfree thread)
              onKernel (kfree threads)
              onKernel (release .sched_mutex)
              pure none

/-- `create_thread`, called on the boot CPU. `none` stands for `-1`. -/
def createThread (entry : Nat) : S (Option Nat) := do
  onKernel (acquire .sched_mutex)
  let s ← get
  let pid := s.sched.cpu.pid
  match findThread s.sched with
  | none => do
      onKernel (release .sched_mutex)
      pure none
  | some tid => do
      let thread ← onKernel (kcalloc SIZEOF_THREAD 1)
      onSched (.setSlot pid tid fun _ => ⟨thread, .zero⟩)
      if thread = 0 then do
        onKernel (release .sched_mutex)
        pure none
      else do
        if pid = 0 then do
          onSched (.setThread pid tid (.setReg Context.cs KCODE_SEGMENT))
          onSched (.setThread pid tid (.setReg Context.ds KDATA_SEGMENT))
          let rsp ← onKernel (kmalloc THREAD_STACK)
          onSched (.setThread pid tid (.setReg Context.rsp rsp))
          if rsp = 0 then do
            onKernel (kfree thread)
            onKernel (release .sched_mutex)
            pure none
          else startThread entry pid tid rsp
        else do
          onSched (.setThread pid tid (.setReg Context.cs UCODE_SEGMENT))
          onSched (.setThread pid tid (.setReg Context.ds UDATA_SEGMENT))
          startThread entry pid tid 0
where
  /-- The end of `create_thread`, with the stack pointer so far. -/
  startThread (entry pid tid rsp : Nat) : S (Option Nat) := do
    onSched (.setThread pid tid (.setReg Context.rsp (u64 (rsp + THREAD_STACK))))
    onSched (.setThread pid tid (.setReg Context.rflags 0x202))
    onSched (.setThread pid tid (.setReg Context.rip entry))
    onSched (.setThread pid tid fun t => { t with status := .THREAD_IDLE })
    onSched (.setProcess pid fun p => { p with thread_count := u64 (p.thread_count + 1) })
    onKernel (release .sched_mutex)
    pure (some 0)

/-! ## Running them -/

theorem onKernel_eq_ok {α : Type} {m : K α} {s s' : System} {a : α} :
    onKernel m s = .ok (a, s') ↔ ∃ k, m s.kernel = .ok (a, k) ∧ s' = { s with kernel := k } := by
  unfold onKernel
  cases hm : m s.kernel with
  | ok p =>
      constructor
      · intro h
        obtain ⟨rfl, rfl⟩ := Prod.mk.inj (Except.ok.inj h)
        exact ⟨p.2, rfl, rfl⟩
      · rintro ⟨k, hk, rfl⟩
        obtain rfl := Except.ok.inj hk
        rfl
  | error e => simp

theorem onKernel_eq_error {α : Type} {m : K α} {s : System} {e : Stop}
    (h : m s.kernel = .error e) : onKernel m s = .error e := by
  unfold onKernel
  rw [h]

@[simp] theorem run_onSched (f : Sched → Sched) (s : System) :
    onSched f s = .ok ((), { s with sched := f s.sched }) := rfl

theorem run_onRelease (m : Mutex) (s : System) : onKernel (release m) s = .ok ((), { s with
    kernel := { s.kernel with mutexes := Function.update s.kernel.mutexes m false } }) := rfl

/-- A process with one thread. -/
def Process.fresh (cr3 threads thread : Nat) (context : Context) : Process where
  valid := true
  threads := threads
  slots := Function.update (fun _ => .empty) 0 ⟨thread, ⟨context, .THREAD_IDLE⟩⟩
  thread_count := 1
  cr3 := cr3

/-- **What a successful `create_process` does**: the calls it makes, and the entry it fills in. -/
structure Creates (s s' : System) (pid cr3 threads thread : Nat) (k₁ k₂ k₃ k₄ : State) : Prop where
  found : findProcess s.sched = some pid
  alloc_root : newPml4 { s.kernel with
    mutexes := Function.update s.kernel.mutexes .sched_mutex true } = .ok (cr3, k₁)
  root_ne : cr3 ≠ 0
  alloc_table : kcalloc SIZEOF_POINTER MAX_THREADS k₁ = .ok (threads, k₂)
  table_ne : threads ≠ 0
  alloc_thread : kcalloc SIZEOF_THREAD 1 k₂ = .ok (thread, k₃)
  thread_ne : thread ≠ 0
  alloc_stack : k₄ = k₃ ∨ ∃ rsp, rsp ≠ 0 ∧ kmalloc THREAD_STACK k₃ = .ok (rsp, k₄)
  kernel : s'.kernel = { k₄ with mutexes := Function.update k₄.mutexes .sched_mutex false }
  sched : ∃ context, s'.sched = { s.sched with
    processes := Function.update s.sched.processes pid (.fresh cr3 threads thread context)
    running_processes := u64 (s.sched.running_processes + 1) }

/-! ## The slots that are found -/

/-- The index found is below the bound and satisfies the test. -/
theorem findIndex_some {test : Nat → Bool} {n i : Nat} (h : findIndex test n = some i) :
    i < n ∧ test i = true :=
  ⟨List.mem_range.mp (List.mem_of_find?_eq_some h), List.find?_some h⟩

theorem findProcess_some {s : Sched} {pid : Nat} (h : findProcess s = some pid) :
    pid < MAX_PROCESSES ∧ (s.processes pid).valid = false := by
  obtain ⟨hlt, htest⟩ := findIndex_some h
  exact ⟨hlt, by simpa using htest⟩

theorem findThread_some {s : Sched} {tid : Nat} (h : findThread s = some tid) :
    tid < MAX_THREADS ∧ (((s.processes 0).slots tid).ptr = 0 ∨
      ((s.processes 0).slots tid).thread.status = .THREAD_NONE) := by
  obtain ⟨hlt, htest⟩ := findIndex_some h
  exact ⟨hlt, by simpa using htest⟩

/-! ## The page-table root of a new process -/

/-- Between two states a page was allocated and filled in. -/
structure TakesFrame (s s' : State) (q : Nat) : Prop where
  free : s.pmm.Free q
  only : s' = { s with mem := s'.mem, pmm := s'.pmm }
  takes : Takes s.pmm s'.pmm {q}
  mem_eq : ∀ a, a / 4096 ≠ q → s'.mem a = s.mem a

/-- The page is no table and belongs to no block, so the blocks are kept. -/
theorem HeapInv.takesFrame {s s' : State} {live : List Block} {q : Nat} (h : HeapInv s live)
    (htake : TakesFrame s s' q) : HeapInv s' live ∧ ∀ b ∈ live, b.Keeps s s' := by
  have hkeeps : ∀ b ∈ live, b.Keeps s (s.withPmm s'.pmm) := by
    intro b hb
    have hheld := h.held b hb
    refine ⟨fun _ _ => rfl, fun i hi => ?_, hheld.not_table, hheld.range.noLarge, fun _ _ _ _ => rfl⟩
    show s'.pmm.bitmap.test _ = true
    rw [htake.takes.test_eq, hheld.used i hi, Bool.true_or]
  have h₁ : HeapInv (s.withPmm s'.pmm) live := h.keeps hkeeps h.tree
    (fun k hk => h.fresh k (htake.takes.free_iff.mp hk).1)
    (fun k hk => h.window k (htake.takes.free_iff.mp hk).1)
  have hstores : Stores (s.withPmm s'.pmm) s' {q} :=
    ⟨by rw [htake.only]; rfl, fun a ha => htake.mem_eq a ha⟩
  obtain ⟨h₂, hkeeps₂⟩ := h₁.stores hstores
    (fun k hk => by rw [Set.mem_singleton_iff.mp hk]; exact h.fresh q htake.free)
    (fun b hb i hi hframe => by
      have hused := (h.held b hb).used i hi
      have hfree := htake.free.unmarked
      have hq : frameOf s (b.page i) = q := Set.mem_singleton_iff.mp hframe
      rw [hq, hfree] at hused
      cases hused)
  exact ⟨h₂, fun b hb => (hkeeps b hb).trans (hkeeps₂ b hb)⟩

/-- Where addresses are mapped to does not change. -/
theorem TakesFrame.getPhysical_eq {s s' : State} {q : Nat} (htake : TakesFrame s s' q)
    (hfresh : s.FreshFrames) (va : Nat) : vmmGetPhysical va s' = vmmGetPhysical va s := by
  have hstores : Stores (s.withPmm s'.pmm) s' {q} :=
    ⟨by rw [htake.only]; rfl, fun a ha => htake.mem_eq a ha⟩
  refine (hstores.getPhysical_eq (fun k hk => ?_) va).trans rfl
  rw [Set.mem_singleton_iff.mp hk]
  exact hfresh q htake.free

/-- The state after `cr3[i] = bsp_pml4[i]`. -/
def State.copied (s : State) (cr3 i : Nat) : State :=
  { s with mem := s.mem.setQword (cr3 + 8 * i) (entry s.mem s.bspTable i) }

@[simp] theorem run_copyEntry (cr3 i : Nat) (s : State) :
    copyEntry cr3 i s = .ok ((), s.copied cr3 i) := rfl

theorem copied_outside {s : State} {cr3 i a : Nat} (halign : cr3 % 4096 = 0) (hi : i < 512)
    (ha : a / 4096 ≠ cr3 / 4096) : (s.copied cr3 i).mem a = s.mem a :=
  Mem.setQword_outside (by omega)

/-- The state after the entries of the kernel are copied. -/
def State.kernelRoot (s : State) (cr3 : Nat) : State :=
  ((s.copied cr3 256).copied cr3 257).copied cr3 258

/-- With a page, `create_process` gets a root. -/
theorem newPml4_returns {s s₁ : State} {cr3 : Nat} (halloc : pmmAllocPage s = .ok (cr3, s₁))
    (hne : cr3 ≠ 0) : newPml4 s = .ok (cr3, s₁.kernelRoot cr3) := by
  rw [newPml4, Prog.bind_ok halloc, if_neg hne, Prog.bind_ok (run_copyEntry _ _ _),
    Prog.bind_ok (run_copyEntry _ _ _), Prog.bind_ok (run_copyEntry _ _ _), Prog.run_pure]
  rfl

/-- What `create_process` does for the root of a process, when there is a page. -/
theorem newPml4_ok {s s' : State} {cr3 : Nat} (hrun : newPml4 s = .ok (cr3, s')) (hne : cr3 ≠ 0) :
    ∃ s₁, pmmAllocPage s = .ok (cr3, s₁) ∧ s' = s₁.kernelRoot cr3 := by
  have hrun' := hrun
  rw [newPml4] at hrun
  obtain ⟨page, s₁, halloc, hrest⟩ := Prog.bind_eq_ok.mp hrun
  by_cases hz : page = 0
  · rw [if_pos hz] at hrest
    exact absurd (Prod.mk.inj (Except.ok.inj hrest)).1.symm hne
  · rw [newPml4_returns halloc hz] at hrun'
    obtain ⟨rfl, rfl⟩ := Prod.mk.inj (Except.ok.inj hrun')
    exact ⟨s₁, halloc, rfl⟩

/-- The root is a page of its own. -/
theorem newPml4_takes {s s' : State} {cr3 : Nat} (hrun : newPml4 s = .ok (cr3, s'))
    (hne : cr3 ≠ 0) : TakesFrame s s' (cr3 / 4096) := by
  obtain ⟨s₁, halloc, rfl⟩ := newPml4_ok hrun hne
  obtain ⟨-, halign, -, hfree, rfl⟩ := pmmAllocPage_ok halloc hne
  refine ⟨hfree, rfl, takes_markPageUsed hfree, fun a ha => ?_⟩
  rw [State.kernelRoot, copied_outside halign (by decide) ha, copied_outside halign (by decide) ha,
    copied_outside halign (by decide) ha]
  rfl

/-! ## Returning -/

/-- A page taken leaves the heap ready. -/
theorem Ready.takesFrame {s s' : State} {live : List Block} {k more room room' q : Nat}
    (h : Ready s live k more room) (htake : TakesFrame s s' q) (hm : s'.mutexes = s.mutexes)
    (hroom : s'.pmm.Room room') : Ready s' live k more room' :=
  ⟨(h.inv.takesFrame htake).1, (congrFun hm _).trans h.heap_free, (congrFun hm _).trans h.vmm_free,
    (congrFun hm _).trans h.pmm_free, hroom,
    ⟨fun i hi => by
      rw [htake.getPhysical_eq h.inv.fresh]
      exact h.packed.mapped i hi,
    fun i hi => by
      rw [htake.getPhysical_eq h.inv.fresh]
      exact h.packed.absent i hi⟩, h.bound⟩

/-- The mutex of the scheduler plays no part. -/
theorem Ready.resched {s : State} {live : List Block} {k more room : Nat}
    (h : Ready s live k more room) (held : Bool) :
    Ready { s with mutexes := Function.update s.mutexes .sched_mutex held } live k more room :=
  ⟨h.inv.relock _, h.heap_free, h.vmm_free, h.pmm_free, h.room,
    ⟨h.packed.mapped, h.packed.absent⟩, h.bound⟩

/-- With room for the stack, it is there. -/
theorem createStack_returns {s : System} {live : List Block} {k more room : Nat}
    (h : Ready s.kernel live k (33 + more) (132 + room)) (pid : Nat) :
    ∃ s' live' k', createStack pid s = .ok (true, s') ∧ Ready s'.kernel live' k' more room := by
  rw [createStack, Prog.bind_ok (Prog.run_get _)]
  by_cases hfirst : s.sched.running_processes = 0
  · obtain ⟨k', hstack, -, hready⟩ := kmalloc_returns (n := THREAD_STACK) h
    rw [if_pos hfirst, Prog.bind_ok (onKernel_eq_ok.mpr ⟨k', hstack, rfl⟩),
      Prog.bind_ok (run_onSched _ _), if_neg (heapPtr_ne _), Prog.bind_ok (run_onSched _ _),
      Prog.bind_ok (run_onSched _ _), Prog.bind_ok (run_onSched _ _)]
    exact ⟨_, _, _, rfl, hready⟩
  · rw [if_neg hfirst]
    exact ⟨_, _, _, rfl, h.mono (Nat.le_add_left _ _) (Nat.le_add_left _ _)⟩

/-- With room for them, `create_process` returns a process, and what room is left stays. -/
theorem createProcess_returns {s : System} {live : List Block} {k more room pid : Nat}
    (h : Ready s.kernel live k (35 + more) (141 + room))
    (hsched : s.kernel.mutexes .sched_mutex = false) (hfind : findProcess s.sched = some pid)
    (entry : Nat) : ∃ s' live' k', createProcess entry s = .ok (some pid, s') ∧
      Ready s'.kernel live' k' more room := by
  have h₀ : Ready { s.kernel with mutexes := Function.update s.kernel.mutexes .sched_mutex true }
      live k (35 + more) (141 + room) := h.resched true
  obtain ⟨cr3, hcr3, halloc⟩ :=
    pmmAllocPage_returns h₀.pmm_free h₀.room.scannable (h₀.room.supply.mono (by omega))
  obtain ⟨-, -, -, hfree, -⟩ := pmmAllocPage_ok halloc hcr3
  have hroot := newPml4_returns halloc hcr3
  have htake := newPml4_takes hroot hcr3
  have hroom : (s.kernel.withPmm _).pmm.Room (140 + room) := htake.takes.room (h₀.room.mono (by
    rw [Finset.card_singleton]
    omega))
  have h₁ := h₀.takesFrame htake rfl hroom
  have hone : (u64 (SIZEOF_POINTER * MAX_THREADS) + 16 + 4095) / 4096 = 1 := by decide
  have hone' : (u64 (SIZEOF_THREAD * 1) + 16 + 4095) / 4096 = 1 := by decide
  -- one page for the root, and two blocks of one page each with up to three tables
  obtain ⟨k₂, htable, -, h₂⟩ := h₁.grants (u64 (SIZEOF_POINTER * MAX_THREADS)) (34 + more)
    (136 + room) (by omega) (by omega)
  obtain ⟨k₃, hcalloc, -, h₃⟩ := h₂.grants (u64 (SIZEOF_THREAD * 1)) (33 + more) (132 + room)
    (by omega) (by omega)
  rw [createProcess, Prog.bind_ok (onKernel_eq_ok.mpr ⟨_, acquire_free hsched, rfl⟩),
    Prog.bind_ok (Prog.run_get _)]
  simp only [hfind]
  rw [Prog.bind_ok (onKernel_eq_ok.mpr ⟨_, hroot, rfl⟩), Prog.bind_ok (run_onSched _ _),
    if_neg hcr3, Prog.bind_ok (run_onSched _ _), kcalloc,
    Prog.bind_ok (onKernel_eq_ok.mpr ⟨_, htable, rfl⟩), Prog.bind_ok (run_onSched _ _),
    if_neg (heapPtr_ne _), kcalloc, Prog.bind_ok (onKernel_eq_ok.mpr ⟨_, hcalloc, rfl⟩),
    Prog.bind_ok (run_onSched _ _), if_neg (heapPtr_ne _), Prog.bind_ok (run_onSched _ _),
    Prog.bind_ok (run_onSched _ _)]
  obtain ⟨s', live', k', hstack, hready⟩ :=
    createStack_returns (s := ⟨k₃, _⟩) (h₃.mono (le_refl _) (le_refl _)) pid
  rw [Prog.bind_ok hstack]
  exact ⟨_, _, _, rfl, hready.resched false⟩

/-- With room for its block and its stack, `create_thread` returns while the first process runs. -/
theorem createThread_returns {s : System} {live : List Block} {k more room tid : Nat}
    (h : Ready s.kernel live k (34 + more) (136 + room))
    (hsched : s.kernel.mutexes .sched_mutex = false) (hfind : findThread s.sched = some tid)
    (hpid : s.sched.cpu.pid = 0) (entry : Nat) :
    ∃ s', createThread entry s = .ok (some 0, s') := by
  have h₀ : Ready { s.kernel with mutexes := Function.update s.kernel.mutexes .sched_mutex true }
      live k (34 + more) (136 + room) := h.resched true
  have hpages : (u64 (SIZEOF_THREAD * 1) + 16 + 4095) / 4096 = 1 := by decide
  have hstack : (THREAD_STACK + 16 + 4095) / 4096 = 33 := by decide
  obtain ⟨k₁, hthread, -, h₁⟩ := h₀.grants (u64 (SIZEOF_THREAD * 1)) (33 + more) (132 + room)
    (by omega) (by omega)
  obtain ⟨k₂, hrsp, -⟩ := h₁.grants THREAD_STACK more room (by omega) (by omega)
  rw [createThread, Prog.bind_ok (onKernel_eq_ok.mpr ⟨_, acquire_free hsched, rfl⟩),
    Prog.bind_ok (Prog.run_get _)]
  simp only [hfind]
  rw [kcalloc, Prog.bind_ok (onKernel_eq_ok.mpr ⟨_, hthread, rfl⟩), Prog.bind_ok (run_onSched _ _),
    if_neg (heapPtr_ne _), if_pos hpid, Prog.bind_ok (run_onSched _ _),
    Prog.bind_ok (run_onSched _ _), Prog.bind_ok (onKernel_eq_ok.mpr ⟨_, hrsp, rfl⟩),
    Prog.bind_ok (run_onSched _ _), if_neg (heapPtr_ne _)]
  exact ⟨_, rfl⟩

end Windozz.Kernel

import Windozz.Kernel.Sched
import Windozz.Kernel.Undo

set_option autoImplicit false

/-! # Runs of creations

Processes and threads are created one after the other, from whatever process is the current one,
while other code of the kernel takes and gives back blocks of its own and threads run (`Rest`).
`Rules` say which calls a run may make.

`create_thread` looks for a slot in the table of the first process (`findThread`) and fills the slot
of that number in the table of the current one. `createThread_installs_iff` says when that is what
it should do, and `createThread_undone_iff` when a call that fails leaves no trace.
`createProcess_undone` says the latter of `create_process`, of which it is always true.
-/

namespace Windozz.Kernel

open Relation

/-! ## Runs -/

/-- Other code of the kernel runs. The heap stays in order, and the tables of the scheduler and the
blocks they lie in stay; who is the current thread and what the threads hold may change. -/
structure Rest (t t' : Tracked) : Prop where
  heap : HeapInv t'.kernel t'.live
  unlocked : t'.kernel.mutexes .sched_mutex = false
  own_eq : t'.own = t.own
  running_eq : t'.sched.running_processes = t.sched.running_processes
  valid_eq : ∀ i, (t'.sched.processes i).valid = (t.sched.processes i).valid
  count_eq : ∀ i, (t'.sched.processes i).thread_count = (t.sched.processes i).thread_count
  ptr_eq : ∀ i j, ((t'.sched.processes i).slots j).ptr = ((t.sched.processes i).slots j).ptr

/-- The current process. -/
def Tracked.current (t : Tracked) : Nat := t.sched.cpu.pid

/-- What a run may do: which calls it makes, with which results, and what else happens. -/
structure Rules where
  process : Tracked → Option Nat → Prop
  thread : Tracked → Option Nat → Prop
  rest : Tracked → Tracked → Prop

/-- Runs without restrictions. -/
def anyCalls : Rules := ⟨fun _ _ => True, fun _ _ => True, Rest⟩

/-- A step of a run. `create_thread` is called by a process. -/
inductive ThreadStep (R : Rules) : Tracked → Tracked → Prop where
  | process {t t' : Tracked} {entry : Nat} {r : Option Nat}
      (hrun : Tracked.createProcess entry t = .ok (r, t')) (hmay : R.process t r) :
      ThreadStep R t t'
  | thread {t t' : Tracked} {entry : Nat} {r : Option Nat}
      (hcurrent : (t.sched.processes t.current).valid = true)
      (hrun : Tracked.createThread entry t = .ok (r, t')) (hmay : R.thread t r) :
      ThreadStep R t t'
  | rest {t t' : Tracked} (h : R.rest t t') : ThreadStep R t t'

/-- The heap is in order and `sched_mutex` is free. -/
structure InOrder (t : Tracked) : Prop where
  heap : HeapInv t.kernel t.live
  unlocked : t.kernel.mutexes .sched_mutex = false

/-- Before `sched_init`: the tables are filled with zeros. -/
structure Untouched (t : Tracked) : Prop where
  order : InOrder t
  sched_eq : t.sched = .zero
  own_eq : t.own = []

theorem HeapKept.inOrder {t t' : Tracked} (h : HeapKept t t') : InOrder t' := ⟨h.inv, h.unlocked⟩

/-- Every step keeps the heap in order. -/
theorem InOrder.step {R : Rules} (hrest : ∀ t t', R.rest t t' → Rest t t') {t t' : Tracked}
    (h : InOrder t) (hstep : ThreadStep R t t') : InOrder t' := by
  cases hstep with
  | process hrun => exact ((Tracked.createProcess_cases hrun).heapKept h.heap).inOrder
  | thread hcurrent hrun => exact ((Tracked.createThread_cases hrun).heapKept h.heap).inOrder
  | rest hother =>
      have hother := hrest _ _ hother
      exact ⟨hother.heap, hother.unlocked⟩

/-- So does every run. -/
theorem InOrder.run {R : Rules} (hrest : ∀ t t', R.rest t t' → Rest t t') {t₀ t : Tracked}
    (h : InOrder t₀) (hrun : ReflTransGen (ThreadStep R) t₀ t) : InOrder t := by
  induction hrun with
  | refl => exact h
  | tail _ hstep ih => exact ih.step hrest hstep

/-! ## Processes that are not created -/

/-- What a call of `create_process` that fails should leave: the processes, the live blocks and,
page tables apart, the pages marked used are as they were. -/
structure ProcessUndone (t t' : Tracked) : Prop where
  running_eq : t'.sched.running_processes = t.sched.running_processes
  valid_eq : ∀ i, (t'.sched.processes i).valid = (t.sched.processes i).valid
  process_eq : ∀ i, (t.sched.processes i).valid = true → t'.sched.processes i = t.sched.processes i
  own_eq : t'.own = t.own
  others_eq : t'.others = t.others
  heap : Undone t.kernel t'.kernel t.live

/-- An entry that is not valid was written to. -/
theorem setProcess_invalid {s : Sched} {pid : Nat} {f : Process → Process}
    (hfind : findProcess s = some pid) (hf : ∀ p, (f p).valid = p.valid) (i : Nat) :
    ((s.setProcess pid f).processes i).valid = (s.processes i).valid ∧
      ((s.processes i).valid = true → (s.setProcess pid f).processes i = s.processes i) := by
  by_cases hi : i = pid
  · subst hi
    have hinvalid := (findProcess_some hfind).2
    refine ⟨?_, fun hvalid => ?_⟩
    · simp [Sched.setProcess, hf]
    · rw [hinvalid] at hvalid
      cases hvalid
  · have hsame : (s.setProcess pid f).processes i = s.processes i := Function.update_of_ne hi _ _
    rw [hsame]
    exact ⟨rfl, fun _ => rfl⟩

/-- What a call that fails does to the tables. -/
theorem ProcessCall.sched_undone {t t' : Tracked} {entry : Nat}
    (hcall : ProcessCall entry t none t') :
    t'.sched.running_processes = t.sched.running_processes ∧ t'.sched.cpu = t.sched.cpu ∧
      ∀ i, (t'.sched.processes i).valid = (t.sched.processes i).valid ∧
        ((t.sched.processes i).valid = true → t'.sched.processes i = t.sched.processes i) := by
  cases hcall with
  | full hfind => exact ⟨rfl, rfl, fun i => ⟨rfl, fun _ => rfl⟩⟩
  | noRoot hfind hf => exact ⟨rfl, rfl, setProcess_invalid hfind hf⟩
  | noTable hfind hf => exact ⟨rfl, rfl, setProcess_invalid hfind hf⟩
  | noThread hfind hf => exact ⟨rfl, rfl, setProcess_invalid hfind hf⟩
  | noStack hfind hf => exact ⟨rfl, rfl, setProcess_invalid hfind hf⟩

/-- **A process that is not created.** In every state that a run reaches, a call of `create_process`
that returns `-1` leaves no trace but page tables. -/
theorem createProcess_undone {t₀ t t' : Tracked} (hstart : Untouched t₀)
    (hreach : ReflTransGen (ThreadStep anyCalls) t₀ t) {entry : Nat}
    (hrun : Tracked.createProcess entry t = .ok (none, t')) : ProcessUndone t t' := by
  have horder := hstart.order.run (fun _ _ h => h) hreach
  have hcall := Tracked.createProcess_cases hrun
  obtain ⟨hkept, hown, hundone⟩ := hcall.undone horder.heap
  obtain ⟨hrunning, -, hprocess⟩ := hcall.sched_undone
  exact ⟨hrunning, fun i => (hprocess i).1, fun i => (hprocess i).2, hown, hkept.others_eq, hundone⟩

/-! ### A call that fails -/

/-- A machine with one free page. -/
def Tracked.onePage : Tracked := ⟨⟨State.boot.withPmm (.clean 0x802000), .zero⟩, [], [], []⟩

theorem untouched_onePage : Untouched .onePage := by
  have hfree : ∀ q, (Pmm.clean 0x802000).Free q → q < 2 ^ 27 := by
    intro q hq
    have hbelow : q * 4096 < 0x802000 := hq.below
    omega
  exact ⟨⟨⟨pageTree_empty rfl, freshFrames_empty rfl (test_clean _ _), hfree, nofun, .nil⟩, rfl⟩,
    rfl, rfl⟩

/-- The call that finds no block for the table of threads. -/
theorem createProcess_noTable {s : System} {k₁ k₂ k₃ : State} {pid cr3 : Nat} (entry : Nat)
    (hfree : s.kernel.mutexes .sched_mutex = false) (hfind : findProcess s.sched = some pid)
    (hroot : newPml4 (s.kernel.lock .sched_mutex) = .ok (cr3, k₁)) (hcr3 : cr3 ≠ 0)
    (htable : kcalloc SIZEOF_POINTER MAX_THREADS k₁ = .ok (0, k₂))
    (hpage : pmmFreePage cr3 k₂ = .ok ((), k₃)) :
    ∃ s', createProcess entry s = .ok (none, s') := by
  rw [createProcess, Prog.bind_ok (onKernel_eq_ok.mpr ⟨_, acquire_free hfree, rfl⟩),
    Prog.bind_ok (Prog.run_get _)]
  simp only [hfind]
  rw [Prog.bind_ok (onKernel_eq_ok.mpr ⟨_, hroot, rfl⟩), Prog.bind_ok (run_onSched _ _),
    if_neg hcr3, Prog.bind_ok (run_onSched _ _),
    Prog.bind_ok (onKernel_eq_ok.mpr ⟨_, htable, rfl⟩), Prog.bind_ok (run_onSched _ _), if_pos rfl,
    Prog.bind_ok (onKernel_eq_ok.mpr ⟨_, hpage, rfl⟩)]
  exact ⟨_, rfl⟩

/-- The counters when the page is taken. -/
theorem spare_onePage {page : Nat} (hfree : (Pmm.clean 0x802000).bitmap.test (page / 4096) = false) :
    (pmmMarkPageUsed page (.clean 0x802000)).spare = 1 := by
  rw [Pmm.spare, pmmMarkPageUsed, hfree]
  show u64 (0x802 + (2 ^ 64 - u64 (u64 (2048 + 1)))) = 1
  decide

/-- There the page is taken for the root, and given back when there is none for the table. -/
theorem createProcess_onePage : ∃ t', Tracked.createProcess 0 .onePage = .ok (none, t') := by
  obtain ⟨cr3, hcr3, halloc⟩ := pmmAllocPage_returns (s := Tracked.onePage.locked) rfl
    (scannable_clean (by decide)) (supply_clean (by decide))
  obtain ⟨-, -, -, hfree, -⟩ := pmmAllocPage_ok halloc hcr3
  have hroot := newPml4_returns halloc hcr3
  have htable := kmalloc_spare (s := (Tracked.onePage.locked.withPmm
    (pmmMarkPageUsed cr3 (.clean 0x802000))).kernelRoot cr3) (n := SIZEOF_POINTER * MAX_THREADS)
    rfl (spare_onePage hfree.unmarked).le
  rw [← kcalloc_table] at htable
  obtain ⟨s', hrun⟩ := createProcess_noTable (s := Tracked.onePage.system) 0 rfl
    findProcess_zero hroot hcr3 htable (pmmFreePage_run rfl cr3)
  obtain ⟨t', ht', -⟩ := (Tracks.createProcess 0).ok hrun
  exact ⟨t', ht'⟩

/-- Nothing is left of that call. -/
theorem createProcess_undone_onePage : ∃ t', Tracked.createProcess 0 .onePage = .ok (none, t') ∧
    ProcessUndone .onePage t' := by
  obtain ⟨t', hrun⟩ := createProcess_onePage
  exact ⟨t', hrun, createProcess_undone untouched_onePage .refl hrun⟩

/-! ## Runs with enough memory -/

/-- The heap can grow by `more` pages, and there is room for `room` frames. -/
def Tracked.HasRoom (t : Tracked) (more room : Nat) : Prop :=
  ∃ live k, Ready t.kernel live k more room

/-- What a call that succeeds does to the tables. -/
theorem ProcessCall.sched_eq {t t' : Tracked} {entry pid : Nat}
    (hcall : ProcessCall entry t (some pid) t') : ∃ cr3 threads thread context, thread ≠ 0 ∧
      t'.sched = t.sched.addProcess pid (.fresh cr3 threads thread context) := by
  cases hcall with
  | first hfind hroot hcr3 htable htne hthread hne => exact ⟨_, _, _, _, hne, rfl⟩
  | later hfind hroot hcr3 htable htne hthread hne => exact ⟨_, _, _, _, hne, rfl⟩

/-- With enough memory there is a new process. -/
theorem createProcess_grows {t : Tracked} {more room pid : Nat} (horder : InOrder t)
    (hroom : t.HasRoom (35 + more) (141 + room)) (hfind : findProcess t.sched = some pid)
    (entry : Nat) : ∃ t', Tracked.createProcess entry t = .ok (some pid, t') ∧
      ProcessCall entry t (some pid) t' ∧ InOrder t' ∧ t'.HasRoom more room := by
  obtain ⟨live, k, hready⟩ := hroom
  obtain ⟨s', live', k', hrun, hready'⟩ := createProcess_returns hready horder.unlocked hfind entry
  obtain ⟨t', hrun', rfl⟩ := (Tracks.createProcess entry).ok hrun
  have hcall := Tracked.createProcess_cases hrun'
  exact ⟨t', hrun', hcall, (hcall.heapKept horder.heap).inOrder, live', k', hready'⟩

/-- Before `sched_init` on a machine with `n` pages. -/
theorem untouched_flat {n room : Nat} (hn : 4870 + room ≤ n) (hfits : n < 2 ^ 27) :
    ∃ t₀, mmInit (flatMap n) .start = .ok ((), t₀.kernel) ∧ Untouched t₀ ∧
      t₀.HasRoom (2 ^ 20 - 705) room := by
  obtain ⟨s, hinit, hstarted⟩ := mmInit_flat hn hfits
  exact ⟨⟨⟨s, .zero⟩, [], [mmioBlock s], []⟩, hinit,
    ⟨⟨hstarted.ready.inv, hstarted.free _⟩, rfl, rfl⟩, _, _, hstarted.ready⟩

/-- The first process. -/
theorem firstProcess_grows (more room entry : Nat) {n : Nat} (hmore : 35 + more ≤ 2 ^ 20 - 705)
    (hn : 4870 + (141 + room) ≤ n) (hfits : n < 2 ^ 27) :
    ∃ t₀ t, mmInit (flatMap n) .start = .ok ((), t₀.kernel) ∧ Untouched t₀ ∧
      Tracked.createProcess entry t₀ = .ok (some 0, t) ∧ ProcessCall entry t₀ (some 0) t ∧
      InOrder t ∧ t.HasRoom more room := by
  obtain ⟨t₀, hinit, hstart, live, k, hready⟩ := untouched_flat hn hfits
  have hfind : findProcess t₀.sched = some 0 := by
    rw [hstart.sched_eq]
    exact findProcess_zero
  obtain ⟨t, hrun, hcall, horder, hroom⟩ := createProcess_grows hstart.order
    ⟨live, k, hready.mono hmore (le_refl _)⟩ hfind entry
  exact ⟨t₀, t, hinit, hstart, hrun, hcall, horder, hroom⟩

end Windozz.Kernel

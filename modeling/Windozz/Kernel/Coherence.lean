import Windozz.Kernel.RoundRobin
import Windozz.Kernel.SharedHeap

set_option autoImplicit false

/-! # The processes share the kernel

Processes and threads are created, other code takes and gives back blocks and stores to them, and the
scheduler goes on with one process after the other, in any order. Each of these runs under the root of
the process that the scheduler went on with last, and `create_process` gives back a root where it
fails. All the same every valid process has the kernel mapped in the same way
(`addressSpaces_agree`), as long as the pages asked for in the run fit into the slot of the heap.

Device memory is not mapped in these runs: the first page of slot 257 adds an entry to the root that
is loaded, and to no other.
-/

namespace Windozz.Kernel

open Prog Relation

/-! ## What the functions allocate -/

theorem table_pages : (SIZEOF_POINTER * MAX_THREADS + 16 + 4095) / 4096 = 1 := by decide

theorem thread_pages : ( SIZEOF_THREAD + 16 + 4095) / 4096 = 1 := by decide

theorem stack_pages : ( THREAD_STACK + 16 + 4095) / 4096 = 33 := by decide

namespace Coherent

variable {base r : Nat} {k k' : State} {live : List Block} {roots : List Nat} {m ptr : Nat}

theorem table (h : Coherent base r k live roots m) (hle : 1 ≤ m)
    (hrun : Kernel.kcalloc SIZEOF_POINTER MAX_THREADS k = .ok (ptr, k')) :
    Coherent base r k' (if ptr = 0 then live else tableBlock ptr :: live) roots (m - 1) := by
  rw [kcalloc_table] at hrun
  have hnext := h.kmalloc table_fits (by rw [table_pages]; exact hle) hrun
  rw [table_pages] at hnext
  exact hnext

theorem thread (h : Coherent base r k live roots m) (hle : 1 ≤ m)
    (hrun : Kernel.kcalloc SIZEOF_THREAD 1 k = .ok (ptr, k')) :
    Coherent base r k' (if ptr = 0 then live else threadBlock ptr :: live) roots (m - 1) := by
  rw [kcalloc_thread] at hrun
  have hnext := h.kmalloc thread_fits (by rw [thread_pages]; exact hle) hrun
  rw [thread_pages] at hnext
  exact hnext

theorem stack (h : Coherent base r k live roots m) (hle : 33 ≤ m)
    (hrun : Kernel.kmalloc THREAD_STACK k = .ok (ptr, k')) :
    Coherent base r k' (if ptr = 0 then live else stackBlock ptr :: live) roots (m - 33) := by
  have hnext := h.kmalloc stack_fits (by rw [stack_pages]; exact hle) hrun
  rw [stack_pages] at hnext
  exact hnext

/-- A new root and the table of its threads. -/
theorem rootTable (h : Coherent base r k live roots m) (hle : 1 ≤ m) {cr3 threads : Nat}
    {k₁ k₂ : State} (hroot : Kernel.newPml4 k = .ok (cr3, k₁)) (hcr3 : cr3 ≠ 0)
    (htable : Kernel.kcalloc SIZEOF_POINTER MAX_THREADS k₁ = .ok (threads, k₂)) (hne : threads ≠ 0) :
    Coherent base r k₂ (tableBlock threads :: live) (cr3 :: roots) (m - 1) := by
  have hnew := h.newPml4 hroot
  rw [if_neg hcr3] at hnew
  have hnext := hnew.table hle htable
  rw [if_neg hne] at hnext
  exact hnext

/-- A new root, the table of its threads and the first thread. -/
theorem rootThread (h : Coherent base r k live roots m) (hle : 2 ≤ m) {cr3 threads thread : Nat}
    {k₁ k₂ k₃ : State} (hroot : Kernel.newPml4 k = .ok (cr3, k₁)) (hcr3 : cr3 ≠ 0)
    (htable : Kernel.kcalloc SIZEOF_POINTER MAX_THREADS k₁ = .ok (threads, k₂)) (htne : threads ≠ 0)
    (hthread : Kernel.kcalloc SIZEOF_THREAD 1 k₂ = .ok (thread, k₃)) (hne : thread ≠ 0) :
    Coherent base r k₃ (threadBlock thread :: tableBlock threads :: live) (cr3 :: roots)
      (m - 1 - 1) := by
  have hnext := (h.rootTable (by omega) hroot hcr3 htable htne).thread (by omega) hthread
  rw [if_neg hne] at hnext
  exact hnext

/-- The block that was allocated last is freed. -/
theorem freeHead {own others : List Block} {b : Block}
    (h : Coherent base r k (b :: own ++ others) roots m)
    (hrun : Kernel.kfree b.ptr k = .ok ((), k')) :
    Coherent base r k' (without b.ptr (b :: own) ++ others) roots m := by
  rw [without_head h.agree.heap]
  have hhead : Coherent base r k ([] ++ b :: (own ++ others)) roots m := h
  exact hhead.kfree hrun

end Coherent

/-! ## Creating processes and threads -/

namespace Sched

variable (s : Sched) (pid tid : Nat)

theorem setSlot_cr3 (slot : Slot) (i : Nat) :
    ((s.setSlot pid tid fun _ => slot).processes i).cr3 = (s.processes i).cr3 := by
  by_cases hi : i = pid
  · subst hi
    simp [setSlot, setProcess]
  · simp [setSlot, setProcess, hi]

theorem addThread_cr3 (thread : Nat) (context : Context) (i : Nat) :
    ((s.addThread pid tid thread context).processes i).cr3 = (s.processes i).cr3 := by
  by_cases hi : i = pid
  · subst hi
    simp [addThread, setSlot, setProcess]
  · simp [addThread, setSlot, setProcess, hi]

end Sched

section Calls

variable {base r : Nat} {t t' : Tracked} {roots : List Nat} {m entry : Nat} {res : Option Nat}

/-- `create_thread` leaves the processes and their roots. -/
theorem ThreadCall.processes_eq (hcall : ThreadCall entry t res t') (i : Nat) :
    (t'.sched.processes i).valid = (t.sched.processes i).valid ∧
      (t'.sched.processes i).cr3 = (t.sched.processes i).cr3 := by
  cases hcall with
  | full => exact ⟨rfl, rfl⟩
  | refused => exact ⟨Sched.setSlot_valid .., Sched.setSlot_cr3 ..⟩
  | noStack => exact ⟨Sched.setSlot_valid .., Sched.setSlot_cr3 ..⟩
  | kernel => exact ⟨Sched.addThread_valid .., Sched.addThread_cr3 ..⟩
  | user => exact ⟨Sched.addThread_valid .., Sched.addThread_cr3 ..⟩

/-- A process that is valid after `create_process` is the new one, or was valid with that root. -/
theorem ProcessCall.processes_eq (hcall : ProcessCall entry t res t') {i : Nat}
    (hi : (t'.sched.processes i).valid = true) :
    res = some i ∨ (t.sched.processes i).valid = true ∧
      (t'.sched.processes i).cr3 = (t.sched.processes i).cr3 := by
  have hinvalid : ∀ {pid : Nat} {f : Process → Process}, findProcess t.sched = some pid →
      (∀ p, (f p).valid = p.valid) → t'.sched = t.sched.setProcess pid f →
      (t.sched.processes i).valid = true ∧
        (t'.sched.processes i).cr3 = (t.sched.processes i).cr3 := by
    intro pid f hfind hf hsched
    obtain ⟨hvalid, hsame⟩ := setProcess_invalid hfind hf i
    rw [hsched, hvalid] at hi
    rw [hsched, hsame hi]
    exact ⟨hi, rfl⟩
  have hadded : ∀ {pid : Nat} {p : Process}, t'.sched = t.sched.addProcess pid p →
      some pid = some i ∨ (t.sched.processes i).valid = true ∧
        (t'.sched.processes i).cr3 = (t.sched.processes i).cr3 := by
    intro pid p hsched
    by_cases hpid : i = pid
    · exact Or.inl (congrArg some hpid.symm)
    · rw [hsched, Sched.addProcess_ne _ _ _ hpid] at hi
      rw [hsched, Sched.addProcess_ne _ _ _ hpid]
      exact Or.inr ⟨hi, rfl⟩
  cases hcall with
  | full => exact Or.inr ⟨hi, rfl⟩
  | noRoot hfind hf => exact Or.inr (hinvalid hfind hf rfl)
  | noTable hfind hf => exact Or.inr (hinvalid hfind hf rfl)
  | noThread hfind hf => exact Or.inr (hinvalid hfind hf rfl)
  | noStack hfind hf => exact Or.inr (hinvalid hfind hf rfl)
  | first => exact hadded rfl
  | later => exact hadded rfl

/-- A process that is created is valid. -/
theorem ProcessCall.valid {pid : Nat} (hcall : ProcessCall entry t (some pid) t') :
    (t'.sched.processes pid).valid = true := by
  cases hcall with
  | first => exact congrArg Process.valid (Sched.addProcess_self ..)
  | later => exact congrArg Process.valid (Sched.addProcess_self ..)

/-- **`create_thread`** takes at most 34 pages. -/
theorem ThreadCall.coherent (hcall : ThreadCall entry t res t')
    (h : Coherent base r t.kernel t.live roots m) (hle : 34 ≤ m) :
    Coherent base r t'.kernel t'.live roots (m - 34) := by
  have hlocked : Coherent base r t.locked t.live roots m := h.relock _
  cases hcall with
  | full => exact (hlocked.relock _).mono (by omega)
  | refused hfind hthread =>
      have h₁ := hlocked.thread (by omega) hthread
      rw [if_pos rfl] at h₁
      exact (h₁.relock _).mono (by omega)
  | noStack hfind hthread hne hpid hstack hfree =>
      have h₁ := hlocked.thread (by omega) hthread
      rw [if_neg hne] at h₁
      have h₂ := h₁.stack (by omega) hstack
      rw [if_pos rfl] at h₂
      exact ((h₂.freeHead hfree).relock _).mono (by omega)
  | kernel hfind hthread hne hpid hstack hsne =>
      have h₁ := hlocked.thread (by omega) hthread
      rw [if_neg hne] at h₁
      have h₂ := h₁.stack (by omega) hstack
      rw [if_neg hsne] at h₂
      exact (h₂.relock _).mono (by omega)
  | user hfind hthread hne hpid =>
      have h₁ := hlocked.thread (by omega) hthread
      rw [if_neg hne] at h₁
      exact (h₁.relock _).mono (by omega)

/-- **`create_process`** takes at most 35 pages, and the root of the new process agrees. -/
theorem ProcessCall.coherent (hcall : ProcessCall entry t res t')
    (h : Coherent base r t.kernel t.live roots m) (hle : 35 ≤ m) :
    ∃ roots', Coherent base r t'.kernel t'.live roots' (m - 35) ∧ (∀ x ∈ roots, x ∈ roots') ∧
      ∀ pid, res = some pid → (t'.sched.processes pid).cr3 ∈ roots' := by
  have hlocked : Coherent base r t.locked t.live roots m := h.relock _
  have hbase : base ∈ roots := h.agree.root_mem
  have hfails : ∀ pid, none = some pid → (t'.sched.processes pid).cr3 ∈ roots :=
    fun pid heq => by cases heq
  cases hcall with
  | full => exact ⟨roots, (hlocked.relock _).mono (by omega), fun _ hx => hx, hfails⟩
  | noRoot hfind hf hroot =>
      have h₁ := hlocked.newPml4 hroot
      rw [if_pos rfl] at h₁
      exact ⟨roots, (h₁.relock _).mono (by omega), fun _ hx => hx, hfails⟩
  | noTable hfind hf hroot hcr3 htable hpage =>
      have h₁ := hlocked.newPml4 hroot
      rw [if_neg hcr3] at h₁
      have h₂ := h₁.table (by omega) htable
      rw [if_pos rfl] at h₂
      have h₃ := h₂.freeRoot hbase h.mem hpage
      exact ⟨roots, (h₃.relock _).mono (by omega), fun _ hx => hx, hfails⟩
  | noThread hfind hf hroot hcr3 htable htne hthread hpage hfree =>
      have h₁ := hlocked.rootTable (by omega) hroot hcr3 htable htne
      have h₂ := h₁.thread (by omega) hthread
      rw [if_pos rfl] at h₂
      have h₃ := h₂.freeRoot hbase h.mem hpage
      exact ⟨roots, ((h₃.freeHead hfree).relock _).mono (by omega), fun _ hx => hx, hfails⟩
  | @noStack _ _ threads thread _ _ _ _ k₅ _ _ _ hfind hf hroot hcr3 htable htne hthread hne hfirst
      hstack hpage hfree hfree' =>
      have h₁ := hlocked.rootThread (by omega) hroot hcr3 htable htne hthread hne
      have h₂ := h₁.stack (by omega) hstack
      rw [if_pos rfl] at h₂
      have h₃ : Coherent base r k₅
          (threadBlock thread :: (tableBlock threads :: t.own) ++ t.others) roots _ :=
        h₂.freeRoot hbase h.mem hpage
      have hhead := without_head h₃.agree.heap
      have h₄ := h₃.freeHead hfree
      rw [hhead] at h₄
      have h₅ := h₄.freeHead hfree'
      rw [← hhead] at h₅
      exact ⟨roots, (h₅.relock _).mono (by omega), fun _ hx => hx, hfails⟩
  | @first pid cr3 _ _ _ _ _ _ _ hfind hroot hcr3 htable htne hthread hne hfirst hstack hsne =>
      have h₁ := hlocked.rootThread (by omega) hroot hcr3 htable htne hthread hne
      have h₂ := h₁.stack (by omega) hstack
      rw [if_neg hsne] at h₂
      refine ⟨cr3 :: roots, (h₂.relock _).mono (by omega), fun _ hx => List.mem_cons_of_mem _ hx,
        fun i hi => ?_⟩
      obtain rfl := Option.some.inj hi
      exact List.mem_cons.mpr (Or.inl (congrArg Process.cr3 (Sched.addProcess_self ..)))
  | @later pid cr3 _ _ _ _ _ hfind hroot hcr3 htable htne hthread hne hlater =>
      have h₁ := hlocked.rootThread (by omega) hroot hcr3 htable htne hthread hne
      refine ⟨cr3 :: roots, (h₁.relock _).mono (by omega), fun _ hx => List.mem_cons_of_mem _ hx,
        fun i hi => ?_⟩
      obtain rfl := Option.some.inj hi
      exact List.mem_cons.mpr (Or.inl (congrArg Process.cr3 (Sched.addProcess_self ..)))

end Calls

/-! ## The scheduler -/

/-- The same processes are valid, with the same roots. -/
def Sched.SameRoots (s s' : Sched) : Prop := ∀ i, (s'.processes i).valid = (s.processes i).valid ∧
  (s'.processes i).cr3 = (s.processes i).cr3

theorem Sched.SameRoots.setThread (s : Sched) (pid tid : Nat) (f : Thread → Thread) :
    s.SameRoots (s.setThread pid tid f) := by
  intro i
  by_cases hi : i = pid
  · subst hi
    simp [Sched.setThread, Sched.setSlot, Sched.setProcess]
  · simp [Sched.setThread, Sched.setSlot, Sched.setProcess, hi]

/-- The scheduler has gone on, maybe with the root of another process. -/
structure Rescheduled (s s' : System) : Prop where
  roots : s.sched.SameRoots s'.sched
  kernel : s'.kernel = s.kernel ∨
    ∃ i, (s.sched.processes i).valid = true ∧ s'.kernel = s.kernel.under (s.sched.processes i).cr3

theorem loadNext_rescheduled {s s' : System} {new : Option Context}
    (hrun : loadNext s = .ok (new, s')) : Rescheduled s s' := by
  rw [loadNext, Prog.bind_ok (run_onSched _ _)] at hrun
  cases hfound : searchIdle (s.sched.setCpu fun cpu => { cpu with sys_ready := true }) with
  | none =>
      obtain ⟨_, s₁, hfind, hrest⟩ := Prog.bind_eq_ok.mp hrun
      rw [findIdle, Prog.bind_ok (Prog.run_get _)] at hfind
      simp only [hfound] at hfind
      obtain ⟨rfl, rfl⟩ := Prod.mk.inj (Except.ok.inj hfind)
      obtain ⟨-, rfl⟩ := Prod.mk.inj (Except.ok.inj hrest)
      exact ⟨fun _ => ⟨rfl, rfl⟩, Or.inl rfl⟩
  | some x =>
      obtain ⟨i, j⟩ := x
      have hfind := findIdle_ok (s := ⟨s.kernel, s.sched.setCpu fun cpu => { cpu with
        sys_ready := true }⟩) hfound
      rw [Prog.bind_ok hfind] at hrun
      obtain ⟨-, rfl⟩ := Prod.mk.inj (Except.ok.inj hrun)
      have hidle := List.find?_some hfound
      have hvalid : (s.sched.processes i).valid = true := by
        simp only [Sched.isIdle, Bool.and_eq_true] at hidle
        exact hidle.1.1
      exact ⟨fun k => Sched.SameRoots.setThread s.sched i j (fun t => { t with
        status := .THREAD_BUSY }) k, Or.inr ⟨i, hvalid, rfl⟩⟩

/-- **`resched`** loads the root of a valid process, or leaves the root. -/
theorem resched_rescheduled {s s' : System} {old : Context} {new : Option Context}
    (hrun : resched old s = .ok (new, s')) : Rescheduled s s' := by
  rw [resched, Prog.bind_ok (Prog.run_get _)] at hrun
  by_cases hready : s.sched.cpu.sys_ready = true
  · rw [if_pos hready] at hrun
    by_cases halone : s.sched.running_processes = 1 ∧ (s.sched.processes 0).thread_count = 1
    · rw [if_pos halone] at hrun
      obtain ⟨-, rfl⟩ := Prod.mk.inj (Except.ok.inj hrun)
      exact ⟨fun _ => ⟨rfl, rfl⟩, Or.inl rfl⟩
    · rw [if_neg halone] at hrun
      obtain ⟨_, s₁, hsave, hload⟩ := Prog.bind_eq_ok.mp hrun
      by_cases hptr : ((s.sched.processes s.sched.cpu.pid).slots s.sched.cpu.tid).ptr = 0
      · rw [saveContext, Prog.bind_ok (Prog.run_get _), if_pos hptr] at hsave
        cases hsave
      · rw [saveContext_run hptr] at hsave
        obtain ⟨-, rfl⟩ := Prod.mk.inj (Except.ok.inj hsave)
        obtain ⟨hroots, hkernel⟩ := loadNext_rescheduled hload
        have hsaved : s.sched.SameRoots (s.saved old).sched := fun k =>
          Sched.SameRoots.setThread s.sched s.sched.cpu.pid s.sched.cpu.tid
            (fun _ => ⟨old, .THREAD_IDLE⟩) k
        refine ⟨fun i => ⟨(hroots i).1.trans (hsaved i).1, (hroots i).2.trans (hsaved i).2⟩,
          hkernel.imp_right ?_⟩
        rintro ⟨i, hvalid, hcr3⟩
        rw [(hsaved i).1] at hvalid
        rw [(hsaved i).2] at hcr3
        exact ⟨i, hvalid, hcr3⟩
  · rw [if_neg hready] at hrun
    exact loadNext_rescheduled hrun

/-! ## Runs -/

/-- A step of the kernel, and how many pages it may ask for: processes and threads are created, other
code takes and gives back blocks and stores to them, and `resched` goes on with a process. -/
inductive KernelStep : Tracked × Nat → Tracked × Nat → Prop where
  | process {t t' : Tracked} {n entry : Nat} {res : Option Nat}
      (hrun : Tracked.createProcess entry t = .ok (res, t')) : KernelStep (t, n) (t', n + 35)
  | thread {t t' : Tracked} {n entry : Nat} {res : Option Nat}
      (hrun : Tracked.createThread entry t = .ok (res, t')) : KernelStep (t, n) (t', n + 34)
  | kmalloc {t : Tracked} {n size ptr : Nat} {s' : State} (hn : size + 16 + 4095 < 2 ^ 64)
      (hrun : Kernel.kmalloc size t.kernel = .ok (ptr, s')) :
      KernelStep (t, n) ({ t with
        system := ⟨s', t.sched⟩
        own := if ptr = 0 then t.own else ⟨ptr, size⟩ :: t.own }, n + (size + 16 + 4095) / 4096)
  | kfree {t : Tracked} {n : Nat} {pre post : List Block} {b : Block} {s' : State}
      (hown : t.own = pre ++ b :: post) (hrun : Kernel.kfree b.ptr t.kernel = .ok ((), s')) :
      KernelStep (t, n) ({ t with system := ⟨s', t.sched⟩, own := pre ++ post }, n)
  | store {t : Tracked} {n o : Nat} {b : Block} {bs : List UInt8} {s' : State} (hb : b ∈ t.live)
      (hle : o + bs.length ≤ b.size)
      (hrun : storeBytes (byteAddr b.base (16 + o)) bs t.kernel = .ok ((), s')) :
      KernelStep (t, n) ({ t with system := ⟨s', t.sched⟩ }, n)
  | resched {t : Tracked} {n : Nat} {old : Context} {new : Option Context} {s' : System}
      (hrun : Kernel.resched old t.system = .ok (new, s')) :
      KernelStep (t, n) ({ t with system := s' }, n)

/-- What holds in every state that a run reaches: the roots of the valid processes agree. -/
def ProcessesAgree (base total : Nat) (c : Tracked × Nat) : Prop :=
  ∃ r roots, Coherent base r c.1.kernel c.1.live roots (total - c.2) ∧
    ∀ i, (c.1.sched.processes i).valid = true → (c.1.sched.processes i).cr3 ∈ roots

theorem KernelStep.asked_le {c c' : Tracked × Nat} (h : KernelStep c c') : c.2 ≤ c'.2 := by
  cases h with
  | process => exact Nat.le_add_right _ _
  | thread => exact Nat.le_add_right _ _
  | kmalloc => exact Nat.le_add_right _ _
  | kfree => exact le_refl _
  | store => exact le_refl _
  | resched => exact le_refl _

/-- One step. -/
theorem ProcessesAgree.step {base total : Nat} {c c' : Tracked × Nat}
    (h : ProcessesAgree base total c) (hstep : KernelStep c c') (hle : c'.2 ≤ total) :
    ProcessesAgree base total c' := by
  obtain ⟨r, roots, hcoherent, hroots⟩ := h
  cases hstep with
  | @process t t' n entry res hrun =>
      have hcall := Tracked.createProcess_cases hrun
      have hask : n + 35 ≤ total := hle
      obtain ⟨roots', hnext, hsub, hnew⟩ := hcall.coherent hcoherent (by simp only; omega)
      simp only [Nat.sub_sub] at hnext
      refine ⟨r, roots', hnext, fun i hi => ?_⟩
      rcases hcall.processes_eq hi with hres | ⟨hvalid, hcr3⟩
      · exact hnew i hres
      · simp only [hcr3]
        exact hsub _ (hroots i hvalid)
  | @thread t t' n entry res hrun =>
      have hcall := Tracked.createThread_cases hrun
      have hask : n + 34 ≤ total := hle
      have hnext := hcall.coherent hcoherent (by simp only; omega)
      simp only [Nat.sub_sub] at hnext
      refine ⟨r, roots, hnext, fun i hi => ?_⟩
      obtain ⟨hvalid, hcr3⟩ := hcall.processes_eq i
      simp only [hcr3]
      exact hroots i (hvalid ▸ hi)
  | @kmalloc t n size ptr s' hn hrun =>
      have hask : n + (size + 16 + 4095) / 4096 ≤ total := hle
      have hnext := hcoherent.kmalloc hn (by simp only; omega) hrun
      simp only [Nat.sub_sub] at hnext
      refine ⟨r, roots, ?_, hroots⟩
      by_cases hz : ptr = 0
      · simp only [if_pos hz] at hnext ⊢
        exact hnext
      · simp only [if_neg hz] at hnext ⊢
        exact hnext
  | @kfree t n pre post b s' hown hrun =>
      have hlive : t.live = pre ++ b :: (post ++ t.others) := by
        rw [Tracked.live, hown, List.append_assoc, List.cons_append]
      simp only [hlive] at hcoherent
      have hnext := hcoherent.kfree hrun
      rw [← List.append_assoc] at hnext
      exact ⟨r, roots, hnext, hroots⟩
  | store hb hsize hrun => exact ⟨r, roots, hcoherent.store hb hsize hrun, hroots⟩
  | @resched t n old new s' hrun =>
      obtain ⟨hsame, hkernel⟩ := resched_rescheduled hrun
      have hroots' : ∀ i, (s'.sched.processes i).valid = true →
          (s'.sched.processes i).cr3 ∈ roots := fun i hi => by
        rw [(hsame i).2]
        exact hroots i ((hsame i).1.symm.trans hi)
      rcases hkernel with hkernel | ⟨i, hvalid, hkernel⟩
      · refine ⟨r, roots, ?_, hroots'⟩
        show Coherent base r s'.kernel t.live roots (total - n)
        rw [hkernel]
        exact hcoherent
      · refine ⟨(t.sched.processes i).cr3, roots, ?_, hroots'⟩
        show Coherent base _ s'.kernel t.live roots (total - n)
        rw [hkernel]
        exact hcoherent.load (hroots i hvalid)

/-- A run. -/
theorem ProcessesAgree.run {base total : Nat} {c c' : Tracked × Nat}
    (h : ProcessesAgree base total c) (hreach : ReflTransGen KernelStep c c')
    (hle : c'.2 ≤ total) : ProcessesAgree base total c' := by
  induction hreach with
  | refl => exact h
  | tail _ hstep ih => exact (ih (hstep.asked_le.trans hle)).step hstep hle

/-- After `mm_init`, without a process. -/
def Tracked.start (s : State) : Tracked := ⟨⟨s, .zero⟩, [], [mmioBlock s], []⟩

/-- **The processes share the kernel.** In every run from `mm_init` on that does not use up the slot
of the heap, every valid process binds the addresses of the kernel to the same pages as the root that
is loaded, every live block is mapped in it, and `kmalloc` and `kfree` do the same in it. -/
theorem addressSpaces_agree {map : E820Map} {boot s : State} {t : Tracked} {n : Nat}
    (hboot : BootTables boot)
    (hwindow : ∀ s₁, pmmInit map boot = .ok ((), s₁) → s₁.WindowFrames)
    (hinit : mmInit map boot = .ok ((), s))
    (hreach : ReflTransGen KernelStep (.start s, 0) (t, n)) (hasked : n ≤ 2 ^ 27 - 705) {pid : Nat}
    (hpid : (t.sched.processes pid).valid = true) :
    (∀ va, levelIndex 39 va ∈ kernelSlots →
      vmmGetPage va (t.kernel.under (t.sched.processes pid).cr3) = vmmGetPage va t.kernel) ∧
    (∀ b ∈ t.live, ∀ i, i < b.pages →
      vmmGetPage (b.page i) (t.kernel.under (t.sched.processes pid).cr3) &&& PAGE_PRESENT ≠ 0) ∧
    (∀ size, size + 16 + 4095 < 2 ^ 64 → n + (size + 16 + 4095) / 4096 ≤ 2 ^ 27 - 705 →
      kmalloc size (t.kernel.under (t.sched.processes pid).cr3)
        = carry (State.under · (t.sched.processes pid).cr3) (kmalloc size t.kernel)) ∧
    ∀ b ∈ t.live, kfree b.ptr (t.kernel.under (t.sched.processes pid).cr3)
      = carry (State.under · (t.sched.processes pid).cr3) (kfree b.ptr t.kernel) := by
  have hstart : ProcessesAgree s.cr3 (2 ^ 27 - 705) (.start s, 0) :=
    ⟨_, _, mmInit_coherent hboot hwindow hinit, fun i hi => by cases hi⟩
  obtain ⟨r, roots, h, hroots⟩ := hstart.run hreach hasked
  have hr := hroots pid hpid
  exact ⟨fun va hva => h.page_eq hr hva, fun b hb i hi => h.mapped hr hb hi,
    fun size hsize hle => h.kmalloc_same hr hsize (Nat.le_sub_of_add_le' hle),
    fun b hb => h.kfree_same hr hb⟩

/-- On a machine with 64 MiB two processes are created, and `resched` goes on with one of them. -/
theorem addressSpaces_agree_two : ∃ s t n, BootTables .start ∧
    mmInit (flatMap 16384) .start = .ok ((), s) ∧
    ReflTransGen KernelStep (.start s, 0) (t, n) ∧ n ≤ 2 ^ 27 - 705 ∧
    (t.sched.processes 1).valid = true ∧ t.sched.cpu.sys_ready = true ∧
    ∀ va, levelIndex 39 va ∈ kernelSlots →
      vmmGetPage va (t.kernel.under (t.sched.processes 1).cr3) = vmmGetPage va t.kernel := by
  obtain ⟨s, hinit, hstarted⟩ := mmInit_flat (show 4870 + 282 ≤ 16384 by decide) (by decide)
  have horder : InOrder (Tracked.start s) := ⟨hstarted.ready.inv, hstarted.free _⟩
  have hroom : (Tracked.start s).HasRoom (35 + 35) (141 + 141) :=
    ⟨_, _, hstarted.ready.mono (by decide) (le_refl _)⟩
  obtain ⟨t₁, hrun₁, hcall₁, horder₁, hroom₁⟩ := createProcess_grows horder hroom findProcess_zero 0
  obtain ⟨_, _, _, _, -, hsched₁⟩ := hcall₁.sched_eq
  have hfind : findProcess t₁.sched = some 1 := by
    rw [hsched₁]
    exact findProcess_second _ rfl
  have hroom₁' : t₁.HasRoom (35 + 0) (141 + 0) := hroom₁
  obtain ⟨t₂, hrun₂, hcall₂, -, -⟩ := createProcess_grows horder₁ hroom₁' hfind 0
  obtain ⟨_, _, _, _, -, hsched₂⟩ := hcall₂.sched_eq
  -- the two threads are idle, and there is none to save
  have huntracked₁ := Tracks.createProcess 0 (Tracked.start s)
  have huntracked₂ := Tracks.createProcess 0 t₁
  rw [hrun₁] at huntracked₁
  rw [hrun₂] at huntracked₂
  have hinv₁ : SchedInv t₁.sched fun _ _ => none :=
    schedInv_first (m := ⟨t₁.system, 0, false⟩) ⟨_, 0, 0, rfl, huntracked₁.symm⟩
  have hinv₂ : SchedInv t₂.sched fun _ _ => none :=
    schedInv_step (m := ⟨t₁.system, 0, false⟩) hinv₁
      (.process huntracked₂.symm)
  have hready : t₂.sched.cpu.sys_ready = false := by
    rw [hsched₂, hsched₁]
    rfl
  obtain ⟨context, s', hresched, hswitched⟩ := resched_first hinv₂ hready (.fresh 0 0 0 0)
  have hcreate₁ : KernelStep (.start s, 0) (t₁, 35) := .process hrun₁
  have hcreate₂ : KernelStep (t₁, 35) (t₂, 70) := .process hrun₂
  have hnext : KernelStep (t₂, 70) ({ t₂ with system := s' }, 70) := .resched hresched
  have hreach := ((ReflTransGen.single hcreate₁).tail hcreate₂).tail hnext
  have hvalid : (s'.sched.processes 1).valid = true :=
    ((resched_rescheduled hresched).roots 1).1.trans hcall₂.valid
  exact ⟨s, _, 70, bootTables_start, hinit, hreach, by decide, hvalid, hswitched.ready,
    (addressSpaces_agree bootTables_start (fun s₁ hrun => window_flat (by decide) (by decide) hrun)
      hinit hreach (by decide) hvalid).1⟩

end Windozz.Kernel

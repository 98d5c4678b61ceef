import Windozz.Kernel.Locks

set_option autoImplicit false

/-! # The creation functions with their blocks and messages

`create_process` and `create_thread` once more, with what they print and with the heap blocks that
they hold: a block joins the list when `kmalloc` returns it and leaves it with `kfree`. Forgetting
both gives back the functions of `Process.lean` (`Tracks.createProcess`, `Tracks.createThread`).

Each function has a handful of ways to return. `ProcessCall` and `ThreadCall` list them, with the
calls of the memory manager on the way and the state they end in.
-/

namespace Windozz.Kernel

/-- The kernel with its processes, the live blocks of the heap (those that belong to processes and
threads, and all others) and the messages printed so far. -/
structure Tracked where
  system : System
  own : List Block
  others : List Block
  printed : List String

/-- A function that is tracked. -/
abbrev T (α : Type) := Prog Tracked Stop α

namespace Tracked

abbrev kernel (t : Tracked) : State := t.system.kernel

abbrev sched (t : Tracked) : Sched := t.system.sched

/-- The live blocks. -/
def live (t : Tracked) : List Block := t.own ++ t.others

/-! ## The functions -/

/-- A step that neither takes nor gives back a block. -/
def onSystem {α : Type} (m : S α) : T α := fun t =>
  match m t.system with
  | .ok (a, s) => .ok (a, { t with system := s })
  | .error e => .error e

/-- `ERROR`. -/
def ERROR (message : String) : T Unit :=
  modify fun t => { t with printed := t.printed ++ [message] }

/-- `kmalloc`. -/
def kmalloc (n : Nat) : T Nat := do
  let ptr ← onSystem (onKernel (Kernel.kmalloc n))
  modify fun t => { t with own := if ptr = 0 then t.own else ⟨ptr, n⟩ :: t.own }
  pure ptr

/-- `kcalloc`. -/
def kcalloc (n1 n2 : Nat) : T Nat := Tracked.kmalloc (u64 (n1 * n2))

/-- `kfree`. -/
def kfree (ptr : Nat) : T Unit := do
  onSystem (onKernel (Kernel.kfree ptr))
  modify fun t => { t with own := t.own.filter fun b => b.ptr != ptr }

def PROCESS_NO_SLOT : String := "unable to create process; no free slots available.\n"
def PROCESS_NO_MEMORY : String := "unable to create process; out of memory.\n"
def THREAD_NO_SLOT : String := "unable to create thread, no free slots available.\n"
def THREAD_NO_MEMORY : String := "unable to create thread, out of memory.\n"

/-- The stack of the thread, if it is the first one of all. -/
def createStack (pid : Nat) : T Bool := do
  let t ← get
  if t.sched.running_processes = 0 then do
    let rsp ← Tracked.kmalloc THREAD_STACK
    onSystem (onSched (.setThread pid 0 (.setReg Context.rsp rsp)))
    if rsp = 0 then do
      ERROR PROCESS_NO_MEMORY
      pure false
    else do
      onSystem (onSched (.setThread pid 0 (.setReg Context.rsp (u64 (rsp + THREAD_STACK)))))
      onSystem (onSched (.setThread pid 0 (.setReg Context.cs KCODE_SEGMENT)))
      onSystem (onSched (.setThread pid 0 (.setReg Context.ds KDATA_SEGMENT)))
      pure true
  else pure true

/-- `create_process`. -/
def createProcess (entry : Nat) : T (Option Nat) := do
  onSystem (onKernel (acquire .sched_mutex))
  let t ← get
  match findProcess t.sched with
  | none => do
      ERROR PROCESS_NO_SLOT
      onSystem (onKernel (release .sched_mutex))
      pure none
  | some pid => do
      let cr3 ← onSystem (onKernel newPml4)
      onSystem (onSched (.setProcess pid fun p => { p with cr3 := cr3 }))
      if cr3 = 0 then do
        ERROR PROCESS_NO_MEMORY
        onSystem (onKernel (release .sched_mutex))
        pure none
      else do
        onSystem (onSched (.setProcess pid fun p => { p with thread_count := 1 }))
        let threads ← Tracked.kcalloc SIZEOF_POINTER MAX_THREADS
        onSystem (onSched (.setProcess pid fun p => { p with
          threads := threads, slots := fun _ => .empty }))
        if threads = 0 then do
          ERROR PROCESS_NO_MEMORY
          onSystem (onKernel (pmmFreePage cr3))
          onSystem (onKernel (release .sched_mutex))
          pure none
        else do
          let thread ← Tracked.kcalloc SIZEOF_THREAD 1
          onSystem (onSched (.setSlot pid 0 fun _ => ⟨thread, .zero⟩))
          if thread = 0 then do
            ERROR PROCESS_NO_MEMORY
            onSystem (onKernel (pmmFreePage cr3))
            Tracked.kfree threads
            onSystem (onKernel (release .sched_mutex))
            pure none
          else do
            onSystem (onSched (.setThread pid 0 (.setReg Context.rflags 0x202)))
            onSystem (onSched (.setThread pid 0 (.setReg Context.rip entry)))
            let done ← createStack pid
            if done then do
              onSystem (onSched (.setThread pid 0 fun t => { t with status := .THREAD_IDLE }))
              onSystem (onSched (.setProcess pid fun p => { p with
                valid := true, thread_count := 1 }))
              onSystem (onSched fun s => { s with
                running_processes := u64 (s.running_processes + 1) })
              onSystem (onKernel (release .sched_mutex))
              pure (some pid)
            else do
              onSystem (onKernel (pmmFreePage cr3))
              Tracked.kfree thread
              Tracked.kfree threads
              onSystem (onKernel (release .sched_mutex))
              pure none

/-- The end of `create_thread`. -/
def startThread (entry pid tid rsp : Nat) : T (Option Nat) :=
  onSystem (Kernel.createThread.startThread entry pid tid rsp)

/-- `create_thread`. -/
def createThread (entry : Nat) : T (Option Nat) := do
  onSystem (onKernel (acquire .sched_mutex))
  let t ← get
  let pid := t.sched.cpu.pid
  match findThread t.sched with
  | none => do
      ERROR THREAD_NO_SLOT
      onSystem (onKernel (release .sched_mutex))
      pure none
  | some tid => do
      let thread ← Tracked.kcalloc SIZEOF_THREAD 1
      onSystem (onSched (.setSlot pid tid fun _ => ⟨thread, .zero⟩))
      if thread = 0 then do
        ERROR THREAD_NO_SLOT
        onSystem (onKernel (release .sched_mutex))
        pure none
      else if pid = 0 then do
        onSystem (onSched (.setThread pid tid (.setReg Context.cs KCODE_SEGMENT)))
        onSystem (onSched (.setThread pid tid (.setReg Context.ds KDATA_SEGMENT)))
        let rsp ← Tracked.kmalloc THREAD_STACK
        onSystem (onSched (.setThread pid tid (.setReg Context.rsp rsp)))
        if rsp = 0 then do
          ERROR THREAD_NO_MEMORY
          Tracked.kfree thread
          onSystem (onKernel (release .sched_mutex))
          pure none
        else startThread entry pid tid rsp
      else do
        onSystem (onSched (.setThread pid tid (.setReg Context.cs UCODE_SEGMENT)))
        onSystem (onSched (.setThread pid tid (.setReg Context.ds UDATA_SEGMENT)))
        startThread entry pid tid 0

end Tracked

/-! ## Forgetting the blocks and the messages -/

/-- The tracked function does to the system what the function does. -/
def Tracks {α : Type} (m' : T α) (m : S α) : Prop :=
  ∀ t, (m' t).map (fun r => (r.1, r.2.system)) = m t.system

namespace Tracks

variable {α β : Type} {m : T α} {f : α → T β} {n : S α} {g : α → S β}

/-- A run of the function is one of the tracked function. -/
theorem ok (h : Tracks m n) {t : Tracked} {a : α} {s' : System} (hrun : n t.system = .ok (a, s')) :
    ∃ t', m t = .ok (a, t') ∧ t'.system = s' := by
  have ht := h t
  rw [hrun] at ht
  cases hm : m t with
  | ok r =>
      rw [hm] at ht
      obtain ⟨ha, hs⟩ := Prod.mk.inj (Except.ok.inj ht)
      exact ⟨r.2, by rw [← ha], hs⟩
  | error e =>
      rw [hm] at ht
      cases ht

theorem pure (a : α) : Tracks (pure a) (pure a : S α) := fun _ => rfl

theorem onSystem (n : S α) : Tracks (Tracked.onSystem n) n := by
  intro t
  unfold Tracked.onSystem
  cases n t.system with
  | ok r => rfl
  | error e => rfl

theorem bind (hm : Tracks m n) (hf : ∀ a, Tracks (f a) (g a)) : Tracks (m >>= f) (n >>= g) := by
  intro t
  have ht := hm t
  rw [Prog.run_bind, Prog.run_bind, ← ht]
  cases m t with
  | ok r => exact hf r.1 r.2
  | error e => rfl

theorem get {f : Tracked → T β} {g : System → S β} (hf : ∀ t, Tracks (f t) (g t.system)) :
    Tracks (get >>= f) (get >>= g) := fun t => hf t t

/-- Bookkeeping is forgotten. -/
theorem skip {h : Tracked → Tracked} {f : Unit → T β} {n : S β} (hh : ∀ t, (h t).system = t.system)
    (hf : Tracks (f ()) n) : Tracks (modify h >>= f) n := by
  intro t
  have ht := hf (h t)
  rw [hh] at ht
  exact ht

theorem ERROR (message : String) {f : Unit → T β} {n : S β} (hf : Tracks (f ()) n) :
    Tracks (Tracked.ERROR message >>= f) n := skip (fun _ => rfl) hf

/-- A step that is followed by bookkeeping. -/
theorem record {n : S α} (h : α → Tracked → Tracked) (hh : ∀ a t, (h a t).system = t.system) :
    Tracks (Tracked.onSystem n >>= fun a => modify (h a) >>= fun _ => Pure.pure a) n := by
  intro t
  have ht := onSystem n t
  rw [Prog.run_bind, ← ht]
  cases Tracked.onSystem n t with
  | ok r => exact congrArg (fun s => Except.ok (r.1, s)) (hh r.1 r.2)
  | error e => rfl

theorem kmalloc (size : Nat) : Tracks (Tracked.kmalloc size) (onKernel (Kernel.kmalloc size)) :=
  record (fun ptr t => { t with own := if ptr = 0 then t.own else ⟨ptr, size⟩ :: t.own })
    fun _ _ => rfl

theorem kfree (ptr : Nat) : Tracks (Tracked.kfree ptr) (onKernel (Kernel.kfree ptr)) :=
  record (fun _ t => { t with own := t.own.filter fun b => b.ptr != ptr }) fun _ _ => rfl

/-- Every failure ends in a release. -/
theorem failure : Tracks (Tracked.onSystem (onKernel (release .sched_mutex)) >>= fun _ => Pure.pure none)
    (onKernel (release .sched_mutex) >>= fun _ => Pure.pure (none : Option Nat)) :=
  bind (onSystem _) fun _ => pure _

theorem createStack (pid : Nat) : Tracks (Tracked.createStack pid) (Kernel.createStack pid) := by
  refine Tracks.get fun t => ?_
  by_cases hfirst : t.sched.running_processes = 0
  · rw [if_pos hfirst, if_pos hfirst]
    refine bind (kmalloc _) fun rsp => bind (onSystem _) fun _ => ?_
    by_cases hz : rsp = 0
    · rw [if_pos hz, if_pos hz]
      exact ERROR _ (Tracks.pure _)
    · rw [if_neg hz, if_neg hz]
      exact bind (onSystem _) fun _ => bind (onSystem _) fun _ => bind (onSystem _) fun _ =>
        Tracks.pure _
  · rw [if_neg hfirst, if_neg hfirst]
    exact Tracks.pure _

/-- **`create_process` is what its tracked version does to the system.** -/
theorem createProcess (entry : Nat) :
    Tracks (Tracked.createProcess entry) (Kernel.createProcess entry) := by
  refine bind (onSystem _) fun _ => Tracks.get fun t => ?_
  cases findProcess t.sched with
  | none => exact ERROR _ failure
  | some pid =>
      refine bind (onSystem _) fun cr3 => bind (onSystem _) fun _ => ?_
      by_cases hcr3 : cr3 = 0
      · rw [if_pos hcr3, if_pos hcr3]
        exact ERROR _ failure
      · rw [if_neg hcr3, if_neg hcr3]
        refine bind (onSystem _) fun _ => bind (kmalloc _) fun threads => bind (onSystem _) fun _ => ?_
        by_cases hthreads : threads = 0
        · rw [if_pos hthreads, if_pos hthreads]
          exact ERROR _ (bind (onSystem _) fun _ => failure)
        · rw [if_neg hthreads, if_neg hthreads]
          refine bind (kmalloc _) fun thread => bind (onSystem _) fun _ => ?_
          by_cases hz : thread = 0
          · rw [if_pos hz, if_pos hz]
            exact ERROR _ (bind (onSystem _) fun _ => bind (kfree _) fun _ => failure)
          · rw [if_neg hz, if_neg hz]
            refine bind (onSystem _) fun _ => bind (onSystem _) fun _ =>
              bind (createStack pid) fun done => ?_
            cases done with
            | false =>
                exact bind (onSystem _) fun _ => bind (kfree _) fun _ => bind (kfree _) fun _ => failure
            | true =>
                exact bind (onSystem _) fun _ => bind (onSystem _) fun _ => bind (onSystem _) fun _ =>
                  bind (onSystem _) fun _ => Tracks.pure _

/-- **`create_thread` is what its tracked version does to the system.** -/
theorem createThread (entry : Nat) :
    Tracks (Tracked.createThread entry) (Kernel.createThread entry) := by
  refine bind (onSystem _) fun _ => Tracks.get fun t => ?_
  simp only
  cases findThread t.sched with
  | none => exact ERROR _ failure
  | some tid =>
      refine bind (kmalloc _) fun thread => bind (onSystem _) fun _ => ?_
      by_cases hz : thread = 0
      · rw [if_pos hz, if_pos hz]
        exact ERROR _ failure
      · rw [if_neg hz, if_neg hz]
        by_cases hpid : t.sched.cpu.pid = 0
        · rw [if_pos hpid, if_pos hpid]
          refine bind (onSystem _) fun _ => bind (onSystem _) fun _ => bind (kmalloc _) fun rsp =>
            bind (onSystem _) fun _ => ?_
          by_cases hrsp : rsp = 0
          · rw [if_pos hrsp, if_pos hrsp]
            exact ERROR _ (bind (kfree _) fun _ => failure)
          · rw [if_neg hrsp, if_neg hrsp]
            exact onSystem _
        · rw [if_neg hpid, if_neg hpid]
          exact bind (onSystem _) fun _ => bind (onSystem _) fun _ => onSystem _

end Tracks

/-! ## The ways to return -/

/-- The registers of a thread that has not run. -/
def Context.fresh (rip rsp cs ds : Nat) : Context :=
  ![0, 0, 0, 0, 0, 0, 0, 0, 0, 0, 0, 0, 0, 0, 0, rip, rsp, 0x202, cs, ds]

namespace Context

variable (x y z w : Nat)

@[simp] theorem fresh_rip : fresh x y z w rip = x := rfl

@[simp] theorem fresh_rsp : fresh x y z w rsp = y := rfl

@[simp] theorem fresh_cs : fresh x y z w cs = z := rfl

@[simp] theorem fresh_ds : fresh x y z w ds = w := rfl

end Context

/-- A new thread in a slot. -/
def Sched.addThread (pid tid thread : Nat) (context : Context) (s : Sched) : Sched :=
  (s.setSlot pid tid fun _ => ⟨thread, ⟨context, .THREAD_IDLE⟩⟩).setProcess pid fun p => { p with
    thread_count := u64 (p.thread_count + 1) }

/-- A new process. -/
def Sched.addProcess (pid : Nat) (p : Process) (s : Sched) : Sched := { s with
  processes := Function.update s.processes pid p
  running_processes := u64 (s.running_processes + 1) }

/-- The block of a thread. -/
def threadBlock (thread : Nat) : Block := ⟨thread, SIZEOF_THREAD⟩

/-- The block of the table of threads. -/
def tableBlock (threads : Nat) : Block := ⟨threads, SIZEOF_POINTER * MAX_THREADS⟩

/-- The block of a stack. -/
def stackBlock (stack : Nat) : Block := ⟨stack, THREAD_STACK⟩

/-- The blocks without the one that is freed. -/
def without (ptr : Nat) (blocks : List Block) : List Block := blocks.filter fun b => b.ptr != ptr

namespace Tracked

/-- The kernel inside of the functions. -/
def locked (t : Tracked) : State := t.kernel.lock .sched_mutex

/-- The state in which a call returns. -/
def after (t : Tracked) (k : State) (s : Sched) (own : List Block) (printed : List String) :
    Tracked where
  system := ⟨{ k with mutexes := Function.update k.mutexes .sched_mutex false }, s⟩
  own := own
  others := t.others
  printed := printed

end Tracked

open Tracked in
/-- The ways `create_thread` returns. -/
inductive ThreadCall (entry : Nat) (t : Tracked) : Option Nat → Tracked → Prop where
  /-- There is no slot. -/
  | full (hfind : findThread t.sched = none) :
      ThreadCall entry t none (t.after t.locked t.sched t.own (t.printed ++ [THREAD_NO_SLOT]))
  /-- There is no block for the thread. -/
  | refused {tid : Nat} {k₁ : State} (hfind : findThread t.sched = some tid)
      (hthread : Kernel.kcalloc SIZEOF_THREAD 1 t.locked = .ok (0, k₁)) :
      ThreadCall entry t none (t.after k₁ (t.sched.setSlot t.sched.cpu.pid tid fun _ => .empty)
        t.own (t.printed ++ [THREAD_NO_SLOT]))
  /-- There is no block for the stack of a thread of the kernel. -/
  | noStack {tid thread : Nat} {k₁ k₂ k₃ : State} (hfind : findThread t.sched = some tid)
      (hthread : Kernel.kcalloc SIZEOF_THREAD 1 t.locked = .ok (thread, k₁)) (hne : thread ≠ 0)
      (hpid : t.sched.cpu.pid = 0) (hstack : Kernel.kmalloc THREAD_STACK k₁ = .ok (0, k₂))
      (hfree : Kernel.kfree thread k₂ = .ok ((), k₃)) :
      ThreadCall entry t none (t.after k₃ (t.sched.setSlot t.sched.cpu.pid tid fun _ => ⟨thread,
        ((Thread.zero.setReg Context.cs KCODE_SEGMENT).setReg Context.ds KDATA_SEGMENT).setReg
          Context.rsp 0⟩) (without thread (threadBlock thread :: t.own))
        (t.printed ++ [THREAD_NO_MEMORY]))
  /-- A thread of the kernel. -/
  | kernel {tid thread stack : Nat} {k₁ k₂ : State} (hfind : findThread t.sched = some tid)
      (hthread : Kernel.kcalloc SIZEOF_THREAD 1 t.locked = .ok (thread, k₁)) (hne : thread ≠ 0)
      (hpid : t.sched.cpu.pid = 0) (hstack : Kernel.kmalloc THREAD_STACK k₁ = .ok (stack, k₂))
      (hsne : stack ≠ 0) :
      ThreadCall entry t (some 0) (t.after k₂ (t.sched.addThread t.sched.cpu.pid tid thread
        (.fresh entry (u64 (stack + THREAD_STACK)) KCODE_SEGMENT KDATA_SEGMENT))
        (stackBlock stack :: threadBlock thread :: t.own) t.printed)
  /-- A thread of another process. -/
  | user {tid thread : Nat} {k₁ : State} (hfind : findThread t.sched = some tid)
      (hthread : Kernel.kcalloc SIZEOF_THREAD 1 t.locked = .ok (thread, k₁)) (hne : thread ≠ 0)
      (hpid : t.sched.cpu.pid ≠ 0) :
      ThreadCall entry t (some 0) (t.after k₁ (t.sched.addThread t.sched.cpu.pid tid thread
        (.fresh entry THREAD_STACK UCODE_SEGMENT UDATA_SEGMENT)) (threadBlock thread :: t.own)
        t.printed)

open Tracked in
/-- The ways `create_process` returns. Where it fails, it has written to an entry that is not
valid and is not made valid. -/
inductive ProcessCall (entry : Nat) (t : Tracked) : Option Nat → Tracked → Prop where
  /-- There is no slot. -/
  | full (hfind : findProcess t.sched = none) :
      ProcessCall entry t none (t.after t.locked t.sched t.own (t.printed ++ [PROCESS_NO_SLOT]))
  /-- There is no page for the root of the page tables. -/
  | noRoot {pid : Nat} {k₁ : State} {f : Process → Process}
      (hfind : findProcess t.sched = some pid) (hf : ∀ p, (f p).valid = p.valid)
      (hroot : newPml4 t.locked = .ok (0, k₁)) :
      ProcessCall entry t none (t.after k₁ (t.sched.setProcess pid f) t.own
        (t.printed ++ [PROCESS_NO_MEMORY]))
  /-- There is no block for the table of threads. -/
  | noTable {pid cr3 : Nat} {k₁ k₂ k₃ : State} {f : Process → Process}
      (hfind : findProcess t.sched = some pid) (hf : ∀ p, (f p).valid = p.valid)
      (hroot : newPml4 t.locked = .ok (cr3, k₁)) (hcr3 : cr3 ≠ 0)
      (htable : Kernel.kcalloc SIZEOF_POINTER MAX_THREADS k₁ = .ok (0, k₂))
      (hpage : pmmFreePage cr3 k₂ = .ok ((), k₃)) :
      ProcessCall entry t none (t.after k₃ (t.sched.setProcess pid f) t.own
        (t.printed ++ [PROCESS_NO_MEMORY]))
  /-- There is no block for the thread. -/
  | noThread {pid cr3 threads : Nat} {k₁ k₂ k₃ k₄ k₅ : State} {f : Process → Process}
      (hfind : findProcess t.sched = some pid) (hf : ∀ p, (f p).valid = p.valid)
      (hroot : newPml4 t.locked = .ok (cr3, k₁)) (hcr3 : cr3 ≠ 0)
      (htable : Kernel.kcalloc SIZEOF_POINTER MAX_THREADS k₁ = .ok (threads, k₂)) (htne : threads ≠ 0)
      (hthread : Kernel.kcalloc SIZEOF_THREAD 1 k₂ = .ok (0, k₃))
      (hpage : pmmFreePage cr3 k₃ = .ok ((), k₄)) (hfree : Kernel.kfree threads k₄ = .ok ((), k₅)) :
      ProcessCall entry t none (t.after k₅ (t.sched.setProcess pid f)
        (without threads (tableBlock threads :: t.own)) (t.printed ++ [PROCESS_NO_MEMORY]))
  /-- There is no block for the stack of the first thread. -/
  | noStack {pid cr3 threads thread : Nat} {k₁ k₂ k₃ k₄ k₅ k₆ k₇ : State} {f : Process → Process}
      (hfind : findProcess t.sched = some pid) (hf : ∀ p, (f p).valid = p.valid)
      (hroot : newPml4 t.locked = .ok (cr3, k₁)) (hcr3 : cr3 ≠ 0)
      (htable : Kernel.kcalloc SIZEOF_POINTER MAX_THREADS k₁ = .ok (threads, k₂)) (htne : threads ≠ 0)
      (hthread : Kernel.kcalloc SIZEOF_THREAD 1 k₂ = .ok (thread, k₃)) (hne : thread ≠ 0)
      (hfirst : t.sched.running_processes = 0)
      (hstack : Kernel.kmalloc THREAD_STACK k₃ = .ok (0, k₄))
      (hpage : pmmFreePage cr3 k₄ = .ok ((), k₅)) (hfree : Kernel.kfree thread k₅ = .ok ((), k₆))
      (hfree' : Kernel.kfree threads k₆ = .ok ((), k₇)) :
      ProcessCall entry t none (t.after k₇ (t.sched.setProcess pid f)
        (without threads (without thread (threadBlock thread :: tableBlock threads :: t.own)))
        (t.printed ++ [PROCESS_NO_MEMORY]))
  /-- The first process. -/
  | first {pid cr3 threads thread stack : Nat} {k₁ k₂ k₃ k₄ : State}
      (hfind : findProcess t.sched = some pid)
      (hroot : newPml4 t.locked = .ok (cr3, k₁)) (hcr3 : cr3 ≠ 0)
      (htable : Kernel.kcalloc SIZEOF_POINTER MAX_THREADS k₁ = .ok (threads, k₂)) (htne : threads ≠ 0)
      (hthread : Kernel.kcalloc SIZEOF_THREAD 1 k₂ = .ok (thread, k₃)) (hne : thread ≠ 0)
      (hfirst : t.sched.running_processes = 0)
      (hstack : Kernel.kmalloc THREAD_STACK k₃ = .ok (stack, k₄)) (hsne : stack ≠ 0) :
      ProcessCall entry t (some pid) (t.after k₄ (t.sched.addProcess pid (.fresh cr3 threads thread
        (.fresh entry (u64 (stack + THREAD_STACK)) KCODE_SEGMENT KDATA_SEGMENT)))
        (stackBlock stack :: threadBlock thread :: tableBlock threads :: t.own) t.printed)
  /-- Any other process: its thread gets neither a stack nor segments. -/
  | later {pid cr3 threads thread : Nat} {k₁ k₂ k₃ : State}
      (hfind : findProcess t.sched = some pid)
      (hroot : newPml4 t.locked = .ok (cr3, k₁)) (hcr3 : cr3 ≠ 0)
      (htable : Kernel.kcalloc SIZEOF_POINTER MAX_THREADS k₁ = .ok (threads, k₂)) (htne : threads ≠ 0)
      (hthread : Kernel.kcalloc SIZEOF_THREAD 1 k₂ = .ok (thread, k₃)) (hne : thread ≠ 0)
      (hlater : t.sched.running_processes ≠ 0) :
      ProcessCall entry t (some pid) (t.after k₃ (t.sched.addProcess pid (.fresh cr3 threads thread
        (.fresh entry 0 0 0))) (threadBlock thread :: tableBlock threads :: t.own) t.printed)

/-! ### Running the tracked functions -/

namespace Tracked

variable {t' : Tracked} {k : State} {s : Sched} {own others : List Block} {printed : List String}

theorem onKernel_ok {α : Type} {m : K α} {a : α}
    (hrun : onSystem (onKernel m) ⟨⟨k, s⟩, own, others, printed⟩ = .ok (a, t')) :
    ∃ k', m k = .ok (a, k') ∧ t' = ⟨⟨k', s⟩, own, others, printed⟩ := by
  unfold onSystem at hrun
  cases hm : onKernel m ⟨k, s⟩ with
  | ok r =>
      obtain ⟨k', hk', hr⟩ := onKernel_eq_ok.mp hm
      rw [hm] at hrun
      obtain ⟨rfl, rfl⟩ := Prod.mk.inj (Except.ok.inj hrun)
      exact ⟨k', hk', by rw [hr]⟩
  | error e =>
      rw [hm] at hrun
      cases hrun

theorem kmalloc_ok {n ptr : Nat}
    (hrun : Tracked.kmalloc n ⟨⟨k, s⟩, own, others, printed⟩ = .ok (ptr, t')) :
    ∃ k', Kernel.kmalloc n k = .ok (ptr, k') ∧
      t' = ⟨⟨k', s⟩, if ptr = 0 then own else ⟨ptr, n⟩ :: own, others, printed⟩ := by
  obtain ⟨a, t₁, hcall, hrest⟩ := Prog.bind_eq_ok.mp hrun
  obtain ⟨k', hk', rfl⟩ := onKernel_ok hcall
  obtain ⟨rfl, rfl⟩ := Prod.mk.inj (Except.ok.inj hrest)
  exact ⟨k', hk', rfl⟩

theorem kfree_ok {ptr : Nat} {u : Unit}
    (hrun : Tracked.kfree ptr ⟨⟨k, s⟩, own, others, printed⟩ = .ok (u, t')) :
    ∃ k', Kernel.kfree ptr k = .ok ((), k') ∧
      t' = ⟨⟨k', s⟩, without ptr own, others, printed⟩ := by
  obtain ⟨a, t₁, hcall, hrest⟩ := Prog.bind_eq_ok.mp hrun
  obtain ⟨k', hk', rfl⟩ := onKernel_ok hcall
  obtain ⟨-, rfl⟩ := Prod.mk.inj (Except.ok.inj hrest)
  exact ⟨k', hk', rfl⟩

theorem run_onSched (f : Sched → Sched) :
    onSystem (onSched f) ⟨⟨k, s⟩, own, others, printed⟩
      = .ok ((), ⟨⟨k, f s⟩, own, others, printed⟩) := rfl

theorem run_onKernel {α : Type} {m : K α} {a : α} {k' : State} (h : m k = .ok (a, k')) :
    onSystem (onKernel m) ⟨⟨k, s⟩, own, others, printed⟩
      = .ok (a, ⟨⟨k', s⟩, own, others, printed⟩) := by
  have hm : onKernel m ⟨k, s⟩ = .ok (a, ⟨k', s⟩) := onKernel_eq_ok.mpr ⟨k', h, rfl⟩
  unfold onSystem
  rw [hm]

theorem run_kmalloc {n ptr : Nat} {k' : State} (h : Kernel.kmalloc n k = .ok (ptr, k')) :
    Tracked.kmalloc n ⟨⟨k, s⟩, own, others, printed⟩
      = .ok (ptr, ⟨⟨k', s⟩, if ptr = 0 then own else ⟨ptr, n⟩ :: own, others, printed⟩) := by
  rw [Tracked.kmalloc, Prog.bind_ok (run_onKernel h)]
  rfl

theorem run_kfree {ptr : Nat} {k' : State} (h : Kernel.kfree ptr k = .ok ((), k')) :
    Tracked.kfree ptr ⟨⟨k, s⟩, own, others, printed⟩
      = .ok ((), ⟨⟨k', s⟩, without ptr own, others, printed⟩) := by
  rw [Tracked.kfree, Prog.bind_ok (run_onKernel h)]
  rfl

theorem run_ERROR (message : String) : ERROR message ⟨⟨k, s⟩, own, others, printed⟩
    = .ok ((), ⟨⟨k, s⟩, own, others, printed ++ [message]⟩) := rfl

/-- The start of a call. -/
theorem acquire_ok {u : Unit}
    (hrun : onSystem (onKernel (acquire .sched_mutex)) ⟨⟨k, s⟩, own, others, printed⟩
      = .ok (u, t')) : t' = ⟨⟨k.lock .sched_mutex, s⟩, own, others, printed⟩ := by
  obtain ⟨k', hk', rfl⟩ := onKernel_ok hrun
  rw [Kernel.acquire_ok hk']
  rfl

/-- The end of a call. -/
theorem finish_ok {r x : Option Nat}
    (hrun : (do onSystem (onKernel (release .sched_mutex)); pure x : T (Option Nat))
      ⟨⟨k, s⟩, own, others, printed⟩ = .ok (r, t')) : r = x ∧ t' = ⟨⟨{ k with
        mutexes := Function.update k.mutexes .sched_mutex false }, s⟩, own, others, printed⟩ := by
  obtain ⟨rfl, rfl⟩ := Prod.mk.inj (Except.ok.inj hrun)
  exact ⟨rfl, rfl⟩

end Tracked

/-! ### `create_thread` -/

/-- The registers in the order in which `create_thread` sets them. -/
theorem context_thread (rip rsp cs ds : Nat) :
    Function.update (Function.update (Function.update (Function.update (Function.update (fun _ => 0)
      Context.cs cs) Context.ds ds) Context.rsp rsp) Context.rflags 0x202) Context.rip rip
        = Context.fresh rip rsp cs ds := by
  funext r
  fin_cases r <;> rfl

/-- A thread in a new slot is filled in. -/
theorem setThread_setSlot (s : Sched) (i j ptr : Nat) (x : Thread) (f : Thread → Thread) :
    (s.setSlot i j fun _ => ⟨ptr, x⟩).setThread i j f = s.setSlot i j fun _ => ⟨ptr, f x⟩ := by
  simp [Sched.setThread, Sched.setSlot, Sched.setProcess]

/-- The end of `create_thread`. -/
theorem run_startThread (entry pid tid thread rsp : Nat) (x : Thread) (k : State) (s : Sched) :
    createThread.startThread entry pid tid rsp ⟨k, s.setSlot pid tid fun _ => ⟨thread, x⟩⟩
      = .ok (some 0, ⟨{ k with mutexes := Function.update k.mutexes .sched_mutex false },
        s.addThread pid tid thread (Function.update (Function.update (Function.update
          x.context Context.rsp (u64 (rsp + THREAD_STACK))) Context.rflags 0x202) Context.rip entry)⟩) := by
  rw [createThread.startThread, Prog.bind_ok (run_onSched _ _), Prog.bind_ok (run_onSched _ _),
    Prog.bind_ok (run_onSched _ _), Prog.bind_ok (run_onSched _ _), Prog.bind_ok (run_onSched _ _),
    Prog.bind_ok (run_onRelease _ _), Prog.run_pure]
  simp only [setThread_setSlot]
  rfl

namespace Tracked

/-- The end of `create_thread`, when it has set the segments. -/
theorem run_startThread_fresh {k : State} {s : Sched} {own others : List Block}
    {printed : List String} {entry pid tid thread rsp cs ds : Nat} {x : Thread}
    (hx : ∀ y, Function.update x.context Context.rsp y = Function.update (Function.update
      (Function.update (fun _ => 0) Context.cs cs) Context.ds ds) Context.rsp y) :
    startThread entry pid tid rsp ⟨⟨k, s.setSlot pid tid fun _ => ⟨thread, x⟩⟩, own, others, printed⟩
      = .ok (some 0, ⟨⟨{ k with mutexes := Function.update k.mutexes .sched_mutex false },
        s.addThread pid tid thread (.fresh entry (u64 (rsp + THREAD_STACK)) cs ds)⟩, own, others,
          printed⟩) := by
  unfold startThread onSystem
  rw [run_startThread, hx, context_thread]

theorem startThread_ok {k : State} {s : Sched} {own others : List Block} {printed : List String}
    {t' : Tracked} {r : Option Nat} {entry pid tid thread rsp cs ds : Nat} {x : Thread}
    (hx : ∀ y, Function.update x.context Context.rsp y = Function.update (Function.update
      (Function.update (fun _ => 0) Context.cs cs) Context.ds ds) Context.rsp y)
    (hrun : startThread entry pid tid rsp ⟨⟨k, s.setSlot pid tid fun _ => ⟨thread, x⟩⟩, own, others,
      printed⟩ = .ok (r, t')) : r = some 0 ∧ t' = ⟨⟨{ k with
        mutexes := Function.update k.mutexes .sched_mutex false }, s.addThread pid tid thread
          (.fresh entry (u64 (rsp + THREAD_STACK)) cs ds)⟩, own, others, printed⟩ := by
  rw [run_startThread_fresh hx] at hrun
  obtain ⟨rfl, rfl⟩ := Prod.mk.inj (Except.ok.inj hrun)
  exact ⟨rfl, rfl⟩

/-- **Every way that `create_thread` returns.** -/
theorem createThread_cases {t t' : Tracked} {entry : Nat} {r : Option Nat}
    (hrun : Tracked.createThread entry t = .ok (r, t')) : ThreadCall entry t r t' := by
  obtain ⟨⟨k, s⟩, own, others, printed⟩ := t
  rw [Tracked.createThread] at hrun
  obtain ⟨_, t₀, hacquire, hrun⟩ := Prog.bind_eq_ok.mp hrun
  obtain rfl := acquire_ok hacquire
  rw [Prog.bind_ok (Prog.run_get _)] at hrun
  cases hfind : findThread s with
  | none =>
      simp only [hfind] at hrun
      obtain ⟨rfl, rfl⟩ := finish_ok hrun
      exact .full hfind
  | some tid =>
      simp only [hfind] at hrun
      obtain ⟨thread, t₁, hthread, hrun⟩ := Prog.bind_eq_ok.mp hrun
      obtain ⟨k₁, hk₁, rfl⟩ := kmalloc_ok hthread
      rw [Prog.bind_ok (run_onSched _)] at hrun
      by_cases hz : thread = 0
      · subst hz
        rw [if_pos rfl, Prog.bind_ok (run_ERROR _)] at hrun
        obtain ⟨rfl, rfl⟩ := finish_ok hrun
        exact .refused hfind hk₁
      · rw [if_neg hz, if_neg hz] at hrun
        -- only a thread of process 0 gets a stack of the kernel
        by_cases hpid : s.cpu.pid = 0
        · rw [if_pos hpid, Prog.bind_ok (run_onSched _), Prog.bind_ok (run_onSched _),
            setThread_setSlot, setThread_setSlot] at hrun
          obtain ⟨stack, t₂, hstack, hrun⟩ := Prog.bind_eq_ok.mp hrun
          obtain ⟨k₂, hk₂, rfl⟩ := kmalloc_ok hstack
          rw [Prog.bind_ok (run_onSched _), setThread_setSlot] at hrun
          by_cases hsz : stack = 0
          · subst hsz
            rw [if_pos rfl, if_pos rfl, Prog.bind_ok (run_ERROR _)] at hrun
            obtain ⟨_, t₃, hfree, hrun⟩ := Prog.bind_eq_ok.mp hrun
            obtain ⟨k₃, hk₃, rfl⟩ := kfree_ok hfree
            obtain ⟨rfl, rfl⟩ := finish_ok hrun
            exact .noStack hfind hk₁ hz hpid hk₂ hk₃
          · rw [if_neg hsz, if_neg hsz] at hrun
            obtain ⟨rfl, rfl⟩ := startThread_ok (fun y => Function.update_idem _ _ _) hrun
            exact .kernel hfind hk₁ hz hpid hk₂ hsz
        · rw [if_neg hpid, Prog.bind_ok (run_onSched _), Prog.bind_ok (run_onSched _),
            setThread_setSlot, setThread_setSlot] at hrun
          obtain ⟨rfl, rfl⟩ := startThread_ok (fun y => rfl) hrun
          exact .user hfind hk₁ hz hpid

/-- **Each of them is taken**, when `sched_mutex` is free. -/
theorem createThread_of_call {t t' : Tracked} {entry : Nat} {r : Option Nat}
    (hcall : ThreadCall entry t r t') (hfree : t.kernel.mutexes .sched_mutex = false) :
    Tracked.createThread entry t = .ok (r, t') := by
  obtain ⟨⟨k, s⟩, own, others, printed⟩ := t
  have hacquire : onSystem (onKernel (acquire .sched_mutex)) ⟨⟨k, s⟩, own, others, printed⟩
      = .ok ((), ⟨⟨k.lock .sched_mutex, s⟩, own, others, printed⟩) :=
    run_onKernel (acquire_free hfree)
  have hcalloc : ∀ {thread k₁}, Kernel.kcalloc SIZEOF_THREAD 1 (k.lock .sched_mutex)
      = .ok (thread, k₁) → Tracked.kcalloc SIZEOF_THREAD 1 ⟨⟨k.lock .sched_mutex, s⟩, own, others,
        printed⟩ = .ok (thread, ⟨⟨k₁, s⟩, if thread = 0 then own else threadBlock thread :: own,
          others, printed⟩) := run_kmalloc
  -- each constructor names the calls that are made, so the run goes through them in their order
  rw [Tracked.createThread, Prog.bind_ok hacquire, Prog.bind_ok (Prog.run_get _)]
  cases hcall with
  | full hfind =>
      simp only [hfind]
      rfl
  | refused hfind hthread =>
      simp only [hfind]
      rw [Prog.bind_ok (hcalloc hthread), Prog.bind_ok (run_onSched _)]
      rfl
  | noStack hfind hthread hne hpid hstack hkfree =>
      have hpid' : s.cpu.pid = 0 := hpid
      simp only [hfind]
      rw [Prog.bind_ok (hcalloc hthread), Prog.bind_ok (run_onSched _),
        if_neg hne, if_neg hne, if_pos hpid', Prog.bind_ok (run_onSched _),
        Prog.bind_ok (run_onSched _), setThread_setSlot, setThread_setSlot,
        Prog.bind_ok (run_kmalloc hstack), Prog.bind_ok (run_onSched _), setThread_setSlot,
        if_pos rfl, if_pos rfl, Prog.bind_ok (run_ERROR _), Prog.bind_ok (run_kfree hkfree)]
      rfl
  | @kernel tid thread stack k₁ k₂ hfind hthread hne hpid hstack hsne =>
      have hpid' : s.cpu.pid = 0 := hpid
      simp only [hfind]
      rw [Prog.bind_ok (hcalloc hthread), Prog.bind_ok (run_onSched _),
        if_neg hne, if_neg hne, if_pos hpid', Prog.bind_ok (run_onSched _),
        Prog.bind_ok (run_onSched _), setThread_setSlot, setThread_setSlot,
        Prog.bind_ok (run_kmalloc hstack), Prog.bind_ok (run_onSched _), setThread_setSlot,
        if_neg hsne, if_neg hsne]
      exact run_startThread_fresh fun y => Function.update_idem _ _ _
  | user hfind hthread hne hpid =>
      have hpid' : ¬ s.cpu.pid = 0 := hpid
      simp only [hfind]
      rw [Prog.bind_ok (hcalloc hthread), Prog.bind_ok (run_onSched _),
        if_neg hne, if_neg hne, if_neg hpid', Prog.bind_ok (run_onSched _),
        Prog.bind_ok (run_onSched _), setThread_setSlot, setThread_setSlot]
      exact run_startThread_fresh fun y => rfl

end Tracked

/-! ### `create_process` -/

/-- The registers in the order in which `create_process` sets them. -/
theorem context_process (rip rsp cs ds : Nat) :
    Function.update (Function.update (Function.update (Function.update (Function.update (fun _ => 0)
      Context.rflags 0x202) Context.rip rip) Context.rsp rsp) Context.cs cs) Context.ds ds
        = Context.fresh rip rsp cs ds := by
  funext r
  fin_cases r <;> rfl

/-- The registers of a thread without a stack. -/
theorem context_stackless (rip : Nat) :
    Function.update (Function.update (fun _ => 0) Context.rflags 0x202) Context.rip rip
      = Context.fresh rip 0 0 0 := by
  funext r
  fin_cases r <;> rfl

theorem setProcess_setProcess (s : Sched) (i : Nat) (f g : Process → Process) :
    (s.setProcess i f).setProcess i g = s.setProcess i fun p => g (f p) := by
  simp [Sched.setProcess]

/-- The entry in the order in which `create_process` fills it in. -/
theorem process_filled (s : Sched) (pid cr3 threads thread : Nat) (context : Context) :
    { ((s.setProcess pid fun p => { p with
        cr3 := cr3, thread_count := 1, threads := threads, slots := fun _ => .empty }).setSlot pid 0
          fun _ => ⟨thread, ⟨context, .THREAD_IDLE⟩⟩).setProcess pid fun p => { p with
            valid := true, thread_count := 1 } with
      running_processes := u64 (s.running_processes + 1) }
      = s.addProcess pid (.fresh cr3 threads thread context) := by
  simp [Sched.addProcess, Sched.setSlot, Sched.setProcess, Process.fresh]

namespace Tracked

/-- The stack of a thread in a new slot. -/
theorem createStack_ok {k : State} {s : Sched} {own others : List Block} {printed : List String}
    {t' : Tracked} {pid thread : Nat} {x : Thread} {done : Bool}
    (hrun : Tracked.createStack pid ⟨⟨k, s.setSlot pid 0 fun _ => ⟨thread, x⟩⟩, own, others, printed⟩
      = .ok (done, t')) :
    (s.running_processes = 0 ∧ ∃ stack k', Kernel.kmalloc THREAD_STACK k = .ok (stack, k') ∧
      ((stack = 0 ∧ done = false ∧ t' = ⟨⟨k', s.setSlot pid 0 fun _ =>
          ⟨thread, x.setReg Context.rsp 0⟩⟩, own, others, printed ++ [PROCESS_NO_MEMORY]⟩) ∨
        (stack ≠ 0 ∧ done = true ∧ t' = ⟨⟨k', s.setSlot pid 0 fun _ => ⟨thread, ((x.setReg
          Context.rsp (u64 (stack + THREAD_STACK))).setReg Context.cs KCODE_SEGMENT).setReg
            Context.ds KDATA_SEGMENT⟩⟩, stackBlock stack :: own, others, printed⟩))) ∨
    (s.running_processes ≠ 0 ∧ done = true ∧ t' = ⟨⟨k, s.setSlot pid 0 fun _ => ⟨thread, x⟩⟩, own,
      others, printed⟩) := by
  rw [Tracked.createStack, Prog.bind_ok (Prog.run_get _)] at hrun
  have hcount : (s.setSlot pid 0 fun _ => ⟨thread, x⟩).running_processes = s.running_processes := rfl
  rw [hcount] at hrun
  -- only the first process gets a stack of the kernel
  by_cases hfirst : s.running_processes = 0
  · rw [if_pos hfirst] at hrun
    obtain ⟨stack, t₁, hstack, hrun⟩ := Prog.bind_eq_ok.mp hrun
    obtain ⟨k', hk', rfl⟩ := kmalloc_ok hstack
    rw [Prog.bind_ok (run_onSched _), setThread_setSlot] at hrun
    refine Or.inl ⟨hfirst, stack, k', hk', ?_⟩
    by_cases hz : stack = 0
    · subst hz
      rw [if_pos rfl, if_pos rfl, Prog.bind_ok (run_ERROR _)] at hrun
      obtain ⟨rfl, rfl⟩ := Prod.mk.inj (Except.ok.inj hrun)
      exact Or.inl ⟨rfl, rfl, rfl⟩
    · rw [if_neg hz, if_neg hz, Prog.bind_ok (run_onSched _), Prog.bind_ok (run_onSched _),
        Prog.bind_ok (run_onSched _), setThread_setSlot, setThread_setSlot, setThread_setSlot] at hrun
      obtain ⟨rfl, rfl⟩ := Prod.mk.inj (Except.ok.inj hrun)
      refine Or.inr ⟨hz, rfl, ?_⟩
      simp only [Thread.setReg, Function.update_idem]
      rfl
  · rw [if_neg hfirst] at hrun
    obtain ⟨rfl, rfl⟩ := Prod.mk.inj (Except.ok.inj hrun)
    exact Or.inr ⟨hfirst, rfl, rfl⟩

/-- **Every way that `create_process` returns.** -/
theorem createProcess_cases {t t' : Tracked} {entry : Nat} {r : Option Nat}
    (hrun : Tracked.createProcess entry t = .ok (r, t')) : ProcessCall entry t r t' := by
  obtain ⟨⟨k, s⟩, own, others, printed⟩ := t
  rw [Tracked.createProcess] at hrun
  obtain ⟨_, t₀, hacquire, hrun⟩ := Prog.bind_eq_ok.mp hrun
  obtain rfl := acquire_ok hacquire
  rw [Prog.bind_ok (Prog.run_get _)] at hrun
  cases hfind : findProcess s with
  | none =>
      simp only [hfind] at hrun
      rw [Prog.bind_ok (run_ERROR _)] at hrun
      obtain ⟨rfl, rfl⟩ := finish_ok hrun
      exact .full hfind
  | some pid =>
      simp only [hfind] at hrun
      obtain ⟨cr3, t₁, hroot, hrun⟩ := Prog.bind_eq_ok.mp hrun
      obtain ⟨k₁, hk₁, rfl⟩ := onKernel_ok hroot
      rw [Prog.bind_ok (run_onSched _)] at hrun
      -- `vmm_new_pml4` has no page: only the cleared slot is left behind
      by_cases hcr3 : cr3 = 0
      · subst hcr3
        rw [if_pos rfl, Prog.bind_ok (run_ERROR _)] at hrun
        obtain ⟨rfl, rfl⟩ := finish_ok hrun
        exact .noRoot hfind (fun _ => rfl) hk₁
      · rw [if_neg hcr3, Prog.bind_ok (run_onSched _), setProcess_setProcess] at hrun
        obtain ⟨threads, t₂, htable, hrun⟩ := Prog.bind_eq_ok.mp hrun
        obtain ⟨k₂, hk₂, rfl⟩ := kmalloc_ok htable
        rw [Prog.bind_ok (run_onSched _), setProcess_setProcess] at hrun
        -- from here on each failure frees what the calls before it have allocated
        by_cases hthreads : threads = 0
        · subst hthreads
          rw [if_pos rfl, Prog.bind_ok (run_ERROR _)] at hrun
          obtain ⟨_, t₃, hpage, hrun⟩ := Prog.bind_eq_ok.mp hrun
          obtain ⟨k₃, hk₃, rfl⟩ := onKernel_ok hpage
          obtain ⟨rfl, rfl⟩ := finish_ok hrun
          exact .noTable hfind (fun _ => rfl) hk₁ hcr3 hk₂ hk₃
        · rw [if_neg hthreads, if_neg hthreads] at hrun
          obtain ⟨thread, t₃, hthread, hrun⟩ := Prog.bind_eq_ok.mp hrun
          obtain ⟨k₃, hk₃, rfl⟩ := kmalloc_ok hthread
          rw [Prog.bind_ok (run_onSched _)] at hrun
          by_cases hz : thread = 0
          · subst hz
            rw [if_pos rfl, if_pos rfl, Prog.bind_ok (run_ERROR _)] at hrun
            obtain ⟨_, t₄, hpage, hrun⟩ := Prog.bind_eq_ok.mp hrun
            obtain ⟨k₄, hk₄, rfl⟩ := onKernel_ok hpage
            obtain ⟨_, t₅, hfree, hrun⟩ := Prog.bind_eq_ok.mp hrun
            obtain ⟨k₅, hk₅, rfl⟩ := kfree_ok hfree
            obtain ⟨rfl, rfl⟩ := finish_ok hrun
            rw [Sched.setSlot, setProcess_setProcess]
            exact .noThread hfind (fun _ => rfl) hk₁ hcr3 hk₂ hthreads hk₃ hk₄ hk₅
          · rw [if_neg hz, if_neg hz, Prog.bind_ok (run_onSched _), Prog.bind_ok (run_onSched _),
              setThread_setSlot, setThread_setSlot] at hrun
            obtain ⟨done, t₄, hstack, hrun⟩ := Prog.bind_eq_ok.mp hrun
            -- only the first process gets a stack of its own, and only it can still fail
            rcases createStack_ok hstack with
              ⟨hfirst, stack, k₄, hk₄, ⟨rfl, rfl, rfl⟩ | ⟨hsne, rfl, rfl⟩⟩ | ⟨hlater, rfl, rfl⟩
            · rw [if_neg Bool.false_ne_true] at hrun
              obtain ⟨_, t₅, hpage, hrun⟩ := Prog.bind_eq_ok.mp hrun
              obtain ⟨k₅, hk₅, rfl⟩ := onKernel_ok hpage
              obtain ⟨_, t₆, hfree, hrun⟩ := Prog.bind_eq_ok.mp hrun
              obtain ⟨k₆, hk₆, rfl⟩ := kfree_ok hfree
              obtain ⟨_, t₇, hfree', hrun⟩ := Prog.bind_eq_ok.mp hrun
              obtain ⟨k₇, hk₇, rfl⟩ := kfree_ok hfree'
              obtain ⟨rfl, rfl⟩ := finish_ok hrun
              rw [Sched.setSlot, setProcess_setProcess]
              exact .noStack hfind (fun _ => rfl) hk₁ hcr3 hk₂ hthreads hk₃ hz hfirst hk₄ hk₅ hk₆ hk₇
            · rw [if_pos rfl, Prog.bind_ok (run_onSched _), Prog.bind_ok (run_onSched _),
                Prog.bind_ok (run_onSched _), setThread_setSlot] at hrun
              obtain ⟨rfl, rfl⟩ := finish_ok hrun
              have hend : ProcessCall entry ⟨⟨k, s⟩, own, others, printed⟩ _ _ :=
                .first hfind hk₁ hcr3 hk₂ hthreads hk₃ hz hfirst hk₄ hsne
              rw [← context_process, ← process_filled] at hend
              exact hend
            · rw [if_pos rfl, Prog.bind_ok (run_onSched _), Prog.bind_ok (run_onSched _),
                Prog.bind_ok (run_onSched _), setThread_setSlot] at hrun
              obtain ⟨rfl, rfl⟩ := finish_ok hrun
              have hend : ProcessCall entry ⟨⟨k, s⟩, own, others, printed⟩ _ _ :=
                .later hfind hk₁ hcr3 hk₂ hthreads hk₃ hz hlater
              rw [← context_stackless, ← process_filled] at hend
              exact hend

end Tracked

end Windozz.Kernel

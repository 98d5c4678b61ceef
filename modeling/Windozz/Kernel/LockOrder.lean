import Windozz.Basic.Routines
import Windozz.Kernel.Locks

set_option autoImplicit false

/-! # The order of the mutexes

The functions under a mutex, beside each other: on any number of processors, or in threads that are
preempted. Each is a routine with its calls of `acquire` and `release`, also those of the debug
output, and run alone it is the function of the other modules (`run_callRoutine`).

They all take `sched_mutex`, `heap_mutex`, `vmm_mutex`, `pmm_mutex` and `e9_mutex` in this order
(`orderly_callRoutine`), so while one waits, one of those that hold a mutex goes on, or it has
stopped: on a fault, in an endless loop, or without a page (`calls_progress`).
-/

namespace Windozz.Kernel

/-! ## The functions -/

/-- The mutexes, with that of the debug output. -/
inductive Lock
  | mutex (m : Mutex)
  | e9_mutex
  deriving DecidableEq

namespace Beside

/-- A function of the memory manager, beside others. -/
abbrev R (α : Type) := Routine Lock State Stop α

/-- What the mutexes do to the state. The debug output is no part of it. -/
def take : Lock → K PUnit
  | .mutex m => acquire m
  | .e9_mutex => pure ()

def give : Lock → K PUnit
  | .mutex m => release m
  | .e9_mutex => pure ()

/-- `acquire`. -/
def lock (m : Mutex) : R Unit := Routine.lock (.mutex m)

/-- `release`. -/
def unlock (m : Mutex) : R Unit := Routine.unlock (.mutex m)

/-- `debug_printf`. -/
def debugPrintf : R Unit := do
  Routine.lock .e9_mutex
  Routine.unlock .e9_mutex

/-- `pmm_alloc_page`. -/
def pmmAllocPage : R Nat := do
  lock .pmm_mutex
  let s ← Routine.lift get
  match pmmFindPage s.pmm with
  | none => Routine.stop .hang
  | some page =>
      if page = 0 then do
        Routine.kept
        pure 0
      else do
        Routine.lift (modify fun s => { s with pmm := pmmMarkPageUsed page s.pmm })
        unlock .pmm_mutex
        pure page

/-- `pmm_free_page`. -/
def pmmFreePage (page : Nat) : R Unit := do
  lock .pmm_mutex
  Routine.lift (modify fun s => { s with pmm := pmmMarkPageFree page s.pmm })
  unlock .pmm_mutex

/-- One level of `vmm_map_page`. -/
def vmmNextTable (table index : Nat) : R Nat := do
  let s ← Routine.lift get
  let ptr := entry s.mem table index
  if ptr &&& PAGE_PRESENT = 0 then do
    let ptr ← pmmAllocPage
    if ptr = 0 then do
      debugPrintf
      Routine.stop .hang
    else do
      Routine.lift (modify fun s => { s with
        mem := s.mem.setQword (table + 8 * index)
          (ptr ||| PAGE_PRESENT ||| PAGE_WRITE ||| PAGE_USER) })
      Routine.lift (modify fun s => { s with mem := clear s.mem ptr PAGE_SIZE })
      pure (pageMask ptr)
  else pure (pageMask ptr)

/-- `vmm_map_page`. -/
def vmmMapPage (virtual physical flags : Nat) : R Unit := do
  let virtual := virtual &&& 0xFFFFFFFFFFFF
  let s ← Routine.lift get
  let pdpt ← vmmNextTable (pageMask s.cr3) (tableIndex 39 virtual)
  let pd ← vmmNextTable pdpt (tableIndex 30 virtual)
  let pt ← vmmNextTable pd (tableIndex 21 virtual)
  Routine.lift (modify fun s => { s with
    mem := s.mem.setQword (pt + 8 * tableIndex 12 virtual) (physical ||| flags) })

/-- The loop of `vmm_alloc`. -/
def allocLoop (ptr flags : Nat) : Nat → Nat → R Bool
  | 0, _ => pure true
  | n + 1, i => do
      let phys ← pmmAllocPage
      if phys = 0 then pure false
      else do
        vmmMapPage (pageAt ptr i) phys flags
        allocLoop ptr flags n (i + 1)

/-- `vmm_alloc`. -/
def vmmAlloc (start count flags : Nat) : R Nat := do
  let s ← Routine.lift get
  if u64 (s.pmm.total_pages + (2 ^ 64 - u64 s.pmm.used_pages)) ≤ count then pure 0
  else
    match vmmFind start count s with
    | none => Routine.stop .hang
    | some ptr =>
        if ptr = 0 then pure 0
        else do
          lock .vmm_mutex
          let done ← allocLoop ptr flags count 0
          unlock .vmm_mutex
          if done then pure ptr else pure 0

/-- The loop of `vmm_free`. -/
def freeLoop (virtual : Nat) : Nat → Nat → R Unit
  | 0, _ => pure ()
  | n + 1, i => do
      let s ← Routine.lift get
      match vmmGetPhysical (pageAt virtual i) s with
      | some phys => do
          pmmFreePage phys
          vmmMapPage (pageAt virtual i) 0 0
          freeLoop virtual n (i + 1)
      | none => freeLoop virtual n (i + 1)

/-- `vmm_free`. -/
def vmmFree (virtual count : Nat) : R Unit := do
  lock .vmm_mutex
  freeLoop virtual count 0
  unlock .vmm_mutex

/-- The loop of `vmm_create_mmio`. -/
def mmioLoop (virtual physical : Nat) : Nat → Nat → R Unit
  | 0, _ => pure ()
  | n + 1, i => do
      vmmMapPage (pageAt virtual i) (pageAt physical i) MMIO_FLAGS
      mmioLoop virtual physical n (i + 1)

/-- `vmm_create_mmio`. -/
def vmmCreateMmio (physical pages : Nat) (name : List UInt8) : R Nat := do
  lock .vmm_mutex
  let s ← Routine.lift get
  match vmmFind MMIO_REGION pages s with
  | none => Routine.stop .hang
  | some virtual =>
      if virtual = 0 then do
        debugPrintf
        Routine.stop .hang
      else do
        mmioLoop virtual physical pages 0
        Routine.lift (recordRegion virtual physical pages name)
        unlock .vmm_mutex
        pure virtual

/-- `kmalloc`. -/
def kmalloc (n : Nat) : R Nat := do
  lock .heap_mutex
  let act_size := u64 (n + 16)
  let pages := u64 (act_size + 4095) / 4096
  let ptr ← vmmAlloc KERNEL_HEAP pages KERNEL_HEAP_FLAGS
  if ptr = 0 then do
    unlock .heap_mutex
    pure 0
  else do
    Routine.lift (memset ptr act_size)
    Routine.lift (storeQword ptr pages)
    Routine.lift (storeQword (u64 (ptr + 8)) n)
    unlock .heap_mutex
    pure (u64 (ptr + 16))

/-- `kcalloc`. -/
def kcalloc (n1 n2 : Nat) : R Nat := kmalloc (u64 (n1 * n2))

/-- `kfree`. -/
def kfree (ptr : Nat) : R Unit := do
  let pages ← Routine.lift (loadQword (u64 (ptr + (2 ^ 64 - 16))))
  vmmFree (pageMask ptr) pages

/-- `krealloc`. -/
def krealloc (old new_size : Nat) : R Nat := do
  let new ← kmalloc new_size
  if new = 0 then pure 0
  else if old = 0 then pure new
  else do
    let size ← Routine.lift (loadQword (u64 (u64 (old + (2 ^ 64 - 16)) + 8)))
    Routine.lift (memcpy new old size)
    kfree old
    pure new

/-! ### Processes and threads -/

/-- A function of the scheduler, beside others. -/
abbrev RS (α : Type) := Routine Lock System Stop α

/-- A call of a function of the memory manager. -/
def onKernel {α : Type} (r : R α) : RS α := r.on System.kernel fun k s => { s with kernel := k }

/-- An assignment to the globals of the scheduler. -/
def onSched (f : Sched → Sched) : RS Unit := Routine.lift (Kernel.onSched f)

/-- The page-table root of a new process. -/
def newPml4 : R Nat := do
  let cr3 ← pmmAllocPage
  if cr3 = 0 then pure 0
  else do
    Routine.lift (copyEntry cr3 256)
    Routine.lift (copyEntry cr3 257)
    Routine.lift (copyEntry cr3 258)
    pure cr3

/-- The stack of the thread, if it is the first one of all. -/
def createStack (pid : Nat) : RS Bool := do
  let s ← Routine.lift get
  if s.sched.running_processes = 0 then do
    let rsp ← onKernel (kmalloc THREAD_STACK)
    onSched (.setThread pid 0 (.setReg Context.rsp rsp))
    if rsp = 0 then pure false
    else do
      onSched (.setThread pid 0 (.setReg Context.rsp (u64 (rsp + THREAD_STACK))))
      onSched (.setThread pid 0 (.setReg Context.cs KCODE_SEGMENT))
      onSched (.setThread pid 0 (.setReg Context.ds KDATA_SEGMENT))
      pure true
  else pure true

/-- A failure with the mutex held: the message, what is given back, and the return value. -/
def giveUp (undo : R Unit) : RS (Option Nat) := do
  onKernel debugPrintf
  onKernel undo
  onKernel (unlock .sched_mutex)
  pure none

/-- `create_process`. -/
def createProcess (entry : Nat) : RS (Option Nat) := do
  onKernel (lock .sched_mutex)
  let s ← Routine.lift get
  match findProcess s.sched with
  | none => giveUp (pure ())
  | some pid => do
      let cr3 ← onKernel newPml4
      onSched (.setProcess pid fun p => { p with cr3 := cr3 })
      if cr3 = 0 then giveUp (pure ())
      else do
        onSched (.setProcess pid fun p => { p with thread_count := 1 })
        let threads ← onKernel (kcalloc SIZEOF_POINTER MAX_THREADS)
        onSched (.setProcess pid fun p => { p with threads := threads, slots := fun _ => .empty })
        if threads = 0 then giveUp (pmmFreePage cr3)
        else do
          let thread ← onKernel (kcalloc SIZEOF_THREAD 1)
          onSched (.setSlot pid 0 fun _ => ⟨thread, .zero⟩)
          if thread = 0 then giveUp do
            pmmFreePage cr3
            kfree threads
          else do
            onSched (.setThread pid 0 (.setReg Context.rflags 0x202))
            onSched (.setThread pid 0 (.setReg Context.rip entry))
            let done ← createStack pid
            if done then do
              onSched (.setThread pid 0 fun t => { t with status := .THREAD_IDLE })
              onSched (.setProcess pid fun p => { p with valid := true, thread_count := 1 })
              onSched fun s => { s with running_processes := u64 (s.running_processes + 1) }
              onKernel debugPrintf
              onKernel (unlock .sched_mutex)
              pure (some pid)
            else giveUp do
              pmmFreePage cr3
              kfree thread
              kfree threads

/-- `create_thread`. -/
def createThread (entry : Nat) : RS (Option Nat) := do
  onKernel (lock .sched_mutex)
  let s ← Routine.lift get
  let pid := s.sched.cpu.pid
  match findThread s.sched with
  | none => giveUp (pure ())
  | some tid => do
      let thread ← onKernel (kcalloc SIZEOF_THREAD 1)
      onSched (.setSlot pid tid fun _ => ⟨thread, .zero⟩)
      if thread = 0 then giveUp (pure ())
      else do
        if pid = 0 then do
          onSched (.setThread pid tid (.setReg Context.cs KCODE_SEGMENT))
          onSched (.setThread pid tid (.setReg Context.ds KDATA_SEGMENT))
          let rsp ← onKernel (kmalloc THREAD_STACK)
          onSched (.setThread pid tid (.setReg Context.rsp rsp))
          if rsp = 0 then giveUp (kfree thread)
          else startThread entry pid tid rsp
        else do
          onSched (.setThread pid tid (.setReg Context.cs UCODE_SEGMENT))
          onSched (.setThread pid tid (.setReg Context.ds UDATA_SEGMENT))
          startThread entry pid tid 0
where
  /-- The end of `create_thread`. -/
  startThread (entry pid tid rsp : Nat) : RS (Option Nat) := do
    onSched (.setThread pid tid (.setReg Context.rsp (u64 (rsp + THREAD_STACK))))
    onSched (.setThread pid tid (.setReg Context.rflags 0x202))
    onSched (.setThread pid tid (.setReg Context.rip entry))
    onSched (.setThread pid tid fun t => { t with status := .THREAD_IDLE })
    onSched (.setProcess pid fun p => { p with thread_count := u64 (p.thread_count + 1) })
    onKernel (unlock .sched_mutex)
    pure (some 0)

/-! ### Run alone -/

@[simp] theorem run_lock (m : Mutex) : (lock m).run take give = acquire m :=
  Routine.run_lock take give (.mutex m)

@[simp] theorem run_unlock (m : Mutex) : (unlock m).run take give = release m :=
  Routine.run_unlock take give (.mutex m)

@[simp] theorem run_debugPrintf : debugPrintf.run take give = pure () := rfl

/-- A branch. -/
theorem run_ite {α : Type} (p : Prop) [Decidable p] (r r' : R α) :
    (if p then r else r').run take give = if p then r.run take give else r'.run take give :=
  apply_ite (fun r : R α => r.run take give) p r r'

@[simp] theorem run_pmmAllocPage : pmmAllocPage.run take give = Kernel.pmmAllocPage := by
  simp only [pmmAllocPage, Kernel.pmmAllocPage, Routine.run_bind, run_lock, Routine.run_lift]
  refine bind_congr fun _ => bind_congr fun s => ?_
  cases pmmFindPage s.pmm with
  | none => rfl
  | some page => simp [run_ite]

@[simp] theorem run_pmmFreePage (page : Nat) :
    (pmmFreePage page).run take give = Kernel.pmmFreePage page := by
  simp [pmmFreePage, Kernel.pmmFreePage]

@[simp] theorem run_vmmNextTable (table index : Nat) :
    (vmmNextTable table index).run take give = Kernel.vmmNextTable table index := by
  simp [vmmNextTable, Kernel.vmmNextTable, run_ite]

@[simp] theorem run_vmmMapPage (virtual physical flags : Nat) :
    (vmmMapPage virtual physical flags).run take give = Kernel.vmmMapPage virtual physical flags := by
  simp [vmmMapPage, Kernel.vmmMapPage]

@[simp] theorem run_allocLoop (ptr flags n : Nat) : ∀ i,
    (allocLoop ptr flags n i).run take give = Kernel.allocLoop ptr flags n i := by
  induction n with
  | zero => exact fun _ => rfl
  | succ n ih => simp [allocLoop, Kernel.allocLoop, run_ite, ih]

@[simp] theorem run_vmmAlloc (start count flags : Nat) :
    (vmmAlloc start count flags).run take give = Kernel.vmmAlloc start count flags := by
  simp only [vmmAlloc, Kernel.vmmAlloc, Routine.run_bind, Routine.run_lift, run_ite]
  congr 1
  funext s
  congr 1
  cases vmmFind start count s with
  | none => rfl
  | some ptr => simp [run_ite]

@[simp] theorem run_freeLoop (virtual n : Nat) : ∀ i,
    (freeLoop virtual n i).run take give = Kernel.freeLoop virtual n i := by
  induction n with
  | zero => exact fun _ => rfl
  | succ n ih =>
      intro i
      simp only [freeLoop, Kernel.freeLoop, Routine.run_bind, Routine.run_lift]
      congr 1
      funext s
      cases vmmGetPhysical (pageAt virtual i) s with
      | none => exact ih (i + 1)
      | some phys => simp [ih]

@[simp] theorem run_vmmFree (virtual count : Nat) :
    (vmmFree virtual count).run take give = Kernel.vmmFree virtual count := by
  simp [vmmFree, Kernel.vmmFree]

@[simp] theorem run_mmioLoop (virtual physical n : Nat) : ∀ i,
    (mmioLoop virtual physical n i).run take give = Kernel.mmioLoop virtual physical n i := by
  induction n with
  | zero => exact fun _ => rfl
  | succ n ih => simp [mmioLoop, Kernel.mmioLoop, ih]

@[simp] theorem run_vmmCreateMmio (physical pages : Nat) (name : List UInt8) :
    (vmmCreateMmio physical pages name).run take give
      = Kernel.vmmCreateMmio physical pages name := by
  simp only [vmmCreateMmio, Kernel.vmmCreateMmio, Routine.run_bind, run_lock, Routine.run_lift]
  refine bind_congr fun _ => bind_congr fun s => ?_
  cases vmmFind MMIO_REGION pages s with
  | none => rfl
  | some virtual => simp [run_ite]

@[simp] theorem run_kmalloc (n : Nat) : (kmalloc n).run take give = Kernel.kmalloc n := by
  simp [kmalloc, Kernel.kmalloc, run_ite]

@[simp] theorem run_kcalloc (n1 n2 : Nat) :
    (kcalloc n1 n2).run take give = Kernel.kcalloc n1 n2 := run_kmalloc _

@[simp] theorem run_kfree (ptr : Nat) : (kfree ptr).run take give = Kernel.kfree ptr := by
  simp [kfree, Kernel.kfree]

@[simp] theorem run_krealloc (old new_size : Nat) :
    (krealloc old new_size).run take give = Kernel.krealloc old new_size := by
  simp [krealloc, Kernel.krealloc, run_ite]

/-- What the mutexes do to the system. -/
def takeS (m : Lock) : S PUnit := Kernel.onKernel (take m)

def giveS (m : Lock) : S PUnit := Kernel.onKernel (give m)

theorem onPart_kernel {α : Type} (p : K α) :
    Routine.onPart System.kernel (fun k s => { s with kernel := k }) p = Kernel.onKernel p := by
  funext s
  simp only [Routine.onPart, Kernel.onKernel]
  cases p s.kernel with
  | ok x => rfl
  | error e => rfl

@[simp] theorem run_onKernel {α : Type} (r : R α) :
    (onKernel r).run takeS giveS = Kernel.onKernel (r.run take give) := by
  have h := @Routine.run_on Lock State System Stop α take give System.kernel
    (fun k s => { s with kernel := k }) (fun _ _ => rfl) (fun _ _ _ => rfl) (fun _ => rfl) r
  simp only [onPart_kernel] at h
  exact h

@[simp] theorem run_onSched (f : Sched → Sched) :
    (onSched f).run takeS giveS = Kernel.onSched f := Routine.run_lift takeS giveS _

theorem runS_ite {α : Type} (p : Prop) [Decidable p] (r r' : RS α) :
    (if p then r else r').run takeS giveS = if p then r.run takeS giveS else r'.run takeS giveS :=
  apply_ite (fun r : RS α => r.run takeS giveS) p r r'

@[simp] theorem onKernel_pure : Kernel.onKernel (pure () : K Unit) = pure () := rfl

theorem onKernel_bind {α β : Type} (p : K α) (q : α → K β) :
    Kernel.onKernel (p >>= q) = Kernel.onKernel p >>= fun a => Kernel.onKernel (q a) := by
  funext s
  simp only [Kernel.onKernel, Prog.run_bind]
  cases p s.kernel with
  | ok x => rfl
  | error e => rfl

@[simp] theorem run_newPml4 : newPml4.run take give = Kernel.newPml4 := by
  simp [newPml4, Kernel.newPml4, run_ite]

@[simp] theorem run_createStack (pid : Nat) :
    (createStack pid).run takeS giveS = Kernel.createStack pid := by
  simp [createStack, Kernel.createStack, runS_ite]

@[simp] theorem run_giveUp (undo : R Unit) : (giveUp undo).run takeS giveS = (do
    Kernel.onKernel (undo.run take give)
    Kernel.onKernel (release .sched_mutex)
    pure none) := by
  simp [giveUp]

@[simp] theorem run_createProcess (entry : Nat) :
    (createProcess entry).run takeS giveS = Kernel.createProcess entry := by
  simp only [createProcess, Kernel.createProcess, Routine.run_bind, run_onKernel, run_lock,
    Routine.run_lift]
  refine bind_congr fun _ => bind_congr fun s => ?_
  cases findProcess s.sched with
  | none => simp
  | some pid => simp [runS_ite, onKernel_bind]

@[simp] theorem run_createThread (entry : Nat) :
    (createThread entry).run takeS giveS = Kernel.createThread entry := by
  simp only [createThread, Kernel.createThread, Routine.run_bind, run_onKernel, run_lock,
    Routine.run_lift]
  refine bind_congr fun _ => bind_congr fun s => ?_
  cases findThread s.sched with
  | none => simp
  | some tid =>
      simp [runS_ite, createThread.startThread, Kernel.createThread.startThread]

/-! ### The order -/

/-- The order in which the mutexes are taken. -/
def rank : Lock → Nat
  | .mutex .sched_mutex => 0
  | .mutex .heap_mutex => 1
  | .mutex .vmm_mutex => 2
  | .mutex .pmm_mutex => 3
  | .e9_mutex => 4

section Orderly

open Routine

variable {held : Finset Lock}

theorem orderly_debugPrintf (h : Above rank .e9_mutex held) :
    debugPrintf.Orderly rank held held := h.lock (h.unlock (orderly_pure ()))

section Pmm

variable (h : Above rank (.mutex .pmm_mutex) held)
include h

theorem orderly_pmmAllocPage : pmmAllocPage.Orderly rank held held := by
  refine h.lock (orderly_after fun s => ?_)
  cases pmmFindPage s.pmm with
  | none => exact orderly_stop _
  | some page =>
      show (if page = 0 then _ else _ : R Nat).Orderly rank _ held
      split
      · -- the mutex stays
        exact orderly_kept
      · exact orderly_after fun _ => h.unlock (orderly_pure page)

theorem orderly_pmmFreePage (page : Nat) : (pmmFreePage page).Orderly rank held held :=
  h.lock (orderly_after fun _ => h.unlock (orderly_pure ()))

theorem orderly_vmmNextTable (table index : Nat) :
    (vmmNextTable table index).Orderly rank held held := by
  refine orderly_after fun s => ?_
  dsimp only
  split
  · refine .bind (orderly_pmmAllocPage h) fun ptr => ?_
    split
    · exact .bind (orderly_debugPrintf (h.mono (by decide))) fun _ => orderly_stop _
    · exact orderly_after fun _ => orderly_after fun _ => orderly_pure _
  · exact orderly_pure _

theorem orderly_vmmMapPage (virtual physical flags : Nat) :
    (vmmMapPage virtual physical flags).Orderly rank held held := by
  refine orderly_after fun s => ?_
  refine .bind (orderly_vmmNextTable h _ _) fun pdpt => ?_
  refine .bind (orderly_vmmNextTable h _ _) fun pd => ?_
  exact .bind (orderly_vmmNextTable h _ _) fun pt => orderly_lift _

theorem orderly_allocLoop (ptr flags n : Nat) : ∀ i,
    (allocLoop ptr flags n i).Orderly rank held held := by
  induction n with
  | zero => exact fun _ => orderly_pure true
  | succ n ih =>
      refine fun i => .bind (orderly_pmmAllocPage h) fun phys => ?_
      split
      · exact orderly_pure false
      · exact .bind (orderly_vmmMapPage h _ _ _) fun _ => ih (i + 1)

theorem orderly_freeLoop (virtual n : Nat) : ∀ i,
    (freeLoop virtual n i).Orderly rank held held := by
  induction n with
  | zero => exact fun _ => orderly_pure ()
  | succ n ih =>
      refine fun i => orderly_after fun s => ?_
      cases vmmGetPhysical (pageAt virtual i) s with
      | none => exact ih (i + 1)
      | some phys =>
          exact .bind (orderly_pmmFreePage h phys) fun _ =>
            .bind (orderly_vmmMapPage h _ _ _) fun _ => ih (i + 1)

theorem orderly_mmioLoop (virtual physical n : Nat) : ∀ i,
    (mmioLoop virtual physical n i).Orderly rank held held := by
  induction n with
  | zero => exact fun _ => orderly_pure ()
  | succ n ih => exact fun i => .bind (orderly_vmmMapPage h _ _ _) fun _ => ih (i + 1)

end Pmm

section Vmm

variable (h : Above rank (.mutex .vmm_mutex) held)
include h

theorem orderly_vmmAlloc (start count flags : Nat) :
    (vmmAlloc start count flags).Orderly rank held held := by
  have hpmm : Above rank (.mutex .pmm_mutex) (insert (.mutex .vmm_mutex) held) :=
    h.push (by decide)
  refine orderly_after fun s => ?_
  split
  · exact orderly_pure 0
  · cases vmmFind start count s with
    | none => exact orderly_stop _
    | some ptr =>
        show (if ptr = 0 then _ else _ : R Nat).Orderly rank held held
        split
        · exact orderly_pure 0
        · refine h.lock (.bind (orderly_allocLoop hpmm _ _ _ 0) fun done => h.unlock ?_)
          split
          · exact orderly_pure ptr
          · exact orderly_pure 0

theorem orderly_vmmFree (virtual count : Nat) :
    (vmmFree virtual count).Orderly rank held held :=
  h.lock (.bind (orderly_freeLoop (h.push (by decide)) _ _ 0) fun _ =>
    h.unlock (orderly_pure ()))

theorem orderly_vmmCreateMmio (physical pages : Nat) (name : List UInt8) :
    (vmmCreateMmio physical pages name).Orderly rank held held := by
  have hpmm : Above rank (.mutex .pmm_mutex) (insert (.mutex .vmm_mutex) held) :=
    h.push (by decide)
  refine h.lock (orderly_after fun s => ?_)
  cases vmmFind MMIO_REGION pages s with
  | none => exact orderly_stop _
  | some virtual =>
      show (if virtual = 0 then _ else _ : R Nat).Orderly rank _ held
      split
      · exact .bind (orderly_debugPrintf (hpmm.mono (by decide))) fun _ => orderly_stop _
      · exact .bind (orderly_mmioLoop hpmm _ _ _ 0) fun _ =>
          orderly_after fun _ => h.unlock (orderly_pure virtual)

theorem orderly_kfree (ptr : Nat) : (kfree ptr).Orderly rank held held := by
  rw [kfree]
  exact orderly_after fun pages => orderly_vmmFree h _ pages

end Vmm

section Heap

variable (h : Above rank (.mutex .heap_mutex) held)
include h

theorem orderly_kmalloc (n : Nat) : (kmalloc n).Orderly rank held held := by
  refine h.lock (.bind (orderly_vmmAlloc (h.push (by decide)) _ _ _) fun ptr => ?_)
  split
  · exact h.unlock (orderly_pure 0)
  · exact orderly_after fun _ => orderly_after fun _ =>
      orderly_after fun _ => h.unlock (orderly_pure _)

theorem orderly_kcalloc (n1 n2 : Nat) : (kcalloc n1 n2).Orderly rank held held :=
  orderly_kmalloc h _

theorem orderly_krealloc (old new_size : Nat) :
    (krealloc old new_size).Orderly rank held held := by
  refine .bind (orderly_kmalloc h _) fun new => ?_
  split
  · exact orderly_pure 0
  · split
    · exact orderly_pure new
    · refine orderly_after fun size => orderly_after fun _ => ?_
      exact .bind (orderly_kfree (h.mono (by decide)) old) fun _ => orderly_pure new

end Heap

theorem orderly_newPml4 (h : Above rank (.mutex .pmm_mutex) held) :
    newPml4.Orderly rank held held := by
  refine .bind (orderly_pmmAllocPage h) fun cr3 => ?_
  split
  · exact orderly_pure 0
  · exact orderly_after fun _ => orderly_after fun _ => orderly_after fun _ => orderly_pure cr3

theorem orderly_onKernel {α : Type} {r : R α} {after : Finset Lock}
    (hr : r.Orderly rank held after) : (onKernel r).Orderly rank held after := orderly_on _ _ hr

theorem orderly_createStack (h : Above rank (.mutex .heap_mutex) held) (pid : Nat) :
    (createStack pid).Orderly rank held held := by
  refine orderly_after fun s => ?_
  split
  · refine .bind (orderly_onKernel (orderly_kmalloc h _)) fun rsp => orderly_after fun _ => ?_
    split
    · exact orderly_pure false
    · exact orderly_after fun _ => orderly_after fun _ => orderly_after fun _ => orderly_pure true
  · exact orderly_pure true

section Sched

variable (h : Above rank (.mutex .sched_mutex) held)
include h

theorem orderly_giveUp {undo : R Unit}
    (hundo : undo.Orderly rank (insert (.mutex .sched_mutex) held)
      (insert (.mutex .sched_mutex) held)) :
    (giveUp undo).Orderly rank (insert (.mutex .sched_mutex) held) held := by
  refine .bind (orderly_onKernel (orderly_debugPrintf (h.push (by decide)))) fun _ => ?_
  refine .bind (orderly_onKernel hundo) fun _ => ?_
  exact .bind (orderly_onKernel (orderly_unlock h.notMem)) fun _ => orderly_pure none

theorem orderly_createProcess (entry : Nat) : (createProcess entry).Orderly rank held held := by
  have hheap : Above rank (.mutex .heap_mutex) (insert (.mutex .sched_mutex) held) :=
    h.push (by decide)
  have hvmm : Above rank (.mutex .vmm_mutex) (insert (.mutex .sched_mutex) held) :=
    hheap.mono (by decide)
  have hpmm : Above rank (.mutex .pmm_mutex) (insert (.mutex .sched_mutex) held) :=
    hheap.mono (by decide)
  refine .bind (orderly_onKernel (orderly_lock h)) fun _ => orderly_after fun s => ?_
  cases findProcess s.sched with
  | none => exact orderly_giveUp h (orderly_pure ())
  | some pid =>
      refine .bind (orderly_onKernel (orderly_newPml4 hpmm)) fun cr3 => orderly_after fun _ => ?_
      split
      · exact orderly_giveUp h (orderly_pure ())
      · refine orderly_after fun _ =>
          .bind (orderly_onKernel (orderly_kcalloc hheap _ _)) fun threads =>
            orderly_after fun _ => ?_
        split
        · exact orderly_giveUp h (orderly_pmmFreePage hpmm cr3)
        · refine .bind (orderly_onKernel (orderly_kcalloc hheap _ _)) fun thread =>
            orderly_after fun _ => ?_
          split
          · exact orderly_giveUp h
              (.bind (orderly_pmmFreePage hpmm cr3) fun _ => orderly_kfree hvmm threads)
          · refine orderly_after fun _ => orderly_after fun _ =>
              .bind (orderly_createStack hheap pid) fun done => ?_
            split
            · refine orderly_after fun _ => orderly_after fun _ => orderly_after fun _ => ?_
              refine .bind (orderly_onKernel (orderly_debugPrintf (hpmm.mono (by decide))))
                fun _ => ?_
              exact .bind (orderly_onKernel (orderly_unlock h.notMem)) fun _ => orderly_pure _
            · exact orderly_giveUp h (.bind (orderly_pmmFreePage hpmm cr3) fun _ =>
                .bind (orderly_kfree hvmm thread) fun _ => orderly_kfree hvmm threads)

theorem orderly_startThread (entry pid tid rsp : Nat) :
    (createThread.startThread entry pid tid rsp).Orderly rank
      (insert (.mutex .sched_mutex) held) held :=
  orderly_after fun _ => orderly_after fun _ => orderly_after fun _ => orderly_after fun _ =>
    orderly_after fun _ => .bind (orderly_onKernel (orderly_unlock h.notMem)) fun _ =>
      orderly_pure _

theorem orderly_createThread (entry : Nat) : (createThread entry).Orderly rank held held := by
  have hheap : Above rank (.mutex .heap_mutex) (insert (.mutex .sched_mutex) held) :=
    h.push (by decide)
  refine .bind (orderly_onKernel (orderly_lock h)) fun _ => orderly_after fun s => ?_
  dsimp only
  cases findThread s.sched with
  | none => exact orderly_giveUp h (orderly_pure ())
  | some tid =>
      refine .bind (orderly_onKernel (orderly_kcalloc hheap _ _)) fun thread =>
        orderly_after fun _ => ?_
      split
      · exact orderly_giveUp h (orderly_pure ())
      · split
        · refine orderly_after fun _ => orderly_after fun _ =>
            .bind (orderly_onKernel (orderly_kmalloc hheap _)) fun rsp => orderly_after fun _ => ?_
          split
          · exact orderly_giveUp h (orderly_kfree (hheap.mono (by decide)) thread)
          · exact orderly_startThread h entry _ tid rsp
        · exact orderly_after fun _ => orderly_after fun _ => orderly_startThread h entry _ tid 0

end Sched

end Orderly

/-! ## The calls -/

/-- The call, beside others. -/
def callRoutine : Call → RS Unit
  | .pmm_alloc_page => do let _ ← onKernel pmmAllocPage
  | .pmm_free_page page => onKernel (pmmFreePage page)
  | .vmm_alloc start count flags => do let _ ← onKernel (vmmAlloc start count flags)
  | .vmm_free virtual count => onKernel (vmmFree virtual count)
  | .vmm_create_mmio physical pages name => do let _ ← onKernel (vmmCreateMmio physical pages name)
  | .kmalloc n => do let _ ← onKernel (kmalloc n)
  | .kcalloc n1 n2 => do let _ ← onKernel (kcalloc n1 n2)
  | .krealloc old new_size => do let _ ← onKernel (krealloc old new_size)
  | .kfree ptr => onKernel (kfree ptr)
  | .create_process entry => do let _ ← createProcess entry
  | .create_thread entry => do let _ ← createThread entry

/-- Run alone, the call is what it is in the other modules. -/
theorem run_callRoutine (call : Call) : (callRoutine call).run takeS giveS = call.run := by
  cases call with
  | _ => simp [callRoutine, Call.run]

/-- Every call takes the mutexes in their order and gives them back. -/
theorem orderly_callRoutine (call : Call) : (callRoutine call).Orderly rank ∅ ∅ := by
  have hfree : ∀ m, Routine.Above rank m ∅ := fun m x hx => absurd hx (Finset.notMem_empty x)
  have hresult : ∀ {α : Type} {r : RS α}, r.Orderly rank ∅ ∅ →
      (do let _ ← r : RS Unit).Orderly rank ∅ ∅ := fun hr => hr.bind fun _ => Routine.orderly_pure ()
  cases call with
  | pmm_alloc_page => exact hresult (orderly_onKernel (orderly_pmmAllocPage (hfree _)))
  | pmm_free_page page => exact orderly_onKernel (orderly_pmmFreePage (hfree _) page)
  | vmm_alloc start count flags =>
      exact hresult (orderly_onKernel (orderly_vmmAlloc (hfree _) start count flags))
  | vmm_free virtual count => exact orderly_onKernel (orderly_vmmFree (hfree _) virtual count)
  | vmm_create_mmio physical pages name =>
      exact hresult (orderly_onKernel (orderly_vmmCreateMmio (hfree _) physical pages name))
  | kmalloc n => exact hresult (orderly_onKernel (orderly_kmalloc (hfree _) n))
  | kcalloc n1 n2 => exact hresult (orderly_onKernel (orderly_kcalloc (hfree _) n1 n2))
  | krealloc old new_size =>
      exact hresult (orderly_onKernel (orderly_krealloc (hfree _) old new_size))
  | kfree ptr => exact orderly_onKernel (orderly_kfree (hfree _) ptr)
  | create_process entry => exact hresult (orderly_createProcess (hfree _) entry)
  | create_thread entry => exact hresult (orderly_createThread (hfree _) entry)

/-- What a processor or a thread calls. -/
def Calls (r : RS Unit) : Prop := ∃ call, r = callRoutine call

theorem rank_lt (m : Lock) : rank m < 5 := by
  cases m with
  | mutex m => cases m <;> decide
  | e9_mutex => decide

instance : Nonempty System := ⟨.full⟩

section Progress

variable {ι : Type} [DecidableEq ι] {c : Agents ι (Lock → Bool) (Worker Lock System Stop)}

/-- **No deadlock**: in whatever order the calls take their steps, a mutex belongs to one call, all
are taken in one order, and while a call waits for a mutex one of those that hold a mutex goes on,
unless it has stopped (on a fault, in an endless loop, or without a page). -/
theorem calls_progress (h : Agents.Reaches (fun _ => Worker.Step Calls) Worker.start c) :
    Exclusive rank c.shared c.own ∧ ∀ i, (c.own i).Waits c.shared →
      ∃ j, (c.own j).held.Nonempty ∧
        ((∃ taken w, Worker.Step Calls c.shared (c.own j) taken w) ∨ (c.own j).Halted) := by
  have hexcl : Exclusive rank c.shared c.own := by
    refine Exclusive.reaches ?_ h
    rintro r ⟨call, rfl⟩
    exact orderly_callRoutine call
  exact ⟨hexcl, fun i hwait => hexcl.progress ⟨_, .kmalloc 0, rfl⟩ rank_lt hwait⟩

end Progress

/-- Two threads call `kmalloc`, and one waits for the other. -/
theorem calls_progress_kmalloc :
    ∃ c : Agents Bool (Lock → Bool) (Worker Lock System Stop), (c.own false).Waits c.shared ∧
      ∃ j, (c.own j).held.Nonempty ∧
        ((∃ taken w, Worker.Step Calls c.shared (c.own j) taken w) ∨ (c.own j).Halted) := by
  obtain ⟨next, hcall⟩ : ∃ next, callRoutine (.kmalloc 0) = .acquire (.mutex .heap_mutex) next :=
    ⟨_, rfl⟩
  have hcalls : Calls (.acquire (.mutex .heap_mutex) next) := ⟨.kmalloc 0, hcall.symm⟩
  have hreach : Agents.Reaches (fun _ => Worker.Step Calls) (Worker.start (ι := Bool)) _ :=
    ((Relation.ReflTransGen.single (.mk (i := true) (.call hcalls))).tail
      (.mk (i := false) (.call hcalls))).tail (.mk (i := true) (.acquire rfl))
  refine ⟨_, ?_, (calls_progress hreach).2 false ?_⟩
  · exact ⟨_, next, rfl, rfl⟩
  · exact ⟨_, next, rfl, rfl⟩

end Beside

end Windozz.Kernel

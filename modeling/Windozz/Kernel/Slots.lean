import Windozz.Kernel.Threads

set_option autoImplicit false

/-! # The slot of a new thread

`find_thread` looks for a slot in the table of the first process, whatever process it is asked
about; `create_thread` then fills the slot of that number in the table of the current process.
`createThread_installs_iff` says when that is what it should do. In the table of another process
the slot may hold a thread, which is lost (`createThread_overwrites`).
-/

namespace Windozz.Kernel

open Relation

/-! ## Slots that are written to -/

namespace Sched

variable (s : Sched) (pid tid : Nat) (slot : Slot)

theorem setSlot_self : ((s.setSlot pid tid fun _ => slot).processes pid).slots tid = slot := by
  simp [setSlot, setProcess]

theorem setSlot_ne {i j : Nat} (h : ¬ (i = pid ∧ j = tid)) :
    ((s.setSlot pid tid fun _ => slot).processes i).slots j = (s.processes i).slots j := by
  by_cases hi : i = pid
  · subst hi
    have hj : j ≠ tid := fun hj => h ⟨rfl, hj⟩
    simp [setSlot, setProcess, hj]
  · simp [setSlot, setProcess, hi]

theorem setSlot_valid (i : Nat) :
    ((s.setSlot pid tid fun _ => slot).processes i).valid = (s.processes i).valid := by
  by_cases hi : i = pid
  · subst hi
    simp [setSlot, setProcess]
  · simp [setSlot, setProcess, hi]

theorem setSlot_count (i : Nat) :
    ((s.setSlot pid tid fun _ => slot).processes i).thread_count = (s.processes i).thread_count := by
  by_cases hi : i = pid
  · subst hi
    simp [setSlot, setProcess]
  · simp [setSlot, setProcess, hi]

/-- The slots of a table with a new thread. -/
theorem addThread_slots (thread : Nat) (context : Context) (i j : Nat) :
    ((s.addThread pid tid thread context).processes i).slots j =
      ((s.setSlot pid tid fun _ => ⟨thread, ⟨context, .THREAD_IDLE⟩⟩).processes i).slots j := by
  by_cases hi : i = pid
  · subst hi
    simp [addThread, setProcess]
  · simp [addThread, setProcess, hi]

theorem addThread_valid (thread : Nat) (context : Context) (i : Nat) :
    ((s.addThread pid tid thread context).processes i).valid = (s.processes i).valid := by
  by_cases hi : i = pid
  · subst hi
    simp [addThread, setSlot, setProcess]
  · simp [addThread, setSlot, setProcess, hi]

theorem addThread_self (thread : Nat) (context : Context) :
    ((s.addThread pid tid thread context).processes pid).slots tid
      = ⟨thread, ⟨context, .THREAD_IDLE⟩⟩ := by
  rw [addThread_slots, setSlot_self]

/-- The entry of a new process. -/
theorem addProcess_self (p : Process) : (s.addProcess pid p).processes pid = p :=
  Function.update_self ..

theorem addProcess_ne (p : Process) {i : Nat} (h : i ≠ pid) :
    (s.addProcess pid p).processes i = s.processes i := Function.update_of_ne h _ _

variable {s pid tid slot} {i j : Nat}

/-- A thread after a slot was written to was there, or is in that slot. -/
theorem isThread_setSlot (h : (s.setSlot pid tid fun _ => slot).IsThread i j) :
    (i = pid ∧ j = tid) ∨ (s.IsThread i j ∧
      ((s.setSlot pid tid fun _ => slot).processes i).slots j = (s.processes i).slots j) := by
  by_cases hij : i = pid ∧ j = tid
  · exact Or.inl hij
  · have hsame := setSlot_ne s pid tid slot hij
    rw [IsThread, setSlot_valid, hsame] at h
    exact Or.inr ⟨h, hsame⟩

theorem isThread_addThread {thread : Nat} {context : Context}
    (h : (s.addThread pid tid thread context).IsThread i j) :
    (i = pid ∧ j = tid) ∨ (s.IsThread i j ∧
      ((s.addThread pid tid thread context).processes i).slots j = (s.processes i).slots j) := by
  rw [addThread_slots]
  rw [IsThread, addThread_valid, addThread_slots] at h
  exact isThread_setSlot ⟨(setSlot_valid _ _ _ _ _).trans h.1, h.2⟩

/-- A thread after a process was created was there, or is its first one. -/
theorem isThread_addProcess {cr3 threads thread : Nat} {context : Context}
    (h : (s.addProcess pid (.fresh cr3 threads thread context)).IsThread i j) :
    (i = pid ∧ j = 0) ∨ (s.IsThread i j ∧
      ((s.addProcess pid (.fresh cr3 threads thread context)).processes i).slots j
        = (s.processes i).slots j) := by
  by_cases hi : i = pid
  · subst hi
    refine Or.inl ⟨rfl, ?_⟩
    by_contra hj
    -- the other slots of the new table are empty
    have hempty : (Function.update (fun _ => Slot.empty) 0 ⟨thread, ⟨context, .THREAD_IDLE⟩⟩ j).ptr = 0 := by
      rw [Function.update_of_ne hj]
      rfl
    rw [IsThread, addProcess_self] at h
    exact h.2 hempty
  · rw [IsThread, addProcess_ne _ _ _ hi] at h
    rw [addProcess_ne _ _ _ hi]
    exact Or.inr ⟨h, rfl⟩

end Sched

/-! ## What a call should do -/

namespace Sched

/-- The slot holds a live thread. -/
def Live (s : Sched) (i j : Nat) : Prop := s.IsThread i j ∧ (s.thread i j).status ≠ .THREAD_NONE

/-- Every slot of the process holds a live thread. -/
def Full (s : Sched) (i : Nat) : Prop := ∀ j, j < MAX_THREADS → s.Live i j

/-- The slot holds a new thread. -/
structure IsNew (s : Sched) (i j entry : Nat) : Prop where
  isThread : s.IsThread i j
  idle : (s.thread i j).status = .THREAD_IDLE
  rip : (s.thread i j).context Context.rip = entry

end Sched

/-- What a call of `create_thread` that succeeds should do: the slot of the current process held no
live thread and holds the new one, and all live threads stay. -/
structure Installs (entry : Nat) (t t' : Tracked) (tid : Nat) : Prop where
  tid_lt : tid < MAX_THREADS
  free : ¬ t.sched.Live t.current tid
  new : t'.sched.IsNew t.current tid entry
  keeps : ∀ i j, t.sched.Live i j → t'.sched.Live i j ∧
    (t'.sched.processes i).slots j = (t.sched.processes i).slots j

/-- The call reports that there is no slot. -/
def ReportsNoSlot (t t' : Tracked) (r : Option Nat) : Prop :=
  r = none ∧ t'.printed = t.printed ++ [Tracked.THREAD_NO_SLOT]

/-- What a call of `create_thread` should do. -/
def InstallsThread (entry : Nat) (t : Tracked) : Prop :=
  ∀ r t', Tracked.createThread entry t = .ok (r, t') →
    (r ≠ none → ∃ tid, Installs entry t t' tid) ∧
      (ReportsNoSlot t t' r ↔ t.sched.Full t.current)

/-- There is no block of `n` bytes. -/
def State.Refuses (s : State) (n : Nat) : Prop := ∃ s', kmalloc n s = .ok (0, s')

/-- There is a block of `n` bytes. -/
def State.Grants (s : State) (n : Nat) : Prop := ∃ ptr s', ptr ≠ 0 ∧ kmalloc n s = .ok (ptr, s')

/-- What `create_thread` finds in the table of the first process holds for the table of the current
one: if it finds no slot, or no memory and says the same, then that table is full; if it fills a
slot, then that slot is not taken. -/
structure OwnSlot (t : Tracked) : Prop where
  full : findThread t.sched = none → t.sched.Full t.current
  refused : ∀ tid, findThread t.sched = some tid → t.locked.Refuses SIZEOF_THREAD →
    t.sched.Full t.current
  granted : ∀ tid, findThread t.sched = some tid → t.locked.Grants SIZEOF_THREAD →
    ¬ t.sched.Live t.current tid

/-- The slot that is found in the table of the first process is not taken there. -/
theorem findThread_not_live {s : Sched} {tid : Nat} (hfind : findThread s = some tid) :
    tid < MAX_THREADS ∧ ¬ s.Live 0 tid := by
  obtain ⟨hlt, hslot⟩ := findThread_some hfind
  refine ⟨hlt, ?_⟩
  rintro ⟨⟨-, hne⟩, hstatus⟩
  exact hslot.elim hne hstatus

/-- A new thread in a slot that is not taken. -/
theorem installs_addThread {t t' : Tracked} {entry tid thread rsp cs ds : Nat}
    (hvalid : (t.sched.processes t.current).valid = true) (hlt : tid < MAX_THREADS)
    (hne : thread ≠ 0) (hfree : ¬ t.sched.Live t.current tid)
    (hsched : t'.sched = t.sched.addThread t.current tid thread (.fresh entry rsp cs ds)) :
    Installs entry t t' tid := by
  have hslot : (t'.sched.processes t.current).slots tid =
      ⟨thread, ⟨.fresh entry rsp cs ds, .THREAD_IDLE⟩⟩ := by
    rw [hsched, Sched.addThread_self]
  have hvalid' : ∀ i, (t'.sched.processes i).valid = (t.sched.processes i).valid := fun i => by
    rw [hsched, Sched.addThread_valid]
  refine ⟨hlt, hfree, ⟨⟨(hvalid' _).trans hvalid, ?_⟩, ?_, ?_⟩, fun i j hlive => ?_⟩
  · rw [hslot]
    exact hne
  · rw [Sched.thread, hslot]
  · rw [Sched.thread, hslot]
    exact Context.fresh_rip entry rsp cs ds
  · -- the slot that is written to is not a live one
    have hother : ¬ (i = t.current ∧ j = tid) := by
      rintro ⟨rfl, rfl⟩
      exact hfree hlive
    have hsame : (t'.sched.processes i).slots j = (t.sched.processes i).slots j := by
      rw [hsched, Sched.addThread_slots, Sched.setSlot_ne _ _ _ _ hother]
    refine ⟨?_, hsame⟩
    rw [Sched.Live, Sched.IsThread, Sched.thread, hsame, hvalid']
    exact hlive

/-! ## When it does -/

/-- Where a thread is installed, no lack of slots is reported, and there is none. -/
theorem Installs.succeeds {t t' : Tracked} {entry tid : Nat} (h : Installs entry t t' tid)
    {r : Option Nat} (hr : r ≠ none) : (r ≠ none → ∃ tid, Installs entry t t' tid) ∧
      (ReportsNoSlot t t' r ↔ t.sched.Full t.current) :=
  ⟨fun _ => ⟨tid, h⟩,
    iff_of_false (fun hreports => hr hreports.1) fun hfull => h.free (hfull tid h.tid_lt)⟩

/-- Running out of memory for the stack is not reported as a lack of slots. -/
theorem not_reports_memory {t t' : Tracked} {r : Option Nat}
    (h : t'.printed = t.printed ++ [Tracked.THREAD_NO_MEMORY]) : ¬ ReportsNoSlot t t' r := by
  rintro ⟨-, hslot⟩
  have hsame := List.append_cancel_left (h.symm.trans hslot)
  exact absurd (List.cons.inj hsame).1 (by decide)

/-- The block of a thread is there, or not. -/
theorem granted_thread {s s' : State} {thread : Nat} (hne : thread ≠ 0)
    (h : kcalloc SIZEOF_THREAD 1 s = .ok (thread, s')) : s.Grants SIZEOF_THREAD :=
  ⟨thread, s', hne, kcalloc_thread ▸ h⟩

theorem refused_thread {s s' : State} (h : kcalloc SIZEOF_THREAD 1 s = .ok (0, s')) :
    s.Refuses SIZEOF_THREAD := ⟨s', kcalloc_thread ▸ h⟩

/-- When the slot that is found is also one of the current process, the call does what it should. -/
theorem OwnSlot.installs {t : Tracked} (h : OwnSlot t)
    (hvalid : (t.sched.processes t.current).valid = true) (entry : Nat) :
    InstallsThread entry t := by
  intro r t' hrun
  cases Tracked.createThread_cases hrun with
  | full hfind => exact ⟨fun hr => absurd rfl hr, iff_of_true ⟨rfl, rfl⟩ (h.full hfind)⟩
  | refused hfind hthread =>
      exact ⟨fun hr => absurd rfl hr,
        iff_of_true ⟨rfl, rfl⟩ (h.refused _ hfind (refused_thread hthread))⟩
  | @noStack tid thread k₁ k₂ k₃ hfind hthread hne hpid hstack hfree =>
      refine ⟨fun hr => absurd rfl hr, iff_of_false (not_reports_memory rfl) fun hfull => ?_⟩
      exact h.granted tid hfind (granted_thread hne hthread) (hfull tid (findThread_some hfind).1)
  | kernel hfind hthread hne hpid hstack hsne =>
      exact (installs_addThread hvalid (findThread_some hfind).1 hne
        (h.granted _ hfind (granted_thread hne hthread)) rfl).succeeds nofun
  | user hfind hthread hne hpid =>
      exact (installs_addThread hvalid (findThread_some hfind).1 hne
        (h.granted _ hfind (granted_thread hne hthread)) rfl).succeeds nofun

/-- The slot that gets the new thread is the one that was found. -/
theorem Installs.tid_eq {t t' : Tracked} {entry tid tid' thread : Nat} {context : Context}
    (h : Installs entry t t' tid')
    (hsched : t'.sched = t.sched.addThread t.current tid thread context) : tid' = tid := by
  by_contra hne
  have hother : ¬ (t.current = t.current ∧ tid' = tid) := fun heq => hne heq.2
  have hsame : (t'.sched.processes t.current).slots tid' =
      (t.sched.processes t.current).slots tid' := by
    rw [hsched, Sched.addThread_slots, Sched.setSlot_ne _ _ _ _ hother]
  have hthread := h.new.isThread
  have hidle := h.new.idle
  rw [Sched.IsThread, hsame, hsched, Sched.addThread_valid] at hthread
  rw [Sched.thread, hsame] at hidle
  -- any other slot holds what it held, which was no live thread
  refine h.free ⟨hthread, ?_⟩
  rw [Sched.thread, hidle]
  decide

/-- When the call does what it should, the slot is one of the current process. -/
theorem InstallsThread.ownSlot {t : Tracked} {entry : Nat} (h : InstallsThread entry t)
    (hfree : t.kernel.mutexes .sched_mutex = false) : OwnSlot t := by
  refine ⟨fun hfind => ?_, fun tid hfind hrefuses => ?_, fun tid hfind hgrants => ?_⟩
  · exact (h _ _ (Tracked.createThread_of_call (.full hfind) hfree)).2.mp ⟨rfl, rfl⟩
  · obtain ⟨k₁, hthread⟩ := hrefuses
    rw [← kcalloc_thread] at hthread
    exact (h _ _ (Tracked.createThread_of_call (.refused hfind hthread) hfree)).2.mp ⟨rfl, rfl⟩
  · obtain ⟨thread, k₁, hne, hthread⟩ := hgrants
    rw [← kcalloc_thread] at hthread
    by_cases hpid : t.current = 0
    · rw [hpid]
      exact (findThread_not_live hfind).2
    · obtain ⟨tid', hinstalls⟩ :=
        (h _ _ (Tracked.createThread_of_call (.user hfind hthread hne hpid) hfree)).1 nofun
      rw [← hinstalls.tid_eq rfl]
      exact hinstalls.free

/-- **The slot of a new thread.** In every state that a run reaches, `create_thread` does what it
should exactly when the slot that it finds in the table of the first process is one that it may fill
in the table of the current one. -/
theorem createThread_installs_iff {t₀ t : Tracked} (hstart : Untouched t₀)
    (hreach : ReflTransGen (ThreadStep anyCalls) t₀ t)
    (hvalid : (t.sched.processes t.current).valid = true) (entry : Nat) :
    InstallsThread entry t ↔ OwnSlot t := by
  have horder := hstart.order.run (fun _ _ h => h) hreach
  exact ⟨fun h => h.ownSlot horder.unlocked, fun h => h.installs hvalid entry⟩

/-- The first process, which is the current one. -/
theorem createThread_installs_first : ∃ t₀ t, Untouched t₀ ∧
    ReflTransGen (ThreadStep anyCalls) t₀ t ∧ (t.sched.processes t.current).valid = true ∧
      (InstallsThread 0 t ↔ OwnSlot t) := by
  obtain ⟨t₀, t, -, hstart, hrun, hcall, -, -⟩ :=
    firstProcess_grows 0 0 0 (n := 16384) (by decide) (by decide) (by decide)
  have hvalid : (t.sched.processes t.current).valid = true := by
    obtain ⟨cr3, threads, thread, context, -, hsched⟩ := hcall.sched_eq
    rw [Tracked.current, hsched, hstart.sched_eq]
    rfl
  have hreach : ReflTransGen (ThreadStep anyCalls) t₀ t := .single (.process hrun trivial)
  exact ⟨t₀, t, hstart, hreach, hvalid, createThread_installs_iff hstart hreach hvalid 0⟩

/-! ## When it does not -/

/-- The second slot is the first free one. -/
theorem findThread_second {s : Sched} (hfirst : ((s.processes 0).slots 0).ptr ≠ 0)
    (hidle : ((s.processes 0).slots 0).thread.status = .THREAD_IDLE)
    (hsecond : ((s.processes 0).slots 1).ptr = 0) : findThread s = some 1 := by
  have hrange : List.range MAX_THREADS = 0 :: 1 :: (List.range 30).map fun i => i + 2 := by decide
  rw [findThread, findIndex, hrange, List.find?_cons_of_neg (by simp [hfirst, hidle]),
    List.find?_cons_of_pos (by simp [hsecond])]

/-- The second process is the first free one. -/
theorem findProcess_second (p : Process) (hp : p.valid = true) :
    findProcess (Sched.zero.addProcess 0 p) = some 1 := by
  have hrange : List.range MAX_PROCESSES = 0 :: (List.range 511).map Nat.succ :=
    List.range_succ_eq_map
  have hrest : List.range 511 = 0 :: (List.range 510).map Nat.succ := List.range_succ_eq_map
  rw [findProcess, findIndex, hrange, hrest, List.find?_cons_of_neg, List.map_cons,
    List.find?_cons_of_pos]
  · rfl
  · rw [Sched.addProcess_self]
    simp [hp]

/-- With enough memory a thread of a process other than the first is created. -/
theorem createThread_grows {t : Tracked} {more room tid : Nat} (horder : InOrder t)
    (hroom : t.HasRoom (1 + more) (4 + room)) (hfind : findThread t.sched = some tid)
    (hcurrent : t.current ≠ 0) (entry : Nat) : ∃ thread t', thread ≠ 0 ∧
      Tracked.createThread entry t = .ok (some 0, t') ∧
      t'.sched = t.sched.addThread t.current tid thread
        (.fresh entry THREAD_STACK UCODE_SEGMENT UDATA_SEGMENT) ∧
      InOrder t' ∧ t'.HasRoom more room := by
  obtain ⟨live, k, hready⟩ := hroom
  have hpages : (SIZEOF_THREAD + 16 + 4095) / 4096 = 1 := by decide
  obtain ⟨k₁, hthread, -, hready₁⟩ := (hready.resched true).grants SIZEOF_THREAD more room
    (by omega) (by omega)
  rw [← kcalloc_thread] at hthread
  have hcall : ThreadCall entry t (some 0) _ := .user hfind hthread (heapPtr_ne k) hcurrent
  exact ⟨heapPtr k, _, heapPtr_ne k, Tracked.createThread_of_call hcall horder.unlocked, rfl,
    (hcall.heapKept horder.heap).inOrder, _, _, hready₁.resched false⟩

/-- Another thread becomes the current one. -/
def Tracked.switch (cpu : Cpu) (t : Tracked) : Tracked :=
  { t with system := { t.system with sched := { t.sched with cpu := cpu } } }

theorem rest_switch {t : Tracked} (h : InOrder t) (cpu : Cpu) : Rest t (t.switch cpu) :=
  ⟨h.heap, h.unlocked, rfl, rfl, fun _ => rfl, fun _ => rfl, fun _ _ => rfl⟩

/-- With enough memory the block of the thread is there. -/
theorem grants_thread {t : Tracked} {more room : Nat} (h : t.HasRoom (1 + more) (4 + room)) :
    t.locked.Grants SIZEOF_THREAD := by
  obtain ⟨live, k, hready⟩ := h
  have hpages : (SIZEOF_THREAD + 16 + 4095) / 4096 = 1 := by decide
  obtain ⟨k₁, hthread, -⟩ := (hready.resched true).grants SIZEOF_THREAD more room
    (by omega) (by omega)
  exact ⟨_, k₁, heapPtr_ne k, hthread⟩

/-- `find_thread` depends on the table of the first process alone. -/
theorem findThread_congr {s s' : Sched}
    (h : ∀ j, (s'.processes 0).slots j = (s.processes 0).slots j) : findThread s' = findThread s := by
  unfold findThread
  simp only [h]

/-- Two processes are created, and the second is the current one. -/
theorem secondProcess_grows : ∃ t₀ t, mmInit (flatMap 16384) .start = .ok ((), t₀.kernel) ∧
    Untouched t₀ ∧ ReflTransGen (ThreadStep anyCalls) t₀ t ∧ InOrder t ∧ t.HasRoom 2 8 ∧
      t.current = 1 ∧ (t.sched.processes 1).valid = true ∧ findThread t.sched = some 1 := by
  obtain ⟨t₀, t₁, hinit, hstart, hrun₁, hcall₁, horder₁, hroom₁⟩ :=
    firstProcess_grows 37 149 0 (n := 16384) (by decide) (by decide) (by decide)
  obtain ⟨cr3, threads, thread, context, hne, hsched₁⟩ := hcall₁.sched_eq
  rw [hstart.sched_eq] at hsched₁
  have hfind₁ : findProcess t₁.sched = some 1 := by
    rw [hsched₁]
    exact findProcess_second _ rfl
  have hroom₁' : t₁.HasRoom (35 + 2) (141 + 8) := hroom₁
  obtain ⟨t₂, hrun₂, hcall₂, horder₂, hroom₂⟩ := createProcess_grows horder₁ hroom₁' hfind₁ 0
  obtain ⟨cr3', threads', thread', context', -, hsched₂⟩ := hcall₂.sched_eq
  have hslots : (t₂.sched.processes 0).slots =
      Function.update (fun _ => .empty) 0 ⟨thread, ⟨context, .THREAD_IDLE⟩⟩ := by
    rw [hsched₂, Sched.addProcess_ne _ _ _ (by decide), hsched₁, Sched.addProcess_self]
    rfl
  have hfind₂ : findThread t₂.sched = some 1 := by
    apply findThread_second
    · rw [hslots]
      exact hne
    · rw [hslots]
      rfl
    · rw [hslots]
      rfl
  have hrest := rest_switch horder₂ ⟨1, 0, true⟩
  have hreach : ReflTransGen (ThreadStep anyCalls) t₀ (t₂.switch ⟨1, 0, true⟩) :=
    ((ReflTransGen.single (.process hrun₁ trivial)).tail (.process hrun₂ trivial)).tail (.rest hrest)
  refine ⟨t₀, _, hinit, hstart, hreach, ⟨hrest.heap, hrest.unlocked⟩, hroom₂, rfl, ?_, hfind₂⟩
  show (t₂.sched.processes 1).valid = true
  rw [hsched₂, Sched.addProcess_self]
  rfl

/-- **A thread is lost.** The second process creates a thread, in slot 1: its next thread goes into
that slot, too. -/
theorem createThread_overwrites : ∃ t₀ t, mmInit (flatMap 16384) .start = .ok ((), t₀.kernel) ∧
    Untouched t₀ ∧ ReflTransGen (ThreadStep anyCalls) t₀ t ∧
      (t.sched.processes t.current).valid = true ∧ ¬ InstallsThread 0 t := by
  obtain ⟨t₀, t, hinit, hstart, hreach, horder, hroom, hpid, hvalid, hfind⟩ := secondProcess_grows
  have hroom' : t.HasRoom (1 + 1) (4 + 4) := hroom
  have hcurrent : t.current ≠ 0 := by
    rw [hpid]
    decide
  rw [← hpid] at hvalid
  obtain ⟨thread, t', hne, hrun, hsched, horder', hroom'⟩ :=
    createThread_grows horder hroom' hfind hcurrent 0
  have hsame : t'.current = t.current := by
    rw [Tracked.current, hsched]
    rfl
  have hlive : t'.sched.Live t'.current 1 := by
    rw [hsame]
    refine ⟨⟨?_, ?_⟩, ?_⟩
    · rw [hsched, Sched.addThread_valid]
      exact hvalid
    · rw [hsched, Sched.addThread_self]
      exact hne
    · rw [Sched.thread, hsched, Sched.addThread_self]
      simp
  -- the table of the first process is as it was
  have hfind' : findThread t'.sched = some 1 := by
    rw [← hfind, hsched]
    refine findThread_congr fun j => ?_
    rw [Sched.addThread_slots, Sched.setSlot_ne]
    exact fun h => hcurrent h.1.symm
  refine ⟨t₀, t', hinit, hstart, hreach.tail (.thread hvalid hrun trivial), hlive.1.1, fun h => ?_⟩
  have hgrants : t'.locked.Grants SIZEOF_THREAD :=
    grants_thread (show t'.HasRoom (1 + 0) (4 + 0) from hroom')
  exact (h.ownSlot horder'.unlocked).granted 1 hfind' hgrants hlive

end Windozz.Kernel

import Windozz.Kernel.Scarce
import Windozz.Kernel.Slots

set_option autoImplicit false

/-! # What a failed `create_thread` leaves

`create_thread` writes the pointer to the new thread into the table before it asks for the stack.
When there is no stack, it frees the thread and leaves the pointer (`createThread_dangles`). When
there is no thread either, it leaves `NULL`, also where there was a thread.
`createThread_undone_iff` says that in all other cases a call that fails leaves no trace.
-/

namespace Windozz.Kernel

open Relation

/-- No slot refers to a block that was freed. -/
def SlotsLive (t : Tracked) : Prop :=
  ∀ i j, t.sched.IsThread i j → threadBlock ((t.sched.processes i).slots j).ptr ∈ t.own

/-- What a call of `create_thread` that fails should leave: the tables, the statuses and the live
blocks are as they were, and no slot refers to a block that was freed. -/
structure ThreadUndone (t t' : Tracked) : Prop where
  ptr_eq : ∀ i j, ((t'.sched.processes i).slots j).ptr = ((t.sched.processes i).slots j).ptr
  count_eq : ∀ i, (t'.sched.processes i).thread_count = (t.sched.processes i).thread_count
  status_eq : ∀ i j, t.sched.IsThread i j → (t'.sched.thread i j).status = (t.sched.thread i j).status
  own_eq : t'.own = t.own
  others_eq : t'.others = t.others
  live : SlotsLive t'

/-- If a slot is found, there is no block for the thread, and the slot of the current process is
`NULL`: a call that fails has not come to the stack, and overwrites no thread. -/
def Undoable (t : Tracked) : Prop := ∀ tid, findThread t.sched = some tid →
  t.locked.Refuses SIZEOF_THREAD ∧ ((t.sched.processes t.current).slots tid).ptr = 0

/-- Runs in which every failure of `create_thread` is of this kind. -/
def undoableCalls : Rules := ⟨fun _ _ => True, fun t r => r = none → Undoable t, Rest⟩

/-! ## Slots and blocks -/

/-- The block of one slot is new, and no block is freed. -/
theorem SlotsLive.add {t t' : Tracked} {i₀ j₀ : Nat} {slot : Slot} (h : SlotsLive t)
    (hold : ∀ i j, t'.sched.IsThread i j → (i = i₀ ∧ j = j₀) ∨ (t.sched.IsThread i j ∧
      (t'.sched.processes i).slots j = (t.sched.processes i).slots j))
    (hown : ∀ b ∈ t.own, b ∈ t'.own) (hslot : (t'.sched.processes i₀).slots j₀ = slot)
    (hnew : slot.ptr ≠ 0 → threadBlock slot.ptr ∈ t'.own) : SlotsLive t' := by
  intro i j hthread
  rcases hold i j hthread with ⟨rfl, rfl⟩ | ⟨hthread', hsame⟩
  · have hne := hthread.2
    rw [hslot] at hne ⊢
    exact hnew hne
  · rw [hsame]
    exact hown _ (h i j hthread')

/-- `create_process` leaves no slot with a block that was freed. -/
theorem SlotsLive.process {t t' : Tracked} {entry : Nat} {r : Option Nat} (h : SlotsLive t)
    (horder : InOrder t) (hcall : ProcessCall entry t r t') : SlotsLive t' := by
  cases r with
  | none =>
      obtain ⟨-, hown, -⟩ := hcall.undone horder.heap
      obtain ⟨-, -, hprocess⟩ := hcall.sched_undone
      rintro i j ⟨hv, hne⟩
      have hvalid : (t.sched.processes i).valid = true := (hprocess i).1.symm.trans hv
      rw [(hprocess i).2 hvalid] at hne ⊢
      rw [hown]
      exact h i j ⟨hvalid, hne⟩
  | some pid =>
      cases hcall with
      | first hfind hroot hcr3 htable htne hthread hne hfirst hstack hsne =>
          exact h.add (fun i j => Sched.isThread_addProcess) (fun b hb => by simp [Tracked.after, hb])
            (congrArg (fun p => p.slots 0) (Sched.addProcess_self ..)) fun _ => by simp [Tracked.after, Process.fresh]
      | later hfind hroot hcr3 htable htne hthread hne hlater =>
          exact h.add (fun i j => Sched.isThread_addProcess) (fun b hb => by simp [Tracked.after, hb])
            (congrArg (fun p => p.slots 0) (Sched.addProcess_self ..)) fun _ => by simp [Tracked.after, Process.fresh]

/-- `create_thread` does so only when there is no stack. -/
theorem SlotsLive.thread {t t' : Tracked} {entry : Nat} {r : Option Nat} (h : SlotsLive t)
    (hcall : ThreadCall entry t r t') (hmay : r = none → Undoable t) : SlotsLive t' := by
  cases hcall with
  | full hfind => exact h
  | refused hfind hthread =>
      exact h.add (fun i j => Sched.isThread_setSlot) (fun _ hb => hb) (Sched.setSlot_self ..)
        fun hne => absurd rfl hne
  | noStack hfind hthread hne hpid hstack hfree =>
      obtain ⟨⟨k, hrefused⟩, -⟩ := hmay rfl _ hfind
      rw [kcalloc_thread, hrefused] at hthread
      exact absurd (Prod.mk.inj (Except.ok.inj hthread)).1.symm hne
  | kernel hfind hthread hne hpid hstack hsne =>
      exact h.add (fun i j => Sched.isThread_addThread) (fun b hb => by simp [Tracked.after, hb])
        (Sched.addThread_self ..) fun _ => by simp [Tracked.after]
  | user hfind hthread hne hpid =>
      exact h.add (fun i j => Sched.isThread_addThread) (fun b hb => by simp [Tracked.after, hb])
        (Sched.addThread_self ..) fun _ => by simp [Tracked.after]

/-- Other code leaves the slots and their blocks. -/
theorem SlotsLive.rest {t t' : Tracked} (h : SlotsLive t) (hother : Rest t t') : SlotsLive t' := by
  rintro i j ⟨hv, hne⟩
  rw [hother.ptr_eq] at hne ⊢
  rw [hother.own_eq]
  exact h i j ⟨(hother.valid_eq i).symm.trans hv, hne⟩

/-- Every run of the kind keeps the slots alive. -/
theorem SlotsLive.run {R : Rules} (hrest : ∀ t t', R.rest t t' → Rest t t')
    (hthread : ∀ t r, R.thread t r → r = none → Undoable t) {t₀ t : Tracked} (hstart : InOrder t₀)
    (h : SlotsLive t₀) (hrun : ReflTransGen (ThreadStep R) t₀ t) : SlotsLive t := by
  induction hrun with
  | refl => exact h
  | tail hreach hstep ih =>
      have horder := hstart.run hrest hreach
      cases hstep with
      | process hcall => exact ih.process horder (Tracked.createProcess_cases hcall)
      | thread hcurrent hcall hmay =>
          exact ih.thread (Tracked.createThread_cases hcall) (hthread _ _ hmay)
      | rest hother => exact ih.rest (hrest _ _ hother)

/-- Before `sched_init` there are no slots. -/
theorem Untouched.slotsLive {t : Tracked} (h : Untouched t) : SlotsLive t := by
  rintro i j ⟨hv, -⟩
  rw [h.sched_eq] at hv
  cases hv

/-! ## When a call leaves no trace -/

/-- Writing `NULL` where `NULL` was changes no pointer and no thread. -/
theorem setSlot_empty {s : Sched} {pid tid : Nat} (hnull : ((s.processes pid).slots tid).ptr = 0)
    (i j : Nat) :
    (((s.setSlot pid tid fun _ => .empty).processes i).slots j).ptr
      = ((s.processes i).slots j).ptr ∧
    (s.IsThread i j → (s.setSlot pid tid fun _ => .empty).thread i j = s.thread i j) := by
  by_cases hij : i = pid ∧ j = tid
  · obtain ⟨rfl, rfl⟩ := hij
    refine ⟨?_, fun hthread => absurd hnull hthread.2⟩
    rw [Sched.setSlot_self, hnull]
    rfl
  · rw [Sched.thread, Sched.setSlot_ne _ _ _ _ hij]
    exact ⟨rfl, fun _ => rfl⟩

/-- A call that fails leaves no trace exactly when it is of this kind. -/
theorem ThreadCall.undone_iff {t t' : Tracked} {entry : Nat} (hcall : ThreadCall entry t none t')
    (horder : InOrder t) (hlive : SlotsLive t)
    (hvalid : (t.sched.processes t.current).valid = true) : ThreadUndone t t' ↔ Undoable t := by
  have hend : Undoable t → SlotsLive t' := fun h => hlive.thread hcall fun _ => h
  cases hcall with
  | full hfind =>
      refine iff_of_true ⟨fun _ _ => rfl, fun _ => rfl, fun _ _ _ => rfl, rfl, rfl, hlive⟩ ?_
      intro tid hfind'
      rw [hfind] at hfind'
      cases hfind'
  | @refused tid k₁ hfind hthread =>
      constructor
      · intro h tid' hfind'
        obtain rfl : tid = tid' := Option.some.inj (hfind.symm.trans hfind')
        refine ⟨refused_thread hthread, ?_⟩
        -- the slot is `NULL` afterwards
        rw [← h.ptr_eq t.current tid]
        exact congrArg Slot.ptr (Sched.setSlot_self ..)
      · intro h
        have hempty := setSlot_empty (h tid hfind).2
        exact ⟨fun i j => (hempty i j).1, Sched.setSlot_count _ _ _ _,
          fun i j hij => congrArg Thread.status ((hempty i j).2 hij), rfl, rfl, hend h⟩
  | @noStack tid thread k₁ k₂ k₃ hfind hthread hne hpid hstack hfree =>
      refine iff_of_false (fun h => ?_) fun h => ?_
      · -- the slot refers to the block of the thread, which was not live before
        have hptr : ((t.sched.processes t.current).slots tid).ptr = thread := by
          rw [← h.ptr_eq t.current tid]
          exact congrArg Slot.ptr (Sched.setSlot_self ..)
        have hmem : threadBlock thread ∈ t.own := by
          rw [← hptr]
          refine hlive _ _ ⟨hvalid, ?_⟩
          rw [hptr]
          exact hne
        rw [kcalloc_thread] at hthread
        have hinv := (kmalloc_spec horder.heap.locked thread_fits hthread).1
        rw [if_neg hne] at hinv
        have hapart := (List.pairwise_cons.mp hinv.apart).1 _ (List.mem_append_left _ hmem)
        exact hapart.ptr_ne rfl
      · obtain ⟨k, hrefused⟩ := (h tid hfind).1
        rw [kcalloc_thread, hrefused] at hthread
        exact hne (Prod.mk.inj (Except.ok.inj hthread)).1.symm

/-- **A thread that is not created.** In every run in which no failure of `create_thread` comes from
the stack or overwrites a thread, no slot refers to a block that was freed; and a call that returns
`-1` leaves no trace exactly when it is of this kind, too. -/
theorem createThread_undone_iff {t₀ t : Tracked} (hstart : Untouched t₀)
    (hreach : ReflTransGen (ThreadStep undoableCalls) t₀ t) :
    SlotsLive t ∧ ∀ entry t', (t.sched.processes t.current).valid = true →
      Tracked.createThread entry t = .ok (none, t') → (ThreadUndone t t' ↔ Undoable t) := by
  have horder := hstart.order.run (fun _ _ h => h) hreach
  have hlive := SlotsLive.run (fun _ _ h => h) (fun _ _ h => h) hstart.order hstart.slotsLive hreach
  exact ⟨hlive, fun entry t' hvalid hrun =>
    (Tracked.createThread_cases hrun).undone_iff horder hlive hvalid⟩

/-! ## A slot that dangles -/

/-- With a block for the thread and none for the stack, the block is freed. -/
theorem noStack_returns {s : State} {live : List Block} {n k more room : Nat} (hn : n < 2 ^ 27)
    (hready : Ready s live k (1 + more) (4 + room)) (hexact : s.pmm.Exact n)
    (hleft : s.pmm.left n ≤ 33) : ∃ k₁ k₃, kcalloc SIZEOF_THREAD 1 s = .ok (heapPtr k, k₁) ∧
      kmalloc THREAD_STACK k₁ = .ok (0, k₁) ∧ kfree (heapPtr k) k₁ = .ok ((), k₃) := by
  have hpages : (SIZEOF_THREAD + 16 + 4095) / 4096 = 1 := by decide
  have hbound := hready.bound
  obtain ⟨k₁, hthread, -, hready₁⟩ := hready.grants SIZEOF_THREAD more room (by omega) (by omega)
  have hexact₁ := steps_keepsExact.kmalloc _ hthread n hexact
  have hless := kmalloc_left hready.inv thread_fits hthread (heapPtr_ne k) hexact
  have hstack : k₁.pmm.spare ≤ kmallocPages THREAD_STACK := by
    rw [hexact₁.spare_eq hn, kmallocPages_of_lt stack_fits]
    show k₁.pmm.left n ≤ 33
    omega
  have hcanonical : ∀ i, i < (threadBlock (heapPtr k)).pages →
      Canonical ((threadBlock (heapPtr k)).page i) := by
    intro i hi
    have hone : (threadBlock (heapPtr k)).pages = 1 := hpages
    exact canonical_heap (by omega)
  obtain ⟨k₃, hfree, -⟩ := kfree_returns hready₁.inv.tree
    (hready₁.inv.held _ (List.mem_cons_self ..)) hcanonical hready₁.vmm_free hready₁.pmm_free
  exact ⟨k₁, k₃, kcalloc_thread ▸ hthread, kmalloc_spare hready₁.heap_free hstack, hfree⟩

/-- A slot whose block is not there. -/
theorem not_slotsLive {t : Tracked} {i j : Nat} (hthread : t.sched.IsThread i j)
    (hown : ∀ b ∈ t.own, b.ptr ≠ ((t.sched.processes i).slots j).ptr) : ¬ SlotsLive t :=
  fun h => hown _ (h i j hthread) rfl

/-- A block that is freed is not there. -/
theorem ptr_ne_of_mem_without {ptr : Nat} {blocks : List Block} :
    ∀ b ∈ without ptr blocks, b.ptr ≠ ptr := by
  intro b hb
  simpa using (List.mem_filter.mp hb).2

/-- Without a stack the slot refers to the block that was freed. -/
theorem createThread_noStack {t : Tracked} {tid thread : Nat} {k₁ k₂ k₃ : State} (entry : Nat)
    (horder : InOrder t) (hvalid : (t.sched.processes t.current).valid = true)
    (hfind : findThread t.sched = some tid)
    (hthread : kcalloc SIZEOF_THREAD 1 t.locked = .ok (thread, k₁)) (hne : thread ≠ 0)
    (hpid : t.current = 0) (hstack : kmalloc THREAD_STACK k₁ = .ok (0, k₂))
    (hfree : kfree thread k₂ = .ok ((), k₃)) :
    ∃ t', Tracked.createThread entry t = .ok (none, t') ∧ ¬ SlotsLive t' := by
  refine ⟨_, Tracked.createThread_of_call (.noStack hfind hthread hne hpid hstack hfree)
    horder.unlocked, not_slotsLive (i := t.current) (j := tid) ⟨?_, ?_⟩ ?_⟩
  · exact (Sched.setSlot_valid _ _ _ _ _).trans hvalid
  · refine ne_of_eq_of_ne ?_ hne
    exact congrArg Slot.ptr (Sched.setSlot_self ..)
  · intro b hb
    refine ne_of_ne_of_eq (ptr_ne_of_mem_without b hb) (Eq.symm ?_)
    exact congrArg Slot.ptr (Sched.setSlot_self ..)

/-- Other code takes the memory except for a few pages: there is one for a thread, and none for its
stack. -/
theorem scarce_run : ∃ t₀ t t', mmInit (flatMap 16384) .start = .ok ((), t₀.kernel) ∧
    Untouched t₀ ∧ ReflTransGen (ThreadStep undoableCalls) t₀ t ∧
      (t.sched.processes t.current).valid = true ∧
      Tracked.createThread 0 t = .ok (none, t') ∧ ¬ SlotsLive t' := by
  obtain ⟨t₀, t₁, hinit, hstart, hrun₁, hcall₁, horder₁, live, k, hready₁⟩ :=
    firstProcess_grows 16400 5 0 (n := 16384) (by decide) (by decide) (by decide)
  obtain ⟨cr3, threads, thread, context, hne, hsched₁⟩ := hcall₁.sched_eq
  rw [hstart.sched_eq] at hsched₁
  have hexact := hcall₁.exact (exact_mmInit (by decide) (by decide) hinit)
  have hspare := hready₁.room.spare
  have htotal := hexact.total_eq
  have hadd := hexact.used_add (by decide) (by omega)
  have hroom₁ : t₁.HasRoom (t₁.kernel.pmm.left 16384 + 2) 0 :=
    ⟨live, k, hready₁.mono (by omega) (by omega)⟩
  -- the memory is used up after the process is there, so it is the current one
  obtain ⟨t, hother, horder, hexact', hfew, ⟨live', k', hready⟩, hsched, -⟩ :=
    runs_short (by decide) 2 _ t₁ rfl (by omega) horder₁ hexact hroom₁
  rw [hsched₁] at hsched
  have hfind : findThread t.sched = some 1 := by
    apply findThread_second
    · rw [hsched]
      exact hne
    · rw [hsched]
      rfl
    · rw [hsched]
      rfl
  have hpid : t.current = 0 := by
    rw [Tracked.current, hsched]
    rfl
  have hvalid : (t.sched.processes t.current).valid = true := by
    rw [hpid, hsched]
    rfl
  have hlocked : Ready t.locked live' k' (1 + 1) (4 + 0) := hready.resched true
  obtain ⟨k₁, k₃, hthread, hstack, hfree⟩ :=
    noStack_returns (n := 16384) (by decide) hlocked hexact' (hfew.trans (by decide))
  obtain ⟨t', hrun, hdangles⟩ := createThread_noStack 0 horder hvalid hfind hthread
    (heapPtr_ne k') hpid hstack hfree
  have hreach : ReflTransGen (ThreadStep undoableCalls) t₀ t :=
    .head (.process hrun₁ trivial) (hother.lift id fun _ _ h => .rest h)
  exact ⟨t₀, t, t', hinit, hstart, hreach, hvalid, hrun, hdangles⟩

/-- That call fails for want of a stack. -/
theorem createThread_undone_scarce : ∃ t₀ t t', Untouched t₀ ∧
    ReflTransGen (ThreadStep undoableCalls) t₀ t ∧
      Tracked.createThread 0 t = .ok (none, t') ∧ (ThreadUndone t t' ↔ Undoable t) := by
  obtain ⟨t₀, t, t', -, hstart, hreach, hvalid, hrun, -⟩ := scarce_run
  exact ⟨t₀, t, t', hstart, hreach, hrun, (createThread_undone_iff hstart hreach).2 0 t' hvalid hrun⟩

/-- **A slot dangles** after that call. -/
theorem createThread_dangles : ∃ t₀ t t', mmInit (flatMap 16384) .start = .ok ((), t₀.kernel) ∧
    Untouched t₀ ∧ ReflTransGen (ThreadStep undoableCalls) t₀ t ∧
      (t.sched.processes t.current).valid = true ∧
      Tracked.createThread 0 t = .ok (none, t') ∧ ¬ ThreadUndone t t' := by
  obtain ⟨t₀, t, t', hinit, hstart, hreach, hvalid, hrun, hdangles⟩ := scarce_run
  exact ⟨t₀, t, t', hinit, hstart, hreach, hvalid, hrun, fun h => hdangles h.live⟩

end Windozz.Kernel

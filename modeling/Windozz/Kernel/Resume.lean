import Windozz.Kernel.Leftovers

set_option autoImplicit false

/-! # Threads that can be resumed

`find_idle` selects any idle thread of a valid process, and `load_context` loads what is saved for
it. A new thread has segments and a stack when it is the thread of the first process or one that
process 0 creates; all others lack one or both. `created_resumable_iff` says that nothing else goes
wrong.
-/

namespace Windozz.Kernel

open Relation

/-- The segments are those of the kernel or those of user code. -/
def Segments (c : Context) : Prop :=
  (c Context.cs = KCODE_SEGMENT ∧ c Context.ds = KDATA_SEGMENT) ∨
    (c Context.cs = UCODE_SEGMENT ∧ c Context.ds = UDATA_SEGMENT)

/-- A context that `load_context` can resume: it has segments, and a stack of its own. -/
structure Resumable (t : Tracked) (i j : Nat) : Prop where
  segments : Segments (t.sched.thread i j).context
  stack : ∃ stack, stackBlock stack ∈ t.own ∧
    (t.sched.thread i j).context Context.rsp = u64 (stack + THREAD_STACK)
  alone : ∀ i' j', t.sched.IsThread i' j' →
    (t.sched.thread i' j').context Context.rsp = (t.sched.thread i j).context Context.rsp →
    i' = i ∧ j' = j

/-- Every thread that `find_idle` can select can be resumed. -/
def IdleResumable (t : Tracked) : Prop := ∀ i j, t.sched.isIdle i j = true → Resumable t i j

/-- Every thread can be resumed. -/
def AllResumable (t : Tracked) : Prop := ∀ i j, t.sched.IsThread i j → Resumable t i j

/-- Other code of the kernel runs, and no thread does: what is saved for the threads stays. -/
structure Kept (t t' : Tracked) : Prop where
  rest : Rest t t'
  context_eq : ∀ i j, (t'.sched.thread i j).context = (t.sched.thread i j).context

/-- Runs in which no thread runs. -/
def creations : Rules := ⟨fun _ _ => True, fun _ _ => True, Kept⟩

/-- Of these, the runs with one process, in which no thread is freed for want of a stack. -/
def oneProcess : Rules where
  process t r := r ≠ none → t.sched.running_processes = 0
  thread t r := (r ≠ none → t.current = 0) ∧ (r = none → Undoable t)
  rest := Kept

theorem AllResumable.idle {t : Tracked} (h : AllResumable t) : IdleResumable t := by
  intro i j hidle
  simp only [Sched.isIdle, Bool.and_eq_true, bne_iff_ne, ne_eq, beq_iff_eq] at hidle
  exact h i j hidle.1

/-! ## Stacks -/

/-- A new stack is none of those that are there. -/
theorem fresh_stack {t t' : Tracked} {stack : Nat} {more : List Block} (horder : InOrder t')
    (hown : t'.own = stackBlock stack :: (more ++ t.own)) {stack' : Nat}
    (hmem : stackBlock stack' ∈ t.own) : u64 (stack' + THREAD_STACK) ≠ u64 (stack + THREAD_STACK) := by
  have hinv : HeapInv t'.kernel (stackBlock stack :: (more ++ t.own ++ t'.others)) := by
    have hinv := horder.heap
    rw [Tracked.live, hown] at hinv
    exact hinv
  have hlive : stackBlock stack' ∈ more ++ t.own ++ t'.others :=
    List.mem_append_left _ (List.mem_append_right _ hmem)
  have hne : stack ≠ stack' := ((List.pairwise_cons.mp hinv.apart).1 _ hlive).ptr_ne
  have hlt : stack < 2 ^ 64 := (hinv.held _ (List.mem_cons_self ..)).ptr_lt
  have hlt' : stack' < 2 ^ 64 := (hinv.held _ (List.mem_cons_of_mem _ hlive)).ptr_lt
  unfold u64
  omega

/-- A thread with a new stack, beside those that were there. -/
theorem AllResumable.add {t t' : Tracked} {i₀ j₀ entry stack ptr : Nat} {more : List Block}
    (h : AllResumable t) (horder : InOrder t')
    (hown : t'.own = stackBlock stack :: (more ++ t.own))
    (hslot : (t'.sched.processes i₀).slots j₀ = ⟨ptr, ⟨.fresh entry (u64 (stack + THREAD_STACK))
      KCODE_SEGMENT KDATA_SEGMENT, .THREAD_IDLE⟩⟩)
    (hold : ∀ i j, t'.sched.IsThread i j → (i = i₀ ∧ j = j₀) ∨ (t.sched.IsThread i j ∧
      (t'.sched.processes i).slots j = (t.sched.processes i).slots j)) : AllResumable t' := by
  have hnew : (t'.sched.thread i₀ j₀).context =
      .fresh entry (u64 (stack + THREAD_STACK)) KCODE_SEGMENT KDATA_SEGMENT := by
    rw [Sched.thread, hslot]
  -- the stack of a thread that was there is not the new one
  have hother : ∀ i j, t.sched.IsThread i j →
      (t'.sched.processes i).slots j = (t.sched.processes i).slots j →
      (t'.sched.thread i j).context Context.rsp ≠ (t'.sched.thread i₀ j₀).context Context.rsp := by
    intro i j hthread hsame
    obtain ⟨stack', hmem, hrsp⟩ := (h i j hthread).stack
    have hsame' : t'.sched.thread i j = t.sched.thread i j := congrArg Slot.thread hsame
    rw [hsame', hrsp, hnew, Context.fresh_rsp]
    exact fresh_stack horder hown hmem
  intro i j hij
  rcases hold i j hij with ⟨rfl, rfl⟩ | ⟨hthread, hsame⟩
  · refine ⟨?_, ⟨stack, ?_, ?_⟩, fun i' j' hij' heq => ?_⟩
    · rw [hnew]
      exact Or.inl ⟨Context.fresh_cs .., Context.fresh_ds ..⟩
    · rw [hown]
      exact List.mem_cons_self ..
    · rw [hnew, Context.fresh_rsp]
    · rcases hold i' j' hij' with heq' | ⟨hthread, hsame⟩
      · exact heq'
      · exact absurd heq (hother i' j' hthread hsame)
  · have hsame' : t'.sched.thread i j = t.sched.thread i j := congrArg Slot.thread hsame
    obtain ⟨hsegments, ⟨stack', hmem, hrsp⟩, halone⟩ := h i j hthread
    refine ⟨hsame' ▸ hsegments, ⟨stack', ?_, hsame' ▸ hrsp⟩, fun i' j' hij' heq => ?_⟩
    · rw [hown]
      exact List.mem_cons_of_mem _ (List.mem_append_right _ hmem)
    · rcases hold i' j' hij' with ⟨rfl, rfl⟩ | ⟨hthread', hsame''⟩
      · exact absurd heq.symm (hother i j hthread hsame)
      · refine halone i' j' hthread' ?_
        have hcontext : t'.sched.thread i' j' = t.sched.thread i' j' := congrArg Slot.thread hsame''
        rw [← hcontext, heq, hsame']

/-- Some of the threads that were there. -/
theorem AllResumable.sub {t t' : Tracked} (h : AllResumable t) (hown : t'.own = t.own)
    (hold : ∀ i j, t'.sched.IsThread i j → t.sched.IsThread i j ∧
      (t'.sched.thread i j).context = (t.sched.thread i j).context) : AllResumable t' := by
  intro i j hij
  obtain ⟨hthread, hsame⟩ := hold i j hij
  obtain ⟨hsegments, hstack, halone⟩ := h i j hthread
  refine ⟨hsame ▸ hsegments, ?_, fun i' j' hij' heq => ?_⟩
  · rw [hown, hsame]
    exact hstack
  · obtain ⟨hthread', hsame'⟩ := hold i' j' hij'
    rw [hsame, hsame'] at heq
    exact halone i' j' hthread' heq

/-! ## Runs -/

/-- The first process gets a thread with a stack, and a call that fails changes nothing. -/
theorem AllResumable.process {t t' : Tracked} {entry : Nat} {r : Option Nat} (h : AllResumable t)
    (horder : InOrder t) (hcall : ProcessCall entry t r t')
    (hmay : r ≠ none → t.sched.running_processes = 0) : AllResumable t' := by
  have horder' := (hcall.heapKept horder.heap).inOrder
  cases r with
  | none =>
      obtain ⟨-, hown, -⟩ := hcall.undone horder.heap
      obtain ⟨-, -, hprocess⟩ := hcall.sched_undone
      refine h.sub hown fun i j hij => ?_
      have hvalid : (t.sched.processes i).valid = true := (hprocess i).1.symm.trans hij.1
      have hsame := (hprocess i).2 hvalid
      rw [Sched.IsThread, hsame] at hij
      rw [Sched.thread, hsame]
      exact ⟨hij, rfl⟩
  | some pid =>
      cases hcall with
      | @first pid cr3 threads thread stack k₁ k₂ k₃ k₄ hfind hroot hcr3 htable htne hthread hne =>
          have hown : _ = stackBlock stack :: ([threadBlock thread, tableBlock threads] ++ t.own) := rfl
          exact h.add horder' hown (congrArg (fun p => p.slots 0) (Sched.addProcess_self ..))
            fun i j => Sched.isThread_addProcess
      | later hfind hroot hcr3 htable htne hthread hne hlater => exact absurd (hmay (Option.some_ne_none _)) hlater

/-- A thread of process 0 gets a stack, and a call that fails adds no thread. -/
theorem AllResumable.thread {t t' : Tracked} {entry : Nat} {r : Option Nat} (h : AllResumable t)
    (horder : InOrder t) (hcall : ThreadCall entry t r t')
    (hmay : (r ≠ none → t.current = 0) ∧ (r = none → Undoable t)) : AllResumable t' := by
  have horder' := (hcall.heapKept horder.heap).inOrder
  cases hcall with
  | full hfind => exact h.sub rfl fun i j hij => ⟨hij, rfl⟩
  | refused hfind hthread =>
      refine h.sub rfl fun i j hij => ?_
      rcases Sched.isThread_setSlot hij with ⟨rfl, rfl⟩ | ⟨hthread', hsame⟩
      · exact absurd (congrArg Slot.ptr (Sched.setSlot_self ..)) hij.2
      · exact ⟨hthread', congrArg (fun slot => slot.thread.context) hsame⟩
  | noStack hfind hthread hne hpid hstack hfree =>
      obtain ⟨⟨k, hrefused⟩, -⟩ := hmay.2 rfl _ hfind
      rw [kcalloc_thread, hrefused] at hthread
      exact absurd (Prod.mk.inj (Except.ok.inj hthread)).1.symm hne
  | @kernel tid thread stack k₁ k₂ hfind hthread hne hpid hstack hsne =>
      have hown : _ = stackBlock stack :: ([threadBlock thread] ++ t.own) := rfl
      exact h.add horder' hown (Sched.addThread_self ..) fun i j => Sched.isThread_addThread
  | user hfind hthread hne hpid => exact absurd (hmay.1 (Option.some_ne_none _)) hpid

/-- Where no thread runs, nothing changes. -/
theorem AllResumable.rest {t t' : Tracked} (h : AllResumable t) (hkept : Kept t t') :
    AllResumable t' := by
  refine h.sub hkept.rest.own_eq fun i j hij => ⟨?_, hkept.context_eq i j⟩
  rw [Sched.IsThread, hkept.rest.valid_eq, hkept.rest.ptr_eq] at hij
  exact hij

/-- Every run with one process keeps the threads resumable. -/
theorem AllResumable.run {t₀ t : Tracked} (hstart : InOrder t₀) (h : AllResumable t₀)
    (hrun : ReflTransGen (ThreadStep oneProcess) t₀ t) : AllResumable t := by
  induction hrun with
  | refl => exact h
  | tail hreach hstep ih =>
      have horder := hstart.run (R := oneProcess) (fun _ _ hkept => Kept.rest hkept) hreach
      cases hstep with
      | process hcall hmay => exact ih.process horder (Tracked.createProcess_cases hcall) hmay
      | thread hcurrent hcall hmay => exact ih.thread horder (Tracked.createThread_cases hcall) hmay
      | rest hkept => exact ih.rest hkept

theorem Untouched.allResumable {t : Tracked} (h : Untouched t) : AllResumable t := by
  rintro i j ⟨hv, -⟩
  rw [h.sched_eq] at hv
  cases hv

/-! ## Threads that cannot be resumed -/

/-- What a new thread must have, as `find_idle` can select it. -/
theorem IdleResumable.new {t : Tracked} {i j ptr : Nat} {context : Context} (h : IdleResumable t)
    (hvalid : (t.sched.processes i).valid = true) (hne : ptr ≠ 0)
    (hslot : (t.sched.processes i).slots j = ⟨ptr, ⟨context, .THREAD_IDLE⟩⟩) : Segments context ∧
      ∃ stack, stackBlock stack ∈ t.own ∧ context Context.rsp = u64 (stack + THREAD_STACK) := by
  have hidle : t.sched.isIdle i j = true := by simp [Sched.isIdle, hvalid, hslot, hne]
  have hcontext : (t.sched.thread i j).context = context := by rw [Sched.thread, hslot]
  obtain ⟨hsegments, hstack, -⟩ := h i j hidle
  rw [hcontext] at hsegments hstack
  exact ⟨hsegments, hstack⟩

/-- The first thread of any other process has no segments. -/
theorem ProcessCall.not_resumable {t t' : Tracked} {entry pid : Nat}
    (hcall : ProcessCall entry t (some pid) t') (hlater : t.sched.running_processes ≠ 0) :
    ¬ IdleResumable t' := by
  intro h
  cases hcall with
  | first hfind hroot hcr3 htable htne hthread hne hfirst => exact hlater hfirst
  | @later pid cr3 threads thread k₁ k₂ k₃ hfind hroot hcr3 htable htne hthread hne =>
      have hself := Sched.addProcess_self t.sched pid
        (.fresh cr3 threads thread (.fresh entry 0 0 0))
      have hsegments := (h.new (congrArg Process.valid hself) hne
        (congrArg (fun p => p.slots 0) hself)).1
      rcases hsegments with ⟨hcs, -⟩ | ⟨hcs, -⟩
      · cases hcs
      · cases hcs

/-- Any other thread of another process has no stack. -/
theorem ThreadCall.not_resumable {t t' : Tracked} {entry res : Nat}
    (hcall : ThreadCall entry t (some res) t') (horder : InOrder t)
    (hvalid : (t.sched.processes t.current).valid = true) (hcurrent : t.current ≠ 0) :
    ¬ IdleResumable t' := by
  intro h
  have horder' := (hcall.heapKept horder.heap).inOrder
  cases hcall with
  | kernel hfind hthread hne hpid => exact hcurrent hpid
  | @user tid thread k₁ hfind hthread hne hpid =>
      have hvalid' := (Sched.addThread_valid t.sched t.current tid thread
        (.fresh entry THREAD_STACK UCODE_SEGMENT UDATA_SEGMENT) t.current).trans hvalid
      obtain ⟨-, stack, hmem, hrsp⟩ := h.new hvalid' hne (Sched.addThread_self ..)
      -- the stack pointer is `THREAD_STACK` above `NULL`
      rw [Context.fresh_rsp] at hrsp
      have hheld := horder'.heap.held _ (List.mem_append_left _ hmem)
      have hge : 16 ≤ stack := hheld.ptr_ge
      have hlt : stack < 2 ^ 64 := hheld.ptr_lt
      unfold THREAD_STACK u64 at hrsp
      omega

/-- **Threads that can be resumed.** In every run with one process, `load_context` can resume every
thread that `find_idle` can select; and it stays so with a new process only if that is the first one,
and with a new thread only if process 0 creates it. -/
theorem created_resumable_iff {t₀ t : Tracked} (hstart : Untouched t₀)
    (hreach : ReflTransGen (ThreadStep oneProcess) t₀ t) :
    IdleResumable t ∧
    (∀ entry pid t', Tracked.createProcess entry t = .ok (some pid, t') →
      (IdleResumable t' ↔ t.sched.running_processes = 0)) ∧
    ∀ entry res t', (t.sched.processes t.current).valid = true →
      Tracked.createThread entry t = .ok (some res, t') → (IdleResumable t' ↔ t.current = 0) := by
  have horder := hstart.order.run (R := oneProcess) (fun _ _ hkept => Kept.rest hkept) hreach
  have hall := AllResumable.run hstart.order hstart.allResumable hreach
  refine ⟨hall.idle, fun entry pid t' hrun => ?_, fun entry res t' hvalid hrun => ?_⟩
  · have hcall := Tracked.createProcess_cases hrun
    constructor
    · intro h
      by_contra hlater
      exact hcall.not_resumable hlater h
    · exact fun hfirst => (hall.process horder hcall fun _ => hfirst).idle
  · have hcall := Tracked.createThread_cases hrun
    constructor
    · intro h
      by_contra hcurrent
      exact hcall.not_resumable horder hvalid hcurrent h
    · exact fun hcurrent => (hall.thread horder hcall ⟨fun _ => hcurrent, nofun⟩).idle

/-- The first process on a machine with 64 MiB. -/
theorem created_resumable_first : ∃ t₀ t, Untouched t₀ ∧
    ReflTransGen (ThreadStep oneProcess) t₀ t ∧ t.sched.running_processes = 1 ∧
    IdleResumable t ∧ ∀ entry pid t', Tracked.createProcess entry t = .ok (some pid, t') →
      (IdleResumable t' ↔ t.sched.running_processes = 0) := by
  obtain ⟨t₀, t, -, hstart, hrun, hcall, -, -⟩ :=
    firstProcess_grows 0 0 0 (n := 16384) (by decide) (by decide) (by decide)
  obtain ⟨cr3, threads, thread, context, -, hsched⟩ := hcall.sched_eq
  rw [hstart.sched_eq] at hsched
  have hmay : oneProcess.process t₀ (some 0) := fun _ => by
    rw [hstart.sched_eq]
    rfl
  have hreach : ReflTransGen (ThreadStep oneProcess) t₀ t := .single (.process hrun hmay)
  obtain ⟨hidle, hprocess, -⟩ := created_resumable_iff hstart hreach
  exact ⟨t₀, t, hstart, hreach, by rw [hsched]; rfl, hidle, hprocess⟩

/-- **The second process** has a thread without segments. -/
theorem createProcess_unresumable : ∃ t₀ t, mmInit (flatMap 16384) .start = .ok ((), t₀.kernel) ∧
    Untouched t₀ ∧ ReflTransGen (ThreadStep creations) t₀ t ∧ ¬ IdleResumable t := by
  obtain ⟨t₀, t₁, hinit, hstart, hrun₁, hcall₁, horder₁, hroom₁⟩ :=
    firstProcess_grows 35 141 0 (n := 16384) (by decide) (by decide) (by decide)
  obtain ⟨cr3, threads, thread, context, -, hsched₁⟩ := hcall₁.sched_eq
  rw [hstart.sched_eq] at hsched₁
  have hfind : findProcess t₁.sched = some 1 := by
    rw [hsched₁]
    exact findProcess_second _ rfl
  have hroom₁' : t₁.HasRoom (35 + 0) (141 + 0) := hroom₁
  obtain ⟨t, hrun, hcall, -, -⟩ := createProcess_grows horder₁ hroom₁' hfind 0
  have hreach : ReflTransGen (ThreadStep creations) t₀ t :=
    .head (.process hrun₁ trivial) (.single (.process hrun trivial))
  have hlater : t₁.sched.running_processes ≠ 0 := by
    rw [hsched₁]
    show u64 (0 + 1) ≠ 0
    decide
  exact ⟨t₀, t, hinit, hstart, hreach, hcall.not_resumable hlater⟩

end Windozz.Kernel

import Windozz.Kernel.Balance
import Windozz.Kernel.Sizes
import Windozz.Kernel.Tracked

set_option autoImplicit false

/-! # What a failed call gives back

`create_process` takes a page and up to three blocks, and undoes the steps by hand when one of them
fails. `Owes` keeps the account: since the state `s₀` the pages `pages` and the blocks `held` were
taken, and page tables were added. Each call of the memory manager changes the account by what it
takes or gives back (`Owes.takesFrame`, `Owes.kmalloc`, `Owes.freesFrame`, `Owes.kfree`). When
nothing is owed, all that was added are page tables.

An allocation that fails after it has mapped some of its pages leaves `pmm_mutex` held
(`kmalloc_null_held`). The release of the page then never returns: a call that returns `-1` has seen
no such failure.
-/

namespace Windozz.Kernel

/-- The order of the blocks plays no part. -/
theorem HeapInv.perm {s : State} {live live' : List Block} (h : HeapInv s live)
    (hperm : live.Perm live') : HeapInv s live' :=
  ⟨h.tree, h.fresh, h.window, fun b hb => h.held b (hperm.mem_iff.mpr hb),
    (hperm.pairwise_iff fun hapart => Block.Apart.symm hapart).mp h.apart⟩

/-! ## Frames that are given back -/

/-- A frame that is no table and belongs to no block can be marked free. -/
theorem HeapInv.freesFrame {s : State} {live : List Block} {page : Nat} (h : HeapInv s live)
    (htable : page / 4096 ∉ s.tableFrames) (hlt : page / 4096 < 2 ^ 27)
    (hblocks : ¬ HoldsFrame s live (page / 4096)) :
    HeapInv (s.withPmm (pmmMarkPageFree page s.pmm)) live ∧
      ∀ b ∈ live, b.Keeps s (s.withPmm (pmmMarkPageFree page s.pmm)) := by
  have hfree : ∀ q, (pmmMarkPageFree page s.pmm).Free q → s.pmm.Free q ∨ q = page / 4096 := by
    rintro q ⟨hpos, hbelow, hunmarked⟩
    rw [test_markPageFree, Bool.and_eq_false_iff, Bool.not_eq_false', decide_eq_true_eq] at hunmarked
    rw [highest_markPageFree] at hbelow
    rcases hunmarked with hunmarked | rfl
    · exact Or.inl ⟨hpos, hbelow, hunmarked⟩
    · exact Or.inr rfl
  have hkeeps : ∀ b ∈ live, b.Keeps s (s.withPmm (pmmMarkPageFree page s.pmm)) := by
    intro b hb
    have hheld := h.held b hb
    refine ⟨fun _ _ => rfl, fun i hi => ?_, hheld.not_table, hheld.range.noLarge, fun _ _ _ _ => rfl⟩
    have hne : ¬ page / 4096 = frameOf s (b.page i) := fun heq => hblocks ⟨b, hb, i, hi, heq⟩
    show (pmmMarkPageFree page s.pmm).bitmap.test _ = true
    rw [test_markPageFree, hheld.used i hi, decide_eq_false hne]
    rfl
  refine ⟨h.keeps hkeeps h.tree (fun q hq => ?_) fun q hq => ?_, hkeeps⟩
  · rcases hfree q hq with hq | rfl
    · exact h.fresh q hq
    · exact htable
  · rcases hfree q hq with hq | rfl
    · exact h.window q hq
    · exact hlt

/-! ## Allocations that fail -/

/-- Releasing a mutex leaves the others. -/
theorem release_other {x y : Mutex} (hne : x ≠ y) (s : State) :
    State.mutexes { s with mutexes := Function.update s.mutexes y false } x = s.mutexes x :=
  Function.update_of_ne hne _ _

theorem release_self (x : Mutex) (s : State) :
    State.mutexes { s with mutexes := Function.update s.mutexes x false } x = false :=
  Function.update_self ..

/-- A loop that fails has asked for a page in vain. -/
theorem allocLoop_held {ptr flags : Nat} (n : Nat) : ∀ {i : Nat} {s s' : State},
    allocLoop ptr flags n i s = .ok (false, s') → s'.mutexes .pmm_mutex = true := by
  induction n with
  | zero =>
      intro i s s' hrun
      cases hrun
  | succ n ih =>
      intro i s s' hrun
      rw [allocLoop] at hrun
      obtain ⟨phys, s₁, halloc, hrun⟩ := Prog.bind_eq_ok.mp hrun
      by_cases hz : phys = 0
      · subst hz
        rw [if_pos rfl] at hrun
        obtain ⟨-, rfl⟩ := Prod.mk.inj (Except.ok.inj hrun)
        rw [pmmAllocPage_null halloc]
        exact Function.update_self Mutex.pmm_mutex true s.mutexes
      · rw [if_neg hz] at hrun
        obtain ⟨_, s₂, -, hrun⟩ := Prog.bind_eq_ok.mp hrun
        exact ih hrun

/-- When `vmm_alloc` fails, it has done nothing or leaves `pmm_mutex` held. -/
theorem vmmAlloc_null_held {s s' : State} {start count flags : Nat}
    (hrun : vmmAlloc start count flags s = .ok (0, s')) :
    s' = s ∨ s'.mutexes .pmm_mutex = true := by
  rw [vmmAlloc, Prog.bind_ok (Prog.run_get _)] at hrun
  split at hrun
  · exact Or.inl (Prod.mk.inj (Except.ok.inj hrun)).2.symm
  · cases hfind : vmmFind start count s with
    | none =>
        rw [hfind] at hrun
        cases hrun
    | some p =>
        simp only [hfind] at hrun
        by_cases hp : p = 0
        · rw [if_pos hp] at hrun
          exact Or.inl (Prod.mk.inj (Except.ok.inj hrun)).2.symm
        · rw [if_neg hp] at hrun
          obtain ⟨_, s₁, -, hrun⟩ := Prog.bind_eq_ok.mp hrun
          obtain ⟨done, s₂, hloop, hrun⟩ := Prog.bind_eq_ok.mp hrun
          rw [Prog.bind_ok (run_release _ _)] at hrun
          cases done with
          | true => exact absurd (Prod.mk.inj (Except.ok.inj hrun)).1 hp
          | false =>
              obtain ⟨-, rfl⟩ := Prod.mk.inj (Except.ok.inj hrun)
              refine Or.inr ((release_other ?_ s₂).trans (allocLoop_held _ hloop))
              decide

/-- **When `kmalloc` fails, it has done nothing or leaves `pmm_mutex` held.** -/
theorem kmalloc_null_held {s s' : State} {n : Nat} (hrun : kmalloc n s = .ok (0, s')) :
    s' = s ∨ s'.mutexes .pmm_mutex = true := by
  have hheap := kmalloc_free hrun
  obtain ⟨s₁, halloc⟩ := kmalloc_refused hrun
  have hend : s' = { s₁ with mutexes := Function.update s₁.mutexes .heap_mutex false } := by
    have hnull : kmalloc n s = .ok (0, { s₁ with
        mutexes := Function.update s₁.mutexes .heap_mutex false }) := by
      rw [kmalloc, Prog.bind_ok (acquire_free hheap)]
      exact Prog.bind_ok halloc
    rw [hrun] at hnull
    exact (Prod.mk.inj (Except.ok.inj hnull)).2
  rcases vmmAlloc_null_held halloc with rfl | hheld
  · refine Or.inl ?_
    rw [hend, State.heapHeld]
    simp only
    rw [release_acquire hheap]
  · refine Or.inr ?_
    rw [hend]
    exact (release_other (by decide) s₁).trans hheld

/-- The pages that are left by the counters. -/
def Pmm.spare (p : Pmm) : Nat := u64 (p.total_pages + (2 ^ 64 - u64 p.used_pages))

/-- A request for as many pages as are left, or more, is refused. -/
theorem kmalloc_spare {s : State} {n : Nat} (hheap : s.mutexes .heap_mutex = false)
    (hspare : s.pmm.spare ≤ kmallocPages n) : kmalloc n s = .ok (0, s) := by
  have halloc : vmmAlloc KERNEL_HEAP (kmallocPages n) KERNEL_HEAP_FLAGS s.heapHeld
      = .ok (0, s.heapHeld) := by
    rw [vmmAlloc, Prog.bind_ok (Prog.run_get _)]
    exact congrFun (if_pos hspare) _
  have hend : kmalloc n s = .ok (0, { s.heapHeld with
      mutexes := Function.update s.heapHeld.mutexes .heap_mutex false }) := by
    rw [kmalloc, Prog.bind_ok (acquire_free hheap)]
    exact Prog.bind_ok halloc
  rw [hend, State.heapHeld]
  simp only
  rw [release_acquire hheap]

/-- A page can be freed only when `pmm_mutex` is free. -/
theorem pmmFreePage_free {s s' : State} {page : Nat} {u : Unit}
    (hrun : pmmFreePage page s = .ok (u, s')) : s.mutexes .pmm_mutex ≠ true := by
  intro hheld
  rw [pmmFreePage, Prog.bind_error (acquire_held hheld)] at hrun
  cases hrun

/-- An allocation that fails in front of the release of a page has done nothing. -/
theorem kmalloc_null_same {s s₁ s₂ : State} {n page : Nat} {u : Unit}
    (hrun : kmalloc n s = .ok (0, s₁)) (hpage : pmmFreePage page s₁ = .ok (u, s₂)) : s₁ = s :=
  (kmalloc_null_held hrun).resolve_right (pmmFreePage_free hpage)

/-! ## The account -/

/-- Since the state `s₀`, in which the blocks `live` were there, the pages `pages` and the blocks
`held` were taken, and page tables were added. -/
structure Owes (s₀ s : State) (live held : List Block) (pages : Finset Nat) : Prop where
  inv : HeapInv s (held ++ live)
  keeps : ∀ b ∈ live, b.Keeps s₀ s
  tables : s₀.tableFrames ⊆ s.tableFrames
  test_iff : ∀ q, s.pmm.bitmap.test q = true ↔ s₀.pmm.bitmap.test q = true ∨
    q ∈ s.tableFrames \ s₀.tableFrames ∨ q ∈ pages ∨ HoldsFrame s held q
  taken : ∀ q, q ∈ pages ∨ HoldsFrame s held q → s₀.pmm.bitmap.test q = false
  page_lt : ∀ q ∈ pages, q < 2 ^ 27
  page_not_table : ∀ q ∈ pages, q ∉ s.tableFrames
  page_not_block : ∀ q ∈ pages, ¬ HoldsFrame s (held ++ live) q

/-- Since the state `s₀` only page tables were added. -/
structure Undone (s₀ s : State) (live : List Block) : Prop where
  inv : HeapInv s live
  keeps : ∀ b ∈ live, b.Keeps s₀ s
  test_iff : ∀ q, s.pmm.bitmap.test q = true ↔
    s₀.pmm.bitmap.test q = true ∨ q ∈ s.tableFrames \ s₀.tableFrames

theorem holdsFrame_append {s : State} {held live : List Block} {q : Nat}
    (h : HoldsFrame s held q) : HoldsFrame s (held ++ live) q := by
  obtain ⟨b, hb, hq⟩ := h
  exact ⟨b, List.mem_append_left _ hb, hq⟩

/-- What a block holds is no table. -/
theorem HeapInv.holds_not_table {s : State} {live : List Block} {q : Nat} (h : HeapInv s live)
    (hq : HoldsFrame s live q) : q ∉ s.tableFrames := by
  obtain ⟨b, hb, i, hi, rfl⟩ := hq
  exact (h.held b hb).not_table i hi

/-- What a block holds is marked used. -/
theorem HeapInv.holds_used {s : State} {live : List Block} {q : Nat} (h : HeapInv s live)
    (hq : HoldsFrame s live q) : s.pmm.bitmap.test q = true := by
  obtain ⟨b, hb, i, hi, rfl⟩ := hq
  exact (h.held b hb).used i hi

theorem Block.Keeps.refl {s : State} {live : List Block} {b : Block} (h : HeapInv s live)
    (hb : b ∈ live) : b.Keeps s s :=
  ⟨fun _ _ => rfl, (h.held b hb).used, (h.held b hb).not_table, (h.held b hb).range.noLarge,
    fun _ _ _ _ => rfl⟩

/-- Mutexes play no part. -/
theorem Block.Keeps.of_relock {b : Block} {s s' : State} {m : Mutex → Bool}
    (h : b.Keeps { s with mutexes := m } s') : b.Keeps s s' :=
  ⟨h.page_eq, h.used, h.not_table, h.noLarge, h.mem_eq⟩

theorem Undone.of_relock {s₀ s : State} {live : List Block} {m : Mutex → Bool}
    (h : Undone { s₀ with mutexes := m } s live) : Undone s₀ s live :=
  ⟨h.inv, fun b hb => (h.keeps b hb).of_relock, h.test_iff⟩

theorem Undone.relock {s₀ s : State} {live : List Block} (h : Undone s₀ s live)
    (m : Mutex → Bool) : Undone s₀ { s with mutexes := m } live :=
  ⟨h.inv.relock m, fun b hb => (h.keeps b hb).relock m, h.test_iff⟩

/-- Nothing was done. -/
theorem Undone.same {s : State} {live : List Block} (h : HeapInv s live) (m : Mutex → Bool) :
    Undone s { s with mutexes := m } live :=
  ⟨h.relock m, fun _ hb => (Block.Keeps.refl h hb).relock m, fun _ =>
    ⟨Or.inl, fun hq => hq.resolve_right fun hin => hin.2 hin.1⟩⟩

section Accounts

variable {used table page block new mine : Prop}

theorem account_takes : (used ∨ table ∨ page ∨ block) ∨ new ∨ mine ↔
    used ∨ (table ∨ new) ∨ page ∨ mine ∨ block := by
  tauto

theorem account_frees_page (h : mine → ¬ (used ∨ table ∨ block)) :
    (used ∨ table ∨ page ∨ block) ∧ ¬ mine ↔ used ∨ table ∨ (¬ mine ∧ page) ∨ block := by
  tauto

theorem account_frees_block (h : mine → ¬ (used ∨ table ∨ page ∨ block)) :
    (used ∨ table ∨ page ∨ mine ∨ block) ∧ ¬ mine ↔ used ∨ table ∨ page ∨ block := by
  tauto

end Accounts

namespace Owes

variable {s₀ s s' : State} {live held : List Block} {pages : Finset Nat}

/-- Nothing is owed. -/
theorem undone (h : Owes s₀ s live [] ∅) : Undone s₀ s live := by
  refine ⟨h.inv, h.keeps, fun q => ?_⟩
  have hnone : ¬ HoldsFrame s [] q := fun ⟨_, hb, _⟩ => List.not_mem_nil hb
  rw [h.test_iff]
  simp only [Finset.notMem_empty, hnone, or_false]

/-- The page that a call starts with. -/
theorem takesFrame {q : Nat} (h : HeapInv s₀ live) (htake : TakesFrame s₀ s q) :
    Owes s₀ s live [] {q} := by
  obtain ⟨hinv, hkeeps⟩ := h.takesFrame htake
  have hstores : Stores (s₀.withPmm s.pmm) s {q} :=
    ⟨by rw [htake.only]; rfl, fun a ha => htake.mem_eq a ha⟩
  have hframes : s.tableFrames = s₀.tableFrames := hstores.frames_eq fun k hk => by
    rw [Set.mem_singleton_iff.mp hk]
    exact h.fresh q htake.free
  have hnone : ∀ k, ¬ HoldsFrame s [] k := fun k ⟨_, hb, _⟩ => List.not_mem_nil hb
  refine ⟨hinv, hkeeps, hframes.ge, fun k => ?_, fun k hk => ?_, fun k hk => ?_, fun k hk => ?_,
    fun k hk hholds => ?_⟩
  · have hdiff : k ∉ s.tableFrames \ s₀.tableFrames := fun hk => hk.2 (hframes ▸ hk.1)
    rw [htake.takes.test_eq, Bool.or_eq_true, decide_eq_true_eq]
    simp only [hnone, or_false, hdiff, false_or]
  · have hk := hk.resolve_right (hnone k)
    rw [Finset.mem_singleton.mp hk]
    exact htake.free.unmarked
  · rw [Finset.mem_singleton.mp hk]
    exact h.window q htake.free
  · rw [hframes, Finset.mem_singleton.mp hk]
    exact h.fresh q htake.free
  · -- a block holds frames that were used before
    have hbefore := h.holds_used ((holdsFrame_keeps hkeeps).mp hholds)
    rw [Finset.mem_singleton.mp hk, htake.free.unmarked] at hbefore
    cases hbefore

/-- **A block is taken.** -/
theorem kmalloc (h : Owes s₀ s live held pages) {n ptr : Nat} (hn : n + 16 + 4095 < 2 ^ 64)
    (hrun : Kernel.kmalloc n s = .ok (ptr, s')) (hne : ptr ≠ 0) :
    Owes s₀ s' live (⟨ptr, n⟩ :: held) pages := by
  have hfresh := h.inv.fresh
  obtain ⟨hinv, hkeeps⟩ := kmalloc_spec h.inv hn hrun
  rw [if_neg hne] at hinv
  rcases kmalloc_ok h.inv.tree hfresh h.inv.window hn hrun with
    ⟨hnull, -⟩ | ⟨s₁, s₂, m, p, frames, new, hnew, rfl, rfl⟩
  · exact absurd hnull hne
  -- every frame the call takes was free, so it is in no account that `h` keeps
  have hfree : ∀ q, q ∈ new ∨ q ∈ frames → s.pmm.Free q := fun q hq =>
    hnew.backs.takes.free q (by simpa using hq)
  have hframes : s₂.tableFrames = s.tableFrames ∪ new := hnew.tableFrames_eq hfresh
  have hholds : ∀ (blocks : List Block) q, (∀ b ∈ blocks, b ∈ held ++ live) →
      (HoldsFrame { s₂ with mutexes := m } (⟨p + 16, n⟩ :: blocks) q ↔
        q ∈ frames ∨ HoldsFrame s blocks q) := by
    intro blocks q hsub
    rw [← holdsFrame_keeps fun b hb => hkeeps b (hsub b hb), hnew.mem_frames hfresh]
    exact holdsFrame_cons [] blocks _
  have hunused : ∀ q, q ∈ new ∨ q ∈ frames → s₀.pmm.bitmap.test q = false := by
    intro q hq
    rw [← Bool.not_eq_true]
    intro hused
    have := (h.test_iff q).mpr (Or.inl hused)
    rw [(hfree q hq).unmarked] at this
    cases this
  have hpage : ∀ q ∈ pages, ¬ (q ∈ new ∨ q ∈ frames) := by
    intro q hq hin
    have := (h.test_iff q).mpr (Or.inr (Or.inr (Or.inl hq)))
    rw [(hfree q hin).unmarked] at this
    cases this
  refine ⟨hinv, fun b hb => (h.keeps b hb).trans (hkeeps b (List.mem_append_right _ hb)),
    fun q hq => ?_, fun q => ?_, fun q hq => ?_, h.page_lt, fun q hq hin => ?_, fun q hq hin => ?_⟩
  · show q ∈ s₂.tableFrames
    rw [hframes]
    exact Or.inl (h.tables hq)
  · -- the new tables join those added since `s₀`, the new frames join the blocks held
    have hdiff : q ∈ s₂.tableFrames \ s₀.tableFrames ↔
        q ∈ s.tableFrames \ s₀.tableFrames ∨ q ∈ new := by
      rw [hframes, Set.mem_sdiff, Set.mem_sdiff, Set.mem_union, Finset.mem_coe, or_and_right]
      refine or_congr Iff.rfl (and_iff_left_of_imp fun hq hin => ?_)
      exact hfresh q (hfree q (Or.inl hq)) (h.tables hin)
    have htest := hnew.test_eq q
    have hiff := h.test_iff q
    show s₂.pmm.bitmap.test q = true ↔ _ ∨ q ∈ s₂.tableFrames \ s₀.tableFrames ∨ _
    rw [htest, hiff, hdiff, hholds held q fun b hb => List.mem_append_left _ hb]
    exact account_takes
  · rcases hq with hq | hq
    · exact h.taken q (Or.inl hq)
    · rcases (hholds held q fun b hb => List.mem_append_left _ hb).mp hq with hq | hq
      · exact hunused q (Or.inr hq)
      · exact h.taken q (Or.inr hq)
  · have hin' : q ∈ s₂.tableFrames := hin
    rw [hframes] at hin'
    rcases hin' with hin' | hin'
    · exact h.page_not_table q hq hin'
    · exact hpage q hq (Or.inl hin')
  · rcases (hholds (held ++ live) q fun b hb => hb).mp hin with hin | hin
    · exact hpage q hq (Or.inr hin)
    · exact h.page_not_block q hq hin

/-- **A page is given back.** -/
theorem freesFrame (h : Owes s₀ s live held pages) {page : Nat} (hin : page / 4096 ∈ pages)
    {u : Unit} (hrun : pmmFreePage page s = .ok (u, s')) :
    Owes s₀ s' live held (pages.erase (page / 4096)) := by
  obtain ⟨hinv, hkeeps⟩ := h.inv.freesFrame (h.page_not_table _ hin) (h.page_lt _ hin)
    (h.page_not_block _ hin)
  rw [← pmmFreePage_ok hrun] at hinv hkeeps
  have hholds : ∀ (blocks : List Block) q, (∀ b ∈ blocks, b ∈ held ++ live) →
      (HoldsFrame s' blocks q ↔ HoldsFrame s blocks q) := fun blocks q hsub =>
    holdsFrame_keeps fun b hb => hkeeps b (hsub b hb)
  have hheld : ∀ q, HoldsFrame s' held q ↔ HoldsFrame s held q := fun q =>
    hholds held q fun b hb => List.mem_append_left _ hb
  have hframes : s'.tableFrames = s.tableFrames := by
    rw [pmmFreePage_ok hrun]
    rfl
  refine ⟨hinv, fun b hb => (h.keeps b hb).trans (hkeeps b (List.mem_append_right _ hb)),
    h.tables.trans hframes.ge, fun q => ?_, fun q hq => ?_, fun q hq => h.page_lt q (Finset.mem_of_mem_erase hq),
    fun q hq => ?_, fun q hq => ?_⟩
  · have htest : s'.pmm.bitmap.test q = true ↔ s.pmm.bitmap.test q = true ∧ q ≠ page / 4096 := by
      rw [pmmFreePage_ok hrun]
      show (pmmMarkPageFree page s.pmm).bitmap.test q = true ↔ _
      rw [test_markPageFree, Bool.and_eq_true, Bool.not_eq_true', decide_eq_false_iff_not, ne_comm]
    rw [htest, h.test_iff, hframes, hheld, Finset.mem_erase]
    -- the page was not used before, is no table and belongs to no block
    have hbefore : q = page / 4096 → ¬ (s₀.pmm.bitmap.test q = true ∨
        q ∈ s.tableFrames \ s₀.tableFrames ∨ HoldsFrame s held q) := by
      rintro rfl (hused | htable | hblock)
      · rw [h.taken _ (Or.inl hin)] at hused
        cases hused
      · exact h.page_not_table _ hin htable.1
      · exact h.page_not_block _ hin (holdsFrame_append hblock)
    exact account_frees_page hbefore
  · exact h.taken q (hq.imp Finset.mem_of_mem_erase (hheld q).mp)
  · rw [hframes]
    exact h.page_not_table q (Finset.mem_of_mem_erase hq)
  · rw [hholds _ q fun b hb => hb]
    exact h.page_not_block q (Finset.mem_of_mem_erase hq)

/-- **A block is given back.** -/
theorem kfree {b : Block} (h : Owes s₀ s live (b :: held) pages) {u : Unit}
    (hrun : Kernel.kfree b.ptr s = .ok (u, s')) : Owes s₀ s' live held pages := by
  have hb : b.Held s := h.inv.held b (List.mem_cons_self ..)
  obtain ⟨hunback, -⟩ := kfree_ok h.inv.tree hb hrun
  have hinv₀ : HeapInv s ([] ++ b :: (held ++ live)) := h.inv
  obtain ⟨hinv, hkeeps⟩ := kfree_spec hinv₀ hrun
  have hholds : ∀ (blocks : List Block) q, (∀ c ∈ blocks, c ∈ held ++ live) →
      (HoldsFrame s' blocks q ↔ HoldsFrame s blocks q) := fun blocks q hsub =>
    holdsFrame_keeps fun c hc => hkeeps c (hsub c hc)
  have hheld : ∀ q, HoldsFrame s' held q ↔ HoldsFrame s held q := fun q =>
    hholds held q fun c hc => List.mem_append_left _ hc
  have hcons : ∀ q, HoldsFrame s (b :: held) q ↔
      (∃ i, i < b.pages ∧ q = frameOf s (b.page i)) ∨ HoldsFrame s held q := fun q =>
    holdsFrame_cons [] held b
  refine ⟨hinv, fun c hc => (h.keeps c hc).trans (hkeeps c (List.mem_append_right held hc)),
    h.tables.trans hunback.frames_eq.ge, fun q => ?_, fun q hq => ?_, h.page_lt, fun q hq => ?_,
    fun q hq hin => ?_⟩
  · have htest : s'.pmm.bitmap.test q = true ↔
        s.pmm.bitmap.test q = true ∧ ¬ ∃ i, i < b.pages ∧ q = frameOf s (b.page i) := by
      rw [← Bool.not_eq_false, hunback.test_iff, not_or, Bool.not_eq_false]
      exact Iff.rfl
    -- the frames of the block were not used before, are no tables and belong to nothing else
    have hbefore : (∃ i, i < b.pages ∧ q = frameOf s (b.page i)) →
        ¬ (s₀.pmm.bitmap.test q = true ∨ q ∈ s.tableFrames \ s₀.tableFrames ∨ q ∈ pages ∨
          HoldsFrame s held q) := by
      intro hmine
      have hown : HoldsFrame s (b :: held) q := (hcons q).mpr (Or.inl hmine)
      rintro (hused | htable | hpage | hblock)
      · rw [h.taken q (Or.inr hown)] at hused
        cases hused
      · exact h.inv.holds_not_table (holdsFrame_append hown) htable.1
      · exact h.page_not_block q hpage (holdsFrame_append hown)
      · obtain ⟨i, hi, rfl⟩ := hmine
        obtain ⟨c, hc, j, hj, heq⟩ := hblock
        have hmem : c ∈ held ++ live := List.mem_append_left live hc
        exact (hinv₀.apart_rest hmem i j hi hj).2 heq
    rw [htest, h.test_iff, hcons, hunback.frames_eq, hheld]
    exact account_frees_block hbefore
  · exact h.taken q (hq.imp_right fun hq => (hcons q).mpr (Or.inr ((hheld q).mp hq)))
  · rw [hunback.frames_eq]
    exact h.page_not_table q hq
  · refine h.page_not_block q hq ?_
    rw [hholds _ q fun c hc => hc] at hin
    exact (holdsFrame_cons [] (held ++ live) b).mpr (Or.inr hin)

end Owes

/-! ## The calls -/

theorem kcalloc_thread : kcalloc SIZEOF_THREAD 1 = kmalloc SIZEOF_THREAD :=
  congrArg kmalloc (show u64 (SIZEOF_THREAD * 1) = SIZEOF_THREAD by decide)

theorem kcalloc_table :
    kcalloc SIZEOF_POINTER MAX_THREADS = kmalloc (SIZEOF_POINTER * MAX_THREADS) :=
  congrArg kmalloc (show u64 (SIZEOF_POINTER * MAX_THREADS) = SIZEOF_POINTER * MAX_THREADS by decide)

/-- Two blocks have different addresses. -/
theorem Block.Apart.ptr_ne {s : State} {b c : Block} (h : Block.Apart s b c) : b.ptr ≠ c.ptr := by
  intro heq
  refine (h 0 0 b.pages_pos c.pages_pos).1 ?_
  rw [Block.page, Block.page, Block.base, Block.base, heq]

/-- Freeing the block that was allocated last. -/
theorem without_head {s : State} {b : Block} {own others : List Block}
    (h : HeapInv s (b :: own ++ others)) : without b.ptr (b :: own) = own := by
  have hne : ∀ c ∈ own, (c.ptr != b.ptr) = true := by
    intro c hc
    have hapart := (List.pairwise_cons.mp h.apart).1 c (List.mem_append_left others hc)
    simpa using hapart.ptr_ne.symm
  rw [without, List.filter_cons_of_neg (by simp), List.filter_eq_self.mpr hne]

/-- When there is no root, only `pmm_mutex` has changed. -/
theorem newPml4_null {s s' : State} (hrun : newPml4 s = .ok (0, s')) :
    s' = { s with mutexes := Function.update s.mutexes .pmm_mutex true } := by
  rw [newPml4] at hrun
  obtain ⟨page, s₁, halloc, hrest⟩ := Prog.bind_eq_ok.mp hrun
  by_cases hz : page = 0
  · subst hz
    rw [if_pos rfl] at hrest
    obtain ⟨-, rfl⟩ := Prod.mk.inj (Except.ok.inj hrest)
    exact pmmAllocPage_null halloc
  · rw [if_neg hz] at hrest
    exact absurd (Prod.mk.inj (Except.ok.inj hrest)).1 hz

/-- What a call leaves to the heap: its blocks are in order, and those that were there are kept. -/
structure HeapKept (t t' : Tracked) : Prop where
  inv : HeapInv t'.kernel t'.live
  keeps : ∀ b ∈ t.live, b.Keeps t.kernel t'.kernel
  unlocked : t'.kernel.mutexes .sched_mutex = false
  others_eq : t'.others = t.others

section Calls

variable {t : Tracked} {k : State} {s : Sched} {own : List Block} {printed : List String}

theorem HeapKept.after (hinv : HeapInv k (own ++ t.others))
    (hkeeps : ∀ b ∈ t.live, b.Keeps t.locked k) : HeapKept t (t.after k s own printed) :=
  ⟨hinv.relock _, fun b hb => ((hkeeps b hb).of_relock).relock _, release_self .sched_mutex k, rfl⟩

theorem Undone.heapKept (hu : Undone t.locked k t.live) :
    HeapKept t (t.after k s t.own printed) := .after hu.inv hu.keeps

variable (h : HeapInv t.kernel t.live)

include h

theorem HeapInv.locked : HeapInv t.locked t.live := h.relock _

/-- A call that does nothing. -/
theorem undone_locked : Undone t.locked t.locked t.live := .same h.locked t.locked.mutexes

end Calls

theorem thread_fits : SIZEOF_THREAD + 16 + 4095 < 2 ^ 64 := by decide

theorem table_fits : SIZEOF_POINTER * MAX_THREADS + 16 + 4095 < 2 ^ 64 := by decide

theorem stack_fits : THREAD_STACK + 16 + 4095 < 2 ^ 64 := by decide

/-- **`create_thread` keeps the heap in order.** -/
theorem ThreadCall.heapKept {t t' : Tracked} {entry : Nat} {r : Option Nat}
    (hcall : ThreadCall entry t r t') (h : HeapInv t.kernel t.live) : HeapKept t t' := by
  have hthreads : ∀ {thread k₁}, kcalloc SIZEOF_THREAD 1 t.locked = .ok (thread, k₁) →
      thread ≠ 0 → HeapInv k₁ (threadBlock thread :: t.live) ∧ ∀ b ∈ t.live, b.Keeps t.locked k₁ := by
    intro thread k₁ hthread hne
    rw [kcalloc_thread] at hthread
    have hspec := kmalloc_spec h.locked thread_fits hthread
    rwa [if_neg hne] at hspec
  -- what the call has taken when it fails it gives back
  cases hcall with
  | full hfind => exact (undone_locked h).heapKept
  | refused hfind hthread =>
      rw [kcalloc_thread] at hthread
      obtain ⟨hinv, hkeeps⟩ := kmalloc_spec h.locked thread_fits hthread
      exact .after hinv hkeeps
  | @noStack tid thread k₁ k₂ k₃ hfind hthread hne hpid hstack hfree =>
      obtain ⟨hinv₁, hkeeps₁⟩ := hthreads hthread hne
      obtain ⟨hinv₂, hkeeps₂⟩ := kmalloc_spec hinv₁ stack_fits hstack
      have hinv₂' : HeapInv k₂ ([] ++ threadBlock thread :: t.live) := hinv₂
      obtain ⟨hinv₃, hkeeps₃⟩ := kfree_spec hinv₂' hfree
      have hwithout : without thread (threadBlock thread :: t.own) = t.own := without_head hinv₂
      rw [hwithout]
      exact .after hinv₃ fun b hb => (hkeeps₁ b hb).trans
        ((hkeeps₂ b (List.mem_cons_of_mem _ hb)).trans (hkeeps₃ b hb))
  | kernel hfind hthread hne hpid hstack hsne =>
      obtain ⟨hinv₁, hkeeps₁⟩ := hthreads hthread hne
      obtain ⟨hinv₂, hkeeps₂⟩ := kmalloc_spec hinv₁ stack_fits hstack
      rw [if_neg hsne] at hinv₂
      exact .after hinv₂ fun b hb => (hkeeps₁ b hb).trans (hkeeps₂ b (List.mem_cons_of_mem _ hb))
  | user hfind hthread hne hpid =>
      obtain ⟨hinv₁, hkeeps₁⟩ := hthreads hthread hne
      exact .after hinv₁ hkeeps₁

/-- The account of `create_process` with a root. -/
theorem owes_root {t : Tracked} (h : HeapInv t.kernel t.live) {cr3 : Nat} {k₁ : State}
    (hroot : newPml4 t.locked = .ok (cr3, k₁)) (hcr3 : cr3 ≠ 0) :
    Owes t.locked k₁ t.live [] {cr3 / 4096} := .takesFrame h.locked (newPml4_takes hroot hcr3)

/-- The account with the table of threads. -/
theorem Owes.table {s₀ k₁ k₂ : State} {live held : List Block} {pages : Finset Nat} {threads : Nat}
    (ho : Owes s₀ k₁ live held pages)
    (htable : kcalloc SIZEOF_POINTER MAX_THREADS k₁ = .ok (threads, k₂)) (hne : threads ≠ 0) :
    Owes s₀ k₂ live (tableBlock threads :: held) pages :=
  ho.kmalloc table_fits (kcalloc_table ▸ htable) hne

/-- The account with the thread. -/
theorem Owes.thread {s₀ k₁ k₂ : State} {live held : List Block} {pages : Finset Nat} {thread : Nat}
    (ho : Owes s₀ k₁ live held pages)
    (hthread : kcalloc SIZEOF_THREAD 1 k₁ = .ok (thread, k₂)) (hne : thread ≠ 0) :
    Owes s₀ k₂ live (threadBlock thread :: held) pages :=
  ho.kmalloc thread_fits (kcalloc_thread ▸ hthread) hne

/-- The account when the root is given back. -/
theorem Owes.freesRoot {s₀ s s' : State} {live held : List Block} {page : Nat}
    (ho : Owes s₀ s live held {page / 4096}) {u : Unit} (hpage : pmmFreePage page s = .ok (u, s')) :
    Owes s₀ s' live held ∅ := by
  have ho' := ho.freesFrame (Finset.mem_singleton_self _) hpage
  rwa [Finset.erase_singleton] at ho'

/-- The list of blocks when the block that was taken last is given back. -/
theorem Owes.without {t : Tracked} {s₀ s : State} {held : List Block} {pages : Finset Nat}
    {b : Block} (ho : Owes s₀ s t.live (b :: held) pages) :
    without b.ptr (b :: (held ++ t.own)) = held ++ t.own := by
  have hinv : HeapInv s (b :: (held ++ t.own) ++ t.others) := by
    rw [List.cons_append, List.append_assoc]
    exact ho.inv
  exact without_head hinv

/-- **`create_process` that fails undoes what it did.** -/
theorem ProcessCall.undone {t t' : Tracked} {entry : Nat} (hcall : ProcessCall entry t none t')
    (h : HeapInv t.kernel t.live) : HeapKept t t' ∧ t'.own = t.own ∧
      Undone t.kernel t'.kernel t.live := by
  -- what is undone in front of the release is undone behind it
  have hend : ∀ {k : State} {s : Sched} {printed : List String}, Undone t.locked k t.live →
      HeapKept t (t.after k s t.own printed) ∧ (t.after k s t.own printed).own = t.own ∧
        Undone t.kernel (t.after k s t.own printed).kernel t.live :=
    fun hu => ⟨hu.heapKept, rfl, (hu.relock _).of_relock⟩
  cases hcall with
  | full hfind => exact hend (undone_locked h)
  | noRoot hfind hf hroot =>
      rw [newPml4_null hroot]
      exact hend (.same h.locked _)
  | noTable hfind hf hroot hcr3 htable hpage =>
      rw [kcalloc_table] at htable
      obtain rfl := kmalloc_null_same htable hpage
      exact hend ((owes_root h hroot hcr3).freesRoot hpage).undone
  | @noThread pid cr3 threads k₁ k₂ k₃ k₄ k₅ f hfind hf hroot hcr3 htable htne hthread hpage hfree =>
      rw [kcalloc_thread] at hthread
      obtain rfl := kmalloc_null_same hthread hpage
      have htaken := (owes_root h hroot hcr3).table htable htne
      have hwithout : without threads (tableBlock threads :: t.own) = t.own := htaken.without
      rw [hwithout]
      exact hend ((htaken.freesRoot hpage).kfree hfree).undone
  | @noStack pid cr3 threads thread k₁ k₂ k₃ k₄ k₅ k₆ k₇ f hfind hf hroot hcr3 htable htne hthread hne
      hfirst hstack hpage hfree hfree' =>
      obtain rfl := kmalloc_null_same hstack hpage
      have htaken := (owes_root h hroot hcr3).table htable htne
      have hboth := htaken.thread hthread hne
      have hwithout : without thread (threadBlock thread :: tableBlock threads :: t.own)
          = tableBlock threads :: t.own := hboth.without
      have hwithout' : without threads (tableBlock threads :: t.own) = t.own := htaken.without
      rw [hwithout, hwithout']
      exact hend (((hboth.freesRoot hpage).kfree hfree).kfree hfree').undone

/-- **`create_process` keeps the heap in order.** -/
theorem ProcessCall.heapKept {t t' : Tracked} {entry : Nat} {r : Option Nat}
    (hcall : ProcessCall entry t r t') (h : HeapInv t.kernel t.live) : HeapKept t t' := by
  cases r with
  | none => exact (hcall.undone h).1
  | some pid =>
      cases hcall with
      | first hfind hroot hcr3 htable htne hthread hne hfirst hstack hsne =>
          have hboth := ((owes_root h hroot hcr3).table htable htne).thread hthread hne
          have hall := hboth.kmalloc stack_fits hstack hsne
          exact .after hall.inv hall.keeps
      | later hfind hroot hcr3 htable htne hthread hne hlater =>
          have hboth := ((owes_root h hroot hcr3).table htable htne).thread hthread hne
          exact .after hboth.inv hboth.keeps

end Windozz.Kernel

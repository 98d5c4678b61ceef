import Windozz.Kernel.Demand

set_option autoImplicit false

/-! # Where the pages run out

`vmm_alloc` decides for a range before it asks for a page, so a call that allocates several ranges
takes them at places that the state before it determines. `State.Starves` says there that the pages
run out in one of them. `kmalloc_places` and `kmalloc_supplied` connect it with the blocks of the
heap.
-/

namespace Windozz.Kernel

open Radix

/-! ## Places -/

/-- The first range of `count` pages, in the order of `vmm_find`, whose pages are all free. -/
def firstFit (free : Nat → Bool) (count : Nat) : Nat → Nat → Nat → Option Nat
  | 0, _, _ => none
  | fuel + 1, ptr, i =>
      if pageAt ptr count < PHYSICAL_MEMORY ∨ MMIO_REGION ≤ ptr then
        if free (pageAt ptr i) then
          if count ≤ u64 (i + 1) then some ptr else firstFit free count fuel ptr (u64 (i + 1))
        else firstFit free count fuel (u64 (ptr + PAGE_SIZE)) 0
      else some 0

/-- The address is not mapped, and in none of these pages. -/
def State.isFree (s : State) (pages : List Nat) (va : Nat) : Bool :=
  vmmGetPhysical va s = none && pages.all fun page => pageOf va ≠ pageOf page

/-- What `vmm_find` finds when these pages are mapped as well. -/
def State.findBeside (s : State) (pages : List Nat) (start count : Nat) : Option Nat :=
  firstFit (s.isFree pages) count (2 ^ 128) start 0

/-- When these pages are mapped already, `vmm_alloc` decides for this range. -/
def State.Places (s : State) (taken : Nat) (pages : List Nat) (start count p : Nat) : Prop :=
  count < u64 (s.pmm.total_pages + (2 ^ 64 - u64 (s.pmm.used_pages + s.demand taken pages))) ∧
    s.findBeside pages start count = some p ∧ p ≠ 0

/-- One after the other, ranges of these sizes are allocated, and the pages run out in one of them:
before it is complete, all the pages that can be found are handed out. The ranges before it are
complete and at canonical addresses. -/
def State.Starves (s : State) (start taken : Nat) : List Nat → List Nat → Prop
  | _, [] => False
  | pages, count :: counts => ∃ p, s.Places taken pages start count p ∧
      ((∃ i, i < count ∧ s.pmm.RunsOut (s.demand taken (pages ++ pagesFrom p 0 i))) ∨
        (∀ i, i < count → Canonical (pageAt p i)) ∧
          s.Starves start taken (pages ++ pagesFrom p 0 count) counts)

theorem isFree_iff {s : State} {pages : List Nat} {va : Nat} : s.isFree pages va = true ↔
    vmmGetPhysical va s = none ∧ ∀ page ∈ pages, pageOf va ≠ pageOf page := by
  simp [State.isFree]

theorem isFree_nil {s : State} {va : Nat} : s.isFree [] va = true ↔ vmmGetPhysical va s = none := by
  simp [State.isFree]

theorem findLoop_eq {s t : State} {pages : List Nat} (count : Nat)
    (h : ∀ va, vmmGetPhysical va t = none ↔ s.isFree pages va = true) (fuel : Nat) :
    ∀ ptr i, findLoop t count fuel ptr i = firstFit (s.isFree pages) count fuel ptr i := by
  induction fuel with
  | zero => exact fun _ _ => rfl
  | succ fuel ih =>
      intro ptr i
      simp only [findLoop, firstFit, h, ih]

/-- The pages of the range that is found are free. -/
theorem firstFit_free {free : Nat → Bool} {count p : Nat} (hp : p ≠ 0) (fuel : Nat) :
    ∀ {ptr i : Nat}, (∀ j, j < i → free (pageAt ptr j) = true) →
      firstFit free count fuel ptr i = some p → ∀ j, j < count → free (pageAt p j) = true := by
  induction fuel with
  | zero =>
      intro ptr i _ hfind
      cases hfind
  | succ fuel ih =>
      intro ptr i hbefore hfind
      rw [firstFit] at hfind
      split at hfind
      · split at hfind
        · rename_i hfree
          have hnext : ∀ j, j < u64 (i + 1) → free (pageAt ptr j) = true := by
            intro j hj
            rcases Nat.lt_or_ge j i with hlt | hge
            · exact hbefore j hlt
            · obtain rfl : j = i := by
                unfold u64 at hj
                omega
              exact hfree
          split at hfind
          · rename_i hall
            rw [← Option.some.inj hfind]
            exact fun j hj => hnext j (by omega)
          · exact ih hnext hfind
        · exact ih (fun j hj => absurd hj (Nat.not_lt_zero _)) hfind
      · exact absurd (Option.some.inj hfind).symm hp

/-- Between two states `taken` pages were handed out, and these pages were mapped. -/
structure Spent (s s' : State) (taken : Nat) (pages : List Nat) : Prop where
  spends : Spends s s' (taken + pages.length) (pages.flatMap tablePaths)
  sound : s'.Sound
  free_iff : ∀ va, vmmGetPhysical va s' = none ↔ s.isFree pages va = true

namespace Spent

variable {s s' s'' : State} {taken taken' : Nat} {pages pages' : List Nat}

theorem find_eq (h : Spent s s' taken pages) (start count : Nat) :
    vmmFind start count s' = s.findBeside pages start count := findLoop_eq count h.free_iff _ _ _

/-- Nothing but the mutexes changed. -/
theorem relock (h : s.Sound) (m : Mutex → Bool) : Spent s { s with mutexes := m } 0 [] :=
  ⟨.same rfl fun _ _ => rfl, h.relock m, fun _ => isFree_nil.symm⟩

theorem trans (h : Spent s s' taken pages) (h' : Spent s' s'' taken' pages') :
    Spent s s'' (taken + taken') (pages ++ pages') := by
  refine ⟨?_, h'.sound, fun va => ?_⟩
  · rw [List.flatMap_append, List.length_append, Nat.add_add_add_comm]
    exact h.spends.trans h'.spends
  · simp only [h'.free_iff, isFree_iff, h.free_iff, List.forall_mem_append, and_assoc]

/-- What runs out behind it. -/
theorem runsOut_iff (h : Spent s s' taken pages) {taken' : Nat} {pages' : List Nat} :
    s'.pmm.RunsOut (s'.demand taken' pages') ↔
      s.pmm.RunsOut (s.demand (taken + taken') (pages ++ pages')) := by
  rw [State.demand, h.spends.runsOut_iff tablePaths_short, State.demand, List.flatMap_append,
    List.length_append]
  refine iff_of_eq (congrArg _ ?_)
  omega

/-- A page that is for nothing mapped. -/
theorem take {page : Nat} (h : s.Sound) (halloc : pmmAllocPage s = .ok (page, s')) (hne : page ≠ 0) :
    Spent s s' 1 [] := by
  obtain ⟨h', hspends, rfl⟩ := h.take halloc hne
  exact ⟨hspends, h', fun _ => isFree_nil.symm⟩

/-- Stores outside of the tables. -/
theorem stores {F : Set Nat} (h : s.Sound) (hstores : Stores s s' F)
    (hF : ∀ k ∈ F, k ∉ s.tableFrames) : Spent s s' 0 [] := by
  have hpmm := hstores.pmm_eq
  refine ⟨.same hpmm fun js hjs => ?_, ⟨hstores.pageTree hF h.tree, fun q hq => ?_, fun q hq => ?_,
    hpmm ▸ h.highest_lt⟩, fun va => ?_⟩
  · rw [hstores.root_eq]
    exact walk_frame (n := 3) (hstores.tables_eq hF) hjs
  · rw [hpmm] at hq
    rw [hstores.frames_eq hF]
    exact h.fresh q hq
  · exact h.window q (hpmm ▸ hq)
  · rw [isFree_nil, hstores.getPhysical_eq hF]

end Spent

theorem mem_pagesFrom {ptr page : Nat} (n : Nat) : ∀ {i : Nat},
    page ∈ pagesFrom ptr i n ↔ ∃ j, i ≤ j ∧ j < i + n ∧ page = pageAt ptr j := by
  induction n with
  | zero =>
      intro i
      refine iff_of_false List.not_mem_nil ?_
      rintro ⟨j, hge, hlt, -⟩
      omega
  | succ n ih =>
      intro i
      rw [pagesFrom, List.mem_cons, ih]
      constructor
      · rintro (rfl | ⟨j, hge, hlt, rfl⟩)
        · exact ⟨i, le_refl _, by omega, rfl⟩
        · exact ⟨j, by omega, by omega, rfl⟩
      · rintro ⟨j, hge, hlt, rfl⟩
        rcases Nat.eq_or_lt_of_le hge with rfl | hgt
        · exact Or.inl rfl
        · exact Or.inr ⟨j, hgt, by omega, rfl⟩

section Range

variable {s s' : State} {start count flags p : Nat}

/-- What `vmm_alloc` does to return a range. -/
theorem vmmAlloc_ok (hne : p ≠ 0) (hrun : vmmAlloc start count flags s = .ok (p, s')) :
    count < u64 (s.pmm.total_pages + (2 ^ 64 - u64 s.pmm.used_pages)) ∧
      vmmFind start count s = some p ∧
      ∃ s₁, allocLoop p flags count 0
        { s with mutexes := Function.update s.mutexes .vmm_mutex true } = .ok (true, s₁) ∧
      s' = { s₁ with mutexes := Function.update s₁.mutexes .vmm_mutex false } := by
  have hfind := vmmAlloc_find hne hrun
  rw [vmmAlloc, Prog.bind_ok (Prog.run_get _)] at hrun
  split at hrun
  · exact absurd (Prod.mk.inj (Except.ok.inj hrun)).1.symm hne
  · rename_i hguard
    simp only [hfind, if_neg hne] at hrun
    obtain ⟨_, s₁, hacquire, hrun⟩ := Prog.bind_eq_ok.mp hrun
    obtain ⟨done, s₂, hloop, hrun⟩ := Prog.bind_eq_ok.mp hrun
    rw [Prog.bind_ok (run_release _ _)] at hrun
    rw [acquire_ok hacquire] at hloop
    cases done with
    | true => exact ⟨not_le.mp hguard, hfind, s₂, hloop, (Prod.mk.inj (Except.ok.inj hrun)).2.symm⟩
    | false => exact absurd (Prod.mk.inj (Except.ok.inj hrun)).1.symm hne

/-- With the pages left for it, `vmm_alloc` returns the range it found. -/
theorem vmmAlloc_left (h : s.Sound) (hpmm : s.mutexes .pmm_mutex = false)
    (hvmm : s.mutexes .vmm_mutex = false)
    (hguard : count < u64 (s.pmm.total_pages + (2 ^ 64 - u64 s.pmm.used_pages)))
    (hfind : vmmFind start count s = some p) (hne : p ≠ 0)
    (hlarge : ∀ i, i < count → s.NoLargePage (pageAt p i)) {m : Nat}
    (hleft : s.pmm.RunsOut (s.demand m (pagesFrom p 0 count))) (flags : Nat) :
    ∃ s', vmmAlloc start count flags s = .ok (p, s') ∧ s'.mutexes = s.mutexes := by
  obtain ⟨s₁, hloop, hmutexes⟩ := allocLoop_left flags count
    (h.relock (Function.update s.mutexes .vmm_mutex true)) (fun j _ hj => hlarge j (by omega))
    (by simpa using hpmm) hleft
  refine ⟨{ s₁ with mutexes := Function.update s₁.mutexes .vmm_mutex false }, ?_, ?_⟩
  · rw [vmmAlloc, Prog.bind_ok (Prog.run_get _), if_neg (not_le.mpr hguard)]
    simp only [hfind, if_neg hne]
    rw [Prog.bind_ok (acquire_free hvmm), Prog.bind_ok hloop, Prog.bind_ok (run_release _ _)]
    rfl
  · rw [hmutexes]
    exact release_acquire hvmm

/-- The range that it returns is mapped then. -/
theorem vmmAlloc_spent (h : s.Sound) (hstart : start % 4096 = 0) (hlt : start < 2 ^ 64) (hne : p ≠ 0)
    (hrun : vmmAlloc start count KERNEL_HEAP_FLAGS s = .ok (p, s')) :
    Spent s s' 0 (pagesFrom p 0 count) := by
  obtain ⟨-, hfind, s₁, hloop, rfl⟩ := vmmAlloc_ok hne hrun
  obtain ⟨q, frames, new, hback, -, -, -, hall⟩ :=
    vmmAlloc_spec h.tree h.fresh h.window hstart hlt (by decide) hrun
  obtain ⟨rfl, hlen⟩ := hall hne
  have hnone := (vmmFind_spec hstart hlt hfind hne).2.2
  have habsent := fun i hi => (vmmGetPhysical_none.mp (hnone i hi)).2
  have hspends := allocLoop_spends count (h.relock (Function.update s.mutexes .vmm_mutex true))
    (fun j _ hj => noLargePage_of_absent (habsent j (Nat.zero_add count ▸ hj))) hloop
  refine ⟨?_, ⟨hback.tree, hback.fresh, fun k hk => ?_, ?_⟩, fun va => ?_⟩
  · rw [length_pagesFrom, Nat.zero_add]
    exact ⟨hspends.draws, hspends.short, hspends.walk_iff⟩
  · exact h.window k (hback.takes.free_iff.mp hk).1
  · exact hback.takes.highest_eq ▸ h.highest_lt
  · simp only [isFree_iff, vmmGetPhysical_none, mem_pagesFrom, and_assoc]
    refine and_congr_right fun _ => ?_
    by_cases hin : ∃ j, j < count ∧ pageOf va = pageOf (pageAt p j)
    -- a page of the range
    · obtain ⟨j, hj, hpage⟩ := hin
      have hk := hback.mapped j _ (List.getElem?_eq_getElem (hlen ▸ hj))
      rw [or_flags (Nat.mul_mod_left _ _) (by decide)] at hk
      refine iff_of_false ?_ fun hother => hother.2 _ ⟨j, Nat.zero_le j, by omega, rfl⟩ hpage
      rw [vmmGetPage_congr hpage, hk, and_present]
      show ¬ (_ + 3) % 2 = 0
      omega
    -- another page
    · rw [hback.other va fun j hj hpage => hin ⟨j, hlen ▸ hj, hpage⟩]
      refine (and_iff_left ?_).symm
      rintro page ⟨j, -, hj, rfl⟩ hpage
      exact hin ⟨j, by omega, hpage⟩

end Range

/-! ## Blocks -/

/-- Bytes are stored at canonical addresses. -/
theorem storeBytes_canonical (bs : List UInt8) : ∀ {s s' : State} {va j : Nat} {u : Unit},
    storeBytes va bs s = .ok (u, s') → va < 2 ^ 64 → j < bs.length → Canonical (byteAddr va j) := by
  induction bs with
  | nil => exact fun _ _ hj => absurd hj (Nat.not_lt_zero _)
  | cons b bs ih =>
      intro s s' va j u hrun hva hj
      obtain ⟨_, s₁, hbyte, hrun⟩ := Prog.bind_eq_ok.mp hrun
      cases j with
      | zero =>
          obtain ⟨pa, htranslate, -⟩ := storeByte_ok hbyte
          rw [byteAddr_zero hva]
          by_contra hc
          rw [translate, if_pos hc] at htranslate
          cases htranslate
      | succ j =>
          rw [← byteAddr_succ]
          exact ih hrun (u64_lt _) (Nat.lt_of_succ_lt_succ hj)

section Blocks

variable {s k k' : State} {taken n p : Nat} {pages : List Nat}

/-- A block that `kmalloc` returns. -/
theorem kmalloc_spent (h : k.Sound) (hheap : k.mutexes .heap_mutex = false)
    (hn : n + 16 + 4095 < 2 ^ 64) {k₁ : State}
    (halloc : vmmAlloc KERNEL_HEAP (kmallocPages n) KERNEL_HEAP_FLAGS
      { k with mutexes := Function.update k.mutexes .heap_mutex true } = .ok (p, k₁)) (hne : p ≠ 0)
    (hcanonical : ∀ i, i < kmallocPages n → Canonical (pageAt p i)) :
    ∃ k', kmalloc n k = .ok (p + 16, k') ∧ Spent k k' 0 (pagesFrom p 0 (kmallocPages n)) ∧
      k'.mutexes = Function.update k₁.mutexes .heap_mutex false := by
  have hspent := (Spent.relock h (Function.update k.mutexes .heap_mutex true)).trans
    (vmmAlloc_spent (h.relock _) (by decide) (by decide) hne halloc)
  rw [kmallocPages_of_lt hn] at halloc hcanonical
  obtain ⟨k₂, F, hrun, hstores, hF⟩ :=
    kmalloc_stored h.tree h.fresh h.window hn hheap halloc hne hcanonical
  have hstored := hspent.trans (.stores hspent.sound hstores hF)
  have hend := hstored.trans (.relock hstored.sound (Function.update k₁.mutexes .heap_mutex false))
  simp only [List.nil_append, List.append_nil] at hend
  exact ⟨_, hrun, hend, rfl⟩

/-- What `kmalloc` does to return a block. -/
theorem kmalloc_returned (hn : n + 16 + 4095 < 2 ^ 64) {q : Nat} (hne : q ≠ 0)
    (hrun : kmalloc n k = .ok (q, k')) : ∃ p k₁, q = p + 16 ∧ p ≠ 0 ∧
      vmmAlloc KERNEL_HEAP (kmallocPages n) KERNEL_HEAP_FLAGS
        { k with mutexes := Function.update k.mutexes .heap_mutex true } = .ok (p, k₁) ∧
      ∀ i, i < kmallocPages n → Canonical (pageAt p i) := by
  have hact : u64 (n + 16) = n + 16 := u64_of_lt (by omega)
  rw [kmalloc] at hrun
  obtain ⟨_, k₀, hacquire, hrun⟩ := Prog.bind_eq_ok.mp hrun
  obtain ⟨p, k₁, halloc, hrun⟩ := Prog.bind_eq_ok.mp hrun
  rw [acquire_ok hacquire] at halloc
  by_cases hp : p = 0
  · rw [if_pos hp] at hrun
    exact absurd (Prod.mk.inj (Except.ok.inj hrun)).1.symm hne
  · rw [if_neg hp] at hrun
    obtain ⟨halign, hlt, -⟩ := vmmFind_spec (by decide) (by decide) (vmmAlloc_find hp halloc) hp
    obtain ⟨_, k₂, hmemset, hrun⟩ := Prog.bind_eq_ok.mp hrun
    obtain ⟨_, k₃, -, hrun⟩ := Prog.bind_eq_ok.mp hrun
    obtain ⟨_, k₄, -, hrun⟩ := Prog.bind_eq_ok.mp hrun
    refine ⟨p, k₁, ?_, hp, halloc, fun i hi => ?_⟩
    · rw [← (Prod.mk.inj (Except.ok.inj hrun)).1]
      exact u64_of_lt (by omega)
    · -- the first byte of the page is cleared
      rw [kmallocPages_of_lt hn] at hi
      have hbyte := storeBytes_canonical _ hmemset hlt (j := i * 4096) (by
        rw [List.length_replicate, hact]
        omega)
      have hoffset : u64 (i * 4096) = i * 4096 := u64_of_lt (by omega)
      rwa [pageAt, hoffset]

variable (h : Spent s k taken pages)

include h

/-- The guard and the search of `vmm_alloc`. -/
theorem places_iff (m : Mutex → Bool) {start count : Nat} : s.Places taken pages start count p ↔
    count < u64 (k.pmm.total_pages + (2 ^ 64 - u64 k.pmm.used_pages)) ∧
      vmmFind start count { k with mutexes := m } = some p ∧ p ≠ 0 := by
  have hused := h.spends.draws.used_eq
  have htotal := h.spends.draws.total_eq
  have hfind : vmmFind start count { k with mutexes := m } = vmmFind start count k := by
    rw [(Spent.relock h.sound m).find_eq, ← (Spent.relock h.sound k.mutexes).find_eq]
  rw [hfind, h.find_eq, htotal, hused]
  rfl

/-- What `kmalloc` returns is one of these. -/
theorem kmalloc_places (hn : n + 16 + 4095 < 2 ^ 64) (hheap : k.mutexes .heap_mutex = false) {q : Nat}
    (hne : q ≠ 0) (hrun : kmalloc n k = .ok (q, k')) :
    ∃ p, q = p + 16 ∧ s.Places taken pages KERNEL_HEAP (kmallocPages n) p ∧
      (∀ i, i < kmallocPages n → Canonical (pageAt p i)) ∧
      Spent s k' taken (pages ++ pagesFrom p 0 (kmallocPages n)) := by
  obtain ⟨p, k₁, rfl, hp, halloc, hcanonical⟩ := kmalloc_returned hn hne hrun
  obtain ⟨k'', hrun', hspent, -⟩ := kmalloc_spent h.sound hheap hn halloc hp hcanonical
  obtain rfl := (Prod.mk.inj (Except.ok.inj (hrun'.symm.trans hrun))).2
  obtain ⟨hguard, hfind, -⟩ := vmmAlloc_ok hp halloc
  exact ⟨p, rfl, (places_iff h _).mpr ⟨hguard, hfind, hp⟩, hcanonical, h.trans hspent⟩

/-- With the pages left for it, `kmalloc` returns the block that it finds. -/
theorem kmalloc_supplied (hn : n + 16 + 4095 < 2 ^ 64) (hheap : k.mutexes .heap_mutex = false)
    (hvmm : k.mutexes .vmm_mutex = false) (hpmm : k.mutexes .pmm_mutex = false)
    (hplaces : s.Places taken pages KERNEL_HEAP (kmallocPages n) p)
    (hcanonical : ∀ i, i < kmallocPages n → Canonical (pageAt p i)) {m : Nat}
    (hleft : s.pmm.RunsOut (s.demand (taken + m) (pages ++ pagesFrom p 0 (kmallocPages n)))) :
    ∃ k', kmalloc n k = .ok (p + 16, k') ∧
      Spent s k' taken (pages ++ pagesFrom p 0 (kmallocPages n)) ∧ k'.mutexes = k.mutexes := by
  obtain ⟨hguard, hfind, hp⟩ :=
    (places_iff h (Function.update k.mutexes .heap_mutex true)).mp hplaces
  have hnone := (vmmFind_spec (by decide) (by decide) hfind hp).2.2
  obtain ⟨k₁, halloc, hmutexes⟩ := vmmAlloc_left
    (h.sound.relock (Function.update k.mutexes .heap_mutex true)) (by simpa using hpmm)
    (by simpa using hvmm) hguard hfind hp
    (fun i hi => noLargePage_of_absent (vmmGetPhysical_none.mp (hnone i hi)).2)
    (h.runsOut_iff.mpr hleft) KERNEL_HEAP_FLAGS
  obtain ⟨k', hrun, hspent, hmutexes'⟩ := kmalloc_spent h.sound hheap hn halloc hp hcanonical
  refine ⟨k', hrun, h.trans hspent, ?_⟩
  rw [hmutexes', hmutexes]
  exact release_acquire hheap

end Blocks

end Windozz.Kernel

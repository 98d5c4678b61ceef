import Windozz.Kernel.Slots

set_option autoImplicit false

/-! # The roots of the processes

`create_process` takes a page for the PML4 of the process and copies three entries of the PML4 of
the BSP to it. The other entries are what the page held before: `pmm_alloc_page` does not clear it,
nor does `create_process`, while `vmm_map_page` clears each table that it adds.

The calls that follow take blocks, and do not touch the page (`Owes.kmalloc_mem`). So the address
space is confined to the three entries when the page that is handed out is blank already
(`createProcess_confined_iff`).
-/

namespace Windozz.Kernel

open Relation

/-! ## Address spaces -/

/-- The entries of a PML4 that `create_process` copies. -/
def kernelSlots : Finset (Fin 512) := {256, 257, 258}

/-- The state in the address space with the root `cr3`. -/
def State.under (s : State) (cr3 : Nat) : State := { s with cr3 := cr3 }

/-- The address space with the root `cr3` consists of the slots of the kernel. -/
structure Confined (s : State) (cr3 : Nat) : Prop where
  /-- Translation is present in these slots only. -/
  present : ∀ v, vmmGetPage v (s.under cr3) &&& PAGE_PRESENT ≠ 0 → levelIndex 39 v ∈ kernelSlots
  /-- Any other slot is unmapped. -/
  unmapped : ∀ i : Fin 512, i ∉ kernelSlots → entry s.mem (pageMask cr3) i &&& PAGE_PRESENT = 0

/-- An address whose slot is not present is not mapped. -/
theorem vmmGetPage_unmapped {v : Nat} {s : State}
    (h : entry s.mem (pageMask s.cr3) (levelIndex 39 v) &&& PAGE_PRESENT = 0) :
    vmmGetPage v s = 0 := by
  rw [vmmGetPage]
  exact if_pos h

/-- What the entries say is enough. -/
theorem confined_iff {s : State} {cr3 : Nat} : Confined s cr3 ↔
    ∀ i : Fin 512, i ∉ kernelSlots → entry s.mem (pageMask cr3) i &&& PAGE_PRESENT = 0 := by
  refine ⟨Confined.unmapped, fun h => ⟨fun v hv => ?_, h⟩⟩
  by_contra hslot
  have hzero : vmmGetPage v (s.under cr3) = 0 := vmmGetPage_unmapped (h _ hslot)
  rw [hzero] at hv
  exact hv rfl

/-- The page that is handed out next holds no present entry outside the slots of the kernel. -/
def BlankRoot (s : State) : Prop := ∀ page, pmmFindPage s.pmm = some page →
  ∀ i : Fin 512, i ∉ kernelSlots → entry s.mem page i &&& PAGE_PRESENT = 0

/-! ## The page of the root -/

theorem entry_congr {m m' : Mem} {page : Nat} (halign : page % 4096 = 0)
    (h : ∀ a, a / 4096 = page / 4096 → m' a = m a) (i : Fin 512) :
    entry m' page i = entry m page i := by
  have hi := i.isLt
  exact Mem.qword_congr fun j hj => h _ (by omega)

/-- Copying an entry leaves the others. -/
theorem entry_copied {s : State} {cr3 i j : Nat} (hne : i ≠ j) :
    entry (s.copied cr3 j).mem cr3 i = entry s.mem cr3 i :=
  Mem.qword_setQword_disjoint (by omega)

theorem notMem_kernelSlots {i : Fin 512} (hi : i ∉ kernelSlots) :
    (i : Nat) ≠ 256 ∧ (i : Nat) ≠ 257 ∧ (i : Nat) ≠ 258 := by
  simp only [kernelSlots, Finset.mem_insert, Finset.mem_singleton, not_or] at hi
  exact ⟨fun h => hi.1 (Fin.ext h), fun h => hi.2.1 (Fin.ext h), fun h => hi.2.2 (Fin.ext h)⟩

/-- Outside the slots of the kernel the root holds what its page held. -/
theorem entry_kernelRoot {s : State} {cr3 : Nat} {i : Fin 512} (hi : i ∉ kernelSlots) :
    entry (s.kernelRoot cr3).mem cr3 i = entry s.mem cr3 i := by
  obtain ⟨h₁, h₂, h₃⟩ := notMem_kernelSlots hi
  calc entry (s.kernelRoot cr3).mem cr3 i
      = entry ((s.copied cr3 256).copied cr3 257).mem cr3 i := entry_copied h₃
    _ = entry (s.copied cr3 256).mem cr3 i := entry_copied h₂
    _ = entry s.mem cr3 i := entry_copied h₁

/-- The root is the page that is found, and nothing is cleared. -/
theorem newPml4_entry {s s' : State} {cr3 : Nat} (hrun : newPml4 s = .ok (cr3, s'))
    (hne : cr3 ≠ 0) : pmmFindPage s.pmm = some cr3 ∧ cr3 % 4096 = 0 ∧
      ∀ i : Fin 512, i ∉ kernelSlots → entry s'.mem cr3 i = entry s.mem cr3 i := by
  obtain ⟨s₁, halloc, rfl⟩ := newPml4_ok hrun hne
  obtain ⟨-, halign, -, -, rfl⟩ := pmmAllocPage_ok halloc hne
  exact ⟨pmmAllocPage_find halloc, halign, fun i hi => entry_kernelRoot hi⟩

/-- **A block is taken from other pages**: those in the account are not touched. -/
theorem Owes.kmalloc_mem {s₀ s s' : State} {live held : List Block} {pages : Finset Nat}
    (h : Owes s₀ s live held pages) {n ptr : Nat} (hn : n + 16 + 4095 < 2 ^ 64)
    (hrun : Kernel.kmalloc n s = .ok (ptr, s')) (hne : ptr ≠ 0) {a : Nat} (ha : a / 4096 ∈ pages) :
    s'.mem a = s.mem a := by
  rcases kmalloc_ok h.inv.tree h.inv.fresh h.inv.window hn hrun with
    ⟨hnull, -⟩ | ⟨s₁, s₂, m, p, frames, new, hnew, rfl, rfl⟩
  · exact absurd hnull hne
  -- the pages of the account are used, what the call takes was free
  have htaken : ∀ q ∈ new ∪ frames.toFinset, q ∉ pages := by
    intro q hq hin
    have hused := (h.test_iff q).mpr (Or.inr (Or.inr (Or.inl hin)))
    rw [(hnew.backs.takes.free q hq).unmarked] at hused
    cases hused
  have hframe : a / 4096 ∉ frames := fun hin =>
    htaken _ (Finset.mem_union_right _ (List.mem_toFinset.mpr hin)) ha
  have htable : a / 4096 ∉ s₁.tableFrames := by
    rw [hnew.backs.frames_eq]
    rintro (hin | hin)
    · exact h.page_not_table _ ha hin
    · exact htaken _ (Finset.mem_union_left _ hin) ha
  exact (hnew.stores.mem_eq a hframe).trans (hnew.backs.mem_eq a htable)

/-- A new process keeps the root that `newPml4` fills in. -/
theorem ProcessCall.root {t t' : Tracked} {entry pid : Nat}
    (hcall : ProcessCall entry t (some pid) t') (h : HeapInv t.kernel t.live) :
    ∃ cr3 k₁, newPml4 t.locked = .ok (cr3, k₁) ∧ cr3 ≠ 0 ∧ (t'.sched.processes pid).cr3 = cr3 ∧
      ∀ a, a / 4096 = cr3 / 4096 → t'.kernel.mem a = k₁.mem a := by
  cases hcall with
  | first hfind hroot hcr3 htable htne hthread hne hfirst hstack hsne =>
      have htaken := owes_root h hroot hcr3
      have htables := htaken.table htable htne
      have hthreads := htables.thread hthread hne
      rw [kcalloc_table] at htable
      rw [kcalloc_thread] at hthread
      refine ⟨_, _, hroot, hcr3, congrArg Process.cr3 (Sched.addProcess_self ..), fun a ha => ?_⟩
      have hpage : a / 4096 ∈ ({_ / 4096} : Finset Nat) := Finset.mem_singleton.mpr ha
      exact (hthreads.kmalloc_mem stack_fits hstack hsne hpage).trans
        ((htables.kmalloc_mem thread_fits hthread hne hpage).trans
          (htaken.kmalloc_mem table_fits htable htne hpage))
  | later hfind hroot hcr3 htable htne hthread hne hlater =>
      have htaken := owes_root h hroot hcr3
      have htables := htaken.table htable htne
      rw [kcalloc_table] at htable
      rw [kcalloc_thread] at hthread
      refine ⟨_, _, hroot, hcr3, congrArg Process.cr3 (Sched.addProcess_self ..), fun a ha => ?_⟩
      have hpage : a / 4096 ∈ ({_ / 4096} : Finset Nat) := Finset.mem_singleton.mpr ha
      exact (htables.kmalloc_mem thread_fits hthread hne hpage).trans
        (htaken.kmalloc_mem table_fits htable htne hpage)

/-- Outside the slots of the kernel the root of a new process is the page that was found. -/
theorem ProcessCall.root_entry {t t' : Tracked} {entry pid : Nat}
    (hcall : ProcessCall entry t (some pid) t') (h : HeapInv t.kernel t.live) :
    ∃ cr3, pmmFindPage t.kernel.pmm = some cr3 ∧ cr3 % 4096 = 0 ∧
      (t'.sched.processes pid).cr3 = cr3 ∧ ∀ i : Fin 512, i ∉ kernelSlots →
        Kernel.entry t'.kernel.mem cr3 i = Kernel.entry t.kernel.mem cr3 i := by
  obtain ⟨cr3, k₁, hroot, hne, hcr3, hmem⟩ := hcall.root h
  obtain ⟨hfind, halign, hentry⟩ := newPml4_entry hroot hne
  exact ⟨cr3, hfind, halign, hcr3, fun i hi => (entry_congr halign hmem i).trans (hentry i hi)⟩

/-- **The address space of a new process.** In every state that a run reaches, a process that is
created is confined to the slots of the kernel exactly when the page that `pmm_alloc_page` hands out
next holds no present entry outside these. -/
theorem createProcess_confined_iff {t₀ t t' : Tracked} (hstart : Untouched t₀)
    (hreach : ReflTransGen (ThreadStep anyCalls) t₀ t) {entry pid : Nat}
    (hrun : Tracked.createProcess entry t = .ok (some pid, t')) :
    Confined t'.kernel (t'.sched.processes pid).cr3 ↔ BlankRoot t.kernel := by
  have horder := hstart.order.run (fun _ _ h => h) hreach
  obtain ⟨cr3, hfind, halign, hcr3, hentry⟩ :=
    (Tracked.createProcess_cases hrun).root_entry horder.heap
  have hmask : pageMask cr3 = cr3 := by
    unfold pageMask
    omega
  rw [confined_iff, hcr3, hmask]
  constructor
  · intro h page hpage i hi
    obtain rfl := Option.some.inj (hfind.symm.trans hpage)
    rw [← hentry i hi]
    exact h i hi
  · intro h i hi
    rw [hentry i hi]
    exact h cr3 hfind i hi

/-! ## What a page may hold -/

/-- A store to a free frame keeps the blocks. -/
theorem HeapInv.leaves {s s' : State} {live : List Block} {q : Nat} (h : HeapInv s live)
    (hfree : s.pmm.Free q) (hstores : Stores s s' {q}) : HeapInv s' live := by
  refine (h.stores hstores (fun k hk => ?_) fun b hb i hi hframe => ?_).1
  · rw [Set.mem_singleton_iff.mp hk]
    exact h.fresh q hfree
  · have hused := (h.held b hb).used i hi
    rw [Set.mem_singleton_iff.mp hframe, hfree.unmarked] at hused
    cases hused

/-- So does what is ready stay ready. -/
theorem Ready.leaves {s s' : State} {live : List Block} {k more room q : Nat}
    (h : Ready s live k more room) (hfree : s.pmm.Free q) (hstores : Stores s s' {q}) :
    Ready s' live k more room := by
  have hphys : ∀ va, vmmGetPhysical va s' = vmmGetPhysical va s := hstores.getPhysical_eq
    fun k hk => by
      rw [Set.mem_singleton_iff.mp hk]
      exact h.inv.fresh q hfree
  have hmutexes := hstores.mutexes_eq
  refine ⟨h.inv.leaves hfree hstores, (congrFun hmutexes _).trans h.heap_free,
    (congrFun hmutexes _).trans h.vmm_free, (congrFun hmutexes _).trans h.pmm_free, ?_,
    ⟨fun i hi => ?_, fun i hi => ?_⟩, h.bound⟩
  · rw [hstores.pmm_eq]
    exact h.room
  · rw [hphys]
    exact h.packed.mapped i hi
  · rw [hphys]
    exact h.packed.absent i hi

/-- Other code leaves the memory `m`. -/
def Tracked.leave (t : Tracked) (m : Mem) : Tracked :=
  { t with system := ⟨{ t.kernel with mem := m }, t.sched⟩ }

/-- Code that takes a page, writes to it and gives it back is other code. -/
theorem rest_leave {t : Tracked} (h : InOrder t) {q : Nat} (hfree : t.kernel.pmm.Free q) {m : Mem}
    (hm : ∀ a, a / 4096 ≠ q → m a = t.kernel.mem a) : Rest t (t.leave m) where
  heap := h.heap.leaves hfree ⟨rfl, hm⟩
  unlocked := h.unlocked
  own_eq := rfl
  running_eq := rfl
  valid_eq _ := rfl
  count_eq _ := rfl
  ptr_eq _ _ := rfl

/-- On a machine with `n` pages other code may leave anything in the page that the first process
gets. -/
theorem firstProcess_leaves {n : Nat} (hn : 5011 ≤ n) (hfits : n < 2 ^ 27) (f : Nat → Mem → Mem)
    (hf : ∀ page m, page % 4096 = 0 → ∀ a, a / 4096 ≠ page / 4096 → f page m a = m a) :
    ∃ t₀ t t' page, mmInit (flatMap n) .start = .ok ((), t₀.kernel) ∧ Untouched t₀ ∧
      ReflTransGen (ThreadStep anyCalls) t₀ t ∧ Tracked.createProcess 0 t = .ok (some 0, t') ∧
      pmmFindPage t.kernel.pmm = some page ∧ page % 4096 = 0 ∧ page < 2 ^ 64 ∧
      t.kernel.mem = f page t₀.kernel.mem := by
  have hpages : 4870 + 141 ≤ n := hn
  obtain ⟨t₀, hinit, hstart, live, k, hready⟩ := untouched_flat hpages hfits
  obtain ⟨page, hne, halloc⟩ := pmmAllocPage_returns hready.pmm_free hready.room.scannable
    (hready.room.supply.mono (by decide))
  obtain ⟨-, halign, hlt, hfree, -⟩ := pmmAllocPage_ok halloc hne
  have hstores : Stores t₀.kernel (t₀.leave (f page t₀.kernel.mem)).kernel {page / 4096} :=
    ⟨rfl, hf page t₀.kernel.mem halign⟩
  have hrest := rest_leave hstart.order hfree (hf page t₀.kernel.mem halign)
  have hfind : findProcess (t₀.leave (f page t₀.kernel.mem)).sched = some 0 := by
    show findProcess t₀.sched = some 0
    rw [hstart.sched_eq]
    exact findProcess_zero
  have hready' : Ready (t₀.leave (f page t₀.kernel.mem)).kernel live k (35 + 0) (141 + 0) :=
    (hready.leaves hfree hstores).mono (by decide) (le_refl _)
  obtain ⟨t', hrun, -⟩ := createProcess_grows ⟨hrest.heap, hrest.unlocked⟩ ⟨live, k, hready'⟩ hfind 0
  exact ⟨t₀, _, t', page, hinit, hstart, .single (.rest hrest), hrun,
    pmmAllocPage_find (s := t₀.kernel) halloc, halign, hlt, rfl⟩

theorem entry_clear (m : Mem) (page : Nat) (i : Fin 512) :
    entry (clear m page PAGE_SIZE) page i = 0 := by
  have hi := i.isLt
  refine Mem.qword_eq_zero fun j hj => if_pos ?_
  simp only [PAGE_SIZE]
  omega

/-- A page that is left clear. -/
theorem createProcess_confined_clear : ∃ t t', Tracked.createProcess 0 t = .ok (some 0, t') ∧
    BlankRoot t.kernel ∧ Confined t'.kernel (t'.sched.processes 0).cr3 := by
  obtain ⟨t₀, t, t', page, -, hstart, hreach, hrun, hfind, -, -, hmem⟩ :=
    firstProcess_leaves (n := 8192) (by decide) (by decide) (fun page m => clear m page PAGE_SIZE)
      fun page m _ a ha => if_neg (by
        simp only [PAGE_SIZE]
        omega)
  have hblank : BlankRoot t.kernel := by
    intro page' hpage' i hi
    obtain rfl := Option.some.inj (hfind.symm.trans hpage')
    rw [hmem, entry_clear]
    rfl
  exact ⟨t, t', hrun, hblank, (createProcess_confined_iff hstart hreach hrun).mpr hblank⟩

/-- A root whose first entry refers to itself maps the address 0. -/
theorem vmmGetPage_self {s : State} {page : Nat} (halign : page % 4096 = 0)
    (hentry : entry s.mem page 0 = page + PAGE_PRESENT) :
    vmmGetPage 0 (s.under page) = page + PAGE_PRESENT := by
  have hmask : pageMask page = page := by
    unfold pageMask
    omega
  have hmask' : pageMask (page + PAGE_PRESENT) = page := by
    unfold pageMask PAGE_PRESENT
    omega
  have hpresent : ¬ (page + PAGE_PRESENT) &&& PAGE_PRESENT = 0 := by
    rw [and_present, PAGE_PRESENT]
    omega
  have hlarge : ¬ (page + PAGE_PRESENT) &&& PAGE_LARGE ≠ 0 := by
    rw [and_large, PAGE_PRESENT]
    omega
  have hindex : ∀ shift, tableIndex shift (0 &&& 0xFFFFFFFFFFFF) = 0 := fun shift => by
    simp [tableIndex]
  rw [vmmGetPage]
  simp only [State.under, hindex, hmask, hmask', hentry, if_neg hpresent, if_neg hlarge]

/-- **What a new process may see.** A page that other code used and gave back holds a present entry
for itself in its first word, and becomes the root of the first process. Then the lowest page is
mapped in the address space of the process: to the root. -/
theorem createProcess_leaks : ∃ t₀ t t', mmInit (flatMap 8192) .start = .ok ((), t₀.kernel) ∧
    Untouched t₀ ∧ ReflTransGen (ThreadStep anyCalls) t₀ t ∧
    Tracked.createProcess 0 t = .ok (some 0, t') ∧
    vmmGetPage 0 (t'.kernel.under (t'.sched.processes 0).cr3)
      = (t'.sched.processes 0).cr3 + PAGE_PRESENT ∧
    ¬ Confined t'.kernel (t'.sched.processes 0).cr3 := by
  obtain ⟨t₀, t, t', page, hinit, hstart, hreach, hrun, hfind, halign, hlt, hmem⟩ :=
    firstProcess_leaves (n := 8192) (by decide) (by decide)
      (fun page m => m.setQword page (page + PAGE_PRESENT))
      fun page m halign a ha => Mem.setQword_outside (by omega)
  have horder := hstart.order.run (fun _ _ h => h) hreach
  obtain ⟨cr3, hcr3find, -, hcr3, hentry⟩ :=
    (Tracked.createProcess_cases hrun).root_entry horder.heap
  obtain rfl := Option.some.inj (hfind.symm.trans hcr3find)
  have hfirst : entry t'.kernel.mem page 0 = page + PAGE_PRESENT := by
    rw [← Fin.val_zero 512, hentry 0 (by decide), hmem, entry]
    refine (Mem.qword_setQword_same _ _ _).trans (u64_of_lt ?_)
    unfold PAGE_PRESENT
    omega
  have hself := vmmGetPage_self halign hfirst
  refine ⟨t₀, t, t', hinit, hstart, hreach, hrun, ?_, fun hconfined => ?_⟩
  · rw [hcr3]
    exact hself
  · rw [hcr3] at hconfined
    have hslot : levelIndex 39 0 ∈ kernelSlots := hconfined.present 0 (by
      rw [hself, and_present, PAGE_PRESENT]
      omega)
    revert hslot
    decide

end Windozz.Kernel

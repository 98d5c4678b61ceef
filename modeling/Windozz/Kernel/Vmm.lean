import Windozz.Basic.Radix
import Windozz.Kernel.Pmm

set_option autoImplicit false

/-! # The page tables

`vmm_get_page` and `vmm_map_page` of `vmm.c`. The tables are a radix tree of depth 3 whose tables
are physical frames and whose keys are the four indexes of a virtual address. A missing table is
allocated, linked and cleared, and then the entry of the last level is stored; the first of these
changes no mapping and the second changes one (`vmmMapPage_spec`).

The code changes the tables through the window at `PHYSICAL_MEMORY`. The model has no TLB, so
`flush_tlb` has no effect.
-/

namespace Windozz.Kernel

open Radix

/-! ## The functions -/

/-- `table[index]`. -/
def entry (m : Mem) (table index : Nat) : Nat := m.qword (table + 8 * index)

/-- `memset(p, 0, n)`. -/
def clear (m : Mem) (p n : Nat) : Mem := fun a => if p ≤ a ∧ a < p + n then 0 else m a

/-- `(virtual >> shift) & 511`. -/
def tableIndex (shift virtual : Nat) : Nat := virtual >>> shift &&& 511

/-- `vmm_get_page`. -/
def vmmGetPage (virtual : Nat) (s : State) : Nat :=
  let virtual := virtual &&& 0xFFFFFFFFFFFF
  let pdpt_ptr := entry s.mem (pageMask s.cr3) (tableIndex 39 virtual)
  if pdpt_ptr &&& PAGE_PRESENT = 0 then 0
  else if pdpt_ptr &&& PAGE_LARGE ≠ 0 then pdpt_ptr
  else
    let pd_ptr := entry s.mem (pageMask pdpt_ptr) (tableIndex 30 virtual)
    if pd_ptr &&& PAGE_PRESENT = 0 then 0
    else if pd_ptr &&& PAGE_LARGE ≠ 0 then pd_ptr
    else
      let pt_ptr := entry s.mem (pageMask pd_ptr) (tableIndex 21 virtual)
      if pt_ptr &&& PAGE_PRESENT = 0 then 0
      else if pt_ptr &&& PAGE_LARGE ≠ 0 then pt_ptr
      else entry s.mem (pageMask pt_ptr) (tableIndex 12 virtual)

/-- The address lies in the window on physical memory. -/
def InWindow (va : Nat) : Prop := PHYSICAL_MEMORY ≤ va ∧ va < MMIO_REGION

instance (va : Nat) : Decidable (InWindow va) := inferInstanceAs (Decidable (_ ∧ _))

/-- `vmm_get_physical`. -/
def vmmGetPhysical (page : Nat) (s : State) : Option Nat :=
  if InWindow page then some (page - PHYSICAL_MEMORY)
  else
    let phys := vmmGetPage page s
    if phys &&& PAGE_PRESENT ≠ 0 then some (u64 (pageMask phys + (page &&& 0xFFF))) else none

/-- One level of `vmm_map_page`: the table that `table[index]` refers to, which is allocated if it
is missing. -/
def vmmNextTable (table index : Nat) : K Nat := do
  let s ← get
  let ptr := entry s.mem table index
  if ptr &&& PAGE_PRESENT = 0 then do
    let ptr ← pmmAllocPage
    if ptr = 0 then throw .hang
    else do
      modify fun s => { s with
        mem := s.mem.setQword (table + 8 * index) (ptr ||| PAGE_PRESENT ||| PAGE_WRITE ||| PAGE_USER) }
      modify fun s => { s with mem := clear s.mem ptr PAGE_SIZE }
      pure (pageMask ptr)
  else pure (pageMask ptr)

/-- `vmm_map_page`. -/
def vmmMapPage (virtual physical flags : Nat) : K Unit := do
  let virtual := virtual &&& 0xFFFFFFFFFFFF
  let s ← get
  let pdpt ← vmmNextTable (pageMask s.cr3) (tableIndex 39 virtual)
  let pd ← vmmNextTable pdpt (tableIndex 30 virtual)
  let pt ← vmmNextTable pd (tableIndex 21 virtual)
  modify fun s => { s with
    mem := s.mem.setQword (pt + 8 * tableIndex 12 virtual) (physical ||| flags) }

/-! ## Entries -/

/-- How the code reads an entry. Tables are named by their page numbers. -/
def pageFormat : Format Nat Nat where
  down e := if e &&& PAGE_PRESENT = 0 then none else if e &&& PAGE_LARGE ≠ 0 then none
    else some (e / 4096)
  stop e := if e &&& PAGE_PRESENT = 0 then 0 else e
  empty := 0
  down_empty := rfl
  stop_empty := rfl

/-- The entry maps a large page. -/
def LargePage (e : Nat) : Prop := e &&& PAGE_PRESENT ≠ 0 ∧ e &&& PAGE_LARGE ≠ 0

theorem not_largePage_zero : ¬ LargePage 0 := fun h => h.1 rfl

/-- The flags of an entry are its low bits. -/
theorem or_flags {p flags : Nat} (hp : p % 4096 = 0) (hf : flags < 4096) :
    p ||| flags = p + flags := by
  have h := Nat.two_pow_add_eq_or_of_lt (i := 12) (by simpa using hf) (p / 4096)
  have hp' : 2 ^ 12 * (p / 4096) = p := by omega
  rw [hp'] at h
  exact h.symm

theorem and_present (e : Nat) : e &&& PAGE_PRESENT = e % 2 := Nat.and_one_is_mod e

theorem and_large (e : Nat) : e &&& PAGE_LARGE = e / 128 % 2 * 128 := by
  have h := Nat.and_two_pow e 7
  rw [Nat.testBit_eq_decide_div_mod_eq] at h
  have h128 : PAGE_LARGE = 2 ^ 7 := rfl
  rw [h128, h]
  rcases Nat.mod_two_eq_zero_or_one (e / 2 ^ 7) with hz | ho
  · simp only [hz]
    simp at hz ⊢
    exact hz
  · simp only [ho]
    simp at ho ⊢
    exact ho

/-- The entry that links a table. -/
theorem link_flags {page : Nat} (hp : page % 4096 = 0) :
    page ||| PAGE_PRESENT ||| PAGE_WRITE ||| PAGE_USER = page + 7 := by
  rw [Nat.or_assoc, Nat.or_assoc]
  exact or_flags hp (by decide)

theorem down_link {page : Nat} (hp : page % 4096 = 0) :
    pageFormat.down (page + 7) = some (page / 4096) := by
  simp only [pageFormat, and_present, and_large]
  rw [if_neg (by omega), if_neg (by omega)]
  congr 1
  omega

theorem not_largePage_link {page : Nat} (hp : page % 4096 = 0) : ¬ LargePage (page + 7) := by
  rintro ⟨-, h⟩
  rw [and_large] at h
  omega

/-! ## Memory as tables -/

/-- The tables in memory, by page number. -/
def tablesOf (m : Mem) : Tables Nat (Fin 512) Nat := fun k i => entry m (k * 4096) i

theorem tablesOf_setQword (m : Mem) (k : Nat) (i : Fin 512) (x : Nat) :
    tablesOf (m.setQword (k * 4096 + 8 * i) x) = Radix.set (tablesOf m) k i (u64 x) := by
  funext k' i'
  have hi := i.isLt
  have hi' := i'.isLt
  by_cases hk : k' = k
  · subst hk
    by_cases heq : i' = i
    · subst heq
      rw [set_self]
      exact Mem.qword_setQword_same _ _ _
    · rw [set_of_index_ne heq]
      have hne : (i' : Nat) ≠ i := fun h => heq (Fin.ext h)
      exact Mem.qword_setQword_disjoint (by omega)
  · rw [set_of_table_ne hk]
    exact Mem.qword_setQword_disjoint (by omega)

theorem tablesOf_clear (m : Mem) (k : Nat) :
    tablesOf (clear m (k * 4096) PAGE_SIZE) = Radix.fill (tablesOf m) k 0 := by
  funext k' i
  have hi := i.isLt
  by_cases hk : k' = k
  · subst hk
    rw [fill_self]
    refine Mem.qword_eq_zero fun j hj => if_pos ?_
    simp only [PAGE_SIZE]
    omega
  · rw [fill_of_ne hk]
    refine Mem.qword_congr fun j hj => if_neg ?_
    simp only [PAGE_SIZE]
    omega

/-! ## Addresses as keys -/

/-- The page of a virtual address. -/
def pageOf (virtual : Nat) : Nat := virtual % 2 ^ 48 / 4096

/-- The index of an address at one level. -/
def levelIndex (shift virtual : Nat) : Fin 512 :=
  ⟨tableIndex shift (virtual &&& 0xFFFFFFFFFFFF), Nat.and_lt_two_pow _ (n := 9) (by decide)⟩

/-- The indexes of an address in the tables above the last level. -/
def pathOf (virtual : Nat) : List (Fin 512) :=
  [levelIndex 39 virtual, levelIndex 30 virtual, levelIndex 21 virtual]

theorem levelIndex_val (shift virtual : Nat) :
    (levelIndex shift virtual : Nat) = virtual % 2 ^ 48 / 2 ^ shift % 512 := by
  have hmask : virtual &&& 0xFFFFFFFFFFFF = virtual % 2 ^ 48 :=
    Nat.and_two_pow_sub_one_eq_mod virtual 48
  show tableIndex shift (virtual &&& 0xFFFFFFFFFFFF) = _
  rw [hmask, tableIndex, Nat.shiftRight_eq_div_pow]
  exact Nat.and_two_pow_sub_one_eq_mod _ 9

/-- The keys of two addresses are equal when their pages are. -/
theorem key_eq_iff {v w : Nat} :
    pathOf w = pathOf v ∧ levelIndex 12 w = levelIndex 12 v ↔ pageOf w = pageOf v := by
  simp only [pathOf, List.cons.injEq, and_true, Fin.ext_iff, levelIndex_val, pageOf]
  have hw : w % 2 ^ 48 < 2 ^ 48 := Nat.mod_lt _ (by decide)
  have hv : v % 2 ^ 48 < 2 ^ 48 := Nat.mod_lt _ (by decide)
  generalize w % 2 ^ 48 = x at *
  generalize v % 2 ^ 48 = y at *
  constructor <;> intro h <;> omega

namespace State

variable (s : State)

/-- The tables of the address space. -/
def tables : Tables Nat (Fin 512) Nat := tablesOf s.mem

/-- The page number of the table of the first level. -/
def root : Nat := s.cr3 / 4096

/-- Every table is referenced once. -/
def PageTree : Prop := Tree pageFormat s.tables s.root 3

/-- The frames that hold the tables. -/
def tableFrames : Set Nat := Radix.tables pageFormat s.tables s.root 3

/-- The walk of an address meets no large page. -/
def NoLargePage (virtual : Nat) : Prop :=
  Along pageFormat s.tables s.root (pathOf virtual) fun e => ¬ LargePage e

end State

/-- One level of a lookup. -/
theorem lookup_level (t : Tables Nat (Fin 512) Nat) (k : Nat) (i : Fin 512) (is : List (Fin 512))
    (j : Fin 512) : lookup pageFormat t k (i :: is) j =
      if t k i &&& PAGE_PRESENT = 0 then 0
      else if t k i &&& PAGE_LARGE ≠ 0 then t k i
      else lookup pageFormat t (t k i / 4096) is j := by
  rw [lookup]
  simp only [pageFormat]
  by_cases hp : t k i &&& PAGE_PRESENT = 0
  · simp only [if_pos hp]
  · by_cases hl : t k i &&& PAGE_LARGE ≠ 0
    · simp only [if_neg hp, if_pos hl]
    · simp only [if_neg hp, if_neg hl]

/-- `vmm_get_page` looks the address up in the tree. -/
theorem vmmGetPage_eq (virtual : Nat) (s : State) : vmmGetPage virtual s
    = lookup pageFormat s.tables s.root (pathOf virtual) (levelIndex 12 virtual) := by
  rw [pathOf, lookup_level, lookup_level, lookup_level, lookup]
  rfl

/-! ## Adding tables -/

/-- The frames that may be handed out hold no tables. -/
def State.FreshFrames (s : State) : Prop := ∀ q, s.pmm.Free q → q ∉ s.tableFrames

/-- Between two states the tables `new` were added to the tree, and nothing was mapped. -/
structure Grows (s s' : State) (new : Finset Nat) : Prop where
  only : s' = { s with mem := s'.mem, pmm := s'.pmm }
  takes : Takes s.pmm s'.pmm new
  tree : s'.PageTree
  frames_eq : s'.tableFrames = s.tableFrames ∪ new
  lookup_eq : ∀ (is : List (Fin 512)) (j : Fin 512), is.length = 3 →
    lookup pageFormat s'.tables s'.root is j = lookup pageFormat s.tables s.root is j
  along : ∀ is : List (Fin 512), is.length ≤ 3 →
    Along pageFormat s.tables s.root is (fun e => ¬ LargePage e) →
    Along pageFormat s'.tables s'.root is fun e => ¬ LargePage e
  mem_eq : ∀ a, a / 4096 ∉ s'.tableFrames → s'.mem a = s.mem a

namespace Grows

variable {s s' s'' : State} {new new' : Finset Nat}

theorem refl (h : s.PageTree) : Grows s s ∅ :=
  ⟨rfl, .refl _, h, by simp, fun _ _ _ => rfl, fun _ _ h => h, fun _ _ => rfl⟩

theorem trans (h : Grows s s' new) (h' : Grows s' s'' new') : Grows s s'' (new ∪ new') := by
  refine ⟨?_, h.takes.trans h'.takes, h'.tree, ?_, ?_, ?_, ?_⟩
  · rw [h'.only, h.only]
  · rw [h'.frames_eq, h.frames_eq, Finset.coe_union, Set.union_assoc]
  · exact fun is j hlen => (h'.lookup_eq is j hlen).trans (h.lookup_eq is j hlen)
  · exact fun is hlen halong => h'.along is hlen (h.along is hlen halong)
  · intro a ha
    refine (h'.mem_eq a ha).trans (h.mem_eq a fun hin => ha ?_)
    rw [h'.frames_eq]
    exact Or.inl hin

theorem fresh (h : Grows s s' new) (hfresh : s.FreshFrames) : s'.FreshFrames := by
  intro q hq
  obtain ⟨hfree, hnew⟩ := h.takes.free_iff.mp hq
  rw [h.frames_eq]
  rintro (hin | hin)
  · exact hfresh q hfree hin
  · exact hnew hin

theorem cr3_eq (h : Grows s s' new) : s'.cr3 = s.cr3 := by rw [h.only]

theorem root_eq (h : Grows s s' new) : s'.root = s.root := by rw [State.root, h.cr3_eq, State.root]

theorem mutexes_eq (h : Grows s s' new) : s'.mutexes = s.mutexes := by rw [h.only]

end Grows

/-- The state with a fresh table linked at an entry. -/
def State.linkTable (s : State) (table index page : Nat) : State :=
  { s with
    mem := clear (s.mem.setQword (table + 8 * index)
      (page ||| PAGE_PRESENT ||| PAGE_WRITE ||| PAGE_USER)) page PAGE_SIZE
    pmm := pmmMarkPageUsed page s.pmm }

/-- The outcomes of one level: the table is there, or one is allocated and linked. -/
theorem vmmNextTable_ok {s s' : State} {table index ptr : Nat}
    (hrun : vmmNextTable table index s = .ok (ptr, s')) :
    (entry s.mem table index &&& PAGE_PRESENT ≠ 0 ∧ ptr = pageMask (entry s.mem table index) ∧
      s' = s) ∨
    (entry s.mem table index &&& PAGE_PRESENT = 0 ∧ ptr % 4096 = 0 ∧ ptr + 7 < 2 ^ 64 ∧
      s.pmm.Free (ptr / 4096) ∧ s.mutexes .pmm_mutex = false ∧ s' = s.linkTable table index ptr) := by
  rw [vmmNextTable, Prog.bind_ok (Prog.run_get _)] at hrun
  by_cases hp : entry s.mem table index &&& PAGE_PRESENT = 0
  · rw [if_pos hp] at hrun
    obtain ⟨page, s₁, halloc, hrun⟩ := Prog.bind_eq_ok.mp hrun
    by_cases hz : page = 0
    · rw [if_pos hz] at hrun
      cases hrun
    · rw [if_neg hz] at hrun
      obtain ⟨hm, halign, hlt, hfree, rfl⟩ := pmmAllocPage_ok halloc hz
      obtain ⟨rfl, rfl⟩ := Prod.mk.inj (Except.ok.inj hrun)
      have hmask : pageMask page = page := by
        unfold pageMask
        omega
      rw [hmask]
      exact Or.inr ⟨hp, halign, by omega, hfree, hm, rfl⟩
  · rw [if_neg hp] at hrun
    obtain ⟨rfl, rfl⟩ := Prod.mk.inj (Except.ok.inj hrun)
    exact Or.inl ⟨hp, rfl, rfl⟩

section Link

variable {s : State} {is : List (Fin 512)} {f : Nat} {i : Fin 512} {page : Nat}
  (htree : s.PageTree) (his : is.length < 3)
  (hwalk : walk pageFormat s.tables s.root is = some f)
  (habsent : s.tables f i &&& PAGE_PRESENT = 0) (halign : page % 4096 = 0)
  (hfree : s.pmm.Free (page / 4096)) (hfresh : s.FreshFrames) (hlt : page + 7 < 2 ^ 64)

include halign hlt in
/-- Linking a table in memory. -/
theorem linkTable_tables : (s.linkTable (f * 4096) i page).tables
    = link pageFormat s.tables f i (page + 7) (page / 4096) := by
  have hpage : page / 4096 * 4096 = page := by omega
  have hclear : ∀ m, tablesOf (clear m page PAGE_SIZE) = fill (tablesOf m) (page / 4096) 0 := by
    intro m
    have h := tablesOf_clear m (page / 4096)
    rwa [hpage] at h
  show tablesOf (clear (s.mem.setQword (f * 4096 + 8 * i)
    (page ||| PAGE_PRESENT ||| PAGE_WRITE ||| PAGE_USER)) page PAGE_SIZE) = _
  rw [hclear, link_flags halign, tablesOf_setQword, u64_of_lt hlt]
  rfl

include htree his hwalk habsent halign hfree hfresh hlt

/-- Linking a fresh table grows the tree. -/
theorem grows_linkTable : Grows s (s.linkTable (f * 4096) i page) {page / 4096} ∧
    walk pageFormat (s.linkTable (f * 4096) i page).tables s.root (is ++ [i])
      = some (page / 4096) := by
  have hnone : pageFormat.down (s.tables f i) = none := if_pos habsent
  have hstop : pageFormat.stop (s.tables f i) = pageFormat.empty := if_pos habsent
  have hdown := down_link halign
  have hnew : page / 4096 ∉ s.tableFrames := hfresh _ hfree
  have htables := linkTable_tables (s := s) (f := f) (i := i) halign hlt
  refine ⟨⟨rfl, takes_markPageUsed hfree, ?_, ?_, ?_, ?_, ?_⟩, ?_⟩
  · show Tree pageFormat (s.linkTable (f * 4096) i page).tables s.root 3
    rw [htables]
    exact tree_link htree his hwalk hnone hdown hnew
  · show Radix.tables pageFormat (s.linkTable (f * 4096) i page).tables s.root 3 = _
    rw [htables, tables_link htree his hwalk hnone hdown hnew, Finset.coe_singleton,
      Set.union_comm]
    rfl
  · intro js j hjs
    show lookup pageFormat (s.linkTable (f * 4096) i page).tables s.root js j = _
    rw [htables, lookup_link htree his hwalk hnone hdown hnew hstop hjs]
  · intro js hjs halong
    show Along pageFormat (s.linkTable (f * 4096) i page).tables s.root js _
    rw [htables]
    exact along_link htree his hwalk hnone hdown hnew hjs (not_largePage_link halign)
      not_largePage_zero halong
  · intro a ha
    have hin : s.tableFrames ⊆ (s.linkTable (f * 4096) i page).tableFrames ∧
        page / 4096 ∈ (s.linkTable (f * 4096) i page).tableFrames := by
      show _ ⊆ Radix.tables pageFormat (s.linkTable (f * 4096) i page).tables s.root 3 ∧ _ ∈
        Radix.tables pageFormat (s.linkTable (f * 4096) i page).tables s.root 3
      rw [htables, tables_link htree his hwalk hnone hdown hnew]
      exact ⟨Set.subset_insert _ _, Set.mem_insert _ _⟩
    -- the link is stored in the table `f`, and the new table is cleared: both are tables now
    have hf : a / 4096 ≠ f := fun h => ha (hin.1 (h ▸ ⟨is, le_of_lt his, hwalk⟩))
    have hg : a / 4096 ≠ page / 4096 := fun h => ha (h ▸ hin.2)
    have hi := i.isLt
    show clear _ page PAGE_SIZE a = s.mem a
    rw [clear, if_neg (by simp only [PAGE_SIZE]; omega)]
    exact Mem.setQword_outside (by omega)
  · rw [htables]
    exact walk_link_self htree his hwalk hdown hnew

end Link

/-- **One level of the map.** The next table is reached, and the tree has grown by it if it was
missing. -/
theorem vmmNextTable_spec {s s' : State} {is : List (Fin 512)} {f ptr : Nat} {i : Fin 512}
    (htree : s.PageTree) (hfresh : s.FreshFrames) (his : is.length < 3)
    (hwalk : walk pageFormat s.tables s.root is = some f) (hlarge : ¬ LargePage (s.tables f i))
    (hrun : vmmNextTable (f * 4096) i s = .ok (ptr, s')) :
    ∃ g new, ptr = g * 4096 ∧ new.card ≤ 1 ∧ Grows s s' new ∧
      walk pageFormat s'.tables s'.root (is ++ [i]) = some g := by
  rcases vmmNextTable_ok hrun with ⟨hpresent, rfl, rfl⟩ | ⟨habsent, halign, hlt, hfree, -, rfl⟩
  -- the table is there
  · refine ⟨s'.tables f i / 4096, ∅, rfl, by simp, .refl htree, ?_⟩
    have hsmall : ¬ s'.tables f i &&& PAGE_LARGE ≠ 0 := fun h => hlarge ⟨hpresent, h⟩
    rw [walk_concat hwalk]
    exact (if_neg hpresent).trans (if_neg hsmall)
  -- the table was missing
  · obtain ⟨hgrows, hlink⟩ := grows_linkTable htree his hwalk habsent halign hfree hfresh hlt
    exact ⟨ptr / 4096, {ptr / 4096}, by omega, by simp, hgrows, hlink⟩

/-- The state with an entry stored. -/
def State.storeEntry (s : State) (f : Nat) (i : Fin 512) (value : Nat) : State :=
  { s with mem := s.mem.setQword (f * 4096 + 8 * i) value }

/-- The three levels of `vmm_map_page` and the store into the last table. -/
theorem vmmMapPage_ok {s s' : State} {virtual physical flags : Nat} (htree : s.PageTree)
    (hfresh : s.FreshFrames) (hlarge : s.NoLargePage virtual)
    (hrun : vmmMapPage virtual physical flags s = .ok ((), s')) :
    ∃ s₁ f new, new.card ≤ 3 ∧ Grows s s₁ new ∧
      walk pageFormat s₁.tables s₁.root (pathOf virtual) = some f ∧
      s' = s₁.storeEntry f (levelIndex 12 virtual) (physical ||| flags) := by
  rw [vmmMapPage, Prog.bind_ok (Prog.run_get _)] at hrun
  obtain ⟨pdpt, s₁, hrun₁, hrun⟩ := Prog.bind_eq_ok.mp hrun
  obtain ⟨pd, s₂, hrun₂, hrun⟩ := Prog.bind_eq_ok.mp hrun
  obtain ⟨pt, s₃, hrun₃, hrun⟩ := Prog.bind_eq_ok.mp hrun
  -- each level takes at most one frame and leaves the tree in order for the next one
  obtain ⟨f₁, new₁, rfl, hcard₁, hgrows₁, hwalk₁⟩ :=
    vmmNextTable_spec (i := levelIndex 39 virtual) htree hfresh
      (show ([] : List (Fin 512)).length < 3 by simp) rfl (hlarge [] _ _ _ rfl rfl) hrun₁
  have hlarge₁ := hgrows₁.along _ (le_refl _) hlarge
  obtain ⟨f₂, new₂, rfl, hcard₂, hgrows₂, hwalk₂⟩ :=
    vmmNextTable_spec (i := levelIndex 30 virtual) hgrows₁.tree (hgrows₁.fresh hfresh) (by simp)
      hwalk₁ (hlarge₁ [_] _ _ _ rfl hwalk₁) hrun₂
  have hlarge₂ := hgrows₂.along _ (le_refl _) hlarge₁
  obtain ⟨f₃, new₃, rfl, hcard₃, hgrows₃, hwalk₃⟩ :=
    vmmNextTable_spec (i := levelIndex 21 virtual) hgrows₂.tree
      (hgrows₂.fresh (hgrows₁.fresh hfresh)) (by simp) hwalk₂ (hlarge₂ [_, _] _ _ _ rfl hwalk₂)
      hrun₃
  refine ⟨s₃, f₃, new₁ ∪ new₂ ∪ new₃, ?_, (hgrows₁.trans hgrows₂).trans hgrows₃, hwalk₃, ?_⟩
  · have := Finset.card_union_le (new₁ ∪ new₂) new₃
    have := Finset.card_union_le new₁ new₂
    omega
  · exact (Prod.mk.inj (Except.ok.inj hrun)).2.symm

/-- Between two states `vmm_map_page` bound the page of an address to an entry, with the new tables
`new`. -/
structure Maps (s s' : State) (new : Finset Nat) (virtual value : Nat) : Prop where
  only : s' = { s with mem := s'.mem, pmm := s'.pmm }
  takes : Takes s.pmm s'.pmm new
  tree : s'.PageTree
  frames_eq : s'.tableFrames = s.tableFrames ∪ new
  same : ∀ w, pageOf w = pageOf virtual → vmmGetPage w s' = value
  other : ∀ w, pageOf w ≠ pageOf virtual → vmmGetPage w s' = vmmGetPage w s
  noLargePage : ∀ w, s.NoLargePage w → s'.NoLargePage w
  mem_eq : ∀ a, a / 4096 ∉ s'.tableFrames → s'.mem a = s.mem a

theorem Maps.fresh {s s' : State} {new : Finset Nat} {virtual value : Nat}
    (h : Maps s s' new virtual value) (hfresh : s.FreshFrames) : s'.FreshFrames := by
  intro q hq
  obtain ⟨hfree, hnew⟩ := h.takes.free_iff.mp hq
  rw [h.frames_eq]
  rintro (hin | hin)
  · exact hfresh q hfree hin
  · exact hnew hin

/-- Storing an entry of the last level binds one page. -/
theorem Grows.maps {s s₁ : State} {new : Finset Nat} (h : Grows s s₁ new) {virtual f value : Nat}
    (hwalk : walk pageFormat s₁.tables s₁.root (pathOf virtual) = some f)
    (hvalue : value < 2 ^ 64) :
    Maps s (s₁.storeEntry f (levelIndex 12 virtual) value) new virtual value := by
  have hlen : ∀ w, (pathOf w).length = 3 := fun _ => rfl
  have htables : (s₁.storeEntry f (levelIndex 12 virtual) value).tables
      = Radix.set s₁.tables f (levelIndex 12 virtual) value := by
    show tablesOf _ = _
    rw [State.storeEntry, tablesOf_setQword, u64_of_lt hvalue]
    rfl
  have hroot : (s₁.storeEntry f (levelIndex 12 virtual) value).root = s₁.root := rfl
  have hframes : (s₁.storeEntry f (levelIndex 12 virtual) value).tableFrames = s₁.tableFrames := by
    rw [State.tableFrames, htables, hroot, tables_set_leaf h.tree (hlen virtual) hwalk]
    rfl
  -- an entry of the last level is no link, so the tables stay and one key changes
  refine ⟨?_, h.takes, ?_, hframes.trans h.frames_eq, ?_, ?_, ?_, ?_⟩
  · rw [State.storeEntry, h.only]
  · rw [State.PageTree, htables, hroot]
    exact tree_set_leaf h.tree (hlen virtual) hwalk
  · intro w hw
    obtain ⟨hpath, hindex⟩ := key_eq_iff.mpr hw
    rw [vmmGetPage_eq, hpath, hindex, htables, hroot,
      lookup_set_leaf_same h.tree (hlen virtual) hwalk]
  · intro w hw
    rw [vmmGetPage_eq, htables, hroot, lookup_set_leaf h.tree (hlen virtual) hwalk (hlen w)
      (fun hkey => hw (key_eq_iff.mp hkey)), h.lookup_eq _ _ (hlen w), ← vmmGetPage_eq]
  · intro w hw
    rw [State.NoLargePage, htables, hroot]
    exact along_set_leaf h.tree (hlen virtual) hwalk (le_refl _) (h.along _ (le_refl _) hw)
  · intro a ha
    rw [hframes] at ha
    have hf : a / 4096 ≠ f := fun hf => ha (hf ▸ ⟨pathOf virtual, le_refl _, hwalk⟩)
    have hi := (levelIndex 12 virtual).isLt
    rw [← h.mem_eq a ha]
    exact Mem.setQword_outside (by omega)

/-- **What `vmm_map_page` does.** -/
theorem vmmMapPage_spec {s s' : State} {virtual physical flags : Nat} (htree : s.PageTree)
    (hfresh : s.FreshFrames) (hlarge : s.NoLargePage virtual)
    (hvalue : physical ||| flags < 2 ^ 64)
    (hrun : vmmMapPage virtual physical flags s = .ok ((), s')) :
    ∃ new, new.card ≤ 3 ∧ Maps s s' new virtual (physical ||| flags) := by
  obtain ⟨s₁, f, new, hcard, hgrows, hwalk, rfl⟩ := vmmMapPage_ok htree hfresh hlarge hrun
  exact ⟨new, hcard, hgrows.maps hwalk hvalue⟩

/-- **The contract of `vmm_map_page`.** In a tree in which every table is referenced once, with no
large page on the walk of the address and with frames from the page manager that hold no tables,
a call that returns binds the page of the address to `physical | flags`, leaves every other page
as it was, and keeps the tree. -/
theorem vmmMapPage_correct {s s' : State} {virtual physical flags : Nat} (htree : s.PageTree)
    (hlarge : s.NoLargePage virtual) (hfresh : s.FreshFrames) (halign : physical % 4096 = 0)
    (hphysical : physical < 2 ^ 64) (hflags : flags < 4096)
    (hrun : vmmMapPage virtual physical flags s = .ok ((), s')) :
    (∀ w, pageOf w = pageOf virtual → vmmGetPage w s' = physical ||| flags) ∧
      (∀ w, pageOf w ≠ pageOf virtual → vmmGetPage w s' = vmmGetPage w s) ∧ s'.PageTree := by
  have hvalue : physical ||| flags < 2 ^ 64 := by
    rw [or_flags halign hflags]
    omega
  obtain ⟨new, -, hmaps⟩ := vmmMapPage_spec htree hfresh hlarge hvalue hrun
  exact ⟨hmaps.same, hmaps.other, hmaps.tree⟩

/-! ## Pages that are mapped -/

/-- A page that is mapped and not large has a table of the last level. -/
theorem walk_of_present {s : State} {va : Nat} (hlarge : s.NoLargePage va)
    (hpresent : vmmGetPage va s &&& PAGE_PRESENT ≠ 0) :
    ∃ f, walk pageFormat s.tables s.root (pathOf va) = some f := by
  rcases walk_or_stop pageFormat s.tables (pathOf va) s.root with
    h | ⟨q, i, r, f, hpath, hwalk, hnone⟩
  · exact h
  · exfalso
    have hentry : s.tables f i &&& PAGE_PRESENT = 0 := by
      by_contra hp
      refine hlarge q i r f hpath hwalk ⟨hp, fun hl => ?_⟩
      have hsome : pageFormat.down (s.tables f i) = some (s.tables f i / 4096) :=
        (if_neg hp).trans (if_neg (not_not.mpr hl))
      rw [hnone] at hsome
      cases hsome
    have hstop : pageFormat.stop (s.tables f i) = 0 := if_pos hentry
    rw [vmmGetPage_eq, hpath, lookup_stop hwalk hnone, hstop] at hpresent
    exact hpresent rfl

theorem vmmNextTable_present {s : State} {f g : Nat} {i : Fin 512}
    (h : pageFormat.down (s.tables f i) = some g) :
    vmmNextTable (f * 4096) i s = .ok (g * 4096, s) := by
  have hp : ¬ entry s.mem (f * 4096) i &&& PAGE_PRESENT = 0 := fun hp => by
    have hnone : pageFormat.down (s.tables f i) = none := if_pos hp
    rw [hnone] at h
    cases h
  have hl : ¬ entry s.mem (f * 4096) i &&& PAGE_LARGE ≠ 0 := fun hl => by
    have hnone : pageFormat.down (s.tables f i) = none := (if_neg hp).trans (if_pos hl)
    rw [hnone] at h
    cases h
  have hsome : pageFormat.down (s.tables f i) = some (entry s.mem (f * 4096) i / 4096) :=
    (if_neg hp).trans (if_neg hl)
  rw [hsome] at h
  obtain rfl := Option.some.inj h
  rw [vmmNextTable, Prog.bind_ok (Prog.run_get _), if_neg hp]
  rfl

/-- When the tables are there, `vmm_map_page` stores one entry. -/
theorem vmmMapPage_present {s : State} {virtual f : Nat}
    (hwalk : walk pageFormat s.tables s.root (pathOf virtual) = some f) (physical flags : Nat) :
    vmmMapPage virtual physical flags s
      = .ok ((), s.storeEntry f (levelIndex 12 virtual) (physical ||| flags)) := by
  -- the walk names the table of each level, and no level allocates
  simp only [pathOf, walk] at hwalk
  cases h₁ : pageFormat.down (s.tables s.root (levelIndex 39 virtual)) with
  | none =>
      rw [h₁] at hwalk
      cases hwalk
  | some f₁ =>
      rw [h₁] at hwalk
      simp only at hwalk
      cases h₂ : pageFormat.down (s.tables f₁ (levelIndex 30 virtual)) with
      | none =>
          rw [h₂] at hwalk
          cases hwalk
      | some f₂ =>
          rw [h₂] at hwalk
          simp only at hwalk
          cases h₃ : pageFormat.down (s.tables f₂ (levelIndex 21 virtual)) with
          | none =>
              rw [h₃] at hwalk
              cases hwalk
          | some f₃ =>
              rw [h₃] at hwalk
              obtain rfl := Option.some.inj hwalk
              have hmask : pageMask s.cr3 = s.root * 4096 := rfl
              have hindex : ∀ shift, tableIndex shift (virtual &&& 0xFFFFFFFFFFFF)
                  = levelIndex shift virtual := fun _ => rfl
              rw [vmmMapPage, Prog.bind_ok (Prog.run_get _), hmask, hindex 39, hindex 30, hindex 21,
                Prog.bind_ok (vmmNextTable_present h₁), Prog.bind_ok (vmmNextTable_present h₂),
                Prog.bind_ok (vmmNextTable_present h₃)]
              rfl

/-! ## Returning -/

/-- With a page in supply, one level returns. -/
theorem vmmNextTable_returns {s : State} (hm : s.mutexes .pmm_mutex = false)
    (hscan : s.pmm.Scannable) (hsupply : s.pmm.Supply 1) (table index : Nat) :
    ∃ ptr s', vmmNextTable table index s = .ok (ptr, s') := by
  rw [vmmNextTable, Prog.bind_ok (Prog.run_get _)]
  by_cases hp : entry s.mem table index &&& PAGE_PRESENT = 0
  · obtain ⟨page, hne, halloc⟩ := pmmAllocPage_returns hm hscan hsupply
    rw [if_pos hp, Prog.bind_ok halloc, if_neg hne]
    exact ⟨_, _, rfl⟩
  · rw [if_neg hp]
    exact ⟨_, _, rfl⟩

/-- With three pages in supply, `vmm_map_page` returns. -/
theorem vmmMapPage_returns {s : State} {virtual : Nat} (htree : s.PageTree)
    (hlarge : s.NoLargePage virtual) (hfresh : s.FreshFrames)
    (hm : s.mutexes .pmm_mutex = false) (hscan : s.pmm.Scannable) (hsupply : s.pmm.Supply 3)
    (physical flags : Nat) : ∃ s', vmmMapPage virtual physical flags s = .ok ((), s') := by
  rw [vmmMapPage, Prog.bind_ok (Prog.run_get _)]
  obtain ⟨pdpt, s₁, hrun₁⟩ := vmmNextTable_returns hm hscan (hsupply.mono (by decide))
    (pageMask s.cr3) (tableIndex 39 (virtual &&& 0xFFFFFFFFFFFF))
  obtain ⟨f₁, new₁, rfl, hcard₁, hgrows₁, hwalk₁⟩ :=
    vmmNextTable_spec (i := levelIndex 39 virtual) htree hfresh
      (show ([] : List (Fin 512)).length < 3 by simp) rfl (hlarge [] _ _ _ rfl rfl) hrun₁
  have hsupply₁ : s₁.pmm.Supply 2 := hgrows₁.takes.supply (hsupply.mono (by omega))
  have hlarge₁ := hgrows₁.along _ (le_refl _) hlarge
  obtain ⟨pd, s₂, hrun₂⟩ := vmmNextTable_returns (hgrows₁.mutexes_eq ▸ hm)
    (hgrows₁.takes.scannable hscan) (hsupply₁.mono (by decide)) (f₁ * 4096)
    (tableIndex 30 (virtual &&& 0xFFFFFFFFFFFF))
  obtain ⟨f₂, new₂, rfl, hcard₂, hgrows₂, -⟩ :=
    vmmNextTable_spec (i := levelIndex 30 virtual) hgrows₁.tree (hgrows₁.fresh hfresh) (by simp)
      hwalk₁ (hlarge₁ [_] _ _ _ rfl hwalk₁) hrun₂
  have hgrows := hgrows₁.trans hgrows₂
  have hsupply₂ : s₂.pmm.Supply 1 := hgrows₂.takes.supply (hsupply₁.mono (by omega))
  obtain ⟨pt, s₃, hrun₃⟩ := vmmNextTable_returns (hgrows.mutexes_eq ▸ hm)
    (hgrows.takes.scannable hscan) hsupply₂ (f₂ * 4096)
    (tableIndex 21 (virtual &&& 0xFFFFFFFFFFFF))
  rw [Prog.bind_ok hrun₁, Prog.bind_ok hrun₂, Prog.bind_ok hrun₃]
  exact ⟨_, rfl⟩

/-! ## An empty tree -/

section Empty

variable {s : State} (hmem : s.mem = fun _ => 0)

include hmem

theorem tables_empty (k : Nat) (i : Fin 512) : s.tables k i = 0 := by
  show s.mem.qword _ = 0
  rw [hmem]
  exact Mem.qword_eq_zero fun _ _ => rfl

/-- Clear memory is a tree of one table. -/
theorem walk_empty {is : List (Fin 512)} {f : Nat} :
    walk pageFormat s.tables s.root is = some f ↔ is = [] ∧ f = s.root := by
  cases is with
  | nil => simp [walk, eq_comm]
  | cons i is => simp [walk, tables_empty hmem, pageFormat]

theorem pageTree_empty : s.PageTree := by
  intro p q f _ _ hp hq
  rw [((walk_empty hmem).mp hp).1, ((walk_empty hmem).mp hq).1]

theorem noLargePage_empty (virtual : Nat) : s.NoLargePage virtual := by
  intro _ i _ k _ _
  rw [tables_empty hmem k i]
  exact not_largePage_zero

theorem vmmGetPage_empty (virtual : Nat) : vmmGetPage virtual s = 0 := by
  rw [vmmGetPage_eq, pathOf, lookup_level, tables_empty hmem]
  rfl

theorem freshFrames_empty (hroot : s.pmm.bitmap.test s.root = true) : s.FreshFrames := by
  rintro q hq ⟨is, -, hwalk⟩
  obtain ⟨-, rfl⟩ := (walk_empty hmem).mp hwalk
  rw [hq.unmarked] at hroot
  cases hroot

end Empty

/-- Mapping the first page of the heap in an empty tree. -/
theorem vmmMapPage_correct_empty : ∃ s', vmmMapPage KERNEL_HEAP 0x900000 KERNEL_HEAP_FLAGS
      (State.boot.withPmm (.clean 0x1000000)) = .ok ((), s') ∧
    (∀ w, pageOf w = pageOf KERNEL_HEAP → vmmGetPage w s' = 0x900000 ||| KERNEL_HEAP_FLAGS) ∧
    (∀ w, pageOf w ≠ pageOf KERNEL_HEAP →
      vmmGetPage w s' = vmmGetPage w (State.boot.withPmm (.clean 0x1000000))) ∧
    s'.PageTree := by
  have hfresh : (State.boot.withPmm (.clean 0x1000000)).FreshFrames :=
    freshFrames_empty rfl (by decide)
  obtain ⟨s', hrun⟩ := vmmMapPage_returns (pageTree_empty rfl) (noLargePage_empty rfl KERNEL_HEAP)
    hfresh rfl (scannable_clean (by decide)) (supply_clean (by decide)) 0x900000 KERNEL_HEAP_FLAGS
  exact ⟨s', hrun, vmmMapPage_correct (pageTree_empty rfl) (noLargePage_empty rfl KERNEL_HEAP)
    hfresh (by decide) (by decide) (by decide) hrun⟩

end Windozz.Kernel

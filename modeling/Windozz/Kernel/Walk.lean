import Windozz.Kernel.Boot

set_option autoImplicit false

/-! # `vmm_get_physical` and the processor

The processor's walk of the page tables for a canonical address, with 4 KiB, 2 MiB and 1 GiB pages
(NX is not enabled, so bit 63 is reserved). `vmm_get_physical` takes the same path through the
tables, but adds the offset in 4 KiB to whatever entry it ends at, and in the window it does not
look at the tables at all. Both are functions of the entry where the path ends (`walkEnd`).
-/

namespace Windozz.Kernel

/-! ## The two walks -/

/-- The entry of a table for an address, at the level given by `shift`. -/
def entryAt (m : Mem) (table shift va : Nat) : Nat :=
  entry m table (tableIndex shift (va &&& 0xFFFFFFFFFFFF))

/-- The processor's walk from a table on. The levels are given by the shifts of their indexes. -/
def pageWalk (m : Mem) (va : Nat) : List Nat → Nat → Option Nat
  | [], _ => none
  | shift :: rest, table =>
      let e := entryAt m table shift va
      if e &&& PAGE_PRESENT = 0 ∨ 2 ^ 63 ≤ e then none
      else if shift = 12 ∨ e &&& PAGE_LARGE ≠ 0 then
        -- a large page has reserved bits above bit 12, and there is none in the first table
        if shift = 39 ∨ 8192 ≤ e % 2 ^ shift then none
        else some (e % 2 ^ 52 / 2 ^ shift * 2 ^ shift + va % 2 ^ shift)
      else pageWalk m va rest (e % 2 ^ 52 / 4096 * 4096)

/-- The shifts of the four levels. -/
def levels : List Nat := [39, 30, 21, 12]

/-- The physical address that the processor finds in the tables. -/
def walkPhysical (va : Nat) (s : State) : Option Nat :=
  if Canonical va then pageWalk s.mem va levels (s.cr3 % 2 ^ 52 / 4096 * 4096) else none

/-- The level and the entry at which `vmm_get_page` ends. -/
def walkEnd (m : Mem) (va : Nat) : List Nat → Nat → Nat × Nat
  | [], _ => (39, 0)
  | shift :: rest, table =>
      let e := entryAt m table shift va
      if e &&& PAGE_PRESENT = 0 ∨ shift = 12 ∨ e &&& PAGE_LARGE ≠ 0 then (shift, e)
      else walkEnd m va rest (pageMask e)

/-- The tables on the path are referred to by addresses of at most 52 bits. -/
def Pointers (m : Mem) (va : Nat) : List Nat → Nat → Prop
  | [], _ => True
  | shift :: rest, table =>
      let e := entryAt m table shift va
      e &&& PAGE_PRESENT = 0 ∨ shift = 12 ∨ e &&& PAGE_LARGE ≠ 0 ∨
        e < 2 ^ 52 ∧ Pointers m va rest (pageMask e)

/-- The tables that an address is looked up in lie in physical memory. -/
structure PlainTables (s : State) (va : Nat) : Prop where
  cr3_lt : s.cr3 < 2 ^ 52
  pointers : Pointers s.mem va levels (pageMask s.cr3)

/-! ## The end of the path -/

/-- What the processor makes of the entry at the end. -/
def pageOfEntry (va : Nat) (p : Nat × Nat) : Option Nat :=
  if p.2 &&& PAGE_PRESENT = 0 ∨ 2 ^ 63 ≤ p.2 ∨ p.1 = 39 ∨ 8192 ≤ p.2 % 2 ^ p.1 then none
  else some (p.2 % 2 ^ 52 / 2 ^ p.1 * 2 ^ p.1 + va % 2 ^ p.1)

/-- The processor comes to the same end. -/
theorem pageWalk_eq {m : Mem} {va : Nat} (shifts : List Nat) : ∀ {table : Nat},
    Pointers m va shifts table →
    pageWalk m va shifts table = pageOfEntry va (walkEnd m va shifts table) := by
  induction shifts with
  | nil =>
      intro table _
      simp [pageWalk, walkEnd, pageOfEntry]
  | cons shift rest ih =>
      intro table h
      rw [pageWalk, walkEnd]
      rw [Pointers] at h
      generalize entryAt m table shift va = e at *
      by_cases hp : e &&& PAGE_PRESENT = 0
      · rw [if_pos (Or.inl hp), if_pos (Or.inl hp), pageOfEntry, if_pos (Or.inl hp)]
      · by_cases hend : shift = 12 ∨ e &&& PAGE_LARGE ≠ 0
        · rw [if_pos (Or.inr hend), pageOfEntry]
          by_cases hbit : 2 ^ 63 ≤ e
          · rw [if_pos (Or.inr hbit), if_pos (Or.inr (Or.inl hbit))]
          · rw [if_neg (not_or.mpr ⟨hp, hbit⟩), if_pos hend]
            refine if_congr ?_ rfl rfl
            rw [or_iff_right hp, or_iff_right hbit]
        · obtain ⟨hne, hsmall⟩ := not_or.mp hend
          obtain ⟨hlt, hrest⟩ : e < 2 ^ 52 ∧ Pointers m va rest (pageMask e) := by
            rcases h with h | h | h | h
            · exact absurd h hp
            · exact absurd h hne
            · exact absurd h hsmall
            · exact h
          have hmask : e % 2 ^ 52 / 4096 * 4096 = pageMask e := by
            rw [Nat.mod_eq_of_lt hlt, pageMask]
          rw [if_neg (not_or.mpr ⟨hp, by omega⟩), if_neg hend, if_neg (not_or.mpr ⟨hp, hend⟩), hmask]
          exact ih hrest

/-- `vmm_get_page` returns the entry at the end, or 0 if it is not present. -/
theorem vmmGetPage_walkEnd (va : Nat) (s : State) :
    vmmGetPage va s = (walkEnd s.mem va levels (pageMask s.cr3)).2 ∨
      vmmGetPage va s = 0 ∧ (walkEnd s.mem va levels (pageMask s.cr3)).2 &&& PAGE_PRESENT = 0 := by
  have hne : ∀ {shift : Nat}, shift ≠ 12 → ∀ {e : Nat}, ¬ e &&& PAGE_PRESENT = 0 →
      e &&& PAGE_LARGE = 0 → ¬ (e &&& PAGE_PRESENT = 0 ∨ shift = 12 ∨ e &&& PAGE_LARGE ≠ 0) := by
    rintro shift hshift e hp hl (h | h | h)
    · exact hp h
    · exact hshift h
    · exact h hl
  -- level by level: an entry that is not present or maps a large page ends both
  simp only [vmmGetPage, levels, walkEnd, entryAt]
  generalize entry s.mem (pageMask s.cr3) (tableIndex 39 (va &&& 0xFFFFFFFFFFFF)) = e₁
  by_cases hp₁ : e₁ &&& PAGE_PRESENT = 0
  · simp [hp₁]
  · by_cases hl₁ : e₁ &&& PAGE_LARGE = 0
    · rw [if_neg hp₁, if_neg (not_not.mpr hl₁), if_neg (hne (by decide) hp₁ hl₁)]
      generalize entry s.mem (pageMask e₁) (tableIndex 30 (va &&& 0xFFFFFFFFFFFF)) = e₂
      by_cases hp₂ : e₂ &&& PAGE_PRESENT = 0
      · simp [hp₂]
      · by_cases hl₂ : e₂ &&& PAGE_LARGE = 0
        · rw [if_neg hp₂, if_neg (not_not.mpr hl₂), if_neg (hne (by decide) hp₂ hl₂)]
          generalize entry s.mem (pageMask e₂) (tableIndex 21 (va &&& 0xFFFFFFFFFFFF)) = e₃
          by_cases hp₃ : e₃ &&& PAGE_PRESENT = 0
          · simp [hp₃]
          · by_cases hl₃ : e₃ &&& PAGE_LARGE = 0
            · rw [if_neg hp₃, if_neg (not_not.mpr hl₃), if_neg (hne (by decide) hp₃ hl₃)]
              simp
            · simp [hp₃, hl₃]
        · simp [hp₂, hl₂]
    · simp [hp₁, hl₁]

/-- The path ends at one of the levels. -/
theorem walkEnd_level {m : Mem} {va : Nat} {shifts : List Nat} : ∀ {table : Nat},
    (walkEnd m va shifts table).1 ∈ shifts ∨ walkEnd m va shifts table = (39, 0) := by
  induction shifts with
  | nil => exact Or.inr rfl
  | cons shift rest ih =>
      intro table
      rw [walkEnd]
      split
      · exact Or.inl (List.mem_cons_self ..)
      · exact ih.imp_left (List.mem_cons_of_mem _)

/-! ## Where they agree -/

/-- The entry at the end maps a page that the processor accepts. -/
structure GoodPage (p : Nat × Nat) : Prop where
  present : p.2 &&& PAGE_PRESENT ≠ 0
  bit63 : p.2 < 2 ^ 63
  level : p.1 ≠ 39
  reserved : p.2 % 2 ^ p.1 < 8192

theorem GoodPage.page {va : Nat} {p : Nat × Nat} (h : GoodPage p) :
    pageOfEntry va p = some (p.2 % 2 ^ 52 / 2 ^ p.1 * 2 ^ p.1 + va % 2 ^ p.1) :=
  if_neg (by
    rintro (hp | hbit | hlevel | hres)
    · exact h.present hp
    · exact absurd h.bit63 (not_lt.mpr hbit)
    · exact h.level hlevel
    · exact absurd h.reserved (not_lt.mpr hres))

theorem pageOfEntry_some {va pa : Nat} {p : Nat × Nat} (h : pageOfEntry va p = some pa) :
    GoodPage p := by
  unfold pageOfEntry at h
  split at h
  · cases h
  · rename_i hgood
    simp only [not_or, not_le] at hgood
    exact ⟨hgood.1, hgood.2.1, hgood.2.2.1, hgood.2.2.2⟩

/-- What `vmm_get_physical` makes of an address is right. In the window, the path ends at the page
that lies there in the window. Elsewhere it ends at an entry that is not present, or at a page whose
number of 4 KiB pages in front of the address is the one in the entry: none, in a 4 KiB page, and as
a rule in a large page. -/
def WalkFits (va : Nat) (s : State) : Prop :=
  let p := walkEnd s.mem va levels (pageMask s.cr3)
  if InWindow va then GoodPage p ∧ p.2 % 2 ^ 52 / 2 ^ p.1 = (va - PHYSICAL_MEMORY) / 2 ^ p.1
  else p.2 &&& PAGE_PRESENT = 0 ∨
    GoodPage p ∧ p.2 < 2 ^ 52 ∧ p.2 % 2 ^ p.1 / 4096 = va % 2 ^ p.1 / 4096

/-- The sizes of the pages. -/
theorem GoodPage.size {m : Mem} {va table : Nat} (h : GoodPage (walkEnd m va levels table)) :
    (walkEnd m va levels table).1 = 12 ∨ (walkEnd m va levels table).1 = 21 ∨
      (walkEnd m va levels table).1 = 30 := by
  have hlevel := h.level
  have hin : (walkEnd m va levels table).1 ∈ levels ∨ walkEnd m va levels table = (39, 0) :=
    walkEnd_level
  generalize walkEnd m va levels table = p at *
  rcases hin with hin | rfl
  · simp only [levels, List.mem_cons, List.not_mem_nil, or_false] at hin
    omega
  · exact absurd rfl hlevel

/-- **The comparison.** -/
theorem getPhysical_eq_page_iff (va : Nat) (s : State) :
    vmmGetPhysical va s = pageOfEntry va (walkEnd s.mem va levels (pageMask s.cr3)) ↔
      WalkFits va s := by
  unfold WalkFits
  simp only
  have hpage := vmmGetPage_walkEnd va s
  have hsize := fun h : GoodPage (walkEnd s.mem va levels (pageMask s.cr3)) => h.size
  generalize walkEnd s.mem va levels (pageMask s.cr3) = p at *
  by_cases hw : InWindow va
  · -- the window answers before any table is read
    have hphys : vmmGetPhysical va s = some (va - PHYSICAL_MEMORY) := if_pos hw
    rw [if_pos hw, hphys]
    constructor
    · intro heq
      have hgood := pageOfEntry_some heq.symm
      rw [hgood.page] at heq
      have heq := Option.some.inj heq
      refine ⟨hgood, ?_⟩
      obtain ⟨hlow, -⟩ := hw
      unfold PHYSICAL_MEMORY at *
      rcases hsize hgood with h | h | h <;> rw [h] at heq ⊢ <;> omega
    · rintro ⟨hgood, hplace⟩
      rw [hgood.page]
      refine congrArg some ?_
      obtain ⟨hlow, -⟩ := hw
      unfold PHYSICAL_MEMORY at *
      rcases hsize hgood with h | h | h <;> rw [h] at hplace ⊢ <;> omega
  · rw [if_neg hw]
    by_cases hp : p.2 &&& PAGE_PRESENT = 0
    · have hnone : vmmGetPhysical va s = none := by
        refine vmmGetPhysical_none.mpr ⟨hw, ?_⟩
        rcases hpage with h | ⟨h, -⟩
        · rwa [h]
        · rw [h]
          rfl
      rw [hnone, pageOfEntry, if_pos (Or.inl hp)]
      exact iff_of_true rfl (Or.inl hp)
    · -- the entry is the one the walk ends at, and only its size decides about the address
      have hentry : vmmGetPage va s = p.2 := hpage.resolve_right fun h => hp h.2
      have hsome := vmmGetPhysical_some hw (hentry ▸ hp)
      rw [frameOf, hentry] at hsome
      rw [hsome, or_iff_right hp]
      constructor
      · intro heq
        have hgood := pageOfEntry_some heq.symm
        rw [hgood.page] at heq
        have heq := Option.some.inj heq
        have hlt := hgood.bit63
        refine ⟨hgood, ?_⟩
        rcases hsize hgood with h | h | h <;> rw [h] at heq ⊢ <;> omega
      · rintro ⟨hgood, hlt, hplace⟩
        rw [hgood.page]
        refine congrArg some ?_
        rcases hsize hgood with h | h | h <;> rw [h] at hplace ⊢ <;> omega

/-! ## The tables of `setup_paging` -/

theorem goodPage_boot {a : Nat} (hlow : a < 2 ^ 33) : GoodPage (21, bootPd (a / 2 ^ 21)) := by
  have hpresent : bootPd (a / 2 ^ 21) &&& PAGE_PRESENT ≠ 0 := by
    rw [and_present]
    unfold bootPd
    omega
  have hlt : bootPd (a / 2 ^ 21) < 2 ^ 63 := by
    unfold bootPd
    omega
  have hreserved : bootPd (a / 2 ^ 21) % 2 ^ 21 < 8192 := by
    unfold bootPd
    omega
  exact ⟨hpresent, hlt, by simp, hreserved⟩

theorem bootPd_place {a : Nat} (hlow : a < 2 ^ 33) :
    bootPd (a / 2 ^ 21) % 2 ^ 52 / 2 ^ 21 * 2 ^ 21 + a % 2 ^ 21 = a := by
  unfold bootPd
  omega

section Boot

variable {s : State} {va : Nat} (h : BootTables s)

include h

theorem entryAt_pml4 (hslot : va % 2 ^ 48 / 2 ^ 39 = 0 ∨ va % 2 ^ 48 / 2 ^ 39 = 256) :
    entryAt s.mem 0x8000 39 va = 0x9003 := by
  refine (h.pml4 (levelIndex 39 va)).trans ?_
  rw [bootPml4, if_pos]
  rw [levelIndex_val]
  omega

theorem entryAt_pdpt : entryAt s.mem 0x9000 30 va = bootPdpt (va % 2 ^ 39 / 2 ^ 30) := by
  refine (h.pdpt (levelIndex 30 va)).trans (congrArg bootPdpt ?_)
  rw [levelIndex_val]
  omega

theorem entryAt_pd (hlow : va % 2 ^ 39 < 2 ^ 33) :
    entryAt s.mem (0xA000 + va % 2 ^ 39 / 2 ^ 30 * 4096) 21 va = bootPd (va % 2 ^ 39 / 2 ^ 21) := by
  refine (h.pd _ (levelIndex 21 va) (by omega)).trans (congrArg bootPd ?_)
  rw [levelIndex_val]
  omega

/-- The path of an address in slot 0 or 256 of the first table. -/
theorem walkEnd_boot (hslot : va % 2 ^ 48 / 2 ^ 39 = 0 ∨ va % 2 ^ 48 / 2 ^ 39 = 256) :
    Pointers s.mem va levels 0x8000 ∧ walkEnd s.mem va levels 0x8000 =
      if va % 2 ^ 39 < 2 ^ 33 then (21, bootPd (va % 2 ^ 39 / 2 ^ 21)) else (30, 0) := by
  have hzero : 0 &&& PAGE_PRESENT = 0 := rfl
  have hmask : pageMask 0x9003 = 0x9000 := rfl
  simp only [levels, Pointers, walkEnd, entryAt_pml4 h hslot, hmask, entryAt_pdpt h]
  rw [if_neg (by decide)]
  by_cases hlow : va % 2 ^ 39 < 2 ^ 33
  · have hlink : bootPdpt (va % 2 ^ 39 / 2 ^ 30) = 0xA003 + va % 2 ^ 39 / 2 ^ 30 * 4096 :=
      if_pos (by omega)
    have hmask : pageMask (0xA003 + va % 2 ^ 39 / 2 ^ 30 * 4096)
        = 0xA000 + va % 2 ^ 39 / 2 ^ 30 * 4096 := by
      unfold pageMask
      omega
    have hnext : ¬ ((0xA003 + va % 2 ^ 39 / 2 ^ 30 * 4096) &&& PAGE_PRESENT = 0 ∨ 30 = 12 ∨
        (0xA003 + va % 2 ^ 39 / 2 ^ 30 * 4096) &&& PAGE_LARGE ≠ 0) := by
      rw [and_present, and_large]
      omega
    have hlarge : bootPd (va % 2 ^ 39 / 2 ^ 21) &&& PAGE_LARGE ≠ 0 := by
      rw [and_large]
      unfold bootPd
      omega
    rw [if_pos hlow, hlink, if_neg hnext, hmask, entryAt_pd h hlow, if_pos (Or.inr (Or.inr hlarge))]
    exact ⟨Or.inr (Or.inr (Or.inr ⟨by decide, Or.inr (Or.inr (Or.inr
      ⟨by omega, Or.inr (Or.inr (Or.inl hlarge))⟩))⟩)), rfl⟩
  · have hnone : bootPdpt (va % 2 ^ 39 / 2 ^ 30) = 0 := if_neg (by omega)
    rw [if_neg hlow, hnone, if_pos (Or.inl hzero)]
    exact ⟨Or.inr (Or.inr (Or.inr ⟨by decide, Or.inl hzero⟩)), rfl⟩

theorem pageMask_boot : pageMask s.cr3 = 0x8000 := by
  rw [h.cr3_eq]
  rfl

/-- The processor's walk in slot 0 or 256. -/
theorem walkPhysical_boot (hc : Canonical va)
    (hslot : va % 2 ^ 48 / 2 ^ 39 = 0 ∨ va % 2 ^ 48 / 2 ^ 39 = 256) :
    walkPhysical va s = if va % 2 ^ 39 < 2 ^ 33 then some (va % 2 ^ 39) else none := by
  obtain ⟨hpointers, hend⟩ := walkEnd_boot h hslot
  have hroot : s.cr3 % 2 ^ 52 / 4096 * 4096 = 0x8000 := by
    rw [h.cr3_eq]
    rfl
  rw [walkPhysical, if_pos hc, hroot, pageWalk_eq levels hpointers, hend]
  by_cases hlow : va % 2 ^ 39 < 2 ^ 33
  · rw [if_pos hlow, if_pos hlow, (goodPage_boot hlow).page]
    have hoffset : va % 2 ^ 21 = va % 2 ^ 39 % 2 ^ 21 := by omega
    rw [hoffset]
    exact congrArg some (bootPd_place hlow)
  · rw [if_neg hlow, if_neg hlow]
    rfl

/-- In the window the first 8 GiB are mapped. -/
theorem walkFits_boot_iff (hw : InWindow va) : WalkFits va s ↔ va < PHYSICAL_MEMORY + 2 ^ 33 := by
  obtain ⟨hlow, hhigh⟩ := id hw
  unfold WalkFits
  rw [if_pos hw, pageMask_boot h]
  unfold PHYSICAL_MEMORY MMIO_REGION at *
  rw [(walkEnd_boot h (by omega)).2]
  by_cases hlt : va % 2 ^ 39 < 2 ^ 33
  · rw [if_pos hlt]
    have hplace : bootPd (va % 2 ^ 39 / 2 ^ 21) % 2 ^ 52 / 2 ^ 21
        = (va - 0xFFFF800000000000) / 2 ^ 21 := by
      unfold bootPd
      omega
    exact iff_of_true ⟨goodPage_boot hlt, hplace⟩ (by omega)
  · rw [if_neg hlt]
    exact iff_of_false (fun hgood => hgood.1.present rfl) (by omega)

end Boot

/-- **`vmm_get_physical`.** It agrees with the processor's walk of the tables exactly for the
addresses that fit; with the tables of `setup_paging`, these are the first 8 GiB of the window. -/
theorem vmmGetPhysical_walk_iff {s : State} {va : Nat} (hc : Canonical va)
    (hplain : PlainTables s va) :
    (vmmGetPhysical va s = walkPhysical va s ↔ WalkFits va s) ∧
      (BootTables s → InWindow va → (WalkFits va s ↔ va < PHYSICAL_MEMORY + 2 ^ 33)) := by
  have hcr3 : s.cr3 % 2 ^ 52 / 4096 * 4096 = pageMask s.cr3 := by
    rw [Nat.mod_eq_of_lt hplain.cr3_lt, pageMask]
  refine ⟨?_, walkFits_boot_iff⟩
  rw [walkPhysical, if_pos hc, hcr3, pageWalk_eq levels hplain.pointers]
  exact getPhysical_eq_page_iff va s

/-- The address where the kernel image lies in the window. -/
theorem vmmGetPhysical_walk_image : Canonical 0xFFFF800000100000 ∧
    PlainTables .start 0xFFFF800000100000 ∧
    (vmmGetPhysical 0xFFFF800000100000 .start = walkPhysical 0xFFFF800000100000 .start ↔
      WalkFits 0xFFFF800000100000 .start) ∧
    (BootTables .start → InWindow 0xFFFF800000100000 →
      (WalkFits 0xFFFF800000100000 .start ↔ 0xFFFF800000100000 < PHYSICAL_MEMORY + 2 ^ 33)) := by
  have hplain : PlainTables .start 0xFFFF800000100000 :=
    ⟨by decide, (walkEnd_boot bootTables_start (Or.inr (by decide))).1⟩
  exact ⟨by decide, hplain, vmmGetPhysical_walk_iff (by decide) hplain⟩

/-- An address in a large page, but not in its first 4 KiB, and one in the window behind the 8 GiB. -/
theorem vmmGetPhysical_walk_differs :
    (Canonical 0x1000 ∧ vmmGetPhysical 0x1000 .start = some 0 ∧
      walkPhysical 0x1000 .start = some 0x1000) ∧
    (Canonical 0xFFFF800200000000 ∧ vmmGetPhysical 0xFFFF800200000000 .start = some 0x200000000 ∧
      walkPhysical 0xFFFF800200000000 .start = none) := by
  have hpage : vmmGetPage 0x1000 .start = 0x83 := by
    have hslot : 0x1000 % 2 ^ 48 / 2 ^ 39 = 0 ∨ 0x1000 % 2 ^ 48 / 2 ^ 39 = 256 := by decide
    have hend := (walkEnd_boot bootTables_start hslot).2
    rw [if_pos (by decide)] at hend
    rcases vmmGetPage_walkEnd 0x1000 .start with h | ⟨-, h⟩
    · rw [h, pageMask_boot bootTables_start, hend]
      rfl
    · rw [pageMask_boot bootTables_start, hend] at h
      exact absurd h (by decide)
  refine ⟨⟨by decide, ?_, ?_⟩, by decide, if_pos (by decide), ?_⟩
  · rw [vmmGetPhysical_some (by decide) (by rw [hpage]; decide), frameOf, hpage]
  · rw [walkPhysical_boot bootTables_start (by decide) (Or.inl (by decide)), if_pos (by decide)]
    rfl
  · rw [walkPhysical_boot bootTables_start (by decide) (Or.inr (by decide)), if_neg (by decide)]

end Windozz.Kernel

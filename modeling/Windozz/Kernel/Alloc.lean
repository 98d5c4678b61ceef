import Windozz.Kernel.Vmm

set_option autoImplicit false

/-! # Allocating and freeing pages

`vmm_find`, `vmm_alloc` and `vmm_free` of `vmm.c`. An allocation backs each page of a range that
`vmm_find` found unmapped by a fresh frame, and every round of the loop may add page tables from
the same supply. `Backs` says what the rounds so far have done; it grows by one page in each
round (`Backs.step`) and so describes the whole loop, also one that runs out of pages
(`allocLoop_spec`). `Unbacks` is its counterpart for `vmm_free`.
-/

namespace Windozz.Kernel

open Radix

/-! ## The functions -/

/-- `ptr + (i << PAGE_SIZE_SHIFT)`, the address of page `i` of a range. -/
def pageAt (ptr i : Nat) : Nat := u64 (ptr + u64 (i * 4096))

/-- The loop of `vmm_find`. `some 0` stands for `NULL`, and `none` for a loop that does not end
within `fuel` rounds. -/
def findLoop (s : State) (count : Nat) : Nat → Nat → Nat → Option Nat
  | 0, _, _ => none
  | fuel + 1, ptr, i =>
      if pageAt ptr count < PHYSICAL_MEMORY ∨ MMIO_REGION ≤ ptr then
        if vmmGetPhysical (pageAt ptr i) s = none then
          if count ≤ u64 (i + 1) then some ptr else findLoop s count fuel ptr (u64 (i + 1))
        else findLoop s count fuel (u64 (ptr + PAGE_SIZE)) 0
      else some 0

/-- `vmm_find`. A pointer and an index take at most `2 ^ 128` values, so a loop of more rounds
never ends. -/
def vmmFind (start count : Nat) (s : State) : Option Nat := findLoop s count (2 ^ 128) start 0

/-- The loop of `vmm_alloc` from round `i` on, with `n` rounds to go. -/
def allocLoop (ptr flags : Nat) : Nat → Nat → K Bool
  | 0, _ => pure true
  | n + 1, i => do
      let phys ← pmmAllocPage
      if phys = 0 then pure false
      else do
        vmmMapPage (pageAt ptr i) phys flags
        allocLoop ptr flags n (i + 1)

/-- `vmm_alloc`. -/
def vmmAlloc (start count flags : Nat) : K Nat := do
  let s ← get
  if u64 (s.pmm.total_pages + (2 ^ 64 - u64 s.pmm.used_pages)) ≤ count then pure 0
  else
    match vmmFind start count s with
    | none => throw .hang
    | some ptr =>
        if ptr = 0 then pure 0
        else do
          acquire .vmm_mutex
          let done ← allocLoop ptr flags count 0
          release .vmm_mutex
          if done then pure ptr else pure 0

/-- The loop of `vmm_free` from round `i` on, with `n` rounds to go. -/
def freeLoop (virtual : Nat) : Nat → Nat → K Unit
  | 0, _ => pure ()
  | n + 1, i => do
      let s ← get
      match vmmGetPhysical (pageAt virtual i) s with
      | some phys => do
          pmmFreePage phys
          vmmMapPage (pageAt virtual i) 0 0
          freeLoop virtual n (i + 1)
      | none => freeLoop virtual n (i + 1)

/-- `vmm_free`. -/
def vmmFree (virtual count : Nat) : K Unit := do
  acquire .vmm_mutex
  freeLoop virtual count 0
  release .vmm_mutex

/-! ## The pages of a range -/

theorem pageAt_mod {ptr : Nat} (h : ptr % 4096 = 0) (i : Nat) : pageAt ptr i % 4096 = 0 := by
  unfold pageAt u64
  omega

theorem pageOf_pageAt {ptr : Nat} (h : ptr % 4096 = 0) (i : Nat) :
    pageOf (pageAt ptr i) = (ptr / 4096 + i) % 2 ^ 36 := by
  unfold pageOf pageAt u64
  omega

/-- The pages of a range are distinct. -/
theorem pageOf_pageAt_ne {ptr : Nat} (h : ptr % 4096 = 0) {i j : Nat} (hi : i < 2 ^ 36)
    (hj : j < 2 ^ 36) (hne : i ≠ j) : pageOf (pageAt ptr i) ≠ pageOf (pageAt ptr j) := by
  rw [pageOf_pageAt h, pageOf_pageAt h]
  omega

/-- What an address is bound to depends on its page. -/
theorem vmmGetPage_congr {v w : Nat} (h : pageOf v = pageOf w) (s : State) :
    vmmGetPage v s = vmmGetPage w s := by
  obtain ⟨hpath, hindex⟩ := key_eq_iff.mpr h
  rw [vmmGetPage_eq, vmmGetPage_eq, hpath, hindex]

theorem noLargePage_congr {v w : Nat} (h : pageOf v = pageOf w) {s : State} :
    s.NoLargePage v ↔ s.NoLargePage w := by
  rw [State.NoLargePage, State.NoLargePage, (key_eq_iff.mpr h).1]

/-- An address that `vmm_get_physical` does not find. -/
theorem vmmGetPhysical_none {va : Nat} {s : State} :
    vmmGetPhysical va s = none ↔ ¬ InWindow va ∧ vmmGetPage va s &&& PAGE_PRESENT = 0 := by
  unfold vmmGetPhysical
  by_cases hw : InWindow va
  · simp [hw]
  · by_cases hp : vmmGetPage va s &&& PAGE_PRESENT = 0
    · simp [hw, hp]
    · simp [hw, hp]

theorem vmmGetPage_lt (va : Nat) (s : State) : vmmGetPage va s < 2 ^ 64 := by
  obtain ⟨f, k, h | h⟩ := lookup_eq_entry pageFormat s.tables (pathOf va) s.root (levelIndex 12 va)
  · rw [vmmGetPage_eq, h]
    exact Mem.qword_lt _ _
  · have hstop : pageFormat.stop (s.tables f k) ≤ s.tables f k := by
      simp only [pageFormat]
      split <;> omega
    rw [vmmGetPage_eq, h]
    exact lt_of_le_of_lt hstop (Mem.qword_lt _ _)

/-- The frame that an address is mapped to. -/
def frameOf (s : State) (va : Nat) : Nat := vmmGetPage va s / 4096

/-- An address that is mapped lies in its frame. -/
theorem vmmGetPhysical_some {va : Nat} {s : State} (hw : ¬ InWindow va)
    (hp : vmmGetPage va s &&& PAGE_PRESENT ≠ 0) :
    vmmGetPhysical va s = some (frameOf s va * 4096 + va % 4096) := by
  have hoffset : va &&& 0xFFF = va % 4096 := Nat.and_two_pow_sub_one_eq_mod va 12
  have hlt := vmmGetPage_lt va s
  unfold vmmGetPhysical
  rw [if_neg hw]
  refine (if_pos hp).trans (congrArg some ?_)
  rw [hoffset, pageMask, frameOf]
  exact u64_of_lt (by omega)

/-- A large page is present. -/
theorem noLargePage_of_absent {va : Nat} {s : State} (h : vmmGetPage va s &&& PAGE_PRESENT = 0) :
    s.NoLargePage va := by
  intro p i q f hpath hwalk hlarge
  have hdown : pageFormat.down (s.tables f i) = none :=
    (if_neg hlarge.1).trans (if_pos hlarge.2)
  have hstop : pageFormat.stop (s.tables f i) = s.tables f i := if_neg hlarge.1
  rw [vmmGetPage_eq, hpath, lookup_stop hwalk hdown, hstop] at h
  exact hlarge.1 h

/-! ## `vmm_find` -/

theorem findLoop_spec {s : State} {count fuel : Nat} : ∀ {ptr i p : Nat}, ptr < 2 ^ 64 →
    (∀ j, j < i → vmmGetPhysical (pageAt ptr j) s = none) → findLoop s count fuel ptr i = some p →
    p = 0 ∨ p % 4096 = ptr % 4096 ∧ p < 2 ^ 64 ∧
      ∀ j, j < count ∨ j = 0 → vmmGetPhysical (pageAt p j) s = none := by
  induction fuel with
  | zero =>
      intro ptr i p _ _ h
      cases h
  | succ fuel ih =>
      intro ptr i p hlt hfound h
      rw [findLoop] at h
      split at h
      · split at h
        -- the page is not mapped: the range is complete, or the search goes on in it
        · rename_i hfree
          have hfound' : ∀ j, j < i + 1 → vmmGetPhysical (pageAt ptr j) s = none := by
            intro j hj
            rcases Nat.lt_succ_iff_lt_or_eq.mp hj with hj | rfl
            · exact hfound j hj
            · exact hfree
          have hle : u64 (i + 1) ≤ i + 1 := Nat.mod_le _ _
          split at h
          · obtain rfl := Option.some.inj h
            exact Or.inr ⟨rfl, hlt, fun j hj => hfound' j (by omega)⟩
          · exact ih hlt (fun j hj => hfound' j (by omega)) h
        -- the page is mapped: the search begins anew behind `ptr`
        · have hnext : u64 (ptr + PAGE_SIZE) % 4096 = ptr % 4096 := by
            unfold u64 PAGE_SIZE
            omega
          rw [← hnext]
          exact ih (u64_lt _) (fun j hj => absurd hj (Nat.not_lt_zero _)) h
      · exact Or.inl (Option.some.inj h).symm

/-- The range that `vmm_find` returns is not mapped, nor is the first page of an empty one. -/
theorem vmmFind_unmapped {start count ptr : Nat} {s : State} (hlt : start < 2 ^ 64)
    (h : vmmFind start count s = some ptr) (hne : ptr ≠ 0) :
    ptr % 4096 = start % 4096 ∧ ptr < 2 ^ 64 ∧
      ∀ i, i < count ∨ i = 0 → vmmGetPhysical (pageAt ptr i) s = none := by
  rcases findLoop_spec hlt (fun j hj => absurd hj (Nat.not_lt_zero _)) h with h0 | h
  · exact absurd h0 hne
  · exact h

theorem vmmFind_spec {start count ptr : Nat} {s : State} (hstart : start % 4096 = 0)
    (hlt : start < 2 ^ 64) (h : vmmFind start count s = some ptr) (hne : ptr ≠ 0) :
    ptr % 4096 = 0 ∧ ptr < 2 ^ 64 ∧
      ∀ i, i < count → vmmGetPhysical (pageAt ptr i) s = none := by
  obtain ⟨halign, hptr, hnone⟩ := vmmFind_unmapped hlt h hne
  exact ⟨halign.trans hstart, hptr, fun i hi => hnone i (Or.inl hi)⟩

/-- A range above the window that is not mapped is found at once. -/
theorem findLoop_first {s : State} {count ptr : Nat} (hptr : MMIO_REGION ≤ ptr)
    (hcount : count < 2 ^ 64) (hfree : ∀ i, i < count → vmmGetPhysical (pageAt ptr i) s = none)
    (fuel : Nat) : ∀ i, i < count → count - i ≤ fuel → findLoop s count fuel ptr i = some ptr := by
  induction fuel with
  | zero =>
      intro i hi hfuel
      omega
  | succ fuel ih =>
      intro i hi hfuel
      have hnext : u64 (i + 1) = i + 1 := u64_of_lt (by omega)
      rw [findLoop, if_pos (Or.inr hptr), if_pos (hfree i hi), hnext]
      by_cases hlast : count ≤ i + 1
      · rw [if_pos hlast]
      · rw [if_neg hlast]
        exact ih (i + 1) (by omega) (by omega)

/-- None of the `count` pages from `ptr` on is mapped. -/
def State.Unmapped (s : State) (ptr count : Nat) : Prop :=
  ∀ i, i < count → vmmGetPhysical (pageAt ptr i) s = none

/-- A range with a page that is mapped is left for the one that begins a page further. -/
theorem findLoop_reject {s : State} {count ptr : Nat} (hptr : MMIO_REGION ≤ ptr)
    (hcount : count < 2 ^ 64) (d : Nat) : ∀ i, count - i = d →
      (∃ j, i ≤ j ∧ j < count ∧ vmmGetPhysical (pageAt ptr j) s ≠ none) →
      ∃ n, n ≤ d ∧ ∀ fuel, findLoop s count (fuel + n) ptr i
        = findLoop s count fuel (u64 (ptr + PAGE_SIZE)) 0 := by
  induction d with
  | zero =>
      rintro i hi ⟨j, hij, hj, -⟩
      omega
  | succ d ih =>
      rintro i hi ⟨j, hij, hj, hmapped⟩
      -- the page that is mapped is still ahead, or it is the one that is tested
      by_cases hfree : vmmGetPhysical (pageAt ptr i) s = none
      · have hne : i ≠ j := fun h => hmapped (h ▸ hfree)
        have hnext : u64 (i + 1) = i + 1 := u64_of_lt (by omega)
        obtain ⟨n, hn, hloop⟩ := ih (i + 1) (by omega) ⟨j, by omega, hj, hmapped⟩
        refine ⟨n + 1, by omega, fun fuel => ?_⟩
        rw [← Nat.add_assoc, findLoop, if_pos (Or.inr hptr), if_pos hfree, hnext,
          if_neg (by omega), hloop]
      · refine ⟨1, by omega, fun fuel => ?_⟩
        rw [findLoop, if_pos (Or.inr hptr), if_neg hfree]

/-- The search comes to the first range without a page that is mapped. Each range before it costs at
most `count` rounds. -/
theorem findLoop_reaches {s : State} {count : Nat} (hpos : 0 < count) (hcount : count < 2 ^ 64)
    (k : Nat) : ∀ {ptr : Nat}, MMIO_REGION ≤ ptr → ptr + k * 4096 < 2 ^ 64 →
      (∀ j, j < k → ¬ s.Unmapped (ptr + j * 4096) count) → s.Unmapped (ptr + k * 4096) count →
      ∃ n, n ≤ (k + 1) * count ∧ ∀ fuel, findLoop s count (fuel + n) ptr 0 = some (ptr + k * 4096) := by
  induction k with
  | zero =>
      intro ptr hptr _ _ hfree
      rw [Nat.zero_mul, Nat.add_zero] at hfree ⊢
      exact ⟨count, by omega, fun fuel => findLoop_first hptr hcount hfree _ 0 hpos (by omega)⟩
  | succ k ih =>
      intro ptr hptr hlt hmapped hfree
      have hnext : u64 (ptr + PAGE_SIZE) = ptr + 4096 := u64_of_lt (by unfold PAGE_SIZE; omega)
      have hshift : ∀ j, ptr + 4096 + j * 4096 = ptr + (j + 1) * 4096 := by
        intro j
        omega
      have hfirst := hmapped 0 (by omega)
      rw [Nat.zero_mul, Nat.add_zero, State.Unmapped] at hfirst
      push Not at hfirst
      obtain ⟨j, hj, hmapped₀⟩ := hfirst
      -- the first range costs `n₁` rounds, the others `n₂`
      obtain ⟨n₁, hn₁, hreject⟩ := findLoop_reject hptr hcount count 0 (by omega)
        ⟨j, Nat.zero_le _, hj, hmapped₀⟩
      obtain ⟨n₂, hn₂, hrest⟩ := @ih (ptr + 4096) (by omega) (by omega)
        (fun j hj => by
          rw [hshift]
          exact hmapped (j + 1) (by omega))
        (by rwa [hshift])
      refine ⟨n₂ + n₁, ?_, fun fuel => ?_⟩
      · rw [Nat.succ_mul]
        omega
      · rw [← Nat.add_assoc, hreject, hnext, hrest, hshift]

/-- `vmm_find` returns the first range without a page that is mapped. -/
theorem vmmFind_reaches {start count k : Nat} {s : State} (hstart : MMIO_REGION ≤ start)
    (hlt : start + k * 4096 < 2 ^ 64) (hpos : 0 < count) (hcount : count < 2 ^ 64)
    (hmapped : ∀ j, j < k → ¬ s.Unmapped (start + j * 4096) count)
    (hfree : s.Unmapped (start + k * 4096) count) :
    vmmFind start count s = some (start + k * 4096) := by
  obtain ⟨n, hn, hloop⟩ := findLoop_reaches hpos hcount k hstart hlt hmapped hfree
  have hrounds : (k + 1) * count ≤ 2 ^ 52 * 2 ^ 64 := Nat.mul_le_mul (by omega) (by omega)
  have hfuel : 2 ^ 128 = (2 ^ 128 - n) + n := by omega
  rw [vmmFind, hfuel, hloop]

/-- A search that meets no range runs over the end of the address space, and stops at address 0. -/
theorem findLoop_exhausts {s : State} {count : Nat} (hcount : count < 2 ^ 64)
    (hend : PHYSICAL_MEMORY ≤ pageAt 0 count) (k : Nat) : ∀ {ptr : Nat}, MMIO_REGION ≤ ptr →
      ptr + k * 4096 = 2 ^ 64 → (∀ j, j < k → ¬ s.Unmapped (ptr + j * 4096) count) →
      ∃ n, n ≤ k * count + 1 ∧ ∀ fuel, findLoop s count (fuel + n) (u64 ptr) 0 = some 0 := by
  induction k with
  | zero =>
      intro ptr _ hsum _
      obtain rfl : ptr = 2 ^ 64 := by omega
      have hwrap : u64 (2 ^ 64) = 0 := Nat.mod_self _
      have hzero : ¬ MMIO_REGION ≤ 0 := by decide
      -- the pointer has wrapped to 0, which is below the window
      refine ⟨1, by omega, fun fuel => ?_⟩
      rw [hwrap, findLoop, if_neg (not_or.mpr ⟨not_lt.mpr hend, hzero⟩)]
  | succ k ih =>
      intro ptr hptr hsum hmapped
      have hsame : u64 ptr = ptr := u64_of_lt (by omega)
      have hnext : u64 (ptr + PAGE_SIZE) = u64 (ptr + 4096) := rfl
      have hfirst := hmapped 0 (by omega)
      rw [Nat.zero_mul, Nat.add_zero, State.Unmapped] at hfirst
      push Not at hfirst
      obtain ⟨j, hj, hmapped₀⟩ := hfirst
      obtain ⟨n₁, hn₁, hreject⟩ := findLoop_reject hptr hcount count 0 (by omega)
        ⟨j, Nat.zero_le _, hj, hmapped₀⟩
      obtain ⟨n₂, hn₂, hrest⟩ := @ih (ptr + 4096) (by omega) (by omega) fun j hj => by
        have hshift : ptr + 4096 + j * 4096 = ptr + (j + 1) * 4096 := by omega
        rw [hshift]
        exact hmapped (j + 1) (by omega)
      refine ⟨n₂ + n₁, ?_, fun fuel => ?_⟩
      · rw [Nat.succ_mul]
        omega
      · rw [hsame, ← Nat.add_assoc, hreject, hnext, hrest]

/-- `vmm_find` returns `NULL` when every range up to the end of the address space has a page that is
mapped. -/
theorem vmmFind_null {start count k : Nat} {s : State} (hstart : MMIO_REGION ≤ start)
    (hsum : start + k * 4096 = 2 ^ 64) (hpos : 0 < k) (hcount : count < 2 ^ 64)
    (hend : PHYSICAL_MEMORY ≤ pageAt 0 count)
    (hmapped : ∀ j, j < k → ¬ s.Unmapped (start + j * 4096) count) :
    vmmFind start count s = some 0 := by
  obtain ⟨n, hn, hloop⟩ := findLoop_exhausts hcount hend k hstart hsum hmapped
  have hrounds : k * count ≤ 2 ^ 52 * 2 ^ 64 := Nat.mul_le_mul (by omega) (by omega)
  have hfuel : 2 ^ 128 = (2 ^ 128 - n) + n := by omega
  have hsame : u64 start = start := u64_of_lt (by omega)
  rw [hsame] at hloop
  rw [vmmFind, hfuel, hloop]

/-- Behind the pages that are mapped, `vmm_find` finds the range that is not. -/
theorem vmmFind_after {start count k : Nat} {s : State} (hstart : MMIO_REGION ≤ start)
    (hlt : start + k * 4096 < 2 ^ 64) (hpos : 0 < count) (hcount : count < 2 ^ 64)
    (hmapped : ∀ i, i < k → vmmGetPhysical (pageAt start i) s ≠ none)
    (hfree : s.Unmapped (start + k * 4096) count) :
    vmmFind start count s = some (start + k * 4096) := by
  refine vmmFind_reaches hstart hlt hpos hcount (fun j hj hunmapped => hmapped j hj ?_) hfree
  have hpage : pageAt (start + j * 4096) 0 = pageAt start j := by
    unfold pageAt u64
    omega
  rw [← hpage]
  exact hunmapped 0 hpos

/-- **`vmm_find`.** When there is a range without a page that is mapped, in front of the end of the
address space, the search ends and returns the lowest one. -/
theorem vmmFind_lowest {start count : Nat} {s : State} (hstart : MMIO_REGION ≤ start)
    (hpos : 1 ≤ count) (hrange : ∃ k, start + (k + count) * 4096 ≤ 2 ^ 64 ∧
      s.Unmapped (start + k * 4096) count) :
    ∃ k, vmmFind start count s = some (start + k * 4096) ∧
      start + (k + count) * 4096 ≤ 2 ^ 64 ∧ s.Unmapped (start + k * 4096) count ∧
      ∀ j, j < k → ¬ s.Unmapped (start + j * 4096) count := by
  classical
  obtain ⟨k, ⟨hend, hfree⟩, hleast⟩ : ∃ k, (start + (k + count) * 4096 ≤ 2 ^ 64 ∧
      s.Unmapped (start + k * 4096) count) ∧ ∀ j, j < k → ¬ (start + (j + count) * 4096 ≤ 2 ^ 64 ∧
        s.Unmapped (start + j * 4096) count) :=
    ⟨Nat.find hrange, Nat.find_spec hrange, fun _ => Nat.find_min hrange⟩
  have hmapped : ∀ j, j < k → ¬ s.Unmapped (start + j * 4096) count := by
    intro j hj hunmapped
    have hle : (j + count) * 4096 ≤ (k + count) * 4096 := Nat.mul_le_mul_right _ (by omega)
    exact hleast j hj ⟨(Nat.add_le_add_left hle start).trans hend, hunmapped⟩
  have hlt : start + k * 4096 < 2 ^ 64 := by omega
  have hcount : count < 2 ^ 64 := by omega
  exact ⟨k, vmmFind_reaches hstart hlt hpos hcount hmapped hfree, hend, hfree, hmapped⟩

/-- Of the pages of the heap the first and the third are mapped. -/
def State.heapHole : State :=
  { State.boot with
    mem := ((((State.boot.mem.setQword (0x8000 + 8 * 258) 0x9003).setQword 0x9000 0xA003).setQword
      0xA000 0xB003).setQword 0xB000 0x10003).setQword (0xB000 + 8 * 2) 0x12003 }

/-- The hole is too small for two pages, so the search for them ends behind it. -/
theorem vmmFind_lowest_heapHole :
    vmmFind KERNEL_HEAP 2 .heapHole = some (KERNEL_HEAP + 3 * 4096) ∧
      State.heapHole.Unmapped (KERNEL_HEAP + 1 * 4096) 1 ∧
      State.heapHole.Unmapped (KERNEL_HEAP + 3 * 4096) 2 ∧
      ∀ j, j < 3 → ¬ State.heapHole.Unmapped (KERNEL_HEAP + j * 4096) 2 := by
  have hend : KERNEL_HEAP + (3 + 2) * 4096 ≤ 2 ^ 64 := by decide
  have hhole : State.heapHole.Unmapped (KERNEL_HEAP + 1 * 4096) 1 := by
    unfold State.Unmapped
    decide +kernel
  have hfree : State.heapHole.Unmapped (KERNEL_HEAP + 3 * 4096) 2 := by
    unfold State.Unmapped
    decide +kernel
  have hmapped : ∀ j, j < 3 → ¬ State.heapHole.Unmapped (KERNEL_HEAP + j * 4096) 2 := by
    unfold State.Unmapped
    decide +kernel
  obtain ⟨k, hfind, -, hfirst, hleast⟩ :=
    vmmFind_lowest (s := .heapHole) (by decide) (by decide) ⟨3, hend, hfree⟩
  -- range 3 is free, and none in front of it
  have hk : k = 3 := by
    rcases lt_trichotomy k 3 with hlt | heq | hgt
    · exact absurd hfirst (hmapped k hlt)
    · exact heq
    · exact absurd hfree (hleast 3 hgt)
  subst hk
  exact ⟨hfind, hhole, hfirst, hleast⟩

/-! ## The loop of `vmm_alloc` -/

/-- The frames that may be handed out lie in the window. -/
def State.WindowFrames (s : State) : Prop := ∀ q, s.pmm.Free q → q < 2 ^ 27

/-- Between two states the first pages from `ptr` on were backed by the frames `frames`, with the
new tables `new`. -/
structure Backs (s s' : State) (ptr flags : Nat) (frames : List Nat) (new : Finset Nat) : Prop where
  only : s' = { s with mem := s'.mem, pmm := s'.pmm, mutexes := s'.mutexes }
  takes : Takes s.pmm s'.pmm (new ∪ frames.toFinset)
  nodup : frames.Nodup
  disjoint : ∀ k ∈ frames, k ∉ new
  tree : s'.PageTree
  fresh : s'.FreshFrames
  frames_eq : s'.tableFrames = s.tableFrames ∪ new
  mapped : ∀ (i k : Nat), frames[i]? = some k → vmmGetPage (pageAt ptr i) s' = k * 4096 ||| flags
  other : ∀ w, (∀ i, i < frames.length → pageOf w ≠ pageOf (pageAt ptr i)) →
    vmmGetPage w s' = vmmGetPage w s
  noLargePage : ∀ w, s.NoLargePage w → s'.NoLargePage w
  mem_eq : ∀ a, a / 4096 ∉ s'.tableFrames → s'.mem a = s.mem a

namespace Backs

variable {s s₁ : State} {ptr flags : Nat} {frames : List Nat} {new : Finset Nat}

theorem start (htree : s.PageTree) (hfresh : s.FreshFrames) (m : Mutex → Bool) :
    Backs s { s with mutexes := m } ptr flags [] ∅ :=
  ⟨rfl, .refl _, List.nodup_nil, by simp, htree, hfresh,
    by rw [Finset.coe_empty, Set.union_empty]; rfl, by simp, fun _ _ => rfl, fun _ h => h,
    fun _ _ => rfl⟩

theorem relock (h : Backs s s₁ ptr flags frames new) (m : Mutex → Bool) :
    Backs s { s₁ with mutexes := m } ptr flags frames new :=
  ⟨by rw [h.only], h.takes, h.nodup, h.disjoint, h.tree, h.fresh, h.frames_eq, h.mapped, h.other,
    h.noLargePage, h.mem_eq⟩

/-- The mutexes of the first state play no part. -/
theorem unlock {m : Mutex → Bool} (h : Backs { s with mutexes := m } s₁ ptr flags frames new) :
    Backs s s₁ ptr flags frames new :=
  ⟨h.only, h.takes, h.nodup, h.disjoint, h.tree, h.fresh, h.frames_eq, h.mapped, h.other,
    h.noLargePage, h.mem_eq⟩

/-- The backing frames were free. -/
theorem frame_free (h : Backs s s₁ ptr flags frames new) {k : Nat} (hk : k ∈ frames) :
    s.pmm.Free k :=
  h.takes.free k (Finset.mem_union_right _ (List.mem_toFinset.mpr hk))

/-- The backing frames hold no tables. -/
theorem frame_not_table (h : Backs s s₁ ptr flags frames new) (hfresh : s.FreshFrames) {k : Nat}
    (hk : k ∈ frames) : k ∉ s₁.tableFrames := by
  rw [h.frames_eq]
  rintro (hin | hin)
  · exact hfresh k (h.frame_free hk) hin
  · exact h.disjoint k hk hin

/-- No more pages are backed than there are frames in the window. -/
theorem length_le (h : Backs s s₁ ptr flags frames new) (hwindow : s.WindowFrames) :
    frames.length ≤ 2 ^ 27 := by
  have hsub : frames.toFinset ⊆ Finset.range (2 ^ 27) := fun k hk =>
    Finset.mem_range.mpr (hwindow k (h.frame_free (List.mem_toFinset.mp hk)))
  have hcard := Finset.card_le_card hsub
  rwa [List.toFinset_card_of_nodup h.nodup, Finset.card_range] at hcard

/-- **One round.** A fresh frame is bound to the next page. -/
theorem step (h : Backs s s₁ ptr flags frames new) (hwindow : s.WindowFrames)
    (hptr : ptr % 4096 = 0) (hflags : flags < 4096)
    (habsent : vmmGetPage (pageAt ptr frames.length) s &&& PAGE_PRESENT = 0) {phys : Nat}
    {s₂ s₃ : State} (halloc : pmmAllocPage s₁ = .ok (phys, s₂)) (hne : phys ≠ 0)
    (hmap : vmmMapPage (pageAt ptr frames.length) phys flags s₂ = .ok ((), s₃)) :
    ∃ new', Backs s s₃ ptr flags (frames ++ [phys / 4096]) (new ∪ new') := by
  obtain ⟨-, halign, hlt, hfree, rfl⟩ := pmmAllocPage_ok halloc hne
  have htakes := takes_markPageUsed hfree
  have hlen := h.length_le hwindow
  have hnolarge : (s₁.withPmm (pmmMarkPageUsed phys s₁.pmm)).NoLargePage
      (pageAt ptr frames.length) := h.noLargePage _ (noLargePage_of_absent habsent)
  have htree : (s₁.withPmm (pmmMarkPageUsed phys s₁.pmm)).PageTree := h.tree
  have hfresh : (s₁.withPmm (pmmMarkPageUsed phys s₁.pmm)).FreshFrames := fun q hq =>
    h.fresh q (htakes.free_iff.mp hq).1
  have hvalue : phys ||| flags = phys / 4096 * 4096 ||| flags := by
    rw [Nat.div_mul_cancel (Nat.dvd_of_mod_eq_zero halign)]
  have hbound : phys ||| flags < 2 ^ 64 := by
    rw [or_flags halign hflags]
    omega
  -- the frame is taken first and the page is mapped then, with tables that may take more frames
  obtain ⟨new', -, hmaps⟩ := vmmMapPage_spec htree hfresh hnolarge hbound hmap
  have hnot : phys / 4096 ∉ new' := fun hin =>
    (htakes.free_iff.mp (hmaps.takes.free _ hin)).2 (Finset.mem_singleton_self _)
  have hphys : phys / 4096 ∉ frames ∧ phys / 4096 ∉ new := by
    have := (h.takes.free_iff.mp hfree).2
    rw [Finset.mem_union, not_or, List.mem_toFinset] at this
    exact this.symm
  have hpages : ∀ i, i < frames.length →
      pageOf (pageAt ptr i) ≠ pageOf (pageAt ptr frames.length) := fun i hi =>
    pageOf_pageAt_ne hptr (by omega) (by omega) (by omega)
  refine ⟨new', ?_, ?_, ?_, ?_, hmaps.tree, hmaps.fresh hfresh, ?_, ?_, ?_, ?_, ?_⟩
  · rw [hmaps.only, State.withPmm, h.only]
  · have hall := (h.takes.trans htakes).trans hmaps.takes
    convert hall using 1
    ext q
    simp only [Finset.mem_union, List.mem_toFinset, List.mem_append, List.mem_singleton,
      Finset.mem_singleton]
    tauto
  · exact List.nodup_append.mpr ⟨h.nodup, List.nodup_singleton _, fun a ha b hb hab =>
      hphys.1 (List.mem_singleton.mp hb ▸ hab ▸ ha)⟩
  · intro k hk
    rw [Finset.mem_union, not_or]
    rcases List.mem_append.mp hk with hk | hk
    · refine ⟨h.disjoint k hk, fun hin => ?_⟩
      have := (h.takes.free_iff.mp (htakes.free_iff.mp (hmaps.takes.free _ hin)).1).2
      exact this (Finset.mem_union_right _ (List.mem_toFinset.mpr hk))
    · rw [List.mem_singleton.mp hk]
      exact ⟨hphys.2, hnot⟩
  · rw [hmaps.frames_eq, Finset.coe_union, ← Set.union_assoc, ← h.frames_eq]
    rfl
  · intro i k hk
    -- the pages before, the new page, and nothing behind it
    rcases Nat.lt_trichotomy i frames.length with hi | rfl | hi
    · rw [List.getElem?_append_left hi] at hk
      rw [hmaps.other _ (hpages i hi)]
      exact h.mapped i k hk
    · rw [List.getElem?_concat_length] at hk
      rw [hmaps.same _ rfl, hvalue, Option.some.inj hk]
    · rw [List.getElem?_eq_none (by simp; omega)] at hk
      cases hk
  · intro w hw
    rw [List.length_append, List.length_singleton] at hw
    rw [hmaps.other w (hw _ (by omega))]
    exact h.other w fun i hi => hw i (by omega)
  · exact fun w hw => hmaps.noLargePage w (h.noLargePage w hw)
  · intro a ha
    refine (hmaps.mem_eq a ha).trans (h.mem_eq a fun hin => ha ?_)
    rw [hmaps.frames_eq]
    exact Or.inl hin

end Backs

/-- **The loop of `vmm_alloc`.** What it did when it returns, whether it backed all the pages or
ran out of frames. -/
theorem allocLoop_spec {s : State} (hwindow : s.WindowFrames) {ptr flags : Nat}
    (hptr : ptr % 4096 = 0) (hflags : flags < 4096) (n : Nat) :
    ∀ {s₁ s' : State} {frames : List Nat} {new : Finset Nat} {done : Bool},
      (∀ i, i < frames.length + n → vmmGetPage (pageAt ptr i) s &&& PAGE_PRESENT = 0) →
      Backs s s₁ ptr flags frames new → allocLoop ptr flags n frames.length s₁ = .ok (done, s') →
      ∃ frames' new', Backs s s' ptr flags frames' new' ∧
        frames'.length ≤ frames.length + n ∧ (done = true → frames'.length = frames.length + n) := by
  induction n with
  | zero =>
      intro s₁ s' frames new done _ h hrun
      obtain ⟨-, rfl⟩ := Prod.mk.inj (Except.ok.inj hrun)
      exact ⟨frames, new, h, le_refl _, fun _ => rfl⟩
  | succ n ih =>
      intro s₁ s' frames new done habsent h hrun
      rw [allocLoop] at hrun
      obtain ⟨phys, s₂, halloc, hrun⟩ := Prog.bind_eq_ok.mp hrun
      by_cases hz : phys = 0
      · subst hz
        obtain rfl := pmmAllocPage_null halloc
        obtain ⟨rfl, rfl⟩ := Prod.mk.inj (Except.ok.inj hrun)
        exact ⟨frames, new, h.relock _, by omega, fun hdone => by cases hdone⟩
      · rw [if_neg hz] at hrun
        obtain ⟨_, s₃, hmap, hrun⟩ := Prog.bind_eq_ok.mp hrun
        obtain ⟨new', hstep⟩ := h.step hwindow hptr hflags (habsent _ (by omega)) halloc hz hmap
        have hlen : (frames ++ [phys / 4096]).length = frames.length + 1 := by simp
        rw [← hlen] at hrun
        obtain ⟨frames', new'', hback, hle, heq⟩ :=
          ih (fun i hi => habsent i (by omega)) hstep hrun
        exact ⟨frames', new'', hback, by omega, fun hdone => by have := heq hdone; omega⟩

/-- With four pages in supply for each round, the loop backs all the pages. -/
theorem allocLoop_returns {s : State} (hwindow : s.WindowFrames) {ptr flags : Nat}
    (hptr : ptr % 4096 = 0) (hflags : flags < 4096) (n : Nat) :
    ∀ {s₁ : State} {frames : List Nat} {new : Finset Nat},
      (∀ i, i < frames.length + n → vmmGetPage (pageAt ptr i) s &&& PAGE_PRESENT = 0) →
      Backs s s₁ ptr flags frames new → s₁.mutexes .pmm_mutex = false →
      s₁.pmm.Scannable → s₁.pmm.Supply (4 * n) →
      ∃ s' taken, allocLoop ptr flags n frames.length s₁ = .ok (true, s') ∧
        s'.mutexes = s₁.mutexes ∧ Takes s₁.pmm s'.pmm taken ∧ taken.card ≤ 4 * n := by
  induction n with
  | zero =>
      intro s₁ frames new _ _ _ _ _
      exact ⟨s₁, ∅, rfl, rfl, .refl _, by simp⟩
  | succ n ih =>
      intro s₁ frames new habsent h hm hscan hsupply
      -- one page for the frame and at most three for the tables on the way to it
      obtain ⟨phys, hne, halloc⟩ := pmmAllocPage_returns hm hscan (hsupply.mono (by omega))
      obtain ⟨-, halign, hlt, hfree, -⟩ := pmmAllocPage_ok halloc hne
      have htakes := takes_markPageUsed hfree
      have htree : (s₁.withPmm (pmmMarkPageUsed phys s₁.pmm)).PageTree := h.tree
      have hnolarge : (s₁.withPmm (pmmMarkPageUsed phys s₁.pmm)).NoLargePage
          (pageAt ptr frames.length) :=
        h.noLargePage _ (noLargePage_of_absent (habsent _ (by omega)))
      have hfresh : (s₁.withPmm (pmmMarkPageUsed phys s₁.pmm)).FreshFrames := fun q hq =>
        h.fresh q (htakes.free_iff.mp hq).1
      have hscan' : (pmmMarkPageUsed phys s₁.pmm).Scannable := htakes.scannable hscan
      have hsupply' : (pmmMarkPageUsed phys s₁.pmm).Supply (4 * n + 3) :=
        htakes.supply (hsupply.mono (by simp; omega))
      obtain ⟨s₃, hmap⟩ := vmmMapPage_returns htree hnolarge hfresh hm hscan'
        (hsupply'.mono (by omega)) phys flags
      have hbound : phys ||| flags < 2 ^ 64 := by
        rw [or_flags halign hflags]
        omega
      obtain ⟨new₃, hcard, hmaps⟩ := vmmMapPage_spec htree hfresh hnolarge hbound hmap
      obtain ⟨new', hstep⟩ := h.step hwindow hptr hflags (habsent _ (by omega)) halloc hne hmap
      have hmutexes : s₃.mutexes = s₁.mutexes := by
        rw [hmaps.only]
        rfl
      have hlen : (frames ++ [phys / 4096]).length = frames.length + 1 := by simp
      obtain ⟨s', taken, hrun, hm', htaken, hle⟩ := ih (fun i hi => habsent i (by omega)) hstep
        (by rw [hmutexes, hm]) (hmaps.takes.scannable hscan')
        (hmaps.takes.supply (hsupply'.mono (by omega)))
      rw [hlen] at hrun
      have hone : ({phys / 4096} ∪ (new₃ ∪ taken)).card ≤ 4 * (n + 1) := calc
        ({phys / 4096} ∪ (new₃ ∪ taken)).card
          ≤ ({phys / 4096} : Finset Nat).card + (new₃ ∪ taken).card := Finset.card_union_le _ _
        _ ≤ 1 + (new₃.card + taken.card) :=
          Nat.add_le_add (Finset.card_singleton _).le (Finset.card_union_le _ _)
        _ ≤ 4 * (n + 1) := by omega
      exact ⟨s', _, by rw [allocLoop, Prog.bind_ok halloc, if_neg hne, Prog.bind_ok hmap, hrun],
        hm'.trans hmutexes, htakes.trans (hmaps.takes.trans htaken), hone⟩

/-- **What `vmm_alloc` does.** When it returns a pointer, it has backed the range, which was not
mapped; when it returns `NULL`, it may have backed a part of one. -/
theorem vmmAlloc_spec {s s' : State} (htree : s.PageTree) (hfresh : s.FreshFrames)
    (hwindow : s.WindowFrames) {start count flags ptr : Nat} (hstart : start % 4096 = 0)
    (hlt : start < 2 ^ 64) (hflags : flags < 4096)
    (hrun : vmmAlloc start count flags s = .ok (ptr, s')) :
    ∃ p frames new, Backs s s' p flags frames new ∧ p % 4096 = 0 ∧ p < 2 ^ 64 ∧
      (∀ i, i < frames.length → vmmGetPhysical (pageAt p i) s = none) ∧
      (ptr ≠ 0 → ptr = p ∧ frames.length = count) := by
  have hnothing : ∃ p frames new, Backs s s p flags frames new ∧ p % 4096 = 0 ∧ p < 2 ^ 64 ∧
      (∀ i, i < frames.length → vmmGetPhysical (pageAt p i) s = none) ∧
      ((0 : Nat) ≠ 0 → 0 = p ∧ frames.length = count) :=
    ⟨0, [], ∅, .start htree hfresh s.mutexes, rfl, by decide, by simp, fun h => absurd rfl h⟩
  rw [vmmAlloc, Prog.bind_ok (Prog.run_get _)] at hrun
  by_cases hguard : u64 (s.pmm.total_pages + (2 ^ 64 - u64 s.pmm.used_pages)) ≤ count
  · rw [if_pos hguard] at hrun
    obtain ⟨rfl, rfl⟩ := Prod.mk.inj (Except.ok.inj hrun)
    exact hnothing
  · rw [if_neg hguard] at hrun
    cases hfind : vmmFind start count s with
    | none =>
        rw [hfind] at hrun
        cases hrun
    | some p =>
        rw [hfind] at hrun
        by_cases hp : p = 0
        · simp only [if_pos hp] at hrun
          obtain ⟨rfl, rfl⟩ := Prod.mk.inj (Except.ok.inj hrun)
          exact hnothing
        · simp only [if_neg hp] at hrun
          obtain ⟨halign, hplt, hnone⟩ := vmmFind_spec hstart hlt hfind hp
          obtain ⟨_, s₁, hacquire, hrun⟩ := Prog.bind_eq_ok.mp hrun
          obtain ⟨done, s₂, hloop, hrun⟩ := Prog.bind_eq_ok.mp hrun
          rw [Prog.bind_ok (run_release _ _)] at hrun
          obtain rfl := acquire_ok hacquire
          have hnil : Backs s _ p flags [] ∅ :=
            .start htree hfresh (Function.update s.mutexes .vmm_mutex true)
          have habsent : ∀ i, i < ([] : List Nat).length + count →
              vmmGetPage (pageAt p i) s &&& PAGE_PRESENT = 0 := by
            intro i hi
            exact (vmmGetPhysical_none.mp (hnone i (by simpa using hi))).2
          obtain ⟨frames, new, hback, hle, hall⟩ :=
            allocLoop_spec hwindow halign hflags count habsent hnil hloop
          -- the pages stay backed when the loop stops early: nothing is undone
          have hrelease := hback.relock (Function.update s₂.mutexes .vmm_mutex false)
          refine ⟨p, frames, new, ?_, halign, hplt, fun i hi => hnone i ?_, ?_⟩
          · cases done with
            | true =>
                obtain ⟨-, rfl⟩ := Prod.mk.inj (Except.ok.inj hrun)
                exact hrelease
            | false =>
                obtain ⟨-, rfl⟩ := Prod.mk.inj (Except.ok.inj hrun)
                exact hrelease
          · rw [List.length_nil, Nat.zero_add] at hle
            omega
          · intro hne
            cases done with
            | true =>
                obtain ⟨rfl, -⟩ := Prod.mk.inj (Except.ok.inj hrun)
                exact ⟨rfl, by simpa using hall rfl⟩
            | false =>
                obtain ⟨rfl, -⟩ := Prod.mk.inj (Except.ok.inj hrun)
                exact absurd rfl hne

/-- What `vmm_alloc` returns, `vmm_find` found. -/
theorem vmmAlloc_find {s s' : State} {start count flags ptr : Nat} (hne : ptr ≠ 0)
    (hrun : vmmAlloc start count flags s = .ok (ptr, s')) : vmmFind start count s = some ptr := by
  rw [vmmAlloc, Prog.bind_ok (Prog.run_get _)] at hrun
  split at hrun
  · exact absurd (Prod.mk.inj (Except.ok.inj hrun)).1.symm hne
  · cases hfind : vmmFind start count s with
    | none =>
        rw [hfind] at hrun
        cases hrun
    | some p =>
        rw [hfind] at hrun
        by_cases hp : p = 0
        · simp only [if_pos hp] at hrun
          exact absurd (Prod.mk.inj (Except.ok.inj hrun)).1.symm hne
        · simp only [if_neg hp] at hrun
          obtain ⟨_, s₁, -, hrun⟩ := Prog.bind_eq_ok.mp hrun
          obtain ⟨done, s₂, -, hrun⟩ := Prog.bind_eq_ok.mp hrun
          rw [Prog.bind_ok (run_release _ _)] at hrun
          cases done with
          | true => rw [(Prod.mk.inj (Except.ok.inj hrun)).1]
          | false => exact absurd (Prod.mk.inj (Except.ok.inj hrun)).1.symm hne

/-- With four pages in supply for each page asked for, also by the counters, `vmm_alloc` returns the
range it found. -/
theorem vmmAlloc_takes {s : State} (htree : s.PageTree) (hfresh : s.FreshFrames)
    (hwindow : s.WindowFrames) (hpmm : s.mutexes .pmm_mutex = false)
    (hvmm : s.mutexes .vmm_mutex = false) {start count flags p : Nat} (hscan : s.pmm.Scannable)
    (hsupply : s.pmm.Supply (4 * count))
    (hguard : count < u64 (s.pmm.total_pages + (2 ^ 64 - u64 s.pmm.used_pages)))
    (hstart : start % 4096 = 0) (hlt : start < 2 ^ 64) (hflags : flags < 4096)
    (hfind : vmmFind start count s = some p) (hne : p ≠ 0) :
    ∃ s' taken, vmmAlloc start count flags s = .ok (p, s') ∧ s'.mutexes = s.mutexes ∧
      Takes s.pmm s'.pmm taken ∧ taken.card ≤ 4 * count := by
  obtain ⟨hp, -, habsent⟩ := vmmFind_spec hstart hlt hfind hne
  have hnil : Backs s { s with mutexes := Function.update s.mutexes .vmm_mutex true } p flags
      [] ∅ := .start htree hfresh _
  obtain ⟨s₁, taken, hloop, hmutexes, htakes, hcard⟩ := allocLoop_returns hwindow hp hflags count
    (fun i hi => (vmmGetPhysical_none.mp (habsent i (by simpa using hi))).2) hnil
    (by simpa using hpmm) hscan hsupply
  rw [List.length_nil] at hloop
  have hunlock : Function.update s₁.mutexes .vmm_mutex false = s.mutexes := by
    rw [hmutexes]
    exact release_acquire hvmm
  refine ⟨{ s₁ with mutexes := Function.update s₁.mutexes .vmm_mutex false }, taken, ?_, hunlock,
    htakes, hcard⟩
  rw [vmmAlloc, Prog.bind_ok (Prog.run_get _), if_neg (not_le.mpr hguard), hfind]
  simp only [if_neg hne]
  rw [Prog.bind_ok (acquire_free hvmm), Prog.bind_ok hloop, Prog.bind_ok (run_release _ _)]
  rfl

/-- With room for four pages for each page asked for, there is room left afterwards. -/
theorem vmmAlloc_returns {s : State} (htree : s.PageTree) (hfresh : s.FreshFrames)
    (hwindow : s.WindowFrames) (hpmm : s.mutexes .pmm_mutex = false)
    (hvmm : s.mutexes .vmm_mutex = false) {start count flags p room : Nat}
    (hroom : s.pmm.Room (4 * count + room)) (hstart : start % 4096 = 0) (hlt : start < 2 ^ 64)
    (hflags : flags < 4096) (hfind : vmmFind start count s = some p) (hne : p ≠ 0) :
    ∃ s', vmmAlloc start count flags s = .ok (p, s') ∧ s'.mutexes = s.mutexes ∧
      s'.pmm.Room room := by
  have hguard : count < u64 (s.pmm.total_pages + (2 ^ 64 - u64 s.pmm.used_pages)) := by
    have hspare := hroom.spare
    have htotal := hroom.total_lt
    unfold u64
    omega
  obtain ⟨s', taken, hrun, hmutexes, htakes, hcard⟩ := vmmAlloc_takes htree hfresh hwindow hpmm hvmm
    hroom.scannable (hroom.supply.mono (by omega)) hguard hstart hlt hflags hfind hne
  exact ⟨s', hrun, hmutexes, htakes.room (hroom.mono (by omega))⟩

/-! ## The loop of `vmm_free` -/

/-- Between two states the first `n` pages from `virtual` on were unmapped and their frames
released. -/
structure Unbacks (s s' : State) (virtual n : Nat) : Prop where
  only : s' = { s with mem := s'.mem, pmm := s'.pmm, mutexes := s'.mutexes }
  highest_eq : s'.pmm.highest_usable_address = s.pmm.highest_usable_address
  test_iff : ∀ q, s'.pmm.bitmap.test q = false ↔
    s.pmm.bitmap.test q = false ∨ ∃ i, i < n ∧ q = frameOf s (pageAt virtual i)
  tree : s'.PageTree
  frames_eq : s'.tableFrames = s.tableFrames
  other : ∀ w, (∀ i, i < n → pageOf w ≠ pageOf (pageAt virtual i)) →
    vmmGetPage w s' = vmmGetPage w s
  noLargePage : ∀ w, s.NoLargePage w → s'.NoLargePage w
  mem_eq : ∀ a, a / 4096 ∉ s.tableFrames → s'.mem a = s.mem a

namespace Unbacks

variable {s s₁ : State} {virtual n : Nat}

theorem start (htree : s.PageTree) (m : Mutex → Bool) :
    Unbacks s { s with mutexes := m } virtual 0 :=
  ⟨rfl, rfl, by simp, htree, rfl, fun _ _ => rfl, fun _ h => h, fun _ _ => rfl⟩

theorem relock (h : Unbacks s s₁ virtual n) (m : Mutex → Bool) :
    Unbacks s { s₁ with mutexes := m } virtual n :=
  ⟨by rw [h.only], h.highest_eq, h.test_iff, h.tree, h.frames_eq, h.other, h.noLargePage, h.mem_eq⟩

/-- The tables of the next page are there. -/
theorem walks (h : Unbacks s s₁ virtual n) (hvirtual : virtual % 4096 = 0) (hn : n < 2 ^ 36)
    (hlarge : s.NoLargePage (pageAt virtual n))
    (hpresent : vmmGetPage (pageAt virtual n) s &&& PAGE_PRESENT ≠ 0) :
    ∃ f, walk pageFormat s₁.tables s₁.root (pathOf (pageAt virtual n)) = some f := by
  have hsame : vmmGetPage (pageAt virtual n) s₁ = vmmGetPage (pageAt virtual n) s :=
    h.other _ fun i hi => pageOf_pageAt_ne hvirtual hn (by omega) (by omega)
  refine walk_of_present (h.noLargePage _ hlarge) ?_
  rw [hsame]
  exact hpresent

section Round

variable (h : Unbacks s s₁ virtual n) (hvirtual : virtual % 4096 = 0) (hn : n < 2 ^ 36)
  (hlarge : s.NoLargePage (pageAt virtual n))
  (hpresent : vmmGetPage (pageAt virtual n) s &&& PAGE_PRESENT ≠ 0) {s₂ s₃ : State} {u : Unit}
  (hfree : pmmFreePage (frameOf s (pageAt virtual n) * 4096) s₁ = .ok (u, s₂))
  (hmap : vmmMapPage (pageAt virtual n) 0 0 s₂ = .ok ((), s₃))

include h hvirtual hn hlarge hpresent hfree hmap

/-- Unmapping the next page takes no frame: its tables are there. -/
theorem maps : Maps s₂ s₃ ∅ (pageAt virtual n) 0 := by
  have hs₂ := pmmFreePage_ok hfree
  have htables : s₂.tables = s₁.tables := by rw [hs₂]; rfl
  have hroot : s₂.root = s₁.root := by rw [hs₂]; rfl
  have htree : s₂.PageTree := by
    rw [State.PageTree, htables, hroot]
    exact h.tree
  obtain ⟨f, hwalk⟩ := h.walks hvirtual hn hlarge hpresent
  rw [← htables, ← hroot] at hwalk
  rw [vmmMapPage_present hwalk] at hmap
  obtain rfl := (Prod.mk.inj (Except.ok.inj hmap)).2
  exact (Grows.refl htree).maps hwalk (show (0 : Nat) ||| 0 < 2 ^ 64 by decide)

/-- **One round.** The frame of the next page is released and the page unmapped. -/
theorem step : Unbacks s s₃ virtual (n + 1) := by
  have hmaps := h.maps hvirtual hn hlarge hpresent hfree hmap
  have hs₂ := pmmFreePage_ok hfree
  have htables : s₂.tables = s₁.tables := by rw [hs₂]; rfl
  have hroot : s₂.root = s₁.root := by rw [hs₂]; rfl
  have hframes : s₂.tableFrames = s.tableFrames := by
    rw [State.tableFrames, htables, hroot]
    exact h.frames_eq
  -- releasing the frame changes neither tables nor translations, unmapping the page does
  have hget : ∀ w, vmmGetPage w s₂ = vmmGetPage w s₁ := by
    intro w
    rw [vmmGetPage_eq, htables, hroot, ← vmmGetPage_eq]
  refine ⟨?_, ?_, ?_, hmaps.tree, ?_, ?_, ?_, ?_⟩
  · rw [hmaps.only, hs₂, State.withPmm, h.only]
  · rw [hmaps.takes.highest_eq, hs₂]
    exact (highest_markPageFree _ _).trans h.highest_eq
  · intro q
    rw [hmaps.takes.test_eq, decide_eq_false (Finset.notMem_empty q), Bool.or_false, hs₂,
      State.withPmm, test_markPageFree, Nat.mul_div_cancel _ (by decide), Bool.and_eq_false_iff,
      h.test_iff]
    simp only [Bool.not_eq_false', decide_eq_true_eq, Nat.lt_succ_iff_lt_or_eq]
    constructor
    · rintro ((hq | ⟨i, hi, rfl⟩) | rfl)
      · exact Or.inl hq
      · exact Or.inr ⟨i, Or.inl hi, rfl⟩
      · exact Or.inr ⟨n, Or.inr rfl, rfl⟩
    · rintro (hq | ⟨i, hi | rfl, rfl⟩)
      · exact Or.inl (Or.inl hq)
      · exact Or.inl (Or.inr ⟨i, hi, rfl⟩)
      · exact Or.inr rfl
  · rw [hmaps.frames_eq, Finset.coe_empty, Set.union_empty, hframes]
  · intro w hw
    rw [hmaps.other w (hw n (by omega)), hget]
    exact h.other w fun i hi => hw i (by omega)
  · intro w hw
    refine hmaps.noLargePage w ?_
    rw [State.NoLargePage, htables, hroot]
    exact h.noLargePage w hw
  · intro a ha
    have hmem : s₂.mem = s₁.mem := by rw [hs₂]; rfl
    rw [hmaps.mem_eq a, hmem]
    · exact h.mem_eq a ha
    · rw [hmaps.frames_eq, Finset.coe_empty, Set.union_empty, hframes]
      exact ha

/-- The pages of the rounds so far are not mapped. -/
theorem unmaps (hdone : ∀ j, j < n → vmmGetPage (pageAt virtual j) s₁ = 0) :
    ∀ j, j < n + 1 → vmmGetPage (pageAt virtual j) s₃ = 0 := by
  have hmaps := h.maps hvirtual hn hlarge hpresent hfree hmap
  intro j hj
  rcases Nat.lt_succ_iff_lt_or_eq.mp hj with hj | rfl
  · have hs₂ := pmmFreePage_ok hfree
    rw [hmaps.other _ (pageOf_pageAt_ne hvirtual (by omega) hn (by omega)), hs₂]
    exact hdone j hj
  · exact hmaps.same _ rfl

end Round

end Unbacks

/-- The pages of a range are mapped, and none of them is large. -/
structure RangeMapped (s : State) (virtual n : Nat) : Prop where
  aligned : virtual % 4096 = 0
  length_lt : n < 2 ^ 36
  outside : ∀ i, i < n → ¬ InWindow (pageAt virtual i)
  noLarge : ∀ i, i < n → s.NoLargePage (pageAt virtual i)
  present : ∀ i, i < n → vmmGetPage (pageAt virtual i) s &&& PAGE_PRESENT ≠ 0

/-- The next page of a range of which the first pages were released is mapped as before. -/
theorem Unbacks.physical {s s₁ : State} {virtual total i : Nat} (hrange : RangeMapped s virtual total)
    (hi : i < total) (h : Unbacks s s₁ virtual i) :
    vmmGetPhysical (pageAt virtual i) s₁ = some (frameOf s (pageAt virtual i) * 4096) := by
  have halign := hrange.aligned
  have htotal := hrange.length_lt
  have hsame : vmmGetPage (pageAt virtual i) s₁ = vmmGetPage (pageAt virtual i) s :=
    h.other _ fun j hj => pageOf_pageAt_ne halign (by omega) (by omega) (by omega)
  rw [vmmGetPhysical_some (hrange.outside i hi), pageAt_mod halign, Nat.add_zero, frameOf, hsame,
    frameOf]
  rw [hsame]
  exact hrange.present i hi

/-- One round of the loop of `vmm_free`, on a range of which the first pages were released. -/
theorem freeLoop_round {s s₁ s' : State} {virtual total i n : Nat} {u : Unit}
    (hrange : RangeMapped s virtual total) (hi : i + (n + 1) = total) (h : Unbacks s s₁ virtual i)
    (hrun : freeLoop virtual (n + 1) i s₁ = .ok (u, s')) :
    ∃ s₂ s₃, pmmFreePage (frameOf s (pageAt virtual i) * 4096) s₁ = .ok ((), s₂) ∧
      vmmMapPage (pageAt virtual i) 0 0 s₂ = .ok ((), s₃) ∧
      freeLoop virtual n (i + 1) s₃ = .ok (u, s') := by
  have hphys := h.physical hrange (by omega)
  rw [freeLoop, Prog.bind_ok (Prog.run_get _), hphys] at hrun
  simp only at hrun
  obtain ⟨_, s₂, hfree, hrun⟩ := Prog.bind_eq_ok.mp hrun
  obtain ⟨_, s₃, hmap, hrun⟩ := Prog.bind_eq_ok.mp hrun
  exact ⟨s₂, s₃, hfree, hmap, hrun⟩

theorem freeLoop_spec {s : State} {virtual total : Nat} (hrange : RangeMapped s virtual total)
    (n : Nat) : ∀ {i : Nat} {s₁ s' : State} {u : Unit}, i + n = total →
      Unbacks s s₁ virtual i → freeLoop virtual n i s₁ = .ok (u, s') →
      Unbacks s s' virtual total := by
  have htotal := hrange.length_lt
  induction n with
  | zero =>
      intro i s₁ s' u hi h hrun
      obtain ⟨-, rfl⟩ := Prod.mk.inj (Except.ok.inj hrun)
      obtain rfl : i = total := by omega
      exact h
  | succ n ih =>
      intro i s₁ s' u hi h hrun
      obtain ⟨s₂, s₃, hfree, hmap, hrest⟩ := freeLoop_round hrange hi h hrun
      exact ih (by omega) (h.step hrange.aligned (by omega) (hrange.noLarge i (by omega))
        (hrange.present i (by omega)) hfree hmap) hrest

/-- After the loop no page of the range is mapped. -/
theorem freeLoop_unmaps {s : State} {virtual total : Nat} (hrange : RangeMapped s virtual total)
    (n : Nat) : ∀ {i : Nat} {s₁ s' : State} {u : Unit}, i + n = total →
      Unbacks s s₁ virtual i → (∀ j, j < i → vmmGetPage (pageAt virtual j) s₁ = 0) →
      freeLoop virtual n i s₁ = .ok (u, s') →
      ∀ j, j < total → vmmGetPage (pageAt virtual j) s' = 0 := by
  have htotal := hrange.length_lt
  induction n with
  | zero =>
      intro i s₁ s' u hi _ hdone hrun
      obtain ⟨-, rfl⟩ := Prod.mk.inj (Except.ok.inj hrun)
      obtain rfl : i = total := by omega
      exact hdone
  | succ n ih =>
      intro i s₁ s' u hi h hdone hrun
      obtain ⟨s₂, s₃, hfree, hmap, hrest⟩ := freeLoop_round hrange hi h hrun
      have hlarge := hrange.noLarge i (by omega)
      have hpresent := hrange.present i (by omega)
      exact ih (by omega) (h.step hrange.aligned (by omega) hlarge hpresent hfree hmap)
        (h.unmaps hrange.aligned (by omega) hlarge hpresent hfree hmap hdone) hrest

/-- **What `vmm_free` does** to a range that is mapped. -/
theorem vmmFree_spec {s s' : State} (htree : s.PageTree) {virtual count : Nat} {u : Unit}
    (hrange : RangeMapped s virtual count) (hrun : vmmFree virtual count s = .ok (u, s')) :
    Unbacks s s' virtual count ∧ ∀ i, i < count → vmmGetPage (pageAt virtual i) s' = 0 := by
  rw [vmmFree] at hrun
  obtain ⟨_, s₁, hacquire, hrest⟩ := Prog.bind_eq_ok.mp hrun
  obtain ⟨_, s₂, hloop, hrelease⟩ := Prog.bind_eq_ok.mp hrest
  obtain rfl := acquire_ok hacquire
  obtain ⟨-, rfl⟩ := Prod.mk.inj (Except.ok.inj hrelease)
  have hstart : Unbacks s _ virtual 0 :=
    .start htree (Function.update s.mutexes .vmm_mutex true)
  have hunmapped := freeLoop_unmaps hrange count (Nat.zero_add _) hstart
    (fun j hj => absurd hj (Nat.not_lt_zero _)) hloop
  exact ⟨(freeLoop_spec hrange count (Nat.zero_add _) hstart hloop).relock _, hunmapped⟩

end Windozz.Kernel

import Windozz.Kernel.Alloc

set_option autoImplicit false

/-! # Memory accesses of the kernel

The kernel uses its heap through virtual addresses, which the processor translates by the tables
(`translate`). An address that is not canonical or not mapped faults; the checks of permissions
and reserved bits are left out, so the model has more runs that return than the machine.

Accesses to pages that are not large agree with `vmm_get_physical` (`translate_eq`), and stores to
frames that hold no tables leave the translation as it is (`Stores`).
-/

namespace Windozz.Kernel

open Radix

/-! ## Translation -/

/-- The address has the form the processor requires. -/
def Canonical (va : Nat) : Prop := va < 2 ^ 47 ∨ 2 ^ 64 - 2 ^ 47 ≤ va

instance (va : Nat) : Decidable (Canonical va) := inferInstanceAs (Decidable (_ ∨ _))

/-- The physical address the processor finds for a virtual one. -/
def translate (va : Nat) (s : State) : Option Nat :=
  if ¬ Canonical va then none
  else if InWindow va then some (va - PHYSICAL_MEMORY)
  else
    let virtual := va &&& 0xFFFFFFFFFFFF
    let pml4e := entry s.mem (pageMask s.cr3) (tableIndex 39 virtual)
    if pml4e &&& PAGE_PRESENT = 0 ∨ pml4e &&& PAGE_LARGE ≠ 0 then none
    else
      let pdpte := entry s.mem (pageMask pml4e) (tableIndex 30 virtual)
      if pdpte &&& PAGE_PRESENT = 0 then none
      else if pdpte &&& PAGE_LARGE ≠ 0 then some (pdpte / 2 ^ 30 * 2 ^ 30 + va % 2 ^ 30)
      else
        let pde := entry s.mem (pageMask pdpte) (tableIndex 21 virtual)
        if pde &&& PAGE_PRESENT = 0 then none
        else if pde &&& PAGE_LARGE ≠ 0 then some (pde / 2 ^ 21 * 2 ^ 21 + va % 2 ^ 21)
        else
          let pte := entry s.mem (pageMask pde) (tableIndex 12 virtual)
          if pte &&& PAGE_PRESENT = 0 then none else some (pageMask pte + va % 4096)

/-! ## Accesses -/

def loadByte (va : Nat) : K UInt8 := do
  let s ← get
  match translate va s with
  | some pa => pure (s.mem pa)
  | none => throw .fault

def storeByte (va : Nat) (b : UInt8) : K Unit := do
  let s ← get
  match translate va s with
  | some pa => set { s with mem := Function.update s.mem pa b }
  | none => throw .fault

def loadBytes : Nat → Nat → K (List UInt8)
  | _, 0 => pure []
  | va, n + 1 => do
      let b ← loadByte va
      let bs ← loadBytes (u64 (va + 1)) n
      pure (b :: bs)

def storeBytes : Nat → List UInt8 → K Unit
  | _, [] => pure ()
  | va, b :: bs => do
      storeByte va b
      storeBytes (u64 (va + 1)) bs

def loadQword (va : Nat) : K Nat := do
  let bs ← loadBytes va 8
  pure (ofLE bs)

def storeQword (va x : Nat) : K Unit := storeBytes va (toLE 8 x)

/-- `memset(ptr, 0, num)`. -/
def memset (ptr num : Nat) : K Unit := storeBytes ptr (List.replicate num 0)

/-- A run of string moves of `width` bytes each. -/
def moveUnits (width : Nat) : Nat → Nat → Nat → K Unit
  | _, _, 0 => pure ()
  | dest, src, n + 1 => do
      let bs ← loadBytes src width
      storeBytes dest bs
      moveUnits width (u64 (dest + width)) (u64 (src + width)) n

/-- `memcpy`. -/
def memcpy (dest src num : Nat) : K Unit := do
  moveUnits 8 dest src (num / 8)
  moveUnits 1 (u64 (dest + num / 8 * 8)) (u64 (src + num / 8 * 8)) (num % 8)

/-! ## Translation and `vmm_get_physical` -/

/-- The entries on the walk of an address without large pages. -/
theorem State.NoLargePage.levels {va : Nat} {s : State} (h : s.NoLargePage va) :
    let virtual := va &&& 0xFFFFFFFFFFFF
    let pml4e := entry s.mem (pageMask s.cr3) (tableIndex 39 virtual)
    let pdpte := entry s.mem (pageMask pml4e) (tableIndex 30 virtual)
    let pde := entry s.mem (pageMask pdpte) (tableIndex 21 virtual)
    ¬ LargePage pml4e ∧ (pml4e &&& PAGE_PRESENT ≠ 0 → ¬ LargePage pdpte ∧
      (pdpte &&& PAGE_PRESENT ≠ 0 → ¬ LargePage pde)) := by
  have hdown : ∀ {e}, e &&& PAGE_PRESENT ≠ 0 → ¬ LargePage e →
      pageFormat.down e = some (e / 4096) := fun hp hl =>
    (if_neg hp).trans (if_neg fun hlarge => hl ⟨hp, hlarge⟩)
  have hentry : ∀ k shift, entry s.mem (k * 4096) (tableIndex shift (va &&& 0xFFFFFFFFFFFF))
      = s.tables k (levelIndex shift va) := fun _ _ => rfl
  have hroot : s.cr3 / 4096 = s.root := rfl
  simp only [pageMask, hentry, hroot]
  have hlarge₁ : ¬ LargePage (s.tables s.root (levelIndex 39 va)) := h [] _ _ _ rfl rfl
  refine ⟨hlarge₁, fun hp₁ => ?_⟩
  have hwalk₁ : walk pageFormat s.tables s.root [levelIndex 39 va] = _ :=
    (walk_singleton _ _).trans (hdown hp₁ hlarge₁)
  have hlarge₂ := h [levelIndex 39 va] _ _ _ rfl hwalk₁
  refine ⟨hlarge₂, fun hp₂ => ?_⟩
  exact h [levelIndex 39 va, levelIndex 30 va] _ _ _ rfl
    ((walk_concat hwalk₁ _).trans (hdown hp₂ hlarge₂))

/-- Off large pages the processor finds what `vmm_get_physical` finds. -/
theorem translate_eq {va : Nat} {s : State} (hlarge : s.NoLargePage va) :
    translate va s = if Canonical va then vmmGetPhysical va s else none := by
  by_cases hc : Canonical va
  · by_cases hw : InWindow va
    · simp [translate, vmmGetPhysical, hc, hw]
    · obtain ⟨hl₁, hlevels⟩ := hlarge.levels
      have hget : vmmGetPhysical va s = if vmmGetPage va s &&& PAGE_PRESENT = 0 then none
          else some (pageMask (vmmGetPage va s) + va % 4096) := by
        by_cases hp : vmmGetPage va s &&& PAGE_PRESENT = 0
        · rw [if_pos hp]
          exact vmmGetPhysical_none.mpr ⟨hw, hp⟩
        · rw [if_neg hp]
          exact vmmGetPhysical_some hw hp
      rw [if_pos hc, hget, translate, if_neg (not_not.mpr hc), if_neg hw, vmmGetPage]
      simp only
      generalize entry s.mem (pageMask s.cr3) (tableIndex 39 (va &&& 0xFFFFFFFFFFFF)) = e₁ at *
      by_cases hp₁ : e₁ &&& PAGE_PRESENT = 0
      · simp [hp₁]
      · obtain ⟨hl₂, hl₃⟩ := hlevels hp₁
        have hs₁ : ¬ e₁ &&& PAGE_LARGE ≠ 0 := fun h => hl₁ ⟨hp₁, h⟩
        rw [if_neg (not_or.mpr ⟨hp₁, hs₁⟩), if_neg hp₁, if_neg hs₁]
        generalize entry s.mem (pageMask e₁) (tableIndex 30 (va &&& 0xFFFFFFFFFFFF)) = e₂ at *
        by_cases hp₂ : e₂ &&& PAGE_PRESENT = 0
        · simp [hp₂]
        · have hs₂ : ¬ e₂ &&& PAGE_LARGE ≠ 0 := fun h => hl₂ ⟨hp₂, h⟩
          specialize hl₃ hp₂
          rw [if_neg hp₂, if_neg hs₂, if_neg hp₂, if_neg hs₂]
          generalize entry s.mem (pageMask e₂) (tableIndex 21 (va &&& 0xFFFFFFFFFFFF)) = e₃ at *
          by_cases hp₃ : e₃ &&& PAGE_PRESENT = 0
          · simp [hp₃]
          · have hs₃ : ¬ e₃ &&& PAGE_LARGE ≠ 0 := fun h => hl₃ ⟨hp₃, h⟩
            rw [if_neg hp₃, if_neg hs₃, if_neg hp₃, if_neg hs₃]
  · simp [translate, hc]

/-! ## Stores -/

/-- Between two states memory was changed in the frames `F` only. -/
structure Stores (s s' : State) (F : Set Nat) : Prop where
  only : s' = { s with mem := s'.mem }
  mem_eq : ∀ a, a / 4096 ∉ F → s'.mem a = s.mem a

namespace Stores

variable {s s' s'' : State} {F : Set Nat}

theorem refl (s : State) (F : Set Nat) : Stores s s F := ⟨rfl, fun _ _ => rfl⟩

theorem trans (h : Stores s s' F) (h' : Stores s' s'' F) : Stores s s'' F :=
  ⟨by rw [h'.only, h.only], fun a ha => (h'.mem_eq a ha).trans (h.mem_eq a ha)⟩

theorem root_eq (h : Stores s s' F) : s'.root = s.root := by
  rw [State.root, h.only, State.root]

theorem pmm_eq (h : Stores s s' F) : s'.pmm = s.pmm := by rw [h.only]

theorem mutexes_eq (h : Stores s s' F) : s'.mutexes = s.mutexes := by rw [h.only]

/-- One byte is stored. -/
theorem byte {pa : Nat} (hpa : pa / 4096 ∈ F) (b : UInt8) :
    Stores s { s with mem := Function.update s.mem pa b } F := by
  refine ⟨rfl, fun a ha => Function.update_of_ne ?_ _ _⟩
  rintro rfl
  exact ha hpa

section Tables

variable (h : Stores s s' F) (hF : ∀ k ∈ F, k ∉ s.tableFrames)

include h hF

/-- Stores to frames that hold no tables leave the tables. -/
theorem tables_eq : ∀ k ∈ s.tableFrames, s'.tables k = s.tables k := by
  intro k hk
  funext i
  have hi := i.isLt
  refine Mem.qword_congr fun j hj => h.mem_eq _ fun hin => hF k ?_ hk
  have hpage : (k * 4096 + 8 * (i : Nat) + j) / 4096 = k := by omega
  rwa [hpage] at hin

theorem getPage_eq (va : Nat) : vmmGetPage va s' = vmmGetPage va s := by
  rw [vmmGetPage_eq, vmmGetPage_eq, h.root_eq]
  exact lookup_frame (n := 3) (h.tables_eq hF) (le_refl _) _

theorem getPhysical_eq (va : Nat) : vmmGetPhysical va s' = vmmGetPhysical va s := by
  rw [vmmGetPhysical, vmmGetPhysical, h.getPage_eq hF]

theorem pageTree (htree : s.PageTree) : s'.PageTree := by
  rw [State.PageTree, h.root_eq]
  exact tree_frame (h.tables_eq hF) htree

theorem frames_eq : s'.tableFrames = s.tableFrames := by
  rw [State.tableFrames, h.root_eq]
  exact tables_frame (h.tables_eq hF)

theorem not_table : ∀ k ∈ F, k ∉ s'.tableFrames := by
  intro k hk
  rw [h.frames_eq hF]
  exact hF k hk

theorem noLargePage {va : Nat} (hlarge : s.NoLargePage va) : s'.NoLargePage va := by
  rw [State.NoLargePage, h.root_eq]
  exact along_frame (n := 3) (h.tables_eq hF) (le_refl _) hlarge

end Tables

end Stores

theorem storeByte_ok {s s' : State} {va : Nat} {b : UInt8} {u : Unit}
    (hrun : storeByte va b s = .ok (u, s')) :
    ∃ pa, translate va s = some pa ∧ s' = { s with mem := Function.update s.mem pa b } := by
  rw [storeByte, Prog.bind_ok (Prog.run_get _)] at hrun
  cases htranslate : translate va s with
  | none =>
      rw [htranslate] at hrun
      cases hrun
  | some pa =>
      rw [htranslate] at hrun
      exact ⟨pa, rfl, (Prod.mk.inj (Except.ok.inj hrun)).2.symm⟩

/-- An address of the range that `n` bytes from `va` on take. -/
def byteAddr (va j : Nat) : Nat := u64 (va + j)

theorem byteAddr_succ (va j : Nat) : byteAddr (u64 (va + 1)) j = byteAddr va (j + 1) := by
  unfold byteAddr u64
  omega

/-- The bytes from `va` on are mapped to the frames `F`, off large pages. -/
structure BytesIn (s : State) (va n : Nat) (F : Set Nat) : Prop where
  va_lt : va < 2 ^ 64
  noLarge : ∀ j, j < n → s.NoLargePage (byteAddr va j)
  frame : ∀ j pa, j < n → vmmGetPhysical (byteAddr va j) s = some pa → pa / 4096 ∈ F

theorem byteAddr_zero {va : Nat} (h : va < 2 ^ 64) : byteAddr va 0 = va := u64_of_lt h

/-- The bytes behind the first. -/
theorem BytesIn.tail {s s' : State} {va n : Nat} {F : Set Nat} (h : BytesIn s va (n + 1) F)
    (hF : ∀ k ∈ F, k ∉ s.tableFrames) (hstore : Stores s s' F) : BytesIn s' (u64 (va + 1)) n F := by
  refine ⟨u64_lt _, fun j hj => ?_, fun j pa hj hpa => ?_⟩
  · rw [byteAddr_succ]
    exact hstore.noLargePage hF (h.noLarge (j + 1) (by omega))
  · rw [byteAddr_succ, hstore.getPhysical_eq hF] at hpa
    exact h.frame (j + 1) pa (by omega) hpa

/-- **Storing bytes.** A run that returns has stored to canonical addresses, and changed the frames
of the range only. -/
theorem storeBytes_spec {F : Set Nat} (bs : List UInt8) :
    ∀ {s s' : State} {va : Nat} {u : Unit}, (∀ k ∈ F, k ∉ s.tableFrames) →
      BytesIn s va bs.length F → storeBytes va bs s = .ok (u, s') →
      Stores s s' F ∧ ∀ j, j < bs.length → Canonical (byteAddr va j) := by
  induction bs with
  | nil =>
      intro s s' va u _ _ hrun
      obtain ⟨-, rfl⟩ := Prod.mk.inj (Except.ok.inj hrun)
      exact ⟨.refl _ _, fun j hj => absurd hj (Nat.not_lt_zero _)⟩
  | cons b bs ih =>
      intro s s' va u hF hbytes hrun
      rw [storeBytes] at hrun
      obtain ⟨_, s₁, hbyte, hrest⟩ := Prog.bind_eq_ok.mp hrun
      obtain ⟨pa, htranslate, hs₁⟩ := storeByte_ok hbyte
      have hva := byteAddr_zero hbytes.va_lt
      have hlarge := hbytes.noLarge 0 (by simp)
      rw [hva] at hlarge
      rw [translate_eq hlarge] at htranslate
      have hcanonical : Canonical va := by
        by_contra hc
        rw [if_neg hc] at htranslate
        cases htranslate
      rw [if_pos hcanonical] at htranslate
      have hpa : pa / 4096 ∈ F := hbytes.frame 0 pa (by simp) (by rwa [hva])
      have hstore : Stores s s₁ F := hs₁ ▸ .byte hpa b
      -- the tables are as they were, so the bytes behind it are still in the frames
      obtain ⟨hstores, hall⟩ := ih (hstore.not_table hF) (hbytes.tail hF hstore) hrest
      refine ⟨hstore.trans hstores, fun j hj => ?_⟩
      cases j with
      | zero =>
          rw [hva]
          exact hcanonical
      | succ j =>
          rw [← byteAddr_succ]
          exact hall j (by simpa using hj)

/-! ## Accesses within a frame -/

/-- The bytes from `va` on lie at consecutive physical addresses, in frames without tables. -/
structure Linear (s : State) (va n pa : Nat) : Prop where
  va_lt : va < 2 ^ 64
  noLarge : ∀ j, j < n → s.NoLargePage (byteAddr va j)
  physical : ∀ j, j < n → vmmGetPhysical (byteAddr va j) s = some (pa + j)
  not_table : ∀ j, j < n → (pa + j) / 4096 ∉ s.tableFrames

namespace Linear

variable {s s' : State} {va n pa : Nat}

theorem tail (h : Linear s va (n + 1) pa) : Linear s (u64 (va + 1)) n (pa + 1) := by
  refine ⟨u64_lt _, fun j hj => ?_, fun j hj => ?_, fun j hj => ?_⟩
  · rw [byteAddr_succ]
    exact h.noLarge (j + 1) (by omega)
  · rw [byteAddr_succ, h.physical (j + 1) (by omega), Nat.add_right_comm, Nat.add_assoc]
  · rw [Nat.add_right_comm, Nat.add_assoc]
    exact h.not_table (j + 1) (by omega)

theorem stores {F : Set Nat} (h : Linear s va n pa) (hs : Stores s s' F)
    (hF : ∀ k ∈ F, k ∉ s.tableFrames) : Linear s' va n pa := by
  refine ⟨h.va_lt, fun j hj => hs.noLargePage hF (h.noLarge j hj), fun j hj => ?_, fun j hj => ?_⟩
  · rw [hs.getPhysical_eq hF, h.physical j hj]
  · rw [hs.frames_eq hF]
    exact h.not_table j hj

/-- The processor finds the first byte, or faults. -/
theorem translate_head (h : Linear s va (n + 1) pa) :
    translate va s = if Canonical va then some pa else none := by
  have hlarge := h.noLarge 0 (by omega)
  have hphysical := h.physical 0 (by omega)
  rw [byteAddr_zero h.va_lt] at hlarge hphysical
  rw [translate_eq hlarge, hphysical, Nat.add_zero]

end Linear

/-- Stored bytes are written to memory in one piece. -/
theorem storeBytes_linear (bs : List UInt8) : ∀ {s s' : State} {va pa : Nat} {u : Unit},
    Linear s va bs.length pa → storeBytes va bs s = .ok (u, s') →
    s' = { s with mem := s.mem.write pa bs } := by
  -- each byte changes no table, so the rest is still in one piece
  induction bs with
  | nil =>
      intro s s' va pa u _ hrun
      obtain ⟨-, rfl⟩ := Prod.mk.inj (Except.ok.inj hrun)
      have hnil : s.mem.write pa [] = s.mem := by
        funext a
        exact Mem.write_outside (by simp; omega)
      rw [hnil]
  | cons b bs ih =>
      intro s s' va pa u h hrun
      rw [storeBytes] at hrun
      obtain ⟨_, s₁, hbyte, hrest⟩ := Prog.bind_eq_ok.mp hrun
      obtain ⟨pa', htranslate, hs₁⟩ := storeByte_ok hbyte
      rw [Linear.translate_head h] at htranslate
      split at htranslate
      · obtain rfl := Option.some.inj htranslate
        have hnot : ∀ k ∈ ({pa / 4096} : Set Nat), k ∉ s.tableFrames := by
          rintro k rfl
          exact h.not_table 0 (by simp)
        have hstore : Stores s s₁ {pa / 4096} := by
          refine ⟨by rw [hs₁], fun a ha => ?_⟩
          have hne : a ≠ pa := by
            rintro rfl
            exact ha rfl
          rw [hs₁]
          exact Function.update_of_ne hne _ _
        rw [ih (h.tail.stores hstore hnot) hrest, hs₁, Mem.write_cons]
      · cases htranslate

/-- Loaded bytes are read from memory in one piece. -/
theorem loadBytes_linear (n : Nat) : ∀ {s s' : State} {va pa : Nat} {bs : List UInt8},
    Linear s va n pa → loadBytes va n s = .ok (bs, s') → bs = s.mem.read pa n ∧ s' = s := by
  induction n with
  | zero =>
      intro s s' va pa bs _ hrun
      obtain ⟨rfl, rfl⟩ := Prod.mk.inj (Except.ok.inj hrun)
      exact ⟨rfl, rfl⟩
  | succ n ih =>
      intro s s' va pa bs h hrun
      rw [loadBytes] at hrun
      obtain ⟨b, s₁, hbyte, hrest⟩ := Prog.bind_eq_ok.mp hrun
      obtain ⟨rest, s₂, hloop, hpure⟩ := Prog.bind_eq_ok.mp hrest
      rw [loadByte, Prog.bind_ok (Prog.run_get _), h.translate_head] at hbyte
      by_cases hc : Canonical va
      · rw [if_pos hc] at hbyte
        obtain ⟨rfl, rfl⟩ := Prod.mk.inj (Except.ok.inj hbyte)
        obtain ⟨rfl, rfl⟩ := ih h.tail hloop
        obtain ⟨rfl, rfl⟩ := Prod.mk.inj (Except.ok.inj hpure)
        exact ⟨rfl, rfl⟩
      · rw [if_neg hc] at hbyte
        cases hbyte

theorem storeQword_linear {s s' : State} {va pa x : Nat} {u : Unit} (h : Linear s va 8 pa)
    (hrun : storeQword va x s = .ok (u, s')) : s' = { s with mem := s.mem.setQword pa x } :=
  storeBytes_linear (toLE 8 x) (by simpa using h) hrun

theorem loadQword_linear {s s' : State} {va pa x : Nat} (h : Linear s va 8 pa)
    (hrun : loadQword va s = .ok (x, s')) : x = s.mem.qword pa ∧ s' = s := by
  rw [loadQword] at hrun
  obtain ⟨bs, s₁, hload, hpure⟩ := Prog.bind_eq_ok.mp hrun
  obtain ⟨rfl, rfl⟩ := loadBytes_linear 8 h hload
  obtain ⟨rfl, rfl⟩ := Prod.mk.inj (Except.ok.inj hpure)
  exact ⟨rfl, rfl⟩

/-- Bytes that are mapped at canonical addresses can be stored. -/
theorem storeBytes_returns {F : Set Nat} (bs : List UInt8) :
    ∀ {s : State} {va : Nat}, (∀ k ∈ F, k ∉ s.tableFrames) → BytesIn s va bs.length F →
      (∀ j, j < bs.length → Canonical (byteAddr va j) ∧
        (vmmGetPhysical (byteAddr va j) s).isSome) →
      ∃ s', storeBytes va bs s = .ok ((), s') := by
  induction bs with
  | nil =>
      intro s va _ _ _
      exact ⟨s, rfl⟩
  | cons b bs ih =>
      intro s va hF hbytes hmapped
      obtain ⟨hcanonical, hsome⟩ := hmapped 0 (by simp)
      obtain ⟨pa, hpa⟩ := Option.isSome_iff_exists.mp hsome
      have hframe := hbytes.frame 0 pa (by simp) hpa
      have hlarge := hbytes.noLarge 0 (by simp)
      rw [byteAddr_zero hbytes.va_lt] at hcanonical hpa hlarge
      have hbyte : storeByte va b s
          = .ok ((), { s with mem := Function.update s.mem pa b }) := by
        rw [storeByte, Prog.bind_ok (Prog.run_get _), translate_eq hlarge, if_pos hcanonical, hpa]
        rfl
      have hstore : Stores s { s with mem := Function.update s.mem pa b } F := .byte hframe b
      obtain ⟨s', hrun⟩ := ih (hstore.not_table hF) (hbytes.tail hF hstore) (by
        intro j hj
        rw [byteAddr_succ, hstore.getPhysical_eq hF]
        exact hmapped (j + 1) (by simpa using hj))
      exact ⟨s', by rw [storeBytes, Prog.bind_ok hbyte, hrun]⟩

end Windozz.Kernel

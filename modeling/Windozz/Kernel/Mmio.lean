import Windozz.Kernel.Boot

set_option autoImplicit false

/-! # Device memory

`vmm_create_mmio` of `vmm.c`: it maps a range of physical addresses at the first free range from
`MMIO_REGION` on and records it in the table `mmio_regions`.
-/

namespace Windozz.Kernel

/-! ## The function -/

/-- The flags of a device page. -/
def MMIO_FLAGS : Nat := PAGE_PRESENT ||| PAGE_WRITE ||| PAGE_UNCACHEABLE

/-- The loop of `vmm_create_mmio` from round `i` on, with `n` rounds to go. -/
def mmioLoop (virtual physical : Nat) : Nat → Nat → K Unit
  | 0, _ => pure ()
  | n + 1, i => do
      vmmMapPage (pageAt virtual i) (pageAt physical i) MMIO_FLAGS
      mmioLoop virtual physical n (i + 1)

/-- The entry that is filled in, `mmio_regions[mmio_region_count]`. The name is what the pointer
`name` refers to, without the terminator. -/
def recordRegion (virtual physical pages : Nat) (name : List UInt8) : K Unit := do
  let s ← get
  let region := u64 (s.mmio_regions + u64 (s.mmio_region_count * SIZEOF_MMIO))
  storeQword (u64 (region + 72)) virtual
  storeQword (u64 (region + 64)) physical
  storeQword (u64 (region + 80)) pages
  storeBytes region (name ++ [0])
  modify fun s => { s with mmio_region_count := u64 (s.mmio_region_count + 1) }

/-- `vmm_create_mmio`. -/
def vmmCreateMmio (physical pages : Nat) (name : List UInt8) : K Nat := do
  acquire .vmm_mutex
  let s ← get
  match vmmFind MMIO_REGION pages s with
  | none => throw .hang
  | some virtual =>
      if virtual = 0 then throw .hang
      else do
        mmioLoop virtual physical pages 0
        recordRegion virtual physical pages name
        release .vmm_mutex
        pure virtual

/-- The name that `laihost_map` passes on, `"acpi"`. -/
def acpiName : List UInt8 := [97, 99, 112, 105]

/-- `laihost_map` of `system.c`. -/
def laihostMap (physical count : Nat) : K Nat :=
  vmmCreateMmio physical (u64 (count + 4095) / 4096) acpiName

/-! ## The loop -/

/-- Between two states the first `n` pages from `virtual` on were bound to device pages, with the new
tables `new`. A page that was bound twice, `2 ^ 36` rounds apart, has its last binding. -/
structure BindsRange (s s' : State) (virtual physical n : Nat) (new : Finset Nat) : Prop where
  only : s' = { s with mem := s'.mem, pmm := s'.pmm, mutexes := s'.mutexes }
  takes : Takes s.pmm s'.pmm new
  tree : s'.PageTree
  fresh : s'.FreshFrames
  frames_eq : s'.tableFrames = s.tableFrames ∪ new
  mapped : ∀ i, i < n → n ≤ i + 2 ^ 36 →
    vmmGetPage (pageAt virtual i) s' = pageAt physical i ||| MMIO_FLAGS
  other : ∀ w, (∀ i, i < n → pageOf w ≠ pageOf (pageAt virtual i)) →
    vmmGetPage w s' = vmmGetPage w s
  noLargePage : ∀ w, s.NoLargePage w → s'.NoLargePage w
  mem_eq : ∀ a, a / 4096 ∉ s'.tableFrames → s'.mem a = s.mem a

namespace BindsRange

variable {s s₁ s₂ : State} {virtual physical n : Nat} {new : Finset Nat}

theorem start (htree : s.PageTree) (hfresh : s.FreshFrames) (m : Mutex → Bool) :
    BindsRange s { s with mutexes := m } virtual physical 0 ∅ :=
  ⟨rfl, .refl _, htree, hfresh, by rw [Finset.coe_empty, Set.union_empty]; rfl, by simp,
    fun _ _ => rfl, fun _ h => h, fun _ _ => rfl⟩

/-- **One round.** The next page is bound. -/
theorem step (h : BindsRange s s₁ virtual physical n new) (hvirtual : virtual % 4096 = 0)
    (hlarge : s.NoLargePage (pageAt virtual n))
    (hmap : vmmMapPage (pageAt virtual n) (pageAt physical n) MMIO_FLAGS s₁ = .ok ((), s₂)) :
    ∃ new', BindsRange s s₂ virtual physical (n + 1) (new ∪ new') := by
  have hvalue : pageAt physical n ||| MMIO_FLAGS < 2 ^ 64 :=
    Nat.or_lt_two_pow (u64_lt _) (by decide)
  obtain ⟨new', -, hmaps⟩ := vmmMapPage_spec h.tree h.fresh (h.noLargePage _ hlarge) hvalue hmap
  refine ⟨new', ?_, h.takes.trans hmaps.takes, hmaps.tree, hmaps.fresh h.fresh, ?_, ?_, ?_, ?_, ?_⟩
  · rw [hmaps.only, h.only]
  · rw [hmaps.frames_eq, h.frames_eq, Finset.coe_union, Set.union_assoc]
  · intro i hi hlast
    rcases Nat.lt_succ_iff_lt_or_eq.mp hi with hi | rfl
    · have hne : pageOf (pageAt virtual i) ≠ pageOf (pageAt virtual n) := by
        rw [pageOf_pageAt hvirtual, pageOf_pageAt hvirtual]
        omega
      rw [hmaps.other _ hne]
      exact h.mapped i hi (by omega)
    · exact hmaps.same _ rfl
  · intro w hw
    rw [hmaps.other w (hw n (by omega))]
    exact h.other w fun i hi => hw i (by omega)
  · exact fun w hw => hmaps.noLargePage w (h.noLargePage w hw)
  · intro a ha
    refine (hmaps.mem_eq a ha).trans (h.mem_eq a fun hin => ha ?_)
    rw [hmaps.frames_eq]
    exact Or.inl hin

end BindsRange

/-- **The loop of `vmm_create_mmio`** binds the pages one by one. -/
theorem mmioLoop_spec {s : State} {virtual physical : Nat} (hvirtual : virtual % 4096 = 0)
    (n : Nat) : ∀ {i : Nat} {s₁ s' : State} {new : Finset Nat} {u : Unit},
      (∀ j, j < i + n → s.NoLargePage (pageAt virtual j)) →
      BindsRange s s₁ virtual physical i new → mmioLoop virtual physical n i s₁ = .ok (u, s') →
      ∃ new', BindsRange s s' virtual physical (i + n) new' := by
  induction n with
  | zero =>
      intro i s₁ s' new u _ h hrun
      obtain ⟨-, rfl⟩ := Prod.mk.inj (Except.ok.inj hrun)
      exact ⟨new, h⟩
  | succ n ih =>
      intro i s₁ s' new u hlarge h hrun
      rw [mmioLoop] at hrun
      obtain ⟨_, s₂, hmap, hrest⟩ := Prog.bind_eq_ok.mp hrun
      obtain ⟨new₁, hstep⟩ := h.step hvirtual (hlarge i (by omega)) hmap
      obtain ⟨new', hbinds⟩ := ih (fun j hj => hlarge j (by omega)) hstep hrest
      have hsum : i + 1 + n = i + (n + 1) := by omega
      exact ⟨new', hsum ▸ hbinds⟩

/-- Binding pages that were not mapped keeps the blocks of the heap. -/
theorem HeapInv.bindsRange {s s' : State} {live : List Block} (h : HeapInv s live)
    {virtual physical n : Nat} {new : Finset Nat} (hbinds : BindsRange s s' virtual physical n new)
    (habsent : ∀ i, i < n → vmmGetPhysical (pageAt virtual i) s = none) :
    HeapInv s' live ∧ ∀ b ∈ live, b.Keeps s s' :=
  h.grows hbinds.takes (Finset.Subset.refl _) hbinds.tree hbinds.fresh hbinds.frames_eq
    (fun w hw => hbinds.other w fun i hi hpage => hw (by
      rw [vmmGetPage_congr hpage]
      exact (vmmGetPhysical_none.mp (habsent i hi)).2))
    hbinds.noLargePage hbinds.mem_eq

/-! ## The record -/

/-- A store of bytes into a range that is mapped. -/
theorem RangeMapped.store {s s' : State} {p count : Nat} (h : RangeMapped s p count) {F : Set Nat}
    (hF : ∀ k ∈ F, k ∉ s.tableFrames) (hframe : ∀ i, i < count → frameOf s (pageAt p i) ∈ F)
    {o : Nat} {bs : List UInt8} (hle : o + bs.length ≤ count * 4096) {u : Unit}
    (hrun : storeBytes (byteAddr p o) bs s = .ok (u, s')) :
    Stores s s' F ∧ RangeMapped s' p count ∧ (∀ k ∈ F, k ∉ s'.tableFrames) ∧
      ∀ i, i < count → frameOf s' (pageAt p i) ∈ F := by
  have hstores := (storeBytes_spec bs hF (h.bytesIn hframe hle) hrun).1
  refine ⟨hstores, hstores.range hF h, fun k hk => ?_, fun i hi => ?_⟩
  · rw [hstores.frames_eq hF]
    exact hF k hk
  · rw [hstores.frame_eq hF]
    exact hframe i hi

/-- The frames of a block. -/
def Block.frames (b : Block) (s : State) : Set Nat := {k | ∃ i, i < b.pages ∧ k = frameOf s (b.page i)}

theorem mmioBlock_pages (s : State) : (mmioBlock s).pages = 705 := by
  show ( SIZEOF_MMIO * MAX_MMIO + 16 + 4095) / 4096 = 705
  decide

/-- The address of the entry that is filled in, in the block of the table. -/
theorem mmioEntry_eq {s : State} (hge : 16 ≤ (mmioBlock s).ptr) :
    u64 (s.mmio_regions + u64 (s.mmio_region_count * SIZEOF_MMIO))
      = byteAddr (mmioBlock s).base (16 + s.mmio_region_count * 88) := by
  have hptr : (mmioBlock s).ptr = s.mmio_regions := rfl
  unfold byteAddr u64 Block.base SIZEOF_MMIO
  omega

theorem mmioEntry_field (base o d : Nat) : u64 (byteAddr base o + d) = byteAddr base (o + d) := by
  unfold byteAddr u64
  omega

theorem mmioEntry_le {s : State} (hcount : s.mmio_region_count < MAX_MMIO) (d k : Nat)
    (hdk : d + k ≤ 88) : 16 + s.mmio_region_count * 88 + d + k ≤ (mmioBlock s).pages * 4096 := by
  have hpages := mmioBlock_pages s
  unfold MAX_MMIO at hcount
  omega

/-- Recording a region stores into the table of the regions only. -/
theorem recordRegion_stores {s s' : State} (hb : (mmioBlock s).Held s)
    (hcount : s.mmio_region_count < MAX_MMIO) {virtual physical pages : Nat} {name : List UInt8}
    (hname : name.length < 64) {u : Unit}
    (hrun : recordRegion virtual physical pages name s = .ok (u, s')) :
    ∃ s₁, Stores s s₁ ((mmioBlock s).frames s) ∧
      s' = { s₁ with mmio_region_count := u64 (s.mmio_region_count + 1) } := by
  have hle := mmioEntry_le hcount
  have hF : ∀ k ∈ (mmioBlock s).frames s, k ∉ s.tableFrames := by
    rintro k ⟨i, hi, rfl⟩
    exact hb.not_table i hi
  have hframe : ∀ i, i < (mmioBlock s).pages →
      frameOf s (pageAt (mmioBlock s).base i) ∈ (mmioBlock s).frames s := fun i hi => ⟨i, hi, rfl⟩
  rw [recordRegion, Prog.bind_ok (Prog.run_get _)] at hrun
  simp only [mmioEntry_eq hb.ptr_ge, mmioEntry_field, storeQword] at hrun
  obtain ⟨_, s₁, hvirtual, hrun⟩ := Prog.bind_eq_ok.mp hrun
  obtain ⟨_, s₂, hphysical, hrun⟩ := Prog.bind_eq_ok.mp hrun
  obtain ⟨_, s₃, hnumber, hrun⟩ := Prog.bind_eq_ok.mp hrun
  obtain ⟨_, s₄, hstring, hrun⟩ := Prog.bind_eq_ok.mp hrun
  obtain ⟨-, rfl⟩ := Prod.mk.inj (Except.ok.inj hrun)
  -- the four fields of the entry, in the order in which the code stores them
  obtain ⟨hstores₁, hrange₁, hF₁, hframe₁⟩ := hb.range.store hF hframe
    (by rw [toLE_length]; exact hle 72 8 (by decide)) hvirtual
  obtain ⟨hstores₂, hrange₂, hF₂, hframe₂⟩ := hrange₁.store hF₁ hframe₁
    (by rw [toLE_length]; exact hle 64 8 (by decide)) hphysical
  obtain ⟨hstores₃, hrange₃, hF₃, hframe₃⟩ := hrange₂.store hF₂ hframe₂
    (by rw [toLE_length]; exact hle 80 8 (by decide)) hnumber
  obtain ⟨hstores₄, -, -, -⟩ := hrange₃.store hF₃ hframe₃
    (hle 0 _ (by rw [List.length_append, List.length_singleton]; omega)) hstring
  have hstores := ((hstores₁.trans hstores₂).trans hstores₃).trans hstores₄
  refine ⟨s₄, hstores, ?_⟩
  rw [hstores.only]

/-! ## The mapping -/

/-- **What `vmm_create_mmio` does.** It binds the pages of a range that was not mapped; the record
of the region changes no binding. -/
theorem vmmCreateMmio_spec {s s' : State} {live : List Block} (h : HeapInv s live)
    (hblock : mmioBlock s ∈ live) (hcount : s.mmio_region_count < MAX_MMIO)
    {physical pages v : Nat} {name : List UInt8} (hname : name.length < 64)
    (hrun : vmmCreateMmio physical pages name s = .ok (v, s')) :
    v % 4096 = 0 ∧ (∀ i, i < pages ∨ i = 0 → vmmGetPhysical (pageAt v i) s = none) ∧
      ∃ s₁ new, BindsRange s s₁ v physical pages new ∧
        ∀ w, vmmGetPage w s' = vmmGetPage w s₁ := by
  rw [vmmCreateMmio] at hrun
  obtain ⟨_, s₀, hacquire, hrun⟩ := Prog.bind_eq_ok.mp hrun
  obtain rfl := acquire_ok hacquire
  rw [Prog.bind_ok (Prog.run_get _)] at hrun
  cases hfind : vmmFind MMIO_REGION pages
      { s with mutexes := Function.update s.mutexes .vmm_mutex true } with
  | none =>
      rw [hfind] at hrun
      cases hrun
  | some virtual =>
      rw [hfind] at hrun
      by_cases hz : virtual = 0
      · simp only [if_pos hz] at hrun
        cases hrun
      · simp only [if_neg hz] at hrun
        obtain ⟨_, s₁, hloop, hrun⟩ := Prog.bind_eq_ok.mp hrun
        obtain ⟨_, s₂, hrecord, hrun⟩ := Prog.bind_eq_ok.mp hrun
        rw [Prog.bind_ok (run_release _ _)] at hrun
        obtain ⟨rfl, rfl⟩ := Prod.mk.inj (Except.ok.inj hrun)
        -- the range found is not mapped, so mapping it touches no block
        obtain ⟨halign, -, hnone⟩ := vmmFind_unmapped (by decide) hfind hz
        have habsent : ∀ i, i < pages ∨ i = 0 → vmmGetPhysical (pageAt virtual i) s = none := hnone
        obtain ⟨new, hbinds⟩ := mmioLoop_spec halign pages
          (fun j hj => noLargePage_of_absent
            (vmmGetPhysical_none.mp (habsent j (Or.inl (by omega)))).2)
          (BindsRange.start h.tree h.fresh (Function.update s.mutexes .vmm_mutex true)) hloop
        rw [Nat.zero_add] at hbinds
        obtain ⟨hinv, -⟩ := h.bindsRange hbinds fun i hi => habsent i (Or.inl hi)
        have hsame : mmioBlock s₁ = mmioBlock s ∧ s₁.mmio_region_count = s.mmio_region_count := by
          rw [hbinds.only]
          exact ⟨rfl, rfl⟩
        have hheld : (mmioBlock s₁).Held s₁ := hinv.held _ (hsame.1 ▸ hblock)
        obtain ⟨s₃, hstores, rfl⟩ := recordRegion_stores hheld (hsame.2 ▸ hcount) hname hrecord
        refine ⟨halign, habsent, s₁, new, hbinds, hstores.getPage_eq ?_⟩
        rintro k ⟨i, hi, rfl⟩
        exact hheld.not_table i hi

section Map

variable {s s' s₁ : State} {v p n : Nat} {new : Finset Nat} (hv : v % 4096 = 0)
  (habsent : ∀ i, i < u64 (n + 4095) / 4096 ∨ i = 0 → vmmGetPhysical (pageAt v i) s = none)
  (hbinds : BindsRange s s₁ v p (u64 (n + 4095) / 4096) new)
  (hsame : ∀ w, vmmGetPage w s' = vmmGetPage w s₁)

/-- The addresses of the range are translated to the physical ones, by entries with the flags of a
device page. -/
def DeviceMapped (s : State) (v p n : Nat) : Prop :=
  ∀ k, k < n → vmmGetPhysical (byteAddr v k) s = some (p + k) ∧
    vmmGetPage (byteAddr v k) s % 4096 = MMIO_FLAGS

include hv habsent hbinds hsame

/-- A range that begins at a page is mapped as asked for. -/
theorem deviceMapped_of_aligned (hp : p % 4096 = 0) (hn : n ≤ 2 ^ 48) (hwrap : p + n ≤ 2 ^ 64) :
    DeviceMapped s' v p n := by
  intro k hk
  have hcount : u64 (n + 4095) / 4096 = (n + 4095) / 4096 := by rw [u64_of_lt (by omega)]
  rw [hcount] at hbinds habsent
  have hi : k / 4096 < (n + 4095) / 4096 := by omega
  have haddr : pageAt p (k / 4096) = p + k / 4096 * 4096 := by
    unfold pageAt u64
    omega
  have hflags : MMIO_FLAGS = 19 := rfl
  have hentry : vmmGetPage (byteAddr v k) s' = p + k / 4096 * 4096 + 19 := by
    rw [hsame, vmmGetPage_congr (pageOf_byteAddr hv k), hbinds.mapped _ hi (by omega), haddr,
      or_flags (by omega) (by decide), hflags]
  have hwindow : ¬ InWindow (byteAddr v k) := fun hw =>
    (vmmGetPhysical_none.mp (habsent _ (Or.inl hi))).1 ((inWindow_byteAddr hv k).mp hw)
  have hpresent : vmmGetPage (byteAddr v k) s' &&& PAGE_PRESENT ≠ 0 := by
    rw [hentry, and_present]
    omega
  have hoffset : byteAddr v k % 4096 = k % 4096 := by
    unfold byteAddr u64
    omega
  constructor
  · rw [vmmGetPhysical_some hwindow hpresent, frameOf, hentry, hoffset]
    congr 1
    omega
  · rw [hentry, hflags]
    omega

/-- What the first address shows of the others. -/
theorem aligned_of_deviceMapped (hn : 1 ≤ n) (hwrap : p + n ≤ 2 ^ 64)
    (hmapped : DeviceMapped s' v p n) : p % 4096 = 0 ∧ n ≤ 2 ^ 48 := by
  have hzero : byteAddr v 0 = pageAt v 0 := rfl
  -- the first byte alone shows that the address is aligned: the page is at a multiple of 4096
  obtain ⟨hphysical, -⟩ := hmapped 0 (by omega)
  rw [Nat.add_zero, hzero] at hphysical
  have hnone := vmmGetPhysical_none.mp (habsent 0 (Or.inr rfl))
  have hpresent : vmmGetPage (pageAt v 0) s' &&& PAGE_PRESENT ≠ 0 := by
    intro h
    rw [vmmGetPhysical_none.mpr ⟨hnone.1, h⟩] at hphysical
    cases hphysical
  rw [vmmGetPhysical_some hnone.1 hpresent, pageAt_mod hv, Nat.add_zero] at hphysical
  have hframe := Option.some.inj hphysical
  refine ⟨by omega, not_lt.mp fun hlarge => ?_⟩
  by_cases hfits : n + 4095 < 2 ^ 64
  · -- the page was bound again, by the last round that comes to the same indexes
    have hcount : u64 (n + 4095) / 4096 = (n + 4095) / 4096 := by rw [u64_of_lt hfits]
    rw [hcount] at hbinds
    obtain ⟨i, hi, hlt, hlast, hpos⟩ : ∃ i, i % 2 ^ 36 = 0 ∧ i < (n + 4095) / 4096 ∧
        (n + 4095) / 4096 ≤ i + 2 ^ 36 ∧ 0 < i :=
      ⟨((n + 4095) / 4096 - 1) / 2 ^ 36 * 2 ^ 36, by omega, by omega, by omega, by omega⟩
    have hpage : pageOf (pageAt v 0) = pageOf (pageAt v i) := by
      rw [pageOf_pageAt hv, pageOf_pageAt hv]
      omega
    have haddr : pageAt p i = p + i * 4096 := by
      unfold pageAt u64
      omega
    rw [frameOf, hsame, vmmGetPage_congr hpage, hbinds.mapped i hlt hlast, haddr,
      or_flags (by omega) (by decide)] at hframe
    have hflags : MMIO_FLAGS = 19 := rfl
    omega
  · -- the number of pages wraps to zero
    have hcount : u64 (n + 4095) / 4096 = 0 := by
      unfold u64
      omega
    rw [hcount] at hbinds
    rw [hsame, hbinds.other _ fun i hi => absurd hi (Nat.not_lt_zero i)] at hpresent
    exact hpresent hnone.2

end Map

/-- **`laihost_map`.** The range is mapped as asked for exactly when it begins at a page and has at
most `2 ^ 48` bytes. -/
theorem laihostMap_iff {s s' : State} {live : List Block} (h : HeapInv s live)
    (hblock : mmioBlock s ∈ live) (hcount : s.mmio_region_count < MAX_MMIO) {p n v : Nat}
    (hn : 1 ≤ n) (hwrap : p + n ≤ 2 ^ 64) (hrun : laihostMap p n s = .ok (v, s')) :
    DeviceMapped s' v p n ↔ p % 4096 = 0 ∧ n ≤ 2 ^ 48 := by
  obtain ⟨hv, habsent, s₁, new, hbinds, hsame⟩ :=
    vmmCreateMmio_spec h hblock hcount (by decide) hrun
  constructor
  · exact aligned_of_deviceMapped hv habsent hbinds hsame hn hwrap
  · exact fun ⟨hp, hlen⟩ => deviceMapped_of_aligned hv habsent hbinds hsame hp hlen hwrap

/-! ## Returning -/

/-- With three frames in supply for each page the loop returns. -/
theorem mmioLoop_returns {s : State} {virtual physical : Nat} (hvirtual : virtual % 4096 = 0)
    (n : Nat) : ∀ {i : Nat} {s₁ : State} {new : Finset Nat},
      (∀ j, j < i + n → s.NoLargePage (pageAt virtual j)) →
      BindsRange s s₁ virtual physical i new → s₁.mutexes .pmm_mutex = false →
      s₁.pmm.Room (3 * n) → ∃ s', mmioLoop virtual physical n i s₁ = .ok ((), s') := by
  induction n with
  | zero => exact fun _ _ _ _ => ⟨_, rfl⟩
  | succ n ih =>
      intro i s₁ new hlarge h hm hroom
      have hlarge₁ := h.noLargePage _ (hlarge i (by omega))
      obtain ⟨s₂, hmap⟩ := vmmMapPage_returns h.tree hlarge₁ h.fresh hm hroom.scannable
        (hroom.supply.mono (by omega)) (pageAt physical i) MMIO_FLAGS
      obtain ⟨new₂, hcard, hmaps⟩ := vmmMapPage_spec h.tree h.fresh hlarge₁
        (Nat.or_lt_two_pow (u64_lt _) (by decide)) hmap
      obtain ⟨new₁, hstep⟩ := h.step hvirtual (hlarge i (by omega)) hmap
      have hm₂ : s₂.mutexes .pmm_mutex = false := by
        rw [hmaps.only]
        exact hm
      obtain ⟨s', hrest⟩ := ih (fun j hj => hlarge j (by omega)) hstep hm₂
        (hmaps.takes.room (hroom.mono (by omega)))
      exact ⟨s', by rw [mmioLoop, Prog.bind_ok hmap, hrest]⟩

/-- The record can be stored when the table of the regions is mapped at canonical addresses. -/
theorem recordRegion_returns {s : State} (hb : (mmioBlock s).Held s)
    (hcanonical : ∀ i, i < (mmioBlock s).pages → Canonical ((mmioBlock s).page i))
    (hcount : s.mmio_region_count < MAX_MMIO) {name : List UInt8} (hname : name.length < 64)
    (virtual physical pages : Nat) :
    ∃ s', recordRegion virtual physical pages name s = .ok ((), s') := by
  have hwritable : Writable s (mmioBlock s).base (mmioBlock s).pages ((mmioBlock s).frames s) := by
    refine ⟨hb.range, ?_, fun i hi => ⟨i, hi, rfl⟩, hcanonical⟩
    rintro k ⟨i, hi, rfl⟩
    exact hb.not_table i hi
  have hle := mmioEntry_le hcount
  obtain ⟨s₁, hvirtual, hwritable₁, -⟩ := hwritable.store (16 + s.mmio_region_count * 88 + 72)
    (toLE 8 virtual) (by rw [toLE_length]; exact hle 72 8 (by decide))
  obtain ⟨s₂, hphysical, hwritable₂, -⟩ := hwritable₁.store (16 + s.mmio_region_count * 88 + 64)
    (toLE 8 physical) (by rw [toLE_length]; exact hle 64 8 (by decide))
  obtain ⟨s₃, hnumber, hwritable₃, -⟩ := hwritable₂.store (16 + s.mmio_region_count * 88 + 80)
    (toLE 8 pages) (by rw [toLE_length]; exact hle 80 8 (by decide))
  obtain ⟨s₄, hstring, -, -⟩ := hwritable₃.store (16 + s.mmio_region_count * 88) (name ++ [0])
    (hle 0 _ (by rw [List.length_append, List.length_singleton]; omega))
  rw [recordRegion, Prog.bind_ok (Prog.run_get _)]
  simp only [mmioEntry_eq hb.ptr_ge, mmioEntry_field, storeQword]
  rw [Prog.bind_ok hvirtual, Prog.bind_ok hphysical, Prog.bind_ok hnumber, Prog.bind_ok hstring]
  exact ⟨_, rfl⟩

/-- After `mm_init` the first mapping of a device is at `MMIO_REGION`. -/
theorem vmmCreateMmio_started {s : State} {room n : Nat} (hs : Started s (3 * room))
    (hn : 1 ≤ n) (hle : n ≤ room) (hroom : room < 2 ^ 27) (p : Nat) {name : List UInt8}
    (hname : name.length < 64) : ∃ s', vmmCreateMmio p n name s = .ok (MMIO_REGION, s') := by
  have habsent : ∀ i, i < n → vmmGetPhysical (pageAt (MMIO_REGION + 0 * 4096) i) s = none :=
    fun i hi => hs.mmio_absent i (by omega)
  have hfind : vmmFind MMIO_REGION n
      { s with mutexes := Function.update s.mutexes .vmm_mutex true } = some MMIO_REGION :=
    vmmFind_after (k := 0) (by decide) (by decide) (by omega) (by omega)
      (fun i hi => absurd hi (Nat.not_lt_zero i)) habsent
  have hlarge : ∀ j, j < 0 + n → s.NoLargePage (pageAt MMIO_REGION j) := fun j hj =>
    noLargePage_of_absent (vmmGetPhysical_none.mp (habsent j (by omega))).2
  have hstart : BindsRange s { s with mutexes := Function.update s.mutexes .vmm_mutex true }
      MMIO_REGION p 0 ∅ := .start hs.ready.inv.tree hs.ready.inv.fresh _
  obtain ⟨s₁, hloop⟩ := mmioLoop_returns (by decide) _ hlarge hstart hs.ready.pmm_free
    (hs.ready.room.mono (by omega))
  obtain ⟨new, hbinds⟩ := mmioLoop_spec (by decide) _ hlarge hstart hloop
  rw [Nat.zero_add] at hbinds
  have hheld := (hs.ready.inv.bindsRange hbinds habsent).1.held (mmioBlock s) (by simp)
  have hsame : mmioBlock s₁ = mmioBlock s ∧ s₁.mmio_region_count = 0 := by
    rw [hbinds.only]
    exact ⟨rfl, hs.count_eq⟩
  have hbase : (mmioBlock s).base = KERNEL_HEAP := by
    rw [Block.base, mmioBlock, hs.regions_eq]
    rfl
  -- the record of the region is stored in a block of the heap, at canonical addresses
  have hcanonical : ∀ i, i < (mmioBlock s).pages → Canonical ((mmioBlock s).page i) := by
    intro i hi
    have hpages := mmioBlock_pages s
    rw [Block.page, hbase]
    unfold Canonical pageAt u64 KERNEL_HEAP
    omega
  rw [← hsame.1] at hheld hcanonical
  obtain ⟨s₂, hrecord⟩ := recordRegion_returns hheld hcanonical (by rw [hsame.2]; decide) hname
    MMIO_REGION p n
  rw [vmmCreateMmio, Prog.bind_ok (acquire_free (hs.free _)), Prog.bind_ok (Prog.run_get _), hfind]
  simp only
  rw [if_neg (by decide), Prog.bind_ok hloop, Prog.bind_ok hrecord, Prog.bind_ok (run_release _ _)]
  exact ⟨_, rfl⟩

theorem laihostMap_started {s : State} {room p n : Nat} (hs : Started s (3 * room))
    (hn : 1 ≤ n) (hle : n ≤ room * 4096) (hroom : room < 2 ^ 27) :
    ∃ s', laihostMap p n s = .ok (MMIO_REGION, s') := by
  have hcount : u64 (n + 4095) / 4096 = (n + 4095) / 4096 := by rw [u64_of_lt (by omega)]
  rw [laihostMap, hcount]
  exact vmmCreateMmio_started hs (by omega) (by omega) hroom p (by decide)

/-- A register block of four bytes that begins at a page, on a machine with 64 MiB. -/
theorem laihostMap_aligned : ∃ s s' live, HeapInv s live ∧ mmioBlock s ∈ live ∧
    s.mmio_region_count < MAX_MMIO ∧ laihostMap 0xFED00000 4 s = .ok (MMIO_REGION, s') ∧
    (DeviceMapped s' MMIO_REGION 0xFED00000 4 ↔ 0xFED00000 % 4096 = 0 ∧ 4 ≤ 2 ^ 48) := by
  obtain ⟨s, -, hs⟩ := mmInit_flat (show 4870 + 3 * 1 ≤ 16384 by decide) (by decide)
  obtain ⟨s', hrun⟩ := laihostMap_started (p := 0xFED00000) (n := 4) hs (by decide) (by decide)
    (by decide)
  have hcount : s.mmio_region_count < MAX_MMIO := by
    rw [hs.count_eq]
    decide
  exact ⟨s, s', _, hs.ready.inv, List.mem_singleton_self _, hcount, hrun,
    laihostMap_iff hs.ready.inv (List.mem_singleton_self _) hcount (by decide) (by decide) hrun⟩

/-- One that begins within a page is not mapped as asked for. -/
theorem laihostMap_unaligned : ∃ s s' live, HeapInv s live ∧ mmioBlock s ∈ live ∧
    s.mmio_region_count < MAX_MMIO ∧ laihostMap 0xFED00010 4 s = .ok (MMIO_REGION, s') ∧
    ¬ DeviceMapped s' MMIO_REGION 0xFED00010 4 := by
  obtain ⟨s, -, hs⟩ := mmInit_flat (show 4870 + 3 * 1 ≤ 16384 by decide) (by decide)
  obtain ⟨s', hrun⟩ := laihostMap_started (p := 0xFED00010) (n := 4) hs (by decide) (by decide)
    (by decide)
  have hcount : s.mmio_region_count < MAX_MMIO := by
    rw [hs.count_eq]
    decide
  obtain ⟨hv, habsent, s₁, new, hbinds, hsame⟩ := vmmCreateMmio_spec hs.ready.inv
    (List.mem_singleton_self _) hcount (by decide) hrun
  refine ⟨s, s', _, hs.ready.inv, List.mem_singleton_self _, hcount, hrun, fun hmapped => ?_⟩
  exact absurd (aligned_of_deviceMapped hv habsent hbinds hsame (by decide) (by decide) hmapped).1
    (by decide)

end Windozz.Kernel

import Windozz.Kernel.Span

set_option autoImplicit false

/-! # The kernel heap

`kmalloc`, `kcalloc`, `krealloc` and `kfree` of `mm.c`. A block is a range of pages of its own,
whose first 16 bytes hold the number of its pages and its size in bytes.

`HeapInv` is the invariant over the live blocks: each is mapped to frames of its own that are
marked used and hold no tables, and its header is intact (`Block.Held`). The invariant is carried
through each of the three ways the state changes: pages backed (`HeapInv.backs`), bytes stored
(`HeapInv.stores`), pages released (`HeapInv.unbacks`).
-/

namespace Windozz.Kernel

open Radix

/-! ## The functions -/

/-- `kmalloc`. -/
def kmalloc (n : Nat) : K Nat := do
  acquire .heap_mutex
  let act_size := u64 (n + 16)
  let pages := u64 (act_size + 4095) / 4096
  let ptr ← vmmAlloc KERNEL_HEAP pages KERNEL_HEAP_FLAGS
  if ptr = 0 then do
    release .heap_mutex
    pure 0
  else do
    memset ptr act_size
    storeQword ptr pages
    storeQword (u64 (ptr + 8)) n
    release .heap_mutex
    pure (u64 (ptr + 16))

/-- `kcalloc`. -/
def kcalloc (n1 n2 : Nat) : K Nat := kmalloc (u64 (n1 * n2))

/-- `kfree`. -/
def kfree (ptr : Nat) : K Unit := do
  let pages ← loadQword (u64 (ptr + (2 ^ 64 - 16)))
  vmmFree (pageMask ptr) pages

/-- `krealloc`. -/
def krealloc (old new_size : Nat) : K Nat := do
  let new ← kmalloc new_size
  if new = 0 then pure 0
  else if old = 0 then pure new
  else do
    let size ← loadQword (u64 (u64 (old + (2 ^ 64 - 16)) + 8))
    memcpy new old size
    kfree old
    pure new

/-! ## Blocks -/

/-- A block of the heap: what `kmalloc` returned and the size asked for. -/
structure Block where
  ptr : Nat
  size : Nat

namespace Block

/-- The address of the header. -/
def base (b : Block) : Nat := b.ptr - 16

/-- The number of pages of the block. -/
def pages (b : Block) : Nat := (b.size + 16 + 4095) / 4096

/-- The address of a page of the block. -/
def page (b : Block) (i : Nat) : Nat := pageAt b.base i

/-- The block is in order: its pages are mapped to distinct frames in use that hold no tables, and
its header holds its page count and its size. -/
structure Held (b : Block) (s : State) : Prop where
  ptr_ge : 16 ≤ b.ptr
  ptr_lt : b.ptr < 2 ^ 64
  size_lt : b.size + 16 + 4095 < 2 ^ 64
  range : RangeMapped s b.base b.pages
  used : ∀ i, i < b.pages → s.pmm.bitmap.test (frameOf s (b.page i)) = true
  not_table : ∀ i, i < b.pages → frameOf s (b.page i) ∉ s.tableFrames
  window : ∀ i, i < b.pages → frameOf s (b.page i) < 2 ^ 27
  distinct : ∀ i j, i < b.pages → j < b.pages → frameOf s (b.page i) = frameOf s (b.page j) → i = j
  header_pages : s.mem.qword (frameOf s (b.page 0) * 4096) = b.pages
  header_size : s.mem.qword (frameOf s (b.page 0) * 4096 + 8) = b.size

/-- Two blocks share neither a page nor a frame. -/
def Apart (s : State) (b c : Block) : Prop :=
  ∀ i j, i < b.pages → j < c.pages →
    pageOf (b.page i) ≠ pageOf (c.page j) ∧ frameOf s (b.page i) ≠ frameOf s (c.page j)

/-- Between two states nothing changed that the block depends on. -/
structure Keeps (b : Block) (s s' : State) : Prop where
  page_eq : ∀ i, i < b.pages → vmmGetPage (b.page i) s' = vmmGetPage (b.page i) s
  used : ∀ i, i < b.pages → s'.pmm.bitmap.test (frameOf s (b.page i)) = true
  not_table : ∀ i, i < b.pages → frameOf s (b.page i) ∉ s'.tableFrames
  noLarge : ∀ i, i < b.pages → s'.NoLargePage (b.page i)
  mem_eq : ∀ i a, i < b.pages → a / 4096 = frameOf s (b.page i) → s'.mem a = s.mem a

variable {b c : Block} {s s' s'' : State}

theorem pages_pos (b : Block) : 0 < b.pages := by
  unfold pages
  omega

theorem Apart.symm (h : Apart s b c) : Apart s c b := fun i j hi hj =>
  ⟨(h j i hj hi).1.symm, (h j i hj hi).2.symm⟩

namespace Keeps

theorem frame_eq (h : b.Keeps s s') {i : Nat} (hi : i < b.pages) :
    frameOf s' (b.page i) = frameOf s (b.page i) := by
  rw [frameOf, h.page_eq i hi, frameOf]

theorem trans (h : b.Keeps s s') (h' : b.Keeps s' s'') : b.Keeps s s'' := by
  refine ⟨fun i hi => (h'.page_eq i hi).trans (h.page_eq i hi), fun i hi => ?_, fun i hi => ?_,
    fun i hi => h'.noLarge i hi, fun i a hi ha => ?_⟩
  · rw [← h.frame_eq hi]
    exact h'.used i hi
  · rw [← h.frame_eq hi]
    exact h'.not_table i hi
  · rw [← h.mem_eq i a hi ha]
    exact h'.mem_eq i a hi (by rw [h.frame_eq hi]; exact ha)

/-- A block that is kept stays in order. -/
theorem held (h : b.Keeps s s') (hb : b.Held s) : b.Held s' := by
  have hzero := b.pages_pos
  have hword : ∀ o, o + 8 ≤ 4096 → s'.mem.qword (frameOf s' (b.page 0) * 4096 + o)
      = s.mem.qword (frameOf s (b.page 0) * 4096 + o) := by
    intro o ho
    rw [h.frame_eq hzero]
    refine Mem.qword_congr fun i hi => h.mem_eq 0 _ hzero ?_
    rw [Nat.add_assoc]
    exact div_frame _ (by omega)
  have hword₀ := hword 0 (by decide)
  rw [Nat.add_zero, Nat.add_zero] at hword₀
  refine ⟨hb.ptr_ge, hb.ptr_lt, hb.size_lt, ⟨hb.range.aligned, hb.range.length_lt,
    hb.range.outside, h.noLarge, fun i hi => ?_⟩, fun i hi => ?_, fun i hi => ?_, fun i hi => ?_,
    fun i j hi hj heq => ?_, hword₀.trans hb.header_pages,
    (hword 8 (by decide)).trans hb.header_size⟩
  · show vmmGetPage (b.page i) s' &&& PAGE_PRESENT ≠ 0
    rw [h.page_eq i hi]
    exact hb.range.present i hi
  · rw [h.frame_eq hi]
    exact h.used i hi
  · rw [h.frame_eq hi]
    exact h.not_table i hi
  · rw [h.frame_eq hi]
    exact hb.window i hi
  · rw [h.frame_eq hi, h.frame_eq hj] at heq
    exact hb.distinct i j hi hj heq

theorem apart (hb : b.Keeps s s') (hc : c.Keeps s s') (h : Apart s b c) : Apart s' b c := by
  intro i j hi hj
  rw [hb.frame_eq hi, hc.frame_eq hj]
  exact h i j hi hj

end Keeps

end Block

/-- The payload of a block that is kept does not change. -/
theorem Block.Keeps.payload {b : Block} {s s' : State} (h : b.Keeps s s') (hb : b.Held s) {k : Nat}
    (hk : k < b.size) : byteAt (byteAddr b.ptr k) s' = byteAt (byteAddr b.ptr k) s ∧
      (byteAt (byteAddr b.ptr k) s).isSome := by
  have hge := hb.ptr_ge
  have haddr : byteAddr b.ptr k = byteAddr b.base (16 + k) := by
    unfold byteAddr base
    congr 1
    omega
  have hpage : (16 + k) / 4096 < b.pages := by
    unfold pages
    omega
  have hphysical := hb.range.physical hpage
  have hphysical' := (h.held hb).range.physical hpage
  have hframe : frameOf s' (pageAt b.base ((16 + k) / 4096))
      = frameOf s (pageAt b.base ((16 + k) / 4096)) := h.frame_eq hpage
  rw [hframe] at hphysical'
  have hmem := h.mem_eq _ (frameOf s (pageAt b.base ((16 + k) / 4096)) * 4096 + (16 + k) % 4096)
    hpage (div_frame _ (Nat.mod_lt _ (by decide)))
  rw [haddr, byteAt, byteAt, hphysical, hphysical', Option.map_some, Option.map_some, hmem]
  exact ⟨rfl, rfl⟩

/-! ## The invariant -/

/-- The invariant of the heap over its live blocks. -/
structure HeapInv (s : State) (live : List Block) : Prop where
  tree : s.PageTree
  fresh : s.FreshFrames
  window : s.WindowFrames
  held : ∀ b ∈ live, b.Held s
  apart : live.Pairwise (Block.Apart s)

namespace HeapInv

variable {s s' : State} {live : List Block}

theorem relock (h : HeapInv s live) (m : Mutex → Bool) : HeapInv { s with mutexes := m } live :=
  ⟨h.tree, h.fresh, h.window, fun b hb => by
    obtain ⟨h₁, h₂, h₃, h₄, h₅, h₆, h₇, h₈, h₉, h₁₀⟩ := h.held b hb
    exact ⟨h₁, h₂, h₃, ⟨h₄.aligned, h₄.length_lt, h₄.outside, h₄.noLarge, h₄.present⟩, h₅, h₆, h₇,
      h₈, h₉, h₁₀⟩, h.apart⟩

/-- The globals for the MMIO regions play no part. -/
theorem reglobal (h : HeapInv s live) (regions count : Nat) :
    HeapInv { s with mmio_regions := regions, mmio_region_count := count } live :=
  ⟨h.tree, h.fresh, h.window, fun b hb => by
    obtain ⟨h₁, h₂, h₃, h₄, h₅, h₆, h₇, h₈, h₉, h₁₀⟩ := h.held b hb
    exact ⟨h₁, h₂, h₃, ⟨h₄.aligned, h₄.length_lt, h₄.outside, h₄.noLarge, h₄.present⟩, h₅, h₆, h₇,
      h₈, h₉, h₁₀⟩, h.apart⟩

/-- A change that keeps every block keeps the invariant over the blocks. -/
theorem keeps (h : HeapInv s live) (hkeeps : ∀ b ∈ live, b.Keeps s s') (htree : s'.PageTree)
    (hfresh : s'.FreshFrames) (hwindow : s'.WindowFrames) : HeapInv s' live := by
  refine ⟨htree, hfresh, hwindow, fun b hb => (hkeeps b hb).held (h.held b hb), ?_⟩
  exact h.apart.imp_of_mem fun hb hc hapart => (hkeeps _ hb).apart (hkeeps _ hc) hapart

/-- A change that takes free frames, some of them for tables, and leaves what is mapped keeps the
blocks. -/
theorem grows (h : HeapInv s live) {taken new : Finset Nat} (htakes : Takes s.pmm s'.pmm taken)
    (hsub : new ⊆ taken) (htree : s'.PageTree) (hfresh : s'.FreshFrames)
    (hframes : s'.tableFrames = s.tableFrames ∪ new)
    (hpage : ∀ w, vmmGetPage w s &&& PAGE_PRESENT ≠ 0 → vmmGetPage w s' = vmmGetPage w s)
    (hlarge : ∀ w, s.NoLargePage w → s'.NoLargePage w)
    (hmem : ∀ a, a / 4096 ∉ s'.tableFrames → s'.mem a = s.mem a) :
    HeapInv s' live ∧ ∀ b ∈ live, b.Keeps s s' := by
  have hwindow : s'.WindowFrames := fun q hq => h.window q (htakes.free_iff.mp hq).1
  have hkeeps : ∀ b ∈ live, b.Keeps s s' := by
    intro b hb
    have hheld := h.held b hb
    have hnot : ∀ i, i < b.pages → frameOf s (b.page i) ∉ s'.tableFrames := by
      intro i hi
      rw [hframes]
      rintro (hin | hin)
      · exact hheld.not_table i hi hin
      · have hfree := (htakes.free _ (hsub hin)).unmarked
        rw [hheld.used i hi] at hfree
        cases hfree
    refine ⟨fun i hi => hpage _ (hheld.range.present i hi), fun i hi => ?_, hnot,
      fun i hi => hlarge _ (hheld.range.noLarge i hi), fun i a hi ha => hmem a (ha ▸ hnot i hi)⟩
    rw [htakes.test_eq, hheld.used i hi, Bool.true_or]
  exact ⟨h.keeps hkeeps htree hfresh hwindow, hkeeps⟩

/-- Backing pages that were not mapped keeps the blocks. -/
theorem backs (h : HeapInv s live) {p flags : Nat} {frames : List Nat} {new : Finset Nat}
    (hback : Backs s s' p flags frames new)
    (habsent : ∀ i, i < frames.length → vmmGetPhysical (pageAt p i) s = none) :
    HeapInv s' live ∧ ∀ b ∈ live, b.Keeps s s' :=
  h.grows hback.takes Finset.subset_union_left hback.tree hback.fresh hback.frames_eq
    (fun w hw => hback.other w fun i hi hpage => hw (by
      rw [vmmGetPage_congr hpage]
      exact (vmmGetPhysical_none.mp (habsent i hi)).2))
    hback.noLargePage hback.mem_eq

/-- Storing to frames outside the blocks and the tables keeps the blocks. -/
theorem stores (h : HeapInv s live) {F : Set Nat} (hstores : Stores s s' F)
    (hF : ∀ k ∈ F, k ∉ s.tableFrames)
    (hblocks : ∀ b ∈ live, ∀ i, i < b.pages → frameOf s (b.page i) ∉ F) :
    HeapInv s' live ∧ ∀ b ∈ live, b.Keeps s s' := by
  have hfresh : s'.FreshFrames := by
    intro q hq
    rw [hstores.frames_eq hF]
    exact h.fresh q (hstores.pmm_eq ▸ hq)
  have hwindow : s'.WindowFrames := fun q hq => h.window q (hstores.pmm_eq ▸ hq)
  have hkeeps : ∀ b ∈ live, b.Keeps s s' := by
    intro b hb
    have hheld := h.held b hb
    refine ⟨fun i _ => hstores.getPage_eq hF _, fun i hi => ?_, fun i hi => ?_,
      fun i hi => hstores.noLargePage hF (hheld.range.noLarge i hi), fun i a hi ha => ?_⟩
    · rw [hstores.pmm_eq]
      exact hheld.used i hi
    · rw [hstores.frames_eq hF]
      exact hheld.not_table i hi
    · exact hstores.mem_eq a (ha ▸ hblocks b hb i hi)
  exact ⟨h.keeps hkeeps (hstores.pageTree hF h.tree) hfresh hwindow, hkeeps⟩

/-- A block is apart from the other live blocks. -/
theorem apart_rest {pre post : List Block} {b c : Block} (h : HeapInv s (pre ++ b :: post))
    (hc : c ∈ pre ++ post) : Block.Apart s b c := by
  obtain ⟨-, hcons, hcross⟩ := List.pairwise_append.mp h.apart
  rcases List.mem_append.mp hc with hc | hc
  · exact (hcross c hc b (List.mem_cons_self ..)).symm
  · exact (List.pairwise_cons.mp hcons).1 c hc

theorem rest {pre post : List Block} {b : Block} (h : HeapInv s (pre ++ b :: post)) :
    HeapInv s (pre ++ post) := by
  refine ⟨h.tree, h.fresh, h.window, fun c hc => h.held c ?_, ?_⟩
  · rw [List.mem_append, List.mem_cons]
    exact (List.mem_append.mp hc).imp_right Or.inr
  · exact h.apart.sublist ((List.sublist_cons_self b post).append_left pre)

/-- Releasing the pages of a block keeps the others. -/
theorem unbacks {pre post : List Block} {b : Block} (h : HeapInv s (pre ++ b :: post))
    (hunback : Unbacks s s' b.base b.pages) :
    HeapInv s' (pre ++ post) ∧ ∀ c ∈ pre ++ post, c.Keeps s s' := by
  have hb : b.Held s := h.held b (by simp)
  -- what is free afterwards was free before or was a page of the block
  have hfree : ∀ q, s'.pmm.Free q → s.pmm.Free q ∨ ∃ i, i < b.pages ∧ q = frameOf s (b.page i) := by
    rintro q ⟨hpos, hbelow, hfree⟩
    rcases (hunback.test_iff q).mp hfree with hfree | hq
    · exact Or.inl ⟨hpos, hunback.highest_eq ▸ hbelow, hfree⟩
    · exact Or.inr hq
  have hfresh : s'.FreshFrames := by
    intro q hq
    rw [hunback.frames_eq]
    rcases hfree q hq with hq | ⟨i, hi, rfl⟩
    · exact h.fresh q hq
    · exact hb.not_table i hi
  have hwindow : s'.WindowFrames := by
    intro q hq
    rcases hfree q hq with hq | ⟨i, hi, rfl⟩
    · exact h.window q hq
    · exact hb.window i hi
  have hkeeps : ∀ c ∈ pre ++ post, c.Keeps s s' := by
    intro c hc
    have hheld := h.rest.held c hc
    have hapart := h.apart_rest hc
    refine ⟨fun i hi => ?_, fun i hi => ?_, fun i hi => ?_, fun i hi => ?_, fun i a hi ha => ?_⟩
    · exact hunback.other _ fun j hj => (hapart j i hj hi).1.symm
    · rw [← Bool.not_eq_false]
      intro hmark
      rcases (hunback.test_iff _).mp hmark with hmark | ⟨j, hj, hframe⟩
      · rw [hheld.used i hi] at hmark
        cases hmark
      · exact (hapart j i hj hi).2 hframe.symm
    · rw [hunback.frames_eq]
      exact hheld.not_table i hi
    · exact hunback.noLargePage _ (hheld.range.noLarge i hi)
    · exact hunback.mem_eq a (ha ▸ hheld.not_table i hi)
  exact ⟨h.rest.keeps hkeeps hunback.tree hfresh hwindow, hkeeps⟩

end HeapInv

/-! ## `kmalloc` -/

/-- The entry of a heap page. -/
theorem heap_entry (k : Nat) : (k * 4096 ||| KERNEL_HEAP_FLAGS) / 4096 = k ∧
    (k * 4096 ||| KERNEL_HEAP_FLAGS) &&& PAGE_PRESENT ≠ 0 := by
  have hflags : KERNEL_HEAP_FLAGS = 3 := rfl
  rw [or_flags (Nat.mul_mod_left _ _) (by decide), and_present, hflags]
  omega

section Fresh

variable {s s₁ : State} {p : Nat} {frames : List Nat} {new : Finset Nat}
  (hback : Backs s s₁ p KERNEL_HEAP_FLAGS frames new) (hwindow : s.WindowFrames)
  (hp : p % 4096 = 0)
  (habsent : ∀ i, i < frames.length → vmmGetPhysical (pageAt p i) s = none)

include hback in
/-- The frames of the pages just backed. -/
theorem frameOf_backed {i k : Nat} (hk : frames[i]? = some k) : frameOf s₁ (pageAt p i) = k := by
  rw [frameOf, hback.mapped i k hk]
  exact (heap_entry k).1

include hback hwindow hp habsent

/-- The pages just backed are mapped. -/
theorem range_backed : RangeMapped s₁ p frames.length := by
  have hlen := hback.length_le hwindow
  refine ⟨hp, by omega, fun i hi => ?_, fun i hi => ?_, fun i hi => ?_⟩
  · exact (vmmGetPhysical_none.mp (habsent i hi)).1
  · exact hback.noLargePage _ (noLargePage_of_absent (vmmGetPhysical_none.mp (habsent i hi)).2)
  · rw [hback.mapped i _ (List.getElem?_eq_getElem hi)]
    exact (heap_entry _).2

/-- The bytes of the pages just backed lie in their frames. -/
theorem bytesIn_backed (hplt : p < 2 ^ 64) {n : Nat} (hn : (n + 4095) / 4096 ≤ frames.length) :
    BytesIn s₁ p n {k | k ∈ frames} := by
  have hbytes := (range_backed hback hwindow hp habsent).bytesIn (o := 0) (n := n)
    (F := {k | k ∈ frames}) (fun i hi => by
      rw [frameOf_backed hback (List.getElem?_eq_getElem hi)]
      exact List.getElem_mem hi) (by omega)
  rwa [byteAddr_zero hplt] at hbytes

end Fresh

theorem stores_setQword {s : State} {F : Set Nat} {k o x : Nat} (hk : k ∈ F) (ho : o + 8 ≤ 4096) :
    Stores s { s with mem := s.mem.setQword (k * 4096 + o) x } F := by
  refine ⟨rfl, fun a ha => Mem.setQword_outside ?_⟩
  by_contra hin
  have hpage : a / 4096 = k := by omega
  exact ha (hpage ▸ hk)

/-- What `kmalloc` stores: the range is cleared and the header written. -/
theorem kmalloc_stores {s s₁ s₂ s₃ : State} {F : Set Nat} {p count size pages n : Nat}
    {u₁ u₂ u₃ : Unit} (hF : ∀ k ∈ F, k ∉ s.tableFrames) (hrange : RangeMapped s p count)
    (hcount : 0 < count) (hframe : frameOf s (pageAt p 0) ∈ F) (hplt : p < 2 ^ 64)
    (hbytes : BytesIn s p size F) (hmemset : memset p size s = .ok (u₁, s₁))
    (hpages : storeQword p pages s₁ = .ok (u₂, s₂))
    (hsize : storeQword (u64 (p + 8)) n s₂ = .ok (u₃, s₃)) :
    Stores s s₃ F ∧ s₃.mem.qword (frameOf s (pageAt p 0) * 4096) = u64 pages ∧
      s₃.mem.qword (frameOf s (pageAt p 0) * 4096 + 8) = u64 n := by
  have hlen : (List.replicate size (0 : UInt8)).length = size := List.length_replicate ..
  obtain ⟨hclear, -⟩ := storeBytes_spec (List.replicate size 0) hF (by rwa [hlen]) hmemset
  have hF₁ : ∀ k ∈ F, k ∉ s₁.tableFrames := fun k hk => by
    rw [hclear.frames_eq hF]
    exact hF k hk
  -- clearing the pages changes no table, so the header is stored through the same mapping
  have hlinear : Linear s₁ p 8 (frameOf s (pageAt p 0) * 4096) := by
    have h := (hclear.range hF hrange).linear hcount (o := 0) (k := 8)
      (by rw [hclear.frame_eq hF]; exact hF₁ _ hframe) (by decide)
    rwa [byteAddr_zero hplt, hclear.frame_eq hF, Nat.add_zero] at h
  obtain rfl := storeQword_linear hlinear hpages
  have hstore := stores_setQword (s := s₁) (x := pages) hframe (show 0 + 8 ≤ 4096 by decide)
  rw [Nat.add_zero] at hstore
  have hF₂ : ∀ k ∈ F, k ∉ State.tableFrames
      { s₁ with mem := s₁.mem.setQword (frameOf s (pageAt p 0) * 4096) pages } := fun k hk => by
    rw [hstore.frames_eq hF₁]
    exact hF₁ k hk
  have hlinear' : Linear { s₁ with mem := s₁.mem.setQword (frameOf s (pageAt p 0) * 4096) pages }
      (u64 (p + 8)) 8 (frameOf s (pageAt p 0) * 4096 + 8) := by
    have h := (hstore.range hF₁ (hclear.range hF hrange)).linear hcount (o := 8) (k := 8)
      (by rw [hstore.frame_eq hF₁, hclear.frame_eq hF]; exact hF₂ _ hframe) (by decide)
    rwa [hstore.frame_eq hF₁, hclear.frame_eq hF] at h
  obtain rfl := storeQword_linear hlinear' hsize
  refine ⟨(hclear.trans hstore).trans (stores_setQword hframe (by decide)), ?_, ?_⟩
  · rw [Mem.qword_setQword_disjoint (Or.inl (le_refl _)), Mem.qword_setQword_same]
  · exact Mem.qword_setQword_same _ _ _

theorem Block.Keeps.relock {b : Block} {s s' : State} (h : b.Keeps s s') (m : Mutex → Bool) :
    b.Keeps s { s' with mutexes := m } :=
  ⟨h.page_eq, h.used, h.not_table, h.noLarge, h.mem_eq⟩

/-- Pages that were just backed and stored to are none of the live blocks. -/
theorem HeapInv.fresh_pages {s s₁ s₂ : State} {live : List Block} {p : Nat} {frames : List Nat}
    {new : Finset Nat} (h : HeapInv s live)
    (hback : Backs s s₁ p KERNEL_HEAP_FLAGS frames new)
    (habsent : ∀ i, i < frames.length → vmmGetPhysical (pageAt p i) s = none)
    (hstores : Stores s₁ s₂ {k | k ∈ frames}) :
    HeapInv s₂ live ∧ (∀ b ∈ live, b.Keeps s s₂) ∧
      ∀ b ∈ live, ∀ i, i < b.pages → frameOf s (b.page i) ∉ frames := by
  have hunused : ∀ b ∈ live, ∀ i, i < b.pages → frameOf s (b.page i) ∉ frames := by
    intro b hb i hi hin
    have hfree := (hback.frame_free hin).unmarked
    rw [(h.held b hb).used i hi] at hfree
    cases hfree
  obtain ⟨hinv₁, hkeeps₁⟩ := h.backs hback habsent
  obtain ⟨hinv₂, hkeeps₂⟩ := hinv₁.stores hstores
    (fun k hk => hback.frame_not_table h.fresh hk) fun b hb i hi hin =>
      hunused b hb i hi ((hkeeps₁ b hb).frame_eq hi ▸ hin)
  exact ⟨hinv₂, fun b hb => (hkeeps₁ b hb).trans (hkeeps₂ b hb), hunused⟩

/-- A block whose pages were just backed and whose header was written joins the live blocks. -/
theorem HeapInv.fresh_block {s s₁ s₂ : State} {live : List Block} {p n : Nat} {frames : List Nat}
    {new : Finset Nat} (h : HeapInv s live)
    (hback : Backs s s₁ p KERNEL_HEAP_FLAGS frames new) (hp : p % 4096 = 0) (hplt : p < 2 ^ 64)
    (habsent : ∀ i, i < frames.length → vmmGetPhysical (pageAt p i) s = none)
    (hn : n + 16 + 4095 < 2 ^ 64) (hlen : frames.length = (n + 16 + 4095) / 4096)
    (hstores : Stores s₁ s₂ {k | k ∈ frames})
    (hpages : s₂.mem.qword (frameOf s₁ (pageAt p 0) * 4096) = frames.length)
    (hsize : s₂.mem.qword (frameOf s₁ (pageAt p 0) * 4096 + 8) = n) :
    HeapInv s₂ (⟨p + 16, n⟩ :: live) ∧ ∀ b ∈ live, b.Keeps s s₂ := by
  -- the call stores into the frames it maps, and none of these is a page table
  have hF : ∀ k ∈ {k | k ∈ frames}, k ∉ s₁.tableFrames := fun k hk =>
    hback.frame_not_table h.fresh hk
  have hrange := hstores.range hF (range_backed hback h.window hp habsent)
  have hframe : ∀ i (hi : i < frames.length), frameOf s₂ (pageAt p i) = frames[i] := fun i hi =>
    (hstores.frame_eq hF _).trans (frameOf_backed hback (List.getElem?_eq_getElem hi))
  obtain ⟨hinv₂, hkeeps, hunused⟩ := h.fresh_pages hback habsent hstores
  have hbase : (⟨p + 16, n⟩ : Block).base = p := Nat.add_sub_cancel _ _
  have hcount : (⟨p + 16, n⟩ : Block).pages = frames.length := hlen.symm
  have hpage : ∀ i, (⟨p + 16, n⟩ : Block).page i = pageAt p i := fun i => by
    rw [Block.page, hbase]
  have hheld : (⟨p + 16, n⟩ : Block).Held s₂ := by
    refine ⟨Nat.le_add_left _ _, by simp only; omega, hn, ?_, fun i hi => ?_, fun i hi => ?_,
      fun i hi => ?_, fun i j hi hj heq => ?_, ?_, ?_⟩
    · rw [hbase, hcount]
      exact hrange
    · rw [hcount] at hi
      rw [hpage, hframe i hi, hstores.pmm_eq, hback.takes.test_eq, Bool.or_eq_true,
        decide_eq_true_eq]
      exact Or.inr (Finset.mem_union_right _ (List.mem_toFinset.mpr (List.getElem_mem hi)))
    · rw [hcount] at hi
      rw [hpage, hframe i hi, hstores.frames_eq hF]
      exact hF _ (List.getElem_mem hi)
    · rw [hcount] at hi
      rw [hpage, hframe i hi]
      exact h.window _ (hback.frame_free (List.getElem_mem hi))
    · rw [hcount] at hi hj
      rw [hpage, hpage, hframe i hi, hframe j hj] at heq
      exact (List.Nodup.getElem_inj_iff hback.nodup).mp heq
    · rw [hpage, hstores.frame_eq hF, hcount]
      exact hpages
    · rw [hpage, hstores.frame_eq hF]
      exact hsize
  refine ⟨⟨hinv₂.tree, hinv₂.fresh, hinv₂.window, ?_, ?_⟩, hkeeps⟩
  · intro b hb
    rcases List.mem_cons.mp hb with rfl | hb
    · exact hheld
    · exact hinv₂.held b hb
  · refine List.pairwise_cons.mpr ⟨fun b hb i j hi hj => ?_, hinv₂.apart⟩
    rw [hcount] at hi
    rw [hpage]
    -- a block that is live keeps its pages mapped, and the pages of `p` were absent
    constructor
    · intro heq
      refine (h.held b hb).range.present j hj ?_
      rw [← (vmmGetPhysical_none.mp (habsent i hi)).2]
      exact congrArg (· &&& PAGE_PRESENT) (vmmGetPage_congr heq.symm s)
    · rw [hframe i hi, (hkeeps b hb).frame_eq hj]
      exact fun heq => hunused b hb j hj (heq ▸ List.getElem_mem hi)

/-- Between `s` and `s₁` the pages of a new block were backed, and between `s₁` and `s₂` they were
cleared and the header written. -/
structure Obtains (s s₁ s₂ : State) (n p : Nat) (frames : List Nat) (new : Finset Nat) : Prop where
  backs : Backs s s₁ p KERNEL_HEAP_FLAGS frames new
  aligned : p % 4096 = 0
  p_lt : p < 2 ^ 64
  absent : ∀ i, i < frames.length → vmmGetPhysical (pageAt p i) s = none
  length_eq : frames.length = (n + 16 + 4095) / 4096
  stores : Stores s₁ s₂ {k | k ∈ frames}
  header_pages : s₂.mem.qword (frameOf s₁ (pageAt p 0) * 4096) = frames.length
  header_size : s₂.mem.qword (frameOf s₁ (pageAt p 0) * 4096 + 8) = n

/-- A store to an address that is not mapped faults. -/
theorem storeBytes_absent {s s' : State} {va : Nat} {b : UInt8} {bs : List UInt8} {u : Unit}
    (h : vmmGetPhysical va s = none) : storeBytes va (b :: bs) s ≠ .ok (u, s') := by
  intro hrun
  obtain ⟨_, s₁, hbyte, -⟩ := Prog.bind_eq_ok.mp hrun
  obtain ⟨pa, htranslate, -⟩ := storeByte_ok hbyte
  rw [translate_eq (noLargePage_of_absent (vmmGetPhysical_none.mp h).2), h, ite_self] at htranslate
  cases htranslate

/-- The pages just backed can be read and written as one piece. -/
theorem span_backed {s s₁ : State} {p : Nat} {frames : List Nat} {new : Finset Nat}
    (hback : Backs s s₁ p KERNEL_HEAP_FLAGS frames new) (hfresh : s.FreshFrames)
    (hwindow : s.WindowFrames) (hp : p % 4096 = 0)
    (habsent : ∀ i, i < frames.length → vmmGetPhysical (pageAt p i) s = none) :
    Span s₁ p frames.length ∧ spanFrames s₁ p frames.length = {k | k ∈ frames} := by
  have hframe : ∀ i (hi : i < frames.length), frameOf s₁ (pageAt p i) = frames[i] := fun i hi =>
    frameOf_backed hback (List.getElem?_eq_getElem hi)
  have hframes : spanFrames s₁ p frames.length = {k | k ∈ frames} := by
    ext k
    constructor
    · rintro ⟨i, hi, rfl⟩
      rw [hframe i hi]
      exact List.getElem_mem hi
    · intro hk
      obtain ⟨i, hi, rfl⟩ := List.mem_iff_getElem.mp hk
      exact ⟨i, hi, (hframe i hi).symm⟩
  refine ⟨⟨range_backed hback hwindow hp habsent, fun k hk => ?_, fun i j hi hj heq => ?_⟩, hframes⟩
  · rw [hframes] at hk
    exact hback.frame_not_table hfresh hk
  · rw [hframe i hi, hframe j hj] at heq
    exact (List.Nodup.getElem_inj_iff hback.nodup).mp heq

/-- Behind the header `kmalloc` leaves zeros. -/
theorem kmalloc_zeroed {s s₁ s₂ s₃ : State} {p count size pages n : Nat} {u₁ u₂ u₃ : Unit}
    (h : Span s p count) (hcount : 0 < count) (hplt : p < 2 ^ 64) (hsize : size ≤ count * 4096)
    (hmemset : memset p size s = .ok (u₁, s₁)) (hpages : storeQword p pages s₁ = .ok (u₂, s₂))
    (hbytes : storeQword (u64 (p + 8)) n s₂ = .ok (u₃, s₃)) {j : Nat} (hlow : 16 ≤ j)
    (hj : j < size) : s₃.mem (physAt s p j) = 0 := by
  have hzero : byteAddr p 0 = p := byteAddr_zero hplt
  have height : byteAddr p 8 = u64 (p + 8) := rfl
  rw [memset, ← hzero] at hmemset
  rw [storeQword, ← hzero] at hpages
  rw [storeQword, ← height] at hbytes
  obtain ⟨hs₁, hm₁⟩ := storeBytes_span _ h (by rw [List.length_replicate]; omega) hmemset
  have h₁ := hs₁.span h.not_table h
  obtain ⟨hs₂, hm₂⟩ := storeBytes_span _ h₁ (by rw [toLE_length]; omega) hpages
  obtain ⟨-, hm₃⟩ :=
    storeBytes_span _ (hs₂.span h₁.not_table h₁) (by rw [toLE_length]; omega) hbytes
  have hlast := hm₃ j (by omega)
  have hmiddle := hm₂ j (by omega)
  have hfirst := hm₁ j (by omega)
  rw [hs₂.physAt_eq h₁.not_table, hs₁.physAt_eq h.not_table, toLE_length, if_neg (by omega)] at hlast
  rw [hs₁.physAt_eq h.not_table, toLE_length, if_neg (by omega)] at hmiddle
  rw [List.length_replicate, if_pos (by omega)] at hfirst
  rw [hlast, hmiddle, hfirst, List.getD_eq_getElem?_getD, List.getElem?_replicate,
    if_pos (by omega)]
  rfl

/-- The number of pages that `kmalloc` asks for. -/
def kmallocPages (n : Nat) : Nat := u64 (u64 (n + 16) + 4095) / 4096

theorem kmallocPages_of_lt {n : Nat} (h : n + 16 + 4095 < 2 ^ 64) :
    kmallocPages n = (n + 16 + 4095) / 4096 := by
  rw [kmallocPages, u64_of_lt (by omega : n + 16 < 2 ^ 64), u64_of_lt (by omega)]

/-- Between `s` and `s₁` the pages for a request were backed, and between `s₁` and `s₂` they were
cleared and the header written. The request may be so large that its page count wraps. -/
structure Grants (s s₁ s₂ : State) (n p : Nat) (frames : List Nat) (new : Finset Nat) : Prop where
  backs : Backs s s₁ p KERNEL_HEAP_FLAGS frames new
  aligned : p % 4096 = 0
  p_lt : p < 2 ^ 64
  absent : ∀ i, i < frames.length → vmmGetPhysical (pageAt p i) s = none
  length_eq : frames.length = kmallocPages n
  length_pos : 0 < frames.length
  stores : Stores s₁ s₂ {k | k ∈ frames}
  zeroed : ∀ j, 16 ≤ j → j < u64 (n + 16) → s₂.mem (physAt s₁ p j) = 0
  header_pages : s₂.mem.qword (frameOf s₁ (pageAt p 0) * 4096) = frames.length
  header_size : s₂.mem.qword (frameOf s₁ (pageAt p 0) * 4096 + 8) = u64 n

/-- **What `kmalloc` does.** It backs pages that were not mapped; when it returns a pointer, they are
cleared and hold the header. -/
theorem kmalloc_grants {s s' : State} (htree : s.PageTree) (hfresh : s.FreshFrames)
    (hwindow : s.WindowFrames) {n ptr : Nat} (hrun : kmalloc n s = .ok (ptr, s')) :
    (ptr = 0 ∧ ∃ s₁ m p frames new, Backs s s₁ p KERNEL_HEAP_FLAGS frames new ∧
      (∀ i, i < frames.length → vmmGetPhysical (pageAt p i) s = none) ∧
      s' = { s₁ with mutexes := m }) ∨
    ∃ s₁ s₂ m p frames new, Grants s s₁ s₂ n p frames new ∧ ptr = p + 16 ∧
      s' = { s₂ with mutexes := m } := by
  have hcount : u64 (u64 (n + 16) + 4095) / 4096 = kmallocPages n := rfl
  have hact_lt := u64_lt (n + 16)
  rw [kmalloc] at hrun
  obtain ⟨_, s₀, hacquire, hrun₁⟩ := Prog.bind_eq_ok.mp hrun
  obtain ⟨p, s₁, halloc, hrun₂⟩ := Prog.bind_eq_ok.mp hrun₁
  obtain rfl := acquire_ok hacquire
  obtain ⟨q, frames, new, hback, hq, hqlt, habsent, hall⟩ :=
    vmmAlloc_spec (s := { s with mutexes := Function.update s.mutexes .heap_mutex true })
      htree hfresh hwindow (by decide) (by decide) (by decide) halloc
  have hbacks : Backs s s₁ q KERNEL_HEAP_FLAGS frames new := hback.unlock
  by_cases hp : p = 0
  · rw [if_pos hp] at hrun₂
    obtain ⟨rfl, rfl⟩ := Prod.mk.inj (Except.ok.inj hrun₂)
    exact Or.inl ⟨rfl, s₁, _, q, frames, new, hbacks, habsent, rfl⟩
  · rw [if_neg hp] at hrun₂
    obtain ⟨rfl, hlen⟩ := hall hp
    rw [hcount] at hlen
    obtain ⟨_, s₃, hmemset, hrun₃⟩ := Prog.bind_eq_ok.mp hrun₂
    obtain ⟨_, s₄, hpages, hrun₄⟩ := Prog.bind_eq_ok.mp hrun₃
    obtain ⟨_, s₅, hsize, hrun₅⟩ := Prog.bind_eq_ok.mp hrun₄
    obtain ⟨rfl, rfl⟩ := Prod.mk.inj (Except.ok.inj hrun₅)
    have hpos : 0 < frames.length := by
      -- without a page the first store faults
      by_contra hzero
      have hnil : frames = [] := List.length_eq_zero_iff.mp (by omega)
      have hfirst := (vmmFind_unmapped (by decide) (vmmAlloc_find hp halloc) hp).2.2 0 (Or.inr rfl)
      have hpage : pageAt p 0 = p := byteAddr_zero hqlt
      have hsame : vmmGetPage p s₁ = vmmGetPage p s :=
        hbacks.other p fun i hi => by
          rw [hnil] at hi
          exact absurd hi (Nat.not_lt_zero i)
      have hnone : vmmGetPhysical p s₁ = none := by
        rw [hpage] at hfirst
        refine vmmGetPhysical_none.mpr ⟨(vmmGetPhysical_none.mp hfirst).1, ?_⟩
        rw [hsame]
        exact (vmmGetPhysical_none.mp hfirst).2
      rw [memset] at hmemset
      cases hact : u64 (n + 16) with
      | zero =>
          rw [hact] at hmemset
          obtain ⟨-, rfl⟩ := Prod.mk.inj (Except.ok.inj hmemset)
          exact storeBytes_absent hnone hpages
      | succ k =>
          rw [hact] at hmemset
          exact storeBytes_absent hnone hmemset
    have hlenlt : frames.length < 2 ^ 64 := by
      have := hbacks.length_le hwindow
      omega
    have hfits : u64 (n + 16) ≤ frames.length * 4096 := by
      rw [hlen, kmallocPages] at hpos ⊢
      unfold u64 at hpos hact_lt ⊢
      omega
    obtain ⟨hstores, hword₀, hword₈⟩ := kmalloc_stores
      (fun k hk => hbacks.frame_not_table hfresh hk)
      (range_backed hbacks hwindow hq habsent) hpos
      (by
        rw [frameOf_backed hbacks (List.getElem?_eq_getElem hpos)]
        exact List.getElem_mem hpos)
      hqlt (bytesIn_backed hbacks hwindow hq habsent hqlt (by omega))
      hmemset hpages hsize
    rw [hcount, ← hlen, u64_of_lt hlenlt] at hword₀
    have hspan := (span_backed hbacks hfresh hwindow hq habsent).1
    have hptr : u64 (p + 16) = p + 16 := u64_of_lt (by omega)
    exact Or.inr ⟨s₁, s₅, Function.update s₅.mutexes .heap_mutex false, p, frames, new,
      ⟨hbacks, hq, hqlt, habsent, hlen, hpos, hstores,
        fun j hlow hj => kmalloc_zeroed hspan hpos hqlt hfits hmemset hpages hsize hlow hj,
        hword₀, hword₈⟩, hptr, rfl⟩

/-- What it does for a request whose page count does not wrap. -/
theorem kmalloc_ok {s s' : State} (htree : s.PageTree) (hfresh : s.FreshFrames)
    (hwindow : s.WindowFrames) {n ptr : Nat} (hn : n + 16 + 4095 < 2 ^ 64)
    (hrun : kmalloc n s = .ok (ptr, s')) :
    (ptr = 0 ∧ ∃ s₁ m p frames new, Backs s s₁ p KERNEL_HEAP_FLAGS frames new ∧
      (∀ i, i < frames.length → vmmGetPhysical (pageAt p i) s = none) ∧
      s' = { s₁ with mutexes := m }) ∨
    ∃ s₁ s₂ m p frames new, Obtains s s₁ s₂ n p frames new ∧ ptr = p + 16 ∧
      s' = { s₂ with mutexes := m } := by
  rcases kmalloc_grants htree hfresh hwindow hrun with
    hnull | ⟨s₁, s₂, m, p, frames, new, hgrants, hptr, hs'⟩
  · exact Or.inl hnull
  · have hsize : u64 n = n := u64_of_lt (by omega)
    exact Or.inr ⟨s₁, s₂, m, p, frames, new, ⟨hgrants.backs, hgrants.aligned, hgrants.p_lt,
      hgrants.absent, hgrants.length_eq.trans (kmallocPages_of_lt hn), hgrants.stores,
      hgrants.header_pages, hgrants.header_size.trans hsize⟩, hptr, hs'⟩

/-- **`kmalloc` keeps the invariant**, and adds the block it returns. -/
theorem kmalloc_spec {s s' : State} {live : List Block} (h : HeapInv s live) {n ptr : Nat}
    (hn : n + 16 + 4095 < 2 ^ 64) (hrun : kmalloc n s = .ok (ptr, s')) :
    HeapInv s' (if ptr = 0 then live else ⟨ptr, n⟩ :: live) ∧ ∀ b ∈ live, b.Keeps s s' := by
  rcases kmalloc_ok h.tree h.fresh h.window hn hrun with
    ⟨rfl, s₁, m, p, frames, new, hback, habsent, rfl⟩ | ⟨s₁, s₂, m, p, frames, new, hnew, rfl, rfl⟩
  · obtain ⟨hinv, hkeeps⟩ := h.backs hback habsent
    rw [if_pos rfl]
    exact ⟨hinv.relock _, fun b hb => (hkeeps b hb).relock _⟩
  · obtain ⟨hinv, hkeeps⟩ := h.fresh_block hnew.backs hnew.aligned hnew.p_lt hnew.absent hn
      hnew.length_eq hnew.stores hnew.header_pages hnew.header_size
    rw [if_neg (by omega)]
    exact ⟨hinv.relock _, fun b hb => (hkeeps b hb).relock _⟩

/-! ## `kfree` -/

/-- The header is in front of what `kmalloc` returned. -/
theorem Block.Held.kfree_eq {s : State} {b : Block} (hb : b.Held s) :
    kfree b.ptr = loadQword b.base >>= vmmFree b.base := by
  have hge := hb.ptr_ge
  have hlt := hb.ptr_lt
  have hbase : u64 (b.ptr + (2 ^ 64 - 16)) = b.base := by
    unfold u64 Block.base
    omega
  have hmask : pageMask b.ptr = b.base := by
    have halign := hb.range.aligned
    unfold Block.base at halign ⊢
    unfold pageMask
    omega
  rw [kfree, hbase, hmask]

theorem Block.Held.base_lt {s : State} {b : Block} (hb : b.Held s) : b.base < 2 ^ 64 := by
  have hlt := hb.ptr_lt
  unfold Block.base
  omega

/-- The header holds the page count. -/
theorem Block.Held.load_pages {s s₁ : State} {b : Block} (hb : b.Held s) {pages : Nat}
    (hload : loadQword b.base s = .ok (pages, s₁)) : pages = b.pages ∧ s₁ = s := by
  have hpos := b.pages_pos
  have hlinear := hb.range.linear hpos (hb.not_table 0 hpos) (show 0 + 8 ≤ 4096 by decide)
  rw [byteAddr_zero hb.base_lt, Nat.add_zero] at hlinear
  obtain ⟨hpages, hstate⟩ := loadQword_linear hlinear hload
  exact ⟨hpages.trans hb.header_pages, hstate⟩

/-- **What `kfree` does.** It releases the pages that the header counts. -/
theorem kfree_ok {s s' : State} {b : Block} (htree : s.PageTree) (hb : b.Held s) {u : Unit}
    (hrun : kfree b.ptr s = .ok (u, s')) :
    Unbacks s s' b.base b.pages ∧ ∀ i, i < b.pages → vmmGetPage (b.page i) s' = 0 := by
  rw [hb.kfree_eq] at hrun
  obtain ⟨pages, s₁, hload, hfree⟩ := Prog.bind_eq_ok.mp hrun
  obtain ⟨rfl, rfl⟩ := hb.load_pages hload
  exact vmmFree_spec htree hb.range hfree

/-- **`kfree` keeps the invariant** over the other blocks. -/
theorem kfree_spec {s s' : State} {pre post : List Block} {b : Block}
    (h : HeapInv s (pre ++ b :: post)) {u : Unit} (hrun : kfree b.ptr s = .ok (u, s')) :
    HeapInv s' (pre ++ post) ∧ ∀ c ∈ pre ++ post, c.Keeps s s' :=
  h.unbacks (kfree_ok h.tree (h.held b (by simp)) hrun).1

/-! ## Returning -/

/-- A range that is mapped at canonical addresses to frames without tables. -/
structure Writable (s : State) (p count : Nat) (F : Set Nat) : Prop where
  range : RangeMapped s p count
  not_table : ∀ k ∈ F, k ∉ s.tableFrames
  frame : ∀ i, i < count → frameOf s (pageAt p i) ∈ F
  canonical : ∀ i, i < count → Canonical (pageAt p i)

theorem Writable.stores {s s' : State} {p count : Nat} {F : Set Nat} (h : Writable s p count F)
    (hs : Stores s s' F) : Writable s' p count F := by
  refine ⟨hs.range h.not_table h.range, fun k hk => ?_, fun i hi => ?_, h.canonical⟩
  · rw [hs.frames_eq h.not_table]
    exact h.not_table k hk
  · rw [hs.frame_eq h.not_table]
    exact h.frame i hi

/-- Bytes can be stored anywhere in such a range. -/
theorem Writable.store {s : State} {p count : Nat} {F : Set Nat} (h : Writable s p count F)
    (o : Nat) (bs : List UInt8) (hle : o + bs.length ≤ count * 4096) :
    ∃ s', storeBytes (byteAddr p o) bs s = .ok ((), s') ∧ Writable s' p count F ∧
      Stores s s' F := by
  have hadd := byteAddr_add p o
  have hphysical : ∀ j, j < bs.length → vmmGetPhysical (byteAddr (byteAddr p o) j) s
      = some (frameOf s (pageAt p ((o + j) / 4096)) * 4096 + (o + j) % 4096) := by
    intro j hj
    rw [hadd]
    exact h.range.physical (by omega)
  have hbytes : BytesIn s (byteAddr p o) bs.length F := h.range.bytesIn h.frame hle
  obtain ⟨s', hrun⟩ := storeBytes_returns bs h.not_table hbytes fun j hj => by
    refine ⟨?_, by rw [hphysical j hj]; rfl⟩
    rw [hadd]
    exact canonical_byteAddr h.range.aligned h.canonical (by omega)
  have hstores := (storeBytes_spec bs h.not_table hbytes hrun).1
  exact ⟨s', hrun, h.stores hstores, hstores⟩

/-- The pages that `vmm_alloc` backed can be written to. -/
theorem Backs.writable {s s₁ : State} {p : Nat} {frames : List Nat} {new : Finset Nat}
    (h : Backs s s₁ p KERNEL_HEAP_FLAGS frames new) (hfresh : s.FreshFrames)
    (hwindow : s.WindowFrames) (hp : p % 4096 = 0)
    (habsent : ∀ i, i < frames.length → vmmGetPhysical (pageAt p i) s = none)
    (hcanonical : ∀ i, i < frames.length → Canonical (pageAt p i)) :
    Writable s₁ p frames.length {k | k ∈ frames} := by
  refine ⟨range_backed h hwindow hp habsent, fun k hk => h.frame_not_table hfresh hk,
    fun i hi => ?_, hcanonical⟩
  rw [frameOf_backed h (List.getElem?_eq_getElem hi)]
  exact List.getElem_mem hi

/-- The first `k` pages of the heap are mapped and the next `n` are not. -/
structure State.Packed (s : State) (k n : Nat) : Prop where
  mapped : ∀ i, i < k → vmmGetPhysical (pageAt KERNEL_HEAP i) s ≠ none
  absent : ∀ i, i < n → vmmGetPhysical (pageAt KERNEL_HEAP (k + i)) s = none

theorem pageAt_heap (k i : Nat) :
    pageAt (KERNEL_HEAP + k * 4096) i = pageAt KERNEL_HEAP (k + i) := by
  unfold pageAt u64
  omega

/-- A new block behind the others keeps the heap packed. -/
theorem Obtains.packed {s s₁ s₂ : State} {n k more : Nat} {frames : List Nat} {new : Finset Nat}
    (h : Obtains s s₁ s₂ n (KERNEL_HEAP + k * 4096) frames new) (hfresh : s.FreshFrames)
    (hpacked : s.Packed k (frames.length + more)) (hk : k + (frames.length + more) < 2 ^ 36) :
    s₂.Packed (k + frames.length) more := by
  have hphysical : ∀ va, vmmGetPhysical va s₂ = vmmGetPhysical va s₁ :=
    h.stores.getPhysical_eq fun q hq => h.backs.frame_not_table hfresh hq
  have hother : ∀ i, i < 2 ^ 36 → (i < k ∨ k + frames.length ≤ i) →
      vmmGetPhysical (pageAt KERNEL_HEAP i) s₁ = vmmGetPhysical (pageAt KERNEL_HEAP i) s := by
    intro i hi hout
    have hpage : vmmGetPage (pageAt KERNEL_HEAP i) s₁ = vmmGetPage (pageAt KERNEL_HEAP i) s := by
      refine h.backs.other _ fun j hj => ?_
      rw [pageAt_heap]
      exact pageOf_pageAt_ne (by decide) hi (by omega) (by omega)
    rw [vmmGetPhysical, vmmGetPhysical, hpage]
  refine ⟨fun i hi => ?_, fun i hi => ?_⟩
  · rw [hphysical]
    by_cases hold : i < k
    · rw [hother i (by omega) (Or.inl hold)]
      exact hpacked.mapped i hold
    · obtain ⟨j, rfl⟩ := Nat.exists_eq_add_of_le (not_lt.mp hold)
      have hj : j < frames.length := by omega
      intro hnone
      have hentry := (vmmGetPhysical_none.mp hnone).2
      rw [← pageAt_heap, h.backs.mapped j _ (List.getElem?_eq_getElem hj)] at hentry
      exact (heap_entry _).2 hentry
  · rw [hphysical, Nat.add_assoc, hother _ (by omega) (Or.inr (by omega))]
    exact hpacked.absent _ (by omega)

/-- The heap can grow by `more` pages behind its first `k`, and there is room for `room` frames. -/
structure Ready (s : State) (live : List Block) (k more room : Nat) : Prop where
  inv : HeapInv s live
  heap_free : s.mutexes .heap_mutex = false
  vmm_free : s.mutexes .vmm_mutex = false
  pmm_free : s.mutexes .pmm_mutex = false
  room : s.pmm.Room room
  packed : s.Packed k more
  bound : k + more < 2 ^ 32

theorem Ready.mono {s : State} {live : List Block} {k more room more' room' : Nat}
    (h : Ready s live k more room) (hmore : more' ≤ more) (hroom : room' ≤ room) :
    Ready s live k more' room' :=
  ⟨h.inv, h.heap_free, h.vmm_free, h.pmm_free, h.room.mono hroom,
    ⟨h.packed.mapped, fun i hi => h.packed.absent i (by omega)⟩,
    lt_of_le_of_lt (Nat.add_le_add_left hmore k) h.bound⟩

/-- What `kmalloc` returns when `k` pages of the heap are in use. -/
def heapPtr (k : Nat) : Nat := KERNEL_HEAP + k * 4096 + 16

theorem heapPtr_ne (k : Nat) : heapPtr k ≠ 0 := Nat.succ_ne_zero _

/-- When `vmm_alloc` returns pages at canonical addresses, `kmalloc` returns the block in them,
and stores nothing outside. -/
theorem kmalloc_stored {s s₂ : State} (htree : s.PageTree) (hfresh : s.FreshFrames)
    (hwindow : s.WindowFrames) {n p : Nat} (hn : n + 16 + 4095 < 2 ^ 64)
    (hheap : s.mutexes .heap_mutex = false)
    (halloc : vmmAlloc KERNEL_HEAP ((n + 16 + 4095) / 4096) KERNEL_HEAP_FLAGS
      { s with mutexes := Function.update s.mutexes .heap_mutex true } = .ok (p, s₂)) (hne : p ≠ 0)
    (hcanonical : ∀ i, i < (n + 16 + 4095) / 4096 → Canonical (pageAt p i)) :
    ∃ s₃ F, kmalloc n s = .ok (p + 16, { s₃ with
        mutexes := Function.update s₂.mutexes .heap_mutex false }) ∧
      Stores s₂ s₃ F ∧ ∀ k ∈ F, k ∉ s₂.tableFrames := by
  have hact : u64 (n + 16) = n + 16 := u64_of_lt (by omega)
  have hcount : u64 (n + 16 + 4095) / 4096 = (n + 16 + 4095) / 4096 := by
    rw [u64_of_lt hn]
  have hflags : KERNEL_HEAP_FLAGS < 4096 := by decide
  obtain ⟨q, frames, new, hback, hq, hqlt, habsent, hall⟩ := vmmAlloc_spec
    (s := { s with mutexes := Function.update s.mutexes .heap_mutex true }) htree hfresh hwindow
    (by decide) (by decide) hflags halloc
  obtain ⟨rfl, hlen⟩ := hall hne
  have hwritable : Writable s₂ p frames.length {k | k ∈ frames} :=
    hback.writable hfresh hwindow hq habsent fun i hi => hcanonical i (hlen ▸ hi)
  have hzero : byteAddr p 0 = p := byteAddr_zero hqlt
  have height : byteAddr p 8 = u64 (p + 8) := rfl
  -- the range is cleared, then the two words of the header are stored
  obtain ⟨s₃, hmemset, hwritable₃, hstores₃⟩ :=
    hwritable.store 0 (List.replicate (n + 16) 0) (by simp; omega)
  obtain ⟨s₄, hpages, hwritable₄, hstores₄⟩ :=
    hwritable₃.store 0 (toLE 8 ((n + 16 + 4095) / 4096)) (by simp; omega)
  obtain ⟨s₅, hsize, -, hstores₅⟩ := hwritable₄.store 8 (toLE 8 n) (by simp; omega)
  have hstores := (hstores₃.trans hstores₄).trans hstores₅
  rw [hzero] at hmemset hpages
  rw [height] at hsize
  have hptr : u64 (p + 16) = p + 16 := u64_of_lt (by omega)
  refine ⟨s₅, {k | k ∈ frames}, ?_, hstores, hwritable.not_table⟩
  rw [← hstores.mutexes_eq]
  simp only [kmalloc, hact, hcount]
  rw [Prog.bind_ok (acquire_free hheap), Prog.bind_ok halloc, if_neg hne, memset,
    Prog.bind_ok hmemset, storeQword, Prog.bind_ok hpages, storeQword, Prog.bind_ok hsize,
    Prog.bind_ok (run_release _ _), hptr]
  rfl

theorem kmalloc_of_alloc {s s₂ : State} (htree : s.PageTree) (hfresh : s.FreshFrames)
    (hwindow : s.WindowFrames) {n p : Nat} (hn : n + 16 + 4095 < 2 ^ 64)
    (hheap : s.mutexes .heap_mutex = false)
    (halloc : vmmAlloc KERNEL_HEAP ((n + 16 + 4095) / 4096) KERNEL_HEAP_FLAGS
      { s with mutexes := Function.update s.mutexes .heap_mutex true } = .ok (p, s₂)) (hne : p ≠ 0)
    (hcanonical : ∀ i, i < (n + 16 + 4095) / 4096 → Canonical (pageAt p i)) :
    ∃ s', kmalloc n s = .ok (p + 16, s') ∧ s'.pmm = s₂.pmm ∧
      s'.mutexes = Function.update s₂.mutexes .heap_mutex false := by
  obtain ⟨s₃, F, hrun, hstores, -⟩ :=
    kmalloc_stored htree hfresh hwindow hn hheap halloc hne hcanonical
  exact ⟨_, hrun, hstores.pmm_eq, rfl⟩

/-- With room for it behind the other blocks, `kmalloc` returns a block. -/
theorem kmalloc_returns {s : State} {live : List Block} {n k more room : Nat}
    (hready : Ready s live k ((n + 16 + 4095) / 4096 + more)
      (4 * ((n + 16 + 4095) / 4096) + room)) :
    ∃ s', kmalloc n s = .ok (heapPtr k, s') ∧ s'.mutexes = s.mutexes ∧
      Ready s' (⟨heapPtr k, n⟩ :: live) (k + (n + 16 + 4095) / 4096) more room := by
  obtain ⟨h, hheap, hvmm, hpmm, hroom, hpacked, hk⟩ := hready
  have h₁ := h.relock (Function.update s.mutexes .heap_mutex true)
  have hflags : KERNEL_HEAP_FLAGS < 4096 := by decide
  have hstart : KERNEL_HEAP = 0xFFFF810000000000 := rfl
  have hfind : vmmFind KERNEL_HEAP ((n + 16 + 4095) / 4096)
      { s with mutexes := Function.update s.mutexes .heap_mutex true }
        = some (KERNEL_HEAP + k * 4096) :=
    vmmFind_after (by decide) (by omega) (by omega) (by omega) hpacked.mapped
      fun i hi => by
        rw [pageAt_heap]
        exact hpacked.absent i (by omega)
  -- the blocks are packed, so the range is found right behind the last one
  obtain ⟨s₂, halloc, hmutexes, hroom₂⟩ := vmmAlloc_returns h₁.tree h₁.fresh h₁.window
    (by simpa using hpmm) (by simpa using hvmm) hroom (by decide) (by decide) hflags hfind
    (by omega)
  obtain ⟨s', hrun, hpmm', hmutexes'⟩ := kmalloc_of_alloc h.tree h.fresh h.window (by omega) hheap
    halloc (by omega) fun i hi => by
      unfold Canonical pageAt u64
      omega
  have hptr : KERNEL_HEAP + k * 4096 + 16 = heapPtr k := rfl
  rw [hptr] at hrun
  have hne := heapPtr_ne k
  have hinv := (kmalloc_spec h (by omega) hrun).1
  rw [if_neg hne] at hinv
  have hkept : s'.mutexes = s.mutexes := by
    rw [hmutexes', hmutexes]
    exact release_acquire hheap
  refine ⟨_, hrun, hkept, hinv, (congrFun hkept _).trans hheap,
    (congrFun hkept _).trans hvmm, (congrFun hkept _).trans hpmm, ?_, ?_, by omega⟩
  · rw [hpmm']
    exact hroom₂
  · rcases kmalloc_ok h.tree h.fresh h.window (by omega) hrun with
      ⟨hnull, -⟩ | ⟨t₁, t₂, m, p, frames', new', hnew, hp, hs'⟩
    · exact absurd hnull hne
    · obtain rfl : p = KERNEL_HEAP + k * 4096 := Nat.add_right_cancel hp.symm
      have hlen' := hnew.length_eq
      rw [hs', ← hlen']
      rw [← hlen'] at hpacked hk
      obtain ⟨hmapped, habsent⟩ := hnew.packed h.fresh hpacked (by omega)
      exact ⟨hmapped, habsent⟩

theorem Ready.grants {s : State} {live : List Block} {k pages frames : Nat}
    (h : Ready s live k pages frames) (n more room : Nat)
    (hmore : (n + 16 + 4095) / 4096 + more ≤ pages)
    (hroom : 4 * ((n + 16 + 4095) / 4096) + room ≤ frames) :
    ∃ s', kmalloc n s = .ok (heapPtr k, s') ∧ s'.mutexes = s.mutexes ∧
      Ready s' (⟨heapPtr k, n⟩ :: live) (k + (n + 16 + 4095) / 4096) more room :=
  kmalloc_returns (h.mono hmore hroom)

end Windozz.Kernel

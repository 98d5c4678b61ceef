import Windozz.Kernel.Balance
import Windozz.Kernel.Returns

set_option autoImplicit false

/-! # Reallocation

`krealloc` allocates a block of the new size, copies the old block to it and frees the old one. It
copies the old block as a whole, whatever the new size is. `Reallocates` says what it should do for a
new block of `room` bytes, and `krealloc_correct_iff` that it does exactly when the old block fits.

The call is followed through three states: `kmalloc` has granted a range of pages of its own
(`FreshRange`), `memcpy` has filled it (`CopiesSpan`), and `kfree` has released the old block
(`Unbacks`).
-/

namespace Windozz.Kernel

open Relation

/-! ## What a call should do -/

/-- The bytes behind the header in the pages that `kmalloc` grants for a size. -/
def blockRoom (m : Nat) : Nat := 4096 * kmallocPages m - 16

/-- In `krealloc old m`, called in `s`, `memcpy` copies `size` bytes to `ptr`. -/
def Copies (s : State) (old m ptr size : Nat) : Prop :=
  ∃ s₁ s₂ s₃, kmalloc m s = .ok (ptr, s₁) ∧
    loadQword (u64 (u64 (old + (2 ^ 64 - 16)) + 8)) s₁ = .ok (size, s₂) ∧
    memcpy ptr old size s₂ = .ok ((), s₃)

/-- The block `b` was moved to a block of `room` bytes at `ptr`: what fits the new size was copied,
every byte that `memcpy` wrote lies in the new block, the other live blocks have their contents, and
so has all memory but the page tables and the pages of the new block. -/
structure Reallocates (s s' : State) (live : List Block) (b : Block) (m ptr room : Nat) : Prop where
  copied : ∀ k, k < min b.size m → byteAt (byteAddr ptr k) s' = byteAt (byteAddr b.ptr k) s
  inside : ∀ size, Copies s b.ptr m ptr size → ∀ k, k < size →
    ∃ j, j < room ∧ byteAddr ptr k = byteAddr ptr j
  others : ∀ c ∈ live, c ≠ b → ∀ k, k < c.size →
    byteAt (byteAddr c.ptr k) s' = byteAt (byteAddr c.ptr k) s
  elsewhere : ∀ a, a / 4096 ∉ s'.tableFrames →
    a / 4096 ∉ spanFrames s' (ptr - 16) (kmallocPages m) → s'.mem a = s.mem a

/-! ## The parts of a call -/

/-- A call that returns a block has made its four calls. -/
theorem krealloc_ok {s s' : State} {old m ptr : Nat} (hold : old ≠ 0) (hne : ptr ≠ 0)
    (hrun : krealloc old m s = .ok (ptr, s')) : ∃ s₁ s₂ s₃ size, kmalloc m s = .ok (ptr, s₁) ∧
      loadQword (u64 (u64 (old + (2 ^ 64 - 16)) + 8)) s₁ = .ok (size, s₂) ∧
      memcpy ptr old size s₂ = .ok ((), s₃) ∧ kfree old s₃ = .ok ((), s') := by
  rw [krealloc] at hrun
  obtain ⟨new, s₁, halloc, hrun⟩ := Prog.bind_eq_ok.mp hrun
  by_cases hnew : new = 0
  · rw [if_pos hnew] at hrun
    exact absurd (Prod.mk.inj (Except.ok.inj hrun)).1.symm hne
  · rw [if_neg hnew, if_neg hold] at hrun
    obtain ⟨size, s₂, hload, hrun⟩ := Prog.bind_eq_ok.mp hrun
    obtain ⟨_, s₃, hcopy, hrun⟩ := Prog.bind_eq_ok.mp hrun
    obtain ⟨_, s₄, hfree, hrun⟩ := Prog.bind_eq_ok.mp hrun
    obtain ⟨rfl, rfl⟩ := Prod.mk.inj (Except.ok.inj hrun)
    exact ⟨s₁, s₂, s₃, size, halloc, hload, hcopy, hfree⟩

namespace Block

variable {b : Block} {s s₁ : State}

/-- The payload of a block ends in its pages. -/
theorem size_le (b : Block) : 16 + b.size ≤ b.pages * 4096 := by
  unfold pages
  omega

/-- A block in order is a span. -/
theorem Held.span (h : b.Held s) : Span s b.base b.pages := by
  refine ⟨h.range, ?_, h.distinct⟩
  rintro k ⟨i, hi, rfl⟩
  exact h.not_table i hi

theorem Held.header_addr (h : b.Held s) :
    u64 (u64 (b.ptr + (2 ^ 64 - 16)) + 8) = byteAddr b.base 8 := by
  have hge := h.ptr_ge
  unfold byteAddr u64 base
  omega

/-- The header holds the size. -/
theorem Held.load_size (h : b.Held s) {size : Nat}
    (hload : loadQword (u64 (u64 (b.ptr + (2 ^ 64 - 16)) + 8)) s = .ok (size, s₁)) :
    size = b.size ∧ s₁ = s := by
  have hlinear := h.range.linear b.pages_pos (h.not_table 0 b.pages_pos)
    (show 8 + 8 ≤ 4096 by decide)
  rw [h.header_addr] at hload
  obtain ⟨hsize, hstate⟩ := loadQword_linear hlinear hload
  exact ⟨hsize.trans h.header_size, hstate⟩

end Block

/-- Between two states a range of pages was mapped that is apart from the live blocks, and nothing
else changed but page tables. -/
structure FreshRange (s s₁ : State) (live : List Block) (p count : Nat) : Prop where
  inv : HeapInv s₁ live
  keeps : ∀ b ∈ live, b.Keeps s s₁
  span : Span s₁ p count
  count_pos : 0 < count
  p_lt : p + 16 < 2 ^ 64
  pages : ∀ b ∈ live, ∀ i j, i < b.pages → j < count → pageOf (b.page i) ≠ pageOf (pageAt p j)
  frames : ∀ b ∈ live, ∀ i, i < b.pages → frameOf s₁ (b.page i) ∉ spanFrames s₁ p count
  elsewhere : ∀ a, a / 4096 ∉ s₁.tableFrames → a / 4096 ∉ spanFrames s₁ p count → s₁.mem a = s.mem a

/-- The mutexes play no part. -/
theorem FreshRange.relock {s s₁ : State} {live : List Block} {p count : Nat}
    (h : FreshRange s s₁ live p count) (m : Mutex → Bool) :
    FreshRange s { s₁ with mutexes := m } live p count := by
  obtain ⟨hrange, hnot, hdistinct⟩ := h.span
  exact ⟨h.inv.relock m, fun b hb => (h.keeps b hb).relock m,
    ⟨⟨hrange.aligned, hrange.length_lt, hrange.outside, hrange.noLarge, hrange.present⟩, hnot,
      hdistinct⟩, h.count_pos, h.p_lt, h.pages, h.frames, h.elsewhere⟩

/-- What `kmalloc` grants, also for a size that wraps. -/
theorem kmalloc_range {s s₁ : State} {live : List Block} (h : HeapInv s live) {m ptr : Nat}
    (hrun : kmalloc m s = .ok (ptr, s₁)) (hne : ptr ≠ 0) :
    ∃ p, ptr = p + 16 ∧ FreshRange s s₁ live p (kmallocPages m) := by
  rcases kmalloc_grants h.tree h.fresh h.window hrun with
    ⟨hnull, -⟩ | ⟨t₁, t₂, mutexes, p, frames, new, hgrants, rfl, rfl⟩
  · exact absurd hnull hne
  · obtain ⟨hspan, hframes⟩ :=
      span_backed hgrants.backs h.fresh h.window hgrants.aligned hgrants.absent
    obtain ⟨hinv, hkeeps, hunused⟩ :=
      h.fresh_pages hgrants.backs hgrants.absent hgrants.stores
    have hstores : Stores t₁ t₂ (spanFrames t₁ p frames.length) := hframes ▸ hgrants.stores
    have hframes₂ : spanFrames t₂ p frames.length = {k | k ∈ frames} :=
      (hstores.spanFrames_eq hspan.not_table p frames.length).trans hframes
    have hfresh : FreshRange s t₂ live p frames.length := by
      refine ⟨hinv, hkeeps, hstores.span hspan.not_table hspan, hgrants.length_pos, ?_, ?_, ?_, ?_⟩
      · have halign := hgrants.aligned
        have hlt := hgrants.p_lt
        omega
      · intro b hb i j hi hj heq
        refine (h.held b hb).range.present i hi ?_
        rw [← (vmmGetPhysical_none.mp (hgrants.absent j hj)).2]
        exact congrArg (· &&& PAGE_PRESENT) (vmmGetPage_congr heq s)
      · intro b hb i hi
        rw [hframes₂, (hkeeps b hb).frame_eq hi]
        exact hunused b hb i hi
      · intro a htable hframe
        rw [hframes₂] at hframe
        rw [hgrants.stores.mem_eq a hframe]
        refine hgrants.backs.mem_eq a ?_
        rwa [← hstores.frames_eq hspan.not_table]
    rw [← hgrants.length_eq]
    exact ⟨p, rfl, hfresh.relock mutexes⟩

/-- What `kfree` releases leaves the bytes of other pages. -/
theorem Unbacks.byteAt {s s' : State} {base n va : Nat} (h : Unbacks s s' base n)
    (hpage : ∀ i, i < n → pageOf va ≠ pageOf (pageAt base i))
    (hframe : ∀ pa, vmmGetPhysical va s = some pa → pa / 4096 ∉ s.tableFrames) :
    byteAt va s' = byteAt va s := by
  have hphysical : vmmGetPhysical va s' = vmmGetPhysical va s := by
    rw [vmmGetPhysical, vmmGetPhysical, h.other va hpage]
  rw [Kernel.byteAt, Kernel.byteAt, hphysical]
  cases hpa : vmmGetPhysical va s with
  | none => rfl
  | some pa => exact congrArg some (h.mem_eq pa (hframe pa hpa))

/-! ## A block that fits -/

section Fits

variable {s s₁ s₃ s' : State} {live : List Block} {b : Block} {p count : Nat}
  (hfresh : FreshRange s s₁ live p count) (hb : b ∈ live) (hfits : 16 + b.size ≤ count * 4096)
  (hcopy : memcpy (p + 16) b.ptr b.size s₁ = .ok ((), s₃)) (hfree : kfree b.ptr s₃ = .ok ((), s'))

include hfresh

theorem FreshRange.apart (hb : b ∈ live) : SpansApart s₁ p count b.base b.pages := by
  rintro k hk ⟨i, hi, rfl⟩
  exact hfresh.frames b hb i hi hk

include hb hfits hcopy

/-- The old block is copied behind the header of the new one. -/
theorem move_copies : CopiesSpan s₁ s₃ p count b.base 16 16 b.size := by
  have hheld := hfresh.inv.held b hb
  have hdest : p + 16 = byteAddr p 16 := (u64_of_lt hfresh.p_lt).symm
  rw [hdest, hheld.ptr_eq] at hcopy
  exact memcpy_span hfresh.span hheld.span (hfresh.apart hb) hfits b.size_le hcopy

/-- The copy keeps the live blocks. -/
theorem move_keeps : HeapInv s₃ live ∧ ∀ c ∈ live, c.Keeps s s₃ := by
  have hcopies := move_copies hfresh hb hfits hcopy
  obtain ⟨hinv, hkeeps⟩ :=
    hfresh.inv.stores hcopies.stores hfresh.span.not_table hfresh.frames
  exact ⟨hinv, fun c hc => (hfresh.keeps c hc).trans (hkeeps c hc)⟩

include hfree

/-- The old block is released. -/
theorem move_unbacks : Unbacks s₃ s' b.base b.pages := by
  have hinv := (move_keeps hfresh hb hfits hcopy).1
  exact (kfree_ok hinv.tree (hinv.held b hb) hfree).1

/-- The new block has the bytes of the old one. -/
theorem move_copied (h : HeapInv s live) {k : Nat} (hk : k < b.size) :
    byteAt (byteAddr (p + 16) k) s' = byteAt (byteAddr b.ptr k) s := by
  have hcopies := move_copies hfresh hb hfits hcopy
  have hunbacks := move_unbacks hfresh hb hfits hcopy hfree
  have hnot := hfresh.span.not_table
  have hspan₃ := hcopies.stores.span hnot hfresh.span
  have hheld := hfresh.inv.held b hb
  have hsize := b.size_le
  have hoffset : 16 + (16 + k - 16) = 16 + k := by omega
  have haddr : byteAddr (p + 16) k = byteAddr p (16 + k) := by
    rw [byteAddr, byteAddr, Nat.add_assoc]
  have haddr' : byteAddr b.ptr k = byteAddr b.base (16 + k) := by
    rw [hheld.ptr_eq, byteAddr_add]
  have hkept : byteAt (byteAddr p (16 + k)) s' = byteAt (byteAddr p (16 + k)) s₃ := by
    refine hunbacks.byteAt (fun i hi heq => ?_) fun pa hpa => ?_
    · rw [pageOf_byteAddr hfresh.span.range.aligned] at heq
      exact hfresh.pages b hb i _ hi (by omega) heq.symm
    · rw [hspan₃.range.physical (by omega)] at hpa
      obtain rfl := Option.some.inj hpa
      exact hspan₃.not_table _ (physAt_mem (by omega))
  -- back through the release of the old block, the copy and the allocation of the new one
  calc byteAt (byteAddr (p + 16) k) s'
      = byteAt (byteAddr p (16 + k)) s₃ := by rw [haddr, hkept]
    _ = some (s₃.mem (physAt s₁ p (16 + k))) := by
      rw [hspan₃.byteAt (by omega), hcopies.stores.physAt_eq hnot]
    _ = some (s₁.mem (physAt s₁ b.base (16 + k))) := by
      rw [hcopies.bytes _ (by omega), if_pos (by omega), hoffset]
    _ = byteAt (byteAddr b.ptr k) s₁ := by rw [haddr', hheld.span.byteAt (by omega)]
    _ = byteAt (byteAddr b.ptr k) s := ((hfresh.keeps b hb).payload (h.held b hb) hk).1

/-- The other live blocks have their bytes. -/
theorem move_others (h : HeapInv s live) {c : Block} (hc : c ∈ live) (hne : c ≠ b) {k : Nat}
    (hk : k < c.size) : byteAt (byteAddr c.ptr k) s' = byteAt (byteAddr c.ptr k) s := by
  obtain ⟨hinv, hkeeps⟩ := move_keeps hfresh hb hfits hcopy
  -- `kfree` takes the block out of the list, and `c` stays in it
  obtain ⟨pre, post, rfl⟩ := List.mem_iff_append.mp hb
  have hrest : c ∈ pre ++ post := by
    rcases List.mem_append.mp hc with hc | hc
    · exact List.mem_append_left post hc
    · exact List.mem_append_right pre (List.mem_of_ne_of_mem hne hc)
  have hfreed := (kfree_spec hinv hfree).2 c hrest
  exact (((hkeeps c hc).trans hfreed).payload (h.held c hc) hk).1

/-- So has all memory but the page tables and the new block. -/
theorem move_elsewhere {a : Nat} (htable : a / 4096 ∉ s'.tableFrames)
    (hframe : a / 4096 ∉ spanFrames s' p count) : s'.mem a = s.mem a := by
  have hcopies := move_copies hfresh hb hfits hcopy
  have hunbacks := move_unbacks hfresh hb hfits hcopy hfree
  have hnot := hfresh.span.not_table
  have hframes : spanFrames s' p count = spanFrames s₁ p count := by
    rw [← hcopies.stores.spanFrames_eq hnot p count]
    have hframe_eq : ∀ i, i < count → frameOf s' (pageAt p i) = frameOf s₃ (pageAt p i) := by
      intro i hi
      rw [frameOf, hunbacks.other _ fun j hj heq => hfresh.pages b hb j i hj hi heq.symm, frameOf]
    ext k
    constructor
    · rintro ⟨i, hi, rfl⟩
      exact ⟨i, hi, hframe_eq i hi⟩
    · rintro ⟨i, hi, rfl⟩
      exact ⟨i, hi, (hframe_eq i hi).symm⟩
  rw [hframes] at hframe
  rw [hunbacks.frames_eq] at htable
  have htable₁ : a / 4096 ∉ s₁.tableFrames := by
    rwa [← hcopies.stores.frames_eq hnot]
  calc s'.mem a = s₃.mem a := hunbacks.mem_eq a htable
    _ = s₁.mem a := hcopies.stores.mem_eq a hframe
    _ = s.mem a := hfresh.elsewhere a htable₁ hframe

end Fits

/-! ## When a call does what it should -/

section Iff

variable {s s' : State} {live : List Block} (h : HeapInv s live) {b : Block} (hb : b ∈ live)
  {m ptr room : Nat} (hrun : krealloc b.ptr m s = .ok (ptr, s')) (hne : ptr ≠ 0)

include h hb hrun hne

/-- A call copies the old block as a whole. -/
theorem krealloc_copies : Copies s b.ptr m ptr b.size := by
  have hge := (h.held b hb).ptr_ge
  obtain ⟨s₁, s₂, s₃, size, halloc, hload, hcopy, -⟩ :=
    krealloc_ok (show b.ptr ≠ 0 by omega) hne hrun
  obtain ⟨p, -, hfresh⟩ := kmalloc_range h halloc hne
  obtain ⟨rfl, -⟩ := (hfresh.inv.held b hb).load_size hload
  exact ⟨s₁, s₂, s₃, halloc, hload, hcopy⟩

/-- A block that is too large is not moved to the new one. -/
theorem krealloc_fits (hmoved : Reallocates s s' live b m ptr room) : b.size ≤ room := by
  have hlt := (h.held b hb).size_lt
  by_contra hlarge
  -- the copy writes the byte at `room`, the first behind the new block
  obtain ⟨j, hj, haddr⟩ :=
    hmoved.inside b.size (krealloc_copies h hb hrun hne) room (not_le.mp hlarge)
  unfold byteAddr u64 at haddr
  omega

/-- A block that fits is moved. -/
theorem krealloc_moves (hroom : room ≤ blockRoom m) (hfits : b.size ≤ room) :
    Reallocates s s' live b m ptr room := by
  have hge := (h.held b hb).ptr_ge
  obtain ⟨s₁, s₂, s₃, size, halloc, hload, hcopy, hfree⟩ :=
    krealloc_ok (show b.ptr ≠ 0 by omega) hne hrun
  obtain ⟨p, rfl, hfresh⟩ := kmalloc_range h halloc hne
  obtain ⟨rfl, rfl⟩ := (hfresh.inv.held b hb).load_size hload
  have hpages : 16 + b.size ≤ kmallocPages m * 4096 := by
    have hpos := hfresh.count_pos
    unfold blockRoom at hroom
    omega
  refine ⟨fun k hk => ?_, ?_, fun c hc hcb k hk => ?_, fun a htable hframe => ?_⟩
  · exact move_copied hfresh hb hpages hcopy hfree h (by omega)
  -- the size that is copied is the one in the header of the old block
  · rintro size ⟨t₁, t₂, t₃, halloc', hload', -⟩ k hk
    obtain rfl := (Prod.mk.inj (Except.ok.inj (halloc.symm.trans halloc'))).2
    obtain ⟨rfl, -⟩ := (hfresh.inv.held b hb).load_size hload'
    exact ⟨k, by omega, rfl⟩
  · exact move_others hfresh hb hpages hcopy hfree h hc hcb hk
  · exact move_elsewhere hfresh hb hpages hcopy hfree htable hframe

end Iff

/-! ## A block that does not fit -/

theorem HeapInv.only {s : State} {live : List Block} (h : HeapInv s live) {b : Block}
    (hb : b ∈ live) : HeapInv s [b] := by
  refine ⟨h.tree, h.fresh, h.window, fun c hc => ?_, List.pairwise_singleton _ _⟩
  rw [List.mem_singleton.mp hc]
  exact h.held b hb

/-- Page `k` of the heap is the only gap in front of the block `c`, which `b` follows; both calls of
the allocator that a reallocation makes are possible. -/
structure Gap (s : State) (live : List Block) (k : Nat) (c b : Block) : Prop where
  inv : HeapInv s live
  heap_free : s.mutexes .heap_mutex = false
  vmm_free : s.mutexes .vmm_mutex = false
  pmm_free : s.mutexes .pmm_mutex = false
  scannable : s.pmm.Scannable
  supply : s.pmm.Supply 4
  spare : 1 < u64 (s.pmm.total_pages + (2 ^ 64 - u64 s.pmm.used_pages))
  mapped : ∀ i, i < k → vmmGetPhysical (pageAt KERNEL_HEAP i) s ≠ none
  absent : vmmGetPhysical (pageAt KERNEL_HEAP k) s = none
  bound : k + 4 < 2 ^ 32
  left_mem : c ∈ live
  left_base : c.base = KERNEL_HEAP + (k + 1) * 4096
  right_mem : b ∈ live
  right_base : b.base = KERNEL_HEAP + (k + 2) * 4096
  right_pages : b.pages = 2

namespace Gap

variable {s : State} {live : List Block} {k : Nat} {c b : Block} (h : Gap s live k c b)

include h

/-- The gap is large enough for a byte. -/
theorem kmalloc : ∃ s₁, kmalloc 1 s = .ok (heapPtr k, s₁) ∧ s₁.mutexes = s.mutexes := by
  have hinv := h.inv.relock (Function.update s.mutexes .heap_mutex true)
  have hbound := h.bound
  have hheap : KERNEL_HEAP = 0xFFFF810000000000 := rfl
  have hcount : (1 + 16 + 4095) / 4096 = 1 := rfl
  have hfind : vmmFind KERNEL_HEAP 1
      { s with mutexes := Function.update s.mutexes .heap_mutex true }
        = some (KERNEL_HEAP + k * 4096) := by
    refine vmmFind_after (by decide) (by omega) (by decide) (by decide) h.mapped fun i hi => ?_
    rw [pageAt_heap, show k + i = k by omega]
    exact h.absent
  obtain ⟨s₂, taken, halloc, hmutexes, -⟩ := vmmAlloc_takes hinv.tree hinv.fresh hinv.window
    (by simpa using h.pmm_free) (by simpa using h.vmm_free) h.scannable h.supply h.spare
    (by decide) (by decide) (show KERNEL_HEAP_FLAGS < 4096 by decide) hfind (by omega)
  obtain ⟨s₁, hrun, -, hmutexes₁⟩ := kmalloc_of_alloc h.inv.tree h.inv.fresh h.inv.window
    (n := 1) (by decide) h.heap_free halloc (by omega) fun i hi =>
      canonical_heap (by omega)
  refine ⟨s₁, hrun, ?_⟩
  rw [hmutexes₁, hmutexes]
  exact release_acquire h.heap_free

/-- The page behind the gap is the first of the next block. -/
theorem left_page : pageAt (KERNEL_HEAP + k * 4096) 1 = c.page 0 := by
  rw [Block.page, h.left_base]
  unfold pageAt u64
  omega

section Move

variable {s₁ : State} (hfresh : FreshRange s s₁ live (KERNEL_HEAP + k * 4096) 1)

include hfresh

/-- The new block and the page behind it are mapped. -/
theorem writable : Writable s₁ (KERNEL_HEAP + k * 4096) 2
    (spanFrames s₁ (KERNEL_HEAP + k * 4096) 2) := by
  have hnew := hfresh.span.range
  have hleft := hfresh.inv.held c h.left_mem
  have hpos := c.pages_pos
  have hbound := h.bound
  have hpage := h.left_page
  -- the first page is the new block, the second one belongs to the block behind the gap
  have hcases : ∀ {P : Nat → Prop}, P 0 → P 1 → ∀ i, i < 2 → P i := by
    intro P hzero hone i hi
    interval_cases i
    · exact hzero
    · exact hone
  refine ⟨⟨hnew.aligned, by decide, hcases (hnew.outside 0 (by decide)) ?_,
    hcases (hnew.noLarge 0 (by decide)) ?_, hcases (hnew.present 0 (by decide)) ?_⟩, ?_,
    fun i hi => ⟨i, hi, rfl⟩, fun i hi => canonical_heap (by omega)⟩
  · rw [hpage]
    exact hleft.range.outside 0 hpos
  · rw [hpage]
    exact hleft.range.noLarge 0 hpos
  · rw [hpage]
    exact hleft.range.present 0 hpos
  · rintro q ⟨i, hi, rfl⟩
    refine hcases (P := fun i => frameOf s₁ (pageAt (KERNEL_HEAP + k * 4096) i) ∉ s₁.tableFrames)
      ?_ ?_ i hi
    · exact hfresh.span.not_table _ ⟨0, by decide, rfl⟩
    · rw [hpage]
      exact hleft.not_table 0 hpos

/-- None of these pages belongs to the block that is moved. -/
theorem right_apart (hne : b ≠ c) {i : Nat} (hi : i < b.pages) :
    frameOf s₁ (b.page i) ∉ spanFrames s₁ (KERNEL_HEAP + k * 4096) 2 := by
  rintro ⟨j, hj, heq⟩
  interval_cases j
  · exact hfresh.frames b h.right_mem i hi ⟨0, by decide, heq⟩
  -- page 1 is the first page of `c`
  · have hsymm : Std.Symm (Block.Apart s₁) := ⟨fun _ _ => Block.Apart.symm⟩
    have hapart : Block.Apart s₁ b c := hfresh.inv.apart.forall h.right_mem h.left_mem hne
    rw [h.left_page] at heq
    exact (hapart i 0 hi c.pages_pos).2 heq

end Move

/-- **The overrun.** The block is moved to the gap. What does not fit goes to the block behind it. -/
theorem krealloc_returns (hne : b ≠ c) : ∃ s', krealloc b.ptr 1 s = .ok (heapPtr k, s') := by
  have hbound := h.bound
  obtain ⟨s₁, halloc, hmutexes⟩ := h.kmalloc
  obtain ⟨p, hp, hfresh⟩ := kmalloc_range h.inv halloc (heapPtr_ne k)
  obtain rfl : p = KERNEL_HEAP + k * 4096 := Nat.add_right_cancel hp.symm
  have hone : kmallocPages 1 = 1 := by decide
  rw [hone] at hfresh
  have hheld := hfresh.inv.held b h.right_mem
  have hsize := b.size_le
  have hpages := h.right_pages
  have hcanonical : ∀ i, i < b.pages → Canonical (b.page i) := by
    intro i hi
    rw [Block.page, h.right_base]
    exact canonical_heap (by omega)
  have hload : loadQword (u64 (u64 (b.ptr + (2 ^ 64 - 16)) + 8)) s₁ = .ok (b.size, s₁) := by
    rw [hheld.header_addr, hheld.load_header hcanonical (by decide), hheld.header_size]
  have hwritable := h.writable hfresh
  have hroom : 16 + b.size ≤ 2 * 4096 := hpages ▸ hsize
  obtain ⟨s₃, hcopy, hstores⟩ := memcpy_returns (o := 16) (q := 16) (n := b.size) hwritable
    ⟨hheld.range, hcanonical⟩ hroom hsize
  have hdest : byteAddr (KERNEL_HEAP + k * 4096) 16 = heapPtr k := u64_of_lt hfresh.p_lt
  rw [hdest, ← hheld.ptr_eq] at hcopy
  -- of the invariant only the old block is left: `c` has lost its header
  obtain ⟨hinv₃, -⟩ := (hfresh.inv.only h.right_mem).stores hstores hwritable.not_table
    fun b' hb' i hi => by
      obtain rfl := List.mem_singleton.mp hb'
      exact h.right_apart hfresh hne hi
  have hmutexes₃ : s₃.mutexes = s.mutexes := hstores.mutexes_eq.trans hmutexes
  obtain ⟨s', hfree, -⟩ := kfree_returns hinv₃.tree (hinv₃.held b (List.mem_singleton_self b))
    hcanonical ((congrFun hmutexes₃ _).trans h.vmm_free) ((congrFun hmutexes₃ _).trans h.pmm_free)
  have hold : b.ptr ≠ 0 := by
    have hge := hheld.ptr_ge
    omega
  refine ⟨s', ?_⟩
  rw [krealloc, Prog.bind_ok halloc, if_neg (heapPtr_ne k), if_neg hold, Prog.bind_ok hload,
    Prog.bind_ok hcopy, Prog.bind_ok hfree]
  rfl

end Gap

/-! ### The number of pages -/

/-- The number of pages did not change. -/
def KeepsTotal (s s' : State) : Prop := s'.pmm.total_pages = s.pmm.total_pages

theorem total_markPageUsed (addr : Nat) (p : Pmm) :
    (pmmMarkPageUsed addr p).total_pages = p.total_pages := by
  unfold pmmMarkPageUsed
  split <;> rfl

theorem total_markPageFree (addr : Nat) (p : Pmm) :
    (pmmMarkPageFree addr p).total_pages = p.total_pages := by
  unfold pmmMarkPageFree
  split <;> rfl

theorem steps_keepsTotal : Steps KeepsTotal where
  other h := congrArg Pmm.total_pages h
  trans h h' := h'.trans h
  alloc {s s' page} hrun := by
    by_cases hz : page = 0
    · subst hz
      rw [pmmAllocPage_null hrun]
      rfl
    · obtain ⟨-, -, -, -, rfl⟩ := pmmAllocPage_ok hrun hz
      exact total_markPageUsed _ _
  table hrun := by
    rcases vmmNextTable_ok hrun with ⟨-, -, rfl⟩ | ⟨-, -, -, -, -, rfl⟩
    · rfl
    · exact total_markPageUsed _ _

/-- Such a relation covers `vmm_init`. -/
theorem Steps.vmmInit {R : State → State → Prop} (h : Steps R) : Prog.Relates R vmmInit := by
  refine h.bind (Prog.relates_modify fun _ => h.other rfl) fun _ =>
    h.bind (Prog.relates_modify fun _ => h.other rfl) fun _ =>
      h.bind (h.kmalloc _) fun regions =>
        h.bind (Prog.relates_modify fun _ => h.other rfl) fun _ => ?_
  split
  · exact Prog.relates_throw _
  · exact Prog.relates_modify fun _ => h.other rfl

/-- `mm_init` leaves the number that `pmm_init` has counted. -/
theorem total_flat {n : Nat} (hn : 4096 ≤ n) (hfits : n < 2 ^ 27) {s : State}
    (hrun : mmInit (flatMap n) .start = .ok ((), s)) : s.pmm.total_pages = n := by
  rw [mmInit, Prog.bind_ok (pmmInit_flat hn (by omega) rfl)] at hrun
  exact (steps_keepsTotal.vmmInit hrun).trans (flatPmm_globals (by omega) (by omega)).2.1

/-! ### Making the gap -/

/-- The frames of a new block are not frame 0. -/
theorem kmalloc_frame_pos {s s' : State} {live : List Block} (h : HeapInv s live) {n ptr : Nat}
    (hn : n + 16 + 4095 < 2 ^ 64) (hrun : kmalloc n s = .ok (ptr, s')) (hne : ptr ≠ 0) {i : Nat}
    (hi : i < (⟨ptr, n⟩ : Block).pages) : 0 < frameOf s' ((⟨ptr, n⟩ : Block).page i) := by
  rcases kmalloc_ok h.tree h.fresh h.window hn hrun with
    ⟨hnull, -⟩ | ⟨s₁, s₂, m, p, frames, new, hnew, rfl, rfl⟩
  · exact absurd hnull hne
  · have hbase : (⟨p + 16, n⟩ : Block).page i = pageAt p i := by
      rw [Block.page, Block.base, Nat.add_sub_cancel]
    have hlt : i < frames.length := hnew.length_eq ▸ hi
    have hframe : frameOf s₂ (pageAt p i) = frames[i] :=
      (hnew.stores.frame_eq (fun k hk => hnew.backs.frame_not_table h.fresh hk) _).trans
        (frameOf_backed hnew.backs (List.getElem?_eq_getElem hlt))
    show 0 < frameOf s₂ ((⟨p + 16, n⟩ : Block).page i)
    rw [hbase, hframe]
    exact (hnew.backs.frame_free (List.getElem_mem hlt)).pos

/-- Releasing the block in front of the last two leaves a gap. -/
theorem Ready.gap {s s' : State} {rest : List Block} {a c b : Block} {k more room : Nat}
    (h : Ready s (b :: c :: a :: rest) (k + 4) more room) (hroom : 4 ≤ room)
    (hbase : a.base = KERNEL_HEAP + k * 4096) (hone : a.pages = 1)
    (hpos : 0 < frameOf s (a.page 0)) (htotal : s.pmm.total_pages + 1 < 2 ^ 64)
    (hleft : c.base = KERNEL_HEAP + (k + 1) * 4096)
    (hright : b.base = KERNEL_HEAP + (k + 2) * 4096) (htwo : b.pages = 2) {u : Unit}
    (hrun : kfree a.ptr s = .ok (u, s')) (hmutexes : s'.mutexes = s.mutexes) :
    Gap s' (b :: c :: rest) k c b := by
  -- `a` lies in front of the two other blocks, so their pages do not move
  have ha : a.Held s := h.inv.held a (by simp)
  obtain ⟨hunback, hunmapped⟩ := kfree_ok h.inv.tree ha hrun
  have hbound := h.bound
  have hpage : a.page 0 = pageAt KERNEL_HEAP k := by
    rw [Block.page, hbase, pageAt_heap, Nat.add_zero]
  have hzero : 0 < a.pages := a.pages_pos
  have hinv : HeapInv s ([b, c] ++ a :: rest) := h.inv
  refine ⟨(kfree_spec hinv hrun).1, ?_, ?_, ?_, ?_,
    hunback.supply (h.room.supply.mono hroom), ?_, fun i hi => ?_, ?_, by omega, by simp, hleft,
    by simp, hright, htwo⟩
  · rw [hmutexes]
    exact h.heap_free
  · rw [hmutexes]
    exact h.vmm_free
  · rw [hmutexes]
    exact h.pmm_free
  · refine hunback.scannable h.room.scannable fun i hi => ?_
    obtain rfl : i = 0 := by omega
    exact hpos
  · have htotal' : s'.pmm.total_pages = s.pmm.total_pages :=
      steps_keepsTotal.kfree (fun _ hrun => by
        rw [pmmFreePage_ok hrun]
        exact total_markPageFree _ _) _ hrun
    have hused := used_pages_eq (steps_inCount.kfree frees_inCount _ hrun) 0 a.pages (by
      rw [Nat.add_zero]
      exact hunback.card_usedSet ha)
    have hspare := h.room.spare
    rw [htotal']
    rw [hone, Nat.add_zero] at hused
    unfold u64 at hused ⊢
    omega
  · have hother : vmmGetPage (pageAt KERNEL_HEAP i) s' = vmmGetPage (pageAt KERNEL_HEAP i) s := by
      refine hunback.other _ fun j hj => ?_
      rw [hbase, pageAt_heap]
      exact pageOf_pageAt_ne (by decide) (by omega) (by omega) (by omega)
    rw [vmmGetPhysical, hother, ← vmmGetPhysical]
    exact h.packed.mapped i (by omega)
  · -- the page of `a` was its only one, so the gap is the page itself
    have hgone := hunmapped 0 hzero
    have houtside := ha.range.outside 0 hzero
    rw [hpage] at hgone
    rw [show pageAt a.base 0 = a.page 0 from rfl, hpage] at houtside
    exact vmmGetPhysical_none.mpr ⟨houtside, by rw [hgone]; rfl⟩

/-- After `mm_init` on a machine with 64 MiB: blocks of 1, 1 and 5000 bytes, and the first is freed. -/
theorem gap_run : ∃ s₀ s live c b, mmInit (flatMap 16384) .start = .ok ((), s₀) ∧
    ReflTransGen HeapStep (s₀, [mmioBlock s₀]) (s, live) ∧ Gap s live 705 c b ∧ b ≠ c ∧
    b.size = 5000 := by
  obtain ⟨s₀, s₁, s₂, s₃, h⟩ := three_blocks
  have htotal := total_flat (by decide) (by decide) h.init
  have hkeeps := ((kmalloc_spec h.ready₁.inv (by decide) h.second).2 ⟨heapPtr 705, 1⟩ (by simp)).trans
    ((kmalloc_spec h.ready₂.inv (by decide) h.third).2 ⟨heapPtr 705, 1⟩ (by simp))
  have hpages : (⟨heapPtr 705, 1⟩ : Block).pages = 1 := by decide
  -- `pmm_free_page` ignores frame 0, so the gap must not be backed by it
  have hpos : 0 < frameOf s₃ ((⟨heapPtr 705, 1⟩ : Block).page 0) := by
    rw [hkeeps.frame_eq (by decide)]
    exact kmalloc_frame_pos h.ready₀.inv (by decide) h.first (heapPtr_ne _) (by decide)
  have hidle : Idle s₃ ([⟨heapPtr 707, 5000⟩, ⟨heapPtr 706, 1⟩] ++ ⟨heapPtr 705, 1⟩ ::
      [mmioBlock s₀]) := h.ready₃.idle
  obtain ⟨s, hfree, hmutexes, -⟩ := hidle.frees (by decide)
  have htotal₃ : s₃.pmm.total_pages = 16384 :=
    (steps_keepsTotal.kmalloc _ h.third).trans ((steps_keepsTotal.kmalloc _ h.second).trans
      ((steps_keepsTotal.kmalloc _ h.first).trans htotal))
  have hgap := h.ready₃.gap (by decide) (by decide) hpages hpos (by rw [htotal₃]; decide) (by decide)
    (by decide) (by decide) hfree hmutexes
  have hstep : HeapStep
      (s₃, [⟨heapPtr 707, 5000⟩, ⟨heapPtr 706, 1⟩] ++ ⟨heapPtr 705, 1⟩ :: [mmioBlock s₀])
      (s, [⟨heapPtr 707, 5000⟩, ⟨heapPtr 706, 1⟩] ++ [mmioBlock s₀]) := .kfree hfree
  refine ⟨s₀, s, _, _, _, h.init, h.history.tail hstep, hgap, fun heq => ?_, rfl⟩
  exact absurd (congrArg Block.size heq) (by decide)

/-! ## The theorem -/

/-- **When `krealloc` moves a block.** A call that returns a block moves the old one to it exactly
when the old one fits: its size, and not the smaller of the two sizes, is what is copied. This is so
whether the new block is taken to be its pages or the bytes that were asked for. -/
theorem krealloc_correct_iff {s s' : State} {live : List Block} (h : HeapInv s live) {b : Block}
    (hb : b ∈ live) {m ptr : Nat} (hrun : krealloc b.ptr m s = .ok (ptr, s')) (hne : ptr ≠ 0) :
    (Reallocates s s' live b m ptr (blockRoom m) ↔ b.size ≤ blockRoom m) ∧
      (Reallocates s s' live b m ptr (min m (blockRoom m)) ↔ b.size ≤ min m (blockRoom m)) :=
  ⟨⟨krealloc_fits h hb hrun hne, krealloc_moves h hb hrun hne (le_refl _)⟩,
    ⟨krealloc_fits h hb hrun hne, krealloc_moves h hb hrun hne (min_le_right _ _)⟩⟩

/-- In that run the block of 5000 bytes is made one of 1 byte, in the gap. -/
theorem krealloc_correct_iff_gap : ∃ s s' live b, b ∈ live ∧
    krealloc b.ptr 1 s = .ok (heapPtr 705, s') ∧
    (Reallocates s s' live b 1 (heapPtr 705) (blockRoom 1) ↔ b.size ≤ blockRoom 1) ∧
    (Reallocates s s' live b 1 (heapPtr 705) (min 1 (blockRoom 1)) ↔ b.size ≤ min 1 (blockRoom 1)) := by
  obtain ⟨s₀, s, live, c, b, -, -, hgap, hne, -⟩ := gap_run
  obtain ⟨s', hrun⟩ := hgap.krealloc_returns hne
  exact ⟨s, s', live, b, hgap.right_mem, hrun,
    krealloc_correct_iff hgap.inv hgap.right_mem hrun (heapPtr_ne 705)⟩

/-- **A block that does not fit.** After `mm_init`, allocations of 1, 1 and 5000 bytes and the
release of the first, `krealloc` of the last to 1 byte returns a block of one page, and has copied
5000 bytes to it: they end in the page of the second block. -/
theorem krealloc_overruns : ∃ s₀ s s' live b, mmInit (flatMap 16384) .start = .ok ((), s₀) ∧
    ReflTransGen HeapStep (s₀, [mmioBlock s₀]) (s, live) ∧ b ∈ live ∧ b.size = 5000 ∧
    krealloc b.ptr 1 s = .ok (heapPtr 705, s') ∧
    ¬ Reallocates s s' live b 1 (heapPtr 705) (blockRoom 1) := by
  obtain ⟨s₀, s, live, c, b, hinit, hsteps, hgap, hne, hsize⟩ := gap_run
  obtain ⟨s', hrun⟩ := hgap.krealloc_returns hne
  refine ⟨s₀, s, s', live, b, hinit, hsteps, hgap.right_mem, hsize, hrun, fun hmoved => ?_⟩
  have hfits := krealloc_fits hgap.inv hgap.right_mem hrun (heapPtr_ne 705) hmoved
  have hroom : blockRoom 1 = 4080 := by decide
  omega

end Windozz.Kernel

import Windozz.Kernel.Heap

set_option autoImplicit false

/-! # Copying and releasing without a fault

That `memcpy` and `kfree` return. A copy returns when both ranges are mapped at canonical addresses
(`Readable`, `Writable`); a block is released when no mutex is held, because its tables are there and
no page has to be allocated.
-/

namespace Windozz.Kernel

open Radix

theorem canonical_heap {k i : Nat} (h : k + i < 2 ^ 32) :
    Canonical (pageAt (KERNEL_HEAP + k * 4096) i) := by
  have hheap : KERNEL_HEAP = 0xFFFF810000000000 := rfl
  unfold Canonical pageAt u64
  omega

/-! ## Copying -/

/-- A range that is mapped at canonical addresses. -/
structure Readable (s : State) (p count : Nat) : Prop where
  range : RangeMapped s p count
  canonical : ∀ i, i < count → Canonical (pageAt p i)

section Ranges

variable {s s' : State} {p count : Nat} {F : Set Nat}

theorem Readable.stores (h : Readable s p count) (hs : Stores s s' F)
    (hF : ∀ k ∈ F, k ∉ s.tableFrames) : Readable s' p count :=
  ⟨hs.range hF h.range, h.canonical⟩

/-- Bytes can be loaded anywhere in such a range. -/
theorem Readable.loadBytes (h : Readable s p count) (n : Nat) : ∀ o, o + n ≤ count * 4096 →
    ∃ bs, loadBytes (byteAddr p o) n s = .ok (bs, s) ∧ bs.length = n := by
  induction n with
  | zero => exact fun o _ => ⟨[], rfl, rfl⟩
  | succ n ih =>
      intro o hle
      have hphysical := h.range.physical (j := o) (by omega)
      have hbyte : loadByte (byteAddr p o) s = .ok (s.mem (physAt s p o), s) := by
        rw [loadByte, Prog.bind_ok (Prog.run_get _), translate_eq (h.range.noLarge_byte (by omega)),
          if_pos (canonical_byteAddr h.range.aligned h.canonical (by omega)), hphysical]
        rfl
      have hnext : u64 (byteAddr p o + 1) = byteAddr p (o + 1) := byteAddr_add p o 1
      obtain ⟨bs, hrest, hlen⟩ := ih (o + 1) (by omega)
      refine ⟨s.mem (physAt s p o) :: bs, ?_, by rw [List.length_cons, hlen]⟩
      rw [Kernel.loadBytes, Prog.bind_ok hbyte, hnext, Prog.bind_ok hrest]
      rfl

end Ranges

section Copies

variable {dest count src total : Nat} {F : Set Nat}

theorem moveUnits_returns (width n : Nat) : ∀ {s : State} {o q : Nat},
    Writable s dest count F → Readable s src total → o + n * width ≤ count * 4096 →
    q + n * width ≤ total * 4096 →
    ∃ s', moveUnits width (byteAddr dest o) (byteAddr src q) n s = .ok ((), s') ∧
      Writable s' dest count F ∧ Stores s s' F := by
  induction n with
  | zero => exact fun {s} _ _ hdest _ _ _ => ⟨s, rfl, hdest, .refl _ _⟩
  | succ n ih =>
      intro s o q hdest hsrc ho hq
      have hmul : (n + 1) * width = width + n * width := by
        rw [Nat.succ_mul, Nat.add_comm]
      rw [hmul] at ho hq
      obtain ⟨bs, hload, hlen⟩ := hsrc.loadBytes width q (by omega)
      obtain ⟨s₁, hstore, hdest₁, hstores₁⟩ := hdest.store o bs (by omega)
      obtain ⟨s₂, hrest, hdest₂, hstores₂⟩ := ih (o := o + width) (q := q + width) hdest₁
        (hsrc.stores hstores₁ hdest.not_table) (by omega) (by omega)
      have hnext : u64 (byteAddr dest o + width) = byteAddr dest (o + width) :=
        byteAddr_add dest o width
      have hnext' : u64 (byteAddr src q + width) = byteAddr src (q + width) :=
        byteAddr_add src q width
      refine ⟨s₂, ?_, hdest₂, hstores₁.trans hstores₂⟩
      rw [moveUnits, Prog.bind_ok hload, Prog.bind_ok hstore, hnext, hnext', hrest]

/-- **`memcpy`** between mapped ranges returns. -/
theorem memcpy_returns {s : State} {o q n : Nat} (hdest : Writable s dest count F)
    (hsrc : Readable s src total) (ho : o + n ≤ count * 4096) (hq : q + n ≤ total * 4096) :
    ∃ s', memcpy (byteAddr dest o) (byteAddr src q) n s = .ok ((), s') ∧ Stores s s' F := by
  obtain ⟨s₁, hwords, hdest₁, hstores₁⟩ :=
    moveUnits_returns 8 (n / 8) (o := o) (q := q) hdest hsrc (by omega) (by omega)
  obtain ⟨s₂, hbytes, -, hstores₂⟩ := moveUnits_returns 1 (n % 8) (o := o + n / 8 * 8)
    (q := q + n / 8 * 8) hdest₁ (hsrc.stores hstores₁ hdest.not_table) (by omega) (by omega)
  have hnext : u64 (byteAddr dest o + n / 8 * 8) = byteAddr dest (o + n / 8 * 8) :=
    byteAddr_add dest o _
  have hnext' : u64 (byteAddr src q + n / 8 * 8) = byteAddr src (q + n / 8 * 8) :=
    byteAddr_add src q _
  refine ⟨s₂, ?_, hstores₁.trans hstores₂⟩
  rw [memcpy, Prog.bind_ok hwords, hnext, hnext', hbytes]

end Copies

/-! ## Releasing -/

/-- The loop of `vmm_free` returns: the tables of its pages are there. -/
theorem freeLoop_returns {s : State} {virtual total : Nat} (hrange : RangeMapped s virtual total)
    (n : Nat) : ∀ {i : Nat} {s₁ : State}, i + n = total → Unbacks s s₁ virtual i →
      s₁.mutexes .pmm_mutex = false →
      ∃ s', freeLoop virtual n i s₁ = .ok ((), s') ∧ s'.mutexes = s₁.mutexes := by
  have htotal := hrange.length_lt
  induction n with
  | zero => exact fun {_ s₁} _ _ _ => ⟨s₁, rfl, rfl⟩
  | succ n ih =>
      intro i s₁ hi h hm
      have hlarge := hrange.noLarge i (by omega)
      have hpresent := hrange.present i (by omega)
      have hfree := pmmFreePage_run hm (frameOf s (pageAt virtual i) * 4096)
      obtain ⟨f, hwalk⟩ := h.walks hrange.aligned (by omega) hlarge hpresent
      have hmap := vmmMapPage_present
        (s := s₁.withPmm (pmmMarkPageFree (frameOf s (pageAt virtual i) * 4096) s₁.pmm)) hwalk 0 0
      have hstep := h.step hrange.aligned (by omega) hlarge hpresent hfree hmap
      obtain ⟨s', hrest, hmutexes⟩ := ih (by omega) hstep hm
      refine ⟨s', ?_, hmutexes⟩
      rw [freeLoop, Prog.bind_ok (Prog.run_get _), h.physical hrange (by omega)]
      simp only
      rw [Prog.bind_ok hfree, Prog.bind_ok hmap, hrest]

/-- With the mutexes free, `vmm_free` returns. -/
theorem vmmFree_returns {s : State} (htree : s.PageTree) {virtual count : Nat}
    (hrange : RangeMapped s virtual count) (hvmm : s.mutexes .vmm_mutex = false)
    (hpmm : s.mutexes .pmm_mutex = false) :
    ∃ s', vmmFree virtual count s = .ok ((), s') ∧ s'.mutexes = s.mutexes := by
  have hstart : Unbacks s { s with mutexes := Function.update s.mutexes .vmm_mutex true } virtual 0 :=
    .start htree _
  obtain ⟨s₁, hloop, hmutexes⟩ :=
    freeLoop_returns hrange count (Nat.zero_add _) hstart (by simpa using hpmm)
  refine ⟨{ s₁ with mutexes := Function.update s₁.mutexes .vmm_mutex false }, ?_, ?_⟩
  · rw [vmmFree, Prog.bind_ok (acquire_free hvmm), Prog.bind_ok hloop]
    rfl
  · rw [hmutexes]
    exact release_acquire hvmm

namespace Block

variable {b : Block} {s s₁ : State}

theorem Held.base_add (h : b.Held s) : b.base + 16 = b.ptr := Nat.sub_add_cancel h.ptr_ge

theorem Held.ptr_eq (h : b.Held s) : b.ptr = byteAddr b.base 16 := by
  rw [byteAddr, h.base_add, u64_of_lt h.ptr_lt]

/-- A word of the header is loaded. -/
theorem Held.load_header (h : b.Held s) (hcanonical : ∀ i, i < b.pages → Canonical (b.page i)) {o : Nat}
    (ho : o + 8 ≤ 4096) : loadQword (byteAddr b.base o) s
      = .ok (s.mem.qword (frameOf s (b.page 0) * 4096 + o), s) := by
  have hpos := b.pages_pos
  have hreadable : Readable s b.base b.pages := ⟨h.range, hcanonical⟩
  have hlinear := h.range.linear hpos (h.not_table 0 hpos) ho
  obtain ⟨bs, hload, -⟩ := hreadable.loadBytes 8 o (by omega)
  have hrun : loadQword (byteAddr b.base o) s = .ok (ofLE bs, s) := by
    rw [loadQword, Prog.bind_ok hload]
    rfl
  rw [hrun, (loadQword_linear hlinear hrun).1]
  rfl

end Block

/-- With the mutexes free, `kfree` returns. -/
theorem kfree_returns {s : State} {b : Block} (htree : s.PageTree) (hb : b.Held s)
    (hcanonical : ∀ i, i < b.pages → Canonical (b.page i)) (hvmm : s.mutexes .vmm_mutex = false)
    (hpmm : s.mutexes .pmm_mutex = false) :
    ∃ s', kfree b.ptr s = .ok ((), s') ∧ s'.mutexes = s.mutexes := by
  have hadd := hb.base_add
  have hlt := hb.ptr_lt
  have halign := hb.range.aligned
  have hheader : u64 (b.ptr + (2 ^ 64 - 16)) = byteAddr b.base 0 := by
    unfold byteAddr u64
    omega
  have hmask : pageMask b.ptr = b.base := by
    unfold pageMask
    omega
  obtain ⟨s', hfree, hmutexes⟩ := vmmFree_returns htree hb.range hvmm hpmm
  refine ⟨s', ?_, hmutexes⟩
  rw [kfree, hheader, hmask, Prog.bind_ok (hb.load_header hcanonical (by decide)), Nat.add_zero,
    hb.header_pages, hfree]

section Released

variable {s s' : State} {base n : Nat} (h : Unbacks s s' base n)

include h

/-- What was in supply stays so. -/
theorem Unbacks.supply {k : Nat} (hsupply : s.pmm.Supply k) : s'.pmm.Supply k := by
  obtain ⟨A, hcard, hA⟩ := hsupply
  refine ⟨A, hcard, fun q hq => ?_⟩
  obtain ⟨halign, hlt, hfree⟩ := hA q hq
  exact ⟨halign, h.highest_eq.symm ▸ hlt, (h.test_iff _).mpr (Or.inl hfree)⟩

/-- Page 0 stays in use, unless it was released. -/
theorem Unbacks.scannable (hscan : s.pmm.Scannable)
    (hpos : ∀ i, i < n → 0 < frameOf s (pageAt base i)) : s'.pmm.Scannable := by
  refine ⟨h.highest_eq ▸ hscan.highest_lt, ?_⟩
  rw [← Bool.not_eq_false]
  intro hfree
  rcases (h.test_iff 0).mp hfree with hfree | ⟨i, hi, hzero⟩
  · rw [hscan.zero_used] at hfree
    cases hfree
  · have hframe := hpos i hi
    omega

end Released

end Windozz.Kernel

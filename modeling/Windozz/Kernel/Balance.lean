import Windozz.Kernel.Boot
import Windozz.Kernel.Calls

set_option autoImplicit false

/-! # The balance of the heap

What `kmalloc` takes and `kfree` gives back. The counter `used_pages` follows the bitmap through
every call (`steps_inCount`); and the bitmap holds, over any run of calls that succeed, what it
held at the start, the page tables added since, and the frames of the live blocks (`Balanced`).
-/

namespace Windozz.Kernel

open Relation

/-! ## The counter -/

/-- The pages marked used, of those a 64-bit address can name. -/
def Pmm.usedSet (p : Pmm) : Finset Nat :=
  (Finset.range (2 ^ 52)).filter fun q => p.bitmap.test q = true

theorem mem_usedSet {p : Pmm} {q : Nat} :
    q ∈ p.usedSet ↔ q < 2 ^ 52 ∧ p.bitmap.test q = true := by
  rw [Pmm.usedSet, Finset.mem_filter, Finset.mem_range]

/-- The counter is the number of used pages and `d` more. -/
def Pmm.Counted (d : Nat) (p : Pmm) : Prop := u64 p.used_pages = u64 (d + p.usedSet.card)

theorem usedSet_markPageUsed {p : Pmm} {addr : Nat} (haddr : addr < 2 ^ 64) :
    (pmmMarkPageUsed addr p).usedSet = insert (addr / 4096) p.usedSet := by
  ext q
  rw [Finset.mem_insert, mem_usedSet, mem_usedSet, test_markPageUsed, Bool.or_eq_true,
    decide_eq_true_eq]
  constructor
  · rintro ⟨hq, htest | rfl⟩
    · exact Or.inr ⟨hq, htest⟩
    · exact Or.inl rfl
  · rintro (rfl | ⟨hq, htest⟩)
    · exact ⟨by omega, Or.inr rfl⟩
    · exact ⟨hq, Or.inl htest⟩

theorem usedSet_markPageFree (p : Pmm) (addr : Nat) :
    (pmmMarkPageFree addr p).usedSet = p.usedSet.erase (addr / 4096) := by
  ext q
  rw [Finset.mem_erase, mem_usedSet, mem_usedSet, test_markPageFree, Bool.and_eq_true,
    Bool.not_eq_true', decide_eq_false_iff_not]
  constructor
  · rintro ⟨hq, htest, hne⟩
    exact ⟨fun he => hne he.symm, hq, htest⟩
  · rintro ⟨hne, hq, htest⟩
    exact ⟨hq, htest, fun he => hne he.symm⟩

section Counted

variable {d addr : Nat} {p : Pmm} (haddr : addr < 2 ^ 64) (h : p.Counted d)

include haddr h

theorem counted_markPageUsed : (pmmMarkPageUsed addr p).Counted d := by
  by_cases htest : p.bitmap.test (addr / 4096) = true
  · rwa [pmmMarkPageUsed, if_pos htest]
  · have hnot : addr / 4096 ∉ p.usedSet := fun hin => htest (mem_usedSet.mp hin).2
    have hused : (pmmMarkPageUsed addr p).used_pages = u64 (p.used_pages + 1) := by
      rw [pmmMarkPageUsed, if_neg htest]
    rw [Pmm.Counted, usedSet_markPageUsed haddr, Finset.card_insert_of_notMem hnot, hused]
    rw [Pmm.Counted] at h
    unfold u64 at h ⊢
    omega

theorem counted_markPageFree : (pmmMarkPageFree addr p).Counted d := by
  by_cases htest : p.bitmap.test (addr / 4096) = false
  · rwa [pmmMarkPageFree, if_pos htest]
  · have hin : addr / 4096 ∈ p.usedSet :=
      mem_usedSet.mpr ⟨by omega, Bool.not_eq_false _ ▸ htest⟩
    have hpos := Finset.card_pos.mpr ⟨_, hin⟩
    have hused : (pmmMarkPageFree addr p).used_pages = u64 (p.used_pages + (2 ^ 64 - 1)) := by
      rw [pmmMarkPageFree, if_neg htest]
    rw [Pmm.Counted, usedSet_markPageFree, Finset.card_erase_of_mem hin, hused]
    rw [Pmm.Counted] at h
    unfold u64 at h ⊢
    omega

end Counted

/-- The counter keeps its distance from the number of used pages. -/
def InCount (s s' : State) : Prop := ∀ d, s.pmm.Counted d → s'.pmm.Counted d

/-- **The counter follows the bitmap.** -/
theorem steps_inCount : Steps InCount where
  other h d hd := h ▸ hd
  trans h h' d hd := h' d (h d hd)
  alloc {s s' page} hrun d hd := by
    by_cases hz : page = 0
    · subst hz
      rw [pmmAllocPage_null hrun]
      exact hd
    · obtain ⟨-, -, hlt, -, rfl⟩ := pmmAllocPage_ok hrun hz
      exact counted_markPageUsed hlt hd
  table hrun d hd := by
    rcases vmmNextTable_ok hrun with ⟨-, -, rfl⟩ | ⟨-, -, hlt, -, -, rfl⟩
    · exact hd
    · exact counted_markPageUsed (by omega) hd

theorem frees_inCount : Frees InCount := by
  intro s s' page hpage hrun d hd
  rw [pmmFreePage_ok hrun]
  exact counted_markPageFree hpage hd

theorem exists_counted (p : Pmm) : ∃ d, p.Counted d := by
  have hcard : p.usedSet.card ≤ 2 ^ 52 :=
    (Finset.card_le_card (Finset.filter_subset _ _)).trans_eq (Finset.card_range _)
  refine ⟨p.used_pages + (2 ^ 64 - p.usedSet.card), ?_⟩
  rw [Pmm.Counted]
  unfold u64
  omega

/-- The counter changes by as much as the number of used pages. -/
theorem used_pages_eq {p p' : Pmm} (hcounted : ∀ d, p.Counted d → p'.Counted d) (taken given : Nat)
    (hcard : p'.usedSet.card + given = p.usedSet.card + taken) :
    u64 (p'.used_pages + given) = u64 (p.used_pages + taken) := by
  obtain ⟨d, hd⟩ := exists_counted p
  have hd' := hcounted d hd
  rw [Pmm.Counted] at hd hd'
  unfold u64 at *
  omega

/-! ## What a block takes -/

namespace Obtains

variable {s s₁ s₂ : State} {n p : Nat} {frames : List Nat} {new : Finset Nat}
  (h : Obtains s s₁ s₂ n p frames new)

include h

theorem test_eq (q : Nat) :
    s₂.pmm.bitmap.test q = true ↔ s.pmm.bitmap.test q = true ∨ q ∈ new ∨ q ∈ frames := by
  rw [h.stores.pmm_eq, h.backs.takes.test_eq, Bool.or_eq_true, decide_eq_true_eq,
    Finset.mem_union, List.mem_toFinset]

/-- The bitmap gains the new tables and the frames of the block. -/
theorem card_usedSet (hwindow : s.WindowFrames) :
    s₂.pmm.usedSet.card = s.pmm.usedSet.card + (new.card + frames.length) := by
  have hset : s₂.pmm.usedSet = s.pmm.usedSet ∪ (new ∪ frames.toFinset) := by
    ext q
    rw [Finset.mem_union, Finset.mem_union, mem_usedSet, mem_usedSet, h.test_eq,
      List.mem_toFinset]
    constructor
    · rintro ⟨hq, htest | hnew⟩
      · exact Or.inl ⟨hq, htest⟩
      · exact Or.inr hnew
    · rintro (⟨hq, htest⟩ | hnew)
      · exact ⟨hq, Or.inl htest⟩
      · have hlt := hwindow q (h.backs.takes.free q (by simpa using hnew))
        exact ⟨by omega, Or.inr hnew⟩
  have hdisjoint : Disjoint s.pmm.usedSet (new ∪ frames.toFinset) := by
    refine Finset.disjoint_right.mpr fun q hq hin => ?_
    have hfree := (h.backs.takes.free q hq).unmarked
    rw [(mem_usedSet.mp hin).2] at hfree
    cases hfree
  have hdisjoint' : Disjoint new frames.toFinset :=
    Finset.disjoint_right.mpr fun k hk => h.backs.disjoint k (List.mem_toFinset.mp hk)
  rw [hset, Finset.card_union_of_disjoint hdisjoint, Finset.card_union_of_disjoint hdisjoint',
    List.toFinset_card_of_nodup h.backs.nodup]

variable (hfresh : s.FreshFrames)

include hfresh

theorem tableFrames_eq : s₂.tableFrames = s.tableFrames ∪ new :=
  (h.stores.frames_eq fun _ hk => h.backs.frame_not_table hfresh hk).trans h.backs.frames_eq

/-- The frames of the block. -/
theorem mem_frames (q : Nat) : q ∈ frames ↔
    ∃ i, i < (⟨p + 16, n⟩ : Block).pages ∧ q = frameOf s₂ ((⟨p + 16, n⟩ : Block).page i) := by
  have hpages : (⟨p + 16, n⟩ : Block).pages = frames.length := h.length_eq.symm
  have hframe : ∀ i (hi : i < frames.length),
      frameOf s₂ ((⟨p + 16, n⟩ : Block).page i) = frames[i] := fun i hi =>
    (h.stores.frame_eq (fun _ hk => h.backs.frame_not_table hfresh hk) _).trans
      (frameOf_backed h.backs (List.getElem?_eq_getElem hi))
  rw [hpages, List.mem_iff_getElem]
  constructor
  · rintro ⟨i, hi, rfl⟩
    exact ⟨i, hi, (hframe i hi).symm⟩
  · rintro ⟨i, hi, rfl⟩
    exact ⟨i, hi, (hframe i hi).symm⟩

/-- Pages outside the block are left alone. -/
theorem other {w : Nat} (hw : ∀ i, i < (⟨p + 16, n⟩ : Block).pages →
    pageOf w ≠ pageOf ((⟨p + 16, n⟩ : Block).page i)) : vmmGetPage w s₂ = vmmGetPage w s := by
  refine (h.stores.getPage_eq (fun _ hk => h.backs.frame_not_table hfresh hk) w).trans
    (h.backs.other w fun i hi => ?_)
  exact hw i (lt_of_lt_of_eq hi h.length_eq)

end Obtains

/-- What `kfree` gives back leaves the bitmap. -/
theorem Unbacks.card_usedSet {s s' : State} {b : Block} (h : Unbacks s s' b.base b.pages)
    (hb : b.Held s) : s'.pmm.usedSet.card + b.pages = s.pmm.usedSet.card := by
  have himage : ((Finset.range b.pages).image fun i => frameOf s (b.page i)).card = b.pages := by
    rw [Finset.card_image_of_injOn, Finset.card_range]
    intro i hi j hj heq
    exact hb.distinct i j (by simpa using hi) (by simpa using hj) heq
  have hsub : ((Finset.range b.pages).image fun i => frameOf s (b.page i)) ⊆ s.pmm.usedSet := by
    intro q hq
    obtain ⟨i, hi, rfl⟩ := Finset.mem_image.mp hq
    have hi := Finset.mem_range.mp hi
    have hlt := hb.window i hi
    exact mem_usedSet.mpr ⟨by omega, hb.used i hi⟩
  have hset : s'.pmm.usedSet
      = s.pmm.usedSet \ (Finset.range b.pages).image fun i => frameOf s (b.page i) := by
    ext q
    rw [Finset.mem_sdiff, mem_usedSet, mem_usedSet, ← Bool.not_eq_false, h.test_iff, not_or,
      Bool.not_eq_false, and_assoc, Finset.mem_image]
    simp only [Finset.mem_range, Block.page, eq_comm]
  have hcard := Finset.card_sdiff_add_card_eq_card hsub
  rwa [himage, ← hset] at hcard

/-! ## The invariant of a run -/

/-- A call on the heap that does not fail, with the live blocks. -/
inductive HeapCall : State × List Block → State × List Block → Prop where
  | kmalloc {s s' : State} {live : List Block} {n ptr : Nat} (hn : n + 16 + 4095 < 2 ^ 64)
      (hptr : ptr ≠ 0) (hrun : kmalloc n s = .ok (ptr, s')) :
      HeapCall (s, live) (s', ⟨ptr, n⟩ :: live)
  | kfree {s s' : State} {pre post : List Block} {b : Block}
      (hrun : kfree b.ptr s = .ok ((), s')) : HeapCall (s, pre ++ b :: post) (s', pre ++ post)

/-- The frame belongs to a live block. -/
def HoldsFrame (s : State) (live : List Block) (q : Nat) : Prop :=
  ∃ b ∈ live, ∃ i, i < b.pages ∧ q = frameOf s (b.page i)

/-- The address lies in a live block. -/
def OnBlock (live : List Block) (w : Nat) : Prop :=
  ∃ b ∈ live, ∃ i, i < b.pages ∧ pageOf w = pageOf (b.page i)

/-- The address is not mapped. -/
def Unmapped (w : Nat) (s : State) : Prop := vmmGetPage w s &&& PAGE_PRESENT = 0

/-- Since the state `s₁` the calls took the tables `new` and what the live blocks hold, and
nothing else. -/
structure Balanced (s₁ s : State) (live : List Block) (new : Finset Nat) : Prop where
  inv : HeapInv s live
  frames_eq : s.tableFrames = s₁.tableFrames ∪ new
  new_not_table : ∀ q ∈ new, q ∉ s₁.tableFrames
  used_eq : u64 s.pmm.used_pages
    = u64 (s₁.pmm.used_pages + (live.map Block.pages).sum + new.card)
  test_iff : ∀ q, s.pmm.bitmap.test q = true ↔
    s₁.pmm.bitmap.test q = true ∨ q ∈ new ∨ HoldsFrame s live q
  taken : ∀ q, HoldsFrame s live q → s₁.pmm.bitmap.test q = false
  absent : ∀ w, OnBlock live w → Unmapped w s₁
  mapping : ∀ w, ¬ OnBlock live w →
    Unmapped w s ∧ Unmapped w s₁ ∨ vmmGetPage w s = vmmGetPage w s₁

theorem holdsFrame_cons {s : State} (pre post : List Block) (b : Block) {q : Nat} :
    HoldsFrame s (pre ++ b :: post) q ↔
      (∃ i, i < b.pages ∧ q = frameOf s (b.page i)) ∨ HoldsFrame s (pre ++ post) q := by
  simp only [HoldsFrame, List.mem_append, List.mem_cons]
  constructor
  · rintro ⟨c, hc | rfl | hc, hq⟩
    · exact Or.inr ⟨c, Or.inl hc, hq⟩
    · exact Or.inl hq
    · exact Or.inr ⟨c, Or.inr hc, hq⟩
  · rintro (hq | ⟨c, hc | hc, hq⟩)
    · exact ⟨b, Or.inr (Or.inl rfl), hq⟩
    · exact ⟨c, Or.inl hc, hq⟩
    · exact ⟨c, Or.inr (Or.inr hc), hq⟩

theorem onBlock_cons (pre post : List Block) (b : Block) {w : Nat} :
    OnBlock (pre ++ b :: post) w ↔
      (∃ i, i < b.pages ∧ pageOf w = pageOf (b.page i)) ∨ OnBlock (pre ++ post) w := by
  simp only [OnBlock, List.mem_append, List.mem_cons]
  constructor
  · rintro ⟨c, hc | rfl | hc, hw⟩
    · exact Or.inr ⟨c, Or.inl hc, hw⟩
    · exact Or.inl hw
    · exact Or.inr ⟨c, Or.inr hc, hw⟩
  · rintro (hw | ⟨c, hc | hc, hw⟩)
    · exact ⟨b, Or.inr (Or.inl rfl), hw⟩
    · exact ⟨c, Or.inl hc, hw⟩
    · exact ⟨c, Or.inr (Or.inr hc), hw⟩

/-- Blocks that are kept hold the same frames. -/
theorem holdsFrame_keeps {s s' : State} {live : List Block} (h : ∀ b ∈ live, b.Keeps s s')
    {q : Nat} : HoldsFrame s' live q ↔ HoldsFrame s live q := by
  constructor
  · rintro ⟨b, hb, i, hi, rfl⟩
    exact ⟨b, hb, i, hi, (h b hb).frame_eq hi⟩
  · rintro ⟨b, hb, i, hi, rfl⟩
    exact ⟨b, hb, i, hi, ((h b hb).frame_eq hi).symm⟩

theorem unmapped_congr {v w : Nat} {s : State} (h : pageOf v = pageOf w) :
    Unmapped v s ↔ Unmapped w s := by
  rw [Unmapped, Unmapped, vmmGetPage_congr h]

namespace Balanced

variable {s₁ s s' : State} {live : List Block} {new : Finset Nat}

theorem start (h : HeapInv s []) : Balanced s s [] ∅ :=
  ⟨h, by simp, by simp, by simp, by simp [HoldsFrame], by simp [HoldsFrame], by simp [OnBlock],
    fun _ _ => Or.inr rfl⟩

theorem relock (h : Balanced s₁ s live new) (m : Mutex → Bool) :
    Balanced s₁ { s with mutexes := m } live new :=
  ⟨h.inv.relock m, h.frames_eq, h.new_not_table, h.used_eq, h.test_iff, h.taken, h.absent,
    h.mapping⟩

/-- A live block is mapped. -/
theorem mapped (h : Balanced s₁ s live new) {w : Nat} (hw : OnBlock live w) : ¬ Unmapped w s := by
  obtain ⟨b, hb, i, hi, hpage⟩ := hw
  rw [unmapped_congr hpage]
  exact (h.inv.held b hb).range.present i hi

/-- What is not mapped was not mapped at the start. -/
theorem unmapped_start (h : Balanced s₁ s live new) {w : Nat} (hw : Unmapped w s) :
    Unmapped w s₁ := by
  rcases h.mapping w fun hon => h.mapped hon hw with ⟨-, hstart⟩ | heq
  · exact hstart
  · rwa [Unmapped, ← heq]

/-- What is free was free at the start. -/
theorem free_start (h : Balanced s₁ s live new) {q : Nat} (hq : s.pmm.bitmap.test q = false) :
    s₁.pmm.bitmap.test q = false := by
  rw [← Bool.not_eq_true] at hq ⊢
  exact fun hstart => hq ((h.test_iff q).mpr (Or.inl hstart))

/-- The new tables hold no data. -/
theorem new_disjoint (h : Balanced s₁ s live new) {q : Nat} (hq : HoldsFrame s live q) :
    q ∉ new := by
  obtain ⟨b, hb, i, hi, rfl⟩ := hq
  intro hin
  refine (h.inv.held b hb).not_table i hi ?_
  rw [h.frames_eq]
  exact Or.inr hin

/-- **A block is allocated.** -/
theorem obtains (h : Balanced s₁ s live new) {sₐ : State} {n p : Nat} {frames : List Nat}
    {new' : Finset Nat} (hn : n + 16 + 4095 < 2 ^ 64) (hnew : Obtains s sₐ s' n p frames new')
    (hcounted : InCount s s') :
    Balanced s₁ s' (⟨p + 16, n⟩ :: live) (new ∪ new') := by
  have hfresh := h.inv.fresh
  obtain ⟨hinv, hkeeps⟩ := h.inv.fresh_block hnew.backs hnew.aligned hnew.p_lt hnew.absent hn
    hnew.length_eq hnew.stores hnew.header_pages hnew.header_size
  have hholds : ∀ q, HoldsFrame s' (⟨p + 16, n⟩ :: live) q ↔ q ∈ frames ∨ HoldsFrame s live q := by
    intro q
    rw [← holdsFrame_keeps hkeeps, hnew.mem_frames hfresh]
    exact holdsFrame_cons [] live _
  have hfree : ∀ q, q ∈ new' ∨ q ∈ frames → s.pmm.Free q := fun q hq =>
    hnew.backs.takes.free q (by simpa using hq)
  have hfree₁ : ∀ q, q ∈ new' ∨ q ∈ frames → s₁.pmm.bitmap.test q = false := fun q hq =>
    h.free_start (hfree q hq).unmarked
  -- a table of this call was free, one of an earlier call is linked
  have hdisjoint : Disjoint new new' := by
    refine Finset.disjoint_right.mpr fun q hq hin => hfresh q (hfree q (Or.inl hq)) ?_
    rw [h.frames_eq]
    exact Or.inr hin
  refine ⟨hinv, ?_, fun q hq => ?_, ?_, fun q => ?_, fun q hq => ?_, fun w hw => ?_,
    fun w hw => ?_⟩
  · rw [hnew.tableFrames_eq hfresh, h.frames_eq, Finset.coe_union, Set.union_assoc]
  · rcases Finset.mem_union.mp hq with hq | hq
    · exact h.new_not_table q hq
    · refine fun hin => hfresh q (hfree q (Or.inl hq)) ?_
      rw [h.frames_eq]
      exact Or.inl hin
  · have hused := used_pages_eq hcounted (new'.card + frames.length) 0
      (by rw [Nat.add_zero, hnew.card_usedSet h.inv.window])
    have hpages : (⟨p + 16, n⟩ : Block).pages = frames.length := hnew.length_eq.symm
    have hstart := h.used_eq
    rw [List.map_cons, List.sum_cons, hpages, Finset.card_union_of_disjoint hdisjoint]
    unfold u64 at *
    omega
  · rw [hnew.test_eq, h.test_iff, hholds, Finset.mem_union]
    tauto
  · rcases (hholds q).mp hq with hq | hq
    · exact hfree₁ q (Or.inr hq)
    · exact h.taken q hq
  · rcases (onBlock_cons [] live _).mp hw with ⟨i, hi, hpage⟩ | hw
    · refine h.unmapped_start ((unmapped_congr hpage).mpr ?_)
      exact (vmmGetPhysical_none.mp (hnew.absent i (lt_of_lt_of_eq hi hnew.length_eq.symm))).2
    · exact h.absent w hw
  · obtain ⟨hnot, hlive⟩ := not_or.mp fun hin => hw ((onBlock_cons [] live _).mpr hin)
    have hother := hnew.other hfresh fun i hi hpage => hnot ⟨i, hi, hpage⟩
    rw [Unmapped, hother]
    exact h.mapping w hlive

/-- **A block is released.** -/
theorem unbacks {pre post : List Block} {b : Block} (h : Balanced s₁ s (pre ++ b :: post) new)
    (hunback : Unbacks s s' b.base b.pages)
    (hgone : ∀ i, i < b.pages → vmmGetPage (b.page i) s' = 0)
    (hcounted : InCount s s') :
    Balanced s₁ s' (pre ++ post) new := by
  have hb : b.Held s := h.inv.held b (by simp)
  obtain ⟨hinv, hkeeps⟩ := h.inv.unbacks hunback
  have htest : ∀ q, s'.pmm.bitmap.test q = true ↔
      s.pmm.bitmap.test q = true ∧ ¬ ∃ i, i < b.pages ∧ q = frameOf s (b.page i) := by
    intro q
    rw [← Bool.not_eq_false, hunback.test_iff, not_or, Bool.not_eq_false]
    exact Iff.rfl
  -- frames of distinct live blocks are apart, so what is freed is held by no other block
  have hown : ∀ q, (∃ i, i < b.pages ∧ q = frameOf s (b.page i)) → ¬ HoldsFrame s (pre ++ post) q := by
    rintro q ⟨i, hi, rfl⟩ ⟨c, hc, j, hj, heq⟩
    exact (h.inv.apart_rest hc i j hi hj).2 heq
  refine ⟨hinv, hunback.frames_eq.trans h.frames_eq, h.new_not_table, ?_, fun q => ?_,
    fun q hq => ?_, fun w hw => ?_, fun w hw => ?_⟩
  · have hused := used_pages_eq hcounted 0 b.pages
      (by rw [Nat.add_zero, hunback.card_usedSet hb])
    have hstart := h.used_eq
    rw [List.map_append, List.map_cons, List.sum_append, List.sum_cons] at hstart
    rw [List.map_append, List.sum_append]
    unfold u64 at *
    omega
  · -- what is freed was unmarked at the start and is no page table
    have hmine : (∃ i, i < b.pages ∧ q = frameOf s (b.page i)) →
        s₁.pmm.bitmap.test q ≠ true ∧ q ∉ new := fun hq => by
      have hholds : HoldsFrame s (pre ++ b :: post) q := (holdsFrame_cons pre post b).mpr (Or.inl hq)
      rw [h.taken q hholds]
      exact ⟨Bool.false_ne_true, h.new_disjoint hholds⟩
    rw [htest, h.test_iff, holdsFrame_cons, holdsFrame_keeps hkeeps]
    constructor
    · rintro ⟨hstart | hnew | hfreed | hlive, hnot⟩
      · exact Or.inl hstart
      · exact Or.inr (Or.inl hnew)
      · exact absurd hfreed hnot
      · exact Or.inr (Or.inr hlive)
    · rintro (hstart | hnew | hlive)
      · exact ⟨Or.inl hstart, fun hfreed => (hmine hfreed).1 hstart⟩
      · exact ⟨Or.inr (Or.inl hnew), fun hfreed => (hmine hfreed).2 hnew⟩
      · exact ⟨Or.inr (Or.inr (Or.inr hlive)), fun hfreed => hown q hfreed hlive⟩
  · exact h.taken q ((holdsFrame_cons pre post b).mpr (Or.inr ((holdsFrame_keeps hkeeps).mp hq)))
  · exact h.absent w ((onBlock_cons pre post b).mpr (Or.inr hw))
  · by_cases hmine : ∃ i, i < b.pages ∧ pageOf w = pageOf (b.page i)
    · refine Or.inl ⟨?_, h.absent w ((onBlock_cons pre post b).mpr (Or.inl hmine))⟩
      obtain ⟨i, hi, hpage⟩ := hmine
      rw [unmapped_congr hpage, Unmapped, hgone i hi]
      rfl
    · have hother : vmmGetPage w s' = vmmGetPage w s :=
        hunback.other w fun i hi hpage => hmine ⟨i, hi, hpage⟩
      rw [Unmapped, hother]
      exact h.mapping w fun hon => ((onBlock_cons pre post b).mp hon).elim hmine hw

/-- One call. -/
theorem step {live' : List Block} (h : Balanced s₁ s live new)
    (hstep : HeapCall (s, live) (s', live')) : ∃ new', Balanced s₁ s' live' new' := by
  cases hstep with
  | kmalloc hn hptr hrun =>
      have hcounted : InCount s s' := steps_inCount.kmalloc _ hrun
      rcases kmalloc_ok h.inv.tree h.inv.fresh h.inv.window hn hrun with
        ⟨rfl, -⟩ | ⟨sₐ, sᵦ, m, p, frames, new', hnew, rfl, rfl⟩
      · exact absurd rfl hptr
      · exact ⟨new ∪ new', (h.obtains hn hnew hcounted).relock m⟩
  | kfree hrun =>
      obtain ⟨hunback, hgone⟩ := kfree_ok h.inv.tree (h.inv.held _ (by simp)) hrun
      exact ⟨new, h.unbacks hunback hgone (steps_inCount.kfree frees_inCount _ hrun)⟩

/-- A run of calls. -/
theorem run {c c' : State × List Block} (h : Balanced s₁ c.1 c.2 new)
    (hrun : ReflTransGen HeapCall c c') : ∃ new', Balanced s₁ c'.1 c'.2 new' := by
  induction hrun with
  | refl => exact ⟨new, h⟩
  | tail _ hstep ih =>
      obtain ⟨new', h'⟩ := ih
      exact h'.step hstep

end Balanced

/-! ## Runs -/

/-- Since the state `s₁` only page tables were added: every other page is marked as it was, and
every address is mapped as it was. -/
structure Restored (s₁ s : State) : Prop where
  used_iff : ∀ q, s.pmm.bitmap.test q = true ↔
    s₁.pmm.bitmap.test q = true ∨ q ∈ s.tableFrames \ s₁.tableFrames
  physical_eq : ∀ w, vmmGetPhysical w s = vmmGetPhysical w s₁

namespace Balanced

variable {s₁ s : State} {live : List Block} {new : Finset Nat}

theorem new_eq (h : Balanced s₁ s live new) : (new : Set Nat) = s.tableFrames \ s₁.tableFrames := by
  ext q
  rw [h.frames_eq, Set.mem_sdiff, Set.mem_union]
  constructor
  · exact fun hq => ⟨Or.inr hq, h.new_not_table q hq⟩
  · rintro ⟨hq | hq, hnot⟩
    · exact absurd hq hnot
    · exact hq

/-- When all blocks are released, all that is left are the tables. -/
theorem restored (h : Balanced s₁ s [] new) : Restored s₁ s := by
  have hnone : ∀ w, ¬ OnBlock [] w := fun w ⟨_, hb, _⟩ => List.not_mem_nil hb
  refine ⟨fun q => ?_, fun w => ?_⟩
  · have hempty : ¬ HoldsFrame s [] q := fun ⟨_, hb, _⟩ => List.not_mem_nil hb
    rw [h.test_iff, ← h.new_eq, Finset.mem_coe]
    simp only [hempty, or_false]
  · rcases h.mapping w (hnone w) with ⟨hw, hstart⟩ | heq
    · by_cases hin : InWindow w
      · rw [vmmGetPhysical, vmmGetPhysical, if_pos hin, if_pos hin]
      · rw [vmmGetPhysical_none.mpr ⟨hin, hw⟩, vmmGetPhysical_none.mpr ⟨hin, hstart⟩]
    · rw [vmmGetPhysical, vmmGetPhysical, heq]

end Balanced

/-- **The balance of the heap.** In every state that a run of calls of `kmalloc` and `kfree`
reaches without a failure, `used_pages` has grown by the pages of the live blocks and the page
tables added. When all blocks are freed, only the page tables are left: every page of every block
of the run is unmapped, and its frame is free unless it has become a page table. As in `heap_run`,
the frames that are free after `pmm_init` lie in the window (`WindowFrames`). -/
theorem heap_balance {map : E820Map} {boot s₀ s₁ s : State} {live₁ live : List Block}
    (hboot : BootTables boot)
    (hwindow : ∀ s₁, pmmInit map boot = .ok ((), s₁) → s₁.WindowFrames)
    (hinit : mmInit map boot = .ok ((), s₀))
    (hpre : ReflTransGen HeapStep (s₀, [mmioBlock s₀]) (s₁, live₁))
    (hrun : ReflTransGen HeapCall (s₁, []) (s, live)) :
    (∃ new : Finset Nat, (new : Set Nat) = s.tableFrames \ s₁.tableFrames ∧
      u64 s.pmm.used_pages
        = u64 (s₁.pmm.used_pages + (live.map Block.pages).sum + new.card)) ∧
      (live = [] → Restored s₁ s ∧ ∀ s₂ live₂, ReflTransGen HeapCall (s₁, []) (s₂, live₂) →
        ReflTransGen HeapCall (s₂, live₂) (s, []) → ∀ b ∈ live₂, ∀ i, i < b.pages →
          vmmGetPhysical (b.page i) s = none ∧
            (frameOf s₂ (b.page i) ∉ s.tableFrames →
              s.pmm.bitmap.test (frameOf s₂ (b.page i)) = false)) := by
  have hinv : HeapInv s₁ live₁ := (mmInit_spec hboot hwindow hinit).run hpre
  -- the account starts at `s₁` with no block, whatever is live there
  have hstart : Balanced s₁ s₁ [] ∅ :=
    .start ⟨hinv.tree, hinv.fresh, hinv.window, fun b hb => absurd hb List.not_mem_nil, .nil⟩
  obtain ⟨new, h⟩ := hstart.run hrun
  refine ⟨⟨new, h.new_eq, h.used_eq⟩, ?_⟩
  rintro rfl
  have hrestored := h.restored
  refine ⟨hrestored, fun s₂ live₂ hbefore _ b hb i hi => ?_⟩
  obtain ⟨new₂, h₂⟩ := hstart.run hbefore
  constructor
  · rw [hrestored.physical_eq]
    exact vmmGetPhysical_none.mpr
      ⟨(h₂.inv.held b hb).range.outside i hi, h₂.absent _ ⟨b, hb, i, hi, rfl⟩⟩
  · intro hnot
    rw [← Bool.not_eq_true, hrestored.used_iff, h₂.taken _ ⟨b, hb, i, hi, rfl⟩]
    rintro (hstart | hin)
    · cases hstart
    · exact hnot hin.1

/-- With a block of one byte live, blocks of 1 and 5000 bytes are allocated and freed in the same
order: `used_pages` counts their three pages, and in the end nothing is left of them. -/
theorem heap_balance_freed : ∃ s₁ s₂ s₃ : State, ∃ live,
    live = [(⟨heapPtr 707, 5000⟩ : Block), ⟨heapPtr 706, 1⟩] ∧
    ReflTransGen HeapCall (s₁, []) (s₂, live) ∧ ReflTransGen HeapCall (s₂, live) (s₃, []) ∧
    (∃ new : Finset Nat, (new : Set Nat) = s₂.tableFrames \ s₁.tableFrames ∧
      u64 s₂.pmm.used_pages = u64 (s₁.pmm.used_pages + 3 + new.card)) ∧
    Restored s₁ s₃ ∧ ∀ b ∈ live, ∀ i, i < b.pages → vmmGetPhysical (b.page i) s₃ = none ∧
      (frameOf s₂ (b.page i) ∉ s₃.tableFrames →
        s₃.pmm.bitmap.test (frameOf s₂ (b.page i)) = false) := by
  obtain ⟨s₀, s₁, s₁', s₂, h⟩ := three_blocks
  have hidle : Idle s₂ ([⟨heapPtr 707, 5000⟩] ++ ⟨heapPtr 706, 1⟩ ::
      [⟨heapPtr 705, 1⟩, mmioBlock s₀]) := h.ready₃.idle
  obtain ⟨s₂', hfree, -, hidle₂⟩ := hidle.frees (by decide)
  have hidle' : Idle s₂' ([] ++ ⟨heapPtr 707, 5000⟩ :: [⟨heapPtr 705, 1⟩, mmioBlock s₀]) := hidle₂
  obtain ⟨s₃, hfree', -, -⟩ := hidle'.frees (by decide)
  have hwindow : ∀ s₁, pmmInit (flatMap 16384) .start = .ok ((), s₁) → s₁.WindowFrames :=
    fun _ hrun => window_flat (by decide) (by decide) hrun
  have hpre : ReflTransGen HeapStep (s₀, [mmioBlock s₀]) (s₁, [⟨heapPtr 705, 1⟩, mmioBlock s₀]) :=
    .single (heapStep_kmalloc (by decide) (heapPtr_ne _) h.first)
  have hsmall : HeapCall (s₁, []) (s₁', [⟨heapPtr 706, 1⟩]) :=
    .kmalloc (by decide) (heapPtr_ne _) h.second
  have hlarge : HeapCall (s₁', [⟨heapPtr 706, 1⟩]) (s₂, [⟨heapPtr 707, 5000⟩, ⟨heapPtr 706, 1⟩]) :=
    .kmalloc (by decide) (heapPtr_ne _) h.third
  have hfreed : HeapCall (s₂, [⟨heapPtr 707, 5000⟩] ++ ⟨heapPtr 706, 1⟩ :: [])
      (s₂', [⟨heapPtr 707, 5000⟩] ++ []) := .kfree hfree
  have hfreed' : HeapCall (s₂', [] ++ ⟨heapPtr 707, 5000⟩ :: []) (s₃, [] ++ []) := .kfree hfree'
  have hthere : ReflTransGen HeapCall (s₁, []) (s₂, [⟨heapPtr 707, 5000⟩, ⟨heapPtr 706, 1⟩]) :=
    .tail (.single hsmall) hlarge
  have hback : ReflTransGen HeapCall (s₂, [⟨heapPtr 707, 5000⟩, ⟨heapPtr 706, 1⟩]) (s₃, []) :=
    .tail (.single hfreed) hfreed'
  obtain ⟨hcount, -⟩ := heap_balance bootTables_start hwindow h.init hpre hthere
  obtain ⟨-, hend⟩ := heap_balance bootTables_start hwindow h.init hpre (hthere.trans hback)
  obtain ⟨hrestored, hgone⟩ := hend rfl
  exact ⟨s₁, s₂, s₃, _, rfl, hthere, hback, hcount, hrestored, hgone s₂ _ hthere hback⟩

end Windozz.Kernel

import Windozz.Kernel.Realloc
import Windozz.Kernel.SpaceCalls

set_option autoImplicit false

/-! # One heap under all roots

The invariant (`RootsAgree`) is about the state in which the root of the boot CPU is loaded: all roots
agree with it, none of them lies in a block, and the blocks lie in the slot of the heap. Whatever root
is loaded, a call does what it does under the root of the boot CPU (`run_underBase`). So it is enough
that the calls keep the invariant there, and `Coherent` is the invariant under any root.

The slot of the heap has `2 ^ 27` pages, and the heap goes on behind it, where the roots have entries
of their own. The invariant counts the pages at the end of the slot that are not in use.
-/

namespace Windozz.Kernel

open Radix Prog Relation

/-! ## What the calls leave -/

/-- What `kmalloc` backs, lies in the slot, and leaves the rest of the spare pages. -/
theorem kmalloc_sparePages {s s' : State} {live : List Block} {n m ptr : Nat} (hinv : HeapInv s live)
    (hspare : s.Spare m) (hn : n + 16 + 4095 < 2 ^ 64) (hle : (n + 16 + 4095) / 4096 ≤ m)
    (hrun : kmalloc n s = .ok (ptr, s')) :
    s'.Spare (m - (n + 16 + 4095) / 4096) ∧
      (ptr ≠ 0 → ∀ i, i < Block.pages ⟨ptr, n⟩ → InHeap (Block.page ⟨ptr, n⟩ i)) := by
  have hact : u64 (n + 16) = n + 16 := u64_of_lt (by omega)
  have hcount : u64 (n + 16 + 4095) / 4096 = (n + 16 + 4095) / 4096 := by
    rw [u64_of_lt hn]
  simp only [kmalloc, hact, hcount] at hrun
  obtain ⟨_, s₀, hacquire, hrun₁⟩ := Prog.bind_eq_ok.mp hrun
  obtain ⟨p, s₁, halloc, hrun₂⟩ := Prog.bind_eq_ok.mp hrun₁
  obtain rfl := acquire_ok hacquire
  have hinv₁ := hinv.relock (Function.update s.mutexes .heap_mutex true)
  have hspare₁ : State.Spare { s with mutexes := Function.update s.mutexes .heap_mutex true } m :=
    hspare
  obtain ⟨hrest, hslots⟩ := vmmAlloc_sparePages hinv₁ hspare₁ (by omega) hle halloc
  by_cases hp : p = 0
  · rw [if_pos hp] at hrun₂
    obtain ⟨rfl, rfl⟩ := Prod.mk.inj (Except.ok.inj hrun₂)
    exact ⟨hrest, fun hne => absurd rfl hne⟩
  · rw [if_neg hp] at hrun₂
    obtain ⟨q, frames, new, hback, hq, hqlt, habsent, hall⟩ := vmmAlloc_spec hinv₁.tree hinv₁.fresh
      hinv₁.window (by decide) (by decide) (by decide) halloc
    obtain ⟨rfl, hlen⟩ := hall hp
    obtain ⟨_, s₃, hmemset, hrun₃⟩ := Prog.bind_eq_ok.mp hrun₂
    obtain ⟨_, s₄, hpages, hrun₄⟩ := Prog.bind_eq_ok.mp hrun₃
    obtain ⟨_, s₅, hsize, hrun₅⟩ := Prog.bind_eq_ok.mp hrun₄
    obtain ⟨rfl, rfl⟩ := Prod.mk.inj (Except.ok.inj hrun₅)
    have hpos : 0 < frames.length := by omega
    have hF : ∀ k ∈ {k | k ∈ frames}, k ∉ s₁.tableFrames := fun k hk =>
      hback.frame_not_table hinv₁.fresh hk
    have hstores := (kmalloc_stores hF (range_backed hback hinv₁.window hq habsent) hpos (by
        rw [frameOf_backed hback (List.getElem?_eq_getElem hpos)]
        exact List.getElem_mem hpos)
      hqlt (bytesIn_backed hback hinv₁.window hq habsent hqlt (by omega)) hmemset hpages hsize).1
    refine ⟨⟨hrest.1, fun i hlow hi => ?_⟩, fun _ i hi => ?_⟩
    · exact (hstores.getPhysical_eq hF _).trans (hrest.2 i hlow hi)
    · have hbase : u64 (p + 16) - 16 = p := by
        have hin := hslots hp 0 (by omega)
        rw [show pageAt p 0 = p from byteAddr_zero hqlt] at hin
        obtain ⟨-, hhigh⟩ := hin
        unfold KERNEL_END at hhigh
        unfold u64
        omega
      show InHeap (pageAt (u64 (p + 16) - 16) i)
      rw [hbase]
      exact hslots hp i hi

/-- `kfree` adds no page. -/
theorem kfree_sparePages {s s' : State} {b : Block} {m : Nat} {u : Unit} (htree : s.PageTree)
    (hb : b.Held s) (hspare : s.Spare m) (hrun : kfree b.ptr s = .ok (u, s')) : s'.Spare m := by
  obtain ⟨hunback, hzero⟩ := kfree_ok htree hb hrun
  refine ⟨hspare.1, fun i hlow hi => ?_⟩
  obtain ⟨houtside, habsent⟩ := vmmGetPhysical_none.mp (hspare.2 i hlow hi)
  refine vmmGetPhysical_none.mpr ⟨houtside, ?_⟩
  by_cases hpage : ∃ j, j < b.pages ∧ pageOf (pageAt KERNEL_HEAP i) = pageOf (b.page j)
  · obtain ⟨j, hj, hpage⟩ := hpage
    rw [vmmGetPage_congr hpage, hzero j hj]
    rfl
  · rw [hunback.other _ fun j hj heq => hpage ⟨j, hj, heq⟩]
    exact habsent

/-- Storing to the payload of a block keeps the heap. -/
theorem HeapInv.storePayload {s s' : State} {live : List Block} (h : HeapInv s live) {b : Block}
    (hb : b ∈ live) {o : Nat} {bs : List UInt8} {u : Unit} (hle : o + bs.length ≤ b.size)
    (hrun : storeBytes (byteAddr b.base (16 + o)) bs s = .ok (u, s')) :
    Stores s s' (spanFrames s b.base b.pages) ∧ HeapInv s' live := by
  have hheld := h.held b hb
  have hspan := hheld.span
  have hF := hspan.not_table
  have hsize := b.size_le
  obtain ⟨hstores, hbytes⟩ := storeBytes_span bs hspan (by omega) hrun
  have hframe : ∀ va, frameOf s' va = frameOf s va := fun va => hstores.frame_eq hF va
  -- the header is in front of the payload
  have hheader : ∀ d, d + 8 ≤ 16 → s'.mem.qword (frameOf s (b.page 0) * 4096 + d)
      = s.mem.qword (frameOf s (b.page 0) * 4096 + d) := by
    intro d hd
    refine Mem.qword_congr fun j hj => ?_
    have hbyte := hbytes (d + j) (by omega)
    rw [if_neg (by omega), physAt, Nat.div_eq_of_lt (by omega), Nat.mod_eq_of_lt (by omega)]
      at hbyte
    rw [Nat.add_assoc]
    exact hbyte
  have hb' : b.Held s' := by
    refine ⟨hheld.ptr_ge, hheld.ptr_lt, hheld.size_lt, hstores.range hF hheld.range,
      fun i hi => ?_, fun i hi => ?_, fun i hi => ?_, fun i j hi hj heq => ?_, ?_, ?_⟩
    · rw [hframe, hstores.pmm_eq]
      exact hheld.used i hi
    · rw [hframe, hstores.frames_eq hF]
      exact hheld.not_table i hi
    · rw [hframe]
      exact hheld.window i hi
    · rw [hframe, hframe] at heq
      exact hheld.distinct i j hi hj heq
    · have hfirst := hheader 0 (by decide)
      rw [Nat.add_zero] at hfirst
      rw [hframe, hfirst]
      exact hheld.header_pages
    · rw [hframe]
      exact (hheader 8 (by decide)).trans hheld.header_size
  obtain ⟨pre, post, rfl⟩ := List.append_of_mem hb
  obtain ⟨hrest, -⟩ := h.rest.stores hstores hF fun c hc i hi => by
    rintro ⟨j, hj, heq⟩
    exact (h.apart_rest hc j i hj hi).2 heq.symm
  refine ⟨hstores, hrest.tree, hrest.fresh, hrest.window, fun c hc => ?_,
    h.apart.imp fun hcd i j hi hj => ?_⟩
  · rcases List.mem_append.mp hc with hc | hc
    · exact hrest.held c (List.mem_append_left _ hc)
    · rcases List.mem_cons.mp hc with rfl | hc
      · exact hb'
      · exact hrest.held c (List.mem_append_right _ hc)
  · rw [hframe, hframe]
    exact hcd i j hi hj

/-! ## The invariant -/

/-- The state in which the boot CPU's root is loaded: the roots of all processes agree with it, none
of them is a page of a block, the blocks lie in the slot of the heap, and `n` pages at its end are
not mapped. The roots are distinct pages of the physical window. -/
structure RootsAgree (s : State) (live : List Block) (roots : List Nat) (n : Nat) : Prop where
  heap : HeapInv s live
  bsp : s.bspTable = pageMask s.cr3
  root_mem : s.cr3 ∈ roots
  joined : ∀ r ∈ roots, Joined s r
  apart : ∀ r ∈ roots, ∀ b ∈ live, ∀ i, i < b.pages → frameOf s (b.page i) ≠ r / 4096
  inHeap : ∀ b ∈ live, ∀ i, i < b.pages → InHeap (b.page i)
  spare : s.Spare n
  window : ∀ r ∈ roots, r / 4096 < 2 ^ 27
  distinct : roots.Pairwise fun r r' => r / 4096 ≠ r' / 4096

/-- The globals that no call changes. -/
def SameRoot (s s' : State) : Prop := s'.cr3 = s.cr3 ∧ s'.bsp_pml4 = s.bsp_pml4

theorem kmalloc_sameRoot {s s' : State} {live : List Block} {n ptr : Nat} (h : HeapInv s live)
    (hn : n + 16 + 4095 < 2 ^ 64) (hrun : kmalloc n s = .ok (ptr, s')) : SameRoot s s' := by
  rcases kmalloc_ok h.tree h.fresh h.window hn hrun with
    ⟨-, s₁, m, p, frames, new, hback, -, rfl⟩ | ⟨s₁, s₂, m, p, frames, new, hnew, -, rfl⟩
  · constructor <;> rw [hback.only]
  · constructor <;> rw [hnew.stores.only, hnew.backs.only]

/-- A page in use stays in use. -/
theorem kmalloc_marked {s s' : State} {live : List Block} {n ptr q : Nat} (h : HeapInv s live)
    (hn : n + 16 + 4095 < 2 ^ 64) (hrun : kmalloc n s = .ok (ptr, s'))
    (hq : s.pmm.bitmap.test q = true) : s'.pmm.bitmap.test q = true := by
  rcases kmalloc_ok h.tree h.fresh h.window hn hrun with
    ⟨-, s₁, m, p, frames, new, hback, -, rfl⟩ | ⟨s₁, s₂, m, p, frames, new, hnew, -, rfl⟩
  · show s₁.pmm.bitmap.test q = true
    rw [hback.takes.test_eq, hq, Bool.true_or]
  · show s₂.pmm.bitmap.test q = true
    rw [hnew.stores.pmm_eq, hnew.backs.takes.test_eq, hq, Bool.true_or]

theorem kfree_sameRoot {s s' : State} {b : Block} {u : Unit} (htree : s.PageTree) (hb : b.Held s)
    (hrun : kfree b.ptr s = .ok (u, s')) : SameRoot s s' := by
  have hunback := (kfree_ok htree hb hrun).1
  constructor <;> rw [hunback.only]

theorem newPml4_sameRoot {s s' : State} {cr3 : Nat} (hrun : newPml4 s = .ok (cr3, s')) :
    SameRoot s s' := by
  by_cases hz : cr3 = 0
  · subst hz
    rw [newPml4_null hrun]
    exact ⟨rfl, rfl⟩
  · have htake := newPml4_takes hrun hz
    constructor <;> rw [htake.only]

namespace RootsAgree

variable {s s' : State} {live : List Block} {roots : List Nat} {m : Nat}

theorem bsp_eq (h : RootsAgree s live roots m) (hsame : SameRoot s s') :
    s'.bspTable = pageMask s'.cr3 := by
  rw [State.bspTable, hsame.1, hsame.2]
  exact h.bsp

theorem relock (h : RootsAgree s live roots m) (x : Mutex → Bool) :
    RootsAgree { s with mutexes := x } live roots m :=
  ⟨h.heap.relock x, h.bsp, h.root_mem, fun r hr => (h.joined r hr).relock x, h.apart, h.inHeap,
    h.spare, h.window, h.distinct⟩

theorem kmalloc (h : RootsAgree s live roots m) {n ptr : Nat} (hn : n + 16 + 4095 < 2 ^ 64)
    (hle : (n + 16 + 4095) / 4096 ≤ m) (hrun : Kernel.kmalloc n s = .ok (ptr, s')) :
    RootsAgree s' (if ptr = 0 then live else ⟨ptr, n⟩ :: live) roots
      (m - (n + 16 + 4095) / 4096) := by
  have hsame := kmalloc_sameRoot h.heap hn hrun
  obtain ⟨hinv, hkeeps⟩ := kmalloc_spec h.heap hn hrun
  obtain ⟨hspare, hslots⟩ := kmalloc_sparePages h.heap h.spare hn hle hrun
  have hmem : ∀ b ∈ (if ptr = 0 then live else ⟨ptr, n⟩ :: live),
      b ∈ live ∨ (b = ⟨ptr, n⟩ ∧ ptr ≠ 0) := by
    intro b hb
    by_cases hz : ptr = 0
    · rw [if_pos hz] at hb
      exact Or.inl hb
    · rw [if_neg hz] at hb
      exact (List.mem_cons.mp hb).symm.imp_right fun heq => ⟨heq, hz⟩
  refine ⟨hinv, h.bsp_eq hsame, hsame.1 ▸ h.root_mem, fun r hr =>
    ((h.joined r hr).lock_kmalloc h.heap h.spare hn hle).post hrun, fun r hr b hb i hi => ?_,
    fun b hb i hi => ?_, hspare, h.window, h.distinct⟩
  · rcases hmem b hb with hb | ⟨rfl, hne⟩
    · rw [(hkeeps b hb).frame_eq hi]
      exact h.apart r hr b hb i hi
    · -- the frames of the new block were free
      rcases kmalloc_ok h.heap.tree h.heap.fresh h.heap.window hn hrun with
        ⟨hnull, -⟩ | ⟨s₁, s₂, k, p, frames, new, hnew, rfl, rfl⟩
      · exact absurd hnull hne
      · have hi' : i < frames.length := by
          rw [hnew.length_eq]
          exact hi
        have hframe : frameOf { s₂ with mutexes := k } (pageAt p i) = frames[i] :=
          (hnew.stores.frame_eq (fun _ hk => hnew.backs.frame_not_table h.heap.fresh hk) _).trans
            (frameOf_backed hnew.backs (List.getElem?_eq_getElem hi'))
        show frameOf { s₂ with mutexes := k } (pageAt p i) ≠ r / 4096
        rw [hframe]
        exact fun heq => (h.joined r hr).not_free
          (heq ▸ hnew.backs.frame_free (List.getElem_mem hi'))
  · rcases hmem b hb with hb | ⟨rfl, hne⟩
    · exact h.inHeap b hb i hi
    · exact hslots hne i hi

theorem kfree {pre post : List Block} {b : Block} (h : RootsAgree s (pre ++ b :: post) roots m)
    (hrun : Kernel.kfree b.ptr s = .ok ((), s')) : RootsAgree s' (pre ++ post) roots m := by
  have hb : b ∈ pre ++ b :: post := by simp
  have hheld := h.heap.held b hb
  have hsame := kfree_sameRoot h.heap.tree hheld hrun
  have hsub : ∀ c ∈ pre ++ post, c ∈ pre ++ b :: post := fun c hc => by
    rw [List.mem_append, List.mem_cons]
    exact (List.mem_append.mp hc).imp_right Or.inr
  obtain ⟨hinv, hkeeps⟩ := kfree_spec h.heap hrun
  refine ⟨hinv, h.bsp_eq hsame, hsame.1 ▸ h.root_mem, fun r hr => ?_, fun r hr c hc i hi => ?_,
    fun c hc => h.inHeap c (hsub c hc), kfree_sparePages h.heap.tree hheld h.spare hrun, h.window,
    h.distinct⟩
  · exact ((h.joined r hr).lock_kfree h.heap.tree hheld (h.inHeap b hb) (h.apart r hr b hb)).post
      hrun
  · rw [(hkeeps c hc).frame_eq hi]
    exact h.apart r hr c (hsub c hc) i hi

theorem root_not_span (h : RootsAgree s live roots m) {r : Nat} (hr : r ∈ roots) {b : Block}
    (hb : b ∈ live) : r / 4096 ∉ spanFrames s b.base b.pages := fun ⟨i, hi, heq⟩ =>
  h.apart r hr b hb i hi heq.symm

theorem store (h : RootsAgree s live roots m) {b : Block} (hb : b ∈ live) {o : Nat} {bs : List UInt8}
    (hle : o + bs.length ≤ b.size)
    (hrun : storeBytes (byteAddr b.base (16 + o)) bs s = .ok ((), s')) :
    RootsAgree s' live roots m := by
  have hF := (h.heap.held b hb).span.not_table
  obtain ⟨hstores, hinv⟩ := h.heap.storePayload hb hle hrun
  have hsame : SameRoot s s' := by constructor <;> rw [hstores.only]
  refine ⟨hinv, h.bsp_eq hsame, hsame.1 ▸ h.root_mem, fun r hr =>
    (h.joined r hr).stores hstores hF (h.root_not_span hr hb), fun r hr c hc i hi => ?_, h.inHeap,
    ⟨h.spare.1, fun i hlow hi => ?_⟩, h.window, h.distinct⟩
  · rw [hstores.frame_eq hF]
    exact h.apart r hr c hc i hi
  · rw [hstores.getPhysical_eq hF]
    exact h.spare.2 i hlow hi

theorem newPml4 (h : RootsAgree s live roots m) {cr3 : Nat}
    (hrun : Kernel.newPml4 s = .ok (cr3, s')) :
    RootsAgree s' live (if cr3 = 0 then roots else cr3 :: roots) m := by
  by_cases hz : cr3 = 0
  · subst hz
    rw [if_pos rfl]
    rw [newPml4_null hrun]
    exact h.relock _
  · rw [if_neg hz]
    have htake := newPml4_takes hrun hz
    have hsame := newPml4_sameRoot hrun
    obtain ⟨hinv, hkeeps⟩ := h.heap.takesFrame htake
    refine ⟨hinv, h.bsp_eq hsame, List.mem_cons_of_mem _ (hsame.1 ▸ h.root_mem), fun r hr => ?_,
      fun r hr b hb i hi => ?_, h.inHeap, ⟨h.spare.1, fun i hlow hi => ?_⟩, fun r hr => ?_,
      List.pairwise_cons.mpr ⟨fun r hr heq => ?_, h.distinct⟩⟩
    · rcases List.mem_cons.mp hr with rfl | hr
      · exact (h.joined _ h.root_mem).newRoot h.heap.fresh h.bsp hrun hz
      · exact (h.joined r hr).takesFrame h.heap.fresh htake
    · rw [(hkeeps b hb).frame_eq hi]
      rcases List.mem_cons.mp hr with rfl | hr
      · intro heq
        have hfree := htake.free.unmarked
        rw [← heq, (h.heap.held b hb).used i hi] at hfree
        cases hfree
      · exact h.apart r hr b hb i hi
    · rw [htake.getPhysical_eq h.heap.fresh]
      exact h.spare.2 i hlow hi
    · rcases List.mem_cons.mp hr with rfl | hr
      · exact h.heap.window _ htake.free
      · exact h.window r hr
    · exact (h.joined r hr).not_free (heq ▸ htake.free)

/-- A root that is not the boot CPU's is given back. -/
theorem freeRoot {cr3 : Nat} (h : RootsAgree s live (cr3 :: roots) m) (hbase : s.cr3 ∈ roots)
    (hrun : pmmFreePage cr3 s = .ok ((), s')) : RootsAgree s' live roots m := by
  obtain ⟨hapart, hdistinct⟩ := List.pairwise_cons.mp h.distinct
  have hsub : ∀ r ∈ roots, r ∈ cr3 :: roots := fun r hr => List.mem_cons_of_mem _ hr
  have hhead : cr3 ∈ cr3 :: roots := List.mem_cons_self ..
  have htable : cr3 / 4096 ∉ s.tableFrames :=
    (h.joined cr3 hhead).apart.resolve_left (hapart s.cr3 hbase)
  obtain rfl := pmmFreePage_ok hrun
  -- only the page of the root is free now and was not
  have hfree : ∀ q, (pmmMarkPageFree cr3 s.pmm).Free q → s.pmm.Free q ∨ q = cr3 / 4096 := by
    rintro q ⟨hpos, hbelow, htest⟩
    rw [test_markPageFree, Bool.and_eq_false_iff] at htest
    rcases htest with htest | htest
    · exact Or.inl ⟨hpos, by rwa [highest_markPageFree] at hbelow, htest⟩
    · refine Or.inr (Eq.symm ?_)
      simpa using htest
  have hkeeps : ∀ b ∈ live, b.Keeps s (s.withPmm (pmmMarkPageFree cr3 s.pmm)) := by
    intro b hb
    have hheld := h.heap.held b hb
    refine ⟨fun _ _ => rfl, fun i hi => ?_, hheld.not_table, hheld.range.noLarge,
      fun _ _ _ _ => rfl⟩
    show (pmmMarkPageFree cr3 s.pmm).bitmap.test _ = true
    rw [test_markPageFree, hheld.used i hi, decide_eq_false (Ne.symm (h.apart cr3 hhead b hb i hi))]
    rfl
  have hheap : HeapInv (s.withPmm (pmmMarkPageFree cr3 s.pmm)) live := by
    refine h.heap.keeps hkeeps h.heap.tree (fun q hq => ?_) fun q hq => ?_
    · rcases hfree q hq with hq | rfl
      · exact h.heap.fresh q hq
      · exact htable
    · rcases hfree q hq with hq | rfl
      · exact h.heap.window q hq
      · exact h.window cr3 hhead
  exact ⟨hheap, h.bsp, hbase, fun r hr =>
    ((h.joined r (hsub r hr)).lock_free (hapart r hr)).post hrun,
    fun r hr => h.apart r (hsub r hr), h.inHeap, h.spare, fun r hr => h.window r (hsub r hr),
    hdistinct⟩

end RootsAgree

/-! ## Any root -/

/-- **A call under any root** is a call under the root of the boot CPU. -/
theorem run_underBase {α : Type} {m : K α} {k s' : State} {base : Nat} {a : α}
    {Q : α → State → Prop} (h : Lockstep (State.under · k.cr3) m (k.under base) Q)
    (hcr3 : ∀ u, m (k.under base) = .ok (a, u) → u.cr3 = base) (hrun : m k = .ok (a, s')) :
    m (k.under base) = .ok (a, s'.under base) ∧ s'.cr3 = k.cr3 := by
  have hk : k = (k.under base).under k.cr3 := rfl
  rw [hk] at hrun
  obtain ⟨u, hu, rfl, -⟩ := h.back hrun
  have hbase : u = (u.under k.cr3).under base := by
    rw [← hcr3 u hu]
    rfl
  exact ⟨hu.trans (congrArg (fun x => Except.ok (a, x)) hbase), rfl⟩

/-- The invariant when the root `r` is loaded. -/
structure Coherent (base r : Nat) (k : State) (live : List Block) (roots : List Nat) (n : Nat) :
    Prop where
  agree : RootsAgree (k.under base) live roots n
  loaded : k.cr3 = r
  mem : r ∈ roots

namespace Coherent

variable {base r : Nat} {k k' : State} {live : List Block} {roots : List Nat} {m : Nat}

theorem joined (h : Coherent base r k live roots m) : Joined (k.under base) k.cr3 :=
  h.agree.joined _ (h.loaded ▸ h.mem)

theorem mono (h : Coherent base r k live roots m) {n : Nat} (hle : n ≤ m) :
    Coherent base r k live roots n :=
  ⟨⟨h.agree.heap, h.agree.bsp, h.agree.root_mem, h.agree.joined, h.agree.apart, h.agree.inHeap,
    h.agree.spare.mono hle, h.agree.window, h.agree.distinct⟩, h.loaded, h.mem⟩

theorem relock (h : Coherent base r k live roots m) (x : Mutex → Bool) :
    Coherent base r { k with mutexes := x } live roots m := ⟨h.agree.relock x, h.loaded, h.mem⟩

/-- Another root is loaded. -/
theorem load (h : Coherent base r k live roots m) {r' : Nat} (hr : r' ∈ roots) :
    Coherent base r' (k.under r') live roots m := ⟨h.agree, rfl, hr⟩

theorem kmalloc (h : Coherent base r k live roots m) {n ptr : Nat} (hn : n + 16 + 4095 < 2 ^ 64)
    (hle : (n + 16 + 4095) / 4096 ≤ m) (hrun : Kernel.kmalloc n k = .ok (ptr, k')) :
    Coherent base r k' (if ptr = 0 then live else ⟨ptr, n⟩ :: live) roots
      (m - (n + 16 + 4095) / 4096) := by
  have hlock := h.joined.lock_kmalloc h.agree.heap h.agree.spare hn hle
  obtain ⟨hbase, hcr3⟩ :=
    run_underBase hlock (fun u hu => (kmalloc_sameRoot h.agree.heap hn hu).1) hrun
  exact ⟨h.agree.kmalloc hn hle hbase, hcr3.trans h.loaded, h.mem⟩

theorem kfree {pre post : List Block} {b : Block}
    (h : Coherent base r k (pre ++ b :: post) roots m)
    (hrun : Kernel.kfree b.ptr k = .ok ((), k')) : Coherent base r k' (pre ++ post) roots m := by
  have hb : b ∈ pre ++ b :: post := by simp
  have hheld := h.agree.heap.held b hb
  have hlock := h.joined.lock_kfree h.agree.heap.tree hheld (h.agree.inHeap b hb)
    (h.agree.apart _ (h.loaded ▸ h.mem) b hb)
  obtain ⟨hbase, hcr3⟩ :=
    run_underBase hlock (fun u hu => (kfree_sameRoot h.agree.heap.tree hheld hu).1) hrun
  exact ⟨h.agree.kfree hbase, hcr3.trans h.loaded, h.mem⟩

theorem store (h : Coherent base r k live roots m) {b : Block} (hb : b ∈ live) {o : Nat}
    {bs : List UInt8} (hle : o + bs.length ≤ b.size)
    (hrun : storeBytes (byteAddr b.base (16 + o)) bs k = .ok ((), k')) :
    Coherent base r k' live roots m := by
  have hspan := (h.agree.heap.held b hb).span
  have hpages := b.size_le
  have hwritable : Writable (k.under base) b.base b.pages
      (spanFrames (k.under base) b.base b.pages) :=
    ⟨hspan.range, hspan.not_table, fun i hi => ⟨i, hi, rfl⟩,
      fun i hi => (h.agree.inHeap b hb i hi).canonical⟩
  have hlock := h.joined.lock_write hwritable (h.agree.root_not_span (h.loaded ▸ h.mem) hb)
    (h.agree.inHeap b hb) (16 + o) bs (by omega)
  obtain ⟨hbase, hcr3⟩ := run_underBase hlock (fun u hu => by
    rw [(h.agree.heap.storePayload hb hle hu).1.only]
    rfl) hrun
  exact ⟨h.agree.store hb hle hbase, hcr3.trans h.loaded, h.mem⟩

theorem newPml4 (h : Coherent base r k live roots m) {cr3 : Nat}
    (hrun : Kernel.newPml4 k = .ok (cr3, k')) :
    Coherent base r k' live (if cr3 = 0 then roots else cr3 :: roots) m := by
  obtain ⟨hbase, hcr3⟩ :=
    run_underBase (blind_newPml4 k.cr3 _) (fun u hu => (newPml4_sameRoot hu).1) hrun
  refine ⟨h.agree.newPml4 hbase, hcr3.trans h.loaded, ?_⟩
  split
  · exact h.mem
  · exact List.mem_cons_of_mem _ h.mem

/-- The root that was made last is given back. -/
theorem freeRoot {cr3 : Nat} (h : Coherent base r k live (cr3 :: roots) m) (hbase : base ∈ roots)
    (hr : r ∈ roots) (hrun : pmmFreePage cr3 k = .ok ((), k')) :
    Coherent base r k' live roots m := by
  obtain ⟨hrun', hcr3⟩ := run_underBase (blind_pmmFreePage k.cr3 cr3 _)
    (fun u hu => by rw [pmmFreePage_ok hu]; rfl) hrun
  exact ⟨h.agree.freeRoot hbase hrun', hcr3.trans h.loaded, hr⟩

section Same

variable (h : Coherent base r k live roots m) {r' : Nat} (hr : r' ∈ roots)

include h hr

/-- Every root binds the addresses of the kernel to the same pages. -/
theorem page_eq {va : Nat} (hva : levelIndex 39 va ∈ kernelSlots) :
    vmmGetPage va (k.under r') = vmmGetPage va k :=
  (vmmGetPage_under (h.agree.joined r' hr) hva).trans (vmmGetPage_under h.joined hva).symm

/-- Every block is mapped under every root. -/
theorem mapped {b : Block} (hb : b ∈ live) {i : Nat} (hi : i < b.pages) :
    vmmGetPage (b.page i) (k.under r') &&& PAGE_PRESENT ≠ 0 := by
  have hpage : vmmGetPage (b.page i) (k.under r') = vmmGetPage (b.page i) (k.under base) :=
    vmmGetPage_under (h.agree.joined r' hr) (h.agree.inHeap b hb i hi).slot_mem
  rw [hpage]
  exact (h.agree.heap.held b hb).range.present i hi

/-- A call that runs in lockstep under every root does the same under each of them. -/
theorem call_same {α : Type} {f : K α} {Q : Nat → α → State → Prop}
    (hlock : ∀ r ∈ roots, Lockstep (State.under · r) f (k.under base) (Q r)) :
    f (k.under r') = carry (State.under · r') (f k) := by
  have hother : f (k.under r') = carry (State.under · r') (f (k.under base)) := (hlock r' hr).same
  have hloaded : f k = carry (State.under · k.cr3) (f (k.under base)) :=
    (hlock _ (h.loaded ▸ h.mem)).same
  rw [hother, hloaded]
  cases f (k.under base) with
  | error e => rfl
  | ok p => rfl

theorem kmalloc_same {n : Nat} (hn : n + 16 + 4095 < 2 ^ 64) (hle : (n + 16 + 4095) / 4096 ≤ m) :
    Kernel.kmalloc n (k.under r') = carry (State.under · r') (Kernel.kmalloc n k) :=
  h.call_same hr fun r hr =>
    (h.agree.joined r hr).lock_kmalloc h.agree.heap h.agree.spare hn hle

theorem kfree_same {b : Block} (hb : b ∈ live) :
    Kernel.kfree b.ptr (k.under r') = carry (State.under · r') (Kernel.kfree b.ptr k) :=
  h.call_same hr fun r hr => (h.agree.joined r hr).lock_kfree h.agree.heap.tree
    (h.agree.heap.held b hb) (h.agree.inHeap b hb) (h.agree.apart r hr b hb)

end Same

end Coherent

/-! ## From the start -/

/-- The slot of the heap is not mapped at boot. -/
theorem KernelTables.spare {s : State} (h : KernelTables s) : s.Spare (2 ^ 27) := by
  refine ⟨le_refl _, fun i _ hi => ?_⟩
  have hin : InHeap (pageAt KERNEL_HEAP i) := inHeap_pageAt (le_refl _)
    (show KERNEL_HEAP + 2 ^ 27 * 4096 ≤ KERNEL_END by decide) hi
  have hwindow : ¬ InWindow (pageAt KERNEL_HEAP i) := fun hw => by
    exact absurd hw.2 (not_lt.mpr (le_trans (by decide) hin.1))
  have hslot : levelIndex 39 (pageAt KERNEL_HEAP i) ≠ 256 := by
    rw [hin.slot]
    decide
  refine vmmGetPhysical_none.mpr ⟨hwindow, ?_⟩
  rw [h.heap_absent hslot]
  rfl

/-- A page of the heap is mapped through slot 258. -/
theorem linked_of_present {s : State} {va : Nat} (hin : InHeap va)
    (h : vmmGetPage va s &&& PAGE_PRESENT ≠ 0) :
    entry s.mem (pageMask s.cr3) (258 : Fin 512) &&& PAGE_PRESENT ≠ 0 := by
  intro hzero
  rw [← hin.slot] at hzero
  rw [vmmGetPage_unmapped hzero] at h
  exact h rfl

/-- After `mm_init` the boot CPU has the only root, and the record of MMIO regions is the only
block. -/
theorem mmInit_coherent {map : E820Map} {boot s : State} (hboot : BootTables boot)
    (hwindow : ∀ s₁, pmmInit map boot = .ok ((), s₁) → s₁.WindowFrames)
    (hinit : mmInit map boot = .ok ((), s)) :
    Coherent s.cr3 s.cr3 s [mmioBlock s] [s.cr3] (2 ^ 27 - 705) := by
  have hheap := mmInit_spec hboot hwindow hinit
  rw [mmInit] at hinit
  obtain ⟨_, s₁, hpmm, hvmm⟩ := Prog.bind_eq_ok.mp hinit
  have hbooted := booted_pmmInit hboot hpmm (hwindow s₁ hpmm)
  have hsize : u64 ( SIZEOF_MMIO * MAX_MMIO) = SIZEOF_MMIO * MAX_MMIO := by decide
  rw [vmmInit, Prog.bind_ok (Prog.run_modify _ _), Prog.bind_ok (Prog.run_modify _ _)] at hvmm
  obtain ⟨regions, s₂, halloc, hrest⟩ := Prog.bind_eq_ok.mp hvmm
  rw [kcalloc, hsize] at halloc
  have halloc' : kmalloc ( SIZEOF_MMIO * MAX_MMIO) s₁.unmapLow = .ok (regions, s₂) := halloc
  obtain ⟨hcr3, hbsp⟩ := kmalloc_sameRoot hbooted.heapInv (by decide) halloc'
  obtain ⟨hspare, hslots⟩ := kmalloc_sparePages hbooted.heapInv hbooted.kernelTables.spare
    (by decide) (by decide) halloc'
  rw [Prog.bind_ok (Prog.run_modify _ _)] at hrest
  by_cases hz : regions = 0
  · rw [if_pos hz] at hrest
    cases hrest
  · rw [if_neg hz] at hrest
    obtain ⟨-, rfl⟩ := Prod.mk.inj (Except.ok.inj hrest)
    have hslots' := hslots hz
    have hroot : s₂.cr3 = 0x8000 := hcr3.trans hbooted.tables.cr3_eq
    have hb := hheap.held _ (List.mem_singleton_self _)
    have hblock : ∀ b ∈ [mmioBlock { s₂ with mmio_regions := regions, mmio_region_count := 0 }],
        b = ⟨regions, SIZEOF_MMIO * MAX_MMIO⟩ := fun b hb => List.mem_singleton.mp hb
    refine ⟨⟨hheap, ?_, List.mem_singleton_self _, fun r hr => ?_, fun r hr b hb' i hi => ?_,
      fun b hb' i hi => ?_, ⟨hspare.1, fun i hlow hi => hspare.2 i hlow hi⟩, fun r hr => ?_,
      List.pairwise_singleton _ _⟩, rfl, List.mem_singleton_self _⟩
    · show u64 (s₂.bsp_pml4 + (2 ^ 64 - PHYSICAL_MEMORY)) = pageMask s₂.cr3
      rw [hbsp, hroot]
      show u64 (u64 (s₁.cr3 + PHYSICAL_MEMORY) + (2 ^ 64 - PHYSICAL_MEMORY)) = pageMask 0x8000
      rw [hbooted.tables.cr3_eq]
      decide
    · obtain rfl := List.mem_singleton.mp hr
      refine ⟨?_, fun _ _ => rfl, Or.inl rfl, ?_⟩
      · exact linked_of_present (hslots' 0 (Block.pages_pos _)) (hb.range.present 0 (Block.pages_pos _))
      · show s₂.pmm.bitmap.test (s₂.cr3 / 4096) = true
        rw [hroot]
        exact kmalloc_marked hbooted.heapInv (by decide) halloc' (hbooted.low_used _ (by decide))
    · obtain rfl := List.mem_singleton.mp hr
      obtain rfl := hblock b hb'
      exact fun heq => hb.not_table i hi (heq ▸ ⟨[], Nat.zero_le _, rfl⟩)
    · obtain rfl := hblock b hb'
      exact hslots' i hi
    · obtain rfl := List.mem_singleton.mp hr
      show s₂.cr3 / 4096 < 2 ^ 27
      rw [hroot]
      decide

end Windozz.Kernel

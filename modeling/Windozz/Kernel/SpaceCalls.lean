import Windozz.Kernel.Spaces

set_option autoImplicit false

/-! # The heap under another root

`kmalloc` and `kfree` do the same under every root that agrees with the one that is loaded, and leave
the roots in agreement: the loops of `vmm_alloc` and `vmm_free` map the same pages in every round, and
the header of a block is reached through either root. The root of a new process agrees with that of
the boot CPU, since the entries of the kernel are copied from there.
-/

namespace Windozz.Kernel

open Radix Prog Relation

/-! ## Allocating -/

/-- The loop of `vmm_alloc`. -/
theorem Joined.lock_allocLoop {s : State} {r ptr flags : Nat} (hwindow : s.WindowFrames)
    (hptr : ptr % 4096 = 0) (hflags : flags < 4096) (n : Nat) :
    ∀ {s₁ : State} {frames : List Nat} {new : Finset Nat},
      (∀ i, i < frames.length + n → vmmGetPage (pageAt ptr i) s &&& PAGE_PRESENT = 0) →
      (∀ i, i < frames.length + n → InHeap (pageAt ptr i)) →
      Backs s s₁ ptr flags frames new → Joined s₁ r →
      Lockstep (State.under · r) (allocLoop ptr flags n frames.length) s₁ fun _ s' =>
        Joined s' r := by
  induction n with
  | zero => exact fun _ _ _ h => .pure h
  | succ n ih =>
      intro s₁ frames new habsent hslots hback h
      rw [allocLoop]
      refine h.lock_alloc.bind fun phys s₂ halloc h₂ => ?_
      by_cases hz : phys = 0
      · rw [if_pos hz]
        exact .pure h₂
      · rw [if_neg hz]
        obtain ⟨-, halign, hlt, hfree, rfl⟩ := pmmAllocPage_ok halloc hz
        have htakes := takes_markPageUsed hfree
        have htree : (s₁.withPmm (pmmMarkPageUsed phys s₁.pmm)).PageTree := hback.tree
        have hfresh : (s₁.withPmm (pmmMarkPageUsed phys s₁.pmm)).FreshFrames := fun q hq =>
          hback.fresh q (htakes.free_iff.mp hq).1
        have hlarge : (s₁.withPmm (pmmMarkPageUsed phys s₁.pmm)).NoLargePage
            (pageAt ptr frames.length) :=
          hback.noLargePage _ (noLargePage_of_absent (habsent _ (by omega)))
        have hvalue : phys ||| flags < 2 ^ 64 := by
          rw [or_flags halign hflags]
          omega
        refine (h₂.lock_map htree hfresh hlarge (hslots _ (by omega)) hvalue).bind
          fun _ s₃ hmap h₃ => ?_
        obtain ⟨new', hstep⟩ :=
          hback.step hwindow hptr hflags (habsent _ (by omega)) halloc hz hmap
        have hlen : (frames ++ [phys / 4096]).length = frames.length + 1 := by simp
        have hrest := ih (fun i hi => habsent i (by omega)) (fun i hi => hslots i (by omega))
          hstep h₃
        rw [hlen] at hrest
        exact hrest

section Alloc

variable {s : State} {live : List Block} {count n : Nat} (hinv : HeapInv s live)
  (hspare : s.Spare n) (hpos : 1 ≤ count) (hle : count ≤ n)

include hinv hspare hpos hle

/-- **`vmm_alloc` does the same** under a root that agrees. -/
theorem Joined.lock_vmmAlloc {r : Nat} (h : Joined s r) :
    Lockstep (State.under · r) (vmmAlloc KERNEL_HEAP count KERNEL_HEAP_FLAGS) s fun _ s' =>
      Joined s' r := by
  obtain ⟨k, hfind, hk, hunmapped, -⟩ := hspare.find hpos hle
  have hne := heap_page_ne k
  have hend := heap_range_le (show k + count ≤ 2 ^ 27 by omega)
  refine .get ?_ ?_
  · simp only [h.find_same hspare hpos hle]
    rfl
  · by_cases hguard : u64 (s.pmm.total_pages + (2 ^ 64 - u64 s.pmm.used_pages)) ≤ count
    · rw [if_pos hguard]
      exact .pure h
    · rw [if_neg hguard, hfind]
      simp only [if_neg hne]
      refine (h.lock_acquire _).bind fun _ s₁ hacquire h₁ => ?_
      obtain rfl := acquire_ok hacquire
      have hnil : Backs s { s with mutexes := Function.update s.mutexes .vmm_mutex true }
          (KERNEL_HEAP + k * 4096) KERNEL_HEAP_FLAGS [] ∅ := .start hinv.tree hinv.fresh _
      have hloop := h₁.lock_allocLoop hinv.window (by unfold KERNEL_HEAP; omega) (by decide) count
        (fun i hi => (vmmGetPhysical_none.mp (hunmapped i (by simpa using hi))).2)
        (fun i hi => inHeap_pageAt (Nat.le_add_right _ _) hend (by simpa using hi)) hnil
      refine hloop.bind fun done s₂ _ h₂ => ?_
      refine (h₂.lock_release _).bind fun _ s₃ _ h₃ => ?_
      cases done with
      | true => exact .pure h₃
      | false => exact .pure h₃

/-- What `vmm_alloc` backs, lies in the slot, and leaves the rest of the spare pages. -/
theorem vmmAlloc_sparePages {s' : State} {ptr : Nat}
    (hrun : vmmAlloc KERNEL_HEAP count KERNEL_HEAP_FLAGS s = .ok (ptr, s')) :
    s'.Spare (n - count) ∧ (ptr ≠ 0 → ∀ i, i < count → InHeap (pageAt ptr i)) := by
  obtain ⟨k, hfind, hk, hunmapped, -⟩ := hspare.find hpos hle
  have hne := heap_page_ne k
  have hend := heap_range_le (show k + count ≤ 2 ^ 27 by omega)
  refine ⟨?_, fun hptr i hi => ?_⟩
  · rw [vmmAlloc, Prog.bind_ok (Prog.run_get _)] at hrun
    by_cases hguard : u64 (s.pmm.total_pages + (2 ^ 64 - u64 s.pmm.used_pages)) ≤ count
    · rw [if_pos hguard] at hrun
      obtain ⟨-, rfl⟩ := Prod.mk.inj (Except.ok.inj hrun)
      exact hspare.mono (Nat.sub_le _ _)
    · rw [if_neg hguard, hfind] at hrun
      simp only [if_neg hne] at hrun
      obtain ⟨_, s₁, hacquire, hrun⟩ := Prog.bind_eq_ok.mp hrun
      obtain ⟨done, s₂, hloop, hrun⟩ := Prog.bind_eq_ok.mp hrun
      rw [Prog.bind_ok (run_release _ _)] at hrun
      obtain rfl := acquire_ok hacquire
      have hnil : Backs s { s with mutexes := Function.update s.mutexes .vmm_mutex true }
          (KERNEL_HEAP + k * 4096) KERNEL_HEAP_FLAGS [] ∅ := .start hinv.tree hinv.fresh _
      obtain ⟨frames, new, hback, hlen, -⟩ := allocLoop_spec hinv.window
        (by unfold KERNEL_HEAP; omega) (by decide) count
        (fun i hi => (vmmGetPhysical_none.mp (hunmapped i (by simpa using hi))).2) hnil hloop
      rw [List.length_nil, Nat.zero_add] at hlen
      have hget : ∀ w, vmmGetPhysical w s' = vmmGetPhysical w s₂ := by
        intro w
        cases done with
        | true =>
            obtain ⟨-, rfl⟩ := Prod.mk.inj (Except.ok.inj hrun)
            rfl
        | false =>
            obtain ⟨-, rfl⟩ := Prod.mk.inj (Except.ok.inj hrun)
            rfl
      -- the pages that are backed are in front of those that stay spare
      refine ⟨by have := hspare.1; omega, fun i hlow hi => ?_⟩
      obtain ⟨houtside, habsent⟩ := vmmGetPhysical_none.mp (hspare.2 i (by omega) hi)
      rw [hget]
      refine vmmGetPhysical_none.mpr ⟨houtside, ?_⟩
      rw [hback.other _ fun j hj => ?_]
      · exact habsent
      · rw [pageAt_heap]
        exact pageOf_pageAt_ne (by decide) (by omega) (by omega) (by omega)
  · obtain rfl := Option.some.inj (hfind.symm.trans (vmmAlloc_find hptr hrun))
    exact inHeap_pageAt (Nat.le_add_right _ _) hend hi

end Alloc

/-- **`kmalloc` does the same** under a root that agrees. -/
theorem Joined.lock_kmalloc {s : State} {live : List Block} {r n m : Nat} (h : Joined s r)
    (hinv : HeapInv s live) (hspare : s.Spare m) (hn : n + 16 + 4095 < 2 ^ 64)
    (hle : (n + 16 + 4095) / 4096 ≤ m) :
    Lockstep (State.under · r) (kmalloc n) s fun _ s' => Joined s' r := by
  have hact : u64 (n + 16) = n + 16 := u64_of_lt (by omega)
  have hcount : u64 (n + 16 + 4095) / 4096 = (n + 16 + 4095) / 4096 := by
    rw [u64_of_lt hn]
  simp only [kmalloc, hact, hcount]
  refine (h.lock_acquire _).bind fun _ s₁ hacquire h₁ => ?_
  obtain rfl := acquire_ok hacquire
  have hinv₁ := hinv.relock (Function.update s.mutexes .heap_mutex true)
  have hspare₁ : State.Spare { s with mutexes := Function.update s.mutexes .heap_mutex true } m :=
    hspare
  refine (h₁.lock_vmmAlloc hinv₁ hspare₁ (by omega) hle).bind fun p s₂ halloc h₂ => ?_
  by_cases hp : p = 0
  · rw [if_pos hp]
    exact (h₂.lock_release _).bind fun _ s₃ _ h₃ => .pure h₃
  · rw [if_neg hp]
    obtain ⟨q, frames, new, hback, hq, hqlt, habsent, hall⟩ := vmmAlloc_spec hinv₁.tree hinv₁.fresh
      hinv₁.window (by decide) (by decide) (by decide) halloc
    obtain ⟨rfl, hlen⟩ := hall hp
    have hslots := (vmmAlloc_sparePages hinv₁ hspare₁ (by omega) hle halloc).2 hp
    rw [← hlen] at hslots
    have hwritable : Writable s₂ p frames.length {k | k ∈ frames} :=
      hback.writable hinv₁.fresh hinv₁.window hq habsent fun i hi => (hslots i hi).canonical
    -- the pages that are written to were free, so the root is none of them
    have hr : r / 4096 ∉ {k | k ∈ frames} := fun hin => h₁.not_free (hback.frame_free hin)
    have hzero : byteAddr p 0 = p := byteAddr_zero hqlt
    have hmemset := h₂.lock_write hwritable hr hslots 0 (List.replicate (n + 16) 0)
      (by simp; omega)
    rw [hzero] at hmemset
    refine hmemset.bind fun _ s₃ _ h₃ => ?_
    have hpages := h₃.1.lock_write h₃.2 hr hslots 0
      (toLE 8 ((n + 16 + 4095) / 4096)) (by simp; omega)
    rw [hzero] at hpages
    refine hpages.bind fun _ s₄ _ h₄ => ?_
    have hsize := h₄.1.lock_write h₄.2 hr hslots 8 (toLE 8 n) (by simp; omega)
    refine hsize.bind fun _ s₅ _ h₅ => ?_
    exact (h₅.1.lock_release _).bind fun _ s₆ _ h₆ => .pure h₆

/-! ## Releasing -/

/-- A page whose tables are there is unmapped. -/
theorem Joined.lock_unmap {s : State} {r va f : Nat} (h : Joined s r) (htree : s.PageTree)
    (hwalk : walk pageFormat s.tables s.root (pathOf va) = some f) (hslot : InHeap va) :
    Lockstep (State.under · r) (vmmMapPage va 0 0) s fun _ s' => Joined s' r := by
  refine ⟨h.mapPage_same hslot 0 0, fun u s' hrun => ?_⟩
  rw [vmmMapPage_present hwalk] at hrun
  obtain rfl := (Prod.mk.inj (Except.ok.inj hrun)).2
  have hmaps := (Grows.refl htree).maps hwalk (show (0 : Nat) ||| 0 < 2 ^ 64 by decide)
  have hne : s.root ≠ f := ne_root_of_walk htree (by simp [pathOf]) (by simp [pathOf]) hwalk
  have hi := (levelIndex 12 va).isLt
  exact h.maps hmaps fun a ha => Mem.setQword_outside (by omega)

/-- The loop of `vmm_free`. -/
theorem Joined.lock_freeLoop {s : State} {r virtual total : Nat}
    (hrange : RangeMapped s virtual total) (hslots : ∀ i, i < total → InHeap (pageAt virtual i))
    (hr : ∀ i, i < total → frameOf s (pageAt virtual i) ≠ r / 4096) (n : Nat) :
    ∀ {i : Nat} {s₁ : State}, i + n = total → Unbacks s s₁ virtual i → Joined s₁ r →
      Lockstep (State.under · r) (freeLoop virtual n i) s₁ fun _ s' => Joined s' r := by
  have htotal := hrange.length_lt
  induction n with
  | zero => exact fun _ _ h => .pure h
  | succ n ih =>
      intro i s₁ hi hback h
      have hphys := hback.physical hrange (by omega)
      refine .get ?_ ?_
      · simp only [vmmGetPhysical_under h (hslots i (by omega))]
      · rw [hphys]
        refine (h.lock_free ?_).bind fun _ s₂ hfree h₂ => ?_
        · rw [Nat.mul_div_cancel _ (by decide)]
          exact hr i (by omega)
        · have hs₂ := pmmFreePage_ok hfree
          have htables : s₂.tables = s₁.tables := by rw [hs₂]; rfl
          have hroot : s₂.root = s₁.root := by rw [hs₂]; rfl
          have htree : s₂.PageTree := by
            rw [State.PageTree, htables, hroot]
            exact hback.tree
          obtain ⟨f, hwalk⟩ := hback.walks hrange.aligned (by omega) (hrange.noLarge i (by omega))
            (hrange.present i (by omega))
          rw [← htables, ← hroot] at hwalk
          refine (h₂.lock_unmap htree hwalk (hslots i (by omega))).bind fun _ s₃ hmap h₃ => ?_
          exact ih (by omega) (hback.step hrange.aligned (by omega) (hrange.noLarge i (by omega))
            (hrange.present i (by omega)) hfree hmap) h₃

/-- **`kfree` does the same** under a root that agrees and is none of the pages that are released. -/
theorem Joined.lock_kfree {s : State} {r : Nat} {b : Block} (h : Joined s r) (htree : s.PageTree)
    (hb : b.Held s) (hslots : ∀ i, i < b.pages → InHeap (b.page i))
    (hr : ∀ i, i < b.pages → frameOf s (b.page i) ≠ r / 4096) :
    Lockstep (State.under · r) (kfree b.ptr) s fun _ s' => Joined s' r := by
  rw [hb.kfree_eq]
  have hload : Lockstep (State.under · r) (loadQword b.base) s fun _ s' => s' = s :=
    (h.lock_load 8 hb.base_lt fun j hj => inHeap_byteAddr hb.range.aligned (by
      rw [Nat.div_eq_of_lt (by omega)]
      exact hslots 0 b.pages_pos)).bind fun _ s₁ _ h₁ => .pure h₁
  refine hload.bind fun pages s₁ hrun _ => ?_
  obtain ⟨rfl, rfl⟩ := hb.load_pages hrun
  rw [vmmFree]
  refine (h.lock_acquire _).bind fun _ s₂ hacquire h₂ => ?_
  obtain rfl := acquire_ok hacquire
  refine (h₂.lock_freeLoop hb.range hslots hr b.pages (Nat.zero_add _) (.start htree _)).bind
    fun _ s₃ _ h₃ => h₃.lock_release _

/-! ## A new root -/

/-- Another root stays as it is. -/
theorem Joined.takesFrame {s s' : State} {r q : Nat} (h : Joined s r) (hfresh : s.FreshFrames)
    (htake : TakesFrame s s' q) : Joined s' r := by
  have hused : s'.pmm.bitmap.test (r / 4096) = true := by
    rw [htake.takes.test_eq, h.used, Bool.true_or]
  have hstores : Stores (s.withPmm s'.pmm) s' {q} :=
    ⟨by rw [htake.only]; rfl, fun a ha => htake.mem_eq a ha⟩
  refine (h.withPmm hused).stores hstores (fun k hk => ?_) fun hin => ?_
  · rw [Set.mem_singleton_iff.mp hk]
    exact hfresh q htake.free
  · exact h.not_free (Set.mem_singleton_iff.mp hin ▸ htake.free)

section Copied

variable {s : State} {cr3 : Nat}

theorem entry_copied_same (i : Nat) :
    entry (s.copied cr3 i).mem cr3 i = entry s.mem s.bspTable i := by
  show (s.mem.setQword (cr3 + 8 * i) _).qword (cr3 + 8 * i) = _
  rw [Mem.qword_setQword_same]
  exact u64_of_lt (Mem.qword_lt _ _)

variable (halign : cr3 % 4096 = 0) (hbsp : s.bspTable % 4096 = 0)
  (hne : s.bspTable / 4096 ≠ cr3 / 4096)

include halign hbsp hne

theorem entry_copied_bsp {j : Nat} (hj : j < 512) (i : Fin 512) :
    entry (s.copied cr3 j).mem s.bspTable i = entry s.mem s.bspTable i :=
  entry_congr hbsp (fun a ha => copied_outside halign hj (by rw [ha]; exact hne)) i

/-- The entries of the kernel are copied. -/
theorem entry_kernelRoot_slot {i : Fin 512} (hi : i ∈ kernelSlots) :
    entry (s.kernelRoot cr3).mem cr3 i = entry s.mem s.bspTable i := by
  have h₁ := entry_copied_bsp halign hbsp hne (show 256 < 512 by decide) i
  have h₂ : entry ((s.copied cr3 256).copied cr3 257).mem s.bspTable i = entry s.mem s.bspTable i :=
    (entry_copied_bsp (s := s.copied cr3 256) halign hbsp hne (show 257 < 512 by decide) i).trans h₁
  have hval : (i : Nat) = 256 ∨ (i : Nat) = 257 ∨ (i : Nat) = 258 := by
    simp only [kernelSlots, Finset.mem_insert, Finset.mem_singleton] at hi
    exact hi.imp (congrArg Fin.val) (Or.imp (congrArg Fin.val) (congrArg Fin.val))
  rw [State.kernelRoot]
  rcases hval with hval | hval | hval
  · rw [hval, entry_copied (by decide), entry_copied (by decide), entry_copied_same]
  · rw [hval] at h₁ ⊢
    rw [entry_copied (by decide), entry_copied_same]
    exact h₁
  · rw [hval] at h₂ ⊢
    rw [entry_copied_same]
    exact h₂

end Copied

/-- **The root of a new process is joined.** -/
theorem Joined.newRoot {s s' : State} {cr3 : Nat} (h : Joined s s.cr3) (hfresh : s.FreshFrames)
    (hbsp : s.bspTable = pageMask s.cr3) (hrun : newPml4 s = .ok (cr3, s')) (hne : cr3 ≠ 0) :
    Joined s' cr3 := by
  have htake := newPml4_takes hrun hne
  have hbase := h.takesFrame hfresh htake
  have hcr3 : s'.cr3 = s.cr3 := by rw [htake.only]
  have hused : s'.pmm.bitmap.test (cr3 / 4096) = true := by
    rw [htake.takes.test_eq, decide_eq_true (Finset.mem_singleton_self _), Bool.or_true]
  have hstores : Stores (s.withPmm s'.pmm) s' {cr3 / 4096} :=
    ⟨by rw [htake.only]; rfl, fun a ha => htake.mem_eq a ha⟩
  have htables : s'.tableFrames = s.tableFrames := hstores.frames_eq fun k hk => by
    rw [Set.mem_singleton_iff.mp hk]
    exact hfresh _ htake.free
  have hmask : pageMask s.cr3 % 4096 = 0 ∧ pageMask s.cr3 / 4096 = s.cr3 / 4096 := by
    unfold pageMask
    omega
  have hbspalign : s.bspTable % 4096 = 0 := by
    rw [hbsp]
    exact hmask.1
  have hroot : s.bspTable / 4096 ≠ cr3 / 4096 := by
    intro heq
    rw [hbsp, hmask.2] at heq
    exact h.not_free (heq ▸ htake.free)
  refine ⟨hbase.linked, fun i hi => ?_, Or.inr ?_, hused⟩
  · rw [hcr3, ← hbsp]
    obtain ⟨s₁, halloc, rfl⟩ := newPml4_ok hrun hne
    obtain ⟨-, halign, -, -, rfl⟩ := pmmAllocPage_ok halloc hne
    have hpage : pageMask cr3 = cr3 := by
      unfold pageMask
      omega
    rw [hpage]
    refine (entry_kernelRoot_slot halign hbspalign hroot hi).trans ?_
    exact (entry_congr hbspalign (fun a ha => htake.mem_eq a (by rw [ha]; exact hroot)) i).symm
  · rw [htables]
    exact hfresh _ htake.free

end Windozz.Kernel

import Windozz.Basic.Lockstep
import Windozz.Kernel.Mmio
import Windozz.Kernel.Roots

set_option autoImplicit false

/-! # Address spaces

Every process has a root of its own, into which `create_process` copies the entries 256, 257 and 258
of the root of the boot CPU. What the kernel allocates later it maps under the root that happens to
be loaded. Two roots whose three entries agree (`Joined`) lead to the same tables, so a function of
the memory manager does the same under both, as long as it keeps to the slot of the heap
(`Prog.Lockstep`): the walk of such an address leaves the root at its first step.

The second half of the argument is that none of the functions writes to a root. The tables on the way
to a page are no root, because every table is referenced once, and what is stored to was free or
belongs to a block.
-/

namespace Windozz.Kernel

open Radix Prog

/-! ## The slot of the heap -/

/-- The end of slot 258. -/
def KERNEL_END : Nat := 0xFFFF818000000000

/-- The address lies in the slot of the heap. -/
def InHeap (va : Nat) : Prop := KERNEL_HEAP ≤ va ∧ va < KERNEL_END

theorem levelIndex_eq (shift virtual : Nat) :
    (levelIndex shift virtual : Nat) = tableIndex shift (virtual &&& 0xFFFFFFFFFFFF) := rfl

theorem InHeap.slot {va : Nat} (h : InHeap va) : levelIndex 39 va = 258 := by
  obtain ⟨hlow, hhigh⟩ := h
  unfold KERNEL_HEAP at hlow
  unfold KERNEL_END at hhigh
  refine Fin.ext ?_
  rw [levelIndex_val]
  show va % 2 ^ 48 / 2 ^ 39 % 512 = 258
  omega

theorem InHeap.slot_mem {va : Nat} (h : InHeap va) : levelIndex 39 va ∈ kernelSlots := by
  rw [h.slot]
  decide

theorem InHeap.canonical {va : Nat} (h : InHeap va) : Canonical va := by
  obtain ⟨hlow, hhigh⟩ := h
  unfold KERNEL_HEAP at hlow
  unfold Canonical
  omega

/-- The pages of a range that ends in the slot. -/
theorem inHeap_pageAt {p count i : Nat} (hlow : KERNEL_HEAP ≤ p)
    (hend : p + count * 4096 ≤ KERNEL_END) (hi : i < count) : InHeap (pageAt p i) := by
  unfold InHeap pageAt u64
  unfold KERNEL_END at hend ⊢
  omega

/-- A range of the first `2 ^ 27` pages of the heap ends in the slot. -/
theorem heap_range_le {k count : Nat} (h : k + count ≤ 2 ^ 27) :
    KERNEL_HEAP + k * 4096 + count * 4096 ≤ KERNEL_END := by
  unfold KERNEL_HEAP KERNEL_END
  omega

theorem heap_page_ne (k : Nat) : KERNEL_HEAP + k * 4096 ≠ 0 := by
  unfold KERNEL_HEAP
  omega

/-- A page lies in the slot as a whole. -/
theorem inHeap_byteAddr {p j : Nat} (hp : p % 4096 = 0) (h : InHeap (pageAt p (j / 4096))) :
    InHeap (byteAddr p j) := by
  have halign := pageAt_mod hp (j / 4096)
  unfold InHeap KERNEL_HEAP KERNEL_END at *
  rw [byteAddr_page hp]
  omega

/-! ## Roots that agree -/

/-- The root `r` leads to the tables of the current address space for the slots of the kernel. It is a
page in use, and unless it is the current root it holds none of these tables. -/
structure Joined (s : State) (r : Nat) : Prop where
  linked : entry s.mem (pageMask s.cr3) (258 : Fin 512) &&& PAGE_PRESENT ≠ 0
  entry_eq : ∀ i ∈ kernelSlots, entry s.mem (pageMask r) i = entry s.mem (pageMask s.cr3) i
  apart : r / 4096 = s.root ∨ r / 4096 ∉ s.tableFrames
  used : s.pmm.bitmap.test (r / 4096) = true

section Under

variable {s : State} {r : Nat} (h : Joined s r)

include h

theorem Joined.entry_at {va : Nat} (hva : levelIndex 39 va ∈ kernelSlots) :
    entry s.mem (pageMask r) (tableIndex 39 (va &&& 0xFFFFFFFFFFFF))
      = entry s.mem (pageMask s.cr3) (tableIndex 39 (va &&& 0xFFFFFFFFFFFF)) :=
  h.entry_eq (levelIndex 39 va) hva

/-- **An address of the kernel is bound to the same page.** -/
theorem vmmGetPage_under {va : Nat} (hva : levelIndex 39 va ∈ kernelSlots) :
    vmmGetPage va (s.under r) = vmmGetPage va s := by
  simp only [vmmGetPage, State.under, h.entry_at hva]

theorem vmmGetPhysical_under {va : Nat} (hva : InHeap va) :
    vmmGetPhysical va (s.under r) = vmmGetPhysical va s := by
  rw [vmmGetPhysical, vmmGetPhysical, vmmGetPage_under h (hva.slot_mem)]

theorem translate_under {va : Nat} (hva : InHeap va) :
    translate va (s.under r) = translate va s := by
  simp only [translate, State.under, h.entry_at (hva.slot_mem)]

end Under

/-! ## Functions that do not look at the root -/

section Blind

variable (r : Nat)

theorem blind_acquire (m : Mutex) : Blind (State.under · r) (acquire m) := by
  intro s
  cases hm : s.mutexes m with
  | true =>
      have hm' : (s.under r).mutexes m = true := hm
      exact ⟨by rw [acquire_held hm, acquire_held hm', carry_error], fun _ _ _ => trivial⟩
  | false =>
      have hm' : (s.under r).mutexes m = false := hm
      exact ⟨by rw [acquire_free hm, acquire_free hm', carry_ok]; rfl, fun _ _ _ => trivial⟩

theorem blind_release (m : Mutex) : Blind (State.under · r) (release m) := .modify fun _ => rfl

theorem blind_pmmAllocPage : Blind (State.under · r) pmmAllocPage := by
  refine (blind_acquire r _).bind fun _ => .get (fun _ => rfl) fun s => ?_
  cases pmmFindPage s.pmm with
  | none => exact .throw _
  | some page =>
      simp only
      split
      · exact .pure _
      · exact .bind (.modify fun _ => rfl) fun _ => (blind_release r _).bind fun _ => .pure _

theorem blind_pmmFreePage (page : Nat) : Blind (State.under · r) (pmmFreePage page) :=
  (blind_acquire r _).bind fun _ => .bind (.modify fun _ => rfl) fun _ => blind_release r _

theorem blind_vmmNextTable (table index : Nat) :
    Blind (State.under · r) (vmmNextTable table index) := by
  refine .get (fun _ => rfl) fun s => ?_
  simp only
  split
  · refine (blind_pmmAllocPage r).bind fun ptr => ?_
    split
    · exact .throw _
    · exact .bind (.modify fun _ => rfl) fun _ => .bind (.modify fun _ => rfl) fun _ => .pure _
  · exact .pure _

theorem blind_newPml4 : Blind (State.under · r) newPml4 := by
  refine (blind_pmmAllocPage r).bind fun cr3 => ?_
  split
  · exact .pure _
  · exact .bind (.modify fun _ => rfl) fun _ => .bind (.modify fun _ => rfl) fun _ =>
      .bind (.modify fun _ => rfl) fun _ => .pure _

end Blind

/-! ## Mapping a page -/

/-- A level whose table is there goes on to it. -/
theorem vmmNextTable_there {s : State} {table index : Nat}
    (h : entry s.mem table index &&& PAGE_PRESENT ≠ 0) :
    vmmNextTable table index s = .ok (pageMask (entry s.mem table index), s) := by
  rw [vmmNextTable, Prog.bind_ok (Prog.run_get _), if_neg h]
  rfl

/-- **`vmm_map_page` does the same** under a root that agrees. -/
theorem Joined.mapPage_same {s : State} {r : Nat} (h : Joined s r) {virtual : Nat}
    (hslot : InHeap virtual) (physical flags : Nat) :
    vmmMapPage virtual physical flags (s.under r)
      = carry (State.under · r) (vmmMapPage virtual physical flags s) := by
  have hlinked := h.linked
  rw [← hslot.slot, levelIndex_eq] at hlinked
  have hentry := h.entry_at hslot.slot_mem
  have hlinked' : entry (s.under r).mem (pageMask (s.under r).cr3)
      (tableIndex 39 (virtual &&& 0xFFFFFFFFFFFF)) &&& PAGE_PRESENT ≠ 0 := by
    show entry s.mem (pageMask r) _ &&& PAGE_PRESENT ≠ 0
    rw [hentry]
    exact hlinked
  rw [vmmMapPage, Prog.bind_ok (Prog.run_get _), Prog.bind_ok (Prog.run_get _),
    Prog.bind_ok (vmmNextTable_there hlinked), Prog.bind_ok (vmmNextTable_there hlinked')]
  -- behind the first level both are at the same table
  have htable : pageMask (entry (s.under r).mem (pageMask (s.under r).cr3)
      (tableIndex 39 (virtual &&& 0xFFFFFFFFFFFF)))
      = pageMask (entry s.mem (pageMask s.cr3) (tableIndex 39 (virtual &&& 0xFFFFFFFFFFFF))) :=
    congrArg pageMask hentry
  rw [htable]
  have hrest : ∀ pdpt, Blind (State.under · r) (vmmNextTable pdpt
      (tableIndex 30 (virtual &&& 0xFFFFFFFFFFFF)) >>= fun pd => vmmNextTable pd
        (tableIndex 21 (virtual &&& 0xFFFFFFFFFFFF)) >>= fun pt => modify fun s => { s with
          mem := s.mem.setQword (pt + 8 * tableIndex 12 (virtual &&& 0xFFFFFFFFFFFF))
            (physical ||| flags) }) := fun _ =>
    (blind_vmmNextTable r _ _).bind fun _ => (blind_vmmNextTable r _ _).bind fun _ =>
      .modify fun _ => rfl
  exact (hrest _ s).same

/-! ## Roots are not written to -/

/-- One level writes to the table it looks at and to a page that was free. -/
theorem vmmNextTable_mem {s s' : State} {f ptr : Nat} {i : Fin 512}
    (hrun : vmmNextTable (f * 4096) i s = .ok (ptr, s')) {a : Nat} (hf : a / 4096 ≠ f)
    (hused : ¬ s.pmm.Free (a / 4096)) : s'.mem a = s.mem a := by
  have hi := i.isLt
  rcases vmmNextTable_ok hrun with ⟨-, -, rfl⟩ | ⟨-, halign, -, hfree, -, rfl⟩
  · rfl
  · have hptr : a / 4096 ≠ ptr / 4096 := fun heq => hused (heq ▸ hfree)
    show clear _ ptr PAGE_SIZE a = s.mem a
    rw [clear, if_neg (by simp only [PAGE_SIZE]; omega)]
    exact Mem.setQword_outside (by omega)

/-- A table below the root is another page. -/
theorem ne_root_of_walk {s : State} (htree : s.PageTree) {is : List (Fin 512)} {f : Nat}
    (hlen : is.length ≤ 3) (hne : is ≠ []) (hwalk : walk pageFormat s.tables s.root is = some f) :
    s.root ≠ f := fun heq => hne (htree is [] f hlen (Nat.zero_le _) hwalk (congrArg some heq))

theorem root_not_free {s : State} (hfresh : s.FreshFrames) : ¬ s.pmm.Free s.root :=
  fun hfree => hfresh _ hfree ⟨[], Nat.zero_le _, rfl⟩

/-- **`vmm_map_page` does not write to the root** when the first level is there. -/
theorem vmmMapPage_root {s s' : State} {virtual physical flags : Nat} (htree : s.PageTree)
    (hfresh : s.FreshFrames) (hlarge : s.NoLargePage virtual)
    (hlinked : entry s.mem (pageMask s.cr3) (levelIndex 39 virtual) &&& PAGE_PRESENT ≠ 0)
    (hrun : vmmMapPage virtual physical flags s = .ok ((), s')) {a : Nat} (ha : a / 4096 = s.root) :
    s'.mem a = s.mem a := by
  rw [vmmMapPage, Prog.bind_ok (Prog.run_get _)] at hrun
  obtain ⟨pdpt, s₁, hrun₁, hrun⟩ := Prog.bind_eq_ok.mp hrun
  obtain ⟨pd, s₂, hrun₂, hrun⟩ := Prog.bind_eq_ok.mp hrun
  obtain ⟨pt, s₃, hrun₃, hrun⟩ := Prog.bind_eq_ok.mp hrun
  obtain ⟨f₁, -, rfl, -, -, hwalk₁⟩ := vmmNextTable_spec (i := levelIndex 39 virtual) htree hfresh
    (show ([] : List (Fin 512)).length < 3 by simp) rfl (hlarge [] _ _ _ rfl rfl) hrun₁
  -- the table of the second level is there, and each table that is written to is below the root
  obtain rfl : s = s₁ := by
    rw [levelIndex_eq] at hlinked
    rw [vmmNextTable_there hlinked] at hrun₁
    exact (Prod.mk.inj (Except.ok.inj hrun₁)).2
  obtain ⟨f₂, new₂, rfl, -, hgrows₂, hwalk₂⟩ := vmmNextTable_spec (i := levelIndex 30 virtual) htree
    hfresh (by simp) hwalk₁ (hlarge [_] _ _ _ rfl hwalk₁) hrun₂
  have hmem₂ : s₂.mem a = s.mem a := by
    refine vmmNextTable_mem (i := levelIndex 30 virtual) hrun₂ ?_ ?_
    · rw [ha]
      exact ne_root_of_walk htree (by simp) (by simp) hwalk₁
    · rw [ha]
      exact root_not_free hfresh
  obtain ⟨f₃, new₃, rfl, -, hgrows₃, hwalk₃⟩ := vmmNextTable_spec (i := levelIndex 21 virtual)
    hgrows₂.tree (hgrows₂.fresh hfresh) (by simp) hwalk₂
    (hgrows₂.along _ (le_refl _) hlarge [_, _] _ _ _ rfl hwalk₂) hrun₃
  have hmem₃ : s₃.mem a = s₂.mem a := by
    refine vmmNextTable_mem (i := levelIndex 21 virtual) hrun₃ ?_ ?_
    · rw [ha, ← hgrows₂.root_eq]
      exact ne_root_of_walk hgrows₂.tree (by simp) (by simp) hwalk₂
    · rw [ha, ← hgrows₂.root_eq]
      exact root_not_free (hgrows₂.fresh hfresh)
  have hne₃ : a / 4096 ≠ f₃ := by
    rw [ha, ← hgrows₂.root_eq, ← hgrows₃.root_eq]
    exact ne_root_of_walk hgrows₃.tree (by simp) (by simp) hwalk₃
  obtain rfl := (Prod.mk.inj (Except.ok.inj hrun)).2
  have hi := (levelIndex 12 virtual).isLt
  calc (s₃.mem.setQword (f₃ * 4096 + 8 * (levelIndex 12 virtual : Nat)) _) a
      = s₃.mem a := Mem.setQword_outside (by omega)
    _ = s₂.mem a := hmem₃
    _ = s.mem a := hmem₂

/-! ## Steps that keep the roots joined -/

section Keeps

variable {s s' : State} {r : Nat} (h : Joined s r)

include h

/-- What leaves both roots as they are keeps them joined. -/
theorem Joined.keeps (hcr3 : s'.cr3 = s.cr3) (hroot : ∀ a, a / 4096 = s.root → s'.mem a = s.mem a)
    (hmem : ∀ a, a / 4096 = r / 4096 → s'.mem a = s.mem a) (hapart : r / 4096 = s'.root ∨ r / 4096 ∉ s'.tableFrames)
    (hused : s'.pmm.bitmap.test (r / 4096) = true) : Joined s' r := by
  have hmask : ∀ x, pageMask x % 4096 = 0 ∧ pageMask x / 4096 = x / 4096 := fun x => by
    unfold pageMask
    omega
  have hown : ∀ i : Fin 512,
      entry s'.mem (pageMask s'.cr3) i = entry s.mem (pageMask s.cr3) i := fun i => by
    rw [hcr3]
    exact entry_congr (hmask _).1 (fun a ha => hroot a (ha.trans (hmask _).2)) i
  have hother : ∀ i : Fin 512, entry s'.mem (pageMask r) i = entry s.mem (pageMask r) i :=
    entry_congr (hmask _).1 fun a ha => hmem a (ha.trans (hmask _).2)
  refine ⟨?_, fun i hi => ?_, hapart, hused⟩
  · rw [hown 258]
    exact h.linked
  · rw [hown, hother]
    exact h.entry_eq i hi

theorem Joined.relock (m : Mutex → Bool) : Joined { s with mutexes := m } r :=
  ⟨h.linked, h.entry_eq, h.apart, h.used⟩

theorem Joined.not_free : ¬ s.pmm.Free (r / 4096) := fun hfree => by
  have hunused := hfree.unmarked
  rw [h.used] at hunused
  cases hunused

/-- Stores to frames that hold neither tables nor the root. -/
theorem Joined.stores {F : Set Nat} (hs : Stores s s' F) (hF : ∀ k ∈ F, k ∉ s.tableFrames)
    (hr : r / 4096 ∉ F) : Joined s' r := by
  refine h.keeps (by rw [hs.only]) (fun a ha => hs.mem_eq a fun hin => ?_)
    (fun a ha => hs.mem_eq a (ha ▸ hr)) ?_ ?_
  · rw [ha] at hin
    exact hF _ hin ⟨[], Nat.zero_le _, rfl⟩
  · have hcr3 : s'.cr3 = s.cr3 := by rw [hs.only]
    rw [hs.frames_eq hF, State.root, hcr3]
    exact h.apart
  · rw [hs.pmm_eq]
    exact h.used

/-- A page that is mapped with new tables. -/
theorem Joined.maps {new : Finset Nat} {virtual value : Nat} (hm : Maps s s' new virtual value)
    (hroot : ∀ a, a / 4096 = s.root → s'.mem a = s.mem a) : Joined s' r := by
  have hcr3 : s'.cr3 = s.cr3 := by rw [hm.only]
  have hused : s'.pmm.bitmap.test (r / 4096) = true := by
    rw [hm.takes.test_eq, h.used, Bool.true_or]
  rcases h.apart with heq | hnot
  · refine h.keeps hcr3 hroot (fun a ha => hroot a (ha.trans heq)) (Or.inl ?_) hused
    rw [State.root, hcr3]
    exact heq
  · have htable : r / 4096 ∉ s'.tableFrames := by
      rw [hm.frames_eq]
      rintro (hin | hin)
      · exact hnot hin
      · exact h.not_free (hm.takes.free _ hin)
    exact h.keeps hcr3 hroot (fun a ha => hm.mem_eq a (ha ▸ htable)) (Or.inr htable) hused

/-- The bitmap may change if the root stays marked. -/
theorem Joined.withPmm {p : Pmm} (hused : p.bitmap.test (r / 4096) = true) :
    Joined (s.withPmm p) r := ⟨h.linked, h.entry_eq, h.apart, hused⟩

end Keeps

/-! ## Steps in lockstep -/

section Steps

variable {s : State} {r : Nat} (h : Joined s r)

include h

theorem Joined.lock_acquire (m : Mutex) :
    Lockstep (State.under · r) (acquire m) s fun _ s' => Joined s' r :=
  (blind_acquire r m).lockstep fun _ _ hrun => by
    rw [acquire_ok hrun]
    exact h.relock _

theorem Joined.lock_release (m : Mutex) :
    Lockstep (State.under · r) (release m) s fun _ s' => Joined s' r :=
  (blind_release r m).lockstep fun _ _ hrun => by
    obtain ⟨-, rfl⟩ := Prod.mk.inj (Except.ok.inj hrun)
    exact h.relock _

theorem Joined.lock_alloc :
    Lockstep (State.under · r) pmmAllocPage s fun _ s' => Joined s' r :=
  (blind_pmmAllocPage r).lockstep fun page s' hrun => by
    by_cases hz : page = 0
    · subst hz
      rw [pmmAllocPage_null hrun]
      exact h.relock _
    · obtain ⟨-, -, -, hfree, rfl⟩ := pmmAllocPage_ok hrun hz
      refine h.withPmm ?_
      rw [(takes_markPageUsed hfree).test_eq, h.used, Bool.true_or]

/-- A page other than the root is released. -/
theorem Joined.lock_free {page : Nat} (hne : page / 4096 ≠ r / 4096) :
    Lockstep (State.under · r) (pmmFreePage page) s fun _ s' => Joined s' r :=
  (blind_pmmFreePage r page).lockstep fun _ s' hrun => by
    rw [pmmFreePage_ok hrun]
    refine h.withPmm ?_
    rw [test_markPageFree, h.used, decide_eq_false hne]
    rfl

/-- **A page of the slots is mapped.** -/
theorem Joined.lock_map {virtual physical flags : Nat} (htree : s.PageTree) (hfresh : s.FreshFrames)
    (hlarge : s.NoLargePage virtual) (hslot : InHeap virtual)
    (hvalue : physical ||| flags < 2 ^ 64) :
    Lockstep (State.under · r) (vmmMapPage virtual physical flags) s fun _ s' => Joined s' r := by
  refine ⟨h.mapPage_same hslot physical flags, fun u s' hrun => ?_⟩
  obtain ⟨new, -, hmaps⟩ := vmmMapPage_spec htree hfresh hlarge hvalue hrun
  exact h.maps hmaps fun a ha => vmmMapPage_root htree hfresh hlarge (by
    rw [hslot.slot]
    exact h.linked) hrun ha

end Steps

/-! ## Accesses in lockstep -/

/-- Storing bytes in the slots. -/
theorem Joined.lock_store {r : Nat} {F : Set Nat} (bs : List UInt8) : ∀ {s : State} {va : Nat},
    Joined s r → (∀ k ∈ F, k ∉ s.tableFrames) → r / 4096 ∉ F → BytesIn s va bs.length F →
      (∀ j, j < bs.length → InHeap (byteAddr va j)) →
      Lockstep (State.under · r) (storeBytes va bs) s fun _ s' => Joined s' r ∧ Stores s s' F := by
  induction bs with
  | nil =>
      intro s va h _ _ _ _
      exact .pure ⟨h, .refl _ _⟩
  | cons b bs ih =>
      intro s va h hF hr hbytes hslots
      have hva := byteAddr_zero hbytes.va_lt
      have hslot := hslots 0 (by simp)
      rw [hva] at hslot
      have hbyte : Lockstep (State.under · r) (storeByte va b) s fun _ s' =>
          Joined s' r ∧ Stores s s' F := by
        constructor
        · rw [storeByte, Prog.bind_ok (Prog.run_get _), Prog.bind_ok (Prog.run_get _),
            translate_under h hslot]
          cases translate va s with
          | some pa => rfl
          | none => rfl
        · intro u s' hrun
          have hone : BytesIn s va [b].length F :=
            ⟨hbytes.va_lt, fun j hj => hbytes.noLarge j (by simp at hj ⊢; omega),
              fun j pa hj => hbytes.frame j pa (by simp at hj ⊢; omega)⟩
          have hstores := (storeBytes_spec [b] hF hone (Prog.bind_eq_ok.mpr ⟨u, s', hrun, rfl⟩)).1
          exact ⟨h.stores hstores hF hr, hstores⟩
      -- the byte changes no table, so the others are still in the frames
      refine hbyte.bind fun _ s₁ _ h₁ => ?_
      have hrest := ih h₁.1 (h₁.2.not_table hF) hr (hbytes.tail hF h₁.2) fun j hj => by
        rw [byteAddr_succ]
        exact hslots (j + 1) (by simpa using hj)
      exact hrest.mono fun _ s₂ h₂ => ⟨h₂.1, h₁.2.trans h₂.2⟩

/-- Loading bytes in the slots. -/
theorem Joined.lock_load {s : State} {r : Nat} (h : Joined s r) (n : Nat) : ∀ {va : Nat},
    va < 2 ^ 64 → (∀ j, j < n → InHeap (byteAddr va j)) →
      Lockstep (State.under · r) (loadBytes va n) s fun _ s' => s' = s := by
  induction n with
  | zero => exact fun _ _ => .pure rfl
  | succ n ih =>
      intro va hva hslots
      have hslot := hslots 0 (by omega)
      rw [byteAddr_zero hva] at hslot
      have hbyte : Lockstep (State.under · r) (loadByte va) s fun _ s' => s' = s := by
        constructor
        · rw [loadByte, Prog.bind_ok (Prog.run_get _), Prog.bind_ok (Prog.run_get _),
            translate_under h hslot]
          cases translate va s with
          | some pa => rfl
          | none => rfl
        · intro b s' hrun
          rw [loadByte, Prog.bind_ok (Prog.run_get _)] at hrun
          cases htranslate : translate va s with
          | some pa =>
              rw [htranslate] at hrun
              exact (Prod.mk.inj (Except.ok.inj hrun)).2.symm
          | none =>
              rw [htranslate] at hrun
              cases hrun
      refine hbyte.bind fun b s₁ _ h₁ => ?_
      subst h₁
      refine (ih (u64_lt _) fun j hj => ?_).bind fun bs s₂ _ h₂ => .pure h₂
      rw [byteAddr_succ]
      exact hslots (j + 1) (by omega)

/-- Storing bytes in a range that can be written to. -/
theorem Joined.lock_write {s : State} {r p count : Nat} {F : Set Nat} (h : Joined s r)
    (hw : Writable s p count F) (hr : r / 4096 ∉ F) (hslots : ∀ i, i < count → InHeap (pageAt p i))
    (o : Nat) (bs : List UInt8) (hle : o + bs.length ≤ count * 4096) :
    Lockstep (State.under · r) (storeBytes (byteAddr p o) bs) s fun _ s' =>
      Joined s' r ∧ Writable s' p count F := by
  have hadd := byteAddr_add p o
  refine (h.lock_store bs hw.not_table hr (hw.range.bytesIn hw.frame hle) fun j hj => ?_).mono
    fun _ s' h' => ⟨h'.1, hw.stores h'.2⟩
  rw [hadd]
  exact inHeap_byteAddr hw.range.aligned (hslots _ (by omega))

/-! ## The search -/

/-- The last `n` pages of slot 258 are not mapped. -/
def State.Spare (s : State) (n : Nat) : Prop :=
  n ≤ 2 ^ 27 ∧ ∀ i, 2 ^ 27 - n ≤ i → i < 2 ^ 27 → vmmGetPhysical (pageAt KERNEL_HEAP i) s = none

theorem State.Spare.mono {s : State} {n m : Nat} (h : s.Spare n) (hle : m ≤ n) : s.Spare m :=
  ⟨hle.trans h.1, fun i hlow hi => h.2 i (by omega) hi⟩

section Search

variable {s : State} {count n : Nat} (hspare : s.Spare n) (hpos : 1 ≤ count) (hle : count ≤ n)

include hspare hpos hle

/-- With spare pages at the end of the slot, the range that is found ends in front of them. -/
theorem State.Spare.find : ∃ k, vmmFind KERNEL_HEAP count s = some (KERNEL_HEAP + k * 4096) ∧
    k + n ≤ 2 ^ 27 ∧ s.Unmapped (KERNEL_HEAP + k * 4096) count ∧
    ∀ j, j < k → ¬ s.Unmapped (KERNEL_HEAP + j * 4096) count := by
  obtain ⟨hn, hfree⟩ := hspare
  -- the spare pages themselves are a range
  have hlast : s.Unmapped (KERNEL_HEAP + (2 ^ 27 - n) * 4096) count := fun i hi => by
    rw [pageAt_heap]
    exact hfree _ (by omega) (by omega)
  have hrange : ∃ k, KERNEL_HEAP + (k + count) * 4096 ≤ 2 ^ 64 ∧
      s.Unmapped (KERNEL_HEAP + k * 4096) count :=
    ⟨2 ^ 27 - n, by unfold KERNEL_HEAP; omega, hlast⟩
  obtain ⟨k, hfind, -, hunmapped, hleast⟩ := vmmFind_lowest (by decide) hpos hrange
  have hk : k ≤ 2 ^ 27 - n := not_lt.mp fun hlt => hleast _ hlt hlast
  exact ⟨k, hfind, by omega, hunmapped, hleast⟩

/-- **The search finds the same range** under a root that agrees. -/
theorem Joined.find_same {r : Nat} (h : Joined s r) :
    vmmFind KERNEL_HEAP count (s.under r) = vmmFind KERNEL_HEAP count s := by
  obtain ⟨k, hfind, hk, hunmapped, hleast⟩ := hspare.find hpos hle
  have hiff : ∀ j, j ≤ k → ((s.under r).Unmapped (KERNEL_HEAP + j * 4096) count ↔
      s.Unmapped (KERNEL_HEAP + j * 4096) count) := by
    intro j hj
    have hend := heap_range_le (show j + count ≤ 2 ^ 27 by omega)
    exact forall₂_congr fun i hi => by
      rw [vmmGetPhysical_under h (inHeap_pageAt (Nat.le_add_right _ _) hend hi)]
  rw [hfind]
  exact vmmFind_reaches (by decide) (by unfold KERNEL_HEAP; omega) (by omega) (by omega)
    (fun j hj hun => hleast j hj ((hiff j (by omega)).mp hun)) ((hiff k (le_refl _)).mpr hunmapped)

end Search

end Windozz.Kernel

import Windozz.Kernel.Heap

set_option autoImplicit false

/-! # What the calls are made of

A call of the heap allocates pages, adds page tables, releases pages, and does other things that
leave the page manager alone. A relation between states that covers these (`Steps`) covers every
call that returns: this is how a fact about the page manager is carried to `kmalloc` and `kfree`.
-/

namespace Windozz.Kernel

open Prog

/-- A relation that covers the allocation of a page, the step to a page table and everything that
leaves the page manager alone. -/
structure Steps (R : State → State → Prop) : Prop where
  other : ∀ {s s' : State}, s'.pmm = s.pmm → R s s'
  trans : ∀ {s s' s'' : State}, R s s' → R s' s'' → R s s''
  alloc : ∀ {s s' : State} {page : Nat}, pmmAllocPage s = .ok (page, s') → R s s'
  table : ∀ {s s' : State} {table index ptr : Nat},
    vmmNextTable table index s = .ok (ptr, s') → R s s'

/-- The relation also covers the release of a page. -/
def Frees (R : State → State → Prop) : Prop :=
  ∀ {s s' : State} {page : Nat}, page < 2 ^ 64 → pmmFreePage page s = .ok ((), s') → R s s'

theorem vmmGetPhysical_lt {va pa : Nat} {s : State} (h : vmmGetPhysical va s = some pa) :
    pa < 2 ^ 64 := by
  unfold vmmGetPhysical at h
  split at h
  · rename_i hw
    obtain rfl := Option.some.inj h
    have hlt := hw.2
    unfold MMIO_REGION at hlt
    omega
  · simp only at h
    split at h
    · obtain rfl := Option.some.inj h
      exact u64_lt _
    · cases h

namespace Steps

variable {R : State → State → Prop} (h : Steps R)

include h

theorem pure {α : Type} (a : α) : Relates R (pure a : K α) := relates_pure (fun _ => h.other rfl) a

theorem bind {α β : Type} {m : K α} {f : α → K β} (hm : Relates R m) (hf : ∀ a, Relates R (f a)) :
    Relates R (m >>= f) := relates_bind h.trans hm hf

theorem acquire (m : Mutex) : Relates R (acquire m) := by
  intro s u s' hrun
  rw [acquire_ok hrun]
  exact h.other rfl

theorem release (m : Mutex) : Relates R (release m) := relates_modify fun _ => h.other rfl

theorem storeBytes (bs : List UInt8) : ∀ va : Nat, Relates R (storeBytes va bs) := by
  induction bs with
  | nil => exact fun _ => h.pure _
  | cons b bs ih =>
      refine fun va => h.bind ?_ fun _ => ih _
      intro s u s' hrun
      obtain ⟨pa, -, rfl⟩ := storeByte_ok hrun
      exact h.other rfl

theorem loadBytes (n : Nat) : ∀ va : Nat, Relates R (loadBytes va n) := by
  induction n with
  | zero => exact fun _ => h.pure _
  | succ n ih =>
      refine fun va => h.bind (relates_get fun s => ?_) fun _ => h.bind (ih _) fun _ => h.pure _
      cases translate va s with
      | some pa => exact h.pure _
      | none => exact relates_throw _

theorem vmmMapPage (virtual physical flags : Nat) : Relates R (vmmMapPage virtual physical flags) :=
  relates_get fun _ => h.bind (fun _ _ _ hrun => h.table hrun) fun _ =>
    h.bind (fun _ _ _ hrun => h.table hrun) fun _ => h.bind (fun _ _ _ hrun => h.table hrun) fun _ =>
      relates_modify fun _ => h.other rfl

theorem allocLoop (ptr flags n : Nat) : ∀ i : Nat, Relates R (allocLoop ptr flags n i) := by
  induction n with
  | zero => exact fun _ => h.pure _
  | succ n ih =>
      refine fun i => h.bind (fun _ _ _ hrun => h.alloc hrun) fun phys => ?_
      split
      · exact h.pure _
      · exact h.bind (h.vmmMapPage _ _ _) fun _ => ih _

theorem vmmAlloc (start count flags : Nat) : Relates R (vmmAlloc start count flags) := by
  refine relates_get fun s => ?_
  split
  · exact h.pure _
  · cases vmmFind start count s with
    | none => exact relates_throw _
    | some ptr =>
        simp only
        split
        · exact h.pure _
        · refine h.bind (h.acquire _) fun _ => h.bind (h.allocLoop _ _ _ _) fun done =>
            h.bind (h.release _) fun _ => ?_
          split
          · exact h.pure _
          · exact h.pure _

/-- Such a relation covers `kmalloc`. -/
theorem kmalloc (n : Nat) : Relates R (kmalloc n) := by
  refine h.bind (h.acquire _) fun _ => h.bind (h.vmmAlloc _ _ _) fun ptr => ?_
  split
  · exact h.bind (h.release _) fun _ => h.pure _
  · exact h.bind (h.storeBytes _ _) fun _ => h.bind (h.storeBytes _ _) fun _ =>
      h.bind (h.storeBytes _ _) fun _ => h.bind (h.release _) fun _ => h.pure _

variable (hfree : Frees R)

include hfree

theorem freeLoop (virtual n : Nat) : ∀ i : Nat, Relates R (freeLoop virtual n i) := by
  induction n with
  | zero => exact fun _ => h.pure _
  | succ n ih =>
      refine fun i => relates_get fun s => ?_
      cases hphys : vmmGetPhysical (pageAt virtual i) s with
      | none => exact ih _
      | some phys =>
          exact h.bind (fun _ _ _ hrun => hfree (vmmGetPhysical_lt hphys) hrun) fun _ =>
            h.bind (h.vmmMapPage _ _ _) fun _ => ih _

theorem vmmFree (virtual count : Nat) : Relates R (vmmFree virtual count) :=
  h.bind (h.acquire _) fun _ => h.bind (h.freeLoop hfree _ _ _) fun _ => h.release _

/-- Such a relation covers `kfree`. -/
theorem kfree (ptr : Nat) : Relates R (kfree ptr) :=
  h.bind (h.bind (h.loadBytes _ _) fun _ => h.pure _) fun _ => h.vmmFree hfree _ _

end Steps

end Windozz.Kernel

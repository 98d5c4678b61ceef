import Windozz.Kernel.Mmio
import Windozz.Kernel.Process

set_option autoImplicit false

/-! # Mutexes

The four mutexes nest: `sched_mutex` over `heap_mutex` over `vmm_mutex` over `pmm_mutex`. `Locks`
is a triple over the mutexes that are held. Every function of the memory manager leaves them as
they were, but for one: `pmm_alloc_page` returns with `pmm_mutex` held when there is no page.
`vmm_map_page` never returns then; `vmm_alloc` and `create_process` go on.
-/

namespace Windozz.Kernel

open Prog

/-! ## Triples -/

/-- A state with mutexes. -/
class HasMutexes (σ : Type) where
  mutexes : σ → Mutex → Bool

instance : HasMutexes State := ⟨State.mutexes⟩

instance : HasMutexes System := ⟨fun s => s.kernel.mutexes⟩

/-- The program does not wait for a mutex, and when it returns these are held. -/
structure LocksAt {σ α : Type} [HasMutexes σ] (m : Prog σ Stop α) (s : σ) (held : Mutex → Bool) :
    Prop where
  held : ∀ {x s'}, m s = .ok (x, s') → HasMutexes.mutexes s' = held
  quiet : ∀ {e}, m s = .error e → ∀ x, e ≠ .spin x

namespace LocksAt

variable {σ α β : Type} [HasMutexes σ] {m m' : Prog σ Stop α} {f : α → Prog σ Stop β} {s s' : σ}
  {held : Mutex → Bool}

theorem of_ok {x : α} (hrun : m s = .ok (x, s')) (h : HasMutexes.mutexes s' = held) :
    LocksAt m s held := by
  constructor
  · intro y s'' hrun'
    rw [hrun] at hrun'
    rw [← (Prod.mk.inj (Except.ok.inj hrun')).2]
    exact h
  · intro e hrun'
    rw [hrun] at hrun'
    cases hrun'

theorem of_error {e : Stop} (hrun : m s = .error e) (h : ∀ x, e ≠ .spin x) : LocksAt m s held := by
  constructor
  · intro y s'' hrun'
    rw [hrun] at hrun'
    cases hrun'
  · intro e' hrun'
    rw [hrun] at hrun'
    rw [← Except.error.inj hrun']
    exact h

/-- What counts is the run. -/
theorem congr (h : m s = m' s') : LocksAt m s held ↔ LocksAt m' s' held :=
  ⟨fun ⟨h₁, h₂⟩ => ⟨fun hr => h₁ (h.trans hr), fun hr => h₂ (h.trans hr)⟩,
    fun ⟨h₁, h₂⟩ => ⟨fun hr => h₁ (h.symm.trans hr), fun hr => h₂ (h.symm.trans hr)⟩⟩

/-- A sequence, when its first part returns. -/
theorem bind_iff {x : α} (hrun : m s = .ok (x, s')) :
    LocksAt (m >>= f) s held ↔ LocksAt (f x) s' held := congr (bind_ok hrun)

end LocksAt

/-- The same from every state in which `before` are held. -/
def Locks {σ α : Type} [HasMutexes σ] (m : Prog σ Stop α) (before after : Mutex → Bool) : Prop :=
  ∀ s, HasMutexes.mutexes s = before → LocksAt m s after

namespace Locks

section Rules

variable {σ α β : Type} [HasMutexes σ] {m : Prog σ Stop α} {f : α → Prog σ Stop β}
  {a b c : Mutex → Bool}

theorem pure (x : α) : Locks (pure x : Prog σ Stop α) a a := fun s hs => .of_ok (run_pure x s) hs

theorem throw {e : Stop} (he : ∀ x, e ≠ .spin x) : Locks (throw e : Prog σ Stop α) a b :=
  fun s _ => .of_error (run_throw e s) he

theorem bind (hm : Locks m a b) (hf : ∀ x, Locks (f x) b c) : Locks (m >>= f) a c := by
  intro s hs
  cases hrun : m s with
  | ok p => exact (LocksAt.bind_iff hrun).mpr (hf p.1 p.2 ((hm s hs).held hrun))
  | error e => exact .of_error (bind_error hrun) ((hm s hs).quiet hrun)

theorem get {f : σ → Prog σ Stop β} (hf : ∀ s, HasMutexes.mutexes s = a → Locks (f s) a b) :
    Locks (get >>= f) a b := fun s hs => (LocksAt.bind_iff (run_get s)).mpr (hf s hs s hs)

theorem modify {g : σ → σ} (hg : ∀ s, HasMutexes.mutexes (g s) = HasMutexes.mutexes s) :
    Locks (modify g : Prog σ Stop PUnit) a a := fun s hs => .of_ok (run_modify g s) ((hg s).trans hs)

end Rules

variable {α β : Type} {m : K α} {a b : Mutex → Bool}

theorem acquire {x : Mutex} (hx : a x = false) :
    Locks (acquire x) a (Function.update a x true) := by
  intro s hs
  subst hs
  exact .of_ok (acquire_free hx) rfl

theorem release (x : Mutex) : Locks (release x) a (Function.update a x false) := by
  intro s hs
  subst hs
  exact .of_ok (run_release x s) rfl

theorem unlock {x : Mutex} (hx : a x = false) :
    Function.update (Function.update a x true) x false = a := by
  rw [Function.update_idem, ← hx, Function.update_eq_self]

/-- A body between `acquire` and `release`. -/
theorem critical {x : Mutex} {g : α → K β} (hx : a x = false)
    (hm : Locks m (Function.update a x true) (Function.update a x true))
    (hg : ∀ y, Locks (g y) a a) :
    Locks (do Kernel.acquire x; let y ← m; Kernel.release x; g y) a a := by
  refine bind (acquire hx) fun _ => bind hm fun y => bind (release x) fun _ => ?_
  rw [unlock hx]
  exact hg y

theorem storeBytes (bs : List UInt8) : ∀ va : Nat, Locks (storeBytes va bs) a a := by
  induction bs with
  | nil => exact fun _ => pure _
  | cons x bs ih =>
      refine fun va => bind (get fun s hs => ?_) fun _ => ih _
      cases translate va s with
      | none => exact throw nofun
      | some pa => exact fun s' _ => .of_ok (run_set s' _) hs

theorem loadBytes (n : Nat) : ∀ va : Nat, Locks (loadBytes va n) a a := by
  induction n with
  | zero => exact fun _ => pure _
  | succ n ih =>
      refine fun va => bind (get fun s _ => ?_) fun _ => bind (ih _) fun _ => pure _
      cases translate va s with
      | none => exact throw nofun
      | some pa => exact pure _

theorem loadQword (va : Nat) : Locks (loadQword va) a a := bind (loadBytes 8 va) fun _ => pure _

theorem moveUnits (width n : Nat) : ∀ dest src : Nat, Locks (moveUnits width dest src n) a a := by
  induction n with
  | zero => exact fun _ _ => pure _
  | succ n ih => exact fun _ _ => bind (loadBytes _ _) fun _ => bind (storeBytes _ _) fun _ => ih _ _

theorem memcpy (dest src num : Nat) : Locks (memcpy dest src num) a a :=
  bind (moveUnits _ _ _ _) fun _ => moveUnits _ _ _ _

theorem recordRegion (virtual physical pages : Nat) (name : List UInt8) :
    Locks (recordRegion virtual physical pages name) a a :=
  get fun _ _ => bind (storeBytes _ _) fun _ => bind (storeBytes _ _) fun _ =>
    bind (storeBytes _ _) fun _ => bind (storeBytes _ _) fun _ => modify fun _ => rfl

/-! ### Tables and pages -/

section Pmm

variable (hpmm : a .pmm_mutex = false)

include hpmm

/-- Without a page for the table, `vmm_map_page` does not return. -/
theorem vmmNextTable (table index : Nat) : Locks (vmmNextTable table index) a a := by
  refine get fun s hs => ?_
  by_cases habsent : entry s.mem table index &&& PAGE_PRESENT = 0
  · simp only [if_pos habsent]
    intro s hs
    subst hs
    cases hfind : pmmFindPage s.pmm with
    | none =>
        have halloc : pmmAllocPage s = .error .hang := by
          rw [pmmAllocPage_run hpmm, hfind]
        exact .of_error (bind_error halloc) nofun
    | some page =>
        by_cases hz : page = 0
        · subst hz
          have halloc : pmmAllocPage s = .ok (0, { s with
              mutexes := Function.update s.mutexes .pmm_mutex true }) := by
            rw [pmmAllocPage_run hpmm, hfind]
            rfl
          exact .of_error ((bind_ok halloc).trans rfl) nofun
        · have halloc : pmmAllocPage s = .ok (page, s.withPmm (pmmMarkPageUsed page s.pmm)) := by
            rw [pmmAllocPage_run hpmm, hfind]
            exact if_neg hz
          rw [LocksAt.bind_iff halloc, if_neg hz]
          exact .of_ok rfl rfl
  · simp only [if_neg habsent]
    exact pure _

theorem vmmMapPage (virtual physical flags : Nat) :
    Locks (vmmMapPage virtual physical flags) a a :=
  get fun _ _ => bind (vmmNextTable hpmm _ _) fun _ => bind (vmmNextTable hpmm _ _) fun _ =>
    bind (vmmNextTable hpmm _ _) fun _ => modify fun _ => rfl

theorem pmmFreePage (page : Nat) : Locks (pmmFreePage page) a a := by
  intro s hs
  subst hs
  exact .of_ok (pmmFreePage_run hpmm page) rfl

theorem freeLoop (virtual n : Nat) : ∀ i : Nat, Locks (freeLoop virtual n i) a a := by
  induction n with
  | zero => exact fun _ => pure _
  | succ n ih =>
      refine fun i => get fun s _ => ?_
      cases vmmGetPhysical (pageAt virtual i) s with
      | none => exact ih _
      | some phys =>
          exact bind (pmmFreePage hpmm _) fun _ => bind (vmmMapPage hpmm _ _ _) fun _ => ih _

theorem mmioLoop (virtual physical n : Nat) :
    ∀ i : Nat, Locks (mmioLoop virtual physical n i) a a := by
  induction n with
  | zero => exact fun _ => pure _
  | succ n ih => exact fun i => bind (vmmMapPage hpmm _ _ _) fun _ => ih _

variable (hvmm : a .vmm_mutex = false)

include hvmm

theorem vmmFree (virtual count : Nat) : Locks (vmmFree virtual count) a a :=
  critical (g := fun _ => Pure.pure ()) hvmm
    (freeLoop ((Function.update_of_ne (by decide) _ _).trans hpmm) _ _ _) fun _ => pure _

theorem kfree (ptr : Nat) : Locks (kfree ptr) a a :=
  bind (loadQword _) fun _ => vmmFree hpmm hvmm _ _

theorem vmmCreateMmio (physical pages : Nat) (name : List UInt8) :
    Locks (vmmCreateMmio physical pages name) a a := by
  have hpmm' : Function.update a .vmm_mutex true .pmm_mutex = false :=
    (Function.update_of_ne (by decide) _ _).trans hpmm
  refine bind (acquire hvmm) fun _ => get fun s _ => ?_
  cases vmmFind MMIO_REGION pages s with
  | none => exact throw nofun
  | some virtual =>
      by_cases hz : virtual = 0
      · simp only [if_pos hz]
        exact throw nofun
      · simp only [if_neg hz]
        refine bind (mmioLoop hpmm' _ _ _ _) fun _ => bind (recordRegion _ _ _ _) fun _ =>
          bind (release _) fun _ => ?_
        rw [unlock hvmm]
        exact pure _

end Pmm

/-- A function of the memory manager, called from the scheduler. -/
theorem onKernel (hm : Locks m a b) : Locks (onKernel m) a b := by
  intro s hs
  have h := hm s.kernel hs
  cases hrun : m s.kernel with
  | ok p => exact .of_ok (onKernel_eq_ok.mpr ⟨p.2, hrun, rfl⟩) (h.held hrun)
  | error e => exact .of_error (onKernel_eq_error hrun) (h.quiet hrun)

theorem onSched (f : Sched → Sched) : Locks (onSched f) a a := modify fun _ => rfl

end Locks

/-! ## Running out of pages -/

def State.lock (s : State) (x : Mutex) : State :=
  { s with mutexes := Function.update s.mutexes x true }

/-- The loop of `vmm_alloc` asks for a page when there is none. -/
def LoopStarves (ptr flags : Nat) : Nat → Nat → State → Prop
  | 0, _, _ => False
  | n + 1, i, s => pmmFindPage s.pmm = some 0 ∨
      ∃ phys s₁, pmmAllocPage s = .ok (phys, s₁) ∧ phys ≠ 0 ∧
        ∃ s₂, vmmMapPage (pageAt ptr i) phys flags s₁ = .ok ((), s₂) ∧
          LoopStarves ptr flags n (i + 1) s₂

/-- `vmm_alloc` asks for a page when there is none. -/
def VmmStarves (start count flags : Nat) (s : State) : Prop :=
  count < u64 (s.pmm.total_pages + (2 ^ 64 - u64 s.pmm.used_pages)) ∧
    ∃ ptr, ptr ≠ 0 ∧ vmmFind start count s = some ptr ∧
      LoopStarves ptr flags count 0 (s.lock .vmm_mutex)

/-- `kmalloc` asks for a page when there is none. -/
def HeapStarves (n : Nat) (s : State) : Prop :=
  VmmStarves KERNEL_HEAP (u64 (u64 (n + 16) + 4095) / 4096) KERNEL_HEAP_FLAGS (s.lock .heap_mutex)

/-- These mutexes are held when the program returns, unless pages run out: then it returns `null`
and `pmm_mutex` is held as well. -/
structure LocksUnless {α : Type} (starves : Prop) (null : α) (m : K α) (s : State)
    (held : Mutex → Bool) : Prop where
  fed : ¬ starves → LocksAt m s held
  starved : starves → ∃ s', m s = .ok (null, s') ∧
    s'.mutexes = Function.update held .pmm_mutex true

namespace LocksUnless

variable {α β : Type} {m : K α} {f : α → K β} {s : State} {starves starves' : Prop} {null : α}
  {null' : β} {P : α → State → Prop} {a b : Mutex → Bool}

theorem of_locks (h : Locks m a b) (hs : s.mutexes = a) : LocksUnless False null m s b :=
  ⟨fun _ => h s hs, False.elim⟩

theorem congr (h : LocksUnless starves null m s a) (hiff : starves ↔ starves') :
    LocksUnless starves' null m s a :=
  ⟨fun hn => h.fed (hn ∘ hiff.mp), fun hs => h.starved (hiff.mpr hs)⟩

/-- A sequence: either part may run out of pages. -/
theorem bind (hm : LocksUnless starves null m s a)
    (hnull : starves → ∀ s', s'.mutexes = Function.update a .pmm_mutex true →
      ∃ s'', f null s' = .ok (null', s'') ∧ s''.mutexes = Function.update b .pmm_mutex true)
    (hnext : ∀ x s', m s = .ok (x, s') → s'.mutexes = a → LocksUnless (P x s') null' (f x) s' b) :
    LocksUnless (starves ∨ ∃ x s', m s = .ok (x, s') ∧ P x s') null' (m >>= f) s b := by
  have hfed : ¬ starves → ∀ x s', m s = .ok (x, s') → s'.mutexes = a := fun hn _ _ hrun =>
    (hm.fed hn).held hrun
  constructor
  · intro hn
    have hstarves : ¬ starves := fun h => hn (Or.inl h)
    cases hrun : m s with
    | error e => exact .of_error (bind_error hrun) ((hm.fed hstarves).quiet hrun)
    | ok p =>
        have heq := hfed hstarves p.1 p.2 hrun
        exact (LocksAt.bind_iff hrun).mpr
          ((hnext p.1 p.2 hrun heq).fed fun hP => hn (Or.inr ⟨p.1, p.2, hrun, hP⟩))
  · intro h
    by_cases hstarves : starves
    · obtain ⟨s', hrun, heq⟩ := hm.starved hstarves
      obtain ⟨s'', hlast, heq'⟩ := hnull hstarves s' heq
      exact ⟨s'', (bind_ok hrun).trans hlast, heq'⟩
    · obtain ⟨x, s', hrun, hP⟩ := h.resolve_left hstarves
      obtain ⟨s'', hlast, heq'⟩ := (hnext x s' hrun (hfed hstarves x s' hrun)).starved hP
      exact ⟨s'', (bind_ok hrun).trans hlast, heq'⟩

/-- A sequence whose first part does not run out of pages. -/
theorem bind_locks (hm : Locks m s.mutexes a)
    (hnext : ∀ x s', m s = .ok (x, s') → s'.mutexes = a → LocksUnless (P x s') null' (f x) s' b) :
    LocksUnless (∃ x s', m s = .ok (x, s') ∧ P x s') null' (m >>= f) s b := by
  cases hrun : m s with
  | error e => exact ⟨fun _ => .of_error (bind_error hrun) ((hm s rfl).quiet hrun), nofun⟩
  | ok p =>
      rw [← hrun]
      exact ((@of_locks _ _ _ p.1 _ _ hm rfl).bind False.elim hnext).congr (iff_of_eq (false_or _))

/-- What counts is the run. -/
theorem of_run {m' : K α} {s' : State} (h : m s = m' s') (hm : LocksUnless starves null m' s' a) :
    LocksUnless starves null m s a := by
  refine ⟨fun hn => (LocksAt.congr h).mpr (hm.fed hn), fun hs => ?_⟩
  rw [h]
  exact hm.starved hs

end LocksUnless

theorem pmmAllocPage_locks {s : State} (hpmm : s.mutexes .pmm_mutex = false) :
    LocksUnless (pmmFindPage s.pmm = some 0) 0 pmmAllocPage s s.mutexes := by
  have hrun := pmmAllocPage_run hpmm
  refine ⟨fun hfed => ?_, fun hstarved => ?_⟩
  · cases hfind : pmmFindPage s.pmm with
    | none =>
        rw [hfind] at hrun
        exact .of_error hrun nofun
    | some page =>
        have hne : page ≠ 0 := fun hz => hfed (hz ▸ hfind)
        rw [hfind] at hrun
        simp only [if_neg hne] at hrun
        exact .of_ok hrun rfl
  · rw [hstarved] at hrun
    exact ⟨_, hrun, rfl⟩

theorem allocLoop_locks (ptr flags n : Nat) : ∀ (i : Nat) {s : State},
    s.mutexes .pmm_mutex = false →
    LocksUnless (LoopStarves ptr flags n i s) false (allocLoop ptr flags n i) s s.mutexes := by
  induction n with
  | zero => exact fun i s _ => ⟨fun _ => .of_ok (run_pure _ s) rfl, False.elim⟩
  | succ n ih =>
      intro i s hpmm
      refine LocksUnless.bind (P := fun phys s₁ => phys ≠ 0 ∧ ∃ s₂,
        vmmMapPage (pageAt ptr i) phys flags s₁ = .ok ((), s₂) ∧
          LoopStarves ptr flags n (i + 1) s₂) (pmmAllocPage_locks hpmm)
        (fun _ s' hs' => ⟨s', rfl, hs'⟩) fun phys s₁ _ hs₁ => ?_
      have hpmm₁ : s₁.mutexes .pmm_mutex = false := by rw [hs₁, hpmm]
      by_cases hz : phys = 0
      · simp only [hz, if_true]
        exact ⟨fun _ => .of_ok (run_pure _ s₁) hs₁, fun h => absurd rfl h.1⟩
      · rw [if_neg hz]
        refine (LocksUnless.bind_locks (P := fun _ s₂ => LoopStarves ptr flags n (i + 1) s₂)
          (Locks.vmmMapPage hpmm₁ _ _ _) fun _ s₂ _ hs₂ => ?_).congr ?_
        · rw [← hs₁, ← hs₂]
          exact ih (i + 1) (by rw [hs₂, hpmm₁])
        · exact ⟨fun ⟨(), h⟩ => ⟨hz, h⟩, fun h => ⟨(), h.2⟩⟩

/-- Another mutex that is released meanwhile. -/
theorem release_starved {x : Mutex} (hx : x ≠ .pmm_mutex) {held : Mutex → Bool}
    (hfree : held x = false) :
    Function.update (Function.update (Function.update held x true) .pmm_mutex true) x false
      = Function.update held .pmm_mutex true := by
  rw [Function.update_comm hx.symm, Function.update_idem, ← hfree, Function.update_eq_self]

theorem lock_ne {s : State} {x y : Mutex} (hne : y ≠ x) (hy : s.mutexes y = false) :
    (s.lock x).mutexes y = false := (Function.update_of_ne hne _ _).trans hy

theorem vmmAlloc_locks (start count flags : Nat) {s : State} (hpmm : s.mutexes .pmm_mutex = false)
    (hvmm : s.mutexes .vmm_mutex = false) :
    LocksUnless (VmmStarves start count flags s) 0 (vmmAlloc start count flags) s s.mutexes := by
  refine .of_run (bind_ok (run_get s)) ?_
  unfold VmmStarves
  by_cases hguard : u64 (s.pmm.total_pages + (2 ^ 64 - u64 s.pmm.used_pages)) ≤ count
  · rw [if_pos hguard]
    exact ⟨fun _ => .of_ok (run_pure _ s) rfl, fun h => absurd h.1 (not_lt.mpr hguard)⟩
  · rw [if_neg hguard]
    cases hfind : vmmFind start count s with
    | none =>
        exact ⟨fun _ => .of_error (run_throw _ s) nofun, fun ⟨_, _, _, h, _⟩ => nomatch h⟩
    | some ptr =>
        by_cases hz : ptr = 0
        · simp only [if_pos hz]
          refine ⟨fun _ => .of_ok (run_pure _ s) rfl, fun ⟨_, p, hp, h, _⟩ => ?_⟩
          exact absurd ((Option.some.inj h).symm.trans hz) hp
        · simp only [if_neg hz]
          -- only the loop over the pages can starve: the guard and the search take no mutex
          have hloop := allocLoop_locks ptr flags count 0 (lock_ne (x := .vmm_mutex) (by decide) hpmm)
          refine .of_run (bind_ok (acquire_free hvmm)) ((hloop.bind (P := fun _ _ => False)
            (fun _ s' hs' => ?_) fun done s' _ hs' => ?_).congr ?_)
          · refine ⟨_, (bind_ok (run_release _ _)).trans rfl, ?_⟩
            show Function.update s'.mutexes .vmm_mutex false = _
            rw [hs']
            exact release_starved (by decide) hvmm
          · refine .of_locks (Locks.bind (Locks.release _) fun _ => ?_) hs'
            rw [State.lock, Locks.unlock hvmm]
            cases done with
            | true => exact Locks.pure _
            | false => exact Locks.pure _
          · constructor
            · rintro (hstarves | ⟨_, _, _, hfalse⟩)
              · exact ⟨not_le.mp hguard, ptr, hz, rfl, hstarves⟩
              · exact hfalse.elim
            · rintro ⟨-, p, -, hp, hstarves⟩
              rw [Option.some.inj hp]
              exact Or.inl hstarves

theorem kmalloc_locks (n : Nat) {s : State} (hpmm : s.mutexes .pmm_mutex = false)
    (hvmm : s.mutexes .vmm_mutex = false) (hheap : s.mutexes .heap_mutex = false) :
    LocksUnless (HeapStarves n s) 0 (kmalloc n) s s.mutexes := by
  have halloc := vmmAlloc_locks KERNEL_HEAP (u64 (u64 (n + 16) + 4095) / 4096) KERNEL_HEAP_FLAGS
    (lock_ne (x := .heap_mutex) (by decide) hpmm) (lock_ne (by decide) hvmm)
  refine .of_run (bind_ok (acquire_free hheap)) ((halloc.bind (P := fun _ _ => False)
    (fun _ s' hs' => ?_) fun ptr s' _ hs' => .of_locks ?_ hs').congr (by simp [HeapStarves]))
  · refine ⟨_, (bind_ok (run_release _ _)).trans rfl, ?_⟩
    show Function.update s'.mutexes .heap_mutex false = _
    rw [hs']
    exact release_starved (by decide) hheap
  · split
    · refine Locks.bind (Locks.release _) fun _ => ?_
      rw [State.lock, Locks.unlock hheap]
      exact Locks.pure _
    · refine Locks.bind (Locks.storeBytes _ _) fun _ => Locks.bind (Locks.storeBytes _ _) fun _ =>
        Locks.bind (Locks.storeBytes _ _) fun _ => Locks.bind (Locks.release _) fun _ => ?_
      rw [State.lock, Locks.unlock hheap]
      exact Locks.pure _

theorem newPml4_locks {s : State} (hpmm : s.mutexes .pmm_mutex = false) :
    LocksUnless (pmmFindPage s.pmm = some 0) 0 newPml4 s s.mutexes := by
  refine ((pmmAllocPage_locks hpmm).bind (P := fun _ _ => False) (fun _ s' hs' => ⟨s', rfl, hs'⟩)
    fun cr3 s' _ hs' => .of_locks ?_ hs').congr (by simp)
  split
  · exact Locks.pure _
  · exact Locks.bind (Locks.modify fun _ => rfl) fun _ => Locks.bind (Locks.modify fun _ => rfl)
      fun _ => Locks.bind (Locks.modify fun _ => rfl) fun _ => Locks.pure _

/-! ## The calls -/

/-- The calls of the memory manager and the scheduler. -/
inductive Call where
  | pmm_alloc_page
  | pmm_free_page (page : Nat)
  | vmm_alloc (start count flags : Nat)
  | vmm_free (virtual count : Nat)
  | vmm_create_mmio (physical pages : Nat) (name : List UInt8)
  | kmalloc (n : Nat)
  | kcalloc (n1 n2 : Nat)
  | krealloc (old new_size : Nat)
  | kfree (ptr : Nat)
  | create_process (entry : Nat)
  | create_thread (entry : Nat)

namespace Call

/-- The call, without its result. -/
def run : Call → S Unit
  | pmm_alloc_page => do let _ ← onKernel pmmAllocPage
  | pmm_free_page page => onKernel (pmmFreePage page)
  | vmm_alloc start count flags => do let _ ← onKernel (vmmAlloc start count flags)
  | vmm_free virtual count => onKernel (vmmFree virtual count)
  | vmm_create_mmio physical pages name => do let _ ← onKernel (vmmCreateMmio physical pages name)
  | kmalloc n => do let _ ← onKernel (Kernel.kmalloc n)
  | kcalloc n1 n2 => do let _ ← onKernel (Kernel.kcalloc n1 n2)
  | krealloc old new_size => do let _ ← onKernel (Kernel.krealloc old new_size)
  | kfree ptr => onKernel (Kernel.kfree ptr)
  | create_process entry => do let _ ← createProcess entry
  | create_thread entry => do let _ ← createThread entry

end Call

/-- `create_process` asks for a page when there is none, for the root or in the heap. -/
def ProcessStarves (s : System) : Prop :=
  (∃ pid, findProcess s.sched = some pid) ∧
    (pmmFindPage s.kernel.pmm = some 0 ∨
      ∃ cr3 k₁, newPml4 (s.kernel.lock .sched_mutex) = .ok (cr3, k₁) ∧ cr3 ≠ 0 ∧
        (HeapStarves (u64 (SIZEOF_POINTER * MAX_THREADS)) k₁ ∨
          ∃ threads k₂, kcalloc SIZEOF_POINTER MAX_THREADS k₁ = .ok (threads, k₂) ∧ threads ≠ 0 ∧
            (HeapStarves (u64 (SIZEOF_THREAD * 1)) k₂ ∨
              ∃ thread k₃, kcalloc SIZEOF_THREAD 1 k₂ = .ok (thread, k₃) ∧ thread ≠ 0 ∧
                s.sched.running_processes = 0 ∧ HeapStarves THREAD_STACK k₃)))

/-- `create_thread` asks for a page when there is none. If that happens for the stack, it matters
only when `kfree` can read the header of the block for the thread. -/
def ThreadStarves (s : System) : Prop :=
  (∃ tid, findThread s.sched = some tid) ∧
    (HeapStarves (u64 (SIZEOF_THREAD * 1)) (s.kernel.lock .sched_mutex) ∨
      ∃ thread k₁, kcalloc SIZEOF_THREAD 1 (s.kernel.lock .sched_mutex) = .ok (thread, k₁) ∧
        thread ≠ 0 ∧ s.sched.cpu.pid = 0 ∧ HeapStarves THREAD_STACK k₁ ∧
          ∃ k₂ pages k₃, kmalloc THREAD_STACK k₁ = .ok (0, k₂) ∧
            loadQword (u64 (thread + (2 ^ 64 - 16))) k₂ = .ok (pages, k₃))

/-- Somewhere outside `vmm_map_page`, the call asks for a page when there is none. -/
def Call.RunsShort : Call → System → Prop
  | .pmm_alloc_page, s => pmmFindPage s.kernel.pmm = some 0
  | .vmm_alloc start count flags, s => VmmStarves start count flags s.kernel
  | .kmalloc n, s => HeapStarves n s.kernel
  | .kcalloc n1 n2, s => HeapStarves (u64 (n1 * n2)) s.kernel
  | .krealloc _ new_size, s => HeapStarves new_size s.kernel
  | .create_process _, s => ProcessStarves s
  | .create_thread _, s => ThreadStarves s
  | _, _ => False

/-- No mutex is held. -/
def noneHeld : Mutex → Bool := fun _ => false

section Iff

variable {α β : Type} {s : System}

/-- A part of a call that may run out of pages. -/
theorem locksAt_bind_iff {m : K α} {starves : Prop} {null : α} {held : Mutex → Bool} {f : α → S β}
    {P : α → State → Prop} (hm : LocksUnless starves null m s.kernel held)
    (hnull : starves → ∀ k, m s.kernel = .ok (null, k) →
      k.mutexes = Function.update held .pmm_mutex true → ¬ LocksAt (f null) { s with kernel := k } noneHeld)
    (hnext : ∀ x k, m s.kernel = .ok (x, k) → k.mutexes = held →
      (LocksAt (f x) { s with kernel := k } noneHeld ↔ ¬ P x k)) :
    LocksAt (onKernel m >>= f) s noneHeld ↔
      ¬ (starves ∨ ∃ x k, m s.kernel = .ok (x, k) ∧ P x k) := by
  by_cases hstarves : starves
  · obtain ⟨k, hrun, hk⟩ := hm.starved hstarves
    rw [LocksAt.bind_iff (onKernel_eq_ok.mpr ⟨k, hrun, rfl⟩)]
    exact iff_of_false (hnull hstarves k hrun hk) fun h => h (Or.inl hstarves)
  · have hlocks := hm.fed hstarves
    cases hrun : m s.kernel with
    | error e =>
        exact iff_of_true (.of_error (bind_error (onKernel_eq_error hrun)) (hlocks.quiet hrun))
          (by simp [hstarves])
    | ok p =>
        have hk : p.2.mutexes = held := hlocks.held hrun
        rw [LocksAt.bind_iff (onKernel_eq_ok.mpr ⟨p.2, hrun, rfl⟩), hnext p.1 p.2 hrun hk]
        constructor
        · rintro hP (h | ⟨x, k, heq, hx⟩)
          · exact hstarves h
          · obtain ⟨rfl, rfl⟩ := Prod.mk.inj (Except.ok.inj heq)
            exact hP hx
        · exact fun h hP => h (Or.inr ⟨p.1, p.2, rfl, hP⟩)

/-- The result of a call does not matter. -/
theorem locksAt_discard {m : S α} {held : Mutex → Bool} :
    LocksAt (do let _ ← m) s held ↔ LocksAt m s held := by
  cases hrun : m s with
  | error e =>
      refine ⟨fun h => .of_error hrun (h.quiet (bind_error hrun)), fun h =>
        .of_error (bind_error hrun) (h.quiet hrun)⟩
  | ok p =>
      refine ⟨fun h => .of_ok hrun (h.held ((bind_ok hrun).trans (run_pure _ _))), fun h =>
        .of_ok ((bind_ok hrun).trans (run_pure _ _)) (h.held hrun)⟩

/-- A run that returns with `pmm_mutex` held. -/
theorem not_locksAt_of_held {m : S α} {a : α} {s' : System} (hrun : m s = .ok (a, s'))
    (hpmm : s'.kernel.mutexes .pmm_mutex = true) : ¬ LocksAt m s noneHeld := by
  intro h
  have hnone := congrFun (h.held hrun) .pmm_mutex
  rw [show HasMutexes.mutexes s' .pmm_mutex = true from hpmm] at hnone
  cases hnone

/-- A page cannot be released when `pmm_mutex` is held. -/
theorem not_locksAt_free {page : Nat} {f : Unit → S β} (hpmm : s.kernel.mutexes .pmm_mutex = true) :
    ¬ LocksAt (onKernel (pmmFreePage page) >>= f) s noneHeld := by
  have herror : onKernel (pmmFreePage page) s = .error (.spin .pmm_mutex) :=
    onKernel_eq_error (bind_error (acquire_held hpmm))
  exact fun h => h.quiet (bind_error herror) _ rfl

/-- The mutexes in the body of a function of the scheduler. -/
def schedHeld : Mutex → Bool := Function.update noneHeld .sched_mutex true

theorem release_sched : Function.update schedHeld .sched_mutex false = noneHeld :=
  Locks.unlock rfl

/-- The end of `create_process` and `create_thread`. -/
theorem locks_done (x : α) : Locks (do onKernel (release .sched_mutex); pure x : S α)
    schedHeld noneHeld := by
  refine Locks.bind (Locks.onKernel (Locks.release _)) fun _ => ?_
  rw [release_sched]
  exact Locks.pure x

theorem kmalloc_sched {k : State} (hk : k.mutexes = schedHeld) (n : Nat) :
    LocksUnless (HeapStarves n k) 0 (kmalloc n) k schedHeld := by
  have h := kmalloc_locks n (s := k) (by rw [hk]; rfl) (by rw [hk]; rfl) (by rw [hk]; rfl)
  rwa [hk] at h

theorem kfree_sched (ptr : Nat) : Locks (onKernel (kfree ptr)) schedHeld schedHeld :=
  Locks.onKernel (Locks.kfree rfl rfl ptr)

theorem createStack_locks {pid : Nat} {f : Bool → S β} (hs : s.kernel.mutexes = schedHeld)
    (hfalse : ∀ s', s'.kernel.mutexes .pmm_mutex = true → ¬ LocksAt (f false) s' noneHeld)
    (hnext : ∀ done, Locks (f done) schedHeld noneHeld) :
    LocksAt (createStack pid >>= f) s noneHeld ↔
      ¬ (s.sched.running_processes = 0 ∧ HeapStarves THREAD_STACK s.kernel) := by
  by_cases hfirst : s.sched.running_processes = 0
  · have hrun : (createStack pid >>= f) s = (onKernel (kmalloc THREAD_STACK) >>= fun rsp =>
        onSched (.setThread pid 0 (.setReg Context.rsp rsp)) >>= fun _ =>
          (if rsp = 0 then pure false
            else do
              onSched (.setThread pid 0 (.setReg Context.rsp (u64 (rsp + THREAD_STACK))))
              onSched (.setThread pid 0 (.setReg Context.cs KCODE_SEGMENT))
              onSched (.setThread pid 0 (.setReg Context.ds KDATA_SEGMENT))
              pure true) >>= f) s := by
      rw [createStack, bind_assoc, bind_ok (run_get s), if_pos hfirst]
      simp only [bind_assoc]
    rw [LocksAt.congr hrun, locksAt_bind_iff (P := fun _ _ => False)
      (kmalloc_sched hs THREAD_STACK)]
    · simp [hfirst]
    · intro _ k _ hk
      rw [LocksAt.bind_iff (run_onSched _ _), if_pos rfl, LocksAt.bind_iff (run_pure _ _)]
      exact hfalse _ (by rw [hk]; rfl)
    · intro rsp k _ hk
      refine iff_of_true (Locks.bind (Locks.onSched _) (fun _ => Locks.bind ?_ hnext) _ hk) not_false
      split
      · exact Locks.pure _
      · exact Locks.bind (Locks.onSched _) fun _ => Locks.bind (Locks.onSched _) fun _ =>
          Locks.bind (Locks.onSched _) fun _ => Locks.pure _
  · have hrun : (createStack pid >>= f) s = f true s := by
      rw [createStack, bind_assoc, bind_ok (run_get s), if_neg hfirst, bind_ok (run_pure _ _)]
    rw [LocksAt.congr hrun]
    exact iff_of_true (hnext true s hs) fun h => hfirst h.1

/-- The state in a function of the scheduler. -/
theorem run_acquire_sched (hs : s.kernel.mutexes = noneHeld) :
    onKernel (acquire .sched_mutex) s = .ok ((), { s with kernel := s.kernel.lock .sched_mutex }) :=
  onKernel_eq_ok.mpr ⟨_, acquire_free (by rw [hs]; rfl), rfl⟩

theorem createProcess_locks (hs : s.kernel.mutexes = noneHeld) (entry : Nat) :
    LocksAt (createProcess entry) s noneHeld ↔ ¬ ProcessStarves s := by
  have hheld : (s.kernel.lock .sched_mutex).mutexes = schedHeld := by
    rw [State.lock, hs]
    rfl
  have hkfree := kfree_sched
  rw [createProcess, LocksAt.bind_iff (run_acquire_sched hs), LocksAt.bind_iff (run_get _), ProcessStarves]
  cases hfind : findProcess s.sched with
  | none =>
      refine iff_of_true (locks_done none _ hheld) ?_
      rintro ⟨⟨pid, h⟩, -⟩
      cases h
  | some pid =>
      simp only
      -- an allocation that finds no page leaves `pmm_mutex` held, whatever is undone after it
      have hroot := newPml4_locks (s := s.kernel.lock .sched_mutex) (by rw [hheld]; rfl)
      rw [hheld] at hroot
      rw [locksAt_bind_iff hroot (P := fun cr3 k₁ => cr3 ≠ 0 ∧
        (HeapStarves (u64 (SIZEOF_POINTER * MAX_THREADS)) k₁ ∨
          ∃ threads k₂, kcalloc SIZEOF_POINTER MAX_THREADS k₁ = .ok (threads, k₂) ∧ threads ≠ 0 ∧
            (HeapStarves (u64 (SIZEOF_THREAD * 1)) k₂ ∨
              ∃ thread k₃, kcalloc SIZEOF_THREAD 1 k₂ = .ok (thread, k₃) ∧ thread ≠ 0 ∧
                s.sched.running_processes = 0 ∧ HeapStarves THREAD_STACK k₃)))]
      · exact not_congr (and_iff_right ⟨pid, rfl⟩).symm
      · intro _ k _ hk
        rw [LocksAt.bind_iff (run_onSched _ _), if_pos rfl, LocksAt.bind_iff (run_onRelease _ _)]
        refine not_locksAt_of_held (run_pure _ _) ?_
        show Function.update k.mutexes .sched_mutex false .pmm_mutex = true
        rw [hk]
        rfl
      · intro cr3 k₁ _ hk₁
        rw [LocksAt.bind_iff (run_onSched _ _)]
        by_cases hcr3 : cr3 = 0
        · rw [if_pos hcr3]
          exact iff_of_true (locks_done none _ hk₁) fun h => h.1 hcr3
        · have hfreePage : Locks (onKernel (pmmFreePage cr3)) schedHeld schedHeld :=
            Locks.onKernel (Locks.pmmFreePage rfl _)
          rw [if_neg hcr3, LocksAt.bind_iff (run_onSched _ _), locksAt_bind_iff
            (kmalloc_sched hk₁ (u64 (SIZEOF_POINTER * MAX_THREADS))) (P := fun threads k₂ => threads ≠ 0 ∧
            (HeapStarves (u64 (SIZEOF_THREAD * 1)) k₂ ∨
              ∃ thread k₃, kcalloc SIZEOF_THREAD 1 k₂ = .ok (thread, k₃) ∧ thread ≠ 0 ∧
                s.sched.running_processes = 0 ∧ HeapStarves THREAD_STACK k₃))]
          · exact not_congr (and_iff_right hcr3).symm
          · intro _ k _ hk
            rw [LocksAt.bind_iff (run_onSched _ _), if_pos rfl]
            exact not_locksAt_free (by rw [hk]; rfl)
          · intro threads k₂ _ hk₂
            rw [LocksAt.bind_iff (run_onSched _ _)]
            by_cases hthreads : threads = 0
            · rw [if_pos hthreads]
              exact iff_of_true (Locks.bind hfreePage (fun _ => locks_done none) _ hk₂) fun h =>
                h.1 hthreads
            · rw [if_neg hthreads, locksAt_bind_iff (kmalloc_sched hk₂ (u64 (SIZEOF_THREAD * 1)))
                (P := fun thread k₃ => thread ≠ 0 ∧
                  s.sched.running_processes = 0 ∧ HeapStarves THREAD_STACK k₃)]
              · exact not_congr (and_iff_right hthreads).symm
              · intro _ k _ hk
                rw [LocksAt.bind_iff (run_onSched _ _), if_pos rfl]
                exact not_locksAt_free (by rw [hk]; rfl)
              · intro thread k₃ _ hk₃
                rw [LocksAt.bind_iff (run_onSched _ _)]
                by_cases hthread : thread = 0
                · rw [if_pos hthread]
                  exact iff_of_true (Locks.bind hfreePage (fun _ => Locks.bind (hkfree _) fun _ =>
                    locks_done none) _ hk₃) fun h => h.1 hthread
                · rw [if_neg hthread, LocksAt.bind_iff (run_onSched _ _), LocksAt.bind_iff (run_onSched _ _),
                    createStack_locks hk₃]
                  · exact not_congr (and_iff_right hthread).symm
                  · intro s' hs'
                    exact not_locksAt_free hs'
                  · intro done
                    cases done with
                    | true =>
                        exact Locks.bind (Locks.onSched _) fun _ => Locks.bind (Locks.onSched _)
                          fun _ => Locks.bind (Locks.onSched _) fun _ => locks_done (some pid)
                    | false =>
                        exact Locks.bind hfreePage fun _ => Locks.bind (hkfree _) fun _ =>
                          Locks.bind (hkfree _) fun _ => locks_done none

/-- With `pmm_mutex` held, the loop of `vmm_free` waits for it at the first page that is mapped. -/
theorem freeLoop_held {k : State} (hpmm : k.mutexes .pmm_mutex = true) (virtual n : Nat) :
    ∀ i : Nat, freeLoop virtual n i k = .error (.spin .pmm_mutex) ∨
      freeLoop virtual n i k = .ok ((), k) := by
  induction n with
  | zero => exact fun i => Or.inr rfl
  | succ n ih =>
      intro i
      rw [freeLoop, bind_ok (run_get k)]
      cases vmmGetPhysical (pageAt virtual i) k with
      | none => exact ih (i + 1)
      | some phys => exact Or.inl (bind_error (bind_error (acquire_held hpmm)))

/-- A block cannot be released when `pmm_mutex` is held, unless its header cannot be read. -/
theorem locksAt_kfree_held {ptr : Nat} (hs : s.kernel.mutexes = Function.update schedHeld .pmm_mutex true) :
    LocksAt (do onKernel (kfree ptr); onKernel (release .sched_mutex); pure (none : Option Nat)) s
      noneHeld ↔ ¬ ∃ pages k, loadQword (u64 (ptr + (2 ^ 64 - 16))) s.kernel = .ok (pages, k) := by
  have hload := Locks.loadQword (u64 (ptr + (2 ^ 64 - 16))) s.kernel rfl
  cases hrun : loadQword (u64 (ptr + (2 ^ 64 - 16))) s.kernel with
  | error e =>
      have herror : kfree ptr s.kernel = .error e := bind_error hrun
      refine iff_of_true (.of_error (bind_error (onKernel_eq_error herror)) (hload.quiet hrun)) ?_
      rintro ⟨pages, k, h⟩
      cases h
  | ok p =>
      have hk : p.2.mutexes = Function.update schedHeld .pmm_mutex true := (hload.held hrun).trans hs
      have hvmm : p.2.mutexes .vmm_mutex = false := by rw [hk]; rfl
      refine iff_of_false ?_ fun h => h ⟨p.1, p.2, rfl⟩
      have hfree : kfree ptr s.kernel = vmmFree (pageMask ptr) p.1 p.2 := bind_ok hrun
      have hpmm : (p.2.lock .vmm_mutex).mutexes .pmm_mutex = true := by
        rw [State.lock, hk]
        rfl
      rw [vmmFree, bind_ok (acquire_free hvmm)] at hfree
      -- the loop waits for `pmm_mutex`, or it has no page to release and the mutex stays held
      rcases freeLoop_held hpmm (pageMask ptr) p.1 0 with hspin | hdone
      · have herror : kfree ptr s.kernel = .error (.spin .pmm_mutex) :=
          hfree.trans (bind_error hspin)
        exact fun h => h.quiet (bind_error (onKernel_eq_error herror)) _ rfl
      · have hrun' := hfree.trans (bind_ok hdone)
        refine not_locksAt_of_held ((bind_ok (onKernel_eq_ok.mpr ⟨_, hrun', rfl⟩)).trans rfl) ?_
        show Function.update (Function.update (p.2.lock .vmm_mutex).mutexes .vmm_mutex false)
          .sched_mutex false .pmm_mutex = true
        rw [State.lock, hk]
        rfl

/-- The end of `create_thread`. -/
theorem startThread_locks (entry pid tid rsp : Nat) :
    Locks (createThread.startThread entry pid tid rsp) schedHeld noneHeld :=
  Locks.bind (Locks.onSched _) fun _ => Locks.bind (Locks.onSched _) fun _ =>
    Locks.bind (Locks.onSched _) fun _ => Locks.bind (Locks.onSched _) fun _ =>
      Locks.bind (Locks.onSched _) fun _ => locks_done (some 0)

/-- A part of a call that does not run out of pages. -/
theorem locksAt_bind_fed {m : K α} {f : α → S β} {held : Mutex → Bool}
    (hm : LocksAt m s.kernel held) (hf : ∀ x, Locks (f x) held noneHeld) :
    LocksAt (onKernel m >>= f) s noneHeld := by
  cases hrun : m s.kernel with
  | error e => exact .of_error (bind_error (onKernel_eq_error hrun)) (hm.quiet hrun)
  | ok p =>
      rw [LocksAt.bind_iff (onKernel_eq_ok.mpr ⟨p.2, hrun, rfl⟩)]
      exact hf p.1 _ (hm.held hrun)

/-- `create_thread` from the allocation of the stack on. -/
theorem threadStack_locks {entry pid tid thread : Nat} (hs : s.kernel.mutexes = schedHeld) :
    LocksAt (onKernel (kmalloc THREAD_STACK) >>= fun rsp =>
        onSched (.setThread pid tid (.setReg Context.rsp rsp)) >>= fun _ =>
          if rsp = 0 then do
            onKernel (kfree thread)
            onKernel (release .sched_mutex)
            pure none
          else createThread.startThread entry pid tid rsp) s noneHeld ↔
      ¬ (HeapStarves THREAD_STACK s.kernel ∧
        ∃ k₂ pages k₃, kmalloc THREAD_STACK s.kernel = .ok (0, k₂) ∧
          loadQword (u64 (thread + (2 ^ 64 - 16))) k₂ = .ok (pages, k₃)) := by
  have hstack := kmalloc_sched hs THREAD_STACK
  by_cases hstarves : HeapStarves THREAD_STACK s.kernel
  · obtain ⟨k, hrun, hk⟩ := hstack.starved hstarves
    rw [LocksAt.bind_iff (onKernel_eq_ok.mpr ⟨k, hrun, rfl⟩), LocksAt.bind_iff (run_onSched _ _),
      if_pos rfl, locksAt_kfree_held hk, and_iff_right hstarves]
    refine not_congr ⟨fun ⟨pages, k₃, h⟩ => ⟨k, pages, k₃, hrun, h⟩, ?_⟩
    rintro ⟨k', pages, k₃, hrun', h⟩
    rw [hrun] at hrun'
    obtain rfl := (Prod.mk.inj (Except.ok.inj hrun')).2
    exact ⟨pages, k₃, h⟩
  · refine iff_of_true (locksAt_bind_fed (hstack.fed hstarves) fun rsp => ?_) fun h => hstarves h.1
    refine Locks.bind (Locks.onSched _) fun _ => ?_
    split
    · exact Locks.bind (kfree_sched _) fun _ => locks_done none
    · exact startThread_locks _ _ _ _

theorem createThread_locks (hs : s.kernel.mutexes = noneHeld) (entry : Nat) :
    LocksAt (createThread entry) s noneHeld ↔ ¬ ThreadStarves s := by
  have hheld : (s.kernel.lock .sched_mutex).mutexes = schedHeld := by
    rw [State.lock, hs]
    rfl
  rw [createThread, LocksAt.bind_iff (run_acquire_sched hs), LocksAt.bind_iff (run_get _),
    ThreadStarves]
  cases hfind : findThread s.sched with
  | none =>
      simp only
      refine iff_of_true (locks_done none _ hheld) ?_
      rintro ⟨⟨tid, h⟩, -⟩
      cases h
  | some tid =>
      simp only
      -- a first allocation that starves leaves `pmm_mutex` held on every way out
      rw [locksAt_bind_iff (kmalloc_sched hheld (u64 (SIZEOF_THREAD * 1))) (P := fun thread k₁ =>
        thread ≠ 0 ∧ s.sched.cpu.pid = 0 ∧ HeapStarves THREAD_STACK k₁ ∧
          ∃ k₂ pages k₃, kmalloc THREAD_STACK k₁ = .ok (0, k₂) ∧
            loadQword (u64 (thread + (2 ^ 64 - 16))) k₂ = .ok (pages, k₃))]
      · exact not_congr (and_iff_right ⟨tid, rfl⟩).symm
      · intro _ k _ hk
        rw [LocksAt.bind_iff (run_onSched _ _), if_pos rfl, LocksAt.bind_iff (run_onRelease _ _)]
        refine not_locksAt_of_held (run_pure _ _) ?_
        show Function.update k.mutexes .sched_mutex false .pmm_mutex = true
        rw [hk]
        rfl
      · intro thread k₁ _ hk₁
        rw [LocksAt.bind_iff (run_onSched _ _)]
        by_cases hthread : thread = 0
        · rw [if_pos hthread]
          exact iff_of_true (locks_done none _ hk₁) fun h => h.1 hthread
        · rw [if_neg hthread]
          by_cases hpid : s.sched.cpu.pid = 0
          · rw [if_pos hpid, LocksAt.bind_iff (run_onSched _ _), LocksAt.bind_iff (run_onSched _ _)]
            rw [threadStack_locks hk₁]
            exact not_congr ⟨fun h => ⟨hthread, hpid, h⟩, fun h => h.2.2⟩
          · rw [if_neg hpid]
            exact iff_of_true (Locks.bind (Locks.onSched _) (fun _ => Locks.bind (Locks.onSched _)
              fun _ => startThread_locks _ _ _ _) _ hk₁) fun h => hpid h.2.1

end Iff

/-- A call of the memory manager that may run out of pages. -/
theorem locksAt_run_iff {α : Type} {m : K α} {s : System} {starves : Prop} {null : α}
    (hm : LocksUnless starves null m s.kernel noneHeld) :
    LocksAt (do let _ ← onKernel m) s noneHeld ↔ ¬ starves := by
  rw [locksAt_bind_iff hm (P := fun _ _ => False)]
  · simp
  · intro _ k _ hk
    exact not_locksAt_of_held (run_pure _ _) (by rw [hk]; rfl)
  · intro x k _ hk
    exact iff_of_true (.of_ok (run_pure _ _) hk) not_false

/-- `krealloc` runs out of pages in `kmalloc`. -/
theorem krealloc_locks (old new_size : Nat) {k : State} (hk : k.mutexes = noneHeld) :
    LocksUnless (HeapStarves new_size k) 0 (krealloc old new_size) k noneHeld := by
  have halloc := kmalloc_locks new_size (s := k) (by rw [hk]; rfl) (by rw [hk]; rfl) (by rw [hk]; rfl)
  rw [hk] at halloc
  refine (halloc.bind (P := fun _ _ => False) (fun _ s' hs' => ⟨s', rfl, hs'⟩)
    fun new s' _ hs' => .of_locks ?_ hs').congr (by simp)
  split
  · exact Locks.pure _
  · split
    · exact Locks.pure _
    · exact Locks.bind (Locks.loadQword _) fun _ => Locks.bind (Locks.memcpy _ _ _) fun _ =>
        Locks.bind (Locks.kfree rfl rfl _) fun _ => Locks.pure _

/-- From a state in which the four mutexes are free, a call does not wait for a mutex and leaves
them free exactly when it does not ask for a page when there is none. -/
theorem locksAt_call_iff (c : Call) (s : System) (hfree : ∀ m, s.kernel.mutexes m = false) :
    LocksAt c.run s noneHeld ↔ ¬ c.RunsShort s := by
  have hs : s.kernel.mutexes = noneHeld := funext hfree
  cases c with
  | pmm_alloc_page =>
      have h := pmmAllocPage_locks (hfree .pmm_mutex)
      rw [hs] at h
      exact locksAt_run_iff h
  | pmm_free_page page =>
      exact iff_of_true (Locks.onKernel (Locks.pmmFreePage rfl page) s hs) not_false
  | vmm_alloc start count flags =>
      have h := vmmAlloc_locks start count flags (hfree .pmm_mutex) (hfree .vmm_mutex)
      rw [hs] at h
      exact locksAt_run_iff h
  | vmm_free virtual count =>
      exact iff_of_true (Locks.onKernel (Locks.vmmFree rfl rfl virtual count) s hs) not_false
  | vmm_create_mmio physical pages name =>
      refine iff_of_true (Locks.bind (Locks.onKernel (Locks.vmmCreateMmio rfl rfl physical pages name))
        (fun _ => Locks.pure _) s hs) not_false
  | kmalloc n =>
      have h := kmalloc_locks n (hfree .pmm_mutex) (hfree .vmm_mutex) (hfree .heap_mutex)
      rw [hs] at h
      exact locksAt_run_iff h
  | kcalloc n1 n2 =>
      have h := kmalloc_locks (u64 (n1 * n2)) (hfree .pmm_mutex) (hfree .vmm_mutex)
        (hfree .heap_mutex)
      rw [hs] at h
      exact locksAt_run_iff h
  | krealloc old new_size => exact locksAt_run_iff (krealloc_locks old new_size hs)
  | kfree ptr => exact iff_of_true (Locks.onKernel (Locks.kfree rfl rfl ptr) s hs) not_false
  | create_process entry => exact locksAt_discard.trans (createProcess_locks hs entry)
  | create_thread entry => exact locksAt_discard.trans (createThread_locks hs entry)

/-- A machine with 16 MiB of memory, all in use. -/
def System.full : System where
  kernel := { State.boot with pmm := {
    bitmap := fun _ => 255
    bitmap_size := 513
    total_pages := 4096
    used_pages := 4096
    highest_usable_address := 0xFFFFFF } }
  sched := ⟨fun _ => ⟨false, 0, fun _ => .empty, 0, 0⟩, 0, ⟨0, 0, false⟩⟩

end Windozz.Kernel

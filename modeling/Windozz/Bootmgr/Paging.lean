import Windozz.Bootmgr.Machine
import Windozz.Kernel.Boot
import Windozz.Kernel.Ltoa

set_option autoImplicit false

/-! # The page tables of the boot manager

`setup_paging` writes a table of each of the two upper levels and eight directories with `stosd`.
Two `stosd` are one entry (`stosd_pair`), so each of its loops fills a table with consecutive
entries (`Fills`). `pageWalk` is the walk of the processor. With these tables it maps the lowest
8 GiB of both halves of the address space to the lowest 8 GiB of memory and nothing else
(`setupPaging_maps`), and they are the tables that `mm_init` starts from.
-/

namespace Windozz.Bootmgr

open Kernel

/-! ## The functions -/

def PML4 : Nat := 0x8000
def PDPT : Nat := 0x9000
def PD : Nat := 0xA000

/-- `stosd`, on `edi` and the memory. -/
def stosd (eax : Nat) (s : Nat × Mem) : Nat × Mem := (u32 (s.1 + 4), s.2.write s.1 (toLE 4 eax))

/-- `rep stosd`. -/
def repStosd : Nat → Nat → Nat × Mem → Nat × Mem
  | 0, _, s => s
  | ecx + 1, eax, s => repStosd ecx eax (stosd eax s)

/-- `.pdpt_loop`. -/
def pdptLoop : Nat → Nat → Nat × Mem → Nat × Mem
  | 0, _, s => s
  | ecx + 1, ebx, s => pdptLoop ecx (u32 (ebx + 4096)) (stosd 0 (stosd (ebx ||| 3) s))

/-- `.pd_loop`. -/
def pdLoop : Nat → Nat → Nat → Nat × Mem → Nat × Mem
  | 0, _, _, s => s
  | ecx + 1, ebx, edx, s =>
      let s := stosd edx (stosd (ebx ||| 0x83) s)
      let ebx := u32 (ebx + 0x200000)
      -- `.inc_high`
      let edx := if ebx = 0 then u32 (edx + 1) else edx
      pdLoop ecx ebx edx s

/-- `setup_paging`. -/
def setupPaging (m : Mem) : Mem :=
  let m := (repStosd 1024 0 (PML4, m)).2
  let m := (repStosd 1024 0 (PDPT, m)).2
  let eax := PDPT ||| 3
  let m := (stosd eax (PML4, m)).2
  let m := (stosd eax (PML4 + 2048, m)).2
  let m := (pdptLoop 8 PD (PDPT, m)).2
  (pdLoop (8192 / 2) 0 0 (PD, m)).2

/-- The walk of the processor for a virtual address. -/
def pageWalk (m : Mem) (cr3 va : Nat) : Option Nat :=
  if ¬ Canonical va then none
  else
    let virtual := va &&& 0xFFFFFFFFFFFF
    let pml4e := entry m (pageMask cr3) (tableIndex 39 virtual)
    if pml4e &&& PAGE_PRESENT = 0 ∨ pml4e &&& PAGE_LARGE ≠ 0 then none
    else
      let pdpte := entry m (pageMask pml4e) (tableIndex 30 virtual)
      if pdpte &&& PAGE_PRESENT = 0 then none
      else if pdpte &&& PAGE_LARGE ≠ 0 then some (pdpte / 2 ^ 30 * 2 ^ 30 + va % 2 ^ 30)
      else
        let pde := entry m (pageMask pdpte) (tableIndex 21 virtual)
        if pde &&& PAGE_PRESENT = 0 then none
        else if pde &&& PAGE_LARGE ≠ 0 then some (pde / 2 ^ 21 * 2 ^ 21 + va % 2 ^ 21)
        else
          let pte := entry m (pageMask pde) (tableIndex 12 virtual)
          if pte &&& PAGE_PRESENT = 0 then none else some (pageMask pte + va % 4096)

/-! ## Filling a table -/

/-- The `n` words from `a` on are `w 0`, `w 1` and so on, and nothing else was changed. -/
structure Fills (m m' : Mem) (a n : Nat) (w : Nat → Nat) : Prop where
  word : ∀ i, i < n → m'.qword (a + 8 * i) = w i
  frame : ∀ b, (b < a ∨ a + 8 * n ≤ b) → m' b = m b

/-- A table filled from its first entry on. -/
theorem Fills.cons {m m₁ m' : Mem} {a n : Nat} {w : Nat → Nat} (hw : w 0 < 2 ^ 64)
    (hm₁ : m₁ = m.setQword a (w 0)) (h : Fills m₁ m' (a + 8) n fun i => w (i + 1)) :
    Fills m m' a (n + 1) w := by
  refine ⟨fun i hi => ?_, fun b hb => ?_⟩
  · cases i with
    | zero =>
        rw [Nat.mul_zero, Nat.add_zero,
          Mem.qword_congr fun i hi => h.frame (a + i) (Or.inl (by omega)), hm₁,
          Mem.qword_setQword_same, u64_of_lt hw]
    | succ i =>
        rw [show a + 8 * (i + 1) = a + 8 + 8 * i by omega]
        exact h.word i (by omega)
  · rw [h.frame b (by omega), hm₁, Mem.setQword_outside (by omega)]

/-- A word in two halves. -/
theorem toLE_halves {lo hi : Nat} (hlo : lo < 2 ^ 32) :
    toLE 8 (lo + 2 ^ 32 * hi) = toLE 4 lo ++ toLE 4 hi := by
  refine List.ext_getElem? fun i => ?_
  rw [toLE_getElem?, List.getElem?_append, toLE_length]
  split
  · rename_i hi8
    by_cases h4 : i < 4
    · rw [if_pos h4, toLE_getElem?, if_pos h4]
      -- the low bytes do not see the high half
      have hsplit : lo + 2 ^ 32 * hi = lo + 256 ^ i * (256 * (256 ^ (3 - i) * hi)) := by
        have hpow : (2 : Nat) ^ 32 = 256 ^ i * (256 * 256 ^ (3 - i)) := by
          interval_cases i <;> norm_num
        rw [hpow]
        ring
      have hdiv : (lo + 256 ^ i * (256 * (256 ^ (3 - i) * hi))) / 256 ^ i
          = lo / 256 ^ i + 256 * (256 ^ (3 - i) * hi) :=
        Nat.add_mul_div_left _ _ (by positivity)
      rw [hsplit, hdiv]
      refine congrArg some (UInt8.toNat_inj.mp ?_)
      simp only [UInt8.toNat_ofNat']
      omega
    · rw [if_neg h4, toLE_getElem?, if_pos (by omega)]
      have hpow : 256 ^ i = 2 ^ 32 * 256 ^ (i - 4) := by
        interval_cases i <;> norm_num at h4 ⊢
      have hdiv : (lo + 2 ^ 32 * hi) / 2 ^ 32 = hi := by omega
      rw [hpow, ← Nat.div_div_eq_div_mul, hdiv]
  · rename_i hi8
    rw [if_neg (by omega), toLE_getElem?, if_neg (by omega)]

/-- Two `stosd` store one word. -/
theorem stosd_pair {lo hi edi : Nat} {m : Mem} (hlo : lo < 2 ^ 32) (hedi : edi + 8 < 2 ^ 32) :
    stosd hi (stosd lo (edi, m)) = (edi + 8, m.setQword edi (lo + 2 ^ 32 * hi)) := by
  have hnext : u32 (edi + 4) = edi + 4 := u32_of_lt (by omega)
  have hlast : u32 (edi + 4 + 4) = edi + 8 := u32_of_lt (by omega)
  have happ := write_append m edi (toLE 4 lo) (toLE 4 hi)
  rw [toLE_length] at happ
  rw [stosd, stosd]
  simp only [hnext, hlast]
  rw [Mem.setQword, toLE_halves hlo, happ]

/-! ## The loops -/

/-- `rep stosd` of zeros clears a range. -/
theorem repStosd_zero (n : Nat) : ∀ {edi : Nat} {m : Mem}, edi + 4 * n < 2 ^ 32 →
    repStosd n 0 (edi, m) = (edi + 4 * n, clear m edi (4 * n)) := by
  induction n with
  | zero =>
      intro edi m _
      have hclear : clear m edi 0 = m := by
        funext a
        rw [clear, if_neg (by omega)]
      rw [repStosd, Nat.mul_zero, Nat.add_zero, hclear]
  | succ n ih =>
      intro edi m hedi
      have hnext : u32 (edi + 4) = edi + 4 := u32_of_lt (by omega)
      rw [repStosd, stosd]
      simp only [hnext]
      rw [ih (by omega)]
      have hzero : toLE 4 0 = List.replicate 4 0 := by decide
      refine Prod.ext (by omega) (funext fun a => ?_)
      simp only [clear, Mem.write_apply, hzero, List.length_replicate]
      by_cases hin : edi ≤ a ∧ a < edi + 4 * (n + 1)
      · rw [if_pos hin]
        by_cases hfirst : edi + 4 ≤ a
        · rw [if_pos (by omega)]
        · rw [if_neg (by omega), if_pos (by omega), List.getD_eq_getElem?_getD,
            List.getElem?_replicate, if_pos (by omega)]
          rfl
      · rw [if_neg hin, if_neg (by omega), if_neg (by omega)]

theorem pdptLoop_fills (n : Nat) : ∀ {ebx edi : Nat} {m : Mem}, ebx % 4096 = 0 →
    ebx + n * 4096 < 2 ^ 32 → edi + 8 * n < 2 ^ 32 →
    Fills m (pdptLoop n ebx (edi, m)).2 edi n fun i => ebx + 3 + i * 4096 := by
  induction n with
  | zero => exact fun _ _ _ => ⟨fun i hi => by omega, fun _ _ => rfl⟩
  | succ n ih =>
      intro ebx edi m hmod hebx hedi
      have hor : ebx ||| 3 = ebx + 3 := or_flags hmod (by decide)
      have hnext : u32 (ebx + 4096) = ebx + 4096 := u32_of_lt (by omega)
      rw [pdptLoop, hor, hnext, stosd_pair (by omega) (by omega), Nat.mul_zero, Nat.add_zero]
      have hfirst : ebx + 3 + 0 * 4096 = ebx + 3 := by rw [Nat.zero_mul, Nat.add_zero]
      refine Fills.cons (show ebx + 3 + 0 * 4096 < 2 ^ 64 by omega) (by rw [hfirst]) ?_
      have hrest := @ih (ebx + 4096) (edi + 8) (m.setQword edi (ebx + 3)) (by omega) (by omega)
        (by omega)
      refine ⟨fun i hi => (hrest.word i hi).trans ?_, hrest.frame⟩
      ring

theorem pdLoop_fills (n : Nat) : ∀ {ebx edx edi : Nat} {m : Mem}, ebx % 0x200000 = 0 →
    ebx < 2 ^ 32 → edx + n < 2 ^ 32 → edi + 8 * n < 2 ^ 32 →
    Fills m (pdLoop n ebx edx (edi, m)).2 edi n fun i =>
      ebx + 2 ^ 32 * edx + 0x83 + i * 0x200000 := by
  induction n with
  | zero => exact fun _ _ _ _ => ⟨fun i hi => by omega, fun _ _ => rfl⟩
  | succ n ih =>
      intro ebx edx edi m hmod hebx hedx hedi
      have hor : ebx ||| 0x83 = ebx + 0x83 := or_flags (by omega) (by decide)
      rw [pdLoop, hor, stosd_pair (by omega) (by omega)]
      -- the address in the two registers, whether or not the low one wraps around
      have hstep : u32 (ebx + 0x200000)
          + 2 ^ 32 * (if u32 (ebx + 0x200000) = 0 then u32 (edx + 1) else edx)
            = ebx + 2 ^ 32 * edx + 0x200000 := by
        unfold u32
        split <;> omega
      have hhigh : (if u32 (ebx + 0x200000) = 0 then u32 (edx + 1) else edx) + n < 2 ^ 32 := by
        unfold u32
        split <;> omega
      generalize hlow : u32 (ebx + 0x200000) = ebx' at *
      have hmod' : ebx' % 0x200000 = 0 := by
        unfold u32 at hlow
        omega
      generalize (if ebx' = 0 then u32 (edx + 1) else edx) = edx' at *
      have hrest := @ih ebx' edx' (edi + 8) (m.setQword edi (ebx + 0x83 + 2 ^ 32 * edx)) hmod'
        (by unfold u32 at hlow; omega) hhigh (by omega)
      have hfirst : ebx + 2 ^ 32 * edx + 0x83 + 0 * 0x200000 = ebx + 0x83 + 2 ^ 32 * edx := by ring
      refine Fills.cons (show ebx + 2 ^ 32 * edx + 0x83 + 0 * 0x200000 < 2 ^ 64 by omega)
        (by rw [hfirst]) ⟨fun i hi => (hrest.word i hi).trans ?_, hrest.frame⟩
      rw [hstep]
      ring

/-! ## The tables -/

/-- One `stosd` into a cleared word. -/
theorem stosd_cleared {m : Mem} {a x : Nat} (hx : x < 2 ^ 32)
    (h : ∀ i, i < 4 → m (a + 4 + i) = 0) : m.write a (toLE 4 x) = m.setQword a x := by
  have hhalves := @toLE_halves x 0 hx
  rw [Nat.mul_zero, Nat.add_zero] at hhalves
  have hzero : toLE 4 0 = List.replicate 4 0 := by decide
  rw [Mem.setQword, hhalves, ← write_append, toLE_length]
  funext b
  rw [Mem.write_apply _ _ (toLE 4 0), toLE_length]
  split
  · rename_i hb
    obtain ⟨i, hi, rfl⟩ : ∃ i, i < 4 ∧ b = a + 4 + i := ⟨b - (a + 4), by omega, by omega⟩
    rw [Mem.write_outside (by rw [toLE_length]; omega), h i hi, hzero, List.getD_eq_getElem?_getD,
      List.getElem?_replicate, if_pos (by omega)]
    rfl
  · rfl

/-- The two upper levels are cleared, and two entries of the first are set. -/
def clearedLevels (m : Mem) : Mem :=
  ((clear (clear m PML4 4096) PDPT 4096).setQword PML4 0x9003).setQword (PML4 + 2048) 0x9003

theorem clear_cleared {m : Mem} {i : Nat} (hi : i < 4096) :
    clear (clear m PML4 4096) PDPT 4096 (PML4 + i) = 0 := by
  unfold PML4 PDPT
  rw [clear, if_neg (by omega), clear, if_pos (by omega)]

theorem setupPaging_eq (m : Mem) : setupPaging m
    = (pdLoop 4096 0 0 (PD, (pdptLoop 8 PD (PDPT, clearedLevels m)).2)).2 := by
  have hfirst : (clear (clear m PML4 4096) PDPT 4096).write PML4 (toLE 4 0x9003)
      = (clear (clear m PML4 4096) PDPT 4096).setQword PML4 0x9003 :=
    stosd_cleared (by decide) fun i hi => by
      rw [Nat.add_assoc]
      exact clear_cleared (by omega)
  have hsecond : ((clear (clear m PML4 4096) PDPT 4096).setQword PML4 0x9003).write (PML4 + 2048)
      (toLE 4 0x9003) = clearedLevels m :=
    stosd_cleared (by decide) fun i hi => by
      rw [Mem.setQword_outside (by omega), Nat.add_assoc, Nat.add_assoc]
      exact clear_cleared (by omega)
  have hzero : ∀ {edi : Nat} (m : Mem), edi < 2 ^ 31 →
      repStosd 1024 0 (edi, m) = (edi + 4096, clear m edi 4096) := fun m hedi =>
    repStosd_zero 1024 (by omega)
  have hor : PDPT ||| 3 = 0x9003 := by decide
  have hrounds : 8192 / 2 = 4096 := by norm_num
  rw [setupPaging, hzero m (by decide), hzero _ (by decide), hor, hrounds]
  simp only [stosd, hfirst, hsecond]

/-- The entries of the first table. -/
theorem clearedLevels_pml4 {m : Mem} {i : Nat} (hi : i < 512) :
    (clearedLevels m).qword (PML4 + 8 * i) = bootPml4 i := by
  have hzero : (clear (clear m PML4 4096) PDPT 4096).qword (PML4 + 8 * i) = 0 :=
    Mem.qword_eq_zero fun j hj => by
      rw [Nat.add_assoc]
      exact clear_cleared (by omega)
  rw [clearedLevels, bootPml4]
  by_cases h256 : i = 256
  · subst h256
    rw [if_pos (Or.inr rfl)]
    exact Mem.qword_setQword_same _ _ _
  · rw [Mem.qword_setQword_disjoint (by omega)]
    by_cases h0 : i = 0
    · subst h0
      rw [if_pos (Or.inl rfl)]
      exact Mem.qword_setQword_same _ _ _
    · rw [if_neg (by omega), Mem.qword_setQword_disjoint (by omega), hzero]

/-- The second level is clear, and nothing else was changed. -/
theorem clearedLevels_outside {m : Mem} {a : Nat} (ha : a < PML4 ∨ PML4 + 4096 ≤ a) :
    clearedLevels m a = clear m PDPT 4096 a := by
  have hone : ∀ b, a < b ∨ b + 8 ≤ a → ∀ (m : Mem) (x : Nat), m.setQword b x a = m a :=
    fun b hb m x => Mem.setQword_outside hb
  unfold PML4 at ha
  have hcleared : clear m PML4 4096 a = m a := by
    unfold PML4
    rw [clear, if_neg (by omega)]
  rw [clearedLevels, hone _ (by unfold PML4; omega), hone _ (by unfold PML4; omega), clear, hcleared,
    clear]

/-- What the function leaves, table by table. -/
theorem setupPaging_fills (m : Mem) :
    (∀ i, i < 512 → (setupPaging m).qword (PML4 + 8 * i) = bootPml4 i) ∧
    (∀ i, i < 512 → (setupPaging m).qword (PDPT + 8 * i) = bootPdpt i) ∧
    (∀ j, j < 4096 → (setupPaging m).qword (PD + 8 * j) = bootPd j) ∧
    ∀ a, (a < PML4 ∨ PD + 8 * 4096 ≤ a) → setupPaging m a = m a := by
  have hpdpt := @pdptLoop_fills 8 PD PDPT (clearedLevels m) (by decide) (by decide) (by decide)
  have hpd := @pdLoop_fills 4096 0 0 PD (pdptLoop 8 PD (PDPT, clearedLevels m)).2 (by decide)
    (by decide) (by decide) (by decide)
  rw [← setupPaging_eq] at hpd
  -- the directories lie behind the other levels
  have hbelow : ∀ a, a + 8 ≤ PD →
      (setupPaging m).qword a = (pdptLoop 8 PD (PDPT, clearedLevels m)).2.qword a :=
    fun a ha => Mem.qword_congr fun i hi => hpd.frame _ (Or.inl (by omega))
  refine ⟨fun i hi => ?_, fun i hi => ?_, fun j hj => ?_, fun a ha => ?_⟩
  · rw [hbelow _ (by unfold PML4 PD; omega), ← clearedLevels_pml4 (m := m) hi]
    exact Mem.qword_congr fun j hj => hpdpt.frame _ (Or.inl (by unfold PML4 PDPT; omega))
  · rw [hbelow _ (by unfold PDPT PD; omega), bootPdpt]
    by_cases h8 : i < 8
    · rw [if_pos h8, hpdpt.word i h8]
      rfl
    · rw [if_neg h8]
      refine Mem.qword_eq_zero fun j hj => ?_
      rw [hpdpt.frame _ (Or.inr (by omega)),
        clearedLevels_outside (Or.inr (by unfold PML4 PDPT; omega)), clear, if_pos (by omega)]
  · rw [hpd.word j hj, bootPd]
    omega
  · unfold PML4 PD at ha
    have hout : ¬ (PDPT ≤ a ∧ a < PDPT + 4096) := by
      unfold PDPT
      omega
    rw [hpd.frame a (by unfold PD; omega), hpdpt.frame a (by unfold PDPT; omega),
      clearedLevels_outside (by unfold PML4; omega), clear, if_neg hout]

/-! ## The address space -/

/-- The lowest 8 GiB of both halves of the address space; the lower half is there until `vmm_init`
takes it away. -/
def bootMap (low : Bool) (va : Nat) : Option Nat :=
  if low = true ∧ va < 2 ^ 33 then some va
  else if PHYSICAL_MEMORY ≤ va ∧ va < PHYSICAL_MEMORY + 2 ^ 33 then some (va - PHYSICAL_MEMORY)
  else none

theorem tableIndex_eq (shift va : Nat) :
    tableIndex shift (va &&& 0xFFFFFFFFFFFF) = va % 2 ^ 48 / 2 ^ shift % 512 :=
  levelIndex_val shift va

/-- An entry of the second level is present and maps no page. -/
theorem directory_flags (k : Nat) : (0xA003 + k * 4096) &&& PAGE_PRESENT ≠ 0 ∧
    (0xA003 + k * 4096) &&& PAGE_LARGE = 0 := by
  rw [and_present, and_large]
  omega

/-- An entry of a directory maps a large page. -/
theorem large_flags (j : Nat) : (j * 0x200000 + 0x83) &&& PAGE_PRESENT ≠ 0 ∧
    (j * 0x200000 + 0x83) &&& PAGE_LARGE ≠ 0 := by
  rw [and_present, and_large]
  omega

/-- The directory that an entry of the second level leads to. -/
theorem directory_entry (k : Nat) : pageMask (0xA003 + k * 4096) = 0xA000 + k * 4096 := by
  unfold pageMask
  omega

/-- The frame of an entry of a directory. -/
theorem large_frame (j : Nat) : (j * 0x200000 + 0x83) / 2 ^ 21 * 2 ^ 21 = j * 2 ^ 21 := by omega

section Walk

variable {m : Mem} {low : Bool}
  (hpml4 : ∀ i, i < 512 → entry m 0x8000 i = if i = 256 ∨ low = true ∧ i = 0 then 0x9003 else 0)
  (hpdpt : ∀ i, i < 512 → entry m 0x9000 i = bootPdpt i)
  (hpd : ∀ k i, k < 8 → i < 512 → entry m (0xA000 + k * 4096) i = bootPd (k * 512 + i))
include hpml4 hpdpt hpd

/-- **The walk** of any address of 64 bits. -/
theorem pageWalk_boot {va : Nat} (hva : va < 2 ^ 64) : pageWalk m PML4 va = bootMap low va := by
  have hroot : pageMask PML4 = 0x8000 := rfl
  have hphysical : PHYSICAL_MEMORY = 2 ^ 64 - 2 ^ 47 := rfl
  rw [pageWalk, bootMap]
  by_cases hcanonical : Canonical va
  · rw [if_neg (not_not.mpr hcanonical)]
    unfold Canonical at hcanonical
    simp only [tableIndex_eq, hroot]
    rw [hpml4 _ (Nat.mod_lt _ (by decide))]
    by_cases htop : va % 2 ^ 48 / 2 ^ 39 % 512 = 256 ∨
        low = true ∧ va % 2 ^ 48 / 2 ^ 39 % 512 = 0
    · -- an address of one of the two entries: what is left of it is `v`
      obtain ⟨v, hv, hvlow, hvmod⟩ : ∃ v, v < 2 ^ 39 ∧ va % 2 ^ 48 % 2 ^ 39 = v ∧
          (low = true ∧ va = v ∨ va = PHYSICAL_MEMORY + v) := by
        refine ⟨va % 2 ^ 48 % 2 ^ 39, Nat.mod_lt _ (by decide), rfl, ?_⟩
        rcases htop with h | ⟨hlow, h⟩
        · exact Or.inr (by omega)
        · exact Or.inl ⟨hlow, by omega⟩
      have hi30 : va % 2 ^ 48 / 2 ^ 30 % 512 = v / 2 ^ 30 := by omega
      have hi21 : va % 2 ^ 48 / 2 ^ 21 % 512 = v / 2 ^ 21 % 512 := by omega
      have hoffset : va % 2 ^ 21 = v % 2 ^ 21 := by omega
      have hpdptmask : pageMask 0x9003 = 0x9000 := rfl
      rw [if_pos htop, if_neg (by decide), hpdptmask, hi30, hi21, hoffset, hpdpt _ (by omega),
        bootPdpt]
      by_cases hmapped : v < 2 ^ 33
      · -- a large page of one of the eight directories
        have hk : v / 2 ^ 30 < 8 := by omega
        have hpde : v / 2 ^ 30 * 512 + v / 2 ^ 21 % 512 = v / 2 ^ 21 := by omega
        rw [if_pos hk, directory_entry, hpd _ _ hk (Nat.mod_lt _ (by decide)), hpde, bootPd,
          if_neg (directory_flags _).1, if_neg (not_not.mpr (directory_flags _).2),
          if_neg (large_flags _).1, if_pos (large_flags _).2, large_frame,
          Nat.div_add_mod']
        rcases hvmod with ⟨hlow, rfl⟩ | rfl
        · rw [if_pos ⟨hlow, hmapped⟩]
        · rw [if_neg (by omega), if_pos (by omega), Nat.add_sub_cancel_left]
      · have hk : ¬ v / 2 ^ 30 < 8 := by omega
        rw [if_neg hk, if_pos (by decide)]
        rcases hvmod with ⟨hlow, rfl⟩ | rfl
        · rw [if_neg (by omega), if_neg (by omega)]
        · rw [if_neg (by omega), if_neg (by omega)]
    · have hunmapped : ¬ (low = true ∧ va < 2 ^ 33) := by
        rintro ⟨hlow, hlt⟩
        exact htop (Or.inr ⟨hlow, by omega⟩)
      rw [if_neg htop, if_pos (Or.inl (by decide)), if_neg hunmapped, if_neg (by omega)]
  · rw [if_pos hcanonical]
    unfold Canonical at hcanonical
    rw [if_neg (by omega), if_neg (by omega)]

end Walk

section Setup

variable (m : Mem)

theorem setupPaging_pml4 {i : Nat} (hi : i < 512) :
    entry (setupPaging m) 0x8000 i = if i = 256 ∨ true = true ∧ i = 0 then 0x9003 else 0 := by
  refine ((setupPaging_fills m).1 i hi).trans ?_
  simp only [bootPml4, true_and]
  split <;> split <;> first | rfl | (exfalso; omega)

theorem setupPaging_pdpt {i : Nat} (hi : i < 512) : entry (setupPaging m) 0x9000 i = bootPdpt i :=
  (setupPaging_fills m).2.1 i hi

theorem setupPaging_pd {k i : Nat} (hk : k < 8) (hi : i < 512) :
    entry (setupPaging m) (0xA000 + k * 4096) i = bootPd (k * 512 + i) := by
  rw [← (setupPaging_fills m).2.2.1 (k * 512 + i) (by omega), entry, PD]
  congr 1
  ring

/-- The kernel starts on the tables of the boot manager. -/
theorem bootTables_setupPaging {s : State} (hmem : s.mem = setupPaging m) (hcr3 : s.cr3 = PML4) :
    BootTables s := by
  refine ⟨hcr3, fun i => ?_, fun i => ?_, fun k i hk => ?_⟩
  · rw [hmem]
    exact (setupPaging_fills m).1 i i.isLt
  · rw [hmem]
    exact setupPaging_pdpt m i.isLt
  · rw [hmem]
    exact setupPaging_pd m hk i.isLt

/-- Without entry 0 of the first level the other entries are as they were. -/
theorem entry_unmapLow {table i : Nat} (h : 0x8008 ≤ table + 8 * i) :
    entry ((setupPaging m).setQword PML4 0) table i = entry (setupPaging m) table i :=
  Mem.qword_setQword_disjoint (Or.inr h)

end Setup

/-- From the tables of the boot manager `mm_init` starts the heap. -/
theorem mmInit_setupPaging {m : Mem} {map : E820Map} {s s' : State} (hmem : s.mem = setupPaging m)
    (hcr3 : s.cr3 = PML4) (hwindow : ∀ s₁, pmmInit map s = .ok ((), s₁) → s₁.WindowFrames)
    (hrun : mmInit map s = .ok ((), s')) : HeapInv s' [mmioBlock s'] :=
  mmInit_spec (bootTables_setupPaging m hmem hcr3) hwindow hrun

/-- **From the boot manager's tables to the kernel's.** Whatever memory held, after `setup_paging`
the processor maps the lowest 8 GiB of both halves of the address space to the lowest 8 GiB of
memory, and no other address of 64 bits; without entry 0, which `vmm_init` takes away, only those of
the upper half. Nothing outside the tables is changed, and they are the tables that `mm_init`
expects. -/
theorem setupPaging_maps (m : Mem) :
    (∀ va, va < 2 ^ 64 → pageWalk (setupPaging m) PML4 va = bootMap true va) ∧
    (∀ va, va < 2 ^ 64 →
      pageWalk ((setupPaging m).setQword PML4 0) PML4 va = bootMap false va) ∧
    (∀ a, (a < PML4 ∨ PD + 8 * 4096 ≤ a) → setupPaging m a = m a) ∧
    ∀ s : State, s.mem = setupPaging m → s.cr3 = PML4 → BootTables s := by
  refine ⟨fun va hva => ?_, fun va hva => ?_, (setupPaging_fills m).2.2.2,
    fun s hmem hcr3 => bootTables_setupPaging m hmem hcr3⟩
  · exact pageWalk_boot (fun i hi => setupPaging_pml4 m hi) (fun i hi => setupPaging_pdpt m hi)
      (fun k i hk hi => setupPaging_pd m hk hi) hva
  · refine pageWalk_boot (fun i hi => ?_) (fun i hi => ?_) (fun k i hk hi => ?_) hva
    · by_cases h0 : i = 0
      · subst h0
        rw [if_neg (by decide)]
        exact Mem.qword_setQword_same _ _ _
      · rw [entry_unmapLow m (by omega), setupPaging_pml4 m hi]
        simp only [h0, and_false]
    · rw [entry_unmapLow m (by omega)]
      exact setupPaging_pdpt m hi
    · rw [entry_unmapLow m (by omega)]
      exact setupPaging_pd m hk hi

/-- The entry point of the kernel, and the tables on a cleared memory. -/
theorem setupPaging_maps_zero :
    pageWalk (setupPaging fun _ => 0) PML4 0xFFFF800000100000 = some 0x100000 ∧
    pageWalk ((setupPaging fun _ => 0).setQword PML4 0) PML4 0x100000 = none ∧
    (∀ a, PD + 8 * 4096 ≤ a → setupPaging (fun _ => 0) a = 0) ∧
    BootTables { State.boot with mem := setupPaging fun _ => 0 } := by
  obtain ⟨hboot, hkernel, hframe, htables⟩ := setupPaging_maps fun _ => 0
  refine ⟨(hboot _ (by decide)).trans (by decide), (hkernel _ (by decide)).trans (by decide), ?_, ?_⟩
  · intro a ha
    exact hframe a (Or.inr ha)
  · refine htables _ ?_ ?_
    · simp only
    · rfl

end Windozz.Bootmgr

import Windozz.Bootmgr.Machine
import Windozz.Echfs.Format

set_option autoImplicit false

/-! # The layout of the boot volume

`echfs_load` derives the place of the directory from the identity table. The 64-bit product of the
block count and the size of a table entry is built from two halves: `shl edx, 3` for the high half,
the bits that `shl eax, 3` loses moved over by `shr ecx, 28`, one bit too few. The result agrees
with the arithmetic of `echfs-utils` when the bit moved too much is not there
(`deriveLayout_iff`).
-/

namespace Windozz.Bootmgr

open Echfs

/-- The variables of `echfs_load` that describe the volume. -/
structure Layout where
  directory_size : Nat
  block_size : Nat
  allocation_size : Nat
  directory : Nat
  entries_per_block : Nat

/-- The part of `echfs_load` between the check of the signature and `.scan_loop`, or the divide
fault. -/
def deriveLayout (m : Mem) : Option Layout :=
  let si := DISK_BUFFER
  let block_size := dword m (si + 28) / 2 ^ 9 % 2 ^ 16
  let eax := dword m (si + 12)
  let edx := dword m (si + 16)
  let edx := u32 (edx * 2 ^ 3)
  let ecx := eax
  let ecx := ecx / 2 ^ 28
  let edx := edx ||| ecx
  let eax := u32 (eax * 2 ^ 3)
  match div32 edx eax (dword m (si + 28)) with
  | none => none
  | some (eax, edx) =>
      let eax := if edx = 0 then eax else u32 (eax + 1)
      some {
        directory_size := dword m (si + 20)
        block_size := block_size
        allocation_size := eax
        directory := u32 (eax + 16)
        entries_per_block := block_size * 2 % 2 ^ 16 % 2 ^ 8 }

/-! ## The carry -/

/-- The bits that `shr ecx, 28` moves into the high half are those of the product. -/
def CarryFits (blocks : Nat) : Prop :=
  blocks % 2 ^ 32 < 2 ^ 28 ∨ (2 ^ 32 - 2 ^ 28 ≤ blocks % 2 ^ 32 ∧ blocks / 2 ^ 32 % 2 = 1)

/-- Four bits put into a number whose low three bits are clear. -/
theorem or_four_bits (h : Nat) {x : Nat} (hx : x < 16) :
    8 * h ||| x = if x < 8 then 8 * h + x else if h % 2 = 1 then 8 * h + x - 8 else 8 * h + x := by
  by_cases h8 : x < 8
  · rw [if_pos h8]
    exact (Nat.two_pow_add_eq_or_of_lt (i := 3) h8 h).symm
  · rw [if_neg h8]
    have hlow : ∀ k y, y < 16 → 16 * k ||| y = 16 * k + y := fun k y hy =>
      (Nat.two_pow_add_eq_or_of_lt (i := 4) hy k).symm
    rcases Nat.mod_two_eq_zero_or_one h with heven | hodd
    · rw [if_neg (by omega)]
      have h16 : 8 * h = 16 * (h / 2) := by omega
      rw [h16, hlow _ _ hx]
    · rw [if_pos hodd]
      -- bit 3 is set on both sides
      have h16 : 8 * h = 16 * (h / 2) ||| 8 := by
        rw [hlow _ _ (by decide)]
        omega
      have hor : 8 ||| x = x := by
        have hx' : x = 8 * 1 + (x - 8) := by omega
        have hy := Nat.two_pow_add_eq_or_of_lt (i := 3) (show x - 8 < 2 ^ 3 by omega) 1
        rw [hx']
        simp only [Nat.mul_one] at hy ⊢
        rw [show (2 : Nat) ^ 3 = 8 from rfl] at hy
        rw [hy, ← Nat.or_assoc, Nat.or_self]
      rw [h16, Nat.or_assoc, hor, hlow _ _ hx, hlow _ _ (by decide)]
      omega

/-- The high half of the product as the code has it. -/
theorem high_half (blocks : Nat) :
    (u32 (blocks / 2 ^ 32 * 2 ^ 3) ||| blocks % 2 ^ 32 / 2 ^ 28 = u64 (blocks * 8) / 2 ^ 32) ↔
      CarryFits blocks := by
  have hhigh : u32 (blocks / 2 ^ 32 * 2 ^ 3) = 8 * (blocks / 2 ^ 32 % 2 ^ 29) := by
    unfold u32
    omega
  have hproduct : u64 (blocks * 8) / 2 ^ 32
      = 8 * (blocks / 2 ^ 32 % 2 ^ 29) + blocks % 2 ^ 32 / 2 ^ 29 := by
    unfold u64
    omega
  have hparity : blocks / 2 ^ 32 % 2 ^ 29 % 2 = blocks / 2 ^ 32 % 2 := by omega
  rw [hhigh, hproduct, or_four_bits _ (by omega), hparity, CarryFits]
  split
  · omega
  · split <;> omega

/-! ## The layout -/

/-- The size of the allocation table as `echfs-utils` computes it. -/
theorem fatsize_eq {imgsize : Nat} {img : Image} {g : Geometry}
    (hopen : readGeometry imgsize img = .ok g) :
    g.fatsize = ceilDiv (u64 (g.blocks * 8)) g.bytesperblock := (readGeometry_ok hopen).2.2.2.1

/-- The division with the right high half yields the size of the table. -/
theorem div32_exact {n d edx eax : Nat} (hn : edx * 2 ^ 32 + eax = n) (hd : 0 < d)
    (hfits : ceilDiv n d < 2 ^ 32) :
    ∃ q r, div32 edx eax d = some (q, r) ∧ (if r = 0 then q else u32 (q + 1)) = ceilDiv n d := by
  have hle : n / d ≤ ceilDiv n d := Nat.le_add_right _ _
  refine ⟨n / d, n % d, ?_, ?_⟩
  · rw [div32, hn, if_neg (by omega), if_neg (by omega)]
  · unfold ceilDiv at hfits ⊢
    split at hfits
    · rw [if_pos ‹_›, if_pos ‹_›, Nat.add_zero]
    · rw [if_neg ‹_›, if_neg ‹_›]
      exact u32_of_lt hfits

/-- Another dividend yields another size when it is far away. -/
theorem div32_far {n d edx eax q r : Nat} (hd : 0 < d) (hd31 : d < 2 ^ 31) (hpos : 0 < n)
    (hfar : edx * 2 ^ 32 + eax + 2 ^ 32 ≤ n ∨ n + 2 ^ 32 ≤ edx * 2 ^ 32 + eax)
    (hdiv : div32 edx eax d = some (q, r)) :
    (if r = 0 then q else u32 (q + 1)) ≠ ceilDiv n d := by
  unfold div32 at hdiv
  rw [if_neg (by omega)] at hdiv
  split at hdiv
  · cases hdiv
  · obtain ⟨rfl, rfl⟩ := Prod.mk.inj (Option.some.inj hdiv)
    intro heq
    -- rounding up does not wrap, for the size is not zero
    have hsame : ceilDiv (edx * 2 ^ 32 + eax) d = ceilDiv n d := by
      have hone : 0 < ceilDiv n d := by
        by_contra hz
        have := (ceilDiv_le_iff (n := n) (k := 0) hd).mp (by omega)
        omega
      rw [← heq, ceilDiv]
      by_cases hr : (edx * 2 ^ 32 + eax) % d = 0
      · rw [if_pos hr, if_pos hr, Nat.add_zero]
      · rw [if_neg hr] at heq
        rw [if_neg hr, if_neg hr]
        generalize (edx * 2 ^ 32 + eax) / d = q at *
        unfold u32 at heq ⊢
        omega
    have h₁ := ceilDiv_eq_lt hd hsame
    have h₂ := ceilDiv_eq_lt hd hsame.symm
    omega

/-- **Where stage 2 looks for the directory.** For every block count and block size the layout that
`echfs_load` derives from the identity table is that of `echfs-utils`, without a divide fault,
exactly when the carry fits and the directory starts at a 32-bit block number. -/
theorem deriveLayout_iff {imgsize : Nat} {img : Image} {g : Geometry}
    (hopen : readGeometry imgsize img = .ok g) (hcount : rdQword img 12 = g.blocks)
    (hlt : g.bytesperblock < 2 ^ 31) (hfat : g.fatsize < 2 ^ 32) {m : Mem}
    (hm : ∀ a, a < 512 → m (DISK_BUFFER + a) = img.byte a) :
    (∃ v, deriveLayout m = some v ∧ v.allocation_size = g.fatsize ∧ v.directory = g.dirstart) ↔
      CarryFits g.blocks ∧ u64 (g.blocks * 8) ≤ (2 ^ 32 - 17) * g.bytesperblock := by
  obtain ⟨hpos, -, -, -, hdir, -, hbpb, -⟩ := readGeometry_ok hopen
  have hsize := fatsize_eq hopen
  have hblocks : g.blocks < 2 ^ 64 := hcount ▸ Mem.qword_lt _ _
  have hfield : ∀ a, a + 8 ≤ 512 → m.qword (DISK_BUFFER + a) = rdQword img a := fun a ha =>
    Mem.qword_congr fun i hi => by rw [Nat.add_assoc, hm _ (by omega)]
  have hlow : dword m (DISK_BUFFER + 12) = g.blocks % 2 ^ 32 := by
    rw [dword_low, hfield 12 (by decide), hcount]
  have hhigh : dword m (DISK_BUFFER + 16) = g.blocks / 2 ^ 32 := by
    rw [← hcount, ← hfield 12 (by decide), ← dword_high]
  have hebx : dword m (DISK_BUFFER + 28) = g.bytesperblock := by
    rw [dword_low, hfield 28 (by decide), hbpb, Nat.mod_eq_of_lt (by omega)]
  have heax : u32 (g.blocks % 2 ^ 32 * 2 ^ 3) = u64 (g.blocks * 8) % 2 ^ 32 := by
    unfold u32 u64
    omega
  have hstart : g.dirstart = g.fatsize + 16 := by
    rw [hdir, u64_of_lt]
    · exact Nat.add_comm _ _
    · simp only [fatstart, RESERVED_BLOCKS]
      omega
  have hbound : u64 (g.blocks * 8) ≤ (2 ^ 32 - 17) * g.bytesperblock ↔
      g.fatsize + 16 < 2 ^ 32 := by
    rw [hsize, ← ceilDiv_le_iff hpos]
    omega
  rw [hbound, deriveLayout]
  simp only [hlow, hhigh, hebx, heax]
  rw [← high_half]
  -- the high half of the product, with the carry as the code has it
  set edx := u32 (g.blocks / 2 ^ 32 * 2 ^ 3) ||| g.blocks % 2 ^ 32 / 2 ^ 28 with hedx
  constructor
  · rintro ⟨v, hv, halloc, hdirectory⟩
    cases hdiv : div32 edx (u64 (g.blocks * 8) % 2 ^ 32) g.bytesperblock with
    | none =>
        rw [hdiv] at hv
        cases hv
    | some p =>
        obtain ⟨q, r⟩ := p
        rw [hdiv] at hv
        obtain rfl := Option.some.inj hv
        simp only at halloc hdirectory
        constructor
        · by_contra hne
          rw [hsize] at halloc
          refine div32_far hpos hlt ?_ ?_ hdiv halloc
          · by_contra hz
            refine hne ((high_half _).mpr (Or.inl ?_))
            unfold u64 at hz
            omega
          · have hdm := Nat.div_add_mod (u64 (g.blocks * 8)) (2 ^ 32)
            omega
        · rw [halloc, hstart] at hdirectory
          unfold u32 at hdirectory
          omega
  · rintro ⟨hcarry, hfits⟩
    have hproduct : edx * 2 ^ 32 + u64 (g.blocks * 8) % 2 ^ 32 = u64 (g.blocks * 8) := by
      rw [hcarry]
      omega
    obtain ⟨q, r, hdiv, hq⟩ := div32_exact hproduct hpos (by rw [← hsize]; exact hfat)
    rw [hdiv]
    refine ⟨_, rfl, by rw [hsize]; exact hq, ?_⟩
    simp only
    rw [hq, ← hsize, hstart]
    exact u32_of_lt hfits

/-- A buffer that holds the start of an image. -/
def bufferOf (img : Image) : Mem := fun a => img.byte (a - DISK_BUFFER)

theorem bufferOf_buffer (img : Image) (a : Nat) : bufferOf img (DISK_BUFFER + a) = img.byte a := by
  rw [bufferOf, Nat.add_sub_cancel_left]

/-- A volume of `2 ^ 20` blocks of 4096 bytes. -/
theorem deriveLayout_small : ∃ g, readGeometry (2 ^ 32) (writeIdentity [] (2 ^ 20) 4096) = .ok g ∧
    g.blocks = 2 ^ 20 ∧ ∃ v, deriveLayout (bufferOf (writeIdentity [] (2 ^ 20) 4096)) = some v ∧
      v.allocation_size = g.fatsize ∧ v.directory = g.dirstart := by
  have hopen : readGeometry (2 ^ 32) (writeIdentity [] (2 ^ 20) 4096)
      = .ok ⟨2 ^ 32, 2 ^ 20, 2048, 52428, 2064, 54492, 4096⟩ := by decide
  refine ⟨_, hopen, rfl, (deriveLayout_iff hopen (by decide) (by decide) (by decide)
    fun a _ => bufferOf_buffer _ a).mpr ⟨Or.inl (by decide), by decide⟩⟩

/-- With `2 ^ 28` blocks of 2048 bytes one bit too many is carried: the table has `2 ^ 20` blocks,
and stage 2 takes it for three times as long. -/
theorem deriveLayout_misplaced :
    readGeometry (2 ^ 39) (writeIdentity [] (2 ^ 28) 2048)
      = .ok ⟨2 ^ 39, 2 ^ 28, 2 ^ 20, 13421772, 2 ^ 20 + 16, 14470364, 2048⟩ ∧
    rdQword (writeIdentity [] (2 ^ 28) 2048) 12 = 2 ^ 28 ∧
    (deriveLayout (bufferOf (writeIdentity [] (2 ^ 28) 2048))).map
      (fun v => (v.allocation_size, v.directory)) = some (3 * 2 ^ 20, 3 * 2 ^ 20 + 16) := by
  refine ⟨by decide, by decide, by decide⟩

end Windozz.Bootmgr

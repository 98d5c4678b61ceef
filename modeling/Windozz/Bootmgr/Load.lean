import Windozz.Bootmgr.Disk
import Windozz.Echfs.Format

set_option autoImplicit false

/-! # Loading a file

The loop of `echfs_load` that follows the chain of a file. `echfs_next_block` finds the table entry
of a block by a division, reads the block of the table that holds it and takes the low half of the
link. `read_block` stands for `echfs_read_block`, and what is assumed of it is that it delivers the
blocks of the chain and the blocks of the table that hold their links (`Readable`). On a volume with
32-bit sector numbers `echfsReadBlock` does (`BootVolume.readable`), as far as it delivers the blocks
of the table.
-/

namespace Windozz.Bootmgr

open Echfs

/-- A function that reads a block to an address; `none` stands for the carry flag. -/
abbrev ReadBlock := Nat → Nat → Mem → Option Mem

/-! ## The functions -/

/-- `echfs_next_block`: the next block, and the memory with a block of the table in the buffer. -/
def echfsNextBlock (read_block : ReadBlock) (alloc_per_block eax : Nat) (m : Mem) :
    Option (Nat × Mem) :=
  match div32 0 eax alloc_per_block with
  | none => none
  | some (eax, edx) =>
      let alloc := u32 (eax + 16)
      let entry := u32 (edx * 2 ^ 3)
      match read_block alloc DISK_BUFFER m with
      | none => none
      -- the offset in `bp` and the address have 16 bits
      | some m => some (dword m ((DISK_BUFFER + entry % 2 ^ 16) % 2 ^ 16), m)

/-- `.read_file_loop`, within `fuel` rounds: the blocks that were loaded, and the memory. -/
def readFileLoop (read_block : ReadBlock) (block_size alloc_per_block : Nat) :
    Nat → Nat → Nat → Mem → Option (List Nat × Mem)
  | 0, _, _, _ => none
  | fuel + 1, block, address, m =>
      match read_block block address m with
      | none => none
      | some m =>
          match echfsNextBlock read_block alloc_per_block block m with
          | none => none
          | some (next, m) =>
              if next = 0xFFFFFFFF then some ([block], m)
              else
                match readFileLoop read_block block_size alloc_per_block fuel next
                  (u32 (address + block_size * 2 ^ 9)) m with
                | none => none
                | some (blocks, m) => some (block :: blocks, m)

/-- The part of `echfs_load` behind the test of the type: `block` is the first block of the file. -/
def loadFile (read_block : ReadBlock) (block_size fuel block address : Nat) (m : Mem) :
    Option (List Nat × Mem) :=
  readFileLoop read_block block_size (block_size * 2 ^ 6 % 2 ^ 16) fuel block address m

/-! ## What reading a block does -/

/-- A block read to an address arrives there, and changes nothing else above 1 MiB. -/
structure Arrives (g : Geometry) (img : Image) (b address : Nat) (m m' : Mem) : Prop where
  bytes : m'.read address g.bytesperblock = block g img b
  frame : ∀ a, 0x100000 ≤ a → (a < address ∨ address + g.bytesperblock ≤ a) → m' a = m a

/-- `read_block` delivers block `b` of the volume to `address`. -/
def Delivers (read_block : ReadBlock) (g : Geometry) (img : Image) (b address : Nat) : Prop :=
  ∀ m, ∃ m', read_block b address m = some m' ∧ Arrives g img b address m m'

/-- The block of the allocation table that holds the entry of a block. -/
def tableBlock (g : Geometry) (b : Nat) : Nat := 16 + b / (g.bytesperblock / 8)

/-- `read_block` delivers a block of a file, and the block of the table with its link. -/
structure Readable (read_block : ReadBlock) (g : Geometry) (img : Image) (b : Nat) : Prop where
  data : ∀ address, 0x100000 ≤ address → address + g.bytesperblock ≤ 2 ^ 32 →
    Delivers read_block g img b address
  table : Delivers read_block g img (tableBlock g b) DISK_BUFFER

/-- The block sizes that stage 1 accepts. -/
structure BootBlocks (bytesperblock : Nat) : Prop where
  aligned : bytesperblock % 512 = 0
  low : 2048 ≤ bytesperblock
  high : bytesperblock ≤ 32256

namespace BootBlocks

variable {g : Geometry} (h : BootBlocks g.bytesperblock)
include h

theorem size_eq : 512 * (g.bytesperblock / 512) = g.bytesperblock := by
  have := h.aligned
  omega

/-- The number of table entries of a block. -/
theorem alloc_per_block : g.bytesperblock / 512 * 2 ^ 6 % 2 ^ 16 = g.bytesperblock / 8 := by
  have := h.size_eq
  have := h.high
  omega

/-- The place of a table entry in its block. -/
theorem fat_place (b : Nat) :
    g.blockLoc (tableBlock g b) + b % (g.bytesperblock / 8) * 8 = g.fatLoc b ∧
      b % (g.bytesperblock / 8) * 8 + 8 ≤ g.bytesperblock := by
  have hsize := h.size_eq
  have hlow := h.low
  have hbytes : g.bytesperblock = g.bytesperblock / 8 * 8 := by omega
  have hdm := Nat.div_add_mod b (g.bytesperblock / 8)
  have hml := Nat.mod_lt b (show 0 < g.bytesperblock / 8 by omega)
  refine ⟨?_, by omega⟩
  unfold tableBlock Geometry.blockLoc Geometry.fatLoc fatstart RESERVED_BLOCKS
  generalize b / (g.bytesperblock / 8) = q at *
  generalize b % (g.bytesperblock / 8) = r at *
  generalize g.bytesperblock / 8 = apb at *
  rw [hbytes, ← hdm]
  ring

end BootBlocks

/-- A double word of a block in memory is that of the image. -/
theorem dword_of_block {g : Geometry} {img : Image} {b address o : Nat} {m : Mem}
    (hread : m.read address g.bytesperblock = block g img b) (ho : o + 4 ≤ g.bytesperblock) :
    dword m (address + o) = dword img.byte (g.blockLoc b + o) :=
  dword_congr fun i hi => by
    rw [Nat.add_assoc, Nat.add_assoc]
    exact Mem.eq_of_read_eq hread (by omega)

section Load

variable {read_block : ReadBlock} {g : Geometry} {img : Image} (h : BootBlocks g.bytesperblock)
include h

/-- `echfs_next_block` returns the low half of the link. -/
theorem echfsNextBlock_spec {b : Nat} (hread : Readable read_block g img b) (hb : b < 2 ^ 32)
    (m : Mem) :
    ∃ m', echfsNextBlock read_block (g.bytesperblock / 8) b m
        = some (fat g img b % 2 ^ 32, m') ∧ ∀ a, 0x100000 ≤ a → m' a = m a := by
  have hlow := h.low
  have hhigh := h.high
  obtain ⟨hplace, hentry⟩ := h.fat_place b
  have hle : b / (g.bytesperblock / 8) ≤ b / 256 := Nat.div_le_div_left (by omega) (by decide)
  have hdiv : div32 0 b (g.bytesperblock / 8)
      = some (b / (g.bytesperblock / 8), b % (g.bytesperblock / 8)) := by
    rw [div32, Nat.zero_mul, Nat.zero_add, if_neg (by omega), if_neg (by omega)]
  obtain ⟨m', hrun, harrive⟩ := hread.table m
  have hdword := dword_of_block harrive.bytes
    (show b % (g.bytesperblock / 8) * 8 + 4 ≤ g.bytesperblock by omega)
  rw [hplace, dword_low img.byte] at hdword
  unfold tableBlock at hrun
  generalize b / (g.bytesperblock / 8) = q at *
  generalize b % (g.bytesperblock / 8) = r at *
  have halloc : u32 (q + 16) = 16 + q := by
    rw [Nat.add_comm]
    exact u32_of_lt (by omega)
  have hoffset : (DISK_BUFFER + u32 (r * 2 ^ 3) % 2 ^ 16) % 2 ^ 16 = DISK_BUFFER + r * 8 := by
    unfold DISK_BUFFER u32
    omega
  refine ⟨m', ?_, fun a ha => harrive.frame a ha (Or.inr ?_)⟩
  · have hfat : fat g img b = img.byte.qword (g.fatLoc b) := rfl
    rw [echfsNextBlock, hdiv]
    simp only [halloc, hrun]
    rw [hoffset, hdword, hfat]
  · unfold DISK_BUFFER
    omega

/-- The loop follows a chain, from the first block of what is left of it. -/
theorem readFileLoop_chain (cs : List Nat) : ∀ {start address fuel : Nat} (m : Mem),
    Linked (fatNext g img) (start :: cs) →
      (∀ b ∈ start :: cs, b < 0xFFFFFFFF ∧ Readable read_block g img b) → 0x100000 ≤ address →
      address + (cs.length + 1) * g.bytesperblock ≤ 2 ^ 32 → cs.length < fuel →
      ∃ m', readFileLoop read_block (g.bytesperblock / 512) (g.bytesperblock / 8) fuel
          start address m = some (start :: cs, m') ∧
        (∀ (k b : Nat), (start :: cs)[k]? = some b →
          m'.read (address + k * g.bytesperblock) g.bytesperblock = block g img b) ∧
        ∀ a, 0x100000 ≤ a → (a < address ∨ address + (cs.length + 1) * g.bytesperblock ≤ a) →
          m' a = m a := by
  induction cs with
  | nil =>
      intro start address fuel m hlinked hblocks hlow hfits hfuel
      obtain ⟨hlt, hread⟩ := hblocks start (by simp)
      obtain ⟨fuel, rfl⟩ : ∃ n, fuel = n + 1 := ⟨fuel - 1, by omega⟩
      rw [List.length_nil, Nat.zero_add, Nat.one_mul] at hfits ⊢
      obtain ⟨m₁, hrun₁, harrive⟩ := hread.data address hlow hfits m
      obtain ⟨m₂, hrun₂, hframe⟩ := echfsNextBlock_spec h hread (by omega) m₁
      -- a chain of one block has no next one, so its entry is the end mark
      have hend : fat g img start = END_OF_CHAIN := by
        by_contra hne
        rw [linked_singleton, fatNext, if_neg hne] at hlinked
        cases hlinked
      refine ⟨m₂, ?_, fun k b hk => ?_, fun a ha hout => ?_⟩
      · simp only [readFileLoop, hrun₁, hrun₂, hend]
        rfl
      · have hk0 : k = 0 := by
          have := (List.getElem?_eq_some_iff.mp hk).1
          simpa using this
        subst hk0
        obtain rfl := Option.some.inj hk
        rw [Nat.zero_mul, Nat.add_zero, ← harrive.bytes]
        exact Mem.read_congr fun i _ => hframe _ (by omega)
      · rw [hframe a ha]
        exact harrive.frame a ha hout
  | cons c cs ih =>
      intro start address fuel m hlinked hblocks hlow hfits hfuel
      obtain ⟨hlt, hread⟩ := hblocks start (by simp)
      have hnext := (hblocks c (by simp)).1
      obtain ⟨fuel, rfl⟩ : ∃ n, fuel = n + 1 := ⟨fuel - 1, by omega⟩
      have hlen : (cs.length + 1 + 1) * g.bytesperblock
          = g.bytesperblock + (cs.length + 1) * g.bytesperblock := by ring
      have hrest : g.bytesperblock ≤ (cs.length + 1) * g.bytesperblock :=
        Nat.le_mul_of_pos_left _ (Nat.succ_pos _)
      have hbytes := h.low
      rw [List.length_cons] at hfits hfuel ⊢
      rw [hlen] at hfits ⊢
      obtain ⟨hlink, hlinked'⟩ := linked_cons_cons.mp hlinked
      obtain ⟨m₁, hrun₁, harrive⟩ := hread.data address hlow (by omega) m
      obtain ⟨m₂, hrun₂, hframe⟩ := echfsNextBlock_spec h hread (by omega) m₁
      have hfat : fat g img start = c := by
        unfold fatNext at hlink
        split at hlink
        · cases hlink
        · exact Option.some.inj hlink
      have hadvance : u32 (address + g.bytesperblock / 512 * 2 ^ 9) = address + g.bytesperblock := by
        have := h.size_eq
        rw [u32_of_lt] <;> omega
      -- the rest is loaded behind this block, and its frame leaves the block as it is
      obtain ⟨m₃, hrun₃, hloaded, hframe₃⟩ := @ih c (address + g.bytesperblock)
        fuel m₂ hlinked' (fun b hb => hblocks b (List.mem_cons_of_mem _ hb)) (by omega)
        (by omega) (by omega)
      refine ⟨m₃, ?_, fun k b hk => ?_, fun a ha hout => ?_⟩
      · have hlow32 : c % 2 ^ 32 = c := Nat.mod_eq_of_lt (by omega)
        rw [readFileLoop]
        simp only [hrun₁, hrun₂, hfat, hlow32, hadvance, hrun₃]
        rw [if_neg (by omega)]
      · cases k with
        | zero =>
            obtain rfl := Option.some.inj hk
            rw [Nat.zero_mul, Nat.add_zero, ← harrive.bytes]
            refine Mem.read_congr fun i hi => ?_
            rw [hframe₃ _ (by omega) (by omega), hframe _ (by omega)]
        | succ k =>
            have hplace : address + (k + 1) * g.bytesperblock
                = address + g.bytesperblock + k * g.bytesperblock := by ring
            rw [hplace]
            exact hloaded k b hk
      · rw [hframe₃ a ha (by omega), hframe a ha]
        exact harrive.frame a ha (by omega)

end Load

/-- **Loading a file.** The loop ends after the blocks of the chain, in their order, and leaves the
blocks one after the other from the load address on and nothing else above 1 MiB. -/
theorem loadFile_chain {read_block : ReadBlock} {g : Geometry} {img : Image}
    (hsize : BootBlocks g.bytesperblock) {chain : List Nat} {start address fuel : Nat}
    (hlinked : Linked (fatNext g img) chain) (hstart : chain.head? = some start)
    (hblocks : ∀ b ∈ chain, b < 0xFFFFFFFF)
    (hread : ∀ b ∈ chain, Readable read_block g img b) (hlow : 0x100000 ≤ address)
    (hfits : address + chain.length * g.bytesperblock ≤ 2 ^ 32) (hfuel : chain.length ≤ fuel)
    (m : Mem) :
    ∃ m', loadFile read_block (g.bytesperblock / 512) fuel start address m = some (chain, m') ∧
      (∀ (k b : Nat), chain[k]? = some b →
        m'.read (address + k * g.bytesperblock) g.bytesperblock = block g img b) ∧
      ∀ a, 0x100000 ≤ a → (a < address ∨ address + chain.length * g.bytesperblock ≤ a) →
        m' a = m a := by
  cases chain with
  | nil => cases hstart
  | cons c cs =>
      obtain rfl : c = start := Option.some.inj hstart
      rw [loadFile, hsize.alloc_per_block]
      exact readFileLoop_chain hsize cs m hlinked (fun b hb => ⟨hblocks b hb, hread b hb⟩) hlow
        hfits hfuel

/-! ## The volume on the disk -/

/-- A volume of 32-bit sector numbers, with blocks that stage 1 accepts, and the disk it is on. -/
structure BootVolume (g : Geometry) (img : Image) (partition_lba : Nat) (disk : Mem) : Prop where
  sound : g.Sound
  size : BootBlocks g.bytesperblock
  length : img.length = g.imgsize
  lba : partition_lba + g.blocks * (g.bytesperblock / 512) ≤ 2 ^ 32
  holds : ∀ a, a < img.length → disk (512 * partition_lba + a) = img.byte a

namespace BootVolume

variable {g : Geometry} {img : Image} {partition_lba : Nat} {disk : Mem}
  (h : BootVolume g img partition_lba disk)
include h

/-- The block of the table with the entry of a block is a block of the volume. -/
theorem tableBlock_lt {b : Nat} (hb : b < g.blocks) : tableBlock g b < g.blocks := by
  have hsize := h.size.size_eq
  have hlow := h.size.low
  have hbytes : g.bytesperblock = g.bytesperblock / 8 * 8 := by omega
  have hfat := h.sound.fat_fits
  have hstart := h.sound.datastart_le
  rw [h.sound.datastart_eq] at hstart
  unfold fatstart RESERVED_BLOCKS at hstart
  have hlt : b / (g.bytesperblock / 8) < g.fatsize := by
    rw [Nat.div_lt_iff_lt_mul (by omega)]
    rw [hbytes, ← Nat.mul_assoc] at hfat
    omega
  unfold tableBlock
  omega

/-- The bytes of a block on the disk. -/
theorem block_read {b : Nat} (hb : b < g.blocks) :
    disk.read (512 * (partition_lba + b * (g.bytesperblock / 512))) g.bytesperblock
      = block g img b := by
  have hplace : 512 * (partition_lba + b * (g.bytesperblock / 512))
      = 512 * partition_lba + g.blockLoc b := by
    have hsize := h.size.size_eq
    calc 512 * (partition_lba + b * (g.bytesperblock / 512))
        = 512 * partition_lba + b * (512 * (g.bytesperblock / 512)) := by ring
      _ = 512 * partition_lba + g.blockLoc b := by rw [hsize, Geometry.blockLoc]
  have hin : g.blockLoc b + g.bytesperblock ≤ img.length := by
    rw [h.length, h.sound.imgsize_eq, Geometry.blockLoc, ← Nat.succ_mul]
    exact Nat.mul_le_mul_right _ hb
  rw [hplace]
  refine Mem.read_congr fun i hi => ?_
  rw [Nat.add_assoc]
  exact h.holds _ (by omega)

theorem addressable {b : Nat} (hb : b < g.blocks) :
    Addressable partition_lba (g.bytesperblock / 512) b := by
  have hlow := h.size.low
  have hhigh := h.size.high
  have hlba := h.lba
  have hle : (b + 1) * (g.bytesperblock / 512) ≤ g.blocks * (g.bytesperblock / 512) :=
    Nat.mul_le_mul_right _ hb
  exact ⟨by omega, by omega, by omega⟩

/-- `echfs_read_block` delivers a block to an address above 1 MiB. -/
theorem delivers_high {bios : Bios} (hbios : bios.Reads disk) {b address : Nat}
    (hb : b < g.blocks) (hlow : 0x100000 ≤ address)
    (hfits : address + g.bytesperblock ≤ 2 ^ 32) :
    Delivers (echfsReadBlock bios partition_lba (g.bytesperblock / 512)) g img b address := by
  intro m
  have hsize := h.size.size_eq
  have hpos := h.size.low
  have hhigh := h.size.high
  obtain ⟨m', hrun, hstored⟩ := readBlock_stored hbios (h.addressable hb) m
    (show address < 2 ^ 32 by omega) (offBuffer_high hlow (by omega) (by omega))
  rw [hsize] at hstored
  have hplace : ∀ i, i < g.bytesperblock → u32 (address + i) = address + i := fun i hi =>
    u32_of_lt (by omega)
  refine ⟨m', hrun, ?_, fun a ha hout => ?_⟩
  · rw [← h.block_read hb]
    refine Mem.read_congr fun i hi => ?_
    rw [← hplace i hi]
    exact hstored.stored i hi
  · refine hstored.frame a (by unfold DISK_BUFFER; omega) fun i hi => ?_
    rw [hplace i hi]
    omega

/-- `echfs_read_block` delivers a block to the buffer, when the later chunks of it leave there what
the block starts with. -/
theorem delivers_buffer {bios : Bios} (hbios : bios.Reads disk) {b : Nat} (hb : b < g.blocks)
    (hsame : SameChunks disk (512 * (partition_lba + b * (g.bytesperblock / 512)))
      g.bytesperblock) :
    Delivers (echfsReadBlock bios partition_lba (g.bytesperblock / 512)) g img b DISK_BUFFER := by
  intro m
  have hhigh := h.size.high
  obtain ⟨m', hrun, hbytes, hframe⟩ := readBlock_buffer hbios (h.addressable hb) m
  rw [h.size.size_eq] at hbytes hframe
  refine ⟨m', hrun, ?_, fun a ha hout => hframe a ?_⟩
  · rw [← h.block_read hb]
    refine Mem.read_congr fun i hi => ?_
    rw [hbytes i hi]
    exact hsame i hi
  · unfold DISK_BUFFER
    omega

/-- The blocks of a volume with blocks of at most 8 KiB are read as `loadFile_chain` asks. -/
theorem readable {bios : Bios} (hbios : bios.Reads disk) (hsmall : g.bytesperblock ≤ 8192)
    {b : Nat} (hb : b < g.blocks) :
    Readable (echfsReadBlock bios partition_lba (g.bytesperblock / 512)) g img b :=
  ⟨fun _ hlow hfits => h.delivers_high hbios hb hlow hfits,
    h.delivers_buffer hbios (h.tableBlock_lt hb) (sameChunks_small _ _ hsmall)⟩

end BootVolume

/-- A volume of 20 blocks of 2048 bytes, empty but for the links of a file in blocks 18 and 19. -/
def linkedImage : Image :=
  wrQword (wrQword (List.replicate 40960 0) ((volumeOf 20 2048).fatLoc 18) 19)
    ((volumeOf 20 2048).fatLoc 19) END_OF_CHAIN

theorem linkedImage_volume : BootVolume (volumeOf 20 2048) linkedImage 0 linkedImage.byte where
  sound := by constructor <;> decide
  size := by constructor <;> decide
  length := by
    rw [linkedImage, length_wrQword, length_wrQword, List.length_replicate]
    · decide
    · rw [List.length_replicate]
      decide
    · rw [length_wrQword, List.length_replicate]
      · decide
      · rw [List.length_replicate]
        decide
  lba := by decide
  holds := fun a _ => congrArg linkedImage.byte (by omega)

theorem linkedImage_linked : Linked (fatNext (volumeOf 20 2048) linkedImage) [18, 19] := by
  have hlast : fat (volumeOf 20 2048) linkedImage 19 = END_OF_CHAIN :=
    rdQword_wrQword_same _ _ _
  have hfirst : fat (volumeOf 20 2048) linkedImage 18 = 19 := by
    rw [fat, linkedImage, rdQword, byte_wrQword, Mem.qword_setQword_disjoint (by decide)]
    exact rdQword_wrQword_same _ _ _
  exact ⟨by rw [fatNext, hfirst]; decide, by rw [linked_singleton, fatNext, if_pos hlast]⟩

/-- The file in blocks 18 and 19, loaded to 1 MiB. -/
theorem loadFile_linkedImage : ∃ m',
    loadFile (echfsReadBlock (diskBios linkedImage.byte) 0 4) 4 2 18 0x100000 (fun _ => 0)
      = some ([18, 19], m') ∧
    (∀ (k b : Nat), [18, 19][k]? = some b →
      m'.read (0x100000 + k * 2048) 2048 = block (volumeOf 20 2048) linkedImage b) ∧
    ∀ a, 0x100000 ≤ a → (a < 0x100000 ∨ 0x100000 + 2 * 2048 ≤ a) → m' a = 0 :=
  loadFile_chain (g := volumeOf 20 2048) linkedImage_volume.size linkedImage_linked rfl (by decide)
    (fun _ hb => linkedImage_volume.readable (diskBios_reads _) (by decide)
      ((by decide : ∀ b ∈ [18, 19], b < 20) _ hb))
    (by decide) (by decide) (by decide) _

end Windozz.Bootmgr

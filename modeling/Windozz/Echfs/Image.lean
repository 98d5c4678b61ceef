import Windozz.Basic.Bytes

set_option autoImplicit false

/-! # The image file of echfs-utils

An image is the list of its bytes. `echfs-utils.c` reaches it through `fseek` followed by
`fread` or `fwrite`: a read past the end of the file leaves the missing bytes of `rd_qword`'s
zero-initialised result at zero, and a write past the end grows the file, the gap being read
back as zeros.

The globals `main` computes from the identity table are the record `Geometry`. Under
`Geometry.Sound` the image is cut into four regions (reserved blocks, allocation table,
directory, data blocks), and a write in one of them is invisible to reads of the others.
-/

namespace Windozz.Echfs

/-! ## Constants of the source -/

def ROOT_ID : UInt64 := 0xffffffffffffffff
def BYTES_PER_SECT : Nat := 512
def ENTRIES_PER_SECT : Nat := 2
def FILENAME_LEN : Nat := 218
def RESERVED_BLOCKS : Nat := 16
def FILE_TYPE : UInt8 := 0
def DIRECTORY_TYPE : UInt8 := 1
def DELETED_ENTRY : UInt64 := 0xfffffffffffffffe
def RESERVED_BLOCK : Nat := 0xfffffffffffffff0
def END_OF_CHAIN : Nat := 0xffffffffffffffff

/-- `sizeof(entry_t)`. -/
def ENTRY_SIZE : Nat := 256

/-- The ASCII code of the path separator. -/
def SLASH : UInt8 := 47

/-! ## Reading and writing the file -/

/-- The bytes of an image file. -/
abbrev Image := List UInt8

namespace Image

/-- The bytes of the file as a memory; past the end of the file every byte reads as zero. -/
def byte (img : Image) : Mem := fun i => img.getD i 0

/-- `fseek` to `loc` and `fwrite` of `bs`. -/
def write (img : Image) (loc : Nat) (bs : List UInt8) : Image :=
  if bs = [] then img
  else img.take loc ++ List.replicate (loc - img.length) 0 ++ bs ++ img.drop (loc + bs.length)

theorem length_write {img : Image} {loc : Nat} {bs : List UInt8} (h : bs ≠ []) :
    (img.write loc bs).length = max img.length (loc + bs.length) := by
  have hpos : 0 < bs.length := List.length_pos_of_ne_nil h
  simp only [write, if_neg h, List.length_append, List.length_take, List.length_replicate,
    List.length_drop]
  omega

theorem length_write_of_le {img : Image} {loc : Nat} {bs : List UInt8}
    (h : loc + bs.length ≤ img.length) : (img.write loc bs).length = img.length := by
  by_cases hb : bs = []
  · rw [write, if_pos hb]
  · rw [length_write hb]
    omega

/-- A write to the file is a write to its memory. -/
@[simp] theorem byte_write (img : Image) (loc : Nat) (bs : List UInt8) :
    (img.write loc bs).byte = img.byte.write loc bs := by
  funext i
  rw [Mem.write_apply]
  by_cases hb : bs = []
  · subst hb
    rw [write, if_pos rfl, if_neg (by simp)]
  simp only [byte, write, if_neg hb, List.getD_eq_getElem?_getD]
  have hhead : (img.take loc ++ List.replicate (loc - img.length) 0).length = loc := by
    simp only [List.length_append, List.length_take, List.length_replicate]
    omega
  by_cases hlo : i < loc
  · rw [if_neg (by omega), List.append_assoc, List.append_assoc, ← List.append_assoc,
      List.getElem?_append_left (by rw [hhead]; exact hlo)]
    by_cases hi : i < img.length
    · rw [List.getElem?_append_left (by rw [List.length_take]; omega), List.getElem?_take_of_lt hlo]
    · rw [List.getElem?_append_right (by rw [List.length_take]; omega),
        List.getElem?_eq_none (l := img) (by omega), List.getElem?_replicate]
      split <;> rfl
  · rw [List.append_assoc, List.getElem?_append_right (by rw [hhead]; omega), hhead]
    by_cases hin : i < loc + bs.length
    · rw [if_pos ⟨by omega, hin⟩, List.getElem?_append_left (by omega)]
    · rw [if_neg (by omega), List.getElem?_append_right (by omega), List.getElem?_drop]
      congr 2
      omega

/-- Two files with the same length and the same bytes are equal. -/
theorem ext {img img' : Image} (hlen : img.length = img'.length)
    (h : ∀ i, img.byte i = img'.byte i) : img = img' := by
  apply List.ext_getElem hlen
  intro i hi hi'
  have hb := h i
  simp only [byte, List.getD_eq_getElem?_getD, List.getElem?_eq_getElem hi,
    List.getElem?_eq_getElem hi', Option.getD_some] at hb
  exact hb

end Image

/-- `rd_qword(loc)`. -/
def rdQword (img : Image) (loc : Nat) : Nat := img.byte.qword loc

/-- `wr_qword(loc, x)`. -/
def wrQword (img : Image) (loc x : Nat) : Image := img.write loc (toLE 8 x)

/-- `fseek(image, (long)off, SEEK_SET)`: an offset beyond `LONG_MAX` is negative as a `long`,
the seek is refused and the position stays where it was. -/
def fseek (pos off : Nat) : Nat := if off < 2 ^ 63 then off else pos

/-- `fread(buf, n, 1, file)` at position `pos` of a file with the bytes `data`: the bytes
available replace the front of the buffer. The result is the buffer and the new position. -/
def fread (data : List UInt8) (pos n : Nat) (buf : List UInt8) : List UInt8 × Nat :=
  let chunk := (data.drop pos).take n
  (chunk ++ buf.drop chunk.length, pos + chunk.length)

theorem byte_wrQword (img : Image) (loc x : Nat) :
    (wrQword img loc x).byte = img.byte.setQword loc x := by
  rw [wrQword, Image.byte_write, Mem.setQword]

theorem length_wrQword {img : Image} {loc x : Nat} (h : loc + 8 ≤ img.length) :
    (wrQword img loc x).length = img.length :=
  Image.length_write_of_le (by simpa using h)

theorem rdQword_wrQword_same (img : Image) (loc x : Nat) :
    rdQword (wrQword img loc x) loc = u64 x := by
  rw [rdQword, byte_wrQword, Mem.qword_setQword_same]

theorem rdQword_past_end {img : Image} {loc : Nat} (h : img.length ≤ loc) : rdQword img loc = 0 := by
  apply Mem.qword_eq_zero
  intro i _
  rw [Image.byte, List.getD_eq_getElem?_getD, List.getElem?_eq_none (by omega), Option.getD_none]

/-! ## Geometry -/

/-- The globals `main` computes before it runs a command. -/
structure Geometry where
  imgsize : Nat
  blocks : Nat
  fatsize : Nat
  dirsize : Nat
  dirstart : Nat
  datastart : Nat
  bytesperblock : Nat
  deriving DecidableEq, Repr

/-- `static uint64_t fatstart = RESERVED_BLOCKS`. -/
def fatstart : Nat := RESERVED_BLOCKS

namespace Geometry

/-- `SECTORS_PER_BLOCK`. -/
def sectorsPerBlock (g : Geometry) : Nat := g.bytesperblock / BYTES_PER_SECT

/-- `BYTES_PER_BLOCK`. -/
def bytesPerBlock (g : Geometry) : Nat := g.sectorsPerBlock * BYTES_PER_SECT

/-- `ENTRIES_PER_BLOCK`. -/
def entriesPerBlock (g : Geometry) : Nat := g.sectorsPerBlock * ENTRIES_PER_SECT

/-- The number of entries of the directory table. -/
def entries (g : Geometry) : Nat := g.dirsize * g.entriesPerBlock

/-- The offset of the FAT entry of block `b`. -/
def fatLoc (g : Geometry) (b : Nat) : Nat := fatstart * g.bytesperblock + b * 8

/-- The offset of directory entry `i`. -/
def entryLoc (g : Geometry) (i : Nat) : Nat := g.dirstart * g.bytesperblock + i * ENTRY_SIZE

/-- The offset of block `b`. -/
def blockLoc (g : Geometry) (b : Nat) : Nat := b * g.bytesperblock

/-- The geometry of a volume whose regions fit the image: what `main` computes from a
formatted image with `datastart <= blocks`. -/
structure Sound (g : Geometry) : Prop where
  bytesperblock_pos : 0 < g.bytesperblock
  sector_aligned : g.bytesperblock % BYTES_PER_SECT = 0
  imgsize_eq : g.imgsize = g.blocks * g.bytesperblock
  imgsize_lt : g.imgsize < 2 ^ 63
  fat_fits : g.blocks * 8 ≤ g.fatsize * g.bytesperblock
  dirstart_eq : g.dirstart = fatstart + g.fatsize
  datastart_eq : g.datastart = fatstart + g.fatsize + g.dirsize
  datastart_le : g.datastart ≤ g.blocks

namespace Sound

variable {g : Geometry} (h : g.Sound) {b c i j : Nat}
include h

theorem bytesperblock_ge : 512 ≤ g.bytesperblock := by
  have hpos := h.bytesperblock_pos
  have hmod := h.sector_aligned
  simp only [BYTES_PER_SECT] at hmod
  omega

theorem bytesPerBlock_eq : g.bytesPerBlock = g.bytesperblock := by
  have hmod := h.sector_aligned
  simp only [bytesPerBlock, sectorsPerBlock]
  exact Nat.div_mul_cancel (Nat.dvd_of_mod_eq_zero hmod)

/-- The directory entries fill the directory blocks. -/
theorem entries_size : g.entries * ENTRY_SIZE = g.dirsize * g.bytesperblock := by
  have hb := h.bytesPerBlock_eq
  simp only [bytesPerBlock, BYTES_PER_SECT] at hb
  rw [entries, entriesPerBlock, ENTRY_SIZE, ENTRIES_PER_SECT, ← hb]
  ring

/-- The reserved blocks hold at least the identity table. -/
theorem header_le : 8192 ≤ fatstart * g.bytesperblock := by
  have hge := h.bytesperblock_ge
  simp only [fatstart, RESERVED_BLOCKS]
  omega

/-- The allocation table ends before the directory starts. -/
theorem fat_le : fatstart * g.bytesperblock + g.blocks * 8 ≤ g.dirstart * g.bytesperblock := by
  rw [h.dirstart_eq, Nat.add_mul]
  exact Nat.add_le_add_left h.fat_fits _

/-- The directory ends where the data blocks start. -/
theorem dir_end : g.dirstart * g.bytesperblock + g.entries * ENTRY_SIZE
    = g.datastart * g.bytesperblock := by
  rw [h.entries_size, h.datastart_eq, h.dirstart_eq, ← Nat.add_mul]

theorem data_le : g.datastart * g.bytesperblock ≤ g.imgsize := by
  rw [h.imgsize_eq]
  exact Nat.mul_le_mul_right _ h.datastart_le

theorem blocks_lt : g.blocks < 2 ^ 63 := by
  have hle : g.blocks * 1 ≤ g.blocks * g.bytesperblock :=
    Nat.mul_le_mul_left _ h.bytesperblock_pos
  have hlt := h.imgsize_lt
  rw [h.imgsize_eq] at hlt
  omega

theorem datastart_pos : 0 < g.datastart := by
  rw [h.datastart_eq]
  simp only [fatstart, RESERVED_BLOCKS]
  omega

/-- A FAT entry lies in the allocation table. -/
theorem fatLoc_le (hb : b < g.blocks) :
    8192 ≤ g.fatLoc b ∧ g.fatLoc b + 8 ≤ g.dirstart * g.bytesperblock := by
  have hfat := h.fat_le
  have hhead := h.header_le
  unfold fatLoc
  omega

/-- A directory entry lies in the directory. -/
theorem entryLoc_le (hi : i < g.entries) :
    g.dirstart * g.bytesperblock ≤ g.entryLoc i ∧
      g.entryLoc i + ENTRY_SIZE ≤ g.datastart * g.bytesperblock := by
  have hend := h.dir_end
  simp only [entryLoc, ENTRY_SIZE] at hend ⊢
  omega

/-- A data block lies in the data region. -/
theorem blockLoc_le (hlo : g.datastart ≤ b) (hb : b < g.blocks) :
    g.datastart * g.bytesperblock ≤ g.blockLoc b ∧
      g.blockLoc b + g.bytesperblock ≤ g.imgsize := by
  constructor
  · exact Nat.mul_le_mul_right _ hlo
  · rw [h.imgsize_eq, blockLoc, ← Nat.succ_mul]
    exact Nat.mul_le_mul_right _ hb

omit h in
/-- Distinct blocks do not overlap. -/
theorem blockLoc_disjoint (hne : b ≠ c) :
    g.blockLoc b + g.bytesperblock ≤ g.blockLoc c ∨
      g.blockLoc c + g.bytesperblock ≤ g.blockLoc b := by
  rcases Nat.lt_or_gt_of_ne hne with hlt | hlt
  · left
    rw [blockLoc, blockLoc, ← Nat.succ_mul]
    exact Nat.mul_le_mul_right _ hlt
  · right
    rw [blockLoc, blockLoc, ← Nat.succ_mul]
    exact Nat.mul_le_mul_right _ hlt

end Sound

end Geometry

/-! ## The regions of an image -/

/-- The FAT entry of block `b`. -/
def fat (g : Geometry) (img : Image) (b : Nat) : Nat := rdQword img (g.fatLoc b)

/-- The bytes of block `b`. -/
def block (g : Geometry) (img : Image) (b : Nat) : List UInt8 :=
  img.byte.read (g.blockLoc b) g.bytesperblock

/-- The successor of a block in its chain, `none` after the last one. -/
def fatNext (g : Geometry) (img : Image) (b : Nat) : Option Nat :=
  if fat g img b = END_OF_CHAIN then none else some (fat g img b)

/-- The bytes that hold the FAT entries of the blocks `c` and the blocks themselves. -/
def footprint (g : Geometry) (c : Set Nat) : Set Nat :=
  {a | ∃ b ∈ c, (g.fatLoc b ≤ a ∧ a < g.fatLoc b + 8) ∨
    (g.blockLoc b ≤ a ∧ a < g.blockLoc b + g.bytesperblock)}

theorem footprint_mono (g : Geometry) {c d : Set Nat} (h : c ⊆ d) : footprint g c ⊆ footprint g d :=
  fun _ ⟨b, hb, ha⟩ => ⟨b, h hb, ha⟩

/-- The bytes of directory entry `i`. -/
def entryBytes (g : Geometry) (i : Nat) : Set Nat :=
  {a | g.entryLoc i ≤ a ∧ a < g.entryLoc i + ENTRY_SIZE}

/-- `img'` differs from `img` at most in the bytes of `S`; in particular it has not grown. -/
structure SameOutside (S : Set Nat) (img img' : Image) : Prop where
  length_eq : img'.length = img.length
  byte_eq : ∀ a, a ∉ S → img'.byte a = img.byte a

namespace SameOutside

variable {S T : Set Nat} {img img' img'' : Image}

theorem refl (S : Set Nat) (img : Image) : SameOutside S img img := ⟨rfl, fun _ _ => rfl⟩

theorem trans (h : SameOutside S img img') (h' : SameOutside S img' img'') :
    SameOutside S img img'' :=
  ⟨h'.length_eq.trans h.length_eq, fun a ha => (h'.byte_eq a ha).trans (h.byte_eq a ha)⟩

theorem mono (hST : S ⊆ T) (h : SameOutside S img img') : SameOutside T img img' :=
  ⟨h.length_eq, fun a ha => h.byte_eq a fun hS => ha (hST hS)⟩

theorem of_write {loc : Nat} {bs : List UInt8} (hle : loc + bs.length ≤ img.length)
    (hS : ∀ a, loc ≤ a → a < loc + bs.length → a ∈ S) : SameOutside S img (img.write loc bs) := by
  refine ⟨Image.length_write_of_le hle, fun a ha => ?_⟩
  rw [Image.byte_write]
  apply Mem.write_outside
  by_contra hin
  exact ha (hS a (by omega) (by omega))

end SameOutside

/-! ### What a write leaves alone -/

/-- The blocks of `c` lie in the data region. -/
def InData (g : Geometry) (c : Set Nat) : Prop := ∀ b ∈ c, g.datastart ≤ b ∧ b < g.blocks

section Frame

variable {g : Geometry} (hg : g.Sound) {img img' : Image} {c : Set Nat} {i b : Nat}
include hg

/-- The allocation table, outside the entries of `c`, is untouched. -/
theorem fat_of_sameOutside (hc : InData g c) (h : SameOutside (footprint g c) img img')
    (hb : b < g.blocks) (hbc : b ∉ c) : fat g img' b = fat g img b := by
  apply Mem.qword_congr
  intro k hk
  apply h.byte_eq
  rintro ⟨d, hd, hin | hin⟩
  · have hne : d ≠ b := fun e => hbc (e ▸ hd)
    unfold Geometry.fatLoc at hin
    omega
  · have hfat := hg.fatLoc_le hb
    have hdata := hg.blockLoc_le (hc d hd).1 (hc d hd).2
    have hend := hg.dir_end
    omega

/-- The blocks of the data region outside `c` are untouched. -/
theorem block_of_sameOutside (hc : InData g c) (h : SameOutside (footprint g c) img img')
    (hlo : g.datastart ≤ b) (hb : b < g.blocks) (hbc : b ∉ c) :
    block g img' b = block g img b := by
  apply Mem.read_congr
  intro k hk
  apply h.byte_eq
  have hblk := hg.blockLoc_le hlo hb
  rintro ⟨d, hd, hin | hin⟩
  · have hfat := hg.fatLoc_le (hc d hd).2
    have hend := hg.dir_end
    omega
  · rcases Geometry.Sound.blockLoc_disjoint (g := g) (b := d) (c := b) (fun e => hbc (e ▸ hd))
      with hdis | hdis <;> omega

/-- The identity table is untouched. -/
theorem header_of_sameOutside (hc : InData g c) (h : SameOutside (footprint g c) img img')
    {a : Nat} (ha : a < 8192) : img'.byte a = img.byte a := by
  apply h.byte_eq
  rintro ⟨d, hd, hin | hin⟩
  · have hfat := hg.fatLoc_le (hc d hd).2
    omega
  · have hdata := hg.blockLoc_le (hc d hd).1 (hc d hd).2
    have hend := hg.dir_end
    have hfat := hg.fat_le
    have hhead := hg.header_le
    omega

/-- The directory table is untouched. -/
theorem entryByte_of_sameOutside (hc : InData g c) (h : SameOutside (footprint g c) img img')
    (hi : i < g.entries) {a : Nat} (ha : a ∈ entryBytes g i) : img'.byte a = img.byte a := by
  apply h.byte_eq
  have hent := hg.entryLoc_le hi
  obtain ⟨hlo, hhi⟩ := ha
  rintro ⟨d, hd, hin | hin⟩
  · have hfat := hg.fatLoc_le (hc d hd).2
    omega
  · have hdata := hg.blockLoc_le (hc d hd).1 (hc d hd).2
    omega

/-- A write to a directory entry leaves the allocation table alone. -/
theorem fat_of_entry (hi : i < g.entries) (h : SameOutside (entryBytes g i) img img')
    (hb : b < g.blocks) : fat g img' b = fat g img b := by
  apply Mem.qword_congr
  intro k hk
  apply h.byte_eq
  rintro ⟨hlo, hhi⟩
  have hent := hg.entryLoc_le hi
  have hfat := hg.fatLoc_le hb
  omega

/-- A write to a directory entry leaves the data blocks alone. -/
theorem block_of_entry (hi : i < g.entries) (h : SameOutside (entryBytes g i) img img')
    (hlo : g.datastart ≤ b) (hb : b < g.blocks) : block g img' b = block g img b := by
  apply Mem.read_congr
  intro k hk
  apply h.byte_eq
  rintro ⟨hlo', hhi⟩
  have hent := hg.entryLoc_le hi
  have hblk := hg.blockLoc_le hlo hb
  omega

/-- A write to a directory entry leaves the identity table alone. -/
theorem header_of_entry (hi : i < g.entries) (h : SameOutside (entryBytes g i) img img')
    {a : Nat} (ha : a < 8192) : img'.byte a = img.byte a := by
  apply h.byte_eq
  rintro ⟨hlo, hhi⟩
  have hent := hg.entryLoc_le hi
  have hfat := hg.fat_le
  have hhead := hg.header_le
  omega

end Frame

end Windozz.Echfs

import Windozz.Basic.Chain
import Windozz.Echfs.Image

set_option autoImplicit false

/-! # Block chains: `import_chain` and `export_chain`

`import_chain` takes free blocks first-fit from the allocation table, one for each block of
the source, and links each to the next only after the next has been found. The scan for a free
block has no upper bound: it reads on past the table until some qword is zero, at the latest
past the end of the file.

The run is described by the blocks it hands out (`importRun`). As long as all of them are
block numbers of the volume, they are distinct free blocks, exactly their table entries and
contents change, and they end up linked in the order they were handed out
(`copyChain_spec`). They all are exactly when the volume has enough free blocks
(`handed_lt_iff`).
-/

namespace Windozz.Echfs

/-! ## `import_chain` -/

/-- `for (block = 0; rd_qword(loc); block++) loc += sizeof(uint64_t);` from `block` on. Past the
end of the file `rd_qword` returns zero, so the scan ends within one round for each byte. -/
def scanFat (g : Geometry) (img : Image) : Nat → Nat → Nat
  | 0, block => block
  | fuel + 1, block => if fat g img block = 0 then block else scanFat g img fuel (block + 1)

/-- The first free block of the allocation table, and of what follows it. -/
def findFree (g : Geometry) (img : Image) : Nat := scanFat g img img.length 0

/-- The copying loop of `import_chain`. `rounds` is `source_size_blocks - x`, `block` the block
just found, `spos` the position in `source`. The result is the list of the blocks handed out
from here on and the image. -/
def copyChain (g : Geometry) (source : List UInt8) (rounds block spos : Nat)
    (block_buf : List UInt8) (img : Image) : List Nat × Image :=
  let prev_block := g.fatLoc block
  let marked := wrQword img prev_block END_OF_CHAIN
  let (buf, spos') := fread source spos g.bytesperblock block_buf
  let copied := marked.write (fseek (prev_block + 8) (u64 (block * g.bytesperblock))) buf
  if source.length ≤ spos' then ([block], copied)
  else
    match rounds with
    | 0 => ([block], copied)
    | rounds + 1 =>
        let next := findFree g copied
        let (rest, img') := copyChain g source rounds next spos' buf (wrQword copied prev_block next)
        (block :: rest, img')

/-- `source_size_blocks`. -/
def sourceSizeBlocks (g : Geometry) (source : List UInt8) : Nat :=
  source.length / g.bytesperblock + if source.length % g.bytesperblock = 0 then 0 else 1

/-- `import_chain(source)` with the uninitialised buffer `block_buf`: the blocks handed out, in
order, and the image. -/
def importRun (g : Geometry) (source block_buf : List UInt8) (img : Image) : List Nat × Image :=
  copyChain g source (sourceSizeBlocks g source) (findFree g img) 0 block_buf img

/-- `import_chain(source)`: `start_block` and the image. -/
def importChain (g : Geometry) (source block_buf : List UInt8) (img : Image) : Nat × Image :=
  (findFree g img, (importRun g source block_buf img).2)

/-! ## `export_chain` -/

/-- The loop of `export_chain`. `pos` is the position in the image and `dest` what has been
written. `none` stands for a loop that does not end within `fuel` rounds. -/
def exportLoop (g : Geometry) (img : Image) (size : Nat) :
    Nat → Nat → Nat → List UInt8 → List UInt8 → Option (List UInt8)
  | 0, _, _, _, _ => none
  | fuel + 1, cur_block, pos, block_buf, dest =>
      if cur_block = END_OF_CHAIN then some dest
      else
        let at_block := fseek pos (u64 (cur_block * g.bytesperblock))
        if size ≤ u64 (dest.length + g.bytesperblock) then
          let buf := (fread img at_block (size % g.bytesperblock) block_buf).1
          some (dest ++ buf.take (size % g.bytesperblock))
        else
          let (buf, pos') := fread img at_block g.bytesperblock block_buf
          let at_fat := fseek pos' (u64 (fatstart * g.bytesperblock + cur_block * 8))
          exportLoop g img size fuel (rdQword img at_fat) (fread img at_fat 8 []).2 buf
            (dest ++ buf.take g.bytesperblock)

/-- `export_chain(dest, src)` for an entry with the given payload and size, from position `pos`
of the image and with the uninitialised buffer `block_buf`. -/
def exportChain (g : Geometry) (img : Image) (payload size pos : Nat) (block_buf : List UInt8) :
    Option (List UInt8) :=
  exportLoop g img size (size + 1) payload pos block_buf []

/-! ## The free-block scan -/

theorem scanFat_spec (g : Geometry) (img : Image) {fuel block : Nat}
    (h : fat g img (block + fuel) = 0) :
    block ≤ scanFat g img fuel block ∧ fat g img (scanFat g img fuel block) = 0 ∧
      ∀ j, block ≤ j → j < scanFat g img fuel block → fat g img j ≠ 0 := by
  induction fuel generalizing block with
  | zero =>
      refine ⟨le_refl _, h, fun j hj hlt => ?_⟩
      simp only [scanFat] at hlt
      omega
  | succ fuel ih =>
      rw [scanFat]
      by_cases h0 : fat g img block = 0
      · rw [if_pos h0]
        exact ⟨le_refl _, h0, fun j hj hlt => by omega⟩
      · rw [if_neg h0]
        have hend : fat g img (block + 1 + fuel) = 0 := by
          rw [show block + 1 + fuel = block + (fuel + 1) by omega]
          exact h
        obtain ⟨hle, hz, hmin⟩ := ih hend
        refine ⟨by omega, hz, fun j hj hlt => ?_⟩
        rcases Nat.eq_or_lt_of_le hj with rfl | hj
        · exact h0
        · exact hmin j hj hlt

/-- The scan stops at a zero entry. -/
theorem fat_findFree (g : Geometry) (img : Image) : fat g img (findFree g img) = 0 :=
  (scanFat_spec g img (rdQword_past_end (by unfold Geometry.fatLoc; omega))).2.1

/-- The scan stops at the first zero entry. -/
theorem findFree_le {g : Geometry} {img : Image} {b : Nat} (h : fat g img b = 0) :
    findFree g img ≤ b := by
  have hend : fat g img (0 + img.length) = 0 :=
    rdQword_past_end (by unfold Geometry.fatLoc; omega)
  by_contra hlt
  exact (scanFat_spec g img hend).2.2 b (Nat.zero_le b) (by simpa [findFree] using hlt) h

/-! ## One round of the copying loop -/

section Round

variable {g : Geometry} (hg : g.Sound) {img : Image} (hlen : img.length = g.imgsize)
  {b x : Nat} {buf : List UInt8}
include hg hlen

/-- A write to the FAT entry of a data block. -/
theorem wrFat_spec (hlo : g.datastart ≤ b) (hb : b < g.blocks) :
    SameOutside (footprint g {b}) img (wrQword img (g.fatLoc b) x) ∧
      fat g (wrQword img (g.fatLoc b) x) b = u64 x ∧
      block g (wrQword img (g.fatLoc b) x) b = block g img b := by
  have hfat := hg.fatLoc_le hb
  have hblk := hg.blockLoc_le hlo hb
  have hend := hg.dir_end
  refine ⟨?_, rdQword_wrQword_same _ _ _, ?_⟩
  · apply SameOutside.of_write
    · rw [toLE_length, hlen]
      omega
    · intro a ha ha'
      rw [toLE_length] at ha'
      exact ⟨b, rfl, Or.inl ⟨ha, ha'⟩⟩
  · rw [block, byte_wrQword, Mem.setQword]
    apply Mem.read_write_disjoint
    rw [toLE_length]
    omega

/-- A write to a data block. -/
theorem wrBlock_spec (hlo : g.datastart ≤ b) (hb : b < g.blocks)
    (hbuf : buf.length = g.bytesperblock) :
    SameOutside (footprint g {b}) img (img.write (g.blockLoc b) buf) ∧
      fat g (img.write (g.blockLoc b) buf) b = fat g img b ∧
      block g (img.write (g.blockLoc b) buf) b = buf := by
  have hfat := hg.fatLoc_le hb
  have hblk := hg.blockLoc_le hlo hb
  have hend := hg.dir_end
  refine ⟨?_, ?_, ?_⟩
  · apply SameOutside.of_write
    · rw [hbuf, hlen]
      omega
    · intro a ha ha'
      rw [hbuf] at ha'
      exact ⟨b, rfl, Or.inr ⟨ha, ha'⟩⟩
  · rw [fat, rdQword, Image.byte_write, fat, rdQword]
    apply Mem.qword_write_disjoint
    omega
  · rw [block, Image.byte_write, ← hbuf]
    exact Mem.read_write_same _ _ _

/-- The seek to a data block succeeds. -/
theorem fseek_block (pos : Nat) (hb : b < g.blocks) :
    fseek pos (u64 (b * g.bytesperblock)) = g.blockLoc b := by
  have hle : b * g.bytesperblock ≤ g.imgsize := by
    rw [hg.imgsize_eq]
    exact Nat.mul_le_mul_right _ hb.le
  have hlt := hg.imgsize_lt
  rw [u64_of_lt (by omega), fseek, if_pos (by omega)]
  rfl

/-- What one round of the loop does before it looks for the next block: it ends the chain at
`b` and copies the next `bytesperblock` bytes of the source into `b`. -/
theorem copyRound_spec (hlo : g.datastart ≤ b) (hb : b < g.blocks)
    (source : List UInt8) (spos : Nat) (hbuf : buf.length = g.bytesperblock) :
    let buf' := (fread source spos g.bytesperblock buf).1
    let copied := (wrQword img (g.fatLoc b) END_OF_CHAIN).write
      (fseek (g.fatLoc b + 8) (u64 (b * g.bytesperblock))) buf'
    buf'.length = g.bytesperblock ∧ SameOutside (footprint g {b}) img copied ∧
      fat g copied b = END_OF_CHAIN ∧ block g copied b = buf' := by
  intro buf' copied
  have hbuf' : buf'.length = g.bytesperblock := by
    simp only [buf', fread, List.length_append, List.length_drop, List.length_take]
    omega
  obtain ⟨hsame, hfat, -⟩ := wrFat_spec hg hlen (x := END_OF_CHAIN) hlo hb
  obtain ⟨hsame', hfat', hblock⟩ := wrBlock_spec hg (hsame.length_eq.trans hlen) hlo hb hbuf'
  have hcopied : copied = (wrQword img (g.fatLoc b) END_OF_CHAIN).write (g.blockLoc b) buf' := by
    simp only [copied, fseek_block hg hlen _ hb]
  rw [hcopied]
  exact ⟨hbuf', hsame.trans hsame', hfat'.trans hfat, hblock⟩

end Round

/-! ## The blocks of a file -/

/-- The number of blocks of a file of `n` bytes: `max(1, ceil(n / bytesperblock))`. -/
def blocksFor (g : Geometry) (n : Nat) : Nat :=
  max 1 ((n + g.bytesperblock - 1) / g.bytesperblock)

theorem blocksFor_of_le {g : Geometry} {n : Nat} (h : n ≤ g.bytesperblock) :
    blocksFor g n = 1 := by
  rcases Nat.eq_zero_or_pos g.bytesperblock with hz | hpos
  · simp [blocksFor, hz]
  · have hlt : (n + g.bytesperblock - 1) / g.bytesperblock < 2 := by
      rw [Nat.div_lt_iff_lt_mul hpos]
      omega
    simp only [blocksFor]
    omega

theorem blocksFor_of_lt {g : Geometry} (hg : g.Sound) {n : Nat} (h : g.bytesperblock < n) :
    blocksFor g n = blocksFor g (n - g.bytesperblock) + 1 := by
  have hpos := hg.bytesperblock_pos
  have hone : 1 ≤ (n - 1) / g.bytesperblock := (Nat.le_div_iff_mul_le hpos).mpr (by omega)
  have hstep : (n + g.bytesperblock - 1) / g.bytesperblock = (n - 1) / g.bytesperblock + 1 := by
    rw [show n + g.bytesperblock - 1 = n - 1 + g.bytesperblock by omega,
      Nat.add_div_right _ hpos]
  have hrest : n - g.bytesperblock + g.bytesperblock - 1 = n - 1 := by omega
  simp only [blocksFor, hstep, hrest]
  omega

/-- The free entries of the allocation table. -/
def freeBlocks (g : Geometry) (img : Image) : Finset Nat :=
  (Finset.range g.blocks).filter (fun b => fat g img b = 0)

theorem mem_freeBlocks {g : Geometry} {img : Image} {b : Nat} :
    b ∈ freeBlocks g img ↔ b < g.blocks ∧ fat g img b = 0 := by
  simp [freeBlocks]

/-- The image has free blocks for a file of `n` bytes. -/
def EnoughFree (g : Geometry) (img : Image) (n : Nat) : Prop :=
  blocksFor g n ≤ (freeBlocks g img).card

instance (g : Geometry) (img : Image) (n : Nat) : Decidable (EnoughFree g img n) :=
  inferInstanceAs (Decidable (_ ≤ _))

/-- What a run of the copying loop from position `spos` of `source` leaves when all blocks it
hands out are blocks of the volume. -/
structure Copied (g : Geometry) (source : List UInt8) (spos : Nat) (img : Image)
    (run : List Nat × Image) : Prop where
  in_data : InData g {b | b ∈ run.1}
  was_free : ∀ b ∈ run.1, fat g img b = 0
  length_eq : run.1.length = blocksFor g (source.length - spos)
  same : SameOutside (footprint g {b | b ∈ run.1}) img run.2
  linked : Linked (fatNext g run.2) run.1
  content : ∀ k b, run.1[k]? = some b →
    (block g run.2 b).take ((source.drop (spos + k * g.bytesperblock)).take g.bytesperblock).length
      = (source.drop (spos + k * g.bytesperblock)).take g.bytesperblock

theorem copyChain_succ (g : Geometry) (source : List UInt8) (rounds b spos : Nat)
    (buf : List UInt8) (img : Image) :
    copyChain g source (rounds + 1) b spos buf img =
      let buf' := (fread source spos g.bytesperblock buf).1
      let spos' := (fread source spos g.bytesperblock buf).2
      let copied := (wrQword img (g.fatLoc b) END_OF_CHAIN).write
        (fseek (g.fatLoc b + 8) (u64 (b * g.bytesperblock))) buf'
      if source.length ≤ spos' then ([b], copied)
      else
        let next := findFree g copied
        let run := copyChain g source rounds next spos' buf' (wrQword copied (g.fatLoc b) next)
        (b :: run.1, run.2) := rfl

theorem copyChain_zero (g : Geometry) (source : List UInt8) (b spos : Nat)
    (buf : List UInt8) (img : Image) :
    copyChain g source 0 b spos buf img =
      ([b], (wrQword img (g.fatLoc b) END_OF_CHAIN).write
        (fseek (g.fatLoc b + 8) (u64 (b * g.bytesperblock)))
        (fread source spos g.bytesperblock buf).1) := by
  unfold copyChain
  simp only
  split <;> rfl

/-- The front of the buffer after a round is the part of the source the round copies. -/
theorem fread_chunk (source : List UInt8) (spos n : Nat) (buf : List UInt8) :
    (fread source spos n buf).1.take ((source.drop spos).take n).length
      = (source.drop spos).take n := by
  simp only [fread]
  exact List.take_left' rfl

section Copy

variable {g : Geometry} (hg : g.Sound) {img : Image} (hlen : img.length = g.imgsize)
  {b spos : Nat} {source buf : List UInt8}
include hg hlen

/-- The last round of the loop. -/
theorem copied_last (hlo : g.datastart ≤ b) (hb : b < g.blocks) (hfree : fat g img b = 0)
    (hbuf : buf.length = g.bytesperblock) (hn : source.length - spos ≤ g.bytesperblock) :
    Copied g source spos img ([b], (wrQword img (g.fatLoc b) END_OF_CHAIN).write
      (fseek (g.fatLoc b + 8) (u64 (b * g.bytesperblock)))
      (fread source spos g.bytesperblock buf).1) := by
  obtain ⟨-, hsame, hfat, hblock⟩ := copyRound_spec hg hlen hlo hb source spos hbuf
  have hset : {x | x ∈ [b]} = ({b} : Set Nat) := by ext; simp
  refine ⟨?_, ?_, ?_, ?_, ?_, ?_⟩
  · simpa [InData] using ⟨hlo, hb⟩
  · simpa using hfree
  · simp [blocksFor_of_le hn]
  · rw [hset]
    exact hsame
  · rw [linked_singleton, fatNext, if_pos hfat]
  · intro k d hk
    obtain ⟨rfl, rfl⟩ : k = 0 ∧ b = d := by
      cases k with
      | zero => simpa using hk
      | succ k => simp at hk
    simp only [Nat.zero_mul, Nat.add_zero, hblock]
    exact fread_chunk source spos g.bytesperblock buf

/-- A round that is not the last, followed by the rest of the loop. -/
theorem copied_step (hlo : g.datastart ≤ b) (hb : b < g.blocks) (hfree : fat g img b = 0)
    (hbuf : buf.length = g.bytesperblock) (hn : g.bytesperblock < source.length - spos)
    {next : Nat} {run : List Nat × Image} (hhead : run.1.head? = some next)
    (hrun : Copied g source (spos + g.bytesperblock)
      (wrQword ((wrQword img (g.fatLoc b) END_OF_CHAIN).write
        (fseek (g.fatLoc b + 8) (u64 (b * g.bytesperblock)))
        (fread source spos g.bytesperblock buf).1) (g.fatLoc b) next) run) :
    Copied g source spos img (b :: run.1, run.2) := by
  obtain ⟨-, hsame, -, hblock⟩ := copyRound_spec hg hlen hlo hb source spos hbuf
  generalize (wrQword img (g.fatLoc b) END_OF_CHAIN).write
    (fseek (g.fatLoc b + 8) (u64 (b * g.bytesperblock)))
    (fread source spos g.bytesperblock buf).1 = copied at hsame hblock hrun
  obtain ⟨hsame', hfat', hblock'⟩ :=
    wrFat_spec hg (hsame.length_eq.trans hlen) (x := next) hlo hb
  generalize wrQword copied (g.fatLoc b) next = linkd at hrun hsame' hfat' hblock'
  have hsame1 : SameOutside (footprint g {b}) img linkd := hsame.trans hsame'
  have hone : InData g {b} := by rintro x rfl; exact ⟨hlo, hb⟩
  -- the first block of the rest is a block of the volume, so it fits a qword and is not the end mark
  obtain ⟨l, hl⟩ : ∃ l, run.1 = next :: l := by
    cases hr : run.1 with
    | nil => simp [hr] at hhead
    | cons a l => exact ⟨l, by simpa [hr] using hhead⟩
  have hnext : next < g.blocks := (hrun.in_data next (by simp [hl])).2
  have hlt := hg.blocks_lt
  have hfatb : fat g linkd b = next := by rw [hfat', u64_of_lt (by omega)]
  have hpos := hg.datastart_pos
  have hnz : next ≠ 0 := by
    have := (hrun.in_data next (by simp [hl])).1
    omega
  have hbr : b ∉ run.1 := fun hmem => hnz (hfatb ▸ hrun.was_free b hmem)
  have hset : {x | x ∈ b :: run.1} = {b} ∪ {x | x ∈ run.1} := by
    ext x
    simp
  refine ⟨?_, ?_, ?_, ?_, ?_, ?_⟩
  · rintro x hx
    rcases List.mem_cons.mp hx with rfl | hx
    · exact ⟨hlo, hb⟩
    · exact hrun.in_data x hx
  · intro x hx
    rcases List.mem_cons.mp hx with rfl | hx
    · exact hfree
    · have hne : x ∉ ({b} : Set Nat) := fun e => hbr (by rwa [← Set.mem_singleton_iff.mp e])
      rw [← fat_of_sameOutside hg hone hsame1 (hrun.in_data x hx).2 hne]
      exact hrun.was_free x hx
  · rw [List.length_cons, hrun.length_eq, blocksFor_of_lt hg hn, Nat.sub_sub]
  · rw [hset]
    exact (hsame1.mono (footprint_mono g (by simp))).trans
      (hrun.same.mono (footprint_mono g (by simp)))
  · have hfin : fat g run.2 b = next := by
      rw [fat_of_sameOutside hg hrun.in_data hrun.same hb hbr, hfatb]
    have hlink : fatNext g run.2 b = some next := by
      rw [fatNext, hfin, if_neg (by simp only [END_OF_CHAIN]; omega)]
    have hrest := hrun.linked
    rw [hl] at hrest ⊢
    exact ⟨hlink, hrest⟩
  · intro k d hk
    cases k with
    | zero =>
        obtain rfl : b = d := by simpa using hk
        have hfin : block g run.2 b = (fread source spos g.bytesperblock buf).1 := by
          rw [block_of_sameOutside hg hrun.in_data hrun.same hlo hb hbr, hblock', hblock]
        simp only [Nat.zero_mul, Nat.add_zero, hfin]
        exact fread_chunk source spos g.bytesperblock buf
    | succ k =>
        have hc := hrun.content k d (by simpa using hk)
        rwa [show spos + g.bytesperblock + k * g.bytesperblock
          = spos + (k + 1) * g.bytesperblock by ring] at hc

end Copy

theorem fread_pos (data : List UInt8) (pos n : Nat) (buf : List UInt8) :
    (fread data pos n buf).2 = pos + min n (data.length - pos) := by
  simp [fread]

/-- The first block handed out is the one the loop starts with. -/
theorem copyChain_head (g : Geometry) (source : List UInt8) (rounds b spos : Nat)
    (buf : List UInt8) (img : Image) :
    (copyChain g source rounds b spos buf img).1.head? = some b := by
  cases rounds with
  | zero => rw [copyChain_zero]; rfl
  | succ rounds =>
      rw [copyChain_succ]
      simp only
      split <;> rfl

/-- The state a round that is not the last leaves for the next one. -/
theorem next_round {g : Geometry} (hg : g.Sound) {img : Image} (hlen : img.length = g.imgsize)
    (source : List UInt8) (spos : Nat) {b : Nat} {buf : List UInt8} (hlo : g.datastart ≤ b)
    (hb : b < g.blocks) (hres : ∀ d, d < g.datastart → fat g img d ≠ 0) (hbuf : buf.length = g.bytesperblock) :
    let buf' := (fread source spos g.bytesperblock buf).1
    let copied := (wrQword img (g.fatLoc b) END_OF_CHAIN).write
      (fseek (g.fatLoc b + 8) (u64 (b * g.bytesperblock))) buf'
    let linkd := wrQword copied (g.fatLoc b) (findFree g copied)
    buf'.length = g.bytesperblock ∧ linkd.length = g.imgsize ∧
      (∀ d, d < g.blocks → d ≠ b → fat g linkd d = fat g img d) ∧
      (∀ d, d < g.datastart → fat g linkd d ≠ 0) ∧
      (∀ d, d < g.blocks → d ≠ b → fat g img d = 0 → findFree g copied ≤ d) ∧
      (findFree g copied < g.blocks →
        fat g linkd (findFree g copied) = 0 ∧ fat g linkd b = findFree g copied ∧
          g.datastart ≤ findFree g copied ∧ findFree g copied ≠ b) := by
  intro buf' copied linkd
  obtain ⟨hbuf', hsame, hfat, -⟩ := copyRound_spec hg hlen hlo hb source spos hbuf
  obtain ⟨hsame', hfat', -⟩ :=
    wrFat_spec hg (hsame.length_eq.trans hlen) (x := findFree g copied) hlo hb
  have hone : InData g {b} := by rintro x rfl; exact ⟨hlo, hb⟩
  have hother : ∀ d, d < g.blocks → d ≠ b → fat g copied d = fat g img d := fun d hd hne =>
    fat_of_sameOutside hg hone hsame hd (by simpa using hne)
  have hother' : ∀ d, d < g.blocks → d ≠ b → fat g linkd d = fat g img d := fun d hd hne =>
    fat_of_sameOutside hg hone (hsame.trans hsame') hd (by simpa using hne)
  have hresv : ∀ d, d < g.datastart → fat g linkd d ≠ 0 := by
    intro d hd
    have hle := hg.datastart_le
    rw [hother' d (by omega) (by omega)]
    exact hres d hd
  refine ⟨hbuf', hsame'.length_eq.trans (hsame.length_eq.trans hlen), hother', hresv,
    fun d hd hne hz => findFree_le ((hother d hd hne).trans hz), ?_⟩
  intro hnext
  have hz : fat g copied (findFree g copied) = 0 := fat_findFree g copied
  have hne : findFree g copied ≠ b := by
    intro he
    rw [he, hfat] at hz
    exact absurd hz (by decide)
  have hz' : fat g linkd (findFree g copied) = 0 := by
    rw [hother' _ hnext hne, ← hother _ hnext hne]
    exact hz
  have hlt := hg.blocks_lt
  -- the link is to a block that was free, and the reserved ones never are
  refine ⟨hz', by rw [hfat', u64_of_lt (by omega)], ?_, hne⟩
  by_contra hlt'
  exact hresv _ (not_le.mp hlt') hz'

/-- **The copying loop.** When every block it hands out is a block of the volume, the loop
leaves the chain `Copied` describes. -/
theorem copyChain_spec {g : Geometry} (hg : g.Sound) {source : List UInt8} {rounds : Nat} :
    ∀ {b spos : Nat} {buf : List UInt8} {img : Image}, img.length = g.imgsize →
      (∀ d, d < g.datastart → fat g img d ≠ 0) → fat g img b = 0 →
      buf.length = g.bytesperblock → source.length - spos ≤ (rounds + 1) * g.bytesperblock →
      (∀ d ∈ (copyChain g source rounds b spos buf img).1, d < g.blocks) →
      Copied g source spos img (copyChain g source rounds b spos buf img) := by
  -- `rounds` bounds the number of blocks after this one; what bounds it is the length of the source
  induction rounds with
  | zero =>
      intro b spos buf img hlen hres hfree hbuf hn hall
      rw [copyChain_zero] at hall ⊢
      have hb : b < g.blocks := hall b (by simp)
      have hlo : g.datastart ≤ b := by
        by_contra hlt
        exact hres b (not_le.mp hlt) hfree
      exact copied_last hg hlen hlo hb hfree hbuf (by omega)
  | succ rounds ih =>
      intro b spos buf img hlen hres hfree hbuf hn hall
      have hb : b < g.blocks :=
        hall b (List.mem_of_mem_head? (copyChain_head g source (rounds + 1) b spos buf img))
      have hlo : g.datastart ≤ b := by
        by_contra hlt
        exact hres b (not_le.mp hlt) hfree
      rw [copyChain_succ] at hall ⊢
      simp only [fread_pos] at hall ⊢
      by_cases hend : source.length ≤ spos + min g.bytesperblock (source.length - spos)
      · rw [if_pos hend]
        exact copied_last hg hlen hlo hb hfree hbuf (by omega)
      · rw [if_neg hend] at hall ⊢
        have hspos : spos + min g.bytesperblock (source.length - spos) = spos + g.bytesperblock := by
          omega
        rw [hspos] at hall ⊢
        obtain ⟨hbuf', hlen', -, hres', -, hnext⟩ :=
          next_round hg hlen source spos hlo hb hres hbuf
        refine copied_step hg hlen hlo hb hfree hbuf (by omega) (copyChain_head ..) ?_
        have hnextlt := hall _ (List.mem_cons_of_mem _ (List.mem_of_mem_head? (copyChain_head ..)))
        refine ih hlen' hres' (hnext hnextlt).1 hbuf' ?_ fun d hd => hall d (List.mem_cons_of_mem _ hd)
        rw [Nat.succ_mul] at hn
        omega

/-! ## Enough free blocks -/

/-- The blocks of a run that stays on the volume are that many free blocks. -/
theorem Copied.enough {g : Geometry} {source : List UInt8} {spos : Nat} {img : Image}
    {run : List Nat × Image} (h : Copied g source spos img run) :
    EnoughFree g img (source.length - spos) := by
  have hsub : run.1.toFinset ⊆ freeBlocks g img := by
    intro b hb
    have hb' : b ∈ run.1 := List.mem_toFinset.mp hb
    exact mem_freeBlocks.mpr ⟨(h.in_data b hb').2, h.was_free b hb'⟩
  rw [EnoughFree, ← h.length_eq, ← List.toFinset_card_of_nodup h.linked.nodup]
  exact Finset.card_le_card hsub

/-- With enough free blocks the loop stays on the volume. -/
theorem handed_lt {g : Geometry} (hg : g.Sound) {source : List UInt8} {rounds : Nat} :
    ∀ {b spos : Nat} {buf : List UInt8} {img : Image}, img.length = g.imgsize →
      (∀ d, d < g.datastart → fat g img d ≠ 0) → fat g img b = 0 →
      (∀ d ∈ freeBlocks g img, b ≤ d) →
      buf.length = g.bytesperblock → EnoughFree g img (source.length - spos) →
      ∀ d ∈ (copyChain g source rounds b spos buf img).1, d < g.blocks := by
  have hone : ∀ n, 1 ≤ blocksFor g n := fun n => Nat.le_max_left _ _
  induction rounds with
  | zero =>
      intro b spos buf img _ _ _ hmin _ henough d hd
      rw [copyChain_zero] at hd
      obtain rfl : d = b := by simpa using hd
      obtain ⟨c, hc⟩ := Finset.card_pos.mp (lt_of_lt_of_le (hone _) henough)
      exact lt_of_le_of_lt (hmin c hc) (mem_freeBlocks.mp hc).1
  | succ rounds ih =>
      intro b spos buf img hlen hres hfree hmin hbuf henough d hd
      obtain ⟨c, hc⟩ := Finset.card_pos.mp (lt_of_lt_of_le (hone _) henough)
      have hb : b < g.blocks := lt_of_le_of_lt (hmin c hc) (mem_freeBlocks.mp hc).1
      have hlo : g.datastart ≤ b := by
        by_contra hlt
        exact hres b (not_le.mp hlt) hfree
      rw [copyChain_succ] at hd
      simp only [fread_pos] at hd
      by_cases hend : source.length ≤ spos + min g.bytesperblock (source.length - spos)
      · rw [if_pos hend] at hd
        obtain rfl : d = b := by simpa using hd
        exact hb
      · rw [if_neg hend] at hd
        have hspos : spos + min g.bytesperblock (source.length - spos) = spos + g.bytesperblock := by
          omega
        rw [hspos] at hd
        obtain ⟨hbuf', hlen', hother, hres', hle, hnext⟩ :=
          next_round hg hlen source spos hlo hb hres hbuf
        generalize (fread source spos g.bytesperblock buf).1 = buf' at hbuf' hlen' hother hres' hle hnext hd
        generalize (wrQword img (g.fatLoc b) END_OF_CHAIN).write
          (fseek (g.fatLoc b + 8) (u64 (b * g.bytesperblock))) buf' = copied
          at hlen' hother hres' hle hnext hd
        generalize wrQword copied (g.fatLoc b) (findFree g copied) = linkd
          at hlen' hother hres' hnext hd
        -- a free block is left once `b` is taken
        have hcard : blocksFor g (source.length - (spos + g.bytesperblock)) + 1
            ≤ (freeBlocks g img).card := by
          rw [← Nat.sub_sub, ← blocksFor_of_lt hg (by omega)]
          exact henough
        have hbmem : b ∈ freeBlocks g img := mem_freeBlocks.mpr ⟨hb, hfree⟩
        have herase := Finset.card_erase_of_mem hbmem
        obtain ⟨e, he⟩ : ((freeBlocks g img).erase b).Nonempty := by
          have := hone (source.length - (spos + g.bytesperblock))
          exact Finset.card_pos.mp (by omega)
        obtain ⟨heb, hemem⟩ := Finset.mem_erase.mp he
        have helt := (mem_freeBlocks.mp hemem).1
        obtain ⟨hz, hfatb, hlonext, hneb⟩ :=
          hnext (lt_of_le_of_lt (hle e helt heb (mem_freeBlocks.mp hemem).2) helt)
        rcases List.mem_cons.mp hd with rfl | hd
        · exact hb
        refine ih hlen' hres' hz ?_ hbuf' ?_ d hd
        · intro f hf
          obtain ⟨hflt, hfz⟩ := mem_freeBlocks.mp hf
          by_cases hfb : f = b
          · have hpos := hg.datastart_pos
            rw [hfb, hfatb] at hfz
            omega
          · exact hle f hflt hfb ((hother f hflt hfb).symm.trans hfz)
        · have hsub : (freeBlocks g img).erase b ⊆ freeBlocks g linkd := by
            intro f hf
            obtain ⟨hfb, hfm⟩ := Finset.mem_erase.mp hf
            obtain ⟨hflt, hfz⟩ := mem_freeBlocks.mp hfm
            exact mem_freeBlocks.mpr ⟨hflt, (hother f hflt hfb).trans hfz⟩
          have hle' := Finset.card_le_card hsub
          rw [EnoughFree]
          omega

theorem sourceSizeBlocks_ge {g : Geometry} (hg : g.Sound) (source : List UInt8) :
    source.length ≤ (sourceSizeBlocks g source + 1) * g.bytesperblock := by
  have hdiv := Nat.div_add_mod source.length g.bytesperblock
  have hmod := Nat.mod_lt source.length hg.bytesperblock_pos
  have hle : source.length / g.bytesperblock ≤ sourceSizeBlocks g source := Nat.le_add_right _ _
  have hmul := Nat.mul_le_mul_right g.bytesperblock hle
  rw [Nat.mul_comm] at hdiv
  rw [Nat.succ_mul]
  omega

/-- The start block is the first one handed out. -/
theorem importChain_head (g : Geometry) (source buf : List UInt8) (img : Image) :
    (importRun g source buf img).1.head? = some (importChain g source buf img).1 :=
  copyChain_head g source _ _ _ _ _

section Import

variable {g : Geometry} (hg : g.Sound) {img : Image} (hlen : img.length = g.imgsize)
  (hres : ∀ d, d < g.datastart → fat g img d ≠ 0) {source buf : List UInt8}
  (hbuf : buf.length = g.bytesperblock)
include hg hlen hres hbuf

/-- `import_chain` with all its blocks on the volume. -/
theorem importRun_spec (hall : ∀ d ∈ (importRun g source buf img).1, d < g.blocks) :
    Copied g source 0 img (importRun g source buf img) :=
  copyChain_spec hg hlen hres (fat_findFree g img) hbuf
    (by simpa using sourceSizeBlocks_ge hg source) hall

/-- **Capacity.** `import_chain` hands out blocks of the volume only exactly when there are
enough free ones. -/
theorem handed_lt_iff :
    (∀ d ∈ (importRun g source buf img).1, d < g.blocks) ↔ EnoughFree g img source.length := by
  constructor
  · intro hall
    exact (importRun_spec hg hlen hres hbuf hall).enough
  · intro henough
    exact handed_lt hg hlen hres (fat_findFree g img)
      (fun d hd => findFree_le (mem_freeBlocks.mp hd).2) hbuf henough

end Import

/-! ## What `export_chain` reads -/

/-- The part of a file of `n` bytes that `export_chain` writes: of the last block it writes
`n % bytesperblock` bytes, so a block that is full is left out. -/
def exportedLength (g : Geometry) (n : Nat) : Nat :=
  if n % g.bytesperblock = 0 then n - g.bytesperblock else n

section ExportedLength

variable {g : Geometry} {n written : Nat}

theorem exportedLength_le (g : Geometry) (n : Nat) : exportedLength g n ≤ n := by
  unfold exportedLength
  split <;> omega

/-- What is left to export when the last block is reached. -/
theorem exportedLength_last (hmod : written % g.bytesperblock = 0) (hle : written ≤ n)
    (hlast : n ≤ written + g.bytesperblock) :
    exportedLength g n - written = n % g.bytesperblock := by
  obtain ⟨q, hq⟩ := Nat.dvd_of_mod_eq_zero hmod
  have hmodeq : n % g.bytesperblock = (n - written) % g.bytesperblock := by
    conv_lhs => rw [show n = (n - written) + g.bytesperblock * q by omega, Nat.add_mul_mod_self_left]
  unfold exportedLength
  by_cases h0 : n % g.bytesperblock = 0
  · rw [if_pos h0, h0]
    omega
  · have hlt : n - written < g.bytesperblock := by
      rcases Nat.lt_or_eq_of_le (show n - written ≤ g.bytesperblock by omega) with h | h
      · exact h
      · rw [hmodeq, h, Nat.mod_self] at h0
        exact absurd rfl h0
    rw [if_neg h0, hmodeq, Nat.mod_eq_of_lt hlt]

/-- A block that is not the last is exported. -/
theorem exportedLength_ge (hmod : written % g.bytesperblock = 0)
    (hlt : written + g.bytesperblock < n) : written + g.bytesperblock ≤ exportedLength g n := by
  obtain ⟨q, hq⟩ := Nat.dvd_of_mod_eq_zero hmod
  unfold exportedLength
  by_cases h0 : n % g.bytesperblock = 0
  · obtain ⟨p, hp⟩ := Nat.dvd_of_mod_eq_zero h0
    have hqp : q + 2 ≤ p := by
      by_contra hlt'
      have hmul : g.bytesperblock * p ≤ g.bytesperblock * (q + 1) :=
        Nat.mul_le_mul_left _ (by omega)
      rw [Nat.mul_succ] at hmul
      omega
    have hmul := Nat.mul_le_mul_left g.bytesperblock hqp
    rw [Nat.mul_add] at hmul
    rw [if_pos h0]
    omega
  · rw [if_neg h0]
    exact hlt.le

end ExportedLength

/-- Bytes of the file read as a list and as a memory. -/
theorem take_drop_eq_read {img : Image} {loc n : Nat} (h : loc + n ≤ img.length) :
    (img.drop loc).take n = img.byte.read loc n := by
  apply List.ext_getElem?
  intro i
  rw [Mem.read_getElem?, List.getElem?_take, List.getElem?_drop]
  by_cases hi : i < n
  · rw [if_pos hi, if_pos hi, Image.byte, List.getD_eq_getElem?_getD,
      List.getElem?_eq_getElem (by omega), Option.getD_some]
  · rw [if_neg hi, if_neg hi]

section Export

variable {g : Geometry} (hg : g.Sound) {img : Image} (hlen : img.length = g.imgsize)
include hg hlen

/-- What a round of the loop reads of a data block. -/
theorem fread_block {b n pos : Nat} (buf : List UInt8) (hlo : g.datastart ≤ b) (hb : b < g.blocks)
    (hn : n ≤ g.bytesperblock) :
    (fread img (fseek pos (u64 (b * g.bytesperblock))) n buf).1.take n = (block g img b).take n := by
  have hblk := hg.blockLoc_le hlo hb
  rw [fseek_block hg hlen pos hb]
  have hchunk : (img.drop (g.blockLoc b)).take n = img.byte.read (g.blockLoc b) n :=
    take_drop_eq_read (by omega)
  rw [block, Mem.read_take _ _ hn]
  simp only [fread, hchunk, Mem.read_length]
  exact List.take_left' (Mem.read_length _ _ _)

/-- The qword a round follows. -/
theorem rdQword_fat {b pos : Nat} (hb : b < g.blocks) :
    rdQword img (fseek pos (u64 (fatstart * g.bytesperblock + b * 8))) = fat g img b := by
  have hfat := hg.fatLoc_le hb
  have hdata := hg.data_le
  have hend := hg.dir_end
  have himg := hg.imgsize_lt
  have hloc : fatstart * g.bytesperblock + b * 8 = g.fatLoc b := rfl
  rw [hloc, u64_of_lt (by omega), fseek, if_pos (by omega), fat]

/-- **The export loop.** Along a chain that holds `source`, the loop writes `source` up to
`exportedLength`. -/
theorem exportLoop_spec {source : List UInt8} (hsmall : source.length + g.bytesperblock < 2 ^ 64)
    {fuel : Nat} : ∀ {cur pos : Nat} {buf dest : List UInt8} {l : List Nat},
      Linked (fatNext g img) (cur :: l) → InData g {b | b ∈ cur :: l} →
      dest.length % g.bytesperblock = 0 → dest.length ≤ source.length →
      (cur :: l).length = blocksFor g (source.length - dest.length) →
      (∀ k b, (cur :: l)[k]? = some b →
        (block g img b).take
            ((source.drop (dest.length + k * g.bytesperblock)).take g.bytesperblock).length
          = (source.drop (dest.length + k * g.bytesperblock)).take g.bytesperblock) →
      source.length - dest.length < fuel →
      exportLoop g img source.length fuel cur pos buf dest
        = some (dest ++ (source.drop dest.length).take
            (exportedLength g source.length - dest.length)) := by
  induction fuel with
  | zero =>
      intro cur pos buf dest l _ _ _ _ _ _ hfuel
      omega
  | succ fuel ih =>
      intro cur pos buf dest l hlink hdata hmod hle hcount hcont hfuel
      obtain ⟨hlo, hb⟩ := hdata cur (by simp)
      have hblocks := hg.blocks_lt
      have hpos := hg.bytesperblock_pos
      have hne : cur ≠ END_OF_CHAIN := by
        simp only [END_OF_CHAIN]
        omega
      have hfirst := hcont 0 cur rfl
      simp only [Nat.zero_mul, Nat.add_zero, List.length_take, List.length_drop] at hfirst
      rw [exportLoop, if_neg hne]
      simp only [u64_of_lt (show dest.length + g.bytesperblock < 2 ^ 64 by omega)]
      by_cases hlast : source.length ≤ dest.length + g.bytesperblock
      · have hr := Nat.mod_lt source.length hpos
        have hcalc := exportedLength_last hmod hle hlast
        have hsz : source.length % g.bytesperblock
            ≤ min g.bytesperblock (source.length - dest.length) := by
          have hexp := exportedLength_le g source.length
          omega
        have hbytes : (block g img cur).take (source.length % g.bytesperblock)
            = (source.drop dest.length).take (source.length % g.bytesperblock) := by
          rw [← Nat.min_eq_left hsz, ← List.take_take, hfirst, List.take_take,
            Nat.min_eq_left (by omega), Nat.min_eq_left hsz]
        rw [if_pos hlast, fread_block hg hlen buf hlo hb hr.le, hcalc, hbytes]
      · have hn : g.bytesperblock < source.length - dest.length := by omega
        have hfull : (block g img cur).take g.bytesperblock
            = (source.drop dest.length).take g.bytesperblock := by
          rwa [Nat.min_eq_left hn.le] at hfirst
        have hchunk : ((source.drop dest.length).take g.bytesperblock).length = g.bytesperblock := by
          rw [List.length_take, List.length_drop]
          omega
        rw [if_neg hlast, rdQword_fat hg hlen hb,
          fread_block hg hlen buf hlo hb (le_refl _), hfull]
        -- the chain goes on, for the rest of the file needs a block
        obtain ⟨next, l', rfl⟩ : ∃ next l', l = next :: l' := by
          cases l with
          | nil =>
              rw [blocksFor_of_lt hg hn] at hcount
              have : 1 ≤ blocksFor g (source.length - dest.length - g.bytesperblock) :=
                Nat.le_max_left _ _
              simp only [List.length_cons, List.length_nil] at hcount
              omega
          | cons next l' => exact ⟨next, l', rfl⟩
        have hnext : fat g img cur = next := by
          have h := hlink.1
          rw [fatNext] at h
          split at h
          · cases h
          · exact Option.some.inj h
        have hlen' : (dest ++ (source.drop dest.length).take g.bytesperblock).length
            = dest.length + g.bytesperblock := by
          rw [List.length_append, hchunk]
        rw [hnext, ih (l := l') hlink.2 (fun b hb' => hdata b (List.mem_cons_of_mem _ hb'))
          (by rw [hlen', Nat.add_mod_right, hmod]) (by rw [hlen']; omega) ?_ ?_
          (by rw [hlen']; omega)]
        · have hexp := exportedLength_ge hmod (show _ < source.length by omega)
          rw [hlen', List.append_assoc]
          rw [show exportedLength g source.length - dest.length = g.bytesperblock
            + (exportedLength g source.length - (dest.length + g.bytesperblock)) by omega,
            List.take_add, List.drop_drop]
        · rw [List.length_cons, blocksFor_of_lt hg hn] at hcount
          rw [hlen', ← Nat.sub_sub]
          omega
        · intro k b hk
          have h := hcont (k + 1) b (by simpa using hk)
          rwa [show dest.length + (k + 1) * g.bytesperblock
            = dest.length + g.bytesperblock + k * g.bytesperblock by ring, ← hlen'] at h

end Export

end Windozz.Echfs

import Windozz.Bootmgr.Scan
import Windozz.Echfs.Reserved

set_option autoImplicit false

/-! # `echfs_load`

The loader as a whole: it reads the identity table, derives the layout, scans the directory and
follows the chain. With blocks of at most 8 KiB every block fits one chunk, so `echfs_read_block`
changes the buffer and the destination and nothing else (`readBlock_kept`). A file that
`echfs-utils` imported into the root is loaded byte for byte, if no entry of the root with the same
first four bytes of the name was there before, and whatever is done to the volume afterwards
(`echfsLoad_imported`).
-/

namespace Windozz.Bootmgr

open Relation Echfs

/-! ## The function -/

/-- How `echfs_load` ends without the file. -/
inductive LoadStop where
  | diskError
  | badFs
  | divideError
  | notFound
  /-- A block could not be read, or the chain does not end within the rounds. -/
  | unloaded
  deriving DecidableEq, Repr

/-- What is printed before the machine is halted; a fault prints nothing. -/
def LoadStop.message : LoadStop → Option String
  | .diskError => some "disk I/O error."
  | .badFs => some "echfs volume is corrupt."
  | .divideError => none
  | .notFound => some "kernel binary is missing."
  | .unloaded => some "disk I/O error."

/-- `echfs_load`: the blocks that were loaded and the memory, within `fuel` rounds of the last
loop. -/
def echfsLoad (bios : Bios) (partition_lba fuel : Nat) (filename : Filename) (edi : Nat) (m : Mem) :
    Except LoadStop (List Nat × Mem) :=
  match hddReadSector bios partition_lba 1 DISK_BUFFER m with
  | none => .error .diskError
  | some m =>
      if repCmpsb m SIGNATURE (DISK_BUFFER + 4) = false then .error .badFs
      else
        match deriveLayout m with
        | none => .error .divideError
        | some v =>
            let read_block := echfsReadBlock bios partition_lba v.block_size
            match scanDirectory read_block v filename m with
            | none => .error .diskError
            | some (none, _) => .error .notFound
            | some (some (_, si), m) =>
                let block := dword m ((si + 240) % 2 ^ 16)
                match loadFile read_block v.block_size fuel block edi m with
                | none => .error .unloaded
                | some loaded => .ok loaded

/-! ## What a block changes -/

/-- The memory outside the first 8 KiB of the buffer. -/
def OutsideBuffer (a : Nat) : Prop := a < DISK_BUFFER ∨ DISK_BUFFER + 8192 ≤ a

theorem repMovsb_outside (n : Nat) : ∀ {src dst : Nat} {m : Mem} {a : Nat}, dst < 2 ^ 32 →
    (∀ i, i < n → a ≠ u32 (dst + i)) → repMovsb n src dst m a = m a := by
  induction n with
  | zero => exact fun _ _ => rfl
  | succ n ih =>
      intro src dst m a hdst ha
      have hfirst := ha 0 (Nat.succ_pos n)
      rw [Nat.add_zero, u32_of_lt hdst] at hfirst
      rw [repMovsb, ih (u32_lt _) fun i hi => by rw [u32_succ]; exact ha (i + 1) (by omega)]
      exact Function.update_of_ne hfirst _ _

section Kept

variable {bios : Bios} {disk : Mem} (hbios : bios.Reads disk) {partition_lba block_size : Nat}
  (hsize : block_size ≤ 16)
include hbios hsize

/-- A block of one chunk changes the buffer and its destination. -/
theorem readBlock_kept {block address : Nat} {m m' : Mem} (haddress : address < 2 ^ 32)
    (hrun : echfsReadBlock bios partition_lba block_size block address m = some m') {a : Nat}
    (hout : OutsideBuffer a) (ha : ∀ i, i < 512 * block_size → a ≠ u32 (address + i)) :
    m' a = m a := by
  have hreset : ¬ bios.reset = false := by rw [hbios.reset]; decide
  rw [echfsReadBlock, hddReadSector, if_neg hreset, hddLoop_last hbios m hsize] at hrun
  obtain rfl := Option.some.inj hrun
  unfold OutsideBuffer at hout
  rw [repMovsb_outside _ haddress ha, write_read, if_neg (by omega)]

/-- A block of one chunk for the buffer changes nothing else. -/
theorem readBlock_buffer_kept {block : Nat} {m m' : Mem}
    (hrun : echfsReadBlock bios partition_lba block_size block DISK_BUFFER m = some m') {a : Nat}
    (hout : OutsideBuffer a) : m' a = m a := by
  refine readBlock_kept hbios hsize (by decide) hrun hout fun i hi => ?_
  rw [u32_of_lt (by unfold DISK_BUFFER; omega)]
  unfold OutsideBuffer at hout
  omega

/-- The scan changes the buffer only. -/
theorem scanLoop_kept {v : Layout} {filename : Filename} (fuel : Nat) :
    ∀ {directory block_count : Nat} {m m' : Mem} {r : Option (Nat × Nat)},
      scanLoop (echfsReadBlock bios partition_lba block_size) v filename fuel directory block_count
        m = some (r, m') → ∀ a, OutsideBuffer a → m' a = m a := by
  induction fuel with
  | zero =>
      intro directory block_count m m' r hrun
      cases hrun
  | succ fuel ih =>
      intro directory block_count m m' r hrun a ha
      rw [scanLoop] at hrun
      split at hrun
      · cases hrun
      · rename_i m₁ hread
        have hfirst := readBlock_buffer_kept hbios hsize hread ha
        -- the rounds of the inner loop do not write
        cases hblock : scanBlockLoop m₁ filename
            (if v.entries_per_block = 0 then 2 ^ 16 else v.entries_per_block) DISK_BUFFER with
        | some si =>
            simp only [hblock] at hrun
            split at hrun
            · obtain ⟨-, rfl⟩ := Prod.mk.inj (Option.some.inj hrun)
              exact hfirst
            · obtain ⟨-, rfl⟩ := Prod.mk.inj (Option.some.inj hrun)
              exact hfirst
        | none =>
            simp only [hblock] at hrun
            split at hrun
            · obtain ⟨-, rfl⟩ := Prod.mk.inj (Option.some.inj hrun)
              exact hfirst
            · exact (ih hrun a ha).trans hfirst

theorem scanDirectory_kept {v : Layout} {filename : Filename} {m m' : Mem}
    {r : Option (Nat × Nat)}
    (hrun : scanDirectory (echfsReadBlock bios partition_lba block_size) v filename m
      = some (r, m')) {a : Nat} (ha : OutsideBuffer a) : m' a = m a := by
  rw [scanDirectory] at hrun
  exact scanLoop_kept hbios hsize SCAN_BLOCKS hrun a ha

theorem echfsNextBlock_kept {alloc_per_block eax next : Nat} {m m' : Mem}
    (hrun : echfsNextBlock (echfsReadBlock bios partition_lba block_size) alloc_per_block eax m
      = some (next, m')) {a : Nat} (ha : OutsideBuffer a) : m' a = m a := by
  rw [echfsNextBlock] at hrun
  split at hrun
  · cases hrun
  · simp only at hrun
    split at hrun
    · cases hrun
    · rename_i m₁ hread
      obtain ⟨-, rfl⟩ := Prod.mk.inj (Option.some.inj hrun)
      exact readBlock_buffer_kept hbios hsize hread ha

/-- **Loading the blocks** changes the buffer and the range behind the load address. -/
theorem readFileLoop_kept {alloc_per_block : Nat} (hpos : 0 < block_size) (fuel : Nat) :
    ∀ {block address : Nat} {m m' : Mem} {blocks : List Nat},
      readFileLoop (echfsReadBlock bios partition_lba block_size) block_size alloc_per_block fuel
        block address m = some (blocks, m') →
      address + blocks.length * (512 * block_size) ≤ 2 ^ 32 → ∀ a, OutsideBuffer a →
        (a < address ∨ address + blocks.length * (512 * block_size) ≤ a) → m' a = m a := by
  induction fuel with
  | zero =>
      intro block address m m' blocks hrun
      cases hrun
  | succ fuel ih =>
      intro block address m m' blocks hrun hfits a hout ha
      rw [readFileLoop] at hrun
      split at hrun
      · cases hrun
      · rename_i m₁ hread
        split at hrun
        · cases hrun
        · rename_i next m₂ hnext
          -- one block, and then the block of the table with its link
          have hblock : address + 512 * block_size ≤ 2 ^ 32 →
              (a < address ∨ address + 512 * block_size ≤ a) → m₂ a = m a := by
            intro hfits₁ ha₁
            rw [echfsNextBlock_kept hbios hsize hnext hout]
            refine readBlock_kept hbios hsize (by omega) hread hout fun i hi => ?_
            rw [u32_of_lt (by omega)]
            omega
          split at hrun
          · obtain ⟨rfl, rfl⟩ := Prod.mk.inj (Option.some.inj hrun)
            rw [List.length_singleton, Nat.one_mul] at hfits ha
            exact hblock hfits ha
          · split at hrun
            · cases hrun
            · rename_i rest m₃ hrest
              obtain ⟨rfl, rfl⟩ := Prod.mk.inj (Option.some.inj hrun)
              rw [List.length_cons, Nat.succ_mul] at hfits ha
              by_cases hlast : rest.length = 0
              · -- the loop that was left does at least one round
                cases fuel with
                | zero => cases hrest
                | succ fuel =>
                    obtain rfl := List.eq_nil_of_length_eq_zero hlast
                    rw [readFileLoop] at hrest
                    split at hrest
                    · cases hrest
                    · split at hrest
                      · cases hrest
                      · split at hrest
                        · cases hrest
                        · split at hrest <;> cases hrest
              · have hpart : 512 * block_size ≤ rest.length * (512 * block_size) :=
                  Nat.le_mul_of_pos_left _ (Nat.pos_of_ne_zero hlast)
                have haddress : u32 (address + block_size * 2 ^ 9)
                    = address + 512 * block_size := by
                  rw [u32_of_lt (by omega)]
                  omega
                rw [haddress] at hrest
                rw [ih hrest (by omega) a hout (by omega)]
                exact hblock (by omega) (by omega)

end Kept

/-! ## The identity table -/

/-- The boot sector in the buffer. -/
theorem hddReadSector_one {bios : Bios} {disk : Mem} (hbios : bios.Reads disk) (lba : Nat)
    (m : Mem) : hddReadSector bios lba 1 DISK_BUFFER m
      = some (m.write DISK_BUFFER (disk.read (512 * lba) 512)) := by
  have hreset : ¬ bios.reset = false := by rw [hbios.reset]; decide
  rw [hddReadSector, if_neg hreset, hddLoop_last hbios m (by decide), Nat.mul_one, repMovsb_self]

/-- The signature of an image that opens. -/
theorem readGeometry_signature {imgsize : Nat} {img : Image} {g : Geometry}
    (hopen : readGeometry imgsize img = .ok g) : img.byte.read 4 8 = SIGNATURE := by
  unfold readGeometry at hopen
  split at hopen
  · cases hopen
  · rename_i hsig
    exact not_not.mp hsig

/-- The layout of a volume of less than 2^28 blocks. -/
theorem deriveLayout_volume {imgsize : Nat} {img : Image} {g : Geometry}
    (hopen : readGeometry imgsize img = .ok g) (hcount : rdQword img 12 = g.blocks)
    (hsize : BootBlocks g.bytesperblock) (hblocks : g.blocks < 2 ^ 28) {m : Mem}
    (hm : ∀ a, a < 512 → m (DISK_BUFFER + a) = img.byte a) :
    deriveLayout m = some (layoutOf g) := by
  obtain ⟨hpos, -, -, -, hdir, -, hbpb, hdirsize⟩ := readGeometry_ok hopen
  have hhigh := hsize.high
  have hfat := fatsize_eq hopen
  have hfield : ∀ a, a + 8 ≤ 512 → m.qword (DISK_BUFFER + a) = rdQword img a := fun a ha =>
    Mem.qword_congr fun i hi => by rw [Nat.add_assoc, hm _ (by omega)]
  have heax : dword m (DISK_BUFFER + 12) = g.blocks := by
    rw [dword_low, hfield 12 (by decide), hcount, Nat.mod_eq_of_lt (by omega)]
  have hedx : dword m (DISK_BUFFER + 16) = 0 := by
    have hqword := dword_high m (DISK_BUFFER + 12)
    rw [hfield 12 (by decide), hcount] at hqword
    rw [hqword]
    omega
  have hebx : dword m (DISK_BUFFER + 28) = g.bytesperblock := by
    rw [dword_low, hfield 28 (by decide), hbpb, Nat.mod_eq_of_lt (by omega)]
  have hdirectory : dword m (DISK_BUFFER + 20) = u32 g.dirsize := by
    rw [dword_low, hfield 20 (by decide), hdirsize]
    rfl
  -- the product of the block count and the entry size has no high half
  have hhalf : u32 (0 * 2 ^ 3) ||| g.blocks / 2 ^ 28 = 0 := by
    rw [Nat.div_eq_of_lt hblocks]
    rfl
  have hproduct : u32 (g.blocks * 2 ^ 3) = g.blocks * 8 := u32_of_lt (by omega)
  have hceil : ceilDiv (g.blocks * 8) g.bytesperblock ≤ g.blocks * 8 :=
    (ceilDiv_le_iff hpos).mpr (Nat.le_mul_of_pos_right _ hpos)
  rw [u64_of_lt (by omega)] at hfat
  obtain ⟨q, r, hdiv, hround⟩ := @div32_exact (g.blocks * 8) g.bytesperblock 0 (g.blocks * 8)
    (by rw [Nat.zero_mul, Nat.zero_add]) hpos (by omega)
  have hstart : u32 (g.fatsize + 16) = u32 g.dirstart := by
    rw [hdir, u64_of_lt]
    · exact congrArg u32 (Nat.add_comm _ _)
    · simp only [fatstart, RESERVED_BLOCKS]
      omega
  have hblock : g.bytesperblock / 2 ^ 9 % 2 ^ 16 = g.bytesperblock / 512 := by omega
  rw [deriveLayout]
  simp only [heax, hedx, hebx, hdirectory, hhalf, hproduct, hdiv, hround, hblock]
  rw [← hfat, hstart, layoutOf, u32_of_lt (show g.fatsize < 2 ^ 32 by omega)]

/-! ## The entry -/

/-- The first block of a file, in the entry that the scan ended at. -/
theorem payload_dword {g : Geometry} {img : Image} (h : BootBlocks g.bytesperblock) {k j : Nat}
    {m m' : Mem} (hj : j < g.entriesPerBlock)
    (harrive : Arrives g img (g.dirstart + k) DISK_BUFFER m m') :
    dword m' ((DISK_BUFFER + 256 * j + 240) % 2 ^ 16)
      = (slot g img (k * g.entriesPerBlock + j)).payload.toNat % 2 ^ 32 := by
  have hhigh := h.high
  obtain ⟨-, hbytes, -⟩ := h.entriesPerBlock
  have hloc := h.entryLoc_eq k j
  have haddr : (DISK_BUFFER + 256 * j + 240) % 2 ^ 16 = DISK_BUFFER + (256 * j + 240) := by
    unfold DISK_BUFFER
    omega
  have hdword := dword_of_block harrive.bytes
    (show 256 * j + 240 + 4 ≤ g.bytesperblock by omega)
  rw [haddr, hdword, slot, Entry.decode, hloc, ← Nat.add_assoc, dword_low,
    UInt64.toNat_ofNat', Nat.mod_eq_of_lt (Mem.qword_lt _ _)]

/-- Where the scan ends at a file, the buffer holds its entry. -/
theorem scanLoop_payload {read_block : ReadBlock} {g : Geometry} {img : Image}
    {filename : Filename} (h : BootBlocks g.bytesperblock)
    (hread : DeliversDirectory read_block g img) (fuel : Nat) :
    ∀ {k n : Nat} {m m' : Mem} {found : Nat × Nat}, k + (n + 1) = scannedBlocks g →
      scanLoop read_block (layoutOf g) filename fuel (u32 (g.dirstart + k)) k m
        = some (some found, m') →
      dword m' ((found.2 + 240) % 2 ^ 16)
        = (slot g img (entryNumber g found)).payload.toNat % 2 ^ 32 := by
  obtain ⟨hepb, -, hpos⟩ := h.entriesPerBlock
  have hscanned := scannedBlocks_lt g
  induction fuel with
  | zero =>
      intro k n m m' found _ hrun
      cases hrun
  | succ fuel ih =>
      intro k n m m' found hk hrun
      obtain ⟨m₁, hrun₁, harrive⟩ := hread k (by omega) m
      rw [scanLoop] at hrun
      simp only [hrun₁, hepb] at hrun
      rw [if_neg (by omega)] at hrun
      rcases scanBlock_first filename h harrive with
        ⟨j, hj, -, -, hloop⟩ | ⟨-, hloop⟩
      · simp only [hloop] at hrun
        split at hrun
        · obtain ⟨hfound, rfl⟩ := Prod.mk.inj (Option.some.inj hrun)
          obtain rfl := Option.some.inj hfound
          rw [payload_dword h hj harrive, entryNumber, Nat.add_sub_cancel_left,
            Nat.mul_div_cancel_left j (by decide)]
        · cases hrun
      · simp only [hloop] at hrun
        have hcount : u32 (k + 1) = k + 1 := u32_of_lt (by omega)
        have hdirectory : u32 (u32 (g.dirstart + k) + 1) = u32 (g.dirstart + (k + 1)) := by
          unfold u32
          omega
        rw [hcount, hdirectory] at hrun
        split at hrun
        · cases hrun
        · rename_i hmore
          -- the counter has not reached the size of the directory
          have hn : n ≠ 0 := fun hn => hmore ((scan_exit_iff hk).mpr hn)
          exact @ih (k + 1) (n - 1) m₁ m' found (by omega) hrun

/-- The whole scan. -/
theorem scanDirectory_payload {read_block : ReadBlock} {g : Geometry} {img : Image}
    {filename : Filename} (h : BootBlocks g.bytesperblock)
    (hread : DeliversDirectory read_block g img) (hpos : 0 < scannedBlocks g) {m m' : Mem} {found : Nat × Nat}
    (hrun : scanDirectory read_block (layoutOf g) filename m = some (some found, m')) :
    dword m' ((found.2 + 240) % 2 ^ 16)
      = (slot g img (entryNumber g found)).payload.toNat % 2 ^ 32 := by
  rw [scanDirectory, show (layoutOf g).directory = u32 (g.dirstart + 0) from rfl] at hrun
  exact scanLoop_payload (n := scannedBlocks g - 1) h hread SCAN_BLOCKS (by omega) hrun

/-! ## Loading an imported file -/

/-- The bytes of a file whose blocks lie one after the other. -/
theorem read_blocks {g : Geometry} {img : Image} {m : Mem} {address : Nat} {chain : List Nat}
    {source : List UInt8} (hpos : 0 < g.bytesperblock) (hlen : chain.length = blocksFor g source.length)
    (hloaded : ∀ (k b : Nat), chain[k]? = some b →
      m.read (address + k * g.bytesperblock) g.bytesperblock = block g img b)
    (hcontent : ∀ k b, chain[k]? = some b →
      (block g img b).take ((source.drop (k * g.bytesperblock)).take g.bytesperblock).length
        = (source.drop (k * g.bytesperblock)).take g.bytesperblock) :
    m.read address source.length = source := by
  refine List.ext_getElem? fun i => ?_
  rw [Mem.read_getElem?]
  by_cases hi : i < source.length
  · rw [if_pos hi]
    -- byte `i` is in block `k` of the chain, at offset `o`
    obtain ⟨k, o, ho, rfl⟩ : ∃ k o, o < g.bytesperblock ∧ i = k * g.bytesperblock + o :=
      ⟨i / g.bytesperblock, i % g.bytesperblock, Nat.mod_lt _ hpos, by
        rw [Nat.mul_comm]; exact (Nat.div_add_mod _ _).symm⟩
    have hk : k < chain.length := by
      rw [hlen, blocksFor]
      refine lt_of_lt_of_le ?_ (le_max_right _ _)
      rw [Nat.lt_div_iff_mul_lt hpos]
      omega
    have hchunk : ((source.drop (k * g.bytesperblock)).take g.bytesperblock)[o]?
        = source[k * g.bytesperblock + o]? := by
      rw [List.getElem?_take, if_pos ho, List.getElem?_drop]
    have hin : o < ((source.drop (k * g.bytesperblock)).take g.bytesperblock).length := by
      rw [List.length_take, List.length_drop]
      omega
    have hbyte := congrArg (fun l : List UInt8 => l[o]?) (hloaded k _ (List.getElem?_eq_getElem hk))
    rw [Mem.read_getElem?, if_pos ho] at hbyte
    rw [← Nat.add_assoc, hbyte, ← hchunk, ← hcontent k _ (List.getElem?_eq_getElem hk),
      List.getElem?_take, if_pos hin]
  · rw [if_neg hi, List.getElem?_eq_none (by omega)]

/-- An imported file is the first entry that the scan takes for it, when there was none before. -/
theorem firstCompared_imported {g : Geometry} {img img₁ img₂ : Image} {source : List UInt8}
    {filename : Filename} {es es' : List Entry} {e : Entry} {c : List Nat}
    (h : Imported g source filename.val img img₁ es e c) (hroot : SLASH ∉ filename.val)
    (hlong : 3 ≤ filename.val.length) (hname : filename.val.length < FILENAME_LEN)
    (hfiles : ∀ f ∈ es, ¬ Compared filename f) (hvol : Volume g img₂ (es ++ [e] ++ es')) :
    FirstCompared g img₂ filename es.length ∧ slot g img₂ es.length = e := by
  have hslot : ∀ {i : Nat} {f : Entry}, (es ++ [e] ++ es')[i]? = some f → slot g img₂ i = f :=
    fun hf => slot_listed hvol.table.listed hf
  have hlast : slot g img₂ es.length = e := hslot (by simp)
  -- the path is a name of the root
  obtain ⟨p, n, hwalk, -, hparent, hcstr⟩ := h.walked
  rw [walk_name es hroot hname] at hwalk
  obtain ⟨rfl, rfl⟩ := Prod.mk.inj (Option.some.inj hwalk)
  have hnamed : Named filename e := ⟨hparent, hcstr⟩
  refine ⟨⟨by rw [hlast]; exact hnamed.compared hlong, fun j hj hcompared => ?_⟩, hlast⟩
  have hbefore : slot g img₂ j = es[j] := hslot (by
    rw [List.append_assoc, List.getElem?_append_left hj]
    exact List.getElem?_eq_getElem hj)
  rw [hbefore] at hcompared
  exact hfiles _ (List.getElem_mem hj) hcompared

section Imported

variable {g : Geometry} {img₂ : Image} {partition_lba : Nat} {disk : Mem} {bios : Bios}
  {filename : Filename}

/-- `echfs_load` of the file in slot `i` of the directory. -/
theorem echfsLoad_entry (hboot : BootVolume g img₂ partition_lba disk) (hbios : bios.Reads disk)
    (hopen : readGeometry img₂.length img₂ = .ok g) (hcount : rdQword img₂ 12 = g.blocks)
    (hdirsize : g.dirsize = g.blocks / 20) (hsmall : g.bytesperblock ≤ 8192)
    (hblocks : g.blocks < 2 ^ 28) {i : Nat} {e : Entry} {file : List Nat} (hi : i < g.entries)
    (hfirst : FirstCompared g img₂ filename i)
    (hslot : slot g img₂ i = e) (htype : e.type = FILE_TYPE) (hchain : FileChain g img₂ e file)
    {edi fuel : Nat} (hlow : 0x100000 ≤ edi) (hhigh : edi + file.length * g.bytesperblock ≤ 2 ^ 32)
    (hfuel : file.length ≤ fuel) (m : Mem) :
    ∃ m', echfsLoad bios partition_lba fuel filename edi m = .ok (file, m') ∧
      (∀ (k b : Nat), file[k]? = some b →
        m'.read (edi + k * g.bytesperblock) g.bytesperblock = block g img₂ b) ∧
      ∀ a, OutsideBuffer a → (a < edi ∨ edi + file.length * g.bytesperblock ≤ a) → m' a = m a := by
  have hsize := hboot.size.size_eq
  have hlowbpb := hboot.size.low
  have hhead := hboot.sound.header_le
  have hend := hboot.sound.dir_end
  have hfat := hboot.sound.fat_le
  have hdata := hboot.sound.data_le
  have hdir : 0 < g.dirsize := by
    rw [Nat.pos_iff_ne_zero]
    intro hzero
    rw [Geometry.entries, hzero, Nat.zero_mul] at hi
    cases hi
  have hscanned : scannedBlocks g = g.dirsize := by
    have hle : g.dirsize < 2 ^ 31 := by omega
    rw [scannedBlocks, u32_of_lt (by omega), if_pos hle, Nat.max_eq_right hdir]
  -- the boot sector
  set m₁ := m.write DISK_BUFFER (disk.read (512 * partition_lba) 512) with hm₁
  have hsector : ∀ a, a < 512 → m₁ (DISK_BUFFER + a) = img₂.byte a := by
    intro a ha
    rw [hm₁, write_read, if_pos (by omega), Nat.add_sub_cancel_left]
    exact hboot.holds a (by rw [hboot.length]; omega)
  have hsignature : repCmpsb m₁ SIGNATURE (DISK_BUFFER + 4) = true := by
    rw [repCmpsb_iff m₁ SIGNATURE (by decide), ← readGeometry_signature hopen, Mem.read_length]
    exact Mem.read_congr fun i hi => by rw [Nat.add_assoc, hsector (4 + i) (by omega)]
  have hlayout := deriveLayout_volume hopen hcount hboot.size hblocks hsector
  -- the directory
  have hdirectory := hboot.deliversDirectory hbios hdir hsmall
  obtain ⟨r, m₂, hscan, hfound⟩ := scanDirectory_first filename hdir hboot.size hdirectory m₁
  obtain ⟨found, rfl, hnumber⟩ : ∃ found, r = some found ∧ entryNumber g found = i := by
    rcases hfound with ⟨j, -, hfirst', hr⟩ | ⟨hnone, -⟩
    · obtain rfl := hfirst.unique hfirst'
      rw [hslot, if_pos htype] at hr
      exact Option.map_eq_some_iff.mp hr
    · exact absurd hfirst.1 (hnone i (by rw [hscanned]; exact hi))
  obtain ⟨count, si⟩ := found
  have hblock : dword m₂ ((si + 240) % 2 ^ 16) = e.payload.toNat % 2 ^ 32 := by
    have hpayload := scanDirectory_payload hboot.size hdirectory (by omega) hscan
    rw [hnumber, hslot] at hpayload
    exact hpayload
  -- the file
  obtain ⟨start, cs, rfl⟩ : ∃ start cs, file = start :: cs := by
    cases file with
    | nil => exact absurd hchain.head_eq (by simp)
    | cons start cs => exact ⟨start, cs, rfl⟩
  have hstart : start = e.payload.toNat := Option.some.inj hchain.head_eq
  have hin : ∀ b ∈ start :: cs, b < g.blocks := fun b hb => (hchain.in_data b hb).2
  have hpayload : e.payload.toNat % 2 ^ 32 = start := by
    have hlt := hin start List.mem_cons_self
    rw [← hstart, Nat.mod_eq_of_lt (by omega)]
  obtain ⟨m₃, hload, hloaded, -⟩ := readFileLoop_chain hboot.size cs m₂ hchain.linked
    (fun b hb => ⟨by have := hin b hb; omega, hboot.readable hbios hsmall (hin b hb)⟩) hlow hhigh
    hfuel
  have hkept := readFileLoop_kept hbios (show g.bytesperblock / 512 ≤ 16 by omega) (by omega) fuel
    hload (by rw [hsize]; exact hhigh)
  rw [hsize] at hkept
  refine ⟨m₃, ?_, hloaded, fun a hout ha => ?_⟩
  · rw [echfsLoad, hddReadSector_one hbios]
    simp only [← hm₁, hsignature, hlayout, Bool.true_eq_false, if_false]
    have hblocksize : (layoutOf g).block_size = g.bytesperblock / 512 := rfl
    simp only [hblocksize, hscan, hblock, hpayload, loadFile, hboot.size.alloc_per_block, hload]
  · rw [hkept a hout ha, scanDirectory_kept hbios (by omega) hscan hout, hm₁, write_read]
    unfold OutsideBuffer at hout
    rw [if_neg (by omega)]

/-- A file that was imported into the root, with what has been done to the volume since. -/
structure InRoot (g : Geometry) (stage1 bootmgr source : List UInt8) (filename : Filename)
    (img img₁ img₂ : Image) (es : List Entry) (e : Entry) (file : List Nat)
    (chain : Nat → List Nat) (es' : List Entry) (chain' : Nat → List Nat) : Prop where
  imported : Imported g source filename.val img img₁ es e file
  files : ∀ f ∈ es, ¬ Compared filename f
  later : Built g stage1 bootmgr img₁ img₂ (es ++ [e]) chain es' chain'
  chain_eq : chain es.length = file
  count : rdQword img₂ 12 = g.blocks

/-- `echfs_load` of such a file. -/
theorem InRoot.echfsLoad {stage1 bootmgr source : List UInt8} {img img₁ : Image} {es es' : List Entry}
    {e : Entry} {file : List Nat} {chain chain' : Nat → List Nat}
    (h : InRoot g stage1 bootmgr source filename img img₁ img₂ es e file chain es' chain')
    (hroot : SLASH ∉ filename.val) (hlong : 3 ≤ filename.val.length)
    (hname : filename.val.length < FILENAME_LEN)
    (hboot : BootVolume g img₂ partition_lba disk) (hbios : bios.Reads disk)
    (hsmall : g.bytesperblock ≤ 8192) (hblocks : g.blocks < 2 ^ 28) {edi fuel : Nat}
    (hlow : 0x100000 ≤ edi) (hhigh : edi + blocksFor g source.length * g.bytesperblock ≤ 2 ^ 32)
    (hfuel : blocksFor g source.length ≤ fuel) (m : Mem) :
    ∃ chain m', echfsLoad bios partition_lba fuel filename edi m = .ok (chain, m') ∧
      m'.read edi source.length = source ∧
      ∀ a, OutsideBuffer a →
        (a < edi ∨ edi + blocksFor g source.length * g.bytesperblock ≤ a) → m' a = m a := by
  have himp := h.imported
  have hvol := h.later.volume
  have hg := hvol.formatted.sound
  have hlast : (es ++ [e])[es.length]? = some e := by simp
  have hfirst := firstCompared_imported himp hroot hlong hname h.files hvol
  have hkept := h.later.kept _ e hlast himp.type_eq
  rw [h.chain_eq] at hkept
  have hchain : FileChain g img₂ e file := himp.fileChain.congr fun b hb => (hkept b hb).1
  have hcontent : ∀ k b, file[k]? = some b →
      (block g img₂ b).take ((source.drop (k * g.bytesperblock)).take g.bytesperblock).length
        = (source.drop (k * g.bytesperblock)).take g.bytesperblock := by
    intro k b hk
    rw [(hkept b (List.mem_of_getElem? hk)).2]
    exact himp.content k b hk
  have hslot : es.length < g.entries := by
    have hfits := himp.volume.table.fits
    rw [List.length_append, List.length_singleton] at hfits
    omega
  rw [← himp.length_eq] at hhigh hfuel ⊢
  obtain ⟨m', hload, hloaded, hframe⟩ := echfsLoad_entry hboot hbios hvol.formatted.opened h.count
    hvol.formatted.dirsize_eq hsmall hblocks hslot hfirst.1 hfirst.2 himp.type_eq hchain hlow
    hhigh hfuel m
  exact ⟨file, m', hload, read_blocks hg.bytesperblock_pos himp.length_eq hloaded hcontent, hframe⟩

end Imported

/-- What an import leads to, when the scan takes no entry for the file before. -/
theorem inRoot_imported {g : Geometry} {stage1 bootmgr : List UInt8}
    {img₀ img img₁ img₂ : Image} {host : List UInt8 → HostFile} {clock : Nat → UInt64}
    {block_buf source : List UInt8} {argv3 : CString} {filename : Filename}
    (hfresh : Fresh g img₀) (hfits : BootFits g stage1 bootmgr)
    (hrun : Build stage1 bootmgr img₀ img) (hbuf : block_buf.length = g.bytesperblock)
    (hsource : (host argv3.val).contents = some source) (henough : EnoughFree g img source.length)
    (himport : importCmd g host clock block_buf [argv3.val, filename.val] img
      = (.ok .imported, img₁))
    (hroot : SLASH ∉ filename.val) (hname : filename.val.length < FILENAME_LEN)
    (hfiles : ∀ i, i < g.entries → ¬ Compared filename (slot g img i))
    (hrun' : Build stage1 bootmgr img₁ img₂) :
    BuildStep stage1 bootmgr img img₁ ∧ ∃ es e file chain es' chain',
      InRoot g stage1 bootmgr source filename img img₁ img₂ es e file chain es' chain' := by
  have hcount₀ : rdQword img₀ 12 = g.blocks := by
    obtain ⟨blocksize, img, hlo, hhi, hlt, hf⟩ := hfresh.formats
    exact (format_spec hlo hhi hlt hf hfresh.datastart_le).2.2.1
  -- the volume before the import, and the import
  obtain ⟨es, chain, hbuilt⟩ := Built.run hfits hfresh.volume hfresh.chains hrun
  have hchains := hbuilt.chains
  have hvol := hbuilt.volume
  have hg := hvol.formatted.sound
  rw [List.nil_append] at hvol hchains
  have hwalk := walk_name es hroot hname
  have hpath : filename.val ≠ [SLASH] := by
    intro heq
    rw [heq] at hroot
    exact hroot List.mem_cons_self
  obtain ⟨contents, e, file, hc, himp⟩ := hvol.importCmd_walked filename.nul_free hbuf hpath hwalk
    himport fun contents hc => by
      obtain rfl : source = contents := Option.some.inj (hsource.symm.trans hc)
      exact henough
  obtain rfl : source = contents := Option.some.inj (hsource.symm.trans hc)
  -- the import is a command like the others, so it keeps the identity table
  have hstep : BuildStep stage1 bootmgr img img₁ := BuildStep.command (Step.importCmd host clock
    block_buf [argv3, ⟨filename.val, filename.nul_free⟩] hvol.formatted.opened hbuf himport
    fun _ argv3' contents hargs hc => by
      obtain rfl : argv3.val = argv3' := Option.some.inj hargs
      obtain rfl : source = contents := Option.some.inj (hsource.symm.trans hc)
      exact henough)
  obtain ⟨_, _, hadded⟩ := Built.step hfits hvol hchains hstep
  -- what comes after it
  obtain ⟨es', chain', hlater⟩ := Built.run hfits himp.volume
    (hchains.imported hg himp) hrun'
  refine ⟨hstep, es, e, file, _, es', chain', himp, fun f hf hcompared => ?_, hlater, if_pos rfl, ?_⟩
  · obtain ⟨i, hi⟩ := List.mem_iff_getElem?.mp hf
    have hlt := (List.getElem?_eq_some_iff.mp hi).1
    rw [← slot_listed hvol.table.listed hi] at hcompared
    exact hfiles i (lt_of_lt_of_le hlt hvol.table.fits) hcompared
  · rw [← hcount₀]
    refine Mem.qword_congr fun i hi => ?_
    rw [hlater.identity _ (by omega) (by omega), hadded.identity _ (by omega) (by omega)]
    exact hbuilt.identity _ (by omega) (by omega)

/-- **From the host to memory.** A file that `import` put into the root of a volume, under a name of
three characters and more whose first four bytes no entry of the root had, is loaded by the boot
manager byte for byte: whatever runs of `echfs-utils` and copies of the boot manager went before it or
came after it, wherever the volume is on the disk and whatever was in memory. Besides the buffer and
the range of the file's blocks no byte of memory changes. -/
theorem echfsLoad_imported {g : Geometry} {stage1 bootmgr : List UInt8}
    {img₀ img img₁ img₂ : Image} {host : List UInt8 → HostFile} {clock : Nat → UInt64}
    {block_buf source : List UInt8} {argv3 : CString} {filename : Filename}
    (hfresh : Fresh g img₀) (hfits : BootFits g stage1 bootmgr)
    (hrun : Build stage1 bootmgr img₀ img) (hbuf : block_buf.length = g.bytesperblock)
    (hsource : (host argv3.val).contents = some source) (henough : EnoughFree g img source.length)
    (himport : importCmd g host clock block_buf [argv3.val, filename.val] img
      = (.ok .imported, img₁))
    (hroot : SLASH ∉ filename.val) (hlong : 3 ≤ filename.val.length)
    (hname : filename.val.length < FILENAME_LEN)
    (hfiles : ∀ i, i < g.entries → ¬ Compared filename (slot g img i))
    (hrun' : Build stage1 bootmgr img₁ img₂)
    {bios : Bios} {disk : Mem} {partition_lba : Nat} (hbios : bios.Reads disk)
    (hboot : BootVolume g img₂ partition_lba disk) (hsmall : g.bytesperblock ≤ 8192)
    (hblocks : g.blocks < 2 ^ 28) {edi fuel : Nat} (hlow : 0x100000 ≤ edi)
    (hhigh : edi + blocksFor g source.length * g.bytesperblock ≤ 2 ^ 32)
    (hfuel : blocksFor g source.length ≤ fuel) (m : Mem) :
    ∃ chain m', echfsLoad bios partition_lba fuel filename edi m = .ok (chain, m') ∧
      m'.read edi source.length = source ∧
      ∀ a, OutsideBuffer a →
        (a < edi ∨ edi + blocksFor g source.length * g.bytesperblock ≤ a) → m' a = m a := by
  obtain ⟨-, es, e, file, chain, es', chain', hfile⟩ := inRoot_imported hfresh hfits hrun hbuf
    hsource henough himport hroot hname hfiles hrun'
  exact hfile.echfsLoad hroot hlong hname hboot hbios hsmall hblocks hlow hhigh hfuel m

/-- A directory and another file before the import, the boot manager and a file with the same first four
bytes after it. -/
theorem echfsLoad_winkern : ∃ img₁ img₂ img₃ img₄,
    mkdirCmd (volumeOf 40 2048) 0 [[100]] bootImage = (.ok .created, img₁) ∧
    importCmd (volumeOf 40 2048) (fun _ => ⟨true, some [4]⟩) (fun _ => 0) (List.replicate 2048 0)
      [[115], [119, 105, 110]] img₁ = (.ok .imported, img₂) ∧
    importCmd (volumeOf 40 2048) (fun _ => ⟨true, some (List.replicate 3000 7)⟩) (fun _ => 0)
      (List.replicate 2048 0) [[115], kernelFilename.val] img₂ = (.ok .imported, img₃) ∧
    importCmd (volumeOf 40 2048) (fun _ => ⟨true, some [4]⟩) (fun _ => 0) (List.replicate 2048 0)
      [[115], winkle.val] (installBoot (List.replicate 512 0) [0x57, 0x4E, 0x44, 0x5A] img₃) = (.ok .imported, img₄) ∧
    ∃ chain m', echfsLoad (diskBios img₄.byte) 0 2 kernelFilename 0x100000 (fun _ => 0)
        = .ok (chain, m') ∧
      m'.read 0x100000 (List.replicate 3000 (7 : UInt8)).length = List.replicate 3000 7 ∧
      ∀ a, OutsideBuffer a → (a < 0x100000 ∨ 0x100000 + blocksFor (volumeOf 40 2048)
        (List.replicate 3000 (7 : UInt8)).length * (volumeOf 40 2048).bytesperblock ≤ a) →
        m' a = (fun _ => 0 : Mem) a := by
  have hbuf : (List.replicate 2048 (0 : UInt8)).length = (volumeOf 40 2048).bytesperblock :=
    List.length_replicate
  have hlong : blocksFor (volumeOf 40 2048) (List.replicate 3000 (7 : UInt8)).length = 2 := by
    rw [List.length_replicate]
    decide
  have hfits : BootFits (volumeOf 40 2048) (List.replicate 512 0) [0x57, 0x4E, 0x44, 0x5A] :=
    ⟨List.length_replicate, by decide⟩
  obtain ⟨img₁, hmkdir₁, hstep₁, hstock₁⟩ := bootImage_fresh.stocked.mkdir ⟨[100], by decide⟩
    (by decide) (by decide) (by decide) (by decide)
  obtain ⟨img₂, himport₂, -, hstep₂, hstock₂⟩ := hstock₁.import
    ⟨[119, 105, 110], by decide⟩ (by decide) (by decide) (by decide) ⟨[115], by decide⟩ [4] hbuf
    (by decide) (by decide)
  obtain ⟨img₃, himport₃, henough₃, -, hstock₃⟩ := hstock₂.import ⟨kernelFilename.val, by decide⟩
    (by decide) (by decide) (by decide) ⟨[115], by decide⟩ (List.replicate 3000 7) hbuf
    (by rw [hlong]; decide) (by decide)
  rw [hlong] at hstock₃
  obtain ⟨img₄, himport₄, -, hstep₄, hstock₄⟩ := (hstock₃.install hfits).import winkle
    (by decide) (by decide) (by decide) ⟨[115], by decide⟩ [4] hbuf (by decide) (by decide)
  obtain ⟨es₄, hvol₄, -⟩ := hstock₄.volume
  refine ⟨img₁, img₂, img₃, img₄, hmkdir₁, himport₂, himport₃, himport₄, ?_⟩
  exact echfsLoad_imported bootImage_fresh hfits
    ((ReflTransGen.single (BuildStep.command hstep₁)).tail (BuildStep.command hstep₂)) hbuf rfl
    henough₃ himport₃ (by decide) (by decide) (by decide) 
    (fun i hi => not_compared_of_keys hstock₂ (by decide) hi (by decide))
    ((ReflTransGen.single (BuildStep.install img₃)).tail (BuildStep.command hstep₄))
    (diskBios_reads _) (volumeOf_boot hvol₄.formatted) (by decide) (by decide) (by decide)
    (by rw [hlong]; decide) (by rw [hlong]) (fun _ => 0)

end Windozz.Bootmgr

import Mathlib.Data.List.TakeWhile
import Windozz.Bootmgr.Layout
import Windozz.Bootmgr.Load
import Windozz.Echfs.RoundTrip

set_option autoImplicit false

/-! # Finding a file

The directory scan of `echfs_load`. An entry is compared by its parent and by four bytes of its
name: the loop that is meant to count the name counts the text that was printed last. The type is
tested only after the scan has ended at the entry, and a directory ends the scan as well. The scan
reads as many blocks as the directory has and passes unused slots over, while `search` stops at the
first unused slot and aborts when there is none. `scanDirectory_agrees_iff` says on which directories
the two agree.
-/

namespace Windozz.Bootmgr

open Echfs

/-! ## The functions -/

/-- A string at `ds:si`, and the memory behind its terminator. It ends within its segment. -/
structure Filename where
  val : List UInt8
  behind : Mem
  nul_free : 0 ∉ val
  fits : val.length + 1 < 2 ^ 16

/-- `.loading_msg2`, without its terminator. -/
def LOADING_MSG2 : List UInt8 := [46, 46, 46]

/-- `.filename_size`. `print` keeps `si`, which is at `.loading_msg2` when `.count_filename_size` is
entered; so this is the text that the loop counts, with its terminator. -/
def filenameSize : Nat := (LOADING_MSG2.length + 1) % 2 ^ 16

/-- The `.filename_size` bytes at `.filename`. -/
def comparedBytes (filename : Filename) : List UInt8 :=
  (filename.val ++ 0 :: filename.behind.read 0 filenameSize).take filenameSize

/-- `kernel_filename`, `"winkern"`, with `rsdp_signature` behind it. -/
def kernelFilename : Filename where
  val := [119, 105, 110, 107, 101, 114, 110]
  behind := fun i => [82, 83, 68, 32, 80, 84, 82, 32].getD i 0
  nul_free := by decide
  fits := by decide

/-- `rep cmpsb` from `si` on: whether all bytes agree. -/
def repCmpsb (m : Mem) : List UInt8 → Nat → Bool
  | [], _ => true
  | c :: cs, si => m si == c && repCmpsb m cs ((si + 1) % 2 ^ 16)

/-- `.scan_block_loop`, for `cx` rounds: the address of the entry it ends at. -/
def scanBlockLoop (m : Mem) (filename : Filename) : Nat → Nat → Option Nat
  | 0, _ => none
  | cx + 1, si =>
      if dword m si = 0xFFFFFFFF ∧ dword m ((si + 4) % 2 ^ 16) = 0xFFFFFFFF ∧
          repCmpsb m (comparedBytes filename) ((si + 9) % 2 ^ 16) = true then some si
      else scanBlockLoop m filename cx ((si + 256) % 2 ^ 16)

/-- A 32-bit register read as a signed number. -/
def s32 (x : Nat) : Int := if x < 2 ^ 31 then x else (x : Int) - 2 ^ 32

/-- `.scan_loop`, within `fuel` rounds: the number of the block and the address of the file's entry
in the buffer, or `none` for a missing file. -/
def scanLoop (read_block : ReadBlock) (v : Layout) (filename : Filename) :
    Nat → Nat → Nat → Mem → Option (Option (Nat × Nat) × Mem)
  | 0, _, _, _ => none
  | fuel + 1, directory, block_count, m =>
      match read_block directory DISK_BUFFER m with
      | none => none
      | some m =>
          -- `loop` with a count of 0 makes all rounds of a 16-bit counter
          let cx := if v.entries_per_block = 0 then 2 ^ 16 else v.entries_per_block
          match scanBlockLoop m filename cx DISK_BUFFER with
          | some si =>
              if m ((si + 8) % 2 ^ 16) = 0 then some (some (block_count, si), m) else some (none, m)
          | none =>
              if s32 v.directory_size ≤ s32 (u32 (block_count + 1)) then some (none, m)
              else scanLoop read_block v filename fuel (u32 (directory + 1)) (u32 (block_count + 1)) m

/-- The number of values of `.block_count`. -/
def SCAN_BLOCKS : Nat := 2 ^ 32

/-- The directory scan of `echfs_load`. -/
def scanDirectory (read_block : ReadBlock) (v : Layout) (filename : Filename) (m : Mem) :
    Option (Option (Nat × Nat) × Mem) :=
  scanLoop read_block v filename SCAN_BLOCKS v.directory 0 m

/-- The layout of a volume as `echfs-utils` has it, in the variables of `echfs_load`. -/
def layoutOf (g : Geometry) : Layout where
  directory_size := u32 g.dirsize
  block_size := g.bytesperblock / 512
  allocation_size := u32 g.fatsize
  directory := u32 g.dirstart
  entries_per_block := g.bytesperblock / 512 * 2 % 2 ^ 16 % 2 ^ 8

/-- The number of the entry that the scan ended at. -/
def entryNumber (g : Geometry) (found : Nat × Nat) : Nat :=
  found.1 * g.entriesPerBlock + (found.2 - DISK_BUFFER) / 256

/-! ## Comparing names -/

theorem comparedBytes_length (filename : Filename) : (comparedBytes filename).length = 4 := by
  rw [comparedBytes, List.length_take, List.length_append, List.length_cons, Mem.read_length,
    show filenameSize = 4 from rfl]
  omega

/-- For names of three characters and more the memory behind them does not count. -/
theorem comparedBytes_long {filename : Filename} (h : 3 ≤ filename.val.length) :
    comparedBytes filename = (filename.val ++ [0]).take 4 := by
  have hsplit : filename.val ++ 0 :: filename.behind.read 0 filenameSize
      = (filename.val ++ [0]) ++ filename.behind.read 0 filenameSize := by simp
  rw [comparedBytes, hsplit, show filenameSize = 4 from rfl, List.take_append_of_le_length]
  rw [List.length_append, List.length_singleton]
  omega

/-- A name field is the name, and its terminator if there is room for one. -/
theorem cstr_take (n : NameField) :
    n.val = n.cstr ∨ n.val.take (n.cstr.length + 1) = n.cstr ++ [0] := by
  have hsplit : n.cstr ++ n.val.dropWhile (fun c => decide (c ≠ 0)) = n.val :=
    List.takeWhile_append_dropWhile
  cases hdrop : n.val.dropWhile (fun c => decide (c ≠ 0)) with
  | nil =>
      rw [hdrop, List.append_nil] at hsplit
      exact Or.inl hsplit.symm
  | cons c rest =>
      have hne : n.val.dropWhile (fun c => decide (c ≠ 0)) ≠ [] := by
        rw [hdrop]
        exact List.cons_ne_nil c rest
      have hhead := List.head_dropWhile_not _ hne
      simp only [hdrop, List.head_cons, decide_eq_false_iff_not, not_not] at hhead
      rw [hdrop, hhead] at hsplit
      have hlen : (n.cstr ++ [0]).length = n.cstr.length + 1 := List.length_append
      have hends : n.cstr ++ [0] ++ rest = n.val := by
        rw [List.append_assoc]
        exact hsplit
      refine Or.inr ?_
      calc n.val.take (n.cstr.length + 1)
          = (n.cstr ++ [0] ++ rest).take (n.cstr ++ [0]).length := by rw [hends, hlen]
        _ = n.cstr ++ [0] := List.take_left

/-- Four bytes of a stored name of three characters and more. -/
theorem take_cstr {n : NameField} (h : 3 ≤ n.cstr.length) : n.val.take 4 = (n.cstr ++ [0]).take 4 := by
  rcases cstr_take n with hfull | hterm
  · have hlong : 4 ≤ n.cstr.length := by
      rw [← hfull, n.property]
      decide
    rw [List.take_append_of_le_length hlong, ← hfull]
  · rw [← hterm, List.take_take, Nat.min_eq_left (by omega)]

/-- A comparison that stays within the segment. -/
theorem repCmpsb_iff (m : Mem) (cs : List UInt8) : ∀ {a : Nat}, a + cs.length ≤ 2 ^ 16 →
    (repCmpsb m cs a = true ↔ m.read a cs.length = cs) := by
  induction cs with
  | nil => exact fun _ => by simp [repCmpsb]
  | cons c cs ih =>
      intro a ha
      rw [List.length_cons] at ha
      rw [repCmpsb, Bool.and_eq_true, beq_iff_eq, List.length_cons, Mem.read, List.cons.injEq]
      cases cs with
      | nil => simp [repCmpsb]
      | cons d cs =>
          rw [List.length_cons] at ha
          rw [Nat.mod_eq_of_lt (by omega), ih (by rw [List.length_cons]; omega)]

/-! ## Entries -/

/-- Slot `i` of the directory. -/
def slot (g : Geometry) (img : Image) (i : Nat) : Entry := Entry.decode img.byte (g.entryLoc i)

/-- An entry of the root directory with the name. -/
def Named (filename : Filename) (e : Entry) : Prop :=
  e.parent_id = ROOT_ID ∧ e.name.cstr = filename.val

/-- An entry of the root directory that the scan takes for the file. -/
def Compared (filename : Filename) (e : Entry) : Prop :=
  e.parent_id = ROOT_ID ∧ e.name.val.take filenameSize = comparedBytes filename

/-- For names of three characters and more: the four bytes are those of the name. -/
theorem compared_iff {filename : Filename} {e : Entry} (hlong : 3 ≤ filename.val.length) :
    Compared filename e ↔ e.parent_id = ROOT_ID ∧
      (e.name.cstr ++ [0]).take 4 = (filename.val ++ [0]).take 4 := by
  rw [Compared, comparedBytes_long hlong, show filenameSize = 4 from rfl]
  refine and_congr_right fun _ => ?_
  by_cases hthree : 3 ≤ e.name.cstr.length
  · rw [take_cstr hthree]
  · -- a shorter name ends where the other has a character
    have hshort : (filename.val ++ [0]).take 3 = filename.val.take 3 :=
      List.take_append_of_le_length hlong
    refine iff_of_false (fun heq => ?_) fun heq => ?_
    · rcases cstr_take e.name with hfull | hterm
      · rw [← hfull, e.name.property] at hthree
        exact hthree (by decide)
      · have hmem : (0 : UInt8) ∈ e.name.val.take 3 := by
          have hsub : e.name.val.take (e.name.cstr.length + 1) = (e.name.val.take 3).take
              (e.name.cstr.length + 1) := by
            rw [List.take_take, Nat.min_eq_left (by omega)]
          rw [hterm] at hsub
          exact List.mem_of_mem_take (hsub ▸ List.mem_append_right _ List.mem_cons_self)
        have hthird := congrArg (List.take 3) heq
        rw [List.take_take, List.take_take, Nat.min_eq_left (by decide), hshort] at hthird
        rw [hthird] at hmem
        exact filename.nul_free (List.mem_of_mem_take hmem)
    · have hlength := congrArg List.length heq
      rw [List.length_take, List.length_take, List.length_append, List.length_append,
        List.length_singleton] at hlength
      omega

/-- The scan takes an entry with the name for the file, unless the name is too short. -/
theorem Named.compared {filename : Filename} {e : Entry} (h : Named filename e)
    (hlong : 3 ≤ filename.val.length) : Compared filename e :=
  (compared_iff hlong).mpr ⟨h.1, by rw [h.2]⟩

/-- The test of one entry in memory. -/
theorem entry_test {m : Mem} {img : Image} {filename : Filename} {si loc : Nat}
    (hsi : si + 256 ≤ 2 ^ 16) (hbytes : ∀ o, o < 256 → m (si + o) = img.byte (loc + o)) :
    (dword m si = 0xFFFFFFFF ∧ dword m ((si + 4) % 2 ^ 16) = 0xFFFFFFFF ∧
      repCmpsb m (comparedBytes filename) ((si + 9) % 2 ^ 16) = true) ↔
      Compared filename (Entry.decode img.byte loc) := by
  have hlow : dword m si = img.byte.qword loc % 2 ^ 32 := by
    rw [← dword_low]
    exact dword_congr fun i hi => hbytes i (by omega)
  have hhigh : dword m (si + 4) = img.byte.qword loc / 2 ^ 32 := by
    rw [← dword_high]
    exact dword_congr fun i hi => by rw [Nat.add_assoc, Nat.add_assoc, hbytes _ (by omega)]
  have hparent : (dword m si = 0xFFFFFFFF ∧ dword m (si + 4) = 0xFFFFFFFF) ↔
      (Entry.decode img.byte loc).parent_id = ROOT_ID := by
    have hlt := Mem.qword_lt img.byte loc
    have hroot : ROOT_ID = UInt64.ofNat (2 ^ 64 - 1) := by decide
    rw [hlow, hhigh, Entry.decode, hroot]
    constructor
    · intro h
      exact congrArg UInt64.ofNat (by omega)
    · intro h
      have hnat := congrArg UInt64.toNat h
      rw [UInt64.toNat_ofNat', UInt64.toNat_ofNat', Nat.mod_eq_of_lt hlt] at hnat
      omega
  -- the name is compared in memory, where the entry lies as it does on the disk
  have hfield : m.read (si + 9) 4 = (Entry.decode img.byte loc).name.val.take filenameSize := by
    rw [Entry.decode, Mem.read_take _ _ (by decide)]
    refine Mem.read_congr fun i hi => ?_
    rw [Nat.add_assoc, Nat.add_assoc, hbytes _ (by omega)]
  have hlen := comparedBytes_length filename
  rw [Nat.mod_eq_of_lt (show si + 4 < 2 ^ 16 by omega),
    Nat.mod_eq_of_lt (show si + 9 < 2 ^ 16 by omega), ← and_assoc, hparent, Compared,
    repCmpsb_iff m _ (by rw [hlen]; omega), hlen, hfield]

/-- The loop over a block ends at the first entry that passes its test. -/
theorem scanBlockLoop_first {m : Mem} {filename : Filename} {P : Nat → Prop} (n : Nat) :
    ∀ {k si : Nat}, si + 256 * n ≤ 2 ^ 16 →
      (∀ j, j < n → ((dword m (si + 256 * j) = 0xFFFFFFFF ∧
        dword m ((si + 256 * j + 4) % 2 ^ 16) = 0xFFFFFFFF ∧
        repCmpsb m (comparedBytes filename) ((si + 256 * j + 9) % 2 ^ 16) = true) ↔ P (k + j))) →
      (∃ j, j < n ∧ P (k + j) ∧ (∀ i, k ≤ i → i < k + j → ¬ P i) ∧
        scanBlockLoop m filename n si = some (si + 256 * j)) ∨
      (∀ i, k ≤ i → i < k + n → ¬ P i) ∧ scanBlockLoop m filename n si = none := by
  induction n with
  | zero => exact fun _ _ => Or.inr ⟨fun i hlo hhi => by omega, rfl⟩
  | succ n ih =>
      intro k si hsi htest
      have hfirst := htest 0 (by omega)
      rw [Nat.mul_zero, Nat.add_zero, Nat.add_zero] at hfirst
      rw [scanBlockLoop]
      by_cases hP : P k
      · rw [if_pos (hfirst.mpr hP)]
        exact Or.inl ⟨0, by omega, hP, fun i hlo hhi => by omega, rfl⟩
      · rw [if_neg fun h => hP (hfirst.mp h)]
        -- nothing is tested behind the last entry, where `si` may wrap around
        by_cases hn : n = 0
        · subst hn
          refine Or.inr ⟨fun i hlo hhi => ?_, rfl⟩
          obtain rfl : i = k := by omega
          exact hP
        · have hnext : (si + 256) % 2 ^ 16 = si + 256 := Nat.mod_eq_of_lt (by omega)
          have hrest := @ih (k + 1) (si + 256) (by omega) (by
            intro j hj
            have := htest (j + 1) (by omega)
            rwa [show si + 256 * (j + 1) = si + 256 + 256 * j by omega,
              show k + (j + 1) = k + 1 + j by omega] at this)
          rw [hnext]
          rcases hrest with ⟨j, hj, hPj, hbefore, hrun⟩ | ⟨hnone, hrun⟩
          · refine Or.inl ⟨j + 1, by omega, ?_, fun i hlo hhi => ?_, ?_⟩
            · rwa [show k + (j + 1) = k + 1 + j by omega]
            · by_cases hi : i = k
              · rwa [hi]
              · exact hbefore i (by omega) (by omega)
            · rw [hrun]
              exact congrArg some (by omega)
          · refine Or.inr ⟨fun i hlo hhi => ?_, hrun⟩
            by_cases hi : i = k
            · rwa [hi]
            · exact hnone i (by omega) (by omega)

/-! ## Blocks of the directory -/

/-- The blocks that the scan reads when it does not find the name: at least one, and no more than
one when the size of the directory reads as a negative number. -/
def scannedBlocks (g : Geometry) : Nat := if u32 g.dirsize < 2 ^ 31 then max 1 (u32 g.dirsize) else 1

theorem scannedBlocks_lt (g : Geometry) : scannedBlocks g < 2 ^ 31 := by
  unfold scannedBlocks
  split <;> omega

/-- The loop leaves after the last block that is scanned: its counter is compared as a signed word. -/
theorem scan_exit_iff {g : Geometry} {k n : Nat} (hk : k + (n + 1) = scannedBlocks g) :
    s32 (layoutOf g).directory_size ≤ s32 (k + 1) ↔ n = 0 := by
  have hsize : (layoutOf g).directory_size = u32 g.dirsize := rfl
  have hlt := u32_lt g.dirsize
  unfold scannedBlocks at hk
  rw [hsize]
  unfold s32
  split at hk
  · rename_i hpositive
    rw [if_pos hpositive]
    split <;> omega
  · -- a size that is negative as a signed word: one block is scanned, and no more
    rename_i hnegative
    rw [if_neg hnegative]
    split <;> omega

/-- `read_block` delivers the blocks of the directory to the buffer. A block number has 32 bits. -/
def DeliversDirectory (read_block : ReadBlock) (g : Geometry) (img : Image) : Prop :=
  ∀ k, k < scannedBlocks g → ∀ m, ∃ m', read_block (u32 (g.dirstart + k)) DISK_BUFFER m = some m' ∧
    Arrives g img (g.dirstart + k) DISK_BUFFER m m'

/-- The entries of a block. -/
theorem BootBlocks.entriesPerBlock {g : Geometry} (h : BootBlocks g.bytesperblock) :
    (layoutOf g).entries_per_block = g.entriesPerBlock ∧
      256 * g.entriesPerBlock = g.bytesperblock ∧ 8 ≤ g.entriesPerBlock := by
  have haligned := h.aligned
  have hlow := h.low
  have hhigh := h.high
  simp only [layoutOf, Geometry.entriesPerBlock, Geometry.sectorsPerBlock, BYTES_PER_SECT,
    ENTRIES_PER_SECT]
  omega

/-- The place of an entry in its block. -/
theorem BootBlocks.entryLoc_eq {g : Geometry} (h : BootBlocks g.bytesperblock) (k j : Nat) :
    g.entryLoc (k * g.entriesPerBlock + j) = g.blockLoc (g.dirstart + k) + 256 * j := by
  obtain ⟨-, hbytes, -⟩ := h.entriesPerBlock
  rw [Geometry.entryLoc, Geometry.blockLoc, ENTRY_SIZE]
  calc g.dirstart * g.bytesperblock + (k * g.entriesPerBlock + j) * 256
      = g.dirstart * g.bytesperblock + k * (256 * g.entriesPerBlock) + 256 * j := by ring
    _ = (g.dirstart + k) * g.bytesperblock + 256 * j := by rw [hbytes, ← Nat.add_mul]

section Scan

variable {read_block : ReadBlock} {g : Geometry} {img : Image} (filename : Filename)
  (h : BootBlocks g.bytesperblock)
include h

/-- The scan of block `k`. -/
theorem scanBlock_first {k : Nat} {m m' : Mem}
    (harrive : Arrives g img (g.dirstart + k) DISK_BUFFER m m') :
    (∃ j, j < g.entriesPerBlock ∧ Compared filename (slot g img (k * g.entriesPerBlock + j)) ∧
      (∀ i, k * g.entriesPerBlock ≤ i → i < k * g.entriesPerBlock + j →
        ¬ Compared filename (slot g img i)) ∧
      scanBlockLoop m' filename g.entriesPerBlock DISK_BUFFER = some (DISK_BUFFER + 256 * j)) ∨
    (∀ i, k * g.entriesPerBlock ≤ i → i < k * g.entriesPerBlock + g.entriesPerBlock →
      ¬ Compared filename (slot g img i)) ∧
      scanBlockLoop m' filename g.entriesPerBlock DISK_BUFFER = none := by
  have hhigh := h.high
  obtain ⟨-, hbytes, -⟩ := h.entriesPerBlock
  have hbuffer : DISK_BUFFER + 256 * g.entriesPerBlock ≤ 2 ^ 16 := by
    unfold DISK_BUFFER
    omega
  refine scanBlockLoop_first (P := fun i => Compared filename (slot g img i)) g.entriesPerBlock hbuffer
    fun j hj => ?_
  have hloc := h.entryLoc_eq k j
  refine entry_test (by unfold DISK_BUFFER; omega) fun o ho => ?_
  rw [hloc, Nat.add_assoc, Nat.add_assoc]
  exact Mem.eq_of_read_eq harrive.bytes (by omega)

/-- The byte that the type is tested in. -/
theorem type_byte {k j : Nat} {m m' : Mem} (hj : j < g.entriesPerBlock)
    (harrive : Arrives g img (g.dirstart + k) DISK_BUFFER m m') :
    m' ((DISK_BUFFER + 256 * j + 8) % 2 ^ 16)
      = (slot g img (k * g.entriesPerBlock + j)).type := by
  have hhigh := h.high
  obtain ⟨-, hbytes, -⟩ := h.entriesPerBlock
  have hloc := h.entryLoc_eq k j
  have haddr : (DISK_BUFFER + 256 * j + 8) % 2 ^ 16 = DISK_BUFFER + (256 * j + 8) := by
    unfold DISK_BUFFER
    omega
  rw [haddr, slot, Entry.decode, hloc, Nat.add_assoc]
  exact Mem.eq_of_read_eq harrive.bytes (by omega)

/-- **The scan** from block `k` on ends at the first entry with the name. -/
theorem scanLoop_first (hread : DeliversDirectory read_block g img) (n : Nat) :
    ∀ {k fuel : Nat} (m : Mem), k + n = scannedBlocks g → 0 < n → n ≤ fuel →
      ∃ r m', scanLoop read_block (layoutOf g) filename fuel (u32 (g.dirstart + k)) k m
          = some (r, m') ∧
        ((∃ i, i < scannedBlocks g * g.entriesPerBlock ∧ Compared filename (slot g img i) ∧
          (∀ j, k * g.entriesPerBlock ≤ j → j < i → ¬ Compared filename (slot g img j)) ∧
          r.map (entryNumber g) = if (slot g img i).type = FILE_TYPE then some i else none) ∨
        (∀ i, k * g.entriesPerBlock ≤ i → i < scannedBlocks g * g.entriesPerBlock →
          ¬ Compared filename (slot g img i)) ∧ r = none) := by
  obtain ⟨hepb, -, hpos⟩ := h.entriesPerBlock
  have hscanned := scannedBlocks_lt g
  induction n with
  | zero =>
      intro k fuel m _ hn
      omega
  | succ n ih =>
      intro k fuel m hk _ hfuel
      obtain ⟨fuel, rfl⟩ : ∃ f, fuel = f + 1 := ⟨fuel - 1, by omega⟩
      obtain ⟨m₁, hrun₁, harrive⟩ := hread k (by omega) m
      have hle : (k + 1) * g.entriesPerBlock ≤ scannedBlocks g * g.entriesPerBlock :=
        Nat.mul_le_mul_right _ (by omega)
      -- `hbefore` and `hnone` speak about this block only, `ih` about the blocks after it
      have hblock := scanBlock_first filename h harrive
      rw [Nat.succ_mul] at hle
      rw [scanLoop]
      simp only [hrun₁, hepb]
      rw [if_neg (by omega)]
      rcases hblock with ⟨j, hj, hnamed, hbefore, hloop⟩ | ⟨hnone, hloop⟩
      · simp only [hloop]
        rw [type_byte h hj harrive]
        have hnumber : entryNumber g (k, DISK_BUFFER + 256 * j) = k * g.entriesPerBlock + j := by
          rw [entryNumber, Nat.add_sub_cancel_left, Nat.mul_div_cancel_left j (by decide)]
        -- the entry with the name decides, also when it is no file
        by_cases htype : (slot g img (k * g.entriesPerBlock + j)).type = 0
        · rw [if_pos htype]
          refine ⟨_, _, rfl, Or.inl ⟨_, by omega, hnamed, hbefore, ?_⟩⟩
          rw [Option.map_some, hnumber, FILE_TYPE, if_pos htype]
        · rw [if_neg htype]
          refine ⟨_, _, rfl, Or.inl ⟨_, by omega, hnamed, hbefore, ?_⟩⟩
          rw [Option.map_none, FILE_TYPE, if_neg htype]
      · simp only [hloop]
        have hcount : u32 (k + 1) = k + 1 := u32_of_lt (by omega)
        have hdirectory : u32 (u32 (g.dirstart + k) + 1) = u32 (g.dirstart + (k + 1)) := by
          unfold u32
          omega
        have hexit := scan_exit_iff hk
        rw [hcount, hdirectory]
        by_cases hn : n = 0
        · rw [if_pos (hexit.mpr hn)]
          refine ⟨_, _, rfl, Or.inr ⟨fun i hlo hhi => hnone i hlo ?_, rfl⟩⟩
          have hlast : scannedBlocks g = k + 1 := by omega
          rw [hlast, Nat.succ_mul] at hhi
          exact hhi
        · rw [if_neg fun hle => hn (hexit.mp hle)]
          obtain ⟨r, m₂, hrun₂, hrest⟩ := @ih (k + 1) fuel m₁ (by omega) (by omega) (by omega)
          refine ⟨r, m₂, hrun₂, ?_⟩
          rw [Nat.succ_mul] at hrest
          rcases hrest with ⟨i, hi, hnamed, hbefore, hr⟩ | ⟨hafter, hr⟩
          · refine Or.inl ⟨i, hi, hnamed, fun j hlo hhi => ?_, hr⟩
            by_cases hj : j < k * g.entriesPerBlock + g.entriesPerBlock
            · exact hnone j hlo hj
            · exact hbefore j (by omega) hhi
          · refine Or.inr ⟨fun i hlo hhi => ?_, hr⟩
            by_cases hi : i < k * g.entriesPerBlock + g.entriesPerBlock
            · exact hnone i hlo hi
            · exact hafter i (by omega) hhi

end Scan

/-! ## Agreement with `search` -/

/-- The first slot of the directory that the scan takes for the file. -/
def FirstCompared (g : Geometry) (img : Image) (filename : Filename) (i : Nat) : Prop :=
  Compared filename (slot g img i) ∧ ∀ j, j < i → ¬ Compared filename (slot g img j)

theorem FirstCompared.unique {g : Geometry} {img : Image} {filename : Filename} {i j : Nat}
    (hi : FirstCompared g img filename i) (hj : FirstCompared g img filename j) : i = j := by
  by_contra hne
  rcases Nat.lt_or_gt_of_ne hne with hlt | hlt
  · exact hj.2 i hlt hi.1
  · exact hi.2 j hlt hj.1

/-- A file of the root with the name. -/
def IsFile (filename : Filename) (e : Entry) : Prop := Named filename e ∧ e.type = FILE_TYPE

/-- The first slot of the directory with a file of the root that has the name. -/
def FirstFile (g : Geometry) (img : Image) (filename : Filename) (i : Nat) : Prop :=
  IsFile filename (slot g img i) ∧ ∀ j, j < i → ¬ IsFile filename (slot g img j)

/-- The directories on which the scan and `search` agree. Either the first slot of the root with the
four bytes is the first file with the name, among the used entries `es` and in the blocks that are
scanned; or none of the used entries is a file of the root with the name, there is a free slot behind
them, and the first slot with the four bytes, if there is one, is no file. -/
def SameChoice (g : Geometry) (img : Image) (es : List Entry) (filename : Filename) : Prop :=
  (∃ i, i < es.length ∧ i < scannedBlocks g * g.entriesPerBlock ∧ FirstCompared g img filename i ∧
    FirstFile g img filename i) ∨
  (∀ e ∈ es, ¬ IsFile filename e) ∧ es.length < g.entries ∧
    ∀ i, i < scannedBlocks g * g.entriesPerBlock → FirstCompared g img filename i →
      (slot g img i).type ≠ FILE_TYPE

section Agreement

variable {g : Geometry} {img : Image} {es : List Entry} (hes : Listed g img es)
  {filename : Filename}
include hes

theorem slot_listed {i : Nat} {e : Entry} (he : es[i]? = some e) : slot g img i = e :=
  hes.stored i e he

/-- The first file with the name among the used entries is what `lookup` finds. -/
theorem lookup_first_iff {i : Nat} : lookup es filename.val ROOT_ID FILE_TYPE = some i ↔
    i < es.length ∧ FirstFile g img filename i := by
  have hslot : ∀ j (hj : j < es.length), slot g img j = es[j] := fun j hj =>
    slot_listed hes (List.getElem?_eq_getElem hj)
  rw [lookup, List.findIdx?_eq_some_iff_getElem]
  simp only [decide_eq_true_eq]
  constructor
  · rintro ⟨hi, hmatch, hbefore⟩
    refine ⟨hi, ?_, fun j hj hfile => hbefore j hj ?_⟩
    · rw [hslot i hi]
      exact ⟨⟨hmatch.1, hmatch.2.2⟩, hmatch.2.1⟩
    · rw [hslot j (by omega)] at hfile
      exact ⟨hfile.1.1, hfile.2, hfile.1.2⟩
  · rintro ⟨hi, hfile, hbefore⟩
    refine ⟨hi, ?_, fun j hj hmatch => hbefore j hj ?_⟩
    · rw [hslot i hi] at hfile
      exact ⟨hfile.1.1, hfile.2, hfile.1.2⟩
    · rw [hslot j (by omega)]
      exact ⟨⟨hmatch.1, hmatch.2.2⟩, hmatch.2.1⟩

end Agreement

/-- A name that no used file of the root has is not found. -/
theorem lookup_none_iff {es : List Entry} {filename : Filename} :
    lookup es filename.val ROOT_ID FILE_TYPE = none ↔ ∀ e ∈ es, ¬ IsFile filename e := by
  rw [lookup, List.findIdx?_eq_none_iff]
  simp only [decide_eq_false_iff_not]
  constructor
  · exact fun h e he hfile => h e he ⟨hfile.1.1, hfile.2, hfile.1.2⟩
  · exact fun h e he hmatch => h e he ⟨⟨hmatch.1, hmatch.2.2⟩, hmatch.2.1⟩

theorem scannedBlocks_le {g : Geometry} (hdir : 0 < g.dirsize) :
    0 < scannedBlocks g ∧ scannedBlocks g ≤ g.dirsize ∧ scannedBlocks g ≤ SCAN_BLOCKS := by
  have hle := Nat.mod_le g.dirsize (2 ^ 32)
  unfold scannedBlocks u32 SCAN_BLOCKS
  split <;> omega

/-- The scan ends at the first slot with the four bytes, and finds it if it is a file. -/
theorem scanDirectory_first {read_block : ReadBlock} {g : Geometry} {img : Image}
    (filename : Filename) (hdir : 0 < g.dirsize) (hsize : BootBlocks g.bytesperblock)
    (hread : DeliversDirectory read_block g img) (m : Mem) :
    ∃ r m', scanDirectory read_block (layoutOf g) filename m = some (r, m') ∧
      ((∃ i, i < scannedBlocks g * g.entriesPerBlock ∧ FirstCompared g img filename i ∧
        r.map (entryNumber g) = if (slot g img i).type = FILE_TYPE then some i else none) ∨
      (∀ i, i < scannedBlocks g * g.entriesPerBlock → ¬ Compared filename (slot g img i)) ∧
        r = none) := by
  obtain ⟨hpos, -, hrounds⟩ := scannedBlocks_le hdir
  have hrun := scanLoop_first filename hsize hread (scannedBlocks g) m
    (Nat.zero_add _) hpos hrounds
  simp only [Nat.zero_mul, Nat.zero_le, true_implies] at hrun
  obtain ⟨r, m', hscan, hfound⟩ := hrun
  refine ⟨r, m', hscan, hfound.imp_left ?_⟩
  rintro ⟨i, hi, hnamed, hbefore, hr⟩
  exact ⟨i, hi, ⟨hnamed, hbefore⟩, hr⟩

/-- **The scan and `search`.** On every image with a sound geometry and a block size that stage 1
accepts, for every name: the scan of stage 2 ends with the entry that `search` returns for the root
and a file, and reports a missing file when `search` does, exactly when the directory is one of
`SameChoice`. -/
theorem scanDirectory_agrees_iff {read_block : ReadBlock} {g : Geometry} {img : Image}
    {es : List Entry} (hg : g.Sound) (hlen : img.length = g.imgsize)
    (hsize : BootBlocks g.bytesperblock) (hes : Listed g img es)
    (hread : DeliversDirectory read_block g img) (filename : Filename) (m : Mem) :
    (∃ r m', scanDirectory read_block (layoutOf g) filename m = some (r, m') ∧
      search g img filename.val ROOT_ID FILE_TYPE = .ok (r.map (entryNumber g))) ↔
      SameChoice g img es filename := by
  have hfits := hes.fits
  have hsearch := search_listed hg hlen hes filename.val ROOT_ID FILE_TYPE
  by_cases hempty : g.dirsize = 0
  · -- without a directory `search` aborts
    have hzero : g.entries = 0 := by rw [Geometry.entries, hempty, Nat.zero_mul]
    have hnil : es = [] := List.eq_nil_of_length_eq_zero (by omega)
    subst hnil
    rw [hzero] at hsearch
    constructor
    · rintro ⟨r, m', -, hok⟩
      rw [hok] at hsearch
      cases hsearch
    · rintro (⟨i, hi, -⟩ | ⟨-, hi, -⟩)
      · cases hi
      · rw [hzero] at hi
        cases hi
  obtain ⟨r, m', hscan, hfound⟩ := scanDirectory_first filename (Nat.pos_of_ne_zero hempty)
    hsize hread m
  simp only [hscan, Option.some.injEq, Prod.mk.injEq]
  constructor
  · rintro ⟨_, _, ⟨rfl, rfl⟩, hok⟩
    rw [hsearch] at hok
    cases hlookup : lookup es filename.val ROOT_ID FILE_TYPE with
    | some j =>
        -- a file was found, so that the scan ended at a file
        obtain ⟨hj, hfile⟩ := (lookup_first_iff hes).mp hlookup
        simp only [hlookup, Except.ok.injEq] at hok
        rcases hfound with ⟨i, hi, hfirst, hr⟩ | ⟨-, rfl⟩
        · rw [← hok] at hr
          split at hr
          · obtain rfl := Option.some.inj hr
            exact Or.inl ⟨j, hj, hi, hfirst, hfile⟩
          · cases hr
        · cases hok
    | none =>
        simp only [hlookup] at hok
        split at hok
        · rename_i hfree
          refine Or.inr ⟨lookup_none_iff.mp hlookup, hfree, fun i hi hfirst htype => ?_⟩
          rcases hfound with ⟨j, -, hfirst', hr⟩ | ⟨hnone, -⟩
          · obtain rfl := hfirst.unique hfirst'
            rw [if_pos htype, ← Except.ok.inj hok] at hr
            cases hr
          · exact hnone i hi hfirst.1
        · cases hok
  · rintro (⟨i, hlt, hi, hfirst, hfile⟩ | ⟨hnone, hfree, hother⟩)
    · refine ⟨r, m', ⟨rfl, rfl⟩, ?_⟩
      rw [hsearch, (lookup_first_iff hes).mpr ⟨hlt, hfile⟩]
      rcases hfound with ⟨j, -, hfirst', hr⟩ | ⟨habsent, -⟩
      · obtain rfl := hfirst.unique hfirst'
        rw [hr, if_pos hfile.1.2]
      · exact absurd hfirst.1 (habsent i hi)
    · refine ⟨r, m', ⟨rfl, rfl⟩, ?_⟩
      rw [hsearch, lookup_none_iff.mpr hnone]
      simp only [if_pos hfree]
      rcases hfound with ⟨i, hi, hfirst, hr⟩ | ⟨-, rfl⟩
      · rw [hr, if_neg (hother i hi hfirst)]
      · rfl

/-! ### On a volume -/

/-- `echfs_read_block` delivers the directory of a volume with blocks of at most 8 KiB. -/
theorem BootVolume.deliversDirectory {g : Geometry} {img : Image} {partition_lba : Nat} {disk : Mem}
    (h : BootVolume g img partition_lba disk) {bios : Bios} (hbios : bios.Reads disk)
    (hdir : 0 < g.dirsize) (hsmall : g.bytesperblock ≤ 8192) :
    DeliversDirectory (echfsReadBlock bios partition_lba (g.bytesperblock / 512)) g img := by
  intro k hk
  obtain ⟨-, hle, -⟩ := scannedBlocks_le hdir
  have hdata := h.sound.datastart_le
  rw [h.sound.datastart_eq, ← h.sound.dirstart_eq] at hdata
  have hblock : g.dirstart + k < g.blocks := by omega
  have hblocks : g.blocks * 4 ≤ g.blocks * (g.bytesperblock / 512) :=
    Nat.mul_le_mul_left _ (by have := h.size.low; omega)
  have hlba := h.lba
  rw [u32_of_lt (by omega)]
  exact h.delivers_buffer hbios hblock (sameChunks_small _ _ hsmall)

/-- The key of an entry says whether it is the file. -/
theorem isFile_iff {filename : Filename} {e : Entry} :
    IsFile filename e ↔ e.key = (ROOT_ID, FILE_TYPE, filename.val) := by
  rw [Entry.key, Prod.mk.injEq, Prod.mk.injEq, IsFile, Named, and_assoc,
    and_comm (a := e.name.cstr = filename.val)]

/-- The slots of a stocked volume. -/
theorem slot_key {g : Geometry} {img : Image} {es : List Entry} (hvol : Volume g img es) {i : Nat}
    {key : UInt64 × UInt8 × List UInt8} (hkey : (es.map Entry.key)[i]? = some key) :
    (slot g img i).key = key := by
  rw [List.getElem?_map, Option.map_eq_some_iff] at hkey
  obtain ⟨e, he, rfl⟩ := hkey
  rw [slot_listed hvol.table.listed he]

/-- A slot of a stocked volume that the scan takes for the file is among the used ones. -/
theorem not_compared_of_keys {g : Geometry} {img : Image}
    {keys : List (UInt64 × UInt8 × List UInt8)} {free : Nat} (h : Stocked g img keys free)
    {filename : Filename} (hlong : 3 ≤ filename.val.length) {i : Nat} (hi : i < g.entries)
    (hkeys : ∀ key ∈ keys, ¬ (key.1 = ROOT_ID ∧
      (key.2.2 ++ [0]).take 4 = (filename.val ++ [0]).take 4)) :
    ¬ Compared filename (slot g img i) := by
  obtain ⟨es, hvol, rfl⟩ := h.volume
  rw [compared_iff hlong]
  by_cases hused : i < es.length
  · rw [slot_listed hvol.table.listed (List.getElem?_eq_getElem hused)]
    exact hkeys _ (List.mem_map.mpr ⟨_, List.getElem_mem hused, rfl⟩)
  · rintro ⟨hroot, -⟩
    rw [slot, hvol.table.unused i (not_lt.mp hused) hi] at hroot
    cases hroot

/-- A volume of 40 blocks of 2048 bytes. -/
def bootImage : Image := freshImage 40 2048

theorem bootImage_fresh : Fresh (volumeOf 40 2048) bootImage :=
  freshImage_fresh 40 2048 (by decide) (by decide) (by decide) (by decide) (by decide)

theorem volumeOf_boot {img : Image} (h : Formatted (volumeOf 40 2048) img) :
    BootVolume (volumeOf 40 2048) img 0 img.byte where
  sound := h.sound
  size := by constructor <;> decide
  length := h.length_eq
  lba := by decide
  holds := fun a _ => congrArg img.byte (by omega)

/-- The name `winkle`. -/
def winkle : CString := ⟨[119, 105, 110, 107, 108, 101], by decide⟩

/-- Behind a directory of another name, and in front of `winkle`, both find `winkern`. -/
theorem scanDirectory_agrees_winkern : ∃ img₁ img₂ img₃,
    mkdirCmd (volumeOf 40 2048) 0 [[100]] bootImage = (.ok .created, img₁) ∧
    importCmd (volumeOf 40 2048) (fun _ => ⟨true, some [1, 2, 3]⟩) (fun _ => 0)
      (List.replicate 2048 0) [[115], kernelFilename.val] img₁ = (.ok .imported, img₂) ∧
    importCmd (volumeOf 40 2048) (fun _ => ⟨true, some [4]⟩) (fun _ => 0) (List.replicate 2048 0)
      [[115], winkle.val] img₂ = (.ok .imported, img₃) ∧
    ∃ r m', scanDirectory (echfsReadBlock (diskBios img₃.byte) 0 4) (layoutOf (volumeOf 40 2048))
        kernelFilename (fun _ => 0) = some (r, m') ∧
      search (volumeOf 40 2048) img₃ kernelFilename.val ROOT_ID FILE_TYPE
        = .ok (r.map (entryNumber (volumeOf 40 2048))) := by
  have hbuf : (List.replicate 2048 (0 : UInt8)).length = (volumeOf 40 2048).bytesperblock :=
    List.length_replicate
  obtain ⟨img₁, hmkdir, -, hstock₁⟩ := bootImage_fresh.stocked.mkdir ⟨[100], by decide⟩ (by decide)
    (by decide) (by decide) (by decide)
  obtain ⟨img₂, himport₂, -, -, hstock₂⟩ := hstock₁.import ⟨kernelFilename.val, by decide⟩
    (by decide) (by decide) (by decide) ⟨[115], by decide⟩ [1, 2, 3] hbuf (by decide) (by decide)
  obtain ⟨img₃, himport₃, -, -, hstock₃⟩ := hstock₂.import winkle (by decide) (by decide)
    (by decide) ⟨[115], by decide⟩ [4] hbuf (by decide) (by decide)
  refine ⟨img₁, img₂, img₃, hmkdir, himport₂, himport₃, ?_⟩
  obtain ⟨es, hvol, hkeys⟩ := hstock₃.volume
  have hlength : es.length = 3 := by
    rw [← List.length_map (f := Entry.key), hkeys]
    rfl
  have hboot := volumeOf_boot hvol.formatted
  have hslot : ∀ {i : Nat} {key : UInt64 × UInt8 × List UInt8}, (es.map Entry.key)[i]? = some key →
      (slot (volumeOf 40 2048) img₃ i).key = key := fun hkey => slot_key hvol hkey
  rw [hkeys] at hslot
  have hzero := hslot (i := 0) rfl
  have hfile : IsFile kernelFilename (slot (volumeOf 40 2048) img₃ 1) :=
    isFile_iff.mpr (hslot (i := 1) rfl)
  refine (scanDirectory_agrees_iff hboot.sound hboot.length hboot.size hvol.table.listed
    (hboot.deliversDirectory (diskBios_reads _) (by decide) (by decide)) kernelFilename _).mpr
    (Or.inl ⟨1, by omega, by decide, ⟨hfile.1.compared (by decide), fun j hj hcompared => ?_⟩,
      hfile, fun j hj hfile₀ => ?_⟩)
  · obtain rfl : j = 0 := by omega
    rw [compared_iff (by decide), (Prod.mk.inj (Prod.mk.inj hzero).2).2] at hcompared
    exact absurd hcompared.2 (by decide)
  · obtain rfl : j = 0 := by omega
    rw [isFile_iff, hzero] at hfile₀
    exact absurd hfile₀ (by decide)

/-- With `winkle` in front of it the scan takes `winkle` for `winkern`. -/
theorem scanDirectory_picks_winkle : ∃ img₁ img₂,
    importCmd (volumeOf 40 2048) (fun _ => ⟨true, some [4]⟩) (fun _ => 0) (List.replicate 2048 0)
      [[115], winkle.val] bootImage = (.ok .imported, img₁) ∧
    importCmd (volumeOf 40 2048) (fun _ => ⟨true, some [1, 2, 3]⟩) (fun _ => 0)
      (List.replicate 2048 0) [[115], kernelFilename.val] img₁ = (.ok .imported, img₂) ∧
    search (volumeOf 40 2048) img₂ kernelFilename.val ROOT_ID FILE_TYPE = .ok (some 1) ∧
    ∃ r m', scanDirectory (echfsReadBlock (diskBios img₂.byte) 0 4) (layoutOf (volumeOf 40 2048))
        kernelFilename (fun _ => 0) = some (r, m') ∧
      r.map (entryNumber (volumeOf 40 2048)) = some 0 := by
  have hbuf : (List.replicate 2048 (0 : UInt8)).length = (volumeOf 40 2048).bytesperblock :=
    List.length_replicate
  obtain ⟨img₁, himport₁, -, -, hstock₁⟩ := bootImage_fresh.stocked.import winkle (by decide)
    (by decide) (by decide) ⟨[115], by decide⟩ [4] hbuf (by decide) (by decide)
  obtain ⟨img₂, himport₂, -, -, hstock₂⟩ := hstock₁.import ⟨kernelFilename.val, by decide⟩
    (by decide) (by decide) (by decide) ⟨[115], by decide⟩ [1, 2, 3] hbuf (by decide) (by decide)
  refine ⟨img₁, img₂, himport₁, himport₂, ?_⟩
  obtain ⟨es, hvol, hkeys⟩ := hstock₂.volume
  have hlength : es.length = 2 := by
    rw [← List.length_map (f := Entry.key), hkeys]
    rfl
  have hboot := volumeOf_boot hvol.formatted
  have hslot : ∀ {i : Nat} {key : UInt64 × UInt8 × List UInt8}, (es.map Entry.key)[i]? = some key →
      (slot (volumeOf 40 2048) img₂ i).key = key := fun hkey => slot_key hvol hkey
  rw [hkeys] at hslot
  have hzero := hslot (i := 0) rfl
  obtain ⟨hroot, hrest⟩ := Prod.mk.inj hzero
  obtain ⟨htype, hname⟩ := Prod.mk.inj hrest
  have hfirst : FirstCompared (volumeOf 40 2048) img₂ kernelFilename 0 := by
    refine ⟨(compared_iff (by decide)).mpr ⟨hroot, ?_⟩, fun j hj => absurd hj (Nat.not_lt_zero j)⟩
    rw [hname]
    decide
  constructor
  · have hlookup : lookup es kernelFilename.val ROOT_ID FILE_TYPE = some 1 := by
      rw [lookup_first_iff hvol.table.listed]
      refine ⟨by omega, isFile_iff.mpr (hslot (i := 1) rfl), fun j hj hfile => ?_⟩
      obtain rfl : j = 0 := by omega
      rw [isFile_iff, hzero] at hfile
      exact absurd hfile (by decide)
    rw [search_listed hboot.sound hboot.length hvol.table.listed, hlookup]
  · obtain ⟨r, m', hscan, hfound⟩ := scanDirectory_first kernelFilename (g := volumeOf 40 2048)
      (by decide) hboot.size
      (hboot.deliversDirectory (diskBios_reads _) (by decide) (by decide)) (fun _ => 0)
    refine ⟨r, m', hscan, ?_⟩
    rcases hfound with ⟨i, -, hfirst', hr⟩ | ⟨hnone, -⟩
    · obtain rfl := hfirst.unique hfirst'
      rw [hr, if_pos htype]
    · exact absurd hfirst.1 (hnone 0 (by decide))

end Windozz.Bootmgr

import Windozz.Bootmgr.Detect
import Windozz.Bootmgr.EchfsLoad

set_option autoImplicit false

/-! # The boot sectors

From the firmware to the kernel: the boot record of the disk relocates itself and loads the boot
sector of the first active partition; the boot sector of the volume relocates itself, too, and
loads the blocks behind it, where the boot manager is; the boot manager loads the kernel.

Each stage is a function on memory, and hands the entry of its partition to the next. The boot
manager is copied to sector 4 of the volume, which is where the boot sector looks for it when the
blocks have 2048 bytes; on such a volume the stages end with the kernel in memory that was imported
(`disk_boots`).
-/

namespace Windozz.Bootmgr

open Relation Echfs

/-! ## The stages -/

/-- How a stage ends without the next one. -/
inductive BootStop where
  | diskError
  | noBoot
  | badBlockSize
  | corrupt
  | badFs
  | load (e : LoadStop)

/-- What is printed before the machine is halted. -/
def BootStop.message : BootStop → Option String
  | .diskError => some "Disk I/O error."
  | .noBoot => some "No active partition."
  | .badBlockSize => some "Block size must be >=2048."
  | .corrupt => some "Boot manager is corrupt."
  | .badFs => some "unsupported filesystem."
  | .load e => e.message

/-- `test byte[si], 0x80`. -/
def active (x : UInt8) : Bool := x &&& 0x80 != 0

/-- The loop over the entries from `si` on. -/
def partitionLoop (m : Mem) : Nat → Nat → Option Nat
  | 0, _ => none
  | cx + 1, si => if active (m si) then some si else partitionLoop m cx (si + 16)

/-- `main` of `mbr.asm`, with the boot record at `0x7C00`: the address of the partition entry, and the
memory when the boot sector is entered. -/
def mbrMain (bios : Bios) (m : Mem) : Except BootStop (Nat × Mem) :=
  let m := repMovsb 512 0x7C00 0x600 m
  if bios.reset = false then .error .diskError
  else
    match partitionLoop m 4 (0x600 + 0x1BE) with
    | none => .error .noBoot
    | some si =>
        match bios.read (dword m (si + 8)) 1 with
        | none => .error .diskError
        | some sector => .ok (si, m.write 0x7C00 sector)

/-- The magic number of the boot manager. -/
def WNDZ : List UInt8 := [0x57, 0x4E, 0x44, 0x5A]

/-- The field `lba` of a partition entry. -/
def entryLba (entry : List UInt8) : Nat := ofLE ((entry.drop 8).take 4)

/-- `main` of `stage1/echfs.asm`, with the boot sector at `0x7C00` and the partition entry at `si`: the
entry, and the memory when the boot manager is entered. -/
def stage1Main (bios : Bios) (si : Nat) (m : Mem) : Except BootStop (List UInt8 × Mem) :=
  let m := repMovsb 512 0x7C00 0x40000 m
  let boot_partition := m.read si 16
  let ax := word m (0x40000 + 28)
  -- the comparison is signed
  if ax < 2048 ∨ 2 ^ 15 ≤ ax then .error .badBlockSize
  else
    let sectors := u16 (ax / 2 ^ 9 * 15)
    let lba := u32 (dword m (0x40000 + 28) / 2 ^ 9 + entryLba boot_partition)
    if bios.reset = false then .error .diskError
    else
      match bios.read lba sectors with
      | none => .error .diskError
      | some blocks =>
          let m := m.write 0x1000 blocks
          if m.read 0x1000 4 = WNDZ then .ok (boot_partition, m) else .error .corrupt

/-- `.load_hdd` in `start` of the boot manager, with the partition entry that `start` was given. -/
def loadHdd (bios : Bios) (fuel : Nat) (partition : List UInt8) (m : Mem) :
    Except BootStop (List Nat × Mem) :=
  if partition.getD 4 0 ≠ 0xF3 then .error .badFs
  else
    match echfsLoad bios (entryLba partition) fuel kernelFilename 0x100000 m with
    | .error e => .error (.load e)
    | .ok loaded => .ok loaded

/-! ## Relocation -/

/-- `rep movsb` between two ranges apart. -/
theorem repMovsb_moved {src dst n : Nat} (m : Mem) (hsrc : src + n ≤ 2 ^ 32)
    (hdst : dst + n ≤ 2 ^ 32) (hpos : 0 < n) (hapart : dst + n ≤ src ∨ src + n ≤ dst) :
    (∀ i, i < n → repMovsb n src dst m (dst + i) = m (src + i)) ∧
      ∀ a, (a < dst ∨ dst + n ≤ a) → repMovsb n src dst m a = m a := by
  have hword : ∀ i, i < n → u32 (dst + i) = dst + i := fun i hi => u32_of_lt (by omega)
  have hcopies := repMovsb_copies n src dst m (by omega) hsrc fun i j hi hj => by
    rw [hword i hi]
    omega
  refine ⟨fun i hi => ?_, fun a ha => hcopies.frame a fun i hi => ?_⟩
  · rw [← hword i hi]
    exact hcopies.copied i hi
  · rw [hword i hi]
    omega

/-! ## The boot record -/

/-- Entry `k` of the partition table of a disk. -/
def partitionAt (disk : Mem) (k : Nat) : List UInt8 := disk.read (0x1BE + 16 * k) 16

/-- Entry `k` is the first that is active. -/
structure FirstActive (disk : Mem) (k : Nat) : Prop where
  lt : k < 4
  active : active (disk (0x1BE + 16 * k)) = true
  inactive : ∀ j, j < k → Bootmgr.active (disk (0x1BE + 16 * j)) = false

/-- The services read up to 127 sectors at once, which is what the extensions promise. -/
structure Bios.ReadsMany (bios : Bios) (disk : Mem) : Prop where
  reset : bios.reset = true
  read : ∀ lba n, n ≤ 127 → bios.read lba n = some (disk.read (512 * lba) (512 * n))

theorem Bios.ReadsMany.reads {bios : Bios} {disk : Mem} (h : bios.ReadsMany disk) :
    bios.Reads disk := ⟨h.reset, fun lba n hn => h.read lba n (by omega)⟩

/-- The loop stops at the first active entry. -/
theorem partitionLoop_first {m : Mem} (k : Nat) : ∀ {cx si : Nat}, k < cx →
    (∀ j, j < k → active (m (si + 16 * j)) = false) → active (m (si + 16 * k)) = true →
    partitionLoop m cx si = some (si + 16 * k) := by
  induction k with
  | zero =>
      intro cx si hlt _ hactive
      obtain ⟨cx, rfl⟩ := Nat.exists_eq_succ_of_ne_zero (Nat.ne_of_gt hlt)
      rw [partitionLoop]
      exact if_pos hactive
  | succ k ih =>
      intro cx si hlt hbefore hactive
      obtain ⟨cx, rfl⟩ := Nat.exists_eq_succ_of_ne_zero (show cx ≠ 0 by omega)
      have hfirst : active (m si) = false := hbefore 0 (Nat.succ_pos k)
      have hshift : ∀ j, si + 16 + 16 * j = si + 16 * (j + 1) := fun j => by omega
      have hrest := @ih cx (si + 16) (by omega)
      simp only [hshift] at hrest
      rw [partitionLoop, if_neg (by simp [hfirst])]
      exact hrest (fun j hj => hbefore (j + 1) (by omega)) hactive

/-- Without an active entry nothing is loaded. -/
theorem partitionLoop_none {m : Mem} (cx : Nat) : ∀ {si : Nat},
    (∀ j, j < cx → active (m (si + 16 * j)) = false) → partitionLoop m cx si = none := by
  induction cx with
  | zero => exact fun _ => rfl
  | succ cx ih =>
      intro si hnone
      have hfirst : active (m si) = false := hnone 0 (Nat.succ_pos cx)
      rw [partitionLoop, if_neg (by simp [hfirst])]
      apply ih
      intro j hj
      have hnext := hnone (j + 1) (by omega)
      rwa [show si + 16 + 16 * j = si + 16 * (j + 1) by omega]

section Stages

variable {bios : Bios} {disk : Mem} (hbios : bios.ReadsMany disk)
include hbios

/-- The boot record loads the boot sector of the first active partition, and keeps its entry. -/
theorem mbrMain_loads {k : Nat} (hk : FirstActive disk k) {m : Mem}
    (hm : m.read 0x7C00 512 = disk.read 0 512) :
    ∃ si m', mbrMain bios m = .ok (si, m') ∧ si + 16 ≤ 0x800 ∧
      m'.read si 16 = partitionAt disk k ∧
      m'.read 0x7C00 512 = disk.read (512 * entryLba (partitionAt disk k)) 512 := by
  obtain ⟨hmoved, -⟩ := @repMovsb_moved 0x7C00 0x600 512 m (by decide) (by decide) (by decide)
    (Or.inl (by decide))
  have hk4 := hk.lt
  set m₁ := repMovsb 512 0x7C00 0x600 m with hm₁
  have hrecord : ∀ i, i < 512 → m₁ (0x600 + i) = disk i := by
    intro i hi
    rw [hmoved i hi, Mem.eq_of_read_eq hm hi, Nat.zero_add]
  have htable : ∀ j, j < 32 * 2 → m₁ (0x600 + 0x1BE + j) = disk (0x1BE + j) := by
    intro j hj
    rw [Nat.add_assoc, hrecord _ (by omega)]
  have hloop : partitionLoop m₁ 4 (0x600 + 0x1BE) = some (0x600 + 0x1BE + 16 * k) := by
    apply partitionLoop_first k hk.lt
    · intro j hj
      rw [htable _ (by omega)]
      exact hk.inactive j hj
    · rw [htable _ (by omega)]
      exact hk.active
  have hentry : m₁.read (0x600 + 0x1BE + 16 * k) 16 = partitionAt disk k := by
    refine Mem.read_congr fun i hi => ?_
    rw [Nat.add_assoc (0x600 + 0x1BE), htable _ (by omega), Nat.add_assoc]
  have hlba : dword m₁ (0x600 + 0x1BE + 16 * k + 8) = entryLba (partitionAt disk k) := by
    rw [entryLba, ← hentry, dword]
    have hsplit := Mem.read_add m₁ (0x600 + 0x1BE + 16 * k) 8 8
    rw [hsplit, List.drop_left' (Mem.read_length _ _ _), Mem.read_take _ _ (by decide)]
  refine ⟨0x600 + 0x1BE + 16 * k,
    m₁.write 0x7C00 (disk.read (512 * entryLba (partitionAt disk k)) 512), ?_, by omega, ?_, ?_⟩
  · rw [mbrMain]
    simp only [← hm₁, hbios.reset, hloop, hlba, hbios.read _ 1 (by decide), Bool.true_eq_false,
      if_false, Nat.mul_one]
  · rw [← hentry]
    apply Mem.read_write_disjoint
    omega
  · have hback := Mem.read_write_same m₁ 0x7C00
      (disk.read (512 * entryLba (partitionAt disk k)) 512)
    rwa [Mem.read_length] at hback

/-- Without an active partition the boot record stops. -/
theorem mbrMain_noBoot (hnone : ∀ j, j < 4 → active (disk (0x1BE + 16 * j)) = false) {m : Mem}
    (hm : m.read 0x7C00 512 = disk.read 0 512) : mbrMain bios m = .error .noBoot := by
  obtain ⟨hmoved, -⟩ := @repMovsb_moved 0x7C00 0x600 512 m (by decide) (by decide) (by decide)
    (Or.inl (by decide))
  have hloop : partitionLoop (repMovsb 512 0x7C00 0x600 m) 4 (0x600 + 0x1BE) = none := by
    apply partitionLoop_none
    intro j hj
    rw [Nat.add_assoc, hmoved _ (by omega), Mem.eq_of_read_eq hm (by omega), Nat.zero_add]
    exact hnone j hj
  rw [mbrMain]
  simp only [hbios.reset, hloop, Bool.true_eq_false, if_false]

/-- The boot sector of a volume with blocks of 2048 bytes loads what is behind the first block. -/
theorem stage1Main_loads {stage1 bootmgr entry : List UInt8} {img : Image}
    (hcode : BootCode stage1 bootmgr img) (hlen : bootmgr.length ≤ 15 * 2048)
    (hmagic : bootmgr.take 4 = WNDZ) (hsize : rdQword img 28 = 2048) {si : Nat} {m : Mem}
    (hentry : m.read si 16 = entry) (hsi : si + 16 ≤ 0x40000)
    (hsector : m.read 0x7C00 512 = img.byte.read 0 512) (hlba : entryLba entry + 64 ≤ 2 ^ 32)
    (hdisk : ∀ a, a < 16 * 2048 → disk (512 * entryLba entry + a) = img.byte a) :
    ∃ m', stage1Main bios si m = .ok (entry, m') ∧ m'.read 0x1000 bootmgr.length = bootmgr := by
  obtain ⟨hmoved, hkept⟩ := @repMovsb_moved 0x7C00 0x40000 512 m (by decide) (by decide)
    (by decide) (Or.inr (by decide))
  set m₁ := repMovsb 512 0x7C00 0x40000 m with hm₁
  have hpartition : m₁.read si 16 = entry := by
    rw [← hentry]
    exact Mem.read_congr fun i hi => hkept _ (by omega)
  -- the field of the identity table, in the copy
  have hfield : m₁.qword (0x40000 + 28) = rdQword img 28 := by
    refine Mem.qword_congr fun i hi => ?_
    rw [Nat.add_assoc, hmoved _ (by omega), Mem.eq_of_read_eq hsector (by omega), Nat.zero_add]
  rw [hsize] at hfield
  have hdword : dword m₁ (0x40000 + 28) = 2048 := by
    rw [dword_low, hfield]
    rfl
  have hword : word m₁ (0x40000 + 28) = 2048 := by
    have hsplit := Mem.read_add m₁ (0x40000 + 28) 2 2
    have hbytes : ofLE (m₁.read (0x40000 + 28) 4) = 2048 := hdword
    have hlt := ofLE_lt (m₁.read (0x40000 + 28) 2)
    rw [hsplit, ofLE_append, Mem.read_length] at hbytes
    rw [Mem.read_length] at hlt
    rw [word]
    omega
  have hread : bios.read (u32 (2048 / 2 ^ 9 + entryLba entry)) (u16 (2048 / 2 ^ 9 * 15))
      = some (disk.read (512 * (4 + entryLba entry)) (512 * 60)) := by
    rw [u32_of_lt (by omega), show 2048 / 2 ^ 9 = 4 from rfl, show u16 (4 * 15) = 60 from rfl]
    exact hbios.read _ 60 (by decide)
  set m₂ := m₁.write 0x1000 (disk.read (512 * (4 + entryLba entry)) (512 * 60)) with hm₂
  have hloaded : m₂.read 0x1000 bootmgr.length = bootmgr := by
    calc m₂.read 0x1000 bootmgr.length
        = img.byte.read (512 * 4) bootmgr.length := Mem.read_congr fun i hi => by
          rw [hm₂, write_read, if_pos (by omega), ← hdisk (512 * 4 + i) (by omega)]
          exact congrArg disk (by omega)
      _ = bootmgr := hcode.stage2
  have hfour : 4 ≤ bootmgr.length := by
    have hlength := congrArg List.length hmagic
    rw [List.length_take] at hlength
    change _ = 4 at hlength
    omega
  have hmagic₂ : m₂.read 0x1000 4 = WNDZ := by
    rw [← hmagic, ← Mem.read_take _ _ hfour, hloaded]
  refine ⟨m₂, ?_, hloaded⟩
  rw [stage1Main]
  simp only [← hm₁, hpartition, hword, hdword, hbios.reset, hread, Bool.true_eq_false, if_false,
    ← hm₂, hmagic₂, if_true]
  rfl

end Stages

/-! ## The disk -/

/-- `partition1` of `mbr.asm`: active, of type `0xF3`, from sector 63 on. -/
def partition1 : List UInt8 := [0x80, 0, 0, 0, 0xF3, 0, 0, 0, 63, 0, 0, 0, 0, 0x50, 0, 0]

/-- The boot record: the code up to `0x1BE`, the table with one partition, and the signature. -/
def mbr (code : List UInt8) : List UInt8 :=
  code ++ (partition1 ++ (List.replicate 48 0 ++ [0x55, 0xAA]))

/-- The disk that `make` writes: the volume at sector 63, and the boot record. -/
def makeDisk (record part : List UInt8) : Mem :=
  (Mem.write (fun _ => 0) (512 * 63) part).write 0 record

section MakeDisk

variable {code part : List UInt8} (hcode : code.length = 0x1BE)
include hcode

theorem mbr_length : (mbr code).length = 512 := by
  simp [mbr, hcode, partition1]

/-- The table of the disk is that of `mbr.asm`. -/
theorem makeDisk_table : partitionAt (makeDisk (mbr code) part) 0 = partition1 := by
  have hslice := Mem.read_write_slice (Mem.write (fun _ => 0) (512 * 63) part) 0
    (show 0x1BE + 16 ≤ (mbr code).length by rw [mbr_length hcode]; decide)
  rw [Nat.zero_add] at hslice
  calc partitionAt (makeDisk (mbr code) part) 0
      = ((mbr code).drop 0x1BE).take 16 := hslice
    _ = partition1 := by rw [mbr, List.drop_left' hcode]; rfl

theorem makeDisk_first : FirstActive (makeDisk (mbr code) part) 0 where
  lt := by decide
  active := by
    have hhead := congrArg List.head? (@makeDisk_table code part hcode)
    have hbyte : makeDisk (mbr code) part (0x1BE + 16 * 0) = 0x80 := Option.some.inj hhead
    rw [hbyte]
    rfl
  inactive := fun j hj => absurd hj (Nat.not_lt_zero j)

/-- The volume is on the disk from sector 63 on. -/
theorem makeDisk_volume {g : Geometry} {img : Image} (hg : g.Sound)
    (hsize : BootBlocks g.bytesperblock) (hlength : img.length = g.imgsize)
    (hlba : 63 + g.blocks * (g.bytesperblock / 512) ≤ 2 ^ 32) :
    BootVolume g img 63 (makeDisk (mbr code) img) where
  sound := hg
  size := hsize
  length := hlength
  lba := hlba
  holds := fun a ha => by
    rw [makeDisk, Mem.write_outside (by rw [mbr_length hcode]; omega), Mem.write_apply,
      if_pos (by omega), Nat.add_sub_cancel_left]
    rfl

end MakeDisk

/-! ## From the boot record to the kernel -/

/-- The boot manager starts the kernel from a partition of the file system's type. -/
theorem loadHdd_loads {bios : Bios} {fuel : Nat} {partition : List UInt8} {m m' : Mem}
    {chain : List Nat} (htype : partition.getD 4 0 = 0xF3)
    (hload : echfsLoad bios (entryLba partition) fuel kernelFilename 0x100000 m = .ok (chain, m')) :
    loadHdd bios fuel partition m = .ok (chain, m') := by
  rw [loadHdd, if_neg (not_not.mpr htype), hload]

/-- **The machine boots.** Build a volume with blocks of 2048 bytes by any runs of `echfs-utils`, with
the kernel imported, before any other entry of the root whose name starts with `wink`, and after that
the boot manager copied to it; put it anywhere on a disk whose
first active partition it is. Then the boot record hands the entry of that partition to the boot
sector, the boot sector the same entry to the boot manager, whole behind address `0x1000`; and from
whatever memory the boot manager loads the kernel, byte for byte, without a change to anything but
the buffer and the range of the kernel's blocks. -/
theorem disk_boots {g : Geometry} {stage1 bootmgr : List UInt8}
    {img₀ img img₁ img₂ img₃ : Image} {host : List UInt8 → HostFile} {clock : Nat → UInt64}
    {block_buf kernel : List UInt8} {argv3 : CString}
    (hfresh : Fresh g img₀) (hsize : g.bytesperblock = 2048) (hblocks : g.blocks < 2 ^ 28)
    (hfits : BootFits g stage1 bootmgr) (hmagic : bootmgr.take 4 = WNDZ)
    (hrun : Build stage1 bootmgr img₀ img) (hbuf : block_buf.length = g.bytesperblock)
    (hkernel : (host argv3.val).contents = some kernel) (henough : EnoughFree g img kernel.length)
    (himport : importCmd g host clock block_buf [argv3.val, kernelFilename.val] img
      = (.ok .imported, img₁))
    (hfiles : ∀ i, i < g.entries → ¬ Compared kernelFilename (slot g img i))
    (hrun₁ : Build stage1 bootmgr img₁ img₂)
    (hrun₂ : Build stage1 bootmgr (installBoot stage1 bootmgr img₂) img₃)
    {bios : Bios} {disk : Mem} {k fuel : Nat} (hbios : bios.ReadsMany disk)
    (hk : FirstActive disk k) (htype : (partitionAt disk k).getD 4 0 = 0xF3)
    (hboot : BootVolume g img₃ (entryLba (partitionAt disk k)) disk)
    (hroom : 0x100000 + blocksFor g kernel.length * 2048 ≤ 2 ^ 32)
    (hfuel : blocksFor g kernel.length ≤ fuel) {m : Mem}
    (hm : m.read 0x7C00 512 = disk.read 0 512) :
    ∃ si m₁ m₂, mbrMain bios m = .ok (si, m₁) ∧
      stage1Main bios si m₁ = .ok (partitionAt disk k, m₂) ∧
      m₂.read 0x1000 bootmgr.length = bootmgr ∧
      ∀ m₃, ∃ chain m₄, loadHdd bios fuel (partitionAt disk k) m₃ = .ok (chain, m₄) ∧
        m₄.read 0x100000 kernel.length = kernel ∧
        ∀ a, OutsideBuffer a →
          (a < 0x100000 ∨ 0x100000 + blocksFor g kernel.length * 2048 ≤ a) → m₄ a = m₃ a := by
  have hlater : Build stage1 bootmgr img₁ img₃ :=
    hrun₁.trans (ReflTransGen.head (BuildStep.install img₂) hrun₂)
  obtain ⟨hstep, es, e, file, chain, es', chain', hfile⟩ := inRoot_imported hfresh hfits hrun hbuf
    hkernel henough himport (by decide) (by decide) hfiles hlater
  -- the boot manager on the final volume
  have hcode : BootCode stage1 bootmgr img₃ := by
    obtain ⟨_, _, hbuilt⟩ := Built.run hfits hfresh.volume hfresh.chains
      ((hrun.tail hstep).trans (hrun₁.tail (BuildStep.install img₂)))
    obtain ⟨_, _, hend⟩ := Built.run hfits hbuilt.volume hbuilt.chains hrun₂
    exact hend.code (installBoot_code hfits)
  have hvol := hfile.later.volume
  have hg := hvol.formatted.sound
  obtain ⟨-, -, -, -, -, -, hfield, -⟩ := readGeometry_ok hvol.formatted.opened
  rw [hsize] at hfield
  -- the reserved blocks are on the disk
  have hlength := hboot.length
  have hreserved : fatstart * g.bytesperblock ≤ img₃.length := by
    have hend := hg.dir_end
    have hfat := hg.fat_le
    have hdata := hg.data_le
    omega
  have hsixteen : fatstart * g.bytesperblock = 16 * 2048 := by rw [hsize]; rfl
  have hdisk : ∀ a, a < 16 * 2048 →
      disk (512 * entryLba (partitionAt disk k) + a) = img₃.byte a := fun a ha =>
    hboot.holds a (by omega)
  have hlba : entryLba (partitionAt disk k) + 64 ≤ 2 ^ 32 := by
    have hsum := hboot.lba
    have hstart := hg.datastart_le
    rw [hg.datastart_eq] at hstart
    simp only [fatstart, RESERVED_BLOCKS] at hstart
    rw [hsize] at hsum
    omega
  obtain ⟨si, m₁, hmbr, hsi, hentry, hsector⟩ := mbrMain_loads hbios hk hm
  have hlen := hfits.reserved
  obtain ⟨m₂, hstage1, hloaded⟩ := stage1Main_loads hbios hcode (by omega) hmagic hfield hentry
    (by omega) (hsector.trans (Mem.read_congr fun i hi => by
      rw [hdisk i (by omega), Nat.zero_add])) hlba hdisk
  refine ⟨si, m₁, m₂, hmbr, hstage1, hloaded, fun m₃ => ?_⟩
  obtain ⟨blocks, m₄, hload, hbytes, hframe⟩ := hfile.echfsLoad (by decide) (by decide) (by decide) hboot
    hbios.reads (by omega) hblocks (le_refl _) (by rw [hsize]; exact hroom) hfuel m₃
  rw [hsize] at hframe
  exact ⟨blocks, m₄, loadHdd_loads htype hload, hbytes, hframe⟩

/-- A disk with the volume, for a boot manager that is only its magic number. -/
def smallDisk (img : Image) : Mem := makeDisk (mbr (List.replicate 446 0)) img

/-- A directory before the kernel, `winkle` behind it, and another file behind the boot manager. -/
theorem disk_boots_winkern : ∃ img₁ img₂ img₃ img₄,
    mkdirCmd (volumeOf 40 2048) 0 [[100]] bootImage = (.ok .created, img₁) ∧
    importCmd (volumeOf 40 2048) (fun _ => ⟨true, some (List.replicate 3000 7)⟩) (fun _ => 0)
      (List.replicate 2048 0) [[115], kernelFilename.val] img₁ = (.ok .imported, img₂) ∧
    importCmd (volumeOf 40 2048) (fun _ => ⟨true, some [4]⟩) (fun _ => 0) (List.replicate 2048 0)
      [[115], winkle.val] img₂ = (.ok .imported, img₃) ∧
    importCmd (volumeOf 40 2048) (fun _ => ⟨true, some [5]⟩) (fun _ => 0) (List.replicate 2048 0)
      [[115], [102]] (installBoot (List.replicate 512 0) WNDZ img₃) = (.ok .imported, img₄) ∧
    ∃ si m₁ m₂,
      mbrMain (diskBios (smallDisk img₄)) (fun a => smallDisk img₄ (a - 0x7C00)) = .ok (si, m₁) ∧
      stage1Main (diskBios (smallDisk img₄)) si m₁ = .ok (partition1, m₂) ∧
      m₂.read 0x1000 WNDZ.length = WNDZ ∧
      ∀ m₃, ∃ chain m₄,
        loadHdd (diskBios (smallDisk img₄)) 2 partition1 m₃ = .ok (chain, m₄) ∧
        m₄.read 0x100000 (List.replicate 3000 (7 : UInt8)).length = List.replicate 3000 7 ∧
        ∀ a, OutsideBuffer a → (a < 0x100000 ∨ 0x100000 + blocksFor (volumeOf 40 2048)
          (List.replicate 3000 (7 : UInt8)).length * 2048 ≤ a) → m₄ a = m₃ a := by
  have hbuf : (List.replicate 2048 (0 : UInt8)).length = (volumeOf 40 2048).bytesperblock :=
    List.length_replicate
  have hlong : blocksFor (volumeOf 40 2048) (List.replicate 3000 (7 : UInt8)).length = 2 := by
    rw [List.length_replicate]
    decide
  have hfits : BootFits (volumeOf 40 2048) (List.replicate 512 0) WNDZ :=
    ⟨List.length_replicate, by decide⟩
  obtain ⟨img₁, hmkdir₁, hstep₁, hstock₁⟩ := bootImage_fresh.stocked.mkdir ⟨[100], by decide⟩
    (by decide) (by decide) (by decide) (by decide)
  obtain ⟨img₂, himport₂, henough₂, -, hstock₂⟩ := hstock₁.import ⟨kernelFilename.val, by decide⟩
    (by decide) (by decide) (by decide) ⟨[115], by decide⟩ (List.replicate 3000 7) hbuf
    (by rw [hlong]; decide) (by decide)
  rw [hlong] at hstock₂
  obtain ⟨img₃, himport₃, -, hstep₃, hstock₃⟩ := hstock₂.import winkle (by decide) (by decide)
    (by decide) ⟨[115], by decide⟩ [4] hbuf (by decide) (by decide)
  obtain ⟨img₄, himport₄, -, hstep₄, hstock₄⟩ := (hstock₃.install hfits).import ⟨[102], by decide⟩
    (by decide) (by decide) (by decide) ⟨[115], by decide⟩ [5] hbuf (by decide) (by decide)
  refine ⟨img₁, img₂, img₃, img₄, hmkdir₁, himport₂, himport₃, himport₄, ?_⟩
  obtain ⟨es₄, hvol₄, -⟩ := hstock₄.volume
  have hcode : (List.replicate 446 (0 : UInt8)).length = 0x1BE := List.length_replicate
  have htable := @makeDisk_table (List.replicate 446 0) img₄ hcode
  have hboot : BootVolume (volumeOf 40 2048) img₄ (entryLba (partitionAt (smallDisk img₄) 0))
      (smallDisk img₄) := by
    rw [smallDisk, htable]
    exact makeDisk_volume hcode hvol₄.formatted.sound ⟨by decide, by decide, by decide⟩
      hvol₄.formatted.length_eq (by decide)
  have hfiles : ∀ i, i < (volumeOf 40 2048).entries →
      ¬ Compared kernelFilename (slot (volumeOf 40 2048) img₁ i) := fun i hi =>
    not_compared_of_keys hstock₁ (by decide) hi (by decide)
  have hruns := @disk_boots (volumeOf 40 2048) (List.replicate 512 0) WNDZ bootImage img₁ img₂
    img₃ img₄ _ _ _ _ ⟨[115], by decide⟩ bootImage_fresh rfl (by decide) hfits rfl
    (ReflTransGen.single (BuildStep.command hstep₁)) hbuf rfl henough₂ himport₂ hfiles
    (ReflTransGen.single (BuildStep.command hstep₃)) (ReflTransGen.single (BuildStep.command hstep₄))
    (diskBios (smallDisk img₄)) (smallDisk img₄) 0 2 ⟨rfl, fun _ _ _ => rfl⟩ (makeDisk_first hcode)
    (by rw [smallDisk, htable]; rfl) hboot (by rw [hlong]; decide) (le_of_eq hlong)
    (fun a => smallDisk img₄ (a - 0x7C00))
    (Mem.read_congr fun i _ => congrArg (smallDisk img₄) (by omega))
  rw [smallDisk, htable, ← smallDisk] at hruns
  exact hruns

end Windozz.Bootmgr

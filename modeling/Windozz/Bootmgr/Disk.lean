import Windozz.Bootmgr.Machine

set_option autoImplicit false

/-! # Reading blocks

`hdd_read_sector` and `echfs_read_block`. Sectors are read in chunks of at most 16 into the buffer
at `DISK_BUFFER` and copied from there to their destination. A destination that is the buffer
itself is overwritten by the next chunk: after a block of several chunks its first 8 KiB hold
what the last chunks left there (`readBlock_buffer`).
-/

namespace Windozz.Bootmgr

/-- The disk services of the firmware for the boot disk: whether `int 0x13` resets it, and the bytes
that function `0x42` reads from an address, for a number of sectors. -/
structure Bios where
  reset : Bool
  read : Nat → Nat → Option (List UInt8)

/-- The services succeed and read the disk. -/
structure Bios.Reads (bios : Bios) (disk : Mem) : Prop where
  reset : bios.reset = true
  read : ∀ lba n, n ≤ 16 → bios.read lba n = some (disk.read (512 * lba) (512 * n))

/-! ## The functions -/

/-- The loop of `hdd_read_sector`, within `fuel` rounds; `none` stands for the carry flag. -/
def hddLoop (bios : Bios) : Nat → Nat → Nat → Nat → Mem → Option Mem
  | 0, _, _, _, _ => none
  | fuel + 1, lba, count, address, m =>
      -- the comparison with 16 is signed
      let ecx := if count ≤ 16 ∨ 2 ^ 31 ≤ count then count else 16
      match bios.read lba (ecx % 2 ^ 16) with
      | none => none
      | some sectors =>
          let bytes := u32 (ecx * 2 ^ 9)
          let m := repMovsb bytes DISK_BUFFER address (m.write DISK_BUFFER sectors)
          if count - ecx = 0 then some m
          else hddLoop bios fuel (u32 (lba + ecx)) (count - ecx) (u32 (address + bytes)) m

/-- `hdd_read_sector`. Every round but the last takes 16 sectors off the count. -/
def hddReadSector (bios : Bios) (eax ecx edi : Nat) (m : Mem) : Option Mem :=
  if bios.reset = false then none else hddLoop bios (ecx + 1) eax ecx edi m

/-- `echfs_read_block`. -/
def echfsReadBlock (bios : Bios) (partition_lba block_size : Nat) (eax edi : Nat) (m : Mem) :
    Option Mem :=
  hddReadSector bios (u32 (u32 (eax * block_size) + partition_lba)) block_size edi m

/-! ## One round -/

theorem write_read (m disk : Mem) (a b n i : Nat) :
    m.write a (disk.read b n) i = if a ≤ i ∧ i < a + n then disk (b + (i - a)) else m i := by
  rw [Mem.write_apply, Mem.read_length]
  by_cases h : a ≤ i ∧ i < a + n
  · rw [if_pos h, if_pos h, List.getD_eq_getElem?_getD, Mem.read_getElem?, if_pos (by omega)]
    rfl
  · rw [if_neg h, if_neg h]

section Round

variable {bios : Bios} {disk : Mem} (hbios : bios.Reads disk)

include hbios

/-- The last round. -/
theorem hddLoop_last {fuel lba count address : Nat} (m : Mem) (hcount : count ≤ 16) :
    hddLoop bios (fuel + 1) lba count address m = some (repMovsb (512 * count) DISK_BUFFER address
      (m.write DISK_BUFFER (disk.read (512 * lba) (512 * count)))) := by
  have hsectors : count % 2 ^ 16 = count := Nat.mod_eq_of_lt (by omega)
  have hbytes : u32 (count * 2 ^ 9) = 512 * count := by
    unfold u32
    omega
  rw [hddLoop]
  simp only [if_pos (Or.inl hcount : count ≤ 16 ∨ 2 ^ 31 ≤ count), hsectors,
    hbios.read lba count hcount, hbytes]
  rw [if_pos (Nat.sub_self count)]

/-- A round with more to come. -/
theorem hddLoop_more {fuel lba count address : Nat} (m : Mem) (hcount : 16 < count)
    (hlt : count < 2 ^ 31) :
    hddLoop bios (fuel + 1) lba count address m = hddLoop bios fuel (u32 (lba + 16)) (count - 16)
      (u32 (address + 8192)) (repMovsb 8192 DISK_BUFFER address
        (m.write DISK_BUFFER (disk.read (512 * lba) 8192))) := by
  have hbytes : u32 (16 * 2 ^ 9) = 8192 := rfl
  rw [hddLoop]
  simp only [if_neg (by omega : ¬ (count ≤ 16 ∨ 2 ^ 31 ≤ count)), hbios.read lba 16 (le_refl _),
    hbytes, show 16 % 2 ^ 16 = 16 from rfl]
  rw [if_neg (by omega)]

end Round

/-! ## Destinations off the buffer -/

/-- The `n` bytes from `address` on do not meet the buffer. -/
def OffBuffer (address n : Nat) : Prop :=
  ∀ i, i < n → u32 (address + i) < DISK_BUFFER ∨ DISK_BUFFER + 8192 ≤ u32 (address + i)

/-- The bytes `[b, b + n)` of the disk were stored at `address`, and besides only the buffer was
changed. -/
structure Stored (disk m m' : Mem) (b address n : Nat) : Prop where
  stored : ∀ i, i < n → m' (u32 (address + i)) = disk (b + i)
  frame : ∀ a, (a < DISK_BUFFER ∨ DISK_BUFFER + 8192 ≤ a) →
    (∀ i, i < n → a ≠ u32 (address + i)) → m' a = m a

/-- One chunk. -/
theorem chunk_stored {disk m : Mem} {b address n : Nat} (hn : n ≤ 8192)
    (haddress : address < 2 ^ 32) (hoff : OffBuffer address n) :
    Stored disk m (repMovsb n DISK_BUFFER address (m.write DISK_BUFFER (disk.read b n)))
      b address n := by
  unfold DISK_BUFFER at *
  obtain ⟨hcopied, hframe⟩ := repMovsb_copies n 0x8000 address
    (m.write 0x8000 (disk.read b n)) haddress (by omega) (by
      intro i j hi hj
      have := hoff i hi
      unfold DISK_BUFFER at this
      omega)
  refine ⟨fun i hi => ?_, fun a ha hne => ?_⟩
  · rw [hcopied i hi, write_read, if_pos (by omega), Nat.add_sub_cancel_left]
  · rw [hframe a hne, write_read, if_neg (by unfold DISK_BUFFER at ha; omega)]

theorem OffBuffer.rest {address n k : Nat} (h : OffBuffer address (n + k)) :
    OffBuffer (u32 (address + n)) k := by
  intro i hi
  have hsum : u32 (u32 (address + n) + i) = u32 (address + (n + i)) := by
    unfold u32
    omega
  rw [hsum]
  exact h (n + i) (by omega)

/-- What two stores in a row leave. -/
theorem Stored.trans {disk m m' m'' : Mem} {b address n k : Nat} (hfits : n + k ≤ 2 ^ 32)
    (hoff : OffBuffer address (n + k)) (h : Stored disk m m' b address n)
    (h' : Stored disk m' m'' (b + n) (u32 (address + n)) k) :
    Stored disk m m'' b address (n + k) := by
  have hsum : ∀ i, u32 (u32 (address + n) + i) = u32 (address + (n + i)) := by
    intro i
    unfold u32
    omega
  refine ⟨fun i hi => ?_, fun a ha hne => ?_⟩
  · by_cases hin : i < n
    · rw [h'.frame _ (hoff i hi), h.stored i hin]
      intro j hj
      rw [hsum]
      unfold u32
      omega
    · have hlast := h'.stored (i - n) (by omega)
      have hi' : n + (i - n) = i := by omega
      rw [hsum, hi', Nat.add_assoc, hi'] at hlast
      exact hlast
  · rw [h'.frame a ha fun i hi => by rw [hsum]; exact hne (n + i) (by omega)]
    exact h.frame a ha fun i hi => hne i (by omega)

/-- **The loop** stores the sectors off the buffer. -/
theorem hddLoop_stored {bios : Bios} {disk : Mem} (hbios : bios.Reads disk) (fuel : Nat) :
    ∀ {lba count address : Nat} (m : Mem), count < fuel → count < 2 ^ 16 → lba + count ≤ 2 ^ 32 →
      address < 2 ^ 32 → OffBuffer address (512 * count) →
      ∃ m', hddLoop bios fuel lba count address m = some m' ∧
        Stored disk m m' (512 * lba) address (512 * count) := by
  induction fuel with
  | zero =>
      intro lba count address m h
      omega
  | succ fuel ih =>
      intro lba count address m hfuel hcount hlba haddress hoff
      by_cases hlast : count ≤ 16
      · exact ⟨_, hddLoop_last hbios m hlast, chunk_stored (by omega) haddress hoff⟩
      · obtain ⟨rest, rfl⟩ : ∃ rest, count = 16 + rest := ⟨count - 16, by omega⟩
        have hnext : u32 (lba + 16) = lba + 16 := u32_of_lt (by omega)
        have hsplit : 512 * (16 + rest) = 8192 + 512 * rest := by omega
        rw [hsplit] at hoff ⊢
        have hfirst : Stored disk m _ (512 * lba) address 8192 :=
          chunk_stored (le_refl _) haddress fun i hi => hoff i (by omega)
        rw [hddLoop_more hbios m (not_le.mp hlast) (by omega), hnext, Nat.add_sub_cancel_left]
        obtain ⟨m', hrun, hstored⟩ := @ih (lba + 16) rest _
          (repMovsb 8192 DISK_BUFFER address (m.write DISK_BUFFER (disk.read (512 * lba) 8192)))
          (by omega) (by omega) (by omega) (u32_lt (address + 8192)) hoff.rest
        rw [show 512 * (lba + 16) = 512 * lba + 8192 by omega] at hstored
        exact ⟨m', hrun, hfirst.trans (by omega) hoff hstored⟩

/-! ## The buffer as destination -/

/-- The offset of the byte that the chunks of `n` bytes leave at offset `i` of the buffer. -/
def leftAt (n i : Nat) : Nat := if i < 8192 then i + 8192 * ((n - 1 - i) / 8192) else i

/-- The memory behind `k` full chunks of the bytes from `b` on. -/
structure Buffered (disk m : Mem) (b k : Nat) : Prop where
  upper : ∀ i, 8192 ≤ i → i < 8192 * k → m (DISK_BUFFER + i) = disk (b + i)
  lower : ∀ i, i < 8192 → 0 < k → m (DISK_BUFFER + i) = disk (b + 8192 * (k - 1) + i)

/-- One chunk with a destination behind the buffer, or the buffer itself. -/
theorem chunk_buffer {disk m : Mem} {b k n : Nat} (hn : n ≤ 8192)
    (hfits : DISK_BUFFER + 8192 * k + n ≤ 2 ^ 32) (a : Nat) :
    repMovsb n DISK_BUFFER (DISK_BUFFER + 8192 * k) (m.write DISK_BUFFER (disk.read b n)) a
      = if DISK_BUFFER ≤ a ∧ a < DISK_BUFFER + n then disk (b + (a - DISK_BUFFER))
        else if DISK_BUFFER + 8192 * k ≤ a ∧ a < DISK_BUFFER + 8192 * k + n then
          disk (b + (a - (DISK_BUFFER + 8192 * k)))
        else m a := by
  unfold DISK_BUFFER at *
  -- for the first chunk the copy is from the buffer to itself
  by_cases hk : k = 0
  · subst hk
    rw [Nat.mul_zero, Nat.add_zero, repMovsb_self, write_read]
    split <;> rfl
  · by_cases hn0 : n = 0
    · subst hn0
      rw [repMovsb, write_read]
      simp only [Nat.add_zero]
      rw [if_neg (by omega), if_neg (by omega), if_neg (by omega)]
    have hu32 : ∀ i, i < n → u32 (0x8000 + 8192 * k + i) = 0x8000 + 8192 * k + i := fun i hi =>
      u32_of_lt (by omega)
    obtain ⟨hcopied, hframe⟩ := repMovsb_copies n 0x8000 (0x8000 + 8192 * k)
      (m.write 0x8000 (disk.read b n)) (by omega) (by omega) (by
        intro i j hi hj
        rw [hu32 i hi]
        omega)
    by_cases hdst : 0x8000 + 8192 * k ≤ a ∧ a < 0x8000 + 8192 * k + n
    · rw [if_neg (by omega), if_pos hdst]
      have hbyte := hcopied (a - (0x8000 + 8192 * k)) (by omega)
      rw [hu32 _ (by omega), write_read, if_pos (by omega), Nat.add_sub_cancel_left] at hbyte
      rw [← hbyte]
      exact congrArg (repMovsb n _ _ _) (by omega)
    · rw [if_neg hdst, hframe a (fun i hi => by rw [hu32 i hi]; omega), write_read]

/-- The memory behind one more full chunk. -/
theorem Buffered.step {disk m : Mem} {b k : Nat} (h : Buffered disk m b k)
    (hfits : DISK_BUFFER + 8192 * k + 8192 ≤ 2 ^ 32) :
    Buffered disk (repMovsb 8192 DISK_BUFFER (DISK_BUFFER + 8192 * k)
      (m.write DISK_BUFFER (disk.read (b + 8192 * k) 8192))) b (k + 1) := by
  refine ⟨fun i hlo hhi => ?_, fun i hi _ => ?_⟩
  · rw [chunk_buffer (le_refl _) hfits, if_neg (by omega)]
    by_cases hnew : 8192 * k ≤ i
    · rw [if_pos (by omega)]
      exact congrArg disk (by omega)
    · rw [if_neg (by omega)]
      exact h.upper i hlo (by omega)
  · rw [chunk_buffer (le_refl _) hfits, if_pos (by omega)]
    exact congrArg disk (by omega)

/-- The memory behind the last chunk. -/
theorem Buffered.last {disk m : Mem} {b k n : Nat} (h : Buffered disk m b k) (hpos : 0 < n)
    (hn : n ≤ 8192) (hfits : DISK_BUFFER + 8192 * k + n ≤ 2 ^ 32) {i : Nat}
    (hi : i < 8192 * k + n) :
    repMovsb n DISK_BUFFER (DISK_BUFFER + 8192 * k)
      (m.write DISK_BUFFER (disk.read (b + 8192 * k) n)) (DISK_BUFFER + i)
      = disk (b + leftAt (8192 * k + n) i) := by
  rw [chunk_buffer hn hfits, leftAt]
  by_cases hlow : i < n
  · rw [if_pos (by omega), if_pos (by omega)]
    exact congrArg disk (by omega)
  · rw [if_neg (by omega)]
    by_cases hbuf : i < 8192
    · rw [if_neg (by omega), if_pos hbuf, h.lower i hbuf (by omega)]
      exact congrArg disk (by omega)
    · rw [if_neg hbuf]
      by_cases hnew : 8192 * k ≤ i
      · rw [if_pos (by omega)]
        exact congrArg disk (by omega)
      · rw [if_neg (by omega)]
        exact h.upper i (by omega) (by omega)

/-- **The loop** on the buffer itself. -/
theorem hddLoop_buffer {bios : Bios} {disk : Mem} (hbios : bios.Reads disk) {b : Nat}
    (fuel : Nat) : ∀ {lba count k : Nat} (m : Mem), count < fuel → 0 < count → count < 2 ^ 16 →
      lba + count ≤ 2 ^ 32 → DISK_BUFFER + 8192 * k + 512 * count ≤ 2 ^ 32 →
      512 * lba = b + 8192 * k → Buffered disk m b k →
      ∃ m', hddLoop bios fuel lba count (DISK_BUFFER + 8192 * k) m = some m' ∧
        (∀ i, i < 8192 * k + 512 * count →
          m' (DISK_BUFFER + i) = disk (b + leftAt (8192 * k + 512 * count) i)) ∧
        ∀ a, (a < DISK_BUFFER ∨ DISK_BUFFER + 8192 * k + 512 * count ≤ a) → m' a = m a := by
  induction fuel with
  | zero =>
      intro lba count k m h
      omega
  | succ fuel ih =>
      intro lba count k m hfuel hpos hcount hlba hfits hbase h
      -- `Buffered` says what the chunks so far have left in the buffer
      by_cases hlast : count ≤ 16
      · refine ⟨_, hddLoop_last hbios m hlast, fun i hi => ?_, fun a ha => ?_⟩
        · rw [hbase]
          exact h.last (by omega) (by omega) hfits hi
        · rw [chunk_buffer (by omega) hfits, if_neg (by omega), if_neg (by omega)]
      · obtain ⟨rest, rfl⟩ : ∃ rest, count = 16 + rest := ⟨count - 16, by omega⟩
        have hfull : DISK_BUFFER + 8192 * k + 8192 ≤ 2 ^ 32 := by omega
        have hnext : u32 (lba + 16) = lba + 16 := u32_of_lt (by omega)
        have hdst : u32 (DISK_BUFFER + 8192 * k + 8192) = DISK_BUFFER + 8192 * (k + 1) := by
          rw [Nat.mul_succ, ← Nat.add_assoc]
          exact u32_of_lt (by omega)
        have htotal : 8192 * k + 512 * (16 + rest) = 8192 * (k + 1) + 512 * rest := by omega
        rw [hddLoop_more hbios m (not_le.mp hlast) (by omega), hnext, hdst, Nat.add_sub_cancel_left,
          hbase]
        obtain ⟨m', hrun, hbytes, hframe⟩ := @ih (lba + 16) rest (k + 1) _
          (by omega) (by omega) (by omega) (by omega) (by omega) (by omega) (h.step hfull)
        refine ⟨m', hrun, fun i hi => ?_, fun a ha => ?_⟩
        · rw [htotal] at hi ⊢
          exact hbytes i hi
        · rw [hframe a (by omega), chunk_buffer (le_refl _) hfull, if_neg (by omega),
            if_neg (by omega)]

/-! ## Blocks -/

/-- A block of `block_size` sectors that have 32-bit numbers on the disk. -/
structure Addressable (partition_lba block_size block : Nat) : Prop where
  size_pos : 0 < block_size
  size_lt : block_size < 64
  fits : partition_lba + (block + 1) * block_size ≤ 2 ^ 32

theorem Addressable.lba_eq {partition_lba block_size block : Nat}
    (h : Addressable partition_lba block_size block) :
    u32 (u32 (block * block_size) + partition_lba) = partition_lba + block * block_size ∧
      partition_lba + block * block_size + block_size ≤ 2 ^ 32 := by
  have hfits := h.fits
  have hpos := h.size_pos
  rw [Nat.succ_mul] at hfits
  generalize block * block_size = sectors at *
  unfold u32
  omega

section Block

variable {bios : Bios} {disk : Mem} (hbios : bios.Reads disk)
  {partition_lba block_size block : Nat} (h : Addressable partition_lba block_size block)

include hbios h

/-- A block read to an address off the buffer. -/
theorem readBlock_stored {address : Nat} (m : Mem) (haddress : address < 2 ^ 32)
    (hoff : OffBuffer address (512 * block_size)) :
    ∃ m', echfsReadBlock bios partition_lba block_size block address m = some m' ∧
      Stored disk m m' (512 * (partition_lba + block * block_size)) address (512 * block_size) := by
  obtain ⟨hlba, hfits⟩ := h.lba_eq
  have hlt := h.size_lt
  rw [echfsReadBlock, hddReadSector, if_neg (by rw [hbios.reset]; decide), hlba]
  exact hddLoop_stored hbios _ m (Nat.lt_succ_self _) (by omega) hfits haddress hoff

/-- A block read to the buffer. -/
theorem readBlock_buffer (m : Mem) :
    ∃ m', echfsReadBlock bios partition_lba block_size block DISK_BUFFER m = some m' ∧
      (∀ i, i < 512 * block_size → m' (DISK_BUFFER + i) =
        disk (512 * (partition_lba + block * block_size) + leftAt (512 * block_size) i)) ∧
      ∀ a, (a < DISK_BUFFER ∨ DISK_BUFFER + 512 * block_size ≤ a) → m' a = m a := by
  obtain ⟨hlba, hfits⟩ := h.lba_eq
  have hlt := h.size_lt
  have hempty : Buffered disk m (512 * (partition_lba + block * block_size)) 0 :=
    ⟨fun i _ hi => by omega, fun i _ hk => by omega⟩
  have hrun := hddLoop_buffer hbios (block_size + 1) m (Nat.lt_succ_self _) h.size_pos (by omega)
    hfits (by unfold DISK_BUFFER; omega) rfl hempty
  simp only [Nat.mul_zero, Nat.add_zero, Nat.zero_add] at hrun
  rw [echfsReadBlock, hddReadSector, if_neg (by rw [hbios.reset]; decide), hlba]
  exact hrun

end Block

/-- The first 8 KiB of the block are what its chunks leave in the buffer. -/
def SameChunks (disk : Mem) (b n : Nat) : Prop :=
  ∀ i, i < n → disk (b + leftAt n i) = disk (b + i)

theorem sameChunks_small (disk : Mem) (b : Nat) {n : Nat} (hn : n ≤ 8192) : SameChunks disk b n := by
  intro i hi
  have hleft : leftAt n i = i := by
    unfold leftAt
    split <;> omega
  rw [hleft]

/-- An address that file data is loaded to. -/
theorem offBuffer_high {address n : Nat} (hlow : 0x100000 ≤ address) (hlt : address < 2 ^ 32)
    (hn : n ≤ 0x8000) : OffBuffer address n := by
  intro i hi
  unfold DISK_BUFFER u32
  omega

/-- **Reading a block.** For every block size that stage 1 accepts, every block whose sectors have
32-bit numbers and every destination of the callers, `echfs_read_block` leaves the bytes of the
block at the destination, exactly when the destination is not the buffer, or what the later chunks
leave in the buffer is what the block starts with. -/
theorem echfsReadBlock_correct_iff {bios : Bios} {disk : Mem} (hbios : bios.Reads disk)
    {partition_lba bytes_per_block block destination : Nat} (hlow : 2048 ≤ bytes_per_block)
    (hhigh : bytes_per_block ≤ 32256) (hmod : bytes_per_block % 512 = 0)
    (hlba : partition_lba + (block + 1) * (bytes_per_block / 512) ≤ 2 ^ 32)
    (hdest : destination = DISK_BUFFER ∨ 0x100000 ≤ destination ∧ destination < 2 ^ 32) (m : Mem) :
    (∃ m', echfsReadBlock bios partition_lba (bytes_per_block / 512) block destination m = some m' ∧
      ∀ i, i < bytes_per_block → m' (u32 (destination + i))
        = disk (512 * (partition_lba + block * (bytes_per_block / 512)) + i)) ↔
      (destination = DISK_BUFFER →
        SameChunks disk (512 * (partition_lba + block * (bytes_per_block / 512)))
          bytes_per_block) := by
  have hsize : 512 * (bytes_per_block / 512) = bytes_per_block := by omega
  have haddr : Addressable partition_lba (bytes_per_block / 512) block :=
    ⟨by omega, by omega, hlba⟩
  -- every chunk is read to the buffer first, so a block for the buffer is overwritten by its later
  -- chunks
  rcases hdest with rfl | ⟨hfile, hlt⟩
  · obtain ⟨m', hrun, hbytes, -⟩ := readBlock_buffer hbios haddr m
    rw [hsize] at hbytes
    have hplace : ∀ i, i < bytes_per_block → u32 (DISK_BUFFER + i) = DISK_BUFFER + i := by
      intro i hi
      unfold DISK_BUFFER
      exact u32_of_lt (by omega)
    constructor
    · rintro ⟨m'', hrun', hblock⟩ - i hi
      obtain rfl := Option.some.inj (hrun'.symm.trans hrun)
      rw [← hbytes i hi, ← hblock i hi, hplace i hi]
    · intro hsame
      refine ⟨m', hrun, fun i hi => ?_⟩
      rw [hplace i hi, hbytes i hi]
      exact hsame rfl i hi
  · have hne : destination ≠ DISK_BUFFER := by
      unfold DISK_BUFFER
      omega
    obtain ⟨m', hrun, hstored⟩ := readBlock_stored hbios haddr m hlt
      (offBuffer_high hfile hlt (by omega))
    rw [hsize] at hstored
    exact ⟨fun _ h => absurd h hne, fun _ => ⟨m', hrun, hstored.stored⟩⟩

/-- The services of a disk. -/
def diskBios (disk : Mem) : Bios := ⟨true, fun lba n => some (disk.read (512 * lba) (512 * n))⟩

theorem diskBios_reads (disk : Mem) : (diskBios disk).Reads disk := ⟨rfl, fun _ _ _ => rfl⟩

/-- A block of 4096 bytes fits one chunk, so that it arrives in the buffer whole. -/
theorem echfsReadBlock_one_chunk : ∃ m',
    echfsReadBlock (diskBios fun a => UInt8.ofNat a) 63 8 16 DISK_BUFFER (fun _ => 0) = some m' ∧
    ∀ i, i < 4096 → m' (u32 (DISK_BUFFER + i)) = UInt8.ofNat (512 * (63 + 16 * 8) + i) :=
  (@echfsReadBlock_correct_iff _ _ (diskBios_reads _) 63 4096 16 DISK_BUFFER (by decide) (by decide)
    (by decide) (by decide) (Or.inl rfl) _).mpr fun _ => sameChunks_small _ _ (by decide)

/-- A disk of zeros with a one at the start of block 16, for blocks of 16384 bytes. -/
def oneDisk : Mem := fun a => if a = 262144 then 1 else 0

/-- A block of 16384 bytes takes two chunks, and the second overwrites the first byte. -/
theorem echfsReadBlock_overwrites : ∃ m',
    echfsReadBlock (diskBios oneDisk) 0 32 16 DISK_BUFFER (fun _ => 0) = some m' ∧
    m' DISK_BUFFER = 0 ∧ oneDisk (512 * (0 + 16 * 32)) = 1 := by
  obtain ⟨m', hrun, hbytes, -⟩ := readBlock_buffer (diskBios_reads oneDisk)
    (show Addressable 0 32 16 from ⟨by decide, by decide, by decide⟩) (fun _ => 0)
  exact ⟨m', hrun, hbytes 0 (by decide), rfl⟩

end Windozz.Bootmgr

import Windozz.Echfs.Alloc

set_option autoImplicit false

/-! # The identity table and `format`

Every run of `echfs-utils` opens the image, checks the signature and computes the geometry from
two words of the identity table (`readGeometry`). `format` writes that table, zeroes the rest of
the image (`formatPass1`) and marks the blocks in front of the data blocks as reserved
(`formatPass2`).

`Formatted g img` is what a volume keeps for its whole life: it opens with geometry `g`, and the
allocation table still has its reserved entries. `format` establishes it (`Fresh.formatted`), and
a change confined to data blocks keeps it (`Formatted.of_footprint`).
-/

namespace Windozz.Echfs

/-! ## Opening an image -/

/-- The ways a run of `echfs-utils` ends before its command starts. -/
inductive OpenError where
  | signatureMissing
  | notBlockAligned
  | blockSize
  /-- `imgsize % bytesperblock` with a block size of zero. -/
  | divideByZero
  deriving DecidableEq, Repr

/-- What is printed on `stderr`. -/
def OpenError.text (argv0 : String) : OpenError → String
  | .signatureMissing => argv0 ++ ": error: echidnaFS signature missing.\n"
  | .notBlockAligned => argv0 ++ ": error: image is not block-aligned.\n"
  | .blockSize => argv0 ++ ": error: block size MUST be a multiple of 512.\n"
  | .divideByZero => ""

/-- The characters of `_ECH_FS_`. -/
def SIGNATURE : List UInt8 := [0x5f, 0x45, 0x43, 0x48, 0x5f, 0x46, 0x53, 0x5f]

/-- The part of `main` between the signature check and the dispatch, for a file that had
`imgsize` bytes when it was opened. -/
def readGeometry (imgsize : Nat) (img : Image) : Except OpenError Geometry :=
  if img.byte.read 4 8 ≠ SIGNATURE then .error .signatureMissing
  else
    let bytesperblock := rdQword img 28
    if bytesperblock = 0 then .error .divideByZero
    else if imgsize % bytesperblock ≠ 0 then .error .notBlockAligned
    else
      let blocks := imgsize / bytesperblock
      let fatsize := u64 (blocks * 8) / bytesperblock
        + if u64 (blocks * 8) % bytesperblock = 0 then 0 else 1
      let dirsize := rdQword img 20
      .ok {
        imgsize := imgsize
        blocks := blocks
        fatsize := fatsize
        dirsize := dirsize
        dirstart := u64 (fatstart + fatsize)
        datastart := u64 (RESERVED_BLOCKS + fatsize + dirsize)
        bytesperblock := bytesperblock }

/-- The geometry depends on the identity table only. -/
theorem readGeometry_congr {imgsize : Nat} {img img' : Image}
    (h : ∀ a, a < 8192 → img'.byte a = img.byte a) :
    readGeometry imgsize img' = readGeometry imgsize img := by
  have hsig : img'.byte.read 4 8 = img.byte.read 4 8 :=
    Mem.read_congr fun i _ => h (4 + i) (by omega)
  have hbpb : rdQword img' 28 = rdQword img 28 := Mem.qword_congr fun i _ => h (28 + i) (by omega)
  have hdir : rdQword img' 20 = rdQword img 20 := Mem.qword_congr fun i _ => h (20 + i) (by omega)
  simp only [readGeometry, hsig, hbpb, hdir]

/-- What is known of the geometry of an image that opens. -/
theorem readGeometry_ok {imgsize : Nat} {img : Image} {g : Geometry}
    (h : readGeometry imgsize img = .ok g) :
    0 < g.bytesperblock ∧ g.imgsize = imgsize ∧ g.imgsize = g.blocks * g.bytesperblock ∧
      g.fatsize = u64 (g.blocks * 8) / g.bytesperblock
        + (if u64 (g.blocks * 8) % g.bytesperblock = 0 then 0 else 1) ∧
      g.dirstart = u64 (fatstart + g.fatsize) ∧
      g.datastart = u64 (RESERVED_BLOCKS + g.fatsize + g.dirsize) ∧
      rdQword img 28 = g.bytesperblock ∧ rdQword img 20 = g.dirsize := by
  unfold readGeometry at h
  split at h
  · cases h
  · simp only at h
    split at h
    · cases h
    · rename_i hpos
      split at h
      · cases h
      · rename_i hmod
        obtain rfl := Except.ok.inj h
        refine ⟨Nat.pos_of_ne_zero hpos, rfl, ?_, rfl, rfl, rfl, rfl, rfl⟩
        exact (Nat.div_mul_cancel (Nat.dvd_of_mod_eq_zero (not_not.mp hmod))).symm

/-- With the block size and the directory size of `format_pass1`, the geometry is sound as soon
as the data blocks start on the volume. -/
theorem readGeometry_sound {imgsize : Nat} {img : Image} {g : Geometry}
    (hopen : readGeometry imgsize img = .ok g) (hlt : imgsize < 2 ^ 63)
    (hmod : g.bytesperblock % BYTES_PER_SECT = 0) (hds : g.dirsize = g.blocks / 20)
    (hle : g.datastart ≤ g.blocks) : g.Sound := by
  obtain ⟨hpos, himg, hblk, hfat, hdir, hdata, -, -⟩ := readGeometry_ok hopen
  have hsect := hmod
  simp only [BYTES_PER_SECT] at hsect
  have hge : g.blocks * 512 ≤ g.imgsize := by
    rw [hblk]
    exact Nat.mul_le_mul_left _ (by omega)
  rw [u64_of_lt (show g.blocks * 8 < 2 ^ 64 by omega)] at hfat
  have hdm := Nat.div_add_mod (g.blocks * 8) g.bytesperblock
  have hdle : g.blocks * 8 / g.bytesperblock ≤ g.blocks * 8 := Nat.div_le_self _ _
  have hfatle : g.fatsize ≤ g.blocks * 8 + 1 := by
    rw [hfat]
    split <;> omega
  refine ⟨hpos, hmod, hblk, by omega, ?_, ?_, ?_, hle⟩
  · have hml := Nat.mod_lt (g.blocks * 8) hpos
    rw [hfat, Nat.add_mul, Nat.mul_comm (_ / _)]
    split
    · omega
    · omega
  · rw [hdir, u64_of_lt]
    simp only [fatstart, RESERVED_BLOCKS]
    omega
  · rw [hdata, u64_of_lt]
    · rfl
    · simp only [RESERVED_BLOCKS]
      omega

/-! ## Formatted volumes -/

/-- What `format` establishes and every command keeps. -/
structure Formatted (g : Geometry) (img : Image) : Prop where
  opened : readGeometry img.length img = .ok g
  length_lt : img.length < 2 ^ 63
  sector_aligned : g.bytesperblock % BYTES_PER_SECT = 0
  dirsize_eq : g.dirsize = g.blocks / 20
  datastart_le : g.datastart ≤ g.blocks
  reserved : ∀ b, b < g.datastart → fat g img b = RESERVED_BLOCK

namespace Formatted

variable {g : Geometry} {img img' : Image} (h : Formatted g img)
include h

theorem length_eq : img.length = g.imgsize := (readGeometry_ok h.opened).2.1.symm

/-- The geometry of a formatted image is sound. -/
theorem sound : g.Sound :=
  readGeometry_sound h.opened h.length_lt h.sector_aligned h.dirsize_eq h.datastart_le

theorem reserved_ne_zero {b : Nat} (hb : b < g.datastart) : fat g img b ≠ 0 := by
  rw [h.reserved b hb]
  decide

/-- A change of data blocks and their table entries keeps the volume formatted. -/
theorem of_footprint {c : Set Nat} (hc : InData g c) (hs : SameOutside (footprint g c) img img') :
    Formatted g img' := by
  have hg := h.sound
  refine ⟨?_, by rw [hs.length_eq]; exact h.length_lt, h.sector_aligned, h.dirsize_eq,
    h.datastart_le, ?_⟩
  · rw [hs.length_eq, readGeometry_congr fun a ha => header_of_sameOutside hg hc hs ha]
    exact h.opened
  · intro b hb
    have hle := h.datastart_le
    rw [fat_of_sameOutside hg hc hs (by omega) fun hbc => by have := (hc b hbc).1; omega]
    exact h.reserved b hb

/-- A change of a directory entry keeps the volume formatted. -/
theorem of_entry {i : Nat} (hi : i < g.entries) (hs : SameOutside (entryBytes g i) img img') :
    Formatted g img' := by
  have hg := h.sound
  refine ⟨?_, by rw [hs.length_eq]; exact h.length_lt, h.sector_aligned, h.dirsize_eq,
    h.datastart_le, ?_⟩
  · rw [hs.length_eq, readGeometry_congr fun a ha => header_of_entry hg hi hs ha]
    exact h.opened
  · intro b hb
    have hle := h.datastart_le
    rw [fat_of_entry hg hi hs (by omega)]
    exact h.reserved b hb

end Formatted

/-! ## `format` -/

/-- `for (i = ...; i < imgsize; i += bytesperblock) fwrite(zeroblock, bytesperblock, 1, image);`
with the position of the image at `pos`. -/
def zeroBlocks (bytesperblock imgsize : Nat) : Nat → Nat → Nat → Image → Image
  | 0, _, _, img => img
  | fuel + 1, i, pos, img =>
      if i < imgsize then
        zeroBlocks bytesperblock imgsize fuel (u64 (i + bytesperblock)) (pos + bytesperblock)
          (img.write pos (List.replicate bytesperblock 0))
      else img

/-- The identity table `format_pass1` writes. -/
def writeIdentity (img : Image) (blocks bytesperblock : Nat) : Image :=
  wrQword (wrQword (wrQword (img.write 4 SIGNATURE) 12 blocks) 20 (blocks / 20)) 28 bytesperblock

/-- `format_pass1`, where `blocksize` is what `atoi` makes of the argument. -/
def formatPass1 (blocksize : Int) (img : Image) : Except OpenError Image :=
  let bytesperblock := (blocksize % 2 ^ 64).toNat
  if bytesperblock ≤ 0 ∨ bytesperblock % 512 ≠ 0 then .error .blockSize
  else if img.length % bytesperblock ≠ 0 then .error .notBlockAligned
  else
    let imgsize := img.length
    let blocks := imgsize / bytesperblock
    let start := u64 (RESERVED_BLOCKS * bytesperblock)
    .ok (zeroBlocks bytesperblock imgsize imgsize start (fseek 36 start)
      (writeIdentity img blocks bytesperblock))

/-- The marking loop of `format_pass2`. -/
def markReserved : Nat → Nat → Image → Image
  | 0, _, img => img
  | n + 1, loc, img => markReserved n (loc + 8) (wrQword img loc RESERVED_BLOCK)

/-- `format_pass2`. -/
def formatPass2 (g : Geometry) (img : Image) : Image :=
  markReserved (u64 (RESERVED_BLOCKS + g.fatsize + g.dirsize)) (fatstart * g.bytesperblock) img

/-- A run of `echfs-utils` with the action `format`. -/
def format (blocksize : Int) (img : Image) : Except OpenError Geometry × Image :=
  match formatPass1 blocksize img with
  | .error e => (.error e, img)
  | .ok img' =>
      match readGeometry img.length img' with
      | .error e => (.error e, img')
      | .ok g => (.ok g, formatPass2 g img')

/-- A freshly formatted volume with `datastart <= blocks`. -/
structure Fresh (g : Geometry) (img : Image) : Prop where
  formats : ∃ (blocksize : Int) (img₀ : Image), -2 ^ 31 ≤ blocksize ∧ blocksize < 2 ^ 31 ∧
    img₀.length < 2 ^ 63 ∧ format blocksize img₀ = (.ok g, img)
  datastart_le : g.datastart ≤ g.blocks

theorem zeroBlocks_spec {bpb imgsize n : Nat} (hpos : 0 < bpb) (hlt : imgsize < 2 ^ 63) :
    ∀ (fuel i : Nat) {img : Image}, imgsize = i + n * bpb → n ≤ fuel → img.length = imgsize →
      (zeroBlocks bpb imgsize fuel i i img).length = imgsize ∧
        ∀ a, (zeroBlocks bpb imgsize fuel i i img).byte a = if i ≤ a then 0 else img.byte a := by
  -- `n` blocks are left, so the index ends at the size of the image
  induction n with
  | zero =>
      intro fuel i img hi _ hlen
      have hstop : zeroBlocks bpb imgsize fuel i i img = img := by
        cases fuel with
        | zero => rfl
        | succ fuel => rw [zeroBlocks, if_neg (by omega)]
      rw [hstop]
      refine ⟨hlen, fun a => ?_⟩
      by_cases ha : i ≤ a
      · rw [if_pos ha, Image.byte, List.getD_eq_getElem?_getD, List.getElem?_eq_none (by omega),
          Option.getD_none]
      · rw [if_neg ha]
  | succ n ih =>
      intro fuel i img hi hfuel hlen
      cases fuel with
      | zero => omega
      | succ fuel =>
          rw [Nat.succ_mul] at hi
          have hwlen : (img.write i (List.replicate bpb 0)).length = imgsize := by
            rw [Image.length_write_of_le, hlen]
            rw [List.length_replicate]
            omega
          obtain ⟨hl, hb⟩ := ih fuel (i + bpb) (by omega) (by omega) hwlen
          rw [zeroBlocks, if_pos (by omega), u64_of_lt (by omega)]
          refine ⟨hl, fun a => ?_⟩
          rw [hb a, Image.byte_write, Mem.write_apply, List.length_replicate]
          by_cases ha : i + bpb ≤ a
          · rw [if_pos ha, if_pos (by omega)]
          · rw [if_neg ha]
            by_cases ha' : i ≤ a
            · rw [if_pos (by omega), if_pos ha', List.getD_eq_getElem?_getD,
                List.getElem?_replicate, if_pos (by omega), Option.getD_some]
            · rw [if_neg (by omega), if_neg ha']

theorem markReserved_spec (n : Nat) :
    ∀ (loc : Nat) (img : Image), loc + n * 8 ≤ img.length →
      SameOutside {a | loc ≤ a ∧ a < loc + n * 8} img (markReserved n loc img) ∧
        ∀ j, j < n → rdQword (markReserved n loc img) (loc + j * 8) = RESERVED_BLOCK := by
  induction n with
  | zero =>
      intro loc img _
      exact ⟨SameOutside.refl _ _, fun j hj => by omega⟩
  | succ n ih =>
      intro loc img hle
      have hfits : loc + (toLE 8 RESERVED_BLOCK).length ≤ img.length := by
        rw [toLE_length]
        omega
      obtain ⟨hsame, hres⟩ := ih (loc + 8) (wrQword img loc RESERVED_BLOCK)
        (by rw [length_wrQword (by omega)]; omega)
      rw [markReserved]
      refine ⟨SameOutside.trans (SameOutside.of_write hfits fun a ha ha' => ?_)
        (hsame.mono fun a ha => ?_), ?_⟩
      · rw [toLE_length] at ha'
        exact ⟨ha, by omega⟩
      · exact ⟨by have := ha.1; omega, by have := ha.2; omega⟩
      · intro j hj
        -- later stores are behind the first entry
        cases j with
        | zero =>
            have hfirst : rdQword (markReserved n (loc + 8) (wrQword img loc RESERVED_BLOCK)) loc
                = rdQword (wrQword img loc RESERVED_BLOCK) loc :=
              Mem.qword_congr fun i hi => hsame.byte_eq _ fun ha => by
                have := ha.1
                omega
            simp only [Nat.zero_mul, Nat.add_zero]
            rw [hfirst, rdQword_wrQword_same]
            rfl
        | succ j =>
            rw [show loc + (j + 1) * 8 = loc + 8 + j * 8 by omega]
            exact hres j (by omega)

theorem writeIdentity_spec (img : Image) {blocks bpb : Nat} (hblk : blocks < 2 ^ 64)
    (hbpb : bpb < 2 ^ 64) :
    (writeIdentity img blocks bpb).byte.read 4 8 = SIGNATURE ∧
      rdQword (writeIdentity img blocks bpb) 28 = bpb ∧
      rdQword (writeIdentity img blocks bpb) 20 = blocks / 20 ∧
      (36 ≤ img.length → (writeIdentity img blocks bpb).length = img.length) := by
  have hdiv : blocks / 20 ≤ blocks := Nat.div_le_self _ _
  refine ⟨?_, ?_, ?_, fun hlen => ?_⟩
  · have hsig : (img.write 4 SIGNATURE).byte.read 4 SIGNATURE.length = SIGNATURE := by
      rw [Image.byte_write, Mem.read_write_same]
    simp only [writeIdentity, byte_wrQword]
    refine Eq.trans (Mem.read_congr fun i hi => ?_) hsig
    rw [Mem.setQword_outside (by omega), Mem.setQword_outside (by omega),
      Mem.setQword_outside (by omega)]
  · rw [writeIdentity, rdQword_wrQword_same, u64_of_lt hbpb]
  · rw [writeIdentity, rdQword, byte_wrQword, Mem.qword_setQword_disjoint (by omega), ← rdQword,
      rdQword_wrQword_same, u64_of_lt (by omega)]
  · have h0 : (img.write 4 SIGNATURE).length = img.length :=
      Image.length_write_of_le (show 4 + 8 ≤ img.length by omega)
    have h1 : (wrQword (img.write 4 SIGNATURE) 12 blocks).length = img.length := by
      rw [length_wrQword (by omega), h0]
    have h2 : (wrQword (wrQword (img.write 4 SIGNATURE) 12 blocks) 20 (blocks / 20)).length
        = img.length := by
      rw [length_wrQword (by omega), h1]
    rw [writeIdentity, length_wrQword (by omega), h2]

/-- The zeroing loop on an image that has more than its reserved blocks. -/
theorem zeroRest_spec {bpb : Nat} {img table : Image} (hpos : 0 < bpb)
    (hlt : img.length < 2 ^ 63) (halign : img.length % bpb = 0) (hbig : 16 * bpb ≤ img.length)
    (hlen : table.length = img.length) :
    let start := u64 (RESERVED_BLOCKS * bpb)
    let img' := zeroBlocks bpb img.length img.length start (fseek 36 start) table
    img'.length = img.length ∧ ∀ a, img'.byte a = if 16 * bpb ≤ a then 0 else table.byte a := by
  intro start img'
  have hstart : start = 16 * bpb := u64_of_lt (by
    simp only [RESERVED_BLOCKS]
    omega)
  have hseek : fseek 36 start = 16 * bpb := by
    rw [hstart, fseek, if_pos (by omega)]
  obtain ⟨n, hn⟩ := Nat.dvd_of_mod_eq_zero halign
  have hn16 : 16 ≤ n := by
    by_contra hlt16
    have : bpb * n ≤ bpb * 15 := Nat.mul_le_mul_left _ (by omega)
    omega
  have hnle : n ≤ bpb * n := Nat.le_mul_of_pos_left n hpos
  have hsplit : img.length = 16 * bpb + (n - 16) * bpb := by
    rw [← Nat.add_mul, Nat.add_sub_cancel' hn16, Nat.mul_comm, hn]
  have hspec := zeroBlocks_spec hpos hlt img.length (16 * bpb) hsplit (by omega) hlen
  simp only [img', hseek]
  simpa only [hstart] using hspec

/-- An image smaller than its reserved blocks has nothing to zero. -/
theorem zeroRest_small {bpb : Nat} {img table : Image} (hbpb : bpb < 2 ^ 31 ∨ 2 ^ 63 ≤ bpb)
    (hlt : img.length < 2 ^ 63) (halign : img.length % bpb = 0) (hsmall : img.length < 16 * bpb)
    (fuel pos : Nat) :
    zeroBlocks bpb img.length fuel (u64 (RESERVED_BLOCKS * bpb)) pos table = table := by
  have hnone : img.length ≤ u64 (RESERVED_BLOCKS * bpb) := by
    rcases Nat.eq_zero_or_pos img.length with h0 | h0
    · omega
    · have hle : bpb ≤ img.length := Nat.le_of_dvd h0 (Nat.dvd_of_mod_eq_zero halign)
      have hfits : RESERVED_BLOCKS * bpb < 2 ^ 64 := by
        simp only [RESERVED_BLOCKS]
        omega
      rw [u64_of_lt hfits, RESERVED_BLOCKS]
      exact hsmall.le
  cases fuel with
  | zero => rfl
  | succ fuel => rw [zeroBlocks, if_neg (by omega)]

/-- `format_pass1` leaves the identity table it writes in the reserved blocks, and zeros behind
them. -/
theorem formatPass1_table {blocksize : Int} {img img' : Image} (hlo : -2 ^ 31 ≤ blocksize)
    (hhi : blocksize < 2 ^ 31) (hlt : img.length < 2 ^ 63)
    (h : formatPass1 blocksize img = .ok img') :
    ∃ bpb, bpb = (blocksize % 2 ^ 64).toNat ∧ 0 < bpb ∧ bpb < 2 ^ 64 ∧ bpb % 512 = 0 ∧
      img.length % bpb = 0 ∧
      (∀ a, a < 16 * bpb → img'.byte a = (writeIdentity img (img.length / bpb) bpb).byte a) ∧
      (16 * bpb ≤ img.length →
        img'.length = img.length ∧ ∀ a, 16 * bpb ≤ a → img'.byte a = 0) := by
  simp only [formatPass1] at h
  -- the block size is an `int` that is widened: small, or very large where it is negative
  have hint : (blocksize % 2 ^ 64).toNat < 2 ^ 31 ∨ 2 ^ 63 ≤ (blocksize % 2 ^ 64).toNat := by
    omega
  have hbpb64 : (blocksize % 2 ^ 64).toNat < 2 ^ 64 := by omega
  generalize (blocksize % 2 ^ 64).toNat = bpb at h hint hbpb64
  split at h
  · cases h
  rename_i hsize
  split at h
  · cases h
  rename_i halign
  obtain ⟨hpos, hmod⟩ : 0 < bpb ∧ bpb % 512 = 0 := by omega
  have halign' : img.length % bpb = 0 := not_not.mp halign
  have hdivle : img.length / bpb ≤ img.length := Nat.div_le_self _ _
  obtain ⟨-, -, -, hlen⟩ :=
    writeIdentity_spec img (show img.length / bpb < 2 ^ 64 by omega) hbpb64
  refine ⟨bpb, rfl, hpos, hbpb64, hmod, halign', ?_⟩
  generalize writeIdentity img (img.length / bpb) bpb = table at h hlen ⊢
  obtain rfl := Except.ok.inj h
  by_cases hbig : 16 * bpb ≤ img.length
  · obtain ⟨hl, hb⟩ := zeroRest_spec hpos hlt halign' hbig (hlen (by omega))
    refine ⟨fun a ha => ?_, fun _ => ⟨hl, fun a ha => ?_⟩⟩
    · rw [hb a, if_neg (by omega)]
    · rw [hb a, if_pos (by omega)]
  · rw [zeroRest_small hint hlt halign' (by omega)]
    exact ⟨fun _ _ => rfl, fun hle => absurd hle hbig⟩

/-- What `format_pass1` leaves in the identity table and behind it. -/
theorem formatPass1_spec {blocksize : Int} {img img' : Image} (hlo : -2 ^ 31 ≤ blocksize)
    (hhi : blocksize < 2 ^ 31) (hlt : img.length < 2 ^ 63)
    (h : formatPass1 blocksize img = .ok img') :
    ∃ bpb, bpb = (blocksize % 2 ^ 64).toNat ∧ 0 < bpb ∧ bpb % 512 = 0 ∧
      img'.byte.read 4 8 = SIGNATURE ∧ rdQword img' 28 = bpb ∧
      rdQword img' 20 = img.length / bpb / 20 ∧
      (16 * bpb ≤ img.length →
        img'.length = img.length ∧ ∀ a, 16 * bpb ≤ a → img'.byte a = 0) := by
  obtain ⟨bpb, hbpb, hpos, hbpb64, hmod, -, htable, hbig⟩ := formatPass1_table hlo hhi hlt h
  have hdivle : img.length / bpb ≤ img.length := Nat.div_le_self _ _
  obtain ⟨hsig, h28, h20, -⟩ :=
    writeIdentity_spec img (show img.length / bpb < 2 ^ 64 by omega) hbpb64
  refine ⟨bpb, hbpb, hpos, hmod, Eq.trans ?_ hsig, Eq.trans ?_ h28, Eq.trans ?_ h20, hbig⟩
  · exact Mem.read_congr fun i _ => htable _ (by omega)
  · exact Mem.qword_congr fun i _ => htable _ (by omega)
  · exact Mem.qword_congr fun i _ => htable _ (by omega)

/-- The block count `format_pass1` declares. -/
theorem formatPass1_blocks {blocksize : Int} {img img' : Image} (hlo : -2 ^ 31 ≤ blocksize)
    (hhi : blocksize < 2 ^ 31) (hlt : img.length < 2 ^ 63)
    (h : formatPass1 blocksize img = .ok img') :
    rdQword img' 12 = img.length / (blocksize % 2 ^ 64).toNat := by
  obtain ⟨bpb, rfl, hpos, -, hmod, -, htable, -⟩ := formatPass1_table hlo hhi hlt h
  generalize (blocksize % 2 ^ 64).toNat = bpb at hpos hmod htable ⊢
  have hdivle : img.length / bpb ≤ img.length := Nat.div_le_self _ _
  calc rdQword img' 12
      = rdQword (writeIdentity img (img.length / bpb) bpb) 12 :=
        Mem.qword_congr fun i _ => htable _ (by omega)
    _ = rdQword (wrQword (img.write 4 SIGNATURE) 12 (img.length / bpb)) 12 := by
        simp only [rdQword, writeIdentity, byte_wrQword]
        rw [Mem.qword_setQword_disjoint (by omega), Mem.qword_setQword_disjoint (by omega)]
    _ = img.length / bpb := by
        rw [rdQword_wrQword_same, u64_of_lt (by omega)]

/-- What the action `format` leaves on a volume whose data blocks start on it. -/
theorem format_spec {blocksize : Int} {img₀ img : Image} {g : Geometry} (hlo : -2 ^ 31 ≤ blocksize)
    (hhi : blocksize < 2 ^ 31) (hlt : img₀.length < 2 ^ 63)
    (hf : format blocksize img₀ = (.ok g, img)) (hle : g.datastart ≤ g.blocks) :
    Formatted g img ∧ img.length = img₀.length ∧ rdQword img 12 = g.blocks ∧
      ∀ a, g.fatLoc g.datastart ≤ a → img.byte a = 0 := by
  unfold format at hf
  split at hf
  · cases hf
  rename_i img₁ h1
  split at hf
  · cases hf
  rename_i g' hopen
  obtain ⟨hg', rfl⟩ := Prod.mk.inj hf
  obtain rfl := Except.ok.inj hg'
  have h12 := formatPass1_blocks hlo hhi hlt h1
  obtain ⟨bpb, hbpb, hpos, hmod, -, h28, h20, hbig⟩ := formatPass1_spec hlo hhi hlt h1
  obtain ⟨-, himg, hblk, -, -, -, hrd28, hrd20⟩ := readGeometry_ok hopen
  obtain rfl : bpb = g'.bytesperblock := h28.symm.trans hrd28
  have hblocks : img₀.length / g'.bytesperblock = g'.blocks := by
    rw [← himg, hblk, Nat.mul_div_cancel _ hpos]
  have hdirsize : g'.dirsize = g'.blocks / 20 := by
    rw [← hrd20, h20, hblocks]
  have hg : g'.Sound := readGeometry_sound hopen hlt hmod hdirsize hle
  have hfat := hg.fat_le
  have hdata := hg.data_le
  have hend := hg.dir_end
  have hhead := hg.header_le
  obtain ⟨hlen, hzero⟩ := hbig (by
    simp only [fatstart, RESERVED_BLOCKS] at hfat
    omega)
  have hn : u64 (RESERVED_BLOCKS + g'.fatsize + g'.dirsize) = g'.datastart :=
    (readGeometry_ok hopen).2.2.2.2.2.1.symm
  obtain ⟨hsame, hres⟩ := markReserved_spec g'.datastart
    (fatstart * g'.bytesperblock) img₁ (by omega)
  rw [formatPass2, hn]
  generalize markReserved g'.datastart (fatstart * g'.bytesperblock) img₁ = img at hsame hres
  -- the marked entries lie behind the identity table
  have htable : ∀ a, a < 8192 → img.byte a = img₁.byte a := fun a ha =>
    hsame.byte_eq a fun hin => by have := hin.1; omega
  refine ⟨⟨?_, by rw [hsame.length_eq, hlen]; exact hlt, hmod, hdirsize, hle, hres⟩, ?_, ?_, ?_⟩
  · rw [hsame.length_eq, hlen, readGeometry_congr htable]
    exact hopen
  · rw [hsame.length_eq, hlen]
  · have hq : rdQword img 12 = rdQword img₁ 12 :=
      Mem.qword_congr fun i _ => htable (12 + i) (by omega)
    rw [hq, h12, ← hbpb, hblocks]
  · intro a ha
    rw [Geometry.fatLoc] at ha
    rw [hsame.byte_eq a fun hin => by have := hin.2; omega]
    exact hzero a (by simp only [fatstart, RESERVED_BLOCKS] at ha; omega)

namespace Fresh

variable {g : Geometry} {img : Image} (h : Fresh g img)
include h

/-- `format` leaves a formatted volume with no file and no directory on it. -/
theorem spec : Formatted g img ∧
    (∀ b, g.datastart ≤ b → b < g.blocks → fat g img b = 0) ∧
    ∀ a, g.dirstart * g.bytesperblock ≤ a → img.byte a = 0 := by
  obtain ⟨blocksize, img₀, hlo, hhi, hlt, hf⟩ := h.formats
  obtain ⟨hform, -, -, hrest⟩ := format_spec hlo hhi hlt hf h.datastart_le
  have hfat := hform.sound.fat_le
  have hle := h.datastart_le
  refine ⟨hform, ?_, ?_⟩
  · intro b hlo _
    exact Mem.qword_eq_zero fun i _ => hrest _ (by unfold Geometry.fatLoc; omega)
  · intro a ha
    exact hrest a (by unfold Geometry.fatLoc; omega)

theorem formatted : Formatted g img := h.spec.1

/-- All data blocks are free. -/
theorem card_freeBlocks : g.blocks - g.datastart ≤ (freeBlocks g img).card := by
  have hsub : Finset.Ico g.datastart g.blocks ⊆ freeBlocks g img := by
    intro b hb
    obtain ⟨hlo, hhi⟩ := Finset.mem_Ico.mp hb
    exact mem_freeBlocks.mpr ⟨hhi, h.spec.2.1 b hlo hhi⟩
  have hcard := Finset.card_le_card hsub
  rwa [Nat.card_Ico] at hcard

theorem enough {n : Nat} (hn : blocksFor g n ≤ g.blocks - g.datastart) : EnoughFree g img n :=
  hn.trans h.card_freeBlocks

end Fresh

/-! ### `format` succeeds -/

/-- The geometry of a volume of `n` blocks of `bpb` bytes. -/
def volumeOf (n bpb : Nat) : Geometry where
  imgsize := n * bpb
  blocks := n
  fatsize := u64 (n * 8) / bpb + if u64 (n * 8) % bpb = 0 then 0 else 1
  dirsize := n / 20
  dirstart := u64 (fatstart + (u64 (n * 8) / bpb + if u64 (n * 8) % bpb = 0 then 0 else 1))
  datastart := u64 (RESERVED_BLOCKS
    + (u64 (n * 8) / bpb + if u64 (n * 8) % bpb = 0 then 0 else 1) + n / 20)
  bytesperblock := bpb

/-- Once `format_pass1` has passed, the image opens and `format` runs to its end. -/
theorem format_completes {blocksize : Int} {img img₁ : Image} (hlo : -2 ^ 31 ≤ blocksize)
    (hhi : blocksize < 2 ^ 31) (hlt : img.length < 2 ^ 63)
    (h : formatPass1 blocksize img = .ok img₁) :
    ∃ n bpb, bpb = (blocksize % 2 ^ 64).toNat ∧ 0 < bpb ∧ bpb % 512 = 0 ∧ img.length = n * bpb ∧
      format blocksize img = (.ok (volumeOf n bpb), formatPass2 (volumeOf n bpb) img₁) := by
  obtain ⟨bpb, hbpb, hpos, hmod, hsig, h28, h20, -⟩ := formatPass1_spec hlo hhi hlt h
  obtain ⟨bpb', rfl, -, -, -, halign, -⟩ := formatPass1_table hlo hhi hlt h
  rw [← hbpb] at halign
  have hlen : img.length = img.length / bpb * bpb :=
    (Nat.div_mul_cancel (Nat.dvd_of_mod_eq_zero halign)).symm
  refine ⟨img.length / bpb, bpb, hbpb, hpos, hmod, hlen, ?_⟩
  have hopen : readGeometry img.length img₁ = .ok (volumeOf (img.length / bpb) bpb) := by
    simp only [readGeometry, hsig, h28, h20, halign]
    rw [if_neg (by simp), if_neg (by omega), if_neg (by simp)]
    simp only [volumeOf, ← hlen]
  rw [format, h]
  simp only [hopen]

/-- `format_pass1` accepts every file of whole blocks. -/
theorem formatPass1_passes (n bpb : Nat) {img : Image} (hpos : 0 < bpb) (hmod : bpb % 512 = 0)
    (hint : bpb < 2 ^ 31) (hlen : img.length = n * bpb) :
    ∃ img₁, formatPass1 bpb img = .ok img₁ := by
  have hbpb : ((bpb : Int) % 2 ^ 64).toNat = bpb := by omega
  have halign : img.length % bpb = 0 := by rw [hlen, Nat.mul_mod_left]
  simp only [formatPass1, hbpb, halign]
  rw [if_neg (by omega), if_neg (by simp)]
  exact ⟨_, rfl⟩

/-- The geometry of a file of `n` whole blocks after `format`. -/
theorem format_blocks (n bpb : Nat) {img : Image} (hpos : 0 < bpb) (hmod : bpb % 512 = 0)
    (hint : bpb < 2 ^ 31) (hlen : img.length = n * bpb) (hlt : img.length < 2 ^ 63) :
    ∃ img', format bpb img = (.ok (volumeOf n bpb), img') := by
  obtain ⟨img₁, h1⟩ := formatPass1_passes n bpb hpos hmod hint hlen
  obtain ⟨n', bpb', hbpb', -, -, hlen', hformat⟩ := format_completes (by omega) (by omega) hlt h1
  obtain rfl : bpb' = bpb := by omega
  obtain rfl : n' = n := Nat.eq_of_mul_eq_mul_right hpos (hlen'.symm.trans hlen)
  exact ⟨_, hformat⟩

/-- The action `format` turns every file of `n` whole blocks into a fresh volume. -/
theorem fresh_format (n bpb : Nat) {img : Image} (hpos : 0 < bpb) (hmod : bpb % 512 = 0)
    (hint : bpb < 2 ^ 31) (hlen : img.length = n * bpb) (hlt : img.length < 2 ^ 63)
    (hle : (volumeOf n bpb).datastart ≤ n) :
    Fresh (volumeOf n bpb) (format bpb img).2 := by
  obtain ⟨img', hformat⟩ := format_blocks n bpb hpos hmod hint hlen hlt
  refine ⟨⟨bpb, img, by omega, by omega, hlt, ?_⟩, hle⟩
  rw [hformat]

/-! ### The sizes `format` works on

`format_pass1` asks for a multiple of the block size and for nothing else. Behind the sixteen
reserved blocks a volume needs the blocks of its table and its directory: seventeen blocks are
always enough, and sixteen never are. -/

/-- The table of `n` blocks takes at least one block, and at most one for every 64 begun. -/
theorem tableSize_bounds {n bpb : Nat} (hn : 0 < n) (hpos : 0 < bpb) (hmod : bpb % 512 = 0) :
    0 < n * 8 / bpb + (if n * 8 % bpb = 0 then 0 else 1) ∧
      n * 8 / bpb + (if n * 8 % bpb = 0 then 0 else 1) ≤ n / 64 + 1 := by
  have hdm := Nat.div_add_mod (n * 8) bpb
  have hquot : n * 8 / bpb ≤ n / 64 := by
    calc n * 8 / bpb ≤ n * 8 / 512 := Nat.div_le_div_left (by omega) (by decide)
      _ = n / 64 := by omega
  constructor
  · by_cases hrem : n * 8 % bpb = 0
    · have hne : n * 8 / bpb ≠ 0 := by
        intro h0
        rw [h0, hrem] at hdm
        omega
      exact Nat.add_pos_left (Nat.pos_of_ne_zero hne) _
    · rw [if_neg hrem]
      exact Nat.succ_pos _
  · split <;> omega

/-- `datastart` is at most `blocks` from seventeen blocks on. -/
theorem volumeOf_datastart_le_iff {n bpb : Nat} (hpos : 0 < bpb) (hmod : bpb % 512 = 0)
    (hlt : n * bpb < 2 ^ 63) : (volumeOf n bpb).datastart ≤ n ↔ 17 ≤ n := by
  rcases Nat.eq_zero_or_pos n with rfl | hn
  · simp [volumeOf, u64, RESERVED_BLOCKS]
  · have hle : n * 512 ≤ n * bpb := Nat.mul_le_mul_left _ (by omega)
    obtain ⟨hlo, hhi⟩ := tableSize_bounds hn hpos hmod
    simp only [volumeOf, RESERVED_BLOCKS]
    rw [u64_of_lt (show n * 8 < 2 ^ 64 by omega)]
    generalize n * 8 / bpb + (if n * 8 % bpb = 0 then 0 else 1) = fatsize at hlo hhi ⊢
    rw [u64_of_lt (by omega)]
    omega

/-- `img` is what a format of `img₀` should leave: an image that opens with geometry `g`, as its
identity table says, with the reserved entries in front of an otherwise empty table and an empty
directory. -/
structure WellFormatted (g : Geometry) (img₀ img : Image) : Prop where
  length_eq : img.length = img₀.length
  datastart_le : g.datastart ≤ g.blocks
  reserved : ∀ b, b < g.datastart → fat g img b = RESERVED_BLOCK
  free : ∀ b, g.datastart ≤ b → g.fatLoc b + 8 ≤ g.dirstart * g.bytesperblock → fat g img b = 0
  empty : ∀ a, g.dirstart * g.bytesperblock ≤ a → a < g.datastart * g.bytesperblock →
    img.byte a = 0
  total_blocks : rdQword img 12 = g.blocks
  directory_size : rdQword img 20 = g.dirsize
  block_size : rdQword img 28 = g.bytesperblock
  reopened : readGeometry img.length img = .ok g

/-- `format` ends with a well-formed image. -/
def FormatsWell (blocksize : Int) (img₀ : Image) : Prop :=
  ∃ g img, format blocksize img₀ = (.ok g, img) ∧ WellFormatted g img₀ img

/-- **`format` on every image it accepts.** The image is well formed afterwards exactly when it
has at least seventeen blocks. -/
theorem formatsWell_iff {blocksize : Int} {img₀ img₁ : Image} (hlo : -2 ^ 31 ≤ blocksize)
    (hhi : blocksize < 2 ^ 31) (hlt : img₀.length < 2 ^ 63)
    (hpass : formatPass1 blocksize img₀ = .ok img₁) :
    FormatsWell blocksize img₀ ↔ 17 * (blocksize % 2 ^ 64).toNat ≤ img₀.length := by
  obtain ⟨n, bpb, hbpb, hpos, hmod, hlen, hformat⟩ := format_completes hlo hhi hlt hpass
  have hds := volumeOf_datastart_le_iff hpos hmod (hlen ▸ hlt)
  rw [← hbpb, hlen, Nat.mul_le_mul_right_iff hpos, ← hds]
  constructor
  · rintro ⟨g, img, hg, hwell⟩
    obtain ⟨hok, -⟩ := Prod.mk.inj (hformat.symm.trans hg)
    obtain rfl := Except.ok.inj hok
    exact hwell.datastart_le
  · intro hle
    obtain ⟨hform, himg, h12, hrest⟩ := format_spec hlo hhi hlt hformat hle
    obtain ⟨-, -, -, -, -, -, h28, h20⟩ := readGeometry_ok hform.opened
    have hfat := hform.sound.fat_le
    have hblocks := hform.datastart_le
    refine ⟨_, _, hformat, himg, hle, hform.reserved, ?_, ?_, h12, h20, h28, hform.opened⟩
    · intro b hb _
      exact Mem.qword_eq_zero fun i _ => hrest _ (by unfold Geometry.fatLoc; omega)
    · intro a ha _
      exact hrest a (by unfold Geometry.fatLoc; omega)

/-- Twenty blocks of 512 bytes. -/
theorem formatsWell_iff_twenty :
    FormatsWell 512 (List.replicate 10240 0)
      ↔ 17 * ((512 : Int) % 2 ^ 64).toNat ≤ (List.replicate 10240 (0 : UInt8)).length := by
  obtain ⟨img₁, h1⟩ := formatPass1_passes 20 512 (by decide) (by decide) (by decide)
    (show (List.replicate 10240 (0 : UInt8)).length = 20 * 512 from List.length_replicate)
  exact formatsWell_iff (by decide) (by decide) (by rw [List.length_replicate]; decide) h1

/-- `format_pass1` accepts sixteen blocks of 512 bytes. The data blocks of the volume would start
at block 17, and the image is not well formed afterwards. -/
theorem formatsWell_fails_sixteen :
    (∃ img₁, formatPass1 512 (List.replicate 8192 0) = .ok img₁) ∧
      (format 512 (List.replicate 8192 0)).1 = .ok (volumeOf 16 512) ∧
      (volumeOf 16 512).blocks = 16 ∧ (volumeOf 16 512).datastart = 17 ∧
      ¬ FormatsWell 512 (List.replicate 8192 0) := by
  have hlen : (List.replicate 8192 (0 : UInt8)).length = 16 * 512 := List.length_replicate
  obtain ⟨img', hformat⟩ := format_blocks 16 512 (by decide) (by decide) (by decide) hlen
    (by rw [hlen]; decide)
  refine ⟨formatPass1_passes 16 512 (by decide) (by decide) (by decide) hlen,
    congrArg Prod.fst hformat, rfl, by decide, ?_⟩
  rintro ⟨g, img, hg, hwell⟩
  obtain ⟨hok, -⟩ := Prod.mk.inj (hformat.symm.trans hg)
  obtain rfl := Except.ok.inj hok
  exact absurd hwell.datastart_le (by decide)

/-- A file of `n` zeroed blocks, formatted. -/
def freshImage (n bpb : Nat) : Image := (format bpb (List.replicate (n * bpb) 0)).2

theorem freshImage_fresh (n bpb : Nat) (hpos : 0 < bpb) (hmod : bpb % 512 = 0)
    (hint : bpb < 2 ^ 31) (hlt : n * bpb < 2 ^ 63) (hle : (volumeOf n bpb).datastart ≤ n) :
    Fresh (volumeOf n bpb) (freshImage n bpb) :=
  fresh_format n bpb hpos hmod hint List.length_replicate (by rwa [List.length_replicate]) hle

/-! ## The capacity of a formatted volume -/

/-- `import_chain` keeps to the free blocks of the volume: no block it hands out is at or beyond
`blocks`, nothing but free table entries in `[datastart, blocks)` and their blocks changes, and a
source that does not fit changes nothing. -/
structure Contained (g : Geometry) (source : List UInt8) (img : Image) (run : List Nat × Image) :
    Prop where
  handed_lt : ∀ b ∈ run.1, b < g.blocks
  same : SameOutside (footprint g {b | g.datastart ≤ b ∧ b < g.blocks ∧ fat g img b = 0}) img run.2
  directory : ∀ a, g.dirstart * g.bytesperblock ≤ a → a < g.datastart * g.bytesperblock →
    run.2.byte a = img.byte a
  not_grown : run.2.length = img.length
  refused : ¬ EnoughFree g img source.length → run.2 = img

/-- A run that stays on the volume is contained. -/
theorem Copied.contained {g : Geometry} (hg : g.Sound) {source : List UInt8} {img : Image}
    {run : List Nat × Image} (h : Copied g source 0 img run) : Contained g source img run := by
  refine ⟨fun b hb => (h.in_data b hb).2, h.same.mono (footprint_mono g fun b hb =>
    ⟨(h.in_data b hb).1, (h.in_data b hb).2, h.was_free b hb⟩), ?_, h.same.length_eq, ?_⟩
  · intro a hlo hhi
    apply h.same.byte_eq
    rintro ⟨d, hd, hin | hin⟩
    · have hfat := hg.fatLoc_le (h.in_data d hd).2
      omega
    · have hdata := hg.blockLoc_le (h.in_data d hd).1 (h.in_data d hd).2
      omega
  · intro hnot
    exact absurd h.enough hnot

/-- `import_chain` hands out blocks of the volume only exactly when it has enough free ones. -/
theorem Formatted.handed_lt_iff {g : Geometry} {img : Image} (h : Formatted g img)
    {source block_buf : List UInt8} (hbuf : block_buf.length = g.bytesperblock) :
    (∀ b ∈ (importRun g source block_buf img).1, b < g.blocks)
      ↔ EnoughFree g img source.length :=
  Echfs.handed_lt_iff h.sound h.length_eq (fun _ hd => h.reserved_ne_zero hd) hbuf

/-- The free blocks of a formatted volume are data blocks. -/
theorem Formatted.freeBlocks_subset {g : Geometry} {img : Image} (h : Formatted g img) :
    freeBlocks g img ⊆ Finset.Ico g.datastart g.blocks := by
  intro b hb
  obtain ⟨hlt, hz⟩ := mem_freeBlocks.mp hb
  refine Finset.mem_Ico.mpr ⟨?_, hlt⟩
  by_contra hlo
  exact h.reserved_ne_zero (not_le.mp hlo) hz

/-- With enough free blocks `import_chain` leaves the chain `Copied` describes. -/
theorem Formatted.importRun_copied {g : Geometry} {img : Image} (h : Formatted g img)
    {source block_buf : List UInt8} (hbuf : block_buf.length = g.bytesperblock)
    (henough : EnoughFree g img source.length) :
    Copied g source 0 img (importRun g source block_buf img) :=
  importRun_spec h.sound h.length_eq (fun _ hd => h.reserved_ne_zero hd) hbuf
    ((h.handed_lt_iff hbuf).mpr henough)

/-- **Containment.** On a formatted volume `import_chain` is contained exactly when there are
enough free blocks for the source. -/
theorem importChain_contained_iff {g : Geometry} {img : Image} (h : Formatted g img)
    {source block_buf : List UInt8} (hbuf : block_buf.length = g.bytesperblock) :
    Contained g source img (importRun g source block_buf img)
      ↔ EnoughFree g img source.length := by
  constructor
  · intro hc
    exact (h.handed_lt_iff hbuf).mp hc.handed_lt
  · intro henough
    exact (h.importRun_copied hbuf henough).contained h.sound

/-- A volume of 20 blocks of 512 bytes: two data blocks, numbers 18 and 19. -/
def smallVolume : Image := (format 512 (List.replicate 10240 0)).2

theorem smallVolume_fresh : Fresh (volumeOf 20 512) smallVolume :=
  fresh_format 20 512 (by decide) (by decide) (by decide)
    (by rw [List.length_replicate]) (by rw [List.length_replicate]; decide) (by decide)

/-- The two data blocks hold 1024 bytes: a source of one byte more makes `import_chain` hand out
a third block, number 20, at the end of the image. -/
theorem importChain_overruns :
    Formatted (volumeOf 20 512) smallVolume ∧
      ¬ Contained (volumeOf 20 512) (List.replicate 1025 0) smallVolume
        (importRun (volumeOf 20 512) (List.replicate 1025 0) (List.replicate 512 0) smallVolume) := by
  have hform := smallVolume_fresh.formatted
  refine ⟨hform, fun hc => ?_⟩
  have henough := (hform.handed_lt_iff List.length_replicate).mp hc.handed_lt
  have hcard := Finset.card_le_card hform.freeBlocks_subset
  have hfree : (Finset.Ico (volumeOf 20 512).datastart (volumeOf 20 512).blocks).card = 2 := by
    decide
  have hneed : blocksFor (volumeOf 20 512) 1025 = 3 := by decide
  rw [EnoughFree, List.length_replicate, hneed] at henough
  omega

/-- A source of 1024 bytes on the small volume. -/
theorem importChain_contained_small :
    Formatted (volumeOf 20 512) smallVolume ∧
      (Contained (volumeOf 20 512) (List.replicate 1024 0) smallVolume
          (importRun (volumeOf 20 512) (List.replicate 1024 0) (List.replicate 512 0) smallVolume)
        ↔ EnoughFree (volumeOf 20 512) smallVolume (List.replicate 1024 (0 : UInt8)).length) :=
  ⟨smallVolume_fresh.formatted,
    importChain_contained_iff smallVolume_fresh.formatted List.length_replicate⟩

end Windozz.Echfs

import Windozz.Echfs.Resolve

set_option autoImplicit false

/-! # `export` and `ls` on any image

The table an image comes with may link blocks in a circle, across files or past the volume, so
the chain is no measure of the loop of `export_chain`. What ends the loop is the length written:
it grows by a block each round, and the round in which it would pass the size field writes the
remainder and is the last (`exportChain_bounded`).

`export_cmd` and `ls_cmd` test `not_found` only. A path with a missing directory sets `failure`
instead, and both go on with the zeroed target: the destination is truncated and stays empty, and
the listing is that of directory 0 (`lookups_report_iff`).
-/

namespace Windozz.Echfs

/-! ## Blocks that are read whole -/

/-- A read into a buffer that holds it keeps the size of the buffer. -/
@[simp] theorem length_fread (data : List UInt8) (pos : Nat) {n : Nat} {buf : List UInt8}
    (h : n ≤ buf.length) : (fread data pos n buf).1.length = buf.length := by
  simp only [fread, List.length_append, List.length_take, List.length_drop]
  omega

/-- The block size of an image that opens is at most the size of the image. -/
theorem readGeometry_bytesperblock_le {img : Image} {g : Geometry}
    (h : readGeometry img.length img = .ok g) : g.bytesperblock ≤ img.length := by
  obtain ⟨hpos, himg, hblk, -⟩ := readGeometry_ok h
  have hne : img ≠ [] := by
    -- an empty file has no signature
    rintro rfl
    have hsig : (Image.byte []).read 4 8 ≠ SIGNATURE := by decide
    rw [readGeometry, if_pos hsig] at h
    cases h
  have hlen : 0 < img.length := List.length_pos_of_ne_nil hne
  rw [← himg, hblk] at hlen ⊢
  exact Nat.le_mul_of_pos_left _ (Nat.pos_of_mul_pos_right hlen)

/-! ## The length written -/

/-- The remainder fits behind whole blocks. -/
theorem whole_add_mod_le {n size bpb : Nat} (hn : n % bpb = 0) (hle : n ≤ size) :
    n + size % bpb ≤ size := by
  obtain ⟨k, rfl⟩ := Nat.dvd_of_mod_eq_zero hn
  have hmod : (size - bpb * k) % bpb = size % bpb := by
    conv_rhs => rw [← Nat.sub_add_cancel hle, Nat.add_mul_mod_self_left]
  have hrem := Nat.mod_le (size - bpb * k) bpb
  omega

/-- The loop from any round on: `dest` holds whole blocks and has not passed `size`. -/
theorem exportLoop_bounded {g : Geometry} (hpos : 0 < g.bytesperblock)
    (hblock : g.bytesperblock < 2 ^ 63) (img : Image) {size : Nat} (hsize : size < 2 ^ 63) :
    ∀ (fuel cur_block pos : Nat) {buf dest : List UInt8}, buf.length = g.bytesperblock →
      dest.length % g.bytesperblock = 0 → dest.length ≤ size → size < dest.length + fuel →
      ∃ out, exportLoop g img size fuel cur_block pos buf dest = some out ∧ out.length ≤ size := by
  intro fuel
  induction fuel with
  | zero =>
      intro cur_block pos buf dest _ _ hle hfuel
      omega
  | succ fuel ih =>
      intro cur_block pos buf dest hbuf hwhole hle hfuel
      rw [exportLoop]
      by_cases hend : cur_block = END_OF_CHAIN
      · rw [if_pos hend]
        exact ⟨dest, rfl, hle⟩
      · rw [if_neg hend]
        -- the sum compared with the size field does not wrap
        rw [u64_of_lt (show dest.length + g.bytesperblock < 2 ^ 64 by omega)]
        by_cases hlast : size ≤ dest.length + g.bytesperblock
        · simp only [if_pos hlast]
          refine ⟨_, rfl, ?_⟩
          have hrem := whole_add_mod_le hwhole hle
          rw [List.length_append, List.length_take]
          omega
        · simp only [if_neg hlast]
          have hbuf' : (fread img (fseek pos (u64 (cur_block * g.bytesperblock)))
              g.bytesperblock buf).1.length = g.bytesperblock := by
            rw [length_fread _ _ hbuf.ge, hbuf]
          have hdest : (dest ++ ((fread img (fseek pos (u64 (cur_block * g.bytesperblock)))
              g.bytesperblock buf).1.take g.bytesperblock)).length
                = dest.length + g.bytesperblock := by
            rw [List.length_append, List.length_take, hbuf', Nat.min_self]
          apply ih _ _ hbuf'
          · rw [hdest, Nat.add_mod_right]
            exact hwhole
          · rw [hdest]
            omega
          · rw [hdest]
            omega

/-- **`export_chain` ends.** On every image that opens, whatever its table holds, `export_chain`
terminates and writes at most as many bytes as the size field says. -/
theorem exportChain_bounded {img : Image} {g : Geometry}
    (hopen : readGeometry img.length img = .ok g) (hlt : img.length < 2 ^ 63) (src : Entry)
    (hsize : src.size.toNat < 2 ^ 63) (pos : Nat) {block_buf : List UInt8}
    (hbuf : block_buf.length = g.bytesperblock) :
    ∃ dest, exportChain g img src.payload.toNat src.size.toNat pos block_buf = some dest ∧
      dest.length ≤ src.size.toNat := by
  have hblock := readGeometry_bytesperblock_le hopen
  obtain ⟨hpos, -⟩ := readGeometry_ok hopen
  apply exportLoop_bounded hpos (by omega) img hsize _ _ _ hbuf
  · exact Nat.zero_mod _
  · exact Nat.zero_le _
  · rw [List.length_nil]
    omega

/-- Of an empty entry nothing is written. -/
theorem exportChain_zero {g : Geometry} {img : Image} {payload pos : Nat} {block_buf : List UInt8}
    (h : payload ≠ END_OF_CHAIN) : exportChain g img payload 0 pos block_buf = some [] := by
  rw [exportChain, exportLoop, if_neg h]
  simp

/-- A file entry that names more bytes than the small volume has, with a chain that leads from the
free block 18 over the reserved block 0 out of the volume. -/
def strayEntry : Entry := { Entry.zero with payload := 18, size := 100000 }

theorem exportChain_bounded_stray :
    ∃ dest, exportChain (volumeOf 20 512) smallVolume strayEntry.payload.toNat
      strayEntry.size.toNat 0 (List.replicate 512 0) = some dest ∧
      dest.length ≤ strayEntry.size.toNat :=
  exportChain_bounded smallVolume_fresh.formatted.opened smallVolume_fresh.formatted.length_lt
    strayEntry (by decide) 0 List.length_replicate

/-! ## Paths that are not found -/

/-- `export_cmd` has got as far as opening its destination. -/
def OpensDestination : Except Fault Report → Prop
  | .ok .destinationNotAccessible => True
  | .ok (.exported _) => True
  | .error .endless => True
  | _ => False

/-- `ls_cmd` has got as far as its loop. -/
def Lists : Except Fault ListReport × List UInt8 → Prop
  | (.ok .listed, _) => True
  | (_, out) => out ≠ []

/-- `export_cmd` opens its destination for existing files only, and reports every other path. It
has no image to change. -/
structure ExportMeets (es : List Entry) (path : List UInt8) (run : Except Fault Report) : Prop where
  opens : OpensDestination run → ResolvesTo es path FILE_TYPE
  reports : ¬ ResolvesTo es path FILE_TYPE → run = .ok .fileNotFound

/-- `ls_cmd` lists existing directories only, and reports every other path. -/
structure ListMeets (es : List Entry) (path : List UInt8)
    (run : Except Fault ListReport × List UInt8) : Prop where
  lists : Lists run → ResolvesTo es path DIRECTORY_TYPE
  reports : ¬ ResolvesTo es path DIRECTORY_TYPE → run = (.ok .invalidDirectory, [])

section Reports

variable {g : Geometry} {img : Image} {argv3 : List UInt8}

/-- `export_cmd` reports exactly the paths `path_resolver` does not find. -/
theorem exportCmd_fileNotFound_iff (writable : List UInt8 → Bool) (pos : Nat)
    (block_buf argv4 : List UInt8) (rest : List (List UInt8)) :
    exportCmd g writable pos block_buf (argv3 :: argv4 :: rest) img = .ok .fileNotFound
      ↔ NotFound g img argv3 FILE_TYPE := by
  rw [exportCmd, NotFound]
  cases hres : pathResolver g img argv3 FILE_TYPE with
  | error e => simp
  | ok r =>
      cases hnf : r.not_found with
      | true => simp [hnf]
      | false =>
          simp only [hnf, Bool.false_eq_true, if_false, Except.ok.injEq, exists_eq_left',
            iff_false]
          by_cases hw : writable argv4 = false
          · simp [hw]
          · rw [if_neg hw]
            cases exportChain g img r.target.payload.toNat r.target.size.toNat pos block_buf with
            | none => simp
            | some dest => simp

/-- The loop of `ls_cmd` does not report the directory. -/
theorem lsLoop_ne_invalidDirectory (id : UInt64) (fuel i : Nat) (out : List UInt8) :
    (lsLoop g img id fuel i out).1 ≠ .ok .invalidDirectory := by
  induction fuel generalizing i out with
  | zero => simp [lsLoop]
  | succ fuel ih =>
      rw [lsLoop]
      cases rdEntry g img i with
      | error e => simp
      | ok entry =>
          simp only
          split
          · simp
          · split
            · exact ih _ _
            · split
              · simp
              · exact ih _ _

/-- `ls_cmd` reports exactly the paths `path_resolver` does not find. -/
theorem lsCmd_invalidDirectory_iff (rest : List (List UInt8)) :
    lsCmd g (argv3 :: rest) img = (.ok .invalidDirectory, [])
      ↔ NotFound g img argv3 DIRECTORY_TYPE := by
  rw [lsCmd, NotFound]
  cases hres : pathResolver g img argv3 DIRECTORY_TYPE with
  | error e => simp
  | ok r =>
      cases hnf : r.not_found with
      | true => simp [hnf]
      | false =>
          have hloop : lsLoop g img r.target.payload SCAN_ROUNDS 0 []
              ≠ (.ok .invalidDirectory, []) :=
            fun hrun => lsLoop_ne_invalidDirectory _ _ _ _ (congrArg Prod.fst hrun)
          simp [hnf, hloop]

/-- With a missing directory `export_cmd` goes on with the zeroed target: nothing is written to the
destination it has opened. -/
theorem exportCmd_lost
    (h : pathResolver g img argv3 FILE_TYPE = .ok { PathResult.init with failure := true })
    {writable : List UInt8 → Bool} {argv4 : List UInt8} (hw : writable argv4 = true) (pos : Nat)
    (block_buf : List UInt8) (rest : List (List UInt8)) :
    exportCmd g writable pos block_buf (argv3 :: argv4 :: rest) img = .ok (.exported []) := by
  have hzero : exportChain g img Entry.zero.payload.toNat Entry.zero.size.toNat pos block_buf
      = some [] := exportChain_zero (by decide)
  simp [exportCmd, h, hw, PathResult.init, hzero]

/-- With a missing directory `ls_cmd` lists directory 0, which an empty table ends at once. -/
theorem lsCmd_lost {entry : Entry}
    (h : pathResolver g img argv3 DIRECTORY_TYPE = .ok { PathResult.init with failure := true })
    (hrd : rdEntry g img 0 = .ok entry) (hend : entry.parent_id = 0) (rest : List (List UInt8)) :
    lsCmd g (argv3 :: rest) img = (.ok .listed, []) := by
  have hrounds : SCAN_ROUNDS ≠ 0 := by decide
  rw [lsCmd, h]
  generalize SCAN_ROUNDS = rounds at hrounds ⊢
  cases rounds with
  | zero => exact absurd rfl hrounds
  | succ n => simp [PathResult.init, lsLoop, hrd, hend]

end Reports

/-- **The lookups of `export_cmd` and `ls_cmd`.** On every image and for every path, each command
does what it should exactly when the path leads to a file (a directory), or when `path_resolver`
gets as far as the last component, which it does for no path with a missing directory. -/
theorem lookups_report_iff (g : Geometry) (img : Image) (writable : List UInt8 → Bool) (pos : Nat)
    (block_buf argv3 argv4 : List UInt8) (rest rest' : List (List UInt8)) :
    (ExportMeets (entriesSeen g img) argv3
        (exportCmd g writable pos block_buf (argv3 :: argv4 :: rest) img)
      ↔ ResolvesTo (entriesSeen g img) argv3 FILE_TYPE ∨
        argv3 ≠ [SLASH] ∧ ReachesLast g img argv3) ∧
    (ListMeets (entriesSeen g img) argv3 (lsCmd g (argv3 :: rest') img)
      ↔ ResolvesTo (entriesSeen g img) argv3 DIRECTORY_TYPE ∨
        argv3 ≠ [SLASH] ∧ ReachesLast g img argv3) := by
  constructor
  · by_cases hres : ResolvesTo (entriesSeen g img) argv3 FILE_TYPE
    · exact ⟨fun _ => Or.inl hres, fun _ => ⟨fun _ => hres, fun hno => absurd hres hno⟩⟩
    · have hreport : exportCmd g writable pos block_buf (argv3 :: argv4 :: rest) img
          = .ok .fileNotFound ↔ argv3 ≠ [SLASH] ∧ ReachesLast g img argv3 :=
        (exportCmd_fileNotFound_iff _ _ _ _ _).trans
          (notFound_iff_of_not_resolvesTo (Or.inl rfl) hres)
      simp only [hres, false_or, ← hreport]
      refine ⟨fun h => h.reports hres, fun hrun => ⟨fun hopen => ?_, fun _ => hrun⟩⟩
      rw [hrun] at hopen
      exact hopen.elim
  · by_cases hres : ResolvesTo (entriesSeen g img) argv3 DIRECTORY_TYPE
    · exact ⟨fun _ => Or.inl hres, fun _ => ⟨fun _ => hres, fun hno => absurd hres hno⟩⟩
    · have hreport : lsCmd g (argv3 :: rest') img = (.ok .invalidDirectory, [])
          ↔ argv3 ≠ [SLASH] ∧ ReachesLast g img argv3 :=
        (lsCmd_invalidDirectory_iff _).trans (notFound_iff_of_not_resolvesTo (Or.inr rfl) hres)
      simp only [hres, false_or, ← hreport]
      refine ⟨fun h => h.reports hres, fun hrun => ⟨fun hlist => ?_, fun _ => hrun⟩⟩
      rw [hrun] at hlist
      exact absurd rfl hlist

/-- The path `a/b` on the small volume, where no directory `a` exists: the destination is opened
and left empty, and the listing is empty; neither command reports the path. -/
theorem lookups_unreported :
    ¬ ResolvesTo (entriesSeen (volumeOf 20 512) smallVolume) [97, 47, 98] FILE_TYPE ∧
    ¬ ResolvesTo (entriesSeen (volumeOf 20 512) smallVolume) [97, 47, 98] DIRECTORY_TYPE ∧
    exportCmd (volumeOf 20 512) (fun _ => true) 0 (List.replicate 512 0) [[97, 47, 98], [99]]
      smallVolume = .ok (.exported []) ∧
    lsCmd (volumeOf 20 512) [[97, 47, 98]] smallVolume = (.ok .listed, []) ∧
    ¬ ExportMeets (entriesSeen (volumeOf 20 512) smallVolume) [97, 47, 98]
      (exportCmd (volumeOf 20 512) (fun _ => true) 0 (List.replicate 512 0) [[97, 47, 98], [99]]
        smallVolume) ∧
    ¬ ListMeets (entriesSeen (volumeOf 20 512) smallVolume) [97, 47, 98]
      (lsCmd (volumeOf 20 512) [[97, 47, 98]] smallVolume) := by
  have hg := smallVolume_fresh.formatted.sound
  have hlen := smallVolume_fresh.formatted.length_eq
  have hlisted := smallVolume_fresh.volume.table.listed
  have hseen : entriesSeen (volumeOf 20 512) smallVolume = [] := entriesSeen_listed hg hlen hlisted
  have hend : tableEnd (volumeOf 20 512) smallVolume = .ok () :=
    (tableEnd_listed hg hlen hlisted).trans (if_pos (by decide))
  have hno : ∀ type, ¬ ResolvesTo [] [97, 47, 98] type := by
    rintro type ⟨d, i, e, hd, -⟩
    cases hd
  have hlost : ∀ type, pathResolver (volumeOf 20 512) smallVolume [97, 47, 98] type
      = .ok { PathResult.init with failure := true } := by
    intro type
    rw [pathResolver_names (by simp [RootPath, SLASH]), hseen, hend]
    rfl
  have hexport : exportCmd (volumeOf 20 512) (fun _ => true) 0 (List.replicate 512 0)
      [[97, 47, 98], [99]] smallVolume = .ok (.exported []) := exportCmd_lost (hlost _) rfl 0 _ []
  have hls := lsCmd_lost (hlost _) (rdEntry_lt hg hlen (show 0 < 2 by decide))
    (hlisted.stop (show 0 < 2 by decide)) []
  rw [hseen, hexport, hls]
  refine ⟨hno _, hno _, rfl, rfl, fun h => ?_, fun h => ?_⟩
  · exact absurd (h.reports (hno _)) (by simp)
  · exact absurd (h.reports (hno _)) (by simp)

end Windozz.Echfs

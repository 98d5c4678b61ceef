import Windozz.Echfs.Files

set_option autoImplicit false

/-! # Import followed by export

`export_chain` walks the chain `import_chain` built and stops by comparing the length written so
far with the size field. Of the block it stops at it writes `size % bytesperblock` bytes, which is
none when the block is full. A file comes back whole, through any run in between, exactly when it
is empty or its last block is not full (`import_run_export`); otherwise the last block is missing.
-/

namespace Windozz.Echfs

open Relation

/-! ## The exported part of a file -/

/-- The exported part is the whole file unless the last block is full. -/
theorem take_exportedLength_iff {g : Geometry} (hpos : 0 < g.bytesperblock) (source : List UInt8) :
    source.take (exportedLength g source.length) = source
      ↔ source.length = 0 ∨ source.length % g.bytesperblock ≠ 0 := by
  rw [List.take_eq_self_iff, exportedLength]
  by_cases hmod : source.length % g.bytesperblock = 0
  · rw [if_pos hmod]
    omega
  · rw [if_neg hmod]
    exact ⟨fun _ => Or.inr hmod, fun _ => le_refl _⟩

/-- `export_chain` along the chain of a file. -/
theorem FileChain.exportChain_eq {g : Geometry} (hg : g.Sound) {img : Image}
    (hlen : img.length = g.imgsize) {e : Entry} {bs : List Nat} (h : FileChain g img e bs)
    {source : List UInt8} (hsize : e.size.toNat = source.length) (hle : source.length ≤ g.imgsize)
    (hcontent : ∀ k b, bs[k]? = some b →
      (block g img b).take ((source.drop (k * g.bytesperblock)).take g.bytesperblock).length
        = (source.drop (k * g.bytesperblock)).take g.bytesperblock)
    (pos : Nat) (block_buf : List UInt8) :
    exportChain g img e.payload.toNat e.size.toNat pos block_buf
      = some (source.take (exportedLength g source.length)) := by
  obtain ⟨l, rfl⟩ : ∃ l, bs = e.payload.toNat :: l := by
    have hhead := h.head_eq
    cases bs with
    | nil => cases hhead
    | cons b l => exact ⟨l, by rw [Option.some.inj hhead]⟩
  have himg := hg.imgsize_lt
  have hbpb : g.bytesperblock ≤ g.imgsize := by
    have hdata := hg.data_le
    have hmul := Nat.le_mul_of_pos_left g.bytesperblock hg.datastart_pos
    omega
  have hspec : exportLoop g img source.length (source.length + 1) e.payload.toNat pos block_buf []
      = some ([] ++ (source.drop 0).take (exportedLength g source.length - 0)) :=
    exportLoop_spec hg hlen (by omega) h.linked h.in_data (Nat.zero_mod _) (Nat.zero_le _)
      (by rw [h.length_eq, hsize, List.length_nil, Nat.sub_zero])
      (by simpa using hcontent) (by simp)
  rw [exportChain, hsize, hspec]
  simp

/-- There was room for an imported file. -/
theorem Imported.enough {g : Geometry} {source argv4 : List UInt8} {img img' : Image}
    {es : List Entry} {e : Entry} {c : List Nat} (h : Imported g source argv4 img img' es e c) :
    EnoughFree g img source.length := by
  have hsub : c.toFinset ⊆ freeBlocks g img := by
    intro b hb
    have hb' : b ∈ c := List.mem_toFinset.mp hb
    exact mem_freeBlocks.mpr ⟨(h.in_data b hb').2, h.was_free b hb'⟩
  rw [EnoughFree, ← h.length_eq, ← List.toFinset_card_of_nodup h.linked.nodup]
  exact Finset.card_le_card hsub

/-- **`export_cmd`** of an imported file, after any run. -/
theorem Imported.exportCmd_eq {g : Geometry} {source argv4 : List UInt8} {img img₁ img₂ : Image}
    {es : List Entry} {e : Entry} {bs : List Nat} (h : Imported g source argv4 img img₁ es e bs)
    (hrun : Run img₁ img₂) {writable : List UInt8 → Bool} {dest : List UInt8}
    (hwritable : writable dest = true) (pos : Nat) (block_buf : List UInt8)
    (rest : List (List UInt8)) :
    exportCmd g writable pos block_buf (argv4 :: dest :: rest) img₂
      = .ok (.exported (source.take (exportedLength g source.length))) := by
  obtain ⟨es', hvol⟩ := h.volume.run hrun
  obtain ⟨hchain, hkept⟩ := h.fileChain.run h.volume hrun
  obtain ⟨p, n, hw, hnew, hparent, hname⟩ := h.walked
  have hg := h.volume.formatted.sound
  have hlen := hvol.formatted.length_eq
  -- the path leads to the entry the import added
  have hw' : walk (es ++ [e] ++ es') (relative argv4) [] rootParent = some (p, n) := by
    rw [List.append_assoc]
    exact walk_append hw
  have hl : lookup (es ++ [e] ++ es') n p.payload FILE_TYPE = some es.length :=
    lookup_append (lookup_added hnew hparent h.type_eq hname)
  have he : (es ++ [e] ++ es')[es.length]? = some e := by simp
  have hres := pathResolver_found hg hlen hvol.table.listed (fun hr => h.path_ne hr.1) hw' hl he
  have hcontent : ∀ k b, bs[k]? = some b →
      (block g img₂ b).take ((source.drop (k * g.bytesperblock)).take g.bytesperblock).length
        = (source.drop (k * g.bytesperblock)).take g.bytesperblock := by
    intro k b hk
    rw [(hkept b (List.mem_of_getElem? hk)).2]
    exact h.content k b hk
  have hexp := hchain.exportChain_eq hg hlen h.size_eq (h.enough.le_imgsize hg) hcontent pos block_buf
  simp only [exportCmd, hres, PathResult.found, PathResult.init, Bool.false_eq_true, if_false,
    hwritable, Bool.true_eq_false, hexp]

/-! ## The round trip -/

section RoundTrip

variable {g : Geometry} {img₀ img img₁ img₂ : Image} {host : List UInt8 → HostFile}
  {clock : Nat → UInt64} {block_buf block_buf' source dest : List UInt8} (argv3 argv4 : CString)
  {writable : List UInt8 → Bool} {pos : Nat}

/-- What is exported after an import and a run. -/
theorem Volume.export_after_import {es : List Entry} (hvol : Volume g img es)
    (hbuf : block_buf.length = g.bytesperblock) (hsource : (host argv3.val).contents = some source)
    (henough : EnoughFree g img source.length)
    (himport : importCmd g host clock block_buf [argv3.val, argv4.val] img
      = (.ok .imported, img₁))
    (hrun : Run img₁ img₂) (hwritable : writable dest = true) :
    readGeometry img₂.length img₂ = .ok g ∧
      exportCmd g writable pos block_buf' [argv4.val, dest] img₂
        = .ok (.exported (source.take (exportedLength g source.length))) := by
  rcases hvol.importCmd_adds (nul_free [argv3, argv4]) hbuf himport (fun _ argv3' contents hargs hc => by
      obtain rfl : argv3.val = argv3' := Option.some.inj hargs
      obtain rfl : source = contents := Option.some.inj (hsource.symm.trans hc)
      exact henough) with
    ⟨hne, -⟩ | ⟨-, ds, img', _, _, _, contents, e, c, hargs, hc, hprep, himp⟩
  · exact absurd rfl hne
  · obtain ⟨rfl, htl⟩ := List.cons.inj hargs
    obtain ⟨rfl, -⟩ := List.cons.inj htl
    obtain rfl : source = contents := Option.some.inj (hsource.symm.trans hc)
    obtain ⟨es', hvol'⟩ := himp.volume.run hrun
    exact ⟨hvol'.formatted.opened, himp.exportCmd_eq hrun hwritable pos block_buf' []⟩

/-- **Round trip.** On a formatted volume with enough free blocks, a file that was imported is
exported, after any further sequence of completed `mkdir` and `import` commands, byte for byte
exactly when it is empty or its length is no multiple of the block size. -/
theorem import_run_export (hfresh : Fresh g img₀) (hrun₀ : Run img₀ img)
    (hbuf : block_buf.length = g.bytesperblock) (hsource : (host argv3.val).contents = some source)
    (henough : EnoughFree g img source.length)
    (himport : importCmd g host clock block_buf [argv3.val, argv4.val] img
      = (.ok .imported, img₁))
    (hrun : Run img₁ img₂) (hwritable : writable dest = true) :
    ∃ exported, readGeometry img₂.length img₂ = .ok g ∧
      exportCmd g writable pos block_buf' [argv4.val, dest] img₂ = .ok (.exported exported) ∧
      (exported = source ↔ source.length = 0 ∨ source.length % g.bytesperblock ≠ 0) := by
  obtain ⟨es, hvol⟩ := hfresh.volume.run hrun₀
  obtain ⟨hopen, hexp⟩ := hvol.export_after_import argv3 argv4 hbuf hsource henough himport
    hrun hwritable
  exact ⟨_, hopen, hexp,
    take_exportedLength_iff hvol.formatted.sound.bytesperblock_pos source⟩

end RoundTrip

/-! ### On the small volume -/

/-- The two data blocks of the small volume are free. -/
theorem smallVolume_enough {n : Nat} (hn : n ≤ 1024) :
    EnoughFree (volumeOf 20 512) smallVolume n := by
  have hfree : (volumeOf 20 512).blocks - (volumeOf 20 512).datastart = 2 := by decide
  apply smallVolume_fresh.enough
  rw [hfree]
  simp only [blocksFor, volumeOf]
  omega

/-- `import s f` on the small volume, for a file `s` of at most 1024 bytes. -/
theorem smallVolume_import (source : List UInt8) (hn : source.length ≤ 1024) :
    ∃ img₁, importCmd (volumeOf 20 512) (fun _ => ⟨true, some source⟩) (fun _ => 0)
      (List.replicate 512 0) [[115], [102]] smallVolume = (.ok .imported, img₁) :=
  smallVolume_fresh.volume.importCmd_imported (p := rootParent) (n := [102]) List.length_replicate
    rfl rfl (smallVolume_enough hn) (by decide) (by decide) rfl rfl

/-- A file of exactly one block comes back empty. -/
theorem import_export_loses_block :
    ∃ img₁, importCmd (volumeOf 20 512) (fun _ => ⟨true, some (List.replicate 512 7)⟩)
        (fun _ => 0) (List.replicate 512 0) [[115], [102]] smallVolume = (.ok .imported, img₁) ∧
      EnoughFree (volumeOf 20 512) smallVolume 512 ∧
      exportCmd (volumeOf 20 512) (fun _ => true) 0 (List.replicate 512 0) [[102], [100]] img₁
        = .ok (.exported []) := by
  have hlen : (List.replicate 512 (7 : UInt8)).length = 512 := List.length_replicate
  have henough : EnoughFree (volumeOf 20 512) smallVolume 512 := smallVolume_enough (by decide)
  obtain ⟨img₁, himport⟩ := smallVolume_import (List.replicate 512 7) (by rw [hlen]; decide)
  refine ⟨img₁, himport, henough, ?_⟩
  refine (smallVolume_fresh.volume.export_after_import ⟨[115], by decide⟩ ⟨[102], by decide⟩
    List.length_replicate rfl (by rw [hlen]; exact henough) himport ReflTransGen.refl rfl).2.trans ?_
  rw [hlen]
  rfl

/-- A file of three bytes comes back. -/
theorem import_run_export_three :
    ∃ img₁ exported, readGeometry img₁.length img₁ = .ok (volumeOf 20 512) ∧
      exportCmd (volumeOf 20 512) (fun _ => true) 0 [] [[102], [100]] img₁
        = .ok (.exported exported) ∧
      (exported = [1, 2, 3] ↔ ([1, 2, 3] : List UInt8).length = 0 ∨
        ([1, 2, 3] : List UInt8).length % (volumeOf 20 512).bytesperblock ≠ 0) := by
  obtain ⟨img₁, himport⟩ := smallVolume_import [1, 2, 3] (by decide)
  exact ⟨img₁, import_run_export ⟨[115], by decide⟩ ⟨[102], by decide⟩ smallVolume_fresh
    ReflTransGen.refl List.length_replicate rfl
    (smallVolume_enough (by decide)) himport ReflTransGen.refl rfl⟩

end Windozz.Echfs

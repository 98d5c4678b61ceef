import Windozz.Echfs.Commands
import Windozz.Echfs.Format
import Windozz.Echfs.Tree

set_option autoImplicit false

/-! # Volumes and runs of commands

`Volume g img es` is the state of a volume between two commands: formatted, with the entries `es`
in the directory, and these a tree. A run of `echfs-utils` opens the image and performs one
command (`Step`); a history of a volume is a sequence of such runs (`Run`).

`mkdir` adds a directory entry or nothing (`Volume.mkdirCmd_adds`); `import` adds directories and, if it
gets that far, a chain of free blocks and a file entry (`Volume.importCmd_adds`). Both leave the blocks
of all other files alone.
-/

namespace Windozz.Echfs

open Relation

/-! ## Volumes -/

/-- A volume between two commands. -/
structure Volume (g : Geometry) (img : Image) (es : List Entry) : Prop where
  formatted : Formatted g img
  table : Table g img es
  tree : Tree es

/-- Allocation table and data blocks agree. -/
structure SameData (g : Geometry) (img img' : Image) : Prop where
  fat_eq : ∀ b, b < g.blocks → fat g img' b = fat g img b
  block_eq : ∀ b, g.datastart ≤ b → b < g.blocks → block g img' b = block g img b

theorem SameData.refl (g : Geometry) (img : Image) : SameData g img img :=
  ⟨fun _ _ => rfl, fun _ _ _ => rfl⟩

theorem SameData.trans {g : Geometry} {img img' img'' : Image} (h : SameData g img img')
    (h' : SameData g img' img'') : SameData g img img'' :=
  ⟨fun b hb => (h'.fat_eq b hb).trans (h.fat_eq b hb),
    fun b hlo hb => (h'.block_eq b hlo hb).trans (h.block_eq b hlo hb)⟩

theorem SameData.freeBlocks_eq {g : Geometry} {img img' : Image} (h : SameData g img img') :
    freeBlocks g img' = freeBlocks g img := by
  ext b
  rw [mem_freeBlocks, mem_freeBlocks]
  constructor
  · rintro ⟨hb, hz⟩
    exact ⟨hb, (h.fat_eq b hb).symm.trans hz⟩
  · rintro ⟨hb, hz⟩
    exact ⟨hb, (h.fat_eq b hb).trans hz⟩

namespace Volume

variable {g : Geometry} {img img' : Image} {es : List Entry} (h : Volume g img es)
include h

theorem entries_bound : es.length < 2 ^ 63 :=
  lt_of_le_of_lt h.table.fits (entries_lt h.formatted.sound)

/-- A directory a walk ends in is the root or has an id of its own. -/
theorem walked_id {p : Entry} (hp : p = rootParent ∨ p ∈ es ∧ p.type = DIRECTORY_TYPE) :
    p.payload ≠ 0 ∧ p.payload ≠ DELETED_ENTRY := by
  rcases hp with rfl | ⟨hmem, htype⟩
  · decide
  · obtain ⟨h0, -, hdel⟩ := h.tree.id_ne h.entries_bound (mem_dirIds hmem htype)
    exact ⟨h0, hdel⟩

/-- Writing a new entry into the first unused slot. -/
theorem addEntry {p e : Entry} {n path : List UInt8} (hslot : es.length < g.entries)
    (h0 : 0 ∉ path) (hw : walk es path [] rootParent = some (p, n))
    (hparent : e.parent_id = p.payload) (hname : e.name = NameField.store n)
    (hnew : lookup es n p.payload e.type = none)
    (hid : e.type = DIRECTORY_TYPE → e.payload = freeId es) :
    Volume g (img.write (g.entryLoc es.length) e.encode) (es ++ [e]) ∧
      SameData g img (img.write (g.entryLoc es.length) e.encode) := by
  have hg := h.formatted.sound
  have hlen := h.formatted.length_eq
  obtain ⟨hn, hslash, hnul, hp⟩ := walk_some hw
  obtain ⟨hid0, hdel⟩ := h.walked_id hp
  have hsame := wrEntry_same hg hlen hslot e
  refine ⟨⟨h.formatted.of_entry hslot hsame, ?_, ?_⟩, ?_, ?_⟩
  · exact h.table.append hg hlen hslot (by rw [hparent]; exact hid0) (by rw [hparent]; exact hdel)
  · exact h.tree.append hp hparent hn (hnul (by simp) h0) (hslash (by simp)) hname hnew hid
  · exact fun b hb => fat_of_entry hg hslot hsame hb
  · exact fun b hlo hb => block_of_entry hg hslot hsame hlo hb

/-- **`mkdir_cmd`** adds one directory, or changes nothing. -/
theorem mkdirCmd_adds {now : UInt64} {args : List (List UInt8)} {r : Report}
    (h0 : ∀ s ∈ args, 0 ∉ s) (hrun : mkdirCmd g now args img = (.ok r, img')) :
    ∃ ds, Volume g img' (es ++ ds) ∧ (∀ d ∈ ds, d.type = DIRECTORY_TYPE) ∧
      SameData g img img' := by
  have hg := h.formatted.sound
  have hlen := h.formatted.length_eq
  have hnone : img' = img → ∃ ds, Volume g img' (es ++ ds) ∧
      (∀ d ∈ ds, d.type = DIRECTORY_TYPE) ∧ SameData g img img' := by
    rintro rfl
    exact ⟨[], by rw [List.append_nil]; exact h, by simp, SameData.refl _ _⟩
  cases args with
  | nil => exact hnone (Prod.mk.inj hrun).2.symm
  | cons argv3 args =>
      rw [mkdirCmd] at hrun
      cases hres : pathResolver g img argv3 DIRECTORY_TYPE with
      | error e => simp only [hres] at hrun; cases hrun
      | ok path_result =>
          simp only [hres] at hrun
          by_cases hnf : path_result.not_found = false
          · rw [if_pos hnf] at hrun
            exact hnone (Prod.mk.inj hrun).2.symm
          · rw [if_neg hnf] at hrun
            obtain ⟨hpath, hslot, -, hw, hnew⟩ := pathResolver_not_found hg hlen h.table.listed
              (Or.inr rfl) hres (by simpa using hnf)
            simp only [findEmpty_table hg hlen h.table, getFreeId_listed hg hlen h.table.listed,
              if_pos hslot, wrEntry_lt hg hslot] at hrun
            obtain rfl := (Prod.mk.inj hrun).2
            obtain ⟨hvol, hsame⟩ := h.addEntry
              (e := directoryEntry path_result.parent.payload path_result.name (freeId es) now)
              hslot (relative_nul (h0 argv3 (by simp))) hw rfl rfl hnew fun _ => rfl
            exact ⟨_, hvol, by simp [directoryEntry], hsame⟩

/-- `mkdir_cmd` of a new name in a directory that exists succeeds while there is a free slot. -/
theorem mkdirCmd_created (now : UInt64) (rest : List (List UInt8)) {argv3 n : List UInt8}
    {p : Entry} (hpath : argv3 ≠ [SLASH]) (hslot : es.length < g.entries)
    (hw : walk es (relative argv3) [] rootParent = some (p, n))
    (hnew : lookup es n p.payload DIRECTORY_TYPE = none) :
    mkdirCmd g now (argv3 :: rest) img = (.ok .created,
      img.write (g.entryLoc es.length) (directoryEntry p.payload n (freeId es) now).encode) := by
  have hg := h.formatted.sound
  have hlen := h.formatted.length_eq
  simp only [mkdirCmd, pathResolver_missing hg hlen h.table.listed (fun hr => hpath hr.1) hw hnew hslot,
    findEmpty_table hg hlen h.table, getFreeId_listed hg hlen h.table.listed, if_pos hslot,
    wrEntry_lt hg hslot]
  rfl

omit h in
/-- A `mkdir` that faults has written nothing. -/
theorem mkdirCmd_fault {now : UInt64} {args : List (List UInt8)} {e : Fault}
    (hrun : mkdirCmd g now args img = (.error e, img')) : img' = img := by
  cases args with
  | nil => cases hrun
  | cons argv3 args =>
      rw [mkdirCmd] at hrun
      split at hrun
      · exact (Prod.mk.inj hrun).2.symm
      · split at hrun
        · cases hrun
        · split at hrun
          · exact (Prod.mk.inj hrun).2.symm
          · split at hrun
            · exact (Prod.mk.inj hrun).2.symm
            · split at hrun
              · exact (Prod.mk.inj hrun).2.symm
              · cases hrun

/-- The `subdir` loop of `import_cmd` adds directories only, however it ends. -/
theorem makeDirs_adds {clock : Nat → UInt64} {argv4 rest newdirname : List UInt8}
    {out : Except Fault Unit} (hrest : 0 ∉ rest) (hnew : 0 ∉ newdirname)
    (hrun : makeDirs g clock argv4 rest newdirname img = (out, img')) :
    ∃ ds, Volume g img' (es ++ ds) ∧ (∀ d ∈ ds, d.type = DIRECTORY_TYPE) ∧
      SameData g img img' := by
  have hnone : ∃ ds, Volume g img (es ++ ds) ∧ (∀ d ∈ ds, d.type = DIRECTORY_TYPE) ∧
      SameData g img img :=
    ⟨[], by rw [List.append_nil]; exact h, by simp, SameData.refl _ _⟩
  -- every way out of a round leaves a volume with the directories made so far
  induction rest generalizing newdirname img es with
  | nil =>
      rw [makeDirs] at hrun
      obtain rfl := (Prod.mk.inj hrun).2
      exact hnone
  | cons c rest ih =>
      have hrest' : 0 ∉ rest := fun hmem => hrest (List.mem_cons_of_mem _ hmem)
      have hnew' : 0 ∉ newdirname ++ [c] := by
        simp only [List.mem_cons, not_or] at hrest
        simp [hnew, hrest.1]
      rw [makeDirs] at hrun
      by_cases hlen : NEWDIRNAME_LEN ≤ newdirname.length
      · rw [if_pos hlen] at hrun
        obtain rfl := (Prod.mk.inj hrun).2
        exact hnone
      · rw [if_neg hlen] at hrun
        by_cases hc : c = SLASH
        · rw [if_pos hc] at hrun
          cases hmk : mkdirCmd g (clock newdirname.length) [newdirname] img with
          | mk made img₁ =>
              cases made with
              | error e =>
                  simp only [hmk] at hrun
                  obtain rfl := (Prod.mk.inj hrun).2
                  obtain rfl := mkdirCmd_fault hmk
                  exact hnone
              | ok r =>
                  obtain ⟨ds, hvol, hdirs, hsame⟩ := h.mkdirCmd_adds (by simpa using hnew) hmk
                  simp only [hmk] at hrun
                  cases hres : pathResolver g img₁ argv4 FILE_TYPE with
                  | error e =>
                      simp only [hres] at hrun
                      obtain rfl := (Prod.mk.inj hrun).2
                      exact ⟨ds, hvol, hdirs, hsame⟩
                  | ok path_result =>
                      simp only [hres] at hrun
                      by_cases hf : path_result.failure = true
                      · rw [if_pos hf] at hrun
                        obtain ⟨ds', hvol', hdirs', hsame'⟩ := ih hvol hrest' hnew' hrun
                          ⟨[], by rw [List.append_nil]; exact hvol, by simp, SameData.refl _ _⟩
                        refine ⟨ds ++ ds', by rw [← List.append_assoc]; exact hvol', ?_,
                          hsame.trans hsame'⟩
                        intro d hd
                        rcases List.mem_append.mp hd with hd | hd
                        · exact hdirs d hd
                        · exact hdirs' d hd
                      · rw [if_neg hf] at hrun
                        obtain rfl := (Prod.mk.inj hrun).2
                        exact ⟨ds, hvol, hdirs, hsame⟩
        · rw [if_neg hc] at hrun
          exact ih h hrest' hnew' hrun hnone

end Volume

/-! ## `import_cmd` -/

/-- What an import of `source` under `argv4` leaves: the chain `bs` of free blocks with the contents
of the source, and the file entry `e` that names it. -/
structure Imported (g : Geometry) (source argv4 : List UInt8) (img img' : Image) (es : List Entry)
    (e : Entry) (bs : List Nat) : Prop where
  volume : Volume g img' (es ++ [e])
  path_ne : argv4 ≠ [SLASH]
  walked : ∃ p n, walk es (relative argv4) [] rootParent = some (p, n) ∧
    lookup es n p.payload FILE_TYPE = none ∧ e.parent_id = p.payload ∧ e.name.cstr = n
  type_eq : e.type = FILE_TYPE
  size_eq : e.size.toNat = source.length
  head_eq : bs.head? = some e.payload.toNat
  in_data : InData g {b | b ∈ bs}
  was_free : ∀ b ∈ bs, fat g img b = 0
  length_eq : bs.length = blocksFor g source.length
  linked : Linked (fatNext g img') bs
  content : ∀ k b, bs[k]? = some b →
    (block g img' b).take ((source.drop (k * g.bytesperblock)).take g.bytesperblock).length
      = (source.drop (k * g.bytesperblock)).take g.bytesperblock
  fat_eq : ∀ b, b < g.blocks → b ∉ bs → fat g img' b = fat g img b
  block_eq : ∀ b, g.datastart ≤ b → b < g.blocks → b ∉ bs → block g img' b = block g img b

/-- A file for which there are enough free blocks is smaller than the image. -/
theorem EnoughFree.le_imgsize {g : Geometry} (hg : g.Sound) {img : Image} {n : Nat}
    (h : EnoughFree g img n) : n ≤ g.imgsize := by
  have hpos := hg.bytesperblock_pos
  have hcard : (freeBlocks g img).card ≤ g.blocks := by
    have hle := Finset.card_filter_le (Finset.range g.blocks) (fun b => fat g img b = 0)
    rwa [Finset.card_range] at hle
  have hblocks : (n + g.bytesperblock - 1) / g.bytesperblock ≤ g.blocks :=
    le_trans (le_max_right _ _) (le_trans h hcard)
  have hmul := (Nat.div_le_iff_le_mul_add_pred hpos).mp hblocks
  rw [hg.imgsize_eq, Nat.mul_comm]
  omega

/-- The copying loop leaves the directory alone. -/
theorem Volume.copied {g : Geometry} {img : Image} {es : List Entry} (h : Volume g img es)
    {source : List UInt8} {run : List Nat × Image} (hc : Copied g source 0 img run) :
    Volume g run.2 es :=
  ⟨h.formatted.of_footprint hc.in_data hc.same,
    h.table.of_entryBytes fun _ hi _ ha =>
      entryByte_of_sameOutside h.formatted.sound hc.in_data hc.same hi ha, h.tree⟩

/-- **`import_cmd`**, behind the directories: the image is unchanged, or a file has been added. -/
theorem Volume.importFile_adds {g : Geometry} {img img' : Image} {es : List Entry} (h : Volume g img es)
    {source : Option (List UInt8)} {now : UInt64} {block_buf argv4 : List UInt8} {r : Report}
    (h0 : 0 ∉ argv4) (hbuf : block_buf.length = g.bytesperblock)
    (hrun : importFile g source now block_buf argv4 img = (.ok r, img'))
    (henough : r = .imported → ∀ contents, source = some contents →
      EnoughFree g img contents.length) :
    r ≠ .imported ∧ img' = img ∨
      r = .imported ∧ ∃ contents e c, source = some contents ∧
        Imported g contents argv4 img img' es e c := by
  have hg := h.formatted.sound
  have hlen := h.formatted.length_eq
  rw [importFile] at hrun
  cases hres : pathResolver g img argv4 FILE_TYPE with
  | error e => simp only [hres] at hrun; cases hrun
  | ok path_result =>
      simp only [hres] at hrun
      by_cases hnf : path_result.not_found = false
      · rw [if_pos hnf] at hrun
        obtain ⟨hr, himg⟩ := Prod.mk.inj hrun
        exact Or.inl ⟨by rw [← Except.ok.inj hr]; simp, himg.symm⟩
      · rw [if_neg hnf] at hrun
        cases source with
        | none =>
            obtain ⟨hr, himg⟩ := Prod.mk.inj hrun
            exact Or.inl ⟨by rw [← Except.ok.inj hr]; simp, himg.symm⟩
        | some contents =>
            obtain ⟨hpath, hslot, -, hw, hnew⟩ := pathResolver_not_found hg hlen h.table.listed
              (Or.inl rfl) hres (by simpa using hnf)
            -- past the resolver only `imported` is left, so the free blocks are promised
            have hrep : r = .imported := by
              simp only at hrun
              split at hrun
              · cases hrun
              · split at hrun
                · cases hrun
                · exact (Except.ok.inj (Prod.mk.inj hrun).1).symm
            have hfree := henough hrep contents rfl
            have hcopied := h.formatted.importRun_copied hbuf hfree
            have hhead := importChain_head g contents block_buf img
            have hvol := h.copied hcopied
            have hlen' := hvol.formatted.length_eq
            have hsize := hfree.le_imgsize hg
            have himg := hg.imgsize_lt
            obtain ⟨hstart, hstartlt⟩ := hcopied.in_data _ (List.mem_of_mem_head? hhead)
            have hblocks := hg.blocks_lt
            simp only [importChain, findEmpty_table hg hlen' hvol.table, if_pos hslot,
              wrEntry_lt hg hslot] at hrun
            obtain rfl := (Prod.mk.inj hrun).2
            obtain ⟨hvol', hsame⟩ := hvol.addEntry
              (e := fileEntry path_result.parent.payload path_result.name (findFree g img)
                contents.length now) hslot (relative_nul h0) hw rfl rfl hnew (fun hd => by
                  simp [fileEntry, FILE_TYPE, DIRECTORY_TYPE] at hd)
            have hhd : (importRun g contents block_buf img).1.head? = some (findFree g img) := hhead
            -- from here on only what `hcopied` says about the chain counts
            generalize importRun g contents block_buf img = run at hcopied hvol' hsame hhd
            obtain ⟨hn, -, hnul, -⟩ := walk_some hw
            refine Or.inr ⟨hrep, contents, _, run.1, rfl, ⟨hvol', hpath,
              ⟨_, _, hw, hnew, rfl, NameField.cstr_store hn (hnul (by simp) (relative_nul h0))⟩,
              rfl, ?_, ?_, hcopied.in_data, hcopied.was_free, ?_, ?_, ?_, ?_, ?_⟩⟩
            · simp only [fileEntry]
              rw [UInt64.toNat_ofNat', Nat.mod_eq_of_lt (by omega)]
            · rw [hhd]
              simp only [fileEntry]
              rw [UInt64.toNat_ofNat', Nat.mod_eq_of_lt (by
                have : findFree g img < g.blocks := hstartlt
                omega)]
            · exact hcopied.length_eq
            · refine Linked.congr (fun b hb => ?_) hcopied.linked
              rw [fatNext, fatNext, hsame.fat_eq b (hcopied.in_data b hb).2]
            · intro k b hk
              have hb := hcopied.in_data b (List.mem_of_getElem? hk)
              have hc := hcopied.content k b hk
              rw [Nat.zero_add] at hc
              rw [hsame.block_eq b hb.1 hb.2]
              exact hc
            · intro b hb hbc
              rw [hsame.fat_eq b hb]
              exact fat_of_sameOutside hg hcopied.in_data hcopied.same hb hbc
            · intro b hlo hb hbc
              rw [hsame.block_eq b hlo hb]
              exact block_of_sameOutside hg hcopied.in_data hcopied.same hlo hb hbc

/-- The directories a command adds before it writes a file, if it does. -/
structure Prepared (g : Geometry) (img img' : Image) (es ds : List Entry) : Prop where
  volume : Volume g img' (es ++ ds)
  directories : ∀ d ∈ ds, d.type = DIRECTORY_TYPE
  same : SameData g img img'

/-- `import_cmd` of a regular file under a new name in a directory that exists succeeds while
there are a free slot and enough free blocks. -/
theorem Volume.importCmd_imported {g : Geometry} {img : Image} {es : List Entry}
    (h : Volume g img es) {host : List UInt8 → HostFile} {clock : Nat → UInt64}
    {block_buf argv3 argv4 contents n : List UInt8} {rest : List (List UInt8)} {p : Entry}
    (hbuf : block_buf.length = g.bytesperblock) (hreg : (host argv3).regular = true)
    (hcont : (host argv3).contents = some contents) (henough : EnoughFree g img contents.length)
    (hpath : argv4 ≠ [SLASH]) (hslot : es.length < g.entries)
    (hw : walk es (relative argv4) [] rootParent = some (p, n))
    (hnew : lookup es n p.payload FILE_TYPE = none) :
    ∃ img', importCmd g host clock block_buf (argv3 :: argv4 :: rest) img
      = (.ok .imported, img') := by
  have hg := h.formatted.sound
  have hlen := h.formatted.length_eq
  have hvol := h.copied (h.formatted.importRun_copied hbuf henough)
  have hlen' := hvol.formatted.length_eq
  have hres := pathResolver_missing hg hlen h.table.listed (fun hr => hpath hr.1) hw hnew hslot
  simp only [importCmd, importFile, hreg, hcont, hres, PathResult.missing, PathResult.init,
    Bool.true_eq_false, Bool.false_eq_true, if_false, importChain,
    findEmpty_table hg hlen' hvol.table, if_pos hslot, wrEntry_lt hg hslot]
  exact ⟨_, rfl⟩

/-- **`import_cmd`** adds directories, and behind them a file or nothing. -/
theorem Volume.importCmd_adds {g : Geometry} {img img' : Image} {es : List Entry} (h : Volume g img es)
    {host : List UInt8 → HostFile} {clock : Nat → UInt64} {block_buf : List UInt8}
    {args : List (List UInt8)} {r : Report} (h0 : ∀ s ∈ args, 0 ∉ s)
    (hbuf : block_buf.length = g.bytesperblock)
    (hrun : importCmd g host clock block_buf args img = (.ok r, img'))
    (henough : r = .imported → ∀ argv3 contents, args.head? = some argv3 →
      (host argv3).contents = some contents → EnoughFree g img contents.length) :
    r ≠ .imported ∧ (∃ ds, Prepared g img img' es ds) ∨
      r = .imported ∧ ∃ ds img₁ argv3 argv4 rest contents e c, args = argv3 :: argv4 :: rest ∧
        (host argv3).contents = some contents ∧ Prepared g img img₁ es ds ∧
        Imported g contents argv4 img₁ img' (es ++ ds) e c := by
  have hnone : Prepared g img img es [] :=
    ⟨by rw [List.append_nil]; exact h, by simp, SameData.refl _ _⟩
  have hsame : ∀ {r' : Report}, r' ≠ .imported →
      (Except.ok r', img) = ((.ok r, img') : Except Fault Report × Image) →
      r ≠ .imported ∧ ∃ ds, Prepared g img img' es ds := by
    intro r' hr' heq
    obtain ⟨hr, rfl⟩ := Prod.mk.inj heq
    rw [← Except.ok.inj hr]
    exact ⟨hr', [], hnone⟩
  match args, hrun with
  | [], hrun => exact Or.inl (hsame (by simp) hrun)
  | [_], hrun => exact Or.inl (hsame (by simp) hrun)
  | argv3 :: argv4 :: rest, hrun =>
      rw [importCmd] at hrun
      -- not a regular file: nothing is written
      by_cases hreg : (host argv3).regular = false
      · rw [if_pos hreg] at hrun
        exact Or.inl (hsame (by simp) hrun)
      · rw [if_neg hreg] at hrun
        have h04 : 0 ∉ argv4 := h0 argv4 (by simp)
        cases hres : pathResolver g img argv4 FILE_TYPE with
        | error e => simp only [hres] at hrun; cases hrun
        | ok path_result =>
            simp only [hres] at hrun
            cases hmade : (if path_result.failure = true then makeDirs g clock argv4 argv4 [] img
              else (.ok (), img)) with
            | mk made img₁ =>
                simp only [hmade] at hrun
                cases made with
                | error e => cases hrun
                | ok u =>
                    -- the directories are made only when the path does not resolve
                    obtain ⟨ds, hprep⟩ : ∃ ds, Prepared g img img₁ es ds := by
                      by_cases hf : path_result.failure = true
                      · rw [if_pos hf] at hmade
                        obtain ⟨ds, hvol, hdirs, hsm⟩ := h.makeDirs_adds h04 (by simp) hmade
                        exact ⟨ds, hvol, hdirs, hsm⟩
                      · rw [if_neg hf] at hmade
                        obtain rfl := (Prod.mk.inj hmade).2
                        exact ⟨[], hnone⟩
                    have hfree : r = .imported → ∀ contents, (host argv3).contents = some contents →
                        EnoughFree g img₁ contents.length := by
                      intro hr contents hc
                      rw [EnoughFree, hprep.same.freeBlocks_eq]
                      exact henough hr argv3 contents rfl hc
                    rcases hprep.volume.importFile_adds h04 hbuf hrun hfree with
                      ⟨hr, rfl⟩ | ⟨hr, contents, e, c, hc, himp⟩
                    · exact Or.inl ⟨hr, ds, hprep⟩
                    · exact Or.inr ⟨hr, ds, img₁, argv3, argv4, rest, contents, e, c, rfl, hc,
                        hprep, himp⟩

/-- An import to a path whose directories exist adds no directory. -/
theorem Volume.importCmd_walked {g : Geometry} {img img' : Image} {es : List Entry}
    (h : Volume g img es) {host : List UInt8 → HostFile} {clock : Nat → UInt64}
    {block_buf argv3 argv4 n : List UInt8} {rest : List (List UInt8)} {p : Entry}
    (h0 : 0 ∉ argv4) (hbuf : block_buf.length = g.bytesperblock) (hpath : argv4 ≠ [SLASH])
    (hw : walk es (relative argv4) [] rootParent = some (p, n))
    (hrun : importCmd g host clock block_buf (argv3 :: argv4 :: rest) img = (.ok .imported, img'))
    (henough : ∀ contents, (host argv3).contents = some contents →
      EnoughFree g img contents.length) :
    ∃ contents e c, (host argv3).contents = some contents ∧
      Imported g contents argv4 img img' es e c := by
  have hg := h.formatted.sound
  have hlen := h.formatted.length_eq
  have hresolve : ∀ r, pathResolver g img argv4 FILE_TYPE = .ok r → r.failure = false := by
    intro r hr
    have hroot : ¬ RootPath argv4 FILE_TYPE := fun hr => hpath hr.1
    rw [pathResolver_eq hroot, resolveNext_walk hg hlen h.table.listed hw,
      resolveNext_nil hg hlen h.table.listed (walk_some hw).1] at hr
    cases hl : lookup es n p.payload FILE_TYPE with
    | some i =>
        obtain ⟨e, he, -⟩ := lookup_some hl
        simp only [hl, rdEntry_listed hg hlen h.table.listed he] at hr
        obtain rfl := Except.ok.inj hr
        rfl
    | none =>
        simp only [hl] at hr
        split at hr
        · obtain rfl := Except.ok.inj hr
          rfl
        · cases hr
  rw [importCmd] at hrun
  by_cases hreg : (host argv3).regular = false
  · rw [if_pos hreg] at hrun
    cases (Prod.mk.inj hrun).1
  · rw [if_neg hreg] at hrun
    cases hres : pathResolver g img argv4 FILE_TYPE with
    | error e => simp only [hres] at hrun; cases hrun
    | ok path_result =>
        simp only [hres, hresolve _ hres, Bool.false_eq_true, if_false] at hrun
        rcases h.importFile_adds h0 hbuf hrun fun _ => henough with ⟨hne, -⟩ | ⟨-, himp⟩
        · exact absurd rfl hne
        · exact himp

/-! ## Runs -/

/-- A C string, without its terminator. -/
abbrev CString := {s : List UInt8 // 0 ∉ s}

/-- One run of `echfs-utils` with the action `mkdir` or `import` that returns. An import that
gets as far as `import_chain` finds enough free blocks. -/
inductive Step : Image → Image → Prop where
  | mkdirCmd {g : Geometry} {img img' : Image} {r : Report} (now : UInt64) (args : List CString)
      (hopen : readGeometry img.length img = .ok g)
      (hrun : mkdirCmd g now (args.map Subtype.val) img = (.ok r, img')) : Step img img'
  | importCmd {g : Geometry} {img img' : Image} {r : Report} (host : List UInt8 → HostFile)
      (clock : Nat → UInt64) (block_buf : List UInt8) (args : List CString)
      (hopen : readGeometry img.length img = .ok g) (hbuf : block_buf.length = g.bytesperblock)
      (hrun : importCmd g host clock block_buf (args.map Subtype.val) img = (.ok r, img'))
      (henough : r = .imported → ∀ argv3 contents, (args.map Subtype.val).head? = some argv3 →
        (host argv3).contents = some contents → EnoughFree g img contents.length) : Step img img'

/-- A sequence of completed commands. -/
abbrev Run : Image → Image → Prop := ReflTransGen Step

theorem nul_free (args : List CString) : ∀ s ∈ args.map Subtype.val, 0 ∉ s := by
  intro s hs
  obtain ⟨a, -, rfl⟩ := List.mem_map.mp hs
  exact a.property

/-- **What one command does to a volume.** It adds directories, and behind them at most one
file. -/
theorem Volume.step {g : Geometry} {img img' : Image} {es : List Entry} (h : Volume g img es)
    (hstep : Step img img') :
    ∃ ds img₁, Prepared g img img₁ es ds ∧
      (img' = img₁ ∨ ∃ source argv4 e c, Imported g source argv4 img₁ img' (es ++ ds) e c) := by
  cases hstep with
  | mkdirCmd now args hopen hrun =>
      obtain rfl := Except.ok.inj (hopen.symm.trans h.formatted.opened)
      obtain ⟨ds, hvol, hdirs, hsame⟩ := h.mkdirCmd_adds (nul_free args) hrun
      exact ⟨ds, img', ⟨hvol, hdirs, hsame⟩, Or.inl rfl⟩
  | importCmd host clock block_buf args hopen hbuf hrun henough =>
      obtain rfl := Except.ok.inj (hopen.symm.trans h.formatted.opened)
      rcases h.importCmd_adds (nul_free args) hbuf hrun henough with
        ⟨-, ds, hprep⟩ | ⟨-, ds, img₁, _, argv4, _, contents, e, c, -, -, hprep, himp⟩
      · exact ⟨ds, img', hprep, Or.inl rfl⟩
      · exact ⟨ds, img₁, hprep, Or.inr ⟨contents, argv4, e, c, himp⟩⟩

/-- **A volume stays a volume**, and its entries stay where they are. -/
theorem Volume.run {g : Geometry} {img img' : Image} {es : List Entry} (h : Volume g img es)
    (hrun : Run img img') : ∃ es', Volume g img' (es ++ es') := by
  induction hrun with
  | refl => exact ⟨[], by rw [List.append_nil]; exact h⟩
  | tail _ hstep ih =>
      obtain ⟨es', hvol⟩ := ih
      obtain ⟨ds, img₁, hprep, rfl | ⟨source, argv4, e, c, himp⟩⟩ := hvol.step hstep
      · exact ⟨es' ++ ds, by rw [← List.append_assoc]; exact hprep.volume⟩
      · refine ⟨es' ++ ds ++ [e], ?_⟩
        rw [← List.append_assoc, ← List.append_assoc]
        exact himp.volume

/-- A freshly formatted volume is empty. -/
theorem Fresh.volume {g : Geometry} {img : Image} (h : Fresh g img) : Volume g img [] := by
  obtain ⟨hform, -, hzero⟩ := h.spec
  refine ⟨hform, ⟨Nat.zero_le _, by simp, by simp, ?_⟩, tree_nil⟩
  intro i _ hi
  have hloc := (hform.sound.entryLoc_le hi).1
  have hq : img.byte.qword (g.entryLoc i) = 0 :=
    Mem.qword_eq_zero fun k _ => hzero _ (by omega)
  rw [Entry.decode, hq]
  rfl

/-! ## Commands that succeed

While there are a free slot and enough free blocks, a command with a new name of the root succeeds.
-/

/-- What a lookup compares: the directory, the type and the name. -/
def Entry.key (e : Entry) : UInt64 × UInt8 × List UInt8 := (e.parent_id, e.type, e.name.cstr)

theorem lookup_new {es : List Entry} {name : List UInt8} {parent : UInt64} {type : UInt8}
    (h : (parent, type, name) ∉ es.map Entry.key) : lookup es name parent type = none := by
  apply lookup_eq_none
  rintro e he ⟨rfl, rfl, rfl⟩
  exact h (List.mem_map.mpr ⟨e, he, rfl⟩)

/-- A volume whose entries have these keys, with `n` free blocks at least. -/
structure Stocked (g : Geometry) (img : Image) (keys : List (UInt64 × UInt8 × List UInt8)) (n : Nat) :
    Prop where
  volume : ∃ es, Volume g img es ∧ es.map Entry.key = keys
  free : n ≤ (freeBlocks g img).card

theorem Fresh.stocked {g : Geometry} {img : Image} (h : Fresh g img) :
    Stocked g img [] (g.blocks - g.datastart) := ⟨⟨[], h.volume, rfl⟩, h.card_freeBlocks⟩

/-- An import takes the blocks of its chain. -/
theorem Imported.card_freeBlocks {g : Geometry} {source argv4 : List UInt8} {img img' : Image}
    {es : List Entry} {e : Entry} {bs : List Nat} (h : Imported g source argv4 img img' es e bs) :
    (freeBlocks g img).card ≤ (freeBlocks g img').card + blocksFor g source.length := by
  have hsub : freeBlocks g img \ bs.toFinset ⊆ freeBlocks g img' := by
    intro b hb
    obtain ⟨hfree, hnot⟩ := Finset.mem_sdiff.mp hb
    obtain ⟨hlt, hzero⟩ := mem_freeBlocks.mp hfree
    rw [List.mem_toFinset] at hnot
    exact mem_freeBlocks.mpr ⟨hlt, (h.fat_eq b hlt hnot).trans hzero⟩
  calc (freeBlocks g img).card
      ≤ (freeBlocks g img \ bs.toFinset).card + bs.toFinset.card :=
        Finset.card_le_card_sdiff_add_card
    _ ≤ (freeBlocks g img').card + blocksFor g source.length := by
        rw [← h.length_eq]
        exact Nat.add_le_add (Finset.card_le_card hsub) (List.toFinset_card_le bs)

section Stocked

variable {g : Geometry} {img : Image} {keys : List (UInt64 × UInt8 × List UInt8)} {free : Nat}
  (h : Stocked g img keys free) (name : CString) (hslot : keys.length < g.entries)
  (hslash : SLASH ∉ name.val) (hlen : name.val.length < FILENAME_LEN)
include h hslot hslash hlen

/-- `mkdir` of a new directory of the root. -/
theorem Stocked.mkdir (hnew : (ROOT_ID, DIRECTORY_TYPE, name.val) ∉ keys) :
    ∃ img', mkdirCmd g 0 [name.val] img = (.ok .created, img') ∧ Step img img' ∧
      Stocked g img' (keys ++ [(ROOT_ID, DIRECTORY_TYPE, name.val)]) free := by
  obtain ⟨⟨es, hvol, rfl⟩, hfree⟩ := h
  rw [List.length_map] at hslot
  have hw := walk_name es hslash hlen
  have hnone := lookup_new hnew
  have hpath : name.val ≠ [SLASH] := fun heq => hslash (by rw [heq]; exact List.mem_cons_self)
  have hrun := hvol.mkdirCmd_created 0 [] hpath hslot hw hnone
  obtain ⟨hvol', hsame⟩ := hvol.addEntry
    (e := directoryEntry rootParent.payload name.val (freeId es) 0) hslot (relative_nul name.property)
    hw rfl rfl hnone fun _ => rfl
  refine ⟨_, hrun, Step.mkdirCmd 0 [name] hvol.formatted.opened hrun, ⟨_, hvol', ?_⟩, ?_⟩
  · rw [List.map_append, List.map_singleton, Entry.key]
    simp only [directoryEntry, NameField.cstr_store hlen name.property]
    rfl
  · rwa [hsame.freeBlocks_eq]

/-- `import` of a new file of the root. -/
theorem Stocked.import (argv3 : CString) (contents : List UInt8) {block_buf : List UInt8}
    (hbuf : block_buf.length = g.bytesperblock) (hfree : blocksFor g contents.length ≤ free)
    (hnew : (ROOT_ID, FILE_TYPE, name.val) ∉ keys) :
    ∃ img', importCmd g (fun _ => ⟨true, some contents⟩) (fun _ => 0) block_buf
        [argv3.val, name.val] img = (.ok .imported, img') ∧
      EnoughFree g img contents.length ∧ Step img img' ∧
      Stocked g img' (keys ++ [(ROOT_ID, FILE_TYPE, name.val)])
        (free - blocksFor g contents.length) := by
  obtain ⟨⟨es, hvol, rfl⟩, hcard⟩ := h
  rw [List.length_map] at hslot
  have hw := walk_name es hslash hlen
  have hpath : name.val ≠ [SLASH] := fun heq => hslash (by rw [heq]; exact List.mem_cons_self)
  have henough : EnoughFree g img contents.length := hfree.trans hcard
  obtain ⟨img', hrun⟩ : ∃ img', importCmd g (fun _ => ⟨true, some contents⟩) (fun _ => 0) block_buf
      [argv3.val, name.val] img = (.ok .imported, img') :=
    hvol.importCmd_imported hbuf rfl rfl henough hpath hslot hw (lookup_new hnew)
  obtain ⟨_, e, c, hc, himp⟩ := hvol.importCmd_walked name.property hbuf hpath hw hrun
    fun contents' hc => by
      obtain rfl : contents = contents' := Option.some.inj hc
      exact henough
  obtain rfl := Option.some.inj hc
  refine ⟨img', hrun, henough, Step.importCmd _ _ block_buf [argv3, name] hvol.formatted.opened hbuf
    hrun fun _ _ contents' _ hc => ?_, ⟨_, himp.volume, ?_⟩, ?_⟩
  · obtain rfl : contents = contents' := Option.some.inj hc
    exact henough
  · obtain ⟨p, n, hwalk, -, hparent, hcstr⟩ := himp.walked
    obtain ⟨rfl, rfl⟩ := Prod.mk.inj (Option.some.inj (hw.symm.trans hwalk))
    rw [List.map_append, List.map_singleton, Entry.key, hparent, himp.type_eq, hcstr]
    rfl
  · have hle := himp.card_freeBlocks
    omega

end Stocked

/-! ## The directory tree after any run -/

/-- The directory table of a volume: a prefix of used entries that form a tree, each of which some
path resolves to. -/
structure Resolvable (g : Geometry) (img : Image) (es : List Entry) : Prop where
  prefix_used : Table g img es
  distinct : ∀ (i j : Nat) (e f : Entry), es[i]? = some e → es[j]? = some f → i ≠ j →
    ¬ (e.parent_id = f.parent_id ∧ e.type = f.type ∧ e.name.cstr = f.name.cstr)
  ids_distinct : (dirIds es).Nodup
  ids_valid : ∀ x ∈ dirIds es, x ≠ 0 ∧ x ≠ ROOT_ID ∧ x ≠ DELETED_ENTRY
  parents : ∀ (i : Nat) (e : Entry), es[i]? = some e → e.parent_id = ROOT_ID ∨
    ∃ (j : Nat) (d : Entry), j < i ∧ es[j]? = some d ∧ d.type = DIRECTORY_TYPE ∧
      d.payload = e.parent_id
  resolves : ∀ (i : Nat) (e : Entry), es[i]? = some e →
    ∃ path r, 0 ∉ path ∧ pathResolver g img path e.type = .ok r ∧ r.failure = false ∧
      r.not_found = false ∧ r.target_entry = i ∧ r.target = e

theorem Volume.resolvable {g : Geometry} {img : Image} {es : List Entry} (h : Volume g img es) :
    Resolvable g img es := by
  refine ⟨h.table, ?_, h.tree.ids_nodup h.entries_bound, fun x hx =>
    h.tree.id_ne h.entries_bound hx, h.tree.parents, fun i e he =>
    h.tree.resolves h.formatted.sound h.formatted.length_eq h.table he⟩
  intro i j e f he hf hne hm
  have hi := h.tree.lookup_self he
  have hj := h.tree.lookup_self hf
  rw [hm.1, hm.2.1, hm.2.2, hj] at hi
  exact hne (Option.some.inj hi).symm

/-- **The tree survives every run.** After any sequence of completed `mkdir` and `import` commands
on a freshly formatted volume, the directory table is a tree in which every entry has a path. -/
theorem run_resolvable {g : Geometry} {img img' : Image} (hfresh : Fresh g img)
    (hrun : Run img img') : ∃ es, Resolvable g img' es := by
  obtain ⟨es, hvol⟩ := hfresh.volume.run hrun
  exact ⟨es, by rw [← List.nil_append es]; exact hvol.resolvable⟩

/-- `mkdir a` on the small volume. -/
theorem smallVolume_mkdir :
    ∃ img, Step smallVolume img ∧ ∃ e, Volume (volumeOf 20 512) img [e] := by
  have hvol := smallVolume_fresh.volume
  have hw : walk [] (relative [97]) [] rootParent = some (rootParent, [97]) := rfl
  have hrun := hvol.mkdirCmd_created 0 [] (by decide) (by decide) hw rfl
  exact ⟨_, Step.mkdirCmd 0 [⟨[97], by decide⟩] hvol.formatted.opened hrun, _,
    (hvol.addEntry (e := directoryEntry rootParent.payload [97] (freeId []) 0) (by decide)
      (by decide) hw rfl rfl rfl fun _ => rfl).1⟩

/-- A volume of 40 blocks of 512 bytes: 21 data blocks, and four slots in the directory. -/
def sampleVolume : Image := freshImage 40 512

theorem sampleVolume_fresh : Fresh (volumeOf 40 512) sampleVolume :=
  freshImage_fresh 40 512 (by decide) (by decide) (by decide) (by decide) (by decide)

/-- `mkdir a`, an import of two blocks to `f`, `mkdir b`, and an import of one block to `h`. -/
structure SampleRun (img₁ img₂ img₃ img₄ : Image) : Prop where
  mkdir_a : mkdirCmd (volumeOf 40 512) 0 [[97]] sampleVolume = (.ok .created, img₁)
  import_f : importCmd (volumeOf 40 512) (fun _ => ⟨true, some (List.replicate 600 7)⟩) (fun _ => 0)
    (List.replicate 512 0) [[115], [102]] img₁ = (.ok .imported, img₂)
  mkdir_b : mkdirCmd (volumeOf 40 512) 0 [[98]] img₂ = (.ok .created, img₃)
  import_h : importCmd (volumeOf 40 512) (fun _ => ⟨true, some [1, 2, 3]⟩) (fun _ => 0)
    (List.replicate 512 0) [[115], [104]] img₃ = (.ok .imported, img₄)

theorem sampleRun : ∃ img₁ img₂ img₃ img₄, SampleRun img₁ img₂ img₃ img₄ ∧
    Run sampleVolume img₂ ∧ Run img₂ img₄ ∧
    Stocked (volumeOf 40 512) img₂ [(ROOT_ID, DIRECTORY_TYPE, [97]), (ROOT_ID, FILE_TYPE, [102])] 19 := by
  have hbuf : (List.replicate 512 (0 : UInt8)).length = (volumeOf 40 512).bytesperblock :=
    List.length_replicate
  have hlong : blocksFor (volumeOf 40 512) (List.replicate 600 (7 : UInt8)).length = 2 := by
    rw [List.length_replicate]
    decide
  obtain ⟨img₁, hmkdir₁, hstep₁, hstock₁⟩ := sampleVolume_fresh.stocked.mkdir ⟨[97], by decide⟩
    (by decide) (by decide) (by decide) (by decide)
  obtain ⟨img₂, himport₂, -, hstep₂, hstock₂⟩ := hstock₁.import ⟨[102], by decide⟩ (by decide)
    (by decide) (by decide) ⟨[115], by decide⟩ (List.replicate 600 7) hbuf
    (by rw [hlong]; decide) (by decide)
  rw [hlong] at hstock₂
  obtain ⟨img₃, hmkdir₃, hstep₃, hstock₃⟩ := hstock₂.mkdir ⟨[98], by decide⟩ (by decide) (by decide)
    (by decide) (by decide)
  obtain ⟨img₄, himport₄, -, hstep₄, -⟩ := hstock₃.import ⟨[104], by decide⟩ (by decide)
    (by decide) (by decide) ⟨[115], by decide⟩ [1, 2, 3] hbuf (by decide) (by decide)
  exact ⟨img₁, img₂, img₃, img₄, ⟨hmkdir₁, himport₂, hmkdir₃, himport₄⟩,
    (ReflTransGen.single hstep₁).tail hstep₂, (ReflTransGen.single hstep₃).tail hstep₄, hstock₂⟩

/-- Two directories and two files. -/
theorem run_resolvable_sample : ∃ img₁ img₂ img₃ img₄, SampleRun img₁ img₂ img₃ img₄ ∧
    ∃ es, Resolvable (volumeOf 40 512) img₄ es := by
  obtain ⟨img₁, img₂, img₃, img₄, hsample, hrun, hrun', -⟩ := sampleRun
  exact ⟨img₁, img₂, img₃, img₄, hsample, run_resolvable sampleVolume_fresh (hrun.trans hrun')⟩

end Windozz.Echfs

import Windozz.Echfs.Files

set_option autoImplicit false

/-! # The reserved blocks

The first sixteen blocks of a volume hold the identity table and, on a volume to boot from, the boot
manager: `make` copies the boot sector around the identity table and stage 2 to sector 4. No command
writes to the reserved blocks (`Volume.step_reserved`), and the copies touch neither the identity
table nor anything behind the reserved blocks (`Volume.of_boot`). So the boot manager can be
installed before, between and after the commands (`build_boots`).
-/

namespace Windozz.Echfs

open Relation

/-- The reserved blocks agree. -/
def SameReserved (g : Geometry) (img img' : Image) : Prop :=
  ∀ a, a < fatstart * g.bytesperblock → img'.byte a = img.byte a

theorem SameReserved.refl (g : Geometry) (img : Image) : SameReserved g img img := fun _ _ => rfl

theorem SameReserved.trans {g : Geometry} {img img' img'' : Image} (h : SameReserved g img img')
    (h' : SameReserved g img' img'') : SameReserved g img img'' :=
  fun a ha => (h' a ha).trans (h a ha)

section Frame

variable {g : Geometry} (hg : g.Sound) {img img' : Image}
include hg

/-- A write to a directory entry leaves the reserved blocks alone. -/
theorem reserved_of_entry {i : Nat} (hi : i < g.entries)
    (h : SameOutside (entryBytes g i) img img') : SameReserved g img img' := by
  intro a ha
  refine h.byte_eq a ?_
  rintro ⟨hlo, -⟩
  have hent := (hg.entryLoc_le hi).1
  have hfat := hg.fat_le
  omega

/-- Writes to data blocks and their table entries leave the reserved blocks alone. -/
theorem reserved_of_footprint {c : Set Nat} (hc : InData g c)
    (h : SameOutside (footprint g c) img img') : SameReserved g img img' := by
  intro a ha
  refine h.byte_eq a ?_
  rintro ⟨d, hd, hin | hin⟩
  · have hloc : fatstart * g.bytesperblock ≤ g.fatLoc d := Nat.le_add_right _ _
    omega
  · have hdata := (hg.blockLoc_le (hc d hd).1 (hc d hd).2).1
    have hend := hg.dir_end
    have hfat := hg.fat_le
    omega

end Frame

/-! ## The commands -/

namespace Volume

variable {g : Geometry} {img img' : Image} {es : List Entry} (h : Volume g img es)
include h

theorem mkdirCmd_reserved {now : UInt64} {args : List (List UInt8)} {out : Except Fault Report}
    (hrun : mkdirCmd g now args img = (out, img')) : SameReserved g img img' := by
  have hg := h.formatted.sound
  have hlen := h.formatted.length_eq
  have hnone : ∀ {r : Except Fault Report}, (r, img) = (out, img') → SameReserved g img img' := by
    intro r heq
    obtain rfl := (Prod.mk.inj heq).2
    exact SameReserved.refl _ _
  cases args with
  | nil => exact hnone hrun
  | cons argv3 args =>
      rw [mkdirCmd] at hrun
      cases hres : pathResolver g img argv3 DIRECTORY_TYPE with
      | error e => exact hnone (by simpa only [hres] using hrun)
      | ok path_result =>
          simp only [hres] at hrun
          by_cases hnf : path_result.not_found = false
          · rw [if_pos hnf] at hrun
            exact hnone hrun
          · rw [if_neg hnf] at hrun
            simp only [findEmpty_table hg hlen h.table,
              getFreeId_listed hg hlen h.table.listed] at hrun
            -- the only write is to the first unused slot
            by_cases hslot : es.length < g.entries
            · simp only [if_pos hslot, wrEntry_lt hg hslot] at hrun
              obtain rfl := (Prod.mk.inj hrun).2
              exact reserved_of_entry hg hslot (wrEntry_same hg hlen hslot _)
            · simp only [if_neg hslot] at hrun
              exact hnone hrun

theorem makeDirs_reserved {clock : Nat → UInt64} {argv4 rest newdirname : List UInt8}
    {out : Except Fault Unit} (hrest : 0 ∉ rest) (hnew : 0 ∉ newdirname)
    (hrun : makeDirs g clock argv4 rest newdirname img = (out, img')) :
    SameReserved g img img' := by
  induction rest generalizing newdirname img es with
  | nil =>
      rw [makeDirs] at hrun
      obtain rfl := (Prod.mk.inj hrun).2
      exact SameReserved.refl _ _
  | cons c rest ih =>
      obtain ⟨hc0, hrest'⟩ : ¬ 0 = c ∧ 0 ∉ rest := by simpa using hrest
      have hnew' : 0 ∉ newdirname ++ [c] := by simp [hnew, hc0]
      rw [makeDirs] at hrun
      by_cases hlen : NEWDIRNAME_LEN ≤ newdirname.length
      · rw [if_pos hlen] at hrun
        obtain rfl := (Prod.mk.inj hrun).2
        exact SameReserved.refl _ _
      · rw [if_neg hlen] at hrun
        by_cases hc : c = SLASH
        · rw [if_pos hc] at hrun
          cases hmk : mkdirCmd g (clock newdirname.length) [newdirname] img with
          | mk made img₁ =>
              have hfirst := h.mkdirCmd_reserved hmk
              cases made with
              | error e =>
                  simp only [hmk] at hrun
                  obtain rfl := (Prod.mk.inj hrun).2
                  exact hfirst
              | ok r =>
                  obtain ⟨ds, hvol, -, -⟩ := h.mkdirCmd_adds (by simpa using hnew) hmk
                  simp only [hmk] at hrun
                  cases hres : pathResolver g img₁ argv4 FILE_TYPE with
                  | error e =>
                      simp only [hres] at hrun
                      obtain rfl := (Prod.mk.inj hrun).2
                      exact hfirst
                  | ok path_result =>
                      simp only [hres] at hrun
                      by_cases hf : path_result.failure = true
                      · rw [if_pos hf] at hrun
                        exact hfirst.trans (ih hvol hrest' hnew' hrun)
                      · rw [if_neg hf] at hrun
                        obtain rfl := (Prod.mk.inj hrun).2
                        exact hfirst
        · rw [if_neg hc] at hrun
          exact ih h hrest' hnew' hrun

theorem importFile_reserved {source : Option (List UInt8)} {now : UInt64}
    {block_buf argv4 : List UInt8} {r : Report} (hbuf : block_buf.length = g.bytesperblock)
    (hrun : importFile g source now block_buf argv4 img = (.ok r, img'))
    (henough : r = .imported → ∀ contents, source = some contents →
      EnoughFree g img contents.length) : SameReserved g img img' := by
  have hg := h.formatted.sound
  rw [importFile] at hrun
  cases hres : pathResolver g img argv4 FILE_TYPE with
  | error e => simp only [hres] at hrun; cases hrun
  | ok path_result =>
      simp only [hres] at hrun
      by_cases hnf : path_result.not_found = false
      · rw [if_pos hnf] at hrun
        obtain rfl := (Prod.mk.inj hrun).2
        exact SameReserved.refl _ _
      · rw [if_neg hnf] at hrun
        cases source with
        | none =>
            obtain rfl := (Prod.mk.inj hrun).2
            exact SameReserved.refl _ _
        | some contents =>
            -- past the resolver only `imported` is left, so the free blocks are promised
            have hrep : r = .imported := by
              simp only at hrun
              split at hrun
              · cases hrun
              · split at hrun
                · cases hrun
                · exact (Except.ok.inj (Prod.mk.inj hrun).1).symm
            have hcopied := h.formatted.importRun_copied hbuf (henough hrep contents rfl)
            have hvol := h.copied hcopied
            have hlen := hvol.formatted.length_eq
            simp only [importChain, findEmpty_table hg hlen hvol.table] at hrun
            by_cases hslot : es.length < g.entries
            · simp only [if_pos hslot, wrEntry_lt hg hslot] at hrun
              obtain rfl := (Prod.mk.inj hrun).2
              exact (reserved_of_footprint hg hcopied.in_data hcopied.same).trans
                (reserved_of_entry hg hslot (wrEntry_same hg hlen hslot _))
            · simp only [if_neg hslot] at hrun
              cases hrun

theorem importCmd_reserved {host : List UInt8 → HostFile} {clock : Nat → UInt64}
    {block_buf : List UInt8} {args : List (List UInt8)} {r : Report} (h0 : ∀ s ∈ args, 0 ∉ s)
    (hbuf : block_buf.length = g.bytesperblock)
    (hrun : importCmd g host clock block_buf args img = (.ok r, img'))
    (henough : r = .imported → ∀ argv3 contents, args.head? = some argv3 →
      (host argv3).contents = some contents → EnoughFree g img contents.length) :
    SameReserved g img img' := by
  have hsame : ∀ {r' : Except Fault Report}, (r', img) = (.ok r, img') →
      SameReserved g img img' := by
    intro r' heq
    obtain rfl := (Prod.mk.inj heq).2
    exact SameReserved.refl _ _
  match args, hrun with
  | [], hrun => exact hsame hrun
  | [_], hrun => exact hsame hrun
  | argv3 :: argv4 :: rest, hrun =>
      rw [importCmd] at hrun
      by_cases hreg : (host argv3).regular = false
      · rw [if_pos hreg] at hrun
        exact hsame hrun
      · rw [if_neg hreg] at hrun
        have h04 : 0 ∉ argv4 := h0 argv4 (by simp)
        cases hres : pathResolver g img argv4 FILE_TYPE with
        | error e => simp only [hres] at hrun; cases hrun
        | ok path_result =>
            simp only [hres] at hrun
            cases hmade : (if path_result.failure = true then makeDirs g clock argv4 argv4 [] img
              else (.ok (), img)) with
            | mk made img₁ =>
                simp only [hmade] at hrun
                cases made with
                | error e => cases hrun
                | ok u =>
                    obtain ⟨ds, hvol, hdata, hfirst⟩ : ∃ ds, Volume g img₁ (es ++ ds) ∧
                        SameData g img img₁ ∧ SameReserved g img img₁ := by
                      by_cases hf : path_result.failure = true
                      · rw [if_pos hf] at hmade
                        obtain ⟨ds, hvol, -, hsm⟩ := h.makeDirs_adds h04 (by simp) hmade
                        exact ⟨ds, hvol, hsm, h.makeDirs_reserved h04 (by simp) hmade⟩
                      · rw [if_neg hf] at hmade
                        obtain rfl := (Prod.mk.inj hmade).2
                        exact ⟨[], by rw [List.append_nil]; exact h, SameData.refl _ _,
                          SameReserved.refl _ _⟩
                    refine hfirst.trans (hvol.importFile_reserved hbuf hrun ?_)
                    intro hr contents hc
                    rw [EnoughFree, hdata.freeBlocks_eq]
                    exact henough hr argv3 contents rfl hc

/-- One command leaves the reserved blocks alone. -/
theorem step_reserved (hstep : Step img img') : SameReserved g img img' := by
  cases hstep with
  | mkdirCmd now args hopen hrun =>
      obtain rfl := Except.ok.inj (hopen.symm.trans h.formatted.opened)
      exact h.mkdirCmd_reserved hrun
  | importCmd host clock block_buf args hopen hbuf hrun henough =>
      obtain rfl := Except.ok.inj (hopen.symm.trans h.formatted.opened)
      exact h.importCmd_reserved (nul_free args) hbuf hrun henough

end Volume

/-! ## Installing the boot manager -/

/-- What the three `dd` commands of the `Makefile` write to an image: 4 bytes of the boot sector, 480
bytes of it behind the identity table, and the boot manager to sector 4. -/
def installBoot (stage1 bootmgr : List UInt8) (img : Image) : Image :=
  ((img.write 0 (stage1.take 4)).write 36 ((stage1.drop 36).take 480)).write (512 * 4) bootmgr

/-- The sizes of the two binaries: a sector, and at most the reserved blocks behind sector 4. -/
structure BootFits (g : Geometry) (stage1 bootmgr : List UInt8) : Prop where
  sector : stage1.length = 512
  reserved : 512 * 4 + bootmgr.length ≤ fatstart * g.bytesperblock

/-- The boot manager is on the image: the boot sector but for the identity table, and stage 2. -/
structure BootCode (stage1 bootmgr : List UInt8) (img : Image) : Prop where
  jump : ∀ a, a < 4 → img.byte a = stage1.getD a 0
  code : ∀ a, 36 ≤ a → a < 512 → img.byte a = stage1.getD a 0
  stage2 : img.byte.read (512 * 4) bootmgr.length = bootmgr

/-- The bytes of the reserved blocks around the identity table. -/
def bootBytes (g : Geometry) : Set Nat := {a | (a < 4 ∨ 36 ≤ a) ∧ a < fatstart * g.bytesperblock}

section Install

variable {g : Geometry} {stage1 bootmgr : List UInt8} {img img' : Image}

theorem installBoot_byte (hsector : stage1.length = 512) (a : Nat) :
    (installBoot stage1 bootmgr img).byte a =
      if 2048 ≤ a ∧ a < 2048 + bootmgr.length then bootmgr.getD (a - 2048) 0
      else if a < 4 ∨ 36 ≤ a ∧ a < 512 then stage1.getD a 0 else img.byte a := by
  have hfirst : (stage1.take 4).length = 4 := by rw [List.length_take]; omega
  have hlast : ((stage1.drop 36).take 480).length = 476 := by
    rw [List.length_take, List.length_drop]
    omega
  simp only [installBoot, Image.byte_write, Mem.write_apply, hfirst, hlast]
  by_cases hmgr : 2048 ≤ a ∧ a < 2048 + bootmgr.length
  · rw [if_pos hmgr, if_pos hmgr]
  · rw [if_neg hmgr, if_neg hmgr]
    by_cases hcode : 36 ≤ a ∧ a < 36 + 476
    · rw [if_pos hcode, if_pos (by omega), List.getD_eq_getElem?_getD, List.getD_eq_getElem?_getD,
        List.getElem?_take, if_pos (by omega), List.getElem?_drop]
      exact congrArg (fun i => (stage1[i]?).getD 0) (by omega)
    · rw [if_neg hcode]
      by_cases hjump : a < 4
      · rw [if_pos (by omega), if_pos (by omega), List.getD_eq_getElem?_getD,
          List.getD_eq_getElem?_getD, List.getElem?_take, if_pos (by omega), Nat.sub_zero]
      · rw [if_neg (by omega), if_neg (by omega)]

/-- The copies write around the identity table, in the reserved blocks. -/
theorem installBoot_same (hg : g.Sound) (hlen : img.length = g.imgsize)
    (hfits : BootFits g stage1 bootmgr) :
    SameOutside (bootBytes g) img (installBoot stage1 bootmgr img) := by
  have hhead := hg.header_le
  have hend := hg.dir_end
  have hfat := hg.fat_le
  have hdata := hg.data_le
  have hreserved := hfits.reserved
  have hsector := hfits.sector
  refine ⟨?_, fun a ha => ?_⟩
  · rw [installBoot, Image.length_write_of_le, Image.length_write_of_le, Image.length_write_of_le]
    · rw [List.length_take]
      omega
    · rw [Image.length_write_of_le]
      · rw [List.length_take, List.length_drop]
        omega
      · rw [List.length_take]
        omega
    · rw [Image.length_write_of_le, Image.length_write_of_le]
      · omega
      · rw [List.length_take]
        omega
      · rw [Image.length_write_of_le]
        · rw [List.length_take, List.length_drop]
          omega
        · rw [List.length_take]
          omega
  · have hout : ¬ ((a < 4 ∨ 36 ≤ a) ∧ a < fatstart * g.bytesperblock) := ha
    rw [installBoot_byte hsector, if_neg (by omega), if_neg (by omega)]

theorem installBoot_code (hfits : BootFits g stage1 bootmgr) :
    BootCode stage1 bootmgr (installBoot stage1 bootmgr img) := by
  have hbyte := @installBoot_byte stage1 bootmgr img hfits.sector
  refine ⟨fun a ha => ?_, fun a hlo hhi => ?_, ?_⟩
  · rw [hbyte, if_neg (by omega), if_pos (by omega)]
  · rw [hbyte, if_neg (by omega), if_pos (by omega)]
  · refine List.ext_getElem? fun i => ?_
    rw [Mem.read_getElem?]
    by_cases hi : i < bootmgr.length
    · rw [if_pos hi, hbyte, if_pos (by omega), List.getD_eq_getElem?_getD,
        show 512 * 4 + i - 2048 = i by omega, List.getElem?_eq_getElem hi]
      rfl
    · rw [if_neg hi, List.getElem?_eq_none (by omega)]

/-- A command that leaves the reserved blocks alone leaves the boot manager there. -/
theorem BootCode.of_same (h : BootCode stage1 bootmgr img) (hg : g.Sound)
    (hfits : BootFits g stage1 bootmgr) (hsame : SameReserved g img img') :
    BootCode stage1 bootmgr img' := by
  have hhead := hg.header_le
  have hreserved := hfits.reserved
  refine ⟨fun a ha => ?_, fun a hlo hhi => ?_, ?_⟩
  · rw [hsame a (by omega)]
    exact h.jump a ha
  · rw [hsame a (by omega)]
    exact h.code a hlo hhi
  · rw [Mem.read_congr fun i hi => hsame (512 * 4 + i) (by omega)]
    exact h.stage2

/-- What is written around the identity table changes nothing of the volume. -/
theorem Volume.of_boot {es : List Entry} (h : Volume g img es)
    (hsame : SameOutside (bootBytes g) img img') : Volume g img' es ∧ SameData g img img' := by
  have hg := h.formatted.sound
  have hhead := hg.header_le
  have hfat := hg.fat_le
  have hend := hg.dir_end
  have hbehind : ∀ a, fatstart * g.bytesperblock ≤ a → img'.byte a = img.byte a := by
    intro a ha
    refine hsame.byte_eq a ?_
    rintro ⟨-, hlt⟩
    omega
  have htable : ∀ a, 4 ≤ a → a < 36 → img'.byte a = img.byte a := by
    intro a hlo hhi
    refine hsame.byte_eq a ?_
    rintro ⟨hout, -⟩
    omega
  have hdata : SameData g img img' := by
    refine ⟨fun b _ => Mem.qword_congr fun i _ => hbehind _ ?_, fun b hlo hb =>
      Mem.read_congr fun i _ => hbehind _ ?_⟩
    · unfold Geometry.fatLoc
      omega
    · have hblk := (hg.blockLoc_le hlo hb).1
      omega
  have hopen : readGeometry img'.length img' = .ok g := by
    have hsig : img'.byte.read 4 8 = img.byte.read 4 8 :=
      Mem.read_congr fun i _ => htable (4 + i) (by omega) (by omega)
    have hbpb : rdQword img' 28 = rdQword img 28 :=
      Mem.qword_congr fun i _ => htable (28 + i) (by omega) (by omega)
    have hdir : rdQword img' 20 = rdQword img 20 :=
      Mem.qword_congr fun i _ => htable (20 + i) (by omega) (by omega)
    rw [← h.formatted.opened, hsame.length_eq]
    simp only [readGeometry, hsig, hbpb, hdir]
  refine ⟨⟨⟨hopen, by rw [hsame.length_eq]; exact h.formatted.length_lt,
    h.formatted.sector_aligned, h.formatted.dirsize_eq, h.formatted.datastart_le, fun b hb => ?_⟩,
    h.table.of_entryBytes fun i hi a ha => hbehind a ?_, h.tree⟩, hdata⟩
  · have hle := h.formatted.datastart_le
    rw [hdata.fat_eq b (by omega)]
    exact h.formatted.reserved b hb
  · have hent := (hg.entryLoc_le hi).1
    have hlo : g.entryLoc i ≤ a := ha.1
    omega

end Install

/-! ## Building an image -/

/-- One step in building an image: a run of `echfs-utils`, or the copies of the boot manager. -/
inductive BuildStep (stage1 bootmgr : List UInt8) : Image → Image → Prop where
  | command {img img' : Image} (hstep : Step img img') : BuildStep stage1 bootmgr img img'
  | install (img : Image) : BuildStep stage1 bootmgr img (installBoot stage1 bootmgr img)

/-- A sequence of steps. -/
abbrev Build (stage1 bootmgr : List UInt8) : Image → Image → Prop :=
  ReflTransGen (BuildStep stage1 bootmgr)

/-- The identity tables agree. -/
def SameIdentity (img img' : Image) : Prop := ∀ a, 4 ≤ a → a < 36 → img'.byte a = img.byte a

/-- What a step, and any number of them, leaves of a volume with the entries `es`: the entries, the
chains and the blocks of the files there are, the identity table, and an installed boot manager. -/
structure Built (g : Geometry) (stage1 bootmgr : List UInt8) (img img' : Image) (es : List Entry)
    (chain : Nat → List Nat) (es' : List Entry) (chain' : Nat → List Nat) : Prop where
  volume : Volume g img' (es ++ es')
  chains : Chains g img' (es ++ es') chain'
  chain_eq : ∀ i, i < es.length → chain' i = chain i
  kept : ∀ (i : Nat) (e : Entry), es[i]? = some e → e.type = FILE_TYPE →
    BlocksKept g img img' (chain i)
  identity : SameIdentity img img'
  code : BootCode stage1 bootmgr img → BootCode stage1 bootmgr img'

section Build

variable {g : Geometry} {stage1 bootmgr : List UInt8} {img img' : Image} {es : List Entry}
  {chain : Nat → List Nat}

/-- The chains depend on the allocation table only. -/
theorem Chains.of_sameData (h : Chains g img es chain) (hdata : SameData g img img') :
    Chains g img' es chain := by
  refine ⟨fun i e he htype => ?_, h.disjoint, fun b hb h0 hres => ?_⟩
  · have hc := h.chained i e he htype
    exact hc.congr fun b hb => hdata.fat_eq b (hc.in_data b hb).2
  · rw [hdata.fat_eq b hb] at h0 hres
    exact h.owned b hb h0 hres

theorem Built.step (hfits : BootFits g stage1 bootmgr) (hvol : Volume g img es)
    (hchains : Chains g img es chain) (hstep : BuildStep stage1 bootmgr img img') :
    ∃ es' chain', Built g stage1 bootmgr img img' es chain es' chain' := by
  have hg := hvol.formatted.sound
  have hhead := hg.header_le
  cases hstep with
  | command hstep =>
      have hsame := hvol.step_reserved hstep
      obtain ⟨es', chain', hvol', hch', heq⟩ := hchains.step hvol hstep
      exact ⟨es', chain', hvol', hch', heq,
        fun i e he htype => ((hchains.chained i e he htype).step hvol hstep).2,
        fun a _ _ => hsame a (by omega), fun hcode => hcode.of_same hg hfits hsame⟩
  | install =>
      have hsame := installBoot_same hg hvol.formatted.length_eq hfits
      obtain ⟨hvol', hdata⟩ := hvol.of_boot hsame
      refine ⟨[], chain, by rw [List.append_nil]; exact hvol',
        by rw [List.append_nil]; exact hchains.of_sameData hdata, fun _ _ => rfl,
        fun i e he htype b hb => ?_, fun a hlo hhi => hsame.byte_eq a ?_,
        fun _ => installBoot_code hfits⟩
      · obtain ⟨hlo, hhi⟩ := (hchains.chained i e he htype).in_data b hb
        exact ⟨hdata.fat_eq b hhi, hdata.block_eq b hlo hhi⟩
      · rintro ⟨hout, -⟩
        omega

/-- **Any sequence of steps** keeps what is on the volume. -/
theorem Built.run (hfits : BootFits g stage1 bootmgr) (hvol : Volume g img es)
    (hchains : Chains g img es chain) (hrun : Build stage1 bootmgr img img') :
    ∃ es' chain', Built g stage1 bootmgr img img' es chain es' chain' := by
  induction hrun with
  | refl =>
      exact ⟨[], chain, by rw [List.append_nil]; exact hvol, by rw [List.append_nil]; exact hchains,
        fun _ _ => rfl, fun _ _ _ _ _ _ => ⟨rfl, rfl⟩, fun _ _ _ => rfl, id⟩
  | tail _ hstep ih =>
      obtain ⟨es', chain', hbuilt⟩ := ih
      obtain ⟨es'', chain'', hnext⟩ := Built.step hfits hbuilt.volume hbuilt.chains hstep
      refine ⟨es' ++ es'', chain'', ?_⟩
      have hin : ∀ i, i < es.length → i < (es ++ es').length := fun i hi => by
        rw [List.length_append]
        omega
      refine ⟨by rw [← List.append_assoc]; exact hnext.volume,
        by rw [← List.append_assoc]; exact hnext.chains, fun i hi => ?_, fun i e he htype => ?_,
        fun a hlo hhi => (hnext.identity a hlo hhi).trans (hbuilt.identity a hlo hhi),
        fun hcode => hnext.code (hbuilt.code hcode)⟩
      · rw [hnext.chain_eq i (hin i hi), hbuilt.chain_eq i hi]
      · obtain ⟨hlt, -⟩ := List.getElem?_eq_some_iff.mp he
        have hlast := hnext.kept i e (by rw [List.getElem?_append_left hlt]; exact he) htype
        rw [hbuilt.chain_eq i hlt] at hlast
        exact (hbuilt.kept i e he htype).trans hlast

end Build

/-- **Building a boot volume.** On a freshly formatted volume any sequence of completed `mkdir` and
`import` commands and of copies of the boot manager, in any order, leaves consistent files, a
directory table in which every entry has a path, and the identity table that `format` wrote; a boot
manager that was copied at any time is still there at the end. -/
theorem build_boots {g : Geometry} {stage1 bootmgr : List UInt8} {img₀ img₁ img₂ : Image}
    (hfresh : Fresh g img₀) (hfits : BootFits g stage1 bootmgr)
    (hrun₁ : Build stage1 bootmgr img₀ img₁)
    (hrun₂ : Build stage1 bootmgr (installBoot stage1 bootmgr img₁) img₂) :
    ∃ es chain, Consistent g img₂ es chain ∧ Resolvable g img₂ es ∧ SameIdentity img₀ img₂ ∧
      BootCode stage1 bootmgr img₂ := by
  obtain ⟨es₁, chain₁, hbuilt₁⟩ := Built.run hfits hfresh.volume hfresh.chains hrun₁
  obtain ⟨es₂, chain₂, hbuilt₂⟩ := Built.run hfits hbuilt₁.volume hbuilt₁.chains
    (ReflTransGen.head (BuildStep.install img₁) hrun₂)
  obtain ⟨es₃, chain₃, hbuilt₃⟩ := Built.step hfits hbuilt₁.volume hbuilt₁.chains
    (.install img₁ : BuildStep stage1 bootmgr img₁ _)
  obtain ⟨es₄, chain₄, hbuilt₄⟩ := Built.run hfits hbuilt₃.volume hbuilt₃.chains hrun₂
  exact ⟨_, chain₂, hbuilt₂.chains.consistent hbuilt₂.volume, hbuilt₂.volume.resolvable,
    fun a hlo hhi => (hbuilt₂.identity a hlo hhi).trans (hbuilt₁.identity a hlo hhi),
    hbuilt₄.code (installBoot_code hfits)⟩

/-- The boot manager does not touch the entries and the table. -/
theorem Stocked.install {g : Geometry} {img : Image} {stage1 bootmgr : List UInt8}
    {keys : List (UInt64 × UInt8 × List UInt8)} {free : Nat} (h : Stocked g img keys free)
    (hfits : BootFits g stage1 bootmgr) :
    Stocked g (installBoot stage1 bootmgr img) keys free := by
  obtain ⟨⟨es, hvol, hkeys⟩, hfree⟩ := h
  obtain ⟨hvol', hdata⟩ := hvol.of_boot
    (installBoot_same hvol.formatted.sound hvol.formatted.length_eq hfits)
  refine ⟨⟨es, hvol', hkeys⟩, ?_⟩
  rwa [hdata.freeBlocks_eq]

/-- The directory `a` and the file `f`, then the boot manager, and then an import of two blocks to
`h`. -/
theorem build_boots_sample : ∃ img₁ img₂ img₃ img₄ img₅, SampleRun img₁ img₂ img₃ img₄ ∧
    importCmd (volumeOf 40 512) (fun _ => ⟨true, some (List.replicate 600 8)⟩) (fun _ => 0)
      (List.replicate 512 0) [[115], [104]]
      (installBoot (List.replicate 512 144) [87, 78, 68, 90] img₂) = (.ok .imported, img₅) ∧
    ∃ es chain, Consistent (volumeOf 40 512) img₅ es chain ∧ Resolvable (volumeOf 40 512) img₅ es ∧
      SameIdentity sampleVolume img₅ ∧ BootCode (List.replicate 512 144) [87, 78, 68, 90] img₅ := by
  obtain ⟨img₁, img₂, img₃, img₄, hsample, hrun, -, hstock⟩ := sampleRun
  have hfits : BootFits (volumeOf 40 512) (List.replicate 512 144) [87, 78, 68, 90] :=
    ⟨List.length_replicate, by decide⟩
  have hlong : blocksFor (volumeOf 40 512) (List.replicate 600 (8 : UInt8)).length = 2 := by
    rw [List.length_replicate]
    decide
  obtain ⟨img₅, himport, -, hstep, -⟩ := (hstock.install hfits).import ⟨[104], by decide⟩ (by decide)
    (by decide) (by decide) ⟨[115], by decide⟩ (List.replicate 600 8) List.length_replicate
    (by rw [hlong]; decide) (by decide)
  exact ⟨img₁, img₂, img₃, img₄, img₅, hsample, himport,
    build_boots sampleVolume_fresh hfits (hrun.lift id fun _ _ => BuildStep.command)
      (ReflTransGen.single (BuildStep.command hstep))⟩

end Windozz.Echfs

import Windozz.Echfs.Mkdir
import Windozz.Echfs.Resolve

set_option autoImplicit false

/-! # What an unfinished `import` leaves

`import_cmd` makes the directories of its destination before it knows that the destination is new
and that the source can be read, and it undoes nothing. On any image a run that makes no directory
and does not get to `import_chain` leaves the image as it is (`importCmd_spared`). On a volume these
are the only unfinished runs that do (`importCmd_spares_iff`).
-/

namespace Windozz.Echfs

open Relation

/-! ## The condition -/

/-- Allocation table, data blocks and directory table agree. -/
structure SameContents (g : Geometry) (img img' : Image) : Prop where
  data : SameData g img img'
  directory : ∀ i, i < g.entries → ∀ a ∈ entryBytes g i, img'.byte a = img.byte a

/-- `mkdir` makes none of the paths in front of the separators of `path` that fit into
`newdirname`. -/
def NoneToMake (g : Geometry) (img : Image) (path : List UInt8) : Prop :=
  ∀ s, s < NEWDIRNAME_LEN → path[s]? = some SLASH → ¬ NotFound g img (path.take s) DIRECTORY_TYPE

/-- The run makes no directory and does not get to `import_chain`: of a regular source, either a
directory of the destination is missing and there is none to make, or the destination exists or
cannot be looked up, or the source cannot be read. -/
def Spares (g : Geometry) (host : List UInt8 → HostFile) (img : Image) : List (List UInt8) → Prop
  | argv3 :: argv4 :: _ =>
      (host argv3).regular = true → ∀ r, pathResolver g img argv4 FILE_TYPE = .ok r →
        (r.failure = true → NoneToMake g img argv4) ∧
        (r.failure = false → r.not_found = true → (host argv3).contents = none)
  | _ => True

/-! ## Runs that leave any image alone -/

section Spared

variable {g : Geometry} {img : Image} {path : List UInt8}

/-- A `mkdir` with nothing to make. -/
theorem mkdirCmd_idle (now : UInt64) (h : ¬ NotFound g img path DIRECTORY_TYPE) :
    (∃ e, mkdirCmd g now [path] img = (.error e, img)) ∨
      mkdirCmd g now [path] img = (.ok .directoryExists, img) := by
  rw [mkdirCmd]
  cases hres : pathResolver g img path DIRECTORY_TYPE with
  | error e => exact Or.inl ⟨e, rfl⟩
  | ok r =>
      have hfound : r.not_found = false := by
        by_contra hnf
        exact h ⟨r, hres, by simpa using hnf⟩
      exact Or.inr (if_pos hfound)

/-- The loop over the directories with nothing to make runs into a fault. -/
theorem makeDirs_idle (clock : Nat → UInt64) {r : PathResult}
    (hres : pathResolver g img path FILE_TYPE = .ok r) (hfail : r.failure = true)
    (hnone : NoneToMake g img path) (rest : List UInt8) :
    ∀ newdirname, newdirname ++ rest = path →
      ∃ e, makeDirs g clock path rest newdirname img = (.error e, img) := by
  induction rest with
  | nil => exact fun _ _ => ⟨_, rfl⟩
  | cons c rest ih =>
      intro newdirname hpath
      have hnext : (newdirname ++ [c]) ++ rest = path := by
        rw [List.append_assoc]
        exact hpath
      rw [makeDirs]
      by_cases hlen : NEWDIRNAME_LEN ≤ newdirname.length
      · rw [if_pos hlen]
        exact ⟨_, rfl⟩
      · rw [if_neg hlen]
        by_cases hc : c = SLASH
        · have hat : path[newdirname.length]? = some SLASH := by
            rw [← hpath, List.getElem?_append_right (le_refl _), Nat.sub_self, hc]
            rfl
          have htake : path.take newdirname.length = newdirname := by
            rw [← hpath]
            exact List.take_left
          have hidle := hnone _ (not_le.mp hlen) hat
          rw [htake] at hidle
          rw [if_pos hc]
          -- the directory is there, or `mkdir` faults
          rcases mkdirCmd_idle (clock newdirname.length) hidle with ⟨e, hmk⟩ | hmk
          · rw [hmk]
            exact ⟨e, rfl⟩
          · rw [hmk]
            simp only [hres, if_pos hfail]
            exact ih _ hnext
        · rw [if_neg hc]
          exact ih _ hnext

end Spared

/-- A run that spares the image leaves it as it is. -/
theorem importCmd_spared {g : Geometry} {host : List UInt8 → HostFile} {img : Image}
    {args : List (List UInt8)} (h : Spares g host img args) (clock : Nat → UInt64)
    (block_buf : List UInt8) : (importCmd g host clock block_buf args img).2 = img := by
  match args, h with
  | [], _ => rfl
  | [_], _ => rfl
  | argv3 :: argv4 :: _, h =>
      rw [importCmd]
      by_cases hreg : (host argv3).regular = false
      · rw [if_pos hreg]
      · rw [if_neg hreg]
        cases hres : pathResolver g img argv4 FILE_TYPE with
        | error e => rfl
        | ok r =>
            obtain ⟨hloop, hchain⟩ := h (by simpa using hreg) r hres
            by_cases hfail : r.failure = true
            · obtain ⟨e, hrun⟩ := makeDirs_idle clock hres hfail (hloop hfail) argv4 [] rfl
              simp only [if_pos hfail, hrun]
            · simp only [if_neg hfail]
              rw [importFile, hres]
              by_cases hnf : r.not_found = false
              · simp only [if_pos hnf]
              · have hnone := hchain (by simpa using hfail) (by simpa using hnf)
                simp only [if_neg hnf, hnone]

/-! ## The file never gets shorter -/

theorem le_length_write (img : Image) (loc : Nat) (bs : List UInt8) :
    img.length ≤ (img.write loc bs).length := by
  by_cases hbs : bs = []
  · rw [Image.write, if_pos hbs]
  · rw [Image.length_write hbs]
    exact le_max_left _ _

theorem le_length_copyChain (g : Geometry) (source : List UInt8) (rounds : Nat) :
    ∀ (b spos : Nat) (buf : List UInt8) (img : Image),
      img.length ≤ (copyChain g source rounds b spos buf img).2.length := by
  have hcopied : ∀ (b loc : Nat) (buf : List UInt8) (img : Image),
      img.length ≤ ((wrQword img (g.fatLoc b) END_OF_CHAIN).write loc buf).length :=
    fun b loc buf img => (le_length_write _ _ _).trans (le_length_write _ _ _)
  induction rounds with
  | zero =>
      intro b spos buf img
      rw [copyChain_zero]
      exact hcopied _ _ _ _
  | succ rounds ih =>
      intro b spos buf img
      rw [copyChain_succ]
      simp only
      split
      · exact hcopied _ _ _ _
      · exact ((hcopied _ _ _ _).trans (le_length_write _ _ _)).trans (ih _ _ _ _)

theorem le_length_importChain (g : Geometry) (source block_buf : List UInt8) (img : Image) :
    img.length ≤ (importChain g source block_buf img).2.length :=
  le_length_copyChain _ _ _ _ _ _ _

/-! ## Unfinished runs on volumes -/

/-- The components of a path in front of a separator, and behind it. -/
theorem components_append {p q : List UInt8} (hp : p ≠ []) :
    components (p ++ SLASH :: q) = components p ++ q.splitOn SLASH := by
  obtain ⟨c, p, rfl⟩ := List.exists_cons_of_ne_nil hp
  have hrel : relative (c :: p ++ SLASH :: q) = relative (c :: p) ++ SLASH :: q := by
    rw [List.cons_append, relative, relative]
    by_cases hc : c = SLASH
    · rw [if_pos hc, if_pos hc]
    · rw [if_neg hc, if_neg hc]
      rfl
  rw [components, hrel, List.splitOn_append_cons_self]
  rfl

/-- The components of a path in front of one of its separators are components of the path. -/
theorem components_take {path : List UInt8} {t s : Nat} (ht : path[t]? = some SLASH) (hlt : t < s)
    {c : List UInt8} (hc : c ∈ components (path.take t)) : c = [] ∨ c ∈ components (path.take s) := by
  obtain ⟨hlen, hat⟩ := List.getElem?_eq_some_iff.mp ht
  have hsplit : path.take s = path.take t ++ SLASH :: (path.take s).drop (t + 1) := by
    have htake : (path.take s).take t = path.take t := by
      rw [List.take_take, Nat.min_eq_left hlt.le]
    have hlen' : t < (path.take s).length := by
      rw [List.length_take]
      omega
    have hdrop := List.drop_eq_getElem_cons hlen'
    rw [List.getElem_take, hat] at hdrop
    rw [← hdrop, ← htake, List.take_append_drop]
  by_cases hp : path.take t = []
  · rw [hp] at hc
    exact Or.inl (by simpa [components, relative] using hc)
  · rw [hsplit, components_append hp]
    exact Or.inr (List.mem_append_left _ hc)

/-- A path whose components fit is looked up to its end while the table has one. -/
theorem pathResolver_returns {g : Geometry} {img : Image} {path : List UInt8}
    (hends : tableEnd g img = .ok ()) (hfits : ∀ c ∈ components path, c.length ≤ 217) :
    ∃ r, pathResolver g img path DIRECTORY_TYPE = .ok r := by
  by_cases hpath : path = [SLASH]
  · exact ⟨_, if_pos ⟨rfl, hpath⟩⟩
  · have hshort : ¬ MeetsLong (entriesSeen g img) rootParent (components path) := by
      rintro ⟨k, c, d, hc, -, hlong⟩
      have hle := hfits c (List.mem_of_getElem? hc)
      simp only [FILENAME_LEN] at hlong
      omega
    rw [pathResolver_short (fun hroot => hpath hroot.1) hshort, hends]
    cases parentOf (entriesSeen g img) path with
    | none => exact ⟨_, rfl⟩
    | some d =>
        simp only
        cases child (entriesSeen g img) DIRECTORY_TYPE d (baseName path) with
        | none => exact ⟨_, rfl⟩
        | some found => exact ⟨_, rfl⟩

namespace Volume

variable {g : Geometry} {img img' : Image} {es : List Entry} {path : List UInt8}
  (h : Volume g img es)
include h

/-- A last component is reported as missing only while the table has room. -/
theorem notFound_slot {type : UInt8} (hpath : path ≠ [SLASH]) (hnf : NotFound g img path type) :
    es.length < g.entries ∧ ReachesLast g img path := by
  obtain ⟨hreach, -⟩ := (notFound_iff hpath).mp hnf
  refine ⟨?_, hreach⟩
  by_contra hfull
  have hends := hreach.ends
  rw [tableEnd_listed h.formatted.sound h.formatted.length_eq h.table.listed, if_neg hfull] at hends
  cases hends

/-- A `mkdir` of a path that is reported as missing makes a directory. -/
theorem mkdirCmd_makes (now : UInt64) (h0 : 0 ∉ path) (hnf : NotFound g img path DIRECTORY_TYPE) :
    ∃ img' e, mkdirCmd g now [path] img = (.ok .created, img') ∧ Volume g img' (es ++ [e]) := by
  have hg := h.formatted.sound
  have hlen := h.formatted.length_eq
  obtain ⟨r, hres, hmissing⟩ := hnf
  obtain ⟨hpath, hslot, -, hw, hnew⟩ := pathResolver_not_found hg hlen h.table.listed (Or.inr rfl)
    hres hmissing
  obtain ⟨hvol, -⟩ := h.addEntry (e := directoryEntry r.parent.payload r.name (freeId es) now)
    hslot (relative_nul h0) hw rfl rfl hnew fun _ => rfl
  exact ⟨_, _, h.mkdirCmd_created now [] hpath hslot hw hnew, hvol⟩

/-- **The loop over the directories makes the first one that there is to make.** -/
theorem makeDirs_makes (clock : Nat → UInt64) (h0 : 0 ∉ path) {r : PathResult}
    (hres : pathResolver g img path FILE_TYPE = .ok r) (hfail : r.failure = true) {s : Nat}
    (hs : s < NEWDIRNAME_LEN) (hat : path[s]? = some SLASH)
    (hnf : NotFound g img (path.take s) DIRECTORY_TYPE) (rest : List UInt8) :
    ∀ newdirname, newdirname ++ rest = path → newdirname.length ≤ s →
      ∃ ds, ds ≠ [] ∧ Volume g (makeDirs g clock path rest newdirname img).2 (es ++ ds) := by
  have hpath : path.take s ≠ [SLASH] := fun heq => not_notFound_root (Or.inr rfl) (heq ▸ hnf)
  obtain ⟨-, hreach⟩ := h.notFound_slot hpath hnf
  -- the induction is on what is left to read; `newdirname` has not got past the separator at `s`
  induction rest with
  | nil =>
      intro newdirname heq hle
      obtain ⟨hlt, -⟩ := List.getElem?_eq_some_iff.mp hat
      rw [← heq, List.append_nil] at hlt
      omega
  | cons c rest ih =>
      intro newdirname heq hle
      have hnext : (newdirname ++ [c]) ++ rest = path := by
        rw [List.append_assoc]
        exact heq
      have hc0 : path[newdirname.length]? = some c := by
        rw [← heq, List.getElem?_append_right (le_refl _), Nat.sub_self]
        rfl
      have htake : path.take newdirname.length = newdirname := by
        rw [← heq]
        exact List.take_left
      have hgo : newdirname.length ≠ s → (newdirname ++ [c]).length ≤ s := by
        intro hne
        rw [List.length_append, List.length_singleton]
        omega
      rw [makeDirs, if_neg (by omega)]
      by_cases hc : c = SLASH
      · rw [if_pos hc]
        -- a directory may be made at an earlier separator than the one at `s`
        by_cases hmake : NotFound g img newdirname DIRECTORY_TYPE
        · have hnul : 0 ∉ newdirname := by
            rw [← htake]
            exact fun hmem => h0 (List.mem_of_mem_take hmem)
          have hnul' : 0 ∉ newdirname ++ [c] ∧ 0 ∉ rest := by
            rw [← hnext] at h0
            exact not_or.mp fun hmem => h0 (List.mem_append.mpr hmem)
          obtain ⟨img₁, e, hmk, hvol⟩ := h.mkdirCmd_makes (clock newdirname.length) hnul hmake
          simp only [hmk]
          have hone : ∃ ds, ds ≠ [] ∧ Volume g img₁ (es ++ ds) := ⟨[e], by simp, hvol⟩
          split
          · exact hone
          · split
            · obtain ⟨ds, hvol', -⟩ := hvol.makeDirs_adds hnul'.2 hnul'.1
                (rfl : makeDirs g clock path rest (newdirname ++ [c]) img₁ = (_, _))
              refine ⟨[e] ++ ds, by simp, ?_⟩
              rw [← List.append_assoc]
              exact hvol'
            · exact hone
        · have hne : newdirname.length ≠ s := by
            intro heqs
            rw [← heqs, htake] at hnf
            exact hmake hnf
          have hfits : ∀ c ∈ components newdirname, c.length ≤ 217 := by
            intro n hn
            rw [← htake] at hn
            rw [hc] at hc0
            rcases components_take hc0 (by omega : newdirname.length < s) hn with rfl | hmem
            · exact Nat.zero_le _
            · exact hreach.fits n hmem
          rcases mkdirCmd_idle (clock newdirname.length) hmake with ⟨e, hmk⟩ | hmk
          · -- the look-up of the shorter path does not fault
            obtain ⟨r', hr'⟩ := pathResolver_returns hreach.ends hfits
            rw [mkdirCmd, hr'] at hmk
            have hfound : r'.not_found = false := by
              by_contra hnf'
              exact hmake ⟨r', hr', by simpa using hnf'⟩
            simp only [if_pos hfound] at hmk
            cases hmk
          · simp only [hmk, hres, if_pos hfail]
            exact ih _ hnext (hgo hne)
      · rw [if_neg hc]
        have hne : newdirname.length ≠ s := by
          intro heqs
          rw [heqs] at hc0
          exact hc (Option.some.inj (hc0.symm.trans hat))
        exact ih _ hnext (hgo hne)

/-- An unfinished run that gets to `import_chain` has left a directory table without a free slot. -/
theorem importFile_chain {contents : List UInt8} {now : UInt64} {block_buf : List UInt8}
    {r : PathResult} (hres : pathResolver g img path FILE_TYPE = .ok r) (hnf : r.not_found = true)
    (hout : (importFile g (some contents) now block_buf path img).1 ≠ .ok .imported)
    {es' : List Entry} (hslot : es'.length < g.entries) :
    ¬ Table g (importFile g (some contents) now block_buf path img).2 es' := by
  have hg := h.formatted.sound
  have hle : g.imgsize ≤ (importChain g contents block_buf img).2.length := by
    rw [← h.formatted.length_eq]
    exact le_length_importChain _ _ _ _
  have hnew : ¬ r.not_found = false := by simp [hnf]
  simp only [importFile, hres, if_neg hnew] at hout ⊢
  -- the entry would have been written
  cases hempty : findEmpty g (importChain g contents block_buf img).2 with
  | error e =>
      intro htable
      rw [findEmpty_le hg hle htable hslot] at hempty
      cases hempty
  | ok i =>
      simp only [hempty] at hout ⊢
      cases hwrite : wrEntry g (importChain g contents block_buf img).2 i
          (fileEntry r.parent.payload r.name (importChain g contents block_buf img).1
            contents.length now) with
      | error e =>
          intro htable
          rw [findEmpty_le hg hle htable hslot] at hempty
          rw [← Except.ok.inj hempty, wrEntry_lt hg hslot] at hwrite
          cases hwrite
      | ok img'' =>
          simp only [hwrite] at hout
          exact absurd rfl hout

/-- Behind the directories, an unfinished run leaves the image alone or gets to `import_chain`. -/
theorem importFile_unfinished {source : Option (List UInt8)} {now : UInt64}
    {block_buf : List UInt8} (hout : (importFile g source now block_buf path img).1 ≠ .ok .imported)
    {es' : List Entry} (hslot : es'.length < g.entries) :
    (importFile g source now block_buf path img).2 = img ∨
      ¬ Table g (importFile g source now block_buf path img).2 es' := by
  cases hres : pathResolver g img path FILE_TYPE with
  | error e =>
      left
      rw [importFile, hres]
  | ok r =>
      by_cases hnf : r.not_found = true
      · cases source with
        | none =>
            left
            have hnew : ¬ r.not_found = false := by simp [hnf]
            simp only [importFile, hres, if_neg hnew]
        | some contents => exact Or.inr (h.importFile_chain hres hnf hout hslot)
      · left
        have hfound : r.not_found = false := by simpa using hnf
        simp only [importFile, hres, if_pos hfound]

/-- **An unfinished run that does not spare the image changes the directory.** -/
theorem importCmd_changes {host : List UInt8 → HostFile} (clock : Nat → UInt64)
    (block_buf : List UInt8) {args : List (List UInt8)} (h0 : ∀ s ∈ args, 0 ∉ s)
    (hspares : ¬ Spares g host img args)
    (hout : (importCmd g host clock block_buf args img).1 ≠ .ok .imported) :
    ¬ SameContents g img (importCmd g host clock block_buf args img).2 := by
  have hg := h.formatted.sound
  have hlen := h.formatted.length_eq
  intro hsame
  have htable : Table g (importCmd g host clock block_buf args img).2 es :=
    h.table.of_entryBytes hsame.directory
  -- too few arguments spare the image
  match args, h0, hspares, hout, htable with
  | [], _, hspares, _, _ => exact hspares trivial
  | [_], _, hspares, _, _ => exact hspares trivial
  | argv3 :: argv4 :: _, h0, hspares, hout, htable =>
      have h04 : 0 ∉ argv4 := h0 argv4 (by simp)
      simp only [Spares, not_forall] at hspares
      obtain ⟨hreg, r, hres, hchange⟩ := hspares
      have hreg' : ¬ (host argv3).regular = false := by simp [hreg]
      simp only [importCmd, if_neg hreg', hres] at hout htable
      by_cases hfail : r.failure = true
      · -- the loop has made a directory, and nothing takes it away
        have hmake : ¬ NoneToMake g img argv4 := fun hnone => hchange
          ⟨fun _ => hnone, fun hf => by rw [hfail] at hf; cases hf⟩
        simp only [NoneToMake, not_forall, not_not] at hmake
        obtain ⟨s, hs, hat, hnf⟩ := hmake
        have hpath : argv4.take s ≠ [SLASH] := fun heq => not_notFound_root (Or.inr rfl) (heq ▸ hnf)
        obtain ⟨hslot, -⟩ := h.notFound_slot hpath hnf
        obtain ⟨ds, hne, hvol⟩ := h.makeDirs_makes clock h04 hres hfail hs hat hnf argv4 [] rfl
          (Nat.zero_le s)
        rw [if_pos hfail] at hout htable
        have hother : ¬ Table g (makeDirs g clock argv4 argv4 [] img).2 es := by
          intro ht
          have heq := hvol.table.listed.entries_eq.symm.trans ht.listed.entries_eq
          exact hne (List.append_right_eq_self.mp heq)
        cases hrun : makeDirs g clock argv4 argv4 [] img with
        | mk made img₁ =>
            rw [hrun] at hout htable hvol hother
            cases made with
            | error e => exact hother htable
            | ok u =>
                rcases hvol.importFile_unfinished hout hslot with heq | hfull
                · rw [heq] at htable
                  exact hother htable
                · exact hfull htable
      · -- the run has got to `import_chain`
        rw [if_neg hfail] at hout htable
        have hchain : ¬ (r.not_found = true → (host argv3).contents = none) := fun hc => hchange
          ⟨fun hf => absurd hf hfail, fun _ => hc⟩
        rw [Classical.not_imp] at hchain
        obtain ⟨hnf, hcontents⟩ := hchain
        obtain ⟨contents, hcontents⟩ := Option.ne_none_iff_exists'.mp hcontents
        have hnotfound : NotFound g img argv4 FILE_TYPE := ⟨r, hres, hnf⟩
        have hpath : argv4 ≠ [SLASH] := fun heq => not_notFound_root (Or.inl rfl) (heq ▸ hnotfound)
        obtain ⟨hslot, -⟩ := h.notFound_slot hpath hnotfound
        rw [hcontents] at hout htable
        exact h.importFile_chain hres hnf hout hslot htable

end Volume

/-- **What an unfinished `import` leaves.** A run that makes no directory and does not get to
`import_chain` leaves any image as it is. On a volume made by `format`, `mkdir` and `import`, these
are the only unfinished runs after which allocation table, data blocks and directory are as before. -/
theorem importCmd_spares_iff (g : Geometry) (img : Image) (host : List UInt8 → HostFile)
    (clock : Nat → UInt64) (block_buf : List UInt8) (args : List CString) :
    (Spares g host img (args.map Subtype.val) →
      (importCmd g host clock block_buf (args.map Subtype.val) img).2 = img) ∧
    ∀ img₀, Fresh g img₀ → Run img₀ img →
      (importCmd g host clock block_buf (args.map Subtype.val) img).1 ≠ .ok .imported →
      (SameContents g img (importCmd g host clock block_buf (args.map Subtype.val) img).2 ↔
        Spares g host img (args.map Subtype.val)) := by
  refine ⟨fun h => importCmd_spared h clock block_buf, fun img₀ hfresh hrun hout => ?_⟩
  obtain ⟨es, hvol⟩ := hfresh.volume.run hrun
  constructor
  · intro hsame
    by_contra hspares
    exact hvol.importCmd_changes clock block_buf (nul_free args) hspares hout hsame
  · intro hspares
    rw [importCmd_spared hspares]
    exact ⟨SameData.refl _ _, fun _ _ _ _ => rfl⟩

/-- Every source is a regular file that cannot be opened. -/
def lockedHost : List UInt8 → HostFile := fun _ => { regular := true, contents := none }

/-- The arguments of `import s f`. -/
def newFile : List CString := [⟨[115], by decide⟩, ⟨[102], by decide⟩]

/-- On any empty volume, `import s f` of a source that cannot be opened reports it. -/
theorem Volume.importCmd_newFile {g : Geometry} {img : Image} (h : Volume g img [])
    (hslot : 0 < g.entries) :
    (importCmd g lockedHost (fun _ => 0) [] (newFile.map Subtype.val) img).1
      = .ok .sourceNotAccessible := by
  have hres : pathResolver g img [102] FILE_TYPE = .ok (PathResult.missing rootParent [102]) :=
    pathResolver_missing h.formatted.sound h.formatted.length_eq h.table.listed (by decide) rfl rfl
      hslot
  simp [newFile, importCmd, importFile, lockedHost, hres, PathResult.missing, PathResult.init]

/-- `import s f` on the small volume, of a source that cannot be opened. -/
theorem importCmd_spares_locked :
    SameContents (volumeOf 20 512) smallVolume (importCmd (volumeOf 20 512) lockedHost (fun _ => 0)
        [] (newFile.map Subtype.val) smallVolume).2 ↔
      Spares (volumeOf 20 512) lockedHost smallVolume (newFile.map Subtype.val) := by
  have hout := smallVolume_fresh.volume.importCmd_newFile (by decide)
  exact (importCmd_spares_iff (volumeOf 20 512) smallVolume lockedHost (fun _ => 0) []
    newFile).2 smallVolume smallVolume_fresh ReflTransGen.refl (by rw [hout]; simp)

/-- On any empty volume, `import s d/f` of a source that cannot be opened leaves the directory `d`. -/
theorem Volume.importCmd_locked {g : Geometry} {img : Image} (h : Volume g img [])
    (hslot : 1 < g.entries) :
    ∃ img', importCmd g lockedHost (fun _ => 0) [] [[115], [100, 47, 102]] img
        = (.ok .sourceNotAccessible, img') ∧ ¬ SameContents g img img' := by
  have hg := h.formatted.sound
  have hlen := h.formatted.length_eq
  have hslot₀ : ([] : List Entry).length < g.entries := Nat.zero_lt_of_lt hslot
  have hwd : walk [] (relative [100]) [] rootParent = some (rootParent, [100]) := rfl
  have hfail : pathResolver g img [100, 47, 102] FILE_TYPE
      = .ok { PathResult.init with failure := true } :=
    (pathResolver_eq (by decide)).trans
      (resolveNext_lost hg hlen h.table.listed hslot₀ (by decide) rfl)
  have hmk := h.mkdirCmd_created 0 [] (by decide) hslot₀ hwd rfl
  obtain ⟨hvol, -⟩ := h.addEntry (e := directoryEntry rootParent.payload [100] (freeId []) 0)
    hslot₀ (by decide) hwd rfl rfl rfl fun _ => rfl
  have hname : (directoryEntry rootParent.payload [100] (freeId []) 0).name.cstr = [100] :=
    NameField.cstr_store (by decide) (by decide)
  have htype : (directoryEntry rootParent.payload [100] (freeId []) 0).type = DIRECTORY_TYPE := rfl
  have hparent : (directoryEntry rootParent.payload [100] (freeId []) 0).parent_id = ROOT_ID := rfl
  -- only these facts about the new directory and the new image count
  generalize directoryEntry rootParent.payload [100] (freeId []) 0 = d at *
  generalize img.write (g.entryLoc ([] : List Entry).length) d.encode = img' at *
  have hd : lookup ([] ++ [d]) [100] ROOT_ID DIRECTORY_TYPE = some 0 :=
    lookup_added rfl hparent htype hname
  have hwf : walk ([] ++ [d]) (relative [100, 47, 102]) [] rootParent = some (d, [102]) := by
    have hroot : rootParent.payload = ROOT_ID := rfl
    rw [List.nil_append] at hd ⊢
    simp [relative, walk, FILENAME_LEN, SLASH, hroot, hd]
  have hnew : lookup ([] ++ [d]) [102] d.payload FILE_TYPE = none := by
    simp [lookup, List.findIdx?_cons, htype, FILE_TYPE, DIRECTORY_TYPE]
  have hmissing := pathResolver_missing hvol.formatted.sound hvol.formatted.length_eq
    hvol.table.listed (by decide) hwf hnew hslot
  have hrun : importCmd g lockedHost (fun _ => 0) [] [[115], [100, 47, 102]] img
      = (.ok .sourceNotAccessible, img') := by
    simp [importCmd, lockedHost, hfail, makeDirs, NEWDIRNAME_LEN, SLASH, hmk, hmissing, importFile,
      PathResult.missing, PathResult.init]
  refine ⟨img', hrun, fun hsame => ?_⟩
  -- the table holds the new directory, not the entries it held before
  have htable := h.table.of_entryBytes hsame.directory
  have heq := htable.listed.entries_eq.symm.trans hvol.table.listed.entries_eq
  exact List.cons_ne_nil d [] heq.symm

/-- `import s d/f` of a source that cannot be opened, on the small volume. -/
theorem importCmd_leaves_directory : ∃ img',
    importCmd (volumeOf 20 512) lockedHost (fun _ => 0) [] [[115], [100, 47, 102]] smallVolume
      = (.ok .sourceNotAccessible, img') ∧
    ¬ SameContents (volumeOf 20 512) smallVolume img' :=
  smallVolume_fresh.volume.importCmd_locked (by decide)

end Windozz.Echfs

import Windozz.Echfs.Ancestors

set_option autoImplicit false

/-! # The indices into `name`, `newdirname` and the paths

`path_resolver` copies each component it comes to into `name[FILENAME_LEN]`, and the loop at
`subdir` of `import_cmd` copies the destination into `newdirname[4096]`. Neither tests a length, and
the loop looks for separators only: behind the last one it runs past the end of the path. Whether an
index leaves its range depends on the directories there are (`commands_inRange_iff`): a component is
copied only when all directories in front of it exist or have just been made.
-/

namespace Windozz.Echfs

open Relation

/-- Every index stays in range. -/
def InRange {α : Type} (run : Except Fault α) : Prop := run ≠ .error .overrun

/-- Of the components `path_resolver` comes to each fits into `name`. -/
def Fits (g : Geometry) (img : Image) (path : List UInt8) : Prop :=
  path = [SLASH] ∨ ¬ MeetsLong (entriesSeen g img) rootParent (components path)

/-- The run of `import_cmd` for a regular file leaves a buffer or the destination. For `/` it does
so behind the only separator, unless the directory made there does not fit into the table. -/
def LeavesRange (g : Geometry) (es : List Entry) (path : List UInt8) : Prop :=
  if path = [SLASH] then es.length < g.entries ∨ child es DIRECTORY_TYPE rootParent [] ≠ none
  else MeetsLong es rootParent (components path) ∨
    parentOf es path = none ∧
      Escapes g (es.length + if Strays es path then 1 else 0) (leading path) (components path)
        (existing es rootParent (components path).dropLast)

/-! ## Any image -/

theorem inRange_ok {α : Type} (r : α) : InRange (Except.ok r) := fun h => by cases h

/-- A fault is passed on. -/
theorem inRange_error {α β : Type} {e : Fault} {run : Except Fault α} (h : InRange run)
    (he : run = .error e) : InRange (.error e : Except Fault β) := by
  rintro heq
  apply h
  rw [he, Except.error.inj heq]

section Scans

variable {g : Geometry} {img : Image}

theorem rdEntry_inRange (i : Nat) : InRange (rdEntry g img i) := by
  rw [InRange, rdEntry]
  split
  · simp
  · split
    · simp
    · simp

theorem wrEntry_inRange (i : Nat) (e : Entry) : InRange (wrEntry g img i e) := by
  rw [InRange, wrEntry]
  split
  · simp
  · simp

/-- The scans of the table copy nothing. -/
theorem scan_inRange {σ ρ : Type} (body : Nat → Entry → σ → σ ⊕ ρ) (fuel i : Nat) (s : σ) :
    InRange (scan g img body fuel i s) := by
  induction fuel generalizing i s with
  | zero => simp [InRange, scan]
  | succ fuel ih =>
      rw [scan]
      cases hrd : rdEntry g img i with
      | error e => exact inRange_error (rdEntry_inRange i) hrd
      | ok entry =>
          cases hbody : body i entry s with
          | inr r =>
              simp only [hbody]
              exact inRange_ok r
          | inl s' =>
              simp only [hbody]
              exact ih _ _

theorem findEmpty_inRange : InRange (findEmpty g img) := scan_inRange _ _ _ _

theorem getFreeId_inRange : InRange (getFreeId g img) := scan_inRange _ _ _ _

end Scans

section Commands

variable {g : Geometry} {img : Image} {path : List UInt8}

theorem pathResolver_inRange_iff {type : UInt8} (htype : type = FILE_TYPE ∨ type = DIRECTORY_TYPE) :
    InRange (pathResolver g img path type) ↔ Fits g img path := by
  by_cases hroot : RootPath path type
  · have hpath := hroot.1
    obtain ⟨r, hr⟩ : ∃ r, pathResolver g img path type = .ok r := by
      obtain ⟨rfl, rfl | rfl⟩ := hroot
      · exact ⟨_, rfl⟩
      · exact ⟨_, rfl⟩
    rw [hr]
    exact ⟨fun _ => Or.inl hpath, fun _ => inRange_ok r⟩
  · have hpath : path ≠ [SLASH] := fun hp => hroot ⟨hp, htype⟩
    rw [InRange, ne_eq, pathResolver_overrun_iff hroot, Fits]
    simp [hpath]

/-- Behind `path_resolver` the indices of `mkdir_cmd` are in range. -/
theorem mkdirCmd_inRange_iff (now : UInt64) (rest : List (List UInt8)) :
    InRange (mkdirCmd g now (path :: rest) img).1 ↔ Fits g img path := by
  rw [← pathResolver_inRange_iff (Or.inr rfl), mkdirCmd]
  cases hres : pathResolver g img path DIRECTORY_TYPE with
  | error e => simp [InRange]
  | ok r =>
      refine iff_of_true ?_ (inRange_ok r)
      simp only
      split
      · exact inRange_ok _
      · cases hempty : findEmpty g img with
        | error e => exact inRange_error findEmpty_inRange hempty
        | ok i =>
            cases hid : getFreeId g img with
            | error e => exact inRange_error getFreeId_inRange hid
            | ok id =>
                simp only
                split
                · rename_i hwr
                  exact inRange_error (wrEntry_inRange _ _) hwr
                · exact inRange_ok _

/-- Behind `path_resolver` the indices of `export_cmd` are in range. -/
theorem exportCmd_inRange_iff (writable : List UInt8 → Bool) (pos : Nat)
    (block_buf argv4 : List UInt8) (rest : List (List UInt8)) :
    InRange (exportCmd g writable pos block_buf (path :: argv4 :: rest) img) ↔ Fits g img path := by
  rw [← pathResolver_inRange_iff (Or.inl rfl), exportCmd]
  cases hres : pathResolver g img path FILE_TYPE with
  | error e => simp [InRange]
  | ok r =>
      refine iff_of_true ?_ (inRange_ok r)
      simp only
      split
      · exact inRange_ok _
      · split
        · exact inRange_ok _
        · cases exportChain g img r.target.payload.toNat r.target.size.toNat pos block_buf with
          | none => simp [InRange]
          | some dest => exact inRange_ok _

/-- The part of `import_cmd` behind the directories, of a destination that can be looked up. -/
theorem importFile_inRange {r : PathResult} (hres : pathResolver g img path FILE_TYPE = .ok r)
    (source : Option (List UInt8)) (now : UInt64) (block_buf : List UInt8) :
    InRange (importFile g source now block_buf path img).1 := by
  rw [importFile, hres]
  simp only
  split
  · exact inRange_ok _
  · cases source with
    | none => exact inRange_ok _
    | some source =>
        simp only
        cases hempty : findEmpty g (importChain g source block_buf img).2 with
        | error e => exact inRange_error findEmpty_inRange hempty
        | ok i =>
            simp only
            split
            · rename_i hwr
              exact inRange_error (wrEntry_inRange _ _) hwr
            · exact inRange_ok _

/-- `import_cmd` of a regular file, in terms of its loop. -/
theorem importCmd_inRange {host : List UInt8 → HostFile} (clock : Nat → UInt64)
    (block_buf : List UInt8) {argv3 : List UInt8} (rest : List (List UInt8))
    (hreg : (host argv3).regular = true) :
    InRange (importCmd g host clock block_buf (argv3 :: path :: rest) img).1 ↔
      Fits g img path ∧ ∀ r, pathResolver g img path FILE_TYPE = .ok r → r.failure = true →
        InRange (makeDirs g clock path path [] img).1 := by
  rw [← pathResolver_inRange_iff (Or.inl rfl), importCmd, if_neg (by simp [hreg])]
  cases hres : pathResolver g img path FILE_TYPE with
  | error e => simp [InRange]
  | ok r =>
      simp only [Except.ok.injEq, forall_eq', inRange_ok, true_and]
      by_cases hfail : r.failure = true
      · simp only [hfail, forall_const]
        cases hrun : makeDirs g clock path path [] img with
        | mk made img' =>
            cases made with
            | error e => simp [InRange]
            | ok u =>
                obtain ⟨r', hr', -⟩ := makeDirs_ok _ _ _ hrun
                exact iff_of_true (importFile_inRange hr' _ _ _) (inRange_ok u)
      · simp only [if_neg hfail]
        exact iff_of_true (importFile_inRange hres _ _ _) fun h => absurd h hfail

end Commands

/-! ## Volumes -/

section Volumes

variable {g : Geometry} {img : Image} {es : List Entry} {path : List UInt8}

/-- The loop leaves a buffer exactly when one of the directories it makes does. -/
theorem LoopEnds.inRange_iff {start : Nat} {names : List (List UInt8)} {d : Entry}
    {run : Except Fault Unit × Image} (h : LoopEnds g img es start names d run) :
    InRange run.1 ↔ ¬ Escapes g es.length start names (existing es d names.dropLast) := by
  cases h with
  | overrun hescapes => exact iff_of_false (fun h => h rfl) fun h => h hescapes
  | full hstays hfull => exact iff_of_true (by simp [InRange]) hstays
  | made hstays hroom hvol hsame hp hnested => exact iff_of_true (inRange_ok _) hstays

namespace Volume

variable (h : Volume g img es) (clock : Nat → UInt64) (h0 : 0 ∉ path)
include h

theorem fits_iff : Fits g img path ↔ path = [SLASH] ∨ ¬ MeetsLong es rootParent (components path) := by
  rw [Fits, entriesSeen_listed h.formatted.sound h.formatted.length_eq h.table.listed]

/-- The loop for the destination `/`. -/
theorem makeDirs_root : InRange (makeDirs g clock [SLASH] [SLASH] [] img).1 ↔
    ¬ LeavesRange g es [SLASH] := by
  have hempty : components [] = [] ++ [[]] := rfl
  have hnone : ∀ n ∈ ([] : List (List UInt8)), n.length < FILENAME_LEN := by simp
  have hfits : ([] : List UInt8).length < FILENAME_LEN := by decide
  -- after any `mkdir` the loop goes on behind the end of the path
  have hover : ∀ report img', mkdirCmd g (clock 0) [[]] img = (.ok report, img') →
      (makeDirs g clock [SLASH] [SLASH] [] img).1 = .error .overrun := by
    intro report img' hmk
    rw [makeDirs_slash (by decide) hmk]
    rfl
  rw [LeavesRange, if_pos rfl]
  cases hchild : child es DIRECTORY_TYPE rootParent [] with
  | some found =>
      have hrun := hover _ _ (h.mkdirCmd_existing _ hempty rfl hnone hfits hchild)
      exact iff_of_false (fun hin => hin hrun) fun hin => hin (Or.inr (by simp))
  | none =>
      by_cases hslot : es.length < g.entries
      · obtain ⟨img', e, hmk, -⟩ := h.mkdirCmd_missing (clock 0) hslot List.not_mem_nil (by decide)
          hempty rfl hnone hfits hchild
        exact iff_of_false (fun hin => hin (hover _ _ hmk)) fun hin => hin (Or.inl hslot)
      · -- the look-up of the empty name aborts
        have hres : pathResolver g img [] DIRECTORY_TYPE = .error .readOutOfBounds := by
          rw [h.pathResolver_eq_names (by simp [RootPath, SLASH]), if_neg hslot]
          simp [components, relative, resolveNames, FILENAME_LEN, hchild, Except.map]
        refine iff_of_true ?_ (by simp [hslot])
        rw [makeDirs, if_neg (by decide), if_pos rfl, mkdirCmd, hres]
        simp [InRange]

include h0 in
/-- The loop for any other destination. -/
theorem makeDirs_inRange_iff (hpath : path ≠ [SLASH]) (hslot : es.length < g.entries)
    (hlost : resolveNames es (.ok ()) FILE_TYPE (components path) rootParent
      = .ok PathResult.lost) :
    InRange (makeDirs g clock path path [] img).1 ↔
      ¬ Escapes g (es.length + if Strays es path then 1 else 0) (leading path) (components path)
        (existing es rootParent (components path).dropLast) := by
  by_cases hstrays : Strays es path
  · obtain ⟨img', e, -, -, -, hsame, hfull, hgoes⟩ :=
      h.makeDirs_strays clock h0 hpath hslot hlost hstrays
    rw [if_pos hstrays]
    by_cases hroom : es.length + 1 < g.entries
    · rw [(hgoes hroom).inRange_iff, hsame, List.length_append, List.length_singleton]
    · rw [hfull (not_lt.mp hroom)]
      refine iff_of_true (by simp [InRange]) ?_
      rintro ⟨k, -, -, hk, -⟩
      omega
  · rw [if_neg hstrays, Nat.add_zero]
    exact (h.makeDirs_start clock h0 hpath hslot hlost hstrays).inRange_iff

include h0 in
/-- **The indices of `import_cmd`** on a volume. -/
theorem importCmd_inRange_iff (host : List UInt8 → HostFile) (block_buf argv3 : List UInt8)
    (rest : List (List UInt8)) :
    InRange (importCmd g host clock block_buf (argv3 :: path :: rest) img).1 ↔
      (host argv3).regular = false ∨ ¬ LeavesRange g es path := by
  by_cases hreg : (host argv3).regular = false
  · rw [importCmd, if_pos hreg]
    exact iff_of_true (inRange_ok _) (Or.inl hreg)
  rw [importCmd_inRange clock block_buf rest (by simpa using hreg), or_iff_right hreg]
  by_cases hpath : path = [SLASH]
  · subst hpath
    have hres : pathResolver g img [SLASH] FILE_TYPE = .ok PathResult.lost := rfl
    rw [← h.makeDirs_root clock]
    constructor
    · exact fun hin => hin.2 _ hres rfl
    · exact fun hin => ⟨Or.inl rfl, fun _ _ _ => hin⟩
  have hroot : ¬ RootPath path FILE_TYPE := fun hr => hpath hr.1
  rw [h.fits_iff, or_iff_right hpath, LeavesRange, if_neg hpath]
  by_cases hlong : MeetsLong es rootParent (components path)
  · exact iff_of_false (fun hin => hin.1 hlong) fun hin => hin (Or.inl hlong)
  simp only [hlong, not_false_eq_true, true_and, false_or, not_and]
  have hparent : parentOf es path = descend es rootParent (components path).dropLast := rfl
  have hshort : ∀ fin, resolveNames es fin FILE_TYPE (components path) rootParent = _ :=
    fun fin => resolveNames_short hlong (components_ne_nil path)
  rw [h.pathResolver_eq_names hroot]
  cases hd : descend es rootParent (components path).dropLast with
  | some d =>
      -- no directory is missing
      simp only [hd] at hshort
      rw [hshort, hparent, hd]
      refine iff_of_true (fun r hr hfail => ?_) (fun hno => by cases hno)
      cases hc : child es FILE_TYPE d ((components path).getLast?.getD []) with
      | some found =>
          rw [hc] at hr
          rw [← Except.ok.inj hr] at hfail
          cases hfail
      | none =>
          rw [hc] at hr
          by_cases hslot : es.length < g.entries
          · rw [if_pos hslot] at hr
            rw [← Except.ok.inj hr] at hfail
            cases hfail
          · rw [if_neg hslot] at hr
            cases hr
  | none =>
      simp only [hd] at hshort
      rw [hshort, hparent, hd]
      by_cases hslot : es.length < g.entries
      · rw [if_pos hslot, ← h.makeDirs_inRange_iff clock h0 hpath hslot (hshort _)]
        exact ⟨fun hin _ => hin _ rfl rfl, fun hin _ _ _ => hin rfl⟩
      · rw [if_neg hslot]
        refine iff_of_true (fun r hr => by cases hr) ?_
        rintro - ⟨k, -, -, hk, -⟩
        omega

omit h in
/-- A name that was stored has a terminator. -/
theorem nul_mem_store {s : List UInt8} (hlen : s.length < FILENAME_LEN) :
    0 ∈ (NameField.store s).val := by
  have hval : (NameField.store s).val = (s ++ List.replicate FILENAME_LEN 0).take FILENAME_LEN := rfl
  rw [hval, List.take_append, List.take_replicate]
  apply List.mem_append_right
  rw [List.mem_replicate]
  exact ⟨by omega, rfl⟩

/-- The names that `ls_cmd` prints have terminators. -/
theorem lsLoop_inRange (id : UInt64) (fuel : Nat) :
    ∀ i out, i ≤ es.length → InRange (lsLoop g img id fuel i out).1 := by
  have hg := h.formatted.sound
  have hlen := h.formatted.length_eq
  induction fuel with
  | zero =>
      intro i out _
      simp [InRange, lsLoop]
  | succ fuel ih =>
      intro i out hi
      rw [lsLoop]
      by_cases hlt : i < es.length
      · have he := List.getElem?_eq_getElem hlt
        have hmem := List.getElem_mem hlt
        obtain ⟨s, hs, -, -, hname⟩ := h.tree.names _ hmem
        have hnul : ¬ 0 ∉ es[i].name.val := by
          rw [hname, not_not]
          exact nul_mem_store hs
        simp only [rdEntry_listed hg hlen h.table.listed he,
          if_neg (h.table.listed.used _ hmem), if_neg hnul]
        split
        · exact ih _ _ hlt
        · exact ih _ _ hlt
      · obtain rfl : i = es.length := by omega
        by_cases hslot : es.length < g.entries
        · simp only [rdEntry_lt hg hlen hslot, if_pos (h.table.listed.stop hslot)]
          exact inRange_ok _
        · have hfits := h.table.listed.fits
          obtain heq : es.length = g.entries := by omega
          rw [heq, rdEntry_end hg hlen]
          simp [InRange]

/-- Behind `path_resolver` the indices of `ls_cmd` are in range. -/
theorem lsCmd_inRange_iff (rest : List (List UInt8)) :
    InRange (lsCmd g (path :: rest) img).1 ↔ Fits g img path := by
  rw [← pathResolver_inRange_iff (Or.inr rfl), lsCmd]
  cases hres : pathResolver g img path DIRECTORY_TYPE with
  | error e => simp [InRange]
  | ok r =>
      refine iff_of_true ?_ (inRange_ok r)
      simp only
      split
      · exact inRange_ok _
      · exact h.lsLoop_inRange _ _ _ _ (Nat.zero_le _)

end Volume

/-- When no directory of the destination is missing, `import_cmd` makes none. -/
theorem importCmd_inRange_found {host : List UInt8 → HostFile} (clock : Nat → UInt64)
    (block_buf argv3 : List UInt8) (rest : List (List UInt8)) (hpath : path ≠ [SLASH])
    (hfound : parentOf (entriesSeen g img) path ≠ none) :
    InRange (importCmd g host clock block_buf (argv3 :: path :: rest) img).1 ↔
      (host argv3).regular = false ∨ Fits g img path := by
  by_cases hreg : (host argv3).regular = false
  · rw [importCmd, if_pos hreg]
    exact iff_of_true (inRange_ok _) (Or.inl hreg)
  rw [importCmd_inRange clock block_buf rest (by simpa using hreg), or_iff_right hreg, Fits,
    or_iff_right hpath]
  refine and_iff_left_of_imp fun hshort r hr hfail => ?_
  rw [pathResolver_short (fun hroot => hpath hroot.1) hshort] at hr
  obtain ⟨d, hd⟩ := Option.ne_none_iff_exists'.mp hfound
  simp only [hd] at hr
  cases hc : child (entriesSeen g img) FILE_TYPE d (baseName path) with
  | some found =>
      simp only [hc] at hr
      rw [← Except.ok.inj hr] at hfail
      cases hfail
  | none =>
      simp only [hc] at hr
      cases hend : tableEnd g img with
      | error e =>
          rw [hend] at hr
          cases hr
      | ok u =>
          rw [hend] at hr
          rw [← Except.ok.inj hr] at hfail
          cases hfail

end Volumes

/-- **The indices of the commands.** On every image the indices of `mkdir`, `export` and `ls` stay
in range exactly when each component `path_resolver` comes to fits into `name`, and so do those of an
`import` that finds all directories of its destination. On every volume made by `format`, `mkdir`
and `import` the exact condition for any `import` is known too, and `ls` finds a terminator in each
name. -/
theorem commands_inRange_iff (g : Geometry) (img : Image) (argv3 argv4 : CString)
    (rest : List (List UInt8)) (now : UInt64) (host : List UInt8 → HostFile)
    (clock : Nat → UInt64) (writable : List UInt8 → Bool) (pos : Nat) (block_buf : List UInt8) :
    (InRange (mkdirCmd g now (argv3.val :: rest) img).1 ↔ Fits g img argv3.val) ∧
    (InRange (exportCmd g writable pos block_buf (argv3.val :: argv4.val :: rest) img)
      ↔ Fits g img argv3.val) ∧
    (InRange (pathResolver g img argv3.val DIRECTORY_TYPE) ↔ Fits g img argv3.val) ∧
    (argv4.val ≠ [SLASH] → parentOf (entriesSeen g img) argv4.val ≠ none →
      (InRange (importCmd g host clock block_buf (argv3.val :: argv4.val :: rest) img).1
        ↔ (host argv3.val).regular = false ∨ Fits g img argv4.val)) ∧
    ∀ img₀, Fresh g img₀ → Run img₀ img →
      (InRange (lsCmd g (argv3.val :: rest) img).1 ↔ Fits g img argv3.val) ∧
      (InRange (importCmd g host clock block_buf (argv3.val :: argv4.val :: rest) img).1
        ↔ (host argv3.val).regular = false ∨ ¬ LeavesRange g (entriesOf g img) argv4.val) := by
  refine ⟨mkdirCmd_inRange_iff _ _, exportCmd_inRange_iff _ _ _ _ _,
    pathResolver_inRange_iff (Or.inr rfl), importCmd_inRange_found _ _ _ _, ?_⟩
  intro img₀ hfresh hrun
  obtain ⟨es, hvol⟩ := hfresh.volume.run hrun
  rw [hvol.table.listed.entries_eq]
  exact ⟨hvol.lsCmd_inRange_iff _,
    hvol.importCmd_inRange_iff clock argv4.property host block_buf _ _⟩

/-- `import s f` and `ls f` on the small volume. -/
theorem commands_inRange_small :
    (InRange (importCmd (volumeOf 20 512) lockedHost (fun _ => 0) [] [[115], [102]] smallVolume).1
      ↔ (lockedHost [115]).regular = false ∨ Fits (volumeOf 20 512) smallVolume [102]) ∧
    (InRange (lsCmd (volumeOf 20 512) [[115]] smallVolume).1
      ↔ Fits (volumeOf 20 512) smallVolume [115]) := by
  have hall := commands_inRange_iff (volumeOf 20 512) smallVolume ⟨[115], by decide⟩
    ⟨[102], by decide⟩ [] 0 lockedHost (fun _ => 0) (fun _ => true) 0 []
  have hfound : parentOf (entriesSeen (volumeOf 20 512) smallVolume) [102] ≠ none := by
    rw [parentOf, components_single (by decide)]
    exact Option.some_ne_none _
  exact ⟨hall.2.2.2.1 (by decide) hfound,
    (hall.2.2.2.2 smallVolume smallVolume_fresh ReflTransGen.refl).1⟩

/-- On the small volume `mkdir` of a name of 218 characters overruns `name`, and `import s /` runs
past the end of `/`. -/
theorem commands_leave_range :
    ¬ InRange (mkdirCmd (volumeOf 20 512) 0 [List.replicate 218 97] smallVolume).1 ∧
    ¬ InRange (importCmd (volumeOf 20 512) lockedHost (fun _ => 0) [] [[115], [47]]
      smallVolume).1 := by
  have hvol := smallVolume_fresh.volume
  constructor
  · rw [mkdirCmd_inRange_iff, hvol.fits_iff]
    have hslash : SLASH ∉ List.replicate 218 (97 : UInt8) :=
      fun hmem => absurd (List.eq_of_mem_replicate hmem) (by decide)
    rw [components_single hslash, not_or, not_not]
    refine ⟨fun heq => ?_, 0, _, rootParent, rfl, rfl, ?_⟩
    · rw [heq] at hslash
      exact hslash List.mem_cons_self
    · rw [List.length_replicate]
      rfl
  · rw [hvol.importCmd_inRange_iff _ (by decide), LeavesRange,
      if_pos (show [47] = [SLASH] from rfl), not_or, not_not]
    exact ⟨by decide, Or.inl (by decide)⟩

end Windozz.Echfs

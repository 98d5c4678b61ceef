import Windozz.Echfs.RoundTrip
import Windozz.Echfs.Indices

set_option autoImplicit false

/-! # What `import` makes of its destination

With enough room `import_cmd` is to make the missing directories of its destination, each in the one
before it, and the file in the last of them (`Makes`). It does so exactly if the components fit into
`name`, the destination is new and, when a directory is missing, the last separator is in reach of
`newdirname` and there is no leading separator, or the directory with the empty name made for it
exists already (`importCmd_makes_iff`).
-/

namespace Windozz.Echfs

open Relation

/-- The directories of a destination. -/
def directories (path : List UInt8) : List (List UInt8) := (components path).dropLast

/-- The number of directories of a destination that exist. -/
def found (es : List Entry) (path : List UInt8) : Nat := existing es rootParent (directories path)

/-- There is a free entry for each missing directory and the file, and a free block for each block
of the file. -/
structure Room (g : Geometry) (img : Image) (es : List Entry) (path source : List UInt8) : Prop where
  entries : es.length + (directories path).length < g.entries + found es path
  blocks : EnoughFree g img source.length

/-- A run of `import` has added the missing directories of the destination, nested in the last one
that existed, and the file in the last of them, and no other entry. -/
def Makes (g : Geometry) (es : List Entry) (path source : List UInt8)
    (run : Except Fault Report × Image) : Prop :=
  ∃ p ds e, run.1 = .ok .imported ∧ entriesOf g run.2 = es ++ ds ++ [e] ∧
    descend es rootParent ((directories path).take (found es path)) = some p ∧
    Nested p ((directories path).drop (found es path)) ds ∧
    e.type = FILE_TYPE ∧ e.name.cstr = baseName path ∧
    e.parent_id = (ds.getLast?.getD p).payload ∧ e.size.toNat = source.length

/-- What `import` needs of its destination. -/
structure Importable (es : List Entry) (path : List UInt8) : Prop where
  fits : ∀ c ∈ components path, c.length ≤ 217
  new : ∀ d, parentOf es path = some d → child es FILE_TYPE d (baseName path) = none
  /-- The last separator of the path stands below index 4096. -/
  reach : parentOf es path = none → path.length ≤ NEWDIRNAME_LEN + (baseName path).length
  relative : parentOf es path = none → ¬ Strays es path

/-! ## Positions in a path -/

section Positions

variable {path : List UInt8} {names : List (List UInt8)} {start k : Nat}

theorem length_intercalate_slash (hne : names ≠ []) :
    ([SLASH].intercalate names).length + 1 = (names.map List.length).sum + names.length := by
  induction names with
  | nil => exact absurd rfl hne
  | cons c names ih =>
      cases names with
      | nil => simp
      | cons c' names =>
          have hrest := ih (List.cons_ne_nil _ _)
          rw [intercalate_slash, List.length_append, List.length_cons, List.map_cons, List.sum_cons,
            List.length_cons]
          omega

/-- The characters of a path are those of its components and the separators. -/
theorem length_path (path : List UInt8) : path.length + 1 =
    leading path + ((components path).map List.length).sum + (components path).length := by
  have hlen := length_intercalate_slash (components_ne_nil path)
  by_cases hhead : path.head? = some SLASH
  · obtain ⟨q, rfl⟩ := List.head?_eq_some_iff.mp hhead
    have hsplit := congrArg List.length (Reading.startSlash q).split
    rw [List.length_append, List.length_singleton] at hsplit
    rw [leading, if_pos hhead]
    omega
  · have hsplit := congrArg List.length (Reading.start hhead).split
    rw [List.nil_append] at hsplit
    rw [leading, if_neg hhead]
    omega

theorem components_concat (path : List UInt8) :
    directories path ++ [baseName path] = components path := by
  rw [directories, baseName, List.getLast?_eq_some_getLast (components_ne_nil path),
    Option.getD_some]
  exact List.dropLast_append_getLast (components_ne_nil path)

theorem length_components (path : List UInt8) :
    (components path).length = (directories path).length + 1 := by
  rw [← components_concat, List.length_append, List.length_singleton]

/-- The separator behind a directory stands in front of the last component. -/
theorem position_le (hk : k < (directories path).length) :
    leading path + (((components path).take (k + 1)).map List.length).sum + k
      + (baseName path).length < path.length := by
  have hlen := length_path path
  have htake : (components path).take (k + 1) = (directories path).take (k + 1) := by
    rw [← components_concat, List.take_append_of_le_length hk]
  have hsum : ((directories path).map List.length).sum
      = (((directories path).take (k + 1)).map List.length).sum
        + (((directories path).drop (k + 1)).map List.length).sum := by
    rw [← List.sum_append, ← List.map_append, List.take_append_drop]
  rw [length_components, ← components_concat, List.map_append, List.sum_append, List.map_singleton,
    List.sum_singleton] at hlen
  rw [htake]
  omega

/-- The last separator stands right in front of the last component. -/
theorem position_last (hk : k + 1 = (directories path).length) :
    leading path + (((components path).take (k + 1)).map List.length).sum + k
      + (baseName path).length + 1 = path.length := by
  have hlen := length_path path
  have htake : (components path).take (k + 1) = directories path := by
    rw [← components_concat, List.take_append_of_le_length hk.le, hk, List.take_length]
  rw [length_components, ← components_concat, List.map_append, List.sum_append, List.map_singleton,
    List.sum_singleton] at hlen
  rw [htake]
  omega

end Positions

/-! ## The directories that exist -/

section Existing

variable {g : Geometry} {img : Image} {es : List Entry} {path : List UInt8}
  {names : List (List UInt8)} {d : Entry} {k : Nat}

theorem existing_le (d : Entry) (names : List (List UInt8)) : existing es d names ≤ names.length := by
  induction names generalizing d with
  | nil => exact le_refl _
  | cons c names ih =>
      cases hc : child es DIRECTORY_TYPE d c with
      | none =>
          rw [existing_missing hc]
          exact Nat.zero_le _
      | some found =>
          obtain ⟨i, d'⟩ := found
          rw [existing_cons hc]
          exact Nat.succ_le_succ (ih d')

/-- The walk gets as far as the directories exist. -/
theorem descend_take (hk : k ≤ existing es d names) : ∃ d', descend es d (names.take k) = some d' := by
  induction names generalizing d k with
  | nil => exact ⟨d, by rw [List.take_nil]; rfl⟩
  | cons c names ih =>
      cases k with
      | zero => exact ⟨d, rfl⟩
      | succ k =>
          rw [List.take_succ_cons, descend_cons]
          cases hc : child es DIRECTORY_TYPE d c with
          | none =>
              rw [existing_missing hc] at hk
              cases hk
          | some found =>
              obtain ⟨i, d'⟩ := found
              rw [existing_cons hc] at hk
              exact ih (Nat.le_of_succ_le_succ hk)

theorem descend_eq_none : descend es d names = none ↔ existing es d names < names.length := by
  induction names generalizing d with
  | nil => exact iff_of_false (by rw [descend_nil]; simp) (lt_irrefl _)
  | cons c names ih =>
      rw [descend_cons]
      cases hc : child es DIRECTORY_TYPE d c with
      | none =>
          rw [existing_missing hc]
          exact iff_of_true rfl (Nat.succ_pos _)
      | some found =>
          obtain ⟨i, d'⟩ := found
          rw [existing_cons hc, List.length_cons, Nat.succ_lt_succ_iff]
          exact ih

/-- A directory is missing when the walk does not get to the last component. -/
theorem parentOf_eq_none : parentOf es path = none ↔ found es path < (directories path).length :=
  descend_eq_none

/-- The components the walk comes to fit. -/
theorem fits_of_not_meetsLong (hshort : ¬ MeetsLong es rootParent (components path)) {c : List UInt8}
    (hk : k ≤ found es path) (hc : (components path)[k]? = some c) : c.length ≤ 217 := by
  obtain ⟨d, hd⟩ := descend_take hk
  have htake : (components path).take k = (directories path).take k := by
    have hle : found es path ≤ (directories path).length := existing_le _ _
    rw [← components_concat, List.take_append_of_le_length (hk.trans hle)]
  by_contra hlong
  refine hshort ⟨k, c, d, hc, by rw [htake]; exact hd, ?_⟩
  simp only [FILENAME_LEN]
  omega

/-- With room for all of them, a missing directory leaves the buffers exactly if the last separator
is out of reach or a component behind one of them does not fit. -/
theorem escapes_iff (hroom : es.length + (directories path).length < g.entries + found es path)
    (hmissing : found es path < (directories path).length) :
    Escapes g es.length (leading path) (components path) (found es path) ↔
      ¬ (path.length ≤ NEWDIRNAME_LEN + (baseName path).length ∧
        ∀ k c, found es path < k → (components path)[k]? = some c → c.length ≤ 217) := by
  have hlen := length_components path
  constructor
  · rintro ⟨k, hj, hk, -, hleaves⟩ ⟨hreach, hfits⟩
    have hpos := @position_le path k (by omega)
    rcases hleaves with hfar | ⟨c, hc, hlong⟩
    · omega
    · have hle := hfits (k + 1) c (by omega) hc
      simp only [FILENAME_LEN] at hlong
      omega
  · intro hno
    by_contra hstays
    apply hno
    constructor
    · -- the separator behind the last directory
      have hpos := @position_last path ((directories path).length - 1) (by omega)
      by_contra hfar
      refine hstays ⟨(directories path).length - 1, by omega, by omega, by omega, Or.inl ?_⟩
      omega
    · intro k c hk hc
      have hlt := (List.getElem?_eq_some_iff.mp hc).1
      obtain ⟨k, rfl⟩ : ∃ j, k = j + 1 := ⟨k - 1, by omega⟩
      by_contra hlong
      refine hstays ⟨k, by omega, hlt, by omega, Or.inr ⟨c, hc, ?_⟩⟩
      simp only [FILENAME_LEN]
      omega

end Existing

/-! ## Nested directories -/

section Nesting

variable {g : Geometry} {img img' : Image} {es ds : List Entry} {names : List (List UInt8)}
  {p : Entry}

theorem Nested.length_eq (h : Nested p names ds) : ds.length = names.length := by
  induction names generalizing p ds with
  | nil =>
      cases ds with
      | nil => rfl
      | cons e ds => exact h.elim
  | cons name names ih =>
      cases ds with
      | nil => exact h.elim
      | cons e ds => rw [List.length_cons, List.length_cons, ih h.2.2.2]

theorem Nested.type_eq (h : Nested p names ds) {e : Entry} (he : e ∈ ds) :
    e.type = DIRECTORY_TYPE := by
  induction names generalizing p ds with
  | nil =>
      cases ds with
      | nil => cases he
      | cons f ds => exact h.elim
  | cons name names ih =>
      cases ds with
      | nil => cases he
      | cons f ds =>
          obtain ⟨htype, -, -, hrest⟩ := h
          rcases List.mem_cons.mp he with rfl | he
          · exact htype
          · exact ih hrest he

/-- The walk through nested directories of a table ends in the last of them. -/
theorem Nested.descend_eq (h : Nested p names ds) (htree : Tree es) (hmem : ∀ e ∈ ds, e ∈ es) :
    descend es p names = some (ds.getLast?.getD p) := by
  induction names generalizing p ds with
  | nil =>
      cases ds with
      | nil => rfl
      | cons e ds => exact h.elim
  | cons name names ih =>
      cases ds with
      | nil => exact h.elim
      | cons e ds =>
          obtain ⟨htype, hname, hparent, hrest⟩ := h
          obtain ⟨i, hi⟩ := List.mem_iff_getElem?.mp (hmem e List.mem_cons_self)
          have hself := htree.lookup_self hi
          rw [hname, hparent, htype] at hself
          rw [descend_cons, child_eq_some.mpr ⟨hself, hi⟩, List.getLast?_cons]
          exact ih hrest fun f hf => hmem f (List.mem_cons_of_mem _ hf)

/-- There is no file in a directory that was added with directories only. -/
theorem Volume.child_added (h : Volume g img es) (h' : Volume g img' (es ++ ds))
    (htypes : ∀ e ∈ ds, e.type = DIRECTORY_TYPE) {q : Entry} (hq : q ∈ ds) (name : List UInt8) :
    child (es ++ ds) FILE_TYPE q name = none := by
  rw [child_eq_none]
  cases hl : lookup (es ++ ds) name q.payload FILE_TYPE with
  | none => rfl
  | some i =>
      obtain ⟨f, hf, hparent, htype, -⟩ := lookup_some hl
      have hidq : q.payload ∈ dirIds ds := mem_dirIds hq (htypes q hq)
      rcases List.mem_append.mp (List.mem_of_getElem? hf) with hmem | hmem
      · obtain ⟨j, hj⟩ := List.mem_iff_getElem?.mp hmem
        rcases h.tree.parents j f hj with hroot | ⟨k, d, -, hk, hdir, hid⟩
        · -- the root has an id of its own
          rw [hparent] at hroot
          have hin : q.payload ∈ dirIds (es ++ ds) :=
            mem_dirIds (List.mem_append_right _ hq) (htypes q hq)
          exact absurd hroot (h'.tree.id_ne h'.entries_bound hin).2.1
        · -- no other directory has the id of a new one
          have hnodup := h'.tree.ids_nodup h'.entries_bound
          rw [dirIds_append] at hnodup
          have hidd : d.payload ∈ dirIds es := mem_dirIds (List.mem_of_getElem? hk) hdir
          rw [hid, hparent] at hidd
          exact absurd rfl ((List.nodup_append.mp hnodup).2.2 _ hidd _ hidq)
      · rw [htypes f hmem] at htype
        exact absurd htype (by decide)

end Nesting

/-! ## The file behind the directories -/

section File

variable {g : Geometry} {img : Image} {es : List Entry} {path source block_buf : List UInt8}
  {host : List UInt8 → HostFile} {clock : Nat → UInt64} {argv3 : List UInt8}
  {rest : List (List UInt8)}

/-- `import_cmd` when no directory is missing. -/
theorem importCmd_direct (hreg : (host argv3).regular = true) {r : PathResult}
    (hres : pathResolver g img path FILE_TYPE = .ok r) (hfail : r.failure = false) :
    importCmd g host clock block_buf (argv3 :: path :: rest) img =
      importFile g (host argv3).contents (clock path.length) block_buf path img := by
  rw [importCmd, if_neg (by simp [hreg]), hres]
  simp only [hfail, Bool.false_eq_true, if_false]

/-- `import_cmd` when a directory is missing. -/
theorem importCmd_lost (hreg : (host argv3).regular = true)
    (hres : pathResolver g img path FILE_TYPE = .ok PathResult.lost) {img' : Image} :
    (∀ e, makeDirs g clock path path [] img = (.error e, img') →
      importCmd g host clock block_buf (argv3 :: path :: rest) img = (.error e, img')) ∧
    (makeDirs g clock path path [] img = (.ok (), img') →
      importCmd g host clock block_buf (argv3 :: path :: rest) img =
        importFile g (host argv3).contents (clock path.length) block_buf path img') := by
  have hfail : PathResult.lost.failure = true := rfl
  have hirregular : ¬ (host argv3).regular = false := by simp [hreg]
  constructor
  · intro e hrun
    simp only [importCmd, if_neg hirregular, hres, if_pos hfail, hrun]
  · intro hrun
    simp only [importCmd, if_neg hirregular, hres, if_pos hfail, hrun]

theorem not_makes_error {e : Fault} {img' : Image} : ¬ Makes g es path source (.error e, img') := by
  rintro ⟨p, ds, f, hrun, -⟩
  cases hrun

namespace Volume

variable (h : Volume g img es) (h0 : 0 ∉ path) (hbuf : block_buf.length = g.bytesperblock)
  (henough : EnoughFree g img source.length)
include h h0 hbuf henough

/-- A file that was imported is the last entry of the table. -/
theorem importFile_last {now : UInt64} {img' : Image}
    (hrun : importFile g (some source) now block_buf path img = (.ok .imported, img')) :
    ∃ e, entriesOf g img' = es ++ [e] ∧ e.type = FILE_TYPE ∧ e.size.toNat = source.length ∧
      ∃ d n, walk es (relative path) [] rootParent = some (d, n) ∧ e.parent_id = d.payload ∧
        e.name.cstr = n := by
  rcases h.importFile_adds h0 hbuf hrun (fun _ contents hc => Option.some.inj hc ▸ henough) with
    ⟨hne, -⟩ | ⟨-, contents, e, c, hc, himp⟩
  · exact absurd rfl hne
  · obtain rfl := Option.some.inj hc
    obtain ⟨d, n, hw, -, hparent, hname⟩ := himp.walked
    exact ⟨e, himp.volume.table.listed.entries_eq, himp.type_eq, himp.size_eq, d, n, hw, hparent,
      hname⟩

/-- A new file in a directory that exists is imported. -/
theorem importFile_makes (now : UInt64) (hpath : path ≠ [SLASH]) (hslot : es.length < g.entries)
    (hfits : ∀ c ∈ components path, c.length ≤ 217) {d : Entry} (hd : parentOf es path = some d)
    (hnew : child es FILE_TYPE d (baseName path) = none) :
    ∃ img' e, importFile g (some source) now block_buf path img = (.ok .imported, img') ∧
      entriesOf g img' = es ++ [e] ∧ e.type = FILE_TYPE ∧ e.name.cstr = baseName path ∧
      e.parent_id = d.payload ∧ e.size.toNat = source.length := by
  have hg := h.formatted.sound
  have hlen := h.formatted.length_eq
  have hvol := h.copied (h.formatted.importRun_copied hbuf henough)
  have hw : walk es (relative path) [] rootParent = some (d, baseName path) := by
    rw [walk_path fun c hc => Nat.lt_succ_of_le (hfits c hc), hd]
    rfl
  have hres := pathResolver_missing hg hlen h.table.listed (fun hr => hpath hr.1) hw
    (child_eq_none.mp hnew) hslot
  obtain ⟨img', hrun⟩ : ∃ img', importFile g (some source) now block_buf path img
      = (.ok .imported, img') := by
    simp only [importFile, hres, PathResult.missing, PathResult.init, Bool.true_eq_false, if_false,
      importChain, findEmpty_table hg hvol.formatted.length_eq hvol.table, if_pos hslot,
      wrEntry_lt hg hslot]
    exact ⟨_, rfl⟩
  obtain ⟨e, htable, htype, hsize, d', n, hw', hparent, hname⟩ :=
    h.importFile_last h0 hbuf henough hrun
  obtain ⟨rfl, rfl⟩ := Prod.mk.inj (Option.some.inj (hw.symm.trans hw'))
  exact ⟨img', e, hrun, htable, htype, hname, hparent, hsize⟩

end Volume

end File

/-! ## `import` -/

section Import

variable {g : Geometry} {img : Image} {es : List Entry} {path source block_buf : List UInt8}
  {host : List UInt8 → HostFile} {clock : Nat → UInt64} {argv3 : List UInt8}
  {rest : List (List UInt8)}

namespace Volume

variable (h : Volume g img es) (h0 : 0 ∉ path) (hbuf : block_buf.length = g.bytesperblock)
  (hreg : (host argv3).regular = true) (hcont : (host argv3).contents = some source)
  (hroom : Room g img es path source) (hpath : path ≠ [SLASH])
include h h0 hbuf hreg hcont hroom hpath

/-- A destination whose directories all exist. -/
theorem importCmd_makes_direct {d : Entry} (hd : parentOf es path = some d) :
    Makes g es path source (importCmd g host clock block_buf (argv3 :: path :: rest) img) ↔
      Importable es path := by
  have hroot : ¬ RootPath path FILE_TYPE := fun hr => hpath hr.1
  have hall : found es path = (directories path).length := by
    have hle : found es path ≤ (directories path).length := existing_le _ _
    have hno : ¬ found es path < (directories path).length := by
      rw [← parentOf_eq_none, hd]
      simp
    exact le_antisymm hle (not_lt.mp hno)
  have hslot : es.length < g.entries := by
    have hentries := hroom.entries
    omega
  have hlong := not_meetsLong_of_parentOf hd
  by_cases hfits : ∀ c ∈ components path, c.length ≤ 217
  · have hparent : descend es rootParent (components path).dropLast = some d := hd
    cases hc : child es FILE_TYPE d (baseName path) with
    | some file =>
        -- the destination exists
        obtain ⟨i, e⟩ := file
        have hlast : child es FILE_TYPE d ((components path).getLast?.getD []) = some (i, e) := hc
        have hres : pathResolver g img path FILE_TYPE
            = .ok (PathResult.found d (baseName path) i e) := by
          rw [h.pathResolver_eq_names hroot,
            resolveNames_short (hlong.mpr hfits) (components_ne_nil path)]
          simp only [hparent, hlast]
          rfl
        refine iff_of_false ?_ fun himp => ?_
        · have hexists : (PathResult.found d (baseName path) i e).not_found = false := rfl
          rw [importCmd_direct hreg hres rfl]
          simp only [importFile, hres, if_pos hexists]
          rintro ⟨p, ds, f, hrun, -⟩
          cases hrun
        · rw [himp.new d hd] at hc
          cases hc
    | none =>
        have hlast : child es FILE_TYPE d ((components path).getLast?.getD []) = none := hc
        have hres : pathResolver g img path FILE_TYPE
            = .ok (PathResult.missing d (baseName path)) := by
          rw [h.pathResolver_eq_names hroot, if_pos hslot,
            resolveNames_short (hlong.mpr hfits) (components_ne_nil path)]
          simp only [hparent, hlast]
          rfl
        refine iff_of_true ?_ ⟨hfits, fun d' hd' => ?_, fun hno => ?_, fun hno => ?_⟩
        · obtain ⟨img', e, hrun, htable, htype, hname, hid, hsize⟩ :=
            h.importFile_makes h0 hbuf hroom.blocks (clock path.length) hpath hslot hfits hd hc
          rw [importCmd_direct hreg hres rfl, hcont, hrun]
          refine ⟨d, [], e, rfl, ?_, ?_, ?_, htype, hname, hid, hsize⟩
          · rw [htable, List.append_nil]
          · rw [hall, List.take_length]
            exact hd
          · rw [hall, List.drop_length]
            trivial
        · obtain rfl := Option.some.inj (hd.symm.trans hd')
          exact hc
        · rw [hd] at hno
          cases hno
        · rw [hd] at hno
          cases hno
  · have hover : pathResolver g img path FILE_TYPE = .error .overrun := by
      rw [h.pathResolver_eq_names hroot, if_pos hslot]
      exact (resolveNames_overrun_iff (by simp) (components_ne_nil path)).mpr
        (not_not.mp fun hshort => hfits (hlong.mp hshort))
    refine iff_of_false ?_ fun himp => hfits himp.fits
    rw [importCmd, if_neg (by simp [hreg]), hover]
    exact not_makes_error

section Missing

variable (hmissing : parentOf es path = none) (hslot : es.length < g.entries)
  (hlost : resolveNames es (.ok ()) FILE_TYPE (components path) rootParent = .ok PathResult.lost)
include hmissing hslot hlost

omit hroom in
/-- With a directory for the leading separator alone the table does not hold what it should. -/
theorem importCmd_strays (henough : EnoughFree g img source.length)
    (hne : ∀ c ∈ components path, c ≠ []) (hstrays : Strays es path) :
    ¬ Makes g es path source (importCmd g host clock block_buf (argv3 :: path :: rest) img) := by
  have hroot : ¬ RootPath path FILE_TYPE := fun hr => hpath hr.1
  have hres : pathResolver g img path FILE_TYPE = .ok PathResult.lost := by
    rw [h.pathResolver_eq_names hroot, if_pos hslot, hlost]
  obtain ⟨img', e, -, hsame, hname, -, hfull, hgoes⟩ :=
    h.makeDirs_strays clock h0 hpath hslot hlost hstrays
  by_cases hmore : es.length + 1 < g.entries
  · have hends := hgoes hmore
    generalize hrun : makeDirs g clock path path [] img = run at hends
    cases hends with
    | overrun hescapes =>
        rw [(importCmd_lost hreg hres).1 _ hrun]
        exact not_makes_error
    | full hstays hfull =>
        rw [(importCmd_lost hreg hres).1 _ hrun]
        exact not_makes_error
    | @made img₂ ds p hstays hless hvol hsame' hp hnested =>
        rw [(importCmd_lost hreg hres).2 hrun, hcont]
        rintro ⟨p', ds', f', hok, htable, -, hnested', -⟩
        have henough' : EnoughFree g img₂ source.length := by
          rw [EnoughFree, hsame'.freeBlocks_eq, hsame.freeBlocks_eq]
          exact henough
        obtain ⟨f, hlast, -⟩ := hvol.importFile_last h0 hbuf henough' (Prod.ext hok rfl)
        -- the first new entry is the directory with the empty name
        have heq : e :: (ds ++ [f]) = ds' ++ [f'] := by
          have hboth := hlast.symm.trans htable
          rw [List.append_assoc, List.append_assoc, List.append_assoc] at hboth
          exact List.append_cancel_left hboth
        have hlen := hnested'.length_eq
        have hlt := parentOf_eq_none.mp hmissing
        rw [List.length_drop] at hlen
        rw [List.drop_eq_getElem_cons hlt] at hnested'
        cases ds' with
        | nil =>
            rw [List.length_nil] at hlen
            omega
        | cons x ds' =>
            obtain ⟨rfl, -⟩ := List.cons.inj heq
            obtain ⟨-, hx, -⟩ := hnested'
            refine hne _ (List.dropLast_subset _ (List.getElem_mem hlt)) ?_
            rw [← hname, hx]
  · rw [(importCmd_lost hreg hres).1 _ (hfull (not_lt.mp hmore))]
    exact not_makes_error

/-- Without one, the loop makes the missing directories if they stay in the buffers. -/
theorem importCmd_makes_missing (hshort : ¬ MeetsLong es rootParent (components path))
    (hstrays : ¬ Strays es path) :
    Makes g es path source (importCmd g host clock block_buf (argv3 :: path :: rest) img) ↔
      Importable es path := by
  have hroot : ¬ RootPath path FILE_TYPE := fun hr => hpath hr.1
  have hres : pathResolver g img path FILE_TYPE = .ok PathResult.lost := by
    rw [h.pathResolver_eq_names hroot, if_pos hslot, hlost]
  have hlt := parentOf_eq_none.mp hmissing
  have hentries := hroom.entries
  have hescapes := escapes_iff hentries hlt
  have hends := h.makeDirs_start clock h0 hpath hslot hlost hstrays
  generalize hrun : makeDirs g clock path path [] img = run at hends
  cases hends with
  | overrun hleaves =>
      rw [(importCmd_lost hreg hres).1 _ hrun]
      refine iff_of_false not_makes_error fun himp => hescapes.mp hleaves ⟨himp.reach hmissing, ?_⟩
      exact fun k c _ hc => himp.fits c (List.mem_of_getElem? hc)
  | full hstays hfull =>
      -- there is room for all directories
      have hcount : existing es rootParent (components path).dropLast = found es path := rfl
      rw [hcount, length_components] at hfull
      omega
  | @made img₁ ds p hstays hless hvol hsame hp hnested =>
      obtain ⟨hreach, hbehind⟩ := not_not.mp fun hno => hstays (hescapes.mpr hno)
      have hfits : ∀ c ∈ components path, c.length ≤ 217 := by
        intro c hc
        obtain ⟨k, hk⟩ := List.mem_iff_getElem?.mp hc
        by_cases hle : k ≤ found es path
        · exact fits_of_not_meetsLong hshort hle hk
        · exact hbehind k c (not_le.mp hle) hk
      have hlen := hnested.length_eq
      have hcount : ds.length = (directories path).length - found es path := by
        rw [hlen]
        exact List.length_drop
      have hdsne : ds ≠ [] := by
        rintro rfl
        rw [List.length_nil] at hcount
        omega
      have hp' : descend es rootParent ((directories path).take (found es path)) = some p := hp
      -- the walk goes on through the new directories
      have hdir := calc
        parentOf (es ++ ds) path
            = descend (es ++ ds) rootParent ((directories path).take (found es path)
                ++ (directories path).drop (found es path)) := by
              rw [List.take_append_drop]
              rfl
        _ = descend (es ++ ds) p ((directories path).drop (found es path)) := by
              rw [descend_append, descend_kept hp', Option.bind_some]
        _ = some (ds.getLast?.getD p) :=
              hnested.descend_eq hvol.tree fun e he => List.mem_append_right _ he
      have hlast : ds.getLast?.getD p ∈ ds := by
        rw [List.getLast?_eq_some_getLast hdsne]
        exact List.getLast_mem hdsne
      have hnew := h.child_added hvol (fun e he => hnested.type_eq he) hlast (baseName path)
      have henough : EnoughFree g img₁ source.length := by
        rw [EnoughFree, hsame.freeBlocks_eq]
        exact hroom.blocks
      have hfree : (es ++ ds).length < g.entries := by
        rw [List.length_append]
        omega
      obtain ⟨img', e, hfile, htable, htype, hname, hid, hsize⟩ :=
        hvol.importFile_makes h0 hbuf henough (clock path.length) hpath hfree hfits hdir hnew
      rw [(importCmd_lost hreg hres).2 hrun, hcont, hfile]
      refine iff_of_true ⟨p, ds, e, rfl, htable, hp, hnested, htype, hname, hid, hsize⟩ ?_
      refine ⟨hfits, fun d hd => ?_, fun _ => hreach, fun _ => hstrays⟩
      rw [hmissing] at hd
      cases hd

end Missing

/-- **`import_cmd`** on a volume with enough room. -/
theorem importCmd_destination (hne : ∀ c ∈ components path, c ≠ []) :
    Makes g es path source (importCmd g host clock block_buf (argv3 :: path :: rest) img) ↔
      Importable es path := by
  -- the directories of the destination are there, or some are to be made
  cases hparent : parentOf es path with
  | some d => exact h.importCmd_makes_direct h0 hbuf hreg hcont hroom hpath hparent
  | none =>
      have hlt := parentOf_eq_none.mp hparent
      have hslot : es.length < g.entries := by
        have hentries := hroom.entries
        omega
      by_cases hlong : MeetsLong es rootParent (components path)
      · have hover : pathResolver g img path FILE_TYPE = .error .overrun := by
          rw [h.pathResolver_eq_names fun hr => hpath hr.1, if_pos hslot]
          exact (resolveNames_overrun_iff (by simp) (components_ne_nil path)).mpr hlong
        refine iff_of_false ?_ fun himp => ?_
        · rw [importCmd, if_neg (by simp [hreg]), hover]
          exact not_makes_error
        · obtain ⟨k, c, d, hc, -, hle⟩ := hlong
          have hfits := himp.fits c (List.mem_of_getElem? hc)
          simp only [FILENAME_LEN] at hle
          omega
      · have hd : descend es rootParent (components path).dropLast = none := hparent
        have hlost : resolveNames es (.ok ()) FILE_TYPE (components path) rootParent
            = .ok PathResult.lost := by
          rw [resolveNames_short hlong (components_ne_nil path)]
          simp only [hd]
          rfl
        by_cases hstrays : Strays es path
        · exact iff_of_false (h.importCmd_strays h0 hbuf hreg hcont hpath hparent hslot hlost
            hroom.blocks hne hstrays) fun himp => himp.relative hparent hstrays
        · exact h.importCmd_makes_missing h0 hbuf hreg hcont hroom hpath hparent hslot hlost hlong
            hstrays

end Volume

end Import

/-- **`import_cmd` makes its destination.** On every volume made by `format`, `mkdir` and `import`,
with room for the missing directories and the file, a destination without empty components is made
exactly if the components fit, it is new and, when a directory is missing, its last separator is in
reach and no directory is made for a leading one. -/
theorem importCmd_makes_iff {g : Geometry} {img₀ img : Image} (hfresh : Fresh g img₀)
    (hrun : Run img₀ img) {host : List UInt8 → HostFile} (clock : Nat → UInt64)
    {block_buf source : List UInt8} (hbuf : block_buf.length = g.bytesperblock)
    (argv3 argv4 : CString) (rest : List (List UInt8)) (hreg : (host argv3.val).regular = true)
    (hsource : (host argv3.val).contents = some source)
    (hroom : Room g img (entriesOf g img) argv4.val source)
    (hne : ∀ c ∈ components argv4.val, c ≠ []) :
    Makes g (entriesOf g img) argv4.val source
        (importCmd g host clock block_buf (argv3.val :: argv4.val :: rest) img) ↔
      Importable (entriesOf g img) argv4.val := by
  obtain ⟨es, hvol⟩ := hfresh.volume.run hrun
  rw [hvol.table.listed.entries_eq] at hroom ⊢
  refine hvol.importCmd_destination argv4.property hbuf hreg hsource hroom ?_ hne
  intro hpath
  rw [hpath] at hne
  exact hne [] List.mem_cons_self rfl

/-- Every source is a regular file of three bytes. -/
def threeBytes : List UInt8 → HostFile := fun _ => { regular := true, contents := some [1, 2, 3] }

theorem smallVolume_room {path : List UInt8} (hdirs : (directories path).length = 1) :
    Room (volumeOf 20 512) smallVolume [] path [1, 2, 3] := by
  refine ⟨?_, smallVolume_enough (by decide)⟩
  have hentries : (volumeOf 20 512).entries = 2 := by decide
  rw [hdirs, hentries, List.length_nil]
  omega

/-- `import s d/f` on the small volume. -/
theorem importCmd_makes_small :
    Makes (volumeOf 20 512) (entriesOf (volumeOf 20 512) smallVolume) [100, 47, 102] [1, 2, 3]
        (importCmd (volumeOf 20 512) threeBytes (fun _ => 0) (List.replicate 512 0)
          [[115], [100, 47, 102]] smallVolume) ↔
      Importable (entriesOf (volumeOf 20 512) smallVolume) [100, 47, 102] := by
  apply importCmd_makes_iff smallVolume_fresh ReflTransGen.refl (fun _ => 0) List.length_replicate
    ⟨[115], by decide⟩ ⟨[100, 47, 102], by decide⟩ [] rfl rfl
  · rw [smallVolume_fresh.volume.table.listed.entries_eq]
    exact smallVolume_room rfl
  · decide

/-- On the small volume there is room for `import s /a/f`, but a directory with an empty name is
made. -/
theorem importCmd_makes_unnamed :
    (∀ c ∈ components [47, 97, 47, 102], c ≠ []) ∧
    Room (volumeOf 20 512) smallVolume (entriesOf (volumeOf 20 512) smallVolume) [47, 97, 47, 102]
      [1, 2, 3] ∧
    ¬ Makes (volumeOf 20 512) (entriesOf (volumeOf 20 512) smallVolume) [47, 97, 47, 102] [1, 2, 3]
      (importCmd (volumeOf 20 512) threeBytes (fun _ => 0) (List.replicate 512 0)
        [[115], [47, 97, 47, 102]] smallVolume) := by
  have hvol := smallVolume_fresh.volume
  have hne : ∀ c ∈ components [47, 97, 47, 102], c ≠ [] := by decide
  have hroom := @smallVolume_room [47, 97, 47, 102] rfl
  rw [hvol.table.listed.entries_eq]
  refine ⟨hne, hroom, ?_⟩
  have hbuf : (List.replicate 512 (0 : UInt8)).length = (volumeOf 20 512).bytesperblock :=
    List.length_replicate
  intro hmakes
  have himp := (hvol.importCmd_destination (by decide) hbuf rfl rfl hroom (by decide) hne).mp hmakes
  exact himp.relative rfl ⟨rfl, by decide, rfl⟩

end Windozz.Echfs

import Windozz.Echfs.Volume

set_option autoImplicit false

/-! # The directory table as it is found

Any directory table at all is `Listed`: the entries `echfs-utils` looks at are those in front of
the first one with parent 0, or all of them (`entriesOf`). They may be deleted, repeat ids and
names and stand in any order.

`search` is the first match unless it runs off a full table (`search_meets_iff`), `path_resolver`
follows the components of its path (`pathResolver_follows`), and `get_free_id` counts past the ids
it meets in ascending order, so that its result is new only under a condition on that order
(`getFreeId_fresh_iff`).
-/

namespace Windozz.Echfs

open Relation

/-! ## The entries in front of the end -/

/-- The number of the end-of-directory entry; the number of entries of a table that has none. -/
def endOf (g : Geometry) (img : Image) : Nat :=
  (List.range g.entries).findIdx fun i => (Entry.decode img.byte (g.entryLoc i)).parent_id = 0

/-- The entries in front of the end of the directory. -/
def entriesOf (g : Geometry) (img : Image) : List Entry :=
  (List.range (endOf g img)).map fun i => Entry.decode img.byte (g.entryLoc i)

/-- The table has an end-of-directory entry. -/
def Terminated (g : Geometry) (img : Image) : Prop :=
  ∃ i, i < g.entries ∧ (Entry.decode img.byte (g.entryLoc i)).parent_id = 0

section Entries

variable {g : Geometry} {img : Image} {es : List Entry}

theorem entriesOf_length : (entriesOf g img).length = endOf g img := by simp [entriesOf]

theorem endOf_le : endOf g img ≤ g.entries :=
  le_trans List.findIdx_le_length (by rw [List.length_range])

/-- Every table is a list of used entries up to its end. -/
theorem entriesOf_listed (g : Geometry) (img : Image) : Listed g img (entriesOf g img) := by
  refine ⟨entriesOf_length ▸ endOf_le, ?_, ?_, ?_⟩
  · intro i e he
    obtain ⟨hlt, hei⟩ := List.getElem?_eq_some_iff.mp he
    simpa [entriesOf] using hei
  · intro e he
    obtain ⟨i, hi, rfl⟩ := List.mem_map.mp he
    have hbefore := List.not_of_lt_findIdx (List.mem_range.mp hi)
    simpa using hbefore
  · rw [entriesOf_length]
    intro hlt
    have hfound : (List.range g.entries)[endOf g img]? = some (endOf g img) :=
      List.getElem?_range hlt
    unfold endOf at hfound
    have hend := List.findIdx_of_getElem?_eq_some hfound
    exact of_decide_eq_true hend

/-- No other list describes the table. -/
theorem Listed.entries_eq (h : Listed g img es) : entriesOf g img = es := by
  have hall := entriesOf_listed g img
  -- of two such lists neither ends before the other
  have hle : ∀ {l l' : List Entry}, Listed g img l → Listed g img l' → l'.length ≤ l.length := by
    intro l l' hl hl'
    by_contra hlt
    have hget : l'[l.length]? = some l'[l.length] := List.getElem?_eq_getElem (by omega)
    have hzero := hl.stop (by have := hl'.fits; omega)
    rw [hl'.stored _ _ hget] at hzero
    exact hl'.used _ (List.getElem_mem _) hzero
  apply List.ext_getElem (le_antisymm (hle h hall) (hle hall h))
  intro i hi hi'
  rw [← hall.stored i _ (List.getElem?_eq_getElem hi), ← h.stored i _ (List.getElem?_eq_getElem hi')]

theorem terminated_iff : Terminated g img ↔ (entriesOf g img).length < g.entries := by
  have h := entriesOf_listed g img
  constructor
  · rintro ⟨i, hi, hzero⟩
    by_contra hfull
    have hget : (entriesOf g img)[i]? = some (entriesOf g img)[i] :=
      List.getElem?_eq_getElem (by omega)
    rw [h.stored i _ hget] at hzero
    exact h.used _ (List.getElem_mem _) hzero
  · exact fun hlt => ⟨_, hlt, h.stop hlt⟩

end Entries

/-! ## `search` -/

/-- The entry has the name, the parent and the type. -/
def Matches (name : List UInt8) (parent : UInt64) (type : UInt8) (e : Entry) : Prop :=
  e.parent_id = parent ∧ e.type = type ∧ e.name.cstr = name

/-- `r` is the number of the first match, `none` if there is no match. -/
def FirstMatch (es : List Entry) (name : List UInt8) (parent : UInt64) (type : UInt8) :
    Option Nat → Prop
  | some i => (∃ e, es[i]? = some e ∧ Matches name parent type e) ∧
      ∀ j f, j < i → es[j]? = some f → ¬ Matches name parent type f
  | none => ∀ e ∈ es, ¬ Matches name parent type e

theorem lookup_firstMatch (es : List Entry) (name : List UInt8) (parent : UInt64) (type : UInt8) :
    FirstMatch es name parent type (lookup es name parent type) := by
  cases hl : lookup es name parent type with
  | none => exact fun e he => lookup_none hl he
  | some i =>
      refine ⟨lookup_some hl, fun j f hj hf hm => ?_⟩
      obtain ⟨_, _, hfirst⟩ := List.findIdx?_eq_some_iff_getElem.mp hl
      obtain ⟨hlt, rfl⟩ := List.getElem?_eq_some_iff.mp hf
      exact hfirst j hj (decide_eq_true hm)

/-- `search` returns the number of the first match in front of the end of the directory, and
`SEARCH_FAILURE` if there is none. -/
def SearchMeets (g : Geometry) (img : Image) (name : List UInt8) (parent : UInt64) (type : UInt8) :
    Prop :=
  ∃ r, search g img name parent type = .ok r ∧ FirstMatch (entriesOf g img) name parent type r

/-- **`search`** meets its comment unless it reads past a table that is full and has no match: the
bound of `rd_entry` is checked before the size of the table. -/
theorem search_meets_iff {g : Geometry} (hg : g.Sound) {img : Image} (hlen : img.length = g.imgsize)
    (name : List UInt8) (parent : UInt64) (type : UInt8) :
    SearchMeets g img name parent type ↔
      Terminated g img ∨ ∃ e ∈ entriesOf g img, Matches name parent type e := by
  have hsearch := search_listed hg hlen (entriesOf_listed g img) name parent type
  have hmeets := lookup_firstMatch (entriesOf g img) name parent type
  rw [terminated_iff]
  cases hl : lookup (entriesOf g img) name parent type with
  | some i =>
      simp only [hl] at hsearch hmeets
      obtain ⟨e, he, hm⟩ := hmeets.1
      constructor
      · exact fun _ => Or.inr ⟨e, List.mem_of_getElem? he, hm⟩
      · exact fun _ => ⟨some i, hsearch, hmeets⟩
  | none =>
      simp only [hl] at hsearch hmeets
      by_cases hend : (entriesOf g img).length < g.entries
      · rw [if_pos hend] at hsearch
        constructor
        · exact fun _ => Or.inl hend
        · exact fun _ => ⟨none, hsearch, hmeets⟩
      · rw [if_neg hend] at hsearch
        constructor
        · rintro ⟨r, hr, -⟩
          rw [hsearch] at hr
          cases hr
        · rintro (hlt | ⟨e, he, hm⟩)
          · exact absurd hlt hend
          · exact absurd hm (hmeets e he)

/-- A volume with the directory `a` and the file `f`, and two free slots. -/
theorem sampleRun_terminated : ∃ img₁ img₂ img₃ img₄, SampleRun img₁ img₂ img₃ img₄ ∧
    (volumeOf 40 512).Sound ∧ img₂.length = (volumeOf 40 512).imgsize ∧
    Terminated (volumeOf 40 512) img₂ := by
  obtain ⟨img₁, img₂, img₃, img₄, hsample, -, -, hstock⟩ := sampleRun
  obtain ⟨es, hvol, hkeys⟩ := hstock.volume
  have hlength := congrArg List.length hkeys
  rw [List.length_map] at hlength
  refine ⟨img₁, img₂, img₃, img₄, hsample, hvol.formatted.sound, hvol.formatted.length_eq, ?_⟩
  rw [terminated_iff, hvol.table.listed.entries_eq, hlength]
  decide

/-- A search for the file `f`. -/
theorem search_meets_sample : ∃ img₁ img₂ img₃ img₄, SampleRun img₁ img₂ img₃ img₄ ∧
    (SearchMeets (volumeOf 40 512) img₂ [102] ROOT_ID FILE_TYPE ↔
      Terminated (volumeOf 40 512) img₂ ∨
        ∃ e ∈ entriesOf (volumeOf 40 512) img₂, Matches [102] ROOT_ID FILE_TYPE e) := by
  obtain ⟨img₁, img₂, img₃, img₄, hsample, hg, hlen, -⟩ := sampleRun_terminated
  exact ⟨img₁, img₂, img₃, img₄, hsample, search_meets_iff hg hlen _ _ _⟩

/-- The directory of the small volume is full after `mkdir a` and `mkdir b`. -/
theorem smallVolume_full : ∃ img a b, Run smallVolume img ∧
    Volume (volumeOf 20 512) img [a, b] ∧ a.name.cstr = [97] ∧ b.name.cstr = [98] := by
  have hvol := smallVolume_fresh.volume
  have hwa : walk [] (relative [97]) [] rootParent = some (rootParent, [97]) := rfl
  have hruna := hvol.mkdirCmd_created 0 [] (by decide) (by decide) hwa rfl
  set a := directoryEntry rootParent.payload [97] (freeId []) 0
  obtain ⟨hvola, -⟩ := hvol.addEntry (e := a) (by decide) (by decide) hwa rfl rfl rfl fun _ => rfl
  have hwb : walk ([] ++ [a]) (relative [98]) [] rootParent = some (rootParent, [98]) := rfl
  have hnew : lookup ([] ++ [a]) [98] rootParent.payload DIRECTORY_TYPE = none := by decide
  have hrunb := hvola.mkdirCmd_created 0 [] (by decide) (by decide) hwb hnew
  set b := directoryEntry rootParent.payload [98] (freeId ([] ++ [a])) 0
  obtain ⟨hvolb, -⟩ := hvola.addEntry (e := b) (by decide) (by decide) hwb rfl rfl hnew fun _ => rfl
  refine ⟨_, a, b, ?_, hvolb, by decide, by decide⟩
  exact (ReflTransGen.single
    (Step.mkdirCmd 0 [⟨[97], by decide⟩] hvol.formatted.opened hruna)).tail
    (Step.mkdirCmd 0 [⟨[98], by decide⟩] hvola.formatted.opened hrunb)

/-- On the full directory a search for a third name aborts. -/
theorem search_aborts : ∃ img, Run smallVolume img ∧
    search (volumeOf 20 512) img [99] ROOT_ID FILE_TYPE = .error .readOutOfBounds ∧
    ¬ SearchMeets (volumeOf 20 512) img [99] ROOT_ID FILE_TYPE := by
  obtain ⟨img, a, b, hrun, hvol, ha, hb⟩ := smallVolume_full
  have hlookup : lookup [a, b] [99] ROOT_ID FILE_TYPE = none := by
    simp [lookup, List.findIdx?_cons, ha, hb]
  have hsearch := search_listed hvol.formatted.sound hvol.formatted.length_eq hvol.table.listed
    [99] ROOT_ID FILE_TYPE
  simp only [hlookup] at hsearch
  refine ⟨img, hrun, hsearch, ?_⟩
  rintro ⟨r, hr, -⟩
  rw [hsearch] at hr
  cases hr

/-! ## `path_resolver` -/

/-- The components of a path: at most one leading separator is dropped, and the path is split at
every other one. -/
def components (path : List UInt8) : List (List UInt8) := (relative path).splitOn SLASH

/-- The entry `name` of a type in a directory, with its number. -/
def child (es : List Entry) (type : UInt8) (parent : Entry) (name : List UInt8) :
    Option (Nat × Entry) :=
  (lookup es name parent.payload type).bind fun i => es[i]?.map (Prod.mk i)

/-- The directory reached from `parent` through the directories `names`. -/
def descend (es : List Entry) (parent : Entry) (names : List (List UInt8)) : Option Entry :=
  names.foldlM (fun d name => (child es DIRECTORY_TYPE d name).map Prod.snd) parent

/-- The directory the last component of a path is looked up in. -/
def parentOf (es : List Entry) (path : List UInt8) : Option Entry :=
  descend es rootParent (components path).dropLast

/-- The last component of a path. -/
def baseName (path : List UInt8) : List UInt8 := (components path).getLast?.getD []

/-- What the reference walk says about the result of `path_resolver` for a path other than the
separator alone. -/
structure Follows (es : List Entry) (path : List UInt8) (type : UInt8) (r : PathResult) : Prop where
  failure_iff : r.failure = true ↔ parentOf es path = none
  not_found_iff : r.not_found = true ↔
    ∃ d, parentOf es path = some d ∧ child es type d (baseName path) = none
  parent_eq : ∀ d, parentOf es path = some d → r.parent = d ∧ r.name = baseName path
  target_eq : ∀ d i e, parentOf es path = some d → child es type d (baseName path) = some (i, e) →
    r.target_entry = i ∧ r.target = e

section Components

variable {es : List Entry} {path name : List UInt8} {parent : Entry}

theorem child_eq_none {type : UInt8} {d : Entry} :
    child es type d name = none ↔ lookup es name d.payload type = none := by
  cases hl : lookup es name d.payload type with
  | none => simp [child, hl]
  | some i =>
      obtain ⟨e, he, -⟩ := lookup_some hl
      simp [child, hl, he]

theorem child_eq_some {type : UInt8} {d e : Entry} {i : Nat} :
    child es type d name = some (i, e) ↔
      lookup es name d.payload type = some i ∧ es[i]? = some e := by
  cases hl : lookup es name d.payload type with
  | none => simp [child, hl]
  | some j =>
      obtain ⟨f, hf, -⟩ := lookup_some hl
      simp only [child, hl, hf, Option.bind_some, Option.map_some, Option.some.injEq, Prod.mk.injEq]
      constructor
      · rintro ⟨rfl, rfl⟩
        exact ⟨rfl, hf⟩
      · rintro ⟨rfl, he⟩
        exact ⟨rfl, Option.some.inj (hf.symm.trans he)⟩

/-- The components of a path of which `name` has been read. -/
def splitFrom (name path : List UInt8) : List (List UInt8) :=
  (path.splitOn SLASH).modifyHead (name ++ ·)

theorem splitFrom_nil : splitFrom name [] = [name] := by simp [splitFrom]

theorem splitFrom_start : splitFrom [] path = path.splitOn SLASH := by
  rw [splitFrom]
  cases path.splitOn SLASH <;> rfl

theorem splitFrom_slash : splitFrom name (SLASH :: path) = name :: splitFrom [] path := by
  rw [splitFrom_start]
  simp [splitFrom, List.splitOn, List.splitOnP_cons_eq_if_modifyHead]

theorem splitFrom_cons {c : UInt8} (hc : c ≠ SLASH) :
    splitFrom name (c :: path) = splitFrom (name ++ [c]) path := by
  simp [splitFrom, List.splitOn, List.splitOnP_cons_eq_if_modifyHead, hc, Function.comp_def]

theorem splitFrom_ne_nil : splitFrom name path ≠ [] := by
  simp [splitFrom, List.splitOn, List.splitOnP_ne_nil]

/-- What has been read of a component is no longer than the component. -/
theorem splitFrom_head (name path : List UInt8) : ∃ c ∈ splitFrom name path, name.length ≤ c.length := by
  obtain ⟨n, ns, hns⟩ := List.exists_cons_of_ne_nil (List.splitOnP_ne_nil (· == SLASH) path)
  exact ⟨name ++ n, by simp [splitFrom, List.splitOn, hns], by simp⟩

/-- **The walk of `path_resolver`** is the walk through the components of its path. -/
theorem walk_splitFrom (hshort : ∀ c ∈ splitFrom name path, c.length < FILENAME_LEN) :
    walk es path name parent = (descend es parent (splitFrom name path).dropLast).map fun d =>
      (d, (splitFrom name path).getLast?.getD []) := by
  induction path generalizing name parent with
  | nil =>
      rw [splitFrom_nil] at hshort ⊢
      have hname := hshort name (by simp)
      rw [walk, if_neg (by omega)]
      rfl
  | cons c path ih =>
      rw [walk]
      -- a separator ends the component that has been read so far
      by_cases hc : c = SLASH
      · subst hc
        rw [splitFrom_slash] at hshort ⊢
        have hname := hshort name (by simp)
        have hrest := fun d => @ih [] d fun c hc => hshort c (List.mem_cons_of_mem _ hc)
        rw [if_neg (by omega), if_pos rfl, List.dropLast_cons_of_ne_nil splitFrom_ne_nil,
          List.getLast?_cons_of_ne_nil splitFrom_ne_nil]
        cases hl : lookup es name parent.payload DIRECTORY_TYPE with
        | none =>
            have hchild : child es DIRECTORY_TYPE parent name = none := child_eq_none.mpr hl
            simp [descend, hchild]
        | some i =>
            obtain ⟨d, hd, -⟩ := lookup_some hl
            have hchild : child es DIRECTORY_TYPE parent name = some (i, d) :=
              child_eq_some.mpr ⟨hl, hd⟩
            simp only [hd, hrest d]
            simp [descend, hchild]
      · rw [splitFrom_cons hc] at hshort ⊢
        obtain ⟨n, hn, hle⟩ := splitFrom_head (name ++ [c]) path
        have hlt := hshort n hn
        rw [List.length_append] at hle
        rw [if_neg (by omega), if_neg hc]
        exact ih hshort

/-- The walk along a path other than the root. -/
theorem walk_path (hshort : ∀ c ∈ components path, c.length < FILENAME_LEN) :
    walk es (relative path) [] rootParent = (parentOf es path).map fun d => (d, baseName path) := by
  have hcomp : splitFrom [] (relative path) = components path := splitFrom_start
  rw [walk_splitFrom (by rwa [hcomp]), hcomp]
  rfl

end Components

section Resolver

variable {g : Geometry} (hg : g.Sound) {img : Image} (hlen : img.length = g.imgsize)
  {es : List Entry} (h : Listed g img es) (hend : es.length < g.entries)
include hg hlen h hend

/-- A walk that ends in front of the last component makes `path_resolver` fail. -/
theorem resolveNext_lost {type : UInt8} {path name : List UInt8} {parent : Entry}
    (hshort : ∀ c ∈ splitFrom name path, c.length < FILENAME_LEN)
    (hw : walk es path name parent = none) :
    resolveNext g img type path name parent = .ok { PathResult.init with failure := true } := by
  obtain ⟨n, hn, hle⟩ := splitFrom_head name path
  have hname := hshort n hn
  induction path generalizing name parent n with
  | nil =>
      rw [walk, if_neg (by omega)] at hw
      cases hw
  | cons c path ih =>
      rw [walk, if_neg (by omega)] at hw
      rw [resolveNext, if_neg (by omega)]
      by_cases hc : c = SLASH
      · subst hc
        rw [if_pos rfl] at hw ⊢
        rw [splitFrom_slash] at hshort
        cases hl : lookup es name parent.payload DIRECTORY_TYPE with
        | none => simp only [search_missing hg hlen h hl hend]
        | some i =>
            obtain ⟨d, hd, -⟩ := lookup_some hl
            simp only [hl, hd] at hw
            simp only [search_found hg hlen h hl, rdEntry_listed hg hlen h hd]
            have hrest : ∀ c ∈ splitFrom [] path, c.length < FILENAME_LEN :=
              fun c hc => hshort c (List.mem_cons_of_mem _ hc)
            obtain ⟨m, hm, hle'⟩ := splitFrom_head [] path
            exact ih hrest hw m hm hle' (hrest m hm)
      · rw [if_neg hc] at hw ⊢
        rw [splitFrom_cons hc] at hshort
        obtain ⟨m, hm, hle'⟩ := splitFrom_head (name ++ [c]) path
        exact ih hshort hw m hm hle' (hshort m hm)

/-- `path_resolver` on a path other than the root. -/
theorem pathResolver_walks {type : UInt8} {path : List UInt8} (hroot : ¬ RootPath path type)
    (hshort : ∀ c ∈ components path, c.length < FILENAME_LEN) :
    ∃ r, pathResolver g img path type = .ok r ∧ Follows es path type r := by
  have hwalk := @walk_path es path hshort
  cases hd : parentOf es path with
  | none =>
      rw [hd] at hwalk
      have hsplit : ∀ c ∈ splitFrom [] (relative path), c.length < FILENAME_LEN := by
        rw [splitFrom_start]
        exact hshort
      refine ⟨_, (pathResolver_eq hroot).trans (resolveNext_lost hg hlen h hend hsplit hwalk), ?_⟩
      constructor <;> simp [hd, PathResult.init]
  | some d =>
      rw [hd] at hwalk
      have hw : walk es (relative path) [] rootParent = some (d, baseName path) := hwalk
      cases hc : child es type d (baseName path) with
      | none =>
          refine ⟨_, pathResolver_missing hg hlen h hroot hw (child_eq_none.mp hc) hend, ?_⟩
          refine ⟨by simp [hd, PathResult.missing, PathResult.init],
            by simp [hd, hc, PathResult.missing], by simp [hd, PathResult.missing], ?_⟩
          intro d' i e hd' hc'
          obtain rfl := Option.some.inj (hd.symm.trans hd')
          rw [hc] at hc'
          cases hc'
      | some ie =>
          obtain ⟨i, e⟩ := ie
          obtain ⟨hl, he⟩ := child_eq_some.mp hc
          refine ⟨_, pathResolver_found hg hlen h hroot hw hl he, ?_⟩
          refine ⟨by simp [hd, PathResult.found, PathResult.init],
            by simp [hd, hc, PathResult.found, PathResult.init], by simp [hd, PathResult.found], ?_⟩
          intro d' i' e' hd' hc'
          obtain rfl := Option.some.inj (hd.symm.trans hd')
          obtain ⟨rfl, rfl⟩ := Prod.mk.inj (Option.some.inj (hc.symm.trans hc'))
          exact ⟨rfl, rfl⟩

end Resolver

/-- The result of `path_resolver` is that of the reference walk. -/
def AgreesWithWalk (es : List Entry) (path : List UInt8) (type : UInt8) (r : PathResult) : Prop :=
  if path = [SLASH] ∧ type = DIRECTORY_TYPE then
    r.failure = false ∧ r.not_found = false ∧ r.target.payload = ROOT_ID
  else if path = [SLASH] ∧ type = FILE_TYPE then r.failure = true ∧ r.not_found = false
  else Follows es path type r

/-- **`path_resolver`** agrees with the reference walk on every table with an end and every path
with components of at most 217 characters. -/
theorem pathResolver_follows {g : Geometry} (hg : g.Sound) {img : Image}
    (hlen : img.length = g.imgsize) (hend : Terminated g img) {path : List UInt8} (type : UInt8)
    (hshort : ∀ c ∈ components path, c.length ≤ 217) :
    ∃ r, pathResolver g img path type = .ok r ∧ AgreesWithWalk (entriesOf g img) path type r := by
  by_cases hdir : path = [SLASH] ∧ type = DIRECTORY_TYPE
  · refine ⟨{ PathResult.init with target := rootParent }, ?_, ?_⟩
    · unfold pathResolver
      rw [if_pos hdir.symm]
    · rw [AgreesWithWalk, if_pos hdir]
      exact ⟨rfl, rfl, rfl⟩
  by_cases hfile : path = [SLASH] ∧ type = FILE_TYPE
  · refine ⟨{ PathResult.init with failure := true }, ?_, ?_⟩
    · unfold pathResolver
      rw [if_neg fun h => hdir h.symm, if_pos hfile.symm]
    · rw [AgreesWithWalk, if_neg hdir, if_pos hfile]
      exact ⟨rfl, rfl⟩
  have hroot : ¬ RootPath path type := fun h => h.2.elim (fun ht => hfile ⟨h.1, ht⟩)
    fun ht => hdir ⟨h.1, ht⟩
  obtain ⟨r, hr, hfollows⟩ := pathResolver_walks hg hlen (entriesOf_listed g img)
    (terminated_iff.mp hend) hroot fun c hc => Nat.lt_succ_of_le (hshort c hc)
  refine ⟨r, hr, ?_⟩
  rw [AgreesWithWalk, if_neg hdir, if_neg hfile]
  exact hfollows

/-- The path `/f` on a volume with the directory `a` and the file `f`. -/
theorem pathResolver_follows_sample : ∃ img₁ img₂ img₃ img₄, SampleRun img₁ img₂ img₃ img₄ ∧ ∃ r,
    pathResolver (volumeOf 40 512) img₂ [47, 102] FILE_TYPE = .ok r ∧
    AgreesWithWalk (entriesOf (volumeOf 40 512) img₂) [47, 102] FILE_TYPE r := by
  obtain ⟨img₁, img₂, img₃, img₄, hsample, hg, hlen, hend⟩ := sampleRun_terminated
  exact ⟨img₁, img₂, img₃, img₄, hsample,
    pathResolver_follows hg hlen hend FILE_TYPE (by decide)⟩

/-! ## `get_free_id` -/

/-- One pass over `ids` that starts at `k` and goes on to the next number whenever it meets the
current one. -/
def countPast (ids : List Nat) (k : Nat) : Nat :=
  ids.foldl (fun k x => if x = k then k + 1 else k) k

theorem le_countPast (ids : List Nat) (k : Nat) : k ≤ countPast ids k := by
  induction ids generalizing k with
  | nil => exact le_refl k
  | cons x ids ih =>
      rw [countPast, List.foldl_cons]
      by_cases hx : x = k
      · rw [if_pos hx]
        exact le_trans (Nat.le_succ k) (ih (k + 1))
      · rw [if_neg hx]
        exact ih k

/-- The pass gets past exactly the numbers that occur in ascending order. -/
theorem range'_sublist_iff (ids : List Nat) (k n : Nat) :
    (List.range' k n).Sublist ids ↔ k + n ≤ countPast ids k := by
  induction ids generalizing k n with
  | nil =>
      rw [List.sublist_nil, countPast, List.foldl_nil, List.range'_eq_nil_iff]
      omega
  | cons x ids ih =>
      cases n with
      | zero => simpa using le_countPast (x :: ids) k
      | succ n =>
          rw [List.range'_succ, countPast, List.foldl_cons]
          by_cases hx : x = k
          · subst hx
            rw [if_pos rfl, List.cons_sublist_cons, ih, countPast]
            omega
          · rw [if_neg hx, List.cons_sublist_cons', ← List.range'_succ, ih, countPast]
            simp [Ne.symm hx]

/-- The ids `1, ..., m` occur in this order. -/
def Ascending (ids : List UInt64) (m : Nat) : Prop :=
  (List.range' 1 m).Sublist (ids.map UInt64.toNat)

/-- The ids of the directories that are not deleted. -/
def liveDirIds (es : List Entry) : List UInt64 :=
  dirIds (es.filter fun e => decide (e.parent_id ≠ DELETED_ENTRY))

/-- `get_free_id` returns an id that is not 0 and not one of `ids`. -/
def FreeIdFresh (g : Geometry) (img : Image) (ids : List UInt64) : Prop :=
  ∃ id, getFreeId g img = .ok id ∧ id ≠ 0 ∧ id ∉ ids

/-- Without a wrap the pass of `get_free_id` counts as on numbers. -/
theorem foldl_countPast (ids : List UInt64) (id : UInt64) (hlt : id.toNat + ids.length < 2 ^ 64) :
    (ids.foldl (fun id x => if x = id then x + 1 else id) id).toNat
      = countPast (ids.map UInt64.toNat) id.toNat := by
  induction ids generalizing id with
  | nil => rfl
  | cons x ids ih =>
      rw [List.length_cons] at hlt
      rw [List.foldl_cons, List.map_cons, countPast, List.foldl_cons]
      by_cases hx : x = id
      · subst hx
        have hsucc : (x + 1).toNat = x.toNat + 1 := by
          rw [UInt64.toNat_add]
          exact Nat.mod_eq_of_lt (by simp only [UInt64.toNat_one]; omega)
        rw [if_pos rfl, if_pos rfl, ih (x + 1) (by omega), hsucc, countPast]
      · have hx' : ¬ x.toNat = id.toNat := fun h => hx (UInt64.toNat_inj.mp h)
        rw [if_neg hx, if_neg hx', ih id (by omega), countPast]

/-- Whether the result of `get_free_id` is new to `ids` depends on the order of the ids alone. -/
theorem freeIdFresh_iff {g : Geometry} (hg : g.Sound) {img : Image} (hlen : img.length = g.imgsize)
    (hend : Terminated g img) (ids : List UInt64) :
    FreeIdFresh g img ids ↔ ∀ m, Ascending (dirIds (entriesOf g img)) m →
      m + 1 ∈ ids.map UInt64.toNat → Ascending (dirIds (entriesOf g img)) (m + 1) := by
  set es := entriesOf g img with hes
  have hlisted : Listed g img es := entriesOf_listed g img
  have hle := (Tree.dirIds_length_le es).trans hlisted.fits
  have hlt := entries_lt hg
  have hrun : getFreeId g img = .ok (freeId es) := by
    rw [getFreeId_listed hg hlen hlisted, if_pos (terminated_iff.mp hend)]
  -- `get_free_id` counts past the ids that it meets in ascending order from 1 on
  set k := countPast ((dirIds es).map UInt64.toNat) 1 with hk
  have hval : (freeId es).toNat = k := by
    rw [freeId_eq, foldl_countPast _ _ (by simp only [UInt64.toNat_one]; omega), hk]
    rfl
  have hpos : 1 ≤ k := le_countPast _ 1
  have hasc : ∀ m, Ascending (dirIds es) m ↔ 1 + m ≤ k := fun m => range'_sublist_iff _ 1 m
  have hmem : freeId es ∈ ids ↔ k ∈ ids.map UInt64.toNat := by
    rw [← hval]
    exact (List.mem_map_of_injective fun _ _ h => UInt64.toNat_inj.mp h).symm
  simp only [hasc]
  constructor
  · rintro ⟨id, hid, -, hnew⟩ m hm hin
    obtain rfl := Except.ok.inj (hrun.symm.trans hid)
    by_contra hlast
    have heq : m + 1 = k := by omega
    rw [heq] at hin
    exact hnew (hmem.mpr hin)
  · intro hall
    refine ⟨freeId es, hrun, fun hzero => ?_, fun hin => ?_⟩
    · rw [hzero] at hval
      have : (0 : UInt64).toNat = 0 := rfl
      omega
    · have hnext := hall (k - 1) (by omega) (by rw [Nat.sub_add_cancel hpos]; exact hmem.mp hin)
      omega

/-- **`get_free_id`** returns a new id exactly when no directory has the number behind the ids that
occur in ascending order: with the ids of all directory entries, and with those of the directories
that are not deleted. -/
theorem getFreeId_fresh_iff {g : Geometry} (hg : g.Sound) {img : Image}
    (hlen : img.length = g.imgsize) (hend : Terminated g img) :
    (FreeIdFresh g img (dirIds (entriesOf g img)) ↔
      ∀ m, Ascending (dirIds (entriesOf g img)) m →
        m + 1 ∈ (dirIds (entriesOf g img)).map UInt64.toNat →
        Ascending (dirIds (entriesOf g img)) (m + 1)) ∧
    (FreeIdFresh g img (liveDirIds (entriesOf g img)) ↔
      ∀ m, Ascending (dirIds (entriesOf g img)) m →
        m + 1 ∈ (liveDirIds (entriesOf g img)).map UInt64.toNat →
        Ascending (dirIds (entriesOf g img)) (m + 1)) :=
  ⟨freeIdFresh_iff hg hlen hend _, freeIdFresh_iff hg hlen hend _⟩

/-- On a volume with a directory and a file. -/
theorem getFreeId_fresh_sample : ∃ img₁ img₂ img₃ img₄, SampleRun img₁ img₂ img₃ img₄ ∧
    (FreeIdFresh (volumeOf 40 512) img₂ (dirIds (entriesOf (volumeOf 40 512) img₂)) ↔
      ∀ m, Ascending (dirIds (entriesOf (volumeOf 40 512) img₂)) m →
        m + 1 ∈ (dirIds (entriesOf (volumeOf 40 512) img₂)).map UInt64.toNat →
        Ascending (dirIds (entriesOf (volumeOf 40 512) img₂)) (m + 1)) ∧
    (FreeIdFresh (volumeOf 40 512) img₂ (liveDirIds (entriesOf (volumeOf 40 512) img₂)) ↔
      ∀ m, Ascending (dirIds (entriesOf (volumeOf 40 512) img₂)) m →
        m + 1 ∈ (liveDirIds (entriesOf (volumeOf 40 512) img₂)).map UInt64.toNat →
        Ascending (dirIds (entriesOf (volumeOf 40 512) img₂)) (m + 1)) := by
  obtain ⟨img₁, img₂, img₃, img₄, hsample, hg, hlen, hend⟩ := sampleRun_terminated
  exact ⟨img₁, img₂, img₃, img₄, hsample, getFreeId_fresh_iff hg hlen hend⟩

/-- A directory of the root with the name and the id. -/
def rootDirectory (name : UInt8) (id : UInt64) : Entry := directoryEntry ROOT_ID [name] id 0

theorem volumeOf_fresh : Fresh (volumeOf 20 1024) (freshImage 20 1024) :=
  freshImage_fresh 20 1024 (by decide) (by decide) (by decide) (by decide) (by decide)

/-- A table with two directories, the second of which has the smaller id. -/
theorem descending_table : ∃ img, img.length = (volumeOf 20 1024).imgsize ∧
    Table (volumeOf 20 1024) img [rootDirectory 97 2, rootDirectory 98 1] := by
  have hg := volumeOf_fresh.formatted.sound
  have hlen := volumeOf_fresh.formatted.length_eq
  have htable := volumeOf_fresh.volume.table.append hg hlen (by decide) (e := rootDirectory 97 2)
    (by decide) (by decide)
  have hlen₁ := (wrEntry_same hg hlen (i := 0) (by decide) (rootDirectory 97 2)).length_eq.trans hlen
  have hlen₂ := (wrEntry_same hg hlen₁ (i := 1) (by decide) (rootDirectory 98 1)).length_eq.trans
    hlen₁
  exact ⟨_, hlen₂, htable.append hg hlen₁ (by decide) (by decide) (by decide)⟩

/-- With the ids 2 and 1 in this order `get_free_id` returns 2. -/
theorem getFreeId_repeats : ∃ img, Terminated (volumeOf 20 1024) img ∧
    entriesOf (volumeOf 20 1024) img = [rootDirectory 97 2, rootDirectory 98 1] ∧
    getFreeId (volumeOf 20 1024) img = .ok 2 ∧
    ¬ FreeIdFresh (volumeOf 20 1024) img (dirIds (entriesOf (volumeOf 20 1024) img)) ∧
    ¬ FreeIdFresh (volumeOf 20 1024) img (liveDirIds (entriesOf (volumeOf 20 1024) img)) := by
  obtain ⟨img, hlen, htable⟩ := descending_table
  have heq := htable.listed.entries_eq
  have hid := getFreeId_listed volumeOf_fresh.formatted.sound hlen htable.listed
  rw [if_pos (by decide)] at hid
  have hrepeat : ∀ ids, 2 ∈ ids → ¬ FreeIdFresh (volumeOf 20 1024) img ids := by
    rintro ids hin ⟨id, hrun, -, hnew⟩
    obtain rfl := Except.ok.inj (hid.symm.trans hrun)
    exact hnew hin
  refine ⟨img, ?_, heq, hid, hrepeat _ ?_, hrepeat _ ?_⟩
  · rw [terminated_iff, heq]
    decide
  · rw [heq]
    decide
  · rw [heq]
    decide

end Windozz.Echfs

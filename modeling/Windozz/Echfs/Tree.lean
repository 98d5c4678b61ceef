import Windozz.Echfs.Directory

set_option autoImplicit false

/-! # Paths and the directory tree

`walk` is the part of `path_resolver` in front of its last lookup: it follows the components of
a path through the table and returns the directory and the name that are looked up last. It
survives the addition of entries (`walk_append`), and so does every lookup that succeeded.

`Tree` is the invariant of the table: names are stored C strings without a separator, no two
entries agree on parent, type and name, the directories are numbered from one in table order,
and every parent is the root or an earlier directory. In a tree every entry has a path
(`Tree.resolves`).
-/

namespace Windozz.Echfs

/-! ## Lookups -/

section Lookup

variable {es l : List Entry} {name : List UInt8} {parent : UInt64} {type : UInt8} {i : Nat}
  {e : Entry}

theorem lookup_some (h : lookup es name parent type = some i) :
    ∃ e, es[i]? = some e ∧ e.parent_id = parent ∧ e.type = type ∧ e.name.cstr = name := by
  obtain ⟨hlt, hp, -⟩ := List.findIdx?_eq_some_iff_getElem.mp h
  exact ⟨es[i], List.getElem?_eq_getElem hlt, of_decide_eq_true hp⟩

theorem lookup_eq_none (h : ∀ e ∈ es, ¬ (e.parent_id = parent ∧ e.type = type ∧ e.name.cstr = name)) :
    lookup es name parent type = none :=
  List.findIdx?_eq_none_iff.mpr fun e he => decide_eq_false (h e he)

theorem lookup_none (h : lookup es name parent type = none) (he : e ∈ es) :
    ¬ (e.parent_id = parent ∧ e.type = type ∧ e.name.cstr = name) :=
  of_decide_eq_false (List.findIdx?_eq_none_iff.mp h e he)

/-- A lookup that succeeded survives the addition of entries. -/
theorem lookup_append (h : lookup es name parent type = some i) :
    lookup (es ++ l) name parent type = some i := by
  rw [lookup] at h ⊢
  rw [List.findIdx?_append, h]
  rfl

/-- An entry that was not there is found where it is added. -/
theorem lookup_added (h : lookup es name parent type = none) (hparent : e.parent_id = parent)
    (htype : e.type = type) (hname : e.name.cstr = name) :
    lookup (es ++ [e]) name parent type = some es.length := by
  rw [lookup] at h ⊢
  rw [List.findIdx?_append, h, List.findIdx?_cons, decide_eq_true ⟨hparent, htype, hname⟩]
  simp

end Lookup

/-! ## Walks -/

/-- The directory and the name `path_resolver` looks up last; `none` when a component is too
long or one of the directories is missing. -/
def walk (es : List Entry) : List UInt8 → List UInt8 → Entry → Option (Entry × List UInt8)
  | [], name, parent => if FILENAME_LEN ≤ name.length then none else some (parent, name)
  | c :: path, name, parent =>
      if FILENAME_LEN ≤ name.length then none
      else if c = SLASH then
        match lookup es name parent.payload DIRECTORY_TYPE with
        | none => none
        | some i =>
            match es[i]? with
            | none => none
            | some d => walk es path [] d
      else walk es path (name ++ [c]) parent

section Walk

variable {es : List Entry} {path name n : List UInt8} {parent p : Entry}

/-- A walk survives the addition of entries. -/
theorem walk_append {l : List Entry} (h : walk es path name parent = some (p, n)) :
    walk (es ++ l) path name parent = some (p, n) := by
  induction path generalizing name parent with
  | nil => exact h
  | cons c path ih =>
      rw [walk] at h ⊢
      by_cases hlen : FILENAME_LEN ≤ name.length
      · rw [if_pos hlen] at h
        cases h
      · rw [if_neg hlen] at h ⊢
        by_cases hc : c = SLASH
        · rw [if_pos hc] at h ⊢
          cases hl : lookup es name parent.payload DIRECTORY_TYPE with
          | none => simp only [hl] at h; cases h
          | some i =>
              obtain ⟨d, hd, -⟩ := lookup_some hl
              have hlt := (List.getElem?_eq_some_iff.mp hd).1
              simp only [hl, hd] at h
              simp only [lookup_append hl, List.getElem?_append_left hlt, hd]
              exact ih h
        · rw [if_neg hc] at h ⊢
          exact ih h

/-- A walk ends in its first directory or in one of the table, with a name that fits. -/
theorem walk_some (h : walk es path name parent = some (p, n)) :
    n.length < FILENAME_LEN ∧ (SLASH ∉ name → SLASH ∉ n) ∧
      (0 ∉ name → 0 ∉ path → 0 ∉ n) ∧ (p = parent ∨ p ∈ es ∧ p.type = DIRECTORY_TYPE) := by
  induction path generalizing name parent with
  | nil =>
      rw [walk] at h
      by_cases hlen : FILENAME_LEN ≤ name.length
      · rw [if_pos hlen] at h
        cases h
      · rw [if_neg hlen] at h
        obtain ⟨rfl, rfl⟩ := Prod.mk.inj (Option.some.inj h)
        exact ⟨not_le.mp hlen, id, fun hn _ => hn, Or.inl rfl⟩
  | cons c path ih =>
      rw [walk] at h
      by_cases hlen : FILENAME_LEN ≤ name.length
      · rw [if_pos hlen] at h
        cases h
      · rw [if_neg hlen] at h
        -- behind a separator the name starts anew, so what it consists of is left to the rest
        by_cases hc : c = SLASH
        · rw [if_pos hc] at h
          cases hl : lookup es name parent.payload DIRECTORY_TYPE with
          | none => simp only [hl] at h; cases h
          | some i =>
              obtain ⟨d, hd, -, htype, -⟩ := lookup_some hl
              simp only [hl, hd] at h
              obtain ⟨hn, hslash, hnul, hp⟩ := ih h
              refine ⟨hn, fun _ => hslash (by simp), fun _ hpath => hnul (by simp) fun h0 =>
                hpath (List.mem_cons_of_mem _ h0), Or.inr ?_⟩
              rcases hp with rfl | hp
              · exact ⟨List.mem_of_getElem? hd, htype⟩
              · exact hp
        · rw [if_neg hc] at h
          obtain ⟨hn, hslash, hnul, hp⟩ := ih h
          refine ⟨hn, fun hs => hslash ?_, fun h0 hpath => hnul ?_ ?_, hp⟩
          · simp [hs, Ne.symm hc]
          · simp only [List.mem_cons, not_or] at hpath
            simp [h0, hpath.1]
          · exact fun hmem => hpath (List.mem_cons_of_mem _ hmem)

/-- A walk reads the characters of a component. -/
theorem walk_component {s rest : List UInt8} (hslash : SLASH ∉ s)
    (hlen : name.length + s.length < FILENAME_LEN) :
    walk es (s ++ rest) name parent = walk es rest (name ++ s) parent := by
  induction s generalizing name with
  | nil => simp
  | cons c s ih =>
      simp only [List.mem_cons, not_or] at hslash
      simp only [List.length_cons] at hlen
      rw [List.cons_append, walk, if_neg (by omega), if_neg (Ne.symm hslash.1),
        ih hslash.2 (by simp only [List.length_append, List.length_cons, List.length_nil]; omega),
        List.append_assoc]
      rfl

end Walk

/-! ## `path_resolver` over a table -/

/-- `if (*path == '/') path++;` -/
def relative : List UInt8 → List UInt8
  | c :: path => if c = SLASH then path else c :: path
  | [] => []

/-- A path without a separator. -/
theorem relative_eq {path : List UInt8} (h : SLASH ∉ path) : relative path = path := by
  cases path with
  | nil => rfl
  | cons c path =>
      simp only [List.mem_cons, not_or] at h
      rw [relative, if_neg (Ne.symm h.1)]

/-- A name without a separator is a path of the root. -/
theorem walk_name (es : List Entry) {name : List UInt8} (hroot : SLASH ∉ name)
    (hlen : name.length < FILENAME_LEN) :
    walk es (relative name) [] rootParent = some (rootParent, name) := by
  have hcomp := @walk_component es [] rootParent name [] hroot (by simpa using hlen)
  rw [List.append_nil, List.nil_append, walk, if_neg (not_le.mpr hlen)] at hcomp
  rw [relative_eq hroot, hcomp]

theorem relative_nul {path : List UInt8} (h : 0 ∉ path) : 0 ∉ relative path := by
  cases path with
  | nil => exact h
  | cons c rest =>
      rw [relative]
      by_cases hc : c = SLASH
      · rw [if_pos hc]
        exact fun hmem => h (List.mem_cons_of_mem _ hmem)
      · rw [if_neg hc]
        exact h

/-- The result of a path that leads to entry `i`. -/
def PathResult.found (p : Entry) (n : List UInt8) (i : Nat) (e : Entry) : PathResult :=
  { PathResult.init with target := e, target_entry := i, parent := p, name := n }

/-- The result of a path whose last component does not exist. -/
def PathResult.missing (p : Entry) (n : List UInt8) : PathResult :=
  { PathResult.init with not_found := true, parent := p, name := n }

section Resolve

variable {g : Geometry} (hg : g.Sound) {img : Image} (hlen : img.length = g.imgsize)
  {es : List Entry} (h : Listed g img es) {type : UInt8} {path name n : List UInt8}
  {parent p e : Entry} {i : Nat}
include hg hlen h

/-- `rd_entry` of an entry of the table. -/
theorem rdEntry_listed (he : es[i]? = some e) : rdEntry g img i = .ok e := by
  obtain ⟨hlt, -⟩ := List.getElem?_eq_some_iff.mp he
  have hfits := h.fits
  rw [rdEntry_lt hg hlen (by omega), h.stored i e he]

theorem search_found (hl : lookup es name parent.payload type = some i) :
    search g img name parent.payload type = .ok (some i) := by
  simp only [search_listed hg hlen h, hl]

theorem search_missing (hl : lookup es name parent.payload type = none)
    (hslot : es.length < g.entries) : search g img name parent.payload type = .ok none := by
  simp only [search_listed hg hlen h, hl, if_pos hslot]

/-- After a walk `path_resolver` looks up the last component. -/
theorem resolveNext_walk (hw : walk es path name parent = some (p, n)) :
    resolveNext g img type path name parent = resolveNext g img type [] n p := by
  induction path generalizing name parent with
  | nil =>
      rw [walk] at hw
      by_cases hle : FILENAME_LEN ≤ name.length
      · rw [if_pos hle] at hw
        cases hw
      · rw [if_neg hle] at hw
        obtain ⟨rfl, rfl⟩ := Prod.mk.inj (Option.some.inj hw)
        rfl
  | cons c path ih =>
      rw [walk] at hw
      conv_lhs => rw [resolveNext]
      by_cases hle : FILENAME_LEN ≤ name.length
      · rw [if_pos hle] at hw
        cases hw
      · rw [if_neg hle] at hw ⊢
        by_cases hc : c = SLASH
        · rw [if_pos hc] at hw ⊢
          cases hl : lookup es name parent.payload DIRECTORY_TYPE with
          | none => simp only [hl] at hw; cases hw
          | some i =>
              obtain ⟨d, hd, -⟩ := lookup_some hl
              simp only [hl, hd] at hw
              simp only [search_found hg hlen h hl, rdEntry_listed hg hlen h hd]
              exact ih hw
        · rw [if_neg hc] at hw ⊢
          exact ih hw

/-- The last lookup of `path_resolver`. -/
theorem resolveNext_nil (hn : n.length < FILENAME_LEN) :
    resolveNext g img type [] n p =
      match lookup es n p.payload type with
      | some i => (rdEntry g img i).map (PathResult.found p n i)
      | none =>
          if es.length < g.entries then .ok (PathResult.missing p n)
          else .error .readOutOfBounds := by
  rw [resolveNext, if_neg (by omega)]
  cases hl : lookup es n p.payload type with
  | some i =>
      obtain ⟨e, he, -⟩ := lookup_some hl
      simp only [search_found hg hlen h hl, rdEntry_listed hg hlen h he]
      rfl
  | none =>
      by_cases hslot : es.length < g.entries
      · simp only [search_missing hg hlen h hl hslot, if_pos hslot]
        rfl
      · simp only [search_listed hg hlen h, hl, if_neg hslot]

/-- A result of `path_resolver` that does not report a missing directory comes from a walk. -/
theorem resolveNext_ok {r : PathResult} (hr : resolveNext g img type path name parent = .ok r) :
    r = { PathResult.init with failure := true } ∨
      ∃ p n, walk es path name parent = some (p, n) := by
  induction path generalizing name parent with
  | nil =>
      rw [resolveNext] at hr
      by_cases hle : FILENAME_LEN ≤ name.length
      · rw [if_pos hle] at hr
        cases hr
      · exact Or.inr ⟨parent, name, by rw [walk, if_neg hle]⟩
  | cons c path ih =>
      rw [resolveNext] at hr
      rw [walk]
      by_cases hle : FILENAME_LEN ≤ name.length
      · rw [if_pos hle] at hr
        cases hr
      · rw [if_neg hle] at hr ⊢
        by_cases hc : c = SLASH
        · rw [if_pos hc] at hr ⊢
          cases hl : lookup es name parent.payload DIRECTORY_TYPE with
          | none =>
              simp only [search_listed hg hlen h, hl] at hr
              by_cases hslot : es.length < g.entries
              · simp only [if_pos hslot] at hr
                exact Or.inl (Except.ok.inj hr).symm
              · simp only [if_neg hslot] at hr
                cases hr
          | some i =>
              obtain ⟨d, hd, -⟩ := lookup_some hl
              simp only [search_found hg hlen h hl, rdEntry_listed hg hlen h hd] at hr
              simp only [hd]
              exact ih hr
        · rw [if_neg hc] at hr ⊢
          exact ih hr

end Resolve

/-- The path is the root for `path_resolver`, which knows two types of objects. -/
abbrev RootPath (path : List UInt8) (type : UInt8) : Prop :=
  path = [SLASH] ∧ (type = FILE_TYPE ∨ type = DIRECTORY_TYPE)

/-- Any other path is resolved component by component. -/
theorem pathResolver_eq {g : Geometry} {img : Image} {path : List UInt8} {type : UInt8}
    (hp : ¬ RootPath path type) :
    pathResolver g img path type = resolveNext g img type (relative path) [] rootParent := by
  unfold pathResolver
  rw [if_neg (fun h => hp ⟨h.2, Or.inr h.1⟩), if_neg (fun h => hp ⟨h.2, Or.inl h.1⟩)]
  cases path with
  | nil => rfl
  | cons c path =>
      by_cases hc : c = SLASH
      · simp only [relative, if_pos hc]
      · simp only [relative, if_neg hc]

section PathResolver

variable {g : Geometry} (hg : g.Sound) {img : Image} (hlen : img.length = g.imgsize)
  {es : List Entry} (h : Listed g img es) {type : UInt8} {path n : List UInt8} {p e : Entry}
  {i : Nat}
include hg hlen h

/-- A path that leads to an entry. -/
theorem pathResolver_found (hp : ¬ RootPath path type)
    (hw : walk es (relative path) [] rootParent = some (p, n))
    (hl : lookup es n p.payload type = some i) (he : es[i]? = some e) :
    pathResolver g img path type = .ok (PathResult.found p n i e) := by
  rw [pathResolver_eq hp, resolveNext_walk hg hlen h hw,
    resolveNext_nil hg hlen h (walk_some hw).1]
  simp only [hl, rdEntry_listed hg hlen h he]
  rfl

/-- A path whose last component is missing. -/
theorem pathResolver_missing (hp : ¬ RootPath path type)
    (hw : walk es (relative path) [] rootParent = some (p, n))
    (hl : lookup es n p.payload type = none) (hslot : es.length < g.entries) :
    pathResolver g img path type = .ok (PathResult.missing p n) := by
  rw [pathResolver_eq hp, resolveNext_walk hg hlen h hw,
    resolveNext_nil hg hlen h (walk_some hw).1]
  simp only [hl, if_pos hslot]

/-- `path_resolver` sets `not_found` only for a path whose directories exist and whose last
component does not. -/
theorem pathResolver_not_found (htype : type = FILE_TYPE ∨ type = DIRECTORY_TYPE) {r : PathResult}
    (hr : pathResolver g img path type = .ok r) (hnf : r.not_found = true) :
    path ≠ [SLASH] ∧ es.length < g.entries ∧ r = PathResult.missing r.parent r.name ∧
      walk es (relative path) [] rootParent = some (r.parent, r.name) ∧
      lookup es r.name r.parent.payload type = none := by
  have hp : path ≠ [SLASH] := by
    rintro rfl
    rcases htype with rfl | rfl
    · unfold pathResolver at hr
      rw [if_neg (by simp [FILE_TYPE, DIRECTORY_TYPE]), if_pos ⟨rfl, rfl⟩] at hr
      rw [← Except.ok.inj hr] at hnf
      cases hnf
    · unfold pathResolver at hr
      rw [if_pos ⟨rfl, rfl⟩] at hr
      rw [← Except.ok.inj hr] at hnf
      cases hnf
  rw [pathResolver_eq fun h => hp h.1] at hr
  -- a look-up that fails on the way reports a failure, and does not set `not_found`
  rcases resolveNext_ok hg hlen h hr with rfl | ⟨p, n, hw⟩
  · cases hnf
  · rw [resolveNext_walk hg hlen h hw, resolveNext_nil hg hlen h (walk_some hw).1] at hr
    cases hl : lookup es n p.payload type with
    | some i =>
        obtain ⟨e, he, -⟩ := lookup_some hl
        simp only [hl, rdEntry_listed hg hlen h he] at hr
        rw [← Except.ok.inj hr] at hnf
        cases hnf
    | none =>
        simp only [hl] at hr
        by_cases hslot : es.length < g.entries
        · rw [if_pos hslot] at hr
          obtain rfl := Except.ok.inj hr
          exact ⟨hp, hslot, rfl, hw, hl⟩
        · rw [if_neg hslot] at hr
          cases hr

end PathResolver

/-! ## The tree -/

/-- The ids of the directories, in table order. -/
def dirIds (es : List Entry) : List UInt64 :=
  (es.filter fun e => decide (e.type = DIRECTORY_TYPE)).map Entry.payload

theorem mem_dirIds {es : List Entry} {d : Entry} (hd : d ∈ es) (htype : d.type = DIRECTORY_TYPE) :
    d.payload ∈ dirIds es :=
  List.mem_map.mpr ⟨d, List.mem_filter.mpr ⟨hd, decide_eq_true htype⟩, rfl⟩

theorem dirIds_append (es ds : List Entry) : dirIds (es ++ ds) = dirIds es ++ dirIds ds := by
  rw [dirIds, List.filter_append, List.map_append]
  rfl

/-- The invariant of the directory table. -/
structure Tree (es : List Entry) : Prop where
  names : ∀ e ∈ es, ∃ s, s.length < FILENAME_LEN ∧ 0 ∉ s ∧ SLASH ∉ s ∧ e.name = NameField.store s
  distinct : es.Pairwise fun e f =>
    ¬ (e.parent_id = f.parent_id ∧ e.type = f.type ∧ e.name.cstr = f.name.cstr)
  ids : dirIds es = (List.range (dirIds es).length).map fun j => UInt64.ofNat (j + 1)
  parents : ∀ (i : Nat) (e : Entry), es[i]? = some e → e.parent_id = ROOT_ID ∨
    ∃ (j : Nat) (d : Entry), j < i ∧ es[j]? = some d ∧ d.type = DIRECTORY_TYPE ∧ d.payload = e.parent_id

theorem tree_nil : Tree [] := ⟨by simp, by simp, by simp [dirIds], by simp⟩

/-- `get_free_id` looks at the ids of the directories only. -/
theorem freeId_eq (es : List Entry) :
    freeId es = (dirIds es).foldl (fun id x => if x = id then x + 1 else id) 1 := by
  have hfold : ∀ (l : List Entry) (id : UInt64),
      l.foldl (fun id e => if e.type = 1 ∧ e.payload = id then e.payload + 1 else id) id
        = (dirIds l).foldl (fun id x => if x = id then x + 1 else id) id := by
    intro l
    induction l with
    | nil =>
        intro id
        rfl
    | cons e l ih =>
        intro id
        rw [List.foldl_cons, ih]
        by_cases hd : e.type = DIRECTORY_TYPE
        · have hone : e.type = 1 := hd
          rw [show dirIds (e :: l) = e.payload :: dirIds l by simp [dirIds, hd], List.foldl_cons]
          simp only [hone, true_and]
        · have hone : ¬ e.type = 1 := hd
          rw [show dirIds (e :: l) = dirIds l by simp [dirIds, hd]]
          simp only [hone, false_and, if_false]
  exact hfold es 1

/-- Numbered from one, the next id is the number of directories plus one. -/
theorem foldl_ids (k : Nat) :
    ((List.range k).map fun j => UInt64.ofNat (j + 1)).foldl
      (fun id x => if x = id then x + 1 else id) 1 = UInt64.ofNat (k + 1) := by
  induction k with
  | zero => rfl
  | succ k ih =>
      rw [List.range_succ, List.map_append, List.foldl_append, ih]
      simp only [List.map_cons, List.map_nil, List.foldl_cons, List.foldl_nil, if_true]
      rw [UInt64.ofNat_add (k + 1) 1]
      rfl

namespace Tree

variable {es : List Entry} (h : Tree es)
include h

theorem freeId_eq : freeId es = UInt64.ofNat ((dirIds es).length + 1) := by
  rw [Echfs.freeId_eq]
  conv_lhs => rw [h.ids]
  exact foldl_ids _

omit h in
theorem dirIds_length_le (es : List Entry) : (dirIds es).length ≤ es.length := by
  rw [dirIds, List.length_map]
  exact List.length_filter_le _ _

/-- Directory ids are neither free, deleted nor the root's. -/
theorem id_ne {x : UInt64} (hlt : es.length < 2 ^ 63) (hx : x ∈ dirIds es) :
    x ≠ 0 ∧ x ≠ ROOT_ID ∧ x ≠ DELETED_ENTRY := by
  rw [h.ids] at hx
  obtain ⟨j, hj, rfl⟩ := List.mem_map.mp hx
  have hjlt := List.mem_range.mp hj
  have hle := dirIds_length_le es
  have hval : (UInt64.ofNat (j + 1)).toNat = j + 1 := by
    rw [UInt64.toNat_ofNat', Nat.mod_eq_of_lt (by omega)]
  have hroot : ROOT_ID.toNat = 2 ^ 64 - 1 := rfl
  have hdel : DELETED_ENTRY.toNat = 2 ^ 64 - 2 := rfl
  refine ⟨fun he => ?_, fun he => ?_, fun he => ?_⟩
  · rw [he] at hval
    cases hval
  · rw [he, hroot] at hval
    omega
  · rw [he, hdel] at hval
    omega

theorem ids_nodup (hlt : es.length < 2 ^ 63) : (dirIds es).Nodup := by
  rw [h.ids]
  refine List.Nodup.map_on ?_ List.nodup_range
  intro i hi j hj he
  have hle := dirIds_length_le es
  have hi' := List.mem_range.mp hi
  have hj' := List.mem_range.mp hj
  have hnat := congrArg UInt64.toNat he
  rw [UInt64.toNat_ofNat', UInt64.toNat_ofNat', Nat.mod_eq_of_lt (by omega),
    Nat.mod_eq_of_lt (by omega)] at hnat
  omega

/-- A lookup of an entry's own key finds the entry. -/
theorem lookup_self {i : Nat} {e : Entry} (he : es[i]? = some e) :
    lookup es e.name.cstr e.parent_id e.type = some i := by
  obtain ⟨hlt, hei⟩ := List.getElem?_eq_some_iff.mp he
  refine List.findIdx?_eq_some_iff_getElem.mpr ⟨hlt, decide_eq_true (by rw [hei]; simp), ?_⟩
  intro j hj hm
  have hpair := List.pairwise_iff_getElem.mp h.distinct j i (by omega) hlt hj
  rw [hei] at hpair
  exact hpair (of_decide_eq_true hm)

/-- An entry in a directory of the tree, under a new name and with the next id if it is itself a
directory, makes a tree. -/
theorem append {p e : Entry} {n : List UInt8} (hp : p = rootParent ∨ p ∈ es ∧ p.type = DIRECTORY_TYPE)
    (hparent : e.parent_id = p.payload) (hn : n.length < FILENAME_LEN) (h0 : 0 ∉ n)
    (hslash : SLASH ∉ n) (hname : e.name = NameField.store n)
    (hnew : lookup es n p.payload e.type = none)
    (hid : e.type = DIRECTORY_TYPE → e.payload = freeId es) : Tree (es ++ [e]) := by
  have hcstr : e.name.cstr = n := by rw [hname, NameField.cstr_store hn h0]
  refine ⟨?_, ?_, ?_, ?_⟩
  · intro f hf
    rcases List.mem_append.mp hf with hf | hf
    · exact h.names f hf
    · obtain rfl : f = e := by simpa using hf
      exact ⟨n, hn, h0, hslash, hname⟩
  · rw [List.pairwise_append]
    refine ⟨h.distinct, List.pairwise_singleton _ _, fun f hf f' hf' hm => ?_⟩
    obtain rfl : f' = e := by simpa using hf'
    exact lookup_none hnew hf ⟨hm.1.trans hparent, hm.2.1, hm.2.2.trans hcstr⟩
  · -- only a directory takes an id, and it takes the next one
    by_cases hd : e.type = DIRECTORY_TYPE
    · have happ : dirIds (es ++ [e]) = dirIds es ++ [e.payload] := by
        simp [dirIds, List.filter_append, hd]
      rw [happ, List.length_append, hid hd, h.freeId_eq]
      simp only [List.length_cons, List.length_nil]
      rw [List.range_succ, List.map_append, ← h.ids]
      rfl
    · have happ : dirIds (es ++ [e]) = dirIds es := by
        simp [dirIds, List.filter_append, hd]
      rw [happ]
      exact h.ids
  · intro i f hf
    by_cases hi : i < es.length
    · rw [List.getElem?_append_left hi] at hf
      rcases h.parents i f hf with hroot | ⟨j, d, hj, hd, hdt, hdp⟩
      · exact Or.inl hroot
      · exact Or.inr ⟨j, d, hj, by rw [List.getElem?_append_left (by omega)]; exact hd, hdt, hdp⟩
    · rw [List.getElem?_append_right (by omega)] at hf
      obtain ⟨hlt, hfe⟩ := List.getElem?_eq_some_iff.mp hf
      obtain rfl : e = f := by simpa using hfe
      rcases hp with rfl | ⟨hmem, hpt⟩
      · exact Or.inl hparent
      · obtain ⟨j, hj⟩ := List.mem_iff_getElem?.mp hmem
        have hjlt := (List.getElem?_eq_some_iff.mp hj).1
        exact Or.inr ⟨j, p, by omega, by rw [List.getElem?_append_left hjlt]; exact hj, hpt,
          hparent.symm⟩

/-- Every entry's directory can be walked to. -/
theorem reached {i : Nat} {e : Entry} (he : es[i]? = some e) :
    ∃ pre p, 0 ∉ pre ∧ p.payload = e.parent_id ∧
      ∀ rest, walk es (pre ++ rest) [] rootParent = walk es rest [] p := by
  induction i using Nat.strong_induction_on generalizing e with
  | _ i ih =>
      rcases h.parents i e he with hroot | ⟨j, d, hj, hd, hdt, hdp⟩
      · exact ⟨[], rootParent, by simp, hroot.symm, fun rest => rfl⟩
      · obtain ⟨pre, p, hpre0, hpp, hwalk⟩ := ih j hj hd
        obtain ⟨s, hs, hs0, hslash, hname⟩ := h.names d (List.mem_of_getElem? hd)
        have hcstr : d.name.cstr = s := by rw [hname, NameField.cstr_store hs hs0]
        have hlookup : lookup es s p.payload DIRECTORY_TYPE = some j := by
          rw [← hcstr, hpp, ← hdt]
          exact h.lookup_self hd
        refine ⟨pre ++ (s ++ [SLASH]), d, ?_, hdp, fun rest => ?_⟩
        · have hne : (0 : UInt8) ≠ SLASH := by decide
          simp [hpre0, hs0, hne]
        · rw [List.append_assoc, List.append_assoc, hwalk,
            walk_component hslash (by simpa using hs), List.nil_append, List.cons_append, walk,
            if_neg (by omega), if_pos rfl]
          simp only [hlookup, hd]
          rfl

/-- **Reachability.** Every entry of a tree has a path that resolves to it. -/
theorem resolves {g : Geometry} (hg : g.Sound) {img : Image} (hlen : img.length = g.imgsize)
    (ht : Table g img es) {i : Nat} {e : Entry} (he : es[i]? = some e) :
    ∃ path r, 0 ∉ path ∧ pathResolver g img path e.type = .ok r ∧ r.failure = false ∧
      r.not_found = false ∧ r.target_entry = i ∧ r.target = e := by
  obtain ⟨pre, p, hpre0, hpp, hwalk⟩ := h.reached he
  obtain ⟨s, hs, hs0, hslash, hname⟩ := h.names e (List.mem_of_getElem? he)
  have hcstr : e.name.cstr = s := by rw [hname, NameField.cstr_store hs hs0]
  have hw : walk es (pre ++ s) [] rootParent = some (p, s) := by
    have hcomp : walk es (s ++ []) [] p = walk es [] ([] ++ s) p :=
      walk_component hslash (by simpa using hs)
    rw [List.append_nil] at hcomp
    rw [hwalk, hcomp, walk, List.nil_append, if_neg (by omega)]
  have hl : lookup es s p.payload e.type = some i := by
    rw [← hcstr, hpp]
    exact h.lookup_self he
  have hpath0 : 0 ∉ pre ++ s := by simp [hpre0, hs0]
  -- the empty path is spelled without a separator, since `/` is the root itself
  by_cases hemp : pre ++ s = []
  · rw [hemp] at hw
    exact ⟨[], _, by simp, pathResolver_found hg hlen ht.listed (by simp [RootPath]) hw hl he, rfl, rfl, rfl, rfl⟩
  · have hne : (0 : UInt8) ≠ SLASH := by decide
    refine ⟨SLASH :: (pre ++ s), _, by simpa [hne] using hpath0,
      pathResolver_found hg hlen ht.listed ?_ ?_ hl he, rfl, rfl, rfl, rfl⟩
    · exact fun heq => hemp (List.cons.inj heq.1).2
    · rw [relative, if_pos rfl]
      exact hw

end Tree

end Windozz.Echfs

import Windozz.Echfs.Lookup

set_option autoImplicit false

/-! # `path_resolver` on any image

The globals of an image that opens need not describe regions that fit it: the directory may start
behind the end of the file, or anywhere at all when its block number wraps. What a search sees of
such a table are the entries it can read in front of the first one with parent 0
(`entriesSeen`). A search without a match reads the entry behind them (`tableEnd`) and ends there,
if that entry can be read.

On every image `path_resolver` is a walk through the components of its path over the entries seen
(`pathResolver_names`), with three ways to end in front of an existing last component: a component
that does not fit into `name`, an entry that cannot be read, and a component that does not exist.
-/

namespace Windozz.Echfs

/-! ## The entries a search sees -/

/-- The entries a search looks at from number `i` on, at most `n` of them. -/
def seenFrom (g : Geometry) (img : Image) : Nat → Nat → List Entry
  | 0, _ => []
  | n + 1, i =>
      match rdEntry g img i with
      | .error _ => []
      | .ok entry => if entry.parent_id = 0 then [] else entry :: seenFrom g img n (i + 1)

/-- The entries a search looks at before it ends without a match. -/
def entriesSeen (g : Geometry) (img : Image) : List Entry := seenFrom g img (u64 g.entries) 0

/-- The last read of a search without a match. -/
def tableEnd (g : Geometry) (img : Image) : Except Fault Unit :=
  (rdEntry g img (entriesSeen g img).length).map fun _ => ()

section Seen

variable {g : Geometry} {img : Image}

/-- The entries seen are read as they are seen. -/
theorem rdEntry_seenFrom (n i : Nat) {k : Nat} {e : Entry}
    (h : (seenFrom g img n i)[k]? = some e) : rdEntry g img (i + k) = .ok e := by
  induction n generalizing i k with
  | zero => simp [seenFrom] at h
  | succ n ih =>
      rw [seenFrom] at h
      cases hrd : rdEntry g img i with
      | error f => simp [hrd] at h
      | ok entry =>
          simp only [hrd] at h
          by_cases hend : entry.parent_id = 0
          · simp [if_pos hend] at h
          · rw [if_neg hend] at h
            cases k with
            | zero =>
                obtain rfl := Option.some.inj h
                exact hrd
            | succ k =>
                rw [List.getElem?_cons_succ] at h
                rw [show i + (k + 1) = i + 1 + k by omega]
                exact ih (i + 1) h

theorem rdEntry_seen {i : Nat} {e : Entry} (h : (entriesSeen g img)[i]? = some e) :
    rdEntry g img i = .ok e := by
  have hrd := rdEntry_seenFrom _ 0 h
  rwa [Nat.zero_add] at hrd

/-- A search from number `i` on, with `n` entries of the table left. -/
theorem scan_seenFrom (name : List UInt8) (parent : UInt64) (type : UInt8) (n : Nat) :
    ∀ (i fuel : Nat), i + n = u64 g.entries → n < fuel →
      scan g img (searchBody g name parent type) fuel i () =
        match lookup (seenFrom g img n i) name parent type with
        | some k => .ok (some (i + k))
        | none => (rdEntry g img (i + (seenFrom g img n i).length)).map fun _ => none := by
  induction n with
  | zero =>
      intro i fuel hi hfuel
      obtain ⟨fuel, rfl⟩ : ∃ f, fuel = f + 1 := ⟨fuel - 1, by omega⟩
      rw [scan]
      cases hrd : rdEntry g img i with
      | error f => simp [seenFrom, lookup, hrd, Except.map]
      | ok entry =>
          -- the entry behind the table ends the search, whatever it holds
          have hlast : searchBody g name parent type i entry () = .inr none := by
            rw [searchBody]
            by_cases hend : entry.parent_id = 0
            · rw [if_pos hend]
            · rw [if_neg hend, if_pos (by omega)]
          simp [seenFrom, lookup, hrd, hlast, Except.map]
  | succ n ih =>
      intro i fuel hi hfuel
      obtain ⟨fuel, rfl⟩ : ∃ f, fuel = f + 1 := ⟨fuel - 1, by omega⟩
      rw [scan, seenFrom]
      cases hrd : rdEntry g img i with
      | error f => simp [lookup, hrd, Except.map]
      | ok entry =>
          by_cases hend : entry.parent_id = 0
          · simp [lookup, hrd, hend, searchBody, Except.map]
          · have hrest := ih (i + 1) fuel (by omega) (by omega)
            simp only [if_neg hend, searchBody, lookup, List.findIdx?_cons]
            rw [if_neg (by omega)]
            by_cases hm : entry.parent_id = parent ∧ entry.type = type ∧ entry.name.cstr = name
            · simp [hm]
            · rw [if_neg hm, decide_eq_false hm]
              simp only [hrest, lookup, List.length_cons]
              cases (seenFrom g img n (i + 1)).findIdx? _ with
              | none => simp [Nat.add_assoc, Nat.add_comm 1]
              | some k => simp [Nat.add_assoc, Nat.add_comm 1]

/-- **`search` on any image** is the first match among the entries it sees. -/
theorem search_seen (name : List UInt8) (parent : UInt64) (type : UInt8) :
    search g img name parent type =
      match lookup (entriesSeen g img) name parent type with
      | some i => .ok (some i)
      | none => (tableEnd g img).map fun _ => none := by
  rw [search, scan_seenFrom name parent type (u64 g.entries) 0 SCAN_ROUNDS (Nat.zero_add _)
    (u64_lt _), tableEnd, entriesSeen]
  cases lookup (seenFrom g img (u64 g.entries) 0) name parent type with
  | some i => simp
  | none =>
      rw [Nat.zero_add]
      cases rdEntry g img (seenFrom g img (u64 g.entries) 0).length with
      | error f => rfl
      | ok e => rfl

/-- A read of the table does not overrun anything. -/
theorem tableEnd_ne_overrun : tableEnd g img ≠ .error .overrun := by
  rw [tableEnd, rdEntry]
  split
  · simp [Except.map]
  · split
    · simp [Except.map]
    · simp [Except.map]

end Seen

/-! ## The walk through the components -/

/-- `path_resolver` from the directory `parent` on: what it returns after the components `names`,
when a search over the entries `es` without a match ends with `fin`. -/
def resolveNames (es : List Entry) (fin : Except Fault Unit) (type : UInt8) :
    List (List UInt8) → Entry → Except Fault PathResult
  | [], _ => .ok PathResult.init
  | [name], parent =>
      if FILENAME_LEN ≤ name.length then .error .overrun
      else
        match child es type parent name with
        | some (i, e) => .ok (PathResult.found parent name i e)
        | none => fin.map fun _ => PathResult.missing parent name
  | name :: names, parent =>
      if FILENAME_LEN ≤ name.length then .error .overrun
      else
        match child es DIRECTORY_TYPE parent name with
        | some (_, d) => resolveNames es fin type names d
        | none => fin.map fun _ => { PathResult.init with failure := true }

/-- A component in front of others. -/
theorem resolveNames_cons {es : List Entry} {fin : Except Fault Unit} {type : UInt8}
    {name : List UInt8} {names : List (List UInt8)} {parent : Entry} (h : names ≠ []) :
    resolveNames es fin type (name :: names) parent =
      if FILENAME_LEN ≤ name.length then .error .overrun
      else
        match child es DIRECTORY_TYPE parent name with
        | some (_, d) => resolveNames es fin type names d
        | none => fin.map fun _ => { PathResult.init with failure := true } := by
  cases names with
  | nil => exact absurd rfl h
  | cons n names => rfl

/-- A first component that does not fit overruns `name`. -/
theorem resolveNames_long {es : List Entry} {fin : Except Fault Unit} {type : UInt8}
    {name : List UInt8} (names : List (List UInt8)) {parent : Entry}
    (h : FILENAME_LEN ≤ name.length) :
    resolveNames es fin type (name :: names) parent = .error .overrun := by
  cases names with
  | nil => rw [resolveNames, if_pos h]
  | cons n names => rw [resolveNames_cons (List.cons_ne_nil _ _), if_pos h]

/-- The first component begins with what has been read of it. -/
theorem splitFrom_first (name path : List UInt8) :
    ∃ n ns, splitFrom name path = n :: ns ∧ name.length ≤ n.length := by
  obtain ⟨n, ns, hns⟩ := List.exists_cons_of_ne_nil (List.splitOnP_ne_nil (· == SLASH) path)
  exact ⟨name ++ n, ns, by simp [splitFrom, List.splitOn, hns], by simp⟩

section Names

variable {g : Geometry} {img : Image} {type : UInt8} {name : List UInt8} {parent : Entry}

/-- A search for an entry that is seen. -/
theorem search_child {i : Nat} {e : Entry}
    (h : child (entriesSeen g img) type parent name = some (i, e)) :
    search g img name parent.payload type = .ok (some i) ∧ rdEntry g img i = .ok e := by
  obtain ⟨hl, he⟩ := child_eq_some.mp h
  rw [search_seen, hl]
  exact ⟨rfl, rdEntry_seen he⟩

/-- A search for an entry that is not seen. -/
theorem search_no_child (h : child (entriesSeen g img) type parent name = none) :
    search g img name parent.payload type = (tableEnd g img).map fun _ => none := by
  rw [search_seen, child_eq_none.mp h]

/-- The loop of `path_resolver`, with the characters `name` of the current component read. -/
theorem resolveNext_names (path name : List UInt8) (parent : Entry) :
    resolveNext g img type path name parent =
      resolveNames (entriesSeen g img) (tableEnd g img) type (splitFrom name path) parent := by
  induction path generalizing name parent with
  | nil =>
      rw [splitFrom_nil, resolveNext, resolveNames]
      -- a component that does not fit is stored past the end of `name` before anything is looked up
      by_cases hlong : FILENAME_LEN ≤ name.length
      · rw [if_pos hlong, if_pos hlong]
      · rw [if_neg hlong, if_neg hlong]
        cases hc : child (entriesSeen g img) type parent name with
        | some found =>
            obtain ⟨hsearch, hrd⟩ := search_child hc
            simp only [hsearch, hrd]
            rfl
        | none =>
            rw [search_no_child hc]
            cases tableEnd g img <;> rfl
  | cons c path ih =>
      rw [resolveNext]
      by_cases hlong : FILENAME_LEN ≤ name.length
      · -- the rest of the path only makes the component longer
        obtain ⟨n, ns, hsplit, hle⟩ := splitFrom_first name (c :: path)
        rw [if_pos hlong, hsplit, resolveNames_long ns (by omega)]
      · by_cases hslash : c = SLASH
        · subst hslash
          rw [if_neg hlong, if_pos rfl, splitFrom_slash, resolveNames_cons splitFrom_ne_nil,
            if_neg hlong]
          cases hc : child (entriesSeen g img) DIRECTORY_TYPE parent name with
          | some found =>
              obtain ⟨hsearch, hrd⟩ := search_child hc
              simp only [hsearch, hrd, ih]
          | none =>
              rw [search_no_child hc]
              cases tableEnd g img <;> rfl
        · rw [if_neg hlong, if_neg hslash, splitFrom_cons hslash]
          exact ih _ _

/-- **`path_resolver` on any image**, for every path but the root. -/
theorem pathResolver_names {path : List UInt8} (hroot : ¬ RootPath path type) :
    pathResolver g img path type =
      resolveNames (entriesSeen g img) (tableEnd g img) type (components path) rootParent := by
  rw [pathResolver_eq hroot, resolveNext_names, splitFrom_start]
  rfl

end Names

/-! ## Where the walk ends -/

/-- The walk meets a component that does not fit into `name`: the directories in front of it all
exist. -/
def MeetsLong (es : List Entry) (parent : Entry) (names : List (List UInt8)) : Prop :=
  ∃ k name d, names[k]? = some name ∧ descend es parent (names.take k) = some d ∧
    FILENAME_LEN ≤ name.length

section Ends

variable {es : List Entry} {fin : Except Fault Unit} {type : UInt8} {name : List UInt8}
  {names : List (List UInt8)} {parent : Entry}

theorem descend_cons : descend es parent (name :: names)
    = (child es DIRECTORY_TYPE parent name).bind fun x => descend es x.2 names := by
  rw [descend, List.foldlM_cons]
  cases child es DIRECTORY_TYPE parent name <;> rfl

/-- The first component is too long, or it exists and the walk behind it meets one that is. -/
theorem meetsLong_cons : MeetsLong es parent (name :: names) ↔
    FILENAME_LEN ≤ name.length ∨
      ∃ i d, child es DIRECTORY_TYPE parent name = some (i, d) ∧ MeetsLong es d names := by
  constructor
  · rintro ⟨k, n, d, hn, hd, hlong⟩
    cases k with
    | zero =>
        obtain rfl : name = n := by simpa using hn
        exact Or.inl hlong
    | succ k =>
        rw [List.getElem?_cons_succ] at hn
        rw [List.take_succ_cons, descend_cons] at hd
        obtain ⟨⟨i, d'⟩, hc, hd'⟩ := Option.bind_eq_some_iff.mp hd
        exact Or.inr ⟨i, d', hc, k, n, d, hn, hd', hlong⟩
  · rintro (hlong | ⟨i, d, hc, k, n, d', hn, hd, hlong⟩)
    · exact ⟨0, name, parent, rfl, rfl, hlong⟩
    · refine ⟨k + 1, n, d', by rwa [List.getElem?_cons_succ], ?_, hlong⟩
      rw [List.take_succ_cons, descend_cons, hc]
      exact hd

/-- The walk overruns `name` exactly when it meets a component that does not fit. -/
theorem resolveNames_overrun_iff (hfin : fin ≠ .error .overrun) (hne : names ≠ []) :
    resolveNames es fin type names parent = .error .overrun ↔ MeetsLong es parent names := by
  have hmap : ∀ r : PathResult, (fin.map fun _ => r) ≠ .error .overrun := by
    intro r
    cases fin with
    | error e => simpa [Except.map] using hfin
    | ok u => simp [Except.map]
  induction names generalizing parent with
  | nil => exact absurd rfl hne
  | cons name names ih =>
      rw [meetsLong_cons]
      by_cases hlong : FILENAME_LEN ≤ name.length
      · rw [resolveNames_long names hlong]
        simp [hlong]
      · cases names with
        | nil =>
            have hnil : ∀ d, ¬ MeetsLong es d [] := by
              rintro d ⟨k, n, d', hn, -⟩
              simp at hn
            rw [resolveNames, if_neg hlong]
            cases child es type parent name with
            | some found => simp [hlong, hnil]
            | none => simp [hlong, hnil, hmap]
        | cons n names =>
            rw [resolveNames_cons (List.cons_ne_nil _ _), if_neg hlong]
            cases hc : child es DIRECTORY_TYPE parent name with
            | some found =>
                obtain ⟨i, d⟩ := found
                simp [hlong, ih (List.cons_ne_nil _ _)]
            | none => simp [hlong, hmap]

/-- A walk that meets no component that is too long ends at the last component, or at the first
directory that does not exist. -/
theorem resolveNames_short (hshort : ¬ MeetsLong es parent names) (hne : names ≠ []) :
    resolveNames es fin type names parent =
      match descend es parent names.dropLast with
      | none => fin.map fun _ => { PathResult.init with failure := true }
      | some d =>
          match child es type d (names.getLast?.getD []) with
          | some (i, e) => .ok (PathResult.found d (names.getLast?.getD []) i e)
          | none => fin.map fun _ => PathResult.missing d (names.getLast?.getD []) := by
  induction names generalizing parent with
  | nil => exact absurd rfl hne
  | cons name names ih =>
      rw [meetsLong_cons] at hshort
      have hlong : ¬ FILENAME_LEN ≤ name.length := fun h => hshort (Or.inl h)
      cases names with
      | nil =>
          rw [resolveNames, if_neg hlong]
          rfl
      | cons n names =>
          rw [resolveNames_cons (List.cons_ne_nil _ _), if_neg hlong,
            List.dropLast_cons_of_ne_nil (List.cons_ne_nil _ _),
            List.getLast?_cons_of_ne_nil (List.cons_ne_nil _ _), descend_cons]
          cases hc : child es DIRECTORY_TYPE parent name with
          | some found =>
              obtain ⟨i, d⟩ := found
              exact ih (fun h => hshort (Or.inr ⟨i, d, hc, h⟩)) (List.cons_ne_nil _ _)
          | none => rfl

end Ends

/-- A path always has a component. -/
theorem components_ne_nil (path : List UInt8) : components path ≠ [] := by
  simp [components, List.splitOn, List.splitOnP_ne_nil]

section Paths

variable {g : Geometry} {img : Image} {path : List UInt8} {type : UInt8}

/-- `path_resolver` overruns `name` exactly when it meets a component that does not fit. -/
theorem pathResolver_overrun_iff (hroot : ¬ RootPath path type) :
    pathResolver g img path type = .error .overrun
      ↔ MeetsLong (entriesSeen g img) rootParent (components path) := by
  rw [pathResolver_names hroot]
  exact resolveNames_overrun_iff tableEnd_ne_overrun (components_ne_nil path)

/-- `path_resolver` on a path without a component that is too long. -/
theorem pathResolver_short (hroot : ¬ RootPath path type)
    (hshort : ¬ MeetsLong (entriesSeen g img) rootParent (components path)) :
    pathResolver g img path type =
      match parentOf (entriesSeen g img) path with
      | none => (tableEnd g img).map fun _ => { PathResult.init with failure := true }
      | some d =>
          match child (entriesSeen g img) type d (baseName path) with
          | some (i, e) => .ok (PathResult.found d (baseName path) i e)
          | none => (tableEnd g img).map fun _ => PathResult.missing d (baseName path) := by
  rw [pathResolver_names hroot]
  exact resolveNames_short hshort (components_ne_nil path)

end Paths

/-! ## Paths that lead nowhere -/

/-- The path leads to an object of the type; `/` leads to the root directory. -/
def ResolvesTo (es : List Entry) (path : List UInt8) (type : UInt8) : Prop :=
  if path = [SLASH] then type = DIRECTORY_TYPE
  else ∃ d i e, parentOf es path = some d ∧ child es type d (baseName path) = some (i, e)

/-- The walk gets to the last component, and a search for it comes to an end. -/
structure ReachesLast (g : Geometry) (img : Image) (path : List UInt8) : Prop where
  directories : ∃ d, parentOf (entriesSeen g img) path = some d
  fits : ∀ c ∈ components path, c.length ≤ 217
  ends : tableEnd g img = .ok ()

/-- `path_resolver` returns with `not_found` set. -/
def NotFound (g : Geometry) (img : Image) (path : List UInt8) (type : UInt8) : Prop :=
  ∃ r, pathResolver g img path type = .ok r ∧ r.not_found = true

section NotFound

variable {g : Geometry} {img : Image} {es : List Entry} {path : List UInt8} {type : UInt8}

theorem descend_append {names names' : List (List UInt8)} {parent : Entry} :
    descend es parent (names ++ names')
      = (descend es parent names).bind fun d => descend es d names' := by
  rw [descend, List.foldlM_append]
  rfl

/-- When all directories of a path exist, the walk meets every component. -/
theorem not_meetsLong_of_parentOf {d : Entry} (hd : parentOf es path = some d) :
    ¬ MeetsLong es rootParent (components path) ↔ ∀ c ∈ components path, c.length ≤ 217 := by
  constructor
  · intro hshort c hc
    obtain ⟨k, hk⟩ := List.mem_iff_getElem?.mp hc
    by_contra hlong
    have hklt : k < (components path).length := (List.getElem?_eq_some_iff.mp hk).1
    -- the components in front of number `k` are among those in front of the last
    have htake : (components path).dropLast.take k = (components path).take k := by
      rw [List.dropLast_eq_take, List.take_take, Nat.min_eq_left (by omega)]
    rw [parentOf, ← List.take_append_drop k (components path).dropLast, htake,
      descend_append] at hd
    obtain ⟨d', hd', -⟩ := Option.bind_eq_some_iff.mp hd
    exact hshort ⟨k, c, d', hk, hd', by simp only [FILENAME_LEN]; omega⟩
  · rintro hall ⟨k, c, d', hc, -, hlong⟩
    have hle := hall c (List.mem_of_getElem? hc)
    simp only [FILENAME_LEN] at hlong
    omega

/-- `path_resolver` reports the last component as missing exactly when it gets there and finds
nothing. -/
theorem notFound_iff (hpath : path ≠ [SLASH]) :
    NotFound g img path type
      ↔ ReachesLast g img path ∧ ¬ ResolvesTo (entriesSeen g img) path type := by
  have hroot : ¬ RootPath path type := fun h => hpath h.1
  rw [ResolvesTo, if_neg hpath]
  by_cases hlong : MeetsLong (entriesSeen g img) rootParent (components path)
  · -- the walk overruns `name`
    have hover : pathResolver g img path type = .error .overrun :=
      (pathResolver_overrun_iff hroot).mpr hlong
    constructor
    · rintro ⟨r, hr, -⟩
      rw [hover] at hr
      cases hr
    · rintro ⟨⟨⟨d, hd⟩, hfits, -⟩, -⟩
      exact absurd hlong ((not_meetsLong_of_parentOf hd).mpr hfits)
  have hres := pathResolver_short hroot hlong
  cases hd : parentOf (entriesSeen g img) path with
  | none =>
      simp only [hd] at hres
      constructor
      · rintro ⟨r, hr, hnf⟩
        rw [hres] at hr
        cases hfin : tableEnd g img with
        | error e => simp [hfin, Except.map] at hr
        | ok u =>
            simp only [hfin, Except.map, Except.ok.injEq] at hr
            rw [← hr] at hnf
            cases hnf
      · rintro ⟨⟨⟨d, hd'⟩, -, -⟩, -⟩
        rw [hd] at hd'
        cases hd'
  | some d =>
      have hfits := (not_meetsLong_of_parentOf hd).mp hlong
      simp only [hd] at hres
      -- the parent is there, so the look-up in it decides, unless the table has no end
      cases hc : child (entriesSeen g img) type d (baseName path) with
      | some found =>
          obtain ⟨i, e⟩ := found
          simp only [hc] at hres
          constructor
          · rintro ⟨r, hr, hnf⟩
            rw [hres] at hr
            rw [← Except.ok.inj hr] at hnf
            cases hnf
          · rintro ⟨-, hno⟩
            exact absurd ⟨d, i, e, rfl, hc⟩ hno
      | none =>
          simp only [hc] at hres
          have hno : ¬ ∃ d' i e, some d = some d' ∧
              child (entriesSeen g img) type d' (baseName path) = some (i, e) := by
            rintro ⟨d', i, e, hd', hc'⟩
            obtain rfl := Option.some.inj hd'
            rw [hc] at hc'
            cases hc'
          cases hfin : tableEnd g img with
          | error e =>
              constructor
              · rintro ⟨r, hr, -⟩
                rw [hres, hfin] at hr
                cases hr
              · rintro ⟨⟨-, -, hends⟩, -⟩
                rw [hfin] at hends
                cases hends
          | ok u =>
              rw [hfin] at hres
              exact ⟨fun _ => ⟨⟨⟨d, hd⟩, hfits, hfin⟩, hno⟩, fun _ => ⟨_, hres, rfl⟩⟩

/-- `/` is never reported as not found. -/
theorem not_notFound_root (htype : type = FILE_TYPE ∨ type = DIRECTORY_TYPE) :
    ¬ NotFound g img [SLASH] type := by
  rintro ⟨r, hr, hnf⟩
  rcases htype with rfl | rfl
  · rw [pathResolver, if_neg (by decide), if_pos ⟨rfl, rfl⟩] at hr
    rw [← Except.ok.inj hr] at hnf
    cases hnf
  · rw [pathResolver, if_pos ⟨rfl, rfl⟩] at hr
    rw [← Except.ok.inj hr] at hnf
    cases hnf

/-- Of the paths that lead nowhere, those are reported whose last component is reached. -/
theorem notFound_iff_of_not_resolvesTo (htype : type = FILE_TYPE ∨ type = DIRECTORY_TYPE)
    (hno : ¬ ResolvesTo (entriesSeen g img) path type) :
    NotFound g img path type ↔ path ≠ [SLASH] ∧ ReachesLast g img path := by
  by_cases hpath : path = [SLASH]
  · subst hpath
    simp [not_notFound_root htype]
  · rw [notFound_iff hpath]
    simp [hno, hpath]

end NotFound

/-! ## Tables of sound volumes -/

section Sound

variable {g : Geometry} (hg : g.Sound) {img : Image} (hlen : img.length = g.imgsize)
  {es : List Entry} (h : Listed g img es)
include hg hlen h

theorem seenFrom_listed (n : Nat) :
    ∀ i, i ≤ es.length → i + n = g.entries → seenFrom g img n i = es.drop i := by
  have hfits := h.fits
  induction n with
  | zero =>
      intro i hi hn
      rw [seenFrom, List.drop_of_length_le (by omega)]
  | succ n ih =>
      intro i hi hn
      rw [seenFrom, rdEntry_lt hg hlen (by omega)]
      by_cases hslot : i < es.length
      · have hget : es[i]? = some es[i] := List.getElem?_eq_getElem hslot
        rw [h.stored i _ hget, List.drop_eq_getElem_cons hslot]
        simp only [if_neg (h.used _ (List.getElem_mem hslot)), ih (i + 1) (by omega) (by omega)]
      · obtain rfl : i = es.length := by omega
        simp [h.stop (by omega)]

/-- On a sound volume the entries seen are those in front of the end of the directory. -/
theorem entriesSeen_listed : entriesSeen g img = es := by
  have hlt := entries_lt hg
  rw [entriesSeen, u64_of_lt (by omega)]
  exact seenFrom_listed hg hlen h g.entries 0 (Nat.zero_le _) (Nat.zero_add _)

/-- A search without a match ends on a sound volume unless the table is full. -/
theorem tableEnd_listed : tableEnd g img =
    if es.length < g.entries then .ok () else .error .readOutOfBounds := by
  rw [tableEnd, entriesSeen_listed hg hlen h]
  by_cases hslot : es.length < g.entries
  · rw [rdEntry_lt hg hlen hslot, if_pos hslot]
    rfl
  · have hfits := h.fits
    have heq : es.length = g.entries := by omega
    rw [heq, rdEntry_end hg hlen, if_neg (lt_irrefl _)]
    rfl

end Sound

end Windozz.Echfs

import Windozz.Echfs.Unfinished

set_option autoImplicit false

/-! # The loop at label `subdir` of `import_cmd`

The loop reads the destination component by component into `newdirname`. At each separator it makes
the directory so far and resolves the whole destination again. On a volume made by `format`, `mkdir`
and `import` a component that exists leaves everything as it is. The first one that does not is made,
and so are all behind it, for a new directory has no entries. The loop ends when the last directory
is there; before that it may run out of `newdirname`, a new directory may be followed by a component
that does not fit into `name`, and the table may become full (`LoopEnds`).
-/

namespace Windozz.Echfs

/-! ## Components -/

section Split

variable {path c : List UInt8}

/-- Components are separated by the separators. -/
theorem slash_notMem_of_mem_splitOn (h : c ∈ path.splitOn SLASH) : SLASH ∉ c := by
  induction path generalizing c with
  | nil =>
      rw [List.splitOn_nil, List.mem_singleton] at h
      rw [h]
      exact List.not_mem_nil
  | cons x path ih =>
      rw [List.splitOn_cons_eq_if_modifyHead] at h
      by_cases hx : x = SLASH
      · rw [if_pos (by simpa using hx)] at h
        rcases List.mem_cons.mp h with rfl | h
        · exact List.not_mem_nil
        · exact ih h
      · rw [if_neg (by simpa using hx)] at h
        cases hsplit : path.splitOn SLASH with
        | nil => exact absurd hsplit (List.splitOn_ne_nil _ _)
        | cons n ns =>
            rw [hsplit] at h ih
            rcases List.mem_cons.mp h with rfl | h
            · have hn := ih (List.mem_cons_self)
              simp [hn, Ne.symm hx]
            · exact ih (List.mem_cons_of_mem _ h)

/-- A leading separator is dropped. -/
theorem components_slash (q : List UInt8) : components (SLASH :: q) = q.splitOn SLASH := by
  rw [components, relative, if_pos rfl]

/-- Without a leading separator a path is split at all its separators. -/
theorem components_eq_splitOn (h : path.head? ≠ some SLASH) : components path = path.splitOn SLASH := by
  cases path with
  | nil => rfl
  | cons x path => rw [components, relative, if_neg fun hx => h (congrArg some hx)]

/-- A path without a separator is its only component. -/
theorem components_single (h : SLASH ∉ c) : components c = [c] := by
  have hhead : c.head? ≠ some SLASH := fun hc => h (List.mem_of_mem_head? hc)
  rw [components_eq_splitOn hhead, List.splitOn_eq_singleton h]

end Split

/-! ## Walks from a directory on -/

/-- What `path_resolver` returns in front of a directory that does not exist. -/
def PathResult.lost : PathResult := { PathResult.init with failure := true }

section Walks

variable {es l : List Entry} {fin : Except Fault Unit} {type : UInt8} {parent d : Entry}
  {done names : List (List UInt8)} {name : List UInt8} {i : Nat}

theorem child_append (h : child es type parent name = some (i, d)) :
    child (es ++ l) type parent name = some (i, d) := by
  obtain ⟨hl, hd⟩ := child_eq_some.mp h
  have hlt := (List.getElem?_eq_some_iff.mp hd).1
  exact child_eq_some.mpr ⟨lookup_append hl, by rwa [List.getElem?_append_left hlt]⟩

theorem descend_nil : descend es parent [] = some parent := rfl

theorem descend_kept (h : descend es parent names = some d) :
    descend (es ++ l) parent names = some d := by
  induction names generalizing parent with
  | nil => exact h
  | cons name names ih =>
      rw [descend_cons] at h ⊢
      obtain ⟨⟨i, d'⟩, hc, hd⟩ := Option.bind_eq_some_iff.mp h
      rw [child_append hc]
      exact ih hd

/-- `path_resolver` behind directories that exist. -/
theorem resolveNames_append (hne : names ≠ []) (hd : descend es parent done = some d)
    (hshort : ∀ n ∈ done, n.length < FILENAME_LEN) :
    resolveNames es fin type (done ++ names) parent = resolveNames es fin type names d := by
  induction done generalizing parent with
  | nil =>
      obtain rfl := Option.some.inj hd
      rfl
  | cons n done ih =>
      rw [descend_cons] at hd
      obtain ⟨⟨i, d'⟩, hc, hd'⟩ := Option.bind_eq_some_iff.mp hd
      have hn := hshort n List.mem_cons_self
      rw [List.cons_append, resolveNames_cons (List.append_ne_nil_of_right_ne_nil _ hne),
        if_neg (not_le.mpr hn), hc]
      exact ih hd' fun n hn => hshort n (List.mem_cons_of_mem _ hn)

/-- The directories of `names` that exist in front of the first one that does not. -/
def existing (es : List Entry) : Entry → List (List UInt8) → Nat
  | _, [] => 0
  | parent, name :: names =>
      match child es DIRECTORY_TYPE parent name with
      | none => 0
      | some (_, d) => existing es d names + 1

theorem existing_missing (h : child es DIRECTORY_TYPE parent name = none) :
    existing es parent (name :: names) = 0 := by
  rw [existing, h]

theorem existing_cons (h : child es DIRECTORY_TYPE parent name = some (i, d)) :
    existing es parent (name :: names) = existing es d names + 1 := by
  rw [existing, h]

/-- A walk gets stuck at a component that fits, with others behind it. -/
theorem resolveNames_lost (h : resolveNames es (.ok ()) type names parent = .ok PathResult.lost) :
    ∃ c c' ns, names = c :: c' :: ns ∧ c.length < FILENAME_LEN ∧
      ∀ i d, child es DIRECTORY_TYPE parent c = some (i, d) →
        resolveNames es (.ok ()) type (c' :: ns) d = .ok PathResult.lost := by
  -- at the last component the walk reports `not_found` or succeeds, so there is another one behind
  match names, h with
  | [], h =>
      have hfail := congrArg PathResult.failure (Except.ok.inj h)
      cases hfail
  | [c], h =>
      rw [resolveNames] at h
      by_cases hlong : FILENAME_LEN ≤ c.length
      · rw [if_pos hlong] at h
        cases h
      · rw [if_neg hlong] at h
        cases hc : child es type parent c with
        | none =>
            rw [hc] at h
            have hfail := congrArg PathResult.failure (Except.ok.inj h)
            cases hfail
        | some found =>
            rw [hc] at h
            have hfail := congrArg PathResult.failure (Except.ok.inj h)
            cases hfail
  | c :: c' :: ns, h =>
      rw [resolveNames_cons (List.cons_ne_nil _ _)] at h
      by_cases hlong : FILENAME_LEN ≤ c.length
      · rw [if_pos hlong] at h
        cases h
      · rw [if_neg hlong] at h
        refine ⟨c, c', ns, rfl, not_le.mp hlong, fun i d hc => ?_⟩
        rw [hc] at h
        exact h

/-- A walk that gets stuck does so in front of the last component. -/
theorem existing_lt (h : resolveNames es (.ok ()) type names parent = .ok PathResult.lost) :
    existing es parent names.dropLast + 1 < names.length := by
  induction names generalizing parent with
  | nil =>
      obtain ⟨_, _, _, hnames, -⟩ := resolveNames_lost h
      cases hnames
  | cons c names ih =>
      obtain ⟨_, c', ns, hnames, -, hnext⟩ := resolveNames_lost h
      obtain ⟨rfl, rfl⟩ := List.cons.inj hnames
      rw [List.dropLast_cons_of_ne_nil (List.cons_ne_nil _ _), List.length_cons]
      cases hc : child es DIRECTORY_TYPE parent c with
      | none =>
          rw [existing_missing hc]
          simp
      | some found =>
          obtain ⟨i, d⟩ := found
          rw [existing_cons hc]
          exact Nat.succ_lt_succ (ih (hnext i d hc))

end Walks

/-! ## New directories -/

/-- No entry has the directory for its parent. -/
def Childless (es : List Entry) (d : Entry) : Prop :=
  ∀ (type : UInt8) (name : List UInt8), child es type d name = none

namespace Volume

variable {g : Geometry} {img : Image} {es : List Entry} {path c : List UInt8} {type : UInt8}
  {done : List (List UInt8)} {d : Entry} (h : Volume g img es)
include h

/-- `path_resolver` on a volume. -/
theorem pathResolver_eq_names (hroot : ¬ RootPath path type) :
    pathResolver g img path type =
      resolveNames es (if es.length < g.entries then .ok () else .error .readOutOfBounds) type
        (components path) rootParent := by
  have hg := h.formatted.sound
  have hlen := h.formatted.length_eq
  rw [pathResolver_names hroot, entriesSeen_listed hg hlen h.table.listed,
    tableEnd_listed hg hlen h.table.listed]

/-- A directory a walk ends in has an id of its own. -/
theorem walked_ne_freeId (hd : d = rootParent ∨ d ∈ es ∧ d.type = DIRECTORY_TYPE) :
    d.payload ≠ freeId es := by
  obtain ⟨hnew, -, hroot⟩ := h.freeId_new
  rcases hd with rfl | ⟨hmem, htype⟩
  · exact fun heq => hroot heq.symm
  · intro heq
    rw [← heq] at hnew
    exact hnew (mem_dirIds hmem htype)

/-- No entry is in a directory with the next id. -/
theorem parent_ne_freeId {e : Entry} (he : e ∈ es) : e.parent_id ≠ freeId es := by
  obtain ⟨i, hi⟩ := List.mem_iff_getElem?.mp he
  rcases h.tree.parents i e hi with hroot | ⟨j, p, -, hp, htype, hid⟩
  · rw [hroot]
    exact fun heq => h.freeId_new.2.2 heq.symm
  · rw [← hid]
    exact h.walked_ne_freeId (Or.inr ⟨List.mem_of_getElem? hp, htype⟩)

/-- A new directory has no entries. -/
theorem childless_added {e : Entry} (hd : d = rootParent ∨ d ∈ es ∧ d.type = DIRECTORY_TYPE)
    (hparent : e.parent_id = d.payload) (hid : e.payload = freeId es) :
    Childless (es ++ [e]) e := by
  intro type name
  rw [child_eq_none]
  cases hl : lookup (es ++ [e]) name e.payload type with
  | none => rfl
  | some i =>
      obtain ⟨f, hf, hfparent, -⟩ := lookup_some hl
      rw [hid] at hfparent
      rcases List.mem_append.mp (List.mem_of_getElem? hf) with hmem | hmem
      · exact absurd hfparent (h.parent_ne_freeId hmem)
      · rw [List.mem_singleton] at hmem
        rw [hmem, hparent] at hfparent
        exact absurd hfparent (h.walked_ne_freeId hd)

/-- `mkdir` of a component that exists, in a directory that does. -/
theorem mkdirCmd_existing (now : UInt64) {i : Nat} {e : Entry} (hcomp : components path = done ++ [c])
    (hd : descend es rootParent done = some d) (hshort : ∀ n ∈ done, n.length < FILENAME_LEN)
    (hc : c.length < FILENAME_LEN) (hchild : child es DIRECTORY_TYPE d c = some (i, e)) :
    mkdirCmd g now [path] img = (.ok .directoryExists, img) := by
  by_cases hpath : path = [SLASH]
  · subst hpath
    rfl
  · rw [mkdirCmd, h.pathResolver_eq_names fun hroot => hpath hroot.1, hcomp,
      resolveNames_append (List.cons_ne_nil _ _) hd hshort, resolveNames, if_neg (not_le.mpr hc),
      hchild]
    rfl

/-- `mkdir` of a component that does not exist, in a directory that does. -/
theorem mkdirCmd_missing (now : UInt64) (hslot : es.length < g.entries) (h0 : 0 ∉ path)
    (hpath : path ≠ [SLASH]) (hcomp : components path = done ++ [c])
    (hd : descend es rootParent done = some d) (hshort : ∀ n ∈ done, n.length < FILENAME_LEN)
    (hc : c.length < FILENAME_LEN) (hchild : child es DIRECTORY_TYPE d c = none) :
    ∃ img' e, mkdirCmd g now [path] img = (.ok .created, img') ∧ Volume g img' (es ++ [e]) ∧
      SameData g img img' ∧ e.type = DIRECTORY_TYPE ∧ e.name.cstr = c ∧ e.parent_id = d.payload ∧
      child (es ++ [e]) DIRECTORY_TYPE d c = some (es.length, e) ∧ Childless (es ++ [e]) e := by
  have hparent : parentOf es path = some d := by
    rw [parentOf, hcomp, List.dropLast_concat]
    exact hd
  have hbase : baseName path = c := by
    rw [baseName, hcomp, List.getLast?_concat]
    rfl
  have hfits : ∀ n ∈ components path, n.length < FILENAME_LEN := by
    rw [hcomp]
    exact List.forall_mem_append.mpr ⟨hshort, List.forall_mem_singleton.mpr hc⟩
  have hw : walk es (relative path) [] rootParent = some (d, c) := by
    rw [walk_path hfits, hparent, hbase]
    rfl
  have hnew := child_eq_none.mp hchild
  obtain ⟨-, -, hnul, hp⟩ := walk_some hw
  have hname : (directoryEntry d.payload c (freeId es) now).name.cstr = c :=
    NameField.cstr_store hc (hnul List.not_mem_nil (relative_nul h0))
  obtain ⟨hvol, hsame⟩ := h.addEntry (e := directoryEntry d.payload c (freeId es) now) hslot
    (relative_nul h0) hw rfl rfl hnew fun _ => rfl
  refine ⟨_, _, h.mkdirCmd_created now [] hpath hslot hw hnew, hvol, hsame, rfl, hname, rfl, ?_,
    h.childless_added hp rfl rfl⟩
  exact child_eq_some.mpr ⟨lookup_added hnew rfl rfl hname, List.getElem?_concat_length⟩

end Volume

/-! ## One round of the loop -/

section Round

variable {g : Geometry} {clock : Nat → UInt64} {argv4 c rest newdirname : List UInt8} {img : Image}

/-- The loop reads a component up to its separator. -/
theorem makeDirs_component (hc : SLASH ∉ c) :
    makeDirs g clock argv4 (c ++ SLASH :: rest) newdirname img =
      if NEWDIRNAME_LEN ≤ newdirname.length + c.length then (.error .overrun, img)
      else makeDirs g clock argv4 (SLASH :: rest) (newdirname ++ c) img := by
  induction c generalizing newdirname with
  | nil =>
      rw [List.nil_append, List.append_nil, List.length_nil, Nat.add_zero]
      by_cases hlen : NEWDIRNAME_LEN ≤ newdirname.length
      · rw [if_pos hlen, makeDirs, if_pos hlen]
      · rw [if_neg hlen]
  | cons x c ih =>
      have hx : ¬ x = SLASH := fun hx => hc (hx ▸ List.mem_cons_self)
      have hrest : SLASH ∉ c := fun hmem => hc (List.mem_cons_of_mem _ hmem)
      rw [List.cons_append, makeDirs, if_neg hx, ih hrest, List.append_assoc, List.length_append,
        List.length_cons, List.length_cons, List.length_nil]
      by_cases hlen : NEWDIRNAME_LEN ≤ newdirname.length
      · rw [if_pos hlen, if_pos (by omega)]
      · rw [if_neg hlen, Nat.zero_add, Nat.add_assoc, Nat.add_comm 1]
        rfl

/-- The loop goes on behind a separator while a directory of the destination is missing. -/
theorem makeDirs_slash {img' : Image} {report : Report} (hlen : newdirname.length < NEWDIRNAME_LEN)
    (hmk : mkdirCmd g (clock newdirname.length) [newdirname] img = (.ok report, img')) :
    makeDirs g clock argv4 (SLASH :: rest) newdirname img =
      match pathResolver g img' argv4 FILE_TYPE with
      | .error e => (.error e, img')
      | .ok r =>
          if r.failure then makeDirs g clock argv4 rest (newdirname ++ [SLASH]) img'
          else (.ok (), img') := by
  rw [makeDirs, if_neg (not_le.mpr hlen), if_pos rfl]
  cases hresolved : pathResolver g img' argv4 FILE_TYPE with
  | error e => simp only [hmk, hresolved]
  | ok r => simp only [hmk, hresolved]

/-- The loop ends with all directories of the destination there. -/
theorem makeDirs_ok {img' : Image} (rest : List UInt8) :
    ∀ newdirname img, makeDirs g clock argv4 rest newdirname img = (.ok (), img') →
      ∃ r, pathResolver g img' argv4 FILE_TYPE = .ok r ∧ r.failure = false := by
  induction rest with
  | nil =>
      intro newdirname img h
      cases h
  | cons c rest ih =>
      intro newdirname img h
      rw [makeDirs] at h
      by_cases hlen : NEWDIRNAME_LEN ≤ newdirname.length
      · rw [if_pos hlen] at h
        cases h
      · rw [if_neg hlen] at h
        by_cases hc : c = SLASH
        · rw [if_pos hc] at h
          split at h
          · cases h
          · split at h
            · cases h
            · -- the loop ends in one place only, right after a look-up that does not fail
              rename_i hres
              split at h
              · exact ih _ _ h
              · rename_i hfail
                obtain ⟨-, rfl⟩ := Prod.mk.inj h
                exact ⟨_, hres, by simpa using hfail⟩
        · rw [if_neg hc] at h
          exact ih _ _ h

end Round

/-! ## How the loop ends -/

/-- Reading on from `start` up to the separator behind component `k` overruns `newdirname`, or the
component behind it overruns `name`. -/
def LeavesBuffers (start : Nat) (names : List (List UInt8)) (k : Nat) : Prop :=
  NEWDIRNAME_LEN ≤ start + ((names.take (k + 1)).map List.length).sum + k ∨
    ∃ c, names[k + 1]? = some c ∧ FILENAME_LEN ≤ c.length

/-- One of the directories from number `j` on leaves the buffers, and there is room in the table to
get that far: `n` entries are used, and directory `j` is the first one made. -/
def Escapes (g : Geometry) (n start : Nat) (names : List (List UInt8)) (j : Nat) : Prop :=
  ∃ k, j ≤ k ∧ k + 1 < names.length ∧ n + (k - j) < g.entries ∧ LeavesBuffers start names k

/-- The directories `ds` have the names `names` and are nested, the first one in `d`. -/
def Nested : Entry → List (List UInt8) → List Entry → Prop
  | _, [], [] => True
  | d, name :: names, e :: ds =>
      e.type = DIRECTORY_TYPE ∧ e.name.cstr = name ∧ e.parent_id = d.payload ∧ Nested e names ds
  | _, _, _ => False

/-- How the loop ends that has the components `names` still to read and is in the directory `d`. -/
inductive LoopEnds (g : Geometry) (img : Image) (es : List Entry) (start : Nat)
    (names : List (List UInt8)) (d : Entry) : Except Fault Unit × Image → Prop
  | overrun {img' : Image}
      (hescapes : Escapes g es.length start names (existing es d names.dropLast)) :
      LoopEnds g img es start names d (.error .overrun, img')
  | full {img' : Image}
      (hstays : ¬ Escapes g es.length start names (existing es d names.dropLast))
      (hfull : g.entries + existing es d names.dropLast + 1 ≤ es.length + names.length) :
      LoopEnds g img es start names d (.error .readOutOfBounds, img')
  | made {img' : Image} {ds : List Entry} {p : Entry}
      (hstays : ¬ Escapes g es.length start names (existing es d names.dropLast))
      (hroom : es.length + names.length < g.entries + existing es d names.dropLast + 1)
      (hvol : Volume g img' (es ++ ds)) (hsame : SameData g img img')
      (hp : descend es d (names.dropLast.take (existing es d names.dropLast)) = some p)
      (hnested : Nested p (names.dropLast.drop (existing es d names.dropLast)) ds) :
      LoopEnds g img es start names d (.ok (), img')

section Ends

variable {g : Geometry} {start n j k : Nat} {c : List UInt8} {names : List (List UInt8)}

theorem leavesBuffers_succ :
    LeavesBuffers start (c :: names) (k + 1) ↔ LeavesBuffers (start + c.length + 1) names k := by
  rw [LeavesBuffers, LeavesBuffers, List.take_succ_cons, List.map_cons, List.sum_cons,
    List.getElem?_cons_succ]
  have hpos : start + (c.length + ((names.take (k + 1)).map List.length).sum) + (k + 1)
      = start + c.length + 1 + ((names.take (k + 1)).map List.length).sum + k := by omega
  rw [hpos]

/-- A component that exists is passed. -/
theorem escapes_existing :
    Escapes g n start (c :: names) (j + 1) ↔ Escapes g n (start + c.length + 1) names j := by
  constructor
  · rintro ⟨k, hj, hk, hroom, hleaves⟩
    obtain ⟨k, rfl⟩ : ∃ k', k = k' + 1 := ⟨k - 1, by omega⟩
    rw [List.length_cons] at hk
    exact ⟨k, by omega, by omega, by omega, leavesBuffers_succ.mp hleaves⟩
  · rintro ⟨k, hj, hk, hroom, hleaves⟩
    exact ⟨k + 1, by omega, by rw [List.length_cons]; omega, by omega,
      leavesBuffers_succ.mpr hleaves⟩

/-- A component that is made without harm takes an entry. -/
theorem escapes_missing (hstays : ¬ LeavesBuffers start (c :: names) 0) :
    Escapes g n start (c :: names) 0 ↔ Escapes g (n + 1) (start + c.length + 1) names 0 := by
  constructor
  · rintro ⟨k, -, hk, hroom, hleaves⟩
    cases k with
    | zero => exact absurd hleaves hstays
    | succ k =>
        rw [List.length_cons] at hk
        exact ⟨k, Nat.zero_le _, by omega, by omega, leavesBuffers_succ.mp hleaves⟩
  · rintro ⟨k, -, hk, hroom, hleaves⟩
    exact ⟨k + 1, Nat.zero_le _, by rw [List.length_cons]; omega, by omega,
      leavesBuffers_succ.mpr hleaves⟩

/-- A separator out of reach is out of reach for all components behind it. -/
theorem leavesBuffers_far (h : NEWDIRNAME_LEN ≤ start + c.length) :
    LeavesBuffers start (c :: names) k := by
  left
  rw [List.take_succ_cons, List.map_cons, List.sum_cons]
  omega

end Ends

end Windozz.Echfs

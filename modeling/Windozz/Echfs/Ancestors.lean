import Windozz.Echfs.Subdir

set_option autoImplicit false

/-! # The missing directories of a destination

The loop at `subdir` passes the directories that exist and makes those that do not
(`makeDirs_ends`). It reads the whole of `argv[4]`, the separator in front of the path included,
which `path_resolver` drops: of a path with a leading separator the first directory made has an
empty name.
-/

namespace Windozz.Echfs

open Relation

/-! ## The position of the loop -/

/-- `newdirname` is what has been read of `path`: the components `done`, each with the separator
behind it. The components `names` are still to read. -/
structure Reading (path newdirname : List UInt8) (done names : List (List UInt8)) : Prop where
  split : newdirname ++ [SLASH].intercalate names = path
  slash_free : ∀ c ∈ names, SLASH ∉ c
  relative : newdirname = [] → path.head? ≠ some SLASH
  splits : ∀ q, (newdirname = [] → q.head? ≠ some SLASH) →
    components (newdirname ++ q) = done ++ q.splitOn SLASH

section Reading

variable {path newdirname c c' : List UInt8} {done names : List (List UInt8)}

/-- A component and those behind it. -/
theorem intercalate_slash : [SLASH].intercalate (c :: c' :: names)
    = c ++ SLASH :: [SLASH].intercalate (c' :: names) := by
  rw [List.intercalate_cons_cons, List.append_assoc]
  rfl

/-- A path without a leading separator is read from its start. -/
theorem Reading.start (h : path.head? ≠ some SLASH) : Reading path [] [] (components path) := by
  refine ⟨?_, ?_, fun _ => h, fun q hq => components_eq_splitOn (hq rfl)⟩
  · rw [components_eq_splitOn h, List.nil_append, List.intercalate_splitOn]
  · rw [components_eq_splitOn h]
    exact fun c hc => slash_notMem_of_mem_splitOn hc

/-- A path with a leading separator is read from behind it. -/
theorem Reading.startSlash (q : List UInt8) :
    Reading (SLASH :: q) [SLASH] [] (components (SLASH :: q)) := by
  refine ⟨?_, ?_, fun h => (List.cons_ne_nil _ _ h).elim, fun p _ => components_slash p⟩
  · rw [components_slash, List.intercalate_splitOn]
    rfl
  · rw [components_slash]
    exact fun c hc => slash_notMem_of_mem_splitOn hc

/-- All components of the path are read or still to read. -/
theorem Reading.whole (h : Reading path newdirname done names) (hne : names ≠ []) :
    components path = done ++ names := by
  have hcomp := h.splits ([SLASH].intercalate names)
  rw [h.split] at hcomp
  rw [hcomp ?_, List.splitOn_intercalate _ h.slash_free hne]
  intro hnil
  have hsplit := h.split
  rw [hnil, List.nil_append] at hsplit
  rw [hsplit]
  exact h.relative hnil

/-- The directory made at the next separator. -/
theorem Reading.directory (h : Reading path newdirname done (c :: names)) :
    components (newdirname ++ c) = done ++ [c] := by
  have hc := h.slash_free c List.mem_cons_self
  rw [h.splits c fun _ hhead => hc (List.mem_of_mem_head? hhead), List.splitOn_eq_singleton hc]

/-- The loop gets behind a component and its separator. -/
theorem Reading.next (h : Reading path newdirname done (c :: c' :: names)) :
    Reading path (newdirname ++ c ++ [SLASH]) (done ++ [c]) (c' :: names) := by
  have hne : newdirname ++ c ++ [SLASH] ≠ [] := List.append_ne_nil_of_right_ne_nil _ (by simp)
  have hc := h.slash_free c List.mem_cons_self
  refine ⟨?_, fun n hn => h.slash_free n (List.mem_cons_of_mem _ hn),
    fun hnil => absurd hnil hne, fun q _ => ?_⟩
  · rw [← h.split, intercalate_slash]
    simp
  · have hsplit : (c ++ SLASH :: q).splitOn SLASH = c :: q.splitOn SLASH := by
      rw [List.splitOn_append_cons_self, List.splitOn_eq_singleton hc]
      rfl
    rw [List.append_assoc, List.append_assoc, List.singleton_append, h.splits _ ?_, hsplit,
      List.append_assoc]
    · rfl
    · -- an empty component would be the leading separator of the path
      intro hnil hhead
      have hsplit := h.split
      rw [hnil, List.nil_append, intercalate_slash] at hsplit
      apply h.relative hnil
      rw [← hsplit]
      cases c with
      | nil => rfl
      | cons x c => exact hhead

/-- The directory `/` is made for an empty component behind a leading separator. -/
theorem Reading.directory_slash (h : Reading path newdirname done (c :: names))
    (heq : newdirname ++ c = [SLASH]) : path.head? = some SLASH ∧ done = [] ∧ c = [] := by
  have hc := h.slash_free c List.mem_cons_self
  rcases List.append_eq_singleton_iff.mp heq with ⟨-, rfl⟩ | ⟨rfl, rfl⟩
  · exact absurd List.mem_cons_self hc
  · refine ⟨?_, ?_, rfl⟩
    · rw [← h.split]
      rfl
    · have hlen := congrArg List.length h.directory
      rw [List.length_append, List.append_nil, components_slash, List.splitOn_nil] at hlen
      exact List.length_eq_zero_iff.mp (by simpa using hlen.symm)

end Reading

/-! ## How the loop ends -/

section Ends

variable {g : Geometry} {img img' : Image} {es : List Entry} {start i : Nat} {c c' : List UInt8}
  {names : List (List UInt8)} {d d' e : Entry} {run : Except Fault Unit × Image}

/-- Behind a directory that exists the loop ends as it does from there. -/
theorem LoopEnds.passed (hc : child es DIRECTORY_TYPE d c = some (i, d'))
    (h : LoopEnds g img es (start + c.length + 1) (c' :: names) d' run) :
    LoopEnds g img es start (c :: c' :: names) d run := by
  have hdrop : (c :: c' :: names).dropLast = c :: (c' :: names).dropLast :=
    List.dropLast_cons_of_ne_nil (List.cons_ne_nil _ _)
  have hcount : existing es d (c :: c' :: names).dropLast
      = existing es d' (c' :: names).dropLast + 1 := by
    rw [hdrop, existing_cons hc]
  have hlen : (c :: c' :: names).length = (c' :: names).length + 1 := List.length_cons
  cases h with
  | overrun hescapes =>
      apply LoopEnds.overrun
      rw [hcount]
      exact escapes_existing.mpr hescapes
  | full hstays hfull =>
      apply LoopEnds.full
      · rw [hcount]
        exact fun hescapes => hstays (escapes_existing.mp hescapes)
      · rw [hcount, hlen]
        omega
  | @made _ _ p hstays hroom hvol hsame hp hnested =>
      refine LoopEnds.made ?_ ?_ hvol hsame (p := p) ?_ ?_
      · rw [hcount]
        exact fun hescapes => hstays (escapes_existing.mp hescapes)
      · rw [hcount, hlen]
        omega
      · rw [hcount, hdrop, List.take_succ_cons, descend_cons, hc]
        exact hp
      · rw [hcount, hdrop, List.drop_succ_cons]
        exact hnested

/-- Behind a directory it has made the loop ends as it does from there. -/
theorem LoopEnds.added (hc : child es DIRECTORY_TYPE d c = none)
    (hstays : ¬ LeavesBuffers start (c :: c' :: names) 0) (hsame : SameData g img img')
    (htype : e.type = DIRECTORY_TYPE) (hname : e.name.cstr = c) (hparent : e.parent_id = d.payload)
    (hnew : Childless (es ++ [e]) e)
    (h : LoopEnds g img' (es ++ [e]) (start + c.length + 1) (c' :: names) e run) :
    LoopEnds g img es start (c :: c' :: names) d run := by
  have hdrop : (c :: c' :: names).dropLast = c :: (c' :: names).dropLast :=
    List.dropLast_cons_of_ne_nil (List.cons_ne_nil _ _)
  have hnone : existing es d (c :: c' :: names).dropLast = 0 := by
    rw [hdrop, existing_missing hc]
  have hnone' : existing (es ++ [e]) e (c' :: names).dropLast = 0 := by
    cases names with
    | nil => rfl
    | cons n names => exact existing_missing (hnew _ _)
  have hlen : (es ++ [e]).length = es.length + 1 := List.length_append
  -- the directory counts as made in the first round, so each end is the same one counted from there
  cases h with
  | overrun hescapes =>
      rw [hnone', hlen] at hescapes
      apply LoopEnds.overrun
      rw [hnone]
      exact (escapes_missing hstays).mpr hescapes
  | full hstays' hfull =>
      rw [hnone', hlen] at hstays' hfull
      apply LoopEnds.full
      · rw [hnone]
        exact fun hescapes => hstays' ((escapes_missing hstays).mp hescapes)
      · rw [hnone, List.length_cons]
        omega
  | made hstays' hroom hvol hsame' hp hnested =>
      rw [hnone', hlen] at hstays' hroom
      rw [hnone', List.take_zero] at hp
      obtain rfl := Option.some.inj hp
      rw [hnone', List.drop_zero] at hnested
      rw [List.append_assoc, List.singleton_append] at hvol
      refine LoopEnds.made ?_ ?_ hvol (hsame.trans hsame') (p := d) ?_ ?_
      · rw [hnone]
        exact fun hescapes => hstays' ((escapes_missing hstays).mp hescapes)
      · rw [hnone, List.length_cons]
        omega
      · rw [hnone, List.take_zero]
        rfl
      · rw [hnone, hdrop, List.drop_zero]
        exact ⟨htype, hname, hparent, hnested⟩

end Ends

/-! ## The loop over the components -/

section Loop

variable {g : Geometry} {img : Image} {es : List Entry} {fin : Except Fault Unit} {type : UInt8}
  {path newdirname c c' : List UInt8} {done names : List (List UInt8)} {d e parent : Entry} {i : Nat}

theorem descend_concat (hd : descend es parent done = some d)
    (hc : child es DIRECTORY_TYPE d c = some (i, e)) :
    descend es parent (done ++ [c]) = some e := by
  rw [descend_append, hd, Option.bind_some, descend_cons, hc]
  rfl

/-- `path_resolver` in a directory without entries. -/
theorem resolveNames_childless (hnew : Childless es e) (hc : c.length < FILENAME_LEN) :
    resolveNames es fin type (c :: names) e =
      fin.map fun _ => if names = [] then PathResult.missing e c else PathResult.lost := by
  cases names with
  | nil =>
      rw [resolveNames, if_neg (not_le.mpr hc), hnew]
      rfl
  | cons n names =>
      rw [resolveNames_cons (List.cons_ne_nil _ _), if_neg (not_le.mpr hc), hnew]
      rfl

/-- A component in reach is passed if the one behind it fits into `name`. -/
theorem not_leavesBuffers_zero (names : List (List UInt8)) {start : Nat} (hnear : start + c.length < NEWDIRNAME_LEN)
    (hc : c'.length < FILENAME_LEN) : ¬ LeavesBuffers start (c :: c' :: names) 0 := by
  rintro (hfar | ⟨n, hn, hlong⟩)
  · rw [List.take_succ_cons, List.take_zero, List.map_cons, List.sum_cons] at hfar
    simp only [List.map_nil, List.sum_nil] at hfar
    omega
  · obtain rfl := Option.some.inj hn
    omega

/-- The round in which a directory is made, with `next` for the rounds behind it. -/
theorem LoopEnds.round {img' : Image} {start : Nat} {next : Except Fault Unit × Image}
    (hchild : child es DIRECTORY_TYPE d c = none) (hnear : start + c.length < NEWDIRNAME_LEN)
    (hslot : es.length < g.entries) (hvol : Volume g img' (es ++ [e])) (hsame : SameData g img img')
    (htype : e.type = DIRECTORY_TYPE) (hname : e.name.cstr = c) (hparent : e.parent_id = d.payload)
    (hnew : Childless (es ++ [e]) e)
    (hnext : (es ++ [e]).length < g.entries →
      resolveNames (es ++ [e]) (.ok ()) FILE_TYPE (c' :: names) e = .ok PathResult.lost →
      LoopEnds g img' (es ++ [e]) (start + c.length + 1) (c' :: names) e next) :
    LoopEnds g img es start (c :: c' :: names) d
      (match resolveNames (es ++ [e])
          (if es.length + 1 < g.entries then .ok () else .error .readOutOfBounds) FILE_TYPE
          (c' :: names) e with
      | .error e => (.error e, img')
      | .ok r => if r.failure then next else (.ok (), img')) := by
  have hlen : (es ++ [e]).length = es.length + 1 := List.length_append
  have hcount : existing es d (c :: c' :: names).dropLast = 0 := by
    rw [List.dropLast_cons_of_ne_nil (List.cons_ne_nil _ _), existing_missing hchild]
  have hlast : (c :: c' :: names).length = names.length + 2 := rfl
  by_cases hlong : FILENAME_LEN ≤ c'.length
  · -- the directory is there, and the component behind it overruns `name`
    rw [resolveNames_long names hlong]
    refine LoopEnds.overrun ⟨0, ?_, ?_, ?_, Or.inr ⟨c', rfl, hlong⟩⟩
    · exact hcount.le
    · omega
    · omega
  have hstays := not_leavesBuffers_zero names hnear (not_le.mp hlong)
  by_cases hroom : es.length + 1 < g.entries
  · rw [if_pos hroom]
    cases names with
    | nil =>
        -- all directories are there
        rw [resolveNames_childless hnew (not_le.mp hlong)]
        refine LoopEnds.made ?_ ?_ hvol hsame (p := d) ?_ ?_
        · rintro ⟨k, -, hk, -, hleaves⟩
          obtain rfl : k = 0 := Nat.lt_one_iff.mp (Nat.lt_of_succ_lt_succ hk)
          exact hstays hleaves
        · rw [hcount, hlast, List.length_nil]
          omega
        · rw [hcount]
          rfl
        · rw [hcount]
          exact ⟨htype, hname, hparent, trivial⟩
    | cons n names =>
        have hlost : resolveNames (es ++ [e]) (.ok ()) FILE_TYPE (c' :: n :: names) e
            = .ok PathResult.lost := by
          rw [resolveNames_childless hnew (not_le.mp hlong)]
          rfl
        rw [hlost]
        exact (hnext (by rwa [hlen]) hlost).added hchild hstays hsame htype hname hparent hnew
  · -- the directory has taken the last entry
    rw [if_neg hroom, resolveNames_childless hnew (not_le.mp hlong)]
    refine LoopEnds.full ?_ ?_
    · rintro ⟨k, hk, -, hroom', hleaves⟩
      rw [hcount] at hk hroom'
      obtain rfl : k = 0 := by omega
      exact hstays hleaves
    · rw [hcount, hlast]
      omega

/-- **The loop at `subdir`**, from any separator on. -/
theorem Volume.makeDirs_ends (h : Volume g img es) (clock : Nat → UInt64) (h0 : 0 ∉ path)
    (hpath : path ≠ [SLASH]) (hread : Reading path newdirname done names)
    (hslot : es.length < g.entries) (hd : descend es rootParent done = some d)
    (hshort : ∀ n ∈ done, n.length < FILENAME_LEN)
    (hempty : path.head? = some SLASH → child es DIRECTORY_TYPE rootParent [] ≠ none)
    (hlost : resolveNames es (.ok ()) FILE_TYPE names d = .ok PathResult.lost) :
    LoopEnds g img es newdirname.length names d
      (makeDirs g clock path ([SLASH].intercalate names) newdirname img) := by
  -- one component in each step: `Reading` says where the loop stands, `hlost` that the path does
  -- not resolve from there
  induction names generalizing img es newdirname done d with
  | nil =>
      obtain ⟨_, _, _, hnames, -⟩ := resolveNames_lost hlost
      cases hnames
  | cons c names ih =>
      obtain ⟨_, c', ns, hnames, hc, hnext⟩ := resolveNames_lost hlost
      obtain ⟨rfl, rfl⟩ := List.cons.inj hnames
      have hwhole := hread.whole (List.cons_ne_nil _ _)
      have hroot : ¬ RootPath path FILE_TYPE := fun hr => hpath hr.1
      rw [intercalate_slash, makeDirs_component (hread.slash_free c List.mem_cons_self)]
      by_cases hfar : NEWDIRNAME_LEN ≤ newdirname.length + c.length
      · -- the separator is out of reach
        rw [if_pos hfar]
        refine LoopEnds.overrun ⟨_, le_refl _, existing_lt hlost, ?_, leavesBuffers_far hfar⟩
        rw [Nat.sub_self]
        exact hslot
      rw [if_neg hfar]
      have hnear : (newdirname ++ c).length < NEWDIRNAME_LEN := by
        rw [List.length_append]
        exact not_le.mp hfar
      have hshort' : ∀ n ∈ done ++ [c], n.length < FILENAME_LEN :=
        List.forall_mem_append.mpr ⟨hshort, List.forall_mem_singleton.mpr hc⟩
      have hlen : (newdirname ++ c ++ [SLASH]).length = newdirname.length + c.length + 1 := by
        rw [List.length_append, List.length_append]
        rfl
      -- an existing directory is passed, a missing one is made and the rest of the path lies in it
      cases hchild : child es DIRECTORY_TYPE d c with
      | some found =>
          obtain ⟨i, d'⟩ := found
          have hres : pathResolver g img path FILE_TYPE = .ok PathResult.lost := by
            rw [h.pathResolver_eq_names hroot, if_pos hslot, hwhole,
              resolveNames_append (List.cons_ne_nil _ _) hd hshort, hlost]
          rw [makeDirs_slash hnear
            (h.mkdirCmd_existing _ hread.directory hd hshort hc hchild), hres]
          have hrest := ih h hread.next hslot (descend_concat hd hchild) hshort' hempty
            (hnext i d' hchild)
          rw [hlen] at hrest
          exact hrest.passed hchild
      | none =>
          have hmade : newdirname ++ c ≠ [SLASH] := by
            intro heq
            obtain ⟨hhead, rfl, rfl⟩ := hread.directory_slash heq
            obtain rfl := Option.some.inj hd
            exact hempty hhead hchild
          have h0' : 0 ∉ newdirname ++ c := by
            rw [← hread.split, intercalate_slash, ← List.append_assoc] at h0
            exact fun hmem => h0 (List.mem_append_left _ hmem)
          obtain ⟨img', e, hmk, hvol, hsame, htype, hname, hparent, hfound, hnew⟩ :=
            h.mkdirCmd_missing (clock (newdirname ++ c).length) hslot h0' hmade hread.directory hd
              hshort hc hchild
          have hd' : descend (es ++ [e]) rootParent (done ++ [c]) = some e :=
            descend_concat (descend_kept hd) hfound
          have hres : pathResolver g img' path FILE_TYPE =
              resolveNames (es ++ [e])
                (if es.length + 1 < g.entries then .ok () else .error .readOutOfBounds) FILE_TYPE
                (c' :: ns) e := by
            have hlen' : (es ++ [e]).length = es.length + 1 := List.length_append
            rw [hvol.pathResolver_eq_names hroot, hwhole, hlen',
              ← resolveNames_append (List.cons_ne_nil _ _) hd' hshort', List.append_assoc]
            rfl
          rw [makeDirs_slash hnear hmk, hres]
          apply LoopEnds.round hchild (not_le.mp hfar) hslot hvol hsame htype hname hparent hnew
          intro hroom hlost'
          have hrest := ih hvol hread.next hroom hd' hshort' ?_ hlost'
          · rwa [hlen] at hrest
          · intro hslash hnone
            obtain ⟨⟨i, r⟩, hr⟩ := Option.ne_none_iff_exists'.mp (hempty hslash)
            rw [child_append hr] at hnone
            cases hnone

end Loop

/-! ## The leading separator -/

section Grown

variable {es : List Entry} {fin : Except Fault Unit} {type : UInt8} {c : List UInt8}
  {names : List (List UInt8)} {d e : Entry}

/-- An entry that does not match is not found. -/
theorem child_other (h : ¬ Matches c d.payload type e) :
    child (es ++ [e]) type d c = child es type d c := by
  cases hc : child es type d c with
  | some found => exact child_append hc
  | none =>
      have hl := child_eq_none.mp hc
      rw [child_eq_none]
      cases hl' : lookup (es ++ [e]) c d.payload type with
      | none => rfl
      | some i =>
          obtain ⟨f, hf, hm⟩ := lookup_some hl'
          rcases List.mem_append.mp (List.mem_of_getElem? hf) with hmem | hmem
          · exact absurd hm (lookup_none hl hmem)
          · rw [List.mem_singleton.mp hmem] at hm
            exact absurd hm h

/-- The walk is in the root in front of a component that is not empty, or in another directory. -/
def Apart (es : List Entry) (d : Entry) (names : List (List UInt8)) : Prop :=
  d = rootParent ∧ names.head? ≠ some [] ∨ d ∈ es ∧ d.payload ≠ ROOT_ID

variable (hids : ∀ d ∈ es, d.type = DIRECTORY_TYPE → d.payload ≠ ROOT_ID) (hname : e.name.cstr = [])
  (hparent : e.parent_id = ROOT_ID)
include hname hparent

omit hids in
/-- There the walk does not find a directory of the root that has an empty name. -/
theorem Apart.child_eq (h : Apart es d (c :: names)) :
    child (es ++ [e]) DIRECTORY_TYPE d c = child es DIRECTORY_TYPE d c := by
  apply child_other
  rintro ⟨hid, -, hnm⟩
  rcases h with ⟨-, hne⟩ | ⟨-, hne⟩
  · exact hne (congrArg some (hnm.symm.trans hname))
  · exact hne (hid.symm.trans hparent)

include hids

omit hname hparent in
theorem Apart.next {names' : List (List UInt8)} {i : Nat} {d' : Entry}
    (hc : child es DIRECTORY_TYPE d c = some (i, d')) : Apart es d' names' := by
  obtain ⟨hl, hd'⟩ := child_eq_some.mp hc
  obtain ⟨f, hf, -, htype, -⟩ := lookup_some hl
  obtain rfl := Option.some.inj (hf.symm.trans hd')
  have hmem := List.mem_of_getElem? hf
  exact Or.inr ⟨hmem, hids _ hmem htype⟩

theorem existing_grown (h : Apart es d names) :
    existing (es ++ [e]) d names = existing es d names := by
  induction names generalizing d with
  | nil => rfl
  | cons c names ih =>
      have hsame := h.child_eq hname hparent
      cases hc : child es DIRECTORY_TYPE d c with
      | none => rw [existing_missing hc, existing_missing (hsame.trans hc)]
      | some found =>
          obtain ⟨i, d'⟩ := found
          rw [existing_cons hc, existing_cons (hsame.trans hc), ih (Apart.next hids hc)]

/-- A walk that gets stuck gets stuck. -/
theorem resolveNames_grown (h : Apart es d names)
    (hlost : resolveNames es (.ok ()) type names d = .ok PathResult.lost) :
    resolveNames (es ++ [e]) fin type names d = fin.map fun _ => PathResult.lost := by
  induction names generalizing d with
  | nil =>
      obtain ⟨_, _, _, hnames, -⟩ := resolveNames_lost hlost
      cases hnames
  | cons c names ih =>
      obtain ⟨_, c', ns, hnames, hc, hnext⟩ := resolveNames_lost hlost
      obtain ⟨rfl, rfl⟩ := List.cons.inj hnames
      rw [resolveNames_cons (List.cons_ne_nil _ _), if_neg (not_le.mpr hc),
        h.child_eq hname hparent]
      cases hchild : child es DIRECTORY_TYPE d c with
      | none => rfl
      | some found =>
          obtain ⟨i, d'⟩ := found
          exact ih (Apart.next hids hchild) (hnext i d' hchild)

end Grown

/-- The characters of a path that `path_resolver` drops. -/
def leading (path : List UInt8) : Nat := if path.head? = some SLASH then 1 else 0

/-- The loop makes a directory with an empty name that no component of the path asks for: the path
has a leading separator, and there is no such directory. -/
def Strays (es : List Entry) (path : List UInt8) : Prop :=
  path.head? = some SLASH ∧ (components path).head? ≠ some [] ∧
    child es DIRECTORY_TYPE rootParent [] = none

instance (es : List Entry) (path : List UInt8) : Decidable (Strays es path) :=
  inferInstanceAs (Decidable (_ ∧ _ ∧ _))

namespace Volume

variable {g : Geometry} {img : Image} {es : List Entry} {path : List UInt8} (h : Volume g img es)
  (clock : Nat → UInt64) (h0 : 0 ∉ path) (hpath : path ≠ [SLASH]) (hslot : es.length < g.entries)
  (hlost : resolveNames es (.ok ()) FILE_TYPE (components path) rootParent = .ok PathResult.lost)
include h h0 hpath hslot hlost

/-- The loop from its start, when it makes no directory for the leading separator alone. -/
theorem makeDirs_start (hstrays : ¬ Strays es path) :
    LoopEnds g img es (leading path) (components path) rootParent
      (makeDirs g clock path path [] img) := by
  have hroot : ¬ RootPath path FILE_TYPE := fun hr => hpath hr.1
  have hnone : ∀ n ∈ ([] : List (List UInt8)), n.length < FILENAME_LEN := by simp
  by_cases hhead : path.head? = some SLASH
  · obtain ⟨q, rfl⟩ := List.head?_eq_some_iff.mp hhead
    have hread := Reading.startSlash q
    have hq : [SLASH].intercalate (components (SLASH :: q)) = q := List.cons.inj hread.split |>.2
    have hempty : components [] = [] ++ [[]] := rfl
    have hfits : ([] : List UInt8).length < FILENAME_LEN := by decide
    have hlead : leading (SLASH :: q) = 1 := rfl
    rw [hlead]
    cases hchild : child es DIRECTORY_TYPE rootParent [] with
    | some found =>
        -- the directory with the empty name is there
        obtain ⟨i, d⟩ := found
        rw [makeDirs_slash (by decide) (h.mkdirCmd_existing _ hempty rfl hnone hfits hchild),
          h.pathResolver_eq_names hroot, if_pos hslot, hlost]
        have hrest := h.makeDirs_ends clock h0 hpath hread hslot rfl hnone ?_ hlost
        · rwa [hq] at hrest
        · intro _ hno
          rw [hchild] at hno
          cases hno
    | none =>
        -- it is made for the first component
        have hfirst : (components (SLASH :: q)).head? = some [] := by
          by_contra hne
          exact hstrays ⟨hhead, hne, hchild⟩
        obtain ⟨c, c', ns, hnames, -, -⟩ := resolveNames_lost hlost
        rw [hnames] at hfirst hread hq hlost
        obtain rfl := Option.some.inj hfirst
        obtain ⟨img', e, hmk, hvol, hsame, htype, hname, hparent, hfound, hnew⟩ :=
          h.mkdirCmd_missing (clock 0) hslot List.not_mem_nil (by decide) hempty rfl hnone hfits
            hchild
        have hlen : (es ++ [e]).length = es.length + 1 := List.length_append
        have hdone : ∀ n ∈ ([] ++ [[]] : List (List UInt8)), n.length < FILENAME_LEN :=
          List.forall_mem_singleton.mpr hfits
        have hres : pathResolver g img' (SLASH :: q) FILE_TYPE =
            resolveNames (es ++ [e])
              (if es.length + 1 < g.entries then .ok () else .error .readOutOfBounds) FILE_TYPE
              (c' :: ns) e := by
          rw [hvol.pathResolver_eq_names hroot, hnames, hlen,
            ← resolveNames_append (List.cons_ne_nil _ _) (descend_concat rfl hfound) hdone]
          rfl
        rw [makeDirs_slash (by decide) hmk, hres, hnames]
        apply LoopEnds.round hchild (by decide) hslot hvol hsame htype hname hparent hnew
        intro hroom hlost'
        rw [intercalate_slash, List.nil_append] at hq
        rw [← hq, List.nil_append, makeDirs_slash (by decide)
          (hvol.mkdirCmd_existing _ rfl rfl hnone hfits hfound), hq, hres, ← hlen, if_pos hroom,
          hlost']
        have hrest := hvol.makeDirs_ends clock h0 hpath hread.next hroom (descend_concat rfl hfound)
          hdone ?_ hlost'
        · exact hrest
        · intro _ hno
          rw [hfound] at hno
          cases hno
  · have hread := Reading.start hhead
    have hsplit := hread.split
    have hrest := h.makeDirs_ends clock h0 hpath hread hslot rfl hnone (fun hs => absurd hs hhead)
      hlost
    rw [List.nil_append] at hsplit
    rw [hsplit] at hrest
    rw [leading, if_neg hhead]
    exact hrest

/-- With a leading separator and no directory with an empty name, the loop makes one. It takes an
entry, and the loop ends as it does without it. -/
theorem makeDirs_strays (hstrays : Strays es path) : ∃ img' e,
    Volume g img' (es ++ [e]) ∧ SameData g img img' ∧ e.name.cstr = [] ∧
    existing (es ++ [e]) rootParent (components path).dropLast
      = existing es rootParent (components path).dropLast ∧
    (g.entries ≤ es.length + 1 →
      makeDirs g clock path path [] img = (.error .readOutOfBounds, img')) ∧
    (es.length + 1 < g.entries →
      LoopEnds g img' (es ++ [e]) (leading path) (components path) rootParent
        (makeDirs g clock path path [] img)) := by
  obtain ⟨hhead, hfirst, hchild⟩ := hstrays
  have hroot : ¬ RootPath path FILE_TYPE := fun hr => hpath hr.1
  have hnone : ∀ n ∈ ([] : List (List UInt8)), n.length < FILENAME_LEN := by simp
  obtain ⟨q, rfl⟩ := List.head?_eq_some_iff.mp hhead
  have hread := Reading.startSlash q
  have hq : [SLASH].intercalate (components (SLASH :: q)) = q := List.cons.inj hread.split |>.2
  obtain ⟨img', e, hmk, hvol, hsame, -, hname, hparent, hfound, -⟩ :=
    h.mkdirCmd_missing (clock 0) hslot List.not_mem_nil (by decide) (rfl : components [] = [] ++ [[]])
      rfl hnone (by decide) hchild
  have hlen : (es ++ [e]).length = es.length + 1 := List.length_append
  have hids : ∀ d ∈ es, d.type = DIRECTORY_TYPE → d.payload ≠ ROOT_ID := by
    intro d hd htype
    exact (h.tree.id_ne h.entries_bound (mem_dirIds hd htype)).2.1
  obtain ⟨c, c', ns, hnames, -, -⟩ := resolveNames_lost hlost
  have hdrop : (components (SLASH :: q)).dropLast.head? = (components (SLASH :: q)).head? := by
    rw [hnames]
    rfl
  have hapart : Apart es rootParent (components (SLASH :: q)) := Or.inl ⟨rfl, hfirst⟩
  have hres : pathResolver g img' (SLASH :: q) FILE_TYPE =
      Except.map (fun _ => PathResult.lost)
        (if es.length + 1 < g.entries then .ok () else .error .readOutOfBounds) := by
    rw [hvol.pathResolver_eq_names hroot, hlen, resolveNames_grown hids hname hparent hapart hlost]
  have hrun : makeDirs g clock (SLASH :: q) (SLASH :: q) [] img = _ :=
    makeDirs_slash (by decide) hmk
  rw [hres] at hrun
  refine ⟨img', e, hvol, hsame, hname, ?_, fun hfull => ?_, fun hroom => ?_⟩
  · apply existing_grown hids hname hparent
    exact Or.inl ⟨rfl, hdrop ▸ hfirst⟩
  · rw [hrun, if_neg (by omega)]
    rfl
  · -- the new directory is below the root, and the path does not start with its name
    have hlost' : resolveNames (es ++ [e]) (.ok ()) FILE_TYPE (components (SLASH :: q)) rootParent
        = .ok PathResult.lost := resolveNames_grown hids hname hparent hapart hlost
    have hrest := hvol.makeDirs_ends clock h0 hpath hread (by rwa [hlen]) rfl hnone ?_ hlost'
    · rw [hq] at hrest
      rw [hrun, if_pos hroom]
      exact hrest
    · intro _ hno
      rw [hfound] at hno
      cases hno

end Volume

end Windozz.Echfs

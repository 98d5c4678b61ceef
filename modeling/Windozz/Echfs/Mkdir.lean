import Windozz.Echfs.Lookup

set_option autoImplicit false

/-! # What `mkdir` does to a volume

`mkdir_cmd` scans the directory three times before its one write: for the path, for a free slot
and for a free id. On a volume that `format`, `mkdir` and `import` made the scans agree, so that a
run either leaves the image as it is or makes one new directory (`mkdirCmd_correct`). Paths that
led somewhere before lead there still (`pathResolver_kept`).
-/

namespace Windozz.Echfs

open Relation

/-! ## Paths survive new entries -/

section Kept

variable {g : Geometry} (hg : g.Sound) {img img' : Image} (hlen : img.length = g.imgsize)
  (hlen' : img'.length = g.imgsize) {es l : List Entry} (h : Listed g img es)
  (h' : Listed g img' (es ++ l))
include hg hlen hlen' h h'

/-- A path that resolves to an entry resolves to it behind new entries too. -/
theorem pathResolver_kept {path : List UInt8} {type : UInt8} {r : PathResult}
    (hr : pathResolver g img path type = .ok r) (hfail : r.failure = false)
    (hfound : r.not_found = false) : pathResolver g img' path type = .ok r := by
  by_cases hroot : RootPath path type
  · -- the root is recognised without a look at the table
    rw [← hr]
    obtain ⟨rfl, rfl | rfl⟩ := hroot <;> rfl
  · rw [pathResolver_eq hroot] at hr
    rcases resolveNext_ok hg hlen h hr with rfl | ⟨p, n, hw⟩
    · cases hfail
    · rw [resolveNext_walk hg hlen h hw, resolveNext_nil hg hlen h (walk_some hw).1] at hr
      cases hl : lookup es n p.payload type with
      | none =>
          simp only [hl] at hr
          by_cases hslot : es.length < g.entries
          · rw [if_pos hslot] at hr
            rw [← Except.ok.inj hr] at hfound
            cases hfound
          · rw [if_neg hslot] at hr
            cases hr
      | some i =>
          obtain ⟨e, he, -⟩ := lookup_some hl
          have hlt := (List.getElem?_eq_some_iff.mp he).1
          simp only [hl, rdEntry_listed hg hlen h he] at hr
          rw [← hr]
          exact pathResolver_found hg hlen' h' hroot (walk_append hw) (lookup_append hl)
            (by rw [List.getElem?_append_left hlt]; exact he)

end Kept

/-! ## `mkdir_cmd` -/

/-- The path names nothing yet, in a directory that exists. -/
def NamesNew (es : List Entry) (path : List UInt8) : Prop :=
  path ≠ [SLASH] ∧ ∃ d, parentOf es path = some d ∧ child es DIRECTORY_TYPE d (baseName path) = none

/-- What `mkdir` of `path` has done if it has created the directory `e` in entry `n`. -/
structure Created (g : Geometry) (img img' : Image) (path : List UInt8) (n : Nat) (e : Entry) :
    Prop where
  slot_lt : n < g.entries
  slot_free : (Entry.decode img.byte (g.entryLoc n)).parent_id = 0
  slot_first : ∀ i, i < n → (Entry.decode img.byte (g.entryLoc i)).parent_id ≠ 0 ∧
    (Entry.decode img.byte (g.entryLoc i)).parent_id ≠ DELETED_ENTRY
  written : Entry.decode img'.byte (g.entryLoc n) = e
  others : SameOutside (entryBytes g n) img img'
  directory : e.type = DIRECTORY_TYPE ∧ e.name.cstr = baseName path
  parent : ∃ d, parentOf (entriesOf g img) path = some d ∧ e.parent_id = d.payload
  id_new : e.payload ∉ dirIds (entriesOf g img) ∧ e.payload ≠ 0 ∧ e.payload ≠ ROOT_ID
  same_data : SameData g img img'
  resolves : ∃ r, pathResolver g img' path DIRECTORY_TYPE = .ok r ∧ r.failure = false ∧
    r.not_found = false ∧ r.target_entry = n ∧ r.target = e
  kept : ∀ path' type r, pathResolver g img path' type = .ok r → r.failure = false →
    r.not_found = false → pathResolver g img' path' type = .ok r

namespace Volume

variable {g : Geometry} {img : Image} {es : List Entry} (h : Volume g img es)
include h

/-- `get_free_id` finds an id of its own for a new directory. -/
theorem freeId_new : freeId es ∉ dirIds es ∧ freeId es ≠ 0 ∧ freeId es ≠ ROOT_ID := by
  have hlt := h.entries_bound
  have hle := Tree.dirIds_length_le es
  have hval : (freeId es).toNat = (dirIds es).length + 1 := by
    rw [h.tree.freeId_eq, UInt64.toNat_ofNat', Nat.mod_eq_of_lt (by omega)]
  refine ⟨fun hmem => ?_, fun hzero => ?_, fun hroot => ?_⟩
  · -- the ids in use are the numbers up to the length
    rw [h.tree.ids] at hmem
    obtain ⟨j, hj, hid⟩ := List.mem_map.mp hmem
    have hjlt := List.mem_range.mp hj
    rw [← hid, UInt64.toNat_ofNat', Nat.mod_eq_of_lt (by omega)] at hval
    omega
  · rw [hzero] at hval
    cases hval
  · have hmax : ROOT_ID.toNat = 2 ^ 64 - 1 := rfl
    rw [hroot, hmax] at hval
    omega

/-- `mkdir` of a name that exists, or without a free slot, changes nothing. -/
theorem mkdirCmd_unchanged {path : List UInt8} (now : UInt64) (rest : List (List UInt8))
    (hshort : ∀ c ∈ components path, c.length < FILENAME_LEN)
    (hno : ¬ (NamesNew es path ∧ es.length < g.entries)) :
    (mkdirCmd g now (path :: rest) img).2 = img := by
  have hg := h.formatted.sound
  have hlen := h.formatted.length_eq
  rw [mkdirCmd]
  cases hres : pathResolver g img path DIRECTORY_TYPE with
  | error e => rfl
  | ok r =>
      by_cases hnf : r.not_found = false
      · simp only [if_pos hnf]
      · obtain ⟨hpath, hslot, -, hw, hnew⟩ := pathResolver_not_found hg hlen h.table.listed
          (Or.inr rfl) hres (by simpa using hnf)
        rw [walk_path hshort] at hw
        obtain ⟨d, hd, hpair⟩ := Option.map_eq_some_iff.mp hw
        obtain ⟨hdir, hname⟩ := Prod.mk.inj hpair
        rw [← hdir, ← hname] at hnew
        exact absurd ⟨⟨hpath, d, hd, child_eq_none.mpr hnew⟩, hslot⟩ hno

/-- `mkdir` of a new name in a directory that exists makes the directory. -/
theorem mkdirCmd_creates {path : List UInt8} (now : UInt64) (rest : List (List UInt8))
    (h0 : 0 ∉ path) (hshort : ∀ c ∈ components path, c.length < FILENAME_LEN)
    (hnew : NamesNew es path) (hslot : es.length < g.entries) :
    ∃ e, Created g img (mkdirCmd g now (path :: rest) img).2 path es.length e := by
  have hg := h.formatted.sound
  have hlen := h.formatted.length_eq
  have hes := h.table.listed.entries_eq
  obtain ⟨hpath, d, hd, hchild⟩ := hnew
  have hw : walk es (relative path) [] rootParent = some (d, baseName path) := by
    rw [walk_path hshort, hd]
    rfl
  have hfree := child_eq_none.mp hchild
  obtain ⟨hn, -, hnul, -⟩ := walk_some hw
  rw [h.mkdirCmd_created now rest hpath hslot hw hfree]
  set e := directoryEntry d.payload (baseName path) (freeId es) now
  have hname : e.name.cstr = baseName path :=
    NameField.cstr_store hn (hnul (by simp) (relative_nul h0))
  obtain ⟨hvol, hsame⟩ := h.addEntry (e := e) hslot (relative_nul h0) hw rfl rfl hfree fun _ => rfl
  have hlen' := hvol.formatted.length_eq
  have hlisted := hvol.table.listed
  refine ⟨e, hslot, h.table.unused _ (le_refl _) hslot, ?_, ?_, wrEntry_same hg hlen hslot e,
    ⟨rfl, hname⟩, ⟨d, by rw [hes]; exact hd, rfl⟩, by rw [hes]; exact h.freeId_new, hsame, ?_, ?_⟩
  · intro i hi
    rw [h.table.stored i _ (List.getElem?_eq_getElem hi)]
    exact h.table.used _ (List.getElem_mem hi)
  · exact hlisted.stored _ _ List.getElem?_concat_length
  · have hwalk : walk (es ++ [e]) (relative path) [] rootParent = some (d, baseName path) :=
      walk_append hw
    exact ⟨_, pathResolver_found hg hlen' hlisted (fun hr => hpath hr.1) hwalk
      (lookup_added hfree rfl rfl hname) List.getElem?_concat_length, rfl, rfl, rfl, rfl⟩
  · exact fun path' type r => pathResolver_kept hg hlen hlen' h.table.listed hlisted

end Volume

/-- **`mkdir_cmd`**, on every volume made by `format`, `mkdir` and `import`: a run makes one new
directory if the path names nothing yet in a directory that exists and the table has room, and
leaves the image as it is otherwise. -/
theorem mkdirCmd_correct {g : Geometry} {img₀ img : Image} (hfresh : Fresh g img₀)
    (hrun : Run img₀ img) (now : UInt64) (path : CString) (rest : List CString)
    (hshort : ∀ c ∈ components path.val, c.length ≤ 217) :
    readGeometry img.length img = .ok g ∧
    ((NamesNew (entriesOf g img) path.val ∧ Terminated g img ∧
        ∃ e, Created g img (mkdirCmd g now (path.val :: rest.map Subtype.val) img).2 path.val
          (entriesOf g img).length e) ∨
      (¬ (NamesNew (entriesOf g img) path.val ∧ Terminated g img) ∧
        (mkdirCmd g now (path.val :: rest.map Subtype.val) img).2 = img)) := by
  obtain ⟨es, hvol⟩ := hfresh.volume.run hrun
  rw [List.nil_append] at hvol
  have hshort' : ∀ c ∈ components path.val, c.length < FILENAME_LEN :=
    fun c hc => Nat.lt_succ_of_le (hshort c hc)
  refine ⟨hvol.formatted.opened, ?_⟩
  rw [terminated_iff, hvol.table.listed.entries_eq]
  by_cases hnew : NamesNew es path.val ∧ es.length < g.entries
  · exact Or.inl ⟨hnew.1, hnew.2, hvol.mkdirCmd_creates now _ path.property hshort' hnew.1 hnew.2⟩
  · exact Or.inr ⟨hnew, hvol.mkdirCmd_unchanged now _ hshort' hnew⟩

/-- `mkdir /a/b` on the small volume with the directory `a`. -/
theorem mkdirCmd_correct_small : ∃ img, Run smallVolume img ∧
    readGeometry img.length img = .ok (volumeOf 20 512) ∧
    ((NamesNew (entriesOf (volumeOf 20 512) img) [47, 97, 47, 98] ∧
        Terminated (volumeOf 20 512) img ∧
        ∃ e, Created (volumeOf 20 512) img
          (mkdirCmd (volumeOf 20 512) 0 [[47, 97, 47, 98]] img).2 [47, 97, 47, 98]
          (entriesOf (volumeOf 20 512) img).length e) ∨
      (¬ (NamesNew (entriesOf (volumeOf 20 512) img) [47, 97, 47, 98] ∧
          Terminated (volumeOf 20 512) img) ∧
        (mkdirCmd (volumeOf 20 512) 0 [[47, 97, 47, 98]] img).2 = img)) := by
  obtain ⟨img, hstep, -⟩ := smallVolume_mkdir
  exact ⟨img, ReflTransGen.single hstep, mkdirCmd_correct smallVolume_fresh
    (ReflTransGen.single hstep) 0 ⟨[47, 97, 47, 98], by decide⟩ [] (by decide)⟩

end Windozz.Echfs

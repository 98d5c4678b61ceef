import Windozz.Echfs.Entry

set_option autoImplicit false

/-! # The directory table as a list of entries

`Table g img es` says that the directory of the image holds the entries `es` followed by unused
slots only; `Listed g img es` is the weaker fact that the scans of `echfs-utils` rest on, for they
look no further than the first unused slot. Every scan is an operation on the list: `search` finds
the first match (`search_listed`), the search for a free slot ends at its length
(`findEmpty_table`) and `get_free_id` folds over it (`getFreeId_listed`). A scan that does not end
within the list stops at the first unused slot, and runs off a table that has none.

`walk` is the part of `path_resolver` in front of its last lookup. It survives the addition of
entries (`walk_append`), and so does every lookup that succeeded.
-/

namespace Windozz.Echfs

/-! ## Tables -/

/-- The directory holds the entries `es` and nothing after them. -/
structure Table (g : Geometry) (img : Image) (es : List Entry) : Prop where
  fits : es.length ≤ g.entries
  stored : ∀ i e, es[i]? = some e → Entry.decode img.byte (g.entryLoc i) = e
  used : ∀ e ∈ es, e.parent_id ≠ 0 ∧ e.parent_id ≠ DELETED_ENTRY
  unused : ∀ i, es.length ≤ i → i < g.entries →
    (Entry.decode img.byte (g.entryLoc i)).parent_id = 0

/-- The entries in front of the first unused slot are `es`; the slots behind it hold anything. -/
structure Listed (g : Geometry) (img : Image) (es : List Entry) : Prop where
  fits : es.length ≤ g.entries
  stored : ∀ i e, es[i]? = some e → Entry.decode img.byte (g.entryLoc i) = e
  used : ∀ e ∈ es, e.parent_id ≠ 0
  stop : es.length < g.entries → (Entry.decode img.byte (g.entryLoc es.length)).parent_id = 0

theorem Table.listed {g : Geometry} {img : Image} {es : List Entry} (h : Table g img es) :
    Listed g img es :=
  ⟨h.fits, h.stored, fun e he => (h.used e he).1, h.unused _ (le_refl _)⟩

section Access

variable {g : Geometry} (hg : g.Sound) {img : Image} (hlen : img.length = g.imgsize) {i : Nat}
include hg

theorem entries_lt : g.entries < 2 ^ 63 := by
  have hend := hg.dir_end
  have hdata := hg.data_le
  have himg := hg.imgsize_lt
  simp only [ENTRY_SIZE] at hend
  omega

/-- The bound of the directory check is the start of the data blocks. -/
theorem dirBound : u64 ((g.dirstart + g.dirsize) * g.bytesperblock)
    = g.datastart * g.bytesperblock := by
  have hdata := hg.data_le
  have himg := hg.imgsize_lt
  have heq : g.dirstart + g.dirsize = g.datastart := by rw [hg.dirstart_eq, hg.datastart_eq]
  rw [heq, u64_of_lt (by omega)]

/-- `rd_entry` of an entry of the table, also in a file that has grown. -/
theorem rdEntry_le (hle : g.imgsize ≤ img.length) (hi : i < g.entries) :
    rdEntry g img i = .ok (Entry.decode img.byte (g.entryLoc i)) := by
  obtain ⟨-, hhi⟩ := hg.entryLoc_le hi
  have hdata := hg.data_le
  have himg := hg.imgsize_lt
  simp only [ENTRY_SIZE] at hhi
  have hloc : u64 (g.dirstart * g.bytesperblock + i * ENTRY_SIZE) = g.entryLoc i :=
    u64_of_lt (show g.entryLoc i < 2 ^ 64 by omega)
  simp only [rdEntry, hloc, dirBound hg]
  rw [if_neg (by omega), if_pos (by simp only [ENTRY_SIZE]; omega)]

/-- `wr_entry` of an entry of the table. -/
theorem wrEntry_lt (hi : i < g.entries) (e : Entry) :
    wrEntry g img i e = .ok (img.write (g.entryLoc i) e.encode) := by
  obtain ⟨-, hhi⟩ := hg.entryLoc_le hi
  have hdata := hg.data_le
  have himg := hg.imgsize_lt
  simp only [ENTRY_SIZE] at hhi
  have hloc : u64 (g.dirstart * g.bytesperblock + i * ENTRY_SIZE) = g.entryLoc i :=
    u64_of_lt (show g.entryLoc i < 2 ^ 64 by omega)
  simp only [wrEntry, hloc, hg.bytesPerBlock_eq, dirBound hg]
  rw [if_neg (by omega)]

include hlen

theorem rdEntry_lt (hi : i < g.entries) :
    rdEntry g img i = .ok (Entry.decode img.byte (g.entryLoc i)) := rdEntry_le hg hlen.ge hi

/-- `rd_entry` aborts at the end of the table. -/
theorem rdEntry_end : rdEntry g img g.entries = .error .readOutOfBounds := by
  have hend := hg.dir_end
  have hdata := hg.data_le
  have himg := hg.imgsize_lt
  have hloc : u64 (g.dirstart * g.bytesperblock + g.entries * ENTRY_SIZE)
      = g.datastart * g.bytesperblock := by
    rw [hend, u64_of_lt (by omega)]
  simp only [rdEntry, hloc, dirBound hg]
  rw [if_pos (le_refl _)]

/-- `wr_entry` changes the bytes of its entry only. -/
theorem wrEntry_same (hi : i < g.entries) (e : Entry) :
    SameOutside (entryBytes g i) img (img.write (g.entryLoc i) e.encode) := by
  obtain ⟨-, hhi⟩ := hg.entryLoc_le hi
  have hdata := hg.data_le
  apply SameOutside.of_write
  · rw [e.encode_length, hlen]
    omega
  · intro a ha ha'
    rw [e.encode_length] at ha'
    exact ⟨ha, ha'⟩

/-- Writing an entry into the first unused slot adds it to the table. -/
theorem Table.append {es : List Entry} (h : Table g img es) (hslot : es.length < g.entries)
    {e : Entry} (hroot : e.parent_id ≠ 0) (hdel : e.parent_id ≠ DELETED_ENTRY) :
    Table g (img.write (g.entryLoc es.length) e.encode) (es ++ [e]) := by
  have hsame := wrEntry_same hg hlen hslot e
  -- the write stays in the slot, and the other slots are decoded from bytes outside of it
  have hother : ∀ j, j ≠ es.length →
      Entry.decode (img.write (g.entryLoc es.length) e.encode).byte (g.entryLoc j)
        = Entry.decode img.byte (g.entryLoc j) := by
    intro j hj
    apply Entry.decode_congr
    intro k hk
    apply hsame.byte_eq
    rintro ⟨hlo, hhi⟩
    simp only [Geometry.entryLoc, ENTRY_SIZE] at hlo hhi hk
    omega
  refine ⟨?_, ?_, ?_, ?_⟩
  · rw [List.length_append]
    simp only [List.length_cons, List.length_nil]
    omega
  · intro j f hf
    by_cases hj : j = es.length
    · subst hj
      obtain rfl : e = f := by simpa using hf
      rw [Image.byte_write]
      exact Entry.decode_write_encode _ _ _
    · obtain ⟨hlt, -⟩ := List.getElem?_eq_some_iff.mp hf
      simp only [List.length_append, List.length_cons, List.length_nil] at hlt
      rw [List.getElem?_append_left (by omega)] at hf
      rw [hother j hj]
      exact h.stored j f hf
  · intro f hf
    rcases List.mem_append.mp hf with hf | hf
    · exact h.used f hf
    · obtain rfl : f = e := by simpa using hf
      exact ⟨hroot, hdel⟩
  · intro j hj hlt
    simp only [List.length_append, List.length_cons, List.length_nil] at hj
    rw [hother j (by omega)]
    exact h.unused j (by omega) hlt

end Access

/-- A table is untouched by a change outside the directory. -/
theorem Table.of_entryBytes {g : Geometry} {img img' : Image} {es : List Entry}
    (h : Table g img es) (hsame : ∀ i, i < g.entries → ∀ a ∈ entryBytes g i,
      img'.byte a = img.byte a) : Table g img' es := by
  have hdec : ∀ i, i < g.entries →
      Entry.decode img'.byte (g.entryLoc i) = Entry.decode img.byte (g.entryLoc i) :=
    fun i hi => Entry.decode_congr fun k hk =>
      hsame i hi _ ⟨Nat.le_add_right _ _, Nat.add_lt_add_left hk _⟩
  refine ⟨h.fits, ?_, h.used, ?_⟩
  · intro i e he
    obtain ⟨hi, -⟩ := List.getElem?_eq_some_iff.mp he
    rw [hdec i (by have := h.fits; omega)]
    exact h.stored i e he
  · intro i hi hlt
    rw [hdec i hlt]
    exact h.unused i hi hlt

/-! ## Scans of a table -/

/-- The loop body of a scan run over the entries `es`, the first of which is number `i`. -/
def scanEntries {σ ρ : Type} (body : Nat → Entry → σ → σ ⊕ ρ) : Nat → List Entry → σ → σ ⊕ ρ
  | _, [], s => .inl s
  | i, e :: es, s =>
      match body i e s with
      | .inr r => .inr r
      | .inl s' => scanEntries body (i + 1) es s'

section Scan

variable {g : Geometry} (hg : g.Sound) {img : Image} (hlen : img.length = g.imgsize)
  {es : List Entry} (h : Listed g img es)
include hg hlen h

/-- A scan whose body leaves at an unused slot with `done`. -/
theorem scan_listed {σ ρ : Type} {body : Nat → Entry → σ → σ ⊕ ρ} (done : Nat → σ → ρ)
    (hdone : ∀ i e s, e.parent_id = 0 → body i e s = .inr (done i s)) (s : σ) :
    scan g img body SCAN_ROUNDS 0 s =
      match scanEntries body 0 es s with
      | .inr r => .ok r
      | .inl s' =>
          if es.length < g.entries then .ok (done es.length s') else .error .readOutOfBounds := by
  have hlt := entries_lt hg
  have hfits := h.fits
  -- after `k` rounds the rest of the scan runs over the rest of the list
  have hrest : ∀ n k fuel s, k + n = es.length → n < fuel →
      scan g img body fuel k s =
        match scanEntries body k (es.drop k) s with
        | .inr r => .ok r
        | .inl s' =>
            if es.length < g.entries then .ok (done es.length s')
            else .error .readOutOfBounds := by
    intro n
    induction n with
    | zero =>
        intro k fuel s hk hfuel
        obtain rfl : k = es.length := by omega
        rw [List.drop_length, scanEntries]
        cases fuel with
        | zero => omega
        | succ fuel =>
            rw [scan]
            by_cases hslot : es.length < g.entries
            · rw [rdEntry_lt hg hlen hslot]
              simp only [hdone _ _ s (h.stop hslot), if_pos hslot]
            · have heq : es.length = g.entries := by omega
              rw [heq, rdEntry_end hg hlen]
              simp only [lt_irrefl, if_false]
    | succ n ih =>
        intro k fuel s hk hfuel
        have hklt : k < es.length := by omega
        cases fuel with
        | zero => omega
        | succ fuel =>
            rw [scan, rdEntry_lt hg hlen (by omega), List.drop_eq_getElem_cons hklt, scanEntries]
            have hst : Entry.decode img.byte (g.entryLoc k) = es[k] :=
              h.stored k _ (List.getElem?_eq_getElem hklt)
            simp only [hst]
            cases body k es[k] s with
            | inr r => rfl
            | inl s' => exact ih (k + 1) fuel s' (by omega) (by omega)
  have hzero := hrest es.length 0 SCAN_ROUNDS s (by omega) (by simp only [SCAN_ROUNDS]; omega)
  rwa [List.drop_zero] at hzero

end Scan

/-- The number of the first entry of `es` with the given name, parent and type. -/
def lookup (es : List Entry) (name : List UInt8) (parent : UInt64) (type : UInt8) : Option Nat :=
  es.findIdx? fun e => decide (e.parent_id = parent ∧ e.type = type ∧ e.name.cstr = name)

/-- The fold of `get_free_id`. -/
def freeId (es : List Entry) : UInt64 :=
  es.foldl (fun id e => if e.type = 1 ∧ e.payload = id then e.payload + 1 else id) 1

section Scans

variable {g : Geometry} (hg : g.Sound) {img : Image} (hlen : img.length = g.imgsize)
  {es : List Entry}
include hg hlen

theorem search_listed (h : Listed g img es) (name : List UInt8) (parent : UInt64) (type : UInt8) :
    search g img name parent type =
      match lookup es name parent type with
      | some i => .ok (some i)
      | none => if es.length < g.entries then .ok none else .error .readOutOfBounds := by
  have hlt := entries_lt hg
  have hfits := h.fits
  -- over the entries in use the loop is the look-up; the end marker decides only if nothing was
  -- found
  have hbody : ∀ l i, i + l.length = es.length → (∀ e ∈ l, e.parent_id ≠ 0) →
      scanEntries (searchBody g name parent type) i l () =
        match lookup l name parent type with
        | some j => .inr (some (i + j))
        | none => .inl () := by
    intro l
    induction l with
    | nil =>
        intro i _ _
        rfl
    | cons e l ih =>
        intro i hi hused
        rw [List.length_cons] at hi
        have hrest := ih (i + 1) (by omega) fun f hf => hused f (List.mem_cons_of_mem _ hf)
        rw [scanEntries, searchBody, if_neg (hused e (by simp)), u64_of_lt (by omega),
          if_neg (by omega)]
        simp only [lookup, List.findIdx?_cons] at hrest ⊢
        by_cases hm : e.parent_id = parent ∧ e.type = type ∧ e.name.cstr = name
        · rw [if_pos hm, decide_eq_true hm]
          rfl
        · rw [if_neg hm, decide_eq_false hm]
          simp only [hrest]
          cases l.findIdx? _ with
          | none => rfl
          | some j => simp [Nat.add_assoc, Nat.add_comm 1 j]
  have hdone : ∀ i (e : Entry) (s : Unit), e.parent_id = 0 →
      searchBody g name parent type i e s = .inr none := by
    intro i e s he
    rw [searchBody, if_pos he]
  rw [search, scan_listed hg hlen h (fun _ _ => none) hdone, hbody es 0 (by omega) h.used]
  cases lookup es name parent type with
  | none => rfl
  | some i => simp

theorem getFreeId_listed (h : Listed g img es) : getFreeId g img =
    if es.length < g.entries then .ok (freeId es) else .error .readOutOfBounds := by
  have hbody : ∀ l i id, (∀ e ∈ l, e.parent_id ≠ 0) → scanEntries freeIdBody i l id =
      .inl (l.foldl (fun id e => if e.type = 1 ∧ e.payload = id then e.payload + 1 else id) id) := by
    intro l
    induction l with
    | nil =>
        intro i id _
        rfl
    | cons e l ih =>
        intro i id hused
        have hrest := fun id => ih (i + 1) id fun f hf => hused f (List.mem_cons_of_mem _ hf)
        rw [scanEntries, freeIdBody, if_neg (hused e (by simp)), List.foldl_cons]
        by_cases hm : e.type = 1 ∧ e.payload = id
        · rw [if_pos hm, if_pos hm]
          exact hrest _
        · rw [if_neg hm, if_neg hm]
          exact hrest _
  have hdone : ∀ i (e : Entry) (id : UInt64), e.parent_id = 0 →
      freeIdBody i e id = .inr id := by
    intro i e id he
    rw [freeIdBody, if_pos he]
  rw [getFreeId, scan_listed hg hlen h (fun _ id => id) hdone, hbody es 0 1 h.used]
  rfl

theorem findEmpty_table (h : Table g img es) : findEmpty g img =
    if es.length < g.entries then .ok es.length else .error .readOutOfBounds := by
  have hbody : ∀ l i, (∀ e ∈ l, e.parent_id ≠ 0 ∧ e.parent_id ≠ DELETED_ENTRY) →
      scanEntries emptyBody i l () = .inl () := by
    intro l
    induction l with
    | nil =>
        intro i _
        rfl
    | cons e l ih =>
        intro i hused
        obtain ⟨h0, hd⟩ := hused e (by simp)
        rw [scanEntries, emptyBody, if_neg (by tauto)]
        exact ih (i + 1) fun f hf => hused f (List.mem_cons_of_mem _ hf)
  have hdone : ∀ i (e : Entry) (s : Unit), e.parent_id = 0 → emptyBody i e s = .inr i := by
    intro i e s he
    rw [emptyBody, if_pos (Or.inl he)]
  rw [findEmpty, scan_listed hg hlen h.listed (fun i _ => i) hdone, hbody es 0 h.used]

end Scans

/-- The first unused slot is found also in a file that has grown. -/
theorem findEmpty_le {g : Geometry} (hg : g.Sound) {img : Image} (hle : g.imgsize ≤ img.length)
    {es : List Entry} (h : Table g img es) (hslot : es.length < g.entries) :
    findEmpty g img = .ok es.length := by
  have hlt := entries_lt hg
  have hrest : ∀ n k fuel, k + n = es.length → n < fuel →
      scan g img emptyBody fuel k () = .ok es.length := by
    intro n
    induction n with
    | zero =>
        intro k fuel hk hfuel
        obtain ⟨fuel, rfl⟩ := Nat.exists_eq_succ_of_ne_zero (by omega : fuel ≠ 0)
        obtain rfl : k = es.length := by omega
        have hstop : emptyBody es.length (Entry.decode img.byte (g.entryLoc es.length)) ()
            = .inr es.length := if_pos (Or.inl (h.listed.stop hslot))
        rw [scan, rdEntry_le hg hle hslot]
        simp only [hstop]
    | succ n ih =>
        intro k fuel hk hfuel
        obtain ⟨fuel, rfl⟩ := Nat.exists_eq_succ_of_ne_zero (by omega : fuel ≠ 0)
        have hget : es[k]? = some es[k] := List.getElem?_eq_getElem (by omega)
        obtain ⟨h0, hdel⟩ := h.used _ (List.mem_of_getElem? hget)
        have hgo : emptyBody k es[k] () = .inl () := if_neg (not_or.mpr ⟨h0, hdel⟩)
        rw [scan, rdEntry_le hg hle (by omega), h.stored k _ hget]
        simp only [hgo]
        exact ih (k + 1) fuel (by omega) (by omega)
  exact hrest es.length 0 SCAN_ROUNDS (by omega) (by simp only [SCAN_ROUNDS]; omega)

end Windozz.Echfs

import Windozz.Echfs.Image

set_option autoImplicit false

/-! # Directory entries and path resolution

The 256-byte packed `entry_t` with its codec, the bounds-checked `rd_entry` and `wr_entry`,
and the read-only functions of `echfs-utils.c` over the directory table: `search`,
`path_resolver` and `get_free_id`.

A table scan counts a `uint64_t` up and leaves by `abort` when it runs off the table. The
model gives each scan `2 ^ 64` rounds, one for each value of the counter; a scan that has not
ended by then is back where it started and never will (`Fault.endless`).
-/

namespace Windozz.Echfs

/-! ## `entry_t` -/

/-- The contents of a `char name[FILENAME_LEN]`. -/
abbrev NameField := {l : List UInt8 // l.length = FILENAME_LEN}

namespace NameField

/-- The C string a name field holds. -/
def cstr (n : NameField) : List UInt8 := n.val.takeWhile (· ≠ 0)

/-- `strcpy` into a zeroed field. -/
def store (s : List UInt8) : NameField :=
  ⟨(s ++ List.replicate FILENAME_LEN 0).take FILENAME_LEN, by simp⟩

theorem cstr_store {s : List UInt8} (hlen : s.length < FILENAME_LEN) (hnul : 0 ∉ s) :
    (store s).cstr = s := by
  have htake : (store s).val = s ++ List.replicate (FILENAME_LEN - s.length) 0 := by
    simp only [store, List.take_append, List.take_of_length_le hlen.le, List.take_replicate]
    congr 2
    omega
  have hall : ∀ a ∈ s, decide (a ≠ 0) = true := by
    intro a ha
    exact decide_eq_true fun h => hnul (h ▸ ha)
  rw [cstr, htake, List.takeWhile_append_of_pos hall]
  cases hk : FILENAME_LEN - s.length with
  | zero => omega
  | succ k => simp [List.replicate_succ]

end NameField

/-- `entry_t`. -/
structure Entry where
  parent_id : UInt64
  type : UInt8
  name : NameField
  perms : UInt8
  owner : UInt16
  group : UInt16
  time : UInt64
  payload : UInt64
  size : UInt64
  deriving DecidableEq

namespace Entry

/-- `entry_t e = {0}`. -/
def zero : Entry := ⟨0, 0, NameField.store [], 0, 0, 0, 0, 0, 0⟩

/-- The packed layout of an entry. -/
def encode (e : Entry) : List UInt8 :=
  toLE 8 e.parent_id.toNat ++ ([e.type] ++ (e.name.val ++ ([e.perms] ++ (toLE 2 e.owner.toNat ++
    (toLE 2 e.group.toNat ++ (toLE 8 e.time.toNat ++ (toLE 8 e.payload.toNat ++
      toLE 8 e.size.toNat)))))))

/-- The entry stored at `loc`. -/
def decode (m : Mem) (loc : Nat) : Entry where
  parent_id := UInt64.ofNat (m.qword loc)
  type := m (loc + 8)
  name := ⟨m.read (loc + 9) FILENAME_LEN, Mem.read_length _ _ _⟩
  perms := m (loc + 227)
  owner := UInt16.ofNat (ofLE (m.read (loc + 228) 2))
  group := UInt16.ofNat (ofLE (m.read (loc + 230) 2))
  time := UInt64.ofNat (m.qword (loc + 232))
  payload := UInt64.ofNat (m.qword (loc + 240))
  size := UInt64.ofNat (m.qword (loc + 248))

theorem encode_length (e : Entry) : e.encode.length = ENTRY_SIZE := by
  simp [encode, e.name.property, FILENAME_LEN, ENTRY_SIZE]

/-- Equal bytes decode to equal entries. -/
theorem decode_congr {m m' : Mem} {loc : Nat}
    (h : ∀ i, i < ENTRY_SIZE → m (loc + i) = m' (loc + i)) : decode m loc = decode m' loc := by
  have hread : ∀ o n, o + n ≤ 256 → m.read (loc + o) n = m'.read (loc + o) n := by
    intro o n hon
    apply Mem.read_congr
    intro i hi
    simpa [Nat.add_assoc] using h (o + i) (by simp only [ENTRY_SIZE]; omega)
  have hbyte : ∀ o, o < 256 → m (loc + o) = m' (loc + o) := fun o ho =>
    h o (by simpa [ENTRY_SIZE] using ho)
  have hfirst : m.read loc 8 = m'.read loc 8 := hread 0 8 (by omega)
  simp only [decode, Mem.qword, hfirst, hbyte 8 (by omega), hbyte 227 (by omega),
    hread 9 FILENAME_LEN (by decide), hread 228 2 (by omega), hread 230 2 (by omega),
    hread 232 8 (by omega), hread 240 8 (by omega), hread 248 8 (by omega)]

/-- An entry that was written is read back. -/
theorem decode_write_encode (m : Mem) (loc : Nat) (e : Entry) :
    decode (m.write loc e.encode) loc = e := by
  have hlen : e.encode.length = 256 := e.encode_length
  have hslice : ∀ o n, o + n ≤ 256 →
      (m.write loc e.encode).read (loc + o) n = (e.encode.drop o).take n :=
    fun o n hon => Mem.read_write_slice m loc (by omega)
  have hbyte : ∀ o, o < 256 → (m.write loc e.encode) (loc + o) = (e.encode).getD o 0 := by
    intro o ho
    rw [Mem.write_inside (by omega), List.getD_eq_getElem?_getD,
      List.getElem?_eq_getElem (by omega), Option.getD_some]
  have hfirst : (m.write loc e.encode).read loc 8 = e.encode.take 8 := hslice 0 8 (by omega)
  have h8 : ∀ x : UInt64, UInt64.ofNat (ofLE (toLE 8 x.toNat)) = x := by
    intro x
    rw [ofLE_toLE, Nat.mod_eq_of_lt (lt_of_lt_of_eq x.toNat_lt (by norm_num)), UInt64.ofNat_toNat]
  have h2 : ∀ x : UInt16, UInt16.ofNat (ofLE (toLE 2 x.toNat)) = x := by
    intro x
    rw [ofLE_toLE, Nat.mod_eq_of_lt (lt_of_lt_of_eq x.toNat_lt (by norm_num)), UInt16.ofNat_toNat]
  obtain ⟨parent_id, type, ⟨name, hname⟩, perms, owner, group, time, payload, size⟩ := e
  simp only [decode, Mem.qword, hfirst, hbyte 8 (by omega), hbyte 227 (by omega),
    hslice 9 FILENAME_LEN (by decide), hslice 228 2 (by omega), hslice 230 2 (by omega),
    hslice 232 8 (by omega), hslice 240 8 (by omega), hslice 248 8 (by omega)]
  simp [encode, List.drop_append, List.drop_of_length_le, List.take_of_length_le,
    hname, FILENAME_LEN, h8, h2]

end Entry

/-! ## Reading and writing the table -/

/-- The ways a command leaves without returning. -/
inductive Fault where
  /-- `rd_entry` aborts. -/
  | readOutOfBounds
  /-- `wr_entry` aborts. -/
  | writeOutOfBounds
  /-- An `entry_t` that a short `fread` left partly unset is used. -/
  | uninitialised
  /-- A character array is overrun, or a string is read past its end. -/
  | overrun
  /-- A loop that never ends. -/
  | endless
  deriving DecidableEq, Repr

/-- What is printed on `stderr` before an `abort`. -/
def Fault.text : Fault → String
  | .readOutOfBounds => "PANIC! ATTEMPTING TO READ DIRECTORY OUT OF BOUNDS!\n"
  | .writeOutOfBounds => "PANIC! ATTEMPTING TO WRITE DIRECTORY OUT OF BOUNDS!\n"
  | _ => ""

/-- `rd_entry(entry)`. -/
def rdEntry (g : Geometry) (img : Image) (entry : Nat) : Except Fault Entry :=
  let loc := u64 (g.dirstart * g.bytesperblock + entry * ENTRY_SIZE)
  if u64 ((g.dirstart + g.dirsize) * g.bytesperblock) ≤ loc then .error .readOutOfBounds
  else if loc + ENTRY_SIZE ≤ img.length then .ok (Entry.decode img.byte loc)
  else .error .uninitialised

/-- `wr_entry(entry, entry_src)`. -/
def wrEntry (g : Geometry) (img : Image) (entry : Nat) (entry_src : Entry) :
    Except Fault Image :=
  let loc := u64 (g.dirstart * g.bytesperblock + entry * ENTRY_SIZE)
  if u64 ((g.dirstart + g.dirsize) * g.bytesPerBlock) ≤ loc then .error .writeOutOfBounds
  else .ok (img.write loc entry_src.encode)

/-- `for (i = 0; ; i++) { entry_t entry = rd_entry(i); ... }`: the loop all table scans share.
Its body either goes on with a new loop state or leaves with a result. -/
def scan {σ ρ : Type} (g : Geometry) (img : Image) (body : Nat → Entry → σ → σ ⊕ ρ) :
    Nat → Nat → σ → Except Fault ρ
  | 0, _, _ => .error .endless
  | fuel + 1, i, s =>
      match rdEntry g img i with
      | .error e => .error e
      | .ok entry =>
          match body i entry s with
          | .inr r => .ok r
          | .inl s' => scan g img body fuel (i + 1) s'

/-- The number of values of the loop counter. -/
def SCAN_ROUNDS : Nat := 2 ^ 64

/-- The loop body of `search`; the result `none` stands for `SEARCH_FAILURE`. -/
def searchBody (g : Geometry) (name : List UInt8) (parent : UInt64) (type : UInt8)
    (i : Nat) (entry : Entry) (_ : Unit) : Unit ⊕ Option Nat :=
  if entry.parent_id = 0 then .inr none
  else if u64 g.entries ≤ i then .inr none
  else if entry.parent_id = parent ∧ entry.type = type ∧ entry.name.cstr = name then .inr (some i)
  else .inl ()

/-- `search(name, parent, type)`. -/
def search (g : Geometry) (img : Image) (name : List UInt8) (parent : UInt64) (type : UInt8) :
    Except Fault (Option Nat) :=
  scan g img (searchBody g name parent type) SCAN_ROUNDS 0 ()

/-- The loop body of `get_free_id`. -/
def freeIdBody (_ : Nat) (entry : Entry) (id : UInt64) : UInt64 ⊕ UInt64 :=
  if entry.parent_id = 0 then .inr id
  else if entry.type = 1 ∧ entry.payload = id then .inl (entry.payload + 1)
  else .inl id

/-- `get_free_id()`. -/
def getFreeId (g : Geometry) (img : Image) : Except Fault UInt64 :=
  scan g img freeIdBody SCAN_ROUNDS 0 1

/-- The body of the `find empty entry` loops of `mkdir_cmd` and `import_cmd`. -/
def emptyBody (i : Nat) (entry_i : Entry) (_ : Unit) : Unit ⊕ Nat :=
  if entry_i.parent_id = 0 ∨ entry_i.parent_id = DELETED_ENTRY then .inr i else .inl ()

/-- The `find empty entry` loop of `mkdir_cmd` and `import_cmd`. -/
def findEmpty (g : Geometry) (img : Image) : Except Fault Nat :=
  scan g img emptyBody SCAN_ROUNDS 0 ()

/-! ## `path_resolver` -/

/-- `path_result_t`. -/
structure PathResult where
  target_entry : Nat
  target : Entry
  parent : Entry
  name : List UInt8
  failure : Bool
  not_found : Bool
  deriving DecidableEq

/-- The result `path_resolver` starts from. -/
def PathResult.init : PathResult := ⟨0, Entry.zero, Entry.zero, [], false, false⟩

/-- The directory `path_resolver` starts from. -/
def rootParent : Entry := { Entry.zero with payload := ROOT_ID }

/-- The loop at label `next` of `path_resolver`: `name` holds the characters of the current
component read so far, `parent` the directory it is looked up in. -/
def resolveNext (g : Geometry) (img : Image) (type : UInt8) :
    List UInt8 → List UInt8 → Entry → Except Fault PathResult
  | [], name, parent =>
      if FILENAME_LEN ≤ name.length then .error .overrun
      else
        match search g img name parent.payload type with
        | .error e => .error e
        | .ok none => .ok { PathResult.init with not_found := true, parent := parent, name := name }
        | .ok (some i) =>
            match rdEntry g img i with
            | .error e => .error e
            | .ok target =>
                .ok { PathResult.init with
                  target := target, target_entry := i, parent := parent, name := name }
  | c :: path, name, parent =>
      if FILENAME_LEN ≤ name.length then .error .overrun
      else if c = SLASH then
        match search g img name parent.payload DIRECTORY_TYPE with
        | .error e => .error e
        | .ok none => .ok { PathResult.init with failure := true }
        | .ok (some i) =>
            match rdEntry g img i with
            | .error e => .error e
            | .ok parent => resolveNext g img type path [] parent
      else resolveNext g img type path (name ++ [c]) parent

/-- `path_resolver(path, type)`. -/
def pathResolver (g : Geometry) (img : Image) (path : List UInt8) (type : UInt8) :
    Except Fault PathResult :=
  if type = DIRECTORY_TYPE ∧ path = [SLASH] then
    .ok { PathResult.init with target := rootParent }
  else if type = FILE_TYPE ∧ path = [SLASH] then
    .ok { PathResult.init with failure := true }
  else
    match path with
    | c :: rest =>
        if c = SLASH then resolveNext g img type rest [] rootParent
        else resolveNext g img type (c :: rest) [] rootParent
    | [] => resolveNext g img type [] [] rootParent

end Windozz.Echfs

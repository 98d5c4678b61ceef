import Windozz.Basic.FirstDifference
import Windozz.Basic.Reads
import Windozz.Kernel.State

set_option autoImplicit false

/-! # The ACPI root table

`acpi_find_table` and `show_tables` walk the XSDT, or the RSDT if there is none. The two differ in
the width of their entries only; the walk of both is `walkRoot`, which reports the offsets in the
root table that it reads.

The number of entries is computed from the declared length by an unsigned subtraction. From the size
of the header on the walk stays within the declared length; below, the subtraction wraps and the
first entry already lies outside (`within_walkRoot_iff`).
-/

namespace Windozz.Kernel

/-! ## Tables in memory -/

/-- `acpi_status_t`. -/
inductive AcpiStatus where
  | success
  | integrity
  | memory
  | noTable
  deriving DecidableEq, Repr

/-- The pointers of `acpi_instance_t` to tables. -/
structure AcpiInstance where
  rsdt : Nat
  xsdt : Nat
  fadt : Nat
  dsdt : Nat
  deriving DecidableEq, Repr

/-- `sizeof(acpi_sdth_t)`. -/
def SIZEOF_SDTH : Nat := 36

/-- `MAP_MEMORY(x, y)`. -/
@[irreducible] def mapMemory (x _y : Nat) : Nat := u64 (x + PHYSICAL_MEMORY)

/-- `GET_PHYS(x)`. -/
def getPhys (x : Nat) : Nat := u64 (x + (2 ^ 64 - PHYSICAL_MEMORY))

/-- The memory as it is seen from the pointer `p`. -/
def tableAt (mem : Mem) (p : Nat) : Mem := fun k => mem (u64 (p + k))

/-- `header.length`. -/
def headerLength (table : Mem) : Nat := ofLE (table.read 4 4)

/-- `memcmp` from byte `i` on, with `n` bytes to go. Characters are signed. -/
def memcmpFrom (s1 s2 : Mem) : Nat → Nat → Int
  | 0, _ => 0
  | n + 1, i =>
      if s1 i ≠ s2 i then (s1 i).toInt8.toInt - (s2 i).toInt8.toInt
      else memcmpFrom s1 s2 n (i + 1)

/-- `memcmp`. -/
def memcmp (s1 s2 : Mem) (num : Nat) : Int := memcmpFrom s1 s2 num 0

/-- A `char` as an `int`. -/
def charValue (c : UInt8) : Int := c.toInt8.toInt

theorem charValue_injective : Function.Injective charValue := by
  intro x y h
  have h8 : x.toInt8 = y.toInt8 := Int8.toInt_inj.mp h
  simpa using congrArg Int8.toUInt8 h8

theorem memcmpFrom_eq (s1 s2 : Mem) (n i : Nat) :
    memcmpFrom s1 s2 n i = firstDifference charValue (s1.read i n) (s2.read i n) := by
  induction n generalizing i with
  | zero => rfl
  | succ n ih =>
      rw [memcmpFrom, Mem.read, Mem.read, firstDifference, ih]
      by_cases heq : s1 i = s2 i
      · simp [heq]
      · rw [if_pos heq, if_neg fun h => heq (charValue_injective h)]
        rfl

/-- The loop of `memcmp` stops at the first difference. -/
theorem memcmp_eq (s1 s2 : Mem) (num : Nat) :
    memcmp s1 s2 num = firstDifference charValue (s1.read 0 num) (s2.read 0 num) :=
  memcmpFrom_eq s1 s2 num 0

/-- `memcmp` finds equal bytes equal. -/
theorem memcmp_eq_zero_iff (s1 s2 : Mem) (n : Nat) :
    memcmp s1 s2 n = 0 ↔ s1.read 0 n = s2.read 0 n := by
  rw [memcmp_eq]
  exact firstDifference_eq_zero_iff charValue_injective (by rw [Mem.read_length, Mem.read_length])

/-! ## The walk -/

/-- `(length - sizeof(acpi_sdth_t)) / width`, in 64 bits. -/
def tableCount (length width : Nat) : Nat := u64 (length + (2 ^ 64 - SIZEOF_SDTH)) / width

/-- `tables[i]`. -/
def rootEntry (root : Mem) (width i : Nat) : Reads Nat :=
  Reads.field root (u64 (SIZEOF_SDTH + i * width)) width

/-- The loop over the entries of a root table. The body goes on with a new state or leaves the
function. -/
def walkRoot {σ ρ : Type} (root : Mem) (width : Nat) (body : Reads Nat → σ → Reads (σ ⊕ ρ))
    (s : σ) : Reads (σ ⊕ ρ) := do
  let length ← Reads.field root 4 4
  Reads.forUntil (fun i => body (rootEntry root width i)) (tableCount length width) 0 s

/-- The root table in use and the width of its entries. -/
def AcpiInstance.root (inst : AcpiInstance) : Nat × Nat :=
  if inst.xsdt ≠ 0 then (inst.xsdt, 8) else (inst.rsdt, 4)

/-! ### `acpi_find_table` -/

/-- The loop body of `acpi_find_table`; `table` is what the output points to. -/
def findBody (mem signature : Mem) (index table : Nat) (entry : Reads Nat) (current_index : Nat) :
    Reads (Nat ⊕ AcpiStatus × Nat) := do
  let header := mapMemory (← entry) SIZEOF_SDTH
  if header = 0 then return .inr (.memory, table)
  else
    let current_index :=
      if memcmp (tableAt mem header) signature 4 = 0 then current_index + 1 else current_index
    if index < current_index then
      let header := mapMemory (← entry) (headerLength (tableAt mem header))
      if header = 0 then return .inr (.memory, table)
      else return .inr (.success, header)
    else return .inl current_index

/-- `acpi_find_table`: the status and what `*table` is afterwards. -/
def acpiFindTable (mem : Mem) (inst : AcpiInstance) (signature : Mem) (index table : Nat) :
    Reads (AcpiStatus × Nat) := do
  match ← walkRoot (tableAt mem inst.root.1) inst.root.2 (findBody mem signature index table) 0 with
  | .inr result => return result
  | .inl _ => return (.noTable, table)

/-- The pointer, or null for a status other than `ACPI_SUCCESS`. -/
def foundPointer : AcpiStatus × Nat → Nat
  | (.success, ptr) => ptr
  | _ => 0

/-- `laihost_scan`. The output of `acpi_find_table` is uninitialised; it is not returned unless
set. -/
def laihostScan (mem : Mem) (inst : AcpiInstance) (name : Mem) (index uninitialised : Nat) : Nat :=
  foundPointer (acpiFindTable mem inst name index uninitialised).value

/-! ### `show_tables` -/

/-- `init_fadt`. -/
def initFadt (mem : Mem) (fadt : Nat) (inst : AcpiInstance) : AcpiStatus × AcpiInstance :=
  let f := tableAt mem fadt
  let inst := { inst with fadt := mapMemory (getPhys fadt) (headerLength f) }
  if inst.fadt = 0 then (.memory, inst)
  else
    let dsdt :=
      if 2 ≤ f 8 then if f.qword 140 ≠ 0 then f.qword 140 else ofLE (f.read 40 4)
      else ofLE (f.read 40 4)
    let inst := { inst with dsdt := mapMemory dsdt SIZEOF_SDTH }
    if inst.dsdt = 0 then (.memory, inst)
    else
      let inst := { inst with dsdt := mapMemory dsdt (headerLength (tableAt mem inst.dsdt)) }
      if inst.dsdt = 0 then (.memory, inst) else (.success, inst)

/-- The bytes of a signature. -/
def signatureBytes (s : List UInt8) : Mem := fun i => s.getD i 0

/-- `"FACP"`. -/
def FACP : List UInt8 := [70, 65, 67, 80]

/-- The loop body of `show_tables`, less what it prints. -/
def showBody (mem : Mem) (entry : Reads Nat) (inst : AcpiInstance) :
    Reads (AcpiInstance ⊕ AcpiStatus × AcpiInstance) := do
  let header := mapMemory (← entry) SIZEOF_SDTH
  if header = 0 then return .inr (.memory, inst)
  else if memcmp (tableAt mem header) (signatureBytes FACP) 4 = 0 then
    match initFadt mem header inst with
    | (.success, inst) => return .inl inst
    | (status, inst) => return .inr (status, inst)
  else return .inl inst

/-- `show_tables`. -/
def showTables (mem : Mem) (inst : AcpiInstance) : Reads (AcpiStatus × AcpiInstance) := do
  match ← walkRoot (tableAt mem inst.root.1) inst.root.2 (showBody mem) inst with
  | .inr result => return result
  | .inl inst => return (.success, inst)

/-! ## What the walks read -/

section Walk

variable {σ ρ : Type} {root : Mem} {width : Nat} {body : Reads Nat → σ → Reads (σ ⊕ ρ)}

/-- Below the size of the header the subtraction wraps. -/
theorem tableCount_pos {length : Nat} (h : length < SIZEOF_SDTH) (hwidth : width ≤ 8) (h0 : 0 < width) :
    0 < tableCount length width := by
  unfold SIZEOF_SDTH at h
  rw [tableCount, SIZEOF_SDTH, u64_of_lt (by omega)]
  exact Nat.div_pos (by omega) h0

/-- From the size of the header on it does not. -/
theorem tableCount_eq {length : Nat} (h : SIZEOF_SDTH ≤ length) (hlt : length < 2 ^ 32) :
    tableCount length width = (length - SIZEOF_SDTH) / width := by
  unfold SIZEOF_SDTH at h
  have hwrap : length + (2 ^ 64 - 36) = length - 36 + 2 ^ 64 := by omega
  rw [tableCount, SIZEOF_SDTH, hwrap, u64, Nat.add_mod_right, Nat.mod_eq_of_lt (by omega)]

theorem headerLength_lt (table : Mem) : headerLength table < 2 ^ 32 := by
  have h := ofLE_lt (table.read 4 4)
  rw [Mem.read_length] at h
  exact lt_of_lt_of_eq h (by norm_num)

/-- **The root walks stay inside their table** exactly when its declared length is at least the
size of the header, whatever the body does with an entry it reads. -/
theorem within_walkRoot_iff (h0 : 0 < width) (hwidth : width ≤ 8)
    (hbody : ∀ (P : Nat → Prop) entry s, Reads.Within P (body entry s) ↔ Reads.Within P entry)
    (s : σ) :
    Reads.Within (· < headerLength root) (walkRoot root width body s)
      ↔ SIZEOF_SDTH ≤ headerLength root := by
  have hlt := headerLength_lt root
  have hvalue : (Reads.field root 4 4).value = headerLength root := rfl
  rw [walkRoot, Reads.within_bind, hvalue, Reads.within_field_lt (by decide)]
  constructor
  · rintro ⟨-, hloop⟩
    by_contra hshort
    have hpos := tableCount_pos (not_le.mp hshort) hwidth h0
    obtain ⟨n, hn⟩ := Nat.exists_eq_succ_of_ne_zero hpos.ne'
    rw [hn] at hloop
    -- the first round reads the first entry, behind the header
    have hfirst := (hbody _ _ _).mp (Reads.within_forUntil_succ.mp hloop).1
    rw [rootEntry, Reads.within_field_lt h0, Nat.zero_mul, SIZEOF_SDTH, u64_of_lt (by decide)]
      at hfirst
    unfold SIZEOF_SDTH at hshort
    omega
  · intro hle
    refine ⟨by unfold SIZEOF_SDTH at hle; omega, Reads.within_forUntil _ _ _ fun k hk s => ?_⟩
    rw [tableCount_eq hle hlt] at hk
    rw [hbody, rootEntry, Reads.within_field_lt h0, Nat.zero_add]
    have hround : (k + 1) * width ≤ (headerLength root - SIZEOF_SDTH) / width * width :=
      Nat.mul_le_mul_right width (Nat.succ_le_of_lt hk)
    have hall := Nat.div_mul_le_self (headerLength root - SIZEOF_SDTH) width
    rw [Nat.succ_mul] at hround
    rw [u64_of_lt (by omega)]
    omega

/-- A round of `acpi_find_table` reads nothing but its entry, once or twice. -/
theorem within_findBody {mem signature : Mem} {index table : Nat} (P : Nat → Prop)
    (entry : Reads Nat) (current_index : Nat) :
    Reads.Within P (findBody mem signature index table entry current_index)
      ↔ Reads.Within P entry := by
  rw [findBody, Reads.within_bind]
  refine ⟨fun h => h.1, fun h => ⟨h, ?_⟩⟩
  extract_lets header count
  by_cases hnull : header = 0
  · rw [if_pos hnull]
    exact Reads.within_pure _
  · rw [if_neg hnull]
    by_cases hmatch : index < count
    · rw [if_pos hmatch, Reads.within_bind]
      refine ⟨h, ?_⟩
      extract_lets header'
      by_cases hnull' : header' = 0
      · rw [if_pos hnull']
        exact Reads.within_pure _
      · rw [if_neg hnull']
        exact Reads.within_pure _
    · rw [if_neg hmatch]
      exact Reads.within_pure _

/-- A round of `show_tables` reads nothing but its entry. -/
theorem within_showBody {mem : Mem} (P : Nat → Prop) (entry : Reads Nat) (inst : AcpiInstance) :
    Reads.Within P (showBody mem entry inst) ↔ Reads.Within P entry := by
  rw [showBody, Reads.within_bind]
  refine ⟨fun h => h.1, fun h => ⟨h, ?_⟩⟩
  extract_lets header
  by_cases hnull : header = 0
  · rw [if_pos hnull]
    exact Reads.within_pure _
  · rw [if_neg hnull]
    by_cases hfadt : memcmp (tableAt mem header) (signatureBytes FACP) 4 = 0
    · rw [if_pos hfadt]
      generalize initFadt mem header inst = out
      obtain ⟨status, inst'⟩ := out
      cases status <;> exact Reads.within_pure _
    · rw [if_neg hfadt]
      exact Reads.within_pure _

end Walk

theorem AcpiInstance.root_width (inst : AcpiInstance) : 0 < inst.root.2 ∧ inst.root.2 ≤ 8 := by
  rw [root]
  split <;> simp

/-- The reads of `acpi_find_table` from its root table. -/
theorem within_acpiFindTable_iff (mem : Mem) (inst : AcpiInstance) (signature : Mem)
    (index table : Nat) :
    Reads.Within (· < headerLength (tableAt mem inst.root.1))
        (acpiFindTable mem inst signature index table)
      ↔ SIZEOF_SDTH ≤ headerLength (tableAt mem inst.root.1) := by
  obtain ⟨h0, hwidth⟩ := inst.root_width
  rw [acpiFindTable, Reads.within_bind, within_walkRoot_iff h0 hwidth within_findBody]
  refine and_iff_left ?_
  generalize (walkRoot _ _ (findBody mem signature index table) 0).value = out
  cases out <;> exact Reads.within_pure _

/-- The reads of `show_tables` from its root table. -/
theorem within_showTables_iff (mem : Mem) (inst : AcpiInstance) :
    Reads.Within (· < headerLength (tableAt mem inst.root.1)) (showTables mem inst)
      ↔ SIZEOF_SDTH ≤ headerLength (tableAt mem inst.root.1) := by
  obtain ⟨h0, hwidth⟩ := inst.root_width
  rw [showTables, Reads.within_bind, within_walkRoot_iff h0 hwidth within_showBody]
  refine and_iff_left ?_
  generalize (walkRoot _ _ (showBody mem) inst).value = out
  cases out <;> exact Reads.within_pure _

/-! ## Picking from a list -/

section Pick

variable {α : Type} {ok has : α → Bool} {a : α} {l : List α} {index : Nat}

/-- Element number `index` of those with `has`, in front of the first element that is not `ok`. -/
def pick (ok has : α → Bool) (index : Nat) (l : List α) : Option α :=
  ((l.takeWhile ok).filter has)[index]?

theorem pick_stop (hok : ok a = false) : pick ok has index (a :: l) = none := by
  simp [pick, hok]

theorem pick_other (hok : ok a = true) (hhas : has a = false) :
    pick ok has index (a :: l) = pick ok has index l := by
  simp [pick, hok, hhas]

theorem pick_zero (hok : ok a = true) (hhas : has a = true) :
    pick ok has 0 (a :: l) = some a := by
  simp [pick, hok, hhas]

theorem pick_succ (hok : ok a = true) (hhas : has a = true) :
    pick ok has (index + 1) (a :: l) = pick ok has index l := by
  simp [pick, hok, hhas]

end Pick

/-! ## What `acpi_find_table` finds -/

/-- The addresses a root table lists. -/
def listedTables (mem : Mem) (inst : AcpiInstance) : List Nat :=
  let root := tableAt mem inst.root.1
  (List.range ((headerLength root - SIZEOF_SDTH) / inst.root.2)).map fun i =>
    ofLE (root.read (SIZEOF_SDTH + i * inst.root.2) inst.root.2)

/-- The pointer to the table at the address is not null. -/
def mappable (p : Nat) : Bool := mapMemory p SIZEOF_SDTH != 0

/-- The first four bytes of the table at the address are those of the signature. -/
def matching (mem signature : Mem) (p : Nat) : Bool :=
  (tableAt mem (mapMemory p SIZEOF_SDTH)).read 0 4 == signature.read 0 4

/-- What `acpi_find_table` is to find in a list of addresses. -/
def findListed (mem signature : Mem) (index table : Nat) (listed : List Nat) : AcpiStatus × Nat :=
  match pick mappable (matching mem signature) index listed with
  | some p => (.success, mapMemory p SIZEOF_SDTH)
  | none => if listed.all mappable then (.noTable, table) else (.memory, table)

section Find

variable {mem signature : Mem} {index table p : Nat} {listed : List Nat}

theorem mappable_iff : mappable p = true ↔ mapMemory p SIZEOF_SDTH ≠ 0 := bne_iff_ne

theorem matching_iff : matching mem signature p = true
    ↔ memcmp (tableAt mem (mapMemory p SIZEOF_SDTH)) signature 4 = 0 := by
  rw [matching, beq_iff_eq, memcmp_eq_zero_iff]

theorem findListed_null (hnull : mappable p = false) :
    findListed mem signature index table (p :: listed) = (.memory, table) := by
  rw [findListed, pick_stop hnull, List.all_cons, hnull]
  rfl

theorem findListed_other (hnull : mappable p = true) (hmatch : matching mem signature p = false) :
    findListed mem signature index table (p :: listed)
      = findListed mem signature index table listed := by
  rw [findListed, pick_other hnull hmatch, List.all_cons, hnull, Bool.true_and]
  rfl

theorem findListed_first (hnull : mappable p = true) (hmatch : matching mem signature p = true) :
    findListed mem signature 0 table (p :: listed) = (.success, mapMemory p SIZEOF_SDTH) := by
  rw [findListed, pick_zero hnull hmatch]

theorem findListed_next (hnull : mappable p = true) (hmatch : matching mem signature p = true) :
    findListed mem signature (index + 1) table (p :: listed)
      = findListed mem signature index table listed := by
  rw [findListed, pick_succ hnull hmatch, List.all_cons, hnull, Bool.true_and]
  rfl

/-- The match counter after the entry `p`. -/
def countMatch (mem signature : Mem) (p current_index : Nat) : Nat :=
  if matching mem signature p then current_index + 1 else current_index

/-- What a round of `acpi_find_table` makes of the entry `p`. -/
def findRound (mem signature : Mem) (index table p current_index : Nat) : Nat ⊕ AcpiStatus × Nat :=
  if mappable p = false then .inr (.memory, table)
  else if index < countMatch mem signature p current_index then
    .inr (.success, mapMemory p SIZEOF_SDTH)
  else .inl (countMatch mem signature p current_index)

theorem value_findBody (entry : Reads Nat) (current_index : Nat) :
    (findBody mem signature index table entry current_index).value
      = findRound mem signature index table entry.value current_index := by
  rw [findBody, Reads.value_bind, findRound]
  extract_lets header count
  have hcount : count = countMatch mem signature entry.value current_index :=
    ite_congr (propext matching_iff.symm) (fun _ => rfl) fun _ => rfl
  by_cases hnull : header = 0
  · have hunmappable : mappable entry.value = false :=
      Bool.eq_false_iff.mpr fun h => mappable_iff.mp h hnull
    rw [if_pos hnull, if_pos hunmappable]
    rfl
  · have hmappable : ¬ mappable entry.value = false := by
      rw [Bool.not_eq_false]
      exact mappable_iff.mpr hnull
    rw [if_neg hnull, if_neg hmappable, hcount]
    by_cases hlast : index < countMatch mem signature entry.value current_index
    · rw [if_pos hlast, if_pos hlast, Reads.value_bind]
      extract_lets header'
      have hsame : header' = header := by
        unfold header' header mapMemory
        rfl
      rw [hsame, if_neg hnull]
      rfl
    · rw [if_neg hlast, if_neg hlast]
      rfl

/-- What `acpi_find_table` makes of the end of its loop. -/
def findResult (table : Nat) : Nat ⊕ AcpiStatus × Nat → AcpiStatus × Nat
  | .inr result => result
  | .inl _ => (.noTable, table)

/-- The loop of `acpi_find_table` from entry `i` on, after `current_index` matches. The tables still
to be passed over are those the counter has not counted. -/
theorem value_findLoop (body : Nat → Nat → Reads (Nat ⊕ AcpiStatus × Nat)) (address : Nat → Nat)
    (hbody : ∀ i current_index, (body i current_index).value
      = findRound mem signature index table (address i) current_index) (n : Nat) :
    ∀ (i current_index : Nat), current_index ≤ index →
      findResult table (Reads.forUntil body n i current_index).value
        = findListed mem signature (index - current_index) table
            ((List.range' i n).map address) := by
  induction n with
  | zero => exact fun _ _ _ => rfl
  | succ n ih =>
      intro i current_index hle
      rw [List.range'_succ, List.map_cons, Reads.value_forUntil_succ, hbody, findRound]
      by_cases hmappable : mappable (address i) = false
      · rw [findListed_null hmappable, if_pos hmappable]
        rfl
      · rw [if_neg hmappable]
        rw [Bool.not_eq_false] at hmappable
        by_cases hmatch : matching mem signature (address i) = true
        · have hcount : countMatch mem signature (address i) current_index
              = current_index + 1 := if_pos hmatch
          rw [hcount]
          -- the counter is compared after it is raised
          by_cases hlast : index < current_index + 1
          · have hzero : index - current_index = 0 := by omega
            rw [if_pos hlast, hzero, findListed_first hmappable hmatch]
            rfl
          · have hnext : index - current_index = index - (current_index + 1) + 1 := by omega
            rw [if_neg hlast, hnext, findListed_next hmappable hmatch]
            exact ih (i + 1) (current_index + 1) (by omega)
        · have hcount : countMatch mem signature (address i) current_index
              = current_index := if_neg hmatch
          rw [hcount, if_neg (not_lt.mpr hle),
            findListed_other hmappable (Bool.eq_false_iff.mpr hmatch)]
          exact ih (i + 1) current_index hle

end Find

/-- The entries that the walk reads are the listed addresses. -/
theorem entries_eq_listed (mem : Mem) (inst : AcpiInstance)
    (hlength : SIZEOF_SDTH ≤ headerLength (tableAt mem inst.root.1)) :
    (List.range' 0 (tableCount (headerLength (tableAt mem inst.root.1)) inst.root.2)).map
        (fun i => (rootEntry (tableAt mem inst.root.1) inst.root.2 i).value)
      = listedTables mem inst := by
  have hlt := headerLength_lt (tableAt mem inst.root.1)
  rw [tableCount_eq hlength hlt, ← List.range_eq_range']
  refine List.map_congr_left fun i hi => ?_
  have hround := Nat.mul_le_mul_right inst.root.2 (List.mem_range.mp hi).le
  have hall := Nat.div_mul_le_self (headerLength (tableAt mem inst.root.1) - SIZEOF_SDTH)
    inst.root.2
  rw [rootEntry, Reads.value_field, u64_of_lt (by omega)]

/-- What `acpi_find_table` returns is made of the end of its loop. -/
theorem value_acpiFindTable_walk (mem : Mem) (inst : AcpiInstance) (signature : Mem)
    (index table : Nat) : (acpiFindTable mem inst signature index table).value
      = findResult table (walkRoot (tableAt mem inst.root.1) inst.root.2
          (findBody mem signature index table) 0).value := by
  rw [acpiFindTable, Reads.value_bind]
  cases (walkRoot (tableAt mem inst.root.1) inst.root.2
    (findBody mem signature index table) 0).value <;> rfl

/-- What `acpi_find_table` finds is found in the list. -/
theorem value_acpiFindTable (mem : Mem) (inst : AcpiInstance) (signature : Mem)
    (index table : Nat) (hlength : SIZEOF_SDTH ≤ headerLength (tableAt mem inst.root.1)) :
    (acpiFindTable mem inst signature index table).value
      = findListed mem signature index table (listedTables mem inst) := by
  have hloop := value_findLoop
    (fun i => findBody mem signature index table (rootEntry (tableAt mem inst.root.1) inst.root.2 i))
    _ (fun i => value_findBody (rootEntry (tableAt mem inst.root.1) inst.root.2 i))
    (tableCount (headerLength (tableAt mem inst.root.1)) inst.root.2) 0 0 (Nat.zero_le index)
  rw [Nat.sub_zero, entries_eq_listed mem inst hlength] at hloop
  rw [value_acpiFindTable_walk, ← hloop, walkRoot, Reads.value_bind]
  rfl

/-- `laihost_scan` returns the null pointer for every table that is not found. -/
theorem laihostScan_eq (mem : Mem) (inst : AcpiInstance) (name : Mem) (index uninitialised : Nat)
    (hlength : SIZEOF_SDTH ≤ headerLength (tableAt mem inst.root.1)) :
    laihostScan mem inst name index uninitialised =
      ((pick mappable (matching mem name) index (listedTables mem inst)).map
        (mapMemory · SIZEOF_SDTH)).getD 0 := by
  rw [laihostScan, value_acpiFindTable mem inst name index _ hlength, findListed]
  cases pick mappable (matching mem name) index (listedTables mem inst) with
  | some p => rw [Option.map_some, Option.getD_some, foundPointer]
  | none =>
      rw [Option.map_none, Option.getD_none]
      cases (listedTables mem inst).all mappable
      · rfl
      · rfl

/-- **`acpi_find_table` finds the tables of a root table by their place in the list.** Of the listed
tables with the signature, it returns number `index`; two root tables that list the same addresses
give the same answer. The search ends with `ACPI_MEMORY` at an address whose pointer is null. -/
theorem acpiFindTable_eq (mem : Mem) (inst : AcpiInstance) (signature : Mem) (index table : Nat)
    (hlength : SIZEOF_SDTH ≤ headerLength (tableAt mem inst.root.1)) :
    (acpiFindTable mem inst signature index table).value
        = findListed mem signature index table (listedTables mem inst) ∧
      ∀ inst' : AcpiInstance, SIZEOF_SDTH ≤ headerLength (tableAt mem inst'.root.1) →
        listedTables mem inst' = listedTables mem inst →
        (acpiFindTable mem inst' signature index table).value
          = (acpiFindTable mem inst signature index table).value := by
  have hfind := value_acpiFindTable mem inst signature index table hlength
  refine ⟨hfind, fun inst' hlength' hlisted => ?_⟩
  rw [value_acpiFindTable mem inst' signature index table hlength', hfind, hlisted]

/-- A memory whose physical part starts with the bytes. -/
def physical (bytes : List UInt8) : Mem := fun a => bytes.getD (a - PHYSICAL_MEMORY) 0

/-- `"APIC"`. -/
def APIC : List UInt8 := [65, 80, 73, 67]

/-- `"SSDT"`. -/
def SSDT : List UInt8 := [83, 83, 68, 84]

/-- An RSDT at address 8 and an XSDT at address 64, which list the four tables behind them: an SSDT,
the MADT and two more SSDTs. -/
def twoRoots : Mem := physical (List.replicate 8 0 ++
  [82, 83, 68, 84] ++ toLE 4 52 ++ List.replicate 28 0 ++
    toLE 4 136 ++ toLE 4 140 ++ toLE 4 144 ++ toLE 4 148 ++ List.replicate 4 0 ++
  [88, 83, 68, 84] ++ toLE 4 68 ++ List.replicate 28 0 ++
    toLE 8 136 ++ toLE 8 140 ++ toLE 8 144 ++ toLE 8 148 ++ List.replicate 4 0 ++
  SSDT ++ APIC ++ SSDT ++ SSDT)

/-- The root table is the RSDT, or the XSDT. -/
def rsdtInstance : AcpiInstance := ⟨PHYSICAL_MEMORY + 8, 0, 0, 0⟩

def xsdtInstance : AcpiInstance := ⟨0, PHYSICAL_MEMORY + 64, 0, 0⟩

/-- Through either of them the second SSDT is found. -/
theorem acpiFindTable_second :
    (acpiFindTable twoRoots rsdtInstance (signatureBytes SSDT) 1 0).value
        = (.success, PHYSICAL_MEMORY + 144) ∧
      (acpiFindTable twoRoots xsdtInstance (signatureBytes SSDT) 1 0).value
        = (.success, PHYSICAL_MEMORY + 144) := by
  obtain ⟨hfind, hsame⟩ := acpiFindTable_eq twoRoots rsdtInstance (signatureBytes SSDT) 1 0
    (by decide +kernel)
  have hrsdt : (acpiFindTable twoRoots rsdtInstance (signatureBytes SSDT) 1 0).value
      = (.success, PHYSICAL_MEMORY + 144) := by
    rw [hfind]
    decide +kernel
  exact ⟨hrsdt, (hsame xsdtInstance (by decide +kernel) (by decide +kernel)).trans hrsdt⟩

/-- An XSDT at address 8 that lists the address whose pointer is null. -/
def nullRoot : Mem := physical (List.replicate 8 0 ++ [88, 83, 68, 84] ++ [44, 0, 0, 0] ++
  List.replicate 28 0 ++ [0, 0, 0, 0, 0, 128, 0, 0])

/-- No listed table matches, and yet the answer is not `ACPI_NO_TABLE`. -/
theorem acpiFindTable_null :
    let inst : AcpiInstance := ⟨0, PHYSICAL_MEMORY + 8, 0, 0⟩
    SIZEOF_SDTH ≤ headerLength (tableAt nullRoot inst.root.1) ∧
      listedTables nullRoot inst = [2 ^ 47] ∧
      (∀ p ∈ listedTables nullRoot inst, matching nullRoot (signatureBytes APIC) p = false) ∧
      (acpiFindTable nullRoot inst (signatureBytes APIC) 0 0).value = (.memory, 0) := by
  decide +kernel

end Windozz.Kernel

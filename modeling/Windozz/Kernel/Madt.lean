import Windozz.Kernel.Acpi
import Windozz.Kernel.Ioapic
import Windozz.Kernel.Mmio

set_option autoImplicit false

/-! # The MADT

The walk of `apic_init` over the records of the MADT. It hands each record to the function for its
type and goes on by the length the record declares; a record of a length of at most 2 ends it. The
functions check nothing: neither that the record has room for what they read (`within_apicInit_iff`)
nor that their table has room for what they add (`madtWalk_bounded_iff`).

Pointers into the MADT are offsets, and the device registers are those of `Ioapic.lean`. A call of
`vmm_create_mmio` that stops ends the walk with it.
-/

namespace Windozz.Kernel

/-! ## Constants -/

def MAX_CPUS : Nat := 256
def MAX_IOAPICS : Nat := 16
def MAX_OVERRIDES : Nat := 16
def MADT_CPU : UInt8 := 0
def MADT_IOAPIC : UInt8 := 1
def MADT_OVERRIDE : UInt8 := 2

/-- The offset of `data` in `acpi_madt_t`. -/
def MADT_DATA : Nat := 44

/-- `"lapic"`. -/
def lapicName : List UInt8 := [108, 97, 112, 105, 99]

/-- `"ioapic"`. -/
def ioapicName : List UInt8 := [105, 111, 97, 112, 105, 99]

/-! ## State -/

/-- The fields of `cpu_t` that the walk sets. -/
structure CpuIds where
  apic_id : Nat
  acpi_id : Nat
  deriving DecidableEq, Repr

/-- The globals of `apic.c`, and the rest of the kernel. A table holds the entries written so far,
and its length is its counter. The physical address and the pointer of each IOAPIC stand apart. -/
structure Topology where
  cpus : List CpuIds
  cpu_slot_count : Nat
  mmios : List (Nat × Nat)
  apic : Apic
  lapic_physical : Nat
  lapic : Nat
  kernel : State

/-! ## The functions -/

namespace Madt

variable (madt : Mem)

/-- `create_cpu`. -/
def createCpu (o : Nat) (t : Topology) : Reads Topology := do
  let apic_id ← Reads.byte madt (o + 3)
  let acpi_id ← Reads.byte madt (o + 2)
  let flags ← Reads.field madt (o + 4) 4
  let t := { t with cpu_slot_count := t.cpu_slot_count + 1 }
  if flags &&& 1 ≠ 0 then return { t with cpus := t.cpus ++ [⟨apic_id.toNat, acpi_id.toNat⟩] }
  else return t

/-- `create_ioapic`. -/
def createIoapic (o : Nat) (t : Topology) : Reads (Except Stop Topology) := do
  let mmio ← Reads.field madt (o + 4) 4
  match vmmCreateMmio mmio 1 ioapicName t.kernel with
  | .error stop => return .error stop
  | .ok (virtual, kernel) =>
      let apic_id ← Reads.byte madt (o + 2)
      let gsi ← Reads.field madt (o + 8) 4
      return .ok { t with
        mmios := t.mmios ++ [(mmio, virtual)]
        apic := Kernel.createIoapic apic_id.toNat gsi t.apic
        kernel := kernel }

/-- Numbers can be taken modulo 256. -/
instance byteModulus : NeZero 256 := ⟨by decide⟩

/-- `create_override`. -/
def createOverride (o : Nat) (t : Topology) : Reads Topology := do
  let irq ← Reads.byte madt (o + 3)
  let gsi ← Reads.field madt (o + 4) 4
  let flags ← Reads.field madt (o + 8) 2
  return { t with apic := Kernel.createOverride (Fin.ofNat 256 irq.toNat) gsi flags t.apic }

/-- The `switch` over the type of the record at `o`. -/
def createEntry (o : Nat) (t : Topology) : Reads (Except Stop Topology) := do
  let type ← Reads.byte madt o
  if type = MADT_CPU then return .ok (← createCpu madt o t)
  else if type = MADT_IOAPIC then createIoapic madt o t
  else if type = MADT_OVERRIDE then return .ok (← createOverride madt o t)
  else return .ok t

/-- One round of the walk, with the offset of the next record. -/
def round (length : Nat) : Nat × Topology → Reads ((Nat × Topology) ⊕ Except Stop Topology)
  | (o, t) => do
      if o + 2 < length then
        let size ← Reads.byte madt (o + 1)
        if size ≤ 2 then return .inr (.ok t)
        else
          match ← createEntry madt o t with
          | .error stop => return .inr (.error stop)
          | .ok t =>
              let size ← Reads.byte madt (o + 1)
              return .inl (o + size.toNat, t)
      else return .inr (.ok t)

/-- The walk, for at most one round more than the table has bytes. -/
def walk (t : Topology) : Reads ((Nat × Topology) ⊕ Except Stop Topology) := do
  let length ← Reads.field madt 4 4
  Reads.forUntil (fun _ => round madt length) (length + 1) 0 (MADT_DATA, t)

end Madt

/-- `apic_init` from the MADT on, up to the check of its flags. -/
def apicInit (madt : Mem) (t : Topology) :
    Reads ((Nat × Topology) ⊕ Except Stop (Topology × Bool)) := do
  let lapic_physical ← Reads.field madt 36 4
  match vmmCreateMmio lapic_physical 1 lapicName t.kernel with
  | .error stop => return .inr (.error stop)
  | .ok (lapic, kernel) =>
      let _ ← Reads.field madt 40 4
      let t := { t with lapic_physical := lapic_physical, lapic := lapic, kernel := kernel }
      match ← Madt.walk madt t with
      | .inl unfinished => return .inl unfinished
      | .inr (.error stop) => return .inr (.error stop)
      | .inr (.ok t) =>
          if t.apic.ioapics = [] then return .inr (.error .hang)
          else if t.cpus = [] then return .inr (.error .hang)
          else
            let flags ← Reads.field madt 40 4
            return .inr (.ok (t, flags &&& 1 ≠ 0))

/-! ## The records of a table -/

namespace Madt

variable {madt : Mem} {length o n : Nat} {t t' : Topology} {stop : Stop}

/-- The record at `o` is handed to a function. -/
def Handled (madt : Mem) (length o : Nat) : Prop := o + 2 < length ∧ 2 < madt (o + 1)

instance : Decidable (Handled madt length o) := inferInstanceAs (Decidable (_ ∧ _))

/-- The record at `o` declares an enabled CPU. -/
def isEnabledCpu (madt : Mem) (o : Nat) : Bool :=
  madt o = MADT_CPU && ofLE (madt.read (o + 4) 4) &&& 1 != 0

/-- What the record at `o` leaves of the kernel: the record of an IOAPIC has it mapped. -/
def kernelAfter (madt : Mem) (o : Nat) (k : State) : Except Stop State :=
  if madt o = MADT_IOAPIC then
    (vmmCreateMmio (ofLE (madt.read (o + 4) 4)) 1 ioapicName k).map Prod.snd
  else .ok k

/-- The records that a walk of `n` rounds from `o` on handles, each with the kernel before it. -/
def handled (madt : Mem) (length : Nat) : Nat → Nat → State → List (Nat × State)
  | 0, _, _ => []
  | n + 1, o, k =>
      if Handled madt length o then
        (o, k) :: match kernelAfter madt o k with
          | .error _ => []
          | .ok k => handled madt length n (o + (madt (o + 1)).toNat) k
      else []

/-- The records that the walk of the MADT handles. -/
def records (madt : Mem) (k : State) : List (Nat × State) :=
  handled madt (headerLength madt) (headerLength madt + 1) MADT_DATA k

/-! ### One record -/

theorem value_createCpu : (createCpu madt o t).value =
    { t with
      cpu_slot_count := t.cpu_slot_count + 1
      cpus := t.cpus ++ if ofLE (madt.read (o + 4) 4) &&& 1 ≠ 0 then
        [⟨(madt (o + 3)).toNat, (madt (o + 2)).toNat⟩] else [] } := by
  rw [createCpu, Reads.value_bind, Reads.value_bind, Reads.value_bind, Reads.value_field,
    Reads.value_byte, Reads.value_byte]
  by_cases h : ofLE (madt.read (o + 4) 4) &&& 1 ≠ 0
  · rw [if_pos h, if_pos h]
    rfl
  · rw [if_neg h, if_neg h, List.append_nil]
    rfl

theorem value_createIoapic : (createIoapic madt o t).value =
    (vmmCreateMmio (ofLE (madt.read (o + 4) 4)) 1 ioapicName t.kernel).map fun r =>
      { t with
        mmios := t.mmios ++ [(ofLE (madt.read (o + 4) 4), r.1)]
        apic := Kernel.createIoapic (madt (o + 2)).toNat (ofLE (madt.read (o + 8) 4)) t.apic
        kernel := r.2 } := by
  rw [createIoapic, Reads.value_bind, Reads.value_field]
  cases vmmCreateMmio (ofLE (madt.read (o + 4) 4)) 1 ioapicName t.kernel with
  | error stop => rfl
  | ok r => rfl

theorem value_createOverride : (createOverride madt o t).value =
    { t with
      apic := Kernel.createOverride (Fin.ofNat 256 (madt (o + 3)).toNat)
        (ofLE (madt.read (o + 4) 4)) (ofLE (madt.read (o + 8) 2)) t.apic } := rfl

/-- The type of a record that no function is for. -/
def Unknown (type : UInt8) : Prop := type ≠ MADT_CPU ∧ type ≠ MADT_IOAPIC ∧ type ≠ MADT_OVERRIDE

theorem type_cases (type : UInt8) :
    type = MADT_CPU ∨ type = MADT_IOAPIC ∨ type = MADT_OVERRIDE ∨ Unknown type := by
  unfold Unknown
  tauto

theorem value_createEntry : (createEntry madt o t).value =
    if madt o = MADT_CPU then .ok (createCpu madt o t).value
    else if madt o = MADT_IOAPIC then (createIoapic madt o t).value
    else if madt o = MADT_OVERRIDE then .ok (createOverride madt o t).value
    else .ok t := by
  rw [createEntry, Reads.value_bind, Reads.value_byte]
  split
  · rfl
  · split
    · rfl
    · split <;> rfl

theorem createEntry_cpu (h : madt o = MADT_CPU) :
    (createEntry madt o t).value = .ok (createCpu madt o t).value := by
  rw [value_createEntry, if_pos h]

theorem createEntry_ioapic (h : madt o = MADT_IOAPIC) :
    (createEntry madt o t).value = (createIoapic madt o t).value := by
  have hcpu : madt o ≠ MADT_CPU := by
    rw [h]
    decide
  rw [value_createEntry, if_neg hcpu, if_pos h]

theorem createEntry_override (h : madt o = MADT_OVERRIDE) :
    (createEntry madt o t).value = .ok (createOverride madt o t).value := by
  have hcpu : madt o ≠ MADT_CPU := by
    rw [h]
    decide
  have hioapic : madt o ≠ MADT_IOAPIC := by
    rw [h]
    decide
  rw [value_createEntry, if_neg hcpu, if_neg hioapic, if_pos h]

theorem createEntry_unknown (h : Unknown (madt o)) : (createEntry madt o t).value = .ok t := by
  obtain ⟨hcpu, hioapic, hoverride⟩ := h
  rw [value_createEntry, if_neg hcpu, if_neg hioapic, if_neg hoverride]

theorem kernelAfter_ioapic {k : State} (h : madt o = MADT_IOAPIC) : kernelAfter madt o k =
    (vmmCreateMmio (ofLE (madt.read (o + 4) 4)) 1 ioapicName k).map Prod.snd := if_pos h

theorem kernelAfter_ne {k : State} (h : madt o ≠ MADT_IOAPIC) : kernelAfter madt o k = .ok k :=
  if_neg h

/-- A record changes the kernel by its mapping, and stops only where its mapping does. -/
theorem kernel_createEntry : (createEntry madt o t).value.map Topology.kernel
    = kernelAfter madt o t.kernel := by
  rcases type_cases (madt o) with h | h | h | h
  · rw [createEntry_cpu h, kernelAfter_ne (by rw [h]; decide), value_createCpu]
    rfl
  · rw [createEntry_ioapic h, kernelAfter_ioapic h, value_createIoapic]
    cases vmmCreateMmio (ofLE (madt.read (o + 4) 4)) 1 ioapicName t.kernel with
    | error stop => rfl
    | ok r => rfl
  · rw [createEntry_override h, kernelAfter_ne (by rw [h]; decide)]
    rfl
  · rw [createEntry_unknown h, kernelAfter_ne h.2.1]
    rfl

theorem kernelAfter_of_ok (h : (createEntry madt o t).value = .ok t') :
    kernelAfter madt o t.kernel = .ok t'.kernel := by
  rw [← kernel_createEntry, h]
  rfl

theorem kernelAfter_of_error (h : (createEntry madt o t).value = .error stop) :
    kernelAfter madt o t.kernel = .error stop := by
  rw [← kernel_createEntry, h]
  rfl

/-! ### One round -/

theorem value_round_end (h : ¬ Handled madt length o) :
    (round madt length (o, t)).value = .inr (.ok t) := by
  rw [round]
  by_cases hend : o + 2 < length
  · have hsize : madt (o + 1) ≤ 2 := UInt8.not_lt.mp fun hlt => h ⟨hend, hlt⟩
    rw [if_pos hend, Reads.value_bind, Reads.value_byte, if_pos hsize]
    rfl
  · rw [if_neg hend]
    rfl

theorem value_round (h : Handled madt length o) :
    (round madt length (o, t)).value = match (createEntry madt o t).value with
      | .error stop => .inr (.error stop)
      | .ok t' => .inl (o + (madt (o + 1)).toNat, t') := by
  rw [round, if_pos h.1, Reads.value_bind, Reads.value_byte, if_neg (UInt8.not_le.mpr h.2),
    Reads.value_bind]
  cases (createEntry madt o t).value with
  | error stop => rfl
  | ok t' => rfl

/-- How far into the record at `o` its function reads. -/
def readLength (madt : Mem) (o : Nat) (k : State) : Nat :=
  if madt o = MADT_CPU then 8
  else if madt o = MADT_IOAPIC then
    match kernelAfter madt o k with
    | .error _ => 8
    | .ok _ => 12
  else if madt o = MADT_OVERRIDE then 10
  else 2

theorem within_createIoapic (hioapic : madt o = MADT_IOAPIC) :
    Reads.Within (· < length) (createIoapic madt o t) ↔
      o + (match kernelAfter madt o t.kernel with | .error _ => 8 | .ok _ => 12) ≤ length := by
  rw [kernelAfter, if_pos hioapic, createIoapic, Reads.within_bind, Reads.value_field,
    Reads.within_field_lt (by decide)]
  cases vmmCreateMmio (ofLE (madt.read (o + 4) 4)) 1 ioapicName t.kernel with
  | error stop => exact and_iff_left (Reads.within_pure _)
  | ok r =>
      show _ ∧ Reads.Within _ (Reads.byte madt (o + 2) >>= _) ↔ o + 12 ≤ length
      rw [Reads.within_bind, Reads.within_byte, Reads.within_bind,
        Reads.within_field_lt (by decide)]
      constructor
      · rintro ⟨-, -, h, -⟩
        omega
      · exact fun h => ⟨by omega, by omega, by omega, Reads.within_pure _⟩

/-- What the function of a record reads lies in the table exactly when that part of the record
does. -/
theorem within_createEntry (h : o + 2 < length) :
    Reads.Within (· < length) (createEntry madt o t)
      ↔ o + readLength madt o t.kernel ≤ length := by
  rw [createEntry, Reads.within_bind, Reads.value_byte, Reads.within_byte, readLength]
  -- the function reads its fields in the order of their offsets, so the last one decides
  by_cases hcpu : madt o = MADT_CPU
  · rw [if_pos hcpu, if_pos hcpu, Reads.within_bind, createCpu, Reads.within_bind,
      Reads.within_byte, Reads.within_bind, Reads.within_byte, Reads.within_bind,
      Reads.within_field_lt (by decide)]
    constructor
    · rintro ⟨-, ⟨-, -, hflags, -⟩, -⟩
      omega
    · intro hle
      refine ⟨by omega, ⟨by omega, by omega, by omega, ?_⟩, Reads.within_pure _⟩
      split <;> exact Reads.within_pure _
  · rw [if_neg hcpu, if_neg hcpu]
    by_cases hioapic : madt o = MADT_IOAPIC
    · rw [if_pos hioapic, if_pos hioapic, within_createIoapic hioapic]
      exact and_iff_right (by omega)
    · rw [if_neg hioapic, if_neg hioapic]
      by_cases hoverride : madt o = MADT_OVERRIDE
      · rw [if_pos hoverride, if_pos hoverride, Reads.within_bind, createOverride,
          Reads.within_bind, Reads.within_byte, Reads.within_bind,
          Reads.within_field_lt (by decide), Reads.within_bind, Reads.within_field_lt (by decide)]
        constructor
        · rintro ⟨-, ⟨-, -, hflags, -⟩, -⟩
          omega
        · exact fun hle => ⟨by omega, ⟨by omega, by omega, by omega, Reads.within_pure _⟩,
            Reads.within_pure _⟩
      · rw [if_neg hoverride, if_neg hoverride]
        exact ⟨fun _ => h.le, fun _ => ⟨by omega, Reads.within_pure _⟩⟩

/-- A round reads the length of its record besides. -/
theorem within_round : Reads.Within (· < length) (round madt length (o, t))
    ↔ (Handled madt length o → o + readLength madt o t.kernel ≤ length) := by
  rw [round]
  by_cases hend : o + 2 < length
  · rw [if_pos hend, Reads.within_bind, Reads.value_byte, Reads.within_byte]
    by_cases hsize : madt (o + 1) ≤ 2
    · rw [if_pos hsize]
      exact ⟨fun _ h => absurd h.2 (UInt8.not_lt.mpr hsize), fun _ => ⟨by omega, Reads.within_pure _⟩⟩
    · rw [if_neg hsize, Reads.within_bind, within_createEntry hend]
      constructor
      · exact fun h _ => h.2.1
      · refine fun h => ⟨by omega, h ⟨hend, UInt8.not_le.mp hsize⟩, ?_⟩
        cases (createEntry madt o t).value with
        | error stop => exact Reads.within_pure _
        | ok t' =>
            exact Reads.within_bind.mpr ⟨Reads.within_byte.mpr (by omega), Reads.within_pure _⟩
  · rw [if_neg hend]
    exact ⟨fun _ h => absurd h.1 hend, fun _ => Reads.within_pure _⟩

/-! ### The walk -/

/-- The walk reads within the table exactly when every record it handles lies in the table as far
as its function reads. -/
theorem within_loop (n : Nat) : ∀ (i o : Nat) (t : Topology),
    Reads.Within (· < length) (Reads.forUntil (fun _ => round madt length) n i (o, t)) ↔
      ∀ r ∈ handled madt length n o t.kernel, r.1 + readLength madt r.1 r.2 ≤ length := by
  induction n with
  | zero =>
      intro i o t
      rw [handled]
      exact ⟨fun _ r hr => absurd hr List.not_mem_nil, fun _ => Reads.within_pure _⟩
  | succ n ih =>
      intro i o t
      rw [Reads.within_forUntil_succ, within_round, handled]
      by_cases hmore : Handled madt length o
      · rw [if_pos hmore, value_round hmore, List.forall_mem_cons]
        refine and_congr (imp_iff_right hmore) ?_
        cases hentry : (createEntry madt o t).value with
        | error stop =>
            rw [kernelAfter_of_error hentry]
            exact ⟨fun _ r hr => absurd hr List.not_mem_nil, fun _ s h => absurd h Sum.inr_ne_inl⟩
        | ok t' =>
            rw [kernelAfter_of_ok hentry]
            refine ⟨fun h => (ih _ _ _).mp (h _ rfl), fun h s hs => ?_⟩
            obtain rfl := Sum.inl.inj hs
            exact (ih _ _ _).mpr h
      · rw [if_neg hmore, value_round_end hmore]
        exact ⟨fun _ r hr => absurd hr List.not_mem_nil,
          fun _ => ⟨fun h => absurd h hmore, fun s h => absurd h Sum.inr_ne_inl⟩⟩

/-- A record that is handled moves the walk on. -/
theorem Handled.size (h : Handled madt length o) : 3 ≤ (madt (o + 1)).toNat := by
  have h2 := UInt8.lt_iff_toNat_lt.mp h.2
  exact h2

/-- **The walk ends**: every round but the last one brings it closer to the end of the table. -/
theorem loop_ends (n : Nat) : ∀ (i o : Nat) (t : Topology), 1 ≤ n → length < o + n →
    ∃ r, (Reads.forUntil (fun _ => round madt length) n i (o, t)).value = .inr r := by
  induction n with
  | zero => exact fun i o t h => absurd h (by decide)
  | succ n ih =>
      intro i o t _ hlt
      rw [Reads.value_forUntil_succ]
      by_cases hmore : Handled madt length o
      · rw [value_round hmore]
        cases (createEntry madt o t).value with
        | error stop => exact ⟨_, rfl⟩
        | ok t' =>
            have hsize := hmore.size
            have hend := hmore.1
            exact ih (i + 1) _ t' (by omega) (by omega)
      · rw [value_round_end hmore]
        exact ⟨_, rfl⟩

theorem walk_ends (madt : Mem) (t : Topology) : ∃ r, (walk madt t).value = .inr r := by
  rw [walk, Reads.value_bind]
  exact loop_ends _ _ _ _ (by omega) (by unfold MADT_DATA; omega)

theorem within_walk : Reads.Within (· < headerLength madt) (walk madt t) ↔
    8 ≤ headerLength madt ∧
      ∀ r ∈ records madt t.kernel, r.1 + readLength madt r.1 r.2 ≤ headerLength madt := by
  rw [walk, Reads.within_bind, Reads.within_field_lt (by decide)]
  exact and_congr_right fun _ => within_loop _ _ _ _

end Madt

/-! ## What the table walks read -/

/-- `madt->local_apic`. -/
def localApic (madt : Mem) : Nat := ofLE (madt.read 36 4)

/-- The MADT reaches as far as `apic_init` reads it: over its fields, unless the mapping of the local
APIC stops, and over each record that the walk handles. -/
def ReachesAll (madt : Mem) (k : State) : Prop :=
  40 ≤ headerLength madt ∧
    ∀ lapic k', vmmCreateMmio (localApic madt) 1 lapicName k = .ok (lapic, k') →
      MADT_DATA ≤ headerLength madt ∧
        ∀ r ∈ Madt.records madt k', r.1 + Madt.readLength madt r.1 r.2 ≤ headerLength madt

/-- The reads of `apic_init` from the MADT. -/
theorem within_apicInit_iff (madt : Mem) (t : Topology) :
    Reads.Within (· < headerLength madt) (apicInit madt t) ↔ ReachesAll madt t.kernel := by
  rw [apicInit, Reads.within_bind, Reads.within_field_lt (by decide), Reads.value_field, ReachesAll]
  refine and_congr_right fun _ => ?_
  have hlocal : ofLE (madt.read 36 4) = localApic madt := rfl
  rw [hlocal]
  cases hmap : vmmCreateMmio (localApic madt) 1 lapicName t.kernel with
  | error stop =>
      refine ⟨fun _ lapic k' h => ?_, fun _ => Reads.within_pure _⟩
      cases h
  | ok r =>
      obtain ⟨lapic, k⟩ := r
      show Reads.Within _ (Reads.field madt 40 4 >>= _) ↔ _
      rw [Reads.within_bind, Reads.within_field_lt (by decide), Reads.within_bind, Madt.within_walk]
      constructor
      · rintro ⟨hflags, ⟨-, hrecords⟩, -⟩ lapic' k' heq
        obtain ⟨rfl, rfl⟩ := Prod.mk.inj (Except.ok.inj heq)
        exact ⟨hflags, hrecords⟩
      · intro h
        obtain ⟨hflags, hrecords⟩ := h _ _ rfl
        refine ⟨hflags, ⟨by unfold MADT_DATA at hflags; omega, hrecords⟩, ?_⟩
        -- the flags are read once more after the walk
        cases (Madt.walk madt
          { t with lapic_physical := localApic madt, lapic := lapic, kernel := k }).value with
        | inl unfinished => exact Reads.within_pure _
        | inr out =>
            cases out with
            | error stop => exact Reads.within_pure _
            | ok t' =>
                show Reads.Within _ (if t'.apic.ioapics = [] then _ else _)
                split
                · exact Reads.within_pure _
                · split
                  · exact Reads.within_pure _
                  · exact Reads.within_bind.mpr
                      ⟨(Reads.within_field_lt (by decide)).mpr hflags, Reads.within_pure _⟩

/-- **Which table walks stay inside their table.** `acpi_find_table` and `show_tables` do exactly
when the root table declares at least the size of its header, and `apic_init` exactly when the MADT
reaches over its fields and over every record that it handles. -/
theorem table_walks_inside_iff (mem : Mem) (inst : AcpiInstance) (signature : Mem)
    (index table : Nat) (madt : Mem) (t : Topology) :
    (Reads.Within (· < headerLength (tableAt mem inst.root.1))
        (acpiFindTable mem inst signature index table)
      ↔ SIZEOF_SDTH ≤ headerLength (tableAt mem inst.root.1)) ∧
    (Reads.Within (· < headerLength (tableAt mem inst.root.1)) (showTables mem inst)
      ↔ SIZEOF_SDTH ≤ headerLength (tableAt mem inst.root.1)) ∧
    (Reads.Within (· < headerLength madt) (apicInit madt t) ↔ ReachesAll madt t.kernel) :=
  ⟨within_acpiFindTable_iff mem inst signature index table, within_showTables_iff mem inst,
    within_apicInit_iff madt t⟩

/-- An RSDT that declares a length of 35. -/
def shortRoot : Mem := physical (List.replicate 8 0 ++ [82, 83, 68, 84] ++ [35, 0, 0, 0])

/-- The globals before the walk, on a machine whose device registers are all 0. -/
def blankTopology : Topology := ⟨[], 0, [], ⟨[], [], fun _ _ => 0, fun _ => 0⟩, 0, 0, .boot⟩

/-- The entries of a table that is shorter than its header are read all the same, and so are the
fields of a MADT that is nothing but a header. -/
theorem table_walks_outside :
    ¬ Reads.Within (· < headerLength (tableAt shortRoot rsdtInstance.root.1))
        (acpiFindTable shortRoot rsdtInstance (signatureBytes APIC) 0 0) ∧
      ¬ Reads.Within (· < headerLength (signatureBytes (APIC ++ [36, 0, 0, 0])))
        (apicInit (signatureBytes (APIC ++ [36, 0, 0, 0])) blankTopology) := by
  rw [within_acpiFindTable_iff, within_apicInit_iff]
  refine ⟨by decide +kernel, fun h => ?_⟩
  exact absurd h.1 (by decide +kernel)

/-! ## How much a walk records -/

namespace Madt

variable {madt : Mem} {length o n : Nat} {t t' : Topology} {stop : Stop}

/-- The three tables have the given lengths. -/
structure Holds (t : Topology) (cpus ioapics overrides : Nat) : Prop where
  cpus_eq : t.cpus.length = cpus
  ioapics_eq : t.apic.ioapics.length = ioapics
  overrides_eq : t.apic.overrides.length = overrides

/-- One more if the condition holds. -/
def plusIf (b : Bool) (n : Nat) : Nat := if b then n + 1 else n

theorem plusIf_true (n : Nat) : plusIf true n = n + 1 := rfl

theorem plusIf_false (n : Nat) : plusIf false n = n := rfl

/-- What a record adds to the lengths. -/
theorem Holds.createEntry {c i v : Nat} (h : Holds t c i v)
    (hentry : (createEntry madt o t).value = .ok t') :
    Holds t' (plusIf (isEnabledCpu madt o) c) (plusIf (madt o == MADT_IOAPIC) i)
      (plusIf (madt o == MADT_OVERRIDE) v) := by
  obtain ⟨hc, hi, hv⟩ := h
  rw [isEnabledCpu]
  rcases type_cases (madt o) with htype | htype | htype | htype
  · rw [createEntry_cpu htype, value_createCpu] at hentry
    obtain rfl := Except.ok.inj hentry
    rw [htype]
    refine ⟨?_, hi, hv⟩
    rw [decide_eq_true rfl, Bool.true_and]
    -- a processor that is not enabled adds nothing
    by_cases hflag : ofLE (madt.read (o + 4) 4) &&& 1 ≠ 0
    · rw [if_pos hflag, bne_iff_ne.mpr hflag, plusIf_true, List.length_append, hc]
      rfl
    · rw [if_neg hflag, bne_eq_false_iff_eq.mpr (not_not.mp hflag), plusIf_false,
        List.append_nil, hc]
  · rw [createEntry_ioapic htype, value_createIoapic] at hentry
    rw [htype]
    cases hmap : vmmCreateMmio (ofLE (madt.read (o + 4) 4)) 1 ioapicName t.kernel with
    | error stop =>
        rw [hmap] at hentry
        cases hentry
    | ok r =>
        rw [hmap] at hentry
        obtain rfl := Except.ok.inj hentry
        refine ⟨hc, ?_, hv⟩
        rw [← hi]
        exact List.length_append
  · rw [createEntry_override htype, value_createOverride] at hentry
    obtain rfl := Except.ok.inj hentry
    rw [htype]
    refine ⟨hc, hi, ?_⟩
    rw [← hv]
    exact List.length_append
  · rw [createEntry_unknown htype] at hentry
    obtain rfl := Except.ok.inj hentry
    obtain ⟨hcpu, hioapic, hoverride⟩ := htype
    rw [decide_eq_false hcpu, beq_eq_false_iff_ne.mpr hioapic, beq_eq_false_iff_ne.mpr hoverride]
    exact ⟨hc, hi, hv⟩

/-- The mapping of a handled record returns. -/
def Maps (madt : Mem) (r : Nat × State) : Prop := ∃ k, kernelAfter madt r.1 r.2 = .ok k

/-- How many of the handled records are of a kind. -/
def countOf (kind : Nat → Bool) (l : List (Nat × State)) : Nat := l.countP fun r => kind r.1

theorem countOf_cons (kind : Nat → Bool) (o : Nat) (k : State) (l : List (Nat × State)) (c : Nat) :
    c + countOf kind ((o, k) :: l) = plusIf (kind o) c + countOf kind l := by
  rw [countOf, countOf, List.countP_cons]
  cases kind o with
  | true =>
      rw [plusIf_true, if_pos rfl]
      omega
  | false => rw [plusIf_false, if_neg Bool.false_ne_true, Nat.add_zero]

/-- A walk that ends normally has mapped each IOAPIC and recorded what it handled. -/
theorem loop_ok (n : Nat) : ∀ {i o c v j : Nat} {t t' : Topology}, Holds t c i v →
    (Reads.forUntil (fun _ => round madt length) n j (o, t)).value = .inr (.ok t') →
    (∀ r ∈ handled madt length n o t.kernel, Maps madt r) ∧
      Holds t' (c + countOf (isEnabledCpu madt) (handled madt length n o t.kernel))
        (i + countOf (madt · == MADT_IOAPIC) (handled madt length n o t.kernel))
        (v + countOf (madt · == MADT_OVERRIDE) (handled madt length n o t.kernel)) := by
  induction n with
  | zero =>
      intro i o c v j t t' _ h
      exact absurd h Sum.inl_ne_inr
  | succ n ih =>
      intro i o c v j t t' hholds h
      rw [Reads.value_forUntil_succ] at h
      rw [handled]
      -- `handled` follows the offsets and the state of the kernel as the loop does
      by_cases hmore : Handled madt length o
      · rw [value_round hmore] at h
        rw [if_pos hmore, List.forall_mem_cons]
        cases hentry : (createEntry madt o t).value with
        | error stop =>
            rw [hentry] at h
            cases h
        | ok t₁ =>
            rw [hentry] at h
            have hkernel := kernelAfter_of_ok hentry
            obtain ⟨hmaps, hcounts⟩ := ih (hholds.createEntry hentry) h
            rw [hkernel, countOf_cons, countOf_cons, countOf_cons]
            exact ⟨⟨⟨_, hkernel⟩, hmaps⟩, hcounts⟩
      · rw [value_round_end hmore] at h
        obtain rfl := Except.ok.inj (Sum.inr.inj h)
        rw [if_neg hmore]
        exact ⟨fun r hr => absurd hr List.not_mem_nil, hholds⟩

/-- A walk that stops does so in the mapping of a record that it handles. -/
theorem loop_error (n : Nat) : ∀ {o j : Nat} {t : Topology},
    (Reads.forUntil (fun _ => round madt length) n j (o, t)).value = .inr (.error stop) →
    ∃ r ∈ handled madt length n o t.kernel, ¬ Maps madt r := by
  induction n with
  | zero =>
      intro o j t h
      exact absurd h Sum.inl_ne_inr
  | succ n ih =>
      intro o j t h
      rw [Reads.value_forUntil_succ] at h
      rw [handled]
      by_cases hmore : Handled madt length o
      · rw [value_round hmore] at h
        rw [if_pos hmore]
        cases hentry : (createEntry madt o t).value with
        | error stop =>
            refine ⟨(o, t.kernel), List.mem_cons_self, ?_⟩
            rintro ⟨k, hk⟩
            rw [kernelAfter_of_error hentry] at hk
            cases hk
        | ok t₁ =>
            rw [hentry] at h
            rw [kernelAfter_of_ok hentry]
            obtain ⟨r, hr, hstops⟩ := ih h
            exact ⟨r, List.mem_cons_of_mem _ hr, hstops⟩
      · rw [value_round_end hmore] at h
        cases h

theorem value_walk (madt : Mem) (t : Topology) : (walk madt t).value =
    (Reads.forUntil (fun _ => round madt (headerLength madt)) (headerLength madt + 1) 0
      (MADT_DATA, t)).value := rfl

/-- What a walk from empty tables records. -/
theorem walk_ok (ht : Holds t 0 0 0) (h : (walk madt t).value = .inr (.ok t')) :
    (∀ r ∈ records madt t.kernel, Maps madt r) ∧
      Holds t' (countOf (isEnabledCpu madt) (records madt t.kernel))
        (countOf (madt · == MADT_IOAPIC) (records madt t.kernel))
        (countOf (madt · == MADT_OVERRIDE) (records madt t.kernel)) := by
  rw [value_walk] at h
  obtain ⟨hmaps, hcounts⟩ := loop_ok _ ht h
  rw [Nat.zero_add, Nat.zero_add, Nat.zero_add] at hcounts
  exact ⟨hmaps, hcounts⟩

/-- A walk comes to its end when each mapping returns. -/
theorem walk_returns (h : ∀ r ∈ records madt t.kernel, Maps madt r) :
    ∃ t', (walk madt t).value = .inr (.ok t') := by
  obtain ⟨out, hout⟩ := walk_ends madt t
  cases out with
  | error stop =>
      rw [value_walk] at hout
      obtain ⟨r, hr, hstops⟩ := loop_error _ hout
      exact absurd (h r hr) hstops
  | ok t' => exact ⟨t', hout⟩

end Madt

/-- The tables of `apic.c` are as `kcalloc` leaves them. -/
def Topology.Blank (t : Topology) : Prop := Madt.Holds t 0 0 0

/-- No table of `apic.c` is overrun. -/
structure Topology.Bounded (t : Topology) : Prop where
  cpus_le : t.cpus.length ≤ MAX_CPUS
  ioapics_le : t.apic.ioapics.length ≤ MAX_IOAPICS
  overrides_le : t.apic.overrides.length ≤ MAX_OVERRIDES

/-- The records leave the tables bounded. -/
structure Madt.Fits (madt : Mem) (l : List (Nat × State)) : Prop where
  cpus_le : Madt.countOf (Madt.isEnabledCpu madt) l ≤ MAX_CPUS
  ioapics_le : Madt.countOf (madt · == MADT_IOAPIC) l ≤ MAX_IOAPICS
  overrides_le : Madt.countOf (madt · == MADT_OVERRIDE) l ≤ MAX_OVERRIDES

/-- **When the walk ends within its tables.** The loop ends for every MADT. The walk comes to its end
with no table overrun exactly when `vmm_create_mmio` returns for each IOAPIC that it handles and the
records that it handles declare at most 256 enabled CPUs, 16 IOAPICs and 16 overrides. -/
theorem madtWalk_bounded_iff (madt : Mem) (t : Topology) (ht : t.Blank) :
    (∃ r, (Madt.walk madt t).value = .inr r) ∧
      ((∃ t', (Madt.walk madt t).value = .inr (.ok t') ∧ t'.Bounded) ↔
        (∀ r ∈ Madt.records madt t.kernel, Madt.Maps madt r) ∧
          Madt.Fits madt (Madt.records madt t.kernel)) := by
  refine ⟨Madt.walk_ends madt t, ?_⟩
  constructor
  · rintro ⟨t', hok, hcpus, hioapics, hoverrides⟩
    obtain ⟨hmaps, hc, hi, hv⟩ := Madt.walk_ok ht hok
    rw [hc] at hcpus
    rw [hi] at hioapics
    rw [hv] at hoverrides
    exact ⟨hmaps, hcpus, hioapics, hoverrides⟩
  · rintro ⟨hmaps, hcpus, hioapics, hoverrides⟩
    obtain ⟨t', hok⟩ := Madt.walk_returns hmaps
    obtain ⟨-, hc, hi, hv⟩ := Madt.walk_ok ht hok
    rw [← hc] at hcpus
    rw [← hi] at hioapics
    rw [← hv] at hoverrides
    exact ⟨t', hok, hcpus, hioapics, hoverrides⟩

/-- A MADT with the given records. -/
def madtOf (body : List UInt8) : Mem :=
  signatureBytes (APIC ++ toLE 4 (MADT_DATA + body.length) ++ List.replicate 36 0 ++ body)

/-- The record of an enabled CPU. -/
def cpuRecord : List UInt8 := [0, 8, 1, 2, 1, 0, 0, 0]

/-- The record of an override. -/
def overrideRecord : List UInt8 := [2, 10, 0, 0, 2, 0, 0, 0, 0, 0]

/-- The record of an IOAPIC. -/
def ioapicRecord : List UInt8 := [1, 12, 3, 0, 0, 0, 192, 254, 0, 0, 0, 0]

/-- Before the walk, on a machine whose IOAPICs have 24 entries each. -/
def freshApic : Apic := ⟨[], [], fun _ index => if index = 1 then 0x170011 else 0, fun _ => 0⟩

def freshTopology (k : State) : Topology := ⟨[], 0, [], freshApic, 0, 0, k⟩

theorem Madt.maps_of_ne_ioapic {madt : Mem} {l : List (Nat × State)}
    (h : ∀ r ∈ l, madt r.1 ≠ MADT_IOAPIC) : ∀ r ∈ l, Madt.Maps madt r :=
  fun r hr => ⟨r.2, if_neg (h r hr)⟩

theorem Madt.handled_cons {madt : Mem} {length n o : Nat} {k k' : State}
    (h : Handled madt length o) (hk : kernelAfter madt o k = .ok k') :
    handled madt length (n + 1) o k = (o, k) :: handled madt length n (o + (madt (o + 1)).toNat) k' := by
  rw [handled, if_pos h, hk]

/-- A CPU, an IOAPIC and an override fit. -/
theorem madtWalk_small : ∃ s t', (Madt.walk (madtOf (cpuRecord ++ ioapicRecord ++ overrideRecord))
    (freshTopology s)).value = .inr (.ok t') ∧ t'.Bounded := by
  obtain ⟨s, -, hs⟩ := mmInit_flat (show 4870 + 3 * 1 ≤ 16384 by decide) (by decide)
  obtain ⟨s', hmmio⟩ := vmmCreateMmio_started hs le_rfl le_rfl (by decide) 0xFEC00000
    (show ioapicName.length < 64 by decide)
  generalize hmadt : madtOf (cpuRecord ++ ioapicRecord ++ overrideRecord) = madt
  have hmaps : Madt.kernelAfter madt 52 s = .ok s' := by
    have haddr : ofLE (madt.read (52 + 4) 4) = 0xFEC00000 := by
      subst hmadt
      decide +kernel
    rw [Madt.kernelAfter_ioapic (by subst hmadt; decide +kernel), haddr, hmmio]
    rfl
  have hrecords : Madt.records madt s = [(44, s), (52, s), (64, s')] := by
    have hlength : headerLength madt = 74 := by
      subst hmadt
      decide +kernel
    rw [Madt.records, hlength]
    subst hmadt
    refine (Madt.handled_cons (by decide +kernel) (if_neg (by decide +kernel))).trans ?_
    refine congrArg _ ((Madt.handled_cons (by decide +kernel) hmaps).trans ?_)
    refine congrArg _ ((Madt.handled_cons (by decide +kernel) (if_neg (by decide +kernel))).trans ?_)
    exact congrArg _ (if_neg (by decide +kernel))
  refine ⟨s, (madtWalk_bounded_iff madt (freshTopology s) ⟨rfl, rfl, rfl⟩).2.mpr ?_⟩
  show (∀ r ∈ Madt.records madt s, Madt.Maps madt r) ∧ Madt.Fits madt (Madt.records madt s)
  rw [hrecords]
  refine ⟨?_, List.countP_le_length.trans (show 3 ≤ MAX_CPUS by decide),
    List.countP_le_length.trans (show 3 ≤ MAX_IOAPICS by decide),
    List.countP_le_length.trans (show 3 ≤ MAX_OVERRIDES by decide)⟩
  intro r hr
  simp only [List.mem_cons, List.not_mem_nil, or_false] at hr
  rcases hr with rfl | rfl | rfl
  · exact ⟨s, if_neg (by subst hmadt; show madtOf _ 44 ≠ MADT_IOAPIC; decide +kernel)⟩
  · exact ⟨s', hmaps⟩
  · exact ⟨s', if_neg (by subst hmadt; show madtOf _ 64 ≠ MADT_IOAPIC; decide +kernel)⟩

/-- A MADT with 17 overrides. -/
def manyOverrides : Mem := madtOf (List.replicate 17 overrideRecord).flatten

/-- The walk writes an override behind the end of its table. -/
theorem madtWalk_overrun : blankTopology.Blank ∧
    ∃ t', (Madt.walk manyOverrides blankTopology).value = .inr (.ok t') ∧
      MAX_OVERRIDES < t'.apic.overrides.length := by
  have hblank : blankTopology.Blank := ⟨rfl, rfl, rfl⟩
  have hioapics : ∀ r ∈ Madt.records manyOverrides blankTopology.kernel,
      manyOverrides r.1 ≠ MADT_IOAPIC := by decide +kernel
  obtain ⟨t', hok⟩ := Madt.walk_returns (Madt.maps_of_ne_ioapic hioapics)
  refine ⟨hblank, t', hok, ?_⟩
  rw [(Madt.walk_ok hblank hok).2.overrides_eq]
  decide +kernel

/-! ## Well-formed tables -/

namespace Madt

/-- The little-endian number in `n` bytes of a record. -/
def number (e : List UInt8) (i n : Nat) : Nat := ofLE ((e.drop i).take n)

/-- The type of a record. -/
def typeOf (e : List UInt8) : UInt8 := e.getD 0 0

/-- The size of the structure for a type. -/
def structSize (type : UInt8) : Nat :=
  if type = MADT_CPU then 8 else if type = MADT_IOAPIC then 12 else if type = MADT_OVERRIDE then 10
  else 0

/-- The record declares its length, which is at least 3 and the size of its structure. -/
structure WellFormed (e : List UInt8) : Prop where
  length_eq : (e.getD 1 0).toNat = e.length
  three_le : 3 ≤ e.length
  struct_le : structSize (typeOf e) ≤ e.length

/-- The record is of an enabled CPU. -/
def enabled (e : List UInt8) : Bool := typeOf e == MADT_CPU && number e 4 4 &&& 1 != 0

/-- The identifiers in the record of a CPU. -/
def cpuOf (e : List UInt8) : CpuIds := ⟨number e 3 1, number e 2 1⟩

/-- The number of the last redirection entry of controller `i`: bits 16 to 23 of its register 1. -/
def lastEntry (s : Apic) (i : Nat) : Nat := ((s.regs i 1).extractLsb' 16 8).toNat

/-- The entry for an IOAPIC that is number `i` of its table. -/
def ioapicOf (s : Apic) (e : List UInt8) (i : Nat) : Ioapic :=
  ⟨number e 2 1, number e 8 4, (number e 8 4 + lastEntry s i) % 2 ^ 32⟩

/-- The entry for an override. -/
def overrideOf (e : List UInt8) : Override :=
  ⟨Fin.ofNat 256 (number e 3 1), Fin.ofNat 256 (number e 4 4), number e 8 2⟩

/-- The IOAPICs are mapped one after the other. -/
def mapIoapics : List Nat → K (List Nat)
  | [] => pure []
  | mmio :: mmios => do
      let virtual ← vmmCreateMmio mmio 1 ioapicName
      let virtuals ← mapIoapics mmios
      pure (virtual :: virtuals)

/-- The records of a type. -/
def ofType (type : UInt8) (es : List (List UInt8)) : List (List UInt8) :=
  es.filter fun e => typeOf e == type

/-- The globals with the records entered, the IOAPICs being mapped at `virtuals`. -/
def entered (es : List (List UInt8)) (virtuals : List Nat) (k : State) (t : Topology) : Topology :=
  { t with
    cpus := t.cpus ++ (es.filter enabled).map cpuOf
    cpu_slot_count := t.cpu_slot_count + (ofType MADT_CPU es).length
    mmios := t.mmios ++ ((ofType MADT_IOAPIC es).map (number · 4 4)).zip virtuals
    apic := { t.apic with
      ioapics := t.apic.ioapics ++ ((ofType MADT_IOAPIC es).zipIdx t.apic.ioapics.length).map
        fun r => ioapicOf t.apic r.1 r.2
      overrides := t.apic.overrides ++ (ofType MADT_OVERRIDE es).map overrideOf }
    kernel := k }

/-- What the walk makes of the records. -/
def enter (es : List (List UInt8)) (t : Topology) : Except Stop Topology :=
  (mapIoapics ((ofType MADT_IOAPIC es).map (number · 4 4)) t.kernel).map fun r =>
    entered es r.1 r.2 t

variable {madt : Mem} {length o n : Nat} {t t' : Topology} {e : List UInt8}
  {es : List (List UInt8)}

/-! ### The bytes of a record -/

theorem byte_of_read (h : madt.read o e.length = e) {i : Nat} (hi : i < e.length) :
    madt (o + i) = e.getD i 0 := by
  have hbyte := madt.read_getElem? o e.length i
  rw [h, if_pos hi] at hbyte
  rw [List.getD_eq_getElem?_getD, hbyte, Option.getD_some]

theorem number_of_read (h : madt.read o e.length = e) {i n : Nat} (hn : i + n ≤ e.length) :
    ofLE (madt.read (o + i) n) = number e i n := by
  have hlen : e.length = i + (e.length - i) := by omega
  have hdrop : e.drop i = madt.read (o + i) (e.length - i) := by
    conv_lhs => rw [← h, hlen, Mem.read_add]
    exact List.drop_left' (Mem.read_length _ _ _)
  rw [number, hdrop, Mem.read_take _ _ (by omega)]

theorem byte_toNat (h : madt.read o e.length = e) {i : Nat} (hi : i < e.length) :
    (madt (o + i)).toNat = number e i 1 := by
  rw [← number_of_read h hi]
  simp [Mem.read, ofLE]

/-! ### One record more -/

theorem ofType_cons_of_eq {type : UInt8} (h : typeOf e = type) :
    ofType type (e :: es) = e :: ofType type es :=
  List.filter_cons_of_pos (beq_iff_eq.mpr h)

theorem ofType_cons_of_ne {type : UInt8} (h : typeOf e ≠ type) :
    ofType type (e :: es) = ofType type es :=
  List.filter_cons_of_neg fun heq => h (beq_iff_eq.mp heq)

theorem filter_enabled_of_ne (h : typeOf e ≠ MADT_CPU) :
    (e :: es).filter enabled = es.filter enabled := by
  refine List.filter_cons_of_neg ?_
  rw [enabled, beq_eq_false_iff_ne.mpr h, Bool.false_and]
  exact Bool.false_ne_true

theorem enter_cpu (h : WellFormed e) (hread : madt.read o e.length = e)
    (htype : typeOf e = MADT_CPU) : enter es (createCpu madt o t).value = enter (e :: es) t := by
  have hsize : 8 ≤ e.length := by
    have hle := h.struct_le
    rwa [htype] at hle
  have hflags := number_of_read hread (show 4 + 4 ≤ e.length by omega)
  have hapic := byte_toNat hread (show 3 < e.length by omega)
  have hacpi := byte_toNat hread (show 2 < e.length by omega)
  have hcpus : t.cpus ++ ((if number e 4 4 &&& 1 ≠ 0 then [cpuOf e] else []) ++
      (es.filter enabled).map cpuOf) = t.cpus ++ ((e :: es).filter enabled).map cpuOf := by
    -- `cpu_slot_count` counts every record, and `cpus` takes the enabled ones
    by_cases hflag : number e 4 4 &&& 1 ≠ 0
    · have henabled : enabled e = true := by
        rw [enabled, beq_iff_eq.mpr htype, bne_iff_ne.mpr hflag]
        rfl
      rw [if_pos hflag, List.filter_cons_of_pos henabled]
      rfl
    · have hdisabled : ¬ enabled e = true := by
        rw [enabled, bne_eq_false_iff_eq.mpr (not_not.mp hflag), Bool.and_false]
        exact Bool.false_ne_true
      rw [if_neg hflag, List.filter_cons_of_neg hdisabled]
      rfl
  have hioapic : typeOf e ≠ MADT_IOAPIC := by
    rw [htype]
    decide
  have hoverride : typeOf e ≠ MADT_OVERRIDE := by
    rw [htype]
    decide
  rw [value_createCpu, hflags, hapic, hacpi]
  simp only [enter, entered, ofType_cons_of_ne hioapic, ofType_cons_of_ne hoverride,
    ofType_cons_of_eq htype, ← hcpus, List.append_assoc, List.length_cons]
  have hslots : t.cpu_slot_count + 1 + (ofType MADT_CPU es).length
      = t.cpu_slot_count + ((ofType MADT_CPU es).length + 1) := by omega
  rw [hslots]
  rfl

theorem enter_override (h : WellFormed e) (hread : madt.read o e.length = e)
    (htype : typeOf e = MADT_OVERRIDE) :
    enter es (createOverride madt o t).value = enter (e :: es) t := by
  have hsize : 10 ≤ e.length := by
    have hle := h.struct_le
    rwa [htype] at hle
  have hirq := byte_toNat hread (show 3 < e.length by omega)
  have hgsi := number_of_read hread (show 4 + 4 ≤ e.length by omega)
  have hflags := number_of_read hread (show 8 + 2 ≤ e.length by omega)
  have hcpu : typeOf e ≠ MADT_CPU := by
    rw [htype]
    decide
  have hioapic : typeOf e ≠ MADT_IOAPIC := by
    rw [htype]
    decide
  rw [value_createOverride, hirq, hgsi, hflags]
  simp only [enter, entered, ofType_cons_of_ne hioapic, ofType_cons_of_ne hcpu,
    ofType_cons_of_eq htype, filter_enabled_of_ne hcpu, List.map_cons, Kernel.createOverride,
    List.append_assoc, List.singleton_append]
  rfl

theorem maxEntry_eq (i : Nat) (s : Apic) : maxEntry i s = lastEntry s i := by
  rw [maxEntry, lastEntry, ioapicRead, IOAPIC_VERSION, BitVec.toNat_and, BitVec.toNat_ushiftRight,
    BitVec.extractLsb'_toNat]
  exact Nat.and_two_pow_sub_one_eq_mod _ 8

theorem entered_ioapic (htype : typeOf e = MADT_IOAPIC) (virtual : Nat) (virtuals : List Nat)
    (k k' : State) :
    entered es virtuals k' { t with
      mmios := t.mmios ++ [(number e 4 4, virtual)]
      apic := Kernel.createIoapic (number e 2 1) (number e 8 4) t.apic
      kernel := k } = entered (e :: es) (virtual :: virtuals) k' t := by
  have hcpu : typeOf e ≠ MADT_CPU := by
    rw [htype]
    decide
  have hoverride : typeOf e ≠ MADT_OVERRIDE := by
    rw [htype]
    decide
  simp only [entered, ofType_cons_of_ne hoverride, ofType_cons_of_ne hcpu, ofType_cons_of_eq htype,
    filter_enabled_of_ne hcpu, List.map_cons, List.zip_cons_cons, List.zipIdx_cons,
    Kernel.createIoapic, maxEntry_eq, List.length_append, List.length_singleton, List.append_assoc,
    List.singleton_append]
  rfl

theorem enter_ioapic (h : WellFormed e) (hread : madt.read o e.length = e)
    (htype : typeOf e = MADT_IOAPIC) :
    (createIoapic madt o t).value.bind (enter es) = enter (e :: es) t := by
  have hsize : 12 ≤ e.length := by
    have hle := h.struct_le
    rwa [htype] at hle
  have hmmio := number_of_read hread (show 4 + 4 ≤ e.length by omega)
  have hapic := byte_toNat hread (show 2 < e.length by omega)
  have hgsi := number_of_read hread (show 8 + 4 ≤ e.length by omega)
  rw [value_createIoapic, hmmio, hapic, hgsi, enter, ofType_cons_of_eq htype, List.map_cons,
    mapIoapics, Prog.run_bind]
  cases vmmCreateMmio (number e 4 4) 1 ioapicName t.kernel with
  | error stop => rfl
  | ok r =>
      obtain ⟨virtual, k⟩ := r
      show enter es _ = Except.map _ ((mapIoapics _ >>= fun vs => pure (virtual :: vs)) k)
      rw [Prog.run_bind, enter]
      show Except.map _ (mapIoapics _ k) = _
      cases mapIoapics ((ofType MADT_IOAPIC es).map (number · 4 4)) k with
      | error stop => rfl
      | ok r => exact congrArg Except.ok (entered_ioapic htype virtual r.1 k r.2)

/-- What the function for a record makes of it is what entering it makes of it. -/
theorem enter_cons (h : WellFormed e) (hread : madt.read o e.length = e) :
    (createEntry madt o t).value.bind (enter es) = enter (e :: es) t := by
  have hthree := h.three_le
  have htype : madt (o + 0) = typeOf e := byte_of_read hread (by omega)
  rw [Nat.add_zero] at htype
  rcases type_cases (madt o) with hcase | hcase | hcase | hcase
  · rw [createEntry_cpu hcase]
    exact enter_cpu h hread (htype.symm.trans hcase)
  · rw [createEntry_ioapic hcase]
    exact enter_ioapic h hread (htype.symm.trans hcase)
  · rw [createEntry_override hcase]
    exact enter_override h hread (htype.symm.trans hcase)
  · rw [createEntry_unknown hcase]
    rw [htype] at hcase
    obtain ⟨hcpu, hioapic, hoverride⟩ := hcase
    show enter es t = enter (e :: es) t
    simp only [enter, entered, ofType_cons_of_ne hcpu, ofType_cons_of_ne hioapic,
      ofType_cons_of_ne hoverride, filter_enabled_of_ne hcpu]

/-! ### The table -/

/-- The body of the table is made of the records. -/
structure Consists (madt : Mem) (es : List (List UInt8)) : Prop where
  wellFormed : ∀ e ∈ es, WellFormed e
  length_eq : headerLength madt = MADT_DATA + es.flatten.length
  bytes : madt.read MADT_DATA es.flatten.length = es.flatten

/-- **The walk enters one record after the other.** The induction is on the records still to come. -/
theorem loop_enters (es : List (List UInt8)) : ∀ {o n i : Nat} {t : Topology},
    (∀ e ∈ es, WellFormed e) → madt.read o es.flatten.length = es.flatten →
    length = o + es.flatten.length → 1 ≤ n → length < o + n →
    (Reads.forUntil (fun _ => round madt length) n i (o, t)).value = .inr (enter es t) := by
  induction es with
  | nil =>
      intro o n i t _ _ hlength hn _
      obtain ⟨n, rfl⟩ := Nat.exists_eq_succ_of_ne_zero (by omega : n ≠ 0)
      have hend : ¬ Handled madt length o := by
        rintro ⟨hlt, -⟩
        rw [List.flatten_nil, List.length_nil] at hlength
        omega
      rw [Reads.value_forUntil_succ, value_round_end hend]
      have hsame : enter [] t = .ok t := by
        simp [enter, entered, ofType, mapIoapics, Except.map]
      rw [hsame]
  | cons e es ih =>
      intro o n i t hwf hbytes hlength hn hlt
      obtain ⟨n, rfl⟩ := Nat.exists_eq_succ_of_ne_zero (by omega : n ≠ 0)
      obtain ⟨he, hes⟩ := List.forall_mem_cons.mp hwf
      rw [List.flatten_cons, List.length_append] at hbytes hlength
      rw [Mem.read_add] at hbytes
      obtain ⟨hread, hrest⟩ := List.append_inj hbytes (Mem.read_length _ _ _)
      have hthree := he.three_le
      have hsize : (madt (o + 1)).toNat = e.length := by
        rw [byte_of_read hread (by omega), he.length_eq]
      -- a well-formed record is at least three bytes long, so the walk does not end in front of it
      have hmore : Handled madt length o := by
        refine ⟨by omega, UInt8.lt_iff_toNat_lt.mpr ?_⟩
        rw [hsize]
        exact hthree
      rw [Reads.value_forUntil_succ, value_round hmore, ← enter_cons he hread]
      cases (createEntry madt o t).value with
      | error stop => rfl
      | ok t' =>
          rw [hsize]
          exact ih hes hrest (by omega) (by omega) (by omega)

theorem walk_enters (h : Consists madt es) (t : Topology) :
    (walk madt t).value = .inr (enter es t) := by
  rw [value_walk]
  exact loop_enters es h.wellFormed h.bytes h.length_eq (by omega) (by unfold MADT_DATA; omega)

/-- What the globals hold of the records after the walk. -/
structure Records (es : List (List UInt8)) (virtuals : List Nat) (t t' : Topology) : Prop where
  cpus_eq : t'.cpus = (es.filter enabled).map cpuOf
  slots_eq : t'.cpu_slot_count = (ofType MADT_CPU es).length
  mmios_eq : t'.mmios = ((ofType MADT_IOAPIC es).map (number · 4 4)).zip virtuals
  ioapics_eq : t'.apic.ioapics = (ofType MADT_IOAPIC es).zipIdx.map fun r => ioapicOf t.apic r.1 r.2
  overrides_eq : t'.apic.overrides.map (fun v => (v.source.val, v.destination.val, v.flags))
    = (ofType MADT_OVERRIDE es).map fun e => (number e 3 1, number e 4 4, number e 8 2)
  regs_eq : t'.apic.regs = t.apic.regs
  idt_eq : t'.apic.idt = t.apic.idt
  lapic_eq : t'.lapic_physical = t.lapic_physical ∧ t'.lapic = t.lapic
  bounded : t'.Bounded

/-- The counters and tables are as they are set before the walk. -/
structure Fresh (t : Topology) : Prop where
  cpus_eq : t.cpus = []
  slots_eq : t.cpu_slot_count = 0
  mmios_eq : t.mmios = []
  ioapics_eq : t.apic.ioapics = []
  overrides_eq : t.apic.overrides = []

/-- There is room for the records, and for their interrupts in a byte. -/
structure Room (es : List (List UInt8)) : Prop where
  cpus_le : (es.filter enabled).length ≤ MAX_CPUS
  ioapics_le : (ofType MADT_IOAPIC es).length ≤ MAX_IOAPICS
  overrides_le : (ofType MADT_OVERRIDE es).length ≤ MAX_OVERRIDES
  gsi_lt : ∀ e ∈ ofType MADT_OVERRIDE es, number e 4 4 < 256

theorem entered_records {virtuals : List Nat} {k : State} (ht : Fresh t) (hroom : Room es) :
    Records es virtuals t (entered es virtuals k t) := by
  obtain ⟨hcpus, hslots, hmmios, hioapics, hoverrides⟩ := ht
  -- the numbers of an override fit in the fields that hold them
  have htriple : ∀ e ∈ ofType MADT_OVERRIDE es,
      ((overrideOf e).source.val, (overrideOf e).destination.val, (overrideOf e).flags)
        = (number e 3 1, number e 4 4, number e 8 2) := by
    intro e he
    have hirq : number e 3 1 < 256 := by
      have hlt := ofLE_lt ((e.drop 3).take 1)
      have hone : ((e.drop 3).take 1).length ≤ 1 := List.length_take_le _ _
      have hpow := Nat.pow_le_pow_right (show 0 < 256 by decide) hone
      exact hlt.trans_le hpow
    exact congrArg₂ Prod.mk (Nat.mod_eq_of_lt hirq)
      (congrArg₂ Prod.mk (Nat.mod_eq_of_lt (hroom.gsi_lt e he)) rfl)
  refine ⟨?_, ?_, ?_, ?_, ?_, rfl, rfl, ⟨rfl, rfl⟩, ?_, ?_, ?_⟩
  · rw [entered, hcpus]
    rfl
  · rw [entered, hslots, Nat.zero_add]
  · rw [entered, hmmios]
    rfl
  · rw [entered, hioapics]
    rfl
  · rw [entered, hoverrides, List.nil_append, List.map_map]
    exact List.map_congr_left htriple
  · rw [entered, hcpus, List.nil_append, List.length_map]
    exact hroom.cpus_le
  · rw [entered, hioapics, List.nil_append, List.length_map, List.length_zipIdx]
    exact hroom.ioapics_le
  · rw [entered, hoverrides, List.nil_append, List.length_map]
    exact hroom.overrides_le

end Madt

/-- **The walk of a well-formed MADT records what its records declare.** It maps the IOAPICs in
order, and ends as that does: with the records of each type entered in order, or where the mapping
of an IOAPIC stops. -/
theorem madtWalk_records (madt : Mem) (es : List (List UInt8)) (t : Topology)
    (h : Madt.Consists madt es) (hroom : Madt.Room es) (ht : Madt.Fresh t) :
    (∀ virtuals k,
      Madt.mapIoapics ((Madt.ofType MADT_IOAPIC es).map (Madt.number · 4 4)) t.kernel
        = .ok (virtuals, k) →
      ∃ t', (Madt.walk madt t).value = .inr (.ok t') ∧ Madt.Records es virtuals t t' ∧
        t'.kernel = k) ∧
    ∀ stop,
      Madt.mapIoapics ((Madt.ofType MADT_IOAPIC es).map (Madt.number · 4 4)) t.kernel
        = .error stop →
      (Madt.walk madt t).value = .inr (.error stop) := by
  rw [Madt.walk_enters h t, Madt.enter]
  constructor
  · intro virtuals k hmaps
    rw [hmaps]
    exact ⟨_, rfl, Madt.entered_records ht hroom, rfl⟩
  · intro stop hstops
    rw [hstops]
    rfl

/-- The record of a CPU that is not enabled. -/
def disabledRecord : List UInt8 := [0, 8, 2, 3, 0, 0, 0, 0]

/-- The record of a non-maskable interrupt, which `apic_init` does not know. -/
def nmiRecord : List UInt8 := [4, 6, 255, 5, 0, 1]

/-- Of five records, those of an enabled CPU, of an IOAPIC and of an override leave an entry. -/
theorem madtWalk_records_five : ∃ s t', (Madt.walk
    (madtOf [cpuRecord, nmiRecord, ioapicRecord, disabledRecord, overrideRecord].flatten)
    (freshTopology s)).value = .inr (.ok t') ∧
    t'.cpus = [⟨2, 1⟩] ∧ t'.cpu_slot_count = 2 ∧ t'.mmios = [(0xFEC00000, MMIO_REGION)] ∧
    t'.apic.ioapics = [⟨3, 0, 23⟩] ∧
    t'.apic.overrides.map (fun v => (v.source.val, v.destination.val, v.flags)) = [(0, 2, 0)] := by
  have hwf : ∀ e ∈ [cpuRecord, nmiRecord, ioapicRecord, disabledRecord, overrideRecord],
      Madt.WellFormed e := by
    intro e he
    simp only [List.mem_cons, List.not_mem_nil, or_false] at he
    rcases he with rfl | rfl | rfl | rfl | rfl <;> exact ⟨by decide, by decide, by decide⟩
  obtain ⟨s, -, hs⟩ := mmInit_flat (show 4870 + 3 * 1 ≤ 16384 by decide) (by decide)
  obtain ⟨s', hmmio⟩ := vmmCreateMmio_started hs le_rfl le_rfl (by decide) 0xFEC00000
    (show ioapicName.length < 64 by decide)
  have hmaps : Madt.mapIoapics [0xFEC00000] s = .ok ([MMIO_REGION], s') := by
    rw [Madt.mapIoapics, Prog.bind_ok hmmio]
    rfl
  obtain ⟨t', hwalk, hrecords, -⟩ := (madtWalk_records
    (madtOf [cpuRecord, nmiRecord, ioapicRecord, disabledRecord, overrideRecord].flatten) _
    (freshTopology s) ⟨hwf, by decide +kernel, by decide +kernel⟩
    ⟨by decide +kernel, by decide +kernel, by decide +kernel, by decide +kernel⟩
    ⟨rfl, rfl, rfl, rfl, rfl⟩).1 [MMIO_REGION] s' hmaps
  have hentry : Madt.ioapicOf freshApic ioapicRecord 0 = ⟨3, 0, 23⟩ := rfl
  exact ⟨s, t', hwalk, hrecords.cpus_eq, hrecords.slots_eq, hrecords.mmios_eq,
    hrecords.ioapics_eq.trans (congrArg (fun io => [io]) hentry), hrecords.overrides_eq⟩

end Windozz.Kernel

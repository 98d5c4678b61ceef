import Mathlib.Logic.Relation
import Windozz.Kernel.State

set_option autoImplicit false

/-! # Starting the other processors

`smp_boot` starts the processors of the table one after the other: it maps the lowest 512 GiB, copies
the trampoline to address `0x1000`, and sends each processor an INIT and a startup IPI. A processor
that was started works its way through the trampoline to `smp_kmain`, where it reads `current_cpu`
and sets `cpu_booted`. The boot processor, the interrupts of its timer, the delivery of the IPIs and
every other processor take their steps in any order.

What the processors share is safe in every state (`smpBoot_safe`): one of them is started at a time,
it reads its own index, the low addresses that it runs at are mapped until it has answered, and when
`smp_boot` returns every processor of the table has answered once, in order. Only a processor whose
stack could not be allocated needs the low addresses later on. Unless a processor got no memory or
was given up, `smp_boot` can return (`smpBoot_returns_iff`).
-/

namespace Windozz.Kernel.Smp

open Relation

/-! ## The processors -/

def LAPIC_COMMAND_INIT : Nat := 5 * 2 ^ 8
def LAPIC_COMMAND_SIPI : Nat := 6 * 2 ^ 8
def LAPIC_COMMAND_ASSERT : Nat := 2 ^ 14

def TIMER_FREQUENCY : Nat := 1000
def KSTACK : Nat := 131072

/-- What `smp_boot` is given: the field `apic_id` of `cpus`, the page tables, the trampoline and its
entry in the kernel; and the processors that there are besides the boot processor. -/
structure Config where
  cpus : List UInt8
  cr3 : Nat
  smp_trampoline : Nat
  smp_trampoline16 : List UInt8
  present : UInt8 → Bool

/-- The instruction of `smp_boot`, `smp_boot_ap` or `timer_sleep` that the boot processor comes to. -/
inductive Bsp
  | enter
  | storeEntry
  | storeCr3
  | mapLow
  | copy
  | first
  | test
  | clear (index : Nat)
  | initHigh (index : Nat)
  | initLow (index : Nat)
  | initDelay (index time : Nat)
  | initPoll (index i : Nat)
  | initWait (index i time : Nat)
  | sipiHigh (index : Nat)
  | sipiLow (index : Nat)
  | sipiDelay (index time : Nat)
  | bootPoll (index j : Nat)
  | bootWait (index j time : Nat)
  | next
  | unmap
  | returned
  | notResponding (index : Nat)

/-- Where another processor is. -/
inductive Ap
  | off
  /-- Behind an INIT. -/
  | waitSipi
  /-- `main` of the trampoline, in 16-bit mode. -/
  | real (address : Nat)
  /-- `.lmode`, behind the load of CR3. -/
  | lmode (cr3 : Nat)
  /-- `smp_trampoline`, on the stack of the trampoline. -/
  | trampoline
  /-- `smp_kmain`, `gdt_init`, and the store to `cpu_booted`. -/
  | kmain (rsp : Nat)
  | configure (rsp index : Nat)
  | announce (rsp index : Nat)
  | idle (rsp index : Nat)
  /-- The loop of `gdt_init` when there is no memory. -/
  | hung
  /-- A fault on the way. -/
  | crashed
  /-- An interrupt that finds no stack. -/
  | faulted (rsp index : Nat)

/-- An IPI: the low half of the command register, and the field of the high half. -/
structure Ipi where
  command : Nat
  destination : UInt8

/-- The boot processor, the other processors by their APIC IDs, and what they share. `pending` is the
IPI that has not been accepted, for which the delivery bit is set; `sent` is the time of the last
IPI, and `responded` lists who set `cpu_booted`, and with which index. -/
structure System where
  mem : Mem
  current_cpu : Nat
  cpu_booted : Nat
  command_high : Nat
  pending : Option Ipi
  timer_ticks : Nat
  bsp : Bsp
  aps : UInt8 → Ap
  sent : Nat
  responded : List (UInt8 × Nat)

/-! ## The steps -/

variable (c : Config)

/-- Entry 0 of the PML4 maps what entry 256 maps. -/
def LowMapped (m : Mem) : Prop := m.qword c.cr3 = m.qword (c.cr3 + 8 * 256)

/-- There is memory behind the stack pointer. -/
def HasStack (m : Mem) (rsp : Nat) : Prop := 2 ^ 39 ≤ rsp ∨ LowMapped c m

instance (m : Mem) : Decidable (LowMapped c m) := inferInstanceAs (Decidable (_ = _))

instance (m : Mem) (rsp : Nat) : Decidable (HasStack c m rsp) :=
  inferInstanceAs (Decidable (_ ∨ _))

/-- `cpus[index].apic_id`. -/
def Config.apicId (index : Nat) : UInt8 := c.cpus.getD index 0

/-- The value for `LAPIC_COMMAND_HIGH`. -/
def Config.commandHigh (index : Nat) : Nat := (c.apicId index).toNat * 2 ^ 24

/-- An instruction of the boot processor. -/
def smpBoot (s : System) : System :=
  match s.bsp with
  | .enter => { s with bsp := if c.cpus.length = 1 then .returned else .storeEntry }
  | .storeEntry => { s with mem := s.mem.setQword 0 c.smp_trampoline, bsp := .storeCr3 }
  | .storeCr3 => { s with mem := s.mem.setQword 8 c.cr3, bsp := .mapLow }
  | .mapLow => { s with mem := s.mem.setQword c.cr3 (s.mem.qword (c.cr3 + 8 * 256)), bsp := .copy }
  | .copy => { s with mem := s.mem.write 0x1000 c.smp_trampoline16, bsp := .first }
  | .first => { s with current_cpu := 1, bsp := .test }
  | .test =>
      { s with bsp := if s.current_cpu < c.cpus.length then .clear s.current_cpu else .unmap }
  | .clear index => { s with cpu_booted := 0, bsp := .initHigh index }
  | .initHigh index => { s with command_high := c.commandHigh index, bsp := .initLow index }
  | .initLow index =>
      { s with
        pending := some ⟨LAPIC_COMMAND_INIT ||| LAPIC_COMMAND_ASSERT,
          UInt8.ofNat (s.command_high / 2 ^ 24)⟩
        sent := s.timer_ticks
        bsp := .initDelay index (s.timer_ticks + 1) }
  | .initDelay index time =>
      if s.timer_ticks < time then s else { s with bsp := .initPoll index 0 }
  | .initPoll index i =>
      { s with
        bsp := if s.pending.isSome then .initWait index i (s.timer_ticks + 1) else .sipiHigh index }
  | .initWait index i time =>
      if s.timer_ticks < time then s
      else
        { s with
          bsp := if TIMER_FREQUENCY * 2 < i + 1 then .notResponding index
            else .initPoll index (i + 1) }
  | .sipiHigh index => { s with command_high := c.commandHigh index, bsp := .sipiLow index }
  | .sipiLow index =>
      { s with
        pending := some ⟨LAPIC_COMMAND_SIPI ||| LAPIC_COMMAND_ASSERT ||| 1,
          UInt8.ofNat (s.command_high / 2 ^ 24)⟩
        sent := s.timer_ticks
        bsp := .sipiDelay index (s.timer_ticks + 1) }
  | .sipiDelay index time =>
      if s.timer_ticks < time then s else { s with bsp := .bootPoll index 0 }
  | .bootPoll index j =>
      { s with bsp := if s.cpu_booted = 0 then .bootWait index j (s.timer_ticks + 1) else .next }
  | .bootWait index j time =>
      if s.timer_ticks < time then s
      else
        { s with
          bsp := if TIMER_FREQUENCY * 2 < j + 1 then .notResponding index
            else .bootPoll index (j + 1) }
  | .next => { s with current_cpu := s.current_cpu + 1, bsp := .test }
  | .unmap => { s with mem := s.mem.setQword c.cr3 0, bsp := .returned }
  | .returned => s
  | .notResponding _ => s

/-- What an IPI does to a processor: an INIT resets it, and a startup IPI starts it at the page of its
vector if it waits for one. -/
def Ap.accept (command : Nat) (a : Ap) : Ap :=
  if command / 2 ^ 8 % 8 = 5 then .waitSipi
  else if command / 2 ^ 8 % 8 = 6 then
    match a with
    | .waitSipi => .real (command % 256 * 0x1000)
    | a => a
  else a

/-- Another processor goes on; `p` is what `kmalloc` returns to it, and `memory` tells whether
`gdt_init` gets memory. An idle processor takes an interrupt. -/
def smpKmain (p : Nat) (memory : Bool) (id : UInt8) (s : System) : System :=
  let goes (a : Ap) : System := { s with aps := Function.update s.aps id a }
  match s.aps id with
  | .real address =>
      -- the trampoline is assembled for 0x1000, and loads 32 bits of CR3
      if address = 0x1000 ∧ s.mem.read 0x1000 c.smp_trampoline16.length = c.smp_trampoline16 then
        goes (.lmode (s.mem.qword 8 % 2 ^ 32))
      else goes .crashed
  | .lmode cr3 =>
      if cr3 = c.cr3 ∧ LowMapped c s.mem ∧ s.mem.qword 0 = c.smp_trampoline then goes .trampoline
      else goes .crashed
  | .trampoline =>
      -- the result of kmalloc is not tested
      if LowMapped c s.mem then goes (.kmain (u64 (p + KSTACK))) else goes .crashed
  | .kmain rsp =>
      if HasStack c s.mem rsp then goes (.configure rsp s.current_cpu) else goes .crashed
  | .configure rsp index =>
      if HasStack c s.mem rsp then goes (if memory then .announce rsp index else .hung)
      else goes .crashed
  | .announce rsp index =>
      if HasStack c s.mem rsp then
        { goes (.idle rsp index) with cpu_booted := 1, responded := s.responded ++ [(id, index)] }
      else goes .crashed
  | .idle rsp index => if HasStack c s.mem rsp then s else goes (.faulted rsp index)
  | _ => s

theorem accept_init (a : Ap) : a.accept (LAPIC_COMMAND_INIT ||| LAPIC_COMMAND_ASSERT) = .waitSipi :=
  if_pos (by decide)

theorem accept_sipi :
    Ap.waitSipi.accept (LAPIC_COMMAND_SIPI ||| LAPIC_COMMAND_ASSERT ||| 1) = .real 0x1000 := by
  rw [Ap.accept, if_neg (by decide), if_pos (by decide)]
  rfl

/-- A step: an instruction of the boot processor, its timer, the delivery of an IPI, or another
processor. What `kmalloc` returns is null or in the heap. -/
inductive Step (s : System) : System → Prop
  | boot : Step s (smpBoot c s)
  | timer : Step s { s with timer_ticks := s.timer_ticks + 1 }
  | accept (ipi : Ipi) (hpending : s.pending = some ipi)
      (hpresent : c.present ipi.destination = true) :
      Step s { s with
        pending := none
        aps := Function.update s.aps ipi.destination
          ((s.aps ipi.destination).accept ipi.command) }
  | goesOn (id : UInt8) (p : Nat) (memory : Bool)
      (hp : p = 0 ∨ KERNEL_HEAP ≤ p ∧ p + KSTACK < 2 ^ 64) : Step s (smpKmain c p memory id s)

/-- Steps in any order. -/
abbrev Reaches : System → System → Prop := ReflTransGen (Step c)

/-- The call of `smp_boot`, with the other processors off. -/
def start (m : Mem) (timer_ticks : Nat) : System where
  mem := m
  current_cpu := 0
  cpu_booted := 0
  command_high := 0
  pending := none
  timer_ticks := timer_ticks
  bsp := .enter
  aps := fun _ => .off
  sent := timer_ticks
  responded := []

/-! ## What is promised -/

/-- The processor executes what is behind a startup IPI, and has not answered. -/
def Ap.Starting : Ap → Prop
  | .real _ => True
  | .lmode _ => True
  | .trampoline => True
  | .kmain _ => True
  | .configure _ _ => True
  | .announce _ _ => True
  | _ => False

/-- The index that the processor has read. -/
def Ap.index : Ap → Option Nat
  | .configure _ index => some index
  | .announce _ index => some index
  | .idle _ index => some index
  | .faulted _ index => some index
  | _ => none

/-- The boot processor writes the command register next. -/
def Bsp.Sends : Bsp → Prop
  | .initLow _ => True
  | .sipiLow _ => True
  | _ => False

/-- What holds in every state of the start. -/
structure Safe (s : System) : Prop where
  /-- One processor is started at a time. -/
  one : ∀ id id', (s.aps id).Starting → (s.aps id').Starting → id = id'
  mapped : ∀ id, (s.aps id).Starting → LowMapped c s.mem
  ownIndex : ∀ id index, (s.aps id).index = some index → c.cpus[index]? = some id
  alive : ∀ id, s.aps id ≠ .crashed
  /-- Only a processor without a stack of its own is lost later on. -/
  faulted : ∀ id rsp index, s.aps id = .faulted rsp index → rsp = KSTACK ∧ s.bsp = .returned
  unsent : s.bsp.Sends → s.pending = none
  patient : ∀ index, s.bsp = .notResponding index →
    s.sent + TIMER_FREQUENCY * 2 + 2 ≤ s.timer_ticks
  returned : s.bsp = .returned → s.responded = c.cpus.zipIdx.drop 1 ∧ s.pending = none ∧
    (∀ id, ¬ (s.aps id).Starting) ∧ (c.cpus.length ≠ 1 → s.mem.qword c.cr3 = 0)

/-! ## The memory -/

/-- The tables lie behind the trampoline, below 4 GiB. -/
structure Config.Sound : Prop where
  behind : 0x1000 + c.smp_trampoline16.length ≤ c.cr3
  below : c.cr3 + 4096 ≤ 2 ^ 32
  entry : c.smp_trampoline < 2 ^ 64

/-- What a processor finds that is started. -/
structure Prepared (m : Mem) : Prop where
  entry : m.qword 0 = c.smp_trampoline
  root : m.qword 8 % 2 ^ 32 = c.cr3
  low : LowMapped c m
  code : m.read 0x1000 c.smp_trampoline16.length = c.smp_trampoline16

/-- The part of it that the boot processor has stored. -/
def Bsp.Stored (m : Mem) : Bsp → Prop
  | .enter => True
  | .storeEntry => True
  | .storeCr3 => m.qword 0 = c.smp_trampoline
  | .mapLow => m.qword 0 = c.smp_trampoline ∧ m.qword 8 = c.cr3
  | .copy => m.qword 0 = c.smp_trampoline ∧ m.qword 8 = c.cr3 ∧ LowMapped c m
  | .first => Prepared c m
  | _ => False

/-! ## The stages of a start -/

/-- A stack of the heap, or what the null pointer leads to. -/
def StackOf (rsp : Nat) : Prop := rsp = KSTACK ∨ 2 ^ 39 ≤ rsp

/-- A processor that is off, or that has answered. -/
def Settled (id : UInt8) : Ap → Prop
  | .off => True
  | .idle rsp index => c.cpus[index]? = some id ∧ StackOf rsp
  | _ => False

/-- A processor on its way, when `current_cpu` is `n`. -/
def OnTheWay (n : Nat) : Ap → Prop
  | .real address => address = 0x1000
  | .lmode cr3 => cr3 = c.cr3
  | .trampoline => True
  | .kmain rsp => StackOf rsp
  | .configure rsp index => StackOf rsp ∧ index = n
  | .announce rsp index => StackOf rsp ∧ index = n
  | .hung => True
  | _ => False

/-- How far the start of a processor is. -/
inductive Stage
  | calm
  | initSent
  | parked
  | sipiSent
  | starting
  | answered

/-- The processors below `n`, in order, but for the boot processor. -/
def told (n : Nat) : List (UInt8 × Nat) := (c.cpus.zipIdx.take n).drop 1

/-- What a stage says about processor `n`. -/
def Stage.Holds (s : System) (n : Nat) : Stage → Prop
  | .calm => s.pending = none ∧ Settled c (c.apicId n) (s.aps (c.apicId n)) ∧
      s.responded = told c n
  | .initSent =>
      s.pending = some ⟨LAPIC_COMMAND_INIT ||| LAPIC_COMMAND_ASSERT, c.apicId n⟩ ∧
        Settled c (c.apicId n) (s.aps (c.apicId n)) ∧ s.cpu_booted = 0 ∧ s.responded = told c n
  | .parked => s.pending = none ∧ s.aps (c.apicId n) = .waitSipi ∧ s.cpu_booted = 0 ∧
      s.responded = told c n
  | .sipiSent =>
      s.pending = some ⟨LAPIC_COMMAND_SIPI ||| LAPIC_COMMAND_ASSERT ||| 1, c.apicId n⟩ ∧
        s.aps (c.apicId n) = .waitSipi ∧ s.cpu_booted = 0 ∧ s.responded = told c n
  | .starting => s.pending = none ∧ OnTheWay c n (s.aps (c.apicId n)) ∧ s.cpu_booted = 0 ∧
      s.responded = told c n
  | .answered => s.pending = none ∧ Settled c (c.apicId n) (s.aps (c.apicId n)) ∧
      s.cpu_booted = 1 ∧ s.responded = told c (n + 1)

/-- Where the boot processor is in a stage of the start of processor `n`. -/
def Bsp.At (s : System) (n : Nat) : Bsp → Stage → Prop
  | .test, stage => stage = .calm
  | .unmap, stage => stage = .calm ∧ c.cpus.length ≤ n
  | .clear index, stage => stage = .calm ∧ index = n ∧ n < c.cpus.length
  | .initHigh index, stage =>
      stage = .calm ∧ index = n ∧ n < c.cpus.length ∧ s.cpu_booted = 0
  | .initLow index, stage =>
      stage = .calm ∧ index = n ∧ n < c.cpus.length ∧ s.cpu_booted = 0 ∧
        s.command_high = c.commandHigh n
  | .initDelay index _, stage =>
      (stage = .initSent ∨ stage = .parked) ∧ index = n ∧ n < c.cpus.length
  | .initPoll index _, stage =>
      (stage = .initSent ∨ stage = .parked) ∧ index = n ∧ n < c.cpus.length
  | .initWait index _ _, stage =>
      (stage = .initSent ∨ stage = .parked) ∧ index = n ∧ n < c.cpus.length
  | .sipiHigh index, stage => stage = .parked ∧ index = n ∧ n < c.cpus.length
  | .sipiLow index, stage =>
      stage = .parked ∧ index = n ∧ n < c.cpus.length ∧ s.command_high = c.commandHigh n
  | .sipiDelay index _, stage =>
      (stage = .sipiSent ∨ stage = .starting ∨ stage = .answered) ∧ index = n ∧ n < c.cpus.length
  | .bootPoll index _, stage =>
      (stage = .sipiSent ∨ stage = .starting ∨ stage = .answered) ∧ index = n ∧ n < c.cpus.length
  | .bootWait index _ _, stage =>
      (stage = .sipiSent ∨ stage = .starting ∨ stage = .answered) ∧ index = n ∧ n < c.cpus.length
  | .next, stage => stage = .answered ∧ n < c.cpus.length
  | .notResponding index, stage => stage ≠ .calm ∧ index = n ∧ n < c.cpus.length
  | _, _ => False

/-- The loop over the processors, at processor `n`. -/
structure Loop (s : System) (n : Nat) (stage : Stage) : Prop where
  memory : Prepared c s.mem
  current : s.current_cpu = n
  pos : 1 ≤ n
  others : ∀ id, id ≠ c.apicId n → Settled c id (s.aps id)
  holds : stage.Holds c s n
  at_ : s.bsp.At c s n stage

/-- A processor when `smp_boot` has returned. -/
def AtRest (id : UInt8) : Ap → Prop
  | .off => True
  | .idle rsp index => c.cpus[index]? = some id ∧ StackOf rsp
  | .faulted rsp index => c.cpus[index]? = some id ∧ rsp = KSTACK
  | _ => False

/-- A processor that is being started is in the table. -/
theorem Loop.lt {c : Config} {s : System} {n : Nat} {stage : Stage} (h : Loop c s n stage)
    (hstage : stage ≠ .calm) : n < c.cpus.length := by
  have hat := h.at_
  revert hat
  cases s.bsp <;> simp +contextual [Bsp.At, hstage]

/-- The preparation, the loop, or what is left when `smp_boot` has returned. -/
inductive Phase (s : System) : Prop
  | before (hstored : s.bsp.Stored c s.mem) (hoff : ∀ id, s.aps id = .off)
      (hpending : s.pending = none) (hresponded : s.responded = [])
  | loop (n : Nat) (stage : Stage) (h : Loop c s n stage)
  | after (hbsp : s.bsp = .returned) (hrest : ∀ id, AtRest c id (s.aps id))
      (hpending : s.pending = none) (hresponded : s.responded = c.cpus.zipIdx.drop 1)
      (hunmapped : c.cpus.length ≠ 1 → s.mem.qword c.cr3 = 0)

/-! ## The steps of the boot processor -/

section Boot

variable {c}

theorem apicId_getElem? {n : Nat} (hn : n < c.cpus.length) : c.cpus[n]? = some (c.apicId n) := by
  rw [Config.apicId, List.getD_eq_getElem?_getD, List.getElem?_eq_getElem hn]
  rfl

theorem told_succ {n : Nat} (hpos : 1 ≤ n) (hn : n < c.cpus.length) :
    told c (n + 1) = told c n ++ [(c.apicId n, n)] := by
  have hlen : n < c.cpus.zipIdx.length := by rwa [List.length_zipIdx]
  have hget : c.cpus.zipIdx[n]? = some (c.apicId n, n) := by
    rw [List.getElem?_zipIdx, apicId_getElem? hn]
    simp
  have htake : 1 ≤ (c.cpus.zipIdx.take n).length := by
    rw [List.length_take]
    omega
  rw [told, List.take_add_one, hget, List.drop_append_of_le_length htake]
  rfl

theorem told_all {n : Nat} (hn : c.cpus.length ≤ n) : told c n = c.cpus.zipIdx.drop 1 := by
  rw [told, List.take_of_length_le]
  rwa [List.length_zipIdx]

/-- The field of the high half is the APIC ID. -/
theorem commandHigh_field (n : Nat) : UInt8.ofNat (c.commandHigh n / 2 ^ 24) = c.apicId n := by
  rw [Config.commandHigh, Nat.mul_div_cancel _ (by decide)]
  exact UInt8.ofNat_toNat

variable (hc : c.Sound)
include hc

/-- The preparation. -/
theorem Phase.prepare {s : System} (hstored : s.bsp.Stored c s.mem)
    (hoff : ∀ id, s.aps id = .off) (hpending : s.pending = none) (hresponded : s.responded = []) :
    Phase c (smpBoot c s) := by
  obtain ⟨hbehind, hbelow, hentry⟩ := hc
  obtain ⟨m, current_cpu, cpu_booted, command_high, pending, timer_ticks, bsp, aps, sent,
    responded⟩ := s
  simp only at hpending hresponded hstored hoff
  cases bsp with
  | enter =>
      by_cases hone : c.cpus.length = 1
      · -- there is no processor but the boot processor
        refine .after (if_pos hone) (fun id => ?_) hpending ?_ (fun hne => absurd hone hne)
        · show AtRest c id (aps id)
          rw [hoff id]
          trivial
        · show responded = c.cpus.zipIdx.drop 1
          rw [hresponded, List.drop_eq_nil_of_le]
          rw [List.length_zipIdx, hone]
      · refine .before ?_ hoff hpending hresponded
        simp only [smpBoot, if_neg hone]
        trivial
  | storeEntry =>
      exact .before ((Mem.qword_setQword_same m 0 _).trans (u64_of_lt hentry)) hoff hpending
        hresponded
  | storeCr3 =>
      exact .before ⟨(Mem.qword_setQword_disjoint (by omega)).trans hstored,
        (Mem.qword_setQword_same m 8 _).trans (u64_of_lt (by omega))⟩ hoff hpending hresponded
  | mapLow =>
      obtain ⟨hzero, hroot⟩ := hstored
      refine .before ⟨(Mem.qword_setQword_disjoint (by omega)).trans hzero,
        (Mem.qword_setQword_disjoint (by omega)).trans hroot, ?_⟩ hoff hpending hresponded
      calc (m.setQword c.cr3 (m.qword (c.cr3 + 8 * 256))).qword c.cr3
          = u64 (m.qword (c.cr3 + 8 * 256)) := Mem.qword_setQword_same _ _ _
        _ = m.qword (c.cr3 + 8 * 256) := u64_of_lt (Mem.qword_lt _ _)
        _ = (m.setQword c.cr3 (m.qword (c.cr3 + 8 * 256))).qword (c.cr3 + 8 * 256) :=
            (Mem.qword_setQword_disjoint (by omega)).symm
  | copy =>
      obtain ⟨hzero, hroot, hlow⟩ := hstored
      refine .before ⟨(Mem.qword_write_disjoint (by omega)).trans hzero, ?_, ?_,
        Mem.read_write_same _ _ _⟩ hoff hpending hresponded
      · show (m.write 0x1000 c.smp_trampoline16).qword 8 % 2 ^ 32 = c.cr3
        rw [Mem.qword_write_disjoint (by omega), hroot]
        omega
      · show (m.write 0x1000 c.smp_trampoline16).qword c.cr3
          = (m.write 0x1000 c.smp_trampoline16).qword (c.cr3 + 8 * 256)
        rw [Mem.qword_write_disjoint (by omega), Mem.qword_write_disjoint (by omega)]
        exact hlow
  | first =>
      have hsettled : ∀ id, Settled c id (aps id) := fun id => by rw [hoff id]; trivial
      refine .loop 1 .calm ⟨hstored, rfl, le_refl _, fun id _ => hsettled id,
        ⟨hpending, hsettled _, ?_⟩, rfl⟩
      show responded = told c 1
      rw [hresponded, told, List.drop_eq_nil_of_le]
      rw [List.length_take]
      omega
  | _ => exact hstored.elim

omit hc in
/-- The loop. -/
theorem Loop.boot {s : System} {n : Nat} {stage : Stage} (h : Loop c s n stage) :
    Phase c (smpBoot c s) := by
  obtain ⟨hmem, hcur, hpos, hothers, hholds, hat⟩ := h
  obtain ⟨m, current_cpu, cpu_booted, command_high, pending, timer_ticks, bsp, aps, sent,
    responded⟩ := s
  simp only at hmem hcur hothers hat
  cases bsp with
  | test =>
      obtain rfl : stage = .calm := hat
      by_cases hn : current_cpu < c.cpus.length
      · refine .loop n .calm ⟨hmem, hcur, hpos, hothers, hholds, ?_⟩
        simp only [smpBoot, if_pos hn]
        exact ⟨rfl, hcur, by omega⟩
      · refine .loop n .calm ⟨hmem, hcur, hpos, hothers, hholds, ?_⟩
        simp only [smpBoot, if_neg hn]
        exact ⟨rfl, by omega⟩
  | clear index =>
      obtain ⟨rfl, hindex, hn⟩ := hat
      exact .loop n .calm ⟨hmem, hcur, hpos, hothers, hholds, rfl, hindex, hn, rfl⟩
  | initHigh index =>
      obtain ⟨rfl, rfl, hn, hbooted⟩ := hat
      exact .loop index .calm ⟨hmem, hcur, hpos, hothers, hholds, rfl, rfl, hn, hbooted, rfl⟩
  | initLow index =>
      obtain ⟨rfl, rfl, hn, hbooted, hhigh⟩ := hat
      obtain ⟨-, hsettled, hresponded⟩ := hholds
      obtain rfl : command_high = c.commandHigh index := hhigh
      refine .loop index .initSent ⟨hmem, hcur, hpos, hothers, ⟨?_, hsettled, hbooted, hresponded⟩,
        Or.inl rfl, rfl, hn⟩
      simp only [smpBoot, commandHigh_field]
  | initDelay index time =>
      by_cases htime : timer_ticks < time
      · simp only [smpBoot, if_pos htime]
        exact .loop n stage ⟨hmem, hcur, hpos, hothers, hholds, hat⟩
      · simp only [smpBoot, if_neg htime]
        exact .loop n stage ⟨hmem, hcur, hpos, hothers, hholds, hat⟩
  | initPoll index i =>
      obtain ⟨hstage, hindex, hn⟩ := hat
      obtain rfl | rfl := hstage
      · -- the IPI has not been accepted
        have hpending : pending.isSome = true := Option.isSome_iff_exists.mpr ⟨_, hholds.1⟩
        refine .loop n .initSent ⟨hmem, hcur, hpos, hothers, hholds, ?_⟩
        simp only [smpBoot, if_pos hpending]
        exact ⟨Or.inl rfl, hindex, hn⟩
      · have hnone : pending = none := hholds.1
        have hpending : ¬ pending.isSome = true := by simp [hnone]
        refine .loop n .parked ⟨hmem, hcur, hpos, hothers, hholds, ?_⟩
        simp only [smpBoot, if_neg hpending]
        exact ⟨rfl, hindex, hn⟩
  | initWait index i time =>
      by_cases htime : timer_ticks < time
      · simp only [smpBoot, if_pos htime]
        exact .loop n stage ⟨hmem, hcur, hpos, hothers, hholds, hat⟩
      · simp only [smpBoot, if_neg htime]
        obtain ⟨hstage, hindex, hn⟩ := hat
        refine .loop n stage ⟨hmem, hcur, hpos, hothers, hholds, ?_⟩
        split
        · refine ⟨?_, hindex, hn⟩
          obtain rfl | rfl := hstage <;> simp
        · exact ⟨hstage, hindex, hn⟩
  | sipiHigh index =>
      obtain ⟨rfl, rfl, hn⟩ := hat
      exact .loop index .parked ⟨hmem, hcur, hpos, hothers, hholds, rfl, rfl, hn, rfl⟩
  | sipiLow index =>
      obtain ⟨rfl, rfl, hn, hhigh⟩ := hat
      obtain ⟨-, hwait, hbooted, hresponded⟩ := hholds
      obtain rfl : command_high = c.commandHigh index := hhigh
      refine .loop index .sipiSent ⟨hmem, hcur, hpos, hothers, ⟨?_, hwait, hbooted, hresponded⟩,
        Or.inl rfl, rfl, hn⟩
      simp only [smpBoot, commandHigh_field]
  | sipiDelay index time =>
      by_cases htime : timer_ticks < time
      · simp only [smpBoot, if_pos htime]
        exact .loop n stage ⟨hmem, hcur, hpos, hothers, hholds, hat⟩
      · simp only [smpBoot, if_neg htime]
        exact .loop n stage ⟨hmem, hcur, hpos, hothers, hholds, hat⟩
  | bootPoll index j =>
      obtain ⟨hstage, hindex, hn⟩ := hat
      by_cases hbooted : cpu_booted = 0
      · refine .loop n stage ⟨hmem, hcur, hpos, hothers, hholds, ?_⟩
        simp only [smpBoot, if_pos hbooted]
        exact ⟨hstage, hindex, hn⟩
      · -- only the answer sets it
        obtain rfl : stage = .answered := by
          obtain rfl | rfl | rfl := hstage
          · exact absurd hholds.2.2.1 hbooted
          · exact absurd hholds.2.2.1 hbooted
          · rfl
        refine .loop n .answered ⟨hmem, hcur, hpos, hothers, hholds, ?_⟩
        simp only [smpBoot, if_neg hbooted]
        exact ⟨rfl, hn⟩
  | bootWait index j time =>
      by_cases htime : timer_ticks < time
      · simp only [smpBoot, if_pos htime]
        exact .loop n stage ⟨hmem, hcur, hpos, hothers, hholds, hat⟩
      · simp only [smpBoot, if_neg htime]
        obtain ⟨hstage, hindex, hn⟩ := hat
        refine .loop n stage ⟨hmem, hcur, hpos, hothers, hholds, ?_⟩
        split
        · refine ⟨?_, hindex, hn⟩
          obtain rfl | rfl | rfl := hstage <;> simp
        · exact ⟨hstage, hindex, hn⟩
  | next =>
      obtain ⟨rfl, hn⟩ := hat
      obtain ⟨hpending, hsettled, -, hresponded⟩ := hholds
      have hall : ∀ id, Settled c id (aps id) := by
        intro id
        by_cases hid : id = c.apicId n
        · rw [hid]
          exact hsettled
        · exact hothers id hid
      exact .loop (n + 1) .calm ⟨hmem, congrArg (· + 1) hcur, by omega, fun id _ => hall id,
        ⟨hpending, hall _, hresponded⟩, rfl⟩
  | unmap =>
      obtain ⟨rfl, hn⟩ := hat
      obtain ⟨hpending, hsettled, hresponded⟩ := hholds
      refine .after rfl (fun id => ?_) hpending (hresponded.trans (told_all hn)) fun _ =>
        Mem.qword_setQword_same m c.cr3 0
      have hall : Settled c id (aps id) := by
        by_cases hid : id = c.apicId n
        · rw [hid]
          exact hsettled
        · exact hothers id hid
      show AtRest c id (aps id)
      generalize aps id = a at hall
      cases a <;> first | exact hall | exact hall.elim
  | notResponding index => exact .loop n stage ⟨hmem, hcur, hpos, hothers, hholds, hat⟩
  | _ => exact hat.elim

end Boot

/-! ## The steps of the others -/

section Others

variable {c} {s : System} {n : Nat} {stage : Stage}

/-- What a processor does is nothing to the others. -/
theorem settled_update {id₀ : UInt8} (h : ∀ id, id ≠ id₀ → Settled c id (s.aps id)) (a : Ap) (id : UInt8)
    (hid : id ≠ id₀) : Settled c id (Function.update s.aps id₀ a id) := by
  rw [Function.update_of_ne hid]
  exact h id hid

/-- An IPI arrives at the processor that it was sent to. -/
theorem Loop.accept (h : Loop c s n stage) {ipi : Ipi} (hpending : s.pending = some ipi) :
    Phase c { s with
      pending := none
      aps := Function.update s.aps ipi.destination
        ((s.aps ipi.destination).accept ipi.command) } := by
  obtain ⟨hmem, hcur, hpos, hothers, hholds, hat⟩ := h
  have hrest := settled_update hothers
  cases stage with
  | calm => cases hpending.symm.trans hholds.1
  | parked => cases hpending.symm.trans hholds.1
  | starting => cases hpending.symm.trans hholds.1
  | answered => cases hpending.symm.trans hholds.1
  | initSent =>
      obtain ⟨hipi, -, hbooted, hresponded⟩ := hholds
      obtain rfl := Option.some.inj (hpending.symm.trans hipi)
      refine .loop n .parked ⟨hmem, hcur, hpos, hrest _,
        ⟨rfl, (Function.update_self _ _ _).trans (accept_init _), hbooted, hresponded⟩, ?_⟩
      revert hat
      show s.bsp.At c s n .initSent → s.bsp.At c _ n .parked
      cases s.bsp <;> simp [Bsp.At]
  | sipiSent =>
      obtain ⟨hipi, hwait, hbooted, hresponded⟩ := hholds
      obtain rfl := Option.some.inj (hpending.symm.trans hipi)
      refine .loop n .starting ⟨hmem, hcur, hpos, hrest _, ⟨rfl, ?_, hbooted, hresponded⟩, ?_⟩
      · show OnTheWay c n (Function.update s.aps (c.apicId n) _ (c.apicId n))
        rw [Function.update_self, hwait]
        show OnTheWay c n
          (Ap.waitSipi.accept (LAPIC_COMMAND_SIPI ||| LAPIC_COMMAND_ASSERT ||| 1))
        rw [accept_sipi]
        rfl
      · revert hat
        show s.bsp.At c s n .sipiSent → s.bsp.At c _ n .starting
        cases s.bsp <;> simp [Bsp.At]

/-- The pointer that `kmalloc` returned, as a stack. -/
theorem stackOf_kmalloc {p : Nat} (hp : p = 0 ∨ KERNEL_HEAP ≤ p ∧ p + KSTACK < 2 ^ 64) :
    StackOf (u64 (p + KSTACK)) := by
  rcases hp with rfl | ⟨hheap, hlt⟩
  · left
    rfl
  · right
    rw [u64_of_lt hlt]
    unfold KERNEL_HEAP at hheap
    omega

/-- A processor that is settled does nothing while the low addresses are mapped. -/
theorem Settled.smpKmain {id : UInt8} (h : Settled c id (s.aps id)) (hlow : LowMapped c s.mem)
    (p : Nat) (memory : Bool) : smpKmain c p memory id s = s := by
  cases hap : s.aps id with
  | off => simp only [Smp.smpKmain, hap]
  | idle rsp index =>
      have hstack : HasStack c s.mem rsp := Or.inr hlow
      simp only [Smp.smpKmain, hap, if_pos hstack]
  | _ =>
      rw [hap] at h
      exact h.elim

/-- A processor that is on its way goes on, or answers. -/
theorem Loop.starting (h : Loop c s n .starting) {p : Nat} (memory : Bool)
    (hp : p = 0 ∨ KERNEL_HEAP ≤ p ∧ p + KSTACK < 2 ^ 64) :
    Phase c (smpKmain c p memory (c.apicId n) s) := by
  have hn := h.lt Stage.noConfusion
  obtain ⟨hmem, hcur, hpos, hothers, ⟨hpending, hway, hbooted, hresponded⟩, hat⟩ := h
  have hrest := settled_update hothers
  have hstack : ∀ rsp, HasStack c s.mem rsp := fun _ => Or.inr hmem.low
  -- a step that does not answer
  have hgoes : ∀ a, OnTheWay c n a → Phase c { s with
      aps := Function.update s.aps (c.apicId n) a } := by
    intro a ha
    refine .loop n .starting ⟨hmem, hcur, hpos, hrest a, ⟨hpending, ?_, hbooted, hresponded⟩, hat⟩
    show OnTheWay c n (Function.update s.aps (c.apicId n) a (c.apicId n))
    rwa [Function.update_self]
  cases hap : s.aps (c.apicId n) with
  | real address =>
      rw [hap] at hway
      have hfetch : address = 0x1000 ∧
          s.mem.read 0x1000 c.smp_trampoline16.length = c.smp_trampoline16 := ⟨hway, hmem.code⟩
      simp only [smpKmain, hap, if_pos hfetch]
      exact hgoes _ hmem.root
  | lmode cr3 =>
      rw [hap] at hway
      have hjump : cr3 = c.cr3 ∧ LowMapped c s.mem ∧ s.mem.qword 0 = c.smp_trampoline :=
        ⟨hway, hmem.low, hmem.entry⟩
      simp only [smpKmain, hap, if_pos hjump]
      exact hgoes _ trivial
  | trampoline =>
      simp only [smpKmain, hap, if_pos hmem.low]
      exact hgoes _ (stackOf_kmalloc hp)
  | kmain rsp =>
      rw [hap] at hway
      simp only [smpKmain, hap, if_pos (hstack rsp)]
      exact hgoes _ ⟨hway, hcur⟩
  | configure rsp index =>
      rw [hap] at hway
      simp only [smpKmain, hap, if_pos (hstack rsp)]
      cases memory with
      | true => exact hgoes _ hway
      | false => exact hgoes _ trivial
  | announce rsp index =>
      rw [hap] at hway
      obtain ⟨hrsp, rfl⟩ := hway
      simp only [smpKmain, hap, if_pos (hstack rsp)]
      refine .loop index .answered ⟨hmem, hcur, hpos, hrest _, ⟨hpending, ?_, rfl, ?_⟩, ?_⟩
      · show Settled c (c.apicId index) (Function.update s.aps (c.apicId index) _ (c.apicId index))
        rw [Function.update_self]
        exact ⟨apicId_getElem? hn, hrsp⟩
      · show s.responded ++ [(c.apicId index, index)] = told c (index + 1)
        rw [told_succ hpos hn, hresponded]
      · revert hat
        show s.bsp.At c s index .starting → s.bsp.At c _ index .answered
        cases s.bsp <;> simp [Bsp.At]
  | hung =>
      simp only [smpKmain, hap]
      exact .loop n .starting ⟨hmem, hcur, hpos, hothers, ⟨hpending, by rw [hap]; trivial, hbooted,
        hresponded⟩, hat⟩
  | _ =>
      rw [hap] at hway
      exact hway.elim

/-- A step of a processor in the loop. -/
theorem Loop.goesOn (h : Loop c s n stage) (id : UInt8) {p : Nat} (memory : Bool)
    (hp : p = 0 ∨ KERNEL_HEAP ≤ p ∧ p + KSTACK < 2 ^ 64) :
    Phase c (smpKmain c p memory id s) := by
  by_cases hid : id = c.apicId n
  · obtain rfl := hid
    cases stage with
    | starting => exact h.starting memory hp
    | calm =>
        rw [h.holds.2.1.smpKmain h.memory.low]
        exact .loop n _ h
    | initSent =>
        rw [h.holds.2.1.smpKmain h.memory.low]
        exact .loop n _ h
    | answered =>
        rw [h.holds.2.1.smpKmain h.memory.low]
        exact .loop n _ h
    | parked =>
        have hwait := h.holds.2.1
        simp only [smpKmain, hwait]
        exact .loop n _ h
    | sipiSent =>
        have hwait := h.holds.2.1
        simp only [smpKmain, hwait]
        exact .loop n _ h
  · rw [(h.others id hid).smpKmain h.memory.low]
    exact .loop n stage h

/-- A step of a processor when `smp_boot` has returned: an interrupt may find no stack. -/
theorem AtRest.goesOn {id : UInt8} (h : AtRest c id (s.aps id)) (p : Nat) (memory : Bool) :
    smpKmain c p memory id s = s ∨ ∃ index, c.cpus[index]? = some id ∧
      smpKmain c p memory id s
        = { s with aps := Function.update s.aps id (.faulted KSTACK index) } := by
  cases hap : s.aps id with
  | off =>
      left
      simp only [smpKmain, hap]
  | faulted rsp index =>
      left
      simp only [smpKmain, hap]
  | idle rsp index =>
      rw [hap] at h
      obtain ⟨hindex, hrsp⟩ := h
      by_cases hstack : HasStack c s.mem rsp
      · left
        simp only [smpKmain, hap, if_pos hstack]
      · obtain rfl : rsp = KSTACK := hrsp.resolve_right fun hhigh => hstack (Or.inl hhigh)
        right
        exact ⟨index, hindex, by simp only [smpKmain, hap, if_neg hstack]⟩
  | _ =>
      rw [hap] at h
      exact h.elim

/-- **Every step** stays in the phases. -/
theorem Phase.step (hc : c.Sound) (h : Phase c s) {s' : System} (hstep : Step c s s') :
    Phase c s' := by
  cases hstep with
  | boot =>
      cases h with
      | before hstored hoff hpending hresponded =>
          exact Phase.prepare hc hstored hoff hpending hresponded
      | loop n stage h => exact h.boot
      | after hbsp hrest hpending hresponded hunmapped =>
          simp only [smpBoot, hbsp]
          exact .after hbsp hrest hpending hresponded hunmapped
  | timer =>
      cases h with
      | before hstored hoff hpending hresponded =>
          exact .before hstored hoff hpending hresponded
      | loop n stage h =>
          exact .loop n stage ⟨h.memory, h.current, h.pos, h.others, by
            cases stage <;> exact h.holds, h.at_⟩
      | after hbsp hrest hpending hresponded hunmapped =>
          exact .after hbsp hrest hpending hresponded hunmapped
  | accept ipi hpending hpresent =>
      cases h with
      | before _ _ hnone => cases hpending.symm.trans hnone
      | loop n stage h => exact h.accept hpending
      | after _ _ hnone => cases hpending.symm.trans hnone
  | goesOn id p memory hp =>
      cases h with
      | before hstored hoff hpending hresponded =>
          simp only [smpKmain, hoff id]
          exact .before hstored hoff hpending hresponded
      | loop n stage h => exact h.goesOn id memory hp
      | after hbsp hrest hpending hresponded hunmapped =>
          obtain heq | ⟨index, hindex, heq⟩ := (hrest id).goesOn p memory
          · rw [heq]
            exact .after hbsp hrest hpending hresponded hunmapped
          · rw [heq]
            refine .after hbsp (fun id' => ?_) hpending hresponded hunmapped
            show AtRest c id' (Function.update s.aps id (.faulted KSTACK index) id')
            by_cases hid : id' = id
            · rw [hid, Function.update_self]
              exact ⟨hindex, rfl⟩
            · rw [Function.update_of_ne hid]
              exact hrest id'

end Others

/-! ## The time -/

/-- How long the boot processor has waited for the processor that it sent the last IPI to. -/
def System.Waited (s : System) : Prop :=
  match s.bsp with
  | .initDelay _ time => s.sent + 1 ≤ time
  | .initPoll _ i => s.sent + 1 + i ≤ s.timer_ticks
  | .initWait _ i time => s.sent + 2 + i ≤ time
  | .sipiDelay _ time => s.sent + 1 ≤ time
  | .bootPoll _ j => s.sent + 1 + j ≤ s.timer_ticks
  | .bootWait _ j time => s.sent + 2 + j ≤ time
  | .notResponding _ => s.sent + TIMER_FREQUENCY * 2 + 2 ≤ s.timer_ticks
  | _ => True

section Time

variable {c}

/-- The counters of the polls count the ticks. -/
theorem System.Waited.smpBoot {s : System} (h : s.Waited) : (smpBoot c s).Waited := by
  obtain ⟨m, current_cpu, cpu_booted, command_high, pending, timer_ticks, bsp, aps, sent,
    responded⟩ := s
  cases bsp with
  | initLow index => exact le_refl (timer_ticks + 1)
  | sipiLow index => exact le_refl (timer_ticks + 1)
  | initDelay index time =>
      have hle : sent + 1 ≤ time := h
      simp only [Smp.smpBoot]
      split
      · exact h
      · show sent + 1 + 0 ≤ timer_ticks
        omega
  | initPoll index i =>
      have hle : sent + 1 + i ≤ timer_ticks := h
      simp only [Smp.smpBoot]
      split
      · show sent + 2 + i ≤ timer_ticks + 1
        omega
      · trivial
  | initWait index i time =>
      have hle : sent + 2 + i ≤ time := h
      simp only [Smp.smpBoot]
      split
      · exact h
      · split
        · show sent + TIMER_FREQUENCY * 2 + 2 ≤ timer_ticks
          omega
        · show sent + 1 + (i + 1) ≤ timer_ticks
          omega
  | sipiDelay index time =>
      have hle : sent + 1 ≤ time := h
      simp only [Smp.smpBoot]
      split
      · exact h
      · show sent + 1 + 0 ≤ timer_ticks
        omega
  | bootPoll index j =>
      have hle : sent + 1 + j ≤ timer_ticks := h
      simp only [Smp.smpBoot]
      split
      · show sent + 2 + j ≤ timer_ticks + 1
        omega
      · trivial
  | bootWait index j time =>
      have hle : sent + 2 + j ≤ time := h
      simp only [Smp.smpBoot]
      split
      · exact h
      · split
        · show sent + TIMER_FREQUENCY * 2 + 2 ≤ timer_ticks
          omega
        · show sent + 1 + (j + 1) ≤ timer_ticks
          omega
  | enter =>
      simp only [Smp.smpBoot]
      split <;> trivial
  | test =>
      simp only [Smp.smpBoot]
      split <;> trivial
  | notResponding index => exact h
  | _ => trivial

/-- Another processor changes its own state, and what it answers. -/
theorem smpKmain_frame (p : Nat) (memory : Bool) (id : UInt8) (s : System) :
    ∃ aps cpu_booted responded, smpKmain c p memory id s
      = { s with aps := aps, cpu_booted := cpu_booted, responded := responded } := by
  cases hap : s.aps id <;> simp only [smpKmain, hap] <;> (try split) <;> exact ⟨_, _, _, rfl⟩

theorem System.Waited.step {s s' : System} (h : s.Waited) (hstep : Step c s s') : s'.Waited := by
  cases hstep with
  | boot => exact h.smpBoot
  | timer =>
      show System.Waited { s with timer_ticks := s.timer_ticks + 1 }
      obtain ⟨m, current_cpu, cpu_booted, command_high, pending, timer_ticks, bsp, aps, sent,
        responded⟩ := s
      -- the clock only makes the wait longer
      cases bsp with
      | initPoll index i => exact Nat.le_succ_of_le h
      | bootPoll index j => exact Nat.le_succ_of_le h
      | notResponding index => exact Nat.le_succ_of_le h
      | _ => exact h
  | accept ipi hpending hpresent => exact h
  | goesOn id p memory hp =>
      obtain ⟨_, _, _, heq⟩ := @smpKmain_frame c p memory id s
      rw [heq]
      exact h

end Time

/-! ## Safety -/

section Safety

variable {c} {s : System}

/-- What a processor is up to in the loop. -/
theorem Loop.processor {n : Nat} {stage : Stage} (h : Loop c s n stage) (id : UInt8) :
    Settled c id (s.aps id) ∨ s.aps id = .waitSipi ∨
      id = c.apicId n ∧ n < c.cpus.length ∧ OnTheWay c n (s.aps id) := by
  have hlt := h.lt
  obtain ⟨-, -, -, hothers, hholds, -⟩ := h
  by_cases hid : id = c.apicId n
  · obtain rfl := hid
    cases stage with
    | calm => exact Or.inl hholds.2.1
    | initSent => exact Or.inl hholds.2.1
    | answered => exact Or.inl hholds.2.1
    | parked => exact Or.inr (Or.inl hholds.2.1)
    | sipiSent => exact Or.inr (Or.inl hholds.2.1)
    | starting =>
        right
        right
        exact ⟨rfl, hlt Stage.noConfusion, hholds.2.1⟩
  · exact Or.inl (hothers id hid)

theorem Settled.not_starting {id : UInt8} {a : Ap} (h : Settled c id a) : ¬ a.Starting := by
  cases a with
  | off => exact fun hs => hs
  | idle rsp index => exact fun hs => hs
  | _ => exact h.elim

theorem Settled.index {id : UInt8} {a : Ap} (h : Settled c id a) {index : Nat}
    (hindex : a.index = some index) : c.cpus[index]? = some id := by
  cases a with
  | off => cases hindex
  | idle rsp _ =>
      cases hindex
      exact h.1
  | _ => exact h.elim

theorem OnTheWay.index {n : Nat} {a : Ap} (h : OnTheWay c n a) {index : Nat}
    (hindex : a.index = some index) : index = n := by
  cases a with
  | configure rsp _ =>
      cases hindex
      exact h.2
  | announce rsp _ =>
      cases hindex
      exact h.2
  | idle rsp _ => exact h.elim
  | faulted rsp _ => exact h.elim
  | _ => cases hindex

theorem AtRest.not_starting {id : UInt8} {a : Ap} (h : AtRest c id a) : ¬ a.Starting := by
  cases a with
  | off => exact fun hs => hs
  | idle rsp index => exact fun hs => hs
  | faulted rsp index => exact fun hs => hs
  | _ => exact h.elim

theorem AtRest.index {id : UInt8} {a : Ap} (h : AtRest c id a) {index : Nat}
    (hindex : a.index = some index) : c.cpus[index]? = some id := by
  cases a with
  | off => cases hindex
  | idle rsp _ =>
      cases hindex
      exact h.1
  | faulted rsp _ =>
      cases hindex
      exact h.1
  | _ => exact h.elim

theorem Loop.safe {n : Nat} {stage : Stage} (h : Loop c s n stage)
    (hwaited : s.Waited) : Safe c s where
  one := by
    -- who is being started is processor n
    have hwho : ∀ id, (s.aps id).Starting → id = c.apicId n := by
      intro id hstarting
      obtain hsettled | hwait | ⟨heq, -, -⟩ := h.processor id
      · exact absurd hstarting hsettled.not_starting
      · rw [hwait] at hstarting
        exact hstarting.elim
      · exact heq
    exact fun id id' hid hid' => (hwho id hid).trans (hwho id' hid').symm
  mapped := fun _ _ => h.memory.low
  ownIndex := by
    intro id index hindex
    obtain hsettled | hwait | ⟨rfl, hn, hway⟩ := h.processor id
    · exact hsettled.index hindex
    · rw [hwait] at hindex
      cases hindex
    · rw [hway.index hindex]
      exact apicId_getElem? hn
  alive := by
    intro id hcrashed
    obtain hsettled | hwait | ⟨-, -, hway⟩ := h.processor id
    · rw [hcrashed] at hsettled
      exact hsettled
    · cases hwait.symm.trans hcrashed
    · rw [hcrashed] at hway
      exact hway
  faulted := by
    intro id rsp index hfaulted
    obtain hsettled | hwait | ⟨-, -, hway⟩ := h.processor id
    · rw [hfaulted] at hsettled
      exact hsettled.elim
    · cases hwait.symm.trans hfaulted
    · rw [hfaulted] at hway
      exact hway.elim
  unsent := by
    obtain ⟨-, -, -, -, hholds, hat⟩ := h
    intro hsends
    cases hbsp : s.bsp with
    | initLow index =>
        rw [hbsp] at hat
        obtain ⟨rfl, -⟩ := hat
        exact hholds.1
    | sipiLow index =>
        rw [hbsp] at hat
        obtain ⟨rfl, -⟩ := hat
        exact hholds.1
    | _ =>
        rw [hbsp] at hsends
        exact hsends.elim
  patient := by
    intro index hbsp
    rw [System.Waited, hbsp] at hwaited
    exact hwaited
  returned := by
    intro hbsp
    have hat := h.at_
    rw [hbsp] at hat
    exact hat.elim

theorem Phase.safe (h : Phase c s) (hwaited : s.Waited) : Safe c s := by
  cases h with
  | loop n stage h => exact h.safe hwaited
  | before hstored hoff hpending hresponded =>
      have hnone : ∀ id, ¬ (s.aps id).Starting := fun id hs => by rwa [hoff id] at hs
      refine ⟨fun id id' hs => absurd hs (hnone id), fun id hs => absurd hs (hnone id),
        fun id index hindex => ?_, fun id hap => ?_, fun id rsp index hap => ?_, fun _ => hpending,
        fun index hbsp => ?_, fun hbsp => ?_⟩
      · rw [hoff id] at hindex
        cases hindex
      · cases (hoff id).symm.trans hap
      · cases (hoff id).symm.trans hap
      · rw [hbsp] at hstored
        exact hstored.elim
      · rw [hbsp] at hstored
        exact hstored.elim
  | after hbsp hrest hpending hresponded hunmapped =>
      have hnone : ∀ id, ¬ (s.aps id).Starting := fun id => (hrest id).not_starting
      refine ⟨fun id id' hs => absurd hs (hnone id), fun id hs => absurd hs (hnone id),
        fun id index hindex => (hrest id).index hindex, fun id hap => ?_,
        fun id rsp index hap => ?_, fun _ => hpending, fun index hgiven => ?_,
        fun _ => ⟨hresponded, hpending, hnone, hunmapped⟩⟩
      · have hrest := hrest id
        rw [hap] at hrest
        exact hrest
      · have hrest := hrest id
        rw [hap] at hrest
        exact ⟨hrest.2, hbsp⟩
      · cases hbsp.symm.trans hgiven

/-- The phases of every run. -/
theorem Reaches.phase (hc : c.Sound) {m : Mem} {timer_ticks : Nat}
    (h : Reaches c (start m timer_ticks) s) : Phase c s ∧ s.Waited := by
  induction h with
  | refl => exact ⟨.before trivial (fun _ => rfl) rfl rfl, trivial⟩
  | tail _ hstep ih => exact ⟨ih.1.step hc hstep, ih.2.step hstep⟩

end Safety

/-- **The start of the processors is safe.** Whatever the memory, and in whatever order the boot
processor, its timer, the IPIs and the other processors take their steps: one processor is started
at a time, with the low addresses mapped, and the index that it reads is its own; none of them
faults on the way; no IPI is sent before the last one has been accepted; a processor is given up
after more than 2000 ticks; and when `smp_boot` returns the processors have answered, each
once and in the order of the table. -/
theorem smpBoot_safe {c : Config} (hc : c.Sound) {m : Mem} {timer_ticks : Nat} {s : System}
    (h : Reaches c (start m timer_ticks) s) : Safe c s :=
  (h.phase hc).1.safe (h.phase hc).2

/-! ## Completion -/

/-- The boot processor has given up, or will when it wakes. -/
def Bsp.GivesUp : Bsp → Prop
  | .initWait _ i _ => TIMER_FREQUENCY * 2 < i + 1
  | .bootWait _ j _ => TIMER_FREQUENCY * 2 < j + 1
  | .notResponding _ => True
  | _ => False

/-- A processor was given up, or got no memory. -/
def System.Lost (s : System) : Prop := (∃ id, s.aps id = .hung) ∨ s.bsp.GivesUp

/-- The way of a processor from the startup IPI to its answer. -/
def Ap.left : Ap → Nat
  | .real _ => 7
  | .lmode _ => 6
  | .trampoline => 5
  | .kmain _ => 4
  | .configure _ _ => 3
  | .announce _ _ => 2
  | _ => 0

/-- How far the IPI that was sent is from the answer of the processor. -/
def System.answerLeft (c : Config) (s : System) : Nat :=
  if s.pending.isSome then 8 else (s.aps (c.apicId s.current_cpu)).left

/-- The way of the boot processor to the return. -/
def System.left (c : Config) (s : System) : Nat :=
  let processors := 60 * (c.cpus.length - s.current_cpu)
  match s.bsp with
  | .enter => 60 * c.cpus.length + 66
  | .storeEntry => 60 * c.cpus.length + 65
  | .storeCr3 => 60 * c.cpus.length + 64
  | .mapLow => 60 * c.cpus.length + 63
  | .copy => 60 * c.cpus.length + 62
  | .first => 60 * c.cpus.length + 61
  | .test => processors + 59
  | .clear _ => processors + 58
  | .initHigh _ => processors + 57
  | .initLow _ => processors + 56
  | .initDelay _ _ => processors + (if s.pending.isSome then 55 else 50)
  | .initWait _ _ _ => processors + (if s.pending.isSome then 55 else 50)
  | .initPoll _ _ => processors + (if s.pending.isSome then 54 else 49)
  | .sipiHigh _ => processors + 48
  | .sipiLow _ => processors + 47
  | .sipiDelay _ _ => processors + 5 * s.answerLeft c + 5
  | .bootWait _ _ _ => processors + 5 * s.answerLeft c + 5
  | .bootPoll _ _ => processors + 5 * s.answerLeft c + 4
  | .next => processors + 2
  | .unmap => 1
  | .returned => 0
  | .notResponding _ => 0

section Completion

variable {c} {s : System} {n : Nat} {stage : Stage}

/-- Time passes. -/
theorem Reaches.ticks (s : System) (k : Nat) :
    Reaches c s { s with timer_ticks := s.timer_ticks + k } := by
  induction k with
  | zero => exact ReflTransGen.refl
  | succ k ih => exact ih.tail .timer

/-- A state that is not lost and nearer to the return. -/
def Advances (c : Config) (s : System) : Prop :=
  ∃ s', Reaches c s s' ∧ ¬ s'.Lost ∧ s'.left c < s.left c

theorem Advances.boot (hlost : ¬ s.Lost) (haps : (smpBoot c s).aps = s.aps)
    (hbsp : ¬ (smpBoot c s).bsp.GivesUp) (hleft : (smpBoot c s).left c < s.left c) :
    Advances c s := by
  refine ⟨smpBoot c s, ReflTransGen.single .boot, ?_, hleft⟩
  rintro (⟨id, hid⟩ | hgives)
  · rw [haps] at hid
    exact hlost (Or.inl ⟨id, hid⟩)
  · exact hbsp hgives

/-- An IPI that was sent is accepted. -/
theorem Advances.accept (hlost : ¬ s.Lost) {ipi : Ipi} (hpending : s.pending = some ipi)
    (hpresent : c.present ipi.destination = true)
    (hhung : (s.aps ipi.destination).accept ipi.command ≠ .hung)
    (hleft : System.left c { s with
      pending := none
      aps := Function.update s.aps ipi.destination
        ((s.aps ipi.destination).accept ipi.command) } < s.left c) : Advances c s := by
  refine ⟨_, ReflTransGen.single (.accept ipi hpending hpresent), ?_, hleft⟩
  rintro (⟨id, hid⟩ | hgives)
  · by_cases heq : id = ipi.destination
    · subst heq
      exact hhung ((Function.update_self _ _ _).symm.trans hid)
    · exact hlost (Or.inl ⟨id, (Function.update_of_ne heq _ _).symm.trans hid⟩)
  · exact hlost (Or.inr hgives)

/-- The boot processor sleeps until it goes on. -/
theorem Advances.slept (k : Nat) (h : Advances c { s with timer_ticks := s.timer_ticks + k }) :
    Advances c s := by
  obtain ⟨s', hreach, hlost, hleft⟩ := h
  exact ⟨s', (Reaches.ticks s k).trans hreach, hlost, hleft⟩

/-- Between two processors. -/
theorem Loop.advances_calm (h : Loop c s n .calm) (hlost : ¬ s.Lost) : Advances c s := by
  obtain ⟨-, -, -, -, -, hat⟩ := h
  cases hbsp : s.bsp with
  | test =>
      by_cases hn : s.current_cpu < c.cpus.length
      · apply Advances.boot hlost <;> simp only [smpBoot, hbsp, if_pos hn, System.left]
        · exact fun hgives => hgives
        · omega
      · apply Advances.boot hlost <;> simp only [smpBoot, hbsp, if_neg hn, System.left]
        · exact fun hgives => hgives
        · omega
  | clear index =>
      apply Advances.boot hlost <;> simp only [smpBoot, hbsp, System.left]
      · exact fun hgives => hgives
      · omega
  | initHigh index =>
      apply Advances.boot hlost <;> simp only [smpBoot, hbsp, System.left]
      · exact fun hgives => hgives
      · omega
  | initLow index =>
      apply Advances.boot hlost <;> simp only [smpBoot, hbsp, System.left]
      · exact fun hgives => hgives
      · simp
  | unmap =>
      apply Advances.boot hlost <;> simp only [smpBoot, hbsp, System.left]
      · exact fun hgives => hgives
      · omega
  | _ => simp [hbsp, Bsp.At] at hat

/-- The INIT arrives. -/
theorem Loop.advances_initSent (h : Loop c s n .initSent) (hlost : ¬ s.Lost)
    (hpresent : c.present (c.apicId n) = true) : Advances c s := by
  obtain ⟨-, -, -, -, ⟨hpending, -⟩, hat⟩ := h
  have hhung : (s.aps (c.apicId n)).accept (LAPIC_COMMAND_INIT ||| LAPIC_COMMAND_ASSERT) ≠ .hung := by
    rw [accept_init]
    exact Ap.noConfusion
  apply Advances.accept hlost hpending hpresent hhung
  cases hbsp : s.bsp with
  | initDelay => simp [System.left, hbsp, hpending]
  | initPoll => simp [System.left, hbsp, hpending]
  | initWait => simp [System.left, hbsp, hpending]
  | notResponding => exact absurd (Or.inr (by rw [hbsp]; trivial)) hlost
  | _ => simp [hbsp, Bsp.At] at hat

/-- Behind the INIT. -/
theorem Loop.advances_parked (h : Loop c s n .parked) (hlost : ¬ s.Lost) : Advances c s := by
  obtain ⟨-, -, -, -, ⟨hpending, -⟩, hat⟩ := h
  cases hbsp : s.bsp with
  | initDelay index time =>
      apply Advances.slept time
      have hawake : ¬ s.timer_ticks + time < time := by omega
      have hlater : ¬ System.Lost { s with timer_ticks := s.timer_ticks + time } := hlost
      apply Advances.boot hlater <;>
        simp only [smpBoot, hbsp, if_neg hawake, System.left, hpending]
      · exact fun hgives => hgives
      · simp
  | initPoll index i =>
      apply Advances.boot hlost <;> simp only [smpBoot, hbsp, System.left, hpending]
      · exact fun hgives => hgives
      · simp
  | initWait index i time =>
      have hmore : ¬ TIMER_FREQUENCY * 2 < i + 1 := fun hlt => hlost (Or.inr (by rw [hbsp]; exact hlt))
      apply Advances.slept time
      have hawake : ¬ s.timer_ticks + time < time := by omega
      have hlater : ¬ System.Lost { s with timer_ticks := s.timer_ticks + time } := hlost
      apply Advances.boot hlater <;>
        simp only [smpBoot, hbsp, if_neg hawake, if_neg hmore, System.left, hpending]
      · exact fun hgives => hgives
      · simp
  | sipiHigh index =>
      apply Advances.boot hlost <;> simp only [smpBoot, hbsp, System.left]
      · exact fun hgives => hgives
      · omega
  | sipiLow index =>
      apply Advances.boot hlost <;> simp only [smpBoot, hbsp, System.left, System.answerLeft]
      · exact fun hgives => hgives
      · simp
  | notResponding => exact absurd (Or.inr (by rw [hbsp]; trivial)) hlost
  | _ => simp [hbsp, Bsp.At] at hat

/-- The startup IPI arrives. -/
theorem Loop.advances_sipiSent (h : Loop c s n .sipiSent) (hlost : ¬ s.Lost)
    (hpresent : c.present (c.apicId n) = true) : Advances c s := by
  obtain ⟨-, hcur, -, -, ⟨hpending, hwait, -⟩, hat⟩ := h
  have hstart : (s.aps (c.apicId n)).accept
      (LAPIC_COMMAND_SIPI ||| LAPIC_COMMAND_ASSERT ||| 1) = .real 0x1000 := by
    rw [hwait, accept_sipi]
  have hhung : (s.aps (c.apicId n)).accept
      (LAPIC_COMMAND_SIPI ||| LAPIC_COMMAND_ASSERT ||| 1) ≠ .hung := by
    rw [hstart]
    exact Ap.noConfusion
  apply Advances.accept hlost hpending hpresent hhung
  cases hbsp : s.bsp with
  | sipiDelay => simp [System.left, System.answerLeft, hbsp, hpending, hcur, hstart, Ap.left]
  | bootPoll => simp [System.left, System.answerLeft, hbsp, hpending, hcur, hstart, Ap.left]
  | bootWait => simp [System.left, System.answerLeft, hbsp, hpending, hcur, hstart, Ap.left]
  | notResponding => exact absurd (Or.inr (by rw [hbsp]; trivial)) hlost
  | _ => simp [hbsp, Bsp.At] at hat

/-- The processor has answered. -/
theorem Loop.advances_answered (h : Loop c s n .answered) (hlost : ¬ s.Lost) : Advances c s := by
  obtain ⟨-, hcur, -, -, ⟨hpending, -, hbooted, -⟩, hat⟩ := h
  have hone : ¬ s.cpu_booted = 0 := by rw [hbooted]; exact Nat.one_ne_zero
  cases hbsp : s.bsp with
  | sipiDelay index time =>
      apply Advances.slept time
      have hawake : ¬ s.timer_ticks + time < time := by omega
      have hlater : ¬ System.Lost { s with timer_ticks := s.timer_ticks + time } := hlost
      apply Advances.boot hlater <;>
        simp only [smpBoot, hbsp, if_neg hawake, System.left, System.answerLeft]
      · exact fun hgives => hgives
      · omega
  | bootPoll index j =>
      apply Advances.boot hlost <;> simp only [smpBoot, hbsp, if_neg hone, System.left]
      · exact fun hgives => hgives
      · omega
  | bootWait index j time =>
      have hmore : ¬ TIMER_FREQUENCY * 2 < j + 1 := fun hlt => hlost (Or.inr (by rw [hbsp]; exact hlt))
      apply Advances.slept time
      have hawake : ¬ s.timer_ticks + time < time := by omega
      have hlater : ¬ System.Lost { s with timer_ticks := s.timer_ticks + time } := hlost
      apply Advances.boot hlater <;>
        simp only [smpBoot, hbsp, if_neg hawake, if_neg hmore, System.left, System.answerLeft]
      · exact fun hgives => hgives
      · omega
  | next =>
      rw [hbsp] at hat
      obtain ⟨-, hn⟩ := hat
      apply Advances.boot hlost <;> simp only [smpBoot, hbsp, System.left]
      · exact fun hgives => hgives
      · omega
  | notResponding => exact absurd (Or.inr (by rw [hbsp]; trivial)) hlost
  | _ => simp [hbsp, Bsp.At] at hat

/-- The processor goes on, with memory when it asks for it. -/
theorem Loop.advances_starting (h : Loop c s n .starting) (hlost : ¬ s.Lost) : Advances c s := by
  obtain ⟨hmem, hcur, -, -, ⟨hpending, hway, -⟩, hat⟩ := h
  have hheap : KERNEL_HEAP = 0 ∨ KERNEL_HEAP ≤ KERNEL_HEAP ∧ KERNEL_HEAP + KSTACK < 2 ^ 64 :=
    Or.inr ⟨le_refl _, by decide⟩
  have hstack : ∀ rsp, HasStack c s.mem rsp := fun _ => Or.inr hmem.low
  have hnone : ∀ id, s.aps id ≠ .hung := fun id hid => hlost (Or.inl ⟨id, hid⟩)
  -- a step that leads nearer to the answer
  have hgoes : ∀ a, (∃ cpu_booted responded, smpKmain c KERNEL_HEAP true (c.apicId n) s
        = { s with
            aps := Function.update s.aps (c.apicId n) a
            cpu_booted := cpu_booted
            responded := responded }) →
      a ≠ .hung → a.left < (s.aps (c.apicId n)).left → Advances c s := by
    rintro a ⟨cpu_booted, responded, hstep⟩ ha hleft
    refine ⟨_, ReflTransGen.single (.goesOn (c.apicId n) KERNEL_HEAP true hheap), ?_, ?_⟩
    · rw [hstep]
      rintro (⟨id, hid⟩ | hgives)
      · by_cases heq : id = c.apicId n
        · subst heq
          exact ha ((Function.update_self _ _ _).symm.trans hid)
        · exact hnone id ((Function.update_of_ne heq _ _).symm.trans hid)
      · exact hlost (Or.inr hgives)
    · rw [hstep]
      cases hbsp : s.bsp with
      | sipiDelay => simp [System.left, System.answerLeft, hbsp, hpending, hcur]; omega
      | bootPoll => simp [System.left, System.answerLeft, hbsp, hpending, hcur]; omega
      | bootWait => simp [System.left, System.answerLeft, hbsp, hpending, hcur]; omega
      | notResponding => exact absurd (Or.inr (by rw [hbsp]; trivial)) hlost
      | _ => simp [hbsp, Bsp.At] at hat
  cases hap : s.aps (c.apicId n) with
  | real address =>
      rw [hap] at hway hgoes
      have hfetch : address = 0x1000 ∧
          s.mem.read 0x1000 c.smp_trampoline16.length = c.smp_trampoline16 := ⟨hway, hmem.code⟩
      refine hgoes (.lmode (s.mem.qword 8 % 2 ^ 32)) ⟨s.cpu_booted, s.responded, ?_⟩ Ap.noConfusion
        (Nat.lt_succ_self _)
      simp only [smpKmain, hap, if_pos hfetch]
  | lmode cr3 =>
      rw [hap] at hway hgoes
      have hjump : cr3 = c.cr3 ∧ LowMapped c s.mem ∧ s.mem.qword 0 = c.smp_trampoline :=
        ⟨hway, hmem.low, hmem.entry⟩
      refine hgoes .trampoline ⟨s.cpu_booted, s.responded, ?_⟩ Ap.noConfusion (Nat.lt_succ_self _)
      simp only [smpKmain, hap, if_pos hjump]
  | trampoline =>
      rw [hap] at hgoes
      refine hgoes (.kmain (u64 (KERNEL_HEAP + KSTACK))) ⟨s.cpu_booted, s.responded, ?_⟩
        Ap.noConfusion (Nat.lt_succ_self _)
      simp only [smpKmain, hap, if_pos hmem.low]
  | kmain rsp =>
      rw [hap] at hgoes
      refine hgoes (.configure rsp s.current_cpu) ⟨s.cpu_booted, s.responded, ?_⟩ Ap.noConfusion
        (Nat.lt_succ_self _)
      simp only [smpKmain, hap, if_pos (hstack rsp)]
  | configure rsp index =>
      rw [hap] at hgoes
      refine hgoes (.announce rsp index) ⟨s.cpu_booted, s.responded, ?_⟩ Ap.noConfusion
        (Nat.lt_succ_self _)
      simp only [smpKmain, hap, if_pos (hstack rsp)]
      rfl
  | announce rsp index =>
      rw [hap] at hgoes
      refine hgoes (.idle rsp index) ⟨1, s.responded ++ [(c.apicId n, index)], ?_⟩ Ap.noConfusion
        (Nat.zero_lt_succ _)
      simp only [smpKmain, hap, if_pos (hstack rsp)]
  | hung => exact absurd hap (hnone _)
  | _ =>
      rw [hap] at hway
      exact hway.elim

/-- **The way to the return** is never blocked. -/
theorem Phase.advances (hpresent : ∀ n, 1 ≤ n → n < c.cpus.length → c.present (c.apicId n) = true)
    (h : Phase c s) (hlost : ¬ s.Lost) (hbsp : s.bsp ≠ .returned) : Advances c s := by
  cases h with
  | after hreturned => exact absurd hreturned hbsp
  | loop n stage h =>
      cases stage with
      | calm => exact h.advances_calm hlost
      | parked => exact h.advances_parked hlost
      | starting => exact h.advances_starting hlost
      | answered => exact h.advances_answered hlost
      | initSent => exact h.advances_initSent hlost (hpresent n h.pos (h.lt Stage.noConfusion))
      | sipiSent => exact h.advances_sipiSent hlost (hpresent n h.pos (h.lt Stage.noConfusion))
  | before hstored =>
      cases hstart : s.bsp with
      | enter =>
          by_cases hone : c.cpus.length = 1
          · apply Advances.boot hlost <;> simp only [smpBoot, hstart, if_pos hone, System.left]
            · exact fun hgives => hgives
            · omega
          · apply Advances.boot hlost <;> simp only [smpBoot, hstart, if_neg hone, System.left]
            · exact fun hgives => hgives
            · omega
      | storeEntry =>
          apply Advances.boot hlost <;> simp only [smpBoot, hstart, System.left]
          · exact fun hgives => hgives
          · omega
      | storeCr3 =>
          apply Advances.boot hlost <;> simp only [smpBoot, hstart, System.left]
          · exact fun hgives => hgives
          · omega
      | mapLow =>
          apply Advances.boot hlost <;> simp only [smpBoot, hstart, System.left]
          · exact fun hgives => hgives
          · omega
      | copy =>
          apply Advances.boot hlost <;> simp only [smpBoot, hstart, System.left]
          · exact fun hgives => hgives
          · omega
      | first =>
          apply Advances.boot hlost <;> simp only [smpBoot, hstart, System.left]
          · exact fun hgives => hgives
          · omega
      | _ =>
          rw [hstart] at hstored
          exact hstored.elim

theorem smpBoot_aps (s : System) : (smpBoot c s).aps = s.aps := by
  cases hbsp : s.bsp <;> simp only [smpBoot, hbsp] <;> (try split) <;> rfl

/-- The boot processor does not come back to a processor that it gave up. -/
theorem Bsp.GivesUp.smpBoot (h : s.bsp.GivesUp) : (smpBoot c s).bsp.GivesUp := by
  cases hbsp : s.bsp with
  | initWait index i time =>
      have hlast : TIMER_FREQUENCY * 2 < i + 1 := by rwa [hbsp] at h
      simp only [Smp.smpBoot, hbsp, if_pos hlast]
      split
      · exact h
      · trivial
  | bootWait index j time =>
      have hlast : TIMER_FREQUENCY * 2 < j + 1 := by rwa [hbsp] at h
      simp only [Smp.smpBoot, hbsp, if_pos hlast]
      split
      · exact h
      · trivial
  | notResponding index =>
      simp only [Smp.smpBoot, hbsp]
      trivial
  | _ =>
      rw [hbsp] at h
      exact h.elim

/-- A processor without memory does not go on, and no IPI is on its way to it. -/
theorem Loop.hung (h : Loop c s n stage) {id : UInt8} (hid : s.aps id = .hung) :
    s.pending = none ∧ ∀ p memory id', smpKmain c p memory id' s = s := by
  obtain hsettled | hwait | ⟨rfl, -, -⟩ := h.processor id
  · rw [hid] at hsettled
    exact hsettled.elim
  · cases hwait.symm.trans hid
  · constructor
    · cases stage with
      | calm => exact h.holds.1
      | parked => exact h.holds.1
      | starting => exact h.holds.1
      | answered => exact h.holds.1
      | initSent =>
          have hsettled := h.holds.2.1
          rw [hid] at hsettled
          exact hsettled.elim
      | sipiSent => cases h.holds.2.1.symm.trans hid
    · intro p memory id'
      by_cases heq : id' = c.apicId n
      · rw [heq]
        simp only [smpKmain, hid]
      · exact (h.others id' heq).smpKmain h.memory.low p memory

theorem Phase.not_lost (h : Phase c s) (hbsp : s.bsp = .returned) : ¬ s.Lost := by
  rintro (⟨id, hid⟩ | hgives)
  · cases h with
    | before hstored hoff => cases (hoff id).symm.trans hid
    | loop n stage h =>
        have hat := h.at_
        rw [hbsp] at hat
        exact hat
    | after _ hrest =>
        have hap := hrest id
        rw [hid] at hap
        exact hap
  · rw [hbsp] at hgives
    exact hgives

/-- What is lost stays lost. -/
theorem Phase.lost (h : Phase c s) (hlost : s.Lost) {s' : System} (hstep : Step c s s') :
    s'.Lost := by
  obtain ⟨id, hid⟩ | hgives := hlost
  · cases h with
    | before hstored hoff => cases (hoff id).symm.trans hid
    | after _ hrest =>
        have hap := hrest id
        rw [hid] at hap
        exact hap.elim
    | loop n stage h =>
        obtain ⟨hpending, hsame⟩ := h.hung hid
        left
        refine ⟨id, ?_⟩
        cases hstep with
        | boot => rwa [smpBoot_aps]
        | timer => exact hid
        | accept ipi hsome => cases hpending.symm.trans hsome
        | goesOn id' p memory => rwa [hsame]
  · right
    cases hstep with
    | boot => exact hgives.smpBoot
    | timer => exact hgives
    | accept ipi hsome => exact hgives
    | goesOn id p memory =>
        obtain ⟨_, _, _, heq⟩ := @smpKmain_frame c p memory id s
        rw [heq]
        exact hgives

/-- **The return is within reach** from every state that is not lost. -/
theorem Phase.returns (hc : c.Sound)
    (hpresent : ∀ n, 1 ≤ n → n < c.cpus.length → c.present (c.apicId n) = true) (k : Nat) :
    ∀ {s : System}, Phase c s → ¬ s.Lost → s.left c = k →
      ∃ s', Reaches c s s' ∧ s'.bsp = .returned := by
  induction k using Nat.strong_induction_on with
  | _ k ih =>
      intro s h hlost hk
      by_cases hbsp : s.bsp = .returned
      · exact ⟨s, ReflTransGen.refl, hbsp⟩
      · obtain ⟨s₁, hreach, hlost₁, hleft⟩ := h.advances hpresent hlost hbsp
        have h₁ : Phase c s₁ := by
          clear hlost₁ hleft
          induction hreach with
          | refl => exact h
          | tail _ hstep ih => exact ih.step hc hstep
        obtain ⟨s', hreach', hreturned⟩ := ih _ (by omega) h₁ hlost₁ rfl
        exact ⟨s', hreach.trans hreach', hreturned⟩

end Completion

/-- **Whether `smp_boot` can return.** With the processors of the table there, it can return from a
state unless a processor got no memory, or was given up, or will be given up when the boot processor
wakes. -/
theorem smpBoot_returns_iff {c : Config} (hc : c.Sound)
    (hpresent : ∀ n, 1 ≤ n → n < c.cpus.length → c.present (c.apicId n) = true) {m : Mem}
    {timer_ticks : Nat} {s : System} (h : Reaches c (start m timer_ticks) s) :
    (∃ s', Reaches c s s' ∧ s'.bsp = .returned) ↔ ¬ s.Lost := by
  obtain ⟨hphase, -⟩ := h.phase hc
  constructor
  · rintro ⟨s', hreach, hreturned⟩ hlost
    have hend : Phase c s' ∧ s'.Lost := by
      clear hreturned
      induction hreach with
      | refl => exact ⟨hphase, hlost⟩
      | tail _ hstep ih => exact ⟨ih.1.step hc hstep, ih.1.lost ih.2 hstep⟩
    exact hend.1.not_lost hreturned hend.2
  · exact fun hlost => hphase.returns hc hpresent _ hlost rfl

/-- Two processors. -/
def twoCpus : Config where
  cpus := [0, 1]
  cr3 := 0x8000
  smp_trampoline := 0xFFFF800000100080
  smp_trampoline16 := [0xFA, 0xFC]
  present := fun _ => true

theorem twoCpus_sound : twoCpus.Sound := ⟨by decide, by decide, by decide⟩

theorem start_not_lost (m : Mem) (timer_ticks : Nat) : ¬ (start m timer_ticks).Lost := by
  rintro (⟨id, hid⟩ | hgives)
  · cases hid
  · exact hgives

/-- The boot processor takes steps. -/
theorem Reaches.boots {c : Config} {s₀ s : System} (h : Reaches c s₀ s) (k : Nat) :
    Reaches c s₀ ((smpBoot c)^[k] s) := by
  induction k with
  | zero => exact h
  | succ k ih =>
      rw [Function.iterate_succ_apply']
      exact ih.tail .boot

/-- A processor goes on, with memory. -/
theorem Reaches.goes {c : Config} {s₀ s : System} (h : Reaches c s₀ s) {p : Nat}
    (hp : p = 0 ∨ KERNEL_HEAP ≤ p ∧ p + KSTACK < 2 ^ 64) (id : UInt8) (k : Nat) :
    Reaches c s₀ ((smpKmain c p true id)^[k] s) := by
  induction k with
  | zero => exact h
  | succ k ih =>
      rw [Function.iterate_succ_apply']
      exact ih.tail (.goesOn id p true hp)

/-- The second processor comes to `gdt_init`. -/
theorem configuring_reached : ∃ s, Reaches twoCpus (start (fun _ => 0) 0) s ∧
    s.bsp = .sipiDelay 1 2 ∧ s.aps 1 = .configure (KERNEL_HEAP + KSTACK) 1 := by
  have hstart : Reaches twoCpus (start (fun _ => 0) 0) (start (fun _ => 0) 0) := .refl
  have hinit := (Reaches.boots hstart 10).tail
    (.accept ⟨LAPIC_COMMAND_INIT ||| LAPIC_COMMAND_ASSERT, 1⟩ rfl rfl)
  have hsipi := (Reaches.boots (hinit.tail .timer) 4).tail
    (.accept ⟨LAPIC_COMMAND_SIPI ||| LAPIC_COMMAND_ASSERT ||| 1, 1⟩ rfl rfl)
  have hgoes := Reaches.goes hsipi (p := KERNEL_HEAP) (Or.inr ⟨le_rfl, by decide⟩) 1 4
  exact ⟨_, hgoes, rfl, by rfl⟩

/-- While the second processor is started the others are not hung. -/
theorem twoCpus_lost_iff {m : Mem} {timer_ticks : Nat} {s : System}
    (h : Reaches twoCpus (start m timer_ticks) s) {time : Nat} (hbsp : s.bsp = .sipiDelay 1 time) :
    s.Lost ↔ s.aps 1 = .hung := by
  constructor
  · rintro (⟨id, hid⟩ | hgives)
    · cases (h.phase twoCpus_sound).1 with
      | before hstored => rw [hbsp] at hstored; exact hstored.elim
      | after hreturned => cases hbsp.symm.trans hreturned
      | loop n stage hloop =>
          have hat := hloop.at_
          rw [hbsp] at hat
          obtain ⟨-, rfl, -⟩ := hat
          by_cases hone : id = 1
          · rwa [← hone]
          · have hsettled := hloop.others id hone
            rw [hid] at hsettled
            exact hsettled.elim
    · rw [hbsp] at hgives
      exact hgives.elim
  · exact fun hhung => Or.inl ⟨1, hhung⟩

/-- `smp_boot` can return when the second processor comes to `gdt_init`, and no more when
it has got no memory there. -/
theorem smpBoot_returns_two : ∃ s s', Reaches twoCpus (start (fun _ => 0) 0) s ∧
    (∃ s'', Reaches twoCpus s s'' ∧ s''.bsp = .returned) ∧ Reaches twoCpus s s' ∧
    ¬ ∃ s'', Reaches twoCpus s' s'' ∧ s''.bsp = .returned := by
  obtain ⟨s, hreach, hbsp, hap⟩ := configuring_reached
  have hlost : ¬ s.Lost := by
    rw [twoCpus_lost_iff hreach hbsp, hap]
    exact fun h => by cases h
  have hstack : HasStack twoCpus s.mem (KERNEL_HEAP + KSTACK) := Or.inl (by decide)
  have hhung : smpKmain twoCpus 0 false 1 s =
      { s with aps := Function.update s.aps 1 .hung } := by
    rw [smpKmain, hap]
    simp only [if_pos hstack]
    rfl
  have hstep : Step twoCpus s (smpKmain twoCpus 0 false 1 s) := .goesOn 1 0 false (Or.inl rfl)
  have hlost' : (smpKmain twoCpus 0 false 1 s).Lost := by
    rw [hhung]
    exact Or.inl ⟨1, Function.update_self (1 : UInt8) Ap.hung s.aps⟩
  exact ⟨s, _, hreach,
    (smpBoot_returns_iff twoCpus_sound (fun _ _ _ => rfl) hreach).mpr hlost, .single hstep,
    fun hreturns => (smpBoot_returns_iff twoCpus_sound (fun _ _ _ => rfl)
      (hreach.tail hstep)).mp hreturns hlost'⟩

/-- The second processor has answered. -/
theorem smpBoot_safe_two : ∃ s, Reaches twoCpus (start (fun _ => 0) 0) s ∧
    s.bsp = .returned ∧ s.responded = [(1, 1)] := by
  have hphase : Phase twoCpus (start (fun _ => 0) 0) := .before trivial (fun _ => rfl) rfl rfl
  obtain ⟨s, hreach, hreturned⟩ := hphase.returns twoCpus_sound (fun _ _ _ => rfl) _
    (start_not_lost _ _) rfl
  exact ⟨s, hreach, hreturned, ((smpBoot_safe twoCpus_sound hreach).returned hreturned).1⟩

end Windozz.Kernel.Smp

import Mathlib.Logic.Relation
import Mathlib.Tactic

set_option autoImplicit false

/-! # The IOAPICs

`ioapic.c` on the registers of the controllers. `ioapic_init` numbers the redirection entries of a
controller from its own first interrupt on; `irq_configure`, `irq_mask` and `irq_unmask` look up
the controller of a global line and then use the line itself as the number of the entry
(`IrqCall.run_entry`). The two agree on a controller that starts at line 0 (`irq_calls_iff`).

A controller is named by its place in the array. Registers are named by the value written to the
index register.
-/

namespace Windozz.Kernel

open Relation

/-! ## Constants -/

def IOAPIC_VERSION : Nat := 1
def IOAPIC_TABLES : Nat := 16
def IRQ_BASE : Nat := 0x30
def IOAPIC_ACTIVE_LOW : BitVec 64 := 1 <<< 13
def IOAPIC_LEVEL : BitVec 64 := 1 <<< 15
def IOAPIC_MASK : BitVec 64 := 1 <<< 16
def ACTIVE_LOW : Nat := 0x0002
def LEVEL : Nat := 0x0008

/-! ## State -/

/-- `ioapic_t`. -/
structure Ioapic where
  apic_id : Nat
  gsi_start : Nat
  gsi_end : Nat

/-- `override_t`. -/
structure Override where
  source : Fin 256
  destination : Fin 256
  flags : Nat

/-- The tables of `apic.c`, the registers of the controllers and the handlers of the vectors. -/
structure Apic where
  ioapics : List Ioapic
  overrides : List Override
  regs : Nat → Nat → BitVec 32
  idt : Nat → Nat

/-- `ioapic_read`. -/
def ioapicRead (ioapic index : Nat) (s : Apic) : BitVec 32 := s.regs ioapic index

/-- `ioapic_write`. -/
def ioapicWrite (ioapic index : Nat) (value : BitVec 32) (s : Apic) : Apic :=
  { s with regs := Function.update s.regs ioapic (Function.update (s.regs ioapic) index value) }

/-- The number of the last redirection entry, as the version register has it. -/
def maxEntry (ioapic : Nat) (s : Apic) : Nat :=
  (ioapicRead ioapic IOAPIC_VERSION s >>> 16 &&& 0xFF).toNat

/-! ## The functions -/

/-- `create_ioapic`. -/
def createIoapic (apic_id gsi : Nat) (s : Apic) : Apic :=
  { s with ioapics := s.ioapics ++
      [⟨apic_id, gsi, (gsi + maxEntry s.ioapics.length s) % 2 ^ 32⟩] }

/-- `create_override`. The destination is a byte. -/
def createOverride (irq : Fin 256) (gsi flags : Nat) (s : Apic) : Apic :=
  { s with overrides := s.overrides ++ [⟨irq, Fin.ofNat 256 gsi, flags⟩] }

/-- The word that `ioapic_init` gives to entry `j`. -/
def initConfig (io : Ioapic) (j : Nat) : BitVec 64 :=
  BitVec.ofNat 64 ((io.gsi_start + IRQ_BASE) % 2 ^ 32 + j) ||| IOAPIC_MASK

/-- The first `n` rounds of the inner loop of `ioapic_init`. -/
def initEntries (i : Nat) (io : Ioapic) : Nat → Apic → Apic
  | 0, s => s
  | j + 1, s =>
      let s := initEntries i io j s
      let s := ioapicWrite i (j * 2 + IOAPIC_TABLES) ((initConfig io j).setWidth 32) s
      ioapicWrite i (j * 2 + IOAPIC_TABLES + 1) ((initConfig io j >>> 32).setWidth 32) s

/-- The loop of `ioapic_init` over the controllers `ios`, the first of which is controller `i`. -/
def initIoapics : Nat → List Ioapic → Apic → Apic
  | _, [], s => s
  | i, io :: ios, s => initIoapics (i + 1) ios (initEntries i io (maxEntry i s + 1) s)

/-- `ioapic_init`. -/
def ioapicInit (s : Apic) : Apic := initIoapics 0 s.ioapics s

/-- The line belongs to the controller. -/
def Ioapic.Serves (io : Ioapic) (gsi : Nat) : Prop := io.gsi_start ≤ gsi ∧ gsi ≤ io.gsi_end

instance (io : Ioapic) (gsi : Nat) : Decidable (io.Serves gsi) :=
  inferInstanceAs (Decidable (_ ∧ _))

/-- `get_ioapic`. -/
def getIoapic (gsi : Fin 256) (s : Apic) : Nat :=
  match s.ioapics.findIdx? fun io => io.Serves gsi with
  | some i => i
  | none => 0xFF

/-- The loop of `irq_configure` over the overrides. The flags are a byte. -/
def remap (line : Fin 256) (flags : Nat) (s : Apic) : Fin 256 × Nat :=
  match s.overrides.find? fun o => o.source = line with
  | some o => (o.destination, o.flags % 256)
  | none => (line, flags)

/-- `idt_install`. -/
def idtInstall (vector handler : Nat) (s : Apic) : Apic :=
  { s with idt := Function.update s.idt (vector % 256) handler }

/-- What `irq_configure` makes of the word of an entry. -/
def configWord (flags : Nat) (config : BitVec 64) : BitVec 64 :=
  let config := if flags &&& ACTIVE_LOW ≠ 0 then config ||| IOAPIC_ACTIVE_LOW
    else config &&& ~~~IOAPIC_ACTIVE_LOW
  if flags &&& LEVEL ≠ 0 then config ||| IOAPIC_LEVEL else config &&& ~~~IOAPIC_LEVEL

/-- `irq_configure`. -/
def irqConfigure (line : Fin 256) (handler flags : Nat) (s : Apic) : Nat × Apic :=
  let (line, flags) := remap line flags s
  let ioapic := getIoapic line s
  if s.ioapics.length < ioapic then (0xFF, s)
  else
    let s := idtInstall (line + IRQ_BASE) handler s
    let low := ioapicRead ioapic (IOAPIC_TABLES + line * 2) s
    let high := ioapicRead ioapic (IOAPIC_TABLES + line * 2 + 1) s
    let config := configWord flags (low.setWidth 64 ||| high.setWidth 64 <<< 32)
    let s := ioapicWrite ioapic (IOAPIC_TABLES + line * 2) (config.setWidth 32) s
    (line, ioapicWrite ioapic (IOAPIC_TABLES + line * 2 + 1) ((config >>> 32).setWidth 32) s)

/-- `irq_mask`. -/
def irqMask (line : Fin 256) (s : Apic) : Apic :=
  let ioapic := getIoapic line s
  if s.ioapics.length < ioapic then s
  else
    let config := ioapicRead ioapic (IOAPIC_TABLES + line * 2) s
    ioapicWrite ioapic (IOAPIC_TABLES + line * 2) (config ||| IOAPIC_MASK.setWidth 32) s

/-- `irq_unmask`. -/
def irqUnmask (line : Fin 256) (s : Apic) : Apic :=
  let ioapic := getIoapic line s
  if s.ioapics.length < ioapic then s
  else
    let config := ioapicRead ioapic (IOAPIC_TABLES + line * 2) s
    ioapicWrite ioapic (IOAPIC_TABLES + line * 2) (config &&& ~~~IOAPIC_MASK.setWidth 32) s

/-! ## Words of two registers -/

theorem split_word (c : BitVec 64) :
    (c.setWidth 32).setWidth 64 ||| ((c >>> 32).setWidth 32).setWidth 64 <<< 32 = c := by
  ext i hi
  simp only [BitVec.getElem_or, BitVec.getElem_setWidth, BitVec.getElem_shiftLeft,
    BitVec.getLsbD_setWidth, BitVec.getLsbD_ushiftRight]
  by_cases h : i < 32
  · simp [h, BitVec.getLsbD_eq_getElem hi]
  · have hlow : i - 32 < 32 := by omega
    have hback : 32 + (i - 32) = i := by omega
    simp [h, hlow, hback, BitVec.getLsbD_eq_getElem hi]

theorem low_or (low m : BitVec 32) (high : BitVec 64) :
    (low ||| m).setWidth 64 ||| high = (low.setWidth 64 ||| high) ||| m.setWidth 64 := by
  rw [BitVec.setWidth_or, BitVec.or_assoc, BitVec.or_assoc, BitVec.or_comm high]

theorem low_andNot (low high m : BitVec 32) :
    (low &&& ~~~m).setWidth 64 ||| high.setWidth 64 <<< 32
      = (low.setWidth 64 ||| high.setWidth 64 <<< 32) &&& ~~~m.setWidth 64 := by
  ext i hi
  simp only [BitVec.getElem_or, BitVec.getElem_and, BitVec.getElem_not, BitVec.getElem_setWidth,
    BitVec.getElem_shiftLeft, BitVec.getLsbD_and, BitVec.getLsbD_not]
  by_cases h : i < 32
  · simp [h]
  · have hl : low.getLsbD i = false := BitVec.getLsbD_of_ge _ _ (not_lt.mp h)
    have hm : m.getLsbD i = false := BitVec.getLsbD_of_ge _ _ (not_lt.mp h)
    simp [h, hl, hm]

namespace Apic

variable {s : Apic}

/-- The word of a redirection entry. -/
def entry (s : Apic) (i k : Nat) : BitVec 64 :=
  (s.regs i (IOAPIC_TABLES + k * 2)).setWidth 64 |||
    (s.regs i (IOAPIC_TABLES + k * 2 + 1)).setWidth 64 <<< 32

theorem regs_write (i index : Nat) (value : BitVec 32) (i' index' : Nat) :
    (ioapicWrite i index value s).regs i' index'
      = if i' = i ∧ index' = index then value else s.regs i' index' := by
  simp only [ioapicWrite]
  by_cases hi : i' = i
  · subst hi
    rw [Function.update_self]
    by_cases hx : index' = index
    · subst hx
      simp
    · rw [Function.update_of_ne hx, if_neg (fun h => hx h.2)]
  · rw [Function.update_of_ne hi, if_neg (fun h => hi h.1)]

/-- Both registers of an entry written. -/
theorem entry_write (i k : Nat) (c : BitVec 64) (i' k' : Nat) :
    (ioapicWrite i (IOAPIC_TABLES + k * 2 + 1) ((c >>> 32).setWidth 32)
      (ioapicWrite i (IOAPIC_TABLES + k * 2) (c.setWidth 32) s)).entry i' k'
      = if i' = i ∧ k' = k then c else s.entry i' k' := by
  simp only [entry, regs_write]
  by_cases h : i' = i ∧ k' = k
  · obtain ⟨rfl, rfl⟩ := h
    simp [split_word]
  · rw [if_neg h, if_neg (by omega), if_neg (by omega), if_neg (by omega), if_neg (by omega)]

/-- The low register of an entry written. -/
theorem entry_write_low (i k : Nat) (low : BitVec 32) (i' k' : Nat) :
    (ioapicWrite i (IOAPIC_TABLES + k * 2) low s).entry i' k'
      = if i' = i ∧ k' = k then
          low.setWidth 64 ||| (s.regs i (IOAPIC_TABLES + k * 2 + 1)).setWidth 64 <<< 32
        else s.entry i' k' := by
  simp only [entry, regs_write]
  by_cases h : i' = i ∧ k' = k
  · obtain ⟨rfl, rfl⟩ := h
    simp
  · rw [if_neg h, if_neg (by omega), if_neg (by omega)]

end Apic

/-! ## What `ioapic_init` leaves -/

theorem entry_initEntries (i : Nat) (io : Ioapic) (n : Nat) (s : Apic) (i' k' : Nat) :
    (initEntries i io n s).entry i' k'
      = if i' = i ∧ k' < n then initConfig io k' else s.entry i' k' := by
  induction n with
  | zero => simp [initEntries]
  | succ n ih =>
      rw [initEntries, Nat.add_comm (n * 2), Apic.entry_write, ih]
      by_cases hk : i' = i ∧ k' = n
      · rw [if_pos hk, if_pos ⟨hk.1, by omega⟩, hk.2]
      · rw [if_neg hk]
        by_cases hlt : i' = i ∧ k' < n
        · rw [if_pos hlt, if_pos ⟨hlt.1, by omega⟩]
        · rw [if_neg hlt, if_neg (by omega)]

theorem maxEntry_initEntries (i : Nat) (io : Ioapic) (n : Nat) (s : Apic) (i' : Nat) :
    maxEntry i' (initEntries i io n s) = maxEntry i' s := by
  induction n with
  | zero => rfl
  | succ n ih =>
      have hindex : ∀ k, IOAPIC_VERSION ≠ n * 2 + IOAPIC_TABLES + k := by
        intro k
        unfold IOAPIC_VERSION IOAPIC_TABLES
        omega
      rw [initEntries, ← ih]
      simp only [maxEntry, ioapicRead]
      rw [Apic.regs_write, if_neg (fun h => hindex 1 h.2), Apic.regs_write,
        if_neg (fun h => hindex 0 h.2)]

theorem entry_initIoapics (ios : List Ioapic) : ∀ (i : Nat) (s : Apic) (i' k' : Nat),
    (i' < i → (initIoapics i ios s).entry i' k' = s.entry i' k') ∧
      ∀ io, i ≤ i' → ios[i' - i]? = some io → k' ≤ maxEntry i' s →
        (initIoapics i ios s).entry i' k' = initConfig io k' := by
  induction ios with
  | nil => exact fun i s i' k' => ⟨fun _ => rfl, fun io _ h => by simp at h⟩
  | cons d ios ih =>
      intro i s i' k'
      obtain ⟨hbefore, hafter⟩ := ih (i + 1) (initEntries i d (maxEntry i s + 1) s) i' k'
      rw [initIoapics]
      constructor
      · intro hlt
        rw [hbefore (by omega), entry_initEntries, if_neg (by omega)]
      · intro io hle hio hk
        by_cases heq : i' = i
        · subst heq
          rw [Nat.sub_self] at hio
          obtain rfl := Option.some.inj hio
          rw [hbefore (Nat.lt_succ_self i'), entry_initEntries, if_pos ⟨rfl, by omega⟩]
        · refine hafter io (by omega) ?_ ?_
          · rw [show i' - i = i' - (i + 1) + 1 by omega, List.getElem?_cons_succ] at hio
            exact hio
          · rw [maxEntry_initEntries]
            exact hk

/-- The entries of a controller are numbered from its first line on. -/
theorem entry_ioapicInit {s : Apic} {i k : Nat} {io : Ioapic} (hio : s.ioapics[i]? = some io)
    (hk : k ≤ maxEntry i s) : (ioapicInit s).entry i k = initConfig io k :=
  (entry_initIoapics s.ioapics 0 s i k).2 io (Nat.zero_le i) hio hk

/-! ### The tables stay -/

theorem ioapics_initEntries (i : Nat) (io : Ioapic) (n : Nat) (s : Apic) :
    (initEntries i io n s).ioapics = s.ioapics := by
  induction n with
  | zero => rfl
  | succ n ih => exact ih

theorem ioapics_ioapicInit (s : Apic) : (ioapicInit s).ioapics = s.ioapics := by
  have h : ∀ (ios : List Ioapic) (i : Nat) (s : Apic), (initIoapics i ios s).ioapics = s.ioapics := by
    intro ios
    induction ios with
    | nil => exact fun _ _ => rfl
    | cons io ios ih => exact fun i s => (ih _ _).trans (ioapics_initEntries _ _ _ _)
  exact h _ _ _

/-! ## Calls -/

/-- A call of one of the three functions. -/
inductive IrqCall where
  | configure (line : Fin 256) (handler flags : Nat)
  | mask (line : Fin 256)
  | unmask (line : Fin 256)

namespace IrqCall

def run : IrqCall → Apic → Apic
  | configure line handler flags, s => (irqConfigure line handler flags s).2
  | mask line, s => irqMask line s
  | unmask line, s => irqUnmask line s

/-- The line that a call resolves to. -/
def gsi : IrqCall → Apic → Fin 256
  | configure line _ flags, s => (remap line flags s).1
  | mask line, _ => line
  | unmask line, _ => line

/-- What a call makes of the word of its entry. -/
def update : IrqCall → Apic → BitVec 64 → BitVec 64
  | configure line _ flags, s => configWord (remap line flags s).2
  | mask _, _ => (· ||| IOAPIC_MASK)
  | unmask _, _ => (· &&& ~~~IOAPIC_MASK)

end IrqCall

/-- No line belongs to two controllers. -/
def Apic.Disjoint (s : Apic) : Prop :=
  s.ioapics.Pairwise fun io io' => ∀ gsi, io.Serves gsi → ¬ io'.Serves gsi

/-- The range of each controller is as `create_ioapic` computes it. -/
def Apic.Built (s : Apic) : Prop :=
  ∀ i io, s.ioapics[i]? = some io → io.gsi_end = (io.gsi_start + maxEntry i s) % 2 ^ 32

theorem built_createIoapic {s : Apic} (h : s.Built) (apic_id gsi : Nat) :
    (createIoapic apic_id gsi s).Built := by
  intro i io hio
  simp only [createIoapic] at hio
  rcases Nat.lt_trichotomy i s.ioapics.length with hi | rfl | hi
  · rw [List.getElem?_append_left hi] at hio
    exact h i io hio
  · rw [List.getElem?_concat_length] at hio
    obtain rfl := Option.some.inj hio
    rfl
  · rw [List.getElem?_eq_none (by simp; omega)] at hio
    cases hio

/-- `get_ioapic` finds the controller of a line. -/
theorem getIoapic_eq {s : Apic} (hdisj : s.Disjoint) {i : Nat} {io : Ioapic}
    (hio : s.ioapics[i]? = some io) {gsi : Fin 256} (hserves : io.Serves gsi) :
    getIoapic gsi s = i := by
  obtain ⟨hi, rfl⟩ := List.getElem?_eq_some_iff.mp hio
  have hfind : (s.ioapics.findIdx? fun io => io.Serves gsi) = some i := by
    rw [List.findIdx?_eq_some_iff_getElem]
    refine ⟨hi, decide_eq_true hserves, fun j hj => ?_⟩
    have hnot := List.pairwise_iff_getElem.mp hdisj j i (by omega) hi hj gsi
    simpa using fun hserves' => hnot hserves' hserves
  rw [getIoapic, hfind]

/-- **The entry of a call** is the one with the number of the line. -/
theorem IrqCall.run_entry {s : Apic} (hdisj : s.Disjoint) {i : Nat} {io : Ioapic}
    (hio : s.ioapics[i]? = some io) (c : IrqCall) (hserves : io.Serves (c.gsi s)) (i' k' : Nat) :
    (c.run s).entry i' k'
      = if i' = i ∧ k' = c.gsi s then c.update s (s.entry i' k') else s.entry i' k' := by
  have hlen : ¬ s.ioapics.length < i := by
    obtain ⟨hi, -⟩ := List.getElem?_eq_some_iff.mp hio
    omega
  have hget := getIoapic_eq hdisj hio hserves
  cases c with
  | configure line handler flags =>
      have hget' : getIoapic (remap line flags s).1 s = i := hget
      simp only [run, irqConfigure, hget', if_neg hlen]
      exact (Apic.entry_write _ _ _ _ _).trans
        (ite_congr rfl (fun h => by rw [h.1, h.2]; rfl) fun _ => rfl)
  | mask line =>
      have hget' : getIoapic line s = i := hget
      simp only [run, irqMask, hget', if_neg hlen]
      exact (Apic.entry_write_low _ _ _ _ _).trans
        (ite_congr rfl (fun h => by rw [low_or, h.1, h.2]; rfl) fun _ => rfl)
  | unmask line =>
      have hget' : getIoapic line s = i := hget
      simp only [run, irqUnmask, hget', if_neg hlen]
      exact (Apic.entry_write_low _ _ _ _ _).trans
        (ite_congr rfl (fun h => by rw [ioapicRead, low_andNot, h.1, h.2]; rfl) fun _ => rfl)

theorem IrqCall.run_ioapics (c : IrqCall) (s : Apic) : (c.run s).ioapics = s.ioapics := by
  cases c with
  | configure line handler flags =>
      simp only [run, irqConfigure]
      split <;> rfl
  | mask line =>
      simp only [run, irqMask]
      split <;> rfl
  | unmask line =>
      simp only [run, irqUnmask]
      split <;> rfl

/-! ## Histories -/

/-- One call. -/
def IrqStep (s s' : Apic) : Prop := ∃ c : IrqCall, s' = c.run s

theorem ioapics_run {s s' : Apic} (hrun : ReflTransGen IrqStep s s') : s'.ioapics = s.ioapics := by
  induction hrun with
  | refl => rfl
  | tail _ hstep ih =>
      obtain ⟨c, rfl⟩ := hstep
      exact (c.run_ioapics _).trans ih

/-- The call does its work on entry `k` of controller `i`, and changes no other entry. -/
structure IrqCall.Only (c : IrqCall) (s : Apic) (i k : Nat) : Prop where
  same : (c.run s).entry i k = c.update s (s.entry i k)
  other : ∀ i' k', ¬ (i' = i ∧ k' = k) → (c.run s).entry i' k' = s.entry i' k'

/-- Right after the initialisation the first entry of a controller is masked. -/
theorem entry_first_masked {s : Apic} {i : Nat} {io : Ioapic} (hio : s.ioapics[i]? = some io) :
    (ioapicInit s).entry i 0 &&& ~~~IOAPIC_MASK ≠ (ioapicInit s).entry i 0 := by
  rw [entry_ioapicInit hio (Nat.zero_le _), initConfig]
  intro h
  have hbit := congrArg (BitVec.getLsbD · 16) h
  simp only [IOAPIC_MASK, BitVec.getLsbD_and, BitVec.getLsbD_or, BitVec.getLsbD_not] at hbit
  simp at hbit

/-- A call that resolves to another line than 0 leaves the first entry. -/
theorem IrqCall.not_only_first {s : Apic} (hdisj : s.Disjoint) {i : Nat} {io : Ioapic}
    (hio : s.ioapics[i]? = some io) {c : IrqCall} (hserves : io.Serves (c.gsi s))
    (hgsi : (c.gsi s : Nat) ≠ 0) (hupdate : c.update s (s.entry i 0) ≠ s.entry i 0) :
    ¬ c.Only s i 0 := by
  intro h
  have hrun := c.run_entry hdisj hio hserves i 0
  rw [if_neg (fun hc => hgsi hc.2.symm)] at hrun
  exact hupdate (h.same.symm.trans hrun)

/-- **Which entry the calls change.** After `ioapic_init` and any history of calls, every call that
resolves to a line of controller `i` works on the entry that was given the vector of the line and on
no other, exactly when the controller starts at line 0 or above all the lines a call can name. -/
theorem irq_calls_iff {s₀ : Apic} (hdisj : s₀.Disjoint) (hbuilt : s₀.Built) {i : Nat} {io : Ioapic}
    (hio : s₀.ioapics[i]? = some io) :
    (∀ s, ReflTransGen IrqStep (ioapicInit s₀) s → ∀ c : IrqCall, io.Serves (c.gsi s) →
      (ioapicInit s₀).entry i (c.gsi s - io.gsi_start)
          = BitVec.ofNat 64 (c.gsi s + IRQ_BASE) ||| IOAPIC_MASK ∧
        c.Only s i (c.gsi s - io.gsi_start)) ↔
      io.gsi_start = 0 ∨ 255 < io.gsi_start := by
  have hend := hbuilt i io hio
  have hstays : ∀ {s}, ReflTransGen IrqStep (ioapicInit s₀) s →
      s.Disjoint ∧ s.ioapics[i]? = some io := by
    intro s hrun
    have htables := (ioapics_run hrun).trans (ioapics_ioapicInit s₀)
    rw [Apic.Disjoint, htables]
    exact ⟨hdisj, hio⟩
  constructor
  · intro hall
    by_contra hstart
    rw [not_or, not_lt] at hstart
    obtain ⟨hpos, hle⟩ := hstart
    -- the first line of the controller is unmasked right after the initialisation
    have hline : ((Fin.ofNat 256 io.gsi_start : Fin 256) : Nat) = io.gsi_start :=
      Nat.mod_eq_of_lt (by omega)
    have hmax : maxEntry i s₀ ≤ 255 := by
      rw [maxEntry, BitVec.toNat_and]
      exact Nat.and_le_right
    have hserves : io.Serves
        ((IrqCall.unmask (Fin.ofNat 256 io.gsi_start)).gsi (ioapicInit s₀)) := by
      show io.Serves (Fin.ofNat 256 io.gsi_start : Fin 256)
      rw [hline]
      exact ⟨le_refl _, by omega⟩
    obtain ⟨-, honly⟩ := hall _ .refl _ hserves
    obtain ⟨hdisj', hio'⟩ := hstays .refl
    have hzero : ((IrqCall.unmask (Fin.ofNat 256 io.gsi_start)).gsi (ioapicInit s₀) : Nat)
        - io.gsi_start = 0 := by
      show ((Fin.ofNat 256 io.gsi_start : Fin 256) : Nat) - io.gsi_start = 0
      omega
    rw [hzero] at honly
    exact IrqCall.not_only_first hdisj' hio' hserves (by rw [← hline] at hpos; exact hpos)
      (entry_first_masked hio) honly
  · rintro (hzero | hbig) s hrun c hserves
    · obtain ⟨hdisj', hio'⟩ := hstays hrun
      rw [hzero, Nat.sub_zero]
      constructor
      · have hlast := hserves.2
        rw [hend, hzero, Nat.zero_add] at hlast
        rw [entry_ioapicInit hio (hlast.trans (Nat.mod_le _ _)), initConfig, hzero, Nat.zero_add,
          Nat.add_comm]
        rfl
      · refine ⟨?_, fun i' k' hne => ?_⟩
        · rw [c.run_entry hdisj' hio' hserves, if_pos ⟨rfl, rfl⟩]
        · rw [c.run_entry hdisj' hio' hserves, if_neg hne]
    · obtain ⟨hlow, -⟩ := hserves
      have hlt := (c.gsi s).isLt
      omega

/-- Two controllers of 24 lines each. -/
def twoIoapics : Apic :=
  createIoapic 1 24 (createIoapic 0 0
    ⟨[], [], fun _ index => if index = IOAPIC_VERSION then 0x170020 else 0, fun _ => 0⟩)

theorem ioapics_two : twoIoapics.ioapics = [⟨0, 0, 23⟩, ⟨1, 24, 47⟩] := rfl

theorem disjoint_two : twoIoapics.Disjoint := by
  rw [Apic.Disjoint, ioapics_two]
  simp only [List.pairwise_pair, Ioapic.Serves]
  intro gsi h h'
  omega

theorem built_two : twoIoapics.Built :=
  built_createIoapic (built_createIoapic (fun i io hio => by simp at hio) 0 0) 1 24

/-- On the first of two controllers `irq_unmask` works on the right entry. -/
theorem irq_calls_first : (IrqCall.unmask 5).Only (ioapicInit twoIoapics) 0 5 := by
  have hio : twoIoapics.ioapics[0]? = some ⟨0, 0, 23⟩ := by rw [ioapics_two]; rfl
  have hserves : (⟨0, 0, 23⟩ : Ioapic).Serves ((IrqCall.unmask 5).gsi (ioapicInit twoIoapics)) := by
    show (⟨0, 0, 23⟩ : Ioapic).Serves (5 : Fin 256)
    decide
  exact ((irq_calls_iff disjoint_two built_two hio).mpr (Or.inl rfl) _ .refl (.unmask 5) hserves).2

/-- On the second, `irq_unmask` of its first line leaves the entry of that line masked. -/
theorem irqUnmask_misses : twoIoapics.Disjoint ∧ twoIoapics.Built ∧
    (⟨1, 24, 47⟩ : Ioapic).Serves ((IrqCall.unmask 24).gsi (ioapicInit twoIoapics)) ∧
    (ioapicInit twoIoapics).entry 1 0 = BitVec.ofNat 64 (24 + IRQ_BASE) ||| IOAPIC_MASK ∧
    (irqUnmask 24 (ioapicInit twoIoapics)).entry 1 0 = (ioapicInit twoIoapics).entry 1 0 ∧
    ¬ (IrqCall.unmask 24).Only (ioapicInit twoIoapics) 1 0 := by
  have hio : twoIoapics.ioapics[1]? = some ⟨1, 24, 47⟩ := by rw [ioapics_two]; rfl
  have hio' : (ioapicInit twoIoapics).ioapics[1]? = some ⟨1, 24, 47⟩ := by
    rw [ioapics_ioapicInit, hio]
  have hdisj : (ioapicInit twoIoapics).Disjoint := by
    rw [Apic.Disjoint, ioapics_ioapicInit]
    exact disjoint_two
  have hserves : (⟨1, 24, 47⟩ : Ioapic).Serves ((IrqCall.unmask 24).gsi (ioapicInit twoIoapics)) := by
    show (⟨1, 24, 47⟩ : Ioapic).Serves (24 : Fin 256)
    decide
  have hconfig : initConfig ⟨1, 24, 47⟩ 0 = BitVec.ofNat 64 (24 + IRQ_BASE) ||| IOAPIC_MASK := by
    decide
  have hfirst : (ioapicInit twoIoapics).entry 1 0 = initConfig ⟨1, 24, 47⟩ 0 :=
    entry_ioapicInit hio (Nat.zero_le _)
  refine ⟨disjoint_two, built_two, hserves, hfirst.trans hconfig, ?_, ?_⟩
  · exact ((IrqCall.unmask 24).run_entry hdisj hio' hserves 1 0).trans (if_neg (by decide))
  · exact IrqCall.not_only_first hdisj hio' hserves (by decide) (entry_first_masked hio)

/-! ## Vectors -/

/-- The vector field of a redirection entry. -/
def VECTOR_FIELD : BitVec 64 := 0xFF

/-- What `ioapic_init` gives to the entry of a line: the number of the line behind `IRQ_BASE`,
and the mask bit. -/
theorem initConfig_line {io : Ioapic} {gsi : Fin 256} (hlow : io.gsi_start ≤ gsi) :
    initConfig io (gsi - io.gsi_start) = BitVec.ofNat 64 (gsi + IRQ_BASE) ||| IOAPIC_MASK := by
  have hlt := gsi.isLt
  have hbase : IRQ_BASE = 48 := rfl
  rw [initConfig, Nat.mod_eq_of_lt (by omega)]
  congr 2
  omega

/-- The vector field holds the number modulo 256; what is above it goes to the next field. -/
theorem line_fields : ∀ gsi : Fin 256,
    ((BitVec.ofNat 64 (gsi + IRQ_BASE) ||| IOAPIC_MASK) &&& VECTOR_FIELD).toNat
        = (gsi + IRQ_BASE) % 256 ∧
      ((BitVec.ofNat 64 (gsi + IRQ_BASE) ||| IOAPIC_MASK) &&& ~~~VECTOR_FIELD = IOAPIC_MASK
        ↔ (gsi : Nat) + IRQ_BASE < 256) := by
  decide +kernel

/-- The entry that `ioapic_init` gave to a line, of a controller that serves it. -/
theorem entry_line {s : Apic} (hbuilt : s.Built) {i : Nat} {io : Ioapic}
    (hio : s.ioapics[i]? = some io) {gsi : Fin 256} (hserves : io.Serves gsi) :
    (ioapicInit s).entry i (gsi - io.gsi_start)
      = BitVec.ofNat 64 (gsi + IRQ_BASE) ||| IOAPIC_MASK := by
  obtain ⟨hlow, hhigh⟩ := hserves
  have hlt := gsi.isLt
  have hend := hbuilt i io hio
  have hmax : maxEntry i s ≤ 255 := by
    rw [maxEntry, BitVec.toNat_and]
    exact Nat.and_le_right
  rw [hend, Nat.mod_eq_of_lt (by omega)] at hhigh
  rw [entry_ioapicInit hio (by omega), initConfig_line hlow]

/-- `irq_configure` installs the handler of the line `gsi` at the vector of its entry; the vector is
free for interrupts, and the entry has nothing else set but the mask. -/
structure InstallsVector (entry : BitVec 64) (handler : Nat) (s s' : Apic) : Prop where
  installed : s'.idt = Function.update s.idt (entry &&& VECTOR_FIELD).toNat handler
  vector_ge : 0x30 ≤ (entry &&& VECTOR_FIELD).toNat
  vector_le : (entry &&& VECTOR_FIELD).toNat ≤ 0xFE
  others : entry &&& ~~~VECTOR_FIELD = IOAPIC_MASK

/-- The handler goes to the vector of the line, modulo 256. -/
theorem idt_irqConfigure {s : Apic} (hdisj : s.Disjoint) {i : Nat} {io : Ioapic}
    (hio : s.ioapics[i]? = some io) {line : Fin 256} {flags : Nat}
    (hserves : io.Serves (remap line flags s).1) (handler : Nat) :
    (irqConfigure line handler flags s).2.idt
      = Function.update s.idt (((remap line flags s).1 + IRQ_BASE) % 256) handler := by
  have hlen : ¬ s.ioapics.length < i := by
    obtain ⟨hi, -⟩ := List.getElem?_eq_some_iff.mp hio
    omega
  simp only [irqConfigure, getIoapic_eq hdisj hio hserves, if_neg hlen]
  rfl

/-- **The vector of a line.** On every set of controllers, after every history, a call of
`irq_configure` that finds a controller installs its handler at the vector of the entry, in the range
of the interrupts and with no other field touched, exactly for the lines up to 0xCE. -/
theorem irqConfigure_vector_iff {s₀ s : Apic} (hdisj : s₀.Disjoint) (hbuilt : s₀.Built)
    (hrun : ReflTransGen IrqStep (ioapicInit s₀) s) {i : Nat} {io : Ioapic}
    (hio : s₀.ioapics[i]? = some io) (line : Fin 256) (handler flags : Nat)
    (hserves : io.Serves (remap line flags s).1) :
    InstallsVector ((ioapicInit s₀).entry i ((remap line flags s).1 - io.gsi_start)) handler s
        (irqConfigure line handler flags s).2 ↔
      ((remap line flags s).1 : Nat) ≤ 0xCE := by
  have htables := (ioapics_run hrun).trans (ioapics_ioapicInit s₀)
  have hdisj' : s.Disjoint := by rw [Apic.Disjoint, htables]; exact hdisj
  have hidt := idt_irqConfigure hdisj' (by rw [htables]; exact hio) hserves handler
  rw [entry_line hbuilt hio hserves]
  obtain ⟨hvector, hothers⟩ := line_fields (remap line flags s).1
  have hbase : IRQ_BASE = 48 := rfl
  constructor
  · intro h
    have hbelow := hothers.mp h.others
    have hle := h.vector_le
    rw [hvector, Nat.mod_eq_of_lt hbelow] at hle
    omega
  · intro hle
    have hbelow : ((remap line flags s).1 : Nat) + IRQ_BASE < 256 := by omega
    refine ⟨by rw [hvector]; exact hidt, ?_, ?_, hothers.mpr hbelow⟩
    · rw [hvector, Nat.mod_eq_of_lt hbelow]
      omega
    · rw [hvector, Nat.mod_eq_of_lt hbelow]
      omega

/-- Line 5 of the first of two controllers. -/
theorem irqConfigure_vector_first :
    InstallsVector ((ioapicInit twoIoapics).entry 0 5) 0x1000 (ioapicInit twoIoapics)
      (irqConfigure 5 0x1000 0 (ioapicInit twoIoapics)).2 := by
  have hio : twoIoapics.ioapics[0]? = some ⟨0, 0, 23⟩ := by rw [ioapics_two]; rfl
  exact (irqConfigure_vector_iff disjoint_two built_two .refl hio 5 0x1000 0 (by decide)).mpr
    (by decide)

/-- A controller that starts at line 208. -/
def highIoapic : Apic :=
  createIoapic 0 208
    ⟨[], [], fun _ index => if index = IOAPIC_VERSION then 0x170020 else 0, fun _ => 0⟩

/-- The handler of line 208 becomes that of vector 0, the divide error. -/
theorem irqConfigure_exception : highIoapic.Disjoint ∧ highIoapic.Built ∧
    (irqConfigure 208 0x1000 0 (ioapicInit highIoapic)).1 = 208 ∧
    (irqConfigure 208 0x1000 0 (ioapicInit highIoapic)).2.idt 0 = 0x1000 ∧
    ¬ InstallsVector ((ioapicInit highIoapic).entry 0 0) 0x1000 (ioapicInit highIoapic)
      (irqConfigure 208 0x1000 0 (ioapicInit highIoapic)).2 := by
  have hio : highIoapic.ioapics[0]? = some ⟨0, 208, 231⟩ := rfl
  have hdisj : highIoapic.Disjoint := List.pairwise_singleton _ _
  have hbuilt : highIoapic.Built := built_createIoapic (fun i io hio => by simp at hio) 0 208
  have hserves : (⟨0, 208, 231⟩ : Ioapic).Serves (208 : Fin 256) := by decide
  have hentry := entry_line hbuilt hio hserves
  have hfirst : ((208 : Fin 256) : Nat) - (⟨0, 208, 231⟩ : Ioapic).gsi_start = 0 := rfl
  rw [hfirst] at hentry
  have hzero : (((208 : Fin 256) : Nat) + IRQ_BASE) % 256 = 0 := rfl
  have hidt : (irqConfigure 208 0x1000 0 (ioapicInit highIoapic)).2.idt
      = Function.update (ioapicInit highIoapic).idt (((208 : Fin 256) + IRQ_BASE) % 256) 0x1000 := by
    have hio' : (ioapicInit highIoapic).ioapics[0]? = some ⟨0, 208, 231⟩ := by
      rw [ioapics_ioapicInit, hio]
    have hdisj' : (ioapicInit highIoapic).Disjoint := by
      rw [Apic.Disjoint, ioapics_ioapicInit]
      exact hdisj
    exact idt_irqConfigure hdisj' hio' hserves 0x1000
  refine ⟨hdisj, hbuilt, rfl, by rw [hidt, hzero, Function.update_self], fun h => ?_⟩
  have hlow := h.vector_ge
  rw [hentry, (line_fields 208).1, hzero] at hlow
  omega

end Windozz.Kernel

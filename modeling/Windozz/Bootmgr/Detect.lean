import Windozz.Bootmgr.Machine
import Windozz.Kernel.E820

set_option autoImplicit false

/-! # Detecting memory

`detect_memory` asks the firmware for the E820 map, entry by entry. Each entry goes into a slot of 32
bytes: the firmware stores it 2 bytes into the slot, and the word before it is for the length that
the firmware returned. The list of entries ends with a continuation value of 0 or with the carry
flag.

The loop tests the continuation value before it stores the size word, so a list that ends with 0
leaves the size word of its last slot as it was. `detectMemory_handsOver_iff` says for which answers
of the firmware the kernel is handed every size.
-/

namespace Windozz.Bootmgr

/-! ## Words -/

/-- The word at address `a`. -/
def word (m : Mem) (a : Nat) : Nat := ofLE (m.read a 2)

/-- The memory with the word `x` stored at address `a`. -/
def setWord (m : Mem) (a x : Nat) : Mem := m.write a (toLE 2 x)

theorem word_congr {m m' : Mem} {a : Nat} (h : ∀ i, i < 2 → m (a + i) = m' (a + i)) :
    word m a = word m' a := congrArg ofLE (Mem.read_congr h)

theorem word_setWord (m : Mem) (a x : Nat) : word (setWord m a x) a = u16 x := by
  have h : (setWord m a x).read a 2 = toLE 2 x := by
    simpa [setWord] using Mem.read_write_same m a (toLE 2 x)
  rw [word, h, ofLE_toLE, u16]
  norm_num

theorem setWord_outside {m : Mem} {a b x : Nat} (h : b < a ∨ a + 2 ≤ b) :
    setWord m a x b = m b := Mem.write_outside (by simpa using h)

/-- A 64-bit word whose upper bytes are zero is its low word. -/
theorem qword_eq_word {m : Mem} {a : Nat} (h : ∀ i, i < 6 → m (a + 2 + i) = 0) :
    m.qword a = word m a := by
  have hhigh : m.read (a + 2) 6 = Mem.read (fun _ => 0) 0 6 := Mem.read_congr (by simpa using h)
  rw [Mem.qword, Mem.read_add m a 2 6, ofLE_append, hhigh, word]
  simp [Mem.read, ofLE]

/-! ## The function -/

/-- What the firmware returns for an entry: the registers, and the bytes it stores at `es:di`. -/
structure Answer where
  eax : Nat
  ebx : Nat
  ecx : Nat
  bytes : List UInt8

/-- A reply of the firmware to function `0xE820` of `int 0x15`. -/
inductive Reply
  | entry (a : Answer)
  | carry

/-- Where the assembler puts `boot_info`. The map is the 16-byte aligned address behind it. -/
structure Stage2 where
  boot_info : Nat
  aligned : boot_info % 16 = 0
  fits : boot_info + 240 < 2 ^ 16

/-- The address of the map. -/
def Stage2.e820_map (b : Stage2) : Nat := b.boot_info + 240

/-- How the function stops when it does not return: with a message, or waiting for the firmware. -/
inductive DetectStop
  | failure
  | unanswered

def SMAP : Nat := 0x534D4150

/-- The firmware stores bytes at `es:di`. The offset has 16 bits. -/
def storeEntry : Nat → List UInt8 → Mem → Mem
  | _, [], m => m
  | di, b :: bs, m => storeEntry (u16 (di + 1)) bs (Function.update m di b)

/-- The two counters in `boot_info`. -/
def countEntry (b : Stage2) (m : Mem) : Mem :=
  let m := setWord m (b.boot_info + 24) (word m (b.boot_info + 24) + 32)
  setWord m (b.boot_info + 32) (word m (b.boot_info + 32) + 1)

/-- `.check_error`. -/
def checkError (b : Stage2) (m : Mem) : Except DetectStop Mem :=
  if word m (b.boot_info + 32) = 0 then .error .failure else .ok m

/-- `.loop`, over the replies that the firmware has left. -/
def detectLoop (b : Stage2) : List Reply → Nat → Mem → Except DetectStop Mem
  | [], _, _ => .error .unanswered
  | .carry :: _, _, m => checkError b m
  | .entry a :: replies, di, m =>
      let m := storeEntry di a.bytes m
      if a.eax ≠ SMAP then .error .failure
      else
        let m := countEntry b m
        if a.ebx = 0 then checkError b m
        else
          let m := setWord m (u16 (di + (2 ^ 16 - 2))) (u16 a.ecx &&& 0xFF)
          detectLoop b replies (u16 (di + 32)) m

/-- `detect_memory`. -/
def detectMemory (b : Stage2) (replies : List Reply) (m : Mem) : Except DetectStop Mem :=
  detectLoop b replies (u16 (b.e820_map + 2)) m

/-! ## Answers of the firmware -/

/-- An entry as the firmware returns it when asked for 24 bytes. -/
structure Answer.Valid (a : Answer) : Prop where
  signature : a.eax = SMAP
  length_ge : 20 ≤ a.bytes.length
  length_le : a.bytes.length ≤ 24

/-- A sequence of answers: the entries with a continuation value, and then either a last entry
without one or the carry flag. -/
structure BiosMap where
  continued : List Answer
  final : Option Answer
  valid : ∀ a ∈ continued ++ final.toList, a.Valid
  ebx_ne : ∀ a ∈ continued, a.ebx ≠ 0
  ebx_eq : ∀ a ∈ final, a.ebx = 0
  nonempty : continued ++ final.toList ≠ []

namespace BiosMap

/-- The entries. -/
def answers (bios : BiosMap) : List Answer := bios.continued ++ bios.final.toList

/-- What the calls return. -/
def replies (bios : BiosMap) : List Reply :=
  bios.continued.map .entry ++ [match bios.final with
    | none => .carry
    | some a => .entry a]

end BiosMap

/-! ## What the kernel is handed -/

/-- `boot_info` as it is assembled. -/
structure Stage2.Loaded (b : Stage2) (m : Mem) : Prop where
  map_eq : m.qword (b.boot_info + 16) = b.e820_map + 0xFFFF800000000000
  size_zero : ∀ i, i < 8 → m (b.boot_info + 24 + i) = 0
  entries_zero : ∀ i, i < 8 → m (b.boot_info + 32 + i) = 0

/-- The entry that the kernel reads at an address, `e820_t`. -/
def entryAt (m : Mem) (a : Nat) : Kernel.E820 where
  size := word m a
  base := m.qword (a + 2)
  length := m.qword (a + 10)
  type := dword m (a + 18)
  acpi3_flags := dword m (a + 22)

/-- The address of a slot of the map. -/
def Stage2.slot (b : Stage2) (i : Nat) : Nat := b.e820_map + 32 * i

/-- The map has one slot for each answer, in order, the counters match, and the kernel reads from
every slot the length that the firmware returned. -/
structure HandsOver (b : Stage2) (answers : List Answer) (m : Mem) : Prop where
  map_eq : m.qword (b.boot_info + 16) = b.e820_map + 0xFFFF800000000000
  size_eq : m.qword (b.boot_info + 24) = 32 * answers.length
  entries_eq : m.qword (b.boot_info + 32) = answers.length
  bytes : ∀ i a, answers[i]? = some a → m.read (b.slot i + 2) a.bytes.length = a.bytes
  size : ∀ i a, answers[i]? = some a → (entryAt m (b.slot i)).size = a.ecx % 256

/-! ## One round -/

/-- Below the end of the segment the entry is stored as it stands. -/
theorem storeEntry_write (bs : List UInt8) : ∀ {di : Nat} (m : Mem), di + bs.length ≤ 2 ^ 16 →
    storeEntry di bs m = m.write di bs := by
  induction bs with
  | nil =>
      intro di m _
      funext i
      rw [Mem.write_outside (by simp; omega)]
      rfl
  | cons b bs ih =>
      intro di m h
      rw [List.length_cons] at h
      rw [storeEntry, Mem.write_cons]
      cases bs with
      | nil =>
          funext i
          rw [Mem.write_outside (by simp; omega)]
          rfl
      | cons c cs =>
          rw [List.length_cons] at h
          rw [u16_of_lt (by omega)]
          exact ih _ (by rw [List.length_cons]; omega)

/-- Nothing is stored behind the segment. -/
theorem storeEntry_above (bs : List UInt8) : ∀ {di : Nat} (m : Mem), di < 2 ^ 16 → ∀ {x : Nat},
    2 ^ 16 ≤ x → storeEntry di bs m x = m x := by
  induction bs with
  | nil => exact fun _ _ _ _ => rfl
  | cons b bs ih =>
      intro di m hdi x hx
      rw [storeEntry, ih _ (u16_lt _) hx]
      exact Function.update_of_ne (by omega) _ _

variable {b : Stage2}

theorem countEntry_outside {m : Mem} {x : Nat}
    (hsize : x < b.boot_info + 24 ∨ b.boot_info + 26 ≤ x)
    (hentries : x < b.boot_info + 32 ∨ b.boot_info + 34 ≤ x) : countEntry b m x = m x := by
  rw [countEntry, setWord_outside (by omega), setWord_outside (by omega)]

theorem countEntry_size (m : Mem) :
    word (countEntry b m) (b.boot_info + 24) = u16 (word m (b.boot_info + 24) + 32) := by
  rw [countEntry, word_congr fun i hi => setWord_outside (by omega), word_setWord]

theorem countEntry_entries (m : Mem) :
    word (countEntry b m) (b.boot_info + 32) = u16 (word m (b.boot_info + 32) + 1) := by
  rw [countEntry, word_setWord, word_congr fun i hi => setWord_outside (by omega)]

/-- `.check_error` changes nothing. -/
theorem checkError_ok {m m' : Mem} (h : checkError b m = .ok m') : m' = m := by
  unfold checkError at h
  split at h
  · cases h
  · exact (Except.ok.inj h).symm

/-- Nothing is stored behind the segment, whatever the firmware answers. -/
theorem detectLoop_above (replies : List Reply) : ∀ {di : Nat} {m m' : Mem}, di < 2 ^ 16 →
    di % 2 = 0 → detectLoop b replies di m = .ok m' → ∀ {x : Nat}, 2 ^ 16 ≤ x → m' x = m x := by
  have hfits := b.fits
  induction replies with
  | nil =>
      intro di m m' _ _ h
      cases h
  | cons reply replies ih =>
      intro di m m' hdi heven h x hx
      cases reply with
      | carry => rw [checkError_ok h]
      | entry a =>
          have hround : countEntry b (storeEntry di a.bytes m) x = m x := by
            rw [countEntry_outside (by omega) (by omega), storeEntry_above _ _ hdi hx]
          unfold detectLoop at h
          split at h
          · cases h
          · split at h
            · rw [checkError_ok h, hround]
            · have hnext : u16 (di + 32) % 2 = 0 := by
                unfold u16
                omega
              have hword : u16 (di + (2 ^ 16 - 2)) + 2 ≤ x := by
                unfold u16
                omega
              rw [ih (u16_lt _) hnext h hx, setWord_outside (Or.inr hword), hround]

/-! ## The rounds that fit -/

/-- After some answers: the counters, the slots, and what is still as it was. -/
structure Filled (b : Stage2) (answers : List Answer) (m m' : Mem) : Prop where
  valid : ∀ a ∈ answers, a.Valid
  size_eq : word m' (b.boot_info + 24) = 32 * answers.length
  entries_eq : word m' (b.boot_info + 32) = answers.length
  bytes : ∀ i a, answers[i]? = some a → m'.read (b.slot i + 2) a.bytes.length = a.bytes
  size : ∀ i a, answers[i]? = some a → word m' (b.slot i) = a.ecx % 256
  rest : ∀ x, (x < b.e820_map ∨ b.slot answers.length ≤ x) →
    (x < b.boot_info + 24 ∨ b.boot_info + 26 ≤ x) →
    (x < b.boot_info + 32 ∨ b.boot_info + 34 ≤ x) → m' x = m x

/-- An entry with the bytes `bytes` was stored in slot `n` and counted, without its size word. -/
structure Counted (b : Stage2) (n : Nat) (bytes : List UInt8) (m m' : Mem) : Prop where
  size_eq : word m' (b.boot_info + 24) = 32 * (n + 1)
  entries_eq : word m' (b.boot_info + 32) = n + 1
  bytes : m'.read (b.slot n + 2) bytes.length = bytes
  rest : ∀ x, (x < b.slot n + 2 ∨ b.slot (n + 1) ≤ x) →
    (x < b.boot_info + 24 ∨ b.boot_info + 26 ≤ x) →
    (x < b.boot_info + 32 ∨ b.boot_info + 34 ≤ x) → m' x = m x

theorem Filled.counted {answers : List Answer} {m m' : Mem} (h : Filled b answers m m') {a : Answer}
    (ha : a.Valid) (hfit : b.slot (answers.length + 1) ≤ 2 ^ 16) :
    Counted b answers.length a.bytes m'
      (countEntry b (storeEntry (b.slot answers.length + 2) a.bytes m')) := by
  have hle := ha.length_le
  unfold Stage2.slot Stage2.e820_map at hfit
  have hslot : b.slot answers.length = b.boot_info + 240 + 32 * answers.length := rfl
  have hnext : b.slot (answers.length + 1) = b.boot_info + 240 + 32 * (answers.length + 1) := rfl
  rw [storeEntry_write a.bytes m' (by omega)]
  constructor
  case size_eq =>
    rw [countEntry_size, word_congr fun i hi => Mem.write_outside (by omega), h.size_eq, u16]
    omega
  case entries_eq =>
    rw [countEntry_entries, word_congr fun i hi => Mem.write_outside (by omega), h.entries_eq, u16]
    omega
  case bytes =>
    rw [Mem.read_congr fun i hi => countEntry_outside (by omega) (by omega)]
    exact Mem.read_write_same _ _ _
  case rest =>
    intro x hx hsize hentries
    rw [countEntry_outside hsize hentries, Mem.write_outside (by omega)]

/-- With its size word the entry fills one slot more. -/
theorem Filled.step {answers : List Answer} {m m' m'' : Mem} (h : Filled b answers m m')
    {a : Answer} (ha : a.Valid) (hcounted : Counted b answers.length a.bytes m' m'') :
    Filled b (answers ++ [a]) m
      (setWord m'' (b.slot answers.length) (u16 a.ecx &&& 0xFF)) := by
  have hle := ha.length_le
  have hslot : ∀ i, b.slot i = b.boot_info + 240 + 32 * i := fun _ => rfl
  have hmap : b.e820_map = b.boot_info + 240 := rfl
  have hat := hslot answers.length
  have hbyte : u16 (u16 a.ecx &&& 0xFF) = a.ecx % 256 := by
    rw [show 0xFF = 2 ^ 8 - 1 from rfl, Nat.and_two_pow_sub_one_eq_mod]
    unfold u16
    omega
  -- an entry is one of the old ones or the new one
  have hsplit : ∀ i c, (answers ++ [a])[i]? = some c →
      (i < answers.length ∧ answers[i]? = some c) ∨ (i = answers.length ∧ c = a) := by
    intro i c hc
    rcases Nat.lt_or_ge i answers.length with hi | hi
    · rw [List.getElem?_append_left hi] at hc
      exact Or.inl ⟨hi, hc⟩
    · rw [List.getElem?_append_right hi] at hc
      have hzero : i - answers.length = 0 := by
        by_contra hne
        rw [List.getElem?_eq_none (by simp; omega)] at hc
        cases hc
      rw [hzero] at hc
      exact Or.inr ⟨by omega, (Option.some.inj hc).symm⟩
  constructor
  case valid =>
    intro c hc
    rcases List.mem_append.mp hc with hc | hc
    · exact h.valid c hc
    · rwa [List.mem_singleton.mp hc]
  case size_eq =>
    rw [List.length_append, List.length_singleton, ← hcounted.size_eq]
    exact word_congr fun i hi => setWord_outside (by omega)
  case entries_eq =>
    rw [List.length_append, List.length_singleton, ← hcounted.entries_eq]
    exact word_congr fun i hi => setWord_outside (by omega)
  case bytes =>
    intro i c hc
    rcases hsplit i c hc with ⟨hi, hc⟩ | ⟨rfl, rfl⟩
    · have hlen := (h.valid c (List.mem_of_getElem? hc)).length_le
      have hi' := hslot i
      have hread := h.bytes i c hc
      rw [← hread, Mem.read_length]
      refine Mem.read_congr fun j hj => ?_
      rw [setWord_outside (by omega)]
      exact hcounted.rest _ (by omega) (by omega) (by omega)
    · rw [Mem.read_congr fun j hj => setWord_outside (by omega)]
      exact hcounted.bytes
  case size =>
    intro i c hc
    rcases hsplit i c hc with ⟨hi, hc⟩ | ⟨rfl, rfl⟩
    · have hi' := hslot i
      rw [← h.size i c hc]
      refine word_congr fun j hj => ?_
      rw [setWord_outside (by omega)]
      exact hcounted.rest _ (by omega) (by omega) (by omega)
    · rw [word_setWord, hbyte]
  case rest =>
    intro x hx hsize hentries
    rw [List.length_append, List.length_singleton] at hx
    have hnext := hslot (answers.length + 1)
    rw [setWord_outside (by omega), hcounted.rest x (by omega) hsize hentries]
    exact h.rest x (by omega) hsize hentries

/-- The entries with a continuation value, as long as they fit below the end of the segment. -/
theorem detectLoop_filled (as : List Answer) (replies : List Reply) :
    ∀ {done : List Answer} {m m' : Mem}, Filled b done m m' → (∀ a ∈ as, a.Valid) →
    (∀ a ∈ as, a.ebx ≠ 0) →
    b.slot (done.length + as.length) ≤ 2 ^ 16 →
    ∃ m'', Filled b (done ++ as) m m'' ∧
      detectLoop b (as.map .entry ++ replies) (u16 (b.slot done.length + 2)) m'
        = detectLoop b replies (u16 (b.slot (done.length + as.length) + 2)) m'' := by
  induction as with
  | nil =>
      intro done m m' h _ _ _
      exact ⟨m', by rwa [List.append_nil], rfl⟩
  | cons a as ih =>
      intro done m m' h hvalid hebx hfit
      have hslot : ∀ i, b.slot i = b.boot_info + 240 + 32 * i := fun _ => rfl
      have hat := hslot done.length
      have hend := hslot (done.length + (as.length + 1))
      have hnext := hslot (done.length + 1)
      rw [List.length_cons] at hfit
      have ha := hvalid a (List.mem_cons_self ..)
      have hcounted := h.counted ha (by omega)
      have hstep := h.step ha hcounted
      have hlen : (done ++ [a]).length + as.length = done.length + (as.length + 1) := by
        rw [List.length_append, List.length_singleton]
        omega
      obtain ⟨m'', hfilled, hrun⟩ := ih hstep
        (fun c hc => hvalid c (List.mem_cons_of_mem _ hc))
        (fun c hc => hebx c (List.mem_cons_of_mem _ hc)) (by rwa [hlen])
      rw [List.append_assoc, List.singleton_append] at hfilled
      refine ⟨m'', hfilled, ?_⟩
      rw [hlen, List.length_append, List.length_singleton] at hrun
      have hdi : u16 (b.slot done.length + 2) = b.slot done.length + 2 := u16_of_lt (by omega)
      have hword : u16 (b.slot done.length + 2 + (2 ^ 16 - 2)) = b.slot done.length := by
        unfold u16
        omega
      have hadvance : u16 (b.slot done.length + 2 + 32) = u16 (b.slot (done.length + 1) + 2) := by
        rw [hat, hnext]
        congr 1
      -- `di` points behind the word for the length, which lies at the start of the slot
      rw [List.map_cons, List.cons_append, List.length_cons, ← hrun, hdi, detectLoop]
      simp only [ne_eq, ha.signature, not_true_eq_false, if_false,
        if_neg (hebx a (List.mem_cons_self ..)), hword, hadvance]

/-- Before the first answer. -/
theorem Stage2.Loaded.filled {m : Mem} (h : b.Loaded m) : Filled b [] m m := by
  have hzero : ∀ {a : Nat}, (∀ i, i < 8 → m (a + i) = 0) → word m a = 0 := by
    intro a ha
    have hread : m.read a 2 = Mem.read (fun _ => 0) 0 2 :=
      Mem.read_congr fun i hi => ha i (by omega)
    rw [word, hread]
    rfl
  exact ⟨by simp, hzero h.size_zero, hzero h.entries_zero, by simp, by simp, fun _ _ _ _ => rfl⟩

/-- What was filled is handed over. -/
theorem Filled.handsOver {answers : List Answer} {m m' : Mem} (h : Filled b answers m m')
    (hloaded : b.Loaded m) : HandsOver b answers m' := by
  have hmap : b.e820_map = b.boot_info + 240 := rfl
  constructor
  case map_eq =>
    rw [← hloaded.map_eq]
    exact Mem.qword_congr fun i hi => h.rest _ (by omega) (by omega) (by omega)
  case size_eq =>
    rw [qword_eq_word, h.size_eq]
    intro i hi
    rw [h.rest _ (by omega) (by omega) (by omega), Nat.add_assoc (b.boot_info + 24)]
    exact hloaded.size_zero _ (by omega)
  case entries_eq =>
    rw [qword_eq_word, h.entries_eq]
    intro i hi
    rw [h.rest _ (by omega) (by omega) (by omega), Nat.add_assoc (b.boot_info + 32)]
    exact hloaded.entries_zero _ (by omega)
  case bytes => exact h.bytes
  case size => exact h.size

/-! ## What is handed over -/

/-- A memory with `boot_info` in it, and zero elsewhere. -/
def Stage2.assembled (b : Stage2) : Mem :=
  Mem.write (fun _ => 0) (b.boot_info + 16) (toLE 8 (b.e820_map + 0xFFFF800000000000))

/-- What lies behind `boot_info` is not part of it. -/
theorem Stage2.assembled_loaded (b : Stage2) {x : Nat} (hx : b.e820_map ≤ x) (v : UInt8) :
    b.Loaded (Function.update b.assembled x v) := by
  have hfits := b.fits
  have hmap : b.e820_map = b.boot_info + 240 := rfl
  have hzero : ∀ y, b.boot_info + 24 ≤ y → b.assembled y = 0 := fun y hy =>
    Mem.write_outside (Or.inr (by rw [toLE_length]; omega))
  constructor
  case map_eq =>
    have hword := Mem.qword_setQword_same (fun _ => 0) (b.boot_info + 16)
      (b.e820_map + 0xFFFF800000000000)
    rw [u64_of_lt (by omega)] at hword
    rw [← hword]
    exact Mem.qword_congr fun i hi => Function.update_of_ne (by omega) _ _
  case size_zero =>
    intro i hi
    rw [Function.update_of_ne (by omega)]
    exact hzero _ (by omega)
  case entries_zero =>
    intro i hi
    rw [Function.update_of_ne (by omega)]
    exact hzero _ (by omega)

theorem word_low (m : Mem) (a : Nat) : word m a % 256 = (m a).toNat := by
  have hlt := (m a).toNat_lt
  simp only [word, Mem.read, ofLE]
  omega

/-- When the carry flag ends the list and the map fits, everything is handed over. -/
theorem detectMemory_carry (bios : BiosMap) (hfinal : bios.final = none)
    (hfit : b.slot bios.answers.length ≤ 2 ^ 16) {m : Mem} (hloaded : b.Loaded m) :
    ∃ m', detectMemory b bios.replies m = .ok m' ∧ HandsOver b bios.answers m' := by
  have hanswers : bios.answers = bios.continued := by
    rw [BiosMap.answers, hfinal]
    exact List.append_nil _
  rw [hanswers] at hfit ⊢
  obtain ⟨m', hfilled, hrun⟩ := detectLoop_filled bios.continued [.carry]
    hloaded.filled (fun a ha => bios.valid a (List.mem_append_left _ ha)) bios.ebx_ne
    (by simpa using hfit)
  refine ⟨m', ?_, hfilled.handsOver hloaded⟩
  have hpos : bios.continued.length ≠ 0 := by
    intro hzero
    refine bios.nonempty ?_
    rw [List.length_eq_zero_iff.mp hzero, hfinal]
    rfl
  have hcount : word m' (b.boot_info + 32) ≠ 0 := by
    rw [hfilled.entries_eq]
    exact hpos
  rw [detectMemory, BiosMap.replies, hfinal]
  refine hrun.trans ?_
  rw [detectLoop, checkError, if_neg hcount]

/-- When the last entry comes without a continuation value, its size word stays as it was. -/
theorem detectMemory_final (bios : BiosMap) {a : Answer} (hfinal : bios.final = some a)
    (hfit : b.slot bios.answers.length ≤ 2 ^ 16) {m m' : Mem} (hloaded : b.Loaded m)
    (hrun : detectMemory b bios.replies m = .ok m') :
    word m' (b.slot bios.continued.length) = word m (b.slot bios.continued.length) := by
  have hslot : ∀ i, b.slot i = b.boot_info + 240 + 32 * i := fun _ => rfl
  have hmap : b.e820_map = b.boot_info + 240 := rfl
  have hanswers : bios.answers.length = bios.continued.length + 1 := by
    rw [BiosMap.answers, hfinal, List.length_append]
    rfl
  have hvalid : a.Valid := bios.valid a (by rw [hfinal]; simp)
  have hzero : a.ebx = 0 := bios.ebx_eq a (by rw [hfinal]; rfl)
  rw [hanswers] at hfit
  have hat := hslot bios.continued.length
  have hnext := hslot (bios.continued.length + 1)
  obtain ⟨m₁, hfilled, hloop⟩ := detectLoop_filled bios.continued [.entry a]
    hloaded.filled (fun c hc => bios.valid c (List.mem_append_left _ hc)) bios.ebx_ne
    (by rw [List.length_nil, Nat.zero_add]; omega)
  rw [List.nil_append] at hfilled
  have hdi : u16 (b.slot bios.continued.length + 2) = b.slot bios.continued.length + 2 :=
    u16_of_lt (by omega)
  rw [List.length_nil, Nat.zero_add, hdi] at hloop
  have hcounted := hfilled.counted hvalid hfit
  -- without a continuation value the loop ends before the length is stored
  have hlast : m' = countEntry b (storeEntry (b.slot bios.continued.length + 2) a.bytes m₁) := by
    rw [detectMemory, BiosMap.replies, hfinal] at hrun
    have hcheck := hloop.symm.trans hrun
    rw [detectLoop] at hcheck
    simp only [ne_eq, hvalid.signature, not_true_eq_false, if_false, if_pos hzero] at hcheck
    exact checkError_ok hcheck
  rw [hlast]
  refine word_congr fun i hi => ?_
  rw [hcounted.rest _ (by omega) (by omega) (by omega)]
  exact hfilled.rest _ (by omega) (by omega) (by omega)

/-- **What the kernel is handed.** For a sequence of answers, the map is right in every state of
memory exactly when the sequence ends with the carry flag and the slots fit below the end of the
segment. A sequence that ends with a continuation value of 0 leaves the last size word unwritten. -/
theorem detectMemory_handsOver_iff (b : Stage2) (bios : BiosMap) :
    (∀ m, b.Loaded m →
        ∃ m', detectMemory b bios.replies m = .ok m' ∧ HandsOver b bios.answers m') ↔
      bios.final = none ∧ b.slot bios.answers.length ≤ 2 ^ 16 := by
  constructor
  · intro h
    have hfits := b.fits
    have haligned := b.aligned
    have hslot : ∀ i, b.slot i = b.boot_info + 240 + 32 * i := fun _ => rfl
    have hmap : b.e820_map = b.boot_info + 240 := rfl
    have hpos : bios.answers.length ≠ 0 := fun hzero =>
      bios.nonempty (List.length_eq_zero_iff.mp hzero)
    have hfit : b.slot bios.answers.length ≤ 2 ^ 16 := by
      by_contra hover
      -- byte 19 of the last answer belongs behind the segment
      obtain ⟨n, hn⟩ := Nat.exists_eq_succ_of_ne_zero hpos
      rw [Nat.succ_eq_add_one] at hn
      have hat := hslot n
      have hend := hslot (n + 1)
      rw [hn] at hover
      have hget := List.getElem?_eq_getElem (show n < bios.answers.length by omega)
      have hvalid : bios.answers[n].Valid := bios.valid _ (List.getElem_mem _)
      have hlen := hvalid.length_ge
      obtain ⟨m', hrun, hands⟩ := h _
        (b.assembled_loaded (x := b.slot n + 2 + 19) (by omega) (bios.answers[n].bytes[19] + 1))
      have hbyte := congrArg (fun bs => bs[19]?) (hands.bytes n _ hget)
      simp only [Mem.read_getElem?] at hbyte
      rw [if_pos (by omega), List.getElem?_eq_getElem (by omega)] at hbyte
      have hsame := detectLoop_above bios.replies (u16_lt _)
        (by unfold u16; omega) hrun (show 2 ^ 16 ≤ b.slot n + 2 + 19 by omega)
      rw [Function.update_self, Option.some.inj hbyte] at hsame
      have hval := congrArg UInt8.toNat hsame
      rw [UInt8.toNat_add] at hval
      have hone : UInt8.toNat 1 = 1 := rfl
      rw [hone] at hval
      omega
    refine ⟨?_, hfit⟩
    cases hfinal : bios.final with
    | none => rfl
    | some a =>
        -- the word that the slot held before is wrong
        have hat := hslot bios.continued.length
        obtain ⟨m', hrun, hands⟩ := h _ (b.assembled_loaded (x := b.slot bios.continued.length)
          (by omega) (UInt8.ofNat (a.ecx + 1)))
        have hword := detectMemory_final bios hfinal hfit (b.assembled_loaded (by omega) _) hrun
        have hsize : word m' (b.slot bios.continued.length) = a.ecx % 256 :=
          hands.size bios.continued.length a (by rw [BiosMap.answers, hfinal]; simp)
        have hlow := word_low m' (b.slot bios.continued.length)
        rw [hword, word_low, Function.update_self] at hlow
        have hlow' := word_low (Function.update b.assembled (b.slot bios.continued.length)
          (UInt8.ofNat (a.ecx + 1))) (b.slot bios.continued.length)
        rw [← hword, hsize, Function.update_self, UInt8.toNat_ofNat'] at hlow'
        omega
  · intro ⟨hfinal, hfit⟩ m hloaded
    exact detectMemory_carry bios hfinal hfit hloaded

/-- One usable entry of 24 bytes without a continuation value, to be ignored by its ACPI 3.0
flags. -/
def ignoredEntry : Answer where
  eax := SMAP
  ebx := 0
  ecx := 24
  bytes := List.replicate 16 0 ++ [1, 0, 0, 0, 0, 0, 0, 0]

def ignoredMap : BiosMap where
  continued := []
  final := some ignoredEntry
  valid := by
    intro a ha
    obtain rfl : a = ignoredEntry := by simpa using ha
    exact ⟨rfl, by decide, by decide⟩
  ebx_ne := by simp
  ebx_eq := by
    intro a ha
    obtain rfl : ignoredEntry = a := Option.some.inj ha
    rfl
  nonempty := by simp

def stage2 : Stage2 := ⟨0x2000, by decide, by decide⟩

/-- A map of one entry: the kernel reads 0 for its size, and does not ignore it. -/
theorem detectMemory_size_lost : ¬ ∀ (b : Stage2) (bios : BiosMap) (m : Mem), b.Loaded m →
    ∃ m', detectMemory b bios.replies m = .ok m' ∧ HandsOver b bios.answers m' := by
  intro h
  obtain ⟨m', hrun, hands⟩ := h stage2 ignoredMap _
    (stage2.assembled_loaded (x := stage2.e820_map) (le_refl _) 0)
  have hsize : word m' (stage2.slot 0) = 24 := hands.size 0 ignoredEntry rfl
  obtain rfl := (Except.ok.inj hrun)
  revert hsize
  decide

end Windozz.Bootmgr

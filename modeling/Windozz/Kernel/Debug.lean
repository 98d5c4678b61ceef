import Windozz.Kernel.Ltoa

set_option autoImplicit false

/-! # `debug_vprintf`

The formatted output of the kernel. `debug_vprintf` is followed with the indices it uses; the format
is the list of its characters in front of the NUL, and a read behind the NUL is a fault, as is a
store behind the end of `number` or `padded_buffer`. What the indices amount to is a scan of what is
left of the format (`printLoop_eq`), which gets shorter in every round.
-/

namespace Windozz.Kernel.Debug

/-! ## Strings -/

/-- The string in a buffer. -/
def cstring (m : Mem) : Option (List UInt8) := (strlen m).map (m.read 0)

/-- `lowercase`. -/
def lowercase (str : List UInt8) : List UInt8 :=
  str.map fun c => if 65 ≤ c ∧ c ≤ 90 then c + 0x20 else c

/-- `uppercase`. -/
def uppercase (str : List UInt8) : List UInt8 :=
  str.map fun c => if 97 ≤ c ∧ c ≤ 122 then c - 0x20 else c

/-- `pad`. -/
def pad (destination : Mem) (source : List UInt8) (new_size : Nat) (val : UInt8) : Mem :=
  if new_size ≤ source.length then destination.write 0 (source ++ [0])
  else
    let destination : Mem := destination.write 0 (List.replicate new_size val)
    let destination : Mem := Function.update destination new_size 0
    if source.head? ≠ some 45 then destination.write (new_size - source.length) (source ++ [0])
    else
      let destination : Mem := destination.write (new_size - source.length + 1) (source ++ [0])
      let destination : Mem := Function.update destination (new_size - source.length + 1) val
      Function.update destination 0 45

/-- The number of bytes from the start of the destination that `pad` stores to. A number with a sign
that is padded takes one more than its width and the NUL. -/
def padEnd (source : List UInt8) (new_size : Nat) : Nat :=
  if new_size ≤ source.length then source.length + 1
  else if source.head? ≠ some 45 then new_size + 1
  else new_size + 2

/-! ## Arguments and conversions -/

/-- An argument behind the format. -/
inductive Arg where
  | int (n : BitVec 32)
  | long (n : BitVec 64)
  | string (s : List UInt8)

/-- The conversions that `debug_vprintf` knows. -/
inductive Kind where
  | c | s | d | x | X | ld | lx | lX
  deriving DecidableEq

/-- What the scanner finds behind a percent; `kind` is `none` for an unknown letter. -/
structure Directive where
  pad_character : UInt8
  number : List UInt8
  kind : Option Kind

/-- `pad_spaces`, as the `size_t` that `pad` takes it for. -/
def Directive.padSpaces (d : Directive) : Nat := ((atoi d.number).signExtend 64).toNat

/-- The ways `debug_vprintf` goes wrong. -/
inductive Fault where
  /-- A read behind the NUL of the format. -/
  | formatEnd (index : Nat)
  /-- A store behind the end of `number`. -/
  | number
  /-- A store behind the end of `padded_buffer`. -/
  | padded_buffer
  /-- A `va_arg` without an argument of its type. -/
  | argument
  /-- A loop without an end. -/
  | endless
  deriving DecidableEq

/-- The text of a number that `itoa` or `ltoa` has written: `pad`, and `lowercase` or `uppercase`. -/
def numberText (buffer : Option Mem) (new_size : Nat) (val : UInt8)
    (letters : List UInt8 → List UInt8) : Except Fault (List UInt8) :=
  match buffer.bind cstring with
  | none => .error .endless
  | some integer_buffer =>
      if 96 < padEnd integer_buffer new_size then .error .padded_buffer
      else
        match cstring (pad (fun _ => 0) integer_buffer new_size val) with
        | none => .error .endless
        | some padded_buffer => .ok (letters padded_buffer)

/-- `integer_buffer`, before anything is written to it. -/
def integerBuffer : Mem := fun _ => 0

/-- What a conversion prints. -/
def convert (d : Directive) : Kind → Arg → Except Fault (List UInt8)
  | .c, .int n => .ok [UInt8.ofBitVec (n.setWidth 8)]
  | .s, .string s => .ok s
  | .d, .int n => numberText (itoa n integerBuffer 10) d.padSpaces d.pad_character id
  | .x, .int n => numberText (itoa n integerBuffer 16) d.padSpaces d.pad_character lowercase
  | .X, .int n => numberText (itoa n integerBuffer 16) d.padSpaces d.pad_character uppercase
  | .ld, .long n => numberText (ltoa n integerBuffer DECIMAL) d.padSpaces d.pad_character id
  | .lx, .long n => numberText (ltoa n integerBuffer HEX) d.padSpaces d.pad_character lowercase
  | .lX, .long n => numberText (ltoa n integerBuffer HEX) d.padSpaces d.pad_character uppercase
  | _, _ => .error .argument

/-- The letters behind a percent. -/
def shortKind (c : UInt8) : Option Kind :=
  if c = 99 then some .c else if c = 115 then some .s else if c = 100 then some .d
  else if c = 120 then some .x else if c = 88 then some .X else none

/-- The letters behind `l`. -/
def longKind (c : UInt8) : Option Kind :=
  if c = 100 then some .ld else if c = 120 then some .lx else if c = 88 then some .lX else none

/-! ## `debug_vprintf` -/

/-- What `debug_vprintf` prints: a character of the format, or an argument. -/
inductive Event where
  | char (c : UInt8)
  | conversion (kind : Kind) (arg : Arg) (text : List UInt8)

/-- The characters that reach `debug_putc`. -/
def Event.text : Event → List UInt8
  | .char c => [c]
  | .conversion _ _ text => text

/-- What is printed behind the prefix, the arguments that are left, and the value returned. -/
structure Printed where
  events : List Event
  args : List Arg
  size : BitVec 32

/-- `fmt[i]`. -/
def fmtAt (fmt : List UInt8) (i : Nat) : Except Fault UInt8 :=
  if i < fmt.length then .ok (fmt.getD i 0)
  else if i = fmt.length then .ok 0
  else .error (.formatEnd i)

/-- The switch over the letter at `fmt[i]`. -/
def readKind (fmt : List UInt8) (i : Nat) : Except Fault (Option Kind × Nat) :=
  match fmtAt fmt i with
  | .error e => .error e
  | .ok c =>
      if c = 108 then
        match fmtAt fmt (i + 1) with
        | .error e => .error e
        | .ok c =>
            match longKind c with
            | some kind => .ok (some kind, i + 2)
            | none => .ok (none, i + 1)
      else
        match shortKind c with
        | some kind => .ok (some kind, i + 1)
        | none => .ok (none, i)

/-- The field width at `fmt[i]`, as copied into `number[16]`. -/
def readNumber (fmt : List UInt8) (i : Nat) : Except Fault (List UInt8 × Nat) :=
  match fmtAt fmt i with
  | .error e => .error e
  | .ok c =>
      if isDigit c then
        let number := copyNumber (fmt.drop i)
        if 16 ≤ number.length then .error .number else .ok (number, i + number.length)
      else .ok ([], i)

/-- From behind a percent, at `fmt[i]`, to the arguments. -/
def readDirective (fmt : List UInt8) (i : Nat) : Except Fault (Directive × Nat) :=
  match fmtAt fmt i with
  | .error e => .error e
  | .ok c =>
      let pad_character : UInt8 := if c = 48 then 48 else 32
      let i := if c = 48 then i + 1 else i
      match readNumber fmt i with
      | .error e => .error e
      | .ok (number, i) =>
          match readKind fmt i with
          | .error e => .error e
          | .ok (kind, i) => .ok (⟨pad_character, number, kind⟩, i)

/-- A conversion takes its argument and prints it. -/
def perform (d : Directive) (args : List Arg) : Except Fault (List Event × List Arg) :=
  match d.kind with
  | none => .ok ([], args)
  | some kind =>
      match args with
      | [] => .error .argument
      | a :: args =>
          match convert d kind a with
          | .error e => .error e
          | .ok text => .ok ([.conversion kind a text], args)

/-- The length of what is printed, as an `int`. -/
def eventsSize (events : List Event) : BitVec 32 :=
  BitVec.ofNat 32 (events.flatMap Event.text).length

/-- The events in front of what is printed later. -/
def Printed.after (events : List Event) (p : Printed) : Printed :=
  { p with events := events ++ p.events }

/-- The `while` loop of `debug_vprintf` from `fmt[i]` on; `size` counts what has been printed. -/
def printLoop (fmt : List UInt8) : Nat → Nat → List Arg → BitVec 32 → Except Fault Printed
  | 0, _, _, _ => .error .endless
  | fuel + 1, i, args, size =>
      match fmtAt fmt i with
      | .error e => .error e
      | .ok c =>
          if c = 0 then .ok ⟨[], args, size⟩
          else
            match (if c = 37 then fmtAt fmt (i + 1) else .ok 37) with
            | .error e => .error e
            | .ok next =>
                if next ≠ 37 then
                  match readDirective fmt (i + 1) with
                  | .error e => .error e
                  | .ok (d, i) =>
                      match perform d args with
                      | .error e => .error e
                      | .ok (events, args) =>
                          (printLoop fmt fuel i args (size + eventsSize events)).map
                            (Printed.after events)
                else (printLoop fmt fuel (i + 1) args (size + 1)).map (Printed.after [.char c])

/-- `TIMER_FREQUENCY`. -/
def TIMER_FREQUENCY : BitVec 64 := 1000

/-- The constants of `debug.h`. -/
def LEVEL_WARN : Int := 2
def LEVEL_ERROR : Int := 3

/-- The color of a level: `ESC [0m ESC [1m`, and `ESC [31m`, `ESC [33m` or `ESC [34m`. -/
def levelText (level : Int) : List UInt8 :=
  [27, 91, 48, 109, 27, 91, 49, 109, 27, 91, 51,
    if level = LEVEL_ERROR then 49 else if level = LEVEL_WARN then 51 else 52, 109]

/-- `ESC [35m`, the module, a colon and `ESC [0m`. -/
def moduleText : Option (List UInt8) → List UInt8
  | none => []
  | some name => [27, 91, 51, 53, 109] ++ name ++ [58, 27, 91, 48, 109, 32]

/-- The prefix: level, time and module. -/
def prefixText (level : Int) (timer_ticks : BitVec 64) (module : Option (List UInt8)) :
    Except Fault (List UInt8) :=
  match numberText (ltoa (timer_ticks.sdiv TIMER_FREQUENCY) integerBuffer DECIMAL) 6 32 id with
  | .error e => .error e
  | .ok seconds =>
      match numberText (ltoa (timer_ticks.srem TIMER_FREQUENCY) integerBuffer DECIMAL) 3 48 id with
      | .error e => .error e
      | .ok millis =>
          .ok (levelText level ++ [91] ++ seconds ++ [46] ++ millis ++ [93, 27, 91, 48, 109, 32] ++
            moduleText module)

/-- `debug_vprintf`: its prefix, and what it does behind it. -/
def debugVprintf (level : Int) (timer_ticks : BitVec 64) (module : Option (List UInt8))
    (fmt : List UInt8) (args : List Arg) : Except Fault (List UInt8 × Printed) :=
  match prefixText level timer_ticks module with
  | .error e => .error e
  | .ok text => (printLoop fmt (fmt.length + 1) 0 args 0).map (Prod.mk text)

/-! ## Texts of numbers -/

/-- The string in a buffer goes as far as `strlen` does. -/
theorem cstring_eq_some {m : Mem} {s : List UInt8} (h : cstring m = some s) :
    strlen m = some s.length ∧ m.read 0 s.length = s := by
  rw [cstring, Option.map_eq_some_iff] at h
  obtain ⟨n, hn, rfl⟩ := h
  rw [Mem.read_length]
  exact ⟨hn, rfl⟩

/-- A string in memory is read back. -/
theorem cstring_write {m : Mem} {s : List UInt8} (h0 : 0 ∉ s) (hlen : s.length < 2 ^ 64) :
    cstring (m.write 0 (s ++ [0])) = some s := by
  have hread : (m.write 0 (s ++ [0])).read 0 s.length = s := by
    have hsame := Mem.read_write_same m 0 (s ++ [0])
    rw [List.length_append, Mem.read_add] at hsame
    exact (List.append_inj hsame (Mem.read_length _ _ _)).1
  rw [cstring, strlen_write h0 hlen, Option.map_some, hread]

/-- What `pad` makes of a number. With a sign in front and the width not reached, the text is one
longer than the width. -/
def padText (source : List UInt8) (new_size : Nat) (val : UInt8) : List UInt8 :=
  if new_size ≤ source.length then source
  else if source.head? ≠ some 45 then List.replicate (new_size - source.length) val ++ source
  else 45 :: (List.replicate (new_size - source.length + 1) val ++ source.tail)

theorem padText_length (source : List UInt8) (new_size : Nat) (val : UInt8) :
    (padText source new_size val).length + 1 = padEnd source new_size := by
  rw [padText, padEnd]
  by_cases hwide : new_size ≤ source.length
  · rw [if_pos hwide, if_pos hwide]
  · rw [if_neg hwide, if_neg hwide]
    by_cases hsign : source.head? ≠ some 45
    · rw [if_pos hsign, if_pos hsign, List.length_append, List.length_replicate]
      omega
    · rw [if_neg hsign, if_neg hsign]
      obtain ⟨s, hs⟩ : ∃ s, source = 45 :: s := by
        cases source with
        | nil => simp at hsign
        | cons c s => exact ⟨s, by simpa using hsign⟩
      subst hs
      simp only [List.length_cons, List.length_append, List.length_replicate, List.tail_cons] at *
      omega

theorem padText_nul {source : List UInt8} (h0 : 0 ∉ source) (new_size : Nat) {val : UInt8}
    (hval : val ≠ 0) : 0 ∉ padText source new_size val := by
  intro hmem
  rw [padText] at hmem
  split at hmem
  · exact h0 hmem
  · split at hmem
    · rcases List.mem_append.mp hmem with hmem | hmem
      · exact hval (List.eq_of_mem_replicate hmem).symm
      · exact h0 hmem
    · rcases List.mem_cons.mp hmem with hmem | hmem
      · exact absurd hmem (by decide)
      · rcases List.mem_append.mp hmem with hmem | hmem
        · exact hval (List.eq_of_mem_replicate hmem).symm
        · exact h0 (List.mem_of_mem_tail hmem)

/-- Without a sign to be moved, the source is at the end. -/
theorem padText_plain {source : List UInt8} {new_size : Nat} (val : UInt8)
    (h : new_size ≤ source.length ∨ source.head? ≠ some 45) :
    padText source new_size val = List.replicate (new_size - source.length) val ++ source := by
  rw [padText]
  by_cases hwide : new_size ≤ source.length
  · rw [if_pos hwide, Nat.sub_eq_zero_of_le hwide]
    rfl
  · rw [if_neg hwide, if_pos (h.resolve_left hwide)]

/-- With a sign to be moved, it is at the front. -/
theorem padText_signed {source : List UInt8} {new_size : Nat} (val : UInt8)
    (hwide : source.length < new_size) (hsign : source.head? = some 45) :
    padText source new_size val
      = 45 :: (List.replicate (new_size - source.length + 1) val ++ source.tail) := by
  rw [padText, if_neg (not_le.mpr hwide), if_neg (not_not.mpr hsign)]

theorem replicate_write (m : Mem) (n : Nat) (val : UInt8) :
    (Function.update (m.write 0 (List.replicate n val)) n 0 : Mem)
      = m.write 0 (List.replicate n val ++ [0]) := by
  have happ := write_append m 0 (List.replicate n val) [0]
  rw [Nat.zero_add, List.length_replicate, Mem.write_cons, write_nil] at happ
  exact happ

/-- Bytes written over the end of a text, and behind it. -/
theorem write_over (m : Mem) (as bs cs : List UInt8) (h : bs.length ≤ cs.length) :
    (m.write 0 (as ++ bs)).write as.length cs = m.write 0 (as ++ cs) := by
  funext i
  simp only [Mem.write_apply, List.length_append, Nat.zero_le, true_and, Nat.zero_add,
    Nat.sub_zero, List.getD_eq_getElem?_getD]
  by_cases hlo : i < as.length
  · rw [if_neg (by omega), if_pos (by omega), if_pos (by omega), List.getElem?_append_left hlo,
      List.getElem?_append_left hlo]
  · by_cases hhi : i < as.length + cs.length
    · rw [if_pos (by omega), if_pos hhi, List.getElem?_append_right (not_lt.mp hlo)]
    · rw [if_neg (by omega), if_neg (by omega), if_neg hhi]

/-- A byte of a text replaced. -/
theorem update_write {m : Mem} {bs : List UInt8} {i : Nat} (b : UInt8) (h : i < bs.length) :
    (Function.update (m.write 0 bs) i b : Mem) = m.write 0 (bs.set i b) := by
  funext j
  simp only [Mem.write_apply, List.length_set, Nat.zero_le, true_and, Nat.zero_add, Nat.sub_zero,
    List.getD_eq_getElem?_getD]
  by_cases hj : j = i
  · rw [hj, Function.update_self, if_pos h, List.getElem?_set_self h]
    rfl
  · rw [Function.update_of_ne hj, List.getElem?_set_ne (Ne.symm hj), Mem.write_apply]
    simp [List.getD_eq_getElem?_getD]

/-- `pad` writes its text and a NUL. -/
theorem pad_eq (destination : Mem) (source : List UInt8) (new_size : Nat) (val : UInt8) :
    pad destination source new_size val
      = destination.write 0 (padText source new_size val ++ [0]) := by
  rw [pad, padText]
  by_cases hwide : new_size ≤ source.length
  · rw [if_pos hwide, if_pos hwide]
  · rw [if_neg hwide, if_neg hwide]
    simp only [replicate_write]
    by_cases hsign : source.head? ≠ some 45
    · rw [if_pos hsign, if_pos hsign]
      have hsplit : List.replicate new_size val ++ [0]
          = List.replicate (new_size - source.length) val
            ++ (List.replicate source.length val ++ [0]) := by
        rw [← List.append_assoc, List.replicate_append_replicate,
          Nat.sub_add_cancel (by omega)]
      have hover := write_over destination (List.replicate (new_size - source.length) val)
        (List.replicate source.length val ++ [0]) (source ++ [0]) (by simp)
      rw [List.length_replicate] at hover
      rw [hsplit, hover, List.append_assoc]
    · rw [if_neg hsign, if_neg hsign]
      obtain ⟨s, rfl⟩ : ∃ s, source = 45 :: s := by
        cases source with
        | nil => simp at hsign
        | cons c s => exact ⟨s, by simpa using hsign⟩
      rw [List.length_cons] at hwide ⊢
      -- the text goes one place too far to the right
      have hsplit : List.replicate new_size val ++ [0]
          = List.replicate (new_size - (s.length + 1) + 1) val
            ++ (List.replicate s.length val ++ [0]) := by
        rw [← List.append_assoc, List.replicate_append_replicate]
        congr 2
        omega
      have hover := write_over destination (List.replicate (new_size - (s.length + 1) + 1) val)
        (List.replicate s.length val ++ [0]) (45 :: s ++ [0]) (by simp)
      rw [List.length_replicate] at hover
      rw [hsplit, hover]
      -- the sign is overwritten, and put in front
      have hn : new_size - (s.length + 1) + 1 = (new_size - (s.length + 1)) + 1 := rfl
      rw [update_write _ (by simp), update_write _ (by simp), List.cons_append,
        List.set_append_right _ _ (by simp), List.length_replicate, Nat.sub_self, List.set_cons_zero,
        hn, List.replicate_succ, List.cons_append, List.set_cons_zero, List.tail_cons,
        ← List.replicate_succ, List.replicate_succ']
      simp

theorem pad_apply (destination : Mem) (source : List UInt8) (new_size : Nat) (val : UInt8) {i : Nat}
    (hi : i < (padText source new_size val).length) :
    pad destination source new_size val i = (padText source new_size val)[i] := by
  have hi' : i < (padText source new_size val ++ [0]).length := by
    rw [List.length_append]
    omega
  have hin := Mem.write_inside (m := destination) (a := 0) hi'
  rw [pad_eq]
  rwa [Nat.zero_add, List.getElem_append_left hi] at hin

/-! ### What `pad` is for -/

/-- The characters of the source stand in the text, each at a place of its own, and the pad
character everywhere else. -/
def Placed (source text : List UInt8) (val : UInt8) : Prop :=
  ∃ place : Fin source.length → Fin text.length, Function.Injective place ∧
    (∀ i, text.get (place i) = source.get i) ∧ ∀ j, (∀ i, place i ≠ j) → text.get j = val

/-- A string as long as the source and the width ask for, with the source in it, and nothing stored
behind its NUL. -/
structure Padded (destination : Mem) (source : List UInt8) (new_size : Nat) (val : UInt8)
    (result : Mem) : Prop where
  text : ∃ text, cstring result = some text ∧ text.length = max new_size source.length ∧
    Placed source text val
  rest : ∀ i, max new_size source.length + 1 ≤ i → result i = destination i

theorem placed_replicate (n : Nat) (source : List UInt8) (val : UInt8) :
    Placed source (List.replicate n val ++ source) val := by
  refine ⟨fun i => ⟨n + i, by simp⟩, fun i j hij => ?_, fun i => ?_, fun ⟨j, hlen⟩ hj => ?_⟩
  · have hnat : n + i = n + j := congrArg Fin.val hij
    exact Fin.ext (by omega)
  · simp
  · -- a place behind the pad characters is the place of a character
    have hlo : j < n := by
      by_contra hge
      have hsum : j < n + source.length := by simpa using hlen
      exact hj ⟨j - n, by omega⟩ (Fin.ext (by simp; omega))
    simp [List.getElem_append_left, hlo]

/-- **`pad` pads exactly where it has nothing to pad, or no sign to move and no NUL to pad with.** A
sign that is moved to the front leaves its place to the pad character, and the text gets one longer
than the width. -/
theorem pad_padded_iff (destination : Mem) {source : List UInt8} (h0 : 0 ∉ source)
    (hlen : source.length < 2 ^ 64) {new_size : Nat} (hsize : new_size < 2 ^ 64) (val : UInt8) :
    Padded destination source new_size val (pad destination source new_size val) ↔
      new_size ≤ source.length ∨ source.head? ≠ some 45 ∧ val ≠ 0 := by
  constructor
  · intro h
    by_contra hbad
    rw [not_or, not_le, not_and_or, not_not, not_not] at hbad
    obtain ⟨hwide, hbad⟩ := hbad
    obtain ⟨text, htext, hmax, -⟩ := h.text
    rw [max_eq_left hwide.le] at hmax
    -- the first NUL would be at the width
    obtain ⟨hend, hne⟩ := strlen_some (hmax ▸ (cstring_eq_some htext).1)
    have hpadded := padText_length source new_size val
    by_cases hsign : source.head? = some 45
    · rw [padEnd, if_neg (not_le.mpr hwide), if_neg (not_not.mpr hsign)] at hpadded
      by_cases hval : val = 0
      · have hpos : 0 < source.length := by
          cases source with
          | nil => simp at hsign
          | cons c s => simp
        refine hne 1 (by omega) ?_
        rw [pad_apply _ _ _ _ (by omega)]
        simp only [padText_signed val hwide hsign, List.getElem_cons_succ]
        simp [hval]
      · rw [pad_apply _ _ _ _ (by omega)] at hend
        exact padText_nul h0 new_size hval (hend ▸ List.getElem_mem _)
    · rw [padEnd, if_neg (not_le.mpr hwide), if_pos hsign] at hpadded
      refine hne 0 (by omega) ?_
      rw [pad_apply _ _ _ _ (by omega)]
      simp only [padText_plain val (Or.inr hsign)]
      rw [List.getElem_append_left (by simp; omega), List.getElem_replicate]
      exact hbad.resolve_left hsign
  · intro h
    have htext := padText_plain val (h.imp_right And.left)
    have hlong : (padText source new_size val).length = max new_size source.length := by
      rw [htext, List.length_append, List.length_replicate]
      omega
    have hnul : 0 ∉ padText source new_size val := by
      rcases h with hwide | ⟨-, hval⟩
      · rwa [padText, if_pos hwide]
      · exact padText_nul h0 new_size hval
    rw [pad_eq]
    exact
      { text := ⟨_, cstring_write hnul (by omega), hlong, htext ▸ placed_replicate _ source val⟩
        rest := fun i hi => Mem.write_outside (Or.inr (by simp; omega)) }

/-- `42` in six columns. -/
theorem pad_padded_unsigned :
    Padded (fun _ => 1) [52, 50] 6 32 (pad (fun _ => 1) [52, 50] 6 32) :=
  (pad_padded_iff (fun _ => 1) (by decide) (by decide) (by decide) 32).mpr (Or.inr (by decide))

/-- `-5` in six columns takes seven, and the NUL the place behind. -/
theorem pad_signed_wide :
    cstring (pad (fun _ => 1) [45, 53] 6 32) = some [45, 32, 32, 32, 32, 32, 53] ∧
      pad (fun _ => 1) [45, 53] 6 32 7 = 0 ∧
      ¬ Padded (fun _ => 1) [45, 53] 6 32 (pad (fun _ => 1) [45, 53] 6 32) := by
  have htext : cstring (pad (fun _ => 1) [45, 53] 6 32) = some [45, 32, 32, 32, 32, 32, 53] := by
    rw [pad_eq]
    exact cstring_write (by decide) (by decide)
  have hnul : pad (fun _ => 1) [45, 53] 6 32 7 = 0 := by decide
  refine ⟨htext, hnul, fun h => ?_⟩
  have hrest := h.rest 7 (by decide)
  rw [hnul] at hrest
  exact absurd hrest (by decide)

/-- The text of a number, in a radix that `ltoa` knows. -/
theorem numberText_eq (num : BitVec 64) {radix : Nat} (h2 : 2 ≤ radix) (h36 : radix ≤ 36)
    (new_size : Nat) {val : UInt8} (hval : val ≠ 0) (letters : List UInt8 → List UInt8) :
    numberText (ltoa num integerBuffer radix) new_size val letters =
      if 96 < padEnd (longNumeral num radix) new_size then .error .padded_buffer
      else .ok (letters (padText (longNumeral num radix) new_size val)) := by
  have h0 : 0 ∉ longNumeral num radix := longNumeral_nul h2 h36 num
  have hlen := longNumeral_length h2 num
  rw [numberText, ltoa_eq h2 h36, Option.bind_some, cstring_write h0 (by omega)]
  simp only
  by_cases hend : 96 < padEnd (longNumeral num radix) new_size
  · rw [if_pos hend, if_pos hend]
  · have hpadded := padText_length (longNumeral num radix) new_size val
    have hpad0 := padText_nul h0 new_size hval
    rw [if_neg hend, if_neg hend, pad_eq, cstring_write hpad0 (by omega)]

/-- The prefix is always printed. -/
theorem prefixText_ok (level : Int) (timer_ticks : BitVec 64) (module : Option (List UInt8)) :
    ∃ text, prefixText level timer_ticks module = .ok text := by
  have hfits : ∀ (num : BitVec 64) (n : Nat), n ≤ 6 → ¬ 96 < padEnd (longNumeral num DECIMAL) n := by
    intro num n hn
    have hlen : (longNumeral num DECIMAL).length ≤ 65 := longNumeral_length (by decide) num
    rw [padEnd]
    split
    · omega
    · split
      · omega
      · omega
  have hradix : 2 ≤ DECIMAL ∧ DECIMAL ≤ 36 := by decide
  rw [prefixText, numberText_eq _ hradix.1 hradix.2 6 (by decide), if_neg (hfits _ 6 (le_refl 6)),
    numberText_eq _ hradix.1 hradix.2 3 (by decide), if_neg (hfits _ 3 (by decide))]
  exact ⟨_, rfl⟩

/-! ## The scanner -/

/-- What the switch finds at the start of what is left of the format. -/
def scanKind : List UInt8 → Option Kind × List UInt8
  | [] => (none, [])
  | c :: rest =>
      if c = 108 then
        match rest with
        | [] => (none, [])
        | c' :: rest' =>
            match longKind c' with
            | some kind => (some kind, rest')
            | none => (none, c' :: rest')
      else
        match shortKind c with
        | some kind => (some kind, rest)
        | none => (none, c :: rest)

/-- What the scanner finds behind a percent, and what is left. -/
def scanDirective (rest : List UInt8) : Directive × List UInt8 :=
  let pad_character : UInt8 := if rest.headD 0 = 48 then 48 else 32
  let rest := if rest.headD 0 = 48 then rest.tail else rest
  let number := copyNumber rest
  let (kind, rest) := scanKind (rest.drop number.length)
  (⟨pad_character, number, kind⟩, rest)

/-- The loop of `debug_vprintf` over what is left of the format. -/
def scanLoop : Nat → List UInt8 → List Arg → BitVec 32 → Except Fault Printed
  | 0, _, _, _ => .error .endless
  | _ + 1, [], args, size => .ok ⟨[], args, size⟩
  | fuel + 1, c :: rest, args, size =>
      if c = 0 then .ok ⟨[], args, size⟩
      else if c = 37 ∧ rest.headD 0 ≠ 37 then
        if 16 ≤ (scanDirective rest).1.number.length then .error .number
        else
          match perform (scanDirective rest).1 args with
          | .error e => .error e
          | .ok (events, args) =>
              (scanLoop fuel (scanDirective rest).2 args (size + eventsSize events)).map
                (Printed.after events)
      else (scanLoop fuel rest args (size + 1)).map (Printed.after [.char c])

section Scanner

variable {fmt pre rest : List UInt8}

/-- A read at the place up to which the format has been read. -/
theorem fmtAt_append (pre rest : List UInt8) :
    fmtAt (pre ++ rest) pre.length = .ok (rest.headD 0) := by
  rw [fmtAt, List.length_append]
  cases rest with
  | nil =>
      rw [if_neg (by simp), if_pos (by simp)]
      rfl
  | cons c rest =>
      rw [if_pos (by simp), List.getD_eq_getElem?_getD, List.getElem?_append_right (le_refl _),
        Nat.sub_self]
      rfl

theorem fmtAt_next (pre : List UInt8) (c : UInt8) (rest : List UInt8) :
    fmtAt (pre ++ c :: rest) (pre.length + 1) = .ok (rest.headD 0) := by
  have h := fmtAt_append (pre ++ [c]) rest
  rwa [List.append_assoc, List.length_append] at h

/-- The switch, and where it leaves the index. -/
theorem readKind_eq (pre rest : List UInt8) :
    ∃ used, rest = used ++ (scanKind rest).2 ∧
      readKind (pre ++ rest) pre.length = .ok ((scanKind rest).1, pre.length + used.length) := by
  have hread := fmtAt_append pre rest
  rw [readKind, hread]
  cases rest with
  | nil => exact ⟨[], rfl, rfl⟩
  | cons c rest =>
      change ∃ used, c :: rest = used ++ (scanKind (c :: rest)).2 ∧
        (if c = 108 then _ else _) = Except.ok _
      simp only [scanKind.eq_def (c :: rest)]
      by_cases hlong : c = 108
      · subst hlong
        rw [if_pos rfl, if_pos rfl, fmtAt_next]
        cases rest with
        | nil => exact ⟨[108], rfl, rfl⟩
        | cons c' rest =>
            simp only [List.headD_cons]
            cases longKind c' with
            | some kind => exact ⟨[108, c'], rfl, rfl⟩
            | none => exact ⟨[108], rfl, rfl⟩
      · rw [if_neg hlong, if_neg hlong]
        simp only [List.headD_cons]
        cases shortKind c with
        | some kind => exact ⟨[c], rfl, rfl⟩
        | none => exact ⟨[], rfl, rfl⟩

/-- The field width. -/
theorem readNumber_eq (pre rest : List UInt8) :
    readNumber (pre ++ rest) pre.length =
      if 16 ≤ (copyNumber rest).length then .error .number
      else .ok (copyNumber rest, pre.length + (copyNumber rest).length) := by
  rw [readNumber, fmtAt_append]
  simp only [List.drop_left]
  by_cases hdigit : isDigit (rest.headD 0) = true
  · rw [if_pos hdigit]
  · have hnone : copyNumber rest = [] := by
      cases rest with
      | nil => rfl
      | cons c rest => exact List.takeWhile_cons_of_neg hdigit
    rw [if_neg hdigit, hnone, if_neg (by decide)]
    rfl

/-- From behind a percent to the arguments. -/
theorem readDirective_eq (pre rest : List UInt8) :
    ∃ used, rest = used ++ (scanDirective rest).2 ∧
      readDirective (pre ++ rest) pre.length =
        if 16 ≤ (scanDirective rest).1.number.length then .error .number
        else .ok ((scanDirective rest).1, pre.length + used.length) := by
  -- the flag
  obtain ⟨flag, hflag, hindex⟩ : ∃ flag, rest = flag ++ (if rest.headD 0 = 48 then rest.tail else rest)
      ∧ (if rest.headD 0 = 48 then pre.length + 1 else pre.length) = (pre ++ flag).length := by
    by_cases hzero : rest.headD 0 = 48
    · cases rest with
      | nil => exact absurd hzero (by decide)
      | cons c rest => exact ⟨[c], by rw [if_pos hzero]; rfl, by rw [if_pos hzero]; simp⟩
    · exact ⟨[], by rw [if_neg hzero]; rfl, by rw [if_neg hzero]; simp⟩
  obtain ⟨rest₁, hrest₁⟩ : ∃ rest₁, (if rest.headD 0 = 48 then rest.tail else rest) = rest₁ :=
    ⟨_, rfl⟩
  rw [hrest₁] at hflag
  rw [readDirective, fmtAt_append]
  simp only [hindex, scanDirective, hrest₁]
  have hfmt : pre ++ rest = (pre ++ flag) ++ rest₁ := by
    rw [List.append_assoc, ← hflag]
  have hnumber := readNumber_eq (pre ++ flag) rest₁
  rw [← hfmt] at hnumber
  rw [hnumber]
  -- the width
  have htake : rest₁ = copyNumber rest₁ ++ rest₁.drop (copyNumber rest₁).length := by
    have hprefix : copyNumber rest₁ <+: rest₁ := List.takeWhile_prefix _
    exact (List.prefix_iff_eq_append.mp hprefix).symm
  obtain ⟨used, hused, hkind⟩ := readKind_eq (pre ++ flag ++ copyNumber rest₁)
    (rest₁.drop (copyNumber rest₁).length)
  rw [List.append_assoc, ← htake, ← hfmt, List.length_append] at hkind
  refine ⟨flag ++ copyNumber rest₁ ++ used, ?_, ?_⟩
  · rw [List.append_assoc, ← hused, List.append_assoc, ← htake]
    exact hflag
  · by_cases hlong : 16 ≤ (copyNumber rest₁).length
    · rw [if_pos hlong, if_pos hlong]
    · rw [if_neg hlong, if_neg hlong]
      simp only [hkind]
      rw [List.length_append, List.length_append, List.length_append]
      simp only [Nat.add_assoc]

/-- **The loop reads the format from one end to the other.** The index stays in the format: what is
left of it decides what happens. -/
theorem printLoop_eq (fuel : Nat) : ∀ (pre rest : List UInt8) (args : List Arg) (size : BitVec 32),
    printLoop (pre ++ rest) fuel pre.length args size = scanLoop fuel rest args size := by
  induction fuel with
  | zero => exact fun _ _ _ _ => rfl
  | succ fuel ih =>
      intro pre rest args size
      rw [printLoop, fmtAt_append]
      cases rest with
      | nil => rfl
      | cons c rest =>
          have hnext : ∀ size, printLoop (pre ++ c :: rest) fuel (pre.length + 1) args size
              = scanLoop fuel rest args size := by
            intro size
            have h := ih (pre ++ [c]) rest args size
            rwa [List.append_assoc, List.length_append] at h
          simp only [List.headD_cons, scanLoop, fmtAt_next]
          by_cases hnul : c = 0
          · rw [if_pos hnul, if_pos hnul]
          · rw [if_neg hnul, if_neg hnul]
            by_cases hpercent : c = 37
            · rw [if_pos hpercent]
              -- `readDirective` ends where the scanner of the list does
              by_cases hdirective : rest.headD 0 ≠ 37
              · obtain ⟨used, hused, hread⟩ := readDirective_eq (pre ++ [c]) rest
                rw [List.append_assoc, List.length_append, List.length_singleton] at hread
                simp only [if_pos hdirective, if_pos (And.intro hpercent hdirective)]
                rw [List.singleton_append] at hread
                rw [hread]
                by_cases hlong : 16 ≤ (scanDirective rest).1.number.length
                · rw [if_pos hlong, if_pos hlong]
                · rw [if_neg hlong, if_neg hlong]
                  simp only
                  cases perform (scanDirective rest).1 args with
                  | error e => rfl
                  | ok out =>
                      have h := ih (pre ++ [c] ++ used) (scanDirective rest).2 out.2
                        (size + eventsSize out.1)
                      rw [List.append_assoc, List.append_assoc, ← hused, List.length_append,
                        List.length_append, List.length_singleton, List.singleton_append] at h
                      simp only [h]
              · simp only [if_neg hdirective, if_neg fun h : c = 37 ∧ _ => hdirective h.2, hnext]
            · rw [if_neg hpercent, if_neg fun h => hpercent h.1]
              simp only [ne_eq, not_true_eq_false, if_false, hnext]

end Scanner

end Windozz.Kernel.Debug

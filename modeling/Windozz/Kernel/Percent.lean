import Mathlib.Data.List.TakeWhile
import Windozz.Kernel.Debug

set_option autoImplicit false

/-! # Formats of `debug_vprintf`

What a run of `debug_vprintf` prints is decided by the pieces that its scanner finds in the format
and by the arguments (`debugVprintf_eq`). The format itself has another reading, in which `%%` is
one piece. The scanner goes over the first `%` of it only: where the second one is followed by a
percent, a digit or the letters of a conversion, it starts a conversion.
-/

namespace Windozz.Kernel.Debug

/-! ## Pieces -/

/-- A character that is printed, or what stands behind a percent. -/
inductive Piece where
  | char (c : UInt8)
  | directive (d : Directive)

section Directives

variable (rest : List UInt8)

/-- The switch, the letters that it goes over, and what is left. -/
theorem scanKind_used : ∃ used, rest = used ++ (scanKind rest).2 ∧ (∀ c ∈ used, c ≠ 0 ∧ c ≠ 37) ∧
    (used = [] ↔ rest.headD 0 ≠ 108 ∧ shortKind (rest.headD 0) = none) ∧
    (used = [] → (scanKind rest).1 = none) := by
  have hshort : ∀ c kind, shortKind c = some kind → c ≠ 0 ∧ c ≠ 37 := by
    intro c kind hc
    constructor <;> rintro rfl <;> exact absurd hc (by simp [shortKind])
  have hlong : ∀ c kind, longKind c = some kind → c ≠ 0 ∧ c ≠ 37 := by
    intro c kind hc
    constructor <;> rintro rfl <;> exact absurd hc (by simp [longKind])
  cases rest with
  | nil => exact ⟨[], rfl, by simp, by simp [shortKind], fun _ => rfl⟩
  | cons c rest =>
      simp only [scanKind.eq_def (c :: rest), List.headD_cons]
      -- an `l` is gone over even where no letter that goes with it follows
      by_cases hl : c = 108
      · rw [if_pos hl]
        cases rest with
        | nil => exact ⟨[c], rfl, by simp [hl], by simp [hl], by simp⟩
        | cons c' rest =>
            simp only
            cases hkind : longKind c' with
            | some kind =>
                refine ⟨[c, c'], rfl, ?_, by simp [hl], by simp⟩
                intro d hd
                rcases List.mem_pair.mp hd with rfl | rfl
                · rw [hl]
                  decide
                · exact hlong _ kind hkind
            | none => exact ⟨[c], rfl, by simp [hl], by simp [hl], by simp⟩
      · rw [if_neg hl]
        cases hkind : shortKind c with
        | some kind =>
            refine ⟨[c], rfl, ?_, by simp, by simp⟩
            intro d hd
            rw [List.mem_singleton.mp hd]
            exact hshort c kind hkind
        | none => exact ⟨[], rfl, by simp, by simp [hl], fun _ => rfl⟩

/-- The characters that the scanner takes for a part of a conversion. -/
def swallowed (c : UInt8) : Bool := isDigit c || c = 108 || (shortKind c).isSome

theorem swallowed_eq_false {c : UInt8} :
    swallowed c = false ↔ isDigit c = false ∧ c ≠ 108 ∧ shortKind c = none := by
  simp [swallowed, and_assoc]

theorem isDigit_ne {c : UInt8} (hc : isDigit c = true) : c ≠ 0 ∧ c ≠ 37 := by
  constructor <;> rintro rfl <;> exact absurd hc (by decide)

theorem copyNumber_digits : ∀ c ∈ copyNumber rest, isDigit c = true :=
  fun _ hc => List.mem_takeWhile_imp hc

/-- The characters behind a percent that the scanner goes over. -/
theorem scanDirective_used : ∃ used, rest = used ++ (scanDirective rest).2 ∧
    (∀ c ∈ used, c ≠ 0 ∧ c ≠ 37) ∧ (used = [] ↔ swallowed (rest.headD 0) = false) ∧
    (used = [] → (scanDirective rest).1.kind = none) := by
  have hsplit : ∀ r : List UInt8, r = copyNumber r ++ r.drop (copyNumber r).length := by
    intro r
    have hprefix : copyNumber r <+: r := List.takeWhile_prefix _
    exact (List.prefix_iff_eq_append.mp hprefix).symm
  -- a zero in front is the padding character, and the width starts behind it
  by_cases hzero : rest.headD 0 = 48
  · obtain ⟨r, rfl⟩ : ∃ r, rest = 48 :: r := by
      cases rest with
      | nil => exact absurd hzero (by decide)
      | cons c r => exact ⟨r, by rw [show c = 48 from hzero]⟩
    obtain ⟨used, hused, hne, -, -⟩ := scanKind_used (r.drop (copyNumber r).length)
    refine ⟨48 :: (copyNumber r ++ used), ?_, ?_, by simp [swallowed, isDigit], by simp⟩
    · rw [List.cons_append, List.append_assoc]
      congr 1
      have htwo := hsplit r
      rw [hused] at htwo
      exact htwo
    · intro c hc
      rcases List.mem_cons.mp hc with rfl | hc
      · decide
      · rcases List.mem_append.mp hc with hc | hc
        · exact isDigit_ne (copyNumber_digits r c hc)
        · exact hne c hc
  · obtain ⟨used, hused, hne, hnil, hkind⟩ := scanKind_used (rest.drop (copyNumber rest).length)
    have hscan : (scanDirective rest).2 = (scanKind (rest.drop (copyNumber rest).length)).2 ∧
        (scanDirective rest).1.kind = (scanKind (rest.drop (copyNumber rest).length)).1 := by
      simp only [scanDirective, if_neg hzero, and_self]
    rw [hscan.1, hscan.2]
    refine ⟨copyNumber rest ++ used, ?_, ?_, ?_, ?_⟩
    · have htwo := hsplit rest
      rw [hused] at htwo
      rwa [List.append_assoc]
    · intro c hc
      rcases List.mem_append.mp hc with hc | hc
      · exact isDigit_ne (copyNumber_digits rest c hc)
      · exact hne c hc
    · -- without digits, the switch is at the first character
      rw [List.append_eq_nil_iff, hnil, swallowed_eq_false]
      by_cases hdigit : isDigit (rest.headD 0) = true
      · have hsome : copyNumber rest ≠ [] := by
          cases rest with
          | nil => exact absurd hdigit (by decide)
          | cons c r =>
              have htake : copyNumber (c :: r) = c :: copyNumber r :=
                List.takeWhile_cons_of_pos hdigit
              rw [htake]
              exact List.cons_ne_nil _ _
        constructor
        · exact fun hnone => absurd hnone.1 hsome
        · exact fun hnone => absurd (hdigit.symm.trans hnone.1) (by decide)
      · have hnone : copyNumber rest = [] := by
          cases rest with
          | nil => rfl
          | cons c r => exact List.takeWhile_cons_of_neg hdigit
        rw [hnone, List.length_nil, List.drop_zero]
        constructor
        · exact fun hkind => ⟨Bool.not_eq_true _ ▸ hdigit, hkind.2⟩
        · exact fun hkind => ⟨rfl, hkind.2⟩
    · intro happ
      exact hkind (List.append_eq_nil_iff.mp happ).2

theorem scanDirective_length : (scanDirective rest).2.length ≤ rest.length := by
  obtain ⟨used, hused, -⟩ := scanDirective_used rest
  conv_rhs => rw [hused]
  rw [List.length_append]
  omega

end Directives

/-- The pieces that the scanner finds. -/
def scanned : List UInt8 → List Piece
  | [] => []
  | c :: rest =>
      if c = 0 then []
      else if c = 37 ∧ rest.headD 0 ≠ 37 then
        .directive (scanDirective rest).1 :: scanned (scanDirective rest).2
      else .char c :: scanned rest
termination_by rest => rest.length
decreasing_by
  · exact Nat.lt_succ_of_le (scanDirective_length rest)
  · exact Nat.lt_succ_self _

/-- The pieces of a format. -/
def pieces : List UInt8 → List Piece
  | [] => []
  | c :: rest =>
      if c = 0 then []
      else if c = 37 then
        if rest.headD 0 = 37 then .char 37 :: pieces rest.tail
        else .directive (scanDirective rest).1 :: pieces (scanDirective rest).2
      else .char c :: pieces rest
termination_by rest => rest.length
decreasing_by
  · rw [List.length_tail, List.length_cons]
    omega
  · exact Nat.lt_succ_of_le (scanDirective_length rest)
  · exact Nat.lt_succ_self _

/-- No `%%` stands in front of a percent or of what may be a part of a conversion. -/
def percentsAlone : List UInt8 → Bool
  | [] => true
  | c :: rest =>
      if c = 0 then true
      else if c = 37 then
        if rest.headD 0 = 37 then
          decide (rest.tail.headD 0 ≠ 37) && !swallowed (rest.tail.headD 0) &&
            percentsAlone rest.tail
        else percentsAlone (scanDirective rest).2
      else percentsAlone rest
termination_by rest => rest.length
decreasing_by
  · rw [List.length_tail, List.length_cons]
    omega
  · exact Nat.lt_succ_of_le (scanDirective_length rest)
  · exact Nat.lt_succ_self _

/-! ## Runs over pieces -/

/-- Whether an argument is of the type that a conversion takes. -/
def fits : Kind → Arg → Bool
  | .c, .int _ | .s, .string _ | .d, .int _ | .x, .int _ | .X, .int _ => true
  | .ld, .long _ | .lx, .long _ | .lX, .long _ => true
  | _, _ => false

/-- A negative 64-bit number. -/
def Arg.negative : Arg → Bool
  | .long n => n.toInt < 0
  | _ => false

/-- Whether `pad` stores behind the end of `padded_buffer`. -/
def overruns (d : Directive) (kind : Kind) (a : Arg) : Bool :=
  match kind with
  | .c | .s => false
  | .ld => 96 ≤ d.padSpaces || d.padSpaces = 95 && a.negative
  | _ => 96 ≤ d.padSpaces

/-- The conversions among the pieces. -/
def conversions : List Piece → List (Directive × Kind)
  | [] => []
  | .char _ :: ps => conversions ps
  | .directive d :: ps =>
      match d.kind with
      | none => conversions ps
      | some kind => (d, kind) :: conversions ps

theorem mem_conversions {d : Directive} {kind : Kind} {ps : List Piece}
    (h : (d, kind) ∈ conversions ps) : .directive d ∈ ps := by
  induction ps with
  | nil => cases h
  | cons p ps ih =>
      cases p with
      | char c => exact List.mem_cons_of_mem _ (ih h)
      | directive d' =>
          rw [conversions] at h
          cases hkind : d'.kind with
          | none =>
              rw [hkind] at h
              exact List.mem_cons_of_mem _ (ih h)
          | some kind' =>
              rw [hkind] at h
              rcases List.mem_cons.mp h with h | h
              · cases h
                exact List.mem_cons_self
              · exact List.mem_cons_of_mem _ (ih h)

/-- Whether the arguments start with one of the right type for each conversion. -/
def supplied : List (Directive × Kind) → List Arg → Bool
  | [], _ => true
  | _ :: _, [] => false
  | (_, kind) :: cs, a :: args => fits kind a && supplied cs args

/-- The loop over the pieces: what is printed, and the arguments that are left. -/
def play : List Piece → List Arg → Except Fault (List Event × List Arg)
  | [], args => .ok ([], args)
  | .char c :: ps, args => (play ps args).map fun out => (.char c :: out.1, out.2)
  | .directive d :: ps, args =>
      if 16 ≤ d.number.length then .error .number
      else
        match perform d args with
        | .error e => .error e
        | .ok (events, args) => (play ps args).map fun out => (events ++ out.1, out.2)

theorem map_eq_ok {α β : Type} {f : α → β} {x : Except Fault α} {y : β} (h : x.map f = .ok y) :
    ∃ a, x = .ok a ∧ y = f a := by
  cases x with
  | error e => cases h
  | ok a => exact ⟨a, rfl, (Except.ok.inj h).symm⟩

theorem map_eq_error {α β : Type} {f : α → β} {x : Except Fault α} {e : Fault}
    (h : x.map f = .error e) : x = .error e := by
  cases x with
  | error e' => exact congrArg Except.error (Except.error.inj h)
  | ok a => cases h

theorem map_ok_iff {α β : Type} {f : α → β} {x : Except Fault α} :
    (∃ y, x.map f = .ok y) ↔ ∃ a, x = .ok a := by
  cases x with
  | error e => exact iff_of_false (by simp [Except.map]) (by simp)
  | ok a => exact iff_of_true ⟨_, rfl⟩ ⟨_, rfl⟩

/-- A conversion that ends well has taken one argument, an unknown one none. -/
theorem perform_ok {d : Directive} {args left : List Arg} {es : List Event}
    (h : perform d args = .ok (es, left)) :
    (d.kind = none ∧ es = [] ∧ left = args) ∨ ∃ kind a text, d.kind = some kind ∧
      args = a :: left ∧ convert d kind a = .ok text ∧ es = [.conversion kind a text] := by
  rw [perform] at h
  cases hkind : d.kind with
  | none =>
      rw [hkind] at h
      cases h
      exact .inl ⟨rfl, rfl, rfl⟩
  | some kind =>
      rw [hkind] at h
      cases args with
      | nil => cases h
      | cons a args =>
          simp only at h
          cases htext : convert d kind a with
          | error e =>
              rw [htext] at h
              cases h
          | ok text =>
              rw [htext] at h
              cases h
              exact .inr ⟨kind, a, text, rfl, rfl, htext, rfl⟩

/-- What stands behind a percent, and the rest of a run that ends well. -/
theorem play_directive_ok {d : Directive} {ps : List Piece} {args : List Arg}
    {out : List Event × List Arg} (h : play (.directive d :: ps) args = .ok out) :
    ∃ es left rest, perform d args = .ok (es, left) ∧ play ps left = .ok rest ∧
      out = (es ++ rest.1, rest.2) := by
  rw [play] at h
  split at h
  · cases h
  · cases hperform : perform d args with
    | error e =>
        rw [hperform] at h
        cases h
    | ok taken =>
        rw [hperform] at h
        obtain ⟨rest, hrest, hout⟩ := map_eq_ok h
        exact ⟨taken.1, taken.2, rest, rfl, hrest, hout⟩

/-- What a run returns, from what it has printed. -/
def Printed.of (size : BitVec 32) (out : List Event × List Arg) : Printed :=
  ⟨out.1, out.2, size + eventsSize out.1⟩

theorem eventsSize_append (es₁ es₂ : List Event) :
    eventsSize (es₁ ++ es₂) = eventsSize es₁ + eventsSize es₂ := by
  rw [eventsSize, List.flatMap_append, List.length_append, BitVec.ofNat_add]
  rfl

theorem after_of (es : List Event) (size : BitVec 32) (out : List Event × List Arg) :
    (Printed.of (size + eventsSize es) out).after es = Printed.of size (es ++ out.1, out.2) := by
  rw [Printed.of, Printed.after, Printed.of, eventsSize_append, ← BitVec.add_assoc]

/-- What is left of a format is gone over piece by piece. -/
theorem scanLoop_play (fuel : Nat) : ∀ (rest : List UInt8) (args : List Arg) (size : BitVec 32),
    rest.length < fuel →
      scanLoop fuel rest args size = (play (scanned rest) args).map (Printed.of size) := by
  have hzero : ∀ size : BitVec 32, size + eventsSize [] = size := fun size => by simp [eventsSize]
  induction fuel with
  | zero => exact fun _ _ _ hfuel => absurd hfuel (Nat.not_lt_zero _)
  | succ fuel ih =>
      intro rest args size hfuel
      cases rest with
      | nil => simp [scanLoop, scanned, play, Printed.of, hzero, Except.map]
      | cons c rest =>
          rw [List.length_cons, Nat.succ_lt_succ_iff] at hfuel
          rw [scanLoop, scanned]
          by_cases hnul : c = 0
          · rw [if_pos hnul, if_pos hnul]
            simp [play, Printed.of, hzero, Except.map]
          · rw [if_neg hnul, if_neg hnul]
            -- a `%` in front of another one is printed, and the second one is looked at next
            by_cases hpercent : c = 37 ∧ rest.headD 0 ≠ 37
            · rw [if_pos hpercent, if_pos hpercent, play]
              by_cases hlong : 16 ≤ (scanDirective rest).1.number.length
              · rw [if_pos hlong, if_pos hlong]
                rfl
              · rw [if_neg hlong, if_neg hlong]
                cases perform (scanDirective rest).1 args with
                | error e => rfl
                | ok out =>
                    have hless := scanDirective_length rest
                    simp only
                    rw [ih _ _ _ (by omega)]
                    cases play (scanned (scanDirective rest).2) out.2 with
                    | error e => rfl
                    | ok rest => exact congrArg Except.ok (after_of _ _ _)
            · rw [if_neg hpercent, if_neg hpercent, play, ih _ _ _ hfuel]
              cases play (scanned rest) args with
              | error e => rfl
              | ok out => exact congrArg Except.ok (after_of [.char c] size out)

/-- **`debug_vprintf` goes over the pieces that the scanner finds.** It reads nothing behind the NUL
of the format, and comes to an end. -/
theorem debugVprintf_eq (level : Int) (timer_ticks : BitVec 64) (module : Option (List UInt8))
    (fmt : List UInt8) (args : List Arg) : ∃ text,
    debugVprintf level timer_ticks module fmt args
      = (play (scanned fmt) args).map fun out => (text, Printed.of 0 out) := by
  obtain ⟨text, htext⟩ := prefixText_ok level timer_ticks module
  refine ⟨text, ?_⟩
  have hloop := printLoop_eq (fmt.length + 1) [] fmt args 0
  rw [List.nil_append, List.length_nil] at hloop
  rw [debugVprintf, htext]
  simp only
  rw [hloop, scanLoop_play _ _ _ _ (Nat.lt_succ_self _)]
  cases play (scanned fmt) args with
  | error e => rfl
  | ok out => rfl

/-! ## Faults -/

/-- Only the numeral of a negative number in radix 10 has a sign. -/
theorem longNumeral_sign {radix : Nat} (h2 : 2 ≤ radix) (h36 : radix ≤ 36) (num : BitVec 64) :
    (longNumeral num radix).head? = some 45 ↔ num.toInt < 0 ∧ radix = DECIMAL := by
  have hdigit : ∀ d < 36, digitChar d ≠ 45 := by decide
  rw [longNumeral]
  by_cases hneg : num.toInt < 0 ∧ radix = DECIMAL
  · rw [if_pos hneg]
    exact iff_of_true rfl hneg
  · rw [if_neg hneg]
    refine iff_of_false ?_ hneg
    intro hhead
    obtain ⟨d, hd, hsign⟩ := List.mem_map.mp (List.mem_reverse.mp (List.mem_of_mem_head? hhead))
    exact hdigit d ((lowDigits_lt h2 hd).trans_le h36) hsign

/-- The numbers that do not fit in `padded_buffer`. -/
theorem padEnd_numeral {radix : Nat} (h2 : 2 ≤ radix) (h36 : radix ≤ 36) (num : BitVec 64)
    (n : Nat) : 96 < padEnd (longNumeral num radix) n ↔
      96 ≤ n ∨ n = 95 ∧ num.toInt < 0 ∧ radix = DECIMAL := by
  have hlen := longNumeral_length h2 num
  rw [padEnd]
  by_cases hwide : n ≤ (longNumeral num radix).length
  · rw [if_pos hwide]
    omega
  · rw [if_neg hwide]
    have hsign := longNumeral_sign h2 h36 num
    -- a sign goes in front of the padding and takes one place more
    by_cases hhead : (longNumeral num radix).head? ≠ some 45
    · rw [if_pos hhead]
      have hpos := hhead ∘ hsign.mpr
      constructor
      · exact fun h => .inl (by omega)
      · rintro (h | ⟨-, h⟩)
        · omega
        · exact absurd h hpos
    · rw [if_neg hhead]
      have hneg := hsign.mp (not_not.mp hhead)
      constructor
      · intro h
        by_cases h96 : 96 ≤ n
        · exact .inl h96
        · exact .inr ⟨by omega, hneg⟩
      · rintro (h | ⟨h, -⟩) <;> omega

/-- The number that `itoa` hands to `ltoa` is never negative. -/
theorem itoa_mask (n : BitVec 32) : n.signExtend 64 &&& 0xFFFFFFFF = n.setWidth 64 := by
  have hmask : (0xFFFFFFFF : BitVec 64) = (BitVec.allOnes 32).setWidth 64 := rfl
  rw [hmask]
  ext i hi
  rw [BitVec.getElem_and, BitVec.getElem_setWidth, BitVec.getElem_setWidth,
    BitVec.getElem_signExtend, BitVec.getLsbD_allOnes]
  by_cases hlow : i < 32
  · simp [hlow]
  · simp [hlow, BitVec.getLsbD_of_ge n i (by omega)]

theorem itoa_eq (n : BitVec 32) (buffer : Mem) (base : Nat) :
    itoa n buffer base = ltoa (n.setWidth 64) buffer base := by
  rw [itoa, itoa_mask]

theorem itoa_toInt (n : BitVec 32) : (n.setWidth 64).toInt = n.toNat := by
  have hnat : (n.setWidth 64).toNat = n.toNat := by
    rw [BitVec.toNat_setWidth, Nat.mod_eq_of_lt (n.isLt.trans (by decide))]
  rw [BitVec.toInt_eq_toNat_of_lt (by rw [hnat]; have := n.isLt; omega), hnat]

/-- The bytes that the scanner puts in a directive. -/
structure Directive.Scanned (d : Directive) : Prop where
  pads : d.pad_character ≠ 0
  digits : ∀ c ∈ d.number, isDigit c = true

theorem scanDirective_scanned (rest : List UInt8) : (scanDirective rest).1.Scanned := by
  refine ⟨?_, copyNumber_digits _⟩
  simp only [scanDirective]
  split <;> decide

theorem scanned_scanned (rest : List UInt8) : ∀ d, .directive d ∈ scanned rest → d.Scanned := by
  induction rest using scanned.induct with
  | case1 => simp [scanned]
  | case2 rest => simp [scanned]
  | case3 c rest hnul hpercent ih =>
      intro d hd
      rw [scanned, if_neg hnul, if_pos hpercent] at hd
      rcases List.mem_cons.mp hd with hd | hd
      · cases hd
        exact scanDirective_scanned rest
      · exact ih d hd
  | case4 c rest hnul hpercent ih =>
      intro d hd
      rw [scanned, if_neg hnul, if_neg hpercent] at hd
      rcases List.mem_cons.mp hd with hd | hd
      · cases hd
      · exact ih d hd

section Convert

variable {d : Directive} (hpads : d.pad_character ≠ 0)
include hpads

/-- A number is printed, unless `pad` stores behind the end of the buffer. -/
theorem numberText_cases (num : BitVec 64) {radix : Nat} (h2 : 2 ≤ radix) (h36 : radix ≤ 36)
    (letters : List UInt8 → List UInt8) {tooLong : Bool}
    (hover : tooLong = true ↔ 96 ≤ d.padSpaces ∨ d.padSpaces = 95 ∧ num.toInt < 0 ∧ radix = DECIMAL) :
    if tooLong then numberText (ltoa num integerBuffer radix) d.padSpaces d.pad_character letters
        = .error .padded_buffer
    else ∃ text, numberText (ltoa num integerBuffer radix) d.padSpaces d.pad_character letters
        = .ok text := by
  rw [numberText_eq num h2 h36 _ hpads]
  by_cases hend : 96 < padEnd (longNumeral num radix) d.padSpaces
  · rw [if_pos (hover.mpr ((padEnd_numeral h2 h36 num _).mp hend)), if_pos hend]
  · rw [if_neg fun h => hend ((padEnd_numeral h2 h36 num _).mpr (hover.mp h)), if_neg hend]
    exact ⟨_, rfl⟩

/-- What a conversion does with an argument. -/
theorem convert_cases (kind : Kind) (a : Arg) :
    if fits kind a then
      if overruns d kind a then convert d kind a = .error .padded_buffer
      else ∃ text, convert d kind a = .ok text
    else convert d kind a = .error .argument := by
  have hpos : ∀ (n : BitVec 32) (radix : Nat), decide (96 ≤ d.padSpaces) = true ↔
      96 ≤ d.padSpaces ∨ d.padSpaces = 95 ∧ (n.setWidth 64).toInt < 0 ∧ radix = DECIMAL := by
    intro n radix
    rw [itoa_toInt, decide_eq_true_iff]
    omega
  -- every other pair is an argument of a type that the conversion does not take
  cases kind <;> cases a <;>
    simp only [fits, overruns, convert, itoa_eq, if_true, Bool.false_eq_true, if_false]
  case c.int n => exact ⟨_, rfl⟩
  case s.string s => exact ⟨_, rfl⟩
  case d.int n => exact numberText_cases hpads _ (by decide) (by decide) _ (hpos n _)
  case x.int n => exact numberText_cases hpads _ (by decide) (by decide) _ (hpos n _)
  case X.int n => exact numberText_cases hpads _ (by decide) (by decide) _ (hpos n _)
  case ld.long n =>
      exact numberText_cases hpads _ (by decide) (by decide) _ (by simp [Arg.negative])
  case lx.long n =>
      exact numberText_cases hpads _ (by decide) (by decide) _ (by simp [HEX, DECIMAL])
  case lX.long n =>
      exact numberText_cases hpads _ (by decide) (by decide) _ (by simp [HEX, DECIMAL])

theorem perform_fault {args : List Arg} {fault : Fault} (h : perform d args = .error fault) :
    fault = .argument ∨ fault = .padded_buffer := by
  rw [perform] at h
  cases hkind : d.kind with
  | none =>
      rw [hkind] at h
      cases h
  | some kind =>
      rw [hkind] at h
      cases args with
      | nil =>
          cases h
          exact .inl rfl
      | cons a args =>
          have hcases := convert_cases hpads kind a
          simp only at h
          split at hcases
          · split at hcases
            · rw [hcases] at h
              cases h
              exact .inr rfl
            · obtain ⟨text, htext⟩ := hcases
              rw [htext] at h
              cases h
          · rw [hcases] at h
            cases h
            exact .inl rfl

end Convert

/-- A run over the pieces ends well if every width is short enough for `number`, the arguments are
of the types that the conversions take, and the texts fit in `padded_buffer`. -/
theorem play_ok_iff : ∀ {ps : List Piece} {args : List Arg},
    (∀ d, .directive d ∈ ps → d.Scanned) →
      ((∃ out, play ps args = .ok out) ↔
        (∀ d, .directive d ∈ ps → d.number.length ≤ 15) ∧ supplied (conversions ps) args = true ∧
          ∀ x ∈ (conversions ps).zip args, overruns x.1.1 x.1.2 x.2 = false) := by
  intro ps
  induction ps with
  | nil =>
      intro args hscanned
      exact iff_of_true ⟨_, rfl⟩ ⟨by simp, rfl, by simp [conversions]⟩
  | cons p ps ih =>
      intro args hscanned
      have hrest : ∀ d, .directive d ∈ ps → d.Scanned :=
        fun d hd => hscanned d (List.mem_cons_of_mem _ hd)
      cases p with
      | char c =>
          rw [play, map_ok_iff, ih hrest, conversions]
          simp
      | directive d =>
          rw [play]
          -- the width is stored before the argument is looked at
          by_cases hlong : 16 ≤ d.number.length
          · rw [if_pos hlong]
            refine iff_of_false (by simp) fun h => ?_
            have := h.1 d List.mem_cons_self
            omega
          · have hshort : (∀ d', .directive d' ∈ Piece.directive d :: ps → d'.number.length ≤ 15) ↔
                ∀ d', .directive d' ∈ ps → d'.number.length ≤ 15 := by
              simp only [List.mem_cons, Piece.directive.injEq, forall_eq_or_imp]
              exact and_iff_right (by omega)
            rw [if_neg hlong, hshort]
            cases hkind : d.kind with
            | none =>
                simp only [perform, hkind, conversions]
                rw [map_ok_iff, ih hrest]
            | some kind =>
                simp only [perform, hkind, conversions]
                cases args with
                | nil => exact iff_of_false (by simp) (by simp [supplied])
                | cons a args =>
                    have hcases := convert_cases (hscanned d List.mem_cons_self).pads kind a
                    simp only [supplied, List.zip_cons_cons, List.forall_mem_cons]
                    by_cases hfits : fits kind a = true
                    · rw [if_pos hfits] at hcases
                      by_cases hover : overruns d kind a = true
                      · rw [if_pos hover] at hcases
                        rw [hcases]
                        exact iff_of_false (by simp) (by simp [hover])
                      · rw [if_neg hover] at hcases
                        obtain ⟨text, htext⟩ := hcases
                        rw [htext]
                        simp only
                        rw [map_ok_iff, ih hrest]
                        simp [hfits, hover]
                    · rw [if_neg hfits] at hcases
                      rw [hcases]
                      exact iff_of_false (by simp) (by simp [hfits])

/-- What goes wrong otherwise. -/
theorem play_fault {fault : Fault} : ∀ {ps : List Piece} {args : List Arg},
    (∀ d, .directive d ∈ ps → d.Scanned) → play ps args = .error fault →
      fault = .argument ∨ fault = .padded_buffer ∨
        fault = .number ∧ ∃ d, .directive d ∈ ps ∧ 16 ≤ d.number.length := by
  intro ps
  induction ps with
  | nil => exact fun _ hplay => by cases hplay
  | cons p ps ih =>
      intro args hscanned hplay
      have hrest : ∀ (f : List Event × List Arg → List Event × List Arg) (args : List Arg),
          (play ps args).map f = .error fault → fault = .argument ∨ fault = .padded_buffer ∨
            fault = .number ∧ ∃ d, .directive d ∈ p :: ps ∧ 16 ≤ d.number.length := by
        intro f args hmap
        rcases ih (fun d hd => hscanned d (List.mem_cons_of_mem _ hd)) (map_eq_error hmap) with
          hfault | hfault | ⟨hfault, d, hd, hlong⟩
        · exact .inl hfault
        · exact .inr (.inl hfault)
        · exact .inr (.inr ⟨hfault, d, List.mem_cons_of_mem _ hd, hlong⟩)
      cases p with
      | char c => exact hrest _ _ hplay
      | directive d =>
          rw [play] at hplay
          by_cases hlong : 16 ≤ d.number.length
          · rw [if_pos hlong] at hplay
            exact .inr (.inr ⟨(Except.error.inj hplay).symm, d, List.mem_cons_self, hlong⟩)
          · rw [if_neg hlong] at hplay
            cases hperform : perform d args with
            | error e =>
                rw [hperform] at hplay
                cases hplay
                exact (perform_fault (hscanned d List.mem_cons_self).pads hperform).imp_right .inl
            | ok out =>
                rw [hperform] at hplay
                exact hrest _ _ hplay

/-- What `pad` takes the width for: `atoi` wraps it around at 32 bits, and the half with the sign
becomes a huge `size_t`. -/
theorem padSpaces_eq {d : Directive} (hd : d.Scanned) : d.padSpaces =
    if digitsValue d.number % 2 ^ 32 < 2 ^ 31 then digitsValue d.number % 2 ^ 32
    else digitsValue d.number % 2 ^ 32 + (2 ^ 64 - 2 ^ 32) := by
  rw [Directive.padSpaces, atoi_digits hd.digits, BitVec.ofInt_natCast, BitVec.toNat_signExtend,
    BitVec.msb_eq_decide, BitVec.toNat_setWidth, BitVec.toNat_ofNat]
  have hlt : digitsValue d.number % 2 ^ 32 < 2 ^ 32 := Nat.mod_lt _ (by decide)
  rw [Nat.mod_eq_of_lt (hlt.trans (by decide))]
  by_cases hsign : digitsValue d.number % 2 ^ 32 < 2 ^ 31
  · rw [if_pos hsign]
    simpa using hsign
  · rw [if_neg hsign]
    simpa using hsign

/-- The widths for which `pad` stores behind the end of `padded_buffer`. -/
theorem overruns_iff {d : Directive} (hd : d.Scanned) (kind : Kind) (a : Arg) :
    overruns d kind a = true ↔ kind ≠ .c ∧ kind ≠ .s ∧ (96 ≤ digitsValue d.number % 2 ^ 32 ∨
      digitsValue d.number % 2 ^ 32 = 95 ∧ kind = .ld ∧ a.negative = true) := by
  have hpad := padSpaces_eq hd
  have hlong : 96 ≤ d.padSpaces ↔ 96 ≤ digitsValue d.number % 2 ^ 32 := by
    rw [hpad]
    split <;> omega
  have hlast : d.padSpaces = 95 ↔ digitsValue d.number % 2 ^ 32 = 95 := by
    rw [hpad]
    split <;> omega
  cases kind <;> simp [overruns, hlong, hlast]

/-! ## The value returned -/

section Runs

variable {level : Int} {timer_ticks : BitVec 64} {module : Option (List UInt8)}
  {fmt : List UInt8} {args : List Arg}

/-- The runs that end well. -/
theorem debugVprintf_ok_iff :
    (∃ text p, debugVprintf level timer_ticks module fmt args = .ok (text, p)) ↔
      (∀ d, .directive d ∈ scanned fmt → d.number.length ≤ 15) ∧
        supplied (conversions (scanned fmt)) args = true ∧
          ∀ x ∈ (conversions (scanned fmt)).zip args, overruns x.1.1 x.1.2 x.2 = false := by
  obtain ⟨text, hrun⟩ := debugVprintf_eq level timer_ticks module fmt args
  rw [← play_ok_iff (scanned_scanned fmt), hrun]
  constructor
  · rintro ⟨_, _, hok⟩
    exact map_ok_iff.mp ⟨_, hok⟩
  · rintro ⟨out, hplay⟩
    rw [hplay]
    exact ⟨text, Printed.of 0 out, rfl⟩

/-- A run that ends well has gone over the pieces. -/
theorem debugVprintf_ok {text : List UInt8} {p : Printed}
    (h : debugVprintf level timer_ticks module fmt args = .ok (text, p)) :
    play (scanned fmt) args = .ok (p.events, p.args) ∧ p.size = eventsSize p.events := by
  obtain ⟨text, hrun⟩ := debugVprintf_eq level timer_ticks module fmt args
  rw [hrun] at h
  obtain ⟨out, hplay, hout⟩ := map_eq_ok h
  cases hout
  exact ⟨hplay, BitVec.zero_add _⟩

end Runs

/-- **`debug_vprintf` reads nothing behind the NUL and comes to an end.** It returns the number of
characters that it has printed unless the scanner takes a run of 16 digits or more for a width, an
argument is not there, or `pad` stores behind the end of `padded_buffer`: for a number with a width
of 96 or more, and for a negative `%ld` with the width 95. -/
theorem debugVprintf_returns_iff (level : Int) (timer_ticks : BitVec 64)
    (module : Option (List UInt8)) (fmt : List UInt8) (args : List Arg) :
    (∀ fault, debugVprintf level timer_ticks module fmt args = .error fault →
        fault = .argument ∨ fault = .padded_buffer ∨
          fault = .number ∧ ∃ d, .directive d ∈ scanned fmt ∧ 16 ≤ d.number.length) ∧
      ((∃ text p, debugVprintf level timer_ticks module fmt args = .ok (text, p) ∧
          p.size = BitVec.ofNat 32 (p.events.flatMap Event.text).length) ↔
        (∀ d, .directive d ∈ scanned fmt → d.number.length ≤ 15) ∧
          supplied (conversions (scanned fmt)) args = true ∧
          ∀ x ∈ (conversions (scanned fmt)).zip args,
            ¬ (x.1.2 ≠ .c ∧ x.1.2 ≠ .s ∧ (96 ≤ digitsValue x.1.1.number % 2 ^ 32 ∨
              digitsValue x.1.1.number % 2 ^ 32 = 95 ∧ x.1.2 = .ld ∧ x.2.negative = true))) := by
  have hscanned := scanned_scanned fmt
  have hmem : ∀ x ∈ (conversions (scanned fmt)).zip args,
      (overruns x.1.1 x.1.2 x.2 = false ↔
        ¬ (x.1.2 ≠ .c ∧ x.1.2 ≠ .s ∧ (96 ≤ digitsValue x.1.1.number % 2 ^ 32 ∨
          digitsValue x.1.1.number % 2 ^ 32 = 95 ∧ x.1.2 = .ld ∧ x.2.negative = true))) := by
    intro x hx
    rw [← overruns_iff (hscanned _ (mem_conversions (List.of_mem_zip hx).1)), Bool.not_eq_true]
  constructor
  · intro fault hfault
    obtain ⟨text, hrun⟩ := debugVprintf_eq level timer_ticks module fmt args
    rw [hrun] at hfault
    exact play_fault hscanned (map_eq_error hfault)
  · constructor
    · rintro ⟨text, p, hok, -⟩
      obtain ⟨hshort, hsupplied, hfit⟩ := debugVprintf_ok_iff.mp ⟨text, p, hok⟩
      exact ⟨hshort, hsupplied, fun x hx => (hmem x hx).mp (hfit x hx)⟩
    · rintro ⟨hshort, hsupplied, hfit⟩
      obtain ⟨text, p, hok⟩ := debugVprintf_ok_iff.mpr
        ⟨hshort, hsupplied, fun x hx => (hmem x hx).mpr (hfit x hx)⟩
      exact ⟨text, p, hok, (debugVprintf_ok hok).2⟩

/-- `"%95ld"` with `-1`: the NUL is stored behind the end of `padded_buffer`. -/
theorem debugVprintf_overruns :
    (∀ d, .directive d ∈ scanned [37, 57, 53, 108, 100] →
        d.number.length ≤ 15 ∧ digitsValue d.number < 96) ∧
      supplied (conversions (scanned [37, 57, 53, 108, 100])) [.long (-1)] = true ∧
      ¬ ∃ text p, debugVprintf 1 0 none [37, 57, 53, 108, 100] [.long (-1)] = .ok (text, p) ∧
        p.size = BitVec.ofNat 32 (p.events.flatMap Event.text).length := by
  have hpieces : scanned [37, 57, 53, 108, 100] = [.directive ⟨32, [57, 53], some .ld⟩] := by
    simp [scanned, scanDirective, copyNumber, isDigit, scanKind, longKind]
  rw [hpieces]
  refine ⟨?_, rfl, ?_⟩
  · intro d hd
    rw [List.mem_singleton, Piece.directive.injEq] at hd
    rw [hd]
    decide
  · rintro ⟨text, p, hok, -⟩
    have hfit := (debugVprintf_ok_iff.mp ⟨text, p, hok⟩).2.2
    rw [hpieces] at hfit
    exact absurd (hfit ((⟨32, [57, 53], some .ld⟩, .ld), .long (-1)) List.mem_cons_self) (by decide)

/-! ## Percents -/

/-- What a piece asks for: a character, or an argument of a kind. -/
def Piece.asked : Piece → Option (UInt8 ⊕ Kind)
  | .char c => some (.inl c)
  | .directive d => d.kind.map .inr

/-- What has been asked for. -/
def Event.asked : Event → UInt8 ⊕ Kind
  | .char c => .inl c
  | .conversion kind _ _ => .inr kind

/-- The argument that has been taken. -/
def Event.arg : Event → Option Arg
  | .char _ => none
  | .conversion _ a _ => some a

/-- What is printed answers the pieces one by one, with the arguments in their order. -/
theorem play_asked : ∀ {ps : List Piece} {args : List Arg} {out : List Event × List Arg},
    play ps args = .ok out → out.1.map Event.asked = ps.filterMap Piece.asked ∧
      args = out.1.filterMap Event.arg ++ out.2 := by
  intro ps
  induction ps with
  | nil =>
      intro args out hplay
      cases hplay
      exact ⟨rfl, rfl⟩
  | cons p ps ih =>
      intro args out hplay
      cases p with
      | char c =>
          obtain ⟨rest, hrest, rfl⟩ := map_eq_ok hplay
          obtain ⟨hasked, hargs⟩ := ih hrest
          exact ⟨congrArg (List.cons _) hasked, hargs⟩
      | directive d =>
          obtain ⟨es, left, rest, hperform, hrest, rfl⟩ := play_directive_ok hplay
          obtain ⟨hasked, hargs⟩ := ih hrest
          rcases perform_ok hperform with ⟨hkind, rfl, rfl⟩ | ⟨kind, a, text, hkind, rfl, -, rfl⟩
          · -- nothing known stands behind the percent
            rw [List.filterMap_cons_none (by rw [Piece.asked, hkind]; rfl)]
            exact ⟨hasked, hargs⟩
          · rw [List.filterMap_cons_some (by rw [Piece.asked, hkind]; rfl)]
            exact ⟨congrArg (List.cons _) hasked, congrArg (List.cons a) hargs⟩

/-- What the scanner asks for, and what the format does. -/
def scannedAsks (fmt : List UInt8) : List (UInt8 ⊕ Kind) := (scanned fmt).filterMap Piece.asked
def asks (fmt : List UInt8) : List (UInt8 ⊕ Kind) := (pieces fmt).filterMap Piece.asked

/-- The percents, and the other characters. -/
def percents (l : List (UInt8 ⊕ Kind)) : Nat := l.countP fun x => x = .inl 37
def literals (l : List (UInt8 ⊕ Kind)) : Nat := l.countP fun x => x.isLeft && x ≠ .inl 37

/-- The scanner never prints fewer percents, or more of the other characters. -/
structure Drifts (s t : List (UInt8 ⊕ Kind)) : Prop where
  percents : percents t ≤ percents s
  literals : literals s ≤ literals t

/-- Two lists agree, or have drifted apart for good. -/
def Agree (same : Bool) (s t : List (UInt8 ⊕ Kind)) : Prop :=
  if same then s = t
  else Drifts s t ∧ (percents t < percents s ∨ literals s < literals t)

section Agreement

variable {same : Bool} {s t : List (UInt8 ⊕ Kind)}

theorem Agree.drifts (h : Agree same s t) : Drifts s t := by
  cases same with
  | true =>
      have heq : s = t := h
      rw [heq]
      exact ⟨le_refl _, le_refl _⟩
  | false => exact h.1

theorem Agree.eq_iff (h : Agree same s t) : s = t ↔ same = true := by
  cases same with
  | true => exact iff_of_true h rfl
  | false =>
      refine iff_of_false ?_ (by decide)
      rintro rfl
      rcases h.2 with h | h <;> exact absurd h (lt_irrefl _)

/-- Both print the same in front. -/
theorem Agree.append (h : Agree same s t) (l : List (UInt8 ⊕ Kind)) :
    Agree same (l ++ s) (l ++ t) := by
  cases same with
  | true => exact congrArg (l ++ ·) h
  | false =>
      obtain ⟨⟨hpercents, hliterals⟩, hstrict⟩ := h
      refine ⟨⟨?_, ?_⟩, ?_⟩
      all_goals simp only [percents, literals, List.countP_append] at *
      · omega
      · omega
      · omega

/-- A percent too many. -/
theorem Drifts.percent (h : Drifts s t) : Agree false (.inl 37 :: s) t := by
  obtain ⟨hpercents, hliterals⟩ := h
  have hone : Debug.percents (.inl 37 :: s) = Debug.percents s + 1 := by simp [Debug.percents]
  have hnone : Debug.literals (.inl 37 :: s) = Debug.literals s := by simp [Debug.literals]
  refine ⟨⟨?_, ?_⟩, .inl ?_⟩ <;> omega

/-- Arguments that are printed. -/
theorem Drifts.inr (h : Drifts s t) (kinds : List Kind) : Drifts (kinds.map .inr ++ s) t := by
  obtain ⟨hpercents, hliterals⟩ := h
  have hkinds : Debug.percents (kinds.map .inr ++ s) = Debug.percents s ∧
      Debug.literals (kinds.map .inr ++ s) = Debug.literals s := by
    simp [Debug.percents, Debug.literals]
  exact ⟨by omega, by omega⟩

/-- Characters that are not printed. -/
theorem Drifts.swallow (h : Drifts s t) {used : List UInt8} (hne : used ≠ [])
    (hused : ∀ c ∈ used, c ≠ 37) : Agree false s (used.map .inl ++ t) := by
  obtain ⟨hpercents, hliterals⟩ := h
  have hnone : Debug.percents (used.map .inl) = 0 := by
    refine List.countP_eq_zero.mpr fun x hx => ?_
    obtain ⟨c, hc, rfl⟩ := List.mem_map.mp hx
    simpa using hused c hc
  have hall : Debug.literals (used.map .inl) = used.length := by
    rw [← List.length_map (Sum.inl : UInt8 → UInt8 ⊕ Kind)]
    refine List.countP_eq_length.mpr fun x hx => ?_
    obtain ⟨c, hc, rfl⟩ := List.mem_map.mp hx
    simpa using hused c hc
  have hpos := List.length_pos_of_ne_nil hne
  have happ : Debug.percents (used.map .inl ++ t) = Debug.percents t := by
    rw [Debug.percents, List.countP_append]
    exact (congrArg (· + _) hnone).trans (Nat.zero_add _)
  have happ' : Debug.literals (used.map .inl ++ t) = used.length + Debug.literals t := by
    rw [Debug.literals, List.countP_append]
    exact congrArg (· + _) hall
  refine ⟨⟨?_, ?_⟩, .inr ?_⟩ <;> omega

end Agreement

section Asks

variable {c : UInt8} {rest : List UInt8}

theorem filterMap_directive (d : Directive) (ps : List Piece) :
    (Piece.directive d :: ps).filterMap Piece.asked
      = d.kind.toList.map .inr ++ ps.filterMap Piece.asked := by
  cases hkind : d.kind with
  | none => exact List.filterMap_cons_none (by rw [Piece.asked, hkind]; rfl)
  | some kind => exact List.filterMap_cons_some (by rw [Piece.asked, hkind]; rfl)

theorem asks_nil : asks [] = [] := by
  rw [asks, pieces]
  rfl

theorem scannedAsks_nil : scannedAsks [] = [] := by
  rw [scannedAsks, scanned]
  rfl

theorem asks_char (h0 : c ≠ 0) (h37 : c ≠ 37) : asks (c :: rest) = .inl c :: asks rest := by
  rw [asks, pieces, if_neg h0, if_neg h37]
  rfl

theorem scannedAsks_char (h0 : c ≠ 0) (h37 : c ≠ 37) :
    scannedAsks (c :: rest) = .inl c :: scannedAsks rest := by
  rw [scannedAsks, scanned, if_neg h0, if_neg fun h => h37 h.1]
  rfl

theorem asks_percent : asks (37 :: 37 :: rest) = .inl 37 :: asks rest := by
  have hnext : (37 :: rest).headD 0 = 37 := rfl
  rw [asks, pieces, if_neg (by decide), if_pos rfl, if_pos hnext]
  rfl

theorem scannedAsks_percent :
    scannedAsks (37 :: 37 :: rest) = .inl 37 :: scannedAsks (37 :: rest) := by
  rw [scannedAsks, scanned, if_neg (by decide), if_neg fun h => h.2 rfl]
  rfl

theorem asks_directive (h : rest.headD 0 ≠ 37) : asks (37 :: rest)
    = (scanDirective rest).1.kind.toList.map .inr ++ asks (scanDirective rest).2 := by
  rw [asks, pieces, if_neg (by decide), if_pos rfl, if_neg h, filterMap_directive]
  rfl

theorem scannedAsks_directive (h : rest.headD 0 ≠ 37) : scannedAsks (37 :: rest)
    = (scanDirective rest).1.kind.toList.map .inr ++ scannedAsks (scanDirective rest).2 := by
  rw [scannedAsks, scanned, if_neg (by decide), if_pos ⟨rfl, h⟩, filterMap_directive]
  rfl

theorem asks_append {used : List UInt8} (hused : ∀ c ∈ used, c ≠ 0 ∧ c ≠ 37) :
    asks (used ++ rest) = used.map .inl ++ asks rest := by
  induction used with
  | nil => rfl
  | cons c used ih =>
      obtain ⟨h0, h37⟩ := hused c List.mem_cons_self
      rw [List.cons_append, asks_char h0 h37, ih fun d hd => hused d (List.mem_cons_of_mem _ hd)]
      rfl

end Asks

/-- Whether the scanner finds nothing of a conversion behind a percent that has been printed. -/
def harmless (rest : List UInt8) : Bool :=
  decide (rest.headD 0 ≠ 37) && !swallowed (rest.headD 0) && percentsAlone rest

/-- Where the scanner stands at the same place as the reading of the format, and where it stands at
the second percent of a `%%` that the format is behind. -/
theorem asks_agree (n : Nat) : ∀ rest : List UInt8, rest.length ≤ n →
    Agree (percentsAlone rest) (scannedAsks rest) (asks rest) ∧
      Agree (harmless rest) (scannedAsks (37 :: rest)) (asks rest) := by
  -- both statements go through together: a `%%` leads from the first one to the second, a
  -- conversion back to the first, and what is left gets shorter
  induction n with
  | zero =>
      intro rest hlen
      rw [List.length_eq_zero_iff.mp (Nat.le_zero.mp hlen)]
      have hpercent : scannedAsks [37] = scannedAsks [] := scannedAsks_directive (by decide)
      constructor
      · rw [percentsAlone, scannedAsks_nil, asks_nil]
        exact rfl
      · rw [harmless, percentsAlone, hpercent, asks_nil]
        exact scannedAsks_nil
  | succ n ih =>
      intro rest hlen
      have hhere : Agree (percentsAlone rest) (scannedAsks rest) (asks rest) := by
        cases rest with
        | nil =>
            rw [percentsAlone, scannedAsks_nil, asks_nil]
            exact rfl
        | cons c rest =>
            rw [List.length_cons, Nat.succ_le_succ_iff] at hlen
            rw [percentsAlone]
            by_cases h0 : c = 0
            · rw [if_pos h0, scannedAsks, asks, scanned, pieces, if_pos h0, if_pos h0]
              exact rfl
            · rw [if_neg h0]
              by_cases h37 : c = 37
              · subst h37
                rw [if_pos rfl]
                by_cases htwo : rest.headD 0 = 37
                · obtain ⟨r, rfl⟩ : ∃ r, rest = 37 :: r := by
                    cases rest with
                    | nil => exact absurd htwo (by decide)
                    | cons c r => exact ⟨r, by rw [show c = 37 from htwo]⟩
                  rw [if_pos htwo, List.tail_cons, scannedAsks_percent, asks_percent]
                  rw [List.length_cons] at hlen
                  exact (ih r (by omega)).2.append [.inl 37]
                · have hless := scanDirective_length rest
                  rw [if_neg htwo, scannedAsks_directive htwo, asks_directive htwo]
                  exact (ih _ (by omega)).1.append _
              · rw [if_neg h37, scannedAsks_char h0 h37, asks_char h0 h37]
                exact (ih rest hlen).1.append [.inl c]
      refine ⟨hhere, ?_⟩
      rw [harmless]
      by_cases htwo : rest.headD 0 = 37
      · -- the second percent is printed once more
        obtain ⟨r, rfl⟩ : ∃ r, rest = 37 :: r := by
          cases rest with
          | nil => exact absurd htwo (by decide)
          | cons c r => exact ⟨r, by rw [show c = 37 from htwo]⟩
        rw [List.length_cons, Nat.succ_le_succ_iff] at hlen
        rw [decide_eq_false (not_not.mpr htwo), Bool.false_and, Bool.false_and,
          scannedAsks_percent]
        by_cases hthree : r.headD 0 = 37
        · obtain ⟨r, rfl⟩ : ∃ r', r = 37 :: r' := by
            cases r with
            | nil => exact absurd hthree (by decide)
            | cons c r => exact ⟨r, by rw [show c = 37 from hthree]⟩
          rw [List.length_cons] at hlen
          rw [scannedAsks_percent, asks_percent]
          have hrest := ((ih r (by omega)).2.append [.inl 37]).drifts
          exact hrest.percent
        · have hless := scanDirective_length r
          rw [scannedAsks_directive hthree, asks_directive hthree]
          have hrest := ((ih (scanDirective r).2 (by omega)).1.append
            ((scanDirective r).1.kind.toList.map .inr)).drifts
          exact hrest.percent
      · rw [decide_eq_true htwo, Bool.true_and, scannedAsks_directive htwo]
        obtain ⟨used, hused, hne, hnil, hkind⟩ := scanDirective_used rest
        by_cases hstay : used = []
        · -- nothing is taken, and the scanner has caught up
          have hsame : (scanDirective rest).2 = rest := by
            rw [hstay, List.nil_append] at hused
            exact hused.symm
          rw [hnil.mp hstay, hkind hstay, hsame]
          exact hhere
        · have hswallow : swallowed (rest.headD 0) = true := by
            rw [← Bool.not_eq_false]
            exact fun h => hstay (hnil.mpr h)
          have hless : (scanDirective rest).2.length < rest.length := by
            have hpos := List.length_pos_of_ne_nil hstay
            conv_rhs => rw [hused]
            rw [List.length_append]
            omega
          have hrest : asks (used ++ (scanDirective rest).2) = _ := asks_append hne
          rw [← hused] at hrest
          rw [hswallow, hrest]
          exact ((ih _ (by omega)).1.drifts.inr _).swallow hstay fun c hc => (hne c hc).2

/-! ## The conversions in a format -/

theorem conversions_kinds (ps : List Piece) :
    (conversions ps).map Prod.snd = (ps.filterMap Piece.asked).filterMap Sum.getRight? := by
  induction ps with
  | nil => rfl
  | cons p ps ih =>
      cases p with
      | char c => exact ih
      | directive d =>
          rw [filterMap_directive, conversions]
          cases hkind : d.kind with
          | none => exact ih
          | some kind => exact congrArg (List.cons kind) ih

/-- Whether arguments are supplied is decided by the kinds of the conversions. -/
theorem supplied_kinds : ∀ {cs ds : List (Directive × Kind)} {args : List Arg},
    cs.map Prod.snd = ds.map Prod.snd → supplied cs args = supplied ds args := by
  intro cs
  induction cs with
  | nil =>
      intro ds args h
      rw [List.map_eq_nil_iff.mp h.symm]
  | cons x cs ih =>
      intro ds args h
      cases ds with
      | nil => cases h
      | cons y ds =>
          obtain ⟨hkind, hrest⟩ := List.cons.inj h
          cases args with
          | nil => rfl
          | cons a args =>
              rw [supplied, supplied, hkind, ih hrest]

/-- **A `%%` is one percent only where it stands alone.** With an argument for each conversion of
the format, each `%%` is printed as one percent and each conversion takes one argument, if and only
if no `%%` stands in front of a percent or of what the scanner takes for a part of a conversion,
no width is too long for `number`, and no text for `padded_buffer`. -/
theorem debugVprintf_percents_iff (level : Int) (timer_ticks : BitVec 64)
    (module : Option (List UInt8)) (fmt : List UInt8) (args : List Arg)
    (hargs : supplied (conversions (pieces fmt)) args = true) :
    (∃ text p, debugVprintf level timer_ticks module fmt args = .ok (text, p) ∧
        p.events.map Event.asked = (pieces fmt).filterMap Piece.asked ∧
        args = p.events.filterMap Event.arg ++ p.args) ↔
      percentsAlone fmt = true ∧
        (∀ d, .directive d ∈ scanned fmt → d.number.length ≤ 15) ∧
        ∀ x ∈ (conversions (scanned fmt)).zip args, overruns x.1.1 x.1.2 x.2 = false := by
  have hagree := (asks_agree fmt.length fmt (le_refl _)).1
  constructor
  · rintro ⟨text, p, hok, hasked, -⟩
    have hplay := (debugVprintf_ok hok).1
    obtain ⟨hshort, -, hfit⟩ := debugVprintf_ok_iff.mp ⟨text, p, hok⟩
    refine ⟨hagree.eq_iff.mp ?_, hshort, hfit⟩
    exact (play_asked hplay).1.symm.trans hasked
  · rintro ⟨halone, hshort, hfit⟩
    have hasks : (scanned fmt).filterMap Piece.asked = (pieces fmt).filterMap Piece.asked :=
      hagree.eq_iff.mpr halone
    have hkinds : (conversions (scanned fmt)).map Prod.snd
        = (conversions (pieces fmt)).map Prod.snd := by
      rw [conversions_kinds, conversions_kinds, hasks]
    -- the same kinds are asked for, so the arguments suffice for what the scanner finds
    have hsupplied := (supplied_kinds hkinds).trans hargs
    have hends : ∃ text p, debugVprintf level timer_ticks module fmt args = .ok (text, p) :=
      debugVprintf_ok_iff.mpr ⟨hshort, hsupplied, hfit⟩
    obtain ⟨text, p, hok⟩ := hends
    obtain ⟨hasked, htaken⟩ := play_asked (debugVprintf_ok hok).1
    exact ⟨text, p, hok, hasked.trans hasks, htaken⟩

/-- `"%%: %d"`. -/
theorem debugVprintf_percents_colon :
    (∃ text p, debugVprintf 1 0 none [37, 37, 58, 32, 37, 100] [.int 7] = .ok (text, p) ∧
        p.events.map Event.asked = (pieces [37, 37, 58, 32, 37, 100]).filterMap Piece.asked ∧
        [Arg.int 7] = p.events.filterMap Event.arg ++ p.args) ↔
      percentsAlone [37, 37, 58, 32, 37, 100] = true ∧
        (∀ d, .directive d ∈ scanned [37, 37, 58, 32, 37, 100] → d.number.length ≤ 15) ∧
        ∀ x ∈ (conversions (scanned [37, 37, 58, 32, 37, 100])).zip [Arg.int 7],
          overruns x.1.1 x.1.2 x.2 = false := by
  refine debugVprintf_percents_iff 1 0 none [37, 37, 58, 32, 37, 100] [.int 7] ?_
  simp [pieces, scanDirective, copyNumber, isDigit, scanKind, shortKind, conversions, supplied,
    fits]

/-- `"%%d"` takes an argument. -/
theorem debugVprintf_percent_letter : supplied (conversions (pieces [37, 37, 100])) [] = true ∧
    ¬ ∃ text p, debugVprintf 1 0 none [37, 37, 100] [] = .ok (text, p) ∧
      p.events.map Event.asked = (pieces [37, 37, 100]).filterMap Piece.asked ∧
      [] = p.events.filterMap Event.arg ++ p.args := by
  have hpieces : pieces [37, 37, 100] = [.char 37, .char 100] := by simp [pieces]
  have hscanned : scanned [37, 37, 100] = [.char 37, .directive ⟨32, [], some .d⟩] := by
    simp [scanned, scanDirective, copyNumber, isDigit, scanKind, shortKind]
  rw [hpieces]
  refine ⟨rfl, ?_⟩
  rintro ⟨text, p, hok, -⟩
  have hsupplied := (debugVprintf_ok_iff.mp ⟨text, p, hok⟩).2.1
  rw [hscanned] at hsupplied
  exact absurd hsupplied (by decide)

/-! ## Signs -/

/-- The text is the signed decimal numeral of the number. -/
def SignedNumeral (n : Int) (text : List UInt8) : Prop :=
  if n < 0 then ∃ s, text = 45 :: s ∧ CanonicalNumeral 10 n.natAbs s
  else CanonicalNumeral 10 n.toNat text

/-- What is printed behind the prefix. -/
def emitted (level : Int) (timer_ticks : BitVec 64) (module : Option (List UInt8))
    (fmt : List UInt8) (args : List Arg) : Except Fault (List UInt8) :=
  (debugVprintf level timer_ticks module fmt args).map fun out => out.2.events.flatMap Event.text

section Signs

variable (level : Int) (timer_ticks : BitVec 64) (module : Option (List UInt8))

/-- A number without a width. -/
theorem numberText_unpadded (num : BitVec 64) {val : UInt8} (hval : val ≠ 0) :
    numberText (ltoa num integerBuffer 10) 0 val id = .ok (longNumeral num 10) := by
  have hradix : 2 ≤ 10 ∧ 10 ≤ 36 := by decide
  have hlen := longNumeral_length hradix.1 num
  have hend : padEnd (longNumeral num 10) 0 = (longNumeral num 10).length + 1 :=
    if_pos (Nat.zero_le _)
  have htext : padText (longNumeral num 10) 0 val = longNumeral num 10 := if_pos (Nat.zero_le _)
  rw [numberText_eq num hradix.1 hradix.2 0 hval, if_neg (by omega), htext]
  rfl

/-- A format that is one conversion. -/
theorem emitted_conversion {fmt : List UInt8} {d : Directive} {kind : Kind} {a : Arg}
    {text : List UInt8} (hfmt : scanned fmt = [.directive d]) (hnumber : d.number = [])
    (hkind : d.kind = some kind) (htext : convert d kind a = .ok text) :
    emitted level timer_ticks module fmt [a] = .ok text := by
  obtain ⟨front, hrun⟩ := debugVprintf_eq level timer_ticks module fmt [a]
  have hplay : play (scanned fmt) [a] = .ok ([.conversion kind a text], []) := by
    rw [hfmt, play, hnumber, if_neg (by decide)]
    simp only [perform, hkind, htext]
    rfl
  rw [emitted, hrun, hplay]
  exact congrArg Except.ok (List.append_nil text)

/-- `%d`. -/
theorem emitted_int (n : BitVec 32) : emitted level timer_ticks module [37, 100] [.int n]
    = .ok (longNumeral (n.setWidth 64) 10) := by
  have hfmt : scanned [37, 100] = [.directive ⟨32, [], some .d⟩] := by
    simp [scanned, scanDirective, copyNumber, isDigit, scanKind, shortKind]
  refine emitted_conversion level timer_ticks module hfmt rfl rfl ?_
  rw [convert, itoa_eq]
  exact numberText_unpadded _ (by decide)

/-- `%ld`. -/
theorem emitted_long (n : BitVec 64) : emitted level timer_ticks module [37, 108, 100] [.long n]
    = .ok (longNumeral n 10) := by
  have hfmt : scanned [37, 108, 100] = [.directive ⟨32, [], some .ld⟩] := by
    simp [scanned, scanDirective, copyNumber, isDigit, scanKind, longKind]
  exact emitted_conversion level timer_ticks module hfmt rfl rfl
    (numberText_unpadded _ (by decide))

end Signs

theorem longNumeral_signed (n : BitVec 64) : SignedNumeral n.toInt (longNumeral n 10) := by
  rw [SignedNumeral, longNumeral]
  by_cases hneg : n.toInt < 0
  · rw [if_pos hneg, if_pos ⟨hneg, rfl⟩]
    exact ⟨_, rfl, numeral_canonical (by decide) (by decide) _⟩
  · have hnat : n.toInt.toNat = n.toNat := by
      rw [BitVec.toInt_eq_toNat_cond] at hneg ⊢
      split at hneg <;> omega
    rw [if_neg hneg, if_neg fun h => hneg h.1, hnat]
    exact numeral_canonical (by decide) (by decide) _

/-- `%d` prints no sign, so it prints no numeral of a negative number. -/
theorem int_not_signed {n : BitVec 32} (hneg : n.toInt < 0) :
    ¬ SignedNumeral n.toInt (longNumeral (n.setWidth 64) 10) := by
  rw [SignedNumeral, if_pos hneg]
  rintro ⟨s, htext, -⟩
  have hsign : (longNumeral (n.setWidth 64) 10).head? = some 45 := congrArg List.head? htext
  have hminus := ((longNumeral_sign (by decide) (by decide) _).mp hsign).1
  rw [itoa_toInt] at hminus
  omega

/-- **`%d` prints no sign.** It prints the signed decimal numeral of its argument, and `%ld` the same
text for the argument widened to 64 bits, if and only if the argument is not negative. -/
theorem debugVprintf_int_iff (level : Int) (timer_ticks : BitVec 64)
    (module : Option (List UInt8)) (n : BitVec 32) :
    (∃ text, SignedNumeral n.toInt text ∧
        emitted level timer_ticks module [37, 100] [.int n] = .ok text ∧
        emitted level timer_ticks module [37, 108, 100] [.long (n.signExtend 64)] = .ok text) ↔
      0 ≤ n.toInt := by
  rw [emitted_int, emitted_long]
  constructor
  · rintro ⟨_, hsigned, hint, -⟩
    obtain rfl := Except.ok.inj hint
    by_contra hneg
    exact int_not_signed (not_le.mp hneg) hsigned
  · intro hpos
    have hwide : n.signExtend 64 = n.setWidth 64 := by
      apply BitVec.eq_of_toInt_eq
      rw [BitVec.toInt_signExtend_of_le (by decide), itoa_toInt]
      rw [BitVec.toInt_eq_toNat_cond] at hpos ⊢
      split at hpos <;> omega
    have hsigned := longNumeral_signed (n.signExtend 64)
    rw [BitVec.toInt_signExtend_of_le (by decide)] at hsigned
    exact ⟨_, hsigned, by rw [hwide], rfl⟩

/-- `-1` is printed as `4294967295`. -/
theorem debugVprintf_int_minus :
    ¬ ∃ text, SignedNumeral (BitVec.toInt (-1 : BitVec 32)) text ∧
      emitted 1 0 none [37, 100] [.int (-1)] = .ok text ∧
      emitted 1 0 none [37, 108, 100] [.long (BitVec.signExtend 64 (-1 : BitVec 32))] = .ok text := by
  rintro ⟨_, hsigned, hint, -⟩
  rw [emitted_int] at hint
  obtain rfl := Except.ok.inj hint
  exact int_not_signed (by decide) hsigned

end Windozz.Kernel.Debug

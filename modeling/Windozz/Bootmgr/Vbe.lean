import Mathlib.Data.BitVec

set_option autoImplicit false

/-! # Setting a video mode

`do_vbe` asks for the size of the monitor, looks for a mode of this size with 32 bits for each pixel,
and tries 800 by 600 if there is none. What the firmware answers is given: the controller and its
list of modes, the EDID, what it says about a mode, and whether it sets one.

The search ends at the first mode whose query fails, and behind the second search there is no return:
when it finds 800 by 600, the processor goes on with the text of the error message
(`doVbe_settled_iff`).
-/

namespace Windozz.Bootmgr.Vbe

/-! ## The firmware -/

/-- A width and a height. -/
abbrev Size := BitVec 16 × BitVec 16

/-- The fields of `vbe_mode_info` that are used. -/
structure ModeInfo where
  pitch : BitVec 16
  width : BitVec 16
  height : BitVec 16
  bpp : BitVec 8
  framebuffer : BitVec 32

/-- The answer to function `0x4F00`; `video_modes` is the list in front of its end `0xFFFF`. -/
structure Controller where
  ax : BitVec 16
  signature : BitVec 32
  version : BitVec 16
  video_modes : List (BitVec 16)

/-- The firmware: functions `0x4F00`, `0x4F15`, `0x4F01` and `0x4F02` of `int 0x10`, with the value
of `ax` and what is stored. -/
structure Bios where
  controller : Controller
  edid : BitVec 16 × (Nat → UInt8)
  modeInfo : BitVec 16 → BitVec 16 × ModeInfo
  setMode : BitVec 16 → BitVec 16

/-! ## The functions -/

def DEFAULT_WIDTH : BitVec 16 := 800
def DEFAULT_HEIGHT : BitVec 16 := 600

/-- The variables of `vbe.asm`, the mode that has been set, and what has been printed. -/
structure State where
  vbe_width : BitVec 16
  vbe_height : BitVec 16
  vbe_mode_info : ModeInfo
  mode : Option (BitVec 16)
  printed : List String

/-- `vbe_edid.detailed_timings`. -/
def detailed_timings : Nat := 54

/-- `movzx ax`, `movzx bx`, `shl bx, 4` and `or ax, bx`. -/
def unpack (low high : UInt8) : BitVec 16 :=
  low.toBitVec.setWidth 16 ||| high.toBitVec.setWidth 16 <<< 4

def EDID_MSG : String := "warning: VBE EDID not supported\n"
def VBE_ERROR : String := "failed to set VBE mode."
def NO_VBE : String := "VBE 2.0+ not present."

/-- `do_edid`. -/
def doEdid (b : Bios) (st : State) : State :=
  let error (st : State) : State := { st with printed := st.printed ++ [EDID_MSG] }
  if b.edid.1 ≠ 0x4F then error st
  else
    let st := { st with
      vbe_width := unpack (b.edid.2 (detailed_timings + 2)) (b.edid.2 (detailed_timings + 4))
      vbe_height := unpack (b.edid.2 (detailed_timings + 5)) (b.edid.2 (detailed_timings + 7)) }
    if st.vbe_width = 0 then error st else if st.vbe_height = 0 then error st else st

/-- The loop of `vbe_set_mode`: the value of `ax` with the carry flag clear, or `none`. -/
def modeLoop (b : Bios) (width height : BitVec 16) (bpp : BitVec 8) :
    List (BitVec 16) → State → Option (BitVec 16) × State
  | [], st => (none, st)
  | mode :: modes, st =>
      let answer := b.modeInfo mode
      let st := { st with vbe_mode_info := answer.2 }
      if answer.1 ≠ 0x4F then (none, st)
      else if width ≠ st.vbe_mode_info.width then modeLoop b width height bpp modes st
      else if height ≠ st.vbe_mode_info.height then modeLoop b width height bpp modes st
      else if bpp ≠ st.vbe_mode_info.bpp then modeLoop b width height bpp modes st
      else if b.setMode (mode ||| 0x4000) ≠ 0x4F then (none, st)
      else (some mode, { st with mode := some (mode ||| 0x4000) })

/-- `vbe_set_mode`. -/
def vbeSetMode (b : Bios) (width height : BitVec 16) (bpp : BitVec 8) (st : State) :
    Option (BitVec 16) × State :=
  modeLoop b width height bpp b.controller.video_modes st

/-- How `do_vbe` ends: it returns, it jumps to `error`, or it runs the bytes behind its last jump. -/
inductive Outcome where
  | returned (st : State)
  | error (message : String) (st : State)
  | data (st : State)

/-- `do_vbe`. -/
def doVbe (b : Bios) (st : State) : Outcome :=
  if b.controller.ax ≠ 0x4F then .error NO_VBE st
  else if b.controller.signature ≠ 0x41534556 then .error NO_VBE st
  else if b.controller.version.slt 0x200 then .error NO_VBE st
  else
    let st := doEdid b st
    match vbeSetMode b st.vbe_width st.vbe_height 32 st with
    | (some _, st) => .returned st
    | (none, st) =>
        let st := { st with vbe_width := DEFAULT_WIDTH, vbe_height := DEFAULT_HEIGHT }
        match vbeSetMode b st.vbe_width st.vbe_height 32 st with
        | (none, st) => .error VBE_ERROR st
        | (some _, st) => .data st

/-- The variables before the call. -/
def State.initial (info : ModeInfo) : State := ⟨DEFAULT_WIDTH, DEFAULT_HEIGHT, info, none, []⟩

/-! ## What the firmware offers -/

/-- The default size. -/
def defaultSize : Size := (DEFAULT_WIDTH, DEFAULT_HEIGHT)

/-- A mode of a size, with 32 bits for each pixel. -/
def ModeInfo.Has (info : ModeInfo) (size : Size) : Prop :=
  info.width = size.1 ∧ info.height = size.2 ∧ info.bpp = 32

instance (info : ModeInfo) (size : Size) : Decidable (info.Has size) :=
  inferInstanceAs (Decidable (_ ∧ _ ∧ _))

/-- VBE 2.0 is there, as `do_vbe` tests it. -/
def Controller.present (c : Controller) : Bool :=
  c.ax = 0x4F && c.signature = 0x41534556 && !c.version.slt 0x200

namespace Bios

variable (b : Bios)

/-- The modes of a controller that is there. -/
def modes : List (BitVec 16) := if b.controller.present then b.controller.video_modes else []

/-- A mode of the list with this size, which can be queried and set. -/
def Offers (mode : BitVec 16) (size : Size) : Prop :=
  mode ∈ b.modes ∧ (b.modeInfo mode).1 = 0x4F ∧ (b.modeInfo mode).2.Has size ∧
    b.setMode (mode ||| 0x4000) = 0x4F

/-- The size in a detailed timing: the upper four bits of a number are the upper half of its second
byte. -/
def timing (low high : UInt8) : BitVec 16 := BitVec.ofNat 16 (low.toNat + 256 * (high.toNat / 16))

/-- The size of the monitor, if there is an EDID. -/
def edidSize : Option Size :=
  if b.edid.1 = 0x4F then
    some (timing (b.edid.2 (detailed_timings + 2)) (b.edid.2 (detailed_timings + 4)),
      timing (b.edid.2 (detailed_timings + 5)) (b.edid.2 (detailed_timings + 7)))
  else none

/-- The size of the monitor is offered. -/
def Matched (size : Size) : Prop := b.edidSize = some size ∧ ∃ mode, b.Offers mode size

/-- The size that is to be set: that of the monitor, or the default if that one is not offered. -/
def Wanted (size : Size) : Prop :=
  b.Matched size ∨ ((∀ s, ¬ b.Matched s) ∧ size = defaultSize)

/-- Neither the size of the monitor nor the default is offered. -/
def OffersNeither : Prop := (∀ s, ¬ b.Matched s) ∧ ∀ mode, ¬ b.Offers mode defaultSize

/-- The size that `do_edid` leaves. -/
def unpacked : Size :=
  if b.edid.1 = 0x4F then
    (unpack (b.edid.2 (detailed_timings + 2)) (b.edid.2 (detailed_timings + 4)),
      unpack (b.edid.2 (detailed_timings + 5)) (b.edid.2 (detailed_timings + 7)))
  else defaultSize

/-- The first mode that has this size can be set, and all modes in front of it can be queried. -/
def ReachesIn (modes : List (BitVec 16)) (size : Size) : Prop :=
  ∃ before mode after, modes = before ++ mode :: after ∧
    (∀ m ∈ before, (b.modeInfo m).1 = 0x4F ∧ ¬ (b.modeInfo m).2.Has size) ∧
    (b.modeInfo mode).1 = 0x4F ∧ (b.modeInfo mode).2.Has size ∧ b.setMode (mode ||| 0x4000) = 0x4F

/-- So it is in the list of the controller. -/
def Reaches (size : Size) : Prop := b.ReachesIn b.modes size

/-- One of the two ends that `do_vbe` is to have. -/
def Settled : Outcome → Prop
  | .returned st => ∃ mode size, b.Wanted size ∧ b.Offers mode size ∧
      st.mode = some (mode ||| 0x4000) ∧ st.vbe_mode_info = (b.modeInfo mode).2
  | .error _ _ => b.OffersNeither
  | .data _ => False

end Bios

/-! ## The search -/

section Search

variable (b : Bios) {size : Size}

theorem reachesIn_nil : ¬ b.ReachesIn [] size := by
  rintro ⟨before, mode, after, hmodes, -⟩
  exact List.cons_ne_nil _ _ (List.append_eq_nil_iff.mp hmodes.symm).2

theorem reachesIn_cons {mode : BitVec 16} {modes : List (BitVec 16)} :
    b.ReachesIn (mode :: modes) size ↔ (b.modeInfo mode).1 = 0x4F ∧
      if (b.modeInfo mode).2.Has size then b.setMode (mode ||| 0x4000) = 0x4F
      else b.ReachesIn modes size := by
  constructor
  · rintro ⟨before, m, after, hmodes, hbefore, hquery, hhas, hset⟩
    cases before with
    | nil =>
        obtain ⟨rfl, -⟩ := List.cons.inj hmodes
        rw [if_pos hhas]
        exact ⟨hquery, hset⟩
    | cons m' before =>
        obtain ⟨rfl, hrest⟩ := List.cons.inj hmodes
        obtain ⟨hfirst, hother⟩ := hbefore mode List.mem_cons_self
        rw [if_neg hother]
        exact ⟨hfirst, before, m, after, hrest,
          fun x hx => hbefore x (List.mem_cons_of_mem _ hx), hquery, hhas, hset⟩
  · rintro ⟨hquery, hrest⟩
    by_cases hhas : (b.modeInfo mode).2.Has size
    · rw [if_pos hhas] at hrest
      exact ⟨[], mode, modes, rfl, by simp, hquery, hhas, hrest⟩
    · rw [if_neg hhas] at hrest
      obtain ⟨before, m, after, rfl, hbefore, hm⟩ := hrest
      refine ⟨mode :: before, m, after, rfl, fun x hx => ?_, hm⟩
      rcases List.mem_cons.mp hx with rfl | hx
      · exact ⟨hquery, hhas⟩
      · exact hbefore x hx

/-- A round of the search. -/
theorem modeLoop_cons (mode : BitVec 16) (modes : List (BitVec 16)) (st : State) :
    modeLoop b size.1 size.2 32 (mode :: modes) st =
      if (b.modeInfo mode).1 = 0x4F then
        if (b.modeInfo mode).2.Has size then
          if b.setMode (mode ||| 0x4000) = 0x4F then
            (some mode, { st with
              vbe_mode_info := (b.modeInfo mode).2, mode := some (mode ||| 0x4000) })
          else (none, { st with vbe_mode_info := (b.modeInfo mode).2 })
        else modeLoop b size.1 size.2 32 modes { st with vbe_mode_info := (b.modeInfo mode).2 }
      else (none, { st with vbe_mode_info := (b.modeInfo mode).2 }) := by
  rw [modeLoop]
  dsimp only
  by_cases hquery : (b.modeInfo mode).1 = 0x4F
  · rw [if_neg (not_not.mpr hquery), if_pos hquery]
    by_cases hwidth : (b.modeInfo mode).2.width = size.1
    · rw [if_neg (not_not.mpr hwidth.symm)]
      by_cases hheight : (b.modeInfo mode).2.height = size.2
      · rw [if_neg (not_not.mpr hheight.symm)]
        by_cases hbpp : (b.modeInfo mode).2.bpp = 32
        · have hhas : (b.modeInfo mode).2.Has size := ⟨hwidth, hheight, hbpp⟩
          rw [if_neg (not_not.mpr hbpp.symm), if_pos hhas, ite_not]
        · rw [if_pos (Ne.symm hbpp), if_neg fun h => hbpp h.2.2]
      · rw [if_pos (Ne.symm hheight), if_neg fun h => hheight h.2.1]
    · rw [if_pos (Ne.symm hwidth), if_neg fun h => hwidth h.1]
  · rw [if_pos hquery, if_neg hquery]

/-- **The search** sets the first mode of the size, unless a query fails in front of it. -/
theorem modeLoop_reaches (size : Size) (modes : List (BitVec 16)) : ∀ st : State,
    (b.ReachesIn modes size → ∃ mode, mode ∈ modes ∧ (b.modeInfo mode).1 = 0x4F ∧
      (b.modeInfo mode).2.Has size ∧ b.setMode (mode ||| 0x4000) = 0x4F ∧
      modeLoop b size.1 size.2 32 modes st = (some mode, { st with
        vbe_mode_info := (b.modeInfo mode).2, mode := some (mode ||| 0x4000) })) ∧
    (¬ b.ReachesIn modes size → ∃ info,
      modeLoop b size.1 size.2 32 modes st = (none, { st with vbe_mode_info := info })) := by
  induction modes with
  | nil => exact fun st => ⟨fun h => absurd h (reachesIn_nil b), fun _ => ⟨st.vbe_mode_info, rfl⟩⟩
  | cons mode modes ih =>
      intro st
      rw [reachesIn_cons, modeLoop_cons]
      by_cases hquery : (b.modeInfo mode).1 = 0x4F
      · rw [if_pos hquery]
        by_cases hhas : (b.modeInfo mode).2.Has size
        · rw [if_pos hhas, if_pos hhas]
          by_cases hset : b.setMode (mode ||| 0x4000) = 0x4F
          · rw [if_pos hset]
            exact ⟨fun _ => ⟨mode, List.mem_cons_self, hquery, hhas, hset, rfl⟩,
              fun h => absurd ⟨hquery, hset⟩ h⟩
          · rw [if_neg hset]
            exact ⟨fun h => absurd h.2 hset, fun _ => ⟨_, rfl⟩⟩
        · rw [if_neg hhas, if_neg hhas]
          obtain ⟨hfound, hnone⟩ := ih { st with vbe_mode_info := (b.modeInfo mode).2 }
          constructor
          · intro h
            obtain ⟨m, hmem, hm⟩ := hfound h.2
            exact ⟨m, List.mem_cons_of_mem _ hmem, hm⟩
          · exact fun h => hnone fun hrest => h ⟨hquery, hrest⟩
      · rw [if_neg hquery]
        exact ⟨fun h => absurd h.1 hquery, fun _ => ⟨_, rfl⟩⟩

end Search

/-! ## `do_vbe` -/

section Ends

variable (b : Bios)

/-- The size that is looked for first. -/
theorem doEdid_size (info : ModeInfo) :
    ((doEdid b (.initial info)).vbe_width, (doEdid b (.initial info)).vbe_height) = b.unpacked := by
  rw [doEdid, Bios.unpacked]
  by_cases hedid : b.edid.1 = 0x4F
  · rw [if_neg (not_not.mpr hedid), if_pos hedid]
    dsimp only
    split
    · rfl
    · split <;> rfl
  · rw [if_pos hedid, if_neg hedid]
    rfl

/-- A size that is reached is offered. -/
theorem offers_of_reaches {size : Size} (h : b.Reaches size) : ∃ mode, b.Offers mode size := by
  obtain ⟨before, mode, after, hmodes, -, hquery, hhas, hset⟩ := h
  exact ⟨mode, by rw [hmodes]; simp, hquery, hhas, hset⟩

/-- Without VBE 2.0 nothing is looked for. -/
theorem doVbe_absent (hpresent : ¬ b.controller.present = true) (st : State) :
    doVbe b st = .error NO_VBE st := by
  rw [doVbe]
  by_cases hax : b.controller.ax = 0x4F
  · by_cases hsignature : b.controller.signature = 0x41534556
    · have hversion : b.controller.version.slt 0x200 = true := by
        by_contra h
        refine hpresent ?_
        rw [Controller.present, hax, hsignature, Bool.eq_false_iff.mpr h]
        rfl
      rw [if_neg (not_not.mpr hax), if_neg (not_not.mpr hsignature), if_pos hversion]
    · rw [if_neg (not_not.mpr hax), if_pos hsignature]
  · rw [if_pos hax]

/-- **How `do_vbe` ends.** It returns if the size from `do_edid` is reached. Otherwise it jumps to
`error`, unless the default is reached: then it runs into its data. -/
theorem doVbe_ends (info : ModeInfo) :
    (b.Reaches b.unpacked → ∃ mode st, b.Offers mode b.unpacked ∧
      doVbe b (.initial info) = .returned st ∧ st.mode = some (mode ||| 0x4000) ∧
      st.vbe_mode_info = (b.modeInfo mode).2) ∧
    (¬ b.Reaches b.unpacked → b.Reaches defaultSize → ∃ st, doVbe b (.initial info) = .data st) ∧
    (¬ b.Reaches b.unpacked → ¬ b.Reaches defaultSize →
      ∃ message st, doVbe b (.initial info) = .error message st) := by
  by_cases hpresent : b.controller.present = true
  · have hmodes : b.modes = b.controller.video_modes := if_pos hpresent
    rw [Controller.present, Bool.and_eq_true, Bool.and_eq_true, decide_eq_true_iff,
      decide_eq_true_iff, Bool.not_eq_true'] at hpresent
    obtain ⟨⟨hax, hsignature⟩, hversion⟩ := hpresent
    have hwidth : (doEdid b (.initial info)).vbe_width = b.unpacked.1 :=
      congrArg Prod.fst (doEdid_size b info)
    have hheight : (doEdid b (.initial info)).vbe_height = b.unpacked.2 :=
      congrArg Prod.snd (doEdid_size b info)
    -- the list is gone through for the size of the monitor, then for the default one
    obtain ⟨hfound, hnone⟩ := modeLoop_reaches b b.unpacked b.controller.video_modes
      (doEdid b (.initial info))
    rw [doVbe, if_neg (not_not.mpr hax), if_neg (not_not.mpr hsignature), hversion]
    simp only [Bool.false_eq_true, if_false, hwidth, hheight, vbeSetMode]
    rw [Bios.Reaches, Bios.Reaches, hmodes]
    refine ⟨fun h => ?_, fun h hdefault => ?_, fun h hdefault => ?_⟩
    · obtain ⟨mode, hmem, hquery, hhas, hset, hrun⟩ := hfound h
      rw [hrun]
      exact ⟨mode, _, ⟨by rw [hmodes]; exact hmem, hquery, hhas, hset⟩, rfl, rfl, rfl⟩
    · obtain ⟨info', hrun⟩ := hnone h
      rw [hrun]
      obtain ⟨mode, -, -, -, -, hrun'⟩ := (modeLoop_reaches b defaultSize
        b.controller.video_modes { doEdid b (.initial info) with
          vbe_mode_info := info', vbe_width := DEFAULT_WIDTH
          vbe_height := DEFAULT_HEIGHT }).1 hdefault
      dsimp only [defaultSize] at hrun' ⊢
      rw [hrun']
      exact ⟨_, rfl⟩
    · obtain ⟨info', hrun⟩ := hnone h
      rw [hrun]
      obtain ⟨info'', hrun'⟩ := (modeLoop_reaches b defaultSize
        b.controller.video_modes { doEdid b (.initial info) with
          vbe_mode_info := info', vbe_width := DEFAULT_WIDTH
          vbe_height := DEFAULT_HEIGHT }).2 hdefault
      dsimp only [defaultSize] at hrun' ⊢
      rw [hrun']
      exact ⟨VBE_ERROR, _, rfl⟩
  · -- without a controller there is no list, and no size is reached
    have hreach : ∀ size, ¬ b.Reaches size := by
      intro size
      rw [Bios.Reaches, Bios.modes, if_neg hpresent]
      exact reachesIn_nil b
    refine ⟨fun h => absurd h (hreach _), fun _ h => absurd h (hreach _), fun _ _ => ?_⟩
    exact ⟨NO_VBE, .initial info, doVbe_absent b hpresent _⟩

end Ends

/-- **When a mode is set.** `do_vbe` ends as it is to end exactly when the size that `do_edid` leaves
is reached and is the one that is wanted, or when it is not reached and neither the size of the
monitor nor 800 by 600 is offered. -/
theorem doVbe_settled_iff (b : Bios) (info : ModeInfo) : b.Settled (doVbe b (.initial info)) ↔
    (b.Reaches b.unpacked ∧ b.Wanted b.unpacked) ∨
      (¬ b.Reaches b.unpacked ∧ b.OffersNeither) := by
  obtain ⟨hreturned, hdata, herror⟩ := doVbe_ends b info
  by_cases hreach : b.Reaches b.unpacked
  · obtain ⟨mode, st, hoffers, hrun, hmode, hinfo⟩ := hreturned hreach
    rw [hrun]
    constructor
    · rintro ⟨mode', size, hwanted, hoffers', -, hinfo'⟩
      -- the mode that is described has both sizes
      have hsize : size = b.unpacked := by
        obtain ⟨hwidth, hheight, -⟩ := hoffers.2.2.1
        obtain ⟨hwidth', hheight', -⟩ := hoffers'.2.2.1
        rw [← hinfo', hinfo] at hwidth' hheight'
        exact Prod.ext (hwidth'.symm.trans hwidth) (hheight'.symm.trans hheight)
      rw [hsize] at hwanted
      exact .inl ⟨hreach, hwanted⟩
    · rintro (⟨-, hwanted⟩ | ⟨hnot, -⟩)
      · exact ⟨mode, b.unpacked, hwanted, hoffers, hmode, hinfo⟩
      · exact absurd hreach hnot
  · by_cases hdefault : b.Reaches defaultSize
    · obtain ⟨st, hrun⟩ := hdata hreach hdefault
      rw [hrun]
      refine iff_of_false id ?_
      rintro (⟨h, -⟩ | ⟨-, -, hnone⟩)
      · exact hreach h
      · obtain ⟨mode, hoffers⟩ := offers_of_reaches b hdefault
        exact hnone mode hoffers
    · obtain ⟨message, st, hrun⟩ := herror hreach hdefault
      rw [hrun]
      constructor
      · exact fun hneither => .inr ⟨hreach, hneither⟩
      · rintro (⟨h, -⟩ | ⟨-, hneither⟩)
        · exact absurd h hreach
        · exact hneither

/-- A monitor of 1024 by 768 pixels, and the mode `0x115` of 800 by 600. -/
def smallBios : Bios where
  controller := ⟨0x4F, 0x41534556, 0x200, [0x115]⟩
  edid := (0x4F, fun i => if i = 58 then 0x40 else if i = 61 then 0x30 else 0)
  modeInfo := fun _ => (0x4F, ⟨3200, 800, 600, 32, 0xE0000000⟩)
  setMode := fun _ => 0x4F

/-- There the default is set, and the processor runs into the text of the message. -/
theorem doVbe_runs_on :
    ¬ smallBios.Settled (doVbe smallBios (.initial ⟨0, 0, 0, 0, 0⟩)) := by
  have hrun : ∃ st, doVbe smallBios (.initial ⟨0, 0, 0, 0, 0⟩) = .data st := ⟨_, rfl⟩
  obtain ⟨st, hrun⟩ := hrun
  rw [hrun]
  exact id

end Windozz.Bootmgr.Vbe

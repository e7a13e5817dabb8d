import OrbFirmware.Loop
import OrbFirmware.Polarizer.OpenLoop

/-! Homing of a wheel that turns as it is told, from anywhere, with each event handled before the next step. -/
namespace OrbFirmware.Polarizer

def ClosePair (edge next : Int) : Prop := 20 < next-edge ∧ next-edge < 32

instance (edge next : Int) : Decidable (ClosePair edge next) := inferInstanceAs (Decidable (_ ∧ _))

/-- The bumps of any width around the standard positions, and the extra one: of the edges that come up one after the
other as the wheel turns forward, only its own and that of the bump at 240 degrees are a close pair. -/
structure Encoder where
  passThroughHalf : Int
  verticalHalf : Int
  horizontalHalf : Int
  extraFirst : Int
  extraLast : Int
  wide : 0 ≤ passThroughHalf ∧ 0 ≤ verticalHalf ∧ 0 ≤ horizontalHalf ∧ extraFirst ≤ extraLast
  apart : passThroughHalf+1 < microsteps120Degrees-verticalHalf ∧ microsteps120Degrees+verticalHalf+1 < extraFirst ∧
    extraLast+1 < 2*microsteps120Degrees-horizontalHalf ∧
    2*microsteps120Degrees+horizontalHalf+1 < microsteps360Degrees-passThroughHalf
  close : ClosePair extraFirst (2*microsteps120Degrees-horizontalHalf)
  only : ¬ClosePair (-passThroughHalf) (microsteps120Degrees-verticalHalf) ∧
    ¬ClosePair (microsteps120Degrees-verticalHalf) extraFirst ∧
    ¬ClosePair (2*microsteps120Degrees-horizontalHalf) (microsteps360Degrees-passThroughHalf)

/-- Within half a width of a centre, around the circle. -/
def nearCentre (centre half position : Int) : Prop := (position-centre+half)%microsteps360Degrees ≤ 2*half

instance (centre half position : Int) : Decidable (nearCentre centre half position) := inferInstanceAs (Decidable (_ ≤ _))

def Encoder.pin (e : Encoder) (position : Int) : Bool :=
  nearCentre 0 e.passThroughHalf position ∨ nearCentre microsteps120Degrees e.verticalHalf position ∨
    nearCentre (2*microsteps120Degrees) e.horizontalHalf position ∨ (e.extraFirst ≤ position ∧ position ≤ e.extraLast)

def Encoder.rises (e : Encoder) (direction : Direction) (position : Int) : Bool :=
  e.pin position && !e.pin (position-direction.sign)

/-- Where the pin goes up. -/
def Encoder.passThroughEdge (e : Encoder) : Int := (-e.passThroughHalf)%microsteps360Degrees

def Encoder.verticalEdge (e : Encoder) : Int := microsteps120Degrees-e.verticalHalf

def Encoder.horizontalEdge (e : Encoder) : Int := 2*microsteps120Degrees-e.horizontalHalf

theorem nearCentre_iff {centre half position : Int} (hhalf : 0 ≤ half) (hfirst : 0 ≤ centre-half)
    (hlast : centre+half+1 < microsteps360Degrees) (hfrom : -1 ≤ position) (hto : position < microsteps360Degrees) :
    nearCentre centre half position ↔ centre-half ≤ position ∧ position ≤ centre+half := by
  simp only [nearCentre, microsteps360Degrees, stepsPerTurn, microstepsPerStep] at *
  omega

theorem nearCentre_zero_iff {half position : Int} (hfrom : -1 ≤ position) (hto : position < microsteps360Degrees) :
    nearCentre 0 half position ↔ -half ≤ position ∧ position ≤ half ∨ microsteps360Degrees-half ≤ position := by
  simp only [nearCentre, microsteps360Degrees, stepsPerTurn, microstepsPerStep] at *
  omega

theorem Encoder.pin_iff (e : Encoder) {position : Int} (hfrom : -1 ≤ position) (hto : position < microsteps360Degrees) :
    e.pin position = true ↔
      -e.passThroughHalf ≤ position ∧ position ≤ e.passThroughHalf ∨ microsteps360Degrees-e.passThroughHalf ≤ position ∨
      e.verticalEdge ≤ position ∧ position ≤ microsteps120Degrees+e.verticalHalf ∨
      e.horizontalEdge ≤ position ∧ position ≤ 2*microsteps120Degrees+e.horizontalHalf ∨
      e.extraFirst ≤ position ∧ position ≤ e.extraLast := by
  obtain ⟨hpassThrough, hvertical, hhorizontal, hextra⟩ := e.wide
  obtain ⟨hpv, hvx, hxh, hhp⟩ := e.apart
  have hsize : (microsteps360Degrees : Int) = 3*microsteps120Degrees := by decide
  rw [Encoder.pin, decide_eq_true_eq, nearCentre_zero_iff hfrom hto,
    nearCentre_iff hvertical (by omega) (by omega) hfrom hto, nearCentre_iff hhorizontal (by omega) (by omega) hfrom hto,
    Encoder.verticalEdge, Encoder.horizontalEdge, or_assoc]

theorem Encoder.rises_iff (e : Encoder) {position : Int} (h : OnCircle position) :
    e.rises .forward position = true ↔ position = e.passThroughEdge ∨ position = e.verticalEdge ∨ position = e.extraFirst ∨
      position = e.horizontalEdge := by
  obtain ⟨hnonneg, hlt⟩ := h
  obtain ⟨hpassThrough, hvertical, hhorizontal, hextra⟩ := e.wide
  obtain ⟨hpv, hvx, hxh, hhp⟩ := e.apart
  have hedge : e.passThroughEdge = if e.passThroughHalf = 0 then 0 else microsteps360Degrees-e.passThroughHalf := by
    simp only [Encoder.passThroughEdge, microsteps120Degrees, microsteps360Degrees, stepsPerTurn, microstepsPerStep] at *
    split_ifs <;> omega
  rw [Encoder.rises, Bool.and_eq_true, Bool.not_eq_true', ← Bool.not_eq_true, e.pin_iff (by omega) hlt,
    e.pin_iff (by simp only [Direction.sign]; omega) (by simp only [Direction.sign]; omega), hedge]
  simp only [Direction.sign, Encoder.verticalEdge, Encoder.horizontalEdge, microsteps120Degrees, microsteps360Degrees,
    stepsPerTurn, microstepsPerStep] at *
  split_ifs <;> omega

/-! The wheel and its thread in homing. -/

/-- `waited` counts the pulses of the motor in the wait under way. -/
structure HomingRig where
  thread : WheelThread
  position : Int
  waited : Nat

/-- How long the thread waits at most, in pulses: four seconds for an edge, one for the rest of the way. -/
def HomingPc.limit : HomingPc → Option Nat
  | .wait _ | .waitPassThrough => some (4*spinPwmFrequencyDefault.toNat)
  | .settle => some spinPwmFrequencyDefault.toNat
  | _ => none

def HomingRig.timedOut (r : HomingRig) (pc : HomingPc) : Bool := pc.limit.any (· ≤ r.waited)

/-- The thread has nothing to do before the next pulse. -/
def HomingRig.blocked (r : HomingRig) (pc : HomingPc) : Bool :=
  match pc with
  | .wait _ | .waitPassThrough => !r.thread.wheel.encoderSem && !r.timedOut pc
  | .settle =>
    !r.thread.wheel.stepSem && !r.timedOut pc &&
      r.thread.wheel.current ≠ (microsteps120Degrees+microstepsNotchEdgeToCenter : Nat)
  | _ => false

/-- A step of the thread. -/
def homingThread (e : Encoder) (r : HomingRig) (pc : HomingPc) : HomingRig :=
  let next := (wheelStep r.thread (.thread ⟨.ok, r.timedOut pc, e.pin r.position⟩)).2
  ⟨next, r.position, if next.pc = r.thread.pc then r.waited else 0⟩

/-- A pulse of the motor, with its interrupts; where the motor stands, only time passes. -/
def homingPulse (e : Encoder) (r : HomingRig) : HomingRig :=
  match r.thread.wheel.pwm with
  | none => { r with waited := r.waited+1 }
  | some _ =>
    let direction := r.thread.wheel.direction
    let position := direction.advance 1 r.position
    let counted := (wheelStep r.thread .stepInterrupt).2
    ⟨if e.rises direction position then (wheelStep counted (.encoderInterrupt true)).2 else counted, position, r.waited+1⟩

/-- Each event is handled before the next pulse. -/
def homingRound (e : Encoder) (r : HomingRig) : HomingRig ⊕ HomingRig :=
  match r.thread.pc with
  | .homing pc => .inl (if r.blocked pc then homingPulse e r else homingThread e r pc)
  | _ => .inr r

variable {e : Encoder} {r r' : HomingRig} {pc : HomingPc} {position current : Int} {count waited : Nat} {noticed : Bool}

/-- The motor runs, and the thread waits for the encoder. -/
structure Waiting (pc : HomingPc) (count : Nat) (position current : Int) (waited : Nat) (noticed : Bool) (r : HomingRig) :
    Prop where
  pc : r.thread.pc = .homing pc
  count : r.thread.notchCount = count
  position : r.position = position
  current : r.thread.wheel.current = current
  waited : r.waited = waited
  noticed : r.thread.wheel.encoderSem = noticed
  state : r.thread.wheel.state = .homing
  direction : r.thread.wheel.direction = .forward
  pwm : r.thread.wheel.pwm ≠ none
  stepInterrupt : r.thread.wheel.stepInterrupt = true
  encoderInterrupt : r.thread.wheel.encoderInterrupt = true
  speed : SpeedAccepted r.thread.wheel

/-- The waits for an edge. -/
def HomingPc.forEdge : HomingPc → Bool
  | .wait _ | .waitPassThrough => true
  | _ => false

theorem Waiting.blocked (h : Waiting pc count position current waited false r) (hpc : pc.forEdge = true)
    (hwaited : waited < 512) : r.blocked pc = true := by
  have hlimit : r.timedOut pc = false := by
    rw [HomingRig.timedOut, h.waited]
    cases pc <;> first | contradiction | exact decide_eq_false (Nat.not_le.mpr hwaited)
  cases pc <;> first | contradiction | simp [HomingRig.blocked, h.noticed, hlimit]

/-- A pulse. -/
theorem Waiting.pulse (h : Waiting pc count position current waited noticed r) (hcurrent : OnCircle current) :
    Waiting pc count (Direction.forward.advance 1 position) (Direction.forward.advance 1 current) (waited+1)
      (noticed || e.rises .forward (Direction.forward.advance 1 position)) (homingPulse e r) := by
  obtain ⟨frequency, hpwm⟩ := Option.ne_none_iff_exists'.mp h.pwm
  have hcounted : (wheelStep r.thread .stepInterrupt).2 = { r.thread with wheel := stepIsr r.thread.wheel } := by
    rw [wheelStep]
    exact if_pos ⟨h.pwm, h.stepInterrupt⟩
  have hstep : (stepIsr r.thread.wheel).current = Direction.forward.advance 1 current := by
    rw [stepIsr_current (h.current ▸ hcurrent), h.direction, h.current]
  have hnoticed : (wheelStep { r.thread with wheel := stepIsr r.thread.wheel } (.encoderInterrupt true)).2 =
      { r.thread with wheel := { stepIsr r.thread.wheel with encoderSem := true } } := by
    have hencoder : (stepIsr r.thread.wheel).encoderInterrupt = true := h.encoderInterrupt
    have hstate : (stepIsr r.thread.wheel).state = .homing := h.state
    simp only [wheelStep, hencoder, if_true, encoderCallback, hstate]
  simp only [homingPulse, hpwm, hcounted, hnoticed, h.direction, h.position, h.waited]
  cases hrises : e.rises .forward (Direction.forward.advance 1 position) with
  | false =>
    exact ⟨h.pc, h.count, rfl, hstep, rfl, h.noticed.trans (Bool.or_false noticed).symm, h.state, h.direction, h.pwm, h.stepInterrupt,
      h.encoderInterrupt, h.speed⟩
  | true =>
    exact ⟨h.pc, h.count, rfl, hstep, rfl, (Bool.or_true noticed).symm, h.state, h.direction, h.pwm, h.stepInterrupt,
      h.encoderInterrupt, h.speed⟩

theorem Waiting.round (h : Waiting pc count position current waited false r) (hpc : pc.forEdge = true)
    (hwaited : waited < 512) : homingRound e r = .inl (homingPulse e r) := by
  simp only [homingRound, h.pc, h.blocked hpc hwaited, if_true]

/-- No edge comes up. -/
theorem Waiting.pulses (h : Waiting pc count position current 0 false r) (hpc : pc.forEdge = true)
    (hposition : OnCircle position) (hcurrent : OnCircle current) (n : Nat) (hn : n < 512)
    (hflat : ∀ k, 0 < k → k ≤ n → e.rises .forward (Direction.forward.advance k position) = false) :
    ∃ r', Loop.Reaches (homingRound e) r r' ∧
      Waiting pc count (Direction.forward.advance n position) (Direction.forward.advance n current) n false r' := by
  induction n with
  | zero =>
    rw [advance_zero _ hposition, advance_zero _ hcurrent]
    exact ⟨r, .refl r, h⟩
  | succ n ih =>
    obtain ⟨r', hreaches, hwaiting⟩ := ih (by omega) fun k hk hkn => hflat k hk (by omega)
    refine ⟨homingPulse e r', hreaches.snoc (hwaiting.round hpc (by omega)), ?_⟩
    have hpulse := hwaiting.pulse (e := e) (advance_onCircle _ n current)
    rwa [advance_advance, advance_advance, hflat (n+1) n.succ_pos (Nat.le_refl _)] at hpulse

/-- The first edge that comes up. -/
theorem Waiting.edge (h : Waiting pc count position current 0 false r) (hpc : pc.forEdge = true)
    (hposition : OnCircle position) (hcurrent : OnCircle current) (n : Nat) (hn : n < 512)
    (hflat : ∀ k, 0 < k → k ≤ n → e.rises .forward (Direction.forward.advance k position) = false)
    (hrises : e.rises .forward (Direction.forward.advance (n+1) position) = true) :
    ∃ r', Loop.Reaches (homingRound e) r r' ∧
      Waiting pc count (Direction.forward.advance (n+1) position) (Direction.forward.advance (n+1) current) (n+1) true r' := by
  obtain ⟨r', hreaches, hwaiting⟩ := h.pulses hpc hposition hcurrent n hn hflat
  refine ⟨homingPulse e r', hreaches.snoc (hwaiting.round hpc hn), ?_⟩
  have hpulse := hwaiting.pulse (e := e) (advance_onCircle _ n current)
  rwa [advance_advance, advance_advance, hrises] at hpulse

/-! What the thread does with an edge. -/

theorem homingThread_eq (hpc : r.thread.pc = .homing pc) :
    homingThread e r pc =
      ⟨homingStep ⟨.ok, r.timedOut pc, e.pin r.position⟩ r.thread pc, r.position,
        if (homingStep ⟨.ok, r.timedOut pc, e.pin r.position⟩ r.thread pc).pc = .homing pc then r.waited else 0⟩ := by
  have hstep : (wheelStep r.thread (.thread ⟨.ok, r.timedOut pc, e.pin r.position⟩)).2 =
      homingStep ⟨.ok, r.timedOut pc, e.pin r.position⟩ r.thread pc := by
    rw [wheelStep, mainStep, hpc]
  rw [homingThread, hstep, hpc]

/-- A step of the thread that goes on with something else. -/
theorem reaches_thread (hpc : r.thread.pc = .homing pc) (hblocked : r.blocked pc = false) {next : WheelThread}
    (hnext : homingStep ⟨.ok, r.timedOut pc, e.pin r.position⟩ r.thread pc = next) {pc' : HomingPc}
    (hpc' : next.pc = .homing pc') (hother : pc' ≠ pc) : Loop.Reaches (homingRound e) r ⟨next, r.position, 0⟩ := by
  have hdiffers : next.pc ≠ .homing pc := by
    rw [hpc']
    exact fun heq => hother (MainPc.homing.inj heq)
  refine (Loop.Reaches.refl r).snoc ?_
  rw [homingRound, hpc]
  simp only [hblocked, Bool.false_eq_true, if_false, homingThread_eq hpc, hnext, if_neg hdiffers]

theorem stepRelative_ok {w : Wheel} (hspeed : SpeedAccepted w) {stepCount : Nat} (hpos : 0 < stepCount)
    (hle : stepCount ≤ microsteps360Degrees) (current : Int) :
    polarizerWheelStepRelative .ok spinPwmFrequencyDefault stepCount current w =
      (true, { w with
        direction := .forward
        target := (current+stepCount).tmod microsteps360Degrees
        stepInterrupt := true
        pwm := some spinPwmFrequencyDefault }) := by
  have hvalid : ¬(spinPwmFrequencyDefault = 0 ∨ (stepCount : Int) = 0 ∨
      microsteps360Degrees < (stepCount : Int).natAbs) := by
    rintro (hzero | hzero | hmore)
    · exact absurd hzero (by decide)
    · omega
    · rw [Int.natAbs_natCast] at hmore
      omega
  have haccepted : ∀ w' : Wheel, w'.maxSpeedMsPerTurn = w.maxSpeedMsPerTurn →
      polarizerRotate .ok spinPwmFrequencyDefault w' =
        (true, { w' with stepInterrupt := true, pwm := some spinPwmFrequencyDefault }) := by
    intro w' hsame
    have hspeed' : SpeedAccepted w' := by
      rw [SpeedAccepted, hsame]
      exact hspeed
    obtain ⟨hlow, -⟩ := getMaxFrequency_bounds hspeed'
    have hfrequency : FrequencyAccepted w' spinPwmFrequencyDefault := by
      refine .inr ⟨by decide, UInt32.le_iff_toNat_le.mpr (Nat.le_trans ?_ hlow)⟩
      decide
    exact polarizerRotate_ok hspeed' hfrequency
  rw [polarizerWheelStepRelative, if_neg hvalid, if_neg (by omega)]
  exact haccepted _ rfl

/-- The thread is in homing, the motor stands. -/
structure AtRest (pc : HomingPc) (count : Nat) (position : Int) (r : HomingRig) : Prop where
  pc : r.thread.pc = .homing pc
  count : r.thread.notchCount = count
  position : r.position = position
  state : r.thread.wheel.state = .homing
  encoderInterrupt : r.thread.wheel.encoderInterrupt = true
  speed : SpeedAccepted r.thread.wheel

/-- The start of a spin, with the counter at zero. -/
theorem AtRest.spin (h : AtRest (.clear 0) count position r) :
    ∃ r', Loop.Reaches (homingRound e) r r' ∧ Waiting (.wait 0) count position 0 0 false r' := by
  let cleared : WheelThread := { r.thread with
    wheel := { r.thread.wheel with current := 0, encoderSem := false }
    pc := .homing (.readStart 0) }
  let read : WheelThread := { cleared with pc := .homing (.rotate 0 0) }
  let spinning : WheelThread := { read with
    wheel := { read.wheel with
      direction := .forward
      target := (0+(microsteps120Degrees*2 : Nat) : Int).tmod microsteps360Degrees
      stepInterrupt := true
      pwm := some spinPwmFrequencyDefault }
    pc := .homing (.wait 0) }
  have hclear : Loop.Reaches (homingRound e) r ⟨cleared, r.position, 0⟩ := reaches_thread h.pc rfl rfl rfl nofun
  have hread : Loop.Reaches (homingRound e) ⟨cleared, r.position, 0⟩ ⟨read, r.position, 0⟩ :=
    reaches_thread rfl rfl rfl rfl nofun
  have hspin : Loop.Reaches (homingRound e) ⟨read, r.position, 0⟩ ⟨spinning, r.position, 0⟩ := by
    refine reaches_thread rfl rfl ?_ rfl nofun
    have hrelative := @stepRelative_ok read.wheel h.speed (microsteps120Degrees*2) (by decide) (by decide) 0
    simp only [homingStep, hrelative, if_true]
    rfl
  refine ⟨_, (hclear.trans hread).trans hspin, ?_⟩
  exact ⟨rfl, h.count, h.position, rfl, rfl, rfl, h.state, rfl, nofun, rfl, h.encoderInterrupt, h.speed⟩

/-- The motor is halted at an edge, and the distance to the one before is looked at. -/
theorem Waiting.halted (h : Waiting (.wait 0) count position current waited true r) :
    ∃ r', Loop.Reaches (homingRound e) r r' ∧
      AtRest (.countNotch (count ≠ 0 ∧ (current < closeNotchDetectionMicrostepsMax ∧
        closeNotchDetectionMicrostepsMin < current))) count position r' := by
  let halted : WheelThread := { r.thread with
    wheel := polarizerHalt .ok { r.thread.wheel with encoderSem := false }
    pc := .homing .checkNotch }
  let checked : WheelThread := { halted with
    pc := .homing (.countNotch (count ≠ 0 ∧ (current < closeNotchDetectionMicrostepsMax ∧
      closeNotchDetectionMicrostepsMin < current))) }
  have hblocked : r.blocked (.wait 0) = false := by simp [HomingRig.blocked, h.noticed]
  have hhalt : Loop.Reaches (homingRound e) r ⟨halted, r.position, 0⟩ := by
    refine reaches_thread h.pc hblocked ?_ rfl nofun
    rw [homingStep]
    exact if_pos h.noticed
  have hcheck : Loop.Reaches (homingRound e) ⟨halted, r.position, 0⟩ ⟨checked, r.position, 0⟩ := by
    refine reaches_thread rfl rfl ?_ rfl nofun
    simp only [homingStep, checked, ← h.count, ← h.current]
    rfl
  refine ⟨_, hhalt.trans hcheck, ?_⟩
  exact ⟨rfl, h.count, h.position, h.state, h.encoderInterrupt, h.speed⟩

/-- Any edge but the second of the close pair. -/
theorem AtRest.nextNotch (h : AtRest (.countNotch false) count position r) (hcount : count+1 < notchDetectAttempts) :
    ∃ r', Loop.Reaches (homingRound e) r r' ∧ AtRest (.clear 0) (count+1) position r' := by
  let counted : WheelThread := { r.thread with
    notchCount := r.thread.notchCount+1
    wheel := { r.thread.wheel with current := 0 }
    pc := .homing (.clear 0) }
  have hnext : Loop.Reaches (homingRound e) r ⟨counted, r.position, 0⟩ := by
    refine reaches_thread h.pc rfl ?_ rfl nofun
    simp only [homingStep, Bool.false_eq_true, if_false, h.count, if_pos hcount]
    rw [← h.count]
  exact ⟨_, hnext, rfl, congrArg (·+1) h.count, h.position, h.state, h.encoderInterrupt, h.speed⟩

/-- The second of the pair: the wheel is sent on to the pass-through position. -/
theorem AtRest.found (h : AtRest (.countNotch true) count position r) :
    ∃ r', Loop.Reaches (homingRound e) r r' ∧ Waiting .waitPassThrough (count+1) position 0 0 false r' := by
  let counted : WheelThread := { r.thread with
    notchCount := r.thread.notchCount+1
    wheel := { r.thread.wheel with current := 0 }
    pc := .homing .readNotch }
  let read : WheelThread := { counted with
    wheel := { counted.wheel with encoderSem := false }
    pc := .homing (.rotateOn 0) }
  let rotating : WheelThread := { read with
    wheel := { read.wheel with
      direction := .forward
      target := (0+(microstepsNotchEdgeToCenter+microsteps120Degrees : Nat) : Int).tmod microsteps360Degrees
      stepInterrupt := true
      pwm := some spinPwmFrequencyDefault }
    pc := .homing .waitPassThrough }
  have hcount : Loop.Reaches (homingRound e) r ⟨counted, r.position, 0⟩ := reaches_thread h.pc rfl rfl rfl nofun
  have hread : Loop.Reaches (homingRound e) ⟨counted, r.position, 0⟩ ⟨read, r.position, 0⟩ :=
    reaches_thread rfl rfl rfl rfl nofun
  have hrotate : Loop.Reaches (homingRound e) ⟨read, r.position, 0⟩ ⟨rotating, r.position, 0⟩ := by
    refine reaches_thread rfl rfl ?_ rfl nofun
    have hrelative := @stepRelative_ok read.wheel h.speed (microstepsNotchEdgeToCenter+microsteps120Degrees) (by decide)
      (by decide) 0
    simp only [homingStep, hrelative]
    rfl
  refine ⟨_, (hcount.trans hread).trans hrotate, ?_⟩
  exact ⟨rfl, congrArg (·+1) h.count, h.position, rfl, rfl, rfl, h.state, rfl, nofun, rfl, h.encoderInterrupt, h.speed⟩

/-! The rest of the way. -/

/-- The edge of the pass-through bump corrects the counter. -/
theorem Waiting.corrected (h : Waiting .waitPassThrough count position current waited true r) :
    ∃ r', Loop.Reaches (homingRound e) r r' ∧ Waiting .settle count position microsteps120Degrees 0 false r' := by
  let taken : WheelThread := { r.thread with
    wheel := { r.thread.wheel with encoderSem := false }
    pc := .homing .correctCounter }
  let corrected : WheelThread := { taken with
    wheel := { taken.wheel with current := microsteps120Degrees }
    pc := .homing .correctTarget }
  let targeted : WheelThread := { corrected with
    wheel := { corrected.wheel with target := microsteps120Degrees+microstepsNotchEdgeToCenter }
    pc := .homing .settle }
  have hblocked : r.blocked .waitPassThrough = false := by simp [HomingRig.blocked, h.noticed]
  have htake : Loop.Reaches (homingRound e) r ⟨taken, r.position, 0⟩ := by
    refine reaches_thread h.pc hblocked ?_ rfl nofun
    rw [homingStep]
    exact if_pos h.noticed
  have hcorrect : Loop.Reaches (homingRound e) ⟨taken, r.position, 0⟩ ⟨corrected, r.position, 0⟩ :=
    reaches_thread rfl rfl rfl rfl nofun
  have htarget : Loop.Reaches (homingRound e) ⟨corrected, r.position, 0⟩ ⟨targeted, r.position, 0⟩ :=
    reaches_thread rfl rfl rfl rfl nofun
  refine ⟨_, (htake.trans hcorrect).trans htarget, ?_⟩
  exact ⟨rfl, h.count, h.position, rfl, rfl, rfl, h.state, h.direction, h.pwm, h.stepInterrupt, h.encoderInterrupt, h.speed⟩

theorem Waiting.settle_timedOut (h : Waiting .settle count position current waited noticed r) (hwaited : waited < 128) :
    r.timedOut .settle = false := by
  rw [HomingRig.timedOut, h.waited]
  exact decide_eq_false (Nat.not_le.mpr hwaited)

/-- A step of the rest of the way: its event is taken, and the next one comes. -/
theorem Waiting.settles (h : Waiting .settle count position current waited noticed r) (hwaited : waited < 128)
    (hcurrent : OnCircle current) (hbefore : current ≠ (microsteps120Degrees+microstepsNotchEdgeToCenter : Nat)) :
    ∃ r' noticed', Loop.Reaches (homingRound e) r r' ∧
      Waiting .settle count (Direction.forward.advance 1 position) (Direction.forward.advance 1 current) (waited+1) noticed' r' := by
  have htime := h.settle_timedOut hwaited
  obtain ⟨taken, htaken, hreaches, hstepSem⟩ : ∃ taken, Waiting .settle count position current waited noticed taken ∧
      Loop.Reaches (homingRound e) r taken ∧ taken.thread.wheel.stepSem = false := by
    cases hstepSem : r.thread.wheel.stepSem with
    | false => exact ⟨r, h, .refl r, hstepSem⟩
    | true =>
      have hblocked : r.blocked .settle = false := by simp [HomingRig.blocked, hstepSem]
      have hnext : homingStep ⟨.ok, r.timedOut .settle, e.pin r.position⟩ r.thread .settle =
          { r.thread with wheel := { r.thread.wheel with stepSem := false } } := by
        rw [homingStep, htime]
        refine if_neg ?_
        rintro (hthere | hout)
        · exact hbefore (h.current.symm.trans hthere)
        · contradiction
      refine ⟨⟨{ r.thread with wheel := { r.thread.wheel with stepSem := false } }, r.position, r.waited⟩, ?_, ?_, rfl⟩
      · exact ⟨h.pc, h.count, h.position, h.current, h.waited, h.noticed, h.state, h.direction, h.pwm, h.stepInterrupt,
          h.encoderInterrupt, h.speed⟩
      · refine (Loop.Reaches.refl r).snoc ?_
        rw [homingRound, h.pc]
        simp only [hblocked, Bool.false_eq_true, if_false, homingThread_eq h.pc, hnext, h.pc, if_true]
  have hblocked : taken.blocked .settle = true := by
    rw [HomingRig.blocked, hstepSem, htaken.settle_timedOut hwaited, htaken.current]
    exact decide_eq_true hbefore
  refine ⟨homingPulse e taken, _, hreaches.snoc ?_, htaken.pulse hcurrent⟩
  simp only [homingRound, htaken.pc, hblocked, if_true]

theorem Waiting.settled (h : Waiting .settle count position microsteps120Degrees 0 noticed r) (hposition : OnCircle position)
    (n : Nat) (hn : n ≤ microstepsNotchEdgeToCenter) :
    ∃ r' noticed', Loop.Reaches (homingRound e) r r' ∧
      Waiting .settle count (Direction.forward.advance n position) (microsteps120Degrees+n : Nat) n noticed' r' := by
  induction n with
  | zero =>
    rw [advance_zero _ hposition]
    exact ⟨r, noticed, .refl r, h⟩
  | succ n ih =>
    have hlt : n < 6 := hn
    obtain ⟨r', noticed', hreaches, hsettling⟩ := ih (by omega)
    have hcurrent : OnCircle (microsteps120Degrees+n : Nat) := by
      simp only [OnCircle, microsteps120Degrees, microsteps360Degrees, stepsPerTurn, microstepsPerStep]
      omega
    have hbefore : ((microsteps120Degrees+n : Nat) : Int) ≠ (microsteps120Degrees+microstepsNotchEdgeToCenter : Nat) := by
      simp only [microstepsNotchEdgeToCenter, microstepsPerStep]
      omega
    obtain ⟨r'', noticed'', hstep, hnext⟩ := hsettling.settles (e := e) (by omega) hcurrent hbefore
    refine ⟨r'', noticed'', hreaches.trans hstep, ?_⟩
    have hsum : Direction.forward.advance 1 (microsteps120Degrees+n : Nat) = (microsteps120Degrees+(n+1) : Nat) := by
      simp only [Direction.advance, Direction.sign, microsteps120Degrees, microsteps360Degrees, stepsPerTurn,
        microstepsPerStep]
      omega
    rwa [advance_advance, hsum] at hnext

/-- Homing has succeeded, and the motor is halted at the position. -/
structure HomedAt (position : Int) (r : HomingRig) : Prop where
  success : r.thread.wheel.homingSuccess = true
  state : r.thread.wheel.state = .idle
  pwm : r.thread.wheel.pwm = none
  current : r.thread.wheel.current = 0
  position : r.position = position

theorem Waiting.homed (h : Waiting .settle count position (microsteps120Degrees+microstepsNotchEdgeToCenter : Nat) waited
    noticed r) : ∃ r', Loop.Ends (homingRound e) r r' ∧ HomedAt position r' := by
  let reached : WheelThread := { r.thread with pc := .homing .halt }
  let halted : WheelThread := { reached with
    wheel := { polarizerHalt .ok (disableEncoder .ok reached.wheel) with state := .idle }
    pc := .homing .succeed }
  let succeeded : WheelThread := { halted with wheel := { halted.wheel with homingSuccess := true }, pc := .homing .clearLast }
  have hblocked : r.blocked .settle = false := by simp [HomingRig.blocked, h.current]
  have hreach : Loop.Reaches (homingRound e) r ⟨reached, r.position, 0⟩ := by
    refine reaches_thread h.pc hblocked ?_ rfl nofun
    rw [homingStep]
    exact if_pos (.inl h.current)
  have hhalt : Loop.Reaches (homingRound e) ⟨reached, r.position, 0⟩ ⟨halted, r.position, 0⟩ :=
    reaches_thread rfl rfl rfl rfl nofun
  have hsucceed : Loop.Reaches (homingRound e) ⟨halted, r.position, 0⟩ ⟨succeeded, r.position, 0⟩ :=
    reaches_thread rfl rfl rfl rfl nofun
  let last : HomingRig := homingThread e ⟨succeeded, r.position, 0⟩ .clearLast
  have hlast : homingRound e ⟨succeeded, r.position, 0⟩ = .inl last := rfl
  have hover : homingRound e last = .inr last := by
    have hpc : last.thread.pc = if r.thread.wheel.calibration.needsCalibration then .calibration .start else .poll := rfl
    rw [homingRound, hpc]
    split_ifs <;> rfl
  refine ⟨last, .before (((hreach.trans hhalt).trans hsucceed).snoc hlast) (.stop hover), ?_⟩
  exact ⟨rfl, rfl, rfl, rfl, h.position⟩

/-! From edge to edge. -/

/-- The next edge, `n` microsteps on. -/
structure NextEdge (e : Encoder) (position next : Int) (n : Nat) : Prop where
  pos : 0 < n
  lt : n < microsteps360Degrees
  there : Direction.forward.advance n position = next
  rises : e.rises .forward next = true
  flat : ∀ k, 0 < k → k < n → e.rises .forward (Direction.forward.advance k position) = false

/-- From one edge to the next, in a turn that begins below the pass-through position. -/
inductive Encoder.Gap (e : Encoder) : Int → Int → Prop
  | toVertical : e.Gap (-e.passThroughHalf) e.verticalEdge
  | toExtra : e.Gap e.verticalEdge e.extraFirst
  | toHorizontal : e.Gap e.extraFirst e.horizontalEdge
  | toPassThrough : e.Gap e.horizontalEdge (microsteps360Degrees-e.passThroughHalf)

/-- The edges as numbers. -/
theorem Encoder.order (e : Encoder) :
    0 ≤ e.passThroughHalf ∧ e.passThroughHalf < e.verticalEdge ∧ e.verticalEdge < e.extraFirst ∧
      e.extraFirst < e.horizontalEdge ∧ e.horizontalEdge+e.passThroughHalf < 384 ∧ e.passThroughHalf < 128 := by
  obtain ⟨hpassThrough, hvertical, hhorizontal, hextra⟩ := e.wide
  obtain ⟨hpv, hvx, hxh, hhp⟩ := e.apart
  simp only [Encoder.verticalEdge, Encoder.horizontalEdge, microsteps120Degrees, microsteps360Degrees, stepsPerTurn,
    microstepsPerStep] at *
  omega

theorem Encoder.Gap.bounds {first second : Int} (h : e.Gap first second) : first < second ∧ second-first < 384 := by
  obtain ⟨hzero, hvertical, hextra, hhorizontal, hturn, hpassThrough⟩ := e.order
  cases h with
  | toVertical => omega
  | toExtra => omega
  | toHorizontal => omega
  | toPassThrough =>
    simp only [microsteps360Degrees, stepsPerTurn, microstepsPerStep]
    omega

theorem Encoder.rises_emod_iff (e : Encoder) (position : Int) :
    e.rises .forward (position%384) = true ↔ position%384 = (-e.passThroughHalf)%384 ∨ position%384 = e.verticalEdge ∨
      position%384 = e.extraFirst ∨ position%384 = e.horizontalEdge :=
  e.rises_iff ⟨Int.emod_nonneg _ (by decide), Int.emod_lt_of_pos _ (by decide)⟩

theorem Encoder.Gap.rises {first second : Int} (h : e.Gap first second) : e.rises .forward (second%384) = true := by
  obtain ⟨hzero, hvertical, hextra, hhorizontal, hturn, hpassThrough⟩ := e.order
  rw [e.rises_emod_iff]
  cases h with
  | toVertical => omega
  | toExtra => omega
  | toHorizontal => omega
  | toPassThrough =>
    simp only [microsteps360Degrees, stepsPerTurn, microstepsPerStep]
    omega

theorem Encoder.Gap.flat {first second position : Int} (h : e.Gap first second) (hfrom : first < position)
    (hto : position < second) : e.rises .forward (position%384) = false := by
  obtain ⟨hzero, hvertical, hextra, hhorizontal, hturn, hpassThrough⟩ := e.order
  rw [← Bool.not_eq_true, e.rises_emod_iff]
  cases h with
  | toVertical => omega
  | toExtra => omega
  | toHorizontal => omega
  | toPassThrough =>
    simp only [microsteps360Degrees, stepsPerTurn, microstepsPerStep] at hto
    omega

theorem Encoder.Gap.nextEdge {first second position : Int} (h : e.Gap first second) (hfrom : first ≤ position)
    (hto : position < second) :
    NextEdge e (position%384) (second%384) (second-position).toNat := by
  obtain ⟨-, hsize⟩ := h.bounds
  have hadvance (k : Nat) : Direction.forward.advance k (position%384) = (position+k)%384 := by
    simp only [Direction.advance, Direction.sign, microsteps360Degrees, stepsPerTurn, microstepsPerStep]
    omega
  refine ⟨by omega, ?_, ?_, h.rises, fun k hk hlt => ?_⟩
  · simp only [microsteps360Degrees, stepsPerTurn, microstepsPerStep]
    omega
  · rw [hadvance]
    congr 1
    omega
  · rw [hadvance]
    exact h.flat (by omega) (by omega)

/-- Every position of the circle is between two edges. -/
theorem Encoder.gap (e : Encoder) (h : OnCircle position) :
    ∃ first second unwrapped, e.Gap first second ∧ first ≤ unwrapped ∧ unwrapped < second ∧
      unwrapped%384 = position := by
  obtain ⟨hzero, hvertical, hextra, hhorizontal, hturn, hpassThrough⟩ := e.order
  obtain ⟨hnonneg, hlt⟩ := h
  simp only [microsteps360Degrees, stepsPerTurn, microstepsPerStep] at hlt
  by_cases hatVertical : position < e.verticalEdge
  · exact ⟨_, _, position, .toVertical, by omega, hatVertical, by omega⟩
  by_cases hatExtra : position < e.extraFirst
  · exact ⟨_, _, position, .toExtra, by omega, hatExtra, by omega⟩
  by_cases hatHorizontal : position < e.horizontalEdge
  · exact ⟨_, _, position, .toHorizontal, by omega, hatHorizontal, by omega⟩
  by_cases hatPassThrough : position < microsteps360Degrees-e.passThroughHalf
  · exact ⟨_, _, position, .toPassThrough, by omega, hatPassThrough, by omega⟩
  · simp only [microsteps360Degrees, stepsPerTurn, microstepsPerStep] at hatPassThrough
    exact ⟨_, _, position-384, .toVertical, by omega, by omega, by omega⟩

variable {first second unwrapped next : Int} {n : Nat}

theorem Waiting.nextEdge (h : Waiting pc count position 0 0 false r) (hpc : pc.forEdge = true) (hposition : OnCircle position)
    (hnext : NextEdge e position next n) :
    ∃ r', Loop.Reaches (homingRound e) r r' ∧ Waiting pc count next n n true r' := by
  obtain ⟨before, rfl⟩ : ∃ before, n = before+1 := ⟨n-1, by have := hnext.pos; omega⟩
  have hlt := hnext.lt
  have hcounted : Direction.forward.advance (before+1) 0 = (before+1 : Nat) := by
    simp only [Direction.advance, Direction.sign, microsteps360Degrees, stepsPerTurn, microstepsPerStep] at hlt ⊢
    omega
  simp only [microsteps360Degrees, stepsPerTurn, microstepsPerStep] at hlt
  have hrises := hnext.rises
  rw [← hnext.there] at hrises
  have hedge := h.edge hpc hposition (by decide) before (by omega) (fun k hk hkn => hnext.flat k hk (by omega)) hrises
  rwa [hnext.there, hcounted] at hedge

theorem AtRest.hop (h : AtRest (.clear 0) count position r) (hposition : OnCircle position)
    (hnext : NextEdge e position next n) :
    ∃ r', Loop.Reaches (homingRound e) r r' ∧
      AtRest (.countNotch (count ≠ 0 ∧ ((n : Int) < closeNotchDetectionMicrostepsMax ∧
        closeNotchDetectionMicrostepsMin < n))) count next r' := by
  obtain ⟨spun, hspin, hwaiting⟩ := h.spin (e := e)
  obtain ⟨arrived, hturn, hedge⟩ := hwaiting.nextEdge rfl hposition hnext
  obtain ⟨checked, hhalt, hrest⟩ := hedge.halted (e := e)
  exact ⟨checked, (hspin.trans hturn).trans hhalt, hrest⟩

theorem emod_onCircle (position : Int) : OnCircle (position%384) :=
  ⟨Int.emod_nonneg _ (by decide), Int.emod_lt_of_pos _ (by decide)⟩

/-- The way to an edge that is not taken for the second of the pair. -/
theorem AtRest.passes (h : AtRest (.clear 0) count (unwrapped%384) r) (hgap : e.Gap first second) (hfrom : first ≤ unwrapped)
    (hto : unwrapped < second) (hfar : count = 0 ∨ ¬ClosePair unwrapped second) (hcount : count+1 < notchDetectAttempts) :
    ∃ r', Loop.Reaches (homingRound e) r r' ∧ AtRest (.clear 0) (count+1) (second%384) r' := by
  obtain ⟨checked, hhop, hrest⟩ := h.hop (emod_onCircle _) (hgap.nextEdge hfrom hto)
  have hno : decide (count ≠ 0 ∧ (((second-unwrapped).toNat : Int) < closeNotchDetectionMicrostepsMax ∧
      closeNotchDetectionMicrostepsMin < (second-unwrapped).toNat)) = false := by
    refine decide_eq_false ?_
    simp only [ClosePair] at hfar
    simp only [closeNotchDetectionMicrostepsMax, closeNotchDetectionMicrostepsMin, microstepsPerStep]
    omega
  rw [hno] at hrest
  obtain ⟨counted, hcounts, hclear⟩ := hrest.nextNotch (e := e) hcount
  exact ⟨counted, hhop.trans hcounts, hclear⟩

/-- From here on homing succeeds. -/
def Homes (e : Encoder) (r : HomingRig) : Prop :=
  ∃ r', Loop.Ends (homingRound e) r r' ∧
    HomedAt (Direction.forward.advance microstepsNotchEdgeToCenter e.passThroughEdge) r'

theorem Homes.before (hreaches : Loop.Reaches (homingRound e) r r') (h : Homes e r') : Homes e r := by
  obtain ⟨last, hends, hhomed⟩ := h
  exact ⟨last, .before hreaches hends, hhomed⟩

/-- Half a bump before the end of the turn is half a bump before its beginning. -/
theorem passThrough_turn (half : Int) : (microsteps360Degrees-half)%384 = -half%384 := by
  simp only [microsteps360Degrees, stepsPerTurn, microstepsPerStep]
  omega

/-- From the first edge of the pair, homing succeeds. -/
theorem AtRest.atExtra (h : AtRest (.clear 0) count (e.extraFirst%384) r) (hcount : count ≠ 0) :
    Homes e r := by
  obtain ⟨hordered, -⟩ := (Encoder.Gap.toHorizontal (e := e)).bounds
  obtain ⟨hordered', -⟩ := (Encoder.Gap.toPassThrough (e := e)).bounds
  obtain ⟨checked, hhop, hrest⟩ := h.hop (emod_onCircle _) (Encoder.Gap.toHorizontal.nextEdge (Int.le_refl _) hordered)
  have hyes : decide (count ≠ 0 ∧ (((e.horizontalEdge-e.extraFirst).toNat : Int) < closeNotchDetectionMicrostepsMax ∧
      closeNotchDetectionMicrostepsMin < (e.horizontalEdge-e.extraFirst).toNat)) = true := by
    refine decide_eq_true ⟨hcount, ?_⟩
    obtain ⟨hmin, hmax⟩ : ClosePair e.extraFirst e.horizontalEdge := e.close
    simp only [closeNotchDetectionMicrostepsMax, closeNotchDetectionMicrostepsMin, microstepsPerStep]
    omega
  rw [hyes] at hrest
  obtain ⟨found, hfound, hwaiting⟩ := hrest.found (e := e)
  obtain ⟨arrived, hturn, hedge⟩ := hwaiting.nextEdge rfl (emod_onCircle _)
    (Encoder.Gap.toPassThrough.nextEdge (Int.le_refl _) hordered')
  obtain ⟨corrected, hcorrect, hsettle⟩ := hedge.corrected (e := e)
  obtain ⟨settled, noticed, hsettles, hthere⟩ := hsettle.settled (e := e) (emod_onCircle _) microstepsNotchEdgeToCenter
    (Nat.le_refl _)
  obtain ⟨r', hends, hhomed⟩ := hthere.homed (e := e)
  rw [passThrough_turn] at hhomed
  exact ⟨r', .before ((((hhop.trans hfound).trans hturn).trans hcorrect).trans hsettles) hends, hhomed⟩

theorem AtRest.atVertical (h : AtRest (.clear 0) count (e.verticalEdge%384) r)
    (hlt : count+1 < notchDetectAttempts) : Homes e r := by
  obtain ⟨next, hpass, hextra⟩ := h.passes .toExtra (Int.le_refl _) (Encoder.Gap.toExtra (e := e)).bounds.1
    (.inr e.only.2.1) hlt
  exact (hextra.atExtra (by omega)).before hpass

theorem AtRest.atPassThrough (h : AtRest (.clear 0) count (-e.passThroughHalf%384) r)
    (hlt : count+2 < notchDetectAttempts) : Homes e r := by
  obtain ⟨next, hpass, hvertical⟩ := h.passes .toVertical (Int.le_refl _) (Encoder.Gap.toVertical (e := e)).bounds.1
    (.inr e.only.1) (by omega)
  exact (hvertical.atVertical hlt).before hpass

theorem AtRest.atHorizontal (h : AtRest (.clear 0) count (e.horizontalEdge%384) r)
    (hlt : count+3 < notchDetectAttempts) : Homes e r := by
  obtain ⟨next, hpass, hthere⟩ := h.passes .toPassThrough (Int.le_refl _) (Encoder.Gap.toPassThrough (e := e)).bounds.1
    (.inr e.only.2.2) (by omega)
  rw [passThrough_turn] at hthere
  exact (hthere.atPassThrough hlt).before hpass

/-- Homing begins, whatever the wheel did before. -/
theorem homing_atRest {s : WheelThread} (hpc : s.pc = .homing .start) (hspeed : SpeedAccepted s.wheel) (position : Int) :
    ∃ r', Loop.Reaches (homingRound e) ⟨s, position, 0⟩ r' ∧ AtRest (.clear 0) 0 position r' := by
  refine ⟨_, reaches_thread hpc rfl rfl rfl nofun, ?_⟩
  exact ⟨rfl, rfl, rfl, rfl, rfl, hspeed⟩

/-- From anywhere and in any state, homing ends, succeeds, and leaves the wheel with its counter at zero at the distance
from an edge to the centre behind the edge of the pass-through bump. -/
theorem homing_succeeds (e : Encoder) (s : WheelThread) (position : Int) (hpc : s.pc = .homing .start)
    (hspeed : SpeedAccepted s.wheel) (hposition : OnCircle position) :
    ∃ r, Loop.Ends (homingRound e) ⟨s, position, 0⟩ r ∧
      HomedAt (Direction.forward.advance microstepsNotchEdgeToCenter e.passThroughEdge) r := by
  obtain ⟨begun, hbegin, hrest⟩ := homing_atRest (e := e) hpc hspeed position
  obtain ⟨first, second, unwrapped, hgap, hfrom, hto, rfl⟩ := e.gap hposition
  obtain ⟨counted, hpass, hedge⟩ := hrest.passes hgap hfrom hto (.inl rfl) (by decide)
  have hhomes : Homes e counted := by
    cases hgap with
    | toVertical => exact hedge.atVertical (by decide)
    | toExtra => exact hedge.atExtra (by decide)
    | toHorizontal => exact hedge.atHorizontal (by decide)
    | toPassThrough =>
      rw [passThrough_turn] at hedge
      exact hedge.atPassThrough (by decide)
  exact hhomes.before (hbegin.trans hpass)

/-! Bumps that are as wide as the default says. -/

theorem Bumps.default_wide (b : Bumps) : (0 : Int) ≤ microstepsNotchEdgeToCenter ∧ (0 : Int) ≤ microstepsNotchEdgeToCenter ∧
    (0 : Int) ≤ microstepsNotchEdgeToCenter ∧ b.extraFirst ≤ b.extraLast :=
  ⟨by decide, by decide, by decide, b.apart.1⟩

theorem Bumps.default_apart (b : Bumps) :
    (microstepsNotchEdgeToCenter+1 : Int) < microsteps120Degrees-microstepsNotchEdgeToCenter ∧
      microsteps120Degrees+microstepsNotchEdgeToCenter+1 < b.extraFirst ∧
      b.extraLast+1 < 2*microsteps120Degrees-microstepsNotchEdgeToCenter ∧
      (2*microsteps120Degrees+microstepsNotchEdgeToCenter+1 : Int) <
        microsteps360Degrees-microstepsNotchEdgeToCenter := by
  obtain ⟨hfirst, hlast⟩ := b.close
  obtain ⟨hle, hapart⟩ := b.apart
  simp only [microstepsNotchEdgeToCenter, microsteps120Degrees, microsteps360Degrees, stepsPerTurn, microstepsPerStep]
  omega

theorem Bumps.default_close (b : Bumps) :
    ClosePair b.extraFirst (2*microsteps120Degrees-microstepsNotchEdgeToCenter) := by
  obtain ⟨hfirst, hlast⟩ := b.close
  simp only [ClosePair, microstepsNotchEdgeToCenter, microsteps120Degrees, microsteps360Degrees, stepsPerTurn,
    microstepsPerStep]
  omega

theorem Bumps.default_only (b : Bumps) :
    ¬ClosePair (-microstepsNotchEdgeToCenter) (microsteps120Degrees-microstepsNotchEdgeToCenter) ∧
      ¬ClosePair (microsteps120Degrees-microstepsNotchEdgeToCenter) b.extraFirst ∧
      ¬ClosePair (2*microsteps120Degrees-microstepsNotchEdgeToCenter)
        (microsteps360Degrees-microstepsNotchEdgeToCenter) := by
  obtain ⟨hfirst, hlast⟩ := b.close
  simp only [ClosePair, microstepsNotchEdgeToCenter, microsteps120Degrees, microsteps360Degrees, stepsPerTurn,
    microstepsPerStep]
  omega

/-- The encoder of a wheel whose bumps are as wide as the default says. -/
def Bumps.encoder (b : Bumps) : Encoder where
  passThroughHalf := microstepsNotchEdgeToCenter
  verticalHalf := microstepsNotchEdgeToCenter
  horizontalHalf := microstepsNotchEdgeToCenter
  extraFirst := b.extraFirst
  extraLast := b.extraLast
  wide := b.default_wide
  apart := b.default_apart
  close := b.default_close
  only := b.default_only

theorem Bumps.encoder_pin (b : Bumps) (position : Int) : b.encoder.pin position = b.pin position := rfl

/-- From between the pair, after the start. -/
theorem homing_succeeds_between :
    ∃ r, Loop.Ends (homingRound someBumps.encoder) ⟨{ wheelThreadInit with pc := .homing .start }, 240, 0⟩ r ∧
      HomedAt (Direction.forward.advance microstepsNotchEdgeToCenter someBumps.encoder.passThroughEdge) r :=
  homing_succeeds someBumps.encoder { wheelThreadInit with pc := .homing .start } 240 rfl (by decide) (by decide)

example : Direction.forward.advance microstepsNotchEdgeToCenter someBumps.encoder.passThroughEdge = 0 := by decide

/-! The speed settings of every reachable state are accepted. -/

variable {w : Wheel}

theorem setDirection_speed (d : Drivers) (direction : Direction) (w : Wheel) :
    (setDirection d direction w).maxSpeedMsPerTurn = w.maxSpeedMsPerTurn := by
  rw [setDirection]
  split <;> rfl

theorem enableEncoder_speed (d : Drivers) (w : Wheel) : (enableEncoder d w).maxSpeedMsPerTurn = w.maxSpeedMsPerTurn := by
  rw [enableEncoder]
  split <;> rfl

theorem disableEncoder_speed (d : Drivers) (w : Wheel) : (disableEncoder d w).maxSpeedMsPerTurn = w.maxSpeedMsPerTurn := by
  rw [disableEncoder]
  split <;> rfl

theorem polarizerSetFrequency_speed (d : Drivers) (frequency : UInt32) (w : Wheel) :
    (polarizerSetFrequency d frequency w).2.maxSpeedMsPerTurn = w.maxSpeedMsPerTurn := by
  rw [polarizerSetFrequency]
  split_ifs <;> rfl

theorem polarizerRotate_speed (d : Drivers) (frequency : UInt32) (w : Wheel) :
    (polarizerRotate d frequency w).2.maxSpeedMsPerTurn = w.maxSpeedMsPerTurn := by
  rw [polarizerRotate]
  split
  · exact polarizerSetFrequency_speed d frequency _
  · rfl

theorem stepRelative_speed (d : Drivers) (frequency : UInt32) (stepCount current : Int) (w : Wheel) :
    (polarizerWheelStepRelative d frequency stepCount current w).2.maxSpeedMsPerTurn = w.maxSpeedMsPerTurn := by
  rw [polarizerWheelStepRelative]
  split_ifs
  · rfl
  · exact (polarizerRotate_speed d frequency _).trans (setDirection_speed d .backward w)
  · exact (polarizerRotate_speed d frequency _).trans (setDirection_speed d .forward w)

theorem processStepEvent_speed (d : Drivers) (currentPos : Int) (w : Wheel) :
    (processStepEvent d currentPos w).2.maxSpeedMsPerTurn = w.maxSpeedMsPerTurn := by
  rw [processStepEvent]
  split
  · split
    · rfl
    · change (if w.encoderEnabled then disableEncoder d (polarizerHalt d w) else polarizerHalt d w).maxSpeedMsPerTurn = _
      split
      · exact disableEncoder_speed d _
      · rfl
  · split
    · exact polarizerSetFrequency_speed d _ w
    · rfl

theorem setAngleStep_speed (d : Drivers) (s : WheelThread) (pc : SetAnglePc) :
    (setAngleStep d s pc).wheel.maxSpeedMsPerTurn = s.wheel.maxSpeedMsPerTurn := by
  cases pc with
  | start cmd =>
    simp only [setAngleStep]
    split_ifs <;> rfl
  | direct cmd =>
    have hdirected := setDirection_speed d
      (chooseDirection s.wheel.current (targetStepOf cmd.angleDecidegrees) cmd.shortestPath).1 s.wheel
    simp only [setAngleStep]
    split
    · exact (enableEncoder_speed d _).trans hdirected
    · exact hdirected
  | speed cmd useEncoder signedDist =>
    simp only [setAngleStep, chooseSpeed]
    split <;> rfl
  | rotate cmd useEncoder =>
    simp only [setAngleStep, startMoving]
    rw [polarizerRotate_speed]

theorem homingStep_speed (input : ThreadInput) (s : WheelThread) (pc : HomingPc) :
    (homingStep input s pc).wheel.maxSpeedMsPerTurn = s.wheel.maxSpeedMsPerTurn := by
  have hrelative := stepRelative_speed input.drivers spinPwmFrequencyDefault
  cases pc <;> simp only [homingStep]
  case start => rw [setDirection_speed, enableEncoder_speed]
  case rotate attempt current =>
    split
    · exact hrelative _ _ _
    · exact (disableEncoder_speed input.drivers _).trans (hrelative _ _ _)
  case wait attempt =>
    split_ifs
    · rfl
    · rfl
    · rfl
    · exact disableEncoder_speed input.drivers _
  case countNotch detected =>
    split_ifs
    · rfl
    · rfl
    · exact disableEncoder_speed input.drivers _
  case rotateOn current => exact hrelative _ _ _
  case waitPassThrough => split_ifs <;> rfl
  case settle => split_ifs <;> rfl
  case halt => exact disableEncoder_speed input.drivers s.wheel

theorem calibrationStep_speed (input : ThreadInput) (s : WheelThread) (pc : CalibrationPc) :
    (calibrationStep input s pc).wheel.maxSpeedMsPerTurn = s.wheel.maxSpeedMsPerTurn := by
  cases pc <;> simp only [calibrationStep, calibrationEdge]
  case start =>
    split_ifs
    · rfl
    · exact setDirection_speed input.drivers .forward _
    · rfl
  case rotate spin current =>
    have hrelative := stepRelative_speed input.drivers spinPwmFrequencyDefault (microsteps360Degrees*3/4 : Nat) current s.wheel
    split
    · exact hrelative
    · exact hrelative
  case wait spin => split_ifs <;> rfl
  case edge spin currentPos => split_ifs <;> rfl
  case halt spin done => rfl
  case verify => rfl

theorem mainStep_speed (input : ThreadInput) (s : WheelThread) :
    (mainStep input s).wheel.maxSpeedMsPerTurn = s.wheel.maxSpeedMsPerTurn := by
  rw [mainStep]
  cases s.pc with
  | setAngle pc => exact setAngleStep_speed input.drivers s pc
  | homing pc => exact homingStep_speed input s pc
  | calibration pc => exact calibrationStep_speed input s pc
  | takeStep encoder command =>
    dsimp only
    split <;> rfl
  | processStep currentPos encoder command => exact processStepEvent_speed input.drivers currentPos s.wheel
  | takeEncoder command =>
    dsimp only
    split <;> rfl
  | _ => rfl

theorem speed_accepted (actions : List WheelAction) :
    SpeedAccepted (Machine.run wheelStep wheelThreadInit actions).2.wheel := by
  have hstep : ∀ (s : WheelThread) (a : WheelAction), SpeedAccepted s.wheel → SpeedAccepted (wheelStep s a).2.wheel := by
    intro s a h
    have hsame : ∀ {s' : WheelThread}, s'.wheel.maxSpeedMsPerTurn = s.wheel.maxSpeedMsPerTurn → SpeedAccepted s'.wheel := by
      intro s' heq
      rw [SpeedAccepted, heq]
      exact h
    cases a with
    | poll step encoder command =>
      simp only [wheelStep, pollReturns]
      split
      · split <;> exact h
      · exact h
    | thread input => exact hsame (mainStep_speed input s)
    | stepInterrupt =>
      simp only [wheelStep]
      split <;> exact h
    | encoderInterrupt pin =>
      simp only [wheelStep, encoderCallback]
      refine hsame ?_
      split_ifs
      · split <;> rfl
      · split <;> rfl
      · rfl
    | store new =>
      simp only [wheelStep]
      split
      · cases new <;> exact h
      · exact h
    | post => exact h
    | setAcceleration stepsPerS2 => exact h
    | setMaxSpeed msPerTurn =>
      simp only [wheelStep, polarizerWheelSetMaxSpeed, SpeedAccepted]
      split_ifs with hzero haccepted
      · decide
      · refine ⟨Nat.pos_of_ne_zero fun h => hzero ?_, haccepted⟩
        exact UInt32.toNat_inj.mp h
      · exact h
  exact Machine.run_invariant hstep wheelThreadInit actions (by decide)

end OrbFirmware.Polarizer

import OrbFirmware.Machine
import OrbFirmware.Polarizer.Thread

/-! The step counter, the target and the notch edge stay on the circle, whatever the calls, the interrupts and the
encoder do. -/
namespace OrbFirmware.Polarizer

/-- The values that calibration measures and a call passes on have bounds of their own. -/
structure OnTheCircle (w : Wheel) : Prop where
  current : OnCircle w.current
  target : OnCircle w.target
  edge : OnCircle w.targetNotchEdge
  passThrough : w.calibration.bumpWidthPassThrough.toNat < microsteps360Degrees
  vertical : w.calibration.bumpWidthVertical.toNat < microsteps360Degrees
  horizontal : w.calibration.bumpWidthHorizontal.toNat < microsteps360Degrees
  angle : w.setAngle.angleDecidegrees ≤ 3600

/-- What these bounds are about. -/
def Wheel.circle (w : Wheel) : Int × Int × Int × Calibration × SetAngleCmd :=
  (w.current, w.target, w.targetNotchEdge, w.calibration, w.setAngle)

variable {w w' : Wheel} {d : Drivers} {s : WheelThread}

theorem OnTheCircle.of_circle (h : OnTheCircle w) (heq : w'.circle = w.circle) : OnTheCircle w' := by
  simp only [Wheel.circle, Prod.mk.injEq] at heq
  obtain ⟨hcurrent, htarget, hedge, hcalibration, hsetAngle⟩ := heq
  constructor
  · rw [hcurrent]
    exact h.current
  · rw [htarget]
    exact h.target
  · rw [hedge]
    exact h.edge
  · rw [hcalibration]
    exact h.passThrough
  · rw [hcalibration]
    exact h.vertical
  · rw [hcalibration]
    exact h.horizontal
  · rw [hsetAngle]
    exact h.angle

/-! What the functions leave alone. -/

theorem enableEncoder_circle (d : Drivers) (w : Wheel) : (enableEncoder d w).circle = w.circle := by
  rw [enableEncoder]
  split <;> rfl

theorem disableEncoder_circle (d : Drivers) (w : Wheel) : (disableEncoder d w).circle = w.circle := by
  rw [disableEncoder]
  split <;> rfl

theorem setDirection_circle (d : Drivers) (direction : Direction) (w : Wheel) :
    (setDirection d direction w).circle = w.circle := by
  rw [setDirection]
  split <;> rfl

theorem polarizerSetFrequency_circle (d : Drivers) (frequency : UInt32) (w : Wheel) :
    (polarizerSetFrequency d frequency w).2.circle = w.circle := by
  rw [polarizerSetFrequency]
  split_ifs <;> rfl

theorem polarizerRotate_circle (d : Drivers) (frequency : UInt32) (w : Wheel) :
    (polarizerRotate d frequency w).2.circle = w.circle := by
  rw [polarizerRotate]
  split
  · exact polarizerSetFrequency_circle d frequency _
  · rfl

theorem chooseSpeed_circle (frequency : UInt32) (signedDist : Int) (w : Wheel) :
    (chooseSpeed frequency signedDist w).circle = w.circle := by
  rw [chooseSpeed]
  split <;> rfl

theorem startMoving_circle (d : Drivers) (useEncoder : Bool) (frequency : UInt32) (w : Wheel) :
    (startMoving d useEncoder frequency w).circle = w.circle := polarizerRotate_circle d _ w

theorem homingFail_circle (d : Drivers) (w : Wheel) : (homingFail d w).circle = w.circle := disableEncoder_circle d _

theorem processStepEvent_circle (d : Drivers) (currentPos : Int) (w : Wheel) :
    (processStepEvent d currentPos w).2.circle = w.circle := by
  rw [processStepEvent]
  split
  · split
    · rfl
    · change (if w.encoderEnabled then disableEncoder d (polarizerHalt d w) else polarizerHalt d w).circle = w.circle
      split
      · exact disableEncoder_circle d _
      · rfl
  · split
    · exact polarizerSetFrequency_circle d _ w
    · rfl

/-! What they write is on the circle. -/

theorem getEdgeToCenterForPosition_lt (h : OnTheCircle w) (targetStep : Int) :
    getEdgeToCenterForPosition w.calibration targetStep < microsteps360Degrees/2 := by
  have hhalf : ∀ n < microsteps360Degrees, n/2 < microsteps360Degrees/2 := by
    intro n hn
    simp only [microsteps360Degrees, stepsPerTurn, microstepsPerStep] at hn ⊢
    omega
  simp only [getEdgeToCenterForPosition]
  split_ifs
  · decide
  · exact hhalf _ h.passThrough
  · exact hhalf _ h.vertical
  · exact hhalf _ h.horizontal
  · decide

theorem OnTheCircle.notchEdge (h : OnTheCircle w) {targetStep : Int} (htarget : OnCircle targetStep)
    (direction : Direction) : OnCircle (calculateNotchEdge w.calibration targetStep direction) := by
  have hedge := getEdgeToCenterForPosition_lt h targetStep
  obtain ⟨hnonneg, hlt⟩ := htarget
  simp only [calculateNotchEdge, OnCircle, microsteps360Degrees, stepsPerTurn, microstepsPerStep] at hedge hlt ⊢
  cases direction with
  | forward =>
    dsimp only
    split_ifs <;> omega
  | backward =>
    dsimp only
    split_ifs <;> omega

theorem OnTheCircle.withTarget (h : OnTheCircle w) {target : Int} (htarget : OnCircle target) :
    OnTheCircle { w with target } := ⟨h.current, htarget, h.edge, h.passThrough, h.vertical, h.horizontal, h.angle⟩

theorem OnTheCircle.withCurrent (h : OnTheCircle w) {current : Int} (hcurrent : OnCircle current) :
    OnTheCircle { w with current } := ⟨hcurrent, h.target, h.edge, h.passThrough, h.vertical, h.horizontal, h.angle⟩

theorem OnTheCircle.stepRelative (h : OnTheCircle w) (d : Drivers) (frequency : UInt32) (stepCount : Int)
    {current : Int} (hcurrent : OnCircle current) :
    OnTheCircle (polarizerWheelStepRelative d frequency stepCount current w).2 := by
  have hsize : (0 : Int) < microsteps360Degrees := by decide
  have hsame := fun direction => h.of_circle (setDirection_circle d direction w)
  rw [polarizerWheelStepRelative]
  split_ifs with hinvalid hbackward
  · exact h
  · refine OnTheCircle.of_circle ((hsame .backward).withTarget ?_) (polarizerRotate_circle d frequency _)
    obtain ⟨hnonneg, hlt⟩ := hcurrent
    have hcount : stepCount.natAbs ≤ microsteps360Degrees := by omega
    constructor
    · split_ifs <;> omega
    · split_ifs <;> omega
  · refine OnTheCircle.of_circle ((hsame .forward).withTarget ?_) (polarizerRotate_circle d frequency _)
    obtain ⟨hnonneg, -⟩ := hcurrent
    have hsum : 0 ≤ current+stepCount := by omega
    rw [Int.tmod_eq_emod_of_nonneg hsum]
    exact ⟨Int.emod_nonneg _ (by decide), Int.emod_lt_of_pos _ hsize⟩

theorem OnTheCircle.stepIsr (h : OnTheCircle w) : OnTheCircle (stepIsr w) := by
  have hcurrent : OnCircle (OrbFirmware.Polarizer.stepIsr w).current := by
    rw [stepIsr_current h.current]
    exact advance_onCircle w.direction 1 w.current
  exact ⟨hcurrent, h.target, h.edge, h.passThrough, h.vertical, h.horizontal, h.angle⟩

theorem OnTheCircle.armEncoder (h : OnTheCircle w) (d : Drivers) {targetStep : Int} (htarget : OnCircle targetStep) :
    OnTheCircle (armEncoder d targetStep w) := by
  have hedge := h.notchEdge htarget w.direction
  refine OnTheCircle.of_circle ?_ (enableEncoder_circle d _)
  exact ⟨h.current, h.target, hedge, h.passThrough, h.vertical, h.horizontal, h.angle⟩

theorem bumpWidth_lt {entryPos currentPos : Int} (hentry : OnCircle entryPos) (hcurrent : OnCircle currentPos) :
    (bumpWidth entryPos currentPos).toNat < microsteps360Degrees := by
  obtain ⟨hentry0, hentry1⟩ := hentry
  obtain ⟨hcurrent0, hcurrent1⟩ := hcurrent
  simp only [bumpWidth, UInt32.ofInt, UInt32.toNat_ofNat', microsteps360Degrees, stepsPerTurn, microstepsPerStep]
    at hentry1 hcurrent1 ⊢
  split <;> omega

theorem OnTheCircle.recordWidth (h : OnTheCircle w) (bumpIndex : Nat) {width : UInt32}
    (hwidth : width.toNat < microsteps360Degrees) :
    OnTheCircle { w with calibration := recordWidth bumpIndex width w.calibration } := by
  rw [OrbFirmware.Polarizer.recordWidth]
  split
  · split_ifs
    · exact ⟨h.current, h.target, h.edge, h.passThrough, hwidth, h.horizontal, h.angle⟩
    · exact h
  · split_ifs
    · exact ⟨h.current, h.target, h.edge, h.passThrough, h.vertical, hwidth, h.angle⟩
    · exact h
  · split_ifs
    · exact ⟨h.current, h.target, h.edge, hwidth, h.vertical, h.horizontal, h.angle⟩
    · exact h
  · exact h

/-! The thread. -/

def SetAnglePc.cmd : SetAnglePc → SetAngleCmd
  | .start cmd | .direct cmd | .speed cmd _ _ | .rotate cmd _ => cmd

/-- What the thread has read is within the bounds too. -/
def MainPc.Within : MainPc → Prop
  | .homing (.rotate _ current) | .homing (.rotateOn current) => OnCircle current
  | .calibration (.rotate _ current) | .calibration (.edge _ current) => OnCircle current
  | .readPath _ angleDecidegrees => angleDecidegrees ≤ 3600
  | _ => True

structure CountersInv (s : WheelThread) : Prop where
  wheel : OnTheCircle s.wheel
  entry : OnCircle s.bumpEntryPosition
  pc : s.pc.Within

theorem afterEncoder_within (command : Bool) : (afterEncoder command).Within := by
  cases command <;> trivial

theorem afterStep_within (encoder command : Bool) : (afterStep encoder command).Within := by
  cases encoder with
  | false => exact afterEncoder_within command
  | true => trivial

theorem CountersInv.setAngleStep (h : CountersInv s) (d : Drivers) (pc : SetAnglePc) :
    CountersInv (setAngleStep d s pc) := by
  obtain ⟨hwheel, hentry, -⟩ := h
  cases pc with
  | start cmd =>
    simp only [OrbFirmware.Polarizer.setAngleStep]
    split_ifs
    · exact ⟨hwheel, hentry, trivial⟩
    · exact ⟨hwheel.of_circle rfl, hentry, trivial⟩
    · exact ⟨hwheel.of_circle rfl, hentry, trivial⟩
  | direct cmd =>
    have hdirected := hwheel.of_circle (setDirection_circle d
      (chooseDirection s.wheel.current (targetStepOf cmd.angleDecidegrees) cmd.shortestPath).1 s.wheel)
    refine ⟨?_, hentry, trivial⟩
    simp only [OrbFirmware.Polarizer.setAngleStep]
    split
    · exact hdirected.armEncoder d (targetStepOf_onCircle cmd.angleDecidegrees)
    · exact hdirected
  | speed cmd useEncoder signedDist =>
    exact ⟨hwheel.of_circle (chooseSpeed_circle cmd.frequency signedDist s.wheel), hentry, trivial⟩
  | rotate cmd useEncoder =>
    have htarget := hwheel.withTarget (targetStepOf_onCircle cmd.angleDecidegrees)
    exact ⟨htarget.of_circle (startMoving_circle d useEncoder cmd.frequency _), hentry, trivial⟩

theorem onCircle_zero : OnCircle 0 := by decide

theorem CountersInv.homingStep (h : CountersInv s) (input : ThreadInput) {pc : HomingPc} (hpc : s.pc = .homing pc) :
    CountersInv (homingStep input s pc) := by
  obtain ⟨hwheel, hentry, hwithin⟩ := h
  rw [hpc] at hwithin
  cases pc with
  | start =>
    refine ⟨?_, hentry, trivial⟩
    refine OnTheCircle.of_circle ?_ (setDirection_circle input.drivers .forward _)
    refine OnTheCircle.of_circle ?_ (enableEncoder_circle input.drivers _)
    exact hwheel.of_circle rfl
  | clear attempt => exact ⟨(hwheel.withCurrent onCircle_zero).of_circle rfl, hentry, trivial⟩
  | readStart attempt => exact ⟨hwheel, hentry, hwheel.current⟩
  | rotate attempt current =>
    have hrelative := hwheel.stepRelative input.drivers spinPwmFrequencyDefault (microsteps120Degrees*2 : Nat) hwithin
    simp only [OrbFirmware.Polarizer.homingStep]
    split
    · exact ⟨hrelative, hentry, trivial⟩
    · exact ⟨hrelative.of_circle (homingFail_circle input.drivers _), hentry, trivial⟩
  | wait attempt =>
    simp only [OrbFirmware.Polarizer.homingStep]
    split_ifs
    · exact ⟨hwheel.of_circle rfl, hentry, trivial⟩
    · exact ⟨hwheel, hentry, hpc ▸ trivial⟩
    · exact ⟨hwheel, hentry, trivial⟩
    · exact ⟨hwheel.of_circle (homingFail_circle input.drivers _), hentry, trivial⟩
  | checkNotch => exact ⟨hwheel, hentry, trivial⟩
  | countNotch detected =>
    have hcleared := hwheel.withCurrent onCircle_zero
    simp only [OrbFirmware.Polarizer.homingStep]
    split_ifs
    · exact ⟨hcleared, hentry, trivial⟩
    · exact ⟨hcleared, hentry, trivial⟩
    · exact ⟨hcleared.of_circle (homingFail_circle input.drivers _), hentry, trivial⟩
  | readNotch => exact ⟨hwheel.of_circle rfl, hentry, hwheel.current⟩
  | rotateOn current =>
    have hrelative := hwheel.stepRelative input.drivers spinPwmFrequencyDefault
      (microstepsNotchEdgeToCenter+microsteps120Degrees : Nat) hwithin
    exact ⟨hrelative, hentry, trivial⟩
  | waitPassThrough =>
    simp only [OrbFirmware.Polarizer.homingStep]
    split_ifs
    · exact ⟨hwheel.of_circle rfl, hentry, trivial⟩
    · exact ⟨hwheel, hentry, trivial⟩
    · exact ⟨hwheel, hentry, hpc ▸ trivial⟩
  | correctCounter => exact ⟨hwheel.withCurrent (by decide), hentry, trivial⟩
  | correctTarget => exact ⟨hwheel.withTarget (by decide), hentry, trivial⟩
  | settle =>
    simp only [OrbFirmware.Polarizer.homingStep]
    split
    · exact ⟨hwheel, hentry, trivial⟩
    · exact ⟨hwheel.of_circle rfl, hentry, hpc ▸ trivial⟩
  | halt => exact ⟨hwheel.of_circle (disableEncoder_circle input.drivers s.wheel), hentry, trivial⟩
  | succeed => exact ⟨hwheel.of_circle rfl, hentry, trivial⟩
  | clearLast =>
    obtain ⟨-, htarget, hedge, hpassThrough, hvertical, hhorizontal, hangle⟩ := hwheel
    refine ⟨⟨onCircle_zero, htarget, hedge, hpassThrough, hvertical, hhorizontal, hangle⟩, hentry, ?_⟩
    simp only [OrbFirmware.Polarizer.homingStep]
    split <;> trivial

theorem CountersInv.calibrationStep (h : CountersInv s) (input : ThreadInput) {pc : CalibrationPc}
    (hpc : s.pc = .calibration pc) : CountersInv (calibrationStep input s pc) := by
  obtain ⟨hwheel, hentry, hwithin⟩ := h
  rw [hpc] at hwithin
  cases pc with
  | start =>
    have hzero : (0 : UInt32).toNat < microsteps360Degrees := by decide
    have hcleared : OnTheCircle { s.wheel with
        accelerationActive := false
        calibration := ⟨0, 0, 0, false, s.wheel.calibration.needsCalibration⟩ } :=
      ⟨hwheel.current, hwheel.target, hwheel.edge, hzero, hzero, hzero, hwheel.angle⟩
    simp only [OrbFirmware.Polarizer.calibrationStep]
    split_ifs
    · exact ⟨hwheel, hentry, trivial⟩
    · refine ⟨?_, onCircle_zero, trivial⟩
      refine OnTheCircle.of_circle ?_ (setDirection_circle input.drivers .forward _)
      exact hcleared.of_circle rfl
    · exact ⟨hcleared.of_circle rfl, onCircle_zero, trivial⟩
  | readStart spin => exact ⟨hwheel.of_circle rfl, hentry, hwheel.current⟩
  | rotate spin current =>
    have hrelative := hwheel.stepRelative input.drivers spinPwmFrequencyDefault (microsteps360Degrees*3/4 : Nat) hwithin
    simp only [OrbFirmware.Polarizer.calibrationStep]
    split
    · exact ⟨hrelative, hentry, trivial⟩
    · exact ⟨hrelative.of_circle rfl, hentry, trivial⟩
  | wait spin =>
    simp only [OrbFirmware.Polarizer.calibrationStep]
    split_ifs
    · exact ⟨hwheel, hentry, trivial⟩
    · exact ⟨hwheel.of_circle rfl, hentry, trivial⟩
    · exact ⟨hwheel, hentry, trivial⟩
  | readEdge spin => exact ⟨hwheel, hentry, hwheel.current⟩
  | edge spin currentPos =>
    simp only [OrbFirmware.Polarizer.calibrationStep, calibrationEdge]
    split_ifs
    · exact ⟨hwheel, hwithin, trivial⟩
    · exact ⟨hwheel.recordWidth s.bumpIndex (bumpWidth_lt hentry hwithin), hentry, trivial⟩
    · exact ⟨hwheel.recordWidth s.bumpIndex (bumpWidth_lt hentry hwithin), hentry, trivial⟩
    · exact ⟨hwheel, hentry, trivial⟩
  | readStopped spin => exact ⟨hwheel, hentry, trivial⟩
  | stopped spin current =>
    simp only [OrbFirmware.Polarizer.calibrationStep]
    split_ifs <;> exact ⟨hwheel, hentry, trivial⟩
  | halt spin done =>
    simp only [OrbFirmware.Polarizer.calibrationStep]
    split_ifs <;> exact ⟨hwheel.of_circle rfl, hentry, trivial⟩
  | verify =>
    exact ⟨⟨hwheel.current, hwheel.target, hwheel.edge, hwheel.passThrough, hwheel.vertical, hwheel.horizontal,
      hwheel.angle⟩, hentry, trivial⟩

theorem CountersInv.mainStep (h : CountersInv s) (input : ThreadInput) : CountersInv (mainStep input s) := by
  have hwithin := h.pc
  have hwheel := h.wheel
  rw [OrbFirmware.Polarizer.mainStep]
  cases hpc : s.pc with
  | setAngle pc => exact h.setAngleStep input.drivers pc
  | homing pc => exact h.homingStep input hpc
  | calibration pc => exact h.calibrationStep input hpc
  | poll => exact h
  | takeStep encoder command =>
    dsimp only
    split
    · exact ⟨hwheel.of_circle rfl, h.entry, trivial⟩
    · exact ⟨hwheel.of_circle rfl, h.entry, trivial⟩
    · exact ⟨hwheel.of_circle rfl, h.entry, trivial⟩
    · exact ⟨hwheel.of_circle rfl, h.entry, afterStep_within encoder command⟩
    · exact ⟨hwheel.of_circle rfl, h.entry, afterStep_within encoder command⟩
    · exact ⟨hwheel.of_circle rfl, h.entry, afterStep_within encoder command⟩
  | readStep encoder command => exact ⟨hwheel, h.entry, trivial⟩
  | processStep currentPos encoder command =>
    exact ⟨hwheel.of_circle (processStepEvent_circle input.drivers currentPos s.wheel), h.entry,
      afterStep_within encoder command⟩
  | takeEncoder command =>
    dsimp only
    split
    · exact ⟨hwheel.of_circle rfl, h.entry, trivial⟩
    · exact ⟨hwheel.of_circle rfl, h.entry, afterEncoder_within command⟩
  | readEncoder command => exact ⟨hwheel, h.entry, trivial⟩
  | correct currentPosition command =>
    exact ⟨(hwheel.withCurrent hwheel.edge).of_circle rfl, h.entry, afterEncoder_within command⟩
  | takeCommand => exact ⟨hwheel.of_circle rfl, h.entry, trivial⟩
  | readType => exact ⟨hwheel, h.entry, trivial⟩
  | clearType cmd =>
    refine ⟨hwheel.of_circle rfl, h.entry, ?_⟩
    cases cmd <;> trivial
  | readFrequency => exact ⟨hwheel, h.entry, trivial⟩
  | readAngle frequency => exact ⟨hwheel, h.entry, hwheel.angle⟩
  | readPath frequency angleDecidegrees => exact ⟨hwheel, h.entry, trivial⟩

theorem OnTheCircle.assign (h : OnTheCircle w) {new : CmdStore} (hchecked : new.checked = true) :
    OnTheCircle (new.assign w) := by
  cases new with
  | angleDecidegrees value =>
    have hangle : value ≤ 3600 := of_decide_eq_true hchecked
    exact ⟨h.current, h.target, h.edge, h.passThrough, h.vertical, h.horizontal, hangle⟩
  | frequency value => exact ⟨h.current, h.target, h.edge, h.passThrough, h.vertical, h.horizontal, h.angle⟩
  | shortestPath value => exact ⟨h.current, h.target, h.edge, h.passThrough, h.vertical, h.horizontal, h.angle⟩
  | type value => exact h.of_circle rfl
  | homingSuccess value => exact h.of_circle rfl

theorem CountersInv.step (h : CountersInv s) (a : WheelAction) : CountersInv (wheelStep s a).2 := by
  have hwheel := h.wheel
  cases a with
  | poll step encoder command =>
    simp only [wheelStep, pollReturns]
    split
    · split
      · exact ⟨hwheel, h.entry, trivial⟩
      · exact ⟨hwheel, h.entry, afterStep_within _ _⟩
    · exact h
  | thread input => exact h.mainStep input
  | stepInterrupt =>
    simp only [wheelStep]
    split
    · exact ⟨hwheel.stepIsr, h.entry, h.pc⟩
    · exact h
  | encoderInterrupt pin =>
    have hcircle : (encoderCallback pin s.wheel).circle = s.wheel.circle := by
      rw [encoderCallback]
      split
      · rfl
      · split <;> rfl
    simp only [wheelStep]
    split
    · exact ⟨hwheel.of_circle hcircle, h.entry, h.pc⟩
    · exact h
  | store new =>
    simp only [wheelStep]
    split
    · next hchecked => exact ⟨hwheel.assign hchecked, h.entry, h.pc⟩
    · exact h
  | post => exact ⟨hwheel.of_circle rfl, h.entry, h.pc⟩
  | setAcceleration stepsPerS2 => exact ⟨hwheel.of_circle rfl, h.entry, h.pc⟩
  | setMaxSpeed msPerTurn => exact ⟨hwheel.of_circle rfl, h.entry, h.pc⟩

theorem CountersInv.start : CountersInv wheelThreadInit where
  wheel := ⟨by decide, by decide, by decide, by decide, by decide, by decide, by decide⟩
  entry := by decide
  pc := trivial

/-- In every reachable state the step counter, the target and the notch edge are on the circle. -/
theorem counters_on_circle (actions : List WheelAction) :
    let w := (Machine.run wheelStep wheelThreadInit actions).2.wheel
    OnCircle w.current ∧ OnCircle w.target ∧ OnCircle w.targetNotchEdge := by
  intro w
  have hstep : ∀ s a, CountersInv s → CountersInv (wheelStep s a).2 := fun _ a h => h.step a
  obtain ⟨hcurrent, htarget, hedge, -⟩ := (Machine.run_invariant hstep wheelThreadInit actions .start).wheel
  exact ⟨hcurrent, htarget, hedge⟩

end OrbFirmware.Polarizer

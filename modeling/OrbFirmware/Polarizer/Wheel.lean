import Mathlib.Tactic.Common

/-! `polarizer_wheel.c`: the state of the polarizer wheel, its interrupt handlers, and what its thread does with
a step, with an encoder event and with a command for an angle. -/
namespace OrbFirmware.Polarizer

/-- `POLARIZER_WHEEL_MICROSTEPS_PER_STEP`, the `micro-step-res` of the board. -/
def microstepsPerStep : Nat := 8

/-- 7.5 degrees a step. -/
def stepsPerTurn : Nat := 48

def microsteps360Degrees : Nat := stepsPerTurn*microstepsPerStep

def microsteps120Degrees : Nat := microsteps360Degrees/3

def microstepsNotchEdgeToCenter : Nat := microstepsPerStep*3/4

/-- `POLARIZER_MICROSTEPS_PER_SECOND`. -/
def microstepsPerSecond (ms : UInt32) : UInt32 := .ofNat (microsteps360Degrees*1000)/ms

/-- `POLARIZER_WHEEL_SPIN_PWM_FREQUENCY_MINIMUM`, four seconds a turn. -/
def spinPwmFrequencyMinimum : UInt32 := .ofNat (microsteps360Degrees/4)

def spinAccelMinSpeedMsPerTurn : UInt32 := 2000

def spinPwmFrequencyAccelMinSpeed : UInt32 := microstepsPerSecond spinAccelMinSpeedMsPerTurn

inductive Direction where
  | backward | forward
  deriving DecidableEq

/-- `enum polarizer_wheel_state_e`. -/
inductive WheelState where
  | uninitialized | idle | homing | calibrating | positioningWithEncoder | positioning
  deriving DecidableEq

/-- `orb_mcu_main_PolarizerWheelState_Position`. -/
inductive Position where
  | unknown | passThrough | vertical | horizontal
  deriving DecidableEq

inductive Cmd where
  | none | home | setAngle | calibrate
  deriving DecidableEq

structure SetAngleCmd where
  frequency : UInt32
  angleDecidegrees : UInt32
  shortestPath : Bool
  deriving DecidableEq

structure Calibration where
  bumpWidthPassThrough : UInt32
  bumpWidthVertical : UInt32
  bumpWidthHorizontal : UInt32
  calibrationComplete : Bool
  needsCalibration : Bool
  deriving DecidableEq

/-- `polarizer_wheel_instance_t` with the semaphores, the speed settings and what is set at the motor driver:
the frequency of the step pulses, if there are any, and which interrupts are enabled. -/
structure Wheel where
  state : WheelState
  homingSuccess : Bool
  calibration : Calibration
  current : Int
  target : Int
  direction : Direction
  targetNotchEdge : Int
  encoderEnabled : Bool
  encoderTriggered : Bool
  previousPosition : Position
  targetPosition : Position
  stepDiffMicrosteps : Nat
  minFrequency : UInt32
  accelerationActive : Bool
  startPosition : Int
  totalDistance : Nat
  pendingCmd : Cmd
  setAngle : SetAngleCmd
  stepSem : Bool
  encoderSem : Bool
  cmdSem : Bool
  linearAccelerationStepsPerS2 : UInt32
  maxSpeedMsPerTurn : UInt32
  pwm : Option UInt32
  stepInterrupt : Bool
  encoderInterrupt : Bool
  deriving DecidableEq

/-- `report_reached_state`. -/
inductive WheelEvent where
  | reached (previous current : Position) (stepLoss : Nat)
  deriving DecidableEq

/-- Which calls of the drivers succeed. -/
structure Drivers where
  scaleCurrent : Bool
  pwmSet : Bool
  directionPin : Bool
  encoderPins : Bool
  deriving DecidableEq

def Drivers.ok : Drivers := ⟨true, true, true, true⟩

/-- The shortest signed distance on the wheel. -/
def circularSignedDistance (start dest : Int) : Int :=
  let diff := dest-start
  let halfRange : Int := microsteps360Degrees/2
  if halfRange < diff then diff-microsteps360Degrees
  else if diff < -halfRange then diff+microsteps360Degrees
  else diff

/-- `get_linear_acceleration_usteps_per_s2`. -/
def linearAccelerationUstepsPerS2 (w : Wheel) : UInt32 :=
  w.linearAccelerationStepsPerS2*.ofNat microstepsPerStep

def getMaxFrequency (w : Wheel) : UInt32 := microstepsPerSecond w.maxSpeedMsPerTurn

/-- The loop of the integer square root. -/
def newton (freqSq x y : UInt64) : UInt64 :=
  if y < x then newton freqSq y ((y+freqSq/y)/2) else x
termination_by x.toNat
decreasing_by exact UInt64.lt_iff_toNat_lt.mp ‹y < x›

def calculateLinearRampFrequency (w : Wheel) (rampStep minFreq maxFreq : UInt32) : UInt32 :=
  let minFreqSq := minFreq.toUInt64*minFreq.toUInt64
  let accelTerm := 2*(linearAccelerationUstepsPerS2 w).toUInt64*rampStep.toUInt64
  let freqSq := minFreqSq+accelTerm
  (min (newton freqSq freqSq ((freqSq+1)/2)) maxFreq.toUInt64).toUInt32

def calculateRampStep (distanceTraveled totalDist : Nat) : Nat :=
  if totalDist = 0 ∨ totalDist ≤ distanceTraveled then 0
  else if distanceTraveled < totalDist/2 then distanceTraveled
  else totalDist-distanceTraveled-1

/-- `polarizer_set_frequency`, and whether it succeeds. -/
def polarizerSetFrequency (d : Drivers) (frequency : UInt32) (w : Wheel) : Bool × Wheel :=
  if getMaxFrequency w < frequency ∨ frequency < spinPwmFrequencyMinimum then (false, w)
  else if d.pwmSet then (true, { w with pwm := some frequency })
  else (false, w)

def polarizerHalt (d : Drivers) (w : Wheel) : Wheel :=
  { w with
    pwm := if d.pwmSet then none else w.pwm
    stepInterrupt := false
    accelerationActive := false
    minFrequency := 0 }

def enableEncoder (d : Drivers) (w : Wheel) : Wheel :=
  if d.encoderPins then { w with encoderInterrupt := true, encoderEnabled := true } else w

def disableEncoder (d : Drivers) (w : Wheel) : Wheel :=
  if d.encoderPins then { w with encoderInterrupt := false, encoderEnabled := false } else w

def setDirection (d : Drivers) (direction : Direction) (w : Wheel) : Wheel :=
  if d.directionPin then { w with direction } else w

def polarizerRotate (d : Drivers) (frequency : UInt32) (w : Wheel) : Bool × Wheel :=
  if d.scaleCurrent then polarizerSetFrequency d frequency { w with stepInterrupt := true } else (false, w)

def reportReachedState (w : Wheel) : List WheelEvent :=
  [.reached w.previousPosition w.targetPosition w.stepDiffMicrosteps]

def angleToPosition (angleDecidegrees : UInt32) : Position :=
  if angleDecidegrees = 0 then .passThrough
  else if angleDecidegrees = 1200 then .vertical
  else if angleDecidegrees = 2400 then .horizontal
  else .unknown

/-- The position as the step counter has it. -/
def getCurrentPosition (current : Int) : Position :=
  let angleDecidegrees := current*3600/microsteps360Degrees
  let tolerance : Int := microstepsPerStep/7
  if angleDecidegrees ≤ tolerance ∨ 3600-tolerance ≤ angleDecidegrees then .passThrough
  else if 1200-tolerance ≤ angleDecidegrees ∧ angleDecidegrees ≤ 1200+tolerance then .vertical
  else if 2400-tolerance ≤ angleDecidegrees ∧ angleDecidegrees ≤ 2400+tolerance then .horizontal
  else .unknown

def getEdgeToCenterForPosition (c : Calibration) (targetStep : Int) : Nat :=
  let tolerance := microstepsPerStep
  if c.calibrationComplete = false then microstepsNotchEdgeToCenter
  else if targetStep.natAbs < tolerance ∨ (targetStep-microsteps360Degrees).natAbs < tolerance then
    c.bumpWidthPassThrough.toNat/2
  else if (targetStep-microsteps120Degrees).natAbs < tolerance then c.bumpWidthVertical.toNat/2
  else if (targetStep-(microsteps120Degrees*2 : Nat)).natAbs < tolerance then c.bumpWidthHorizontal.toNat/2
  else microstepsNotchEdgeToCenter

def calculateNotchEdge (c : Calibration) (targetStep : Int) (direction : Direction) : Int :=
  let edgeToCenter := getEdgeToCenterForPosition c targetStep
  match direction with
  | .forward =>
    let edge := targetStep-edgeToCenter
    if edge < 0 then edge+microsteps360Degrees else edge
  | .backward =>
    let edge := targetStep+edgeToCenter
    if microsteps360Degrees ≤ edge then edge-microsteps360Degrees else edge

/-- `polarizer_wheel_step_isr`: the counter goes a step on, wraps around, and the thread is told. -/
def stepIsr (w : Wheel) : Wheel :=
  let stepped :=
    match w.direction with
    | .backward => w.current-1
    | .forward => w.current+1
  let wrapped := if (microsteps360Degrees : Int) ≤ stepped then 0 else stepped
  { w with current := if wrapped < 0 then microsteps360Degrees-1 else wrapped, stepSem := true }

/-- `encoder_callback` at an edge after which the pin reads `pin`. -/
def encoderCallback (pin : Bool) (w : Wheel) : Wheel :=
  match w.state with
  | .calibrating => { w with encoderSem := true }
  | _ => if pin then { w with encoderSem := true } else w

/-- `process_step_event`, with the step counter as it reads it. -/
def processStepEvent (d : Drivers) (currentPos : Int) (w : Wheel) : List WheelEvent × Wheel :=
  if w.target = currentPos then
    if w.state = .positioningWithEncoder ∧ w.encoderTriggered = false then
      -- the wheel is homed again
      ([], { polarizerHalt d w with pendingCmd := .home, cmdSem := true })
    else
      let halted := polarizerHalt d w
      let encoderOk := w.state ≠ .positioningWithEncoder ∨ w.encoderTriggered = true
      let events := if w.targetPosition ≠ .unknown ∧ encoderOk then reportReachedState halted else []
      let halted := if halted.encoderEnabled then disableEncoder d halted else halted
      (events, { halted with state := .idle })
  else if w.accelerationActive then
    let distanceTraveled := (circularSignedDistance w.startPosition currentPos).natAbs
    let rampStep := calculateRampStep distanceTraveled w.totalDistance
    let newFreq := calculateLinearRampFrequency w (.ofNat rampStep) w.minFrequency (getMaxFrequency w)
    ([], (polarizerSetFrequency d newFreq w).2)
  else ([], w)

def markEncoderTriggered (w : Wheel) : Wheel := { w with encoderTriggered := true }

/-- The counter is set to the edge, wherever it was. -/
def correctStepCounter (currentPosition : Int) (w : Wheel) : Wheel :=
  { w with
    stepDiffMicrosteps := (circularSignedDistance w.targetNotchEdge currentPosition).natAbs
    current := w.targetNotchEdge }

/-- `process_encoder_event_positioning`, with the step counter as it reads it. -/
def processEncoderEventPositioning (currentPosition : Int) (w : Wheel) : Wheel :=
  if w.encoderTriggered then w else correctStepCounter currentPosition (markEncoderTriggered w)

/-- The thread takes a step event; `currentPos` is what it reads of the counter. -/
def takeStepEvent (d : Drivers) (currentPos : Int) (w : Wheel) : List WheelEvent × Wheel :=
  let taken := { w with stepSem := false }
  match taken.state with
  | .positioningWithEncoder | .positioning | .homing => processStepEvent d currentPos taken
  | .uninitialized | .idle | .calibrating => ([], taken)

def takeEncoderEvent (currentPosition : Int) (w : Wheel) : Wheel :=
  let taken := { w with encoderSem := false }
  match taken.state with
  | .positioningWithEncoder => processEncoderEventPositioning currentPosition taken
  | _ => taken

/-- The direction of a move and its signed distance. -/
def chooseDirection (current targetStep : Int) (shortestPath : Bool) : Direction × Int :=
  if shortestPath then
    let signedDist := circularSignedDistance current targetStep
    (if 0 < signedDist then .forward else .backward, signedDist)
  else
    let signedDist := targetStep-current
    (.forward, if signedDist ≤ 0 then signedDist+microsteps360Degrees else signedDist)

def targetStepOf (angleDecidegrees : UInt32) : Int :=
  (angleDecidegrees.toNat*microsteps360Degrees/3600 : Nat)%microsteps360Degrees

/-- Where a move starts from and where it goes to. -/
def recordMove (angleDecidegrees : UInt32) (w : Wheel) : Wheel :=
  { w with
    previousPosition := getCurrentPosition w.current
    targetPosition := angleToPosition angleDecidegrees
    stepDiffMicrosteps := 0 }

/-- The encoder of a move that it assists: enabled from the beginning. -/
def armEncoder (d : Drivers) (targetStep : Int) (w : Wheel) : Wheel :=
  enableEncoder d
    { w with
      targetNotchEdge := calculateNotchEdge w.calibration targetStep w.direction
      encoderEnabled := false
      encoderTriggered := false }

/-- The velocity mode: a ramp if the frequency is zero. -/
def chooseSpeed (frequency : UInt32) (signedDist : Int) (w : Wheel) : Wheel :=
  if frequency = 0 then
    { w with
      accelerationActive := true
      minFrequency := spinPwmFrequencyAccelMinSpeed
      startPosition := w.current
      totalDistance := signedDist.natAbs }
  else { w with accelerationActive := false, minFrequency := frequency }

def startMoving (d : Drivers) (useEncoder : Bool) (frequency : UInt32) (w : Wheel) : Wheel :=
  let (rotated, w) := polarizerRotate d (if frequency = 0 then w.minFrequency else frequency) w
  { w with state := if rotated then (if useEncoder then .positioningWithEncoder else .positioning) else .idle }

/-- `execute_set_angle`. -/
def executeSetAngle (d : Drivers) (frequency angleDecidegrees : UInt32) (shortestPath : Bool) (w : Wheel) :
    List WheelEvent × Wheel :=
  if w.state ≠ .idle then ([], w)
  else
    let targetStep := targetStepOf angleDecidegrees
    let w := recordMove angleDecidegrees w
    if w.previousPosition = w.targetPosition ∧ w.previousPosition ≠ .unknown then (reportReachedState w, w)
    else
      let (direction, signedDist) := chooseDirection w.current targetStep shortestPath
      let w := setDirection d direction w
      let useEncoder := w.targetPosition ≠ .unknown ∧ frequency ≠ 0
      let w := if useEncoder then armEncoder d targetStep w else w
      let w := chooseSpeed frequency signedDist w
      ([], startMoving d useEncoder frequency { w with target := targetStep })

/-- Homed, at the pass-through position, nothing under way. -/
def homedWheel : Wheel where
  state := .idle
  homingSuccess := true
  calibration := ⟨0, 0, 0, false, false⟩
  current := 0
  target := 0
  direction := .forward
  targetNotchEdge := 0
  encoderEnabled := false
  encoderTriggered := false
  previousPosition := .unknown
  targetPosition := .passThrough
  stepDiffMicrosteps := 0
  minFrequency := 0
  accelerationActive := false
  startPosition := 0
  totalDistance := 0
  pendingCmd := .none
  setAngle := ⟨0, 0, false⟩
  stepSem := false
  encoderSem := false
  cmdSem := false
  linearAccelerationStepsPerS2 := 8000
  maxSpeedMsPerTurn := 200
  pwm := none
  stepInterrupt := false
  encoderInterrupt := false

end OrbFirmware.Polarizer

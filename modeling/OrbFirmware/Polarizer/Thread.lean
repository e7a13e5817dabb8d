import OrbFirmware.Machine
import OrbFirmware.Polarizer.Circle
import OrbFirmware.Polarizer.Commands

/-! The wheel's thread as a whole: its loop, a move, homing and calibration, each up to its next access to what the
interrupts and the calls change. -/
namespace OrbFirmware.Polarizer

/-- `POLARIZER_WHEEL_SPIN_PWM_FREQUENCY_DEFAULT`, three seconds a turn. -/
def spinPwmFrequencyDefault : UInt32 := .ofNat (microsteps360Degrees/3)

def homingSpinAttempts : Nat := 3

def notchDetectAttempts : Nat := 9

/-- `POLARIZER_CLOSE_NOTCH_DETECTION_MICROSTEPS_MAX` and its minimum, 2.5 steps. -/
def closeNotchDetectionMicrostepsMax : Int := 4*microstepsPerStep

def closeNotchDetectionMicrostepsMin : Int := 5*microstepsPerStep/2

/-- `execute_homing`: the spins to a notch with their attempts; the check of a notch; the move to the pass-through
position, with the wait for its notch, the correction of the counter and the rest of the way; the end. -/
inductive HomingPc where
  | start
  | clear (attempt : Nat)
  | readStart (attempt : Nat)
  | rotate (attempt : Nat) (current : Int)
  | wait (attempt : Nat)
  | checkNotch
  | countNotch (detected : Bool)
  | readNotch
  | rotateOn (current : Int)
  | waitPassThrough
  | correctCounter
  | correctTarget
  | settle
  | halt
  | succeed
  | clearLast
  deriving DecidableEq

/-- `execute_calibration`: the spins, the wait for an edge, what is done with it, and the check for the end of the
spin. -/
inductive CalibrationPc where
  | start
  | readStart (spin : Nat)
  | rotate (spin : Nat) (current : Int)
  | wait (spin : Nat)
  | readEdge (spin : Nat)
  | edge (spin : Nat) (currentPos : Int)
  | readStopped (spin : Nat)
  | stopped (spin : Nat) (current : Int)
  | halt (spin : Nat) (done : Bool)
  | verify
  deriving DecidableEq

/-- `execute_set_angle`: its checks, the direction, the velocity mode and the start. -/
inductive SetAnglePc where
  | start (cmd : SetAngleCmd)
  | direct (cmd : SetAngleCmd)
  | speed (cmd : SetAngleCmd) (useEncoder : Bool) (signedDist : Int)
  | rotate (cmd : SetAngleCmd) (useEncoder : Bool)
  deriving DecidableEq

/-- `polarizer_wheel_thread`; `encoder` and `command` say which other events `k_poll` has reported. -/
inductive MainPc where
  | poll
  | takeStep (encoder command : Bool)
  | readStep (encoder command : Bool)
  | processStep (currentPos : Int) (encoder command : Bool)
  | takeEncoder (command : Bool)
  | readEncoder (command : Bool)
  | correct (currentPosition : Int) (command : Bool)
  | takeCommand
  | readType
  | clearType (cmd : Cmd)
  | readFrequency
  | readAngle (frequency : UInt32)
  | readPath (frequency angleDecidegrees : UInt32)
  | setAngle (pc : SetAnglePc)
  | homing (pc : HomingPc)
  | calibration (pc : CalibrationPc)
  deriving DecidableEq

/-- The wheel with the tracking of homing and calibration, and where its thread stands. -/
structure WheelThread where
  wheel : Wheel
  notchCount : Nat
  bumpIndex : Nat
  bumpEntryPosition : Int
  insideBump : Bool
  pc : MainPc
  deriving DecidableEq

/-- Of a step of the thread: the drivers, whether what it waits for times out, and what the encoder pin reads. -/
structure ThreadInput where
  drivers : Drivers
  timedOut : Bool
  pin : Bool

/-- `store` and `post` are an assignment and the give of a call that has passed its checks. -/
inductive WheelAction where
  | poll (step encoder command : Bool)
  | thread (input : ThreadInput)
  | stepInterrupt
  | encoderInterrupt (pin : Bool)
  | store (new : CmdStore)
  | post
  | setAcceleration (stepsPerS2 : UInt32)
  | setMaxSpeed (msPerTurn : UInt32)

/-- `polarizer_wheel_step_relative`, with the counter as it reads it. -/
def polarizerWheelStepRelative (d : Drivers) (frequency : UInt32) (stepCount current : Int) (w : Wheel) : Bool × Wheel :=
  if frequency = 0 ∨ stepCount = 0 ∨ microsteps360Degrees < stepCount.natAbs then (false, w)
  else if stepCount < 0 then
    let target := current+stepCount
    polarizerRotate d frequency
      { setDirection d .backward w with target := if target < 0 then target+microsteps360Degrees else target }
  else
    polarizerRotate d frequency
      { setDirection d .forward w with target := (current+stepCount).tmod microsteps360Degrees }

/-- `POLARIZER_HOMING_FAIL`. -/
def homingFail (d : Drivers) (w : Wheel) : Wheel :=
  disableEncoder d (polarizerHalt d { w with homingSuccess := false, state := .uninitialized })

def homingStep (input : ThreadInput) (s : WheelThread) : HomingPc → WheelThread
  | .start =>
    let w := { s.wheel with
      state := .homing
      accelerationActive := false
      previousPosition := .unknown
      targetPosition := .passThrough
      stepDiffMicrosteps := 0 }
    { s with
      wheel := setDirection input.drivers .forward (enableEncoder input.drivers w)
      notchCount := 0
      pc := .homing (.clear 0) }
  | .clear attempt =>
    { s with wheel := { s.wheel with current := 0, encoderSem := false }, pc := .homing (.readStart attempt) }
  | .readStart attempt => { s with pc := .homing (.rotate attempt s.wheel.current) }
  | .rotate attempt current =>
    let (ok, wheel) := polarizerWheelStepRelative input.drivers spinPwmFrequencyDefault (microsteps120Degrees*2 : Nat)
      current s.wheel
    if ok then { s with wheel, pc := .homing (.wait attempt) }
    else { s with wheel := homingFail input.drivers wheel, pc := .poll }
  | .wait attempt =>
    if s.wheel.encoderSem then
      { s with wheel := polarizerHalt input.drivers { s.wheel with encoderSem := false }, pc := .homing .checkNotch }
    else if input.timedOut = false then s
    else if attempt+1 < homingSpinAttempts then { s with pc := .homing (.clear (attempt+1)) }
    else { s with wheel := homingFail input.drivers s.wheel, pc := .poll }
  | .checkNotch =>
    let close := s.wheel.current < closeNotchDetectionMicrostepsMax ∧ closeNotchDetectionMicrostepsMin < s.wheel.current
    { s with pc := .homing (.countNotch (s.notchCount ≠ 0 ∧ close)) }
  | .countNotch detected =>
    let s := { s with notchCount := s.notchCount+1, wheel := { s.wheel with current := 0 } }
    if detected then { s with pc := .homing .readNotch }
    else if s.notchCount < notchDetectAttempts then { s with pc := .homing (.clear 0) }
    else { s with wheel := homingFail input.drivers s.wheel, pc := .poll }
  | .readNotch => { s with wheel := { s.wheel with encoderSem := false }, pc := .homing (.rotateOn s.wheel.current) }
  | .rotateOn current =>
    let (_, wheel) := polarizerWheelStepRelative input.drivers spinPwmFrequencyDefault
      (microstepsNotchEdgeToCenter+microsteps120Degrees : Nat) current s.wheel
    { s with wheel, pc := .homing .waitPassThrough }
  | .waitPassThrough =>
    if s.wheel.encoderSem then { s with wheel := { s.wheel with encoderSem := false }, pc := .homing .correctCounter }
    else if input.timedOut then { s with pc := .homing .halt }
    else s
  | .correctCounter => { s with wheel := { s.wheel with current := microsteps120Degrees }, pc := .homing .correctTarget }
  | .correctTarget =>
    { s with
      wheel := { s.wheel with target := microsteps120Degrees+microstepsNotchEdgeToCenter }
      pc := .homing .settle }
  | .settle =>
    if s.wheel.current = microsteps120Degrees+microstepsNotchEdgeToCenter ∨ input.timedOut then
      { s with pc := .homing .halt }
    else { s with wheel := { s.wheel with stepSem := false } }
  | .halt =>
    let wheel := polarizerHalt input.drivers (disableEncoder input.drivers s.wheel)
    { s with wheel := { wheel with state := .idle }, pc := .homing .succeed }
  | .succeed => { s with wheel := { s.wheel with homingSuccess := true }, pc := .homing .clearLast }
  | .clearLast =>
    let calibration := s.wheel.calibration
    { s with
      wheel := { s.wheel with current := 0, calibration := { calibration with needsCalibration := false } }
      pc := if calibration.needsCalibration then .calibration .start else .poll }

/-- The width of a bump from its entry, around the circle. -/
def bumpWidth (entryPos currentPos : Int) : UInt32 :=
  let width := currentPos-entryPos
  .ofInt (if width < 0 then width+microsteps360Degrees else width)

/-- A measured width, for the bump it is of; only the first counts, and the extra bump is skipped. -/
def recordWidth (bumpIndex : Nat) (width : UInt32) (c : Calibration) : Calibration :=
  match bumpIndex%4 with
  | 0 => if c.bumpWidthVertical = 0 then { c with bumpWidthVertical := width } else c
  | 2 => if c.bumpWidthHorizontal = 0 then { c with bumpWidthHorizontal := width } else c
  | 3 => if c.bumpWidthPassThrough = 0 then { c with bumpWidthPassThrough := width } else c
  | _ => c

/-- Every width is more than a step. -/
def allMeasured (c : Calibration) : Bool :=
  .ofNat microstepsPerStep < c.bumpWidthPassThrough && .ofNat microstepsPerStep < c.bumpWidthVertical &&
    .ofNat microstepsPerStep < c.bumpWidthHorizontal

/-- An edge of the encoder at `currentPos`. -/
def calibrationEdge (spin : Nat) (currentPos : Int) (pin : Bool) (s : WheelThread) : WheelThread :=
  if pin then { s with bumpEntryPosition := currentPos, insideBump := true, pc := .calibration (.readStopped spin) }
  else if s.insideBump then
    let width := bumpWidth s.bumpEntryPosition currentPos
    let calibration := recordWidth s.bumpIndex width s.wheel.calibration
    { s with
      wheel := { s.wheel with calibration }
      bumpIndex := (s.bumpIndex+1)%256
      insideBump := false
      pc := .calibration (if allMeasured calibration then .halt spin true else .readStopped spin) }
  else { s with pc := .calibration (.readStopped spin) }

def calibrationStep (input : ThreadInput) (s : WheelThread) : CalibrationPc → WheelThread
  | .start =>
    let w := s.wheel
    if w.state ≠ .idle ∨ w.homingSuccess = false ∨ getCurrentPosition w.current ≠ .passThrough then { s with pc := .poll }
    else
      let s := { s with bumpIndex := 0, bumpEntryPosition := 0, insideBump := false }
      let w := { w with
        accelerationActive := false
        calibration := ⟨0, 0, 0, false, w.calibration.needsCalibration⟩ }
      if input.drivers.encoderPins then
        { s with
          wheel := setDirection input.drivers .forward
            { w with state := .calibrating, encoderInterrupt := true, encoderSem := false }
          pc := .calibration (.readStart 0) }
      else { s with wheel := { w with state := .idle }, pc := .poll }
  | .readStart spin =>
    { s with wheel := { s.wheel with encoderSem := false }, pc := .calibration (.rotate spin s.wheel.current) }
  | .rotate spin current =>
    let (ok, wheel) := polarizerWheelStepRelative input.drivers spinPwmFrequencyDefault (microsteps360Degrees*3/4 : Nat)
      current s.wheel
    if ok then { s with wheel, pc := .calibration (.wait spin) }
    else { s with wheel := { wheel with encoderInterrupt := false, state := .idle }, pc := .poll }
  | .wait spin =>
    -- the time of the spin is over, or an edge has come, or neither for 50 ms
    if input.timedOut then { s with pc := .calibration (.halt spin false) }
    else if s.wheel.encoderSem then { s with wheel := { s.wheel with encoderSem := false }, pc := .calibration (.readEdge spin) }
    else { s with pc := .calibration (.readStopped spin) }
  | .readEdge spin => { s with pc := .calibration (.edge spin s.wheel.current) }
  | .edge spin currentPos => calibrationEdge spin currentPos input.pin s
  | .readStopped spin => { s with pc := .calibration (.stopped spin s.wheel.current) }
  | .stopped spin current =>
    { s with pc := .calibration (if current = s.wheel.target then .halt spin false else .wait spin) }
  | .halt spin done =>
    { s with
      wheel := polarizerHalt input.drivers s.wheel
      pc := .calibration (if done = false ∧ spin+1 < 2 then .readStart (spin+1) else .verify) }
  | .verify =>
    let c := s.wheel.calibration
    let complete := 0 < c.bumpWidthPassThrough ∧ 0 < c.bumpWidthVertical ∧ 0 < c.bumpWidthHorizontal
    { s with
      wheel := { polarizerHalt input.drivers s.wheel with
        encoderInterrupt := false
        state := .idle
        homingSuccess := false
        calibration := { c with calibrationComplete := complete, needsCalibration := false } }
      pc := .homing .start }

def setAngleStep (d : Drivers) (s : WheelThread) : SetAnglePc → WheelThread
  | .start cmd =>
    if s.wheel.state ≠ .idle then { s with pc := .poll }
    else
      let wheel := recordMove cmd.angleDecidegrees s.wheel
      if wheel.previousPosition = wheel.targetPosition ∧ wheel.previousPosition ≠ .unknown then { s with wheel, pc := .poll }
      else { s with wheel, pc := .setAngle (.direct cmd) }
  | .direct cmd =>
    let targetStep := targetStepOf cmd.angleDecidegrees
    let (direction, signedDist) := chooseDirection s.wheel.current targetStep cmd.shortestPath
    let wheel := setDirection d direction s.wheel
    let useEncoder := wheel.targetPosition ≠ .unknown ∧ cmd.frequency ≠ 0
    { s with
      wheel := if useEncoder then armEncoder d targetStep wheel else wheel
      pc := .setAngle (.speed cmd useEncoder signedDist) }
  | .speed cmd useEncoder signedDist =>
    { s with wheel := chooseSpeed cmd.frequency signedDist s.wheel, pc := .setAngle (.rotate cmd useEncoder) }
  | .rotate cmd useEncoder =>
    let wheel := { s.wheel with target := targetStepOf cmd.angleDecidegrees }
    { s with wheel := startMoving d useEncoder cmd.frequency wheel, pc := .poll }

/-- What is next behind the step event, and behind the encoder's. -/
def afterEncoder (command : Bool) : MainPc := if command then .takeCommand else .poll

def afterStep (encoder command : Bool) : MainPc := if encoder then .takeEncoder command else afterEncoder command

def mainStep (input : ThreadInput) (s : WheelThread) : WheelThread :=
  match s.pc with
  | .poll => s
  | .takeStep encoder command =>
    let s := { s with wheel := { s.wheel with stepSem := false } }
    match s.wheel.state with
    | .positioningWithEncoder | .positioning | .homing => { s with pc := .readStep encoder command }
    | .uninitialized | .idle | .calibrating => { s with pc := afterStep encoder command }
  | .readStep encoder command => { s with pc := .processStep s.wheel.current encoder command }
  | .processStep currentPos encoder command =>
    { s with wheel := (processStepEvent input.drivers currentPos s.wheel).2, pc := afterStep encoder command }
  | .takeEncoder command =>
    let s := { s with wheel := { s.wheel with encoderSem := false } }
    if s.wheel.state = .positioningWithEncoder ∧ s.wheel.encoderTriggered = false then
      { s with wheel := markEncoderTriggered s.wheel, pc := .readEncoder command }
    else { s with pc := afterEncoder command }
  | .readEncoder command => { s with pc := .correct s.wheel.current command }
  | .correct currentPosition command =>
    { s with wheel := correctStepCounter currentPosition s.wheel, pc := afterEncoder command }
  | .takeCommand => { s with wheel := { s.wheel with cmdSem := false }, pc := .readType }
  | .readType => { s with pc := .clearType s.wheel.pendingCmd }
  | .clearType cmd =>
    { s with
      wheel := { s.wheel with pendingCmd := .none }
      pc :=
        match cmd with
        | .none => .poll
        | .home => .homing .start
        | .setAngle => .readFrequency
        | .calibrate => .calibration .start }
  | .readFrequency => { s with pc := .readAngle s.wheel.setAngle.frequency }
  | .readAngle frequency => { s with pc := .readPath frequency s.wheel.setAngle.angleDecidegrees }
  | .readPath frequency angleDecidegrees =>
    { s with pc := .setAngle (.start ⟨frequency, angleDecidegrees, s.wheel.setAngle.shortestPath⟩) }
  | .setAngle pc => setAngleStep input.drivers s pc
  | .homing pc => homingStep input s pc
  | .calibration pc => calibrationStep input s pc

/-- `k_poll` returns with the events it reports, if there are any. -/
def pollReturns (step encoder command : Bool) (s : WheelThread) : WheelThread :=
  let encoder := encoder && s.wheel.encoderSem
  let command := command && s.wheel.cmdSem
  match s.pc with
  | .poll =>
    if step && s.wheel.stepSem then { s with pc := .takeStep encoder command }
    else { s with pc := afterStep encoder command }
  | _ => s

/-- An assignment of a call is for an angle that `polarizer_wheel_set_angle` lets through. -/
def CmdStore.checked : CmdStore → Bool
  | .angleDecidegrees value => value ≤ 3600
  | _ => true

def CmdStore.assign (w : Wheel) : CmdStore → Wheel
  | .type value => { w with pendingCmd := value }
  | .frequency value => { w with setAngle := { w.setAngle with frequency := value } }
  | .angleDecidegrees value => { w with setAngle := { w.setAngle with angleDecidegrees := value } }
  | .shortestPath value => { w with setAngle := { w.setAngle with shortestPath := value } }
  | .homingSuccess value => { w with homingSuccess := value }

def polarizerWheelSetAcceleration (stepsPerS2 : UInt32) (w : Wheel) : Wheel :=
  { w with linearAccelerationStepsPerS2 := if stepsPerS2 = 0 then 8000 else stepsPerS2 }

def polarizerWheelSetMaxSpeed (msPerTurn : UInt32) (w : Wheel) : Wheel :=
  { w with
    maxSpeedMsPerTurn :=
      if msPerTurn = 0 then 200 else if msPerTurn ≤ spinAccelMinSpeedMsPerTurn then msPerTurn else w.maxSpeedMsPerTurn }

/-- What the step of the thread reports. -/
def mainReports (input : ThreadInput) (s : WheelThread) : List WheelEvent :=
  match s.pc with
  | .processStep currentPos _ _ => (processStepEvent input.drivers currentPos s.wheel).1
  | .setAngle (.start cmd) =>
    let w := recordMove cmd.angleDecidegrees s.wheel
    if s.wheel.state = .idle ∧ w.previousPosition = w.targetPosition ∧ w.previousPosition ≠ .unknown then
      reportReachedState w
    else []
  | .homing .clearLast => reportReachedState s.wheel
  | _ => []

def wheelStep (s : WheelThread) : WheelAction → List WheelEvent × WheelThread
  | .poll step encoder command => ([], pollReturns step encoder command s)
  | .thread input => (mainReports input s, mainStep input s)
  | .stepInterrupt => ([], if s.wheel.pwm ≠ none ∧ s.wheel.stepInterrupt then { s with wheel := stepIsr s.wheel } else s)
  | .encoderInterrupt pin =>
    ([], if s.wheel.encoderInterrupt then { s with wheel := encoderCallback pin s.wheel } else s)
  | .store new => ([], if new.checked then { s with wheel := new.assign s.wheel } else s)
  | .post => ([], { s with wheel := { s.wheel with cmdSem := true } })
  | .setAcceleration stepsPerS2 => ([], { s with wheel := polarizerWheelSetAcceleration stepsPerS2 s.wheel })
  | .setMaxSpeed msPerTurn => ([], { s with wheel := polarizerWheelSetMaxSpeed msPerTurn s.wheel })

/-- After `polarizer_wheel_init`, before the homing it queues. -/
def wheelThreadInit : WheelThread where
  wheel := { homedWheel with
    state := .uninitialized
    homingSuccess := false
    calibration := ⟨0, 0, 0, false, true⟩
    targetPosition := .unknown }
  notchCount := 0
  bumpIndex := 0
  bumpEntryPosition := 0
  insideBump := false
  pc := .poll

/-! Without interrupts in between, the steps of a move are the functions of the wheel as a whole. -/

variable {s : WheelThread}

theorem queue_checked {ι : Type*} {commands : Commands ι} {command : Command} {maxFrequency : UInt32}
    {stores : List CmdStore} (hvalid : command.invalid maxFrequency = false) (hqueue : command.queue commands = .ok stores) :
    ∀ new ∈ stores, new.checked = true := by
  cases command with
  | setAngle cmd =>
    simp only [Command.invalid, decide_eq_false_iff_not, not_or] at hvalid
    simp only [Command.queue, polarizerWheelSetAngle] at hqueue
    split_ifs at hqueue
    cases hqueue
    simpa [CmdStore.checked] using UInt32.not_lt.mp hvalid.1
  | home =>
    simp only [Command.queue, polarizerWheelHomeAsync] at hqueue
    split_ifs at hqueue
    cases hqueue
    simp [CmdStore.checked]
  | calibrate =>
    simp only [Command.queue, polarizerWheelCalibrateAsync] at hqueue
    split_ifs at hqueue
    cases hqueue
    simp [CmdStore.checked]

theorem run_setAngle (input : ThreadInput) {cmd : SetAngleCmd} (h : s.pc = .setAngle (.start cmd)) :
    ∃ n, (Machine.run wheelStep s (List.replicate n (.thread input))).2 =
      { s with
        wheel := (executeSetAngle input.drivers cmd.frequency cmd.angleDecidegrees cmd.shortestPath s.wheel).2
        pc := .poll } := by
  obtain ⟨w, notchCount, bumpIndex, bumpEntryPosition, insideBump, pc⟩ := s
  obtain rfl := h
  by_cases hidle : w.state = .idle
  · by_cases hthere : (recordMove cmd.angleDecidegrees w).previousPosition = (recordMove cmd.angleDecidegrees w).targetPosition ∧
        (recordMove cmd.angleDecidegrees w).previousPosition ≠ .unknown
    · refine ⟨1, ?_⟩
      simp only [Machine.run, List.replicate, wheelStep, mainStep, setAngleStep, executeSetAngle, hidle, ne_eq,
        not_true_eq_false, if_false, if_pos hthere]
    · refine ⟨4, ?_⟩
      simp [Machine.run, List.replicate, wheelStep, mainStep, setAngleStep, executeSetAngle, hidle, hthere]
  · refine ⟨1, ?_⟩
    simp [Machine.run, wheelStep, mainStep, setAngleStep, executeSetAngle, hidle]

theorem run_stepEvent (input : ThreadInput) {encoder command : Bool} (h : s.pc = .takeStep encoder command) :
    ∃ n, (Machine.run wheelStep s (List.replicate n (.thread input))).2 =
      { s with
        wheel := (takeStepEvent input.drivers s.wheel.current s.wheel).2
        pc := afterStep encoder command } := by
  obtain ⟨w, notchCount, bumpIndex, bumpEntryPosition, insideBump, pc⟩ := s
  obtain rfl := h
  cases hstate : w.state with
  | positioningWithEncoder | positioning | homing =>
    refine ⟨3, ?_⟩
    simp [Machine.run, List.replicate, wheelStep, mainStep, takeStepEvent, hstate]
  | uninitialized | idle | calibrating =>
    refine ⟨1, ?_⟩
    simp [Machine.run, List.replicate, wheelStep, mainStep, takeStepEvent, hstate]

theorem run_encoderEvent (input : ThreadInput) {command : Bool} (h : s.pc = .takeEncoder command) :
    ∃ n, (Machine.run wheelStep s (List.replicate n (.thread input))).2 =
      { s with wheel := takeEncoderEvent s.wheel.current s.wheel, pc := afterEncoder command } := by
  obtain ⟨w, notchCount, bumpIndex, bumpEntryPosition, insideBump, pc⟩ := s
  obtain rfl := h
  by_cases hcorrects : w.state = .positioningWithEncoder ∧ w.encoderTriggered = false
  · refine ⟨3, ?_⟩
    obtain ⟨hstate, htriggered⟩ := hcorrects
    simp [Machine.run, List.replicate, wheelStep, mainStep, takeEncoderEvent, processEncoderEventPositioning,
      markEncoderTriggered, hstate, htriggered]
  · refine ⟨1, ?_⟩
    simp only [Machine.run, List.replicate, wheelStep, mainStep, takeEncoderEvent, hcorrects, if_false]
    cases hstate : w.state with
    | positioningWithEncoder =>
      have htriggered : w.encoderTriggered = true := by simpa [hstate] using hcorrects
      simp [processEncoderEventPositioning, htriggered]
    | _ => rfl

end OrbFirmware.Polarizer

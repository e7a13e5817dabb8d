import Mathlib.Data.UInt
import OrbFirmware.Mirror.Angles
import OrbFirmware.Polling

/-! `homing_diamond.c` and `homing_pearl.c`: the threads that bring the motors of the mirror to known positions, by what the
driver says of their standstill. -/
namespace OrbFirmware.Mirror
open Calc Machine Polling

/-- `tmc5041_registers_t`, those that homing writes. -/
inductive Register where
  | xactual | xtarget
  deriving DecidableEq

/-- `motors_refs_t`, with the stroke. -/
structure MotorHandle extends MotorRefs where
  fullStrokeSteps : UInt32

inductive HomingEvent where
  | spiWrite (register : Register) (motor : Motor) (value : Int)
  | sendPositionModeFullSpeed (motor : Motor)
  | publishMotorRange (whichMotor : Motor) (rangeMicrosteps rangeMillidegrees : UInt32)

def motorDrvStatusStandstill : UInt32 := 2^31

def standstill (status : UInt32) : Bool := status &&& motorDrvStatusStandstill ≠ 0

def autohomingPollDelayMs : Nat := 30

def autohomingTimeoutMs : Board → Nat
  | .pearl => 7000
  | .diamond => 10000

def autohomingTimeoutLoopCount (b : Board) : Nat := autohomingTimeoutMs b/autohomingPollDelayMs

/-- `range`, which is published. -/
def motorRange (b : Board) (trig : Trigonometry) (motor : Motor) (fullStrokeSteps : UInt32) : HomingEvent :=
  .publishMotorRange motor fullStrokeSteps (.ofInt (2*
    calculateMillidegreesFromCenterPosition trig (fullStrokeSteps/2).toNat (motorsArmLengthMm b motor)))

def motorStateAfter (timeout : Nat) : RetCode := if timeout = 0 then .invalidState else .success

namespace Diamond

/-- `mirror_homing_state`. -/
inductive HomingState where
  | uninit | shiftedSideways | upToWall | thetaToCenter | thetaHomed | goHome | waitStandstill | success
  deriving DecidableEq

/-- `MOTOR_PHI_CENTER_FROM_FLAT_END_STEPS`, 30.15 turns. -/
def motorPhiCenterFromFlatEndSteps : Int := 154368

def motorPhiOffTheWallSteps : Int := 2*(360/18)*256

/-- `are_standstill`, of the statuses of the phi and the theta motor. -/
def areStandstill (status : UInt32 × UInt32) : Bool := standstill status.1 && standstill status.2

def homingStep (trig : Trigonometry) (motors : Motor → MotorHandle) (state : HomingState) (status : UInt32 × UInt32) :
    List HomingEvent × HomingState :=
  match state with
  | .uninit =>
    ([.spiWrite .xactual .phi 0, .sendPositionModeFullSpeed .phi, .sendPositionModeFullSpeed .theta,
      .spiWrite .xtarget .phi (-motorPhiCenterFromFlatEndSteps)], .shiftedSideways)
  | .shiftedSideways =>
    if areStandstill status then
      ([.spiWrite .xactual .phi 0, .spiWrite .xtarget .phi motorPhiOffTheWallSteps], .upToWall)
    else ([], state)
  | .upToWall =>
    if areStandstill status then
      ([.spiWrite .xactual .theta 0, .spiWrite .xtarget .theta (-motorFullRangeSteps .diamond .theta)], .thetaToCenter)
    else ([], state)
  | .thetaToCenter =>
    if areStandstill status then
      ([.spiWrite .xactual .theta 0, .spiWrite .xtarget .theta (motors .theta).stepsAtCenterPosition], .thetaHomed)
    else ([], state)
  | .thetaHomed =>
    if areStandstill status then ([motorRange .diamond trig .theta (motors .theta).fullStrokeSteps], .goHome)
    else ([], state)
  | .goHome =>
    if areStandstill status then ([.spiWrite .xtarget .phi (motorFullRangeSteps .diamond .phi)], .waitStandstill)
    else ([], state)
  | .waitStandstill =>
    if areStandstill status then
      ([.spiWrite .xactual .phi (motorFullRangeSteps .diamond .phi),
        motorRange .diamond trig .phi (motors .phi).fullStrokeSteps], .success)
    else ([], state)
  | .success => ([], state)

/-- After the loop: positioning mode, and the references. -/
def homingEnd (motors : Motor → MotorHandle) (timeout : Nat) : List HomingEvent × (Motor → MotorHandle) :=
  ([.sendPositionModeFullSpeed .theta, .sendPositionModeFullSpeed .phi], fun motor =>
    { motors motor with
      motorState := motorStateAfter timeout
      angleMillidegrees := match motor with
        | .theta => 90000
        | .phi => 0 })

def succeeded (state : HomingState) : Bool := state = .success

def homingStart : Poll HomingState HomingEvent := start .uninit (autohomingTimeoutLoopCount .diamond)

/-- Where the loop stops. -/
def homingLoop (trig : Trigonometry) (motors : Motor → MotorHandle) (statuses : Nat → UInt32 × UInt32) :
    Poll HomingState HomingEvent :=
  poll (homingStep trig motors) succeeded statuses (autohomingTimeoutLoopCount .diamond) homingStart

/-- The state that the loop has reached, and the references that the thread leaves. -/
def mirrorAutoHomingOverreachEndThread (trig : Trigonometry) (motors : Motor → MotorHandle)
    (statuses : Nat → UInt32 × UInt32) : List HomingEvent × HomingState × (Motor → MotorHandle) :=
  let p := homingLoop trig motors statuses
  let (events, motors) := homingEnd motors p.timeout
  (p.events ++ events, p.state, motors)

/-- The thread terminates, and says of both motors whether the state machine succeeded. -/
structure HomingVerdict (trig : Trigonometry) (motors : Motor → MotorHandle) (statuses : Nat → UInt32 × UInt32) :
    Prop where
  terminates : Loop.Ends (round (homingStep trig motors) succeeded statuses) homingStart (homingLoop trig motors statuses)
  verdict : ∀ motor, ((mirrorAutoHomingOverreachEndThread trig motors statuses).2.2 motor).motorState = .success ↔
    (mirrorAutoHomingOverreachEndThread trig motors statuses).2.1 = .success

/-- After the first round, both motors stand still in five rounds and then in the last one. -/
def SucceedsInLastRound (statuses : Nat → UInt32 × UInt32) : Prop :=
  let rounds := autohomingTimeoutLoopCount .diamond
  areStandstill (statuses (rounds-1)) = true ∧ readyCount (areStandstill · = true) statuses (rounds-2) = 5

end Diamond

namespace Pearl

/-- `mirror_homing_state`. -/
inductive HomingState where
  | uninit | goHome | waitStandstill | success
  deriving DecidableEq

structure Handle extends MotorHandle where
  autoHomingState : HomingState

def motorsFullStrokeStepsMaximumSteps : Motor → UInt32
  | .theta => 500*256
  | .phi => 700*256

def homingStep (trig : Trigonometry) (motor : Motor) (handle : Handle) (status : UInt32) : List HomingEvent × Handle :=
  match handle.autoHomingState with
  | .uninit =>
    ([.spiWrite .xactual motor 0, .sendPositionModeFullSpeed motor,
      .spiWrite .xtarget motor (-motorsFullStrokeStepsMaximumSteps motor).toInt32.toInt],
      { handle with autoHomingState := .goHome })
  | .goHome =>
    if standstill status then
      ([.spiWrite .xactual motor 0, .spiWrite .xtarget motor (motorCenterFromEndSteps .pearl motor)],
        { handle with
          stepsAtCenterPosition := motorCenterFromEndSteps .pearl motor
          fullStrokeSteps := .ofInt (motorFullRangeSteps .pearl motor)
          autoHomingState := .waitStandstill })
    else ([], handle)
  | .waitStandstill =>
    if standstill status then
      ([motorRange .pearl trig motor handle.fullStrokeSteps], { handle with autoHomingState := .success })
    else ([], handle)
  | .success => ([], handle)

def homingEnd (motor : Motor) (handle : Handle) (timeout : Nat) : List HomingEvent × Handle :=
  ([.sendPositionModeFullSpeed motor], { handle with
    motorState := motorStateAfter timeout
    angleMillidegrees := match motor with
      | .theta => 90000
      | .phi => 45000 })

def succeeded (handle : Handle) : Bool := handle.autoHomingState = .success

def homingStart (handle : Handle) : Poll Handle HomingEvent :=
  start { handle with autoHomingState := .uninit } (autohomingTimeoutLoopCount .pearl)

def homingLoop (trig : Trigonometry) (motor : Motor) (handle : Handle) (statuses : Nat → UInt32) :
    Poll Handle HomingEvent :=
  poll (homingStep trig motor) succeeded statuses (autohomingTimeoutLoopCount .pearl) (homingStart handle)

def mirrorAutoHomingOneEndThread (trig : Trigonometry) (motor : Motor) (handle : Handle) (statuses : Nat → UInt32) :
    List HomingEvent × Handle :=
  let p := homingLoop trig motor handle statuses
  let (events, handle) := homingEnd motor p.state p.timeout
  (p.events ++ events, handle)

/-- The thread terminates, and says whether the state machine succeeded. -/
structure HomingVerdict (trig : Trigonometry) (motor : Motor) (handle : Handle) (statuses : Nat → UInt32) : Prop where
  terminates : Loop.Ends (round (homingStep trig motor) succeeded statuses) (homingStart handle)
    (homingLoop trig motor handle statuses)
  verdict : (mirrorAutoHomingOneEndThread trig motor handle statuses).2.motorState = .success ↔
    (mirrorAutoHomingOneEndThread trig motor handle statuses).2.autoHomingState = .success

/-- After the first round, the motor stands still in one round and then in the last one. -/
def SucceedsInLastRound (statuses : Nat → UInt32) : Prop :=
  let rounds := autohomingTimeoutLoopCount .pearl
  standstill (statuses (rounds-1)) = true ∧ readyCount (standstill · = true) statuses (rounds-2) = 1

end Pearl

theorem motorStateAfter_success (timeout : Nat) : motorStateAfter timeout = .success ↔ timeout ≠ 0 := by
  rw [motorStateAfter]
  split
  · exact iff_of_false nofun (not_not.mpr ‹_›)
  · exact iff_of_true rfl ‹_›

namespace Diamond
variable {trig : Trigonometry} {motors : Motor → MotorHandle} {statuses : Nat → UInt32 × UInt32}

def phase : HomingState → Nat
  | .uninit => 0
  | .shiftedSideways => 1
  | .upToWall => 2
  | .thetaToCenter => 3
  | .thetaHomed => 4
  | .goHome => 5
  | .waitStandstill => 6
  | .success => 7

theorem phases (trig : Trigonometry) (motors : Motor → MotorHandle) :
    Phases (homingStep trig motors) phase (areStandstill · = true) 7 where
  leaves s i h := by
    cases s <;> first | rfl | exact absurd h nofun
  moves s i h hlt hready := by
    cases s <;> simp_all [phase, homingStep]
  waits s i h hnot := by
    cases s <;> simp_all [phase, homingStep]
  stays s i h := by
    cases s <;> first | rfl | exact absurd h nofun

theorem succeeded_iff (state : HomingState) : succeeded state = true ↔ phase state = 7 := by
  cases state <;> decide

theorem verdict_iff (trig : Trigonometry) (motors : Motor → MotorHandle) (statuses : Nat → UInt32 × UInt32) :
    HomingVerdict trig motors statuses ↔ ¬SucceedsInLastRound statuses := by
  have hends : Loop.Ends (round (homingStep trig motors) succeeded statuses) homingStart
      (homingLoop trig motors statuses) := ends_poll homingStart
  have htells : _ ↔ ¬SucceedsInLastRound statuses :=
    (phases trig motors).timeout_tells_iff (n := 331) (by omega) rfl succeeded_iff hends
  rw [← htells, succeeded, decide_eq_true_eq]
  constructor
  · rintro ⟨-, hverdict⟩
    exact (motorStateAfter_success _).symm.trans (hverdict .phi)
  · exact fun h => ⟨hends, fun motor => (motorStateAfter_success _).trans h⟩

end Diamond

namespace Pearl

def phase (handle : Handle) : Nat :=
  match handle.autoHomingState with
  | .uninit => 0
  | .goHome => 1
  | .waitStandstill => 2
  | .success => 3

theorem phases (trig : Trigonometry) (motor : Motor) : Phases (homingStep trig motor) phase (standstill · = true) 3 where
  leaves handle i h := by
    cases hstate : handle.autoHomingState <;> simp_all [phase, homingStep]
  moves handle i h hlt hready := by
    cases hstate : handle.autoHomingState <;> simp_all [phase, homingStep]
  waits handle i h hnot := by
    cases hstate : handle.autoHomingState <;> simp_all [phase, homingStep]
  stays handle i h := by
    cases hstate : handle.autoHomingState <;> simp_all [phase, homingStep]

theorem succeeded_iff (handle : Handle) : succeeded handle = true ↔ phase handle = 3 := by
  cases hstate : handle.autoHomingState <;> simp only [succeeded, phase, hstate] <;> decide

theorem verdict_iff (trig : Trigonometry) (motor : Motor) (handle : Handle) (statuses : Nat → UInt32) :
    HomingVerdict trig motor handle statuses ↔ ¬SucceedsInLastRound statuses := by
  have hends : Loop.Ends (round (homingStep trig motor) succeeded statuses) (homingStart handle)
      (homingLoop trig motor handle statuses) := ends_poll (homingStart handle)
  have htells : _ ↔ ¬SucceedsInLastRound statuses :=
    (phases trig motor).timeout_tells_iff (n := 231) (by omega) rfl succeeded_iff hends
  rw [← htells, succeeded, decide_eq_true_eq]
  constructor
  · rintro ⟨-, hverdict⟩
    exact (motorStateAfter_success _).symm.trans hverdict
  · exact fun h => ⟨hends, (motorStateAfter_success _).trans h⟩

end Pearl

/-- The verdict is that of the state machine exactly if this does not succeed in the last round that is permitted. -/
theorem homing_verdict_iff (trig : Trigonometry) :
    (∀ motors statuses, Diamond.HomingVerdict trig motors statuses ↔ ¬Diamond.SucceedsInLastRound statuses) ∧
      ∀ motor handle statuses, Pearl.HomingVerdict trig motor handle statuses ↔ ¬Pearl.SucceedsInLastRound statuses :=
  ⟨Diamond.verdict_iff trig, Pearl.verdict_iff trig⟩

/-- A motor that stands still in some rounds only. -/
def standingIn (rounds : List Nat) (n : Nat) : UInt32 := if n ∈ rounds then motorDrvStatusStandstill else 0

/-- Homed in the last round, the motors are said to be in an invalid state. -/
theorem homed_in_last_round : (¬∀ trig motors statuses, Diamond.HomingVerdict trig motors statuses) ∧
    ¬∀ trig motor handle statuses, Pearl.HomingVerdict trig motor handle statuses := by
  let refs : MotorRefs := ⟨0, .notInitialized, 0⟩
  constructor
  · intro h
    have hverdict := h smallAngles (fun _ => ⟨refs, 0⟩) fun n => (standingIn [50, 100, 150, 200, 250, 332] n,
      standingIn [50, 100, 150, 200, 250, 332] n)
    exact (Diamond.verdict_iff _ _ _).mp hverdict ⟨by decide +kernel, by decide +kernel⟩
  · intro h
    have hverdict := h smallAngles .theta ⟨⟨refs, 0⟩, .uninit⟩ (standingIn [100, 232])
    exact (Pearl.verdict_iff _ _ _ _).mp hverdict ⟨by decide +kernel, by decide +kernel⟩

end OrbFirmware.Mirror

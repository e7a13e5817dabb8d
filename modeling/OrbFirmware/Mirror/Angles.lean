import OrbFirmware.CArith
import OrbFirmware.Flash

/-! `mirror.c`: the two motors of the mirror, their positions in microsteps and the angles of their axes in
millidegrees, absolute and relative. -/
namespace OrbFirmware.Mirror
open Calc

/-- `motor_t`. -/
inductive Motor where
  | theta | phi
  deriving DecidableEq

def mirrorCenterAngle : Motor → Int
  | .theta => 90000
  | .phi => 45000

/-- `MIRROR_ANGLE_PHI_MIN_MILLIDEGREES` and its three siblings. -/
def mirrorAngleMin : Board → Motor → Int
  | .pearl, .theta => 90000-17500
  | .pearl, .phi => 45000-9500
  | .diamond, .theta => 90000-20000
  | .diamond, .phi => 0

def mirrorAngleMax : Board → Motor → Int
  | .pearl, .theta => 90000+17500
  | .pearl, .phi => 45000+9500
  | .diamond, .theta => 90000+20000
  | .diamond, .phi => 45000+23000

def motorsArmLengthMm : Board → Motor → Float
  | .pearl, .theta => 12.0
  | .pearl, .phi => 18.71
  | .diamond, .theta => 18.0
  | .diamond, .phi => 16.0

/-- `MOTOR_THETA_CENTER_FROM_END_STEPS` and `MOTOR_PHI_CENTER_FROM_END_STEPS`: on Diamond 15.4 and 16.325 turns. -/
def motorCenterFromEndSteps : Board → Motor → Int
  | .pearl, .theta => 55000
  | .pearl, .phi => 87000
  | .diamond, .theta => 78848
  | .diamond, .phi => 83584

/-- `MOTOR_THETA_FULL_RANGE_STEPS` and `MOTOR_PHI_FULL_RANGE_STEPS`, on Diamond cut from a double. -/
def motorFullRangeSteps : Board → Motor → Int
  | .pearl, .theta => 110000
  | .pearl, .phi => 174000
  | .diamond, .theta => 157696
  | .diamond, .phi => 237951

/-- `motors_refs_t`. -/
structure MotorRefs where
  stepsAtCenterPosition : Int
  motorState : RetCode
  angleMillidegrees : UInt32
  deriving DecidableEq

/-- The references of the motors with the positions in the registers of their driver. -/
structure Motors where
  motorsRefs : Motor → MotorRefs
  xactual : Motor → Int
  xtarget : Motor → Int

def microstepsPerMm : Float := 12800.0

def pi : Float := 3.14159265358979323846

/-- The conversion of a double to `int32_t`. -/
def truncate (x : Float) : Int := x.toModel.unpack.toInt32.toInt

/-- `roundl`, which rounds halves away from zero. -/
def roundl (x : Float) : Int :=
  let doubled := truncate (2.0*x)
  if doubled < 0 then -((1-doubled)/2) else (doubled+1)/2

/-- The mathematical library's functions of angles. -/
structure Trigonometry where
  sin : Float → Float
  asin : Float → Float

def calculateMillidegreesFromCenterPosition (trig : Trigonometry) (microsteps : Int) (armLengthMm : Float) : Int :=
  truncate (trig.asin (Float.ofInt microsteps/microstepsPerMm/armLengthMm)*180000.0/pi)

def calculateMicrostepsFromCenterPosition (trig : Trigonometry) (millidegrees : Int) (armLengthMm : Float) : Int :=
  roundl (trig.sin (Float.ofInt millidegrees*pi/180000.0)*armLengthMm*microstepsPerMm)

/-- The phi motor turns the other way. -/
def oriented (motor : Motor) (n : Int) : Calc Int := if motor = .phi then int32 (-n) else pure n

def mirrorSetAngleFromCenter (b : Board) (trig : Trigonometry) (millidegrees : Int) (motor : Motor) (s : Motors) :
    Calc (RetCode × Motors) :=
  let refs := s.motorsRefs motor
  if refs.motorState ≠ .success then pure (refs.motorState, s)
  else do
    let millidegrees ← oriented motor millidegrees
    let microsteps := calculateMicrostepsFromCenterPosition trig millidegrees (motorsArmLengthMm b motor)
    let position ← int32 (refs.stepsAtCenterPosition+microsteps)
    let angle ← int32 (millidegrees+mirrorCenterAngle motor)
    return (.success, { s with
      motorsRefs := Function.update s.motorsRefs motor { refs with angleMillidegrees := .ofInt angle }
      xtarget := Function.update s.xtarget motor position })

def mirrorCheckAngle (b : Board) (angleMillidegrees : UInt32) (motor : Motor) : RetCode :=
  if mirrorAngleMax b motor < angleMillidegrees.toNat ∨ angleMillidegrees.toNat < mirrorAngleMin b motor then .invalidParam
  else .success

def mirrorSetAngle (b : Board) (trig : Trigonometry) (angleMillidegrees : UInt32) (motor : Motor) (s : Motors) :
    Calc (RetCode × Motors) :=
  let ret := mirrorCheckAngle b angleMillidegrees motor
  if ret ≠ .success then pure (ret, s)
  else do
    let fromCenter ← int32 (angleMillidegrees.toNat-mirrorCenterAngle motor)
    mirrorSetAngleFromCenter b trig fromCenter motor s

/-- `angle_from_center_millidegrees` of `mirror_set_angle_relative`, from the position of the motor. -/
def angleFromCenter (b : Board) (trig : Trigonometry) (motor : Motor) (s : Motors) : Calc Int := do
  let microsteps ← int32 (s.xactual motor-(s.motorsRefs motor).stepsAtCenterPosition)
  let microsteps ← oriented motor microsteps
  return calculateMillidegreesFromCenterPosition trig microsteps (motorsArmLengthMm b motor)

/-- The limits that `mirror_set_angle_relative` clamps to, as the code has them. -/
def relativeMin (b : Board) (motor : Motor) : Int := mirrorCenterAngle motor-mirrorAngleMax b motor

def relativeMax (b : Board) (motor : Motor) : Int := mirrorCenterAngle motor-mirrorAngleMin b motor

/-- `CLAMP`. -/
def clamp (val low high : Int) : Int := if val ≤ low then low else min val high

/-- `target_angle_from_center_millidegrees`, which `mirror_set_angle_from_center` is called with. -/
def targetAngleFromCenter (b : Board) (trig : Trigonometry) (angleMillidegrees : Int32) (motor : Motor) (s : Motors) :
    Calc Int := do
  let fromCenter ← angleFromCenter b trig motor s
  let target ← int32 (fromCenter+angleMillidegrees.toInt)
  return clamp target (relativeMin b motor) (relativeMax b motor)

def mirrorSetAngleRelative (b : Board) (trig : Trigonometry) (angleMillidegrees : Int32) (motor : Motor) (s : Motors) :
    Calc (RetCode × Motors) := do
  let target ← targetAngleFromCenter b trig angleMillidegrees motor s
  mirrorSetAngleFromCenter b trig target motor s

/-! The range of the relative commands against that of the absolute ones. -/

variable {b : Board} {trig : Trigonometry} {motor : Motor} {s : Motors}

/-- The angle from the centre that an absolute command is for, where it is accepted. -/
def Accepted (b : Board) (motor : Motor) (fromCenter : Int) : Prop :=
  ∃ angle : UInt32, mirrorCheckAngle b angle motor = .success ∧ angle.toNat-mirrorCenterAngle motor = fromCenter

theorem mirrorCheckAngle_success {angle : UInt32} : mirrorCheckAngle b angle motor = .success ↔
    mirrorAngleMin b motor ≤ angle.toNat ∧ angle.toNat ≤ mirrorAngleMax b motor := by
  rw [mirrorCheckAngle]
  split
  · simp only [reduceCtorEq, false_iff]
    omega
  · simp only [true_iff]
    omega

theorem mirrorAngleMin_nonneg (b : Board) (motor : Motor) : 0 ≤ mirrorAngleMin b motor := by
  cases b <;> cases motor <;> decide

theorem mirrorAngleMax_lt (b : Board) (motor : Motor) : mirrorAngleMax b motor < 2^32 := by
  cases b <;> cases motor <;> decide

theorem accepted_iff {fromCenter : Int} : Accepted b motor fromCenter ↔
    mirrorAngleMin b motor ≤ fromCenter+mirrorCenterAngle motor ∧
      fromCenter+mirrorCenterAngle motor ≤ mirrorAngleMax b motor := by
  constructor
  · rintro ⟨angle, hangle, rfl⟩
    obtain ⟨hmin, hmax⟩ := mirrorCheckAngle_success.mp hangle
    omega
  · rintro ⟨hmin, hmax⟩
    have hnonneg := mirrorAngleMin_nonneg b motor
    have hlt := mirrorAngleMax_lt b motor
    have hnat : (UInt32.ofNat (fromCenter+mirrorCenterAngle motor).toNat).toNat = fromCenter+mirrorCenterAngle motor := by
      rw [UInt32.toNat_ofNat_of_lt' (by change _ < 2^32; omega)]
      omega
    refine ⟨.ofNat (fromCenter+mirrorCenterAngle motor).toNat, mirrorCheckAngle_success.mpr ?_, ?_⟩
    · rw [hnat]
      exact ⟨hmin, hmax⟩
    · rw [hnat]
      omega

/-- The motor is homed and within its stroke. -/
structure WithinStroke (b : Board) (motor : Motor) (s : Motors) : Prop where
  center : (s.motorsRefs motor).stepsAtCenterPosition = motorCenterFromEndSteps b motor
  low : 0 ≤ s.xactual motor
  high : s.xactual motor ≤ motorFullRangeSteps b motor

theorem oriented_exact {n : Int} (h : -2^31 < n ∧ n < 2^31) : (oriented motor n).exact = true := by
  rw [oriented]
  split
  · rw [int32_exact_iff]
    omega
  · rfl

theorem angleFromCenter_exact (trig : Trigonometry) (h : WithinStroke b motor s) :
    (angleFromCenter b trig motor s).exact = true := by
  have hdiff : -2^31 < s.xactual motor-(s.motorsRefs motor).stepsAtCenterPosition ∧
      s.xactual motor-(s.motorsRefs motor).stepsAtCenterPosition < 2^31 := by
    obtain ⟨hcenter, hlow, hhigh⟩ := h
    rw [hcenter]
    cases b <;> cases motor <;> simp only [motorCenterFromEndSteps, motorFullRangeSteps] at hhigh ⊢ <;> omega
  rw [angleFromCenter, int32_exact (by omega), pure_bind]
  exact (Bool.and_true _).trans (oriented_exact hdiff)

/-- The sum that a relative command makes of the current angle. -/
def relativeSum (b : Board) (trig : Trigonometry) (angleMillidegrees : Int32) (motor : Motor) (s : Motors) : Int :=
  (angleFromCenter b trig motor s).value+angleMillidegrees.toInt

theorem targetAngleFromCenter_exact (h : WithinStroke b motor s) (angle : Int32) :
    (targetAngleFromCenter b trig angle motor s).exact = true ↔
      -2^31 ≤ relativeSum b trig angle motor s ∧ relativeSum b trig angle motor s < 2^31 := by
  rw [← int32_exact_iff]
  have hexact := angleFromCenter_exact trig h
  simp only [targetAngleFromCenter, bind, hexact, Bool.true_and, pure, Bool.and_true]
  rfl

theorem targetAngleFromCenter_value {angle : Int32}
    (h : -2^31 ≤ relativeSum b trig angle motor s ∧ relativeSum b trig angle motor s < 2^31) :
    (targetAngleFromCenter b trig angle motor s).value =
      clamp (relativeSum b trig angle motor s) (relativeMin b motor) (relativeMax b motor) := by
  have hsum : int32 ((angleFromCenter b trig motor s).value+angle.toInt) = pure (relativeSum b trig angle motor s) :=
    int32_exact h
  rw [targetAngleFromCenter, bind_value, bind_value, hsum]
  rfl

/-- A relative command clamps to the range of the absolute ones, with no overflow. -/
structure ClampsToRange (b : Board) (trig : Trigonometry) (angleMillidegrees : Int32) (motor : Motor) (s : Motors) :
    Prop where
  exact : (targetAngleFromCenter b trig angleMillidegrees motor s).exact = true
  accepted : Accepted b motor (targetAngleFromCenter b trig angleMillidegrees motor s).value
  unchanged : Accepted b motor (relativeSum b trig angleMillidegrees motor s) →
    (targetAngleFromCenter b trig angleMillidegrees motor s).value = relativeSum b trig angleMillidegrees motor s

/-- The phi axis of Diamond, whose range is not symmetric, is clamped to the range of the other direction. -/
def ClampedWell (b : Board) (motor : Motor) (sum : Int) : Prop :=
  b = .diamond → motor = .phi → sum < -45000 ∨ -23000 ≤ sum ∧ sum ≤ 23000

theorem clamp_accepted_iff (b : Board) (motor : Motor) (sum : Int) :
    (Accepted b motor (clamp sum (relativeMin b motor) (relativeMax b motor)) ∧
      (Accepted b motor sum → clamp sum (relativeMin b motor) (relativeMax b motor) = sum)) ↔ ClampedWell b motor sum := by
  simp only [accepted_iff, clamp]
  cases b <;> cases motor <;>
    simp only [mirrorAngleMin, mirrorAngleMax, mirrorCenterAngle, relativeMin, relativeMax, ClampedWell, reduceCtorEq,
      false_implies, implies_true, true_implies, iff_true] <;> omega

/-- A homed mirror at its centre. -/
def centered (b : Board) : Motors where
  motorsRefs motor := ⟨motorCenterFromEndSteps b motor, .success, .ofInt (mirrorCenterAngle motor)⟩
  xactual := motorCenterFromEndSteps b
  xtarget := motorCenterFromEndSteps b

/-- To the first order. -/
def smallAngles : Trigonometry := ⟨id, id⟩

end OrbFirmware.Mirror

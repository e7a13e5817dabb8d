import OrbFirmware.Machine
import OrbFirmware.Mirror.Commands

/-! The angle that the mirror reports for an axis, which its sweeps start from, against the position that the motor of the
axis has been sent to. -/
namespace OrbFirmware.Mirror
open Calc

def mirrorGetPhiAngleMillidegrees (s : Motors) : UInt32 := (s.motorsRefs .phi).angleMillidegrees

def mirrorGetThetaAngleMillidegrees (s : Motors) : UInt32 := (s.motorsRefs .theta).angleMillidegrees

def reportedAngle : Motor → Motors → UInt32
  | .phi => mirrorGetPhiAngleMillidegrees
  | .theta => mirrorGetThetaAngleMillidegrees

/-- The setter of an axis. -/
def AxisAngle.set (b : Board) (trig : Trigonometry) (motor : Motor) : AxisAngle → Motors → Calc (RetCode × Motors)
  | .absolute angle => mirrorSetAngle b trig angle motor
  | .relative angle => mirrorSetAngleRelative b trig angle motor

/-- A command for an axis, or the motors on their way. -/
inductive Input where
  | command (motor : Motor) (angle : AxisAngle)
  | moved (xactual : Motor → Int)

def mirrorStep (b : Board) (trig : Trigonometry) (s : Motors) : Input → Option RetCode × Motors
  | .command motor angle => Prod.map some id (angle.set b trig motor s).value
  | .moved xactual => (none, { s with xactual })

/-- The absolute setter takes the angle reported for the axis, and commands the position that is commanded already. -/
structure ReadsBack (b : Board) (trig : Trigonometry) (motor : Motor) (s : Motors) : Prop where
  taken : (mirrorSetAngle b trig (reportedAngle motor s) motor s).value.1 = .success
  same : (mirrorSetAngle b trig (reportedAngle motor s) motor s).value.2.xtarget motor = s.xtarget motor

/-- After a command with `RET_SUCCESS`, the angle reported reads back, and is that of an absolute command. -/
def StepReadsBack (b : Board) (trig : Trigonometry) (s : Motors) : Input → Prop
  | .command motor angle =>
    let r := mirrorStep b trig s (.command motor angle)
    r.1 = some .success →
      ReadsBack b trig motor r.2 ∧ ∀ a, angle = .absolute a → reportedAngle motor r.2 = a
  | .moved _ => True

/-- An angle from the centre and the one opposite to it are the same number of microsteps. -/
def OppositeAlike (b : Board) (trig : Trigonometry) (motor : Motor) (fromCenter : Int) : Prop :=
  calculateMicrostepsFromCenterPosition trig fromCenter (motorsArmLengthMm b motor) =
    calculateMicrostepsFromCenterPosition trig (-fromCenter) (motorsArmLengthMm b motor)

/-- The angle is for the centre of the phi axis. -/
def AxisAngle.ForCenter (b : Board) (trig : Trigonometry) (s : Motors) : AxisAngle → Prop
  | .absolute angle => angle = 45000
  | .relative angle => OppositeAlike b trig .phi (targetAngleFromCenter b trig angle .phi s).value

/-- The phi axis takes no other command than for its centre. -/
def PhiForCenter (b : Board) (trig : Trigonometry) (s : Motors) : Input → Prop
  | .command .phi angle => angle.Valid b .phi s → angle.ForCenter b trig s
  | _ => True

variable {b : Board} {trig : Trigonometry} {motor : Motor} {s : Motors} {n : Int}

/-! The angle that a setter keeps and the position that it commands. -/

/-- The angle after the inversion. -/
def turned (motor : Motor) (n : Int) : Int := if motor = .phi then -n else n

theorem turned_turned (motor : Motor) (n : Int) : turned motor (turned motor n) = n := by
  cases motor <;> simp only [turned, reduceCtorEq, if_true, if_false, neg_neg]

def Motors.aimedAt (b : Board) (trig : Trigonometry) (motor : Motor) (s : Motors) (n : Int) : Motors :=
  { s with
    motorsRefs := Function.update s.motorsRefs motor
      { s.motorsRefs motor with angleMillidegrees := .ofInt (n+mirrorCenterAngle motor) }
    xtarget := Function.update s.xtarget motor (int32 ((s.motorsRefs motor).stepsAtCenterPosition+
      calculateMicrostepsFromCenterPosition trig n (motorsArmLengthMm b motor))).value }

theorem reportedAngle_eq (motor : Motor) (s : Motors) : reportedAngle motor s = (s.motorsRefs motor).angleMillidegrees := by
  cases motor <;> rfl

theorem mirrorSetAngleFromCenter_ready (h : (s.motorsRefs motor).motorState = .success) (hn : -2^20 ≤ n ∧ n ≤ 2^20) :
    (mirrorSetAngleFromCenter b trig n motor s).value = (.success, s.aimedAt b trig motor (turned motor n)) := by
  have horiented : oriented motor n = pure (turned motor n) := by
    rw [oriented, turned]
    split
    · exact int32_exact (by omega)
    · rfl
  have hangle : int32 (turned motor n+mirrorCenterAngle motor) = pure (turned motor n+mirrorCenterAngle motor) := by
    refine int32_exact ?_
    cases motor <;> simp only [turned, mirrorCenterAngle, reduceCtorEq, if_true, if_false] <;> omega
  rw [mirrorSetAngleFromCenter, if_neg (not_not.mpr h), horiented, pure_bind, hangle]
  rfl

theorem center_bounds (motor : Motor) : 0 ≤ mirrorCenterAngle motor ∧ mirrorCenterAngle motor ≤ 90000 := by
  cases motor <;> decide

theorem mirrorAngleMax_le (b : Board) (motor : Motor) : mirrorAngleMax b motor ≤ 110000 := by
  cases b <;> cases motor <;> decide

theorem mirrorSetAngle_ready (trig : Trigonometry) {angle : UInt32} (h : (s.motorsRefs motor).motorState = .success)
    (hangle : mirrorCheckAngle b angle motor = .success) :
    (mirrorSetAngle b trig angle motor s).value =
      (.success, s.aimedAt b trig motor (turned motor (angle.toNat-mirrorCenterAngle motor))) := by
  have hmax := (mirrorCheckAngle_success.mp hangle).2
  have hle := mirrorAngleMax_le b motor
  have hcenter := center_bounds motor
  rw [mirrorSetAngle, if_neg (not_not.mpr hangle), int32_exact (by omega), pure_bind]
  exact mirrorSetAngleFromCenter_ready h (by omega)

theorem targetAngleFromCenter_bounds (b : Board) (trig : Trigonometry) (angle : Int32) (motor : Motor) (s : Motors) :
    relativeMin b motor ≤ (targetAngleFromCenter b trig angle motor s).value ∧
      (targetAngleFromCenter b trig angle motor s).value ≤ relativeMax b motor := by
  have hrange : relativeMin b motor ≤ relativeMax b motor := by
    cases b <;> cases motor <;> decide
  simp only [targetAngleFromCenter, bind_value, pure_value, clamp]
  split <;> omega

theorem mirrorSetAngleRelative_ready (h : (s.motorsRefs motor).motorState = .success) (angle : Int32) :
    (mirrorSetAngleRelative b trig angle motor s).value =
      (.success, s.aimedAt b trig motor (turned motor (targetAngleFromCenter b trig angle motor s).value)) := by
  obtain ⟨hmin, hmax⟩ := targetAngleFromCenter_bounds b trig angle motor s
  have hcenter := center_bounds motor
  have hle := mirrorAngleMax_le b motor
  have hnonneg := mirrorAngleMin_nonneg b motor
  rw [relativeMin] at hmin
  rw [relativeMax] at hmax
  rw [mirrorSetAngleRelative, bind_value]
  exact mirrorSetAngleFromCenter_ready h (by omega)

/-! Reading back. -/

theorem reportedAngle_aimedAt (b : Board) (trig : Trigonometry) (s : Motors)
    (hn : 0 ≤ n+mirrorCenterAngle motor ∧ n+mirrorCenterAngle motor < 2^32) :
    (reportedAngle motor (s.aimedAt b trig motor n)).toNat = n+mirrorCenterAngle motor := by
  rw [reportedAngle_eq, Motors.aimedAt]
  simp only [Function.update_self, UInt32.ofInt]
  rw [UInt32.toNat_ofNat_of_lt' (by change _ < 2^32; omega)]
  omega

theorem microsteps_bounds (trig : Trigonometry) (n : Int) (arm : Float) :
    -2^30 ≤ calculateMicrostepsFromCenterPosition trig n arm ∧
      calculateMicrostepsFromCenterPosition trig n arm ≤ 2^30 := by
  have hbounds (x : Float) : -2^31 ≤ truncate x ∧ truncate x < 2^31 := ⟨Int32.le_toInt _, Int32.toInt_lt _⟩
  rw [calculateMicrostepsFromCenterPosition, roundl]
  obtain ⟨hlow, hhigh⟩ := hbounds (2.0*(trig.sin (Float.ofInt n*pi/180000.0)*arm*microstepsPerMm))
  split <;> omega

theorem position_inj {center m m' : Int} (hm : -2^30 ≤ m ∧ m ≤ 2^30) (hm' : -2^30 ≤ m' ∧ m' ≤ 2^30) :
    (int32 (center+m)).value = (int32 (center+m')).value ↔ m = m' := by
  have hsub : center+m-(center+m') = m-m' := by omega
  rw [int32, int32, Int.bmod_eq_bmod_iff_bmod_sub_eq_zero, hsub, ← Int.dvd_iff_bmod_eq_zero]
  omega

theorem readsBack_aimedAt (trig : Trigonometry) (h : (s.motorsRefs motor).motorState = .success)
    (hn : 0 ≤ n+mirrorCenterAngle motor ∧ n+mirrorCenterAngle motor < 2^32) :
    ReadsBack b trig motor (s.aimedAt b trig motor n) ↔ Accepted b motor n ∧
      calculateMicrostepsFromCenterPosition trig (turned motor n) (motorsArmLengthMm b motor) =
        calculateMicrostepsFromCenterPosition trig n (motorsArmLengthMm b motor) := by
  have hreported := reportedAngle_aimedAt b trig s hn
  have hready : ((s.aimedAt b trig motor n).motorsRefs motor).motorState = .success := by
    simp only [Motors.aimedAt, Function.update_self, h]
  have hcenter : ((s.aimedAt b trig motor n).motorsRefs motor).stepsAtCenterPosition =
      (s.motorsRefs motor).stepsAtCenterPosition := by
    simp only [Motors.aimedAt, Function.update_self]
  have hset (hok : mirrorCheckAngle b (reportedAngle motor (s.aimedAt b trig motor n)) motor = .success) :=
    mirrorSetAngle_ready trig hready hok
  have hback : (reportedAngle motor (s.aimedAt b trig motor n)).toNat-mirrorCenterAngle motor = n := by omega
  rw [accepted_iff, ← hreported, ← mirrorCheckAngle_success]
  constructor
  · rintro ⟨htaken, hsame⟩
    have hok : mirrorCheckAngle b (reportedAngle motor (s.aimedAt b trig motor n)) motor = .success := by
      by_contra hrefused
      rw [mirrorSetAngle, if_pos hrefused] at htaken
      exact hrefused htaken
    rw [hset hok, hback] at hsame
    simp only [Motors.aimedAt, Function.update_self] at hsame
    exact ⟨hok, (position_inj (microsteps_bounds ..) (microsteps_bounds ..)).mp hsame⟩
  · rintro ⟨hok, hsame⟩
    refine ⟨by rw [hset hok], ?_⟩
    rw [hset hok, hback]
    simp only [Motors.aimedAt, Function.update_self, hsame]

/-! The commands. -/

theorem mirrorSetAngleFromCenter_success (h : (mirrorSetAngleFromCenter b trig n motor s).value.1 = .success) :
    (s.motorsRefs motor).motorState = .success := by
  by_contra hready
  rw [mirrorSetAngleFromCenter, if_pos hready] at h
  exact hready h

theorem AxisAngle.valid_of_success {angle : AxisAngle} (h : (angle.set b trig motor s).value.1 = .success) :
    angle.Valid b motor s := by
  cases angle with
  | absolute angle =>
    by_cases hangle : mirrorCheckAngle b angle motor = .success
    · rw [AxisAngle.set, mirrorSetAngle, if_neg (not_not.mpr hangle), bind_value] at h
      exact ⟨mirrorSetAngleFromCenter_success h, hangle⟩
    · rw [AxisAngle.set, mirrorSetAngle, if_pos hangle] at h
      exact absurd h hangle
  | relative angle =>
    rw [AxisAngle.set, mirrorSetAngleRelative, bind_value] at h
    exact ⟨mirrorSetAngleFromCenter_success h, trivial⟩

/-- The angle from the centre that is asked for. -/
def AxisAngle.asked (b : Board) (trig : Trigonometry) (motor : Motor) (s : Motors) : AxisAngle → Int
  | .absolute angle => angle.toNat-mirrorCenterAngle motor
  | .relative angle => (targetAngleFromCenter b trig angle motor s).value

theorem AxisAngle.set_valid (trig : Trigonometry) {angle : AxisAngle} (h : angle.Valid b motor s) :
    (angle.set b trig motor s).value =
      (.success, s.aimedAt b trig motor (turned motor (angle.asked b trig motor s))) := by
  cases angle with
  | absolute angle => exact mirrorSetAngle_ready trig h.1 h.2
  | relative angle => exact mirrorSetAngleRelative_ready h.1 angle

/-- The angle kept is one of an absolute command, but for an absolute one of the phi axis. -/
theorem AxisAngle.asked_accepted (trig : Trigonometry) {angle : AxisAngle} (h : angle.Valid b motor s)
    (hphi : motor = .phi → ∃ a, angle = .relative a) :
    Accepted b motor (turned motor (angle.asked b trig motor s)) := by
  rw [accepted_iff]
  cases angle with
  | absolute angle =>
    obtain rfl : motor = .theta := by
      cases motor with
      | theta => rfl
      | phi => obtain ⟨a, ha⟩ := hphi rfl; exact absurd ha nofun
    have hrange := mirrorCheckAngle_success.mp h.2
    rw [turned, if_neg nofun, AxisAngle.asked]
    omega
  | relative angle =>
    have hbounds := targetAngleFromCenter_bounds b trig angle motor s
    rw [AxisAngle.asked]
    cases b <;> cases motor <;>
      simp only [relativeMin, relativeMax, mirrorAngleMin, mirrorAngleMax, mirrorCenterAngle, turned, reduceCtorEq,
        if_true, if_false] at hbounds ⊢ <;> omega

theorem AxisAngle.kept_bounds (trig : Trigonometry) {angle : AxisAngle} (h : angle.Valid b motor s) :
    0 ≤ turned motor (angle.asked b trig motor s)+mirrorCenterAngle motor ∧
      turned motor (angle.asked b trig motor s)+mirrorCenterAngle motor < 2^32 := by
  cases angle with
  | absolute angle =>
    have hrange := mirrorCheckAngle_success.mp h.2
    rw [AxisAngle.asked]
    cases b <;> cases motor <;>
      simp only [mirrorAngleMin, mirrorAngleMax, mirrorCenterAngle, turned, reduceCtorEq, if_true, if_false] at hrange ⊢ <;>
      omega
  | relative angle =>
    have haccepted := AxisAngle.asked_accepted trig h fun _ => ⟨angle, rfl⟩
    obtain ⟨hlow, hhigh⟩ := accepted_iff.mp haccepted
    have hnonneg := mirrorAngleMin_nonneg b motor
    have hlt := mirrorAngleMax_lt b motor
    omega

/-- Where an axis takes its angle, the step reads back if what is reported then does. -/
theorem stepReadsBack_valid {angle : AxisAngle} (h : angle.Valid b motor s) :
    StepReadsBack b trig s (.command motor angle) ↔
      (Accepted b motor (turned motor (angle.asked b trig motor s)) ∧
        calculateMicrostepsFromCenterPosition trig (angle.asked b trig motor s) (motorsArmLengthMm b motor) =
          calculateMicrostepsFromCenterPosition trig (turned motor (angle.asked b trig motor s))
            (motorsArmLengthMm b motor)) ∧
      ∀ a, angle = .absolute a → turned motor (angle.asked b trig motor s)+mirrorCenterAngle motor = a.toNat := by
  have hset := AxisAngle.set_valid trig h
  have hkept := AxisAngle.kept_bounds trig h
  have hreads := readsBack_aimedAt (b := b) trig h.1 hkept
  have hreported := reportedAngle_aimedAt b trig s hkept
  rw [turned_turned] at hreads
  simp only [StepReadsBack, mirrorStep, hset, Prod.map, id_eq, true_implies, hreads]
  refine and_congr_right fun _ => forall₂_congr fun a _ => ?_
  rw [← hreported, ← UInt32.toNat_inj]
  omega

theorem command_readsBack_iff (b : Board) (trig : Trigonometry) (motor : Motor) (angle : AxisAngle) (s : Motors) :
    StepReadsBack b trig s (.command motor angle) ↔ PhiForCenter b trig s (.command motor angle) := by
  by_cases hvalid : angle.Valid b motor s
  · rw [stepReadsBack_valid hvalid]
    cases motor with
    | theta =>
      refine iff_of_true ⟨⟨AxisAngle.asked_accepted trig hvalid nofun, rfl⟩, ?_⟩ trivial
      rintro a rfl
      rw [turned, if_neg nofun, AxisAngle.asked]
      omega
    | phi =>
      simp only [PhiForCenter, hvalid, true_implies]
      cases angle with
      | absolute a =>
        simp only [AxisAngle.ForCenter, AxisAngle.asked, turned, mirrorCenterAngle, if_true]
        constructor
        · rintro ⟨-, hsame⟩
          have ha := hsame a rfl
          rw [← UInt32.toNat_inj]
          change _ = 45000
          omega
        · rintro rfl
          have hcenter : (45000 : UInt32).toNat = 45000 := rfl
          rw [hcenter, accepted_iff]
          refine ⟨⟨?_, rfl⟩, ?_⟩
          · cases b <;> decide
          · rintro a ⟨⟩
            rfl
      | relative a =>
        have haccepted := AxisAngle.asked_accepted trig hvalid fun _ => ⟨a, rfl⟩
        simp only [haccepted, true_and, reduceCtorEq, false_implies, implies_true, and_true]
        exact Iff.rfl
  · refine iff_of_true (fun hsuccess => ?_) ?_
    · exact absurd (AxisAngle.valid_of_success (Option.some.inj hsuccess)) hvalid
    · cases motor with
      | theta => trivial
      | phi => exact fun h => absurd h hvalid

/-- After every command that succeeds, the angle reported reads back exactly if the phi axis is only sent to its
centre. -/
theorem reported_angle_reads_back_iff (b : Board) (trig : Trigonometry) (s : Motors) (inputs : List Input) :
    Machine.Meets (mirrorStep b trig) (StepReadsBack b trig) s inputs ↔
      Machine.Meets (mirrorStep b trig) (PhiForCenter b trig) s inputs := by
  have hstep : StepReadsBack b trig = PhiForCenter b trig := by
    funext s input
    cases input with
    | command motor angle => exact propext (command_readsBack_iff b trig motor angle s)
    | moved xactual => rfl
  rw [hstep]

/-- Sent to 50 degrees, the phi axis of Pearl reports 40. -/
theorem phi_reports_its_mirror_image : ¬∀ (b : Board) (trig : Trigonometry) (s : Motors) (inputs : List Input),
    (∀ motor, (s.motorsRefs motor).motorState = .success) →
    Machine.Meets (mirrorStep b trig) (StepReadsBack b trig) s inputs := by
  intro h
  have hreads := h .pearl smallAngles (centered .pearl) [.command .phi (.absolute 50000)] fun _ => rfl
  have hreported := (hreads.1 (by decide +kernel)).2 50000 rfl
  exact absurd hreported (by decide +kernel)

end OrbFirmware.Mirror

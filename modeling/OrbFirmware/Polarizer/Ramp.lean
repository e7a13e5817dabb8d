import OrbFirmware.Polarizer.Thread
import OrbFirmware.SquareRoot

/-! The ramp's arithmetic: the loop is the integer square root, the frequency is the one over the integers where the
acceleration in microsteps fits its 32 bits, and the motor takes it. -/
namespace OrbFirmware.Polarizer
open SquareRoot

/-- `v² = v₀² + 2*a*s` over the integers, with the plateau. -/
def rampFrequency (stepsPerS2 minFreq maxFreq rampStep : Nat) : Nat :=
  min (minFreq*minFreq+2*(stepsPerS2*microstepsPerStep)*rampStep).sqrt maxFreq

/-- What the loop computes, once the guess is not below the root. -/
theorem newton_toNat (freqSq x y : UInt64) (hsize : freqSq.toNat+1 < 2^64) (hx : 0 < x.toNat)
    (hroot : freqSq.toNat.sqrt ≤ x.toNat) (hle : x.toNat ≤ freqSq.toNat) (hy : y.toNat = average freqSq.toNat x.toNat) :
    (newton freqSq x y).toNat = freqSq.toNat.sqrt := by
  induction x, y using newton.induct freqSq with
  | case1 x y hlt ih =>
    rw [newton, if_pos hlt]
    have hless := UInt64.lt_iff_toNat_lt.mp hlt
    have hpos : 0 < y.toNat := by
      rw [hy]
      exact average_pos (by omega) hx
    have hnext : ((y+freqSq/y)/2).toNat = average freqSq.toNat y.toNat := by
      have hsum := guess_add_div_le hpos (by omega : y.toNat ≤ freqSq.toNat)
      rw [UInt64.toNat_div, UInt64.toNat_add, UInt64.toNat_div, Nat.mod_eq_of_lt (by omega)]
      rfl
    refine ih hpos ?_ (by omega) hnext
    rw [hy]
    exact sqrt_le_average _ hx
  | case2 x y hnot =>
    rw [newton, if_neg hnot]
    refine eq_sqrt_of_le_average hroot hx ?_
    rw [← hy]
    exact UInt64.le_iff_toNat_le.mp (UInt64.not_lt.mp hnot)

theorem newton_sqrt {freqSq : UInt64} (hpos : 0 < freqSq.toNat) (hsize : freqSq.toNat+1 < 2^64) :
    (newton freqSq freqSq ((freqSq+1)/2)).toNat = freqSq.toNat.sqrt := by
  refine newton_toNat freqSq freqSq _ hsize hpos (Nat.sqrt_le_self _) (Nat.le_refl _) ?_
  rw [average, Nat.div_self hpos, UInt64.toNat_div, UInt64.toNat_add, UInt64.toNat_one, Nat.mod_eq_of_lt hsize]
  rfl

/-- With the acceleration as the code has it, in 32 bits. -/
theorem calculateLinearRampFrequency_toNat (w : Wheel) {rampStep minFreq maxFreq : UInt32} (hmin : 0 < minFreq.toNat)
    (hsmall : minFreq.toNat < 2^31) (hstep : rampStep.toNat < 2^24) :
    (calculateLinearRampFrequency w rampStep minFreq maxFreq).toNat =
      min (minFreq.toNat*minFreq.toNat+2*(linearAccelerationUstepsPerS2 w).toNat*rampStep.toNat).sqrt maxFreq.toNat := by
  have hacc := (linearAccelerationUstepsPerS2 w).toNat_lt
  have hsq : minFreq.toNat*minFreq.toNat ≤ 2^31*2^31 := Nat.mul_le_mul hsmall.le hsmall.le
  have hpos : 0 < minFreq.toNat*minFreq.toNat := Nat.mul_pos hmin hmin
  have hterm : 2*(linearAccelerationUstepsPerS2 w).toNat*rampStep.toNat ≤ 2*2^32*2^24 :=
    Nat.mul_le_mul (by omega) (by omega)
  have hfreqSq : (minFreq.toUInt64*minFreq.toUInt64+
      2*(linearAccelerationUstepsPerS2 w).toUInt64*rampStep.toUInt64).toNat =
        minFreq.toNat*minFreq.toNat+2*(linearAccelerationUstepsPerS2 w).toNat*rampStep.toNat := by
    simp only [UInt64.toNat_add, UInt64.toNat_mul, UInt32.toNat_toUInt64, UInt64.reduceToNat]
    rw [Nat.mod_eq_of_lt (by omega : minFreq.toNat*minFreq.toNat < 2^64),
      Nat.mod_eq_of_lt (by omega : 2*(linearAccelerationUstepsPerS2 w).toNat < 2^64),
      Nat.mod_eq_of_lt (by omega : 2*(linearAccelerationUstepsPerS2 w).toNat*rampStep.toNat < 2^64),
      Nat.mod_eq_of_lt (by omega)]
  have hroot := @newton_sqrt
    (minFreq.toUInt64*minFreq.toUInt64+2*(linearAccelerationUstepsPerS2 w).toUInt64*rampStep.toUInt64) (by omega) (by omega)
  have hmax := maxFreq.toNat_lt
  rw [hfreqSq] at hroot
  rw [calculateLinearRampFrequency, UInt64.toNat_toUInt32, UInt64.toNat_min, hroot, UInt32.toNat_toUInt64]
  exact Nat.mod_eq_of_lt (by omega)

/-! The bounds of the frequency. -/

/-- The settings that the calls leave. -/
def SpeedAccepted (w : Wheel) : Prop :=
  0 < w.maxSpeedMsPerTurn.toNat ∧ w.maxSpeedMsPerTurn ≤ spinAccelMinSpeedMsPerTurn

instance (w : Wheel) : Decidable (SpeedAccepted w) := inferInstanceAs (Decidable (_ ∧ _))

variable {w : Wheel} {rampStep : UInt32}

theorem polarizerWheelSetMaxSpeed_accepted {msPerTurn : UInt32} (h : msPerTurn ≤ spinAccelMinSpeedMsPerTurn) (w : Wheel) :
    SpeedAccepted (polarizerWheelSetMaxSpeed msPerTurn w) := by
  unfold SpeedAccepted polarizerWheelSetMaxSpeed
  dsimp only
  split_ifs with hzero
  · decide
  · refine ⟨Nat.pos_of_ne_zero fun h => hzero ?_, h⟩
    exact UInt32.toNat_inj.mp h

/-- A maximum that is accepted is not below the lowest speed of a ramp. -/
theorem getMaxFrequency_bounds (h : SpeedAccepted w) :
    192 ≤ (getMaxFrequency w).toNat ∧ (getMaxFrequency w).toNat ≤ 384000 := by
  obtain ⟨hpos, hle⟩ := h
  have hms : w.maxSpeedMsPerTurn.toNat ≤ 2000 := UInt32.le_iff_toNat_le.mp hle
  have hfreq : (getMaxFrequency w).toNat = 384000/w.maxSpeedMsPerTurn.toNat := UInt32.toNat_div _ _
  rw [hfreq]
  refine ⟨(Nat.le_div_iff_mul_le hpos).mpr (by omega), Nat.div_le_self _ _⟩

theorem linearAccelerationUstepsPerS2_toNat (w : Wheel) :
    (linearAccelerationUstepsPerS2 w).toNat = w.linearAccelerationStepsPerS2.toNat*microstepsPerStep%2^32 :=
  UInt32.toNat_mul _ _

/-- The frequency of a ramp step. -/
theorem calculateLinearRampFrequency_accelMinSpeed (w : Wheel) (hstep : rampStep.toNat < microsteps360Degrees) :
    (calculateLinearRampFrequency w rampStep spinPwmFrequencyAccelMinSpeed (getMaxFrequency w)).toNat =
      min (192*192+2*(linearAccelerationUstepsPerS2 w).toNat*rampStep.toNat).sqrt (getMaxFrequency w).toNat :=
  calculateLinearRampFrequency_toNat w (by decide) (by decide) (Nat.lt_trans hstep (by decide))

theorem rampFrequency_bounds (h : SpeedAccepted w) (hstep : rampStep.toNat < microsteps360Degrees) :
    let frequency := calculateLinearRampFrequency w rampStep spinPwmFrequencyAccelMinSpeed (getMaxFrequency w)
    192 ≤ frequency.toNat ∧ frequency.toNat ≤ (getMaxFrequency w).toNat := by
  obtain ⟨hmin, -⟩ := getMaxFrequency_bounds h
  have hroot : 192 ≤ (192*192+2*(linearAccelerationUstepsPerS2 w).toNat*rampStep.toNat).sqrt :=
    Nat.le_sqrt.mpr (Nat.le_add_right _ _)
  dsimp only
  rw [calculateLinearRampFrequency_accelMinSpeed w hstep]
  omega

theorem frequency_valid {frequency : UInt32} (hmin : 96 ≤ frequency.toNat)
    (hmax : frequency.toNat ≤ (getMaxFrequency w).toNat) :
    ¬(getMaxFrequency w < frequency ∨ frequency < spinPwmFrequencyMinimum) := by
  have hpwm : spinPwmFrequencyMinimum.toNat = 96 := rfl
  simp only [UInt32.lt_iff_toNat_lt, hpwm]
  omega

theorem polarizerSetFrequency_ok {frequency : UInt32} (hmin : 96 ≤ frequency.toNat)
    (hmax : frequency.toNat ≤ (getMaxFrequency w).toNat) :
    polarizerSetFrequency .ok frequency w = (true, { w with pwm := some frequency }) := by
  unfold polarizerSetFrequency
  rw [if_neg (frequency_valid hmin hmax)]
  rfl

theorem rampFrequency_accepted (h : SpeedAccepted w) (hstep : rampStep.toNat < microsteps360Degrees) :
    (polarizerSetFrequency .ok
      (calculateLinearRampFrequency w rampStep spinPwmFrequencyAccelMinSpeed (getMaxFrequency w)) w).1 = true := by
  obtain ⟨hmin, hmax⟩ := rampFrequency_bounds h hstep
  rw [polarizerSetFrequency_ok (by omega) hmax]

/-- Where the product has wrapped around, the frequencies are the same only at the beginning of the ramp and on the
plateau. -/
theorem min_sqrt_wrapped_iff {acc s maxFreq : Nat} (hmax : maxFreq < 2^32) :
    min (192*192+2*(acc%2^32)*s).sqrt maxFreq = min (192*192+2*acc*s).sqrt maxFreq ↔
      acc < 2^32 ∨ s = 0 ∨ maxFreq*maxFreq ≤ 192*192+2*(acc%2^32)*s := by
  have hle : 192*192+2*(acc%2^32)*s ≤ 192*192+2*acc*s :=
    Nat.add_le_add_left (Nat.mul_le_mul_right s (Nat.mul_le_mul_left 2 (Nat.mod_le _ _))) _
  constructor
  · intro heq
    by_contra hno
    obtain ⟨hlarge, hs, hbelow⟩ : 2^32 ≤ acc ∧ 0 < s ∧ (192*192+2*(acc%2^32)*s).sqrt < maxFreq := by
      rw [not_or, not_or] at hno
      exact ⟨Nat.not_lt.mp hno.1, Nat.pos_of_ne_zero hno.2.1, Nat.lt_of_not_le fun h => hno.2.2 (Nat.le_sqrt.mp h)⟩
    -- the product that is left out is larger than what two successive squares differ by
    have hleft : 2*(acc%2^32)*s+2*2^32*s ≤ 2*acc*s := by
      rw [← Nat.add_mul, ← Nat.mul_add]
      exact Nat.mul_le_mul_right s (Nat.mul_le_mul_left 2 (by omega))
    have hturn : 2*2^32 ≤ 2*2^32*s := Nat.le_mul_of_pos_right _ hs
    have hsquare := Nat.sqrt_le (192*192+2*(acc%2^32)*s)
    generalize (192*192+2*(acc%2^32)*s).sqrt = root at heq hbelow hsquare
    have hnext : root+1 ≤ (192*192+2*acc*s).sqrt := by
      refine Nat.le_sqrt.mpr ?_
      have hexpand : (root+1)*(root+1) = root*root+2*root+1 := by ring
      omega
    omega
  · rintro (hsmall | rfl | hplateau)
    · rw [Nat.mod_eq_of_lt hsmall]
    · rfl
    · have hroot := Nat.le_sqrt.mpr hplateau
      have hroot' := Nat.sqrt_le_sqrt hle
      omega

/-- The frequency is the one over the integers, and the motor takes it, exactly if the acceleration in microsteps fits
its 32 bits, or at the ends of the ramp, or where the plateau is reached all the same. -/
theorem ramp_arithmetic_iff (w : Wheel) (accelStepsPerS2 msPerTurn rampStep : UInt32)
    (hspeed : msPerTurn ≤ spinAccelMinSpeedMsPerTurn) (hstep : rampStep.toNat < microsteps360Degrees) :
    let w := polarizerWheelSetMaxSpeed msPerTurn (polarizerWheelSetAcceleration accelStepsPerS2 w)
    let acceleration := w.linearAccelerationStepsPerS2.toNat
    let maxFreq := getMaxFrequency w
    let frequency := calculateLinearRampFrequency w rampStep spinPwmFrequencyAccelMinSpeed maxFreq
    (frequency.toNat = rampFrequency acceleration spinPwmFrequencyAccelMinSpeed.toNat maxFreq.toNat rampStep.toNat ∧
        (polarizerSetFrequency .ok frequency w).1 = true) ↔
      acceleration*microstepsPerStep < 2^32 ∨ rampStep = 0 ∨
        maxFreq.toNat*maxFreq.toNat ≤
          192*192+2*(acceleration*microstepsPerStep%2^32)*rampStep.toNat := by
  intro w acceleration maxFreq frequency
  have haccepted : SpeedAccepted w := polarizerWheelSetMaxSpeed_accepted hspeed _
  have hzero : rampStep = 0 ↔ rampStep.toNat = 0 := UInt32.toNat_inj.symm
  rw [and_iff_left (rampFrequency_accepted haccepted hstep), hzero, ← min_sqrt_wrapped_iff maxFreq.toNat_lt,
    ← linearAccelerationUstepsPerS2_toNat w, calculateLinearRampFrequency_accelMinSpeed w hstep]
  rfl

/-- The default acceleration, at the highest speed. -/
theorem ramp_arithmetic_default :
    let w := polarizerWheelSetMaxSpeed 200 (polarizerWheelSetAcceleration 0 homedWheel)
    let acceleration := w.linearAccelerationStepsPerS2.toNat
    let maxFreq := getMaxFrequency w
    let frequency := calculateLinearRampFrequency w 64 spinPwmFrequencyAccelMinSpeed maxFreq
    (frequency.toNat = rampFrequency acceleration spinPwmFrequencyAccelMinSpeed.toNat maxFreq.toNat 64 ∧
        (polarizerSetFrequency .ok frequency w).1 = true) ↔
      acceleration*microstepsPerStep < 2^32 ∨ (64 : UInt32) = 0 ∨
        maxFreq.toNat*maxFreq.toNat ≤ 192*192+2*(acceleration*microstepsPerStep%2^32)*64 :=
  ramp_arithmetic_iff homedWheel 0 200 64 (by decide) (by decide)

/-- With 2^29 steps per second squared the product wraps around to zero: the ramp stays at its lowest frequency. -/
theorem ramp_acceleration_wraps :
    let w := polarizerWheelSetMaxSpeed 200 (polarizerWheelSetAcceleration 536870912 homedWheel)
    let frequency := calculateLinearRampFrequency w 64 spinPwmFrequencyAccelMinSpeed (getMaxFrequency w)
    frequency = spinPwmFrequencyAccelMinSpeed ∧
      frequency.toNat ≠ rampFrequency w.linearAccelerationStepsPerS2.toNat spinPwmFrequencyAccelMinSpeed.toNat
        (getMaxFrequency w).toNat 64 := by
  decide +kernel

end OrbFirmware.Polarizer

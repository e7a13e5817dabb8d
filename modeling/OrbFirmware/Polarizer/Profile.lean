import OrbFirmware.Polarizer.OpenLoop
import Mathlib.Order.Monotone.Basic

/-! The frequency in the course of a ramped move: the distance travelled is taken as the shorter way around the
circle, so the ramp is right for moves of up to half a turn. -/
namespace OrbFirmware.Polarizer
variable {total k : Nat}

/-- The highest ramp step that a move of this length counts in its second half turn. -/
def rampPeak (total : Nat) : Nat := min ((total-1)/2) (2*total-386)

/-- The distance that the code takes as travelled after `k` microsteps. -/
theorem traveled_eq (direction : Direction) {start : Int} (hstart : OnCircle start) (hk : k ≤ microsteps360Degrees) :
    (circularSignedDistance start (direction.advance k start)).natAbs = min k (microsteps360Degrees-k) := by
  obtain ⟨hnonneg, hlt⟩ := hstart
  simp only [circularSignedDistance, Direction.advance, microsteps360Degrees, stepsPerTurn, microstepsPerStep] at hlt hk ⊢
  cases direction <;> simp only [Direction.sign] <;> split_ifs <;> omega

/-- Up to half a turn it is `k`. -/
theorem calculateRampStep_short (hle : total ≤ 193) (hk : k < total) :
    calculateRampStep (min k (microsteps360Degrees-k)) total = calculateRampStep k total := by
  have hmin : min k (microsteps360Degrees-k) = k := by
    simp only [microsteps360Degrees, stepsPerTurn, microstepsPerStep]
    omega
  rw [hmin]

/-- Behind half a turn the step that is counted is too high, and not above the peak. -/
theorem calculateRampStep_long (hlong : 193 < total) (hle : total ≤ microsteps360Degrees) (hhalf : 193 ≤ k) (hk : k < total) :
    calculateRampStep k total = total-1-k ∧
      total-1-k < calculateRampStep (min k (microsteps360Degrees-k)) total ∧
      calculateRampStep (min k (microsteps360Degrees-k)) total ≤ rampPeak total := by
  have hturn : microsteps360Degrees = 384 := rfl
  have hmin : min k (microsteps360Degrees-k) = 384-k := by omega
  rw [hmin]
  simp only [calculateRampStep, rampPeak]
  refine ⟨?_, ?_, ?_⟩
  · split_ifs <;> omega
  · split_ifs <;> omega
  · split_ifs <;> omega

/-- Each step up to the peak lies between a step that is due and the one that is counted for it. -/
theorem exists_miscounted (hlong : 193 < total) (hle : total ≤ microsteps360Degrees) {j : Nat} (hpos : 0 < j)
    (hj : j ≤ rampPeak total) :
    ∃ k, 193 ≤ k ∧ k < total ∧ total-1-k < j ∧ j ≤ calculateRampStep (min k (microsteps360Degrees-k)) total := by
  have hturn : microsteps360Degrees = 384 := rfl
  have hstep : ∀ k, 193 ≤ k → k < total →
      calculateRampStep (min k (microsteps360Degrees-k)) total =
        if 384-k < total/2 then 384-k else total-(384-k)-1 := by
    intro k hhalf hk
    have hmin : min k (microsteps360Degrees-k) = 384-k := by omega
    rw [hmin, calculateRampStep, if_neg (by omega)]
  simp only [rampPeak] at hj
  by_cases hlow : j+total < 385
  · -- at the last step
    refine ⟨total-1, by omega, by omega, by omega, ?_⟩
    rw [hstep _ (by omega) (by omega)]
    split_ifs <;> omega
  · by_cases hhalf : j < total/2
    · refine ⟨384-j, by omega, by omega, by omega, ?_⟩
      rw [hstep _ (by omega) (by omega)]
      split_ifs <;> omega
    · refine ⟨385-total+j, by omega, by omega, by omega, ?_⟩
      rw [hstep _ (by omega) (by omega)]
      split_ifs <;> omega

/-- Behind half a turn the ramp is what it should be exactly if it is flat up to the peak. -/
theorem sameRamp_iff {f : Nat → Nat} (hf : Monotone f) (hle : total ≤ microsteps360Degrees) :
    (∀ k, 0 < k → k < total →
        f (calculateRampStep (min k (microsteps360Degrees-k)) total) = f (calculateRampStep k total)) ↔
      total ≤ 193 ∨ f (rampPeak total) = f 0 := by
  obtain hlong | hshort := Nat.lt_or_ge 193 total
  rotate_left
  · refine iff_of_true (fun k _ hk => ?_) (.inl hshort)
    rw [calculateRampStep_short hshort hk]
  · rw [or_iff_right (Nat.not_le.mpr hlong)]
    constructor
    · intro hsame
      have hflat : ∀ j, j ≤ rampPeak total → f j = f 0 := by
        intro j
        induction j using Nat.strongRecOn with
        | ind j ih =>
          intro hj
          obtain rfl | hpos := Nat.eq_zero_or_pos j
          · rfl
          · obtain ⟨k, hhalf, hk, hbelow, habove⟩ := exists_miscounted hlong hle hpos hj
            have heq := hsame k (by omega) hk
            rw [(calculateRampStep_long hlong hle hhalf hk).1, ih _ hbelow (by omega)] at heq
            exact Nat.le_antisymm (heq ▸ hf habove) (hf (Nat.zero_le j))
      exact hflat _ (Nat.le_refl _)
    · intro hflat k _ hk
      obtain hhalf | hhalf := Nat.lt_or_ge k 193
      · have hmin : min k (microsteps360Degrees-k) = k := by
          have hturn : microsteps360Degrees = 384 := rfl
          omega
        rw [hmin]
      · obtain ⟨hdue, hbelow, hpeak⟩ := calculateRampStep_long hlong hle hhalf hk
        have hlevel : ∀ j, j ≤ rampPeak total → f j = f 0 := fun j hj =>
          Nat.le_antisymm (hflat ▸ hf hj) (hf (Nat.zero_le j))
        rw [hdue, hlevel _ hpeak]
        exact (hlevel _ (by omega)).symm

/-- A move once around that is taken for one of no length keeps the lowest frequency. -/
theorem flatRamp_iff {f : Nat → Nat} (hf : Monotone f) :
    (∀ k, 0 < k → k < microsteps360Degrees → f 0 = f (calculateRampStep k microsteps360Degrees)) ↔
      f (rampPeak microsteps360Degrees) = f 0 := by
  have hpeak : rampPeak microsteps360Degrees = 191 := rfl
  constructor
  · intro hflat
    exact (hflat 191 (by decide) (by decide)).symm
  · intro hflat k _ hk
    have hturn : microsteps360Degrees = 384 := rfl
    have hstep : calculateRampStep k microsteps360Degrees ≤ 191 := by
      rw [calculateRampStep, if_neg (by omega)]
      split_ifs <;> omega
    rw [hpeak] at hflat
    exact Nat.le_antisymm (hf (Nat.zero_le _)) (hflat ▸ hf hstep)

/-! The frequencies of a move. -/

/-- What is asked of the frequencies after each microstep: those of the ramp, up in the first half, down in the second,
and the lowest one at the end. -/
structure RampProfile (applied : Nat → Option UInt32) (ramp : Nat → UInt32) (total : Nat) : Prop where
  ramp : ∀ k, 0 < k → k < total → applied k = some (ramp (calculateRampStep k total))
  rises : ∀ k f f', 0 < k → k < total/2 → applied k = some f → applied (k+1) = some f' → f ≤ f'
  falls : ∀ k f f', total/2 ≤ k → k+1 < total → applied k = some f → applied (k+1) = some f' → f' ≤ f
  last : 1 < total → applied (total-1) = some spinPwmFrequencyAccelMinSpeed

/-- The frequency for a ramp step. -/
def rampAt (w : Wheel) (rampStep : Nat) : UInt32 :=
  calculateLinearRampFrequency w (.ofNat rampStep) spinPwmFrequencyAccelMinSpeed (getMaxFrequency w)

variable {w : Wheel}

theorem ofNat_step {s : Nat} (hs : s < microsteps360Degrees) : (UInt32.ofNat s).toNat = s :=
  UInt32.toNat_ofNat_of_lt' (Nat.lt_trans hs (by decide))

theorem rampAt_toNat (w : Wheel) {s : Nat} (hs : s < microsteps360Degrees) :
    (rampAt w s).toNat =
      min (192*192+2*(linearAccelerationUstepsPerS2 w).toNat*s).sqrt (getMaxFrequency w).toNat := by
  have hstep := ofNat_step hs
  have hfrequency : (rampAt w s).toNat = _ := calculateLinearRampFrequency_accelMinSpeed w (by rw [hstep]; exact hs)
  rw [hfrequency, hstep]

theorem rampAt_accepted (hspeed : SpeedAccepted w) {s : Nat} (hs : s < microsteps360Degrees) :
    ¬(getMaxFrequency w < rampAt w s ∨ rampAt w s < spinPwmFrequencyMinimum) := by
  have hbounds : 192 ≤ (rampAt w s).toNat ∧ (rampAt w s).toNat ≤ _ :=
    rampFrequency_bounds hspeed (by rw [ofNat_step hs]; exact hs)
  exact frequency_valid (by omega) hbounds.2

theorem rampAt_mono (w : Wheel) {s s' : Nat} (h : s ≤ s') (hs : s' < microsteps360Degrees) : rampAt w s ≤ rampAt w s' := by
  have hroot : (192*192+2*(linearAccelerationUstepsPerS2 w).toNat*s).sqrt ≤
      (192*192+2*(linearAccelerationUstepsPerS2 w).toNat*s').sqrt :=
    Nat.sqrt_le_sqrt (Nat.add_le_add_left (Nat.mul_le_mul_left _ h) _)
  rw [UInt32.le_iff_toNat_le, rampAt_toNat w (Nat.lt_of_le_of_lt h hs), rampAt_toNat w hs]
  omega

theorem rampAt_zero (hspeed : SpeedAccepted w) : rampAt w 0 = spinPwmFrequencyAccelMinSpeed := by
  obtain ⟨hmin, -⟩ := getMaxFrequency_bounds hspeed
  have hroot : (192*192 : Nat).sqrt = 192 := Nat.sqrt_eq 192
  rw [← UInt32.toNat_inj, rampAt_toNat w (by decide), Nat.mul_zero, Nat.add_zero, hroot, Nat.min_eq_left hmin]
  rfl

theorem calculateRampStep_lt (hle : total ≤ microsteps360Degrees) (k : Nat) :
    calculateRampStep k total < microsteps360Degrees := by
  have hturn : microsteps360Degrees = 384 := rfl
  simp only [calculateRampStep]
  split_ifs <;> omega

/-- The ramp's frequencies after each microstep are all that is asked. -/
theorem rampProfile_iff (hspeed : SpeedAccepted w) (hle : total ≤ microsteps360Degrees) {applied : Nat → Option UInt32} :
    RampProfile applied (rampAt w) total ↔
      ∀ k, 0 < k → k < total → applied k = some (rampAt w (calculateRampStep k total)) := by
  refine ⟨RampProfile.ramp, fun hramp => ⟨hramp, ?_, ?_, ?_⟩⟩
  · intro k f f' hpos hk hf hf'
    rw [hramp k hpos (by omega)] at hf
    rw [hramp (k+1) (by omega) (by omega)] at hf'
    cases hf
    cases hf'
    refine rampAt_mono w ?_ (calculateRampStep_lt hle _)
    simp only [calculateRampStep]
    split_ifs <;> omega
  · intro k f f' hhalf hk hf hf'
    rw [hramp k (by omega) (by omega)] at hf
    rw [hramp (k+1) (by omega) hk] at hf'
    cases hf
    cases hf'
    refine rampAt_mono w ?_ (calculateRampStep_lt hle _)
    simp only [calculateRampStep]
    split_ifs <;> omega
  · intro hlong
    have hend : calculateRampStep (total-1) total = 0 := by
      simp only [calculateRampStep]
      split_ifs <;> omega
    rw [hramp (total-1) (by omega) (by omega), hend, rampAt_zero hspeed]

/-- The ramp does not leave its lowest frequency up to a step. -/
theorem rampAt_eq_zero_iff (hspeed : SpeedAccepted w) {s : Nat} (hs : s < microsteps360Degrees) :
    rampAt w s = rampAt w 0 ↔
      (getMaxFrequency w).toNat = 192 ∨ 2*(linearAccelerationUstepsPerS2 w).toNat*s < 385 := by
  obtain ⟨hmin, -⟩ := getMaxFrequency_bounds hspeed
  have hlow : (spinPwmFrequencyAccelMinSpeed).toNat = 192 := rfl
  have hroot : 192 ≤ (192*192+2*(linearAccelerationUstepsPerS2 w).toNat*s).sqrt := Nat.le_sqrt.mpr (Nat.le_add_right _ _)
  have hnext : (192*192+2*(linearAccelerationUstepsPerS2 w).toNat*s).sqrt < 193 ↔
      2*(linearAccelerationUstepsPerS2 w).toNat*s < 385 := by
    rw [Nat.sqrt_lt]
    omega
  rw [rampAt_zero hspeed, ← UInt32.toNat_inj, rampAt_toNat w hs, hlow, ← hnext]
  omega

variable {b : Bumps} {start : Int} {direction : Direction}

theorem chooseDirection_length {current target : Int} {shortestPath : Bool} (hcurrent : OnCircle current)
    (htarget : OnCircle target) :
    (chooseDirection current target shortestPath).2.natAbs =
      if shortestPath ∧ current = target then 0
      else moveLength (chooseDirection current target shortestPath).1 current target := by
  obtain ⟨hnonneg, hlt⟩ := hcurrent
  obtain ⟨hnonneg', hlt'⟩ := htarget
  have hturn : (microsteps360Degrees : Int) = 384 := rfl
  have hlength : microsteps360Degrees = 384 := rfl
  rw [hturn] at hlt hlt'
  cases shortestPath with
  | false =>
    simp only [chooseDirection, Bool.false_eq_true, false_and, if_false, moveLength, Direction.distance, Direction.sign,
      hlength]
    split_ifs <;> omega
  | true =>
    simp only [chooseDirection, circularSignedDistance, if_true, true_and, moveLength, hlength]
    by_cases hsame : current = target
    · simp [hsame]
    · rw [if_neg hsame, if_neg hsame]
      split_ifs <;> simp only [Direction.distance, Direction.sign, hturn] <;> omega

/-- Every frequency on the way is the one that the code's distance gives. -/
theorem frequencyAfter_ramp {moved : Wheel} (hactive : moved.accelerationActive = true)
    (hmin : moved.minFrequency = spinPwmFrequencyAccelMinSpeed) (hspeed : SpeedAccepted moved)
    (htotal : moved.totalDistance ≤ microsteps360Degrees) (hstart : OnCircle moved.startPosition) (frequency : UInt32)
    (hpos : 0 < k) (hk : k ≤ microsteps360Degrees) :
    frequencyAfter moved moved.startPosition frequency k =
      rampAt moved (calculateRampStep (min k (microsteps360Degrees-k)) moved.totalDistance) := by
  obtain ⟨n, rfl⟩ : ∃ n, k = n+1 := Nat.exists_eq_succ_of_ne_zero hpos.ne'
  have hvalid := rampAt_accepted hspeed
    (calculateRampStep_lt htotal (min (n+1) (microsteps360Degrees-(n+1))))
  rw [frequencyAfter, nextFrequency, if_pos hactive, traveled_eq _ hstart hk, hmin]
  exact if_neg hvalid

/-- The ramp of a half turn and more, as numbers. -/
theorem rampAt_eq_iff (w : Wheel) {s s' : Nat} (hs : s < microsteps360Degrees) (hs' : s' < microsteps360Degrees) :
    rampAt w s = rampAt w s' ↔
      min (192*192+2*(linearAccelerationUstepsPerS2 w).toNat*s).sqrt (getMaxFrequency w).toNat =
        min (192*192+2*(linearAccelerationUstepsPerS2 w).toNat*s').sqrt (getMaxFrequency w).toNat := by
  rw [← UInt32.toNat_inj, rampAt_toNat w hs, rampAt_toNat w hs']

/-- The frequencies that the code's distance gives are those of the ramp. -/
theorem codeRamp_iff (hspeed : SpeedAccepted w) (hle : total ≤ microsteps360Degrees) {recorded : Nat}
    (hrecorded : recorded = total ∨ recorded = 0 ∧ total = microsteps360Degrees) :
    (∀ k, 0 < k → k < total → rampAt w (calculateRampStep (min k (microsteps360Degrees-k)) recorded) =
        rampAt w (calculateRampStep k total)) ↔
      total ≤ 193 ∨ (getMaxFrequency w).toNat = 192 ∨
        2*(linearAccelerationUstepsPerS2 w).toNat*rampPeak total < 385 := by
  have hturn : microsteps360Degrees = 384 := rfl
  have hpeak : rampPeak total < microsteps360Degrees := by
    rw [rampPeak]
    omega
  have hmono : Monotone fun s =>
      min (192*192+2*(linearAccelerationUstepsPerS2 w).toNat*s).sqrt (getMaxFrequency w).toNat := fun s s' h =>
    min_le_min_right _ (Nat.sqrt_le_sqrt (Nat.add_le_add_left (Nat.mul_le_mul_left _ h) _))
  rw [← rampAt_eq_zero_iff hspeed hpeak, rampAt_eq_iff w hpeak (by decide)]
  obtain rfl | ⟨rfl, rfl⟩ := hrecorded
  · rw [← sameRamp_iff hmono hle]
    refine forall_congr' fun k => imp_congr_right fun _ => imp_congr_right fun _ => ?_
    exact rampAt_eq_iff w (calculateRampStep_lt hle _) (calculateRampStep_lt hle _)
  · rw [or_iff_right (by decide), ← flatRamp_iff hmono]
    refine forall_congr' fun k => imp_congr_right fun _ => imp_congr_right fun _ => ?_
    exact rampAt_eq_iff w (calculateRampStep_lt (by decide) _) (calculateRampStep_lt hle _)

/-- The frequencies of a ramped move are those of the ramp exactly if the move is not longer than 193 microsteps, or the
ramp stays at its lowest frequency up to its peak. -/
theorem ramp_profile_iff (b : Bumps) {w : Wheel} (angleDecidegrees : UInt32) (shortestPath : Bool) (hidle : w.state = .idle)
    (hcurrent : OnCircle w.current) (hstepSem : w.stepSem = false) (hspeed : SpeedAccepted w)
    (hgo : ¬AlreadyThere w angleDecidegrees) :
    let target := targetStepOf angleDecidegrees
    let r : Rig := ⟨(executeSetAngle .ok 0 angleDecidegrees shortestPath w).2, w.current⟩
    let total := moveLength (chooseDirection w.current target shortestPath).1 w.current target
    Travels b r total target ∧
      (RampProfile (fun k => ((pulse b)^[k] r).wheel.pwm) (rampAt w) total ↔
        total ≤ 193 ∨ (getMaxFrequency w).toNat = 192 ∨
          2*(linearAccelerationUstepsPerS2 w).toNat*rampPeak total < 385) := by
  intro target r total
  have htargetCircle : OnCircle target := targetStepOf_onCircle angleDecidegrees
  obtain ⟨hopen, hrolling, htarget, hdirection⟩ := @openLoop_started w 0 angleDecidegrees shortestPath hidle hcurrent
    hstepSem hspeed (.inl rfl) hgo (.inr rfl)
  have htravels := hrolling.travels (b := b) hopen hcurrent
  rw [htarget, hdirection] at htravels
  refine ⟨htravels, ?_⟩
  have hle : total ≤ microsteps360Degrees := by
    simp only [total, moveLength]
    split_ifs
    · exact Nat.le_refl _
    · exact (distance_lt _ _ _).le
  let moved := r.wheel
  have hmoved : moved = _ := executeSetAngle_openLoop hidle hcurrent hspeed (.inl rfl) hgo (.inr rfl)
  have hramp : moved.accelerationActive = true ∧ moved.minFrequency = spinPwmFrequencyAccelMinSpeed ∧
      moved.startPosition = w.current ∧ moved.maxSpeedMsPerTurn = w.maxSpeedMsPerTurn ∧
      moved.totalDistance = (chooseDirection w.current target shortestPath).2.natAbs ∧ rampAt moved = rampAt w := by
    rw [hmoved]
    exact ⟨rfl, rfl, rfl, rfl, rfl, rfl⟩
  obtain ⟨hactive, hmin, hstart, hsame, hrecorded, hrampAt⟩ := hramp
  rw [chooseDirection_length hcurrent htargetCircle] at hrecorded
  have hdistance : moved.totalDistance = total ∨ moved.totalDistance = 0 ∧ total = microsteps360Degrees := by
    split_ifs at hrecorded with hround
    · exact .inr ⟨hrecorded, if_pos hround.2⟩
    · exact .inl hrecorded
  have happlied : ∀ k, 0 < k → k < total → ((pulse b)^[k] r).wheel.pwm =
      some (rampAt w (calculateRampStep (min k (microsteps360Degrees-k)) moved.totalDistance)) := by
    intro k hpos hk
    obtain ⟨seen, heq⟩ := hrolling.pulses (b := b) (n := k) hopen hcurrent (by rw [htarget, hdirection]; exact hk)
    have hfrequency := frequencyAfter_ramp hactive hmin (by rw [SpeedAccepted, hsame]; exact hspeed) (by omega)
      (by rw [hstart]; exact hcurrent) (initialFrequency 0) hpos (by omega)
    rw [heq, ← hrampAt, ← hfrequency, hstart]
  rw [rampProfile_iff hspeed hle, ← codeRamp_iff hspeed hle hdistance]
  refine forall_congr' fun k => forall_congr' fun hpos => forall_congr' fun hk => ?_
  rw [happlied k hpos hk, Option.some.injEq]

/-- A quarter of a turn. -/
theorem ramp_profile_quarter :
    let r : Rig := ⟨(executeSetAngle .ok 0 900 true homedWheel).2, 0⟩
    let total := moveLength (chooseDirection 0 (targetStepOf 900) true).1 0 (targetStepOf 900)
    Travels someBumps r total (targetStepOf 900) ∧
      (RampProfile (fun k => ((pulse someBumps)^[k] r).wheel.pwm) (rampAt homedWheel) total ↔
        total ≤ 193 ∨ (getMaxFrequency homedWheel).toNat = 192 ∨
          2*(linearAccelerationUstepsPerS2 homedWheel).toNat*rampPeak total < 385) :=
  ramp_profile_iff someBumps 900 true rfl (by decide) rfl (by decide) (by decide)

/-- Three quarters of a turn: at its last step the frequency is still the highest one. -/
theorem ramp_profile_long :
    ¬RampProfile (fun k => ((pulse someBumps)^[k] ⟨(executeSetAngle .ok 0 2700 false homedWheel).2, 0⟩).wheel.pwm)
      (rampAt homedWheel) 288 := by
  intro h
  exact absurd (h.ramp 287 (by decide) (by decide)) (by decide +kernel)

end OrbFirmware.Polarizer

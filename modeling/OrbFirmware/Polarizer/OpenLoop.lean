import OrbFirmware.Polarizer.Move
import OrbFirmware.Polarizer.Ramp
import OrbFirmware.Polarizer.Stop

/-! Moves without the encoder, with every step event processed before the next step: a microstep a pulse, up to the
target. -/
namespace OrbFirmware.Polarizer

/-- What a move without the encoder leaves as it is. -/
structure OpenLoop (w : Wheel) : Prop where
  state : w.state = .positioning
  stepInterrupt : w.stepInterrupt = true
  stepSem : w.stepSem = false
  target : OnCircle w.target

/-- The frequency that a step event at a position sets. -/
def nextFrequency (w : Wheel) (frequency : UInt32) (position : Int) : UInt32 :=
  if w.accelerationActive then
    let rampStep := calculateRampStep (circularSignedDistance w.startPosition position).natAbs w.totalDistance
    let newFreq := calculateLinearRampFrequency w (.ofNat rampStep) w.minFrequency (getMaxFrequency w)
    if getMaxFrequency w < newFreq ∨ newFreq < spinPwmFrequencyMinimum then frequency else newFreq
  else frequency

/-- The move under way, with the counter at the wheel's position. -/
def Rolling (w : Wheel) (position : Int) (frequency : UInt32) (r : Rig) : Prop :=
  ∃ seen, r = ⟨{ w with current := position, pwm := some frequency, encoderSem := seen }, position⟩

/-- The motor turns in one direction for as many microsteps as said and is halted at the target. -/
structure Travels (b : Bumps) (r : Rig) (total : Nat) (target : Int) : Prop where
  way : ∀ k, k ≤ total → ((pulse b)^[k] r).position = r.wheel.direction.advance k r.position
  turning : ∀ k, k < total → ((pulse b)^[k] r).wheel.pwm ≠ none
  halted : ((pulse b)^[total] r).wheel.pwm = none
  target : ((pulse b)^[total] r).position = target

variable {b : Bumps} {w : Wheel} {position : Int} {frequency : UInt32} {r : Rig}

/-! One pulse. -/

theorem processStepEvent_frequency {currentPos : Int} (hne : w.target ≠ currentPos) (hpwm : w.pwm = some frequency) :
    (processStepEvent .ok currentPos w).2 = { w with pwm := some (nextFrequency w frequency currentPos) } := by
  have hsame : w = { w with pwm := some frequency } := by rw [← hpwm]
  rw [processStepEvent, if_neg hne, nextFrequency]
  by_cases hactive : w.accelerationActive = true
  · rw [if_pos hactive, if_pos hactive]
    dsimp only
    generalize calculateLinearRampFrequency w _ w.minFrequency (getMaxFrequency w) = newFreq
    by_cases hbounds : getMaxFrequency w < newFreq ∨ newFreq < spinPwmFrequencyMinimum
    · rw [polarizerSetFrequency, if_pos hbounds, if_pos hbounds]
      exact hsame
    · rw [polarizerSetFrequency, if_neg hbounds, if_neg hbounds]
      rfl
  · rw [if_neg hactive, if_neg hactive]
    exact hsame

theorem takeStepEvent_positioning {d : Drivers} {currentPos : Int} (h : w.state = .positioning) :
    takeStepEvent d currentPos w = processStepEvent d currentPos { w with stepSem := false } := by
  simp only [takeStepEvent, h]

theorem takeEncoderEvent_positioning {currentPosition : Int} (h : w.state = .positioning) :
    takeEncoderEvent currentPosition w = { w with encoderSem := false } := by
  simp only [takeEncoderEvent, h]

/-- The thread, after the interrupts of a pulse. -/
theorem handleEvents_rolling (hstate : w.state = .positioning) (hstep : w.stepSem = true) (hne : w.target ≠ w.current)
    (hpwm : w.pwm = some frequency) :
    handleEvents w =
      { w with pwm := some (nextFrequency w frequency w.current), stepSem := false, encoderSem := false } := by
  have hprocessed : (takeStepEvent .ok w.current w).2 =
      { w with pwm := some (nextFrequency w frequency w.current), stepSem := false } := by
    rw [takeStepEvent_positioning hstate]
    exact processStepEvent_frequency (w := { w with stepSem := false }) hne hpwm
  unfold handleEvents
  rw [if_pos hstep]
  dsimp only
  rw [hprocessed]
  cases hencoder : w.encoderSem with
  | false => simp
  | true => exact takeEncoderEvent_positioning hstate

theorem handleEvents_arrived (hstate : w.state = .positioning) (hstep : w.stepSem = true) (htarget : w.target = w.current) :
    (handleEvents w).pwm = none := by
  have hprocessed : (takeStepEvent .ok w.current w).2.pwm = none := by
    rw [takeStepEvent_positioning hstate]
    exact (processStepEvent_reached (w := { w with stepSem := false }) htarget.symm).1
  unfold handleEvents
  rw [if_pos hstep]
  dsimp only
  split_ifs
  · rw [(takeEncoderEvent_halted _ _).1, hprocessed]
  · exact hprocessed

/-- The interrupts of a pulse. -/
theorem pulse_rolling (h : OpenLoop w) (hposition : OnCircle position) (hr : Rolling w position frequency r) :
    ∃ seen, pulse b r =
      ⟨handleEvents { w with
          current := w.direction.advance 1 position, pwm := some frequency, stepSem := true, encoderSem := seen },
        w.direction.advance 1 position⟩ := by
  obtain ⟨seen, rfl⟩ := hr
  let rolling : Wheel := { w with current := position, pwm := some frequency, encoderSem := seen }
  have hcounted : stepIsr rolling = { rolling with current := w.direction.advance 1 position, stepSem := true } := by
    rw [← stepIsr_current (w := rolling) hposition]
    rfl
  have hcallback : encoderCallback true (stepIsr rolling) = { stepIsr rolling with encoderSem := true } := by
    simp only [encoderCallback, show (stepIsr rolling).state = .positioning from h.state, if_true]
  have hpulse : pulse b ⟨rolling, position⟩ =
      ⟨handleEvents
          (if (stepIsr rolling).encoderInterrupt ∧ b.rises w.direction (w.direction.advance 1 position) then
            encoderCallback true (stepIsr rolling)
          else stepIsr rolling),
        w.direction.advance 1 position⟩ := by
    simp only [pulse, rolling, h.stepInterrupt, if_true]
  split_ifs at hpulse
  · exact ⟨true, by rw [hpulse, hcallback, hcounted]⟩
  · exact ⟨seen, by rw [hpulse, hcounted]⟩

theorem Rolling.pulse (h : OpenLoop w) (hposition : OnCircle position) (hr : Rolling w position frequency r)
    (hne : w.direction.advance 1 position ≠ w.target) :
    Rolling w (w.direction.advance 1 position) (nextFrequency w frequency (w.direction.advance 1 position))
      (pulse b r) := by
  obtain ⟨seen, heq⟩ := pulse_rolling (b := b) h hposition hr
  let interrupted : Wheel :=
    { w with
      current := w.direction.advance 1 position, pwm := some frequency, stepSem := true, encoderSem := seen }
  have hhandled : handleEvents interrupted = _ := handleEvents_rolling h.state rfl hne.symm rfl
  refine ⟨false, ?_⟩
  rw [heq, hhandled, ← h.stepSem]
  rfl

theorem Rolling.pulse_halts (h : OpenLoop w) (hposition : OnCircle position) (hr : Rolling w position frequency r)
    (htarget : w.direction.advance 1 position = w.target) :
    (OrbFirmware.Polarizer.pulse b r).wheel.pwm = none ∧ (OrbFirmware.Polarizer.pulse b r).position = w.target := by
  obtain ⟨seen, heq⟩ := pulse_rolling (b := b) h hposition hr
  rw [heq]
  exact ⟨handleEvents_arrived h.state rfl htarget.symm, htarget⟩

/-! The way to the target. -/

/-- How far a move goes in a direction: once around if it ends where it begins. -/
def moveLength (direction : Direction) (start target : Int) : Nat :=
  if start = target then microsteps360Degrees else direction.distance start target

/-- The frequency after `n` pulses. -/
def frequencyAfter (w : Wheel) (start : Int) (frequency : UInt32) : Nat → UInt32
  | 0 => frequency
  | n + 1 => nextFrequency w (frequencyAfter w start frequency n) (w.direction.advance (n+1) start)

theorem moveLength_pos (direction : Direction) {start target : Int} (hstart : OnCircle start) (htarget : OnCircle target) :
    0 < moveLength direction start target := by
  rw [moveLength]
  split_ifs with hsame
  · decide
  · refine Nat.pos_of_ne_zero fun hzero => hsame ?_
    rw [← advance_zero direction hstart]
    exact (advance_eq_iff htarget (by decide)).mpr hzero.symm

theorem advance_turn (direction : Direction) {start : Int} (hstart : OnCircle start) :
    direction.advance microsteps360Degrees start = start := by
  rw [Direction.advance, Int.add_mul_emod_self_right]
  exact Int.emod_eq_of_lt hstart.1 hstart.2

/-- The target is met at the end of the move and not before. -/
theorem advance_eq_target_iff (direction : Direction) {start target : Int} (hstart : OnCircle start)
    (htarget : OnCircle target) {n : Nat} (hpos : 0 < n) (hle : n ≤ moveLength direction start target) :
    direction.advance n start = target ↔ n = moveLength direction start target := by
  rw [moveLength] at hle ⊢
  split_ifs at hle ⊢ with hsame
  · subst hsame
    obtain hlt | rfl := Nat.lt_or_eq_of_le hle
    · have hzero : 0 = direction.distance start start :=
        (advance_eq_iff hstart (by decide)).mp (advance_zero direction hstart)
      rw [advance_eq_iff hstart hlt, ← hzero]
      omega
    · exact iff_of_true (advance_turn direction hstart) rfl
  · exact advance_eq_iff htarget (Nat.lt_of_le_of_lt hle (distance_lt direction start target))

theorem Rolling.pulses (h : OpenLoop w) {start : Int} (hstart : OnCircle start) (hr : Rolling w start frequency r) {n : Nat}
    (hn : n < moveLength w.direction start w.target) :
    Rolling w (w.direction.advance n start) (frequencyAfter w start frequency n) ((OrbFirmware.Polarizer.pulse b)^[n] r) := by
  induction n with
  | zero =>
    rw [advance_zero _ hstart]
    exact hr
  | succ n ih =>
    have hrolled := ih (Nat.lt_of_succ_lt hn)
    have hne : w.direction.advance 1 (w.direction.advance n start) ≠ w.target := by
      rw [advance_advance]
      exact fun heq => absurd ((advance_eq_target_iff _ hstart h.target (Nat.succ_pos n) hn.le).mp heq) hn.ne
    have hnext := hrolled.pulse (b := b) h (advance_onCircle _ _ _) hne
    rw [advance_advance] at hnext
    rw [Function.iterate_succ_apply']
    exact hnext

/-- A move without the encoder goes all its length. -/
theorem Rolling.travels (h : OpenLoop w) {start : Int} (hstart : OnCircle start) (hr : Rolling w start frequency r) :
    Travels b r (moveLength w.direction start w.target) w.target := by
  obtain ⟨n, hn⟩ := Nat.exists_eq_succ_of_ne_zero (moveLength_pos w.direction hstart h.target).ne'
  have hrolled := fun k (hk : k ≤ n) => hr.pulses (b := b) h hstart (n := k) (by omega)
  have hdest : w.direction.advance 1 (w.direction.advance n start) = w.target := by
    rw [advance_advance]
    exact (advance_eq_target_iff _ hstart h.target (Nat.succ_pos n) hn.ge).mpr hn.symm
  obtain ⟨hhalted, htarget⟩ := (hrolled n (Nat.le_refl n)).pulse_halts (b := b) h (advance_onCircle _ _ _) hdest
  rw [← Function.iterate_succ_apply' (OrbFirmware.Polarizer.pulse b)] at hhalted htarget
  have hfrom : r.wheel.direction = w.direction ∧ r.position = start := by
    obtain ⟨seen, rfl⟩ := hr
    exact ⟨rfl, rfl⟩
  rw [hn]
  refine ⟨fun k hk => ?_, fun k hk => ?_, hhalted, htarget⟩
  · rw [hfrom.1, hfrom.2]
    obtain hk | rfl := Nat.lt_or_eq_of_le hk
    · obtain ⟨seen, heq⟩ := hrolled k (by omega)
      rw [heq]
    · rw [htarget, ← hdest, advance_advance]
  · obtain ⟨seen, heq⟩ := hrolled k (by omega)
    rw [heq]
    exact Option.some_ne_none _

/-! The beginning of a move. -/

variable {angleDecidegrees : UInt32} {shortestPath : Bool}

/-- The frequency at which a move begins. -/
def initialFrequency (frequency : UInt32) : UInt32 := if frequency = 0 then spinPwmFrequencyAccelMinSpeed else frequency

/-- The call takes the frequency. -/
def FrequencyAccepted (w : Wheel) (frequency : UInt32) : Prop :=
  frequency = 0 ∨ spinPwmFrequencyMinimum ≤ frequency ∧ frequency ≤ getMaxFrequency w

instance (w : Wheel) (frequency : UInt32) : Decidable (FrequencyAccepted w frequency) := inferInstanceAs (Decidable (_ ∨ _))

/-- The counter is where the angle is, and that is a standard position: there is nothing to do. -/
def AlreadyThere (w : Wheel) (angleDecidegrees : UInt32) : Prop :=
  angleToPosition angleDecidegrees ≠ .unknown ∧ w.current = targetStepOf angleDecidegrees

instance (w : Wheel) (angleDecidegrees : UInt32) : Decidable (AlreadyThere w angleDecidegrees) :=
  inferInstanceAs (Decidable (_ ∧ _))

theorem getCurrentPosition_targetStepOf (hangle : angleToPosition angleDecidegrees ≠ .unknown) :
    getCurrentPosition (targetStepOf angleDecidegrees) = angleToPosition angleDecidegrees := by
  have htarget := targetStepOf_at hangle
  cases hposition : angleToPosition angleDecidegrees with
  | unknown => exact absurd hposition hangle
  | passThrough =>
    rw [hposition] at htarget
    rw [htarget]
    decide
  | vertical =>
    rw [hposition] at htarget
    rw [htarget]
    decide
  | horizontal =>
    rw [hposition] at htarget
    rw [htarget]
    decide

theorem alreadyThere_iff (hcurrent : OnCircle w.current) :
    ((recordMove angleDecidegrees w).previousPosition = (recordMove angleDecidegrees w).targetPosition ∧
      (recordMove angleDecidegrees w).previousPosition ≠ .unknown) ↔ AlreadyThere w angleDecidegrees := by
  constructor
  · rintro ⟨hsame, hknown⟩
    have hangle : angleToPosition angleDecidegrees ≠ .unknown := fun h => hknown (hsame.trans h)
    refine ⟨hangle, ?_⟩
    by_contra hne
    exact getCurrentPosition_ne hangle hcurrent hne hsame
  · rintro ⟨hangle, hsame⟩
    have hposition : getCurrentPosition w.current = angleToPosition angleDecidegrees := by
      rw [hsame]
      exact getCurrentPosition_targetStepOf hangle
    refine ⟨hposition, fun hunknown => hangle (hposition.symm.trans hunknown)⟩

theorem executeSetAngle_there (hidle : w.state = .idle) (hcurrent : OnCircle w.current)
    (h : AlreadyThere w angleDecidegrees) :
    (executeSetAngle .ok frequency angleDecidegrees shortestPath w).2 = recordMove angleDecidegrees w := by
  rw [executeSetAngle, if_neg (not_not.mpr hidle)]
  exact congrArg Prod.snd (if_pos ((alreadyThere_iff hcurrent).mpr h))

theorem polarizerRotate_ok (hspeed : SpeedAccepted w) (hfrequency : FrequencyAccepted w frequency) :
    polarizerRotate .ok (initialFrequency frequency) w =
      (true, { w with stepInterrupt := true, pwm := some (initialFrequency frequency) }) := by
  obtain ⟨hlow, -⟩ := getMaxFrequency_bounds hspeed
  obtain ⟨hmin, hmax⟩ : 96 ≤ (initialFrequency frequency).toNat ∧
      (initialFrequency frequency).toNat ≤ (getMaxFrequency w).toNat := by
    obtain rfl | ⟨hmin, hmax⟩ := hfrequency
    · exact ⟨by decide, hlow⟩
    · have hne : frequency ≠ 0 := by
        rintro rfl
        exact absurd hmin (by decide)
      rw [initialFrequency, if_neg hne]
      exact ⟨UInt32.le_iff_toNat_le.mp hmin, UInt32.le_iff_toNat_le.mp hmax⟩
  have hset : polarizerSetFrequency .ok (initialFrequency frequency) { w with stepInterrupt := true } = _ :=
    polarizerSetFrequency_ok hmin hmax
  exact hset

theorem chooseSpeed_speed (frequency : UInt32) (signedDist : Int) (w : Wheel) :
    getMaxFrequency (chooseSpeed frequency signedDist w) = getMaxFrequency w ∧
      (if frequency = 0 then (chooseSpeed frequency signedDist w).minFrequency else frequency) =
        initialFrequency frequency := by
  unfold chooseSpeed initialFrequency
  split_ifs <;> exact ⟨rfl, rfl⟩

theorem startMoving_ok {useEncoder : Bool} {signedDist : Int} (hspeed : SpeedAccepted w)
    (hfrequency : FrequencyAccepted w frequency) (target : Int) :
    startMoving .ok useEncoder frequency { chooseSpeed frequency signedDist w with target } =
      { chooseSpeed frequency signedDist w with
        target
        stepInterrupt := true
        pwm := some (initialFrequency frequency)
        state := if useEncoder then .positioningWithEncoder else .positioning } := by
  obtain ⟨hmax, hinitial⟩ := chooseSpeed_speed frequency signedDist w
  let chosen : Wheel := { chooseSpeed frequency signedDist w with target }
  have hchosen : SpeedAccepted chosen := by
    have hsame : chosen.maxSpeedMsPerTurn = w.maxSpeedMsPerTurn := by
      simp only [chosen, chooseSpeed]
      split_ifs <;> rfl
    unfold SpeedAccepted
    rw [hsame]
    exact hspeed
  have haccepted : FrequencyAccepted chosen frequency := by
    unfold FrequencyAccepted
    rw [show getMaxFrequency chosen = getMaxFrequency w from hmax]
    exact hfrequency
  have hrotated := polarizerRotate_ok hchosen haccepted
  unfold startMoving
  rw [show (if frequency = 0 then chosen.minFrequency else frequency) = initialFrequency frequency from hinitial, hrotated]
  rfl

/-- A move that begins without the encoder. -/
theorem executeSetAngle_openLoop (hidle : w.state = .idle) (hcurrent : OnCircle w.current) (hspeed : SpeedAccepted w)
    (hfrequency : FrequencyAccepted w frequency) (hgo : ¬AlreadyThere w angleDecidegrees)
    (hopen : angleToPosition angleDecidegrees = .unknown ∨ frequency = 0) :
    (executeSetAngle .ok frequency angleDecidegrees shortestPath w).2 =
      { chooseSpeed frequency (chooseDirection w.current (targetStepOf angleDecidegrees) shortestPath).2
          { recordMove angleDecidegrees w with
            direction := (chooseDirection w.current (targetStepOf angleDecidegrees) shortestPath).1 } with
        target := targetStepOf angleDecidegrees
        stepInterrupt := true
        pwm := some (initialFrequency frequency)
        state := .positioning } := by
  have hno : ¬(angleToPosition angleDecidegrees ≠ .unknown ∧ frequency ≠ 0) := by
    rintro ⟨hangle, hne⟩
    obtain h | h := hopen
    · exact hangle h
    · exact hne h
  rw [executeSetAngle, if_neg (not_not.mpr hidle)]
  dsimp only
  have hsame : (recordMove angleDecidegrees w).current = w.current := rfl
  rw [if_neg ((alreadyThere_iff hcurrent).not.mpr hgo), hsame]
  generalize chooseDirection w.current (targetStepOf angleDecidegrees) shortestPath = chosen
  let moving : Wheel := { recordMove angleDecidegrees w with direction := chosen.1 }
  have hdirection : setDirection .ok chosen.1 (recordMove angleDecidegrees w) = moving := rfl
  have hencoder : ¬(moving.targetPosition ≠ .unknown ∧ frequency ≠ 0) := hno
  dsimp only
  rw [hdirection, if_neg hencoder, decide_eq_false hencoder]
  exact startMoving_ok (w := moving) hspeed hfrequency (targetStepOf angleDecidegrees)

/-- The wheel after such a beginning. -/
theorem openLoop_started (hidle : w.state = .idle) (hcurrent : OnCircle w.current) (hstepSem : w.stepSem = false)
    (hspeed : SpeedAccepted w) (hfrequency : FrequencyAccepted w frequency) (hgo : ¬AlreadyThere w angleDecidegrees)
    (hopen : angleToPosition angleDecidegrees = .unknown ∨ frequency = 0) :
    let moved := (executeSetAngle .ok frequency angleDecidegrees shortestPath w).2
    OpenLoop moved ∧ Rolling moved w.current (initialFrequency frequency) ⟨moved, w.current⟩ ∧
      moved.target = targetStepOf angleDecidegrees ∧
      moved.direction = (chooseDirection w.current (targetStepOf angleDecidegrees) shortestPath).1 := by
  intro moved
  have hmoved : moved = _ := executeSetAngle_openLoop hidle hcurrent hspeed hfrequency hgo hopen
  have hsteady : moved.current = w.current ∧ moved.stepSem = false ∧
      moved.direction = (chooseDirection w.current (targetStepOf angleDecidegrees) shortestPath).1 := by
    rw [hmoved]
    unfold chooseSpeed
    split_ifs <;> exact ⟨rfl, hstepSem, rfl⟩
  have htarget : moved.target = targetStepOf angleDecidegrees := by rw [hmoved]
  refine ⟨⟨by rw [hmoved], by rw [hmoved], hsteady.2.1, ?_⟩, ⟨moved.encoderSem, ?_⟩, htarget, hsteady.2.2⟩
  · rw [htarget]
    exact targetStepOf_onCircle _
  · rw [← hsteady.1, show some (initialFrequency frequency) = moved.pwm by rw [hmoved]]

end OrbFirmware.Polarizer

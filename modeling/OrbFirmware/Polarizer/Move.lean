import OrbFirmware.Polarizer.Circle
import Mathlib.Logic.Function.Iterate
import Mathlib.Data.Nat.Find

/-! Encoder-assisted moves of a wheel that turns as it is told: where they end. -/
namespace OrbFirmware.Polarizer

/-- The bumps: three at the standard positions, and the extra one, whose edge the homing finds more than 2.5 and
less than 4 steps before the edge of the one at 240 degrees. -/
structure Bumps where
  extraFirst : Int
  extraLast : Int
  close : 218 < extraFirst ∧ extraFirst < 230
  apart : extraFirst ≤ extraLast ∧ extraLast < 249

/-- Within the distance of an edge from the bump's centre. -/
def onBump (centre position : Int) : Prop :=
  (position-centre+microstepsNotchEdgeToCenter)%microsteps360Degrees ≤ 2*microstepsNotchEdgeToCenter

instance (centre position : Int) : Decidable (onBump centre position) := inferInstanceAs (Decidable (_ ≤ _))

/-- The encoder's pin at a position. -/
def Bumps.pin (b : Bumps) (position : Int) : Bool :=
  onBump 0 position ∨ onBump microsteps120Degrees position ∨ onBump (2*microsteps120Degrees) position ∨
    (b.extraFirst ≤ position ∧ position ≤ b.extraLast)

/-- The pin goes up where the wheel arrives at the position. -/
def Bumps.rises (b : Bumps) (direction : Direction) (position : Int) : Bool :=
  b.pin position && !b.pin (position-direction.sign)

/-- The software and where the wheel is. -/
structure Rig where
  wheel : Wheel
  position : Int

/-- What `polarizer_wheel_thread` does with the events of a step: the step first, then the encoder. -/
def handleEvents (w : Wheel) : Wheel :=
  let w := if w.stepSem then (takeStepEvent .ok w.current w).2 else w
  if w.encoderSem then takeEncoderEvent w.current w else w

/-- A step pulse: the wheel turns, the interrupts are handled, and then the thread handles their events. -/
def pulse (b : Bumps) (r : Rig) : Rig :=
  match r.wheel.pwm with
  | none => r
  | some _ =>
    let position := r.wheel.direction.advance 1 r.position
    let counted := if r.wheel.stepInterrupt then stepIsr r.wheel else r.wheel
    let noticed :=
      if counted.encoderInterrupt ∧ b.rises r.wheel.direction position then encoderCallback true counted else counted
    ⟨handleEvents noticed, position⟩

/-- The motor is halted, at some time, with the wheel at `target`. -/
def EndsAt (b : Bumps) (r : Rig) (target : Int) : Prop :=
  ∃ n, ((pulse b)^[n] r).wheel.pwm = none ∧ ((pulse b)^[n] r).position = target

/-- The same, and the move is over: the encoder has been triggered, and no homing is asked for. -/
def CompletesAt (b : Bumps) (r : Rig) (target : Int) : Prop :=
  ∃ n, ((pulse b)^[n] r).wheel.pwm = none ∧ ((pulse b)^[n] r).wheel.state = .idle ∧
    ((pulse b)^[n] r).position = target

/-- Nothing but the edge of its own bump comes up on the way to the target. -/
def ClearWay (b : Bumps) (direction : Direction) (start target : Int) : Prop :=
  ∀ n, 0 < n → n+microstepsNotchEdgeToCenter < direction.distance start target →
    b.rises direction (direction.advance n start) = false

instance (b : Bumps) (direction : Direction) (start target : Int) : Decidable (ClearWay b direction start target) :=
  decidable_of_iff
    (∀ n, n < direction.distance start target → 0 < n →
      n+microstepsNotchEdgeToCenter < direction.distance start target →
        b.rises direction (direction.advance n start) = false)
    ⟨fun h n hn hlt => h n (Nat.lt_of_le_of_lt (Nat.le_add_right n _) hlt) hn hlt, fun h n _ => h n⟩

/-- The widths that were measured are those of the bumps. -/
def Calibration.Measured (c : Calibration) : Prop :=
  c.calibrationComplete = true →
    c.bumpWidthPassThrough.toNat/2 = microstepsNotchEdgeToCenter ∧
      c.bumpWidthVertical.toNat/2 = microstepsNotchEdgeToCenter ∧
      c.bumpWidthHorizontal.toNat/2 = microstepsNotchEdgeToCenter

instance (c : Calibration) : Decidable c.Measured := inferInstanceAs (Decidable (_ → _))

/-! One pulse. -/

/-- An encoder-assisted move under way, with the position, the counter and the trigger. -/
structure Moving (direction : Direction) (edge target position current : Int) (triggered : Bool) (r : Rig) :
    Prop where
  position : r.position = position
  current : r.wheel.current = current
  triggered : r.wheel.encoderTriggered = triggered
  direction : r.wheel.direction = direction
  edge : r.wheel.targetNotchEdge = edge
  target : r.wheel.target = target
  state : r.wheel.state = .positioningWithEncoder
  constant : r.wheel.accelerationActive = false
  pwm : r.wheel.pwm ≠ none
  stepInterrupt : r.wheel.stepInterrupt = true
  encoderInterrupt : r.wheel.encoderInterrupt = true
  stepSem : r.wheel.stepSem = false
  encoderSem : r.wheel.encoderSem = false

variable {b : Bumps} {direction : Direction} {edge target position current : Int} {triggered : Bool} {r : Rig}

theorem processStepEvent_target {w : Wheel} {currentPos : Int} (h : w.target = currentPos)
    (hstate : w.state = .positioningWithEncoder) :
    (processStepEvent .ok currentPos w).2.pwm = none ∧
      ((processStepEvent .ok currentPos w).2.state = .idle ↔ w.encoderTriggered = true) := by
  cases htriggered : w.encoderTriggered with
  | false => simp [processStepEvent, h, hstate, htriggered, polarizerHalt, Drivers.ok]
  | true =>
    simp only [processStepEvent, h, hstate, htriggered, polarizerHalt, if_true, Bool.true_eq_false, and_false, if_false,
      Drivers.ok]
    split_ifs <;> simp [disableEncoder]

theorem takeEncoderEvent_halted (currentPosition : Int) (w : Wheel) :
    (takeEncoderEvent currentPosition w).pwm = w.pwm ∧ (takeEncoderEvent currentPosition w).state = w.state := by
  simp only [takeEncoderEvent, processEncoderEventPositioning]
  split
  · split_ifs <;> exact ⟨rfl, rfl⟩
  · exact ⟨rfl, rfl⟩

theorem handleEvents_target {w : Wheel} (hstep : w.stepSem = true) (hstate : w.state = .positioningWithEncoder)
    (htarget : w.target = w.current) :
    (handleEvents w).pwm = none ∧ ((handleEvents w).state = .idle ↔ w.encoderTriggered = true) := by
  have hhalted : (takeStepEvent .ok w.current w).2.pwm = none ∧
      ((takeStepEvent .ok w.current w).2.state = .idle ↔ w.encoderTriggered = true) := by
    simp only [takeStepEvent, hstate]
    exact processStepEvent_target htarget rfl
  simp only [handleEvents, hstep, if_true]
  split_ifs
  · obtain ⟨hpwm, hsame⟩ := takeEncoderEvent_halted (takeStepEvent .ok w.current w).2.current
      (takeStepEvent .ok w.current w).2
    rw [hpwm, hsame]
    exact hhalted
  · exact hhalted

theorem handleEvents_passing {w : Wheel} (hstep : w.stepSem = true) (hstate : w.state = .positioningWithEncoder)
    (hconstant : w.accelerationActive = false) (htarget : w.target ≠ w.current) :
    handleEvents w =
      if w.encoderSem then processEncoderEventPositioning w.current { w with stepSem := false, encoderSem := false }
      else { w with stepSem := false } := by
  simp [handleEvents, takeStepEvent, takeEncoderEvent, processStepEvent, hstep, hstate, htarget, hconstant]

/-- The software with the interrupts of a pulse handled. -/
def interrupted (b : Bumps) (r : Rig) : Wheel :=
  let counted := stepIsr r.wheel
  if b.rises r.wheel.direction (r.wheel.direction.advance 1 r.position) then { counted with encoderSem := true }
  else counted

theorem Moving.pulse_eq (h : Moving direction edge target position current triggered r) :
    pulse b r = ⟨handleEvents (interrupted b r), direction.advance 1 position⟩ := by
  obtain ⟨frequency, hpwm⟩ := Option.ne_none_iff_exists'.mp h.pwm
  have hstate : (stepIsr r.wheel).state = .positioningWithEncoder := h.state
  have hencoder : (stepIsr r.wheel).encoderInterrupt = true := h.encoderInterrupt
  simp only [OrbFirmware.Polarizer.pulse, hpwm, h.stepInterrupt, h.position, h.direction, hencoder, true_and, if_true,
    encoderCallback, hstate, interrupted]

theorem Moving.pulse_halts (h : Moving direction edge target position current triggered r) (hcurrent : OnCircle current)
    (htarget : direction.advance 1 current = target) :
    (pulse b r).wheel.pwm = none ∧ ((pulse b r).wheel.state = .idle ↔ triggered = true) ∧
      (pulse b r).position = direction.advance 1 position := by
  have hcounted : (stepIsr r.wheel).current = target := by
    rw [stepIsr_current (h.current ▸ hcurrent), h.direction, h.current, htarget]
  have hstep : (interrupted b r).stepSem = true := by
    unfold interrupted
    split_ifs <;> rfl
  have hstate : (interrupted b r).state = .positioningWithEncoder := by
    unfold interrupted
    split_ifs <;> exact h.state
  have hreached : (interrupted b r).target = (interrupted b r).current := by
    unfold interrupted
    split_ifs <;> exact h.target.trans hcounted.symm
  have htriggered : (interrupted b r).encoderTriggered = triggered := by
    unfold interrupted
    split_ifs <;> exact h.triggered
  rw [h.pulse_eq, ← htriggered]
  obtain ⟨hpwm, hidle⟩ := handleEvents_target hstep hstate hreached
  exact ⟨hpwm, hidle, rfl⟩

theorem Moving.pulse (h : Moving direction edge target position current triggered r) (hcurrent : OnCircle current)
    (htarget : direction.advance 1 current ≠ target) :
    let risen := b.rises direction (direction.advance 1 position)
    Moving direction edge target (direction.advance 1 position)
      (if risen ∧ triggered = false then edge else direction.advance 1 current) (triggered || risen) (pulse b r) := by
  have hcounted : (stepIsr r.wheel).current = direction.advance 1 current := by
    rw [stepIsr_current (h.current ▸ hcurrent), h.direction, h.current]
  have hne : r.wheel.target ≠ (stepIsr r.wheel).current := by
    rw [hcounted, h.target]
    exact htarget.symm
  have hstep : (stepIsr r.wheel).stepSem = true := rfl
  have hstate : (stepIsr r.wheel).state = .positioningWithEncoder := h.state
  have hconstant : (stepIsr r.wheel).accelerationActive = false := h.constant
  have hencoder : (stepIsr r.wheel).encoderSem = false := h.encoderSem
  have htriggered : (stepIsr r.wheel).encoderTriggered = triggered := h.triggered
  rw [h.pulse_eq]
  intro risen
  cases hrisen : risen with
  | false =>
    have hint : interrupted b r = stepIsr r.wheel := by
      simp only [interrupted, h.direction, h.position]
      exact if_neg (by simp [risen, hrisen])
    have hhandled : handleEvents (interrupted b r) = { stepIsr r.wheel with stepSem := false } := by
      rw [hint, handleEvents_passing hstep hstate hconstant hne]
      refine if_neg ?_
      rw [hencoder]
      exact Bool.false_ne_true
    rw [hhandled]
    exact { h with
      position := rfl
      current := by simpa using hcounted
      triggered := by simpa using htriggered
      stepSem := rfl }
  | true =>
    have hint : interrupted b r = { stepIsr r.wheel with encoderSem := true } := by
      simp only [interrupted, h.direction, h.position]
      exact if_pos (by simp [risen, hrisen])
    have hhandled : handleEvents (interrupted b r) =
        processEncoderEventPositioning (stepIsr r.wheel).current
          { stepIsr r.wheel with stepSem := false, encoderSem := false } := by
      rw [hint]
      exact handleEvents_passing (w := { stepIsr r.wheel with encoderSem := true }) hstep hstate hconstant hne
    rw [hhandled]
    cases triggered with
    | false =>
      simp only [processEncoderEventPositioning, htriggered]
      exact { h with
        position := rfl
        current := h.edge
        triggered := rfl
        stepSem := rfl
        encoderSem := rfl }
    | true =>
      simp only [processEncoderEventPositioning, htriggered, if_true]
      exact { h with
        position := rfl
        current := by simpa using hcounted
        triggered := rfl
        stepSem := rfl
        encoderSem := rfl }

/-! The way to an edge and from an edge to the target. -/

/-- With no target and no unnoticed edge in between, `n` pulses are `n` microsteps. -/
theorem Moving.pulses (h : Moving direction edge target position current triggered r) (hposition : OnCircle position)
    (hcurrent : OnCircle current) (n : Nat) (htarget : ∀ k, 0 < k → k ≤ n → direction.advance k current ≠ target)
    (hedge : triggered = false → ∀ k, 0 < k → k ≤ n → b.rises direction (direction.advance k position) = false) :
    Moving direction edge target (direction.advance n position) (direction.advance n current) triggered
      ((OrbFirmware.Polarizer.pulse b)^[n] r) := by
  induction n with
  | zero =>
    rw [advance_zero direction hposition, advance_zero direction hcurrent]
    exact h
  | succ n ih =>
    have hmoved := ih (fun k hk hkn => htarget k hk (Nat.le_succ_of_le hkn))
      (fun hno k hk hkn => hedge hno k hk (Nat.le_succ_of_le hkn))
    have hnext := htarget (n+1) (Nat.succ_pos n) (Nat.le_refl _)
    rw [← advance_advance] at hnext
    have hpulse := hmoved.pulse (b := b) (advance_onCircle direction n current) hnext
    rw [Function.iterate_succ_apply']
    rw [advance_advance, advance_advance] at hpulse
    cases triggered with
    | true => simpa using hpulse
    | false => simpa [hedge rfl (n+1) (Nat.succ_pos n) (Nat.le_refl _)] using hpulse

/-- Up to the target, with no unnoticed edge before it. -/
theorem Moving.ends (h : Moving direction edge target position current triggered r) (hposition : OnCircle position)
    (hcurrent : OnCircle current) (htarget : OnCircle target) (hne : current ≠ target)
    (hedge : triggered = false → ∀ k, 0 < k → k < direction.distance current target →
      b.rises direction (direction.advance k position) = false) :
    let last := (OrbFirmware.Polarizer.pulse b)^[direction.distance current target] r
    last.wheel.pwm = none ∧ (last.wheel.state = .idle ↔ triggered = true) ∧
      last.position = direction.advance (direction.distance current target) position := by
  have hlt := distance_lt direction current target
  have hfirst : ∀ k, k < direction.distance current target → direction.advance k current ≠ target :=
    fun k hk => advance_ne htarget hk
  have hdest : direction.advance (direction.distance current target) current = target :=
    (advance_eq_iff htarget hlt).mpr rfl
  obtain ⟨n, hn⟩ : ∃ n, direction.distance current target = n+1 := by
    refine Nat.exists_eq_succ_of_ne_zero fun hzero => hne ?_
    rw [← hdest, hzero, advance_zero direction hcurrent]
  rw [hn] at hfirst hdest hedge ⊢
  have hmoved := h.pulses (b := b) hposition hcurrent n (fun k _ hk => hfirst k (Nat.lt_succ_of_le hk))
    (fun hno k hk hkn => hedge hno k hk (Nat.lt_succ_of_le hkn))
  have hhalts := hmoved.pulse_halts (b := b) (advance_onCircle direction n current)
    ((advance_advance direction n 1 current).trans hdest)
  rw [advance_advance] at hhalts
  rw [Function.iterate_succ_apply']
  exact hhalts

/-- Up to the first edge. -/
theorem Moving.meets (h : Moving direction edge target position current false r) (hposition : OnCircle position)
    (hcurrent : OnCircle current) (htarget : OnCircle target) {n : Nat} (hn : n+1 < direction.distance current target)
    (hedge : b.rises direction (direction.advance (n+1) position) = true)
    (hfirst : ∀ k, 0 < k → k ≤ n → b.rises direction (direction.advance k position) = false) :
    Moving direction edge target (direction.advance (n+1) position) edge true
      ((OrbFirmware.Polarizer.pulse b)^[n+1] r) := by
  have hmoved := h.pulses (b := b) hposition hcurrent n (fun k _ hk => advance_ne htarget (by omega)) (fun _ => hfirst)
  have hnext : direction.advance 1 (direction.advance n current) ≠ target := by
    rw [advance_advance]
    exact advance_ne htarget hn
  have hpulse := hmoved.pulse (b := b) (advance_onCircle direction n current) hnext
  rw [advance_advance, advance_advance] at hpulse
  rw [Function.iterate_succ_apply']
  simpa [hedge] using hpulse

/-- A move whose counter an edge sets to six microsteps before the target ends these six further on. -/
theorem Moving.ends_after_edge (h : Moving direction edge target position position false r)
    (hposition : OnCircle position) (htarget : OnCircle target) (hedge : OnCircle edge ∧ edge ≠ target)
    (hdistance : direction.distance edge target = 6) {n : Nat} (hn : n+1 < direction.distance position target)
    (hrises : b.rises direction (direction.advance (n+1) position) = true)
    (hfirst : ∀ k, 0 < k → k ≤ n → b.rises direction (direction.advance k position) = false) :
    let last := (OrbFirmware.Polarizer.pulse b)^[n+1+6] r
    last.wheel.pwm = none ∧ last.wheel.state = .idle ∧ last.position = direction.advance (n+1+6) position := by
  have hmet := h.meets (b := b) hposition hposition htarget hn hrises hfirst
  obtain ⟨hpwm, hidle, hlast⟩ := hmet.ends (b := b) (advance_onCircle direction (n+1) position) hedge.1 htarget hedge.2
    (fun h => absurd h (by decide))
  rw [hdistance, ← Function.iterate_add_apply, Nat.add_comm 6] at hpwm hidle hlast
  rw [advance_advance] at hlast
  exact ⟨hpwm, hidle.mpr rfl, hlast⟩

/-! What a halted wheel says of the run. -/

theorem halted_pulses (h : r.wheel.pwm = none) (n : Nat) : (pulse b)^[n] r = r := by
  induction n with
  | zero => rfl
  | succ n ih =>
    rw [Function.iterate_succ_apply', ih, pulse, h]

/-- A wheel that is halted after `n` and after `m` pulses. -/
theorem halted_unique {n m : Nat} (hn : ((pulse b)^[n] r).wheel.pwm = none) (hm : ((pulse b)^[m] r).wheel.pwm = none) :
    (pulse b)^[n] r = (pulse b)^[m] r := by
  obtain hle | hle := Nat.le_total n m
  · obtain ⟨k, rfl⟩ := Nat.exists_eq_add_of_le hle
    rw [Nat.add_comm, Function.iterate_add_apply, halted_pulses hn]
  · obtain ⟨k, rfl⟩ := Nat.exists_eq_add_of_le hle
    rw [Nat.add_comm, Function.iterate_add_apply, halted_pulses hm]

theorem endsAt_iff {n : Nat} (hn : ((pulse b)^[n] r).wheel.pwm = none) :
    EndsAt b r target ↔ ((pulse b)^[n] r).position = target := by
  constructor
  · rintro ⟨m, hm, hposition⟩
    rw [halted_unique hn hm]
    exact hposition
  · intro hposition
    exact ⟨n, hn, hposition⟩

theorem completesAt_iff {n : Nat} (hn : ((pulse b)^[n] r).wheel.pwm = none) :
    CompletesAt b r target ↔ ((pulse b)^[n] r).wheel.state = .idle ∧ ((pulse b)^[n] r).position = target := by
  constructor
  · rintro ⟨m, hm, hcomplete⟩
    rw [halted_unique hn hm]
    exact hcomplete
  · intro hcomplete
    exact ⟨n, hn, hcomplete⟩

/-! The bumps. -/

def Standard (target : Int) : Prop :=
  target = 0 ∨ target = microsteps120Degrees ∨ target = 2*microsteps120Degrees

theorem Standard.onCircle (h : Standard target) : OnCircle target := by
  obtain rfl | rfl | rfl := h <;> exact ⟨by decide, by decide⟩

theorem onBump_pin (htarget : Standard target) (h : onBump target position) : b.pin position = true := by
  obtain rfl | rfl | rfl := htarget
  · exact decide_eq_true (.inl h)
  · exact decide_eq_true (.inr (.inl h))
  · exact decide_eq_true (.inr (.inr (.inl h)))

/-- Within its bump no edge comes up before the target. -/
theorem rises_near (hposition : OnCircle position) (htarget : OnCircle target) (hstandard : Standard target)
    (hrises : b.rises direction position = true) : 6 ≤ direction.distance position target := by
  obtain ⟨hnonneg, hlt⟩ := hposition
  obtain ⟨hnonneg', hlt'⟩ := htarget
  by_contra hnear
  have hon : onBump target (position-direction.sign) := by
    simp only [onBump, Direction.distance, Direction.sign, microsteps360Degrees, stepsPerTurn, microstepsPerStep,
      microstepsNotchEdgeToCenter] at hlt hlt' hnear ⊢
    cases direction <;> dsimp only at hnear ⊢ <;> omega
  have hpin := onBump_pin (b := b) hstandard hon
  simp [Bumps.rises, hpin] at hrises

/-- The edge of a bump comes up there. -/
theorem rises_edge (hposition : OnCircle position) (hstandard : Standard target)
    (hedge : direction.distance position target = 6) : b.rises direction position = true := by
  obtain ⟨hnonneg, hlt⟩ := hposition
  obtain ⟨hfirst, hlast⟩ := b.close
  obtain ⟨hle, hapart⟩ := b.apart
  simp only [Direction.distance, microsteps360Degrees, stepsPerTurn, microstepsPerStep] at hlt hedge
  have hon : onBump target position := by
    simp only [onBump, microsteps360Degrees, stepsPerTurn, microstepsPerStep, microstepsNotchEdgeToCenter]
    cases direction <;> simp only [Direction.sign] at hedge <;> omega
  have hoff : b.pin (position-direction.sign) = false := by
    refine decide_eq_false ?_
    simp only [onBump, microsteps120Degrees, microsteps360Degrees, stepsPerTurn, microstepsPerStep,
      microstepsNotchEdgeToCenter]
    obtain rfl | rfl | rfl := hstandard <;> cases direction <;>
      simp only [Direction.sign, microsteps120Degrees, microsteps360Degrees, stepsPerTurn, microstepsPerStep] at hedge ⊢ <;>
      omega
  simp [Bumps.rises, onBump_pin hstandard hon, hoff]

/-- Where a move ends that begins with the counter at the wheel's position. -/
theorem Moving.outcome (h : Moving direction edge target position position false r) (hposition : OnCircle position)
    (hstandard : Standard target) (hne : position ≠ target) (hedge : OnCircle edge ∧ edge ≠ target)
    (hdistance : direction.distance edge target = 6) :
    (EndsAt b r target ↔ ClearWay b direction position target) ∧
      (CompletesAt b r target ↔ ClearWay b direction position target ∧ 6 < direction.distance position target) := by
  have htarget := hstandard.onCircle
  by_cases hany : ∃ k, b.rises direction (direction.advance (k+1) position) = true ∧
      k+1 < direction.distance position target
  · obtain ⟨k, ⟨hrises, hk⟩, hleast⟩ : ∃ k, (b.rises direction (direction.advance (k+1) position) = true ∧
        k+1 < direction.distance position target) ∧ ∀ m, m < k →
          ¬ (b.rises direction (direction.advance (m+1) position) = true ∧ m+1 < direction.distance position target) :=
      ⟨Nat.find hany, Nat.find_spec hany, fun m hm => Nat.find_min hany hm⟩
    have hfirst : ∀ n, 0 < n → n ≤ k → b.rises direction (direction.advance n position) = false := by
      intro n hn hnk
      have := hleast (n-1) (by omega)
      rw [Nat.sub_add_cancel hn] at this
      simpa [show n < direction.distance position target by omega] using this
    have hfar : 6 ≤ direction.distance position target-(k+1) := by
      rw [← distance_advance hk.le]
      exact rises_near (advance_onCircle direction (k+1) position) htarget hstandard hrises
    have hlt := distance_lt direction position target
    obtain ⟨hpwm, hidle, hlast⟩ := h.ends_after_edge hposition htarget hedge hdistance hk hrises hfirst
    have hends : EndsAt b r target ↔ k+1+6 = direction.distance position target := by
      rw [endsAt_iff hpwm, hlast]
      exact advance_eq_iff htarget (by omega)
    have hclear : ClearWay b direction position target ↔ k+1+6 = direction.distance position target := by
      constructor
      · intro hclear
        by_contra hother
        have hno := hclear (k+1) (Nat.succ_pos k) (by simp only [microstepsNotchEdgeToCenter, microstepsPerStep]; omega)
        rw [hrises] at hno
        contradiction
      · intro hown n hn hbefore
        simp only [microstepsNotchEdgeToCenter, microstepsPerStep] at hbefore
        exact hfirst n hn (by omega)
    refine ⟨hends.trans hclear.symm, ?_⟩
    rw [completesAt_iff hpwm, ← endsAt_iff hpwm, hends, hclear]
    exact ⟨fun hcomplete => ⟨hcomplete.2, by omega⟩, fun hown => ⟨hidle, hown.1⟩⟩
  · have hnone : ∀ n, 0 < n → n < direction.distance position target →
        b.rises direction (direction.advance n position) = false := by
      intro n hn hlt
      by_contra hrises
      exact hany ⟨n-1, by rw [Nat.sub_add_cancel hn]; exact ⟨by simpa using hrises, hlt⟩⟩
    obtain ⟨hpwm, hidle, hlast⟩ := h.ends (b := b) hposition hposition htarget hne fun _ => hnone
    have hends : EndsAt b r target := by
      rw [endsAt_iff hpwm, hlast]
      exact (advance_eq_iff htarget (distance_lt direction position target)).mpr rfl
    have hclear : ClearWay b direction position target := fun n hn hbefore =>
      hnone n hn (by omega)
    refine ⟨⟨fun _ => hclear, fun _ => hends⟩, ?_⟩
    rw [completesAt_iff hpwm, hidle]
    constructor
    · rintro ⟨htriggered, -⟩
      contradiction
    · rintro ⟨-, hfar⟩
      -- the edge of the target's own bump would have come up
      have hown : direction.distance (direction.advance (direction.distance position target-6) position) target = 6 := by
        rw [distance_advance (Nat.sub_le _ _)]
        omega
      have hrises := rises_edge (b := b) (advance_onCircle direction _ position) hstandard hown
      rw [hnone _ (by omega) (by omega)] at hrises
      contradiction

/-! The move that `execute_set_angle` begins. -/

/-- The microstep of a standard position. -/
def Position.At : Position → Int → Prop
  | .unknown, _ => True
  | .passThrough, position => position = 0
  | .vertical, position => position = microsteps120Degrees
  | .horizontal, position => position = 2*microsteps120Degrees

theorem getCurrentPosition_at (hposition : OnCircle position) : (getCurrentPosition position).At position := by
  obtain ⟨hnonneg, hlt⟩ := hposition
  simp only [microsteps360Degrees, stepsPerTurn, microstepsPerStep] at hlt
  unfold getCurrentPosition
  dsimp only [microsteps360Degrees, stepsPerTurn, microstepsPerStep]
  split
  · simp only [Position.At]
    omega
  · split
    · simp only [Position.At, microsteps120Degrees, microsteps360Degrees, stepsPerTurn, microstepsPerStep]
      omega
    · split
      · simp only [Position.At, microsteps120Degrees, microsteps360Degrees, stepsPerTurn, microstepsPerStep]
        omega
      · trivial

theorem targetStepOf_at {angleDecidegrees : UInt32} (h : angleToPosition angleDecidegrees ≠ .unknown) :
    (angleToPosition angleDecidegrees).At (targetStepOf angleDecidegrees) := by
  unfold angleToPosition at h ⊢
  split_ifs at h ⊢ with h₁ h₂ h₃
  · subst h₁
    exact (by decide : targetStepOf 0 = 0)
  · subst h₂
    exact (by decide : targetStepOf 1200 = microsteps120Degrees)
  · subst h₃
    exact (by decide : targetStepOf 2400 = 2*microsteps120Degrees)
  · exact absurd rfl h

theorem targetStepOf_standard {angleDecidegrees : UInt32} (h : angleToPosition angleDecidegrees ≠ .unknown) :
    Standard (targetStepOf angleDecidegrees) := by
  have hat := targetStepOf_at h
  cases hposition : angleToPosition angleDecidegrees <;> rw [hposition] at hat
  case unknown => exact absurd hposition h
  case passThrough => exact .inl hat
  case vertical => exact .inr (.inl hat)
  case horizontal => exact .inr (.inr hat)

/-- The counter is at a standard position only at its microstep. -/
theorem getCurrentPosition_ne {angleDecidegrees : UInt32} (h : angleToPosition angleDecidegrees ≠ .unknown)
    (hposition : OnCircle position) (hne : position ≠ targetStepOf angleDecidegrees) :
    getCurrentPosition position ≠ angleToPosition angleDecidegrees := by
  intro heq
  have hcurrent := getCurrentPosition_at hposition
  have htarget := targetStepOf_at h
  rw [heq] at hcurrent
  cases hangle : angleToPosition angleDecidegrees with
  | unknown => exact h hangle
  | passThrough | vertical | horizontal =>
    rw [hangle] at hcurrent htarget
    exact hne (hcurrent.trans htarget.symm)

theorem getEdgeToCenterForPosition_eq {c : Calibration} (hc : c.Measured) (target : Int) :
    getEdgeToCenterForPosition c target = microstepsNotchEdgeToCenter := by
  unfold getEdgeToCenterForPosition
  cases hcomplete : c.calibrationComplete with
  | false => rfl
  | true =>
    obtain ⟨hpass, hvertical, hhorizontal⟩ := hc hcomplete
    rw [if_neg (by simp)]
    split_ifs
    · exact hpass
    · exact hvertical
    · exact hhorizontal
    · rfl

theorem calculateNotchEdge_eq {c : Calibration} (hc : c.Measured) (htarget : Standard target) (direction : Direction) :
    OnCircle (calculateNotchEdge c target direction) ∧ calculateNotchEdge c target direction ≠ target ∧
      direction.distance (calculateNotchEdge c target direction) target = 6 := by
  simp only [calculateNotchEdge, getEdgeToCenterForPosition_eq hc]
  obtain rfl | rfl | rfl := htarget <;> cases direction <;> decide +kernel

theorem executeSetAngle_moving {w : Wheel} {frequency angleDecidegrees : UInt32} (shortestPath : Bool)
    (hidle : w.state = .idle) (hstepSem : w.stepSem = false) (hencoderSem : w.encoderSem = false)
    (hcurrent : OnCircle w.current) (hmin : spinPwmFrequencyMinimum ≤ frequency) (hmax : frequency ≤ getMaxFrequency w)
    (hangle : angleToPosition angleDecidegrees ≠ .unknown) (hne : w.current ≠ targetStepOf angleDecidegrees) :
    let direction := (chooseDirection w.current (targetStepOf angleDecidegrees) shortestPath).1
    Moving direction (calculateNotchEdge w.calibration (targetStepOf angleDecidegrees) direction)
      (targetStepOf angleDecidegrees) w.current w.current false
      ⟨(executeSetAngle .ok frequency angleDecidegrees shortestPath w).2, w.current⟩ := by
  have hposition := getCurrentPosition_ne hangle hcurrent hne
  have hfrequency : frequency ≠ 0 := by
    rintro rfl
    exact absurd hmin (by decide)
  have hvalid : ¬ (getMaxFrequency w < frequency ∨ frequency < spinPwmFrequencyMinimum) := by
    rintro (h | h)
    · exact absurd hmax (UInt32.not_le.mpr h)
    · exact absurd hmin (UInt32.not_le.mpr h)
  intro direction
  simp only [getMaxFrequency] at hvalid
  simp only [executeSetAngle, recordMove, armEncoder, chooseSpeed, startMoving, hidle, hposition, hangle, hfrequency,
    hvalid, Drivers.ok, setDirection, enableEncoder, polarizerRotate, polarizerSetFrequency, getMaxFrequency,
    ne_eq, not_true_eq_false, not_false_eq_true, if_true, if_false, false_and, and_self]
  exact {
    position := rfl
    current := rfl
    triggered := rfl
    direction := rfl
    edge := rfl
    target := rfl
    state := rfl
    constant := rfl
    pwm := Option.some_ne_none _
    stepInterrupt := rfl
    encoderInterrupt := rfl
    stepSem := hstepSem
    encoderSem := hencoderSem }

/-- An encoder-assisted move halts at its target exactly if no other edge comes up before that of the target's bump,
and is completed exactly if, besides, it begins before that edge. -/
theorem encoder_move_ends (b : Bumps) {w : Wheel} {frequency angleDecidegrees : UInt32} (shortestPath : Bool)
    (hidle : w.state = .idle) (hstepSem : w.stepSem = false) (hencoderSem : w.encoderSem = false)
    (hcurrent : OnCircle w.current) (hmeasured : w.calibration.Measured) (hmin : spinPwmFrequencyMinimum ≤ frequency)
    (hmax : frequency ≤ getMaxFrequency w) (hangle : angleToPosition angleDecidegrees ≠ .unknown)
    (hne : w.current ≠ targetStepOf angleDecidegrees) :
    let target := targetStepOf angleDecidegrees
    let direction := (chooseDirection w.current target shortestPath).1
    let r : Rig := ⟨(executeSetAngle .ok frequency angleDecidegrees shortestPath w).2, w.current⟩
    (EndsAt b r target ↔ ClearWay b direction w.current target) ∧
      (CompletesAt b r target ↔
        ClearWay b direction w.current target ∧
          microstepsNotchEdgeToCenter < direction.distance w.current target) := by
  intro target direction r
  have hstandard : Standard target := targetStepOf_standard hangle
  obtain ⟨hedge, hedgeNe, hdistance⟩ := calculateNotchEdge_eq hmeasured hstandard direction
  exact (executeSetAngle_moving shortestPath hidle hstepSem hencoderSem hcurrent hmin hmax hangle hne).outcome hcurrent
    hstandard hne ⟨hedge, hedgeNe⟩ hdistance

def someBumps : Bumps := ⟨225, 237, by decide, by decide⟩

/-- From the pass-through to the vertical position. -/
theorem encoder_move_ends_vertical :
    CompletesAt someBumps ⟨(executeSetAngle .ok 128 1200 false homedWheel).2, 0⟩ 128 :=
  (encoder_move_ends someBumps false rfl rfl rfl (by decide) (by decide) (by decide) (by decide) (by decide)
    (by decide)).2.mpr (by decide +kernel)

/-- From the vertical to the horizontal position the wheel stops at the extra bump. -/
theorem encoder_move_misses :
    ¬ EndsAt someBumps ⟨(executeSetAngle .ok 128 2400 false { homedWheel with current := 128 }).2, 128⟩ 256 := by
  have hhalted : ((pulse someBumps)^[103]
      ⟨(executeSetAngle .ok 128 2400 false { homedWheel with current := 128 }).2, 128⟩).wheel.pwm = none := by
    decide +kernel
  rw [endsAt_iff hhalted]
  decide +kernel

end OrbFirmware.Polarizer

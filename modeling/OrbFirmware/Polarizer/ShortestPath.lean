import OrbFirmware.Polarizer.OpenLoop

/-! Moves on the shortest path: how far the wheel travels to its target. -/
namespace OrbFirmware.Polarizer
variable {b : Bumps} {w : Wheel} {r : Rig} {direction : Direction} {start target position edge : Int}
  {frequency angleDecidegrees : UInt32}

/-! Every pulse turns the wheel a microstep in the same direction, until the motor is halted. -/

theorem disableEncoder_direction (d : Drivers) (w : Wheel) : (disableEncoder d w).direction = w.direction := by
  unfold disableEncoder
  split_ifs <;> rfl

theorem polarizerSetFrequency_direction (d : Drivers) (frequency : UInt32) (w : Wheel) :
    (polarizerSetFrequency d frequency w).2.direction = w.direction := by
  unfold polarizerSetFrequency
  split_ifs <;> rfl

theorem processStepEvent_direction (d : Drivers) (currentPos : Int) (w : Wheel) :
    (processStepEvent d currentPos w).2.direction = w.direction := by
  unfold processStepEvent
  split
  · split
    · rfl
    · dsimp only
      split
      · exact disableEncoder_direction d _
      · rfl
  · split
    · exact polarizerSetFrequency_direction d _ w
    · rfl

theorem handleEvents_direction (w : Wheel) : (handleEvents w).direction = w.direction := by
  have hstep : (takeStepEvent .ok w.current w).2.direction = w.direction := by
    simp only [takeStepEvent]
    split
    all_goals first | exact processStepEvent_direction _ _ _ | rfl
  have hencoder : ∀ current (w : Wheel), (takeEncoderEvent current w).direction = w.direction := by
    intro current w
    simp only [takeEncoderEvent, processEncoderEventPositioning]
    split
    · split_ifs <;> rfl
    · rfl
  simp only [handleEvents]
  split_ifs
  · rw [hencoder, hstep]
  · exact hstep
  · exact hencoder _ w
  · rfl

theorem pulse_turns (h : r.wheel.pwm ≠ none) :
    (pulse b r).position = r.wheel.direction.advance 1 r.position ∧ (pulse b r).wheel.direction = r.wheel.direction := by
  obtain ⟨frequency, hpwm⟩ := Option.ne_none_iff_exists'.mp h
  have hcallback : ∀ w : Wheel, (encoderCallback true w).direction = w.direction := by
    intro w
    simp only [encoderCallback]
    split <;> rfl
  simp only [pulse, hpwm]
  refine ⟨trivial, ?_⟩
  rw [handleEvents_direction]
  split_ifs <;> simp [hcallback, stepIsr]

theorem pulses_turn (hposition : OnCircle r.position) {n : Nat} (h : ∀ k, k < n → ((pulse b)^[k] r).wheel.pwm ≠ none) :
    ((pulse b)^[n] r).position = r.wheel.direction.advance n r.position ∧
      ((pulse b)^[n] r).wheel.direction = r.wheel.direction := by
  induction n with
  | zero => exact ⟨(advance_zero _ hposition).symm, rfl⟩
  | succ n ih =>
    obtain ⟨hway, hsame⟩ := ih fun k hk => h k (Nat.lt_succ_of_lt hk)
    obtain ⟨hnext, hsame'⟩ := pulse_turns (b := b) (h n (Nat.lt_succ_self n))
    rw [Function.iterate_succ_apply', hnext, hsame', hsame, hway, advance_advance]
    exact ⟨rfl, rfl⟩

/-- A motor that is halted at its target after the distance to it has not been halted before. -/
theorem travels_of_halted (hposition : OnCircle r.position) (htarget : OnCircle target) {total : Nat}
    (htotal : total = r.wheel.direction.distance r.position target) (hhalted : ((pulse b)^[total] r).wheel.pwm = none)
    (harrived : ((pulse b)^[total] r).position = target) : Travels b r total target := by
  have hturning : ∀ k, k < total → ((pulse b)^[k] r).wheel.pwm ≠ none := by
    intro k
    induction k using Nat.strongRecOn with
    | ind k ih =>
      intro hk hnone
      obtain ⟨hway, -⟩ := pulses_turn (b := b) hposition fun m hm => ih m hm (Nat.lt_trans hm hk)
      rw [halted_unique hnone hhalted, harrived] at hway
      exact advance_ne htarget (htotal ▸ hk) hway.symm
  refine ⟨fun k hk => ?_, hturning, hhalted, harrived⟩
  exact (pulses_turn (b := b) hposition fun m hm => hturning m (Nat.lt_of_lt_of_le hm hk)).1

/-- With a clear way a move with the encoder is halted after its distance, whether the edge of the target's bump has
come up or not. -/
theorem Moving.halted_at (h : Moving direction edge target position position false r) (hposition : OnCircle position)
    (hstandard : Standard target) (hne : position ≠ target) (hedge : OnCircle edge ∧ edge ≠ target)
    (hdistance : direction.distance edge target = 6) (hclear : ClearWay b direction position target) :
    ((OrbFirmware.Polarizer.pulse b)^[direction.distance position target] r).wheel.pwm = none ∧
      ((OrbFirmware.Polarizer.pulse b)^[direction.distance position target] r).position = target := by
  have htarget := hstandard.onCircle
  have hlt := distance_lt direction position target
  have hdest : direction.advance (direction.distance position target) position = target :=
    (advance_eq_iff htarget hlt).mpr rfl
  have hfar : ∀ n, n < direction.distance position target → b.rises direction (direction.advance n position) = true →
      n+6 ≤ direction.distance position target := by
    intro n hn hrises
    have hnear := rises_near (advance_onCircle direction n position) htarget hstandard hrises
    rw [distance_advance hn.le] at hnear
    omega
  by_cases hown : 6 < direction.distance position target ∧
      b.rises direction (direction.advance (direction.distance position target-6) position) = true
  · obtain ⟨k, hk⟩ : ∃ k, direction.distance position target = k+1+6 :=
      ⟨direction.distance position target-7, by omega⟩
    have hrises := hown.2
    rw [hk, Nat.add_sub_cancel] at hrises
    have hfirst : ∀ n, 0 < n → n ≤ k → b.rises direction (direction.advance n position) = false := by
      intro n hn hnk
      refine hclear n hn ?_
      rw [hk]
      simp only [microstepsNotchEdgeToCenter, microstepsPerStep]
      omega
    obtain ⟨hpwm, -, hlast⟩ := h.ends_after_edge hposition htarget hedge hdistance (by omega) hrises hfirst
    rw [← hk] at hpwm hlast
    exact ⟨hpwm, hlast.trans hdest⟩
  · have hnone : ∀ n, 0 < n → n < direction.distance position target →
        b.rises direction (direction.advance n position) = false := by
      intro n hn hlt
      by_contra hrises
      have hrises' : b.rises direction (direction.advance n position) = true := by simpa using hrises
      have hsix := hfar n hlt hrises'
      obtain hbefore | heq := Nat.lt_or_eq_of_le hsix
      · have hno := hclear n hn (by simp only [microstepsNotchEdgeToCenter, microstepsPerStep]; omega)
        exact hrises hno
      · refine hown ⟨by omega, ?_⟩
        rw [← heq, Nat.add_sub_cancel]
        exact hrises'
    obtain ⟨hpwm, -, hlast⟩ := h.ends (b := b) hposition hposition htarget hne fun _ => hnone
    exact ⟨hpwm, hlast.trans hdest⟩

theorem Moving.travels (h : Moving direction edge target position position false r) (hposition : OnCircle position)
    (hstandard : Standard target) (hne : position ≠ target) (hedge : OnCircle edge ∧ edge ≠ target)
    (hdistance : direction.distance edge target = 6) (hclear : ClearWay b direction position target) :
    Travels b r (direction.distance position target) target := by
  obtain ⟨hhalted, harrived⟩ := h.halted_at (b := b) hposition hstandard hne hedge hdistance hclear
  refine travels_of_halted ?_ hstandard.onCircle ?_ hhalted harrived
  · rw [h.position]
    exact hposition
  · rw [h.position, h.direction]

/-! The shorter way. -/

theorem chooseDirection_shortest (hstart : OnCircle start) (htarget : OnCircle target) :
    (chooseDirection start target true).1.distance start target =
      min (Direction.forward.distance start target) (Direction.backward.distance start target) := by
  obtain ⟨hnonneg, hlt⟩ := hstart
  obtain ⟨hnonneg', hlt'⟩ := htarget
  have hturn : (microsteps360Degrees : Int) = 384 := rfl
  rw [hturn] at hlt hlt'
  simp only [chooseDirection, circularSignedDistance, if_true, hturn]
  split_ifs <;> simp only [Direction.distance, Direction.sign, hturn] <;> omega

theorem min_distance_le (start target : Int) :
    2*min (Direction.forward.distance start target) (Direction.backward.distance start target) ≤ microsteps360Degrees := by
  simp only [Direction.distance, Direction.sign, microsteps360Degrees, stepsPerTurn, microstepsPerStep]
  omega

theorem distance_self (direction : Direction) (position : Int) : direction.distance position position = 0 := by
  rw [Direction.distance, Int.sub_self, Int.mul_zero]
  rfl

/-- A wheel that is under way does not travel no distance. -/
theorem Travels.pos {total : Nat} (h : Travels b r total target) (hpwm : r.wheel.pwm ≠ none) : 0 < total := by
  refine Nat.pos_of_ne_zero fun hzero => hpwm ?_
  have hhalted := h.halted
  rw [hzero] at hhalted
  exact hhalted

/-- On the shortest path the wheel travels the smaller of the two distances exactly if it is not at its target already,
or that is a standard position, and if a move with the encoder meets no edge but that of its own bump. -/
theorem shortest_path_iff (b : Bumps) {w : Wheel} {frequency angleDecidegrees : UInt32} (hidle : w.state = .idle)
    (hpwm : w.pwm = none) (hcurrent : OnCircle w.current) (hstepSem : w.stepSem = false) (hencoderSem : w.encoderSem = false)
    (hmeasured : w.calibration.Measured) (hspeed : SpeedAccepted w) (hfrequency : FrequencyAccepted w frequency) :
    let target := targetStepOf angleDecidegrees
    let r : Rig := ⟨(executeSetAngle .ok frequency angleDecidegrees true w).2, w.current⟩
    (∃ total, Travels b r total target ∧ 2*total ≤ microsteps360Degrees ∧
        total = min (Direction.forward.distance w.current target) (Direction.backward.distance w.current target)) ↔
      (w.current = target → angleToPosition angleDecidegrees ≠ .unknown) ∧
        (w.current ≠ target → angleToPosition angleDecidegrees ≠ .unknown → frequency ≠ 0 →
          ClearWay b (chooseDirection w.current target true).1 w.current target) := by
  intro target r
  have htarget : OnCircle target := targetStepOf_onCircle angleDecidegrees
  by_cases hthere : AlreadyThere w angleDecidegrees
  · -- nothing is done
    have hr : r = ⟨recordMove angleDecidegrees w, w.current⟩ :=
      congrArg (Rig.mk · w.current) (executeSetAngle_there hidle hcurrent hthere)
    refine iff_of_true ⟨0, ⟨fun k hk => ?_, fun k hk => absurd hk (Nat.not_lt_zero k), ?_, ?_⟩, Nat.zero_le _, ?_⟩
      ⟨fun _ => hthere.1, fun hne => absurd hthere.2 hne⟩
    · obtain rfl := Nat.le_zero.mp hk
      exact (advance_zero _ hcurrent).symm
    · rw [hr]
      exact hpwm
    · exact hthere.2
    · rw [show w.current = target from hthere.2, distance_self, distance_self]
      rfl
  · by_cases hopen : angleToPosition angleDecidegrees = .unknown ∨ frequency = 0
    · obtain ⟨hloop, hrolling, hto, hdirection⟩ := @openLoop_started w frequency angleDecidegrees true hidle hcurrent
        hstepSem hspeed hfrequency hthere hopen
      have htravels := hrolling.travels (b := b) hloop hcurrent
      rw [hto, hdirection] at htravels
      by_cases hsame : w.current = target
      · -- once around
        have hunknown : angleToPosition angleDecidegrees = .unknown := by
          by_contra hangle
          exact hthere ⟨hangle, hsame⟩
        refine iff_of_false ?_ fun hcond => hcond.1 hsame hunknown
        rintro ⟨total, hshort, -, htotal⟩
        rw [hsame, distance_self, distance_self] at htotal
        have hpos := hshort.pos (htravels.turning 0 (moveLength_pos _ hcurrent htarget))
        omega
      · have hlength : moveLength (chooseDirection w.current target true).1 w.current target =
            (chooseDirection w.current target true).1.distance w.current target := if_neg hsame
        rw [hlength, chooseDirection_shortest hcurrent htarget] at htravels
        refine iff_of_true ⟨_, htravels, min_distance_le _ _, rfl⟩ ⟨fun h => absurd h hsame, fun _ hangle hne => ?_⟩
        obtain hunknown | hzero := hopen
        · exact absurd hunknown hangle
        · exact absurd hzero hne
    · rw [not_or] at hopen
      obtain ⟨hangle, hne⟩ := hopen
      have hsame : w.current ≠ target := fun hsame => hthere ⟨hangle, hsame⟩
      obtain ⟨hmin, hmax⟩ := hfrequency.resolve_left hne
      have hmoving := executeSetAngle_moving true hidle hstepSem hencoderSem hcurrent hmin hmax hangle hsame
      have hstandard : Standard target := targetStepOf_standard hangle
      obtain ⟨hedge, hedgeNe, hdistance⟩ :=
        calculateNotchEdge_eq hmeasured hstandard (chooseDirection w.current target true).1
      constructor
      · rintro ⟨total, htravels, -, -⟩
        refine ⟨fun h => absurd h hsame, fun _ _ _ => ?_⟩
        exact (hmoving.outcome hcurrent hstandard hsame ⟨hedge, hedgeNe⟩ hdistance).1.mp
          ⟨total, htravels.halted, htravels.target⟩
      · rintro ⟨-, hclear⟩
        have htravels := hmoving.travels (b := b) hcurrent hstandard hsame ⟨hedge, hedgeNe⟩ hdistance
          (hclear hsame hangle hne)
        rw [chooseDirection_shortest hcurrent htarget] at htravels
        exact ⟨_, htravels, min_distance_le _ _, rfl⟩

/-- From the pass-through to the horizontal position, backwards. -/
theorem shortest_path_horizontal :
    let r : Rig := ⟨(executeSetAngle .ok 128 2400 true homedWheel).2, 0⟩
    (∃ total, Travels someBumps r total (targetStepOf 2400) ∧ 2*total ≤ microsteps360Degrees ∧
        total = min (Direction.forward.distance 0 (targetStepOf 2400)) (Direction.backward.distance 0 (targetStepOf 2400))) ↔
      (0 = targetStepOf 2400 → angleToPosition 2400 ≠ .unknown) ∧
        (0 ≠ targetStepOf 2400 → angleToPosition 2400 ≠ .unknown → (128 : UInt32) ≠ 0 →
          ClearWay someBumps (chooseDirection 0 (targetStepOf 2400) true).1 0 (targetStepOf 2400)) :=
  shortest_path_iff someBumps rfl rfl (by decide) rfl rfl (by decide) (by decide) (by decide)

/-- A wheel at 90 degrees that is told to go there goes once around. -/
theorem shortest_path_around :
    ¬∃ total, Travels someBumps ⟨(executeSetAngle .ok 128 900 true { homedWheel with current := 96 }).2, 96⟩ total 96 ∧
      2*total ≤ microsteps360Degrees ∧ total = min (Direction.forward.distance 96 96) (Direction.backward.distance 96 96) := by
  rintro ⟨total, htravels, -, htotal⟩
  have hpos := htravels.pos (by decide)
  rw [htotal] at hpos
  exact absurd hpos (by decide)

end OrbFirmware.Polarizer

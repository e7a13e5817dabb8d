import OrbFirmware.Polarizer.Counters

/-! Calibration: what the edges that the thread has read amount to, and when the widths it keeps are taken for good. -/
namespace OrbFirmware.Polarizer

/-! The bumps that a sequence of edges amounts to. -/

/-- What the thread reads at an edge: the counter and the pin. -/
abbrev EdgeSample := Int × Bool

/-- The entry of a bump that is not left yet, and the widths of those that are. -/
def takeSample : Option Int × List UInt32 → EdgeSample → Option Int × List UInt32
  | (_, widths), (position, true) => (some position, widths)
  | (some entry, widths), (position, false) => (none, widths ++ [bumpWidth entry position])
  | (none, widths), (_, false) => (none, widths)

def measured (samples : List EdgeSample) : Option Int × List UInt32 := samples.foldl takeSample (none, [])

/-- The bumps of a position: every fourth one, if its width is not zero. -/
def kept (position : Nat) (p : UInt32 × Nat) : Bool := p.2%4 = position ∧ p.1 ≠ 0

def firstWidth (position : Nat) (widths : List UInt32) : UInt32 :=
  ((widths.zipIdx.filter (kept position)).head?.map Prod.fst).getD 0

/-- Each of the three positions has a width, and not each of them is more than a step. -/
def Undersized (samples : List EdgeSample) : Prop :=
  (∀ position ∈ [0, 2, 3], firstWidth position (measured samples).2 ≠ 0) ∧
    ∃ position ∈ [0, 2, 3], firstWidth position (measured samples).2 ≤ .ofNat microstepsPerStep

instance (samples : List EdgeSample) : Decidable (Undersized samples) := inferInstanceAs (Decidable (_ ∧ _))

/-! The thread and what it has read since the calibration under way has begun. -/

def recordSample (samples : List EdgeSample) (s : WheelThread) : WheelAction → List EdgeSample
  | .thread input =>
    match s.pc with
    | .calibration .start => []
    | .calibration (.edge _ currentPos) => samples ++ [(currentPos, input.pin)]
    | _ => samples
  | _ => samples

def observedStep (t : List EdgeSample × WheelThread) (a : WheelAction) :
    List WheelEvent × List EdgeSample × WheelThread :=
  ((wheelStep t.2 a).1, recordSample t.1 t.2 a, (wheelStep t.2 a).2)

/-- Calibration is complete only with widths of more than a step; as long as it is not, the default distance is used. -/
structure Calibration.Trusted (c : Calibration) : Prop where
  widths : c.calibrationComplete = true →
    .ofNat microstepsPerStep < c.bumpWidthPassThrough ∧ .ofNat microstepsPerStep < c.bumpWidthVertical ∧
      .ofNat microstepsPerStep < c.bumpWidthHorizontal
  fallback : c.calibrationComplete = false →
    ∀ targetStep, getEdgeToCenterForPosition c targetStep = microstepsNotchEdgeToCenter

/-- No calibration is verified on undersized bumps. -/
def Sized (t : List EdgeSample × WheelThread) : WheelAction → Prop
  | .thread _ => t.2.pc = .calibration .verify → ¬Undersized t.1
  | _ => True

instance (t : List EdgeSample × WheelThread) (a : WheelAction) : Decidable (Sized t a) := by
  cases a with
  | thread input => exact inferInstanceAs (Decidable (_ → _))
  | _ => exact isTrue trivial

variable {samples : List EdgeSample} {s s' : WheelThread} {c : Calibration} {widths : List UInt32}

theorem measured_snoc (samples : List EdgeSample) (sample : EdgeSample) :
    measured (samples ++ [sample]) = takeSample (measured samples) sample := by
  rw [measured, List.foldl_append]
  rfl

theorem firstWidth_snoc (position : Nat) (widths : List UInt32) (width : UInt32) :
    firstWidth position (widths ++ [width]) =
      if widths.length%4 = position ∧ firstWidth position widths = 0 then width else firstWidth position widths := by
  have hsplit : (widths ++ [width]).zipIdx = widths.zipIdx ++ [(width, widths.length)] := by
    rw [List.zipIdx_append, List.zipIdx_singleton, Nat.zero_add]
  have hone : firstWidth position widths = 0 ↔ widths.zipIdx.filter (kept position) = [] := by
    constructor
    · intro hzero
      cases hbefore : widths.zipIdx.filter (kept position) with
      | nil => rfl
      | cons first rest =>
        have hmem : first ∈ widths.zipIdx.filter (kept position) := by
          rw [hbefore]
          exact List.mem_cons_self
        have hne := (List.mem_filter.mp hmem).2
        rw [firstWidth, hbefore] at hzero
        exact absurd hzero (of_decide_eq_true hne).2
    · intro hnil
      rw [firstWidth, hnil]
      rfl
  by_cases hzero : firstWidth position widths = 0
  · have hnil := hone.mp hzero
    rw [hzero, firstWidth, hsplit, List.filter_append, hnil, List.nil_append, List.filter_cons, List.filter_nil]
    by_cases hindex : widths.length%4 = position
    · by_cases hwidth : width = 0
      · simp [kept, hwidth]
      · simp [kept, hwidth, hindex]
    · simp [kept, hindex]
  · rw [if_neg fun h => hzero h.2, firstWidth, firstWidth, hsplit, List.filter_append]
    cases hbefore : widths.zipIdx.filter (kept position) with
    | nil => exact absurd (hone.mpr hbefore) hzero
    | cons first rest => rfl

theorem Calibration.Trusted.of_incomplete (h : c.calibrationComplete = false) : c.Trusted := by
  refine ⟨fun hcomplete => ?_, fun _ targetStep => ?_⟩
  · rw [h] at hcomplete
    contradiction
  · rw [getEdgeToCenterForPosition]
    exact if_pos h

/-! What the thread keeps is what the edges amount to. -/

/-- A calibration under way. -/
def MainPc.measuring : MainPc → Bool
  | .calibration .start => false
  | .calibration _ => true
  | _ => false

structure Tracks (samples : List EdgeSample) (s : WheelThread) : Prop where
  incomplete : s.wheel.calibration.calibrationComplete = false
  inside : s.insideBump = (measured samples).1.isSome
  entry : ∀ entry, (measured samples).1 = some entry → s.bumpEntryPosition = entry
  index : s.bumpIndex = (measured samples).2.length%256
  vertical : s.wheel.calibration.bumpWidthVertical = firstWidth 0 (measured samples).2
  horizontal : s.wheel.calibration.bumpWidthHorizontal = firstWidth 2 (measured samples).2
  passThrough : s.wheel.calibration.bumpWidthPassThrough = firstWidth 3 (measured samples).2

structure CalibrationInv (t : List EdgeSample × WheelThread) : Prop where
  trusted : t.2.wheel.calibration.Trusted
  tracks : t.2.pc.measuring = true → Tracks t.1 t.2

/-- What these are about. -/
def WheelThread.tracking (s : WheelThread) : Calibration × Bool × Int × Nat :=
  (s.wheel.calibration, s.insideBump, s.bumpEntryPosition, s.bumpIndex)

theorem Tracks.of_tracking (h : Tracks samples s) (heq : s'.tracking = s.tracking) : Tracks samples s' := by
  simp only [WheelThread.tracking, Prod.mk.injEq] at heq
  obtain ⟨hcalibration, hinside, hentry, hindex⟩ := heq
  constructor
  · rw [hcalibration]
    exact h.incomplete
  · rw [hinside]
    exact h.inside
  · rw [hentry]
    exact h.entry
  · rw [hindex]
    exact h.index
  · rw [hcalibration]
    exact h.vertical
  · rw [hcalibration]
    exact h.horizontal
  · rw [hcalibration]
    exact h.passThrough

theorem recordWidth_fields (bumpIndex : Nat) (width : UInt32) (c : Calibration) :
    (recordWidth bumpIndex width c).calibrationComplete = c.calibrationComplete ∧
    (recordWidth bumpIndex width c).bumpWidthVertical =
      (if bumpIndex%4 = 0 ∧ c.bumpWidthVertical = 0 then width else c.bumpWidthVertical) ∧
    (recordWidth bumpIndex width c).bumpWidthHorizontal =
      (if bumpIndex%4 = 2 ∧ c.bumpWidthHorizontal = 0 then width else c.bumpWidthHorizontal) ∧
    (recordWidth bumpIndex width c).bumpWidthPassThrough =
      (if bumpIndex%4 = 3 ∧ c.bumpWidthPassThrough = 0 then width else c.bumpWidthPassThrough) := by
  unfold recordWidth
  split
  · next hindex => split_ifs <;> simp_all
  · next hindex => split_ifs <;> simp_all
  · next hindex => split_ifs <;> simp_all
  · next hvertical hhorizontal hpassThrough =>
    rw [if_neg fun h => hvertical h.1, if_neg fun h => hhorizontal h.1, if_neg fun h => hpassThrough h.1]
    exact ⟨rfl, rfl, rfl, rfl⟩

/-- A bump is left. -/
theorem Tracks.leave (h : Tracks samples s) (currentPos : Int) {entry : Int} (hinside : (measured samples).1 = some entry) :
    Tracks (samples ++ [(currentPos, false)])
      { s with
        wheel := { s.wheel with
          calibration := recordWidth s.bumpIndex (bumpWidth s.bumpEntryPosition currentPos) s.wheel.calibration }
        bumpIndex := (s.bumpIndex+1)%256
        insideBump := false } := by
  have hmeasured : measured (samples ++ [(currentPos, false)]) =
      (none, (measured samples).2 ++ [bumpWidth s.bumpEntryPosition currentPos]) := by
    rw [measured_snoc, h.entry entry hinside]
    generalize measured samples = m at hinside
    obtain ⟨inside, widths⟩ := m
    obtain rfl := hinside
    rfl
  obtain ⟨hcomplete, hvertical, hhorizontal, hpassThrough⟩ :=
    recordWidth_fields s.bumpIndex (bumpWidth s.bumpEntryPosition currentPos) s.wheel.calibration
  have hfourth : s.bumpIndex%4 = (measured samples).2.length%4 := by
    rw [h.index]
    omega
  rw [hfourth] at hvertical hhorizontal hpassThrough
  constructor
  · exact hcomplete.trans h.incomplete
  · rw [hmeasured]
    rfl
  · rw [hmeasured]
    exact nofun
  · rw [hmeasured, List.length_append]
    dsimp only
    rw [h.index, List.length_singleton]
    omega
  · rw [hmeasured, firstWidth_snoc, ← h.vertical]
    exact hvertical
  · rw [hmeasured, firstWidth_snoc, ← h.horizontal]
    exact hhorizontal
  · rw [hmeasured, firstWidth_snoc, ← h.passThrough]
    exact hpassThrough

/-- An edge is taken. -/
theorem Tracks.edge (h : Tracks samples s) (spin : Nat) (currentPos : Int) (pin : Bool) :
    Tracks (samples ++ [(currentPos, pin)]) (calibrationEdge spin currentPos pin s) := by
  unfold calibrationEdge
  cases pin with
  | true =>
    rw [if_pos rfl]
    have hmeasured : measured (samples ++ [(currentPos, true)]) = (some currentPos, (measured samples).2) := measured_snoc _ _
    refine ⟨h.incomplete, ?_, ?_, ?_, ?_, ?_, ?_⟩
    · rw [hmeasured]
      rfl
    · rw [hmeasured]
      rintro _ ⟨⟩
      rfl
    · rw [hmeasured]
      exact h.index
    · rw [hmeasured]
      exact h.vertical
    · rw [hmeasured]
      exact h.horizontal
    · rw [hmeasured]
      exact h.passThrough
  | false =>
    rw [if_neg Bool.false_ne_true]
    cases hinside : (measured samples).1 with
    | none =>
      have hmeasured : measured (samples ++ [(currentPos, false)]) = measured samples := by
        rw [measured_snoc]
        generalize measured samples = m at hinside
        obtain ⟨inside, widths⟩ := m
        obtain rfl := hinside
        rfl
      have houtside : s.insideBump = false := by rw [h.inside, hinside]; rfl
      rw [if_neg (by simp [houtside])]
      constructor
      · exact h.incomplete
      · rw [hmeasured]
        exact h.inside
      · rw [hmeasured]
        exact h.entry
      · rw [hmeasured]
        exact h.index
      · rw [hmeasured]
        exact h.vertical
      · rw [hmeasured]
        exact h.horizontal
      · rw [hmeasured]
        exact h.passThrough
    | some entry =>
      have hin : s.insideBump = true := by rw [h.inside, hinside]; rfl
      rw [if_pos hin]
      exact (h.leave currentPos hinside).of_tracking rfl

/-- Elsewhere the calibration stays as it is. -/
theorem CalibrationInv.away (h : CalibrationInv (samples, s)) (samples' : List EdgeSample)
    (hcalibration : s'.wheel.calibration = s.wheel.calibration) (haway : s'.pc.measuring = false) :
    CalibrationInv (samples', s') := by
  refine ⟨?_, fun hmeasuring => ?_⟩
  · rw [hcalibration]
    exact h.trusted
  · rw [haway] at hmeasuring
    contradiction

theorem CalibrationInv.of_tracks (h : Tracks samples s) : CalibrationInv (samples, s) :=
  ⟨.of_incomplete h.incomplete, fun _ => h⟩

/-! What leaves the calibration alone. -/

variable {w w' : Wheel}

theorem calibration_of_circle (h : w'.circle = w.circle) : w'.calibration = w.calibration := by
  simp only [Wheel.circle, Prod.mk.injEq] at h
  exact h.2.2.2.1

theorem stepRelative_calibration (d : Drivers) (frequency : UInt32) (stepCount current : Int) (w : Wheel) :
    (polarizerWheelStepRelative d frequency stepCount current w).2.calibration = w.calibration := by
  have hdirected := fun direction => calibration_of_circle (setDirection_circle d direction w)
  rw [polarizerWheelStepRelative]
  split_ifs
  · rfl
  · exact (calibration_of_circle (polarizerRotate_circle d frequency _)).trans (hdirected .backward)
  · exact (calibration_of_circle (polarizerRotate_circle d frequency _)).trans (hdirected .forward)

theorem setAngleStep_calibration (d : Drivers) (s : WheelThread) (pc : SetAnglePc) :
    (setAngleStep d s pc).wheel.calibration = s.wheel.calibration := by
  cases pc with
  | start cmd =>
    simp only [setAngleStep]
    split_ifs <;> rfl
  | direct cmd =>
    have hdirected := calibration_of_circle (setDirection_circle d
      (chooseDirection s.wheel.current (targetStepOf cmd.angleDecidegrees) cmd.shortestPath).1 s.wheel)
    simp only [setAngleStep]
    split
    · exact (calibration_of_circle (enableEncoder_circle d _)).trans hdirected
    · exact hdirected
  | speed cmd useEncoder signedDist => exact calibration_of_circle (chooseSpeed_circle cmd.frequency signedDist s.wheel)
  | rotate cmd useEncoder =>
    simp only [setAngleStep]
    rw [calibration_of_circle (startMoving_circle d useEncoder cmd.frequency _)]

theorem afterEncoder_measuring (command : Bool) : (afterEncoder command).measuring = false := by
  cases command <;> rfl

theorem afterStep_measuring (encoder command : Bool) : (afterStep encoder command).measuring = false := by
  cases encoder with
  | false => exact afterEncoder_measuring command
  | true => rfl

theorem setAngleStep_measuring (d : Drivers) (s : WheelThread) (pc : SetAnglePc) :
    (setAngleStep d s pc).pc.measuring = false := by
  cases pc with
  | start cmd =>
    simp only [setAngleStep]
    split_ifs <;> rfl
  | _ => rfl

theorem homingStep_measuring (input : ThreadInput) (s : WheelThread) {pc : HomingPc} (hpc : s.pc = .homing pc) :
    (homingStep input s pc).pc.measuring = false := by
  cases pc <;> simp only [homingStep]
  case rotate => split <;> rfl
  case wait => split_ifs <;> simp [hpc, MainPc.measuring]
  case countNotch => split_ifs <;> rfl
  case waitPassThrough => split_ifs <;> simp [hpc, MainPc.measuring]
  case settle => split_ifs <;> simp [hpc, MainPc.measuring]
  case clearLast => split <;> rfl
  all_goals rfl

theorem Calibration.Trusted.homingStep (h : s.wheel.calibration.Trusted) (input : ThreadInput) (pc : HomingPc) :
    (homingStep input s pc).wheel.calibration.Trusted := by
  have hsame : ∀ {w' : Wheel}, w'.calibration = s.wheel.calibration → w'.calibration.Trusted := by
    intro w' heq
    rw [heq]
    exact h
  have hrelative := stepRelative_calibration input.drivers spinPwmFrequencyDefault
  cases pc <;> simp only [OrbFirmware.Polarizer.homingStep]
  case start =>
    refine hsame ?_
    rw [calibration_of_circle (setDirection_circle input.drivers .forward _),
      calibration_of_circle (enableEncoder_circle input.drivers _)]
  case rotate attempt current =>
    split
    · exact hsame (hrelative _ _ _)
    · refine hsame ?_
      rw [calibration_of_circle (homingFail_circle input.drivers _)]
      exact hrelative _ _ _
  case wait attempt =>
    split_ifs
    · exact h
    · exact h
    · exact h
    · refine hsame ?_
      rw [calibration_of_circle (homingFail_circle input.drivers _)]
  case countNotch detected =>
    split_ifs
    · exact h
    · exact h
    · refine hsame ?_
      rw [calibration_of_circle (homingFail_circle input.drivers _)]
  case rotateOn current => exact hsame (hrelative _ _ _)
  case waitPassThrough => split_ifs <;> exact h
  case settle => split_ifs <;> exact h
  case halt =>
    refine hsame ?_
    exact calibration_of_circle (disableEncoder_circle input.drivers s.wheel)
  case clearLast => exact ⟨h.widths, h.fallback⟩
  all_goals exact h

/-! The steps of a calibration. -/

theorem undersized_iff (h : Tracks samples s) :
    Undersized samples ↔
      (0 < s.wheel.calibration.bumpWidthPassThrough ∧ 0 < s.wheel.calibration.bumpWidthVertical ∧
        0 < s.wheel.calibration.bumpWidthHorizontal) ∧ allMeasured s.wheel.calibration = false := by
  have hpositive : ∀ width : UInt32, 0 < width ↔ width ≠ 0 := fun width => UInt32.pos_iff_ne_zero
  have hsmall : ∀ width : UInt32, width ≤ .ofNat microstepsPerStep ↔ ¬(.ofNat microstepsPerStep < width) :=
    fun width => UInt32.not_lt.symm
  simp only [Undersized, List.mem_cons, List.not_mem_nil, or_false, forall_eq_or_imp, forall_eq, exists_eq_or_imp,
    exists_eq_left, ← h.vertical, ← h.horizontal, ← h.passThrough, hpositive, hsmall, allMeasured, Bool.and_eq_false_iff,
    decide_eq_false_iff_not]
  rw [or_assoc]
  exact and_congr and_rotate.symm or_rotate.symm

theorem verify_trusted_iff (h : Tracks samples s) (input : ThreadInput) :
    (calibrationStep input s .verify).wheel.calibration.Trusted ↔ ¬Undersized samples := by
  rw [undersized_iff h]
  simp only [calibrationStep]
  by_cases hpositive : 0 < s.wheel.calibration.bumpWidthPassThrough ∧ 0 < s.wheel.calibration.bumpWidthVertical ∧
      0 < s.wheel.calibration.bumpWidthHorizontal
  · have hall : allMeasured s.wheel.calibration = true ↔
        .ofNat microstepsPerStep < s.wheel.calibration.bumpWidthPassThrough ∧
          .ofNat microstepsPerStep < s.wheel.calibration.bumpWidthVertical ∧
          .ofNat microstepsPerStep < s.wheel.calibration.bumpWidthHorizontal := by
      simp only [allMeasured, Bool.and_eq_true, decide_eq_true_eq, and_assoc]
    simp only [hpositive, and_self, true_and, Bool.not_eq_false, decide_true, hall]
    exact ⟨fun htrusted => htrusted.widths rfl, fun hwidths => ⟨fun _ => hwidths, by simp⟩⟩
  · simp only [hpositive, false_and, not_false_eq_true, iff_true]
    exact .of_incomplete rfl

/-- The edges that are on record after a step of the calibration. -/
def CalibrationPc.recorded (samples : List EdgeSample) (pin : Bool) : CalibrationPc → List EdgeSample
  | .start => []
  | .edge _ currentPos => samples ++ [(currentPos, pin)]
  | _ => samples

theorem CalibrationInv.calibrationStep (h : CalibrationInv (samples, s)) (input : ThreadInput) {pc : CalibrationPc}
    (hpc : s.pc = .calibration pc) (hsized : pc = .verify → ¬Undersized samples) :
    CalibrationInv (recordSample samples s (.thread input), calibrationStep input s pc) := by
  have htracks : pc ≠ .start → Tracks samples s := fun hstart => h.tracks (by rw [hpc]; cases pc <;> trivial)
  have hsame : recordSample samples s (.thread input) = pc.recorded samples input.pin := by
    simp only [recordSample, hpc]
    cases pc <;> rfl
  rw [hsame]
  have hrelative := stepRelative_calibration input.drivers spinPwmFrequencyDefault
  cases pc with
  | start =>
    have hempty : ∀ calibration needsCalibration, calibration = ⟨0, 0, 0, false, needsCalibration⟩ →
        ∀ w' : Wheel, w'.calibration = calibration → ∀ pc,
          Tracks [] { s with wheel := w', bumpIndex := 0, bumpEntryPosition := 0, insideBump := false, pc } := by
      rintro _ needsCalibration rfl w' hcalibration pc
      refine ⟨?_, rfl, fun _ hentry => absurd hentry (by simp [measured]), rfl, ?_, ?_, ?_⟩
      · rw [hcalibration]
      · rw [hcalibration]
        rfl
      · rw [hcalibration]
        rfl
      · rw [hcalibration]
        rfl
    simp only [OrbFirmware.Polarizer.calibrationStep]
    split_ifs
    · exact h.away [] rfl rfl
    · exact .of_tracks (hempty _ _ rfl _ (calibration_of_circle (setDirection_circle input.drivers .forward _)) _)
    · exact .of_tracks (hempty _ _ rfl _ rfl _)
  | readStart spin => exact .of_tracks ((htracks (by simp)).of_tracking rfl)
  | rotate spin current =>
    have hkeeps := hrelative (microsteps360Degrees*3/4 : Nat) current s.wheel
    simp only [OrbFirmware.Polarizer.calibrationStep]
    split
    · refine .of_tracks ((htracks (by simp)).of_tracking ?_)
      simp only [WheelThread.tracking, hkeeps]
    · refine .of_tracks ((htracks (by simp)).of_tracking ?_)
      simp only [WheelThread.tracking, hkeeps]
  | wait spin =>
    simp only [OrbFirmware.Polarizer.calibrationStep]
    split_ifs
    · exact .of_tracks ((htracks (by simp)).of_tracking rfl)
    · exact .of_tracks ((htracks (by simp)).of_tracking rfl)
    · exact .of_tracks ((htracks (by simp)).of_tracking rfl)
  | readEdge spin => exact .of_tracks ((htracks (by simp)).of_tracking rfl)
  | edge spin currentPos => exact .of_tracks ((htracks (by simp)).edge spin currentPos input.pin)
  | readStopped spin => exact .of_tracks ((htracks (by simp)).of_tracking rfl)
  | stopped spin current => exact .of_tracks ((htracks (by simp)).of_tracking rfl)
  | halt spin done => exact .of_tracks ((htracks (by simp)).of_tracking rfl)
  | verify => exact ⟨(verify_trusted_iff (htracks (by simp)) input).mpr (hsized rfl), fun hmeasuring => absurd hmeasuring Bool.false_ne_true⟩

theorem CalibrationInv.mainStep (h : CalibrationInv (samples, s)) (input : ThreadInput)
    (hsized : s.pc = .calibration .verify → ¬Undersized samples) :
    CalibrationInv (recordSample samples s (.thread input), mainStep input s) := by
  rw [OrbFirmware.Polarizer.mainStep]
  cases hpc : s.pc with
  | calibration pc =>
    refine h.calibrationStep input hpc ?_
    rintro rfl
    exact hsized hpc
  | homing pc =>
    refine ⟨h.trusted.homingStep input pc, fun hmeasuring => ?_⟩
    dsimp only at hmeasuring
    rw [homingStep_measuring input s hpc] at hmeasuring
    contradiction
  | setAngle pc => exact h.away _ (setAngleStep_calibration input.drivers s pc) (setAngleStep_measuring input.drivers s pc)
  | poll => exact h.away _ rfl (by rw [hpc]; rfl)
  | takeStep encoder command =>
    dsimp only
    split
    · exact h.away _ rfl rfl
    · exact h.away _ rfl rfl
    · exact h.away _ rfl rfl
    · exact h.away _ rfl (afterStep_measuring encoder command)
    · exact h.away _ rfl (afterStep_measuring encoder command)
    · exact h.away _ rfl (afterStep_measuring encoder command)
  | readStep encoder command => exact h.away _ rfl rfl
  | processStep currentPos encoder command =>
    have hsame := calibration_of_circle (processStepEvent_circle input.drivers currentPos s.wheel)
    exact h.away _ hsame (afterStep_measuring encoder command)
  | takeEncoder command =>
    dsimp only
    split
    · exact h.away _ rfl rfl
    · exact h.away _ rfl (afterEncoder_measuring command)
  | readEncoder command => exact h.away _ rfl rfl
  | correct currentPosition command => exact h.away _ rfl (afterEncoder_measuring command)
  | takeCommand => exact h.away _ rfl rfl
  | readType => exact h.away _ rfl rfl
  | clearType cmd => cases cmd <;> exact h.away _ rfl rfl
  | readFrequency => exact h.away _ rfl rfl
  | readAngle frequency => exact h.away _ rfl rfl
  | readPath frequency angleDecidegrees => exact h.away _ rfl rfl

/-- What only touches the wheel and leaves the calibration alone. -/
theorem CalibrationInv.onWheel (h : CalibrationInv (samples, s)) (hcalibration : w'.calibration = s.wheel.calibration) :
    CalibrationInv (samples, { s with wheel := w' }) := by
  refine ⟨?_, fun hmeasuring => ?_⟩
  · dsimp only
    rw [hcalibration]
    exact h.trusted
  · refine (h.tracks hmeasuring).of_tracking ?_
    simp only [WheelThread.tracking, hcalibration]

variable {t : List EdgeSample × WheelThread}

theorem CalibrationInv.step (h : CalibrationInv t) (a : WheelAction) (hsized : Sized t a) :
    CalibrationInv (observedStep t a).2 := by
  obtain ⟨samples, s⟩ := t
  cases a with
  | thread input => exact h.mainStep input hsized
  | poll step encoder command =>
    simp only [observedStep, wheelStep, pollReturns, recordSample]
    split
    · split
      · exact h.away _ rfl rfl
      · exact h.away _ rfl (afterStep_measuring _ _)
    · exact h
  | stepInterrupt =>
    simp only [observedStep, wheelStep, recordSample]
    split
    · exact h.onWheel rfl
    · exact h
  | encoderInterrupt pin =>
    have hcalibration : (encoderCallback pin s.wheel).calibration = s.wheel.calibration := by
      rw [encoderCallback]
      split
      · rfl
      · split <;> rfl
    simp only [observedStep, wheelStep, recordSample]
    split
    · exact h.onWheel hcalibration
    · exact h
  | store new =>
    simp only [observedStep, wheelStep, recordSample]
    split
    · cases new <;> exact h.onWheel rfl
    · exact h
  | post => exact h.onWheel rfl
  | setAcceleration stepsPerS2 => exact h.onWheel rfl
  | setMaxSpeed msPerTurn => exact h.onWheel rfl

theorem CalibrationInv.start : CalibrationInv ([], wheelThreadInit) := ⟨.of_incomplete rfl, nofun⟩

/-- A calibration that is verified on undersized bumps is taken for complete. -/
theorem CalibrationInv.untrusted (h : CalibrationInv t) (a : WheelAction) (hnot : ¬Sized t a) :
    ¬(observedStep t a).2.2.wheel.calibration.Trusted := by
  obtain ⟨samples, s⟩ := t
  cases a with
  | thread input =>
    simp only [Sized, Classical.not_imp, not_not] at hnot
    obtain ⟨hpc, hundersized⟩ := hnot
    have htracks : Tracks samples s := h.tracks (by rw [hpc]; rfl)
    have hstep : (wheelStep s (.thread input)).2 = OrbFirmware.Polarizer.calibrationStep input s .verify := by
      rw [wheelStep, OrbFirmware.Polarizer.mainStep, hpc]
    rw [observedStep, hstep]
    exact fun htrusted => (verify_trusted_iff htracks input).mp htrusted hundersized
  | _ => exact absurd trivial hnot

theorem observed_run (t : List EdgeSample × WheelThread) (actions : List WheelAction) :
    (Machine.run observedStep t actions).2.2 = (Machine.run wheelStep t.2 actions).2 := by
  induction actions generalizing t with
  | nil => rfl
  | cons a actions ih =>
    rw [Machine.run_cons, Machine.run_cons]
    exact ih _

/-- In a run from the start calibration is complete only with widths of more than a step, and the default distance used
until then, exactly if none is verified on edges that amount to an undersized bump. -/
theorem calibration_valid_iff (actions : List WheelAction) :
    (∀ pre, pre <+: actions → (Machine.run wheelStep wheelThreadInit pre).2.wheel.calibration.Trusted) ↔
      Machine.Meets observedStep Sized ([], wheelThreadInit) actions := by
  have hrun : ∀ pre, (Machine.run wheelStep wheelThreadInit pre).2 =
      (Machine.run observedStep ([], wheelThreadInit) pre).2.2 :=
    fun pre => (observed_run ([], wheelThreadInit) pre).symm
  simp only [hrun]
  have hP : ∀ t, CalibrationInv t → t.2.wheel.calibration.Trusted := fun _ h => h.trusted
  have hstep : ∀ t a, CalibrationInv t → Sized t a → CalibrationInv (observedStep t a).2 :=
    fun _ a h hsized => h.step a hsized
  have hnot : ∀ t a, CalibrationInv t → ¬Sized t a → ¬(observedStep t a).2.2.wheel.calibration.Trusted :=
    fun _ a h hnot => h.untrusted a hnot
  exact Machine.forall_prefix_iff hP hstep hnot _ actions .start

def threadSteps (n : Nat) (timedOut pin : Bool) : List WheelAction := List.replicate n (.thread ⟨.ok, timedOut, pin⟩)

/-- The first homing after the start, with the close pair 25 microsteps apart, up to the first wait of the calibration. -/
def homedAtFirst : List WheelAction :=
  [.store (.type .home), .post, .poll false false true] ++ threadSteps 7 false false ++
    [.encoderInterrupt true] ++ threadSteps 6 false false ++ List.replicate 25 .stepInterrupt ++
    [.encoderInterrupt true] ++ threadSteps 5 false false ++ threadSteps 7 true false

def bumpPasses (width : Nat) : List WheelAction :=
  [.encoderInterrupt true] ++ threadSteps 5 false true ++ List.replicate width .stepInterrupt ++
    [.encoderInterrupt false] ++ threadSteps 5 false false

/-- Four bumps pass, and both spins end. -/
def bumpsPass (width : Nat) : List WheelAction :=
  homedAtFirst ++ bumpPasses width ++ bumpPasses width ++ bumpPasses width ++ bumpPasses width ++ threadSteps 7 true false

example : Machine.Meets observedStep Sized ([], wheelThreadInit) (bumpsPass 12) := by decide +kernel

/-- Bumps of half a step, which the spins do not end for, are taken nevertheless. -/
theorem calibration_takes_undersized :
    ¬(Machine.run wheelStep wheelThreadInit (bumpsPass 4)).2.wheel.calibration.Trusted := by
  intro htrusted
  have hcomplete : (Machine.run wheelStep wheelThreadInit (bumpsPass 4)).2.wheel.calibration.calibrationComplete = true := by
    decide +kernel
  exact absurd (htrusted.widths hcomplete) (by decide +kernel)

end OrbFirmware.Polarizer

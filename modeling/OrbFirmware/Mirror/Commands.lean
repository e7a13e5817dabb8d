import OrbFirmware.Mirror.Angles
import OrbFirmware.Runner.Calls

/-! The two-axis mirror commands of the Jetson: the phi axis first, then the theta axis. -/
namespace OrbFirmware.Mirror
open Runner (Call RetCall Context BuildConfig ErrorCode JetsonToMcu MirrorAngle MirrorAngleRelative Acknowledged
  EndsWith carryOut runHandler handleJetsonCmd inSequence)

/-- The mirror, with the axes whose motors have been sent to a position (`mirror_set_stepper_position`). -/
structure CommandedMirror where
  motors : Motors
  commanded : List Motor

/-- A function that ends in `mirror_set_angle_from_center`. -/
def axisCall (motor : Motor) (f : Motor → Motors → Calc (RetCode × Motors)) (s : CommandedMirror) :
    Int × CommandedMirror :=
  let (ret, motors) := (f motor s.motors).value
  (ret.value, ⟨motors, if ret = .success then s.commanded ++ [motor] else s.commanded⟩)

def mirrorCalls (b : Board) (trig : Trigonometry) : RetCall → Option (CommandedMirror → Int × CommandedMirror)
  | .mirrorSetAnglePhi angle => some (axisCall .phi (mirrorSetAngle b trig angle))
  | .mirrorSetAngleTheta angle => some (axisCall .theta (mirrorSetAngle b trig angle))
  | .mirrorSetAnglePhiRelative angle => some (axisCall .phi (mirrorSetAngleRelative b trig angle))
  | .mirrorSetAngleThetaRelative angle => some (axisCall .theta (mirrorSetAngleRelative b trig angle))
  | _ => none

inductive MirrorCommand where
  | absolute (msg : MirrorAngle)
  | relative (msg : MirrorAngleRelative)

def MirrorCommand.toJetson : MirrorCommand → JetsonToMcu
  | .absolute msg => .mirrorAngle msg
  | .relative msg => .mirrorAngleRelative msg

/-- What one axis is asked for. -/
inductive AxisAngle where
  | absolute (angleMillidegrees : UInt32)
  | relative (angleMillidegrees : Int32)

/-- The angles of the phi and the theta axis. -/
def MirrorCommand.axes : MirrorCommand → Option (AxisAngle × AxisAngle)
  | .absolute msg =>
    match msg.angleType with
    | .horizontalVertical =>
      some (.absolute (-((msg.horizontalAngle.toInt32-45000)/2)+45000).toUInt32, .absolute (msg.verticalAngle/2+90000).toUInt32)
    | .phiTheta => some (.absolute msg.phiAngleMillidegrees, .absolute msg.thetaAngleMillidegrees)
    | .other _ => none
  | .relative msg =>
    match msg.angleType with
    | .horizontalVertical => some (.relative (-(msg.horizontalAngle/2)), .relative (msg.verticalAngle/2))
    | .phiTheta => some (.relative msg.phiAngleMillidegrees, .relative msg.thetaAngleMillidegrees)
    | .other _ => none

/-- The motor is ready, and an absolute angle is in the range of its axis. -/
def AxisAngle.Valid (b : Board) (motor : Motor) (s : Motors) (angle : AxisAngle) : Prop :=
  (s.motorsRefs motor).motorState = .success ∧
    match angle with
    | .absolute angle => mirrorCheckAngle b angle motor = .success
    | .relative _ => True

/-- The phi axis takes its angle, and the theta axis refuses its own. -/
def MirrorCommand.ThetaRefused (b : Board) (s : Motors) (command : MirrorCommand) : Prop :=
  ∃ phi theta, command.axes = some (phi, theta) ∧ phi.Valid b .phi s ∧ ¬theta.Valid b .theta s

/-! One axis. -/

def AxisAngle.call (b : Board) (trig : Trigonometry) (motor : Motor) : AxisAngle → CommandedMirror → Int × CommandedMirror
  | .absolute angle => axisCall motor (mirrorSetAngle b trig angle)
  | .relative angle => axisCall motor (mirrorSetAngleRelative b trig angle)

variable {b : Board} {trig : Trigonometry} {motor : Motor} {s : CommandedMirror}

/-- What a call for an axis does: it refuses and changes nothing, or commands the axis and leaves the other alone. -/
structure AxisOutcome (motor : Motor) (valid : Prop) (s : CommandedMirror) (r : Int × CommandedMirror) : Prop where
  success : r.1 = RetCode.success.value ↔ valid
  refused : ¬valid → r.2 = s
  commanded : valid → r.2.commanded = s.commanded ++ [motor]
  other : ∀ axis ≠ motor, r.2.motors.motorsRefs axis = s.motors.motorsRefs axis ∧
    r.2.motors.xtarget axis = s.motors.xtarget axis

theorem AxisOutcome.congr {valid valid' : Prop} {r : Int × CommandedMirror} (h : AxisOutcome motor valid s r)
    (hiff : valid ↔ valid') : AxisOutcome motor valid' s r :=
  ⟨h.success.trans hiff, fun hvalid => h.refused (mt hiff.mp hvalid), fun hvalid => h.commanded (hiff.mpr hvalid),
    h.other⟩

theorem AxisOutcome.of_refused {valid : Prop} {ret : RetCode} (hret : ret ≠ .success) (h : ¬valid) :
    AxisOutcome motor valid s (ret.value, ⟨s.motors, if ret = .success then s.commanded ++ [motor] else s.commanded⟩) where
  success := iff_of_false (fun hsuccess => hret (Runner.value_inj.mp hsuccess)) h
  refused _ := by rw [if_neg hret]
  commanded hvalid := absurd hvalid h
  other _ _ := ⟨rfl, rfl⟩

theorem axisCall_fromCenter (millidegrees : Int) :
    AxisOutcome motor ((s.motors.motorsRefs motor).motorState = .success) s
      (axisCall motor (mirrorSetAngleFromCenter b trig millidegrees) s) := by
  by_cases hready : (s.motors.motorsRefs motor).motorState = .success
  · rw [axisCall, mirrorSetAngleFromCenter, if_neg (not_not.mpr hready)]
    refine ⟨iff_of_true rfl hready, absurd hready, fun _ => rfl, fun axis haxis => ?_⟩
    exact ⟨Function.update_of_ne haxis _ _, Function.update_of_ne haxis _ _⟩
  · rw [axisCall, mirrorSetAngleFromCenter, if_pos hready]
    exact .of_refused hready hready

theorem AxisAngle.outcome (trig : Trigonometry) (motor : Motor) (angle : AxisAngle) (s : CommandedMirror) :
    AxisOutcome motor (angle.Valid b motor s.motors) s (angle.call b trig motor s) := by
  cases angle with
  | absolute angle =>
    by_cases hrange : mirrorCheckAngle b angle motor = .success
    · have hcall : AxisAngle.call b trig motor (.absolute angle) s = axisCall motor (mirrorSetAngleFromCenter b trig
          (Calc.int32 (angle.toNat-mirrorCenterAngle motor)).value) s := by
        simp only [AxisAngle.call, axisCall, mirrorSetAngle, hrange]
        rfl
      rw [hcall]
      exact (axisCall_fromCenter _).congr (and_iff_left hrange).symm
    · rw [AxisAngle.call, axisCall, mirrorSetAngle, if_pos hrange]
      exact .of_refused hrange fun hvalid => hrange hvalid.2
  | relative angle =>
    have hcall : AxisAngle.call b trig motor (.relative angle) s = axisCall motor (mirrorSetAngleFromCenter b trig
        (targetAngleFromCenter b trig angle motor s.motors).value) s := by
      simp only [AxisAngle.call, axisCall, mirrorSetAngleRelative, Calc.bind_value]
      rfl
    rw [hcall]
    exact (axisCall_fromCenter _).congr (and_iff_left trivial).symm

theorem AxisAngle.valid_congr {motors motors' : Motors} (h : motors'.motorsRefs motor = motors.motorsRefs motor)
    (angle : AxisAngle) : angle.Valid b motor motors' ↔ angle.Valid b motor motors := by
  simp only [AxisAngle.Valid, h]

/-! Both axes. -/

def AxisAngle.phiCall : AxisAngle → RetCall
  | .absolute angle => .mirrorSetAnglePhi angle
  | .relative angle => .mirrorSetAnglePhiRelative angle

def AxisAngle.thetaCall : AxisAngle → RetCall
  | .absolute angle => .mirrorSetAngleTheta angle
  | .relative angle => .mirrorSetAngleThetaRelative angle

theorem handleJetsonCmd_mirror (cfg : BuildConfig) (command : MirrorCommand) (job : Context) :
    handleJetsonCmd cfg command.toJetson job =
      match command.axes with
      | some (phi, theta) => Runner.ackMirrorAngles phi.phiCall theta.thetaCall job
      | none => Runner.jobAck .fail job := by
  cases command with
  | absolute msg =>
    simp only [MirrorCommand.toJetson, MirrorCommand.axes, handleJetsonCmd, Runner.handleMessageCallbacks,
      Runner.handleMirrorAngleMessage]
    cases msg.angleType <;> rfl
  | relative msg =>
    simp only [MirrorCommand.toJetson, MirrorCommand.axes, handleJetsonCmd, Runner.handleMessageCallbacks,
      Runner.handleMirrorAngleRelativeMessage]
    cases msg.angleType <;> rfl

/-- What the calls of the two axes leave. -/
structure BothOutcome (b : Board) (phi theta : AxisAngle) (s : CommandedMirror) (r : Int × CommandedMirror) : Prop where
  success : r.1 = RetCode.success.value ↔ phi.Valid b .phi s.motors ∧ theta.Valid b .theta s.motors
  phiRefused : ¬phi.Valid b .phi s.motors → r.2 = s
  thetaRefused : phi.Valid b .phi s.motors → ¬theta.Valid b .theta s.motors →
    r.2.commanded = s.commanded ++ [.phi] ∧ r.2.motors.motorsRefs .theta = s.motors.motorsRefs .theta ∧
      r.2.motors.xtarget .theta = s.motors.xtarget .theta

theorem inSequence_outcome (b : Board) (trig : Trigonometry) (answer : (c : Call) → c.Answer) (phi theta : AxisAngle)
    (s : CommandedMirror) :
    BothOutcome b phi theta s
      (inSequence (fun f => carryOut answer (mirrorCalls b trig) (.ret f)) phi.phiCall theta.thetaCall s) := by
  have hphi : (carryOut answer (mirrorCalls b trig) (.ret phi.phiCall) s) = phi.call b trig .phi s := by
    cases phi <;> rfl
  have htheta (t : CommandedMirror) :
      (carryOut answer (mirrorCalls b trig) (.ret theta.thetaCall) t) = theta.call b trig .theta t := by
    cases theta <;> rfl
  have hfirst := phi.outcome (b := b) trig .phi s
  simp only [inSequence, hphi, htheta]
  by_cases hvalid : phi.Valid b .phi s.motors
  · rw [if_pos (hfirst.success.mpr hvalid)]
    obtain ⟨hrefs, htarget⟩ := hfirst.other .theta nofun
    have hsecond := theta.outcome (b := b) trig .theta (phi.call b trig .phi s).2
    have hiff := AxisAngle.valid_congr (b := b) hrefs theta
    refine ⟨(hsecond.success.trans hiff).trans (and_iff_right hvalid).symm, absurd hvalid, fun _ hnot => ?_⟩
    rw [hsecond.refused (mt hiff.mp hnot)]
    exact ⟨hfirst.commanded hvalid, hrefs, htarget⟩
  · rw [if_neg (mt hfirst.success.mp hvalid)]
    exact ⟨iff_of_false (mt hfirst.success.mp hvalid) fun h => hvalid h.1, hfirst.refused, fun h => absurd h hvalid⟩

/-- With an error, nothing has been commanded, or the phi axis alone, since the theta axis refused its angle. -/
theorem ackMirrorAngles_error {answer : (c : Call) → c.Answer} {phi theta : AxisAngle} {job : Context}
    {code : ErrorCode} (herror : code ≠ .success) (hack : Acknowledged job code (runHandler answer
      (mirrorCalls b trig) (Runner.ackMirrorAngles phi.phiCall theta.thetaCall job) s).1) :
    let s' := (runHandler answer (mirrorCalls b trig) (Runner.ackMirrorAngles phi.phiCall theta.thetaCall job) s).2
    s' = s ∨ (phi.Valid b .phi s.motors ∧ ¬theta.Valid b .theta s.motors) ∧ s'.commanded = s.commanded ++ [.phi] ∧
      s'.motors.motorsRefs .theta = s.motors.motorsRefs .theta ∧ s'.motors.xtarget .theta = s.motors.xtarget .theta := by
  intro s'
  have hend := EndsWith.ackMirrorAngles answer (mirrorCalls b trig) job phi.phiCall theta.thetaCall s
  have houtcome := inSequence_outcome b trig answer phi theta s
  cases hhoming : answer (.bool .mirrorAutoHomingInProgress) with
  | true =>
    rw [hhoming, if_pos rfl] at hend
    exact .inl hend.state
  | false =>
    rw [hhoming, if_neg nofun] at hend
    have hcode := ((hend.acknowledged code).mp hack).2
    have hs' : s' = _ := hend.state
    by_cases hphi : phi.Valid b .phi s.motors
    · have htheta : ¬theta.Valid b .theta s.motors := by
        intro htheta
        rw [houtcome.success.mpr ⟨hphi, htheta⟩] at hcode
        exact herror hcode
      rw [hs']
      exact .inr ⟨⟨hphi, htheta⟩, houtcome.thetaRefused hphi htheta⟩
    · exact .inl (hs'.trans (houtcome.phiRefused hphi))

/-- What a command leaves that is acknowledged with an error: the theta axis has not been commanded, and the phi axis
only where it took its angle and the theta axis refused its own. -/
theorem mirror_error_partial (cfg : BuildConfig) (trig : Trigonometry) (answer : (c : Call) → c.Answer)
    (command : MirrorCommand) (job : Context) (s : CommandedMirror) (code : ErrorCode) (herror : code ≠ .success)
    (hack : Acknowledged job code
      (runHandler answer (mirrorCalls cfg.board trig) (handleJetsonCmd cfg command.toJetson job) s).1) :
    let s' := (runHandler answer (mirrorCalls cfg.board trig) (handleJetsonCmd cfg command.toJetson job) s).2
    s' = s ∨ command.ThetaRefused cfg.board s.motors ∧ s'.commanded = s.commanded ++ [.phi] ∧
      s'.motors.motorsRefs .theta = s.motors.motorsRefs .theta ∧ s'.motors.xtarget .theta = s.motors.xtarget .theta := by
  rw [handleJetsonCmd_mirror] at hack ⊢
  cases haxes : command.axes with
  | none => exact .inl (EndsWith.jobAck answer (mirrorCalls cfg.board trig) job .fail s).state
  | some axes =>
    obtain ⟨phi, theta⟩ := axes
    rw [haxes] at hack
    obtain hsame | ⟨hvalid, hcommanded⟩ := ackMirrorAngles_error herror hack
    · exact .inl hsame
    · exact .inr ⟨⟨phi, theta, haxes, hvalid⟩, hcommanded⟩

def canJob : Context := ⟨.canJetsonMessaging, 0x80, 1⟩

/-- On Pearl, phi to its centre and theta to 0 degrees, which is out of its range. -/
def mixedCommand : MirrorCommand := .absolute ⟨.phiTheta, 0, 0, 45000, 0⟩

def mixedRun : List Runner.Event × CommandedMirror :=
  runHandler Runner.zeroAnswer (mirrorCalls .pearl smallAngles)
    (handleJetsonCmd ⟨.pearl, false, false, false, false⟩ mixedCommand.toJetson canJob) ⟨centered .pearl, []⟩

theorem mirror_error_partial_mixed : Acknowledged canJob .range mixedRun.1 ∧
    (mixedRun.2 = ⟨centered .pearl, []⟩ ∨ mixedCommand.ThetaRefused .pearl (centered .pearl) ∧
      mixedRun.2.commanded = [.phi] ∧
      mixedRun.2.motors.motorsRefs .theta = (centered .pearl).motorsRefs .theta ∧
      mixedRun.2.motors.xtarget .theta = (centered .pearl).xtarget .theta) :=
  ⟨by decide +kernel, mirror_error_partial ⟨.pearl, false, false, false, false⟩ smallAngles Runner.zeroAnswer mixedCommand
    canJob ⟨centered .pearl, []⟩ .range (by decide) (by decide +kernel)⟩

/-- The command is acknowledged with an error, and the phi axis has been commanded. -/
theorem mixed_command_moves_phi : ¬∀ (cfg : BuildConfig) (trig : Trigonometry) (answer : (c : Call) → c.Answer)
    (command : MirrorCommand) (job : Context) (s : CommandedMirror) (code : ErrorCode), code ≠ .success →
    Acknowledged job code
      (runHandler answer (mirrorCalls cfg.board trig) (handleJetsonCmd cfg command.toJetson job) s).1 →
    (runHandler answer (mirrorCalls cfg.board trig) (handleJetsonCmd cfg command.toJetson job) s).2.commanded =
      s.commanded := by
  intro h
  have hsame := h ⟨.pearl, false, false, false, false⟩ smallAngles Runner.zeroAnswer mixedCommand canJob
    ⟨centered .pearl, []⟩ .range (by decide) (by decide +kernel)
  exact absurd hsame (by decide +kernel)

end OrbFirmware.Mirror

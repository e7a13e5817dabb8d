import OrbFirmware.IrCamera.Sweeps

/-! The frames of a sweep, and what the lens is set to for each of them. A sweep begins in a thread that the interrupt of
the camera trigger may come in between of. -/
namespace OrbFirmware.IrCamera

/-- `pulseEnds` is the interrupt of the trigger timer at the end of a pulse; `enableCamera` is the rest of the call that
has begun the sweep. -/
inductive SweepAction where
  | enableCamera
  | pulseEnds
  | strobe (level : Bool) (counter : UInt32)
  | timeout

/-- `frame` and `untriggered` are the pulses that end in a sweep, with the channel of the camera on or off;
`mirrorSetAngles` are the two asynchronous commands to the mirror. -/
inductive SweepEvent where
  | focusValueRead (index : Nat)
  | mirrorSetAngles (phiMillidegrees thetaMillidegrees : Int)
  | frame (targetCurrentMa : Int)
  | untriggered
  deriving DecidableEq

inductive SweepKind where
  | focus
  | mirror
  deriving DecidableEq

/-- The camera system with the setpoints of its sweeps and the lens. -/
structure SweepRig (π ρ : Type) where
  ir : IrCameraState
  globalFocusValues : List Int16
  useFocusSweepPolynomial : Bool
  focusSweepPolynomial : π
  mirrorSweepPolynomial : ρ
  initialMirrorAnglePhiMillidegrees : UInt32
  initialMirrorAngleThetaMillidegrees : UInt32
  targetCurrentMa : Int

/-- `liquid_set_target_current_ma`. -/
def liquidSetTargetCurrentMa (newTargetCurrentMa : Int) : Int := max (-400) (min newTargetCurrentMa 400)

section Model
variable {π ρ : Type} (evaluateFocus : π → Nat → Int) (evaluateMirror : ρ → Nat → Int × Int) (b : Board)
  (maxNumberOfFocusValues : Nat)

/-- `ir_camera_system_set_focus_values_for_focus_sweep`; the whole array is copied. -/
def setFocusValues (focusValues : List Int16) (numFocusValues : Nat) (r : SweepRig π ρ) : RetCode × SweepRig π ρ :=
  let (ret, ir) := irCameraSystemSetFocusValues maxNumberOfFocusValues numFocusValues r.ir
  if ret ≠ .success then (ret, r)
  else
    (ret, { r with ir, globalFocusValues := focusValues.take maxNumberOfFocusValues, useFocusSweepPolynomial := false })

def setFocusPolynomial (poly : π) (numberOfFrames : UInt32) (r : SweepRig π ρ) : RetCode × SweepRig π ρ :=
  let (ret, ir) := irCameraSystemSetFocusPolynomial numberOfFrames r.ir
  if ret ≠ .success then (ret, r)
  else (ret, { r with ir, useFocusSweepPolynomial := true, focusSweepPolynomial := poly })

def setMirrorPolynomial (poly : ρ) (numberOfFrames : UInt32) (r : SweepRig π ρ) : RetCode × SweepRig π ρ :=
  let (ret, ir) := irCameraSystemSetMirrorPolynomial numberOfFrames r.ir
  if ret ≠ .success then (ret, r)
  else (ret, { r with ir, mirrorSweepPolynomial := poly })

/-- The setpoint of a frame of a focus sweep. -/
def SweepRig.setpoint (r : SweepRig π ρ) (frame : Nat) : Int :=
  if r.useFocusSweepPolynomial then evaluateFocus r.focusSweepPolynomial frame
  else (r.globalFocusValues.getD frame 0).toInt

/-- The current of the lens for it. -/
def SweepRig.frameCurrent (r : SweepRig π ρ) (frame : Nat) : Int := liquidSetTargetCurrentMa (r.setpoint evaluateFocus frame)

/-- The lens is set for a frame. -/
def setFocus (frame : Nat) (r : SweepRig π ρ) : List SweepEvent × SweepRig π ρ :=
  (if r.useFocusSweepPolynomial then [] else [.focusValueRead frame],
    { r with targetCurrentMa := r.frameCurrent evaluateFocus frame })

/-- `ir_camera_system_perform_focus_sweep` and its mirror twin, up to the enabling of the interrupt, with the angles that the
mirror reports. -/
def beginSweep (kind : SweepKind) (safetyTriggered : Bool) (phiMillidegrees thetaMillidegrees : UInt32)
    (r : SweepRig π ρ) : RetCode × List SweepEvent × SweepRig π ρ :=
  let ret := sweepStatus safetyTriggered r.ir
  if ret ≠ .success then (ret, [], r)
  else
    match kind with
    | .focus =>
      if 0 < r.ir.numFocusValues then
        let (events, r) := setFocus evaluateFocus 0 { r with ir := { r.ir with focusSweepInProgress := true } }
        (ret, events, { r with ir := { r.ir with sweepIndex := 1, sweepInterrupt := true } })
      else (ret, [], r)
    | .mirror =>
      if 0 < r.ir.numMirrorFrames then
        (ret, [], { r with
          ir := { r.ir with mirrorSweepInProgress := true, sweepIndex := 0, sweepInterrupt := true }
          initialMirrorAnglePhiMillidegrees := phiMillidegrees
          initialMirrorAngleThetaMillidegrees := thetaMillidegrees })
      else (ret, [], r)

/-- What the interrupt at the end of an exposure sets for the next frame. -/
def nextFrame (r : SweepRig π ρ) : List SweepEvent × SweepRig π ρ :=
  if r.ir.focusSweepInProgress then
    if r.ir.sweepIndex = r.ir.numFocusValues then ([], r) else setFocus evaluateFocus r.ir.sweepIndex r
  else if r.ir.mirrorSweepInProgress then
    if r.ir.sweepIndex = r.ir.numMirrorFrames then ([], r)
    else
      let (phi, theta) := evaluateMirror r.mirrorSweepPolynomial r.ir.sweepIndex
      ([.mirrorSetAngles (phi+r.initialMirrorAnglePhiMillidegrees.toInt32.toInt)
        (theta+r.initialMirrorAngleThetaMillidegrees.toInt32.toInt)], r)
  else ([], r)

/-- `camera_exposure_completes_isr`. -/
def exposureCompletes (r : SweepRig π ρ) : List SweepEvent × SweepRig π ρ :=
  let (events, next) := nextFrame evaluateFocus evaluateMirror r
  (events, { next with ir := cameraExposureCompletesIsr b r.ir })

/-- What a pulse that ends is for the sweep. -/
def frameEnds (r : SweepRig π ρ) : List SweepEvent :=
  if r.ir.sweeping then [if r.ir.cameraChannel .irEye then .frame r.targetCurrentMa else .untriggered] else []

def sweepStep (r : SweepRig π ρ) : SweepAction → List SweepEvent × SweepRig π ρ
  | .enableCamera => ([], { r with ir := irEyeCameraForce b true r.ir })
  | .pulseEnds =>
    if r.ir.sweepInterrupt then
      let (events, next) := exposureCompletes evaluateFocus evaluateMirror b r
      (frameEnds r ++ events, next)
    else (frameEnds r, r)
  | .strobe level counter =>
    ([], { r with ir := if r.ir.strobeInterrupt then (rgbIrStrobeIsr level counter r.ir).2 else r.ir })
  | .timeout => ([], { r with ir := (irCameraSystemTimeoutDisable b r.ir).2 })

end Model

/-- The frames that are asked for. -/
def SweepKind.frames : SweepKind → IrCameraState → Nat
  | .focus, s => s.numFocusValues
  | .mirror, s => s.numMirrorFrames

/-- The pulses that a sweep lasts longer than that. -/
def SweepKind.spare : SweepKind → Nat
  | .focus => 0
  | .mirror => 1

def SweepAction.ends : SweepAction → Bool
  | .pulseEnds => true
  | _ => false

def SweepEvent.current : SweepEvent → Option Int
  | .frame targetCurrentMa => some targetCurrentMa
  | _ => none

/-- The currents of the lens for the frames of a sweep. -/
def frameCurrents (events : List SweepEvent) : List Int := events.filterMap SweepEvent.current

def missedPulses (events : List SweepEvent) : Nat := events.count .untriggered

/-! What the other steps leave alone. -/

section Proofs
variable {π ρ : Type} {evaluateFocus : π → Nat → Int} {evaluateMirror : ρ → Nat → Int × Int} {b : Board}
  {s : IrCameraState} {start r : SweepRig π ρ} {kind : SweepKind}

theorem irEyeCameraForce_interrupt (enabled : Bool) (s : IrCameraState) :
    (irEyeCameraForce b enabled s).sweepInterrupt = s.sweepInterrupt := by
  rw [irEyeCameraForce, cameraHw]
  split <;> rfl

theorem cameraEnableTrigger_interrupt (enabled : Bool) (camera : Camera) (s : IrCameraState) :
    (cameraEnableTrigger b enabled camera s).sweepInterrupt = s.sweepInterrupt := rfl

theorem irLedsSetPulseLength_interrupt (s : IrCameraState) :
    (irLedsSetPulseLength b s).2.2.sweepInterrupt = s.sweepInterrupt := by
  simp only [irLedsSetPulseLength]
  split_ifs <;> rfl

theorem irLedsEnablePulse_interrupt (s : IrCameraState) : (irLedsEnablePulse b s).2.sweepInterrupt = s.sweepInterrupt := by
  simp only [irLedsEnablePulse]
  split_ifs <;> rfl

theorem setCamera_interrupt (enabled : Bool) (camera : Camera) (s : IrCameraState) :
    (setCamera b enabled camera s).2.sweepInterrupt = s.sweepInterrupt := by
  rw [setCamera]
  split_ifs
  · rfl
  · rfl
  · rw [cameraHw]
    split <;> rfl

theorem irCameraSystemEnableLeds_interrupt (wavelength : Wavelength) (s : IrCameraState) :
    (irCameraSystemEnableLeds b false wavelength s).2.2.sweepInterrupt = s.sweepInterrupt := by
  have hset (t : IrCameraState) : (irCameraSystemEnableLedsHw b t).2.sweepInterrupt = t.sweepInterrupt := by
    simp only [irCameraSystemEnableLedsHw, irLedsEnablePulse_interrupt, irLedsSetPulseLength_interrupt]
  simp only [irCameraSystemEnableLeds]
  generalize (if wavelength = .none then RetCode.success else irCameraSystemGetStatus false s) = ret
  split_ifs
  · rfl
  · rfl
  · rfl
  · exact hset _

theorem irCameraSystemTimeoutDisable_interrupt (s : IrCameraState) :
    (irCameraSystemTimeoutDisable b s).2.sweepInterrupt = s.sweepInterrupt := by
  simp only [irCameraSystemTimeoutDisable, setCamera_interrupt, irCameraSystemEnableLeds_interrupt]

theorem rgbIrStrobeIsr_interrupt (level : Bool) (counter : UInt32) (s : IrCameraState) :
    (rgbIrStrobeIsr level counter s).2.sweepInterrupt = s.sweepInterrupt := by
  cases level with
  | false =>
    have hedge (enabled enabled' : Bool) (master : IrCameraState) :
        (irLedsEnablePulse .diamond (cameraEnableTrigger .diamond enabled .tof2d (cameraEnableTrigger .diamond enabled' .irEye
          (irLedsSetPulseLength .diamond master).2.2))).2.sweepInterrupt = master.sweepInterrupt := by
      rw [irLedsEnablePulse_interrupt, cameraEnableTrigger_interrupt, cameraEnableTrigger_interrupt,
        irLedsSetPulseLength_interrupt]
    simp only [rgbIrStrobeIsr, if_true]
    split
    · exact hedge _ _ _
    · exact hedge _ _ _
  | true =>
    simp only [rgbIrStrobeIsr, Bool.true_eq_false, if_false]
    split_ifs <;> rfl

/-- All but the state of the cameras and the LEDs. -/
structure SameSweep (evaluateFocus : π → Nat → Int) (r next : SweepRig π ρ) : Prop where
  progress : next.ir.progress = r.ir.progress
  interrupt : next.ir.sweepInterrupt = r.ir.sweepInterrupt
  setpoint : ∀ frame, next.setpoint evaluateFocus frame = r.setpoint evaluateFocus frame
  current : next.targetCurrentMa = r.targetCurrentMa

variable (evaluateFocus evaluateMirror b) in
theorem sweepStep_quiet (r : SweepRig π ρ) {a : SweepAction} (hquiet : a.ends = false) :
    (sweepStep evaluateFocus evaluateMirror b r a).1 = [] ∧
      SameSweep evaluateFocus r (sweepStep evaluateFocus evaluateMirror b r a).2 := by
  cases a with
  | pulseEnds => contradiction
  | enableCamera =>
    exact ⟨rfl, irEyeCameraForce_progress true r.ir, irEyeCameraForce_interrupt true r.ir, fun _ => rfl, rfl⟩
  | strobe level counter =>
    refine ⟨rfl, ?_, ?_, fun _ => rfl, rfl⟩
    · simp only [sweepStep]
      split
      · exact (rgbIrStrobeIsr_keeps level counter r.ir).progress
      · rfl
    · simp only [sweepStep]
      split
      · exact rgbIrStrobeIsr_interrupt level counter r.ir
      · rfl
  | timeout =>
    exact ⟨rfl, irCameraSystemTimeoutDisable_progress r.ir, irCameraSystemTimeoutDisable_interrupt r.ir, fun _ => rfl, rfl⟩

/-- A sweep that has begun from `start` is in progress, and `ended` pulses have ended in it. -/
structure InSweep (evaluateFocus : π → Nat → Int) (kind : SweepKind) (start r : SweepRig π ρ) (ended : Nat) : Prop where
  focus : r.ir.focusSweepInProgress = decide (kind = .focus)
  mirror : r.ir.mirrorSweepInProgress = decide (kind = .mirror)
  frames : kind.frames r.ir = kind.frames start.ir
  index : r.ir.sweepIndex+kind.spare = ended+1
  interrupt : r.ir.sweepInterrupt = true
  setpoint : ∀ frame, r.setpoint evaluateFocus frame = start.setpoint evaluateFocus frame
  lens : kind = .focus → r.targetCurrentMa = start.frameCurrent evaluateFocus ended

variable {ended : Nat} {next : SweepRig π ρ}

theorem InSweep.sweeping (h : InSweep evaluateFocus kind start r ended) : r.ir.sweeping = true := by
  rw [IrCameraState.sweeping, h.focus, h.mirror]
  cases kind <;> rfl

theorem InSweep.of_same (h : InSweep evaluateFocus kind start r ended) (hsame : SameSweep evaluateFocus r next) :
    InSweep evaluateFocus kind start next ended := by
  have hprogress := hsame.progress
  simp only [IrCameraState.progress, Prod.mk.injEq] at hprogress
  obtain ⟨-, hfocus, hmirror, hvalues, hframes, hindex⟩ := hprogress
  have hsize : kind.frames next.ir = kind.frames r.ir := by cases kind <;> assumption
  constructor
  · exact hfocus.trans h.focus
  · exact hmirror.trans h.mirror
  · exact hsize.trans h.frames
  · rw [hindex]
    exact h.index
  · exact hsame.interrupt.trans h.interrupt
  · exact fun frame => (hsame.setpoint frame).trans (h.setpoint frame)
  · exact fun hkind => hsame.current.trans (h.lens hkind)

/-- What is no frame of a sweep of `frames` ones. -/
structure NoFrames (frames : Nat) (events : List SweepEvent) : Prop where
  currents : frameCurrents events = []
  missed : missedPulses events = 0
  reads : ∀ index, .focusValueRead index ∈ events → index < frames

theorem noFrames_nil (frames : Nat) : NoFrames frames [] := ⟨rfl, rfl, nofun⟩

theorem setFocus_noFrames (r : SweepRig π ρ) {frame frames : Nat} (h : frame < frames) :
    NoFrames frames (setFocus evaluateFocus frame r).1 := by
  simp only [setFocus]
  split
  · exact noFrames_nil frames
  · refine ⟨rfl, rfl, fun index hread => ?_⟩
    rw [List.mem_singleton, SweepEvent.focusValueRead.injEq] at hread
    exact hread ▸ h

variable (evaluateFocus) in
theorem beginSweep_inSweep (safetyTriggered : Bool) (phi theta : UInt32)
    (hstatus : sweepStatus safetyTriggered start.ir = .success) (hframes : 0 < kind.frames start.ir) :
    let begun := beginSweep evaluateFocus kind safetyTriggered phi theta start
    begun.1 = .success ∧ NoFrames (kind.frames start.ir) begun.2.1 ∧ InSweep evaluateFocus kind start begun.2.2 0 := by
  obtain ⟨hidle, -⟩ := sweepStatus_success hstatus
  obtain ⟨hfocus, hmirror⟩ := Bool.or_eq_false_iff.mp hidle
  simp only [beginSweep, hstatus, ne_eq, not_true_eq_false, if_false]
  cases kind with
  | focus =>
    have hvalues : 0 < start.ir.numFocusValues := hframes
    simp only [if_pos hvalues]
    refine ⟨trivial, setFocus_noFrames _ hframes, ?_⟩
    exact ⟨rfl, hmirror, rfl, rfl, rfl, fun _ => rfl, fun _ => rfl⟩
  | mirror =>
    have hsize : 0 < start.ir.numMirrorFrames := hframes
    simp only [if_pos hsize]
    refine ⟨trivial, noFrames_nil _, ?_⟩
    exact ⟨hfocus, rfl, rfl, rfl, rfl, fun _ => rfl, nofun⟩

/-- Without an interrupt in between, the two parts of a call are the call as a whole. -/
theorem beginSweep_enableCamera (safetyTriggered : Bool) (phi theta : UInt32)
    (hstatus : sweepStatus safetyTriggered start.ir = .success) (hframes : 0 < kind.frames start.ir) :
    (sweepStep evaluateFocus evaluateMirror b (beginSweep evaluateFocus kind safetyTriggered phi theta start).2.2
      .enableCamera).2.ir =
      match kind with
      | .focus => (irCameraSystemPerformFocusSweep b safetyTriggered start.ir).2
      | .mirror => (irCameraSystemPerformMirrorSweep b safetyTriggered start.ir).2 := by
  cases kind with
  | focus =>
    have hvalues : 0 < start.ir.numFocusValues := hframes
    simp only [sweepStep, beginSweep, irCameraSystemPerformFocusSweep, hstatus, ne_eq, not_true_eq_false, if_false,
      if_pos hvalues]
    rfl
  | mirror =>
    have hsize : 0 < start.ir.numMirrorFrames := hframes
    simp only [sweepStep, beginSweep, irCameraSystemPerformMirrorSweep, hstatus, ne_eq, not_true_eq_false, if_false,
      if_pos hsize]

variable (evaluateMirror b) in
/-- The last pulse. -/
theorem InSweep.completes (h : InSweep evaluateFocus kind start r ended)
    (hlast : ended+1 = kind.frames start.ir+kind.spare) :
    (sweepStep evaluateFocus evaluateMirror b r .pulseEnds).1 = frameEnds r ∧
      (sweepStep evaluateFocus evaluateMirror b r .pulseEnds).2.ir.sweeping = false := by
  have hat : r.ir.sweepIndex = kind.frames r.ir := by
    have hindex := h.index
    have hframes := h.frames
    omega
  have hoff := irEyeCameraForce_progress (b := b) false { r.ir with sweepInterrupt := false }
  simp only [IrCameraState.progress, Prod.mk.injEq] at hoff
  obtain ⟨-, hfocusOff, hmirrorOff, -⟩ := hoff
  rw [sweepStep, if_pos h.interrupt]
  cases kind with
  | focus =>
    have hfocus : r.ir.focusSweepInProgress = true := h.focus
    have hmirror : r.ir.mirrorSweepInProgress = false := h.mirror
    have hvalues : r.ir.sweepIndex = r.ir.numFocusValues := hat
    have hnext : nextFrame evaluateFocus evaluateMirror r = ([], r) := by
      rw [nextFrame, if_pos hfocus, if_pos hvalues]
    simp only [exposureCompletes, hnext, List.append_nil, true_and, cameraExposureCompletesIsr]
    rw [if_pos hfocus, if_pos hvalues]
    exact hmirrorOff.trans hmirror
  | mirror =>
    have hfocus : r.ir.focusSweepInProgress = false := h.focus
    have hmirror : r.ir.mirrorSweepInProgress = true := h.mirror
    have hframes : r.ir.sweepIndex = r.ir.numMirrorFrames := hat
    have hno : ¬r.ir.focusSweepInProgress = true := Bool.eq_false_iff.mp hfocus
    have hnext : nextFrame evaluateFocus evaluateMirror r = ([], r) := by
      rw [nextFrame, if_neg hno, if_pos hmirror, if_pos hframes]
    simp only [exposureCompletes, hnext, List.append_nil, true_and, cameraExposureCompletesIsr]
    rw [if_neg hno, if_pos hmirror, if_pos hframes, IrCameraState.sweeping, Bool.or_false]
    exact hfocusOff.trans hfocus

variable (evaluateMirror b) in
/-- Any other pulse. -/
theorem InSweep.goesOn (h : InSweep evaluateFocus kind start r ended) (hmore : ended+1 < kind.frames start.ir+kind.spare) :
    ∃ events, (sweepStep evaluateFocus evaluateMirror b r .pulseEnds).1 = frameEnds r ++ events ∧
      NoFrames (kind.frames start.ir) events ∧
      InSweep evaluateFocus kind start (sweepStep evaluateFocus evaluateMirror b r .pulseEnds).2 (ended+1) := by
  have hindex := h.index
  have hsame := h.frames
  have hbefore : r.ir.sweepIndex ≠ kind.frames r.ir := by omega
  rw [sweepStep, if_pos h.interrupt]
  cases kind with
  | focus =>
    have hfocus : r.ir.focusSweepInProgress = true := h.focus
    have hvalues : r.ir.sweepIndex ≠ r.ir.numFocusValues := hbefore
    have hisr : cameraExposureCompletesIsr b r.ir = { r.ir with sweepIndex := r.ir.sweepIndex+1 } := by
      simp only [cameraExposureCompletesIsr]
      rw [if_pos hfocus, if_neg hvalues]
    have hnext : nextFrame evaluateFocus evaluateMirror r = setFocus evaluateFocus r.ir.sweepIndex r := by
      rw [nextFrame, if_pos hfocus, if_neg hvalues]
    simp only [SweepKind.spare] at hindex hmore
    have hended : r.ir.sweepIndex = ended+1 := by omega
    simp only [exposureCompletes, hnext, hisr]
    refine ⟨_, rfl, setFocus_noFrames r (by omega), ?_⟩
    refine ⟨hfocus, h.mirror, hsame, ?_, h.interrupt, h.setpoint, fun _ => ?_⟩
    · simp only [SweepKind.spare]
      omega
    · simp only [setFocus, SweepRig.frameCurrent, h.setpoint, hended]
  | mirror =>
    have hmirror : r.ir.mirrorSweepInProgress = true := h.mirror
    have hframes : r.ir.sweepIndex ≠ r.ir.numMirrorFrames := hbefore
    have hno : ¬r.ir.focusSweepInProgress = true := Bool.eq_false_iff.mp h.focus
    have hisr : cameraExposureCompletesIsr b r.ir = { r.ir with sweepIndex := r.ir.sweepIndex+1 } := by
      simp only [cameraExposureCompletesIsr]
      rw [if_neg hno, if_pos hmirror, if_neg hframes]
    simp only [exposureCompletes, hisr, nextFrame]
    rw [if_neg hno, if_pos hmirror, if_neg hframes]
    refine ⟨_, rfl, ⟨rfl, rfl, fun index hread => ?_⟩, ?_⟩
    · rw [List.mem_singleton] at hread
      contradiction
    · refine ⟨h.focus, hmirror, hsame, ?_, h.interrupt, h.setpoint, by simp⟩
      simp only [SweepKind.spare] at hindex ⊢
      omega

/-! Runs. -/

variable (evaluateFocus evaluateMirror b) in
theorem sweepStep_idle {r : SweepRig π ρ} (hidle : r.ir.sweeping = false) (a : SweepAction) :
    (sweepStep evaluateFocus evaluateMirror b r a).1 = [] ∧
      (sweepStep evaluateFocus evaluateMirror b r a).2.ir.sweeping = false := by
  obtain ⟨hfocus, hmirror⟩ := Bool.or_eq_false_iff.mp hidle
  cases hends : a.ends with
  | false =>
    obtain ⟨hquiet, hsame⟩ := sweepStep_quiet evaluateFocus evaluateMirror b r hends
    have hprogress := hsame.progress
    simp only [IrCameraState.progress, Prod.mk.injEq] at hprogress
    refine ⟨hquiet, ?_⟩
    rw [IrCameraState.sweeping, hprogress.2.1, hprogress.2.2.1]
    exact hidle
  | true =>
    obtain rfl : a = .pulseEnds := by cases a <;> trivial
    have hframe : frameEnds r = [] := by
      rw [frameEnds, hidle]
      rfl
    rw [sweepStep]
    split
    · simp only [exposureCompletes, nextFrame, cameraExposureCompletesIsr, hfocus, hmirror, hframe, Bool.false_eq_true,
        if_false, List.append_nil, true_and]
      rfl
    · exact ⟨hframe, hidle⟩

variable (evaluateFocus evaluateMirror b) in
theorem idle_run {r : SweepRig π ρ} (hidle : r.ir.sweeping = false) (actions : List SweepAction) :
    Machine.events (sweepStep evaluateFocus evaluateMirror b) r actions = [] ∧
      (Machine.run (sweepStep evaluateFocus evaluateMirror b) r actions).2.ir.sweeping = false := by
  induction actions generalizing r with
  | nil => exact ⟨rfl, hidle⟩
  | cons a actions ih =>
    obtain ⟨hquiet, hstill⟩ := sweepStep_idle evaluateFocus evaluateMirror b hidle a
    obtain ⟨hevents, hend⟩ := ih hstill
    rw [Machine.events_cons, hquiet, hevents, Machine.run_cons]
    exact ⟨rfl, hend⟩

def pulses (actions : List SweepAction) : Nat := actions.countP (·.ends)

theorem pulses_cons (a : SweepAction) (actions : List SweepAction) :
    pulses (a :: actions) = pulses actions+a.ends.toNat := by
  rw [pulses, List.countP_cons]
  cases a.ends <;> rfl

theorem frameCurrents_append (events more : List SweepEvent) :
    frameCurrents (events ++ more) = frameCurrents events ++ frameCurrents more := List.filterMap_append

theorem missedPulses_append (events more : List SweepEvent) :
    missedPulses (events ++ more) = missedPulses events+missedPulses more := List.count_append

/-- What a run in which `ends` pulses end makes of a sweep that lasts for `left` of them, behind the first `ended`. -/
structure Taken (evaluateFocus : π → Nat → Int) (kind : SweepKind) (start : SweepRig π ρ) (ended left ends : Nat)
    (events : List SweepEvent) (next : SweepRig π ρ) : Prop where
  finished : next.ir.sweeping = false ↔ left ≤ ends
  count : (frameCurrents events).length+missedPulses events = min ends left
  reads : ∀ index, .focusValueRead index ∈ events → index < kind.frames start.ir
  currents : kind = .focus → missedPulses events = 0 →
    frameCurrents events = (List.range' ended (min ends left)).map (start.frameCurrent evaluateFocus)

variable {left ends : Nat} {events more : List SweepEvent}

/-- A pulse before the others. -/
theorem Taken.pulse (h : InSweep evaluateFocus kind start r ended)
    (htaken : Taken evaluateFocus kind start (ended+1) left ends events next)
    (hmore : NoFrames (kind.frames start.ir) more) :
    Taken evaluateFocus kind start ended (left+1) (ends+1) (frameEnds r ++ more ++ events) next := by
  have hleft : min (ends+1) (left+1) = min ends left+1 := by omega
  have hframe : frameEnds r = [.untriggered] ∨ frameEnds r = [.frame r.targetCurrentMa] := by
    rw [frameEnds, if_pos h.sweeping]
    split
    · exact .inr rfl
    · exact .inl rfl
  have hcount := htaken.count
  refine ⟨?_, ?_, ?_, fun hkind hmissed => ?_⟩
  · rw [htaken.finished]
    omega
  · simp only [frameCurrents_append, missedPulses_append, hmore.currents, hmore.missed, List.length_append, hleft]
    rcases hframe with hframe | hframe
    · rw [hframe, ← hcount]
      simp only [frameCurrents, missedPulses, List.filterMap, SweepEvent.current, List.length_nil, List.count_singleton_self]
      omega
    · rw [hframe, ← hcount]
      simp only [frameCurrents, missedPulses, List.filterMap, SweepEvent.current, List.length_nil, List.length_singleton,
        List.count_singleton, beq_iff_eq, reduceCtorEq, if_false]
      omega
  · intro index hread
    rcases List.mem_append.mp hread with hread | hread
    · rcases List.mem_append.mp hread with hread | hread
      · rcases hframe with hframe | hframe
        · rw [hframe, List.mem_singleton] at hread
          contradiction
        · rw [hframe, List.mem_singleton] at hread
          contradiction
      · exact hmore.reads index hread
    · exact htaken.reads index hread
  · simp only [missedPulses_append, hmore.missed] at hmissed
    rcases hframe with hframe | hframe
    · rw [hframe] at hmissed
      have hone : missedPulses [.untriggered] = 1 := rfl
      omega
    · have hcurrents := htaken.currents hkind (by omega)
      simp only [frameCurrents_append, hmore.currents, hframe, hcurrents, hleft, List.range'_succ, List.map_cons,
        List.append_nil]
      rw [h.lens hkind]
      rfl

variable (evaluateMirror b) in
theorem InSweep.run (h : InSweep evaluateFocus kind start r ended) (actions : List SweepAction) {left : Nat}
    (hleft : ended+left = kind.frames start.ir+kind.spare) (hpos : 0 < left) :
    Taken evaluateFocus kind start ended left (pulses actions)
      (Machine.events (sweepStep evaluateFocus evaluateMirror b) r actions)
      (Machine.run (sweepStep evaluateFocus evaluateMirror b) r actions).2 := by
  induction actions generalizing r ended left with
  | nil =>
    refine ⟨?_, ?_, fun _ hread => absurd hread List.not_mem_nil, fun _ _ => ?_⟩
    · have hsweeping := h.sweeping
      simp only [Machine.run, hsweeping, Bool.true_eq_false, false_iff]
      exact Nat.not_le.mpr hpos
    · exact (Nat.zero_min left).symm
    · rw [pulses, List.countP_nil, Nat.zero_min]
      rfl
  | cons a actions ih =>
    rw [Machine.events_cons, Machine.run_cons, pulses_cons]
    cases hends : a.ends with
    | false =>
      obtain ⟨hquiet, hsame⟩ := sweepStep_quiet evaluateFocus evaluateMirror b r hends
      rw [hquiet]
      exact ih (h.of_same hsame) hleft hpos
    | true =>
      obtain rfl : a = .pulseEnds := by cases a <;> trivial
      obtain ⟨before, rfl⟩ : ∃ before, left = before+1 := ⟨left-1, by omega⟩
      by_cases hlast : before = 0
      · subst hlast
        obtain ⟨hframe, hover⟩ := h.completes evaluateMirror b hleft
        obtain ⟨hevents, hend⟩ := idle_run evaluateFocus evaluateMirror b hover actions
        have hnone : Taken evaluateFocus kind start (ended+1) 0 (pulses actions) []
            (Machine.run (sweepStep evaluateFocus evaluateMirror b)
              (sweepStep evaluateFocus evaluateMirror b r .pulseEnds).2 actions).2 := by
          refine ⟨?_, ?_, by simp, fun _ _ => ?_⟩
          · simp only [hend, Nat.zero_le]
          · exact (Nat.min_zero _).symm
          · rw [Nat.min_zero]
            rfl
        have htaken := hnone.pulse h (noFrames_nil _)
        rwa [List.append_nil, ← hframe, ← hevents] at htaken
      · obtain ⟨events, hframe, hmore, hnext⟩ := h.goesOn evaluateMirror b (by omega)
        rw [hframe]
        exact (ih hnext (by omega) (by omega)).pulse h hmore

/-- As many frames as are asked for, in a focus sweep each with its own setpoint. -/
structure TakesFrames (evaluateFocus : π → Nat → Int) (kind : SweepKind) (start : SweepRig π ρ) (events : List SweepEvent) :
    Prop where
  count : (frameCurrents events).length = kind.frames start.ir
  currents : kind = .focus →
    frameCurrents events = (List.range (kind.frames start.ir)).map (start.frameCurrent evaluateFocus)

/-- The call that begins the sweep, and what follows. -/
def sweepEvents (evaluateFocus : π → Nat → Int) (evaluateMirror : ρ → Nat → Int × Int) (b : Board)
    (begun : RetCode × List SweepEvent × SweepRig π ρ) (actions : List SweepAction) : List SweepEvent :=
  begun.2.1 ++ Machine.events (sweepStep evaluateFocus evaluateMirror b) begun.2.2 actions

variable (evaluateMirror b) in
theorem sweep_taken {begun : RetCode × List SweepEvent × SweepRig π ρ} (hbegun : NoFrames (kind.frames start.ir) begun.2.1)
    (hin : InSweep evaluateFocus kind start begun.2.2 0) (hframes : 0 < kind.frames start.ir) (actions : List SweepAction) :
    Taken evaluateFocus kind start 0 (kind.frames start.ir+kind.spare) (pulses actions)
      (sweepEvents evaluateFocus evaluateMirror b begun actions)
      (Machine.run (sweepStep evaluateFocus evaluateMirror b) begun.2.2 actions).2 := by
  have htaken := hin.run evaluateMirror b actions (Nat.zero_add _) (by omega)
  refine ⟨htaken.finished, ?_, fun index hread => ?_, fun hkind hmissed => ?_⟩
  · rw [sweepEvents, frameCurrents_append, missedPulses_append, hbegun.currents, hbegun.missed, List.nil_append, Nat.zero_add]
    exact htaken.count
  · rcases List.mem_append.mp hread with hread | hread
    · exact hbegun.reads index hread
    · exact htaken.reads index hread
  · rw [sweepEvents, missedPulses_append, hbegun.missed, Nat.zero_add] at hmissed
    rw [sweepEvents, frameCurrents_append, hbegun.currents, List.nil_append]
    exact htaken.currents hkind hmissed

theorem Taken.takesFrames_iff (h : Taken evaluateFocus kind start 0 (kind.frames start.ir+kind.spare) ends events next)
    (hover : next.ir.sweeping = false) :
    TakesFrames evaluateFocus kind start events ↔ missedPulses events = kind.spare := by
  have hall : min ends (kind.frames start.ir+kind.spare) = kind.frames start.ir+kind.spare :=
    Nat.min_eq_right (h.finished.mp hover)
  have hcount := h.count
  rw [hall] at hcount
  constructor
  · intro htakes
    have hlength := htakes.count
    omega
  · intro hspare
    refine ⟨by omega, fun hkind => ?_⟩
    subst hkind
    rw [h.currents rfl hspare, hall, List.range_eq_range']
    rfl

/-- A sweep is over after a number of pulses that depends on it alone, reads no setpoint but its own, and has then taken
its frames exactly if none of the pulses has missed the camera, in a mirror sweep exactly if one has. -/
theorem sweep_frames_iff (evaluateFocus : π → Nat → Int) (evaluateMirror : ρ → Nat → Int × Int) (b : Board) (kind : SweepKind)
    (start : SweepRig π ρ) (safetyTriggered : Bool) (phiMillidegrees thetaMillidegrees : UInt32)
    (hstatus : sweepStatus safetyTriggered start.ir = .success) (hframes : 0 < kind.frames start.ir)
    (actions : List SweepAction) :
    let begun := beginSweep evaluateFocus kind safetyTriggered phiMillidegrees thetaMillidegrees start
    let events := sweepEvents evaluateFocus evaluateMirror b begun actions
    let finished := (Machine.run (sweepStep evaluateFocus evaluateMirror b) begun.2.2 actions).2.ir.sweeping = false
    begun.1 = .success ∧ (finished ↔ kind.frames start.ir+kind.spare ≤ pulses actions) ∧
      (∀ index, .focusValueRead index ∈ events → index < kind.frames start.ir) ∧
      (finished → (TakesFrames evaluateFocus kind start events ↔ missedPulses events = kind.spare)) := by
  intro begun events finished
  obtain ⟨hsuccess, hbegun, hin⟩ := beginSweep_inSweep evaluateFocus safetyTriggered phiMillidegrees thetaMillidegrees hstatus
    hframes
  have htaken := sweep_taken evaluateMirror b hbegun hin hframes actions
  exact ⟨hsuccess, htaken.finished, htaken.reads, htaken.takesFrames_iff⟩

/-- A polynomial of degree one, for the lens. -/
def linearFocus (coefficients : Int × Int) (frame : Nat) : Int := coefficients.1+coefficients.2*frame

/-- A frame rate, three values for the lens, and a mirror sweep of five frames that stays where it is. -/
def readyToSweep : SweepRig (Int × Int) Unit :=
  let rig : SweepRig (Int × Int) Unit :=
    { ir := irRun .pearl 4 [.call false (.setFps 30)]
      globalFocusValues := [0, 0, 0, 0]
      useFocusSweepPolynomial := false
      focusSweepPolynomial := (0, 0)
      mirrorSweepPolynomial := ()
      initialMirrorAnglePhiMillidegrees := 0
      initialMirrorAngleThetaMillidegrees := 0
      targetCurrentMa := 0 }
  (setMirrorPolynomial () 5 (setFocusValues 4 [-100, 0, 500, 7] 3 rig).2).2

theorem sweep_frames_three :
    let begun := beginSweep linearFocus .focus false 45000 90000 readyToSweep
    let actions : List SweepAction := [.enableCamera, .pulseEnds, .strobe true 0, .pulseEnds, .timeout, .pulseEnds]
    let events := sweepEvents linearFocus (fun _ _ => (0, 0)) .pearl begun actions
    let finished := (Machine.run (sweepStep linearFocus (fun _ _ => (0, 0)) .pearl) begun.2.2 actions).2.ir.sweeping = false
    begun.1 = .success ∧ (finished ↔ SweepKind.focus.frames readyToSweep.ir+SweepKind.focus.spare ≤ pulses actions) ∧
      (∀ index, .focusValueRead index ∈ events → index < SweepKind.focus.frames readyToSweep.ir) ∧
      (finished → (TakesFrames linearFocus .focus readyToSweep events ↔ missedPulses events = SweepKind.focus.spare)) :=
  sweep_frames_iff linearFocus (fun _ _ => (0, 0)) .pearl .focus readyToSweep false 45000 90000 (by decide +kernel)
    (by decide +kernel) [.enableCamera, .pulseEnds, .strobe true 0, .pulseEnds, .timeout, .pulseEnds]

example : frameCurrents (sweepEvents linearFocus (fun _ _ => (0, 0)) .pearl
    (beginSweep linearFocus .focus false 45000 90000 readyToSweep)
    [.enableCamera, .pulseEnds, .strobe true 0, .pulseEnds, .timeout, .pulseEnds]) = [-100, 0, 400] := by decide +kernel

/-- A mirror sweep of five frames takes six. -/
theorem mirror_sweep_takes_one_more :
    let begun := beginSweep linearFocus .mirror false 45000 90000 readyToSweep
    let actions : List SweepAction := .enableCamera :: List.replicate 6 .pulseEnds
    (Machine.run (sweepStep linearFocus (fun _ _ => (0, 0)) .pearl) begun.2.2 (actions.take 6)).2.ir.sweeping = true ∧
      (Machine.run (sweepStep linearFocus (fun _ _ => (0, 0)) .pearl) begun.2.2 actions).2.ir.sweeping = false ∧
      ¬TakesFrames linearFocus .mirror readyToSweep (sweepEvents linearFocus (fun _ _ => (0, 0)) .pearl begun actions) := by
  refine ⟨by decide +kernel, by decide +kernel, fun htakes => ?_⟩
  exact absurd htakes.count (by decide +kernel)

/-- Once the camera is enabled, no pulse of a focus sweep misses it. -/
theorem InSweep.triggered (h : InSweep evaluateFocus .focus start r ended) (harmed : Armed r.ir) (actions : List SweepAction)
    (hmore : ended < start.ir.numFocusValues) :
    missedPulses (Machine.events (sweepStep evaluateFocus evaluateMirror b) r actions) = 0 := by
  induction actions generalizing r ended with
  | nil => rfl
  | cons a actions ih =>
    rw [Machine.events_cons, missedPulses_append]
    have hfocus : r.ir.focusSweepInProgress = true := h.focus
    cases hends : a.ends with
    | false =>
      obtain ⟨hquiet, hsame⟩ := sweepStep_quiet evaluateFocus evaluateMirror b r hends
      have hstill : Armed (sweepStep evaluateFocus evaluateMirror b r a).2.ir := by
        cases a with
        | pulseEnds => contradiction
        | enableCamera => exact irEyeCameraForce_armed harmed.fps harmed.interrupt
        | timeout => exact (irCameraSystemTimeoutDisable_keeps hfocus).armed harmed
        | strobe level counter =>
          simp only [sweepStep]
          split
          · exact (rgbIrStrobeIsr_keeps level counter r.ir).armed harmed
          · exact harmed
      rw [hquiet, ih (h.of_same hsame) hstill hmore]
      rfl
    | true =>
      obtain rfl : a = .pulseEnds := by cases a <;> trivial
      have hframe : missedPulses (frameEnds r) = 0 := by
        rw [frameEnds, if_pos h.sweeping, if_pos harmed.trigger]
        rfl
      by_cases hlast : ended+1 = start.ir.numFocusValues
      · obtain ⟨hevents, hover⟩ := h.completes evaluateMirror b hlast
        rw [hevents, hframe, (idle_run evaluateFocus evaluateMirror b hover actions).1]
        rfl
      · have hnot : ended+1 < start.ir.numFocusValues := by omega
        obtain ⟨events, hevents, hnone, hnext⟩ := h.goesOn evaluateMirror b hnot
        have hstill : Armed (sweepStep evaluateFocus evaluateMirror b r .pulseEnds).2.ir := by
          have hindex := h.index
          have hsize : r.ir.numFocusValues = start.ir.numFocusValues := h.frames
          simp only [SweepKind.spare] at hindex
          have hvalues : r.ir.sweepIndex ≠ r.ir.numFocusValues := by omega
          simp only [sweepStep, if_pos h.interrupt, exposureCompletes, cameraExposureCompletesIsr, if_pos hfocus,
            if_neg hvalues]
          exact ⟨harmed.fps, harmed.enabled, harmed.trigger, harmed.interrupt⟩
        rw [hevents, missedPulses_append, hframe, hnone.missed, ih hnext hstill hnot]

/-- A focus sweep whose call is not interrupted takes its frames, each with its setpoint. -/
theorem focus_sweep_takes_frames (start : SweepRig π ρ) (safetyTriggered : Bool) (phiMillidegrees thetaMillidegrees : UInt32)
    (hstatus : sweepStatus safetyTriggered start.ir = .success) (hframes : 0 < start.ir.numFocusValues)
    (actions : List SweepAction) (hpulses : start.ir.numFocusValues ≤ pulses actions) :
    TakesFrames evaluateFocus .focus start (sweepEvents evaluateFocus evaluateMirror b
      (beginSweep evaluateFocus .focus safetyTriggered phiMillidegrees thetaMillidegrees start) (.enableCamera :: actions)) := by
  obtain ⟨hidle, hfps⟩ := sweepStatus_success hstatus
  obtain ⟨-, hbegun, hin⟩ := @beginSweep_inSweep π ρ evaluateFocus start .focus safetyTriggered phiMillidegrees
    thetaMillidegrees hstatus hframes
  generalize hcall : beginSweep evaluateFocus .focus safetyTriggered phiMillidegrees thetaMillidegrees start = begun
    at hbegun hin
  have htaken := sweep_taken evaluateMirror b hbegun hin hframes (.enableCamera :: actions)
  refine (htaken.takesFrames_iff (htaken.finished.mpr hpulses)).mpr ?_
  have hsettings : begun.2.2.ir.settings = start.ir.settings := by
    rw [← hcall]
    simp only [beginSweep, hstatus, ne_eq, not_true_eq_false, if_false, if_pos hframes]
    rfl
  have harmed : Armed (irEyeCameraForce b true begun.2.2.ir) := irEyeCameraForce_armed (hsettings ▸ hfps) hin.interrupt
  obtain ⟨hquiet, hsame⟩ := sweepStep_quiet evaluateFocus evaluateMirror b begun.2.2 (a := .enableCamera) rfl
  rw [sweepEvents, missedPulses_append, hbegun.missed, Machine.events_cons, missedPulses_append, hquiet,
    (hin.of_same hsame).triggered harmed actions hframes]
  rfl

end Proofs

end OrbFirmware.IrCamera

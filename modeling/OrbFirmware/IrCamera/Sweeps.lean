import OrbFirmware.IrCamera.System

/-! The sweeps of the IR eye camera: what their interrupt needs to go on, the calls that take it away, and how many
exposures are left to the end. -/
namespace OrbFirmware.IrCamera
variable {b : Board} {maxFocus : Nat} {s t : IrCameraState}

/-- `ir_camera_system_get_status` says `RET_ERROR_BUSY` for it. -/
def IrCameraState.sweeping (s : IrCameraState) : Bool := s.focusSweepInProgress || s.mirrorSweepInProgress

/-- What is asked in every state: a sweep in progress has a frame rate, and the trigger of its camera. -/
def SweepRuns (s : IrCameraState) : Prop :=
  s.sweeping = true → 0 < s.settings.fps ∧ s.cameraChannel .irEye = true

/-- The exposures until the sweep is complete. -/
def IrCameraState.exposuresLeft (s : IrCameraState) : Nat :=
  if s.focusSweepInProgress then s.numFocusValues+1-s.sweepIndex
  else if s.mirrorSweepInProgress then s.numMirrorFrames+1-s.sweepIndex
  else 0

def IrAction.exposes : IrAction → Bool
  | .exposureCompletes => true
  | _ => false

/-- No step takes the frame rate from a sweep, or the camera from a mirror sweep. -/
def SweepSafe (s : IrCameraState) : IrAction → Prop
  | .call _ (.setFps fps) => s.sweeping = true → fps ≠ 0
  | .call _ (.setCamera enabled camera) => s.mirrorSweepInProgress = true → camera = .irEye → enabled = true
  | .timeout => s.mirrorSweepInProgress = false
  | _ => True

instance (s : IrCameraState) (a : IrAction) : Decidable (SweepSafe s a) :=
  match a with
  | .call _ (.setFps _) | .call _ (.setCamera _ _) => inferInstanceAs (Decidable (_ → _))
  | .timeout => inferInstanceAs (Decidable (_ = _))
  | .call _ (.setRgbFaceCamera _) | .call _ (.enableLeds _) | .call _ (.setOnTimeUs _)
  | .call _ (.setFocusValues _) | .call _ (.setFocusPolynomial _) | .call _ .performFocusSweep
  | .call _ (.setMirrorPolynomial _) | .call _ .performMirrorSweep => isTrue trivial
  | .exposureCompletes | .strobe _ _ => isTrue trivial

/-! What the functions under the calls do to a sweep. -/

/-- How far the sweeps are. -/
def IrCameraState.progress (s : IrCameraState) : Bool × Bool × Bool × Nat × Nat × Nat :=
  (s.initialized, s.focusSweepInProgress, s.mirrorSweepInProgress, s.numFocusValues, s.numMirrorFrames, s.sweepIndex)

/-- All that the interrupt of a sweep needs. -/
structure Armed (s : IrCameraState) : Prop where
  fps : 0 < s.settings.fps
  enabled : s.cameraEnabled .irEye = true
  trigger : s.cameraChannel .irEye = true
  interrupt : s.sweepInterrupt = true

/-- The sweeps are where they were, and their interrupt has all that it had. -/
structure KeepsSweep (s t : IrCameraState) : Prop where
  progress : t.progress = s.progress
  armed : Armed s → Armed t

theorem KeepsSweep.refl (s : IrCameraState) : KeepsSweep s s := ⟨rfl, id⟩

/-- What a sweep depends on. -/
def IrCameraState.sweep (s : IrCameraState) : (Bool × Bool × Bool × Nat × Nat × Nat) × UInt16 × Bool × Bool × Bool :=
  (s.progress, s.settings.fps, s.cameraEnabled .irEye, s.cameraChannel .irEye, s.sweepInterrupt)

theorem KeepsSweep.of_sweep (h : t.sweep = s.sweep) : KeepsSweep s t := by
  simp only [IrCameraState.sweep, Prod.mk.injEq] at h
  obtain ⟨hprogress, hfps, henabled, htrigger, hinterrupt⟩ := h
  refine ⟨hprogress, fun harmed => ?_⟩
  exact {
    fps := hfps ▸ harmed.fps
    enabled := henabled ▸ harmed.enabled
    trigger := htrigger ▸ harmed.trigger
    interrupt := hinterrupt ▸ harmed.interrupt }

theorem KeepsSweep.trans {u : IrCameraState} (h : KeepsSweep s t) (h' : KeepsSweep t u) : KeepsSweep s u :=
  ⟨h'.progress.trans h.progress, fun harmed => h'.armed (h.armed harmed)⟩

theorem cameraEnableTrigger_keeps {enabled : Bool} {camera : Camera}
    (henabled : Armed s → camera = .irEye → enabled = true) : KeepsSweep s (cameraEnableTrigger b enabled camera s) where
  progress := rfl
  armed := by
    intro h
    refine ⟨h.fps, h.enabled, ?_, h.interrupt⟩
    by_cases hcamera : camera = .irEye
    · obtain rfl := henabled h hcamera
      subst hcamera
      have hfps := h.fps
      simp [cameraEnableTrigger, hfps]
    · exact (Function.update_of_ne (Ne.symm hcamera) _ _).trans h.trigger

/-- The trigger of a camera is set as the camera is enabled. -/
theorem cameraEnabled_keeps (camera : Camera) (s : IrCameraState) :
    KeepsSweep s (cameraEnableTrigger b (s.cameraEnabled camera) camera s) :=
  cameraEnableTrigger_keeps fun h hcamera => hcamera ▸ h.enabled

theorem irLedsSetPulseLength_keeps (s : IrCameraState) : KeepsSweep s (irLedsSetPulseLength b s).2.2 := by
  simp only [irLedsSetPulseLength]
  split_ifs <;> exact .of_sweep rfl

theorem irLedsEnablePulse_keeps (s : IrCameraState) : KeepsSweep s (irLedsEnablePulse b s).2 := by
  simp only [irLedsEnablePulse]
  split_ifs <;> exact .of_sweep rfl

theorem applyTimers_keeps (s : IrCameraState) : KeepsSweep s (applyTimers b s).2.2 := by
  let master : IrCameraState := { s with
    masterEnabled := decide (0 < s.settings.fps)
    masterPsc := s.settings.masterPsc.toUInt32
    masterArr := s.settings.masterArr.toUInt32 }
  have hmaster : KeepsSweep s master := .of_sweep rfl
  cases b with
  | pearl =>
    have heye := hmaster.trans (cameraEnabled_keeps (b := .pearl) .irEye master)
    have hface := heye.trans (cameraEnabled_keeps (b := .pearl) .irFace _)
    have htof := hface.trans (cameraEnabled_keeps (b := .pearl) .tof2d _)
    exact htof.trans (irLedsSetPulseLength_keeps _)
  | diamond =>
    simp only [applyTimers]
    split
    · have htof := hmaster.trans (cameraEnabled_keeps (b := .diamond) .tof2d master)
      exact htof.trans (irLedsSetPulseLength_keeps _)
    · have heye := hmaster.trans (cameraEnabled_keeps (b := .diamond) .irEye master)
      have htof := heye.trans (cameraEnabled_keeps (b := .diamond) .tof2d _)
      exact htof.trans (irLedsSetPulseLength_keeps _)

theorem applyPulse_keeps (s : IrCameraState) : KeepsSweep s (applyPulse b s).2 := by
  have hpulse := irLedsEnablePulse_keeps (b := b) s
  simp only [applyPulse]
  split
  · exact hpulse.trans (.of_sweep rfl)
  · exact .of_sweep rfl

theorem applyNewTimerSettings_keeps (s : IrCameraState) : KeepsSweep s (applyNewTimerSettings b s).2 :=
  (applyTimers_keeps s).trans (applyPulse_keeps _)

theorem irCameraSystemEnableLedsHw_keeps (s : IrCameraState) : KeepsSweep s (irCameraSystemEnableLedsHw b s).2 := by
  simp only [irCameraSystemEnableLedsHw]
  exact (irLedsSetPulseLength_keeps s).trans (irLedsEnablePulse_keeps _)

/-! The calls. -/

theorem computeMasterTimerDurations_fps (ts : TimerSettings) : (computeMasterTimerDurations ts).value.fps = ts.fps := by
  rw [computeMasterTimerDurations]
  split
  · rw [Calc.pure_value]
  · repeat rw [Calc.bind_value]
    rw [Calc.pure_value]

theorem timerSettingsFromOnTimeUs_fps (onTimeUs : UInt16) (ts : TimerSettings) :
    (timerSettingsFromOnTimeUs b onTimeUs ts ts).value.2.fps = ts.fps := by
  rw [timerSettingsFromOnTimeUs]
  split
  · rw [Calc.pure_value]
  · split
    · rw [Calc.pure_value]
    · cases b with
      | pearl => simp only [Calc.pure_value]
      | diamond =>
        dsimp only
        split
        · simp only [Calc.bind_value, Calc.pure_value, computeMasterTimerDurations_fps]
        · rw [Calc.pure_value]

theorem irCameraSystemSetOnTimeUsHw_keeps (onTimeUs : UInt16) (s : IrCameraState) :
    KeepsSweep s (irCameraSystemSetOnTimeUsHw b onTimeUs s).2.2 := by
  have hfps := timerSettingsFromOnTimeUs_fps (b := b) onTimeUs s.settings
  rw [irCameraSystemSetOnTimeUsHw]
  generalize (timerSettingsFromOnTimeUs b onTimeUs s.settings s.settings).value = r at hfps
  obtain ⟨ret, ts⟩ := r
  have hstored : KeepsSweep s { s with settings := ts } :=
    ⟨rfl, fun h => ⟨hfps.symm ▸ h.fps, h.enabled, h.trigger, h.interrupt⟩⟩
  dsimp only
  split
  · exact .refl s
  · split
    · exact hstored
    · exact hstored.trans (applyNewTimerSettings_keeps _)

theorem irCameraSystemSetOnTimeUs_keeps (safetyTriggered : Bool) (onTimeUs : UInt16) (s : IrCameraState) :
    KeepsSweep s (irCameraSystemSetOnTimeUs b safetyTriggered onTimeUs s).2.2 := by
  simp only [irCameraSystemSetOnTimeUs]
  generalize (if onTimeUs = 0 then RetCode.success else irCameraSystemGetStatus safetyTriggered s) = ret
  split_ifs
  · exact .refl s
  · exact .refl s
  · exact irCameraSystemSetOnTimeUsHw_keeps onTimeUs s

theorem irCameraSystemEnableLeds_keeps (safetyTriggered : Bool) (wavelength : Wavelength) (s : IrCameraState) :
    KeepsSweep s (irCameraSystemEnableLeds b safetyTriggered wavelength s).2.2 := by
  have hstored : KeepsSweep s { s with enabledLedWavelength := wavelength } :=
    .of_sweep rfl
  simp only [irCameraSystemEnableLeds]
  generalize (if wavelength = .none then RetCode.success else irCameraSystemGetStatus safetyTriggered s) = ret
  split_ifs
  · exact .refl s
  · exact .refl s
  · exact .refl s
  · exact hstored.trans (irCameraSystemEnableLedsHw_keeps _)

theorem irCameraSystemSetFpsHw_progress (fps : UInt16) (s : IrCameraState) :
    (irCameraSystemSetFpsHw b fps s).2.2.progress = s.progress := by
  rw [irCameraSystemSetFpsHw]
  generalize (timerSettingsFromFps b fps s.settings s.settings).value = r
  obtain ⟨ret, ts⟩ := r
  dsimp only
  split
  · rfl
  · exact (applyNewTimerSettings_keeps { s with settings := ts }).progress

theorem irCameraSystemSetFps_progress (safetyTriggered : Bool) (fps : UInt16) (s : IrCameraState) :
    (irCameraSystemSetFps b safetyTriggered fps s).2.2.progress = s.progress := by
  simp only [irCameraSystemSetFps]
  generalize (if fps = 0 then RetCode.success else irCameraSystemGetStatus safetyTriggered s) = ret
  split_ifs
  · rfl
  · rfl
  · exact irCameraSystemSetFpsHw_progress fps s

theorem irCameraSystemGetStatus_sweeping (safetyTriggered : Bool) (hsweeping : s.sweeping = true) :
    irCameraSystemGetStatus safetyTriggered s ≠ .success := by
  rw [IrCameraState.sweeping] at hsweeping
  rw [irCameraSystemGetStatus, if_pos hsweeping]
  split_ifs <;> exact nofun

/-- A sweep keeps its frame rate, but for zero. -/
theorem irCameraSystemSetFps_sweeping (safetyTriggered : Bool) {fps : UInt16} (hsweeping : s.sweeping = true)
    (hfps : fps ≠ 0) : (irCameraSystemSetFps b safetyTriggered fps s).2.2 = s := by
  have hstatus := irCameraSystemGetStatus_sweeping safetyTriggered hsweeping
  simp only [irCameraSystemSetFps, if_neg hfps, if_pos hstatus]
  split <;> rfl

theorem setCamera_keeps {enabled : Bool} {camera : Camera}
    (henabled : s.focusSweepInProgress = false → camera = .irEye → enabled = true) :
    KeepsSweep s (setCamera b enabled camera s).2 := by
  rw [setCamera]
  split
  · exact .refl s
  · split
    · exact .refl s
    · rename_i hfocus
      have hfocus := Bool.eq_false_iff.mpr hfocus
      have hstored : KeepsSweep s { s with cameraEnabled := Function.update s.cameraEnabled camera enabled } := by
        refine ⟨rfl, fun h => ⟨h.fps, ?_, h.trigger, h.interrupt⟩⟩
        by_cases hcamera : camera = .irEye
        · subst hcamera
          change Function.update s.cameraEnabled .irEye enabled .irEye = true
          rw [Function.update_self, henabled hfocus rfl]
        · exact (Function.update_of_ne (Ne.symm hcamera) _ _).trans h.enabled
      refine hstored.trans ?_
      rw [cameraHw]
      split
      · exact .of_sweep rfl
      · refine cameraEnableTrigger_keeps fun h hcamera => ?_
        subst hcamera
        have hself : Function.update s.cameraEnabled .irEye enabled .irEye = true := h.enabled
        rwa [Function.update_self] at hself

theorem setRgbFaceCamera_keeps (enabled : Bool) (s : IrCameraState) : KeepsSweep s (setRgbFaceCamera enabled s).2 := by
  rw [setRgbFaceCamera]
  split_ifs <;> exact .of_sweep rfl

theorem setCamera_progress (enabled : Bool) (camera : Camera) (s : IrCameraState) :
    (setCamera b enabled camera s).2.progress = s.progress := by
  rw [setCamera]
  split
  · rfl
  · split
    · rfl
    · rw [cameraHw]
      split <;> rfl

theorem irCameraSystemTimeoutDisable_progress (s : IrCameraState) :
    (irCameraSystemTimeoutDisable b s).2.progress = s.progress := by
  simp only [irCameraSystemTimeoutDisable, setCamera_progress]
  exact (irCameraSystemEnableLeds_keeps false .none s).progress

/-- Where a focus sweep is in progress, the timeout takes no camera away. -/
theorem irCameraSystemTimeoutDisable_keeps (hfocus : s.focusSweepInProgress = true) :
    KeepsSweep s (irCameraSystemTimeoutDisable b s).2 := by
  have hcamera (camera : Camera) {t : IrCameraState} (h : KeepsSweep s t) :
      KeepsSweep s (setCamera b false camera t).2 := by
    have hbusy : t.focusSweepInProgress = true := (congrArg (·.2.1) h.progress).trans hfocus
    refine h.trans (setCamera_keeps fun hno => ?_)
    rw [hbusy] at hno
    contradiction
  exact hcamera .tof2d (hcamera .irFace (hcamera .irEye (irCameraSystemEnableLeds_keeps false .none s)))

theorem rgbIrStrobeIsr_keeps (level : Bool) (counter : UInt32) (s : IrCameraState) :
    KeepsSweep s (rgbIrStrobeIsr level counter s).2 := by
  cases level with
  | false =>
    -- the frame rate and the enabled cameras are what they were
    have hedge (master : IrCameraState) (h : KeepsSweep s master) :
        KeepsSweep s (irLedsEnablePulse .diamond (cameraEnableTrigger .diamond _ .tof2d
          (cameraEnableTrigger .diamond _ .irEye (irLedsSetPulseLength .diamond master).2.2))).2 :=
      (((h.trans (irLedsSetPulseLength_keeps master)).trans (cameraEnabled_keeps .irEye _)).trans
        (cameraEnabled_keeps .tof2d _)).trans (irLedsEnablePulse_keeps _)
    simp only [rgbIrStrobeIsr, if_true]
    split
    · exact hedge _ (.of_sweep rfl)
    · exact hedge _ (.of_sweep rfl)
  | true =>
    simp only [rgbIrStrobeIsr, Bool.true_eq_false, if_false]
    split_ifs <;> exact .of_sweep rfl

/-! Invariant and progress. -/

structure SweepInv (s : IrCameraState) : Prop where
  initialized : s.initialized = true
  armed : s.sweeping = true → Armed s
  one : s.focusSweepInProgress = true → s.mirrorSweepInProgress = false
  focus : s.focusSweepInProgress = true → s.sweepIndex ≤ s.numFocusValues
  mirror : s.mirrorSweepInProgress = true → s.sweepIndex ≤ s.numMirrorFrames

/-- What a step makes of a sweep: it goes on, with `exposed` exposures less to come. -/
structure SweepStep (s t : IrCameraState) (exposed : Nat) : Prop where
  inv : SweepInv t
  left : s.sweeping = true → t.sweeping = true → t.exposuresLeft+exposed ≤ s.exposuresLeft

theorem SweepInv.runs (h : SweepInv s) : SweepRuns s :=
  fun hsweeping => ⟨(h.armed hsweeping).fps, (h.armed hsweeping).trigger⟩

theorem SweepInv.left_pos (h : SweepInv s) (hsweeping : s.sweeping = true) : 0 < s.exposuresLeft := by
  rw [IrCameraState.exposuresLeft]
  split
  · have := h.focus ‹_›
    omega
  · split
    · have := h.mirror ‹_›
      omega
    · simp_all [IrCameraState.sweeping]

/-- A step that leaves the sweeps where they are. -/
theorem SweepInv.stays (h : SweepInv s) (hprogress : t.progress = s.progress)
    (harmed : s.sweeping = true → Armed s → Armed t) : SweepStep s t 0 := by
  simp only [IrCameraState.progress, Prod.mk.injEq] at hprogress
  obtain ⟨hinit, hfocus, hmirror, hvalues, hframes, hindex⟩ := hprogress
  have hsweeping : t.sweeping = s.sweeping := by rw [IrCameraState.sweeping, hfocus, hmirror]; rfl
  constructor
  · constructor
    · exact hinit.trans h.initialized
    · intro hs
      rw [hsweeping] at hs
      exact harmed hs (h.armed hs)
    · rw [hfocus, hmirror]
      exact h.one
    · rw [hfocus, hindex, hvalues]
      exact h.focus
    · rw [hmirror, hindex, hframes]
      exact h.mirror
  · intro _ _
    simp only [IrCameraState.exposuresLeft, hfocus, hmirror, hvalues, hframes, hindex]
    exact Nat.le_refl _

theorem SweepInv.keeps (h : SweepInv s) (hkeeps : KeepsSweep s t) : SweepStep s t 0 :=
  h.stays hkeeps.progress fun _ => hkeeps.armed

/-- A sweep begins: it takes the camera, and there is nothing to do for less than a frame. -/
theorem irEyeCameraForce_armed (hfps : 0 < s.settings.fps) (hinterrupt : s.sweepInterrupt = true) :
    Armed (irEyeCameraForce b true s) := by
  rw [irEyeCameraForce, cameraHw, if_neg (fun h => by cases h.2)]
  refine ⟨hfps, ?_, ?_, hinterrupt⟩
  · exact Function.update_self Camera.irEye true s.cameraEnabled
  · have htrigger : (true && decide (0 < s.settings.fps)) = true := by rw [decide_eq_true hfps]; rfl
    exact (Function.update_self Camera.irEye (true && decide (0 < s.settings.fps)) s.cameraChannel).trans htrigger

theorem irEyeCameraForce_progress (enabled : Bool) (s : IrCameraState) :
    (irEyeCameraForce b enabled s).progress = s.progress := by
  rw [irEyeCameraForce, cameraHw]
  split <;> rfl

/-- Where a sweep begins, none is in progress, and there is a frame rate. -/
theorem sweepStatus_success {safetyTriggered : Bool} (h : sweepStatus safetyTriggered s = .success) :
    s.sweeping = false ∧ 0 < s.settings.fps := by
  simp only [sweepStatus] at h
  constructor
  · refine Bool.eq_false_iff.mpr fun hsweeping => ?_
    have hstatus := irCameraSystemGetStatus_sweeping safetyTriggered hsweeping
    rw [if_pos hstatus] at h
    exact hstatus h
  · refine UInt16.pos_iff_ne_zero.mpr fun hfps => ?_
    split_ifs at h with hstatus
    exact hstatus h

/-- Both sweeps begin alike. -/
theorem SweepInv.begins (h : SweepInv s) (hsweeping : s.sweeping = false) (hfps : 0 < s.settings.fps)
    (hinit : t.initialized = s.initialized) (hsettings : t.settings = s.settings) (hinterrupt : t.sweepInterrupt = true)
    (hone : t.focusSweepInProgress = true → t.mirrorSweepInProgress = false)
    (hfocus : t.focusSweepInProgress = true → t.sweepIndex ≤ t.numFocusValues)
    (hmirror : t.mirrorSweepInProgress = true → t.sweepIndex ≤ t.numMirrorFrames) :
    SweepStep s (irEyeCameraForce b true t) 0 := by
  have hprogress := irEyeCameraForce_progress (b := b) true t
  simp only [IrCameraState.progress, Prod.mk.injEq] at hprogress
  obtain ⟨hinit', hfocus', hmirror', hvalues', hframes', hindex'⟩ := hprogress
  refine ⟨⟨?_, fun _ => ?_, ?_, ?_, ?_⟩, fun hs => by rw [hsweeping] at hs; contradiction⟩
  · rw [hinit', hinit, h.initialized]
  · exact irEyeCameraForce_armed (hsettings ▸ hfps) hinterrupt
  · rwa [hfocus', hmirror']
  · rwa [hfocus', hindex', hvalues']
  · rwa [hmirror', hindex', hframes']

theorem SweepInv.performFocusSweep (h : SweepInv s) (safetyTriggered : Bool) :
    SweepStep s (irCameraSystemPerformFocusSweep b safetyTriggered s).2 0 := by
  simp only [irCameraSystemPerformFocusSweep]
  split_ifs with hstatus hvalues
  · exact h.keeps (.refl s)
  · obtain ⟨hsweeping, hfps⟩ := sweepStatus_success (of_not_not hstatus)
    have hmirror : s.mirrorSweepInProgress = false := (Bool.or_eq_false_iff.mp hsweeping).2
    refine h.begins hsweeping hfps rfl rfl rfl (fun _ => hmirror) (fun _ => hvalues) fun hno => ?_
    exact absurd (hmirror.symm.trans hno) Bool.false_ne_true
  · exact h.keeps (.refl s)

theorem SweepInv.performMirrorSweep (h : SweepInv s) (safetyTriggered : Bool) :
    SweepStep s (irCameraSystemPerformMirrorSweep b safetyTriggered s).2 0 := by
  simp only [irCameraSystemPerformMirrorSweep]
  split_ifs with hstatus hframes
  · exact h.keeps (.refl s)
  · obtain ⟨hsweeping, hfps⟩ := sweepStatus_success (of_not_not hstatus)
    have hfocus : s.focusSweepInProgress = false := (Bool.or_eq_false_iff.mp hsweeping).1
    refine h.begins hsweeping hfps rfl rfl rfl ?_ ?_ fun _ => Nat.zero_le _
    · intro hno
      exact absurd (hfocus.symm.trans hno) Bool.false_ne_true
    · intro hno
      exact absurd (hfocus.symm.trans hno) Bool.false_ne_true
  · exact h.keeps (.refl s)

/-- The frames of a focus sweep are set while none is in progress. -/
theorem SweepInv.setNumFocusValues (h : SweepInv s) (hfocus : s.focusSweepInProgress = false) (numFocusValues : Nat) :
    SweepStep s { s with numFocusValues } 0 := by
  refine ⟨⟨h.initialized, ?_, h.one, ?_, h.mirror⟩, ?_⟩
  · intro hs
    have harmed := h.armed hs
    exact ⟨harmed.fps, harmed.enabled, harmed.trigger, harmed.interrupt⟩
  · intro hno
    exact absurd (hfocus.symm.trans hno) nofun
  · intro _ _
    simp only [IrCameraState.exposuresLeft, hfocus, Bool.false_eq_true, if_false]
    exact Nat.le_refl _

theorem SweepInv.setNumMirrorFrames (h : SweepInv s) (hmirror : s.mirrorSweepInProgress = false) (numMirrorFrames : Nat) :
    SweepStep s { s with numMirrorFrames } 0 := by
  refine ⟨⟨h.initialized, ?_, h.one, h.focus, ?_⟩, ?_⟩
  · intro hs
    have harmed := h.armed hs
    exact ⟨harmed.fps, harmed.enabled, harmed.trigger, harmed.interrupt⟩
  · intro hno
    exact absurd (hmirror.symm.trans hno) nofun
  · intro _ _
    simp only [IrCameraState.exposuresLeft, hmirror, Bool.false_eq_true, if_false]
    exact Nat.le_refl _

/-- A sweep that is complete gives its camera and its interrupt back. -/
theorem SweepInv.completes (h : SweepInv s) (hinit : t.initialized = s.initialized) (hfocus : t.focusSweepInProgress = false)
    (hmirror : t.mirrorSweepInProgress = false) (exposed : Nat) : SweepStep s t exposed := by
  have hsweeping : t.sweeping = false := by rw [IrCameraState.sweeping, hfocus, hmirror]; rfl
  refine ⟨⟨hinit.trans h.initialized, ?_, ?_, ?_, ?_⟩, ?_⟩
  · intro hs
    exact absurd (hsweeping.symm.trans hs) nofun
  · intro _
    exact hmirror
  · intro hs
    exact absurd (hfocus.symm.trans hs) nofun
  · intro hs
    exact absurd (hmirror.symm.trans hs) nofun
  · intro _ hs
    exact absurd (hsweeping.symm.trans hs) nofun

/-- A sweep that is not goes on with its next frame. -/
theorem SweepInv.nextFrame (h : SweepInv s)
    (hfocus : s.focusSweepInProgress = true → s.sweepIndex ≠ s.numFocusValues)
    (hmirror : s.mirrorSweepInProgress = true → s.sweepIndex ≠ s.numMirrorFrames) :
    SweepStep s { s with sweepIndex := s.sweepIndex+1 } 1 := by
  refine ⟨⟨h.initialized, ?_, h.one, ?_, ?_⟩, ?_⟩
  · intro hs
    have harmed := h.armed hs
    exact ⟨harmed.fps, harmed.enabled, harmed.trigger, harmed.interrupt⟩
  · intro hs
    exact Nat.lt_of_le_of_ne (h.focus hs) (hfocus hs)
  · intro hs
    exact Nat.lt_of_le_of_ne (h.mirror hs) (hmirror hs)
  · intro hsweeping _
    have hpos := h.left_pos hsweeping
    simp only [IrCameraState.exposuresLeft] at hpos ⊢
    split_ifs at hpos ⊢ with hs hs'
    · omega
    · omega
    · exact absurd hpos (Nat.lt_irrefl 0)

/-- The end of an exposure is the end of the sweep, or one frame less is left. -/
theorem SweepInv.exposureCompletes (h : SweepInv s) : SweepStep s (cameraExposureCompletesIsr b s) 1 := by
  have hoff := irEyeCameraForce_progress (b := b) false { s with sweepInterrupt := false }
  simp only [IrCameraState.progress, Prod.mk.injEq] at hoff
  obtain ⟨hinit, hfocus', hmirror', -⟩ := hoff
  simp only [cameraExposureCompletesIsr]
  split_ifs with hfocus hlast hmirror hlast
  · refine h.completes ?_ rfl ?_ 1
    · exact hinit
    · exact hmirror'.trans (h.one hfocus)
  · exact h.nextFrame (fun _ => hlast) fun hs => absurd ((h.one hfocus).symm.trans hs) Bool.false_ne_true
  · refine h.completes ?_ ?_ rfl 1
    · exact hinit
    · exact hfocus'.trans (Bool.eq_false_iff.mpr hfocus)
  · exact h.nextFrame (fun hs => absurd hs hfocus) fun _ => hlast
  · exact h.nextFrame (fun hs => absurd hs hfocus) fun hs => absurd hs hmirror

theorem SweepInv.call (h : SweepInv s) (safetyTriggered : Bool) (c : IrCall) (hok : SweepSafe s (.call safetyTriggered c)) :
    SweepStep s (irCall b maxFocus safetyTriggered s c).2.2 0 := by
  cases c with
  | setCamera enabled camera =>
    refine h.stays (setCamera_progress enabled camera s) fun hsweeping => (setCamera_keeps fun hfocus => ?_).armed
    refine hok ?_
    rwa [IrCameraState.sweeping, hfocus] at hsweeping
  | setRgbFaceCamera enabled => exact h.keeps (setRgbFaceCamera_keeps enabled s)
  | enableLeds wavelength => exact h.keeps (irCameraSystemEnableLeds_keeps safetyTriggered wavelength s)
  | setFps fps =>
    refine h.stays (irCameraSystemSetFps_progress safetyTriggered fps s) fun hsweeping harmed => ?_
    exact (irCameraSystemSetFps_sweeping (b := b) safetyTriggered hsweeping (hok hsweeping)).symm ▸ harmed
  | setOnTimeUs onTimeUs => exact h.keeps (irCameraSystemSetOnTimeUs_keeps safetyTriggered onTimeUs s)
  | setFocusValues n =>
    simp only [irCall, irCameraSystemSetFocusValues]
    split_ifs with hmax hfocus
    · exact h.keeps (.refl s)
    · exact h.keeps (.refl s)
    · exact h.setNumFocusValues (Bool.eq_false_iff.mpr hfocus) n
  | setFocusPolynomial frames =>
    simp only [irCall, irCameraSystemSetFocusPolynomial]
    split_ifs with hfocus
    · exact h.keeps (.refl s)
    · exact h.setNumFocusValues (Bool.eq_false_iff.mpr hfocus) frames.toNat
  | performFocusSweep => exact h.performFocusSweep safetyTriggered
  | setMirrorPolynomial frames =>
    simp only [irCall, irCameraSystemSetMirrorPolynomial]
    split_ifs with hmirror
    · exact h.keeps (.refl s)
    · exact h.setNumMirrorFrames (Bool.eq_false_iff.mpr hmirror) frames.toNat
  | performMirrorSweep => exact h.performMirrorSweep safetyTriggered

theorem SweepInv.step (h : SweepInv s) (a : IrAction) (hok : SweepSafe s a) :
    SweepStep s (irStep b maxFocus s a).2 a.exposes.toNat := by
  cases a with
  | call safetyTriggered c => exact h.call safetyTriggered c hok
  | timeout =>
    refine h.stays (irCameraSystemTimeoutDisable_progress s) fun hsweeping => ?_
    have hmirror : s.mirrorSweepInProgress = false := hok
    have hfocus : s.focusSweepInProgress = true := by
      rwa [IrCameraState.sweeping, hmirror, Bool.or_false] at hsweeping
    exact (irCameraSystemTimeoutDisable_keeps hfocus).armed
  | exposureCompletes =>
    rw [irStep]
    split_ifs with hinterrupt
    · exact h.exposureCompletes
    · refine ⟨h, fun hsweeping _ => ?_⟩
      exact absurd (h.armed hsweeping).interrupt hinterrupt
  | strobe level counter =>
    rw [irStep]
    split_ifs
    · exact h.keeps (rgbIrStrobeIsr_keeps level counter s)
    · exact h.keeps (.refl s)

/-! The steps that are not safe. -/

theorem irLedsSetPulseLength_fps (s : IrCameraState) :
    (irLedsSetPulseLength b s).2.2.settings.fps = s.settings.fps := by
  simp only [irLedsSetPulseLength]
  split_ifs <;> rfl

theorem irLedsEnablePulse_settings (s : IrCameraState) : (irLedsEnablePulse b s).2.settings = s.settings := by
  simp only [irLedsEnablePulse]
  split_ifs <;> rfl

theorem applyNewTimerSettings_fps (s : IrCameraState) :
    (applyNewTimerSettings b s).2.settings.fps = s.settings.fps := by
  have hpulse (t : IrCameraState) : (applyPulse b t).2.settings = t.settings := by
    simp only [applyPulse]
    split
    · exact irLedsEnablePulse_settings t
    · rfl
  have htimers : (applyTimers b s).2.2.settings.fps = s.settings.fps := by
    cases b with
    | pearl => exact irLedsSetPulseLength_fps _
    | diamond =>
      simp only [applyTimers]
      split <;> exact irLedsSetPulseLength_fps _
  rw [applyNewTimerSettings, hpulse, htimers]

theorem irCameraSystemSetFps_zero (safetyTriggered : Bool) (s : IrCameraState) :
    (irCameraSystemSetFps b safetyTriggered 0 s).2.2.settings.fps = 0 := by
  have hcalc : (timerSettingsFromFps b 0 s.settings s.settings).value =
      (.success, { s.settings with fps := 0, masterPsc := 0, masterArr := 0 }) := by
    rw [timerSettingsFromFps, if_pos rfl, Calc.pure_value]
  have hmax : ¬maxFps < 0 := by decide
  simp only [irCameraSystemSetFps, if_neg hmax, if_true, ne_eq, not_true_eq_false, if_false, irCameraSystemSetFpsHw, hcalc,
    applyNewTimerSettings_fps]

/-- The camera of a mirror sweep can be taken away. -/
theorem setCamera_irEye_off (hinit : s.initialized = true) (hfocus : s.focusSweepInProgress = false) :
    (setCamera b false .irEye s).2.cameraChannel .irEye = false := by
  have hinit' : ¬s.initialized = false := by rw [hinit]; exact nofun
  have hfocus' : ¬s.focusSweepInProgress = true := by rw [hfocus]; exact nofun
  rw [setCamera, if_neg hinit', if_neg hfocus', cameraHw, if_neg (fun h => by cases h.2)]
  exact Function.update_self Camera.irEye (false && decide (0 < s.settings.fps)) s.cameraChannel

theorem setCamera_trigger {camera : Camera} (enabled : Bool) (hcamera : camera ≠ .irEye) :
    (setCamera b enabled camera s).2.cameraChannel .irEye = s.cameraChannel .irEye := by
  rw [setCamera]
  split
  · rfl
  · split
    · rfl
    · rw [cameraHw]
      split
      · rfl
      · exact Function.update_of_ne (Ne.symm hcamera) _ _

/-- A step that is not safe leaves a sweep without its frame rate or its trigger. -/
theorem SweepInv.unsafe (h : SweepInv s) (a : IrAction) (hnot : ¬SweepSafe s a) :
    ¬SweepRuns (irStep b maxFocus s a).2 := by
  have hmirror (hs : s.mirrorSweepInProgress = true) : s.focusSweepInProgress = false := by
    cases hfocus : s.focusSweepInProgress with
    | false => rfl
    | true => exact absurd (hs.symm.trans (h.one hfocus)) nofun
  have hsweeping {t : IrCameraState} (hprogress : t.progress = s.progress) : t.sweeping = s.sweeping := by
    simp only [IrCameraState.progress, Prod.mk.injEq] at hprogress
    rw [IrCameraState.sweeping, hprogress.2.1, hprogress.2.2.1]
    rfl
  intro hruns
  cases a with
  | call safetyTriggered c =>
    cases c with
    | setFps fps =>
      simp only [SweepSafe, not_forall, not_not] at hnot
      obtain ⟨hs, rfl⟩ := hnot
      have hfps := (hruns ((hsweeping (irCameraSystemSetFps_progress safetyTriggered 0 s)).trans hs)).1
      rw [irStep, irCall, irCameraSystemSetFps_zero] at hfps
      exact absurd hfps (by decide)
    | setCamera enabled camera =>
      simp only [SweepSafe, not_forall, Bool.not_eq_true] at hnot
      obtain ⟨hs, rfl, rfl⟩ := hnot
      have hswept : s.sweeping = true := by rw [IrCameraState.sweeping, hs, Bool.or_true]
      have htrigger := (hruns ((hsweeping (setCamera_progress false .irEye s)).trans hswept)).2
      exact absurd ((setCamera_irEye_off h.initialized (hmirror hs)).symm.trans htrigger) nofun
    | _ => exact hnot trivial
  | timeout =>
    simp only [SweepSafe, Bool.not_eq_false] at hnot
    have hswept : s.sweeping = true := by rw [IrCameraState.sweeping, hnot, Bool.or_true]
    have htrigger := (hruns ((hsweeping (irCameraSystemTimeoutDisable_progress s)).trans hswept)).2
    have hleds := (irCameraSystemEnableLeds_keeps (b := b) false .none s).progress
    simp only [IrCameraState.progress, Prod.mk.injEq] at hleds
    have hoff := setCamera_irEye_off (b := b) (hleds.1.trans h.initialized) (hleds.2.1.trans (hmirror hnot))
    simp only [irStep, irCameraSystemTimeoutDisable] at htrigger
    rw [setCamera_trigger false (by decide), setCamera_trigger false (by decide), hoff] at htrigger
    contradiction
  | _ => exact hnot trivial

theorem SweepInv.start : SweepInv irCameraStart where
  initialized := rfl
  armed := nofun
  one := nofun
  focus := nofun
  mirror := nofun

/-- The state after a run. -/
def irRun (b : Board) (maxFocus : Nat) (actions : List IrAction) : IrCameraState :=
  (Machine.run (irStep b maxFocus) irCameraStart actions).2

/-- The interrupts of the camera trigger in a run. -/
def exposures (actions : List IrAction) : Nat := actions.countP (·.exposes)

theorem exposures_eq (actions : List IrAction) : exposures actions = (actions.map (·.exposes.toNat)).sum := by
  induction actions with
  | nil => rfl
  | cons a actions ih =>
    rw [exposures] at ih
    rw [exposures, List.countP_cons, ih, List.map_cons, List.sum_cons, Nat.add_comm]
    cases a.exposes <;> rfl

/-- A sweep keeps its frame rate and the trigger of its camera exactly in the runs whose steps are safe, and there it
is over after as many exposures as it has left. -/
theorem sweeps_finish (b : Board) (maxFocus : Nat) (actions : List IrAction) :
    ((∀ pre, pre <+: actions → SweepRuns (irRun b maxFocus pre)) ↔
      Machine.Meets (irStep b maxFocus) SweepSafe irCameraStart actions) ∧
    (Machine.Meets (irStep b maxFocus) SweepSafe irCameraStart actions → ∀ pre rest, pre ++ rest = actions →
      (irRun b maxFocus pre).exposuresLeft ≤ exposures rest →
      ∃ more, more <+: rest ∧ (irRun b maxFocus (pre ++ more)).sweeping = false) := by
  have hstep (s : IrCameraState) (a : IrAction) (h : SweepInv s) (hok : SweepSafe s a) :
      SweepInv (irStep b maxFocus s a).2 := (h.step a hok).inv
  constructor
  · exact Machine.forall_prefix_iff (fun _ h => h.runs) hstep (fun _ a h => h.unsafe a) irCameraStart actions .start
  · rintro hsafe pre rest rfl hleft
    obtain ⟨hpre, hrest⟩ := Machine.meets_append.mp hsafe
    obtain ⟨more, hprefix, hend⟩ := Machine.ends_within hstep (fun _ h => h.left_pos) (fun s a h hok => (h.step a hok).left)
      (irRun b maxFocus pre) rest (Machine.meets_invariant hstep irCameraStart pre .start hpre) hrest
      (exposures_eq rest ▸ hleft)
    refine ⟨more, hprefix, ?_⟩
    rw [irRun, Machine.run_append]
    exact hend

/-- A focus sweep of three frames. -/
theorem sweeps_finish_focus :
    let actions := [IrAction.call false (.setFps 30), .call false (.setFocusValues 3), .call false .performFocusSweep] ++
      List.replicate 3 .exposureCompletes
    Machine.Meets (irStep .pearl 10) SweepSafe irCameraStart actions ∧
      (irRun .pearl 10 (actions.take 3)).exposuresLeft = 3 ∧
      ∀ pre, pre <+: actions → SweepRuns (irRun .pearl 10 pre) := by
  intro actions
  have hsafe : Machine.Meets (irStep .pearl 10) SweepSafe irCameraStart actions := by decide +kernel
  exact ⟨hsafe, by decide +kernel, (sweeps_finish .pearl 10 actions).1.mpr hsafe⟩

/-- A mirror sweep loses its camera to a call that a focus sweep refuses. -/
theorem sweep_stops : ¬∀ (b : Board) (maxFocus : Nat) (actions : List IrAction), SweepRuns (irRun b maxFocus actions) := by
  intro h
  have hruns := h .pearl 10 [.call false (.setFps 30), .call false (.setMirrorPolynomial 5),
    .call false .performMirrorSweep, .call false (.setCamera false .irEye)] (by decide +kernel)
  exact absurd hruns.2 (by decide +kernel)

end OrbFirmware.IrCamera

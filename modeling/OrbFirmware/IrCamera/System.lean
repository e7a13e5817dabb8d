import OrbFirmware.IrCamera.Hw

/-! `ir_camera_system.c` over the hardware: the calls with their checks, the sweeps, and the interrupts,
each running to its end. -/
namespace OrbFirmware.IrCamera
variable (b : Board) (maxNumberOfFocusValues : Nat)

/-- `ir_camera_system_get_status`, with what `optics_safety_circuit_triggered` says. -/
def irCameraSystemGetStatus (safetyTriggered : Bool) (s : IrCameraState) : RetCode :=
  if s.initialized = false then .notInitialized
  else if safetyTriggered then .forbidden
  else if s.focusSweepInProgress || s.mirrorSweepInProgress then .busy
  else .success

/-- `ir_camera_system_enable_x_camera` and `ir_camera_system_disable_x_camera`. -/
def setCamera (enabled : Bool) (camera : Camera) (s : IrCameraState) : RetCode × IrCameraState :=
  if s.initialized = false then (.notInitialized, s)
  else if s.focusSweepInProgress then (.busy, s)
  else (.success, cameraHw b enabled camera { s with cameraEnabled := Function.update s.cameraEnabled camera enabled })

/-- `ir_camera_system_enable_ir_eye_camera_force` and its disable twin. -/
def irEyeCameraForce (enabled : Bool) (s : IrCameraState) : IrCameraState :=
  cameraHw b enabled .irEye { s with cameraEnabled := Function.update s.cameraEnabled .irEye enabled }

/-- The same calls for the RGB face camera, whose enabling only pulses a pin. -/
def setRgbFaceCamera (enabled : Bool) (s : IrCameraState) : RetCode × IrCameraState :=
  if s.initialized = false then (.notInitialized, s)
  else if s.focusSweepInProgress then (.busy, s)
  else (.success, { s with rgbFaceEnabled := enabled })

/-- The wavelengths the board has no LEDs for. -/
def deprecatedWavelength : Board → Wavelength → Bool
  | .pearl, .nm740 | .pearl, .nm850Center | .pearl, .nm850Side | .pearl, .nm940Single => true
  | .diamond, .nm740 | .diamond, .nm850Right | .diamond, .nm850Left => true
  | _, _ => false

def irCameraSystemEnableLeds (safetyTriggered : Bool) (wavelength : Wavelength) (s : IrCameraState) :
    RetCode × List IrEvent × IrCameraState :=
  let ret := if wavelength = .none then .success else irCameraSystemGetStatus safetyTriggered s
  if ret ≠ .success then (ret, [], s)
  else if deprecatedWavelength b wavelength then (.invalidParam, [], s)
  else if s.enabledLedWavelength = wavelength then (.success, [], s)
  else (.success, irCameraSystemEnableLedsHw b { s with enabledLedWavelength := wavelength })

def irCameraSystemSetFps (safetyTriggered : Bool) (fps : UInt16) (s : IrCameraState) :
    RetCode × List IrEvent × IrCameraState :=
  if maxFps < fps then (.invalidParam, [], s)
  else
    let ret := if fps = 0 then .success else irCameraSystemGetStatus safetyTriggered s
    if ret ≠ .success then (ret, [], s)
    else irCameraSystemSetFpsHw b fps s

/-- A sweep in progress does not stop the on-time from being set. -/
def irCameraSystemSetOnTimeUs (safetyTriggered : Bool) (onTimeUs : UInt16) (s : IrCameraState) :
    RetCode × List IrEvent × IrCameraState :=
  if maxIrLedOnTimeUs b < onTimeUs then (.invalidParam, [], s)
  else
    let ret := if onTimeUs = 0 then .success else irCameraSystemGetStatus safetyTriggered s
    if ret ≠ .success ∧ ret ≠ .busy then (ret, [], s)
    else irCameraSystemSetOnTimeUsHw b onTimeUs s

/-- The bound is the size of the message's buffer, from its generated type. -/
def irCameraSystemSetFocusValues (numFocusValues : Nat) (s : IrCameraState) : RetCode × IrCameraState :=
  if maxNumberOfFocusValues < numFocusValues then (.invalidParam, s)
  else if s.focusSweepInProgress then (.busy, s)
  else (.success, { s with numFocusValues := numFocusValues })

def irCameraSystemSetFocusPolynomial (numberOfFrames : UInt32) (s : IrCameraState) : RetCode × IrCameraState :=
  if s.focusSweepInProgress then (.busy, s)
  else (.success, { s with numFocusValues := numberOfFrames.toNat })

def irCameraSystemSetMirrorPolynomial (numberOfFrames : UInt32) (s : IrCameraState) : RetCode × IrCameraState :=
  if s.mirrorSweepInProgress then (.busy, s)
  else (.success, { s with numMirrorFrames := numberOfFrames.toNat })

/-- The checks the two sweeps share. -/
def sweepStatus (safetyTriggered : Bool) (s : IrCameraState) : RetCode :=
  let ret := irCameraSystemGetStatus safetyTriggered s
  if ret ≠ .success then ret
  else if s.settings.fps = 0 then .invalidState
  else if s.cameraEnabled .irEye then .invalidState
  else .success

def irCameraSystemPerformFocusSweep (safetyTriggered : Bool) (s : IrCameraState) : RetCode × IrCameraState :=
  let ret := sweepStatus safetyTriggered s
  if ret ≠ .success then (ret, s)
  else if 0 < s.numFocusValues then
    (ret, irEyeCameraForce b true
      { s with focusSweepInProgress := true, sweepIndex := 1, sweepInterrupt := true })
  else (ret, s)

def irCameraSystemPerformMirrorSweep (safetyTriggered : Bool) (s : IrCameraState) : RetCode × IrCameraState :=
  let ret := sweepStatus safetyTriggered s
  if ret ≠ .success then (ret, s)
  else if 0 < s.numMirrorFrames then
    (ret, irEyeCameraForce b true
      { s with mirrorSweepInProgress := true, sweepIndex := 0, sweepInterrupt := true })
  else (ret, s)

/-- `camera_exposure_completes_isr` at the end of a pulse of the camera trigger timer. -/
def cameraExposureCompletesIsr (s : IrCameraState) : IrCameraState :=
  let s' :=
    if s.focusSweepInProgress then
      if s.sweepIndex = s.numFocusValues then
        { irEyeCameraForce b false { s with sweepInterrupt := false } with focusSweepInProgress := false }
      else s
    else if s.mirrorSweepInProgress then
      if s.sweepIndex = s.numMirrorFrames then
        { irEyeCameraForce b false { s with sweepInterrupt := false } with mirrorSweepInProgress := false }
      else s
    else s
  { s' with sweepIndex := s.sweepIndex+1 }

/-- `ir_camera_system_timeout_disable`, after a minute without calls. -/
def irCameraSystemTimeoutDisable (s : IrCameraState) : List IrEvent × IrCameraState :=
  let (_, events, s) := irCameraSystemEnableLeds b false .none s
  let (_, s) := setCamera b false .irEye s
  let (_, s) := setCamera b false .irFace s
  let (_, s) := setCamera b false .tof2d s
  (events, s)

inductive IrCall where
  | setCamera (enabled : Bool) (camera : Camera)
  | setRgbFaceCamera (enabled : Bool)
  | enableLeds (wavelength : Wavelength)
  | setFps (fps : UInt16)
  | setOnTimeUs (onTimeUs : UInt16)
  | setFocusValues (numFocusValues : Nat)
  | setFocusPolynomial (numberOfFrames : UInt32)
  | performFocusSweep
  | setMirrorPolynomial (numberOfFrames : UInt32)
  | performMirrorSweep

/-- A call, with the state of the safety circuit; or an interrupt. -/
inductive IrAction where
  | call (safetyTriggered : Bool) (c : IrCall)
  | timeout
  | exposureCompletes
  | strobe (level : Bool) (counter : UInt32)

def irCall (safetyTriggered : Bool) (s : IrCameraState) : IrCall → RetCode × List IrEvent × IrCameraState
  | .setCamera enabled camera => let (ret, s) := setCamera b enabled camera s; (ret, [], s)
  | .setRgbFaceCamera enabled => let (ret, s) := setRgbFaceCamera enabled s; (ret, [], s)
  | .enableLeds wavelength => irCameraSystemEnableLeds b safetyTriggered wavelength s
  | .setFps fps => irCameraSystemSetFps b safetyTriggered fps s
  | .setOnTimeUs onTimeUs => irCameraSystemSetOnTimeUs b safetyTriggered onTimeUs s
  | .setFocusValues n => let (ret, s) := irCameraSystemSetFocusValues maxNumberOfFocusValues n s; (ret, [], s)
  | .setFocusPolynomial n => let (ret, s) := irCameraSystemSetFocusPolynomial n s; (ret, [], s)
  | .performFocusSweep => let (ret, s) := irCameraSystemPerformFocusSweep b safetyTriggered s; (ret, [], s)
  | .setMirrorPolynomial n => let (ret, s) := irCameraSystemSetMirrorPolynomial n s; (ret, [], s)
  | .performMirrorSweep => let (ret, s) := irCameraSystemPerformMirrorSweep b safetyTriggered s; (ret, [], s)

/-- After `ir_camera_system_init`, which leaves the channels of the LED timers on. -/
def irCameraStart : IrCameraState := { initialized := true }

def irStep (s : IrCameraState) : IrAction → List IrEvent × IrCameraState
  | .call safetyTriggered c => (irCall b maxNumberOfFocusValues safetyTriggered s c).2
  | .timeout => irCameraSystemTimeoutDisable b s
  | .exposureCompletes => if s.sweepInterrupt then ([], cameraExposureCompletesIsr b s) else ([], s)
  | .strobe level counter => if s.strobeInterrupt then rgbIrStrobeIsr level counter s else ([], s)

/-! What the calls about cameras and sweeps leave alone. -/

/-- Everything the IR LEDs depend on is the same. -/
structure SameLeds (s t : IrCameraState) : Prop where
  settings : t.settings = s.settings
  tooCloseCounter : t.tooCloseCounter = s.tooCloseCounter
  ledChannel : t.ledChannel = s.ledChannel

section
variable {b : Board} {maxNumberOfFocusValues : Nat} {s t u : IrCameraState}

theorem SameLeds.refl (s : IrCameraState) : SameLeds s s := ⟨rfl, rfl, rfl⟩

theorem SameLeds.trans (h : SameLeds s t) (h' : SameLeds t u) : SameLeds s u :=
  ⟨h'.settings.trans h.settings, h'.tooCloseCounter.trans h.tooCloseCounter, h'.ledChannel.trans h.ledChannel⟩

theorem SameLeds.hw (h : SameLeds s t) (enabled : Bool) (camera : Camera) : SameLeds s (cameraHw b enabled camera t) := by
  rw [cameraHw]
  split
  · exact ⟨h.settings, h.tooCloseCounter, h.ledChannel⟩
  · exact ⟨h.settings, h.tooCloseCounter, h.ledChannel⟩

theorem SameLeds.force (h : SameLeds s t) (enabled : Bool) : SameLeds s (irEyeCameraForce b enabled t) := by
  apply SameLeds.hw
  exact ⟨h.settings, h.tooCloseCounter, h.ledChannel⟩

theorem setCamera_sameLeds (enabled : Bool) (camera : Camera) : SameLeds s (setCamera b enabled camera s).2 := by
  rw [setCamera]
  split_ifs
  · exact .refl s
  · exact .refl s
  · apply SameLeds.hw
    exact ⟨rfl, rfl, rfl⟩

theorem setRgbFaceCamera_sameLeds (enabled : Bool) : SameLeds s (setRgbFaceCamera enabled s).2 := by
  rw [setRgbFaceCamera]
  split_ifs <;> exact ⟨rfl, rfl, rfl⟩

theorem setFocusValues_sameLeds (n : Nat) : SameLeds s (irCameraSystemSetFocusValues maxNumberOfFocusValues n s).2 := by
  rw [irCameraSystemSetFocusValues]
  split_ifs <;> exact ⟨rfl, rfl, rfl⟩

theorem setFocusPolynomial_sameLeds (frames : UInt32) : SameLeds s (irCameraSystemSetFocusPolynomial frames s).2 := by
  rw [irCameraSystemSetFocusPolynomial]
  split <;> exact ⟨rfl, rfl, rfl⟩

theorem setMirrorPolynomial_sameLeds (frames : UInt32) : SameLeds s (irCameraSystemSetMirrorPolynomial frames s).2 := by
  rw [irCameraSystemSetMirrorPolynomial]
  split <;> exact ⟨rfl, rfl, rfl⟩

theorem performFocusSweep_sameLeds (safetyTriggered : Bool) :
    SameLeds s (irCameraSystemPerformFocusSweep b safetyTriggered s).2 := by
  simp only [irCameraSystemPerformFocusSweep]
  split_ifs
  · exact .refl s
  · apply SameLeds.force
    exact ⟨rfl, rfl, rfl⟩
  · exact .refl s

theorem performMirrorSweep_sameLeds (safetyTriggered : Bool) :
    SameLeds s (irCameraSystemPerformMirrorSweep b safetyTriggered s).2 := by
  simp only [irCameraSystemPerformMirrorSweep]
  split_ifs
  · exact .refl s
  · apply SameLeds.force
    exact ⟨rfl, rfl, rfl⟩
  · exact .refl s

theorem cameraExposureCompletesIsr_sameLeds : SameLeds s (cameraExposureCompletesIsr b s) := by
  have hoff : SameLeds s (irEyeCameraForce b false { s with sweepInterrupt := false }) := by
    apply SameLeds.force
    exact ⟨rfl, rfl, rfl⟩
  simp only [cameraExposureCompletesIsr]
  split_ifs
  · exact ⟨hoff.settings, hoff.tooCloseCounter, hoff.ledChannel⟩
  · exact ⟨rfl, rfl, rfl⟩
  · exact ⟨hoff.settings, hoff.tooCloseCounter, hoff.ledChannel⟩
  · exact ⟨rfl, rfl, rfl⟩
  · exact ⟨rfl, rfl, rfl⟩

end
end OrbFirmware.IrCamera

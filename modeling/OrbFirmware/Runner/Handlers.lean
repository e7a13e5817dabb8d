import OrbFirmware.Runner.Messages

/-! `runner.c`: the handlers of the Jetson's commands, the table that finds them by the payload's tag, and
what `runner_process_jobs_thread` does with one job. -/
namespace OrbFirmware.Runner
open Interaction

/-- What the board and the build fix. -/
structure BuildConfig where
  board : Board
  diamondCone : Bool
  memfault : Bool
  memfaultConnectivity : Bool
  buildFromCi : Bool

/-- `CONFIG_CAN_ADDRESS_MCU_TO_JETSON_TX`. -/
def canAddressMcuToJetsonTx : UInt32 := 0x80

def fullRingDegrees : Nat := 360

/-- `OPERATOR_LEDS_ALL_MASK`, of five LEDs on Pearl and one on Diamond. -/
def operatorLedsAllMask : Board → UInt32
  | .pearl => 0x1F
  | .diamond => 0x1

def rebootFlagOffsetByte : Nat := 0

def rebootInstaboot : UInt8 := 0xB0

def liquidLensMinCurrentMa : Int32 := -400

def liquidLensMaxCurrentMa : Int32 := 400

/-- `POLARIZER_WHEEL_MICROSTEPS_360_DEGREES`: 48 steps of eight microsteps. -/
def polarizerWheelMicrosteps360Degrees : UInt32 := 48*8

def polarizerMicrostepsPerSecond (ms : UInt32) : UInt32 := polarizerWheelMicrosteps360Degrees*1000/ms

def passThroughAngle : UInt32 := 0

def verticallyPolarizedAngle : UInt32 := 1200

def horizontallyPolarizedAngle : UInt32 := 2400

def ret (f : RetCall) : Handler Int := call (.ret f)

def async (f : AsyncCall) : Handler Int := call (.async f)

def bool (f : BoolCall) : Handler Bool := call (.bool f)

def void (f : VoidCall) : Handler Unit := call (.void f)

def jobAck (error : ErrorCode) (job : Context) : Handler Unit := do
  if job.remote = .canJetsonMessaging then
    call (.publishNew (.ack job.ackNumber error) job.remoteAddr)
  if error = .success then
    void .countJob

/-- A `switch` over the result of a call: the first code it equals, or `other`. -/
def ackOf (codes : List (RetCode × ErrorCode)) (other : ErrorCode) (result : Int) : ErrorCode :=
  match codes with
  | [] => other
  | (code, error)::rest => if result = code.value then error else ackOf rest other result

/-- What most handlers are: a call, and the acknowledgement its result asks for. -/
def ackResult (f : RetCall) (codes : List (RetCode × ErrorCode)) (other : ErrorCode) (job : Context) :
    Handler Unit := do
  let result ← ret f
  jobAck (ackOf codes other result) job

/-- The callback of the asynchronous calls: the code that a result is acknowledged with. -/
def handleErrCodeAck : Int → ErrorCode :=
  ackOf [(.success, .success), (.invalidParam, .range), (.notFound, .range), (.busy, .inProgress),
    (.invalidState, .inProgress), (.forbidden, .operationNotSupported)] .fail

def handleErrCode (context : Context) (err : Int) : Handler Unit := do
  if context.remote = .canJetsonMessaging then
    call (.publishNew (.ack context.ackNumber (handleErrCodeAck err)) context.remoteAddr)
  if err = RetCode.success.value then
    void .countJob

/-! The handlers, in the order of the source. -/

def handleInfraredLedsMessage (wavelength : UInt32) : Context → Handler Unit :=
  ackResult (.irCameraSystemEnableLeds wavelength)
    [(.success, .success), (.busy, .invalidState), (.forbidden, .forbidden),
      (.invalidParam, .operationNotSupported)] .fail

/-- `ir_camera_system_set_on_time_us` takes 16 bits. -/
def handleLedOnTimeMessage (onTimeUs : UInt32) : Context → Handler Unit :=
  ackResult (.irCameraSystemSetOnTimeUs onTimeUs.toUInt16)
    [(.success, .success), (.forbidden, .forbidden), (.invalidParam, .range)] .fail

def handleStartTriggeringIrEyeCameraMessage : Context → Handler Unit :=
  ackResult .irCameraSystemEnableIrEyeCamera [(.success, .success), (.busy, .invalidState)] .fail

def handleStopTriggeringIrEyeCameraMessage : Context → Handler Unit :=
  ackResult .irCameraSystemDisableIrEyeCamera [(.success, .success), (.busy, .invalidState)] .fail

/-- A call whose result does not matter, and success. -/
def ackDone (f : VoidCall) (job : Context) : Handler Unit := do
  void f
  jobAck .success job

def handleStartTriggeringIrFaceCameraMessage : Context → Handler Unit :=
  ackDone .irCameraSystemEnableIrFaceCamera

def handleStartTriggeringRgbFaceCameraMessage : Context → Handler Unit :=
  ackDone .irCameraSystemEnableRgbFaceCamera

def handleStopTriggeringRgbFaceCameraMessage : Context → Handler Unit :=
  ackDone .irCameraSystemDisableRgbFaceCamera

def handleStopTriggeringIrFaceCameraMessage : Context → Handler Unit :=
  ackDone .irCameraSystemDisableIrFaceCamera

def handleStartTriggering2dtofCameraMessage : Context → Handler Unit :=
  ackDone .irCameraSystemEnable2dTofCamera

def handleStopTriggering2dtofCameraMessage : Context → Handler Unit :=
  ackDone .irCameraSystemDisable2dTofCamera

def handleShutdown (delay : UInt32) (job : Context) : Handler Unit :=
  if 30 < delay then jobAck .range job
  else ackResult (.reboot delay) [(.success, .success)] .fail job

/-- With `CONFIG_MEMFAULT`. -/
def markReboot (cfg : BuildConfig) (reason : MfltRebootReason) : Handler Unit :=
  if cfg.memfault then void (.memfaultRebootMark reason) else pure ()

def handleRebootMessage (cfg : BuildConfig) (delay : UInt32) (job : Context) : Handler Unit := do
  if 60 < delay then
    jobAck .range job
  else
    let result ← ret (.reboot delay)
    if result = RetCode.success.value then
      jobAck .success job
      call (.publishNew (.shutdownJetsonRequestedReboot (delay*1000)) canAddressMcuToJetsonTx)
      markReboot cfg .jetsonRequestedReboot
    else
      jobAck .fail job

/-- The end of `handle_reboot_orb`, which an out-of-range delay reaches as well. -/
def rebootOrbFailed (job : Context) : Handler Unit := do
  void (.backupRegsWriteByte rebootFlagOffsetByte 0)
  jobAck .fail job

/-- The delays that `handle_reboot_orb` refuses. -/
def RebootOrbOutOfRange (delay : UInt32) : Prop := delay ≠ 0 ∧ (60 < delay ∨ delay < 10)

instance (delay : UInt32) : Decidable (RebootOrbOutOfRange delay) :=
  inferInstanceAs (Decidable (_ ∧ _))

def handleRebootOrb (cfg : BuildConfig) (delay : UInt32) (job : Context) : Handler Unit := do
  if RebootOrbOutOfRange delay then
    jobAck .range job
    rebootOrbFailed job
  else
    let flag ← ret (.backupRegsWriteByte rebootFlagOffsetByte rebootInstaboot)
    if flag = 0 then
      let result ← (if delay ≠ 0 then ret (.reboot delay) else pure flag)
      if result = 0 then
        markReboot cfg .jetsonRequestedRebootOrb
        jobAck .success job
      else
        rebootOrbFailed job
    else
      rebootOrbFailed job

def handleSetConfig (config : SetConfig) (job : Context) : Handler Unit :=
  match config with
  | .rebootBehavior behavior => ackResult (.configSetRebootBehavior behavior) [(.success, .success)] .fail job
  | .other _ => jobAck .range job

def handleBootComplete : Context → Handler Unit :=
  ackResult (.frontLedsBootProgressSet .done) [(.success, .success)] .fail

/-- The end of both mirror handlers: two calls, the second only after the first succeeded. -/
def ackMirrorAngles (phi theta : RetCall) (job : Context) : Handler Unit := do
  let busy ← bool .mirrorAutoHomingInProgress
  if busy then
    jobAck .inProgress job
  else
    let first ← ret phi
    let result ← (if first = RetCode.success.value then ret theta else pure first)
    jobAck (ackOf [(.success, .success), (.invalidParam, .range)] .fail result) job

def handleMirrorAngleMessage (msg : MirrorAngle) (job : Context) : Handler Unit :=
  match msg.angleType with
  | .horizontalVertical =>
    ackMirrorAngles (.mirrorSetAnglePhi (-((msg.horizontalAngle.toInt32-45000)/2)+45000).toUInt32)
      (.mirrorSetAngleTheta (msg.verticalAngle/2+90000).toUInt32) job
  | .phiTheta =>
    ackMirrorAngles (.mirrorSetAnglePhi msg.phiAngleMillidegrees)
      (.mirrorSetAngleTheta msg.thetaAngleMillidegrees) job
  | .other _ => jobAck .fail job

def handleTemperatureSamplePeriodMessage (samplePeriodMs : UInt32) : Context → Handler Unit :=
  ackResult (.temperatureSetSamplingPeriodMs samplePeriodMs) [(.success, .success)] .range

def handleFanSpeed (whichPayload : FanSpeedTag) (fanSpeed : UInt32) (job : Context) : Handler Unit := do
  let overtemp ← bool .temperatureIsInOvertemp
  if overtemp then
    jobAck .overTemperature job
  else
    match whichPayload with
    | .none | .percentage =>
      if 100 < fanSpeed then jobAck .range job
      else ackDone (.fanSetSpeedByPercentage fanSpeed) job
    | .value =>
      if 65535 < fanSpeed then jobAck .range job
      else ackDone (.fanSetSpeedByValue fanSpeed.toUInt16) job
    | .other _ => jobAck .operationNotSupported job

def handleUserLedsPattern (msg : UserLedsPattern) (job : Context) : Handler Unit :=
  if fullRingDegrees < msg.startAngle.toNat ∨ (fullRingDegrees : Int) < msg.angleLength.abs.toInt then
    jobAck .range job
  else
    ackResult (.frontLedsSetPattern msg.pattern msg.startAngle msg.angleLength msg.customColor
      msg.pulsingPeriodMs msg.pulsingScale) [(.success, .success)] .fail job

/-- The handlers of the LED sequences, with the two setters they choose from. -/
def ackLedsSequence (rgb24 argb32 : List UInt8 → RetCall) (sequence : LedsSequence) (job : Context) :
    Handler Unit :=
  match sequence with
  | .rgbUncompressed bytes => ackResult (rgb24 bytes) [(.success, .success)] .fail job
  | .argb32Uncompressed bytes => ackResult (argb32 bytes) [(.success, .success)] .fail job
  | .other _ => jobAck .fail job

def handleUserCenterLedsSequence : LedsSequence → Context → Handler Unit :=
  ackLedsSequence .frontLedsSetCenterLedsSequenceRgb24 .frontLedsSetCenterLedsSequenceArgb32

def handleUserRingLedsSequence : LedsSequence → Context → Handler Unit :=
  ackLedsSequence .frontLedsSetRingLedsSequenceRgb24 .frontLedsSetRingLedsSequenceArgb32

def handleDistributorLedsSequence : LedsSequence → Context → Handler Unit :=
  ackLedsSequence .operatorLedsSetLedsSequenceRgb24 .operatorLedsSetLedsSequenceArgb32

def handleConeLedsSequence (cfg : BuildConfig) (sequence : LedsSequence) (job : Context) : Handler Unit :=
  if cfg.diamondCone then
    ackLedsSequence .coneLedsSetLedsSequenceRgb24 .coneLedsSetLedsSequenceArgb32 sequence job
  else jobAck .fail job

def handleConeLedsPattern (cfg : BuildConfig) (msg : ConeLedsPattern) (job : Context) : Handler Unit :=
  if cfg.diamondCone then ackDone (.coneLedsSetPattern msg.pattern (msg.customColor.getD ⟨20, 20, 20⟩)) job
  else jobAck .operationNotSupported job

def handleWhiteLedsBrightness (brightness : UInt32) (job : Context) : Handler Unit :=
  if 1000 < brightness then jobAck .range job
  else ackDone (.whiteLedsSetBrightness brightness) job

def handleUserLedsBrightness (brightness : UInt32) (job : Context) : Handler Unit :=
  if 255 < brightness then jobAck .range job
  else ackDone (.frontLedsSetBrightness brightness) job

def handleDistributorLedsPattern (cfg : BuildConfig) (msg : DistributorLedsPattern) (job : Context) :
    Handler Unit :=
  if operatorLedsAllMask cfg.board < msg.ledsMask then jobAck .range job
  else
    ackResult (.operatorLedsSetPattern msg.pattern msg.ledsMask
      (if msg.pattern = .rgb then some msg.customColor else none)) [(.success, .success)] .fail job

def handleDistributorLedsBrightness (brightness : UInt32) (job : Context) : Handler Unit :=
  if 255 < brightness then jobAck .range job
  else ackResult (.operatorLedsSetBrightness brightness.toUInt8) [(.success, .success)] .fail job

def handleFwImgCrc (crc32 : UInt32) (job : Context) : Handler Unit := do
  void (.storeFwImgCrcContext job)
  let result ← async (.dfuSecondaryCheckAsync crc32)
  if result = -eInProgress then pure ()
  else jobAck (ackOf [(.invalidState, .invalidState)] .fail result) job

def handleFwImgSecActivate (forcePermanent : Bool) : Context → Handler Unit :=
  ackResult (if forcePermanent then .dfuSecondaryActivatePermanently else .dfuSecondaryActivateTemporarily)
    [(.success, .success)] .fail

/-- The comparison of `handle_fw_img_primary_confirm`; the build number plays no part. -/
def ImageVersion.OlderThan (primary secondary : ImageVersion) : Prop :=
  primary.ivMajor < secondary.ivMajor ∨
    (primary.ivMajor = secondary.ivMajor ∧ primary.ivMinor < secondary.ivMinor) ∨
    (primary.ivMajor = secondary.ivMajor ∧ primary.ivMinor = secondary.ivMinor ∧
      primary.ivRevision < secondary.ivRevision)

instance (primary secondary : ImageVersion) : Decidable (primary.OlderThan secondary) :=
  inferInstanceAs (Decidable (_ ∨ _))

def confirmPrimary (job : Context) : Handler Unit := do
  let confirmed ← bool .dfuPrimaryIsConfirmed
  if confirmed then jobAck .invalidState job
  else ackResult .dfuPrimaryConfirm [(.success, .success)] .fail job

def handleFwImgPrimaryConfirm (job : Context) : Handler Unit := do
  let secondary ← call .dfuVersionSecondaryGet
  if secondary.1 = RetCode.success.value then
    let primary ← call .dfuVersionPrimaryGet
    if ImageVersion.OlderThan primary secondary.2 then jobAck .version job
    else confirmPrimary job
  else confirmPrimary job

def handleFps (fps : UInt32) : Context → Handler Unit :=
  ackResult (.irCameraSystemSetFps fps.toUInt16)
    [(.success, .success), (.busy, .invalidState), (.forbidden, .forbidden), (.invalidParam, .range)] .fail

def handleDfuBlockMessage (blockNumber blockCount : UInt32) (imageBlock : List UInt8) (job : Context) :
    Handler Unit := do
  void (.storeDfuBlockContext job)
  let result ← async (.dfuLoad blockNumber blockCount imageBlock)
  if result = -eInProgress then pure ()
  else
    jobAck (ackOf [(.success, .success), (.noMem, .invalidState), (.invalidParam, .range),
      (.busy, .inProgress)] .fail result) job

/-- The result is the bitwise or of those of the two calls; only its being zero counts. -/
def autohomingPearl (axis : HomingAngle) : Handler Bool := do
  let phi ← (if axis = .both ∨ axis = .horizontalPhi then ret (.mirrorAutohoming (some .phiAngle))
    else pure 0)
  let theta ← (if axis = .both ∨ axis = .verticalTheta then ret (.mirrorAutohoming (some .thetaAngle))
    else pure 0)
  pure (phi = 0 ∧ theta = 0)

def ackHoming (ok : Bool) (job : Context) : Handler Unit :=
  jobAck (if ok then .success else .fail) job

def handleDoMirrorHoming (cfg : BuildConfig) (mode : HomingMode) (axis : HomingAngle) (job : Context) :
    Handler Unit := do
  let busy ← bool .mirrorAutoHomingInProgress
  if busy then
    jobAck .inProgress job
  else
    match mode, cfg.board with
    | .stallDetection, _ => jobAck .operationNotSupported job
    | .oneBlockingEnd, .pearl => do
      let ok ← autohomingPearl axis
      ackHoming ok job
    | .withKnownCoordinates, .pearl => ackHoming true job
    | .oneBlockingEnd, .diamond => do
      let result ← ret (.mirrorAutohoming none)
      ackHoming (result = 0) job
    | .withKnownCoordinates, .diamond => do
      let result ← ret .mirrorGoHome
      ackHoming (result = 0) job
    | .other _, _ => jobAck .operationNotSupported job

def handleLiquidLens (current : Int32) (enable : Bool) (job : Context) : Handler Unit := do
  if liquidLensMinCurrentMa ≤ current ∧ current ≤ liquidLensMaxCurrentMa then
    let err ← ret (.liquidSetTargetCurrentMa current)
    jobAck (ackOf [(.success, .success), (.busy, .invalidState)] .fail err) job
    if err = RetCode.success.value then
      void (if enable then .liquidLensEnable else .liquidLensDisable)
  else
    jobAck .range job

def handlePowerCycle (line durationMs : UInt32) : Context → Handler Unit :=
  ackResult (.powerCycleSupply line durationMs)
    [(.success, .success), (.notFound, .operationNotSupported), (.invalidParam, .range),
      (.forbidden, .forbidden)] .fail

/-- The two commands that start the wheel's thread. -/
def ackPolarizerAsync (f : RetCall) : Context → Handler Unit :=
  ackResult f [(.success, .success), (.busy, .inProgress)] .invalidState

def handlePolarizer (msg : Polarizer) (job : Context) : Handler Unit :=
  let frequency := if msg.speed ≠ 0 then polarizerMicrostepsPerSecond msg.speed else 0
  let setAngle (angle : UInt32) : Handler Unit :=
    ackResult (.polarizerWheelSetAngle frequency angle msg.shortestPath)
      [(.success, .success), (.busy, .inProgress), (.invalidParam, .range)] .fail job
  match msg.command with
  | .home => ackPolarizerAsync .polarizerWheelHomeAsync job
  | .passThrough => setAngle passThroughAngle
  | .horizontal0 => setAngle horizontallyPolarizedAngle
  | .vertical90 => setAngle verticallyPolarizedAngle
  | .customAngle => setAngle msg.angleDecidegrees
  | .calibrateHome => ackPolarizerAsync .polarizerWheelCalibrateAsync job
  | .other _ => jobAck .operationNotSupported job

def handlePolarizerWheelSettings (accelerationStepsPerS2 maxSpeedMsPerTurn : UInt32) (job : Context) :
    Handler Unit := do
  void (.polarizerWheelSetAcceleration accelerationStepsPerS2)
  ackDone (.polarizerWheelSetMaxSpeed maxSpeedMsPerTurn) job

def handleVoltageRequest (transmitPeriodMs : UInt32) : Context → Handler Unit :=
  ackDone (.voltageMeasurementSetPublishPeriod transmitPeriodMs)

def handleHeartbeat (timeoutSeconds : UInt32) : Context → Handler Unit :=
  ackResult (.heartbeatBoom timeoutSeconds) [(.success, .success)] .fail

def handleMirrorAngleRelativeMessage (msg : MirrorAngleRelative) (job : Context) : Handler Unit :=
  match msg.angleType with
  | .horizontalVertical =>
    ackMirrorAngles (.mirrorSetAnglePhiRelative (-(msg.horizontalAngle/2)))
      (.mirrorSetAngleThetaRelative (msg.verticalAngle/2)) job
  | .phiTheta =>
    ackMirrorAngles (.mirrorSetAnglePhiRelative msg.phiAngleMillidegrees)
      (.mirrorSetAngleThetaRelative msg.thetaAngleMillidegrees) job
  | .other _ => jobAck .fail job

def handleValueGetMessage (value : ValueGet) (job : Context) : Handler Unit := do
  void (.frontLedsBootProgressSet .jetsonValueget)
  match value with
  | .firmwareVersions => ackDone (.versionFwSend job.remoteAddr) job
  | .hardwareVersions => ackDone (.versionHwSend job.remoteAddr) job
  | .conePresent => ackDone (.uiConePresentSend job.remoteAddr) job
  | .other _ => jobAck .range job

def handleIrEyeCameraFocusSweepLensValues (focusValues : List UInt8) : Context → Handler Unit :=
  ackResult (.irCameraSystemSetFocusValuesForFocusSweep focusValues (focusValues.length/2))
    [(.success, .success), (.busy, .invalidState), (.invalidParam, .range)] .fail

def handleIrEyeCameraFocusSweepValuesPolynomial (polynomial : SweepPolynomial) : Context → Handler Unit :=
  ackResult (.irCameraSystemSetPolynomialCoefficientsForFocusSweep polynomial)
    [(.success, .success), (.busy, .invalidState)] .fail

/-- The two handlers that start a sweep. -/
def ackSweep (f : RetCall) : Context → Handler Unit :=
  ackResult f
    [(.busy, .inProgress), (.invalidState, .invalidState), (.forbidden, .forbidden), (.success, .success)] .fail

def handlePerformIrEyeCameraFocusSweep : Context → Handler Unit :=
  ackSweep .irCameraSystemPerformFocusSweep

def handleIrEyeCameraMirrorSweepValuesPolynomial (polynomial : SweepPolynomial) : Context → Handler Unit :=
  ackResult (.irCameraSystemSetPolynomialCoefficientsForMirrorSweep polynomial)
    [(.success, .success), (.busy, .invalidState)] .fail

def handlePerformIrEyeCameraMirrorSweep : Context → Handler Unit :=
  ackSweep .irCameraSystemPerformMirrorSweep

/-- With `CONFIG_MEMFAULT_METRICS_CONNECTIVITY_CONNECTED_TIME`. -/
def trackConnection (cfg : BuildConfig) (interval : UInt32) : Handler Unit :=
  if cfg.memfaultConnectivity then do
    void (if interval ≠ 0 then .connectionTimerStart (interval*3) else .connectionTimerStop)
    void .memfaultConnected
  else pure ()

def handleSyncDiagData (cfg : BuildConfig) (interval : UInt32) (job : Context) : Handler Unit := do
  trackConnection cfg interval
  ackDone .publishFlush job

/-- The fault that an action triggers, past the acknowledgement; some of these do not return. -/
def diagTestFault : DiagTestAction → Option ErrorCase
  | .triggerWatchdog => some .fatalWatchdog
  | .triggerAssertHard => some .userAssertHard
  | .triggerBusfault => some .fatalBusfault
  | .triggerHardfault => some .fatalIllegalInstruction
  | .triggerMemmanage => some .fatalMemmanage
  | .triggerUsagefault => some .fatalAccess
  | .triggerKPanic => some .fatalKPanic
  | .triggerKOops => some .fatalKOops
  | .triggerAssertSoft | .triggerLog | .other _ => none

def handleDiagTestData (cfg : BuildConfig) (action : DiagTestAction) (job : Context) : Handler Unit := do
  if cfg.buildFromCi then
    jobAck .operationNotSupported job
  else
    jobAck .success job
    match diagTestFault action with
    | some errorCase => void (.fatalErrorsTrigger errorCase)
    | none => pure ()

def TimeDate.tm (time : TimeDate) : Tm :=
  ⟨time.year.toInt32-1900, time.month.toInt32-1, time.day.toInt32, time.hour.toInt32, time.min.toInt32,
    time.sec.toInt32⟩

def handleSetTime (time : SetTime) (job : Context) : Handler Unit := do
  void (.frontLedsBootProgressSet .dateSet)
  let result ← (match time with
    | .humanReadable date => ret (.dateSetTime date.tm)
    | .epochTime epoch => ret (.dateSetTimeEpoch epoch)
    | .other _ => pure RetCode.invalidParam.value)
  if result = -eInval then jobAck .range job
  else jobAck (ackOf [(.success, .success), (.invalidParam, .range)] .fail result) job

def handleNotSupported : Context → Handler Unit := jobAck .operationNotSupported

/-- `handle_message_callbacks`: the handler of a payload's tag, if the board has one. -/
def handleMessageCallbacks (cfg : BuildConfig) : JetsonToMcu → Option (Context → Handler Unit)
  | .shutdown delay => some (handleShutdown delay)
  | .reboot delay => some (handleRebootMessage cfg delay)
  | .mirrorAngle angle => some (handleMirrorAngleMessage angle)
  | .doHoming mode angle => some (handleDoMirrorHoming cfg mode angle)
  | .infraredLeds wavelength => some (handleInfraredLedsMessage wavelength)
  | .ledOnTime onDurationUs => some (handleLedOnTimeMessage onDurationUs)
  | .userLedsPattern pattern => some (handleUserLedsPattern pattern)
  | .userLedsBrightness brightness => some (handleUserLedsBrightness brightness)
  | .distributorLedsPattern pattern => some (handleDistributorLedsPattern cfg pattern)
  | .distributorLedsBrightness brightness => some (handleDistributorLedsBrightness brightness)
  | .dfuBlock number count block => some (handleDfuBlockMessage number count block)
  | .startTriggeringIrEyeCamera => some handleStartTriggeringIrEyeCameraMessage
  | .stopTriggeringIrEyeCamera => some handleStopTriggeringIrEyeCameraMessage
  | .startTriggeringIrFaceCamera => some handleStartTriggeringIrFaceCameraMessage
  | .stopTriggeringIrFaceCamera => some handleStopTriggeringIrFaceCameraMessage
  | .startTriggering2dtofCamera => some handleStartTriggering2dtofCameraMessage
  | .stopTriggering2dtofCamera => some handleStopTriggering2dtofCameraMessage
  | .temperatureSamplePeriod ms => some (handleTemperatureSamplePeriodMessage ms)
  | .fanSpeed which payload => some (handleFanSpeed which payload)
  | .fps fps => some (handleFps fps)
  | .liquidLens current enable => some (handleLiquidLens current enable)
  | .voltageRequest ms => some (handleVoltageRequest ms)
  | .fwImageCheck crc32 => some (handleFwImgCrc crc32)
  | .fwImageSecondaryActivate permanent => some (handleFwImgSecActivate permanent)
  | .heartbeat seconds => some (handleHeartbeat seconds)
  | .mirrorAngleRelative angle => some (handleMirrorAngleRelativeMessage angle)
  | .valueGet value => some (handleValueGetMessage value)
  | .centerLedsSequence sequence => some (handleUserCenterLedsSequence sequence)
  | .distributorLedsSequence sequence => some (handleDistributorLedsSequence sequence)
  | .ringLedsSequence sequence => some (handleUserRingLedsSequence sequence)
  | .fwImagePrimaryConfirm => some handleFwImgPrimaryConfirm
  | .irEyeCameraFocusSweepLensValues values => some (handleIrEyeCameraFocusSweepLensValues values)
  | .irEyeCameraFocusSweepValuesPolynomial p => some (handleIrEyeCameraFocusSweepValuesPolynomial p)
  | .performIrEyeCameraFocusSweep => some handlePerformIrEyeCameraFocusSweep
  | .irEyeCameraMirrorSweepValuesPolynomial p => some (handleIrEyeCameraMirrorSweepValuesPolynomial p)
  | .performIrEyeCameraMirrorSweep => some handlePerformIrEyeCameraMirrorSweep
  | .syncDiagData interval => some (handleSyncDiagData cfg interval)
  | .diagTest action => some (handleDiagTestData cfg action)
  | .powerCycle line ms => some (handlePowerCycle line ms)
  | .setTime time => some (handleSetTime time)
  | .rebootOrb delay => some (handleRebootOrb cfg delay)
  | .bootComplete => some handleBootComplete
  | .setConfig config => some (handleSetConfig config)
  | .startTriggeringRgbFaceCamera => some handleStartTriggeringRgbFaceCameraMessage
  | .stopTriggeringRgbFaceCamera => some handleStopTriggeringRgbFaceCameraMessage
  | .coneLedsSequence sequence =>
    match cfg.board with
    | .diamond => some (handleConeLedsSequence cfg sequence)
    | .pearl => some handleNotSupported
  | .coneLedsPattern pattern =>
    match cfg.board with
    | .diamond => some (handleConeLedsPattern cfg pattern)
    | .pearl => some handleNotSupported
  | .whiteLedsBrightness brightness =>
    match cfg.board with
    | .diamond => some (handleWhiteLedsBrightness brightness)
    | .pearl => some handleNotSupported
  | .polarizer msg =>
    match cfg.board with
    | .diamond => some (handlePolarizer msg)
    | .pearl => none
  | .polarizerWheelSettings acceleration maxSpeed =>
    match cfg.board with
    | .diamond => some (handlePolarizerWheelSettings acceleration maxSpeed)
    | .pearl => none
  | .other _ => none

def handleJetsonCmd (cfg : BuildConfig) (cmd : JetsonToMcu) (job : Context) : Handler Unit :=
  match handleMessageCallbacks cfg cmd with
  | some handler => handler job
  | none => jobAck .operationNotSupported job

/-- `handle_sec_message_callbacks`, with `handle_sec_to_main_ping`. -/
def handleSecCmd (cmd : SecToMain) (job : Context) : Handler Unit :=
  match cmd with
  | .pingPong ping => void (.pingReceived ping)
  | .other _ => jobAck .operationNotSupported job

/-- Jobs from UART and from the shell have no remote address. -/
def allowResponse (remoteAddr : UInt32) : Handler Unit :=
  if remoteAddr ≠ 0 then void (.subscribeAdd remoteAddr) else pure ()

/-- One round of `runner_process_jobs_thread`, from the job `k_msgq_get` returned. -/
def runnerProcessJob (cfg : BuildConfig) (job : Job) : Handler Unit := do
  allowResponse job.remoteAddr
  match job with
  | ⟨⟨.canSecMcuMessaging, remoteAddr, ackNumber⟩, cmd⟩ =>
    handleSecCmd cmd ⟨.canSecMcuMessaging, remoteAddr, ackNumber⟩
  | ⟨⟨.canJetsonMessaging, remoteAddr, ackNumber⟩, cmd⟩ =>
    handleJetsonCmd cfg cmd ⟨.canJetsonMessaging, remoteAddr, ackNumber⟩
  | ⟨⟨.uartMessaging, remoteAddr, ackNumber⟩, cmd⟩ =>
    handleJetsonCmd cfg cmd ⟨.uartMessaging, remoteAddr, ackNumber⟩
  | ⟨⟨.cli, remoteAddr, ackNumber⟩, cmd⟩ => handleJetsonCmd cfg cmd ⟨.cli, remoteAddr, ackNumber⟩

end OrbFirmware.Runner

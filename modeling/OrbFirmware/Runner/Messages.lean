import OrbFirmware.Flash
import OrbFirmware.Interaction

/-! What `runner.c` works on: the commands of the Jetson as they are decoded, the job made of each, and the
functions of other modules its handlers call. -/
namespace OrbFirmware
open Interaction

/-- The values of `ret_code_t`. -/
def RetCode.value : RetCode → Int
  | .success => 0x00
  | .internal => 0x01
  | .noMem => 0x02
  | .notFound => 0x03
  | .invalidParam => 0x04
  | .invalidState => 0x05
  | .invalidAddr => 0x06
  | .busy => 0x07
  | .offline => 0x08
  | .forbidden => 0x09
  | .timeout => 0x0A
  | .notInitialized => 0x0B
  | .assertFails => 0x0C
  | .alreadyInitialized => 0x0D
  | .notSupported => 0x0E
  | .unsafeState => 0x0F

namespace Runner

def eInval : Int := 22

def eInProgress : Int := 119

/-- `orb_mcu_Ack_ErrorCode`. -/
inductive ErrorCode where
  | success | range | inProgress | operationNotSupported | fail | invalidState | version
  | overTemperature | forbidden
  deriving DecidableEq, Repr

/-- `enum remote_type_e`. -/
inductive RemoteType where
  | canJetsonMessaging | canSecMcuMessaging | uartMessaging | cli
  deriving DecidableEq, Repr

/-- `struct handle_error_context_s`, and the same three fields of a `job_t`. -/
structure Context where
  remote : RemoteType
  remoteAddr : UInt32
  ackNumber : UInt32
  deriving DecidableEq, Repr

/-! The messages. An enumeration that a handler looks into lists the values it knows, any other one keeps its
number; a `float` stands for its bits. -/

inductive MirrorAngleType where
  | horizontalVertical | phiTheta
  | other (value : UInt32)
  deriving DecidableEq, Repr

structure MirrorAngle where
  angleType : MirrorAngleType
  horizontalAngle : UInt32
  verticalAngle : Int32
  phiAngleMillidegrees : UInt32
  thetaAngleMillidegrees : UInt32
  deriving DecidableEq, Repr

structure MirrorAngleRelative where
  angleType : MirrorAngleType
  horizontalAngle : Int32
  verticalAngle : Int32
  phiAngleMillidegrees : Int32
  thetaAngleMillidegrees : Int32
  deriving DecidableEq, Repr

inductive HomingMode where
  | oneBlockingEnd | withKnownCoordinates | stallDetection
  | other (value : UInt32)
  deriving DecidableEq, Repr

inductive HomingAngle where
  | both | horizontalPhi | verticalTheta
  | other (value : UInt32)
  deriving DecidableEq, Repr

structure RgbColor where
  red : UInt32
  green : UInt32
  blue : UInt32
  deriving DecidableEq, Repr

structure UserLedsPattern where
  pattern : UInt32
  startAngle : UInt32
  angleLength : Int32
  customColor : Option RgbColor
  pulsingPeriodMs : UInt32
  pulsingScale : UInt32
  deriving DecidableEq, Repr

inductive DistributorRgbLedPattern where
  | rgb
  | other (value : UInt32)
  deriving DecidableEq, Repr

structure DistributorLedsPattern where
  pattern : DistributorRgbLedPattern
  ledsMask : UInt32
  customColor : RgbColor
  deriving DecidableEq, Repr

structure ConeLedsPattern where
  pattern : UInt32
  customColor : Option RgbColor
  deriving DecidableEq, Repr

/-- `data_format` of the LED sequences. -/
inductive LedsSequence where
  | rgbUncompressed (bytes : List UInt8)
  | argb32Uncompressed (bytes : List UInt8)
  | other (whichDataFormat : UInt32)
  deriving DecidableEq, Repr

/-- `which_payload` of a fan speed; `none` is the legacy message without a tag. -/
inductive FanSpeedTag where
  | none | percentage | value
  | other (whichPayload : UInt32)
  deriving DecidableEq, Repr

/-- A polynomial's coefficients with the number of frames it is evaluated for. -/
structure SweepPolynomial where
  coefs : List UInt32
  numberOfFrames : UInt32
  deriving DecidableEq, Repr

inductive PolarizerCommand where
  | home | passThrough | horizontal0 | vertical90 | customAngle | calibrateHome
  | other (value : UInt32)
  deriving DecidableEq, Repr

structure Polarizer where
  command : PolarizerCommand
  speed : UInt32
  angleDecidegrees : UInt32
  shortestPath : Bool
  deriving DecidableEq, Repr

inductive ValueGet where
  | firmwareVersions | hardwareVersions | conePresent
  | other (value : UInt32)
  deriving DecidableEq, Repr

inductive DiagTestAction where
  | triggerWatchdog | triggerAssertSoft | triggerAssertHard | triggerLog | triggerBusfault
  | triggerHardfault | triggerMemmanage | triggerUsagefault | triggerKPanic | triggerKOops
  | other (value : UInt32)
  deriving DecidableEq, Repr

/-- `orb_mcu_Time_Date`. -/
structure TimeDate where
  year : UInt32
  month : UInt32
  day : UInt32
  hour : UInt32
  min : UInt32
  sec : UInt32
  deriving DecidableEq, Repr

inductive SetTime where
  | humanReadable (time : TimeDate)
  | epochTime (epoch : Int)
  | other (whichFormat : UInt32)
  deriving DecidableEq, Repr

inductive SetConfig where
  | rebootBehavior (behavior : UInt32)
  | other (whichConfig : UInt32)
  deriving DecidableEq, Repr

/-- The payload of an `orb_mcu_main_JetsonToMcu`, by its tag; `other` is a tag without a handler. -/
inductive JetsonToMcu where
  | shutdown (delayS : UInt32)
  | reboot (delay : UInt32)
  | mirrorAngle (angle : MirrorAngle)
  | doHoming (homingMode : HomingMode) (angle : HomingAngle)
  | infraredLeds (wavelength : UInt32)
  | ledOnTime (onDurationUs : UInt32)
  | userLedsPattern (pattern : UserLedsPattern)
  | userLedsBrightness (brightness : UInt32)
  | distributorLedsPattern (pattern : DistributorLedsPattern)
  | distributorLedsBrightness (brightness : UInt32)
  | dfuBlock (blockNumber blockCount : UInt32) (imageBlock : List UInt8)
  | startTriggeringIrEyeCamera
  | stopTriggeringIrEyeCamera
  | startTriggeringIrFaceCamera
  | stopTriggeringIrFaceCamera
  | startTriggering2dtofCamera
  | stopTriggering2dtofCamera
  | temperatureSamplePeriod (samplePeriodMs : UInt32)
  | fanSpeed (whichPayload : FanSpeedTag) (payload : UInt32)
  | fps (fps : UInt32)
  | liquidLens (current : Int32) (enable : Bool)
  | voltageRequest (transmitPeriodMs : UInt32)
  | fwImageCheck (crc32 : UInt32)
  | fwImageSecondaryActivate (forcePermanent : Bool)
  | heartbeat (timeoutSeconds : UInt32)
  | mirrorAngleRelative (angle : MirrorAngleRelative)
  | valueGet (value : ValueGet)
  | centerLedsSequence (sequence : LedsSequence)
  | distributorLedsSequence (sequence : LedsSequence)
  | ringLedsSequence (sequence : LedsSequence)
  | fwImagePrimaryConfirm
  | irEyeCameraFocusSweepLensValues (focusValues : List UInt8)
  | irEyeCameraFocusSweepValuesPolynomial (polynomial : SweepPolynomial)
  | performIrEyeCameraFocusSweep
  | irEyeCameraMirrorSweepValuesPolynomial (polynomial : SweepPolynomial)
  | performIrEyeCameraMirrorSweep
  | syncDiagData (interval : UInt32)
  | diagTest (action : DiagTestAction)
  | powerCycle (line : UInt32) (durationMs : UInt32)
  | setTime (time : SetTime)
  | rebootOrb (forceRebootTimeoutS : UInt32)
  | bootComplete
  | setConfig (config : SetConfig)
  | startTriggeringRgbFaceCamera
  | stopTriggeringRgbFaceCamera
  | coneLedsSequence (sequence : LedsSequence)
  | coneLedsPattern (pattern : ConeLedsPattern)
  | whiteLedsBrightness (brightness : UInt32)
  | polarizer (polarizer : Polarizer)
  | polarizerWheelSettings (accelerationStepsPerS2 maxSpeedMsPerTurn : UInt32)
  | other (whichPayload : UInt32)
  deriving DecidableEq, Repr

/-- The payload of an `orb_mcu_sec_SecToMain`; the ping is passed on as it is. -/
inductive SecToMain where
  | pingPong (ping : List UInt8)
  | other (whichPayload : UInt32)
  deriving DecidableEq, Repr

/-- The member of the `message` union that a remote's jobs use. -/
abbrev RemoteType.Message : RemoteType → Type
  | .canSecMcuMessaging => SecToMain
  | _ => JetsonToMcu

/-- `job_t`. -/
structure Job extends Context where
  message : remote.Message

/-- `orb_mcu_main_McuToJetson` as far as the runner publishes it. -/
inductive McuToJetson where
  | ack (ackNumber : UInt32) (error : ErrorCode)
  | shutdownJetsonRequestedReboot (msUntilShutdown : UInt32)
  deriving DecidableEq, Repr

/-- `struct image_version` up to the build number. -/
structure ImageVersion where
  ivMajor : UInt8
  ivMinor : UInt8
  ivRevision : UInt16
  deriving DecidableEq, Repr

/-- `struct tm`. -/
structure Tm where
  tmYear : Int32
  tmMon : Int32
  tmMday : Int32
  tmHour : Int32
  tmMin : Int32
  tmSec : Int32
  deriving DecidableEq, Repr

/-- `motor_t`. -/
inductive Motor where
  | phiAngle | thetaAngle
  deriving DecidableEq, Repr

/-- `enum boot_progress_step_e`. -/
inductive BootProgressStep where
  | jetsonValueget | dateSet | done
  deriving DecidableEq, Repr

/-- `enum error_case_e`. -/
inductive ErrorCase where
  | fatalWatchdog | userAssertHard | fatalBusfault | fatalIllegalInstruction | fatalMemmanage
  | fatalAccess | fatalKPanic | fatalKOops
  deriving DecidableEq, Repr

inductive MfltRebootReason where
  | jetsonRequestedReboot | jetsonRequestedRebootOrb
  deriving DecidableEq, Repr

/-- Functions whose result the handlers look at. -/
inductive RetCall where
  | irCameraSystemEnableLeds (wavelength : UInt32)
  | irCameraSystemSetOnTimeUs (onTimeUs : UInt16)
  | irCameraSystemSetFps (fps : UInt16)
  | irCameraSystemEnableIrEyeCamera
  | irCameraSystemDisableIrEyeCamera
  | irCameraSystemSetFocusValuesForFocusSweep (focusValues : List UInt8) (numFocusValues : Nat)
  | irCameraSystemSetPolynomialCoefficientsForFocusSweep (polynomial : SweepPolynomial)
  | irCameraSystemPerformFocusSweep
  | irCameraSystemSetPolynomialCoefficientsForMirrorSweep (polynomial : SweepPolynomial)
  | irCameraSystemPerformMirrorSweep
  | reboot (delayS : UInt32)
  | backupRegsWriteByte (offset : Nat) (data : UInt8)
  | configSetRebootBehavior (behavior : UInt32)
  | frontLedsBootProgressSet (step : BootProgressStep)
  | mirrorSetAnglePhi (angleMillidegrees : UInt32)
  | mirrorSetAngleTheta (angleMillidegrees : UInt32)
  | mirrorSetAnglePhiRelative (angleMillidegrees : Int32)
  | mirrorSetAngleThetaRelative (angleMillidegrees : Int32)
  | mirrorAutohoming (motor : Option Motor)
  | mirrorGoHome
  | temperatureSetSamplingPeriodMs (samplePeriod : UInt32)
  | frontLedsSetPattern (pattern startAngle : UInt32) (angleLength : Int32) (color : Option RgbColor)
      (pulsingPeriodMs pulsingScale : UInt32)
  | frontLedsSetCenterLedsSequenceRgb24 (bytes : List UInt8)
  | frontLedsSetCenterLedsSequenceArgb32 (bytes : List UInt8)
  | frontLedsSetRingLedsSequenceRgb24 (bytes : List UInt8)
  | frontLedsSetRingLedsSequenceArgb32 (bytes : List UInt8)
  | operatorLedsSetLedsSequenceRgb24 (bytes : List UInt8)
  | operatorLedsSetLedsSequenceArgb32 (bytes : List UInt8)
  | coneLedsSetLedsSequenceRgb24 (bytes : List UInt8)
  | coneLedsSetLedsSequenceArgb32 (bytes : List UInt8)
  | operatorLedsSetPattern (pattern : DistributorRgbLedPattern) (mask : UInt32) (color : Option RgbColor)
  | operatorLedsSetBrightness (brightness : UInt8)
  | dfuSecondaryActivatePermanently
  | dfuSecondaryActivateTemporarily
  | dfuPrimaryConfirm
  | liquidSetTargetCurrentMa (newTargetCurrentMa : Int32)
  | powerCycleSupply (line durationOffMs : UInt32)
  | polarizerWheelHomeAsync
  | polarizerWheelCalibrateAsync
  | polarizerWheelSetAngle (frequency angle : UInt32) (shortestPath : Bool)
  | heartbeatBoom (delayS : UInt32)
  | dateSetTime (tmTime : Tm)
  | dateSetTimeEpoch (epoch : Int)
  deriving DecidableEq, Repr

/-- Functions that return a truth value. -/
inductive BoolCall where
  | mirrorAutoHomingInProgress
  | temperatureIsInOvertemp
  | dfuPrimaryIsConfirmed
  deriving DecidableEq, Repr

/-- The functions that take `handle_err_code` as their callback; each handler has a context of its own. -/
inductive AsyncCall where
  | dfuLoad (currentBlockNumber blockCount : UInt32) (data : List UInt8)
  | dfuSecondaryCheckAsync (crc32 : UInt32)
  deriving DecidableEq, Repr

/-- Functions without a result or whose result the handlers drop, and the stores to the static variables:
the contexts of the callbacks and `job_counter`. -/
inductive VoidCall where
  | subscribeAdd (remoteAddr : UInt32)
  | countJob
  | storeDfuBlockContext (context : Context)
  | storeFwImgCrcContext (context : Context)
  | irCameraSystemEnableIrFaceCamera
  | irCameraSystemDisableIrFaceCamera
  | irCameraSystemEnableRgbFaceCamera
  | irCameraSystemDisableRgbFaceCamera
  | irCameraSystemEnable2dTofCamera
  | irCameraSystemDisable2dTofCamera
  | frontLedsBootProgressSet (step : BootProgressStep)
  | fanSetSpeedByPercentage (percentage : UInt32)
  | fanSetSpeedByValue (value : UInt16)
  | coneLedsSetPattern (pattern : UInt32) (color : RgbColor)
  | whiteLedsSetBrightness (brightnessThousandth : UInt32)
  | frontLedsSetBrightness (brightness : UInt32)
  | liquidLensEnable
  | liquidLensDisable
  | polarizerWheelSetAcceleration (accelStepsPerS2 : UInt32)
  | polarizerWheelSetMaxSpeed (msPerTurn : UInt32)
  | voltageMeasurementSetPublishPeriod (publishPeriodMs : UInt32)
  | versionFwSend (remote : UInt32)
  | versionHwSend (remote : UInt32)
  | uiConePresentSend (remote : UInt32)
  | publishFlush
  | connectionTimerStart (seconds : UInt32)
  | connectionTimerStop
  | memfaultConnected
  | memfaultRebootMark (reason : MfltRebootReason)
  | fatalErrorsTrigger (errorCase : ErrorCase)
  | pingReceived (ping : List UInt8)
  | backupRegsWriteByte (offset : Nat) (data : UInt8)
  deriving DecidableEq, Repr

inductive Call where
  | publishNew (payload : McuToJetson) (remoteAddr : UInt32)
  | async (f : AsyncCall)
  | ret (f : RetCall)
  | bool (f : BoolCall)
  | void (f : VoidCall)
  | dfuVersionSecondaryGet
  | dfuVersionPrimaryGet
  deriving DecidableEq, Repr

/-- What a call is answered with; a version comes with the return code unless the handler drops it. -/
abbrev Call.Answer : Call → Type
  | .publishNew _ _ => Unit
  | .async _ => Int
  | .ret _ => Int
  | .bool _ => Bool
  | .void _ => Unit
  | .dfuVersionSecondaryGet => Int × ImageVersion
  | .dfuVersionPrimaryGet => ImageVersion

abbrev Handler := Program Call.Answer

abbrev Event := Exchange Call.Answer

def call (c : Call) : Handler c.Answer := .call c .done

end Runner
end OrbFirmware

import Mathlib.Logic.Function.Basic
import OrbFirmware.IrCamera.TimerSettings

/-! `ir_camera_system_hw.c`: what the IR camera system writes to the timers. -/
namespace OrbFirmware.IrCamera

/-- `orb_mcu_main_InfraredLEDs_Wavelength`, as decoded. -/
inductive Wavelength where
  | none | nm740 | nm850 | nm850Left | nm850Right | nm940 | nm940Left | nm940Right
  | nm850Center | nm850Side | nm940Single | unknown (value : UInt32)
  deriving DecidableEq, Repr

/-- `LED_850NM_TIMER` and `LED_940NM_TIMER`. -/
inductive LedTimer where
  | nm850 | nm940
  deriving DecidableEq, Repr

/-- The channels of the two LED timers; on Diamond the 850 nm ones are called center and side. -/
inductive LedChannel where
  | nm850Left | nm850Right | nm940Left | nm940Right | nm940Single
  deriving DecidableEq, Repr

/-- The cameras with a trigger channel; the face camera has one on Pearl only. -/
inductive Camera where
  | irEye | irFace | tof2d
  deriving DecidableEq, Repr

def irLedTimerStartDelayUs : UInt32 := 1

/-- `CAMERA_TRIGGER_TIMER_START_DELAY_US`. -/
def cameraTriggerTimerStartDelayUs : Board → UInt32
  | .pearl => 1
  | .diamond => 51

/-- `MAX(CAMERA_TRIGGER_TIMER_START_DELAY_US, IR_LED_TIMER_START_DELAY_US)`. -/
def startDelayUs (b : Board) : UInt32 := max (cameraTriggerTimerStartDelayUs b) irLedTimerStartDelayUs

/-- What reaches the outside: an auto-reload value of an LED timer with the start delay in it and the frame
rate then in force, a forced update of the master timer, and the end-of-pulse handler run by hand. -/
inductive IrEvent where
  | ledAutoReload (timer : LedTimer) (value startDelay : UInt32) (fps : UInt16)
  | masterUpdate
  | pulseFinished
  deriving DecidableEq, Repr

/-- The module's variables and the registers it writes. -/
structure IrCameraState where
  initialized : Bool := false
  focusSweepInProgress : Bool := false
  mirrorSweepInProgress : Bool := false
  numFocusValues : Nat := 0
  numMirrorFrames : Nat := 0
  sweepIndex : Nat := 0
  cameraEnabled : Camera → Bool := fun _ => false
  rgbFaceEnabled : Bool := false
  enabledLedWavelength : Wavelength := .none
  settings : TimerSettings := {}
  oldTimerSettings : TimerSettings := {}
  tooCloseCounter : Nat := 0
  pvccHighDemand : Bool := false
  strobeInterrupt : Bool := false
  sweepInterrupt : Bool := false
  masterEnabled : Bool := true
  masterPsc : UInt32 := 0
  masterArr : UInt32 := 0
  masterCnt : UInt32 := 0
  ledAutoReload : LedTimer → UInt32 := fun _ => 0
  ledChannel : LedChannel → Bool := fun _ => true
  updateInterrupt : LedTimer → Bool := fun _ => false
  cameraAutoReload : UInt32 := 0
  cameraChannel : Camera → Bool := fun _ => true

def tooCloseThreshold : Nat := 3

/-- `distance_is_safe`; there is no proximity detection on Diamond. -/
def distanceIsSafe (b : Board) (s : IrCameraState) : Bool :=
  match b with
  | .pearl => s.tooCloseCounter < tooCloseThreshold
  | .diamond => true

def ledChannels : Board → List LedChannel
  | .pearl => [.nm850Left, .nm850Right, .nm940Left, .nm940Right]
  | .diamond => [.nm850Left, .nm850Right, .nm940Left, .nm940Right, .nm940Single]

def irLedsDisableAll (b : Board) (s : IrCameraState) : IrCameraState :=
  { s with ledChannel := fun c => s.ledChannel c && !decide (c ∈ ledChannels b) }

/-- The channels each wavelength turns on, and on Pearl the timer whose update interrupt it enables. -/
def pulseChannels : Board → Wavelength → List LedChannel × Option LedTimer
  | .pearl, .nm850 => ([.nm850Left, .nm850Right], some .nm850)
  | .pearl, .nm850Left => ([.nm850Left], some .nm850)
  | .pearl, .nm850Right => ([.nm850Right], some .nm850)
  | .pearl, .nm940 => ([.nm940Left, .nm940Right], some .nm940)
  | .pearl, .nm940Left => ([.nm940Left], some .nm940)
  | .pearl, .nm940Right => ([.nm940Right], some .nm940)
  | .diamond, .nm850 => ([.nm850Left, .nm850Right], none)
  | .diamond, .nm850Center => ([.nm850Left], none)
  | .diamond, .nm850Side => ([.nm850Right], none)
  | .diamond, .nm940 => ([.nm940Left, .nm940Right, .nm940Single], none)
  | .diamond, .nm940Left => ([.nm940Left], none)
  | .diamond, .nm940Right => ([.nm940Right], none)
  | .diamond, .nm940Single => ([.nm940Single], none)
  | _, _ => ([], none)

/-- On Pearl `ir_leds_enable_pulse` runs the end-of-pulse handler for the wavelengths that drive no LED
there; a value outside the enumeration reaches no case. -/
def endsPulse : Board → Wavelength → Bool
  | .pearl, .none | .pearl, .nm740 | .pearl, .nm850Center | .pearl, .nm850Side | .pearl, .nm940Single => true
  | _, _ => false

def irLedsEnablePulse (b : Board) (s : IrCameraState) : List IrEvent × IrCameraState :=
  let s := { s with updateInterrupt := fun _ => false }
  if s.settings.onTimeInUs = 0 then (if b = .pearl then [.pulseFinished] else [], s)
  else
    let (channels, timer) := pulseChannels b s.enabledLedWavelength
    (if endsPulse b s.enabledLedWavelength then [.pulseFinished] else [],
      { s with
        ledChannel := fun c => s.ledChannel c || decide (c ∈ channels)
        updateInterrupt := fun t => decide (timer = some t) })

/-- `LL_TIM_SetAutoReload` on both LED timers. -/
def setLedAutoReload (value startDelay : UInt32) (s : IrCameraState) : List IrEvent × IrCameraState :=
  ([.ledAutoReload .nm850 value startDelay s.settings.fps, .ledAutoReload .nm940 value startDelay s.settings.fps],
    { s with ledAutoReload := fun _ => value })

/-- `ir_leds_set_pulse_length`; the flag says that it sleeps at its end, for the converter to settle. -/
def irLedsSetPulseLength (b : Board) (s : IrCameraState) : Bool × List IrEvent × IrCameraState :=
  let s := if distanceIsSafe b s then s else { s with settings := { s.settings with onTimeInUs := 0 } }
  let s := irLedsDisableAll b s
  let (events, s) :=
    if s.settings.onTimeInUs ≠ 0 then
      setLedAutoReload (s.settings.onTimeInUs.toUInt32+startDelayUs b) (startDelayUs b) s
    else ([], s)
  if 0 < s.settings.onTimeInUs ∧ 0 < s.settings.fps then
    let sleeps := decide (s.enabledLedWavelength ≠ .none) && !s.pvccHighDemand
    (sleeps, events, { s with pvccHighDemand := s.pvccHighDemand || sleeps })
  else (false, events, { s with pvccHighDemand := false })

def cameraEnableTrigger (b : Board) (enabled : Bool) (camera : Camera) (s : IrCameraState) : IrCameraState :=
  { s with
    cameraAutoReload := s.settings.onTimeInUs.toUInt32+startDelayUs b
    cameraChannel := Function.update s.cameraChannel camera (enabled && decide (0 < s.settings.fps)) }

/-- `apply_new_timer_settings` up to the end of `ir_leds_set_pulse_length`. -/
def applyTimers (b : Board) (s : IrCameraState) : Bool × List IrEvent × IrCameraState :=
  let s := { s with
    masterEnabled := decide (0 < s.settings.fps)
    masterPsc := s.settings.masterPsc.toUInt32
    masterArr := s.settings.masterArr.toUInt32 }
  let s := match b with
    | .pearl =>
      cameraEnableTrigger b (s.cameraEnabled .irFace) .irFace (cameraEnableTrigger b (s.cameraEnabled .irEye) .irEye s)
    | .diamond =>
      if s.cameraEnabled .irFace then s else cameraEnableTrigger b (s.cameraEnabled .irEye) .irEye s
  irLedsSetPulseLength b (cameraEnableTrigger b (s.cameraEnabled .tof2d) .tof2d s)

/-- The rest of `apply_new_timer_settings`. -/
def applyPulse (b : Board) (s : IrCameraState) : List IrEvent × IrCameraState :=
  let triggered := decide (b = .pearl) || !s.cameraEnabled .irFace
  let (events, s) := if triggered then irLedsEnablePulse b s else ([], s)
  let update := triggered && decide (s.oldTimerSettings.masterArr = 0) && decide (0 < s.settings.masterArr)
  (events ++ if update then [.masterUpdate] else [], { s with oldTimerSettings := s.settings })

def applyNewTimerSettings (b : Board) (s : IrCameraState) : List IrEvent × IrCameraState :=
  let (_, events, s) := applyTimers b s
  let (events', s) := applyPulse b s
  (events ++ events', s)

def irCameraSystemSetFpsHw (b : Board) (fps : UInt16) (s : IrCameraState) :
    RetCode × List IrEvent × IrCameraState :=
  let (ret, settings) := (timerSettingsFromFps b fps s.settings s.settings).value
  if ret ≠ .success then (ret, [], s)
  else (ret, applyNewTimerSettings b { s with settings := settings })

def irCameraSystemSetOnTimeUsHw (b : Board) (onTimeUs : UInt16) (s : IrCameraState) :
    RetCode × List IrEvent × IrCameraState :=
  let (ret, settings) := (timerSettingsFromOnTimeUs b onTimeUs s.settings s.settings).value
  let s' := { s with settings := settings }
  if ret ≠ .success then (ret, [], s)
  else if b = .diamond ∧ s.cameraEnabled .irFace then (ret, [], s')
  else (ret, applyNewTimerSettings b s')

def irCameraSystemEnableLedsHw (b : Board) (s : IrCameraState) : List IrEvent × IrCameraState :=
  let (_, events, s) := irLedsSetPulseLength b s
  let (events', s) := irLedsEnablePulse b s
  (events ++ events', s)

/-- `ir_camera_system_enable_x_camera_hw` and its disable twin; on Diamond the face camera has no trigger
channel, it turns the strobe interrupt on and off. -/
def cameraHw (b : Board) (enabled : Bool) (camera : Camera) (s : IrCameraState) : IrCameraState :=
  if b = .diamond ∧ camera = .irFace then { s with strobeInterrupt := enabled }
  else cameraEnableTrigger b enabled camera s

/-! The strobe of the RGB-IR camera, on Diamond. -/

/-- `remaining_ticks` of the strobe handler. -/
def remainingTicks (settings : TimerSettings) (counter : UInt32) : UInt32 :=
  settings.masterArr.toUInt32-counter

/-- `remaining_us` of the strobe handler: the product has 64 bits, the result 32. -/
def remainingUs (settings : TimerSettings) (counter : UInt32) : UInt32 :=
  ((remainingTicks settings counter).toUInt64*(settings.masterPsc.toUInt64+1)/.ofNat timerClockFreqMhz).toUInt32

/-- `rgb_ir_strobe_isr`, with the level of the pin and the counter of the master timer. -/
def rgbIrStrobeIsr (strobeLevel : Bool) (counter : UInt32) (s : IrCameraState) : List IrEvent × IrCameraState :=
  let b := Board.diamond
  let settings := s.settings
  if strobeLevel = false then
    let s :=
      if 0 < settings.fps then
        { s with
          masterPsc := settings.masterPsc.toUInt32
          masterArr := settings.masterArr.toUInt32
          masterCnt := settings.masterInitialCounter.toUInt32 }
      else { s with masterEnabled := false }
    let (_, events, s) := irLedsSetPulseLength b s
    let s := cameraEnableTrigger b (s.cameraEnabled .irEye) .irEye s
    let s := cameraEnableTrigger b (s.cameraEnabled .tof2d) .tof2d s
    let (events', s) := irLedsEnablePulse b s
    (events ++ events', s)
  else if counter < settings.masterInitialCounter.toUInt32 then ([], s)
  else
    let max := (maxIrLedOnTimeUs b).toUInt32
    let total := remainingUs settings counter+settings.onTimeInUs.toUInt32
    if max < total then
      let early := remainingTicks settings counter-settings.masterMaxIrLedsTick
      setLedAutoReload max 0 { s with masterCnt := settings.masterArr.toUInt32-early }
    else
      let (events, s) := setLedAutoReload total 0 s
      (events ++ [.masterUpdate], s)

end OrbFirmware.IrCamera

import OrbFirmware.Binary64
import OrbFirmware.CArith
import OrbFirmware.Flash
import OrbFirmware.Machine

/-! `ir_camera_timer_settings.c`: the master timer of the IR cameras, from the frame rate and the on-time
of the IR LEDs. -/
namespace OrbFirmware.IrCamera
open Calc

/-- `IR_CAMERA_SYSTEM_MAX_IR_LED_ON_TIME_US`. -/
def maxIrLedOnTimeUs : Board → UInt16
  | .pearl => 5000
  | .diamond => 7500

/-- `IR_CAMERA_SYSTEM_MAX_IR_LED_DUTY_CYCLE`, a double. -/
def maxIrLedDutyCycle : Board → Float
  | .pearl => 0.15
  | .diamond => 0.25

/-- The same duty cycle in parts per million. -/
def maxIrLedDutyPpm : Board → Nat
  | .pearl => 150000
  | .diamond => 250000

def maxFps : UInt16 := 60

/-- `TIMER_CLOCK_FREQ_HZ`: 170 MHz with prescalers of 1 in both device trees. -/
def timerClockFreqHz : Nat := 170000000

def timerClockFreqMhz : Nat := timerClockFreqHz/1000000

def timerCounterWidthBits : Nat := 16

/-- `IR_CAMERA_SYSTEM_NEXT_STROBE_END_MARGIN_US`. -/
def nextStrobeEndMarginUs : Nat := 50

/-- `struct ir_camera_timer_settings`; the fields from `masterInitialCounter` on exist on Diamond, Pearl
leaves them alone. -/
structure TimerSettings where
  fps : UInt16 := 0
  masterPsc : UInt16 := 0
  masterArr : UInt16 := 0
  onTimeInUs : UInt16 := 0
  masterInitialCounter : UInt16 := 0
  masterMaxIrLedsTick : UInt32 := 0
  deriving DecidableEq, Repr

/-- The two branches of `compute_master_timer_durations` for `master_initial_counter`. -/
def initialCounter (masterArr delayTicks : Nat) : Calc Nat :=
  if delayTicks < masterArr then sub .uint32 masterArr delayTicks else sub .int masterArr 1

/-- `compute_master_timer_durations`, Diamond only. -/
def computeMasterTimerDurations (s : TimerSettings) : Calc TimerSettings :=
  if s.fps = 0 then pure s
  else do
    let period ← div 1000000 s.fps.toNat
    let delayUs ← sub .uint32 period s.onTimeInUs.toNat
    let delayUs ← sub .uint32 delayUs nextStrobeEndMarginUs
    let delayTicks ← div timerClockFreqHz (← add .int s.masterPsc.toNat 1)
    let delayTicks ← mul .uint32 delayTicks (← div delayUs 100)
    let delayTicks ← div delayTicks 10000
    let counter ← conv .uint16 (← initialCounter s.masterArr.toNat delayTicks)
    let maxTicks ← div timerClockFreqHz (← add .int s.masterPsc.toNat 1)
    let maxTicks ← mul .uint32 maxTicks ((maxIrLedOnTimeUs .diamond).toNat/100)
    let maxTicks ← div maxTicks 10000
    pure { s with
      masterInitialCounter := .ofNat counter
      masterMaxIrLedsTick := .ofNat maxTicks }

/-- `1e6 / fps * IR_CAMERA_SYSTEM_MAX_IR_LED_DUTY_CYCLE`, in doubles. -/
def onTimeLimit (b : Board) (fps : UInt16) : Float := 1e6/fps.toFloat*maxIrLedDutyCycle b

/-- `timer_settings_from_on_time_us`: the code and `*new_settings`. -/
def timerSettingsFromOnTimeUs (b : Board) (onTimeUs : UInt16) (current new : TimerSettings) :
    Calc (RetCode × TimerSettings) :=
  if maxIrLedOnTimeUs b < onTimeUs then pure (.invalidParam, new)
  else if current.fps ≠ 0 ∧ onTimeLimit b current.fps < onTimeUs.toFloat then pure (.invalidParam, new)
  else do
    let ts := { current with onTimeInUs := onTimeUs }
    match b with
    | .pearl => pure (.success, ts)
    | .diamond =>
      if ts.fps ≠ 0 then pure (.success, ← computeMasterTimerDurations ts)
      else pure (.success, ts)

/-- `max_on_time_us_for_this_fps`. -/
def maxOnTimeUsForFps (b : Board) (fps : UInt16) : UInt16 :=
  let limit := onTimeLimit b fps
  let max := (maxIrLedOnTimeUs b).toFloat
  (if limit < max then limit else max).toUInt16

/-- `timer_settings_from_fps`. -/
def timerSettingsFromFps (b : Board) (fps : UInt16) (current new : TimerSettings) :
    Calc (RetCode × TimerSettings) :=
  if fps = 0 then pure (.success, { current with fps := 0, masterPsc := 0, masterArr := 0 })
  else if maxFps < fps then pure (.invalidParam, new)
  else do
    let psc ← div timerClockFreqHz (← mul .int (2^timerCounterWidthBits) fps.toNat)
    let psc ← conv .uint16 psc
    let arr ← div timerClockFreqHz (← mul .int (← add .int psc 1) fps.toNat)
    let arr ← conv .uint16 arr
    let ts := { current with fps := fps, masterPsc := .ofNat psc, masterArr := .ofNat arr }
    if current.onTimeInUs ≠ 0 ∧ maxOnTimeUsForFps b fps < current.onTimeInUs then
      pure (.invalidParam, new)
    else
      match b with
      | .pearl => pure (.success, ts)
      | .diamond => pure (.success, ← computeMasterTimerDurations ts)

inductive TimerCall where
  | fromFps (fps : UInt16)
  | fromOnTimeUs (onTimeUs : UInt16)
  deriving DecidableEq, Repr

/-- A call on the settings in place: its code, and whether its arithmetic was exact. -/
def timerStep (b : Board) (s : TimerSettings) (call : TimerCall) : (RetCode × Bool) × TimerSettings :=
  let r := match call with
    | .fromFps fps => timerSettingsFromFps b fps s s
    | .fromOnTimeUs onTimeUs => timerSettingsFromOnTimeUs b onTimeUs s s
  ((r.value.1, r.exact), r.value.2)

end OrbFirmware.IrCamera

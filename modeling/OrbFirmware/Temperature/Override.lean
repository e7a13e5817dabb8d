import OrbFirmware.Machine
import OrbFirmware.Runner.Handlers
import OrbFirmware.Temperature.Sensors

/-! The fan under `temperature_thread`, whose over-temperature callbacks override its speed, and under the runner,
which handles the fan speed commands. Each thread goes on by itself between two accesses to what they share. -/
namespace OrbFirmware.Temperature
variable {ι : Type*}

/-- The duty cycle of the fans, `fan_speed_by_value` and the enable pins. -/
structure Fan where
  pwm : UInt16
  fanSpeedByValue : UInt16
  enabled : Bool
  deriving DecidableEq

inductive FanWrite where
  | pwm (value : UInt16)
  | fanSpeedByValue (value : UInt16)
  | enable (on : Bool)
  deriving DecidableEq

def FanWrite.apply (fan : Fan) : FanWrite → Fan
  | .pwm value => { fan with pwm := value }
  | .fanSpeedByValue value => { fan with fanSpeedByValue := value }
  | .enable on => { fan with enabled := on }

/-- `fan_set_speed_by_value` of a fan that is not turned off. -/
def fanSetSpeedByValue (value : UInt16) : List FanWrite :=
  (if value ≠ 0 then [.pwm value] else []) ++ [.fanSpeedByValue value, .enable (0 < value)]

/-- The value that `fan_set_speed_by_percentage` goes on with. -/
def fanSpeedOfPercentage (percentage : UInt32) : UInt16 :=
  (65535*((min percentage 100).toFloat32/100) : Float32).toUInt16

def fanSetSpeedByPercentage (percentage : UInt32) : List FanWrite :=
  fanSetSpeedByValue (fanSpeedOfPercentage percentage)

def fanSetMaxSpeed : List FanWrite := fanSetSpeedByPercentage 100

/-- `FAN_INITIAL_SPEED_PERCENT`. -/
def fanInitialSpeedPercent : UInt32 := 1

/-- The calls of `handle_fan_speed`, as the runner's other calls name them. -/
inductive FanCall where
  | byPercentage (percentage : UInt32)
  | byValue (value : UInt16)

def FanCall.toVoidCall : FanCall → Runner.VoidCall
  | .byPercentage percentage => .fanSetSpeedByPercentage percentage
  | .byValue value => .fanSetSpeedByValue value

def FanCall.speed : FanCall → UInt16
  | .byPercentage percentage => fanSpeedOfPercentage percentage
  | .byValue value => value

/-- `handle_fan_speed` up to the call that sets the fan, or its error. -/
def handleFanSpeed (inOvertemp : Bool) (whichPayload : Runner.FanSpeedTag) (fanSpeed : UInt32) :
    Except Runner.ErrorCode FanCall :=
  if inOvertemp then .error .overTemperature
  else
    match whichPayload with
    | .none | .percentage => if 100 < fanSpeed then .error .range else .ok (.byPercentage fanSpeed)
    | .value => if 65535 < fanSpeed then .error .range else .ok (.byValue fanSpeed.toUInt16)
    | .other _ => .error .operationNotSupported

/-- It is the runner's handler. -/
theorem runner_handleFanSpeed (whichPayload : Runner.FanSpeedTag) (fanSpeed : UInt32) (job : Runner.Context) :
    Runner.handleFanSpeed whichPayload fanSpeed job = (do
      let inOvertemp ← Runner.bool .temperatureIsInOvertemp
      match handleFanSpeed inOvertemp whichPayload fanSpeed with
      | .error code => Runner.jobAck code job
      | .ok c => Runner.ackDone c.toVoidCall job) := by
  refine congrArg (Runner.bool .temperatureIsInOvertemp >>= ·) (funext fun inOvertemp => ?_)
  cases inOvertemp with
  | true => rfl
  | false =>
    cases whichPayload with
    | none | percentage | value =>
      simp only [handleFanSpeed]
      split_ifs <;> rfl
    | other tag => rfl

/-- Where `temperature_thread` stands: in no callback, before `inc_overtemp_condition` or
`dec_overtemp_condition`, in `check_overtemp_conditions`, before it saves the speed, or setting the fan. -/
inductive ThreadPc where
  | idle
  | count (inc : Bool)
  | check
  | save
  | write (rest : List FanWrite)
  deriving DecidableEq

/-- Where the runner stands: in no fan speed command, before its test, or setting the fan. -/
inductive RunnerPc where
  | idle
  | check (whichPayload : Runner.FanSpeedTag) (fanSpeed : UInt32)
  | write (rest : List FanWrite) (speed : UInt16)
  deriving DecidableEq

structure Override (ι : Type*) where
  sensors : ι → OvertempInfo
  lastSystemTime : Nat
  rebooted : Bool
  numSensorsInOvertempConditions : UInt8
  oldNumSensorsInOvertempConditions : UInt8
  fanSpeedBeforeOvertemperature : UInt16
  fan : Fan
  thread : ThreadPc
  runner : RunnerPc

/-- The acknowledgement of a command: the speed it set, or its error. -/
inductive FanEvent where
  | accepted (speed : UInt16)
  | rejected (code : Runner.ErrorCode)
  deriving DecidableEq

/-- A callback or a command begins; a thread goes on. -/
inductive OverrideAction (ι : Type*) where
  | callback (i : ι) (average : Int32) (clock : Clock)
  | command (whichPayload : Runner.FanSpeedTag) (fanSpeed : UInt32)
  | thread
  | runner

def temperatureIsInOvertemp (s : Override ι) : Bool := 0 < s.numSensorsInOvertempConditions

/-- The branch that `check_overtemp_conditions` takes. -/
def checkOvertempConditions (s : Override ι) : ThreadPc :=
  if s.oldNumSensorsInOvertempConditions = 1 ∧ s.numSensorsInOvertempConditions = 0 then
    .write (fanSetSpeedByValue s.fanSpeedBeforeOvertemperature)
  else if s.oldNumSensorsInOvertempConditions = 0 ∧ 0 < s.numSensorsInOvertempConditions then .save
  else .idle

def threadStep (s : Override ι) : Override ι :=
  match s.thread with
  | .idle => s
  | .count inc =>
    { s with
      oldNumSensorsInOvertempConditions := s.numSensorsInOvertempConditions
      numSensorsInOvertempConditions :=
        if inc then s.numSensorsInOvertempConditions+1 else s.numSensorsInOvertempConditions-1
      thread := .check }
  | .check => { s with thread := checkOvertempConditions s }
  | .save => { s with fanSpeedBeforeOvertemperature := s.fan.fanSpeedByValue, thread := .write fanSetMaxSpeed }
  | .write (w :: rest) => { s with fan := w.apply s.fan, thread := .write rest }
  | .write [] => { s with thread := .idle }

def runnerStep (s : Override ι) : List FanEvent × Override ι :=
  match s.runner with
  | .idle => ([], s)
  | .check whichPayload fanSpeed =>
    match handleFanSpeed (temperatureIsInOvertemp s) whichPayload fanSpeed with
    | .error code => ([.rejected code], { s with runner := .idle })
    | .ok c => ([], { s with runner := .write (fanSetSpeedByValue c.speed) c.speed })
  | .write (w :: rest) speed => ([], { s with fan := w.apply s.fan, runner := .write rest speed })
  | .write [] speed => ([.accepted speed], { s with runner := .idle })

variable [DecidableEq ι]

/-- `overtemp_callback` up to `inc_overtemp_condition` or `dec_overtemp_condition`. -/
def startCallback (clock : Clock) (average : Int32) (i : ι) (s : Override ι) : Override ι :=
  let (result, lastSystemTime, info) := overtempCallback clock s.lastSystemTime average (s.sensors i)
  let s := { s with sensors := Function.update s.sensors i info, lastSystemTime }
  match result with
  | .reboot => { s with rebooted := true }
  | .inc => { s with thread := .count true }
  | .dec => { s with thread := .count false }
  | .same => s

def overrideStep (s : Override ι) (a : OverrideAction ι) : List FanEvent × Override ι :=
  if s.rebooted then ([], s)
  else
    match a with
    | .callback i average clock =>
      match s.thread with
      | .idle => ([], startCallback clock average i s)
      | _ => ([], s)
    | .command whichPayload fanSpeed =>
      match s.runner with
      | .idle => ([], { s with runner := .check whichPayload fanSpeed })
      | _ => ([], s)
    | .thread => ([], threadStep s)
    | .runner => runnerStep s

def Override.initial (sensors : ι → OvertempInfo) : Override ι where
  sensors
  lastSystemTime := 0
  rebooted := false
  numSensorsInOvertempConditions := 0
  oldNumSensorsInOvertempConditions := 0
  fanSpeedBeforeOvertemperature := 0
  fan := (fanSetSpeedByPercentage fanInitialSpeedPercent).foldl FanWrite.apply ⟨0, 0, false⟩
  thread := .idle
  runner := .idle

end OrbFirmware.Temperature

import Mathlib.Logic.Function.Basic

/-! `temperature.c`: samples that are far from the last average are dropped, three samples make a window, and a
full window is averaged, reported, and checked by the sensor's over-temperature callback. -/
namespace OrbFirmware.Temperature
variable {ι : Type*} [DecidableEq ι]

/-- `TEMPERATURE_SAMPLE_RETRY_COUNT`. -/
def sampleRetryCount : Nat := 5

/-- `TEMPERATURE_SENTINEL_VALUE`. -/
def sentinelValue : Int32 := Int32.minValue

/-- `OVERTEMP_TO_NOMINAL_DROP_C`, the `overtemp_drop_c` of every sensor. -/
def overtempToNominalDropC : Int := 5

def overtempToCriticalRiseC : Int := 5

def criticalToShutdownDelayMs : UInt32 := 10000

structure OvertempInfo where
  overtempC : Int32
  inOvertemp : Bool
  criticalTimer : UInt32
  deriving DecidableEq

/-- A window has `TEMPERATURE_AVERAGE_SAMPLE_COUNT` samples; `cb` says whether the callback is set. -/
structure SensorAndChannel where
  cb : Bool
  cbData : Option OvertempInfo
  history : Fin 3 → Int32
  wrIdx : Fin 3
  average : Int32

def initSensorAndChannel (x : SensorAndChannel) : SensorAndChannel :=
  { x with wrIdx := 0, history := fun _ => sentinelValue }

/-- `average`: the sum of three 32-bit numbers is exact in a double, and no third of an integer is near a half,
so that this is the integer nearest to the mean. -/
def average (history : Fin 3 → Int32) : Int32 :=
  .ofInt ((2*((history 0).toInt+(history 1).toInt+(history 2).toInt)+3)/6)

/-- The test of a sample: against the last average, or, before there is one, against the sensor's range. -/
def SensorAndChannel.Accepts (s : SensorAndChannel) (current : Int32) : Prop :=
  if s.average = sentinelValue then -25 < current.toInt ∧ current.toInt < 120
  else (current.toInt-s.average.toInt).natAbs < 8

instance (s : SensorAndChannel) (current : Int32) : Decidable (s.Accepts current) :=
  inferInstanceAs (Decidable (ite ..))

/-- The attempts to get a sample, `left` of them to go; a failed `get_ambient_temperature` is `none`. -/
def sampleLoop (attempts : Nat → Option Int32) : Nat → SensorAndChannel → Bool × SensorAndChannel
  | 0, s => (false, s)
  | left+1, s =>
    match attempts (sampleRetryCount-(left+1)) with
    | none => sampleLoop attempts left s
    | some current =>
      let sampled := { s with history := Function.update s.history s.wrIdx current }
      if s.Accepts current then (true, sampled) else sampleLoop attempts left sampled

/-- By how much the samples of the unfinished window differ from `T`, in sum. -/
def windowOffset (s : SensorAndChannel) (T : Int32) : Int :=
  (if 0 < s.wrIdx then (s.history 0).toInt-T.toInt else 0)+if 1 < s.wrIdx then (s.history 1).toInt-T.toInt else 0

/-- `sample_and_report_temperature` up to the report, and whether there is one. -/
def sample (attempts : Nat → Option Int32) (s : SensorAndChannel) : Bool × SensorAndChannel :=
  let (sampled, s) := sampleLoop attempts sampleRetryCount s
  if sampled then
    let s := { s with wrIdx := s.wrIdx+1 }
    if s.wrIdx = 0 then (true, { s with average := average s.history }) else (false, s)
  else (false, initSensorAndChannel s)

/-- What the callback reads of the time: `k_uptime_get` at most twice, and the sampling period of a window. -/
structure Clock where
  uptime : Nat
  uptimeAfter : Nat
  windowMs : UInt32

/-- How the callback ends. -/
inductive OvertempResult where
  | reboot | inc | dec | same
  deriving DecidableEq

/-- The critical timer, with `last_system_time`. -/
def criticalTimerStep (clock : Clock) (lastSystemTime : Nat) (criticalTimer : UInt32) : UInt32 × Nat :=
  if criticalTimer = 0 then (criticalTimer+clock.windowMs, clock.uptime)
  else (criticalTimer+UInt32.ofNat (clock.uptime-lastSystemTime)+clock.windowMs, clock.uptimeAfter)

/-- `overtemp_callback` with its data, up to `inc_overtemp_condition` or `dec_overtemp_condition`. -/
def overtempCallback (clock : Clock) (lastSystemTime : Nat) (average : Int32) (info : OvertempInfo) :
    OvertempResult × Nat × OvertempInfo :=
  let critical := info.overtempC.toInt+overtempToCriticalRiseC < average.toInt
  let (criticalTimer, lastSystemTime) :=
    if critical then criticalTimerStep clock lastSystemTime info.criticalTimer else (0, lastSystemTime)
  let info := { info with criticalTimer }
  if critical ∧ criticalToShutdownDelayMs < criticalTimer then (.reboot, lastSystemTime, info)
  else if info.inOvertemp = false ∧ info.overtempC.toInt < average.toInt then
    (.inc, lastSystemTime, { info with inOvertemp := true })
  else if info.inOvertemp = true ∧ average.toInt < info.overtempC.toInt-overtempToNominalDropC then
    (.dec, lastSystemTime, { info with inOvertemp := false })
  else (.same, lastSystemTime, info)

/-- `sensors_and_channels` and what else the thread keeps; nothing happens after a reboot. -/
structure Thread (ι : Type*) where
  sensors : ι → SensorAndChannel
  lastSystemTime : Nat
  rebooted : Bool

/-- `temperature_init`, with the callbacks of the sensors. -/
def Thread.initial (cbData : ι → Option OvertempInfo) : Thread ι :=
  ⟨fun i => ⟨(cbData i).isSome, cbData i, fun _ => sentinelValue, 0, sentinelValue⟩, 0, false⟩

inductive Event (ι : Type*) where
  | reported (i : ι) (average : Int32)
  | overtemp (i : ι) (result : OvertempResult)
  deriving DecidableEq

/-- `temperature_report_internal`. -/
def temperatureReportInternal (clock : Clock) (t : Thread ι) (i : ι) : List (Event ι) × Thread ι :=
  let s := t.sensors i
  let report := Event.reported i s.average
  match s.cb, s.cbData with
  | true, some info =>
    let (result, lastSystemTime, info) := overtempCallback clock t.lastSystemTime s.average info
    ([report, .overtemp i result],
      { t with
        sensors := Function.update t.sensors i { s with cbData := some info }
        lastSystemTime
        rebooted := t.rebooted || decide (result = .reboot) })
  | _, _ => ([report], t)

/-- The readings of a round, and the clock at each callback. -/
structure Round (ι : Type*) where
  attempts : ι → Nat → Option Int32
  clock : ι → Clock

def sampleAndReportTemperature (r : Round ι) (t : Thread ι) (i : ι) : List (Event ι) × Thread ι :=
  let (full, s) := sample (r.attempts i) (t.sensors i)
  let t := { t with sensors := Function.update t.sensors i s }
  if full then temperatureReportInternal (r.clock i) t i else ([], t)

/-- One turn of `temperature_thread` over the sensors that are left. -/
def temperatureRound (r : Round ι) : List ι → Thread ι → List (Event ι) × Thread ι
  | [], t => ([], t)
  | i :: rest, t =>
    if t.rebooted then ([], t)
    else
      let (events, t) := sampleAndReportTemperature r t i
      let (events', t) := temperatureRound r rest t
      (events ++ events', t)

end OrbFirmware.Temperature

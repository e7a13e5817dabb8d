import OrbFirmware.Machine
import OrbFirmware.SingleFloat

/-! `liquid_lens.c`: the current controller of the liquid lens, run by the ADC's interrupt in `float`, and the calls that
set its target, start and stop it, as an integer law. -/
namespace OrbFirmware.LiquidLens
open Machine SingleFloat

inductive OrbVersion where
  | pearl
  | pearlEv5
  | diamond
  deriving DecidableEq

/-- `amplifier-gains` in the devicetrees. -/
def OrbVersion.amplifierGain : OrbVersion → Int32
  | .pearl => 20
  | .pearlEv5 => 10
  | .diamond => 10

/-- The board, and the vendor's `__LL_ADC_CALC_VREFANALOG_VOLTAGE` at 12 bits. -/
structure Board where
  version : OrbVersion
  calcVrefanalogVoltage : UInt16 → UInt32

/-- `voltage_measurement_get_vref_mv_from_raw`. -/
def Board.getVrefMvFromRaw (b : Board) (vrefintRaw : UInt16) : UInt16 :=
  match b.version with
  | .pearl => (b.calcVrefanalogVoltage (if vrefintRaw = 0 then 1 else vrefintRaw)).toUInt16
  | .pearlEv5 => 2048
  | .diamond => 2048

/-- `liquid_lens_current_amplifier_gain`, as `liquid_lens_init` sets it. -/
def Board.currentAmplifierGain (b : Board) : Float32 := ofInt32 b.version.amplifierGain

/-- `liquid_lens_shunt_resistance_ohms`. -/
def shuntResistanceOhms : Float32 := 0.15

/-- `LIQUID_LENS_CONTROLLER_KI`. -/
def controllerKi : Float32 := 500*ofInt32 1000/1000000

/-- `LIQUID_LENS_CONTROLLER_FEED_FORWARD`. -/
def controllerFeedForward : Float32 := 1

/-- `LIQUID_LENS_TIM_PERIOD_HALF`. -/
def timPeriodHalf : Int32 := 0x3300/2

/-- `CLAMP`. -/
def clamp (val low high : Int32) : Int32 :=
  if val ≤ low then low else if val < high then val else high

/-- `adc_samples_buffer`. -/
structure AdcSamples where
  ina240Ref : UInt16
  ina240Sig : UInt16
  vrefint : UInt16

/-- Where the thread that starts and stops the lens stands: between the calls; before `gpio_pin_set_dt` in
`liquid_lens_enable`; in a sleep of `self_test`, called by `liquid_lens_disable` or not, or between its first read of the
duty and its second target; before `gpio_pin_set_dt` in `liquid_lens_disable`. -/
inductive LensPc where
  | idle
  | enabling
  | atZero (disable : Bool)
  | setsFifty (disable : Bool) (prevPwm : Int16)
  | atFifty (disable : Bool) (prevPwm : Int16)
  | stable (disable : Bool) (prevPwm : Int16)
  | disabling
  deriving DecidableEq

structure Lens where
  targetCurrentMa : Int32
  pwmOutputIntegralPerMille : Float32
  lastPwmOutputPerMille : Int16
  liquidLensEnabled : Bool
  /-- Compare 2 of the timer of the positive and of the negative bridge. -/
  posCompare2 : UInt32
  negCompare2 : UInt32
  /-- The timer's outputs are enabled and its counters run. -/
  timing : Bool
  enablePin : Bool
  /-- The last `ORB_STATE_SET_CURRENT` said that the self-test passed. -/
  selfTestPassed : Bool
  pc : LensPc

inductive LensAction where
  | setTarget (newTargetCurrentMa : Int32)
  | sample (buffer : AdcSamples)
  | enable
  | disable
  | selfTest
  | advance
  | gpio (ret : Int32)

/-- What a step did to the regulation. -/
inductive LensEvent where
  | quiet
  | target (ma : Int32)
  | reset
  | started
  | stopped
  | sampled (lensCurrentMa : Int32) (pwmOutputPerMille : Int16)

def liquidSetTargetCurrentMa (newTargetCurrentMa : Int32) (s : Lens) : LensEvent × Lens :=
  let clamped := clamp newTargetCurrentMa (-400) 400
  (.target clamped, { s with targetCurrentMa := clamped })

def liquidLensSetPwm (perMille : Int16) (s : Lens) : Lens :=
  let perMille := clamp perMille.toInt32 (-999) 999
  { s with
    posCompare2 := (timPeriodHalf+timPeriodHalf*perMille/1000).toUInt32
    negCompare2 := (timPeriodHalf-timPeriodHalf*perMille/1000).toUInt32 }

/-- A sample in millivolts, `1 << 12` steps to the reference. -/
def toMillivolts (raw vrefMv : UInt16) : Int32 :=
  (raw.toUInt64*vrefMv.toUInt64/4096).toUInt32.toInt32

def shuntVoltageMv (b : Board) (buffer : AdcSamples) : Int32 :=
  let stm32VrefMv := b.getVrefMvFromRaw buffer.vrefint
  toMillivolts buffer.ina240Ref stm32VrefMv-toMillivolts buffer.ina240Sig stm32VrefMv

def lensCurrentMa (b : Board) (buffer : AdcSamples) : Int32 :=
  toInt32 (ofInt32 (shuntVoltageMv b buffer)/b.currentAmplifierGain/shuntResistanceOhms)

/-- The integral after an error, limited. -/
def integrate (lensCurrentErrorMa : Int32) (integral : Float32) : Float32 :=
  let integral := integral+ofInt32 lensCurrentErrorMa*controllerKi
  if integral < ofInt32 (-999) then ofInt32 (-999)
  else if ofInt32 999 < integral then ofInt32 999
  else integral

/-- `pwm_output_per_mille`. -/
def pwmOutput (targetMa : Int32) (integral : Float32) : Int16 :=
  (clamp (lroundf (controllerFeedForward*ofInt32 targetMa+integral)) (-999) 999).toInt16

def adcCallback (b : Board) (buffer : AdcSamples) (s : Lens) : LensEvent × Lens :=
  if s.liquidLensEnabled then
    let current := lensCurrentMa b buffer
    let integral := integrate (s.targetCurrentMa-current) s.pwmOutputIntegralPerMille
    let pwm := pwmOutput s.targetCurrentMa integral
    (.sampled current pwm,
      liquidLensSetPwm pwm { s with pwmOutputIntegralPerMille := integral, lastPwmOutputPerMille := pwm })
  else (.quiet, s)

/-- `liquid_lens_enable` up to the enable pin. -/
def liquidLensEnable (s : Lens) : LensEvent × Lens :=
  if s.liquidLensEnabled then (.quiet, s)
  else (.reset, { s with pwmOutputIntegralPerMille := ofInt32 0, timing := true, pc := .enabling })

/-- `self_test` up to its first sleep. -/
def selfTest (disable : Bool) (s : Lens) : LensEvent × Lens :=
  liquidSetTargetCurrentMa 0 { s with pc := .atZero disable }

/-- `liquid_lens_disable` up to the first sleep of the self-test. -/
def liquidLensDisable (s : Lens) : LensEvent × Lens :=
  if s.liquidLensEnabled then selfTest true s else (.quiet, s)

/-- The end of `self_test`: its caller sets the state, and `liquid_lens_disable` goes on. -/
def selfTestEnds (disable passed : Bool) (s : Lens) : LensEvent × Lens :=
  (.quiet, { s with selfTestPassed := passed, pc := if disable then .disabling else .idle })

/-- `self_test` goes on, after a sleep or to its second target. -/
def advance (s : Lens) : LensEvent × Lens :=
  match s.pc with
  | .atZero disable => (.quiet, { s with pc := .setsFifty disable s.lastPwmOutputPerMille })
  | .setsFifty disable prevPwm => liquidSetTargetCurrentMa 50 { s with pc := .atFifty disable prevPwm }
  | .atFifty disable prevPwm =>
    if s.lastPwmOutputPerMille = prevPwm then selfTestEnds disable false s
    else (.quiet, { s with pc := .stable disable s.lastPwmOutputPerMille })
  | .stable disable prevPwm =>
    selfTestEnds disable (decide ((s.lastPwmOutputPerMille.toInt-prevPwm.toInt).natAbs ≤ 10)) s
  | _ => (.quiet, s)

/-- `gpio_pin_set_dt` returned. -/
def gpioSet (ret : Int32) (s : Lens) : LensEvent × Lens :=
  match s.pc with
  | .enabling =>
    if ret = 0 then (.started, { s with enablePin := true, liquidLensEnabled := true, pc := .idle })
    else (.quiet, { s with pc := .idle })
  | .disabling =>
    if ret = 0 then
      (.stopped, { s with enablePin := false, timing := false, liquidLensEnabled := false, pc := .idle })
    else (.quiet, { s with pc := .idle })
  | _ => (.quiet, s)

/-- One step: the interrupt, a target set by whoever sets one, or the thread. -/
def lensStep (b : Board) (s : Lens) : LensAction → LensEvent × Lens
  | .setTarget newTargetCurrentMa => liquidSetTargetCurrentMa newTargetCurrentMa s
  | .sample buffer => adcCallback b buffer s
  | .enable => if s.pc = .idle then liquidLensEnable s else (.quiet, s)
  | .disable => if s.pc = .idle then liquidLensDisable s else (.quiet, s)
  | .selfTest => if s.pc = .idle then selfTest false s else (.quiet, s)
  | .advance => advance s
  | .gpio ret => gpioSet ret s

/-- As `liquid_lens_init` leaves the lens before it starts the thread. -/
def lensInit : Lens :=
  liquidLensSetPwm 0 ⟨0, ofInt32 0, 0, false, 0, 0, false, false, false, .idle⟩

/-! The law. -/

/-- Half away from zero. -/
def halve (n : ℤ) : ℤ := if 0 ≤ n then (n+1)/2 else -((-n+1)/2)

def limit (bound n : ℤ) : ℤ := max (-bound) (min bound n)

/-- The regulation: currents in milliamperes, the integral in halves of a per mille. -/
structure Regulator where
  target : ℤ
  integral : ℤ
  out : ℤ
  running : Bool

/-- The integral takes the error, within the range of the duty. -/
def Regulator.integrated (t : Regulator) (current : ℤ) : ℤ := limit 1998 (t.integral+(t.target-current))

/-- The duty: the target and the integral, rounded once. -/
def Regulator.duty (t : Regulator) (current : ℤ) : ℤ := limit 999 (halve (2*t.target+t.integrated current))

/-- `current` is what the shunt says, cut to a milliampere: at 15/100 Ohm, behind the amplifier. -/
def Measures (b : Board) (buffer : AdcSamples) (current : ℤ) : Prop :=
  let gain := b.version.amplifierGain.toInt
  let vrefMv := (b.getVrefMvFromRaw buffer.vrefint).toNat
  let shuntMv : ℤ := (buffer.ina240Ref.toNat*vrefMv/4096 : Nat)-(buffer.ina240Sig.toNat*vrefMv/4096 : Nat)
  0 ≤ current*shuntMv ∧ gain*15*|current| ≤ 100*|shuntMv| ∧ 100*|shuntMv| ≤ gain*15*(|current|+1)

/-- The regulator as a machine: what it does at each event, and which events it allows. -/
def regulator (b : Board) : Spec Regulator LensAction LensEvent where
  allows t a e :=
    match e with
    | .quiet => ∀ buffer, a = .sample buffer → t.running = false
    | .target ma => |ma.toInt| ≤ 400
    | .reset => t.running = false
    | .started => t.running = false
    | .stopped => t.running = true
    | .sampled current pwm =>
      t.running = true ∧ pwm.toInt = t.duty current.toInt ∧
        ∃ buffer, a = .sample buffer ∧ Measures b buffer current.toInt
  next t _ e :=
    match e with
    | .quiet => t
    | .target ma => { t with target := ma.toInt }
    | .reset => { t with integral := 0 }
    | .started => { t with running := true }
    | .stopped => { t with running := false }
    | .sampled current _ => { t with integral := t.integrated current.toInt, out := t.duty current.toInt }

end OrbFirmware.LiquidLens

import Mathlib.Logic.Function.Basic
import OrbFirmware.Flash

/-! The statistics of the voltage measurements, and the thread that publishes them. -/
namespace OrbFirmware.Voltage

inductive Channel where
  | vbatSw | pvcc | v12 | v12Caps | dieTemp | v3v3Uc | v1v8 | v3v3 | v5 | v3v3SsdV3v8 | vrefint
  | v3v3Wifi | vScapLow | vScapHigh | v1v8Sec | v4v7Sec | v3v6 | v3v3Lte | v3v3Ldo | v2v8
  deriving DecidableEq

/-- The channels of a board in their order. -/
def channels : Board → List Channel
  | .pearl => [.vbatSw, .pvcc, .v12, .v12Caps, .dieTemp, .v3v3Uc, .v1v8, .v3v3, .v5, .v3v3SsdV3v8, .vrefint]
  | .diamond => [.vbatSw, .v3v3SsdV3v8, .v3v3Wifi, .pvcc, .v12Caps, .vScapLow, .vScapHigh, .dieTemp, .v3v3Uc, .v1v8Sec,
      .v4v7Sec, .v1v8, .v3v3, .v5, .v3v6, .v3v3Lte, .v3v3Ldo, .v2v8, .vrefint]

def numberOfChannelsAdc1 : Board → Nat
  | .pearl => 6
  | .diamond => 9

def numberOfChannelsAdc4 : Board → Nat
  | .pearl => 0
  | .diamond => 2

inductive Adc where
  | adc1 | adc4 | adc5

/-- The channels of an ADC, which are one behind the other in the arrays. -/
def adcChannels (board : Board) : Adc → List Channel
  | .adc1 => (channels board).take (numberOfChannelsAdc1 board)
  | .adc4 => ((channels board).drop (numberOfChannelsAdc1 board)).take (numberOfChannelsAdc4 board)
  | .adc5 => (channels board).drop (numberOfChannelsAdc1 board + numberOfChannelsAdc4 board)

/-- The values of the generated enumeration `VoltageSource`; `other` is a value without a name in the code. -/
inductive VoltageSource where
  | mainMcuInternal | securityMcuInternal | supply12V | supply5V | supply3V8 | supply3V3 | supply1V8 | vbat | pvcc
  | caps12V | vbatSw | supply3V3Ssd | supply3V3Wifi | supply3V3Lte | supply3V6 | supply1V2 | supply2V8 | supply1V8Sec
  | supply4V7Sec | supply17VCaps | superCap (n : Fin 8) | supply3V3Ldo | other
  deriving DecidableEq

inductive OrbVersion where
  | unknown | pearlEv1 | pearlEv2 | pearlEv3 | pearlEv4 | pearlEv5 | diamond
  deriving DecidableEq

/-- `sources` are the values from `MAIN_MCU_INTERNAL` to `SUPPLY_3V3_LDO` of the enumeration, and `millivolts` is the
voltage of a raw value of a channel, with the raw value of `CHANNEL_VREFINT`. -/
structure VoltageConfig where
  board : Board
  hardwareVersion : OrbVersion
  noSuperCaps : Bool
  sources : List VoltageSource
  millivolts : UInt16 → Channel → UInt16 → Int

structure AdcSamplesBuffers where
  raw : Channel → UInt16
  rawMin : Channel → UInt16
  rawMax : Channel → UInt16

structure SuperCaps where
  voltagesMv : Fin 8 → Int
  differentialVoltages : Fin 8 → Int

/-- The message, which is `static`. -/
structure VoltageMsg where
  source : VoltageSource
  voltageCurrentMv : Int
  voltageMinMv : Int
  voltageMaxMv : Int

def resetStatistics (buffers : AdcSamplesBuffers) : AdcSamplesBuffers :=
  { buffers with rawMin := fun _ => 0xffff, rawMax := fun _ => 0 }

def updateMinMaxFromAdcSamplesBuffer (bufferToUpdate inputBuffer : AdcSamplesBuffers) : AdcSamplesBuffers :=
  { bufferToUpdate with
    rawMin := fun i =>
      if inputBuffer.rawMin i < bufferToUpdate.rawMin i then inputBuffer.rawMin i else bufferToUpdate.rawMin i
    rawMax := fun i =>
      if inputBuffer.rawMax i > bufferToUpdate.rawMax i then inputBuffer.rawMax i else bufferToUpdate.rawMax i }

/-- The callbacks of the ADCs, each for its own channels. -/
def adcCallback (sampled : List Channel) (samples : Channel → UInt16) (buffers : AdcSamplesBuffers) :
    AdcSamplesBuffers where
  raw i := if i ∈ sampled then samples i else buffers.raw i
  rawMin i := if i ∈ sampled ∧ samples i < buffers.rawMin i then samples i else buffers.rawMin i
  rawMax i := if i ∈ sampled ∧ samples i > buffers.rawMax i then samples i else buffers.rawMax i

def adc1Callback (board : Board) : (Channel → UInt16) → AdcSamplesBuffers → AdcSamplesBuffers :=
  adcCallback (adcChannels board .adc1)

def adc4Callback (board : Board) : (Channel → UInt16) → AdcSamplesBuffers → AdcSamplesBuffers :=
  adcCallback (adcChannels board .adc4)

def adc5Callback (board : Board) : (Channel → UInt16) → AdcSamplesBuffers → AdcSamplesBuffers :=
  adcCallback (adcChannels board .adc5)

/-- The current, least and largest voltage of a channel. -/
def voltageMeasurementGetStats (cfg : VoltageConfig) (buffers : AdcSamplesBuffers) (channel : Channel) :
    Except RetCode (Int × Int × Int) :=
  if channel ∉ channels cfg.board then .error .invalidParam
  else if cfg.hardwareVersion = .unknown then .error .notInitialized
  else
    let voltage := cfg.millivolts (buffers.raw .vrefint) channel
    .ok (voltage (buffers.raw channel), voltage (buffers.rawMin channel), voltage (buffers.rawMax channel))

/-- `voltage_measurement_tests`, with zeros for the other channels. -/
def voltageMeasurementTests : Channel → Int × Int
  | .vbatSw => (11880, 17000)
  | .pvcc => (30590, 32430)
  | .v12Caps => (11700, 12280)
  | .v3v3Uc => (3159, 3389)
  | .v1v8 => (1710, 1890)
  | .v3v3 => (3265, 3456)
  | .v5 => (5061, 5233)
  | .vrefint => (1182, 1232)
  | _ => (0, 0)

def appAssertRange (value rangeMin rangeMax : Int) : Bool :=
  if rangeMin ≠ 0 ∨ rangeMax ≠ 0 then !(value < rangeMin || value > rangeMax) else true

/-- What the switch of the loop does with a source: `continue`, a channel, or the voltage of a super capacitor. -/
inductive Selection where
  | skip
  | channel (channel : Channel)
  | superCap (voltageMv : Int)

/-- Pearl up to its fourth version. -/
def OrbVersion.beforeEv5 : OrbVersion → Bool
  | .pearlEv1 | .pearlEv2 | .pearlEv3 | .pearlEv4 => true
  | _ => false

def selectChannel (cfg : VoltageConfig) (caps : SuperCaps) : VoltageSource → Selection
  | .mainMcuInternal => .channel .v3v3Uc
  | .securityMcuInternal => .skip
  | .supply12V => if cfg.board = .pearl then .channel .v12 else .skip
  | .supply5V => .channel .v5
  | .supply3V8 => if cfg.hardwareVersion.beforeEv5 then .channel .v3v3SsdV3v8 else .skip
  | .supply3V3 => .channel .v3v3
  | .supply1V8 => .channel .v1v8
  | .vbat => .skip
  | .pvcc => .channel .pvcc
  | .caps12V => .channel .v12Caps
  | .vbatSw => .channel .vbatSw
  | .supply3V3Ssd => if cfg.hardwareVersion.beforeEv5 then .skip else .channel .v3v3SsdV3v8
  | .supply3V3Wifi => if cfg.board = .diamond then .channel .v3v3Wifi else .skip
  | .supply3V3Lte => if cfg.board = .diamond then .channel .v3v3Lte else .skip
  | .supply3V6 => if cfg.board = .diamond then .channel .v3v6 else .skip
  -- `break` with the channel that the variable has from its declaration
  | .supply1V2 => if cfg.board = .diamond then .channel .v3v3Uc else .skip
  | .supply3V3Ldo => if cfg.board = .diamond then .channel .v3v3Ldo else .skip
  | .supply2V8 => if cfg.board = .diamond then .channel .v2v8 else .skip
  | .supply1V8Sec => if cfg.board = .diamond then .channel .v1v8Sec else .skip
  | .supply4V7Sec => if cfg.board = .diamond then .channel .v4v7Sec else .skip
  | .supply17VCaps => if cfg.board = .diamond then .superCap (caps.voltagesMv 7) else .skip
  | .superCap n => if cfg.board = .diamond then .superCap (caps.differentialVoltages n) else .skip
  | .other => .skip

/-- The other variables of `publish_all_voltages`. -/
structure PublishLocals where
  buffers : AdcSamplesBuffers
  isSuperCapChannel : Bool
  atLeastOnePublishSuccessful : Bool
  selfTestFailCount : Nat

/-- The samples of an ADC are taken; the buffers are copied, with this raw value of `CHANNEL_VREFINT`; a voltage is
tested; a message is published, or the one of a source is not. -/
inductive VoltageEvent where
  | sampled (adc : Adc) (samples : Channel → UInt16)
  | copied (vrefintRaw : UInt16)
  | tested (source : VoltageSource) (channel : Channel) (passed : Bool)
  | published (msg : VoltageMsg)
  | notPublished (source : VoltageSource)

/-- The range test of a source that has been measured. -/
def selfTest (cfg : VoltageConfig) (source : VoltageSource) (channel : Channel) (voltageMv : Int)
    (locals : PublishLocals) : List VoltageEvent × PublishLocals :=
  if !cfg.noSuperCaps || channel != .pvcc then
    let test := voltageMeasurementTests channel
    let passed := appAssertRange voltageMv test.1 test.2
    ([.tested source channel passed],
      if passed then locals else { locals with selfTestFailCount := locals.selfTestFailCount + 1 })
  else ([], locals)

/-- `publish_new` returns `ret`. -/
def publishVoltage (ret : RetCode) (msg : VoltageMsg) (locals : PublishLocals) :
    List VoltageEvent × PublishLocals × VoltageMsg :=
  if ret = .success then ([.published msg], { locals with atLeastOnePublishSuccessful := true }, msg)
  else ([.notPublished msg.source], locals, msg)

/-- The body of the loop. -/
def publishSource (cfg : VoltageConfig) (caps : SuperCaps) (source : VoltageSource) (ret : RetCode) (msg : VoltageMsg)
    (locals : PublishLocals) : List VoltageEvent × PublishLocals × VoltageMsg :=
  let msg := { msg with source }
  match selectChannel cfg caps source with
  | .skip => ([], locals, msg)
  | .superCap voltageMv =>
    publishVoltage ret { msg with voltageCurrentMv := voltageMv, voltageMinMv := voltageMv, voltageMaxMv := voltageMv }
      { locals with isSuperCapChannel := true }
  | .channel channel =>
    if locals.isSuperCapChannel then publishVoltage ret msg locals
    else
      match voltageMeasurementGetStats cfg locals.buffers channel with
      | .error _ => ([.notPublished source], locals, msg)
      | .ok (voltageMv, minMv, maxMv) =>
        let msg := { msg with voltageCurrentMv := voltageMv, voltageMinMv := minMv, voltageMaxMv := maxMv }
        let (tests, locals) := selfTest cfg source channel voltageMv locals
        let (events, locals, msg) := publishVoltage ret msg locals
        (tests ++ events, locals, msg)

/-- Where `voltage_measurement_publish_thread` stands: it sleeps, or is in `publish_all_voltages` before one of the
sources. -/
inductive PublishPc where
  | sleeping
  | publishing (locals : PublishLocals) (rest : List VoltageSource)

structure Voltages where
  adcSamplesBuffers : AdcSamplesBuffers
  superCaps : SuperCaps
  voltageMsg : VoltageMsg
  pc : PublishPc

/-- An ADC has samples; the voltages of the super capacitors are measured; the next step of the thread, in which
`publish_new` returns `ret` if it is called. -/
inductive VoltageAction where
  | sample (adc : Adc) (samples : Channel → UInt16)
  | checkCaps (superCaps : SuperCaps)
  | thread (ret : RetCode)

def publishThread (cfg : VoltageConfig) (ret : RetCode) (s : Voltages) : List VoltageEvent × Voltages :=
  match s.pc with
  | .sleeping =>
    ([.copied (s.adcSamplesBuffers.raw .vrefint)],
      { s with
        adcSamplesBuffers := resetStatistics s.adcSamplesBuffers
        pc := .publishing ⟨s.adcSamplesBuffers, false, false, 0⟩ cfg.sources })
  | .publishing locals (source :: rest) =>
    let (events, locals, msg) := publishSource cfg s.superCaps source ret s.voltageMsg locals
    (events, { s with voltageMsg := msg, pc := .publishing locals rest })
  | .publishing locals [] =>
    let buffers :=
      if !locals.atLeastOnePublishSuccessful then updateMinMaxFromAdcSamplesBuffer s.adcSamplesBuffers locals.buffers
      else s.adcSamplesBuffers
    ([], { s with adcSamplesBuffers := buffers, pc := .sleeping })

def callback (board : Board) : Adc → (Channel → UInt16) → AdcSamplesBuffers → AdcSamplesBuffers
  | .adc1 => adc1Callback board
  | .adc4 => adc4Callback board
  | .adc5 => adc5Callback board

def voltageStep (cfg : VoltageConfig) (s : Voltages) : VoltageAction → List VoltageEvent × Voltages
  | .sample adc samples =>
    ([.sampled adc samples], { s with adcSamplesBuffers := callback cfg.board adc samples s.adcSamplesBuffers })
  | .checkCaps superCaps => ([], { s with superCaps })
  | .thread ret => publishThread cfg ret s

/-- The thread has cleared the statistics and goes to sleep. -/
def voltageStart (raw : Channel → UInt16) (msg : VoltageMsg) (superCaps : SuperCaps) : Voltages where
  adcSamplesBuffers := resetStatistics ⟨raw, raw, raw⟩
  superCaps := superCaps
  voltageMsg := msg
  pc := .sleeping

end OrbFirmware.Voltage

import OrbFirmware.RgbLeds.OperatorLeds

/-! The front LEDs: commands of the runner, and the LED thread, of higher priority, that draws a pattern and updates
the strip when it is woken. -/
namespace OrbFirmware.RgbLeds

inductive FrontPattern where
  | off
  | allWhite
  | allWhiteNoCenter
  | allWhiteOnlyCenter
  | randomRainbow
  | allRed
  | allGreen
  | allBlue
  | pulsingWhite
  | pulsingRgb
  | pulsingRgbOnlyCenter
  | rgb
  | rgbOnlyCenter
  | bootAnimation
  | unhandled (pattern : UInt32)
  deriving DecidableEq

/-- The arguments of `front_leds_set_pattern`. -/
structure PatternCommand where
  pattern : FrontPattern
  startAngle : UInt32
  angleLength : Int32
  color : Option RgbColor
  pulsingPeriodMs : UInt32
  pulsingScale : Float32

structure FrontSettings where
  pulsingScale : Float32
  pulsingPeriodMs : UInt32
  pulsingDelayTimeMs : UInt32
  pattern : FrontPattern
  startAngleDegrees : UInt32
  angleLengthDegrees : Int32
  color : LedRgb

inductive LedsPart where
  | center
  | ring
  deriving DecidableEq

inductive FrontCommand where
  | setPattern (command : PatternCommand)
  | setLedsSequence (part : LedsPart) (format : LedFormat) (bytes : List UInt8)

/-- The thread waits for `sem_leds_refresh`, or updates the strip with `leds_update_sem` taken. -/
inductive FrontPc where
  | waits
  | updates
  deriving DecidableEq

/-- A call for a sequence has taken `leds_update_sem`; has written the buffer and given it; or has set the mode. -/
inductive SequencePc where
  | idle
  | writes (part : LedsPart) (format : LedFormat) (bytes : List UInt8)
  | written (part : LedsPart) (format : LedFormat) (bytes : List UInt8)
  | marks (part : LedsPart) (format : LedFormat) (bytes : List UInt8)
  deriving DecidableEq

structure FrontLeds where
  settings : FrontSettings
  globalIntensity : UInt8
  useSequence : Bool
  center : List LedRgb
  ring : List LedRgb
  centerLedsDirty : Bool
  ringLedsDirty : Bool
  semLedsRefresh : Bool
  ledsUpdateSem : Bool
  otherHolds : Bool
  bootProgressCurrent : Nat
  bootProgressTarget : Nat
  thread : FrontPc
  caller : SequencePc

/-- A call, or its next step; the thread woken by `sem_leds_refresh` or by its timeout, with what it draws and whether
the boot animation is bright enough for the next segment; the end of an update of the strip; the boot progress; or
`front_leds_is_shroud_on` with `leds_update_sem`. -/
inductive FrontAction where
  | command (command : FrontCommand)
  | caller
  | setBrightness (brightness : UInt32)
  | wake (picture : LedsPart → Nat → LedRgb) (segmentBright : Bool)
  | updated
  | bootProgressSet (step : Nat)
  | takeUpdateSem
  | giveUpdateSem

/-- A command returned; `ignored` where Diamond was still booting. -/
structure FrontEvent where
  command : FrontCommand
  ret : RetCode
  ignored : Bool := false

variable {board : Board} {driver : LedRgb → LedRgb}

def sineTableLength : UInt32 := 150
def initialPulsingPeriodMs : UInt32 := 5000
def pulsingScaleDefault : Float32 := 1.0

/-- `lroundf` rounds halves away from zero. -/
def lroundfAbove255 (x : Float32) : Prop := 255.5 ≤ x

instance (x : Float32) : Decidable (lroundfAbove255 x) := inferInstanceAs (Decidable (255.5 ≤ x))

def pulsingRgbCheckRange (color : Option RgbColor) (pulsingScale : Float32) : RetCode :=
  match color with
  | none => .invalidParam
  | some color =>
    if lroundfAbove255 (color.red.toFloat32 * (pulsingScale + 1)) ∨
        lroundfAbove255 (color.green.toFloat32 * (pulsingScale + 1)) ∨
        lroundfAbove255 (color.blue.toFloat32 * (pulsingScale + 1)) then .invalidParam
    else .success

/-- With dimming (`CONFIG_SPI_RGB_LED_DIMMING`, Diamond), 0 and values out of bounds are the maximum. -/
def RgbColor.dimmed (board : Board) (color : RgbColor) : RgbColor :=
  match board with
  | .pearl => color
  | .diamond =>
    if color.dimming = 0 ∨ rgbBrightnessMax.toUInt32 < color.dimming then
      { color with dimming := rgbBrightnessMax.toUInt32 }
    else color

def previousSettingsAreIdentical (board : Board) (command : PatternCommand) (settings : FrontSettings) : Bool :=
  let ret := settings.pulsingScale == command.pulsingScale && settings.pulsingPeriodMs == command.pulsingPeriodMs &&
    settings.pulsingDelayTimeMs == settings.pulsingPeriodMs / sineTableLength && settings.pattern == command.pattern &&
    settings.startAngleDegrees == command.startAngle && settings.angleLengthDegrees == command.angleLength
  match command.color with
  | some color =>
    ret && settings.color.r.toUInt32 == color.red && settings.color.g.toUInt32 == color.green &&
      settings.color.b.toUInt32 == color.blue &&
      (match board with
        | .pearl => true
        | .diamond => settings.color.scratch.toUInt32 == color.dimming)
  | none => ret

def updatedColor (board : Board) (color : RgbColor) (old : LedRgb) : LedRgb where
  scratch := match board with
    | .pearl => old.scratch
    | .diamond => if color.dimming ≠ 0 then color.dimming.toUInt8 else rgbBrightnessMax
  r := color.red.toUInt8
  g := color.green.toUInt8
  b := color.blue.toUInt8

/-- `update_parameters` but for the mode. -/
def updateParameters (board : Board) (command : PatternCommand) (settings : FrontSettings) : FrontSettings :=
  let pulsingPeriodMs := if command.pulsingPeriodMs = 0 then initialPulsingPeriodMs else command.pulsingPeriodMs
  { pulsingScale := if command.pulsingScale == 0 then pulsingScaleDefault else command.pulsingScale
    pulsingPeriodMs := pulsingPeriodMs
    pulsingDelayTimeMs := pulsingPeriodMs / sineTableLength
    pattern := command.pattern
    startAngleDegrees := command.startAngle
    angleLengthDegrees := command.angleLength
    color := match command.color with
      | some color => updatedColor board color settings.color
      | none => settings.color }

def PatternCommand.dimmed (board : Board) (command : PatternCommand) : PatternCommand :=
  { command with color := command.color.map (RgbColor.dimmed board) }

def frontLedsSetPattern (board : Board) (command : PatternCommand) (s : FrontLeds) : RetCode × FrontLeds :=
  if command.pattern = .pulsingRgb ∧ pulsingRgbCheckRange command.color command.pulsingScale ≠ .success then
    (.invalidParam, s)
  else
    let command := command.dimmed board
    if previousSettingsAreIdentical board command s.settings then (.success, s)
    else
      (.success, { s with
        settings := updateParameters board command s.settings
        useSequence := false
        semLedsRefresh := true })

def bootProgressStepDone : Nat := 5

def FrontLeds.leds (s : FrontLeds) : LedsPart → List LedRgb
  | .center => s.center
  | .ring => s.ring

def FrontLeds.setLeds (s : FrontLeds) (part : LedsPart) (leds : List LedRgb) : FrontLeds :=
  match part with
  | .center => { s with center := leds }
  | .ring => { s with ring := leds }

def FrontLeds.clean (s : FrontLeds) (part : LedsPart) : FrontLeds :=
  match part with
  | .center => { s with centerLedsDirty := false }
  | .ring => { s with ringLedsDirty := false }

/-- The four functions `front_leds_set_*_leds_sequence_*`, up to the take of `leds_update_sem` in
`rgb_leds_set_leds_sequence`. -/
def startSequence (board : Board) (part : LedsPart) (format : LedFormat) (bytes : List UInt8) (s : FrontLeds) :
    List FrontEvent × FrontLeds :=
  let command := .setLedsSequence part format bytes
  if board = .diamond ∧ s.bootProgressCurrent ≠ bootProgressStepDone then
    ([{ command, ret := .success, ignored := true }], s)
  else if bytes.length % format.size ≠ 0 then ([{ command, ret := .invalidParam }], s)
  else if s.ledsUpdateSem then ([], { s with ledsUpdateSem := false, caller := .writes part format bytes })
  else ([{ command, ret := .internal }], s)

/-- The rest of the call, whether or not a colour changed. -/
def sequenceStep (board : Board) (s : FrontLeds) : List FrontEvent × FrontLeds :=
  match s.caller with
  | .idle => ([], s)
  | .writes part format bytes =>
    ([], { s.setLeds part (copySequence board format bytes (s.leds part)).2 with
      ledsUpdateSem := true
      caller := .written part format bytes })
  | .written part format bytes => ([], { s with useSequence := true, caller := .marks part format bytes })
  | .marks part format bytes =>
    let s := s.clean part
    ([{ command := .setLedsSequence part format bytes, ret := .success }],
      { s with
        semLedsRefresh := s.semLedsRefresh || (!s.centerLedsDirty && !s.ringLedsDirty)
        caller := .idle })

def FrontPattern.handled : FrontPattern → Bool
  | .unhandled _ => false
  | _ => true

/-- Whether the thread draws when it wakes: all patterns but one take `leds_update_sem` for it. -/
def FrontLeds.draws (s : FrontLeds) : Bool :=
  s.thread = .waits && !s.useSequence && s.settings.pattern.handled &&
    (s.settings.pattern = .randomRainbow || s.ledsUpdateSem)

def drawPicture (picture : LedsPart → Nat → LedRgb) (s : FrontLeds) : FrontLeds :=
  { s with
    center := s.center.mapIdx fun i _ => picture .center i
    ring := s.ring.mapIdx fun i _ => picture .ring i }

/-- The boot animation goes on to the next segment. -/
def nextSegment (board : Board) (segmentBright : Bool) (s : FrontLeds) : FrontLeds :=
  if s.useSequence = false ∧ s.settings.pattern = .bootAnimation ∧ board = .diamond ∧ segmentBright ∧
      s.bootProgressCurrent < s.bootProgressTarget then
    { s with bootProgressCurrent := s.bootProgressTarget }
  else s

/-- A turn of the thread up to the update of the strip. Callers have a lower priority, and nothing in it blocks. -/
def frontLedsThreadWake (board : Board) (picture : LedsPart → Nat → LedRgb) (segmentBright : Bool) (s : FrontLeds) :
    FrontLeds :=
  let s := { s with semLedsRefresh := false }
  if s.useSequence = false ∧ s.settings.pattern.handled = false then s
  else
    let s := nextSegment board segmentBright (if s.draws then drawPicture picture s else s)
    if s.ledsUpdateSem then { s with ledsUpdateSem := false, thread := .updates } else s

def frontLedsThreadUpdated (driver : LedRgb → LedRgb) (s : FrontLeds) : FrontLeds :=
  { s with
    center := s.center.map driver
    ring := s.ring.map driver
    centerLedsDirty := true
    ringLedsDirty := true
    ledsUpdateSem := true
    thread := .waits }

def frontLedsBootProgressSet (board : Board) (step : Nat) (s : FrontLeds) : FrontLeds :=
  if board = .pearl ∨ bootProgressStepDone < step ∨ step ≤ s.bootProgressTarget then s
  else
    { s with
      bootProgressTarget := step
      bootProgressCurrent := if step = bootProgressStepDone then step else s.bootProgressCurrent }

/-- Commands come one after the other. -/
def frontStep (board : Board) (driver : LedRgb → LedRgb) (s : FrontLeds) : FrontAction → List FrontEvent × FrontLeds
  | .command command =>
    match s.caller, command with
    | .idle, .setPattern pattern =>
      ([{ command, ret := (frontLedsSetPattern board pattern s).1 }], (frontLedsSetPattern board pattern s).2)
    | .idle, .setLedsSequence part format bytes => startSequence board part format bytes s
    | _, _ => ([], s)
  | .caller => sequenceStep board s
  | .setBrightness brightness =>
    ([], { s with globalIntensity := (min 255 brightness).toUInt8, semLedsRefresh := true })
  | .wake picture segmentBright =>
    ([], match s.thread with
      | .waits => frontLedsThreadWake board picture segmentBright s
      | .updates => s)
  | .updated =>
    ([], match s.thread with
      | .waits => s
      | .updates => frontLedsThreadUpdated driver s)
  | .bootProgressSet step => ([], frontLedsBootProgressSet board step s)
  | .takeUpdateSem => ([], if s.ledsUpdateSem then { s with ledsUpdateSem := false, otherHolds := true } else s)
  | .giveUpdateSem => ([], if s.otherHolds then { s with ledsUpdateSem := true, otherHolds := false } else s)

def rgbWhite : Board → LedRgb
  | .pearl => ⟨0, 9, 9, 9⟩
  | .diamond => ⟨15, 80, 80, 50⟩

def frontLedsInit (board : Board) (centerCount ringCount : Nat) : FrontLeds where
  settings :=
    { pulsingScale := pulsingScaleDefault
      pulsingPeriodMs := initialPulsingPeriodMs
      pulsingDelayTimeMs := initialPulsingPeriodMs / sineTableLength
      pattern := match board with
        | .pearl => .off
        | .diamond => .bootAnimation
      startAngleDegrees := 0
      angleLengthDegrees := 360
      color := rgbWhite board }
  globalIntensity := 25
  useSequence := false
  center := List.replicate centerCount rgbOff
  ring := List.replicate ringCount rgbOff
  centerLedsDirty := false
  ringLedsDirty := false
  semLedsRefresh := true
  ledsUpdateSem := true
  otherHolds := false
  bootProgressCurrent := 0
  bootProgressTarget := 0
  thread := .waits
  caller := .idle

/-! What the LEDs show after some commands: the last pattern, or the last sequence of each part since the last
pattern. -/

inductive FrontShown where
  | nothing
  | pattern (command : PatternCommand)
  | sequence (leds : LedsPart → Option (LedFormat × List UInt8))

def FrontShown.next (shown : FrontShown) : FrontCommand → FrontShown
  | .setPattern command => .pattern command
  | .setLedsSequence part format bytes =>
    let before := match shown with
      | .sequence leds => leds
      | _ => fun _ => none
    .sequence (Function.update before part (some (format, bytes)))

/-- By all commands that returned `RET_SUCCESS`. -/
def frontReturned (events : List FrontEvent) : FrontShown :=
  ((events.filter fun e => e.ret = .success).map FrontEvent.command).foldl FrontShown.next .nothing

/-- By those of them that were not ignored. -/
def frontShown (events : List FrontEvent) : FrontShown :=
  ((events.filter fun e => e.ret = .success ∧ e.ignored = false).map FrontEvent.command).foldl FrontShown.next .nothing

/-- The settings are those of the command, 0 standing for the default of the period and the scale. -/
structure FrontSettings.Are (board : Board) (settings : FrontSettings) (command : PatternCommand) : Prop where
  pattern : settings.pattern = command.pattern
  startAngle : settings.startAngleDegrees = command.startAngle
  angleLength : settings.angleLengthDegrees = command.angleLength
  period : settings.pulsingPeriodMs =
    if command.pulsingPeriodMs = 0 then initialPulsingPeriodMs else command.pulsingPeriodMs
  delay : settings.pulsingDelayTimeMs = settings.pulsingPeriodMs / sineTableLength
  scale : (settings.pulsingScale == command.pulsingScale) = true ∨
    settings.pulsingScale = if command.pulsingScale == 0 then pulsingScaleDefault else command.pulsingScale
  color : ∀ c, command.color = some c → settings.color.colour = (c.red.toUInt8, c.green.toUInt8, c.blue.toUInt8) ∧
    (board = .diamond → settings.color.scratch = (c.dimmed board).dimming.toUInt8)

def FrontLeds.Shows (board : Board) (driver : LedRgb → LedRgb) (s : FrontLeds) : FrontShown → Prop
  | .nothing => True
  | .pattern command => s.useSequence = false ∧ s.settings.Are board command
  | .sequence leds => s.useSequence = true ∧ ∀ part format bytes, leds part = some (format, bytes) →
    Holds driver (s.leds part) (sequenceLeds board format bytes (s.leds part).length)

/-- A pattern command that is accepted does not repeat the settings while the mode is on; and the thread does not draw
between the take of `leds_update_sem` for a sequence and the change of the mode. -/
def FrontAction.Regular (board : Board) (s : FrontLeds) : FrontAction → Prop
  | .command (.setPattern new) =>
    (new.pattern = .pulsingRgb → pulsingRgbCheckRange new.color new.pulsingScale = .success) →
      s.useSequence = true → previousSettingsAreIdentical board (new.dimmed board) s.settings = false
  | .wake _ _ => s.draws = true → s.caller = .idle
  | _ => True

instance (board : Board) (s : FrontLeds) : (a : FrontAction) → Decidable (a.Regular board s)
  | .command (.setPattern _) => inferInstanceAs (Decidable ((_ → _) → _ → _))
  | .wake _ _ => inferInstanceAs (Decidable (_ → _))
  | .command (.setLedsSequence _ _ _) => isTrue trivial
  | .caller => isTrue trivial
  | .setBrightness _ => isTrue trivial
  | .updated => isTrue trivial
  | .bootProgressSet _ => isTrue trivial
  | .takeUpdateSem => isTrue trivial
  | .giveUpdateSem => isTrue trivial

end OrbFirmware.RgbLeds

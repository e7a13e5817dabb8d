import OrbFirmware.Machine
import OrbFirmware.RgbLeds.Sequence

/-! The operator LEDs: commands, and the LED thread, of lower priority, that draws a pattern after it has tested the
mode. -/
namespace OrbFirmware.RgbLeds

structure RgbColor where
  red : UInt32
  green : UInt32
  blue : UInt32
  dimming : UInt32
  deriving DecidableEq

/-- Also the values that the enumeration of the messages does not have. -/
inductive OperatorPattern where
  | off
  | allWhite
  | allRed
  | allGreen
  | allBlue
  | rgb
  | pulsingRgb
  | bootAnimation
  | unhandled (pattern : UInt32)
  deriving DecidableEq

/-- The thread waits; has its copies; is about to draw them, the mode being off; or is about to update the strip. -/
inductive OperatorPc where
  | waits
  | copied (mask : UInt32) (color : LedRgb)
  | draws (mask : UInt32) (color : LedRgb)
  | updates
  deriving DecidableEq

def OperatorPc.isDrawing : OperatorPc → Bool
  | .draws _ _ => true
  | _ => false

structure OperatorLeds where
  globalPattern : OperatorPattern
  globalIntensity : UInt8
  globalMask : UInt32
  globalColor : LedRgb
  useSequence : Bool
  leds : List LedRgb
  semLedsRefresh : Bool
  thread : OperatorPc

inductive OperatorCommand where
  | setPattern (pattern : OperatorPattern) (mask : UInt32) (color : Option RgbColor)
  | setLedsSequence (format : LedFormat) (bytes : List UInt8)

/-- A command, the brightness, or the next step of the thread, `pulse` being the colour of its animations. -/
inductive OperatorAction where
  | command (command : OperatorCommand)
  | setBrightness (brightness : UInt8)
  | thread (pulse : LedRgb)

/-- A command returned. -/
abbrev OperatorEvent := OperatorCommand × RetCode

variable {board : Board} {driver : LedRgb → LedRgb}

def applyPattern (board : Board) (mask : UInt32) (color : LedRgb) (leds : List LedRgb) : List LedRgb :=
  leds.mapIdx fun i _ =>
    let bit := match board with
      | .pearl => leds.length - 1 - i
      | .diamond => i
    if mask.toNat.testBit bit then color else rgbOff

/-- The colour of a pattern; `pulse` where it is an animation. -/
def operatorColor (pattern : OperatorPattern) (intensity : UInt8) (color pulse : LedRgb) : LedRgb :=
  match pattern with
  | .off => rgbOff
  | .allWhite => { color with r := intensity, g := intensity, b := intensity }
  | .allRed => { color with r := intensity, g := 0, b := 0 }
  | .allGreen => { color with r := 0, g := intensity, b := 0 }
  | .allBlue => { color with r := 0, g := 0, b := intensity }
  | .pulsingRgb | .bootAnimation => pulse
  | .rgb | .unhandled _ => color

/-- What `led_strip_update_rgb` leaves of each LED of the buffer is up to the driver; those of this repository leave it
as it is. -/
def operatorLedsThread (board : Board) (driver : LedRgb → LedRgb) (pulse : LedRgb) (s : OperatorLeds) : OperatorLeds :=
  match s.thread with
  | .waits =>
    { s with
      semLedsRefresh := false
      thread := .copied s.globalMask (operatorColor s.globalPattern s.globalIntensity s.globalColor pulse) }
  | .copied mask color => { s with thread := if s.useSequence then .updates else .draws mask color }
  | .draws mask color => { s with leds := applyPattern board mask color s.leds, thread := .updates }
  | .updates => { s with leds := s.leds.map driver, thread := .waits }

/-- `RgbColor` to `struct led_rgb`. -/
def operatorLedRgb (board : Board) (color : RgbColor) : LedRgb where
  scratch :=
    if ledStripRgbScratch board then
      if color.dimming = 0 ∨ rgbBrightnessMax.toUInt32 < color.dimming then rgbBrightnessMax else color.dimming.toUInt8
    else 0
  r := color.red.toUInt8
  g := color.green.toUInt8
  b := color.blue.toUInt8

def operatorLedsSetPattern (board : Board) (pattern : OperatorPattern) (mask : UInt32) (color : Option RgbColor)
    (s : OperatorLeds) : RetCode × OperatorLeds :=
  (.success, { s with
    globalPattern := pattern
    globalMask := mask
    globalColor := match color with
      | some color => operatorLedRgb board color
      | none => s.globalColor
    useSequence := false
    semLedsRefresh := true })

/-- `operator_leds_set_leds_sequence_argb32` and `operator_leds_set_leds_sequence_rgb24`. -/
def operatorLedsSetLedsSequence (board : Board) (format : LedFormat) (bytes : List UInt8) (s : OperatorLeds) :
    RetCode × OperatorLeds :=
  let (ret, leds) := rgbLedsSetLedsSequence board format bytes s.leds
  let s := { s with leds }
  match ret with
  | .success => (.success, { s with useSequence := true, semLedsRefresh := true })
  | .alreadyInitialized => (.success, s)
  | ret => (ret, s)

def OperatorCommand.run (board : Board) : OperatorCommand → OperatorLeds → RetCode × OperatorLeds
  | .setPattern pattern mask color => operatorLedsSetPattern board pattern mask color
  | .setLedsSequence format bytes => operatorLedsSetLedsSequence board format bytes

def operatorStep (board : Board) (driver : LedRgb → LedRgb) (s : OperatorLeds) :
    OperatorAction → List OperatorEvent × OperatorLeds
  | .command command => ([(command, (command.run board s).1)], (command.run board s).2)
  | .setBrightness brightness => ([], { s with globalIntensity := brightness, semLedsRefresh := true })
  | .thread pulse => ([], operatorLedsThread board driver pulse s)

def rgbWhiteOperatorLeds : Board → LedRgb
  | .pearl => ⟨0, 20, 20, 20⟩
  | .diamond => ⟨10, 30, 27, 25⟩

def operatorLedsInit (board : Board) (ledsCount : Nat) : OperatorLeds where
  globalPattern := .bootAnimation
  globalIntensity := 20
  globalMask := 0b11111
  globalColor := rgbWhiteOperatorLeds board
  useSequence := false
  leds := List.replicate ledsCount rgbOff
  semLedsRefresh := false
  thread := .waits

/-! The last command that returned `RET_SUCCESS` wins. -/

def lastOperatorCommand (events : List OperatorEvent) : Option OperatorCommand :=
  ((events.filter (·.2 = .success)).getLast?).map Prod.fst

/-- The buffer holds these colours, but for what the driver made of them in some updates of the strip. -/
def Holds (driver : LedRgb → LedRgb) (buffer colours : List LedRgb) : Prop :=
  ∃ updates, buffer = colours.map driver^[updates]

/-- The LEDs show a command. -/
def OperatorLeds.Shows (board : Board) (driver : LedRgb → LedRgb) (s : OperatorLeds) : OperatorCommand → Prop
  | .setPattern pattern mask color =>
    s.useSequence = false ∧ s.globalPattern = pattern ∧ s.globalMask = mask ∧
      ∀ c, color = some c → s.globalColor = operatorLedRgb board c
  | .setLedsSequence format bytes =>
    s.useSequence = true ∧ Holds driver s.leds (sequenceLeds board format bytes s.leds.length)

/-- A sequence of whole LEDs comes when the thread is not between its test of the mode and its drawing and, on Pearl, when the mode is
on or the sequence changes a colour. -/
def OperatorAction.Regular (board : Board) (s : OperatorLeds) : OperatorAction → Prop
  | .command (.setLedsSequence format bytes) => bytes.length % format.size = 0 →
    s.thread.isDrawing = false ∧ (board = .pearl → s.useSequence = true ∨
      s.leds.map LedRgb.colour ≠ (sequenceLeds board format bytes s.leds.length).map LedRgb.colour)
  | _ => True

instance (board : Board) (s : OperatorLeds) : (a : OperatorAction) → Decidable (a.Regular board s)
  | .command (.setLedsSequence _ _) => inferInstanceAs (Decidable (_ → _ ∧ (_ → _ ∨ _)))
  | .command (.setPattern _ _ _) => isTrue trivial
  | .setBrightness _ => isTrue trivial
  | .thread _ => isTrue trivial

theorem holds_refl (colours : List LedRgb) : Holds driver colours colours :=
  ⟨0, (List.map_id colours).symm⟩

theorem Holds.update {buffer colours : List LedRgb} (h : Holds driver buffer colours) :
    Holds driver (buffer.map driver) colours := by
  obtain ⟨updates, rfl⟩ := h
  refine ⟨updates + 1, ?_⟩
  simp only [List.map_map, Function.iterate_succ']

/-- The drivers of the repository leave the sequence in the buffer. -/
theorem holds_id {buffer colours : List LedRgb} : Holds id buffer colours ↔ buffer = colours := by
  simp [Holds]

theorem sequenceLeds_length {format : LedFormat} {bytes : List UInt8} {ledsCount : Nat} :
    (sequenceLeds board format bytes ledsCount).length = ledsCount := by
  simp [sequenceLeds]

end OrbFirmware.RgbLeds

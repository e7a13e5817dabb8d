import OrbFirmware.RgbLeds.Sequence

/-! A LED sequence read LED by LED, and the buffer that `rgb_leds_set_leds_sequence` leaves. -/
namespace OrbFirmware.RgbLeds

/-- `rgb_leds_set_leds_sequence` with the count of the semaphore that is passed, if any; it is given back. -/
def rgbLedsSetLedsSequenceWith (writeSem : Option Nat) (board : Board) (format : LedFormat) (inputBytes : List UInt8)
    (ledBuffer : List LedRgb) : RetCode × List LedRgb :=
  if inputBytes.length % format.size ≠ 0 then (.invalidParam, ledBuffer)
  else if writeSem = some 0 then (.internal, ledBuffer)
  else copySequence board format inputBytes ledBuffer

theorem rgbLedsSetLedsSequenceWith_none (board : Board) (format : LedFormat) (inputBytes : List UInt8)
    (ledBuffer : List LedRgb) : rgbLedsSetLedsSequenceWith none board format inputBytes ledBuffer =
      rgbLedsSetLedsSequence board format inputBytes ledBuffer := rfl

/-- The LEDs of a sequence. Only ARGB has a brightness byte, and only some builds keep it. -/
def decodeLeds (board : Board) : LedFormat → List UInt8 → List LedRgb
  | .rgb, r :: g :: b :: bytes =>
    ⟨if ledStripRgbScratch board then rgbBrightnessMax else 0, r, g, b⟩ :: decodeLeds board .rgb bytes
  | .argb, a :: r :: g :: b :: bytes =>
    ⟨if ledStripRgbScratch board then a else 0, r, g, b⟩ :: decodeLeds board .argb bytes
  | _, _ => []

/-- A buffer of `ledsCount` LEDs that shows `leds`. -/
def shownLeds (ledsCount : Nat) (leds : List LedRgb) : List LedRgb :=
  leds.take ledsCount ++ List.replicate (ledsCount-leds.length) rgbOff

/-- What the build keeps of a LED: the brightness byte, if it has one, and the colour. -/
def LedRgb.held (board : Board) (led : LedRgb) : Option UInt8 × UInt8 × UInt8 × UInt8 :=
  (if ledStripRgbScratch board then some led.scratch else none, led.colour)

variable {board : Board} {format : LedFormat} {inputBytes : List UInt8} {leds : List LedRgb}

theorem decodeLeds_eq (board : Board) (format : LedFormat) (inputBytes : List UInt8) :
    decodeLeds board format inputBytes =
      (List.range (inputBytes.length/format.size)).map (inputLed board format inputBytes) := by
  induction format, inputBytes using decodeLeds.induct with
  | case1 r g b bytes ih =>
    have hcount : (bytes.length+1+1+1)/3 = bytes.length/3+1 := by omega
    have hfirst : inputLed board .rgb (r :: g :: b :: bytes) 0 =
        ⟨if ledStripRgbScratch board then rgbBrightnessMax else 0, r, g, b⟩ := rfl
    have hrest (i : Nat) : inputLed board .rgb (r :: g :: b :: bytes) (i+1) = inputLed board .rgb bytes i := by
      simp [inputLed, LedFormat.size, LedFormat.rgbOffset, Nat.succ_mul]
    simp only [decodeLeds, ih, List.length_cons, LedFormat.size, hcount, List.range_succ_eq_map, List.map_cons,
      List.map_map, hfirst, Function.comp_def, Nat.succ_eq_add_one, hrest]
  | case2 a r g b bytes ih =>
    have hcount : (bytes.length+1+1+1+1)/4 = bytes.length/4+1 := by omega
    have hfirst : inputLed board .argb (a :: r :: g :: b :: bytes) 0 =
        ⟨if ledStripRgbScratch board then a else 0, r, g, b⟩ := rfl
    have hrest (i : Nat) : inputLed board .argb (a :: r :: g :: b :: bytes) (i+1) = inputLed board .argb bytes i := by
      simp [inputLed, LedFormat.size, LedFormat.rgbOffset, Nat.succ_mul, Nat.add_right_comm _ 4]
    simp only [decodeLeds, ih, List.length_cons, LedFormat.size, hcount, List.range_succ_eq_map, List.map_cons,
      List.map_map, hfirst, Function.comp_def, Nat.succ_eq_add_one, hrest]
  | case3 bytes format hrgb hargb =>
    have hshort : bytes.length < format.size := by
      by_contra hlong
      match format, bytes, hlong with
      | .rgb, r :: g :: b :: bytes, _ => exact hrgb r g b bytes rfl rfl
      | .argb, a :: r :: g :: b :: bytes, _ => exact hargb a r g b bytes rfl rfl
      | .rgb, [], h | .rgb, [_], h | .rgb, [_, _], h => simp [LedFormat.size] at h
      | .argb, [], h | .argb, [_], h | .argb, [_, _], h | .argb, [_, _, _], h => simp [LedFormat.size] at h
    rw [decodeLeds, Nat.div_eq_of_lt hshort, List.range_zero, List.map_nil]
    · exact hrgb
    · exact hargb

theorem sequenceLeds_eq_shown (board : Board) (format : LedFormat) (inputBytes : List UInt8) (ledsCount : Nat) :
    sequenceLeds board format inputBytes ledsCount = shownLeds ledsCount (decodeLeds board format inputBytes) := by
  rw [decodeLeds_eq, shownLeds, sequenceLeds]
  refine List.ext_getElem? fun i => ?_
  simp only [List.getElem?_map, List.getElem?_append, List.getElem?_take, List.length_take, List.length_map,
    List.length_range, List.getElem?_replicate]
  grind

/-- Whole LEDs are decoded into the buffer, and Pearl tells whether it held them before. -/
theorem sequence_decoded (board : Board) (format : LedFormat) (inputBytes : List UInt8) (leds : List LedRgb)
    (writeSem : Option Nat) (hsize : inputBytes.length % format.size = 0) (hsem : writeSem ≠ some 0) :
    let shown := shownLeds leds.length (decodeLeds board format inputBytes)
    let (ret, buffer) := rgbLedsSetLedsSequenceWith writeSem board format inputBytes leds
    buffer = shown ∧
      (board = .pearl → (ret = .alreadyInitialized ↔ leds.map (LedRgb.held board) = shown.map (LedRgb.held board))) := by
  simp only [rgbLedsSetLedsSequenceWith, hsize, hsem, ne_eq, not_true_eq_false, if_false]
  rw [← sequenceLeds_eq_shown]
  refine ⟨copySequence_leds board format inputBytes leds, ?_⟩
  rintro rfl
  have hheld (leds : List LedRgb) : leds.map (LedRgb.held .pearl) = (leds.map LedRgb.colour).map (none, ·) := by
    rw [List.map_map]
    rfl
  rw [hheld, hheld, List.map_inj_right fun _ _ h => (Prod.mk.inj h).2, ← not_iff_not, ← ne_eq (List.map _ _),
    ← copySequence_found]
  obtain hret | hret := copySequence_ret .pearl format inputBytes leds
  · simp [hret]
  · simp [hret]

/-- One orange LED in a buffer of two. -/
theorem sequence_decoded_orange : (rgbLedsSetLedsSequenceWith none .pearl .rgb [255, 127, 0] [rgbOff, rgbOff]).2 =
    [⟨0, 255, 127, 0⟩, rgbOff] :=
  (sequence_decoded .pearl .rgb [255, 127, 0] [rgbOff, rgbOff] none rfl nofun).1

end OrbFirmware.RgbLeds

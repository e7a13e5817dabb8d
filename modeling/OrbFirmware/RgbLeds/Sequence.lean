import OrbFirmware.Flash

/-! The colours of a LED sequence and their copy into a LED buffer. -/
namespace OrbFirmware.RgbLeds

/-- Whether the build has the brightness byte of the LEDs (`CONFIG_LED_STRIP_RGB_SCRATCH`). -/
def ledStripRgbScratch : Board → Bool
  | .pearl => false
  | .diamond => true

/-- Without brightness byte, `scratch` stays 0. -/
structure LedRgb where
  scratch : UInt8
  r : UInt8
  g : UInt8
  b : UInt8
  deriving DecidableEq

def rgbOff : LedRgb := ⟨0, 0, 0, 0⟩

def rgbBrightnessMax : UInt8 := 31

def LedRgb.colour (led : LedRgb) : UInt8 × UInt8 × UInt8 := (led.r, led.g, led.b)

inductive LedFormat where
  | rgb
  | argb
  deriving DecidableEq

/-- The value of the enumeration, which is the number of bytes of a LED. -/
def LedFormat.size : LedFormat → Nat
  | .rgb => 3
  | .argb => 4

def LedFormat.rgbOffset : LedFormat → Nat
  | .rgb => 0
  | .argb => 1

/-- LED `i` of the input bytes. -/
def inputLed (board : Board) (format : LedFormat) (inputBytes : List UInt8) (i : Nat) : LedRgb where
  scratch :=
    if ledStripRgbScratch board then
      match format with
      | .argb => inputBytes.getD (i * format.size) 0
      | .rgb => rgbBrightnessMax
    else 0
  r := inputBytes.getD (i * format.size + format.rgbOffset) 0
  g := inputBytes.getD (i * format.size + format.rgbOffset + 1) 0
  b := inputBytes.getD (i * format.size + format.rgbOffset + 2) 0

/-- The comparison of a LED with the input; a format without brightness does not compare it. -/
def LedRgb.differs (board : Board) (format : LedFormat) (led new : LedRgb) : Bool :=
  (ledStripRgbScratch board && format == .argb && led.scratch != new.scratch) ||
    led.r != new.r || led.g != new.g || led.b != new.b

/-- Both loops over the buffer, from LED `i` on, of which `count` are in the input. -/
def writeLeds (board : Board) (format : LedFormat) (inputBytes : List UInt8) (count : Nat) :
    Nat → Bool → List LedRgb → Bool × List LedRgb
  | _, foundADifference, [] => (foundADifference, [])
  | i, foundADifference, led :: leds =>
    if i < count then
      let new := inputLed board format inputBytes i
      let (found, leds) := writeLeds board format inputBytes count (i + 1) (foundADifference || led.differs board format new) leds
      (found, new :: leds)
    else
      let (found, leds) := writeLeds board format inputBytes count (i + 1)
        (foundADifference || led.r != 0 || led.g != 0 || led.b != 0) leds
      (found, rgbOff :: leds)

/-- How many LEDs of the buffer are in the input. -/
def inputCount (format : LedFormat) (inputSizeBytes ledsCount : Nat) : Nat :=
  min inputSizeBytes (ledsCount * format.size) / format.size

/-- The copy into the buffer, under the semaphore if there is one. On Diamond the LEDs are always updated. -/
def copySequence (board : Board) (format : LedFormat) (inputBytes : List UInt8) (ledBuffer : List LedRgb) :
    RetCode × List LedRgb :=
  let (found, leds) := writeLeds board format inputBytes (inputCount format inputBytes.length ledBuffer.length) 0
    (board == .diamond) ledBuffer
  (if found then .success else .alreadyInitialized, leds)

/-- `rgb_leds_set_leds_sequence` without semaphore. -/
def rgbLedsSetLedsSequence (board : Board) (format : LedFormat) (inputBytes : List UInt8) (ledBuffer : List LedRgb) :
    RetCode × List LedRgb :=
  if inputBytes.length % format.size ≠ 0 then (.invalidParam, ledBuffer)
  else copySequence board format inputBytes ledBuffer

/-! What a sequence shows: the LEDs of the input, as many as fit, the others off. -/

def sequenceLeds (board : Board) (format : LedFormat) (inputBytes : List UInt8) (ledsCount : Nat) : List LedRgb :=
  (List.range ledsCount).map fun i =>
    if i < inputBytes.length / format.size then inputLed board format inputBytes i else rgbOff

variable {board : Board} {format : LedFormat} {inputBytes : List UInt8} {leds : List LedRgb}

/-- LED `i` of a buffer with a sequence of `count` LEDs. -/
def sequenceLed (board : Board) (format : LedFormat) (inputBytes : List UInt8) (count i : Nat) : LedRgb :=
  if i < count then inputLed board format inputBytes i else rgbOff

theorem writeLeds_leds (count i : Nat) (found : Bool) :
    (writeLeds board format inputBytes count i found leds).2 =
      (List.range' i leds.length).map (sequenceLed board format inputBytes count) := by
  induction leds generalizing i found with
  | nil => rfl
  | cons led leds ih =>
    simp only [writeLeds]
    split_ifs with h
    · simp [ih, List.range'_succ, sequenceLed, h]
    · simp [ih, List.range'_succ, sequenceLed, h]

theorem copySequence_leds (board : Board) (format : LedFormat) (inputBytes : List UInt8) (leds : List LedRgb) :
    (copySequence board format inputBytes leds).2 = sequenceLeds board format inputBytes leds.length := by
  simp only [copySequence, writeLeds_leds, sequenceLeds, List.range_eq_range']
  refine List.map_congr_left fun i hi => ?_
  obtain ⟨-, hlt⟩ := List.mem_range'_1.mp hi
  have hsize : 0 < format.size := by cases format <;> decide
  have hcount : i < inputCount format inputBytes.length leds.length ↔ i < inputBytes.length / format.size := by
    simp only [inputCount, Nat.lt_iff_add_one_le, Nat.le_div_iff_mul_le hsize, Nat.le_min]
    have hfits : (i + 1) * format.size ≤ leds.length * format.size := Nat.mul_le_mul_right _ (by omega)
    exact ⟨fun h => h.1, fun h => ⟨h, hfits⟩⟩
  simp only [sequenceLed, hcount]

theorem differs_pearl (led new : LedRgb) : led.differs .pearl format new = true ↔ led.colour ≠ new.colour := by
  simp [LedRgb.differs, ledStripRgbScratch, LedRgb.colour]
  tauto

theorem writeLeds_found (format : LedFormat) (inputBytes : List UInt8) (leds : List LedRgb) (count i : Nat)
    (found : Bool) :
    (writeLeds .pearl format inputBytes count i found leds).1 = true ↔ found = true ∨ leds.map LedRgb.colour ≠
      ((List.range' i leds.length).map (sequenceLed .pearl format inputBytes count)).map LedRgb.colour := by
  induction leds generalizing i found with
  | nil => simp [writeLeds]
  | cons led leds ih =>
    simp only [writeLeds, List.length_cons, List.range'_succ, List.map_cons, ne_eq, List.cons.injEq, not_and_or]
    split_ifs with h
    · simp only [ih, Bool.or_eq_true, differs_pearl, sequenceLed, h, if_true, or_assoc, ne_eq]
    · have hoff : (led.r != 0 || led.g != 0 || led.b != 0) = true ↔ led.colour ≠ rgbOff.colour := by
        simp [LedRgb.colour, rgbOff]
        tauto
      simp only [ih, Bool.or_assoc, Bool.or_eq_true, ← hoff, sequenceLed, h, if_false, or_assoc]

theorem copySequence_ret (board : Board) (format : LedFormat) (bytes : List UInt8) (leds : List LedRgb) :
    (copySequence board format bytes leds).1 = .success ∨ (copySequence board format bytes leds).1 = .alreadyInitialized := by
  simp only [copySequence]
  split_ifs
  · exact .inl rfl
  · exact .inr rfl

/-- On Pearl the copy says whether it changed a colour. -/
theorem copySequence_found : (copySequence .pearl format inputBytes leds).1 = .success ↔
    leds.map LedRgb.colour ≠ (sequenceLeds .pearl format inputBytes leds.length).map LedRgb.colour := by
  have hleds := copySequence_leds .pearl format inputBytes leds
  simp only [copySequence, writeLeds_leds] at hleds ⊢
  have hfound := writeLeds_found format inputBytes leds (inputCount format inputBytes.length leds.length) 0 (Board.pearl == .diamond)
  rw [← hleds]
  split_ifs with h
  · simpa [h] using hfound
  · simpa [h] using hfound

theorem writeLeds_keeps (count i : Nat) : (writeLeds board format inputBytes count i true leds).1 = true := by
  induction leds generalizing i with
  | nil => rfl
  | cons led leds ih =>
    simp only [writeLeds, Bool.true_or]
    split_ifs
    · exact ih (i + 1)
    · exact ih (i + 1)

theorem copySequence_diamond : (copySequence .diamond format inputBytes leds).1 = .success := by
  have hfound : (writeLeds .diamond format inputBytes (inputCount format inputBytes.length leds.length) 0
      (Board.diamond == .diamond) leds).1 = true := writeLeds_keeps _ _
  simp only [copySequence, hfound, if_true]

end OrbFirmware.RgbLeds

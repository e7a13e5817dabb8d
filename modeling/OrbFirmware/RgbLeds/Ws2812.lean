import OrbFirmware.Machine
import OrbFirmware.RgbLeds.Decoding

/-! `ws2812_pwm_stm32.c`: a byte of `pixel_bits` for each pulse, and the chain of LEDs that takes the pulses. -/
namespace OrbFirmware.RgbLeds
open Machine

def nsecToCycles (timClk : UInt32) (ns : Nat) : Nat := ns*timClk.toNat/1000000000

def zeroBit (timClk : UInt32) : UInt8 := UInt8.ofNat (nsecToCycles timClk 300)

def oneBit (timClk : UInt32) : UInt8 := UInt8.ofNat (nsecToCycles timClk 600)

/-- `NUM_RESET_PIXELS`. -/
def numResetPixels : Nat := 65

/-- A store into `pixel_bits`, or one that is not in it. -/
def storePulse (pixelBits : List UInt8) (a : Nat) (pulse : UInt8) : Option (List UInt8) :=
  if a < pixelBits.length then some (pixelBits.set a pulse) else none

/-- The pulse for bit `j` of a colour, from the highest on. -/
def pulse (timClk : UInt32) (colour : UInt8) (j : Nat) : UInt8 :=
  if colour &&& (0x80 >>> UInt8.ofNat j) ≠ 0 then oneBit timClk else zeroBit timClk

/-- The loop for one colour of a LED. -/
def storeColour (timClk : UInt32) (colour : UInt8) (a : Nat) (pixelBits : List UInt8) : Option (List UInt8) :=
  (List.range 8).foldlM (fun pixelBits j => storePulse pixelBits (a+j) (pulse timClk colour j)) pixelBits

/-- A round of the loop over the LEDs. -/
def storeLed (timClk : UInt32) (pixelBits : List UInt8) : LedRgb × Nat → Option (List UInt8)
  | (led, i) => do
    let pixelBits ← storeColour timClk led.g (i*24) pixelBits
    let pixelBits ← storeColour timClk led.r (i*24+8) pixelBits
    storeColour timClk led.b (i*24+16) pixelBits

def rgbToDmaPixels (timClk : UInt32) (pixels : List LedRgb) (pixelBits : List UInt8) : Option (List UInt8) := do
  let pixelBits ← pixels.zipIdx.foldlM (storeLed timClk) pixelBits
  (List.range numResetPixels).foldlM (fun pixelBits j => storePulse pixelBits (pixels.length*24+j) 0) pixelBits

/-- `ws2812_pwm_stm32_update_rgb`: the pulses that the DMA brings to the timer, and `pixel_bits`, if no store missed it. -/
def ws2812UpdateRgb (numLeds : Nat) (timClk : UInt32) (pixelBits : Option (List UInt8)) (pixels : List LedRgb) :
    List (List UInt8) × Option (List UInt8) :=
  if numLeds < pixels.length then ([], pixelBits)
  else
    match pixelBits.bind (rgbToDmaPixels timClk pixels) with
    | some pixelBits => ([pixelBits.take (numResetPixels+pixels.length*24)], some pixelBits)
    | none => ([], none)

/-! The specification: a chain of LEDs, which know a one by its 600 ns and a zero by its 300 ns, to within a cycle. -/

/-- A pulse is as long as it says. -/
def Lasts (timClk : UInt32) (pulse : UInt8) (ns : Nat) : Prop :=
  pulse.toNat*1000000000 ≤ ns*timClk.toNat ∧ ns*timClk.toNat < (pulse.toNat+1)*1000000000

instance (timClk : UInt32) (pulse : UInt8) (ns : Nat) : Decidable (Lasts timClk pulse ns) :=
  inferInstanceAs (Decidable (_ ∧ _))

def pulseBit (timClk : UInt32) (pulse : UInt8) : Option Bool :=
  if Lasts timClk pulse 600 then some true else if Lasts timClk pulse 300 then some false else none

/-- Eight pulses, highest bit first. -/
def pulsesByte (timClk : UInt32) (pulses : List UInt8) : Option UInt8 :=
  (pulses.mapM (pulseBit timClk)).map fun bits => bits.foldl (fun byte bit => 2*byte + if bit then 1 else 0) 0

/-- Green, red and blue; the result is a colour as `LedRgb.colour` has it. -/
def pulsesColour (timClk : UInt32) (pulses : List UInt8) : Option (UInt8 × UInt8 × UInt8) := do
  let g ← pulsesByte timClk (pulses.take 8)
  let r ← pulsesByte timClk ((pulses.drop 8).take 8)
  let b ← pulsesByte timClk ((pulses.drop 16).take 8)
  return (r, g, b)

/-- 50 us without a pulse. -/
def isReset (pulses : List UInt8) : Bool := (pulses.take 40).length == 40 && (pulses.take 40).all (· == 0)

/-- Each LED takes the first 24 pulses that come to it and passes on the rest, up to the reset; a LED that none came to
keeps its colour. -/
def chainTakes (timClk : UInt32) : List (UInt8 × UInt8 × UInt8) → List UInt8 → Option (List (UInt8 × UInt8 × UInt8))
  | [], pulses => if isReset pulses then some [] else none
  | shown :: chain, pulses =>
    if isReset pulses then some (shown :: chain)
    else
      match pulsesColour timClk (pulses.take 24), chainTakes timClk chain (pulses.drop 24) with
      | some colour, some chain => some (colour :: chain)
      | _, _ => none

/-- What a chain shows once an update is through. -/
def updateShown (shown : List (UInt8 × UInt8 × UInt8)) (pixels : List LedRgb) : List (UInt8 × UInt8 × UInt8) :=
  if shown.length < pixels.length then shown else pixels.map LedRgb.colour ++ shown.drop pixels.length

variable {timClk : UInt32} {pixels : List LedRgb} {pixelBits done rest : List UInt8} {a n : Nat}

/-! Stores one after the other. -/

theorem storePulse_next (done : List UInt8) (byte : UInt8) (rest : List UInt8) (pulse : UInt8) :
    storePulse (done ++ byte :: rest) done.length pulse = some (done ++ pulse :: rest) := by
  have hlt : done.length < (done ++ byte :: rest).length := by
    rw [List.length_append, List.length_cons]
    omega
  rw [storePulse, if_pos hlt, List.set_append_right _ _ (Nat.le_refl _), Nat.sub_self, List.set_cons_zero]

theorem storePulses (f : Nat → UInt8) (n : Nat) (ha : a = done.length) (h : n ≤ rest.length) :
    (List.range n).foldlM (fun pixelBits j => storePulse pixelBits (a+j) (f j)) (done ++ rest) =
      some (done ++ (List.range n).map f ++ rest.drop n) := by
  subst ha
  induction n with
  | zero => simp
  | succ n ih =>
    have hnext := storePulse_next (done ++ (List.range n).map f) rest[n] (rest.drop (n+1)) (f n)
    rw [List.length_append, List.length_map, List.length_range] at hnext
    rw [List.range_succ, List.foldlM_append, ih (by omega), List.drop_eq_getElem_cons (by omega)]
    simp only [List.foldlM_cons, List.foldlM_nil, Option.bind_eq_bind, Option.bind_some, hnext]
    simp

/-- The pulses of a colour. -/
def colourPulses (timClk : UInt32) (colour : UInt8) : List UInt8 := (List.range 8).map (pulse timClk colour)

def ledPulses (timClk : UInt32) (led : LedRgb) : List UInt8 :=
  colourPulses timClk led.g ++ colourPulses timClk led.r ++ colourPulses timClk led.b

@[simp] theorem colourPulses_length (colour : UInt8) : (colourPulses timClk colour).length = 8 := by simp [colourPulses]

@[simp] theorem ledPulses_length (led : LedRgb) : (ledPulses timClk led).length = 24 := by simp [ledPulses]

theorem storeColour_eq (timClk : UInt32) (colour : UInt8) (ha : a = done.length) (h : 8 ≤ rest.length) :
    storeColour timClk colour a (done ++ rest) = some (done ++ colourPulses timClk colour ++ rest.drop 8) :=
  storePulses (pulse timClk colour) 8 ha h

theorem storeLed_eq (led : LedRgb) (i : Nat) (hdone : done.length = i*24) (h : 24 ≤ rest.length) :
    storeLed timClk (done ++ rest) (led, i) = some (done ++ ledPulses timClk led ++ rest.drop 24) := by
  have hg := storeColour_eq timClk led.g hdone.symm (show 8 ≤ rest.length by omega)
  have hr := storeColour_eq timClk led.r
    (show i*24+8 = (done ++ colourPulses timClk led.g).length by simp [hdone])
    (show 8 ≤ (rest.drop 8).length by rw [List.length_drop]; omega)
  have hb := storeColour_eq timClk led.b
    (show i*24+16 = (done ++ colourPulses timClk led.g ++ colourPulses timClk led.r).length by simp [hdone])
    (show 8 ≤ ((rest.drop 8).drop 8).length by rw [List.length_drop, List.length_drop]; omega)
  simp only [storeLed, Option.bind_eq_bind, Option.bind_some, hg, hr, hb]
  rw [ledPulses, List.drop_drop, List.drop_drop, ← List.append_assoc, ← List.append_assoc]

/-- The loop over the LEDs, from LED `i` on. -/
theorem storeLeds (i : Nat) (hdone : done.length = i*24) (h : pixels.length*24 ≤ rest.length) :
    (pixels.zipIdx i).foldlM (storeLed timClk) (done ++ rest) =
      some (done ++ pixels.flatMap (ledPulses timClk) ++ rest.drop (pixels.length*24)) := by
  induction pixels generalizing i done rest with
  | nil => simp
  | cons led pixels ih =>
    rw [List.length_cons] at h
    have hdone' : (done ++ ledPulses timClk led).length = (i+1)*24 := by
      rw [List.length_append, hdone, ledPulses_length, Nat.succ_mul]
    have hrest := ih (i+1) hdone' (show pixels.length*24 ≤ (rest.drop 24).length by rw [List.length_drop]; omega)
    rw [List.zipIdx_cons, List.foldlM_cons, storeLed_eq led i hdone (by omega), Option.bind_eq_bind, Option.bind_some, hrest,
      List.drop_drop, List.flatMap_cons, List.append_assoc done, List.length_cons, Nat.succ_mul, Nat.add_comm 24]

theorem flatMap_ledPulses_length : (pixels.flatMap (ledPulses timClk)).length = pixels.length*24 := by
  induction pixels with
  | nil => rfl
  | cons led pixels ih =>
    rw [List.flatMap_cons, List.length_append, ih, ledPulses_length, List.length_cons]
    omega

/-- Every store is in `pixel_bits`, and what was there before is not in the DMA's data. -/
theorem rgbToDmaPixels_eq (timClk : UInt32) (h : numResetPixels+pixels.length*24 ≤ pixelBits.length) :
    rgbToDmaPixels timClk pixels pixelBits = some (pixels.flatMap (ledPulses timClk) ++ List.replicate numResetPixels 0 ++
      pixelBits.drop (numResetPixels+pixels.length*24)) := by
  have hfits : pixels.length*24 ≤ pixelBits.length := by omega
  have hleds : (pixels.zipIdx 0).foldlM (storeLed timClk) pixelBits =
      some (pixels.flatMap (ledPulses timClk) ++ pixelBits.drop (pixels.length*24)) :=
    storeLeds 0 (show ([] : List UInt8).length = 0*24 from rfl) hfits
  have hlength : pixels.length*24 = (pixels.flatMap (ledPulses timClk)).length := flatMap_ledPulses_length.symm
  have hzeros := storePulses (fun _ => 0) numResetPixels hlength
    (show numResetPixels ≤ (pixelBits.drop (pixels.length*24)).length by rw [List.length_drop]; omega)
  rw [rgbToDmaPixels, hleds, Option.bind_eq_bind, Option.bind_some, hzeros, List.map_const', List.length_range,
    List.drop_drop, Nat.add_comm numResetPixels]

/-! The pulses read back. -/

/-- The two pulses are told apart, and from a reset, at these clocks. -/
structure GoodClock (timClk : UInt32) : Prop where
  slow : 3333334 ≤ timClk.toNat
  fast : timClk.toNat ≤ 426666666

theorem GoodClock.cycles (h : GoodClock timClk) {ns : Nat} (hns : ns ≤ 600) :
    (UInt8.ofNat (nsecToCycles timClk ns)).toNat = ns*timClk.toNat/1000000000 := by
  have hfast := h.fast
  have hle : ns*timClk.toNat ≤ 600*426666666 := Nat.mul_le_mul hns hfast
  have hlt : ns*timClk.toNat/1000000000 < UInt8.size := Nat.div_lt_of_lt_mul (by rw [UInt8.size]; omega)
  rw [nsecToCycles, UInt8.toNat_ofNat_of_lt' hlt]

theorem pulseBit_one (h : GoodClock timClk) : pulseBit timClk (oneBit timClk) = some true := by
  have hone : (oneBit timClk).toNat = 600*timClk.toNat/1000000000 := h.cycles (Nat.le_refl _)
  rw [pulseBit, if_pos (by constructor <;> omega)]

theorem pulseBit_zero (h : GoodClock timClk) : pulseBit timClk (zeroBit timClk) = some false := by
  have hzero : (zeroBit timClk).toNat = 300*timClk.toNat/1000000000 := h.cycles (by omega)
  have hslow := h.slow
  rw [pulseBit, if_neg (fun hlasts => by have := hlasts.2; omega), if_pos (by constructor <;> omega)]

theorem pulse_ne_zero (h : GoodClock timClk) (colour : UInt8) (j : Nat) : pulse timClk colour j ≠ 0 := by
  have hone : (oneBit timClk).toNat = 600*timClk.toNat/1000000000 := h.cycles (Nat.le_refl _)
  have hzero : (zeroBit timClk).toNat = 300*timClk.toNat/1000000000 := h.cycles (by omega)
  have hslow := h.slow
  rw [← UInt8.toNat_inj.ne, pulse]
  split
  · rw [hone, UInt8.toNat_zero]
    omega
  · rw [hzero, UInt8.toNat_zero]
    omega

/-- The bits of a colour make it. -/
theorem colour_of_bits (colour : UInt8) :
    ((List.range 8).map fun j => decide (colour &&& (0x80 >>> UInt8.ofNat j) ≠ 0)).foldl
      (fun byte bit => 2*byte + if bit then 1 else 0) 0 = colour := by
  have hall : ∀ n < 256, ((List.range 8).map fun j => decide (UInt8.ofNat n &&& (0x80 >>> UInt8.ofNat j) ≠ 0)).foldl
      (fun byte bit => 2*byte + if bit then 1 else 0) 0 = UInt8.ofNat n := by decide +kernel
  simpa using hall colour.toNat colour.toNat_lt

theorem pulsesByte_colour (h : GoodClock timClk) (colour : UInt8) :
    pulsesByte timClk (colourPulses timClk colour) = some colour := by
  have hbit (j : Nat) : pulseBit timClk (pulse timClk colour j) =
      some (decide (colour &&& (0x80 >>> UInt8.ofNat j) ≠ 0)) := by
    by_cases hj : colour &&& (0x80 >>> UInt8.ofNat j) = 0
    · rw [pulse, if_neg (not_not_intro hj), pulseBit_zero h, decide_eq_false (not_not_intro hj)]
    · rw [pulse, if_pos hj, pulseBit_one h, decide_eq_true hj]
  have hbits : (colourPulses timClk colour).mapM (pulseBit timClk) =
      some ((List.range 8).map fun j => decide (colour &&& (0x80 >>> UInt8.ofNat j) ≠ 0)) := by
    rw [colourPulses, List.mapM_map]
    simp only [Function.comp_def, hbit]
    exact List.mapM_pure
  rw [pulsesByte, hbits, Option.map_some, colour_of_bits]

theorem pulsesColour_led (h : GoodClock timClk) (led : LedRgb) :
    pulsesColour timClk (ledPulses timClk led) = some led.colour := by
  have hg : (ledPulses timClk led).take 8 = colourPulses timClk led.g := rfl
  have hr : ((ledPulses timClk led).drop 8).take 8 = colourPulses timClk led.r := rfl
  have hb : ((ledPulses timClk led).drop 16).take 8 = colourPulses timClk led.b := rfl
  simp only [pulsesColour, hg, hr, hb, pulsesByte_colour h, Option.bind_eq_bind, Option.bind_some]
  rfl

theorem isReset_zeros (rest : List UInt8) : isReset (List.replicate numResetPixels 0 ++ rest) = true := rfl

theorem isReset_led (h : GoodClock timClk) (led : LedRgb) (rest : List UInt8) :
    isReset (ledPulses timClk led ++ rest) = false := by
  have hfirst : ledPulses timClk led ++ rest = pulse timClk led.g 0 :: ((ledPulses timClk led).tail ++ rest) := rfl
  rw [isReset, hfirst, List.take_succ_cons, List.all_cons, beq_false_of_ne (pulse_ne_zero h led.g 0), Bool.false_and,
    Bool.and_false]

/-- The chain takes an update. -/
theorem chainTakes_update (h : GoodClock timClk) {shown : List (UInt8 × UInt8 × UInt8)}
    (hfits : pixels.length ≤ shown.length) :
    chainTakes timClk shown (pixels.flatMap (ledPulses timClk) ++ List.replicate numResetPixels 0) =
      some (pixels.map LedRgb.colour ++ shown.drop pixels.length) := by
  induction pixels generalizing shown with
  | nil =>
    have hreset : isReset (List.replicate numResetPixels 0) = true := rfl
    cases shown with
    | nil => exact if_pos hreset
    | cons colour chain => exact if_pos hreset
  | cons led pixels ih =>
    cases shown with
    | nil => exact absurd hfits (by simp)
    | cons colour chain =>
      rw [List.length_cons, List.length_cons, Nat.add_le_add_iff_right] at hfits
      rw [List.flatMap_cons, List.append_assoc, chainTakes, isReset_led h, if_neg Bool.false_ne_true,
        List.take_left' (ledPulses_length led), List.drop_left' (ledPulses_length led), pulsesColour_led h, ih hfits]
      rfl

/-! Runs of updates. -/

/-- A chain takes the pulses of one update after the other. -/
def chainTakesAll (timClk : UInt32) (shown : List (UInt8 × UInt8 × UInt8)) (frames : List (List UInt8)) :
    Option (List (UInt8 × UInt8 × UInt8)) :=
  frames.foldlM (chainTakes timClk) shown

theorem updateShown_length (shown : List (UInt8 × UInt8 × UInt8)) (pixels : List LedRgb) :
    (updateShown shown pixels).length = shown.length := by
  rw [updateShown]
  split
  · rfl
  · rw [List.length_append, List.length_map, List.length_drop]
    omega

/-- An update is refused, or it leaves no store out of the buffer and the chain takes it. -/
theorem ws2812UpdateRgb_step (pixels : List LedRgb) (h : GoodClock timClk) {shown : List (UInt8 × UInt8 × UInt8)}
    (hbuf : pixelBits.length = numResetPixels+shown.length*24) :
    ∃ pixelBits' : List UInt8, pixelBits'.length = pixelBits.length ∧
      (ws2812UpdateRgb shown.length timClk (some pixelBits) pixels).2 = some pixelBits' ∧
      chainTakesAll timClk shown (ws2812UpdateRgb shown.length timClk (some pixelBits) pixels).1 =
        some (updateShown shown pixels) := by
  rw [ws2812UpdateRgb, updateShown]
  by_cases hmany : shown.length < pixels.length
  · rw [if_pos hmany, if_pos hmany]
    exact ⟨pixelBits, rfl, rfl, rfl⟩
  · have hfits : pixels.length ≤ shown.length := Nat.le_of_not_lt hmany
    have hstores := rgbToDmaPixels_eq timClk (show numResetPixels+pixels.length*24 ≤ pixelBits.length by omega)
    have hsent : (pixels.flatMap (ledPulses timClk) ++ List.replicate numResetPixels 0).length =
        numResetPixels+pixels.length*24 := by
      rw [List.length_append, flatMap_ledPulses_length, List.length_replicate, Nat.add_comm]
    rw [if_neg hmany, if_neg hmany, Option.bind_some, hstores]
    refine ⟨_, ?_, rfl, ?_⟩
    · rw [List.length_append, hsent, List.length_drop]
      omega
    · dsimp only
      rw [List.take_left' hsent, chainTakesAll, List.foldlM_cons, chainTakes_update h hfits]
      rfl

/-- Whatever the strip showed and was in `pixel_bits`, and whatever updates follow, of any number of LEDs: no store of the
driver misses `pixel_bits`, and the strip shows what the updates that fit it say, one on top of the other. -/
theorem ws2812_shows_updates (timClk : UInt32) (hslow : 3333334 ≤ timClk.toNat) (hfast : timClk.toNat ≤ 426666666)
    (shown : List (UInt8 × UInt8 × UInt8)) (pixelBits : List UInt8)
    (hbuf : pixelBits.length = numResetPixels+shown.length*24) (updates : List (List LedRgb)) :
    (run (ws2812UpdateRgb shown.length timClk) (some pixelBits) updates).2.isSome = true ∧
      chainTakesAll timClk shown (events (ws2812UpdateRgb shown.length timClk) (some pixelBits) updates) =
        some (updates.foldl updateShown shown) := by
  have hclock : GoodClock timClk := ⟨hslow, hfast⟩
  induction updates generalizing shown pixelBits with
  | nil => exact ⟨rfl, rfl⟩
  | cons pixels updates ih =>
    obtain ⟨pixelBits', hlength, hpixelBits, htakes⟩ := ws2812UpdateRgb_step pixels hclock hbuf
    have hshown := updateShown_length shown pixels
    have hrest := ih (updateShown shown pixels) pixelBits' (by rw [hlength, hbuf, hshown])
    rw [hshown, ← hpixelBits] at hrest
    refine ⟨hrest.1, ?_⟩
    rw [events_cons, chainTakesAll, List.foldlM_append]
    rw [chainTakesAll] at htakes
    rw [htakes, Option.bind_eq_bind, Option.bind_some]
    exact hrest.2

/-- A green LED, and then three blue ones on a strip of two, at 170 MHz. -/
theorem ws2812_shows_updates_green : chainTakesAll 170000000 [(0, 0, 0), (0, 0, 0)]
    (events (ws2812UpdateRgb 2 170000000) (some (List.replicate 113 7))
      [[⟨0, 0, 9, 0⟩], [⟨0, 0, 0, 1⟩, ⟨0, 0, 0, 2⟩, ⟨0, 0, 0, 3⟩]]) = some [(0, 9, 0), (0, 0, 0)] :=
  (ws2812_shows_updates 170000000 (by decide) (by decide) [(0, 0, 0), (0, 0, 0)] (List.replicate 113 7) rfl
    [[⟨0, 0, 9, 0⟩], [⟨0, 0, 0, 1⟩, ⟨0, 0, 0, 2⟩, ⟨0, 0, 0, 3⟩]]).2

end OrbFirmware.RgbLeds

import OrbFirmware.Machine
import OrbFirmware.RgbLeds.Decoding
import OrbFirmware.Semaphore

/-! `spi_rgb_led.c`: two strips share one transmit buffer behind a semaphore; and what the LEDs of a strip take from the
wire. -/
namespace OrbFirmware.RgbLeds
open Machine Semaphore

/-- The four bytes of a LED: flags and dimming level (`CONFIG_SPI_RGB_LED_DIMMING`), green, blue and red. -/
def spiLed (dimming : Bool) (led : LedRgb) : List UInt8 :=
  [0xE0 ||| (if dimming then led.scratch &&& 0x1F else 0x1F), led.g, led.b, led.r]

/-- The start frame, `count` LEDs of the buffer, and the end frame. -/
def spiTx (spiBufTx : Nat → UInt8) (count : Nat) : List UInt8 :=
  List.replicate 4 0 ++ (List.range (4*count)).map spiBufTx ++ List.replicate (count/8/2+1) 0xFF

/-- The stores of `spi_rgb_led_update_rgb` for LED `i`. -/
def spiWriteLed (dimming : Bool) (led : LedRgb) (i : Nat) (spiBufTx : Nat → UInt8) : Nat → UInt8 :=
  fun a => if a < 4*i then spiBufTx a else ((spiLed dimming led)[a-4*i]?).getD (spiBufTx a)

/-- Where a thread stands in `spi_rgb_led_update_rgb`: not in it; at its take of `spi_sem`; in the loop at LED `i`; in the
transfer, with the bytes sent so far; before its give. -/
inductive SpiPc where
  | idle
  | takes (pixels : List LedRgb)
  | writes (pixels : List LedRgb) (i : Nat)
  | sends (pixels : List LedRgb) (sent : List UInt8)
  | gives

structure SpiStrips (ι : Type*) where
  spiBufTx : Nat → UInt8
  spiSem : Bool
  callers : ι → SpiPc

/-- A thread calls, goes on, or has waited for the semaphore for a second; or its transfer fails. -/
inductive SpiAction (ι : Type*) where
  | call (i : ι) (pixels : List LedRgb)
  | run (i : ι)
  | timeout (i : ι)
  | fail (i : ι)

/-- A transfer is complete. -/
structure SpiSent (ι : Type*) where
  caller : ι
  pixels : List LedRgb
  bytes : List UInt8

variable {ι : Type*} [DecidableEq ι]

def SpiStrips.goes (s : SpiStrips ι) (i : ι) (pc : SpiPc) : SpiStrips ι :=
  { s with callers := Function.update s.callers i pc }

/-- A step, where `spi_buf_tx` has `bufferSize` bytes (`CONFIG_SPI_RGB_LED_BUFFER_SIZE`). -/
def spiStep (dimming : Bool) (bufferSize : Nat) (s : SpiStrips ι) : SpiAction ι → List (SpiSent ι) × SpiStrips ι
  | .call i pixels =>
    match s.callers i with
    -- the assertion lets no update through that does not fit
    | .idle => ([], if 4*pixels.length ≤ bufferSize then s.goes i (.takes pixels) else s)
    | _ => ([], s)
  | .run i =>
    match s.callers i with
    | .idle => ([], s)
    | .takes pixels => ([], if s.spiSem then { s.goes i (.writes pixels 0) with spiSem := false } else s)
    | .writes pixels k =>
      match pixels[k]? with
      | some led => ([], { s.goes i (.writes pixels (k+1)) with spiBufTx := spiWriteLed dimming led k s.spiBufTx })
      | none => ([], s.goes i (.sends pixels []))
    | .sends pixels sent =>
      -- the transfer reads each byte when it sends it
      match (spiTx s.spiBufTx pixels.length)[sent.length]? with
      | some byte => ([], s.goes i (.sends pixels (sent ++ [byte])))
      | none => ([⟨i, pixels, sent⟩], s.goes i .gives)
    | .gives => ([], { s.goes i .idle with spiSem := true })
  | .timeout i =>
    match s.callers i with
    | .takes _ => ([], s.goes i .idle)
    | _ => ([], s)
  | .fail i =>
    match s.callers i with
    | .sends _ _ => ([], s.goes i .gives)
    | _ => ([], s)

def SpiStrips.initial (spiBufTx : Nat → UInt8) : SpiStrips ι := ⟨spiBufTx, true, fun _ => .idle⟩

/-! The specification: the bytes of one strip, and a chain of LEDs that takes them. -/

/-- The bytes of an update. -/
def spiFrame (dimming : Bool) (pixels : List LedRgb) : List UInt8 :=
  List.replicate 4 0 ++ pixels.flatMap (spiLed dimming) ++ List.replicate (pixels.length/8/2+1) 0xFF

/-- Each LED takes the first four bytes that come to it, with the flags in front, and passes on the rest. -/
def chainFrames : Nat → List UInt8 → Option (List LedRgb × List UInt8)
  | 0, bytes => some ([], bytes)
  | n+1, flags :: g :: b :: r :: bytes =>
    if flags &&& 0xE0 = 0xE0 then
      (chainFrames n bytes).map fun (leds, bytes) => (⟨flags &&& 0x1F, r, g, b⟩ :: leds, bytes)
    else none
  | _, _ => none

/-- A chain of `n` LEDs wakes up on 32 zeros, and shows what it has taken once ones have clocked half a bit for each LED. -/
def chainShows (n : Nat) : List UInt8 → Option (List LedRgb)
  | 0 :: 0 :: 0 :: 0 :: bytes =>
    match chainFrames n bytes with
    | some (leds, ones) => if ones.all (· = 0xFF) ∧ n ≤ 2*(8*ones.length) then some leds else none
    | none => none
  | _ => none

/-- A LED as it is lit. -/
def LedRgb.lit (dimming : Bool) (led : LedRgb) : LedRgb :=
  { led with scratch := if dimming then led.scratch &&& 0x1F else 0x1F }

theorem spiFlags (dimming : Bool) (led : LedRgb) :
    (0xE0 ||| (if dimming then led.scratch &&& 0x1F else 0x1F)) &&& 0xE0 = 0xE0 ∧
      (0xE0 ||| (if dimming then led.scratch &&& 0x1F else 0x1F)) &&& 0x1F = (led.lit dimming).scratch := by
  have hall : ∀ n < 256, (0xE0 ||| (UInt8.ofNat n &&& 0x1F)) &&& 0xE0 = 0xE0 ∧
      (0xE0 ||| (UInt8.ofNat n &&& 0x1F)) &&& 0x1F = UInt8.ofNat n &&& 0x1F := by decide +kernel
  cases dimming with
  | false =>
    simp only [Bool.false_eq_true, if_false, LedRgb.lit]
    decide
  | true => simpa [LedRgb.lit] using hall led.scratch.toNat led.scratch.toNat_lt

theorem chainFrames_leds (dimming : Bool) (pixels : List LedRgb) (bytes : List UInt8) :
    chainFrames pixels.length (pixels.flatMap (spiLed dimming) ++ bytes) =
      some (pixels.map (LedRgb.lit dimming), bytes) := by
  induction pixels with
  | nil => rfl
  | cons led pixels ih =>
    obtain ⟨hflags, hdimming⟩ := spiFlags dimming led
    rw [List.flatMap_cons, List.append_assoc, List.length_cons]
    simp only [spiLed, List.cons_append, List.nil_append, chainFrames]
    rw [if_pos hflags, ih, hdimming]
    rfl

/-- The chain shows the LEDs of an update, all of them. -/
theorem chainShows_frame (dimming : Bool) (pixels : List LedRgb) :
    chainShows pixels.length (spiFrame dimming pixels) = some (pixels.map (LedRgb.lit dimming)) := by
  have hend : (List.replicate (pixels.length/8/2+1) (0xFF : UInt8)).all (· = 0xFF) ∧
      pixels.length ≤ 2*(8*(List.replicate (pixels.length/8/2+1) (0xFF : UInt8)).length) := by
    rw [List.length_replicate, List.all_eq_true]
    exact ⟨fun byte hbyte => decide_eq_true (List.eq_of_mem_replicate hbyte), by omega⟩
  rw [spiFrame, List.append_assoc]
  simp only [List.replicate, List.cons_append, List.nil_append, chainShows, chainFrames_leds]
  exact if_pos hend

/-! Runs. -/

/-- The thread is between the take of the semaphore and the give. -/
def SpiPc.holds : SpiPc → Bool
  | .idle | .takes _ => false
  | .writes _ _ | .sends _ _ | .gives => true

/-- The buffer starts with these LEDs. -/
def HoldsLeds (dimming : Bool) (spiBufTx : Nat → UInt8) (leds : List LedRgb) : Prop :=
  (List.range (4*leds.length)).map spiBufTx = leds.flatMap (spiLed dimming)

/-- What is in the buffer while a thread is at work on it. -/
def SpiPc.Knows (dimming : Bool) (bufferSize : Nat) (spiBufTx : Nat → UInt8) : SpiPc → Prop
  | .takes pixels => 4*pixels.length ≤ bufferSize
  | .writes pixels k =>
    4*pixels.length ≤ bufferSize ∧ k ≤ pixels.length ∧ HoldsLeds dimming spiBufTx (pixels.take k)
  | .sends pixels sent => HoldsLeds dimming spiBufTx pixels ∧ sent <+: spiFrame dimming pixels
  | _ => True

/-- `memory` is what was in and behind the buffer at the start. -/
structure SpiInv (dimming : Bool) (bufferSize : Nat) (memory : Nat → UInt8) (s : SpiStrips ι) : Prop where
  exclusive : Exclusive s.spiSem fun i => (s.callers i).holds
  knows : ∀ i, (s.callers i).Knows dimming bufferSize s.spiBufTx
  behind : ∀ a, bufferSize ≤ a → s.spiBufTx a = memory a

/-- A transfer that is complete sent the update of its caller. -/
def SpiSent.Exact (dimming : Bool) (sent : SpiSent ι) : Prop := sent.bytes = spiFrame dimming sent.pixels

variable {dimming : Bool} {bufferSize : Nat} {s : SpiStrips ι} {i j : ι} {pc : SpiPc} {pixels : List LedRgb}
  {spiBufTx memory : Nat → UInt8}

@[simp] theorem SpiStrips.goes_same : (s.goes i pc).callers i = pc := by simp [SpiStrips.goes]

theorem SpiStrips.goes_other (h : j ≠ i) : (s.goes i pc).callers j = s.callers j := by simp [SpiStrips.goes, h]

theorem spiTx_eq (h : HoldsLeds dimming spiBufTx pixels) : spiTx spiBufTx pixels.length = spiFrame dimming pixels := by
  rw [spiTx, spiFrame, h]

/-- One more LED is in the buffer. -/
theorem HoldsLeds.push {leds : List LedRgb} (h : HoldsLeds dimming spiBufTx leds) (led : LedRgb) :
    HoldsLeds dimming (spiWriteLed dimming led leds.length spiBufTx) (leds ++ [led]) := by
  have hbefore : (List.range (4*leds.length)).map (spiWriteLed dimming led leds.length spiBufTx) =
      leds.flatMap (spiLed dimming) := by
    rw [← h]
    refine List.map_congr_left fun a ha => ?_
    rw [spiWriteLed, if_pos (List.mem_range.mp ha)]
  have hled : (List.range 4).map (fun j => spiWriteLed dimming led leds.length spiBufTx (4*leds.length+j)) =
      spiLed dimming led := by
    have hbyte (j : Nat) : spiWriteLed dimming led leds.length spiBufTx (4*leds.length+j) =
        ((spiLed dimming led)[j]?).getD (spiBufTx (4*leds.length+j)) := by
      rw [spiWriteLed, if_neg (by omega), Nat.add_sub_cancel_left]
    simp only [hbyte]
    rfl
  rw [HoldsLeds, List.length_append, List.length_singleton, Nat.mul_add, Nat.mul_one, List.range_add, List.map_append,
    List.map_map, hbefore, List.flatMap_append, List.flatMap_singleton, ← hled]
  rfl

theorem spiWriteLed_behind {led : LedRgb} {k a : Nat} (h : 4*k+4 ≤ a) :
    spiWriteLed dimming led k spiBufTx a = spiBufTx a := by
  have hlen : (spiLed dimming led).length = 4 := rfl
  have hnone : (spiLed dimming led)[a-4*k]? = none := List.getElem?_eq_none (by omega)
  rw [spiWriteLed, if_neg (by omega), hnone, Option.getD_none]

/-- A step that takes, gives or leaves the semaphore to nobody else; the others do not work on the buffer. -/
theorem SpiInv.goes (h : SpiInv dimming bufferSize memory s) {buf : Nat → UInt8} {sem : Bool}
    (hexclusive : Exclusive sem fun j => ((s.goes i pc).callers j).holds) (hknows : pc.Knows dimming bufferSize buf)
    (hbuf : buf = s.spiBufTx ∨ (s.callers i).holds = true ∧ ∀ a, bufferSize ≤ a → buf a = s.spiBufTx a) :
    SpiInv dimming bufferSize memory { s.goes i pc with spiBufTx := buf, spiSem := sem } where
  exclusive := hexclusive
  knows := by
    intro j
    by_cases hj : j = i
    · subst hj
      simpa only [SpiStrips.goes_same] using hknows
    · simp only [SpiStrips.goes_other hj]
      have hj' := h.knows j
      rcases hbuf with rfl | ⟨hi, _⟩
      · exact hj'
      · have hother := h.exclusive.others hi hj
        cases hpc : s.callers j with
        | idle | gives => trivial
        | takes pixels =>
          rw [hpc] at hj'
          exact hj'
        | writes _ _ | sends _ _ =>
          rw [hpc] at hother
          exact Bool.noConfusion hother
  behind := by
    intro a ha
    rcases hbuf with rfl | ⟨_, hbehind⟩
    · exact h.behind a ha
    · exact (hbehind a ha).trans (h.behind a ha)

/-- The semaphore is not touched. -/
theorem SpiInv.moves (h : SpiInv dimming bufferSize memory s) {buf : Nat → UInt8} (hholds : pc.holds = (s.callers i).holds)
    (hknows : pc.Knows dimming bufferSize buf)
    (hbuf : buf = s.spiBufTx ∨ (s.callers i).holds = true ∧ ∀ a, bufferSize ≤ a → buf a = s.spiBufTx a) :
    SpiInv dimming bufferSize memory { s.goes i pc with spiBufTx := buf } := by
  refine h.goes (h.exclusive.move fun j => ?_) hknows hbuf
  by_cases hj : j = i
  · rw [hj, SpiStrips.goes_same, hholds]
  · rw [SpiStrips.goes_other hj]

theorem SpiInv.call (h : SpiInv dimming bufferSize memory s) (i : ι) (pixels : List LedRgb) :
    SpiInv dimming bufferSize memory (spiStep dimming bufferSize s (.call i pixels)).2 := by
  simp only [spiStep]
  cases hi : s.callers i with
  | idle =>
    dsimp only
    split
    case isTrue hfits => exact h.moves (by rw [hi]; rfl) hfits (.inl rfl)
    case isFalse => exact h
  | _ => exact h

theorem SpiInv.run (h : SpiInv dimming bufferSize memory s) (i : ι) :
    SpiInv dimming bufferSize memory (spiStep dimming bufferSize s (.run i)).2 ∧
      ∀ sent ∈ (spiStep dimming bufferSize s (.run i)).1, sent.Exact dimming := by
  have hnone : ∀ sent ∈ ([] : List (SpiSent ι)), sent.Exact dimming := fun sent hsent => absurd hsent List.not_mem_nil
  have hknows := h.knows i
  cases hi : s.callers i with
  | idle =>
    simp only [spiStep, hi]
    exact ⟨h, hnone⟩
  | takes pixels =>
    rw [hi] at hknows
    simp only [spiStep, hi]
    refine ⟨?_, hnone⟩
    by_cases hsem : s.spiSem = true
    · rw [if_pos hsem]
      refine h.goes (h.exclusive.take (i := i) hsem fun j hj => ?_) ⟨hknows, Nat.zero_le _, rfl⟩ (.inl rfl)
      rw [SpiStrips.goes_other hj]
    · rw [if_neg hsem]
      exact h
  | writes pixels k =>
    rw [hi] at hknows
    obtain ⟨hfits, hle, hholds⟩ := hknows
    have hin : (s.callers i).holds = true := by
      rw [hi]
      rfl
    cases hled : pixels[k]? with
    | some led =>
      simp only [spiStep, hi, hled]
      obtain ⟨hk, rfl⟩ := List.getElem?_eq_some_iff.mp hled
      have hpush := hholds.push pixels[k]
      rw [List.length_take, Nat.min_eq_left hle, ← List.take_succ_eq_append_getElem hk] at hpush
      exact ⟨h.moves (by rw [hin]; rfl) ⟨hfits, hk, hpush⟩
        (.inr ⟨hin, fun a ha => spiWriteLed_behind (by omega)⟩), hnone⟩
    | none =>
      simp only [spiStep, hi, hled]
      have hlen : pixels.length ≤ k := List.getElem?_eq_none_iff.mp hled
      rw [List.take_of_length_le hlen] at hholds
      exact ⟨h.moves (by rw [hin]; rfl) ⟨hholds, List.nil_prefix⟩ (.inl rfl), hnone⟩
  | sends pixels sent =>
    rw [hi] at hknows
    obtain ⟨hholds, hsent⟩ := hknows
    have hin : (s.callers i).holds = true := by
      rw [hi]
      rfl
    obtain ⟨rest, hrest⟩ := hsent
    cases hbyte : (spiFrame dimming pixels)[sent.length]? with
    | some byte =>
      simp only [spiStep, hi, spiTx_eq hholds, hbyte]
      refine ⟨h.moves (by rw [hin]; rfl) ⟨hholds, ?_⟩ (.inl rfl), hnone⟩
      rw [← hrest, List.getElem?_append_right (Nat.le_refl _), Nat.sub_self] at hbyte
      obtain ⟨tail, rfl⟩ := List.head?_eq_some_iff.mp (List.head?_eq_getElem? ▸ hbyte)
      exact ⟨tail, by rw [← hrest, List.append_assoc]; rfl⟩
    | none =>
      simp only [spiStep, hi, spiTx_eq hholds, hbyte]
      refine ⟨h.moves (by rw [hin]; rfl) trivial (.inl rfl), fun event hevent => ?_⟩
      rw [List.mem_singleton.mp hevent]
      rw [← hrest, List.getElem?_append_right (Nat.le_refl _), Nat.sub_self] at hbyte
      have hnil : rest = [] := List.head?_eq_none_iff.mp (List.head?_eq_getElem? ▸ hbyte)
      rw [SpiSent.Exact, ← hrest, hnil, List.append_nil]
  | gives =>
    simp only [spiStep, hi]
    refine ⟨h.goes (h.exclusive.give (i := i) ?_ (fun j hj => ?_) ?_) trivial (.inl rfl), hnone⟩
    · rw [hi]
      rfl
    · rw [SpiStrips.goes_other hj]
    · rw [SpiStrips.goes_same]
      rfl

theorem SpiInv.step (h : SpiInv dimming bufferSize memory s) (a : SpiAction ι) :
    SpiInv dimming bufferSize memory (spiStep dimming bufferSize s a).2 ∧
      ∀ sent ∈ (spiStep dimming bufferSize s a).1, sent.Exact dimming := by
  have hnone : ∀ sent ∈ ([] : List (SpiSent ι)), sent.Exact dimming := fun sent hsent => absurd hsent List.not_mem_nil
  cases a with
  | call i pixels =>
    refine ⟨h.call i pixels, ?_⟩
    simp only [spiStep]
    split <;> exact hnone
  | run i => exact h.run i
  | timeout i =>
    simp only [spiStep]
    cases hi : s.callers i with
    | takes pixels => exact ⟨h.moves (by rw [hi]; rfl) trivial (.inl rfl), hnone⟩
    | _ => exact ⟨h, hnone⟩
  | fail i =>
    simp only [spiStep]
    cases hi : s.callers i with
    | sends pixels sent => exact ⟨h.moves (by rw [hi]; rfl) trivial (.inl rfl), hnone⟩
    | _ => exact ⟨h, hnone⟩

/-- Whatever the order in which threads update their strips through the one buffer, with transfers that fail and waits
that time out: nothing behind the buffer is written; each transfer that completes sends the update of its own caller, and
a chain of as many LEDs shows just those LEDs. -/
theorem spi_strips_show_own_leds (dimming : Bool) (bufferSize : Nat) (spiBufTx : Nat → UInt8)
    (actions : List (SpiAction ι)) :
    (∀ a, bufferSize ≤ a →
      (run (spiStep dimming bufferSize) (.initial spiBufTx) actions).2.spiBufTx a = spiBufTx a) ∧
    ∀ sent ∈ events (spiStep dimming bufferSize) (.initial spiBufTx) actions,
      sent.bytes = spiFrame dimming sent.pixels ∧
        chainShows sent.pixels.length sent.bytes = some (sent.pixels.map (LedRgb.lit dimming)) := by
  have hstart : SpiInv dimming bufferSize spiBufTx (SpiStrips.initial spiBufTx : SpiStrips ι) :=
    ⟨.initial true, fun _ => trivial, fun _ _ => rfl⟩
  have hrun := events_invariant_of_inputs (P := fun _ => True) (C := fun _ => True)
    (I := fun (tr : List (SpiSent ι)) s => SpiInv dimming bufferSize spiBufTx s ∧ ∀ sent ∈ tr, sent.Exact dimming)
    (fun _ _ _ => trivial)
    (fun tr s a h _ _ => by
      obtain ⟨hinv, hsent⟩ := h.1.step a
      exact ⟨hinv, List.forall_mem_append.mpr ⟨h.2, hsent⟩⟩)
    [] _ actions ⟨hstart, fun sent hsent => absurd hsent List.not_mem_nil⟩ (fun _ _ => trivial) trivial
  refine ⟨hrun.1.behind, fun sent hsent => ?_⟩
  have hexact : sent.bytes = spiFrame dimming sent.pixels := hrun.2 sent hsent
  exact ⟨hexact, by rw [hexact, chainShows_frame]⟩

end OrbFirmware.RgbLeds

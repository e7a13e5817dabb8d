import OrbFirmware.IrCamera.TimerSettings

/-! The limits of the timer settings: on-time, duty cycle and the registers of the master timer, over any
sequence of settings calls. -/
namespace OrbFirmware.IrCamera
open Calc
variable {b : Board} {s : TimerSettings} {fps onTimeUs : UInt16}

/-! What the registers are without any rounding to 16 bits. -/

def exactPsc (fps : Nat) : Nat := timerClockFreqHz/(2^timerCounterWidthBits*fps)

def exactArr (fps : Nat) : Nat := timerClockFreqHz/((exactPsc fps+1)*fps)

/-- From the falling edge of the strobe to the next pulse. -/
def exactDelayTicks (fps onTime : Nat) : Nat :=
  timerClockFreqHz/(exactPsc fps+1)*((1000000/fps-onTime-nextStrobeEndMarginUs)/100)/10000

def exactInitialCounter (fps onTime : Nat) : Nat :=
  if exactDelayTicks fps onTime < exactArr fps then exactArr fps-exactDelayTicks fps onTime
  else exactArr fps-1

theorem exactRegisters_fit : ∀ fps < 61, 0 < fps →
    exactPsc fps < 2^16 ∧ 0 < exactArr fps ∧ exactArr fps < 2^16 ∧
    timerClockFreqHz/(exactPsc fps+1)*(1000000/fps/100) < 2^32 ∧
    timerClockFreqHz/(exactPsc fps+1)*75 < 2^32 ∧ 1000000/fps < 2^32 ∧
    250000/fps+50 ≤ 1000000/fps := by
  decide +kernel

theorem exactInitialCounter_le (fps onTime : Nat) : exactInitialCounter fps onTime ≤ exactArr fps := by
  rw [exactInitialCounter]
  split <;> omega

/-- With a valid frame rate, a valid on-time and the registers of that frame rate, nothing overflows. -/
theorem computeMasterTimerDurations_exact (hfps : s.fps ≠ 0) (hmax : s.fps.toNat ≤ 60)
    (hduty : s.onTimeInUs.toNat*s.fps.toNat ≤ 250000) (hpsc : s.masterPsc.toNat = exactPsc s.fps.toNat)
    (harr : s.masterArr.toNat = exactArr s.fps.toNat) :
    computeMasterTimerDurations s = pure { s with
      masterInitialCounter := .ofNat (exactInitialCounter s.fps.toNat s.onTimeInUs.toNat)
      masterMaxIrLedsTick := .ofNat (timerClockFreqHz/(exactPsc s.fps.toNat+1)*75/10000) } := by
  have hf : s.fps.toNat ≠ 0 := fun h => hfps (UInt16.toNat_inj.mp h)
  obtain ⟨h1, h2, h3, h4, h5, h6, h7⟩ := exactRegisters_fit s.fps.toNat (by omega) (Nat.pos_of_ne_zero hf)
  have hon : s.onTimeInUs.toNat ≤ 250000/s.fps.toNat := (Nat.le_div_iff_mul_le (by omega)).mpr hduty
  have hdelay : (1000000/s.fps.toNat-s.onTimeInUs.toNat-50)/100 ≤ 1000000/s.fps.toNat/100 :=
    Nat.div_le_div_right (by omega)
  have hticks := Nat.mul_le_mul_left (timerClockFreqHz/(exactPsc s.fps.toNat+1)) hdelay
  have hsub : 1000000/s.fps.toNat-s.onTimeInUs.toNat < CType.uint32.size := by
    simp only [CType.size]
    omega
  have hpsc1 : exactPsc s.fps.toNat+1 < CType.int.limit := by
    simp only [CType.limit]
    omega
  have hmul : timerClockFreqHz/(exactPsc s.fps.toNat+1)*
      ((1000000/s.fps.toNat-s.onTimeInUs.toNat-nextStrobeEndMarginUs)/100) < CType.uint32.limit := by
    simp only [CType.limit, nextStrobeEndMarginUs]
    omega
  have hcounter : initialCounter (exactArr s.fps.toNat) (exactDelayTicks s.fps.toNat s.onTimeInUs.toNat) =
      pure (exactInitialCounter s.fps.toNat s.onTimeInUs.toNat) := by
    have hsize : exactArr s.fps.toNat < 2^32 := by omega
    rw [initialCounter, exactInitialCounter]
    split
    · exact sub_exact (by omega) hsize
    · exact sub_exact h2 hsize
  have hfit := exactInitialCounter_le s.fps.toNat s.onTimeInUs.toNat
  rw [computeMasterTimerDurations, if_neg hfps, hpsc, harr, div_exact hf, pure_bind,
    sub_exact (by omega) h6, pure_bind, sub_exact (by simp only [nextStrobeEndMarginUs]; omega) hsub, pure_bind,
    add_exact hpsc1, pure_bind, div_exact (Nat.succ_ne_zero _), pure_bind, div_exact (by decide), pure_bind,
    mul_exact hmul, pure_bind, div_exact (by decide), pure_bind]
  have hticksEq : timerClockFreqHz/(exactPsc s.fps.toNat+1)*
      ((1000000/s.fps.toNat-s.onTimeInUs.toNat-nextStrobeEndMarginUs)/100)/10000 =
      exactDelayTicks s.fps.toNat s.onTimeInUs.toNat := rfl
  rw [hticksEq, hcounter, pure_bind, conv_exact (by simp only [CType.limit]; omega), pure_bind, pure_bind,
    div_exact (Nat.succ_ne_zero _), pure_bind, mul_exact h5, pure_bind, div_exact (by decide), pure_bind]
  rfl

/-! The comparisons in doubles. -/

theorem onTimeLimit_fits : ∀ b : Board, ∀ fps < 61, 0 < fps →
    Binary64.PositiveNormal (onTimeLimit b (.ofNat fps)) ∧
    (onTimeLimit b (.ofNat fps)).toUInt32.toNat*fps ≤ maxIrLedDutyPpm b ∧
    (maxOnTimeUsForFps b (.ofNat fps)).toNat*fps ≤ maxIrLedDutyPpm b := by
  intro b
  cases b <;> decide +kernel

theorem duty_of_onTimeLimit (hfps : fps ≠ 0) (hmax : fps.toNat ≤ 60) (h : ¬onTimeLimit b fps < onTimeUs.toFloat) :
    onTimeUs.toNat*fps.toNat ≤ maxIrLedDutyPpm b := by
  have hf : fps.toNat ≠ 0 := fun h => hfps (UInt16.toNat_inj.mp h)
  obtain ⟨hnormal, hfit, -⟩ := onTimeLimit_fits b fps.toNat (by omega) (by omega)
  rw [UInt16.ofNat_toNat] at hnormal hfit
  have hle := Binary64.le_toUInt32_of_not_lt hnormal h
  exact (Nat.mul_le_mul_right _ hle).trans hfit

theorem duty_of_maxOnTime (hfps : fps ≠ 0) (hmax : fps.toNat ≤ 60) (h : ¬maxOnTimeUsForFps b fps < onTimeUs) :
    onTimeUs.toNat*fps.toNat ≤ maxIrLedDutyPpm b := by
  have hf : fps.toNat ≠ 0 := fun h => hfps (UInt16.toNat_inj.mp h)
  obtain ⟨-, -, hfit⟩ := onTimeLimit_fits b fps.toNat (by omega) (by omega)
  rw [UInt16.ofNat_toNat] at hfit
  have hle : onTimeUs.toNat ≤ (maxOnTimeUsForFps b fps).toNat := UInt16.not_lt.mp h
  exact (Nat.mul_le_mul_right _ hle).trans hfit

/-- The settings keep the limits, and prescaler and auto-reload are those of the frame rate. -/
structure MasterInv (b : Board) (s : TimerSettings) : Prop where
  fps : s.fps.toNat ≤ 60
  onTime : s.onTimeInUs.toNat ≤ (maxIrLedOnTimeUs b).toNat
  duty : s.fps ≠ 0 → s.onTimeInUs.toNat*s.fps.toNat ≤ maxIrLedDutyPpm b
  psc : s.fps ≠ 0 → s.masterPsc.toNat = exactPsc s.fps.toNat
  arr : s.fps ≠ 0 → s.masterArr.toNat = exactArr s.fps.toNat

/-- On Diamond the counter is the one of the on-time, too. -/
structure TimerInv (b : Board) (s : TimerSettings) : Prop extends MasterInv b s where
  counter : b = .diamond → s.fps ≠ 0 →
    s.masterInitialCounter.toNat = exactInitialCounter s.fps.toNat s.onTimeInUs.toNat
  maxTicks : b = .diamond → s.fps ≠ 0 →
    s.masterMaxIrLedsTick.toNat = timerClockFreqHz/(exactPsc s.fps.toNat+1)*75/10000

theorem MasterInv.pearl (h : MasterInv .pearl s) : TimerInv .pearl s where
  toMasterInv := h
  counter hb := by cases hb
  maxTicks hb := by cases hb

theorem MasterInv.idle (h : MasterInv b s) (hfps : s.fps = 0) : TimerInv b s where
  toMasterInv := h
  counter _ hne := absurd hfps hne
  maxTicks _ hne := absurd hfps hne

theorem MasterInv.diamond (h : MasterInv .diamond s) (hfps : s.fps ≠ 0) :
    ∃ s', computeMasterTimerDurations s = pure s' ∧ TimerInv .diamond s' := by
  have hf : s.fps.toNat ≠ 0 := fun hz => hfps (UInt16.toNat_inj.mp hz)
  have hmax := h.fps
  obtain ⟨-, -, harr, -, hticks, -, -⟩ := exactRegisters_fit s.fps.toNat (by omega) (by omega)
  have hle := exactInitialCounter_le s.fps.toNat s.onTimeInUs.toNat
  refine ⟨_, computeMasterTimerDurations_exact hfps h.fps (h.duty hfps) (h.psc hfps) (h.arr hfps),
    ⟨h.fps, h.onTime, h.duty, h.psc, h.arr⟩, fun _ _ => ?_, fun _ _ => ?_⟩
  · exact UInt16.toNat_ofNat_of_lt' (by simp only [UInt16.size]; omega)
  · exact UInt32.toNat_ofNat_of_lt' (by simp only [UInt32.size]; omega)

theorem timerInv_zero (b : Board) : TimerInv b {} := by
  have hm : MasterInv b {} := by
    refine ⟨by decide, ?_, fun h => absurd rfl h, fun h => absurd rfl h, fun h => absurd rfl h⟩
    cases b <;> decide
  exact hm.idle rfl

/-! One call. -/

theorem TimerInv.fromOnTimeUs (h : TimerInv b s) (onTimeUs : UInt16) :
    ∃ ret s', timerSettingsFromOnTimeUs b onTimeUs s s = pure (ret, s') ∧ (ret ≠ .success → s' = s) ∧
      TimerInv b s' := by
  rw [timerSettingsFromOnTimeUs]
  split_ifs with hlong hduty
  · exact ⟨_, _, rfl, fun _ => rfl, h⟩
  · exact ⟨_, _, rfl, fun _ => rfl, h⟩
  · have hm : MasterInv b { s with onTimeInUs := onTimeUs } := by
      refine ⟨h.fps, UInt16.not_lt.mp hlong, fun hfps => ?_, h.psc, h.arr⟩
      exact duty_of_onTimeLimit hfps h.fps fun hlt => hduty ⟨hfps, hlt⟩
    cases b with
    | pearl => exact ⟨_, _, rfl, fun hne => absurd rfl hne, hm.pearl⟩
    | diamond =>
      by_cases hfps : s.fps = 0
      · exact ⟨_, _, if_neg (not_not.mpr hfps), fun hne => absurd rfl hne, hm.idle hfps⟩
      · obtain ⟨s', hs, hinv⟩ := hm.diamond hfps
        refine ⟨_, s', (if_pos hfps).trans ?_, fun hne => absurd rfl hne, hinv⟩
        rw [hs, pure_bind]

theorem TimerInv.fromFps (h : TimerInv b s) (fps : UInt16) :
    ∃ ret s', timerSettingsFromFps b fps s s = pure (ret, s') ∧ (ret ≠ .success → s' = s) ∧
      TimerInv b s' := by
  by_cases hzero : fps = 0
  · have hm : MasterInv b { s with fps := 0, masterPsc := 0, masterArr := 0 } :=
      ⟨Nat.zero_le _, h.onTime, fun hne => absurd rfl hne, fun hne => absurd rfl hne, fun hne => absurd rfl hne⟩
    exact ⟨_, _, if_pos hzero, fun hne => absurd rfl hne, hm.idle rfl⟩
  · by_cases hmax : maxFps < fps
    · exact ⟨_, _, (if_neg hzero).trans (if_pos hmax), fun _ => rfl, h⟩
    · have hf : fps.toNat ≠ 0 := fun hz => hzero (UInt16.toNat_inj.mp hz)
      have hle : fps.toNat ≤ 60 := UInt16.not_lt.mp hmax
      obtain ⟨hpsc, -, harr, -⟩ := exactRegisters_fit fps.toNat (by omega) (by omega)
      have hsmall : 2^timerCounterWidthBits*fps.toNat < CType.int.limit := by
        simp only [CType.limit, timerCounterWidthBits]
        omega
      have hprod : (exactPsc fps.toNat+1)*fps.toNat ≤ 2^16*60 := Nat.mul_le_mul hpsc hle
      have hpscEq : timerClockFreqHz/(2^timerCounterWidthBits*fps.toNat) = exactPsc fps.toNat := rfl
      have harrEq : timerClockFreqHz/((exactPsc fps.toNat+1)*fps.toNat) = exactArr fps.toNat := rfl
      rw [timerSettingsFromFps, if_neg hzero, if_neg hmax, mul_exact hsmall, pure_bind,
        div_exact (Nat.mul_ne_zero (by decide) hf), pure_bind, hpscEq, conv_exact hpsc, pure_bind,
        add_exact (by simp only [CType.limit]; omega), pure_bind,
        mul_exact (by simp only [CType.limit]; omega), pure_bind,
        div_exact (Nat.mul_ne_zero (Nat.succ_ne_zero _) hf), pure_bind, harrEq, conv_exact harr, pure_bind]
      by_cases hreject : s.onTimeInUs ≠ 0 ∧ maxOnTimeUsForFps b fps < s.onTimeInUs
      · exact ⟨_, _, if_pos hreject, fun _ => rfl, h⟩
      · have hm : MasterInv b { s with
            fps := fps, masterPsc := .ofNat (exactPsc fps.toNat), masterArr := .ofNat (exactArr fps.toNat) } := by
          refine ⟨hle, h.onTime, fun _ => ?_, fun _ => UInt16.toNat_ofNat_of_lt' hpsc,
            fun _ => UInt16.toNat_ofNat_of_lt' harr⟩
          by_cases hon : s.onTimeInUs = 0
          · simp [hon]
          · exact duty_of_maxOnTime hzero hle fun hlt => hreject ⟨hon, hlt⟩
        rw [if_neg hreject]
        cases b with
        | pearl => exact ⟨_, _, rfl, fun hne => absurd rfl hne, hm.pearl⟩
        | diamond =>
          obtain ⟨s', hs, hinv⟩ := hm.diamond hzero
          refine ⟨_, s', ?_, fun hne => absurd rfl hne, hinv⟩
          simp only [hs, pure_bind]

theorem timerStep_inv (h : TimerInv b s) (call : TimerCall) :
    (timerStep b s call).1.2 = true ∧ ((timerStep b s call).1.1 ≠ .success → (timerStep b s call).2 = s) ∧
      TimerInv b (timerStep b s call).2 := by
  cases call with
  | fromFps fps =>
    obtain ⟨ret, s', hcalc, herr, hinv⟩ := h.fromFps fps
    simp only [timerStep, hcalc]
    exact ⟨rfl, herr, hinv⟩
  | fromOnTimeUs onTimeUs =>
    obtain ⟨ret, s', hcalc, herr, hinv⟩ := h.fromOnTimeUs onTimeUs
    simp only [timerStep, hcalc]
    exact ⟨rfl, herr, hinv⟩

/-- After any calls from zero settings the limits hold and the registers have their exact values, so
these fit in 16 bits; and the next call is exact, too, and on an error leaves the settings alone. -/
theorem timer_settings_within_limits (b : Board) (calls : List TimerCall) (call : TimerCall) :
    let s := (Machine.run (timerStep b) {} calls).2
    let r := timerStep b s call
    s.onTimeInUs.toNat ≤ (maxIrLedOnTimeUs b).toNat ∧
    (0 < s.fps.toNat →
      s.onTimeInUs.toNat*s.fps.toNat ≤ maxIrLedDutyPpm b ∧
      s.masterPsc.toNat = exactPsc s.fps.toNat ∧
      s.masterArr.toNat = exactArr s.fps.toNat ∧ 0 < s.masterArr.toNat ∧
      (b = .diamond → s.masterInitialCounter.toNat = exactInitialCounter s.fps.toNat s.onTimeInUs.toNat ∧
        s.masterInitialCounter.toNat ≤ s.masterArr.toNat)) ∧
    r.1.2 = true ∧ (r.1.1 ≠ .success → r.2 = s) := by
  intro s r
  have hinv : TimerInv b s := by
    have hstep : ∀ s call, TimerInv b s → TimerInv b (timerStep b s call).2 :=
      fun _ call h => (timerStep_inv h call).2.2
    exact Machine.run_invariant hstep _ _ (timerInv_zero b)
  obtain ⟨hexact, herr, -⟩ := timerStep_inv hinv call
  refine ⟨hinv.onTime, fun hpos => ?_, hexact, herr⟩
  have hfps : s.fps ≠ 0 := by
    intro hz
    rw [hz] at hpos
    exact absurd hpos (by decide)
  have harr := hinv.arr hfps
  have hmax := hinv.fps
  obtain ⟨-, hpos', -⟩ := exactRegisters_fit s.fps.toNat (by omega) hpos
  refine ⟨hinv.duty hfps, hinv.psc hfps, harr, by omega, fun hb => ?_⟩
  have hcounter := hinv.counter hb hfps
  have hle := exactInitialCounter_le s.fps.toNat s.onTimeInUs.toNat
  exact ⟨hcounter, by omega⟩

end OrbFirmware.IrCamera

import OrbFirmware.IrCamera.TimerLimits
import OrbFirmware.IrCamera.System

/-! The pulses of the IR LEDs against the limits on their length and duty cycle. The calls keep both; a rising
edge of the strobe keeps the length only. -/
namespace OrbFirmware.IrCamera
variable {b : Board} {maxFocus : Nat} {s : IrCameraState} {value startDelay : UInt32}

/-- A pulse of so many microseconds at this frame rate; without frames there is no period to exceed. -/
def PulseSafe (b : Board) (pulseUs fps : Nat) : Prop :=
  pulseUs ≤ (maxIrLedOnTimeUs b).toNat ∧ pulseUs*fps ≤ maxIrLedDutyPpm b

def IrEvent.Safe (b : Board) : IrEvent → Prop
  | .ledAutoReload _ value startDelay fps => PulseSafe b (value-startDelay).toNat fps.toNat
  | .masterUpdate | .pulseFinished => True

instance instDecidableSafe : (e : IrEvent) → Decidable (e.Safe b)
  | .ledAutoReload _ _ _ _ => inferInstanceAs (Decidable (_ ∧ _))
  | .masterUpdate | .pulseFinished => isTrue trivial

/-- What a call does: safe pulses only, and settings that stay within their limits. -/
structure Sound (b : Board) (r : List IrEvent × IrCameraState) : Prop where
  pulses : ∀ e ∈ r.1, e.Safe b
  settings : TimerInv b r.2.settings

theorem Sound.quiet (h : TimerInv b s.settings) : Sound b ([], s) := ⟨List.forall_mem_nil _, h⟩

theorem Sound.of_sameLeds {t : IrCameraState} (ht : SameLeds s t) (h : TimerInv b s.settings) : Sound b ([], t) :=
  .quiet (ht.settings ▸ h)

theorem Sound.append {events events' : List IrEvent} {t : IrCameraState} (h : Sound b (events, s))
    (h' : Sound b (events', t)) : Sound b (events ++ events', t) :=
  ⟨List.forall_mem_append.mpr ⟨h.pulses, h'.pulses⟩, h'.settings⟩

theorem safe_of_ite {p : Prop} [Decidable p] {e : IrEvent} (he : e.Safe b) :
    ∀ e' ∈ (if p then [e] else []), e'.Safe b := by
  split
  · exact List.forall_mem_singleton.mpr he
  · exact List.forall_mem_nil _

theorem TimerInv.pulseSafe {ts : TimerSettings} (h : TimerInv b ts) : PulseSafe b ts.onTimeInUs.toNat ts.fps.toNat := by
  refine ⟨h.onTime, ?_⟩
  by_cases hfps : ts.fps = 0
  · rw [hfps]
    exact Nat.zero_le _
  · exact h.duty hfps

/-- The override of the proximity sensor keeps the limits; it only exists on Pearl. -/
theorem TimerInv.dark {ts : TimerSettings} (h : TimerInv .pearl ts) : TimerInv .pearl { ts with onTimeInUs := 0 } := by
  have hm : MasterInv .pearl { ts with onTimeInUs := 0 } := by
    refine ⟨h.fps, Nat.zero_le _, fun _ => ?_, h.psc, h.arr⟩
    exact (Nat.zero_mul _).trans_le (Nat.zero_le _)
  exact hm.pearl

/-! The functions that reach the LED timers. -/

@[simp] theorem cameraEnableTrigger_settings (enabled : Bool) (camera : Camera) :
    (cameraEnableTrigger b enabled camera s).settings = s.settings := rfl

theorem setLedAutoReload_sound (h : TimerInv b s.settings)
    (hp : PulseSafe b (value-startDelay).toNat s.settings.fps.toNat) : Sound b (setLedAutoReload value startDelay s) := by
  refine ⟨fun e he => ?_, h⟩
  simp only [setLedAutoReload, List.mem_cons, List.not_mem_nil, or_false] at he
  rcases he with rfl | rfl
  · exact hp
  · exact hp

theorem irLedsSetPulseLength_sound (h : TimerInv b s.settings) : Sound b (irLedsSetPulseLength b s).2 := by
  have hsafe : TimerInv b
      (if distanceIsSafe b s then s else { s with settings := { s.settings with onTimeInUs := 0 } }).settings := by
    cases b with
    | pearl =>
      split
      · exact h
      · exact h.dark
    | diamond => exact h
  rw [irLedsSetPulseLength]
  dsimp only
  generalize (if distanceIsSafe b s then s else { s with settings := { s.settings with onTimeInUs := 0 } }) = t at hsafe
  have hlength : Sound b (if t.settings.onTimeInUs ≠ 0 then
      setLedAutoReload (t.settings.onTimeInUs.toUInt32+startDelayUs b) (startDelayUs b) (irLedsDisableAll b t)
      else ([], irLedsDisableAll b t)) := by
    split
    · refine setLedAutoReload_sound (s := irLedsDisableAll b t) hsafe ?_
      rw [UInt32.add_sub_cancel]
      exact hsafe.pulseSafe
    · exact .quiet hsafe
  have hframe : (irLedsDisableAll b t).settings = t.settings := rfl
  rw [hframe]
  generalize (if t.settings.onTimeInUs ≠ 0 then
      setLedAutoReload (t.settings.onTimeInUs.toUInt32+startDelayUs b) (startDelayUs b) (irLedsDisableAll b t)
      else ([], irLedsDisableAll b t)) = r at hlength
  split
  · exact ⟨hlength.pulses, hlength.settings⟩
  · exact ⟨hlength.pulses, hlength.settings⟩

theorem irLedsEnablePulse_sound (h : TimerInv b s.settings) : Sound b (irLedsEnablePulse b s) := by
  rw [irLedsEnablePulse]
  split
  · exact ⟨safe_of_ite trivial, h⟩
  · exact ⟨safe_of_ite trivial, h⟩

theorem applyTimers_sound (h : TimerInv b s.settings) : Sound b (applyTimers b s).2 := by
  cases b with
  | pearl => exact irLedsSetPulseLength_sound h
  | diamond =>
    apply irLedsSetPulseLength_sound
    dsimp only
    rw [cameraEnableTrigger_settings]
    split
    · exact h
    · exact h

theorem applyPulse_sound (h : TimerInv b s.settings) : Sound b (applyPulse b s) := by
  rw [applyPulse]
  dsimp only
  have hpulse : Sound b (if decide (b = .pearl) || !s.cameraEnabled .irFace then irLedsEnablePulse b s else ([], s)) := by
    split
    · exact irLedsEnablePulse_sound h
    · exact .quiet h
  exact ⟨List.forall_mem_append.mpr ⟨hpulse.pulses, safe_of_ite trivial⟩, hpulse.settings⟩

theorem applyNewTimerSettings_sound (h : TimerInv b s.settings) : Sound b (applyNewTimerSettings b s) := by
  have ht := applyTimers_sound h
  exact ht.append (applyPulse_sound ht.settings)

theorem irCameraSystemEnableLedsHw_sound (h : TimerInv b s.settings) : Sound b (irCameraSystemEnableLedsHw b s) := by
  have hp := irLedsSetPulseLength_sound h
  exact hp.append (irLedsEnablePulse_sound hp.settings)

theorem irCameraSystemSetFpsHw_sound (h : TimerInv b s.settings) (fps : UInt16) :
    Sound b (irCameraSystemSetFpsHw b fps s).2 := by
  obtain ⟨ret, ts, hcalc, -, hinv⟩ := h.fromFps fps
  simp only [irCameraSystemSetFpsHw, hcalc, pure]
  split
  · exact .quiet h
  · exact applyNewTimerSettings_sound hinv

theorem irCameraSystemSetOnTimeUsHw_sound (h : TimerInv b s.settings) (onTimeUs : UInt16) :
    Sound b (irCameraSystemSetOnTimeUsHw b onTimeUs s).2 := by
  obtain ⟨ret, ts, hcalc, -, hinv⟩ := h.fromOnTimeUs onTimeUs
  simp only [irCameraSystemSetOnTimeUsHw, hcalc, pure]
  split
  · exact .quiet h
  · split
    · exact .quiet hinv
    · exact applyNewTimerSettings_sound hinv

/-! The calls. -/

theorem irCameraSystemEnableLeds_sound (h : TimerInv b s.settings) (safetyTriggered : Bool) (wavelength : Wavelength) :
    Sound b (irCameraSystemEnableLeds b safetyTriggered wavelength s).2 := by
  simp only [irCameraSystemEnableLeds]
  generalize (if wavelength = .none then RetCode.success else irCameraSystemGetStatus safetyTriggered s) = ret
  split_ifs
  · exact .quiet h
  · exact .quiet h
  · exact .quiet h
  · exact irCameraSystemEnableLedsHw_sound h

theorem irCameraSystemSetFps_sound (h : TimerInv b s.settings) (safetyTriggered : Bool) (fps : UInt16) :
    Sound b (irCameraSystemSetFps b safetyTriggered fps s).2 := by
  simp only [irCameraSystemSetFps]
  generalize (if fps = 0 then RetCode.success else irCameraSystemGetStatus safetyTriggered s) = ret
  split_ifs
  · exact .quiet h
  · exact .quiet h
  · exact irCameraSystemSetFpsHw_sound h fps

theorem irCameraSystemSetOnTimeUs_sound (h : TimerInv b s.settings) (safetyTriggered : Bool) (onTimeUs : UInt16) :
    Sound b (irCameraSystemSetOnTimeUs b safetyTriggered onTimeUs s).2 := by
  simp only [irCameraSystemSetOnTimeUs]
  generalize (if onTimeUs = 0 then RetCode.success else irCameraSystemGetStatus safetyTriggered s) = ret
  split_ifs
  · exact .quiet h
  · exact .quiet h
  · exact irCameraSystemSetOnTimeUsHw_sound h onTimeUs

theorem irCameraSystemTimeoutDisable_sound (h : TimerInv b s.settings) : Sound b (irCameraSystemTimeoutDisable b s) := by
  have hleds := irCameraSystemEnableLeds_sound h false .none
  refine ⟨hleds.pulses, ?_⟩
  simp only [irCameraSystemTimeoutDisable, (setCamera_sameLeds _ _).settings]
  exact hleds.settings

theorem irCall_sound (h : TimerInv b s.settings) (safetyTriggered : Bool) (c : IrCall) :
    Sound b (irCall b maxFocus safetyTriggered s c).2 := by
  cases c with
  | setCamera enabled camera => exact .of_sameLeds (setCamera_sameLeds enabled camera) h
  | setRgbFaceCamera enabled => exact .of_sameLeds (setRgbFaceCamera_sameLeds enabled) h
  | enableLeds wavelength => exact irCameraSystemEnableLeds_sound h safetyTriggered wavelength
  | setFps fps => exact irCameraSystemSetFps_sound h safetyTriggered fps
  | setOnTimeUs onTimeUs => exact irCameraSystemSetOnTimeUs_sound h safetyTriggered onTimeUs
  | setFocusValues n => exact .of_sameLeds (setFocusValues_sameLeds n) h
  | setFocusPolynomial frames => exact .of_sameLeds (setFocusPolynomial_sameLeds frames) h
  | performFocusSweep => exact .of_sameLeds (performFocusSweep_sameLeds safetyTriggered) h
  | setMirrorPolynomial frames => exact .of_sameLeds (setMirrorPolynomial_sameLeds frames) h
  | performMirrorSweep => exact .of_sameLeds (performMirrorSweep_sameLeds safetyTriggered) h

/-! The strobe. -/

theorem strobe_falling (h : TimerInv .diamond s.settings) (counter : UInt32) :
    Sound .diamond (rgbIrStrobeIsr false counter s) := by
  simp only [rgbIrStrobeIsr, if_true]
  obtain ⟨s', hs', hmaster⟩ : ∃ s', (if 0 < s.settings.fps then
        { s with
          masterPsc := s.settings.masterPsc.toUInt32
          masterArr := s.settings.masterArr.toUInt32
          masterCnt := s.settings.masterInitialCounter.toUInt32 }
      else { s with masterEnabled := false }) = s' ∧ TimerInv .diamond s'.settings := by
    refine ⟨_, rfl, ?_⟩
    split
    · exact h
    · exact h
  rw [hs']
  have hlength := irLedsSetPulseLength_sound hmaster
  refine hlength.append (irLedsEnablePulse_sound ?_)
  simp only [cameraEnableTrigger_settings]
  exact hlength.settings

/-- The microseconds left until the scheduled pulse, without rounding to 32 bits. -/
def exactRemainingUs (settings : TimerSettings) (counter : UInt32) : Nat :=
  (remainingTicks settings counter).toNat*(settings.masterPsc.toNat+1)/timerClockFreqMhz

/-- From 34 frames per second on the prescaler is small enough for 32 bits. -/
theorem exactPsc_lt : ∀ fps < 61, 34 ≤ fps → exactPsc fps < 79 := by decide +kernel

theorem remainingUs_exact (h : TimerInv .diamond s.settings) (hfps : 34 ≤ s.settings.fps.toNat) (counter : UInt32) :
    (remainingUs s.settings counter+s.settings.onTimeInUs.toUInt32).toNat =
      exactRemainingUs s.settings counter+s.settings.onTimeInUs.toNat := by
  have hne : s.settings.fps ≠ 0 := by
    intro hz
    rw [hz] at hfps
    exact absurd hfps (by decide)
  have hpsc : s.settings.masterPsc.toNat+1 ≤ 79 := by
    have := exactPsc_lt s.settings.fps.toNat (Nat.lt_succ_of_le h.fps) hfps
    rw [h.psc hne]
    omega
  have hticks := (remainingTicks s.settings counter).toNat_lt
  have hon : s.settings.onTimeInUs.toNat ≤ 7500 := h.onTime
  have hprod : (remainingTicks s.settings counter).toNat*(s.settings.masterPsc.toNat+1) ≤
      (remainingTicks s.settings counter).toNat*79 := Nat.mul_le_mul_left _ hpsc
  have hexact : exactRemainingUs s.settings counter =
      (remainingTicks s.settings counter).toNat*(s.settings.masterPsc.toNat+1)/170 := rfl
  have hus : (remainingUs s.settings counter).toNat = exactRemainingUs s.settings counter := by
    have hmhz : (UInt64.ofNat timerClockFreqMhz).toNat = 170 := rfl
    have hone : (1 : UInt64).toNat = 1 := rfl
    have hsmall : (remainingTicks s.settings counter).toNat*(s.settings.masterPsc.toNat+1) < 2^64 := by omega
    rw [remainingUs, hexact, UInt64.toNat_toUInt32, UInt64.toNat_div, UInt64.toNat_mul, UInt64.toNat_add,
      UInt32.toNat_toUInt64, UInt16.toNat_toUInt64, hmhz, hone,
      Nat.mod_eq_of_lt (by omega : s.settings.masterPsc.toNat+1 < 2^64), Nat.mod_eq_of_lt hsmall]
    apply Nat.mod_eq_of_lt
    omega
  rw [UInt32.toNat_add, hus, UInt16.toNat_toUInt32]
  apply Nat.mod_eq_of_lt
  omega

/-- What a rising edge must find for the pulse it programs to be short enough: the master timer past the
scheduled pulse, a frame rate at which the longest pulse is allowed, or little enough time left. -/
def StrobeWithinDuty (s : IrCameraState) (counter : UInt32) : Prop :=
  counter < s.settings.masterInitialCounter.toUInt32 ∨
  (maxIrLedOnTimeUs .diamond).toNat*s.settings.fps.toNat ≤ maxIrLedDutyPpm .diamond ∨
  (exactRemainingUs s.settings counter+s.settings.onTimeInUs.toNat)*s.settings.fps.toNat ≤ maxIrLedDutyPpm .diamond

instance instDecidableStrobeWithinDuty (counter : UInt32) : Decidable (StrobeWithinDuty s counter) :=
  inferInstanceAs (Decidable (_ ∨ _ ∨ _))

theorem setLedAutoReload_safe_iff : (∀ e ∈ (setLedAutoReload value startDelay s).1, e.Safe b) ↔
    PulseSafe b (value-startDelay).toNat s.settings.fps.toNat := by
  simp [setLedAutoReload, IrEvent.Safe]

/-- The pulse of a rising edge: all the time there is, up to the longest pulse. -/
theorem strobe_rising_pulse {counter : UInt32} (hpast : ¬counter < s.settings.masterInitialCounter.toUInt32) :
    (∀ e ∈ (rgbIrStrobeIsr true counter s).1, e.Safe .diamond) ↔
    PulseSafe .diamond (min (maxIrLedOnTimeUs .diamond).toNat
      (remainingUs s.settings counter+s.settings.onTimeInUs.toUInt32).toNat) s.settings.fps.toNat := by
  have hmax : (maxIrLedOnTimeUs .diamond).toUInt32.toNat = (maxIrLedOnTimeUs .diamond).toNat := rfl
  simp only [rgbIrStrobeIsr, Bool.true_eq_false, if_false, if_neg hpast]
  by_cases hlong : (maxIrLedOnTimeUs .diamond).toUInt32 < remainingUs s.settings counter+s.settings.onTimeInUs.toUInt32
  · have hlt := UInt32.lt_iff_toNat_lt.mp hlong
    rw [if_pos hlong, setLedAutoReload_safe_iff, UInt32.sub_zero, hmax, min_eq_left (by omega)]
  · have hle := UInt32.le_iff_toNat_le.mp (UInt32.not_lt.mp hlong)
    rw [hmax] at hle
    have hupdate : ∀ e ∈ [IrEvent.masterUpdate], e.Safe .diamond := List.forall_mem_singleton.mpr trivial
    rw [if_neg hlong, List.forall_mem_append, setLedAutoReload_safe_iff, UInt32.sub_zero,
      min_eq_right hle]
    exact and_iff_left hupdate

theorem strobe_rising (h : TimerInv .diamond s.settings) (counter : UInt32) :
    (∀ e ∈ (rgbIrStrobeIsr true counter s).1, e.Safe .diamond) ↔ StrobeWithinDuty s counter := by
  by_cases hpast : counter < s.settings.masterInitialCounter.toUInt32
  · have hnone : (rgbIrStrobeIsr true counter s).1 = [] := by
      simp only [rgbIrStrobeIsr, Bool.true_eq_false, if_false, if_pos hpast]
    rw [hnone]
    exact iff_of_true (List.forall_mem_nil _) (.inl hpast)
  · rw [strobe_rising_pulse hpast, StrobeWithinDuty, or_iff_right hpast]
    have hmax : (maxIrLedOnTimeUs .diamond).toNat = 7500 := rfl
    have hduty : maxIrLedDutyPpm .diamond = 250000 := rfl
    rw [PulseSafe, and_iff_right (min_le_left _ _), hmax, hduty]
    by_cases hslow : 7500*s.settings.fps.toNat ≤ 250000
    · have hmul := Nat.mul_le_mul_right s.settings.fps.toNat
        (min_le_left 7500 (remainingUs s.settings counter+s.settings.onTimeInUs.toUInt32).toNat)
      exact iff_of_true (hmul.trans hslow) (.inl hslow)
    · rw [remainingUs_exact h (by omega), or_iff_right hslow, Nat.min_def]
      split
      · next hle =>
        have hmul := Nat.mul_le_mul_right s.settings.fps.toNat hle
        exact iff_of_false hslow (by omega)
      · exact Iff.rfl

/-! Any run. -/

/-- Only a rising edge with the strobe interrupt on is ever in question. -/
def EdgeWithinDuty (s : IrCameraState) : IrAction → Prop
  | .strobe true counter => s.strobeInterrupt → StrobeWithinDuty s counter
  | _ => True

instance instDecidableEdgeWithinDuty : (a : IrAction) → Decidable (EdgeWithinDuty s a)
  | .strobe true _ => inferInstanceAs (Decidable (_ → _))
  | .strobe false _ | .call _ _ | .timeout | .exposureCompletes => isTrue trivial

theorem rising_settings (counter : UInt32) : (rgbIrStrobeIsr true counter s).2.settings = s.settings := by
  simp only [rgbIrStrobeIsr, Bool.true_eq_false, if_false]
  split_ifs <;> rfl

theorem irStep_settings (a : IrAction) (h : TimerInv .diamond s.settings) :
    TimerInv .diamond (irStep .diamond maxFocus s a).2.settings := by
  cases a with
  | call safetyTriggered c => exact (irCall_sound h safetyTriggered c).settings
  | timeout => exact (irCameraSystemTimeoutDisable_sound h).settings
  | exposureCompletes =>
    rw [irStep]
    split
    · rwa [cameraExposureCompletesIsr_sameLeds.settings]
    · exact h
  | strobe level counter =>
    rw [irStep]
    split
    · cases level with
      | false => exact (strobe_falling h counter).settings
      | true => rwa [rising_settings]
    · exact h

theorem irStep_safe_iff (a : IrAction) (h : TimerInv .diamond s.settings) :
    (∀ e ∈ (irStep .diamond maxFocus s a).1, e.Safe .diamond) ↔ EdgeWithinDuty s a := by
  cases a with
  | call safetyTriggered c => exact iff_of_true (irCall_sound h safetyTriggered c).pulses trivial
  | timeout => exact iff_of_true (irCameraSystemTimeoutDisable_sound h).pulses trivial
  | exposureCompletes =>
    rw [irStep]
    split <;> exact iff_of_true (List.forall_mem_nil _) trivial
  | strobe level counter =>
    rw [irStep]
    by_cases hon : s.strobeInterrupt
    · rw [if_pos hon]
      cases level with
      | false => exact iff_of_true (strobe_falling h counter).pulses trivial
      | true => rw [strobe_rising h, EdgeWithinDuty, imp_iff_right hon]
    · rw [if_neg hon]
      cases level with
      | false => exact iff_of_true (List.forall_mem_nil _) trivial
      | true => exact iff_of_true (List.forall_mem_nil _) fun hon' => absurd hon' hon

/-- The pulses of a run are all safe exactly if every rising edge found what it must. -/
theorem pulses_safe_iff (maxFocus : Nat) (actions : List IrAction) :
    (∀ e ∈ Machine.events (irStep .diamond maxFocus) irCameraStart actions, e.Safe .diamond) ↔
    Machine.Meets (irStep .diamond maxFocus) EdgeWithinDuty irCameraStart actions := by
  apply Machine.events_forall_iff (I := fun s => TimerInv .diamond s.settings)
  · exact fun s a h => irStep_settings a h
  · exact fun s a h => irStep_safe_iff a h
  · exact timerInv_zero .diamond

/-- 60 frames per second, a pulse of 1 ms, and the face camera: its exposure then gets a pulse of 7.5 ms out of
a period of 16.7 ms. -/
theorem rising_edge_exceeds_duty : ¬∀ maxFocus : Nat, ∀ actions : List IrAction,
    ∀ e ∈ Machine.events (irStep .diamond maxFocus) irCameraStart actions, e.Safe .diamond := by
  intro hall
  have h := hall 200 [.call false (.setFps 60), .call false (.setOnTimeUs 1000),
    .call false (.setCamera true .irFace), .call false (.enableLeds .nm850), .strobe false 0, .strobe true 10000]
    (.ledAutoReload .nm850 7500 0 60)
  exact absurd (h (by decide +kernel)) (by decide +kernel)

end OrbFirmware.IrCamera

import Mathlib.Data.Fintype.Option
import OrbFirmware.IrCamera.EyeSafety

/-! The proximity interlock of Pearl: the 1D-ToF thread counts near readings and turns the IR LEDs off when
there are enough, while other threads are anywhere in their calls of the IR camera system. -/
namespace OrbFirmware.IrCamera
variable {ι : Type} [DecidableEq ι] {maxFocus : Nat}

/-- Where a thread is in a call that reaches the LEDs: about to validate against the settings, with its copy
of them; about to store the new ones; before the critical section that applies them or the wavelength; or
asleep in it, for the converter to settle. -/
inductive CallPc where
  | idle
  | setFps (fps : UInt16) (copy : TimerSettings)
  | setOnTime (onTimeUs : UInt16) (copy : TimerSettings)
  | store (settings : TimerSettings)
  | apply
  | enableLeds
  | applySettling
  | ledsSettling
  deriving DecidableEq

/-- The threads, `none` for the one of the sensor; `callbackDue` once it has raised the counter to the
threshold and not yet called back. -/
structure ProximityState (ι : Type) where
  ir : IrCameraState := irCameraStart
  pc : Option ι → CallPc := fun _ => .idle
  callbackDue : Bool := false

inductive ProximityAction (ι : Type) where
  | reading (near : Bool)
  | callback
  | call (thread : ι) (safetyTriggered : Bool) (c : IrCall)
  | proceed (thread : Option ι)
  | timeout
  | exposureCompletes

/-- `timer_settings_from_fps` on Pearl, whose checks look at the settings again after the copy. -/
def validateFps (fps : UInt16) (copy settings : TimerSettings) : CallPc :=
  let (ret, ts) := (timerSettingsFromFps .pearl fps settings settings).value
  if ret ≠ .success then .idle
  else .store { copy with fps := ts.fps, masterPsc := ts.masterPsc, masterArr := ts.masterArr }

def validateOnTime (onTimeUs : UInt16) (copy settings : TimerSettings) : CallPc :=
  let (ret, _) := (timerSettingsFromOnTimeUs .pearl onTimeUs settings settings).value
  if ret ≠ .success then .idle else .store { copy with onTimeInUs := onTimeUs }

/-- A call up to its first step on the settings; what does not reach the LEDs runs to its end. -/
def beginCall (maxFocus : Nat) (safetyTriggered : Bool) (c : IrCall) (s : IrCameraState) : CallPc × IrCameraState :=
  match c with
  | .setFps fps =>
    if maxFps < fps then (.idle, s)
    else if fps ≠ 0 ∧ irCameraSystemGetStatus safetyTriggered s ≠ .success then (.idle, s)
    else (.setFps fps s.settings, s)
  | .setOnTimeUs onTimeUs =>
    let ret := if onTimeUs = 0 then .success else irCameraSystemGetStatus safetyTriggered s
    if maxIrLedOnTimeUs .pearl < onTimeUs then (.idle, s)
    else if ret ≠ .success ∧ ret ≠ .busy then (.idle, s)
    else (.setOnTime onTimeUs s.settings, s)
  | .enableLeds wavelength =>
    if wavelength ≠ .none ∧ irCameraSystemGetStatus safetyTriggered s ≠ .success then (.idle, s)
    else if deprecatedWavelength .pearl wavelength then (.idle, s)
    else if s.enabledLedWavelength = wavelength then (.idle, s)
    else (.enableLeds, { s with enabledLedWavelength := wavelength })
  | c => (.idle, (irCall .pearl maxFocus safetyTriggered s c).2.2)

/-- What a thread does next. -/
def proceedCall (pc : CallPc) (s : IrCameraState) : CallPc × List IrEvent × IrCameraState :=
  match pc with
  | .idle => (.idle, [], s)
  | .setFps fps copy => (validateFps fps copy s.settings, [], s)
  | .setOnTime onTimeUs copy => (validateOnTime onTimeUs copy s.settings, [], s)
  | .store settings => (.apply, [], { s with settings := settings })
  | .apply =>
    let (sleeps, events, s) := applyTimers .pearl s
    if sleeps then (.applySettling, events, s)
    else
      let (events', s) := applyPulse .pearl s
      (.idle, events ++ events', s)
  | .enableLeds =>
    let (sleeps, events, s) := irLedsSetPulseLength .pearl s
    if sleeps then (.ledsSettling, events, s)
    else
      let (events', s) := irLedsEnablePulse .pearl s
      (.idle, events ++ events', s)
  | .applySettling => (.idle, applyPulse .pearl s)
  | .ledsSettling => (.idle, irLedsEnablePulse .pearl s)

/-- The counter of `tof_1d_thread` after a reading. -/
def countReading (near : Bool) (counter : Nat) : Nat :=
  if near = false then counter-1
  else if counter < tooCloseThreshold then counter+1
  else counter

def proximityStep (maxFocus : Nat) (s : ProximityState ι) : ProximityAction ι → List IrEvent × ProximityState ι
  | .reading near =>
    if s.callbackDue = false ∧ s.pc none = .idle then
      let ir := { s.ir with tooCloseCounter := countReading near s.ir.tooCloseCounter }
      ([], { s with
        ir := ir
        callbackDue := decide (s.ir.tooCloseCounter ≠ ir.tooCloseCounter) && !distanceIsSafe .pearl ir })
    else ([], s)
  | .callback =>
    if s.callbackDue then
      ([], { s with
        pc := Function.update s.pc none (.setOnTime 0 s.ir.settings)
        callbackDue := false })
    else ([], s)
  | .call thread safetyTriggered c =>
    if s.pc (some thread) = .idle then
      let (pc, ir) := beginCall maxFocus safetyTriggered c s.ir
      ([], { s with ir := ir, pc := Function.update s.pc (some thread) pc })
    else ([], s)
  | .proceed thread =>
    let (pc, events, ir) := proceedCall (s.pc thread) s.ir
    (events, { s with ir := ir, pc := Function.update s.pc thread pc })
  | .timeout =>
    let (events, ir) := irCameraSystemTimeoutDisable .pearl s.ir
    (events, { s with ir := ir })
  | .exposureCompletes =>
    ([], if s.ir.sweepInterrupt then { s with ir := cameraExposureCompletesIsr .pearl s.ir } else s)

/-! Too near, every critical section that sets the pulse length leaves the LEDs dark. -/

variable {ir : IrCameraState} {s : ProximityState ι} {safetyTriggered : Bool}

/-- No pulse length and no channel on. -/
structure Dark (ir : IrCameraState) : Prop where
  onTime : ir.settings.onTimeInUs = 0
  channels : ∀ c ∈ ledChannels .pearl, ir.ledChannel c = false

theorem Dark.of_sameLeds {ir' : IrCameraState} (h : Dark ir) (hsame : SameLeds ir ir') : Dark ir' where
  onTime := hsame.settings ▸ h.onTime
  channels := hsame.ledChannel ▸ h.channels

theorem irLedsSetPulseLength_dark (h : distanceIsSafe .pearl ir = false) :
    (irLedsSetPulseLength .pearl ir).1 = false ∧ Dark (irLedsSetPulseLength .pearl ir).2.2 := by
  simp only [irLedsSetPulseLength, h]
  exact ⟨rfl, rfl, fun c hc => by simp [irLedsDisableAll, hc]⟩

theorem Dark.enablePulse (h : Dark ir) : Dark (irLedsEnablePulse .pearl ir).2 := by
  simp only [irLedsEnablePulse, h.onTime]
  exact ⟨h.onTime, h.channels⟩

theorem Dark.applyPulse (h : Dark ir) : Dark (applyPulse .pearl ir).2 where
  onTime := h.enablePulse.onTime
  channels := h.enablePulse.channels

theorem applyTimers_dark (h : distanceIsSafe .pearl ir = false) :
    (applyTimers .pearl ir).1 = false ∧ Dark (applyTimers .pearl ir).2.2 := by
  apply irLedsSetPulseLength_dark
  exact h

/-- What no critical section touches. -/
structure SameProximity (ir ir' : IrCameraState) : Prop where
  counter : ir'.tooCloseCounter = ir.tooCloseCounter
  fps : ir'.settings.fps = ir.settings.fps

theorem SameProximity.trans {ir₁ ir₂ ir₃ : IrCameraState} (h : SameProximity ir₁ ir₂) (h' : SameProximity ir₂ ir₃) :
    SameProximity ir₁ ir₃ := ⟨h'.counter.trans h.counter, h'.fps.trans h.fps⟩

theorem irLedsSetPulseLength_same (ir : IrCameraState) : SameProximity ir (irLedsSetPulseLength .pearl ir).2.2 := by
  simp only [irLedsSetPulseLength, irLedsDisableAll, setLedAutoReload]
  split_ifs <;> exact ⟨rfl, rfl⟩

theorem irLedsEnablePulse_same (ir : IrCameraState) : SameProximity ir (irLedsEnablePulse .pearl ir).2 := by
  simp only [irLedsEnablePulse]
  split <;> exact ⟨rfl, rfl⟩

theorem applyTimers_same (ir : IrCameraState) : SameProximity ir (applyTimers .pearl ir).2.2 := by
  apply SameProximity.trans _ (irLedsSetPulseLength_same _)
  exact ⟨rfl, rfl⟩

theorem applyPulse_same (ir : IrCameraState) : SameProximity ir (applyPulse .pearl ir).2 := by
  have h := irLedsEnablePulse_same ir
  exact ⟨h.counter, h.fps⟩

theorem proceedCall_same {pc : CallPc} (ir : IrCameraState) (hstore : ∀ ts, pc ≠ .store ts) :
    SameProximity ir (proceedCall pc ir).2.2 := by
  cases pc with
  | store ts => exact absurd rfl (hstore ts)
  | apply =>
    rw [proceedCall]
    split
    next sleeps events ir' hsteps =>
    have h := applyTimers_same ir
    rw [hsteps] at h
    split
    · exact h
    · exact h.trans (applyPulse_same ir')
  | enableLeds =>
    rw [proceedCall]
    split
    next sleeps events ir' hsteps =>
    have h := irLedsSetPulseLength_same ir
    rw [hsteps] at h
    split
    · exact h
    · exact h.trans (irLedsEnablePulse_same ir')
  | applySettling => exact applyPulse_same ir
  | ledsSettling => exact irLedsEnablePulse_same ir
  | idle | setFps fps copy | setOnTime onTimeUs copy => exact ⟨rfl, rfl⟩

/-! Validation. -/

/-- No frame rate makes the limit on the on-time negative, so turning off is always valid. -/
theorem onTimeLimit_nonneg : ∀ fps < 61, ¬onTimeLimit .pearl (.ofNat fps) < (0 : UInt16).toFloat := by
  decide +kernel

theorem validateOnTime_zero (copy : TimerSettings) (h : ir.settings.fps.toNat ≤ 60) :
    validateOnTime 0 copy ir.settings = .store { copy with onTimeInUs := 0 } := by
  have hlimit := onTimeLimit_nonneg ir.settings.fps.toNat (by omega)
  rw [UInt16.ofNat_toNat] at hlimit
  have hok : timerSettingsFromOnTimeUs .pearl 0 ir.settings ir.settings =
      pure (.success, { ir.settings with onTimeInUs := 0 }) := by
    rw [timerSettingsFromOnTimeUs, if_neg (by decide), if_neg fun hn => hlimit hn.2]
  simp only [validateOnTime, hok]
  rfl

/-- The settings a thread holds on to have a valid frame rate. -/
def CallPc.Bounded : CallPc → Prop
  | .setFps _ ts | .setOnTime _ ts | .store ts => ts.fps.toNat ≤ 60
  | _ => True

theorem timerSettingsFromFps_fps (fps : UInt16) (settings : TimerSettings) :
    (timerSettingsFromFps .pearl fps settings settings).value.1 = .success →
    (timerSettingsFromFps .pearl fps settings settings).value.2.fps.toNat ≤ 60 := by
  rw [timerSettingsFromFps]
  by_cases hzero : fps = 0
  · rw [if_pos hzero]
    exact fun _ => Nat.zero_le _
  · by_cases hmax : maxFps < fps
    · rw [if_neg hzero, if_pos hmax]
      simp
    · have hle : fps.toNat ≤ 60 := UInt16.not_lt.mp hmax
      rw [if_neg hzero, if_neg hmax]
      simp only [Calc.bind_value]
      split
      · simp
      · exact fun _ => hle

theorem validateFps_bounded (fps : UInt16) (copy settings : TimerSettings) : (validateFps fps copy settings).Bounded := by
  have hfps := timerSettingsFromFps_fps fps settings
  simp only [validateFps]
  split
  · exact trivial
  · next hret => exact hfps (not_not.mp hret)

theorem validateOnTime_bounded (onTimeUs : UInt16) {copy : TimerSettings} (settings : TimerSettings)
    (h : copy.fps.toNat ≤ 60) : (validateOnTime onTimeUs copy settings).Bounded := by
  simp only [validateOnTime]
  split
  · exact trivial
  · exact h

/-! The interlock. -/

/-- The callback, not yet at its critical section. -/
def CallPc.TurnsOff : CallPc → Prop
  | .setOnTime onTimeUs _ => onTimeUs = 0
  | .store _ => True
  | _ => False

/-- Too near, either the callback is on its way, or the LEDs are dark, or whoever has stored an on-time since
has its own critical section still to come. -/
structure Interlocked (s : ProximityState ι) : Prop where
  fps : s.ir.settings.fps.toNat ≤ 60
  bounded : ∀ thread, (s.pc thread).Bounded
  guarded : distanceIsSafe .pearl s.ir = false →
    s.callbackDue ∨ (s.pc none).TurnsOff ∨ Dark s.ir ∨ ∃ thread, s.pc thread = .apply

/-- Too near, what runs from its critical section leaves the LEDs dark, and so does what finds them dark. -/
theorem proceedCall_dark {pc : CallPc} (hclose : distanceIsSafe .pearl ir = false)
    (hpc : pc = .apply ∨ pc = .enableLeds ∨ Dark ir) (hstore : ∀ ts, pc ≠ .store ts) :
    Dark (proceedCall pc ir).2.2 := by
  cases pc with
  | idle | setFps fps copy | setOnTime onTimeUs copy | applySettling | ledsSettling =>
    obtain hpc | hpc | hdark := hpc
    · cases hpc
    · cases hpc
    · first | exact hdark | exact hdark.applyPulse | exact hdark.enablePulse
  | store ts => exact absurd rfl (hstore ts)
  | apply =>
    obtain ⟨hsleep, hdark⟩ := applyTimers_dark hclose
    rw [proceedCall]
    split
    next sleeps events ir' hsteps =>
    rw [hsteps] at hsleep hdark
    cases hsleep
    exact hdark.applyPulse
  | enableLeds =>
    obtain ⟨hsleep, hdark⟩ := irLedsSetPulseLength_dark hclose
    rw [proceedCall]
    split
    next sleeps events ir' hsteps =>
    rw [hsteps] at hsleep hdark
    cases hsleep
    exact hdark.enablePulse

theorem proceedCall_bounded {pc : CallPc} (h : pc.Bounded) : (proceedCall pc ir).1.Bounded := by
  cases pc with
  | setFps fps copy => exact validateFps_bounded fps copy ir.settings
  | setOnTime onTimeUs copy => exact validateOnTime_bounded onTimeUs ir.settings h
  | apply =>
    rw [proceedCall]
    split
    split <;> exact trivial
  | enableLeds =>
    rw [proceedCall]
    split
    split <;> exact trivial
  | idle | store ts | applySettling | ledsSettling => exact trivial

theorem distanceIsSafe_congr {ir' : IrCameraState} (h : ir'.tooCloseCounter = ir.tooCloseCounter) :
    distanceIsSafe .pearl ir' = distanceIsSafe .pearl ir := by
  simp only [distanceIsSafe, h]

theorem beginCall_sameLeds (maxFocus : Nat) (safetyTriggered : Bool) (c : IrCall) (ir : IrCameraState) :
    SameLeds ir (beginCall maxFocus safetyTriggered c ir).2 := by
  cases c with
  | setFps fps =>
    simp only [beginCall]
    split_ifs <;> exact .refl ir
  | setOnTimeUs onTimeUs =>
    simp only [beginCall]
    generalize (if onTimeUs = 0 then RetCode.success else irCameraSystemGetStatus safetyTriggered ir) = ret
    split_ifs <;> exact .refl ir
  | enableLeds wavelength =>
    simp only [beginCall]
    split_ifs
    · exact .refl ir
    · exact .refl ir
    · exact .refl ir
    · exact ⟨rfl, rfl, rfl⟩
  | setCamera enabled camera => exact setCamera_sameLeds enabled camera
  | setRgbFaceCamera enabled => exact setRgbFaceCamera_sameLeds enabled
  | setFocusValues n => exact setFocusValues_sameLeds n
  | setFocusPolynomial frames => exact setFocusPolynomial_sameLeds frames
  | performFocusSweep => exact performFocusSweep_sameLeds safetyTriggered
  | setMirrorPolynomial frames => exact setMirrorPolynomial_sameLeds frames
  | performMirrorSweep => exact performMirrorSweep_sameLeds safetyTriggered

theorem beginCall_bounded (maxFocus : Nat) (safetyTriggered : Bool) (c : IrCall) (h : ir.settings.fps.toNat ≤ 60) :
    (beginCall maxFocus safetyTriggered c ir).1.Bounded := by
  cases c with
  | setFps fps =>
    simp only [beginCall]
    split_ifs
    · exact trivial
    · exact trivial
    · exact h
  | setOnTimeUs onTimeUs =>
    simp only [beginCall]
    generalize (if onTimeUs = 0 then RetCode.success else irCameraSystemGetStatus safetyTriggered ir) = ret
    split_ifs
    · exact trivial
    · exact trivial
    · exact h
  | enableLeds wavelength =>
    simp only [beginCall]
    split_ifs <;> exact trivial
  | _ => exact trivial

/-! The timeout runs to its end in its interrupt. -/

theorem enableLedsHw_interlock (ir : IrCameraState) : SameProximity ir (irCameraSystemEnableLedsHw .pearl ir).2 ∧
    (distanceIsSafe .pearl ir = false → Dark (irCameraSystemEnableLedsHw .pearl ir).2) := by
  have hsame := irLedsSetPulseLength_same ir
  rw [irCameraSystemEnableLedsHw]
  split
  next sleeps events ir' hsteps =>
  rw [hsteps] at hsame
  refine ⟨hsame.trans (irLedsEnablePulse_same ir'), fun hclose => ?_⟩
  have hdark := (irLedsSetPulseLength_dark hclose).2
  rw [hsteps] at hdark
  exact hdark.enablePulse

theorem enableLedsNone_interlock (ir : IrCameraState) :
    SameProximity ir (irCameraSystemEnableLeds .pearl false .none ir).2.2 ∧
    (distanceIsSafe .pearl ir = false → Dark ir → Dark (irCameraSystemEnableLeds .pearl false .none ir).2.2) := by
  by_cases hw : ir.enabledLedWavelength = .none
  · have hnone : irCameraSystemEnableLeds .pearl false .none ir = (.success, [], ir) := by
      simp [irCameraSystemEnableLeds, deprecatedWavelength, hw]
    rw [hnone]
    exact ⟨⟨rfl, rfl⟩, fun _ hdark => hdark⟩
  · have hoff : irCameraSystemEnableLeds .pearl false .none ir =
        (.success, irCameraSystemEnableLedsHw .pearl { ir with enabledLedWavelength := .none }) := by
      simp [irCameraSystemEnableLeds, deprecatedWavelength, hw]
    obtain ⟨hsame, hdark⟩ := enableLedsHw_interlock { ir with enabledLedWavelength := .none }
    rw [hoff]
    generalize irCameraSystemEnableLedsHw .pearl { ir with enabledLedWavelength := .none } = r at hsame hdark ⊢
    exact ⟨⟨hsame.counter, hsame.fps⟩, fun hclose _ => hdark hclose⟩

theorem timeoutDisable_interlock (ir : IrCameraState) : SameProximity ir (irCameraSystemTimeoutDisable .pearl ir).2 ∧
    (distanceIsSafe .pearl ir = false → Dark ir → Dark (irCameraSystemTimeoutDisable .pearl ir).2) := by
  obtain ⟨hsame, hdark⟩ := enableLedsNone_interlock ir
  have hcameras : SameLeds (irCameraSystemEnableLeds .pearl false .none ir).2.2
      (irCameraSystemTimeoutDisable .pearl ir).2 := by
    apply SameLeds.trans (setCamera_sameLeds (b := .pearl) false .irEye)
    apply SameLeds.trans (setCamera_sameLeds (b := .pearl) false .irFace)
    exact setCamera_sameLeds false .tof2d
  refine ⟨hsame.trans ⟨hcameras.tooCloseCounter, congrArg _ hcameras.settings⟩, fun hclose h => ?_⟩
  exact (hdark hclose h).of_sameLeds hcameras

omit [DecidableEq ι] in
theorem Interlocked.start : Interlocked ({} : ProximityState ι) where
  fps := Nat.zero_le _
  bounded _ := trivial
  guarded h := by cases h

theorem Interlocked.reading (h : Interlocked s) (near : Bool) :
    Interlocked (proximityStep maxFocus s (.reading near)).2 := by
  rw [proximityStep]
  split
  · next hidle =>
    refine ⟨h.fps, h.bounded, fun hclose => ?_⟩
    by_cases hcross : s.ir.tooCloseCounter = countReading near s.ir.tooCloseCounter
    · have hbefore : distanceIsSafe .pearl s.ir = false := by
        simpa only [distanceIsSafe, ← hcross] using hclose
      obtain hdue | hoff | hdark | hpending := h.guarded hbefore
      · exact absurd hdue (by simp [hidle.1])
      · exact .inr (.inl hoff)
      · exact .inr (.inr (.inl ⟨hdark.onTime, hdark.channels⟩))
      · exact .inr (.inr (.inr hpending))
    · refine .inl ?_
      simp only [hclose, ne_eq, hcross]
      rfl
  · exact h

theorem Interlocked.callback (h : Interlocked s) : Interlocked (proximityStep maxFocus s .callback).2 := by
  rw [proximityStep]
  split
  · refine ⟨h.fps, fun thread => ?_, fun _ => .inr (.inl ?_)⟩
    · cases thread with
      | none => exact h.fps
      | some thread => exact h.bounded (some thread)
    · rfl
  · exact h

/-- One thread moves on: it is about to apply what it stored, or leaves the LEDs dark, or is not the one
the interlock relies on. -/
theorem Interlocked.moved (h : Interlocked s) {thread : Option ι} {pc : CallPc} {ir' : IrCameraState}
    (hcounter : ir'.tooCloseCounter = s.ir.tooCloseCounter) (hfps : ir'.settings.fps.toNat ≤ 60) (hbounded : pc.Bounded)
    (hguard : distanceIsSafe .pearl s.ir = false → pc = .apply ∨ Dark ir' ∨
      ¬Dark s.ir ∧ s.pc thread ≠ .apply ∧ (thread = none → (s.pc none).TurnsOff → pc.TurnsOff)) :
    Interlocked { s with ir := ir', pc := Function.update s.pc thread pc } := by
  refine ⟨hfps, fun t => ?_, fun hclose => ?_⟩
  · dsimp only
    by_cases ht : t = thread
    · rw [ht, Function.update_self]
      exact hbounded
    · rw [Function.update_of_ne ht]
      exact h.bounded t
  · rw [distanceIsSafe_congr hcounter] at hclose
    dsimp only
    obtain hpc | hdark | ⟨hbright, hother, hturns⟩ := hguard hclose
    · refine .inr (.inr (.inr ⟨thread, ?_⟩))
      rw [Function.update_self, hpc]
    · exact .inr (.inr (.inl hdark))
    · obtain hdue | hoff | hdark | ⟨t, ht⟩ := h.guarded hclose
      · exact .inl hdue
      · refine .inr (.inl ?_)
        by_cases hnone : thread = none
        · rw [hnone, Function.update_self]
          exact hturns hnone hoff
        · rwa [Function.update_of_ne (Ne.symm hnone)]
      · exact absurd hdark hbright
      · refine .inr (.inr (.inr ⟨t, ?_⟩))
        have hne : t ≠ thread := fun heq => hother (heq ▸ ht)
        rwa [Function.update_of_ne hne]

theorem Interlocked.call (h : Interlocked s) (thread : ι) (safetyTriggered : Bool) (c : IrCall) :
    Interlocked (proximityStep maxFocus s (.call thread safetyTriggered c)).2 := by
  rw [proximityStep]
  split
  · next hidle =>
    have hsame := beginCall_sameLeds maxFocus safetyTriggered c s.ir
    have hbounded := beginCall_bounded maxFocus safetyTriggered c h.fps
    split
    next pc ir hsteps =>
    rw [hsteps] at hsame hbounded
    apply h.moved hsame.tooCloseCounter (hsame.settings ▸ h.fps) hbounded
    intro _
    by_cases hdark : Dark s.ir
    · exact .inr (.inl (hdark.of_sameLeds hsame))
    · refine .inr (.inr ⟨hdark, ?_, fun hnone => nomatch hnone⟩)
      rw [hidle]
      exact nofun
  · exact h

/-- The callback validates, whatever the frame rate is by then. -/
theorem proceedCall_turnsOff {pc : CallPc} (h : pc.TurnsOff) (hstore : ∀ ts, pc ≠ .store ts)
    (hfps : ir.settings.fps.toNat ≤ 60) : (proceedCall pc ir).1.TurnsOff := by
  cases pc with
  | setOnTime onTimeUs copy =>
    have hzero : onTimeUs = 0 := h
    rw [proceedCall, hzero, validateOnTime_zero copy hfps]
    exact trivial
  | store ts => exact absurd rfl (hstore ts)
  | _ => exact h.elim

theorem Interlocked.proceed (h : Interlocked s) (thread : Option ι) :
    Interlocked (proximityStep maxFocus s (.proceed thread)).2 := by
  have hbound := h.bounded thread
  rw [proximityStep]
  by_cases hstored : ∃ ts, s.pc thread = .store ts
  · obtain ⟨ts, hts⟩ := hstored
    rw [hts] at hbound ⊢
    apply h.moved
    · rfl
    · exact hbound
    · exact trivial
    · exact fun _ => .inl rfl
  · have hstore : ∀ ts, s.pc thread ≠ .store ts := fun ts hts => hstored ⟨ts, hts⟩
    have hsame := proceedCall_same s.ir hstore
    apply h.moved hsame.counter (hsame.fps ▸ h.fps) (proceedCall_bounded hbound)
    intro hclose
    by_cases hdark : Dark s.ir
    · exact .inr (.inl (proceedCall_dark hclose (.inr (.inr hdark)) hstore))
    · by_cases hpc : s.pc thread = .apply
      · exact .inr (.inl (proceedCall_dark hclose (.inl hpc) hstore))
      · refine .inr (.inr ⟨hdark, hpc, fun hnone hoff => ?_⟩)
        rw [← hnone] at hoff
        exact proceedCall_turnsOff hoff hstore h.fps

omit [DecidableEq ι] in
theorem Interlocked.leds {ir' : IrCameraState} (h : Interlocked s)
    (hsame : SameProximity s.ir ir') (hdark : distanceIsSafe .pearl s.ir = false → Dark s.ir → Dark ir') :
    Interlocked { s with ir := ir' } := by
  refine ⟨hsame.fps ▸ h.fps, h.bounded, fun hclose => ?_⟩
  rw [distanceIsSafe_congr hsame.counter] at hclose
  obtain hdue | hoff | hd | hpending := h.guarded hclose
  · exact .inl hdue
  · exact .inr (.inl hoff)
  · exact .inr (.inr (.inl (hdark hclose hd)))
  · exact .inr (.inr (.inr hpending))

theorem Interlocked.step (h : Interlocked s) (a : ProximityAction ι) : Interlocked (proximityStep maxFocus s a).2 := by
  cases a with
  | reading near => exact h.reading near
  | callback => exact h.callback
  | call thread safetyTriggered c => exact h.call thread safetyTriggered c
  | proceed thread => exact h.proceed thread
  | timeout =>
    obtain ⟨hsame, hdark⟩ := timeoutDisable_interlock s.ir
    exact h.leds hsame hdark
  | exposureCompletes =>
    rw [proximityStep]
    split
    · have hsame : SameLeds s.ir (cameraExposureCompletesIsr .pearl s.ir) := cameraExposureCompletesIsr_sameLeds
      exact h.leds ⟨hsame.tooCloseCounter, congrArg _ hsame.settings⟩ fun _ hd => hd.of_sameLeds hsame
    · exact h

/-- Too near, with no call in progress and the callback made, no channel of the IR LEDs is on. -/
theorem proximity_interlock (maxFocus : Nat) (actions : List (ProximityAction ι)) :
    let s := (Machine.run (proximityStep maxFocus) ({} : ProximityState ι) actions).2
    tooCloseThreshold ≤ s.ir.tooCloseCounter → s.callbackDue = false → (∀ thread, s.pc thread = .idle) →
    ∀ c ∈ ledChannels .pearl, s.ir.ledChannel c = false := by
  intro s hnear hdue hidle
  have hstep : ∀ (s : ProximityState ι) a, Interlocked s → Interlocked (proximityStep maxFocus s a).2 :=
    fun _ a h => h.step a
  have hinv : Interlocked s := Machine.run_invariant hstep _ _ .start
  have hclose : distanceIsSafe .pearl s.ir = false := by simp [distanceIsSafe, hnear]
  obtain hd | hoff | hdark | ⟨t, ht⟩ := hinv.guarded hclose
  · exact absurd hd (by simp [hdue])
  · rw [hidle none] at hoff
    exact hoff.elim
  · exact hdark.channels
  · rw [hidle t] at ht
    cases ht

/-- The LEDs on at 30 frames per second and 1 ms, then three near readings. -/
def tooCloseRun : List (ProximityAction Unit) :=
  [.call () false (.setFps 30), .proceed (some ()), .proceed (some ()), .proceed (some ()),
    .call () false (.setOnTimeUs 1000), .proceed (some ()), .proceed (some ()), .proceed (some ()),
    .call () false (.enableLeds .nm850), .proceed (some ()), .proceed (some ()),
    .reading true, .reading true, .reading true]

/-- With the callback after it, the run ends dark. -/
theorem proximity_interlock_run : ∀ c ∈ ledChannels .pearl,
    (Machine.run (proximityStep 200) ({} : ProximityState Unit)
      (tooCloseRun ++ [.callback, .proceed none, .proceed none, .proceed none])).2.ir.ledChannel c = false :=
  proximity_interlock 200 _ (by decide +kernel) (by decide +kernel) (by decide +kernel)

/-- Until then the counter is at the threshold, no call is in progress, and channels are on. -/
theorem proximity_callback_due : ¬∀ actions : List (ProximityAction Unit),
    let s := (Machine.run (proximityStep 200) ({} : ProximityState Unit) actions).2
    tooCloseThreshold ≤ s.ir.tooCloseCounter → (∀ thread, s.pc thread = .idle) →
    ∀ c ∈ ledChannels .pearl, s.ir.ledChannel c = false := by
  intro hall
  have h := hall tooCloseRun (by decide +kernel) (by decide +kernel) .nm850Left (by decide)
  exact absurd h (by decide +kernel)

end OrbFirmware.IrCamera

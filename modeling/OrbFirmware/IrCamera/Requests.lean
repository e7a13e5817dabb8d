import OrbFirmware.IrCamera.Sweeps
import OrbFirmware.Runner.Calls

/-! The on-time and the frame rate that the Jetson asks for, from the 32 bits of its command to the timer settings. -/
namespace OrbFirmware.IrCamera
open Runner
variable {b : Board} {s : IrCameraState}

def irCameraCalls (b : Board) (safetyTriggered : Bool) : RetCall → Option (IrCameraState → Int × IrCameraState)
  | .irCameraSystemSetOnTimeUs onTimeUs => some fun s =>
    let (ret, _, s) := irCameraSystemSetOnTimeUs b safetyTriggered onTimeUs s
    (ret.value, s)
  | .irCameraSystemSetFps fps => some fun s =>
    let (ret, _, s) := irCameraSystemSetFps b safetyTriggered fps s
    (ret.value, s)
  | _ => none

inductive TimingRequest where
  | onTime (value : UInt32)
  | fps (value : UInt32)
  deriving DecidableEq, Repr

namespace TimingRequest

def command : TimingRequest → JetsonToMcu
  | .onTime value => .ledOnTime value
  | .fps value => .fps value

def value : TimingRequest → UInt32
  | .onTime value | .fps value => value

/-- The setting that the request is about. -/
def stored (settings : TimerSettings) : TimingRequest → UInt16
  | .onTime _ => settings.onTimeInUs
  | .fps _ => settings.fps

/-- The checks that the low 16 bits of the value have to pass. -/
def Valid (b : Board) (safetyTriggered : Bool) (s : IrCameraState) : TimingRequest → Prop
  | .onTime value =>
    value.toUInt16 ≤ maxIrLedOnTimeUs b ∧
      (value.toUInt16 ≠ 0 → irCameraSystemGetStatus safetyTriggered s = .success ∨
        irCameraSystemGetStatus safetyTriggered s = .busy) ∧
      ¬(s.settings.fps ≠ 0 ∧ onTimeLimit b s.settings.fps < value.toUInt16.toFloat)
  | .fps value =>
    value.toUInt16 ≤ maxFps ∧
      (value.toUInt16 ≠ 0 → irCameraSystemGetStatus safetyTriggered s = .success ∧
        ¬(s.settings.onTimeInUs ≠ 0 ∧ maxOnTimeUsForFps b value.toUInt16 < s.settings.onTimeInUs))

end TimingRequest

/-- If a request is acknowledged with success, the settings hold all of its value; the distance is safe. -/
def StoresAcknowledgedValue (cfg : BuildConfig) (safetyTriggered : Bool) (answer : (c : Call) → c.Answer)
    (request : TimingRequest) (job : Context) (s : IrCameraState) : Prop :=
  let r := runHandler answer (irCameraCalls cfg.board safetyTriggered) (handleJetsonCmd cfg request.command job) s
  distanceIsSafe cfg.board s = true → Acknowledged job .success r.1 →
    (request.stored r.2.settings).toNat = request.value.toNat

/-! What the calls store. -/

theorem irLedsSetPulseLength_settings (h : distanceIsSafe b s = true) :
    (irLedsSetPulseLength b s).2.2.settings = s.settings := by
  simp only [irLedsSetPulseLength, h, if_true]
  split_ifs <;> rfl

theorem distanceIsSafe_of_counter {t : IrCameraState} (h : t.tooCloseCounter = s.tooCloseCounter) :
    distanceIsSafe b t = distanceIsSafe b s := by
  cases b with
  | pearl => simp only [distanceIsSafe, h]
  | diamond => rfl

theorem applyPulse_settings (s : IrCameraState) : (applyPulse b s).2.settings = s.settings := by
  simp only [applyPulse]
  split
  · exact irLedsEnablePulse_settings s
  · rfl

/-- At a safe distance the timers get the settings as they are. -/
theorem applyNewTimerSettings_settings (h : distanceIsSafe b s = true) :
    (applyNewTimerSettings b s).2.settings = s.settings := by
  have hpulse {t : IrCameraState} (hcounter : t.tooCloseCounter = s.tooCloseCounter)
      (hsettings : t.settings = s.settings) : (irLedsSetPulseLength b t).2.2.settings = s.settings :=
    (irLedsSetPulseLength_settings ((distanceIsSafe_of_counter hcounter).trans h)).trans hsettings
  rw [applyNewTimerSettings, applyPulse_settings]
  cases b with
  | pearl => exact hpulse rfl rfl
  | diamond =>
    simp only [applyTimers]
    split <;> exact hpulse rfl rfl

theorem computeMasterTimerDurations_onTime (ts : TimerSettings) :
    (computeMasterTimerDurations ts).value.onTimeInUs = ts.onTimeInUs := by
  rw [computeMasterTimerDurations]
  split
  · rw [Calc.pure_value]
  · repeat rw [Calc.bind_value]
    rw [Calc.pure_value]

/-- What the two functions of the timer settings answer: the new value is stored where the checks are passed. -/
structure Validated (valid : Prop) (stored : TimerSettings → Prop) (r : RetCode × TimerSettings) : Prop where
  success : r.1 = .success ↔ valid
  stored : r.1 = .success → stored r.2

theorem Validated.refused {valid : Prop} {stored : TimerSettings → Prop} {ret : RetCode} {ts : TimerSettings}
    (hret : ret ≠ .success) (h : ¬valid) : Validated valid stored (ret, ts) :=
  ⟨iff_of_false hret h, fun hsuccess => absurd hsuccess hret⟩

theorem Validated.congr {valid valid' : Prop} {stored : TimerSettings → Prop} {r : RetCode × TimerSettings}
    (h : Validated valid stored r) (hiff : valid ↔ valid') : Validated valid' stored r :=
  ⟨h.success.trans hiff, h.stored⟩

theorem timerSettingsFromOnTimeUs_validated (onTimeUs : UInt16) (ts : TimerSettings) :
    Validated (onTimeUs ≤ maxIrLedOnTimeUs b ∧ ¬(ts.fps ≠ 0 ∧ onTimeLimit b ts.fps < onTimeUs.toFloat))
      (·.onTimeInUs = onTimeUs) (timerSettingsFromOnTimeUs b onTimeUs ts ts).value := by
  rw [timerSettingsFromOnTimeUs]
  split_ifs with hmax hlimit
  · exact .refused (by simp) fun h => absurd h.1 (UInt16.not_le.mpr hmax)
  · exact .refused (by simp) fun h => h.2 hlimit
  · have hvalid : onTimeUs ≤ maxIrLedOnTimeUs b ∧ ¬(ts.fps ≠ 0 ∧ onTimeLimit b ts.fps < onTimeUs.toFloat) :=
      ⟨UInt16.not_lt.mp hmax, hlimit⟩
    cases b with
    | pearl => exact ⟨iff_of_true rfl hvalid, fun _ => rfl⟩
    | diamond =>
      dsimp only
      split
      · simp only [Calc.bind_value, Calc.pure_value]
        exact ⟨iff_of_true rfl hvalid, fun _ => computeMasterTimerDurations_onTime _⟩
      · exact ⟨iff_of_true rfl hvalid, fun _ => rfl⟩

theorem timerSettingsFromFps_validated (fps : UInt16) (ts : TimerSettings) :
    Validated (fps ≠ 0 → fps ≤ maxFps ∧ ¬(ts.onTimeInUs ≠ 0 ∧ maxOnTimeUsForFps b fps < ts.onTimeInUs))
      (·.fps = fps) (timerSettingsFromFps b fps ts ts).value := by
  rw [timerSettingsFromFps]
  split_ifs with hzero hmax hlimit
  · exact ⟨iff_of_true rfl (absurd hzero), fun _ => hzero.symm⟩
  · exact .refused (by simp) fun h => absurd (h hzero).1 (UInt16.not_le.mpr hmax)
  · exact .refused (by simp) fun h => (h hzero).2 hlimit
  · have hvalid : fps ≠ 0 → fps ≤ maxFps ∧ ¬(ts.onTimeInUs ≠ 0 ∧ maxOnTimeUsForFps b fps < ts.onTimeInUs) :=
      fun _ => ⟨UInt16.not_lt.mp hmax, hlimit⟩
    simp only [Calc.bind_value]
    cases b with
    | pearl => exact ⟨iff_of_true rfl hvalid, fun _ => rfl⟩
    | diamond => exact ⟨iff_of_true rfl hvalid, fun _ => computeMasterTimerDurations_fps _⟩

/-! The calls. -/

variable (hsafe : distanceIsSafe b s = true)
include hsafe

theorem applyNewTimerSettings_validated {valid : Prop} {stored : TimerSettings → Prop} {ret : RetCode} {ts : TimerSettings}
    (h : Validated valid stored (ret, ts)) :
    Validated valid stored (ret, (applyNewTimerSettings b { s with settings := ts }).2.settings) := by
  have hsafe' : distanceIsSafe b { s with settings := ts } = true := (distanceIsSafe_of_counter rfl).trans hsafe
  rw [applyNewTimerSettings_settings hsafe']
  exact h

theorem irCameraSystemSetOnTimeUsHw_validated (onTimeUs : UInt16) :
    Validated (onTimeUs ≤ maxIrLedOnTimeUs b ∧ ¬(s.settings.fps ≠ 0 ∧ onTimeLimit b s.settings.fps < onTimeUs.toFloat))
      (·.onTimeInUs = onTimeUs)
      ((irCameraSystemSetOnTimeUsHw b onTimeUs s).1, (irCameraSystemSetOnTimeUsHw b onTimeUs s).2.2.settings) := by
  have hvalidated := timerSettingsFromOnTimeUs_validated (b := b) onTimeUs s.settings
  rw [irCameraSystemSetOnTimeUsHw]
  generalize (timerSettingsFromOnTimeUs b onTimeUs s.settings s.settings).value = r at hvalidated
  obtain ⟨ret, ts⟩ := r
  dsimp only
  split_ifs with hret hface
  · exact .refused hret fun h => hret (hvalidated.success.mpr h)
  · exact hvalidated
  · exact applyNewTimerSettings_validated hsafe hvalidated

theorem irCameraSystemSetFpsHw_validated (fps : UInt16) :
    Validated (fps ≠ 0 → fps ≤ maxFps ∧
        ¬(s.settings.onTimeInUs ≠ 0 ∧ maxOnTimeUsForFps b fps < s.settings.onTimeInUs))
      (·.fps = fps) ((irCameraSystemSetFpsHw b fps s).1, (irCameraSystemSetFpsHw b fps s).2.2.settings) := by
  have hvalidated := timerSettingsFromFps_validated (b := b) fps s.settings
  rw [irCameraSystemSetFpsHw]
  generalize (timerSettingsFromFps b fps s.settings s.settings).value = r at hvalidated
  obtain ⟨ret, ts⟩ := r
  dsimp only
  split_ifs with hret
  · exact .refused hret fun h => hret (hvalidated.success.mpr h)
  · exact applyNewTimerSettings_validated hsafe hvalidated

theorem irCameraSystemSetOnTimeUs_validated (safetyTriggered : Bool) (value : UInt32) :
    Validated (TimingRequest.Valid b safetyTriggered s (.onTime value)) (·.onTimeInUs = value.toUInt16)
      ((irCameraSystemSetOnTimeUs b safetyTriggered value.toUInt16 s).1,
        (irCameraSystemSetOnTimeUs b safetyTriggered value.toUInt16 s).2.2.settings) := by
  have hvalidated := irCameraSystemSetOnTimeUsHw_validated hsafe value.toUInt16
  simp only [irCameraSystemSetOnTimeUs, TimingRequest.Valid]
  generalize irCameraSystemGetStatus safetyTriggered s = status
  by_cases hmax : maxIrLedOnTimeUs b < value.toUInt16
  · rw [if_pos hmax]
    exact .refused (by simp) fun h => absurd h.1 (UInt16.not_le.mpr hmax)
  · rw [if_neg hmax]
    by_cases hzero : value.toUInt16 = 0
    · rw [if_pos hzero, if_neg fun h => h.1 rfl]
      exact hvalidated.congr (and_congr_right fun _ => (and_iff_right (absurd hzero)).symm)
    · rw [if_neg hzero]
      by_cases hstatus : status ≠ .success ∧ status ≠ .busy
      · rw [if_pos hstatus]
        exact .refused hstatus.1 fun h => (h.2.1 hzero).elim hstatus.1 hstatus.2
      · rw [if_neg hstatus]
        have hready : status = .success ∨ status = .busy := by tauto
        exact hvalidated.congr (and_congr_right fun _ => (and_iff_right fun _ => hready).symm)

theorem irCameraSystemSetFps_validated (safetyTriggered : Bool) (value : UInt32) :
    Validated (TimingRequest.Valid b safetyTriggered s (.fps value)) (·.fps = value.toUInt16)
      ((irCameraSystemSetFps b safetyTriggered value.toUInt16 s).1,
        (irCameraSystemSetFps b safetyTriggered value.toUInt16 s).2.2.settings) := by
  have hvalidated := irCameraSystemSetFpsHw_validated hsafe value.toUInt16
  simp only [irCameraSystemSetFps, TimingRequest.Valid]
  generalize irCameraSystemGetStatus safetyTriggered s = status
  by_cases hmax : maxFps < value.toUInt16
  · rw [if_pos hmax]
    exact .refused (by simp) fun h => absurd h.1 (UInt16.not_le.mpr hmax)
  · rw [if_neg hmax]
    have hle := UInt16.not_lt.mp hmax
    by_cases hzero : value.toUInt16 = 0
    · rw [if_pos hzero, if_neg fun h => h rfl]
      exact hvalidated.congr (iff_of_true (absurd hzero) ⟨hle, absurd hzero⟩)
    · rw [if_neg hzero]
      by_cases hstatus : status ≠ .success
      · rw [if_pos hstatus]
        exact .refused hstatus fun h => hstatus (h.2 hzero).1
      · rw [if_neg hstatus]
        have hready := not_not.mp hstatus
        refine hvalidated.congr ?_
        simp only [hzero, hle, hready, ne_eq, not_false_eq_true, forall_const, true_and]

omit hsafe

/-- The low 16 bits are all of the value. -/
theorem toUInt16_toNat_eq_iff (value : UInt32) : value.toUInt16.toNat = value.toNat ↔ value.toNat < 2^16 := by
  have hlow : value.toUInt16.toNat = value.toNat % 2^16 := UInt32.toNat_toUInt16 value
  omega

/-- What the command of a request leaves in the settings, and when it is acknowledged with success. -/
theorem timingRequest_validated (cfg : BuildConfig) (safetyTriggered : Bool) (answer : (c : Call) → c.Answer)
    (request : TimingRequest) (job : Context) (hsafe : distanceIsSafe cfg.board s = true) :
    let r := runHandler answer (irCameraCalls cfg.board safetyTriggered) (handleJetsonCmd cfg request.command job) s
    (Acknowledged job .success r.1 ↔ job.remote = .canJetsonMessaging ∧ request.Valid cfg.board safetyTriggered s) ∧
      (Acknowledged job .success r.1 → request.stored r.2.settings = request.value.toUInt16) := by
  cases request with
  | onTime value =>
    have hvalidated := irCameraSystemSetOnTimeUs_validated hsafe safetyTriggered value
    have hend := EndsWith.ackResult answer (irCameraCalls cfg.board safetyTriggered) job
      (.irCameraSystemSetOnTimeUs value.toUInt16)
      [(.success, .success), (.forbidden, .forbidden), (.invalidParam, .range)] .fail s
    have hiff := (hend.acknowledged .success).trans (and_congr_right fun _ => ackOf_success (by decide) (by decide))
    refine ⟨hiff.trans (and_congr_right fun _ => hvalidated.success), fun hsuccess => ?_⟩
    exact (congrArg (fun t => t.settings.onTimeInUs) hend.state).trans (hvalidated.stored (hiff.mp hsuccess).2)
  | fps value =>
    have hvalidated := irCameraSystemSetFps_validated hsafe safetyTriggered value
    have hend := EndsWith.ackResult answer (irCameraCalls cfg.board safetyTriggered) job
      (.irCameraSystemSetFps value.toUInt16)
      [(.success, .success), (.busy, .invalidState), (.forbidden, .forbidden), (.invalidParam, .range)] .fail s
    have hiff := (hend.acknowledged .success).trans (and_congr_right fun _ => ackOf_success (by decide) (by decide))
    refine ⟨hiff.trans (and_congr_right fun _ => hvalidated.success), fun hsuccess => ?_⟩
    exact (congrArg (fun t => t.settings.fps) hend.state).trans (hvalidated.stored (hiff.mp hsuccess).2)

/-- The value is stored as it was acknowledged, exactly where the 16 bits that pass the checks are all of it. -/
theorem timing_stored_iff (cfg : BuildConfig) (safetyTriggered : Bool) (answer : (c : Call) → c.Answer)
    (request : TimingRequest) (job : Context) (s : IrCameraState) :
    StoresAcknowledgedValue cfg safetyTriggered answer request job s ↔
      (distanceIsSafe cfg.board s = true → job.remote = .canJetsonMessaging →
        request.Valid cfg.board safetyTriggered s → request.value.toNat < 2^16) := by
  constructor
  · intro h hsafe hcan hvalid
    obtain ⟨hack, hstored⟩ := timingRequest_validated cfg safetyTriggered answer request job hsafe
    have hsuccess := hack.mpr ⟨hcan, hvalid⟩
    rw [← toUInt16_toNat_eq_iff, ← hstored hsuccess]
    exact h hsafe hsuccess
  · intro h hsafe hsuccess
    obtain ⟨hack, hstored⟩ := timingRequest_validated cfg safetyTriggered answer request job hsafe
    obtain ⟨hcan, hvalid⟩ := hack.mp hsuccess
    rw [hstored hsuccess, toUInt16_toNat_eq_iff]
    exact h hsafe hcan hvalid

/-- A frame rate of 65566 is acknowledged with success, and 30 is stored. -/
theorem fps_narrowed : ¬∀ (cfg : BuildConfig) (safetyTriggered : Bool) (answer : (c : Call) → c.Answer)
    (request : TimingRequest) (job : Context) (s : IrCameraState),
    StoresAcknowledgedValue cfg safetyTriggered answer request job s := by
  intro h
  let cfg : BuildConfig := ⟨.pearl, false, false, false, false⟩
  let request : TimingRequest := .fps 65566
  let job : Context := ⟨.canJetsonMessaging, 0x80, 1⟩
  have hvalid : request.Valid cfg.board false irCameraStart := ⟨by decide, fun _ => ⟨rfl, fun hlimit => hlimit.1 rfl⟩⟩
  have hsafe : distanceIsSafe cfg.board irCameraStart = true := rfl
  obtain ⟨hack, hstored⟩ := timingRequest_validated cfg false zeroAnswer request job hsafe
  have hsuccess := hack.mpr ⟨rfl, hvalid⟩
  have hsame := h cfg false zeroAnswer request job irCameraStart hsafe hsuccess
  rw [hstored hsuccess] at hsame
  exact absurd hsame (by decide)

end OrbFirmware.IrCamera

import OrbFirmware.IrCamera.Hw
import OrbFirmware.IrCamera.TimerLimits

/-! The rising edge of the strobe, on Diamond: its arithmetic step by step, and the counters of the master timer at
which it is exact. -/
namespace OrbFirmware.IrCamera
open Calc
variable {settings : TimerSettings} {counter : UInt32} {s : IrCameraState}

/-- What the handler does at a rising edge: nothing during a pulse; a counter for the master timer with a pulse of the
maximal length; a pulse now. -/
inductive StrobePlan where
  | duringPulse
  | earlier (counter : Nat)
  | now (durationUs : Nat)
  deriving DecidableEq, Repr

/-- The rising edge in `rgb_ir_strobe_isr`. The product has 64 bits. -/
def strobePlan (settings : TimerSettings) (counter : Nat) : Calc StrobePlan :=
  if counter < settings.masterInitialCounter.toNat then pure .duringPulse
  else do
    let remainingTicks ← sub .uint32 settings.masterArr.toNat counter
    let remainingUs ← conv .uint32 (remainingTicks*(settings.masterPsc.toNat+1)/timerClockFreqMhz)
    let total ← add .uint32 remainingUs settings.onTimeInUs.toNat
    if (maxIrLedOnTimeUs .diamond).toNat < total then do
      let early ← sub .uint32 remainingTicks settings.masterMaxIrLedsTick.toNat
      pure (.earlier (← sub .uint32 settings.masterArr.toNat early))
    else pure (.now total)

def StrobePlan.carryOut (s : IrCameraState) : StrobePlan → List IrEvent × IrCameraState
  | .duringPulse => ([], s)
  | .earlier counter =>
    setLedAutoReload (maxIrLedOnTimeUs .diamond).toUInt32 0 { s with masterCnt := .ofNat counter }
  | .now durationUs =>
    let (events, s) := setLedAutoReload (.ofNat durationUs) 0 s
    (events ++ [.masterUpdate], s)

/-- A counter from the current one up to the auto-reload value, or a pulse not longer than the maximum. -/
def StrobePlan.InRange (settings : TimerSettings) (current : Nat) : StrobePlan → Prop
  | .duringPulse => True
  | .earlier counter => current ≤ counter ∧ counter ≤ settings.masterArr.toNat
  | .now durationUs => durationUs ≤ (maxIrLedOnTimeUs .diamond).toNat

/-- What is left of the period with the on-time is no longer than the maximum, or what is left of it without. -/
def LeavesRoom (settings : TimerSettings) (counter : Nat) : Prop :=
  settings.masterInitialCounter.toNat ≤ counter →
    (settings.masterArr.toNat-counter)*(settings.masterPsc.toNat+1)/timerClockFreqMhz+settings.onTimeInUs.toNat ≤
        (maxIrLedOnTimeUs .diamond).toNat ∨
      settings.masterMaxIrLedsTick.toNat ≤ settings.masterArr.toNat-counter

instance (settings : TimerSettings) (counter : Nat) : Decidable (LeavesRoom settings counter) :=
  inferInstanceAs (Decidable (_ → _))

/-! The handler carries out the plan. -/

theorem sub_uint32_value (a b : UInt32) : (sub .uint32 a.toNat b.toNat).value = (a-b).toNat := by
  rw [UInt32.toNat_sub]
  simp only [sub, CType.size, Nat.add_comm]

theorem remainingTicks_value (settings : TimerSettings) (counter : UInt32) :
    (sub .uint32 settings.masterArr.toNat counter.toNat).value = (remainingTicks settings counter).toNat := by
  rw [remainingTicks, ← sub_uint32_value, UInt16.toNat_toUInt32]

theorem remainingUs_toNat (settings : TimerSettings) (counter : UInt32) :
    (remainingUs settings counter).toNat =
      ((remainingTicks settings counter).toNat*(settings.masterPsc.toNat+1)/timerClockFreqMhz)%2^32 := by
  have hproduct := Nat.mul_le_mul (Nat.le_of_lt (remainingTicks settings counter).toNat_lt) settings.masterPsc.toNat_lt
  have hnext : (settings.masterPsc.toUInt64+1).toNat = settings.masterPsc.toNat+1 := by
    have hpsc := settings.masterPsc.toNat_lt
    rw [UInt64.toNat_add, UInt16.toNat_toUInt64]
    exact Nat.mod_eq_of_lt (by simp only [UInt64.toNat_one]; omega)
  have hmhz : (UInt64.ofNat timerClockFreqMhz).toNat = timerClockFreqMhz := rfl
  rw [remainingUs, UInt64.toNat_toUInt32, UInt64.toNat_div, UInt64.toNat_mul, hnext, UInt32.toNat_toUInt64, hmhz,
    Nat.mod_eq_of_lt (Nat.lt_of_le_of_lt hproduct (by decide))]

theorem strobePlan_value (settings : TimerSettings) (counter : UInt32) :
    (strobePlan settings counter.toNat).value =
      if counter < settings.masterInitialCounter.toUInt32 then .duringPulse
      else
        let total := remainingUs settings counter+settings.onTimeInUs.toUInt32
        if (maxIrLedOnTimeUs .diamond).toUInt32 < total then
          .earlier (settings.masterArr.toUInt32-(remainingTicks settings counter-settings.masterMaxIrLedsTick)).toNat
        else .now total.toNat := by
  have hearly := sub_uint32_value (remainingTicks settings counter) settings.masterMaxIrLedsTick
  have hcounter := sub_uint32_value settings.masterArr.toUInt32
    (remainingTicks settings counter-settings.masterMaxIrLedsTick)
  rw [UInt16.toNat_toUInt32] at hcounter
  simp only [strobePlan, UInt32.lt_iff_toNat_lt, UInt16.toNat_toUInt32, UInt32.toNat_add, remainingUs_toNat]
  split
  · rfl
  · simp only [bind_value, remainingTicks_value, conv, add, CType.size]
    split
    · rw [bind_value, bind_value, hearly, hcounter]
      rfl
    · rfl

/-- The steps of the handler are those of the plan, whether they are exact or not. -/
theorem rgbIrStrobeIsr_rising (counter : UInt32) (s : IrCameraState) :
    rgbIrStrobeIsr true counter s = (strobePlan s.settings counter.toNat).value.carryOut s := by
  rw [strobePlan_value, rgbIrStrobeIsr, if_neg (by decide)]
  dsimp only
  split
  · rfl
  · split
    · rw [StrobePlan.carryOut, UInt32.ofNat_toNat]
    · rw [StrobePlan.carryOut, UInt32.ofNat_toNat]

/-! Where it is exact. -/

variable {n : Nat}

/-- Up to the comparison with the maximal length every step is exact. -/
theorem strobePlan_split (hcounter : n ≤ settings.masterArr.toNat)
    (hinitial : settings.masterInitialCounter.toNat ≤ n) :
    let remaining := settings.masterArr.toNat-n
    let total := remaining*(settings.masterPsc.toNat+1)/timerClockFreqMhz+settings.onTimeInUs.toNat
    strobePlan settings n =
      if (maxIrLedOnTimeUs .diamond).toNat < total then do
        let early ← sub .uint32 remaining settings.masterMaxIrLedsTick.toNat
        pure (.earlier (← sub .uint32 settings.masterArr.toNat early))
      else pure (.now total) := by
  have harr := settings.masterArr.toNat_lt
  have hon := settings.onTimeInUs.toNat_lt
  have hproduct : (settings.masterArr.toNat-n)*(settings.masterPsc.toNat+1) ≤ 2^16*2^16 :=
    Nat.mul_le_mul (by omega) settings.masterPsc.toNat_lt
  have hus : (settings.masterArr.toNat-n)*(settings.masterPsc.toNat+1)/timerClockFreqMhz ≤ 2^32/170 :=
    Nat.div_le_div_right hproduct
  dsimp only
  rw [strobePlan, if_neg (Nat.not_lt.mpr hinitial), sub_exact hcounter (by simp only [CType.size]; omega), pure_bind,
    conv_exact (by simp only [CType.limit]; omega), pure_bind, add_exact (by simp only [CType.limit]; omega), pure_bind]

/-- A counter for the master timer is right exactly if no more is left of it than what it goes on by. -/
theorem early_iff {remaining arr : Nat} (maxTicks : Nat) (hremaining : remaining ≤ arr) (harr : arr < 2^32) :
    let plan : Calc StrobePlan := do
      let early ← sub .uint32 remaining maxTicks
      pure (.earlier (← sub .uint32 arr early))
    (plan.exact = true ∧ ∀ counter, plan.value = .earlier counter → arr-remaining ≤ counter ∧ counter ≤ arr) ↔
      maxTicks ≤ remaining := by
  intro plan
  constructor
  · rintro ⟨hexact, -⟩
    simp only [plan, bind, Bool.and_eq_true] at hexact
    exact of_decide_eq_true hexact.1
  · intro hle
    have hplan : plan = pure (.earlier (arr-(remaining-maxTicks))) := by
      simp only [plan]
      rw [sub_exact hle (by simp only [CType.size]; omega), pure_bind,
        sub_exact (by omega) (by simp only [CType.size]; omega), pure_bind]
    rw [hplan]
    refine ⟨rfl, ?_⟩
    rintro _ ⟨⟩
    exact ⟨by omega, by omega⟩

/-- At a counter up to the auto-reload value the handler's steps are exact and what it sets is in range, exactly if the
rest of the period leaves room for what it chooses. -/
theorem strobe_in_range_iff (s : IrCameraState) (counter : UInt32) (hcounter : counter.toNat ≤ s.settings.masterArr.toNat) :
    let plan := strobePlan s.settings counter.toNat
    rgbIrStrobeIsr true counter s = plan.value.carryOut s ∧
      (plan.exact = true ∧ plan.value.InRange s.settings counter.toNat ↔ LeavesRoom s.settings counter.toNat) := by
  intro plan
  refine ⟨rgbIrStrobeIsr_rising counter s, ?_⟩
  have harr := s.settings.masterArr.toNat_lt
  by_cases hpulse : counter.toNat < s.settings.masterInitialCounter.toNat
  · have hplan : plan = pure .duringPulse := if_pos hpulse
    rw [hplan]
    exact ⟨fun _ hinitial => absurd hpulse (Nat.not_lt.mpr hinitial), fun _ => ⟨rfl, trivial⟩⟩
  · have hinitial := Nat.not_lt.mp hpulse
    have hplan : plan = _ := strobePlan_split hcounter hinitial
    rw [LeavesRoom, forall_prop_of_true hinitial, hplan]
    split
    · next hlong =>
      have hearly := early_iff s.settings.masterMaxIrLedsTick.toNat
        (Nat.sub_le s.settings.masterArr.toNat counter.toNat) (by omega)
      rw [Nat.sub_sub_self hcounter] at hearly
      rw [or_iff_right (Nat.not_le.mpr hlong)]
      refine Iff.trans ?_ hearly
      exact and_congr_right fun _ => ⟨fun hrange c hc => by rw [hc] at hrange; exact hrange, fun h => h _ rfl⟩
    · next hshort =>
      have hfits := Nat.not_lt.mp hshort
      exact ⟨fun _ => .inl hfits, fun _ => ⟨rfl, hfits⟩⟩

/-- 30 frames a second and an on-time of a millisecond. -/
def strobeState : IrCameraState where
  settings := (Machine.run (timerStep .diamond) {} [.fromOnTimeUs 1000, .fromFps 30]).2

/-- Ten milliseconds before the end of the period. -/
theorem strobe_in_range_early :
    let plan := strobePlan strobeState.settings (UInt32.ofNat 45600).toNat
    rgbIrStrobeIsr true (.ofNat 45600) strobeState = plan.value.carryOut strobeState ∧
      (plan.exact = true ∧ plan.value.InRange strobeState.settings (UInt32.ofNat 45600).toNat ↔
        LeavesRoom strobeState.settings (UInt32.ofNat 45600).toNat) :=
  strobe_in_range_iff strobeState (.ofNat 45600) (by decide +kernel)

/-- Seven milliseconds before the end of the period there is no room for the maximal pulse: the subtraction wraps
around. -/
theorem strobe_underflows :
    ¬ ((strobePlan strobeState.settings 51456).exact = true ∧
      (strobePlan strobeState.settings 51456).value.InRange strobeState.settings 51456) := by
  rintro ⟨hexact, -⟩
  have hinexact : (strobePlan strobeState.settings 51456).exact = false := by decide +kernel
  rw [hinexact] at hexact
  contradiction

example : (strobePlan strobeState.settings 45600).value = .earlier 60255 ∧
    (strobePlan strobeState.settings 60000).value = .now 3627 ∧
    (strobePlan strobeState.settings 51456).value = .earlier 66111 := by decide +kernel

end OrbFirmware.IrCamera

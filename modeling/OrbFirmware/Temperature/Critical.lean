import OrbFirmware.Machine
import OrbFirmware.Temperature.Sensors

/-! The critical timers of the sensors, which share one time stamp: when `overtemp_callback` reboots the orb, over any
calls of it. -/
namespace OrbFirmware.Temperature
open Machine
variable {ι : Type*} [DecidableEq ι]

/-- A call of `overtemp_callback`: the time since the clock was last read, the time between its own two readings, and
the sampling period of a window, which is never zero. -/
structure Call (ι : Type*) where
  sensor : ι
  average : Int32
  elapsed : Nat
  duration : Nat
  windowMs : UInt32
  windowMs_pos : 0 < windowMs

/-- The data of the sensors, the `static` variable of the callback, and the clock. -/
structure Overtemp (ι : Type*) where
  infos : ι → OvertempInfo
  lastSystemTime : Nat
  now : Nat
  rebooted : Bool

def Call.clock (c : Call ι) (now : Nat) : Clock := ⟨now+c.elapsed, now+c.elapsed+c.duration, c.windowMs⟩

/-- Nothing is called after a reboot. -/
def overtempStep (s : Overtemp ι) (c : Call ι) : Option OvertempResult × Overtemp ι :=
  if s.rebooted then (none, s)
  else
    let (result, lastSystemTime, info) :=
      overtempCallback (c.clock s.now) s.lastSystemTime c.average (s.infos c.sensor)
    (some result,
      { infos := Function.update s.infos c.sensor info
        lastSystemTime
        now := s.now+c.elapsed+c.duration
        rebooted := decide (result = .reboot) })

def overtempStart (overtempC : ι → Int32) : Overtemp ι where
  infos i := ⟨overtempC i, false, 0⟩
  lastSystemTime := 0
  now := 0
  rebooted := false

/-- The reports of a sensor since it has been critical in each of them: when the first and the last were, the period at
the last, the periods of all together, and the time from a report of the sensor to the last one of any critical
sensor before its next. -/
structure Streak where
  since : Nat
  last : Nat
  window : Nat
  nominal : Nat
  missed : Nat

def Streak.span (s : Streak) : Nat := s.last-s.since

def Streak.start (uptime window : Nat) : Streak := ⟨uptime, uptime, window, window, 0⟩

def Streak.report (s : Streak) (uptime window lastCritical : Nat) : Streak :=
  { s with last := uptime, window, nominal := s.nominal+window, missed := s.missed+(lastCritical-s.last) }

/-- The delay is over, but for a period. -/
def Streak.Due (s : Streak) : Prop := criticalToShutdownDelayMs.toNat < s.span+s.window

/-- The delay has been over for a period. -/
def Streak.Overdue (s : Streak) : Prop := criticalToShutdownDelayMs.toNat+s.window < s.span

/-- The span with the periods, without the missed time, is above the delay. -/
def Streak.Exceeds (s : Streak) : Prop := criticalToShutdownDelayMs.toNat+s.missed < s.nominal+s.span

/-- The callback with the streaks of the sensors, and the time of the last critical report. -/
structure Watched (ι : Type*) where
  overtemp : Overtemp ι
  streaks : ι → Option Streak
  lastCritical : Nat

def Watched.Critical (w : Watched ι) (c : Call ι) : Prop :=
  (w.overtemp.infos c.sensor).overtempC.toInt+overtempToCriticalRiseC < c.average.toInt

instance (w : Watched ι) (c : Call ι) : Decidable (w.Critical c) := inferInstanceAs (Decidable (_ < _))

/-- What the callback returns and leaves. -/
def Watched.callback (w : Watched ι) (c : Call ι) : OvertempResult × Nat × OvertempInfo :=
  overtempCallback (c.clock w.overtemp.now) w.overtemp.lastSystemTime c.average (w.overtemp.infos c.sensor)

/-- The streak of the sensor that reports. -/
def Watched.streak (w : Watched ι) (c : Call ι) : Option Streak :=
  if w.Critical c then
    match w.streaks c.sensor with
    | none => some (.start (w.overtemp.now+c.elapsed) c.windowMs.toNat)
    | some s => some (s.report (w.overtemp.now+c.elapsed) c.windowMs.toNat w.lastCritical)
  else none

def Watched.streaksAfter (w : Watched ι) (c : Call ι) : ι → Option Streak :=
  Function.update w.streaks c.sensor (w.streak c)

def Watched.lastCriticalAfter (w : Watched ι) (c : Call ι) : Nat :=
  if w.Critical c then
    match w.streaks c.sensor with
    | none => w.overtemp.now+c.elapsed
    | some _ => w.overtemp.now+c.elapsed+c.duration
  else w.lastCritical

def watchedStep (w : Watched ι) (c : Call ι) : Option OvertempResult × Watched ι :=
  ((overtempStep w.overtemp c).1,
    if w.overtemp.rebooted then w
    else ⟨(overtempStep w.overtemp c).2, w.streaksAfter c, w.lastCriticalAfter c⟩)

def watchedStart (overtempC : ι → Int32) : Watched ι := ⟨overtempStart overtempC, fun _ => none, 0⟩

/-- There has been a critical reboot if and only if the span of a streak is above the delay, within one period. -/
structure RebootsWhenDue (w : Watched ι) : Prop where
  overdue : (∃ i, ∃ s ∈ w.streaks i, s.Overdue) → w.overtemp.rebooted = true
  due : w.overtemp.rebooted = true → ∃ i, ∃ s ∈ w.streaks i, s.Due

/-- The periods that are counted beside the measured time, and the time that is missed, do not carry the streak over
the delay before any streak is due, nor keep it below when it is overdue. -/
def Balanced (w : Watched ι) (c : Call ι) : Prop :=
  w.overtemp.rebooted = false → ∀ s ∈ w.streak c,
    (s.Exceeds → ∃ i, ∃ s ∈ w.streaksAfter c i, s.Due) ∧ (s.Overdue → s.Exceeds)

/-- What is counted fits the 32 bits of the timer. -/
def TimerFits (w : Watched ι) (c : Call ι) : Prop :=
  w.overtemp.rebooted = false → ∀ s ∈ w.streak c, s.nominal+s.span < s.missed+2^32

instance (w : Watched ι) (c : Call ι) : Decidable (TimerFits w c) :=
  inferInstanceAs (Decidable (_ → ∀ s ∈ w.streak c, s.nominal+s.span < s.missed+2^32))

/-- What the callback does with the timer, whether it is critical or not. -/
theorem overtempCallback_timer (clock : Clock) (lastSystemTime : Nat) (average : Int32) (info : OvertempInfo) :
    let timer := if info.overtempC.toInt+overtempToCriticalRiseC < average.toInt then
      criticalTimerStep clock lastSystemTime info.criticalTimer else (0, lastSystemTime)
    let (result, stamp, info') := overtempCallback clock lastSystemTime average info
    stamp = timer.2 ∧ info'.criticalTimer = timer.1 ∧
      (result = .reboot ↔ info.overtempC.toInt+overtempToCriticalRiseC < average.toInt ∧
        criticalToShutdownDelayMs < timer.1) := by
  unfold overtempCallback
  split_ifs with hcritical <;> grind

/-- The timer of a further report, where it does not wrap. -/
theorem criticalTimerStep_further (clock : Clock) (lastSystemTime : Nat) {timer : UInt32} (hne : 0 < timer.toNat)
    (hfits : timer.toNat+(clock.uptime-lastSystemTime)+clock.windowMs.toNat < 2^32) :
    (criticalTimerStep clock lastSystemTime timer).1.toNat =
        timer.toNat+(clock.uptime-lastSystemTime)+clock.windowMs.toNat ∧
      (criticalTimerStep clock lastSystemTime timer).2 = clock.uptimeAfter := by
  have hzero : timer ≠ 0 := by
    rintro rfl
    exact absurd hne (by decide)
  simp only [criticalTimerStep, hzero, if_false, and_true, UInt32.toNat_add, UInt32.toNat_ofNat']
  omega

/-- The timer of a streak: the periods and the measured time, without the missed one. -/
def TimerHolds (lastCritical : Nat) (timer : UInt32) : Option Streak → Prop
  | none => timer = 0
  | some s => 0 < timer.toNat ∧ timer.toNat+s.missed = s.nominal+s.span ∧ s.since ≤ s.last ∧ s.last ≤ lastCritical

structure Counts (w : Watched ι) : Prop where
  timers : ∀ i, TimerHolds w.lastCritical (w.overtemp.infos i).criticalTimer (w.streaks i)
  lastCritical : w.lastCritical = w.overtemp.lastSystemTime
  now : w.lastCritical ≤ w.overtemp.now

variable {w : Watched ι} {c : Call ι} {lastCritical lastCritical' : Nat} {timer : UInt32}

theorem TimerHolds.mono {streak : Option Streak} (h : TimerHolds lastCritical timer streak)
    (hle : lastCritical ≤ lastCritical') : TimerHolds lastCritical' timer streak := by
  cases streak with
  | none => exact h
  | some s => exact ⟨h.1, h.2.1, h.2.2.1, Nat.le_trans h.2.2.2 hle⟩

omit [DecidableEq ι] in
theorem Counts.lastCriticalAfter (h : Counts w) (c : Call ι) :
    w.lastCritical ≤ w.lastCriticalAfter c ∧
      w.lastCriticalAfter c ≤ w.overtemp.now+c.elapsed+c.duration := by
  have hnow := h.now
  unfold Watched.lastCriticalAfter
  split_ifs
  · cases w.streaks c.sensor <;> dsimp only <;> omega
  · omega

omit [DecidableEq ι] in
theorem Watched.callback_timer (w : Watched ι) (c : Call ι) :
    let timer := if w.Critical c then
      criticalTimerStep (c.clock w.overtemp.now) w.overtemp.lastSystemTime (w.overtemp.infos c.sensor).criticalTimer
      else (0, w.overtemp.lastSystemTime)
    (w.callback c).2.1 = timer.2 ∧ (w.callback c).2.2.criticalTimer = timer.1 ∧
      ((w.callback c).1 = .reboot ↔ w.Critical c ∧ criticalToShutdownDelayMs < timer.1) :=
  overtempCallback_timer _ _ _ _

omit [DecidableEq ι] in
/-- The callback of the sensor that reports: its timer counts the streak, and the stamp is the last critical time. -/
theorem Counts.callback (h : Counts w) (hfits : ∀ s ∈ w.streak c, s.nominal+s.span < s.missed+2^32) :
    TimerHolds (w.lastCriticalAfter c) (w.callback c).2.2.criticalTimer (w.streak c) ∧
      (w.callback c).2.1 = w.lastCriticalAfter c := by
  obtain ⟨hstamp, htimer, -⟩ := w.callback_timer c
  rw [hstamp, htimer]
  have hbefore := h.timers c.sensor
  by_cases hcritical : w.Critical c
  · simp only [Watched.streak, Watched.lastCriticalAfter, if_pos hcritical] at hfits ⊢
    cases hstreak : w.streaks c.sensor with
    | none =>
      rw [hstreak] at hbefore
      have hzero : (w.overtemp.infos c.sensor).criticalTimer = 0 := hbefore
      have hpos := UInt32.lt_iff_toNat_lt.mp c.windowMs_pos
      simp only [criticalTimerStep, hzero, if_true, Call.clock, and_true, TimerHolds, Streak.start, Streak.span,
        UInt32.zero_add]
      exact ⟨hpos, by omega, Nat.le_refl _, Nat.le_refl _⟩
    | some s =>
      rw [hstreak] at hbefore
      obtain ⟨hpos, hcounts, hsince, hlast⟩ := hbefore
      have hnow := h.now
      have hfits' := hfits _ (by rw [hstreak]; rfl)
      simp only [Streak.report, Streak.span] at hfits' hcounts
      have hstep := criticalTimerStep_further (c.clock w.overtemp.now) w.lastCritical hpos
        (by simp only [Call.clock]; omega)
      rw [← h.lastCritical]
      simp only [Call.clock] at hstep ⊢
      refine ⟨⟨by omega, ?_, ?_, Nat.le_add_right _ _⟩, hstep.2⟩
      · simp only [Streak.report, Streak.span]
        omega
      · simp only [Streak.report]
        omega
  · simp only [if_neg hcritical, Watched.streak, Watched.lastCriticalAfter]
    exact ⟨rfl, h.lastCritical.symm⟩

omit [DecidableEq ι] in
/-- The callback reboots if and only if it has counted the streak beyond the delay. -/
theorem Counts.reboots_iff (h : Counts w) (hfits : ∀ s ∈ w.streak c, s.nominal+s.span < s.missed+2^32) :
    (w.callback c).1 = .reboot ↔ ∃ s ∈ w.streak c, s.Exceeds := by
  have htimer := (h.callback hfits).1
  obtain ⟨-, hcounted, hreboot⟩ := w.callback_timer c
  rw [hreboot, ← hcounted, UInt32.lt_iff_toNat_lt]
  cases hstreak : w.streak c with
  | none =>
    rw [hstreak] at htimer
    have hzero : (w.callback c).2.2.criticalTimer = 0 := htimer
    simp [hzero]
  | some s =>
    rw [hstreak] at htimer
    obtain ⟨-, hcounts, -, -⟩ := htimer
    have hcritical : w.Critical c := by
      by_contra hnot
      simp [Watched.streak, hnot] at hstreak
    simp only [hcritical, true_and, Option.mem_some_iff, exists_eq_left', Streak.Exceeds]
    omega

/-- One step where the orb has not been rebooted. -/
theorem watchedStep_running (hrunning : w.overtemp.rebooted = false) (c : Call ι) :
    (watchedStep w c).2 =
      { overtemp :=
          { infos := Function.update w.overtemp.infos c.sensor (w.callback c).2.2
            lastSystemTime := (w.callback c).2.1
            now := w.overtemp.now+c.elapsed+c.duration
            rebooted := decide ((w.callback c).1 = .reboot) }
        streaks := w.streaksAfter c
        lastCritical := w.lastCriticalAfter c } := by
  simp only [watchedStep, overtempStep, hrunning, Bool.false_eq_true, if_false]
  rfl

theorem Counts.step (h : Counts w) (hrunning : w.overtemp.rebooted = false)
    (hfits : ∀ s ∈ w.streak c, s.nominal+s.span < s.missed+2^32) : Counts (watchedStep w c).2 := by
  obtain ⟨htimer, hstamp⟩ := h.callback hfits
  obtain ⟨hle, hnow⟩ := h.lastCriticalAfter c
  rw [watchedStep_running hrunning]
  refine ⟨fun i => ?_, hstamp.symm, hnow⟩
  by_cases hi : i = c.sensor
  · subst hi
    simpa [Watched.streaksAfter] using htimer
  · simpa [Watched.streaksAfter, hi] using (h.timers i).mono hle

theorem Counts.rebooted_iff (h : Counts w) (hrunning : w.overtemp.rebooted = false)
    (hfits : ∀ s ∈ w.streak c, s.nominal+s.span < s.missed+2^32) :
    (watchedStep w c).2.overtemp.rebooted = true ↔ ∃ s ∈ w.streak c, s.Exceeds := by
  rw [watchedStep_running hrunning, ← h.reboots_iff hfits, decide_eq_true_iff]

/-- What holds between the calls. -/
structure CriticalInv (w : Watched ι) : Prop where
  counts : w.overtemp.rebooted = false → Counts w
  rebootsWhenDue : RebootsWhenDue w

theorem watchedStep_rebooted (hrebooted : w.overtemp.rebooted = true) (c : Call ι) : (watchedStep w c).2 = w := by
  simp [watchedStep, hrebooted]

theorem CriticalInv.step (h : CriticalInv w) (hfits : TimerFits w c) (hdue : RebootsWhenDue (watchedStep w c).2) :
    CriticalInv (watchedStep w c).2 := by
  refine ⟨fun hafter => ?_, hdue⟩
  cases hrebooted : w.overtemp.rebooted with
  | true =>
    rw [watchedStep_rebooted hrebooted, hrebooted] at hafter
    contradiction
  | false => exact (h.counts hrebooted).step hrebooted (hfits hrebooted)

/-- A call reboots the orb when it is due if and only if what it counts is balanced. -/
theorem CriticalInv.rebootsWhenDue_iff (h : CriticalInv w) (hfits : TimerFits w c) :
    RebootsWhenDue (watchedStep w c).2 ↔ Balanced w c := by
  cases hrebooted : w.overtemp.rebooted with
  | true =>
    rw [watchedStep_rebooted hrebooted]
    refine ⟨fun _ hnot => ?_, fun _ => h.rebootsWhenDue⟩
    rw [hrebooted] at hnot
    contradiction
  | false =>
    have hreboots := (h.counts hrebooted).rebooted_iff hrebooted (hfits hrebooted)
    have hstreaks : (watchedStep w c).2.streaks = w.streaksAfter c := by rw [watchedStep_running hrebooted]
    have hsensor : w.streaksAfter c c.sensor = w.streak c := by simp [Watched.streaksAfter]
    constructor
    · intro hdue _ s hs
      constructor
      · intro hexceeds
        rw [← hstreaks]
        exact hdue.due (hreboots.mpr ⟨s, hs, hexceeds⟩)
      · intro hover
        have hoverdue := hdue.overdue ⟨c.sensor, s, by rw [hstreaks, hsensor]; exact hs, hover⟩
        obtain ⟨s', hs', hexceeds⟩ := hreboots.mp hoverdue
        rwa [Option.mem_unique hs hs']
    · intro hbalanced
      constructor
      · rintro ⟨i, s, hs, hover⟩
        rw [hstreaks] at hs
        by_cases hi : i = c.sensor
        · rw [hi, hsensor] at hs
          exact hreboots.mpr ⟨s, hs, (hbalanced hrebooted s hs).2 hover⟩
        · have hbefore : s ∈ w.streaks i := by simpa [Watched.streaksAfter, hi] using hs
          have hearlier := h.rebootsWhenDue.overdue ⟨i, s, hbefore, hover⟩
          rw [hrebooted] at hearlier
          contradiction
      · intro hafter
        obtain ⟨s, hs, hexceeds⟩ := hreboots.mp hafter
        rw [hstreaks]
        exact (hbalanced hrebooted s hs).1 hexceeds

/-- In every run whose timers fit their 32 bits, the orb is rebooted exactly when the streak of a sensor is above the
delay, if and only if every call is balanced. -/
theorem critical_reboots_iff (overtempC : ι → Int32) (calls : List (Call ι))
    (hfits : Meets watchedStep TimerFits (watchedStart overtempC) calls) :
    Meets watchedStep (fun w c => RebootsWhenDue (watchedStep w c).2) (watchedStart overtempC) calls ↔
      Meets watchedStep Balanced (watchedStart overtempC) calls := by
  have hstart : CriticalInv (watchedStart overtempC) :=
    ⟨fun _ => ⟨fun _ => rfl, rfl, Nat.le_refl 0⟩, ⟨nofun, nofun⟩⟩
  exact meets_congr (fun w c h hok hdue => h.step hok hdue) (fun w c h hok => h.rebootsWhenDue_iff hok) _ calls hstart
    hfits

/-- The first of two sensors reports 66 °C every second, with the sampling period from the start. -/
def everySecond : List (Call (Fin 2)) := List.replicate 6 ⟨0, 66, 1000, 0, 999, by decide⟩

/-- The orb is rebooted after five seconds. -/
theorem reboots_early : ¬∀ (overtempC : Fin 2 → Int32) (calls : List (Call (Fin 2))),
    Meets watchedStep (fun w c => RebootsWhenDue (watchedStep w c).2) (watchedStart overtempC) calls := by
  intro h
  obtain ⟨-, -, -, -, -, hlast, -⟩ := h (fun _ => 60) everySecond
  obtain ⟨i, s, hs, hdue⟩ := hlast.due (by decide)
  have hearly : ∀ i : Fin 2, ∀ s ∈ (run watchedStep (watchedStart fun _ => 60) everySecond).2.streaks i,
      s.span+s.window ≤ criticalToShutdownDelayMs.toNat := by decide
  exact absurd hdue (Nat.not_lt.mpr (hearly i s hs))

/-- Two sensors report every six seconds, and the orb is rebooted at the second report of the first one. -/
theorem critical_reboots_iff_slow :
    let calls : List (Call (Fin 2)) := [⟨0, 66, 6000, 0, 6000, by decide⟩, ⟨1, 66, 1, 0, 6000, by decide⟩,
      ⟨0, 66, 5999, 0, 6000, by decide⟩]
    Meets watchedStep (fun w c => RebootsWhenDue (watchedStep w c).2) (watchedStart fun _ => 60) calls ↔
      Meets watchedStep Balanced (watchedStart fun _ => 60) calls :=
  critical_reboots_iff (fun _ => 60) _ (by decide)

end OrbFirmware.Temperature

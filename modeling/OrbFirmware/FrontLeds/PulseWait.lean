import OrbFirmware.IrCamera.Proximity

/-! The front LED thread of Pearl, which updates its strip between two pulses of the IR LEDs: what it reads before it
waits for the end of one, and who wakes it. -/
namespace OrbFirmware.FrontLeds
open IrCamera
variable {ι : Type} [DecidableEq ι] {number : Wavelength → UInt32} {maxFocus : Nat}

/-- `LED_STRIP_MAXIMUM_UPDATE_TIME_US`. -/
def ledStripMaximumUpdateTimeUs : UInt32 := 10000

/-- Where the thread stands: at its take of `leds_update_sem`; about to read the wavelength, the time or the frame
rate; about to store `wait_for_interrupt`, to test it, to take `leds_wait_for_trigger`; or updating the strip. -/
inductive FrontLedsPc where
  | idle
  | enabledLeds
  | timeUntilUpdate
  | fps
  | store (wait : Bool)
  | test
  | wait
  | update
  deriving DecidableEq

/-- `ledCounter` says which LED timers count and `ledInterrupt` which interrupts are pending; `otherHolds` that
another function has `leds_update_sem`. -/
structure PulseWait (ι : Type) where
  system : ProximityState ι := {}
  ledCounter : LedTimer → Bool := fun _ => false
  ledInterrupt : LedTimer → Bool := fun _ => false
  ledsUpdateSem : Bool := true
  otherHolds : Bool := false
  finalDone : Bool := false
  waitForInterrupt : Bool := false
  ledsWaitForTrigger : Bool := false
  thread : FrontLedsPc := .idle

/-- A step of the IR camera system, or of the thread with the counter of the master timer; the start and the end of a
pulse, and the interrupt behind it; or another function with `leds_update_sem`. -/
inductive FrontLedsAction (ι : Type) where
  | system (a : ProximityAction ι)
  | thread (counter : UInt32)
  | masterUpdate
  | ledUpdate (timer : LedTimer)
  | interrupt (timer : LedTimer)
  | takeUpdateSem
  | giveUpdateSem (finalDone : Bool)

/-- `ir_camera_system_get_time_until_update_us`. -/
def irCameraSystemGetTimeUntilUpdateUs (settings : TimerSettings) (counter : UInt32) : UInt32 :=
  (settings.masterPsc.toUInt32+1)*remainingTicks settings counter/.ofNat timerClockFreqMhz

def frontLedsNotifyIrLedsOff (s : PulseWait ι) : PulseWait ι :=
  if s.waitForInterrupt then { s with ledsWaitForTrigger := true, waitForInterrupt := false } else s

/-- Neither LED timer counts. -/
def PulseWait.ledTimersOff (s : PulseWait ι) : Bool := !s.ledCounter .nm850 && !s.ledCounter .nm940

def irLedsPulseFinishedIsr (s : PulseWait ι) : PulseWait ι :=
  if s.ledTimersOff then frontLedsNotifyIrLedsOff s else s

/-- An update of the master timer starts both LED timers. -/
def startLedTimers (s : PulseWait ι) : PulseWait ι := { s with ledCounter := fun _ => true }

/-- What a call of the IR camera system does to the LED timers and to the thread. -/
def irEvent (s : PulseWait ι) : IrEvent → PulseWait ι
  | .pulseFinished => irLedsPulseFinishedIsr s
  | .masterUpdate => startLedTimers s
  | .ledAutoReload _ _ _ _ => s

/-- `front_leds_thread` from its take of `leds_update_sem` to the give. `number` numbers the wavelengths as the
generated enumeration does. -/
def threadStep (number : Wavelength → UInt32) (counter : UInt32) (s : PulseWait ι) : PulseWait ι :=
  let ir := s.system.ir
  match s.thread with
  | .idle =>
    if s.ledsUpdateSem then
      { s with ledsUpdateSem := false, thread := if s.finalDone then .idle else .enabledLeds }
    else s
  | .enabledLeds =>
    { s with thread := if number .nm740 < number ir.enabledLedWavelength then .timeUntilUpdate else .store false }
  | .timeUntilUpdate =>
    { s with
      thread :=
        if irCameraSystemGetTimeUntilUpdateUs ir.settings counter < ledStripMaximumUpdateTimeUs then .fps
        else .store false }
  | .fps => { s with thread := .store (decide (0 < ir.settings.fps)) }
  | .store wait => { s with waitForInterrupt := wait, thread := .test }
  | .test => { s with thread := if s.waitForInterrupt then .wait else .update }
  | .wait => if s.ledsWaitForTrigger then { s with ledsWaitForTrigger := false, thread := .update } else s
  | .update => { s with ledsUpdateSem := true, thread := .idle }

def frontLedsStep (number : Wavelength → UInt32) (maxFocus : Nat) (s : PulseWait ι) :
    FrontLedsAction ι → List IrEvent × PulseWait ι
  | .system a =>
    let (events, system) := proximityStep maxFocus s.system a
    (events, events.foldl irEvent { s with system := system })
  | .thread counter => ([], threadStep number counter s)
  | .masterUpdate => ([], if s.system.ir.masterEnabled then startLedTimers s else s)
  | .ledUpdate timer =>
    ([], { s with
      ledCounter := Function.update s.ledCounter timer false
      ledInterrupt := Function.update s.ledInterrupt timer
        (s.ledInterrupt timer || s.system.ir.updateInterrupt timer) })
  | .interrupt timer =>
    ([], if s.ledInterrupt timer then
        irLedsPulseFinishedIsr { s with ledInterrupt := Function.update s.ledInterrupt timer false }
      else s)
  | .takeUpdateSem => ([], if s.ledsUpdateSem then { s with ledsUpdateSem := false, otherHolds := true } else s)
  | .giveUpdateSem finalDone =>
    ([], if s.otherHolds then
        { s with ledsUpdateSem := true, otherHolds := false, finalDone := s.finalDone || finalDone }
      else s)

/-- No IR LED pulse will occur any more. -/
def NoPulse (ir : IrCameraState) : Prop :=
  ir.settings.fps = 0 ∨ ir.settings.onTimeInUs = 0 ∨ ir.enabledLedWavelength = .none

/-- The thread waits for a trigger that nobody will give. -/
structure Hangs (s : PulseWait ι) : Prop where
  waits : s.thread = .wait
  trigger : s.ledsWaitForTrigger = false
  holds : s.ledsUpdateSem = false
  calls : ∀ thread, s.system.pc thread = .idle
  noPulse : NoPulse s.system.ir

/-! When it does not hang. -/

/-- The call has its `ir_leds_enable_pulse` to come. -/
def applies : CallPc → Bool
  | .apply | .enableLeds | .applySettling | .ledsSettling => true
  | _ => false

def pulseOff (ir : IrCameraState) : Bool := ir.settings.onTimeInUs = 0 || ir.enabledLedWavelength = .none

/-- The critical section of the call will leave the LEDs off; it looks at the distance only before it sleeps. -/
def stopsPulse (pc : CallPc) (ir : IrCameraState) : Bool :=
  pulseOff ir || (pc = .apply || pc = .enableLeds) && !distanceIsSafe .pearl ir

/-- The thread has decided to wait, and has not been triggered since. -/
def Decided (s : PulseWait ι) : Prop :=
  (s.thread = .test ∨ s.thread = .wait) ∧ s.waitForInterrupt = true ∧ s.ledsWaitForTrigger = false

/-- Nobody will wake the thread, once the calls that are still before their first look at the settings are over. -/
def Abandoned (s : PulseWait ι) : Prop :=
  Decided s ∧ NoPulse s.system.ir ∧ ∀ thread, applies (s.system.pc thread) = false

/-- The thread decides to wait only where a pulse or a critical section is still to come. Once it has, a critical
section that leaves the LEDs off, and the timeout, find the LED timers off; one that does not, a frame rate: or else
there is another critical section to come. -/
def Wakes (s : PulseWait ι) : FrontLedsAction ι → Prop
  | .thread _ =>
    s.thread = .store true → s.ledsWaitForTrigger = false →
      ¬NoPulse s.system.ir ∨ ∃ thread, applies (s.system.pc thread) = true
  | .system (.proceed thread) =>
    Decided s → applies (s.system.pc thread) = true →
      (if stopsPulse (s.system.pc thread) s.system.ir then s.ledTimersOff = true else s.system.ir.settings.fps ≠ 0) ∨
        ∃ other, other ≠ thread ∧ applies (s.system.pc other) = true
  | .system .timeout =>
    Decided s → s.system.ir.enabledLedWavelength ≠ .none →
      s.ledTimersOff = true ∨ ∃ thread, applies (s.system.pc thread) = true
  | _ => True

variable {s s' s'' : PulseWait ι} {ir : IrCameraState} {pc : CallPc}

instance (ir : IrCameraState) : Decidable (NoPulse ir) := by
  unfold NoPulse
  infer_instance

instance (s : PulseWait ι) : Decidable (Decided s) := by
  unfold Decided
  infer_instance

instance [Fintype ι] (s : PulseWait ι) (a : FrontLedsAction ι) : Decidable (Wakes s a) := by
  cases a with
  | thread counter =>
    unfold Wakes
    infer_instance
  | system a =>
    cases a with
    | proceed thread =>
      unfold Wakes
      infer_instance
    | timeout =>
      unfold Wakes
      infer_instance
    | _ => exact isTrue trivial
  | _ => exact isTrue trivial

/-! What the interrupts do to the thread. -/

/-- The thread may have been triggered, and nothing else that matters to it. -/
structure Interrupted (s s' : PulseWait ι) : Prop where
  thread : s'.thread = s.thread
  system : s'.system = s.system
  triggered : s'.waitForInterrupt = s.waitForInterrupt ∧ s'.ledsWaitForTrigger = s.ledsWaitForTrigger ∨
    s'.waitForInterrupt = false ∧ s'.ledsWaitForTrigger = true

omit [DecidableEq ι] in
theorem Interrupted.refl (s : PulseWait ι) : Interrupted s s := ⟨rfl, rfl, .inl ⟨rfl, rfl⟩⟩

omit [DecidableEq ι] in
theorem Interrupted.trans (h : Interrupted s s') (h' : Interrupted s' s'') : Interrupted s s'' where
  thread := h'.thread.trans h.thread
  system := h'.system.trans h.system
  triggered := by
    obtain ⟨hflag', hsem'⟩ | htriggered := h'.triggered
    · rw [hflag', hsem']
      exact h.triggered
    · exact .inr htriggered

omit [DecidableEq ι] in
theorem irLedsPulseFinishedIsr_interrupted (s : PulseWait ι) : Interrupted s (irLedsPulseFinishedIsr s) := by
  rw [irLedsPulseFinishedIsr, frontLedsNotifyIrLedsOff]
  split
  · split
    · exact ⟨rfl, rfl, .inr ⟨rfl, rfl⟩⟩
    · exact .refl s
  · exact .refl s

omit [DecidableEq ι] in
theorem irEvent_interrupted (s : PulseWait ι) (e : IrEvent) : Interrupted s (irEvent s e) := by
  cases e with
  | pulseFinished => exact irLedsPulseFinishedIsr_interrupted s
  | masterUpdate => exact ⟨rfl, rfl, .inl ⟨rfl, rfl⟩⟩
  | ledAutoReload timer value startDelay fps => exact .refl s

omit [DecidableEq ι] in
theorem events_interrupted (events : List IrEvent) (s : PulseWait ι) : Interrupted s (events.foldl irEvent s) := by
  induction events generalizing s with
  | nil => exact .refl s
  | cons e events ih => exact (irEvent_interrupted s e).trans (ih (irEvent s e))

omit [DecidableEq ι] in
theorem Interrupted.decided (h : Interrupted s s') (hdecided : Decided s') : Decided s := by
  obtain ⟨hthread, hflag, hsem⟩ := hdecided
  obtain ⟨hflag', hsem'⟩ | ⟨hflag', -⟩ := h.triggered
  · exact ⟨h.thread ▸ hthread, hflag' ▸ hflag, hsem' ▸ hsem⟩
  · exact absurd (hflag.symm.trans hflag') nofun

/-- The handler run by hand wakes the thread where it finds the LED timers off. -/
def WakesByHand (events : List IrEvent) : Prop :=
  ∃ before after, events = before ++ .pulseFinished :: after ∧ .masterUpdate ∉ before

omit [DecidableEq ι] in
theorem irEvent_ledTimersOff (e : IrEvent) (he : e ≠ .masterUpdate) (s : PulseWait ι) :
    (irEvent s e).ledTimersOff = s.ledTimersOff := by
  cases e with
  | pulseFinished =>
    rw [irEvent, irLedsPulseFinishedIsr, frontLedsNotifyIrLedsOff]
    split
    · split <;> rfl
    · rfl
  | masterUpdate => exact absurd rfl he
  | ledAutoReload timer value startDelay fps => rfl

omit [DecidableEq ι] in
theorem events_ledTimersOff (events : List IrEvent) (s : PulseWait ι) (hevents : .masterUpdate ∉ events) :
    (events.foldl irEvent s).ledTimersOff = s.ledTimersOff := by
  induction events generalizing s with
  | nil => rfl
  | cons e events ih =>
    rw [List.mem_cons, not_or] at hevents
    obtain ⟨hne, hrest⟩ := hevents
    rw [List.foldl_cons, ih (irEvent s e) hrest, irEvent_ledTimersOff e (Ne.symm hne)]

omit [DecidableEq ι] in
theorem WakesByHand.undecided {events : List IrEvent} (h : WakesByHand events) (hoff : s.ledTimersOff = true) :
    ¬Decided (events.foldl irEvent s) := by
  obtain ⟨before, after, rfl, hbefore⟩ := h
  rw [List.foldl_append, List.foldl_cons]
  intro hdecided
  have hisr := (events_interrupted after _).decided hdecided
  have hoff' := (events_ledTimersOff before s hbefore).trans hoff
  rw [irEvent, irLedsPulseFinishedIsr, if_pos hoff', frontLedsNotifyIrLedsOff] at hisr
  split at hisr
  · exact absurd hisr.2.1 nofun
  · next hflag => exact hflag hisr.2.1

omit [DecidableEq ι] in
/-- The LED timers on, no event wakes the thread. -/
theorem events_decided (events : List IrEvent) (s : PulseWait ι) (hdecided : Decided s)
    (hon : .pulseFinished ∈ events → s.ledTimersOff = false) : Decided (events.foldl irEvent s) := by
  induction events generalizing s with
  | nil => exact hdecided
  | cons e events ih =>
    rw [List.foldl_cons]
    cases e with
    | pulseFinished =>
      have hstill : irEvent s .pulseFinished = s := by
        rw [irEvent, irLedsPulseFinishedIsr, hon List.mem_cons_self]
        rfl
      rw [hstill]
      exact ih s hdecided fun hmem => hon (List.mem_cons_of_mem _ hmem)
    | masterUpdate => exact ih _ hdecided fun _ => rfl
    | ledAutoReload timer value startDelay fps =>
      exact ih s hdecided fun hmem => hon (List.mem_cons_of_mem _ hmem)

/-! What the calls do to the pulses. -/

theorem noPulse_iff : NoPulse ir ↔ ir.settings.fps = 0 ∨ pulseOff ir = true := by
  simp [NoPulse, pulseOff]

/-- A critical section up to its sleep, if it has one. -/
structure SetsPulse (ir : IrCameraState) (r : Bool × List IrEvent × IrCameraState) : Prop where
  fps : r.2.2.settings.fps = ir.settings.fps
  wavelength : r.2.2.enabledLedWavelength = ir.enabledLedWavelength
  off : pulseOff r.2.2 = (pulseOff ir || !distanceIsSafe .pearl ir)
  finished : .pulseFinished ∉ r.2.1
  update : .masterUpdate ∉ r.2.1
  sleeps : r.1 = true → pulseOff r.2.2 = false ∧ ir.settings.fps ≠ 0

theorem irLedsSetPulseLength_sets (ir : IrCameraState) : SetsPulse ir (irLedsSetPulseLength .pearl ir) := by
  have hpos (n : UInt16) (h : 0 < n) : n ≠ 0 := fun h0 => by simp [h0] at h
  cases hsafe : distanceIsSafe .pearl ir with
  | false =>
    simp only [irLedsSetPulseLength, irLedsDisableAll, hsafe]
    exact ⟨rfl, rfl, by simp [pulseOff, hsafe], by simp, by simp, by simp⟩
  | true =>
    simp only [irLedsSetPulseLength, irLedsDisableAll, setLedAutoReload, hsafe, if_true]
    split_ifs with honTime hfps hfps
    · refine ⟨rfl, rfl, by simp [pulseOff, hsafe], by simp, by simp, fun hsleeps => ⟨?_, hpos _ hfps.2⟩⟩
      simp only [Bool.and_eq_true, decide_eq_true_eq] at hsleeps
      simp only [pulseOff, honTime, hsleeps.1, decide_false, Bool.or_self]
    · exact ⟨rfl, rfl, by simp [pulseOff, hsafe], by simp, by simp, by simp⟩
    · exact absurd hfps.1 (by simp [not_not.mp honTime])
    · exact ⟨rfl, rfl, by simp [pulseOff, hsafe], by simp, by simp, by simp⟩

theorem applyTimers_sets (ir : IrCameraState) : SetsPulse ir (applyTimers .pearl ir) := by
  obtain ⟨hfps, hwavelength, hoff, hfinished, hupdate, hsleeps⟩ := irLedsSetPulseLength_sets
    (cameraEnableTrigger .pearl (ir.cameraEnabled .tof2d) .tof2d
      (cameraEnableTrigger .pearl (ir.cameraEnabled .irFace) .irFace
        (cameraEnableTrigger .pearl (ir.cameraEnabled .irEye) .irEye
          { ir with
            masterEnabled := decide (0 < ir.settings.fps)
            masterPsc := ir.settings.masterPsc.toUInt32
            masterArr := ir.settings.masterArr.toUInt32 })))
  exact ⟨hfps, hwavelength, hoff, hfinished, hupdate, hsleeps⟩

/-- The wavelengths that a call can select end a pulse only if there is none. -/
theorem endsPulse_iff {w : Wavelength} (hw : deprecatedWavelength .pearl w = false) :
    endsPulse .pearl w = true ↔ w = .none := by
  cases w <;> simp_all [deprecatedWavelength, endsPulse]

/-- A critical section from there to its end. -/
structure EndsPulse (ir : IrCameraState) (r : List IrEvent × IrCameraState) : Prop where
  fps : r.2.settings.fps = ir.settings.fps
  wavelength : r.2.enabledLedWavelength = ir.enabledLedWavelength
  off : pulseOff r.2 = pulseOff ir
  stops : pulseOff ir = true → ∃ after, r.1 = .pulseFinished :: after
  drives : pulseOff ir = false → .pulseFinished ∉ r.1

theorem irLedsEnablePulse_ends (hw : deprecatedWavelength .pearl ir.enabledLedWavelength = false) :
    EndsPulse ir (irLedsEnablePulse .pearl ir) := by
  simp only [irLedsEnablePulse]
  split_ifs with honTime hends
  · exact ⟨rfl, rfl, rfl, fun _ => ⟨[], rfl⟩, fun hoff => by simp [pulseOff, honTime] at hoff⟩
  · exact ⟨rfl, rfl, rfl, fun _ => ⟨[], rfl⟩, fun hoff => by
      simp [pulseOff, (endsPulse_iff hw).mp hends] at hoff⟩
  · refine ⟨rfl, rfl, rfl, fun hoff => ?_, fun _ => (by simp)⟩
    have hnone : ir.enabledLedWavelength ≠ .none := fun h => hends ((endsPulse_iff hw).mpr h)
    simp [pulseOff, honTime, hnone] at hoff

theorem applyPulse_events (ir : IrCameraState) : ∃ update, .pulseFinished ∉ update ∧
    (applyPulse .pearl ir).1 = (irLedsEnablePulse .pearl ir).1 ++ update := by
  refine ⟨if _ then _ else _, ?_, rfl⟩
  split
  simp

theorem applyPulse_ends (hw : deprecatedWavelength .pearl ir.enabledLedWavelength = false) :
    EndsPulse ir (applyPulse .pearl ir) := by
  obtain ⟨hfps, hwavelength, hoff, hstops, hdrives⟩ := irLedsEnablePulse_ends hw
  obtain ⟨update, hupdate, hevents⟩ := applyPulse_events ir
  refine ⟨hfps, hwavelength, hoff, fun h => ?_, fun h => ?_⟩
  · obtain ⟨after, hafter⟩ := hstops h
    exact ⟨after ++ update, by rw [hevents, hafter, List.cons_append]⟩
  · rw [hevents, List.mem_append, not_or]
    exact ⟨hdrives h, hupdate⟩

/-- A thread with a critical section to come either sleeps in it, or ends it. -/
structure Ended (pc : CallPc) (ir : IrCameraState) (r : CallPc × List IrEvent × IrCameraState) : Prop where
  idle : applies r.1 = false
  fps : r.2.2.settings.fps = ir.settings.fps
  wavelength : r.2.2.enabledLedWavelength = ir.enabledLedWavelength
  off : pulseOff r.2.2 = stopsPulse pc ir
  stops : stopsPulse pc ir = true → WakesByHand r.2.1
  drives : stopsPulse pc ir = false → .pulseFinished ∉ r.2.1

theorem EndsPulse.ended {r : List IrEvent × IrCameraState} (h : EndsPulse ir r) (hpc : stopsPulse pc ir = pulseOff ir) :
    Ended pc ir (.idle, r) where
  idle := rfl
  fps := h.fps
  wavelength := h.wavelength
  off := h.off.trans hpc.symm
  stops hstops := by
    obtain ⟨after, hafter⟩ := h.stops (hpc ▸ hstops)
    exact ⟨[], after, hafter, nofun⟩
  drives hdrives := h.drives (hpc ▸ hdrives)

theorem SetsPulse.ended {r : Bool × List IrEvent × IrCameraState} {r' : List IrEvent × IrCameraState}
    (h : SetsPulse ir r) (h' : EndsPulse r.2.2 r') (hpc : pc = .apply ∨ pc = .enableLeds) :
    Ended pc ir (.idle, r.2.1 ++ r'.1, r'.2) := by
  have hstopsPulse : stopsPulse pc ir = pulseOff r.2.2 := by
    obtain rfl | rfl := hpc <;> simp [stopsPulse, h.off]
  refine ⟨rfl, h'.fps.trans h.fps, h'.wavelength.trans h.wavelength, h'.off.trans hstopsPulse.symm, ?_, ?_⟩
  · intro hstops
    obtain ⟨after, hafter⟩ := h'.stops (hstopsPulse ▸ hstops)
    exact ⟨r.2.1, after, congrArg (r.2.1 ++ ·) hafter, h.update⟩
  · intro hdrives
    rw [List.mem_append, not_or]
    exact ⟨h.finished, h'.drives (hstopsPulse ▸ hdrives)⟩

/-- It sleeps only where it will turn the LEDs on. -/
structure Sleeps (pc : CallPc) (ir : IrCameraState) (r : CallPc × List IrEvent × IrCameraState) : Prop where
  applies : applies r.1 = true
  wavelength : r.2.2.enabledLedWavelength = ir.enabledLedWavelength
  drives : stopsPulse pc ir = false
  fps : ir.settings.fps ≠ 0

theorem SetsPulse.asleep {r : Bool × List IrEvent × IrCameraState} (h : SetsPulse ir r) (hsleeps : r.1 = true)
    (hpc : pc = .apply ∨ pc = .enableLeds) {pc' : CallPc} (hpc' : applies pc' = true) : Sleeps pc ir (pc', r.2) := by
  obtain ⟨hoff, hfps⟩ := h.sleeps hsleeps
  refine ⟨hpc', h.wavelength, ?_, hfps⟩
  rw [h.off] at hoff
  obtain rfl | rfl := hpc <;> simpa [stopsPulse] using hoff

theorem proceedCall_pulse (happlies : applies pc = true)
    (hw : deprecatedWavelength .pearl ir.enabledLedWavelength = false) :
    Sleeps pc ir (proceedCall pc ir) ∨ Ended pc ir (proceedCall pc ir) := by
  cases pc with
  | idle | setFps fps copy | setOnTime onTimeUs copy | store settings => exact absurd happlies nofun
  | apply =>
    have hsets := applyTimers_sets ir
    rw [← hsets.wavelength] at hw
    cases hsleeps : (applyTimers .pearl ir).1 with
    | true =>
      have hasleep : Sleeps .apply ir (.applySettling, (applyTimers .pearl ir).2) :=
        hsets.asleep hsleeps (.inl rfl) rfl
      simp only [proceedCall, hsleeps, if_true]
      exact .inl hasleep
    | false =>
      have hended := hsets.ended (applyPulse_ends hw) (.inl rfl)
      simp only [proceedCall, hsleeps]
      exact .inr hended
  | enableLeds =>
    have hsets := irLedsSetPulseLength_sets ir
    rw [← hsets.wavelength] at hw
    cases hsleeps : (irLedsSetPulseLength .pearl ir).1 with
    | true =>
      have hasleep : Sleeps .enableLeds ir (.ledsSettling, (irLedsSetPulseLength .pearl ir).2) :=
        hsets.asleep hsleeps (.inr rfl) rfl
      simp only [proceedCall, hsleeps, if_true]
      exact .inl hasleep
    | false =>
      have hended := hsets.ended (irLedsEnablePulse_ends hw) (.inr rfl)
      simp only [proceedCall, hsleeps]
      exact .inr hended
  | applySettling => exact .inr ((applyPulse_ends hw).ended (by simp [stopsPulse]))
  | ledsSettling => exact .inr ((irLedsEnablePulse_ends hw).ended (by simp [stopsPulse]))

/-- Nothing that the pulses depend on has changed. -/
structure SamePulse (ir ir' : IrCameraState) : Prop where
  settings : ir'.settings = ir.settings
  wavelength : ir'.enabledLedWavelength = ir.enabledLedWavelength

theorem SamePulse.noPulse {ir' : IrCameraState} (h : SamePulse ir ir') : NoPulse ir' ↔ NoPulse ir := by
  rw [NoPulse, NoPulse, h.settings, h.wavelength]

theorem cameraHw_wavelength (enabled : Bool) (camera : Camera) (ir : IrCameraState) :
    (cameraHw .pearl enabled camera ir).enabledLedWavelength = ir.enabledLedWavelength := by
  rw [cameraHw]
  split <;> rfl

theorem setCamera_wavelength (enabled : Bool) (camera : Camera) (ir : IrCameraState) :
    (setCamera .pearl enabled camera ir).2.enabledLedWavelength = ir.enabledLedWavelength := by
  rw [setCamera]
  split_ifs
  · rfl
  · rfl
  · exact cameraHw_wavelength enabled camera _

theorem irEyeCameraForce_wavelength (enabled : Bool) (ir : IrCameraState) :
    (irEyeCameraForce .pearl enabled ir).enabledLedWavelength = ir.enabledLedWavelength :=
  cameraHw_wavelength enabled .irEye _

theorem cameraExposureCompletesIsr_wavelength (ir : IrCameraState) :
    (cameraExposureCompletesIsr .pearl ir).enabledLedWavelength = ir.enabledLedWavelength := by
  simp only [cameraExposureCompletesIsr]
  split_ifs <;> rfl

theorem irCall_wavelength (safetyTriggered : Bool) (c : IrCall) (ir : IrCameraState) (hleds : ∀ w, c ≠ .enableLeds w)
    (hfps : ∀ fps, c ≠ .setFps fps) (honTime : ∀ onTimeUs, c ≠ .setOnTimeUs onTimeUs) :
    (irCall .pearl maxFocus safetyTriggered ir c).2.2.enabledLedWavelength = ir.enabledLedWavelength := by
  cases c with
  | setCamera enabled camera => exact setCamera_wavelength enabled camera ir
  | setRgbFaceCamera enabled =>
    simp only [irCall, setRgbFaceCamera]
    split_ifs <;> rfl
  | enableLeds w => exact absurd rfl (hleds w)
  | setFps fps => exact absurd rfl (hfps fps)
  | setOnTimeUs onTimeUs => exact absurd rfl (honTime onTimeUs)
  | setFocusValues n =>
    simp only [irCall, irCameraSystemSetFocusValues]
    split_ifs <;> rfl
  | setFocusPolynomial n =>
    simp only [irCall, irCameraSystemSetFocusPolynomial]
    split_ifs <;> rfl
  | performFocusSweep =>
    simp only [irCall, irCameraSystemPerformFocusSweep]
    split_ifs
    · rfl
    · exact irEyeCameraForce_wavelength true _
    · rfl
  | setMirrorPolynomial n =>
    simp only [irCall, irCameraSystemSetMirrorPolynomial]
    split_ifs <;> rfl
  | performMirrorSweep =>
    simp only [irCall, irCameraSystemPerformMirrorSweep]
    split_ifs
    · rfl
    · exact irEyeCameraForce_wavelength true _
    · rfl

/-- A call either leaves the pulses alone, or is before its critical section. -/
theorem beginCall_pulse (maxFocus : Nat) (safetyTriggered : Bool) (c : IrCall) (ir : IrCameraState) :
    SamePulse ir (beginCall maxFocus safetyTriggered c ir).2 ∨
      applies (beginCall maxFocus safetyTriggered c ir).1 = true ∧
      deprecatedWavelength .pearl (beginCall maxFocus safetyTriggered c ir).2.enabledLedWavelength = false := by
  have hsettings := (beginCall_sameLeds maxFocus safetyTriggered c ir).settings
  cases c with
  | enableLeds w =>
    simp only [beginCall] at hsettings ⊢
    split_ifs with hstatus hdeprecated hsame
    · exact .inl ⟨rfl, rfl⟩
    · exact .inl ⟨rfl, rfl⟩
    · exact .inl ⟨rfl, rfl⟩
    · exact .inr ⟨rfl, Bool.eq_false_iff.mpr hdeprecated⟩
  | setFps fps =>
    simp only [beginCall]
    split_ifs <;> exact .inl ⟨rfl, rfl⟩
  | setOnTimeUs onTimeUs =>
    simp only [beginCall]
    generalize (if onTimeUs = 0 then RetCode.success else irCameraSystemGetStatus safetyTriggered ir) = ret
    split_ifs <;> exact .inl ⟨rfl, rfl⟩
  | _ => exact .inl ⟨hsettings, irCall_wavelength safetyTriggered _ ir (by simp) (by simp) (by simp)⟩

theorem irCameraSystemEnableLedsHw_ended (hw : deprecatedWavelength .pearl ir.enabledLedWavelength = false) :
    Ended .enableLeds ir (.idle, irCameraSystemEnableLedsHw .pearl ir) := by
  have hsets := irLedsSetPulseLength_sets ir
  rw [irCameraSystemEnableLedsHw]
  generalize irLedsSetPulseLength .pearl ir = r at hsets ⊢
  obtain ⟨sleeps, events, ir'⟩ := r
  have hused : deprecatedWavelength .pearl ir'.enabledLedWavelength = false := hsets.wavelength ▸ hw
  exact hsets.ended (irLedsEnablePulse_ends hused) (.inr rfl)

/-- The timeout turns the LEDs off, by hand if they were on. -/
theorem timeoutDisable_pulse (ir : IrCameraState) :
    if ir.enabledLedWavelength = .none then
      (irCameraSystemTimeoutDisable .pearl ir).1 = [] ∧ SamePulse ir (irCameraSystemTimeoutDisable .pearl ir).2
    else WakesByHand (irCameraSystemTimeoutDisable .pearl ir).1 ∧
      (irCameraSystemTimeoutDisable .pearl ir).2.enabledLedWavelength = .none := by
  have hcameras : ∀ ir' : IrCameraState, SamePulse ir'
      (setCamera .pearl false .tof2d (setCamera .pearl false .irFace (setCamera .pearl false .irEye ir').2).2).2 := by
    intro ir'
    constructor
    · rw [(setCamera_sameLeds false .tof2d).settings, (setCamera_sameLeds false .irFace).settings,
        (setCamera_sameLeds false .irEye).settings]
    · rw [setCamera_wavelength, setCamera_wavelength, setCamera_wavelength]
  split
  · next hw =>
    have hnone : irCameraSystemEnableLeds .pearl false .none ir = (.success, [], ir) := by
      simp [irCameraSystemEnableLeds, deprecatedWavelength, hw]
    rw [irCameraSystemTimeoutDisable, hnone]
    exact ⟨rfl, hcameras ir⟩
  · next hw =>
    have hoff : irCameraSystemEnableLeds .pearl false .none ir =
        (.success, irCameraSystemEnableLedsHw .pearl { ir with enabledLedWavelength := .none }) := by
      simp [irCameraSystemEnableLeds, deprecatedWavelength, hw]
    have hended : Ended .enableLeds { ir with enabledLedWavelength := .none }
        (.idle, irCameraSystemEnableLedsHw .pearl { ir with enabledLedWavelength := .none }) :=
      irCameraSystemEnableLedsHw_ended rfl
    rw [irCameraSystemTimeoutDisable, hoff]
    generalize irCameraSystemEnableLedsHw .pearl { ir with enabledLedWavelength := .none } = r at hended ⊢
    refine ⟨hended.stops (by simp [stopsPulse, pulseOff]), ?_⟩
    exact (hcameras _).wavelength.trans hended.wavelength

/-! The invariant. -/

/-- If the thread waits, somebody will wake it. -/
structure Watched (s : PulseWait ι) : Prop where
  due : s.system.callbackDue = true → s.system.pc none = .idle
  wavelength : deprecatedWavelength .pearl s.system.ir.enabledLedWavelength = false
  flagged : s.thread = .wait → s.waitForInterrupt = true ∨ s.ledsWaitForTrigger = true
  watched : ¬Abandoned s

omit [DecidableEq ι] in
theorem Watched.not_hangs (h : Watched s) : ¬Hangs s := by
  intro hangs
  have hflag : s.waitForInterrupt = true := by
    obtain hflag | hsem := h.flagged hangs.waits
    · exact hflag
    · exact absurd (hangs.trigger.symm.trans hsem) nofun
  refine h.watched ⟨⟨.inr hangs.waits, hflag, hangs.trigger⟩, hangs.noPulse, fun thread => ?_⟩
  rw [hangs.calls thread]
  rfl

omit [DecidableEq ι] in
theorem Interrupted.flagged (h : Interrupted s s')
    (hflagged : s.thread = .wait → s.waitForInterrupt = true ∨ s.ledsWaitForTrigger = true) :
    s'.thread = .wait → s'.waitForInterrupt = true ∨ s'.ledsWaitForTrigger = true := by
  intro hwait
  obtain ⟨hflag, hsem⟩ | ⟨-, hsem⟩ := h.triggered
  · rw [hflag, hsem]
    exact hflagged (h.thread ▸ hwait)
  · exact .inr hsem

omit [DecidableEq ι] in
theorem Watched.interrupted (h : Watched s) (hi : Interrupted s s') : Watched s' where
  due := by
    rw [hi.system]
    exact h.due
  wavelength := by
    rw [hi.system]
    exact h.wavelength
  flagged := hi.flagged h.flagged
  watched := by
    rintro ⟨hdecided, hnoPulse, hpcs⟩
    rw [hi.system] at hnoPulse hpcs
    exact h.watched ⟨hi.decided hdecided, hnoPulse, hpcs⟩

/-- What a step of the IR camera system leaves behind. -/
def afterSystem (s : PulseWait ι) (events : List IrEvent) (system : ProximityState ι) : PulseWait ι :=
  events.foldl irEvent { s with system := system }

omit [DecidableEq ι] in
theorem afterSystem_interrupted (s : PulseWait ι) (events : List IrEvent) (system : ProximityState ι) :
    Interrupted { s with system := system } (afterSystem s events system) := events_interrupted events _

omit [DecidableEq ι] in
theorem decided_before {events : List IrEvent} {system : ProximityState ι} (h : Decided (afterSystem s events system)) :
    Decided s := (afterSystem_interrupted s events system).decided h

omit [DecidableEq ι] in
theorem Watched.system (h : Watched s) {events : List IrEvent} {system : ProximityState ι}
    (hdue : system.callbackDue = true → system.pc none = .idle)
    (hw : deprecatedWavelength .pearl system.ir.enabledLedWavelength = false)
    (hwatched : Decided (afterSystem s events system) → NoPulse system.ir →
      ∃ thread, applies (system.pc thread) = true) : Watched (afterSystem s events system) := by
  have hi := afterSystem_interrupted s events system
  refine ⟨?_, ?_, hi.flagged h.flagged, ?_⟩
  · rw [hi.system]
    exact hdue
  · rw [hi.system]
    exact hw
  · rintro ⟨hdecided, hnoPulse, hpcs⟩
    rw [hi.system] at hnoPulse hpcs
    obtain ⟨thread, hthread⟩ := hwatched hdecided hnoPulse
    exact absurd (hthread.symm.trans (hpcs thread)) nofun

omit [DecidableEq ι] in
/-- A thread that is not abandoned, and has decided, has somebody to wake it. -/
theorem Watched.wakes (h : Watched s) (hdecided : Decided s) (hnoPulse : NoPulse s.system.ir) :
    ∃ thread, applies (s.system.pc thread) = true := by
  by_contra hnone
  refine h.watched ⟨hdecided, hnoPulse, fun thread => ?_⟩
  exact Bool.eq_false_iff.mpr fun happlies => hnone ⟨thread, happlies⟩

omit [DecidableEq ι] in
theorem Watched.calm (h : Watched s) {events : List IrEvent} {system : ProximityState ι}
    (hpulse : SamePulse s.system.ir system.ir) (hdue : system.callbackDue = true → system.pc none = .idle)
    (hpc : ∀ thread, applies (s.system.pc thread) = true → applies (system.pc thread) = true) :
    Watched (afterSystem s events system) := by
  refine h.system hdue (hpulse.wavelength ▸ h.wavelength) fun hdecided hnoPulse => ?_
  obtain ⟨thread, hthread⟩ := h.wakes (decided_before hdecided) (hpulse.noPulse.mp hnoPulse)
  exact ⟨thread, hpc thread hthread⟩

theorem applies_update {pcs : Option ι → CallPc} {thread : Option ι} (hidle : applies (pcs thread) = false) (pc : CallPc)
    (t : Option ι) (ht : applies (pcs t) = true) : applies (Function.update pcs thread pc t) = true := by
  rw [Function.update_of_ne]
  · exact ht
  · rintro rfl
    exact absurd (ht.symm.trans hidle) nofun

theorem Watched.reading (h : Watched s) (near : Bool) :
    Watched (frontLedsStep number maxFocus s (.system (.reading near))).2 := by
  simp only [frontLedsStep, proximityStep]
  split_ifs with hidle
  · exact h.calm ⟨rfl, rfl⟩ (fun _ => hidle.2) fun _ happlies => happlies
  · exact h

theorem Watched.callback (h : Watched s) : Watched (frontLedsStep number maxFocus s (.system .callback)).2 := by
  simp only [frontLedsStep, proximityStep]
  split_ifs with hdue
  · refine h.calm ⟨rfl, rfl⟩ (by simp) (applies_update ?_ _)
    rw [h.due hdue]
    rfl
  · exact h

theorem Watched.call (h : Watched s) (thread : ι) (safetyTriggered : Bool) (c : IrCall) :
    Watched (frontLedsStep number maxFocus s (.system (.call thread safetyTriggered c))).2 := by
  have hpulse := beginCall_pulse maxFocus safetyTriggered c s.system.ir
  simp only [frontLedsStep, proximityStep]
  split_ifs with hidle
  · have hdue : s.system.callbackDue = true →
        Function.update s.system.pc (some thread) (beginCall maxFocus safetyTriggered c s.system.ir).1 none = .idle := by
      rw [Function.update_of_ne (Option.some_ne_none thread).symm]
      exact h.due
    obtain hsame | ⟨happlies, hw⟩ := hpulse
    · refine h.calm hsame hdue (applies_update ?_ _)
      rw [hidle]
      rfl
    · refine h.system hdue hw fun _ _ => ⟨some thread, ?_⟩
      change applies (Function.update s.system.pc (some thread) _ (some thread)) = true
      rw [Function.update_self]
      exact happlies
  · exact h

theorem Watched.exposureCompletes (h : Watched s) :
    Watched (frontLedsStep number maxFocus s (.system .exposureCompletes)).2 := by
  have hsame : SameLeds s.system.ir (cameraExposureCompletesIsr .pearl s.system.ir) := cameraExposureCompletesIsr_sameLeds
  have hpulse : SamePulse s.system.ir (cameraExposureCompletesIsr .pearl s.system.ir) :=
    ⟨hsame.settings, cameraExposureCompletesIsr_wavelength s.system.ir⟩
  simp only [frontLedsStep, proximityStep]
  split_ifs
  · exact h.calm hpulse h.due fun _ happlies => happlies
  · exact h

/-- What a thread that is not before a critical section does next: it may come to be before one. -/
theorem proceedCall_before (ir : IrCameraState) (hpc : applies pc = false) :
    (applies (proceedCall pc ir).1 = true ∨ SamePulse ir (proceedCall pc ir).2.2) ∧
      (proceedCall pc ir).2.1 = [] ∧ (proceedCall pc ir).2.2.enabledLedWavelength = ir.enabledLedWavelength := by
  cases pc with
  | store settings => exact ⟨.inl rfl, rfl, rfl⟩
  | idle | setFps fps copy | setOnTime onTimeUs copy => exact ⟨.inr ⟨rfl, rfl⟩, rfl, rfl⟩
  | apply | enableLeds | applySettling | ledsSettling => exact absurd hpc nofun

theorem proceedCall_due {pcs : Option ι → CallPc} (thread : Option ι) (hnone : pcs none = .idle) :
    Function.update pcs thread (proceedCall (pcs thread) ir).1 none = .idle := by
  by_cases hthread : thread = none
  · rw [hthread, Function.update_self, hnone]
    rfl
  · rw [Function.update_of_ne (Ne.symm hthread)]
    exact hnone

theorem Watched.proceed (h : Watched s) (thread : Option ι) (hok : Wakes s (.system (.proceed thread))) :
    Watched (frontLedsStep number maxFocus s (.system (.proceed thread))).2 := by
  simp only [frontLedsStep, proximityStep]
  have hdue : s.system.callbackDue = true →
      Function.update s.system.pc thread (proceedCall (s.system.pc thread) s.system.ir).1 none = .idle :=
    fun hdue => proceedCall_due thread (h.due hdue)
  cases happlies : applies (s.system.pc thread) with
  | false =>
    obtain ⟨hpulse, -, hw⟩ := proceedCall_before s.system.ir happlies
    obtain happlies' | hsame := hpulse
    · refine h.system hdue (hw ▸ h.wavelength) fun _ _ => ⟨thread, ?_⟩
      change applies (Function.update s.system.pc thread _ thread) = true
      rw [Function.update_self]
      exact happlies'
    · exact h.calm hsame hdue (applies_update happlies _)
  | true =>
    obtain hsleeps | hended := proceedCall_pulse happlies h.wavelength
    · refine h.system hdue (hsleeps.wavelength ▸ h.wavelength) fun _ _ => ⟨thread, ?_⟩
      change applies (Function.update s.system.pc thread _ thread) = true
      rw [Function.update_self]
      exact hsleeps.applies
    · refine h.system hdue (hended.wavelength ▸ h.wavelength) fun hdecided hnoPulse => ?_
      obtain hwoken | ⟨other, hother, hpc⟩ := hok (decided_before hdecided) happlies
      · split at hwoken
        next hstops => exact absurd hdecided ((hended.stops hstops).undecided hwoken)
        next hdrives =>
          obtain hfps | hoff := noPulse_iff.mp hnoPulse
          · exact absurd (hended.fps.symm.trans hfps) hwoken
          · exact absurd (hended.off.symm.trans hoff) hdrives
      · refine ⟨other, ?_⟩
        change applies (Function.update s.system.pc thread _ other) = true
        rw [Function.update_of_ne hother]
        exact hpc

theorem Watched.timeout (h : Watched s) (hok : Wakes s (.system .timeout)) :
    Watched (frontLedsStep number maxFocus s (.system .timeout)).2 := by
  have hpulse := timeoutDisable_pulse s.system.ir
  simp only [frontLedsStep, proximityStep]
  split at hpulse
  · exact h.calm hpulse.2 h.due fun _ happlies => happlies
  · next hw =>
    refine h.system h.due (by rw [hpulse.2]; rfl) fun hdecided _ => ?_
    obtain hoff | hpc := hok (decided_before hdecided) hw
    · exact absurd hdecided (hpulse.1.undecided hoff)
    · exact hpc

omit [DecidableEq ι] in
theorem Watched.thread (h : Watched s) (counter : UInt32) (hok : Wakes s (.thread counter)) :
    Watched (threadStep number counter s) := by
  have hundecided {s' : PulseWait ι} (hthread : s'.thread ≠ .test ∧ s'.thread ≠ .wait) : ¬Abandoned s' :=
    fun habandoned => habandoned.1.1.elim hthread.1 hthread.2
  simp only [threadStep]
  cases hthread : s.thread with
  | idle =>
    simp only
    split_ifs
    · exact ⟨h.due, h.wavelength, nofun, hundecided ⟨nofun, nofun⟩⟩
    · exact ⟨h.due, h.wavelength, nofun, hundecided ⟨nofun, nofun⟩⟩
    · exact h
  | enabledLeds =>
    simp only
    split_ifs <;> exact ⟨h.due, h.wavelength, nofun, hundecided ⟨nofun, nofun⟩⟩
  | timeUntilUpdate =>
    simp only
    split_ifs <;> exact ⟨h.due, h.wavelength, nofun, hundecided ⟨nofun, nofun⟩⟩
  | fps => exact ⟨h.due, h.wavelength, nofun, hundecided ⟨nofun, nofun⟩⟩
  | store wait =>
    refine ⟨h.due, h.wavelength, nofun, ?_⟩
    rintro ⟨⟨-, hflag, hsem⟩, hnoPulse, hpcs⟩
    obtain rfl : wait = true := hflag
    obtain hpulse | ⟨thread, hpc⟩ := hok hthread hsem
    · exact hpulse hnoPulse
    · exact absurd (hpc.symm.trans (hpcs thread)) nofun
  | test =>
    simp only
    split_ifs with hflag
    · refine ⟨h.due, h.wavelength, fun _ => .inl hflag, ?_⟩
      rintro ⟨⟨-, -, hsem⟩, hrest⟩
      exact h.watched ⟨⟨.inl hthread, hflag, hsem⟩, hrest⟩
    · exact ⟨h.due, h.wavelength, nofun, hundecided ⟨nofun, nofun⟩⟩
  | wait =>
    simp only
    split_ifs
    · exact ⟨h.due, h.wavelength, nofun, hundecided ⟨nofun, nofun⟩⟩
    · exact h
  | update => exact ⟨h.due, h.wavelength, nofun, hundecided ⟨nofun, nofun⟩⟩

theorem Watched.step (h : Watched s) (a : FrontLedsAction ι) (hok : Wakes s a) :
    Watched (frontLedsStep number maxFocus s a).2 := by
  cases a with
  | system a =>
    cases a with
    | reading near => exact h.reading near
    | callback => exact h.callback
    | call thread safetyTriggered c => exact h.call thread safetyTriggered c
    | proceed thread => exact h.proceed thread hok
    | timeout => exact h.timeout hok
    | exposureCompletes => exact h.exposureCompletes
  | thread counter => exact h.thread counter hok
  | interrupt timer =>
    simp only [frontLedsStep]
    split
    · have hpending : Interrupted s { s with ledInterrupt := Function.update s.ledInterrupt timer false } :=
        ⟨rfl, rfl, .inl ⟨rfl, rfl⟩⟩
      exact h.interrupted (hpending.trans (irLedsPulseFinishedIsr_interrupted _))
    · exact h
  | ledUpdate timer => exact h.interrupted ⟨rfl, rfl, .inl ⟨rfl, rfl⟩⟩
  | masterUpdate =>
    simp only [frontLedsStep]
    split
    · exact h.interrupted ⟨rfl, rfl, .inl ⟨rfl, rfl⟩⟩
    · exact h
  | takeUpdateSem =>
    simp only [frontLedsStep]
    split
    · exact h.interrupted ⟨rfl, rfl, .inl ⟨rfl, rfl⟩⟩
    · exact h
  | giveUpdateSem finalDone =>
    simp only [frontLedsStep]
    split
    · exact h.interrupted ⟨rfl, rfl, .inl ⟨rfl, rfl⟩⟩
    · exact h

omit [DecidableEq ι] in
theorem Watched.start : Watched ({} : PulseWait ι) where
  due := nofun
  wavelength := rfl
  flagged := nofun
  watched := fun h => h.1.1.elim nofun nofun

/-! Every other step abandons the thread. -/

omit [DecidableEq ι] in
theorem afterSystem_abandoned {events : List IrEvent} {system : ProximityState ι} (hdecided : Decided s)
    (hon : .pulseFinished ∈ events → s.ledTimersOff = false) (hnoPulse : NoPulse system.ir)
    (hpcs : ∀ thread, applies (system.pc thread) = false) : Abandoned (afterSystem s events system) := by
  refine ⟨events_decided events _ hdecided hon, ?_, ?_⟩
  · rw [(afterSystem_interrupted s events system).system]
    exact hnoPulse
  · rw [(afterSystem_interrupted s events system).system]
    exact hpcs

omit [DecidableEq ι] in
theorem not_applies {pcs : Option ι → CallPc} {P : Option ι → Prop}
    (h : ¬∃ thread, P thread ∧ applies (pcs thread) = true) (thread : Option ι) (hP : P thread) : applies (pcs thread) = false :=
  Bool.eq_false_iff.mpr fun happlies => h ⟨thread, hP, happlies⟩

theorem Watched.abandoned (h : Watched s) (a : FrontLedsAction ι) (hnot : ¬Wakes s a) :
    Abandoned (frontLedsStep number maxFocus s a).2 := by
  cases a with
  | thread counter =>
    simp only [Wakes, not_forall, not_or, not_not, not_exists, Bool.not_eq_true] at hnot
    obtain ⟨hthread, hsem, hnoPulse, hpcs⟩ := hnot
    simp only [frontLedsStep, threadStep, hthread]
    exact ⟨⟨.inl rfl, rfl, hsem⟩, hnoPulse, hpcs⟩
  | system a =>
    cases a with
    | proceed thread =>
      simp only [Wakes, not_forall, not_or] at hnot
      obtain ⟨hdecided, happlies, hasleep, halone⟩ := hnot
      simp only [frontLedsStep, proximityStep]
      obtain hsleeps | hended := proceedCall_pulse happlies h.wavelength
      · rw [hsleeps.drives] at hasleep
        exact absurd hsleeps.fps hasleep
      · have hpcs (t : Option ι) :
            applies (Function.update s.system.pc thread (proceedCall (s.system.pc thread) s.system.ir).1 t) = false := by
          by_cases ht : t = thread
          · rw [ht, Function.update_self]
            exact hended.idle
          · rw [Function.update_of_ne ht]
            exact not_applies halone t ht
        split at hasleep
        next hstops =>
          refine afterSystem_abandoned hdecided (fun _ => Bool.eq_false_iff.mpr hasleep) ?_ hpcs
          exact noPulse_iff.mpr (.inr (hended.off.trans hstops))
        next hdrives =>
          have hnever := hended.drives (Bool.eq_false_iff.mpr hdrives)
          refine afterSystem_abandoned hdecided (fun hmem => absurd hmem hnever) ?_ hpcs
          exact noPulse_iff.mpr (.inl (hended.fps.trans (not_not.mp hasleep)))
    | timeout =>
      simp only [Wakes, not_forall, not_or, not_exists, Bool.not_eq_true] at hnot
      obtain ⟨hdecided, hw, hon, hpcs⟩ := hnot
      have hpulse := timeoutDisable_pulse s.system.ir
      rw [if_neg hw] at hpulse
      simp only [frontLedsStep, proximityStep]
      exact afterSystem_abandoned hdecided (fun _ => hon) (.inr (.inr hpulse.2)) hpcs
    | _ => exact absurd trivial hnot
  | _ => exact absurd trivial hnot

/-- The runs whose steps all wake the thread are those that never abandon it, and in none of them does it hang. -/
theorem front_leds_wake (number : Wavelength → UInt32) (maxFocus : Nat) (actions : List (FrontLedsAction ι)) :
    ((∀ pre, pre <+: actions → ¬Abandoned (Machine.run (frontLedsStep number maxFocus) ({} : PulseWait ι) pre).2) ↔
      Machine.Meets (frontLedsStep number maxFocus) Wakes ({} : PulseWait ι) actions) ∧
    (Machine.Meets (frontLedsStep number maxFocus) Wakes ({} : PulseWait ι) actions →
      ∀ pre, pre <+: actions → ¬Hangs (Machine.run (frontLedsStep number maxFocus) ({} : PulseWait ι) pre).2) := by
  have hstep (s : PulseWait ι) (a : FrontLedsAction ι) (h : Watched s) (hok : Wakes s a) :
      Watched (frontLedsStep number maxFocus s a).2 := h.step a hok
  constructor
  · exact Machine.forall_prefix_iff (fun _ h => h.watched) hstep (fun _ a h hnot => not_not_intro (h.abandoned a hnot))
      {} actions .start
  · rintro hok pre ⟨rest, rfl⟩
    exact (Machine.meets_invariant hstep {} pre .start (Machine.meets_append.mp hok).1).not_hangs

/-- The values of the enumeration that the thread compares. -/
def wavelengthNumber : Wavelength → UInt32
  | .none => 0
  | .nm740 => 1
  | _ => 2

/-- A frame rate and a wavelength, with a given on-time. -/
def ledsOn (onTimeUs : UInt16) : List (FrontLedsAction Unit) :=
  [ProximityAction.call () false (.setFps 30), .proceed (some ()), .proceed (some ()), .proceed (some ()),
    .call () false (.setOnTimeUs onTimeUs), .proceed (some ()), .proceed (some ()), .proceed (some ()),
    .call () false (.enableLeds .nm940), .proceed (some ()), .proceed (some ())].map .system

/-- The pulse that the thread waits for ends. -/
theorem front_leds_wake_pulse :
    let actions := ledsOn 1000 ++ List.replicate 6 (FrontLedsAction.thread 65000) ++
      [FrontLedsAction.masterUpdate, .ledUpdate .nm850, .ledUpdate .nm940, .interrupt .nm940, .thread 0]
    let s := (Machine.run (frontLedsStep wavelengthNumber 200) {} actions).2
    s.thread = .update ∧ ¬Hangs s := by
  intro actions s
  have hok : Machine.Meets (frontLedsStep wavelengthNumber 200) Wakes {} actions := by decide +kernel
  exact ⟨by decide +kernel, (front_leds_wake wavelengthNumber 200 actions).2 hok actions (List.prefix_refl actions)⟩

/-- With an on-time of 0, it waits for a pulse that never comes. -/
theorem front_leds_hang :
    ¬∀ (number : Wavelength → UInt32) (maxFocus : Nat) (actions : List (FrontLedsAction Unit)),
      ¬Hangs (Machine.run (frontLedsStep number maxFocus) {} actions).2 := by
  intro hnever
  refine hnever wavelengthNumber 200 (ledsOn 0 ++ List.replicate 6 (FrontLedsAction.thread 65000))
    ⟨?_, ?_, ?_, ?_, .inr (.inl ?_)⟩ <;> decide +kernel

end OrbFirmware.FrontLeds

import OrbFirmware.Machine
import OrbFirmware.Polarizer.Circle

/-! A positioning move under the step interrupt, the encoder's interrupt and the wheel's thread: the thread halts
the motor at the target as long as it reads the counter there before the next step. -/
namespace OrbFirmware.Polarizer

/-- Where `polarizer_wheel_thread` stands. `encoder` says whether `k_poll` has reported the encoder's event too,
`reached` whether there was no step to go when the step event was taken. -/
inductive ThreadPc where
  | poll
  | takeStep (encoder : Bool)
  | readStep (reached encoder : Bool)
  | decide (reached : Bool) (currentPos : Int) (encoder : Bool)
  | takeEncoder
  | readEncoder
  | correct (currentPosition : Int)
  deriving DecidableEq

/-- `toGo` counts the steps to the target; it is below zero once the counter has passed the target. -/
structure Turn where
  wheel : Wheel
  toGo : Int
  thread : ThreadPc

inductive TurnEvent where
  | processed (reached halted : Bool)
  deriving DecidableEq

/-- `poll` is the return of `k_poll` with the events it reports. -/
inductive TurnAction where
  | step
  | encoder (pin : Bool)
  | poll (step encoder : Bool)
  | thread

/-- After the step event. -/
def ThreadPc.next (encoder : Bool) : ThreadPc := if encoder then .takeEncoder else .poll

def Turn.pollReturns (step encoder : Bool) (s : Turn) : Turn :=
  match s.thread with
  | .poll =>
    if step && s.wheel.stepSem then { s with thread := .takeStep (encoder && s.wheel.encoderSem) }
    else if encoder && s.wheel.encoderSem then { s with thread := .takeEncoder }
    else s
  | _ => s

/-- What the thread does up to its next access to what the interrupts change. -/
def Turn.threadStep (s : Turn) : List TurnEvent × Turn :=
  match s.thread with
  | .poll => ([], s)
  | .takeStep encoder =>
    let s := { s with wheel := { s.wheel with stepSem := false } }
    match s.wheel.state with
    | .positioningWithEncoder | .positioning | .homing =>
      ([], { s with thread := .readStep (s.toGo ≤ 0) encoder })
    | .uninitialized | .idle | .calibrating => ([], { s with thread := .next encoder })
  | .readStep reached encoder => ([], { s with thread := .decide reached s.wheel.current encoder })
  | .decide reached currentPos encoder =>
    let wheel := (processStepEvent .ok currentPos s.wheel).2
    ([.processed reached (wheel.pwm = none)], { s with wheel, thread := .next encoder })
  | .takeEncoder =>
    let s := { s with wheel := { s.wheel with encoderSem := false } }
    if s.wheel.state = .positioningWithEncoder ∧ s.wheel.encoderTriggered = false then
      ([], { s with wheel := markEncoderTriggered s.wheel, thread := .readEncoder })
    else ([], { s with thread := .poll })
  | .readEncoder => ([], { s with thread := .correct s.wheel.current })
  | .correct currentPosition =>
    ([], {
      wheel := correctStepCounter currentPosition s.wheel
      toGo := s.wheel.direction.distance s.wheel.targetNotchEdge s.wheel.target
      thread := .poll })

def turnStep (s : Turn) : TurnAction → List TurnEvent × Turn
  | .step =>
    if s.wheel.pwm ≠ none ∧ s.wheel.stepInterrupt then
      ([], { s with wheel := stepIsr s.wheel, toGo := s.toGo-1 })
    else ([], s)
  | .encoder pin =>
    if s.wheel.encoderInterrupt then ([], { s with wheel := encoderCallback pin s.wheel }) else ([], s)
  | .poll step encoder => ([], s.pollReturns step encoder)
  | .thread => s.threadStep

/-- After `execute_set_angle`. -/
def Turn.start (wheel : Wheel) : Turn where
  wheel
  toGo :=
    if wheel.current = wheel.target then microsteps360Degrees
    else wheel.direction.distance wheel.current wheel.target
  thread := .poll

/-- Nothing between the thread and halting the motor. -/
def ThreadPc.willHalt (target : Int) : ThreadPc → Bool
  | .decide _ currentPos _ => currentPos = target
  | _ => false

/-- What is asked of a move with the events `tr` so far: a step event that is taken when there is no step to go
halts the motor, and the motor turns on past its target only until the thread halts it. -/
structure StopsAtTarget (tr : List TurnEvent) (s : Turn) : Prop where
  stops : ∀ halted, .processed true halted ∈ tr → halted = true
  further : s.wheel.pwm ≠ none → 0 ≤ s.toGo ∨ s.thread.willHalt s.wheel.target = true

/-- A step comes at the target only when the thread has read the counter there. -/
def Timely (s : Turn) : TurnAction → Prop
  | .step => s.wheel.pwm ≠ none → s.toGo = 0 → s.thread.willHalt s.wheel.target = true
  | .encoder _ | .poll _ _ | .thread => True

instance (s : Turn) (a : TurnAction) : Decidable (Timely s a) :=
  match a with
  | .step => inferInstanceAs (Decidable (_ → _))
  | .encoder _ | .poll _ _ | .thread => isTrue trivial

/-! Without interrupts in between, the thread's steps are its functions. -/

variable {s : Turn} {encoder : Bool}

theorem run_takeStep (h : s.thread = .takeStep encoder) :
    ∃ n, (Machine.run turnStep s (List.replicate n .thread)).2 =
      { s with wheel := (takeStepEvent .ok s.wheel.current s.wheel).2, thread := .next encoder } := by
  obtain ⟨w, toGo, thread⟩ := s
  obtain rfl := h
  cases hstate : w.state with
  | positioningWithEncoder | positioning | homing =>
    refine ⟨3, ?_⟩
    simp [Machine.run, List.replicate, turnStep, Turn.threadStep, takeStepEvent, hstate]
  | uninitialized | idle | calibrating =>
    refine ⟨1, ?_⟩
    simp [Machine.run, List.replicate, turnStep, Turn.threadStep, takeStepEvent, hstate]

theorem run_takeEncoder (h : s.thread = .takeEncoder) :
    ∃ n, (Machine.run turnStep s (List.replicate n .thread)).2.wheel = takeEncoderEvent s.wheel.current s.wheel := by
  obtain ⟨w, toGo, thread⟩ := s
  obtain rfl := h
  by_cases hcorrects : w.state = .positioningWithEncoder ∧ w.encoderTriggered = false
  · refine ⟨3, ?_⟩
    obtain ⟨hstate, htriggered⟩ := hcorrects
    simp [Machine.run, List.replicate, turnStep, Turn.threadStep, takeEncoderEvent, processEncoderEventPositioning,
      markEncoderTriggered, hstate, htriggered]
  · refine ⟨1, ?_⟩
    simp only [Machine.run, List.replicate, turnStep, Turn.threadStep, takeEncoderEvent, hcorrects, if_false]
    split
    · rename_i hstate
      have htriggered : w.encoderTriggered = true := by simpa [hstate] using hcorrects
      simp [processEncoderEventPositioning, htriggered]
    · rfl

/-! The invariant. -/

/-- What the thread has read is right. -/
def ThreadPc.Knows (s : Turn) : ThreadPc → Prop
  | .readStep reached _ => reached = true → s.toGo = 0
  | .decide reached currentPos _ => reached = true → currentPos = s.wheel.target
  | .readEncoder | .correct _ => s.wheel.state = .positioningWithEncoder
  | .poll | .takeStep _ | .takeEncoder => True

/-- The motor turns towards the target. -/
structure Turning (s : Turn) : Prop where
  state : s.wheel.state = .positioning ∨ s.wheel.state = .positioningWithEncoder
  current : OnCircle s.wheel.current
  target : OnCircle s.wheel.target
  edge : s.wheel.state = .positioningWithEncoder → OnCircle s.wheel.targetNotchEdge
  toGo : s.toGo%microsteps360Degrees = s.wheel.direction.distance s.wheel.current s.wheel.target
  ahead : 0 ≤ s.toGo ∨ s.thread.willHalt s.wheel.target = true
  knows : s.thread.Knows s

structure StopInv (tr : List TurnEvent) (s : Turn) : Prop where
  stops : ∀ halted, .processed true halted ∈ tr → halted = true
  halted : s.wheel.pwm = none → s.wheel.accelerationActive = false
  turning : s.wheel.pwm ≠ none → Turning s

variable {tr : List TurnEvent}

theorem StopInv.stopsAtTarget (h : StopInv tr s) : StopsAtTarget tr s :=
  ⟨h.stops, fun hpwm => (h.turning hpwm).ahead⟩

theorem current_eq_target (hcurrent : OnCircle s.wheel.current) (htarget : OnCircle s.wheel.target)
    (htoGo : s.toGo%microsteps360Degrees = s.wheel.direction.distance s.wheel.current s.wheel.target)
    (hzero : s.toGo = 0) : s.wheel.current = s.wheel.target := by
  have hdistance : s.wheel.direction.distance s.wheel.current s.wheel.target = 0 := by
    rw [hzero] at htoGo
    exact Int.natCast_eq_zero.mp htoGo.symm
  have hreached := (@advance_eq_iff _ s.wheel.current _ 0 htarget (by decide)).mpr hdistance.symm
  rwa [advance_zero _ hcurrent] at hreached

/-! Interrupts. -/

theorem Turning.stepIsr (h : Turning s) (htimely : s.toGo = 0 → s.thread.willHalt s.wheel.target = true) :
    Turning { s with wheel := OrbFirmware.Polarizer.stepIsr s.wheel, toGo := s.toGo-1 } := by
  obtain ⟨hstate, hcurrent, htarget, hedge, htoGo, hahead, hknows⟩ := h
  have hstepped := stepIsr_current hcurrent
  refine ⟨hstate, ?_, htarget, hedge, ?_, ?_, ?_⟩
  · rw [hstepped]
    exact advance_onCircle _ _ _
  · have hnext : (s.wheel.direction.distance (OrbFirmware.Polarizer.stepIsr s.wheel).current s.wheel.target : Int)
        = (s.wheel.direction.distance s.wheel.current s.wheel.target-1)%microsteps360Degrees := by
      rw [hstepped]
      exact distance_advance_emod _ 1 _ _
    rw [← htoGo, Int.emod_sub_emod] at hnext
    exact hnext.symm
  · obtain hahead | hwill := hahead
    · by_cases hzero : s.toGo = 0
      · exact .inr (htimely hzero)
      · left
        dsimp only
        omega
    · exact .inr hwill
  · cases hpc : s.thread with
    | readStep reached encoder =>
      rw [hpc] at hknows htimely
      intro hreached
      have hwill := htimely (hknows hreached)
      contradiction
    | poll | takeStep encoder | decide reached currentPos encoder | takeEncoder | readEncoder | correct currentPosition =>
      rw [hpc] at hknows
      exact hknows

theorem Turning.encoderCallback (h : Turning s) (pin : Bool) :
    Turning { s with wheel := OrbFirmware.Polarizer.encoderCallback pin s.wheel } := by
  obtain ⟨seen, hseen⟩ : ∃ seen,
      OrbFirmware.Polarizer.encoderCallback pin s.wheel = { s.wheel with encoderSem := seen } := by
    unfold OrbFirmware.Polarizer.encoderCallback
    split
    · exact ⟨true, rfl⟩
    · split_ifs
      · exact ⟨true, rfl⟩
      · exact ⟨s.wheel.encoderSem, rfl⟩
  obtain ⟨hstate, hcurrent, htarget, hedge, htoGo, hahead, hknows⟩ := h
  rw [hseen]
  refine ⟨hstate, hcurrent, htarget, hedge, htoGo, hahead, ?_⟩
  cases hpc : s.thread <;> rw [hpc] at hknows <;> exact hknows

/-! The thread. -/

theorem next_knows (encoder : Bool) (s : Turn) : (ThreadPc.next encoder).Knows s := by
  cases encoder <;> trivial

/-- A motor that is halted stays so. -/
theorem halted_thread (hpwm : s.wheel.pwm = none) (hconstant : s.wheel.accelerationActive = false) :
    s.threadStep.2.wheel.pwm = none ∧ s.threadStep.2.wheel.accelerationActive = false ∧
      ∀ reached halted, .processed reached halted ∈ s.threadStep.1 → halted = true := by
  cases hpc : s.thread with
  | poll | readStep reached encoder | readEncoder | correct currentPosition =>
    simp [Turn.threadStep, hpc, hpwm, hconstant, correctStepCounter]
  | takeStep encoder =>
    simp only [Turn.threadStep, hpc]
    split <;> simp [hpwm, hconstant]
  | decide reached currentPos encoder =>
    have hkept : (processStepEvent .ok currentPos s.wheel).2.pwm = none ∧
        (processStepEvent .ok currentPos s.wheel).2.accelerationActive = false := by
      simp only [processStepEvent, polarizerHalt, disableEncoder, hpwm, hconstant, Bool.false_eq_true, if_false]
      split_ifs <;> simp [hpwm, hconstant]
    simp [Turn.threadStep, hpc, hkept]
  | takeEncoder =>
    simp only [Turn.threadStep, hpc]
    split_ifs <;> simp [markEncoderTriggered, hpwm, hconstant]

theorem processStepEvent_reached {w : Wheel} {currentPos : Int} (h : currentPos = w.target) :
    (processStepEvent .ok currentPos w).2.pwm = none ∧ (processStepEvent .ok currentPos w).2.accelerationActive = false := by
  simp only [processStepEvent, h, if_true, polarizerHalt, disableEncoder, Drivers.ok]
  split_ifs <;> simp

/-- Elsewhere than at the target only the frequency changes. -/
theorem processStepEvent_underWay {w : Wheel} {currentPos : Int} (h : currentPos ≠ w.target) (hpwm : w.pwm ≠ none) :
    ∃ pwm, pwm ≠ none ∧ (processStepEvent .ok currentPos w).2 = { w with pwm } := by
  simp only [processStepEvent, h.symm, if_false]
  split_ifs
  · simp only [polarizerSetFrequency, Drivers.ok]
    split_ifs
    · exact ⟨w.pwm, hpwm, rfl⟩
    · exact ⟨_, Option.some_ne_none _, rfl⟩
  · exact ⟨w.pwm, hpwm, rfl⟩

theorem Turning.thread (h : Turning s) (hpwm : s.wheel.pwm ≠ none) :
    (∀ halted, .processed true halted ∈ s.threadStep.1 → halted = true) ∧
      (s.threadStep.2.wheel.pwm = none → s.threadStep.2.wheel.accelerationActive = false) ∧
      (s.threadStep.2.wheel.pwm ≠ none → Turning s.threadStep.2) := by
  obtain ⟨hstate, hcurrent, htarget, hedge, htoGo, hahead, hknows⟩ := h
  cases hpc : s.thread with
  | poll =>
    simp only [Turn.threadStep, hpc, List.not_mem_nil, false_implies, implies_true, true_and]
    exact ⟨fun hnone => absurd hnone hpwm, fun _ => ⟨hstate, hcurrent, htarget, hedge, htoGo, hahead, hknows⟩⟩
  | takeStep encoder =>
    have hnonneg : 0 ≤ s.toGo := by simpa [hpc, ThreadPc.willHalt] using hahead
    have heq : s.threadStep = ([], { s with
        wheel := { s.wheel with stepSem := false }
        thread := .readStep (s.toGo ≤ 0) encoder }) := by
      obtain hstate | hstate := hstate <;> simp [Turn.threadStep, hpc, hstate]
    rw [heq]
    refine ⟨by simp, fun hnone => absurd hnone hpwm, fun _ =>
      ⟨hstate, hcurrent, htarget, hedge, htoGo, .inl hnonneg, fun hreached => ?_⟩⟩
    have hle : s.toGo ≤ 0 := of_decide_eq_true hreached
    exact Int.le_antisymm hle hnonneg
  | readStep reached encoder =>
    rw [hpc] at hknows
    have hnonneg : 0 ≤ s.toGo := by simpa [hpc, ThreadPc.willHalt] using hahead
    simp only [Turn.threadStep, hpc]
    refine ⟨by simp, fun hnone => absurd hnone hpwm, fun _ =>
      ⟨hstate, hcurrent, htarget, hedge, htoGo, .inl hnonneg, fun hreached => ?_⟩⟩
    exact current_eq_target hcurrent htarget htoGo (hknows hreached)
  | decide reached currentPos encoder =>
    rw [hpc] at hknows hahead
    simp only [Turn.threadStep, hpc]
    by_cases hreads : currentPos = s.wheel.target
    · obtain ⟨hhalted, hconstant⟩ := processStepEvent_reached hreads
      exact ⟨by simp [hhalted], fun _ => hconstant, fun hnone => absurd hhalted hnone⟩
    · obtain ⟨pwm, hsome, heq⟩ := processStepEvent_underWay hreads hpwm
      have hnonneg : 0 ≤ s.toGo := by simpa [ThreadPc.willHalt, hreads] using hahead
      have hnot : reached = false := by
        cases reached with
        | false => rfl
        | true => exact absurd (hknows rfl) hreads
      rw [heq]
      exact ⟨by simp [hnot], fun hnone => absurd hnone hsome, fun _ =>
        ⟨hstate, hcurrent, htarget, hedge, htoGo, .inl hnonneg, next_knows encoder _⟩⟩
  | takeEncoder =>
    have hnonneg : 0 ≤ s.toGo := by simpa [hpc, ThreadPc.willHalt] using hahead
    simp only [Turn.threadStep, hpc]
    split_ifs with hcorrects
    · exact ⟨by simp, fun hnone => absurd hnone hpwm, fun _ =>
        ⟨hstate, hcurrent, htarget, hedge, htoGo, .inl hnonneg, hcorrects.1⟩⟩
    · exact ⟨by simp, fun hnone => absurd hnone hpwm, fun _ =>
        ⟨hstate, hcurrent, htarget, hedge, htoGo, .inl hnonneg, trivial⟩⟩
  | readEncoder =>
    rw [hpc] at hknows
    have hnonneg : 0 ≤ s.toGo := by simpa [hpc, ThreadPc.willHalt] using hahead
    simp only [Turn.threadStep, hpc]
    exact ⟨by simp, fun hnone => absurd hnone hpwm, fun _ =>
      ⟨hstate, hcurrent, htarget, hedge, htoGo, .inl hnonneg, hknows⟩⟩
  | correct currentPosition =>
    rw [hpc] at hknows
    simp only [Turn.threadStep, hpc]
    refine ⟨by simp, fun hnone => absurd hnone hpwm, fun _ =>
      ⟨hstate, hedge hknows, htarget, hedge, ?_, .inl (Int.natCast_nonneg _), trivial⟩⟩
    exact Int.emod_eq_of_lt (Int.natCast_nonneg _) (Int.ofNat_lt.mpr (distance_lt _ _ _))

theorem StopInv.thread (h : StopInv tr s) : StopInv (tr ++ s.threadStep.1) s.threadStep.2 := by
  by_cases hpwm : s.wheel.pwm = none
  · obtain ⟨hkept, hconstant, hevents⟩ := halted_thread hpwm (h.halted hpwm)
    refine ⟨fun halted hmem => ?_, fun _ => hconstant, fun hsome => absurd hkept hsome⟩
    obtain hmem | hmem := List.mem_append.mp hmem
    · exact h.stops halted hmem
    · exact hevents true halted hmem
  · obtain ⟨hevents, hhalted, hturning⟩ := (h.turning hpwm).thread hpwm
    refine ⟨fun halted hmem => ?_, hhalted, hturning⟩
    obtain hmem | hmem := List.mem_append.mp hmem
    · exact h.stops halted hmem
    · exact hevents halted hmem

theorem Turning.poll (h : Turning s) (step encoder : Bool) : Turning (s.pollReturns step encoder) := by
  obtain ⟨hstate, hcurrent, htarget, hedge, htoGo, hahead, hknows⟩ := h
  cases hpc : s.thread with
  | poll =>
    have hnonneg : 0 ≤ s.toGo := by simpa [hpc, ThreadPc.willHalt] using hahead
    simp only [Turn.pollReturns, hpc]
    split_ifs
    · exact ⟨hstate, hcurrent, htarget, hedge, htoGo, .inl hnonneg, trivial⟩
    · exact ⟨hstate, hcurrent, htarget, hedge, htoGo, .inl hnonneg, trivial⟩
    · exact ⟨hstate, hcurrent, htarget, hedge, htoGo, hahead, hknows⟩
  | takeStep seen | readStep reached seen | decide reached currentPos seen | takeEncoder | readEncoder
  | correct currentPosition =>
    simp only [Turn.pollReturns, hpc]
    exact ⟨hstate, hcurrent, htarget, hedge, htoGo, hahead, hknows⟩

theorem pollReturns_wheel (s : Turn) (step encoder : Bool) : (s.pollReturns step encoder).wheel = s.wheel := by
  unfold Turn.pollReturns
  split
  · split_ifs <;> rfl
  · rfl

theorem encoderCallback_motor (pin : Bool) (w : Wheel) :
    (encoderCallback pin w).pwm = w.pwm ∧ (encoderCallback pin w).accelerationActive = w.accelerationActive := by
  unfold encoderCallback
  split
  · exact ⟨rfl, rfl⟩
  · split_ifs <;> exact ⟨rfl, rfl⟩

theorem StopInv.step (tr : List TurnEvent) (s : Turn) (a : TurnAction) (h : StopInv tr s) (htimely : Timely s a) :
    StopInv (tr ++ (turnStep s a).1) (turnStep s a).2 := by
  have hsame : StopInv (tr ++ []) s := by
    rw [List.append_nil]
    exact h
  cases a with
  | step =>
    simp only [turnStep]
    split_ifs with hruns
    · rw [List.append_nil]
      exact ⟨h.stops, fun hnone => absurd hnone hruns.1, fun _ => (h.turning hruns.1).stepIsr (htimely hruns.1)⟩
    · exact hsame
  | encoder pin =>
    obtain ⟨hpwm, hactive⟩ := encoderCallback_motor pin s.wheel
    simp only [turnStep]
    split_ifs
    · rw [List.append_nil]
      refine ⟨h.stops, fun hnone => ?_, fun hsome => (h.turning ?_).encoderCallback pin⟩
      · dsimp only at hnone ⊢
        rw [hpwm] at hnone
        rw [hactive]
        exact h.halted hnone
      · dsimp only at hsome
        rwa [hpwm] at hsome
    · exact hsame
  | poll step encoder =>
    have hwheel := pollReturns_wheel s step encoder
    simp only [turnStep, List.append_nil]
    exact ⟨h.stops, by rw [hwheel]; exact h.halted, by rw [hwheel]; exact fun hsome => (h.turning hsome).poll step encoder⟩
  | thread => exact h.thread

/-! The beginning of a move. -/

/-- No width is larger than the circle. -/
def Calibration.Bounded (c : Calibration) : Prop :=
  c.bumpWidthPassThrough.toNat ≤ microsteps360Degrees ∧ c.bumpWidthVertical.toNat ≤ microsteps360Degrees ∧
    c.bumpWidthHorizontal.toNat ≤ microsteps360Degrees

instance (c : Calibration) : Decidable c.Bounded := inferInstanceAs (Decidable (_ ∧ _))

theorem getEdgeToCenterForPosition_le {c : Calibration} (hc : c.Bounded) (target : Int) :
    2*getEdgeToCenterForPosition c target ≤ microsteps360Degrees := by
  obtain ⟨hpass, hvertical, hhorizontal⟩ := hc
  simp only [getEdgeToCenterForPosition]
  split_ifs
  · decide
  · omega
  · omega
  · omega
  · decide

theorem calculateNotchEdge_onCircle {c : Calibration} (hc : c.Bounded) {target : Int} (htarget : OnCircle target)
    (direction : Direction) : OnCircle (calculateNotchEdge c target direction) := by
  have hle := getEdgeToCenterForPosition_le hc target
  obtain ⟨hnonneg, hlt⟩ := htarget
  cases direction with
  | forward =>
    simp only [calculateNotchEdge]
    split_ifs
    · exact ⟨by omega, by omega⟩
    · exact ⟨by omega, by omega⟩
  | backward =>
    simp only [calculateNotchEdge]
    split_ifs
    · exact ⟨by omega, by omega⟩
    · exact ⟨by omega, by omega⟩

/-- What a move begins with. -/
structure Started (w : Wheel) : Prop where
  pwm : w.pwm ≠ none
  state : w.state = .positioning ∨ w.state = .positioningWithEncoder
  current : OnCircle w.current
  target : OnCircle w.target
  edge : w.state = .positioningWithEncoder → OnCircle w.targetNotchEdge

theorem polarizerRotate_true {frequency : UInt32} {w : Wheel} (h : (polarizerRotate .ok frequency w).1 = true) :
    (polarizerRotate .ok frequency w).2 = { w with stepInterrupt := true, pwm := some frequency } := by
  simp only [polarizerRotate, polarizerSetFrequency, Drivers.ok, if_true] at h ⊢
  split_ifs at h ⊢
  rfl

theorem startMoving_started {w : Wheel} {useEncoder : Bool} {frequency : UInt32} (hcurrent : OnCircle w.current)
    (htarget : OnCircle w.target) (hedge : useEncoder = true → OnCircle w.targetNotchEdge)
    (hstarted : (startMoving .ok useEncoder frequency w).state ≠ .idle) :
    Started (startMoving .ok useEncoder frequency w) := by
  unfold startMoving at hstarted ⊢
  generalize (if frequency = 0 then w.minFrequency else frequency) = applied at hstarted ⊢
  dsimp only at hstarted ⊢
  cases hrotated : (polarizerRotate .ok applied w).1 with
  | false =>
    rw [hrotated] at hstarted
    exact absurd rfl hstarted
  | true =>
    rw [polarizerRotate_true hrotated, if_pos rfl]
    refine ⟨Option.some_ne_none _, ?_, hcurrent, htarget, fun hstate => hedge ?_⟩
    · cases useEncoder with
      | false => exact .inl rfl
      | true => exact .inr rfl
    · cases useEncoder with
      | false => contradiction
      | true => rfl

theorem chooseSpeed_current (frequency : UInt32) (signedDist : Int) (w : Wheel) :
    (chooseSpeed frequency signedDist w).current = w.current := by
  unfold chooseSpeed
  split_ifs <;> rfl

theorem chooseSpeed_edge (frequency : UInt32) (signedDist : Int) (w : Wheel) :
    (chooseSpeed frequency signedDist w).targetNotchEdge = w.targetNotchEdge := by
  unfold chooseSpeed
  split_ifs <;> rfl

theorem executeSetAngle_started {w : Wheel} {frequency angleDecidegrees : UInt32} {shortestPath : Bool}
    (hidle : w.state = .idle) (hcurrent : OnCircle w.current) (hc : w.calibration.Bounded)
    (hstarted : (executeSetAngle .ok frequency angleDecidegrees shortestPath w).2.state ≠ .idle) :
    Started (executeSetAngle .ok frequency angleDecidegrees shortestPath w).2 := by
  have htarget := targetStepOf_onCircle angleDecidegrees
  unfold executeSetAngle at hstarted ⊢
  rw [if_neg (by simp [hidle])] at hstarted ⊢
  dsimp only at hstarted ⊢
  split_ifs at hstarted ⊢ with hthere hencoder
  · exact absurd hidle hstarted
  · refine startMoving_started ?_ htarget (fun _ => ?_) hstarted
    · change OnCircle (chooseSpeed _ _ _).current
      rw [chooseSpeed_current]
      exact hcurrent
    · change OnCircle (chooseSpeed _ _ _).targetNotchEdge
      rw [chooseSpeed_edge]
      exact calculateNotchEdge_onCircle hc htarget _
  · refine startMoving_started ?_ htarget (fun hencoder' => ?_) hstarted
    · change OnCircle (chooseSpeed _ _ _).current
      rw [chooseSpeed_current]
      exact hcurrent
    · exact absurd (of_decide_eq_true hencoder') hencoder

theorem Started.turning {w : Wheel} (h : Started w) : Turning (.start w) := by
  have hdistance := distance_lt w.direction w.current w.target
  refine ⟨h.state, h.current, h.target, h.edge, ?_, .inl ?_, trivial⟩
  · simp only [Turn.start]
    split_ifs with hthere
    · have hzero : 0 = w.direction.distance w.current w.target := by
        refine (advance_eq_iff h.target (by decide)).mp ?_
        rw [advance_zero _ h.current]
        exact hthere
      rw [← hzero]
      rfl
    · exact Int.emod_eq_of_lt (Int.natCast_nonneg _) (Int.ofNat_lt.mpr hdistance)
  · simp only [Turn.start]
    split_ifs
    · decide
    · exact Int.natCast_nonneg _

/-- A positioning move stops at its target, however the interrupts and the thread come in between each other, as long
as the thread reads the counter at the target before the next step. -/
theorem move_stops {w : Wheel} {frequency angleDecidegrees : UInt32} {shortestPath : Bool}
    (hidle : w.state = .idle) (hcurrent : OnCircle w.current) (hc : w.calibration.Bounded)
    (hstarted : (executeSetAngle .ok frequency angleDecidegrees shortestPath w).2.state ≠ .idle)
    (as : List TurnAction)
    (hm : Machine.Meets turnStep Timely (.start (executeSetAngle .ok frequency angleDecidegrees shortestPath w).2) as) :
    let s := Turn.start (executeSetAngle .ok frequency angleDecidegrees shortestPath w).2
    StopsAtTarget (Machine.events turnStep s as) (Machine.run turnStep s as).2 := by
  have h := executeSetAngle_started hidle hcurrent hc hstarted
  have hinit : StopInv [] (Turn.start (executeSetAngle .ok frequency angleDecidegrees shortestPath w).2) :=
    ⟨by simp, fun hnone => absurd hnone h.pwm, fun _ => h.turning⟩
  exact (Machine.events_invariant StopInv.step [] _ as hinit hm).stopsAtTarget

/-- Two microsteps, with a third one after the thread has read the counter. -/
theorem move_stops_short :
    let s := Turn.start (executeSetAngle .ok 128 28 false homedWheel).2
    let as := [.step, .step, .poll true false, .thread, .thread, .step, .thread]
    StopsAtTarget (Machine.events turnStep s as) (Machine.run turnStep s as).2 :=
  move_stops rfl (by decide) (by decide) (by decide) _ (by decide +kernel)

/-- The third step before the thread reads the counter: it does not halt the motor. -/
theorem move_does_not_stop :
    let s := Turn.start (executeSetAngle .ok 128 28 false homedWheel).2
    let as := [.step, .step, .step, .poll true false, .thread, .thread, .thread]
    ¬ StopsAtTarget (Machine.events turnStep s as) (Machine.run turnStep s as).2 := by
  intro s as h
  have hprocessed : .processed true false ∈ Machine.events turnStep s as := by decide +kernel
  exact absurd (h.stops false hprocessed) (by decide)

end OrbFirmware.Polarizer

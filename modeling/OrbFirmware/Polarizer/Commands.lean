import OrbFirmware.Flash
import OrbFirmware.Machine
import OrbFirmware.Polarizer.Wheel

/-! How commands reach the polarizer wheel: the calls that queue one, the thread that takes and executes it, and
the one slot, the semaphore and the wheel's state between them. -/
namespace OrbFirmware.Polarizer
variable {ι : Type*}

/-- A command with its parameters. -/
inductive Command where
  | setAngle (cmd : SetAngleCmd)
  | home
  | calibrate
  deriving DecidableEq

/-- An assignment of a call to the variables it shares with the thread. -/
inductive CmdStore where
  | type (type : Cmd)
  | frequency (frequency : UInt32)
  | angleDecidegrees (angleDecidegrees : UInt32)
  | shortestPath (shortestPath : Bool)
  | homingSuccess (success : Bool)
  deriving DecidableEq

/-- Where a call stands. `store` with no store left is the give of `cmd_sem`. -/
inductive CallerPc where
  | idle
  | lock (command : Command)
  | check (command : Command)
  | store (command : Command) (rest : List CmdStore)
  | unlock (command : Command) (ret : RetCode)
  deriving DecidableEq

/-- Where the thread stands: `take` is past the poll that found `cmd_sem`, `moving` in `execute_set_angle` with
the state that follows if the wheel spins, `recover` before the give in `process_step_event`, and the others from
`startHoming` on in `execute_homing` and `execute_calibration`. -/
inductive WheelPc (ι : Type*) where
  | loop
  | take
  | readType
  | clearType (cmd : Cmd) (owner : Option ι)
  | readFrequency (owner : Option ι)
  | readAngle (owner : Option ι) (frequency : UInt32)
  | readPath (owner : Option ι) (frequency angleDecidegrees : UInt32)
  | execute (owner : Option ι) (command : Command)
  | moving (next : WheelState)
  | recover
  | startHoming
  | homing
  | homedIdle
  | homedSuccess
  | homed
  | calibrating
  | calibrated
  deriving DecidableEq

/-- The variables the calls share with the thread, and where each of them stands. `owner` is no variable of the
program: it says which caller's command the slot holds, if it is not the thread's own. -/
structure Commands (ι : Type*) where
  state : WheelState
  homingSuccess : Bool
  needsCalibration : Bool
  current : Int
  pendingCmd : Cmd
  setAngle : SetAngleCmd
  owner : Option ι
  cmdSem : Bool
  cmdMutex : Option ι
  thread : WheelPc ι
  callers : ι → CallerPc

/-- A command is posted with the give of `cmd_sem`, and dropped where the thread refuses to execute it. -/
inductive CommandEvent (ι : Type*) where
  | posted (i : ι) (command : Command)
  | returned (i : ι) (command : Command) (ret : RetCode)
  | executed (owner : Option ι) (command : Command)
  | dropped (owner : Option ι) (command : Command)
  deriving DecidableEq

/-- `run i timedOut` is the next step of the call of thread `i`, and `thread ok` that of the wheel's thread, where
`ok` says whether the wheel spins, is homed or gets through its calibration. `stepEvent` is a step event taken at
the target, and `steps` what the interrupts leave in the step counter. -/
inductive CommandAction (ι : Type*) where
  | call (i : ι) (command : Command) (maxFrequency : UInt32)
  | run (i : ι) (timedOut : Bool)
  | thread (ok : Bool)
  | stepEvent (encoderTriggered : Bool)
  | steps (current : Int)

/-- The parameters that `polarizer_wheel_set_angle` refuses. -/
def Command.invalid (maxFrequency : UInt32) : Command → Bool
  | .setAngle cmd =>
    decide (3600 < cmd.angleDecidegrees ∨ maxFrequency < cmd.frequency ∨
      cmd.frequency ≠ 0 ∧ cmd.frequency < spinPwmFrequencyMinimum)
  | .home | .calibrate => false

/-- What `polarizer_wheel_set_angle` stores with the mutex locked, or its error. -/
def polarizerWheelSetAngle (cmd : SetAngleCmd) (s : Commands ι) : Except RetCode (List CmdStore) :=
  if s.state = .uninitialized then .error .notInitialized
  else if s.state ≠ .idle then .error .busy
  else
    .ok [.type .setAngle, .frequency cmd.frequency, .angleDecidegrees cmd.angleDecidegrees,
      .shortestPath cmd.shortestPath]

def polarizerWheelHomeAsync (s : Commands ι) : Except RetCode (List CmdStore) :=
  if s.state ≠ .idle ∧ s.state ≠ .uninitialized then .error .busy
  else .ok [.type .home, .homingSuccess false]

def polarizerWheelCalibrateAsync (s : Commands ι) : Except RetCode (List CmdStore) :=
  if s.state = .uninitialized ∨ s.homingSuccess = false then .error .notInitialized
  else if s.state ≠ .idle then .error .busy
  else if getCurrentPosition s.current ≠ .passThrough then .error .invalidState
  else .ok [.type .calibrate]

def Command.queue (s : Commands ι) : Command → Except RetCode (List CmdStore)
  | .setAngle cmd => polarizerWheelSetAngle cmd s
  | .home => polarizerWheelHomeAsync s
  | .calibrate => polarizerWheelCalibrateAsync s

def CmdStore.apply (i : ι) (s : Commands ι) : CmdStore → Commands ι
  | .type value => { s with pendingCmd := value, owner := some i }
  | .frequency value => { s with setAngle := { s.setAngle with frequency := value } }
  | .angleDecidegrees value => { s with setAngle := { s.setAngle with angleDecidegrees := value } }
  | .shortestPath value => { s with setAngle := { s.setAngle with shortestPath := value } }
  | .homingSuccess value => { s with homingSuccess := value }

/-- The state that `execute_set_angle` leaves an idle wheel in, if the wheel spins. -/
def movingState (current : Int) (cmd : SetAngleCmd) : WheelState :=
  let target := angleToPosition cmd.angleDecidegrees
  if getCurrentPosition current = target ∧ getCurrentPosition current ≠ .unknown then .idle
  else if target ≠ .unknown ∧ cmd.frequency ≠ 0 then .positioningWithEncoder
  else .positioning

/-- `execute_calibration` begins only on a homed wheel at rest at the pass-through position. -/
def Commands.calibrates (s : Commands ι) : Bool :=
  s.state = .idle && s.homingSuccess && getCurrentPosition s.current = .passThrough

def threadStep (ok : Bool) (s : Commands ι) : WheelPc ι → List (CommandEvent ι) × Commands ι
  | .loop => ([], if s.cmdSem then { s with thread := .take } else s)
  | .take => ([], { s with cmdSem := false, thread := .readType })
  | .readType => ([], { s with thread := .clearType s.pendingCmd s.owner })
  | .clearType cmd owner =>
    ([], { s with
      pendingCmd := .none
      thread :=
        match cmd with
        | .none => .loop
        | .home => .execute owner .home
        | .setAngle => .readFrequency owner
        | .calibrate => .execute owner .calibrate })
  | .readFrequency owner => ([], { s with thread := .readAngle owner s.setAngle.frequency })
  | .readAngle owner frequency =>
    ([], { s with thread := .readPath owner frequency s.setAngle.angleDecidegrees })
  | .readPath owner frequency angleDecidegrees =>
    ([], { s with
      thread := .execute owner (.setAngle ⟨frequency, angleDecidegrees, s.setAngle.shortestPath⟩) })
  | .execute owner (.setAngle cmd) =>
    if s.state = .idle then
      ([.executed owner (.setAngle cmd)], { s with thread := .moving (movingState s.current cmd) })
    else ([.dropped owner (.setAngle cmd)], { s with thread := .loop })
  | .execute owner .home => ([.executed owner .home], { s with thread := .startHoming })
  | .execute owner .calibrate =>
    if s.calibrates then ([.executed owner .calibrate], { s with state := .calibrating, thread := .calibrating })
    else ([.dropped owner .calibrate], { s with thread := .loop })
  | .moving next => ([], { s with state := if ok then next else .idle, thread := .loop })
  | .recover => ([], { s with cmdSem := true, thread := .loop })
  | .startHoming => ([], { s with state := .homing, thread := .homing })
  | .homing =>
    if ok then ([], { s with state := .idle, thread := .homedIdle })
    else ([], { s with homingSuccess := false, state := .uninitialized, thread := .loop })
  | .homedIdle => ([], { s with homingSuccess := true, thread := .homedSuccess })
  | .homedSuccess => ([], { s with current := 0, thread := .homed })
  | .homed =>
    -- the calibration that follows the first homing
    if s.needsCalibration ∧ s.calibrates then
      ([], { s with needsCalibration := false, state := .calibrating, thread := .calibrating })
    else ([], { s with needsCalibration := false, thread := .loop })
  | .calibrating => ([], { s with state := .idle, thread := if ok then .calibrated else .loop })
  | .calibrated => ([], { s with homingSuccess := false, needsCalibration := false, thread := .startHoming })

/-- `process_step_event` at the target. -/
def targetReached (encoderTriggered : Bool) (s : Commands ι) : Commands ι :=
  match s.state with
  | .positioningWithEncoder | .positioning | .homing =>
    if s.state = .positioningWithEncoder ∧ encoderTriggered = false then
      { s with pendingCmd := .home, owner := none, thread := .recover }
    else { s with state := .idle }
  | .uninitialized | .idle | .calibrating => s

/-- Behind `polarizer_wheel_init`, before the homing it queues. -/
def Commands.initial : Commands ι where
  state := .uninitialized
  homingSuccess := false
  needsCalibration := true
  current := 0
  pendingCmd := .none
  setAngle := ⟨0, 0, false⟩
  owner := none
  cmdSem := false
  cmdMutex := none
  thread := .loop
  callers := fun _ => .idle

section
variable [DecidableEq ι]

def Commands.at (s : Commands ι) (i : ι) (pc : CallerPc) : Commands ι :=
  { s with callers := Function.update s.callers i pc }

/-- A step of a call; it ends before the next access to what is shared. -/
def callerStep (s : Commands ι) (i : ι) (timedOut : Bool) : CallerPc → List (CommandEvent ι) × Commands ι
  | .idle => ([], s)
  | .lock command =>
    if s.cmdMutex = none then ([], { s with cmdMutex := some i }.at i (.check command))
    else if timedOut then ([.returned i command .busy], s.at i .idle)
    else ([], s)
  | .check command =>
    match command.queue s with
    | .ok stores => ([], s.at i (.store command stores))
    | .error err => ([], s.at i (.unlock command err))
  | .store command (new :: rest) => ([], (new.apply i s).at i (.store command rest))
  | .store command [] => ([.posted i command], { s with cmdSem := true }.at i (.unlock command .success))
  | .unlock command ret => ([.returned i command ret], { s with cmdMutex := none }.at i .idle)

def commandStep (s : Commands ι) : CommandAction ι → List (CommandEvent ι) × Commands ι
  | .call i command maxFrequency =>
    match s.callers i with
    | .idle =>
      if command.invalid maxFrequency then ([.returned i command .invalidParam], s)
      else ([], s.at i (.lock command))
    | _ => ([], s)
  | .run i timedOut => callerStep s i timedOut (s.callers i)
  | .thread ok => threadStep ok s s.thread
  | .stepEvent encoderTriggered =>
    match s.thread with
    | .loop => ([], targetReached encoderTriggered s)
    | _ => ([], s)
  | .steps current => ([], { s with current })

end

/-! The steps of the thread that move the wheel are what its functions do to the wheel as a whole. -/

variable {s : Commands ι} {w : Wheel}

/-- The shared variables but the state, in the wheel as a whole. -/
def Wheel.shared (w : Wheel) : Bool × Bool × Int × Cmd × SetAngleCmd × Bool :=
  (w.homingSuccess, w.calibration.needsCalibration, w.current, w.pendingCmd, w.setAngle, w.cmdSem)

theorem setDirection_shared (d : Drivers) (direction : Direction) (w : Wheel) :
    (setDirection d direction w).shared = w.shared := by
  rw [setDirection]
  split_ifs <;> rfl

theorem setDirection_targetPosition (d : Drivers) (direction : Direction) (w : Wheel) :
    (setDirection d direction w).targetPosition = w.targetPosition := by
  rw [setDirection]
  split_ifs <;> rfl

theorem armEncoder_shared (d : Drivers) (targetStep : Int) (w : Wheel) :
    (armEncoder d targetStep w).shared = w.shared := by
  rw [armEncoder, enableEncoder]
  split_ifs <;> rfl

theorem chooseSpeed_shared (frequency : UInt32) (signedDist : Int) (w : Wheel) :
    (chooseSpeed frequency signedDist w).shared = w.shared := by
  rw [chooseSpeed]
  split_ifs <;> rfl

theorem startMoving_shared (d : Drivers) (useEncoder : Bool) (frequency : UInt32) (w : Wheel) :
    (startMoving d useEncoder frequency w).shared = w.shared := by
  simp only [startMoving, polarizerRotate, polarizerSetFrequency]
  split_ifs <;> rfl

theorem startMoving_state (d : Drivers) (useEncoder : Bool) (frequency : UInt32) (w : Wheel) :
    ∃ ok : Bool, (startMoving d useEncoder frequency w).state =
      if ok then (if useEncoder then .positioningWithEncoder else .positioning) else .idle := ⟨_, rfl⟩

theorem executeSetAngle_shared (d : Drivers) (frequency angleDecidegrees : UInt32) (shortestPath : Bool) (w : Wheel) :
    (executeSetAngle d frequency angleDecidegrees shortestPath w).2.shared = w.shared := by
  unfold executeSetAngle
  split
  · rfl
  · dsimp only
    split
    · rfl
    · rw [startMoving_shared]
      change (chooseSpeed _ _ _).shared = _
      rw [chooseSpeed_shared]
      split
      · rw [armEncoder_shared, setDirection_shared]
        rfl
      · rw [setDirection_shared]
        rfl

theorem executeSetAngle_state (d : Drivers) (cmd : SetAngleCmd) {w : Wheel} (hidle : w.state = .idle) :
    ∃ ok : Bool, (executeSetAngle d cmd.frequency cmd.angleDecidegrees cmd.shortestPath w).2.state =
      if ok then movingState w.current cmd else .idle := by
  unfold executeSetAngle
  rw [if_neg (not_not_intro hidle)]
  dsimp only
  split
  · exact ⟨false, hidle⟩
  · rename_i hthere
    have hmoves : ¬(getCurrentPosition w.current = angleToPosition cmd.angleDecidegrees ∧
        getCurrentPosition w.current ≠ .unknown) := hthere
    refine (startMoving_state _ _ _ _).imp fun ok hok => hok.trans ?_
    rw [movingState, if_neg hmoves, setDirection_targetPosition]
    simp only [decide_eq_true_eq]
    rfl

def Commands.shared (s : Commands ι) : Bool × Bool × Int × Cmd × SetAngleCmd × Bool :=
  (s.homingSuccess, s.needsCalibration, s.current, s.pendingCmd, s.setAngle, s.cmdSem)

/-- Both have the same state and the same shared variables. -/
def Commands.Agrees (s : Commands ι) (w : Wheel) : Prop := s.state = w.state ∧ s.shared = w.shared

/-- `execute_set_angle` of an idle wheel is two steps of the thread. -/
theorem Commands.Agrees.setAngle (h : s.Agrees w) (hidle : s.state = .idle) (d : Drivers) (owner : Option ι)
    (cmd : SetAngleCmd) :
    ∃ ok, (threadStep ok (threadStep ok s (.execute owner (.setAngle cmd))).2 (.moving (movingState s.current cmd))).2.Agrees
      (executeSetAngle d cmd.frequency cmd.angleDecidegrees cmd.shortestPath w).2 := by
  obtain ⟨hstate, hshared⟩ := h
  have hcurrent : s.current = w.current := congrArg (·.2.2.1) hshared
  obtain ⟨ok, hok⟩ := executeSetAngle_state d cmd (hstate.symm.trans hidle)
  refine ⟨ok, ?_, ?_⟩
  · rw [hok, ← hcurrent]
    rfl
  · rw [executeSetAngle_shared, ← hshared]
    simp only [threadStep, hidle, if_true]
    rfl

theorem Commands.Agrees.busy (h : s.Agrees w) (hbusy : s.state ≠ .idle) (d : Drivers) (ok : Bool) (owner : Option ι)
    (cmd : SetAngleCmd) :
    (threadStep ok s (.execute owner (.setAngle cmd))).2.Agrees
      (executeSetAngle d cmd.frequency cmd.angleDecidegrees cmd.shortestPath w).2 := by
  have hbusy' : w.state ≠ .idle := h.1 ▸ hbusy
  rw [executeSetAngle, if_pos hbusy', threadStep, if_neg hbusy]
  exact h

theorem processStepEvent_arrives (d : Drivers) {w : Wheel}
    (harrives : ¬(w.state = .positioningWithEncoder ∧ w.encoderTriggered = false)) :
    (processStepEvent d w.target w).2.state = .idle ∧ (processStepEvent d w.target w).2.shared = w.shared := by
  rw [processStepEvent, if_pos rfl, if_neg harrives]
  refine ⟨rfl, ?_⟩
  change (if w.encoderEnabled then disableEncoder d (polarizerHalt d w) else polarizerHalt d w).shared = _
  rw [disableEncoder]
  split_ifs <;> rfl

theorem takeStepEvent_eq (d : Drivers) (currentPos : Int) (w : Wheel) :
    (w.state = .uninitialized ∨ w.state = .idle ∨ w.state = .calibrating) ∧
        takeStepEvent d currentPos w = ([], { w with stepSem := false }) ∨
      (w.state = .positioningWithEncoder ∨ w.state = .positioning ∨ w.state = .homing) ∧
        takeStepEvent d currentPos w = processStepEvent d currentPos { w with stepSem := false } := by
  cases hstate : w.state <;> simp [takeStepEvent, hstate]

/-- A step event at the target is one step of the thread. -/
theorem Commands.Agrees.arrives (h : s.Agrees w) (d : Drivers)
    (harrives : ¬(w.state = .positioningWithEncoder ∧ w.encoderTriggered = false)) :
    (targetReached w.encoderTriggered s).Agrees (takeStepEvent d w.target w).2 := by
  obtain ⟨hstate, hshared⟩ := h
  have harrives' : ¬(s.state = .positioningWithEncoder ∧ w.encoderTriggered = false) := by rwa [hstate]
  obtain ⟨hstill, htake⟩ | ⟨hmoving, htake⟩ := takeStepEvent_eq d w.target w
  · have hsame : targetReached w.encoderTriggered s = s := by
      rw [← hstate] at hstill
      obtain hs | hs | hs := hstill <;> simp only [targetReached, hs]
    rw [hsame, htake]
    exact ⟨hstate, hshared⟩
  · have hidle : targetReached w.encoderTriggered s = { s with state := .idle } := by
      rw [← hstate] at hmoving
      unfold targetReached
      split
      case h_4 hs | h_5 hs | h_6 hs => simp [hs] at hmoving
      all_goals exact if_neg harrives'
    obtain ⟨hreached, hsame⟩ := processStepEvent_arrives (w := { w with stepSem := false }) d harrives
    rw [hidle, htake]
    exact ⟨hreached.symm, hshared.trans hsame.symm⟩

/-- A step event at the target of a move whose encoder has not triggered is a step of the thread and the give. -/
theorem Commands.Agrees.recovers (h : s.Agrees w) (d : Drivers) (ok : Bool) (hstate : w.state = .positioningWithEncoder)
    (hencoder : w.encoderTriggered = false) :
    (threadStep ok (targetReached w.encoderTriggered s) .recover).2.Agrees (takeStepEvent d w.target w).2 := by
  obtain ⟨hsame, hshared⟩ := h
  have hstate' := hsame.trans hstate
  simp only [Commands.shared, Wheel.shared, Prod.mk.injEq] at hshared
  obtain ⟨hsuccess, hneeds, hcurrent, -, hsetAngle, -⟩ := hshared
  simp only [targetReached, takeStepEvent, hstate', hstate, processStepEvent, hencoder, and_self, if_true, threadStep]
  refine ⟨rfl, ?_⟩
  simp only [Commands.shared, Wheel.shared, polarizerHalt, hsuccess, hneeds, hcurrent, hsetAngle]

end OrbFirmware.Polarizer

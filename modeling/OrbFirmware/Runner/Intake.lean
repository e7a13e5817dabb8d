import OrbFirmware.Pubsub.Publish
import OrbFirmware.Runner.Handlers
import Mathlib.Data.List.Infix

/-! How jobs reach the runner: `runner_handle_new_cli`, `runner_handle_new_can` and `runner_handle_new_uart` fill
the static variables `new` and `mcu_message` under `new_job_sem` and put `new` into `process_queue`. -/
namespace OrbFirmware.Runner
variable {ι : Type*}

/-- `orb_mcu_main_JetsonToMcu`. -/
structure JetsonCmd where
  ackNumber : UInt32
  payload : JetsonToMcu
  deriving DecidableEq

inductive WhichMessage where
  | jMessage | secToMainMessage
  | other (tag : UInt32)
  deriving DecidableEq

/-- `orb_mcu_McuMessage`: the tag and what each member of the union reads as. -/
structure McuMessage where
  whichMessage : WhichMessage
  jMessage : JetsonCmd
  secToMainMessage : SecToMain
  deriving DecidableEq

/-- The `message` union of a `job_t`, with the member written last. -/
inductive JobMessage where
  | jetsonCmd (cmd : JetsonCmd)
  | secCmd (cmd : SecToMain)
  deriving DecidableEq

/-- A `job_t` while it is filled: nothing ties the union's member to `remote`. -/
structure NewJob extends Context where
  message : JobMessage
  deriving DecidableEq

def McuMessage.zero : McuMessage := ⟨.other 0, ⟨0, .other 0⟩, .other 0⟩

def NewJob.zero : NewJob := ⟨⟨.canJetsonMessaging, 0, 0⟩, .jetsonCmd ⟨0, .other 0⟩⟩

/-- Slots of `process_queue`. -/
def processQueueSize : Nat := 8

/-- A call with its argument: the message, a CAN message, or the bytes a UART message stands for. -/
inductive IntakeCall where
  | cli (message : JetsonCmd)
  | can (destination : UInt32) (bytes : List UInt8)
  | uart (bytes : List UInt8)
  deriving DecidableEq

/-- The input stream of the decoder. -/
def IntakeCall.bytes : IntakeCall → List UInt8
  | .cli _ => []
  | .can _ bytes | .uart bytes => bytes

/-- An assignment to `new`; the ones named `mcu` read `mcu_message`. -/
inductive NewStore where
  | remote (remote : RemoteType)
  | jetsonCmd (message : JetsonCmd)
  | mcuJetsonCmd
  | mcuSecCmd
  | ackNumber (ackNumber : UInt32)
  | mcuAckNumber
  | remoteAddr (remoteAddr : UInt32)
  | orRemoteAddr (bits : UInt32)
  deriving DecidableEq

def NewStore.apply (m : McuMessage) (job : NewJob) : NewStore → NewJob
  | .remote value => { job with remote := value }
  | .jetsonCmd message => { job with message := .jetsonCmd message }
  | .mcuJetsonCmd => { job with message := .jetsonCmd m.jMessage }
  | .mcuSecCmd => { job with message := .secCmd m.secToMainMessage }
  | .ackNumber value => { job with ackNumber := value }
  | .mcuAckNumber => { job with ackNumber := m.jMessage.ackNumber }
  | .remoteAddr value => { job with remoteAddr := value }
  | .orRemoteAddr bits => { job with remoteAddr := job.remoteAddr ||| bits }

/-- What `runner_handle_new_cli` stores with the semaphore taken. -/
def runnerHandleNewCli (message : JetsonCmd) : List NewStore :=
  [.remote .cli, .jetsonCmd message, .remoteAddr 0, .ackNumber 0]

/-- What `runner_handle_new_can` does with a message it has decoded: the stores before it puts the job, or its
error. -/
def runnerHandleNewCan (destination : UInt32) (decoded : Bool) (whichMessage : WhichMessage) :
    Except RetCode (List NewStore) :=
  if decoded then
    match whichMessage with
    | .jMessage =>
      .ok ([.remote .canJetsonMessaging, .mcuJetsonCmd, .mcuAckNumber] ++
        if destination &&& Pubsub.canAddrIsIsotp ≠ 0 then
          -- source and destination change places, the flags stay
          [.remoteAddr (destination &&& ~~~0xFF), .orRemoteAddr ((destination &&& 0xF) <<< 4),
            .orRemoteAddr ((destination &&& 0xF0) >>> 4)]
        else [.remoteAddr canAddressMcuToJetsonTx])
    | .secToMainMessage =>
      .ok [.remote .canSecMcuMessaging, .mcuSecCmd, .ackNumber 0, .remoteAddr Pubsub.canAddressMcuToMcuTx]
    | .other _ => .error .invalidAddr
  else .error .invalidParam

def runnerHandleNewUart (decoded : Bool) (whichMessage : WhichMessage) : Except RetCode (List NewStore) :=
  if decoded then
    match whichMessage with
    | .jMessage => .ok [.remote .uartMessaging, .mcuJetsonCmd, .remoteAddr 0, .ackNumber 0]
    | _ => .error .invalidAddr
  else .error .invalidParam

def IntakeCall.handle (call : IntakeCall) (decoded : Bool) (whichMessage : WhichMessage) :
    Except RetCode (List NewStore) :=
  match call with
  | .cli message => .ok (runnerHandleNewCli message)
  | .can destination _ => runnerHandleNewCan destination decoded whichMessage
  | .uart _ => runnerHandleNewUart decoded whichMessage

/-- Where a producer stands. `decoding` is inside the decoder, `store` with no store left is the put, and
`unheldGive` is the `k_sem_give` that the CLI reaches after a take that timed out. -/
inductive IntakePc where
  | idle
  | start (call : IntakeCall)
  | take (call : IntakeCall)
  | decode (call : IntakeCall)
  | decoding (call : IntakeCall)
  | dispatch (call : IntakeCall) (decoded : Bool)
  | store (call : IntakeCall) (rest : List NewStore)
  | give (call : IntakeCall) (ret : RetCode)
  | unheldGive (call : IntakeCall)
  deriving DecidableEq

/-- The static variables, the queue and where each thread stands that hands messages to the runner. -/
structure Intake (ι : Type*) where
  newJobSem : Bool
  job : NewJob
  mcuMessage : McuMessage
  processQueue : List NewJob
  runnerTid : Bool
  producers : ι → IntakePc

inductive IntakeEvent (ι : Type*) where
  | called (i : ι) (call : IntakeCall)
  | placed (i : ι) (job : NewJob)
  | returned (i : ι) (ret : RetCode)
  | got (job : NewJob)
  deriving DecidableEq

/-- `run i timedOut` is the next step of thread `i`; `timedOut` says whether a wait in it has reached its
timeout. `get` is the runner's thread at `process_queue`. -/
inductive IntakeAction (ι : Type*) where
  | init
  | call (i : ι) (call : IntakeCall)
  | run (i : ι) (timedOut : Bool)
  | get

variable [DecidableEq ι]

def Intake.at (s : Intake ι) (i : ι) (pc : IntakePc) : Intake ι :=
  { s with producers := Function.update s.producers i pc }

/-- A step of a producer; it ends before the next access to what the producers share. `decode` stands for
`pb_decode_ex`: whether it succeeds, and what it leaves in the message. -/
def producerStep (decode : List UInt8 → Bool × McuMessage) (s : Intake ι) (i : ι) (timedOut : Bool) :
    IntakePc → List (IntakeEvent ι) × Intake ι
  | .idle => ([], s)
  | .start call =>
    match call with
    | .cli _ => ([], s.at i (.take call))
    | .can _ _ | .uart _ =>
      if s.runnerTid then ([], s.at i (.take call))
      else ([.returned i .invalidState], s.at i .idle)
  | .take call =>
    if s.newJobSem then
      match call with
      | .cli message => ([], { s with newJobSem := false }.at i (.store call (runnerHandleNewCli message)))
      | .can _ _ | .uart _ => ([], { s with newJobSem := false }.at i (.decode call))
    else if timedOut then
      match call with
      | .cli _ => ([], s.at i (.unheldGive call))
      | .can _ _ | .uart _ => ([.returned i .busy], s.at i .idle)
    else ([], s)
  | .decode call => ([], { s with mcuMessage := .zero }.at i (.decoding call))
  | .decoding call =>
    ([], { s with mcuMessage := (decode call.bytes).2 }.at i (.dispatch call (decode call.bytes).1))
  | .dispatch call decoded =>
    match call.handle decoded s.mcuMessage.whichMessage with
    | .ok stores => ([], s.at i (.store call stores))
    | .error err => ([], s.at i (.give call err))
  | .store call (new :: rest) => ([], { s with job := new.apply s.mcuMessage s.job }.at i (.store call rest))
  | .store call [] =>
    if s.processQueue.length < processQueueSize then
      ([.placed i s.job], { s with processQueue := s.processQueue ++ [s.job] }.at i (.give call .success))
    else if timedOut then ([], s.at i (.give call .busy))
    else ([], s)
  | .give _ ret => ([.returned i ret], { s with newJobSem := true }.at i .idle)
  | .unheldGive _ => ([.returned i .success], { s with newJobSem := true }.at i .idle)

def intakeStep (decode : List UInt8 → Bool × McuMessage) (s : Intake ι) :
    IntakeAction ι → List (IntakeEvent ι) × Intake ι
  | .init => ([], { s with runnerTid := true })
  | .call i call =>
    match s.producers i with
    | .idle => ([.called i call], s.at i (.start call))
    | _ => ([], s)
  | .run i timedOut => producerStep decode s i timedOut (s.producers i)
  | .get =>
    match s.processQueue with
    | [] => ([], s)
    | job :: processQueue => ([.got job], { s with processQueue })

def Intake.initial : Intake ι := ⟨true, .zero, .zero, [], false, fun _ => .idle⟩

end OrbFirmware.Runner

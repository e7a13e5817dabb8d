import OrbFirmware.Dfu.Completion
import OrbFirmware.Runner.Handlers

/-! The runner's thread handling blocks of an image, and the processing thread of the DFU module that calls
`handle_err_code` back. They share the static context of `handle_dfu_block_message`. -/
namespace OrbFirmware.Runner
open Interaction Dfu

/-- A `dfu_block` message, received on CAN. -/
structure BlockMessage where
  remoteAddr : UInt32
  ackNumber : UInt32
  blockNumber : UInt32
  blockCount : UInt32
  imageBlock : List UInt8
  deriving DecidableEq

def BlockMessage.context (m : BlockMessage) : Context := ⟨.canJetsonMessaging, m.remoteAddr, m.ackNumber⟩

def BlockMessage.job (m : BlockMessage) : Job :=
  ⟨m.context, .dfuBlock m.blockNumber m.blockCount m.imageBlock⟩

/-- Its call of `dfu_load`: there is one context and one callback, both not NULL. -/
def BlockMessage.load (m : BlockMessage) : LoadCall Unit Unit :=
  ⟨m.blockNumber, m.blockCount, m.imageBlock, some (), some ()⟩

def returnValue : DfuRet → Int
  | .code ret => ret.value
  | .einprogress => -eInProgress

inductive ContextField where
  | remote | remoteAddr | ackNumber
  deriving DecidableEq

def Context.store (context job : Context) : ContextField → Context
  | .remote => { context with remote := job.remote }
  | .remoteAddr => { context with remoteAddr := job.remoteAddr }
  | .ackNumber => { context with ackNumber := job.ackNumber }

/-- The runner's thread: at the next call of its program, before the store of a field, or in `dfu_load`. -/
inductive RunnerPc where
  | run (program : Handler Unit)
  | store (field : ContextField) (job : Context) (rest : Handler Unit)
  | load (next : Int → Handler Unit)

/-- The processing thread in `handle_err_code`, before the read of a field. -/
inductive CallbackPc where
  | idle
  | remote (err : RetCode)
  | ackNumber (err : RetCode)
  | publish (ackNumber : UInt32) (err : RetCode)
  deriving DecidableEq

structure BlockSystem where
  runner : RunnerPc
  context : Context
  callback : CallbackPc
  dfu : DfuSystem Unit Unit Unit

inductive BlockEvent where
  | received (m : BlockMessage)
  | dfu (ev : Dfu.Event Unit Unit Unit)
  | published (payload : McuToJetson) (remoteAddr : UInt32)
  deriving DecidableEq

inductive BlockAction where
  | receive (m : BlockMessage)
  | runner
  | dfu (outcome : RetCode)

def returned (evs : List (Dfu.Event Unit Unit Unit)) : Option DfuRet :=
  evs.findSome? fun
    | .returned _ _ ret => some ret
    | _ => none

def called (evs : List (Dfu.Event Unit Unit Unit)) : Option RetCode :=
  evs.findSome? fun
    | .callback _ _ err => some err
    | _ => none

/-- A step of the runner's thread. `job_counter` and the subscription are left out; a handler of a block
makes no other calls. -/
def runnerStep (b : Build) (s : BlockSystem) : List BlockEvent × BlockSystem :=
  match s.runner with
  | .run (.done ()) => ([], s)
  | .run (.call (.void (.storeDfuBlockContext job)) next) => ([], { s with runner := .store .remote job (next ()) })
  | .run (.call (.async (.dfuLoad number count data)) next) =>
    let (evs, dfu) := dfuStep b s.dfu (.call () (.load ⟨number, count, data, some (), some ()⟩))
    (evs.map .dfu, { s with dfu, runner := .load next })
  | .run (.call (.publishNew payload remoteAddr) next) =>
    ([.published payload remoteAddr], { s with runner := .run (next ()) })
  | .run (.call (.void _) next) => ([], { s with runner := .run (next ()) })
  | .run (.call _ _) => ([], s)
  | .store field job rest =>
    ([], { s with
      context := s.context.store job field
      runner := match field with
        | .remote => .store .remoteAddr job rest
        | .remoteAddr => .store .ackNumber job rest
        | .ackNumber => .run rest })
  | .load next =>
    let (evs, dfu) := dfuStep b s.dfu (.run ())
    (evs.map .dfu, { s with
      dfu
      runner := match returned evs with
        | some ret => .run (next (returnValue ret))
        | none => .load next })

/-- A step of the processing thread: in `handle_err_code`, or in the module. -/
def dfuThreadStep (b : Build) (s : BlockSystem) (outcome : RetCode) : List BlockEvent × BlockSystem :=
  match s.callback with
  | .remote err =>
    ([], { s with callback := if s.context.remote = .canJetsonMessaging then .ackNumber err else .idle })
  | .ackNumber err => ([], { s with callback := .publish s.context.ackNumber err })
  | .publish ackNumber err =>
    ([.published (.ack ackNumber (handleErrCodeAck err.value)) s.context.remoteAddr], { s with callback := .idle })
  | .idle =>
    let (evs, dfu) := dfuStep b s.dfu (.consume outcome)
    (evs.map .dfu, { s with
      dfu
      callback := match called evs with
        | some err => .remote err
        | none => .idle })

/-- The runner takes its next job when it is through with the last one. -/
def blockStep (cfg : BuildConfig) (b : Build) (s : BlockSystem) : BlockAction → List BlockEvent × BlockSystem
  | .receive m =>
    match s.runner with
    | .run (.done ()) => ([.received m], { s with runner := .run (runnerProcessJob cfg m.job) })
    | _ => ([], s)
  | .runner => runnerStep b s
  | .dfu outcome => dfuThreadStep b s outcome

def BlockSystem.start (m : Nor.Mem) : BlockSystem :=
  ⟨.run (.done ()), ⟨.canJetsonMessaging, 0, 0⟩, .idle, .start m⟩

@[simp] theorem blockStep_runner (cfg : BuildConfig) (b : Build) (s : BlockSystem) :
    blockStep cfg b s .runner = runnerStep b s := rfl

@[simp] theorem blockStep_dfu (cfg : BuildConfig) (b : Build) (s : BlockSystem) (outcome : RetCode) :
    blockStep cfg b s (.dfu outcome) = dfuThreadStep b s outcome := rfl

end OrbFirmware.Runner

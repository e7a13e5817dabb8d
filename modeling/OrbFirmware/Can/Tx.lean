import OrbFirmware.Allocation
import OrbFirmware.Flash
import OrbFirmware.Machine

/-! `canbus_tx.c`: a call copies its message into a block of a memory slab and queues it, the transmit
thread sends it and returns the block, and a reset of the bus starts queue and slab anew. -/
namespace OrbFirmware.Can
open Allocation

/-- `can_message_t`: `bytes` is the address of the block, `allocation` numbers the allocation it comes from. -/
structure CanMessage where
  destination : Nat
  bytes : Nat
  size : Nat
  allocation : Nat
  deriving DecidableEq, Repr

structure CanFrame where
  id : Nat
  data : List UInt8
  deriving DecidableEq, Repr

/-- `CAN_FRAME_MAX_SIZE` with CAN FD. -/
def canFrameMaxSize : Nat := 64

/-- Where `process_tx_messages_thread` is: `waitMsg` is the wait on the empty queue in `k_msgq_get`, and
`slabFree` comes with whether `can_send` took the frame. -/
inductive TxThread where
  | absent
  | semTake
  | getMsg
  | waitMsg
  | send (new : CanMessage)
  | slabFree (new : CanMessage) (sent : Bool)
  | semGive
  deriving DecidableEq, Repr

/-- Where a call of `can_messaging_async_tx` is. -/
inductive TxCall where
  | getState (destination : Nat) (data : List UInt8)
  | slabAlloc (destination : Nat) (data : List UInt8)
  | copy (toSend : CanMessage) (data : List UInt8)
  | put (toSend : CanMessage)
  | slabFree (toSend : CanMessage)
  | done (ret : RetCode)
  deriving DecidableEq, Repr

/-- The module's variables, the thread, the calls made so far, and the frames whose completion is due. -/
structure CanTx where
  isInit : Bool
  txSem : Bool
  queue : List CanMessage
  freeBlocks : List Nat
  memory : Nat → List UInt8
  thread : TxThread
  calls : List TxCall
  inFlight : List CanFrame
  allocations : Nat

/-- Before the first `canbus_tx_init`. -/
def canTxBoot : CanTx := ⟨false, true, [], [], fun _ => [], .absent, [], [], 0⟩

/-- One step of a call, of the thread, of the controller or of `canbus_tx_init`. A put or an allocation
that waits is one not carried out yet; it fails after 200 ms, a put also when the queue is purged. -/
inductive TxAction where
  | call (destination : Nat) (data : List UInt8)
  | getState (k : Nat) (off : Bool)
  | slabAlloc (k : Nat)
  | slabTimeout (k : Nat)
  | copy (k : Nat)
  | put (k : Nat)
  | putFails (k : Nat)
  | callFree (k : Nat)
  | semTake
  | semTimeout
  | getMsg
  | send (sent : Bool)
  | threadFree
  | semGive
  | txComplete (k : Nat)
  | createThread
  | reset
  deriving DecidableEq, Repr

def CanTx.setCall (s : CanTx) (k : Nat) (call : TxCall) : CanTx := { s with calls := s.calls.set k call }

/-- `can_messaging_async_tx`, step by step. -/
def callStep (n : Nat) (s : CanTx) (k : Nat) : TxAction → TxCall → List (Event Nat) × CanTx
  | .getState _ off, .getState destination data =>
    if off then ([], s.setCall k (.done .invalidState))
    else if canFrameMaxSize < data.length then ([], s.setCall k (.done .invalidParam))
    else ([], s.setCall k (.slabAlloc destination data))
  | .slabAlloc _, .slabAlloc destination data =>
    match s.freeBlocks with
    | [] => ([], s)
    | block :: rest =>
      let toSend : CanMessage := ⟨destination, block, data.length, s.allocations⟩
      ([.alloc block s.allocations],
        { s with freeBlocks := rest, allocations := s.allocations+1, calls := s.calls.set k (.copy toSend data) })
  | .slabTimeout _, .slabAlloc _ _ => ([], s.setCall k (.done .noMem))
  | .copy _, .copy toSend data =>
    let bytes := data ++ (s.memory toSend.bytes).drop data.length
    ([], { s with
      memory := fun block => if block = toSend.bytes then bytes else s.memory block
      calls := s.calls.set k (.put toSend) })
  | .put _, .put toSend =>
    if s.thread = .waitMsg then
      ([], { s with thread := .send toSend, calls := s.calls.set k (.done .success) })
    else if s.queue.length < n then
      ([], { s with queue := s.queue ++ [toSend], calls := s.calls.set k (.done .success) })
    else ([], s)
  | .putFails _, .put toSend => ([], s.setCall k (.slabFree toSend))
  | .callFree _, .slabFree toSend =>
    ([.free toSend.bytes toSend.allocation],
      { s with freeBlocks := toSend.bytes :: s.freeBlocks, calls := s.calls.set k (.done .busy) })
  | _, _ => ([], s)

/-- `process_tx_messages_thread`, step by step. -/
def threadStep (s : CanTx) : TxAction → TxThread → List (Event Nat) × CanTx
  | .semTake, .semTake =>
    if s.txSem then ([], { s with txSem := false, thread := .getMsg }) else ([], s)
  | .semTimeout, .semTake =>
    if s.txSem then ([], s) else ([], { s with thread := .semGive })
  | .getMsg, .getMsg =>
    match s.queue with
    | [] => ([], { s with thread := .waitMsg })
    | new :: queue => ([], { s with queue := queue, thread := .send new })
  | .send sent, .send new =>
    let frame : CanFrame := ⟨new.destination, (s.memory new.bytes).take new.size⟩
    ([.read new.bytes new.allocation],
      { s with thread := .slabFree new sent, inFlight := if sent then s.inFlight ++ [frame] else s.inFlight })
  | .threadFree, .slabFree new sent =>
    ([.free new.bytes new.allocation],
      { s with freeBlocks := new.bytes :: s.freeBlocks, thread := if sent then .semTake else .semGive })
  | .semGive, .semGive => ([], { s with txSem := true, thread := .semTake })
  | _, _ => ([], s)

/-- The critical section of `canbus_tx_init`: purging the queue wakes the thread that waits on it. -/
def resetStep (n : Nat) (s : CanTx) : List (Event Nat) × CanTx :=
  if s.thread = .absent then ([], s)
  else ([.reset], { s with
    isInit := true
    txSem := true
    queue := []
    freeBlocks := (List.range n).reverse
    thread := if s.thread = .waitMsg then .semGive else s.thread })

/-- A step that is not due leaves everything as it is. `n` is the length of the queue, and the number of
blocks of the slab. -/
def canTxStep (n : Nat) (s : CanTx) (a : TxAction) : List (Event Nat) × CanTx :=
  match a with
  | .call destination data =>
    let call := if s.isInit then .getState destination data else .done .invalidState
    ([], { s with calls := s.calls ++ [call] })
  | .getState k _ | .slabAlloc k | .slabTimeout k | .copy k | .put k | .putFails k | .callFree k =>
    match s.calls[k]? with
    | some call => callStep n s k a call
    | none => ([], s)
  | .semTake | .semTimeout | .getMsg | .send _ | .threadFree | .semGive => threadStep s a s.thread
  | .txComplete k =>
    if k < s.inFlight.length then ([], { s with inFlight := s.inFlight.eraseIdx k, txSem := true }) else ([], s)
  | .createThread => if s.thread = .absent then ([], { s with thread := .semTake }) else ([], s)
  | .reset => resetStep n s

/-- The message whose block the thread holds. -/
def TxThread.message : TxThread → Option CanMessage
  | .send new | .slabFree new _ => some new
  | .absent | .semTake | .getMsg | .waitMsg | .semGive => none

/-- The message whose block a call holds. -/
def TxCall.message : TxCall → Option CanMessage
  | .copy toSend _ | .put toSend | .slabFree toSend => some toSend
  | .getState _ _ | .slabAlloc _ _ | .done _ => none

/-- Every message that is being queued, queued or processed. -/
def CanTx.messages (s : CanTx) : List CanMessage :=
  s.queue ++ (s.thread.message.toList ++ s.calls.filterMap TxCall.message)

end OrbFirmware.Can

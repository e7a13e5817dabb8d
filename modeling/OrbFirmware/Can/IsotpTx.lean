import OrbFirmware.Can.Tx

/-! `canbus_tx_isotp.c`: messages in heap buffers, sent one after the other as ISO-TP transfers over the
thread's send context, and `canbus_isotp_tx_init`, which is called again to reset the module. -/
namespace OrbFirmware.Can
open Allocation

/-- What happens to heap buffers and transfers; a transfer has the number of its message's allocation. -/
inductive IsotpEvent where
  | heap (e : Event Nat)
  | started (id : Nat)
  | failed (id : Nat)
  | finished (id : Nat)
  deriving DecidableEq, Repr

/-- Where `process_tx_messages_thread` is: `waitMsg` is the wait on the empty queue in `k_msgq_get`, and
`check` comes with the message it returned, `none` for an error. -/
inductive IsotpThread where
  | absent
  | setInit
  | semTake
  | getMsg
  | waitMsg
  | check (new : Option CanMessage)
  | send (new : CanMessage)
  | sendFailed (new : CanMessage)
  | semGive
  deriving DecidableEq, Repr

/-- Where a call of `can_isotp_messaging_async_tx` is. -/
inductive IsotpCall where
  | heapAlloc (destination : Nat) (data : List UInt8)
  | copy (toSend : CanMessage) (data : List UInt8)
  | put (toSend : CanMessage)
  | heapFree (toSend : CanMessage)
  | done (ret : RetCode)
  deriving DecidableEq, Repr

/-- Where a call of `canbus_isotp_tx_init` is. -/
inductive IsotpInit where
  | clear
  | create
  | critical
  | done
  deriving DecidableEq, Repr

/-- The module's variables, the thread and the calls made so far; `heap` lists the buffers allocated,
`transfers` the messages on the send context, `callbacks` counts the completions yet to give the
semaphore. -/
structure IsotpTx where
  isInit : Bool
  txSem : Bool
  queue : List CanMessage
  heap : List Nat
  memory : Nat → List UInt8
  thread : IsotpThread
  calls : List IsotpCall
  inits : List IsotpInit
  transfers : List CanMessage
  callbacks : Nat
  allocations : Nat

/-- Before the first `canbus_isotp_tx_init`. -/
def isotpTxBoot : IsotpTx := ⟨false, true, [], [], fun _ => [], .absent, [], [], [], 0, 0⟩

/-- One step of a call, of the thread, of a transfer's completion or of `canbus_isotp_tx_init`. The heap
picks the buffer, or has none left; `isotp_send` starts the transfer or fails. -/
inductive IsotpAction where
  | call (destination : Nat) (data : List UInt8)
  | heapAlloc (k : Nat) (buffer : Option Nat)
  | copy (k : Nat)
  | put (k : Nat)
  | callFree (k : Nat)
  | setInit
  | semTake
  | semTimeout
  | getMsg
  | check
  | send (started : Bool)
  | sendFree
  | semGive
  | txComplete (k : Nat)
  | callbackGive
  | init
  | initClear (k : Nat)
  | initCreate (k : Nat)
  | initCritical (k : Nat)
  deriving DecidableEq, Repr

/-- `can_isotp_messaging_async_tx` past the check of `is_init`, step by step; neither the allocation nor
the put waits. -/
def isotpCallStep (n : Nat) (s : IsotpTx) (k : Nat) : IsotpAction → IsotpCall → List IsotpEvent × IsotpTx
  | .heapAlloc _ none, .heapAlloc _ _ => ([], { s with calls := s.calls.set k (.done .noMem) })
  | .heapAlloc _ (some buffer), .heapAlloc destination data =>
    if buffer ∈ s.heap then ([], s)
    else
      let toSend : CanMessage := ⟨destination, buffer, data.length, s.allocations⟩
      ([.heap (.alloc buffer s.allocations)], { s with
        heap := buffer :: s.heap
        allocations := s.allocations+1
        calls := s.calls.set k (.copy toSend data) })
  | .copy _, .copy toSend data =>
    ([], { s with
      memory := fun buffer => if buffer = toSend.bytes then data else s.memory buffer
      calls := s.calls.set k (.put toSend) })
  | .put _, .put toSend =>
    if s.thread = .waitMsg then
      ([], { s with thread := .check (some toSend), calls := s.calls.set k (.done .success) })
    else if s.queue.length < n then
      ([], { s with queue := s.queue ++ [toSend], calls := s.calls.set k (.done .success) })
    else ([], { s with calls := s.calls.set k (.heapFree toSend) })
  | .callFree _, .heapFree toSend =>
    ([.heap (.free toSend.bytes toSend.allocation)],
      { s with heap := s.heap.erase toSend.bytes, calls := s.calls.set k (.done .busy) })
  | _, _ => ([], s)

/-- `process_tx_messages_thread`, step by step. -/
def isotpThreadStep (s : IsotpTx) : IsotpAction → IsotpThread → List IsotpEvent × IsotpTx
  | .setInit, .setInit => ([], { s with isInit := true, thread := .semTake })
  | .semTake, .semTake =>
    if s.txSem then ([], { s with txSem := false, thread := .getMsg }) else ([], s)
  | .semTimeout, .semTake =>
    if s.txSem then ([], s) else ([], { s with thread := .semGive })
  | .getMsg, .getMsg =>
    match s.queue with
    | [] => ([], { s with thread := .waitMsg })
    | new :: queue => ([], { s with queue := queue, thread := .check (some new) })
  | .check, .check ret =>
    match ret with
    | none => ([], { s with thread := .semGive })
    | some new => ([], { s with thread := if s.isInit then .send new else .semGive })
  | .send started, .send new =>
    if started then
      ([.started new.allocation], { s with transfers := s.transfers ++ [new], thread := .setInit })
    else ([.failed new.allocation], { s with thread := .sendFailed new })
  | .sendFree, .sendFailed new =>
    ([.heap (.free new.bytes new.allocation)],
      { s with heap := s.heap.erase new.bytes, thread := .semGive })
  | .semGive, .semGive => ([], { s with txSem := true, thread := .setInit })
  | _, _ => ([], s)

/-- `canbus_isotp_tx_init`, step by step; purging the queue wakes the thread that waits on it. -/
def isotpInitStep (s : IsotpTx) (k : Nat) : IsotpAction → IsotpInit → List IsotpEvent × IsotpTx
  | .initClear _, .clear => ([], { s with isInit := false, inits := s.inits.set k .create })
  | .initCreate _, .create =>
    ([], { s with
      thread := if s.thread = .absent then .setInit else s.thread
      inits := s.inits.set k .critical })
  | .initCritical _, .critical =>
    ([.heap .reset], { s with
      txSem := true
      queue := []
      heap := []
      thread := if s.thread = .waitMsg then .check none else s.thread
      inits := s.inits.set k .done })
  | _, _ => ([], s)

/-- A step that is not due leaves everything as it is. `n` is the length of the queue. -/
def isotpTxStep (n : Nat) (s : IsotpTx) (a : IsotpAction) : List IsotpEvent × IsotpTx :=
  match a with
  | .call destination data =>
    let call := if s.isInit then .heapAlloc destination data else .done .invalidState
    ([], { s with calls := s.calls ++ [call] })
  | .heapAlloc k _ | .copy k | .put k | .callFree k =>
    match s.calls[k]? with
    | some call => isotpCallStep n s k a call
    | none => ([], s)
  | .setInit | .semTake | .semTimeout | .getMsg | .check | .send _ | .sendFree | .semGive =>
    isotpThreadStep s a s.thread
  | .txComplete k =>
    match s.transfers[k]? with
    | some new =>
      ([.finished new.allocation, .heap (.free new.bytes new.allocation)], { s with
        transfers := s.transfers.eraseIdx k
        heap := s.heap.erase new.bytes
        callbacks := s.callbacks+1 })
    | none => ([], s)
  | .callbackGive =>
    match s.callbacks with
    | 0 => ([], s)
    | callbacks+1 => ([], { s with callbacks := callbacks, txSem := true })
  | .init => ([], { s with inits := s.inits ++ [.clear] })
  | .initClear k | .initCreate k | .initCritical k =>
    match s.inits[k]? with
    | some pc => isotpInitStep s k a pc
    | none => ([], s)

end OrbFirmware.Can

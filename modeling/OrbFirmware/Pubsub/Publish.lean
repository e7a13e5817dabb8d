import Mathlib.Logic.Function.Basic
import OrbFirmware.Storage.Fifo

/-! `pubsub.c`: publishers, each with its call checked and then carried out under `pub_buffers_sem`, and the
thread that flushes what was stored. -/
namespace OrbFirmware.Pubsub
open Nor Storage

def canAddrIsIsotp : UInt32 := 0x100

/-- `CAN_FRAME_MAX_SIZE`, with CAN FD. -/
def canFrameMaxSize : Nat := 64

/-- `can_message_t` with the bytes it points at, as many as its size says. -/
structure CanMessage where
  destination : UInt32
  bytes : List UInt8
  deriving DecidableEq, Repr

/-- The check of `can_messaging_async_tx` on the size; `can_isotp_messaging_async_tx` has none. -/
def CanMessage.Oversized (message : CanMessage) : Prop :=
  message.destination &&& canAddrIsIsotp = 0 ∧ canFrameMaxSize < message.bytes.length

inductive SubPriority where
  | store | trySending | discard
  deriving DecidableEq, Repr

/-- `orb_mcu_McuMessage` with the content of its inner payload union. -/
inductive McuMessage where
  | mainToSec (whichPayload : UInt32) (payload : List UInt8)
  | mMessage (whichPayload : UInt32) (payload : List UInt8)
  deriving DecidableEq, Repr

/-- What the generated message types fix: sizes, the table of priorities and the encoder, which never writes
behind its buffer. -/
structure PubConfig where
  mainToSecPayloadSize : Nat
  mcuToJetsonPayloadSize : Nat
  numSubPrios : Nat
  subPrio : UInt32 → SubPriority
  entryDataSize : Nat
  pbEncode : McuMessage → Option (List UInt8)
  pbEncode_le : ∀ message bytes, pbEncode message = some bytes → bytes.length ≤ entryDataSize

/-- `CONFIG_CAN_ADDRESS_MCU_TO_MCU_TX` on the main boards. -/
def canAddressMcuToMcuTx : UInt32 := 0x42

/-- `sizeof(struct pub_entry_s)`. -/
def PubConfig.sizeofPubEntry (cfg : PubConfig) : Nat := (4+cfg.entryDataSize+3)/4*4

def le32 (x : UInt32) : List UInt8 :=
  [UInt8.ofNat x.toNat, UInt8.ofNat (x.toNat/2^8), UInt8.ofNat (x.toNat/2^16), UInt8.ofNat (x.toNat/2^24)]

def ofLe32 (l : List UInt8) : UInt32 :=
  UInt32.ofNat ((l.getD 0 0).toNat+2^8*(l.getD 1 0).toNat+2^16*(l.getD 2 0).toNat+2^24*(l.getD 3 0).toNat)

/-- `struct pub_entry_s` up to the bytes written. -/
def pubEntry (destination : UInt32) (data : List UInt8) : List UInt8 := le32 destination ++ data

structure PublishCall where
  payload : List UInt8
  whichPayload : UInt32
  remoteAddr : UInt32
  forceStore : Bool
  deriving DecidableEq, Repr

/-- Where the flush thread is: before `storage_peek`, before the `storage_free` of an entry that does not fit
its buffer, before handing over `size` bytes, before the `storage_free` of what was handed over, asleep. -/
inductive FlushPc where
  | stopped
  | peeking
  | dropping
  | handing (size : Nat)
  | freeing
  | sleeping
  deriving DecidableEq, Repr

inductive PubEvent (ι : Type) where
  | returned (thread : ι) (ret : RetCode)
  | priorityRead (index : UInt32)
  | payloadCopied (unionSize size : Nat)
  | stored (destination : UInt32) (data : List UInt8)
  | sent (message : CanMessage) (outcome : RetCode)
  | handed (message : CanMessage) (outcome : RetCode)
  deriving DecidableEq, Repr

/-- `record` is the memory of the flush thread from its variable `record` on. -/
structure PubState (ι : Type) where
  storage : StorageState
  activeRemotes : List UInt32
  publishing : ι → Option PublishCall := fun _ => none
  flush : FlushPc := .stopped
  record : Mem := fun _ => 0

inductive PubAction (ι : Type) where
  | subscribe (remoteAddr : UInt32)
  | publish (thread : ι) (call : PublishCall)
  | proceed (thread : ι) (semTaken : Bool) (outcome : RetCode)
  | flush (stack : Mem)
  | flushProceed (outcome : RetCode)

variable {ι : Type} (p : Platform) (cfg : PubConfig)

def publishIsStarted (activeRemotes : List UInt32) (remote : UInt32) : Bool := activeRemotes.contains remote

/-- `subscribe_add`: the first slot that is free or has the remote already. -/
def subscribeAdd (remoteAddr : UInt32) : List UInt32 → List UInt32
  | [] => []
  | slot :: slots => if slot = 0 ∨ slot = remoteAddr then remoteAddr :: slots else slot :: subscribeAdd remoteAddr slots

/-- The size check of `publish`. -/
def publishRejects (call : PublishCall) : Bool :=
  (call.remoteAddr = canAddressMcuToMcuTx && cfg.mainToSecPayloadSize < call.payload.length) ||
  (call.remoteAddr ≠ canAddressMcuToMcuTx && cfg.numSubPrios ≤ call.whichPayload.toNat &&
    cfg.mcuToJetsonPayloadSize < call.payload.length)

/-- `publish` up to taking the semaphore: `none` goes on. -/
def publishCheck (call : PublishCall) (activeRemotes : List UInt32) : Option RetCode × List (PubEvent ι) :=
  if publishRejects cfg call then (some .invalidParam, [])
  else if call.forceStore || publishIsStarted activeRemotes call.remoteAddr ||
      call.remoteAddr = canAddressMcuToMcuTx then (none, [])
  else
    (if cfg.subPrio call.whichPayload = .discard then some .offline else none, [.priorityRead call.whichPayload])

/-- The payload union after `memset` and `memcpy`. -/
def payloadUnion (unionSize : Nat) (payload : List UInt8) : List UInt8 :=
  payload ++ List.replicate (unionSize-payload.length) 0

/-- `publish` with the semaphore taken: whether to store, and the message. -/
def publishMessage (call : PublishCall) (activeRemotes : List UInt32) : Bool × McuMessage × List (PubEvent ι) :=
  if call.remoteAddr = canAddressMcuToMcuTx then
    (false, .mainToSec call.whichPayload (payloadUnion cfg.mainToSecPayloadSize call.payload),
      [.payloadCopied cfg.mainToSecPayloadSize call.payload.length])
  else
    let offline := !call.forceStore && !publishIsStarted activeRemotes call.remoteAddr
    (call.forceStore || (offline && cfg.subPrio call.whichPayload = .store),
      .mMessage call.whichPayload (payloadUnion cfg.mcuToJetsonPayloadSize call.payload),
      (if offline then [.priorityRead call.whichPayload] else []) ++
        [.payloadCopied cfg.mcuToJetsonPayloadSize call.payload.length])

/-- What the direct path hands over for a call. -/
def directMessage (call : PublishCall) : Option CanMessage :=
  (cfg.pbEncode (publishMessage (ι := Empty) cfg call []).2.1).map (CanMessage.mk call.remoteAddr)

def storeEntry (destination : UInt32) (data : List UInt8) (s : PubState ι) :
    RetCode × List (PubEvent ι) × PubState ι :=
  let (ret, area, fl) := storagePush p s.storage.area (pubEntry destination data) (.ok s.storage.mem)
  (ret, if ret = .success then [.stored destination data] else [], { s with storage := ⟨area, fl.mem⟩ })

/-- The rest of `publish`; `outcome` is what the CAN layer returns, if it is asked. -/
def publishRest (call : PublishCall) (semTaken : Bool) (outcome : RetCode) (s : PubState ι) :
    RetCode × List (PubEvent ι) × PubState ι :=
  if semTaken = false then (.busy, [], s)
  else
    let (store, message, events) := publishMessage cfg call s.activeRemotes
    match cfg.pbEncode message with
    | none => (.internal, events, s)
    | some data =>
      if store then
        let (ret, events', s) := storeEntry p call.remoteAddr data s
        (if call.forceStore then ret else .offline, events ++ events', s)
      else (outcome, events ++ [.sent ⟨call.remoteAddr, data⟩ outcome], s)

/-- `storage_peek` into the record: only the bytes of the entry are written. -/
def copyTo (record : Mem) (data : List UInt8) : Mem := fun a => data.getD a (record a)

def freeEntry (pc : FlushPc) (s : PubState ι) : PubState ι :=
  let (_, area, fl) := storageFree p s.storage.area (.ok s.storage.mem)
  { s with storage := ⟨area, fl.mem⟩, flush := pc }

/-- What `pub_stored_thread` hands over: everything behind the destination that `size` says. -/
def handedMessage (record : Mem) (size : Nat) : CanMessage := ⟨ofLe32 (slice record 0 4), slice record 4 size⟩

/-- What becomes of an entry after the CAN layer's answer. -/
def afterHanding : RetCode → FlushPc
  | .success | .invalidParam => .freeing
  | .invalidState | .busy | .noMem => .stopped
  | _ => .sleeping

/-- One step of `pub_stored_thread`; the `diag_sync` before its loop publishes as any other thread does. -/
def flushStep (outcome : RetCode) (s : PubState ι) : List (PubEvent ι) × PubState ι :=
  match s.flush with
  | .stopped => ([], s)
  | .peeking =>
    let (result, area, fl) := storagePeek p s.storage.area cfg.sizeofPubEntry (.ok s.storage.mem)
    let s := { s with storage := ⟨area, fl.mem⟩ }
    match result.ret with
    | .success => ([], { s with record := copyTo s.record result.buffer, flush := .handing result.size })
    | .noMem => ([], { s with flush := .dropping })
    | _ => ([], { s with flush := .stopped })
  | .dropping => ([], freeEntry p .peeking s)
  | .handing size =>
    let message := handedMessage s.record size
    if publishIsStarted s.activeRemotes message.destination then
      ([.handed message outcome], { s with flush := afterHanding outcome })
    else ([], { s with flush := .stopped })
  | .freeing => ([], freeEntry p .sleeping s)
  | .sleeping => ([], { s with flush := .peeking })

def pubStep [DecidableEq ι] (s : PubState ι) : PubAction ι → List (PubEvent ι) × PubState ι
  | .subscribe remoteAddr => ([], { s with activeRemotes := subscribeAdd remoteAddr s.activeRemotes })
  | .publish thread call =>
    if s.publishing thread = none then
      match publishCheck cfg call s.activeRemotes with
      | (some ret, events) => (events ++ [.returned thread ret], s)
      | (none, events) => (events, { s with publishing := Function.update s.publishing thread (some call) })
    else ([], s)
  | .proceed thread semTaken outcome =>
    match s.publishing thread with
    | none => ([], s)
    | some call =>
      let (ret, events, s) := publishRest p cfg call semTaken outcome s
      (events ++ [.returned thread ret], { s with publishing := Function.update s.publishing thread none })
  | .flush stack => ([], if s.flush = .stopped then { s with flush := .peeking, record := stack } else s)
  | .flushProceed outcome => flushStep p cfg outcome s

end OrbFirmware.Pubsub

import OrbFirmware.Runner.Blocks
import OrbFirmware.Runner.Acks

/-! Which acknowledgements the blocks of an image get, over all runs of the two threads. The context that
the callback reads is that of the last message handled, not that of the block processed. -/
namespace OrbFirmware.Runner
open Interaction Dfu

/-- A block is answered by what `dfu_load` returned, or by the result of its round. -/
inductive BlockAnswer where
  | returned (ret : RetCode)
  | processed (err : RetCode)
  deriving DecidableEq

/-- The code the handler acknowledges a result of `dfu_load` with. -/
def loadAck : Int → ErrorCode :=
  ackOf [(.success, .success), (.noMem, .invalidState), (.invalidParam, .range), (.busy, .inProgress)] .fail

def BlockAnswer.error : BlockAnswer → ErrorCode
  | .returned ret => loadAck ret.value
  | .processed err => handleErrCodeAck err.value

/-- The acknowledgement a block is to get: its number, the code and where it goes. -/
def blockAck (block : BlockMessage × BlockAnswer) : UInt32 × ErrorCode × UInt32 :=
  (block.1.ackNumber, block.2.error, block.1.remoteAddr)

/-- The blocks received: those acknowledged, the one whose callback is next, the one that waits for its
round and the one in the runner's hands, with what `dfu_load` returned for it. -/
structure Blocks where
  done : List (BlockMessage × BlockAnswer)
  late : Option (BlockMessage × RetCode)
  waiting : Option BlockMessage
  running : Option (BlockMessage × Option RetCode)

/-! What a run shows. -/

def receivedEvent : BlockEvent → Option BlockMessage
  | .received m => some m
  | _ => none

def returnedEvent : BlockEvent → Option (LoadCall Unit Unit × RetCode)
  | .dfu (.returned _ (.load call) (.code ret)) => some (call, ret)
  | _ => none

def queuedEvent : BlockEvent → Option (LoadCall Unit Unit)
  | .dfu (.returned _ (.load call) .einprogress) => some call
  | _ => none

def roundEvent : BlockEvent → Option (Round × RetCode)
  | .dfu (.processed round err) => some (round, err)
  | _ => none

def ackEvent : BlockEvent → Option (UInt32 × ErrorCode × UInt32)
  | .published (.ack ackNumber error) remoteAddr => some (ackNumber, error, remoteAddr)
  | _ => none

def Blocks.received (l : Blocks) : List BlockMessage :=
  l.done.map (·.1) ++ (l.late.toList.map (·.1) ++ (l.waiting.toList ++ l.running.toList.map (·.1)))

def Blocks.returned (l : Blocks) : List (LoadCall Unit Unit × RetCode) :=
  l.done.filterMap (fun
    | (m, .returned ret) => some (m.load, ret)
    | _ => none) ++ l.running.toList.filterMap fun (m, ret) => ret.map fun ret => (m.load, ret)

def Blocks.queued (l : Blocks) : List (LoadCall Unit Unit) :=
  l.done.filterMap (fun
    | (m, .processed _) => some m.load
    | _ => none) ++ (l.late.toList.map (·.1.load) ++ l.waiting.toList.map (·.load))

def Blocks.rounds (l : Blocks) : List (Round × RetCode) :=
  l.done.filterMap (fun
    | (_, .processed err) => some (.blocks, err)
    | _ => none) ++ l.late.toList.map fun (_, err) => (.blocks, err)

/-- The events show these blocks: each was received once; the results of the calls and the rounds come in
the order of their blocks; the acknowledgements are those of the blocks that are done. -/
structure Blocks.Shows (l : Blocks) (tr : List BlockEvent) : Prop where
  received : (tr.filterMap receivedEvent).Perm l.received
  returned : tr.filterMap returnedEvent = l.returned
  queued : tr.filterMap queuedEvent = l.queued
  rounds : tr.filterMap roundEvent = l.rounds
  acks : tr.filterMap ackEvent = l.done.map blockAck

/-- Both threads have nothing to do. -/
structure BlockSystem.Rests (s : BlockSystem) : Prop where
  runner : s.runner = .run (.done ())
  callback : s.callback = .idle
  consumer : s.dfu.consumer = .waiting
  full : s.dfu.shared.full = false

/-- Every block received gets one acknowledgement, with its number and the result of its own processing, at
its address, and there are no others; at most the last three have none yet, and none if both threads have
nothing to do. -/
def EachBlockAcknowledged (tr : List BlockEvent) (s : BlockSystem) : Prop :=
  ∃ l : Blocks, l.Shows tr ∧ (s.Rests → l.late = none ∧ l.waiting = none ∧ l.running = none)

/-! When the acknowledgements are right. -/

/-- The callback of an earlier block is still to read the field. -/
def BlockSystem.awaits (s : BlockSystem) (field : ContextField) : Bool :=
  s.dfu.shared.full || s.dfu.consumer.holds ||
    match s.callback with
    | .idle => match s.dfu.consumer with
      | .testCb _ | .callCb _ _ => true
      | _ => false
    | .remote _ => true
    | .ackNumber _ => field ≠ .remote
    | .publish _ _ => field = .remoteAddr

/-- No field is overwritten that a callback is still to read, unless with the same value; no block is queued
behind a complete image; the image fits. -/
def KeepsAcks (b : Build) (s : BlockSystem) : BlockAction → Prop
  | .receive _ => True
  | .runner =>
    match s.runner with
    | .store field job _ => s.awaits field = true → s.context.store job field = s.context
    | .load _ =>
      match s.dfu.callers () with
      | .load _ .queue => Queues s.dfu.shared.dfuState → s.dfu.shared.dfuState.state = .inProgress
      | _ => True
    | .run _ => True
  | .dfu _ => s.callback = .idle → s.dfu.consumer = .checkSize → ¬ tooLarge b s.dfu.shared.dfuState

/-- The steps of the callback, with nothing in between, acknowledge what `handle_err_code` does. -/
theorem callback_alone (b : Build) (s : BlockSystem) (err : RetCode) (hs : s.callback = .remote err)
    (hremote : s.context.remote = .canJetsonMessaging) (o₁ o₂ o₃ : RetCode) :
    (handleErrCode s.context err.value).Always fun trace _ =>
      acks trace = (Machine.events (dfuThreadStep b) s [o₁, o₂, o₃]).filterMap ackEvent := by
  have hevents : Machine.events (dfuThreadStep b) s [o₁, o₂, o₃] =
      [.published (.ack s.context.ackNumber (handleErrCodeAck err.value)) s.context.remoteAddr] := by
    simp only [Machine.events, Machine.run, dfuThreadStep, hs, hremote, if_true]
    rfl
  have hprogram : handleErrCode s.context err.value =
      .call (.publishNew (.ack s.context.ackNumber (handleErrCodeAck err.value)) s.context.remoteAddr) fun _ =>
        if err.value = RetCode.success.value then void .countJob else .done () := by
    rw [handleErrCode, if_pos hremote]
    rfl
  rw [hevents, hprogram]
  intro _
  split_ifs
  · intro _
    rfl
  · rfl

/-! The events of a step. -/

variable {tr ev : List BlockEvent} {l : Blocks} {m : BlockMessage}

/-- Nothing of the blocks is shown. -/
structure QuietBlocks (ev : List BlockEvent) : Prop where
  received : ev.filterMap receivedEvent = []
  returned : ev.filterMap returnedEvent = []
  queued : ev.filterMap queuedEvent = []
  rounds : ev.filterMap roundEvent = []
  acks : ev.filterMap ackEvent = []

theorem quietBlocks_dfu {evs : List (Dfu.Event Unit Unit Unit)} (h : ∀ ev ∈ evs, ev.internal = true) :
    QuietBlocks (evs.map .dfu) := by
  refine ⟨?_, ?_, ?_, ?_, ?_⟩
  all_goals
    rw [List.filterMap_map, List.filterMap_eq_nil_iff]
    intro ev hev
    have hin := h ev hev
    cases ev with
    | returned | processed | callback => contradiction
    | called | stored | moved | erased | wrote | divided => rfl

theorem Blocks.Shows.quiet (h : l.Shows tr) (hev : QuietBlocks ev) : l.Shows (tr ++ ev) := by
  refine ⟨?_, ?_, ?_, ?_, ?_⟩
  · rw [List.filterMap_append, hev.received, List.append_nil]
    exact h.received
  · rw [List.filterMap_append, hev.returned, List.append_nil, h.returned]
  · rw [List.filterMap_append, hev.queued, List.append_nil, h.queued]
  · rw [List.filterMap_append, hev.rounds, List.append_nil, h.rounds]
  · rw [List.filterMap_append, hev.acks, List.append_nil, h.acks]

theorem Blocks.Shows.receive (h : l.Shows tr) (hr : l.running = none) :
    ({ l with running := some (m, none) } : Blocks).Shows (tr ++ [.received m]) := by
  refine ⟨?_, ?_, ?_, ?_, ?_⟩
  · have hreceived := h.received
    simp only [Blocks.received, hr, Option.toList_none, List.map_nil, List.append_nil] at hreceived
    simp only [Blocks.received, List.filterMap_append, Option.toList_some, List.map_cons, List.map_nil,
      ← List.append_assoc] at hreceived ⊢
    exact hreceived.append_right [m]
  · simp [h.returned, Blocks.returned, hr, returnedEvent]
  · simp [h.queued, Blocks.queued, queuedEvent]
  · simp [h.rounds, Blocks.rounds, roundEvent]
  · simp [h.acks, ackEvent]

/-- Nothing new is received, and what has been received is the same. -/
theorem Blocks.Shows.received_append {l' : Blocks} (h : l.Shows tr) (hev : ev.filterMap receivedEvent = [])
    (hsame : l.received.Perm l'.received) : ((tr ++ ev).filterMap receivedEvent).Perm l'.received := by
  rw [List.filterMap_append, hev, List.append_nil]
  exact h.received.trans hsame

/-- `dfu_load` returned a result. -/
theorem Blocks.Shows.returns {ret : RetCode} (h : l.Shows tr) (hr : l.running = some (m, none)) :
    ({ l with running := some (m, some ret) } : Blocks).Shows
      (tr ++ [.dfu (.returned () (.load m.load) (.code ret))]) := by
  refine ⟨?_, ?_, ?_, ?_, ?_⟩
  · exact h.received_append rfl (by simp [Blocks.received, hr])
  · simp [h.returned, Blocks.returned, hr, returnedEvent]
  · simp [h.queued, Blocks.queued, queuedEvent]
  · simp [h.rounds, Blocks.rounds, roundEvent]
  · simp [h.acks, ackEvent]

/-- It queued the block. -/
theorem Blocks.Shows.queue (h : l.Shows tr) (hr : l.running = some (m, none)) (hw : l.waiting = none) :
    ({ l with waiting := some m, running := none } : Blocks).Shows
      (tr ++ [.dfu (.returned () (.load m.load) .einprogress)]) := by
  refine ⟨?_, ?_, ?_, ?_, ?_⟩
  · exact h.received_append rfl (by simp [Blocks.received, hr, hw])
  · simp [h.returned, Blocks.returned, hr, returnedEvent]
  · simp [h.queued, Blocks.queued, hw, queuedEvent]
  · simp [h.rounds, Blocks.rounds, roundEvent]
  · simp [h.acks, ackEvent]

/-- The runner acknowledges the result. -/
theorem Blocks.Shows.answer {ret : RetCode} (h : l.Shows tr) (hr : l.running = some (m, some ret)) :
    ({ l with done := l.done ++ [(m, .returned ret)], running := none } : Blocks).Shows
      (tr ++ [.published (.ack m.ackNumber (loadAck ret.value)) m.remoteAddr]) := by
  refine ⟨?_, ?_, ?_, ?_, ?_⟩
  · refine h.received_append rfl ?_
    simp only [Blocks.received, hr, List.map_append, List.map_cons, List.map_nil, Option.toList_none,
      Option.toList_some, List.append_nil, List.append_assoc]
    rw [← List.append_assoc (l.late.toList.map _)]
    exact List.perm_append_comm.append_left _
  · simp [h.returned, Blocks.returned, hr, returnedEvent]
  · simp [h.queued, Blocks.queued, queuedEvent]
  · simp [h.rounds, Blocks.rounds, roundEvent]
  · simp [h.acks, ackEvent, blockAck, BlockAnswer.error]

/-- The round of the block is over. -/
theorem Blocks.Shows.process {err : RetCode} (h : l.Shows tr) (hw : l.waiting = some m) (hl : l.late = none) :
    ({ l with late := some (m, err), waiting := none } : Blocks).Shows (tr ++ [.dfu (.processed .blocks err)]) := by
  refine ⟨?_, ?_, ?_, ?_, ?_⟩
  · exact h.received_append rfl (by simp [Blocks.received, hw, hl])
  · simp [h.returned, Blocks.returned, returnedEvent]
  · simp [h.queued, Blocks.queued, hw, hl, queuedEvent]
  · simp [h.rounds, Blocks.rounds, hl, roundEvent]
  · simp [h.acks, ackEvent]

/-- Its callback acknowledges it. -/
theorem Blocks.Shows.finish {err : RetCode} (h : l.Shows tr) (hl : l.late = some (m, err)) :
    ({ l with done := l.done ++ [(m, .processed err)], late := none } : Blocks).Shows
      (tr ++ [.published (.ack m.ackNumber (handleErrCodeAck err.value)) m.remoteAddr]) := by
  refine ⟨?_, ?_, ?_, ?_, ?_⟩
  · exact h.received_append rfl (by simp [Blocks.received, hl])
  · simp [h.returned, Blocks.returned, returnedEvent]
  · simp [h.queued, Blocks.queued, hl, queuedEvent]
  · simp [h.rounds, Blocks.rounds, hl, roundEvent]
  · simp [h.acks, ackEvent, blockAck, BlockAnswer.error]

/-! The program of the runner for a block. -/

def ackThen (m : BlockMessage) (result : Int) : Handler Unit :=
  if result = -eInProgress then pure () else jobAck (loadAck result) m.context

def loadThen (m : BlockMessage) : Handler Unit :=
  .call (.async (.dfuLoad m.blockNumber m.blockCount m.imageBlock)) (ackThen m)

def handleBlock (m : BlockMessage) : Handler Unit :=
  handleDfuBlockMessage m.blockNumber m.blockCount m.imageBlock m.context

theorem handleBlock_eq (m : BlockMessage) :
    handleBlock m = .call (.void (.storeDfuBlockContext m.context)) fun _ => loadThen m := rfl

theorem runnerProcessJob_block (cfg : BuildConfig) (m : BlockMessage) :
    runnerProcessJob cfg m.job = if m.remoteAddr ≠ 0 then
      .call (.void (.subscribeAdd m.remoteAddr)) fun _ => handleBlock m else handleBlock m := by
  by_cases h : m.remoteAddr ≠ 0
  · rw [if_pos h]
    have hallow : allowResponse m.remoteAddr = .call (.void (.subscribeAdd m.remoteAddr)) .done := if_pos h
    change (allowResponse m.remoteAddr).bind _ = _
    rw [hallow]
    rfl
  · rw [if_neg h]
    have hallow : allowResponse m.remoteAddr = .done () := if_neg h
    change (allowResponse m.remoteAddr).bind _ = _
    rw [hallow]
    rfl

theorem jobAck_block (error : ErrorCode) (m : BlockMessage) :
    jobAck error m.context = .call (.publishNew (.ack m.ackNumber error) m.remoteAddr) fun _ =>
      if error = .success then void .countJob else .done () := rfl

theorem ackThen_queued (m : BlockMessage) : ackThen m (returnValue .einprogress) = .done () := rfl

theorem ackThen_code (m : BlockMessage) (ret : RetCode) :
    ackThen m (returnValue (.code ret)) = jobAck (loadAck ret.value) m.context := by
  cases ret <;> rfl

/-! The invariant. -/

/-- Where the runner is with the block it has, and how many steps it may still take. -/
inductive RunnerAt (cfg : BuildConfig) (s : BlockSystem) :
    Option (BlockMessage × Option RetCode) → Nat → Prop where
  | idle (hr : s.runner = .run (.done ())) (hi : s.dfu.callers () = .idle) : RunnerAt cfg s none 0
  | counts (hr : s.runner = .run (void .countJob)) (hi : s.dfu.callers () = .idle) : RunnerAt cfg s none 1
  | starts (m : BlockMessage) (hr : s.runner = .run (runnerProcessJob cfg m.job))
      (hi : s.dfu.callers () = .idle) : RunnerAt cfg s (some (m, none)) 17
  | handles (m : BlockMessage) (hr : s.runner = .run (handleBlock m)) (hi : s.dfu.callers () = .idle) :
      RunnerAt cfg s (some (m, none)) 16
  | storesRemote (m : BlockMessage) (hr : s.runner = .store .remote m.context (loadThen m))
      (hi : s.dfu.callers () = .idle) : RunnerAt cfg s (some (m, none)) 15
  | storesRemoteAddr (m : BlockMessage) (hr : s.runner = .store .remoteAddr m.context (loadThen m))
      (hremote : s.context.remote = .canJetsonMessaging) (hi : s.dfu.callers () = .idle) :
      RunnerAt cfg s (some (m, none)) 14
  | storesAckNumber (m : BlockMessage) (hr : s.runner = .store .ackNumber m.context (loadThen m))
      (hremote : s.context.remote = .canJetsonMessaging) (haddr : s.context.remoteAddr = m.remoteAddr)
      (hi : s.dfu.callers () = .idle) : RunnerAt cfg s (some (m, none)) 13
  | calls (m : BlockMessage) (hr : s.runner = .run (loadThen m)) (hcontext : s.context = m.context)
      (hi : s.dfu.callers () = .idle) : RunnerAt cfg s (some (m, none)) 12
  | loads (m : BlockMessage) (at' : LoadPc) (hr : s.runner = .load (ackThen m)) (hcontext : s.context = m.context)
      (hi : s.dfu.callers () = .load m.load at') : RunnerAt cfg s (some (m, none)) (at'.left+2)
  | answers (m : BlockMessage) (ret : RetCode) (hr : s.runner = .run (jobAck (loadAck ret.value) m.context))
      (hi : s.dfu.callers () = .idle) : RunnerAt cfg s (some (m, some ret)) 2

/-- The result whose callback is next. -/
def pendingErr : ConsumerPc Unit → Option RetCode
  | .testCb err | .callCb _ err => some err
  | _ => none

theorem pendingErr_holds {consumer : ConsumerPc Unit} (h : consumer.holds = true) : pendingErr consumer = none := by
  cases consumer with
  | testCb err | callCb cb err => contradiction
  | _ => rfl

/-- The result whose callback is next or under way. -/
def BlockSystem.lateErr (s : BlockSystem) : Option RetCode :=
  match s.callback with
  | .idle => pendingErr s.dfu.consumer
  | .remote err | .ackNumber err | .publish _ err => some err

/-- What the callback has read of the context, and is to read, is that of the block. -/
def CallbackReads (context : Context) (m : BlockMessage) : CallbackPc → Prop
  | .idle | .remote _ => context = m.context
  | .ackNumber _ => context.ackNumber = m.ackNumber ∧ context.remoteAddr = m.remoteAddr
  | .publish ackNumber _ => ackNumber = m.ackNumber ∧ context.remoteAddr = m.remoteAddr

def dfuEvent : BlockEvent → Option (Dfu.Event Unit Unit Unit)
  | .dfu ev => some ev
  | _ => none

structure BlockInv (cfg : BuildConfig) (tr : List BlockEvent) (s : BlockSystem) (l : Blocks) (n : Nat) : Prop where
  shows : l.Shows tr
  completion : ∃ p o, CompletionInv (tr.filterMap dfuEvent) s.dfu p o
  blocks : ∀ call ∈ (tr.filterMap dfuEvent).filterMap Dfu.queuedEvent, call = ⟨.blocks, some (), some ()⟩
  waiting : l.waiting.isSome = (s.dfu.shared.full || s.dfu.consumer.holds)
  late : l.late.map (·.2) = s.lateErr
  callback : s.callback ≠ .idle → s.dfu.consumer = .waiting
  runner : RunnerAt cfg s l.running n
  waitingContext : ∀ m, l.waiting = some m → s.context = m.context
  lateContext : ∀ m err, l.late = some (m, err) → CallbackReads s.context m s.callback

variable {cfg : BuildConfig} {b : Build} {s : BlockSystem} {l' : Blocks} {runner : RunnerPc} {n n' : Nat}

/-- A queued call has the callback and the context. -/
theorem BlockInv.queued_call (h : BlockInv cfg tr s l n) {p : Progress Unit Unit} {o : Owner Unit}
    (hp : CompletionInv (tr.filterMap dfuEvent) s.dfu p o) :
    (∀ call, p.waiting = some call → call = ⟨.blocks, some (), some ()⟩) ∧
      ∀ call, p.late = some call → call.1 = ⟨.blocks, some (), some ()⟩ := by
  have hblocks := h.blocks
  rw [hp.shows.queued] at hblocks
  refine ⟨fun call hcall => hblocks call ?_, fun call hcall => hblocks call.1 ?_⟩
  · rw [hcall]
    simp
  · rw [hcall]
    simp

/-- The callback and the context are in place until they are read. -/
theorem BlockInv.pending (h : BlockInv cfg tr s l n) {err : RetCode} (hc : s.dfu.consumer = .testCb err) :
    s.dfu.shared.dfuState.dfuCb = some () ∧ s.dfu.shared.dfuState.ctx = some () := by
  obtain ⟨p, o, hp⟩ := h.completion
  have hlate := hp.late
  rw [hc] at hlate
  cases hl : p.late with
  | none =>
    rw [hl] at hlate
    exact hlate.elim
  | some call =>
    rw [hl] at hlate
    obtain ⟨-, hkept⟩ := hlate
    have hcall := (h.queued_call hp).2 call hl
    have hcb := hkept.cb
    have hctx := hkept.ctx
    rw [hcall] at hcb hctx
    exact ⟨hcb, hctx (Option.some_ne_none ())⟩

theorem BlockInv.calling (h : BlockInv cfg tr s l n) {cb : Unit} {err : RetCode}
    (hc : s.dfu.consumer = .callCb cb err) : s.dfu.shared.dfuState.ctx = some () := by
  obtain ⟨p, o, hp⟩ := h.completion
  have hlate := hp.late
  rw [hc] at hlate
  cases hl : p.late with
  | none =>
    rw [hl] at hlate
    exact hlate.elim
  | some call =>
    rw [hl] at hlate
    obtain ⟨-, -, hctx⟩ := hlate
    rw [(h.queued_call hp).2 call hl] at hctx
    exact hctx

/-- A round of a block. -/
theorem BlockInv.giving (h : BlockInv cfg tr s l n) {round : Round} {err : RetCode}
    (hc : s.dfu.consumer = .give round err) : round = .blocks := by
  obtain ⟨p, o, hp⟩ := h.completion
  have hin : s.dfu.consumer.holds = true := by
    rw [hc]
    rfl
  obtain ⟨-, -, call, hw, -, hround⟩ := hp.processing hin
  rw [hc, (h.queued_call hp).1 call hw] at hround
  exact Option.some.inj hround

/-- What the condition asks of the DFU module. -/
theorem BlockInv.keepsCallbacks (h : BlockInv cfg tr s l n) {m : BlockMessage} {at' : LoadPc}
    (hi : s.dfu.callers () = .load m.load at') {next : Int → Handler Unit} (hr : s.runner = .load next)
    (hkeeps : KeepsAcks b s .runner) : KeepsCallbacks b s.dfu (.run ()) := by
  simp only [KeepsAcks, hr, hi] at hkeeps
  simp only [KeepsCallbacks, hi]
  have hpending (err : RetCode) (hc : s.dfu.consumer = .testCb err) := h.pending hc
  have hcalling (cb : Unit) (err : RetCode) (hc : s.dfu.consumer = .callCb cb err) := h.calling hc
  cases at' with
  | ctx =>
    simp only [KeepsCtx]
    split
    · rename_i err hc
      exact .inr (hpending err hc).2
    · rename_i cb err hc
      exact hcalling cb err hc
    · trivial
  | cb =>
    simp only [KeepsCb]
    split
    · rename_i err hc
      exact (hpending err hc).1
    · trivial
  | queue => exact hkeeps
  | _ => trivial

/-! The steps of the runner. -/

/-- The runner goes on outside of `dfu_load`. -/
theorem BlockInv.runs (h : BlockInv cfg tr s l n) (hshows : l'.Shows (tr ++ ev)) (hev : ev.filterMap dfuEvent = [])
    (hlate : l'.late = l.late) (hwaiting : l'.waiting = l.waiting)
    (hrunner : RunnerAt cfg { s with runner } l'.running n') : BlockInv cfg (tr ++ ev) { s with runner } l' n' := by
  have hsame : (tr ++ ev).filterMap dfuEvent = tr.filterMap dfuEvent := by
    rw [List.filterMap_append, hev, List.append_nil]
  refine ⟨hshows, ?_, ?_, ?_, ?_, h.callback, hrunner, ?_, ?_⟩
  · rw [hsame]
    exact h.completion
  · rw [hsame]
    exact h.blocks
  · rw [hwaiting]
    exact h.waiting
  · rw [hlate]
    exact h.late
  · rw [hwaiting]
    exact h.waitingContext
  · rw [hlate]
    exact h.lateContext

/-- A store that spares what a callback is still to read. -/
theorem BlockInv.store_context (h : BlockInv cfg tr s l n) {field : ContextField} {job : Context}
    (hkeeps : s.awaits field = true → s.context.store job field = s.context) :
    (∀ m, l.waiting = some m → s.context.store job field = m.context) ∧
      ∀ m err, l.late = some (m, err) → CallbackReads (s.context.store job field) m s.callback := by
  refine ⟨fun m hm => ?_, fun m err hm => ?_⟩
  · have hwaiting := h.waiting
    rw [hm] at hwaiting
    have hwaiting : (s.dfu.shared.full || s.dfu.consumer.holds) = true := hwaiting.symm
    rw [hkeeps (by rw [BlockSystem.awaits, hwaiting, Bool.true_or])]
    exact h.waitingContext m hm
  · have hreads := h.lateContext m err hm
    have hlate := h.late
    rw [hm] at hlate
    cases hc : s.callback with
    | idle =>
      have hawaits : s.awaits field = true := by
        simp only [BlockSystem.lateErr, hc] at hlate
        simp only [BlockSystem.awaits, hc]
        cases hconsumer : s.dfu.consumer with
        | testCb err | callCb cb err => simp
        | _ =>
          rw [hconsumer] at hlate
          contradiction
      rw [hkeeps hawaits, ← hc]
      exact hreads
    | remote err =>
      have hawaits : s.awaits field = true := by simp [BlockSystem.awaits, hc]
      rw [hkeeps hawaits, ← hc]
      exact hreads
    | ackNumber err =>
      rw [hc] at hreads
      cases field with
      | remote => exact hreads
      | remoteAddr | ackNumber =>
        rw [hkeeps (by simp [BlockSystem.awaits, hc])]
        exact hreads
    | publish ackNumber err =>
      rw [hc] at hreads
      cases field with
      | remote | ackNumber => exact hreads
      | remoteAddr =>
        rw [hkeeps (by simp [BlockSystem.awaits, hc])]
        exact hreads

theorem BlockInv.stores (h : BlockInv cfg tr s l n) {field : ContextField} {job : Context}
    (hkeeps : s.awaits field = true → s.context.store job field = s.context)
    (hrunner : RunnerAt cfg { s with context := s.context.store job field, runner } l.running n') :
    BlockInv cfg (tr ++ []) { s with context := s.context.store job field, runner } l n' := by
  obtain ⟨hwaiting, hlate⟩ := h.store_context hkeeps
  rw [List.append_nil]
  exact ⟨h.shows, h.completion, h.blocks, h.waiting, h.late, h.callback, hrunner, hwaiting, hlate⟩

theorem quietBlocks_nil : QuietBlocks [] := ⟨rfl, rfl, rfl, rfl, rfl⟩

theorem filterMap_dfuEvent (evs : List (Dfu.Event Unit Unit Unit)) :
    (evs.map BlockEvent.dfu).filterMap dfuEvent = evs := by
  rw [List.filterMap_map]
  exact List.filterMap_some

/-- The DFU module takes a step that keeps its callbacks. -/
theorem BlockInv.completion_step (h : BlockInv cfg tr s l n) {a : Dfu.Action Unit Unit Unit}
    (hkeeps : KeepsCallbacks b s.dfu a) :
    ∃ p o, CompletionInv ((tr ++ (dfuStep b s.dfu a).1.map BlockEvent.dfu).filterMap dfuEvent) (dfuStep b s.dfu a).2 p o := by
  obtain ⟨p, o, hp⟩ := h.completion
  rw [List.filterMap_append, filterMap_dfuEvent]
  exact hp.step hkeeps

theorem BlockInv.blocks_append (h : BlockInv cfg tr s l n) {evs : List (Dfu.Event Unit Unit Unit)}
    (hevs : ∀ call ∈ evs.filterMap Dfu.queuedEvent, call = ⟨.blocks, some (), some ()⟩) :
    ∀ call ∈ ((tr ++ evs.map BlockEvent.dfu).filterMap dfuEvent).filterMap Dfu.queuedEvent,
      call = ⟨.blocks, some (), some ()⟩ := by
  rw [List.filterMap_append, filterMap_dfuEvent, List.filterMap_append]
  intro call hcall
  rcases List.mem_append.mp hcall with hold | hnew
  · exact h.blocks call hold
  · exact hevs call hnew

theorem internal_not_queued {evs : List (Dfu.Event Unit Unit Unit)} (h : ∀ ev ∈ evs, ev.internal = true) :
    ∀ call ∈ evs.filterMap Dfu.queuedEvent, call = ⟨.blocks, some (), some ()⟩ := by
  intro call hcall
  obtain ⟨ev, hev, hq⟩ := List.mem_filterMap.mp hcall
  have hin := h ev hev
  cases ev with
  | returned | processed | callback => contradiction
  | called | stored | moved | erased | wrote | divided => contradiction

theorem internal_not_returned {evs : List (Dfu.Event Unit Unit Unit)} (h : ∀ ev ∈ evs, ev.internal = true) :
    returned evs = none ∧ called evs = none := by
  rw [returned, called, List.findSome?_eq_none_iff, List.findSome?_eq_none_iff]
  refine ⟨fun ev hev => ?_, fun ev hev => ?_⟩
  all_goals
    have hin := h ev hev
    cases ev with
    | returned | processed | callback => contradiction
    | called | stored | moved | erased | wrote | divided => rfl

/-- While the runner has the semaphore, no block waits for its round. -/
theorem BlockInv.holding (h : BlockInv cfg tr s l n) (hin : (s.dfu.callers ()).holds = true) : l.waiting = none := by
  obtain ⟨p, o, hp⟩ := h.completion
  obtain rfl := (hp.owned.caller ()).mp hin
  have hfull : s.dfu.shared.full = false := by simpa using hp.owned.full
  have hconsumer : s.dfu.consumer.holds = false := by simpa using hp.owned.consumer
  have hwaiting := h.waiting
  rw [hfull, hconsumer] at hwaiting
  simpa using hwaiting

theorem BlockInv.load_step (h : BlockInv cfg tr s l n) {at' : LoadPc} (hr : s.runner = .load (ackThen m))
    (hrunning : l.running = some (m, none)) (hcontext : s.context = m.context)
    (hi : s.dfu.callers () = .load m.load at') (hkeeps : KeepsAcks b s .runner) :
    ∃ l' n', BlockInv cfg (tr ++ (runnerStep b s).1) (runnerStep b s).2 l' n' ∧ n' ≤ at'.left+1 := by
  have hcompletion := h.completion_step (h.keepsCallbacks hi hr hkeeps)
  have hconsumer := consumer_other b s.dfu (a := .run ()) rfl
  have hwaiting := h.waiting
  have hlate := h.late
  have hcallback := h.callback
  rw [BlockSystem.lateErr] at hlate
  rw [← hconsumer] at hwaiting hlate hcallback
  simp only [runnerStep, hr]
  rcases load_run_cases (b := b) hi with ⟨at'', hlt, hi', hfull, hin⟩ | ⟨ret, hevs, hi', hfull⟩ | ⟨hat, hevs, hi', hfull⟩
  · have hrunner : RunnerAt cfg { s with
        dfu := (dfuStep b s.dfu (.run ())).2, runner := .load (ackThen m) } l.running (at''.left+2) := by
      rw [hrunning]
      exact .loads m at'' rfl hcontext hi'
    rw [(internal_not_returned hin).1]
    rw [← hfull] at hwaiting
    exact ⟨l, _, ⟨h.shows.quiet (quietBlocks_dfu hin), hcompletion, h.blocks_append (internal_not_queued hin),
      hwaiting, hlate, hcallback, hrunner, h.waitingContext, h.lateContext⟩, by omega⟩
  · have hreturned : returned (dfuStep b s.dfu (.run ())).1 = some (.code ret) := by
      rw [hevs]
      rfl
    have hqueued : ∀ call ∈ (dfuStep b s.dfu (.run ())).1.filterMap Dfu.queuedEvent,
        call = ⟨.blocks, some (), some ()⟩ := by
      rw [hevs]
      simp [Dfu.queuedEvent]
    have hshows : ({ l with running := some (m, some ret) } : Blocks).Shows
        (tr ++ (dfuStep b s.dfu (.run ())).1.map .dfu) := by
      rw [hevs]
      exact h.shows.returns hrunning
    rw [← hfull] at hwaiting
    rw [hreturned]
    exact ⟨_, _, ⟨hshows, hcompletion, h.blocks_append hqueued, hwaiting, hlate, hcallback,
      .answers m ret (congrArg RunnerPc.run (ackThen_code m ret)) hi', h.waitingContext, h.lateContext⟩,
      by have := at'.left_pos; omega⟩
  · have hnone := h.holding (by rw [hi]; exact hat)
    have hreturned : returned (dfuStep b s.dfu (.run ())).1 = some .einprogress := by
      rw [hevs]
      rfl
    have hqueued : ∀ call ∈ (dfuStep b s.dfu (.run ())).1.filterMap Dfu.queuedEvent,
        call = ⟨.blocks, some (), some ()⟩ := by
      rw [hevs]
      simp [Dfu.queuedEvent, BlockMessage.load]
    have hshows : ({ l with waiting := some m, running := none } : Blocks).Shows
        (tr ++ (dfuStep b s.dfu (.run ())).1.map .dfu) := by
      rw [hevs]
      exact h.shows.queue hrunning hnone
    rw [hreturned]
    refine ⟨_, _, ⟨hshows, hcompletion, h.blocks_append hqueued, ?_, hlate, hcallback,
      .idle (congrArg RunnerPc.run (ackThen_queued m)) hi', fun m' hm' => ?_, h.lateContext⟩, Nat.zero_le _⟩
    · dsimp only
      rw [hfull]
      rfl
    · obtain rfl := Option.some.inj hm'
      exact hcontext

theorem BlockInv.runner_step (h : BlockInv cfg tr s l n) (hkeeps : KeepsAcks b s .runner) :
    ∃ l' n', BlockInv cfg (tr ++ (runnerStep b s).1) (runnerStep b s).2 l' n' ∧ n' ≤ n-1 := by
  have hquiet := h.shows.quiet quietBlocks_nil
  have hrunner := h.runner
  generalize hrunning : l.running = running at hrunner
  cases hrunner with
  | idle hr hi =>
    have hstep : runnerStep b s = ([], s) := by rw [runnerStep, hr]
    rw [hstep]
    refine ⟨l, 0, ?_, le_refl 0⟩
    dsimp only
    rwa [List.append_nil]
  | counts hr hi =>
    have hstep : runnerStep b s = ([], { s with runner := .run (.done ()) }) := by
      rw [runnerStep, hr]
      rfl
    rw [hstep]
    exact ⟨l, _, h.runs hquiet rfl rfl rfl (by rw [hrunning]; exact .idle rfl hi), by decide⟩
  | starts m hr hi =>
    rw [runnerProcessJob_block] at hr
    split_ifs at hr with haddr
    · have hstep : runnerStep b s = ([], { s with runner := .run (handleBlock m) }) := by
        rw [runnerStep, hr]
      rw [hstep]
      exact ⟨l, _, h.runs hquiet rfl rfl rfl (by rw [hrunning]; exact .handles m rfl hi), by decide⟩
    · have hstep : runnerStep b s = ([], { s with runner := .store .remote m.context (loadThen m) }) := by
        rw [runnerStep, hr, handleBlock_eq]
      rw [hstep]
      exact ⟨l, _, h.runs hquiet rfl rfl rfl (by rw [hrunning]; exact .storesRemote m rfl hi), by decide⟩
  | handles m hr hi =>
    have hstep : runnerStep b s = ([], { s with runner := .store .remote m.context (loadThen m) }) := by
      rw [runnerStep, hr, handleBlock_eq]
    rw [hstep]
    exact ⟨l, _, h.runs hquiet rfl rfl rfl (by rw [hrunning]; exact .storesRemote m rfl hi), by decide⟩
  | storesRemote m hr hi =>
    simp only [KeepsAcks, hr] at hkeeps
    simp only [runnerStep, hr]
    exact ⟨l, _, h.stores hkeeps (by rw [hrunning]; exact .storesRemoteAddr m rfl rfl hi), by decide⟩
  | storesRemoteAddr m hr hremote hi =>
    simp only [KeepsAcks, hr] at hkeeps
    simp only [runnerStep, hr]
    exact ⟨l, _, h.stores hkeeps (by rw [hrunning]; exact .storesAckNumber m rfl hremote rfl hi), by decide⟩
  | storesAckNumber m hr hremote haddr hi =>
    simp only [KeepsAcks, hr] at hkeeps
    simp only [runnerStep, hr]
    have hcontext : s.context.store m.context .ackNumber = m.context := by
      simp only [Context.store, BlockMessage.context, hremote, haddr]
    exact ⟨l, _, h.stores hkeeps (by rw [hrunning]; exact .calls m rfl hcontext hi), by decide⟩
  | calls m hr hcontext hi =>
    have hstep : runnerStep b s = ([.dfu (.called () (.load m.load))], { s with
        dfu := s.dfu.goes () s.dfu.shared (entry (.load m.load)), runner := .load (ackThen m) }) := by
      rw [runnerStep, hr]
      simp only [loadThen, dfuStep, hi]
      rfl
    have hcompletion := h.completion_step (b := b) (a := .call () (.load m.load)) trivial
    have hinternal : ∀ ev ∈ ([.called () (.load m.load)] : List (Dfu.Event Unit Unit Unit)),
        ev.internal = true := by
      simp [Event.internal]
    simp only [dfuStep, hi] at hcompletion
    rw [hstep]
    refine ⟨l, 11, ⟨h.shows.quiet (quietBlocks_dfu hinternal), hcompletion,
      h.blocks_append (internal_not_queued hinternal), h.waiting, h.late, h.callback, ?_, h.waitingContext,
      h.lateContext⟩, by decide⟩
    rw [hrunning]
    exact .loads m .number rfl hcontext (DfuSystem.goes_same _ _ _ _)
  | loads m at' hr hcontext hi => exact h.load_step hr hrunning hcontext hi hkeeps
  | answers m ret hr hi =>
    rw [jobAck_block] at hr
    have hstep : runnerStep b s = ([.published (.ack m.ackNumber (loadAck ret.value)) m.remoteAddr],
        { s with runner := .run (if loadAck ret.value = .success then void .countJob else .done ()) }) := by
      rw [runnerStep, hr]
    rw [hstep]
    split_ifs
    · exact ⟨_, _, h.runs (h.shows.answer hrunning) rfl rfl rfl (.counts rfl hi), by decide⟩
    · exact ⟨_, _, h.runs (h.shows.answer hrunning) rfl rfl rfl (.idle rfl hi), by decide⟩

/-! The steps of the processing thread. -/

theorem RunnerAt.congr {s' : BlockSystem} {running : Option (BlockMessage × Option RetCode)}
    (h : RunnerAt cfg s running n) (hr : s'.runner = s.runner) (hcontext : s'.context = s.context)
    (hi : s'.dfu.callers = s.dfu.callers) : RunnerAt cfg s' running n := by
  obtain ⟨runner, context, callback, dfu⟩ := s
  obtain ⟨runner', context', callback', dfu'⟩ := s'
  obtain rfl : runner' = runner := hr
  obtain rfl : context' = context := hcontext
  have hi : dfu'.callers = dfu.callers := hi
  cases h with
  | idle hr h => exact .idle hr (by rw [hi]; exact h)
  | counts hr h => exact .counts hr (by rw [hi]; exact h)
  | starts m hr h => exact .starts m hr (by rw [hi]; exact h)
  | handles m hr h => exact .handles m hr (by rw [hi]; exact h)
  | storesRemote m hr h => exact .storesRemote m hr (by rw [hi]; exact h)
  | storesRemoteAddr m hr hremote h => exact .storesRemoteAddr m hr hremote (by rw [hi]; exact h)
  | storesAckNumber m hr hremote haddr h => exact .storesAckNumber m hr hremote haddr (by rw [hi]; exact h)
  | calls m hr hc h => exact .calls m hr hc (by rw [hi]; exact h)
  | loads m at' hr hc h => exact .loads m at' hr hc (by rw [hi]; exact h)
  | answers m ret hr h => exact .answers m ret hr (by rw [hi]; exact h)

/-- The callback goes on with what it has read. -/
theorem BlockInv.reads (h : BlockInv cfg tr s l n) {callback : CallbackPc} {err : RetCode}
    (hlate : s.lateErr = some err) (hcallback : ({ s with callback } : BlockSystem).lateErr = some err)
    (hwaiting : s.dfu.consumer = .waiting)
    (hreads : ∀ m, CallbackReads s.context m s.callback → CallbackReads s.context m callback) :
    BlockInv cfg (tr ++ []) { s with callback } l n := by
  rw [List.append_nil]
  refine ⟨h.shows, h.completion, h.blocks, h.waiting, ?_, fun _ => hwaiting, h.runner.congr rfl rfl rfl,
    h.waitingContext, fun m err hm => hreads m (h.lateContext m err hm)⟩
  rw [hcallback, ← hlate]
  exact h.late

theorem BlockInv.callback_step (h : BlockInv cfg tr s l n) {outcome : RetCode} (hc : s.callback ≠ .idle) :
    ∃ l', BlockInv cfg (tr ++ (dfuThreadStep b s outcome).1) (dfuThreadStep b s outcome).2 l' n := by
  have hlate := h.late
  have hwaiting := h.callback hc
  cases hcallback : s.callback with
  | idle => exact absurd hcallback hc
  | remote err =>
    have herr : s.lateErr = some err := by rw [BlockSystem.lateErr, hcallback]
    rw [herr] at hlate
    obtain ⟨⟨m, err'⟩, hl, -⟩ := Option.map_eq_some_iff.mp hlate
    have hreads := h.lateContext m err' hl
    rw [hcallback] at hreads
    have hcontext : s.context = m.context := hreads
    have hremote : s.context.remote = .canJetsonMessaging := congrArg Context.remote hcontext
    simp only [dfuThreadStep, hcallback, hremote, if_true]
    refine ⟨l, h.reads herr rfl hwaiting fun m hm => ?_⟩
    rw [hcallback] at hm
    have hm : s.context = m.context := hm
    rw [hm]
    exact ⟨rfl, rfl⟩
  | ackNumber err =>
    have herr : s.lateErr = some err := by rw [BlockSystem.lateErr, hcallback]
    simp only [dfuThreadStep, hcallback]
    refine ⟨l, h.reads herr rfl hwaiting fun m hm => ?_⟩
    rw [hcallback] at hm
    exact hm
  | publish ackNumber err =>
    have herr : s.lateErr = some err := by rw [BlockSystem.lateErr, hcallback]
    rw [herr] at hlate
    obtain ⟨⟨m, err'⟩, hl, rfl⟩ := Option.map_eq_some_iff.mp hlate
    have hreads := h.lateContext m err' hl
    rw [hcallback] at hreads
    obtain ⟨rfl, haddr⟩ := hreads
    simp only [dfuThreadStep, hcallback, haddr]
    have hsame : (tr ++ [BlockEvent.published (.ack m.ackNumber (handleErrCodeAck err'.value)) m.remoteAddr]).filterMap
        dfuEvent = tr.filterMap dfuEvent := by
      rw [List.filterMap_append]
      exact List.append_nil _
    refine ⟨_, h.shows.finish hl, ?_, ?_, h.waiting, ?_, fun hne => absurd rfl hne, h.runner.congr rfl rfl rfl,
      h.waitingContext, fun _ _ hm => by contradiction⟩
    · rw [hsame]
      exact h.completion
    · rw [hsame]
      exact h.blocks
    · simp only [BlockSystem.lateErr, hwaiting]
      rfl

theorem BlockInv.dfu_step (h : BlockInv cfg tr s l n) {outcome : RetCode} (hkeeps : KeepsAcks b s (.dfu outcome)) :
    ∃ l', BlockInv cfg (tr ++ (dfuThreadStep b s outcome).1) (dfuThreadStep b s outcome).2 l' n := by
  by_cases hc : s.callback = .idle
  · have hsize : KeepsCallbacks b s.dfu (.consume outcome) :=
      fun hconsumer hlarge => absurd hlarge (hkeeps hc hconsumer)
    have hcompletion := h.completion_step hsize
    have hwaiting := h.waiting
    have hlate := h.late
    have hpending (err : RetCode) (hc : s.dfu.consumer = .testCb err) := h.pending hc
    have hgiving (round : Round) (err : RetCode) (hc : s.dfu.consumer = .give round err) := h.giving hc
    have hlateContext := h.lateContext
    obtain ⟨hcons, hcallers⟩ := consume_cases b s.dfu outcome
    simp only [BlockSystem.lateErr, hc] at hlate
    rw [hc] at hlateContext
    simp only [dfuThreadStep, hc]
    generalize (dfuStep b s.dfu (.consume outcome)).1 = evs at *
    generalize (dfuStep b s.dfu (.consume outcome)).2 = dfu at *
    have hrunner : ∀ callback, RunnerAt cfg { s with callback, dfu } l.running n :=
      fun _ => h.runner.congr rfl rfl hcallers
    cases hcons with
    | rests hconsumer hfull =>
      refine ⟨l, h.shows.quiet quietBlocks_nil, hcompletion, h.blocks_append (fun _ hm => by contradiction), hwaiting,
        hlate, fun hne => absurd rfl hne, hrunner _, h.waitingContext, hlateContext⟩
    | takes hconsumer hfull hin hfull' =>
      refine ⟨l, h.shows.quiet quietBlocks_nil, hcompletion, h.blocks_append (fun _ hm => by contradiction), ?_,
        ?_, fun hne => absurd rfl hne, hrunner _, h.waitingContext, hlateContext⟩
      · rw [hwaiting, hfull, hin, Bool.true_or, Bool.or_true]
      · rw [hlate, hconsumer]
        exact (pendingErr_holds hin).symm
    | works hin hgive hin' hfull hevs =>
      rw [(internal_not_returned hevs).2]
      refine ⟨l, h.shows.quiet (quietBlocks_dfu hevs), hcompletion, h.blocks_append (internal_not_queued hevs), ?_,
        ?_, fun hne => absurd rfl hne, hrunner _, h.waitingContext, hlateContext⟩
      · rw [hwaiting, hin, hin', hfull]
      · rw [hlate, pendingErr_holds hin]
        exact (pendingErr_holds hin').symm
    | gives round err hconsumer hconsumer' hfull =>
      obtain rfl := hgiving round err hconsumer
      have hin : s.dfu.consumer.holds = true := by
        rw [hconsumer]
        rfl
      rw [hin, Bool.or_true] at hwaiting
      rw [pendingErr_holds hin] at hlate
      obtain ⟨m, hw⟩ := Option.isSome_iff_exists.mp hwaiting
      have hl : l.late = none := Option.map_eq_none_iff.mp hlate
      have hnotfull : s.dfu.shared.full = false := by
        obtain ⟨p, o, hp⟩ := h.completion
        obtain rfl := hp.owned.consumer.mp hin
        simpa using hp.owned.full
      refine ⟨_, h.shows.process hw hl, hcompletion, h.blocks_append (fun _ hm => by contradiction), ?_, ?_,
        fun hne => absurd rfl hne, hrunner _, fun _ hm => by contradiction, fun m' err' hm' => ?_⟩
      · rw [hfull, hnotfull, hconsumer']
        rfl
      · simp only [BlockSystem.lateErr, called, List.findSome?_cons, List.findSome?_nil, hconsumer']
        rfl
      · obtain ⟨rfl, rfl⟩ := Prod.mk.inj (Option.some.inj hm')
        exact h.waitingContext m hw
    | reads cb err hconsumer hcb =>
      rw [hconsumer] at hwaiting hlate
      exact ⟨l, h.shows.quiet quietBlocks_nil, hcompletion, h.blocks_append (fun _ hm => by contradiction), hwaiting,
        hlate, fun hne => absurd rfl hne, hrunner _, h.waitingContext, hlateContext⟩
    | skips err hconsumer hcb =>
      rw [(hpending err hconsumer).1] at hcb
      contradiction
    | calls cb err hconsumer =>
      rw [hconsumer] at hwaiting hlate
      refine ⟨l, h.shows.quiet ⟨rfl, rfl, rfl, rfl, rfl⟩, hcompletion, h.blocks_append (fun _ hm => by contradiction),
        hwaiting, hlate, fun _ => rfl, hrunner _, h.waitingContext, hlateContext⟩
  · exact h.callback_step hc

/-! Runs. -/

/-- The runner is through with its job exactly if it has no step to take. -/
theorem RunnerAt.done_iff {running : Option (BlockMessage × Option RetCode)} (h : RunnerAt cfg s running n) :
    s.runner = .run (.done ()) ↔ n = 0 ∧ running = none := by
  have hcall {c : Call} {next : c.Answer → Handler Unit} (hr : s.runner = .run (.call c next)) :
      s.runner ≠ .run (.done ()) := by
    rw [hr]
    intro hdone
    cases hdone
  cases h with
  | idle hr => exact ⟨fun _ => ⟨rfl, rfl⟩, fun _ => hr⟩
  | counts hr => exact ⟨fun hdone => absurd hdone (hcall hr), fun hn => absurd hn.1 (by decide)⟩
  | starts m hr =>
    rw [runnerProcessJob_block] at hr
    split_ifs at hr <;> exact ⟨fun hdone => absurd hdone (hcall hr), fun hn => absurd hn.1 (by decide)⟩
  | handles m hr | calls m hr | answers m ret hr =>
    exact ⟨fun hdone => absurd hdone (hcall hr), fun hn => absurd hn.1 (by decide)⟩
  | storesRemote m hr | storesRemoteAddr m hr | storesAckNumber m hr =>
    refine ⟨fun hdone => ?_, fun hn => absurd hn.1 (by decide)⟩
    rw [hr] at hdone
    cases hdone
  | loads m at' hr =>
    refine ⟨fun hdone => ?_, fun hn => absurd hn.1 (Nat.succ_ne_zero _)⟩
    rw [hr] at hdone
    cases hdone

theorem BlockInv.receive_step (h : BlockInv cfg tr s l n) (m : BlockMessage) :
    ∃ l' n', BlockInv cfg (tr ++ (blockStep cfg b s (.receive m)).1) (blockStep cfg b s (.receive m)).2 l' n' := by
  have hrunner := h.runner
  generalize hrunning : l.running = running at hrunner
  by_cases hdone : s.runner = .run (.done ())
  · simp only [blockStep, hdone]
    obtain ⟨-, rfl⟩ := hrunner.done_iff.mp hdone
    have hi : s.dfu.callers () = .idle := by
      cases hrunner with
      | idle hr hi | counts hr hi => exact hi
    exact ⟨_, _, h.runs (h.shows.receive hrunning) rfl rfl rfl (.starts m rfl hi)⟩
  · have hstay : blockStep cfg b s (.receive m) = ([], s) := by
      simp only [blockStep]
    rw [hstay]
    dsimp only
    rw [List.append_nil]
    exact ⟨l, n, h⟩

theorem BlockInv.step (h : BlockInv cfg tr s l n) {a : BlockAction} (hkeeps : KeepsAcks b s a) :
    ∃ l' n', BlockInv cfg (tr ++ (blockStep cfg b s a).1) (blockStep cfg b s a).2 l' n' := by
  cases a with
  | receive m => exact h.receive_step m
  | runner =>
    obtain ⟨l', n', h', -⟩ := h.runner_step hkeeps
    exact ⟨l', n', h'⟩
  | dfu outcome =>
    obtain ⟨l', h'⟩ := h.dfu_step hkeeps
    exact ⟨l', n, h'⟩

theorem blockInv_start (cfg : BuildConfig) (m : Nor.Mem) :
    BlockInv cfg [] (.start m) ⟨[], none, none, none⟩ 0 :=
  ⟨⟨.refl _, rfl, rfl, rfl, rfl⟩, ⟨_, _, completionInv_start m⟩, fun _ hm => by contradiction, rfl, rfl,
    fun hne => absurd rfl hne, .idle rfl rfl, fun _ hm => by contradiction, fun _ _ hm => by contradiction⟩

theorem BlockInv.run (h : BlockInv cfg tr s l n) {actions : List BlockAction}
    (hkeeps : Machine.Meets (blockStep cfg b) (KeepsAcks b) s actions) :
    ∃ l n, BlockInv cfg (tr ++ Machine.events (blockStep cfg b) s actions)
      (Machine.run (blockStep cfg b) s actions).2 l n :=
  Machine.events_invariant (I := fun tr s => ∃ l n, BlockInv cfg tr s l n)
    (fun _ _ _ hs ha => hs.elim fun _ hs => hs.elim fun _ hs => hs.step ha) tr s actions ⟨l, n, h⟩ hkeeps

/-- With nothing to do, all blocks are acknowledged. -/
theorem BlockInv.rest (h : BlockInv cfg tr s l n) (hrest : s.Rests) :
    l.late = none ∧ l.waiting = none ∧ l.running = none := by
  have hwaiting := h.waiting
  have hlate := h.late
  rw [hrest.full, hrest.consumer] at hwaiting
  rw [BlockSystem.lateErr, hrest.callback, hrest.consumer] at hlate
  have hwaiting : l.waiting.isSome = false := hwaiting
  exact ⟨Option.map_eq_none_iff.mp hlate, by simpa using hwaiting, (h.runner.done_iff.mp hrest.runner).2⟩

/-! Both threads come to rest. -/

def CallbackPc.left : CallbackPc → Nat
  | .idle => 0
  | .publish _ _ => 1
  | .ackNumber _ => 2
  | .remote _ => 3

/-- The steps the processing thread may still take. -/
def BlockSystem.dfuLeft (s : BlockSystem) : Nat :=
  (if s.dfu.shared.full then 13 else 0)+s.callback.left+
    match s.dfu.consumer with
    | .waiting => 0
    | .callCb _ _ => 4
    | .testCb _ => 5
    | consumer => 15-consumer.rank

def BlockAction.isDfu : BlockAction → Bool
  | .dfu _ => true
  | _ => false

def BlockAction.isRunner : BlockAction → Bool
  | .runner => true
  | _ => false

def BlockAction.isReceive : BlockAction → Bool
  | .receive _ => true
  | _ => false

theorem BlockInv.dfuLeft_le (h : BlockInv cfg tr s l n) : s.dfuLeft ≤ 18 := by
  have hfull : s.dfu.consumer.holds = true → s.dfu.shared.full = false := by
    intro hin
    obtain ⟨p, o, hp⟩ := h.completion
    obtain rfl := hp.owned.consumer.mp hin
    simpa using hp.owned.full
  have hcallback := h.callback
  have hif : (if s.dfu.shared.full then 13 else 0) ≤ 13 := by split_ifs <;> omega
  rw [BlockSystem.dfuLeft]
  cases hc : s.dfu.consumer with
  | waiting =>
    have hleft : s.callback.left ≤ 3 := by cases s.callback <;> simp [CallbackPc.left]
    dsimp only
    omega
  | testCb err | callCb cb err =>
    have hidle : s.callback = .idle := by
      by_contra hne
      have hwaiting := hcallback hne
      rw [hc] at hwaiting
      contradiction
    rw [hidle, CallbackPc.left]
    dsimp only
    omega
  | _ =>
    have hidle : s.callback = .idle := by
      by_contra hne
      have hwaiting := hcallback hne
      rw [hc] at hwaiting
      contradiction
    rw [hfull (by rw [hc]; rfl), hidle, CallbackPc.left, if_neg Bool.false_ne_true]
    simp [ConsumerPc.rank]

/-- The part of `dfuLeft` that the consumer has. -/
theorem BlockSystem.dfuLeft_holds {s : BlockSystem} (hin : s.dfu.consumer.holds = true) :
    s.dfuLeft = (if s.dfu.shared.full then 13 else 0)+s.callback.left+(15-s.dfu.consumer.rank) := by
  rw [BlockSystem.dfuLeft]
  cases hc : s.dfu.consumer with
  | waiting | testCb err | callCb cb err =>
    rw [hc] at hin
    contradiction
  | _ => rfl

theorem BlockInv.dfuLeft_step (h : BlockInv cfg tr s l n) (outcome : RetCode) :
    (dfuThreadStep b s outcome).2.dfuLeft ≤ s.dfuLeft-1 := by
  have hcallback := h.callback
  cases hc : s.callback with
  | remote err =>
    have hwaiting : s.dfu.consumer = .waiting := hcallback (by rw [hc]; simp)
    have hleft : (if s.context.remote = .canJetsonMessaging then CallbackPc.ackNumber err else .idle).left ≤ 2 := by
      split_ifs <;> simp [CallbackPc.left]
    have hthree : (CallbackPc.remote err).left = 3 := rfl
    simp only [dfuThreadStep, hc, BlockSystem.dfuLeft, hwaiting]
    omega
  | ackNumber err | publish ackNumber err =>
    have hwaiting : s.dfu.consumer = .waiting := hcallback (by rw [hc]; simp)
    simp only [dfuThreadStep, hc, BlockSystem.dfuLeft, hwaiting, CallbackPc.left]
    omega
  | idle =>
    have hlt := rank_lt b s.dfu outcome
    obtain ⟨hcons, -⟩ := consume_cases b s.dfu outcome
    simp only [dfuThreadStep, hc]
    generalize (dfuStep b s.dfu (.consume outcome)).1 = evs at *
    generalize (dfuStep b s.dfu (.consume outcome)).2 = dfu at *
    cases hcons with
    | rests hconsumer hfull => simp [BlockSystem.dfuLeft, hconsumer, hfull, hc, called, CallbackPc.left]
    | takes hconsumer hfull hin hfull' =>
      have hrank : 2 < dfu.consumer.rank := by
        have hlt := hlt (fun _ => hfull) (by rw [hconsumer]; simp)
        rwa [hconsumer] at hlt
      rw [BlockSystem.dfuLeft_holds hin]
      simp only [BlockSystem.dfuLeft, hconsumer, hfull, hfull', hc, called, CallbackPc.left, List.findSome?_nil,
        if_true, Bool.false_eq_true, if_false]
      omega
    | works hin hgive hin' hfull hevs =>
      have hold := s.dfu.consumer.rank_le
      have hnew := dfu.consumer.rank_le
      rw [(internal_not_returned hevs).2, BlockSystem.dfuLeft_holds hin, BlockSystem.dfuLeft_holds hin', hfull, hc]
      have hlt := hlt (fun hw => by rw [hw] at hin; contradiction) hgive
      dsimp only
      omega
    | gives round err hconsumer hconsumer' hfull =>
      simp only [BlockSystem.dfuLeft, hconsumer, hconsumer', hfull, hc, called, CallbackPc.left, ConsumerPc.rank,
        List.findSome?_cons, List.findSome?_nil]
      omega
    | reads cb err hconsumer hcb => simp [BlockSystem.dfuLeft, hconsumer, hc, called, CallbackPc.left]
    | skips err hconsumer hcb => simp [BlockSystem.dfuLeft, hconsumer, hc, called, CallbackPc.left]
    | calls cb err hconsumer => simp [BlockSystem.dfuLeft, hconsumer, hc, called, CallbackPc.left]

theorem RunnerAt.left_le {running : Option (BlockMessage × Option RetCode)} (h : RunnerAt cfg s running n) :
    n ≤ 17 := by
  cases h with
  | loads m at' =>
    have hleft : at'.left ≤ 9 := by cases at' <;> decide
    omega
  | _ => omega

/-- While nothing is received, the runner comes to the end of its job. -/
theorem BlockInv.run_runner (h : BlockInv cfg tr s l n) {actions : List BlockAction}
    (hkeeps : Machine.Meets (blockStep cfg b) (KeepsAcks b) s actions)
    (hreceive : ∀ a ∈ actions, a.isReceive = false) :
    ∃ l n', BlockInv cfg (tr ++ Machine.events (blockStep cfg b) s actions)
      (Machine.run (blockStep cfg b) s actions).2 l n' ∧ n' ≤ n-actions.countP BlockAction.isRunner := by
  induction actions generalizing tr s l n with
  | nil =>
    refine ⟨l, n, ?_, le_refl _⟩
    rw [Machine.events, Machine.run, List.flatten_nil, List.append_nil]
    exact h
  | cons a actions ih =>
    obtain ⟨ha, hactions⟩ := hkeeps
    have hrest := fun a' ha' => hreceive a' (List.mem_cons_of_mem a ha')
    have hnext : ∃ l' n', BlockInv cfg (tr ++ (blockStep cfg b s a).1) (blockStep cfg b s a).2 l' n' ∧
        n' ≤ n-(if a.isRunner then 1 else 0) := by
      cases a with
      | receive m =>
        have hm := hreceive (.receive m) List.mem_cons_self
        contradiction
      | runner => exact h.runner_step ha
      | dfu outcome =>
        obtain ⟨l', h'⟩ := h.dfu_step ha
        exact ⟨l', n, h', le_refl n⟩
    obtain ⟨l', n', h', hn'⟩ := hnext
    obtain ⟨l'', n'', h'', hn''⟩ := ih h' hactions hrest
    rw [Machine.events_cons, ← List.append_assoc]
    refine ⟨l'', n'', h'', ?_⟩
    rw [List.countP_cons]
    omega

theorem BlockInv.runner_done (h : BlockInv cfg tr s l 0) : s.runner = .run (.done ()) := by
  have hrunner := h.runner
  generalize hrunning : l.running = running at hrunner
  cases hrunner with
  | idle hr => exact hr

/-- And then the processing thread. -/
theorem BlockInv.run_dfu (h : BlockInv cfg tr s l 0) {actions : List BlockAction}
    (hkeeps : Machine.Meets (blockStep cfg b) (KeepsAcks b) s actions)
    (hreceive : ∀ a ∈ actions, a.isReceive = false) :
    ∃ l, BlockInv cfg (tr ++ Machine.events (blockStep cfg b) s actions)
        (Machine.run (blockStep cfg b) s actions).2 l 0 ∧
      (Machine.run (blockStep cfg b) s actions).2.dfuLeft ≤ s.dfuLeft-actions.countP BlockAction.isDfu := by
  induction actions generalizing tr s l with
  | nil =>
    refine ⟨l, ?_, le_refl _⟩
    rw [Machine.events, Machine.run, List.flatten_nil, List.append_nil]
    exact h
  | cons a actions ih =>
    obtain ⟨ha, hactions⟩ := hkeeps
    have hrest := fun a' ha' => hreceive a' (List.mem_cons_of_mem a ha')
    have hnext : ∃ l', BlockInv cfg (tr ++ (blockStep cfg b s a).1) (blockStep cfg b s a).2 l' 0 ∧
        (blockStep cfg b s a).2.dfuLeft ≤ s.dfuLeft-(if a.isDfu then 1 else 0) := by
      cases a with
      | receive m =>
        have hm := hreceive (.receive m) List.mem_cons_self
        contradiction
      | runner =>
        have hstay : blockStep cfg b s .runner = ([], s) := by
          rw [blockStep_runner, runnerStep, h.runner_done]
        rw [hstay]
        refine ⟨l, ?_, le_refl _⟩
        rw [List.append_nil]
        exact h
      | dfu outcome =>
        obtain ⟨l', h'⟩ := h.dfu_step ha
        exact ⟨l', h', h.dfuLeft_step outcome⟩
    obtain ⟨l', h', hleft⟩ := hnext
    obtain ⟨l'', h'', hleft'⟩ := ih h' hactions hrest
    rw [Machine.events_cons, ← List.append_assoc]
    refine ⟨l'', h'', ?_⟩
    rw [Machine.run_cons, List.countP_cons]
    omega

theorem BlockInv.rests (h : BlockInv cfg tr s l 0) (hleft : s.dfuLeft = 0) : s.Rests := by
  have hrank := s.dfu.consumer.rank_le
  rw [BlockSystem.dfuLeft] at hleft
  have hconsumer : s.dfu.consumer = .waiting := by
    cases hc : s.dfu.consumer with
    | waiting => rfl
    | _ =>
      rw [hc] at hleft hrank
      dsimp only at hleft
      omega
  refine ⟨h.runner_done, ?_, hconsumer, ?_⟩
  · cases hc : s.callback with
    | idle => rfl
    | _ =>
      rw [hc, CallbackPc.left] at hleft
      omega
  · cases hfull : s.dfu.shared.full with
    | false => rfl
    | true =>
      rw [hfull, if_pos rfl] at hleft
      omega

/-- In every run from power-up whose steps keep the acknowledgements, whatever the order of the two threads
and whichever flash access fails, every block received is acknowledged once, with its own number, at its
address and with the result of its own processing. All are once nothing more is received, the runner has
taken seventeen steps and then the processing thread eighteen. -/
theorem blocks_acknowledged_once (cfg : BuildConfig) (b : Build) (m : Nor.Mem) (actions more more' : List BlockAction)
    (h : Machine.Meets (blockStep cfg b) (KeepsAcks b) (.start m) (actions ++ (more ++ more'))) :
    EachBlockAcknowledged (Machine.events (blockStep cfg b) (.start m) actions)
        (Machine.run (blockStep cfg b) (.start m) actions).2 ∧
      ((∀ a ∈ more ++ more', a.isReceive = false) → 17 ≤ more.countP BlockAction.isRunner →
        18 ≤ more'.countP BlockAction.isDfu →
          (Machine.run (blockStep cfg b) (.start m) (actions ++ (more ++ more'))).2.Rests) := by
  obtain ⟨hactions, hrest⟩ := Machine.meets_append.mp h
  obtain ⟨hmore, hmore'⟩ := Machine.meets_append.mp hrest
  obtain ⟨l, n, hinv⟩ := (blockInv_start cfg m).run hactions
  refine ⟨⟨l, hinv.shows, hinv.rest⟩, fun hreceive hrunner hdfu => ?_⟩
  obtain ⟨l₁, n₁, hinv₁, hn₁⟩ := hinv.run_runner hmore fun a ha => hreceive a (List.mem_append_left _ ha)
  have hn := hinv.runner.left_le
  obtain rfl : n₁ = 0 := by omega
  have hleft := hinv₁.dfuLeft_le
  obtain ⟨l₂, hinv₂, hleft₂⟩ := hinv₁.run_dfu hmore' fun a ha => hreceive a (List.mem_append_right _ ha)
  rw [Machine.run_append, Machine.run_append]
  exact hinv₂.rests (by omega)

instance (s : BlockSystem) (a : BlockAction) : Decidable (KeepsAcks b s a) := by
  unfold KeepsAcks
  split
  · infer_instance
  · split
    · infer_instance
    · split <;> infer_instance
    · infer_instance
  · infer_instance

def pearlConfig : BuildConfig := ⟨.pearl, false, false, false, false⟩

/-- Two blocks make up an image; each is handled before the next one arrives. -/
def twoBlocks : List BlockAction :=
  BlockAction.receive ⟨0x71, 5, 0, 2, [1, 2, 3]⟩ :: List.replicate 17 BlockAction.runner ++
    [BlockAction.receive ⟨0x71, 6, 1, 2, [4]⟩]

theorem blocks_acknowledged_once_pearl :
    EachBlockAcknowledged (Machine.events (blockStep pearlConfig (.of .pearl)) (.start fun _ => 0) twoBlocks)
        (Machine.run (blockStep pearlConfig (.of .pearl)) (.start fun _ => 0) twoBlocks).2 ∧
      (Machine.run (blockStep pearlConfig (.of .pearl)) (.start fun _ => 0)
        (twoBlocks ++ (List.replicate 17 BlockAction.runner ++ List.replicate 18 (BlockAction.dfu .success)))).2.Rests :=
  have h := blocks_acknowledged_once pearlConfig (.of .pearl) (fun _ => 0) twoBlocks (List.replicate 17 .runner)
    (List.replicate 18 (.dfu .success)) (by decide +kernel)
  ⟨h.1, h.2 (by decide) (by decide) (by decide)⟩

/-- Block 1 is being written when block 2 arrives. -/
def blockWhileBusy : List BlockAction :=
  BlockAction.receive ⟨0x71, 0, 0, 9, List.replicate 39 1⟩ :: List.replicate 17 BlockAction.runner ++
    BlockAction.receive ⟨0x71, 1, 1, 9, List.replicate 39 2⟩ :: List.replicate 17 BlockAction.runner ++
    List.replicate 5 (BlockAction.dfu .success) ++
    BlockAction.receive ⟨0x71, 2, 2, 9, List.replicate 39 3⟩ :: List.replicate 17 BlockAction.runner ++
    List.replicate 13 (BlockAction.dfu .success)

/-- On Pearl, block 2 is refused and acknowledged twice, block 1 never. -/
theorem block_while_busy_acknowledged_twice :
    ¬ ∀ (cfg : BuildConfig) (b : Build) (m : Nor.Mem) (actions : List BlockAction),
      EachBlockAcknowledged (Machine.events (blockStep cfg b) (.start m) actions)
        (Machine.run (blockStep cfg b) (.start m) actions).2 := by
  intro h
  obtain ⟨l, hshows, hrest⟩ := h pearlConfig (.of .pearl) (fun _ => 0) blockWhileBusy
  obtain ⟨hlate, hwaiting, hrunning⟩ := hrest ⟨rfl, by decide +kernel, by decide +kernel, by decide +kernel⟩
  have hreceived := hshows.received
  have hacks := congrArg (List.map (·.1)) hshows.acks
  rw [Blocks.received, hlate, hwaiting, hrunning] at hreceived
  simp only [Option.toList_none, List.map_nil, List.append_nil] at hreceived
  have hnumbers := hreceived.map (·.ackNumber)
  rw [List.map_map] at hacks hnumbers
  have hperm : (((Machine.events (blockStep pearlConfig (.of .pearl)) (.start fun _ => 0)
      blockWhileBusy).filterMap receivedEvent).map (·.ackNumber)).Perm
        (((Machine.events (blockStep pearlConfig (.of .pearl)) (.start fun _ => 0)
          blockWhileBusy).filterMap ackEvent).map (·.1)) := by
    rw [hacks]
    exact hnumbers
  revert hperm
  decide +kernel

end OrbFirmware.Runner

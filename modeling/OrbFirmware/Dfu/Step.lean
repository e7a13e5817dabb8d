import OrbFirmware.Dfu.State

/-! One step of a calling thread or of the processing thread. A step ends before the next access to
what the threads share, so that lists of steps are all interleavings. -/
namespace OrbFirmware.Dfu
open Nor
variable {ι κ φ : Type*}

/-- What a call does next: a later place in its body, or its return. -/
inductive Next (π : Type*) where
  | goto (pc : π)
  | ret (ret : DfuRet)

/-- `dfu_load`. The processing thread, created with the first block 0, is there from the start: until
then nothing can be queued. -/
def loadStep (b : Build) (s : Shared κ φ) (call : LoadCall κ φ) :
    LoadPc → List (Event ι κ φ) × Shared κ φ × Next LoadPc
  | .number =>
    if call.blockNumber ≠ 0 ∧ call.blockNumber ≠ s.dfuState.blockNumber+1 then
      ([], s, .ret (.code .invalidParam))
    else ([], s, .goto .count)
  | .count =>
    if call.blockCount < call.blockNumber ∨ b.dfuBlockSizeMax < call.data.length ∨
        b.dfuBlocksBufferSize < call.data.length ∨
        (s.dfuState.blockCount = 0 ∧ call.blockNumber ≠ 0) then
      ([], s, .ret (.code .invalidParam))
    else ([], s, .goto .take)
  | .take =>
    if s.freeSpace then ([], { s with freeSpace := false }, .goto .reset)
    else ([], s, .ret (.code .busy))
  | .reset =>
    if call.blockNumber = 0 then
      ([], { s with dfuState := { s.dfuState with
          blockCount := call.blockCount, flashOffset := 0, wrIdx := 0, expectedCrc32 := 0,
          state := .inProgress } }, .goto .blockNumber)
    else ([], s, .goto .blockNumber)
  | .blockNumber =>
    ([], { s with dfuState := { s.dfuState with blockNumber := call.blockNumber } }, .goto .copy)
  | .copy =>
    if b.dfuBlocksBufferSize < s.dfuState.wrIdx+call.data.length then
      ([], { s with freeSpace := true }, .ret (.code .noMem))
    else
      ([.stored s.dfuState.wrIdx call.data.length],
        { s with dfuState := { s.dfuState with
          bytes := put s.dfuState.bytes s.dfuState.wrIdx call.data,
          wrIdx := s.dfuState.wrIdx+call.data.length } }, .goto .ctx)
  | .ctx => ([], { s with dfuState := { s.dfuState with ctx := call.ctx } }, .goto .cb)
  | .cb => ([], { s with dfuState := { s.dfuState with dfuCb := call.processCb } }, .goto .queue)
  | .queue =>
    if dfuBlocksWriteSize ≤ s.dfuState.wrIdx ∨ s.dfuState.blockNumber = s.dfuState.blockCount-1 then
      ([], { s with full := true }, .ret .einprogress)
    else ([], { s with freeSpace := true }, .ret (.code .success))

/-- `dfu_secondary_check_async`. A check that is too early gives the semaphore back and returns the 0
of its own `k_sem_take`. -/
def checkStep (s : Shared κ φ) (call : CheckCall κ φ) :
    CheckPc → Shared κ φ × Next CheckPc
  | .take => if s.freeSpace then ({ s with freeSpace := false }, .goto .state) else (s, .goto .take)
  | .state =>
    if s.dfuState.state = .finishedVerify then (s, .goto .ctx)
    else ({ s with freeSpace := true }, .ret (.code .success))
  | .ctx => ({ s with dfuState := { s.dfuState with ctx := call.ctx } }, .goto .cb)
  | .cb => ({ s with dfuState := { s.dfuState with dfuCb := call.processCb } }, .goto .crc)
  | .crc =>
    ({ s with dfuState := { s.dfuState with expectedCrc32 := call.crc32 }, full := true },
      .ret .einprogress)

/-- The end of `dfu_secondary_activate`, once the bootloader has answered. -/
def activateStep (s : Shared κ φ) (pending : RetCode) : Shared κ φ × DfuRet :=
  (if pending = .success then { s with dfuState := .zero } else s, .code pending)

/-- `bytes_to_write` of the last block: the buffer filled up to a double-word. -/
def paddedLen (wrIdx : Nat) : Nat := if wrIdx % 8 ≠ 0 then wrIdx+(8-wrIdx % 8) else wrIdx

def lastBlock (s : DfuState κ φ) : Bool := s.blockNumber = s.blockCount-1

/-- The sector to erase before `len` bytes are written: the one that starts here, or the next one if
the last write of an image runs into it. -/
def sectorToErase (b : Build) (flashOffset len : Nat) : Option Nat :=
  if flashOffset % b.dfuFlashSectorSize = 0 then some flashOffset
  else if dfuBlocksWriteSize < len ∧
      b.dfuFlashSectorSize < flashOffset % b.dfuFlashSectorSize+len then
    some (flashOffset-flashOffset % b.dfuFlashSectorSize+b.dfuFlashSectorSize)
  else none

/-- A round of `process_dfu_blocks_thread`. `outcome` is what the flash driver, or
`dfu_secondary_check`, answers in a step that asks it. -/
def consumerStep (b : Build) (s : Shared κ φ) (outcome : RetCode) :
    ConsumerPc φ → List (Event ι κ φ) × Shared κ φ × ConsumerPc φ
  | .waiting =>
    if s.full then
      ([], { s with full := false }, match s.dfuState.state with
        | .inProgress => .openArea
        | .finishedVerify => .verify)
    else ([], s, .waiting)
  | .openArea => if outcome = .success then ([], s, .checkSize) else ([], s, .give .blocks .invalidState)
  | .checkSize =>
    if s.dfuState.flashOffset = 0 ∧
        b.secondarySlot.faSize < s.dfuState.blockCount.toNat*b.dfuBlockSizeMax % 2^32 then
      ([], { s with dfuState := .zero }, .give .blocks .invalidParam)
    else ([], s, .prepare)
  | .prepare =>
    if lastBlock s.dfuState then
      let wrIdx := s.dfuState.wrIdx
      let pad := paddedLen wrIdx-wrIdx
      (if wrIdx % 8 ≠ 0 then [.stored wrIdx pad] else [],
        { s with dfuState := { s.dfuState with
          bytes := put s.dfuState.bytes wrIdx (List.replicate pad 0xff), state := .finishedVerify } },
        .erase (paddedLen wrIdx))
    else ([], s, .erase dfuBlocksWriteSize)
  | .erase len =>
    match sectorToErase b s.dfuState.flashOffset len with
    | none => ([], s, .write len)
    | some off =>
      let (ok, fl) := flashAreaErase b.secondarySlot off b.dfuFlashSectorSize
        ⟨s.flash, fun _ _ => decide (outcome = .success)⟩
      ([.erased off b.dfuFlashSectorSize ok], { s with flash := fl.mem },
        if ok then .write len else .give .blocks .internal)
  | .write len =>
    let (ok, fl) := flashAreaWrite b.board b.secondarySlot s.dfuState.flashOffset (slice s.dfuState.bytes 0 len)
      ⟨s.flash, fun _ _ => decide (outcome = .success)⟩
    ([.divided s.dfuState.blockCount, .wrote s.dfuState.flashOffset len ok], { s with flash := fl.mem },
      if ok then .shift len else .give .blocks .internal)
  | .shift len =>
    let rest := s.dfuState.wrIdx-len
    let st :=
      if len ≤ s.dfuState.wrIdx then
        { s.dfuState with bytes := put s.dfuState.bytes 0 (slice s.dfuState.bytes len rest), wrIdx := rest }
      else { s.dfuState with wrIdx := 0 }
    (if len ≤ s.dfuState.wrIdx then [.moved len rest] else [],
      { s with dfuState := { st with flashOffset := st.flashOffset+len } }, .give .blocks .success)
  | .verify => ([], s, .give .verify outcome)
  | .give round err => ([.processed round err], { s with freeSpace := true }, .testCb err)
  | .testCb err =>
    -- the pointer is read here and the context with the call
    match s.dfuState.dfuCb with
    | none => ([], s, .waiting)
    | some cb => ([], s, .callCb cb err)
  | .callCb cb err => ([.callback cb s.dfuState.ctx err], s, .waiting)

/-- The threads `ι` that call the module, and the processing thread. -/
structure DfuSystem (ι κ φ : Type*) where
  shared : Shared κ φ
  callers : ι → CallerPc κ φ
  consumer : ConsumerPc φ

/-- A thread calls, goes on or stops waiting for the semaphore, or the processing thread goes on. -/
inductive Action (ι κ φ : Type*) where
  | call (i : ι) (call : DfuCall κ φ)
  | run (i : ι)
  | timeout (i : ι)
  | consume (outcome : RetCode)

def entry : DfuCall κ φ → CallerPc κ φ
  | .load call => .load call .number
  | .check call => .check call .take
  | .activate pending => .activate pending

variable [DecidableEq ι]

def DfuSystem.goes (s : DfuSystem ι κ φ) (i : ι) (shared : Shared κ φ) (pc : CallerPc κ φ) :
    DfuSystem ι κ φ :=
  { s with shared, callers := Function.update s.callers i pc }

/-- Thread `i` after a step of the body of its call. -/
def DfuSystem.advance {π : Type*} (s : DfuSystem ι κ φ) (i : ι) (call : DfuCall κ φ)
    (resume : π → CallerPc κ φ) : List (Event ι κ φ) × Shared κ φ × Next π →
      List (Event ι κ φ) × DfuSystem ι κ φ
  | (events, shared, .goto pc) => (events, s.goes i shared (resume pc))
  | (events, shared, .ret ret) => (events ++ [.returned i call ret], s.goes i shared .idle)

/-- An action of a thread that cannot take it changes nothing. -/
def dfuStep (b : Build) (s : DfuSystem ι κ φ) : Action ι κ φ → List (Event ι κ φ) × DfuSystem ι κ φ
  | .call i call =>
    match s.callers i with
    | .idle => ([.called i call], s.goes i s.shared (entry call))
    | _ => ([], s)
  | .run i =>
    match s.callers i with
    | .idle => ([], s)
    | .load call pc => s.advance i (.load call) (.load call) (loadStep b s.shared call pc)
    | .check call pc => s.advance i (.check call) (.check call) ([], checkStep s.shared call pc)
    | .activate pending =>
      let (shared, ret) := activateStep s.shared pending
      ([.returned i (.activate pending) ret], s.goes i shared .idle)
  | .timeout i =>
    match s.callers i with
    | .check call .take =>
      if s.shared.freeSpace then ([], s)
      else ([.returned i (.check call) (.code .invalidState)], s.goes i s.shared .idle)
    | _ => ([], s)
  | .consume outcome =>
    let (events, shared, consumer) := consumerStep b s.shared outcome s.consumer
    (events, { s with shared, consumer })

variable (s : DfuSystem ι κ φ) (i : ι) (shared : Shared κ φ) (pc : CallerPc κ φ)

@[simp] theorem DfuSystem.goes_shared : (s.goes i shared pc).shared = shared := rfl

@[simp] theorem DfuSystem.goes_consumer : (s.goes i shared pc).consumer = s.consumer := rfl

@[simp] theorem DfuSystem.goes_same : (s.goes i shared pc).callers i = pc := by
  simp [DfuSystem.goes]

theorem DfuSystem.goes_other {j : ι} (h : j ≠ i) : (s.goes i shared pc).callers j = s.callers j := by
  simp [DfuSystem.goes, h]

@[simp] theorem DfuSystem.advance_consumer {π : Type*} (call : DfuCall κ φ) (resume : π → CallerPc κ φ)
    (r : List (Event ι κ φ) × Shared κ φ × Next π) : (s.advance i call resume r).2.consumer = s.consumer := by
  obtain ⟨events, shared, next⟩ := r
  cases next <;> rfl

/-- Power-up, over whatever is in flash. -/
def DfuSystem.start (m : Mem) : DfuSystem ι κ φ := ⟨⟨.zero, true, false, m⟩, fun _ => .idle, .waiting⟩

end OrbFirmware.Dfu

import OrbFirmware.Flash
import OrbFirmware.Machine

/-! `dfu.c`: the shared `dfu_state`, its two semaphores, the calls that fill it and the thread that
drains it. -/
namespace OrbFirmware.Dfu
open Nor

def dfuBlocksWriteSize : Nat := 64

/-- What the build fixes. `DFU_BLOCK_SIZE_MAX` is the size of a generated field (39 bytes in
`dfu_tests.c`), the sector size that of the flash behind the secondary slot. -/
structure Build where
  board : Board
  dfuBlockSizeMax : Nat
  dfuFlashSectorSize : Nat
  secondarySlot : FlashArea
  block_pos : 0 < dfuBlockSizeMax
  block_lt : dfuBlockSizeMax < dfuBlocksWriteSize
  sector_dvd : dfuBlocksWriteSize ∣ dfuFlashSectorSize
  sector_lt : dfuBlocksWriteSize < dfuFlashSectorSize

def Build.dfuBlocksBufferMinSize (b : Build) : Nat := dfuBlocksWriteSize-1+b.dfuBlockSizeMax

def Build.dfuBlocksBufferSize (b : Build) : Nat :=
  b.dfuBlocksBufferMinSize+8-b.dfuBlocksBufferMinSize % 8

/-- The secondary slot of each board, with the block size of the tests. -/
def Build.of : Board → Build
  | .pearl => ⟨.pearl, 39, 2048, ⟨0x44000, 0x38000, by decide⟩, by decide, by decide, by decide, by decide⟩
  | .diamond => ⟨.diamond, 39, 4096, ⟨0, 0x70000, by decide⟩, by decide, by decide, by decide, by decide⟩

inductive DfuStateE where
  | inProgress | finishedVerify
  deriving DecidableEq, Repr

/-- `struct dfu_state_t`. Contexts are of type `κ`, callbacks of type `φ`; `none` is NULL. -/
structure DfuState (κ φ : Type*) where
  bytes : Mem
  wrIdx : Nat
  blockNumber : UInt32
  blockCount : UInt32
  flashOffset : Nat
  expectedCrc32 : UInt32
  ctx : Option κ
  dfuCb : Option φ
  state : DfuStateE

variable {ι κ φ : Type*}

def DfuState.zero : DfuState κ φ := ⟨fun _ => 0, 0, 0, 0, 0, 0, none, none, .inProgress⟩

/-- The bytes at `off` replaced by `data`. -/
def put (m : Mem) (off : Nat) (data : List UInt8) : Mem :=
  fun a => if off ≤ a ∧ a < off+data.length then data.getD (a-off) 0 else m a

structure LoadCall (κ φ : Type*) where
  blockNumber : UInt32
  blockCount : UInt32
  data : List UInt8
  ctx : Option κ
  processCb : Option φ
  deriving DecidableEq

structure CheckCall (κ φ : Type*) where
  crc32 : UInt32
  ctx : Option κ
  processCb : Option φ
  deriving DecidableEq

/-- An activation carries what the bootloader answers to it. -/
inductive DfuCall (κ φ : Type*) where
  | load (call : LoadCall κ φ)
  | check (call : CheckCall κ φ)
  | activate (pending : RetCode)
  deriving DecidableEq

inductive DfuRet where
  | code (ret : RetCode)
  | einprogress
  deriving DecidableEq, Repr

/-- Where a thread stands in `dfu_load`, up to the next access to what is shared. -/
inductive LoadPc where
  | number | count | take | reset | blockNumber | copy | ctx | cb | queue
  deriving DecidableEq, Repr

/-- Where a thread stands in `dfu_secondary_check_async`. -/
inductive CheckPc where
  | take | state | ctx | cb | crc
  deriving DecidableEq, Repr

inductive CallerPc (κ φ : Type*) where
  | idle
  | load (call : LoadCall κ φ) (pc : LoadPc)
  | check (call : CheckCall κ φ) (pc : CheckPc)
  | activate (pending : RetCode)
  deriving DecidableEq

/-- The two branches of the processing thread. -/
inductive Round where
  | blocks | verify
  deriving DecidableEq, Repr

/-- Where the processing thread stands; `len` is `bytes_to_write`. -/
inductive ConsumerPc (φ : Type*) where
  | waiting
  | openArea
  | checkSize
  | prepare
  | erase (len : Nat)
  | write (len : Nat)
  | shift (len : Nat)
  | verify
  | give (round : Round) (err : RetCode)
  | testCb (err : RetCode)
  | callCb (cb : φ) (err : RetCode)
  deriving DecidableEq

/-- `dfu_state`, the semaphores `sem_dfu_free_space` and `sem_dfu_full`, and the flash. -/
structure Shared (κ φ : Type*) where
  dfuState : DfuState κ φ
  freeSpace : Bool
  full : Bool
  flash : Mem

/-- What a run shows: calls and their results, accesses to `dfu_state.bytes` by offset and length,
flash accesses, the division for the progress, and how a round of the thread ends. -/
inductive Event (ι κ φ : Type*) where
  | called (i : ι) (call : DfuCall κ φ)
  | returned (i : ι) (call : DfuCall κ φ) (ret : DfuRet)
  | stored (off len : Nat)
  | moved (src len : Nat)
  | erased (off len : Nat) (ok : Bool)
  | wrote (off len : Nat) (ok : Bool)
  | divided (divisor : UInt32)
  | processed (round : Round) (err : RetCode)
  | callback (cb : φ) (ctx : Option κ) (err : RetCode)
  deriving DecidableEq

end OrbFirmware.Dfu

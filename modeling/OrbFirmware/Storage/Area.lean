import OrbFirmware.Storage.Header

/-! `storage.c`: the FIFO of records in a flash area. The semaphore makes each call atomic. -/
namespace OrbFirmware.Storage
open Nor

structure StorageArea where
  fa : Option FlashArea
  wrIdx : Nat
  rdIdx : Nat

def minimumEmptySpace : Nat := 512
def initAreaReadBufferSize : Nat := 64

/-- CRC of a record read chunk by chunk; a chunk that cannot be read is left out. -/
def initAreaCrc (p : Platform) (fa : FlashArea) (index size : Nat) :
    Nat → Nat → UInt16 → Flash → UInt16 × Flash
  | 0, _, crc16, fl => (crc16, fl)
  | n+1, i, crc16, fl =>
    if i < size then
      let sizeToRead := if i+initAreaReadBufferSize < size then initAreaReadBufferSize else size-i
      let (readBuffer, fl) := flashAreaRead fa (index+sizeofStorageHeader+i) sizeToRead fl
      let crc16 := match readBuffer with
        | some data => crc16Ccitt p crc16 data
        | none => crc16
      initAreaCrc p fa index size n (i+initAreaReadBufferSize) crc16 fl
    else (crc16, fl)

/-- The scan of `init_area` from `index`: read and write index, `none` for `INVALID_INDEX`.
The write index is still invalid as long as the scan goes on. -/
def initAreaLoop (p : Platform) (fa : FlashArea) :
    Nat → Nat → Option Nat → Flash → (Option Nat × Option Nat) × Flash
  | 0, _, rdIdx, fl => ((rdIdx, none), fl)
  | n+1, index, rdIdx, fl =>
    match flashAreaRead fa index sizeofStorageHeader fl with
    | (none, fl) => ((none, none), fl)
    | (some data, fl) =>
      let header := StorageHeader.ofBytes data
      let (rdIdx, fl) :=
        if rdIdx = none ∧ header.magicState = recordValid then
          let (crc16, fl) := initAreaCrc p fa index header.recordSize.toNat header.recordSize.toNat 0 0xffff fl
          (if header.crc16 = crc16 then some index else none, fl)
        else (rdIdx, fl)
      if header.magicState = recordUnused then ((rdIdx, some index), fl)
      else
        let index :=
          if header.magicState = recordValid then index+recordSpan p header.recordSize.toNat
          else index+p.blk
        if index+sizeofStorageHeader < fa.faSize then initAreaLoop p fa n index rdIdx fl
        else ((rdIdx, none), fl)

/-- Every round of the scan advances the index, so `faSize` rounds are enough. -/
def initArea (p : Platform) (fa : FlashArea) (area : StorageArea) (fl : Flash) :
    RetCode × StorageArea × Flash :=
  let (first, fl) := flashAreaRead fa 0 sizeofStorageHeader fl
  let header := StorageHeader.ofBytes (first.getD [])
  if first = none ∨ (header.magicState ≠ recordUnused ∧ header.magicState ≠ recordValid ∧
      header.magicState ≠ recordInvalid) then
    (.invalidState, { area with rdIdx := 0, wrIdx := 0 }, fl)
  else
    match initAreaLoop p fa fa.faSize 0 none fl with
    | ((none, none), fl) => (.invalidState, { area with rdIdx := 0, wrIdx := 0 }, fl)
    | ((some rd, none), fl) => (.success, { area with rdIdx := rd, wrIdx := fa.faSize }, fl)
    | ((none, some wr), fl) => (.success, { area with rdIdx := wr, wrIdx := wr }, fl)
    | ((some rd, some wr), fl) => (.success, { area with rdIdx := rd, wrIdx := wr }, fl)

def resetArea (p : Platform) (fa : FlashArea) (area : StorageArea) (fl : Flash) : StorageArea × Flash :=
  let (_, fl) := flashAreaErase fa 0 fa.faSize fl
  let (_, area, fl) := initArea p fa area fl
  (area, fl)

/-- Result of `storage_peek`: the code, what was copied into the buffer, and `*size`. -/
structure PeekResult where
  ret : RetCode
  buffer : List UInt8
  size : Nat
  deriving DecidableEq, Repr

def storagePeek (p : Platform) (area : StorageArea) (size : Nat) (fl : Flash) :
    PeekResult × StorageArea × Flash :=
  match area.fa with
  | none => (⟨.notInitialized, [], size⟩, area, fl)
  | some fa =>
    if area.rdIdx = area.wrIdx then (⟨.notFound, [], size⟩, area, fl)
    else
      match flashAreaRead fa area.rdIdx sizeofStorageHeader fl with
      | (none, fl) =>
        let (area, fl) := resetArea p fa area fl
        (⟨.invalidState, [], size⟩, area, fl)
      | (some data, fl) =>
        let header := StorageHeader.ofBytes data
        if size < header.recordSize.toNat then (⟨.noMem, [], size⟩, area, fl)
        else
          match flashAreaRead fa (area.rdIdx+sizeofStorageHeader) header.recordSize.toNat fl with
          | (none, fl) =>
            let (area, fl) := resetArea p fa area fl
            (⟨.invalidState, [], size⟩, area, fl)
          | (some buffer, fl) =>
            if header.magicState ≠ recordValid ∨ header.crc16 ≠ crc16Ccitt p 0xffff buffer then
              let (area, fl) := resetArea p fa area fl
              (⟨.invalidState, buffer, size⟩, area, fl)
            else (⟨.success, buffer, header.recordSize.toNat⟩, area, fl)

def storageFree (p : Platform) (area : StorageArea) (fl : Flash) : RetCode × StorageArea × Flash :=
  match area.fa with
  | none => (.notInitialized, area, fl)
  | some fa =>
    let (data, fl) := flashAreaRead fa area.rdIdx sizeofStorageHeader fl
    let header := StorageHeader.ofBytes (data.getD [])
    if header.magicState ≠ recordValid then (.notFound, area, fl)
    else
      match flashAreaWrite p.board fa area.rdIdx (List.replicate sizeofStorageHeader 0) fl with
      | (false, fl) => (.internal, area, fl)
      | (true, fl) =>
        let area := { area with rdIdx := area.rdIdx+recordSpan p header.recordSize.toNat }
        if area.wrIdx ≤ area.rdIdx ∧ fa.faSize-area.wrIdx < minimumEmptySpace then
          let (area, fl) := resetArea p fa area fl
          (.success, area, fl)
        else (.success, area, fl)

/-- The payload of `storage_push`: whole blocks first, then the last block padded with 0xff. -/
def writeRecord (p : Platform) (fa : FlashArea) (off : Nat) (record : List UInt8) (fl : Flash) :
    Bool × Flash :=
  let sizeToWriteTrunc := record.length-record.length % p.blk
  match flashAreaWrite p.board fa off (record.take sizeToWriteTrunc) fl with
  | (false, fl) => (false, fl)
  | (true, fl) =>
    if record.length % p.blk ≠ 0 then
      let padding := record.drop sizeToWriteTrunc ++ List.replicate (blockPadding p record.length) 0xff
      flashAreaWrite p.board fa (off+sizeToWriteTrunc) padding fl
    else (true, fl)

/-- The read-back of `storage_push` into the zeroed buffer; what cannot be read stays zero. -/
def readBackRecord (p : Platform) (fa : FlashArea) (off size : Nat) (fl : Flash) :
    List UInt8 × Flash :=
  let sizeToWriteTrunc := size-size % p.blk
  let (blocks, fl) := flashAreaRead fa off sizeToWriteTrunc fl
  let blocks := blocks.getD (List.replicate sizeToWriteTrunc 0)
  if size % p.blk ≠ 0 then
    let (last, fl) := flashAreaRead fa (off+sizeToWriteTrunc) (size % p.blk) fl
    (blocks ++ last.getD (List.replicate (size % p.blk) 0), fl)
  else (blocks, fl)

def storagePush (p : Platform) (area : StorageArea) (record : List UInt8) (fl : Flash) :
    RetCode × StorageArea × Flash :=
  if record.length = 0 then (.invalidParam, area, fl)
  else
    match area.fa with
    | none => (.notInitialized, area, fl)
    | some fa =>
      if fa.faSize < record.length then (.invalidParam, area, fl)
      else if fa.faSize < area.wrIdx+recordSpan p record.length then (.noMem, area, fl)
      else
        let header := headerOf p record
        match writeRecord p fa (area.wrIdx+sizeofStorageHeader) record fl with
        | (false, fl) =>
          let (area, fl) := resetArea p fa area fl
          (.internal, area, fl)
        | (true, fl) =>
          let (record', fl) := readBackRecord p fa (area.wrIdx+sizeofStorageHeader) record.length fl
          if header.crc16 ≠ crc16Ccitt p 0xffff record' then
            let (area, fl) := resetArea p fa area fl
            (.invalidState, area, fl)
          else
            match flashAreaWrite p.board fa area.wrIdx header.bytes fl with
            | (false, fl) =>
              let (area, fl) := resetArea p fa area fl
              (.internal, area, fl)
            | (true, fl) => (.success, { area with wrIdx := area.wrIdx+recordSpan p record.length }, fl)

def storageIsLastRecord (p : Platform) (area : StorageArea) (fl : Flash) : Bool × Flash :=
  match area.fa with
  | none => (false, fl)
  | some fa =>
    if area.rdIdx = area.wrIdx then (false, fl)
    else
      match flashAreaRead fa area.rdIdx sizeofStorageHeader fl with
      | (none, fl) => (false, fl)
      | (some data, fl) =>
        let header := StorageHeader.ofBytes data
        if header.magicState ≠ recordValid then (false, fl)
        else (decide (area.wrIdx ≤ area.rdIdx+recordSpan p header.recordSize.toNat), fl)

def storageHasData (area : StorageArea) : Bool :=
  match area.fa with
  | none => false
  | some _ => decide (area.rdIdx ≠ area.wrIdx)

def storageInit (p : Platform) (fa : FlashArea) (fl : Flash) : RetCode × StorageArea × Flash :=
  match flashAreaOpen fl with
  | (false, fl) => (.notInitialized, ⟨none, 0, 0⟩, fl)
  | (true, fl) =>
    match initArea p fa ⟨some fa, 0, 0⟩ fl with
    | (.success, area, fl) => (.success, area, fl)
    | (_, area, fl) =>
      match flashAreaErase fa 0 fa.faSize fl with
      | (false, fl) => (.internal, area, fl)
      | (true, fl) => (.success, area, fl)

end OrbFirmware.Storage

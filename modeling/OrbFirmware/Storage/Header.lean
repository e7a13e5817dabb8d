import OrbFirmware.Flash

/-! `storage_header_t` as it lies in flash, the checksum and the block padding of a record. -/
namespace OrbFirmware.Storage
open Nor

def recordUnused : UInt16 := 0xFFFF
def recordValid : UInt16 := 0xFEFE
def recordInvalid : UInt16 := 0x0000
def unusedUint16 : UInt16 := 0xFFFF

structure StorageHeader where
  magicState : UInt16
  recordSize : UInt16
  crc16 : UInt16
  unused : UInt16
  deriving DecidableEq, Repr

def sizeofStorageHeader : Nat := 8

def le16 (x : UInt16) : List UInt8 := [x.toUInt8, UInt8.ofNat (x.toNat/256)]

def ofLe16 (lo hi : UInt8) : UInt16 := UInt16.ofNat (lo.toNat+256*hi.toNat)

def StorageHeader.bytes (h : StorageHeader) : List UInt8 :=
  le16 h.magicState ++ le16 h.recordSize ++ le16 h.crc16 ++ le16 h.unused

/-- Bytes that were not read are the zeros the C struct is initialised with. -/
def StorageHeader.ofBytes (l : List UInt8) : StorageHeader :=
  ⟨ofLe16 (l.getD 0 0) (l.getD 1 0), ofLe16 (l.getD 2 0) (l.getD 3 0),
    ofLe16 (l.getD 4 0) (l.getD 5 0), ofLe16 (l.getD 6 0) (l.getD 7 0)⟩

/-- The board, and the byte step of Zephyr's `crc16_ccitt`. -/
structure Platform where
  board : Board
  crc16Step : UInt16 → UInt8 → UInt16

/-- Zephyr's reflected CCITT step, polynomial 0x8408. -/
def crc16CcittStep (seed : UInt16) (b : UInt8) : UInt16 :=
  let e := seed.toUInt8 ^^^ b
  let f := (e ^^^ (e <<< 4)).toUInt16
  (seed >>> 8) ^^^ (f <<< 8) ^^^ (f <<< 3) ^^^ (f >>> 4)

def Platform.of (b : Board) : Platform := ⟨b, crc16CcittStep⟩

def Platform.blk (p : Platform) : Nat := flashWriteBlockSize p.board

def crc16Ccitt (p : Platform) (seed : UInt16) (src : List UInt8) : UInt16 := src.foldl p.crc16Step seed

example : crc16Ccitt (.of .pearl) 0xffff [0x31, 0x32, 0x33, 0x34, 0x35, 0x36, 0x37, 0x38, 0x39] = 0x6f91 := by
  decide

/-- Bytes appended to a record of `size` bytes to end on a write block. -/
def blockPadding (p : Platform) (size : Nat) : Nat :=
  if size % p.blk ≠ 0 then p.blk-size % p.blk else 0

/-- Flash taken by a record: header, payload, padding. -/
def recordSpan (p : Platform) (size : Nat) : Nat := sizeofStorageHeader+size+blockPadding p size

def headerOf (p : Platform) (record : List UInt8) : StorageHeader :=
  ⟨recordValid, UInt16.ofNat record.length, crc16Ccitt p 0xffff record, unusedUint16⟩

def headerAt (c : Mem) (off : Nat) : StorageHeader := .ofBytes (slice c off sizeofStorageHeader)

theorem ofLe16_le16 (x : UInt16) :
    ofLe16 x.toUInt8 (UInt8.ofNat (x.toNat/256)) = x := by
  have hx := x.toNat_lt
  rw [ofLe16, ← UInt16.toNat_inj]
  simp only [UInt8.toNat_ofNat', UInt16.toNat_ofNat', UInt16.toNat_toUInt8]
  omega

@[simp] theorem ofBytes_bytes (h : StorageHeader) : StorageHeader.ofBytes h.bytes = h := by
  simp [StorageHeader.ofBytes, StorageHeader.bytes, le16, ofLe16_le16]

@[simp] theorem length_bytes (h : StorageHeader) : h.bytes.length = sizeofStorageHeader := rfl

@[simp] theorem headerOf_crc16 (p : Platform) (record : List UInt8) :
    (headerOf p record).crc16 = crc16Ccitt p 0xffff record := rfl

theorem crc16Ccitt_append (p : Platform) (seed : UInt16) (u v : List UInt8) :
    crc16Ccitt p seed (u++v) = crc16Ccitt p (crc16Ccitt p seed u) v :=
  List.foldl_append

theorem blk_pos (p : Platform) : 0 < p.blk := by
  rw [Platform.blk]
  cases p.board <;> decide

theorem blk_dvd_eight (p : Platform) : p.blk ∣ 8 := by
  rw [Platform.blk]
  cases p.board <;> decide

theorem padded_dvd (p : Platform) (size : Nat) : p.blk ∣ size+blockPadding p size := by
  have hb := blk_pos p
  unfold blockPadding
  split
  · have hm := Nat.mod_lt size hb
    have hd := Nat.div_add_mod size p.blk
    refine ⟨size/p.blk+1, ?_⟩
    rw [Nat.mul_add]
    omega
  · rename_i h
    exact Nat.dvd_of_mod_eq_zero (not_not.mp h)

theorem recordSpan_dvd (p : Platform) (size : Nat) : p.blk ∣ recordSpan p size := by
  rw [recordSpan, Nat.add_assoc]
  exact Nat.dvd_add (blk_dvd_eight p) (padded_dvd p size)

theorem le_recordSpan (p : Platform) (size : Nat) : 8+size ≤ recordSpan p size :=
  Nat.le_add_right _ _

theorem headerAt_eq_of_slice {c : Mem} {off : Nat} {h : StorageHeader}
    (hs : slice c off sizeofStorageHeader = h.bytes) : headerAt c off = h := by
  rw [headerAt, hs, ofBytes_bytes]

theorem headerAt_congr {c c' : Mem} {off : Nat} (h : AgreeOn c c' off (off+8)) :
    headerAt c off = headerAt c' off := by
  rw [headerAt, headerAt, sizeofStorageHeader, slice_congr h]

theorem magic_word (c : Mem) (off : Nat) : (headerAt c off).magicState = ofLe16 (c off) (c (off+1)) := by
  simp [headerAt, StorageHeader.ofBytes, sizeofStorageHeader, slice]

theorem headerAt_erased {c : Mem} {off hi : Nat} (h : Erased c off hi) (hh : off+2 ≤ hi) :
    (headerAt c off).magicState = recordUnused := by
  rw [magic_word, h off (by omega) (by omega), h (off+1) (by omega) (by omega)]
  rfl

theorem headerAt_zeros {c : Mem} {off : Nat} (h : slice c off 8 = List.replicate 8 0) :
    headerAt c off = ⟨0, 0, 0, 0⟩ := by
  rw [headerAt, sizeofStorageHeader, h]
  rfl

end OrbFirmware.Storage

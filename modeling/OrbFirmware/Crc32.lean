import Mathlib.Data.List.Basic
import Mathlib.Logic.Function.Iterate

/-! The CRC-32 of IEEE 802.3, reflected, with the checksum of a list carried on from that of the bytes before. -/
namespace OrbFirmware.Crc32

def shift (c : UInt32) : UInt32 := if c &&& 1 = 1 then (c >>> 1) ^^^ 0xEDB88320 else c >>> 1

def byteStep (c : UInt32) (b : UInt8) : UInt32 := shift^[8] (c ^^^ b.toUInt32)

/-- The checksum of nothing is 0. -/
def update (crc : UInt32) (data : List UInt8) : UInt32 := ~~~(data.foldl byteStep (~~~crc))

@[simp] theorem update_nil (crc : UInt32) : update crc [] = crc := by
  rw [update, List.foldl_nil, UInt32.not_not]

theorem update_append (crc : UInt32) (u v : List UInt8) : update crc (u++v) = update (update crc u) v := by
  rw [update, update, update, List.foldl_append, UInt32.not_not]

example : update 0 [0x31, 0x32, 0x33, 0x34, 0x35, 0x36, 0x37, 0x38, 0x39] = 0xCBF43926 := by decide +kernel

end OrbFirmware.Crc32

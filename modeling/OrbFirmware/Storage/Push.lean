import OrbFirmware.Storage.Calls

/-! `storage_push` without faults: when the flash takes a record, and what is left otherwise. -/
namespace OrbFirmware.Storage
open Nor
variable {p : Platform} {fa : FlashArea} {area : StorageArea} {record : List UInt8}

/-- The record as it lies in flash behind its header. -/
def paddedRecord (p : Platform) (record : List UInt8) : List UInt8 :=
  record ++ List.replicate (blockPadding p record.length) 0xff

/-- The content once payload and header of a record are programmed at `wr`. -/
def pushed (p : Platform) (c : Mem) (wr : Nat) (record : List UInt8) : Mem :=
  program (program c (wr+8) (paddedRecord p record)) wr (headerOf p record).bytes

/-- What `storage_push` checks on its way: the flash takes the payload, the payload reads back with
the right CRC, and the flash takes the header. -/
structure PushAccepted (p : Platform) (c : Mem) (wr : Nat) (record : List UInt8) : Prop where
  payload : (deviceWrite p.board c (wr+8) (paddedRecord p record)).1 = true
  readBack : crc16Ccitt p 0xffff
    (slice (program c (wr+8) (paddedRecord p record)) (wr+8) record.length) = crc16Ccitt p 0xffff record
  header : (deviceWrite p.board (program c (wr+8) (paddedRecord p record)) wr
    (headerOf p record).bytes).1 = true

instance (p : Platform) (c : Mem) (wr : Nat) (record : List UInt8) : Decidable (PushAccepted p c wr record) :=
  decidable_of_iff ((deviceWrite p.board c (wr+8) (paddedRecord p record)).1 = true ∧
      crc16Ccitt p 0xffff (slice (program c (wr+8) (paddedRecord p record)) (wr+8) record.length) =
        crc16Ccitt p 0xffff record ∧
      (deviceWrite p.board (program c (wr+8) (paddedRecord p record)) wr (headerOf p record).bytes).1 = true)
    ⟨fun h => ⟨h.1, h.2.1, h.2.2⟩, fun h => ⟨h.payload, h.readBack, h.header⟩⟩

theorem length_paddedRecord (p : Platform) (record : List UInt8) :
    8+(paddedRecord p record).length = recordSpan p record.length := by
  simp [paddedRecord, recordSpan, sizeofStorageHeader]
  omega

theorem paddedRecord_dvd (p : Platform) (record : List UInt8) : p.blk ∣ (paddedRecord p record).length := by
  simpa [paddedRecord] using padded_dvd p record.length

/-- A payload that reads back as programmed starts with the record. -/
theorem slice_record_of_padded {c : Mem} {off : Nat}
    (h : slice c off (paddedRecord p record).length = paddedRecord p record) :
    slice c off record.length = record := by
  have hsplit : (paddedRecord p record).length = record.length+blockPadding p record.length := by
    simp [paddedRecord]
  rw [hsplit, slice_add] at h
  exact (List.append_inj h (by simp)).1

theorem slice_program_record {c : Mem} {off : Nat} (he : Erased c off (off+(paddedRecord p record).length)) :
    slice (program c off (paddedRecord p record)) off record.length = record :=
  slice_record_of_padded (slice_program_erased he)

theorem blockPadding_of_dvd {size : Nat} (h : size % p.blk = 0) : blockPadding p size = 0 := by
  simp [blockPadding, h]

/-- Whole blocks and padded last block together are the padded record. -/
theorem paddedRecord_split (p : Platform) (record : List UInt8) :
    paddedRecord p record = record.take (record.length-record.length % p.blk) ++
      (record.drop (record.length-record.length % p.blk) ++
        List.replicate (blockPadding p record.length) 0xff) := by
  rw [← List.append_assoc, List.take_append_drop, paddedRecord]

/-- A write followed by an adjacent one, the second only if the first is accepted. -/
theorem flashAreaWrite_append {off : Nat} {u v : List UInt8} (hal : p.blk ∣ off) (hu : p.blk ∣ u.length)
    (hv : p.blk ∣ v.length) (hb : off+(u.length+v.length) ≤ fa.faSize) (m : Mem) :
    (match flashAreaWrite p.board fa off u (.ok m) with
      | (false, fl) => (false, fl)
      | (true, fl) => flashAreaWrite p.board fa (off+u.length) v fl) =
      ((deviceWrite p.board (content fa m) off (u ++ v)).1,
        .ok (deviceWrite p.board m (fa.faOff+off) (u ++ v)).2) := by
  have ha : flashWriteBlockSize p.board ∣ fa.faOff+off := Nat.dvd_add (faOff_aligned p.board fa) hal
  rw [flashAreaWrite_ok (by omega), (deviceWrite_content p.board fa m off u).1,
    (deviceWrite_content p.board fa m off (u ++ v)).1, deviceWrite_append ha hu hv]
  cases hw : (deviceWrite p.board m (fa.faOff+off) u).1 with
  | false => simp [hw]
  | true =>
    have hm := deviceWrite_true hw
    simp only [hm, if_true]
    rw [flashAreaWrite_ok (by omega), (deviceWrite_content p.board fa _ _ v).1, ← Nat.add_assoc]

theorem writeRecord_ok {off : Nat} (hal : p.blk ∣ off)
    (hb : off+(paddedRecord p record).length ≤ fa.faSize) (m : Mem) :
    writeRecord p fa off record (.ok m) =
      ((deviceWrite p.board (content fa m) off (paddedRecord p record)).1,
        .ok (deviceWrite p.board m (fa.faOff+off) (paddedRecord p record)).2) := by
  by_cases hr : record.length % p.blk = 0
  · -- a record of whole blocks is its own padded record
    have hpad : paddedRecord p record = record := by simp [paddedRecord, blockPadding_of_dvd hr]
    rw [hpad] at hb ⊢
    simp only [writeRecord, hr, Nat.sub_zero, List.take_length, flashAreaWrite_ok hb]
    cases (deviceWrite p.board (content fa m) off record).1 <;> rfl
  · have hlen : (record.take (record.length-record.length % p.blk)).length =
        record.length-record.length % p.blk := by simp
    have htd : p.blk ∣ (record.take (record.length-record.length % p.blk)).length := by
      rw [hlen]
      exact Nat.dvd_sub_mod record.length
    have hld := paddedRecord_dvd p record
    rw [paddedRecord_split, List.length_append, Nat.dvd_add_right htd] at hld
    rw [paddedRecord_split, List.length_append] at hb
    rw [paddedRecord_split, ← flashAreaWrite_append hal htd hld hb m, hlen]
    simp only [writeRecord]
    obtain ⟨written, fl⟩ :=
      flashAreaWrite p.board fa off (record.take (record.length-record.length % p.blk)) (.ok m)
    cases written with
    | false => rfl
    | true => exact if_pos hr

theorem readBackRecord_ok {off size : Nat} (hb : off+size ≤ fa.faSize) (m : Mem) :
    readBackRecord p fa off size (.ok m) = (slice (content fa m) off size, .ok m) := by
  have hm := Nat.mod_le size p.blk
  have h1 := flashAreaRead_ok (show off+(size-size % p.blk) ≤ fa.faSize by omega) m
  have h2 := flashAreaRead_ok (show off+(size-size % p.blk)+size % p.blk ≤ fa.faSize by omega) m
  simp only [readBackRecord, h1, h2, Option.getD_some]
  split
  · rw [← slice_add, Nat.sub_add_cancel hm]
  · rename_i hr
    rw [not_not.mp hr, Nat.sub_zero]

/-- Memory that agrees with `m` outside the area, with the area erased. -/
structure ErasedFrom (fa : FlashArea) (m m' : Mem) : Prop where
  erased : Erased (content fa m') 0 fa.faSize
  outside : ∀ a, a < fa.faOff ∨ fa.faOff+fa.faSize ≤ a → m' a = m a

theorem erasedFrom_erase {m m' : Mem}
    (h : ∀ a, a < fa.faOff ∨ fa.faOff+fa.faSize ≤ a → m' a = m a) :
    ErasedFrom fa m (erase m' fa.faOff fa.faSize) := by
  constructor
  · rw [content_erase]
    simpa using erase_erased (content fa m') 0 fa.faSize
  · intro a ha
    rw [erase_outside ha, h a ha]

/-- A record that fits and that the flash takes is stored at the write index. -/
theorem storagePush_accepted {m : Mem} (hfa : area.fa = some fa) (hal : p.blk ∣ area.wrIdx)
    (hne : record ≠ []) (hfit : area.wrIdx+recordSpan p record.length ≤ fa.faSize)
    (h : PushAccepted p (content fa m) area.wrIdx record) :
    storagePush p area record (.ok m) =
      (.success, { area with wrIdx := area.wrIdx+recordSpan p record.length },
        .ok (program (program m (fa.faOff+(area.wrIdx+8)) (paddedRecord p record))
          (fa.faOff+area.wrIdx) (headerOf p record).bytes)) := by
  have hlen := length_paddedRecord p record
  have hspan := le_recordSpan p record.length
  have hz : record.length ≠ 0 := by simpa using hne
  have hal8 : p.blk ∣ area.wrIdx+8 := Nat.dvd_add hal (blk_dvd_eight p)
  have hpw := h.payload
  rw [(deviceWrite_content p.board fa m _ _).1] at hpw
  have hc := content_program fa m (area.wrIdx+8) (paddedRecord p record)
  have hhw := h.header
  rw [← hc, (deviceWrite_content p.board fa _ _ _).1] at hhw
  have hrb := h.readBack
  rw [← hc] at hrb
  simp only [storagePush, if_neg hz, hfa, if_neg (show ¬ fa.faSize < record.length by omega),
    if_neg (show ¬ fa.faSize < area.wrIdx+recordSpan p record.length by omega), sizeofStorageHeader]
  rw [writeRecord_ok hal8 (by omega), h.payload, deviceWrite_true hpw]
  simp only
  rw [readBackRecord_ok (by omega)]
  simp only [headerOf_crc16, hrb, ne_eq, not_true_eq_false, if_false]
  rw [flashAreaWrite_ok (by simp only [length_bytes, sizeofStorageHeader]; omega), hc, h.header,
    deviceWrite_true hhw]

/-- A record that fits and that the flash does not take costs the whole area. -/
theorem storagePush_rejected {m : Mem} (hfa : area.fa = some fa) (hal : p.blk ∣ area.wrIdx)
    (hne : record ≠ []) (hfit : area.wrIdx+recordSpan p record.length ≤ fa.faSize)
    (h : ¬ PushAccepted p (content fa m) area.wrIdx record) :
    ∃ ret m', storagePush p area record (.ok m) = (ret, ⟨area.fa, 0, 0⟩, .ok m') ∧
      (ret = .internal ∨ ret = .invalidState) ∧ ErasedFrom fa m m' := by
  have hlen := length_paddedRecord p record
  have hspan := le_recordSpan p record.length
  have hz : record.length ≠ 0 := by simpa using hne
  have hal8 : p.blk ∣ area.wrIdx+8 := Nat.dvd_add hal (blk_dvd_eight p)
  simp only [storagePush, if_neg hz, hfa, if_neg (show ¬ fa.faSize < record.length by omega),
    if_neg (show ¬ fa.faSize < area.wrIdx+recordSpan p record.length by omega), sizeofStorageHeader]
  rw [writeRecord_ok hal8 (by omega)]
  have hout : ∀ a, a < fa.faOff ∨ fa.faOff+fa.faSize ≤ a →
      (deviceWrite p.board m (fa.faOff+(area.wrIdx+8)) (paddedRecord p record)).2 a = m a :=
    fun a ha => deviceWrite_outside (by omega)
  cases hpw : (deviceWrite p.board (content fa m) (area.wrIdx+8) (paddedRecord p record)).1 with
  | false =>
    refine ⟨.internal, _, ?_, .inl rfl, erasedFrom_erase hout⟩
    simp only [resetArea_ok, hfa]
  | true =>
    have hpw' := hpw
    rw [(deviceWrite_content p.board fa m _ _).1] at hpw'
    have hc := content_program fa m (area.wrIdx+8) (paddedRecord p record)
    rw [deviceWrite_true hpw'] at hout ⊢
    simp only
    rw [readBackRecord_ok (by omega), hc]
    by_cases hrb : crc16Ccitt p 0xffff (slice (program (content fa m) (area.wrIdx+8)
        (paddedRecord p record)) (area.wrIdx+8) record.length) = crc16Ccitt p 0xffff record
    · simp only [headerOf_crc16, hrb, ne_eq, not_true_eq_false, if_false]
      rw [flashAreaWrite_ok (by simp only [length_bytes, sizeofStorageHeader]; omega), hc]
      have hhw : (deviceWrite p.board (program (content fa m) (area.wrIdx+8) (paddedRecord p record))
          area.wrIdx (headerOf p record).bytes).1 = false := by
        rw [← Bool.not_eq_true]
        exact fun hw => h ⟨hpw, hrb, hw⟩
      have hout' : ∀ a, a < fa.faOff ∨ fa.faOff+fa.faSize ≤ a →
          (deviceWrite p.board (program m (fa.faOff+(area.wrIdx+8)) (paddedRecord p record))
            (fa.faOff+area.wrIdx) (headerOf p record).bytes).2 a = m a := by
        intro a ha
        rw [deviceWrite_outside (by simp only [length_bytes, sizeofStorageHeader]; omega)]
        exact hout a ha
      refine ⟨.internal, _, ?_, .inl rfl, erasedFrom_erase hout'⟩
      rw [hhw]
      simp only [resetArea_ok, hfa]
    · refine ⟨.invalidState, _, ?_, .inr rfl, erasedFrom_erase hout⟩
      rw [headerOf_crc16, if_pos (fun he => hrb he.symm)]
      simp only [resetArea_ok, hfa]

end OrbFirmware.Storage

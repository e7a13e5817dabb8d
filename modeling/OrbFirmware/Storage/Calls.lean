import OrbFirmware.Storage.Area

/-! What each call of `storage.c` does: the scan leaves the flash alone, an erased area is empty,
and without faults every call has one outcome, read off the content of the area. -/
namespace OrbFirmware.Storage
open Nor
variable (p : Platform) (fa : FlashArea) (area : StorageArea)

theorem initAreaCrc_sameMem (index size n i : Nat) (crc16 : UInt16) (fl : Flash) :
    fl.SameMem (initAreaCrc p fa index size n i crc16 fl).2 := by
  induction n generalizing i crc16 fl with
  | zero => exact .refl fl
  | succ n ih =>
    simp only [initAreaCrc]
    split
    · exact (flashAreaRead_sameMem fa _ _ fl).trans (ih _ _ _)
    · exact .refl fl

theorem initAreaLoop_sameMem (n index : Nat) (rdIdx : Option Nat) (fl : Flash) :
    fl.SameMem (initAreaLoop p fa n index rdIdx fl).2 := by
  induction n generalizing index rdIdx fl with
  | zero => exact .refl fl
  | succ n ih =>
    have hr := flashAreaRead_sameMem fa index sizeofStorageHeader fl
    simp only [initAreaLoop]
    split
    · rename_i fl' he
      rw [he] at hr
      exact hr
    · rename_i data fl' he
      rw [he] at hr
      have hcrc := hr.trans (initAreaCrc_sameMem p fa index
        (StorageHeader.ofBytes data).recordSize.toNat (StorageHeader.ofBytes data).recordSize.toNat 0 0xffff fl')
      split_ifs <;> first | exact hr | exact hcrc | exact hr.trans (ih _ _ _) | exact hcrc.trans (ih _ _ _)

theorem initArea_sameMem (fl : Flash) : fl.SameMem (initArea p fa area fl).2.2 := by
  have hr := flashAreaRead_sameMem fa 0 sizeofStorageHeader fl
  have hl := hr.trans (initAreaLoop_sameMem p fa fa.faSize 0 none _)
  simp only [initArea]
  split
  · exact hr
  · split <;> rename_i he <;> rw [he] at hl <;> exact hl

theorem initArea_fa (fl : Flash) : (initArea p fa area fl).2.1.fa = area.fa := by
  simp only [initArea]
  split
  · rfl
  · split <;> rfl

variable {p fa area}

theorem recordUnused_ne_valid : recordUnused ≠ recordValid := by decide

/-- Over erased flash both indices are 0, whatever cannot be read. -/
theorem initArea_erased {fl : Flash} (h : Erased (content fa fl.mem) 0 fa.faSize) :
    (initArea p fa area fl).2.1 = ⟨area.fa, 0, 0⟩ := by
  have hword : ∀ {fl' fl'' : Flash} {data : List UInt8}, fl.SameMem fl' →
      flashAreaRead fa 0 sizeofStorageHeader fl' = (some data, fl'') →
      8 ≤ fa.faSize ∧ (StorageHeader.ofBytes data).magicState = recordUnused := by
    intro fl' fl'' data hs he
    obtain ⟨hb, hd⟩ := flashAreaRead_some he
    have hb' : 8 ≤ fa.faSize := by simpa [sizeofStorageHeader] using hb
    rw [hs.mem] at hd
    have hu := headerAt_erased h (show 0+2 ≤ fa.faSize by omega)
    rw [headerAt, ← hd] at hu
    exact ⟨hb', hu⟩
  have hs := flashAreaRead_sameMem fa 0 sizeofStorageHeader fl
  cases he : flashAreaRead fa 0 sizeofStorageHeader fl with
  | mk first fl1 =>
    rw [he] at hs
    cases first with
    | none => simp [initArea, he]
    | some data =>
      obtain ⟨hb, hu⟩ := hword (.refl fl) he
      obtain ⟨n, hn⟩ : ∃ n, fa.faSize = n+1 := ⟨fa.faSize-1, by omega⟩
      cases he' : flashAreaRead fa 0 sizeofStorageHeader fl1 with
      | mk second fl2 =>
        cases second with
        | none => simp [initArea, he, hu, hn, initAreaLoop, he']
        | some data' =>
          obtain ⟨-, hu'⟩ := hword hs he'
          simp [initArea, he, hu, hn, initAreaLoop, he', hu', recordUnused_ne_valid]

/-- A reset whose erase is carried out leaves an erased, empty area. -/
theorem resetArea_erased {fl : Flash} (h : fl.verdict 0 .erase = true) :
    (resetArea p fa area fl).1 = ⟨area.fa, 0, 0⟩ ∧
    (resetArea p fa area fl).2.mem = erase fl.mem fa.faOff fa.faSize := by
  have he : flashAreaErase fa 0 fa.faSize fl = (true, fl.set (erase fl.mem fa.faOff fa.faSize)) := by
    simp [flashAreaErase, h]
  have hz : Erased (content fa (erase fl.mem fa.faOff fa.faSize)) 0 fa.faSize := by
    rw [content_erase]
    simpa using erase_erased (content fa fl.mem) 0 fa.faSize
  simp only [resetArea, he]
  exact ⟨initArea_erased hz, (initArea_sameMem p fa area _).mem⟩

theorem resetArea_ok (m : Mem) :
    resetArea p fa area (.ok m) = (⟨area.fa, 0, 0⟩, .ok (erase m fa.faOff fa.faSize)) := by
  have ha : (resetArea p fa area (.ok m)).1 = ⟨area.fa, 0, 0⟩ := (resetArea_erased rfl).1
  have hf : (resetArea p fa area (.ok m)).2 = .ok (erase m fa.faOff fa.faSize) := by
    simp only [resetArea, flashAreaErase_ok]
    exact (initArea_sameMem p fa area _).ok
  exact Prod.ext ha hf

/-- Without faults `storage_init` succeeds; an area it cannot make sense of is erased. -/
theorem storageInit_ok (m : Mem) :
    storageInit p fa (.ok m) = (.success, (initArea p fa ⟨some fa, 0, 0⟩ (.ok m)).2.1,
      .ok (if (initArea p fa ⟨some fa, 0, 0⟩ (.ok m)).1 = .success then m
        else erase m fa.faOff fa.faSize)) := by
  have hf := (initArea_sameMem p fa ⟨some fa, 0, 0⟩ (.ok m)).ok
  have hopen : flashAreaOpen (.ok m) = (true, .ok m) := rfl
  cases hr : initArea p fa ⟨some fa, 0, 0⟩ (.ok m) with
  | mk ret rest =>
    obtain ⟨area, fl⟩ := rest
    rw [hr] at hf
    have hfl : fl = .ok m := hf
    cases ret <;>
      simp only [storageInit, hopen, hr, hfl, flashAreaErase_ok, if_true, reduceCtorEq, if_false]

/-- The header at `off` and the payload behind it are those of the record. -/
structure RecordAt (p : Platform) (c : Mem) (off : Nat) (record : List UInt8) : Prop where
  magic : (headerAt c off).magicState = recordValid
  size : (headerAt c off).recordSize.toNat = record.length
  crc : (headerAt c off).crc16 = crc16Ccitt p 0xffff record
  payload : slice c (off+8) record.length = record

instance (p : Platform) (c : Mem) (off : Nat) (record : List UInt8) : Decidable (RecordAt p c off record) :=
  decidable_of_iff ((headerAt c off).magicState = recordValid ∧
      (headerAt c off).recordSize.toNat = record.length ∧
      (headerAt c off).crc16 = crc16Ccitt p 0xffff record ∧ slice c (off+8) record.length = record)
    ⟨fun h => ⟨h.1, h.2.1, h.2.2.1, h.2.2.2⟩, fun h => ⟨h.magic, h.size, h.crc, h.payload⟩⟩

theorem RecordAt.congr {c c' : Mem} {off : Nat} {record : List UInt8} (h : RecordAt p c off record)
    (ha : AgreeOn c c' off (off+8+record.length)) : RecordAt p c' off record := by
  have hh : headerAt c off = headerAt c' off := headerAt_congr (ha.mono le_rfl (by omega))
  have hp : slice c (off+8) record.length = slice c' (off+8) record.length :=
    slice_congr (ha.mono (by omega) le_rfl)
  exact ⟨hh ▸ h.magic, hh ▸ h.size, hh ▸ h.crc, hp ▸ h.payload⟩

theorem storagePeek_ok {record : List UInt8} {size : Nat} {m : Mem} (hfa : area.fa = some fa)
    (hne : area.rdIdx ≠ area.wrIdx) (hb : area.rdIdx+8+record.length ≤ fa.faSize)
    (h : RecordAt p (content fa m) area.rdIdx record) :
    storagePeek p area size (.ok m) =
      if size < record.length then (⟨.noMem, [], size⟩, area, .ok m)
      else (⟨.success, record, record.length⟩, area, .ok m) := by
  have hh := flashAreaRead_ok (show area.rdIdx+sizeofStorageHeader ≤ fa.faSize by
    simp only [sizeofStorageHeader]; omega) m
  have hp := flashAreaRead_ok (show area.rdIdx+sizeofStorageHeader+record.length ≤ fa.faSize from hb) m
  simp only [storagePeek, hfa, if_neg hne, hh]
  have hhd : StorageHeader.ofBytes (slice (content fa m) area.rdIdx sizeofStorageHeader) =
      headerAt (content fa m) area.rdIdx := rfl
  rw [hhd, h.size]
  split
  · rfl
  · rw [hp]
    have hpl : slice (content fa m) (area.rdIdx+sizeofStorageHeader) record.length = record := h.payload
    simp [hpl, h.magic, h.crc]

/-- The write that frees a record: its header becomes zeros. -/
def zeroHeader (c : Mem) (off : Nat) : Mem := program c off (List.replicate 8 0)

/-- Freeing touches only the header of the freed record. -/
theorem content_zeroHeader {m : Mem} {off a : Nat} (h : a < off ∨ off+8 ≤ a) :
    content fa (zeroHeader m (fa.faOff+off)) a = content fa m a := by
  rw [zeroHeader, content_program, program_outside (by simpa using h)]

/-- `storage_free` on a valid header, with the whole-area erase when the queue drains near the end. -/
theorem storageFree_ok {size : Nat} {m : Mem} (hfa : area.fa = some fa)
    (hal : p.blk ∣ area.rdIdx) (hb : area.rdIdx+8 ≤ fa.faSize)
    (hv : (headerAt (content fa m) area.rdIdx).magicState = recordValid)
    (hs : (headerAt (content fa m) area.rdIdx).recordSize.toNat = size) :
    storageFree p area (.ok m) =
      let rd := area.rdIdx+recordSpan p size
      let m' := zeroHeader m (fa.faOff+area.rdIdx)
      if area.wrIdx ≤ rd ∧ fa.faSize-area.wrIdx < minimumEmptySpace then
        (.success, ⟨area.fa, 0, 0⟩, .ok (erase m' fa.faOff fa.faSize))
      else (.success, { area with rdIdx := rd }, .ok m') := by
  have hh := flashAreaRead_ok (show area.rdIdx+sizeofStorageHeader ≤ fa.faSize from hb) m
  have hz : (deviceWrite p.board (content fa m) area.rdIdx (List.replicate 8 0)).1 = true :=
    deviceWrite_zeros hal
  have hw : flashAreaWrite p.board fa area.rdIdx (List.replicate sizeofStorageHeader 0) (.ok m) =
      (true, .ok (zeroHeader m (fa.faOff+area.rdIdx))) := by
    rw [sizeofStorageHeader, flashAreaWrite_ok (by simpa using hb), hz]
    rw [(deviceWrite_content p.board fa m area.rdIdx _).1] at hz
    rw [deviceWrite_true hz]
    rfl
  simp only [storageFree, hfa, hh, Option.getD_some, hw]
  have hhd : StorageHeader.ofBytes (slice (content fa m) area.rdIdx sizeofStorageHeader) =
      headerAt (content fa m) area.rdIdx := rfl
  rw [hhd, hv, hs]
  simp only [ne_eq, not_true_eq_false, if_false]
  split
  · rw [resetArea_ok]
  · rfl

theorem storageFree_notFound {m : Mem} (hfa : area.fa = some fa)
    (hv : area.rdIdx+8 ≤ fa.faSize → (headerAt (content fa m) area.rdIdx).magicState ≠ recordValid) :
    storageFree p area (.ok m) = (.notFound, area, .ok m) := by
  by_cases hb : area.rdIdx+8 ≤ fa.faSize
  · have hh := flashAreaRead_ok (show area.rdIdx+sizeofStorageHeader ≤ fa.faSize from hb) m
    have hv' := hv hb
    rw [headerAt] at hv'
    simp only [storageFree, hfa, hh, Option.getD_some, if_pos hv']
  · have hh : flashAreaRead fa area.rdIdx sizeofStorageHeader (.ok m) = (none, .ok m) :=
      flashAreaRead_out (by simp only [sizeofStorageHeader]; omega) _
    have hz : (StorageHeader.ofBytes ([] : List UInt8)).magicState ≠ recordValid := by decide
    simp only [storageFree, hfa, hh, Option.getD_none, if_pos hz]

end OrbFirmware.Storage

import OrbFirmware.Storage.Recovery

/-! Calls on a device that refuses some of the accesses: what `storage_free` and `storage_push` leave
behind, and the scan of a device on which every read is carried out. -/
namespace OrbFirmware.Storage
open Nor
variable {p : Platform} {fa : FlashArea} {area : StorageArea} {s : StorageState} {fl fl' : Flash} {q : Queue}
  {record : List UInt8} {off size : Nat}

/-! Reads carried out. -/

/-- Two devices that read the same. -/
structure ReadAlike (fl fl' : Flash) : Prop where
  mem : fl.mem = fl'.mem
  left : fl.Grants .read
  right : fl'.Grants .read

theorem ReadAlike.later {fl₁ fl₁' : Flash} (h : ReadAlike fl fl') (hl : fl.SameMem fl₁) (hr : fl'.SameMem fl₁') :
    ReadAlike fl₁ fl₁' :=
  ⟨hl.mem.trans (h.mem.trans hr.mem.symm), hl.later.grants h.left, hr.later.grants h.right⟩

theorem ReadAlike.read (h : ReadAlike fl fl') (fa : FlashArea) (off len : Nat) :
    (flashAreaRead fa off len fl).1 = (flashAreaRead fa off len fl').1 ∧
    ReadAlike (flashAreaRead fa off len fl).2 (flashAreaRead fa off len fl').2 := by
  refine ⟨?_, h.later (flashAreaRead_sameMem fa off len fl) (flashAreaRead_sameMem fa off len fl')⟩
  rw [flashAreaRead_granted h.left, flashAreaRead_granted h.right, h.mem]

theorem ReadAlike.initAreaCrc (h : ReadAlike fl fl') (index size n i : Nat) (crc16 : UInt16) :
    (initAreaCrc p fa index size n i crc16 fl).1 = (initAreaCrc p fa index size n i crc16 fl').1 := by
  induction n generalizing i crc16 fl fl' with
  | zero => rfl
  | succ n ih =>
    simp only [Storage.initAreaCrc]
    split
    · obtain ⟨hr, hnext⟩ := h.read fa (index+sizeofStorageHeader+i)
        (if i+initAreaReadBufferSize < size then initAreaReadBufferSize else size-i)
      rw [hr]
      exact ih hnext _ _
    · rfl

theorem ReadAlike.initAreaLoop (h : ReadAlike fl fl') (n index : Nat) (found : Option Nat) :
    (initAreaLoop p fa n index found fl).1 = (initAreaLoop p fa n index found fl').1 := by
  induction n generalizing index found fl fl' with
  | zero => rfl
  | succ n ih =>
    obtain ⟨hr, hnext⟩ := h.read fa index sizeofStorageHeader
    cases h1 : flashAreaRead fa index sizeofStorageHeader fl with
    | mk data fl₁ =>
      cases h2 : flashAreaRead fa index sizeofStorageHeader fl' with
      | mk data' fl₁' =>
        rw [h1, h2] at hr hnext
        have hd : data = data' := hr
        subst hd
        cases data with
        | none => simp only [Storage.initAreaLoop, h1, h2]
        | some data =>
          simp only [Storage.initAreaLoop, h1, h2]
          generalize (StorageHeader.ofBytes data).recordSize.toNat = size
          have hcrc : (Storage.initAreaCrc p fa index size size 0 0xffff fl₁).1 = _ :=
            hnext.initAreaCrc index size size 0 0xffff
          have hafter := hnext.later (initAreaCrc_sameMem p fa index size size 0 0xffff fl₁)
            (initAreaCrc_sameMem p fa index size size 0 0xffff fl₁')
          by_cases hv : found = none ∧ (StorageHeader.ofBytes data).magicState = recordValid
          · simp only [if_pos hv, hcrc]
            split_ifs <;> first | rfl | exact ih hafter _ _
          · simp only [if_neg hv]
            split_ifs <;> first | rfl | exact ih hnext _ _

theorem ReadAlike.initArea (h : ReadAlike fl fl') :
    (initArea p fa area fl).1 = (initArea p fa area fl').1 ∧
    (initArea p fa area fl).2.1 = (initArea p fa area fl').2.1 := by
  obtain ⟨hr, hnext⟩ := h.read fa 0 sizeofStorageHeader
  have hloop : (Storage.initAreaLoop p fa fa.faSize 0 none _).1 = _ := hnext.initAreaLoop fa.faSize 0 none
  simp only [Storage.initArea, hr]
  split
  · exact ⟨rfl, rfl⟩
  · cases h1 : Storage.initAreaLoop p fa fa.faSize 0 none (flashAreaRead fa 0 sizeofStorageHeader fl).2 with
    | mk found fl₁ =>
      cases h2 : Storage.initAreaLoop p fa fa.faSize 0 none (flashAreaRead fa 0 sizeofStorageHeader fl').2 with
      | mk found' fl₁' =>
        rw [h1, h2] at hloop
        have hf : found = found' := hloop
        subst hf
        obtain ⟨rd, wr⟩ := found
        cases rd <;> cases wr <;> exact ⟨rfl, rfl⟩

theorem flashAreaRead_sees (fa : FlashArea) (h : fl.Grants .read) {len : Nat} (hb : off+len ≤ fa.faSize) :
    ∃ fl', flashAreaRead fa off len fl = (some (slice (content fa fl.mem) off len), fl') ∧ fl.SameMem fl' := by
  have hr := flashAreaRead_granted h fa off len
  rw [flashAreaRead_ok hb] at hr
  exact ⟨(flashAreaRead fa off len fl).2, Prod.ext hr rfl, flashAreaRead_sameMem fa off len fl⟩

theorem Laid.peek_granted (h : Laid p fa s q) (hm : fl.mem = s.mem) (hg : fl.Grants .read) (size : Nat) :
    ∃ fl', storagePeek p s.area size fl = (fifoPeek q size, s.area, fl') ∧ fl.SameMem fl' := by
  have hq := h.queued
  cases q with
  | nil =>
    have he : s.area.rdIdx = s.area.wrIdx := hq
    exact ⟨fl, by simp only [storagePeek, h.area, if_pos he, fifoPeek], .refl fl⟩
  | cons record q =>
    obtain ⟨hr, htail⟩ := hq
    have hs := le_recordSpan p record.length
    have hle := htail.le
    have hb := h.bounded
    obtain ⟨fl₁, hread, hsame⟩ := flashAreaRead_sees fa hg
      (show s.area.rdIdx+sizeofStorageHeader ≤ fa.faSize by simp only [sizeofStorageHeader]; omega)
    have hhd : StorageHeader.ofBytes (slice (content fa fl.mem) s.area.rdIdx sizeofStorageHeader) =
      headerAt (content fa s.mem) s.area.rdIdx := by rw [hm]; rfl
    simp only [storagePeek, h.area, if_neg (show s.area.rdIdx ≠ s.area.wrIdx by omega), hread, hhd, hr.size,
      fifoPeek]
    by_cases hsize : size < record.length
    · rw [if_pos hsize, if_pos hsize]
      exact ⟨fl₁, rfl, hsame⟩
    · obtain ⟨fl₂, hread2, hsame2⟩ := flashAreaRead_sees fa (hsame.later.grants hg)
        (show s.area.rdIdx+sizeofStorageHeader+record.length ≤ fa.faSize by
          simp only [sizeofStorageHeader]; omega)
      have hpay : slice (content fa fl₁.mem) (s.area.rdIdx+sizeofStorageHeader) record.length = record := by
        rw [hsame.mem, hm]
        exact hr.payload
      rw [hpay] at hread2
      simp only [if_neg hsize, hread2, hr.magic, hr.crc, ne_eq, not_true_eq_false, or_self, if_false]
      exact ⟨fl₂, rfl, hsame.trans hsame2⟩

theorem Laid.isLastRecord_granted (h : Laid p fa s q) (hm : fl.mem = s.mem) (hg : fl.Grants .read) :
    ∃ fl', storageIsLastRecord p s.area fl = (decide (q.length = 1), fl') ∧ fl.SameMem fl' := by
  have hok := h.isLastRecord
  have hlike : ReadAlike fl (.ok s.mem) := ⟨hm, hg, Flash.grants_ok s.mem .read⟩
  obtain ⟨hread, -⟩ := hlike.read fa s.area.rdIdx sizeofStorageHeader
  have hsame := flashAreaRead_sameMem fa s.area.rdIdx sizeofStorageHeader fl
  have hfst : (storageIsLastRecord p s.area fl).1 = (storageIsLastRecord p s.area (.ok s.mem)).1 ∧
      fl.SameMem (storageIsLastRecord p s.area fl).2 := by
    cases h1 : flashAreaRead fa s.area.rdIdx sizeofStorageHeader fl with
    | mk data fl₁ =>
      cases h2 : flashAreaRead fa s.area.rdIdx sizeofStorageHeader (.ok s.mem) with
      | mk data' fl₁' =>
        rw [h1, h2] at hread
        rw [h1] at hsame
        have hd : data = data' := hread
        subst hd
        simp only [storageIsLastRecord, h.area, h1, h2]
        cases data with
        | none => split <;> exact ⟨rfl, by first | exact .refl fl | exact hsame⟩
        | some data =>
          split
          · exact ⟨rfl, .refl fl⟩
          · dsimp only
            split <;> exact ⟨rfl, hsame⟩
  rw [hok] at hfst
  exact ⟨(storageIsLastRecord p s.area fl).2, Prod.ext hfst.1 rfl, hfst.2⟩

/-! A free, and a push, on a device that refuses accesses. -/

theorem resetArea_later (p : Platform) (fa : FlashArea) (area : StorageArea) (fl : Flash) :
    fl.Later (resetArea p fa area fl).2 := by
  have herase : fl.Later (flashAreaErase fa 0 fa.faSize fl).2 := by
    simp only [flashAreaErase]
    split
    · exact .refl fl
    · split
      · exact fl.later_set _
      · exact fl.later_tick
  exact herase.trans (initArea_sameMem p fa area _).later

/-- A free either writes the zero header and goes on, or it is refused and does nothing. -/
theorem storageFree_faults (hfa : area.fa = some fa) (hal : p.blk ∣ area.rdIdx) (hb : area.rdIdx+8 ≤ fa.faSize)
    (hv : (headerAt (content fa fl.mem) area.rdIdx).magicState = recordValid)
    (hs : (headerAt (content fa fl.mem) area.rdIdx).recordSize.toNat = size) :
    (∃ ret fl', storageFree p area fl = (ret, area, fl') ∧ ret ≠ .success ∧ fl.SameMem fl' ∧
      ¬ (fl.Grants .read ∧ fl.Grants .write)) ∨
    ∃ fl', fl.Later fl' ∧ fl'.mem = zeroHeader fl.mem (fa.faOff+area.rdIdx) ∧
      storageFree p area fl =
        if area.wrIdx ≤ area.rdIdx+recordSpan p size ∧ fa.faSize-area.wrIdx < minimumEmptySpace then
          (.success, resetArea p fa { area with rdIdx := area.rdIdx+recordSpan p size } fl')
        else (.success, { area with rdIdx := area.rdIdx+recordSpan p size }, fl') := by
  have hr := flashAreaRead_sameMem fa area.rdIdx sizeofStorageHeader fl
  have hin : ¬ fa.faSize < area.rdIdx+sizeofStorageHeader := by
    simp only [sizeofStorageHeader]
    omega
  have hz : (StorageHeader.ofBytes ([] : List UInt8)).magicState ≠ recordValid := by decide
  have hread : flashAreaRead fa area.rdIdx sizeofStorageHeader fl =
      (if fl.verdict 0 .read then some (slice (content fa fl.mem) area.rdIdx sizeofStorageHeader) else none,
        fl.tick) := by
    simp only [flashAreaRead, if_neg hin, content, slice_view]
    split <;> rfl
  have hhd : StorageHeader.ofBytes (slice (content fa fl.mem) area.rdIdx sizeofStorageHeader) =
    headerAt (content fa fl.mem) area.rdIdx := rfl
  cases hvr : fl.verdict 0 .read with
  | false =>
    refine .inl ⟨.notFound, fl.tick, ?_, by simp, fl.sameMem_tick, fun hg => ?_⟩
    · simp only [storageFree, hfa, hread, hvr, Bool.false_eq_true, if_false, Option.getD_none, if_pos hz]
    · rw [hg.1 0] at hvr
      exact absurd hvr (by simp)
  | true =>
    have hzeros : deviceWrite p.board fl.mem (fa.faOff+area.rdIdx) (List.replicate 8 0) =
        (true, zeroHeader fl.mem (fa.faOff+area.rdIdx)) := by
      have hw := deviceWrite_zeros (m := fl.mem) (Nat.dvd_add (faOff_aligned p.board fa) hal)
      exact Prod.ext hw (deviceWrite_true hw)
    have hwrite : flashAreaWrite p.board fa area.rdIdx (List.replicate sizeofStorageHeader 0) fl.tick =
        if fl.tick.verdict 0 .write then (true, fl.tick.set (zeroHeader fl.mem (fa.faOff+area.rdIdx)))
        else (false, fl.tick.tick) := by
      simp only [flashAreaWrite, sizeofStorageHeader, List.length_replicate, if_neg (not_lt.mpr hb),
        Flash.tick_mem, hzeros]
    cases hvw : fl.tick.verdict 0 .write with
    | false =>
      refine .inl ⟨.internal, fl.tick.tick, ?_, by simp, fl.sameMem_tick.trans fl.tick.sameMem_tick, fun hg => ?_⟩
      · simp only [storageFree, hfa, hread, hvr, if_true, Option.getD_some, hhd, hv, ne_eq, not_true_eq_false,
          if_false, hwrite, hvw, Bool.false_eq_true]
      · rw [fl.later_tick.grants hg.2 0] at hvw
        exact absurd hvw (by simp)
    | true =>
      refine .inr ⟨fl.tick.set (zeroHeader fl.mem (fa.faOff+area.rdIdx)),
        fl.later_tick.trans (fl.tick.later_set _), rfl, ?_⟩
      simp only [storageFree, hfa, hread, hvr, if_true, Option.getD_some, hhd, hv, ne_eq, not_true_eq_false,
        if_false, hwrite, hvw, hs]

/-- Whatever is refused: the payload is programmed in full, or the write is reported as failed. -/
theorem writeRecord_faults (p : Platform) (fa : FlashArea) (off : Nat) (record : List UInt8) (fl : Flash) :
    fl.Later (writeRecord p fa off record fl).2 ∧
    (∀ a, a < fa.faOff+off ∨ fa.faOff+off+(paddedRecord p record).length ≤ a →
      (writeRecord p fa off record fl).2.mem a = fl.mem a) ∧
    ((writeRecord p fa off record fl).1 = true →
      (writeRecord p fa off record fl).2.mem = program fl.mem (fa.faOff+off) (paddedRecord p record)) := by
  have hlen : (record.take (record.length-record.length % p.blk)).length =
      record.length-record.length % p.blk := by simp
  have hsplit := paddedRecord_split p record
  have hlenAll := congrArg List.length hsplit
  rw [List.length_append, hlen] at hlenAll
  have hlater := flashAreaWrite_later p.board fa off (record.take (record.length-record.length % p.blk)) fl
  have hout {a : Nat} (ha : a < fa.faOff+off ∨ fa.faOff+off+(paddedRecord p record).length ≤ a) :
      (flashAreaWrite p.board fa off (record.take (record.length-record.length % p.blk)) fl).2.mem a =
        fl.mem a := flashAreaWrite_outside (by rw [hlen]; omega)
  cases h1 : flashAreaWrite p.board fa off (record.take (record.length-record.length % p.blk)) fl with
  | mk ok fl₁ =>
    rw [h1] at hlater hout
    cases ok with
    | false =>
      simp only [writeRecord, h1]
      exact ⟨hlater, fun a ha => hout ha, fun hok => absurd hok (by simp)⟩
    | true =>
      obtain ⟨-, hm1⟩ := flashAreaWrite_true h1
      by_cases hr : record.length % p.blk = 0
      · simp only [writeRecord, h1]
        rw [if_neg (not_not.mpr hr)]
        refine ⟨hlater, fun a ha => hout ha, fun _ => ?_⟩
        have hpad : paddedRecord p record = record := by simp [paddedRecord, blockPadding_of_dvd hr]
        rw [hm1, hpad, hr, Nat.sub_zero, List.take_length]
      · have hlater2 := hlater.trans (flashAreaWrite_later p.board fa (off+(record.length-record.length % p.blk))
          (record.drop (record.length-record.length % p.blk) ++
            List.replicate (blockPadding p record.length) 0xff) fl₁)
        simp only [writeRecord, h1, ne_eq, hr, not_false_eq_true, if_true]
        refine ⟨hlater2, fun a ha => ?_, fun hok => ?_⟩
        · rw [flashAreaWrite_outside (by omega)]
          exact hout ha
        · obtain ⟨-, hm2⟩ := flashAreaWrite_true (Prod.ext hok rfl)
          rw [hm2, hm1, hsplit, program_append fl.mem _ (record.take _), hlen, Nat.add_assoc]

theorem readBackRecord_sameMem (p : Platform) (fa : FlashArea) (off size : Nat) (fl : Flash) :
    fl.SameMem (readBackRecord p fa off size fl).2 := by
  have h1 := flashAreaRead_sameMem fa off (size-size % p.blk) fl
  simp only [readBackRecord]
  split
  · exact h1.trans (flashAreaRead_sameMem fa _ _ _)
  · exact h1

/-- A push that goes through has stored the record; one that fails has erased the area. -/
theorem storagePush_faults (hfa : area.fa = some fa) (hne : record ≠ [])
    (hfit : area.wrIdx+recordSpan p record.length ≤ fa.faSize) (herase : fl.Grants .erase) :
    (∃ fl', storagePush p area record fl =
        (.success, { area with wrIdx := area.wrIdx+recordSpan p record.length }, fl') ∧
      fl'.mem = program (program fl.mem (fa.faOff+(area.wrIdx+8)) (paddedRecord p record))
        (fa.faOff+area.wrIdx) (headerOf p record).bytes) ∨
    ∃ ret fl', storagePush p area record fl = (ret, ⟨some fa, 0, 0⟩, fl') ∧ ret ≠ .success ∧
      ErasedFrom fa fl.mem fl'.mem := by
  have hlen := length_paddedRecord p record
  have hspan := le_recordSpan p record.length
  have hz : record.length ≠ 0 := by simpa using hne
  have hreset {fl' : Flash} {ret : RetCode} (hret : ret ≠ .success) (hl : fl.Later fl')
      (hout : ∀ a, a < fa.faOff ∨ fa.faOff+fa.faSize ≤ a → fl'.mem a = fl.mem a) :
      ∃ ret' fl'', (ret, resetArea p fa area fl') = (ret', (⟨some fa, 0, 0⟩ : StorageArea), fl'') ∧
        ret' ≠ .success ∧ ErasedFrom fa fl.mem fl''.mem := by
    obtain ⟨harea, hmem⟩ : (resetArea p fa area fl').1 = ⟨area.fa, 0, 0⟩ ∧
      (resetArea p fa area fl').2.mem = erase fl'.mem fa.faOff fa.faSize :=
        resetArea_erased (hl.grants herase 0)
    refine ⟨ret, (resetArea p fa area fl').2, ?_, hret, ?_⟩
    · rw [← hfa, ← harea]
    · rw [hmem]
      exact erasedFrom_erase hout
  obtain ⟨hl1, hout1, hmem1⟩ := writeRecord_faults p fa (area.wrIdx+8) record fl
  simp only [storagePush, if_neg hz, hfa, if_neg (show ¬ fa.faSize < record.length by omega),
    if_neg (show ¬ fa.faSize < area.wrIdx+recordSpan p record.length by omega), sizeofStorageHeader]
  cases h1 : writeRecord p fa (area.wrIdx+8) record fl with
  | mk ok fl₁ =>
    rw [h1] at hl1 hout1 hmem1
    have hout : ∀ a, a < fa.faOff ∨ fa.faOff+fa.faSize ≤ a → fl₁.mem a = fl.mem a :=
      fun a ha => hout1 a (by omega)
    cases ok with
    | false => exact .inr (hreset (by simp) hl1 hout)
    | true =>
      have hs2 := readBackRecord_sameMem p fa (area.wrIdx+8) record.length fl₁
      cases h2 : readBackRecord p fa (area.wrIdx+8) record.length fl₁ with
      | mk back fl₂ =>
        rw [h2] at hs2
        have hl2 := hl1.trans hs2.later
        simp only [h2]
        by_cases hcrc : (headerOf p record).crc16 = crc16Ccitt p 0xffff back
        · simp only [hcrc, ne_eq, not_true_eq_false, if_false]
          have hl3 := hl2.trans (flashAreaWrite_later p.board fa area.wrIdx (headerOf p record).bytes fl₂)
          cases h3 : flashAreaWrite p.board fa area.wrIdx (headerOf p record).bytes fl₂ with
          | mk ok fl₃ =>
            rw [h3] at hl3
            cases ok with
            | false =>
              refine .inr (hreset (by simp) hl3 fun a ha => ?_)
              have hout3 : (flashAreaWrite p.board fa area.wrIdx (headerOf p record).bytes fl₂).2.mem a =
                  fl₂.mem a := flashAreaWrite_outside (by simp only [length_bytes, sizeofStorageHeader]; omega)
              rw [h3] at hout3
              rw [hout3, hs2.mem]
              exact hout a ha
            | true =>
              obtain ⟨-, hm3⟩ := flashAreaWrite_true h3
              refine .inl ⟨fl₃, rfl, ?_⟩
              rw [hm3, hs2.mem, hmem1 rfl]
        · simp only [ne_eq, hcrc, not_false_eq_true, if_true]
          refine .inr (hreset (by simp) hl2 fun a ha => ?_)
          rw [hs2.mem]
          exact hout a ha

end OrbFirmware.Storage

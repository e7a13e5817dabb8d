import OrbFirmware.Storage.PowerRuns

/-! Calls of `storage.c` on a device that loses power: their reads are those of a device without faults, until the
power is off; from then on nothing changes. -/
namespace OrbFirmware.Storage
open Nor
variable {p : Platform} {fa : FlashArea} {area : StorageArea} {s : StorageState} {m : Mem} {q : Queue}
  {record : List UInt8}

/-! The scan. -/

theorem sameMem_off {fl : Flash} (h : (Flash.cut m 0).SameMem fl) : fl = .cut m 0 := by
  obtain ⟨mem, verdict⟩ := fl
  obtain ⟨k, hk⟩ := h.later
  have hm : mem = m := h.mem
  have hv : verdict = fun _ _ => false := by
    rw [show verdict = _ from hk]
    funext n op
    exact decide_eq_false (Nat.not_lt_zero (n+k))
  rw [hm, hv]
  rfl

/-- A call that only reads is cut off, or does what it does without faults. -/
def CutOff {α : Type} (m : Mem) (r r' : α × Flash) : Prop := r.2 = .cut m 0 ∨ ∃ k, r = (r'.1, .cut m k)

theorem flashAreaRead_cutOff (fa : FlashArea) (m : Mem) (off len k : Nat) :
    CutOff m (flashAreaRead fa off len (.cut m k)) (flashAreaRead fa off len (.ok m)) := by
  by_cases hb : off+len ≤ fa.faSize
  · rw [flashAreaRead_cut hb, flashAreaRead_ok hb]
    by_cases hk : 0 < k
    · exact .inr ⟨k-1, by rw [if_pos hk]⟩
    · exact .inl (by rw [show k-1 = 0 by omega])
  · rw [flashAreaRead_out (not_le.mp hb), flashAreaRead_out (not_le.mp hb)]
    exact .inr ⟨k, rfl⟩

theorem initAreaCrc_cutOff (p : Platform) (fa : FlashArea) (m : Mem) (index size n i : Nat) (crc16 : UInt16) (k : Nat) :
    CutOff m (initAreaCrc p fa index size n i crc16 (.cut m k)) (initAreaCrc p fa index size n i crc16 (.ok m)) := by
  induction n generalizing i crc16 k with
  | zero => exact .inr ⟨k, rfl⟩
  | succ n ih =>
    simp only [initAreaCrc]
    split
    · generalize (if i+initAreaReadBufferSize < size then initAreaReadBufferSize else size-i) = len
      have hok := (flashAreaRead_sameMem fa (index+sizeofStorageHeader+i) len (.ok m)).ok
      rcases flashAreaRead_cutOff fa m (index+sizeofStorageHeader+i) len k with hoff | ⟨k₁, hread⟩
      · left
        rw [hoff]
        exact sameMem_off (initAreaCrc_sameMem p fa index size n _ _ _)
      · rw [hread, hok]
        exact ih _ _ k₁
    · exact .inr ⟨k, rfl⟩

/-- The first read of the scan is that of the header. -/
theorem initAreaLoop_read (p : Platform) (fa : FlashArea) (n index : Nat) (found : Option Nat) (fl : Flash) :
    (flashAreaRead fa index sizeofStorageHeader fl).2.SameMem (initAreaLoop p fa (n+1) index found fl).2 := by
  simp only [initAreaLoop]
  split
  · rename_i fl' he
    rw [he]
    exact .refl fl'
  · rename_i data fl' he
    rw [he]
    have hcrc := initAreaCrc_sameMem p fa index
      (StorageHeader.ofBytes data).recordSize.toNat (StorageHeader.ofBytes data).recordSize.toNat 0 0xffff fl'
    split_ifs <;> first
      | exact .refl fl'
      | exact hcrc
      | exact initAreaLoop_sameMem p fa n _ _ fl'
      | exact hcrc.trans (initAreaLoop_sameMem p fa n _ _ _)

theorem initAreaLoop_cutOff (p : Platform) (fa : FlashArea) (m : Mem) (n index : Nat) (found : Option Nat) (k : Nat) :
    CutOff m (initAreaLoop p fa n index found (.cut m k)) (initAreaLoop p fa n index found (.ok m)) := by
  induction n generalizing index found k with
  | zero => exact .inr ⟨k, rfl⟩
  | succ n ih =>
    have hread := initAreaLoop_read p fa n index found (.cut m k)
    rcases flashAreaRead_cutOff fa m index sizeofStorageHeader k with hoff | ⟨k₁, hcut⟩
    · rw [hoff] at hread
      exact .inl (sameMem_off hread)
    · have hok := (flashAreaRead_sameMem fa index sizeofStorageHeader (.ok m)).ok
      cases hdata : flashAreaRead fa index sizeofStorageHeader (.ok m) with
      | mk data fl =>
        rw [hdata] at hcut hok
        have hfl : fl = .ok m := hok
        subst hfl
        cases data with
        | none =>
          simp only [initAreaLoop, hcut, hdata]
          exact .inr ⟨k₁, rfl⟩
        | some data =>
          simp only [initAreaLoop, hcut, hdata]
          generalize (StorageHeader.ofBytes data).recordSize.toNat = size
          by_cases hv : found = none ∧ (StorageHeader.ofBytes data).magicState = recordValid
          · simp only [if_pos hv]
            have hcrcok := (initAreaCrc_sameMem p fa index size size 0 0xffff (.ok m)).ok
            rcases initAreaCrc_cutOff p fa m index size size 0 0xffff k₁ with hoff | ⟨k₂, hcrc⟩
            · left
              simp only [hoff]
              split_ifs <;> first | rfl | exact sameMem_off (initAreaLoop_sameMem p fa n _ _ _)
            · simp only [hcrc, hcrcok]
              split_ifs <;> first | exact .inr ⟨k₂, rfl⟩ | exact ih _ _ k₂
          · simp only [if_neg hv]
            split_ifs <;> first | exact .inr ⟨k₁, rfl⟩ | exact ih _ _ k₁

theorem initArea_cutOff (p : Platform) (fa : FlashArea) (area : StorageArea) (m : Mem) (k : Nat) :
    (initArea p fa area (.cut m k)).2.2 = .cut m 0 ∨
      ∃ k', initArea p fa area (.cut m k) =
        ((initArea p fa area (.ok m)).1, (initArea p fa area (.ok m)).2.1, .cut m k') := by
  have hok := (flashAreaRead_sameMem fa 0 sizeofStorageHeader (.ok m)).ok
  simp only [initArea]
  rcases flashAreaRead_cutOff fa m 0 sizeofStorageHeader k with hoff | ⟨k₁, hcut⟩
  · left
    rw [hoff]
    have hloop := sameMem_off (initAreaLoop_sameMem p fa fa.faSize 0 none (.cut m 0))
    split
    · rfl
    · split <;> rename_i he <;> rw [he] at hloop <;> exact hloop
  · rw [hcut, hok]
    dsimp only
    split
    · exact .inr ⟨k₁, rfl⟩
    · rcases initAreaLoop_cutOff p fa m fa.faSize 0 none k₁ with hoff | ⟨k₂, hloop⟩
      · left
        split <;> rename_i he <;> rw [he] at hoff <;> exact hoff
      · rw [hloop]
        obtain ⟨⟨rd, wr⟩, fl⟩ := initAreaLoop p fa fa.faSize 0 none (.ok m)
        cases rd <;> cases wr <;> exact .inr ⟨k₂, rfl⟩

/-! Power off. -/

theorem flashAreaRead_off (fa : FlashArea) (off len : Nat) (m : Mem) :
    flashAreaRead fa off len (.cut m 0) = (none, .cut m 0) := by
  by_cases hb : off+len ≤ fa.faSize
  · rw [flashAreaRead_cut hb, if_neg (Nat.lt_irrefl 0)]
  · exact flashAreaRead_out (not_le.mp hb) _

theorem storageIsLastRecord_off (p : Platform) (area : StorageArea) (m : Mem) :
    storageIsLastRecord p area (.cut m 0) = (false, .cut m 0) := by
  cases hfa : area.fa with
  | none => simp only [storageIsLastRecord, hfa]
  | some fa =>
    simp only [storageIsLastRecord, hfa, flashAreaRead_off]
    split <;> rfl

theorem resetArea_stays_off (p : Platform) (fa : FlashArea) (area : StorageArea) (m : Mem) :
    ∃ area', resetArea p fa area (.cut m 0) = (area', .cut m 0) := by
  have hoff := sameMem_off (initArea_sameMem p fa area (.cut m 0))
  refine ⟨_, Prod.ext rfl ?_⟩
  simp only [resetArea, flashAreaErase_off]
  exact hoff

theorem storageFree_off (p : Platform) (area : StorageArea) (m : Mem) :
    ∃ ret, storageFree p area (.cut m 0) = (ret, area, .cut m 0) ∧ ret ≠ .success := by
  have hz : (StorageHeader.ofBytes ([] : List UInt8)).magicState ≠ recordValid := by decide
  cases hfa : area.fa with
  | none => exact ⟨.notInitialized, by simp only [storageFree, hfa], by simp⟩
  | some fa =>
    refine ⟨.notFound, ?_, by simp⟩
    simp only [storageFree, hfa, flashAreaRead_off, Option.getD_none, if_pos hz]

theorem storagePeek_off (p : Platform) (area : StorageArea) (size : Nat) (m : Mem) :
    (storagePeek p area size (.cut m 0)).2.2.mem = m := by
  cases hfa : area.fa with
  | none => simp only [storagePeek, hfa, Flash.cut_mem]
  | some fa =>
    simp only [storagePeek, hfa, flashAreaRead_off]
    split
    · rfl
    · exact resetArea_off area m

theorem storagePush_off (p : Platform) (area : StorageArea) (record : List UInt8) (m : Mem) :
    (storagePush p area record (.cut m 0)).2.2.mem = m := by
  have hwrite (fa : FlashArea) (off : Nat) (data : List UInt8) :
      flashAreaWrite p.board fa off data (.cut m 0) = (false, .cut m 0) := by
    unfold flashAreaWrite
    split
    · rfl
    · rfl
  simp only [storagePush]
  split
  · rfl
  · split
    · rfl
    · split
      · rfl
      · split
        · rfl
        · simp only [writeRecord, hwrite, resetArea_off]

/-! The queue of an area in order. -/

theorem Laid.isLastRecord_cut (h : Laid p fa s q) (k : Nat) :
    CutOff s.mem (storageIsLastRecord p s.area (.cut s.mem k)) (decide (q.length = 1), .ok s.mem) := by
  have hok := h.isLastRecord
  simp only [storageIsLastRecord, h.area] at hok ⊢
  split at hok
  case isTrue he =>
    rw [if_pos he]
    exact .inr ⟨k, by rw [← hok]⟩
  case isFalse hne =>
    rw [if_neg hne]
    rcases flashAreaRead_cutOff fa s.mem s.area.rdIdx sizeofStorageHeader k with hoff | ⟨k', hread⟩
    · left
      split
      · rename_i fl he
        rw [he] at hoff
        exact hoff
      · rename_i data fl he
        rw [he] at hoff
        split <;> exact hoff
    · right
      refine ⟨k', ?_⟩
      rw [hread]
      cases hdata : flashAreaRead fa s.area.rdIdx sizeofStorageHeader (.ok s.mem) with
      | mk data fl =>
        rw [hdata] at hok
        cases data with
        | none =>
          obtain ⟨hlast, -⟩ := Prod.mk.inj hok
          rw [← hlast]
        | some data =>
          dsimp only at hok ⊢
          by_cases hv : (StorageHeader.ofBytes data).magicState ≠ recordValid
          · rw [if_pos hv] at hok ⊢
            rw [← (Prod.mk.inj hok).1]
          · rw [if_neg hv] at hok ⊢
            rw [← (Prod.mk.inj hok).1]

theorem Laid.peek_cut (h : Laid p fa s q) (size k : Nat) :
    (storagePeek p s.area size (.cut s.mem k)).2.2.mem = s.mem := by
  have hq := h.queued
  cases q with
  | nil =>
    have he : s.area.rdIdx = s.area.wrIdx := hq
    simp only [storagePeek, h.area, if_pos he, Flash.cut_mem]
  | cons record q =>
    obtain ⟨hr, htail⟩ := hq
    have hs := le_recordSpan p record.length
    have hle := htail.le
    have hb := h.bounded
    have hread := flashAreaRead_cut (show s.area.rdIdx+sizeofStorageHeader ≤ fa.faSize by
      simp only [sizeofStorageHeader]; omega) s.mem k
    have hhd : StorageHeader.ofBytes (slice (content fa s.mem) s.area.rdIdx sizeofStorageHeader) =
      headerAt (content fa s.mem) s.area.rdIdx := rfl
    simp only [storagePeek, h.area, if_neg (show s.area.rdIdx ≠ s.area.wrIdx by omega), hread]
    by_cases hk : 0 < k
    · simp only [if_pos hk, hhd, hr.size]
      split
      · rfl
      · have hpay : slice (content fa s.mem) (s.area.rdIdx+sizeofStorageHeader) record.length = record := hr.payload
        rw [flashAreaRead_cut (show s.area.rdIdx+sizeofStorageHeader+record.length ≤ fa.faSize by
          simp only [sizeofStorageHeader]; omega), hpay]
        by_cases hk' : 0 < k-1
        · simp only [if_pos hk', hr.magic, hr.crc, ne_eq, not_true_eq_false, or_self, if_false, Flash.cut_mem]
        · simp only [if_neg hk', show k-1-1 = 0 by omega, resetArea_off]
    · simp only [if_neg hk, show k-1 = 0 by omega, resetArea_off]

/-- A free that is cut off has written nothing, or it goes on as without faults. -/
theorem Laid.free_cut (h : Laid p fa s (record :: q)) (k : Nat) :
    (∃ ret, storageFree p s.area (.cut s.mem k) = (ret, s.area, .cut s.mem 0)) ∨
      ∃ k', storageFree p s.area (.cut s.mem k) =
        if q = [] ∧ fa.faSize-s.area.wrIdx < minimumEmptySpace then
          (.success, resetArea p fa { s.area with rdIdx := s.area.rdIdx+recordSpan p record.length }
            (.cut (zeroHeader s.mem (fa.faOff+s.area.rdIdx)) k'))
        else (.success, { s.area with rdIdx := s.area.rdIdx+recordSpan p record.length },
          .cut (zeroHeader s.mem (fa.faOff+s.area.rdIdx)) k') := by
  obtain ⟨hr, htail⟩ := h.queued
  have hs := le_recordSpan p record.length
  have hle := htail.le
  have hb := h.bounded
  have hz : (StorageHeader.ofBytes ([] : List UInt8)).magicState ≠ recordValid := by decide
  have hread := flashAreaRead_cut (show s.area.rdIdx+sizeofStorageHeader ≤ fa.faSize by
    simp only [sizeofStorageHeader]; omega) s.mem k
  have hhd : StorageHeader.ofBytes (slice (content fa s.mem) s.area.rdIdx sizeofStorageHeader) =
    headerAt (content fa s.mem) s.area.rdIdx := rfl
  have hlast : s.area.wrIdx ≤ s.area.rdIdx+recordSpan p record.length ↔ q = [] := by
    constructor
    · intro hdrain
      exact List.eq_nil_of_length_eq_zero (by omega)
    · rintro rfl
      have he : s.area.rdIdx+recordSpan p record.length = s.area.wrIdx := htail
      omega
  have hzeros : deviceWrite p.board s.mem (fa.faOff+s.area.rdIdx) (List.replicate 8 0) =
      (true, zeroHeader s.mem (fa.faOff+s.area.rdIdx)) := by
    have hw := deviceWrite_zeros (m := s.mem) (Nat.dvd_add (faOff_aligned p.board fa) h.aligned)
    exact Prod.ext hw (deviceWrite_true hw)
  have hwrite : flashAreaWrite p.board fa s.area.rdIdx (List.replicate sizeofStorageHeader 0) (.cut s.mem (k-1)) =
      if 0 < k-1 then (true, .cut (zeroHeader s.mem (fa.faOff+s.area.rdIdx)) (k-1-1))
      else (false, .cut s.mem (k-1-1)) := by
    simp only [flashAreaWrite, sizeofStorageHeader, List.length_replicate,
      if_neg (show ¬ fa.faSize < s.area.rdIdx+8 by omega), Flash.cut_mem, hzeros, Flash.cut_tick, Flash.cut_set]
    by_cases hk : 0 < k-1 <;> simp [Flash.cut, hk]
  simp only [storageFree, h.area, hread]
  by_cases hk : 0 < k
  · simp only [if_pos hk, Option.getD_some, hhd, hr.magic, hr.size, ne_eq, not_true_eq_false, if_false, hwrite]
    by_cases hk' : 0 < k-1
    · right
      simp only [if_pos hk', hlast]
      exact ⟨k-1-1, rfl⟩
    · left
      simp only [if_neg hk', show k-1-1 = 0 by omega]
      exact ⟨.internal, rfl⟩
  · left
    simp only [if_neg hk, Option.getD_none, if_pos hz, show k-1 = 0 by omega]
    exact ⟨.notFound, rfl⟩

theorem paddedRecord_block (p : Platform) (hlen : record.length = 8) : paddedRecord p record = record := by
  simp [paddedRecord, blockPadding_of_dvd (Nat.mod_eq_zero_of_dvd (hlen ▸ blk_dvd_eight p))]

/-- Behind the header at the write index, a push of a block leaves what was there, that with the payload programmed over
it, or erased flash. -/
theorem storagePush_behind (hfa : area.fa = some fa) (hlen : record.length = 8) (fl : Flash) :
    (∀ a, area.wrIdx+8 ≤ a → content fa (storagePush p area record fl).2.2.mem a = content fa fl.mem a) ∨
    (∀ a, area.wrIdx+8 ≤ a → content fa (storagePush p area record fl).2.2.mem a =
      program (content fa fl.mem) (area.wrIdx+8) record a) ∨
    Erased (content fa (storagePush p area record fl).2.2.mem) 0 fa.faSize := by
  have hpad := paddedRecord_block p hlen
  have hmod : record.length % p.blk = 0 := Nat.mod_eq_zero_of_dvd (hlen ▸ blk_dvd_eight p)
  have hreset (fl' : Flash) (P : Mem → Prop) (hP : P (content fa fl'.mem)) :
      P (content fa (resetArea p fa area fl').2.mem) ∨
        Erased (content fa (resetArea p fa area fl').2.mem) 0 fa.faSize := by
    cases keptOrErased_reset p fa area fl' with
    | inl hm => exact .inl (by rwa [hm])
    | inr he => exact .inr he
  simp only [storagePush, hfa, sizeofStorageHeader]
  split
  · exact .inl fun _ _ => rfl
  · split
    · exact .inl fun _ _ => rfl
    · split
      · exact .inl fun _ _ => rfl
      · obtain ⟨-, -, hdone⟩ := writeRecord_faults p fa (area.wrIdx+8) record fl
        have hrefused : ∀ fl', writeRecord p fa (area.wrIdx+8) record fl = (false, fl') → fl'.mem = fl.mem := by
          intro fl' hw
          simp only [writeRecord, hmod, Nat.sub_zero, List.take_length, ne_eq, not_true_eq_false, if_false] at hw
          split at hw
          · rename_i fl₁ he
            rw [← (Prod.mk.inj hw).2]
            exact flashAreaWrite_refused hlen he
          · exact absurd (Prod.mk.inj hw).1 (by simp)
        cases hw : writeRecord p fa (area.wrIdx+8) record fl with
        | mk ok fl₁ =>
          rw [hw] at hdone
          cases ok with
          | false =>
            have hP : ∀ a, area.wrIdx+8 ≤ a → content fa fl₁.mem a = content fa fl.mem a := by
              rw [hrefused fl₁ hw]
              exact fun _ _ => rfl
            dsimp only
            cases hreset fl₁ (fun c => ∀ a, area.wrIdx+8 ≤ a → c a = content fa fl.mem a) hP with
            | inl hkept => exact .inl hkept
            | inr he => exact .inr (.inr he)
          | true =>
            have hback := (readBackRecord_sameMem p fa (area.wrIdx+8) record.length fl₁).mem
            have hmem : fl₁.mem = program fl.mem (fa.faOff+(area.wrIdx+8)) record := hpad ▸ hdone rfl
            cases hr : readBackRecord p fa (area.wrIdx+8) record.length fl₁ with
            | mk record' fl₂ =>
              rw [hr] at hback
              have hP : ∀ a, area.wrIdx+8 ≤ a → content fa fl₂.mem a =
                  program (content fa fl.mem) (area.wrIdx+8) record a := by
                rw [show fl₂.mem = fl₁.mem from hback, hmem, content_program]
                exact fun _ _ => rfl
              let programmed (c : Mem) : Prop :=
                ∀ a, area.wrIdx+8 ≤ a → c a = program (content fa fl.mem) (area.wrIdx+8) record a
              right
              simp only [hr]
              split
              · exact hreset fl₂ programmed hP
              · have hout (a : Nat) (ha : area.wrIdx+8 ≤ a) :
                    content fa (flashAreaWrite p.board fa area.wrIdx (headerOf p record).bytes fl₂).2.mem a =
                      content fa fl₂.mem a :=
                  flashAreaWrite_outside (by simp only [length_bytes, sizeofStorageHeader]; omega)
                cases hh : flashAreaWrite p.board fa area.wrIdx (headerOf p record).bytes fl₂ with
                | mk ok fl₃ =>
                  rw [hh] at hout
                  have hP' : ∀ a, area.wrIdx+8 ≤ a → content fa fl₃.mem a =
                      program (content fa fl.mem) (area.wrIdx+8) record a :=
                    fun a ha => (hout a ha).trans (hP a ha)
                  cases ok with
                  | false => exact hreset fl₃ programmed hP'
                  | true => exact .inl hP'

end OrbFirmware.Storage

import OrbFirmware.Loop
import OrbFirmware.Storage.Scan

/-! `storage_init` over any content of the area and any refused calls: it ends, and what it leaves. -/
namespace OrbFirmware.Storage
open Nor Loop
variable {p : Platform} {fa : FlashArea}

/-! The two loops of `init_area`, a round at a time. -/

/-- A round of the chunk loop, from `i`, the CRC so far and the device. -/
def crcRound (p : Platform) (fa : FlashArea) (index size : Nat) (s : Nat × UInt16 × Flash) :
    (Nat × UInt16 × Flash) ⊕ (UInt16 × Flash) :=
  let (i, crc16, fl) := s
  if i < size then
    let sizeToRead := if i+initAreaReadBufferSize < size then initAreaReadBufferSize else size-i
    let (readBuffer, fl) := flashAreaRead fa (index+sizeofStorageHeader+i) sizeToRead fl
    let crc16 := match readBuffer with
      | some data => crc16Ccitt p crc16 data
      | none => crc16
    .inl (i+initAreaReadBufferSize, crc16, fl)
  else .inr (crc16, fl)

structure Scan where
  index : Nat
  rdIdx : Option Nat
  flash : Flash

/-- A round of the scan: on to the next header, or out of the loop with both indices. -/
def scanRound (p : Platform) (fa : FlashArea) (s : Scan) : Scan ⊕ ((Option Nat × Option Nat) × Flash) :=
  match flashAreaRead fa s.index sizeofStorageHeader s.flash with
  | (none, fl) => .inr ((none, none), fl)
  | (some data, fl) =>
    let header := StorageHeader.ofBytes data
    let (rdIdx, fl) :=
      if s.rdIdx = none ∧ header.magicState = recordValid then
        let (crc16, fl) := initAreaCrc p fa s.index header.recordSize.toNat header.recordSize.toNat 0 0xffff fl
        (if header.crc16 = crc16 then some s.index else none, fl)
      else (s.rdIdx, fl)
    if header.magicState = recordUnused then .inr ((rdIdx, some s.index), fl)
    else
      let index :=
        if header.magicState = recordValid then s.index+recordSpan p header.recordSize.toNat
        else s.index+p.blk
      if index+sizeofStorageHeader < fa.faSize then .inl ⟨index, rdIdx, fl⟩
      else .inr ((rdIdx, none), fl)

theorem initAreaCrc_ends (index size : Nat) (fl : Flash) :
    Ends (crcRound p fa index size) (0, 0xffff, fl) (initAreaCrc p fa index size size 0 0xffff fl) := by
  refine ends_bounded (fun _ => True) (fun s : Nat × UInt16 × Flash => size-s.1)
    (fun n s => initAreaCrc p fa index size n s.1 s.2.1 s.2.2) ?_ ?_ ?_ trivial (Nat.sub_le size 0)
  · rintro ⟨i, crc16, fl⟩ s' - hr
    simp only [crcRound] at hr
    split at hr
    · obtain rfl := Sum.inl.inj hr
      refine ⟨trivial, ?_⟩
      change size-(i+64) < size-i
      omega
    · cases hr
  · rintro ⟨i, crc16, fl⟩ - hz
    have hi : ¬ i < size := by simp only at hz; omega
    simp only [crcRound, if_neg hi, initAreaCrc]
  · rintro n ⟨i, crc16, fl⟩
    simp only [crcRound, initAreaCrc]
    split <;> rfl

theorem initAreaLoop_succ (n : Nat) (s : Scan) :
    initAreaLoop p fa (n+1) s.index s.rdIdx s.flash =
      Sum.elim (fun s => initAreaLoop p fa n s.index s.rdIdx s.flash) id (scanRound p fa s) := by
  cases hr : flashAreaRead fa s.index sizeofStorageHeader s.flash with
  | mk data fl =>
    cases data with
    | none => simp only [initAreaLoop, scanRound, hr, Sum.elim_inr, id]
    | some data =>
      simp only [initAreaLoop, scanRound, hr]
      split_ifs <;> rfl

/-! What a round makes of the header it meets. -/

namespace Scan

def bytes (fa : FlashArea) (s : Scan) : Mem := content fa s.flash.mem

def header (fa : FlashArea) (s : Scan) : StorageHeader := headerAt (s.bytes fa) s.index

def recordSize (fa : FlashArea) (s : Scan) : Nat := (s.header fa).recordSize.toNat

/-- What is read of the record, once its header is. -/
def recordRead (fa : FlashArea) (s : Scan) : List UInt8 :=
  chunksRead fa s.index (s.recordSize fa) (s.recordSize fa) 0 s.flash.tick

/-- The header is the first valid one whose CRC is that of the chunks that are read. -/
def Accepts (p : Platform) (fa : FlashArea) (s : Scan) : Prop :=
  s.rdIdx = none ∧ (s.header fa).magicState = recordValid ∧
    (s.header fa).crc16 = crc16Ccitt p 0xffff (s.recordRead fa)

instance (p : Platform) (fa : FlashArea) (s : Scan) : Decidable (s.Accepts p fa) :=
  inferInstanceAs (Decidable (_ ∧ _ ∧ _))

/-- The record is in the area, and what was not read of it makes no difference to its CRC. -/
def Covers (p : Platform) (fa : FlashArea) (s : Scan) : Prop :=
  s.index+8+s.recordSize fa ≤ fa.faSize ∧
    crc16Ccitt p 0xffff (s.recordRead fa) =
      crc16Ccitt p 0xffff (slice (s.bytes fa) (s.index+8) (s.recordSize fa))

def HeaderRead (fa : FlashArea) (s : Scan) : Prop :=
  s.index+8 ≤ fa.faSize ∧ s.flash.verdict 0 .read = true

/-- The first record found so far, once the header is seen. -/
def found (p : Platform) (fa : FlashArea) (s : Scan) : Option Nat :=
  if s.Accepts p fa then some s.index else s.rdIdx

/-- The device behind a round that looks at a header. -/
def behind (p : Platform) (fa : FlashArea) (s : Scan) : Flash :=
  if s.rdIdx = none ∧ (s.header fa).magicState = recordValid then
    (initAreaCrc p fa s.index (s.recordSize fa) (s.recordSize fa) 0 0xffff s.flash.tick).2
  else s.flash.tick

variable {s : Scan}

theorem behind_sameMem : s.flash.SameMem (s.behind p fa) := by
  unfold behind
  split
  · exact s.flash.sameMem_tick.trans (initAreaCrc_sameMem p fa _ _ _ _ _ s.flash.tick)
  · exact s.flash.sameMem_tick

theorem header_of_read (h : s.HeaderRead fa) :
    flashAreaRead fa s.index sizeofStorageHeader s.flash =
      (some (slice (s.bytes fa) s.index sizeofStorageHeader), s.flash.tick) :=
  flashAreaRead_carried_out h.1 h.2

theorem round_unread (h : ¬s.HeaderRead fa) : ∃ fl, scanRound p fa s = .inr ((none, none), fl) := by
  cases hr : flashAreaRead fa s.index sizeofStorageHeader s.flash with
  | mk data fl =>
    cases data with
    | none => exact ⟨fl, by simp only [scanRound, hr]⟩
    | some data =>
      obtain ⟨hb, hv, -⟩ := flashAreaRead_success hr
      exact absurd ⟨hb, hv⟩ h

theorem round_unused (h : s.HeaderRead fa) (hu : (s.header fa).magicState = recordUnused) :
    scanRound p fa s = .inr ((s.rdIdx, some s.index), s.flash.tick) := by
  rw [header, headerAt] at hu
  simp only [scanRound, header_of_read h, hu, recordUnused_ne_valid, and_false, if_false, if_true]

/-- A round over a header that is not an unused one. -/
theorem round_used (h : s.HeaderRead fa) (hu : (s.header fa).magicState ≠ recordUnused) :
    scanRound p fa s = if scanNext p (s.bytes fa) s.index+8 < fa.faSize then
      .inl ⟨scanNext p (s.bytes fa) s.index, s.found p fa, s.behind p fa⟩
      else .inr ((s.found p fa, none), s.behind p fa) := by
  have hhd : StorageHeader.ofBytes (slice (s.bytes fa) s.index sizeofStorageHeader) = s.header fa := rfl
  have hcrc : (initAreaCrc p fa s.index (s.recordSize fa) (s.recordSize fa) 0 0xffff s.flash.tick).1 = _ :=
    initAreaCrc_chunks _ _ _ _ _ _
  by_cases hn : s.rdIdx = none ∧ (s.header fa).magicState = recordValid
  · have hfound : s.found p fa = if (s.header fa).crc16 = crc16Ccitt p 0xffff (s.recordRead fa) then
        some s.index else none := by
      simp only [found, Accepts, hn.1, hn.2, true_and]
    have hnext : scanNext p (s.bytes fa) s.index = s.index+recordSpan p (s.recordSize fa) := if_pos hn.2
    rw [hfound, hnext, behind, if_pos hn, recordRead, ← hcrc]
    simp only [scanRound, header_of_read h, hhd, if_pos hn, if_neg hu, if_pos hn.2]
    rfl
  · have hfound : s.found p fa = s.rdIdx := if_neg fun ha => hn ⟨ha.1, ha.2.1⟩
    rw [hfound, behind, if_neg hn]
    simp only [scanRound, header_of_read h, hhd, if_neg hn, if_neg hu]
    rfl

theorem lt_scanNext (p : Platform) (c : Mem) (index : Nat) : index < scanNext p c index := by
  have hpos := blk_pos p
  have hspan := le_recordSpan p (headerAt c index).recordSize.toNat
  unfold scanNext
  split <;> omega

theorem accepts_next (ha : s.Accepts p fa) :
    s.index+8+s.recordSize fa ≤ scanNext p (s.bytes fa) s.index := by
  have hspan := le_recordSpan p (s.recordSize fa)
  have hnext : scanNext p (s.bytes fa) s.index = s.index+recordSpan p (s.recordSize fa) := if_pos ha.2.1
  omega

/-- A round that leads on. -/
structure Onward (p : Platform) (fa : FlashArea) (s s' : Scan) : Prop where
  read : s.HeaderRead fa
  ahead : s.index < s'.index
  behind_record : s.Accepts p fa → s.index+8+s.recordSize fa ≤ s'.index
  inside : s'.index+8 < fa.faSize
  rdIdx : s'.rdIdx = s.found p fa
  sameMem : s.flash.SameMem s'.flash

theorem round_inl {s' : Scan} (h : scanRound p fa s = .inl s') : Onward p fa s s' := by
  by_cases hr : s.HeaderRead fa
  · by_cases hu : (s.header fa).magicState = recordUnused
    · rw [round_unused hr hu] at h
      cases h
    · rw [round_used hr hu] at h
      split at h
      · rename_i hb
        obtain rfl := Sum.inl.inj h
        exact ⟨hr, lt_scanNext p _ _, accepts_next, hb, rfl, behind_sameMem⟩
      · cases h
  · obtain ⟨fl, hfl⟩ := round_unread (p := p) hr
    rw [hfl] at h
    cases h

/-- A round that leaves the loop has met unused flash, or the end of the area. -/
theorem round_inr {r : (Option Nat × Option Nat) × Flash} (hr : s.HeaderRead fa) (h : scanRound p fa s = .inr r) :
    (r.1 = (s.rdIdx, some s.index) ∧ ¬s.Accepts p fa) ∨ r.1 = (s.found p fa, none) := by
  by_cases hu : (s.header fa).magicState = recordUnused
  · rw [round_unused hr hu] at h
    refine .inl ⟨by rw [← Sum.inr.inj h], fun ha => recordUnused_ne_valid ?_⟩
    rw [← hu, ha.2.1]
  · rw [round_used hr hu] at h
    split at h
    · cases h
    · exact .inr (by rw [← Sum.inr.inj h])

end Scan
open Scan

theorem initAreaLoop_ends (fl : Flash) :
    Ends (scanRound p fa) ⟨0, none, fl⟩ (initAreaLoop p fa fa.faSize 0 none fl) := by
  by_cases hz : fa.faSize = 0
  · have hout : flashAreaRead fa 0 sizeofStorageHeader fl = (none, fl) :=
      flashAreaRead_out (by simp only [sizeofStorageHeader]; omega) fl
    refine .stop ?_
    simp only [scanRound, hout, hz, initAreaLoop]
  · refine ends_bounded (fun s : Scan => s.index < fa.faSize) (fun s => fa.faSize-s.index)
      (fun n s => initAreaLoop p fa n s.index s.rdIdx s.flash) ?_ ?_ initAreaLoop_succ
      (Nat.pos_of_ne_zero hz) (Nat.sub_le fa.faSize 0)
    · intro s s' hs hr
      have h := round_inl hr
      have hb := h.inside
      have hi := h.ahead
      omega
    · intro s hs hb
      omega

/-- The scan as it starts, with the area opened and its first header read. -/
def scanStart (fl : Flash) : Scan := ⟨0, none, fl.tick.tick⟩

/-- The area is opened and starts with a record or with unused flash. -/
def ScanStarts (fa : FlashArea) (fl : Flash) : Prop :=
  fl.verdict 0 .access = true ∧ 8 ≤ fa.faSize ∧ fl.verdict 1 .read = true ∧
    ((headerAt (content fa fl.mem) 0).magicState = recordUnused ∨
      (headerAt (content fa fl.mem) 0).magicState = recordValid ∨
      (headerAt (content fa fl.mem) 0).magicState = recordInvalid)

/-- The scan meets `s` on its way over the area. -/
def Meets (p : Platform) (fa : FlashArea) (fl : Flash) (s : Scan) : Prop :=
  Reaches (scanRound p fa) (scanStart fl) s

def scanResult (p : Platform) (fa : FlashArea) (fl : Flash) : (Option Nat × Option Nat) × Flash :=
  initAreaLoop p fa fa.faSize 0 none fl.tick.tick

variable {fl : Flash} {s s' : Scan} {r : (Option Nat × Option Nat) × Flash}

theorem Meets.ends (h : Meets p fa fl s) : Ends (scanRound p fa) s (scanResult p fa fl) :=
  (initAreaLoop_ends fl.tick.tick).after h

/-- A header that cannot be read ends the scan without any index. -/
theorem Meets.unread (h : Meets p fa fl s) (hr : ¬s.HeaderRead fa) : (scanResult p fa fl).1 = (none, none) := by
  obtain ⟨fl', hfl⟩ := round_unread (p := p) hr
  rw [h.ends.result hfl]

theorem Meets.sameMem (h : Meets p fa fl s) : fl.SameMem s.flash := by
  have hround (s s' : Scan) (hs : fl.SameMem s.flash) (hr : scanRound p fa s = .inl s') : fl.SameMem s'.flash :=
    hs.trans (round_inl hr).sameMem
  exact Reaches.inv (fun s => fl.SameMem s.flash) hround h (fl.sameMem_tick.trans fl.tick.sameMem_tick)

/-- What the scan has found is a record it has accepted on its way. -/
theorem Meets.accepted {x : Nat} (h : Meets p fa fl s) (hx : s.rdIdx = some x) :
    ∃ s₀, Meets p fa fl s₀ ∧ s₀.Accepts p fa ∧ s₀.index = x := by
  induction h with
  | refl => cases hx
  | @tail s s' hs hr ih =>
    rw [(round_inl hr).rdIdx, found] at hx
    split at hx
    · rename_i ha
      exact ⟨s, hs, ha, Option.some.inj hx⟩
    · exact ih hx

/-- Once a record is found it stays, and the write index comes from behind. -/
theorem ends_found {x : Nat} (h : Ends (scanRound p fa) s r) (hx : s.rdIdx = some x)
    (hread : ∀ s', Reaches (scanRound p fa) s s' → s'.HeaderRead fa) :
    r.1 = (some x, none) ∨ ∃ w, r.1 = (some x, some w) ∧ s.index ≤ w ∧ w+8 ≤ fa.faSize := by
  have hstay {s : Scan} (hx : s.rdIdx = some x) : s.found p fa = some x := by
    have hn : ¬s.Accepts p fa := fun ha => by rw [ha.1] at hx; cases hx
    rw [found, if_neg hn, hx]
  induction h with
  | @stop s r hr =>
    have hhd := hread s (.refl s)
    obtain ⟨hu, -⟩ | hfull := round_inr hhd hr
    · exact .inr ⟨s.index, by rw [hu, hx], le_rfl, hhd.1⟩
    · exact .inl (by rw [hfull, hstay hx])
  | @next s s' r hr _ ih =>
    have hon := round_inl hr
    have hx' : s'.rdIdx = some x := hon.rdIdx.trans (hstay hx)
    obtain hn | ⟨w, hw, hle, hb⟩ := ih hx' fun s'' hs => hread s'' (Relation.ReflTransGen.head hr hs)
    · exact .inl hn
    · exact .inr ⟨w, hw, (le_of_lt hon.ahead).trans hle, hb⟩

/-- The record that is accepted becomes the read index; a write index found later is behind it. -/
theorem Meets.result (h : Meets p fa fl s) (ha : s.Accepts p fa)
    (hread : ∀ s, Meets p fa fl s → s.HeaderRead fa) :
    (scanResult p fa fl).1 = (some s.index, none) ∨ ∃ w, (scanResult p fa fl).1 = (some s.index, some w) ∧
      s.index+8+s.recordSize fa ≤ w ∧ w+8 ≤ fa.faSize := by
  have hfound : s.found p fa = some s.index := if_pos ha
  have hends := h.ends
  cases hr : scanRound p fa s with
  | inr r =>
    obtain ⟨-, hn⟩ | hfull := round_inr (hread s h) hr
    · exact absurd ha hn
    · rw [hends.result hr, hfull, hfound]
      exact .inl rfl
  | inl s' =>
    have hon := round_inl hr
    have hread' : ∀ s'', Reaches (scanRound p fa) s' s'' → s''.HeaderRead fa := fun s'' hs =>
      hread s'' (Relation.ReflTransGen.trans (h.snoc hr) hs)
    obtain hn | ⟨w, hw, hle, hb⟩ := ends_found (hends.rest hr) (hon.rdIdx.trans hfound) hread'
    · exact .inl hn
    · exact .inr ⟨w, hw, (hon.behind_record ha).trans hle, hb⟩

/-- `Meets.result` for the indices as `init_area` stores them. -/
theorem Meets.indices {rd wr : Option Nat} (h : Meets p fa fl s) (ha : s.Accepts p fa)
    (hread : ∀ s, Meets p fa fl s → s.HeaderRead fa) (hr : (scanResult p fa fl).1 = (rd, wr)) :
    rd = some s.index ∧ (wr.getD fa.faSize = fa.faSize ∨
      (s.index+8+s.recordSize fa ≤ wr.getD fa.faSize ∧ wr.getD fa.faSize ≤ fa.faSize)) := by
  obtain hn | ⟨w, hw, hle, hb⟩ := h.result ha hread
  · obtain ⟨rfl, rfl⟩ := Prod.mk.inj (hr.symm.trans hn)
    exact ⟨rfl, .inl rfl⟩
  · obtain ⟨rfl, rfl⟩ := Prod.mk.inj (hr.symm.trans hw)
    exact ⟨rfl, .inr ⟨hle, (Nat.le_add_right w 8).trans hb⟩⟩

/-! What `storage_init` makes of the scan. -/

/-- Without a scan that finds an index `init_area` gives up, with both indices 0. -/
theorem initArea_nothing (hopen : fl.verdict 0 .access = true)
    (h : ScanStarts fa fl → (scanResult p fa fl).1 = (none, none)) :
    (initArea p fa ⟨some fa, 0, 0⟩ fl.tick).1 = .invalidState ∧
      (initArea p fa ⟨some fa, 0, 0⟩ fl.tick).2.1 = ⟨some fa, 0, 0⟩ := by
  cases he : flashAreaRead fa 0 sizeofStorageHeader fl.tick with
  | mk first fl' =>
    cases first with
    | none => simp [initArea, he]
    | some data =>
      obtain ⟨hb, hv, rfl⟩ := flashAreaRead_success he
      have hd : StorageHeader.ofBytes data = headerAt (content fa fl.mem) 0 := by
        rw [(flashAreaRead_some he).2]
        rfl
      by_cases hseen : (headerAt (content fa fl.mem) 0).magicState ≠ recordUnused ∧
          (headerAt (content fa fl.mem) 0).magicState ≠ recordValid ∧
          (headerAt (content fa fl.mem) 0).magicState ≠ recordInvalid
      · simp [initArea, he, hd, hseen]
      · have hstart : ScanStarts fa fl := by
          refine ⟨hopen, by simpa [sizeofStorageHeader] using hb, hv, ?_⟩
          tauto
        have hscan := h hstart
        cases hres : scanResult p fa fl with
        | mk indices fl' =>
          rw [hres] at hscan
          rw [scanResult] at hres
          have hi : indices = (none, none) := hscan
          simp only [initArea, he, Option.getD_some, hd, hseen, hres, hi, reduceCtorEq, or_self, if_false, and_self]

theorem initArea_found (hs : ScanStarts fa fl) {rd wr : Option Nat} (hr : (scanResult p fa fl).1 = (rd, wr))
    (hne : ¬(rd = none ∧ wr = none)) :
    initArea p fa ⟨some fa, 0, 0⟩ fl.tick =
      (.success, ⟨some fa, wr.getD fa.faSize, rd.getD (wr.getD 0)⟩, (scanResult p fa fl).2) := by
  obtain ⟨-, hb, hv, hseen⟩ := hs
  have he : flashAreaRead fa 0 sizeofStorageHeader fl.tick = (some (slice (content fa fl.mem) 0 8), fl.tick.tick) :=
    flashAreaRead_carried_out (by simpa [sizeofStorageHeader] using hb) hv
  have hhd : StorageHeader.ofBytes (slice (content fa fl.mem) 0 8) = headerAt (content fa fl.mem) 0 := rfl
  have hrec : ¬((headerAt (content fa fl.mem) 0).magicState ≠ recordUnused ∧
      (headerAt (content fa fl.mem) 0).magicState ≠ recordValid ∧
      (headerAt (content fa fl.mem) 0).magicState ≠ recordInvalid) := by tauto
  cases hres : scanResult p fa fl with
  | mk indices fl' =>
    rw [hres] at hr
    rw [scanResult] at hres
    have hi : indices = (rd, wr) := hr
    simp only [initArea, he, Option.getD_some, hhd, hrec, hres, hi, reduceCtorEq, or_self, if_false]
    cases rd <;> cases wr <;> simp_all

theorem storageInit_nothing (h : ScanStarts fa fl → (scanResult p fa fl).1 = (none, none))
    (hret : (storageInit p fa fl).1 = .success) :
    (storageInit p fa fl).2.1.rdIdx = 0 ∧ (storageInit p fa fl).2.1.wrIdx = 0 := by
  by_cases hopen : fl.verdict 0 .access = true
  · obtain ⟨hinv, harea⟩ := initArea_nothing hopen h
    cases hi : initArea p fa ⟨some fa, 0, 0⟩ fl.tick with
    | mk ret rest =>
      obtain ⟨area, fl'⟩ := rest
      rw [hi] at hinv harea
      simp only at hinv harea
      simp only [storageInit, flashAreaOpen, hopen, hi, hinv, harea]
      split <;> exact ⟨rfl, rfl⟩
  · simp [storageInit, flashAreaOpen, hopen] at hret

theorem storageInit_found (hs : ScanStarts fa fl) {rd wr : Option Nat} (hr : (scanResult p fa fl).1 = (rd, wr))
    (hne : ¬(rd = none ∧ wr = none)) :
    storageInit p fa fl = (.success, ⟨some fa, wr.getD fa.faSize, rd.getD (wr.getD 0)⟩, (scanResult p fa fl).2) := by
  simp only [storageInit, flashAreaOpen, hs.1, initArea_found hs hr hne]

theorem scanResult_mem : (scanResult p fa fl).2.mem = fl.mem :=
  (initAreaLoop_sameMem p fa fa.faSize 0 none fl.tick.tick).mem

/-- The round in which the scan ended. -/
theorem scanResult_last (hread : ∀ s, Meets p fa fl s → s.HeaderRead fa) :
    ∃ s, Meets p fa fl s ∧ (((scanResult p fa fl).1 = (s.rdIdx, some s.index) ∧ ¬s.Accepts p fa) ∨
      (scanResult p fa fl).1 = (s.found p fa, none)) := by
  have hends : Ends (scanRound p fa) (scanStart fl) (scanResult p fa fl) := initAreaLoop_ends fl.tick.tick
  obtain ⟨s, hs, hr⟩ := hends.last
  exact ⟨s, hs, round_inr (hread s hs) hr⟩

theorem scanResult_accepted {x : Nat} (hread : ∀ s, Meets p fa fl s → s.HeaderRead fa)
    (hx : (scanResult p fa fl).1.1 = some x) : ∃ s, Meets p fa fl s ∧ s.Accepts p fa ∧ s.index = x := by
  obtain ⟨s, hs, ⟨hr, -⟩ | hr⟩ := scanResult_last hread <;> rw [hr] at hx
  · exact hs.accepted hx
  · simp only [found] at hx
    split at hx
    · rename_i ha
      exact ⟨s, hs, ha, Option.some.inj hx⟩
    · exact hs.accepted hx

/-- The record at `rd` is a valid one, ends at or before `wr`, and its CRC is that of its payload. -/
structure RecordUpTo (p : Platform) (c : Mem) (rd wr : Nat) : Prop where
  magic : (headerAt c rd).magicState = recordValid
  inside : rd+8+(headerAt c rd).recordSize.toNat ≤ wr
  crc : (headerAt c rd).crc16 = crc16Ccitt p 0xffff (slice c (rd+8) (headerAt c rd).recordSize.toNat)

instance (p : Platform) (c : Mem) (rd wr : Nat) : Decidable (RecordUpTo p c rd wr) :=
  decidable_of_iff ((headerAt c rd).magicState = recordValid ∧ rd+8+(headerAt c rd).recordSize.toNat ≤ wr ∧
      (headerAt c rd).crc16 = crc16Ccitt p 0xffff (slice c (rd+8) (headerAt c rd).recordSize.toNat))
    ⟨fun h => ⟨h.1, h.2.1, h.2.2⟩, fun h => ⟨h.magic, h.inside, h.crc⟩⟩

/-- What a successful `storage_init` promises of the indices. -/
def InitSound (p : Platform) (fa : FlashArea) (r : RetCode × StorageArea × Flash) : Prop :=
  r.1 = .success → (r.2.1.rdIdx ≤ r.2.1.wrIdx ∧ r.2.1.wrIdx ≤ fa.faSize) ∧
    (r.2.1.rdIdx < r.2.1.wrIdx → RecordUpTo p (content fa r.2.2.mem) r.2.1.rdIdx r.2.1.wrIdx)

instance (p : Platform) (fa : FlashArea) (r : RetCode × StorageArea × Flash) : Decidable (InitSound p fa r) :=
  inferInstanceAs (Decidable (_ → (_ ∧ _) ∧ (_ → _)))

theorem initSound_empty {area : StorageArea} {ret : RetCode} {n : Nat} (hrd : area.rdIdx = n) (hwr : area.wrIdx = n)
    (hn : n ≤ fa.faSize) : InitSound p fa (ret, area, fl) := by
  intro _
  simp only [hrd, hwr]
  exact ⟨⟨le_rfl, hn⟩, fun hlt => absurd hlt (lt_irrefl n)⟩

/-- Behind an accepted record the write index is too, so only the end of the area can cut it off. -/
theorem recordUpTo_iff_covers {wr : Nat} (hs : Meets p fa fl s) (ha : s.Accepts p fa)
    (hwr : wr = fa.faSize ∨ (s.index+8+s.recordSize fa ≤ wr ∧ wr ≤ fa.faSize)) :
    RecordUpTo p (content fa fl.mem) s.index wr ↔ s.Covers p fa := by
  have hbytes : s.bytes fa = content fa fl.mem := by rw [bytes, hs.sameMem.mem]
  have hhd : headerAt (content fa fl.mem) s.index = s.header fa := by rw [header, hbytes]
  have hinside : s.index+8+s.recordSize fa ≤ wr ↔ s.index+8+s.recordSize fa ≤ fa.faSize := by omega
  rw [Covers, ← hinside, ← ha.2.2, hbytes]
  constructor
  · intro h
    have hin := h.inside
    have hcrc := h.crc
    rw [hhd] at hin hcrc
    exact ⟨hin, hcrc⟩
  · rintro ⟨hin, hcrc⟩
    exact ⟨by rw [hhd]; exact ha.2.1, by rw [hhd]; exact hin, by rw [hhd]; exact hcrc⟩

/-- Which inputs keep the promise: the first record that the scan takes for a good one is inside the area,
and no chunk that was not read hides a wrong CRC. -/
def ScanExact (p : Platform) (fa : FlashArea) (fl : Flash) : Prop :=
  ScanStarts fa fl → (∀ s, Meets p fa fl s → s.HeaderRead fa) →
    ∀ s, Meets p fa fl s → s.Accepts p fa → s.Covers p fa

theorem scanResult_empty {w : Nat} (hr : (scanResult p fa fl).1 = (none, some w))
    (hread : ∀ s, Meets p fa fl s → s.HeaderRead fa) : w ≤ fa.faSize := by
  obtain ⟨s, hm, ⟨hres, -⟩ | hres⟩ := scanResult_last hread
  · have hin := (hread s hm).1
    obtain rfl := Option.some.inj (Prod.mk.inj (hr.symm.trans hres)).2
    omega
  · exact absurd (Prod.mk.inj (hr.symm.trans hres)).2 (by simp)

/-- Where the scan finds indices, what it leaves depends on the record it has accepted. -/
theorem initSound_found (hs : ScanStarts fa fl) {rd wr : Option Nat} (hr : (scanResult p fa fl).1 = (rd, wr))
    (hne : ¬(rd = none ∧ wr = none)) (hread : ∀ s, Meets p fa fl s → s.HeaderRead fa) :
    (rd.getD (wr.getD 0) ≤ wr.getD fa.faSize ∧ wr.getD fa.faSize ≤ fa.faSize) ∧
      (InitSound p fa (storageInit p fa fl) ↔ ∀ s, Meets p fa fl s → s.Accepts p fa → s.Covers p fa) := by
  rw [storageInit_found hs hr hne]
  cases rd with
  | none =>
    -- nothing was accepted: both indices are that of the unused flash
    obtain ⟨w, rfl⟩ := Option.ne_none_iff_exists'.mp fun hw => hne ⟨rfl, hw⟩
    have hw : w ≤ fa.faSize := scanResult_empty hr hread
    have hno (s : Scan) (hm : Meets p fa fl s) (ha : s.Accepts p fa) : s.Covers p fa :=
      absurd (hm.indices ha hread hr).1 (by simp)
    exact ⟨⟨le_rfl, hw⟩, fun _ => hno, fun _ => initSound_empty rfl rfl hw⟩
  | some x =>
    obtain ⟨s, hm, ha, rfl⟩ := scanResult_accepted hread (by rw [hr])
    obtain ⟨-, hwr⟩ := hm.indices ha hread hr
    have hin := (hread s hm).1
    have hlt : s.index < wr.getD fa.faSize := by omega
    have hle : wr.getD fa.faSize ≤ fa.faSize := by omega
    refine ⟨⟨le_of_lt hlt, hle⟩, ?_, ?_⟩
    · intro h s' hm' ha'
      obtain ⟨hx, hwr'⟩ := hm'.indices ha' hread hr
      have hrec := (h rfl).2 hlt
      rw [scanResult_mem] at hrec
      simp only [Option.getD_some] at hrec
      rw [Option.some.inj hx] at hrec
      exact (recordUpTo_iff_covers hm' ha' hwr').mp hrec
    · intro h _
      rw [scanResult_mem]
      exact ⟨⟨le_of_lt hlt, hle⟩, fun _ => (recordUpTo_iff_covers hm ha hwr).mpr (h s hm ha)⟩

/-- Where no read is refused only the end of the area can make a record a wrong one. -/
theorem scanExact_granted (hg : fl.Grants .read) : ScanExact p fa fl ↔
    (ScanStarts fa fl → (∀ s, Meets p fa fl s → s.HeaderRead fa) →
      ∀ s, Meets p fa fl s → s.Accepts p fa → s.index+8+s.recordSize fa ≤ fa.faSize) := by
  have hcovers (s : Scan) (hm : Meets p fa fl s) (hb : s.index+8+s.recordSize fa ≤ fa.faSize) : s.Covers p fa := by
    have hgs : s.flash.tick.Grants .read := (hm.sameMem.later.trans s.flash.later_tick).grants hg
    refine ⟨hb, ?_⟩
    rw [recordRead, chunksRead_granted hgs hb (by omega)]
    rfl
  exact ⟨fun h hs hread s hm ha => (h hs hread s hm ha).1,
    fun h hs hread s hm ha => hcovers s hm (h hs hread s hm ha)⟩

/-- Where it finds none, both are 0. -/
theorem initSound_nothing (h : ScanStarts fa fl → (scanResult p fa fl).1 = (none, none)) :
    InitSound p fa (storageInit p fa fl) ∧ ScanExact p fa fl := by
  refine ⟨fun hret => ?_, fun hs hread s hm ha => ?_⟩
  · obtain ⟨hrd, hwr⟩ := storageInit_nothing h hret
    exact initSound_empty hrd hwr (Nat.zero_le _) hret
  · obtain ⟨hx, -⟩ := hm.indices ha hread (h hs)
    cases hx

/-- The loops of `storage_init` end with what the bounded ones compute; the indices of a successful call are
in order and in the area; the record between them is what it should be exactly where `ScanExact` says so. -/
theorem storage_init_sound_iff (p : Platform) (fa : FlashArea) (fl : Flash) :
    (∀ index size fl, Ends (crcRound p fa index size) (0, 0xffff, fl)
      (initAreaCrc p fa index size size 0 0xffff fl)) ∧
    (∀ fl, Ends (scanRound p fa) ⟨0, none, fl⟩ (initAreaLoop p fa fa.faSize 0 none fl)) ∧
    ((storageInit p fa fl).1 = .success → (storageInit p fa fl).2.1.rdIdx ≤ (storageInit p fa fl).2.1.wrIdx ∧
      (storageInit p fa fl).2.1.wrIdx ≤ fa.faSize) ∧
    (InitSound p fa (storageInit p fa fl) ↔ ScanExact p fa fl) := by
  refine ⟨fun index size fl => initAreaCrc_ends index size fl, fun fl => initAreaLoop_ends fl, ?_⟩
  by_cases hnone : ScanStarts fa fl → (scanResult p fa fl).1 = (none, none)
  · obtain ⟨hsound, hexact⟩ := initSound_nothing hnone
    exact ⟨fun hret => (hsound hret).1, fun _ => hexact, fun _ => hsound⟩
  · obtain ⟨hs, hsome⟩ := Classical.not_imp.mp hnone
    have hread (s : Scan) (hm : Meets p fa fl s) : s.HeaderRead fa := by
      by_contra hr
      exact hsome (hm.unread hr)
    cases hr : (scanResult p fa fl).1 with
    | mk rd wr =>
      have hne : ¬(rd = none ∧ wr = none) := by
        rintro ⟨rfl, rfl⟩
        exact hsome hr
      obtain ⟨hb, hiff⟩ := initSound_found hs hr hne hread
      refine ⟨?_, hiff.trans ⟨fun h _ _ => h, fun h => h hs hread⟩⟩
      rw [storageInit_found hs hr hne]
      exact fun _ => hb

/-- An erased Pearl board but for a record header at the start of the storage partition, and its payload. -/
def onlyRecord (size crc16 : UInt16) (record : List UInt8) : Mem :=
  program (fun _ => 0xff) 0x7E000 (StorageHeader.bytes ⟨recordValid, size, crc16, unusedUint16⟩ ++ record)

/-- A record whose CRC is that of its three bytes, on a device without faults. -/
theorem storage_init_sound_pearl :
    (storageInit (.of .pearl) (storagePartition .pearl) (.ok (onlyRecord 3 0x62c4 [1, 2, 3]))).1 = .success ∧
      ScanExact (.of .pearl) (storagePartition .pearl) (.ok (onlyRecord 3 0x62c4 [1, 2, 3])) :=
  ⟨by decide +kernel, (storage_init_sound_iff _ _ _).2.2.2.mp (by decide +kernel)⟩

/-- A record of 4089 bytes ends one byte behind the area; its CRC is that of the 63 chunks before the last.
A record of three bytes has the CRC of none, and its only chunk is not read. -/
theorem accepts_half_read_records :
    ¬InitSound (.of .pearl) (storagePartition .pearl)
      (storageInit (.of .pearl) (storagePartition .pearl) (.ok (onlyRecord 4089 0x1654 []))) ∧
    ¬InitSound (.of .pearl) (storagePartition .pearl)
      (storageInit (.of .pearl) (storagePartition .pearl) ⟨onlyRecord 3 0xffff [1, 2, 3], fun n _ => n ≠ 3⟩) := by
  decide +kernel

end OrbFirmware.Storage

import OrbFirmware.Storage.Faults
import OrbFirmware.Storage.PowerLoss

/-! Runs of calls that power losses interrupt between any two flash operations, in `storage_init` too. -/
namespace OrbFirmware.Storage
open Nor

/-- A call that returns, or one in which power is lost after `k` flash operations; `storage_init` then
loses power itself after each number of operations in `inits`, until it gets through. -/
inductive PowerAction where
  | call (op : StorageOp)
  | lose (op : StorageOp) (k : Nat) (inits : List Nat)
  deriving DecidableEq, Repr

/-- What a call that power is lost in leaves in flash. -/
def lostCall (p : Platform) (s : StorageState) (k : Nat) : StorageOp → Mem
  | .push record => (storagePush p s.area record (.cut s.mem k)).2.2.mem
  | .peek size => (storagePeek p s.area size (.cut s.mem k)).2.2.mem
  | .free => (storageFree p s.area (.cut s.mem k)).2.2.mem
  | .isLastRecord => (storageIsLastRecord p s.area (.cut s.mem k)).2.mem
  | .hasData => s.mem

def lostInits (p : Platform) (fa : FlashArea) (m : Mem) : List Nat → Mem
  | [] => m
  | k :: inits => lostInits p fa (storageInit p fa (.cut m k)).2.2.mem inits

def powerStep (p : Platform) (fa : FlashArea) (s : StorageState) : PowerAction → StorageOut × StorageState
  | .call op => storageStep p s op
  | .lose op k inits =>
    let (ret, s) := storageBoot p fa (lostInits p fa (lostCall p s k op) inits)
    (.code ret, s)

variable {p : Platform} {fa : FlashArea} {area : StorageArea} {s : StorageState} {m m' : Mem} {c : Mem}
  {q : Queue} {record : List UInt8} {k size rd w : Nat}

/-! What an interrupted call can do to the flash. -/

/-- A call that stores nothing: the flash is as it was, or the area is erased. -/
def KeptOrErased (fa : FlashArea) (m m' : Mem) : Prop := m' = m ∨ Erased (content fa m') 0 fa.faSize

theorem KeptOrErased.refl (fa : FlashArea) (m : Mem) : KeptOrErased fa m m := .inl rfl

theorem KeptOrErased.trans {m'' : Mem} (h : KeptOrErased fa m m') (h' : KeptOrErased fa m' m'') :
    KeptOrErased fa m m'' := by
  cases h' with
  | inl he => rwa [he]
  | inr he => exact .inr he

theorem keptOrErased_erase (fa : FlashArea) (fl : Flash) : KeptOrErased fa fl.mem (flashAreaErase fa 0 fa.faSize fl).2.mem := by
  simp only [flashAreaErase]
  split
  · exact .refl fa fl.mem
  · split
    · exact .inr (erasedFrom_erase (fun _ _ => rfl)).erased
    · exact .refl fa fl.mem

theorem keptOrErased_reset (p : Platform) (fa : FlashArea) (area : StorageArea) (fl : Flash) :
    KeptOrErased fa fl.mem (resetArea p fa area fl).2.mem := by
  have hm : (resetArea p fa area fl).2.mem = (flashAreaErase fa 0 fa.faSize fl).2.mem :=
    (initArea_sameMem p fa area _).mem
  rw [hm]
  exact keptOrErased_erase fa fl

theorem keptOrErased_init (p : Platform) (fa : FlashArea) (fl : Flash) :
    KeptOrErased fa fl.mem (storageInit p fa fl).2.2.mem := by
  have hopen : (flashAreaOpen fl).2.mem = fl.mem := rfl
  cases h1 : flashAreaOpen fl with
  | mk ok fl₁ =>
    rw [h1] at hopen
    cases ok with
    | false =>
      simp only [storageInit, h1]
      exact .inl hopen
    | true =>
      have hscan := (initArea_sameMem p fa ⟨some fa, 0, 0⟩ fl₁).mem
      cases h2 : initArea p fa ⟨some fa, 0, 0⟩ fl₁ with
      | mk ret rest =>
        obtain ⟨area, fl₂⟩ := rest
        rw [h2] at hscan
        have hmem : fl₂.mem = fl.mem := hscan.trans hopen
        have herase := keptOrErased_erase fa fl₂
        rw [hmem] at herase
        cases h3 : flashAreaErase fa 0 fa.faSize fl₂ with
        | mk ok fl₃ =>
          rw [h3] at herase
          cases ret <;> simp only [storageInit, h1, h2, h3] <;> first | exact .inl hmem | cases ok <;> exact herase

theorem keptOrErased_inits (p : Platform) (fa : FlashArea) (m : Mem) (inits : List Nat) :
    KeptOrErased fa m (lostInits p fa m inits) := by
  induction inits generalizing m with
  | nil => exact .refl fa m
  | cons k inits ih => exact (keptOrErased_init p fa (.cut m k)).trans (ih _)

theorem keptOrErased_peek (hfa : area.fa = some fa) (size : Nat) (fl : Flash) :
    KeptOrErased fa fl.mem (storagePeek p area size fl).2.2.mem := by
  have hreset {fl' : Flash} (hs : fl.SameMem fl') : KeptOrErased fa fl.mem (resetArea p fa area fl').2.mem := by
    rw [← hs.mem]
    exact keptOrErased_reset p fa area fl'
  have h1 := flashAreaRead_sameMem fa area.rdIdx sizeofStorageHeader fl
  simp only [storagePeek, hfa]
  split
  · exact .refl fa fl.mem
  · split
    · rename_i fl₁ he
      rw [he] at h1
      exact hreset h1
    · rename_i data fl₁ he
      rw [he] at h1
      split
      · exact .inl h1.mem
      · have h2 := h1.trans (flashAreaRead_sameMem fa (area.rdIdx+sizeofStorageHeader)
          (StorageHeader.ofBytes data).recordSize.toNat fl₁)
        split
        · rename_i fl₂ he
          rw [he] at h2
          exact hreset h2
        · rename_i buffer fl₂ he
          rw [he] at h2
          split
          · exact hreset h2
          · exact .inl h2.mem

theorem storageIsLastRecord_mem (p : Platform) (area : StorageArea) (fl : Flash) :
    (storageIsLastRecord p area fl).2.mem = fl.mem := by
  cases hfa : area.fa with
  | none => simp only [storageIsLastRecord, hfa]
  | some fa =>
    have h1 := flashAreaRead_sameMem fa area.rdIdx sizeofStorageHeader fl
    simp only [storageIsLastRecord, hfa]
    split
    · rfl
    · split
      · rename_i fl₁ he
        rw [he] at h1
        exact h1.mem
      · rename_i data fl₁ he
        rw [he] at h1
        split <;> exact h1.mem

/-- Where no valid header is at the read index, `storage_free` touches nothing. -/
theorem storageFree_idle (hfa : area.fa = some fa) (fl : Flash)
    (hv : area.rdIdx+8 ≤ fa.faSize → (headerAt (content fa fl.mem) area.rdIdx).magicState ≠ recordValid) :
    (storageFree p area fl).2.2.mem = fl.mem := by
  have h1 := flashAreaRead_sameMem fa area.rdIdx sizeofStorageHeader fl
  cases hr : flashAreaRead fa area.rdIdx sizeofStorageHeader fl with
  | mk data fl₁ =>
    rw [hr] at h1
    have hn : (StorageHeader.ofBytes (data.getD [])).magicState ≠ recordValid := by
      cases data with
      | none => decide
      | some data =>
        obtain ⟨hb, hd⟩ := flashAreaRead_some hr
        rw [Option.getD_some, hd]
        exact hv (by simpa [sizeofStorageHeader] using hb)
    simp only [storageFree, hfa, hr, if_pos hn]
    exact h1.mem

/-- An interrupted `storage_free`: read, write of the zero header, erase if the queue drained. -/
theorem storageFree_cut (hfa : area.fa = some fa) (hal : p.blk ∣ area.rdIdx) (hb : area.rdIdx+8 ≤ fa.faSize)
    (hv : (headerAt (content fa m) area.rdIdx).magicState = recordValid)
    (hs : (headerAt (content fa m) area.rdIdx).recordSize.toNat = size) (k : Nat) :
    (storageFree p area (.cut m k)).2.2.mem =
      if k < 2 then m
      else if area.wrIdx ≤ area.rdIdx+recordSpan p size ∧ fa.faSize-area.wrIdx < minimumEmptySpace ∧ 2 < k then
        erase (zeroHeader m (fa.faOff+area.rdIdx)) fa.faOff fa.faSize
      else zeroHeader m (fa.faOff+area.rdIdx) := by
  have hz : (StorageHeader.ofBytes ([] : List UInt8)).magicState ≠ recordValid := by decide
  have hread := flashAreaRead_cut (show area.rdIdx+sizeofStorageHeader ≤ fa.faSize from hb) m k
  have hhd : StorageHeader.ofBytes (slice (content fa m) area.rdIdx sizeofStorageHeader) =
    headerAt (content fa m) area.rdIdx := rfl
  have hzeros : deviceWrite p.board m (fa.faOff+area.rdIdx) (List.replicate 8 0) =
      (true, zeroHeader m (fa.faOff+area.rdIdx)) := by
    have hw := deviceWrite_zeros (m := m) (Nat.dvd_add (faOff_aligned p.board fa) hal)
    exact Prod.ext hw (deviceWrite_true hw)
  have hwrite : flashAreaWrite p.board fa area.rdIdx (List.replicate sizeofStorageHeader 0) (.cut m (k-1)) =
      if 0 < k-1 then (true, .cut (zeroHeader m (fa.faOff+area.rdIdx)) (k-1-1)) else (false, .cut m (k-1-1)) := by
    simp only [flashAreaWrite, sizeofStorageHeader, List.length_replicate, if_neg (not_lt.mpr hb), Flash.cut_mem,
      hzeros, Flash.cut_tick, Flash.cut_set]
    by_cases hk : 0 < k-1 <;> simp [Flash.cut, hk]
  by_cases h0 : 0 < k
  · by_cases h1 : 0 < k-1
    · have h2 : ¬ k < 2 := by omega
      simp only [storageFree, hfa, hread, if_pos h0, Option.getD_some, hhd, hv, hs, ne_eq, not_true_eq_false,
        if_false, hwrite, if_pos h1, if_neg h2]
      by_cases hdrain : area.wrIdx ≤ area.rdIdx+recordSpan p size ∧ fa.faSize-area.wrIdx < minimumEmptySpace
      · by_cases h3 : 2 < k
        · rw [if_pos hdrain, if_pos ⟨hdrain.1, hdrain.2, h3⟩]
          have hv3 : (Flash.cut (zeroHeader m (fa.faOff+area.rdIdx)) (k-1-1)).verdict 0 .erase = true :=
            decide_eq_true (by omega)
          exact (resetArea_erased hv3).2
        · rw [if_pos hdrain, if_neg (fun h => h3 h.2.2), show k-1-1 = 0 by omega]
          exact resetArea_off _ _
      · rw [if_neg hdrain, if_neg (fun h => hdrain ⟨h.1, h.2.1⟩)]
        rfl
    · have h2 : k < 2 := by omega
      simp only [storageFree, hfa, hread, if_pos h0, Option.getD_some, hhd, hv, ne_eq, not_true_eq_false,
        if_false, hwrite, if_neg h1, if_pos h2]
      rfl
  · simp only [storageFree, hfa, hread, if_neg h0, Option.getD_none, if_pos hz, if_pos (show k < 2 by omega)]
    rfl

/-! An interrupted push over any content. -/

theorem Flash.Later.cut {fl : Flash} (h : (Flash.cut m k).Later fl) : ∃ k', fl = .cut fl.mem k' := by
  obtain ⟨j, hj⟩ := h
  obtain ⟨mem, verdict⟩ := fl
  refine ⟨k-j, ?_⟩
  have hv : verdict = (Flash.cut mem (k-j)).verdict := by
    rw [show verdict = _ from hj]
    funext n op
    exact decide_eq_decide.mpr (by omega)
  rw [hv]
  rfl

/-- A write that goes through would have gone through on a device without faults. -/
theorem flashAreaWrite_accepted {off : Nat} {data : List UInt8} {fl fl' : Flash}
    (h : flashAreaWrite p.board fa off data fl = (true, fl')) :
    flashAreaWrite p.board fa off data (.ok fl.mem) = (true, .ok fl'.mem) := by
  simp only [flashAreaWrite, Flash.ok_verdict, Flash.ok_mem, if_true, Flash.ok_set] at h ⊢
  split at h
  · simp at h
  · rename_i hb
    rw [if_neg hb]
    split at h
    · obtain ⟨hret, rfl⟩ := Prod.mk.inj h
      rw [hret]
      rfl
    · simp at h

theorem writeRecord_accepted {off : Nat} {fl fl' : Flash} (h : writeRecord p fa off record fl = (true, fl')) :
    writeRecord p fa off record (.ok fl.mem) = (true, .ok fl'.mem) := by
  simp only [writeRecord] at h ⊢
  split at h
  · simp at h
  · rename_i fl₁ h1
    rw [flashAreaWrite_accepted h1]
    by_cases hr : record.length % p.blk ≠ 0
    · simp only [if_pos hr] at h ⊢
      exact flashAreaWrite_accepted h
    · simp only [if_neg hr] at h ⊢
      rw [(Prod.mk.inj h).2]

/-- A single block is written or not. -/
theorem flashAreaWrite_refused {off : Nat} {data : List UInt8} {fl fl' : Flash} (hlen : data.length = 8)
    (h : flashAreaWrite p.board fa off data fl = (false, fl')) : fl'.mem = fl.mem := by
  simp only [flashAreaWrite] at h
  split at h
  · rw [← (Prod.mk.inj h).2]
  · split at h
    · obtain ⟨hret, rfl⟩ := Prod.mk.inj h
      cases hb : p.board with
      | diamond => simp [hb, deviceWrite] at hret
      | pearl =>
        simp only [hb, deviceWrite, hlen, programBlocks, Flash.set_mem] at hret ⊢
        split
        · rename_i hal
          rw [if_pos hal] at hret
          split
          · rename_i hok
            simp [hok] at hret
          · rfl
        · rfl
    · rw [← (Prod.mk.inj h).2]
      rfl

/-- However far an interrupted push got: nothing up to the header at the write index has changed, or
the area is erased, or the push is complete in flash. -/
theorem storagePush_cut (hfa : area.fa = some fa) (hal : p.blk ∣ area.wrIdx) (record : List UInt8) (m : Mem)
    (k : Nat) :
    AgreeOn (content fa m) (content fa (storagePush p area record (.cut m k)).2.2.mem) 0 (area.wrIdx+8) ∨
    Erased (content fa (storagePush p area record (.cut m k)).2.2.mem) 0 fa.faSize ∨
    (record ≠ [] ∧ area.wrIdx+recordSpan p record.length ≤ fa.faSize ∧
      PushAccepted p (content fa m) area.wrIdx record ∧
      content fa (storagePush p area record (.cut m k)).2.2.mem = pushed p (content fa m) area.wrIdx record) := by
  have hreset (fl : Flash) (ha : AgreeOn (content fa m) (content fa fl.mem) 0 (area.wrIdx+8)) :
      AgreeOn (content fa m) (content fa (resetArea p fa area fl).2.mem) 0 (area.wrIdx+8) ∨
      Erased (content fa (resetArea p fa area fl).2.mem) 0 fa.faSize := by
    cases keptOrErased_reset p fa area fl with
    | inl hm => exact .inl (hm ▸ ha)
    | inr he => exact .inr he
  by_cases hparam : record = [] ∨ fa.faSize < record.length
  · rw [storagePush_invalidParam hfa hparam]
    exact .inl fun _ _ _ => rfl
  · obtain ⟨hne, hlong⟩ := not_or.mp hparam
    by_cases hfull : fa.faSize < area.wrIdx+recordSpan p record.length
    · rw [storagePush_noMem hfa hparam hfull]
      exact .inl fun _ _ _ => rfl
    · have hlen := length_paddedRecord p record
      have hspan := le_recordSpan p record.length
      have hz : record.length ≠ 0 := by simpa using hne
      have hal8 : p.blk ∣ area.wrIdx+8 := Nat.dvd_add hal (blk_dvd_eight p)
      obtain ⟨hl1, hout1, hmem1⟩ := writeRecord_faults p fa (area.wrIdx+8) record (.cut m k)
      simp only [storagePush, if_neg hz, hfa, if_neg hlong, if_neg hfull, sizeofStorageHeader]
      cases h1 : writeRecord p fa (area.wrIdx+8) record (.cut m k) with
      | mk ok fl₁ =>
        rw [h1] at hl1 hout1 hmem1
        have hbelow : AgreeOn (content fa m) (content fa fl₁.mem) 0 (area.wrIdx+8) :=
          fun a _ h2 => (hout1 (fa.faOff+a) (.inl (by omega))).symm
        cases ok with
        | false =>
          cases hreset fl₁ hbelow with
          | inl ha => exact .inl ha
          | inr he => exact .inr (.inl he)
        | true =>
          obtain ⟨k1, hk1⟩ := Flash.Later.cut hl1
          obtain ⟨k2, hfl2, hback⟩ := readBackRecord_cut (p := p) (m := fl₁.mem)
            (show area.wrIdx+8+record.length ≤ fa.faSize by omega) k1
          rw [← hk1] at hfl2 hback
          cases h2 : readBackRecord p fa (area.wrIdx+8) record.length fl₁ with
          | mk record' fl₂ =>
            rw [h2] at hfl2 hback
            have hm2 : fl₂.mem = fl₁.mem := by
              rw [show fl₂ = _ from hfl2]
              rfl
            have hbelow2 : AgreeOn (content fa m) (content fa fl₂.mem) 0 (area.wrIdx+8) := by rwa [hm2]
            simp only [h2, headerOf_crc16]
            by_cases hcrc : crc16Ccitt p 0xffff record = crc16Ccitt p 0xffff record'
            · simp only [hcrc, ne_eq, not_true_eq_false, if_false]
              cases h3 : flashAreaWrite p.board fa area.wrIdx (headerOf p record).bytes fl₂ with
              | mk ok fl₃ =>
                cases ok with
                | false =>
                  have hm3 := flashAreaWrite_refused (length_bytes _) h3
                  cases hreset fl₃ (by rwa [hm3]) with
                  | inl ha => exact .inl ha
                  | inr he => exact .inr (.inl he)
                | true =>
                  -- power was on to the end: the record was read back, and the flash took all of it
                  obtain ⟨-, hm3⟩ := flashAreaWrite_true h3
                  have hm1 : fl₁.mem = program m (fa.faOff+(area.wrIdx+8)) (paddedRecord p record) := hmem1 rfl
                  have hc1 : content fa fl₁.mem = program (content fa m) (area.wrIdx+8) (paddedRecord p record) := by
                    rw [hm1, content_program]
                  have hpower : 0 < k2 := by
                    by_contra hoff
                    have hk : k2 = 0 := by omega
                    have hfl : fl₂ = .cut fl₁.mem 0 := by rw [← hk, ← show fl₂ = _ from hfl2]
                    rw [hfl] at h3
                    simp only [flashAreaWrite, Flash.cut] at h3
                    split at h3 <;> simp at h3
                  have hpay := writeRecord_accepted h1
                  have hhead := flashAreaWrite_accepted h3
                  rw [Flash.cut_mem, writeRecord_ok hal8 (by omega)] at hpay
                  rw [flashAreaWrite_ok (by simp only [length_bytes, sizeofStorageHeader]; omega), hm2, hc1] at hhead
                  refine .inr (.inr ⟨hne, not_lt.mp hfull, ⟨congrArg Prod.fst hpay, ?_, congrArg Prod.fst hhead⟩, ?_⟩)
                  · rw [← hc1, ← hback hpower]
                    exact hcrc.symm
                  · rw [hm3, content_program, hm2, hc1]
                    rfl
            · simp only [hcrc, ne_eq, not_false_eq_true, if_true]
              cases hreset fl₂ hbelow2 with
              | inl ha => exact .inl ha
              | inr he => exact .inr (.inl he)

/-! The queue in flash, at any point of such a run. -/

/-- Behind the freed records lies a queue, and behind it erased flash for a header. -/
structure Kept (p : Platform) (fa : FlashArea) (m : Mem) (rd w : Nat) (q : Queue) : Prop where
  aligned : p.blk ∣ rd
  freed : 0 < rd → 8 ≤ rd ∧ (headerAt (content fa m) 0).magicState = recordInvalid
  queued : Queued p (content fa m) rd q w
  nonempty : ∀ record ∈ q, record ≠ []
  bounded : w ≤ fa.faSize
  erased : Erased (content fa m) w (min (w+8) fa.faSize)

theorem kept_of_erased (p : Platform) (h : Erased (content fa m) 0 fa.faSize) : Kept p fa m 0 0 [] :=
  ⟨dvd_zero _, fun h0 => absurd h0 (lt_irrefl 0), rfl, fun _ hr => absurd hr List.not_mem_nil, Nat.zero_le _,
    h.mono le_rfl (Nat.min_le_right _ _)⟩

theorem Kept.congr (h : Kept p fa m rd w q)
    (ha : AgreeOn (content fa m) (content fa m') 0 (min (w+8) fa.faSize)) : Kept p fa m' rd w q := by
  have hle := h.queued.le
  have hb := h.bounded
  refine ⟨h.aligned, fun h0 => ?_, h.queued.congr (ha.mono (Nat.zero_le _) (by omega)), h.nonempty, hb,
    h.erased.congr (ha.mono (Nat.zero_le _) le_rfl)⟩
  obtain ⟨h8, hm⟩ := h.freed h0
  rw [← headerAt_congr (ha.mono le_rfl (by omega))]
  exact ⟨h8, hm⟩

theorem Kept.scannable (h : Kept p fa m rd w q) (hclean : NoMisread p (content fa m) rd) :
    Scannable p fa m rd w q :=
  ⟨h.aligned, h.freed, hclean, h.queued, h.nonempty, h.bounded,
    fun hfit => headerAt_erased h.erased (by simp only [sizeofStorageHeader] at hfit; omega)⟩

/-- Freeing the head of the queue. -/
theorem Kept.free (h : Kept p fa m rd w (record :: q)) :
    Kept p fa (zeroHeader m (fa.faOff+rd)) (rd+recordSpan p record.length) w q := by
  obtain ⟨hr, htail⟩ := h.queued
  have hs := le_recordSpan p record.length
  have hle := htail.le
  have hb := h.bounded
  have hout {a : Nat} (ha : a < rd ∨ rd+8 ≤ a) :
      content fa m a = content fa (zeroHeader m (fa.faOff+rd)) a := (content_zeroHeader ha).symm
  refine ⟨Nat.dvd_add h.aligned (recordSpan_dvd p record.length), fun _ => ⟨by omega, ?_⟩,
    htail.congr (fun a h1 h2 => hout (by omega)), fun r hr => h.nonempty r (List.mem_cons_of_mem record hr), hb,
    h.erased.congr (fun a h1 h2 => hout (by omega))⟩
  by_cases h0 : rd = 0
  · have hz : headerAt (content fa (zeroHeader m (fa.faOff+rd))) 0 = ⟨0, 0, 0, 0⟩ := by
      rw [zeroHeader, content_program, h0]
      exact headerAt_zeros (slice_program_zeros _ 0 8)
    rw [hz]
    rfl
  · obtain ⟨h8, hm⟩ := h.freed (by omega)
    rw [← hm, headerAt_congr (fun a h1 h2 => (hout (by omega)).symm)]

/-- What a push leaves in flash that goes through over leftovers: a record of the same length and CRC. -/
def storedRecord (p : Platform) (c : Mem) (wr : Nat) (record : List UInt8) : List UInt8 :=
  slice (pushed p c wr record) (wr+8) record.length

theorem pushed_storedRecord (hlen : record.length < 0x10000) {wr : Nat} (hhead : Erased c wr (wr+8))
    (hacc : PushAccepted p c wr record) :
    RecordAt p (pushed p c wr record) wr (storedRecord p c wr record) := by
  have hl : (storedRecord p c wr record).length = record.length := slice_length _ _ _
  have hz : Erased (program c (wr+8) (paddedRecord p record)) wr (wr+(headerOf p record).bytes.length) := by
    intro a h1 h2
    simp only [length_bytes, sizeofStorageHeader] at h2
    rw [program_outside (by omega)]
    exact hhead a h1 h2
  have hhdr : slice (pushed p c wr record) wr sizeofStorageHeader = (headerOf p record).bytes := by
    rw [pushed, ← length_bytes (headerOf p record)]
    exact slice_program_erased hz
  have hpay : storedRecord p c wr record =
      slice (program c (wr+8) (paddedRecord p record)) (wr+8) record.length := by
    rw [storedRecord, pushed, slice_program_outside (by simp only [length_bytes, sizeofStorageHeader]; omega)]
  have hhead' : headerAt (pushed p c wr record) wr = headerOf p record := headerAt_eq_of_slice hhdr
  refine ⟨by rw [hhead']; rfl, ?_, ?_, ?_⟩
  · rw [hhead', hl, headerOf, UInt16.toNat_ofNat', Nat.mod_eq_of_lt hlen]
  · rw [hhead', hpay, hacc.readBack]
    rfl
  · rw [hl]
    rfl

/-- Nothing of an interrupted push is left behind the record, where the next header goes. -/
def LeavesUnused (p : Platform) (fa : FlashArea) (c : Mem) (wr : Nat) (record : List UInt8) : Prop :=
  LeftoverHarmless p c wr record →
    Erased c (wr+recordSpan p record.length) (min (wr+recordSpan p record.length+8) fa.faSize)

instance (p : Platform) (fa : FlashArea) (c : Mem) (wr : Nat) (record : List UInt8) :
    Decidable (LeavesUnused p fa c wr record) :=
  inferInstanceAs (Decidable (_ → _))

/-- A push that the flash takes. -/
theorem Kept.push (h : Kept p fa m rd w q) (hsize : fa.faSize ≤ 0x10000) (hne : record ≠ [])
    (hfit : w+recordSpan p record.length ≤ fa.faSize) (hacc : PushAccepted p (content fa m) w record)
    (hbehind : LeavesUnused p fa (content fa m) w record)
    (hm : content fa m' = pushed p (content fa m) w record) :
    Kept p fa m' rd (w+recordSpan p record.length) (q ++ [storedRecord p (content fa m) w record]) := by
  have hal : p.blk ∣ w := h.queued.aligned h.aligned
  have hs := le_recordSpan p record.length
  have hl := List.length_pos_iff.mpr hne
  have hle := h.queued.le
  have hhead : Erased (content fa m) w (w+8) := h.erased.mono le_rfl (by omega)
  have hlen : (storedRecord p (content fa m) w record).length = record.length := slice_length _ _ _
  have hbelow (a : Nat) (ha : a < w) : content fa m a = content fa m' a := by
    rw [hm, pushed_outside (.inl ha)]
  have hat := pushed_storedRecord (by omega) hhead hacc
  rw [← hm] at hat
  have hold : Queued p (content fa m') rd q w := h.queued.congr fun a _ h2 => hbelow a h2
  have hqueued := hold.snoc hat
  rw [hlen] at hqueued
  refine ⟨h.aligned, fun h0 => ?_, hqueued, fun r hr => ?_, hfit, ?_⟩
  · obtain ⟨h8, hz⟩ := h.freed h0
    rw [← hz, headerAt_congr (fun a h1 h2 => (hbelow a (by omega)).symm)]
    exact ⟨h8, rfl⟩
  · cases List.mem_append.mp hr with
    | inl hold => exact h.nonempty r hold
    | inr hnew =>
      rw [List.mem_singleton.mp hnew, ← List.length_pos_iff, hlen]
      exact hl
  · intro a h1 h2
    rw [hm, pushed_outside (.inr h1)]
    exact hbehind ((pushAccepted_iff hal).mp hacc) a h1 h2

end OrbFirmware.Storage

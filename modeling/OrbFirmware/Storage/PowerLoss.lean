import Mathlib.Logic.Relation
import OrbFirmware.Storage.Recovery

/-! Power lost during `storage_push`: what the scan finds afterwards, and what the next push does over
the bytes the interrupted one left behind. -/
namespace OrbFirmware.Storage
open Nor
variable {p : Platform} {fa : FlashArea} {area : StorageArea} {s : StorageState} {m : Mem} {c : Mem}
  {q : Queue} {record : List UInt8} {size n index rd wr w : Nat} {found : Option Nat}

/-! The interrupted push. -/

theorem writeRecord_cut {off : Nat} (hal : p.blk ∣ off) (hb : off+(paddedRecord p record).length ≤ fa.faSize)
    (he : Erased (content fa m) off (off+(paddedRecord p record).length)) (k : Nat) :
    (∃ k', writeRecord p fa off record (.cut m k) =
      (true, .cut (program m (fa.faOff+off) (paddedRecord p record)) k')) ∨
    ∃ m', writeRecord p fa off record (.cut m k) = (false, .cut m' 0) ∧
      ∀ a, a < fa.faOff+off → m' a = m a := by
  by_cases hr : record.length % p.blk = 0
  · have hpad : paddedRecord p record = record := by simp [paddedRecord, blockPadding_of_dvd hr]
    rw [hpad] at hb he ⊢
    have hw := flashAreaWrite_cut hb hal (Nat.dvd_of_mod_eq_zero hr) he k
    simp only [writeRecord, hr, Nat.sub_zero, List.take_length, hw]
    by_cases hk : 0 < k
    · simp only [if_pos hk]
      exact .inl ⟨_, rfl⟩
    · simp only [if_neg hk]
      exact .inr ⟨m, rfl, fun _ _ => rfl⟩
  · have hsplit := paddedRecord_split p record
    have hlen : (record.take (record.length-record.length % p.blk)).length =
        record.length-record.length % p.blk := by simp
    have hlenAll := congrArg List.length hsplit
    rw [List.length_append, hlen] at hlenAll
    have htd : p.blk ∣ (record.take (record.length-record.length % p.blk)).length := by
      rw [hlen]
      exact Nat.dvd_sub_mod record.length
    have hld := paddedRecord_dvd p record
    rw [hsplit, List.length_append, Nat.dvd_add_right htd] at hld
    have hfirst := flashAreaWrite_cut (show off+_ ≤ fa.faSize by omega) hal htd (he.mono le_rfl (by omega)) k
    simp only [writeRecord, ne_eq, hr, not_false_eq_true, if_true, hfirst]
    by_cases hk : 0 < k
    · have hrest : Erased (content fa (program m (fa.faOff+off)
          (record.take (record.length-record.length % p.blk)))) (off+(record.length-record.length % p.blk))
          (off+(paddedRecord p record).length) := by
        intro a h1 h2
        rw [content_program, program_outside (by omega)]
        exact he a (by omega) h2
      have hal' : p.blk ∣ off+(record.length-record.length % p.blk) :=
        Nat.dvd_add hal (Nat.dvd_sub_mod record.length)
      have hsecond := flashAreaWrite_cut (show off+(record.length-record.length % p.blk)+_ ≤ fa.faSize by omega)
        hal' hld (hrest.mono le_rfl (by omega)) (k-1)
      simp only [if_pos hk, hsecond]
      by_cases hk' : 0 < k-1
      · simp only [if_pos hk']
        refine .inl ⟨k-1-1, ?_⟩
        rw [hsplit, program_append m _ (record.take _), hlen, Nat.add_assoc]
      · simp only [if_neg hk']
        exact .inr ⟨_, rfl, fun a ha => program_outside (.inl ha)⟩
    · simp only [if_neg hk]
      exact .inr ⟨m, rfl, fun _ _ => rfl⟩

theorem readBackRecord_cut {off : Nat} (hb : off+size ≤ fa.faSize) (k : Nat) :
    ∃ k', (readBackRecord p fa off size (.cut m k)).2 = .cut m k' ∧
      (0 < k' → (readBackRecord p fa off size (.cut m k)).1 = slice (content fa m) off size) := by
  have hm := Nat.mod_le size p.blk
  have h1 := flashAreaRead_cut (show off+(size-size % p.blk) ≤ fa.faSize by omega) m k
  have h2 := flashAreaRead_cut (show off+(size-size % p.blk)+size % p.blk ≤ fa.faSize by omega) m (k-1)
  by_cases hr : size % p.blk = 0
  · rw [hr, Nat.sub_zero] at h1
    refine ⟨k-1, by simp [readBackRecord, h1, hr], fun hk => ?_⟩
    simp [readBackRecord, h1, hr, show 0 < k by omega]
  · refine ⟨k-1-1, by simp [readBackRecord, h1, h2, hr], fun hk => ?_⟩
    simp only [readBackRecord, h1, h2, if_pos (show 0 < k by omega), if_pos (show 0 < k-1 by omega), hr,
      ne_eq, not_false_eq_true, if_true, Option.getD_some]
    rw [← slice_add, Nat.sub_add_cancel hm]

theorem resetArea_off (area : StorageArea) (m : Mem) :
    (resetArea p fa area (.cut m 0)).2.mem = m := by
  simp only [resetArea, flashAreaErase_off]
  exact (initArea_sameMem p fa area (.cut m 0)).mem

/-- However far an interrupted push got: either nothing up to the header at the write index is
changed, or the push is complete in flash. -/
theorem StorageInv.push_cut (h : StorageInv p fa s q) (record : List UInt8) (k : Nat) :
    AgreeOn (content fa s.mem) (content fa (storagePush p s.area record (.cut s.mem k)).2.2.mem)
      0 (s.area.wrIdx+8) ∨
    record ≠ [] ∧ s.area.wrIdx+recordSpan p record.length ≤ fa.faSize ∧
      (storagePush p s.area record (.cut s.mem k)).2.2.mem =
        (storagePush p s.area record (.ok s.mem)).2.2.mem := by
  by_cases hparam : record = [] ∨ fa.faSize < record.length
  · rw [storagePush_invalidParam h.area hparam]
    exact .inl fun _ _ _ => rfl
  · obtain ⟨hne, hlong⟩ := not_or.mp hparam
    by_cases hfull : fa.faSize < s.area.wrIdx+recordSpan p record.length
    · rw [storagePush_noMem h.area hparam hfull]
      exact .inl fun _ _ _ => rfl
    · have hlen := length_paddedRecord p record
      have hspan := le_recordSpan p record.length
      have hz : record.length ≠ 0 := by simpa using hne
      have hal : p.blk ∣ s.area.wrIdx := h.queued.aligned h.aligned
      have her := h.erased.mono le_rfl (not_lt.mp hfull)
      have hok := storagePush_accepted h.area hal hne (not_lt.mp hfull) (pushAccepted_of_erased hal her)
      have hbelow {m' : Mem} (ha : ∀ a, a < fa.faOff+(s.area.wrIdx+8) → m' a = s.mem a) :
          AgreeOn (content fa s.mem) (content fa m') 0 (s.area.wrIdx+8) :=
        fun a _ h2 => (ha (fa.faOff+a) (by omega)).symm
      have hpay : ∀ a, a < fa.faOff+(s.area.wrIdx+8) →
          program s.mem (fa.faOff+(s.area.wrIdx+8)) (paddedRecord p record) a = s.mem a :=
        fun a ha => program_outside (.inl ha)
      have hpayEr : Erased (content fa s.mem) (s.area.wrIdx+8) (s.area.wrIdx+8+(paddedRecord p record).length) :=
        her.mono (by omega) (by omega)
      have hbackOk : slice (content fa (program s.mem (fa.faOff+(s.area.wrIdx+8)) (paddedRecord p record)))
          (s.area.wrIdx+8) record.length = record := by
        rw [content_program]
        exact slice_program_record hpayEr
      have hal8 : p.blk ∣ s.area.wrIdx+8 := Nat.dvd_add hal (blk_dvd_eight p)
      rw [hok]
      simp only [storagePush, if_neg hz, h.area, if_neg hlong, if_neg hfull, sizeofStorageHeader]
      cases writeRecord_cut hal8 (by omega) hpayEr k with
      | inr hfail =>
        obtain ⟨m', hw, hm'⟩ := hfail
        simp only [hw, resetArea_off]
        exact .inl (hbelow hm')
      | inl hdone =>
        obtain ⟨k1, hw⟩ := hdone
        obtain ⟨k2, hfl, hrb⟩ := readBackRecord_cut (p := p) (show s.area.wrIdx+8+record.length ≤ fa.faSize by omega)
          (m := program s.mem (fa.faOff+(s.area.wrIdx+8)) (paddedRecord p record)) k1
        rw [hbackOk] at hrb
        simp only [hw]
        cases hback : readBackRecord p fa (s.area.wrIdx+8) record.length
            (.cut (program s.mem (fa.faOff+(s.area.wrIdx+8)) (paddedRecord p record)) k1) with
        | mk record' fl =>
          rw [hback] at hfl hrb
          have hfl : fl = .cut _ k2 := hfl
          subst hfl
          simp only [headerOf_crc16, ne_eq]
          by_cases hcrc : crc16Ccitt p 0xffff record = crc16Ccitt p 0xffff record'
          · have hhead : Erased (content fa (program s.mem (fa.faOff+(s.area.wrIdx+8)) (paddedRecord p record)))
                s.area.wrIdx (s.area.wrIdx+(headerOf p record).bytes.length) := by
              intro a h1 h2
              simp only [length_bytes, sizeofStorageHeader] at h2
              rw [content_program, program_outside (by omega)]
              exact her a h1 (by omega)
            simp only [hcrc, not_true_eq_false, if_false]
            have hdvd : p.blk ∣ (headerOf p record).bytes.length := blk_dvd_eight p
            rw [flashAreaWrite_cut (by simp only [length_bytes, sizeofStorageHeader]; omega) hal hdvd hhead k2]
            by_cases hk : 0 < k2
            · -- the header is written: the push is complete
              simp only [if_pos hk]
              exact .inr ⟨hne, not_lt.mp hfull, rfl⟩
            · simp only [if_neg hk, resetArea_off]
              exact .inl (hbelow hpay)
          · -- the payload is right, so some of it was not read back: power is off
            have hoff : k2 = 0 := by
              by_contra hk
              exact hcrc (congrArg _ (hrb (Nat.pos_of_ne_zero hk)).symm)
            subst hoff
            simp only [hcrc, not_false_eq_true, if_true, resetArea_off]
            exact .inl (hbelow hpay)

/-- Boot after an interrupted push: the queue as it was, or with the new record at its end. -/
theorem StorageInv.boot_cut (h : StorageInv p fa s q) (hop : FitsSizeField fa (.push record)) (k : Nat)
    (hclean : NoMisread p (content fa (storagePush p s.area record (.cut s.mem k)).2.2.mem) s.area.rdIdx) :
    Readable p fa (storageBoot p fa (storagePush p s.area record (.cut s.mem k)).2.2.mem).2 q ∨
      Readable p fa (storageBoot p fa (storagePush p s.area record (.cut s.mem k)).2.2.mem).2
        (q ++ [record]) := by
  have hle := h.queued.le
  cases h.push_cut record k with
  | inl ha =>
    have hscan : Scannable p fa (storagePush p s.area record (.cut s.mem k)).2.2.mem
        s.area.rdIdx s.area.wrIdx q := by
      refine ⟨h.aligned, fun h0 => ?_, hclean, h.queued.congr (ha.mono (Nat.zero_le _) (by omega)),
        h.nonempty, h.bounded, fun hfit => ?_⟩
      · obtain ⟨h8, hm⟩ := h.freed h0
        rw [← headerAt_congr (ha.mono le_rfl (by omega))]
        exact ⟨h8, hm⟩
      · rw [← headerAt_congr (ha.mono (Nat.zero_le _) le_rfl)]
        exact headerAt_erased h.erased (by simp only [sizeofStorageHeader] at hfit; omega)
    exact .inl hscan.boot.2.1
  | inr hdone =>
    obtain ⟨hne, hfit, hm⟩ := hdone
    obtain ⟨m', hpush, hinv⟩ := h.push hop hne hfit
    rw [hm, hpush] at hclean ⊢
    exact .inr (hinv.scannable hclean).boot.2.1

/-! The way of the scan over any content. -/

/-- The scan gets from one index to another. -/
def Hops (p : Platform) (c : Mem) : Nat → Nat → Prop :=
  Relation.ReflTransGen fun i j => scanNext p c i = j

theorem Hops.le {i j : Nat} (h : Hops p c i j) : i ≤ j := by
  induction h with
  | refl => exact le_rfl
  | tail _ hstep ih =>
    refine ih.trans ?_
    rw [← hstep, scanNext]
    split <;> exact Nat.le_add_right _ _

theorem scanNext_dvd (h : p.blk ∣ index) : p.blk ∣ scanNext p c index := by
  rw [scanNext]
  split
  · exact Nat.dvd_add h (recordSpan_dvd p _)
  · exact Nat.dvd_add h dvd_rfl

/-- The scan passes over every record of a queue, so it ends behind it. -/
theorem Hops.queued_le (h : Hops p c rd wr) (hq : Queued p c rd q w)
    (hu : (headerAt c wr).magicState = recordUnused) : w ≤ wr := by
  induction q generalizing rd with
  | nil =>
    have he : rd = w := hq
    exact he ▸ h.le
  | cons record q ih =>
    obtain ⟨hr, htail⟩ := hq
    cases Relation.ReflTransGen.cases_head h with
    | inl he =>
      rw [← he, hr.magic] at hu
      exact absurd hu.symm recordUnused_ne_valid
    | inr hstep =>
      obtain ⟨next, hnext, hrest⟩ := hstep
      rw [scanNext_record hr] at hnext
      exact ih (hnext ▸ hrest) htail

/-- What the scan returns, over any content: both indices are on block boundaries, the write index
is at an unused header, and the scan went from the one to the other. -/
theorem initAreaLoop_hops (hal : p.blk ∣ index) (hfound : ∀ x, found = some x → p.blk ∣ x ∧
      Hops p (content fa m) x index)
    (h : (initAreaLoop p fa n index found (.ok m)).1 = (some rd, some wr)) :
    p.blk ∣ rd ∧ p.blk ∣ wr ∧ Hops p (content fa m) rd wr ∧
      (headerAt (content fa m) wr).magicState = recordUnused := by
  induction n generalizing index found with
  | zero => simp [initAreaLoop] at h
  | succ n ih =>
    by_cases hb : index+8 ≤ fa.faSize
    · by_cases hu : (headerAt (content fa m) index).magicState = recordUnused
      · rw [initAreaLoop_unused hb hu] at h
        obtain ⟨hrd, hwr⟩ := Prod.mk.inj h
        cases hwr
        obtain ⟨hx, hhops⟩ := hfound rd hrd
        exact ⟨hx, hal, hhops, hu⟩
      · rw [initAreaLoop_round hb hu, scanFrom] at h
        split at h
        · refine ih (scanNext_dvd hal) (fun x hx => ?_) h
          rw [scanFound] at hx
          split at hx
          · cases hx
            exact ⟨hal, .single rfl⟩
          · obtain ⟨hdvd, hhops⟩ := hfound x hx
            exact ⟨hdvd, hhops.tail rfl⟩
        · simp at h
    · have hr : flashAreaRead fa index sizeofStorageHeader (.ok m) = (none, .ok m) :=
        flashAreaRead_out (not_le.mp hb) _
      simp only [initAreaLoop, hr] at h
      simp at h

/-- What a reboot leaves, over any content: no queue to read, no room to write, or indices between
which the scan went. -/
structure Booted (p : Platform) (fa : FlashArea) (s : StorageState) : Prop where
  area : s.area.fa = some fa
  scanned : s.area.rdIdx = s.area.wrIdx ∨ s.area.wrIdx = fa.faSize ∨
    p.blk ∣ s.area.rdIdx ∧ p.blk ∣ s.area.wrIdx ∧
      Hops p (content fa s.mem) s.area.rdIdx s.area.wrIdx ∧
      (headerAt (content fa s.mem) s.area.wrIdx).magicState = recordUnused

theorem storageBoot_booted (p : Platform) (fa : FlashArea) (m : Mem) :
    Booted p fa (storageBoot p fa m).2 := by
  simp only [storageBoot, storageInit_ok]
  refine ⟨initArea_fa p fa _ _, ?_⟩
  by_cases hm : 8 ≤ fa.faSize → (headerAt (content fa m) 0).magicState ≠ recordUnused ∧
      (headerAt (content fa m) 0).magicState ≠ recordValid ∧
      (headerAt (content fa m) 0).magicState ≠ recordInvalid
  · rw [initArea_invalid hm]
    exact .inl rfl
  · obtain ⟨hb, hm⟩ := Classical.not_imp.mp hm
    have hmagic : (headerAt (content fa m) 0).magicState = recordUnused ∨
        (headerAt (content fa m) 0).magicState = recordValid ∨
        (headerAt (content fa m) 0).magicState = recordInvalid := by
      by_contra hno
      simp only [not_or] at hno
      exact hm hno
    cases hscan : (initAreaLoop p fa fa.faSize 0 none (.ok m)).1 with
    | mk found unused =>
      rw [initArea_ok hb hmagic hscan]
      cases found with
      | none => cases unused <;> exact .inl rfl
      | some rd =>
        cases unused with
        | none => exact .inr (.inl rfl)
        | some wr =>
          exact .inr (.inr (initAreaLoop_hops (dvd_zero _) (fun x hx => by cases hx) hscan))

/-! What the flash takes over bytes that are not erased. -/

/-- The bytes from `wr` on do not stand in the way of a push: on Pearl every double-word of it goes
to an erased one or is all zeros, on Diamond the bytes ANDed with it have its CRC. -/
def LeftoverHarmless (p : Platform) (c : Mem) (wr : Nat) (record : List UInt8) : Prop :=
  match p.board with
  | .pearl => Erased c wr (wr+8) ∧ ∀ j < (paddedRecord p record).length/8,
      Erased c (wr+8+j*8) (wr+8+j*8+8) ∨ zeroBlock (((paddedRecord p record).drop (j*8)).take 8) = true
  | .diamond => crc16Ccitt p 0xffff (slice (program c (wr+8) record) (wr+8) record.length) =
      crc16Ccitt p 0xffff record

instance (p : Platform) (c : Mem) (wr : Nat) (record : List UInt8) :
    Decidable (LeftoverHarmless p c wr record) :=
  match hb : p.board with
  | .pearl => decidable_of_iff (Erased c wr (wr+8) ∧ ∀ j < (paddedRecord p record).length/8,
      Erased c (wr+8+j*8) (wr+8+j*8+8) ∨ zeroBlock (((paddedRecord p record).drop (j*8)).take 8) = true)
      (by simp only [LeftoverHarmless, hb])
  | .diamond => decidable_of_iff (crc16Ccitt p 0xffff (slice (program c (wr+8) record) (wr+8) record.length) =
      crc16Ccitt p 0xffff record) (by simp only [LeftoverHarmless, hb])

theorem headerOf_not_zero (p : Platform) (record : List UInt8) :
    zeroBlock ((headerOf p record).bytes.take 8) = false := by
  have hmagic : le16 recordValid = [0xfe, 0xfe] := by decide
  simp [zeroBlock, StorageHeader.bytes, headerOf, hmagic]

theorem pushAccepted_iff (hal : p.blk ∣ wr) :
    PushAccepted p c wr record ↔ LeftoverHarmless p c wr record := by
  cases hb : p.board with
  | diamond =>
    have hblk : p.blk = 1 := by rw [Platform.blk, hb]; rfl
    have hpad : paddedRecord p record = record := by
      simp [paddedRecord, blockPadding, hblk, Nat.mod_one]
    simp only [LeftoverHarmless, hb]
    constructor
    · intro h
      have hrb := h.readBack
      rwa [hpad] at hrb
    · intro h
      refine ⟨by rw [hb]; rfl, ?_, by rw [hb]; rfl⟩
      rwa [hpad]
  | pearl =>
    have hblk : p.blk = 8 := by rw [Platform.blk, hb]; rfl
    have hdvd := paddedRecord_dvd p record
    rw [hblk] at hal hdvd
    have hwr : wr % 8 = 0 := Nat.mod_eq_zero_of_dvd hal
    have hlen : (paddedRecord p record).length % 8 = 0 := Nat.mod_eq_zero_of_dvd hdvd
    -- the header goes to a double-word that the payload does not touch
    have hhdr : (deviceWrite .pearl (program c (wr+8) (paddedRecord p record)) wr
        (headerOf p record).bytes).1 = true ↔ Erased c wr (wr+8) := by
      have ha : AgreeOn (program c (wr+8) (paddedRecord p record)) c wr (wr+8) :=
        fun a _ h2 => program_outside (.inl h2)
      rw [deviceWrite_pearl_iff hwr (by rw [length_bytes, sizeofStorageHeader])]
      constructor
      · intro h
        cases h 0 (by rw [length_bytes]; decide) with
        | inl he => exact Erased.congr he ha
        | inr hz => simp [headerOf_not_zero] at hz
      · intro h j hj
        have hj0 : j = 0 := by
          simp only [length_bytes, sizeofStorageHeader] at hj
          omega
        subst hj0
        exact .inl (h.congr ha.symm)
    simp only [LeftoverHarmless, hb]
    constructor
    · intro h
      have hpay := h.payload
      have hhead := h.header
      rw [hb] at hpay hhead
      exact ⟨hhdr.mp hhead, (deviceWrite_pearl_iff (by omega) hlen).mp hpay⟩
    · rintro ⟨hhead, hpay⟩
      have hback := slice_program_blocks (show 0 < 8 by decide) (by omega) hpay
      refine ⟨?_, ?_, ?_⟩
      · rw [hb]
        exact (deviceWrite_pearl_iff (by omega) hlen).mpr hpay
      · rw [slice_record_of_padded hback]
      · rw [hb]
        exact hhdr.mpr hhead

/-! The next push after a reboot, over any content. -/

theorem length_storageRecords (p : Platform) (size n : Nat) (s : StorageState) :
    (storageRecords p size n s).length ≤ n := by
  induction n generalizing s with
  | zero => exact Nat.zero_le _
  | succ n ih =>
    simp only [storageRecords]
    split
    · exact Nat.succ_le_succ (ih _)
    · exact Nat.zero_le _

/-- The records read after a reboot are still read first after a push, unless the push is turned
down by the flash. -/
theorem Booted.push_keeps (h : Booted p fa s) (record : List UInt8) (size n : Nat) :
    storageRecords p size n s <+: storageRecords p size n (storageStep p s (.push record)).2 ↔
      storageRecords p size n s = [] ∨ record = [] ∨ fa.faSize < record.length ∨
      fa.faSize < s.area.wrIdx+recordSpan p record.length ∨
      LeftoverHarmless p (content fa s.mem) s.area.wrIdx record := by
  have hfa := h.area
  by_cases hparam : record = [] ∨ fa.faSize < record.length
  · rw [storageStep, storagePush_invalidParam hfa hparam]
    refine iff_of_true (List.prefix_refl _) ?_
    cases hparam with
    | inl he => exact .inr (.inl he)
    | inr hlong => exact .inr (.inr (.inl hlong))
  · obtain ⟨hne, hlong⟩ := not_or.mp hparam
    by_cases hfull : fa.faSize < s.area.wrIdx+recordSpan p record.length
    · rw [storageStep, storagePush_noMem hfa hparam hfull]
      exact iff_of_true (List.prefix_refl _) (.inr (.inr (.inr (.inl hfull))))
    · rcases h.scanned with hempty | hroom | ⟨hrd, hwr, hhops, hunused⟩
      · have hq : storageRecords p size n s = [] := storageRecords_empty hfa hempty
        rw [hq]
        exact iff_of_true List.nil_prefix (.inl rfl)
      · have hs := le_recordSpan p record.length
        omega
      · have hs := le_recordSpan p record.length
        rw [← pushAccepted_iff hwr]
        by_cases hacc : PushAccepted p (content fa s.mem) s.area.wrIdx record
        · -- the new record goes behind the old ones
          refine iff_of_true ?_ (.inr (.inr (.inr (.inr hacc))))
          have hrec : storageRecords p size n s = storageRecords p size n s := rfl
          obtain ⟨⟨w, hqueued⟩, hsizes⟩ := queued_of_records hfa hrd hrec
          have hw : w ≤ s.area.wrIdx := hhops.queued_le hqueued hunused
          rw [storageStep, storagePush_accepted hfa hwr hne (not_lt.mp hfull) hacc]
          have hagree : AgreeOn (content fa s.mem) (content fa (program (program s.mem
              (fa.faOff+(s.area.wrIdx+8)) (paddedRecord p record)) (fa.faOff+s.area.wrIdx)
              (headerOf p record).bytes)) s.area.rdIdx w := by
            intro a _ h2
            rw [content_program, content_program, program_outside (by omega), program_outside (by omega)]
          exact records_prefix hfa hrd (hqueued.congr hagree) (by simp only; omega) (by omega) hsizes
            (length_storageRecords p size n s)
        · -- the whole area is erased
          obtain ⟨ret, m', hpush, -, -⟩ := storagePush_rejected hfa hwr hne (not_lt.mp hfull) hacc
          rw [storageStep, hpush]
          have hnone : storageRecords p size n ⟨⟨s.area.fa, 0, 0⟩, m'⟩ = [] :=
            storageRecords_empty (s := ⟨⟨s.area.fa, 0, 0⟩, m'⟩) hfa rfl
          simp only [Flash.ok_mem, hnone, List.prefix_nil, hne, hlong, hfull, hacc, or_false]

/-- Power lost in `storage_push`, in any reachable state and after any number of flash operations:
the reboot returns the queue as it was, or with the new record; and the next push keeps what the
reboot returned exactly when the flash takes it over the bytes the interrupted one left behind. -/
theorem push_after_power_loss (p : Platform) (fa : FlashArea) (m : Mem) (ops : List StorageOp)
    (record record' : List UInt8) (k size n : Nat) (herased : Erased (content fa m) 0 fa.faSize)
    (hops : ∀ op ∈ ops, FitsSizeField fa op) (hrecord : FitsSizeField fa (.push record)) :
    let outs := (Machine.run (storageStep p) (storageBoot p fa m).2 ops).1
    let s := (Machine.run (storageStep p) (storageBoot p fa m).2 ops).2
    let lost := (storagePush p s.area record (.cut s.mem k)).2.2.mem
    let s' := (storageBoot p fa lost).2
    (∃ q, (fifo fa.faSize).Run [] ops outs q ∧
      (NoMisread p (content fa lost) s.area.rdIdx → (∀ r ∈ q ++ [record], r.length ≤ size) →
        q.length+1 < n → storageRecords p size n s' = q ∨ storageRecords p size n s' = q ++ [record])) ∧
    (storageRecords p size n s' <+: storageRecords p size n (storageStep p s' (.push record')).2 ↔
      storageRecords p size n s' = [] ∨ record' = [] ∨ fa.faSize < record'.length ∨
      fa.faSize < s'.area.wrIdx+recordSpan p record'.length ∨
      LeftoverHarmless p (content fa s'.mem) s'.area.wrIdx record') := by
  intro outs s lost s'
  obtain ⟨q, hrun, hinv⟩ := Machine.run_simulates storageStep_inv (storageBoot p fa m).2 [] ops hops
    (storageBoot_erased herased)
  refine ⟨⟨q, hrun, fun hclean hsize hn => ?_⟩, (storageBoot_booted p fa lost).push_keeps record' size n⟩
  cases hinv.boot_cut hrecord k hclean with
  | inl hold =>
    exact .inl (hold.records (fun r hr => hsize r (List.mem_append_left _ hr)) (by omega))
  | inr hnew => exact .inr (hnew.records hsize (by simpa using hn))

theorem push_after_power_loss_pearl :
    let s := (Machine.run (storageStep (.of .pearl)) (storageBoot (.of .pearl) (storagePartition .pearl)
      (fun _ => 0xff)).2 [.push [4]]).2
    let lost := (storagePush (.of .pearl) s.area (List.replicate 8 1) (.cut s.mem 1)).2.2.mem
    let s' := (storageBoot (.of .pearl) (storagePartition .pearl) lost).2
    storageRecords (.of .pearl) 16 3 s' <+:
      storageRecords (.of .pearl) 16 3 (storageStep (.of .pearl) s' (.push (List.replicate 8 0))).2 :=
  (push_after_power_loss (.of .pearl) (storagePartition .pearl) (fun _ => 0xff) [.push [4]]
    (List.replicate 8 1) (List.replicate 8 0) 1 16 3 (fun _ _ _ => rfl) (by decide) (by decide)).2.mpr
    (by decide +kernel)

/-- On both boards a push cut short after its payload makes the next push erase the queue. -/
theorem interrupted_push_costs_queue :
    let lose (b : Board) : Queue × Queue :=
      let s := (Machine.run (storageStep (.of b)) (storageBoot (.of b) (storagePartition b)
        (fun _ => 0xff)).2 [.push [4]]).2
      let lost := (storagePush (.of b) s.area (List.replicate 8 0) (.cut s.mem 1)).2.2.mem
      let s' := (storageBoot (.of b) (storagePartition b) lost).2
      (storageRecords (.of b) 16 3 s', storageRecords (.of b) 16 3 (storageStep (.of b) s' (.push [5])).2)
    lose .pearl = ([[4]], []) ∧ lose .diamond = ([[4]], []) := by
  decide +kernel

end OrbFirmware.Storage

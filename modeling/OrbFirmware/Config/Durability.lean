import OrbFirmware.Config.Module

/-! A reboot behavior that was set is the one the next `config_init` loads. -/
namespace OrbFirmware.Config
open Nor Storage
variable {p : Platform} {fa : FlashArea} {s : StorageState} {q : Queue} {fl : Flash} {v : UInt8}
  {record : List UInt8} {rd wr : Nat} {m : Mem}

def bootRecord (v : UInt8) : List UInt8 := (⟨v, .replicate 7 0⟩ : PersistentConfig).bytes

@[simp] theorem length_bootRecord (v : UInt8) : (bootRecord v).length = 8 := rfl

theorem bootRecord_ne_nil (v : UInt8) : bootRecord v ≠ [] := by simp [bootRecord, PersistentConfig.bytes]

theorem bootRecord_low (hv : v ≤ 1) : ∀ b ∈ bootRecord v, b ≤ 1 := by
  intro b hb
  simp only [bootRecord, PersistentConfig.bytes, Vector.toList_replicate, List.mem_cons, List.mem_replicate] at hb
  rcases hb with rfl | ⟨-, rfl⟩
  · exact hv
  · decide

theorem recordSpan_boot (p : Platform) : recordSpan p 8 = 16 := by
  rw [recordSpan, blockPadding_of_dvd (Nat.mod_eq_zero_of_dvd (blk_dvd_eight p))]
  rfl

/-- The value that the last record holds; without a record, the default. -/
def lastBoot (q : Queue) : UInt8 := (q.getLastD []).headD bootButtonPress

/-- The config partition as the module leaves it: a queue of boot values, and below the read index
only bytes of freed ones. -/
structure ConfigFlash (p : Platform) (fa : FlashArea) (s : StorageState) (q : Queue) : Prop
    extends StorageInv p fa s q where
  records : ∀ record ∈ q, ∃ v ≤ 1, record = bootRecord v
  spans : 16 ∣ s.area.rdIdx
  low : ∀ a < s.area.rdIdx, content fa s.mem a ≤ 1

theorem configFlash_of_erased (h : Erased (content fa m) 0 fa.faSize) :
    ConfigFlash p fa ⟨⟨some fa, 0, 0⟩, m⟩ [] :=
  ⟨storageInv_of_erased h, fun _ hr => absurd hr List.not_mem_nil, dvd_zero _,
    fun _ h0 => absurd h0 (Nat.not_lt_zero _)⟩

/-- Freed boot values do not mislead the scan: 0xff and 0xfe are above 1. -/
theorem noMisread_of_low {c : Mem} (h : ∀ a < rd, c a ≤ 1) : NoMisread p c rd := by
  intro index hi _
  have hlow := h index hi
  rw [magic_word]
  generalize c (index+1) = hi
  generalize c index = lo at hlow
  have hlo : lo.toNat ≤ 1 := hlow
  have hhi := hi.toNat_lt
  constructor <;>
  · intro he
    have hn := congrArg UInt16.toNat he
    simp only [ofLe16, UInt16.toNat_ofNat', recordUnused, recordValid, UInt16.reduceToNat] at hn
    omega

theorem ConfigFlash.clean (h : ConfigFlash p fa s q) : NoMisread p (content fa s.mem) s.area.rdIdx :=
  noMisread_of_low h.low

theorem queued_spans {c : Mem} (h : Queued p c rd q wr) (hq : ∀ record ∈ q, ∃ v ≤ 1, record = bootRecord v)
    (hrd : 16 ∣ rd) : 16 ∣ wr := by
  induction q generalizing rd with
  | nil =>
    have he : rd = wr := h
    exact he ▸ hrd
  | cons record q ih =>
    obtain ⟨-, hqueued⟩ := h
    obtain ⟨v, -, rfl⟩ := hq record List.mem_cons_self
    rw [length_bootRecord, recordSpan_boot] at hqueued
    exact ih hqueued (fun r hr => hq r (List.mem_cons_of_mem _ hr)) (Nat.dvd_add hrd dvd_rfl)

theorem low_of_slice {c : Mem} {off a : Nat} {data : List UInt8} (h : slice c off data.length = data)
    (hdata : ∀ b ∈ data, b ≤ 1) (h1 : off ≤ a) (h2 : a < off+data.length) : c a ≤ 1 := by
  have hb := (slice_eq_iff c off data).mp h (a-off) (by omega)
  rw [Nat.add_sub_cancel' h1] at hb
  rw [hb]
  exact hdata _ (List.getElem_mem _)

/-- A freed boot value leaves its low bytes behind a zeroed header. -/
theorem low_of_freed (hlow : ∀ a < rd, content fa m a ≤ 1) (hr : RecordAt p (content fa m) rd (bootRecord v))
    (hv : v ≤ 1) : ∀ a < rd+16, content fa (zeroHeader m (fa.faOff+rd)) a ≤ 1 := by
  intro a ha
  have hzeros : slice (content fa (zeroHeader m (fa.faOff+rd))) rd (List.replicate 8 (0 : UInt8)).length =
      List.replicate 8 0 := by
    rw [zeroHeader, content_program, List.length_replicate]
    exact slice_program_zeros _ _ 8
  by_cases hhead : rd ≤ a ∧ a < rd+8
  · refine low_of_slice hzeros (fun b hb => ?_) hhead.1 (by simpa using hhead.2)
    rw [(List.mem_replicate.mp hb).2]
    decide
  · rw [content_zeroHeader (by omega)]
    by_cases hold : a < rd
    · exact hlow a hold
    · exact low_of_slice hr.payload (bootRecord_low hv) (by omega) (by rw [length_bootRecord]; omega)

/-- Freeing a record with which the area is not erased. -/
theorem ConfigFlash.advance (h : ConfigFlash p fa s (record :: q))
    (hkeep : ¬ (q = [] ∧ fa.faSize-s.area.wrIdx < minimumEmptySpace)) :
    ConfigFlash p fa ⟨{ s.area with rdIdx := s.area.rdIdx+16 },
      zeroHeader s.mem (fa.faOff+s.area.rdIdx)⟩ q := by
  obtain ⟨v, hv, rfl⟩ := h.records record List.mem_cons_self
  obtain ⟨hr, -⟩ := h.queued
  obtain ⟨area, m, hfree, hinv⟩ := h.toStorageInv.free
  rcases h.toLaid.free with ⟨hq, hroom, -⟩ | ⟨-, hfree', -⟩
  · exact absurd ⟨hq, hroom⟩ hkeep
  · rw [length_bootRecord, recordSpan_boot] at hfree'
    rw [hfree] at hfree'
    obtain ⟨rfl, hm⟩ : area = { s.area with rdIdx := s.area.rdIdx+16 } ∧
        m = zeroHeader s.mem (fa.faOff+s.area.rdIdx) := by
      simpa [Flash.ok] using hfree'
    subst hm
    exact ⟨hinv, fun r hr => h.records r (List.mem_cons_of_mem _ hr), Nat.dvd_add h.spans dvd_rfl,
      low_of_freed h.low hr hv⟩

/-- A boot value stored behind the queue. -/
theorem ConfigFlash.append (h : ConfigFlash p fa s q) (hv : v ≤ 1) (hfit : s.area.wrIdx+16 ≤ fa.faSize)
    (hm : m = program (program s.mem (fa.faOff+(s.area.wrIdx+8)) (paddedRecord p (bootRecord v)))
      (fa.faOff+s.area.wrIdx) (headerOf p (bootRecord v)).bytes) :
    ConfigFlash p fa ⟨{ s.area with wrIdx := s.area.wrIdx+16 }, m⟩ (q ++ [bootRecord v]) := by
  have hspan : recordSpan p (bootRecord v).length = 16 := recordSpan_boot p
  have hal : p.blk ∣ s.area.wrIdx := h.queued.aligned h.aligned
  have hle := h.queued.le
  have her : Erased (content fa s.mem) s.area.wrIdx (s.area.wrIdx+recordSpan p (bootRecord v).length) :=
    h.erased.mono le_rfl (by rw [hspan]; exact hfit)
  obtain ⟨m', hpush, hinv⟩ := h.toStorageInv.push (.inr (show (bootRecord v).length < 0x10000 by simp))
    (bootRecord_ne_nil v) (by rw [hspan]; exact hfit)
  have hacc := storagePush_accepted h.area hal (bootRecord_ne_nil v) (by rw [hspan]; exact hfit)
    (pushAccepted_of_erased hal her)
  rw [hpush, ← hm] at hacc
  have hmem : m' = m := by simpa [Flash.ok] using hacc
  rw [hspan, hmem] at hinv
  refine ⟨hinv, fun r hr => ?_, h.spans, fun a ha => ?_⟩
  · cases List.mem_append.mp hr with
    | inl hold => exact h.records r hold
    | inr hnew => exact ⟨v, hv, List.mem_singleton.mp hnew⟩
  · have ha : a < s.area.rdIdx := ha
    have hc : content fa m = pushed p (content fa s.mem) s.area.wrIdx (bootRecord v) := by
      rw [hm, content_program, content_program, pushed]
    rw [hc, pushed_outside (.inl (by omega))]
    exact h.low a ha

/-! The two halves of `persist_config`, on a device that refuses no erase. -/

theorem ConfigFlash.free_faults (h : ConfigFlash p fa s q) (hq : q ≠ []) (hm : fl.mem = s.mem)
    (herase : fl.Grants .erase) :
    ∃ ret area fl' q', storageFree p s.area fl = (ret, area, fl') ∧ ConfigFlash p fa ⟨area, fl'.mem⟩ q' ∧
      fl.Later fl' := by
  cases q with
  | nil => exact absurd rfl hq
  | cons record q =>
    obtain ⟨hr, htail⟩ := h.queued
    obtain ⟨v, -, hrec⟩ := h.records record List.mem_cons_self
    have hle := htail.le
    have hspan : recordSpan p record.length = 16 := by rw [hrec, length_bootRecord, recordSpan_boot]
    have hb := h.bounded
    rw [hspan] at hle
    rw [← hm] at hr
    rcases storageFree_faults h.area h.aligned (by omega) hr.magic hr.size with
      ⟨ret, fl', hfree, -, hsame, -⟩ | ⟨fl', hlater, hmem, hfree⟩
    · refine ⟨ret, s.area, fl', record :: q, hfree, ?_, hsame.later⟩
      rw [hsame.mem, hm]
      exact h
    · rw [hspan] at hfree
      by_cases hdrain : s.area.wrIdx ≤ s.area.rdIdx+16 ∧ fa.faSize-s.area.wrIdx < minimumEmptySpace
      · rw [if_pos hdrain] at hfree
        obtain ⟨area, harea⟩ : ∃ area : StorageArea, { s.area with rdIdx := s.area.rdIdx+16 } = area := ⟨_, rfl⟩
        have hfa : area.fa = some fa := by
          rw [← harea]
          exact h.area
        rw [harea] at hfree
        have hlater' := hlater.trans (resetArea_later p fa area fl')
        have hreset : (resetArea p fa area fl').1 = ⟨area.fa, 0, 0⟩ ∧ _ :=
          resetArea_erased (hlater.grants herase 0)
        cases hr : resetArea p fa area fl' with
        | mk area' fl'' =>
          rw [hr] at hfree hlater' hreset
          obtain ⟨ha, hm'⟩ := hreset
          have ha : area' = ⟨some fa, 0, 0⟩ := hfa ▸ ha
          have hm' : fl''.mem = erase fl'.mem fa.faOff fa.faSize := hm'
          refine ⟨.success, area', fl'', [], hfree, ?_, hlater'⟩
          rw [ha, hm']
          exact configFlash_of_erased (erasedFrom_erase (m := fl'.mem) (fun _ _ => rfl)).erased
      · have hkeep : ¬ (q = [] ∧ fa.faSize-s.area.wrIdx < minimumEmptySpace) := by
          rintro ⟨rfl, hroom⟩
          have he : s.area.rdIdx+recordSpan p record.length = s.area.wrIdx := htail
          exact hdrain ⟨by omega, hroom⟩
        refine ⟨.success, _, fl', q, hfree.trans (if_neg hdrain), ?_, hlater⟩
        rw [hmem, hm]
        exact h.advance hkeep

theorem ConfigFlash.push_faults (h : ConfigFlash p fa s q) (hv : v ≤ 1) (hm : fl.mem = s.mem)
    (herase : fl.Grants .erase) :
    ∃ ret area fl' q', storagePush p s.area (bootRecord v) fl = (ret, area, fl') ∧
      ConfigFlash p fa ⟨area, fl'.mem⟩ q' ∧ (ret = .success → lastBoot q' = v) := by
  have hspan : recordSpan p (bootRecord v).length = 16 := recordSpan_boot p
  by_cases hfit : s.area.wrIdx+16 ≤ fa.faSize
  · rcases storagePush_faults h.area (bootRecord_ne_nil v) (by rw [hspan]; exact hfit) herase with
      ⟨fl', hpush, hmem⟩ | ⟨ret, fl', hpush, hret, herased⟩
    · rw [hspan] at hpush
      rw [hm] at hmem
      exact ⟨_, _, fl', _, hpush, h.append hv hfit hmem, fun _ => by
        rw [lastBoot, List.getLastD_concat]
        rfl⟩
    · exact ⟨ret, _, fl', [], hpush, configFlash_of_erased herased.erased, fun hok => absurd hok hret⟩
  · have hsame : ConfigFlash p fa ⟨s.area, fl.mem⟩ q := by
      rw [hm]
      exact h
    by_cases hparam : bootRecord v = [] ∨ fa.faSize < (bootRecord v).length
    · exact ⟨_, _, _, q, storagePush_invalidParam h.area hparam, hsame, fun hok => absurd hok (by simp)⟩
    · exact ⟨_, _, _, q, storagePush_noMem h.area hparam (by rw [hspan]; exact not_le.mp hfit), hsame,
        fun hok => absurd hok (by simp)⟩

theorem ConfigFlash.persist {config : Statics} (h : ConfigFlash p fa ⟨config.storageArea, fl.mem⟩ q)
    (hcur : config.current = ⟨v, .replicate 7 0⟩) (hv : v ≤ 1) (herase : fl.Grants .erase) :
    ∃ ret area fl' q', persistConfig p config fl = (ret, { config with storageArea := area }, fl') ∧
      ConfigFlash p fa ⟨area, fl'.mem⟩ q' ∧ (ret = .success → lastBoot q' = v) := by
  have hbytes : config.current.bytes = bootRecord v := by rw [hcur, bootRecord]
  have hdata := h.toLaid.hasData
  by_cases hq : q = []
  · obtain ⟨ret, area, fl', q', hpush, hinv, hlast⟩ := h.push_faults hv rfl herase
    refine ⟨ret, area, fl', q', ?_, hinv, hlast⟩
    simp only [hq, ne_eq, not_true_eq_false, decide_false] at hdata
    simp only [persistConfig, hdata, Bool.false_eq_true, if_false, hbytes, hpush]
  · obtain ⟨_, area₁, fl₁, q₁, hfree, hinv₁, hlater⟩ := h.free_faults hq rfl herase
    obtain ⟨ret, area, fl', q', hpush, hinv, hlast⟩ :=
      hinv₁.push_faults hv rfl (hlater.grants herase)
    refine ⟨ret, area, fl', q', ?_, hinv, hlast⟩
    simp only [hq, ne_eq, not_false_eq_true, decide_true] at hdata
    simp only [persistConfig, hdata, if_true, hfree, hbytes, hpush]

/-! `config_init`, on a device that refuses no read and no write. -/

theorem ofBytes_bootRecord (v : UInt8) : PersistentConfig.ofBytes (bootRecord v) = ⟨v, .replicate 7 0⟩ := by
  have hpad : (Vector.ofFn fun i : Fin 7 => (bootRecord v).getD (i+1) 0) = .replicate 7 0 := by
    apply Vector.ext
    intro i hi
    rw [Vector.getElem_ofFn, Vector.getElem_replicate, bootRecord, PersistentConfig.bytes,
      List.getD_cons_succ, Vector.toList_replicate, List.getD_eq_getElem _ _ (by simpa using hi),
      List.getElem_replicate]
  simp only [PersistentConfig.ofBytes, hpad]
  rfl

theorem lastBoot_singleton (v : UInt8) : lastBoot [bootRecord v] = v := rfl

theorem lastBoot_cons (r r' : List UInt8) (q : Queue) : lastBoot (r :: r' :: q) = lastBoot (r' :: q) := by
  simp only [lastBoot, List.getLastD_cons]

theorem lastBoot_le (hq : ∀ record ∈ q, ∃ v ≤ 1, record = bootRecord v) : lastBoot q ≤ 1 := by
  cases q with
  | nil => decide
  | cons record q =>
    rw [lastBoot, List.getLastD_cons]
    obtain ⟨v, hv, he⟩ := hq (q.getLastD record) List.getLastD_mem_cons
    rw [he]
    exact hv

/-- `storage_init` finds the queue; an area drained to its end is erased. -/
theorem ConfigFlash.storageInit (h : ConfigFlash p fa s q) (hsize : 16 ∣ fa.faSize) (hpos : 0 < fa.faSize)
    (hm : fl.mem = s.mem) (hg : fl.Grants .read) :
    ∃ ret area fl', storageInit p fa fl = (ret, area, fl') ∧ fl.Later fl' ∧
      ((ret = .success ∧ ∃ q', ConfigFlash p fa ⟨area, fl'.mem⟩ q' ∧ q'.length ≤ q.length ∧
        lastBoot q' = lastBoot q) ∨
      (ret ≠ .success ∧ fl'.mem = s.mem ∧ ¬ (fl.Grants .access ∧ fl.Grants .erase))) := by
  cases hopen : fl.verdict 0 .access with
  | false =>
    have hfail : Storage.storageInit p fa fl = (.notInitialized, ⟨none, 0, 0⟩, fl.tick) := by
      simp only [Storage.storageInit, flashAreaOpen, hopen]
    refine ⟨_, _, _, hfail, fl.later_tick, .inr ⟨by simp, hm, fun hgrant => ?_⟩⟩
    rw [hgrant.1 0] at hopen
    exact absurd hopen (by simp)
  | true =>
    have hwr : 16 ∣ s.area.wrIdx := queued_spans h.queued h.records h.spans
    have hb := h.bounded
    have hfits : sizeofStorageHeader < fa.faSize := by
      have := Nat.le_of_dvd hpos hsize
      simp only [sizeofStorageHeader]
      omega
    have hscan : initArea p fa ⟨some fa, 0, 0⟩ (.ok s.mem) = _ :=
      (h.toStorageInv.scannable h.clean).initArea (.inr (.inr hfits))
    have hend : (if s.area.wrIdx+sizeofStorageHeader < fa.faSize then s.area.wrIdx else fa.faSize) =
        s.area.wrIdx := by
      split
      · rfl
      · rename_i hfull
        simp only [sizeofStorageHeader] at hfull
        omega
    have harea : (⟨some fa, s.area.wrIdx, s.area.rdIdx⟩ : StorageArea) = s.area := by
      rw [← h.area]
    have hopen' : flashAreaOpen fl = (true, fl.tick) := by rw [flashAreaOpen, hopen]
    have hlike : ReadAlike fl.tick (.ok s.mem) :=
      ⟨hm, fl.later_tick.grants hg, Flash.grants_ok s.mem .read⟩
    obtain ⟨hret, hfound⟩ : (initArea p fa ⟨some fa, 0, 0⟩ fl.tick).1 = _ ∧ _ := hlike.initArea
    have hsame := fl.sameMem_tick.trans (initArea_sameMem p fa ⟨some fa, 0, 0⟩ fl.tick)
    rw [hscan, hend, harea] at hret hfound
    cases hinit : initArea p fa ⟨some fa, 0, 0⟩ fl.tick with
    | mk ret rest =>
      obtain ⟨area, fl₁⟩ := rest
      rw [hinit] at hret hfound hsame
      have hmem : fl₁.mem = s.mem := hsame.mem.trans hm
      by_cases hdrained : q = [] ∧ ¬ s.area.wrIdx+sizeofStorageHeader < fa.faSize
      · rw [if_pos hdrained] at hret hfound
        have hret : ret = .invalidState := hret
        have hfound : area = ⟨some fa, 0, 0⟩ := hfound
        have herase : flashAreaErase fa 0 fa.faSize fl₁ =
            if fl₁.verdict 0 .erase then (true, fl₁.set (erase fl₁.mem fa.faOff fa.faSize))
            else (false, fl₁.tick) := by
          simp only [flashAreaErase, if_neg (show ¬ fa.faSize < 0+fa.faSize by omega), Nat.add_zero]
        subst hret hfound
        cases hv : fl₁.verdict 0 .erase with
        | false =>
          refine ⟨.internal, ⟨some fa, 0, 0⟩, fl₁.tick, ?_, hsame.later.trans fl₁.later_tick,
            .inr ⟨by simp, hmem, fun hgrant => ?_⟩⟩
          · simp only [Storage.storageInit, hopen', hinit, herase, hv, Bool.false_eq_true, if_false]
          · rw [hsame.later.grants hgrant.2 0] at hv
            exact absurd hv (by simp)
        | true =>
          refine ⟨.success, ⟨some fa, 0, 0⟩, fl₁.set (erase fl₁.mem fa.faOff fa.faSize), ?_,
            hsame.later.trans (fl₁.later_set _), .inl ⟨rfl, [], ?_, Nat.zero_le _, by rw [hdrained.1]⟩⟩
          · simp only [Storage.storageInit, hopen', hinit, herase, hv, if_true]
          · exact configFlash_of_erased (erasedFrom_erase (m := fl₁.mem) (fun _ _ => rfl)).erased
      · rw [if_neg hdrained] at hret hfound
        have hret : ret = .success := hret
        have hfound : area = s.area := hfound
        subst hret hfound
        refine ⟨.success, s.area, fl₁, ?_, hsame.later, .inl ⟨rfl, q, ?_, le_rfl, rfl⟩⟩
        · simp only [Storage.storageInit, hopen', hinit]
        · rw [hmem]
          exact h

/-- The drain leaves the last record. -/
theorem ConfigFlash.drain {n : Nat} (h : ConfigFlash p fa s q) (hn : q.length ≤ n) (hm : fl.mem = s.mem)
    (hr : fl.Grants .read) (hw : fl.Grants .write) :
    ∃ area fl' q', configDrain p n s.area fl = (area, fl') ∧ ConfigFlash p fa ⟨area, fl'.mem⟩ q' ∧
      q'.length ≤ 1 ∧ lastBoot q' = lastBoot q ∧ fl'.Grants .read := by
  induction n generalizing s q fl with
  | zero =>
    refine ⟨s.area, fl, q, rfl, ?_, by omega, rfl, hr⟩
    rw [hm]
    exact h
  | succ n ih =>
    have hdata := h.toLaid.hasData
    obtain ⟨fl₁, hlast, hsame⟩ := h.toLaid.isLastRecord_granted hm hr
    have hstay : ConfigFlash p fa ⟨s.area, fl₁.mem⟩ q := by
      rw [hsame.mem, hm]
      exact h
    cases q with
    | nil =>
      refine ⟨s.area, fl, [], ?_, ?_, Nat.zero_le _, rfl, hr⟩
      · simp only [configDrain, hdata, ne_eq, not_true_eq_false, decide_false, Bool.false_eq_true, if_false]
      · rw [hm]
        exact h
    | cons record q =>
      cases q with
      | nil =>
        refine ⟨s.area, fl₁, [record], ?_, hstay, le_rfl, rfl, hsame.later.grants hr⟩
        simp [configDrain, hdata, hlast]
      | cons record' q =>
        obtain ⟨hrec, htail⟩ := hstay.queued
        have hle := htail.le
        have hb := hstay.bounded
        have hkeep : ¬ (record' :: q = [] ∧ fa.faSize-s.area.wrIdx < minimumEmptySpace) := by simp
        obtain ⟨v, -, hv⟩ := h.records record List.mem_cons_self
        have hspan : recordSpan p record.length = 16 := by rw [hv, length_bootRecord, recordSpan_boot]
        simp only [hspan, List.length_cons] at hle hb
        rcases storageFree_faults hstay.area hstay.aligned (by simp only; omega) hrec.magic hrec.size with
          ⟨_, _, -, -, -, hrefused⟩ | ⟨fl₂, hlater, hmem, hfree⟩
        · exact absurd ⟨hsame.later.grants hr, hsame.later.grants hw⟩ hrefused
        · simp only [hspan] at hfree
          rw [if_neg (by omega)] at hfree
          have hlater' := hsame.later.trans hlater
          obtain ⟨area, fl', q', hrun, hinv, hlen, hsame', hr'⟩ :=
            ih (hstay.advance hkeep) (by simp only [List.length_cons] at hn ⊢; omega) hmem
              (hlater'.grants hr) (hlater'.grants hw)
          refine ⟨area, fl', q', ?_, hinv, hlen, hsame'.trans (lastBoot_cons record record' q).symm, hr'⟩
          rw [← hrun]
          simp [configDrain, hdata, hlast, hfree]

/-- On an area in order `config_init` loads the last record, or says that it cannot. -/
theorem ConfigFlash.init (h : ConfigFlash p fa s q) (hsize : 16 ∣ fa.faSize) (hpos : 0 < fa.faSize)
    (hm : fl.mem = s.mem) (hr : fl.Grants .read) (hw : fl.Grants .write) :
    ∃ ret config fl', configInit p fa fl = (ret, config, fl') ∧
      ((ret = .success ∧ config.initialized = true ∧ config.current = ⟨lastBoot q, .replicate 7 0⟩ ∧
        ∃ q', ConfigFlash p fa ⟨config.storageArea, fl'.mem⟩ q' ∧ lastBoot q' = lastBoot q) ∨
      (ret ≠ .success ∧ config.initialized = false ∧ fl'.mem = s.mem ∧
        ¬ (fl.Grants .access ∧ fl.Grants .erase))) := by
  obtain ⟨ret, area, fl₁, hinit, hlater, ⟨rfl, q₁, hinv₁, hlen₁, hlast₁⟩ | ⟨hret, hmem, hrefused⟩⟩ :=
    h.storageInit hsize hpos hm hr
  · have hle := h.queued.le
    have hb := h.bounded
    obtain ⟨area₂, fl₂, q₂, hdrain, hinv₂, hlen₂, hlast₂, hr₂⟩ :=
      hinv₁.drain (n := fa.faSize) (by omega) rfl (hlater.grants hr) (hlater.grants hw)
    obtain ⟨fl₃, hpeek, hsame⟩ := hinv₂.toLaid.peek_granted rfl hr₂ sizeofPersistentConfig
    have hpeek : storagePeek p area₂ sizeofPersistentConfig fl₂ = _ := hpeek
    have hcur : (if (fifoPeek q₂ sizeofPersistentConfig).ret = .success then
        PersistentConfig.ofBytes (fifoPeek q₂ sizeofPersistentConfig).buffer else .zero) =
        ⟨lastBoot q₂, .replicate 7 0⟩ := by
      cases q₂ with
      | nil => rfl
      | cons record q₂ =>
        have hnil : q₂ = [] := List.eq_nil_of_length_eq_zero (by simp only [List.length_cons] at hlen₂; omega)
        obtain ⟨v, -, rfl⟩ := hinv₂.records record List.mem_cons_self
        simp only [fifoPeek, length_bootRecord, sizeofPersistentConfig, lt_irrefl, if_false, if_true,
          ofBytes_bootRecord, hnil, lastBoot_singleton]
    refine ⟨.success, ⟨area₂, ⟨lastBoot q₂, .replicate 7 0⟩, true⟩, fl₃, ?_, .inl ⟨rfl, rfl, ?_, q₂, ?_, ?_⟩⟩
    · simp only [configInit, hinit, hdrain, hpeek, hcur]
    · rw [hlast₂, hlast₁]
    · rw [hsame.mem]
      exact hinv₂
    · rw [hlast₂, hlast₁]
  · refine ⟨ret, ⟨area, .zero, false⟩, fl₁, ?_, .inr ⟨hret, rfl, hmem, hrefused⟩⟩
    cases ret <;> first | exact absurd rfl hret | simp only [configInit, hinit]

/-! Runs. -/

/-- RAM and flash agree: as long as the last attempt to persist went through, the value in RAM is the
one that `config_init` would load. -/
structure ConfigInv (p : Platform) (fa : FlashArea) (r : ConfigRun) (s : StorageState) (q : Queue) : Prop where
  flash : ConfigFlash p fa s q
  mem : r.state.mem = s.mem
  area : r.state.config.initialized = true → r.state.config.storageArea = s.area
  current : r.state.config.initialized = true →
    ∃ v ≤ 1, r.state.config.current = ⟨v, .replicate 7 0⟩ ∧ (r.persistFailed = false → lastBoot q = v)

/-- No read and no write of `config_init` is refused, no erase of `config_set_reboot_behavior`, and that
is not called with the value in RAM after a failure to persist it. -/
def CallAllowed (r : ConfigRun) : ConfigCall → Prop
  | .init verdict => ∀ n, verdict n .read = true ∧ verdict n .write = true
  | .setRebootBehavior behavior verdict => (∀ n, verdict n .erase = true) ∧
      (r.state.config.initialized = true → r.state.config.current.boot = behavior → r.persistFailed = false)

/-- One call keeps the invariant; a value that was set is the last one in flash. -/
theorem ConfigInv.step {r : ConfigRun} {call : ConfigCall} (hsize : 16 ∣ fa.faSize) (hpos : 0 < fa.faSize)
    (h : ∃ s q, ConfigInv p fa r s q) (hcall : CallAllowed r call) :
    ∃ s q, ConfigInv p fa (configRunStep p fa r call).2 s q ∧
      ∀ behavior verdict, call = .setRebootBehavior behavior verdict →
        (configRunStep p fa r call).1 = .success → lastBoot q = behavior := by
  obtain ⟨s, q, h⟩ := h
  cases call with
  | init verdict =>
    obtain ⟨ret, config, fl', hinit, ⟨-, hinitialized, hcur, q', hflash, hlast⟩ | ⟨-, hinitialized, hmem, -⟩⟩ :=
      h.flash.init hsize hpos (show (⟨r.state.mem, verdict⟩ : Flash).mem = s.mem from h.mem)
        (fun n => (hcall n).1) (fun n => (hcall n).2)
    · refine ⟨⟨config.storageArea, fl'.mem⟩, q', ⟨hflash, ?_, ?_, ?_⟩, ?_⟩ <;>
        simp only [configRunStep, configStep, hinit]
      · exact fun _ => trivial
      · exact fun _ => ⟨lastBoot q, lastBoot_le h.flash.records, hcur, fun _ => hlast⟩
      · exact fun _ _ he => absurd he (by simp)
    · refine ⟨s, q, ⟨h.flash, ?_, ?_, ?_⟩, ?_⟩ <;> simp only [configRunStep, configStep, hinit]
      · exact hmem
      · exact fun hi => absurd hi (by simp [hinitialized])
      · exact fun hi => absurd hi (by simp [hinitialized])
      · exact fun _ _ he => absurd he (by simp)
  | setRebootBehavior behavior verdict =>
    obtain ⟨herase, hshortcut⟩ := hcall
    by_cases hp : Persists r.state.config behavior
    · have hi := hp.1
      obtain ⟨v, -, hcur, -⟩ := h.current hi
      have hv : behavior ≤ 1 := by
        rcases hp.2.2 with rfl | rfl <;> decide
      have hflash : ConfigFlash p fa ⟨r.state.config.storageArea, r.state.mem⟩ q := by
        rw [h.area hi, h.mem]
        exact h.flash
      obtain ⟨config, hconfig⟩ : ∃ config : Statics,
        { r.state.config with current := { r.state.config.current with boot := behavior } } = config := ⟨_, rfl⟩
      have hcur' : config.current = ⟨behavior, .replicate 7 0⟩ := by rw [← hconfig, hcur]
      have harea : config.storageArea = r.state.config.storageArea := by rw [← hconfig]
      rw [← harea] at hflash
      obtain ⟨ret, area, fl', q', hpersist, hinv, hlast⟩ :=
        (show ConfigFlash p fa ⟨config.storageArea, (⟨r.state.mem, verdict⟩ : Flash).mem⟩ q from hflash).persist
          hcur' hv herase
      have hset : configSetRebootBehavior p behavior r.state.config ⟨r.state.mem, verdict⟩ = _ :=
        configSetRebootBehavior_persists hp
      rw [hconfig, hpersist] at hset
      refine ⟨⟨area, fl'.mem⟩, q', ⟨hinv, ?_, ?_, ?_⟩, ?_⟩ <;>
        simp only [configRunStep, configStep, hset, if_pos hp]
      · exact fun _ => trivial
      · refine fun _ => ⟨behavior, hv, hcur', fun hok => hlast ?_⟩
        simpa using hok
      · rintro b _ hb hok
        rw [hlast hok]
        exact (ConfigCall.setRebootBehavior.inj hb).1
    · obtain ⟨ret, hset, hok⟩ : ∃ ret, configSetRebootBehavior p behavior r.state.config
          ⟨r.state.mem, verdict⟩ = (ret, r.state.config, ⟨r.state.mem, verdict⟩) ∧ _ :=
        configSetRebootBehavior_idle hp
      refine ⟨s, q, ⟨h.flash, ?_, ?_, ?_⟩, ?_⟩ <;> simp only [configRunStep, configStep, hset, if_neg hp]
      · exact h.mem
      · exact h.area
      · exact h.current
      · rintro b _ hb hsuccess
        obtain ⟨hi, hboot⟩ := hok.mp hsuccess
        obtain ⟨v, -, hcur, hlast⟩ := h.current hi
        have hv : v = behavior := by rw [← hboot, hcur]
        rw [hlast (hshortcut hi hboot), hv]
        exact (ConfigCall.setRebootBehavior.inj hb).1

/-- Flash as the module leaves it, erased flash included. -/
def InOrder (p : Platform) (fa : FlashArea) (m : Mem) : Prop := ∃ s q, ConfigFlash p fa s q ∧ s.mem = m

theorem inOrder_of_erased (h : Erased (content fa m) 0 fa.faSize) : InOrder p fa m :=
  ⟨_, [], configFlash_of_erased h, rfl⟩

theorem configPartition_size (b : Board) : 16 ∣ (configPartition b).faSize ∧ 0 < (configPartition b).faSize := by
  cases b <;> decide

/-- After any run of calls within the condition, a `config_set_reboot_behavior` that returns SUCCESS is
durable: a fault-free `config_init` right behind it loads the value. -/
theorem config_set_is_durable (p : Platform) (m : Mem) (calls : List ConfigCall) (behavior : UInt8)
    (verdict : Nat → FlashOp → Bool) (hm : InOrder p (configPartition p.board) m)
    (hcalls : Machine.Meets (configRunStep p (configPartition p.board)) CallAllowed ⟨.start m, false⟩
      (calls ++ [.setRebootBehavior behavior verdict])) :
    let r := (Machine.run (configRunStep p (configPartition p.board)) ⟨.start m, false⟩ calls).2
    let set := configStep p (configPartition p.board) r.state (.setRebootBehavior behavior verdict)
    let boot := configInit p (configPartition p.board) (.ok set.2.mem)
    set.1 = .success → boot.1 = .success ∧ configGetRebootBehavior boot.2.1 = some behavior := by
  obtain ⟨hsize, hpos⟩ := configPartition_size p.board
  obtain ⟨hrun, hlast, -⟩ := Machine.meets_append.mp hcalls
  obtain ⟨s₀, q₀, hflash₀, hm₀⟩ := hm
  have hstart : ∃ s q, ConfigInv p (configPartition p.board) ⟨.start m, false⟩ s q :=
    ⟨s₀, q₀, hflash₀, hm₀.symm, fun hi => absurd hi (by simp [ConfigState.start]),
      fun hi => absurd hi (by simp [ConfigState.start])⟩
  have hstep (r : ConfigRun) (call : ConfigCall) (h : ∃ s q, ConfigInv p (configPartition p.board) r s q)
      (hcall : CallAllowed r call) :
      ∃ s q, ConfigInv p (configPartition p.board) (configRunStep p (configPartition p.board) r call).2 s q := by
    obtain ⟨s, q, hnext, -⟩ := ConfigInv.step hsize hpos h hcall
    exact ⟨s, q, hnext⟩
  have hinv := Machine.meets_invariant hstep _ calls hstart hrun
  obtain ⟨s, q, hnext, hset⟩ := ConfigInv.step hsize hpos hinv hlast
  intro r set boot hret
  have hmem : set.2.mem = s.mem := hnext.mem
  have hboot : lastBoot q = behavior := hset behavior verdict rfl hret
  obtain ⟨ret, config, fl', hinit, ⟨hok, hi, hcur, -⟩ | ⟨-, -, -, hrefused⟩⟩ :=
    hnext.flash.init hsize hpos (show (Flash.ok set.2.mem).mem = s.mem from hmem)
      (Flash.grants_ok _ .read) (Flash.grants_ok _ .write)
  · have hboot' : boot = (ret, config, fl') := hinit
    rw [hboot', configGetRebootBehavior, hi, hcur, hboot]
    exact ⟨hok, rfl⟩
  · exact absurd ⟨Flash.grants_ok _ .access, Flash.grants_ok _ .erase⟩ hrefused

/-- A set that fails, a reboot, and the same set again. -/
theorem config_set_is_durable_pearl :
    configGetRebootBehavior (configInit (.of .pearl) (configPartition .pearl)
      (.ok (configStep (.of .pearl) (configPartition .pearl)
        (Machine.run (configRunStep (.of .pearl) (configPartition .pearl)) ⟨.start fun _ => 0xff, false⟩
          [.init fun _ _ => true, .setRebootBehavior bootAutoAlwaysOn fun _ op => decide (op ≠ .write),
            .init fun _ _ => true]).2.state
        (.setRebootBehavior bootAutoAlwaysOn fun _ _ => true)).2.mem)).2.1 = some bootAutoAlwaysOn := by
  refine (config_set_is_durable (.of .pearl) (fun _ => 0xff)
    [.init fun _ _ => true, .setRebootBehavior bootAutoAlwaysOn fun _ op => decide (op ≠ .write),
      .init fun _ _ => true] bootAutoAlwaysOn (fun _ _ => true)
    (inOrder_of_erased fun _ _ _ => rfl) ⟨?_, ⟨?_, ?_⟩, ?_, ⟨?_, ?_⟩, trivial⟩ ?_).2
  · exact fun _ => ⟨rfl, rfl⟩
  · exact fun _ => rfl
  · decide +kernel
  · exact fun _ => ⟨rfl, rfl⟩
  · exact fun _ => rfl
  · decide +kernel
  · decide +kernel

/-- The write of a set is refused, and the set returns INTERNAL. Called again it returns SUCCESS,
because RAM already has the value, and the next `config_init` loads the old one. -/
theorem retried_set_is_not_durable :
    let (rets, s) := Machine.run (configStep (.of .pearl) (configPartition .pearl)) (.start fun _ => 0xff)
      [.init fun _ _ => true, .setRebootBehavior bootAutoAlwaysOn fun _ op => decide (op ≠ .write),
        .setRebootBehavior bootAutoAlwaysOn fun _ _ => true]
    rets = [.success, .internal, .success] ∧
    configGetRebootBehavior (configInit (.of .pearl) (configPartition .pearl) (.ok s.mem)).2.1 =
      some bootButtonPress := by
  decide +kernel

end OrbFirmware.Config

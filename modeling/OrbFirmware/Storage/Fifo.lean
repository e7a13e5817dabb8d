import OrbFirmware.Machine
import OrbFirmware.Storage.Push

/-! A fault-free area is a FIFO of non-empty byte strings. -/
namespace OrbFirmware.Storage
open Nor

/-! The abstract FIFO: what each call may return, and the queue after it. -/

inductive StorageOp where
  | push (record : List UInt8)
  | peek (size : Nat)
  | free
  | isLastRecord
  | hasData
  deriving DecidableEq, Repr

inductive StorageOut where
  | code (ret : RetCode)
  | peeked (result : PeekResult)
  | flag (value : Bool)
  deriving DecidableEq, Repr

abbrev Queue := List (List UInt8)

/-- The oldest record, unless the buffer is shorter. -/
def fifoPeek (q : Queue) (size : Nat) : PeekResult :=
  match q with
  | [] => ⟨.notFound, [], size⟩
  | record :: _ =>
    if size < record.length then ⟨.noMem, [], size⟩ else ⟨.success, record, record.length⟩

inductive FifoAllows (capacity : Nat) : Queue → StorageOp → StorageOut → Prop where
  | pushed {q record} : record ≠ [] → FifoAllows capacity q (.push record) (.code .success)
  | pushFull {q record} : FifoAllows capacity q (.push record) (.code .noMem)
  | pushInvalid {q record} : record = [] ∨ capacity < record.length →
      FifoAllows capacity q (.push record) (.code .invalidParam)
  | peeked {q size} : FifoAllows capacity q (.peek size) (.peeked (fifoPeek q size))
  | freeEmpty : FifoAllows capacity [] .free (.code .notFound)
  | freed {record q} : FifoAllows capacity (record :: q) .free (.code .success)
  | isLastRecord {q} : FifoAllows capacity q .isLastRecord (.flag (decide (q.length = 1)))
  | hasData {q} : FifoAllows capacity q .hasData (.flag (decide (q ≠ [])))

def fifoNext (q : Queue) : StorageOp → StorageOut → Queue
  | .push record, .code .success => q ++ [record]
  | .free, .code .success => q.tail
  | _, _ => q

def fifo (capacity : Nat) : Machine.Spec Queue StorageOp StorageOut :=
  ⟨FifoAllows capacity, fifoNext⟩

/-! The area on a fault-free device. -/

structure StorageState where
  area : StorageArea
  mem : Mem

def storageStep (p : Platform) (s : StorageState) : StorageOp → StorageOut × StorageState
  | .push record =>
    let (ret, area, fl) := storagePush p s.area record (.ok s.mem)
    (.code ret, ⟨area, fl.mem⟩)
  | .peek size =>
    let (result, area, fl) := storagePeek p s.area size (.ok s.mem)
    (.peeked result, ⟨area, fl.mem⟩)
  | .free =>
    let (ret, area, fl) := storageFree p s.area (.ok s.mem)
    (.code ret, ⟨area, fl.mem⟩)
  | .isLastRecord =>
    let (value, fl) := storageIsLastRecord p s.area (.ok s.mem)
    (.flag value, ⟨s.area, fl.mem⟩)
  | .hasData => (.flag (storageHasData s.area), s)

/-- The length of every record that fits the area also fits the 16 bits of `record_size`. -/
def FitsSizeField (fa : FlashArea) : StorageOp → Prop
  | .push record => fa.faSize ≤ 0x10000 ∨ record.length < 0x10000
  | _ => True

instance (fa : FlashArea) (op : StorageOp) : Decidable (FitsSizeField fa op) :=
  match op with
  | .push record => inferInstanceAs (Decidable (fa.faSize ≤ 0x10000 ∨ record.length < 0x10000))
  | .peek _ | .free | .isLastRecord | .hasData => isTrue trivial

/-- `storage_init` on the content of the device. -/
def storageBoot (p : Platform) (fa : FlashArea) (m : Mem) : RetCode × StorageState :=
  let (ret, area, fl) := storageInit p fa (.ok m)
  (ret, ⟨area, fl.mem⟩)

/-- Records lie one behind the other from `rd` to `wr`. -/
def Queued (p : Platform) (c : Mem) : Nat → Queue → Nat → Prop
  | rd, [], wr => rd = wr
  | rd, record :: q, wr => RecordAt p c rd record ∧ Queued p c (rd+recordSpan p record.length) q wr

/-- The indices of an initialised area delimit its queue. -/
structure Laid (p : Platform) (fa : FlashArea) (s : StorageState) (q : Queue) : Prop where
  area : s.area.fa = some fa
  queued : Queued p (content fa s.mem) s.area.rdIdx q s.area.wrIdx
  nonempty : ∀ record ∈ q, record ≠ []
  bounded : s.area.wrIdx ≤ fa.faSize
  aligned : p.blk ∣ s.area.rdIdx

structure StorageInv (p : Platform) (fa : FlashArea) (s : StorageState) (q : Queue) : Prop
    extends Laid p fa s q where
  erased : Erased (content fa s.mem) s.area.wrIdx fa.faSize
  freed : 0 < s.area.rdIdx →
    8 ≤ s.area.rdIdx ∧ (headerAt (content fa s.mem) 0).magicState = recordInvalid

variable {p : Platform} {fa : FlashArea} {c c' : Mem} {rd wr : Nat} {q : Queue} {record : List UInt8}

theorem Queued.le (h : Queued p c rd q wr) : rd+8*q.length ≤ wr := by
  induction q generalizing rd with
  | nil => exact Nat.le_of_eq h
  | cons record q ih =>
    obtain ⟨-, hq⟩ := h
    have hs := le_recordSpan p record.length
    have hi := ih hq
    simp only [List.length_cons]
    omega

theorem Queued.congr (h : Queued p c rd q wr) (ha : AgreeOn c c' rd wr) : Queued p c' rd q wr := by
  induction q generalizing rd with
  | nil => exact h
  | cons record q ih =>
    obtain ⟨hr, hq⟩ := h
    have hs := le_recordSpan p record.length
    have hle := hq.le
    exact ⟨hr.congr (ha.mono le_rfl (by omega)), ih hq (ha.mono (by omega) le_rfl)⟩

theorem Queued.snoc (h : Queued p c rd q wr) (hr : RecordAt p c wr record) :
    Queued p c rd (q ++ [record]) (wr+recordSpan p record.length) := by
  induction q generalizing rd with
  | nil =>
    have hrd : rd = wr := h
    subst hrd
    exact ⟨hr, rfl⟩
  | cons record' q ih => exact ⟨h.1, ih h.2⟩

theorem Queued.aligned (h : Queued p c rd q wr) (hrd : p.blk ∣ rd) : p.blk ∣ wr := by
  induction q generalizing rd with
  | nil =>
    have he : rd = wr := h
    exact he ▸ hrd
  | cons record q ih => exact ih h.2 (Nat.dvd_add hrd (recordSpan_dvd p record.length))

/-! Storing on erased flash. -/

theorem pushed_outside {a : Nat} (h : a < wr ∨ wr+recordSpan p record.length ≤ a) :
    pushed p c wr record a = c a := by
  have hlen := length_paddedRecord p record
  have hs := le_recordSpan p record.length
  rw [pushed, program_outside (by simp only [length_bytes, sizeofStorageHeader]; omega),
    program_outside (by omega)]

theorem pushed_recordAt (hfit : record.length < 0x10000)
    (he : Erased c wr (wr+recordSpan p record.length)) :
    RecordAt p (pushed p c wr record) wr record := by
  have hlen := length_paddedRecord p record
  have hs := le_recordSpan p record.length
  have hhdr : slice (pushed p c wr record) wr sizeofStorageHeader = (headerOf p record).bytes := by
    have hz : Erased (program c (wr+8) (paddedRecord p record)) wr
        (wr+(headerOf p record).bytes.length) := by
      intro a h1 h2
      simp only [length_bytes, sizeofStorageHeader] at h2
      rw [program_outside (by omega)]
      exact he a h1 (by omega)
    rw [pushed, ← length_bytes (headerOf p record)]
    exact slice_program_erased hz
  have hhead : headerAt (pushed p c wr record) wr = headerOf p record := headerAt_eq_of_slice hhdr
  refine ⟨by rw [hhead]; rfl, ?_, by rw [hhead]; rfl, ?_⟩
  · rw [hhead, headerOf, UInt16.toNat_ofNat', Nat.mod_eq_of_lt hfit]
  · rw [pushed, slice_program_outside (by simp only [length_bytes, sizeofStorageHeader]; omega)]
    exact slice_program_record (he.mono (by omega) (by omega))

theorem pushAccepted_of_erased (hal : p.blk ∣ wr) (he : Erased c wr (wr+recordSpan p record.length)) :
    PushAccepted p c wr record := by
  have hlen := length_paddedRecord p record
  have hs := le_recordSpan p record.length
  have hpay : Erased c (wr+8) (wr+8+(paddedRecord p record).length) := he.mono (by omega) (by omega)
  have hd : flashWriteBlockSize p.board ∣ (paddedRecord p record).length := paddedRecord_dvd p record
  refine ⟨deviceWrite_erased (Nat.dvd_add hal (blk_dvd_eight p)) hd hpay, ?_,
    deviceWrite_erased hal (blk_dvd_eight p) ?_⟩
  · rw [slice_program_record hpay]
  · intro a h1 h2
    simp only [length_bytes, sizeofStorageHeader] at h2
    rw [program_outside (by omega)]
    exact he a h1 (by omega)

/-! One lemma per call: what it returns, and that the area still holds the queue. -/

theorem laid_empty (p : Platform) (fa : FlashArea) (m : Mem) : Laid p fa ⟨⟨some fa, 0, 0⟩, m⟩ [] :=
  ⟨rfl, rfl, fun _ hr => absurd hr List.not_mem_nil, Nat.zero_le _, dvd_zero _⟩

theorem storageInv_of_erased {m : Mem} (h : Erased (content fa m) 0 fa.faSize) :
    StorageInv p fa ⟨⟨some fa, 0, 0⟩, m⟩ [] :=
  ⟨laid_empty p fa m, h, fun h0 => absurd h0 (lt_irrefl 0)⟩

variable {s : StorageState}

theorem Laid.peek (h : Laid p fa s q) (size : Nat) :
    storagePeek p s.area size (.ok s.mem) = (fifoPeek q size, s.area, .ok s.mem) := by
  have hq := h.queued
  cases q with
  | nil =>
    have he : s.area.rdIdx = s.area.wrIdx := hq
    simp only [storagePeek, h.area, if_pos he, fifoPeek]
  | cons record q =>
    obtain ⟨hr, htail⟩ := hq
    have hs := le_recordSpan p record.length
    have hle := htail.le
    have hb := h.bounded
    rw [storagePeek_ok h.area (by omega) (by omega) hr, fifoPeek]
    split <;> rfl

theorem StorageInv.free_empty (h : StorageInv p fa s []) :
    storageFree p s.area (.ok s.mem) = (.notFound, s.area, .ok s.mem) := by
  have he : s.area.rdIdx = s.area.wrIdx := h.queued
  refine storageFree_notFound h.area ?_
  intro hb
  rw [he, headerAt_erased h.erased (by omega)]
  exact recordUnused_ne_valid

/-- The two ends of `storage_free`: the whole area erased when that was the last record and little
room is left, or the read index moved on. -/
theorem Laid.free (h : Laid p fa s (record :: q)) :
    (q = [] ∧ fa.faSize-s.area.wrIdx < minimumEmptySpace ∧
      storageFree p s.area (.ok s.mem) = (.success, ⟨some fa, 0, 0⟩,
        .ok (erase (zeroHeader s.mem (fa.faOff+s.area.rdIdx)) fa.faOff fa.faSize))) ∨
    (¬ (q = [] ∧ fa.faSize-s.area.wrIdx < minimumEmptySpace) ∧
      storageFree p s.area (.ok s.mem) =
        (.success, { s.area with rdIdx := s.area.rdIdx+recordSpan p record.length },
          .ok (zeroHeader s.mem (fa.faOff+s.area.rdIdx))) ∧
      Laid p fa ⟨{ s.area with rdIdx := s.area.rdIdx+recordSpan p record.length },
        zeroHeader s.mem (fa.faOff+s.area.rdIdx)⟩ q) := by
  obtain ⟨hr, htail⟩ := h.queued
  have hs := le_recordSpan p record.length
  have hle := htail.le
  have hb := h.bounded
  have hfree := storageFree_ok h.area h.aligned (by omega) hr.magic hr.size
  have hlast : s.area.wrIdx ≤ s.area.rdIdx+recordSpan p record.length ↔ q = [] := by
    constructor
    · intro hdrain
      exact List.eq_nil_of_length_eq_zero (by omega)
    · rintro rfl
      have he : s.area.rdIdx+recordSpan p record.length = s.area.wrIdx := htail
      omega
  simp only [hlast] at hfree
  by_cases hdrain : q = [] ∧ fa.faSize-s.area.wrIdx < minimumEmptySpace
  · refine .inl ⟨hdrain.1, hdrain.2, ?_⟩
    rw [hfree, if_pos hdrain, h.area]
  · refine .inr ⟨hdrain, by rw [hfree, if_neg hdrain], h.area, htail.congr ?_,
      fun r hr => h.nonempty r (List.mem_cons_of_mem record hr), hb,
      Nat.dvd_add h.aligned (recordSpan_dvd p record.length)⟩
    exact fun a h1 _ => (content_zeroHeader (.inr (by omega))).symm

/-- Freeing drops the oldest record, also when the whole area is erased on the way. -/
theorem StorageInv.free (h : StorageInv p fa s (record :: q)) :
    ∃ area m, storageFree p s.area (.ok s.mem) = (.success, area, .ok m) ∧
      StorageInv p fa ⟨area, m⟩ q := by
  rcases h.toLaid.free with ⟨rfl, -, hfree⟩ | ⟨-, hfree, hlaid⟩
  · rw [hfree]
    exact ⟨_, _, rfl, storageInv_of_erased (erasedFrom_erase (fun _ _ => rfl)).erased⟩
  · have hs := le_recordSpan p record.length
    have hle : s.area.rdIdx+recordSpan p record.length+8*q.length ≤ s.area.wrIdx := hlaid.queued.le
    have hb := h.bounded
    have hout {a : Nat} (ha : a < s.area.rdIdx ∨ s.area.rdIdx+8 ≤ a) :
        content fa s.mem a = content fa (zeroHeader s.mem (fa.faOff+s.area.rdIdx)) a :=
      (content_zeroHeader ha).symm
    rw [hfree]
    refine ⟨_, _, rfl, hlaid, h.erased.congr (fun a h1 h2 => hout (by omega)),
      fun _ => ⟨by simp only; omega, ?_⟩⟩
    by_cases h0 : s.area.rdIdx = 0
    · have hz : headerAt (content fa (zeroHeader s.mem (fa.faOff+s.area.rdIdx))) 0 = ⟨0, 0, 0, 0⟩ := by
        rw [zeroHeader, content_program, h0]
        exact headerAt_zeros (slice_program_zeros _ 0 8)
      rw [hz]
      rfl
    · obtain ⟨h8, hm⟩ := h.freed (by omega)
      rw [← hm, headerAt_congr (fun a h1 h2 => (hout (by omega)).symm)]

/-- A push that the flash takes appends the record, if it is then in flash. -/
theorem Laid.push (h : Laid p fa s q) (hne : record ≠ [])
    (hfit : s.area.wrIdx+recordSpan p record.length ≤ fa.faSize)
    (hacc : PushAccepted p (content fa s.mem) s.area.wrIdx record)
    (hat : RecordAt p (pushed p (content fa s.mem) s.area.wrIdx record) s.area.wrIdx record) :
    ∃ m, storagePush p s.area record (.ok s.mem) =
        (.success, { s.area with wrIdx := s.area.wrIdx+recordSpan p record.length }, .ok m) ∧
      content fa m = pushed p (content fa s.mem) s.area.wrIdx record ∧
      (∀ a, a < fa.faOff+s.area.wrIdx ∨ fa.faOff+s.area.wrIdx+recordSpan p record.length ≤ a →
        m a = s.mem a) ∧
      Laid p fa ⟨{ s.area with wrIdx := s.area.wrIdx+recordSpan p record.length }, m⟩ (q ++ [record]) := by
  have hal : p.blk ∣ s.area.wrIdx := h.queued.aligned h.aligned
  have hlen := length_paddedRecord p record
  have hspan := le_recordSpan p record.length
  have hc : content fa (program (program s.mem (fa.faOff+(s.area.wrIdx+8)) (paddedRecord p record))
      (fa.faOff+s.area.wrIdx) (headerOf p record).bytes) =
      pushed p (content fa s.mem) s.area.wrIdx record := by
    rw [content_program, content_program, pushed]
  rw [storagePush_accepted h.area hal hne hfit hacc]
  refine ⟨_, rfl, hc, fun a ha => ?_, h.area, ?_, fun r hr => ?_, hfit, h.aligned⟩
  · rw [program_outside (by simp only [length_bytes, sizeofStorageHeader]; omega), program_outside (by omega)]
  · have hbelow : AgreeOn (content fa s.mem) (pushed p (content fa s.mem) s.area.wrIdx record)
        s.area.rdIdx s.area.wrIdx := fun a _ h2 => (pushed_outside (.inl h2)).symm
    rw [hc]
    exact (h.queued.congr hbelow).snoc hat
  · cases List.mem_append.mp hr with
    | inl hq => exact h.nonempty r hq
    | inr hnew => exact (List.mem_singleton.mp hnew) ▸ hne

theorem StorageInv.push (h : StorageInv p fa s q) (hop : FitsSizeField fa (.push record))
    (hne : record ≠ []) (hfit : s.area.wrIdx+recordSpan p record.length ≤ fa.faSize) :
    ∃ m, storagePush p s.area record (.ok s.mem) =
        (.success, { s.area with wrIdx := s.area.wrIdx+recordSpan p record.length }, .ok m) ∧
      StorageInv p fa ⟨{ s.area with wrIdx := s.area.wrIdx+recordSpan p record.length }, m⟩
        (q ++ [record]) := by
  have hal : p.blk ∣ s.area.wrIdx := h.queued.aligned h.aligned
  have hs := le_recordSpan p record.length
  have hle := h.queued.le
  have hlen : record.length < 0x10000 := by
    cases hop with
    | inl hsize => omega
    | inr hlen => exact hlen
  have her := h.erased.mono le_rfl hfit
  obtain ⟨m, hpush, hc, -, hlaid⟩ :=
    h.toLaid.push hne hfit (pushAccepted_of_erased hal her) (pushed_recordAt hlen her)
  refine ⟨m, hpush, hlaid, fun a h1 h2 => ?_, fun h0 => ?_⟩
  · rw [hc, pushed_outside (.inr h1)]
    exact h.erased a (by simp only at h1; omega) h2
  · obtain ⟨h8, hm⟩ := h.freed h0
    have h8 : 8 ≤ s.area.rdIdx := h8
    refine ⟨h8, ?_⟩
    rw [hc, ← hm, headerAt_congr (fun a _ h2 => pushed_outside (.inl (by omega)))]

theorem storagePush_invalidParam {area : StorageArea} {fl : Flash} (harea : area.fa = some fa)
    (h : record = [] ∨ fa.faSize < record.length) :
    storagePush p area record fl = (.invalidParam, area, fl) := by
  by_cases hz : record.length = 0
  · simp only [storagePush, if_pos hz]
  · cases h with
    | inl he => exact absurd (by rw [he]; rfl) hz
    | inr hlong => simp only [storagePush, if_neg hz, harea, if_pos hlong]

theorem storagePush_noMem {area : StorageArea} {fl : Flash} (harea : area.fa = some fa)
    (hok : ¬ (record = [] ∨ fa.faSize < record.length))
    (h : fa.faSize < area.wrIdx+recordSpan p record.length) :
    storagePush p area record fl = (.noMem, area, fl) := by
  obtain ⟨hne, hlong⟩ := not_or.mp hok
  have hz : record.length ≠ 0 := by simpa using hne
  simp only [storagePush, if_neg hz, harea, if_neg hlong, if_pos h]

theorem Laid.isLastRecord (h : Laid p fa s q) :
    storageIsLastRecord p s.area (.ok s.mem) = (decide (q.length = 1), .ok s.mem) := by
  have hq := h.queued
  cases q with
  | nil =>
    have he : s.area.rdIdx = s.area.wrIdx := hq
    simp [storageIsLastRecord, h.area, he]
  | cons record q =>
    obtain ⟨hr, htail⟩ := hq
    have hs := le_recordSpan p record.length
    have hle := htail.le
    have hb := h.bounded
    have hh := flashAreaRead_ok (show s.area.rdIdx+sizeofStorageHeader ≤ fa.faSize by
      simp only [sizeofStorageHeader]; omega) s.mem
    have hhd : StorageHeader.ofBytes (slice (content fa s.mem) s.area.rdIdx sizeofStorageHeader) =
      headerAt (content fa s.mem) s.area.rdIdx := rfl
    have hd : decide (s.area.wrIdx ≤ s.area.rdIdx+recordSpan p record.length) =
        decide ((record :: q).length = 1) := by
      cases q with
      | nil =>
        have he : s.area.rdIdx+recordSpan p record.length = s.area.wrIdx := htail
        simp [he]
      | cons record' q =>
        simp only [List.length_cons] at hle ⊢
        rw [decide_eq_false (by omega), decide_eq_false (by omega)]
    simp only [storageIsLastRecord, h.area, hh, hhd, hr.magic, hr.size, ne_eq, not_true_eq_false,
      if_false, if_neg (show s.area.rdIdx ≠ s.area.wrIdx by omega), hd]

theorem Laid.hasData (h : Laid p fa s q) :
    storageHasData s.area = decide (q ≠ []) := by
  have hle := h.queued.le
  cases q with
  | nil =>
    have he : s.area.rdIdx = s.area.wrIdx := h.queued
    simp [storageHasData, h.area, he]
  | cons record q =>
    simp only [List.length_cons] at hle
    simp [storageHasData, h.area, show s.area.rdIdx ≠ s.area.wrIdx by omega]

/-- Every call acts as the FIFO does, and keeps the area in order. -/
theorem storageStep_inv (s : StorageState) (q : Queue) (op : StorageOp) (hop : FitsSizeField fa op)
    (h : StorageInv p fa s q) :
    (fifo fa.faSize).allows q op (storageStep p s op).1 ∧
      StorageInv p fa (storageStep p s op).2 ((fifo fa.faSize).next q op (storageStep p s op).1) := by
  cases op with
  | push record =>
    by_cases hparam : record = [] ∨ fa.faSize < record.length
    · simp only [storageStep, storagePush_invalidParam h.area hparam]
      exact ⟨.pushInvalid hparam, h⟩
    · by_cases hfull : fa.faSize < s.area.wrIdx+recordSpan p record.length
      · simp only [storageStep, storagePush_noMem h.area hparam hfull]
        exact ⟨.pushFull, h⟩
      · obtain ⟨hne, -⟩ := not_or.mp hparam
        obtain ⟨m, hpush, hinv⟩ := h.push hop hne (not_lt.mp hfull)
        simp only [storageStep, hpush]
        exact ⟨.pushed hne, hinv⟩
  | peek size =>
    simp only [storageStep, h.peek]
    exact ⟨.peeked, h⟩
  | free =>
    cases q with
    | nil =>
      simp only [storageStep, h.free_empty]
      exact ⟨.freeEmpty, h⟩
    | cons record q =>
      obtain ⟨area, m, hfree, hinv⟩ := h.free
      simp only [storageStep, hfree]
      exact ⟨.freed, hinv⟩
  | isLastRecord =>
    simp only [storageStep, h.isLastRecord]
    exact ⟨.isLastRecord, h⟩
  | hasData =>
    simp only [storageStep, h.hasData]
    exact ⟨.hasData, h⟩

/-! From `storage_init` on. -/

theorem storageBoot_erased_area {m : Mem} (h : Erased (content fa m) 0 fa.faSize) :
    (storageBoot p fa m).2.area = ⟨some fa, 0, 0⟩ ∧
    ((storageBoot p fa m).2.mem = m ∨ (storageBoot p fa m).2.mem = erase m fa.faOff fa.faSize) := by
  have ha : (initArea p fa ⟨some fa, 0, 0⟩ (.ok m)).2.1 = ⟨some fa, 0, 0⟩ := initArea_erased h
  simp only [storageBoot, storageInit_ok, ha]
  refine ⟨trivial, ?_⟩
  split
  · exact .inl rfl
  · exact .inr rfl

theorem storageBoot_erased {m : Mem} (h : Erased (content fa m) 0 fa.faSize) :
    StorageInv p fa (storageBoot p fa m).2 [] := by
  obtain ⟨harea, hmem⟩ := storageBoot_erased_area (p := p) h
  cases hb : (storageBoot p fa m).2 with
  | mk area mem =>
    rw [hb] at harea hmem
    have ha : area = ⟨some fa, 0, 0⟩ := harea
    subst ha
    refine storageInv_of_erased ?_
    rcases hmem with rfl | rfl
    · exact h
    · exact (erasedFrom_erase (fun _ _ => rfl)).erased

/-- Storage is a bounded FIFO: from `storage_init` on an erased area, and from any other area in
order, every sequence of calls returns what the FIFO returns and leaves the area in order; a push
that does not succeed changes neither flash nor indices, and says why. -/
theorem storage_is_bounded_fifo (p : Platform) (fa : FlashArea) (hsize : fa.faSize ≤ 0x10000) :
    (∀ m, Erased (content fa m) 0 fa.faSize → StorageInv p fa (storageBoot p fa m).2 []) ∧
    ∀ (s : StorageState) (q : Queue) (ops : List StorageOp), StorageInv p fa s q →
      let outs := (Machine.run (storageStep p) s ops).1
      let s' := (Machine.run (storageStep p) s ops).2
      (∃ q', (fifo fa.faSize).Run q ops outs q' ∧ StorageInv p fa s' q') ∧
      s'.area.rdIdx ≤ s'.area.wrIdx ∧ s'.area.wrIdx ≤ fa.faSize ∧
      Erased (content fa s'.mem) s'.area.wrIdx fa.faSize ∧
      ∀ record,
        if record = [] ∨ fa.faSize < record.length then
          storageStep p s' (.push record) = (.code .invalidParam, s')
        else if fa.faSize < s'.area.wrIdx+recordSpan p record.length then
          storageStep p s' (.push record) = (.code .noMem, s')
        else (storageStep p s' (.push record)).1 = .code .success := by
  refine ⟨fun m h => storageBoot_erased h, fun s q ops h => ?_⟩
  have hop (op : StorageOp) : FitsSizeField fa op := by
    cases op with
    | push record => exact .inl hsize
    | _ => trivial
  obtain ⟨q', hrun, hinv⟩ := Machine.run_simulates storageStep_inv s q ops (fun op _ => hop op) h
  have hle := hinv.queued.le
  refine ⟨⟨q', hrun, hinv⟩, by omega, hinv.bounded, hinv.erased, fun record => ?_⟩
  by_cases hparam : record = [] ∨ fa.faSize < record.length
  · rw [if_pos hparam, storageStep, storagePush_invalidParam hinv.area hparam]
    rfl
  · rw [if_neg hparam]
    by_cases hfull : fa.faSize < (Machine.run (storageStep p) s ops).2.area.wrIdx+
        recordSpan p record.length
    · rw [if_pos hfull, storageStep, storagePush_noMem hinv.area hparam hfull]
      rfl
    · obtain ⟨m, hpush, -⟩ := hinv.push (.inl hsize) (not_or.mp hparam).1 (not_lt.mp hfull)
      rw [if_neg hfull, storageStep, hpush]

/-- On erased flash, with Zephyr's CRC, a call of each kind. -/
theorem storage_is_bounded_fifo_pearl :
    ∃ q', (fifo 0x1000).Run [] [.push [1, 2, 3], .isLastRecord, .peek 2, .free, .hasData]
      (Machine.run (storageStep (.of .pearl)) (storageBoot (.of .pearl) (storagePartition .pearl)
        (fun _ => 0xff)).2 [.push [1, 2, 3], .isLastRecord, .peek 2, .free, .hasData]).1 q' := by
  have h := storage_is_bounded_fifo (.of .pearl) (storagePartition .pearl) (by decide)
  obtain ⟨q', hrun, -⟩ := (h.2 _ [] [.push [1, 2, 3], .isLastRecord, .peek 2, .free, .hasData]
    (h.1 (fun _ => 0xff) (fun _ _ _ => rfl))).1
  exact ⟨q', hrun⟩

/-- A record longer than the area is refused with INVALID_PARAM: the push neither appends nor
returns NO_MEM. -/
theorem push_longer_than_area :
    ¬ ((storageStep (.of .pearl) (storageBoot (.of .pearl) (storagePartition .pearl)
        (fun _ => 0xff)).2 (.push (List.replicate 0x1001 0))).1 = .code .success ∨
      (storageStep (.of .pearl) (storageBoot (.of .pearl) (storagePartition .pearl)
        (fun _ => 0xff)).2 (.push (List.replicate 0x1001 0))).1 = .code .noMem) := by
  have hinv : StorageInv (.of .pearl) (storagePartition .pearl) (storageBoot (.of .pearl)
      (storagePartition .pearl) (fun _ => 0xff)).2 [] := storageBoot_erased (fun _ _ _ => rfl)
  have hlong : (storagePartition .pearl).faSize < (List.replicate 0x1001 (0 : UInt8)).length := by
    rw [List.length_replicate]
    decide
  rw [storageStep, storagePush_invalidParam hinv.area (.inr hlong)]
  simp

end OrbFirmware.Storage

import Mathlib.Logic.Function.Basic
import OrbFirmware.Storage.Records

/-! The pubsub area and the config area on one flash device. -/
namespace OrbFirmware.Storage
open Nor

inductive Partition where
  | storage | config
  deriving DecidableEq, Repr

def Partition.other : Partition → Partition
  | .storage => .config
  | .config => .storage

def Partition.area (b : Board) : Partition → FlashArea
  | .storage => storagePartition b
  | .config => configPartition b

structure Device where
  areas : Partition → StorageArea
  mem : Mem

def Device.at (d : Device) (i : Partition) : StorageState := ⟨d.areas i, d.mem⟩

def deviceStep (p : Platform) (d : Device) (call : Partition × StorageOp) : StorageOut × Device :=
  let (out, s) := storageStep p (d.at call.1) call.2
  (out, ⟨Function.update d.areas call.1 s.area, s.mem⟩)

/-- `pubsub_storage_init` and `config_init` open one area each. -/
def deviceBoot (p : Platform) (fas : Partition → FlashArea) (m : Mem) : Device :=
  let (_, storage) := storageBoot p (fas .storage) m
  let (_, config) := storageBoot p (fas .config) storage.mem
  ⟨fun i => match i with
    | .storage => storage.area
    | .config => config.area, config.mem⟩

def areaRegion (fa : FlashArea) : Region := ⟨fa.faOff, fa.faOff+fa.faSize⟩

/-- Where in flash the queue of an area lies. -/
def queueRegion (fa : FlashArea) (area : StorageArea) : Region := ⟨fa.faOff+area.rdIdx, fa.faOff+area.wrIdx⟩

/-- The call leaves the region `r` alone and its own area in order: a record goes to its place outside
`r` or, when the flash does not take it, the area that is then erased is outside `r`; so is an area
that is erased because it drains; and nothing is freed in an empty area. -/
def Spares (p : Platform) (fa : FlashArea) (s : StorageState) (r : Region) : StorageOp → Prop
  | .push record =>
    record = [] ∨ fa.faSize < record.length ∨ fa.faSize < s.area.wrIdx+recordSpan p record.length ∨
    PushAccepted p (content fa s.mem) s.area.wrIdx record ∧
      RecordAt p (pushed p (content fa s.mem) s.area.wrIdx record) s.area.wrIdx record ∧
      Region.Apart ⟨fa.faOff+s.area.wrIdx, fa.faOff+s.area.wrIdx+recordSpan p record.length⟩ r ∨
    ¬ PushAccepted p (content fa s.mem) s.area.wrIdx record ∧ (areaRegion fa).Apart r
  | .free =>
    if s.area.rdIdx = s.area.wrIdx then
      s.area.rdIdx+8 ≤ fa.faSize → (headerAt (content fa s.mem) s.area.rdIdx).magicState ≠ recordValid
    else
      s.area.wrIdx = s.area.rdIdx+recordSpan p (headerAt (content fa s.mem) s.area.rdIdx).recordSize.toNat →
        fa.faSize-s.area.wrIdx < minimumEmptySpace → (areaRegion fa).Apart r
  | _ => True

instance (p : Platform) (fa : FlashArea) (s : StorageState) (r : Region) (op : StorageOp) :
    Decidable (Spares p fa s r op) :=
  match op with
  | .push record => inferInstanceAs (Decidable (record = [] ∨ fa.faSize < record.length ∨
      fa.faSize < s.area.wrIdx+recordSpan p record.length ∨
      PushAccepted p (content fa s.mem) s.area.wrIdx record ∧
        RecordAt p (pushed p (content fa s.mem) s.area.wrIdx record) s.area.wrIdx record ∧
        Region.Apart ⟨fa.faOff+s.area.wrIdx, fa.faOff+s.area.wrIdx+recordSpan p record.length⟩ r ∨
      ¬ PushAccepted p (content fa s.mem) s.area.wrIdx record ∧ (areaRegion fa).Apart r))
  | .free => inferInstanceAs (Decidable (if s.area.rdIdx = s.area.wrIdx then _ else _))
  | .peek _ | .isLastRecord | .hasData => isTrue trivial

variable {p : Platform} {fa : FlashArea} {fas : Partition → FlashArea} {s : StorageState} {d : Device}
  {r : Region} {q : Queue} {record : List UInt8} {m : Mem}

/-- An area whose queue lies in a region that is left alone still holds its queue. -/
theorem Laid.frame (h : Laid p fa s q)
    (hm : ∀ a, fa.faOff+s.area.rdIdx ≤ a → a < fa.faOff+s.area.wrIdx → m a = s.mem a) :
    Laid p fa ⟨s.area, m⟩ q :=
  ⟨h.area, h.queued.congr (fun a h1 h2 => (hm (fa.faOff+a) (by omega) (by omega)).symm), h.nonempty,
    h.bounded, h.aligned⟩

/-- A call that spares a region apart from the queue: the region keeps its bytes and stays apart from
the queue, which stays in order. -/
theorem Laid.step (h : Laid p fa s q) (hr : (queueRegion fa s.area).Apart r) (op : StorageOp)
    (hs : Spares p fa s r op) :
    (∃ q', Laid p fa (storageStep p s op).2 q') ∧
    (∀ a, r.lo ≤ a → a < r.hi → (storageStep p s op).2.mem a = s.mem a) ∧
    (queueRegion fa (storageStep p s op).2.area).Apart r := by
  cases op with
  | push record =>
    by_cases hparam : record = [] ∨ fa.faSize < record.length
    · rw [storageStep, storagePush_invalidParam h.area hparam]
      exact ⟨⟨q, h⟩, fun _ _ _ => rfl, hr⟩
    · by_cases hfull : fa.faSize < s.area.wrIdx+recordSpan p record.length
      · rw [storageStep, storagePush_noMem h.area hparam hfull]
        exact ⟨⟨q, h⟩, fun _ _ _ => rfl, hr⟩
      · obtain ⟨hne, hlong⟩ := not_or.mp hparam
        rcases hs with hempty | hlong' | hfull' | ⟨hacc, hat, hplace⟩ | ⟨hrej, harea⟩
        · exact absurd hempty hne
        · exact absurd hlong' hlong
        · exact absurd hfull' hfull
        · obtain ⟨m, hpush, -, hout, hlaid⟩ := h.push hne (not_lt.mp hfull) hacc hat
          rw [storageStep, hpush]
          refine ⟨⟨_, hlaid⟩, fun a h1 h2 => hout a ?_, fun a h1 h2 hmem => ?_⟩
          · by_contra hin
            exact hplace a (by simp only; omega) (by simp only; omega) ⟨h1, h2⟩
          · -- the queue now goes up to the end of the new record
            simp only [queueRegion] at h1 h2
            by_cases hold : a < fa.faOff+s.area.wrIdx
            · exact hr a h1 hold hmem
            · exact hplace a (not_lt.mp hold) (by simp only; omega) hmem
        · obtain ⟨ret, m, hpush, -, herased⟩ := storagePush_rejected h.area
            (h.queued.aligned h.aligned) hne (not_lt.mp hfull) hrej
          rw [storageStep, hpush, h.area]
          refine ⟨⟨_, laid_empty p fa m⟩, fun a h1 h2 => herased.outside a ?_, fun a h1 h2 => ?_⟩
          · by_contra hin
            exact harea a (by simp only [areaRegion]; omega) (by simp only [areaRegion]; omega) ⟨h1, h2⟩
          · simp only [queueRegion] at h1 h2
            omega
  | free =>
    cases q with
    | nil =>
      have he : s.area.rdIdx = s.area.wrIdx := h.queued
      rw [Spares, if_pos he] at hs
      rw [storageStep, storageFree_notFound h.area hs]
      exact ⟨⟨_, h⟩, fun _ _ _ => rfl, hr⟩
    | cons record q =>
      obtain ⟨hat, htail⟩ := h.queued
      have hspan := le_recordSpan p record.length
      have hle := htail.le
      have hb := h.bounded
      have hzero {a : Nat} (h1 : r.lo ≤ a) (h2 : a < r.hi) :
          zeroHeader s.mem (fa.faOff+s.area.rdIdx) a = s.mem a := by
        refine program_outside ?_
        by_contra hin
        simp only [List.length_replicate] at hin
        exact hr a (by simp only [queueRegion]; omega) (by simp only [queueRegion]; omega) ⟨h1, h2⟩
      rcases h.free with ⟨rfl, hroom, hfree⟩ | ⟨-, hfree, hlaid⟩
      · have hend : s.area.rdIdx+recordSpan p record.length = s.area.wrIdx := htail
        rw [Spares, if_neg (by omega), hat.size] at hs
        have harea := hs hend.symm hroom
        simp only [storageStep, hfree]
        refine ⟨⟨_, laid_empty p fa _⟩, fun a h1 h2 => ?_, fun a h1 h2 => ?_⟩
        · rw [Flash.ok_mem, erase_outside, hzero h1 h2]
          by_contra hin
          exact harea a (by simp only [areaRegion]; omega) (by simp only [areaRegion]; omega) ⟨h1, h2⟩
        · simp only [queueRegion] at h1 h2
          omega
      · rw [storageStep, hfree]
        exact ⟨⟨_, hlaid⟩, fun a h1 h2 => hzero h1 h2,
          hr.mono (by simp only [queueRegion]; omega) (by simp only [queueRegion]; omega)⟩
  | peek size =>
    rw [storageStep, h.peek]
    exact ⟨⟨q, h⟩, fun _ _ _ => rfl, hr⟩
  | isLastRecord =>
    rw [storageStep, h.isLastRecord]
    exact ⟨⟨q, h⟩, fun _ _ _ => rfl, hr⟩
  | hasData => exact ⟨⟨q, h⟩, fun _ _ _ => rfl, hr⟩

/-- Both areas hold their queue, and the queues lie apart in flash. -/
structure DeviceInv (p : Platform) (fas : Partition → FlashArea) (d : Device) (qs : Partition → Queue) :
    Prop where
  laid : ∀ i, Laid p (fas i) (d.at i) (qs i)
  apart : ∀ i : Partition,
    (queueRegion (fas i) (d.areas i)).Apart (queueRegion (fas i.other) (d.areas i.other))

/-- The call spares what the other area has queued. -/
def SparesOther (p : Platform) (fas : Partition → FlashArea) (d : Device) (call : Partition × StorageOp) :
    Prop :=
  Spares p (fas call.1) (d.at call.1) (queueRegion (fas call.1.other) (d.areas call.1.other)) call.2

instance (p : Platform) (fas : Partition → FlashArea) (d : Device) (call : Partition × StorageOp) :
    Decidable (SparesOther p fas d call) :=
  inferInstanceAs (Decidable (Spares p (fas call.1) (d.at call.1)
    (queueRegion (fas call.1.other) (d.areas call.1.other)) call.2))

theorem other_ne (i : Partition) : i.other ≠ i := by
  cases i <;> decide

@[simp] theorem other_other (i : Partition) : i.other.other = i := by
  cases i <;> rfl

theorem eq_or_eq_other (i j : Partition) : j = i ∨ j = i.other := by
  cases i <;> cases j <;> decide

@[simp] theorem deviceStep_at_same (d : Device) (i : Partition) (op : StorageOp) :
    (deviceStep p d (i, op)).2.at i = (storageStep p (d.at i) op).2 := by
  simp [deviceStep, Device.at]

@[simp] theorem deviceStep_at_other (d : Device) (i : Partition) (op : StorageOp) :
    (deviceStep p d (i, op)).2.at i.other = ⟨d.areas i.other, (storageStep p (d.at i) op).2.mem⟩ := by
  simp [deviceStep, Device.at, Function.update_of_ne (other_ne i)]

theorem deviceStep_areas_other (d : Device) (i : Partition) (op : StorageOp) :
    (deviceStep p d (i, op)).2.areas i.other = d.areas i.other :=
  Function.update_of_ne (other_ne i) _ _

/-- A call that spares the other area leaves both in order, and the other one with the same queue. -/
theorem DeviceInv.step {qs : Partition → Queue} (h : DeviceInv p fas d qs) (i : Partition) (op : StorageOp)
    (hs : SparesOther p fas d (i, op)) :
    ∃ q, DeviceInv p fas (deviceStep p d (i, op)).2 (Function.update qs i q) := by
  obtain ⟨⟨q, hq⟩, hmem, hapart⟩ := (h.laid i).step (h.apart i) op hs
  have hother : Laid p (fas i.other) ⟨d.areas i.other, (storageStep p (d.at i) op).2.mem⟩ (qs i.other) :=
    (h.laid i.other).frame fun a h1 h2 => hmem a h1 h2
  have hown : (queueRegion (fas i) ((deviceStep p d (i, op)).2.at i).area).Apart
      (queueRegion (fas i.other) ((deviceStep p d (i, op)).2.at i.other).area) := by
    rw [deviceStep_at_same, deviceStep_at_other]
    exact hapart
  refine ⟨q, fun j => ?_, fun j => ?_⟩
  · cases eq_or_eq_other i j with
    | inl he =>
      subst he
      rw [deviceStep_at_same, Function.update_self]
      exact hq
    | inr he =>
      subst he
      rw [deviceStep_at_other, Function.update_of_ne (other_ne i)]
      exact hother
  · cases eq_or_eq_other i j with
    | inl he => exact he ▸ hown
    | inr he =>
      subst he
      rw [other_other]
      exact hown.symm

theorem DeviceInv.run {qs : Partition → Queue} (h : DeviceInv p fas d qs) (calls : List (Partition × StorageOp))
    (hcalls : Machine.Meets (deviceStep p) (SparesOther p fas) d calls) :
    ∃ qs', DeviceInv p fas (Machine.run (deviceStep p) d calls).2 qs' := by
  have hstep (d : Device) (call : Partition × StorageOp) (hd : ∃ qs, DeviceInv p fas d qs)
      (hs : SparesOther p fas d call) : ∃ qs, DeviceInv p fas (deviceStep p d call).2 qs := by
    obtain ⟨qs, hq⟩ := hd
    obtain ⟨q, hnext⟩ := hq.step call.1 call.2 hs
    exact ⟨_, hnext⟩
  exact Machine.meets_invariant (I := fun d => ∃ qs, DeviceInv p fas d qs) hstep d calls ⟨qs, h⟩ hcalls

theorem deviceBoot_inv (hs : Erased (content (fas .storage) m) 0 (fas .storage).faSize)
    (hc : Erased (content (fas .config) m) 0 (fas .config).faSize) :
    DeviceInv p fas (deviceBoot p fas m) fun _ => [] := by
  obtain ⟨hsa, hsm⟩ := storageBoot_erased_area (p := p) hs
  have hc' : Erased (content (fas .config) (storageBoot p (fas .storage) m).2.mem) 0 (fas .config).faSize := by
    intro a h1 h2
    cases hsm with
    | inl he =>
      rw [he]
      exact hc a h1 h2
    | inr he =>
      have hm : m ((fas .config).faOff+a) = 0xff := hc a h1 h2
      rw [he]
      simp only [content, view, erase, hm, ite_self]
  obtain ⟨hca, -⟩ := storageBoot_erased_area (p := p) hc'
  refine ⟨fun i => ?_, fun i a h1 h2 => ?_⟩
  · cases i with
    | storage =>
      simp only [deviceBoot, Device.at, hsa]
      exact laid_empty p _ _
    | config =>
      simp only [deviceBoot, Device.at, hca]
      exact laid_empty p _ _
  · cases i <;> simp only [deviceBoot, queueRegion, hsa, hca] at h1 h2 <;> omega

/-- In every run of calls on the two areas of Diamond in which each call spares what the other area
has queued, no call changes the records the other area holds. -/
theorem diamond_areas_independent (crc16Step : UInt16 → UInt8 → UInt16) :
    let p : Platform := ⟨.diamond, crc16Step⟩
    let fas := Partition.area .diamond
    (∀ m, Erased (content (fas .storage) m) 0 (fas .storage).faSize →
      Erased (content (fas .config) m) 0 (fas .config).faSize →
      DeviceInv p fas (deviceBoot p fas m) fun _ => []) ∧
    ∀ d qs, DeviceInv p fas d qs → ∀ calls i op,
      Machine.Meets (deviceStep p) (SparesOther p fas) d (calls ++ [(i, op)]) →
      let before := (Machine.run (deviceStep p) d calls).2
      areaRecords p (fas i.other) ((deviceStep p before (i, op)).2.at i.other) =
        areaRecords p (fas i.other) (before.at i.other) := by
  refine ⟨fun m hs hc => deviceBoot_inv hs hc, fun d qs h calls i op hmeets => ?_⟩
  obtain ⟨hcalls, hlast, -⟩ := Machine.meets_append.mp hmeets
  obtain ⟨qs', hinv⟩ := DeviceInv.run h calls hcalls
  obtain ⟨q, hstep⟩ := hinv.step i op hlast
  have hafter := (hstep.laid i.other).areaRecords
  rw [Function.update_of_ne (other_ne i)] at hafter
  exact hafter.trans (hinv.laid i.other).areaRecords.symm

theorem diamond_areas_independent_runs :
    let d := (Machine.run (deviceStep (.of .diamond)) (deviceBoot (.of .diamond) (Partition.area .diamond)
      fun _ => 0xff) [(.storage, .push [1, 2]), (.storage, .push [3]), (.storage, .free)]).2
    areaRecords (.of .diamond) (storagePartition .diamond)
      ((deviceStep (.of .diamond) d (.config, .push [4])).2.at .storage) =
      areaRecords (.of .diamond) (storagePartition .diamond) (d.at .storage) := by
  have h := diamond_areas_independent crc16CcittStep
  exact h.2 _ _ (h.1 (fun _ => 0xff) (fun _ _ _ => rfl) (fun _ _ _ => rfl))
    [(.storage, .push [1, 2]), (.storage, .push [3]), (.storage, .free)] .config (.push [4])
    (by decide +kernel)

/-! The overlap: `config_partition` starts in the middle of Diamond's `storage_partition`. -/

theorem StorageInv.step_push (h : StorageInv p fa s q) (hop : FitsSizeField fa (.push record)) (hne : record ≠ [])
    (hfit : s.area.wrIdx+recordSpan p record.length ≤ fa.faSize) :
    StorageInv p fa (storageStep p s (.push record)).2 (q ++ [record]) ∧
    (storageStep p s (.push record)).2.area =
      { s.area with wrIdx := s.area.wrIdx+recordSpan p record.length } := by
  obtain ⟨m, hpush, hinv⟩ := h.push hop hne hfit
  simp only [storageStep, hpush]
  exact ⟨hinv, trivial⟩

/-- A first config record of a one byte goes over a zero byte of the storage area: config is erased. -/
theorem config_push_erases {m : Mem} (hzero : m 0x7F008 = 0) :
    ∃ out m', storageStep (.of .diamond) ⟨⟨some (configPartition .diamond), 0, 0⟩, m⟩ (.push [1]) =
      (out, ⟨⟨some (configPartition .diamond), 0, 0⟩, m'⟩) ∧
    Erased (content (configPartition .diamond) m') 0 0x2000 := by
  have hrej : ¬ PushAccepted (.of .diamond) (content (configPartition .diamond) m) 0 [1] := by
    intro hacc
    have hback := hacc.readBack
    have hbyte : slice (program (content (configPartition .diamond) m) (0+8) (paddedRecord (.of .diamond) [1]))
        (0+8) [(1 : UInt8)].length = [0] := by
      simp [slice, program, content, view, configPartition, hzero]
    rw [hbyte] at hback
    exact absurd hback (by decide)
  obtain ⟨ret, m', hpush, -, herased⟩ := storagePush_rejected
    (show (⟨some (configPartition .diamond), 0, 0⟩ : StorageArea).fa = _ from rfl) (dvd_zero _)
    (show [(1 : UInt8)] ≠ [] by simp) (by decide) hrej
  exact ⟨_, m', by rw [storageStep, hpush]; rfl, herased.erased⟩

theorem storageBoot_ones (p : Platform) (fa : FlashArea) :
    (storageBoot p fa fun _ => 0xff).2 = ⟨⟨some fa, 0, 0⟩, fun _ => 0xff⟩ := by
  have hones : Erased (content fa fun _ => 0xff) 0 fa.faSize := fun _ _ _ => rfl
  obtain ⟨ha, hm⟩ := storageBoot_erased_area (p := p) hones
  have herase : erase (fun _ => 0xff) fa.faOff fa.faSize = fun _ => 0xff := by
    funext a
    simp [erase]
  rw [herase, or_self] at hm
  cases hb : (storageBoot p fa fun _ => 0xff).2 with
  | mk area mem =>
    rw [hb] at ha hm
    have ha : area = ⟨some fa, 0, 0⟩ := ha
    have hm : mem = fun _ => 0xff := hm
    rw [ha, hm]

theorem deviceBoot_ones (p : Platform) (fas : Partition → FlashArea) :
    deviceBoot p fas (fun _ => 0xff) = ⟨fun i => ⟨some (fas i), 0, 0⟩, fun _ => 0xff⟩ := by
  simp only [deviceBoot, storageBoot_ones]
  congr 1
  funext i
  cases i <;> rfl

/-- A record that fills the first half of the storage area, and one of zeros behind it. -/
theorem storage_reaches_config {r : List UInt8} (hlen : r.length = 4088) {s s' : StorageState}
    (hs : s = ⟨⟨some (storagePartition .diamond), 0, 0⟩, fun _ => 0xff⟩)
    (hs' : s' = (storageStep (.of .diamond) (storageStep (.of .diamond) s (.push r)).2
      (.push [0, 0, 0, 0, 0, 0, 0, 0])).2) :
    StorageInv (.of .diamond) (storagePartition .diamond) s' [r, [0, 0, 0, 0, 0, 0, 0, 0]] ∧
    s'.area.rdIdx = 0 ∧ s'.mem 0x7F008 = 0 := by
  have hspan : recordSpan (.of .diamond) r.length = 4096 := by
    rw [hlen]
    decide
  have hne : r ≠ [] := by
    rintro rfl
    simp at hlen
  have h0 : StorageInv (.of .diamond) (storagePartition .diamond) s [] := by
    rw [hs]
    exact storageInv_of_erased fun _ _ _ => rfl
  have hw0 : s.area.wrIdx = 0 := by rw [hs]
  have hr0 : s.area.rdIdx = 0 := by rw [hs]
  obtain ⟨h1, ha1⟩ := h0.step_push (.inl (by decide)) hne (by rw [hspan, hw0]; decide)
  have hw1 : (storageStep (.of .diamond) s (.push r)).2.area.wrIdx = 4096 := by rw [ha1, hw0, hspan]
  have hzeros : ([0, 0, 0, 0, 0, 0, 0, 0] : List UInt8) ≠ [] := by simp
  obtain ⟨h2, ha2⟩ := h1.step_push (.inl (by decide)) hzeros (by rw [hw1]; decide)
  rw [← hs'] at h2 ha2
  have hr2 : s'.area.rdIdx = 0 := by rw [ha2, ha1, hr0]
  refine ⟨h2, hr2, ?_⟩
  obtain ⟨-, hzeros, -⟩ := h2.queued
  rw [hr2, hspan] at hzeros
  exact (slice_eq_iff _ _ _).mp hzeros.payload 0 (by decide)

theorem config_erases_storage {r : List UInt8} (hlen : r.length = 4088) {d1 d : Device}
    (hd1 : d1 = (deviceStep (.of .diamond) ⟨fun i => ⟨some (Partition.area .diamond i), 0, 0⟩, fun _ => 0xff⟩
      (.storage, .push r)).2)
    (hd : d = (deviceStep (.of .diamond) d1 (.storage, .push [0, 0, 0, 0, 0, 0, 0, 0])).2) :
    areaRecords (.of .diamond) (storagePartition .diamond) (d.at .storage) =
      [r, [0, 0, 0, 0, 0, 0, 0, 0]] ∧
    areaRecords (.of .diamond) (storagePartition .diamond)
      ((deviceStep (.of .diamond) d (.config, .push [1])).2.at .storage) ≠ [r, [0, 0, 0, 0, 0, 0, 0, 0]] := by
  obtain ⟨s', hs'⟩ : ∃ s', s' = (storageStep (.of .diamond) (storageStep (.of .diamond)
      ⟨⟨some (storagePartition .diamond), 0, 0⟩, fun _ => 0xff⟩ (.push r)).2
      (.push [0, 0, 0, 0, 0, 0, 0, 0])).2 := ⟨_, rfl⟩
  obtain ⟨hinv, hrd, hzero⟩ := storage_reaches_config hlen rfl hs'
  have hstorage1 : d1.at .storage = (storageStep (.of .diamond) ⟨⟨some (storagePartition .diamond), 0, 0⟩, fun _ => 0xff⟩
      (.push r)).2 := by
    rw [hd1, deviceStep_at_same]
    rfl
  have hstorage : d.at .storage = s' := by
    rw [hd, deviceStep_at_same, hstorage1, hs']
  have hareas : d.areas .config = ⟨some (configPartition .diamond), 0, 0⟩ := by
    have h1 := deviceStep_areas_other (p := .of .diamond) d1 .storage (.push [0, 0, 0, 0, 0, 0, 0, 0])
    rw [← hd] at h1
    refine h1.trans ?_
    rw [hd1]
    exact deviceStep_areas_other _ .storage _
  have hmem : d.mem = s'.mem := congrArg StorageState.mem hstorage
  have hconfig : d.at .config = ⟨⟨some (configPartition .diamond), 0, 0⟩, s'.mem⟩ := by
    rw [Device.at, hareas, hmem]
  obtain ⟨out, m', hpush, herased⟩ := config_push_erases hzero
  have hafter : (deviceStep (.of .diamond) d (.config, .push [1])).2.at .storage = ⟨s'.area, m'⟩ := by
    have hother := deviceStep_at_other (p := .of .diamond) d .config (.push [1])
    rw [hconfig] at hother
    refine hother.trans ?_
    rw [hpush, ← hstorage]
    rfl
  refine ⟨?_, fun hsame => ?_⟩
  · rw [hstorage]
    exact hinv.areaRecords
  · rw [hafter] at hsame
    obtain ⟨⟨w, -, hrec, -⟩, -⟩ := queued_of_records (s := ⟨s'.area, m'⟩) hinv.area
      (by rw [show s'.area.rdIdx = 0 from hrd]; exact dvd_zero _) hsame
    have hspan : recordSpan (.of .diamond) r.length = 4096 := by
      rw [hlen]
      decide
    have hmagic := hrec.magic
    rw [show s'.area.rdIdx = 0 from hrd, hspan] at hmagic
    have hgone : Erased (content (storagePartition .diamond) m') 4096 4104 :=
      fun a h1 h2 => by
        have hbyte : m' (0x7F000+(a-4096)) = 0xff := herased (a-4096) (by omega) (by omega)
        have haddr : 0x7E000+a = 0x7F000+(a-4096) := by omega
        simp only [content, view, storagePartition, haddr, hbyte]
    have hunused := headerAt_erased hgone (by decide)
    exact recordUnused_ne_valid (hunused.symm.trans hmagic)

/-- Storage fills the first half of its area and then stores one record more, in bytes that are also
the start of the config area. The first config record meets them: config erases its area, and the
storage record with it. -/
theorem overlapping_areas_interfere :
    let d := (Machine.run (deviceStep (.of .diamond))
      (deviceBoot (.of .diamond) (Partition.area .diamond) fun _ => 0xff)
      [(.storage, .push (List.replicate 4088 1)), (.storage, .push [0, 0, 0, 0, 0, 0, 0, 0])]).2
    areaRecords (.of .diamond) (storagePartition .diamond) (d.at .storage) =
      [List.replicate 4088 1, [0, 0, 0, 0, 0, 0, 0, 0]] ∧
    areaRecords (.of .diamond) (storagePartition .diamond)
      ((deviceStep (.of .diamond) d (.config, .push [1])).2.at .storage) ≠
      [List.replicate 4088 1, [0, 0, 0, 0, 0, 0, 0, 0]] := by
  have hlen : (List.replicate 4088 (1 : UInt8)).length = 4088 := List.length_replicate
  generalize List.replicate 4088 (1 : UInt8) = r at hlen ⊢
  rw [Machine.run_pair, deviceBoot_ones]
  exact config_erases_storage hlen rfl rfl

end OrbFirmware.Storage

import OrbFirmware.Config.Durability
import OrbFirmware.Storage.PowerReads

/-! `config.c` on a device that loses power, between any two flash operations of a `config_set_reboot_behavior` and of
the `config_init`s behind it. -/
namespace OrbFirmware.Config
open Nor Storage

/-- A `config_set_reboot_behavior` that returns, or one in which power is lost after `k` flash operations; `config_init`
then loses power itself after each number of operations in `inits`, until it gets through. -/
inductive PowerCall where
  | set (behavior : UInt8)
  | lose (behavior : UInt8) (k : Nat) (inits : List Nat)
  deriving DecidableEq, Repr

def lostConfigInits (p : Platform) (fa : FlashArea) (m : Mem) : List Nat → Mem
  | [] => m
  | k :: inits => lostConfigInits p fa (configInit p fa (.cut m k)).2.2.mem inits

/-- What the call returns, after a power loss what `config_init` does, and what `config_get_reboot_behavior` says then. -/
def configPowerStep (p : Platform) (fa : FlashArea) (s : ConfigState) :
    PowerCall → (RetCode × Option UInt8) × ConfigState
  | .set behavior =>
    let (ret, config, fl) := configSetRebootBehavior p behavior s.config (.ok s.mem)
    ((ret, configGetRebootBehavior config), ⟨config, fl.mem⟩)
  | .lose behavior k inits =>
    let (_, _, fl) := configSetRebootBehavior p behavior s.config (.cut s.mem k)
    let (ret, config, fl) := configInit p fa (.ok (lostConfigInits p fa fl.mem inits))
    ((ret, configGetRebootBehavior config), ⟨config, fl.mem⟩)

/-! What the module is for. -/

/-- The behavior that a reboot loads, the one in use, and whether no store was interrupted since the last that went
through. -/
structure Behavior where
  stored : UInt8
  current : UInt8
  clean : Bool
  deriving DecidableEq, Repr

/-- Behaviors that differ from the one in use are stored. -/
def Behavior.Stores (t : Behavior) (behavior : UInt8) : Prop :=
  t.current ≠ behavior ∧ (behavior = bootButtonPress ∨ behavior = bootAutoAlwaysOn)

instance (t : Behavior) (behavior : UInt8) : Decidable (t.Stores behavior) :=
  inferInstanceAs (Decidable (_ ∧ _))

/-- A store may fail only where one was interrupted before; it then leaves the default of an empty partition stored. -/
def setAllowed (t : Behavior) (behavior : UInt8) (ret : RetCode) : Prop :=
  if t.Stores behavior then
    ret = .success ∨ t.clean = false ∧ t.stored = bootButtonPress ∧ (ret = .internal ∨ ret = .invalidState)
  else ret = if t.current = behavior then .success else .invalidParam

def setNext (t : Behavior) (behavior : UInt8) (ret : RetCode) : Behavior :=
  if t.Stores behavior then ⟨if ret = .success then behavior else t.stored, behavior, true⟩ else t

/-- An atomic register: a power loss leaves what was stored before, or what was being stored. -/
def rebootBehavior : Machine.Spec Behavior PowerCall (RetCode × Option UInt8) where
  allows t
    | .set behavior, (ret, loaded) => setAllowed t behavior ret ∧ loaded = some (setNext t behavior ret).current
    | .lose behavior _ _, (ret, loaded) =>
      ret = .success ∧ (loaded = some t.stored ∨ t.Stores behavior ∧ loaded = some behavior)
  next t
    | .set behavior, (ret, _) => setNext t behavior ret
    | .lose behavior _ _, (_, loaded) =>
      ⟨loaded.getD t.stored, loaded.getD t.stored, t.clean && !decide (t.Stores behavior)⟩

variable {p : Platform} {fa : FlashArea} {area : StorageArea} {s : StorageState} {q : Queue} {v : UInt8}
  {rd w : Nat} {m m' : Mem} {c : Mem} {clean : Bool}

/-! The config partition at any point of such a run. -/

/-- An interrupted push left its payload behind the erased header at `w`. -/
structure Leftover (fa : FlashArea) (c : Mem) (w : Nat) : Prop where
  fits : w+16 ≤ fa.faSize
  payload : ∃ u ≤ 1, slice c (w+8) 8 = bootRecord u
  behind : Erased c (w+16) fa.faSize

/-- Freed boot values up to `rd`, at most one that is not freed, and behind it what an interrupted push may leave. -/
structure ConfigKept (p : Platform) (fa : FlashArea) (m : Mem) (rd w : Nat) (q : Queue) : Prop
    extends Kept p fa m rd w q where
  records : ∀ record ∈ q, ∃ v ≤ 1, record = bootRecord v
  single : q.length ≤ 1
  spans : 16 ∣ rd
  low : ∀ a < rd, content fa m a ≤ 1
  behind : Erased (content fa m) (w+8) fa.faSize ∨ q = [] ∧ Leftover fa (content fa m) w

/-- The partition, and whether nothing of an interrupted push is left in it. -/
def InFlash (p : Platform) (fa : FlashArea) (m : Mem) (q : Queue) (clean : Bool) : Prop :=
  ∃ rd w, ConfigKept p fa m rd w q ∧ (clean = true → Erased (content fa m) (w+8) fa.faSize)

/-- The same with the indices of an area that has been initialised; an empty one has room for a record. -/
structure ConfigUp (p : Platform) (fa : FlashArea) (s : StorageState) (q : Queue) (clean : Bool) : Prop where
  area : s.area.fa = some fa
  kept : ConfigKept p fa s.mem s.area.rdIdx s.area.wrIdx q
  room : q = [] → s.area.wrIdx+16 ≤ fa.faSize
  clean : clean = true → Erased (content fa s.mem) (s.area.wrIdx+8) fa.faSize

theorem configKept_of_erased (p : Platform) (h : Erased (content fa m) 0 fa.faSize) : ConfigKept p fa m 0 0 [] :=
  ⟨kept_of_erased p h, fun _ hr => absurd hr List.not_mem_nil, Nat.zero_le 1, dvd_zero 16,
    fun _ h0 => absurd h0 (Nat.not_lt_zero _), .inl (h.mono (Nat.zero_le 8) le_rfl)⟩

theorem inFlash_of_erased (p : Platform) (clean : Bool) (h : Erased (content fa m) 0 fa.faSize) : InFlash p fa m [] clean :=
  ⟨0, 0, configKept_of_erased p h, fun _ => h.mono (Nat.zero_le 8) le_rfl⟩

theorem configUp_of_erased (p : Platform) (hfits : 16 ≤ fa.faSize) (h : Erased (content fa m) 0 fa.faSize) :
    ConfigUp p fa ⟨⟨some fa, 0, 0⟩, m⟩ [] clean :=
  ⟨rfl, configKept_of_erased p h, fun _ => hfits, fun _ => h.mono (Nat.zero_le 8) le_rfl⟩

theorem ConfigUp.inFlash (h : ConfigUp p fa s q clean) : InFlash p fa s.mem q clean :=
  ⟨s.area.rdIdx, s.area.wrIdx, h.kept, h.clean⟩

theorem InFlash.weaken (h : InFlash p fa m q clean) : InFlash p fa m q false := by
  obtain ⟨rd, w, hkept, -⟩ := h
  exact ⟨rd, w, hkept, fun hc => absurd hc (by simp)⟩

theorem ConfigUp.laid (h : ConfigUp p fa s q clean) : Laid p fa s q :=
  ⟨h.area, h.kept.queued, h.kept.nonempty, h.kept.bounded, h.kept.aligned⟩

namespace ConfigKept

theorem end_spans (h : ConfigKept p fa m rd w q) : 16 ∣ w := queued_spans h.queued h.records h.spans

theorem nil_or_single (h : ConfigKept p fa m rd w q) : q = [] ∨ ∃ v ≤ 1, q = [bootRecord v] := by
  have hq := h.single
  cases q with
  | nil => exact .inl rfl
  | cons record q =>
    have hnil : q = [] := List.eq_nil_of_length_eq_zero (by simp only [List.length_cons] at hq; omega)
    obtain ⟨v, hv, hrec⟩ := h.records record List.mem_cons_self
    exact .inr ⟨v, hv, by rw [hrec, hnil]⟩

/-- The scan finds the queue, unless it is empty at the very end of the area. -/
theorem initArea (h : ConfigKept p fa m rd w q) (hsize : 16 ∣ fa.faSize) (hpos : 0 < fa.faSize) :
    initArea p fa ⟨some fa, 0, 0⟩ (.ok m) =
      if q = [] ∧ w = fa.faSize then (.invalidState, ⟨some fa, 0, 0⟩, .ok m)
      else (.success, ⟨some fa, w, rd⟩, .ok m) := by
  have hw := h.end_spans
  have hb := h.bounded
  have hhdr : sizeofStorageHeader = 8 := rfl
  have hfits : sizeofStorageHeader < fa.faSize := by
    have := Nat.le_of_dvd hpos hsize
    omega
  have hend : w+sizeofStorageHeader < fa.faSize ↔ w ≠ fa.faSize := by omega
  have hscan : OrbFirmware.Storage.initArea p fa ⟨some fa, 0, 0⟩ (.ok m) = _ :=
    (h.scannable (noMisread_of_low h.low)).initArea (.inr (.inr hfits))
  rw [hscan]
  simp only [hend, not_not]
  by_cases hdrained : q = [] ∧ w = fa.faSize
  · rw [if_pos hdrained, if_pos hdrained]
  · rw [if_neg hdrained, if_neg hdrained]
    by_cases hfull : w = fa.faSize
    · simp only [hfull, ne_eq, not_true_eq_false, if_false]
    · simp only [hfull, ne_eq, not_false_eq_true, if_true]

/-- `storage_init` without faults brings the partition up. -/
theorem storageInit (h : ConfigKept p fa m rd w q) (hsize : 16 ∣ fa.faSize) (hpos : 0 < fa.faSize)
    (hclean : clean = true → Erased (content fa m) (w+8) fa.faSize) :
    ∃ area m', storageInit p fa (.ok m) = (.success, area, .ok m') ∧ ConfigUp p fa ⟨area, m'⟩ q clean := by
  have hw := h.end_spans
  have hb := h.bounded
  have hle := Nat.le_of_dvd hpos hsize
  rw [storageInit_ok, h.initArea hsize hpos]
  by_cases hdrained : q = [] ∧ w = fa.faSize
  · simp only [if_pos hdrained, reduceCtorEq, if_false]
    refine ⟨_, _, rfl, ?_⟩
    rw [hdrained.1]
    exact configUp_of_erased p hle (erasedFrom_erase (fun _ _ => rfl)).erased
  · simp only [if_neg hdrained, if_true]
    refine ⟨_, _, rfl, rfl, h, fun hq => ?_, hclean⟩
    have hne : w ≠ fa.faSize := fun he => hdrained ⟨hq, he⟩
    simp only
    omega

end ConfigKept

/-! `config_init`. -/

theorem lastBoot_nil : lastBoot [] = bootButtonPress := rfl

/-- Nothing is left to free. -/
theorem ConfigUp.drain (h : ConfigUp p fa s q clean) (n : Nat) :
    configDrain p n s.area (.ok s.mem) = (s.area, .ok s.mem) := by
  have hdata := h.laid.hasData
  have hlast := h.laid.isLastRecord
  cases n with
  | zero => rfl
  | succ n =>
    rcases h.kept.nil_or_single with rfl | ⟨v, -, rfl⟩ <;> simp [configDrain, hdata, hlast]

theorem ConfigUp.peek (h : ConfigUp p fa s q clean) :
    ∃ result, storagePeek p s.area sizeofPersistentConfig (.ok s.mem) = (result, s.area, .ok s.mem) ∧
      (if result.ret = .success then PersistentConfig.ofBytes result.buffer else .zero) =
        ⟨lastBoot q, .replicate 7 0⟩ := by
  refine ⟨_, h.laid.peek sizeofPersistentConfig, ?_⟩
  rcases h.kept.nil_or_single with rfl | ⟨v, -, rfl⟩
  · rfl
  · simp only [fifoPeek, length_bootRecord, sizeofPersistentConfig, lt_irrefl, if_false, if_true,
      ofBytes_bootRecord, lastBoot_singleton]

/-- Without faults `config_init` loads the value. -/
theorem InFlash.init (h : InFlash p fa m q clean) (hsize : 16 ∣ fa.faSize) (hpos : 0 < fa.faSize) :
    ∃ area m', configInit p fa (.ok m) = (.success, ⟨area, ⟨lastBoot q, .replicate 7 0⟩, true⟩, .ok m') ∧
      ConfigUp p fa ⟨area, m'⟩ q clean := by
  obtain ⟨rd, w, hkept, hclean⟩ := h
  obtain ⟨area, m', hinit, hup⟩ := hkept.storageInit hsize hpos hclean
  obtain ⟨result, hpeek, hcur⟩ := hup.peek
  have hpeek : storagePeek p area sizeofPersistentConfig (.ok m') = (result, area, .ok m') := hpeek
  have hdrain : configDrain p fa.faSize area (.ok m') = (area, .ok m') := hup.drain fa.faSize
  refine ⟨area, m', ?_, hup⟩
  simp only [configInit, hinit, hdrain, hpeek, hcur]

/-! The free of `persist_config`. -/

theorem ConfigKept.free (h : ConfigKept p fa m rd w [bootRecord v]) :
    ConfigKept p fa (zeroHeader m (fa.faOff+rd)) (rd+16) w [] ∧
      Erased (content fa (zeroHeader m (fa.faOff+rd))) (w+8) fa.faSize := by
  obtain ⟨hr, htail⟩ := h.queued
  have hv : v ≤ 1 := by
    obtain ⟨u, hu, he⟩ := h.records _ List.mem_cons_self
    have hvu : lastBoot [bootRecord v] = lastBoot [bootRecord u] := by rw [he]
    rw [lastBoot_singleton, lastBoot_singleton] at hvu
    rwa [hvu]
  have hkept := h.toKept.free
  rw [length_bootRecord, recordSpan_boot] at hkept htail
  have hle : rd+16 = w := htail
  have hbehind : Erased (content fa (zeroHeader m (fa.faOff+rd))) (w+8) fa.faSize := by
    cases h.behind with
    | inl he => exact he.congr fun a h1 h2 => (content_zeroHeader (by omega)).symm
    | inr hleft => exact absurd hleft.1 (by simp)
  exact ⟨⟨hkept, fun _ hr => absurd hr List.not_mem_nil, Nat.zero_le 1, Nat.dvd_add h.spans dvd_rfl,
    low_of_freed h.low hr hv, .inl hbehind⟩, hbehind⟩

theorem ConfigUp.free_kept (h : ConfigUp p fa s [bootRecord v] clean)
    (hkeep : ¬ fa.faSize-s.area.wrIdx < minimumEmptySpace) :
    ConfigUp p fa ⟨{ s.area with rdIdx := s.area.rdIdx+16 }, zeroHeader s.mem (fa.faOff+s.area.rdIdx)⟩ [] true := by
  obtain ⟨hkept, hbehind⟩ := h.kept.free
  have hb := h.kept.bounded
  have hmin : minimumEmptySpace = 512 := rfl
  refine ⟨h.area, hkept, fun _ => ?_, fun _ => hbehind⟩
  simp only
  omega

theorem ConfigUp.free (h : ConfigUp p fa s [bootRecord v] clean) (hfits : 16 ≤ fa.faSize) :
    ∃ area m', storageFree p s.area (.ok s.mem) = (.success, area, .ok m') ∧ ConfigUp p fa ⟨area, m'⟩ [] true := by
  rcases h.laid.free with ⟨-, -, hfree⟩ | ⟨hkeep, hfree, -⟩
  · exact ⟨_, _, hfree, configUp_of_erased p hfits (erasedFrom_erase (fun _ _ => rfl)).erased⟩
  · rw [length_bootRecord, recordSpan_boot] at hfree
    exact ⟨_, _, hfree, h.free_kept fun hlittle => hkeep ⟨rfl, hlittle⟩⟩

/-- A free that loses power is off with the record kept or freed, or has freed it. -/
theorem ConfigUp.free_cut (h : ConfigUp p fa s [bootRecord v] clean) (hfits : 16 ≤ fa.faSize) (k : Nat) :
    ∃ ret area m' k', storageFree p s.area (.cut s.mem k) = (ret, area, .cut m' k') ∧
      (k' = 0 ∧ (InFlash p fa m' [bootRecord v] false ∨ InFlash p fa m' [] false) ∨
        ConfigUp p fa ⟨area, m'⟩ [] true) := by
  rcases h.laid.free_cut k with ⟨ret, hfree⟩ | ⟨k', hfree⟩
  · exact ⟨ret, _, _, 0, hfree, .inl ⟨rfl, .inl h.inFlash.weaken⟩⟩
  · rw [length_bootRecord, recordSpan_boot] at hfree
    by_cases hdrain : ([] : Queue) = [] ∧ fa.faSize-s.area.wrIdx < minimumEmptySpace
    · rw [if_pos hdrain] at hfree
      obtain ⟨area, harea⟩ : ∃ area : StorageArea, { s.area with rdIdx := s.area.rdIdx+16 } = area := ⟨_, rfl⟩
      have hfa : area.fa = some fa := by
        rw [← harea]
        exact h.area
      rw [harea] at hfree
      obtain ⟨k'', hcut⟩ := Flash.Later.cut
        (resetArea_later p fa area (.cut (zeroHeader s.mem (fa.faOff+s.area.rdIdx)) k'))
      by_cases hk : 0 < k'
      · obtain ⟨harea', hmem⟩ : (resetArea p fa area (.cut (zeroHeader s.mem (fa.faOff+s.area.rdIdx)) k')).1 =
            ⟨area.fa, 0, 0⟩ ∧ _ := resetArea_erased (decide_eq_true hk)
        rw [hfa] at harea'
        rw [hmem] at hcut
        have hreset : resetArea p fa area (.cut (zeroHeader s.mem (fa.faOff+s.area.rdIdx)) k') = (_, _) :=
          Prod.ext harea' hcut
        rw [hreset] at hfree
        exact ⟨_, _, _, k'', hfree, .inr (configUp_of_erased p hfits (erasedFrom_erase (fun _ _ => rfl)).erased)⟩
      · have hk : k' = 0 := by omega
        subst hk
        obtain ⟨area', hreset⟩ := resetArea_stays_off p fa area (zeroHeader s.mem (fa.faOff+s.area.rdIdx))
        rw [hreset] at hfree
        obtain ⟨hkept, -⟩ := h.kept.free
        exact ⟨_, _, _, 0, hfree, .inl ⟨rfl, .inr ⟨_, _, hkept, fun hc => absurd hc (by simp)⟩⟩⟩
    · rw [if_neg hdrain] at hfree
      exact ⟨_, _, _, k', hfree, .inr (h.free_kept fun hlittle => hdrain ⟨rfl, hlittle⟩)⟩

/-! The push of `persist_config`. -/

theorem boot_cases (hv : v ≤ 1) : v = bootButtonPress ∨ v = bootAutoAlwaysOn := by
  have hn : v.toNat ≤ 1 := hv
  have hb : v.toNat = 0 ∨ v.toNat = 1 := by omega
  cases hb with
  | inl h0 => exact .inl (UInt8.toNat_inj.mp h0)
  | inr h1 => exact .inr (UInt8.toNat_inj.mp h1)

/-- The checksum tells the two boot values apart. -/
def TellsApart (p : Platform) : Prop :=
  crc16Ccitt p 0xffff (bootRecord bootButtonPress) ≠ crc16Ccitt p 0xffff (bootRecord bootAutoAlwaysOn)

/-- A boot value programmed over another leaves the lower of the two. -/
theorem slice_program_boot {u : UInt8} {off : Nat} (hu : u ≤ 1) (hv : v ≤ 1) (h : slice c off 8 = bootRecord u) :
    slice (program c off (bootRecord v)) off 8 = bootRecord (if u = bootButtonPress then u else v) := by
  have hand : slice (program c off (bootRecord v)) off 8 = List.zipWith (· &&& ·) (slice c off 8) (bootRecord v) := by
    apply List.ext_getElem (by simp)
    intro i h1 h2
    have hi : i < (bootRecord v).length := by simpa using h1
    rw [slice_getElem, program_inside hi, List.getElem_zipWith, slice_getElem]
  rw [hand, h]
  rcases boot_cases hu with rfl | rfl <;> rcases boot_cases hv with rfl | rfl <;> decide

namespace ConfigKept

theorem unused (h : ConfigKept p fa m rd w q) : Erased (content fa m) (w+16) fa.faSize := by
  cases h.behind with
  | inl he => exact he.mono (by omega) le_rfl
  | inr hleft => exact hleft.2.behind

/-- What lies behind an erased header once a boot value is programmed there. -/
theorem programmed (h : ConfigKept p fa m rd w []) (hv : v ≤ 1) (hfit : w+16 ≤ fa.faSize) :
    ∃ u ≤ 1, slice (program (content fa m) (w+8) (bootRecord v)) (w+8) 8 = bootRecord u := by
  cases h.behind with
  | inl he =>
    have her : Erased (content fa m) (w+8) (w+8+(bootRecord v).length) :=
      he.mono le_rfl (by rw [length_bootRecord]; omega)
    exact ⟨v, hv, slice_program_erased her⟩
  | inr hleft =>
    obtain ⟨u, hu, hslice⟩ := hleft.2.payload
    refine ⟨if u = bootButtonPress then u else v, ?_, slice_program_boot hu hv hslice⟩
    split
    · exact hu
    · exact hv

/-- The flash takes a boot value only where it can be read back. -/
theorem storedRecord_boot (h : ConfigKept p fa m rd w []) (hp : TellsApart p) (hv : v ≤ 1) (hfit : w+16 ≤ fa.faSize)
    (hacc : PushAccepted p (content fa m) w (bootRecord v)) :
    storedRecord p (content fa m) w (bootRecord v) = bootRecord v := by
  obtain ⟨u, hu, hslice⟩ := h.programmed hv hfit
  have hpad := paddedRecord_block p (length_bootRecord v)
  have hstored : storedRecord p (content fa m) w (bootRecord v) = bootRecord u := by
    rw [storedRecord, pushed, slice_program_outside (by simp only [length_bytes, sizeofStorageHeader]; omega), hpad]
    exact hslice
  have hcrc := hacc.readBack
  rw [hpad, length_bootRecord, hslice] at hcrc
  rw [hstored]
  rcases boot_cases hu with rfl | rfl <;> rcases boot_cases hv with rfl | rfl
  · rfl
  · exact absurd hcrc hp
  · exact absurd hcrc.symm hp
  · rfl

/-- A push that the flash takes. -/
theorem push (h : ConfigKept p fa m rd w []) (hp : TellsApart p) (hsize : fa.faSize ≤ 0x10000) (hv : v ≤ 1)
    (hfit : w+16 ≤ fa.faSize) (hacc : PushAccepted p (content fa m) w (bootRecord v))
    (hm : content fa m' = pushed p (content fa m) w (bootRecord v)) :
    ConfigKept p fa m' rd (w+16) [bootRecord v] ∧ Erased (content fa m') (w+16+8) fa.faSize := by
  have hspan : recordSpan p (bootRecord v).length = 16 := recordSpan_boot p
  have hrd : rd = w := h.queued
  have hunused : LeavesUnused p fa (content fa m) w (bootRecord v) := by
    intro _
    rw [hspan]
    exact h.unused.mono le_rfl (Nat.min_le_right _ _)
  have hkept := h.toKept.push hsize (bootRecord_ne_nil v) (by rw [hspan]; exact hfit) hacc hunused hm
  rw [hspan, h.storedRecord_boot hp hv hfit hacc] at hkept
  have hbehind : Erased (content fa m') (w+16+8) fa.faSize := by
    intro a h1 h2
    rw [hm, pushed_outside (.inr (by rw [hspan]; omega))]
    exact h.unused a (by omega) h2
  refine ⟨⟨hkept, fun r hr => ⟨v, hv, List.mem_singleton.mp hr⟩, le_rfl, h.spans, fun a ha => ?_, .inl hbehind⟩, hbehind⟩
  rw [hm, pushed_outside (.inl (by omega))]
  exact h.low a ha

end ConfigKept

/-- A boot value goes to an area with room, unless what an interrupted push left is in its way. -/
theorem ConfigUp.push (h : ConfigUp p fa s [] clean) (hp : TellsApart p) (hsize : fa.faSize ≤ 0x10000) (hv : v ≤ 1) :
    ∃ ret area m' q', storagePush p s.area (bootRecord v) (.ok s.mem) = (ret, area, .ok m') ∧
      ConfigUp p fa ⟨area, m'⟩ q' true ∧
      (ret = .success ∧ q' = [bootRecord v] ∨ clean = false ∧ q' = [] ∧ (ret = .internal ∨ ret = .invalidState)) := by
  have hspan : recordSpan p (bootRecord v).length = 16 := recordSpan_boot p
  have hfit := h.room rfl
  have hal : p.blk ∣ s.area.wrIdx := h.kept.queued.aligned h.kept.aligned
  by_cases hacc : PushAccepted p (content fa s.mem) s.area.wrIdx (bootRecord v)
  · have hpush := storagePush_accepted h.area hal (bootRecord_ne_nil v) (by rw [hspan]; exact hfit) hacc
    rw [hspan] at hpush
    refine ⟨_, _, _, [bootRecord v], hpush, ?_, .inl ⟨rfl, rfl⟩⟩
    have hm : content fa (program (program s.mem (fa.faOff+(s.area.wrIdx+8)) (paddedRecord p (bootRecord v)))
        (fa.faOff+s.area.wrIdx) (headerOf p (bootRecord v)).bytes) =
        pushed p (content fa s.mem) s.area.wrIdx (bootRecord v) := by
      rw [content_program, content_program, pushed]
    obtain ⟨hkept, hbehind⟩ := h.kept.push hp hsize hv hfit hacc hm
    exact ⟨h.area, hkept, fun hq => absurd hq (by simp), fun _ => hbehind⟩
  · obtain ⟨ret, m', hpush, hret, herased⟩ := storagePush_rejected h.area hal (bootRecord_ne_nil v)
      (by rw [hspan]; exact hfit) hacc
    rw [h.area] at hpush
    refine ⟨ret, _, m', [], hpush, configUp_of_erased p (by omega) herased.erased, .inr ⟨?_, rfl, hret⟩⟩
    by_contra hclean
    have her := h.clean (by simpa using hclean)
    refine hacc (pushAccepted_of_erased hal fun a h1 h2 => ?_)
    rw [hspan] at h2
    by_cases hhead : a < s.area.wrIdx+8
    · exact h.kept.erased a h1 (by omega)
    · exact her a (by omega) (by omega)

theorem ConfigUp.push_cut (h : ConfigUp p fa s [] clean) (hp : TellsApart p) (hsize : fa.faSize ≤ 0x10000)
    (hv : v ≤ 1) (k : Nat) :
    ∃ q', InFlash p fa (storagePush p s.area (bootRecord v) (.cut s.mem k)).2.2.mem q' false ∧
      (q' = [] ∨ q' = [bootRecord v]) := by
  have hfit := h.room rfl
  have hal : p.blk ∣ s.area.wrIdx := h.kept.queued.aligned h.kept.aligned
  have hrd : s.area.rdIdx = s.area.wrIdx := h.kept.queued
  have hnot {P : Prop} (hc : false = true) : P := absurd hc (by simp)
  have herased {m' : Mem} (he : Erased (content fa m') 0 fa.faSize) :
      ∃ q', InFlash p fa m' q' false ∧ (q' = [] ∨ q' = [bootRecord v]) := ⟨[], inFlash_of_erased p false he, .inl rfl⟩
  rcases storagePush_cut h.area hal (bootRecord v) s.mem k with hbelow | he | ⟨-, -, hacc, hm⟩
  · have hkept := h.kept.toKept.congr (hbelow.mono le_rfl (Nat.min_le_left _ _))
    have hlow : ∀ a < s.area.rdIdx,
        content fa (storagePush p s.area (bootRecord v) (.cut s.mem k)).2.2.mem a ≤ 1 := by
      intro a ha
      rw [← hbelow a (Nat.zero_le a) (by omega)]
      exact h.kept.low a ha
    rcases storagePush_behind (p := p) h.area (length_bootRecord v) (.cut s.mem k) with hsame | hprog | he
    · have hagree (lo : Nat) (hlo : s.area.wrIdx+8 ≤ lo) (hi : Nat) :
          AgreeOn (content fa s.mem) (content fa (storagePush p s.area (bootRecord v) (.cut s.mem k)).2.2.mem) lo hi :=
        fun a h1 _ => (hsame a (by omega)).symm
      refine ⟨[], ⟨_, _, ⟨hkept, h.kept.records, h.kept.single, h.kept.spans, hlow, ?_⟩, hnot⟩, .inl rfl⟩
      rcases h.kept.behind with her | ⟨-, hleft⟩
      · exact .inl (her.congr (hagree _ le_rfl _))
      · obtain ⟨u, hu, hslice⟩ := hleft.payload
        refine .inr ⟨rfl, hleft.fits, ⟨u, hu, ?_⟩, hleft.behind.congr (hagree _ (by omega) _)⟩
        rw [← hslice]
        exact (slice_congr (hagree _ le_rfl _)).symm
    · obtain ⟨u, hu, hslice⟩ := h.kept.programmed hv hfit
      refine ⟨[], ⟨_, _, ⟨hkept, h.kept.records, h.kept.single, h.kept.spans, hlow, ?_⟩, hnot⟩, .inl rfl⟩
      refine .inr ⟨rfl, hfit, ⟨u, hu, ?_⟩, fun a h1 h2 => ?_⟩
      · rw [← hslice]
        exact slice_congr fun a h1 _ => hprog a h1
      · rw [hprog a (by omega), program_outside (by rw [length_bootRecord]; omega)]
        exact h.kept.unused a h1 h2
    · exact herased he
  · exact herased he
  · obtain ⟨hkept, -⟩ := h.kept.push hp hsize hv hfit hacc hm
    exact ⟨[bootRecord v], ⟨_, _, hkept, hnot⟩, .inr rfl⟩

/-! `persist_config`. -/

/-- The statics once `persist_config` is entered, the queue in flash, and the value to be stored. -/
structure Storing (p : Platform) (fa : FlashArea) (config : Statics) (m : Mem) (q : Queue) (v : UInt8) (clean : Bool) :
    Prop where
  up : ConfigUp p fa ⟨config.storageArea, m⟩ q clean
  value : config.current = ⟨v, .replicate 7 0⟩
  low : v ≤ 1

theorem Storing.bytes {config : Statics} (h : Storing p fa config m q v clean) : config.current.bytes = bootRecord v := by
  rw [h.value, bootRecord]

theorem Storing.persist {config : Statics} (h : Storing p fa config m q v clean) (hp : TellsApart p)
    (hfits : 16 ≤ fa.faSize) (hsize : fa.faSize ≤ 0x10000) :
    ∃ ret area m' q', persistConfig p config (.ok m) = (ret, { config with storageArea := area }, .ok m') ∧
      ConfigUp p fa ⟨area, m'⟩ q' true ∧
      (ret = .success ∧ q' = [bootRecord v] ∨
        clean = false ∧ q = [] ∧ q' = [] ∧ (ret = .internal ∨ ret = .invalidState)) := by
  have hdata := h.up.laid.hasData
  rcases h.up.kept.nil_or_single with rfl | ⟨u, -, rfl⟩
  · obtain ⟨ret, area, m', q', hpush, hup, hret⟩ := h.up.push hp hsize h.low
    simp only [ne_eq, not_true_eq_false, decide_false] at hdata hpush
    refine ⟨ret, area, m', q', ?_, hup, hret.imp_right fun ⟨hclean, hq, hfail⟩ => ⟨hclean, rfl, hq, hfail⟩⟩
    simp only [persistConfig, hdata, Bool.false_eq_true, if_false, h.bytes, hpush]
  · obtain ⟨area₁, m₁, hfree, hup₁⟩ := h.up.free hfits
    obtain ⟨ret, area, m', q', hpush, hup, hret⟩ := hup₁.push hp hsize h.low
    simp only [ne_eq, reduceCtorEq, not_false_eq_true, decide_true] at hdata hfree hpush
    refine ⟨ret, area, m', q', ?_, hup, ?_⟩
    · simp only [persistConfig, hdata, if_true, hfree, h.bytes, hpush]
    · cases hret with
      | inl hok => exact .inl hok
      | inr hfail => exact absurd hfail.1 (by simp)

/-- Power lost in `persist_config`: the record that was there, none, or the new one. -/
theorem Storing.persist_cut {config : Statics} (h : Storing p fa config m q v clean) (hp : TellsApart p)
    (hfits : 16 ≤ fa.faSize) (hsize : fa.faSize ≤ 0x10000) (k : Nat) :
    ∃ q', InFlash p fa (persistConfig p config (.cut m k)).2.2.mem q' false ∧
      (q' = q ∨ q' = [] ∨ q' = [bootRecord v]) := by
  have hdata := h.up.laid.hasData
  rcases h.up.kept.nil_or_single with rfl | ⟨u, -, rfl⟩
  · obtain ⟨q', hflash, hq⟩ := h.up.push_cut hp hsize h.low k
    simp only [ne_eq, not_true_eq_false, decide_false] at hdata hflash
    refine ⟨q', ?_, .inr hq⟩
    simp only [persistConfig, hdata, Bool.false_eq_true, if_false, h.bytes]
    exact hflash
  · obtain ⟨ret, area, m', k', hfree, hafter⟩ := h.up.free_cut hfits k
    simp only [ne_eq, reduceCtorEq, not_false_eq_true, decide_true] at hdata hfree
    simp only [persistConfig, hdata, if_true, hfree, h.bytes]
    rcases hafter with ⟨rfl, hkept⟩ | hup
    · rw [storagePush_off]
      cases hkept with
      | inl hold => exact ⟨_, hold, .inl rfl⟩
      | inr hfreed => exact ⟨_, hfreed, .inr (.inl rfl)⟩
    · obtain ⟨q', hflash, hq⟩ := hup.push_cut hp hsize h.low k'
      exact ⟨q', hflash, .inr hq⟩

/-! `config_init` that loses power. -/

theorem configDrain_off (p : Platform) (n : Nat) (area : StorageArea) (m : Mem) :
    configDrain p n area (.cut m 0) = (area, .cut m 0) := by
  cases n with
  | zero => rfl
  | succ n =>
    obtain ⟨ret, hfree, hret⟩ := storageFree_off p area m
    simp only [configDrain, storageIsLastRecord_off, hfree]
    split
    · cases ret <;> first | exact absurd rfl hret | rfl
    · rfl

theorem ConfigUp.drain_cut (h : ConfigUp p fa s q clean) (n k : Nat) :
    ∃ k', configDrain p n s.area (.cut s.mem k) = (s.area, .cut s.mem k') := by
  have hdata := h.laid.hasData
  cases n with
  | zero => exact ⟨k, rfl⟩
  | succ n =>
    rcases h.kept.nil_or_single with rfl | ⟨v, -, rfl⟩
    · exact ⟨k, by simp [configDrain, hdata]⟩
    · rcases h.laid.isLastRecord_cut k with hoff | ⟨k', hlast⟩
      · obtain ⟨ret, hfree, hret⟩ := storageFree_off p s.area s.mem
        refine ⟨0, ?_⟩
        cases hlast : storageIsLastRecord p s.area (.cut s.mem k) with
        | mk isLast fl =>
          rw [hlast] at hoff
          have hfl : fl = .cut s.mem 0 := hoff
          simp only [configDrain, hdata, hlast, hfl, hfree]
          cases isLast <;> cases ret <;> first | exact absurd rfl hret | rfl
      · exact ⟨k', by simp [configDrain, hdata, hlast]⟩

theorem ConfigKept.storageInit_cut (h : ConfigKept p fa m rd w q) (hsize : 16 ∣ fa.faSize) (hpos : 0 < fa.faSize)
    (hclean : clean = true → Erased (content fa m) (w+8) fa.faSize) (k : Nat) :
    (Storage.storageInit p fa (.cut m k)).2.2 = .cut m 0 ∨
      ∃ area m' k', Storage.storageInit p fa (.cut m k) = (.success, area, .cut m' k') ∧
        ConfigUp p fa ⟨area, m'⟩ q clean := by
  have hw := h.end_spans
  have hb := h.bounded
  have hle := Nat.le_of_dvd hpos hsize
  by_cases hk : 0 < k
  · have hopen : flashAreaOpen (.cut m k) = (true, .cut m (k-1)) := by
      rw [flashAreaOpen, Flash.cut_tick]
      exact Prod.ext (decide_eq_true hk) rfl
    have hscan := h.initArea hsize hpos
    rcases initArea_cutOff p fa ⟨some fa, 0, 0⟩ m (k-1) with hoff | ⟨k₁, hcut⟩
    · left
      simp only [Storage.storageInit, hopen]
      cases hinit : Storage.initArea p fa ⟨some fa, 0, 0⟩ (.cut m (k-1)) with
      | mk ret rest =>
        obtain ⟨area, fl⟩ := rest
        rw [hinit] at hoff
        have hfl : fl = .cut m 0 := hoff
        cases ret <;> simp only [hfl, flashAreaErase_off]
    · rw [hscan] at hcut
      by_cases hdrained : q = [] ∧ w = fa.faSize
      · simp only [if_pos hdrained] at hcut
        have herase : flashAreaErase fa 0 fa.faSize (.cut m k₁) =
            if 0 < k₁ then (true, .cut (erase m fa.faOff fa.faSize) (k₁-1)) else (false, .cut m (k₁-1)) := by
          simp only [flashAreaErase, if_neg (show ¬ fa.faSize < 0+fa.faSize by omega), Nat.add_zero, Flash.cut_mem,
            Flash.cut_tick, Flash.cut_set]
          by_cases hk₁ : 0 < k₁ <;> simp [Flash.cut, hk₁]
        by_cases hk₁ : 0 < k₁
        · right
          refine ⟨⟨some fa, 0, 0⟩, erase m fa.faOff fa.faSize, k₁-1, ?_, ?_⟩
          · simp only [Storage.storageInit, hopen, hcut, herase, if_pos hk₁]
          · rw [hdrained.1]
            exact configUp_of_erased p hle (erasedFrom_erase (m := m) (fun _ _ => rfl)).erased
        · left
          simp only [Storage.storageInit, hopen, hcut, herase, if_neg hk₁, show k₁-1 = 0 by omega]
      · simp only [if_neg hdrained] at hcut
        right
        refine ⟨⟨some fa, w, rd⟩, m, k₁, by simp only [Storage.storageInit, hopen, hcut], rfl, h, fun hq => ?_, hclean⟩
        have hne : w ≠ fa.faSize := fun he => hdrained ⟨hq, he⟩
        simp only
        omega
  · left
    have hopen : flashAreaOpen (.cut m k) = (false, .cut m (k-1)) := by
      rw [flashAreaOpen, Flash.cut_tick]
      exact Prod.ext (decide_eq_false hk) rfl
    simp only [Storage.storageInit, hopen, show k-1 = 0 by omega]

theorem InFlash.init_cut (h : InFlash p fa m q clean) (hsize : 16 ∣ fa.faSize) (hpos : 0 < fa.faSize) (k : Nat) :
    InFlash p fa (configInit p fa (.cut m k)).2.2.mem q clean := by
  obtain ⟨rd, w, hkept, hclean⟩ := h
  rcases hkept.storageInit_cut hsize hpos hclean k with hoff | ⟨area, m', k', hinit, hup⟩
  · have hmem : (configInit p fa (.cut m k)).2.2.mem = m := by
      cases hinit : Storage.storageInit p fa (.cut m k) with
      | mk ret rest =>
        obtain ⟨area, fl⟩ := rest
        rw [hinit] at hoff
        have hfl : fl = .cut m 0 := hoff
        cases ret <;> simp only [configInit, hinit, hfl, configDrain_off, storagePeek_off, Flash.cut_mem]
    rw [hmem]
    exact ⟨rd, w, hkept, hclean⟩
  · obtain ⟨k'', hdrain⟩ := hup.drain_cut fa.faSize k'
    have hdrain : configDrain p fa.faSize area (.cut m' k') = (area, .cut m' k'') := hdrain
    have hpeek : (storagePeek p area sizeofPersistentConfig (.cut m' k'')).2.2.mem = m' :=
      hup.laid.peek_cut sizeofPersistentConfig k''
    have hmem : (configInit p fa (.cut m k)).2.2.mem = m' := by
      simp only [configInit, hinit, hdrain, hpeek]
    rw [hmem]
    exact hup.inFlash

theorem InFlash.inits (h : InFlash p fa m q clean) (hsize : 16 ∣ fa.faSize) (hpos : 0 < fa.faSize)
    (inits : List Nat) : InFlash p fa (lostConfigInits p fa m inits) q clean := by
  induction inits generalizing m with
  | nil => exact h
  | cons k inits ih => exact ih (h.init_cut hsize hpos k)

/-! Runs. -/

/-- A partition that takes the records of the module, and a checksum that tells them apart. -/
structure Fits (p : Platform) (fa : FlashArea) : Prop where
  spans : 16 ∣ fa.faSize
  pos : 0 < fa.faSize
  size : fa.faSize ≤ 0x10000
  apart : TellsApart p

theorem Fits.room (h : Fits p fa) : 16 ≤ fa.faSize := Nat.le_of_dvd h.pos h.spans

theorem configPartition_fits (b : Board) : Fits (.of b) (configPartition b) := by
  cases b <;> exact ⟨by decide, by decide, by decide, by rw [TellsApart]; decide⟩

/-- RAM and flash agree with the register; what is in RAM is stored too, or nothing is. -/
structure Represents (p : Platform) (fa : FlashArea) (s : ConfigState) (t : Behavior) : Prop where
  initialized : s.config.initialized = true
  current : s.config.current = ⟨t.current, .replicate 7 0⟩
  low : t.current ≤ 1
  stored : ∃ q, ConfigUp p fa ⟨s.config.storageArea, s.mem⟩ q t.clean ∧ lastBoot q = t.stored
  agrees : t.stored = t.current ∨ t.stored = bootButtonPress

theorem Represents.stores_iff {s : ConfigState} {t : Behavior} (h : Represents p fa s t) (behavior : UInt8) :
    Persists s.config behavior ↔ t.Stores behavior := by
  simp only [Persists, Behavior.Stores, h.initialized, h.current, true_and, ne_eq]

theorem Represents.get {s : ConfigState} {t : Behavior} (h : Represents p fa s t) :
    configGetRebootBehavior s.config = some t.current := by
  rw [configGetRebootBehavior, h.initialized, h.current]
  rfl

/-- A `config_init` without faults, wherever the register is. -/
theorem InFlash.represents (h : InFlash p fa m q clean) (hfa : Fits p fa) :
    ∃ config m', configInit p fa (.ok m) = (.success, config, .ok m') ∧
      Represents p fa ⟨config, m'⟩ ⟨lastBoot q, lastBoot q, clean⟩ := by
  obtain ⟨area, m', hinit, hup⟩ := h.init hfa.spans hfa.pos
  exact ⟨_, m', hinit, rfl, rfl, lastBoot_le hup.kept.records, ⟨q, hup, rfl⟩, .inl rfl⟩

/-- A behavior that is not stored changes nothing. -/
theorem Represents.set_idle {s : ConfigState} {t : Behavior} {behavior : UInt8} {fl : Flash}
    (h : Represents p fa s t) (hs : ¬ t.Stores behavior) :
    configSetRebootBehavior p behavior s.config fl =
      (if t.current = behavior then .success else .invalidParam, s.config, fl) := by
  have hcur : s.config.current.boot = t.current := by rw [h.current]
  by_cases hb : t.current = behavior
  · simp [configSetRebootBehavior, h.initialized, hcur, hb]
  · have hbad : behavior ≠ bootButtonPress ∧ behavior ≠ bootAutoAlwaysOn := not_or.mp fun hok => hs ⟨hb, hok⟩
    simp [configSetRebootBehavior, h.initialized, hcur, hb, hbad]

/-- One that is stored gets to `persist_config`. -/
theorem Represents.storing {s : ConfigState} {t : Behavior} {behavior : UInt8} (h : Represents p fa s t)
    (hs : t.Stores behavior) (fl : Flash) :
    ∃ config q, configSetRebootBehavior p behavior s.config fl = persistConfig p config fl ∧
      config.initialized = true ∧ Storing p fa config s.mem q behavior t.clean ∧ lastBoot q = t.stored := by
  obtain ⟨q, hup, hq⟩ := h.stored
  have hlow : behavior ≤ 1 := by
    rcases hs.2 with rfl | rfl <;> decide
  exact ⟨_, q, configSetRebootBehavior_persists ((h.stores_iff behavior).mpr hs), h.initialized,
    ⟨hup, by rw [h.current], hlow⟩, hq⟩

theorem Represents.set {s : ConfigState} {t : Behavior} (h : Represents p fa s t) (hfa : Fits p fa) (behavior : UInt8) :
    ∃ ret config m', configSetRebootBehavior p behavior s.config (.ok s.mem) = (ret, config, .ok m') ∧
      setAllowed t behavior ret ∧ Represents p fa ⟨config, m'⟩ (setNext t behavior ret) := by
  by_cases hs : t.Stores behavior
  · obtain ⟨config, q, hset, hinit, hstoring, hq⟩ := h.storing hs (.ok s.mem)
    obtain ⟨ret, area, m', q', hpersist, hup', hret⟩ := hstoring.persist hfa.apart hfa.room hfa.size
    rw [hpersist] at hset
    refine ⟨ret, _, m', hset, ?_, ?_⟩
    · rw [setAllowed, if_pos hs]
      rcases hret with ⟨hok, -⟩ | ⟨hclean, rfl, -, hfail⟩
      · exact .inl hok
      · exact .inr ⟨hclean, hq.symm, hfail⟩
    · rw [setNext, if_pos hs]
      rcases hret with ⟨rfl, rfl⟩ | ⟨-, rfl, rfl, hfail⟩
      · rw [if_pos rfl]
        exact ⟨hinit, hstoring.value, hstoring.low, ⟨_, hup', lastBoot_singleton behavior⟩, .inl rfl⟩
      · have hne : ret ≠ .success := by
          rintro rfl
          simp at hfail
        rw [if_neg hne]
        exact ⟨hinit, hstoring.value, hstoring.low, ⟨_, hup', hq⟩, .inr hq.symm⟩
  · refine ⟨_, _, _, h.set_idle hs, ?_, ?_⟩
    · rw [setAllowed, if_neg hs]
    · rw [setNext, if_neg hs]
      exact h

/-- A call in which power is lost leaves what was stored, or what was being stored. -/
theorem Represents.lose {s : ConfigState} {t : Behavior} (h : Represents p fa s t) (hfa : Fits p fa) (behavior : UInt8)
    (k : Nat) :
    ∃ q, InFlash p fa (configSetRebootBehavior p behavior s.config (.cut s.mem k)).2.2.mem q
        (t.clean && !decide (t.Stores behavior)) ∧
      (lastBoot q = t.stored ∨ t.Stores behavior ∧ lastBoot q = behavior) := by
  by_cases hs : t.Stores behavior
  · obtain ⟨config, q, hset, -, hstoring, hq⟩ := h.storing hs (.cut s.mem k)
    obtain ⟨q', hflash, hq'⟩ := hstoring.persist_cut hfa.apart hfa.room hfa.size k
    rw [hset, decide_eq_true hs, Bool.not_true, Bool.and_false]
    refine ⟨q', hflash, ?_⟩
    rcases hq' with rfl | rfl | rfl
    · exact .inl hq
    · -- nothing is stored: the default is the old behavior or the new one, as there are only two
      rw [lastBoot_nil]
      rcases hs.2 with rfl | rfl
      · exact .inr ⟨hs, rfl⟩
      · have hcur : t.current = bootButtonPress := (boot_cases h.low).resolve_right hs.1
        rcases h.agrees with he | he
        · exact .inl (by rw [he, hcur])
        · exact .inl he.symm
    · exact .inr ⟨hs, lastBoot_singleton behavior⟩
  · obtain ⟨q, hup, hq⟩ := h.stored
    rw [h.set_idle hs, decide_eq_false hs, Bool.not_false, Bool.and_true]
    exact ⟨q, hup.inFlash, .inl hq⟩

theorem configPowerStep_represents (hfa : Fits p fa) (s : ConfigState) (t : Behavior) (call : PowerCall)
    (h : Represents p fa s t) :
    rebootBehavior.allows t call (configPowerStep p fa s call).1 ∧
      Represents p fa (configPowerStep p fa s call).2 (rebootBehavior.next t call (configPowerStep p fa s call).1) := by
  cases call with
  | set behavior =>
    obtain ⟨ret, config, m', hset, hallowed, hnext⟩ := h.set hfa behavior
    simp only [configPowerStep, hset]
    exact ⟨⟨hallowed, hnext.get⟩, hnext⟩
  | lose behavior k inits =>
    obtain ⟨q, hflash, hq⟩ := h.lose hfa behavior k
    obtain ⟨config, m', hinit, hnext⟩ := (hflash.inits hfa.spans hfa.pos inits).represents hfa
    have hget := hnext.get
    simp only [configPowerStep, hinit]
    refine ⟨⟨rfl, ?_⟩, ?_⟩
    · rw [hget]
      exact hq.imp (congrArg some) (And.imp_right (congrArg some))
    · rw [hget]
      exact hnext

/-- From an erased partition on, whatever is set and wherever power is lost, the module is an atomic register: a reboot
loads the behavior stored last or the one that was being stored. A store fails only if one was interrupted before it,
and then what is stored remains. -/
theorem config_survives_power_loss (b : Board) (m : Mem) (calls : List PowerCall)
    (herased : Erased (content (configPartition b) m) 0 (configPartition b).faSize) :
    let boot := configInit (.of b) (configPartition b) (.ok m)
    boot.1 = .success ∧ ∃ t, rebootBehavior.Run ⟨bootButtonPress, bootButtonPress, true⟩ calls
      (Machine.run (configPowerStep (.of b) (configPartition b)) ⟨boot.2.1, boot.2.2.mem⟩ calls).1 t := by
  have hfa := configPartition_fits b
  obtain ⟨config, m', hinit, hboot⟩ :=
    (inFlash_of_erased (Platform.of b) true herased).represents hfa
  intro boot
  have hb : boot = (.success, config, .ok m') := hinit
  rw [hb]
  have hstep (s : ConfigState) (t : Behavior) (call : PowerCall) (_ : True)
      (h : Represents (.of b) (configPartition b) s t) := configPowerStep_represents hfa s t call h
  obtain ⟨t, hrun, -⟩ := Machine.run_simulates hstep ⟨config, m'⟩ _ calls (fun _ _ => trivial) hboot
  exact ⟨rfl, t, hrun⟩

/-- A store is cut off once its payload is written; the next one fails, and what it leaves in RAM is not in flash. -/
theorem config_survives_power_loss_pearl :
    ∃ t, rebootBehavior.Run ⟨bootButtonPress, bootButtonPress, true⟩
      [.lose bootAutoAlwaysOn 1 [3], .set bootAutoAlwaysOn, .lose bootButtonPress 5 []]
      (Machine.run (configPowerStep (.of .pearl) (configPartition .pearl))
        ⟨(configInit (.of .pearl) (configPartition .pearl) (.ok fun _ => 0xff)).2.1,
          (configInit (.of .pearl) (configPartition .pearl) (.ok fun _ => 0xff)).2.2.mem⟩
        [.lose bootAutoAlwaysOn 1 [3], .set bootAutoAlwaysOn, .lose bootButtonPress 5 []]).1 t :=
  (config_survives_power_loss .pearl (fun _ => 0xff)
    [.lose bootAutoAlwaysOn 1 [3], .set bootAutoAlwaysOn, .lose bootButtonPress 5 []]
    (fun _ _ _ => rfl)).2

end OrbFirmware.Config

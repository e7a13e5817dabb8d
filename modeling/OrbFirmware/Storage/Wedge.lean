import OrbFirmware.Storage.PowerRuns

/-! Room in an empty area, over runs with power losses: what makes the area wedge, and that nothing
else does. -/
namespace OrbFirmware.Storage
open Nor

/-- The read index once the record at it is freed. -/
def freedTo (p : Platform) (c : Mem) (area : StorageArea) : Nat :=
  area.rdIdx+recordSpan p (headerAt c area.rdIdx).recordSize.toNat

/-- `storage_free` erases the area once the queue drained and little room is left. -/
def Drains (p : Platform) (fa : FlashArea) (c : Mem) (area : StorageArea) : Prop :=
  area.wrIdx ≤ freedTo p c area ∧ fa.faSize-area.wrIdx < minimumEmptySpace

instance (p : Platform) (fa : FlashArea) (c : Mem) (area : StorageArea) : Decidable (Drains p fa c area) :=
  inferInstanceAs (Decidable (_ ∧ _))

/-- A `storage_free` on a valid header, up to the write index that a reboot moved to the end of the
area, does not leave the read index short of it. -/
def ReachesWrIdx (p : Platform) (fa : FlashArea) (c : Mem) (area : StorageArea) : Prop :=
  (headerAt c area.rdIdx).magicState = recordValid → freedTo p c area+8 < fa.faSize ∨
    area.wrIdx ≤ freedTo p c area

instance (p : Platform) (fa : FlashArea) (c : Mem) (area : StorageArea) : Decidable (ReachesWrIdx p fa c area) :=
  inferInstanceAs (Decidable (_ → _))

/-- Power lost in `storage_free` between the freed header and the erase of a drained area. -/
def CutBeforeErase (p : Platform) (fa : FlashArea) (c : Mem) (area : StorageArea) (k : Nat) : Prop :=
  (headerAt c area.rdIdx).magicState = recordValid ∧ k = 2 ∧ Drains p fa c area ∧ area.wrIdx+8 < fa.faSize

instance (p : Platform) (fa : FlashArea) (c : Mem) (area : StorageArea) (k : Nat) :
    Decidable (CutBeforeErase p fa c area k) :=
  inferInstanceAs (Decidable (_ ∧ _))

/-- The read index a reboot has to come to after an interrupted call. -/
def lostRdIdx (p : Platform) (c : Mem) (area : StorageArea) (k : Nat) (op : StorageOp) : Nat :=
  if op = .free ∧ (headerAt c area.rdIdx).magicState = recordValid ∧ 2 ≤ k then freedTo p c area
  else area.rdIdx

/-- A reboot that takes no freed payload for a header. -/
def ScanClean (p : Platform) (fa : FlashArea) (c : Mem) (rd : Nat) : Prop :=
  NoMisread p c rd ∨ Erased c 0 fa.faSize

instance (p : Platform) (fa : FlashArea) (c : Mem) (rd : Nat) : Decidable (ScanClean p fa c rd) :=
  inferInstanceAs (Decidable (_ ∨ _))

/-- The steps that do not go the ways in which an area wedges. -/
def KeepsRoom (p : Platform) (fa : FlashArea) (s : StorageState) : PowerAction → Prop
  | .call (.push record) => LeavesUnused p fa (content fa s.mem) s.area.wrIdx record
  | .call .free => ReachesWrIdx p fa (content fa s.mem) s.area
  | .call _ => True
  | .lose op k _ =>
    (match op with
      | .push record => LeavesUnused p fa (content fa s.mem) s.area.wrIdx record
      | .free => ¬ CutBeforeErase p fa (content fa s.mem) s.area k
      | _ => True) ∧
    ScanClean p fa (content fa (lostCall p s k op)) (lostRdIdx p (content fa s.mem) s.area k op)

instance (p : Platform) (fa : FlashArea) (s : StorageState) (a : PowerAction) : Decidable (KeepsRoom p fa s a) :=
  match a with
  | .call (.push record) => inferInstanceAs (Decidable (LeavesUnused p fa _ _ record))
  | .call .free => inferInstanceAs (Decidable (ReachesWrIdx p fa _ _))
  | .call (.peek _) | .call .isLastRecord | .call .hasData => isTrue trivial
  | .lose (.push record) _ _ => inferInstanceAs (Decidable (LeavesUnused p fa _ _ record ∧ ScanClean p fa _ _))
  | .lose .free k _ => inferInstanceAs (Decidable (¬ CutBeforeErase p fa _ _ k ∧ ScanClean p fa _ _))
  | .lose (.peek _) _ _ | .lose .isLastRecord _ _ | .lose .hasData _ _ =>
      inferInstanceAs (Decidable (True ∧ ScanClean p fa _ _))

/-- The area in use: the queue it delimits, and room for a record in it when the queue is empty. A
reboot puts the write index at the end of the area where no header fits behind the queue. -/
structure RoomInv (p : Platform) (fa : FlashArea) (s : StorageState) (w : Nat) (q : Queue) : Prop where
  area : s.area.fa = some fa
  kept : Kept p fa s.mem s.area.rdIdx w q
  wrIdx : s.area.wrIdx = w ∨ s.area.wrIdx = fa.faSize ∧ fa.faSize ≤ w+8
  room : q = [] → s.area.wrIdx = w ∧ w+minimumEmptySpace ≤ fa.faSize

variable {p : Platform} {fa : FlashArea} {area : StorageArea} {s : StorageState} {m m' : Mem} {c : Mem}
  {q : Queue} {record : List UInt8} {k size rd w : Nat}

theorem roomInv_of_erased (p : Platform) (hsize : minimumEmptySpace ≤ fa.faSize)
    (h : Erased (content fa m) 0 fa.faSize) : RoomInv p fa ⟨⟨some fa, 0, 0⟩, m⟩ 0 [] :=
  ⟨rfl, kept_of_erased p h, .inl rfl, fun _ => ⟨rfl, by omega⟩⟩

/-- Where the queue is kept and the scan is not misled, a reboot finds it. -/
theorem Kept.boot (h : Kept p fa m rd w q) (hsize : minimumEmptySpace ≤ fa.faSize)
    (hclean : NoMisread p (content fa m) rd)
    (hroom : q = [] → w+minimumEmptySpace ≤ fa.faSize ∨ fa.faSize ≤ w+8) :
    ∃ w q, RoomInv p fa (storageBoot p fa m).2 w q := by
  have hmin : minimumEmptySpace = 512 := rfl
  have hhdr : sizeofStorageHeader = 8 := rfl
  have hused : q ≠ [] ∨ 0 < rd ∨ sizeofStorageHeader < fa.faSize := .inr (.inr (by omega))
  simp only [storageBoot, storageInit_ok, (h.scannable hclean).initArea hused]
  by_cases hdrained : q = [] ∧ ¬ w+sizeofStorageHeader < fa.faSize
  · simp only [if_pos hdrained, reduceCtorEq, if_false]
    exact ⟨0, [], roomInv_of_erased p hsize (erasedFrom_erase (fun _ _ => rfl)).erased⟩
  · simp only [if_neg hdrained, if_true]
    refine ⟨w, q, rfl, h, ?_, fun hq => ?_⟩
    · by_cases hend : w+sizeofStorageHeader < fa.faSize
      · exact .inl (if_pos hend)
      · exact .inr ⟨if_neg hend, by omega⟩
    · have hend : w+sizeofStorageHeader < fa.faSize := by
        by_contra hno
        exact hdrained ⟨hq, hno⟩
      refine ⟨if_pos hend, ?_⟩
      have hw := hroom hq
      omega

/-- Flash after an interrupted call, that a reboot makes an area with room of. -/
def Recoverable (p : Platform) (fa : FlashArea) (m : Mem) : Prop :=
  Erased (content fa m) 0 fa.faSize ∨ ∃ rd w q, Kept p fa m rd w q ∧ NoMisread p (content fa m) rd ∧
    (q = [] → w+minimumEmptySpace ≤ fa.faSize ∨ fa.faSize ≤ w+8)

/-- Any number of reboots may be interrupted before one gets through. -/
theorem Recoverable.boot (h : Recoverable p fa m) (hsize : minimumEmptySpace ≤ fa.faSize) (inits : List Nat) :
    ∃ w q, RoomInv p fa (storageBoot p fa (lostInits p fa m inits)).2 w q := by
  have hempty {m' : Mem} (he : Erased (content fa m') 0 fa.faSize) :
      ∃ w q, RoomInv p fa (storageBoot p fa m').2 w q :=
    (kept_of_erased p he).boot hsize (fun index hi => absurd hi (Nat.not_lt_zero index)) fun _ => .inl (by omega)
  cases keptOrErased_inits p fa m inits with
  | inr he => exact hempty he
  | inl hm =>
    rw [hm]
    cases h with
    | inl he => exact hempty he
    | inr hkept =>
      obtain ⟨rd, w, q, hkept, hclean, hroom⟩ := hkept
      exact hkept.boot hsize hclean hroom

namespace RoomInv

theorem rdIdx_le (h : RoomInv p fa s w q) : s.area.rdIdx+8*q.length ≤ w := h.kept.queued.le

theorem wrIdx_le (h : RoomInv p fa s w q) : w ≤ s.area.wrIdx ∧ s.area.wrIdx ≤ fa.faSize := by
  have hb := h.kept.bounded
  cases h.wrIdx with
  | inl he => omega
  | inr he => omega

/-- The queue is read from the area, and nothing else. -/
theorem areaRecords (h : RoomInv p fa s w q) : areaRecords p fa s = q := by
  have hle := h.rdIdx_le
  obtain ⟨hw, hb⟩ := h.wrIdx_le
  have hread : Readable p fa s q := by
    refine ⟨h.area, h.kept.aligned, hb, w, h.kept.queued, hw, fun _ hfit => ?_⟩
    rw [headerAt_erased h.kept.erased (by omega)]
    exact recordUnused_ne_valid
  exact hread.records (fun r hr => (h.kept.queued.length_le r hr).trans h.kept.bounded) (by omega)

theorem push (h : RoomInv p fa s w q) (hmin : minimumEmptySpace ≤ fa.faSize) (hsize : fa.faSize ≤ 0x10000)
    (hbehind : LeavesUnused p fa (content fa s.mem) s.area.wrIdx record) :
    ∃ w q, RoomInv p fa (storageStep p s (.push record)).2 w q := by
  have hal : p.blk ∣ w := h.kept.queued.aligned h.kept.aligned
  by_cases hparam : record = [] ∨ fa.faSize < record.length
  · rw [storageStep, storagePush_invalidParam h.area hparam]
    exact ⟨w, q, h⟩
  · obtain ⟨hne, hlong⟩ := not_or.mp hparam
    by_cases hfull : fa.faSize < s.area.wrIdx+recordSpan p record.length
    · rw [storageStep, storagePush_noMem h.area hparam hfull]
      exact ⟨w, q, h⟩
    · have hs := le_recordSpan p record.length
      have hw : s.area.wrIdx = w := by
        cases h.wrIdx with
        | inl he => exact he
        | inr he => omega
      rw [← hw] at hal
      by_cases hacc : PushAccepted p (content fa s.mem) s.area.wrIdx record
      · rw [storageStep, storagePush_accepted h.area hal hne (not_lt.mp hfull) hacc]
        rw [hw] at hacc hbehind hfull ⊢
        have hc : content fa (program (program s.mem (fa.faOff+(w+8)) (paddedRecord p record)) (fa.faOff+w)
            (headerOf p record).bytes) = pushed p (content fa s.mem) w record := by
          rw [content_program, content_program, pushed]
        exact ⟨_, _, h.area, h.kept.push hsize hne (not_lt.mp hfull) hacc hbehind hc, .inl rfl,
          fun hq => absurd hq (by simp)⟩
      · obtain ⟨ret, m', hpush, -, hm'⟩ := storagePush_rejected h.area hal hne (not_lt.mp hfull) hacc
        rw [storageStep, hpush, h.area]
        exact ⟨0, [], roomInv_of_erased p hmin hm'.erased⟩

theorem peek (h : RoomInv p fa s w q) (size : Nat) : (storageStep p s (.peek size)).2 = s := by
  cases q with
  | nil =>
    have he : s.area.rdIdx = s.area.wrIdx := by
      obtain ⟨hw, -⟩ := h.room rfl
      have hrd : s.area.rdIdx = w := h.kept.queued
      omega
    simp only [storageStep, storagePeek, h.area, if_pos he, Flash.ok_mem]
  | cons record q =>
    obtain ⟨hr, htail⟩ := h.kept.queued
    have hs := le_recordSpan p record.length
    have hle := htail.le
    obtain ⟨hw, hb⟩ := h.wrIdx_le
    rw [storageStep, storagePeek_ok h.area (by omega) (by omega) hr]
    by_cases hsz : size < record.length
    · rw [if_pos hsz]
      rfl
    · rw [if_neg hsz]
      rfl

theorem idle_header (h : RoomInv p fa s w []) (hb : s.area.rdIdx+8 ≤ fa.faSize) :
    (headerAt (content fa s.mem) s.area.rdIdx).magicState ≠ recordValid := by
  have hrd : s.area.rdIdx = w := h.kept.queued
  rw [hrd] at hb ⊢
  rw [headerAt_erased h.kept.erased (by omega)]
  exact recordUnused_ne_valid

theorem free (h : RoomInv p fa s w q) (hmin : minimumEmptySpace ≤ fa.faSize)
    (hreach : ReachesWrIdx p fa (content fa s.mem) s.area) :
    ∃ w q, RoomInv p fa (storageStep p s .free).2 w q := by
  cases q with
  | nil =>
    rw [storageStep, storageFree_notFound h.area h.idle_header]
    exact ⟨w, [], h⟩
  | cons record q =>
    obtain ⟨hr, htail⟩ := h.kept.queued
    have hs := le_recordSpan p record.length
    have hle := htail.le
    obtain ⟨hw, hb⟩ := h.wrIdx_le
    have hend : freedTo p (content fa s.mem) s.area = s.area.rdIdx+recordSpan p record.length := by
      rw [freedTo, hr.size]
    rw [storageStep, storageFree_ok h.area h.kept.aligned (by omega) hr.magic hr.size]
    by_cases hdrain : s.area.wrIdx ≤ s.area.rdIdx+recordSpan p record.length ∧
        fa.faSize-s.area.wrIdx < minimumEmptySpace
    · simp only [if_pos hdrain, h.area]
      exact ⟨0, [], roomInv_of_erased p hmin (erasedFrom_erase (fun _ _ => rfl)).erased⟩
    · simp only [if_neg hdrain]
      refine ⟨w, q, h.area, h.kept.free, h.wrIdx, fun hq => ?_⟩
      subst hq
      have hrd : s.area.rdIdx+recordSpan p record.length = w := htail
      have hreach' := hreach hr.magic
      rw [hend] at hreach'
      have hwr := h.wrIdx
      simp only at hwr ⊢
      omega

theorem call (h : RoomInv p fa s w q) (hmin : minimumEmptySpace ≤ fa.faSize) (hsize : fa.faSize ≤ 0x10000)
    (op : StorageOp) (hok : KeepsRoom p fa s (.call op)) : ∃ w q, RoomInv p fa (storageStep p s op).2 w q := by
  cases op with
  | push record => exact h.push hmin hsize hok
  | peek size =>
    rw [h.peek size]
    exact ⟨w, q, h⟩
  | free => exact h.free hmin hok
  | isLastRecord =>
    have hm := storageIsLastRecord_mem p s.area (.ok s.mem)
    simp only [storageStep, hm, Flash.ok_mem]
    exact ⟨w, q, h⟩
  | hasData => exact ⟨w, q, h⟩

/-- A call that loses power having stored nothing. -/
theorem unchanged (h : RoomInv p fa s w q) (hclean : ScanClean p fa (content fa m) s.area.rdIdx)
    (hm : KeptOrErased fa s.mem m) : Recoverable p fa m := by
  cases hclean with
  | inr he => exact .inl he
  | inl hclean =>
    cases hm with
    | inr he => exact .inl he
    | inl he =>
      rw [he] at hclean ⊢
      exact .inr ⟨_, w, q, h.kept, hclean, fun hq => .inl (h.room hq).2⟩

theorem lose_push (h : RoomInv p fa s w q) (hsize : fa.faSize ≤ 0x10000) (k : Nat)
    (hbehind : LeavesUnused p fa (content fa s.mem) s.area.wrIdx record)
    (hclean : ScanClean p fa (content fa (lostCall p s k (.push record))) s.area.rdIdx) :
    Recoverable p fa (lostCall p s k (.push record)) := by
  cases hclean with
  | inr he => exact .inl he
  | inl hclean =>
    obtain ⟨hw, hb⟩ := h.wrIdx_le
    have hroom (hq : q = []) := (h.room hq).2
    -- a write index at the end of the area takes no record, so alignment is needed at `w` only
    by_cases hend : s.area.wrIdx = w
    · have hal : p.blk ∣ s.area.wrIdx := hend ▸ h.kept.queued.aligned h.kept.aligned
      rcases storagePush_cut h.area hal record s.mem k with ha | he | ⟨hne, hfit, hacc, hm⟩
      · exact .inr ⟨_, w, q, h.kept.congr (ha.mono le_rfl (by omega)), hclean, fun hq => .inl (hroom hq)⟩
      · exact .inl he
      · rw [hend] at hfit hacc hbehind hm
        exact .inr ⟨_, _, _, h.kept.push hsize hne hfit hacc hbehind hm, hclean, fun hq => absurd hq (by simp)⟩
    · have hfull : s.area.wrIdx = fa.faSize := by
        cases h.wrIdx with
        | inl he => exact absurd he hend
        | inr he => exact he.1
      have hm : lostCall p s k (.push record) = s.mem := by
        have hs := le_recordSpan p record.length
        by_cases hparam : record = [] ∨ fa.faSize < record.length
        · rw [lostCall, storagePush_invalidParam h.area hparam, Flash.cut_mem]
        · rw [lostCall, storagePush_noMem h.area hparam (by omega), Flash.cut_mem]
      exact h.unchanged (.inl hclean) (.inl hm)

theorem lose_free (h : RoomInv p fa s w q) (k : Nat)
    (hcut : ¬ CutBeforeErase p fa (content fa s.mem) s.area k)
    (hclean : ScanClean p fa (content fa (lostCall p s k .free)) (lostRdIdx p (content fa s.mem) s.area k .free)) :
    Recoverable p fa (lostCall p s k .free) := by
  obtain ⟨hw, hb⟩ := h.wrIdx_le
  cases q with
  | nil =>
    have hm : lostCall p s k .free = s.mem := storageFree_idle h.area _ h.idle_header
    have hidle : lostRdIdx p (content fa s.mem) s.area k .free = s.area.rdIdx := by
      rw [lostRdIdx]
      split
      · rename_i hv
        have hrd : s.area.rdIdx = w := h.kept.queued
        obtain ⟨-, hmin⟩ := h.room rfl
        have hfit : s.area.rdIdx+8 ≤ fa.faSize := by
          simp only [minimumEmptySpace] at hmin
          omega
        exact absurd hv.2.1 (h.idle_header hfit)
      · rfl
    rw [hidle] at hclean
    exact h.unchanged hclean (.inl hm)
  | cons record q =>
    cases hclean with
    | inr he => exact .inl he
    | inl hclean =>
      obtain ⟨hr, htail⟩ := h.kept.queued
      have hs := le_recordSpan p record.length
      have hle := htail.le
      have hend : freedTo p (content fa s.mem) s.area = s.area.rdIdx+recordSpan p record.length := by
        rw [freedTo, hr.size]
      have hm : lostCall p s k .free = _ := storageFree_cut h.area h.kept.aligned (by omega) hr.magic hr.size k
      by_cases hk : k < 2
      · rw [if_pos hk] at hm
        have hrd : lostRdIdx p (content fa s.mem) s.area k .free = s.area.rdIdx := if_neg (by omega)
        rw [hrd] at hclean
        exact h.unchanged (.inl hclean) (.inl hm)
      · rw [if_neg hk] at hm
        have hrd : lostRdIdx p (content fa s.mem) s.area k .free = s.area.rdIdx+recordSpan p record.length := by
          rw [← hend]
          exact if_pos ⟨rfl, hr.magic, by omega⟩
        by_cases hdrain : s.area.wrIdx ≤ s.area.rdIdx+recordSpan p record.length ∧
            fa.faSize-s.area.wrIdx < minimumEmptySpace ∧ 2 < k
        · rw [if_pos hdrain] at hm
          rw [hm]
          exact .inl (erasedFrom_erase (fun _ _ => rfl)).erased
        · rw [if_neg hdrain] at hm
          rw [hm, hrd] at hclean
          rw [hm]
          refine .inr ⟨_, w, q, h.kept.free, hclean, fun hq => ?_⟩
          subst hq
          have hlast : s.area.rdIdx+recordSpan p record.length = w := htail
          have hnot : ¬ (k = 2 ∧ s.area.wrIdx ≤ w ∧ fa.faSize-s.area.wrIdx < minimumEmptySpace ∧
              s.area.wrIdx+8 < fa.faSize) := fun ⟨h2, hge, hlittle, hroom⟩ =>
            hcut ⟨hr.magic, h2, ⟨by rw [hend, hlast]; exact hge, hlittle⟩, hroom⟩
          have hwr := h.wrIdx
          omega

theorem lose (h : RoomInv p fa s w q) (hsize : fa.faSize ≤ 0x10000) (op : StorageOp) (k : Nat) (inits : List Nat)
    (hok : KeepsRoom p fa s (.lose op k inits)) : Recoverable p fa (lostCall p s k op) := by
  obtain ⟨hop, hclean⟩ := hok
  cases op with
  | push record => exact h.lose_push hsize k hop hclean
  | peek size => exact h.unchanged hclean (keptOrErased_peek h.area size _)
  | free => exact h.lose_free k hop hclean
  | isLastRecord => exact h.unchanged hclean (.inl (storageIsLastRecord_mem p s.area _))
  | hasData => exact h.unchanged hclean (.inl rfl)

theorem step (h : RoomInv p fa s w q) (hmin : minimumEmptySpace ≤ fa.faSize) (hsize : fa.faSize ≤ 0x10000)
    (a : PowerAction) (hok : KeepsRoom p fa s a) : ∃ w q, RoomInv p fa (powerStep p fa s a).2 w q := by
  cases a with
  | call op => exact h.call hmin hsize op hok
  | lose op k inits => exact (h.lose hsize op k inits hok).boot hmin inits

end RoomInv

theorem recordSpan_le_minimum (p : Platform) (hlen : size ≤ 504) : recordSpan p size ≤ minimumEmptySpace := by
  have hblk : p.blk = 8 ∨ p.blk = 1 := by
    rw [Platform.blk]
    cases p.board
    · exact .inl rfl
    · exact .inr rfl
  rw [recordSpan, blockPadding, sizeofStorageHeader, minimumEmptySpace]
  cases hblk with
  | inl hb =>
    rw [hb]
    split <;> omega
  | inr hb =>
    rw [hb]
    split <;> omega

/-- An empty area has room for the record: header and at most 504 bytes are what is kept free. -/
theorem RoomInv.push_empty (h : RoomInv p fa s w []) (hne : record ≠ []) (hlen : record.length ≤ 504) :
    (storagePush p s.area record (.ok s.mem)).1 ≠ .noMem := by
  obtain ⟨hw, hroom⟩ := h.room rfl
  have hspan := recordSpan_le_minimum p hlen
  have hs := le_recordSpan p record.length
  have hfit : s.area.wrIdx+recordSpan p record.length ≤ fa.faSize := by omega
  have hal : p.blk ∣ s.area.wrIdx := hw ▸ h.kept.queued.aligned h.kept.aligned
  by_cases hacc : PushAccepted p (content fa s.mem) s.area.wrIdx record
  · rw [storagePush_accepted h.area hal hne hfit hacc]
    simp
  · obtain ⟨ret, m', hpush, hret, -⟩ := storagePush_rejected h.area hal hne hfit hacc
    rw [hpush]
    rcases hret with rfl | rfl <;> simp

/-- Calls and power losses in any order, from erased flash: as long as no step goes one of the ways in
which an area wedges, an empty area takes every record of at most 504 bytes. -/
theorem storage_never_wedges (p : Platform) (fa : FlashArea) (m : Mem) (acts : List PowerAction)
    (hmin : minimumEmptySpace ≤ fa.faSize) (hsize : fa.faSize ≤ 0x10000) (herased : Erased (content fa m) 0 fa.faSize)
    (hmeets : Machine.Meets (powerStep p fa) (KeepsRoom p fa) (storageBoot p fa m).2 acts) :
    let s := (Machine.run (powerStep p fa) (storageBoot p fa m).2 acts).2
    s.area.rdIdx = s.area.wrIdx ∨ areaRecords p fa s = [] → ∀ record : List UInt8, record ≠ [] →
      record.length ≤ 504 → (storagePush p s.area record (.ok s.mem)).1 ≠ .noMem := by
  intro s hempty record hne hlen
  have hfresh : Recoverable p fa m := .inl herased
  have hstep (s : StorageState) (a : PowerAction) (h : ∃ w q, RoomInv p fa s w q) (ha : KeepsRoom p fa s a) :
      ∃ w q, RoomInv p fa (powerStep p fa s a).2 w q := by
    obtain ⟨w, q, hinv⟩ := h
    exact hinv.step hmin hsize a ha
  obtain ⟨w, q, hinv⟩ := Machine.meets_invariant hstep _ acts (hfresh.boot hmin []) hmeets
  have hq : q = [] := by
    rw [← hinv.areaRecords]
    cases hempty with
    | inl he => exact storageRecords_empty hinv.area he
    | inr hnone => exact hnone
  subst hq
  exact hinv.push_empty hne hlen

theorem storage_never_wedges_pearl :
    let s := (Machine.run (powerStep (.of .pearl) (storagePartition .pearl))
      (storageBoot (.of .pearl) (storagePartition .pearl) (fun _ => 0xff)).2
      [.call (.push [1, 2, 3]), .lose (.push [4]) 1 [0], .lose .free 2 []]).2
    (storagePush (.of .pearl) s.area [5] (.ok s.mem)).1 ≠ .noMem :=
  storage_never_wedges (.of .pearl) (storagePartition .pearl) (fun _ => 0xff)
    [.call (.push [1, 2, 3]), .lose (.push [4]) 1 [0], .lose .free 2 []] (by decide) (by decide)
    (fun _ _ _ => rfl) (by decide +kernel) (.inl (by decide +kernel)) [5] (by decide) (by decide)

/-- The last record freed, power lost before the erase: the reboot keeps the area as it is. -/
theorem StorageInv.cut_before_erase (h : StorageInv p fa s [record]) (hend : s.area.wrIdx+8 < fa.faSize)
    (hclean : NoMisread p (content fa (zeroHeader s.mem (fa.faOff+s.area.rdIdx))) s.area.wrIdx) :
    (powerStep p fa s (.lose .free 2 [])).2 =
      ⟨⟨some fa, s.area.wrIdx, s.area.wrIdx⟩, zeroHeader s.mem (fa.faOff+s.area.rdIdx)⟩ := by
  obtain ⟨hr, htail⟩ := h.queued
  have hlast : s.area.rdIdx+recordSpan p record.length = s.area.wrIdx := htail
  have hs := le_recordSpan p record.length
  have hkept : Kept p fa s.mem s.area.rdIdx s.area.wrIdx [record] :=
    ⟨h.aligned, h.freed, h.queued, h.nonempty, h.bounded, h.erased.mono le_rfl (Nat.min_le_right _ _)⟩
  have hfreed := hkept.free
  rw [hlast] at hfreed
  have hm : (storageFree p s.area (.cut s.mem 2)).2.2.mem = _ :=
    storageFree_cut h.area h.aligned (by omega) hr.magic hr.size 2
  rw [if_neg (by omega), if_neg (by omega)] at hm
  have hfit : s.area.wrIdx+sizeofStorageHeader < fa.faSize := hend
  have hscan : initArea p fa ⟨some fa, 0, 0⟩ (.ok (zeroHeader s.mem (fa.faOff+s.area.rdIdx))) = _ :=
    (hfreed.scannable hclean).initArea (.inr (.inr (by omega)))
  simp only [hfit, not_true_eq_false, and_false, if_false, if_true] at hscan
  simp only [powerStep, lostCall, lostInits, hm, storageBoot, storageInit_ok, hscan, if_true, Flash.ok_mem]

/-- Zeros never look like a header. -/
theorem noMisread_zeros (hb : p.blk = 8) (hal : 8 ∣ rd) (hz : ∀ a < rd, c a = 0) : NoMisread p c rd := by
  intro index hi hdvd
  rw [hb] at hdvd
  have hword : (headerAt c index).magicState = 0 := by
    rw [magic_word, hz index hi, hz (index+1) (by omega)]
    rfl
  rw [hword]
  decide

/-- On Pearl, one record of zeros is all it takes. -/
theorem zeros_cut_before_erase (p : Platform) (fa : FlashArea) (m : Mem) (n : Nat) (hb : p.board = .pearl)
    (hsize : fa.faSize ≤ 0x10000) (herased : Erased (content fa m) 0 fa.faSize) (hn : 0 < n) (h8 : n % 8 = 0) (hend : 8+n+8 < fa.faSize) :
    (Machine.run (powerStep p fa) (storageBoot p fa m).2
      [.call (.push (List.replicate n 0)), .lose .free 2 []]).2.area = ⟨some fa, 8+n, 8+n⟩ := by
  have hblk : p.blk = 8 := by rw [Platform.blk, hb]; rfl
  have hspan : recordSpan p (List.replicate n (0 : UInt8)).length = 8+n := by
    rw [recordSpan, List.length_replicate, blockPadding_of_dvd (by rw [hblk]; exact h8)]
    rfl
  have hne : List.replicate n (0 : UInt8) ≠ [] := by
    rw [← List.length_pos_iff, List.length_replicate]
    exact hn
  obtain ⟨harea, -⟩ := storageBoot_erased_area (p := p) herased
  have hstart : StorageInv p fa (storageBoot p fa m).2 [] := storageBoot_erased herased
  obtain ⟨m', hpush, hinv⟩ := hstart.push (.inl hsize) hne (by rw [harea, hspan]; simp only; omega)
  rw [harea] at hpush hinv
  simp only [hspan, Nat.zero_add, List.nil_append] at hpush hinv
  have hpushed : (powerStep p fa (storageBoot p fa m).2 (.call (.push (List.replicate n 0)))).2 =
      ⟨⟨some fa, 8+n, 0⟩, m'⟩ := by
    rw [powerStep, storageStep, harea, hpush]
    rfl
  -- everything in front of the write index is zero once the header is freed
  have hpay := hinv.queued.1.payload
  rw [List.length_replicate] at hpay
  have hzero : ∀ a < 8+n, content fa (zeroHeader m' (fa.faOff+0)) a = 0 := by
    intro a ha
    by_cases hhead : a < 8
    · have hbyte := slice_getD (content fa (zeroHeader m' (fa.faOff+0))) 0 8 a 0 hhead
      rw [zeroHeader, content_program, slice_program_zeros, Nat.zero_add] at hbyte
      rw [zeroHeader, content_program, ← hbyte]
      exact List.getD_replicate 0 hhead
    · have hbyte := slice_getD (content fa m') (0+8) n (a-8) 0 (by omega)
      rw [hpay, show 0+8+(a-8) = a by omega] at hbyte
      rw [content_zeroHeader (.inr (by omega)), ← hbyte]
      exact List.getD_replicate 0 (by omega)
  have hcut := hinv.cut_before_erase hend (noMisread_zeros hblk (by simp only; omega) hzero)
  rw [Machine.run_pair, hpushed, hcut]

theorem full_of_area (harea : s.area = ⟨some fa, w, w⟩) (hne : record ≠ []) (hlong : record.length ≤ fa.faSize)
    (hfull : fa.faSize < w+recordSpan p record.length) :
    s.area.rdIdx = s.area.wrIdx ∧ areaRecords p fa s = [] ∧
      (storagePush p s.area record (.ok s.mem)).1 = .noMem := by
  have hfa : s.area.fa = some fa := by rw [harea]
  have he : s.area.rdIdx = s.area.wrIdx := by rw [harea]
  have hparam : ¬ (record = [] ∨ fa.faSize < record.length) := fun h => h.elim hne (not_lt.mpr hlong)
  refine ⟨he, storageRecords_empty hfa he, ?_⟩
  rw [storagePush_noMem hfa hparam (by rw [harea]; exact hfull)]

/-- A drained area with 488 bytes left, that a longer record does not get into. -/
theorem cut_before_erase_wedges :
    let s := (Machine.run (powerStep (.of .pearl) (storagePartition .pearl))
      (storageBoot (.of .pearl) (storagePartition .pearl) (fun _ => 0xff)).2
      [.call (.push (List.replicate 3600 0)), .lose .free 2 []]).2
    s.area.rdIdx = s.area.wrIdx ∧ areaRecords (.of .pearl) (storagePartition .pearl) s = [] ∧
    (storagePush (.of .pearl) s.area (List.replicate 504 0) (.ok s.mem)).1 = .noMem := by
  have harea := zeros_cut_before_erase (.of .pearl) (storagePartition .pearl) (fun _ => 0xff) 3600 rfl
    (by decide) (fun _ _ _ => rfl) (by decide) (by decide) (by decide)
  have hlen : (List.replicate 504 (0 : UInt8)).length = 504 := List.length_replicate
  refine full_of_area harea ?_ ?_ ?_
  · rw [← List.length_pos_iff, hlen]
    decide
  · rw [hlen]
    decide
  · rw [hlen]
    decide

end OrbFirmware.Storage

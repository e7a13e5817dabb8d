import OrbFirmware.RgbLeds.Ring
import Mathlib.Data.List.Nodup

/-! `set_ring` for a ring of any length, with the indices that it writes. -/
namespace OrbFirmware.RgbLeds
open Runner

/-- A ring of `numLeds` LEDs, of which `indexZero` is at 0 degrees. -/
structure RingLayout where
  numLeds : Nat
  indexZero : Nat
  zero_lt : indexZero < numLeds

def RingLayout.ofBoard (board : Board) : RingLayout where
  numLeds := numRingLeds board
  indexZero := indexRingZero board
  zero_lt := by cases board <;> decide

/-- The first `led_index`. -/
def arcStart (layout : RingLayout) (startAngle : UInt32) : Int :=
  let ledIndex : Int := layout.indexZero-(layout.numLeds*startAngle.toNat/fullRingDegrees : Nat)
  if ledIndex < 0 then ledIndex+layout.numLeds else ledIndex

def arcNext (layout : RingLayout) (board : Board) (angleLength : Int32) (ledIndex : Int) : Int :=
  let up := (ledIndex+1) % layout.numLeds
  let down : Int := if ledIndex = 0 then layout.numLeds-1 else ledIndex-1
  match board with
  | .pearl => if 0 ≤ angleLength then up else down
  | .diamond => if 0 ≤ angleLength then down else up

/-- What turn `i` of the loop writes, the arc being `count` LEDs long. -/
def arcWrite (color : LedRgb) (bgColor : Option LedRgb) (count i : Nat) (ledIndex : Int) : List (Int × LedRgb) :=
  if i < count then [(ledIndex, color)]
  else
    match bgColor with
    | some bgColor => [(ledIndex, bgColor)]
    | none => []

/-- The writes of the loop, with `turns` of it left. -/
def arcWrites (layout : RingLayout) (board : Board) (color : LedRgb) (bgColor : Option LedRgb) (angleLength : Int32)
    (count : Nat) : Nat → Nat → Int → List (Int × LedRgb)
  | 0, _, _ => []
  | turns+1, i, ledIndex =>
    arcWrite color bgColor count i ledIndex ++
      arcWrites layout board color bgColor angleLength count turns (i+1) (arcNext layout board angleLength ledIndex)

/-- `set_ring`, where the semaphore can be taken or not. -/
def setRingWrites (layout : RingLayout) (board : Board) (color : LedRgb) (bgColor : Option LedRgb)
    (startAngle : UInt32) (angleLength : Int32) (ledsUpdateSem : Bool) : List (Int × LedRgb) :=
  if RingAccepts startAngle angleLength ∧ ledsUpdateSem then
    arcWrites layout board color bgColor angleLength (layout.numLeds*angleLength.toInt.natAbs/fullRingDegrees)
      layout.numLeds 0 (arcStart layout startAngle)
  else []

def written (ring : List LedRgb) : List (Int × LedRgb) → List LedRgb
  | [] => ring
  | (ledIndex, led) :: writes => written (ring.set ledIndex.toNat led) writes

theorem written_append (ring : List LedRgb) (writes writes' : List (Int × LedRgb)) :
    written ring (writes ++ writes') = written (written ring writes) writes' := by
  induction writes generalizing ring with
  | nil => rfl
  | cons write writes ih => exact ih _

/-! The LEDs of an arc. -/

/-- The LED of an angle; the angles go down along the ring. -/
def ledAt (layout : RingLayout) (angle : Nat) : Nat :=
  (layout.indexZero+layout.numLeds-layout.numLeds*angle/fullRingDegrees) % layout.numLeds

/-- The direction of a sign. -/
def Ascends (board : Board) (angleLength : Int32) : Prop :=
  match board with
  | .pearl => 0 ≤ angleLength.toInt
  | .diamond => angleLength.toInt < 0

instance : (board : Board) → (angleLength : Int32) → Decidable (Ascends board angleLength)
  | .pearl, angleLength => inferInstanceAs (Decidable (0 ≤ angleLength.toInt))
  | .diamond, angleLength => inferInstanceAs (Decidable (angleLength.toInt < 0))

/-- LED number `i` of an arc from LED `start` on. -/
def arcLed (numLeds start : Nat) (ascends : Prop) [Decidable ascends] (i : Nat) : Nat :=
  if ascends then (start+i) % numLeds else (start+numLeds-i) % numLeds

/-- The LEDs of an arc of `angleLength` degrees from `startAngle` on. -/
def arcLeds (layout : RingLayout) (board : Board) (startAngle : UInt32) (angleLength : Int32) : List Nat :=
  (List.range (layout.numLeds*angleLength.toInt.natAbs/fullRingDegrees)).map
    (arcLed layout.numLeds (ledAt layout startAngle.toNat) (Ascends board angleLength))

/-- How far LED `k` is from LED `start`. -/
def arcDistance (numLeds start : Nat) (ascends : Prop) [Decidable ascends] (k : Nat) : Nat :=
  if ascends then if start ≤ k then k-start else k+numLeds-start
  else if k ≤ start then start-k else start+numLeds-k

section
variable {numLeds start : Nat} {ascends : Prop} [Decidable ascends]

theorem arcLed_lt (hlt : start < numLeds) (i : Nat) : arcLed numLeds start ascends i < numLeds := by
  have hpos : 0 < numLeds := Nat.lt_of_le_of_lt (Nat.zero_le start) hlt
  simp only [arcLed]
  split_ifs
  · exact Nat.mod_lt _ hpos
  · exact Nat.mod_lt _ hpos

theorem arcDistance_lt {k : Nat} (hlt : start < numLeds) (hk : k < numLeds) :
    arcDistance numLeds start ascends k < numLeds := by
  simp only [arcDistance]
  split_ifs <;> omega

theorem arcDistance_arcLed {i : Nat} (hlt : start < numLeds) (hi : i < numLeds) :
    arcDistance numLeds start ascends (arcLed numLeds start ascends i) = i := by
  simp only [arcDistance, arcLed]
  by_cases hup : ascends
  · simp only [if_pos hup]
    obtain hfits | hwraps := Nat.lt_or_ge (start+i) numLeds
    · rw [Nat.mod_eq_of_lt hfits]
      split_ifs <;> omega
    · rw [Nat.mod_eq_sub_mod hwraps, Nat.mod_eq_of_lt (by omega)]
      split_ifs <;> omega
  · simp only [if_neg hup]
    obtain hfits | hwraps := Nat.lt_or_ge (start+numLeds-i) numLeds
    · rw [Nat.mod_eq_of_lt hfits]
      split_ifs <;> omega
    · rw [Nat.mod_eq_sub_mod hwraps, Nat.mod_eq_of_lt (by omega)]
      split_ifs <;> omega

theorem arcDistance_injOn {k k' : Nat} (hlt : start < numLeds) (hk : k < numLeds) (hk' : k' < numLeds)
    (h : arcDistance numLeds start ascends k = arcDistance numLeds start ascends k') : k = k' := by
  simp only [arcDistance] at h
  split_ifs at h <;> omega

theorem arcLed_arcDistance {k : Nat} (hlt : start < numLeds) (hk : k < numLeds) :
    arcLed numLeds start ascends (arcDistance numLeds start ascends k) = k :=
  arcDistance_injOn hlt (arcLed_lt hlt _) hk (arcDistance_arcLed hlt (arcDistance_lt hlt hk))

end

variable {layout : RingLayout} {board : Board} {color : LedRgb} {bgColor : Option LedRgb} {startAngle : UInt32}
  {angleLength : Int32} {count : Nat}

theorem ledAt_lt (angle : Nat) : ledAt layout angle < layout.numLeds :=
  Nat.mod_lt _ (Nat.lt_of_le_of_lt (Nat.zero_le _) layout.zero_lt)

/-- The loop starts at the LED of the start angle. -/
theorem arcStart_eq (hstart : startAngle.toNat < fullRingDegrees) :
    arcStart layout startAngle = ledAt layout startAngle.toNat := by
  have hlt := layout.zero_lt
  have hback : layout.numLeds*startAngle.toNat/fullRingDegrees < layout.numLeds := by
    rw [Nat.div_lt_iff_lt_mul (by decide)]
    exact Nat.mul_lt_mul_of_pos_left hstart (by omega)
  simp only [arcStart, ledAt]
  generalize layout.numLeds*startAngle.toNat/fullRingDegrees = back at hback
  obtain hbefore | hafter := Nat.lt_or_ge layout.indexZero back
  · rw [if_pos (by omega), Nat.mod_eq_of_lt (by omega)]
    omega
  · rw [if_neg (by omega), Nat.mod_eq_sub_mod (by omega), Nat.mod_eq_of_lt (by omega)]
    omega

/-- Each turn goes one LED further. -/
theorem arcNext_eq {k : Nat} (hk : k < layout.numLeds) :
    arcNext layout board angleLength k =
      arcLed layout.numLeds k (Ascends board angleLength) 1 := by
  have hup : ((k : Int)+1) % layout.numLeds = ((k+1) % layout.numLeds : Nat) := by
    rw [Int.natCast_mod]
    rfl
  have hdown : (if (k : Int) = 0 then (layout.numLeds : Int)-1 else k-1) =
      ((k+layout.numLeds-1) % layout.numLeds : Nat) := by
    obtain hzero | hpos := Nat.eq_zero_or_pos k
    · rw [if_pos (by omega), Nat.mod_eq_of_lt (by omega)]
      omega
    · rw [if_neg (by omega), Nat.mod_eq_sub_mod (by omega), Nat.mod_eq_of_lt (by omega)]
      omega
  have hsign : 0 ≤ angleLength ↔ 0 ≤ angleLength.toInt := Int32.le_iff_toInt_le
  simp only [arcNext, hup, hdown, hsign, arcLed]
  cases board with
  | pearl => exact (apply_ite _ _ _ _).symm
  | diamond =>
    have hnegative : Ascends .diamond angleLength ↔ ¬0 ≤ angleLength.toInt := Int.not_le.symm
    simp only [hnegative, ite_not]
    exact (apply_ite _ _ _ _).symm

theorem arcLed_succ {numLeds start i : Nat} {ascends : Prop} [Decidable ascends] (hlt : start < numLeds)
    (hi : i < numLeds) :
    arcLed numLeds (arcLed numLeds start ascends i) ascends 1 = arcLed numLeds start ascends (i+1) := by
  simp only [arcLed]
  by_cases hup : ascends
  · simp only [if_pos hup]
    exact Nat.mod_add_mod (start+i) numLeds 1
  · simp only [if_neg hup]
    obtain hfits | hwraps := Nat.lt_or_ge (start+numLeds-i) numLeds
    · rw [Nat.mod_eq_of_lt hfits, show start+numLeds-i+numLeds-1 = start+numLeds-(i+1)+numLeds from by omega,
        Nat.add_mod_right]
    · rw [Nat.mod_eq_sub_mod hwraps, Nat.mod_eq_of_lt (by omega : start+numLeds-i-numLeds < numLeds)]
      exact congrArg (· % numLeds) (by omega)

theorem written_arcWrite (ring : List LedRgb) (i k : Nat) :
    written ring (arcWrite color bgColor count i k) = drawLed color bgColor count i k ring := by
  cases bgColor with
  | none | some bgColor =>
    simp only [arcWrite, drawLed]
    split_ifs <;> rfl

/-- On the boards' rings it is the loop of `setRing`. -/
theorem written_arcWrites_ofBoard (turns i k : Nat) (hk : k < numRingLeds board) (ring : List LedRgb) :
    written ring (arcWrites (.ofBoard board) board color bgColor angleLength count turns i k) =
      drawRing board color bgColor angleLength count turns i k ring := by
  induction turns generalizing i k ring with
  | zero => rfl
  | succ turns ih =>
    have hnext : arcNext (.ofBoard board) board angleLength k = nextLed board angleLength k := by
      simp only [arcNext, nextLed, RingLayout.ofBoard]
      cases board <;> grind
    rw [arcWrites, written_append, written_arcWrite, hnext, ih _ _ (nextLed_lt hk), drawRing]

theorem setRing_eq_written (s : FrontLeds) :
    (setRing board color bgColor startAngle angleLength s).ring =
      written s.ring (setRingWrites (.ofBoard board) board color bgColor startAngle angleLength s.ledsUpdateSem) := by
  simp only [setRing, setRingWrites]
  split_ifs with h
  · have hstart : startAngle.toNat < fullRingDegrees := by
      have haccepts := h.1
      simp only [RingAccepts] at haccepts
      omega
    have hfirst : arcStart (.ofBoard board) startAngle = firstLed board startAngle := by
      have heq : arcStart (.ofBoard board) startAngle = ledAt (.ofBoard board) startAngle.toNat := arcStart_eq hstart
      exact (Int.toNat_of_nonneg (heq ▸ Int.natCast_nonneg _)).symm
    rw [hfirst, written_arcWrites_ofBoard _ _ _ (firstLed_lt hstart)]
    rfl
  · rfl

/-- After the loop, from turn `i` on, the LEDs from distance `i` on are drawn. -/
theorem arcWrites_getElem? {start : Nat} (hlt : start < layout.numLeds) (turns i : Nat) (ring : List LedRgb)
    (hturns : i+turns = layout.numLeds) {k : Nat} (hk : k < layout.numLeds) :
    let distance := arcDistance layout.numLeds start (Ascends board angleLength) k
    (written ring (arcWrites layout board color bgColor angleLength count turns i
        (arcLed layout.numLeds start (Ascends board angleLength) i)))[k]? =
      if i ≤ distance then ring[k]?.map (ledAfter color bgColor count distance) else ring[k]? := by
  intro distance
  have hdistance : distance < layout.numLeds := arcDistance_lt hlt hk
  induction turns generalizing i ring with
  | zero =>
    rw [if_neg (by omega)]
    rfl
  | succ turns ih =>
    have hled : arcLed layout.numLeds start (Ascends board angleLength) i < layout.numLeds := arcLed_lt hlt i
    rw [arcWrites, written_append, written_arcWrite, arcNext_eq hled, arcLed_succ hlt (by omega), ih _ _ (by omega)]
    obtain heq | hne := eq_or_ne i distance
    · have hself : arcLed layout.numLeds start (Ascends board angleLength) i = k := by
        rw [heq]
        exact arcLed_arcDistance hlt hk
      rw [if_neg (by omega), if_pos (by omega), hself, drawLed_self, heq]
    · have hother : arcLed layout.numLeds start (Ascends board angleLength) i ≠ k := by
        rintro rfl
        exact hne (arcDistance_arcLed hlt (by omega)).symm
      rw [drawLed_ne _ hother]
      split_ifs <;> first | rfl | omega

theorem arcWrites_index {start : Nat} (hlt : start < layout.numLeds) (turns i : Nat)
    (hturns : i+turns = layout.numLeds) :
    ∀ write ∈ arcWrites layout board color bgColor angleLength count turns i
      (arcLed layout.numLeds start (Ascends board angleLength) i), 0 ≤ write.1 ∧ write.1 < layout.numLeds := by
  induction turns generalizing i with
  | zero => exact List.forall_mem_nil _
  | succ turns ih =>
    have hled : arcLed layout.numLeds start (Ascends board angleLength) i < layout.numLeds := arcLed_lt hlt i
    rw [arcWrites, arcNext_eq hled, arcLed_succ hlt (by omega), List.forall_mem_append]
    refine ⟨fun write hwrite => ?_, ih _ (by omega)⟩
    have hindex : write.1 = arcLed layout.numLeds start (Ascends board angleLength) i := by
      cases bgColor with
      | none | some bgColor =>
        simp only [arcWrite] at hwrite
        split_ifs at hwrite <;> simp_all
    rw [hindex]
    exact ⟨Int.natCast_nonneg _, Int.ofNat_lt.mpr hled⟩

theorem RingAccepts.start_lt (h : RingAccepts startAngle angleLength) : startAngle.toNat < fullRingDegrees := by
  simp only [RingAccepts] at h
  omega

/-- An arc is not longer than the ring. -/
theorem RingAccepts.count_le (h : RingAccepts startAngle angleLength) (numLeds : Nat) :
    numLeds*angleLength.toInt.natAbs/fullRingDegrees ≤ numLeds := by
  have hlength : angleLength.toInt.natAbs ≤ fullRingDegrees := by
    simp only [RingAccepts] at h
    omega
  exact Nat.div_le_of_le_mul (by rw [Nat.mul_comm]; exact Nat.mul_le_mul_right numLeds hlength)

theorem mem_arcLeds (h : RingAccepts startAngle angleLength) {k : Nat} (hk : k < layout.numLeds) :
    k ∈ arcLeds layout board startAngle angleLength ↔
      arcDistance layout.numLeds (ledAt layout startAngle.toNat) (Ascends board angleLength) k <
        layout.numLeds*angleLength.toInt.natAbs/fullRingDegrees := by
  have hlt : ledAt layout startAngle.toNat < layout.numLeds := ledAt_lt _
  have hcount := h.count_le layout.numLeds
  simp only [arcLeds, List.mem_map, List.mem_range]
  constructor
  · rintro ⟨i, hi, rfl⟩
    rwa [arcDistance_arcLed hlt (by omega)]
  · intro hdistance
    exact ⟨_, hdistance, arcLed_arcDistance hlt hk⟩

theorem arcLeds_nodup (h : RingAccepts startAngle angleLength) :
    (arcLeds layout board startAngle angleLength).Nodup := by
  have hlt : ledAt layout startAngle.toNat < layout.numLeds := ledAt_lt _
  have hcount := h.count_le layout.numLeds
  refine List.Nodup.map_on (fun i hi j hj heq => ?_) List.nodup_range
  rw [List.mem_range] at hi hj
  have hdistance := congrArg (arcDistance layout.numLeds (ledAt layout startAngle.toNat) (Ascends board angleLength)) heq
  rwa [arcDistance_arcLed hlt (by omega), arcDistance_arcLed hlt (by omega)] at hdistance

theorem written_length (ring : List LedRgb) (writes : List (Int × LedRgb)) :
    (written ring writes).length = ring.length := by
  induction writes generalizing ring with
  | nil => rfl
  | cons write writes ih => exact (ih _).trans List.length_set

/-- `set_ring` stays in the ring and draws the arc, the LEDs of which are consecutive, and the background beside it. -/
theorem set_ring_draws_arc (layout : RingLayout) (board : Board) (color : LedRgb) (bgColor : Option LedRgb)
    (startAngle : UInt32) (angleLength : Int32) (ring : List LedRgb) (hring : ring.length = layout.numLeds)
    (h : RingAccepts startAngle angleLength) :
    let writes := setRingWrites layout board color bgColor startAngle angleLength true
    let arc := arcLeds layout board startAngle angleLength
    (∀ write ∈ writes, 0 ≤ write.1 ∧ write.1 < layout.numLeds) ∧
      (arc.length = layout.numLeds*angleLength.toInt.natAbs/fullRingDegrees ∧ arc.Nodup ∧
        ∀ k ∈ arc, k < layout.numLeds) ∧
      (written ring writes).length = ring.length ∧
      ∀ (k : Nat) (hk : k < ring.length),
        (written ring writes)[k]? = some (if k ∈ arc then color else bgColor.getD ring[k]) := by
  intro writes arc
  have hlt : ledAt layout startAngle.toNat < layout.numLeds := ledAt_lt _
  have hfirst : arcStart layout startAngle =
      arcLed layout.numLeds (ledAt layout startAngle.toNat) (Ascends board angleLength) 0 := by
    rw [arcStart_eq h.start_lt]
    simp only [arcLed, Nat.add_zero, Nat.sub_zero, Nat.add_mod_right, Nat.mod_eq_of_lt hlt, ite_self]
  have hwrites : writes = arcWrites layout board color bgColor angleLength
      (layout.numLeds*angleLength.toInt.natAbs/fullRingDegrees) layout.numLeds 0
      (arcLed layout.numLeds (ledAt layout startAngle.toNat) (Ascends board angleLength) 0) := by
    rw [← hfirst]
    exact if_pos ⟨h, rfl⟩
  refine ⟨?_, ⟨?_, arcLeds_nodup h, ?_⟩, written_length ring writes, fun k hk => ?_⟩
  · rw [hwrites]
    exact arcWrites_index hlt _ 0 (Nat.zero_add _)
  · exact (List.length_map _).trans List.length_range
  · intro k hmem
    obtain ⟨i, -, rfl⟩ := List.mem_map.mp hmem
    exact arcLed_lt hlt i
  · have hlayout : k < layout.numLeds := hring ▸ hk
    rw [hwrites, arcWrites_getElem? hlt _ 0 ring (Nat.zero_add _) hlayout, if_pos (Nat.zero_le _),
      List.getElem?_eq_getElem hk, Option.map_some]
    simp only [ledAfter, arc, mem_arcLeds h hlayout]

/-- Three quarters of a ring of eight LEDs from the top on, over its end. -/
theorem set_ring_draws_arc_wraps :
    (written (List.replicate 8 rgbOff)
        (setRingWrites ⟨8, 6, by decide⟩ .pearl ⟨0, 9, 9, 9⟩ none 90 270 true))[1]? = some ⟨0, 9, 9, 9⟩ := by
  obtain ⟨-, -, -, hled⟩ := set_ring_draws_arc ⟨8, 6, by decide⟩ .pearl ⟨0, 9, 9, 9⟩ none 90 270
    (List.replicate 8 rgbOff) rfl (by decide)
  exact (hled 1 (by decide)).trans (congrArg some (if_pos (by decide)))

end OrbFirmware.RgbLeds

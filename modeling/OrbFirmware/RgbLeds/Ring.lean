import OrbFirmware.RgbLeds.LastCommand
import OrbFirmware.Runner.Calls
import Mathlib.Data.Nat.ModEq

/-! `set_ring` of `front_leds.c`, which draws an arc of the ring, and the arcs that the runner acknowledges. -/
namespace OrbFirmware.RgbLeds
open Runner

def numRingLeds : Board → Nat
  | .pearl => 233-9
  | .diamond => 118-64

/-- `INDEX_RING_ZERO`, the LED at 0 degrees. -/
def indexRingZero : Board → Nat
  | .pearl => numRingLeds .pearl*3/4
  | .diamond => 41

/-- The arcs that `set_ring` draws; the others it only logs. -/
def RingAccepts (startAngle : UInt32) (angleLength : Int32) : Prop :=
  ¬(fullRingDegrees ≤ startAngle.toNat ∨ (fullRingDegrees : Int) < angleLength.toInt ∨
    angleLength.toInt < -(fullRingDegrees : Int))

instance (startAngle : UInt32) (angleLength : Int32) : Decidable (RingAccepts startAngle angleLength) :=
  inferInstanceAs (Decidable (¬_))

/-- The first `led_index`. -/
def firstLed (board : Board) (startAngle : UInt32) : Nat :=
  let ledIndex : Int := indexRingZero board-(numRingLeds board*startAngle.toNat/fullRingDegrees : Nat)
  (if ledIndex < 0 then ledIndex+numRingLeds board else ledIndex).toNat

/-- The sign of the length is the direction, which is the other one on Diamond. -/
def nextLed (board : Board) (angleLength : Int32) (ledIndex : Nat) : Nat :=
  let up := (ledIndex+1) % numRingLeds board
  let down := if ledIndex = 0 then numRingLeds board-1 else ledIndex-1
  match board with
  | .pearl => if 0 ≤ angleLength then up else down
  | .diamond => if 0 ≤ angleLength then down else up

/-- What the loop does in turn `i`, the arc being `count` LEDs long. -/
def drawLed (color : LedRgb) (bgColor : Option LedRgb) (count i ledIndex : Nat) (ring : List LedRgb) : List LedRgb :=
  if i < count then ring.set ledIndex color
  else
    match bgColor with
    | some bgColor => ring.set ledIndex bgColor
    | none => ring

/-- The loop over the LEDs of the ring, with `turns` of it left. -/
def drawRing (board : Board) (color : LedRgb) (bgColor : Option LedRgb) (angleLength : Int32) (count : Nat) :
    Nat → Nat → Nat → List LedRgb → List LedRgb
  | 0, _, _, ring => ring
  | turns+1, i, ledIndex, ring =>
    drawRing board color bgColor angleLength count turns (i+1) (nextLed board angleLength ledIndex)
      (drawLed color bgColor count i ledIndex ring)

def setRing (board : Board) (color : LedRgb) (bgColor : Option LedRgb) (startAngle : UInt32) (angleLength : Int32)
    (s : FrontLeds) : FrontLeds :=
  if RingAccepts startAngle angleLength ∧ s.ledsUpdateSem then
    { s with
      ring := drawRing board color bgColor angleLength
        (numRingLeds board*angleLength.toInt.natAbs/fullRingDegrees) (numRingLeds board) 0 (firstLed board startAngle)
        s.ring }
  else s

/-! What an accepted arc shows. -/

variable {board : Board} {color : LedRgb} {bgColor : Option LedRgb} {angleLength : Int32} {count : Nat}

theorem numRingLeds_pos : 0 < numRingLeds board := by
  cases board <;> decide

theorem firstLed_lt {startAngle : UInt32} (h : startAngle.toNat < fullRingDegrees) :
    firstLed board startAngle < numRingLeds board := by
  have hlt : numRingLeds board*startAngle.toNat/fullRingDegrees < numRingLeds board := by
    rw [Nat.div_lt_iff_lt_mul (by decide)]
    exact Nat.mul_lt_mul_of_pos_left h numRingLeds_pos
  have hzero : indexRingZero board < numRingLeds board := by
    cases board <;> decide
  simp only [firstLed]
  generalize numRingLeds board*startAngle.toNat/fullRingDegrees = off at hlt
  split_ifs <;> omega

/-- One LED on, or one back. -/
theorem nextLed_cases (board : Board) (angleLength : Int32) :
    (∀ ledIndex < numRingLeds board, nextLed board angleLength ledIndex = (ledIndex+1) % numRingLeds board) ∨
      ∀ ledIndex < numRingLeds board,
        nextLed board angleLength ledIndex = (ledIndex+(numRingLeds board-1)) % numRingLeds board := by
  have hdown : ∀ ledIndex < numRingLeds board,
      (if ledIndex = 0 then numRingLeds board-1 else ledIndex-1) =
        (ledIndex+(numRingLeds board-1)) % numRingLeds board := by
    intro ledIndex hlt
    split_ifs with hzero
    · rw [hzero, Nat.zero_add, Nat.mod_eq_of_lt (by omega)]
    · rw [show ledIndex+(numRingLeds board-1) = ledIndex-1+numRingLeds board from by omega, Nat.add_mod_right,
        Nat.mod_eq_of_lt (by omega)]
  by_cases hsign : 0 ≤ angleLength
  · cases board with
    | pearl => exact .inl fun _ _ => if_pos hsign
    | diamond => exact .inr fun i hi => (if_pos hsign).trans (hdown i hi)
  · cases board with
    | pearl => exact .inr fun i hi => (if_neg hsign).trans (hdown i hi)
    | diamond => exact .inl fun _ _ => if_neg hsign

/-- The LED of turn `i`. -/
def turnLed (board : Board) (angleLength : Int32) (ledIndex i : Nat) : Nat :=
  (nextLed board angleLength)^[i] ledIndex

theorem nextLed_lt {ledIndex : Nat} (h : ledIndex < numRingLeds board) :
    nextLed board angleLength ledIndex < numRingLeds board := by
  obtain hnext | hnext := nextLed_cases board angleLength
  all_goals
    rw [hnext ledIndex h]
    exact Nat.mod_lt _ numRingLeds_pos

theorem turnLed_eq (step ledIndex : Nat) (hlt : ledIndex < numRingLeds board)
    (h : ∀ i < numRingLeds board, nextLed board angleLength i = (i+step) % numRingLeds board) (i : Nat) :
    turnLed board angleLength ledIndex i = (ledIndex+i*step) % numRingLeds board := by
  induction i with
  | zero => rw [Nat.zero_mul, Nat.add_zero, Nat.mod_eq_of_lt hlt]; rfl
  | succ i ih =>
    rw [turnLed, Function.iterate_succ_apply', ← turnLed, ih, h _ (Nat.mod_lt _ numRingLeds_pos), Nat.mod_add_mod,
      Nat.succ_mul, Nat.add_assoc]

/-- The turns of the loop draw different LEDs. -/
theorem turnLed_injOn {ledIndex i j : Nat} (hlt : ledIndex < numRingLeds board) (hi : i < numRingLeds board)
    (hj : j < numRingLeds board)
    (h : turnLed board angleLength ledIndex i = turnLed board angleLength ledIndex j) : i = j := by
  obtain hnext | hnext := nextLed_cases board angleLength
  · rw [turnLed_eq 1 ledIndex hlt hnext, turnLed_eq 1 ledIndex hlt hnext, Nat.mul_one, Nat.mul_one] at h
    have hmod : Nat.ModEq (numRingLeds board) i j := Nat.ModEq.add_left_cancel' ledIndex h
    exact hmod.eq_of_lt_of_lt hi hj
  · rw [turnLed_eq _ ledIndex hlt hnext, turnLed_eq _ ledIndex hlt hnext] at h
    have hmod := Nat.ModEq.add_left_cancel' ledIndex h
    have hcoprime : Nat.gcd (numRingLeds board) (numRingLeds board-1) = 1 := by
      cases board <;> decide
    exact (Nat.ModEq.cancel_right_of_coprime hcoprime hmod).eq_of_lt_of_lt hi hj

/-- A LED after turn `i`. -/
def ledAfter (color : LedRgb) (bgColor : Option LedRgb) (count i : Nat) (led : LedRgb) : LedRgb :=
  if i < count then color else bgColor.getD led

theorem drawLed_self (i ledIndex : Nat) (ring : List LedRgb) :
    (drawLed color bgColor count i ledIndex ring)[ledIndex]? =
      ring[ledIndex]?.map (ledAfter color bgColor count i) := by
  have hset (led : LedRgb) : (ring.set ledIndex led)[ledIndex]? = ring[ledIndex]?.map fun _ => led :=
    List.getElem?_set_self'
  by_cases hi : i < count
  · have hafter : ledAfter color bgColor count i = fun _ => color := funext fun _ => if_pos hi
    rw [drawLed.eq_def, if_pos hi, hset, hafter]
  · have hafter : ledAfter color bgColor count i = bgColor.getD := funext fun _ => if_neg hi
    rw [drawLed.eq_def, if_neg hi, hafter]
    cases bgColor with
    | none => exact Option.map_id'.symm
    | some bg => exact hset bg

theorem drawLed_ne {i ledIndex k : Nat} (ring : List LedRgb) (h : ledIndex ≠ k) :
    (drawLed color bgColor count i ledIndex ring)[k]? = ring[k]? := by
  cases bgColor with
  | none | some bg =>
    simp only [drawLed]
    split_ifs
    all_goals first | rfl | exact List.getElem?_set_ne h

theorem drawRing_getElem? {ledIndex : Nat} (hlt : ledIndex < numRingLeds board) (turns i : Nat) (ring : List LedRgb)
    (hturns : i+turns = numRingLeds board) {j : Nat} (hj : j < numRingLeds board) :
    (drawRing board color bgColor angleLength count turns i (turnLed board angleLength ledIndex i) ring)[turnLed board
        angleLength ledIndex j]? =
      if i ≤ j then ring[turnLed board angleLength ledIndex j]?.map (ledAfter color bgColor count j)
      else ring[turnLed board angleLength ledIndex j]? := by
  induction turns generalizing i ring with
  | zero =>
    rw [if_neg (by omega)]
    rfl
  | succ turns ih =>
    have hnext : nextLed board angleLength (turnLed board angleLength ledIndex i) =
        turnLed board angleLength ledIndex (i+1) :=
      (Function.iterate_succ_apply' _ _ _).symm
    rw [drawRing, hnext, ih _ _ (by omega)]
    obtain heq | hne := eq_or_ne i j
    · subst heq
      rw [if_neg (by omega), if_pos (Nat.le_refl i), drawLed_self]
    · have hled : turnLed board angleLength ledIndex i ≠ turnLed board angleLength ledIndex j :=
        fun h => hne (turnLed_injOn hlt (by omega) hj h)
      rw [drawLed_ne _ hled]
      split_ifs <;> first | rfl | omega

/-- An accepted arc takes the LEDs from the first one on, and the background the rest of the ring. -/
theorem setRing_led {startAngle : UInt32} {s : FrontLeds} (h : RingAccepts startAngle angleLength)
    (hsem : s.ledsUpdateSem = true) {i : Nat} (hi : i < numRingLeds board) :
    (setRing board color bgColor startAngle angleLength s).ring[turnLed board angleLength (firstLed board startAngle)
        i]? =
      s.ring[turnLed board angleLength (firstLed board startAngle) i]?.map
        (ledAfter color bgColor (numRingLeds board*angleLength.toInt.natAbs/fullRingDegrees) i) := by
  have hstart : startAngle.toNat < fullRingDegrees := by
    simp only [RingAccepts] at h
    omega
  rw [setRing, if_pos ⟨h, hsem⟩]
  exact (drawRing_getElem? (firstLed_lt hstart) _ 0 _ (Nat.zero_add _) hi).trans (if_pos (Nat.zero_le i))

/-! The user's pattern, from the command to the settings that the thread draws with. -/

/-- What the messages fix: the numbers of the patterns, and the colour's `dimming`, which the runner hands on. -/
structure LedMessages where
  pattern : UInt32 → FrontPattern
  dimming : UInt32

def LedMessages.command (messages : LedMessages) (msg : UserLedsPattern) : PatternCommand where
  pattern := messages.pattern msg.pattern
  startAngle := msg.startAngle
  angleLength := msg.angleLength
  color := msg.customColor.map fun color => ⟨color.red, color.green, color.blue, messages.dimming⟩
  pulsingPeriodMs := msg.pulsingPeriodMs
  pulsingScale := Float32.ofBits msg.pulsingScale

def frontLedsCalls (board : Board) (messages : LedMessages) : RetCall → Option (FrontLeds → Int × FrontLeds)
  | .frontLedsSetPattern pattern startAngle angleLength color pulsingPeriodMs pulsingScale => some fun s =>
    let (ret, s) := frontLedsSetPattern board
      (messages.command ⟨pattern, startAngle, angleLength, color, pulsingPeriodMs, pulsingScale⟩) s
    (ret.value, s)
  | _ => none

/-- If the command is acknowledged with success, the thread draws its arc, and `set_ring` accepts it. -/
def ShowsAcknowledgedArc (cfg : BuildConfig) (messages : LedMessages) (answer : (c : Call) → c.Answer)
    (msg : UserLedsPattern) (job : Context) (s : FrontLeds) : Prop :=
  let (trace, s) := runHandler answer (frontLedsCalls cfg.board messages) (handleJetsonCmd cfg (.userLedsPattern msg) job)
    s
  Acknowledged job .success trace →
    (s.settings.startAngleDegrees = msg.startAngle ∧ s.settings.angleLengthDegrees = msg.angleLength) ∧
      RingAccepts msg.startAngle msg.angleLength

/-- `front_leds_set_pattern` refuses no other commands than these. -/
def LedMessages.Refused (messages : LedMessages) (msg : UserLedsPattern) : Prop :=
  (messages.command msg).pattern = .pulsingRgb ∧
    pulsingRgbCheckRange (messages.command msg).color (messages.command msg).pulsingScale ≠ .success

/-- A start at a full turn, or a length whose absolute value is negative, next to a valid length or start. -/
def Misjudged (msg : UserLedsPattern) : Prop :=
  (msg.startAngle.toNat = fullRingDegrees ∧ msg.angleLength.toInt.natAbs ≤ fullRingDegrees) ∨
    (msg.startAngle.toNat ≤ fullRingDegrees ∧ msg.angleLength = Int32.minValue)

/-- `abs` leaves the least value as it is. -/
theorem toInt_abs (x : Int32) : x.abs.toInt = if x = Int32.minValue then -2^31 else (x.toInt.natAbs : Int) := by
  have habs := BitVec.toInt_abs_eq_natAbs (x := x.toBitVec)
  have hmin : x.toBitVec = BitVec.intMin 32 ↔ x = Int32.minValue := by
    rw [← Int32.toBitVec_inj]
    exact Iff.rfl
  simp only [hmin] at habs
  exact habs

/-- The runner takes all arcs that `set_ring` draws, and some others. -/
theorem runnerAccepts_iff (msg : UserLedsPattern) :
    ¬(fullRingDegrees < msg.startAngle.toNat ∨ (fullRingDegrees : Int) < msg.angleLength.abs.toInt) ↔
      RingAccepts msg.startAngle msg.angleLength ∨ Misjudged msg := by
  have hmin : msg.angleLength = Int32.minValue → msg.angleLength.toInt = -2^31 := fun h => h ▸ rfl
  rw [toInt_abs]
  simp only [RingAccepts, Misjudged, fullRingDegrees]
  split_ifs with h
  · have hlength := hmin h
    simp only [h, and_true]
    omega
  · simp only [h, and_false, or_false]
    omega

theorem misjudged_not_accepts {msg : UserLedsPattern} (h : Misjudged msg) :
    ¬RingAccepts msg.startAngle msg.angleLength := by
  have hmin : msg.angleLength = Int32.minValue → msg.angleLength.toInt = -2^31 := fun h => h ▸ rfl
  simp only [RingAccepts, fullRingDegrees]
  obtain ⟨hstart, -⟩ | ⟨-, hlength⟩ := h
  · simp only [fullRingDegrees] at hstart
    omega
  · have hlength := hmin hlength
    omega

variable {command : PatternCommand} {s : FrontLeds}

theorem identical_arc {settings : FrontSettings}
    (h : previousSettingsAreIdentical board (command.dimmed board) settings = true) :
    settings.startAngleDegrees = command.startAngle ∧ settings.angleLengthDegrees = command.angleLength := by
  cases hc : command.color with
  | none =>
    simp only [previousSettingsAreIdentical, PatternCommand.dimmed, hc, Option.map_none, Bool.and_eq_true,
      beq_iff_eq] at h
    exact ⟨h.1.2, h.2⟩
  | some c =>
    simp only [previousSettingsAreIdentical, PatternCommand.dimmed, hc, Option.map_some, Bool.and_eq_true,
      beq_iff_eq] at h
    obtain ⟨⟨⟨⟨⟨⟨-, hstart⟩, hlength⟩, -⟩, -⟩, -⟩, -⟩ := h
    exact ⟨hstart, hlength⟩

theorem frontLedsSetPattern_success :
    (frontLedsSetPattern board command s).1 = .success ↔
      ¬(command.pattern = .pulsingRgb ∧ pulsingRgbCheckRange command.color command.pulsingScale ≠ .success) := by
  simp only [frontLedsSetPattern]
  split_ifs with hrefused <;> simp [hrefused]

/-- Once it succeeds, the thread has the arc of the command. -/
theorem frontLedsSetPattern_arc (h : (frontLedsSetPattern board command s).1 = .success) :
    (frontLedsSetPattern board command s).2.settings.startAngleDegrees = command.startAngle ∧
      (frontLedsSetPattern board command s).2.settings.angleLengthDegrees = command.angleLength := by
  rw [frontLedsSetPattern, if_neg (frontLedsSetPattern_success.mp h)]
  by_cases hsame : previousSettingsAreIdentical board (command.dimmed board) s.settings = true
  · simp only [hsame, if_true]
    exact identical_arc hsame
  · simp only [hsame]
    exact ⟨rfl, rfl⟩

/-- The commands that are acknowledged with success, and the arc that the thread then gets. -/
theorem userLedsPattern_acknowledged (cfg : BuildConfig) (messages : LedMessages) (answer : (c : Call) → c.Answer)
    (msg : UserLedsPattern) (job : Context) (s : FrontLeds) :
    let r := runHandler answer (frontLedsCalls cfg.board messages) (handleUserLedsPattern msg job) s
    (Acknowledged job .success r.1 ↔ job.remote = .canJetsonMessaging ∧ ¬messages.Refused msg ∧
      (RingAccepts msg.startAngle msg.angleLength ∨ Misjudged msg)) ∧
    (Acknowledged job .success r.1 →
      r.2.settings.startAngleDegrees = msg.startAngle ∧ r.2.settings.angleLengthDegrees = msg.angleLength) := by
  rw [← runnerAccepts_iff, handleUserLedsPattern]
  by_cases hrange : fullRingDegrees < msg.startAngle.toNat ∨ (fullRingDegrees : Int) < msg.angleLength.abs.toInt
  · rw [if_pos hrange]
    have hend := EndsWith.jobAck answer (frontLedsCalls cfg.board messages) job .range s
    simp [hend.acknowledged, hrange]
  · rw [if_neg hrange]
    have hend := EndsWith.ackResult answer (frontLedsCalls cfg.board messages) job (.frontLedsSetPattern msg.pattern
      msg.startAngle msg.angleLength msg.customColor msg.pulsingPeriodMs msg.pulsingScale) [(.success, .success)] .fail s
    have hiff := (hend.acknowledged .success).trans (and_congr_right fun _ => ackOf_success nofun nofun)
    refine ⟨hiff.trans (and_congr_right fun _ => ?_), fun h => ?_⟩
    · rw [and_iff_left hrange]
      exact frontLedsSetPattern_success
    · rw [hend.state]
      exact frontLedsSetPattern_arc (hiff.mp h).2

/-- The runner and `set_ring` agree on all commands but those with a start at a full turn, or the least length. -/
theorem user_leds_validated_iff (cfg : BuildConfig) (messages : LedMessages) (answer : (c : Call) → c.Answer)
    (msg : UserLedsPattern) (job : Context) (s : FrontLeds) :
    ShowsAcknowledgedArc cfg messages answer msg job s ↔
      (job.remote = .canJetsonMessaging → ¬messages.Refused msg → ¬Misjudged msg) := by
  obtain ⟨hiff, harc⟩ := userLedsPattern_acknowledged cfg messages answer msg job s
  constructor
  · intro h hcan hpattern hmisjudged
    exact misjudged_not_accepts hmisjudged (h (hiff.mpr ⟨hcan, hpattern, .inr hmisjudged⟩)).2
  · intro h hack
    obtain ⟨hcan, hpattern, haccepts⟩ := hiff.mp hack
    exact ⟨harc hack, haccepts.resolve_right (h hcan hpattern)⟩

/-- A start of 360 degrees is acknowledged with success, and `set_ring` refuses it. -/
theorem full_turn_start_ignored : ¬∀ (cfg : BuildConfig) (messages : LedMessages) (answer : (c : Call) → c.Answer)
    (msg : UserLedsPattern) (job : Context) (s : FrontLeds), ShowsAcknowledgedArc cfg messages answer msg job s := by
  intro h
  let cfg : BuildConfig := ⟨.diamond, false, false, false, false⟩
  let messages : LedMessages := ⟨fun _ => .rgb, 0⟩
  let msg : UserLedsPattern := ⟨0, 360, 90, none, 0, 0⟩
  let job : Context := ⟨.canJetsonMessaging, 0x80, 1⟩
  let s := frontLedsInit cfg.board 64 54
  have hrgb : ¬messages.Refused msg := fun hrefused => nomatch hrefused.1
  have hmisjudged : Misjudged msg := .inl ⟨rfl, by decide⟩
  have hack := (userLedsPattern_acknowledged cfg messages zeroAnswer msg job s).1.mpr ⟨rfl, hrgb, .inr hmisjudged⟩
  exact misjudged_not_accepts hmisjudged (h cfg messages zeroAnswer msg job s hack).2

end OrbFirmware.RgbLeds

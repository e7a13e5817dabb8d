import Mathlib.Data.List.Induction
import OrbFirmware.Machine
import OrbFirmware.RgbLeds.OperatorLeds

/-! `power_until_button_press` of `boot.c`, with the self test of the IR LEDs that it makes while nobody presses. -/
namespace OrbFirmware.Boot
open Machine RgbLeds

/-- What a round of the loop reads: the button; whether PVCC is low; and what the self test finds, whether the pin of the
safety circuitry can be configured, and which IR LED lines leave PVCC available. -/
structure ButtonPoll where
  pressed : Bool
  pvccLow : Bool
  configured : Bool
  pvccAvailable : Nat → Bool

/-- `ir_safety`, as the self test sets it. -/
inductive IrSafety where
  | notInitialized
  | unsafeLine (line : Nat)
  | success
  deriving DecidableEq

inductive BootEvent where
  | supplies (on : Bool)
  | pvccOff
  | irLed (line : Nat)
  | irSafety (state : IrSafety)
  | measOff
  | operatorLeds (color : RgbColor) (mask : UInt32)
  deriving DecidableEq

/-- The loop of the self test over the lines that are left; it ends with one that doesn't trip the safety circuitry. -/
def testLines (pvccAvailable : Nat → Bool) : List Nat → List BootEvent
  | [] => [.irSafety .success]
  | line :: lines =>
    [.supplies true, .pvccOff, .irLed line] ++
      if pvccAvailable line then [.irSafety (.unsafeLine line), .supplies false]
      else .supplies false :: testLines pvccAvailable lines

/-- `optics_self_test`: whether it returns 0, and what it does. Diamond has made its test before. -/
def opticsSelfTest (board : Board) (poll : ButtonPoll) : Bool × List BootEvent :=
  match board with
  | .diamond => (true, [])
  | .pearl =>
    if poll.configured then (true, testLines poll.pvccAvailable [0, 1, 2, 3])
    else (false, [.irSafety .notInitialized])

/-- `OPERATOR_LEDS_ITERATIONS_COUNT` for that many LEDs. -/
def iterationsCount (operatorLedsCount : Nat) : Nat := if 1 < operatorLedsCount then operatorLedsCount else 12

structure ButtonWait where
  i : Nat
  selfTestPending : Bool
  operatorLedMask : UInt32

def ButtonWait.start : ButtonWait := ⟨0, true, 0⟩

/-- The colour of the LEDs: a single one fades in. -/
def pressColor (operatorLedsCount : Nat) (white : RgbColor) (i : Nat) : RgbColor :=
  if 1 < operatorLedsCount then white
  else
    { white with
      red := white.red * UInt32.ofNat i / UInt32.ofNat (iterationsCount operatorLedsCount)
      green := white.green * UInt32.ofNat i / UInt32.ofNat (iterationsCount operatorLedsCount)
      blue := white.blue * UInt32.ofNat i / UInt32.ofNat (iterationsCount operatorLedsCount) }

/-- The self test of a round, if there is one. -/
def pollSelfTest (board : Board) (s : ButtonWait) (poll : ButtonPoll) : Bool × List BootEvent :=
  if s.selfTestPending && s.operatorLedMask == 0 && poll.pvccLow then
    let (passed, events) := opticsSelfTest board poll
    (passed, events ++ if passed then [.measOff] else [])
  else (false, [])

/-- A round of the loop, while there is one. -/
def buttonRound (board : Board) (operatorLedsCount : Nat) (white : RgbColor) (s : ButtonWait) (poll : ButtonPoll) :
    List BootEvent × ButtonWait :=
  if iterationsCount operatorLedsCount < s.i then ([], s)
  else
    let (passed, events) := pollSelfTest board s poll
    let selfTestPending := s.selfTestPending && !passed
    if poll.pressed then
      let mask := if 1 < operatorLedsCount then s.operatorLedMask <<< 1 ||| 1 else 1
      (events ++ (if s.i = 1 then [.supplies true] else []) ++
        [.operatorLeds (pressColor operatorLedsCount white s.i) mask], ⟨s.i+1, selfTestPending, mask⟩)
    else
      (events ++ (if 1 < s.i then [.operatorLeds white 0, .supplies false] else []) ++
        [.operatorLeds (pressColor operatorLedsCount white 0) 0], ⟨1, selfTestPending, 0⟩)

/-! What the loop is for, in terms of the polls alone. -/

/-- For how many polls, up to the last, the button has been held. -/
def heldPolls (polls : List ButtonPoll) : Nat := (polls.reverse.takeWhile ButtonPoll.pressed).length

/-- The button is held for a round per LED, and not from the very first poll. -/
def HeldLong (operatorLedsCount : Nat) (polls : List ButtonPoll) : Prop :=
  iterationsCount operatorLedsCount ≤ heldPolls polls ∧ iterationsCount operatorLedsCount < polls.length

def suppliesAfter (on : Bool) (events : List BootEvent) : Bool :=
  events.foldl (fun on event => match event with | .supplies on => on | _ => on) on

/-- How many of the LEDs are lit then; a single one is lit all the while. -/
def litLeds (operatorLedsCount : Nat) (polls : List ButtonPoll) : Nat :=
  if 1 < operatorLedsCount then heldPolls polls else min 1 (heldPolls polls)

variable {board : Board} {operatorLedsCount : Nat} {white : RgbColor} {polls : List ButtonPoll} {poll : ButtonPoll}
  {s : ButtonWait} {tr : List BootEvent} {on : Bool}

theorem heldPolls_append (polls : List ButtonPoll) (poll : ButtonPoll) :
    heldPolls (polls ++ [poll]) = if poll.pressed then heldPolls polls + 1 else 0 := by
  rw [heldPolls, List.reverse_append, List.reverse_singleton, List.singleton_append, List.takeWhile_cons]
  split
  · rfl
  · rfl

theorem heldPolls_le : heldPolls polls ≤ polls.length := by
  have hle := (List.takeWhile_prefix ButtonPoll.pressed (l := polls.reverse)).length_le
  rwa [List.length_reverse] at hle

theorem iterationsCount_pos (operatorLedsCount : Nat) : 0 < iterationsCount operatorLedsCount := by
  rw [iterationsCount]
  split <;> omega

theorem suppliesAfter_append (events events' : List BootEvent) :
    suppliesAfter on (events ++ events') = suppliesAfter (suppliesAfter on events) events' := List.foldl_append

/-! The self test. -/

theorem testLines_supplies (pvccAvailable : Nat → Bool) (lines : List Nat) :
    suppliesAfter false (testLines pvccAvailable lines) = false := by
  induction lines with
  | nil => rfl
  | cons line lines ih =>
    rw [testLines, suppliesAfter_append]
    split
    · rfl
    · exact ih

theorem opticsSelfTest_supplies : suppliesAfter false (opticsSelfTest board poll).2 = false := by
  cases board with
  | diamond => rfl
  | pearl =>
    simp only [opticsSelfTest]
    split
    · exact testLines_supplies _ _
    · rfl

/-- The self test starts with the supplies off, and leaves them off. -/
theorem pollSelfTest_supplies (h : s.operatorLedMask = 0 → on = false) :
    suppliesAfter on (pollSelfTest board s poll).2 = on := by
  rw [pollSelfTest]
  split
  case isTrue htest =>
    rw [Bool.and_eq_true, Bool.and_eq_true, beq_iff_eq] at htest
    rw [h htest.1.2]
    dsimp only
    rw [suppliesAfter_append, opticsSelfTest_supplies]
    split
    · rfl
    · rfl
  case isFalse => rfl

/-- The first IR LED is driven where the test runs through, and only there. -/
theorem irLed_mem_pollSelfTest : .irLed 0 ∈ (pollSelfTest board s poll).2 ↔
    board = .pearl ∧ (pollSelfTest board s poll).1 = true := by
  rw [pollSelfTest]
  split
  case isTrue =>
    cases board with
    | diamond => simp [opticsSelfTest]
    | pearl =>
      cases hconfigured : poll.configured with
      | true => simp [opticsSelfTest, hconfigured, testLines]
      | false => simp [opticsSelfTest, hconfigured]
  case isFalse => simp

theorem pollSelfTest_passed : (pollSelfTest board s poll).1 = true ↔
    (s.selfTestPending = true ∧ s.operatorLedMask = 0 ∧ poll.pvccLow = true) ∧
      (board = .diamond ∨ poll.configured = true) := by
  rw [pollSelfTest]
  split
  case isTrue htest =>
    rw [Bool.and_eq_true, Bool.and_eq_true, beq_iff_eq] at htest
    rw [and_iff_right ⟨htest.1.1, htest.1.2, htest.2⟩]
    cases board with
    | diamond => simp [opticsSelfTest]
    | pearl =>
      cases hconfigured : poll.configured with
      | true => simp [opticsSelfTest, hconfigured]
      | false => simp [opticsSelfTest, hconfigured]
  case isFalse htest =>
    refine iff_of_false Bool.false_ne_true fun h => htest ?_
    rw [Bool.and_eq_true, Bool.and_eq_true, beq_iff_eq]
    exact ⟨⟨h.1.1, h.1.2.1⟩, h.1.2.2⟩

/-! A round. -/

theorem irLed_mem_round (hgoes : ¬iterationsCount operatorLedsCount < s.i) :
    .irLed 0 ∈ (buttonRound board operatorLedsCount white s poll).1 ↔ .irLed 0 ∈ (pollSelfTest board s poll).2 := by
  rw [buttonRound, if_neg hgoes]
  dsimp only
  cases poll.pressed with
  | true => split <;> simp
  | false => split <;> simp

theorem testBit_one (b : Nat) : (1 : UInt32).toNat.testBit b = decide (b < 1) := Nat.testBit_two_pow_sub_one 1 b

theorem testBit_push (mask : UInt32) {b : Nat} (hb : b < 32) :
    (mask <<< 1 ||| 1).toNat.testBit b = (decide (1 ≤ b) && mask.toNat.testBit (b-1) || decide (b < 1)) := by
  have hshift : (1 : UInt32).toNat % 32 = 1 := rfl
  rw [UInt32.toNat_or, Nat.testBit_or, testBit_one, UInt32.toNat_shiftLeft, hshift, Nat.testBit_mod_two_pow,
    decide_eq_true hb, Bool.true_and, Nat.testBit_shiftLeft]

/-- The state after polls of which none was the last one to hold the button for long enough. -/
structure PressInv (board : Board) (operatorLedsCount : Nat) (polls : List ButtonPoll) (tr : List BootEvent)
    (s : ButtonWait) : Prop where
  counts : heldPolls polls = polls.length ∧ s.i = heldPolls polls ∨
    heldPolls polls < polls.length ∧ s.i = heldPolls polls + 1
  mask : ∀ b < 32, s.operatorLedMask.toNat.testBit b = decide (b < litLeds operatorLedsCount polls)
  unlit : heldPolls polls = 0 → s.operatorLedMask = 0
  pending : board = .pearl → (s.selfTestPending = true ↔ .irLed 0 ∉ tr)
  supplies : suppliesAfter false tr = decide (1 < polls.length ∧ 0 < heldPolls polls)

theorem PressInv.start : PressInv board operatorLedsCount [] [] .start where
  counts := .inl ⟨rfl, rfl⟩
  mask := by
    intro b _
    have hlit : litLeds operatorLedsCount [] = 0 := by
      rw [litLeds]
      split <;> rfl
    simp [ButtonWait.start, hlit]
  unlit := fun _ => rfl
  pending := fun _ => by simp [ButtonWait.start]
  supplies := rfl

theorem PressInv.long_iff (h : PressInv board operatorLedsCount polls tr s) :
    iterationsCount operatorLedsCount < s.i ↔ HeldLong operatorLedsCount polls := by
  have hcounts := h.counts
  rw [HeldLong]
  omega

theorem PressInv.mask_zero (h : PressInv board operatorLedsCount polls tr s) (hmask : s.operatorLedMask = 0) :
    heldPolls polls = 0 := by
  have hbit := h.mask 0 (by omega)
  rw [hmask, UInt32.toNat_zero, Nat.zero_testBit] at hbit
  have hnone := of_decide_eq_false hbit.symm
  rw [litLeds] at hnone
  split at hnone
  · omega
  · omega

theorem PressInv.selfTest_supplies (h : PressInv board operatorLedsCount polls tr s) (poll : ButtonPoll) :
    suppliesAfter false (tr ++ (pollSelfTest board s poll).2) = suppliesAfter false tr := by
  rw [suppliesAfter_append]
  refine pollSelfTest_supplies fun hmask => ?_
  rw [h.supplies, h.mask_zero hmask]
  simp

/-- The self test is pending as long as it has not run. -/
theorem PressInv.selfTest_pending (h : PressInv board operatorLedsCount polls tr s) {events : List BootEvent}
    (hevents : .irLed 0 ∉ events) (hboard : board = .pearl) :
    (s.selfTestPending && !(pollSelfTest board s poll).1) = true ↔
      .irLed 0 ∉ tr ++ (pollSelfTest board s poll).2 ++ events := by
  rw [List.mem_append, List.mem_append, irLed_mem_pollSelfTest, Bool.and_eq_true, h.pending hboard, Bool.not_eq_true']
  simp [hevents, hboard]

/-- A round that finds the button pressed. -/
theorem PressInv.pressed (h : PressInv board operatorLedsCount polls tr s) (hpressed : poll.pressed = true)
    (color : RgbColor) {mask : UInt32} (hmask : mask = if 1 < operatorLedsCount then s.operatorLedMask <<< 1 ||| 1 else 1) :
    PressInv board operatorLedsCount (polls ++ [poll])
      (tr ++ (pollSelfTest board s poll).2 ++ ((if s.i = 1 then [.supplies true] else []) ++ [.operatorLeds color mask]))
      ⟨s.i+1, s.selfTestPending && !(pollSelfTest board s poll).1, mask⟩ := by
  have hcounts := h.counts
  have hheld := heldPolls_append polls poll
  have hsupplies := h.selfTest_supplies poll
  rw [if_pos hpressed] at hheld
  refine ⟨?_, fun b hb => ?_, fun hunlit => ?_, h.selfTest_pending ?_, ?_⟩
  · rw [hheld, List.length_append, List.length_singleton]
    dsimp only
    omega
  · have hbefore := h.mask (b-1) (by omega)
    rw [litLeds] at hbefore ⊢
    rw [hheld, hmask]
    dsimp only
    split
    case isTrue hmany =>
      rw [if_pos hmany] at hbefore
      rw [testBit_push _ hb, hbefore]
      grind
    case isFalse =>
      rw [testBit_one]
      grind
  · rw [hheld] at hunlit
    exact absurd hunlit (Nat.succ_ne_zero _)
  · split <;> simp
  · rw [suppliesAfter_append, hsupplies, h.supplies, hheld, List.length_append, List.length_singleton]
    split
    case isTrue hone =>
      change true = _
      grind
    case isFalse hone =>
      change decide _ = _
      grind

/-- A round that finds the button released. -/
theorem PressInv.released (h : PressInv board operatorLedsCount polls tr s) (hreleased : poll.pressed = false)
    (color white : RgbColor) :
    PressInv board operatorLedsCount (polls ++ [poll])
      (tr ++ (pollSelfTest board s poll).2 ++
        ((if 1 < s.i then [.operatorLeds white 0, .supplies false] else []) ++ [.operatorLeds color 0]))
      ⟨1, s.selfTestPending && !(pollSelfTest board s poll).1, 0⟩ := by
  have hcounts := h.counts
  have hheld : heldPolls (polls ++ [poll]) = 0 := by
    rw [heldPolls_append, if_neg (by simp [hreleased])]
  have hlit : litLeds operatorLedsCount (polls ++ [poll]) = 0 := by
    rw [litLeds, hheld]
    split <;> rfl
  have hsupplies := h.selfTest_supplies poll
  refine ⟨?_, fun b _ => ?_, fun _ => rfl, h.selfTest_pending ?_, ?_⟩
  · rw [hheld, List.length_append, List.length_singleton]
    exact .inr ⟨by omega, rfl⟩
  · rw [hlit, UInt32.toNat_zero, Nat.zero_testBit, decide_eq_false (Nat.not_lt_zero b)]
  · split <;> simp
  · rw [suppliesAfter_append, hsupplies, h.supplies, hheld]
    split
    case isTrue hmany =>
      change false = _
      simp
    case isFalse hfew =>
      change decide _ = _
      grind

theorem PressInv.round (h : PressInv board operatorLedsCount polls tr s) (white : RgbColor) (poll : ButtonPoll)
    (hgoes : ¬iterationsCount operatorLedsCount < s.i) :
    PressInv board operatorLedsCount (polls ++ [poll]) (tr ++ (buttonRound board operatorLedsCount white s poll).1)
      (buttonRound board operatorLedsCount white s poll).2 := by
  rw [buttonRound, if_neg hgoes]
  dsimp only
  cases hpressed : poll.pressed with
  | true =>
    rw [if_pos rfl]
    dsimp only
    rw [List.append_assoc (pollSelfTest board s poll).2, ← List.append_assoc tr]
    exact h.pressed hpressed _ rfl
  | false =>
    rw [if_neg Bool.false_ne_true]
    dsimp only
    rw [List.append_assoc (pollSelfTest board s poll).2, ← List.append_assoc tr]
    exact h.released hpressed _ _

/-! Runs. -/

/-- Still polling, or back since some poll. -/
theorem press_run (board : Board) (operatorLedsCount : Nat) (white : RgbColor) (polls : List ButtonPoll) :
    let s := (run (buttonRound board operatorLedsCount white) .start polls).2
    let tr := events (buttonRound board operatorLedsCount white) .start polls
    ((∀ pre, pre <+: polls → ¬HeldLong operatorLedsCount pre) ∧ PressInv board operatorLedsCount polls tr s) ∨
      (∃ pre, pre <+: polls ∧ HeldLong operatorLedsCount pre) ∧ iterationsCount operatorLedsCount < s.i ∧
        suppliesAfter false tr = true := by
  induction polls using List.reverseRecOn with
  | nil =>
    refine .inl ⟨fun pre hpre => ?_, .start⟩
    rw [List.prefix_nil.mp hpre]
    exact fun hlong => Nat.not_lt_zero _ hlong.2
  | append_singleton polls poll ih =>
    have hevents : events (buttonRound board operatorLedsCount white)
        (run (buttonRound board operatorLedsCount white) .start polls).2 [poll] =
        (buttonRound board operatorLedsCount white
          (run (buttonRound board operatorLedsCount white) .start polls).2 poll).1 := List.append_nil _
    simp only [run_append, events_append, hevents, run] at ih ⊢
    rcases ih with ⟨hshort, hinv⟩ | ⟨⟨pre, hpre, hlong⟩, hdone, hsupplies⟩
    · have hgoes : ¬iterationsCount operatorLedsCount <
          (run (buttonRound board operatorLedsCount white) .start polls).2.i :=
        fun hlong => hshort polls (List.prefix_refl polls) (hinv.long_iff.mp hlong)
      have hnext := hinv.round white poll hgoes
      by_cases hlong : HeldLong operatorLedsCount (polls ++ [poll])
      · refine .inr ⟨⟨_, List.prefix_refl _, hlong⟩, hnext.long_iff.mpr hlong, ?_⟩
        have hmany := iterationsCount_pos operatorLedsCount
        have hheld := hlong.1
        have hlength := hlong.2
        rw [hnext.supplies, decide_eq_true]
        omega
      · refine .inl ⟨fun pre hpre => ?_, hnext⟩
        rcases List.prefix_concat_iff.mp hpre with rfl | hpre
        · exact hlong
        · exact hshort pre hpre
    · refine .inr ⟨⟨pre, hpre.trans (List.prefix_append _ _), hlong⟩, ?_⟩
      rw [buttonRound, if_pos hdone, List.append_nil]
      exact ⟨hdone, hsupplies⟩

/-- `power_until_button_press` returns with the first poll that ends a press of a round per LED, at least one poll into it,
and with the supplies on. Until then they are on as long as the button is held, from the second poll on; as many LEDs are
lit as it has been held for; and the first IR LED is driven, on Pearl, at the first poll after one that found the button
released (or none) at which PVCC is low and the safety circuitry's pin is configured, and never again. -/
theorem button_press_boots (board : Board) (operatorLedsCount : Nat) (white : RgbColor) (polls : List ButtonPoll)
    (poll : ButtonPoll) :
    let s := (run (buttonRound board operatorLedsCount white) .start polls).2
    let tr := events (buttonRound board operatorLedsCount white) .start polls
    let returned := ∃ pre, pre <+: polls ∧ HeldLong operatorLedsCount pre
    (iterationsCount operatorLedsCount < s.i ↔ returned) ∧
      (suppliesAfter false tr = true ↔ returned ∨ 1 < polls.length ∧ 0 < heldPolls polls) ∧
      (¬returned → ∀ b < 32, s.operatorLedMask.toNat.testBit b = decide (b < litLeds operatorLedsCount polls)) ∧
      (.irLed 0 ∈ (buttonRound board operatorLedsCount white s poll).1 ↔
        board = .pearl ∧ ¬returned ∧ heldPolls polls = 0 ∧ poll.pvccLow = true ∧ poll.configured = true ∧
          .irLed 0 ∉ tr) := by
  intro s tr returned
  rcases press_run board operatorLedsCount white polls with ⟨hshort, hinv⟩ | ⟨hreturned, hdone, hsupplies⟩
  · have hnot : ¬returned := fun ⟨pre, hpre, hlong⟩ => hshort pre hpre hlong
    have hgoes : ¬iterationsCount operatorLedsCount < s.i :=
      fun hlong => hshort polls (List.prefix_refl polls) (hinv.long_iff.mp hlong)
    refine ⟨iff_of_false hgoes hnot, ?_, fun _ => hinv.mask, ?_⟩
    · rw [hinv.supplies, decide_eq_true_iff, or_iff_right hnot]
    · rw [irLed_mem_round hgoes, irLed_mem_pollSelfTest, pollSelfTest_passed]
      have hmask : s.operatorLedMask = 0 ↔ heldPolls polls = 0 := ⟨hinv.mask_zero, hinv.unlit⟩
      rw [hmask, and_iff_right hnot]
      refine and_congr_right fun hboard => ?_
      subst hboard
      rw [hinv.pending rfl]
      simp only [reduceCtorEq, false_or]
      tauto
  · refine ⟨iff_of_true hdone hreturned, iff_of_true hsupplies (.inl hreturned), fun hnot => absurd hreturned hnot, ?_⟩
    rw [buttonRound, if_pos hdone]
    exact iff_of_false List.not_mem_nil fun hled => hled.2.1 hreturned

end OrbFirmware.Boot

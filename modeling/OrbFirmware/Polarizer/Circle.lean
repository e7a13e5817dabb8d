import OrbFirmware.Polarizer.Wheel
import Mathlib.Order.Nat

/-! The circle of the step counter: moving on, and how far it is from one position to another. -/
namespace OrbFirmware.Polarizer

def Direction.sign : Direction → Int
  | .backward => -1
  | .forward => 1

/-- A position of the circle, `n` microsteps on. -/
def Direction.advance (direction : Direction) (n : Nat) (position : Int) : Int :=
  (position+direction.sign*n)%microsteps360Degrees

/-- How far a position is ahead. -/
def Direction.distance (direction : Direction) (start dest : Int) : Nat :=
  (direction.sign*(dest-start)%microsteps360Degrees).toNat

def OnCircle (position : Int) : Prop := 0 ≤ position ∧ position < microsteps360Degrees

instance (position : Int) : Decidable (OnCircle position) := inferInstanceAs (Decidable (_ ∧ _))

variable {direction : Direction} {start dest position : Int} {n : Nat}

theorem advance_onCircle (direction : Direction) (n : Nat) (position : Int) :
    OnCircle (direction.advance n position) :=
  ⟨Int.emod_nonneg _ (by decide), Int.emod_lt_of_pos _ (by decide)⟩

theorem advance_advance (direction : Direction) (m n : Nat) (position : Int) :
    direction.advance n (direction.advance m position) = direction.advance (m+n) position := by
  rw [Direction.advance, Direction.advance, Int.emod_add_emod, Direction.advance, Int.natCast_add, Int.mul_add,
    Int.add_assoc]

theorem advance_zero (direction : Direction) (h : OnCircle position) : direction.advance 0 position = position := by
  rw [Direction.advance, Int.natCast_zero, Int.mul_zero, Int.add_zero]
  exact Int.emod_eq_of_lt h.1 h.2

theorem distance_lt (direction : Direction) (start dest : Int) :
    direction.distance start dest < microsteps360Degrees := by
  have h := Int.emod_lt_of_pos (direction.sign*(dest-start)) (by decide : (0 : Int) < microsteps360Degrees)
  simp only [microsteps360Degrees, stepsPerTurn, microstepsPerStep] at h
  simp only [Direction.distance, microsteps360Degrees, stepsPerTurn, microstepsPerStep]
  omega

theorem advance_eq_iff (hdest : OnCircle dest)
    (hn : n < microsteps360Degrees) : direction.advance n start = dest ↔ n = direction.distance start dest := by
  obtain ⟨hnonneg, hlt⟩ := hdest
  simp only [Direction.advance, Direction.distance, Direction.sign, microsteps360Degrees, stepsPerTurn,
    microstepsPerStep] at hlt hn ⊢
  cases direction <;> dsimp only <;> omega

theorem advance_ne (hdest : OnCircle dest)
    (hn : n < direction.distance start dest) : direction.advance n start ≠ dest := by
  intro heq
  have hdist := (advance_eq_iff hdest (Nat.lt_trans hn (distance_lt direction start dest))).mp heq
  omega

theorem distance_advance (hn : n ≤ direction.distance start dest) :
    direction.distance (direction.advance n start) dest = direction.distance start dest-n := by
  simp only [Direction.distance, Direction.advance, microsteps360Degrees, stepsPerTurn, microstepsPerStep] at hn ⊢
  cases direction <;> simp only [Direction.sign] at hn ⊢ <;> omega

/-- Further than the way to `dest`, too. -/
theorem distance_advance_emod (direction : Direction) (n : Nat) (start dest : Int) :
    (direction.distance (direction.advance n start) dest : Int)
      = (direction.distance start dest-n)%microsteps360Degrees := by
  simp only [Direction.distance, Direction.advance, microsteps360Degrees, stepsPerTurn, microstepsPerStep]
  cases direction <;> simp only [Direction.sign] <;> omega

theorem stepIsr_current {w : Wheel} (h : OnCircle w.current) :
    (stepIsr w).current = w.direction.advance 1 w.current := by
  obtain ⟨hnonneg, hlt⟩ := h
  simp only [stepIsr, Direction.advance, Direction.sign, microsteps360Degrees, stepsPerTurn, microstepsPerStep] at hlt ⊢
  cases w.direction with
  | backward =>
    dsimp only
    split_ifs <;> omega
  | forward =>
    dsimp only
    split_ifs <;> omega

theorem targetStepOf_onCircle (angleDecidegrees : UInt32) : OnCircle (targetStepOf angleDecidegrees) :=
  ⟨Int.emod_nonneg _ (by decide), Int.emod_lt_of_pos _ (by decide)⟩

end OrbFirmware.Polarizer

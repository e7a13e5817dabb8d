import Mathlib.Algebra.Order.Ring.Nat
import Mathlib.Data.Nat.Sqrt
import Mathlib.Tactic.Ring

/-! The iteration of an integer square root: the mean of a guess and of what is left when dividing by it. -/
namespace OrbFirmware.SquareRoot
variable {n guess : Nat}

def average (n guess : Nat) : Nat := (guess+n/guess)/2

/-- No mean falls below the root. -/
theorem sqrt_le_average (n : Nat) (hguess : 0 < guess) : n.sqrt ≤ average n guess := by
  have hroot := Nat.sqrt_le n
  have hlt : n < guess*(n/guess+1) := Nat.lt_mul_div_succ n hguess
  unfold average
  by_contra hbelow
  have htwice : guess+n/guess+1 ≤ 2*n.sqrt := by omega
  have hsquare : (guess+n/guess+1)*(guess+n/guess+1) ≤ 2*n.sqrt*(2*n.sqrt) := Nat.mul_le_mul htwice htwice
  have hmean := four_mul_le_sq_add guess (n/guess+1)
  rw [Nat.mul_assoc, Nat.pow_two, ← Nat.add_assoc] at hmean
  have hfour : 2*n.sqrt*(2*n.sqrt) = 4*(n.sqrt*n.sqrt) := by ring
  omega

theorem average_pos (hn : 0 < n) (hguess : 0 < guess) : 0 < average n guess :=
  Nat.lt_of_lt_of_le (Nat.sqrt_pos.mpr hn) (sqrt_le_average n hguess)

/-- A guess from which the mean does not descend is the root, unless it is below it. -/
theorem eq_sqrt_of_le_average (hroot : n.sqrt ≤ guess) (hguess : 0 < guess) (hstays : guess ≤ average n guess) :
    guess = n.sqrt := by
  have hquotient : guess ≤ n/guess := by
    unfold average at hstays
    omega
  have hsquare : guess*guess ≤ n := (Nat.le_div_iff_mul_le hguess).mp hquotient
  exact Nat.le_antisymm (Nat.le_sqrt.mpr hsquare) hroot

/-- The mean of a guess that is not above `n`, before it is halved. -/
theorem guess_add_div_le (hguess : 0 < guess) (hle : guess ≤ n) : guess+n/guess ≤ n+1 := by
  obtain ⟨m, rfl⟩ : ∃ m, guess = m+1 := Nat.exists_eq_succ_of_ne_zero (Nat.ne_of_gt hguess)
  have hdiv : (m+1)*(n/(m+1)) ≤ n := Nat.mul_div_le n (m+1)
  have hpos : 1 ≤ n/(m+1) := (Nat.one_le_div_iff (Nat.succ_pos m)).mpr hle
  have hmul : m ≤ m*(n/(m+1)) := Nat.le_mul_of_pos_right m hpos
  rw [Nat.succ_mul] at hdiv
  omega

end OrbFirmware.SquareRoot

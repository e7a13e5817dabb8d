import Mathlib.Tactic.Common

/-! A semaphore of one, and who has it: it is there and nobody has it, or one of those that take it does. -/
namespace OrbFirmware.Semaphore
variable {ι : Type*} {sem : Bool} {holds holds' : ι → Bool} {i j : ι}

structure Exclusive (sem : Bool) (holds : ι → Bool) : Prop where
  free : sem = true → ∀ i, holds i = false
  one : ∀ i j, holds i = true → holds j = true → i = j

theorem Exclusive.initial (sem : Bool) : Exclusive sem fun _ : ι => false where
  free := fun _ _ => rfl
  one := fun _ _ h => Bool.noConfusion h

theorem Exclusive.taken (h : Exclusive sem holds) (hi : holds i = true) : sem = false := by
  cases hsem : sem with
  | false => rfl
  | true => exact absurd hi (by simp [h.free hsem i])

theorem Exclusive.others (h : Exclusive sem holds) (hi : holds i = true) (hne : j ≠ i) : holds j = false := by
  cases hj : holds j with
  | false => rfl
  | true => exact absurd (h.one j i hj hi) hne

theorem Exclusive.take (h : Exclusive sem holds) (hsem : sem = true) (hothers : ∀ j, j ≠ i → holds' j = holds j) :
    Exclusive false holds' where
  free := fun hfree => Bool.noConfusion hfree
  one := by
    have hother (j : ι) (hj : holds' j = true) : j = i := by
      by_contra hne
      rw [hothers j hne, h.free hsem j] at hj
      contradiction
    intro j k hj hk
    rw [hother j hj, hother k hk]

theorem Exclusive.give (h : Exclusive sem holds) (hi : holds i = true) (hothers : ∀ j, j ≠ i → holds' j = holds j)
    (hgive : holds' i = false) : Exclusive true holds' := by
  have hnone (j : ι) : holds' j = false := by
    by_cases hne : j = i
    · rw [hne, hgive]
    · rw [hothers j hne, h.others hi hne]
  exact ⟨fun _ => hnone, fun j _ hj => absurd hj (by simp [hnone j])⟩

/-- Nobody takes or gives it. -/
theorem Exclusive.move (h : Exclusive sem holds) (hsame : ∀ j, holds' j = holds j) : Exclusive sem holds' := by
  rw [show holds' = holds from funext hsame]
  exact h

end OrbFirmware.Semaphore

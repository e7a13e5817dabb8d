import Mathlib.Tactic.Common

/-! A delayable work item: its timeout runs, it is queued, its handler runs. -/
namespace OrbFirmware

structure DelayableWork where
  left : Option Nat
  queued : Bool
  running : Bool

namespace DelayableWork

def idle : DelayableWork := ⟨none, false, false⟩

/-- An item that is scheduled or queued keeps its time; one whose handler runs is scheduled again. -/
def schedule (ms : Nat) (w : DelayableWork) : DelayableWork :=
  if w.left.isNone && !w.queued then { w with left := some ms } else w

def pass (ms : Nat) (w : DelayableWork) : DelayableWork :=
  match w.left with
  | some left => if left ≤ ms then { w with left := none, queued := true } else { w with left := some (left-ms) }
  | none => w

/-- The queue takes it up. -/
def take (w : DelayableWork) : DelayableWork := if w.queued then { w with queued := false, running := true } else w

def finish (w : DelayableWork) : DelayableWork := { w with running := false }

/-- Nothing is due, and no timeout runs out before `ms` have passed. -/
def Quiet (ms : Nat) (w : DelayableWork) : Prop :=
  w.queued = false ∧ w.running = false ∧ ∀ left ∈ w.left, ms ≤ left

instance (ms : Nat) (w : DelayableWork) : Decidable (w.Quiet ms) := inferInstanceAs (Decidable (_ ∧ _))

/-- The handler runs, or will in that time. -/
def DueWithin (ms : Nat) (w : DelayableWork) : Prop :=
  w.queued = true ∨ w.running = true ∨ ∃ left ∈ w.left, left ≤ ms

/-- No timeout is longer. -/
def Within (ms : Nat) (w : DelayableWork) : Prop := ∀ left ∈ w.left, left ≤ ms

variable {w : DelayableWork} {ms n : Nat}

theorem within_idle : idle.Within ms := fun left hleft => absurd hleft (by simp [idle])

theorem Within.schedule (h : w.Within n) (hms : ms ≤ n) : (w.schedule ms).Within n := by
  rw [DelayableWork.schedule]
  split
  case isTrue =>
    intro left hleft
    rw [← Option.mem_some.mp hleft]
    exact hms
  case isFalse => exact h

theorem Within.pass (h : w.Within n) : (w.pass ms).Within n := by
  rw [DelayableWork.pass]
  split
  case h_1 left hleft =>
    have hle := h left hleft
    split
    · exact fun left' hleft' => absurd hleft' (by simp)
    · intro left' hleft'
      rw [← Option.mem_some.mp hleft']
      omega
  case h_2 => exact h

theorem Within.take (h : w.Within n) : w.take.Within n := by
  rw [DelayableWork.take]
  split
  · exact h
  · exact h

theorem Within.finish (h : w.Within n) : w.finish.Within n := h

/-- Whether it was there already or not, the work is due once it is scheduled. -/
theorem Within.due_schedule (h : w.Within n) (hms : ms ≤ n) : (w.schedule ms).DueWithin n := by
  rw [DelayableWork.schedule]
  split
  case isTrue => exact .inr (.inr ⟨ms, rfl, hms⟩)
  case isFalse hbusy =>
    cases hqueued : w.queued with
    | true => exact .inl hqueued
    | false =>
      cases hleft : w.left with
      | none => exact absurd (by simp [hleft, hqueued]) hbusy
      | some left => exact .inr (.inr ⟨left, hleft, h left hleft⟩)

theorem DueWithin.schedule (h : w.DueWithin n) : (w.schedule ms).DueWithin n := by
  rw [DelayableWork.schedule]
  split
  case isTrue hfree =>
    rw [Bool.and_eq_true, Option.isNone_iff_eq_none, Bool.not_eq_true'] at hfree
    rcases h with hqueued | hrunning | ⟨left, hleft, _⟩
    · exact absurd hqueued (by simp [hfree.2])
    · exact .inr (.inl hrunning)
    · exact absurd hleft (by simp [hfree.1])
  case isFalse => exact h

theorem DueWithin.pass (h : w.DueWithin n) (hquiet : w.Quiet ms) : ms ≤ n ∧ (w.pass ms).DueWithin (n-ms) := by
  obtain ⟨hqueued, hrunning, hleast⟩ := hquiet
  rcases h with h | h | ⟨left, hleft, hle⟩
  · exact absurd h (by simp [hqueued])
  · exact absurd h (by simp [hrunning])
  · have hms := hleast left hleft
    refine ⟨Nat.le_trans hms hle, ?_⟩
    rw [DelayableWork.pass, Option.mem_def.mp hleft]
    dsimp only
    split
    · exact .inl rfl
    · exact .inr (.inr ⟨left-ms, rfl, by omega⟩)

theorem DueWithin.take (h : w.DueWithin n) : w.take.DueWithin n := by
  rw [DelayableWork.take]
  split
  · exact .inr (.inl rfl)
  · exact h

end DelayableWork
end OrbFirmware

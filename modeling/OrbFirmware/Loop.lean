import Mathlib.Logic.Relation

/-! A loop given by its round, which goes on in a new state or stops with a result. Nothing bounds
the number of rounds. -/
namespace OrbFirmware.Loop
variable {σ β : Type*} {round : σ → σ ⊕ β} {s s' : σ} {b : β}

/-- From `s` the loop stops, with `b`. -/
inductive Ends (round : σ → σ ⊕ β) : σ → β → Prop where
  | stop {s : σ} {b : β} (h : round s = .inr b) : Ends round s b
  | next {s s' : σ} {b : β} (h : round s = .inl s') (he : Ends round s' b) : Ends round s b

/-- Some rounds lead from one state to the other. -/
def Reaches (round : σ → σ ⊕ β) : σ → σ → Prop :=
  Relation.ReflTransGen fun s s' => round s = .inl s'

theorem Reaches.refl (s : σ) : Reaches round s s := Relation.ReflTransGen.refl

theorem Reaches.snoc {s'' : σ} (h : Reaches round s s') (hr : round s' = .inl s'') : Reaches round s s'' :=
  Relation.ReflTransGen.tail h hr

theorem Reaches.trans {s'' : σ} (h : Reaches round s s') (h' : Reaches round s' s'') : Reaches round s s'' :=
  Relation.ReflTransGen.trans h h'

theorem Reaches.inv (I : σ → Prop) (hround : ∀ s s', I s → round s = .inl s' → I s')
    (h : Reaches round s s') (hs : I s) : I s' := by
  induction h with
  | refl => exact hs
  | tail _ hr ih => exact hround _ _ ih hr

theorem Ends.result {c : β} (h : Ends round s b) (hr : round s = .inr c) : b = c := by
  cases h with
  | stop hb => exact Sum.inr.inj (hb.symm.trans hr)
  | next hn _ => rw [hn] at hr; cases hr

theorem Ends.rest (h : Ends round s b) (hr : round s = .inl s') : Ends round s' b := by
  cases h with
  | stop hb => rw [hb] at hr; cases hr
  | next hn he =>
    obtain rfl := Sum.inl.inj (hn.symm.trans hr)
    exact he

theorem Ends.after (h : Ends round s b) (hs : Reaches round s s') : Ends round s' b := by
  induction hs with
  | refl => exact h
  | tail _ hr ih => exact ih.rest hr

theorem Ends.before (h : Reaches round s s') (he : Ends round s' b) : Ends round s b := by
  induction h using Relation.ReflTransGen.head_induction_on with
  | refl => exact he
  | head hr _ ih => exact .next hr ih

/-- The round that stops the loop. -/
theorem Ends.last (h : Ends round s b) : ∃ s', Reaches round s s' ∧ round s' = .inr b := by
  induction h with
  | stop hb => exact ⟨_, .refl _, hb⟩
  | next hn _ ih =>
    obtain ⟨s', hs, hb⟩ := ih
    exact ⟨s', Relation.ReflTransGen.head hn hs, hb⟩

/-- A loop whose rounds bring a bound down stops, and a bounded version of it that is given that many
rounds computes its result. -/
theorem ends_bounded (I : σ → Prop) (bound : σ → Nat) (loop : Nat → σ → β)
    (hround : ∀ s s', I s → round s = .inl s' → I s' ∧ bound s' < bound s)
    (hzero : ∀ s, I s → bound s = 0 → round s = .inr (loop 0 s))
    (hsucc : ∀ n s, loop (n+1) s = Sum.elim (loop n) id (round s))
    {n : Nat} (hs : I s) (hn : bound s ≤ n) : Ends round s (loop n s) := by
  induction n generalizing s with
  | zero => exact .stop (hzero s hs (by omega))
  | succ n ih =>
    rw [hsucc]
    cases hr : round s with
    | inl s' =>
      obtain ⟨hs', hlt⟩ := hround s s' hs hr
      exact .next hr (ih hs' (by omega))
    | inr b => exact .stop hr

end OrbFirmware.Loop

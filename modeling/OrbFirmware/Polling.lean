import Mathlib.Data.Nat.Count
import OrbFirmware.Loop
import OrbFirmware.Machine

/-! A loop that feeds a machine with what it polls, until the machine is done or no round is left; and machines that go
through phases, waiting in each of them for an input. -/
namespace OrbFirmware.Polling
open Machine Loop
variable {σ ι ε : Type*}

/-- The loop, with the rounds that are left and the number of inputs that have been polled. -/
structure Poll (σ ε : Type*) where
  state : σ
  events : List ε
  timeout : Nat
  polled : Nat

def start (s : σ) (timeout : Nat) : Poll σ ε := ⟨s, [], timeout, 0⟩

/-- `while (!done && timeout) { ...; --timeout; }` -/
def round (step : σ → ι → List ε × σ) (done : σ → Bool) (input : Nat → ι) (p : Poll σ ε) : Poll σ ε ⊕ Poll σ ε :=
  if done p.state || p.timeout == 0 then .inr p
  else
    let (events, state) := step p.state (input p.polled)
    .inl ⟨state, p.events ++ events, p.timeout-1, p.polled+1⟩

/-- `n` rounds of the loop, or fewer where it stops. -/
def poll (step : σ → ι → List ε × σ) (done : σ → Bool) (input : Nat → ι) : Nat → Poll σ ε → Poll σ ε
  | 0, p => p
  | n + 1, p => Sum.elim (poll step done input n) id (round step done input p)

variable {step : σ → ι → List ε × σ} {done : σ → Bool} {input : Nat → ι} {s : σ} {timeout : Nat} {p p' : Poll σ ε}

theorem round_stops (h : round step done input p = .inr p') : p = p' ∧ (done p.state = true ∨ p.timeout = 0) := by
  rw [round] at h
  split at h
  · rename_i hstop
    rw [Bool.or_eq_true, beq_iff_eq] at hstop
    exact ⟨Sum.inr.inj h, hstop⟩
  · cases h

theorem round_goes_on (h : round step done input p = .inl p') :
    (done p.state = false ∧ 0 < p.timeout) ∧ p'.state = (step p.state (input p.polled)).2 ∧
      p'.timeout = p.timeout-1 ∧ p'.polled = p.polled+1 := by
  rw [round] at h
  split at h
  · cases h
  · rename_i hgo
    rw [Bool.or_eq_true, beq_iff_eq, not_or, Bool.not_eq_true] at hgo
    obtain rfl := Sum.inl.inj h
    exact ⟨⟨hgo.1, by omega⟩, rfl, rfl, rfl⟩

theorem ends_poll (p : Poll σ ε) : Ends (round step done input) p (poll step done input p.timeout p) := by
  refine ends_bounded (fun _ => True) Poll.timeout (poll step done input) ?_ ?_ (fun _ _ => rfl) trivial le_rfl
  · intro p p' _ hround
    obtain ⟨hgo, -, htimeout, -⟩ := round_goes_on hround
    exact ⟨trivial, by omega⟩
  · intro p _ htimeout
    rw [round, htimeout, beq_self_eq_true, Bool.or_true, if_pos rfl]
    rfl

/-! Where the loop is against the machine that is fed on and on. -/

/-- What the loop keeps. -/
structure Follows (step : σ → ι → List ε × σ) (done : σ → Bool) (input : Nat → ι) (s : σ) (timeout : Nat)
    (p : Poll σ ε) : Prop where
  state : p.state = stateAt step s input p.polled
  rounds : p.polled+p.timeout = timeout
  before : ∀ m < p.polled, ¬done (stateAt step s input m) = true

theorem Follows.start : Follows step done input s timeout (start s timeout) :=
  ⟨rfl, Nat.zero_add timeout, fun _ hlt => absurd hlt (Nat.not_lt_zero _)⟩

theorem Follows.round (h : Follows step done input s timeout p) (hround : round step done input p = .inl p') :
    Follows step done input s timeout p' := by
  obtain ⟨hstate, hrounds, hbefore⟩ := h
  obtain ⟨⟨hgo, hpos⟩, hstate', htimeout', hpolled'⟩ := round_goes_on hround
  refine ⟨?_, by omega, fun m hlt => ?_⟩
  · rw [hstate', hpolled', stateAt, hstate]
  · by_cases hm : m < p.polled
    · exact hbefore m hm
    · obtain rfl : m = p.polled := by omega
      rw [← hstate, hgo]
      exact Bool.false_ne_true

theorem Follows.result (h : Ends (Polling.round step done input) (Polling.start s timeout) p) :
    Follows step done input s timeout p ∧ (done p.state = true ∨ p.timeout = 0) := by
  obtain ⟨p', hreaches, hlast⟩ := h.last
  obtain ⟨rfl, hstop⟩ := round_stops hlast
  exact ⟨hreaches.inv _ (fun _ _ => Follows.round) .start, hstop⟩

/-- The rounds left tell whether the machine is done, but where it is done after the last of them. -/
theorem timeout_tells_iff (h : Ends (round step done input) (start s timeout) p) :
    (p.timeout ≠ 0 ↔ done p.state = true) ↔ ¬FirstAt (fun n => done (stateAt step s input n) = true) timeout := by
  obtain ⟨⟨hstate, hrounds, hbefore⟩, hstop⟩ := Follows.result h
  by_cases hdone : done p.state = true
  · by_cases htimeout : p.timeout = 0
    · have hpolled : p.polled = timeout := by omega
      rw [hpolled] at hstate hbefore
      rw [hstate] at hdone
      simp only [htimeout, hstate, hdone, FirstAt, ne_eq, not_true_eq_false, false_iff, true_and]
      exact not_not.mpr hbefore
    · refine iff_of_true (iff_of_true htimeout hdone) fun hfirst => ?_
      rw [hstate] at hdone
      exact hfirst.2 p.polled (by omega) hdone
  · have htimeout : p.timeout = 0 := hstop.resolve_left hdone
    have hpolled : p.polled = timeout := by omega
    refine iff_of_true (iff_of_false (not_not.mpr htimeout) hdone) fun hfirst => ?_
    have hlast := hfirst.1
    rw [← hpolled, ← hstate] at hlast
    exact hdone hlast

/-! Phases. -/

/-- The machine leaves its first phase at once, and each of the others with an input that it is ready for. -/
structure Phases (step : σ → ι → List ε × σ) (phase : σ → Nat) (ready : ι → Prop) (last : Nat) : Prop where
  leaves : ∀ s i, phase s = 0 → phase (step s i).2 = 1
  moves : ∀ s i, 0 < phase s → phase s < last → ready i → phase (step s i).2 = phase s+1
  waits : ∀ s i, 0 < phase s → ¬ready i → phase (step s i).2 = phase s
  stays : ∀ s i, phase s = last → phase (step s i).2 = last

variable {phase : σ → Nat} {ready : ι → Prop} [DecidablePred ready] {last : Nat}

/-- Of the inputs after the first one, the number that the machine is ready for. -/
def readyCount (ready : ι → Prop) [DecidablePred ready] (input : Nat → ι) (n : Nat) : Nat :=
  Nat.count (fun k => ready (input (k+1))) n

theorem Phases.phase_stateAt (h : Phases step phase ready last) (hlast : 1 ≤ last) (hs : phase s = 0)
    (input : Nat → ι) (n : Nat) : phase (stateAt step s input (n+1)) = min last (1+readyCount ready input n) := by
  induction n with
  | zero =>
    have hone := h.leaves s (input 0) hs
    simp only [stateAt, hone, readyCount, Nat.count_zero]
    omega
  | succ n ih =>
    rw [stateAt, readyCount, Nat.count_succ, ← readyCount]
    by_cases hstays : phase (stateAt step s input (n+1)) = last
    · rw [h.stays _ _ hstays]
      omega
    · by_cases hready : ready (input (n+1))
      · rw [h.moves _ _ (by omega) (by omega) hready, if_pos hready]
        omega
      · rw [h.waits _ _ (by omega) hready, if_neg hready, ih]
        omega

/-- The last phase is reached in the round that polls the last input to wait for. -/
theorem Phases.firstAt_last_iff (h : Phases step phase ready last) (hlast : 2 ≤ last) (hs : phase s = 0)
    (input : Nat → ι) (n : Nat) : FirstAt (fun n => phase (stateAt step s input n) = last) (n+2) ↔
      ready (input (n+1)) ∧ readyCount ready input n = last-2 := by
  have hphase := h.phase_stateAt (by omega) hs input
  have hcount : readyCount ready input (n+1) = readyCount ready input n + if ready (input (n+1)) then 1 else 0 :=
    Nat.count_succ _ _
  constructor
  · rintro ⟨hnow, hbefore⟩
    have hearlier : phase (stateAt step s input (n+1)) ≠ last := hbefore (n+1) (by omega)
    rw [hphase] at hnow hearlier
    split at hcount
    · rename_i hready
      exact ⟨hready, by omega⟩
    · omega
  · rintro ⟨hready, hneeded⟩
    rw [if_pos hready] at hcount
    refine ⟨(hphase (n+1)).trans (by omega), fun m hlt (hm : phase (stateAt step s input m) = last) => ?_⟩
    cases m with
    | zero => exact absurd (hs.symm.trans hm) (by omega)
    | succ m =>
      have hle : readyCount ready input m ≤ readyCount ready input n := Nat.count_monotone _ (by omega)
      rw [hphase] at hm
      omega

/-- The rounds left tell whether the last phase is reached, but where the last round polls the last input to wait for. -/
theorem Phases.timeout_tells_iff (h : Phases step phase ready last) (hlast : 2 ≤ last) (hs : phase s = 0)
    (hdone : ∀ s, done s = true ↔ phase s = last) {n : Nat} (hends : Ends (round step done input) (start s (n+2)) p) :
    (p.timeout ≠ 0 ↔ done p.state = true) ↔ ¬(ready (input (n+1)) ∧ readyCount ready input n = last-2) := by
  have htells := Polling.timeout_tells_iff hends
  simp only [hdone] at htells ⊢
  rw [htells, h.firstAt_last_iff hlast hs]

end OrbFirmware.Polling

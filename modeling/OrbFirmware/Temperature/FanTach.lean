import Mathlib.Tactic.Common
import OrbFirmware.Machine

/-! `fan_tach.c`: the timer that captures the edges of a fan's tachometer, and the interrupt that makes a speed of them. -/
namespace OrbFirmware.Temperature
open Machine

inductive IsrState where
  | awaitingFirstSample
  | awaitingSecondSample
  | awaitingTimerExpiration
  deriving DecidableEq

/-- `struct timer_info` with the flags and the capture register of its timer; the ticks of the timer since it was started;
and the times of all edges, the last one first. -/
structure FanTach where
  now : Nat
  ccFlag : Bool
  ccOverrun : Bool
  updateFlag : Bool
  channelEnabled : Bool
  ccValue : UInt32
  state : IsrState
  firstCcValue : UInt32
  secondCcValue : UInt32
  edges : List Nat

/-- The timer ticks; an edge comes in (every second one of the tachometer does); the interrupt is served. -/
inductive FanTachAction where
  | tick
  | edge
  | isr

/-- A speed is set; with the time, and the edges up to then. -/
structure FanSpeed where
  rpm : UInt32
  now : Nat
  edges : List Nat

/-- The counter has 16 bits. -/
def tachPeriod : Nat := 65536

/-- `fan_tachometer_isr`; `rpmOf` is the speed for that many ticks between two edges, in floating point. -/
def fanTachometerIsr (rpmOf : UInt32 → UInt32) (s : FanTach) : List FanSpeed × FanTach :=
  if s.ccOverrun then
    ([], { s with state := .awaitingFirstSample, ccFlag := false, ccOverrun := false, updateFlag := false })
  else if s.updateFlag then
    match s.state with
    | .awaitingTimerExpiration =>
      let rpm := if s.secondCcValue ≤ s.firstCcValue then 0xFFFFFFFF else rpmOf (s.secondCcValue - s.firstCcValue)
      ([⟨rpm, s.now, s.edges⟩], { s with
        ccFlag := false, ccOverrun := false, channelEnabled := true, updateFlag := false, state := .awaitingFirstSample })
    | _ => ([⟨0, s.now, s.edges⟩], { s with updateFlag := false, state := .awaitingFirstSample })
  else if s.ccFlag then
    match s.state with
    | .awaitingFirstSample =>
      ([], { s with firstCcValue := s.ccValue, state := .awaitingSecondSample, ccFlag := false })
    | .awaitingSecondSample =>
      ([], { s with
        secondCcValue := s.ccValue, state := .awaitingTimerExpiration, channelEnabled := false, ccFlag := false })
    | .awaitingTimerExpiration => ([], { s with ccFlag := false })
  else ([], s)

def fanTachStep (rpmOf : UInt32 → UInt32) (s : FanTach) : FanTachAction → List FanSpeed × FanTach
  | .tick => ([], { s with now := s.now+1, updateFlag := s.updateFlag || (s.now+1) % tachPeriod == 0 })
  | .edge =>
    if s.channelEnabled then
      ([], { s with
        ccOverrun := s.ccOverrun || s.ccFlag, ccFlag := true, ccValue := UInt32.ofNat (s.now % tachPeriod)
        edges := s.now :: s.edges })
    else ([], { s with edges := s.now :: s.edges })
  | .isr => fanTachometerIsr rpmOf s

/-- The timer starts to count, wherever its counter is. -/
def FanTach.start (now : Nat) : FanTach := ⟨now, false, false, false, true, 0, .awaitingFirstSample, 0, 0, []⟩

/-- Edges are a tick apart; and a capture is served before the timer starts over. -/
def FanTachAction.Served (s : FanTach) : FanTachAction → Prop
  | .tick => (s.now+1) % tachPeriod = 0 → s.ccFlag = false
  | .edge => ∀ t ∈ s.edges, t < s.now
  | .isr => True

instance (s : FanTach) (a : FanTachAction) : Decidable (a.Served s) :=
  match a with
  | .tick => inferInstanceAs (Decidable ((s.now+1) % tachPeriod = 0 → s.ccFlag = false))
  | .edge => inferInstanceAs (Decidable (∀ t ∈ s.edges, t < s.now))
  | .isr => isTrue trivial

/-- The two edges, in one period, that a speed is measured between; none comes in between them. -/
structure Between (edges : List Nat) (t₁ t₂ : Nat) : Prop where
  consecutive : ∃ later earlier, edges = later ++ t₂ :: t₁ :: earlier
  ordered : t₁ < t₂
  period : t₁/tachPeriod = t₂/tachPeriod

/-- The register for a time. -/
def ccOf (t : Nat) : UInt32 := UInt32.ofNat (t % tachPeriod)

/-- What the registers say of the edges, as long as no capture is lost. -/
structure TachInv (s : FanTach) : Prop where
  pending : s.ccFlag = true → s.ccOverrun = false →
    ∃ t earlier, s.edges = t :: earlier ∧ (∀ t' ∈ earlier, t' < t) ∧ s.ccValue = ccOf t ∧
      t/tachPeriod = s.now/tachPeriod
  second : s.state = .awaitingSecondSample → s.ccOverrun = false →
    ∃ t earlier, (if s.ccFlag then s.edges.tail else s.edges) = t :: earlier ∧ s.firstCcValue = ccOf t ∧
      (s.updateFlag = true ∨ t/tachPeriod = s.now/tachPeriod)
  expiration : s.state = .awaitingTimerExpiration →
    s.ccFlag = false ∧ s.ccOverrun = false ∧ s.channelEnabled = false ∧
      ∃ t₁ t₂, Between s.edges t₁ t₂ ∧ s.firstCcValue = ccOf t₁ ∧ s.secondCcValue = ccOf t₂
  enabled : s.state ≠ .awaitingTimerExpiration → s.channelEnabled = true

variable {rpmOf : UInt32 → UInt32} {s : FanTach} {edges : List Nat} {t₁ t₂ : Nat}

theorem Between.later (h : Between edges t₁ t₂) (t : Nat) : Between (t :: edges) t₁ t₂ where
  consecutive := by
    obtain ⟨later, earlier, rfl⟩ := h.consecutive
    exact ⟨t :: later, earlier, rfl⟩
  ordered := h.ordered
  period := h.period

/-- The registers of two such edges tell the ticks between them. -/
theorem Between.registers (h : Between edges t₁ t₂) :
    ¬ccOf t₂ ≤ ccOf t₁ ∧ ccOf t₂ - ccOf t₁ = UInt32.ofNat (t₂ - t₁) := by
  obtain ⟨-, hlt, hperiod⟩ := h
  have hreg (t : Nat) : (ccOf t).toNat = t % tachPeriod := by
    rw [ccOf, UInt32.toNat_ofNat_of_lt' (Nat.lt_trans (Nat.mod_lt _ (by decide)) (by decide))]
  have hmod : t₁ % tachPeriod < t₂ % tachPeriod ∧ t₂ % tachPeriod - t₁ % tachPeriod = t₂ - t₁ := by
    rw [tachPeriod] at hperiod ⊢
    omega
  have hle : ccOf t₁ ≤ ccOf t₂ := by
    rw [UInt32.le_iff_toNat_le, hreg, hreg]
    exact Nat.le_of_lt hmod.1
  refine ⟨fun hback => ?_, ?_⟩
  · rw [UInt32.le_iff_toNat_le, hreg, hreg] at hback
    omega
  · apply UInt32.toNat_inj.mp
    have hsmall : t₂ - t₁ < 2^32 := by
      have hbound : t₂ % tachPeriod < tachPeriod := Nat.mod_lt _ (by decide)
      rw [← hmod.2]
      rw [tachPeriod] at *
      omega
    rw [UInt32.toNat_sub_of_le _ _ hle, hreg, hreg, hmod.2, UInt32.toNat_ofNat_of_lt' hsmall]

theorem TachInv.start (now : Nat) : TachInv (.start now) where
  pending := fun h => absurd h Bool.false_ne_true
  second := fun h => IsrState.noConfusion h
  expiration := fun h => IsrState.noConfusion h
  enabled := fun _ => rfl

theorem TachInv.tick (h : TachInv s) (hserved : (s.now+1) % tachPeriod = 0 → s.ccFlag = false) :
    TachInv (fanTachStep rpmOf s .tick).2 := by
  have hsame : (s.now+1) % tachPeriod ≠ 0 → (s.now+1)/tachPeriod = s.now/tachPeriod := by
    rw [tachPeriod]
    omega
  refine ⟨fun hflag hoverrun => ?_, fun hstate hoverrun => ?_, h.expiration, h.enabled⟩
  · obtain ⟨t, earlier, hedges, hearlier, hvalue, hperiod⟩ := h.pending hflag hoverrun
    have hno : (s.now+1) % tachPeriod ≠ 0 := fun hwrap => Bool.false_ne_true ((hserved hwrap).symm.trans hflag)
    exact ⟨t, earlier, hedges, hearlier, hvalue, hperiod.trans (hsame hno).symm⟩
  · obtain ⟨t, earlier, hedges, hvalue, hperiod⟩ := h.second hstate hoverrun
    refine ⟨t, earlier, hedges, hvalue, ?_⟩
    simp only [fanTachStep, Bool.or_eq_true, beq_iff_eq]
    by_cases hwrap : (s.now+1) % tachPeriod = 0
    · exact .inl (.inr hwrap)
    · exact hperiod.imp .inl fun hperiod => hperiod.trans (hsame hwrap).symm

theorem TachInv.edge (h : TachInv s) (hlast : ∀ t ∈ s.edges, t < s.now) : TachInv (fanTachStep rpmOf s .edge).2 := by
  rw [fanTachStep]
  cases henabled : s.channelEnabled with
  | false =>
    have hexpiration : s.state = .awaitingTimerExpiration := by
      by_contra hne
      exact Bool.false_ne_true (henabled.symm.trans (h.enabled hne))
    obtain ⟨hflag, hoverrun, -, t₁, t₂, hbetween, hfirst, hsecond⟩ := h.expiration hexpiration
    rw [if_neg Bool.false_ne_true]
    exact ⟨fun hset => absurd (hflag.symm.trans hset) Bool.false_ne_true,
      fun hstate => absurd (hexpiration.symm.trans hstate) (by decide),
      fun _ => ⟨hflag, hoverrun, rfl, t₁, t₂, hbetween.later _, hfirst, hsecond⟩,
      fun hne => absurd hexpiration hne⟩
  | true =>
    have hne : s.state ≠ .awaitingTimerExpiration := fun hstate =>
      Bool.false_ne_true ((h.expiration hstate).2.2.1.symm.trans henabled)
    rw [if_pos rfl]
    refine ⟨fun _ _ => ⟨s.now, s.edges, rfl, hlast, rfl, rfl⟩, fun hstate hoverrun => ?_,
      fun hstate => absurd hstate hne, fun _ => rfl⟩
    simp only [Bool.or_eq_false_iff] at hoverrun
    obtain ⟨t, earlier, hedges, hvalue, hperiod⟩ := h.second hstate hoverrun.1
    rw [hoverrun.2, if_neg Bool.false_ne_true] at hedges
    exact ⟨t, earlier, hedges, hvalue, hperiod⟩

/-! The interrupt, by what it finds. -/

theorem isr_overrun (h : s.ccOverrun = true) : fanTachometerIsr rpmOf s =
    ([], { s with state := .awaitingFirstSample, ccFlag := false, ccOverrun := false, updateFlag := false }) := by
  rw [fanTachometerIsr, if_pos h]

theorem isr_speed (hoverrun : s.ccOverrun = false) (hupdate : s.updateFlag = true)
    (hstate : s.state = .awaitingTimerExpiration) : fanTachometerIsr rpmOf s =
      ([⟨if s.secondCcValue ≤ s.firstCcValue then 0xFFFFFFFF else rpmOf (s.secondCcValue - s.firstCcValue), s.now,
          s.edges⟩],
        { s with
          ccFlag := false, ccOverrun := false, channelEnabled := true, updateFlag := false
          state := .awaitingFirstSample }) := by
  rw [fanTachometerIsr, if_neg (by simp [hoverrun]), if_pos hupdate, hstate]

theorem isr_zero (hoverrun : s.ccOverrun = false) (hupdate : s.updateFlag = true)
    (hstate : s.state ≠ .awaitingTimerExpiration) : fanTachometerIsr rpmOf s =
      ([⟨0, s.now, s.edges⟩], { s with updateFlag := false, state := .awaitingFirstSample }) := by
  rw [fanTachometerIsr, if_neg (by simp [hoverrun]), if_pos hupdate]
  cases hs : s.state with
  | awaitingTimerExpiration => exact absurd hs hstate
  | awaitingFirstSample | awaitingSecondSample => rfl

theorem isr_first (hoverrun : s.ccOverrun = false) (hupdate : s.updateFlag = false) (hflag : s.ccFlag = true)
    (hstate : s.state = .awaitingFirstSample) : fanTachometerIsr rpmOf s =
      ([], { s with firstCcValue := s.ccValue, state := .awaitingSecondSample, ccFlag := false }) := by
  rw [fanTachometerIsr, if_neg (by simp [hoverrun]), if_neg (by simp [hupdate]), if_pos hflag, hstate]

theorem isr_second (hoverrun : s.ccOverrun = false) (hupdate : s.updateFlag = false) (hflag : s.ccFlag = true)
    (hstate : s.state = .awaitingSecondSample) : fanTachometerIsr rpmOf s =
      ([], { s with
        secondCcValue := s.ccValue, state := .awaitingTimerExpiration, channelEnabled := false, ccFlag := false }) := by
  rw [fanTachometerIsr, if_neg (by simp [hoverrun]), if_neg (by simp [hupdate]), if_pos hflag, hstate]

theorem isr_nothing (hoverrun : s.ccOverrun = false) (hupdate : s.updateFlag = false) (hflag : s.ccFlag = false) :
    fanTachometerIsr rpmOf s = ([], s) := by
  rw [fanTachometerIsr, if_neg (by simp [hoverrun]), if_neg (by simp [hupdate]), if_neg (by simp [hflag])]

/-- A speed is of two edges, or there was none to measure. -/
def FanSpeed.Measured (rpmOf : UInt32 → UInt32) (speed : FanSpeed) : Prop :=
  speed.rpm = 0 ∨ ∃ t₁ t₂, Between speed.edges t₁ t₂ ∧ speed.rpm = rpmOf (UInt32.ofNat (t₂ - t₁))

/-- The first sample is awaited, and no capture is lost. -/
theorem TachInv.restarted (hpending : s.ccFlag = true → s.ccOverrun = false → ∃ t earlier, s.edges = t :: earlier ∧
      (∀ t' ∈ earlier, t' < t) ∧ s.ccValue = ccOf t ∧ t/tachPeriod = s.now/tachPeriod)
    (hstate : s.state = .awaitingFirstSample) (henabled : s.channelEnabled = true) : TachInv s where
  pending := hpending
  second := fun hnext => IsrState.noConfusion (hstate.symm.trans hnext)
  expiration := fun hnext => IsrState.noConfusion (hstate.symm.trans hnext)
  enabled := fun _ => henabled

theorem TachInv.update (h : TachInv s) (hoverrun : s.ccOverrun = false) (hupdate : s.updateFlag = true) :
    TachInv (fanTachometerIsr rpmOf s).2 ∧ ∀ speed ∈ (fanTachometerIsr rpmOf s).1, speed.Measured rpmOf := by
  by_cases hstate : s.state = .awaitingTimerExpiration
  · obtain ⟨hflag, -, -, t₁, t₂, hbetween, hfirst, hsecond⟩ := h.expiration hstate
    obtain ⟨hforward, hticks⟩ := hbetween.registers
    rw [isr_speed hoverrun hupdate hstate, hfirst, hsecond, if_neg hforward, hticks]
    refine ⟨.restarted (fun hset => absurd hset Bool.false_ne_true) rfl rfl, fun speed hspeed => ?_⟩
    rw [List.mem_singleton.mp hspeed]
    exact .inr ⟨t₁, t₂, hbetween, rfl⟩
  · rw [isr_zero hoverrun hupdate hstate]
    refine ⟨.restarted h.pending rfl (h.enabled hstate), fun speed hspeed => ?_⟩
    rw [List.mem_singleton.mp hspeed]
    exact .inl rfl

theorem TachInv.capture (h : TachInv s) (hoverrun : s.ccOverrun = false) (hupdate : s.updateFlag = false)
    (hflag : s.ccFlag = true) : TachInv (fanTachometerIsr rpmOf s).2 ∧ (fanTachometerIsr rpmOf s).1 = [] := by
  obtain ⟨t, earlier, hedges, hearlier, hvalue, hperiod⟩ := h.pending hflag hoverrun
  cases hstate : s.state with
  | awaitingFirstSample =>
    rw [isr_first hoverrun hupdate hflag hstate]
    refine ⟨⟨fun hset => absurd hset Bool.false_ne_true, fun _ _ => ⟨t, earlier, hedges, hvalue, .inr hperiod⟩,
      fun hnext => IsrState.noConfusion hnext, fun _ => h.enabled ?_⟩, rfl⟩
    rw [hstate]
    exact fun hnext => IsrState.noConfusion hnext
  | awaitingSecondSample =>
    obtain ⟨t₁, earliest, hearliest, hfirst, hperiod₁⟩ := h.second hstate hoverrun
    rw [hflag, if_pos rfl, hedges, List.tail_cons] at hearliest
    subst hearliest
    have hsame : t₁/tachPeriod = t/tachPeriod := by
      rcases hperiod₁ with hset | hperiod₁
      · exact absurd (hupdate.symm.trans hset) Bool.false_ne_true
      · exact hperiod₁.trans hperiod.symm
    have hbetween : Between s.edges t₁ t := ⟨⟨[], earliest, hedges⟩, hearlier t₁ List.mem_cons_self, hsame⟩
    rw [isr_second hoverrun hupdate hflag hstate]
    exact ⟨⟨fun hset => absurd hset Bool.false_ne_true, fun hnext => IsrState.noConfusion hnext,
      fun _ => ⟨rfl, hoverrun, rfl, t₁, t, hbetween, hfirst, hvalue⟩, fun hnext => absurd rfl hnext⟩, rfl⟩
  | awaitingTimerExpiration => exact absurd ((h.expiration hstate).1.symm.trans hflag) Bool.false_ne_true

theorem TachInv.isr (h : TachInv s) :
    TachInv (fanTachometerIsr rpmOf s).2 ∧ ∀ speed ∈ (fanTachometerIsr rpmOf s).1, speed.Measured rpmOf := by
  have hnone : ∀ speed ∈ ([] : List FanSpeed), speed.Measured rpmOf := fun _ hspeed => absurd hspeed List.not_mem_nil
  cases hoverrun : s.ccOverrun with
  | true =>
    have henabled : s.channelEnabled = true := h.enabled fun hstate =>
      Bool.false_ne_true ((h.expiration hstate).2.1.symm.trans hoverrun)
    rw [isr_overrun hoverrun]
    exact ⟨.restarted (fun hset => absurd hset Bool.false_ne_true) rfl henabled, hnone⟩
  | false =>
    cases hupdate : s.updateFlag with
    | true => exact h.update hoverrun hupdate
    | false =>
      cases hflag : s.ccFlag with
      | true =>
        have hnil : TachInv (fanTachometerIsr rpmOf s).2 ∧ (fanTachometerIsr rpmOf s).1 = [] :=
          h.capture hoverrun hupdate hflag
        rw [hnil.2]
        exact ⟨hnil.1, hnone⟩
      | false =>
        rw [isr_nothing hoverrun hupdate hflag]
        exact ⟨h, hnone⟩

theorem edge_silent : (fanTachStep rpmOf s .edge).1 = [] := by
  rw [fanTachStep]
  split <;> rfl

/-- However late the interrupt is, as long as a capture is served before the timer starts over: a speed that is set is 0,
or that of two edges, one right after the other, in one period of the timer. The second never seems to come before the
first. -/
theorem fan_tach_measures (rpmOf : UInt32 → UInt32) (now : Nat) (actions : List FanTachAction)
    (hserved : Meets (fanTachStep rpmOf) FanTachAction.Served (.start now) actions) :
    ∀ speed ∈ events (fanTachStep rpmOf) (.start now) actions, speed.Measured rpmOf := by
  have hrun := events_invariant
    (I := fun (tr : List FanSpeed) s => TachInv s ∧ ∀ speed ∈ tr, speed.Measured rpmOf)
    (fun tr s a h ha => by
      cases a with
      | tick => exact ⟨h.1.tick ha, by simpa [fanTachStep] using h.2⟩
      | edge => exact ⟨h.1.edge ha, by simpa [edge_silent] using h.2⟩
      | isr =>
        have hisr : TachInv (fanTachometerIsr rpmOf s).2 ∧
            ∀ speed ∈ (fanTachometerIsr rpmOf s).1, speed.Measured rpmOf := h.1.isr
        exact ⟨hisr.1, List.forall_mem_append.mpr ⟨h.2, hisr.2⟩⟩)
    [] (.start now) actions ⟨.start now, fun _ hspeed => absurd hspeed List.not_mem_nil⟩ hserved
  exact hrun.2

/-- Two edges, a tick apart; every interrupt is served a tick late. -/
theorem fan_tach_measures_late : FanSpeed.Measured id ⟨1, 65537, [65534, 65533]⟩ :=
  fan_tach_measures id 65533 [.edge, .tick, .isr, .edge, .tick, .isr, .tick, .tick, .isr] (by decide) _
    List.mem_cons_self

/-! A prompt interrupt, period by period. -/

/-- Each interrupt is served before the timer ticks and before an edge comes in. -/
def FanTachAction.Prompt (s : FanTach) : FanTachAction → Prop
  | .tick => s.ccFlag = false ∧ s.updateFlag = false
  | .edge => s.ccFlag = false ∧ s.updateFlag = false ∧ ∀ t ∈ s.edges, t < s.now
  | .isr => True

instance (s : FanTach) (a : FanTachAction) : Decidable (a.Prompt s) :=
  match a with
  | .tick => inferInstanceAs (Decidable (_ ∧ _))
  | .edge => inferInstanceAs (Decidable (_ ∧ _ ∧ ∀ t ∈ s.edges, t < s.now))
  | .isr => isTrue trivial

/-- The edges in a period of the timer, the first one first. -/
def periodEdges (n : Nat) (edges : List Nat) : List Nat := (edges.filter fun t => t/tachPeriod == n).reverse

/-- The speed of a fan with these edges in a period. -/
def periodSpeed (rpmOf : UInt32 → UInt32) : List Nat → UInt32
  | t₁ :: t₂ :: _ => rpmOf (UInt32.ofNat (t₂ - t₁))
  | _ => 0

/-- The period that the next speed is of: it has just ended, or is going on. -/
def FanTach.period (s : FanTach) : Nat := if s.updateFlag then s.now/tachPeriod - 1 else s.now/tachPeriod

/-- The edges of that period that the interrupt has seen, or that it doesn't get to see. -/
def FanTach.samples (s : FanTach) : List Nat := periodEdges s.period (if s.ccFlag then s.edges.tail else s.edges)

/-- What the state says of the samples. -/
def IsrState.Samples (firstCcValue secondCcValue : UInt32) (samples : List Nat) : IsrState → Prop
  | .awaitingFirstSample => samples = []
  | .awaitingSecondSample => ∃ t, samples = [t] ∧ firstCcValue = ccOf t
  | .awaitingTimerExpiration => ∃ t₁ t₂ later, samples = t₁ :: t₂ :: later ∧ t₁ < t₂ ∧
    t₁/tachPeriod = t₂/tachPeriod ∧ firstCcValue = ccOf t₁ ∧ secondCcValue = ccOf t₂

structure PromptInv (s : FanTach) : Prop where
  overrun : s.ccOverrun = false
  update : s.updateFlag = true → s.now % tachPeriod = 0 ∧ s.ccFlag = false ∧ ∀ t ∈ s.edges, t < s.now
  capture : s.ccFlag = true → ∃ earlier, s.edges = s.now :: earlier ∧ (∀ t ∈ earlier, t < s.now) ∧
    s.ccValue = ccOf s.now ∧ s.state ≠ .awaitingTimerExpiration
  enabled : s.channelEnabled = true ↔ s.state ≠ .awaitingTimerExpiration
  past : ∀ t ∈ s.edges, t ≤ s.now
  samples : s.state.Samples s.firstCcValue s.secondCcValue s.samples

theorem periodEdges_cons (n t : Nat) (edges : List Nat) :
    periodEdges n (t :: edges) = periodEdges n edges ++ if t/tachPeriod = n then [t] else [] := by
  rw [periodEdges, List.filter_cons]
  split
  case isTrue h =>
    rw [List.reverse_cons, if_pos (beq_iff_eq.mp h)]
    rfl
  case isFalse h =>
    rw [if_neg fun heq => h (beq_iff_eq.mpr heq), List.append_nil]
    rfl

theorem periodEdges_period {n t : Nat} (h : t ∈ periodEdges n edges) : t ∈ edges ∧ t/tachPeriod = n := by
  rw [periodEdges, List.mem_reverse, List.mem_filter, beq_iff_eq] at h
  exact h

theorem PromptInv.start (now : Nat) : PromptInv (.start now) where
  overrun := rfl
  update := fun h => absurd h Bool.false_ne_true
  capture := fun h => absurd h Bool.false_ne_true
  enabled := ⟨fun _ h => IsrState.noConfusion h, fun _ => rfl⟩
  past := fun _ h => absurd h List.not_mem_nil
  samples := rfl

theorem PromptInv.tick (h : PromptInv s) (hflag : s.ccFlag = false) (hupdate : s.updateFlag = false) :
    PromptInv (fanTachStep rpmOf s .tick).2 := by
  have hsamples := h.samples
  have hperiod : (fanTachStep rpmOf s .tick).2.period = s.period := by
    simp only [FanTach.period, fanTachStep, hupdate, Bool.false_or, beq_iff_eq, Bool.false_eq_true, if_false, tachPeriod]
    split <;> omega
  refine ⟨h.overrun, fun hset => ?_, fun hset => absurd (hflag.symm.trans hset) Bool.false_ne_true, h.enabled,
    fun t ht => Nat.le_succ_of_le (h.past t ht), ?_⟩
  · simp only [fanTachStep, hupdate, Bool.false_or, beq_iff_eq] at hset
    exact ⟨hset, hflag, fun t ht => Nat.lt_succ_of_le (h.past t ht)⟩
  · rw [FanTach.samples] at hsamples ⊢
    rw [hperiod]
    exact hsamples

theorem PromptInv.edge (h : PromptInv s) (hflag : s.ccFlag = false) (hupdate : s.updateFlag = false)
    (hlast : ∀ t ∈ s.edges, t < s.now) : PromptInv (fanTachStep rpmOf s .edge).2 := by
  have hsamples := h.samples
  have hperiod : s.period = s.now/tachPeriod := by
    rw [FanTach.period, if_neg (by simp [hupdate])]
  have hpast : ∀ t ∈ s.now :: s.edges, t ≤ s.now := by
    intro t ht
    rcases List.mem_cons.mp ht with rfl | ht
    · exact Nat.le_refl _
    · exact h.past t ht
  rw [FanTach.samples, hflag, if_neg Bool.false_ne_true, hperiod] at hsamples
  rw [fanTachStep]
  cases henabled : s.channelEnabled with
  | false =>
    have hstate : s.state = .awaitingTimerExpiration := by
      by_contra hne
      exact Bool.false_ne_true (henabled.symm.trans (h.enabled.mpr hne))
    rw [if_neg Bool.false_ne_true]
    refine ⟨h.overrun, fun hset => absurd (hupdate.symm.trans hset) Bool.false_ne_true,
      fun hset => absurd (hflag.symm.trans hset) Bool.false_ne_true,
      ⟨fun hset => absurd hset Bool.false_ne_true, fun hne => absurd hstate hne⟩, hpast, ?_⟩
    rw [hstate] at hsamples
    obtain ⟨t₁, t₂, later, hedges, hrest⟩ := hsamples
    simp only [FanTach.samples, FanTach.period, hflag, hupdate, hstate, Bool.false_eq_true, if_false]
    rw [periodEdges_cons, if_pos rfl, hedges]
    exact ⟨t₁, t₂, later ++ [s.now], rfl, hrest⟩
  | true =>
    have hne : s.state ≠ .awaitingTimerExpiration := h.enabled.mp henabled
    rw [if_pos rfl]
    refine ⟨by rw [h.overrun, hflag]; rfl, fun hset => absurd (hupdate.symm.trans hset) Bool.false_ne_true,
      fun _ => ⟨s.edges, rfl, hlast, rfl, hne⟩, ⟨fun _ => hne, fun _ => rfl⟩, hpast, ?_⟩
    simp only [FanTach.samples, FanTach.period, hupdate, Bool.false_eq_true, if_false, if_true, List.tail_cons]
    exact hsamples

/-- The speed of the period that has just ended. -/
def FanSpeed.OfPeriod (rpmOf : UInt32 → UInt32) (speed : FanSpeed) : Prop :=
  speed.now % tachPeriod = 0 ∧ speed.rpm = periodSpeed rpmOf (periodEdges (speed.now/tachPeriod - 1) speed.edges)

theorem PromptInv.update_isr (h : PromptInv s) (hupdate : s.updateFlag = true) :
    PromptInv (fanTachometerIsr rpmOf s).2 ∧ ∀ speed ∈ (fanTachometerIsr rpmOf s).1, speed.OfPeriod rpmOf := by
  obtain ⟨hwrap, hflag, hpast⟩ := h.update hupdate
  have hsamples := h.samples
  have hnext : periodEdges (s.now/tachPeriod) s.edges = [] := by
    rw [List.eq_nil_iff_forall_not_mem]
    intro t ht
    obtain ⟨hmem, hperiod⟩ := periodEdges_period ht
    have hlt := hpast t hmem
    rw [tachPeriod] at hperiod hwrap
    omega
  rw [FanTach.samples, hflag, if_neg Bool.false_ne_true, FanTach.period, if_pos hupdate] at hsamples
  by_cases hstate : s.state = .awaitingTimerExpiration
  · rw [hstate] at hsamples
    obtain ⟨t₁, t₂, later, hedges, hlt, hperiod, hfirst, hsecond⟩ := hsamples
    have hbetween : Between [t₂, t₁] t₁ t₂ := ⟨⟨[], [], rfl⟩, hlt, hperiod⟩
    obtain ⟨hforward, hticks⟩ := hbetween.registers
    rw [isr_speed h.overrun hupdate hstate, hfirst, hsecond, if_neg hforward, hticks]
    refine ⟨⟨rfl, fun hset => absurd hset Bool.false_ne_true, fun hset => absurd hset Bool.false_ne_true,
      ⟨fun _ hs => IsrState.noConfusion hs, fun _ => rfl⟩, h.past, hnext⟩, fun speed hspeed => ?_⟩
    rw [List.mem_singleton.mp hspeed, FanSpeed.OfPeriod, hedges]
    exact ⟨hwrap, rfl⟩
  · have hzero : periodSpeed rpmOf (periodEdges (s.now/tachPeriod - 1) s.edges) = 0 := by
      cases hs : s.state with
      | awaitingFirstSample =>
        rw [hs] at hsamples
        rw [show periodEdges _ _ = [] from hsamples]
        rfl
      | awaitingSecondSample =>
        rw [hs] at hsamples
        obtain ⟨t, hedges, -⟩ := hsamples
        rw [hedges]
        rfl
      | awaitingTimerExpiration => exact absurd hs hstate
    rw [isr_zero h.overrun hupdate hstate]
    refine ⟨⟨h.overrun, fun hset => absurd hset Bool.false_ne_true,
      fun hset => absurd (hflag.symm.trans hset) Bool.false_ne_true,
      ⟨fun _ hs => IsrState.noConfusion hs, fun _ => h.enabled.mpr hstate⟩, h.past, ?_⟩, fun speed hspeed => ?_⟩
    · simp only [FanTach.samples, FanTach.period, hflag, Bool.false_eq_true, if_false]
      exact hnext
    · rw [List.mem_singleton.mp hspeed]
      exact ⟨hwrap, hzero.symm⟩

theorem PromptInv.capture_isr (h : PromptInv s) (hupdate : s.updateFlag = false) (hflag : s.ccFlag = true) :
    PromptInv (fanTachometerIsr rpmOf s).2 ∧ (fanTachometerIsr rpmOf s).1 = [] := by
  obtain ⟨earlier, hedges, hearlier, hvalue, hne⟩ := h.capture hflag
  have hsamples := h.samples
  rw [FanTach.samples, hflag, if_pos rfl, FanTach.period, if_neg (by simp [hupdate]), hedges, List.tail_cons] at hsamples
  have hseen : periodEdges (s.now/tachPeriod) s.edges = periodEdges (s.now/tachPeriod) earlier ++ [s.now] := by
    rw [hedges, periodEdges_cons, if_pos rfl]
  cases hstate : s.state with
  | awaitingFirstSample =>
    rw [hstate] at hsamples
    rw [isr_first h.overrun hupdate hflag hstate]
    refine ⟨⟨h.overrun, fun hset => absurd (hupdate.symm.trans hset) Bool.false_ne_true,
      fun hset => absurd hset Bool.false_ne_true, ⟨fun _ hs => IsrState.noConfusion hs, fun _ => h.enabled.mpr hne⟩,
      h.past, s.now, ?_, hvalue⟩, rfl⟩
    simp only [FanTach.samples, FanTach.period, hupdate, Bool.false_eq_true, if_false]
    rw [hseen, show periodEdges _ earlier = [] from hsamples, List.nil_append]
  | awaitingSecondSample =>
    rw [hstate] at hsamples
    obtain ⟨t, ht, hfirst⟩ := hsamples
    obtain ⟨hmem, hperiod⟩ := periodEdges_period (ht ▸ List.mem_singleton_self t)
    rw [isr_second h.overrun hupdate hflag hstate]
    refine ⟨⟨h.overrun, fun hset => absurd (hupdate.symm.trans hset) Bool.false_ne_true,
      fun hset => absurd hset Bool.false_ne_true,
      ⟨fun hset => absurd hset Bool.false_ne_true, fun hs => absurd rfl hs⟩, h.past, t, s.now, [], ?_, hearlier t hmem,
      hperiod, hfirst, hvalue⟩, rfl⟩
    simp only [FanTach.samples, FanTach.period, hupdate, Bool.false_eq_true, if_false]
    rw [hseen, ht]
    rfl
  | awaitingTimerExpiration => exact absurd hstate hne

theorem PromptInv.isr (h : PromptInv s) :
    PromptInv (fanTachometerIsr rpmOf s).2 ∧ ∀ speed ∈ (fanTachometerIsr rpmOf s).1, speed.OfPeriod rpmOf := by
  have hnone : ∀ speed ∈ ([] : List FanSpeed), speed.OfPeriod rpmOf := fun _ hspeed => absurd hspeed List.not_mem_nil
  cases hupdate : s.updateFlag with
  | true => exact h.update_isr hupdate
  | false =>
    cases hflag : s.ccFlag with
    | true =>
      have hnil : PromptInv (fanTachometerIsr rpmOf s).2 ∧ (fanTachometerIsr rpmOf s).1 = [] :=
        h.capture_isr hupdate hflag
      rw [hnil.2]
      exact ⟨hnil.1, hnone⟩
    | false =>
      rw [isr_nothing h.overrun hupdate hflag]
      exact ⟨h, hnone⟩

/-- Where the interrupt is prompt, each speed that is set is that of the period of the timer that has just ended: of its
first two edges, or 0 if it has fewer. -/
theorem fan_tach_period_speeds (rpmOf : UInt32 → UInt32) (now : Nat) (actions : List FanTachAction)
    (hprompt : Meets (fanTachStep rpmOf) FanTachAction.Prompt (.start now) actions) :
    ∀ speed ∈ events (fanTachStep rpmOf) (.start now) actions, speed.OfPeriod rpmOf := by
  have hrun := events_invariant
    (I := fun (tr : List FanSpeed) s => PromptInv s ∧ ∀ speed ∈ tr, speed.OfPeriod rpmOf)
    (fun tr s a h ha => by
      cases a with
      | tick => exact ⟨h.1.tick ha.1 ha.2, by simpa [fanTachStep] using h.2⟩
      | edge => exact ⟨h.1.edge ha.1 ha.2.1 ha.2.2, by simpa [edge_silent] using h.2⟩
      | isr =>
        have hisr : PromptInv (fanTachometerIsr rpmOf s).2 ∧
            ∀ speed ∈ (fanTachometerIsr rpmOf s).1, speed.OfPeriod rpmOf := h.1.isr
        exact ⟨hisr.1, List.forall_mem_append.mpr ⟨h.2, hisr.2⟩⟩)
    [] (.start now) actions ⟨.start now, fun _ hspeed => absurd hspeed List.not_mem_nil⟩ hprompt
  exact hrun.2

theorem fan_tach_period_speeds_two : FanSpeed.OfPeriod id ⟨1, 65536, [65534, 65533]⟩ :=
  fan_tach_period_speeds id 65533 [.edge, .isr, .tick, .edge, .isr, .tick, .tick, .isr] (by decide) _
    List.mem_cons_self

end OrbFirmware.Temperature

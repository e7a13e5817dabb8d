import OrbFirmware.Flash
import OrbFirmware.Machine

/-! The waits of `temperature_thread` between its rounds, whose length is what a round leaves of the sampling
period, and `temperature_set_sampling_period_ms`, which changes the period at any time. -/
namespace OrbFirmware.Temperature
open Machine

/-- The ticks of `K_FOREVER`. -/
def kForever : Int := -1

/-- `k_sleep` of the kernel: when a sleep of so many ticks, from tick `now` on, ends. Only `K_FOREVER` waits for
`k_wakeup`; the values below it are points of time. -/
structure KernelSleep where
  sleep : Int → Nat → Option Nat
  forever : ∀ ticks now, sleep ticks now = none ↔ ticks = kForever

/-- `K_MSEC`, with `CONFIG_SYS_CLOCK_TICKS_PER_SEC`. -/
def kMsec (ticksPerSec ms : Nat) : Int := ((ms*ticksPerSec+999)/1000 : Nat)

/-- `TEMPERATURE_AVERAGE_SAMPLE_COUNT`. -/
def averageSampleCount : Nat := 3

inductive SamplingPhase where
  | sampling (start : Nat)
  | computed (sleepDuration : Int)
  | asleep (wake : Option Nat)
  deriving DecidableEq

structure SamplingThread where
  now : Nat
  globalSamplePeriod : Int
  phase : SamplingPhase
  deriving DecidableEq

/-- Time passes, the thread goes on, or another one sets the period. -/
inductive SamplingInput where
  | passes (ticks : Nat)
  | goesOn
  | setSamplingPeriodMs (samplePeriod : UInt32)

def SamplingInput.External : SamplingInput → Prop
  | .setSamplingPeriodMs _ => True
  | _ => False

/-- `temperature_set_sampling_period_ms`; `k_wakeup` ends a sleep, a timed one or not. -/
def temperatureSetSamplingPeriodMs (ticksPerSec : Nat) (samplePeriod : UInt32) (s : SamplingThread) :
    RetCode × SamplingThread :=
  if samplePeriod < 100 ∨ 15000 < samplePeriod then (.invalidParam, s)
  else
    let globalSamplePeriod := kMsec ticksPerSec (samplePeriod.toNat/averageSampleCount)
    match s.phase with
    | .asleep _ => (.success, { s with globalSamplePeriod, phase := .sampling s.now })
    | _ => (.success, { s with globalSamplePeriod })

/-- `temperature_thread`: from a round to the wait behind it, to the sleep, to the next round. -/
def SamplingThread.goesOn (kernel : KernelSleep) (s : SamplingThread) : SamplingThread :=
  match s.phase with
  | .sampling start =>
    let elapsed : Int := s.now-start
    { s with phase := .computed (s.globalSamplePeriod-elapsed) }
  | .computed sleepDuration => { s with phase := .asleep (kernel.sleep sleepDuration s.now) }
  | .asleep none => s
  | .asleep (some wake) => if wake ≤ s.now then { s with phase := .sampling s.now } else s

def samplingStep (kernel : KernelSleep) (ticksPerSec : Nat) (s : SamplingThread) :
    SamplingInput → Option RetCode × SamplingThread
  | .passes ticks => (none, { s with now := s.now+ticks })
  | .goesOn => (none, s.goesOn kernel)
  | .setSamplingPeriodMs samplePeriod =>
    let (ret, s) := temperatureSetSamplingPeriodMs ticksPerSec samplePeriod s
    (some ret, s)

/-- The thread is started at tick `now`, with nothing elapsed. -/
def samplingStart (ticksPerSec now : Nat) : SamplingThread :=
  ⟨now, kMsec ticksPerSec (1000/averageSampleCount), .computed (kMsec ticksPerSec (1000/averageSampleCount)-0)⟩

/-- A round is on, or one starts without a call from outside. -/
def RoundStarts (kernel : KernelSleep) (ticksPerSec : Nat) (s : SamplingThread) : Prop :=
  ∃ inputs : List SamplingInput, (∀ input ∈ inputs, ¬input.External) ∧
    ∃ start, (run (samplingStep kernel ticksPerSec) s inputs).2.phase = .sampling start

/-- The round that ends, if one does, has not taken one tick more than the period in force. -/
def NotOverrunByOne (s : SamplingThread) : SamplingInput → Prop
  | .goesOn =>
    match s.phase with
    | .sampling start => (s.now : Int)-start ≠ s.globalSamplePeriod+1
    | _ => True
  | _ => True

/-- The wait before the next round, if there is one, has an end. -/
def WaitEnds : SamplingPhase → Prop
  | .sampling _ => True
  | .computed sleepDuration => sleepDuration ≠ kForever
  | .asleep wake => wake ≠ none

variable {kernel : KernelSleep} {ticksPerSec : Nat} {s : SamplingThread}

theorem kMsec_nonneg (ms : Nat) : 0 ≤ kMsec ticksPerSec ms := Int.natCast_nonneg _

theorem WaitEnds.start (now : Nat) : WaitEnds (samplingStart ticksPerSec now).phase := by
  have hnonneg : 0 ≤ kMsec ticksPerSec (1000/averageSampleCount) := kMsec_nonneg _
  simp only [samplingStart, WaitEnds, kForever]
  omega

theorem WaitEnds.step (h : WaitEnds s.phase) (input : SamplingInput) (hcond : NotOverrunByOne s input) :
    WaitEnds (samplingStep kernel ticksPerSec s input).2.phase := by
  cases input with
  | passes ticks => exact h
  | goesOn =>
    cases hphase : s.phase with
    | sampling start =>
      simp only [NotOverrunByOne, hphase] at hcond
      simp only [samplingStep, SamplingThread.goesOn, hphase, WaitEnds, kForever]
      omega
    | computed sleepDuration =>
      simp only [hphase, WaitEnds] at h
      simp only [samplingStep, SamplingThread.goesOn, hphase, WaitEnds]
      exact fun hnone => h ((kernel.forever _ _).mp hnone)
    | asleep wake =>
      rw [hphase] at h
      cases wake with
      | none => exact absurd rfl h
      | some wake =>
        simp only [samplingStep, SamplingThread.goesOn, hphase]
        split_ifs
        · trivial
        · rwa [hphase]
  | setSamplingPeriodMs samplePeriod =>
    simp only [samplingStep, temperatureSetSamplingPeriodMs]
    split_ifs
    · exact h
    · cases hphase : s.phase with
      | asleep wake => trivial
      | sampling start | computed sleepDuration =>
        rw [hphase] at h
        exact h

/-- Once the time of its end has come, a sleep is followed by a round. -/
theorem asleep_roundStarts {wake : Nat} (hphase : s.phase = .asleep (some wake)) : RoundStarts kernel ticksPerSec s := by
  refine ⟨[.passes wake, .goesOn], ?_, s.now+wake, ?_⟩
  · simp [SamplingInput.External]
  · simp [run, samplingStep, SamplingThread.goesOn, hphase]

theorem WaitEnds.roundStarts (h : WaitEnds s.phase) : RoundStarts kernel ticksPerSec s := by
  cases hphase : s.phase with
  | sampling start => exact ⟨[], List.forall_mem_nil _, start, hphase⟩
  | asleep wake =>
    rw [hphase] at h
    obtain ⟨wake, rfl⟩ := Option.ne_none_iff_exists'.mp h
    exact asleep_roundStarts hphase
  | computed sleepDuration =>
    rw [hphase] at h
    have hwake : kernel.sleep sleepDuration s.now ≠ none := fun hnone => h ((kernel.forever _ _).mp hnone)
    obtain ⟨wake, hwake⟩ := Option.ne_none_iff_exists'.mp hwake
    have hasleep : (s.goesOn kernel).phase = .asleep (some wake) := by
      simp only [SamplingThread.goesOn, hphase, hwake]
    have hnext : RoundStarts kernel ticksPerSec (s.goesOn kernel) := asleep_roundStarts hasleep
    obtain ⟨inputs, hinternal, start, hstart⟩ := hnext
    refine ⟨.goesOn :: inputs, ?_, start, hstart⟩
    exact List.forall_mem_cons.mpr ⟨id, hinternal⟩

/-- A wait without end lasts until somebody sets the period. -/
theorem waits_on (h : ¬WaitEnds s.phase) (inputs : List SamplingInput) (hinternal : ∀ input ∈ inputs, ¬input.External) :
    ¬WaitEnds (run (samplingStep kernel ticksPerSec) s inputs).2.phase := by
  induction inputs generalizing s with
  | nil => exact h
  | cons input inputs ih =>
    obtain ⟨hinput, hinputs⟩ := List.forall_mem_cons.mp hinternal
    refine ih ?_ hinputs
    cases input with
    | passes ticks => exact h
    | setSamplingPeriodMs samplePeriod => exact absurd trivial hinput
    | goesOn =>
      cases hphase : s.phase with
      | sampling start => simp [hphase, WaitEnds] at h
      | computed sleepDuration =>
        simp only [hphase, WaitEnds, not_not] at h
        simp only [SamplingThread.goesOn, hphase, WaitEnds, not_not]
        exact (kernel.forever _ _).mpr h
      | asleep wake =>
        simp only [hphase, WaitEnds, not_not] at h
        subst h
        simp only [SamplingThread.goesOn, hphase, WaitEnds, not_not]

theorem roundStarts_iff : RoundStarts kernel ticksPerSec s ↔ WaitEnds s.phase := by
  refine ⟨fun ⟨inputs, hinternal, start, hstart⟩ => ?_, WaitEnds.roundStarts⟩
  by_contra hwaits
  have hend : ¬WaitEnds (run (samplingStep kernel ticksPerSec) s inputs).2.phase := waits_on hwaits inputs hinternal
  rw [hstart] at hend
  exact hend trivial

/-- Rounds follow each other without end if and only if none overruns the period in force by exactly one tick. -/
theorem sampling_continues_iff (kernel : KernelSleep) (ticksPerSec now : Nat) (inputs : List SamplingInput) :
    (∀ pre, pre <+: inputs →
      RoundStarts kernel ticksPerSec (run (samplingStep kernel ticksPerSec) (samplingStart ticksPerSec now) pre).2) ↔
      Meets (samplingStep kernel ticksPerSec) NotOverrunByOne (samplingStart ticksPerSec now) inputs := by
  have hnot : ∀ s input, WaitEnds s.phase → ¬NotOverrunByOne s input →
      ¬RoundStarts kernel ticksPerSec (samplingStep kernel ticksPerSec s input).2 := by
    intro s input _ hcond
    rw [roundStarts_iff]
    cases input with
    | passes ticks | setSamplingPeriodMs samplePeriod => exact absurd trivial hcond
    | goesOn =>
      cases hphase : s.phase with
      | computed sleepDuration | asleep wake => simp [NotOverrunByOne, hphase] at hcond
      | sampling start =>
        simp only [NotOverrunByOne, hphase, ne_eq, not_not] at hcond
        simp only [samplingStep, SamplingThread.goesOn, hphase, WaitEnds, kForever]
        omega
  exact forall_prefix_iff (fun s h => WaitEnds.roundStarts h) (fun s input h hcond => h.step input hcond) hnot _ inputs
    (.start now)

/-- `k_sleep` as documented: a number of ticks, `K_FOREVER`, or, below it, a point of time. -/
def documentedSleep : KernelSleep where
  sleep ticks now :=
    if ticks = kForever then none
    else some (if 0 ≤ ticks then now+ticks.toNat else max (now+1) (kForever-1-ticks).toNat)
  forever := by
    intro ticks now
    by_cases hforever : ticks = kForever <;> simp [hforever]

/-- A round of 3331 ticks in a period of 3330 is the last one. -/
theorem sampling_stops : ¬∀ (kernel : KernelSleep) (ticksPerSec now : Nat) (inputs : List SamplingInput),
    ∀ pre, pre <+: inputs →
      RoundStarts kernel ticksPerSec
        (run (samplingStep kernel ticksPerSec) (samplingStart ticksPerSec now) pre).2 := by
  intro h
  let inputs : List SamplingInput := [.goesOn, .passes 3330, .goesOn, .passes 3331, .goesOn]
  have hlast := roundStarts_iff.mp (h documentedSleep 10000 0 inputs inputs List.prefix_rfl)
  have hphase : (run (samplingStep documentedSleep 10000) (samplingStart 10000 0) inputs).2.phase =
      .computed kForever := by decide
  rw [hphase] at hlast
  exact hlast rfl

end OrbFirmware.Temperature

import OrbFirmware.DelayableWork
import OrbFirmware.Flash
import OrbFirmware.Machine

/-! `power_cycle_supply` of `boot.c`: a supply line that is switched off for a while, and the work item that switches it on
again. -/
namespace OrbFirmware.Boot
open Machine

/-- Also the lines that the function doesn't know. -/
inductive PowerCycleLine where
  | wifi3v3
  | lte3v3
  | sdSsd3v3
  | heatCamera2v8
  | other (line : Nat)
  deriving DecidableEq

/-- The lines that a build can power cycle (`debug` is `CONFIG_DEBUG`), or what it returns for a line. -/
def powerCycleLine (board : Board) (debug : Bool) : PowerCycleLine → RetCode
  | .wifi3v3 | .sdSsd3v3 => if debug then .success else .forbidden
  | .lte3v3 => if debug || board = .diamond then .success else .forbidden
  | .heatCamera2v8 => if board = .diamond then .success else .notFound
  | .other _ => .forbidden

/-- The lines and their work; the runner in between the switch-off of a line and the `k_work_schedule`; and for how long a
line has been off. -/
structure PowerCycles where
  on : PowerCycleLine → Bool
  work : PowerCycleLine → DelayableWork
  runner : Option (PowerCycleLine × UInt32 × Bool)
  offMs : PowerCycleLine → Nat

/-- The runner calls, the pin being configured or not, and schedules the work; the system work queue takes a work item up;
its handler configures the pin, or fails, and returns; or time passes. -/
inductive PowerCycleAction where
  | call (line : PowerCycleLine) (durationOffMs : UInt32) (configured : Bool)
  | schedule
  | take (line : PowerCycleLine)
  | handle (line : PowerCycleLine) (configured : Bool)
  | tick (ms : Nat)

/-- What the call returns: of its own, or from the pin. -/
inductive PowerCycleRet where
  | code (ret : RetCode)
  | pin (configured : Bool)

def powerCycleDelay (durationOffMs : UInt32) : Nat := if durationOffMs ≠ 0 then durationOffMs.toNat else 3000

def powerCycleStep (board : Board) (debug : Bool) (s : PowerCycles) :
    PowerCycleAction → List PowerCycleRet × PowerCycles
  | .call line durationOffMs configured =>
    if s.runner.isSome then ([], s)
    else if 60000 < durationOffMs then ([.code .invalidParam], s)
    else if powerCycleLine board debug line = .success then
      ([], { s with
        on := if configured then Function.update s.on line false else s.on
        runner := some (line, durationOffMs, configured)
        offMs := if s.on line then Function.update s.offMs line 0 else s.offMs })
    else ([.code (powerCycleLine board debug line)], s)
  | .schedule =>
    match s.runner with
    | some (line, durationOffMs, configured) =>
      ([.pin configured], { s with
        work := Function.update s.work line ((s.work line).schedule (powerCycleDelay durationOffMs))
        runner := none })
    | none => ([], s)
  | .take line => ([], { s with work := Function.update s.work line (s.work line).take })
  | .handle line configured =>
    if (s.work line).running then
      ([], { s with
        on := if configured then Function.update s.on line true else s.on
        work := Function.update s.work line (s.work line).finish })
    else ([], s)
  | .tick ms =>
    ([], { s with
      work := fun line => (s.work line).pass ms
      offMs := fun line => if s.on line then s.offMs line else s.offMs line + ms })

def PowerCycles.initial : PowerCycles := ⟨fun _ => true, fun _ => .idle, none, fun _ => 0⟩

/-- A handler finds its pin; and time passes only once the runner and the work queue have done what is due. -/
def PowerCycleAction.Timely (s : PowerCycles) : PowerCycleAction → Prop
  | .handle _ configured => configured = true
  | .tick ms => s.runner = none ∧ ∀ line, (s.work line).Quiet ms
  | _ => True

/-! A line is on, or it will be in time. -/

/-- What is known of a line. -/
structure LineInv (board : Board) (debug : Bool) (s : PowerCycles) (line : PowerCycleLine) : Prop where
  known : powerCycleLine board debug line ≠ .success → s.on line = true
  within : (s.work line).Within 60000
  off : s.on line = false → s.offMs line ≤ 60000 ∧
    ((s.work line).DueWithin (60000 - s.offMs line) ∨ s.offMs line = 0 ∧ s.runner.map Prod.fst = some line)

structure CyclesInv (board : Board) (debug : Bool) (s : PowerCycles) : Prop where
  lines : ∀ line, LineInv board debug s line
  delay : ∀ call ∈ s.runner, powerCycleDelay call.2.1 ≤ 60000

variable {board : Board} {debug : Bool} {s : PowerCycles} {line : PowerCycleLine} {durationOffMs : UInt32}
  {configured : Bool} {ms : Nat}

theorem CyclesInv.initial : CyclesInv board debug .initial where
  lines := fun _ => ⟨fun _ => rfl, DelayableWork.within_idle, fun h => absurd h (by simp [PowerCycles.initial])⟩
  delay := fun _ hcall => absurd hcall (by simp [PowerCycles.initial])

theorem powerCycleDelay_le (h : ¬60000 < durationOffMs) : powerCycleDelay durationOffMs ≤ 60000 := by
  rw [powerCycleDelay]
  split
  · exact Nat.le_of_not_lt fun hlt => h (UInt32.lt_iff_toNat_lt.mpr hlt)
  · omega

theorem CyclesInv.call (h : CyclesInv board debug s) :
    CyclesInv board debug (powerCycleStep board debug s (.call line durationOffMs configured)).2 := by
  rw [powerCycleStep]
  split
  case isTrue => exact h
  case isFalse hrunner =>
    have hnone : s.runner = none := by simpa using hrunner
    split
    case isTrue => exact h
    case isFalse hlong =>
      split
      case isFalse => exact h
      case isTrue hline =>
        refine ⟨fun other => ?_, fun call hcall => ?_⟩
        · obtain ⟨hknown, hwithin, hoff⟩ := h.lines other
          by_cases hother : other = line
          · subst hother
            refine ⟨fun hunknown => absurd hline hunknown, hwithin, fun _ => ?_⟩
            cases hon : s.on other with
            | true => simp
            | false =>
              obtain ⟨hle, hdue | ⟨_, hcaller⟩⟩ := hoff hon
              · simpa using ⟨hle, .inl hdue⟩
              · exact absurd hcaller (by simp [hnone])
          · have hon : (if configured then Function.update s.on line false else s.on) other = s.on other := by
              split
              · exact Function.update_of_ne hother _ _
              · rfl
            have hms : (if s.on line then Function.update s.offMs line 0 else s.offMs) other = s.offMs other := by
              split
              · exact Function.update_of_ne hother _ _
              · rfl
            refine ⟨fun hunknown => hon.trans (hknown hunknown), hwithin, fun hoff' => ?_⟩
            obtain ⟨hle, hdue | ⟨_, hcaller⟩⟩ := hoff (hon.symm.trans hoff')
            · simpa only [hms] using ⟨hle, .inl hdue⟩
            · exact absurd hcaller (by simp [hnone])
        · obtain rfl := Option.mem_some.mp hcall
          exact powerCycleDelay_le hlong

theorem CyclesInv.schedule (h : CyclesInv board debug s) :
    CyclesInv board debug (powerCycleStep board debug s .schedule).2 := by
  simp only [powerCycleStep]
  cases hrunner : s.runner with
  | none => exact h
  | some call =>
    obtain ⟨line, durationOffMs, configured⟩ := call
    have hdelay := h.delay _ hrunner
    refine ⟨fun other => ?_, fun call hcall => absurd hcall (by simp)⟩
    obtain ⟨hknown, hwithin, hoff⟩ := h.lines other
    by_cases hother : other = line
    · subst hother
      refine ⟨hknown, ?_, fun hoff' => ?_⟩
      · simpa using hwithin.schedule hdelay
      · obtain ⟨hle, hdue | ⟨hms, _⟩⟩ := hoff hoff'
        · simpa using ⟨hle, hdue.schedule⟩
        · simpa [hms] using hwithin.due_schedule hdelay
    · refine ⟨hknown, ?_, fun hoff' => ?_⟩
      · simpa [hother] using hwithin
      · obtain ⟨hle, hdue | ⟨_, hcaller⟩⟩ := hoff hoff'
        · simpa [hother] using ⟨hle, hdue⟩
        · rw [hrunner, Option.map_some] at hcaller
          exact absurd (Option.some.inj hcaller).symm hother

theorem CyclesInv.take (h : CyclesInv board debug s) :
    CyclesInv board debug (powerCycleStep board debug s (.take line)).2 := by
  rw [powerCycleStep]
  refine ⟨fun other => ?_, h.delay⟩
  obtain ⟨hknown, hwithin, hoff⟩ := h.lines other
  by_cases hother : other = line
  · subst hother
    refine ⟨hknown, ?_, fun hoff' => ?_⟩
    · simpa using hwithin.take
    · obtain ⟨hle, hdue | hcaller⟩ := hoff hoff'
      · simpa using ⟨hle, .inl hdue.take⟩
      · exact ⟨hle, .inr hcaller⟩
  · refine ⟨hknown, ?_, fun hoff' => ?_⟩
    · simpa [hother] using hwithin
    · simpa [hother] using hoff hoff'

theorem CyclesInv.handle (h : CyclesInv board debug s) :
    CyclesInv board debug (powerCycleStep board debug s (.handle line true)).2 := by
  rw [powerCycleStep]
  split
  case isFalse => exact h
  case isTrue =>
    refine ⟨fun other => ?_, h.delay⟩
    obtain ⟨hknown, hwithin, hoff⟩ := h.lines other
    by_cases hother : other = line
    · subst hother
      refine ⟨fun _ => by simp, ?_, fun hoff' => absurd hoff' (by simp)⟩
      simpa using hwithin.finish
    · refine ⟨fun hunknown => ?_, ?_, fun hoff' => ?_⟩
      · simpa [hother] using hknown hunknown
      · simpa [hother] using hwithin
      · simpa [hother] using hoff (by simpa [hother] using hoff')

theorem CyclesInv.tick (h : CyclesInv board debug s) (hrunner : s.runner = none)
    (hquiet : ∀ line, (s.work line).Quiet ms) :
    CyclesInv board debug (powerCycleStep board debug s (.tick ms)).2 := by
  rw [powerCycleStep]
  refine ⟨fun line => ?_, h.delay⟩
  obtain ⟨hknown, hwithin, hoff⟩ := h.lines line
  refine ⟨hknown, hwithin.pass, fun hoff' => ?_⟩
  have hon : s.on line = false := hoff'
  obtain ⟨hle, hdue | ⟨_, hcaller⟩⟩ := hoff hon
  · obtain ⟨hms, hpass⟩ := hdue.pass (hquiet line)
    have hleft : 60000 - s.offMs line - ms = 60000 - (s.offMs line + ms) := by omega
    dsimp only
    rw [if_neg (by simp [hon])]
    exact ⟨by omega, .inl (hleft ▸ hpass)⟩
  · exact absurd hcaller (by simp [hrunner])

/-- Whatever calls come in, whenever the work queue gets to the work items, and however the two interleave: no line is off
for more than a minute, as long as the pins can be configured; and a line that the build doesn't know is never off. -/
theorem power_cycle_comes_back (board : Board) (debug : Bool) (actions : List PowerCycleAction)
    (htimely : Meets (powerCycleStep board debug) PowerCycleAction.Timely .initial actions) (line : PowerCycleLine) :
    let s := (run (powerCycleStep board debug) .initial actions).2
    s.on line = false →
      powerCycleLine board debug line = .success ∧ s.offMs line ≤ 60000 ∧
        ((s.work line).DueWithin (60000 - s.offMs line) ∨ s.offMs line = 0 ∧ s.runner.map Prod.fst = some line) := by
  have hstep (s : PowerCycles) (a : PowerCycleAction) (h : CyclesInv board debug s) (ha : a.Timely s) :
      CyclesInv board debug (powerCycleStep board debug s a).2 := by
    cases a with
    | call line durationOffMs configured => exact h.call
    | schedule => exact h.schedule
    | take line => exact h.take
    | handle line configured =>
      obtain rfl : configured = true := ha
      exact h.handle
    | tick ms => exact h.tick ha.1 ha.2
  have hinv := (meets_invariant (I := CyclesInv board debug) hstep .initial actions .initial htimely).lines line
  intro s hoff
  refine ⟨?_, hinv.off hoff⟩
  by_contra hunknown
  exact absurd (hinv.known hunknown) (by rw [hoff]; exact Bool.false_ne_true)

/-- The LTE supply of a Diamond, 200 ms into a power cycle of 500 ms. -/
theorem power_cycle_comes_back_lte :
    let s := (run (powerCycleStep .diamond false) .initial [.call .lte3v3 500 true, .schedule, .tick 200]).2
    (s.work .lte3v3).DueWithin (60000 - 200) ∨ s.runner.map Prod.fst = some .lte3v3 := by
  have hquiet (line : PowerCycleLine) : (Function.update (fun _ : PowerCycleLine => DelayableWork.idle) .lte3v3
      ⟨some 500, false, false⟩ line).Quiet 200 := by
    by_cases hline : line = .lte3v3
    · subst hline
      decide
    · rw [Function.update_of_ne hline]
      decide
  obtain ⟨-, -, hdue⟩ := power_cycle_comes_back .diamond false [.call .lte3v3 500 true, .schedule, .tick 200]
    ⟨trivial, trivial, ⟨rfl, hquiet⟩, trivial⟩ .lte3v3 rfl
  exact hdue.imp_right And.right

end OrbFirmware.Boot

import Mathlib.Data.List.Induction
import OrbFirmware.Machine
import OrbFirmware.WorkQueue

/-! The power button: its interrupt submits an item for each state to the system work queue, whose handlers publish. -/
namespace OrbFirmware.Ui
open OrbFirmware.Machine

/-- The items of the system work queue; `other` are those of other modules. -/
inductive Work where
  | buttonPressedWork
  | buttonReleasedWork
  | buttonLongPressWork
  | other (n : Nat)
  deriving DecidableEq

/-- The interrupt of the last edges is not handled yet if `interrupt`; `longPress` says that
`button_long_press_work` waits for its time. -/
structure Button where
  pressed : Bool
  interrupt : Bool
  longPress : Bool
  queue : WorkQueue Work

/-- 1 for the pressed button and 0 for the released one, or `-EIO`. -/
def gpioPinGetDt (pressed error : Bool) : Int := if error then -5 else if pressed then 1 else 0

def buttonReleased : Bool := false

def buttonPressed : Bool := true

/-- The state that the handler of an item publishes. The one of a long press restarts the system or does nothing. -/
def Work.publishes : Work → Option Bool
  | .buttonPressedWork => some buttonPressed
  | .buttonReleasedWork => some buttonReleased
  | .buttonLongPressWork => none
  | .other _ => none

def Button.submit (s : Button) (work : Work) : Button := { s with queue := s.queue.submit work }

/-- `k_work_schedule`, which does nothing while the item waits for its time or is queued. -/
def Button.scheduleLongPress (s : Button) : Button :=
  { s with longPress := s.longPress || !s.queue.pending.contains .buttonLongPressWork }

def Button.cancelLongPress (s : Button) : Button :=
  { s with longPress := false, queue := s.queue.cancel .buttonLongPressWork }

def buttonEventHandler (diamond error : Bool) (s : Button) : Button :=
  let ret := gpioPinGetDt s.pressed error
  if ret = 1 then
    let s := s.submit .buttonPressedWork
    if diamond then s.scheduleLongPress else s
  else if ret = 0 then
    let s := s.submit .buttonReleasedWork
    if diamond then s.cancelLongPress else s
  else s

/-- An edge of the button; its interrupt, whose read of the pin may fail; the end of the time of a long press; an item
submitted by another module; the thread of the queue takes an item, or the handler that runs publishes and ends. -/
inductive ButtonAction where
  | edge
  | interrupt (error : Bool)
  | expire
  | submit (n : Nat)
  | take
  | finish
  deriving DecidableEq

/-- What is published in a step, and the state after it. -/
def buttonStep (diamond : Bool) (s : Button) : ButtonAction → List Bool × Button
  | .edge => ([], { s with pressed := !s.pressed, interrupt := true })
  | .interrupt error =>
    ([], if s.interrupt then buttonEventHandler diamond error { s with interrupt := false } else s)
  | .expire => ([], if s.longPress then { s with longPress := false }.submit .buttonLongPressWork else s)
  | .submit n => ([], s.submit (.other n))
  | .take => ([], { s with queue := s.queue.take })
  | .finish => (s.queue.running.toList.filterMap Work.publishes, { s with queue := s.queue.finish })

def buttonInit (pressed : Bool) : Button := ⟨pressed, false, false, .empty⟩

/-- The item that the interrupt submits for a state. -/
def workOf (pressed : Bool) : Work := if pressed then .buttonPressedWork else .buttonReleasedWork

/-- The states published and those that the handlers of the queue are going to publish. -/
def states (published : List Bool) (s : Button) : List Bool := published ++ s.queue.items.filterMap Work.publishes

/-- The interrupt submits an item that was not queued; or the state that comes last already is the one of the button. -/
def Settles (published : List Bool) (error : Bool) (s : Button) : Prop :=
  (error = false ∧ workOf s.pressed ∉ s.queue.pending) ∨ (states published s).getLast? = some s.pressed

instance (published : List Bool) (error : Bool) (s : Button) : Decidable (Settles published error s) :=
  inferInstanceAs (Decidable (_ ∨ _))

variable {diamond : Bool} {s : Button} {published : List Bool}

theorem publishes_workOf (pressed : Bool) : (workOf pressed).publishes = some pressed := by
  cases pressed <;> rfl

theorem states_submit_other (work : Work) (h : work.publishes = none) :
    states published (s.submit work) = states published s := by
  rw [states, states, Button.submit, WorkQueue.filterMap_submit h]

/-- An item that was not queued adds its state; one that was adds nothing. -/
theorem states_submit (pressed : Bool) :
    states published (s.submit (workOf pressed)) =
      states published s ++ if workOf pressed ∈ s.queue.pending then [] else [pressed] := by
  unfold states Button.submit
  by_cases hmem : workOf pressed ∈ s.queue.pending
  · rw [WorkQueue.submit_of_mem hmem, if_pos hmem, List.append_nil]
  · rw [WorkQueue.items_submit hmem, if_neg hmem, List.filterMap_append,
      List.filterMap_cons_some (publishes_workOf pressed), List.filterMap_nil, List.append_assoc]

theorem states_cancelLongPress : states published s.cancelLongPress = states published s := by
  rw [states, states, Button.cancelLongPress, WorkQueue.filterMap_cancel rfl]

/-- What an interrupt that reads the pin does to the queue. -/
theorem states_buttonEventHandler (error : Bool) :
    states published (buttonEventHandler diamond error s) =
      states published s ++ if error = true ∨ workOf s.pressed ∈ s.queue.pending then [] else [s.pressed] := by
  cases error with
  | true => exact (List.append_nil _).symm
  | false =>
    simp only [Bool.false_eq_true, false_or]
    rw [← states_submit]
    cases hpressed : s.pressed <;> cases diamond <;> simp only [buttonEventHandler, gpioPinGetDt, hpressed]
    · rfl
    · exact states_cancelLongPress
    · rfl
    · rfl

/-- The interrupt changes neither the button nor whether another interrupt waits. -/
theorem buttonEventHandler_frame (diamond error : Bool) (s : Button) :
    (buttonEventHandler diamond error s).pressed = s.pressed ∧
      (buttonEventHandler diamond error s).interrupt = s.interrupt := by
  obtain ⟨pressed, interrupt, longPress, queue⟩ := s
  cases error <;> cases pressed <;> cases diamond <;> exact ⟨rfl, rfl⟩

/-- After the last interrupt the states, the button and its interrupt stay as they are. -/
structure Still (pressed : Bool) (all : List Bool) (published : List Bool) (s : Button) : Prop where
  pressed : s.pressed = pressed
  interrupt : s.interrupt = false
  states : states published s = all

theorem Still.step {pressed : Bool} {all : List Bool} (h : Still pressed all published s) (a : ButtonAction)
    (ha : a ≠ .edge) : Still pressed all (published ++ (buttonStep diamond s a).1) (buttonStep diamond s a).2 := by
  cases a with
  | edge => contradiction
  | interrupt error =>
    have hstep : buttonStep diamond s (.interrupt error) = ([], s) := by
      simp only [buttonStep, h.interrupt, Bool.false_eq_true, if_false]
    rwa [hstep, List.append_nil]
  | expire =>
    rw [buttonStep, List.append_nil]
    split_ifs
    · exact ⟨h.pressed, h.interrupt, (states_submit_other .buttonLongPressWork rfl).trans h.states⟩
    · exact h
  | submit n =>
    rw [buttonStep, List.append_nil]
    exact ⟨h.pressed, h.interrupt, (states_submit_other (.other n) rfl).trans h.states⟩
  | take =>
    refine ⟨h.pressed, h.interrupt, ?_⟩
    rw [← h.states]
    simp only [buttonStep, Ui.states, List.append_nil, WorkQueue.items_take]
  | finish =>
    refine ⟨h.pressed, h.interrupt, ?_⟩
    rw [← h.states]
    simp only [buttonStep, Ui.states, List.append_assoc]
    rw [← List.filterMap_append, ← WorkQueue.items_finish]

/-- With an edge in it, a run that ends with its interrupts handled has a last one. -/
theorem last_interrupt (actions : List ButtonAction) (hedge : ButtonAction.edge ∈ actions)
    (hhandled : (run (buttonStep diamond) s actions).2.interrupt = false) :
    ∃ pre error rest, actions = pre ++ .interrupt error :: rest ∧ .edge ∉ rest ∧
      (run (buttonStep diamond) s pre).2.interrupt = true := by
  induction actions using List.reverseRecOn with
  | nil => contradiction
  | append_singleton actions a ih =>
    rw [run_append] at hhandled
    have ha : a ≠ .edge := by
      rintro rfl
      exact absurd hhandled (by simp [run, buttonStep])
    cases hflag : (run (buttonStep diamond) s actions).2.interrupt with
    | false =>
      have hmem : ButtonAction.edge ∈ actions := by
        rcases List.mem_append.mp hedge with hmem | hlast
        · exact hmem
        · exact absurd (List.mem_singleton.mp hlast).symm ha
      obtain ⟨pre, error, rest, rfl, hrest, hpre⟩ := ih hmem hflag
      refine ⟨pre, error, rest ++ [a], by simp only [List.append_assoc, List.cons_append], ?_, hpre⟩
      simpa only [List.mem_append, List.mem_singleton, not_or] using ⟨hrest, ha.symm⟩
    | true =>
      -- only the interrupt itself clears the flag
      cases a with
      | edge => contradiction
      | interrupt error => exact ⟨actions, error, [], rfl, List.not_mem_nil, hflag⟩
      | expire =>
        simp only [run, buttonStep, Button.submit] at hhandled
        split_ifs at hhandled <;> exact absurd (hflag.symm.trans hhandled) (by decide)
      | submit n => exact absurd (hflag.symm.trans hhandled) (by decide)
      | take => exact absurd (hflag.symm.trans hhandled) (by decide)
      | finish => exact absurd (hflag.symm.trans hhandled) (by decide)

theorem Still.run {pressed : Bool} {all : List Bool} (h : Still pressed all published s) (diamond : Bool)
    (actions : List ButtonAction) (hrest : ButtonAction.edge ∉ actions) :
    Still pressed all (published ++ events (buttonStep diamond) s actions)
      (Machine.run (buttonStep diamond) s actions).2 := by
  induction actions generalizing published s with
  | nil => simpa [events, Machine.run] using h
  | cons a actions ih =>
    rw [List.mem_cons, not_or] at hrest
    rw [events_cons, ← List.append_assoc]
    exact ih (h.step a (Ne.symm hrest.1)) hrest.2

/-- What an interrupt leaves. -/
theorem still_interrupt (diamond error : Bool) (published : List Bool) (hflag : s.interrupt = true) :
    Still s.pressed
      (states published s ++ if error = true ∨ workOf s.pressed ∈ s.queue.pending then [] else [s.pressed])
      (published ++ (buttonStep diamond s (.interrupt error)).1) (buttonStep diamond s (.interrupt error)).2 := by
  have hframe := buttonEventHandler_frame diamond error { s with interrupt := false }
  rw [buttonStep, if_pos hflag, List.append_nil]
  exact ⟨hframe.1, hframe.2, states_buttonEventHandler error⟩

theorem settles_iff (error : Bool) : Settles published error s ↔
    (states published s ++ if error = true ∨ workOf s.pressed ∈ s.queue.pending then [] else [s.pressed]).getLast? =
      some s.pressed := by
  unfold Settles
  by_cases hadds : error = true ∨ workOf s.pressed ∈ s.queue.pending
  · rw [if_pos hadds, List.append_nil, or_iff_right]
    rintro ⟨herror, hmem⟩
    exact hadds.elim (fun h => absurd (h.symm.trans herror) (by decide)) hmem
  · rw [if_neg hadds, List.getLast?_concat]
    have hread : error = false ∧ workOf s.pressed ∉ s.queue.pending := by
      simpa only [not_or, Bool.not_eq_true] using hadds
    exact iff_of_true (.inl hread) rfl

/-- Once the edges have been handled and the queue is drained, the state published last is the one of the button if and
only if the last interrupt settles it. -/
theorem last_state_published (diamond pressed : Bool) (actions : List ButtonAction)
    (hedge : ButtonAction.edge ∈ actions)
    (hhandled : (run (buttonStep diamond) (buttonInit pressed) actions).2.interrupt = false)
    (hdrained : (run (buttonStep diamond) (buttonInit pressed) actions).2.queue.Drained) :
    (events (buttonStep diamond) (buttonInit pressed) actions).getLast? =
        some (run (buttonStep diamond) (buttonInit pressed) actions).2.pressed ↔
      ∃ pre error rest, actions = pre ++ .interrupt error :: rest ∧ .edge ∉ rest ∧
        (run (buttonStep diamond) (buttonInit pressed) pre).2.interrupt = true ∧
        Settles (events (buttonStep diamond) (buttonInit pressed) pre) error
          (run (buttonStep diamond) (buttonInit pressed) pre).2 := by
  have hlast : ∀ pre error rest, actions = pre ++ .interrupt error :: rest → .edge ∉ rest →
      (run (buttonStep diamond) (buttonInit pressed) pre).2.interrupt = true →
      ((events (buttonStep diamond) (buttonInit pressed) actions).getLast? =
          some (run (buttonStep diamond) (buttonInit pressed) actions).2.pressed ↔
        Settles (events (buttonStep diamond) (buttonInit pressed) pre) error
          (run (buttonStep diamond) (buttonInit pressed) pre).2) := by
    rintro pre error rest rfl hrest hflag
    have hinterrupt := still_interrupt diamond error (events (buttonStep diamond) (buttonInit pressed) pre) hflag
    have hstill := hinterrupt.run diamond rest hrest
    rw [← run_cons, ← run_append, List.append_assoc, ← events_cons, ← events_append] at hstill
    have hstates := hstill.states
    rw [states, WorkQueue.items_drained hdrained, List.filterMap_nil, List.append_nil] at hstates
    rw [settles_iff, hstates, hstill.pressed]
  constructor
  · intro hpublished
    obtain ⟨pre, error, rest, hsplit, hrest, hflag⟩ := last_interrupt actions hedge hhandled
    exact ⟨pre, error, rest, hsplit, hrest, hflag, (hlast pre error rest hsplit hrest hflag).mp hpublished⟩
  · rintro ⟨pre, error, rest, hsplit, hrest, hflag, hsettles⟩
    exact (hlast pre error rest hsplit hrest hflag).mpr hsettles

/-- A press and its release while the handler of another module runs. -/
def pressRelease : List ButtonAction :=
  [.submit 0, .take, .edge, .interrupt false, .edge, .interrupt false, .finish, .take, .finish, .take, .finish]

theorem last_state_published_released :
    (events (buttonStep false) (buttonInit false) pressRelease).getLast? = some false ↔
      ∃ pre error rest, pressRelease = pre ++ .interrupt error :: rest ∧ .edge ∉ rest ∧
        (run (buttonStep false) (buttonInit false) pre).2.interrupt = true ∧
        Settles (events (buttonStep false) (buttonInit false) pre) error
          (run (buttonStep false) (buttonInit false) pre).2 :=
  last_state_published false false pressRelease (by decide) (by decide) (by decide)

/-- A second press before the handler ends, so that the release is published after it. -/
def pressReleasePress : List ButtonAction :=
  [.submit 0, .take, .edge, .interrupt false, .edge, .interrupt false, .edge, .interrupt false,
    .finish, .take, .finish, .take, .finish]

theorem second_press_lost : ¬∀ diamond pressed actions, ButtonAction.edge ∈ actions →
    (run (buttonStep diamond) (buttonInit pressed) actions).2.interrupt = false →
    (run (buttonStep diamond) (buttonInit pressed) actions).2.queue.Drained →
    (events (buttonStep diamond) (buttonInit pressed) actions).getLast? =
      some (run (buttonStep diamond) (buttonInit pressed) actions).2.pressed := by
  intro h
  exact absurd (h false false pressReleasePress (by decide) (by decide) (by decide)) (by decide)

end OrbFirmware.Ui

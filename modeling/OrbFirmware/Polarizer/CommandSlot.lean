import OrbFirmware.Polarizer.Commands
import Mathlib.Data.List.Infix

/-! What becomes of the commands that calls have queued: each is executed once and as it is, as long as a call
finds the slot free and the wheel is ready for the command when its thread turns to it. -/
namespace OrbFirmware.Polarizer
variable {ι : Type*}

/-- The commands given to the thread, with who called. -/
def postedCommands (tr : List (CommandEvent ι)) : List (ι × Command) :=
  tr.filterMap fun
    | .posted i command => some (i, command)
    | _ => none

/-- Without the homings that the thread queues for itself. -/
def executedCommands (tr : List (CommandEvent ι)) : List (ι × Command) :=
  tr.filterMap fun
    | .executed (some i) command => some (i, command)
    | _ => none

def succeededCommands (tr : List (CommandEvent ι)) : List (ι × Command) :=
  tr.filterMap fun
    | .returned i command .success => some (i, command)
    | _ => none

def commandsOf [DecidableEq ι] (i : ι) (l : List (ι × Command)) : List Command :=
  (l.filter (·.1 = i)).map (·.2)

/-- The command of a call that is about to return a success. -/
def CallerPc.succeeding : CallerPc → List Command
  | .unlock command .success => [command]
  | _ => []

/-- What is asked in a state reached by the events `tr`: the thread executes what the calls that succeed have
posted, once and in order, all of it before it waits, and drops nothing of it. -/
structure NoneLost [DecidableEq ι] (tr : List (CommandEvent ι)) (s : Commands ι) : Prop where
  succeeded : ∀ i, commandsOf i (postedCommands tr) =
    commandsOf i (succeededCommands tr) ++ (s.callers i).succeeding
  executed : executedCommands tr <+: postedCommands tr
  waits : s.thread = .loop → s.cmdSem = false → executedCommands tr = postedCommands tr
  dropped : ∀ i command, .dropped (some i) command ∉ tr

/-- From reading the command in the slot to executing it. -/
def WheelPc.taking : WheelPc ι → Bool
  | .readType | .clearType _ _ | .readFrequency _ | .readAngle _ _ | .readPath _ _ _ | .execute _ _ => true
  | _ => false

/-- No command is in the slot, and none on its way from the slot to its execution. -/
def Commands.SlotFree (s : Commands ι) : Prop := s.pendingCmd = .none ∧ s.thread.taking = false

/-- In the state `state` the command is executed, and left alone until then. -/
def Ready (cmd : Cmd) (state : WheelState) (s : Commands ι) : Prop :=
  match cmd with
  | .none => True
  | .home => state ≠ .positioningWithEncoder
  | .setAngle => state = .idle
  | .calibrate => state = .idle ∧ s.homingSuccess = true ∧ getCurrentPosition s.current = .passThrough

instance (s : Commands ι) : Decidable s.SlotFree := inferInstanceAs (Decidable (_ ∧ _))

instance (cmd : Cmd) (state : WheelState) (s : Commands ι) : Decidable (Ready cmd state s) :=
  match cmd with
  | .none => isTrue trivial
  | .home => inferInstanceAs (Decidable (_ ≠ _))
  | .setAngle => inferInstanceAs (Decidable (_ = _))
  | .calibrate => inferInstanceAs (Decidable (_ ∧ _))

/-- In `execute_set_angle`, where the wheel begins to spin before the state says so. -/
def WheelPc.spins : WheelPc ι → Bool
  | .moving _ => true
  | _ => false

/-- A call that begins to write the slot finds it free, and the wheel ready if the thread is not busy. -/
def CallerPc.Orderly (s : Commands ι) : CallerPc → Prop
  | .store _ (.type cmd :: _) => s.SlotFree ∧ (s.thread = .loop → Ready cmd s.state s)
  | _ => True

/-- Where a move begins, or a homing or a calibration fails, the wheel is ready for the command in the slot. -/
def WheelPc.Orderly (ok : Bool) (s : Commands ι) : WheelPc ι → Prop
  | .moving next => Ready s.pendingCmd (if ok then next else .idle) s
  | .homing => ok = false → Ready s.pendingCmd .uninitialized s
  | .calibrating => ok = false → Ready s.pendingCmd .idle s
  | _ => True

/-- The step loses no command; and the wheel stands still while it is idle. -/
def Orderly (s : Commands ι) : CommandAction ι → Prop
  | .run i _ => (s.callers i).Orderly s
  | .thread ok => s.thread.Orderly ok s
  | .steps _ => s.state = .idle → s.thread.spins = true
  | .call _ _ _ | .stepEvent _ => True

instance [DecidableEq ι] (s : Commands ι) (pc : CallerPc) : Decidable (pc.Orderly s) :=
  match pc with
  | .store _ (.type _ :: _) => inferInstanceAs (Decidable (_ ∧ (_ → _)))
  | .store _ [] | .store _ (.frequency _ :: _) | .store _ (.angleDecidegrees _ :: _)
  | .store _ (.shortestPath _ :: _) | .store _ (.homingSuccess _ :: _) => isTrue trivial
  | .idle | .lock _ | .check _ | .unlock _ _ => isTrue trivial

instance (ok : Bool) (s : Commands ι) (pc : WheelPc ι) : Decidable (pc.Orderly ok s) :=
  match pc with
  | .moving next => inferInstanceAs (Decidable (Ready s.pendingCmd (if ok then next else .idle) s))
  | .homing | .calibrating => inferInstanceAs (Decidable (_ → _))
  | .loop | .take | .readType | .clearType _ _ | .readFrequency _ | .readAngle _ _ | .readPath _ _ _
  | .execute _ _ | .recover | .startHoming | .homedIdle | .homedSuccess | .homed | .calibrated => isTrue trivial

instance [DecidableEq ι] (s : Commands ι) (a : CommandAction ι) : Decidable (Orderly s a) :=
  match a with
  | .run i _ => inferInstanceAs (Decidable ((s.callers i).Orderly s))
  | .thread ok => inferInstanceAs (Decidable (s.thread.Orderly ok s))
  | .steps _ => inferInstanceAs (Decidable (_ → _))
  | .call _ _ _ | .stepEvent _ => isTrue trivial

/-! What the slot holds. -/

def Command.cmd : Command → Cmd
  | .setAngle _ => .setAngle
  | .home => .home
  | .calibrate => .calibrate

/-- All that the call stores. -/
def Command.stores : Command → List CmdStore
  | .setAngle cmd =>
    [.type .setAngle, .frequency cmd.frequency, .angleDecidegrees cmd.angleDecidegrees, .shortestPath cmd.shortestPath]
  | .home => [.type .home, .homingSuccess false]
  | .calibrate => [.type .calibrate]

/-- The parameters are the command's, if it has any. -/
def Command.Reads (setAngle : SetAngleCmd) (command : Command) : Prop := ∀ cmd, command = .setAngle cmd → setAngle = cmd

/-- What the slot is used for: nothing, a call fills it, its command is posted, the thread has taken its command,
or the thread has written its own homing. -/
inductive Slot (ι : Type*) where
  | free
  | filling (i : ι) (command : Command) (rest : List CmdStore)
  | posted (owner : Option ι) (command : Command)
  | taken (owner : Option ι) (command : Command)
  | recovering

/-- What the thread has of the command it takes, and what is still in the slot. -/
def WheelPc.Carries (s : Commands ι) (owner : Option ι) (command : Command) : WheelPc ι → Prop
  | .readType => s.pendingCmd = command.cmd ∧ s.owner = owner ∧ command.Reads s.setAngle
  | .clearType cmd owner' => cmd = command.cmd ∧ owner' = owner ∧ command.Reads s.setAngle
  | .readFrequency owner' => s.pendingCmd = .none ∧ owner' = owner ∧ command = .setAngle s.setAngle
  | .readAngle owner' frequency =>
    s.pendingCmd = .none ∧ owner' = owner ∧ command = .setAngle s.setAngle ∧ frequency = s.setAngle.frequency
  | .readPath owner' frequency angleDecidegrees =>
    s.pendingCmd = .none ∧ owner' = owner ∧ command = .setAngle s.setAngle ∧ frequency = s.setAngle.frequency ∧
      angleDecidegrees = s.setAngle.angleDecidegrees
  | .execute owner' command' => s.pendingCmd = .none ∧ owner' = owner ∧ command' = command
  | _ => False

/-- The thread has nothing to do with the slot. -/
def WheelPc.apart : WheelPc ι → Bool
  | .loop | .moving _ | .startHoming | .homing | .homedIdle | .homedSuccess | .homed | .calibrating | .calibrated => true
  | _ => false

def Slot.Holds (s : Commands ι) : Slot ι → Prop
  | .free => s.pendingCmd = .none ∧ s.cmdSem = false ∧ s.thread.apart = true
  | .filling i command rest =>
    s.pendingCmd = command.cmd ∧ s.owner = some i ∧ s.cmdSem = false ∧ s.thread.apart = true ∧
      s.callers i = .store command rest ∧ rest <:+ command.stores.tail ∧
      command.Reads (rest.foldl (CmdStore.apply i) s).setAngle
  | .posted owner command =>
    s.pendingCmd = command.cmd ∧ s.owner = owner ∧ s.cmdSem = true ∧ (s.thread.apart = true ∨ s.thread = .take) ∧
      command.Reads s.setAngle
  | .taken owner command => s.cmdSem = false ∧ s.thread.Carries s owner command
  | .recovering => s.pendingCmd = .home ∧ s.owner = none ∧ s.thread = .recover

/-- The call whose command is in the slot or taken from it, with the command. -/
def Slot.waiting : Slot ι → Option (ι × Command)
  | .filling i command _ | .posted (some i) command | .taken (some i) command => some (i, command)
  | _ => none

/-- The same from the give on. -/
def Slot.queued : Slot ι → List (ι × Command)
  | .posted (some i) command | .taken (some i) command => [(i, command)]
  | _ => []

/-- Neither moving the wheel nor homing or calibrating it. -/
def WheelPc.settled : WheelPc ι → Bool
  | .loop | .take => true
  | pc => pc.taking

/-- Homed, so that a calibration can begin; but for a call that queues another homing. -/
def WheelPc.Window (s : Commands ι) : WheelPc ι → Prop
  | .homedIdle => s.state = .idle
  | .homedSuccess => s.state = .idle ∧ (s.homingSuccess = true ∨ s.pendingCmd = .home)
  | .homed =>
    s.state = .idle ∧ (s.homingSuccess = true ∨ s.pendingCmd = .home) ∧ getCurrentPosition s.current = .passThrough
  | _ => True

structure CommandInv [DecidableEq ι] (tr : List (CommandEvent ι)) (s : Commands ι) (slot : Slot ι) : Prop where
  holds : slot.Holds s
  ready : ∀ i command, slot.waiting = some (i, command) → s.thread.settled = true → Ready command.cmd s.state s
  filling : ∀ i command rest, s.callers i = .store command rest →
    rest = command.stores ∨ slot = .filling i command rest
  window : s.thread.Window s
  queued : postedCommands tr = executedCommands tr ++ slot.queued
  succeeded : ∀ i, commandsOf i (postedCommands tr) =
    commandsOf i (succeededCommands tr) ++ (s.callers i).succeeding
  dropped : ∀ i command, .dropped (some i) command ∉ tr

variable {tr evs : List (CommandEvent ι)} {s s' : Commands ι} {slot slot' : Slot ι} {cmd : Cmd} {state : WheelState}
  {i : ι} {owner : Option ι} {command : Command} {rest : List CmdStore}

theorem postedCommands_append (tr evs : List (CommandEvent ι)) :
    postedCommands (tr ++ evs) = postedCommands tr ++ postedCommands evs := List.filterMap_append

theorem executedCommands_append (tr evs : List (CommandEvent ι)) :
    executedCommands (tr ++ evs) = executedCommands tr ++ executedCommands evs := List.filterMap_append

theorem succeededCommands_append (tr evs : List (CommandEvent ι)) :
    succeededCommands (tr ++ evs) = succeededCommands tr ++ succeededCommands evs := List.filterMap_append

theorem commandsOf_append [DecidableEq ι] (i : ι) (l l' : List (ι × Command)) :
    commandsOf i (l ++ l') = commandsOf i l ++ commandsOf i l' := by
  rw [commandsOf, List.filter_append, List.map_append]
  rfl

theorem cmd_ne_none (command : Command) : command.cmd ≠ .none := by cases command <;> simp [Command.cmd]

theorem Ready.congr (h : Ready cmd state s)
    (hcongr : cmd = .calibrate → s'.homingSuccess = s.homingSuccess ∧ s'.current = s.current) : Ready cmd state s' := by
  cases cmd with
  | calibrate =>
    obtain ⟨hsuccess, hcurrent⟩ := hcongr rfl
    obtain ⟨hstate, hhomed, hposition⟩ := h
    exact ⟨hstate, hsuccess.trans hhomed, by rw [hcurrent, hposition]⟩
  | _ => exact h

/-- An idle and homed wheel at the pass-through position is ready for everything. -/
theorem ready_of_homed (hsuccess : s.homingSuccess = true ∨ cmd = .home)
    (hposition : getCurrentPosition s.current = .passThrough) : Ready cmd .idle s := by
  cases cmd with
  | none => trivial
  | home => exact nofun
  | setAngle => rfl
  | calibrate => exact ⟨rfl, hsuccess.resolve_right nofun, hposition⟩

/-- Ready for a command, the wheel is not in a move that the encoder assists. -/
theorem Ready.state_ne (h : Ready command.cmd state s) : state ≠ .positioningWithEncoder := by
  rintro rfl
  cases command with
  | setAngle cmd => cases h
  | home => exact h rfl
  | calibrate => cases h.1

theorem Ready.idle (h : Ready command.cmd state s) : Ready command.cmd .idle s := by
  cases command with
  | setAngle cmd => rfl
  | home => exact nofun
  | calibrate => exact ⟨rfl, h.2⟩

theorem foldl_setAngle (s s' : Commands ι) (hsetAngle : s'.setAngle = s.setAngle) (rest : List CmdStore) :
    (rest.foldl (CmdStore.apply i) s').setAngle = (rest.foldl (CmdStore.apply i) s).setAngle := by
  induction rest generalizing s s' with
  | nil => exact hsetAngle
  | cons new rest ih =>
    refine ih _ _ ?_
    cases new <;> simp only [CmdStore.apply, hsetAngle]

/-- What the slot holds is untouched by a thread that has nothing to do with it. -/
theorem Slot.Holds.stays (h : slot.Holds s) (hpending : s'.pendingCmd = s.pendingCmd)
    (hsetAngle : s'.setAngle = s.setAngle) (howner : s'.owner = s.owner) (hsem : s'.cmdSem = s.cmdSem)
    (hcallers : s'.callers = s.callers) (hapart : s.thread.apart = true) (hapart' : s'.thread.apart = true) :
    slot.Holds s' := by
  cases slot with
  | free => exact ⟨hpending.trans h.1, hsem.trans h.2.1, hapart'⟩
  | filling i command rest =>
    obtain ⟨hcmd, hown, hgive, -, hcaller, hrest, hreads⟩ := h
    refine ⟨hpending.trans hcmd, howner.trans hown, hsem.trans hgive, hapart', by rw [hcallers, hcaller], hrest, ?_⟩
    rwa [foldl_setAngle s s' hsetAngle]
  | posted owner command =>
    obtain ⟨hcmd, hown, hgive, -, hreads⟩ := h
    refine ⟨hpending.trans hcmd, howner.trans hown, hsem.trans hgive, .inl hapart', ?_⟩
    rwa [hsetAngle]
  | taken owner command =>
    have hcarries := h.2
    cases hthread : s.thread <;> rw [hthread] at hcarries hapart <;> contradiction
  | recovering =>
    rw [h.2.2] at hapart
    contradiction

/-- The commands a free slot, and no other, lets a call write. -/
theorem Slot.Holds.free (h : slot.Holds s) (hfree : s.SlotFree) : slot = .free := by
  obtain ⟨hpending, htaking⟩ := hfree
  cases slot with
  | free => rfl
  | filling i command rest => exact absurd (h.1.symm.trans hpending) (cmd_ne_none command)
  | posted owner command => exact absurd (h.1.symm.trans hpending) (cmd_ne_none command)
  | taken owner command =>
    have hcarries := h.2
    cases hthread : s.thread <;> rw [hthread] at hcarries htaking <;> contradiction
  | recovering => exact absurd (h.1.symm.trans hpending) nofun

/-- While the thread takes a command, it is from the slot. -/
theorem Slot.Holds.taken (h : slot.Holds s) (htaking : s.thread.taking = true) :
    ∃ owner command, slot = .taken owner command := by
  cases slot with
  | taken owner command => exact ⟨owner, command, rfl⟩
  | free =>
    have hapart := h.2.2
    cases hthread : s.thread <;> rw [hthread] at hapart htaking <;> contradiction
  | filling i command rest =>
    have hapart := h.2.2.2.1
    cases hthread : s.thread <;> rw [hthread] at hapart htaking <;> contradiction
  | posted owner command =>
    obtain ⟨-, -, -, hapart | hthread, -⟩ := h
    · cases hthread : s.thread <;> rw [hthread] at hapart htaking <;> contradiction
    · rw [hthread] at htaking
      contradiction
  | recovering =>
    rw [h.2.2] at htaking
    contradiction

theorem Slot.Holds.posted (h : slot.Holds s) (hthread : s.thread = .take) :
    ∃ owner command, slot = .posted owner command := by
  cases slot with
  | posted owner command => exact ⟨owner, command, rfl⟩
  | free =>
    rw [Slot.Holds, hthread] at h
    exact absurd h.2.2 nofun
  | filling i command rest =>
    rw [Slot.Holds, hthread] at h
    exact absurd h.2.2.2.1 nofun
  | taken owner command =>
    rw [Slot.Holds, hthread] at h
    exact absurd h.2 id
  | recovering => exact absurd (hthread.symm.trans h.2.2) nofun

theorem Slot.Holds.recovering (h : slot.Holds s) (hthread : s.thread = .recover) : slot = .recovering := by
  cases slot with
  | recovering => rfl
  | free =>
    rw [Slot.Holds, hthread] at h
    exact absurd h.2.2 nofun
  | filling i command rest =>
    rw [Slot.Holds, hthread] at h
    exact absurd h.2.2.2.1 nofun
  | posted owner command =>
    rw [Slot.Holds, hthread] at h
    obtain ⟨-, -, -, hapart | htake, -⟩ := h <;> contradiction
  | taken owner command =>
    rw [Slot.Holds, hthread] at h
    exact absurd h.2 id

/-! The thread. -/

variable [DecidableEq ι]

/-- A step of the thread. -/
theorem CommandInv.thread_moves (h : CommandInv tr s slot) (hcallers : s'.callers = s.callers) (hholds : slot'.Holds s')
    (hready : ∀ i command, slot'.waiting = some (i, command) → s'.thread.settled = true →
      Ready command.cmd s'.state s')
    (hslot : ∀ i command rest, slot = .filling i command rest → slot' = slot) (hwindow : s'.thread.Window s')
    (hposted : postedCommands evs = []) (hsucceeded : succeededCommands evs = [])
    (hqueued : slot.queued = executedCommands evs ++ slot'.queued)
    (hdropped : ∀ i command, .dropped (some i) command ∉ evs) : CommandInv (tr ++ evs) s' slot' := by
  refine ⟨hholds, hready, ?_, hwindow, ?_, ?_, ?_⟩
  · intro i command rest hcaller
    rw [hcallers] at hcaller
    obtain hrest | hfilling := h.filling i command rest hcaller
    · exact .inl hrest
    · exact .inr ((hslot i command rest hfilling).trans hfilling)
  · rw [postedCommands_append, executedCommands_append, hposted, List.append_nil, h.queued, hqueued, List.append_assoc]
  · intro i
    rw [postedCommands_append, succeededCommands_append, hposted, hsucceeded, List.append_nil, List.append_nil,
      hcallers]
    exact h.succeeded i
  · intro i command hmem
    obtain hmem | hmem := List.mem_append.mp hmem
    · exact h.dropped i command hmem
    · exact hdropped i command hmem

/-- A step of the thread without an event. -/
theorem CommandInv.silent (h : CommandInv tr s slot) (hcallers : s'.callers = s.callers) (hholds : slot'.Holds s')
    (hready : ∀ i command, slot'.waiting = some (i, command) → s'.thread.settled = true →
      Ready command.cmd s'.state s')
    (hslot : ∀ i command rest, slot = .filling i command rest → slot' = slot) (hwindow : s'.thread.Window s')
    (hqueued : slot.queued = slot'.queued) : CommandInv (tr ++ []) s' slot' :=
  h.thread_moves hcallers hholds hready hslot hwindow rfl rfl hqueued (fun _ _ hmem => by contradiction)

/-- A step of the thread while it has nothing to do with the slot. -/
theorem CommandInv.apart_moves (h : CommandInv tr s slot) (hpending : s'.pendingCmd = s.pendingCmd)
    (hsetAngle : s'.setAngle = s.setAngle) (howner : s'.owner = s.owner) (hsem : s'.cmdSem = s.cmdSem)
    (hcallers : s'.callers = s.callers) (hapart : s.thread.apart = true) (hapart' : s'.thread.apart = true)
    (hready : s'.thread.settled = true → Ready s.pendingCmd s'.state s') (hwindow : s'.thread.Window s') :
    CommandInv (tr ++ []) s' slot := by
  refine h.silent hcallers (h.holds.stays hpending hsetAngle howner hsem hcallers hapart hapart') ?_
    (fun _ _ _ _ => rfl) hwindow rfl
  intro i command hwaiting hsettled
  have hcmd : s.pendingCmd = command.cmd := by
    have hholds := h.holds
    cases slot with
    | filling j command' rest =>
      obtain ⟨-, rfl⟩ := Prod.mk.inj (Option.some.inj hwaiting)
      exact hholds.1
    | posted owner command' =>
      cases owner with
      | none => contradiction
      | some j =>
        obtain ⟨-, rfl⟩ := Prod.mk.inj (Option.some.inj hwaiting)
        exact hholds.1
    | taken owner command' =>
      have hcarries := hholds.2
      cases hthread : s.thread <;> rw [hthread] at hcarries hapart <;> contradiction
    | _ => contradiction
  rw [← hcmd]
  exact hready hsettled

/-- A step of the thread on the way from the slot to the command's execution. -/
theorem CommandInv.carries (h : CommandInv tr s (.taken owner command)) (hcallers : s'.callers = s.callers)
    (hsem : s'.cmdSem = s.cmdSem) (hstate : s'.state = s.state) (hsuccess : s'.homingSuccess = s.homingSuccess)
    (hcurrent : s'.current = s.current) (hsettled : s.thread.settled = true)
    (hcarries : s'.thread.Carries s' owner command) (hwindow : s'.thread.Window s') :
    CommandInv (tr ++ []) s' (.taken owner command) := by
  refine h.silent hcallers ⟨hsem.trans h.holds.1, hcarries⟩ ?_ nofun hwindow rfl
  intro i command' hwaiting _
  rw [hstate]
  exact (h.ready i command' hwaiting hsettled).congr fun _ => ⟨hsuccess, hcurrent⟩

/-- The thread is done with a command: it executes it, or it was its own. -/
theorem CommandInv.finishes (h : CommandInv tr s (.taken owner command)) (hcallers : s'.callers = s.callers)
    (hpending : s'.pendingCmd = .none) (hsem : s'.cmdSem = s.cmdSem) (hapart : s'.thread.apart = true)
    (hwindow : s'.thread.Window s')
    (hevs : evs = [.executed owner command] ∨ owner = none ∧ evs = [.dropped none command]) :
    ∃ slot', CommandInv (tr ++ evs) s' slot' := by
  refine ⟨.free, h.thread_moves hcallers ⟨hpending, hsem.trans h.holds.1, hapart⟩ nofun nofun hwindow ?_ ?_ ?_ ?_⟩
  · obtain rfl | ⟨-, rfl⟩ := hevs <;> rfl
  · obtain rfl | ⟨-, rfl⟩ := hevs <;> rfl
  · obtain rfl | ⟨rfl, rfl⟩ := hevs
    · cases owner <;> rfl
    · rfl
  · intro i command' hmem
    obtain rfl | ⟨-, rfl⟩ := hevs <;> cases List.mem_singleton.mp hmem

theorem CommandInv.execute (h : CommandInv tr s slot) (ok : Bool) (hthread : s.thread = .execute owner command) :
    ∃ slot', CommandInv (tr ++ (threadStep ok s (.execute owner command)).1)
      (threadStep ok s (.execute owner command)).2 slot' := by
  obtain ⟨owner', command', rfl⟩ := h.holds.taken (by rw [hthread]; rfl)
  have hcarries := h.holds.2
  rw [hthread] at hcarries
  obtain ⟨hpending, rfl, rfl⟩ := hcarries
  have hready (i : ι) (howner : owner = some i) : Ready command.cmd s.state s := by
    subst howner
    refine h.ready i command rfl ?_
    rw [hthread]
    rfl
  have hown (hrefused : ¬Ready command.cmd s.state s) : owner = none := by
    cases owner with
    | none => rfl
    | some i => exact absurd (hready i rfl) hrefused
  cases command with
  | setAngle cmd =>
    simp only [threadStep]
    split_ifs with hstate
    · exact h.finishes rfl hpending rfl rfl trivial (.inl rfl)
    · obtain rfl := hown hstate
      exact h.finishes rfl hpending rfl rfl trivial (.inr ⟨rfl, rfl⟩)
  | home => exact h.finishes rfl hpending rfl rfl trivial (.inl rfl)
  | calibrate =>
    simp only [threadStep]
    split_ifs with hcalibrates
    · exact h.finishes rfl hpending rfl rfl trivial (.inl rfl)
    · obtain rfl := hown fun hready =>
        hcalibrates (by simp [Commands.calibrates, hready.1, hready.2.1, hready.2.2])
      exact h.finishes rfl hpending rfl rfl trivial (.inr ⟨rfl, rfl⟩)

theorem CommandInv.thread_step (h : CommandInv tr s slot) (ok : Bool) (hok : s.thread.Orderly ok s) :
    ∃ slot', CommandInv (tr ++ (threadStep ok s s.thread).1) (threadStep ok s s.thread).2 slot' := by
  have hholds := h.holds
  have hwindow := h.window
  have hunsettled {P : Prop} : false = true → P := fun hsettled => absurd hsettled Bool.false_ne_true
  cases hthread : s.thread with
  | loop =>
    simp only [threadStep]
    split_ifs with hsem
    · cases slot with
      | posted owner command =>
        obtain ⟨hcmd, howner, hgive, -, hreads⟩ := hholds
        refine ⟨.posted owner command, h.silent rfl ⟨hcmd, howner, hgive, .inr rfl, hreads⟩ ?_ (by simp) trivial rfl⟩
        intro i command' hwaiting _
        exact h.ready i command' hwaiting (by rw [hthread]; rfl)
      | free => exact absurd (hsem.symm.trans hholds.2.1) (by simp)
      | filling i command rest => exact absurd (hsem.symm.trans hholds.2.2.1) (by simp)
      | taken owner command => exact absurd (hsem.symm.trans hholds.1) (by simp)
      | recovering => exact absurd (hthread.symm.trans hholds.2.2) (by simp)
    · exact ⟨slot, by rwa [List.append_nil]⟩
  | take =>
    obtain ⟨owner, command, rfl⟩ := hholds.posted hthread
    obtain ⟨hcmd, howner, -, -, hreads⟩ := hholds
    refine ⟨.taken owner command, h.silent rfl ⟨rfl, hcmd, howner, hreads⟩ ?_ (by simp) trivial ?_⟩
    · intro i command' hwaiting _
      exact h.ready i command' (by cases owner <;> exact hwaiting) (by rw [hthread]; rfl)
    · cases owner <;> rfl
  | readType =>
    obtain ⟨owner, command, rfl⟩ := hholds.taken (by rw [hthread]; rfl)
    have hcarries := hholds.2
    rw [hthread] at hcarries
    exact ⟨_, h.carries rfl rfl rfl rfl rfl (by rw [hthread]; rfl) hcarries trivial⟩
  | clearType cmd owner' =>
    obtain ⟨owner, command, rfl⟩ := hholds.taken (by rw [hthread]; rfl)
    have hcarries := hholds.2
    rw [hthread] at hcarries
    obtain ⟨rfl, rfl, hreads⟩ := hcarries
    refine ⟨_, h.carries rfl rfl rfl rfl rfl (by rw [hthread]; rfl) ?_ ?_⟩
    · cases command with
      | setAngle cmd => exact ⟨rfl, rfl, congrArg Command.setAngle (hreads cmd rfl).symm⟩
      | home => exact ⟨rfl, rfl, rfl⟩
      | calibrate => exact ⟨rfl, rfl, rfl⟩
    · cases command <;> trivial
  | readFrequency owner' =>
    obtain ⟨owner, command, rfl⟩ := hholds.taken (by rw [hthread]; rfl)
    have hcarries := hholds.2
    rw [hthread] at hcarries
    obtain ⟨hpending, rfl, rfl⟩ := hcarries
    exact ⟨_, h.carries rfl rfl rfl rfl rfl (by rw [hthread]; rfl) ⟨hpending, rfl, rfl, rfl⟩ trivial⟩
  | readAngle owner' frequency =>
    obtain ⟨owner, command, rfl⟩ := hholds.taken (by rw [hthread]; rfl)
    have hcarries := hholds.2
    rw [hthread] at hcarries
    obtain ⟨hpending, rfl, rfl, rfl⟩ := hcarries
    exact ⟨_, h.carries rfl rfl rfl rfl rfl (by rw [hthread]; rfl) ⟨hpending, rfl, rfl, rfl, rfl⟩ trivial⟩
  | readPath owner' frequency angleDecidegrees =>
    obtain ⟨owner, command, rfl⟩ := hholds.taken (by rw [hthread]; rfl)
    have hcarries := hholds.2
    rw [hthread] at hcarries
    obtain ⟨hpending, rfl, rfl, rfl, rfl⟩ := hcarries
    exact ⟨_, h.carries rfl rfl rfl rfl rfl (by rw [hthread]; rfl) ⟨hpending, rfl, rfl⟩ trivial⟩
  | execute owner command => exact h.execute ok hthread
  | recover =>
    obtain rfl := hholds.recovering hthread
    refine ⟨.posted none .home, h.silent rfl ⟨hholds.1, hholds.2.1, rfl, .inl rfl, ?_⟩ ?_ (by simp) trivial rfl⟩
    · intro cmd hcmd
      contradiction
    · intro i command hwaiting
      contradiction
  | moving next =>
    rw [hthread] at hok
    have hready : Ready s.pendingCmd (if ok then next else .idle)
        { s with state := if ok then next else .idle, thread := .loop } := hok.congr fun _ => ⟨rfl, rfl⟩
    exact ⟨slot, h.apart_moves rfl rfl rfl rfl rfl (by rw [hthread]; rfl) rfl (fun _ => hready) trivial⟩
  | startHoming => exact ⟨slot, h.apart_moves rfl rfl rfl rfl rfl (by rw [hthread]; rfl) rfl hunsettled trivial⟩
  | homing =>
    rw [hthread] at hok
    simp only [threadStep]
    split_ifs with hsuccess
    · exact ⟨slot, h.apart_moves rfl rfl rfl rfl rfl (by rw [hthread]; rfl) rfl hunsettled rfl⟩
    · have hready := hok (Bool.eq_false_iff.mpr hsuccess)
      refine ⟨slot, h.apart_moves rfl rfl rfl rfl rfl (by rw [hthread]; rfl) rfl (fun _ => ?_) trivial⟩
      cases hpending : s.pendingCmd with
      | none => trivial
      | home =>
        change WheelState.uninitialized ≠ .positioningWithEncoder
        decide
      | setAngle => exact absurd (show WheelState.uninitialized = .idle from (hpending ▸ hready : Ready .setAngle .uninitialized s)) (by decide)
      | calibrate => exact absurd (hpending ▸ hready : Ready .calibrate .uninitialized s).1 (by decide)
  | homedIdle =>
    rw [hthread] at hwindow
    exact ⟨slot, h.apart_moves rfl rfl rfl rfl rfl (by rw [hthread]; rfl) rfl hunsettled ⟨hwindow, .inl rfl⟩⟩
  | homedSuccess =>
    rw [hthread] at hwindow
    have hposition : getCurrentPosition 0 = .passThrough := by decide
    refine ⟨slot, h.apart_moves rfl rfl rfl rfl rfl (by rw [hthread]; rfl) rfl hunsettled ?_⟩
    exact ⟨hwindow.1, hwindow.2, hposition⟩
  | homed =>
    rw [hthread] at hwindow
    obtain ⟨hstate, hsuccess, hposition⟩ := hwindow
    simp only [threadStep]
    split_ifs
    · exact ⟨slot, h.apart_moves rfl rfl rfl rfl rfl (by rw [hthread]; rfl) rfl hunsettled trivial⟩
    · refine ⟨slot, h.apart_moves rfl rfl rfl rfl rfl (by rw [hthread]; rfl) rfl (fun _ => ?_) trivial⟩
      change Ready s.pendingCmd s.state _
      rw [hstate]
      exact ready_of_homed hsuccess hposition
  | calibrating =>
    rw [hthread] at hok
    cases ok with
    | true => exact ⟨slot, h.apart_moves rfl rfl rfl rfl rfl (by rw [hthread]; rfl) rfl hunsettled trivial⟩
    | false =>
      have hready : Ready s.pendingCmd .idle { s with state := .idle, thread := .loop } :=
        (hok rfl).congr fun _ => ⟨rfl, rfl⟩
      exact ⟨slot, h.apart_moves rfl rfl rfl rfl rfl (by rw [hthread]; rfl) rfl (fun _ => hready) trivial⟩
  | calibrated => exact ⟨slot, h.apart_moves rfl rfl rfl rfl rfl (by rw [hthread]; rfl) rfl hunsettled trivial⟩

/-! The calls. -/

theorem commandsOf_succeeded (i : ι) (command : Command) (ret : RetCode) :
    commandsOf i (succeededCommands [.returned i command ret]) = (CallerPc.unlock command ret).succeeding := by
  cases ret <;> simp [commandsOf, succeededCommands, CallerPc.succeeding]

omit [DecidableEq ι] in
theorem queue_ok {stores : List CmdStore} (h : command.queue s = .ok stores) : stores = command.stores := by
  cases command with
  | setAngle cmd =>
    simp only [Command.queue, polarizerWheelSetAngle] at h
    split_ifs at h
    exact (Except.ok.inj h).symm
  | home =>
    simp only [Command.queue, polarizerWheelHomeAsync] at h
    split_ifs at h
    exact (Except.ok.inj h).symm
  | calibrate =>
    simp only [Command.queue, polarizerWheelCalibrateAsync] at h
    split_ifs at h
    exact (Except.ok.inj h).symm

omit [DecidableEq ι] in
theorem queue_error {err : RetCode} (h : command.queue s = .error err) : err ≠ .success := by
  rintro rfl
  cases command <;>
    simp only [Command.queue, polarizerWheelSetAngle, polarizerWheelHomeAsync, polarizerWheelCalibrateAsync] at h <;>
    split_ifs at h <;> cases h

theorem succeeding_error (command : Command) {err : RetCode} (h : err ≠ .success) :
    (CallerPc.unlock command err).succeeding = [] := by
  cases err with
  | success => exact absurd rfl h
  | _ => rfl

/-- A step of the call of thread `i`. -/
theorem CommandInv.caller_moves (h : CommandInv tr s slot) {pc : CallerPc}
    (hcallers : s'.callers = Function.update s.callers i pc) (hholds : slot'.Holds s')
    (hready : ∀ i command, slot'.waiting = some (i, command) → s'.thread.settled = true →
      Ready command.cmd s'.state s')
    (hpc : ∀ command rest, pc = .store command rest → rest = command.stores ∨ slot' = .filling i command rest)
    (hslot : ∀ j command rest, j ≠ i → slot = .filling j command rest → slot' = slot)
    (hwindow : s'.thread.Window s') (hevs : ∀ e ∈ evs, ∃ command,
      e = .posted i command ∨ ∃ ret, e = .returned i command ret)
    (hqueued : slot'.queued = slot.queued ++ postedCommands evs)
    (hsucceeded : (s.callers i).succeeding ++ commandsOf i (postedCommands evs) =
      commandsOf i (succeededCommands evs) ++ pc.succeeding) : CommandInv (tr ++ evs) s' slot' := by
  have hexecuted : executedCommands evs = [] := by
    refine List.filterMap_eq_nil_iff.mpr fun e he => ?_
    obtain ⟨command, rfl | ⟨ret, rfl⟩⟩ := hevs e he <;> rfl
  have hof (l : List (ι × Command)) (hl : ∀ p ∈ l, p.1 = i) (j : ι) (hj : j ≠ i) : commandsOf j l = [] := by
    rw [commandsOf, List.map_eq_nil_iff, List.filter_eq_nil_iff]
    intro p hp hpj
    exact hj ((of_decide_eq_true hpj).symm.trans (hl p hp))
  refine ⟨hholds, hready, ?_, hwindow, ?_, ?_, ?_⟩
  · intro j command rest hcaller
    rw [hcallers] at hcaller
    by_cases hj : j = i
    · subst hj
      rw [Function.update_self] at hcaller
      exact hpc command rest hcaller
    · rw [Function.update_of_ne hj] at hcaller
      obtain hrest | hfilling := h.filling j command rest hcaller
      · exact .inl hrest
      · exact .inr ((hslot j command rest hj hfilling).trans hfilling)
  · rw [postedCommands_append, executedCommands_append, hexecuted, List.append_nil, hqueued, h.queued,
      List.append_assoc]
  · intro j
    rw [postedCommands_append, succeededCommands_append, commandsOf_append, commandsOf_append, h.succeeded j, hcallers]
    by_cases hj : j = i
    · subst hj
      rw [Function.update_self, List.append_assoc, hsucceeded, List.append_assoc]
    · rw [Function.update_of_ne hj, hof (postedCommands evs) ?_ j hj, hof (succeededCommands evs) ?_ j hj,
        List.append_nil, List.append_nil]
      · intro p hp
        obtain ⟨e, he, hpe⟩ := List.mem_filterMap.mp hp
        obtain ⟨command, rfl | ⟨ret, rfl⟩⟩ := hevs e he
        · contradiction
        · cases ret <;> cases hpe
          rfl
      · intro p hp
        obtain ⟨e, he, hpe⟩ := List.mem_filterMap.mp hp
        obtain ⟨command, rfl | ⟨ret, rfl⟩⟩ := hevs e he
        · cases hpe
          rfl
        · contradiction
  · intro j command hmem
    obtain hmem | hmem := List.mem_append.mp hmem
    · exact h.dropped j command hmem
    · obtain ⟨command', he | ⟨ret, he⟩⟩ := hevs _ hmem <;> cases he

/-- A step of a call that does not touch the slot, and what it returns. -/
theorem CommandInv.caller_passes (h : CommandInv tr s slot) (cmdMutex : Option ι) {pc : CallerPc}
    (hcaller : ∀ command rest, s.callers i ≠ .store command rest)
    (hpc : ∀ command rest, pc = .store command rest → rest = command.stores)
    (hevs : evs = [] ∧ (s.callers i).succeeding = pc.succeeding ∨ ∃ command ret, evs = [.returned i command ret] ∧
      (s.callers i).succeeding = (CallerPc.unlock command ret).succeeding ∧ pc.succeeding = []) :
    CommandInv (tr ++ evs) ({ s with cmdMutex }.at i pc) slot := by
  have hfilling (command : Command) (rest : List CmdStore) : slot ≠ .filling i command rest := by
    rintro rfl
    exact hcaller command rest h.holds.2.2.2.2.1
  refine h.caller_moves rfl ?_ ?_ (fun command rest heq => .inl (hpc command rest heq)) (fun _ _ _ _ _ => rfl) ?_ ?_ ?_ ?_
  · have hholds := h.holds
    cases slot with
    | filling j command rest =>
      obtain ⟨hcmd, howner, hsem, hapart, hj, hrest, hreads⟩ := hholds
      have hne : j ≠ i := by
        rintro rfl
        exact hfilling command rest rfl
      refine ⟨hcmd, howner, hsem, hapart, (Function.update_of_ne hne _ _).trans hj, hrest, ?_⟩
      have hsetAngle : ({ s with cmdMutex }.at i pc).setAngle = s.setAngle := rfl
      rwa [foldl_setAngle s _ hsetAngle]
    | taken owner command =>
      obtain ⟨hsem, hcarries⟩ := hholds
      refine ⟨hsem, ?_⟩
      change WheelPc.Carries _ owner command s.thread
      cases hthread : s.thread <;> rw [hthread] at hcarries <;> exact hcarries
    | _ => exact hholds
  · intro j command hwaiting hsettled
    exact (h.ready j command hwaiting hsettled).congr fun _ => ⟨rfl, rfl⟩
  · have hwindow := h.window
    change WheelPc.Window _ s.thread
    cases hthread : s.thread <;> rw [hthread] at hwindow <;> exact hwindow
  · intro e he
    obtain ⟨rfl, -⟩ | ⟨command, ret, rfl, -⟩ := hevs
    · contradiction
    · exact ⟨command, .inr ⟨ret, List.mem_singleton.mp he⟩⟩
  · obtain ⟨rfl, -⟩ | ⟨command, ret, rfl, -⟩ := hevs <;> exact (List.append_nil _).symm
  · obtain ⟨rfl, hsame⟩ | ⟨command, ret, rfl, hsame, hnil⟩ := hevs
    · rw [hsame]
      exact List.append_nil _
    · rw [hsame, hnil, commandsOf_succeeded]
      rfl

omit [DecidableEq ι] in
theorem stores_eq (command : Command) : command.stores = .type command.cmd :: command.stores.tail := by
  cases command <;> rfl

/-- A call begins to write the slot. -/
theorem CommandInv.begins (h : CommandInv tr s slot)
    (hcaller : s.callers i = .store command (.type command.cmd :: command.stores.tail)) (hfree : s.SlotFree)
    (hready : s.thread = .loop → Ready command.cmd s.state s) :
    CommandInv (tr ++ []) (((CmdStore.type command.cmd).apply i s).at i (.store command command.stores.tail))
      (.filling i command command.stores.tail) := by
  obtain rfl := h.holds.free hfree
  obtain ⟨hpending, hsem, hapart⟩ := h.holds
  refine h.caller_moves rfl ?_ ?_ ?_ nofun ?_ nofun rfl ?_
  · refine ⟨rfl, rfl, hsem, hapart, Function.update_self _ _ _, List.suffix_refl _, ?_⟩
    rintro cmd rfl
    rfl
  · intro j command' hwaiting hsettled
    obtain ⟨rfl, rfl⟩ := Prod.mk.inj (Option.some.inj hwaiting)
    have hloop : s.thread = .loop := by
      change s.thread.settled = true at hsettled
      cases hthread : s.thread <;> rw [hthread] at hsettled hapart <;> first | rfl | contradiction
    exact (hready hloop).congr fun _ => ⟨rfl, rfl⟩
  · intro command' rest heq
    obtain ⟨rfl, rfl⟩ := CallerPc.store.inj heq
    exact .inr rfl
  · have hwindow := h.window
    change WheelPc.Window _ s.thread
    cases hthread : s.thread <;> rw [hthread] at hwindow <;> try trivial
    · exact ⟨hwindow.1, .inl (hwindow.2.resolve_right fun hhome => by rw [hpending] at hhome; contradiction)⟩
    · exact ⟨hwindow.1, .inl (hwindow.2.1.resolve_right fun hhome => by rw [hpending] at hhome; contradiction),
        hwindow.2.2⟩
  · rw [hcaller]
    rfl

omit [DecidableEq ι] in
/-- Behind the type, a call writes the parameters, or that the wheel is not homed. -/
theorem apply_tail {new : CmdStore} (i : ι) (s : Commands ι) (hnew : new ∈ command.stores.tail) :
    new.apply i s = { s with setAngle := (new.apply i s).setAngle } ∨
      command = .home ∧ new.apply i s = { s with homingSuccess := false } := by
  cases command with
  | setAngle cmd =>
    left
    simp only [Command.stores, List.tail_cons, List.mem_cons, List.not_mem_nil, or_false] at hnew
    obtain rfl | rfl | rfl := hnew <;> rfl
  | home =>
    obtain rfl := List.mem_singleton.mp hnew
    exact .inr ⟨rfl, rfl⟩
  | calibrate => contradiction

/-- A call goes on writing the slot. -/
theorem CommandInv.continues {new : CmdStore} (h : CommandInv tr s (.filling i command (new::rest))) :
    CommandInv (tr ++ []) ((new.apply i s).at i (.store command rest)) (.filling i command rest) := by
  obtain ⟨hcmd, howner, hsem, hapart, hcaller, hrest, hreads⟩ := h.holds
  have hnew : new ∈ command.stores.tail := hrest.subset List.mem_cons_self
  have hready (j : ι) (command' : Command) (hwaiting : some (i, command) = some (j, command'))
      (hsettled : s.thread.settled = true) : Ready command'.cmd s.state (new.apply i s) := by
    obtain ⟨rfl, rfl⟩ := Prod.mk.inj (Option.some.inj hwaiting)
    refine (h.ready i command rfl hsettled).congr fun hcalibrate => ?_
    obtain hset | ⟨rfl, -⟩ := apply_tail i s hnew
    · rw [hset]
      exact ⟨rfl, rfl⟩
    · contradiction
  have hwindow : s.thread.Window (new.apply i s) := by
    have hwindow := h.window
    obtain hset | ⟨rfl, hset⟩ := apply_tail i s hnew
    · rw [hset]
      cases hthread : s.thread <;> rw [hthread] at hwindow <;> exact hwindow
    · rw [hset]
      cases hthread : s.thread <;> rw [hthread] at hwindow <;> try trivial
      · exact ⟨hwindow.1, .inr hcmd⟩
      · exact ⟨hwindow.1, .inr hcmd, hwindow.2.2⟩
  have hsame : (new.apply i s).pendingCmd = s.pendingCmd ∧ (new.apply i s).owner = s.owner ∧
      (new.apply i s).cmdSem = s.cmdSem ∧ (new.apply i s).thread = s.thread ∧ (new.apply i s).callers = s.callers ∧
      (new.apply i s).state = s.state := by
    obtain hset | ⟨-, hset⟩ := apply_tail i s hnew <;> rw [hset] <;> exact ⟨rfl, rfl, rfl, rfl, rfl, rfl⟩
  obtain ⟨hpending', howner', hsem', hthread', hcallers', hstate'⟩ := hsame
  refine h.caller_moves (congrArg (Function.update · i _) hcallers') ?_ ?_ ?_ ?_ ?_ nofun rfl ?_
  · refine ⟨hpending'.trans hcmd, howner'.trans howner, hsem'.trans hsem, ?_, Function.update_self _ _ _,
      (List.suffix_cons _ _).trans hrest, ?_⟩
    · rwa [← hthread'] at hapart
    · have hsetAngle : ((new.apply i s).at i (.store command rest)).setAngle = (new.apply i s).setAngle := rfl
      rwa [foldl_setAngle _ _ hsetAngle]
  · intro j command' hwaiting hsettled
    change Ready command'.cmd (new.apply i s).state _
    rw [hstate']
    exact (hready j command' hwaiting (hthread' ▸ hsettled)).congr fun _ => ⟨rfl, rfl⟩
  · intro command' rest' heq
    obtain ⟨rfl, rfl⟩ := CallerPc.store.inj heq
    exact .inr rfl
  · intro j command' rest' hj heq
    exact absurd (Slot.filling.inj heq).1.symm hj
  · change (new.apply i s).thread.Window _
    rw [hthread']
    cases hthread : s.thread <;> rw [hthread] at hwindow <;> exact hwindow
  · rw [hcaller]
    rfl

/-- A call posts its command. -/
theorem CommandInv.posts (h : CommandInv tr s (.filling i command [])) :
    CommandInv (tr ++ [.posted i command]) ({ s with cmdSem := true }.at i (.unlock command .success))
      (.posted (some i) command) := by
  obtain ⟨hcmd, howner, hsem, hapart, hcaller, hrest, hreads⟩ := h.holds
  refine h.caller_moves rfl ⟨hcmd, howner, rfl, .inl hapart, hreads⟩ ?_ nofun ?_ ?_ ?_ rfl ?_
  · intro j command' hwaiting hsettled
    exact (h.ready j command' hwaiting hsettled).congr fun _ => ⟨rfl, rfl⟩
  · intro j command' rest' hj heq
    exact absurd (Slot.filling.inj heq).1.symm hj
  · have hwindow := h.window
    change WheelPc.Window _ s.thread
    cases hthread : s.thread <;> rw [hthread] at hwindow <;> exact hwindow
  · intro e he
    exact ⟨command, .inl (List.mem_singleton.mp he)⟩
  · rw [hcaller]
    simp [commandsOf, postedCommands, succeededCommands, CallerPc.succeeding]

theorem CommandInv.caller_step (h : CommandInv tr s slot) (i : ι) (timedOut : Bool) (hok : (s.callers i).Orderly s) :
    ∃ slot', CommandInv (tr ++ (callerStep s i timedOut (s.callers i)).1)
      (callerStep s i timedOut (s.callers i)).2 slot' := by
  cases hpc : s.callers i with
  | idle => exact ⟨slot, by rwa [callerStep, List.append_nil]⟩
  | lock command =>
    have hcaller (command' : Command) (rest : List CmdStore) : s.callers i ≠ .store command' rest := by
      rw [hpc]
      exact nofun
    simp only [callerStep]
    split_ifs with hfree
    · exact ⟨slot, h.caller_passes (some i) hcaller nofun (.inl ⟨rfl, by rw [hpc]; rfl⟩)⟩
    · exact ⟨slot, h.caller_passes s.cmdMutex hcaller nofun (.inr ⟨command, .busy, rfl, by rw [hpc]; rfl, rfl⟩)⟩
    · exact ⟨slot, by rwa [List.append_nil]⟩
  | check command =>
    have hcaller (command' : Command) (rest : List CmdStore) : s.callers i ≠ .store command' rest := by
      rw [hpc]
      exact nofun
    simp only [callerStep]
    cases hqueue : command.queue s with
    | ok stores =>
      refine ⟨slot, h.caller_passes s.cmdMutex hcaller ?_ (.inl ⟨rfl, by rw [hpc]; rfl⟩)⟩
      intro command' rest heq
      obtain ⟨rfl, rfl⟩ := CallerPc.store.inj heq
      exact queue_ok hqueue
    | error err =>
      have hnil := succeeding_error command (queue_error hqueue)
      exact ⟨slot, h.caller_passes s.cmdMutex hcaller nofun (.inl ⟨rfl, by rw [hpc, hnil]; rfl⟩)⟩
  | store command rest =>
    obtain rfl | rfl := h.filling i command rest hpc
    · rw [hpc, stores_eq] at hok
      rw [stores_eq] at hpc ⊢
      exact ⟨_, h.begins hpc hok.1 hok.2⟩
    · cases rest with
      | nil => exact ⟨_, h.posts⟩
      | cons new rest => exact ⟨_, h.continues⟩
  | unlock command ret =>
    have hcaller (command' : Command) (rest : List CmdStore) : s.callers i ≠ .store command' rest := by
      rw [hpc]
      exact nofun
    exact ⟨slot, h.caller_passes none hcaller nofun (.inr ⟨command, ret, rfl, by rw [hpc], rfl⟩)⟩

/-! Any step, and a run. -/

theorem CommandInv.stepEvent (h : CommandInv tr s slot) (encoderTriggered : Bool) (hthread : s.thread = .loop) :
    ∃ slot', CommandInv (tr ++ []) (targetReached encoderTriggered s) slot' := by
  have hready (i : ι) (command : Command) (hwaiting : slot.waiting = some (i, command)) :
      Ready command.cmd s.state s := h.ready i command hwaiting (by rw [hthread]; rfl)
  have hapart : s.thread.apart = true := by rw [hthread]; rfl
  have hsame : ∃ slot', CommandInv (tr ++ []) s slot' := ⟨slot, by rwa [List.append_nil]⟩
  have hidle : ∃ slot', CommandInv (tr ++ []) { s with state := .idle } slot' := by
    refine ⟨slot, h.silent rfl (h.holds.stays rfl rfl rfl rfl rfl hapart hapart) ?_ (fun _ _ _ _ => rfl) ?_ rfl⟩
    · intro i command hwaiting _
      exact (hready i command hwaiting).idle.congr fun _ => ⟨rfl, rfl⟩
    · change s.thread.Window _
      rw [hthread]
      trivial
  have hrecover (hstate : s.state = .positioningWithEncoder) :
      ∃ slot', CommandInv (tr ++ []) { s with pendingCmd := .home, owner := none, thread := .recover } slot' := by
    -- no call has a command for a wheel that moves
    have hwaiting : slot.waiting = none := by
      cases hwaiting : slot.waiting with
      | none => rfl
      | some p => exact absurd hstate (hready p.1 p.2 hwaiting).state_ne
    refine ⟨.recovering, h.silent rfl ⟨rfl, rfl, rfl⟩ nofun ?_ trivial ?_⟩
    · rintro i command rest rfl
      contradiction
    · cases slot with
      | posted owner command => cases owner <;> [rfl; contradiction]
      | taken owner command => cases owner <;> [rfl; contradiction]
      | _ => rfl
  rw [targetReached]
  cases hstate : s.state <;> simp only [true_and, reduceCtorEq, false_and, if_false]
  case positioningWithEncoder =>
    split_ifs
    · simpa only [hstate] using hrecover hstate
    · exact hidle
  all_goals first | exact hsame | exact hidle

/-- The interrupts count steps. -/
theorem CommandInv.steps (h : CommandInv tr s slot) (current : Int) (hok : s.state = .idle → s.thread.spins = true) :
    CommandInv (tr ++ []) { s with current } slot := by
  refine h.silent rfl ?_ ?_ (fun _ _ _ _ => rfl) ?_ rfl
  · have hholds := h.holds
    cases slot with
    | filling i command rest =>
      obtain ⟨hcmd, howner, hsem, hapart, hcaller, hrest, hreads⟩ := hholds
      refine ⟨hcmd, howner, hsem, hapart, hcaller, hrest, ?_⟩
      have hsetAngle : ({ s with current } : Commands ι).setAngle = s.setAngle := rfl
      rwa [foldl_setAngle _ _ hsetAngle]
    | taken owner command =>
      obtain ⟨hsem, hcarries⟩ := hholds
      refine ⟨hsem, ?_⟩
      change WheelPc.Carries _ owner command s.thread
      cases hthread : s.thread <;> rw [hthread] at hcarries <;> exact hcarries
    | _ => exact hholds
  · intro i command hwaiting hsettled
    have hready := h.ready i command hwaiting hsettled
    change s.thread.settled = true at hsettled
    cases command with
    | calibrate =>
      have hspins := hok hready.1
      cases hthread : s.thread <;> rw [hthread] at hsettled hspins <;> contradiction
    | setAngle cmd => exact hready
    | home => exact hready
  · have hwindow := h.window
    change s.thread.Window _
    cases hthread : s.thread <;> rw [hthread] at hwindow hok <;> try trivial
    -- homed, the wheel stands still
    exact absurd (hok hwindow.1) nofun

theorem CommandInv.step (h : CommandInv tr s slot) (a : CommandAction ι) (hok : Orderly s a) :
    ∃ slot', CommandInv (tr ++ (commandStep s a).1) (commandStep s a).2 slot' := by
  have hsame : ∃ slot', CommandInv (tr ++ []) s slot' := ⟨slot, by rwa [List.append_nil]⟩
  cases a with
  | call i command maxFrequency =>
    simp only [commandStep]
    cases hpc : s.callers i with
    | idle =>
      have hcaller (command' : Command) (rest : List CmdStore) : s.callers i ≠ .store command' rest := by
        rw [hpc]
        exact nofun
      split_ifs
      · have hself : s.at i .idle = s := by
          rw [Commands.at, ← hpc, Function.update_eq_self]
        rw [← hself]
        exact ⟨slot, h.caller_passes s.cmdMutex hcaller nofun (.inr ⟨command, .invalidParam, rfl, by rw [hpc]; rfl, rfl⟩)⟩
      · exact ⟨slot, h.caller_passes s.cmdMutex hcaller nofun (.inl ⟨rfl, by rw [hpc]; rfl⟩)⟩
    | _ => exact hsame
  | run i timedOut => exact h.caller_step i timedOut hok
  | thread ok => exact h.thread_step ok hok
  | stepEvent encoderTriggered =>
    simp only [commandStep]
    cases hthread : s.thread with
    | loop => exact h.stepEvent encoderTriggered hthread
    | _ => exact hsame
  | steps current => exact ⟨slot, h.steps current hok⟩

theorem CommandInv.initial : CommandInv [] (.initial : Commands ι) .free where
  holds := ⟨rfl, rfl, rfl⟩
  ready := nofun
  filling := nofun
  window := trivial
  queued := rfl
  succeeded := fun _ => rfl
  dropped := nofun

theorem CommandInv.noneLost (h : CommandInv tr s slot) : NoneLost tr s where
  succeeded := h.succeeded
  executed := ⟨slot.queued, h.queued.symm⟩
  waits := by
    intro hthread hsem
    have hholds := h.holds
    rw [h.queued]
    cases slot with
    | posted owner command => exact absurd (hsem.symm.trans hholds.2.2.1) nofun
    | taken owner command =>
      rw [Slot.Holds, hthread] at hholds
      exact absurd hholds.2 id
    | _ => exact (List.append_nil _).symm
  dropped := h.dropped

/-- While every step is orderly, no command is lost. -/
theorem no_command_lost (as : List (CommandAction ι)) (hok : Machine.Meets commandStep Orderly .initial as) :
    NoneLost (Machine.events commandStep .initial as) (Machine.run commandStep .initial as).2 := by
  have hrun := Machine.events_invariant (I := fun tr s => ∃ slot, CommandInv tr s slot)
    (fun tr s a ⟨slot, h⟩ hok => h.step a hok) [] .initial as ⟨.free, .initial⟩ hok
  obtain ⟨slot, h⟩ := hrun
  exact h.noneLost

/-- The homing that is queued at the start, with the calibration and the homing behind it. -/
def homedRun : List (CommandAction Bool) :=
  .call false .home 0 :: (List.replicate 6 (.run false false) ++ List.replicate 17 (.thread true))

/-- A call for an angle, from its first step to its last. -/
def angleCall (i : Bool) (cmd : SetAngleCmd) : List (CommandAction Bool) :=
  .call i (.setAngle cmd) 1920 :: List.replicate 8 (.run i false)

theorem no_command_lost_homed :
    let as := homedRun ++ angleCall true ⟨192, 1200, true⟩ ++ List.replicate 9 (.thread true)
    executedCommands (Machine.events commandStep .initial as) = [(false, .home), (true, .setAngle ⟨192, 1200, true⟩)] ∧
      NoneLost (Machine.events commandStep .initial as) (Machine.run commandStep .initial as).2 :=
  ⟨by decide +kernel, no_command_lost _ (by decide +kernel)⟩

/-- A second call for an angle succeeds before the thread has taken the command of the first. -/
theorem command_lost :
    ¬ ∀ as : List (CommandAction Bool),
      NoneLost (Machine.events commandStep .initial as) (Machine.run commandStep .initial as).2 := by
  intro h
  have hwaits := (h (homedRun ++ angleCall true ⟨192, 1200, true⟩ ++ angleCall false ⟨192, 2400, true⟩ ++
    List.replicate 9 (.thread true))).waits (by decide +kernel) (by decide +kernel)
  exact absurd hwaits (by decide +kernel)

end OrbFirmware.Polarizer

import OrbFirmware.Runner.Handlers

/-! Every command from the Jetson is acknowledged once: by its handler, or, where an asynchronous call took
it over, by the callback. The delays that `handle_reboot_orb` refuses are acknowledged twice. -/
namespace OrbFirmware.Runner
open Interaction Program
variable {α β : Type} {job : Context}

/-- The acknowledgements published: number, code and destination. -/
def acks (trace : List Event) : List (UInt32 × ErrorCode × UInt32) :=
  trace.filterMap fun
    | ⟨.publishNew (.ack ackNumber error) remoteAddr, _⟩ => some (ackNumber, error, remoteAddr)
    | _ => none

/-- An asynchronous call returned `-EINPROGRESS`: its callback acknowledges. -/
def deferred (trace : List Event) : Bool :=
  trace.any fun
    | ⟨.async _, result⟩ => decide (result = -eInProgress)
    | _ => false

def AcknowledgedOnce (job : Context) (trace : List Event) : Prop :=
  if deferred trace then acks trace = []
  else ∃ error, acks trace = [(job.ackNumber, error, job.remoteAddr)]

theorem acks_append (s t : List Event) : acks (s++t) = acks s++acks t := List.filterMap_append

theorem deferred_append (s t : List Event) : deferred (s++t) = (deferred s || deferred t) := List.any_append

/-- Neither an acknowledgement nor a deferral. -/
def Silent (p : Handler α) : Prop := p.Always fun trace _ => acks trace = [] ∧ deferred trace = false

def AcksOnce (job : Context) (p : Handler α) : Prop := p.Always fun trace _ => AcknowledgedOnce job trace

theorem silent_pure (a : α) : Silent (pure a) := ⟨rfl, rfl⟩

theorem silent_ret (f : RetCall) : Silent (ret f) := fun _ => ⟨rfl, rfl⟩

theorem silent_bool (f : BoolCall) : Silent (bool f) := fun _ => ⟨rfl, rfl⟩

theorem silent_void (f : VoidCall) : Silent (void f) := fun _ => ⟨rfl, rfl⟩

theorem silent_if {c : Prop} [Decidable c] {p q : Handler α} (hp : Silent p) (hq : Silent q) :
    Silent (if c then p else q) := by
  split
  · exact hp
  · exact hq

theorem Silent.bind {p : Handler α} {k : α → Handler β} (hp : Silent p) (hk : ∀ a, Silent (k a)) :
    Silent (p >>= k) := by
  refine (always_bind p k _).mpr (hp.imp ?_)
  intro s a hs
  refine (hk a).imp ?_
  intro t b ht
  rw [acks_append, deferred_append, hs.1, ht.1, hs.2, ht.2]
  exact ⟨rfl, rfl⟩

theorem silent_markReboot (cfg : BuildConfig) (reason : MfltRebootReason) : Silent (markReboot cfg reason) :=
  silent_if (silent_void _) (silent_pure _)

theorem silent_autohomingPearl (axis : HomingAngle) : Silent (autohomingPearl axis) :=
  (silent_if (silent_ret _) (silent_pure _)).bind fun _ =>
    (silent_if (silent_ret _) (silent_pure _)).bind fun _ => silent_pure _

theorem AcksOnce.after {p : Handler α} {k : α → Handler β} (hp : Silent p) (hk : ∀ a, AcksOnce job (k a)) :
    AcksOnce job (p >>= k) := by
  refine (always_bind p k _).mpr (hp.imp ?_)
  intro s a hs
  refine (hk a).imp ?_
  intro t b ht
  rw [AcknowledgedOnce, acks_append, deferred_append, hs.1, hs.2]
  exact ht

theorem AcksOnce.andThen {p : Handler α} {k : α → Handler β} (hp : AcksOnce job p) (hk : ∀ a, Silent (k a)) :
    AcksOnce job (p >>= k) := by
  refine (always_bind p k _).mpr (hp.imp ?_)
  intro s a hs
  refine (hk a).imp ?_
  intro t b ht
  rw [AcknowledgedOnce, acks_append, deferred_append, ht.1, ht.2, List.append_nil, Bool.or_false]
  exact hs

theorem acksOnce_if {c : Prop} [Decidable c] {p q : Handler α} (hp : AcksOnce job p)
    (hq : AcksOnce job q) : AcksOnce job (if c then p else q) := by
  split
  · exact hp
  · exact hq

section
variable (hjob : job.remote = .canJetsonMessaging)
include hjob

theorem acksOnce_jobAck (error : ErrorCode) : AcksOnce job (jobAck error job) := by
  rw [jobAck, if_pos hjob]
  refine AcksOnce.andThen ?_ fun _ => silent_if (silent_void _) (silent_pure _)
  intro _
  exact ⟨error, rfl⟩

theorem acksOnce_ackResult (f : RetCall) (codes : List (RetCode × ErrorCode)) (other : ErrorCode) :
    AcksOnce job (ackResult f codes other job) :=
  AcksOnce.after (silent_ret f) fun _ => acksOnce_jobAck hjob _

theorem acksOnce_ackDone (f : VoidCall) : AcksOnce job (ackDone f job) :=
  AcksOnce.after (silent_void f) fun _ => acksOnce_jobAck hjob _

/-- A handler that leaves `-EINPROGRESS` to the callback. -/
theorem acksOnce_async (f : AsyncCall) (code : Int → ErrorCode) :
    AcksOnce job (do
      let result ← async f
      if result = -eInProgress then pure () else jobAck (code result) job) := by
  intro result
  by_cases h : result = -eInProgress
  · subst h
    rfl
  · have hack := acksOnce_jobAck hjob (code result)
    change (if result = -eInProgress then pure () else jobAck (code result) job).Always _
    rw [if_neg h]
    refine hack.imp ?_
    intro trace _ ht
    have hd : deferred (⟨.async f, result⟩::trace) = deferred trace := by
      change (decide (result = -eInProgress) || deferred trace) = deferred trace
      rw [decide_eq_false h, Bool.false_or]
    simp only [AcknowledgedOnce, hd]
    exact ht

theorem acksOnce_rebootMessage (cfg : BuildConfig) (delay : UInt32) :
    AcksOnce job (handleRebootMessage cfg delay job) := by
  unfold handleRebootMessage
  refine acksOnce_if (acksOnce_jobAck hjob _) (AcksOnce.after (silent_ret _) fun _ => ?_)
  refine acksOnce_if (AcksOnce.andThen (acksOnce_jobAck hjob _) fun _ => ?_) (acksOnce_jobAck hjob _)
  have hpublish (m : UInt32) (a : UInt32) : Silent (call (.publishNew (.shutdownJetsonRequestedReboot m) a)) :=
    fun _ => ⟨rfl, rfl⟩
  exact (hpublish _ _).bind fun _ => silent_markReboot cfg _

theorem acksOnce_rebootOrbFailed : AcksOnce job (rebootOrbFailed job) :=
  AcksOnce.after (silent_void _) fun _ => acksOnce_jobAck hjob _

theorem acksOnce_rebootOrb (cfg : BuildConfig) {delay : UInt32} (h : ¬ RebootOrbOutOfRange delay) :
    AcksOnce job (handleRebootOrb cfg delay job) := by
  rw [handleRebootOrb, if_neg h]
  refine AcksOnce.after (silent_ret _) fun flag => ?_
  refine acksOnce_if ?_ (acksOnce_rebootOrbFailed hjob)
  refine AcksOnce.after (silent_if (silent_ret _) (silent_pure _)) fun result => ?_
  refine acksOnce_if ?_ (acksOnce_rebootOrbFailed hjob)
  exact AcksOnce.after (silent_markReboot cfg _) fun _ => acksOnce_jobAck hjob _

theorem acksOnce_setConfig (config : SetConfig) : AcksOnce job (handleSetConfig config job) := by
  cases config with
  | rebootBehavior behavior => exact acksOnce_ackResult hjob _ _ _
  | other which => exact acksOnce_jobAck hjob _

theorem acksOnce_ackMirrorAngles (phi theta : RetCall) : AcksOnce job (ackMirrorAngles phi theta job) := by
  refine AcksOnce.after (silent_bool _) fun busy => ?_
  refine acksOnce_if (acksOnce_jobAck hjob _) (AcksOnce.after (silent_ret _) fun first => ?_)
  exact AcksOnce.after (silent_if (silent_ret _) (silent_pure _)) fun _ => acksOnce_jobAck hjob _

theorem acksOnce_mirrorAngle (msg : MirrorAngle) : AcksOnce job (handleMirrorAngleMessage msg job) := by
  unfold handleMirrorAngleMessage
  cases msg.angleType with
  | horizontalVertical | phiTheta => exact acksOnce_ackMirrorAngles hjob _ _
  | other value => exact acksOnce_jobAck hjob _

theorem acksOnce_mirrorAngleRelative (msg : MirrorAngleRelative) :
    AcksOnce job (handleMirrorAngleRelativeMessage msg job) := by
  unfold handleMirrorAngleRelativeMessage
  cases msg.angleType with
  | horizontalVertical | phiTheta => exact acksOnce_ackMirrorAngles hjob _ _
  | other value => exact acksOnce_jobAck hjob _

theorem acksOnce_fanSpeed (which : FanSpeedTag) (speed : UInt32) :
    AcksOnce job (handleFanSpeed which speed job) := by
  refine AcksOnce.after (silent_bool _) fun overtemp => acksOnce_if (acksOnce_jobAck hjob _) ?_
  cases which with
  | none | percentage | value => exact acksOnce_if (acksOnce_jobAck hjob _) (acksOnce_ackDone hjob _)
  | other which => exact acksOnce_jobAck hjob _

theorem acksOnce_ackLedsSequence (rgb24 argb32 : List UInt8 → RetCall) (sequence : LedsSequence) :
    AcksOnce job (ackLedsSequence rgb24 argb32 sequence job) := by
  cases sequence with
  | rgbUncompressed bytes | argb32Uncompressed bytes => exact acksOnce_ackResult hjob _ _ _
  | other which => exact acksOnce_jobAck hjob _

theorem acksOnce_confirmPrimary : AcksOnce job (confirmPrimary job) :=
  AcksOnce.after (silent_bool _) fun _ =>
    acksOnce_if (acksOnce_jobAck hjob _) (acksOnce_ackResult hjob _ _ _)

theorem acksOnce_fwImgPrimaryConfirm : AcksOnce job (handleFwImgPrimaryConfirm job) := by
  have hsecondary : Silent (call .dfuVersionSecondaryGet) := fun _ => ⟨rfl, rfl⟩
  have hprimary : Silent (call .dfuVersionPrimaryGet) := fun _ => ⟨rfl, rfl⟩
  refine AcksOnce.after hsecondary fun secondary => acksOnce_if ?_ (acksOnce_confirmPrimary hjob)
  exact AcksOnce.after hprimary fun primary =>
    acksOnce_if (acksOnce_jobAck hjob _) (acksOnce_confirmPrimary hjob)

theorem acksOnce_doMirrorHoming (cfg : BuildConfig) (mode : HomingMode) (axis : HomingAngle) :
    AcksOnce job (handleDoMirrorHoming cfg mode axis job) := by
  refine AcksOnce.after (silent_bool _) fun busy => acksOnce_if (acksOnce_jobAck hjob _) ?_
  cases mode with
  | stallDetection | other value => exact acksOnce_jobAck hjob _
  | oneBlockingEnd =>
    cases cfg.board with
    | pearl => exact AcksOnce.after (silent_autohomingPearl axis) fun _ => acksOnce_jobAck hjob _
    | diamond => exact AcksOnce.after (silent_ret _) fun _ => acksOnce_jobAck hjob _
  | withKnownCoordinates =>
    cases cfg.board with
    | pearl => exact acksOnce_jobAck hjob _
    | diamond => exact AcksOnce.after (silent_ret _) fun _ => acksOnce_jobAck hjob _

theorem acksOnce_liquidLens (current : Int32) (enable : Bool) :
    AcksOnce job (handleLiquidLens current enable job) := by
  unfold handleLiquidLens
  refine acksOnce_if (AcksOnce.after (silent_ret _) fun err => ?_) (acksOnce_jobAck hjob _)
  exact AcksOnce.andThen (acksOnce_jobAck hjob _) fun _ => silent_if (silent_void _) (silent_pure _)

theorem acksOnce_polarizer (msg : Polarizer) : AcksOnce job (handlePolarizer msg job) := by
  unfold handlePolarizer
  cases msg.command with
  | other value => exact acksOnce_jobAck hjob _
  | _ => exact acksOnce_ackResult hjob _ _ _

theorem acksOnce_valueGet (value : ValueGet) : AcksOnce job (handleValueGetMessage value job) := by
  refine AcksOnce.after (silent_void _) fun _ => ?_
  cases value with
  | other value => exact acksOnce_jobAck hjob _
  | _ => exact acksOnce_ackDone hjob _

theorem acksOnce_syncDiagData (cfg : BuildConfig) (interval : UInt32) :
    AcksOnce job (handleSyncDiagData cfg interval job) := by
  refine AcksOnce.after ?_ fun _ => acksOnce_ackDone hjob _
  exact silent_if ((silent_void _).bind fun _ => silent_void _) (silent_pure _)

theorem acksOnce_diagTest (cfg : BuildConfig) (action : DiagTestAction) :
    AcksOnce job (handleDiagTestData cfg action job) := by
  refine acksOnce_if (acksOnce_jobAck hjob _) (AcksOnce.andThen (acksOnce_jobAck hjob _) fun _ => ?_)
  cases diagTestFault action with
  | some errorCase => exact silent_void _
  | none => exact silent_pure _

theorem acksOnce_setTime (time : SetTime) : AcksOnce job (handleSetTime time job) := by
  refine AcksOnce.after (silent_void _) fun _ => AcksOnce.after ?_ fun result =>
    acksOnce_if (acksOnce_jobAck hjob _) (acksOnce_jobAck hjob _)
  cases time with
  | humanReadable date => exact silent_ret _
  | epochTime epoch => exact silent_ret _
  | other which => exact silent_pure _

/-- The commands that are acknowledged more than once. -/
def RefusedReboot : JetsonToMcu → Prop
  | .rebootOrb delay => RebootOrbOutOfRange delay
  | _ => False

theorem acksOnce_handleJetsonCmd (cfg : BuildConfig) {cmd : JetsonToMcu} (h : ¬ RefusedReboot cmd) :
    AcksOnce job (handleJetsonCmd cfg cmd job) := by
  have hack := acksOnce_jobAck hjob
  have hresult := acksOnce_ackResult hjob
  have hdone := acksOnce_ackDone hjob
  cases cmd with
  | shutdown delay => exact acksOnce_if (hack _) (hresult _ _ _)
  | reboot delay => exact acksOnce_rebootMessage hjob cfg delay
  | mirrorAngle angle => exact acksOnce_mirrorAngle hjob angle
  | doHoming mode angle => exact acksOnce_doMirrorHoming hjob cfg mode angle
  | userLedsPattern pattern => exact acksOnce_if (hack _) (hresult _ _ _)
  | userLedsBrightness brightness => exact acksOnce_if (hack _) (hdone _)
  | distributorLedsPattern pattern => exact acksOnce_if (hack _) (hresult _ _ _)
  | distributorLedsBrightness brightness => exact acksOnce_if (hack _) (hresult _ _ _)
  | dfuBlock number count block =>
    exact AcksOnce.after (silent_void _) fun _ => acksOnce_async hjob _ _
  | fwImageCheck crc32 => exact AcksOnce.after (silent_void _) fun _ => acksOnce_async hjob _ _
  | fanSpeed which payload => exact acksOnce_fanSpeed hjob which payload
  | liquidLens current enable => exact acksOnce_liquidLens hjob current enable
  | mirrorAngleRelative angle => exact acksOnce_mirrorAngleRelative hjob angle
  | valueGet value => exact acksOnce_valueGet hjob value
  | centerLedsSequence sequence | distributorLedsSequence sequence | ringLedsSequence sequence =>
    exact acksOnce_ackLedsSequence hjob _ _ sequence
  | fwImagePrimaryConfirm => exact acksOnce_fwImgPrimaryConfirm hjob
  | syncDiagData interval => exact acksOnce_syncDiagData hjob cfg interval
  | diagTest action => exact acksOnce_diagTest hjob cfg action
  | setTime time => exact acksOnce_setTime hjob time
  | rebootOrb delay => exact acksOnce_rebootOrb hjob cfg h
  | setConfig config => exact acksOnce_setConfig hjob config
  | startTriggeringIrFaceCamera | stopTriggeringIrFaceCamera | startTriggering2dtofCamera
  | stopTriggering2dtofCamera | startTriggeringRgbFaceCamera | stopTriggeringRgbFaceCamera
  | voltageRequest ms => exact hdone _
  | coneLedsSequence sequence =>
    unfold handleJetsonCmd handleMessageCallbacks
    cases cfg.board with
    | pearl => exact hack _
    | diamond => exact acksOnce_if (acksOnce_ackLedsSequence hjob _ _ sequence) (hack _)
  | coneLedsPattern pattern =>
    unfold handleJetsonCmd handleMessageCallbacks
    cases cfg.board with
    | pearl => exact hack _
    | diamond => exact acksOnce_if (hdone _) (hack _)
  | whiteLedsBrightness brightness =>
    unfold handleJetsonCmd handleMessageCallbacks
    cases cfg.board with
    | pearl => exact hack _
    | diamond => exact acksOnce_if (hack _) (hdone _)
  | polarizer msg =>
    unfold handleJetsonCmd handleMessageCallbacks
    cases cfg.board with
    | pearl => exact hack _
    | diamond => exact acksOnce_polarizer hjob msg
  | polarizerWheelSettings acceleration maxSpeed =>
    unfold handleJetsonCmd handleMessageCallbacks
    cases cfg.board with
    | pearl => exact hack _
    | diamond => exact AcksOnce.after (silent_void _) fun _ => hdone _
  | other which => exact hack _
  | _ => exact hresult _ _ _

/-- A refused delay is acknowledged with both its codes. -/
theorem rebootOrb_acks_twice (cfg : BuildConfig) {delay : UInt32} (h : RebootOrbOutOfRange delay) :
    (handleRebootOrb cfg delay job).Always fun trace _ =>
      deferred trace = false ∧
        acks trace = [(job.ackNumber, .range, job.remoteAddr), (job.ackNumber, .fail, job.remoteAddr)] := by
  unfold handleRebootOrb rebootOrbFailed jobAck
  rw [if_pos h, if_pos hjob, if_pos hjob, if_neg (by decide), if_neg (by decide)]
  intro _ _ _
  exact ⟨rfl, rfl⟩

end

/-- Whatever the modules answer, a Jetson command received over CAN is acknowledged once, unless it is a
reboot of the orb with a delay that `handle_reboot_orb` refuses. -/
theorem command_acknowledged_once (cfg : BuildConfig) (remoteAddr ackNumber : UInt32) (cmd : JetsonToMcu)
    (trace : List Event)
    (h : (runnerProcessJob cfg ⟨⟨.canJetsonMessaging, remoteAddr, ackNumber⟩, cmd⟩).Run trace ()) :
    AcknowledgedOnce ⟨.canJetsonMessaging, remoteAddr, ackNumber⟩ trace ↔ ¬ RefusedReboot cmd := by
  have hallow : Silent (allowResponse remoteAddr) := silent_if (silent_void _) (silent_pure _)
  constructor
  · intro hack hcmd
    cases cmd with
    | rebootOrb delay =>
      have hjob : (⟨.canJetsonMessaging, remoteAddr, ackNumber⟩ : Context).remote = .canJetsonMessaging := rfl
      have htwice := rebootOrb_acks_twice hjob cfg hcmd
      have hrun : (runnerProcessJob cfg ⟨⟨.canJetsonMessaging, remoteAddr, ackNumber⟩, .rebootOrb delay⟩).Always
          fun trace _ => deferred trace = false ∧ (acks trace).length = 2 := by
        refine (always_bind _ _ _).mpr (hallow.imp ?_)
        intro s _ hs
        refine htwice.imp ?_
        intro t _ ht
        rw [acks_append, deferred_append, hs.1, hs.2, ht.1, ht.2]
        exact ⟨rfl, rfl⟩
      obtain ⟨hd, hlen⟩ := (always_iff _ _).mp hrun trace () h
      rw [AcknowledgedOnce, hd] at hack
      obtain ⟨error, hone⟩ := hack
      simp only [hone, List.length_singleton] at hlen
      omega
    | _ => exact hcmd
  · intro hcmd
    have honce : AcksOnce ⟨.canJetsonMessaging, remoteAddr, ackNumber⟩
        (runnerProcessJob cfg ⟨⟨.canJetsonMessaging, remoteAddr, ackNumber⟩, cmd⟩) :=
      AcksOnce.after hallow fun _ => acksOnce_handleJetsonCmd rfl cfg hcmd
    exact (always_iff _ _).mp honce trace () h

theorem command_acknowledged_once_fps :
    AcknowledgedOnce ⟨.canJetsonMessaging, 0x80, 7⟩
      [⟨.void (.subscribeAdd 0x80), ()⟩, ⟨.ret (.irCameraSystemSetFps 30), 9⟩,
        ⟨.publishNew (.ack 7 .forbidden) 0x80, ()⟩] ↔ ¬ RefusedReboot (.fps 30) :=
  command_acknowledged_once ⟨.pearl, false, false, false, false⟩ 0x80 7 (.fps 30) _
    (.call _ (.call _ (.call _ (.done _))))

/-- A delay of five seconds is acknowledged with `RANGE`, and then, past the same branch, with `FAIL`. -/
theorem short_delay_acknowledged_twice :
    ¬ ∀ (cfg : BuildConfig) (remoteAddr ackNumber : UInt32) (cmd : JetsonToMcu) (trace : List Event),
      (runnerProcessJob cfg ⟨⟨.canJetsonMessaging, remoteAddr, ackNumber⟩, cmd⟩).Run trace () →
      AcknowledgedOnce ⟨.canJetsonMessaging, remoteAddr, ackNumber⟩ trace := by
  intro h
  have hrun : (runnerProcessJob ⟨.pearl, false, false, false, false⟩
      ⟨⟨.canJetsonMessaging, 0x80, 7⟩, .rebootOrb 5⟩).Run
      [⟨.void (.subscribeAdd 0x80), ()⟩, ⟨.publishNew (.ack 7 .range) 0x80, ()⟩,
        ⟨.void (.backupRegsWriteByte 0 0), ()⟩, ⟨.publishNew (.ack 7 .fail) 0x80, ()⟩] () :=
    .call _ (.call _ (.call _ (.call _ (.done _))))
  obtain ⟨error, hone⟩ := h _ _ _ _ _ hrun
  injection hone with _ hrest
  injection hrest

end OrbFirmware.Runner

import OrbFirmware.RgbLeds.FrontLeds

/-! The last LED command wins, for the operator LEDs and for the front LEDs. -/
namespace OrbFirmware.RgbLeds
variable {board : Board} {driver : LedRgb → LedRgb}

/-! The operator LEDs. -/

structure OperatorInv (board : Board) (driver : LedRgb → LedRgb) (events : List OperatorEvent) (s : OperatorLeds) :
    Prop where
  shows : ∀ command, lastOperatorCommand events = some command → s.Shows board driver command
  quiet : s.useSequence = true → s.thread.isDrawing = false

theorem lastOperatorCommand_append (events : List OperatorEvent) (command : OperatorCommand) (ret : RetCode) :
    lastOperatorCommand (events ++ [(command, ret)]) =
      if ret = .success then some command else lastOperatorCommand events := by
  unfold lastOperatorCommand
  split_ifs with h <;> simp [h]

variable {events : List OperatorEvent} {s : OperatorLeds}

theorem OperatorInv.start (ledsCount : Nat) : OperatorInv board driver [] (operatorLedsInit board ledsCount) where
  shows := by simp [lastOperatorCommand]
  quiet := by simp [operatorLedsInit]

theorem operatorLedsSetPattern_shows (events : List OperatorEvent) (s : OperatorLeds) (pattern : OperatorPattern) (mask : UInt32)
    (color : Option RgbColor) :
    OperatorInv board driver (events ++ [(.setPattern pattern mask color, .success)])
      (operatorLedsSetPattern board pattern mask color s).2 where
  shows command hlast := by
    rw [lastOperatorCommand_append, if_pos rfl] at hlast
    obtain rfl := Option.some.inj hlast
    refine ⟨rfl, rfl, rfl, ?_⟩
    rintro c rfl
    rfl
  quiet hmode := absurd hmode (by simp [operatorLedsSetPattern])

/-- What a sequence of whole LEDs leaves, where its copy is to be shown. -/
theorem operatorLedsSetLedsSequence_shows {format : LedFormat} {bytes : List UInt8} (hsize : bytes.length % format.size = 0)
    (hshown : board = .pearl → s.useSequence = true ∨
      s.leds.map LedRgb.colour ≠ (sequenceLeds board format bytes s.leds.length).map LedRgb.colour) :
    (operatorLedsSetLedsSequence board format bytes s).1 = .success ∧
      (operatorLedsSetLedsSequence board format bytes s).2.useSequence = true ∧
      (operatorLedsSetLedsSequence board format bytes s).2.leds = sequenceLeds board format bytes s.leds.length ∧
      (operatorLedsSetLedsSequence board format bytes s).2.thread = s.thread := by
  have hleds := copySequence_leds board format bytes s.leds
  have hret : (copySequence board format bytes s.leds).1 = .success ∨
      (copySequence board format bytes s.leds).1 = .alreadyInitialized ∧ s.useSequence = true := by
    cases board with
    | diamond => exact .inl copySequence_diamond
    | pearl =>
      obtain hmode | hdiffers := hshown rfl
      · exact (copySequence_ret .pearl format bytes s.leds).imp_right fun hret => ⟨hret, hmode⟩
      · exact .inl (copySequence_found.mpr hdiffers)
  simp only [operatorLedsSetLedsSequence, rgbLedsSetLedsSequence, hsize, ne_eq, not_true_eq_false, if_false]
  obtain hret | ⟨hret, hmode⟩ := hret
  · rw [hret]
    exact ⟨rfl, rfl, hleds, rfl⟩
  · rw [hret]
    exact ⟨rfl, hmode, hleds, rfl⟩

theorem OperatorInv.setLedsSequence (h : OperatorInv board driver events s) {format : LedFormat} {bytes : List UInt8}
    (hregular : OperatorAction.Regular board s (.command (.setLedsSequence format bytes))) :
    OperatorInv board driver
      (events ++ [(.setLedsSequence format bytes, (operatorLedsSetLedsSequence board format bytes s).1)])
      (operatorLedsSetLedsSequence board format bytes s).2 := by
  by_cases hsize : bytes.length % format.size = 0
  · obtain ⟨hquiet, hshown⟩ := hregular hsize
    obtain ⟨hret, hmode, hleds, hthread⟩ := operatorLedsSetLedsSequence_shows hsize hshown
    constructor
    · intro command hlast
      rw [lastOperatorCommand_append, hret, if_pos rfl] at hlast
      obtain rfl := Option.some.inj hlast
      refine ⟨hmode, ?_⟩
      rw [hleds, sequenceLeds_length]
      exact holds_refl _
    · intro _
      rw [hthread]
      exact hquiet
  · have hunchanged : operatorLedsSetLedsSequence board format bytes s = (.invalidParam, s) := by
      simp [operatorLedsSetLedsSequence, rgbLedsSetLedsSequence, hsize]
    rw [hunchanged]
    refine ⟨fun command hlast => h.shows command ?_, h.quiet⟩
    rwa [lastOperatorCommand_append, if_neg (by simp)] at hlast

theorem OperatorInv.thread (h : OperatorInv board driver events s) (pulse : LedRgb) :
    OperatorInv board driver events (operatorLedsThread board driver pulse s) := by
  obtain ⟨shows, quiet⟩ := h
  simp only [operatorLedsThread]
  cases hthread : s.thread with
  | waits => exact ⟨shows, fun _ => rfl⟩
  | copied mask color =>
    refine ⟨shows, ?_⟩
    intro (hmode : s.useSequence = true)
    simp only [hmode, if_true]
    rfl
  | draws mask color =>
    have hoff : s.useSequence ≠ true := by
      intro hmode
      simpa [hthread, OperatorPc.isDrawing] using quiet hmode
    refine ⟨fun command hlast => ?_, fun hmode => absurd hmode hoff⟩
    cases command with
    | setPattern pattern mask color => exact shows _ hlast
    | setLedsSequence format bytes => exact absurd (shows _ hlast).1 hoff
  | updates =>
    refine ⟨fun command hlast => ?_, fun _ => rfl⟩
    cases command with
    | setPattern pattern mask color => exact shows _ hlast
    | setLedsSequence format bytes =>
      obtain ⟨hmode, hholds⟩ := shows _ hlast
      refine ⟨hmode, ?_⟩
      change Holds driver (s.leds.map driver) (sequenceLeds board format bytes (s.leds.map driver).length)
      rw [List.length_map]
      exact hholds.update

theorem OperatorInv.step (h : OperatorInv board driver events s) (a : OperatorAction) (hregular : a.Regular board s) :
    OperatorInv board driver (events ++ (operatorStep board driver s a).1) (operatorStep board driver s a).2 := by
  cases a with
  | command command =>
    cases command with
    | setPattern pattern mask color => exact operatorLedsSetPattern_shows events s pattern mask color
    | setLedsSequence format bytes => exact h.setLedsSequence hregular
  | setBrightness brightness =>
    rw [operatorStep, List.append_nil]
    exact ⟨h.shows, h.quiet⟩
  | thread pulse =>
    rw [operatorStep, List.append_nil]
    exact h.thread pulse

theorem operator_inv (ledsCount : Nat) (actions : List OperatorAction)
    (hregular : Machine.Meets (operatorStep board driver) (fun s a => a.Regular board s)
      (operatorLedsInit board ledsCount) actions) :
    OperatorInv board driver (Machine.events (operatorStep board driver) (operatorLedsInit board ledsCount) actions)
      (Machine.run (operatorStep board driver) (operatorLedsInit board ledsCount) actions).2 := by
  have hstep : ∀ events s a, OperatorInv board driver events s → a.Regular board s →
      OperatorInv board driver (events ++ (operatorStep board driver s a).1) (operatorStep board driver s a).2 :=
    fun _ _ a h hregular => h.step a hregular
  have hinv := Machine.events_invariant hstep [] _ actions (OperatorInv.start ledsCount) hregular
  simpa using hinv

/-! The front LEDs. -/

theorem frontShown_append (events : List FrontEvent) (event : FrontEvent) :
    frontShown (events ++ [event]) =
      if event.ret = .success ∧ event.ignored = false then (frontShown events).next event.command
      else frontShown events := by
  unfold frontShown
  split_ifs with h <;> simp [h]

/-- Shown once a call for a sequence that has written its part returns. -/
def FrontLeds.promised (s : FrontLeds) (shown : FrontShown) : FrontShown :=
  match s.caller with
  | .idle | .writes _ _ _ => shown
  | .written part format bytes | .marks part format bytes => shown.next (.setLedsSequence part format bytes)

/-- The mode once such a call has set it. -/
def FrontLeds.modeToBe (s : FrontLeds) : Bool :=
  match s.caller with
  | .written _ _ _ => true
  | _ => s.useSequence

structure FrontInv (board : Board) (driver : LedRgb → LedRgb) (events : List FrontEvent) (s : FrontLeds) : Prop where
  shows : ({ s with useSequence := s.modeToBe } : FrontLeds).Shows board driver (s.promised (frontShown events))
  period : s.settings.pulsingPeriodMs ≠ 0

section
variable {events : List FrontEvent} {s s' : FrontLeds}

theorem FrontInv.start (centerCount ringCount : Nat) :
    FrontInv board driver [] (frontLedsInit board centerCount ringCount) where
  shows := trivial
  period := by simp [frontLedsInit, initialPulsingPeriodMs]

/-- What the LEDs show is up to the settings, the mode and the buffer. -/
theorem FrontLeds.Shows.congr {shown : FrontShown} (h : s.Shows board driver shown) (hsettings : s'.settings = s.settings)
    (hmode : s'.useSequence = s.useSequence) (hcenter : s'.center = s.center) (hring : s'.ring = s.ring) :
    s'.Shows board driver shown := by
  have hleds : s'.leds = s.leds := by
    funext part
    cases part with
    | center => exact hcenter
    | ring => exact hring
  cases shown with
  | nothing => trivial
  | pattern command => simpa only [FrontLeds.Shows, hmode, hsettings] using h
  | sequence leds => simpa only [FrontLeds.Shows, hmode, hleds] using h

theorem FrontInv.frame (h : FrontInv board driver events s) (hsettings : s'.settings = s.settings)
    (hmode : s'.useSequence = s.useSequence) (hcenter : s'.center = s.center) (hring : s'.ring = s.ring)
    (hcaller : s'.caller = s.caller) : FrontInv board driver events s' := by
  have hmodeToBe : s'.modeToBe = s.modeToBe := by simp only [FrontLeds.modeToBe, hcaller, hmode]
  have hpromised : s'.promised (frontShown events) = s.promised (frontShown events) := by
    simp only [FrontLeds.promised, hcaller]
  constructor
  · rw [hpromised]
    exact h.shows.congr hsettings hmodeToBe hcenter hring
  · rw [hsettings]
    exact h.period

theorem dimmed_rgb (board : Board) (color : RgbColor) : (color.dimmed board).red = color.red ∧
    (color.dimmed board).green = color.green ∧ (color.dimmed board).blue = color.blue := by
  cases board with
  | pearl => exact ⟨rfl, rfl, rfl⟩
  | diamond =>
    simp only [RgbColor.dimmed]
    split_ifs <;> exact ⟨rfl, rfl, rfl⟩

theorem dimmed_ne_zero (color : RgbColor) : (color.dimmed .diamond).dimming ≠ 0 := by
  simp only [RgbColor.dimmed]
  split_ifs with h
  · simp [rgbBrightnessMax]
  · exact fun hzero => h (.inl hzero)

/-- Settings that the command finds unchanged are its settings. -/
theorem identical_are {command : PatternCommand} {settings : FrontSettings} (hperiod : settings.pulsingPeriodMs ≠ 0)
    (h : previousSettingsAreIdentical board (command.dimmed board) settings = true) : settings.Are board command := by
  have hcolor : ∀ c, command.color = some c →
      settings.color.colour = (c.red.toUInt8, c.green.toUInt8, c.blue.toUInt8) ∧
        (board = .diamond → settings.color.scratch = (c.dimmed board).dimming.toUInt8) := by
    intro c hc
    obtain ⟨hred, hgreen, hblue⟩ := dimmed_rgb board c
    simp only [previousSettingsAreIdentical, PatternCommand.dimmed, hc, Option.map_some, Bool.and_eq_true, beq_iff_eq,
      hred, hgreen, hblue] at h
    obtain ⟨⟨⟨⟨-, hr⟩, hg⟩, hb⟩, hscratch⟩ := h
    refine ⟨?_, ?_⟩
    · simp [LedRgb.colour, ← hr, ← hg, ← hb]
    · rintro rfl
      have hscratch : settings.color.scratch.toUInt32 = (c.dimmed .diamond).dimming := by simpa using hscratch
      simp [← hscratch]
  have hall : ((((settings.pulsingScale == command.pulsingScale) = true ∧
      settings.pulsingPeriodMs = command.pulsingPeriodMs) ∧
      settings.pulsingDelayTimeMs = settings.pulsingPeriodMs / sineTableLength) ∧
      settings.pattern = command.pattern) ∧ settings.startAngleDegrees = command.startAngle ∧
      settings.angleLengthDegrees = command.angleLength := by
    cases hc : command.color with
    | none => simpa [previousSettingsAreIdentical, PatternCommand.dimmed, hc, and_assoc] using h
    | some c =>
      simp only [previousSettingsAreIdentical, PatternCommand.dimmed, hc, Option.map_some, Bool.and_eq_true,
        beq_iff_eq] at h
      simpa [and_assoc] using h.1.1.1.1
  obtain ⟨⟨⟨⟨hscale, hsame⟩, hdelay⟩, hpattern⟩, hstart, hlength⟩ := hall
  refine ⟨hpattern, hstart, hlength, ?_, hdelay, .inl hscale, hcolor⟩
  rw [if_neg (hsame ▸ hperiod), hsame]

theorem updateParameters_are (command : PatternCommand) (settings : FrontSettings) :
    (updateParameters board (command.dimmed board) settings).Are board command := by
  refine ⟨rfl, rfl, rfl, rfl, rfl, .inr rfl, ?_⟩
  intro c hc
  obtain ⟨hred, hgreen, hblue⟩ := dimmed_rgb board c
  refine ⟨?_, ?_⟩
  · simp [updateParameters, PatternCommand.dimmed, hc, updatedColor, LedRgb.colour, hred, hgreen, hblue]
  · rintro rfl
    simp [updateParameters, PatternCommand.dimmed, hc, updatedColor, dimmed_ne_zero]

theorem updateParameters_period (command : PatternCommand) (settings : FrontSettings) :
    (updateParameters board command settings).pulsingPeriodMs ≠ 0 := by
  simp only [updateParameters]
  split_ifs with h
  · decide
  · exact h

theorem FrontInv.setPattern (h : FrontInv board driver events s) (command : PatternCommand) (hcaller : s.caller = .idle)
    (hregular : FrontAction.Regular board s (.command (.setPattern command))) :
    FrontInv board driver (events ++ [{ command := .setPattern command, ret := (frontLedsSetPattern board command s).1 }])
      (frontLedsSetPattern board command s).2 := by
  simp only [frontLedsSetPattern]
  split_ifs with hrange hidentical
  · refine ⟨?_, h.period⟩
    rw [frontShown_append, if_neg (by simp)]
    exact h.shows
  · have hoff : s.useSequence = false := by
      by_contra hmode
      have hrefused := hregular (fun hpulsing => not_not.mp fun hcheck => hrange ⟨hpulsing, hcheck⟩)
        (Bool.not_eq_false _ ▸ hmode)
      exact absurd hidentical (Bool.eq_false_iff.mp hrefused)
    refine ⟨?_, h.period⟩
    rw [frontShown_append, if_pos ⟨rfl, rfl⟩]
    simp only [FrontLeds.promised, FrontLeds.modeToBe, hcaller]
    exact ⟨hoff, identical_are h.period hidentical⟩
  · refine ⟨?_, updateParameters_period _ _⟩
    rw [frontShown_append, if_pos ⟨rfl, rfl⟩]
    simp only [FrontLeds.promised, FrontLeds.modeToBe, hcaller]
    exact ⟨rfl, updateParameters_are command s.settings⟩

theorem FrontInv.startSequence (h : FrontInv board driver events s) (part : LedsPart) (format : LedFormat)
    (bytes : List UInt8) (hcaller : s.caller = .idle) :
    FrontInv board driver (events ++ (startSequence board part format bytes s).1)
      (startSequence board part format bytes s).2 := by
  have hsame : frontShown (events ++ (RgbLeds.startSequence board part format bytes s).1) = frontShown events := by
    simp only [RgbLeds.startSequence]
    split_ifs <;> simp [frontShown]
  have hshows := h.shows
  simp only [FrontLeds.promised, FrontLeds.modeToBe, hcaller] at hshows
  constructor
  · rw [hsame]
    simp only [RgbLeds.startSequence]
    split_ifs
    all_goals
      simp only [FrontLeds.promised, FrontLeds.modeToBe, hcaller]
      exact hshows.congr rfl rfl rfl rfl
  · simp only [RgbLeds.startSequence]
    split_ifs <;> exact h.period

theorem leds_setLeds (part : LedsPart) (leds : List LedRgb) :
    (s.setLeds part leds).leds = Function.update s.leds part leds := by
  funext part'
  cases part <;> cases part' <;> simp [FrontLeds.setLeds, FrontLeds.leds]

/-- A part written with a sequence shows it, beside what the other part shows. -/
theorem FrontLeds.Shows.write {shown : FrontShown} (h : s.Shows board driver shown) (part : LedsPart) (format : LedFormat)
    (bytes : List UInt8) (hmode : s'.useSequence = true)
    (hleds : s'.leds = Function.update s.leds part (sequenceLeds board format bytes (s.leds part).length)) :
    s'.Shows board driver (shown.next (.setLedsSequence part format bytes)) := by
  refine ⟨hmode, fun part' format' bytes' hpart => ?_⟩
  rw [hleds]
  by_cases hsame : part' = part
  · obtain rfl := hsame
    rw [Function.update_self] at hpart ⊢
    cases hpart
    rw [sequenceLeds_length]
    exact holds_refl _
  · rw [Function.update_of_ne hsame] at hpart ⊢
    cases shown with
    | nothing => cases hpart
    | pattern command => cases hpart
    | sequence leds => exact h.2 part' format' bytes' hpart

theorem setLeds_settings (part : LedsPart) (leds : List LedRgb) : (s.setLeds part leds).settings = s.settings := by
  cases part <;> rfl

theorem clean_keeps (part : LedsPart) : (s.clean part).settings = s.settings ∧
    (s.clean part).useSequence = s.useSequence ∧ (s.clean part).center = s.center ∧ (s.clean part).ring = s.ring := by
  cases part <;> exact ⟨rfl, rfl, rfl, rfl⟩

theorem FrontInv.sequenceStep (h : FrontInv board driver events s) :
    FrontInv board driver (events ++ (sequenceStep board s).1) (sequenceStep board s).2 := by
  have hshows := h.shows
  simp only [RgbLeds.sequenceStep]
  cases hcaller : s.caller with
  | idle =>
    rw [List.append_nil]
    exact h
  | writes part format bytes =>
    simp only [FrontLeds.promised, FrontLeds.modeToBe, hcaller] at hshows
    refine ⟨?_, ?_⟩
    · rw [List.append_nil]
      refine hshows.write part format bytes rfl ?_
      exact (leds_setLeds part _).trans (by rw [copySequence_leds]; rfl)
    · change (s.setLeds part _).settings.pulsingPeriodMs ≠ 0
      rw [setLeds_settings]
      exact h.period
  | written part format bytes =>
    rw [List.append_nil]
    simp only [FrontLeds.promised, FrontLeds.modeToBe, hcaller] at hshows
    exact ⟨hshows.congr rfl rfl rfl rfl, h.period⟩
  | marks part format bytes =>
    obtain ⟨hsettings, hmode, hcenter, hring⟩ := clean_keeps (s := s) part
    simp only [FrontLeds.promised, FrontLeds.modeToBe, hcaller] at hshows
    refine ⟨?_, ?_⟩
    · rw [frontShown_append, if_pos ⟨rfl, rfl⟩]
      exact hshows.congr hsettings hmode hcenter hring
    · change (s.clean part).settings.pulsingPeriodMs ≠ 0
      rw [hsettings]
      exact h.period

/-- While the mode is off and no call is under way, what the LEDs show is not up to the buffer. -/
theorem FrontInv.drawPicture (h : FrontInv board driver events s) (picture : LedsPart → Nat → LedRgb)
    (hcaller : s.caller = .idle) (hmode : s.useSequence = false) :
    FrontInv board driver events (drawPicture picture s) := by
  have hshows := h.shows
  simp only [FrontLeds.promised, FrontLeds.modeToBe, hcaller] at hshows
  refine ⟨?_, h.period⟩
  simp only [FrontLeds.promised, FrontLeds.modeToBe, RgbLeds.drawPicture, hcaller]
  cases hshown : frontShown events with
  | nothing => trivial
  | pattern command =>
    rw [hshown] at hshows
    exact hshows
  | sequence leds =>
    rw [hshown] at hshows
    exact absurd hshows.1 (by simp [hmode])

theorem FrontInv.nextSegment (h : FrontInv board driver events s) (segmentBright : Bool) :
    FrontInv board driver events (nextSegment board segmentBright s) := by
  simp only [RgbLeds.nextSegment]
  split_ifs
  · exact h.frame rfl rfl rfl rfl rfl
  · exact h

theorem FrontInv.takeUpdateSem (h : FrontInv board driver events s) :
    FrontInv board driver events
      (if s.ledsUpdateSem then { s with ledsUpdateSem := false, thread := .updates } else s) := by
  split_ifs
  · exact h.frame rfl rfl rfl rfl rfl
  · exact h

theorem FrontInv.wake (h : FrontInv board driver events s) (picture : LedsPart → Nat → LedRgb) (segmentBright : Bool)
    (hregular : s.draws = true → s.caller = .idle) :
    FrontInv board driver events (frontLedsThreadWake board picture segmentBright s) := by
  have htaken : FrontInv board driver events { s with semLedsRefresh := false } := h.frame rfl rfl rfl rfl rfl
  have hdrawn : FrontInv board driver events (if ({ s with semLedsRefresh := false } : FrontLeds).draws then
      RgbLeds.drawPicture picture { s with semLedsRefresh := false } else { s with semLedsRefresh := false }) := by
    split_ifs with hdraws
    · have hmode : s.useSequence = false := by
        simp only [FrontLeds.draws, Bool.and_eq_true, Bool.not_eq_true'] at hdraws
        exact hdraws.1.1.2
      exact htaken.drawPicture picture (hregular hdraws) hmode
    · exact htaken
  by_cases hskips : s.useSequence = false ∧ s.settings.pattern.handled = false
  · rw [frontLedsThreadWake, if_pos hskips]
    exact htaken
  · rw [frontLedsThreadWake, if_neg hskips]
    exact (hdrawn.nextSegment segmentBright).takeUpdateSem

theorem FrontInv.updated (h : FrontInv board driver events s) :
    FrontInv board driver events (frontLedsThreadUpdated driver s) := by
  have hshows := h.shows
  have hleds : ∀ part, (frontLedsThreadUpdated driver s).leds part = (s.leds part).map driver := by
    intro part
    cases part <;> rfl
  refine ⟨?_, h.period⟩
  change FrontLeds.Shows board driver { frontLedsThreadUpdated driver s with useSequence := s.modeToBe }
    (s.promised (frontShown events))
  cases hshown : s.promised (frontShown events) with
  | nothing => trivial
  | pattern command =>
    rw [hshown] at hshows
    exact hshows
  | sequence leds =>
    rw [hshown] at hshows
    refine ⟨hshows.1, fun part format bytes hpart => ?_⟩
    change Holds driver ((frontLedsThreadUpdated driver s).leds part)
      (sequenceLeds board format bytes ((frontLedsThreadUpdated driver s).leds part).length)
    rw [hleds, List.length_map]
    exact (hshows.2 part format bytes hpart).update

theorem FrontInv.step (h : FrontInv board driver events s) (a : FrontAction) (hregular : a.Regular board s) :
    FrontInv board driver (events ++ (frontStep board driver s a).1) (frontStep board driver s a).2 := by
  cases a with
  | command command =>
    simp only [frontStep]
    split
    · exact h.setPattern _ ‹_› hregular
    · exact h.startSequence _ _ _ ‹_›
    · rw [List.append_nil]
      exact h
  | caller => exact h.sequenceStep
  | setBrightness brightness =>
    rw [frontStep, List.append_nil]
    exact h.frame rfl rfl rfl rfl rfl
  | wake picture segmentBright =>
    rw [frontStep, List.append_nil]
    cases s.thread with
    | waits => exact h.wake picture segmentBright hregular
    | updates => exact h
  | updated =>
    rw [frontStep, List.append_nil]
    cases s.thread with
    | waits => exact h
    | updates => exact h.updated
  | bootProgressSet step =>
    rw [frontStep, List.append_nil]
    simp only [frontLedsBootProgressSet]
    split_ifs
    · exact h
    · exact h.frame rfl rfl rfl rfl rfl
    · exact h.frame rfl rfl rfl rfl rfl
  | takeUpdateSem =>
    rw [frontStep, List.append_nil]
    split_ifs
    · exact h.frame rfl rfl rfl rfl rfl
    · exact h
  | giveUpdateSem =>
    rw [frontStep, List.append_nil]
    split_ifs
    · exact h.frame rfl rfl rfl rfl rfl
    · exact h

theorem front_inv (centerCount ringCount : Nat) (actions : List FrontAction)
    (hregular : Machine.Meets (frontStep board driver) (fun s a => a.Regular board s)
      (frontLedsInit board centerCount ringCount) actions) :
    FrontInv board driver (Machine.events (frontStep board driver) (frontLedsInit board centerCount ringCount) actions)
      (Machine.run (frontStep board driver) (frontLedsInit board centerCount ringCount) actions).2 := by
  have hstep : ∀ events s a, FrontInv board driver events s → a.Regular board s →
      FrontInv board driver (events ++ (frontStep board driver s a).1) (frontStep board driver s a).2 :=
    fun _ _ a h hregular => h.step a hregular
  have hinv := Machine.events_invariant hstep [] _ actions (FrontInv.start centerCount ringCount) hregular
  simpa using hinv

end

/-- In a run of regular actions the operator LEDs show the last command that returned `RET_SUCCESS`, and the front LEDs,
when no command is under way, the last ones of these that were not ignored. -/
theorem last_led_command_wins (board : Board) (driver : LedRgb → LedRgb) :
    (∀ ledsCount actions,
      Machine.Meets (operatorStep board driver) (fun s a => a.Regular board s) (operatorLedsInit board ledsCount) actions →
      ∀ command, lastOperatorCommand
        (Machine.events (operatorStep board driver) (operatorLedsInit board ledsCount) actions) = some command →
      (Machine.run (operatorStep board driver) (operatorLedsInit board ledsCount) actions).2.Shows board driver command) ∧
    (∀ centerCount ringCount actions,
      Machine.Meets (frontStep board driver) (fun s a => a.Regular board s)
        (frontLedsInit board centerCount ringCount) actions →
      let s := (Machine.run (frontStep board driver) (frontLedsInit board centerCount ringCount) actions).2
      s.caller = .idle → s.Shows board driver
        (frontShown (Machine.events (frontStep board driver) (frontLedsInit board centerCount ringCount) actions))) := by
  constructor
  · intro ledsCount actions hregular
    exact (operator_inv ledsCount actions hregular).shows
  · intro centerCount ringCount actions hregular s hcaller
    have hshows := (front_inv centerCount ringCount actions hregular).shows
    change FrontLeds.Shows board driver { s with useSequence := s.modeToBe } (s.promised _) at hshows
    simp only [FrontLeds.promised, FrontLeds.modeToBe, hcaller] at hshows
    exact hshows.congr rfl rfl rfl rfl

def operatorRun : List OperatorAction :=
  [.thread rgbOff, .thread rgbOff, .thread rgbOff, .thread rgbOff, .command (.setPattern .allRed 0b11111 none),
    .thread rgbOff, .thread rgbOff, .thread rgbOff, .command (.setLedsSequence .rgb [1, 2, 3]), .thread rgbOff]

def frontRun : List FrontAction :=
  [.wake (fun _ _ => rgbOff) false, .updated, .bootProgressSet 5,
    .command (.setPattern ⟨.rgb, 90, 180, some ⟨10, 20, 30, 0⟩, 0, 0⟩), .wake (fun _ _ => ⟨31, 10, 20, 30⟩) false, .updated,
    .command (.setLedsSequence .center .argb [5, 1, 2, 3]), .caller, .caller, .caller,
    .command (.setLedsSequence .ring .rgb [4, 5, 6]), .caller, .caller, .caller, .wake (fun _ _ => rgbOff) false, .updated]

theorem last_led_command_wins_runs :
    (Machine.run (operatorStep .pearl id) (operatorLedsInit .pearl 5) operatorRun).2.Shows .pearl id
        (.setLedsSequence .rgb [1, 2, 3]) ∧
      (Machine.run (frontStep .diamond id) (frontLedsInit .diamond 2 3) frontRun).2.Shows .diamond id
        (frontShown (Machine.events (frontStep .diamond id) (frontLedsInit .diamond 2 3) frontRun)) :=
  ⟨(last_led_command_wins .pearl id).1 5 operatorRun (by decide +kernel) _ (by rfl),
    (last_led_command_wins .diamond id).2 2 3 frontRun (by decide +kernel) (by decide +kernel)⟩

/-- The commands alone do not say it: while Diamond boots, sequences return `RET_SUCCESS` and the mode stays off. -/
theorem booting_sequences_ignored : ¬∀ board driver centerCount ringCount actions,
    let s := (Machine.run (frontStep board driver) (frontLedsInit board centerCount ringCount) actions).2
    s.caller = .idle → s.thread = .waits → s.Shows board driver
      (frontReturned (Machine.events (frontStep board driver) (frontLedsInit board centerCount ringCount) actions)) := by
  intro h
  have hshows := h .diamond id 64 54 [.command (.setLedsSequence .center .rgb [1, 2, 3]),
    .command (.setLedsSequence .ring .rgb [4, 5, 6])] rfl rfl
  exact absurd hshows.1 (by decide)

end OrbFirmware.RgbLeds

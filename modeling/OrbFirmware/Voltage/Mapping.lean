import OrbFirmware.Voltage.Extremes

/-! Which voltages the message of a source carries, whatever the order of the sources is. -/
namespace OrbFirmware.Voltage
open OrbFirmware.Machine

/-- The voltage of a super capacitor's source. -/
def superCapVoltage (cfg : VoltageConfig) (caps : SuperCaps) : VoltageSource → Option Int
  | .supply17VCaps => if cfg.board = .diamond then some (caps.voltagesMv (Fin.last 7)) else none
  | .superCap n => if cfg.board = .diamond then some (caps.differentialVoltages n) else none
  | _ => none

/-- The current, least and largest voltage that belong to a source, and none for a source that the orb has not. -/
def voltagesOf (cfg : VoltageConfig) (buffers : AdcSamplesBuffers) (caps : SuperCaps) (source : VoltageSource) :
    Option (Int × Int × Int) :=
  match channelOf cfg source with
  | some channel => (voltageMeasurementGetStats cfg buffers channel).toOption
  | none => (superCapVoltage cfg caps source).map fun voltageMv => (voltageMv, voltageMv, voltageMv)

/-- The thread with the buffers as they were when its round began, and the sources that are done in the round. -/
structure Round where
  measured : AdcSamplesBuffers
  done : List VoltageSource
  voltages : Voltages

/-- The source that a step publishes. -/
def Round.turn (r : Round) : VoltageAction → Option VoltageSource
  | .thread _ =>
    match r.voltages.pc with
    | .publishing _ (source :: _) => some source
    | _ => none
  | _ => none

def Round.begins (r : Round) : VoltageAction → Bool
  | .thread _ =>
    match r.voltages.pc with
    | .sleeping => true
    | _ => false
  | _ => false

def roundStep (cfg : VoltageConfig) (r : Round) (a : VoltageAction) : List VoltageEvent × Round :=
  ((voltageStep cfg r.voltages a).1,
    { measured := if r.begins a then r.voltages.adcSamplesBuffers else r.measured
      done := if r.begins a then [] else r.done ++ (r.turn a).toList
      voltages := (voltageStep cfg r.voltages a).2 })

def roundStart (raw : Channel → UInt16) (msg : VoltageMsg) (superCaps : SuperCaps) : Round where
  measured := ⟨raw, raw, raw⟩
  done := []
  voltages := voltageStart raw msg superCaps

/-- A step publishes for each source the voltages that belong to it. -/
def Carries (cfg : VoltageConfig) (r : Round) (a : VoltageAction) (source : VoltageSource) : Prop :=
  ∀ msg, VoltageEvent.published msg ∈ (roundStep cfg r a).1 → msg.source = source →
    voltagesOf cfg r.measured r.voltages.superCaps source = some (msg.voltageCurrentMv, msg.voltageMinMv, msg.voltageMaxMv)

/-- The current voltage of a channel goes through the range test. -/
def Tests (cfg : VoltageConfig) (r : Round) (a : VoltageAction) (source : VoltageSource) (channel : Channel) : Prop :=
  ∃ voltageMv minMv maxMv, voltageMeasurementGetStats cfg r.measured channel = .ok (voltageMv, minMv, maxMv) ∧
    VoltageEvent.tested source channel (appAssertRange voltageMv (voltageMeasurementTests channel).1
      (voltageMeasurementTests channel).2) ∈ (roundStep cfg r a).1

/-- Every message carries the voltages of its source, and every source that is no super capacitor is tested. -/
structure MapsAll (cfg : VoltageConfig) (r : Round) (a : VoltageAction) : Prop where
  carries : ∀ source, Carries cfg r a source
  tests : ∀ source channel, r.turn a = some source → channelOf cfg source = some channel → Tests cfg r a source channel

/-- On Diamond no super capacitor has been published before the source in the round, unless it is one itself, and it is
not the deprecated one. -/
def Separate (cfg : VoltageConfig) (r : Round) (source : VoltageSource) : Prop :=
  isSuperCap cfg source = true ∨
    (∀ earlier ∈ r.done, isSuperCap cfg earlier = false) ∧ ¬(cfg.board = .diamond ∧ source = .supply1V2)

/-- The same for the sources that are kept apart from the super capacitors; a voltage is tested if it can be measured,
and that of `PVCC` only where there are super capacitors. -/
structure MapsSeparate (cfg : VoltageConfig) (r : Round) (a : VoltageAction) : Prop where
  carries : ∀ source, Separate cfg r source → Carries cfg r a source
  tests : ∀ source channel, r.turn a = some source → channelOf cfg source = some channel → Separate cfg r source →
    cfg.hardwareVersion ≠ .unknown → ¬(cfg.noSuperCaps = true ∧ channel = .pvcc) → Tests cfg r a source channel

variable {cfg : VoltageConfig} {caps : SuperCaps} {source : VoltageSource} {channel : Channel} {ret : RetCode}
  {msg m : VoltageMsg} {locals : PublishLocals} {buffers : AdcSamplesBuffers} {r : Round} {rest : List VoltageSource}

/-- The voltage of a super capacitor is selected for its source. -/
theorem superCapVoltage_of_select {voltageMv : Int} (h : selectChannel cfg caps source = .superCap voltageMv) :
    superCapVoltage cfg caps source = some voltageMv := by
  cases source <;> simp only [selectChannel, superCapVoltage] at h ⊢ <;> grind

/-- A channel is selected for the source that it belongs to, or for the deprecated one. -/
theorem channelOf_of_select (h : selectChannel cfg caps source = .channel channel) :
    isSuperCap cfg source = false ∧
      (channelOf cfg source = some channel ∨ cfg.board = .diamond ∧ source = .supply1V2) := by
  unfold selectChannel at h
  unfold isSuperCap channelOf
  grind

/-- Every channel of a source is one of the board's. -/
theorem mem_channels_of_channelOf (h : channelOf cfg source = some channel) : channel ∈ channels cfg.board := by
  cases hb : cfg.board <;> cases source <;> simp only [channelOf, hb] at h <;>
    simp only [channels, List.mem_cons] <;> grind

theorem publishVoltage_mem (h : VoltageEvent.published m ∈ (publishVoltage ret msg locals).1) : m = msg := by
  unfold publishVoltage at h
  split_ifs at h
  · exact VoltageEvent.published.inj (List.mem_singleton.mp h)
  · exact absurd (List.mem_singleton.mp h) nofun

theorem publishVoltage_frame (ret : RetCode) (msg : VoltageMsg) (locals : PublishLocals) :
    (publishVoltage ret msg locals).2.1.buffers = locals.buffers ∧
      (publishVoltage ret msg locals).2.1.isSuperCapChannel = locals.isSuperCapChannel := by
  unfold publishVoltage
  split_ifs <;> exact ⟨rfl, rfl⟩

/-- The range test publishes nothing. -/
theorem not_published_of_selfTest (voltageMv : Int) :
    VoltageEvent.published m ∉ (selfTest cfg source channel voltageMv locals).1 := by
  unfold selfTest
  split_ifs <;> simp

/-- The variables of the round that a source leaves as they are, and the flag, which only a super capacitor sets. -/
theorem publishSource_frame (cfg : VoltageConfig) (caps : SuperCaps) (source : VoltageSource) (ret : RetCode)
    (msg : VoltageMsg) (locals : PublishLocals) :
    (publishSource cfg caps source ret msg locals).2.1.buffers = locals.buffers ∧
      ((publishSource cfg caps source ret msg locals).2.1.isSuperCapChannel = true →
        locals.isSuperCapChannel = true ∨ isSuperCap cfg source = true) := by
  unfold publishSource
  cases hselect : selectChannel cfg caps source with
  | skip => exact ⟨rfl, .inl⟩
  | superCap voltageMv => exact ⟨(publishVoltage_frame ret _ _).1, fun _ => .inr (isSuperCap_of_select hselect).1⟩
  | channel channel =>
    by_cases hset : locals.isSuperCapChannel = true
    · simp only [hset, if_true]
      exact ⟨(publishVoltage_frame ret _ _).1, fun _ => .inl trivial⟩
    · simp only [hset, Bool.false_eq_true, if_false]
      cases voltageMeasurementGetStats cfg locals.buffers channel with
      | error err => exact ⟨rfl, fun h => absurd h hset⟩
      | ok stats =>
        have hframe := publishVoltage_frame ret ⟨source, stats.1, stats.2.1, stats.2.2⟩
          (selfTest cfg source channel stats.1 locals).2
        have htest := selfTest_frame cfg source channel stats.1 locals
        refine ⟨hframe.1.trans (by rw [htest]), fun h => absurd ?_ hset⟩
        exact (hframe.2.trans (by rw [htest])).symm.trans h

/-- What the body of the loop publishes is the message of the source, and where no super capacitor's flag is left over,
it carries the source's voltages. -/
theorem publishSource_published (h : VoltageEvent.published m ∈ (publishSource cfg caps source ret msg locals).1) :
    m.source = source ∧
      ((isSuperCap cfg source = true ∨
          locals.isSuperCapChannel = false ∧ ¬(cfg.board = .diamond ∧ source = .supply1V2)) →
        voltagesOf cfg locals.buffers caps source = some (m.voltageCurrentMv, m.voltageMinMv, m.voltageMaxMv)) := by
  unfold publishSource at h
  cases hselect : selectChannel cfg caps source with
  | skip => simp only [hselect, List.not_mem_nil] at h
  | superCap voltageMv =>
    simp only [hselect] at h
    obtain rfl := publishVoltage_mem h
    refine ⟨rfl, fun _ => ?_⟩
    simp only [voltagesOf, (isSuperCap_of_select hselect).2, superCapVoltage_of_select hselect, Option.map_some]
  | channel channel =>
    obtain ⟨hcap, hchannel⟩ := channelOf_of_select hselect
    by_cases hset : locals.isSuperCapChannel = true
    · simp only [hselect, hset, if_true] at h
      obtain rfl := publishVoltage_mem h
      refine ⟨rfl, fun hseparate => ?_⟩
      simp [hcap, hset] at hseparate
    · simp only [hselect, hset, Bool.false_eq_true, if_false] at h
      cases hstats : voltageMeasurementGetStats cfg locals.buffers channel with
      | error err => simp [hstats] at h
      | ok stats =>
        simp only [hstats, List.mem_append] at h
        obtain rfl := publishVoltage_mem (h.resolve_left (not_published_of_selfTest _))
        refine ⟨rfl, fun hseparate => ?_⟩
        have hnamed : channelOf cfg source = some channel := by
          rcases hchannel with hnamed | hdeprecated
          · exact hnamed
          · rcases hseparate with hcap' | ⟨-, hnot⟩
            · exact absurd (hcap'.symm.trans hcap) (by decide)
            · exact absurd hdeprecated hnot
        simp only [voltagesOf, hnamed, hstats, Except.toOption]

theorem getStats_ok (buffers : AdcSamplesBuffers) (h : channelOf cfg source = some channel)
    (hversion : cfg.hardwareVersion ≠ .unknown) :
    ∃ voltageMv minMv maxMv, voltageMeasurementGetStats cfg buffers channel = .ok (voltageMv, minMv, maxMv) := by
  unfold voltageMeasurementGetStats
  rw [if_neg (not_not.mpr (mem_channels_of_channelOf h)), if_neg hversion]
  exact ⟨_, _, _, rfl⟩

/-- The body of the loop tests the current voltage of a channel. -/
theorem publishSource_tested (msg : VoltageMsg) (h : channelOf cfg source = some channel)
    (hset : locals.isSuperCapChannel = false) (hpvcc : ¬(cfg.noSuperCaps = true ∧ channel = .pvcc))
    {voltageMv minMv maxMv : Int}
    (hstats : voltageMeasurementGetStats cfg locals.buffers channel = .ok (voltageMv, minMv, maxMv)) :
    VoltageEvent.tested source channel (appAssertRange voltageMv (voltageMeasurementTests channel).1
      (voltageMeasurementTests channel).2) ∈ (publishSource cfg caps source ret msg locals).1 := by
  have htest : (!cfg.noSuperCaps || channel != .pvcc) = true := by
    simpa [imp_iff_not_or] using hpvcc
  simp only [publishSource, select_of_channelOf caps h, hset, hstats, selfTest, htest, if_true, Bool.false_eq_true,
    if_false, List.mem_append, List.mem_singleton, true_or]

/-- In a round the copied buffers are those from which it began, and the flag is set behind a super capacitor only. -/
def Round.Inv (cfg : VoltageConfig) (r : Round) : Prop :=
  ∀ locals rest, r.voltages.pc = .publishing locals rest → locals.buffers = r.measured ∧
    (locals.isSuperCapChannel = true → ∃ earlier ∈ r.done, isSuperCap cfg earlier = true)

theorem Round.Inv.step (h : r.Inv cfg) (a : VoltageAction) : (roundStep cfg r a).2.Inv cfg := by
  cases a with
  | sample adc samples => simpa [Round.Inv, roundStep, voltageStep, Round.begins, Round.turn] using h
  | checkCaps superCaps => simpa [Round.Inv, roundStep, voltageStep, Round.begins, Round.turn] using h
  | thread ret =>
    intro locals' rest' hpc'
    cases hpc : r.voltages.pc with
    | sleeping =>
      simp only [roundStep, voltageStep, publishThread, hpc, PublishPc.publishing.injEq] at hpc'
      obtain ⟨rfl, rfl⟩ := hpc'
      simp [roundStep, Round.begins, hpc]
    | publishing locals rest =>
      obtain ⟨hbuffers, hflag⟩ := h locals rest hpc
      cases rest with
      | nil => simp [roundStep, voltageStep, publishThread, hpc] at hpc'
      | cons source rest =>
        have hframe := publishSource_frame cfg r.voltages.superCaps source ret r.voltages.voltageMsg locals
        simp only [roundStep, voltageStep, publishThread, hpc, PublishPc.publishing.injEq] at hpc'
        obtain ⟨rfl, rfl⟩ := hpc'
        simp only [roundStep, Round.begins, Round.turn, hpc, Bool.false_eq_true, if_false, Option.toList_some]
        refine ⟨hframe.1.trans hbuffers, fun hset => ?_⟩
        rcases hframe.2 hset with hbefore | hnow
        · obtain ⟨earlier, hearlier, hcap⟩ := hflag hbefore
          exact ⟨earlier, List.mem_append_left _ hearlier, hcap⟩
        · exact ⟨source, by simp, hnow⟩

/-- A source that is kept apart is published with the flag of the super capacitors clear, unless it is one. -/
theorem Round.Inv.flag (h : r.Inv cfg) (hpc : r.voltages.pc = .publishing locals rest) (hseparate : Separate cfg r source) :
    isSuperCap cfg source = true ∨
      locals.isSuperCapChannel = false ∧ ¬(cfg.board = .diamond ∧ source = .supply1V2) := by
  refine hseparate.imp_right fun ⟨hnone, hdeprecated⟩ => ⟨?_, hdeprecated⟩
  by_contra hset
  obtain ⟨earlier, hearlier, hcap⟩ := (h locals rest hpc).2 (by simpa using hset)
  exact absurd ((hnone earlier hearlier).symm.trans hcap) (by decide)

theorem isSuperCap_of_channelOf (h : channelOf cfg source = some channel) : isSuperCap cfg source = false := by
  cases source <;> simp_all [channelOf, isSuperCap]

/-- Only the turn of a source has messages. -/
theorem turn_of_published {a : VoltageAction} (h : VoltageEvent.published m ∈ (roundStep cfg r a).1) :
    ∃ source, r.turn a = some source := by
  cases a with
  | sample adc samples => simp [roundStep, voltageStep] at h
  | checkCaps superCaps => simp [roundStep, voltageStep] at h
  | thread ret =>
    cases hpc : r.voltages.pc with
    | sleeping => simp [roundStep, voltageStep, publishThread, hpc] at h
    | publishing locals rest =>
      cases rest with
      | nil => simp [roundStep, voltageStep, publishThread, hpc] at h
      | cons source rest => exact ⟨source, by simp [Round.turn, hpc]⟩

/-- The turn of a source is the body of the loop for it. -/
theorem roundStep_turn {a : VoltageAction} (cfg : VoltageConfig) (h : r.turn a = some source) :
    ∃ ret locals rest, r.voltages.pc = .publishing locals (source :: rest) ∧ (roundStep cfg r a).1 =
      (publishSource cfg r.voltages.superCaps source ret r.voltages.voltageMsg locals).1 := by
  cases a with
  | sample adc samples => simp [Round.turn] at h
  | checkCaps superCaps => simp [Round.turn] at h
  | thread ret =>
    cases hpc : r.voltages.pc with
    | sleeping => simp [Round.turn, hpc] at h
    | publishing locals rest =>
      cases rest with
      | nil => simp [Round.turn, hpc] at h
      | cons turn rest =>
        obtain rfl : turn = source := by simpa [Round.turn, hpc] using h
        exact ⟨ret, locals, rest, rfl, by simp only [roundStep, voltageStep, publishThread, hpc]⟩

/-- One step. -/
theorem Round.Inv.maps (h : r.Inv cfg) (a : VoltageAction) : MapsSeparate cfg r a := by
  constructor
  · intro source hseparate m hm hsource
    obtain ⟨turn, hturn⟩ := turn_of_published hm
    obtain ⟨ret, locals, rest, hpc, hevents⟩ := roundStep_turn cfg hturn
    rw [hevents] at hm
    obtain ⟨hname, hvoltages⟩ := publishSource_published hm
    obtain rfl := hname.symm.trans hsource
    rw [← (h locals _ hpc).1]
    exact hvoltages (h.flag hpc hseparate)
  · intro source channel hturn hchannel hseparate hversion hpvcc
    obtain ⟨ret, locals, rest, hpc, hevents⟩ := roundStep_turn cfg hturn
    have hflag := (h.flag hpc hseparate).resolve_left (by simp [isSuperCap_of_channelOf hchannel])
    obtain ⟨voltageMv, minMv, maxMv, hstats⟩ := getStats_ok r.measured hchannel hversion
    refine ⟨voltageMv, minMv, maxMv, hstats, ?_⟩
    rw [← (h locals _ hpc).1] at hstats
    rw [hevents]
    exact publishSource_tested _ hchannel hflag.1 hpvcc hstats

/-- In every run the messages of the sources that are kept apart carry the voltages that belong to them, and these
sources are tested. -/
theorem sources_mapped (cfg : VoltageConfig) (raw : Channel → UInt16) (msg : VoltageMsg) (superCaps : SuperCaps)
    (actions : List VoltageAction) :
    Meets (roundStep cfg) (MapsSeparate cfg) (roundStart raw msg superCaps) actions := by
  have hstart : (roundStart raw msg superCaps).Inv cfg := nofun
  exact meets_mono (P := fun _ _ => True) (fun r a h _ => h.step a) (fun r a h _ => h.maps a) _ actions hstart
    (meets_of_forall _ actions fun _ _ => trivial)

/-- A Pearl of the fifth version without super capacitors publishes `PVCC`, its ninth source, untested. -/
theorem pvcc_untested : ¬∀ (cfg : VoltageConfig) raw msg superCaps actions,
    Meets (roundStep cfg) (MapsAll cfg) (roundStart raw msg superCaps) actions := by
  intro h
  have hrun := h { pearlEv5 with noSuperCaps := true } (fun _ => 0) ⟨.other, 0, 0, 0⟩ ⟨fun _ => 0, fun _ => 0⟩
    (List.replicate 9 (.thread .success) ++ [.thread .success])
  have hninth := (meets_append.mp hrun).2.1
  obtain ⟨voltageMv, minMv, maxMv, -, hevent⟩ := hninth.tests .pvcc .pvcc rfl rfl
  exact absurd (List.mem_singleton.mp hevent) nofun

end OrbFirmware.Voltage

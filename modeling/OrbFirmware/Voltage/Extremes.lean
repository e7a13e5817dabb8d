import OrbFirmware.Machine
import OrbFirmware.Voltage.Publish

/-! What becomes of the samples: a ledger of those that no published message has covered yet. -/
namespace OrbFirmware.Voltage
open OrbFirmware.Machine

/-- The channel that a source belongs to. -/
def channelOf (cfg : VoltageConfig) : VoltageSource → Option Channel
  | .mainMcuInternal => some .v3v3Uc
  | .supply12V => if cfg.board = .pearl then some .v12 else none
  | .supply5V => some .v5
  | .supply3V8 => if cfg.hardwareVersion.beforeEv5 then some .v3v3SsdV3v8 else none
  | .supply3V3 => some .v3v3
  | .supply1V8 => some .v1v8
  | .pvcc => some .pvcc
  | .caps12V => some .v12Caps
  | .vbatSw => some .vbatSw
  | .supply3V3Ssd => if cfg.hardwareVersion.beforeEv5 then none else some .v3v3SsdV3v8
  | .supply3V3Wifi => if cfg.board = .diamond then some .v3v3Wifi else none
  | .supply3V3Lte => if cfg.board = .diamond then some .v3v3Lte else none
  | .supply3V6 => if cfg.board = .diamond then some .v3v6 else none
  | .supply3V3Ldo => if cfg.board = .diamond then some .v3v3Ldo else none
  | .supply2V8 => if cfg.board = .diamond then some .v2v8 else none
  | .supply1V8Sec => if cfg.board = .diamond then some .v1v8Sec else none
  | .supply4V7Sec => if cfg.board = .diamond then some .v4v7Sec else none
  | _ => none

/-- The sources of super capacitors, which Pearl has not. -/
def isSuperCap (cfg : VoltageConfig) : VoltageSource → Bool
  | .supply17VCaps | .superCap _ => cfg.board = .diamond
  | _ => false

/-- For each channel the samples since the buffers were last copied, and the earlier ones that the last message of the
channel does not cover; and what the thread has done since the copy: whether it has published a message, and whether
the message of a channel was not published. -/
structure Ledger where
  fresh : Channel → List UInt16
  owed : Channel → List UInt16
  vrefintRaw : UInt16
  published : Bool
  unpublished : Bool

def Ledger.next (cfg : VoltageConfig) (l : Ledger) : VoltageEvent → Ledger
  | .sampled adc samples =>
    { l with fresh := fun c => if c ∈ adcChannels cfg.board adc then samples c :: l.fresh c else l.fresh c }
  | .copied vrefintRaw =>
    { fresh := fun _ => [], owed := fun c => l.fresh c ++ l.owed c, vrefintRaw, published := false, unpublished := false }
  | .tested _ _ _ => l
  | .published msg =>
    { l with
      owed := fun c => if channelOf cfg msg.source = some c then [] else l.owed c
      published := true }
  | .notPublished source => { l with unpublished := l.unpublished || (channelOf cfg source).isSome }

def ledgerStep (cfg : VoltageConfig) (l : Ledger) (e : VoltageEvent) : Unit × Ledger := ((), l.next cfg e)

def ledgerStart : Ledger := ⟨fun _ => [], fun _ => [], 0, false, false⟩

/-- A message of a channel covers the samples that were accumulated for it. -/
def Covers (cfg : VoltageConfig) (l : Ledger) : VoltageEvent → Prop
  | .published msg => ∀ c ∈ channelOf cfg msg.source, ∀ x ∈ l.owed c,
    msg.voltageMinMv ≤ cfg.millivolts l.vrefintRaw c x ∧ cfg.millivolts l.vrefintRaw c x ≤ msg.voltageMaxMv
  | _ => True

/-- The messages of all channels are published, or none is. -/
def AllOrNone (cfg : VoltageConfig) (l : Ledger) (e : VoltageEvent) : Prop :=
  ¬((l.next cfg e).published = true ∧ (l.next cfg e).unpublished = true)

instance (cfg : VoltageConfig) (l : Ledger) : (e : VoltageEvent) → Decidable (Covers cfg l e)
  | .published msg =>
    have (c : Channel) : Decidable (∀ x ∈ l.owed c,
        msg.voltageMinMv ≤ cfg.millivolts l.vrefintRaw c x ∧ cfg.millivolts l.vrefintRaw c x ≤ msg.voltageMaxMv) :=
      List.decidableBAll _ _
    inferInstanceAs (Decidable (∀ c ∈ channelOf cfg msg.source, ∀ x ∈ l.owed c,
      msg.voltageMinMv ≤ cfg.millivolts l.vrefintRaw c x ∧ cfg.millivolts l.vrefintRaw c x ≤ msg.voltageMaxMv))
  | .sampled _ _ | .copied _ | .tested _ _ _ | .notPublished _ => isTrue trivial

instance (cfg : VoltageConfig) (l : Ledger) (e : VoltageEvent) : Decidable (AllOrNone cfg l e) :=
  inferInstanceAs (Decidable ¬_)

variable {cfg : VoltageConfig} {l : Ledger} {s : Voltages} {b b' : AdcSamplesBuffers} {c : Channel} {x : UInt16}

/-- A sample lies between the extremes in the buffers. -/
def AdcSamplesBuffers.Within (b : AdcSamplesBuffers) (c : Channel) (x : UInt16) : Prop :=
  b.rawMin c ≤ x ∧ x ≤ b.rawMax c

theorem within_callback (sampled : List Channel) (samples : Channel → UInt16) (h : b.Within c x) :
    (adcCallback sampled samples b).Within c x := by
  unfold AdcSamplesBuffers.Within adcCallback at *
  grind

theorem within_callback_new {sampled : List Channel} (samples : Channel → UInt16) (h : c ∈ sampled) :
    (adcCallback sampled samples b).Within c (samples c) := by
  unfold AdcSamplesBuffers.Within adcCallback
  grind

theorem within_update (h : b.Within c x) : (updateMinMaxFromAdcSamplesBuffer b b').Within c x := by
  unfold AdcSamplesBuffers.Within updateMinMaxFromAdcSamplesBuffer at *
  grind

theorem within_update_input (h : b'.Within c x) : (updateMinMaxFromAdcSamplesBuffer b b').Within c x := by
  unfold AdcSamplesBuffers.Within updateMinMaxFromAdcSamplesBuffer at *
  grind

theorem callback_eq (board : Board) (adc : Adc) : callback board adc = adcCallback (adcChannels board adc) := by
  cases adc <;> rfl

/-- The source of a channel that the orb has is measured there. -/
theorem select_of_channelOf {source : VoltageSource} (caps : SuperCaps) (h : channelOf cfg source = some c) :
    selectChannel cfg caps source = .channel c := by
  unfold channelOf at h
  unfold selectChannel
  grind

theorem isSuperCap_of_select {source : VoltageSource} {caps : SuperCaps} {voltageMv : Int}
    (h : selectChannel cfg caps source = .superCap voltageMv) :
    isSuperCap cfg source = true ∧ channelOf cfg source = none := by
  unfold selectChannel at h
  unfold isSuperCap channelOf
  grind

/-- In `publish_all_voltages`: the sources before those of `rest` are done, each with its message published or not, and
the copy covers what is owed. -/
structure Publishing (cfg : VoltageConfig) (l : Ledger) (locals : PublishLocals) (rest : List VoltageSource) : Prop where
  done : ∃ done, cfg.sources = done ++ rest ∧
    (locals.isSuperCapChannel = true → ∃ source ∈ done, isSuperCap cfg source = true) ∧
    ∀ source ∈ done, ∀ c, channelOf cfg source = some c → l.unpublished = true ∨ l.owed c = []
  owed : ∀ source ∈ cfg.sources, ∀ c, channelOf cfg source = some c → ∀ x ∈ l.owed c, locals.buffers.Within c x
  vrefint : l.vrefintRaw = locals.buffers.raw .vrefint
  published : l.published = locals.atLeastOnePublishSuccessful

def PublishPc.Holds (cfg : VoltageConfig) (l : Ledger) (buffers : AdcSamplesBuffers) : PublishPc → Prop
  | .sleeping =>
    ∀ source ∈ cfg.sources, ∀ c, channelOf cfg source = some c → ∀ x ∈ l.owed c, buffers.Within c x
  | .publishing locals rest => Publishing cfg l locals rest

structure VoltageInv (cfg : VoltageConfig) (l : Ledger) (s : Voltages) : Prop where
  fresh : ∀ c, ∀ x ∈ l.fresh c, s.adcSamplesBuffers.Within c x
  allOrNone : ¬(l.published = true ∧ l.unpublished = true)
  pc : s.pc.Holds cfg l s.adcSamplesBuffers

variable {locals locals' : PublishLocals} {source : VoltageSource} {rest : List VoltageSource} {msg : VoltageMsg}
  {caps : SuperCaps}

/-- One source is done. -/
theorem Publishing.advance {l' : Ledger} (h : Publishing cfg l locals (source :: rest))
    (hbuffers : locals'.buffers = locals.buffers)
    (hsuper : locals'.isSuperCapChannel = true → locals.isSuperCapChannel = true ∨ isSuperCap cfg source = true)
    (howed : ∀ c, ∀ x ∈ l'.owed c, x ∈ l.owed c) (hunpublished : l.unpublished = true → l'.unpublished = true)
    (hvrefint : l'.vrefintRaw = l.vrefintRaw) (hpublished : l'.published = locals'.atLeastOnePublishSuccessful)
    (hsource : ∀ c, channelOf cfg source = some c → l'.unpublished = true ∨ l'.owed c = []) :
    Publishing cfg l' locals' rest := by
  obtain ⟨done, hsources, hcaps, hdone⟩ := h.done
  refine ⟨⟨done ++ [source], by simp [hsources], ?_, ?_⟩, ?_, ?_, hpublished⟩
  · intro hset
    rcases hsuper hset with hbefore | hnow
    · obtain ⟨a, ha, hcap⟩ := hcaps hbefore
      exact ⟨a, List.mem_append_left _ ha, hcap⟩
    · exact ⟨source, by simp, hnow⟩
  · intro a ha c hc
    rcases List.mem_append.mp ha with hbefore | hnow
    · rcases hdone a hbefore c hc with hfailed | hempty
      · exact .inl (hunpublished hfailed)
      · exact .inr (List.eq_nil_iff_forall_not_mem.mpr fun x hx => by simpa [hempty] using howed c x hx)
    · rw [List.mem_singleton.mp hnow] at hc
      exact hsource c hc
  · intro a ha c hc x hx
    rw [hbuffers]
    exact h.owed a ha c hc x (howed c x hx)
  · rw [hvrefint, hbuffers, h.vrefint]

/-- A channel's source does not come when the flag of the super capacitors is set. -/
theorem Publishing.measures (h : Publishing cfg l locals (source :: rest))
    (horder : cfg.sources.Pairwise fun a b => isSuperCap cfg a = true → channelOf cfg b = none)
    (hc : channelOf cfg source = some c) : locals.isSuperCapChannel = false := by
  by_contra hset
  obtain ⟨done, hsources, hcaps, -⟩ := h.done
  obtain ⟨a, ha, hcap⟩ := hcaps (by simpa using hset)
  rw [hsources, List.pairwise_append] at horder
  have hnone := horder.2.2 a ha source List.mem_cons_self hcap
  rw [hnone] at hc
  contradiction

/-- What the events of a step for one source do: each message covers what is owed, and the source is done. -/
structure SourceDone (cfg : VoltageConfig) (l : Ledger) (events : List VoltageEvent) (locals : PublishLocals)
    (rest : List VoltageSource) : Prop where
  covers : Meets (ledgerStep cfg) (Covers cfg) l events
  publishing : Publishing cfg (run (ledgerStep cfg) l events).2 locals rest
  fresh : (run (ledgerStep cfg) l events).2.fresh = l.fresh

/-- `publish_new` is called for a source, with a message that covers what is owed to its channel. -/
theorem Publishing.publishVoltage (h : Publishing cfg l locals (source :: rest)) (ret : RetCode)
    (locals' : PublishLocals) (hbuffers : locals'.buffers = locals.buffers)
    (hatLeastOne : locals'.atLeastOnePublishSuccessful = locals.atLeastOnePublishSuccessful)
    (hsuper : locals'.isSuperCapChannel = true → locals.isSuperCapChannel = true ∨ isSuperCap cfg source = true)
    (hmsg : msg.source = source) (hcovers : Covers cfg l (.published msg)) :
    SourceDone cfg l (Voltage.publishVoltage ret msg locals').1 (Voltage.publishVoltage ret msg locals').2.1 rest := by
  subst hmsg
  unfold Voltage.publishVoltage
  by_cases hret : ret = .success
  · rw [if_pos hret]
    refine ⟨⟨hcovers, trivial⟩, h.advance hbuffers hsuper ?_ id rfl rfl ?_, rfl⟩
    · intro c x hx
      simp only [run, ledgerStep, Ledger.next] at hx
      split_ifs at hx
      · contradiction
      · exact hx
    · intro c hc
      right
      simp only [run, ledgerStep, Ledger.next, hc, if_true]
  · rw [if_neg hret]
    refine ⟨⟨trivial, trivial⟩, h.advance hbuffers hsuper (fun c x hx => hx) ?_ rfl ?_ ?_, rfl⟩
    · intro hfailed
      simp only [run, ledgerStep, Ledger.next, hfailed, Bool.true_or]
    · exact h.published.trans hatLeastOne.symm
    · intro c hc
      left
      simp only [run, ledgerStep, Ledger.next, hc, Option.isSome_some, Bool.or_true]

/-- The range test leaves the ledger as it is, and the variables but its own. -/
theorem SourceDone.selfTest {events : List VoltageEvent} (h : SourceDone cfg l events locals' rest)
    (source : VoltageSource) (channel : Channel) (voltageMv : Int) (locals : PublishLocals) :
    SourceDone cfg l ((selfTest cfg source channel voltageMv locals).1 ++ events) locals' rest := by
  unfold Voltage.selfTest
  split_ifs
  · exact ⟨⟨trivial, h.covers⟩, h.publishing, h.fresh⟩
  · exact h

theorem selfTest_frame (cfg : VoltageConfig) (source : VoltageSource) (channel : Channel) (voltageMv : Int)
    (locals : PublishLocals) :
    (selfTest cfg source channel voltageMv locals).2 =
      { locals with selfTestFailCount := (selfTest cfg source channel voltageMv locals).2.selfTestFailCount } := by
  unfold selfTest
  split_ifs
  · cases hpassed : appAssertRange voltageMv (voltageMeasurementTests channel).1 (voltageMeasurementTests channel).2 <;>
      simp [hpassed]
  · rfl

/-- The voltages of the statistics cover the samples that the buffers cover. -/
theorem covers_stats {voltageMv minMv maxMv : Int} {channel : Channel} (h : Publishing cfg l locals (source :: rest))
    (hmono : ∀ vrefintRaw c x y, x ≤ y → cfg.millivolts vrefintRaw c x ≤ cfg.millivolts vrefintRaw c y)
    (hselect : selectChannel cfg caps source = .channel channel) (hmsg : msg.source = source)
    (hstats : voltageMeasurementGetStats cfg locals.buffers channel = .ok (voltageMv, minMv, maxMv))
    (hmin : msg.voltageMinMv = minMv) (hmax : msg.voltageMaxMv = maxMv) : Covers cfg l (.published msg) := by
  obtain ⟨done, hsources, -⟩ := h.done
  intro c hc x hx
  rw [hmsg] at hc
  have hchannel : channel = c := by
    have hsame := hselect.symm.trans (select_of_channelOf caps hc)
    exact Selection.channel.inj hsame
  subst hchannel
  have hwithin := h.owed source (by simp [hsources]) channel hc x hx
  unfold voltageMeasurementGetStats at hstats
  split_ifs at hstats
  obtain ⟨-, rfl, rfl⟩ : _ ∧ _ ∧ _ := by simpa using hstats
  rw [hmin, hmax, h.vrefint]
  exact ⟨hmono _ _ _ _ hwithin.1, hmono _ _ _ _ hwithin.2⟩

/-- The body of the loop. -/
theorem Publishing.publishSource (h : Publishing cfg l locals (source :: rest))
    (hmono : ∀ vrefintRaw c x y, x ≤ y → cfg.millivolts vrefintRaw c x ≤ cfg.millivolts vrefintRaw c y)
    (horder : cfg.sources.Pairwise fun a b => isSuperCap cfg a = true → channelOf cfg b = none)
    (caps : SuperCaps) (ret : RetCode) (msg : VoltageMsg) :
    SourceDone cfg l (Voltage.publishSource cfg caps source ret msg locals).1
      (Voltage.publishSource cfg caps source ret msg locals).2.1 rest := by
  unfold Voltage.publishSource
  cases hselect : selectChannel cfg caps source with
  | skip =>
    refine ⟨trivial, h.advance rfl .inl (fun c x hx => hx) id rfl h.published ?_, rfl⟩
    intro c hc
    rw [select_of_channelOf caps hc] at hselect
    contradiction
  | superCap voltageMv =>
    obtain ⟨hcap, hnone⟩ := isSuperCap_of_select hselect
    refine h.publishVoltage ret _ rfl rfl (fun _ => .inr hcap) rfl ?_
    intro c hc
    exact absurd (hnone.symm.trans hc) (by simp)
  | channel channel =>
    by_cases hset : locals.isSuperCapChannel = true
    · simp only [hset, if_true]
      refine h.publishVoltage ret _ rfl rfl .inl rfl ?_
      intro c hc
      exact absurd (hset.symm.trans (h.measures horder hc)) (by decide)
    · simp only [hset, Bool.false_eq_true, if_false]
      cases hstats : voltageMeasurementGetStats cfg locals.buffers channel with
      | error err =>
        refine ⟨⟨trivial, trivial⟩, h.advance rfl .inl (fun c x hx => hx) ?_ rfl h.published ?_, rfl⟩
        · intro hfailed
          simp only [run, ledgerStep, Ledger.next, hfailed, Bool.true_or]
        · intro c hc
          left
          simp only [run, ledgerStep, Ledger.next, hc, Option.isSome_some, Bool.or_true]
      | ok stats =>
        obtain ⟨voltageMv, minMv, maxMv⟩ := stats
        have hcovers : Covers cfg l (.published ⟨source, voltageMv, minMv, maxMv⟩) :=
          covers_stats h hmono hselect rfl hstats rfl rfl
        have hframe := selfTest_frame cfg source channel voltageMv locals
        have hpublish := h.publishVoltage ret (selfTest cfg source channel voltageMv locals).2
          (by rw [hframe]) (by rw [hframe]) (by rw [hframe]; exact .inl) rfl hcovers
        exact hpublish.selfTest source channel voltageMv locals

/-- The thread copies the buffers. -/
theorem VoltageInv.copy (h : VoltageInv cfg l s) (hpc : s.pc = .sleeping) (ret : RetCode) :
    Meets (ledgerStep cfg) (Covers cfg) l (publishThread cfg ret s).1 ∧
      VoltageInv cfg (run (ledgerStep cfg) l (publishThread cfg ret s).1).2 (publishThread cfg ret s).2 := by
  have howed := h.pc
  rw [hpc] at howed
  simp only [publishThread, hpc]
  refine ⟨⟨trivial, trivial⟩, ⟨?_, by simp [run, ledgerStep, Ledger.next], ?_⟩⟩
  · intro c x hx
    exact absurd hx List.not_mem_nil
  · refine ⟨⟨[], rfl, by simp, by simp⟩, ?_, rfl, rfl⟩
    intro source hsource c hc x hx
    rcases List.mem_append.mp hx with hfresh | hbefore
    · exact h.fresh c x hfresh
    · exact howed source hsource c hc x hbefore

/-- The thread has done all sources. -/
theorem VoltageInv.finish (h : VoltageInv cfg l s) (hpc : s.pc = .publishing locals []) (ret : RetCode) :
    VoltageInv cfg l (publishThread cfg ret s).2 := by
  have hpublishing := h.pc
  rw [hpc] at hpublishing
  obtain ⟨done, hsources, -, hdone⟩ := hpublishing.done
  rw [List.append_nil] at hsources
  simp only [publishThread, hpc]
  cases hsome : locals.atLeastOnePublishSuccessful with
  | true =>
    refine ⟨h.fresh, h.allOrNone, ?_⟩
    intro source hsource c hc x hx
    rcases hdone source (hsources ▸ hsource) c hc with hfailed | hempty
    · exact absurd ⟨hpublishing.published.trans hsome, hfailed⟩ h.allOrNone
    · rw [hempty] at hx
      contradiction
  | false =>
    refine ⟨fun c x hx => within_update (h.fresh c x hx), h.allOrNone, ?_⟩
    intro source hsource c hc x hx
    exact within_update_input (hpublishing.owed source hsource c hc x hx)

/-- An ADC has samples. -/
theorem VoltageInv.sample (h : VoltageInv cfg l s) (adc : Adc) (samples : Channel → UInt16) :
    VoltageInv cfg (l.next cfg (.sampled adc samples)) (voltageStep cfg s (.sample adc samples)).2 := by
  simp only [voltageStep, callback_eq]
  refine ⟨?_, h.allOrNone, ?_⟩
  · intro c x hx
    simp only [Ledger.next] at hx
    by_cases hadc : c ∈ adcChannels cfg.board adc
    · rw [if_pos hadc, List.mem_cons] at hx
      rcases hx with rfl | hbefore
      · exact within_callback_new samples hadc
      · exact within_callback _ samples (h.fresh c x hbefore)
    · rw [if_neg hadc] at hx
      exact within_callback _ samples (h.fresh c x hx)
  · have hpc := h.pc
    cases hstate : s.pc with
    | sleeping =>
      rw [hstate] at hpc
      intro source hsource c hc x hx
      exact within_callback _ samples (hpc source hsource c hc x hx)
    | publishing locals rest =>
      rw [hstate] at hpc
      exact ⟨hpc.done, hpc.owed, hpc.vrefint, hpc.published⟩

/-- One step. -/
theorem VoltageInv.step (h : VoltageInv cfg l s)
    (hmono : ∀ vrefintRaw c x y, x ≤ y → cfg.millivolts vrefintRaw c x ≤ cfg.millivolts vrefintRaw c y)
    (horder : cfg.sources.Pairwise fun a b => isSuperCap cfg a = true → channelOf cfg b = none) (a : VoltageAction)
    (hrounds : Meets (ledgerStep cfg) (AllOrNone cfg) l (voltageStep cfg s a).1) :
    Meets (ledgerStep cfg) (Covers cfg) l (voltageStep cfg s a).1 ∧
      VoltageInv cfg (run (ledgerStep cfg) l (voltageStep cfg s a).1).2 (voltageStep cfg s a).2 := by
  cases a with
  | sample adc samples => exact ⟨⟨trivial, trivial⟩, h.sample adc samples⟩
  | checkCaps superCaps => exact ⟨trivial, h.fresh, h.allOrNone, h.pc⟩
  | thread ret =>
    cases hpc : s.pc with
    | sleeping => exact h.copy hpc ret
    | publishing locals rest =>
      cases rest with
      | nil =>
        have hevents : (publishThread cfg ret s).1 = [] := by simp only [publishThread, hpc]
        rw [voltageStep, hevents]
        exact ⟨trivial, h.finish hpc ret⟩
      | cons source rest =>
        have hpublishing := h.pc
        rw [hpc] at hpublishing
        have hsource := hpublishing.publishSource hmono horder s.superCaps ret s.voltageMsg
        have hmixed := meets_invariant (I := fun l : Ledger => ¬(l.published = true ∧ l.unpublished = true))
          (fun _ _ _ hok => hok) l _ h.allOrNone hrounds
        simp only [voltageStep, publishThread, hpc] at hmixed ⊢
        refine ⟨hsource.covers, ?_, hmixed, hsource.publishing⟩
        intro c x hx
        rw [hsource.fresh] at hx
        exact h.fresh c x hx

/-- Outside the self-test, every message of a channel covers what was accumulated for the channel since its last one, if
in every round the messages of all channels are published or no message is, and no channel comes behind a super
capacitor. -/
theorem extremes_covered (cfg : VoltageConfig) (raw : Channel → UInt16) (msg : VoltageMsg) (superCaps : SuperCaps)
    (hmono : ∀ vrefintRaw c x y, x ≤ y → cfg.millivolts vrefintRaw c x ≤ cfg.millivolts vrefintRaw c y)
    (horder : cfg.sources.Pairwise fun a b => isSuperCap cfg a = true → channelOf cfg b = none)
    (actions : List VoltageAction)
    (hrounds : Meets (ledgerStep cfg) (AllOrNone cfg) ledgerStart
      (events (voltageStep cfg) (voltageStart raw msg superCaps) actions)) :
    Meets (ledgerStep cfg) (Covers cfg) ledgerStart
      (events (voltageStep cfg) (voltageStart raw msg superCaps) actions) := by
  have hstep : ∀ tr s a,
      Meets (ledgerStep cfg) (Covers cfg) ledgerStart tr ∧ VoltageInv cfg (run (ledgerStep cfg) ledgerStart tr).2 s →
      Meets (ledgerStep cfg) (AllOrNone cfg) ledgerStart (tr ++ (voltageStep cfg s a).1) →
      Meets (ledgerStep cfg) (Covers cfg) ledgerStart (tr ++ (voltageStep cfg s a).1) ∧
        VoltageInv cfg (run (ledgerStep cfg) ledgerStart (tr ++ (voltageStep cfg s a).1)).2 (voltageStep cfg s a).2 := by
    rintro tr s a ⟨hcovers, hinv⟩ hrounds
    obtain ⟨hnow, hnext⟩ := hinv.step hmono horder a (meets_append.mp hrounds).2
    rw [run_append]
    exact ⟨meets_append.mpr ⟨hcovers, hnow⟩, hnext⟩
  have hstart : VoltageInv cfg ledgerStart (voltageStart raw msg superCaps) :=
    ⟨nofun, nofun, nofun⟩
  have hrun := events_invariant_of_prefix (fun u v h => (meets_append.mp h).1) hstep [] _ actions ⟨trivial, hstart⟩ hrounds
  exact hrun.1

/-- The scalings of `voltage_measurement_ev5`, times 100. -/
def scalingEv5 : Channel → Nat
  | .vbatSw => 1040
  | .pvcc => 1981
  | .v12 | .v12Caps => 670
  | .v3v3Uc | .v5 => 300
  | .v3v3 | .v3v3SsdV3v8 => 200
  | _ => 100

/-- A Pearl of the fifth version, with a reference of 2048 mV. -/
def pearlEv5 : VoltageConfig where
  board := .pearl
  hardwareVersion := .pearlEv5
  noSuperCaps := false
  sources := [.mainMcuInternal, .securityMcuInternal, .supply12V, .supply5V, .supply3V8, .supply3V3, .supply1V8, .vbat,
    .pvcc, .caps12V, .vbatSw, .supply3V3Ssd, .supply3V3Ldo]
  millivolts _ channel raw := (raw.toNat * 2048 / 4096 * scalingEv5 channel / 100 : Nat)

theorem pearlEv5_mono (vrefintRaw : UInt16) (c : Channel) (x y : UInt16) (h : x ≤ y) :
    pearlEv5.millivolts vrefintRaw c x ≤ pearlEv5.millivolts vrefintRaw c y := by
  have hraw : x.toNat * 2048 / 4096 ≤ y.toNat * 2048 / 4096 :=
    Nat.div_le_div_right (Nat.mul_le_mul_right 2048 (UInt16.le_iff_toNat_le.mp h))
  exact Int.ofNat_le.mpr (Nat.div_le_div_right (Nat.mul_le_mul_right _ hraw))

/-- Both ADCs have samples of this value. -/
def sampleAll (raw : UInt16) : List VoltageAction := [.sample .adc1 fun _ => raw, .sample .adc5 fun _ => raw]

/-- A round in which the first message is published and the others as `ret` says. -/
def round (ret : RetCode) : List VoltageAction :=
  [VoltageAction.thread .success, .thread .success] ++ List.replicate 12 (VoltageAction.thread ret) ++
    [VoltageAction.thread .success]

def startPearlEv5 : Voltages := voltageStart (fun _ => 0) ⟨.other, 0, 0, 0⟩ ⟨fun _ => 0, fun _ => 0⟩

theorem extremes_covered_pearl : Meets (ledgerStep pearlEv5) (Covers pearlEv5) ledgerStart
    (events (voltageStep pearlEv5) startPearlEv5
      (sampleAll 2048 ++ round .success ++ sampleAll 2000 ++ round .success)) :=
  extremes_covered pearlEv5 (fun _ => 0) ⟨.other, 0, 0, 0⟩ ⟨fun _ => 0, fun _ => 0⟩ pearlEv5_mono (by decide)
    (sampleAll 2048 ++ round .success ++ sampleAll 2000 ++ round .success) (by decide +kernel)

theorem extremes_lost : ¬∀ (cfg : VoltageConfig) raw msg superCaps,
    (∀ vrefintRaw c x y, x ≤ y → cfg.millivolts vrefintRaw c x ≤ cfg.millivolts vrefintRaw c y) → ∀ actions,
      Meets (ledgerStep cfg) (Covers cfg) ledgerStart
        (events (voltageStep cfg) (voltageStart raw msg superCaps) actions) := by
  intro h
  have hround := h pearlEv5 (fun _ => 0) ⟨.other, 0, 0, 0⟩ ⟨fun _ => 0, fun _ => 0⟩ pearlEv5_mono
    (sampleAll 2048 ++ round .timeout ++ sampleAll 2000 ++ round .success)
  exact absurd hround (by decide +kernel)

end OrbFirmware.Voltage

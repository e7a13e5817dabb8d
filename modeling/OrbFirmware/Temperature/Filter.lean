import OrbFirmware.Machine
import OrbFirmware.Temperature.Sensors

/-! A sensor whose readings have become constant: its average follows within two windows exactly if the last
average, or the samples of the unfinished window, were not too far away. -/
namespace OrbFirmware.Temperature
variable {ι : Type*} [DecidableEq ι] {i j : ι} {is : List ι} {r : Round ι} {t t' : Thread ι}
  {s s' : SensorAndChannel} {T : Int32} {attempts : Nat → Option Int32} {reported : Int32 → Prop}

/-- `T` passes the test of samples, and so it will when the unfinished window is filled up with `T`. -/
def Recovers (s : SensorAndChannel) (T : Int32) : Prop := s.Accepts T ∧ (windowOffset s T).natAbs ≤ 22

instance (s : SensorAndChannel) (T : Int32) : Decidable (Recovers s T) := inferInstanceAs (Decidable (_ ∧ _))

/-- A round in which sensor `i` has sampled `T`, its average is `T`, a full window is reported, and the sensor is
in over-temperature if `T` is above its threshold. -/
structure Tracks (T : Int32) (i : ι) (t : Thread ι) (events : List (Event ι)) (t' : Thread ι) : Prop where
  sampled : (t'.sensors i).wrIdx = (t.sensors i).wrIdx+1
  average : (t'.sensors i).average = T
  reported : (t'.sensors i).wrIdx = 0 → .reported i T ∈ events
  overtemp : ∀ info, (t'.sensors i).cb = true → (t'.sensors i).cbData = some info →
    info.overtempC.toInt < T.toInt → info.inOvertemp = true

/-! What a round does to one sensor. -/

/-- In over-temperature if the average is above the threshold. -/
def Checked (s : SensorAndChannel) : Prop :=
  ∀ info, s.cb = true → s.cbData = some info → info.overtempC.toInt < s.average.toInt → info.inOvertemp = true

/-- The sensor is sampled, and checked at the end of a window. -/
structure SensorStep (attempts : Nat → Option Int32) (s s' : SensorAndChannel) (reported : Int32 → Prop) : Prop where
  history : s'.history = (sample attempts s).2.history
  wrIdx : s'.wrIdx = (sample attempts s).2.wrIdx
  average : s'.average = (sample attempts s).2.average
  cb : s'.cb = s.cb
  quiet : (sample attempts s).1 = false → s'.cbData = s.cbData
  full : (sample attempts s).1 = true → reported s'.average ∧ Checked s'

theorem overtempCallback_checks {clock : Clock} {last : Nat} {average : Int32} {info : OvertempInfo}
    (h : (overtempCallback clock last average info).1 ≠ .reboot)
    (hlt : (overtempCallback clock last average info).2.2.overtempC.toInt < average.toInt) :
      (overtempCallback clock last average info).2.2.inOvertemp = true := by
  unfold overtempCallback at h hlt ⊢
  dsimp only at h hlt ⊢
  generalize (if info.overtempC.toInt + overtempToCriticalRiseC < average.toInt then
    criticalTimerStep clock last info.criticalTimer else (0, last)) = p at h hlt ⊢
  split_ifs at h hlt ⊢ with h₁ h₂ h₃
  · exact absurd rfl h
  · rfl
  · obtain ⟨-, hdrop⟩ := h₃
    simp only [overtempToNominalDropC] at hdrop hlt
    omega
  · cases hin : info.inOvertemp with
    | true => rfl
    | false => exact absurd ⟨hin, hlt⟩ h₂

theorem sampleLoop_cb (left : Nat) : (sampleLoop attempts left s).2.cb = s.cb ∧
    (sampleLoop attempts left s).2.cbData = s.cbData := by
  induction left generalizing s with
  | zero => exact ⟨rfl, rfl⟩
  | succ left ih =>
    rw [sampleLoop]
    split
    · exact ih
    · dsimp only
      split_ifs
      · exact ⟨rfl, rfl⟩
      · exact ih

theorem sample_cb : (sample attempts s).2.cb = s.cb ∧ (sample attempts s).2.cbData = s.cbData := by
  have hloop := @sampleLoop_cb s attempts sampleRetryCount
  simp only [sample]
  split_ifs <;> exact hloop

theorem sampleAndReport_other (hij : i ≠ j) : (sampleAndReportTemperature r t j).2.sensors i = t.sensors i := by
  simp only [sampleAndReportTemperature]
  split_ifs
  · simp only [temperatureReportInternal]
    split
    · simp only [Function.update_of_ne hij]
    · simp only [Function.update_of_ne hij]
  · simp only [Function.update_of_ne hij]

theorem sampleAndReport_step (h : (sampleAndReportTemperature r t i).2.rebooted = false) :
    SensorStep (r.attempts i) (t.sensors i) ((sampleAndReportTemperature r t i).2.sensors i)
      fun average => .reported i average ∈ (sampleAndReportTemperature r t i).1 := by
  obtain ⟨hcb, hcbData⟩ := @sample_cb (t.sensors i) (r.attempts i)
  unfold sampleAndReportTemperature at h ⊢
  dsimp only at h ⊢
  cases hfull : (sample (r.attempts i) (t.sensors i)).1 with
  | false =>
    simp only [Bool.false_eq_true, if_false, Function.update_self]
    exact ⟨rfl, rfl, rfl, hcb, fun _ => hcbData, fun hc => by rw [hfull] at hc; contradiction⟩
  | true =>
    simp only [hfull, if_true, temperatureReportInternal, Function.update_self] at h ⊢
    split
    · rename_i info hset hdata
      simp only [hset, hdata] at h
      simp only [Function.update_self]
      refine ⟨rfl, rfl, rfl, hcb, fun hc => by rw [hfull] at hc; contradiction, fun _ => ⟨List.mem_cons_self, ?_⟩⟩
      intro info' _ hinfo' hlt
      obtain rfl := Option.some.inj hinfo'
      exact overtempCallback_checks (by simpa using (Bool.or_eq_false_iff.mp h).2) hlt
    · rename_i hnone
      simp only [Function.update_self]
      refine ⟨rfl, rfl, rfl, hcb, fun _ => hcbData, fun _ => ⟨List.mem_cons_self, ?_⟩⟩
      intro info hset hdata
      exact absurd hdata (hnone info hset)

theorem round_other (hi : i ∉ is) : (temperatureRound r is t).2.sensors i = t.sensors i := by
  induction is generalizing t with
  | nil => rfl
  | cons j rest ih =>
    rw [temperatureRound]
    split_ifs
    · rfl
    · have hij : i ≠ j := List.ne_of_not_mem_cons hi
      exact (ih (List.not_mem_of_not_mem_cons hi)).trans (sampleAndReport_other hij)

theorem round_running (h : (temperatureRound r is t).2.rebooted = false) : t.rebooted = false := by
  induction is generalizing t with
  | nil => exact h
  | cons j rest ih =>
    rw [temperatureRound] at h
    split_ifs at h with hrun
    · exact h
    · exact Bool.not_eq_true _ ▸ hrun

theorem round_step (hi : i ∈ is) (hnodup : is.Nodup) (h : (temperatureRound r is t).2.rebooted = false) :
    SensorStep (r.attempts i) (t.sensors i) ((temperatureRound r is t).2.sensors i)
      fun average => .reported i average ∈ (temperatureRound r is t).1 := by
  induction is generalizing t with
  | nil => contradiction
  | cons j rest ih =>
    obtain ⟨hj, hrest⟩ := List.nodup_cons.mp hnodup
    have hrun := round_running h
    rw [temperatureRound, if_neg (by simp [hrun])] at h ⊢
    obtain rfl | hmem := List.mem_cons.mp hi
    · have hstep := sampleAndReport_step (round_running h)
      dsimp only
      rw [round_other hj]
      exact { hstep with full := fun hf => ⟨List.mem_append_left _ (hstep.full hf).1, (hstep.full hf).2⟩ }
    · have hij : i ≠ j := fun heq => hj (heq ▸ hmem)
      have hstep := ih hmem hrest h
      rw [sampleAndReport_other hij] at hstep
      exact { hstep with full := fun hf => ⟨List.mem_append_right _ (hstep.full hf).1, (hstep.full hf).2⟩ }

/-! A constant temperature. -/

theorem accepts_congr (h : s'.average = s.average) : s'.Accepts T ↔ s.Accepts T := by
  simp only [SensorAndChannel.Accepts, h]

theorem sample_accepts (hconst : ∀ k, attempts k = some T) (h : s.Accepts T) :
    sample attempts s =
      if s.wrIdx+1 = 0 then
        (true, { s with
          history := Function.update s.history s.wrIdx T
          wrIdx := s.wrIdx+1
          average := average (Function.update s.history s.wrIdx T) })
      else (false, { s with history := Function.update s.history s.wrIdx T, wrIdx := s.wrIdx+1 }) := by
  have hloop : sampleLoop attempts sampleRetryCount s =
      (true, { s with history := Function.update s.history s.wrIdx T }) := by
    rw [sampleRetryCount, sampleLoop, hconst]
    exact if_pos h
  simp only [sample, hloop, if_true]

theorem sampleLoop_rejects (hconst : ∀ k, attempts k = some T) (h : ¬ s.Accepts T) (left : Nat) :
    (sampleLoop attempts left s).1 = false ∧ (sampleLoop attempts left s).2.average = s.average := by
  induction left generalizing s with
  | zero => exact ⟨rfl, rfl⟩
  | succ left ih =>
    rw [sampleLoop, hconst]
    dsimp only
    rw [if_neg h]
    exact ih (s := { s with history := Function.update s.history s.wrIdx T }) h

theorem sample_rejects (hconst : ∀ k, attempts k = some T) (h : ¬ s.Accepts T) :
    (sample attempts s).2.average = s.average := by
  obtain ⟨hfail, haverage⟩ := sampleLoop_rejects hconst h sampleRetryCount
  simp only [sample, hfail, Bool.false_eq_true, if_false]
  exact haverage

/-- The mean of a window that is filled up with `T`. -/
theorem average_window (hT : -25 < T.toInt ∧ T.toInt < 120) (hw : s.wrIdx = 2) :
    (average (Function.update s.history 2 T)).toInt = T.toInt+(2*windowOffset s T+3)/6 := by
  have h₀ := (s.history 0).le_toInt
  have h₀' := (s.history 0).toInt_lt
  have h₁ := (s.history 1).le_toInt
  have h₁' := (s.history 1).toInt_lt
  have hoffset : windowOffset s T = (s.history 0).toInt-T.toInt+((s.history 1).toInt-T.toInt) := by
    rw [windowOffset, hw, if_pos (by decide), if_pos (by decide)]
  rw [average, Function.update_self, Function.update_of_ne (by decide), Function.update_of_ne (by decide), hoffset,
    Int32.toInt_ofInt_of_le (by omega) (by omega)]
  omega

/-- A step of a sensor that accepts `T`. -/
structure Accepted (s s' : SensorAndChannel) (T : Int32) (reported : Int32 → Prop) : Prop where
  wrIdx : s'.wrIdx = s.wrIdx+1
  unfinished : s'.wrIdx ≠ 0 → windowOffset s' T = windowOffset s T ∧ s'.average = s.average ∧ (Checked s → Checked s')
  finished : s'.wrIdx = 0 → windowOffset s' T = 0 ∧ s'.average.toInt = T.toInt+(2*windowOffset s T+3)/6 ∧
    s'.average ≠ sentinelValue ∧ reported s'.average ∧ Checked s'

theorem SensorStep.accepted (h : SensorStep attempts s s' reported) (hconst : ∀ k, attempts k = some T)
    (hT : -25 < T.toInt ∧ T.toInt < 120) (haccepts : s.Accepts T) : Accepted s s' T reported := by
  have hsample := sample_accepts hconst haccepts
  by_cases hlast : s.wrIdx+1 = 0
  · -- the window is full
    rw [if_pos hlast] at hsample
    have hw : s.wrIdx = 2 := by
      revert hlast
      generalize s.wrIdx = w
      revert w
      decide
    have haverage := h.average
    have hwrIdx := h.wrIdx
    rw [hsample] at haverage hwrIdx
    dsimp only at haverage hwrIdx
    have hmean := average_window hT hw
    rw [← hw, ← haverage] at hmean
    have hzero : s'.wrIdx = 0 := hwrIdx.trans hlast
    obtain ⟨hreported, hchecked⟩ := h.full (by rw [hsample])
    refine ⟨hwrIdx, fun hne => absurd hzero hne, fun _ => ⟨?_, hmean, ?_, hreported, hchecked⟩⟩
    · rw [windowOffset, hzero]
      rfl
    · intro hsentinel
      have h₀ := (s.history 0).le_toInt
      have h₁ := (s.history 1).le_toInt
      rw [hsentinel, sentinelValue, Int32.toInt_minValue, windowOffset, hw, if_pos (by decide), if_pos (by decide)] at hmean
      omega
  · rw [if_neg hlast] at hsample
    have haverage := h.average
    have hwrIdx := h.wrIdx
    have hhistory := h.history
    have hquiet := h.quiet (by rw [hsample])
    rw [hsample] at haverage hwrIdx hhistory
    dsimp only at haverage hwrIdx hhistory
    refine ⟨hwrIdx, fun _ => ⟨?_, haverage, ?_⟩, fun hzero => absurd (hwrIdx ▸ hzero) hlast⟩
    · simp only [windowOffset, hwrIdx, hhistory]
      revert hlast
      generalize s.wrIdx = w
      match w with
      | 0 | 1 | 2 => simp [Function.update]
    · intro hchecked info hcb hdata
      rw [h.cb] at hcb
      rw [hquiet] at hdata
      rw [haverage]
      exact hchecked info hcb hdata

theorem SensorStep.rejected (h : SensorStep attempts s s' reported) (hconst : ∀ k, attempts k = some T)
    (hrejects : ¬ s.Accepts T) : ¬ s'.Accepts T := by
  rwa [accepts_congr (h.average.trans (sample_rejects hconst hrejects))]

/-- Whether a sensor recovers does not change while the temperature stays. -/
theorem SensorStep.recovers_iff (h : SensorStep attempts s s' reported) (hconst : ∀ k, attempts k = some T)
    (hT : -25 < T.toInt ∧ T.toInt < 120) : Recovers s' T ↔ Recovers s T := by
  by_cases haccepts : s.Accepts T
  · obtain ⟨-, hunfinished, hfinished⟩ := h.accepted hconst hT haccepts
    by_cases hzero : s'.wrIdx = 0
    · obtain ⟨hoffset, hmean, hsentinel, -, -⟩ := hfinished hzero
      have hnext : s'.Accepts T ↔ (windowOffset s T).natAbs ≤ 22 := by
        rw [SensorAndChannel.Accepts, if_neg hsentinel, hmean]
        omega
      rw [Recovers, Recovers, hoffset, hnext]
      simp [haccepts]
    · obtain ⟨hoffset, haverage, -⟩ := hunfinished hzero
      rw [Recovers, Recovers, hoffset, accepts_congr haverage]
  · exact iff_of_false (fun hr => h.rejected hconst haccepts hr.1) fun hr => haccepts hr.1

/-- A sensor that recovers, `m` samples after the beginning of the unfinished window. -/
structure Recovering (T : Int32) (m : Nat) (s : SensorAndChannel) : Prop where
  recovers : Recovers s T
  wrIdx : s.wrIdx.val = m % 3
  clean : 3 ≤ m → windowOffset s T = 0
  settled : 6 ≤ m → s.average = T ∧ Checked s

theorem Recovering.step {m : Nat} (hm : Recovering T m s) (h : SensorStep attempts s s' reported)
    (hconst : ∀ k, attempts k = some T) (hT : -25 < T.toInt ∧ T.toInt < 120) :
    Recovering T (m+1) s' ∧ s'.wrIdx = s.wrIdx+1 ∧ (5 ≤ m → s'.wrIdx = 0 → reported T) := by
  obtain ⟨hw, hunfinished, hfinished⟩ := h.accepted hconst hT hm.recovers.1
  have hval : s'.wrIdx.val = (m+1) % 3 := by
    have hidx := hm.wrIdx
    rw [hw, Fin.val_add, hidx]
    simp
  by_cases hzero : s'.wrIdx = 0
  · obtain ⟨hoffset, hmean, -, hreported, hchecked⟩ := hfinished hzero
    rw [hzero] at hval
    have haverage (hle : 5 ≤ m) : s'.average = T := by
      rw [hm.clean (by omega)] at hmean
      exact Int32.toInt_inj.mp (by omega)
    refine ⟨⟨(h.recovers_iff hconst hT).mpr hm.recovers, by rw [hzero, ← hval], fun _ => hoffset,
      fun hle => ⟨haverage (by omega), hchecked⟩⟩, hw, fun hle _ => ?_⟩
    rw [← haverage hle]
    exact hreported
  · obtain ⟨hoffset, haverage, hchecked⟩ := hunfinished hzero
    have hne : (m+1) % 3 ≠ 0 := by
      rw [← hval]
      exact fun hv => hzero (Fin.ext hv)
    refine ⟨⟨(h.recovers_iff hconst hT).mpr hm.recovers, hval, fun hle => ?_, fun hle => ?_⟩, hw,
      fun _ hz => absurd hz hzero⟩
    · rw [hoffset]
      exact hm.clean (by omega)
    · obtain ⟨hT', hc⟩ := hm.settled (by omega)
      exact ⟨haverage.trans hT', hchecked hc⟩

/-- A sensor that does not recover, `m` rounds after the temperature has become constant. -/
structure Stuck (T : Int32) (m : Nat) (s : SensorAndChannel) : Prop where
  recovers : ¬ Recovers s T
  wrIdx : s.Accepts T → s.wrIdx.val = m % 3
  rejects : 3 ≤ m → ¬ s.Accepts T

theorem Stuck.step {m : Nat} (hm : Stuck T m s) (h : SensorStep attempts s s' reported)
    (hconst : ∀ k, attempts k = some T) (hT : -25 < T.toInt ∧ T.toInt < 120) : Stuck T (m+1) s' := by
  have hrecovers : ¬ Recovers s' T := (h.recovers_iff hconst hT).not.mpr hm.recovers
  by_cases haccepts : s.Accepts T
  · obtain ⟨hw, -, hfinished⟩ := h.accepted hconst hT haccepts
    have hval : s'.wrIdx.val = (m+1) % 3 := by
      have hidx := hm.wrIdx haccepts
      rw [hw, Fin.val_add, hidx]
      simp
    refine ⟨hrecovers, fun _ => hval, fun hle haccepts' => ?_⟩
    have hlt : m < 3 := by
      by_contra hge
      exact hm.rejects (by omega) haccepts
    have hzero : s'.wrIdx = 0 := Fin.ext (by rw [hval]; simp; omega)
    obtain ⟨hoffset, -⟩ := hfinished hzero
    exact hrecovers ⟨haccepts', by rw [hoffset]; decide⟩
  · have hrejects := h.rejected hconst haccepts
    exact ⟨hrecovers, fun hc => absurd hc hrejects, fun _ => hrejects⟩

/-- The average of a sensor that rejects `T` is something else. -/
theorem average_ne (hT : -25 < T.toInt ∧ T.toInt < 120) (h : ¬ s.Accepts T) : s.average ≠ T := by
  rintro heq
  rw [SensorAndChannel.Accepts, heq] at h
  split_ifs at h
  · exact h hT
  · omega

/-! Runs of the thread. -/

/-- `temperature_thread` over the sensors `is`, turn by turn. -/
def temperatureThread (is : List ι) (t : Thread ι) (r : Round ι) : List (Event ι) × Thread ι := temperatureRound r is t

theorem run_running {rounds : List (Round ι)} (h : (Machine.run (temperatureThread is) t rounds).2.rebooted = false) :
    t.rebooted = false := by
  induction rounds generalizing t with
  | nil => exact h
  | cons r rounds ih => exact round_running (ih h)

theorem run_recovering {m : Nat} {rounds : List (Round ι)} (hi : i ∈ is) (hnodup : is.Nodup)
    (hT : -25 < T.toInt ∧ T.toInt < 120) (hconst : ∀ r ∈ rounds, ∀ k, r.attempts i k = some T)
    (hrun : (Machine.run (temperatureThread is) t rounds).2.rebooted = false) (h : Recovering T m (t.sensors i)) :
    Recovering T (m+rounds.length) ((Machine.run (temperatureThread is) t rounds).2.sensors i) := by
  induction rounds generalizing m t with
  | nil => exact h
  | cons r rounds ih =>
    have hstep := round_step hi hnodup (run_running hrun)
    have hnext := (h.step hstep (hconst r List.mem_cons_self) hT).1
    have hlast := ih (fun r' hr' => hconst r' (List.mem_cons_of_mem r hr')) hrun hnext
    rwa [Nat.add_right_comm] at hlast

theorem run_stuck {m : Nat} {rounds : List (Round ι)} (hi : i ∈ is) (hnodup : is.Nodup)
    (hT : -25 < T.toInt ∧ T.toInt < 120) (hconst : ∀ r ∈ rounds, ∀ k, r.attempts i k = some T)
    (hrun : (Machine.run (temperatureThread is) t rounds).2.rebooted = false) (h : Stuck T m (t.sensors i)) :
    Stuck T (m+rounds.length) ((Machine.run (temperatureThread is) t rounds).2.sensors i) := by
  induction rounds generalizing m t with
  | nil => exact h
  | cons r rounds ih =>
    have hstep := round_step hi hnodup (run_running hrun)
    have hnext := h.step hstep (hconst r List.mem_cons_self) hT
    have hlast := ih (fun r' hr' => hconst r' (List.mem_cons_of_mem r hr')) hrun hnext
    rwa [Nat.add_right_comm] at hlast

/-- From any state, after six rounds with the constant temperature `T`: unless the device is rebooted, the sensor
tracks `T` exactly if `T` was near the last average and the samples of the unfinished window were near `T`. -/
theorem tracks_iff (hi : i ∈ is) (hnodup : is.Nodup) (hT : -25 < T.toInt ∧ T.toInt < 120) (t : Thread ι)
    (rounds : List (Round ι)) (r : Round ι) (hconst : ∀ r' ∈ rounds ++ [r], ∀ k, r'.attempts i k = some T)
    (hlen : 5 ≤ rounds.length)
    (hrun : (temperatureThread is (Machine.run (temperatureThread is) t rounds).2 r).2.rebooted = false) :
    Tracks T i (Machine.run (temperatureThread is) t rounds).2
        (temperatureThread is (Machine.run (temperatureThread is) t rounds).2 r).1
        (temperatureThread is (Machine.run (temperatureThread is) t rounds).2 r).2 ↔
      Recovers (t.sensors i) T := by
  have hbefore : ∀ r' ∈ rounds, ∀ k, r'.attempts i k = some T := fun r' hr' => hconst r' (List.mem_append_left _ hr')
  have hlast : ∀ k, r.attempts i k = some T := hconst r (List.mem_append_right _ List.mem_cons_self)
  have hstep := round_step hi hnodup hrun
  have hmod : (t.sensors i).wrIdx.val = (t.sensors i).wrIdx.val % 3 := (Nat.mod_eq_of_lt (t.sensors i).wrIdx.isLt).symm
  have hwindow := (t.sensors i).wrIdx.isLt
  constructor
  · intro htracks
    by_contra hnot
    have hfirst : Stuck T (t.sensors i).wrIdx.val (t.sensors i) := ⟨hnot, fun _ => hmod, fun hle => by omega⟩
    have hstuck := (run_stuck hi hnodup hT hbefore (round_running hrun) hfirst).step hstep hlast hT
    exact average_ne hT (hstuck.rejects (by omega)) htracks.average
  · intro hrecovers
    have hfirst : Recovering T (t.sensors i).wrIdx.val (t.sensors i) :=
      ⟨hrecovers, hmod, fun hle => by omega, fun hle => by omega⟩
    have hrec := run_recovering hi hnodup hT hbefore (round_running hrun) hfirst
    obtain ⟨hnext, hw, hreported⟩ := hrec.step hstep hlast hT
    obtain ⟨haverage, hchecked⟩ := hnext.settled (by omega)
    refine ⟨hw, haverage, hreported (by omega), fun info hcb hdata hlt => ?_⟩
    exact hchecked info hcb hdata (by rw [haverage]; exact hlt)

/-- Every attempt of a round gives the same temperature. -/
def Round.constant (temperature : Int32) : Round ι := ⟨fun _ _ => some temperature, fun _ => ⟨0, 0, 1000⟩⟩

/-- The main board's sensor from its start on, at 85 degrees. -/
theorem tracks_85 :
    Tracks 85 () (Machine.run (temperatureThread [()]) (Thread.initial fun _ => some ⟨80, false, 0⟩)
        (List.replicate 5 (Round.constant 85))).2
      (temperatureThread [()] (Machine.run (temperatureThread [()]) (Thread.initial fun _ => some ⟨80, false, 0⟩)
        (List.replicate 5 (Round.constant 85))).2 (Round.constant 85)).1
      (temperatureThread [()] (Machine.run (temperatureThread [()]) (Thread.initial fun _ => some ⟨80, false, 0⟩)
        (List.replicate 5 (Round.constant 85))).2 (Round.constant 85)).2 :=
  (tracks_iff (by decide) (by decide) (by decide) _ _ _ (fun r hr k => by
    have hmem : r ∈ List.replicate 6 (Round.constant 85 : Round Unit) := hr
    rw [List.eq_of_mem_replicate hmem]
    rfl) (by decide) (by decide +kernel)).mpr (by decide +kernel)

theorem stale_step {t : Thread Unit} (haverage : (t.sensors ()).average = 20)
    (hdata : (t.sensors ()).cbData = some ⟨80, false, 0⟩) (hrun : t.rebooted = false) :
    ((temperatureThread [()] t (Round.constant 90)).2.sensors ()).average = 20 ∧
      ((temperatureThread [()] t (Round.constant 90)).2.sensors ()).cbData = some ⟨80, false, 0⟩ ∧
      (temperatureThread [()] t (Round.constant 90)).2.rebooted = false := by
  have hrejects : ¬ (t.sensors ()).Accepts 90 := by
    rw [SensorAndChannel.Accepts, haverage]
    decide
  have hconst : ∀ k, (Round.constant 90 : Round Unit).attempts () k = some 90 := fun _ => rfl
  have hquiet : (sample ((Round.constant 90 : Round Unit).attempts ()) (t.sensors ())).1 = false := by
    simp only [sample, (sampleLoop_rejects hconst hrejects sampleRetryCount).1, Bool.false_eq_true, if_false]
  have hround : (temperatureThread [()] t (Round.constant 90)).2 =
      { t with
        sensors :=
          Function.update t.sensors () (sample ((Round.constant 90 : Round Unit).attempts ()) (t.sensors ())).2 } := by
    rw [temperatureThread, temperatureRound, if_neg (by simp [hrun])]
    simp only [temperatureRound, sampleAndReportTemperature, hquiet, Bool.false_eq_true, if_false]
  rw [hround]
  simp only [Function.update_self]
  exact ⟨(sample_rejects hconst hrejects).trans haverage, sample_cb.2.trans hdata, hrun⟩

/-- After 20 degrees over one window, a sensor at 90 degrees keeps its average of 20 for ever, and does not get
into over-temperature at its threshold of 80. -/
theorem stale_average : ¬∃ n,
    ((Machine.run (temperatureThread [()]) (Thread.initial fun _ => some ⟨80, false, 0⟩)
      (List.replicate 3 (Round.constant 20) ++ List.replicate n (Round.constant 90))).2.sensors ()).average ≠ 20 ∨
    ((Machine.run (temperatureThread [()]) (Thread.initial fun _ => some ⟨80, false, 0⟩)
      (List.replicate 3 (Round.constant 20) ++ List.replicate n (Round.constant 90))).2.sensors ()).cbData ≠
        some ⟨80, false, 0⟩ := by
  have hstale : ∀ n, ∀ t : Thread Unit, (t.sensors ()).average = 20 → (t.sensors ()).cbData = some ⟨80, false, 0⟩ →
      t.rebooted = false →
      ((Machine.run (temperatureThread [()]) t (List.replicate n (Round.constant 90))).2.sensors ()).average = 20 ∧
      ((Machine.run (temperatureThread [()]) t (List.replicate n (Round.constant 90))).2.sensors ()).cbData =
        some ⟨80, false, 0⟩ := by
    intro n
    induction n with
    | zero => exact fun t haverage hdata _ => ⟨haverage, hdata⟩
    | succ n ih =>
      intro t haverage hdata hrun
      obtain ⟨haverage', hdata', hrun'⟩ := stale_step haverage hdata hrun
      exact ih _ haverage' hdata' hrun'
  rintro ⟨n, hchanges⟩
  obtain ⟨haverage, hdata⟩ := hstale n
    (Machine.run (temperatureThread [()]) (Thread.initial fun _ => some ⟨80, false, 0⟩)
      (List.replicate 3 (Round.constant 20))).2 (by decide +kernel) (by decide +kernel) (by decide +kernel)
  rw [Machine.run_append] at hchanges
  cases hchanges with
  | inl h => exact h haverage
  | inr h => exact h hdata

end OrbFirmware.Temperature

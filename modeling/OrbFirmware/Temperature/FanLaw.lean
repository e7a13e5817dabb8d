import OrbFirmware.Temperature.Override
import Mathlib.Data.Fintype.Card
import Mathlib.Order.Interval.Finset.Defs

/-! The law of the fan: at its maximum while a sensor is in over-temperature, otherwise at the speed accepted last.
It holds as long as no command that has passed its test gets into a change between the two. -/
namespace OrbFirmware.Temperature
variable {ι : Type*} {tr : List FanEvent} {s : Override ι} {fan : Fan} {ws : List FanWrite}

/-- The fan as it is after `fan_set_speed_by_value`. -/
def Fan.Runs (fan : Fan) (speed : UInt16) : Prop :=
  fan.fanSpeedByValue = speed ∧ fan.enabled = decide (0 < speed) ∧ (speed ≠ 0 → fan.pwm = speed)

instance (fan : Fan) (speed : UInt16) : Decidable (fan.Runs speed) := inferInstanceAs (Decidable (_ ∧ _))

/-- The speed of the last accepted command; the one `fan_init` sets before there is one. -/
def lastAccepted (tr : List FanEvent) : UInt16 :=
  tr.foldl (fun speed e =>
    match e with
    | .accepted speed => speed
    | .rejected _ => speed) (fanSpeedOfPercentage fanInitialSpeedPercent)

def numInOvertemp [Fintype ι] (sensors : ι → OvertempInfo) : Nat :=
  (Finset.univ.filter fun i => (sensors i).inOvertemp = true).card

/-- What is asked of a state reached by the events `tr`. -/
structure Overridden [Fintype ι] (tr : List FanEvent) (s : Override ι) : Prop where
  counter : s.thread = .idle → s.numSensorsInOvertempConditions.toNat = numInOvertemp s.sensors
  maximum : s.thread = .idle → s.runner = .idle → (∃ i, (s.sensors i).inOvertemp = true) → s.fan.Runs 65535
  restored : s.thread = .idle → s.runner = .idle → (∀ i, (s.sensors i).inOvertemp = false) →
    s.fan.Runs (lastAccepted tr)

/-- The order of the two does not matter. -/
def FanWrite.Commutes : FanWrite → FanWrite → Prop
  | .pwm value, .pwm value' => value = value'
  | .fanSpeedByValue value, .fanSpeedByValue value' => value = value'
  | .enable on, .enable on' => on = on'
  | _, _ => True

instance : (w w' : FanWrite) → Decidable (w.Commutes w')
  | .pwm value, .pwm value' => inferInstanceAs (Decidable (value = value'))
  | .fanSpeedByValue value, .fanSpeedByValue value' => inferInstanceAs (Decidable (value = value'))
  | .enable on, .enable on' => inferInstanceAs (Decidable (on = on'))
  | .pwm _, .fanSpeedByValue _ | .pwm _, .enable _ | .fanSpeedByValue _, .pwm _ | .fanSpeedByValue _, .enable _
  | .enable _, .pwm _ | .enable _, .fanSpeedByValue _ => isTrue trivial

/-- What the runner is going to write. -/
def RunnerPc.rest : RunnerPc → List FanWrite
  | .write rest _ => rest
  | .idle | .check _ _ => []

/-- What the temperature thread is going to write. -/
def Override.pending (s : Override ι) : List FanWrite :=
  match s.thread with
  | .write rest => rest
  | .check =>
    if s.oldNumSensorsInOvertempConditions = 1 ∧ s.numSensorsInOvertempConditions = 0 then
      fanSetSpeedByValue s.fanSpeedBeforeOvertemperature
    else []
  | .idle | .count _ | .save => []

/-- A command does not write what the temperature thread is going to write otherwise, and at the beginning of an
over-temperature there is none that has passed its test, or it only has to switch the fan on. -/
def Orderly (s : Override ι) : OverrideAction ι → Prop
  | .thread => s.thread = .save → ∀ w ∈ s.runner.rest, w = .enable true
  | .runner => ∀ w ∈ s.runner.rest.head?, ∀ w' ∈ s.pending, w.Commutes w'
  | .callback _ _ _ | .command _ _ => True

instance (s : Override ι) (a : OverrideAction ι) : Decidable (Orderly s a) :=
  match a with
  | .thread => inferInstanceAs (Decidable (_ → _))
  | .runner => inferInstanceAs (Decidable (∀ w ∈ s.runner.rest.head?, ∀ w' ∈ s.pending, w.Commutes w'))
  | .callback _ _ _ | .command _ _ => isTrue trivial

/-! Lists of writes. -/

def Fan.after (fan : Fan) (ws : List FanWrite) : Fan := ws.foldl FanWrite.apply fan

@[simp] theorem Fan.after_nil (fan : Fan) : fan.after [] = fan := rfl

@[simp] theorem Fan.after_cons (fan : Fan) (w : FanWrite) (ws : List FanWrite) :
    fan.after (w :: ws) = (w.apply fan).after ws := rfl

theorem FanWrite.Commutes.apply_apply {w w' : FanWrite} (h : w.Commutes w') (fan : Fan) :
    w'.apply (w.apply fan) = w.apply (w'.apply fan) := by
  cases w with
  | pwm value =>
    cases w' with
    | pwm value' => obtain rfl := h; rfl
    | fanSpeedByValue value' | enable on' => rfl
  | fanSpeedByValue value =>
    cases w' with
    | fanSpeedByValue value' => obtain rfl := h; rfl
    | pwm value' | enable on' => rfl
  | enable on =>
    cases w' with
    | enable on' => obtain rfl := h; rfl
    | pwm value' | fanSpeedByValue value' => rfl

theorem after_apply {w : FanWrite} (h : ∀ w' ∈ ws, w.Commutes w') (fan : Fan) :
    (w.apply fan).after ws = w.apply (fan.after ws) := by
  induction ws generalizing fan with
  | nil => rfl
  | cons w' ws ih =>
    have hw' := h w' List.mem_cons_self
    rw [Fan.after_cons, hw'.apply_apply, ih fun w'' hw'' => h w'' (List.mem_cons_of_mem w' hw'')]
    rfl

theorem after_fanSetSpeedByValue (fan : Fan) (speed : UInt16) : (fan.after (fanSetSpeedByValue speed)).Runs speed := by
  by_cases h : speed = 0
  · subst h
    exact ⟨rfl, rfl, fun h => absurd rfl h⟩
  · simp only [fanSetSpeedByValue, ne_eq, h, not_false_eq_true, if_true, List.singleton_append]
    exact ⟨rfl, rfl, fun _ => rfl⟩

theorem fanSetMaxSpeed_eq : fanSetMaxSpeed = fanSetSpeedByValue 65535 := by
  decide +kernel

/-- Switching on or off what is on or off. -/
theorem Fan.Runs.after_enable {speed : UInt16} (h : fan.Runs speed)
    (hws : ∀ w ∈ ws, w = .enable (decide (0 < speed))) : fan.after ws = fan := by
  induction ws with
  | nil => rfl
  | cons w ws ih =>
    obtain rfl := hws w List.mem_cons_self
    have heq : FanWrite.apply fan (.enable (decide (0 < speed))) = fan := by
      rw [← h.2.1]
      rfl
    rw [Fan.after_cons, heq]
    exact ih fun w hw => hws w (List.mem_cons_of_mem _ hw)

theorem after_enable_fanSpeedByValue (h : ∀ w ∈ ws, w = .enable true) :
    (fan.after ws).fanSpeedByValue = fan.fanSpeedByValue := by
  induction ws generalizing fan with
  | nil => rfl
  | cons w ws ih =>
    obtain rfl := h w List.mem_cons_self
    rw [Fan.after_cons, ih fun w hw => h w (List.mem_cons_of_mem _ hw)]
    rfl

theorem enable_mem_fanSetSpeedByValue {on : Bool} {speed : UInt16}
    (h : FanWrite.enable on ∈ fanSetSpeedByValue speed) : on = decide (0 < speed) := by
  unfold fanSetSpeedByValue at h
  split_ifs at h <;> simpa using h

theorem toNat_succ {n : UInt8} (h : n.toNat < 255) : (n+1).toNat = n.toNat+1 := by
  rw [UInt8.toNat_add, UInt8.toNat_one]
  omega

theorem toNat_pred {n : UInt8} (h : 0 < n) : (n-1).toNat+1 = n.toNat := by
  rw [UInt8.toNat_sub_of_le n 1 h, UInt8.toNat_one]
  exact Nat.sub_add_cancel h

/-! The invariant. -/

/-- The temperature thread is between the beginning of an over-temperature and its end. -/
def Override.InEmergency (s : Override ι) : Prop :=
  match s.thread with
  | .idle | .count _ | .write _ => 0 < s.numSensorsInOvertempConditions
  | .check => 0 < s.oldNumSensorsInOvertempConditions ∧ 0 < s.numSensorsInOvertempConditions
  | .save => False

/-- The speed to return to: that of the command under way, otherwise of the last accepted one. -/
def RunnerPc.speed (tr : List FanEvent) : RunnerPc → UInt16
  | .write _ speed => speed
  | .idle | .check _ _ => lastAccepted tr

/-- The counters, with the number of sensors in over-temperature. -/
def Counted (num old count : Nat) : ThreadPc → Prop
  | .idle | .write _ => num = count
  | .count true => num+1 = count
  | .count false => num = count+1
  | .check => num = count ∧ (num = old+1 ∨ old = num+1)
  | .save => num = count ∧ 0 < num

structure OverrideInv [Fintype ι] (tr : List FanEvent) (s : Override ι) : Prop where
  counted : Counted s.numSensorsInOvertempConditions.toNat s.oldNumSensorsInOvertempConditions.toNat
    (numInOvertemp s.sensors) s.thread
  enable : ∀ on, FanWrite.enable on ∈ s.runner.rest → on = decide (0 < s.runner.speed tr)
  emergency : s.InEmergency →
    (s.fan.after s.pending).Runs 65535 ∧ s.fanSpeedBeforeOvertemperature = s.runner.speed tr ∧
      ∀ w ∈ s.runner.rest, w = .enable true
  normal : ¬ s.InEmergency → ((s.fan.after s.pending).after s.runner.rest).Runs (s.runner.speed tr)

/-! Callbacks. -/

/-- The flag of the sensor before and after. -/
def OvertempResult.Flags (flag flag' : Bool) : OvertempResult → Prop
  | .inc => flag = false ∧ flag' = true
  | .dec => flag = true ∧ flag' = false
  | .same | .reboot => flag' = flag

theorem overtempCallback_flag {clock : Clock} {last last' : Nat} {average : Int32} {info info' : OvertempInfo}
    {result : OvertempResult} (h : overtempCallback clock last average info = (result, last', info')) :
    result.Flags info.inOvertemp info'.inOvertemp := by
  unfold overtempCallback at h
  dsimp only at h
  generalize (if info.overtempC.toInt+overtempToCriticalRiseC < average.toInt then
    criticalTimerStep clock last info.criticalTimer else (0, last)) = timer at h
  split_ifs at h with hreboot hinc hdec <;> obtain ⟨rfl, -, rfl⟩ := by simpa using h
  · rfl
  · exact ⟨hinc.1, rfl⟩
  · exact ⟨hdec.1, rfl⟩
  · rfl

theorem numInOvertemp_insert [Fintype ι] {sensors sensors' : ι → OvertempInfo} {i : ι}
    (h : (sensors i).inOvertemp = false) (h' : (sensors' i).inOvertemp = true)
    (hrest : ∀ j, j ≠ i → (sensors' j).inOvertemp = (sensors j).inOvertemp) :
    numInOvertemp sensors' = numInOvertemp sensors+1 := by
  classical
  have hi : i ∉ Finset.univ.filter fun j => (sensors j).inOvertemp = true := by simp [h]
  have heq : (Finset.univ.filter fun j => (sensors' j).inOvertemp = true)
      = insert i (Finset.univ.filter fun j => (sensors j).inOvertemp = true) := by
    ext j
    by_cases hj : j = i
    · simp [hj, h']
    · simp [hj, hrest j hj]
  rw [numInOvertemp, heq, Finset.card_insert_of_notMem hi]
  rfl

theorem numInOvertemp_le [Fintype ι] (sensors : ι → OvertempInfo) : numInOvertemp sensors ≤ Fintype.card ι :=
  Finset.card_le_univ _

variable [DecidableEq ι] [Fintype ι]

theorem OverrideInv.callback (h : OverrideInv tr s) (hidle : s.thread = .idle) (i : ι) (average : Int32)
    (clock : Clock) : OverrideInv tr (startCallback clock average i s) := by
  obtain ⟨hcounted, henable, hemergency, hnormal⟩ := h
  obtain ⟨result, last', info', hresult⟩ :
      ∃ result last' info', overtempCallback clock s.lastSystemTime average (s.sensors i) = (result, last', info') :=
    ⟨_, _, _, rfl⟩
  have hflag := overtempCallback_flag hresult
  simp only [Override.InEmergency, Override.pending, hidle] at hemergency hnormal hcounted
  have hother : ∀ j, j ≠ i → (Function.update s.sensors i info' j).inOvertemp = (s.sensors j).inOvertemp := by
    intro j hj
    rw [Function.update_of_ne hj]
  have hself : Function.update s.sensors i info' i = info' := Function.update_self ..
  cases result with
  | inc =>
    have hcount := numInOvertemp_insert hflag.1 (hself.symm ▸ hflag.2) hother
    simp only [startCallback, hresult]
    exact ⟨by simp only [Counted] at hcounted ⊢; omega, henable, hemergency, hnormal⟩
  | dec =>
    have hcount := numInOvertemp_insert (hself.symm ▸ hflag.2) hflag.1 fun j hj => (hother j hj).symm
    simp only [startCallback, hresult]
    exact ⟨by simp only [Counted] at hcounted ⊢; omega, henable, hemergency, hnormal⟩
  | same | reboot =>
    have hcount : numInOvertemp (Function.update s.sensors i info') = numInOvertemp s.sensors := by
      refine congrArg Finset.card (Finset.filter_congr fun j _ => ?_)
      by_cases hj : j = i
      · rw [hj, hself, hflag]
      · rw [hother j hj]
    simp only [startCallback, hresult]
    refine ⟨?_, henable, ?_, ?_⟩
    · simp only [hidle, hcount]
      exact hcounted
    · simpa only [Override.InEmergency, Override.pending, hidle] using hemergency
    · simpa only [Override.InEmergency, Override.pending, hidle] using hnormal

/-! The temperature thread goes on. -/

omit [DecidableEq ι] in
theorem OverrideInv.count (h : OverrideInv tr s) (hcard : Fintype.card ι < 256) {inc : Bool}
    (hthread : s.thread = .count inc) : OverrideInv tr (threadStep s) := by
  obtain ⟨hcounted, henable, hemergency, hnormal⟩ := h
  have hle := numInOvertemp_le s.sensors
  simp only [Override.InEmergency, Override.pending, hthread] at hemergency hnormal hcounted
  simp only [threadStep, hthread]
  cases inc with
  | true =>
    simp only [Counted] at hcounted
    have hnum : (s.numSensorsInOvertempConditions+1).toNat = s.numSensorsInOvertempConditions.toNat+1 :=
      toNat_succ (by omega)
    have hpos : 0 < s.numSensorsInOvertempConditions+1 := by
      rw [UInt8.lt_iff_toNat_lt, hnum]
      exact Nat.succ_pos _
    have hne : s.numSensorsInOvertempConditions+1 ≠ 0 := UInt8.pos_iff_ne_zero.mp hpos
    refine ⟨⟨hnum.trans hcounted, .inl hnum⟩, henable, ?_, ?_⟩
    · rintro ⟨hold, -⟩
      simpa [Override.pending, hne] using hemergency hold
    · intro hno
      have hold : ¬ 0 < s.numSensorsInOvertempConditions := fun hold => hno ⟨hold, hpos⟩
      simpa [Override.pending, hne] using hnormal hold
  | false =>
    simp only [Counted] at hcounted
    have hpos : 0 < s.numSensorsInOvertempConditions := by
      rw [UInt8.lt_iff_toNat_lt, hcounted]
      exact Nat.succ_pos _
    have hnum := toNat_pred hpos
    obtain ⟨hruns, hbefore, hrest⟩ := hemergency hpos
    refine ⟨⟨Nat.succ.inj (hnum.trans hcounted), .inr hnum.symm⟩, henable, ?_, ?_⟩
    · rintro ⟨-, hnew⟩
      have hne : s.numSensorsInOvertempConditions-1 ≠ 0 := UInt8.pos_iff_ne_zero.mp hnew
      simpa [Override.pending, hne] using hemergency hpos
    · intro hno
      have hzero : s.numSensorsInOvertempConditions-1 = 0 := by
        by_contra hne
        exact hno ⟨hpos, UInt8.pos_iff_ne_zero.mpr hne⟩
      have hone : s.numSensorsInOvertempConditions = 1 := by
        rw [hzero] at hnum
        exact UInt8.toNat_inj.mp hnum.symm
      have hset := after_fanSetSpeedByValue s.fan s.fanSpeedBeforeOvertemperature
      rw [hbefore] at hset
      have hrest' : ∀ w ∈ s.runner.rest, w = .enable (decide (0 < s.runner.speed tr)) := by
        intro w hw
        obtain rfl := hrest w hw
        rw [henable true hw]
      simpa [Override.pending, hzero, hone, hset.after_enable hrest', hbefore] using hset

omit [DecidableEq ι] in
theorem OverrideInv.check (h : OverrideInv tr s) (hthread : s.thread = .check) : OverrideInv tr (threadStep s) := by
  obtain ⟨hcounted, henable, hemergency, hnormal⟩ := h
  simp only [Override.InEmergency, Override.pending, hthread, Counted] at hemergency hnormal hcounted
  obtain ⟨hnum, hold⟩ := hcounted
  simp only [threadStep, hthread, checkOvertempConditions]
  split_ifs with hrestore hbegin
  · have hno : ¬ 0 < s.numSensorsInOvertempConditions := by
      rw [hrestore.2]
      exact lt_irrefl 0
    rw [if_pos hrestore] at hnormal
    exact ⟨hnum, henable, fun hpos => absurd hpos hno, fun _ => hnormal fun hpos => hno hpos.2⟩
  · have hno : ¬ 0 < s.oldNumSensorsInOvertempConditions := by
      rw [hbegin.1]
      exact lt_irrefl 0
    simp only [hrestore, if_false] at hnormal
    exact ⟨⟨hnum, hbegin.2⟩, henable, fun hin => hin.elim, fun _ => hnormal fun hpos => hno hpos.1⟩
  · have hpos : 0 < s.oldNumSensorsInOvertempConditions ∧ 0 < s.numSensorsInOvertempConditions := by
      simp only [UInt8.lt_iff_toNat_lt, ← UInt8.toNat_inj, UInt8.toNat_zero, UInt8.toNat_one] at hrestore hbegin ⊢
      omega
    simp only [hrestore, if_false] at hemergency
    exact ⟨hnum, henable, fun _ => hemergency hpos, fun hno => absurd hpos.2 hno⟩

omit [DecidableEq ι] in
theorem OverrideInv.save (h : OverrideInv tr s) (hthread : s.thread = .save)
    (hrest : ∀ w ∈ s.runner.rest, w = .enable true) : OverrideInv tr (threadStep s) := by
  obtain ⟨hcounted, henable, -, hnormal⟩ := h
  simp only [Override.InEmergency, Override.pending, hthread, Counted, not_false_eq_true, forall_const,
    Fan.after_nil] at hnormal hcounted
  obtain ⟨hnum, hpos⟩ := hcounted
  simp only [threadStep, hthread]
  refine ⟨hnum, henable, fun _ => ⟨?_, ?_, hrest⟩, fun hno => absurd hpos hno⟩
  · simp only [Override.pending, fanSetMaxSpeed_eq]
    exact after_fanSetSpeedByValue s.fan 65535
  · rw [← hnormal.1]
    exact (after_enable_fanSpeedByValue hrest).symm

omit [DecidableEq ι] in
theorem OverrideInv.write (h : OverrideInv tr s) {rest : List FanWrite} (hthread : s.thread = .write rest) :
    OverrideInv tr (threadStep s) := by
  obtain ⟨hcounted, henable, hemergency, hnormal⟩ := h
  simp only [Override.InEmergency, Override.pending, hthread, Counted] at hemergency hnormal hcounted
  cases rest with
  | nil =>
    simp only [threadStep, hthread]
    exact ⟨hcounted, henable, hemergency, hnormal⟩
  | cons w rest =>
    simp only [threadStep, hthread]
    exact ⟨hcounted, henable, hemergency, hnormal⟩

/-! The runner goes on. -/

theorem lastAccepted_append (tr : List FanEvent) (e : FanEvent) :
    lastAccepted (tr ++ [e]) =
      match e with
      | .accepted speed => speed
      | .rejected _ => lastAccepted tr := by
  rw [lastAccepted, List.foldl_append]
  cases e <;> rfl

omit [Fintype ι] [DecidableEq ι] in
theorem not_inEmergency (h : ¬ 0 < s.numSensorsInOvertempConditions) : ¬ s.InEmergency := by
  intro hin
  unfold Override.InEmergency at hin
  cases hthread : s.thread with
  | idle | count inc | write rest => exact h (by simpa [hthread] using hin)
  | check => exact h (by simpa [hthread] using hin : _ ∧ _).2
  | save => simp [hthread] at hin

omit [DecidableEq ι] in
/-- Only the runner's place changes. -/
theorem OverrideInv.move {evs : List FanEvent} (h : OverrideInv tr s) {pc : RunnerPc}
    (hrest : pc.rest = s.runner.rest) (hspeed : pc.speed (tr ++ evs) = s.runner.speed tr) :
    OverrideInv (tr ++ evs) { s with runner := pc } := by
  obtain ⟨hcounted, henable, hemergency, hnormal⟩ := h
  simp only [← hrest, ← hspeed] at henable hemergency hnormal
  exact ⟨hcounted, henable, hemergency, hnormal⟩

omit [DecidableEq ι] in
/-- A command that passes its test finds no emergency. -/
theorem OverrideInv.accept (h : OverrideInv tr s) (htest : temperatureIsInOvertemp s = false) (speed : UInt16) :
    OverrideInv tr { s with runner := .write (fanSetSpeedByValue speed) speed } := by
  have hno : ¬ s.InEmergency := not_inEmergency (of_decide_eq_false htest)
  exact ⟨h.counted, fun on hon => enable_mem_fanSetSpeedByValue hon, fun hin => absurd hin hno,
    fun _ => after_fanSetSpeedByValue _ speed⟩

theorem handleFanSpeed_ok {inOvertemp : Bool} {whichPayload : Runner.FanSpeedTag} {fanSpeed : UInt32} {c : FanCall}
    (h : handleFanSpeed inOvertemp whichPayload fanSpeed = .ok c) : inOvertemp = false := by
  cases inOvertemp with
  | false => rfl
  | true => contradiction

omit [DecidableEq ι] in
theorem OverrideInv.set (h : OverrideInv tr s) {w : FanWrite} {rest : List FanWrite} {speed : UInt16}
    (hrunner : s.runner = .write (w :: rest) speed) (hok : ∀ w' ∈ s.pending, w.Commutes w') :
    OverrideInv tr { s with fan := w.apply s.fan, runner := .write rest speed } := by
  obtain ⟨hcounted, henable, hemergency, hnormal⟩ := h
  simp only [hrunner, RunnerPc.rest, RunnerPc.speed] at henable hemergency hnormal
  have hafter : (w.apply s.fan).after s.pending = w.apply (s.fan.after s.pending) := after_apply hok s.fan
  refine ⟨hcounted, fun on hon => henable on (List.mem_cons_of_mem w hon), fun hin => ?_, fun hno => ?_⟩
  · obtain ⟨hruns, hbefore, hrest⟩ := hemergency hin
    obtain rfl := hrest w List.mem_cons_self
    have hsame : (s.fan.after s.pending).after [.enable true] = s.fan.after s.pending := by
      refine hruns.after_enable fun w hw => ?_
      rw [List.mem_singleton.mp hw]
      rfl
    refine ⟨?_, hbefore, fun w' hw' => hrest w' (List.mem_cons_of_mem _ hw')⟩
    rw [← hsame] at hruns
    exact hafter ▸ hruns
  · exact (congrArg (fun fan : Fan => (fan.after rest).Runs speed) hafter).mpr (hnormal hno)

omit [DecidableEq ι] in
theorem OverrideInv.runner (h : OverrideInv tr s) (hok : Orderly s .runner) :
    OverrideInv (tr ++ (runnerStep s).1) (runnerStep s).2 := by
  cases hrunner : s.runner with
  | idle =>
    simp only [runnerStep, hrunner, List.append_nil]
    exact h
  | check whichPayload fanSpeed =>
    cases hcommand : handleFanSpeed (temperatureIsInOvertemp s) whichPayload fanSpeed with
    | error code =>
      simp only [runnerStep, hrunner, hcommand]
      refine h.move ?_ ?_
      · rw [hrunner]
        rfl
      · rw [hrunner]
        exact lastAccepted_append tr _
    | ok c =>
      simp only [runnerStep, hrunner, hcommand, List.append_nil]
      exact h.accept (handleFanSpeed_ok hcommand) c.speed
  | write rest speed =>
    cases rest with
    | nil =>
      simp only [runnerStep, hrunner]
      refine h.move ?_ ?_
      · rw [hrunner]
        rfl
      · rw [hrunner]
        exact lastAccepted_append tr _
    | cons w rest =>
      simp only [Orderly, hrunner, RunnerPc.rest, List.head?_cons, Option.mem_def, Option.some.injEq,
        forall_eq'] at hok
      simp only [runnerStep, hrunner, List.append_nil]
      exact h.set hrunner hok

omit [DecidableEq ι] in
theorem OverrideInv.thread (h : OverrideInv tr s) (hcard : Fintype.card ι < 256) (hok : Orderly s .thread) :
    OverrideInv tr (threadStep s) := by
  cases hthread : s.thread with
  | idle =>
    simp only [threadStep, hthread]
    exact h
  | count inc => exact h.count hcard hthread
  | check => exact h.check hthread
  | save => exact h.save hthread (hok hthread)
  | write rest => exact h.write hthread

theorem OverrideInv.step (hcard : Fintype.card ι < 256) (tr : List FanEvent) (s : Override ι) (a : OverrideAction ι)
    (h : OverrideInv tr s) (hok : Orderly s a) :
    OverrideInv (tr ++ (overrideStep s a).1) (overrideStep s a).2 := by
  have hsame : OverrideInv (tr ++ []) s := by
    rw [List.append_nil]
    exact h
  unfold overrideStep
  split_ifs
  · exact hsame
  · cases a with
    | callback i average clock =>
      cases hthread : s.thread with
      | idle =>
        simp only [List.append_nil]
        exact h.callback hthread i average clock
      | count inc | check | save | write rest => exact hsame
    | command whichPayload fanSpeed =>
      cases hrunner : s.runner with
      | idle =>
        refine h.move ?_ ?_
        · rw [hrunner]
          rfl
        · rw [hrunner, List.append_nil]
          rfl
      | check tag fanSpeed' | write rest speed => exact hsame
    | thread =>
      simp only [List.append_nil]
      exact h.thread hcard hok
    | runner => exact h.runner hok

omit [DecidableEq ι] in
theorem OverrideInv.initial {sensors : ι → OvertempInfo} (h : ∀ i, (sensors i).inOvertemp = false) :
    OverrideInv [] (Override.initial sensors) := by
  refine ⟨?_, ?_, ?_, ?_⟩
  · simp [Override.initial, Counted, numInOvertemp, h]
  · simp [Override.initial, RunnerPc.rest]
  · simp [Override.initial, Override.InEmergency]
  · intro _
    exact after_fanSetSpeedByValue _ _

omit [DecidableEq ι] in
theorem OverrideInv.overridden (h : OverrideInv tr s) : Overridden tr s := by
  obtain ⟨hcounted, -, hemergency, hnormal⟩ := h
  have hcount : s.thread = .idle → s.numSensorsInOvertempConditions.toNat = numInOvertemp s.sensors := by
    intro hthread
    rw [hthread] at hcounted
    exact hcounted
  refine ⟨hcount, fun hthread hrunner hin => ?_, fun hthread hrunner hout => ?_⟩
  · obtain ⟨i, hi⟩ := hin
    have hpos : 0 < numInOvertemp s.sensors := Finset.card_pos.mpr ⟨i, by simp [hi]⟩
    have hemergent : s.InEmergency := by
      simp only [Override.InEmergency, hthread, UInt8.lt_iff_toNat_lt, hcount hthread]
      exact hpos
    have hruns := (hemergency hemergent).1
    simpa only [Override.pending, hthread, Fan.after_nil] using hruns
  · have hzero : numInOvertemp s.sensors = 0 := by simp [numInOvertemp, hout]
    have hcalm : ¬ s.InEmergency := by
      simp only [Override.InEmergency, hthread, UInt8.lt_iff_toNat_lt, hcount hthread, hzero]
      exact lt_irrefl _
    have hruns := hnormal hcalm
    simpa only [Override.pending, hthread, hrunner, RunnerPc.rest, RunnerPc.speed, Fan.after_nil] using hruns

theorem fan_overridden (hcard : Fintype.card ι < 256) (sensors : ι → OvertempInfo)
    (hsensors : ∀ i, (sensors i).inOvertemp = false) (as : List (OverrideAction ι))
    (hm : Machine.Meets overrideStep Orderly (.initial sensors) as) :
    Overridden (Machine.events overrideStep (.initial sensors) as)
      (Machine.run overrideStep (.initial sensors) as).2 :=
  (Machine.events_invariant (OverrideInv.step hcard) [] _ as (.initial hsensors) hm).overridden

def mildSensors : Fin 2 → OvertempInfo := fun _ => ⟨70, false, 0⟩

/-- A command before an over-temperature, one within it and its end. -/
theorem fan_overridden_mild :
    let as : List (OverrideAction (Fin 2)) := [OverrideAction.command .value 30000, .runner, .runner, .runner, .runner,
      .runner, .callback 1 72 ⟨0, 0, 0⟩, .thread, .thread, .command .percentage 20, .thread, .runner, .thread, .thread,
      .thread, .thread, .callback 1 60 ⟨0, 0, 0⟩] ++ List.replicate 6 OverrideAction.thread
    Overridden (Machine.events overrideStep (.initial mildSensors) as)
      (Machine.run overrideStep (.initial mildSensors) as).2 :=
  fan_overridden (by decide) mildSensors (by decide) _ (by decide +kernel)

/-- A command passes its test, a sensor goes into over-temperature, and then the command sets the fan. -/
theorem fan_not_overridden :
    let as : List (OverrideAction (Fin 2)) :=
      [OverrideAction.command .value 30000, .runner, .callback 1 72 ⟨0, 0, 0⟩] ++ List.replicate 7 OverrideAction.thread ++ List.replicate 4 OverrideAction.runner
    ¬ Overridden (Machine.events overrideStep (.initial mildSensors) as)
      (Machine.run overrideStep (.initial mildSensors) as).2 := by
  intro as h
  have hruns := h.maximum (by decide +kernel) (by decide +kernel) ⟨1, by decide +kernel⟩
  exact absurd hruns (by decide +kernel)

end OrbFirmware.Temperature

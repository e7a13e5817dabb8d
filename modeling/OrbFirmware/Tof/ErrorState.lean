import OrbFirmware.Flash
import OrbFirmware.Machine

/-! `tof_1d_thread`: what the rounds of the 1D-ToF sensor make of its state. -/
namespace OrbFirmware.Tof
open Machine

/-- `ORB_STATE_1D_TOF_THRESHOLD_ERROR_COUNT`. -/
def thresholdErrorCount : UInt32 := 3

/-- The calls of the sensor in a round: the check of the communication, the fetch, and the distance and proximity
channels, each of which is only made if those before it return 0. -/
structure Round where
  attrGet : Int
  sampleFetchChan : Int
  channelGetDistance : Int
  channelGetProx : Int
  deriving DecidableEq

/-- `err_count` and the state `tof_1d`. -/
structure TofThread where
  errCount : UInt32
  state : RetCode
  deriving DecidableEq

/-- `set_states`. -/
def setStates (tof1dIsError : Bool) (state : RetCode) : RetCode :=
  if state = .success ∧ tof1dIsError = true then .internal
  else if state ≠ .success ∧ tof1dIsError = false then .success
  else state

/-- `tof_init_config` stops the sensor, sets its mode, and starts it again. -/
def tofInitConfig (stop mode frequency : Int) : RetCode :=
  if stop ≠ 0 then .internal
  else if mode ≠ 0 then .internal
  else if frequency ≠ 0 then .internal
  else .success

/-- The start of the thread, from whatever the state is before. -/
def tofStart (ret state : RetCode) : TofThread := ⟨0, setStates (ret ≠ .success) state⟩

/-- The start of a round: the state that it sets, and whether the sensor is reconfigured. -/
structure Started where
  state : RetCode
  reconfigured : Bool
  deriving DecidableEq

/-- A round of the loop. The recovery, if there is one, has ended with a successful `tof_init_config`; otherwise there
are no more rounds. -/
def tofRound (s : TofThread) (r : Round) : Started × TofThread :=
  let state := setStates (thresholdErrorCount ≤ s.errCount) s.state
  let reconfigured := thresholdErrorCount < s.errCount
  let errCount := if reconfigured then 0 else s.errCount
  (⟨state, reconfigured⟩,
    if r.attrGet ≠ 0 then ⟨errCount+1, state⟩
    else if r.sampleFetchChan ≠ 0 then ⟨errCount, state⟩
    else if r.channelGetDistance ≠ 0 then ⟨errCount, state⟩
    else if r.channelGetProx ≠ 0 then ⟨errCount, state⟩
    else ⟨0, setStates false state⟩)

/-! The rounds since the last one that succeeded or the last reconfiguration. -/

inductive Kind where
  | failed
  | broken
  | complete
  deriving DecidableEq

/-- The check fails; or it succeeds and a later call fails; or all succeed. -/
def Round.kind (r : Round) : Kind :=
  if r.attrGet ≠ 0 then .failed
  else if r.sampleFetchChan ≠ 0 ∨ r.channelGetDistance ≠ 0 ∨ r.channelGetProx ≠ 0 then .broken
  else .complete

/-- The thread, and the rounds since the last reconfiguration or complete round, or since its start, the last first. -/
structure Tracked where
  tof : TofThread
  since : List Kind

def trackedStep (s : Tracked) (r : Round) : Started × Tracked :=
  let (started, tof) := tofRound s.tof r
  let since := if started.reconfigured then [] else s.since
  (started, ⟨tof, if r.kind = .complete then [] else r.kind :: since⟩)

def trackedStart (ret state : RetCode) : Tracked := ⟨tofStart ret state, []⟩

/-- The check failed in each of the last three of these rounds. -/
def LastThreeFailed (since : List Kind) : Prop := since.take 3 = [.failed, .failed, .failed]

theorem tracked_tof (s : Tracked) (rounds : List Round) :
    (run trackedStep s rounds).2.tof = (run tofRound s.tof rounds).2 := by
  induction rounds generalizing s with
  | nil => rfl
  | cons r rounds ih => exact ih _

/-- The counter counts the failed checks. -/
structure Counts (s : Tracked) : Prop where
  count : s.tof.errCount.toNat = s.since.count .failed
  bound : s.since.count .failed ≤ 4
  incomplete : ∀ kind ∈ s.since, kind ≠ .complete

theorem setStates_success (tof1dIsError : Bool) (state : RetCode) :
    setStates tof1dIsError state = .success ↔ tof1dIsError = false := by
  cases tof1dIsError <;> by_cases hstate : state = .success <;> simp [setStates, hstate]

theorem Counts.start (ret state : RetCode) : Counts (trackedStart ret state) :=
  ⟨rfl, Nat.zero_le 4, List.forall_mem_nil _⟩

/-- What the checks of a round do to the count. -/
theorem tofRound_errCount (s : TofThread) (r : Round) :
    (tofRound s r).2.errCount =
      let errCount := if (tofRound s r).1.reconfigured then 0 else s.errCount
      match r.kind with
      | .failed => errCount+1
      | .broken => errCount
      | .complete => 0 := by
  simp only [tofRound, Round.kind]
  by_cases hcheck : r.attrGet = 0
  · by_cases hfetch : r.sampleFetchChan = 0
    · by_cases hdistance : r.channelGetDistance = 0
      · by_cases hprox : r.channelGetProx = 0
        · simp [hcheck, hfetch, hdistance, hprox]
        · simp [hcheck, hfetch, hdistance, hprox]
      · simp [hcheck, hfetch, hdistance]
    · simp [hcheck, hfetch]
  · simp [hcheck]

theorem reconfigured_iff (s : TofThread) (r : Round) :
    (tofRound s r).1.reconfigured = true ↔ 3 < s.errCount.toNat := by
  simp only [tofRound, decide_eq_true_eq]
  exact UInt32.lt_iff_toNat_lt

/-- What is left of the count and the rounds at the check of a round. -/
theorem Counts.recovered {s : Tracked} (h : Counts s) (r : Round) :
    let reconfigured := (tofRound s.tof r).1.reconfigured
    let since := if reconfigured then [] else s.since
    (if reconfigured then 0 else s.tof.errCount).toNat = since.count .failed ∧ since.count .failed ≤ 3 ∧
      ∀ kind ∈ since, kind ≠ .complete := by
  have hiff := reconfigured_iff s.tof r
  cases hreconfigured : (tofRound s.tof r).1.reconfigured with
  | true => exact ⟨rfl, Nat.zero_le 3, List.forall_mem_nil _⟩
  | false =>
    have hcount : ¬3 < s.tof.errCount.toNat := by simp [← hiff, hreconfigured]
    rw [h.count] at hcount
    exact ⟨h.count, by simpa using hcount, h.incomplete⟩

theorem Counts.step {s : Tracked} (h : Counts s) (r : Round) : Counts (trackedStep s r).2 := by
  obtain ⟨hcount, hbound, hincomplete⟩ := h.recovered r
  have herr := tofRound_errCount s.tof r
  cases hkind : r.kind with
  | complete =>
    rw [hkind] at herr
    simp only [trackedStep, hkind, if_true]
    exact ⟨congrArg UInt32.toNat herr, Nat.zero_le 4, List.forall_mem_nil _⟩
  | broken =>
    rw [hkind] at herr
    simp only [trackedStep, hkind, reduceCtorEq, if_false]
    have hsame (since : List Kind) : (Kind.broken :: since).count .failed = since.count .failed :=
      List.count_cons_of_ne (by decide)
    refine ⟨?_, ?_, List.forall_mem_cons.mpr ⟨nofun, hincomplete⟩⟩
    · dsimp only at herr ⊢
      rw [herr, hsame, hcount]
    · dsimp only
      rw [hsame]
      omega
  | failed =>
    rw [hkind] at herr
    simp only [trackedStep, hkind, reduceCtorEq, if_false]
    refine ⟨?_, ?_, List.forall_mem_cons.mpr ⟨nofun, hincomplete⟩⟩
    · dsimp only at herr ⊢
      rw [herr, List.count_cons_self, UInt32.toNat_add, hcount]
      exact Nat.mod_eq_of_lt (Nat.lt_of_le_of_lt (Nat.add_le_add_right hbound 1) (by decide))
    · dsimp only
      rw [List.count_cons_self]
      omega

theorem counts_run (ret state : RetCode) (rounds : List Round) :
    Counts (run trackedStep (trackedStart ret state) rounds).2 :=
  run_invariant (fun _ r h => h.step r) _ rounds (.start ret state)

/-- The state is an error at the start of a round, if and only if three checks have failed since it was last reset. -/
theorem Counts.error_iff {s : Tracked} (h : Counts s) (r : Round) :
    (tofRound s.tof r).1.state ≠ .success ↔ 3 ≤ s.since.count .failed := by
  have hthreshold : thresholdErrorCount ≤ s.tof.errCount ↔ 3 ≤ s.tof.errCount.toNat := UInt32.le_iff_toNat_le
  simp only [tofRound, ne_eq, setStates_success, decide_eq_false_iff_not, not_not, hthreshold, h.count]

theorem LastThreeFailed.le_count {since : List Kind} (h : LastThreeFailed since) : 3 ≤ since.count .failed := by
  have hsplit := List.take_append_drop 3 since
  rw [h] at hsplit
  rw [← hsplit, List.count_append]
  exact Nat.le_add_right 3 _

theorem lastThreeFailed_of_count {since : List Kind} (hcount : 3 ≤ since.count .failed)
    (hall : ∀ kind ∈ since, kind = .failed) : LastThreeFailed since := by
  have hreplicate := List.eq_replicate_of_mem hall
  have hlength := Nat.le_trans hcount List.count_le_length
  rw [LastThreeFailed, hreplicate, List.take_replicate, Nat.min_eq_left hlength]
  rfl

/-- At the start of each round of a run: three failed checks in a row since the last reconfiguration make it an error,
and nothing else does, unless a round that the check passed and that failed later lies among them. -/
theorem error_at_round_start (ret state : RetCode) (rounds : List Round) (r : Round) :
    let s := (run trackedStep (trackedStart ret state) rounds).2
    let started := (tofRound (run tofRound (tofStart ret state) rounds).2 r).1
    (LastThreeFailed s.since → started.state ≠ .success) ∧
      (started.state ≠ .success → .broken ∉ s.since → LastThreeFailed s.since) := by
  intro s started
  have hcounts : Counts s := counts_run ret state rounds
  have hiff : started.state ≠ .success ↔ 3 ≤ s.since.count .failed := by
    have htof : s.tof = (run tofRound (tofStart ret state) rounds).2 := tracked_tof _ rounds
    rw [← hcounts.error_iff r, htof]
  refine ⟨fun hfailed => hiff.mpr hfailed.le_count, fun herror hbroken => ?_⟩
  refine lastThreeFailed_of_count (hiff.mp herror) fun kind hmem => ?_
  cases kind with
  | failed => rfl
  | broken => exact absurd hmem hbroken
  | complete => exact absurd rfl (hcounts.incomplete _ hmem)

/-- The check fails in every round. After the reconfiguration at the start of the fifth, the sixth starts with success. -/
theorem reconfiguration_ends_error : ¬∀ (ret state : RetCode) (rounds : List Round) (r : Round),
    (tofRound (run tofRound (tofStart ret state) rounds).2 r).1.state ≠ .success ↔
      LastThreeFailed (rounds.reverse.map Round.kind) := by
  intro h
  have hlast := (h .success .success (List.replicate 5 ⟨-5, 0, 0, 0⟩) ⟨-5, 0, 0, 0⟩).mpr rfl
  exact hlast (by decide)

end OrbFirmware.Tof

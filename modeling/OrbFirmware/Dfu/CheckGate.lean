import Mathlib.Data.Fintype.Basic
import OrbFirmware.Dfu.Atomic

/-! When `dfu_secondary_check_async` starts a check. The state it tests says that the last block is being processed, not
that the flash has taken it, and a check that comes too early returns the 0 of its own `k_sem_take`. -/
namespace OrbFirmware.Dfu
variable {ι κ φ : Type*} {b : Build}

/-- Whether the last block of the current upload was written, and whether the flash failed at it. -/
structure UploadView where
  written : Bool
  failed : Bool
  deriving DecidableEq, Repr

def UploadView.none : UploadView := ⟨false, false⟩

def UploadView.note (v : UploadView) : Event ι κ φ → UploadView
  | .wrote _ _ true => { v with written := true }
  | .erased _ _ false | .wrote _ _ false => { v with failed := true }
  | _ => v

/-- A round that accesses the flash is one of blocks. -/
def ConsumerPc.inFlash : ConsumerPc φ → Bool
  | .erase _ | .write _ => true
  | _ => false

def ConsumerPc.beforeFlash : ConsumerPc φ → Bool
  | .openArea | .checkSize | .prepare => true
  | _ => false

def ConsumerPc.inBlocks : ConsumerPc φ → Bool
  | .openArea | .checkSize | .prepare | .erase _ | .write _ | .shift _ | .give .blocks _ => true
  | _ => false

def CallerPc.loading : CallerPc κ φ → Bool
  | .load _ pc => pc.holds
  | _ => false

/-- A block is being taken in, is queued or is in the hands of the processing thread. -/
def BlockInProgress (s : DfuSystem ι κ φ) : Prop :=
  (∃ i, (s.callers i).loading = true) ∨ s.shared.full = true ∧ s.shared.dfuState.state = .inProgress ∨
    s.consumer.inBlocks = true

instance [Fintype ι] (s : DfuSystem ι κ φ) : Decidable (BlockInProgress s) := inferInstanceAs (Decidable (_ ∨ _))

variable [DecidableEq ι]

/-- An upload starts where block 0 has the semaphore, and ends with its activation. -/
def uploadView (b : Build) (v : UploadView) (s : DfuSystem ι κ φ) : Action ι κ φ → UploadView
  | .run i =>
    match s.callers i with
    | .load call .reset => if call.blockNumber = 0 then .none else v
    | .activate .success => .none
    | _ => v
  | .consume outcome =>
    if s.consumer.inFlash && lastBlock s.shared.dfuState then
      (dfuStep b s (.consume outcome)).1.foldl UploadView.note v
    else v
  | .call _ _ | .timeout _ => v

/-- The system with these histories. -/
structure Watched (ι κ φ : Type*) where
  touched : ι → Prop
  view : UploadView
  system : DfuSystem ι κ φ

def Watched.start (m : Nor.Mem) : Watched ι κ φ := ⟨fun _ => False, .none, .start m⟩

def watchStep (b : Build) (w : Watched ι κ φ) (a : Action ι κ φ) : List (Event ι κ φ) × Watched ι κ φ :=
  ((dfuStep b w.system a).1,
    ⟨touch b w.touched w.system a, uploadView b w.view w.system a, (dfuStep b w.system a).2⟩)

/-- A check is started if and only if the last block is in flash and no block is in progress; otherwise
`RET_ERROR_INVALID_STATE` is returned, nothing is queued and the call has left `dfu_state` alone. -/
def CheckAnswers (b : Build) (w : Watched ι κ φ) (a : Action ι κ φ) : Prop :=
  ∀ i call ret, .returned i (.check call) ret ∈ (dfuStep b w.system a).1 →
    (ret = .einprogress ↔ w.view.written = true ∧ ¬BlockInProgress w.system) ∧
    (ret ≠ .einprogress → ret = .code .invalidState ∧
      (dfuStep b w.system a).2.shared.full = w.system.shared.full ∧ ¬touch b w.touched w.system a i)

/-- A check that gets the semaphore finds the upload finished, and the flash has not failed at its last block; one that
gives up does so while a block is in progress, or when the upload is not in flash. -/
def CheckFinds (w : Watched ι κ φ) : Action ι κ φ → Prop
  | .run i =>
    match w.system.callers i with
    | .check _ .state => w.system.shared.dfuState.state = .finishedVerify
    | .check _ .crc => w.system.shared.dfuState.state = .finishedVerify ∧ w.view.failed = false
    | _ => True
  | .timeout i =>
    match w.system.callers i with
    | .check _ .take =>
      w.system.shared.freeSpace = true ∨ BlockInProgress w.system ∨
        w.system.shared.dfuState.state = .inProgress ∨ w.view.failed = true
    | _ => True
  | .call _ _ | .consume _ => True

instance [Fintype ι] (w : Watched ι κ φ) (a : Action ι κ φ) : Decidable (CheckFinds w a) := by
  delta CheckFinds
  rcases a with _ | i | i | _ <;> dsimp only
  · infer_instance
  · generalize w.system.callers i = pc
    rcases pc with _ | _ | ⟨_, at'⟩ | _
    · exact isTrue trivial
    · exact isTrue trivial
    · rcases at' <;> dsimp only <;> infer_instance
    · exact isTrue trivial
  · generalize w.system.callers i = pc
    rcases pc with _ | _ | ⟨_, at'⟩ | _
    · exact isTrue trivial
    · exact isTrue trivial
    · rcases at' <;> dsimp only <;> infer_instance
    · exact isTrue trivial
  · infer_instance

/-- The histories beside `dfu_state` and the place of the processing thread. -/
structure Stands (v : UploadView) (st : DfuState κ φ) (consumer : ConsumerPc φ) : Prop where
  ends : v.written = true ∨ v.failed = true → st.state = .finishedVerify
  once : v.written = true → v.failed = false
  finished : st.state = .finishedVerify → v.written = true ∨ v.failed = true ∨ consumer.inFlash = true
  before : consumer.beforeFlash = true → st.state = .inProgress
  flash : consumer.inFlash = true → v = .none ∧ (lastBlock st = true ↔ st.state = .finishedVerify)

variable {v : UploadView} {st st' : DfuState κ φ} {consumer consumer' : ConsumerPc φ}

/-- The upload and its state stay. -/
theorem Stands.same (h : Stands v st consumer) (hstate : st'.state = st.state) (hlast : lastBlock st' = lastBlock st) :
    Stands v st' consumer := by
  obtain ⟨hends, honce, hfinished, hbefore, hflash⟩ := h
  rw [← hstate] at hends hfinished hbefore hflash
  rw [← hlast] at hflash
  exact ⟨hends, honce, hfinished, hbefore, hflash⟩

theorem inFlash_of_not_holds (h : consumer.holds = false) : consumer.inFlash = false := by
  cases consumer with
  | erase | write => simp [ConsumerPc.holds] at h
  | _ => rfl

theorem inFlash_of_not_inBlocks (h : consumer.inBlocks = false) : consumer.inFlash = false := by
  cases consumer with
  | erase | write => simp [ConsumerPc.inBlocks] at h
  | _ => rfl

theorem inBlocks_of_not_holds (h : consumer.holds = false) : consumer.inBlocks = false := by
  cases consumer with
  | waiting | testCb | callCb => rfl
  | _ => simp [ConsumerPc.holds] at h

/-- Outside of a round the number may change. -/
theorem Stands.outside (h : Stands v st consumer) (hout : consumer.holds = false) (hstate : st'.state = st.state) :
    Stands v st' consumer := by
  obtain ⟨hends, honce, hfinished, hbefore, -⟩ := h
  rw [← hstate] at hends hfinished hbefore
  exact ⟨hends, honce, hfinished, hbefore, fun hf => absurd hf (by simp [inFlash_of_not_holds hout])⟩

/-- A new upload, or none. -/
theorem Stands.new (hstate : st.state = .inProgress) (hlast : consumer.inFlash = true → lastBlock st = false) :
    Stands .none st consumer := by
  refine ⟨by simp [UploadView.none], by simp [UploadView.none], by simp [hstate], fun _ => hstate,
    fun hf => ⟨rfl, ?_⟩⟩
  simp [hlast hf, hstate]

theorem Stands.none_of_inProgress (h : Stands v st consumer) (hs : st.state = .inProgress) : v = .none := by
  have hends := h.ends
  simp only [hs, reduceCtorEq, imp_false, not_or, Bool.not_eq_true] at hends
  obtain ⟨written, failed⟩ := v
  obtain ⟨rfl, rfl⟩ := hends
  rfl

/-- The processing thread goes on outside of its accesses to the flash. -/
theorem Stands.moves (h : Stands v st consumer) (hflash : consumer.inFlash = false)
    (hflash' : consumer'.inFlash = false) (hbefore : consumer'.beforeFlash = true → st.state = .inProgress) :
    Stands v st consumer' := by
  refine ⟨h.ends, h.once, fun hs => ?_, hbefore, fun hf => absurd hf (by simp [hflash'])⟩
  simpa [hflash, hflash'] using h.finished hs

/-- The accesses to the flash end, for a last block with what they came to. -/
theorem Stands.leavesFlash (h : Stands v st consumer) (hflash : consumer.inFlash = true)
    (hflash' : consumer'.inFlash = false) (hbefore' : consumer'.beforeFlash = false) {v' : UploadView}
    (hlast : lastBlock st = true → v' = ⟨true, false⟩ ∨ v' = ⟨false, true⟩)
    (hother : lastBlock st = false → v' = v) : Stands v' st consumer' := by
  obtain ⟨rfl, hiff⟩ := h.flash hflash
  cases hl : lastBlock st with
  | true =>
    have hs := hiff.mp hl
    refine ⟨fun _ => hs, ?_, fun _ => ?_, fun hb => absurd hb (by simp [hbefore']),
      fun hf => absurd hf (by simp [hflash'])⟩
    · rcases hlast hl with rfl | rfl <;> simp
    · rcases hlast hl with rfl | rfl <;> simp
  | false =>
    rw [hother hl]
    have hs : st.state ≠ .finishedVerify := fun hs => by simp [hiff.mpr hs] at hl
    exact ⟨by simp [UploadView.none], by simp [UploadView.none], fun h => absurd h hs,
      fun hb => absurd hb (by simp [hbefore']), fun hf => absurd hf (by simp [hflash'])⟩

/-- Where no round accesses the flash, the upload is in flash exactly if it is finished without a failure. -/
theorem Stands.written_iff (h : Stands v st consumer) (hflash : consumer.inFlash = false) :
    v.written = true ↔ st.state = .finishedVerify ∧ v.failed = false := by
  constructor
  · exact fun hw => ⟨h.ends (.inl hw), h.once hw⟩
  · rintro ⟨hs, hf⟩
    simpa [hf, hflash] using h.finished hs

/-- A step of the processing thread. -/
theorem Stands.consume {s : DfuSystem ι κ φ} (h : Stands v s.shared.dfuState s.consumer) (outcome : RetCode) :
    Stands (uploadView b v s (.consume outcome)) (dfuStep b s (.consume outcome)).2.shared.dfuState
      (dfuStep b s (.consume outcome)).2.consumer := by
  simp only [uploadView]
  cases hc : s.consumer with
  | waiting =>
    rw [hc] at h
    simp only [dfuStep, hc, consumerStep, ConsumerPc.inFlash, Bool.false_and, Bool.false_eq_true, if_false]
    split_ifs
    · cases hs : s.shared.dfuState.state with
      | inProgress => exact h.moves rfl rfl fun _ => hs
      | finishedVerify => exact h.moves rfl rfl fun hb => absurd hb (by simp [ConsumerPc.beforeFlash])
    · exact h
  | openArea =>
    rw [hc] at h
    simp only [dfuStep, hc, consumerStep, ConsumerPc.inFlash, Bool.false_and, Bool.false_eq_true, if_false]
    split_ifs
    · exact h.moves rfl rfl fun _ => h.before rfl
    · exact h.moves rfl rfl fun hb => absurd hb (by simp [ConsumerPc.beforeFlash])
  | checkSize =>
    rw [hc] at h
    have hs := h.before rfl
    simp only [dfuStep, hc, consumerStep, ConsumerPc.inFlash, Bool.false_and, Bool.false_eq_true, if_false]
    split_ifs
    · rw [h.none_of_inProgress hs]
      exact Stands.new rfl fun hf => absurd hf (by simp [ConsumerPc.inFlash])
    · exact h.moves rfl rfl fun _ => hs
  | prepare =>
    rw [hc] at h
    have hs := h.before rfl
    have hnone := h.none_of_inProgress hs
    simp only [dfuStep, hc, consumerStep, ConsumerPc.inFlash, Bool.false_and, Bool.false_eq_true, if_false]
    split_ifs with hlast
    · exact ⟨fun _ => rfl, by simp [hnone, UploadView.none], fun _ => .inr (.inr rfl),
        fun hb => absurd hb (by simp [ConsumerPc.beforeFlash]), fun _ => ⟨hnone, fun _ => rfl, fun _ => hlast⟩⟩
    · exact ⟨by simp [hnone, UploadView.none], by simp [hnone, UploadView.none], by simp [hs],
        fun hb => absurd hb (by simp [ConsumerPc.beforeFlash]), fun _ => ⟨hnone, by simp [hlast, hs]⟩⟩
  | erase len =>
    rw [hc] at h
    obtain ⟨hnone, hlast⟩ := h.flash rfl
    have hnext : Stands v s.shared.dfuState (.write len : ConsumerPc φ) :=
      ⟨h.ends, h.once, fun _ => .inr (.inr rfl), fun hb => absurd hb (by simp [ConsumerPc.beforeFlash]),
        fun _ => ⟨hnone, hlast⟩⟩
    cases hsec : sectorToErase b s.shared.dfuState.flashOffset len with
    | none =>
      simp only [dfuStep, hc, consumerStep, hsec, List.foldl_nil, ite_self]
      exact hnext
    | some off =>
      simp only [dfuStep, hc, consumerStep, hsec, ConsumerPc.inFlash, Bool.true_and]
      split_ifs with hl hok hok
      · simpa [hok, UploadView.note] using hnext
      · rw [Bool.not_eq_true] at hok
        exact h.leavesFlash rfl rfl rfl (fun _ => .inr (by simp [hok, hnone, UploadView.note, UploadView.none]))
          fun hl' => by simp [hl] at hl'
      · exact hnext
      · exact h.leavesFlash rfl rfl rfl (fun hl' => absurd hl' hl) fun _ => rfl
  | write len =>
    rw [hc] at h
    obtain ⟨hnone, hlast⟩ := h.flash rfl
    simp only [dfuStep, hc, consumerStep, ConsumerPc.inFlash, Bool.true_and]
    split_ifs with hl hok hok
    · exact h.leavesFlash rfl rfl rfl (fun _ => .inl (by simp [hok, hnone, UploadView.note, UploadView.none]))
        fun hl' => by simp [hl] at hl'
    · rw [Bool.not_eq_true] at hok
      exact h.leavesFlash rfl rfl rfl (fun _ => .inr (by simp [hok, hnone, UploadView.note, UploadView.none]))
        fun hl' => by simp [hl] at hl'
    · exact h.leavesFlash rfl rfl rfl (fun hl' => absurd hl' hl) fun _ => rfl
    · exact h.leavesFlash rfl rfl rfl (fun hl' => absurd hl' hl) fun _ => rfl
  | shift len =>
    rw [hc] at h
    simp only [dfuStep, hc, consumerStep, ConsumerPc.inFlash, Bool.false_and, Bool.false_eq_true, if_false]
    have hmoved : Stands v s.shared.dfuState (.give .blocks .success : ConsumerPc φ) :=
      h.moves rfl rfl fun hb => absurd hb (by simp [ConsumerPc.beforeFlash])
    split <;> exact hmoved.same rfl rfl
  | verify | give | callCb =>
    rw [hc] at h
    simp only [dfuStep, hc, consumerStep, ConsumerPc.inFlash, Bool.false_and, Bool.false_eq_true, if_false]
    exact h.moves rfl rfl fun hb => absurd hb (by simp [ConsumerPc.beforeFlash])
  | testCb err =>
    rw [hc] at h
    simp only [dfuStep, hc, consumerStep, ConsumerPc.inFlash, Bool.false_and, Bool.false_eq_true, if_false]
    split <;> exact h.moves rfl rfl fun hb => absurd hb (by simp [ConsumerPc.beforeFlash])

structure CheckInv (w : Watched ι κ φ) : Prop where
  owned : ∃ o, Owned w.system o
  touch : TouchInv (w.touched, w.system)
  stands : Stands w.view w.system.shared.dfuState w.system.consumer

variable {s : DfuSystem ι κ φ} {i : ι}

/-- A step of a `dfu_load`. -/
theorem Stands.load_step (h : Stands v s.shared.dfuState s.consumer) (howned : ∃ o, Owned s o) {call : LoadCall κ φ}
    {pc : LoadPc} (hi : s.callers i = .load call pc) :
    Stands (uploadView b v s (.run i)) (dfuStep b s (.run i)).2.shared.dfuState s.consumer := by
  have hout (hpc : pc.holds = true) : s.consumer.holds = false := by
    obtain ⟨o, ho⟩ := howned
    exact (consumer_outside ho (i := i) (by rw [hi]; exact hpc)).1
  simp only [uploadView, dfuStep, hi]
  cases pc with
  | number | count | take =>
    simp only [loadStep]
    split_ifs <;> exact h
  | reset =>
    simp only [loadStep]
    split_ifs
    · refine Stands.new rfl fun hf => ?_
      exact absurd hf (by simp [inFlash_of_not_holds (hout rfl)])
    · exact h
  | blockNumber => exact h.outside (hout rfl) rfl
  | copy =>
    simp only [loadStep]
    split_ifs
    · exact h
    · exact h.same rfl rfl
  | ctx | cb => exact h.same rfl rfl
  | queue =>
    simp only [loadStep]
    split_ifs <;> exact h

theorem CheckInv.step {w : Watched ι κ φ} (h : CheckInv w) (a : Action ι κ φ) : CheckInv (watchStep b w a).2 := by
  refine ⟨owned_step b w.system a h.owned, h.touch.step a, ?_⟩
  have hs := h.stands
  simp only [watchStep]
  cases a with
  | call i call =>
    simp only [uploadView, dfuStep]
    split <;> exact hs
  | run i =>
    cases hi : w.system.callers i with
    | idle =>
      simp only [uploadView, dfuStep, hi]
      exact hs
    | load call pc =>
      have hload := hs.load_step (b := b) h.owned hi
      simpa only [dfuStep, hi, DfuSystem.advance_consumer] using hload
    | check call pc =>
      simp only [uploadView, dfuStep, hi]
      cases pc with
      | take | state =>
        simp only [checkStep]
        split <;> exact hs
      | ctx | cb | crc => exact hs.same rfl rfl
    | activate pending =>
      simp only [uploadView, dfuStep, hi, activateStep]
      split_ifs with hok
      · subst hok
        exact Stands.new rfl fun _ => rfl
      · cases pending with
        | success => exact absurd rfl hok
        | _ => exact hs
  | timeout i =>
    obtain ⟨hshared, hconsumer, -⟩ := timeout_same b w.system i i
    simp only [uploadView, hshared, hconsumer]
    exact hs
  | consume outcome => exact hs.consume outcome

omit [DecidableEq ι] in
/-- With the token at a check, no block is in progress. -/
theorem no_block_in_progress {o : Owner ι} (ho : Owned s o) {call : CheckCall κ φ} {pc : CheckPc}
    (hi : s.callers i = .check call pc) (hpc : pc.holds = true) : ¬BlockInProgress s := by
  have hholds : (s.callers i).holds = true := by
    rw [hi]
    exact hpc
  obtain ⟨hout, hfull⟩ := consumer_outside ho hholds
  rintro (⟨j, hj⟩ | ⟨hf, -⟩ | hin)
  · have hjholds : (s.callers j).holds = true := by
      cases hc : s.callers j <;> simp [hc, CallerPc.loading] at hj
      exact hj
    have he := ((ho.caller j).mp hjholds).symm.trans ((ho.caller i).mp hholds)
    rw [Owner.caller.inj he, hi] at hj
    simp [CallerPc.loading] at hj
  · simp [hfull] at hf
  · simp [inBlocks_of_not_holds hout] at hin

theorem checkAnswers_of_quiet {w : Watched ι κ φ} {a : Action ι κ φ}
    (h : ∀ i call ret, .returned i (.check call) ret ∉ (dfuStep b w.system a).1) : CheckAnswers b w a :=
  fun i call ret hret => absurd hret (h i call ret)

theorem checkAnswers_returned {w : Watched ι κ φ} {a : Action ι κ φ} {call : CheckCall κ φ} {ret : DfuRet}
    (h : (dfuStep b w.system a).1 = [.returned i (.check call) ret]) :
    CheckAnswers b w a ↔ (ret = .einprogress ↔ w.view.written = true ∧ ¬BlockInProgress w.system) ∧
      (ret ≠ .einprogress → ret = .code .invalidState ∧
        (dfuStep b w.system a).2.shared.full = w.system.shared.full ∧ ¬touch b w.touched w.system a i) := by
  simp only [CheckAnswers, h, List.mem_singleton, Event.returned.injEq, DfuCall.check.injEq]
  constructor
  · exact fun hall => hall i call ret ⟨rfl, rfl, rfl⟩
  · rintro hone j call' ret' ⟨rfl, rfl, rfl⟩
    exact hone

/-- The end of a wait, in which the check has stored nothing. -/
theorem CheckInv.gives_up {w : Watched ι κ φ} (h : CheckInv w) {call : CheckCall κ φ}
    (hi : w.system.callers i = .check call .take) :
    CheckAnswers b w (.timeout i) ↔ CheckFinds w (.timeout i) := by
  simp only [CheckFinds, hi]
  cases hfree : w.system.shared.freeSpace with
  | true =>
    simp only [true_or, iff_true]
    exact checkAnswers_of_quiet (by simp [dfuStep, hi, hfree])
  | false =>
    have hevs : (dfuStep b w.system (.timeout i)).1 = [.returned i (.check call) (.code .invalidState)] := by
      simp [dfuStep, hi, hfree]
    have htouch : ¬Dfu.touch b w.touched w.system (.timeout i) i := h.touch i (by rw [hi]; rfl)
    rw [checkAnswers_returned hevs]
    simp only [reduceCtorEq, false_iff, not_and, not_not, ne_eq, not_false_eq_true, forall_const,
      (timeout_same b w.system i i).1, htouch, and_true, Bool.false_eq_true, false_or]
    by_cases hblock : BlockInProgress w.system
    · simp [hblock]
    · have hflash : w.system.consumer.inFlash = false := by
        refine inFlash_of_not_inBlocks (Bool.eq_false_iff.mpr fun hin => hblock (.inr (.inr hin)))
      simp only [hblock, false_or, h.stands.written_iff hflash]
      cases w.system.shared.dfuState.state <;> simp

theorem CheckInv.check_run {w : Watched ι κ φ} (h : CheckInv w) {call : CheckCall κ φ} {pc : CheckPc}
    (hi : w.system.callers i = .check call pc) : CheckAnswers b w (.run i) ↔ CheckFinds w (.run i) := by
  cases pc with
  | take =>
    simp only [CheckFinds, hi, iff_true]
    refine checkAnswers_of_quiet ?_
    simp only [dfuStep, hi, checkStep]
    split_ifs <;> simp [DfuSystem.advance]
  | state =>
    simp only [CheckFinds, hi]
    by_cases hs : w.system.shared.dfuState.state = .finishedVerify
    · simp only [hs, iff_true]
      exact checkAnswers_of_quiet (by simp [dfuStep, hi, checkStep, hs, DfuSystem.advance])
    · have hevs : (dfuStep b w.system (.run i)).1 = [.returned i (.check call) (.code .success)] := by
        simp [dfuStep, hi, checkStep, hs, DfuSystem.advance]
      rw [checkAnswers_returned hevs]
      simp [hs]
  | ctx | cb =>
    simp only [CheckFinds, hi, iff_true]
    exact checkAnswers_of_quiet (by simp [dfuStep, hi, checkStep, DfuSystem.advance])
  | crc =>
    obtain ⟨o, ho⟩ := h.owned
    have hholds : (w.system.callers i).holds = true := by
      rw [hi]
      rfl
    have hevs : (dfuStep b w.system (.run i)).1 = [.returned i (.check call) .einprogress] := by
      simp [dfuStep, hi, checkStep, DfuSystem.advance]
    have hflash := inFlash_of_not_holds (consumer_outside ho hholds).1
    rw [checkAnswers_returned hevs, h.stands.written_iff hflash]
    simp [CheckFinds, hi, no_block_in_progress ho hi rfl]

/-- A step answers as it should exactly if it meets the condition. -/
theorem CheckInv.answers_iff {w : Watched ι κ φ} (h : CheckInv w) (a : Action ι κ φ) :
    CheckAnswers b w a ↔ CheckFinds w a := by
  have hquiet (ha : ∀ i call, (a = .run i ∨ a = .timeout i) →
      (w.system.callers i).current ≠ some (.check call)) : CheckAnswers b w a := by
    refine checkAnswers_of_quiet fun i call ret hret => ?_
    obtain ⟨hown, hcurrent⟩ := returned_call hret
    exact ha i call hown hcurrent
  cases a with
  | call i call => exact ⟨fun _ => trivial, fun _ => hquiet (by simp)⟩
  | run i =>
    cases hi : w.system.callers i with
    | check call pc => exact h.check_run hi
    | idle | load | activate =>
      simp only [CheckFinds, hi, iff_true]
      refine hquiet fun j call hj => ?_
      obtain rfl : i = j := by simpa using hj
      simp [hi, CallerPc.current]
  | timeout i =>
    cases hi : w.system.callers i with
    | check call pc =>
      cases pc with
      | take => exact h.gives_up hi
      | state | ctx | cb | crc =>
        simp only [CheckFinds, hi, iff_true]
        exact checkAnswers_of_quiet (by simp [dfuStep, hi])
    | idle | load | activate =>
      simp only [CheckFinds, hi, iff_true]
      exact checkAnswers_of_quiet (by simp [dfuStep, hi])
  | consume outcome => exact ⟨fun _ => trivial, fun _ => hquiet (by simp)⟩

omit [DecidableEq ι] in
theorem checkInv_start (m : Nor.Mem) : CheckInv (Watched.start m : Watched ι κ φ) :=
  ⟨⟨_, owned_start m⟩, touchInv_start m, Stands.new rfl fun _ => rfl⟩

theorem meets_checkFinds (b : Build) (m : Nor.Mem) (actions : List (Action ι κ φ))
    (h : Machine.Meets (watchStep b) (CheckAnswers b) (.start m) actions) :
    Machine.Meets (watchStep b) CheckFinds (.start m) actions :=
  Machine.meets_mono (I := CheckInv) (fun _ a hw _ => hw.step a) (fun _ a hw => (hw.answers_iff a).mp) _ actions
    (checkInv_start m) h

/-- From power-up, any threads calling and whichever flash access fails: every check is answered as it should exactly if
each check that gets the semaphore finds the upload finished and the flash has taken its last block, and each that
gives up does so while a block is in progress or the upload is not in flash. -/
theorem checks_answered_iff (b : Build) (m : Nor.Mem) (actions : List (Action ι κ φ)) :
    Machine.Meets (watchStep b) (CheckAnswers b) (.start m) actions ↔
      Machine.Meets (watchStep b) CheckFinds (.start m) actions := by
  refine ⟨meets_checkFinds b m actions, fun h => ?_⟩
  exact Machine.meets_mono (I := CheckInv) (fun _ a hw _ => hw.step a) (fun _ a hw => (hw.answers_iff a).mpr) _ actions
    (checkInv_start m) h

def checkCall : List (Action Unit Unit Unit) :=
  Action.call () (.check ⟨7, none, none⟩) :: List.replicate 5 (Action.run ())

/-- On Pearl, a check before any upload returns 0, one of an image whose only write failed is started, and one that finds
the semaphore with another check of a written image is refused. -/
theorem check_answers_wrongly :
    ¬ Machine.Meets (watchStep (.of .pearl)) (CheckAnswers (.of .pearl)) (.start fun _ => 0xff) checkCall ∧
    .returned () (.check ⟨7, none, none⟩) (.code .success) ∈
      Machine.events (dfuStep (.of .pearl)) (.start fun _ => 0xff) checkCall ∧
    ¬ Machine.Meets (watchStep (.of .pearl)) (CheckAnswers (.of .pearl)) (.start fun _ => 0xff)
      (wholeLoad ⟨0, 1, [1, 2, 3], none, none⟩ ++ List.replicate 5 (Action.consume .success) ++
        [Action.consume .internal, .consume .success, .consume .success] ++ checkCall) ∧
    ¬ Machine.Meets (watchStep (.of .pearl)) (CheckAnswers (.of .pearl)) (.start fun _ => 0xff)
      (wholeLoad ⟨0, 1, [1, 2, 3], none, none⟩ ++ List.replicate 9 (Action.consume .success) ++ checkCall ++
        [Action.call () (.check ⟨8, none, none⟩), .timeout ()]) := by
  refine ⟨fun h => ?_, by decide +kernel, fun h => ?_, fun h => ?_⟩
  · have hfinds := meets_checkFinds (.of .pearl) _ _ h
    revert hfinds
    decide +kernel
  · have hfinds := meets_checkFinds (.of .pearl) _ _ h
    revert hfinds
    decide +kernel
  · have hfinds := meets_checkFinds (.of .pearl) _ _ h
    revert hfinds
    decide +kernel

end OrbFirmware.Dfu

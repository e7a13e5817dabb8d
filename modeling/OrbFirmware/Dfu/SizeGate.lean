import OrbFirmware.Dfu.Sequencing

/-! An upload that is larger than the slot. The processing thread refuses it before the first erase, where the product
of 32 bits shows the size, and clears `dfu_state`, so that its later blocks have no block count. -/
namespace OrbFirmware.Dfu
variable {ι κ φ : Type*} {b : Build}

/-- The count announced with the block 0 that was taken last, and whether its upload was refused since. -/
structure SizeView where
  blockCount : UInt32
  refused : Bool
  deriving DecidableEq, Repr

/-- An upload starts where block 0 has the semaphore; a refusal is known where the thread gives it back. -/
def sizeView (v : SizeView) (s : DfuSystem ι κ φ) : Action ι κ φ → SizeView
  | .run i =>
    match s.callers i with
    | .load call .reset => if call.blockNumber = 0 then ⟨call.blockCount, false⟩ else v
    | _ => v
  | .consume _ =>
    match s.consumer with
    | .give .blocks .invalidParam => { v with refused := true }
    | _ => v
  | .call _ _ | .timeout _ => v

/-- The bytes announced, over the integers, exceed the slot. -/
def Oversized (b : Build) (blockCount : UInt32) : Prop :=
  b.secondarySlot.faSize < blockCount.toNat*b.dfuBlockSizeMax

instance (blockCount : UInt32) : Decidable (Oversized b blockCount) := inferInstanceAs (Decidable (_ < _))

/-- Of an oversized upload nothing is erased or written, no round ends well, and once it is refused none of its blocks
is accepted. -/
def Gated (b : Build) (v : SizeView) : Event ι κ φ → Prop
  | .erased _ _ _ | .wrote _ _ _ => ¬Oversized b v.blockCount
  | .processed .blocks err => Oversized b v.blockCount → err = .invalidParam ∨ err = .invalidState
  | .returned _ (.load call) ret =>
    Oversized b v.blockCount → v.refused = true → call.blockNumber ≠ 0 → ret.accepted = false
  | _ => True

instance (v : SizeView) (e : Event ι κ φ) : Decidable (Gated b v e) :=
  match e with
  | .erased _ _ _ | .wrote _ _ _ => inferInstanceAs (Decidable (¬_))
  | .processed .blocks _ => inferInstanceAs (Decidable (_ → _ ∨ _))
  | .returned _ (.load _) _ => inferInstanceAs (Decidable (_ → _ → _ → _))
  | .returned _ (.check _) _ | .returned _ (.activate _) _ | .called _ _ | .stored _ _ | .moved _ _ | .divided _
  | .processed .verify _ | .callback _ _ _ => isTrue trivial

/-! What holds while the upload of `v` is oversized. -/

/-- A block that has the semaphore is one of the upload, and no check has gone past the test of the state. -/
def CallerGate (v : SizeView) (count : UInt32) : CallerPc κ φ → Prop
  | .load _ .blockNumber | .load _ .copy | .load _ .ctx | .load _ .cb | .load _ .queue => count = v.blockCount
  | .check _ .ctx | .check _ .cb | .check _ .crc => False
  | _ => True

def ConsumerGate (v : SizeView) (count : UInt32) : ConsumerPc φ → Prop
  | .waiting | .testCb _ | .callCb _ _ => True
  | .openArea | .checkSize => count = v.blockCount
  | .give .blocks err => err = .invalidState ∨ err = .invalidParam ∧ count = 0
  | _ => False

structure Gate (b : Build) (v : SizeView) (s : DfuSystem ι κ φ) : Prop where
  caught : b.secondarySlot.faSize < v.blockCount.toNat*b.dfuBlockSizeMax % 2^32
  state : s.shared.dfuState.state = .inProgress
  offset : s.shared.dfuState.flashOffset = 0
  count : s.shared.dfuState.blockCount = v.blockCount ∨ s.shared.dfuState.blockCount = 0
  refused : v.refused = true → s.shared.dfuState.blockCount = 0
  full : s.shared.full = true → s.shared.dfuState.blockCount = v.blockCount
  caller : ∀ i, CallerGate v s.shared.dfuState.blockCount (s.callers i)
  consumer : ConsumerGate v s.shared.dfuState.blockCount s.consumer

variable {v : SizeView} {s : DfuSystem ι κ φ} {shared : Shared κ φ} {pc : CallerPc κ φ} {i : ι}

theorem Oversized.ne_zero {count : UInt32} (h : Oversized b count) : count ≠ 0 := by
  rintro rfl
  simp [Oversized] at h

theorem callerGate_of_not_holds {count : UInt32} (h : pc.holds = false) : CallerGate v count pc := by
  cases pc with
  | idle | activate => trivial
  | load call pc =>
    cases pc with
    | number | count | take => trivial
    | _ => simp [CallerPc.holds, LoadPc.holds] at h
  | check call pc =>
    cases pc with
    | take => trivial
    | _ => simp [CallerPc.holds, CheckPc.holds] at h

theorem consumerGate_of_not_holds {count : UInt32} {consumer : ConsumerPc φ} (h : consumer.holds = false) :
    ConsumerGate v count consumer := by
  cases consumer with
  | waiting | testCb | callCb => trivial
  | _ => simp [ConsumerPc.holds] at h

/-- The processing thread goes on. -/
theorem Gate.consumes {consumer : ConsumerPc φ} (h : Gate b v s)
    (hcount : shared.dfuState.blockCount = s.shared.dfuState.blockCount)
    (hoffset : shared.dfuState.flashOffset = s.shared.dfuState.flashOffset)
    (hstate : shared.dfuState.state = s.shared.dfuState.state) (hfull : shared.full = true → s.shared.full = true)
    (hconsumer : ConsumerGate v s.shared.dfuState.blockCount consumer) : Gate b v { s with shared, consumer } := by
  refine ⟨h.caught, hstate.trans h.state, hoffset.trans h.offset, ?_, ?_, ?_, ?_, ?_⟩ <;> simp only [hcount]
  · exact h.count
  · exact h.refused
  · exact fun hf => h.full (hfull hf)
  · exact h.caller
  · exact hconsumer

/-- The refusal. -/
theorem Gate.refuses {o : Owner ι} (h : Gate b v s) (ho : Owned s o) (hin : s.consumer.holds = true) :
    Gate b v { s with shared := { s.shared with dfuState := .zero }, consumer := .give .blocks .invalidParam } := by
  refine ⟨h.caught, rfl, rfl, .inr rfl, fun _ => rfl, fun hf => ?_, fun j => ?_, .inr ⟨rfl, rfl⟩⟩
  · have hf : s.shared.full = true := hf
    exact absurd (ho.full.mp hf) (by rw [ho.consumer.mp hin]; simp)
  · exact callerGate_of_not_holds (caller_outside ho hin j).1

theorem sizeView_consume (v : SizeView) (s : DfuSystem ι κ φ) (outcome : RetCode) :
    (sizeView v s (.consume outcome)).blockCount = v.blockCount := by
  simp only [sizeView]
  split <;> rfl

/-- The end of a round. -/
theorem Gate.gives (h : Gate b v s) {round : Round} {err : RetCode} (hc : s.consumer = .give round err)
    (outcome : RetCode) : Gated b v (.processed round err : Event ι κ φ) ∧
      Gate b (sizeView v s (.consume outcome))
        { s with shared := { s.shared with freeSpace := true }, consumer := .testCb err } := by
  have hgives := h.consumer
  rw [hc] at hgives
  cases round with
  | verify => exact hgives.elim
  | blocks =>
    have hmoved : Gate b v { s with shared := { s.shared with freeSpace := true }, consumer := .testCb err } :=
      h.consumes rfl rfl rfl id trivial
    rcases hgives with rfl | ⟨rfl, hzero⟩
    · refine ⟨fun _ => .inr rfl, ?_⟩
      simpa only [sizeView, hc] using hmoved
    · refine ⟨fun _ => .inl rfl, ?_⟩
      simp only [sizeView, hc]
      exact ⟨hmoved.caught, hmoved.state, hmoved.offset, hmoved.count, fun _ => hzero, hmoved.full, hmoved.caller,
        hmoved.consumer⟩

theorem gated_of_fits (h : ¬Oversized b v.blockCount) (e : Event ι κ φ) : Gated b v e := by
  cases e with
  | erased | wrote => exact h
  | returned i call ret =>
    cases call with
    | load => exact fun hv => (h hv).elim
    | check | activate => trivial
  | processed round err =>
    cases round with
    | blocks => exact fun hv => (h hv).elim
    | verify => trivial
  | called | stored | moved | divided | callback => trivial

variable [DecidableEq ι]

def sizeStep (b : Build) (vs : SizeView × DfuSystem ι κ φ) (a : Action ι κ φ) :
    List (Event ι κ φ) × SizeView × DfuSystem ι κ φ :=
  ((dfuStep b vs.2 a).1, sizeView vs.1 vs.2 a, (dfuStep b vs.2 a).2)

def SizeGate (b : Build) (vs : SizeView × DfuSystem ι κ φ) (a : Action ι κ φ) : Prop :=
  ∀ e ∈ (dfuStep b vs.2 a).1, Gated b vs.1 e

instance (vs : SizeView × DfuSystem ι κ φ) (a : Action ι κ φ) : Decidable (SizeGate b vs a) :=
  inferInstanceAs (Decidable (∀ e ∈ _, _))

/-- The size of an oversized upload shows in 32 bits; no further block of it takes the semaphore once `dfu_state` has no
block count; and while a thread has the semaphore, no activation clears it from `dfu_state`. -/
def GateAction (b : Build) (vs : SizeView × DfuSystem ι κ φ) : Action ι κ φ → Prop
  | .run i =>
    match vs.2.callers i with
    | .load call .reset =>
      if call.blockNumber = 0 then
        Oversized b call.blockCount → b.secondarySlot.faSize < call.blockCount.toNat*b.dfuBlockSizeMax % 2^32
      else Oversized b vs.1.blockCount → vs.2.shared.dfuState.blockCount ≠ 0
    | .activate .success => vs.2.shared.freeSpace = true ∨ ¬Oversized b vs.2.shared.dfuState.blockCount
    | _ => True
  | _ => True

instance (vs : SizeView × DfuSystem ι κ φ) (a : Action ι κ φ) : Decidable (GateAction b vs a) := by
  delta GateAction
  rcases a with _ | i | _ | _ <;> dsimp only
  · infer_instance
  · generalize vs.2.callers i = pc
    rcases pc with _ | ⟨_, at'⟩ | _ | ret
    · exact isTrue trivial
    · rcases at' <;> dsimp only <;> infer_instance
    · exact isTrue trivial
    · rcases ret <;> dsimp only <;> infer_instance
  · infer_instance
  · infer_instance

structure GateInv (b : Build) (vs : SizeView × DfuSystem ι κ φ) : Prop where
  owned : ∃ o, Owned vs.2 o
  gate : Oversized b vs.1.blockCount → Gate b vs.1 vs.2

/-- A thread goes on without a change to the upload. -/
theorem Gate.goes (h : Gate b v s) (hcount : shared.dfuState.blockCount = s.shared.dfuState.blockCount)
    (hoffset : shared.dfuState.flashOffset = s.shared.dfuState.flashOffset)
    (hstate : shared.dfuState.state = s.shared.dfuState.state)
    (hfull : shared.full = true → s.shared.dfuState.blockCount = v.blockCount)
    (hpc : CallerGate v s.shared.dfuState.blockCount pc) : Gate b v (s.goes i shared pc) := by
  refine ⟨h.caught, hstate.trans h.state, hoffset.trans h.offset, ?_, ?_, ?_, fun j => ?_, ?_⟩
  · rw [DfuSystem.goes_shared, hcount]
    exact h.count
  · rw [DfuSystem.goes_shared, hcount]
    exact h.refused
  · rw [DfuSystem.goes_shared, hcount]
    exact hfull
  · rw [DfuSystem.goes_shared, hcount]
    by_cases hj : j = i
    · subst hj
      rw [DfuSystem.goes_same]
      exact hpc
    · rw [DfuSystem.goes_other _ _ _ _ hj]
      exact h.caller j
  · rw [DfuSystem.goes_shared, hcount]
    exact h.consumer

/-- Nobody else is inside when the holder starts an upload. -/
theorem Gate.starts {o : Owner ι} (ho : Owned s o) (hi : (s.callers i).holds = true) {call : LoadCall κ φ}
    (hcaught : b.secondarySlot.faSize < call.blockCount.toNat*b.dfuBlockSizeMax % 2^32)
    (hcount : shared.dfuState.blockCount = call.blockCount) (hoffset : shared.dfuState.flashOffset = 0)
    (hstate : shared.dfuState.state = .inProgress) :
    Gate b ⟨call.blockCount, false⟩ (s.goes i shared (.load call .blockNumber)) := by
  obtain ⟨hout, -⟩ := consumer_outside ho hi
  refine ⟨hcaught, hstate, hoffset, .inl hcount, fun h => by simp at h, fun _ => hcount, fun j => ?_,
    consumerGate_of_not_holds hout⟩
  by_cases hj : j = i
  · subst hj
    rw [DfuSystem.goes_same]
    exact hcount
  · rw [DfuSystem.goes_other _ _ _ _ hj]
    refine callerGate_of_not_holds (Bool.eq_false_iff.mpr fun hother => ?_)
    have he := ((ho.caller j).mp hother).symm.trans ((ho.caller i).mp hi)
    exact hj (Owner.caller.inj he)

/-- What a step shows of the current upload, and what it keeps. -/
def KeepsGate (b : Build) (v : SizeView) (s : DfuSystem ι κ φ) (a : Action ι κ φ) : Prop :=
  SizeGate b (v, s) a ∧ GateInv b (sizeStep b (v, s) a).2

theorem GateInv.load_step (h : GateInv b (v, s)) {call : LoadCall κ φ} {pc : LoadPc} (hi : s.callers i = .load call pc)
    (ha : GateAction b (v, s) (.run i)) : KeepsGate b v s (.run i) := by
  have howned := owned_step b s (.run i) h.owned
  have hgate := h.gate
  simp only [GateAction, hi] at ha
  cases pc with
  | number | count | take =>
    refine ⟨?_, howned, fun hover => ?_⟩
    · simp only [SizeGate, dfuStep, hi, loadStep]
      split_ifs <;> simp [DfuSystem.advance, Gated, DfuRet.accepted]
    · have hv : Oversized b v.blockCount := by simpa only [sizeStep, sizeView, hi] using hover
      have hg := hgate hv
      simp only [sizeStep, sizeView, dfuStep, hi, loadStep]
      split_ifs <;> exact hg.goes rfl rfl rfl hg.full trivial
  | reset =>
    refine ⟨?_, howned, fun hover => ?_⟩
    · simp only [SizeGate, dfuStep, hi, loadStep]
      split_ifs <;> simp [DfuSystem.advance]
    · dsimp only at ha
      simp only [sizeStep, sizeView, dfuStep, hi, loadStep] at hover ⊢
      split_ifs at hover ha ⊢ with h0
      · obtain ⟨o, ho⟩ := h.owned
        exact Gate.starts ho (by rw [hi]; rfl) (ha hover) rfl rfl rfl
      · have hg := hgate hover
        exact hg.goes rfl rfl rfl hg.full (hg.count.resolve_right (ha hover))
  | blockNumber | ctx | cb =>
    refine ⟨?_, howned, fun hover => ?_⟩
    · simp [SizeGate, dfuStep, hi, loadStep, DfuSystem.advance]
    · have hv : Oversized b v.blockCount := by simpa only [sizeStep, sizeView, hi] using hover
      have hg := hgate hv
      have hcount := hg.caller i
      rw [hi] at hcount
      simp only [sizeStep, sizeView, dfuStep, hi, loadStep, DfuSystem.advance]
      exact hg.goes rfl rfl rfl hg.full hcount
  | copy =>
    refine ⟨?_, howned, fun hover => ?_⟩
    · simp only [SizeGate, dfuStep, hi, loadStep]
      split_ifs <;> simp [DfuSystem.advance, Gated, DfuRet.accepted]
    · have hv : Oversized b v.blockCount := by simpa only [sizeStep, sizeView, hi] using hover
      have hg := hgate hv
      have hcount := hg.caller i
      rw [hi] at hcount
      simp only [sizeStep, sizeView, dfuStep, hi, loadStep]
      split_ifs
      · exact hg.goes rfl rfl rfl hg.full trivial
      · exact hg.goes rfl rfl rfl hg.full hcount
  | queue =>
    have hcount (hv : Oversized b v.blockCount) : s.shared.dfuState.blockCount = v.blockCount := by
      have hcaller := (hgate hv).caller i
      rw [hi] at hcaller
      exact hcaller
    refine ⟨?_, howned, fun hover => ?_⟩
    · -- a refused upload has no count left
      have hnot (hv : Oversized b v.blockCount) (hr : v.refused = true) : False :=
        hv.ne_zero ((hcount hv).symm.trans ((hgate hv).refused hr))
      simp only [SizeGate, dfuStep, hi, loadStep]
      split_ifs <;> simp only [DfuSystem.advance, List.nil_append, List.mem_singleton, forall_eq, Gated] <;>
        exact fun hv hr => (hnot hv hr).elim
    · have hv : Oversized b v.blockCount := by simpa only [sizeStep, sizeView, hi] using hover
      have hg := hgate hv
      simp only [sizeStep, sizeView, dfuStep, hi, loadStep]
      split_ifs
      · exact hg.goes rfl rfl rfl (fun _ => hcount hv) trivial
      · exact hg.goes rfl rfl rfl hg.full trivial

theorem GateInv.check_step (h : GateInv b (v, s)) {call : CheckCall κ φ} {pc : CheckPc}
    (hi : s.callers i = .check call pc) : KeepsGate b v s (.run i) := by
  refine ⟨?_, owned_step b s (.run i) h.owned, fun hover => ?_⟩
  · simp only [SizeGate, dfuStep, hi]
    rcases hr : checkStep s.shared call pc with ⟨shared, pc' | ret⟩ <;> simp [DfuSystem.advance, Gated]
  · have hv : Oversized b v.blockCount := by simpa only [sizeStep, sizeView, hi] using hover
    have hg : Gate b v s := h.gate hv
    have hcaller := hg.caller i
    rw [hi] at hcaller
    simp only [sizeStep, sizeView, dfuStep, hi]
    cases pc with
    | take =>
      simp only [checkStep]
      split_ifs <;> exact hg.goes rfl rfl rfl hg.full trivial
    | state =>
      have hstate : s.shared.dfuState.state ≠ .finishedVerify := by simp [hg.state]
      simp only [checkStep, if_neg hstate]
      exact hg.goes rfl rfl rfl hg.full trivial
    | ctx | cb | crc => exact hcaller.elim

/-- A clearing, where no block of the upload is on its way. -/
theorem Gate.clears (h : Gate b v s) (hfull : s.shared.full = false)
    (hcaller : ∀ j, (s.callers j).holds = false) (hconsumer : s.consumer.holds = false) :
    Gate b v (s.goes i { s.shared with dfuState := .zero } .idle) := by
  refine ⟨h.caught, rfl, rfl, .inr rfl, fun _ => rfl, fun hf => ?_, fun j => ?_, consumerGate_of_not_holds hconsumer⟩
  · rw [DfuSystem.goes_shared, hfull] at hf
    contradiction
  · by_cases hj : j = i
    · subst hj
      rw [DfuSystem.goes_same]
      trivial
    · rw [DfuSystem.goes_other _ _ _ _ hj]
      exact callerGate_of_not_holds (hcaller j)

theorem GateInv.activate_step (h : GateInv b (v, s)) {pending : RetCode} (hi : s.callers i = .activate pending)
    (ha : GateAction b (v, s) (.run i)) : KeepsGate b v s (.run i) := by
  refine ⟨by simp [SizeGate, dfuStep, hi, Gated], owned_step b s (.run i) h.owned, fun hover => ?_⟩
  have hv : Oversized b v.blockCount := by simpa only [sizeStep, sizeView, hi] using hover
  have hg := h.gate hv
  simp only [GateAction, hi] at ha
  simp only [sizeStep, sizeView, dfuStep, hi, activateStep]
  split_ifs with hok
  · subst hok
    rcases ha with hfree | hfits
    · obtain ⟨o, ho⟩ := h.owned
      obtain rfl := ho.freeSpace.mp hfree
      have hfull := ho.full
      have hcaller := ho.caller
      have hconsumer := ho.consumer
      simp only [reduceCtorEq, iff_false, Bool.not_eq_true] at hfull hcaller hconsumer
      exact hg.clears hfull hcaller hconsumer
    · -- the count is 0 already
      have hzero : s.shared.dfuState.blockCount = 0 := by
        refine hg.count.resolve_left fun hc => hfits ?_
        rw [hc]
        exact hv
      exact hg.goes hzero.symm hg.offset.symm hg.state.symm hg.full trivial
  · exact hg.goes rfl rfl rfl hg.full trivial

theorem GateInv.consume_step (h : GateInv b (v, s)) (outcome : RetCode) : KeepsGate b v s (.consume outcome) := by
  have howned := owned_step b s (.consume outcome) h.owned
  by_cases hv : Oversized b v.blockCount
  swap
  · refine ⟨fun e _ => gated_of_fits hv e, howned, fun hover => (hv ?_).elim⟩
    rwa [sizeStep, sizeView_consume] at hover
  have hg : Gate b v s := h.gate hv
  have hpc := hg.consumer
  suffices hstep : SizeGate b (v, s) (.consume outcome) ∧
      Gate b (sizeView v s (.consume outcome)) (dfuStep b s (.consume outcome)).2 from
    ⟨hstep.1, howned, fun _ => hstep.2⟩
  simp only [SizeGate, dfuStep]
  cases hc : s.consumer with
  | waiting =>
    simp only [sizeView, hc, consumerStep]
    split_ifs with hf
    · refine ⟨by simp, hg.consumes rfl rfl rfl (by simp) ?_⟩
      rw [hg.state]
      exact hg.full hf
    · exact ⟨by simp, hg.consumes rfl rfl rfl id trivial⟩
  | openArea =>
    rw [hc] at hpc
    simp only [sizeView, hc, consumerStep]
    split_ifs
    · exact ⟨by simp, hg.consumes rfl rfl rfl id hpc⟩
    · exact ⟨by simp, hg.consumes rfl rfl rfl id (.inl rfl)⟩
  | checkSize =>
    rw [hc] at hpc
    have hcount : s.shared.dfuState.blockCount = v.blockCount := hpc
    have hbad : s.shared.dfuState.flashOffset = 0 ∧
        b.secondarySlot.faSize < s.shared.dfuState.blockCount.toNat*b.dfuBlockSizeMax % 2^32 := by
      rw [hcount]
      exact ⟨hg.offset, hg.caught⟩
    obtain ⟨o, ho⟩ := h.owned
    simp only [sizeView, hc, consumerStep, if_pos hbad]
    exact ⟨by simp, hg.refuses ho (by rw [hc]; rfl)⟩
  | prepare | erase | write | shift | verify =>
    rw [hc] at hpc
    exact hpc.elim
  | give round err =>
    simp only [consumerStep, List.mem_singleton, forall_eq]
    exact hg.gives hc outcome
  | testCb err =>
    simp only [sizeView, hc, consumerStep]
    split <;> exact ⟨by simp, hg.consumes rfl rfl rfl id trivial⟩
  | callCb cb err =>
    simp only [sizeView, hc, consumerStep]
    exact ⟨by simp [Gated], hg.consumes rfl rfl rfl id trivial⟩

theorem GateInv.step (h : GateInv b (v, s)) {a : Action ι κ φ} (ha : GateAction b (v, s) a) : KeepsGate b v s a := by
  cases a with
  | call i call =>
    refine ⟨?_, owned_step b s _ h.owned, fun hover => ?_⟩
    · simp only [SizeGate, dfuStep]
      split <;> simp [Gated]
    · have hg : Gate b v s := h.gate hover
      simp only [sizeStep, sizeView, dfuStep]
      split
      · refine hg.goes rfl rfl rfl hg.full ?_
        cases call <;> trivial
      · exact hg
  | run i =>
    cases hi : s.callers i with
    | idle =>
      refine ⟨by simp [SizeGate, dfuStep, hi], owned_step b s _ h.owned, fun hover => ?_⟩
      simp only [sizeStep, sizeView, dfuStep, hi] at hover ⊢
      exact h.gate hover
    | load call pc => exact h.load_step hi ha
    | check call pc => exact h.check_step hi
    | activate pending => exact h.activate_step hi ha
  | timeout i =>
    refine ⟨?_, owned_step b s _ h.owned, fun hover => ?_⟩
    · simp only [SizeGate, dfuStep]
      split
      · split_ifs <;> simp [Gated]
      · simp
    · have hg : Gate b v s := h.gate hover
      simp only [sizeStep, sizeView, dfuStep]
      split
      · split_ifs
        · exact hg
        · exact hg.goes rfl rfl rfl hg.full trivial
      · exact hg
  | consume outcome => exact h.consume_step outcome

/-- From power-up, any threads calling and whichever flash access fails: nothing of an oversized upload is erased or
written, and once it is refused no block of it is accepted until a new block 0, as long as the product of 32 bits shows
its size, no block takes the semaphore behind the clearing and no activation clears an oversized upload under way. -/
theorem oversized_upload_refused (b : Build) (m : Nor.Mem) (actions : List (Action ι κ φ))
    (h : Machine.Meets (sizeStep b) (GateAction b) (⟨0, false⟩, .start m) actions) :
    Machine.Meets (sizeStep b) (SizeGate b) (⟨0, false⟩, .start m) actions := by
  refine Machine.meets_mono (I := GateInv b) (fun vs a hvs ha => (hvs.step ha).2) (fun vs a hvs ha => (hvs.step ha).1) _
    actions ⟨⟨_, owned_start m⟩, fun hover => ?_⟩ h
  exact absurd rfl hover.ne_zero

def largeBlock (number blockCount : UInt32) : LoadCall Unit Unit :=
  ⟨number, blockCount, List.replicate 39 7, none, none⟩

/-- The count of the tests is refused. -/
theorem oversized_upload_refused_pearl :
    let actions : List (Action Unit Unit Unit) := wholeLoad (largeBlock 0 0xCAFEBABE) ++
      wholeLoad (largeBlock 1 0xCAFEBABE) ++ List.replicate 5 (Action.consume .success) ++
      wholeLoad (largeBlock 2 0xCAFEBABE)
    Machine.Meets (sizeStep (.of .pearl)) (SizeGate (.of .pearl)) (⟨0, false⟩, .start fun _ => 0xff) actions :=
  oversized_upload_refused (.of .pearl) (fun _ => 0xff) _ (by decide +kernel)

/-- On Pearl, 110127367 blocks of 39 bytes are 17 bytes in 32 bits: a sector is erased and written. And a third block
that passed its checks before the refusal is accepted behind it. -/
theorem oversized_upload_written :
    ¬ Machine.Meets (sizeStep (.of .pearl)) (SizeGate (.of .pearl)) (⟨0, false⟩, .start fun _ => 0xff)
      (wholeLoad (largeBlock 0 110127367) ++ wholeLoad (largeBlock 1 110127367) ++
        List.replicate 6 (Action.consume .success)) ∧
    ¬ Machine.Meets (sizeStep (.of .pearl)) (SizeGate (.of .pearl)) (⟨0, false⟩, .start fun _ => 0xff)
      (wholeLoad (largeBlock 0 0xCAFEBABE) ++ wholeLoad (largeBlock 1 0xCAFEBABE) ++
        Action.call () (.load (largeBlock 2 0xCAFEBABE)) :: .run () :: .run () ::
        List.replicate 4 (Action.consume .success) ++ List.replicate 7 (Action.run ())) := by
  decide +kernel

end OrbFirmware.Dfu

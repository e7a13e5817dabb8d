import OrbFirmware.Dfu.Exclusion

/-! Memory safety of the buffer and of the progress division, whatever one producer asks for and
whichever flash access fails. -/
namespace OrbFirmware.Dfu
variable {κ φ : Type*} {b : Build}

/-- An access within `dfu_state.bytes`, from a source it does not overlap; a write of whole
double-words; a division by something. -/
def Event.Safe {ι : Type*} (b : Build) : Event ι κ φ → Prop
  | .stored off len => off+len ≤ b.dfuBlocksBufferSize
  | .moved src len => src+len ≤ b.dfuBlocksBufferSize ∧ len ≤ src
  | .wrote _ len _ => 8 ∣ len ∧ len ≤ b.dfuBlocksBufferSize
  | .divided divisor => divisor ≠ 0
  | _ => True

theorem bufferSize_dvd (b : Build) : 8 ∣ b.dfuBlocksBufferSize := by
  rw [Build.dfuBlocksBufferSize]
  omega

theorem bufferSize_bounds (b : Build) :
    dfuBlocksWriteSize-1+b.dfuBlockSizeMax ≤ b.dfuBlocksBufferSize ∧
    b.dfuBlocksBufferSize ≤ 2*dfuBlocksWriteSize := by
  have hb := b.block_lt
  simp only [Build.dfuBlocksBufferSize, Build.dfuBlocksBufferMinSize, dfuBlocksWriteSize] at hb ⊢
  omega

theorem paddedLen_spec (wrIdx : Nat) :
    8 ∣ paddedLen wrIdx ∧ wrIdx ≤ paddedLen wrIdx ∧ paddedLen wrIdx < wrIdx+8 := by
  rw [paddedLen]
  split <;> omega

/-- What holds of the shared state while a call stands at a place in `dfu_load`. A block other than 0
whose parameters were checked finds either the count it was checked against or a zeroed state. -/
def LoadSafe (b : Build) (st : DfuState κ φ) (call : LoadCall κ φ) : LoadPc → Prop
  | .number | .count => True
  | .take => call.data.length ≤ b.dfuBlockSizeMax ∧
      (call.blockNumber ≠ 0 → st.blockCount = 0 → st.wrIdx = 0)
  | .reset => call.data.length ≤ b.dfuBlockSizeMax ∧
      (call.blockNumber ≠ 0 → st.blockCount = 0 → st.wrIdx = 0 ∧ call.blockNumber ≠ 0xFFFFFFFF)
  | .blockNumber => call.data.length ≤ b.dfuBlockSizeMax ∧
      (st.blockCount = 0 → st.wrIdx = 0 ∧ call.blockNumber ≠ 0xFFFFFFFF)
  | .copy => call.data.length ≤ b.dfuBlockSizeMax ∧
      (st.blockCount = 0 → st.wrIdx = 0 ∧ st.blockNumber ≠ 0xFFFFFFFF)
  | .ctx | .cb | .queue =>
      st.blockCount = 0 → st.wrIdx < dfuBlocksWriteSize ∧ st.blockNumber ≠ 0xFFFFFFFF

/-- A check that goes on has seen the state it needs. -/
def CheckSafe (st : DfuState κ φ) : CheckPc → Prop
  | .take | .state => True
  | .ctx | .cb | .crc => st.state = .finishedVerify

def CallerSafe (b : Build) (st : DfuState κ φ) : CallerPc κ φ → Prop
  | .idle => True
  | .load call pc => LoadSafe b st call pc
  | .check _ pc => CheckSafe st pc
  | .activate _ => False

def ConsumerSafe (b : Build) (st : DfuState κ φ) : ConsumerPc φ → Prop
  | .openArea | .checkSize | .prepare => st.blockCount ≠ 0
  | .erase len | .write len =>
      st.blockCount ≠ 0 ∧ 8 ∣ len ∧ len ≤ b.dfuBlocksBufferSize ∧ st.wrIdx ≤ 2*len
  | .shift len => 8 ∣ len ∧ len ≤ b.dfuBlocksBufferSize ∧ st.wrIdx ≤ 2*len
  | _ => True

theorem consumerSafe_of_not_holds {st : DfuState κ φ} {consumer : ConsumerPc φ} (h : consumer.holds = false) :
    ConsumerSafe b st consumer := by
  cases consumer with
  | waiting | testCb | callCb => trivial
  | _ => exact absurd h (by simp [ConsumerPc.holds])

structure SafeInv (b : Build) (s : DfuSystem Unit κ φ) : Prop where
  owned : ∃ o, Owned s o
  bounded : s.shared.dfuState.wrIdx ≤ b.dfuBlocksBufferSize
  caller : CallerSafe b s.shared.dfuState (s.callers ())
  full : s.shared.full = true → s.shared.dfuState.state = .inProgress → s.shared.dfuState.blockCount ≠ 0
  consumer : ConsumerSafe b s.shared.dfuState s.consumer

/-- A `dfu_load` takes the semaphore for block 0xFFFFFFFF while `dfu_state` has no block count. -/
def takesOrphan (s : DfuSystem Unit κ φ) : Bool :=
  match s.callers () with
  | .load call .take =>
    s.shared.freeSpace && call.blockNumber == 0xFFFFFFFF && s.shared.dfuState.blockCount == 0
  | _ => false

/-- The producer only loads and checks, and takes no orphan. -/
def SafeAction (s : DfuSystem Unit κ φ) : Action Unit κ φ → Prop
  | .call _ (.activate _) => False
  | .run _ => takesOrphan s = false
  | _ => True

instance (s : DfuSystem Unit κ φ) (a : Action Unit κ φ) : Decidable (SafeAction s a) :=
  match a with
  | .call _ (.activate _) => isFalse id
  | .run _ => inferInstanceAs (Decidable (takesOrphan s = false))
  | .call _ (.load _) | .call _ (.check _) | .timeout _ | .consume _ => isTrue trivial

variable {s : DfuSystem Unit κ φ} {shared : Shared κ φ} {pc : CallerPc κ φ}

/-- The caller goes on, the rest as it was. -/
theorem SafeInv.goes (h : SafeInv b s) (howned : ∃ o, Owned (s.goes () shared pc) o)
    (hst : shared.dfuState = s.shared.dfuState) (hfull : shared.full = s.shared.full)
    (hcaller : CallerSafe b s.shared.dfuState pc) : SafeInv b (s.goes () shared pc) := by
  refine ⟨howned, ?_, ?_, ?_, ?_⟩
  · rw [DfuSystem.goes_shared, hst]
    exact h.bounded
  · rw [DfuSystem.goes_shared, DfuSystem.goes_same, hst]
    exact hcaller
  · rw [DfuSystem.goes_shared, hst, hfull]
    exact h.full
  · rw [DfuSystem.goes_shared, hst]
    exact h.consumer

/-- The caller goes on inside its part of the token's round. -/
theorem SafeInv.goes_inside (h : SafeInv b s) (howned : ∃ o, Owned (s.goes () shared pc) o)
    (hi : (s.callers ()).holds = true) (hbounded : shared.dfuState.wrIdx ≤ b.dfuBlocksBufferSize)
    (hcaller : CallerSafe b shared.dfuState pc)
    (hfull : shared.full = s.shared.full ∨
      (shared.dfuState.state = .inProgress → shared.dfuState.blockCount ≠ 0)) :
    SafeInv b (s.goes () shared pc) := by
  obtain ⟨o, ho⟩ := h.owned
  obtain ⟨hout, hnot⟩ := consumer_outside ho hi
  refine ⟨howned, hbounded, by rw [DfuSystem.goes_same]; exact hcaller, ?_, consumerSafe_of_not_holds hout⟩
  intro hf hs
  rcases hfull with he | hcount
  · have hf : shared.full = true := hf
    rw [he, hnot] at hf
    exact absurd hf (by simp)
  · exact hcount hs

/-- One step of `dfu_load` keeps the state safe. -/
theorem SafeInv.load_step (h : SafeInv b s) {call : LoadCall κ φ} {pc : LoadPc}
    (hi : s.callers () = .load call pc) (ha : SafeAction s (.run ())) :
    SafeInv b (dfuStep b s (.run ())).2 ∧ ∀ e ∈ (dfuStep b s (.run ())).1, e.Safe b := by
  have howned := owned_step b s (.run ()) h.owned
  have hpc := h.caller
  have hbounded := h.bounded
  obtain ⟨hmin, -⟩ := bufferSize_bounds b
  have hblock := b.block_lt
  have hin (hholds : pc.holds = true) : (s.callers ()).holds = true := by
    rw [hi]
    exact hholds
  rw [hi] at hpc
  simp only [dfuStep, hi] at howned ⊢
  cases pc with
  | number =>
    simp only [loadStep] at howned ⊢
    split_ifs at howned ⊢
    · exact ⟨h.goes howned rfl rfl trivial, by simp [DfuSystem.advance, Event.Safe]⟩
    · exact ⟨h.goes howned rfl rfl trivial, by simp [DfuSystem.advance]⟩
  | count =>
    simp only [loadStep] at howned ⊢
    split_ifs at howned ⊢ with hbad
    · exact ⟨h.goes howned rfl rfl trivial, by simp [DfuSystem.advance, Event.Safe]⟩
    · obtain ⟨-, hsize, -, hzero⟩ : ¬ _ ∧ ¬ _ ∧ ¬ _ ∧ ¬ _ := by simpa only [not_or] using hbad
      refine ⟨h.goes howned rfl rfl ⟨not_lt.mp hsize, fun hn hc => ?_⟩, by simp [DfuSystem.advance]⟩
      exact absurd ⟨hc, hn⟩ hzero
  | take =>
    simp only [loadStep] at howned ⊢
    split_ifs at howned ⊢ with hfree
    · refine ⟨h.goes howned rfl rfl ⟨hpc.1, fun hn hc => ⟨hpc.2 hn hc, fun hmax => ?_⟩⟩, by
        simp [DfuSystem.advance]⟩
      have ha : takesOrphan s = false := ha
      simp [takesOrphan, hi, hfree, hmax, hc] at ha
    · exact ⟨h.goes howned rfl rfl trivial, by simp [DfuSystem.advance, Event.Safe]⟩
  | reset =>
    simp only [loadStep] at howned ⊢
    split_ifs at howned ⊢ with hnum
    · refine ⟨h.goes_inside howned (hin rfl) (Nat.zero_le _) ⟨hpc.1, fun _ => ⟨rfl, ?_⟩⟩ (.inl rfl), by
        simp [DfuSystem.advance]⟩
      rw [hnum]
      decide
    · exact ⟨h.goes howned rfl rfl ⟨hpc.1, hpc.2 hnum⟩, by simp [DfuSystem.advance]⟩
  | blockNumber =>
    exact ⟨h.goes_inside howned (hin rfl) hbounded hpc (.inl rfl), by simp [DfuSystem.advance, loadStep]⟩
  | copy =>
    simp only [loadStep] at howned ⊢
    split_ifs at howned ⊢ with hroom
    · exact ⟨h.goes howned rfl rfl trivial, by simp [DfuSystem.advance, Event.Safe]⟩
    · refine ⟨h.goes_inside howned (hin rfl) (not_lt.mp hroom) (fun hc => ?_) (.inl rfl), by
        simpa [DfuSystem.advance, Event.Safe] using hroom⟩
      obtain ⟨hw, hn⟩ := hpc.2 hc
      have hlen := hpc.1
      exact ⟨by simp only [hw]; omega, hn⟩
  | ctx | cb =>
    exact ⟨h.goes_inside howned (hin rfl) hbounded hpc (.inl rfl), by simp [DfuSystem.advance, loadStep]⟩
  | queue =>
    simp only [loadStep] at howned ⊢
    split_ifs at howned ⊢ with hqueue
    · refine ⟨h.goes_inside howned (hin rfl) hbounded trivial (.inr fun _ hc => ?_), by
        simp [DfuSystem.advance, Event.Safe]⟩
      -- without a count there is neither a full buffer nor a last block
      obtain ⟨hw, hn⟩ := hpc hc
      have hc : s.shared.dfuState.blockCount = 0 := hc
      rcases hqueue with hq | hq
      · exact absurd hq (not_le.mpr hw)
      · rw [hc] at hq
        exact hn hq
    · exact ⟨h.goes howned rfl rfl trivial, by simp [DfuSystem.advance, Event.Safe]⟩

theorem SafeInv.check_step (h : SafeInv b s) {call : CheckCall κ φ} {pc : CheckPc}
    (hi : s.callers () = .check call pc) :
    SafeInv b (dfuStep b s (.run ())).2 ∧ ∀ e ∈ (dfuStep b s (.run ())).1, e.Safe b := by
  have howned := owned_step b s (.run ()) h.owned
  have hpc := h.caller
  have hin (hholds : pc.holds = true) : (s.callers ()).holds = true := by
    rw [hi]
    exact hholds
  rw [hi] at hpc
  simp only [dfuStep, hi] at howned ⊢
  cases pc with
  | take =>
    simp only [checkStep] at howned ⊢
    split_ifs at howned ⊢ <;> exact ⟨h.goes howned rfl rfl trivial, by simp [DfuSystem.advance]⟩
  | state =>
    simp only [checkStep] at howned ⊢
    split_ifs at howned ⊢ with hs
    · exact ⟨h.goes howned rfl rfl hs, by simp [DfuSystem.advance]⟩
    · exact ⟨h.goes howned rfl rfl trivial, by simp [DfuSystem.advance, Event.Safe]⟩
  | ctx | cb =>
    exact ⟨h.goes_inside howned (hin rfl) h.bounded hpc (.inl rfl), by simp [DfuSystem.advance, checkStep]⟩
  | crc =>
    have hs : s.shared.dfuState.state = .finishedVerify := hpc
    refine ⟨h.goes_inside howned (hin rfl) h.bounded trivial (.inr fun hp => ?_), by
      simp [DfuSystem.advance, checkStep, Event.Safe]⟩
    have hp : s.shared.dfuState.state = .inProgress := hp
    rw [hs] at hp
    exact absurd hp (by simp)

/-- The processing thread goes on, `dfu_state` as it was. -/
theorem SafeInv.consumes {consumer : ConsumerPc φ} (h : SafeInv b s)
    (howned : ∃ o, Owned { s with shared, consumer } o) (hst : shared.dfuState = s.shared.dfuState)
    (hfull : shared.full = true → s.shared.full = true)
    (hconsumer : ConsumerSafe b s.shared.dfuState consumer) : SafeInv b { s with shared, consumer } :=
  ⟨howned, by rw [hst]; exact h.bounded, by rw [hst]; exact h.caller,
    by rw [hst]; exact fun hf => h.full (hfull hf), by rw [hst]; exact hconsumer⟩

/-- With the token at the processing thread, a caller only waits for the semaphore. -/
theorem callerSafe_outside {st st' : DfuState κ φ} (h : CallerSafe b st pc) (hpc : pc.holds = false)
    (hz : (st.blockCount = 0 → st.wrIdx = 0) → st'.blockCount = 0 → st'.wrIdx = 0) :
    CallerSafe b st' pc := by
  cases pc with
  | idle => trivial
  | load call pc =>
    cases pc with
    | number | count => trivial
    | take => exact ⟨h.1, fun hn => hz (h.2 hn)⟩
    | _ => exact absurd hpc (by simp [CallerPc.holds, LoadPc.holds])
  | check call pc =>
    cases pc with
    | take => trivial
    | _ => exact absurd hpc (by simp [CallerPc.holds, CheckPc.holds])
  | activate pending => exact h

/-- The processing thread goes on inside its round. -/
theorem SafeInv.consumes_inside {consumer : ConsumerPc φ} (h : SafeInv b s)
    (howned : ∃ o, Owned { s with shared, consumer } o) (hin : s.consumer.holds = true)
    (hfull : shared.full = s.shared.full) (hbounded : shared.dfuState.wrIdx ≤ b.dfuBlocksBufferSize)
    (hz : (s.shared.dfuState.blockCount = 0 → s.shared.dfuState.wrIdx = 0) →
      shared.dfuState.blockCount = 0 → shared.dfuState.wrIdx = 0)
    (hconsumer : ConsumerSafe b shared.dfuState consumer) : SafeInv b { s with shared, consumer } := by
  obtain ⟨o, ho⟩ := h.owned
  obtain ⟨hcaller, hnot⟩ := caller_outside ho hin ()
  refine ⟨howned, hbounded, callerSafe_outside h.caller hcaller hz, fun hf => ?_, hconsumer⟩
  have hf : shared.full = true := hf
  rw [hfull, hnot] at hf
  exact absurd hf (by simp)

theorem SafeInv.consume_step (h : SafeInv b s) (outcome : RetCode) :
    SafeInv b (dfuStep b s (.consume outcome)).2 ∧ ∀ e ∈ (dfuStep b s (.consume outcome)).1, e.Safe b := by
  have howned := owned_step b s (.consume outcome) h.owned
  have hpc := h.consumer
  have hbounded := h.bounded
  obtain ⟨hmin, hmax⟩ := bufferSize_bounds b
  have hpos := b.block_pos
  have h8 := bufferSize_dvd b
  simp only [dfuStep] at howned ⊢
  cases hc : s.consumer with
  | waiting =>
    rw [hc] at howned
    simp only [consumerStep] at howned ⊢
    split_ifs at howned ⊢ with hf
    · refine ⟨h.consumes howned rfl (by simp) ?_, by simp⟩
      cases hs : s.shared.dfuState.state with
      | inProgress => exact h.full hf hs
      | finishedVerify => trivial
    · exact ⟨h.consumes howned rfl id trivial, by simp⟩
  | openArea =>
    rw [hc] at howned hpc
    simp only [consumerStep] at howned ⊢
    split_ifs at howned ⊢
    · exact ⟨h.consumes howned rfl id hpc, by simp⟩
    · exact ⟨h.consumes howned rfl id trivial, by simp⟩
  | checkSize =>
    rw [hc] at howned hpc
    simp only [consumerStep] at howned ⊢
    split_ifs at howned ⊢
    · exact ⟨h.consumes_inside howned (by rw [hc]; rfl) rfl (Nat.zero_le _) (fun _ _ => rfl) trivial, by simp⟩
    · exact ⟨h.consumes howned rfl id hpc, by simp⟩
  | prepare =>
    rw [hc] at howned hpc
    obtain ⟨hp8, hple, hplt⟩ := paddedLen_spec s.shared.dfuState.wrIdx
    simp only [consumerStep] at howned ⊢
    split_ifs at howned ⊢
    · refine ⟨h.consumes_inside howned (by rw [hc]; rfl) rfl hbounded id ⟨hpc, hp8, ?_, ?_⟩, ?_⟩
      · omega
      · simp only
        omega
      · simp only [List.mem_singleton, forall_eq, Event.Safe]
        omega
    · refine ⟨h.consumes_inside howned (by rw [hc]; rfl) rfl hbounded id ⟨hpc, hp8, ?_, ?_⟩, by simp⟩
      · omega
      · simp only
        omega
    · exact ⟨h.consumes howned rfl id ⟨hpc, by decide, by omega, by omega⟩, by simp⟩
  | erase len =>
    rw [hc] at howned hpc
    cases hsec : sectorToErase b s.shared.dfuState.flashOffset len with
    | none =>
      simp only [consumerStep, hsec] at howned ⊢
      exact ⟨h.consumes howned rfl id hpc, by simp⟩
    | some off =>
      simp only [consumerStep, hsec] at howned ⊢
      refine ⟨h.consumes howned rfl id ?_, by simp [Event.Safe]⟩
      split
      · exact hpc
      · trivial
  | write len =>
    rw [hc] at howned hpc
    obtain ⟨hcount, hdvd, hle, hw⟩ := hpc
    simp only [consumerStep] at howned ⊢
    refine ⟨h.consumes howned rfl id ?_, ?_⟩
    · split
      · exact ⟨hdvd, hle, hw⟩
      · trivial
    · simpa [Event.Safe] using ⟨hcount, hdvd, hle⟩
  | shift len =>
    rw [hc] at howned hpc
    obtain ⟨-, hle, hw⟩ := hpc
    simp only [consumerStep] at howned ⊢
    split_ifs at howned ⊢ with hlen
    · refine ⟨h.consumes_inside howned (by rw [hc]; rfl) rfl ?_ (fun hz hcount => ?_) trivial, ?_⟩
      · simp only
        omega
      · have hzero := hz hcount
        simp only
        omega
      · simp only [List.mem_singleton, forall_eq, Event.Safe]
        omega
    · exact ⟨h.consumes_inside howned (by rw [hc]; rfl) rfl (Nat.zero_le _) (fun _ _ => rfl) trivial, by simp⟩
  | verify =>
    rw [hc] at howned
    exact ⟨h.consumes howned rfl id trivial, by simp [consumerStep]⟩
  | give round err =>
    rw [hc] at howned
    exact ⟨h.consumes howned rfl id trivial, by simp [consumerStep, Event.Safe]⟩
  | testCb err =>
    rw [hc] at howned
    simp only [consumerStep] at howned ⊢
    split at howned <;> exact ⟨h.consumes howned rfl id trivial, by simp⟩
  | callCb cb err =>
    rw [hc] at howned
    exact ⟨h.consumes howned rfl id trivial, by simp [consumerStep, Event.Safe]⟩

theorem SafeInv.step (h : SafeInv b s) {a : Action Unit κ φ} (ha : SafeAction s a) :
    SafeInv b (dfuStep b s a).2 ∧ ∀ e ∈ (dfuStep b s a).1, e.Safe b := by
  have howned := owned_step b s a h.owned
  cases a with
  | call i call =>
    cases hi : s.callers () with
    | idle =>
      simp only [dfuStep, hi] at howned ⊢
      refine ⟨h.goes howned rfl rfl ?_, by simp [Event.Safe]⟩
      cases call with
      | load call => trivial
      | check call => trivial
      | activate pending => exact ha.elim
    | load | check | activate =>
      simp only [dfuStep, hi]
      exact ⟨h, by simp⟩
  | run i =>
    cases hi : s.callers () with
    | idle =>
      simp only [dfuStep, hi]
      exact ⟨h, by simp⟩
    | load call pc => exact h.load_step hi ha
    | check call pc => exact h.check_step hi
    | activate pending =>
      have hcaller := h.caller
      rw [hi] at hcaller
      exact hcaller.elim
  | timeout i =>
    simp only [dfuStep] at howned ⊢
    split at howned
    · split_ifs at howned ⊢
      · exact ⟨h, by simp⟩
      · exact ⟨h.goes howned rfl rfl trivial, by simp [Event.Safe]⟩
    · exact ⟨h, by simp⟩
  | consume outcome => exact h.consume_step outcome

theorem safeInv_start (b : Build) (m : Nor.Mem) : SafeInv b (DfuSystem.start m : DfuSystem Unit κ φ) :=
  ⟨⟨_, owned_start m⟩, Nat.zero_le _, trivial, fun hf => absurd hf (by simp [DfuSystem.start]), trivial⟩

/-- From power-up, whatever one producer loads and checks and whichever flash access fails: every access
is safe, as long as block 0xFFFFFFFF does not take the semaphore while `dfu_state` has no block count. -/
theorem dfu_accesses_are_safe (b : Build) (m : Nor.Mem) (actions : List (Action Unit κ φ))
    (h : Machine.Meets (dfuStep b) SafeAction (.start m) actions) :
    ∀ e ∈ Machine.events (dfuStep b) (.start m) actions, e.Safe b := by
  have hstep (tr : List (Event Unit κ φ)) (s : DfuSystem Unit κ φ) (a : Action Unit κ φ)
      (hs : SafeInv b s ∧ ∀ e ∈ tr, e.Safe b) (ha : SafeAction s a) :
      SafeInv b (dfuStep b s a).2 ∧ ∀ e ∈ tr ++ (dfuStep b s a).1, e.Safe b := by
    obtain ⟨hinv, hevents⟩ := hs.1.step ha
    refine ⟨hinv, fun e he => ?_⟩
    cases List.mem_append.mp he with
    | inl hold => exact hs.2 e hold
    | inr hnew => exact hevents e hnew
  have hrun := Machine.events_invariant (I := fun tr s => SafeInv b s ∧ ∀ e ∈ tr, e.Safe b) hstep [] _
    actions ⟨safeInv_start b m, by simp⟩ h
  exact hrun.2

/-- A block stored and written, with a check behind it. -/
def storedAndChecked : List (Action Unit Unit Unit) :=
  Action.call () (.load ⟨0, 1, [1, 2, 3], none, none⟩) :: List.replicate 9 (Action.run ()) ++
    List.replicate 10 (Action.consume .success) ++
    Action.call () (.check ⟨7, none, none⟩) :: List.replicate 5 (Action.run ())

theorem dfu_accesses_are_safe_pearl :
    Machine.Meets (dfuStep (.of .pearl)) SafeAction (.start fun _ => 0xff) storedAndChecked ∧
      ∀ e ∈ Machine.events (dfuStep (.of .pearl)) (.start fun _ => 0xff) storedAndChecked, e.Safe (.of .pearl) := by
  have hmeets : Machine.Meets (dfuStep (.of .pearl)) SafeAction (.start fun _ => 0xff) storedAndChecked := by
    decide +kernel
  exact ⟨hmeets, dfu_accesses_are_safe (.of .pearl) (fun _ => 0xff) storedAndChecked hmeets⟩

/-! The orphan. -/

/-- Block `k` of an image of 0xFFFFFFFF empty blocks. -/
def emptyBlock (k : Nat) : LoadCall Unit Unit := ⟨.ofNat k, 0xFFFFFFFF, [], none, none⟩

/-- A call of `dfu_load` that runs to its end. -/
def wholeLoad (call : LoadCall Unit Unit) : List (Action Unit Unit Unit) :=
  Action.call () (.load call) :: List.replicate 9 (Action.run ())

/-- The blocks before the last one are loaded. While the last one is processed, a further block passes
the checks of its parameters; it takes the semaphore behind the reset. -/
def orphanRun : List (Action Unit Unit Unit) :=
  (List.range 0xFFFFFFFE).flatMap (fun k => wholeLoad (emptyBlock k)) ++
  (wholeLoad (emptyBlock 0xFFFFFFFE) ++ Action.call () (.load (emptyBlock 0xFFFFFFFF)) :: .run () :: .run () ::
    List.replicate 5 (Action.consume .success) ++ List.replicate 7 (Action.run ()) ++
    List.replicate 7 (Action.consume .success))

/-- The state with `k+1` empty blocks loaded. -/
def emptyUpload (m : Nor.Mem) (k : Nat) : DfuSystem Unit Unit Unit :=
  ⟨⟨{ DfuState.zero with blockNumber := .ofNat k, blockCount := 0xFFFFFFFF }, true, false, m⟩,
    fun _ => .idle, .waiting⟩

theorem goes_unit (shared shared' : Shared κ φ) (pc pc' : CallerPc κ φ) (c : ConsumerPc φ) :
    (⟨shared, fun _ => pc, c⟩ : DfuSystem Unit κ φ).goes () shared' pc' = ⟨shared', fun _ => pc', c⟩ := by
  simp only [DfuSystem.goes, DfuSystem.mk.injEq, true_and, and_true]
  funext i
  simp

theorem put_nil (m : Nor.Mem) (off : Nat) : put m off [] = m := by
  funext a
  simp [put]

/-- An empty block before the last one is taken behind its predecessor. -/
theorem run_emptyBlock {m : Nor.Mem} {k : Nat} {n c : UInt32} (hk : k < 0xFFFFFFFE)
    (hnum : k = 0 ∨ UInt32.ofNat k = n+1 ∧ c = 0xFFFFFFFF) :
    (Machine.run (dfuStep b) ⟨⟨{ DfuState.zero with blockNumber := n, blockCount := c }, true, false, m⟩,
      fun _ => .idle, .waiting⟩ (wholeLoad (emptyBlock k))).2 = emptyUpload m k := by
  have hk32 : (UInt32.ofNat k).toNat = k := by
    rw [UInt32.toNat_ofNat']
    exact Nat.mod_eq_of_lt (by omega)
  have hlt : ¬ (0xFFFFFFFF : UInt32) < UInt32.ofNat k := by
    have hm : (0xFFFFFFFF : UInt32).toNat = 4294967295 := rfl
    rw [UInt32.lt_iff_toNat_lt, hk32]
    omega
  have hlast : ¬ UInt32.ofNat k = 0xFFFFFFFF-1 := by
    intro he
    have hn := congrArg UInt32.toNat he
    have hm : ((0xFFFFFFFF : UInt32)-1).toNat = 4294967294 := rfl
    rw [hk32] at hn
    omega
  have hnumber : ¬ (UInt32.ofNat k ≠ 0 ∧ UInt32.ofNat k ≠ n+1) := by
    rintro ⟨h0, hn⟩
    rcases hnum with rfl | ⟨he, -⟩
    · exact h0 rfl
    · exact hn he
  have hcount : ¬ ((0xFFFFFFFF : UInt32) < UInt32.ofNat k ∨ b.dfuBlockSizeMax < 0 ∨
      b.dfuBlocksBufferSize < 0 ∨ c = 0 ∧ UInt32.ofNat k ≠ 0) := by
    rintro (h | h | h | ⟨hc, h0⟩)
    · exact hlt h
    · exact absurd h (Nat.not_lt_zero _)
    · exact absurd h (Nat.not_lt_zero _)
    · rcases hnum with rfl | ⟨-, hc'⟩
      · exact h0 rfl
      · rw [hc'] at hc
        exact absurd hc (by decide)
  have hqueue : ¬ (dfuBlocksWriteSize ≤ 0 ∨ UInt32.ofNat k = 0xFFFFFFFF-1) := by
    rintro (h | h)
    · exact absurd h (by decide)
    · exact hlast h
  by_cases h0 : UInt32.ofNat k = 0
  · simp only [wholeLoad, List.replicate, Machine.run_cons, dfuStep, goes_unit, DfuSystem.advance, loadStep,
      emptyBlock, entry, DfuState.zero, List.length_nil, if_neg hnumber, if_neg hcount, if_pos h0, put_nil,
      Nat.add_zero, if_true, if_neg (Nat.not_lt_zero b.dfuBlocksBufferSize), if_neg hqueue]
    rfl
  · have hc : c = 0xFFFFFFFF := by
      rcases hnum with rfl | ⟨-, hc⟩
      · exact absurd rfl h0
      · exact hc
    subst hc
    simp only [wholeLoad, List.replicate, Machine.run_cons, dfuStep, goes_unit, DfuSystem.advance, loadStep,
      emptyBlock, entry, DfuState.zero, List.length_nil, if_neg hnumber, if_neg hcount, if_neg h0, put_nil,
      Nat.add_zero, if_true, if_neg (Nat.not_lt_zero b.dfuBlocksBufferSize), if_neg hqueue]
    rfl

theorem run_emptyBlocks (b : Build) (m : Nor.Mem) {k : Nat} (hk : k < 0xFFFFFFFE) :
    (Machine.run (dfuStep b) (.start m)
      ((List.range (k+1)).flatMap fun k => wholeLoad (emptyBlock k))).2 = emptyUpload m k := by
  induction k with
  | zero => exact run_emptyBlock (by omega) (.inl rfl)
  | succ k ih =>
    rw [List.range_succ, List.flatMap_append, Machine.run_append, ih (by omega)]
    simp only [List.flatMap_cons, List.flatMap_nil, List.append_nil]
    exact run_emptyBlock hk (.inr ⟨UInt32.ofNat_add k 1, rfl⟩)

/-- On Pearl the orphan is the last block of an image of no blocks: the progress is divided by 0. -/
theorem progress_divides_by_zero :
    .divided 0 ∈ Machine.events (dfuStep (.of .pearl)) (.start fun _ => 0xff) orphanRun := by
  have hblocks := run_emptyBlocks (.of .pearl) (fun _ => 0xff) (show 0xFFFFFFFD < 0xFFFFFFFE by omega)
  rw [orphanRun, Machine.events_append, hblocks]
  refine List.mem_append_right _ ?_
  decide +kernel

end OrbFirmware.Dfu

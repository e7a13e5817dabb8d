import OrbFirmware.Dfu.Safety

/-! Which blocks `dfu_load` accepts: block 0, and behind an accepted block its successor with the count
its upload started with. The inclusive bound on the number, the count that is only compared to the
call's own number and a block refused for want of room break this. -/
namespace OrbFirmware.Dfu
variable {κ φ : Type*} {b : Build}

/-- One thread that only loads. -/
def LoadsOnly : Action Unit κ φ → Prop
  | .call _ (.load _) | .run _ | .consume _ => True
  | _ => False

instance (a : Action Unit κ φ) : Decidable (LoadsOnly a) :=
  match a with
  | .call _ (.load _) | .run _ | .consume _ => isTrue trivial
  | .call _ (.check _) | .call _ (.activate _) | .timeout _ => isFalse id

def DfuRet.accepted : DfuRet → Bool
  | .code .success | .einprogress => true
  | _ => false

/-- The last accepted block and the count its upload started with. -/
structure Upload where
  lastNumber : UInt32
  blockCount : UInt32
  deriving DecidableEq, Repr

def Upload.accept (u : Option Upload) (call : LoadCall κ φ) : Option Upload :=
  if call.blockNumber = 0 then some ⟨0, call.blockCount⟩
  else u.map fun u => ⟨call.blockNumber, u.blockCount⟩

/-- Reads the calls off a run. -/
def uploadStep (u : Option Upload) : Event Unit κ φ → Unit × Option Upload
  | .returned _ (.load call) ret => ((), if ret.accepted then Upload.accept u call else u)
  | _ => ((), u)

/-- Block 0 or the next one, below the count that it and its upload have. -/
def InSequence (u : Option Upload) (call : LoadCall κ φ) : Prop :=
  call.blockNumber < call.blockCount ∧
    (call.blockNumber = 0 ∨ ∃ u', u = some u' ∧ call.blockNumber.toNat = u'.lastNumber.toNat+1 ∧
      call.blockCount = u'.blockCount)

def AcceptsInSequence (u : Option Upload) : Event Unit κ φ → Prop
  | .returned _ (.load call) ret => ret.accepted = true → InSequence u call
  | _ => True

instance (u : Option Upload) (call : LoadCall κ φ) : Decidable (InSequence u call) :=
  match u with
  | none => decidable_of_iff (call.blockNumber < call.blockCount ∧ call.blockNumber = 0) (by simp [InSequence])
  | some u' => decidable_of_iff (call.blockNumber < call.blockCount ∧ (call.blockNumber = 0 ∨
      call.blockNumber.toNat = u'.lastNumber.toNat+1 ∧ call.blockCount = u'.blockCount)) (by simp [InSequence])

instance (u : Option Upload) (e : Event Unit κ φ) : Decidable (AcceptsInSequence u e) :=
  match e with
  | .returned _ (.load call) ret => inferInstanceAs (Decidable (ret.accepted = true → InSequence u call))
  | .returned _ (.check _) _ | .returned _ (.activate _) _ | .called _ _ | .stored _ _ | .moved _ _
  | .erased _ _ _ | .wrote _ _ _ | .divided _ | .processed _ _ | .callback _ _ _ => isTrue trivial

/-- What `dfu_load` refuses once the number fits. -/
def Refused (b : Build) (st : DfuState κ φ) (call : LoadCall κ φ) : Prop :=
  call.blockCount < call.blockNumber ∨ b.dfuBlockSizeMax < call.data.length ∨
    b.dfuBlocksBufferSize < call.data.length ∨ (st.blockCount = 0 ∧ call.blockNumber ≠ 0)

instance (st : DfuState κ φ) (call : LoadCall κ φ) : Decidable (Refused b st call) :=
  inferInstanceAs (Decidable (_ ∨ _))

/-- A block that passes the checks is below its count and has the stored count, and one to be copied
finds room. -/
def LoadsInOrder (b : Build) (s : DfuSystem Unit κ φ) : Prop :=
  match s.callers () with
  | .load call .count => Refused b s.shared.dfuState call ∨
      call.blockNumber ≠ call.blockCount ∧
        (call.blockNumber = 0 ∨ call.blockCount = s.shared.dfuState.blockCount)
  | .load call .copy => s.shared.dfuState.wrIdx+call.data.length ≤ b.dfuBlocksBufferSize
  | _ => True

instance (s : DfuSystem Unit κ φ) : Decidable (LoadsInOrder b s) := by
  unfold LoadsInOrder
  split <;> infer_instance

def OrderedAction (b : Build) (s : DfuSystem Unit κ φ) : Action Unit κ φ → Prop
  | .run _ => LoadsInOrder b s
  | a => LoadsOnly a

instance (s : DfuSystem Unit κ φ) (a : Action Unit κ φ) : Decidable (OrderedAction b s a) :=
  match a with
  | .run _ => inferInstanceAs (Decidable (LoadsInOrder b s))
  | .call _ (.load _) | .consume _ => isTrue trivial
  | .call _ (.check _) | .call _ (.activate _) | .timeout _ => isFalse id

/-- `dfu_state` between two calls: cleared, or that of the upload. -/
def Stored (u : Option Upload) (st : DfuState κ φ) : Prop :=
  st.blockCount = 0 ∧ st.state = .inProgress ∨
    u = some ⟨st.blockNumber, st.blockCount⟩ ∧ st.blockNumber < st.blockCount ∧
      (st.state = .finishedVerify → st.blockNumber = st.blockCount-1)

/-- `dfu_state` while the call holds the semaphore; a clearing before it took it leaves no count. -/
structure Loading (u : Option Upload) (st : DfuState κ φ) (call : LoadCall κ φ) : Prop where
  inSequence : InSequence u call
  state : st.state = .inProgress
  count : st.blockCount = 0 ∨ st.blockCount = call.blockCount

def LoadOrdered (u : Option Upload) (st : DfuState κ φ) (call : LoadCall κ φ) : LoadPc → Prop
  | .number => True
  | .count => call.blockNumber = 0 ∨ call.blockNumber = st.blockNumber+1 ∨ st.blockCount = 0
  | .take => InSequence u call
  | .reset => InSequence u call ∧ Stored u st
  | .blockNumber => Loading u st call
  | .copy | .ctx | .cb | .queue => Loading u st call ∧ st.blockNumber = call.blockNumber

def CallerOrdered (u : Option Upload) (st : DfuState κ φ) : CallerPc κ φ → Prop
  | .idle => True
  | .load call pc => LoadOrdered u st call pc
  | .check _ _ | .activate _ => False

/-- The processing thread never checks an image. -/
def ConsumerPc.Blocks : ConsumerPc φ → Prop
  | .verify | .give .verify _ => False
  | _ => True

structure OrderInv (b : Build) (u : Option Upload) (s : DfuSystem Unit κ φ) : Prop where
  safe : SafeInv b s
  stored : (s.callers ()).holds = false → Stored u s.shared.dfuState
  caller : CallerOrdered u s.shared.dfuState (s.callers ())
  full : s.shared.full = true → s.shared.dfuState.state = .inProgress
  consumer : s.consumer.Blocks

variable {u : Option Upload} {s : DfuSystem Unit κ φ} {shared : Shared κ φ} {pc : CallerPc κ φ}

/-- The number behind the last one is not below the count. -/
theorem no_block_behind_last {n k c : UInt32} (hlast : n = c-1) (hnext : k.toNat = n.toNat+1) (hlt : k < c) :
    False := by
  have hk := UInt32.lt_iff_toNat_lt.mp hlt
  have h1 : (1 : UInt32) ≤ c := by
    rw [UInt32.le_iff_toNat_le]
    have : (1 : UInt32).toNat = 1 := rfl
    omega
  have hc := UInt32.toNat_sub_of_le c 1 h1
  have : (1 : UInt32).toNat = 1 := rfl
  rw [hlast] at hnext
  omega

/-- A successor is only in sequence while the image is not complete. -/
theorem Stored.inProgress {st : DfuState κ φ} (h : Stored u st) {call : LoadCall κ φ} (hcall : InSequence u call)
    (hn : call.blockNumber ≠ 0) : st.state = .inProgress := by
  obtain ⟨hlt, h0 | ⟨u', hu, hnext, hcount⟩⟩ := hcall
  · exact absurd h0 hn
  · rcases h with ⟨-, hs⟩ | ⟨hu', -, hlast⟩
    · exact hs
    · cases hs : st.state with
      | inProgress => rfl
      | finishedVerify =>
        rw [hu] at hu'
        obtain rfl := Option.some.inj hu'
        rw [hcount] at hlt
        exact (no_block_behind_last (hlast hs) hnext hlt).elim

/-- The accepted block is what is stored. -/
theorem Loading.stored {st : DfuState κ φ} {call : LoadCall κ φ} (h : Loading u st call)
    (hn : st.blockNumber = call.blockNumber) : Stored (Upload.accept u call) st := by
  obtain ⟨hlt, hseq⟩ := h.inSequence
  rcases h.count with h0 | hc
  · exact .inl ⟨h0, h.state⟩
  · refine .inr ⟨?_, by rw [hn, hc]; exact hlt, fun hs => ?_⟩
    · rw [Upload.accept]
      split
      · rename_i h0
        rw [hn, hc, h0]
      · rename_i h0
        obtain h1 | ⟨u', hu, -, hcount⟩ := hseq
        · exact absurd h1 h0
        · rw [hu, hn, hc, hcount]
          rfl
    · rw [h.state] at hs
      contradiction

/-- The checks of the parameters, with what the calls promise, put the block in sequence. -/
theorem Stored.inSequence {st : DfuState κ φ} (h : Stored u st) {call : LoadCall κ φ}
    (hnumber : call.blockNumber = 0 ∨ call.blockNumber = st.blockNumber+1 ∨ st.blockCount = 0)
    (hpass : ¬ Refused b st call) (hne : call.blockNumber ≠ call.blockCount)
    (hcount : call.blockNumber = 0 ∨ call.blockCount = st.blockCount) : InSequence u call := by
  simp only [Refused, not_or, not_and, not_not] at hpass
  have hlt : call.blockNumber < call.blockCount :=
    UInt32.lt_of_le_of_ne (UInt32.not_lt.mp hpass.1) hne
  refine ⟨hlt, ?_⟩
  by_cases h0 : call.blockNumber = 0
  · exact .inl h0
  · have hc : st.blockCount ≠ 0 := fun hc => h0 (hpass.2.2.2 hc)
    have hn : call.blockNumber = st.blockNumber+1 := by
      rcases hnumber with h1 | hn | h1
      · exact absurd h1 h0
      · exact hn
      · exact absurd h1 hc
    rcases h with ⟨h1, -⟩ | ⟨hu, hst, -⟩
    · exact absurd h1 hc
    · refine .inr ⟨_, hu, ?_, hcount.resolve_left h0⟩
      have hst := UInt32.lt_iff_toNat_lt.mp hst
      have hmax := st.blockCount.toNat_lt
      have hone : (1 : UInt32).toNat = 1 := rfl
      rw [hn, UInt32.toNat_add, hone]
      exact Nat.mod_eq_of_lt (by omega)

theorem OrderInv.goes (h : OrderInv b u s) {u' : Option Upload} (hsafe : SafeInv b (s.goes () shared pc))
    (hstored : pc.holds = false → Stored u' shared.dfuState) (hcaller : CallerOrdered u' shared.dfuState pc)
    (hfull : shared.full = true → shared.dfuState.state = .inProgress) : OrderInv b u' (s.goes () shared pc) :=
  ⟨hsafe, by rw [DfuSystem.goes_same]; exact hstored, by rw [DfuSystem.goes_same]; exact hcaller, hfull,
    h.consumer⟩

/-- What a step shows of the upload, and what it keeps. -/
def KeepsOrder (b : Build) (u : Option Upload) (r : List (Event Unit κ φ) × DfuSystem Unit κ φ) : Prop :=
  Machine.Meets uploadStep AcceptsInSequence u r.1 ∧ (∀ err, .processed .verify err ∉ r.1) ∧
    OrderInv b (Machine.run uploadStep u r.1).2 r.2

/-- The condition on the calls keeps block 0xFFFFFFFF from taking the semaphore without a count. -/
theorem OrderInv.safeAction (h : OrderInv b u s) {a : Action Unit κ φ} (ha : OrderedAction b s a) :
    SafeAction s a := by
  cases a with
  | call i call =>
    cases call with
    | load call => trivial
    | check call => trivial
    | activate pending => exact ha
  | run i =>
    have hpc := h.caller
    simp only [SafeAction, takesOrphan]
    split
    · rename_i call hi
      rw [hi] at hpc
      obtain ⟨hlt, -⟩ : InSequence u call := hpc
      have hn : call.blockNumber ≠ 0xFFFFFFFF := by
        intro he
        rw [he] at hlt
        have hlt := UInt32.lt_iff_toNat_lt.mp hlt
        have hmax : (0xFFFFFFFF : UInt32).toNat = 4294967295 := rfl
        have := call.blockCount.toNat_lt
        omega
      simp [hn]
    · rfl
  | timeout i => exact ha.elim
  | consume outcome => trivial

theorem OrderInv.load_step (h : OrderInv b u s) {call : LoadCall κ φ} {pc : LoadPc}
    (hi : s.callers () = .load call pc) (ha : LoadsInOrder b s) : KeepsOrder b u (dfuStep b s (.run ())) := by
  have hsafe := (h.safe.step (h.safeAction (a := .run ()) ha)).1
  have hpc := h.caller
  have hstored := h.stored
  have hfull := h.full
  rw [hi] at hpc hstored
  simp only [LoadsInOrder, hi] at ha
  simp only [dfuStep, hi] at hsafe ⊢
  cases pc with
  | number =>
    simp only [loadStep] at hsafe ⊢
    split_ifs at hsafe ⊢ with hbad
    · exact ⟨⟨by simp [AcceptsInSequence, DfuRet.accepted], trivial⟩, by simp [DfuSystem.advance],
        h.goes hsafe (fun _ => hstored rfl) trivial hfull⟩
    · refine ⟨trivial, by simp [DfuSystem.advance], h.goes hsafe (fun _ => hstored rfl) ?_ hfull⟩
      by_cases h0 : call.blockNumber = 0
      · exact .inl h0
      · exact .inr (.inl (by_contra fun hn => hbad ⟨h0, hn⟩))
  | count =>
    simp only [loadStep] at hsafe ⊢
    split_ifs at hsafe ⊢ with hbad
    · exact ⟨⟨by simp [AcceptsInSequence, DfuRet.accepted], trivial⟩, by simp [DfuSystem.advance],
        h.goes hsafe (fun _ => hstored rfl) trivial hfull⟩
    · obtain ⟨hne, hcount⟩ := ha.resolve_left hbad
      exact ⟨trivial, by simp [DfuSystem.advance],
        h.goes hsafe (fun _ => hstored rfl) ((hstored rfl).inSequence hpc hbad hne hcount) hfull⟩
  | take =>
    simp only [loadStep] at hsafe ⊢
    split_ifs at hsafe ⊢ with hfree
    · exact ⟨trivial, by simp [DfuSystem.advance],
        h.goes hsafe (fun hn => absurd hn (by simp [CallerPc.holds, LoadPc.holds])) ⟨hpc, hstored rfl⟩ hfull⟩
    · exact ⟨⟨by simp [AcceptsInSequence, DfuRet.accepted], trivial⟩, by simp [DfuSystem.advance],
        h.goes hsafe (fun _ => hstored rfl) trivial hfull⟩
  | reset =>
    obtain ⟨hcall, hst⟩ := hpc
    simp only [loadStep] at hsafe ⊢
    split_ifs at hsafe ⊢ with h0
    · exact ⟨trivial, by simp [DfuSystem.advance],
        h.goes hsafe (fun hn => absurd hn (by simp [CallerPc.holds, LoadPc.holds])) ⟨hcall, rfl, .inr rfl⟩
          (fun _ => rfl)⟩
    · refine ⟨trivial, by simp [DfuSystem.advance],
        h.goes hsafe (fun hn => absurd hn (by simp [CallerPc.holds, LoadPc.holds]))
          ⟨hcall, hst.inProgress hcall h0, ?_⟩ hfull⟩
      obtain h1 | ⟨u', hu, -, hcount⟩ := hcall.2
      · exact absurd h1 h0
      · rcases hst with ⟨hz, -⟩ | ⟨hu', -, -⟩
        · exact .inl hz
        · rw [hu] at hu'
          obtain rfl := Option.some.inj hu'
          exact .inr hcount.symm
  | blockNumber =>
    exact ⟨trivial, by simp [DfuSystem.advance, loadStep],
      h.goes hsafe (fun hn => absurd hn (by simp [CallerPc.holds, LoadPc.holds]))
        ⟨⟨hpc.inSequence, hpc.state, hpc.count⟩, rfl⟩ hfull⟩
  | copy =>
    simp only [loadStep] at hsafe ⊢
    split_ifs at hsafe ⊢ with hroom
    · exact absurd ha (not_le.mpr hroom)
    · exact ⟨⟨trivial, trivial⟩, by simp [DfuSystem.advance],
        h.goes hsafe (fun hn => absurd hn (by simp [CallerPc.holds, LoadPc.holds]))
          ⟨⟨hpc.1.inSequence, hpc.1.state, hpc.1.count⟩, hpc.2⟩ hfull⟩
  | ctx | cb =>
    exact ⟨trivial, by simp [DfuSystem.advance, loadStep],
      h.goes hsafe (fun hn => absurd hn (by simp [CallerPc.holds, LoadPc.holds]))
        ⟨⟨hpc.1.inSequence, hpc.1.state, hpc.1.count⟩, hpc.2⟩ hfull⟩
  | queue =>
    have hnext := hpc.1.stored hpc.2
    simp only [loadStep] at hsafe ⊢
    split_ifs at hsafe ⊢
    · exact ⟨⟨fun _ => hpc.1.inSequence, trivial⟩, by simp [DfuSystem.advance],
        h.goes hsafe (fun _ => hnext) trivial (fun _ => hpc.1.state)⟩
    · exact ⟨⟨fun _ => hpc.1.inSequence, trivial⟩, by simp [DfuSystem.advance],
        h.goes hsafe (fun _ => hnext) trivial hfull⟩

theorem callerOrdered_congr {st st' : DfuState κ φ} (hn : st'.blockNumber = st.blockNumber)
    (hc : st'.blockCount = st.blockCount) (hs : st'.state = st.state) (h : CallerOrdered u st pc) :
    CallerOrdered u st' pc := by
  have hloading {call : LoadCall κ φ} (hl : Loading u st call) : Loading u st' call :=
    ⟨hl.inSequence, hs.trans hl.state, by rw [hc]; exact hl.count⟩
  cases pc with
  | idle => trivial
  | load call pc =>
    cases pc with
    | number => trivial
    | count =>
      simp only [CallerOrdered, LoadOrdered, hn, hc] at h ⊢
      exact h
    | take => exact h
    | reset => exact ⟨h.1, by rw [Stored, hn, hc, hs]; exact h.2⟩
    | blockNumber => exact hloading h
    | copy | ctx | cb | queue => exact ⟨hloading h.1, hn.trans h.2⟩
  | check call pc | activate pending => exact h

/-- Before its call has the semaphore, a caller remembers little of `dfu_state`. -/
theorem callerOrdered_outside {st st' : DfuState κ φ} (h : CallerOrdered u st pc) (hpc : pc.holds = false)
    (hn : st'.blockNumber = st.blockNumber ∧ st'.blockCount = st.blockCount ∨ st'.blockCount = 0) :
    CallerOrdered u st' pc := by
  cases pc with
  | idle => trivial
  | load call pc =>
    cases pc with
    | number => trivial
    | count =>
      rcases hn with ⟨hn, hc⟩ | hc
      · simp only [CallerOrdered, LoadOrdered, hn, hc] at h ⊢
        exact h
      · exact .inr (.inr hc)
    | take => exact h
    | _ => exact absurd hpc (by simp [CallerPc.holds, LoadPc.holds])
  | check call pc | activate pending => exact h

/-- The processing thread goes on without a change to the upload. -/
theorem OrderInv.consumes {consumer : ConsumerPc φ} (h : OrderInv b u s)
    (hsafe : SafeInv b { s with shared, consumer })
    (hn : shared.dfuState.blockNumber = s.shared.dfuState.blockNumber)
    (hc : shared.dfuState.blockCount = s.shared.dfuState.blockCount)
    (hs : shared.dfuState.state = s.shared.dfuState.state)
    (hfull : shared.full = true → s.shared.full = true) (hconsumer : consumer.Blocks) :
    OrderInv b u { s with shared, consumer } :=
  ⟨hsafe, by simp only [Stored, hn, hc, hs]; exact h.stored, callerOrdered_congr hn hc hs h.caller,
    by simp only [hs]; exact fun hf => h.full (hfull hf), hconsumer⟩

/-- The processing thread ends the upload, or completes it. -/
theorem OrderInv.consumes_inside {consumer : ConsumerPc φ} (h : OrderInv b u s)
    (hsafe : SafeInv b { s with shared, consumer }) (hin : s.consumer.holds = true)
    (hstored : Stored u shared.dfuState)
    (hn : shared.dfuState.blockNumber = s.shared.dfuState.blockNumber ∧
      shared.dfuState.blockCount = s.shared.dfuState.blockCount ∨ shared.dfuState.blockCount = 0)
    (hfull : shared.full = s.shared.full) (hconsumer : consumer.Blocks) :
    OrderInv b u { s with shared, consumer } := by
  obtain ⟨o, ho⟩ := h.safe.owned
  obtain ⟨hcaller, hnot⟩ := caller_outside ho hin ()
  refine ⟨hsafe, fun _ => hstored, callerOrdered_outside h.caller hcaller hn, fun hf => ?_, hconsumer⟩
  have hf : shared.full = true := hf
  rw [hfull, hnot] at hf
  contradiction

theorem OrderInv.consume_step (h : OrderInv b u s) (outcome : RetCode) :
    KeepsOrder b u (dfuStep b s (.consume outcome)) := by
  have hsafe := (h.safe.step (a := .consume outcome) trivial).1
  have hcount := h.safe.consumer
  have hconsumer := h.consumer
  simp only [dfuStep] at hsafe ⊢
  cases hc : s.consumer with
  | waiting =>
    rw [hc] at hsafe
    simp only [consumerStep] at hsafe ⊢
    split_ifs at hsafe ⊢ with hf
    · refine ⟨trivial, by simp, h.consumes hsafe rfl rfl rfl (by simp) ?_⟩
      rw [h.full hf]
      trivial
    · exact ⟨trivial, by simp, h.consumes hsafe rfl rfl rfl id trivial⟩
  | openArea =>
    rw [hc] at hsafe
    simp only [consumerStep] at hsafe ⊢
    split_ifs at hsafe ⊢ <;> exact ⟨trivial, by simp, h.consumes hsafe rfl rfl rfl id trivial⟩
  | checkSize =>
    rw [hc] at hsafe
    simp only [consumerStep] at hsafe ⊢
    split_ifs at hsafe ⊢
    · exact ⟨trivial, by simp,
        h.consumes_inside hsafe (by rw [hc]; rfl) (.inl ⟨rfl, rfl⟩) (.inr rfl) rfl trivial⟩
    · exact ⟨trivial, by simp, h.consumes hsafe rfl rfl rfl id trivial⟩
  | prepare =>
    rw [hc] at hsafe hcount
    have hstored := h.stored
    simp only [consumerStep] at hsafe ⊢
    split at hsafe
    · rename_i hlast
      rw [if_pos hlast]
      have hlast : s.shared.dfuState.blockNumber = s.shared.dfuState.blockCount-1 := by
        simpa [lastBlock] using hlast
      have hin : s.consumer.holds = true := by
        rw [hc]
        rfl
      obtain ⟨o, ho⟩ := h.safe.owned
      obtain ⟨h0, -⟩ | ⟨hu, hlt, -⟩ := h.stored (caller_outside ho hin ()).1
      · exact absurd h0 hcount
      · have hnew := h.consumes_inside hsafe hin (.inr ⟨hu, hlt, fun _ => hlast⟩) (.inl ⟨rfl, rfl⟩) rfl trivial
        dsimp only
        split_ifs
        · exact ⟨⟨trivial, trivial⟩, by simp, hnew⟩
        · exact ⟨trivial, by simp, hnew⟩
    · rename_i hlast
      rw [if_neg hlast]
      exact ⟨trivial, by simp, h.consumes hsafe rfl rfl rfl id trivial⟩
  | erase len =>
    rw [hc] at hsafe
    cases hsec : sectorToErase b s.shared.dfuState.flashOffset len with
    | none =>
      simp only [consumerStep, hsec] at hsafe ⊢
      exact ⟨trivial, by simp, h.consumes hsafe rfl rfl rfl id trivial⟩
    | some off =>
      simp only [consumerStep, hsec] at hsafe ⊢
      refine ⟨⟨trivial, trivial⟩, by simp, h.consumes hsafe rfl rfl rfl id ?_⟩
      split <;> trivial
  | write len =>
    rw [hc] at hsafe
    simp only [consumerStep] at hsafe ⊢
    refine ⟨⟨trivial, trivial, trivial⟩, by simp, h.consumes hsafe rfl rfl rfl id ?_⟩
    split <;> trivial
  | shift len =>
    rw [hc] at hsafe
    simp only [consumerStep] at hsafe ⊢
    split_ifs at hsafe ⊢
    · exact ⟨⟨trivial, trivial⟩, by simp, h.consumes hsafe rfl rfl rfl id trivial⟩
    · exact ⟨trivial, by simp, h.consumes hsafe rfl rfl rfl id trivial⟩
  | verify =>
    rw [hc] at hconsumer
    exact hconsumer.elim
  | give round err =>
    cases round with
    | blocks =>
      rw [hc] at hsafe
      exact ⟨⟨trivial, trivial⟩, by simp [consumerStep], h.consumes hsafe rfl rfl rfl id trivial⟩
    | verify =>
      rw [hc] at hconsumer
      exact hconsumer.elim
  | testCb err =>
    rw [hc] at hsafe
    simp only [consumerStep] at hsafe ⊢
    split at hsafe <;> exact ⟨trivial, by simp, h.consumes hsafe rfl rfl rfl id trivial⟩
  | callCb cb err =>
    rw [hc] at hsafe
    exact ⟨⟨trivial, trivial⟩, by simp [consumerStep], h.consumes hsafe rfl rfl rfl id trivial⟩

theorem OrderInv.step (h : OrderInv b u s) {a : Action Unit κ φ} (ha : OrderedAction b s a) :
    KeepsOrder b u (dfuStep b s a) := by
  have hsafe := (h.safe.step (h.safeAction ha)).1
  cases a with
  | call i call =>
    cases call with
    | load call =>
      cases hi : s.callers () with
      | idle =>
        have hstored := h.stored
        rw [hi] at hstored
        simp only [dfuStep, hi] at hsafe ⊢
        exact ⟨⟨trivial, trivial⟩, by simp, h.goes hsafe (fun _ => hstored rfl) trivial h.full⟩
      | load | check | activate =>
        simp only [dfuStep, hi]
        exact ⟨trivial, by simp, h⟩
    | check call | activate pending => exact ha.elim
  | run i =>
    cases hi : s.callers () with
    | idle =>
      simp only [dfuStep, hi]
      exact ⟨trivial, by simp, h⟩
    | load call pc => exact h.load_step hi ha
    | check call pc | activate pending =>
      have hcaller := h.caller
      rw [hi] at hcaller
      exact hcaller.elim
  | timeout i => exact ha.elim
  | consume outcome => exact h.consume_step outcome

theorem orderInv_start (b : Build) (m : Nor.Mem) : OrderInv b none (DfuSystem.start m : DfuSystem Unit κ φ) :=
  ⟨safeInv_start b m, fun _ => .inl ⟨rfl, rfl⟩, trivial, fun _ => rfl, trivial⟩

/-- From power-up, one thread loading, whichever flash access fails: every accepted block is block 0 or the
next one of its upload, no image is checked, and only blocks in sequence reach the buffer, as long as a block
that passes the checks is below its count and has the stored count, and one to be copied finds room. -/
theorem accepted_blocks_in_sequence (b : Build) (m : Nor.Mem) (actions : List (Action Unit κ φ))
    (h : Machine.Meets (dfuStep b) (OrderedAction b) (.start m) actions) :
    let tr := Machine.events (dfuStep b) (.start m) actions
    Machine.Meets uploadStep AcceptsInSequence none tr ∧ (∀ err, .processed .verify err ∉ tr) ∧
      ∀ call, (Machine.run (dfuStep b) (.start m) actions).2.callers () = .load call .copy →
        InSequence (Machine.run uploadStep none tr).2 call := by
  have hstep (tr : List (Event Unit κ φ)) (s : DfuSystem Unit κ φ) (a : Action Unit κ φ)
      (hs : Machine.Meets uploadStep AcceptsInSequence none tr ∧ (∀ err, .processed .verify err ∉ tr) ∧
        OrderInv b (Machine.run uploadStep none tr).2 s) (ha : OrderedAction b s a) :
      Machine.Meets uploadStep AcceptsInSequence none (tr ++ (dfuStep b s a).1) ∧
        (∀ err, .processed .verify err ∉ tr ++ (dfuStep b s a).1) ∧
        OrderInv b (Machine.run uploadStep none (tr ++ (dfuStep b s a).1)).2 (dfuStep b s a).2 := by
    obtain ⟨hmeets, hverify, hinv⟩ := hs
    obtain ⟨hmeets', hverify', hinv'⟩ := hinv.step ha
    refine ⟨Machine.meets_append.mpr ⟨hmeets, hmeets'⟩, fun err hm => ?_, ?_⟩
    · cases List.mem_append.mp hm with
      | inl hold => exact hverify err hold
      | inr hnew => exact hverify' err hnew
    · rw [Machine.run_append]
      exact hinv'
  obtain ⟨hmeets, hverify, hinv⟩ := Machine.events_invariant
    (I := fun tr s => Machine.Meets uploadStep AcceptsInSequence none tr ∧ (∀ err, .processed .verify err ∉ tr) ∧
      OrderInv b (Machine.run uploadStep none tr).2 s) hstep [] _ actions
    ⟨trivial, by simp, orderInv_start b m⟩ h
  refine ⟨hmeets, hverify, fun call hi => ?_⟩
  have hcaller := hinv.caller
  rw [hi] at hcaller
  exact hcaller.1.inSequence

/-- An upload of two blocks, and a third call that is refused. -/
theorem accepted_blocks_in_sequence_pearl :
    let actions : List (Action Unit Unit Unit) := wholeLoad ⟨0, 2, [1, 2, 3], none, none⟩ ++
      wholeLoad ⟨1, 2, [4], none, none⟩ ++ List.replicate 10 (.consume .success) ++
      wholeLoad ⟨5, 7, [6], none, none⟩
    let tr := Machine.events (dfuStep (.of .pearl)) (.start fun _ => 0xff) actions
    Machine.Meets uploadStep AcceptsInSequence none tr ∧ (∀ err, .processed .verify err ∉ tr) ∧
      ∀ call, (Machine.run (dfuStep (.of .pearl)) (.start fun _ => 0xff) actions).2.callers () =
        .load call .copy → InSequence (Machine.run uploadStep none tr).2 call :=
  accepted_blocks_in_sequence (.of .pearl) (fun _ => 0xff) _ (by decide +kernel)

/-- On Pearl, behind the last block of an upload of two, a block 2 of 2 is accepted. -/
theorem block_behind_last_accepted :
    ¬ ∀ (b : Build) (m : Nor.Mem) (actions : List (Action Unit Unit Unit)), (∀ a ∈ actions, LoadsOnly a) →
      Machine.Meets uploadStep AcceptsInSequence none (Machine.events (dfuStep b) (.start m) actions) := by
  intro h
  have hrun := h (.of .pearl) (fun _ => 0xff) (wholeLoad ⟨0, 2, [1], none, none⟩ ++
    wholeLoad ⟨1, 2, [2], none, none⟩ ++ List.replicate 10 (.consume .success) ++
    wholeLoad ⟨2, 2, [3], none, none⟩) (by decide +kernel)
  revert hrun
  decide +kernel

end OrbFirmware.Dfu

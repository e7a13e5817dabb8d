import OrbFirmware.Dfu.Sequencing

/-! The errors of `dfu_load`: the call has left `dfu_state` as it was, unless it took the semaphore for a block that
has no room. The number of that block is stored by then. -/
namespace OrbFirmware.Dfu
variable {ι κ φ : Type*} [DecidableEq ι] {b : Build}

/-- The threads whose call has changed `dfu_state` in one of its own steps. -/
def touch (b : Build) (touched : ι → Prop) (s : DfuSystem ι κ φ) : Action ι κ φ → ι → Prop
  | .call i _ =>
    match s.callers i with
    | .idle => Function.update touched i False
    | _ => touched
  | .run i =>
    Function.update touched i
      (touched i ∨ (dfuStep b s (.run i)).2.shared.dfuState ≠ s.shared.dfuState)
  | .timeout _ | .consume _ => touched

/-- The system with that history. -/
def touchStep (b : Build) (ts : (ι → Prop) × DfuSystem ι κ φ) (a : Action ι κ φ) :
    List (Event ι κ φ) × (ι → Prop) × DfuSystem ι κ φ :=
  ((dfuStep b ts.2 a).1, touch b ts.1 ts.2 a, (dfuStep b ts.2 a).2)

/-- A `dfu_load` that returns an error in this step has not changed `dfu_state`. -/
def ErrorKeepsState (b : Build) (ts : (ι → Prop) × DfuSystem ι κ φ) (a : Action ι κ φ) : Prop :=
  ∀ i call ret, .returned i (.load call) ret ∈ (dfuStep b ts.2 a).1 → ret.accepted = false →
    ¬touch b ts.1 ts.2 a i

/-- A block about to be copied finds room. -/
def FindsRoom (b : Build) (s : DfuSystem ι κ φ) : Action ι κ φ → Prop
  | .run i =>
    match s.callers i with
    | .load call .copy => s.shared.dfuState.wrIdx+call.data.length ≤ b.dfuBlocksBufferSize
    | _ => True
  | _ => True

instance (s : DfuSystem ι κ φ) (a : Action ι κ φ) : Decidable (FindsRoom b s a) := by
  delta FindsRoom
  rcases a with _ | i | _ | _ <;> dsimp only
  · infer_instance
  · generalize s.callers i = pc
    rcases pc with _ | ⟨_, at'⟩ | _ | _
    · exact isTrue trivial
    · rcases at' <;> dsimp only <;> infer_instance
    · exact isTrue trivial
    · exact isTrue trivial
  · infer_instance
  · infer_instance

/-- The steps of a call that come before its first store to `dfu_state`. -/
def CallerPc.beforeStore : CallerPc κ φ → Bool
  | .load _ .number | .load _ .count | .load _ .take | .load _ .reset => true
  | .check _ .take | .check _ .state => true
  | _ => false

/-- A call before its first store has changed nothing. -/
def TouchInv (ts : (ι → Prop) × DfuSystem ι κ φ) : Prop :=
  ∀ i, (ts.2.callers i).beforeStore = true → ¬ts.1 i

variable {touched : ι → Prop} {s : DfuSystem ι κ φ}

theorem touch_other {a : Action ι κ φ} {i j : ι} (h : j ≠ i)
    (ha : a = .run i ∨ ∃ call, a = .call i call) : touch b touched s a j = touched j := by
  obtain rfl | ⟨call, rfl⟩ := ha
  · simp [touch, h]
  · cases hi : s.callers i with
    | idle => simp [touch, hi, h]
    | load | check | activate => simp [touch, hi]

theorem touch_run {i : ι} : touch b touched s (.run i) i ↔
    touched i ∨ (dfuStep b s (.run i)).2.shared.dfuState ≠ s.shared.dfuState := by
  simp [touch]

theorem advance_other {π : Type*} {i j : ι} (h : j ≠ i) (call : DfuCall κ φ) (resume : π → CallerPc κ φ)
    (r : List (Event ι κ φ) × Shared κ φ × Next π) : (s.advance i call resume r).2.callers j = s.callers j := by
  obtain ⟨events, shared, next⟩ := r
  cases next <;> exact DfuSystem.goes_other _ _ _ _ h

theorem run_other {i j : ι} (h : j ≠ i) : (dfuStep b s (.run i)).2.callers j = s.callers j := by
  simp only [dfuStep]
  cases s.callers i with
  | idle => rfl
  | load call pc => exact advance_other h _ _ _
  | check call pc => exact advance_other h _ _ _
  | activate pending => exact DfuSystem.goes_other _ _ _ _ h

/-- Giving up changes nothing. -/
theorem timeout_same (b : Build) (s : DfuSystem ι κ φ) (i j : ι) :
    (dfuStep b s (.timeout i)).2.shared = s.shared ∧ (dfuStep b s (.timeout i)).2.consumer = s.consumer ∧
      ((dfuStep b s (.timeout i)).2.callers j = s.callers j ∨
        (dfuStep b s (.timeout i)).2.callers j = .idle) := by
  simp only [dfuStep]
  split
  · split
    · exact ⟨rfl, rfl, .inl rfl⟩
    · refine ⟨rfl, rfl, ?_⟩
      by_cases hji : j = i
      · subst hji
        exact .inr (DfuSystem.goes_same _ _ _ _)
      · exact .inl (DfuSystem.goes_other _ _ _ _ hji)
  · exact ⟨rfl, rfl, .inl rfl⟩

/-- A step after which the call has stored nothing yet is not a store. -/
theorem run_beforeStore {i : ι} (h : ((dfuStep b s (.run i)).2.callers i).beforeStore = true) :
    (s.callers i).beforeStore = true ∧ (dfuStep b s (.run i)).2.shared.dfuState = s.shared.dfuState := by
  cases hi : s.callers i with
  | idle =>
    simp only [dfuStep, hi] at h
    exact absurd h (by simp [CallerPc.beforeStore])
  | load call pc =>
    simp only [dfuStep, hi] at h ⊢
    cases pc with
    | number | count | take | reset =>
      refine ⟨rfl, ?_⟩
      simp only [loadStep] at h ⊢
      split_ifs at h ⊢ <;> first | rfl | exact absurd h (by simp [DfuSystem.advance, CallerPc.beforeStore])
    | blockNumber | ctx | cb =>
      exact absurd h (by simp [DfuSystem.advance, loadStep, CallerPc.beforeStore])
    | copy | queue =>
      simp only [loadStep] at h
      split_ifs at h <;> exact absurd h (by simp [DfuSystem.advance, CallerPc.beforeStore])
  | check call pc =>
    simp only [dfuStep, hi] at h ⊢
    cases pc with
    | take | state =>
      refine ⟨rfl, ?_⟩
      simp only [checkStep]
      split <;> rfl
    | ctx | cb | crc => exact absurd h (by simp [DfuSystem.advance, checkStep, CallerPc.beforeStore])
  | activate pending =>
    simp only [dfuStep, hi] at h
    exact absurd h (by simp [CallerPc.beforeStore])

theorem TouchInv.step (h : TouchInv (touched, s)) (a : Action ι κ φ) : TouchInv (touchStep b (touched, s) a).2 := by
  intro j hj
  cases a with
  | call i call =>
    by_cases hji : j = i
    · subst hji
      cases hi : s.callers j with
      | idle => simp [touchStep, touch, hi]
      | load | check | activate =>
        have hsame : (dfuStep b s (.call j call)).2 = s := by simp only [dfuStep, hi]
        simp only [touchStep, hsame] at hj
        simpa only [touchStep, touch, hi] using h j hj
    · simp only [touchStep, touch_other hji (.inr ⟨call, rfl⟩)]
      refine h j ?_
      cases hi : s.callers i with
      | idle =>
        simp only [touchStep, dfuStep, hi, DfuSystem.goes_other _ _ _ _ hji] at hj
        exact hj
      | load | check | activate =>
        simp only [touchStep, dfuStep, hi] at hj
        exact hj
  | run i =>
    by_cases hji : j = i
    · subst hji
      obtain ⟨hbefore, hsame⟩ := run_beforeStore hj
      simp only [touchStep, touch_run, hsame]
      simpa using h j hbefore
    · simp only [touchStep, touch_other hji (.inl rfl)]
      refine h j ?_
      simp only [touchStep, run_other hji] at hj
      exact hj
  | timeout i =>
    obtain ⟨-, -, hcaller | hcaller⟩ := timeout_same b s i j
    · exact h j (by rw [← hcaller]; exact hj)
    · simp only [touchStep, hcaller] at hj
      exact absurd hj (by simp [CallerPc.beforeStore])
  | consume outcome => exact h j hj

omit [DecidableEq ι] in
theorem touchInv_start (m : Nor.Mem) :
    TouchInv (fun _ => False, (DfuSystem.start m : DfuSystem ι κ φ)) := fun _ _ h => h

/-- The call a thread is in. -/
def CallerPc.current : CallerPc κ φ → Option (DfuCall κ φ)
  | .idle => none
  | .load call _ => some (.load call)
  | .check call _ => some (.check call)
  | .activate pending => some (.activate pending)

/-- Only a step of its own ends a call. -/
theorem returned_call {a : Action ι κ φ} {i : ι} {call : DfuCall κ φ} {ret : DfuRet}
    (h : .returned i call ret ∈ (dfuStep b s a).1) :
    (a = .run i ∨ a = .timeout i) ∧ (s.callers i).current = some call := by
  cases a with
  | call j other =>
    simp only [dfuStep] at h
    split at h <;> simp at h
  | run j =>
    cases hj : s.callers j with
    | idle => simp [dfuStep, hj] at h
    | load other pc =>
      rcases load_run_cases (b := b) hj with ⟨_, -, -, -, hevs⟩ | ⟨code, hevs, -⟩ | ⟨-, hevs, -⟩
      · exact absurd (hevs _ h) (by simp [Event.internal])
      · rw [hevs, List.mem_singleton, Event.returned.injEq] at h
        obtain ⟨rfl, rfl, -⟩ := h
        exact ⟨.inl rfl, by rw [hj]; rfl⟩
      · rw [hevs, List.mem_singleton, Event.returned.injEq] at h
        obtain ⟨rfl, rfl, -⟩ := h
        exact ⟨.inl rfl, by rw [hj]; rfl⟩
    | check other pc =>
      rcases hr : checkStep s.shared other pc with ⟨shared, pc' | ret'⟩
      · simp [dfuStep, hj, hr, DfuSystem.advance] at h
      · simp only [dfuStep, hj, hr, DfuSystem.advance, List.nil_append, List.mem_singleton, Event.returned.injEq] at h
        obtain ⟨rfl, rfl, -⟩ := h
        exact ⟨.inl rfl, by rw [hj]; rfl⟩
    | activate pending =>
      simp only [dfuStep, hj, List.mem_singleton, Event.returned.injEq] at h
      obtain ⟨rfl, rfl, -⟩ := h
      exact ⟨.inl rfl, by rw [hj]; rfl⟩
  | timeout j =>
    simp only [dfuStep] at h
    split at h
    · rename_i hj
      split_ifs at h
      · simp at h
      · rw [List.mem_singleton, Event.returned.injEq] at h
        obtain ⟨rfl, rfl, -⟩ := h
        exact ⟨.inr rfl, by rw [hj]; rfl⟩
    · simp at h
  | consume outcome =>
    obtain ⟨hcons, -⟩ := consume_cases b s outcome
    generalize dfuStep b s (.consume outcome) = r at h hcons
    obtain ⟨evs, s'⟩ := r
    cases hcons with
    | works hin hgive hin' hfull hevs => exact absurd (hevs _ h) (by simp [Event.internal])
    | rests | takes | gives | reads | skips | calls => simp at h

theorem returned_load {a : Action ι κ φ} {i : ι} {call : LoadCall κ φ} {ret : DfuRet}
    (h : .returned i (.load call) ret ∈ (dfuStep b s a).1) : a = .run i ∧ ∃ pc, s.callers i = .load call pc := by
  obtain ⟨ha, hi⟩ := returned_call h
  have hpc : ∃ pc, s.callers i = .load call pc := by
    cases hc : s.callers i <;> simp [hc, CallerPc.current] at hi
    subst hi
    exact ⟨_, rfl⟩
  rcases ha with rfl | rfl
  · exact ⟨rfl, hpc⟩
  · obtain ⟨pc, hc⟩ := hpc
    simp [dfuStep, hc] at h

/-- Where the block finds room, an error comes before the first store. -/
theorem load_error {i : ι} {call : LoadCall κ φ} {pc : LoadPc} {ret : DfuRet} (hi : s.callers i = .load call pc)
    (hret : .returned i (.load call) ret ∈ (dfuStep b s (.run i)).1) (herr : ret.accepted = false)
    (hroom : FindsRoom b s (.run i)) :
    (s.callers i).beforeStore = true ∧ (dfuStep b s (.run i)).2.shared.dfuState = s.shared.dfuState := by
  simp only [FindsRoom, hi] at hroom
  simp only [dfuStep, hi] at hret ⊢
  cases pc with
  | number | count | take =>
    refine ⟨rfl, ?_⟩
    simp only [loadStep]
    split <;> rfl
  | reset =>
    simp only [loadStep] at hret
    split_ifs at hret <;> simp [DfuSystem.advance] at hret
  | blockNumber | ctx | cb => simp [DfuSystem.advance, loadStep] at hret
  | copy =>
    simp [loadStep, if_neg (not_lt.mpr hroom), DfuSystem.advance] at hret
  | queue =>
    simp only [loadStep] at hret
    split_ifs at hret
    · simp only [DfuSystem.advance, List.nil_append, List.mem_singleton, Event.returned.injEq, true_and] at hret
      rw [hret] at herr
      exact absurd herr (by simp [DfuRet.accepted])
    · simp only [DfuSystem.advance, List.nil_append, List.mem_singleton, Event.returned.injEq, true_and] at hret
      rw [hret] at herr
      exact absurd herr (by simp [DfuRet.accepted])

theorem TouchInv.errorKeepsState (h : TouchInv (touched, s)) {a : Action ι κ φ} (ha : FindsRoom b s a) :
    ErrorKeepsState b (touched, s) a := by
  intro i call ret hret herr
  obtain ⟨rfl, pc, hi⟩ := returned_load hret
  obtain ⟨hbefore, hsame⟩ := load_error hi hret herr ha
  simp only [touch_run, hsame]
  simpa using h i hbefore

/-! With one thread that calls, only a block without room breaks this. -/

/-- `dfu_state.wr_idx` and `dfu_state.block_number` behind a call. Where the number is not the stored one any more, the
processing thread has cleared the state. -/
def NumberAt (b : Build) (touched : Prop) (st : DfuState κ φ) (call : LoadCall κ φ) : LoadPc → Prop
  | .count => call.blockNumber ≠ 0 → call.blockNumber = st.blockNumber+1 ∨ st.wrIdx = 0
  | .take | .reset => call.data.length ≤ b.dfuBlocksBufferSize ∧
      (call.blockNumber ≠ 0 → call.blockNumber = st.blockNumber+1 ∨ st.wrIdx = 0)
  | .blockNumber => call.data.length ≤ b.dfuBlocksBufferSize ∧
      (call.blockNumber = st.blockNumber+1 ∨ st.wrIdx = 0)
  | .copy => call.data.length ≤ b.dfuBlocksBufferSize ∧ (touched ∨ st.wrIdx = 0)
  | .number | .ctx | .cb | .queue => True

/-- What the processing thread does to `dfu_state`, outside of its part nothing. -/
theorem consume_dfuState (b : Build) (s : DfuSystem ι κ φ) (outcome : RetCode) :
    let st := (dfuStep b s (.consume outcome)).2.shared.dfuState
    (s.consumer.holds = false → st = s.shared.dfuState) ∧
      (st.blockNumber = s.shared.dfuState.blockNumber ∧ (s.shared.dfuState.wrIdx = 0 → st.wrIdx = 0) ∨
        st.wrIdx = 0) := by
  simp only [dfuStep]
  cases hc : s.consumer with
  | waiting | openArea | testCb =>
    simp only [consumerStep]
    split <;> exact ⟨fun _ => rfl, .inl ⟨rfl, id⟩⟩
  | checkSize =>
    refine ⟨fun h => absurd h (by simp [ConsumerPc.holds]), ?_⟩
    simp only [consumerStep]
    split
    · exact .inr rfl
    · exact .inl ⟨rfl, id⟩
  | prepare =>
    refine ⟨fun h => absurd h (by simp [ConsumerPc.holds]), ?_⟩
    simp only [consumerStep]
    split <;> exact .inl ⟨rfl, id⟩
  | erase len =>
    simp only [consumerStep]
    split <;> exact ⟨fun _ => rfl, .inl ⟨rfl, id⟩⟩
  | shift len =>
    refine ⟨fun h => absurd h (by simp [ConsumerPc.holds]), ?_⟩
    simp only [consumerStep]
    split
    · refine .inl ⟨rfl, fun h => ?_⟩
      simp only [h, Nat.zero_sub]
    · exact .inr rfl
  | write | verify | give | callCb => exact ⟨fun _ => rfl, .inl ⟨rfl, id⟩⟩

structure NumberInv (b : Build) (ts : (ι → Prop) × DfuSystem ι κ φ) : Prop where
  owned : ∃ o, Owned ts.2 o
  number : ∀ i call pc, ts.2.callers i = .load call pc → NumberAt b (ts.1 i) ts.2.shared.dfuState call pc

variable {i : ι} {call : LoadCall κ φ} {pc : LoadPc}

/-- A step of a `dfu_load` that goes on. -/
theorem NumberInv.load_step (h : NumberInv b (touched, s)) (hi : s.callers i = .load call pc) {call' : LoadCall κ φ}
    {pc' : LoadPc} (hi' : (dfuStep b s (.run i)).2.callers i = .load call' pc') :
    NumberAt b (touch b touched s (.run i) i) (dfuStep b s (.run i)).2.shared.dfuState call' pc' := by
  have hat := h.number i call pc hi
  rw [touch_run]
  simp only [dfuStep, hi] at hi' ⊢
  cases pc with
  | number =>
    simp only [loadStep] at hi' ⊢
    split_ifs at hi' ⊢ with hbad
    · simp [DfuSystem.advance] at hi'
    · simp only [DfuSystem.advance, DfuSystem.goes_same, CallerPc.load.injEq] at hi'
      obtain ⟨rfl, rfl⟩ := hi'
      intro h0
      exact .inl (by_contra fun hn => hbad ⟨h0, hn⟩)
  | count =>
    simp only [loadStep] at hi' ⊢
    split_ifs at hi' ⊢ with hbad
    · simp [DfuSystem.advance] at hi'
    · simp only [DfuSystem.advance, DfuSystem.goes_same, CallerPc.load.injEq] at hi'
      obtain ⟨rfl, rfl⟩ := hi'
      obtain ⟨-, -, hsize, -⟩ : ¬_ ∧ ¬_ ∧ ¬_ ∧ ¬_ := by simpa only [not_or] using hbad
      exact ⟨not_lt.mp hsize, hat⟩
  | take =>
    simp only [loadStep] at hi' ⊢
    split_ifs at hi' ⊢
    · simp only [DfuSystem.advance, DfuSystem.goes_same, CallerPc.load.injEq] at hi'
      obtain ⟨rfl, rfl⟩ := hi'
      exact hat
    · simp [DfuSystem.advance] at hi'
  | reset =>
    simp only [loadStep] at hi' ⊢
    split_ifs at hi' ⊢ with h0
    · simp only [DfuSystem.advance, DfuSystem.goes_same, CallerPc.load.injEq] at hi'
      obtain ⟨rfl, rfl⟩ := hi'
      exact ⟨hat.1, .inr rfl⟩
    · simp only [DfuSystem.advance, DfuSystem.goes_same, CallerPc.load.injEq] at hi'
      obtain ⟨rfl, rfl⟩ := hi'
      exact ⟨hat.1, hat.2 h0⟩
  | blockNumber =>
    simp only [DfuSystem.advance, loadStep, DfuSystem.goes_same, CallerPc.load.injEq] at hi' ⊢
    obtain ⟨rfl, rfl⟩ := hi'
    refine ⟨hat.1, hat.2.imp (fun hnext => .inr fun hsame => ?_) id⟩
    have hnumber := congrArg DfuState.blockNumber hsame
    simp only [DfuSystem.goes_shared] at hnumber
    rw [hnext] at hnumber
    exact absurd hnumber (by simp)
  | copy =>
    simp only [loadStep] at hi' ⊢
    split_ifs at hi' ⊢
    · simp [DfuSystem.advance] at hi'
    · simp only [DfuSystem.advance, DfuSystem.goes_same, CallerPc.load.injEq] at hi'
      obtain ⟨rfl, rfl⟩ := hi'
      trivial
  | ctx | cb =>
    simp only [DfuSystem.advance, loadStep, DfuSystem.goes_same, CallerPc.load.injEq] at hi'
    obtain ⟨rfl, rfl⟩ := hi'
    trivial
  | queue =>
    simp only [loadStep] at hi'
    split_ifs at hi' <;> simp [DfuSystem.advance] at hi'

/-- The processing thread goes on beside the call. -/
theorem NumberAt.consume {t : Prop} {st' : DfuState κ φ} {st : DfuState κ φ} (h : NumberAt b t st call pc)
    (hsame : pc.holds = true → st' = st)
    (hst : st'.blockNumber = st.blockNumber ∧ (st.wrIdx = 0 → st'.wrIdx = 0) ∨ st'.wrIdx = 0) :
    NumberAt b t st' call pc := by
  have hnext (hn : call.blockNumber ≠ 0 → call.blockNumber = st.blockNumber+1 ∨ st.wrIdx = 0) :
      call.blockNumber ≠ 0 → call.blockNumber = st'.blockNumber+1 ∨ st'.wrIdx = 0 := by
    intro h0
    rcases hst with ⟨hb, hw⟩ | hw
    · rw [hb]
      exact (hn h0).imp_right hw
    · exact .inr hw
  cases pc with
  | number => trivial
  | count => exact hnext h
  | take => exact ⟨h.1, hnext h.2⟩
  | reset | blockNumber | copy | ctx | cb | queue =>
    rw [hsame rfl]
    exact h

theorem NumberInv.step [Subsingleton ι] (h : NumberInv b (touched, s)) (a : Action ι κ φ) :
    NumberInv b (touchStep b (touched, s) a).2 := by
  refine ⟨owned_step b s a h.owned, fun j call pc hj => ?_⟩
  cases a with
  | call i other =>
    obtain rfl := Subsingleton.elim j i
    cases hi : s.callers j with
    | idle =>
      simp only [touchStep, dfuStep, hi, DfuSystem.goes_same] at hj
      cases other with
      | load other =>
        simp only [entry, CallerPc.load.injEq] at hj
        obtain ⟨rfl, rfl⟩ := hj
        trivial
      | check other | activate other => simp [entry] at hj
    | load | check | activate =>
      have hsame : (dfuStep b s (.call j other)).2 = s := by simp only [dfuStep, hi]
      simp only [touchStep, hsame] at hj ⊢
      simpa only [touch, hi] using h.number j call pc hj
  | run i =>
    obtain rfl := Subsingleton.elim j i
    cases hi : s.callers j with
    | idle =>
      simp only [touchStep, dfuStep, hi] at hj
      exact absurd hj (by simp)
    | load other at' => exact h.load_step hi hj
    | check other at' =>
      simp only [touchStep, dfuStep, hi] at hj
      rcases hr : checkStep s.shared other at' with ⟨shared, pc' | ret'⟩ <;> simp [hr, DfuSystem.advance] at hj
    | activate pending => simp [touchStep, dfuStep, hi] at hj
  | timeout i =>
    obtain ⟨hshared, -, hcaller | hcaller⟩ := timeout_same b s i j
    · simp only [touchStep, touch, hshared]
      exact h.number j call pc (hcaller.symm.trans hj)
    · exact absurd (hcaller.symm.trans hj) (by simp)
  | consume outcome =>
    obtain ⟨hout, hst⟩ := consume_dfuState b s outcome
    refine (h.number j call pc hj).consume (fun hpc => hout ?_) hst
    obtain ⟨o, ho⟩ := h.owned
    have hj : s.callers j = .load call pc := hj
    exact (consumer_outside ho (i := j) (by rw [hj]; exact hpc)).1

/-- Without room, the block has changed its number. -/
theorem NumberInv.findsRoom (h : NumberInv b (touched, s)) {a : Action ι κ φ}
    (ha : ErrorKeepsState b (touched, s) a) : FindsRoom b s a := by
  cases a with
  | run i =>
    simp only [FindsRoom]
    split
    · rename_i call hi
      by_contra hroom
      obtain ⟨hlen, ht⟩ := h.number i call .copy hi
      have hret : .returned i (.load call) (.code .noMem) ∈ (dfuStep b s (.run i)).1 := by
        simp [dfuStep, hi, loadStep, if_pos (not_le.mp hroom), DfuSystem.advance]
      have hkeeps := ha i call _ hret rfl
      rw [touch_run, not_or] at hkeeps
      have hw := ht.resolve_left hkeeps.1
      rw [hw] at hroom
      omega
    · trivial
  | call | timeout | consume => trivial

omit [DecidableEq ι] in
theorem numberInv_start (b : Build) (m : Nor.Mem) :
    NumberInv b (fun _ => False, (DfuSystem.start m : DfuSystem ι κ φ)) :=
  ⟨⟨_, owned_start m⟩, fun i call pc hi => by simp [DfuSystem.start] at hi⟩

theorem meets_findsRoom [Subsingleton ι] (b : Build) (m : Nor.Mem) (actions : List (Action ι κ φ))
    (h : Machine.Meets (touchStep b) (ErrorKeepsState b) (fun _ => False, .start m) actions) :
    Machine.Meets (dfuStep b) (FindsRoom b) (.start m) actions := by
  have hroom := Machine.meets_mono (Q := fun ts a => FindsRoom b ts.2 a) (I := NumberInv b)
    (fun ts a hts _ => hts.step a) (fun ts a hts => hts.findsRoom) _ actions (numberInv_start b m) h
  exact (Machine.meets_comap (f := Prod.snd) (fun _ _ => rfl) _ actions).mp hroom

/-- From power-up, any threads calling and whichever flash access fails: no call of `dfu_load` that returns an error
has changed `dfu_state`, if every block that is about to be copied finds room. With one calling thread, only
then. -/
theorem dfu_load_atomic_iff (b : Build) (m : Nor.Mem) (actions : List (Action ι κ φ)) :
    (Machine.Meets (dfuStep b) (FindsRoom b) (.start m) actions →
      Machine.Meets (touchStep b) (ErrorKeepsState b) (fun _ => False, .start m) actions) ∧
    (Subsingleton ι →
      Machine.Meets (touchStep b) (ErrorKeepsState b) (fun _ => False, .start m) actions →
      Machine.Meets (dfuStep b) (FindsRoom b) (.start m) actions) := by
  refine ⟨fun h => ?_, fun _ => meets_findsRoom b m actions⟩
  have hroom : Machine.Meets (touchStep b) (fun ts a => FindsRoom b ts.2 a) (fun _ => False, .start m) actions :=
    (Machine.meets_comap (f := Prod.snd) (fun _ _ => rfl) _ actions).mpr h
  exact Machine.meets_mono (I := TouchInv) (fun ts a hts _ => hts.step a)
    (fun ts a hts ha => hts.errorKeepsState ha) _ actions (touchInv_start m) hroom

def fullBlock (number : UInt32) : LoadCall Unit Unit := ⟨number, 9, List.replicate 39 7, none, none⟩

/-- Two blocks are queued and their write fails. -/
def failedWrite : List (Action Unit Unit Unit) :=
  wholeLoad (fullBlock 0) ++ wholeLoad (fullBlock 1) ++ List.replicate 5 (Action.consume .success) ++
    [Action.consume .internal, .consume .success, .consume .success]

/-- A block in sequence, one out of sequence and one that comes too early. -/
theorem dfu_load_atomic_pearl :
    let actions : List (Action Unit Unit Unit) := wholeLoad (fullBlock 0) ++ wholeLoad (fullBlock 5) ++
      wholeLoad (fullBlock 1) ++ wholeLoad (fullBlock 2)
    Machine.Meets (touchStep (.of .pearl)) (ErrorKeepsState (.of .pearl)) (fun _ => False, .start fun _ => 0xff)
      actions :=
  (dfu_load_atomic_iff (.of .pearl) (fun _ => 0xff) _).1 (by decide +kernel)

/-- On Pearl, a block that finds no room behind the failed write changes `dfu_state`; sent again, it is out of
sequence. -/
theorem refused_block_renumbers :
    ¬ Machine.Meets (touchStep (.of .pearl)) (ErrorKeepsState (.of .pearl)) (fun _ => False, .start fun _ => 0xff)
      (failedWrite ++ wholeLoad (fullBlock 2)) ∧
    Machine.events (dfuStep (.of .pearl)) (Machine.run (dfuStep (.of .pearl)) (.start fun _ => 0xff) failedWrite).2
      (wholeLoad (fullBlock 2) ++ wholeLoad (fullBlock 2)) =
      [.called () (.load (fullBlock 2)), .returned () (.load (fullBlock 2)) (.code .noMem),
        .called () (.load (fullBlock 2)), .returned () (.load (fullBlock 2)) (.code .invalidParam)] := by
  refine ⟨fun h => ?_, by decide +kernel⟩
  have hroom := meets_findsRoom (.of .pearl) _ _ h
  revert hroom
  decide +kernel

end OrbFirmware.Dfu

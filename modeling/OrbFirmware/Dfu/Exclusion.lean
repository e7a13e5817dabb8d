import OrbFirmware.Dfu.Step

/-! The two semaphores hand one token round: it lies in one of them, or one calling thread has it, or the
processing thread. -/
namespace OrbFirmware.Dfu
variable {ι κ φ : Type*}

inductive Owner (ι : Type*) where
  | freeSpace
  | caller (i : ι)
  | full
  | consumer
  deriving DecidableEq

def LoadPc.holds : LoadPc → Bool
  | .number | .count | .take => false
  | .reset | .blockNumber | .copy | .ctx | .cb | .queue => true

def CheckPc.holds : CheckPc → Bool
  | .take => false
  | .state | .ctx | .cb | .crc => true

/-- The thread is between `k_sem_take(&sem_dfu_free_space)` and the give behind it. -/
def CallerPc.holds : CallerPc κ φ → Bool
  | .idle | .activate _ => false
  | .load _ pc => pc.holds
  | .check _ pc => pc.holds

/-- The processing thread is between `k_sem_take(&sem_dfu_full)` and the give behind it. -/
def ConsumerPc.holds : ConsumerPc φ → Bool
  | .waiting | .testCb _ | .callCb _ _ => false
  | _ => true

structure Owned (s : DfuSystem ι κ φ) (o : Owner ι) : Prop where
  freeSpace : s.shared.freeSpace = true ↔ o = .freeSpace
  full : s.shared.full = true ↔ o = .full
  caller : ∀ i, (s.callers i).holds = true ↔ o = .caller i
  consumer : s.consumer.holds = true ↔ o = .consumer

theorem owned_start (m : Nor.Mem) : Owned (DfuSystem.start m : DfuSystem ι κ φ) .freeSpace := by
  refine ⟨?_, ?_, fun i => ?_, ?_⟩ <;> simp [DfuSystem.start, CallerPc.holds, ConsumerPc.holds]

variable {b : Build} {s : DfuSystem ι κ φ} {o : Owner ι} {i : ι} {shared : Shared κ φ}
  {pc : CallerPc κ φ} {consumer : ConsumerPc φ}

/-- With the token at a caller, the processing thread is outside of its round. -/
theorem consumer_outside (h : Owned s o) (hi : (s.callers i).holds = true) :
    s.consumer.holds = false ∧ s.shared.full = false := by
  have ho := (h.caller i).mp hi
  subst ho
  have h1 := h.consumer
  have h2 := h.full
  simp only [reduceCtorEq, iff_false, Bool.not_eq_true] at h1 h2
  exact ⟨h1, h2⟩

/-- With the token at the processing thread, the callers are outside of their part. -/
theorem caller_outside (h : Owned s o) (hin : s.consumer.holds = true) (i : ι) :
    (s.callers i).holds = false ∧ s.shared.full = false := by
  have ho := h.consumer.mp hin
  subst ho
  have h1 := h.caller i
  have h2 := h.full
  simp only [reduceCtorEq, iff_false, Bool.not_eq_true] at h1 h2
  exact ⟨h1, h2⟩

/-- The processing thread goes on without touching the semaphores. -/
theorem Owned.consume_move (h : Owned s o) (hfree : shared.freeSpace = s.shared.freeSpace)
    (hfull : shared.full = s.shared.full) (hpc : consumer.holds = s.consumer.holds) :
    Owned { s with shared, consumer } o :=
  ⟨hfree ▸ h.freeSpace, hfull ▸ h.full, h.caller, by rw [hpc]; exact h.consumer⟩

/-- The processing thread takes `sem_dfu_full`. -/
theorem Owned.consume_take (h : Owned s .full) (hfree : shared.freeSpace = s.shared.freeSpace)
    (hfull : shared.full = false) (hpc : consumer.holds = true) :
    Owned { s with shared, consumer } .consumer := by
  refine ⟨?_, by simp [hfull], by simpa using h.caller, by simp [hpc]⟩
  rw [hfree]
  simpa using h.freeSpace

/-- The processing thread gives `sem_dfu_free_space`. -/
theorem Owned.consume_give (h : Owned s .consumer) (hfree : shared.freeSpace = true)
    (hfull : shared.full = s.shared.full) (hpc : consumer.holds = false) :
    Owned { s with shared, consumer } .freeSpace := by
  refine ⟨by simp [hfree], ?_, by simpa using h.caller, by simp [hpc]⟩
  rw [hfull]
  simpa using h.full

variable [DecidableEq ι]

/-- A thread goes on without touching the semaphores. -/
theorem Owned.move (h : Owned s o) (hfree : shared.freeSpace = s.shared.freeSpace)
    (hfull : shared.full = s.shared.full) (hpc : pc.holds = (s.callers i).holds) :
    Owned (s.goes i shared pc) o := by
  refine ⟨hfree ▸ h.freeSpace, hfull ▸ h.full, fun j => ?_, h.consumer⟩
  by_cases hj : j = i
  · subst hj
    rw [DfuSystem.goes_same, hpc]
    exact h.caller j
  · rw [DfuSystem.goes_other _ _ _ _ hj]
    exact h.caller j

theorem Owned.take (h : Owned s o) (hs : s.shared.freeSpace = true) (hfree : shared.freeSpace = false)
    (hfull : shared.full = s.shared.full) (hpc : pc.holds = true) :
    Owned (s.goes i shared pc) (.caller i) := by
  have ho := h.freeSpace.mp hs
  subst ho
  have hf := h.full
  have hc := h.consumer
  refine ⟨by simp [hfree], by simpa [hfull] using hf, fun j => ?_, by simpa using hc⟩
  by_cases hj : j = i
  · subst hj
    simp [hpc]
  · rw [DfuSystem.goes_other _ _ _ _ hj]
    have hcaller := h.caller j
    simpa [Ne.symm hj] using hcaller

/-- A thread that has the token gives one of the semaphores. -/
theorem Owned.release (h : Owned s (.caller i)) (hpc : pc.holds = false)
    (hgive : shared.freeSpace = true ∧ shared.full = s.shared.full ∧ o = .freeSpace ∨
      shared.full = true ∧ shared.freeSpace = s.shared.freeSpace ∧ o = .full) :
    Owned (s.goes i shared pc) o := by
  have hfree := h.freeSpace
  have hfull := h.full
  have hc := h.consumer
  have hcaller (j : ι) : ((s.goes i shared pc).callers j).holds = true ↔ o = .caller j := by
    have ho : o ≠ .caller j := by
      rcases hgive with ⟨-, -, rfl⟩ | ⟨-, -, rfl⟩ <;> simp
    by_cases hj : j = i
    · subst hj
      simp [hpc, ho]
    · rw [DfuSystem.goes_other _ _ _ _ hj]
      have hother := h.caller j
      simpa [Ne.symm hj, ho] using hother
  rcases hgive with ⟨h1, h2, rfl⟩ | ⟨h1, h2, rfl⟩
  · exact ⟨by simp [h1], by simpa [h2] using hfull, hcaller, by simpa using hc⟩
  · exact ⟨by simpa [h2] using hfree, by simp [h1], hcaller, by simpa using hc⟩

/-- The token after a step of `dfu_load`. -/
theorem Owned.load (h : Owned s o) {call : LoadCall κ φ} {at' : LoadPc} (hi : s.callers i = .load call at') :
    ∃ o', Owned (dfuStep b s (.run i)).2 o' := by
  have hown := h.caller i
  have hstay {pc' : CallerPc κ φ} (hpc : pc'.holds = at'.holds) : pc'.holds = (s.callers i).holds := by
    rw [hi]
    exact hpc
  have ho (hpc : at'.holds = true) : Owned s (.caller i) := by
    have he : o = .caller i := hown.mp (by rw [hi]; exact hpc)
    exact he ▸ h
  simp only [dfuStep, hi]
  cases at' with
  | number | count =>
    simp only [loadStep]
    split <;> exact ⟨o, h.move rfl rfl (hstay rfl)⟩
  | take =>
    simp only [loadStep]
    split
    · rename_i hs
      exact ⟨_, h.take hs rfl rfl rfl⟩
    · exact ⟨o, h.move rfl rfl (hstay rfl)⟩
  | reset =>
    simp only [loadStep]
    split <;> exact ⟨o, h.move rfl rfl (hstay rfl)⟩
  | blockNumber | ctx | cb => exact ⟨o, h.move rfl rfl (hstay rfl)⟩
  | copy =>
    simp only [loadStep]
    split
    · exact ⟨_, (ho rfl).release rfl (.inl ⟨rfl, rfl, rfl⟩)⟩
    · exact ⟨o, h.move rfl rfl (hstay rfl)⟩
  | queue =>
    simp only [loadStep]
    split
    · exact ⟨_, (ho rfl).release rfl (.inr ⟨rfl, rfl, rfl⟩)⟩
    · exact ⟨_, (ho rfl).release rfl (.inl ⟨rfl, rfl, rfl⟩)⟩

theorem Owned.check (h : Owned s o) {call : CheckCall κ φ} {at' : CheckPc} (hi : s.callers i = .check call at') :
    ∃ o', Owned (dfuStep b s (.run i)).2 o' := by
  have hown := h.caller i
  have hstay {pc' : CallerPc κ φ} (hpc : pc'.holds = at'.holds) : pc'.holds = (s.callers i).holds := by
    rw [hi]
    exact hpc
  have ho (hpc : at'.holds = true) : Owned s (.caller i) := by
    have he : o = .caller i := hown.mp (by rw [hi]; exact hpc)
    exact he ▸ h
  simp only [dfuStep, hi]
  cases at' with
  | take =>
    simp only [checkStep]
    split
    · rename_i hs
      exact ⟨_, h.take hs rfl rfl rfl⟩
    · exact ⟨o, h.move rfl rfl (hstay rfl)⟩
  | state =>
    simp only [checkStep]
    split
    · exact ⟨o, h.move rfl rfl (hstay rfl)⟩
    · exact ⟨_, (ho rfl).release rfl (.inl ⟨rfl, rfl, rfl⟩)⟩
  | ctx | cb => exact ⟨o, h.move rfl rfl (hstay rfl)⟩
  | crc => exact ⟨_, (ho rfl).release rfl (.inr ⟨rfl, rfl, rfl⟩)⟩

theorem Owned.consume (h : Owned s o) (outcome : RetCode) :
    ∃ o', Owned (dfuStep b s (.consume outcome)).2 o' := by
  have hown := h.consumer
  simp only [dfuStep]
  cases hc : s.consumer with
  | waiting =>
    rw [hc] at hown
    simp only [consumerStep]
    split
    · rename_i hs
      have he := h.full.mp hs
      subst he
      refine ⟨.consumer, h.consume_take rfl rfl ?_⟩
      cases s.shared.dfuState.state <;> rfl
    · exact ⟨o, h.consume_move rfl rfl (by rw [hc])⟩
  | give round err =>
    have he : o = .consumer := hown.mp (by rw [hc]; rfl)
    subst he
    exact ⟨.freeSpace, h.consume_give rfl rfl rfl⟩
  | openArea | checkSize =>
    simp only [consumerStep]
    split <;> exact ⟨o, h.consume_move rfl rfl (by rw [hc]; rfl)⟩
  | prepare =>
    simp only [consumerStep]
    split <;> exact ⟨o, h.consume_move rfl rfl (by rw [hc]; rfl)⟩
  | erase len =>
    simp only [consumerStep]
    split
    · exact ⟨o, h.consume_move rfl rfl (by rw [hc]; rfl)⟩
    · refine ⟨o, h.consume_move rfl rfl ?_⟩
      rw [hc]
      split <;> rfl
  | write len =>
    refine ⟨o, h.consume_move rfl rfl ?_⟩
    simp only [consumerStep, hc]
    split <;> rfl
  | shift len | verify | callCb cb err => exact ⟨o, h.consume_move rfl rfl (by rw [hc]; rfl)⟩
  | testCb err =>
    simp only [consumerStep]
    split <;> exact ⟨o, h.consume_move rfl rfl (by rw [hc]; rfl)⟩

/-- Every action keeps the token in one place. -/
theorem owned_step (b : Build) (s : DfuSystem ι κ φ) (a : Action ι κ φ) (h : ∃ o, Owned s o) :
    ∃ o, Owned (dfuStep b s a).2 o := by
  obtain ⟨o, h⟩ := h
  cases a with
  | call i call =>
    cases hi : s.callers i with
    | idle =>
      simp only [dfuStep, hi]
      exact ⟨o, h.move rfl rfl (by rw [hi]; cases call <;> rfl)⟩
    | load | check | activate =>
      simp only [dfuStep, hi]
      exact ⟨o, h⟩
  | run i =>
    cases hi : s.callers i with
    | idle =>
      simp only [dfuStep, hi]
      exact ⟨o, h⟩
    | load call pc => exact h.load hi
    | check call pc => exact h.check hi
    | activate pending =>
      simp only [dfuStep, hi, activateStep]
      split <;> exact ⟨o, h.move rfl rfl (by rw [hi]; rfl)⟩
  | timeout i =>
    simp only [dfuStep]
    split
    · rename_i hi
      split
      · exact ⟨o, h⟩
      · exact ⟨o, h.move rfl rfl (by rw [hi]; rfl)⟩
    · exact ⟨o, h⟩
  | consume outcome => exact h.consume outcome

/-! What a step of a load and of the processing thread does, as far as the semaphores, the callback and the
results show it. -/

/-- No call returns, no round ends and no callback runs. -/
def Event.internal : Event ι κ φ → Bool
  | .returned _ _ _ | .processed _ _ | .callback _ _ _ => false
  | _ => true

/-- The steps `dfu_load` may still take. -/
def LoadPc.left : LoadPc → Nat
  | .number => 9
  | .count => 8
  | .take => 7
  | .reset => 6
  | .blockNumber => 5
  | .copy => 4
  | .ctx => 3
  | .cb => 2
  | .queue => 1

theorem LoadPc.left_pos (pc : LoadPc) : 0 < pc.left := by
  cases pc <;> decide

theorem load_run_cases {call : LoadCall κ φ} {at' : LoadPc} (hi : s.callers i = .load call at') :
    (∃ at'', at''.left < at'.left ∧ (dfuStep b s (.run i)).2.callers i = .load call at'' ∧
        (dfuStep b s (.run i)).2.shared.full = s.shared.full ∧
        (∀ ev ∈ (dfuStep b s (.run i)).1, ev.internal = true)) ∨
      (∃ ret, (dfuStep b s (.run i)).1 = [.returned i (.load call) (.code ret)] ∧
        (dfuStep b s (.run i)).2.callers i = .idle ∧
        (dfuStep b s (.run i)).2.shared.full = s.shared.full) ∨
      (at'.holds = true ∧ (dfuStep b s (.run i)).1 = [.returned i (.load call) .einprogress] ∧
        (dfuStep b s (.run i)).2.callers i = .idle ∧ (dfuStep b s (.run i)).2.shared.full = true) := by
  simp only [dfuStep, hi]
  cases at' with
  | number | count =>
    simp only [loadStep]
    split
    · exact .inr (.inl ⟨_, rfl, DfuSystem.goes_same _ _ _ _, rfl⟩)
    · exact .inl ⟨_, by decide, DfuSystem.goes_same _ _ _ _, rfl, by simp [DfuSystem.advance]⟩
  | take =>
    simp only [loadStep]
    split
    · exact .inl ⟨_, by decide, DfuSystem.goes_same _ _ _ _, rfl, by simp [DfuSystem.advance]⟩
    · exact .inr (.inl ⟨_, rfl, DfuSystem.goes_same _ _ _ _, rfl⟩)
  | reset =>
    simp only [loadStep]
    split <;> exact .inl ⟨_, by decide, DfuSystem.goes_same _ _ _ _, rfl, by simp [DfuSystem.advance]⟩
  | blockNumber | ctx | cb =>
    exact .inl ⟨_, by decide, DfuSystem.goes_same _ _ _ _, rfl, by simp [DfuSystem.advance, loadStep]⟩
  | copy =>
    simp only [loadStep]
    split
    · exact .inr (.inl ⟨_, rfl, DfuSystem.goes_same _ _ _ _, rfl⟩)
    · exact .inl ⟨_, by decide, DfuSystem.goes_same _ _ _ _, rfl, by simp [DfuSystem.advance, Event.internal]⟩
  | queue =>
    simp only [loadStep]
    split
    · exact .inr (.inr ⟨rfl, rfl, DfuSystem.goes_same _ _ _ _, rfl⟩)
    · exact .inr (.inl ⟨_, rfl, DfuSystem.goes_same _ _ _ _, rfl⟩)

/-- The processing thread, from the semaphore to the callback. -/
inductive Consumes (s : DfuSystem ι κ φ) : List (Event ι κ φ) → DfuSystem ι κ φ → Prop where
  | rests (hc : s.consumer = .waiting) (hfull : s.shared.full = false) : Consumes s [] s
  | takes {s' : DfuSystem ι κ φ} (hc : s.consumer = .waiting) (hfull : s.shared.full = true)
      (hin : s'.consumer.holds = true) (hfull' : s'.shared.full = false) : Consumes s [] s'
  | works {evs : List (Event ι κ φ)} {s' : DfuSystem ι κ φ} (hin : s.consumer.holds = true)
      (hgive : ∀ round err, s.consumer ≠ .give round err) (hin' : s'.consumer.holds = true) (hfull : s'.shared.full = s.shared.full)
      (hevs : ∀ ev ∈ evs, ev.internal = true) : Consumes s evs s'
  | gives {s' : DfuSystem ι κ φ} (round : Round) (err : RetCode) (hc : s.consumer = .give round err)
      (hc' : s'.consumer = .testCb err) (hfull : s'.shared.full = s.shared.full) :
      Consumes s [.processed round err] s'
  | reads (cb : φ) (err : RetCode) (hc : s.consumer = .testCb err) (hcb : s.shared.dfuState.dfuCb = some cb) :
      Consumes s [] { s with consumer := .callCb cb err }
  | skips (err : RetCode) (hc : s.consumer = .testCb err) (hcb : s.shared.dfuState.dfuCb = none) :
      Consumes s [] { s with consumer := .waiting }
  | calls (cb : φ) (err : RetCode) (hc : s.consumer = .callCb cb err) :
      Consumes s [.callback cb s.shared.dfuState.ctx err] { s with consumer := .waiting }

theorem consume_cases (b : Build) (s : DfuSystem ι κ φ) (outcome : RetCode) :
    Consumes s (dfuStep b s (.consume outcome)).1 (dfuStep b s (.consume outcome)).2 ∧
      (dfuStep b s (.consume outcome)).2.callers = s.callers := by
  refine ⟨?_, rfl⟩
  obtain ⟨shared, callers, consumer⟩ := s
  simp only [dfuStep]
  cases consumer with
  | waiting =>
    simp only [consumerStep]
    split_ifs with hfull
    · exact .takes rfl hfull (by cases shared.dfuState.state <;> rfl) rfl
    · exact .rests rfl (by simpa using hfull)
  | openArea | checkSize =>
    simp only [consumerStep]
    split_ifs <;> exact .works rfl (by simp) rfl rfl (by simp)
  | prepare =>
    simp only [consumerStep]
    split_ifs
    · exact .works rfl (by simp) rfl rfl (by simp [Event.internal])
    · exact .works rfl (by simp) rfl rfl (by simp)
    · exact .works rfl (by simp) rfl rfl (by simp)
  | erase len =>
    simp only [consumerStep]
    split
    · exact .works rfl (by simp) rfl rfl (by simp)
    · dsimp only
      split_ifs <;> exact .works rfl (by simp) rfl rfl (by simp [Event.internal])
  | write len =>
    simp only [consumerStep]
    split_ifs <;> exact .works rfl (by simp) rfl rfl (by simp [Event.internal])
  | shift len =>
    simp only [consumerStep]
    split_ifs
    · exact .works rfl (by simp) rfl rfl (by simp [Event.internal])
    · exact .works rfl (by simp) rfl rfl (by simp)
  | verify => exact .works rfl (by simp) rfl rfl (by simp [consumerStep])
  | give round err => exact .gives round err rfl rfl rfl
  | testCb err =>
    simp only [consumerStep]
    cases hcb : shared.dfuState.dfuCb with
    | none => exact .skips err rfl hcb
    | some cb => exact .reads cb err rfl hcb
  | callCb cb err => exact .calls cb err rfl

end OrbFirmware.Dfu

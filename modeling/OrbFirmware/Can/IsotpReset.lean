import OrbFirmware.Can.IsotpTx

/-! After a reset: whether the transmit thread gets back to the one point of its loop where it sets
`is_init`. -/
namespace OrbFirmware.Can

/-- A call of `canbus_isotp_tx_init` is not over yet. -/
def InitRunning (inits : List IsotpInit) : Prop := ∃ pc ∈ inits, pc ≠ .done

instance (inits : List IsotpInit) : Decidable (InitRunning inits) :=
  inferInstanceAs (Decidable (∃ pc ∈ inits, pc ≠ .done))

/-- The thread is at one of its two waits, past the point where it sets the flag. -/
def IsotpThread.waits : IsotpThread → Bool
  | .semTake | .getMsg | .waitMsg => true
  | .absent | .setInit | .check _ | .send _ | .sendFailed _ | .semGive => false

/-- The last critical section to run finds the flag set, or the thread waiting on the queue or on its way
to the flag: it does not find it waiting for the semaphore, or short of waiting on the queue. -/
def ResetReady (s : IsotpTx) : IsotpAction → Prop
  | .initCritical k => s.inits[k]? = some .critical → s.isInit = true ∨ InitRunning (s.inits.set k .done) ∨
      (s.thread ≠ .semTake ∧ s.thread ≠ .getMsg)
  | _ => True

instance (s : IsotpTx) (a : IsotpAction) : Decidable (ResetReady s a) :=
  match a with
  | .initCritical _ => inferInstanceAs (Decidable (_ → _))
  | .call _ _ | .heapAlloc _ _ | .copy _ | .put _ | .callFree _ | .setInit | .semTake | .semTimeout | .getMsg
  | .check | .send _ | .sendFree | .semGive | .txComplete _ | .callbackGive | .init | .initClear _
  | .initCreate _ => isTrue trivial

/-- The flag is set, or is still to be set. -/
def FlagDue (s : IsotpTx) : Prop := s.isInit = true ∨ InitRunning s.inits ∨ s.thread.waits = false

variable {n k : Nat} {s s' : IsotpTx} {call : IsotpCall} {pc : IsotpInit}

namespace FlagDue

/-- A step that leaves flag and calls of `canbus_isotp_tx_init` alone. -/
theorem of_thread (h : FlagDue s) (hflag : s'.isInit = s.isInit) (hinits : s'.inits = s.inits)
    (hthread : s.thread.waits = false → s'.thread.waits = false) : FlagDue s' := by
  rw [FlagDue, hflag, hinits]
  rcases h with hset | hrun | hway
  · exact .inl hset
  · exact .inr (.inl hrun)
  · exact .inr (.inr (hthread hway))

theorem callStep (h : FlagDue s) (a : IsotpAction) (call : IsotpCall) : FlagDue (isotpCallStep n s k a call).2 := by
  unfold isotpCallStep
  split
  · exact h.of_thread rfl rfl id
  · split
    · exact h
    · exact h.of_thread rfl rfl id
  · exact h.of_thread rfl rfl id
  · split
    · exact h.of_thread rfl rfl fun _ => rfl
    · split <;> exact h.of_thread rfl rfl id
  · exact h.of_thread rfl rfl id
  · exact h

theorem threadStep (h : FlagDue s) (a : IsotpAction) : FlagDue (isotpThreadStep s a s.thread).2 := by
  unfold isotpThreadStep
  split
  · exact .inl rfl
  · rename_i hthread
    split
    · exact h.of_thread rfl rfl fun hway => by rw [hthread] at hway; exact hway
    · exact h
  · split
    · exact h
    · exact h.of_thread rfl rfl fun _ => rfl
  · rename_i hthread
    split
    · exact h.of_thread rfl rfl fun hway => by rw [hthread] at hway; exact hway
    · exact h.of_thread rfl rfl fun _ => rfl
  · split
    · exact h.of_thread rfl rfl fun _ => rfl
    · refine h.of_thread rfl rfl fun _ => ?_
      simp only
      split <;> rfl
  · split
    · exact h.of_thread rfl rfl fun _ => rfl
    · exact h.of_thread rfl rfl fun _ => rfl
  · exact h.of_thread rfl rfl fun _ => rfl
  · exact h.of_thread rfl rfl fun _ => rfl
  · exact h

theorem initRunning_set {inits : List IsotpInit} (hk : inits[k]? = some pc) {pc' : IsotpInit} (hpc : pc' ≠ .done) :
    InitRunning (inits.set k pc') := by
  obtain ⟨hlt, -⟩ := List.getElem?_eq_some_iff.mp hk
  exact ⟨pc', List.mem_set hlt pc', hpc⟩

/-- The purge sends the thread on its way if it waits on the queue. -/
theorem waits_purged {thread : IsotpThread} (hsem : thread ≠ .semTake) (hget : thread ≠ .getMsg) :
    (if thread = .waitMsg then IsotpThread.check none else thread).waits = false := by
  cases thread with
  | semTake => exact absurd rfl hsem
  | getMsg => exact absurd rfl hget
  | absent | setInit | waitMsg | check new | send new | sendFailed new | semGive => rfl

theorem initStep (h : FlagDue s) (a : IsotpAction) (hk : s.inits[k]? = some pc)
    (hready : ∀ j, a = .initCritical j → pc = .critical → s.isInit = true ∨ InitRunning (s.inits.set k .done) ∨
      (s.thread ≠ .semTake ∧ s.thread ≠ .getMsg)) :
    FlagDue (isotpInitStep s k a pc).2 := by
  unfold isotpInitStep
  split
  · exact .inr (.inl (initRunning_set hk (by simp)))
  · exact .inr (.inl (initRunning_set hk (by simp)))
  · rcases hready _ rfl rfl with hset | hrun | ⟨hsem, hget⟩
    · exact .inl hset
    · exact .inr (.inl hrun)
    · exact .inr (.inr (waits_purged hsem hget))
  · exact h

theorem step (h : FlagDue s) (a : IsotpAction) (hready : ResetReady s a) : FlagDue (isotpTxStep n s a).2 := by
  cases a with
  | call destination data => exact h.of_thread rfl rfl id
  | heapAlloc k buffer | copy k | put k | callFree k =>
    simp only [isotpTxStep]
    split
    · exact h.callStep _ _
    · exact h
  | setInit | semTake | semTimeout | getMsg | check | send started | sendFree | semGive => exact h.threadStep _
  | txComplete k =>
    simp only [isotpTxStep]
    split
    · exact h.of_thread rfl rfl id
    · exact h
  | callbackGive =>
    simp only [isotpTxStep]
    split
    · exact h
    · exact h.of_thread rfl rfl id
  | init => exact .inr (.inl ⟨.clear, List.mem_append_right _ List.mem_cons_self, by simp⟩)
  | initClear k | initCreate k =>
    simp only [isotpTxStep]
    split
    · rename_i pc hk
      exact h.initStep _ hk fun j he => by cases he
    · exact h
  | initCritical k =>
    simp only [isotpTxStep]
    split
    · rename_i pc hk
      exact h.initStep _ hk fun j _ hpc => hready (hpc ▸ hk)
    · exact h

end FlagDue

/-- The way of the thread back to the flag, whatever `isotp_send` returns; steps not due are skipped. -/
def backToFlag (sent : Bool) : List IsotpAction := [.check, .send sent, .sendFree, .semGive, .setInit]

theorem backToFlag_sets (n : Nat) (sent : Bool) (hpresent : s.thread ≠ .absent)
    (hflag : s.isInit = true ∨ s.thread.waits = false) :
    (Machine.run (isotpTxStep n) s (backToFlag sent)).2.isInit = true := by
  obtain ⟨isInit, txSem, queue, heap, memory, thread, calls, inits, transfers, callbacks, allocations⟩ := s
  cases thread with
  | absent => exact absurd rfl hpresent
  | semTake | getMsg | waitMsg => exact hflag.resolve_right (by simp [IsotpThread.waits])
  | setInit | semGive => rfl
  | check new =>
    cases new with
    | none => rfl
    | some new => cases isInit <;> cases sent <;> rfl
  | send new | sendFailed new => cases sent <;> rfl

/-- Every interleaving of thread, calls, completions, timeouts and resets, in which the last critical
section of a reset does not find the thread past the flag and not yet on the queue: outside
`canbus_isotp_tx_init` the thread never waits on the queue with the flag cleared, and gets back to the
flag by its own steps. -/
theorem isotp_recovers_after_reset (n : Nat) (acts : List IsotpAction)
    (hready : Machine.Meets (isotpTxStep n) ResetReady isotpTxBoot acts) :
    let s := (Machine.run (isotpTxStep n) isotpTxBoot acts).2
    ¬ InitRunning s.inits →
      ¬ (s.thread = .waitMsg ∧ s.queue = [] ∧ s.isInit = false) ∧
      (s.thread ≠ .absent → ∀ sent, (Machine.run (isotpTxStep n) s (backToFlag sent)).2.isInit = true) := by
  intro s houtside
  have hdue : FlagDue s := Machine.meets_invariant (fun _ a h ha => h.step a ha) isotpTxBoot acts (.inr (.inr rfl)) hready
  have hflag : s.isInit = true ∨ s.thread.waits = false := by
    rcases hdue with hset | hrun | hway
    · exact .inl hset
    · exact absurd hrun houtside
    · exact .inr hway
  refine ⟨fun ⟨hwait, _, hclear⟩ => ?_, fun hpresent sent => backToFlag_sets n sent hpresent hflag⟩
  rw [hwait, hclear] at hflag
  simp [IsotpThread.waits] at hflag

theorem isotp_recovers_after_reset_waiting :
    let s := (Machine.run (isotpTxStep 4) isotpTxBoot [.init, .initClear 0, .initCreate 0, .initCritical 0, .setInit,
      .semTake, .getMsg, .init, .initClear 1, .initCreate 1, .initCritical 1]).2
    ¬ (s.thread = .waitMsg ∧ s.queue = [] ∧ s.isInit = false) ∧
      (s.thread ≠ .absent → ∀ sent, (Machine.run (isotpTxStep 4) s (backToFlag sent)).2.isInit = true) :=
  isotp_recovers_after_reset 4 [.init, .initClear 0, .initCreate 0, .initCritical 0, .setInit, .semTake, .getMsg,
    .init, .initClear 1, .initCreate 1, .initCritical 1] (by decide) (by decide)

/-- A reset while the thread waits for a transfer to complete: the semaphore lets it through to the empty
queue, with the flag cleared. -/
theorem reset_during_transfer_hangs :
    let s := (Machine.run (isotpTxStep 4) isotpTxBoot [.init, .initClear 0, .initCreate 0, .initCritical 0, .setInit,
      .semTake, .getMsg, .call 7 [1], .heapAlloc 0 (some 0), .copy 0, .put 0, .check, .send true, .setInit,
      .init, .initClear 1, .initCreate 1, .initCritical 1, .semTake, .getMsg]).2
    ¬ InitRunning s.inits ∧ s.thread = .waitMsg ∧ s.queue = [] ∧ s.isInit = false := by
  decide

/-- In any state a critical section that does not meet the condition is followed by the wait it excludes. -/
theorem reset_not_ready_hangs (n : Nat) (hk : s.inits[k]? = some .critical) (hnot : ¬ ResetReady s (.initCritical k)) :
    let s' := (Machine.run (isotpTxStep n) s [.initCritical k, .semTake, .getMsg]).2
    ¬ InitRunning s'.inits ∧ s'.thread = .waitMsg ∧ s'.queue = [] ∧ s'.isInit = false := by
  obtain ⟨-, hpast⟩ := Classical.not_imp.mp hnot
  obtain ⟨hclear, hrest⟩ := not_or.mp hpast
  obtain ⟨hlast, hthread⟩ := not_or.mp hrest
  have hclear : s.isInit = false := Bool.eq_false_iff.mpr hclear
  have hat : s.thread = .semTake ∨ s.thread = .getMsg := by
    by_contra hno
    exact hthread (not_or.mp hno)
  have hcritical : (isotpTxStep n s (.initCritical k)).2 = { s with
      txSem := true, queue := [], heap := [], inits := s.inits.set k .done } := by
    simp only [isotpTxStep, hk, isotpInitStep]
    rcases hat with h | h <;> simp [h]
  rw [Machine.run_cons, hcritical, Machine.run_pair]
  rcases hat with h | h <;> simp only [isotpTxStep, isotpThreadStep, h, if_true] <;> exact ⟨hlast, trivial, trivial, hclear⟩

end OrbFirmware.Can

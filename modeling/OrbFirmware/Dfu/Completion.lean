import Mathlib.Data.Fintype.Basic
import OrbFirmware.Dfu.Exclusion

/-! Which callbacks run. A call that returns -EINPROGRESS is answered by the next round of the processing
thread, which reads the callback and its context from `dfu_state` after it has given the semaphore back. -/
namespace OrbFirmware.Dfu
variable {ι κ φ : Type*} {b : Build}

/-- A call that has returned -EINPROGRESS. -/
structure QueuedCall (κ φ : Type*) where
  round : Round
  ctx : Option κ
  processCb : Option φ
  deriving DecidableEq

def queuedEvent : Event ι κ φ → Option (QueuedCall κ φ)
  | .returned _ (.load call) .einprogress => some ⟨.blocks, call.ctx, call.processCb⟩
  | .returned _ (.check call) .einprogress => some ⟨.verify, call.ctx, call.processCb⟩
  | _ => none

def roundEvent : Event ι κ φ → Option (Round × RetCode)
  | .processed round err => some (round, err)
  | _ => none

def callbackEvent : Event ι κ φ → Option (φ × Option κ × RetCode)
  | .callback cb ctx err => some (cb, ctx, err)
  | _ => none

/-- The callback a call is to get for the result of its round. -/
def answer (call : QueuedCall κ φ × RetCode) : Option (φ × Option κ × RetCode) :=
  call.1.processCb.map fun cb => (cb, call.1.ctx, call.2)

/-- The queued calls: those that are over, the one whose callback is next and the one that waits for its round. -/
structure Progress (κ φ : Type*) where
  done : List (QueuedCall κ φ × RetCode)
  late : Option (QueuedCall κ φ × RetCode)
  waiting : Option (QueuedCall κ φ)

/-- The events show these calls, each with a round of its own, and the callbacks of those that are over. -/
structure Progress.Shows (p : Progress κ φ) (tr : List (Event ι κ φ)) : Prop where
  queued : tr.filterMap queuedEvent = p.done.map (·.1) ++ p.late.toList.map (·.1) ++ p.waiting.toList
  rounds : tr.filterMap roundEvent = (p.done ++ p.late.toList).map fun call => (call.1.round, call.2)
  callbacks : tr.filterMap callbackEvent = p.done.filterMap answer

/-- Every queued call gets its callback, if it has one, once, with its context and the result of its round,
and there are no others; at most the last two are not over, and none if the processing thread has nothing
to do. -/
def EachAnsweredOnce (tr : List (Event ι κ φ)) (s : DfuSystem ι κ φ) : Prop :=
  ∃ p : Progress κ φ, p.Shows tr ∧
    (s.consumer = .waiting → s.shared.full = false → p.late = none ∧ p.waiting = none)

/-! When the callbacks are kept. -/

/-- A context is written while none is to be read, or it is the same. -/
def KeepsCtx (s : DfuSystem ι κ φ) (ctx : Option κ) : Prop :=
  match s.consumer with
  | .testCb _ => s.shared.dfuState.dfuCb = none ∨ s.shared.dfuState.ctx = ctx
  | .callCb _ _ => s.shared.dfuState.ctx = ctx
  | _ => True

def KeepsCb (s : DfuSystem ι κ φ) (cb : Option φ) : Prop :=
  match s.consumer with
  | .testCb _ => s.shared.dfuState.dfuCb = cb
  | _ => True

def Queues (st : DfuState κ φ) : Prop := dfuBlocksWriteSize ≤ st.wrIdx ∨ st.blockNumber = st.blockCount-1

/-- A check that has seen the image complete. -/
def CallerPc.checks : CallerPc κ φ → Bool
  | .check _ .ctx | .check _ .cb | .check _ .crc => true
  | _ => false

/-- `dfu_state` is cleared while no callback is to be read from it and no check is under way. -/
structure KeepsClearing (s : DfuSystem ι κ φ) : Prop where
  checks : ∀ i, (s.callers i).checks = false
  full : s.shared.full = true → s.shared.dfuState.dfuCb = none ∧ s.shared.dfuState.state = .inProgress
  round : s.consumer.holds = true → s.shared.dfuState.dfuCb = none
  ctx : KeepsCtx s none
  cb : KeepsCb s none

def tooLarge (b : Build) (st : DfuState κ φ) : Prop :=
  st.flashOffset = 0 ∧ b.secondarySlot.faSize < st.blockCount.toNat*b.dfuBlockSizeMax % 2^32

/-- What a step must not do to the callbacks: put the next call's in place of one that is to be read, clear
it, or queue a block behind a complete image. -/
def KeepsCallbacks (b : Build) (s : DfuSystem ι κ φ) : Action ι κ φ → Prop
  | .run i =>
    match s.callers i with
    | .load call .ctx => KeepsCtx s call.ctx
    | .load call .cb => KeepsCb s call.processCb
    | .load _ .queue => Queues s.shared.dfuState → s.shared.dfuState.state = .inProgress
    | .check call .ctx => KeepsCtx s call.ctx
    | .check call .cb => KeepsCb s call.processCb
    | .activate pending => pending = .success → KeepsClearing s
    | _ => True
  | .consume _ => s.consumer = .checkSize → tooLarge b s.shared.dfuState → s.shared.dfuState.dfuCb = none
  | _ => True

/-! What is known of the calls that are not over. -/

/-- The callback of the call is in `dfu_state`, and its context if there is one to be called. -/
structure Kept (call : QueuedCall κ φ) (st : DfuState κ φ) : Prop where
  cb : st.dfuCb = call.processCb
  ctx : call.processCb ≠ none → st.ctx = call.ctx

def CallerKept (st : DfuState κ φ) : CallerPc κ φ → Prop
  | .load call .cb => Queues st → st.ctx = call.ctx
  | .load call .queue => Queues st → st.ctx = call.ctx ∧ st.dfuCb = call.processCb
  | .check _ .ctx => st.state = .finishedVerify
  | .check call .cb => st.state = .finishedVerify ∧ st.ctx = call.ctx
  | .check call .crc => st.state = .finishedVerify ∧ st.ctx = call.ctx ∧ st.dfuCb = call.processCb
  | _ => True

def ConsumerPc.round : ConsumerPc φ → Option Round
  | .openArea | .checkSize | .prepare | .erase _ | .write _ | .shift _ => some .blocks
  | .verify => some .verify
  | .give round _ => some round
  | .waiting | .testCb _ | .callCb _ _ => none

/-- The call that waits for its round, by where the token is. -/
def WaitsAt (s : DfuSystem ι κ φ) : Owner ι → Option (QueuedCall κ φ) → Prop
  | .freeSpace, none => True
  | .caller i, none => CallerKept s.shared.dfuState (s.callers i)
  | .full, some call => Kept call s.shared.dfuState ∧
      (call.round = .verify ↔ s.shared.dfuState.state = .finishedVerify)
  | .consumer, some call => Kept call s.shared.dfuState ∧ s.consumer.round = some call.round
  | _, _ => False

/-- The call whose callback is next. -/
def LateAt (st : DfuState κ φ) : ConsumerPc φ → Option (QueuedCall κ φ × RetCode) → Prop
  | .testCb err, some (call, ret) => ret = err ∧ Kept call st
  | .callCb cb err, some (call, ret) => ret = err ∧ call.processCb = some cb ∧ st.ctx = call.ctx
  | .testCb _, none | .callCb _ _, none => False
  | _, late => late = none

structure CompletionInv (tr : List (Event ι κ φ)) (s : DfuSystem ι κ φ) (p : Progress κ φ) (o : Owner ι) :
    Prop where
  shows : p.Shows tr
  owned : Owned s o
  waits : WaitsAt s o p.waiting
  late : LateAt s.shared.dfuState s.consumer p.late

variable {tr ev : List (Event ι κ φ)} {s : DfuSystem ι κ φ} {p : Progress κ φ} {o : Owner ι} {i : ι}
  {shared : Shared κ φ} {st : DfuState κ φ} {pc : CallerPc κ φ} {consumer : ConsumerPc φ}

/-! The events. -/

/-- No call is queued, no round ends, no callback runs. -/
structure Quiet (ev : List (Event ι κ φ)) : Prop where
  queued : ev.filterMap queuedEvent = []
  rounds : ev.filterMap roundEvent = []
  callbacks : ev.filterMap callbackEvent = []

theorem Progress.Shows.quiet (h : p.Shows tr) (hev : Quiet ev) : p.Shows (tr ++ ev) := by
  refine ⟨?_, ?_, ?_⟩
  · rw [List.filterMap_append, hev.queued, List.append_nil, h.queued]
  · rw [List.filterMap_append, hev.rounds, List.append_nil, h.rounds]
  · rw [List.filterMap_append, hev.callbacks, List.append_nil, h.callbacks]

theorem Progress.Shows.queue {call : QueuedCall κ φ} (h : p.Shows tr) (hw : p.waiting = none)
    (hq : ev.filterMap queuedEvent = [call]) (hr : ev.filterMap roundEvent = [])
    (hc : ev.filterMap callbackEvent = []) :
    ({ p with waiting := some call } : Progress κ φ).Shows (tr ++ ev) := by
  refine ⟨?_, ?_, ?_⟩
  · rw [List.filterMap_append, hq, h.queued, hw, Option.toList_none, List.append_nil]
    rfl
  · rw [List.filterMap_append, hr, List.append_nil, h.rounds]
  · rw [List.filterMap_append, hc, List.append_nil, h.callbacks]

theorem Progress.Shows.process {call : QueuedCall κ φ} {round : Round} {err : RetCode} (h : p.Shows tr)
    (hw : p.waiting = some call) (hl : p.late = none) (hround : call.round = round) :
    (⟨p.done, some (call, err), none⟩ : Progress κ φ).Shows (tr ++ [.processed round err]) := by
  refine ⟨?_, ?_, ?_⟩
  · rw [List.filterMap_append, h.queued, hw, hl]
    simp [queuedEvent]
  · rw [List.filterMap_append, h.rounds, hl, ← hround]
    simp [roundEvent]
  · rw [List.filterMap_append, h.callbacks]
    simp [callbackEvent]

theorem Progress.Shows.finish {call : QueuedCall κ φ × RetCode} (h : p.Shows tr) (hl : p.late = some call)
    (hq : ev.filterMap queuedEvent = []) (hr : ev.filterMap roundEvent = [])
    (hc : ev.filterMap callbackEvent = (answer call).toList) :
    (⟨p.done ++ [call], none, p.waiting⟩ : Progress κ φ).Shows (tr ++ ev) := by
  refine ⟨?_, ?_, ?_⟩
  · rw [List.filterMap_append, hq, h.queued, hl]
    simp
  · rw [List.filterMap_append, hr, h.rounds, hl]
    simp
  · rw [List.filterMap_append, hc, h.callbacks, List.filterMap_append]
    cases hans : answer call <;> simp [hans]

/-! The frame of a step. -/

theorem Kept.same {call : QueuedCall κ φ} {st' : DfuState κ φ} (h : Kept call st) (hcb : st'.dfuCb = st.dfuCb)
    (hctx : st'.ctx = st.ctx) : Kept call st' :=
  ⟨hcb.trans h.cb, fun hne => hctx.trans (h.ctx hne)⟩

theorem LateAt.same {late : Option (QueuedCall κ φ × RetCode)} {st' : DfuState κ φ} (h : LateAt st consumer late)
    (hcb : st'.dfuCb = st.dfuCb) (hctx : st'.ctx = st.ctx) : LateAt st' consumer late := by
  cases consumer with
  | testCb err =>
    cases late with
    | none => exact h
    | some call => exact ⟨h.1, h.2.same hcb hctx⟩
  | callCb cb err =>
    cases late with
    | none => exact h
    | some call => exact ⟨h.1, h.2.1, hctx.trans h.2.2⟩
  | _ => exact h

/-- A write of the context that keeps the one to be read. -/
theorem LateAt.setCtx {late : Option (QueuedCall κ φ × RetCode)} {ctx : Option κ}
    (h : LateAt s.shared.dfuState s.consumer late) (hkeeps : KeepsCtx s ctx)
    (hcb : st.dfuCb = s.shared.dfuState.dfuCb) (hctx : st.ctx = ctx) : LateAt st s.consumer late := by
  rw [KeepsCtx] at hkeeps
  cases hc : s.consumer with
  | testCb err =>
    rw [hc] at h hkeeps
    cases late with
    | none => exact h
    | some call =>
      obtain ⟨hret, hkept⟩ := h
      refine ⟨hret, hcb.trans hkept.cb, fun hne => ?_⟩
      rcases hkeeps with hnone | hsame
      · exact absurd (hkept.cb.symm.trans hnone) hne
      · rw [hctx, ← hsame]
        exact hkept.ctx hne
  | callCb cb err =>
    rw [hc] at h hkeeps
    cases late with
    | none => exact h
    | some call => exact ⟨h.1, h.2.1, hctx.trans (hkeeps.symm.trans h.2.2)⟩
  | _ =>
    rw [hc] at h
    exact h

/-- A write of the callback that keeps the one to be read. -/
theorem LateAt.setCb {late : Option (QueuedCall κ φ × RetCode)} {cb : Option φ}
    (h : LateAt s.shared.dfuState s.consumer late) (hkeeps : KeepsCb s cb)
    (hcb : st.dfuCb = cb) (hctx : st.ctx = s.shared.dfuState.ctx) : LateAt st s.consumer late := by
  rw [KeepsCb] at hkeeps
  cases hc : s.consumer with
  | testCb err =>
    rw [hc] at h hkeeps
    exact h.same (hcb.trans hkeeps.symm) hctx
  | callCb cb err =>
    rw [hc] at h
    cases late with
    | none => exact h
    | some call => exact ⟨h.1, h.2.1, hctx.trans h.2.2⟩
  | _ =>
    rw [hc] at h
    exact h

/-- Cleared, with no callback to be read. -/
theorem LateAt.clear {late : Option (QueuedCall κ φ × RetCode)} (h : LateAt s.shared.dfuState s.consumer late)
    (hctx : KeepsCtx s none) (hcb : KeepsCb s none) : LateAt .zero s.consumer late := by
  rw [KeepsCtx] at hctx
  rw [KeepsCb] at hcb
  cases hc : s.consumer with
  | testCb err =>
    rw [hc] at h hcb
    cases late with
    | none => exact h
    | some call =>
      have hnone := h.2.cb.symm.trans hcb
      exact ⟨h.1, hnone.symm, fun hne => absurd hnone hne⟩
  | callCb cb err =>
    rw [hc] at h hctx
    cases late with
    | none => exact h
    | some call => exact ⟨h.1, h.2.1, hctx.symm.trans h.2.2⟩
  | _ =>
    rw [hc] at h
    exact h

/-! The moves of a calling thread. -/

section
variable [DecidableEq ι]

theorem WaitsAt.goes {waiting : Option (QueuedCall κ φ)} (h : WaitsAt s o waiting) (ho : o ≠ .caller i)
    (hst : shared.dfuState = s.shared.dfuState) : WaitsAt (s.goes i shared pc) o waiting := by
  cases o with
  | freeSpace => cases waiting <;> exact h
  | full | consumer =>
    cases waiting with
    | none => exact h
    | some call =>
      rw [WaitsAt, DfuSystem.goes_shared, hst]
      exact h
  | caller j =>
    cases waiting with
    | none =>
      have hj : j ≠ i := fun hj => ho (congrArg _ hj)
      rw [WaitsAt, DfuSystem.goes_shared, DfuSystem.goes_other _ _ _ _ hj, hst]
      exact h
    | some call => exact h

omit [DecidableEq ι] in
/-- While a thread has the token, no queued call waits. -/
theorem CompletionInv.holding (h : CompletionInv tr s p o) (hin : (s.callers i).holds = true) :
    o = .caller i ∧ p.waiting = none ∧ CallerKept s.shared.dfuState (s.callers i) := by
  obtain rfl := (h.owned.caller i).mp hin
  have hwaits := h.waits
  cases hw : p.waiting with
  | none =>
    rw [hw] at hwaits
    exact ⟨rfl, rfl, hwaits⟩
  | some call =>
    rw [hw] at hwaits
    exact hwaits.elim

/-- A thread goes on outside of its part. -/
theorem CompletionInv.outside (h : CompletionInv tr s p o) (hev : Quiet ev) (hin : (s.callers i).holds = false)
    (hpc : pc.holds = false) : CompletionInv (tr ++ ev) (s.goes i s.shared pc) p o := by
  have ho : o ≠ .caller i := by
    intro ho
    have hcaller := (h.owned.caller i).mpr ho
    rw [hin] at hcaller
    contradiction
  exact ⟨h.shows.quiet hev, h.owned.move rfl rfl (hpc.trans hin.symm), h.waits.goes ho rfl, h.late⟩

theorem CompletionInv.takes (h : CompletionInv tr s p o) (hev : Quiet ev) (hfree : s.shared.freeSpace = true)
    (hpc : pc.holds = true) (hkept : CallerKept s.shared.dfuState pc) :
    CompletionInv (tr ++ ev) (s.goes i { s.shared with freeSpace := false } pc) p (.caller i) := by
  obtain rfl := h.owned.freeSpace.mp hfree
  refine ⟨h.shows.quiet hev, h.owned.take hfree rfl rfl hpc, ?_, h.late⟩
  have hwaits := h.waits
  cases hw : p.waiting with
  | none =>
    rw [WaitsAt, DfuSystem.goes_same]
    exact hkept
  | some call =>
    rw [hw] at hwaits
    exact hwaits.elim

/-- A thread goes on with the token. -/
theorem CompletionInv.inside (h : CompletionInv tr s p o) (hev : Quiet ev) (hin : (s.callers i).holds = true)
    (hpc : pc.holds = true) (hfree : shared.freeSpace = s.shared.freeSpace)
    (hfull : shared.full = s.shared.full) (hlate : LateAt shared.dfuState s.consumer p.late)
    (hkept : CallerKept shared.dfuState pc) : CompletionInv (tr ++ ev) (s.goes i shared pc) p (.caller i) := by
  obtain ⟨rfl, hw, -⟩ := h.holding hin
  refine ⟨h.shows.quiet hev, h.owned.move hfree hfull (hpc.trans hin.symm), ?_, hlate⟩
  rw [hw, WaitsAt, DfuSystem.goes_same]
  exact hkept

theorem CompletionInv.gives (h : CompletionInv tr s p o) (hev : Quiet ev) (hin : (s.callers i).holds = true)
    (hpc : pc.holds = false) :
    CompletionInv (tr ++ ev) (s.goes i { s.shared with freeSpace := true } pc) p .freeSpace := by
  obtain ⟨rfl, hw, -⟩ := h.holding hin
  refine ⟨h.shows.quiet hev, h.owned.release hpc (.inl ⟨rfl, rfl, rfl⟩), ?_, h.late⟩
  rw [hw]
  trivial

/-- A thread queues its call. -/
theorem CompletionInv.queues (call : QueuedCall κ φ) (h : CompletionInv tr s p o)
    (hq : ev.filterMap queuedEvent = [call]) (hr : ev.filterMap roundEvent = [])
    (hc : ev.filterMap callbackEvent = []) (hin : (s.callers i).holds = true) (hpc : pc.holds = false)
    (hfree : shared.freeSpace = s.shared.freeSpace) (hfull : shared.full = true)
    (hlate : LateAt shared.dfuState s.consumer p.late) (hkept : Kept call shared.dfuState)
    (hround : call.round = .verify ↔ shared.dfuState.state = .finishedVerify) :
    CompletionInv (tr ++ ev) (s.goes i shared pc) { p with waiting := some call } .full := by
  obtain ⟨rfl, hw, -⟩ := h.holding hin
  exact ⟨h.shows.queue hw hq hr hc, h.owned.release hpc (.inr ⟨hfull, hfree, rfl⟩), ⟨hkept, hround⟩, hlate⟩

/-- The invariant holds behind a step. -/
def KeepsCompletion (tr : List (Event ι κ φ)) (r : List (Event ι κ φ) × DfuSystem ι κ φ) : Prop :=
  ∃ p o, CompletionInv (tr ++ r.1) r.2 p o

theorem CompletionInv.load_step (h : CompletionInv tr s p o) {call : LoadCall κ φ} {at' : LoadPc}
    (hi : s.callers i = .load call at') (hkeeps : KeepsCallbacks b s (.run i)) :
    KeepsCompletion tr (dfuStep b s (.run i)) := by
  have hkept := fun hin => (h.holding (i := i) hin).2.2
  simp only [KeepsCallbacks, hi] at hkeeps hkept
  simp only [dfuStep, hi]
  cases at' with
  | number | count =>
    simp only [loadStep]
    split <;> exact ⟨p, o, h.outside ⟨rfl, rfl, rfl⟩ (by rw [hi]; rfl) rfl⟩
  | take =>
    simp only [loadStep]
    split
    · rename_i hfree
      exact ⟨p, _, h.takes ⟨rfl, rfl, rfl⟩ hfree rfl trivial⟩
    · exact ⟨p, o, h.outside ⟨rfl, rfl, rfl⟩ (by rw [hi]; rfl) rfl⟩
  | reset =>
    simp only [loadStep]
    split <;> exact ⟨p, _, h.inside ⟨rfl, rfl, rfl⟩ (by rw [hi]; rfl) rfl rfl rfl (h.late.same rfl rfl) trivial⟩
  | blockNumber =>
    exact ⟨p, _, h.inside ⟨rfl, rfl, rfl⟩ (by rw [hi]; rfl) rfl rfl rfl (h.late.same rfl rfl) trivial⟩
  | copy =>
    simp only [loadStep]
    split
    · exact ⟨p, _, h.gives ⟨rfl, rfl, rfl⟩ (by rw [hi]; rfl) rfl⟩
    · exact ⟨p, _, h.inside ⟨rfl, rfl, rfl⟩ (by rw [hi]; rfl) rfl rfl rfl (h.late.same rfl rfl) trivial⟩
  | ctx =>
    exact ⟨p, _, h.inside ⟨rfl, rfl, rfl⟩ (by rw [hi]; rfl) rfl rfl rfl (h.late.setCtx hkeeps rfl rfl)
      fun _ => rfl⟩
  | cb =>
    have hctx := hkept rfl
    exact ⟨p, _, h.inside ⟨rfl, rfl, rfl⟩ (by rw [hi]; rfl) rfl rfl rfl (h.late.setCb hkeeps rfl rfl)
      fun hq => ⟨hctx hq, rfl⟩⟩
  | queue =>
    have hcall := hkept rfl
    simp only [loadStep]
    split
    · rename_i hq
      obtain ⟨hctx, hcb⟩ := hcall hq
      have hstate := hkeeps hq
      refine ⟨_, _, h.queues ⟨.blocks, call.ctx, call.processCb⟩ rfl rfl rfl (by rw [hi]; rfl) rfl rfl
        rfl h.late ⟨hcb, fun _ => hctx⟩ ?_⟩
      dsimp only
      rw [hstate]
      simp
    · exact ⟨p, _, h.gives ⟨rfl, rfl, rfl⟩ (by rw [hi]; rfl) rfl⟩

theorem CompletionInv.check_step (h : CompletionInv tr s p o) {call : CheckCall κ φ} {at' : CheckPc}
    (hi : s.callers i = .check call at') (hkeeps : KeepsCallbacks b s (.run i)) :
    KeepsCompletion tr (dfuStep b s (.run i)) := by
  have hkept := fun hin => (h.holding (i := i) hin).2.2
  simp only [KeepsCallbacks, hi] at hkeeps hkept
  simp only [dfuStep, hi]
  cases at' with
  | take =>
    simp only [checkStep]
    split
    · rename_i hfree
      exact ⟨p, _, h.takes ⟨rfl, rfl, rfl⟩ hfree rfl trivial⟩
    · exact ⟨p, o, h.outside ⟨rfl, rfl, rfl⟩ (by rw [hi]; rfl) rfl⟩
  | state =>
    simp only [checkStep]
    split
    · rename_i hstate
      exact ⟨p, _, h.inside ⟨rfl, rfl, rfl⟩ (by rw [hi]; rfl) rfl rfl rfl h.late hstate⟩
    · exact ⟨p, _, h.gives ⟨rfl, rfl, rfl⟩ (by rw [hi]; rfl) rfl⟩
  | ctx =>
    have hstate := hkept rfl
    exact ⟨p, _, h.inside ⟨rfl, rfl, rfl⟩ (by rw [hi]; rfl) rfl rfl rfl (h.late.setCtx hkeeps rfl rfl)
      ⟨hstate, rfl⟩⟩
  | cb =>
    obtain ⟨hstate, hctx⟩ := hkept rfl
    exact ⟨p, _, h.inside ⟨rfl, rfl, rfl⟩ (by rw [hi]; rfl) rfl rfl rfl (h.late.setCb hkeeps rfl rfl)
      ⟨hstate, hctx, rfl⟩⟩
  | crc =>
    obtain ⟨hstate, hctx, hcb⟩ := hkept rfl
    refine ⟨_, _, h.queues ⟨.verify, call.ctx, call.processCb⟩ rfl rfl rfl (by rw [hi]; rfl) rfl rfl
      rfl (h.late.same rfl rfl) ⟨hcb, fun _ => hctx⟩ ?_⟩
    simp [hstate]

/-- `dfu_state` is cleared. -/
theorem CompletionInv.clears (h : CompletionInv tr s p o) (hev : Quiet ev)
    (hi : (s.callers i).holds = false) (hpc : pc.holds = false) (hkeeps : KeepsClearing s) :
    CompletionInv (tr ++ ev) (s.goes i { s.shared with dfuState := .zero } pc) p o := by
  refine ⟨h.shows.quiet hev, h.owned.move rfl rfl (hpc.trans hi.symm), ?_, h.late.clear hkeeps.ctx hkeeps.cb⟩
  have hwaits := h.waits
  have howned := h.owned
  cases o with
  | freeSpace => cases hw : p.waiting <;> rw [hw] at hwaits <;> exact hwaits
  | caller j =>
    cases hw : p.waiting with
    | none =>
      have hj : j ≠ i := by
        rintro rfl
        have hcaller := (howned.caller j).mpr rfl
        rw [hi] at hcaller
        contradiction
      have hchecks := hkeeps.checks j
      have hqueues : ¬ Queues (.zero : DfuState κ φ) := by
        rintro (hq | hq)
        · have hq : (64 : Nat) ≤ 0 := hq
          omega
        · have hq : (0 : UInt32) = 0-1 := hq
          exact absurd hq (by decide)
      rw [WaitsAt, DfuSystem.goes_shared, DfuSystem.goes_other _ _ _ _ hj]
      cases hpc' : s.callers j with
      | load call at' =>
        cases at' with
        | cb | queue => exact fun hq => absurd hq hqueues
        | _ => trivial
      | check call at' =>
        rw [hpc'] at hchecks
        cases at' with
        | ctx | cb | crc => contradiction
        | _ => trivial
      | idle | activate pending => trivial
    | some call =>
      rw [hw] at hwaits
      exact hwaits.elim
  | full =>
    obtain ⟨hcb, hstate⟩ := hkeeps.full (howned.full.mpr rfl)
    cases hw : p.waiting with
    | none =>
      rw [hw] at hwaits
      exact hwaits.elim
    | some call =>
      rw [hw] at hwaits
      obtain ⟨hkept, hround⟩ := hwaits
      have hnone := hkept.cb.symm.trans hcb
      refine ⟨⟨hnone.symm, fun hne => absurd hnone hne⟩, ?_⟩
      rw [hround, hstate]
      rfl
  | consumer =>
    have hcb := hkeeps.round (howned.consumer.mpr rfl)
    cases hw : p.waiting with
    | none =>
      rw [hw] at hwaits
      exact hwaits.elim
    | some call =>
      rw [hw] at hwaits
      obtain ⟨hkept, hround⟩ := hwaits
      have hnone := hkept.cb.symm.trans hcb
      exact ⟨⟨hnone.symm, fun hne => absurd hnone hne⟩, hround⟩

end

/-! The processing thread. -/

/-- While it has the token, the call waits for its round, and no callback is next. -/
theorem CompletionInv.processing (h : CompletionInv tr s p o) (hin : s.consumer.holds = true) :
    o = .consumer ∧ p.late = none ∧ ∃ call, p.waiting = some call ∧ Kept call s.shared.dfuState ∧
      s.consumer.round = some call.round := by
  obtain rfl := h.owned.consumer.mp hin
  have hwaits := h.waits
  have hlate := h.late
  cases hw : p.waiting with
  | none =>
    rw [hw] at hwaits
    exact hwaits.elim
  | some call =>
    rw [hw] at hwaits
    refine ⟨rfl, ?_, call, rfl, hwaits⟩
    cases hc : s.consumer with
    | testCb err | callCb cb err =>
      rw [hc] at hin
      contradiction
    | _ =>
      rw [hc] at hlate
      exact hlate

/-- It goes on in its round; the callback stays. -/
theorem CompletionInv.processes (h : CompletionInv tr s p o) (hev : Quiet ev) (hin : s.consumer.holds = true)
    (hpc : consumer.holds = true) (hround : consumer.round = s.consumer.round)
    (hfree : shared.freeSpace = s.shared.freeSpace) (hfull : shared.full = s.shared.full)
    (hkept : ∀ call, Kept call s.shared.dfuState → Kept call shared.dfuState) :
    CompletionInv (tr ++ ev) { s with shared, consumer } p .consumer := by
  obtain ⟨rfl, hl, call, hw, hcall, hr⟩ := h.processing hin
  refine ⟨h.shows.quiet hev, h.owned.consume_move hfree hfull (hpc.trans hin.symm), ?_, ?_⟩
  · rw [hw]
    exact ⟨hkept call hcall, hround.trans hr⟩
  · rw [hl]
    cases consumer with
    | testCb err | callCb cb err => contradiction
    | _ => rfl

/-- Outside of it, what waits is not touched. -/
theorem WaitsAt.consumes {waiting : Option (QueuedCall κ φ)} (h : WaitsAt s o waiting) (ho : o ≠ .consumer) :
    WaitsAt { s with consumer } o waiting := by
  cases o with
  | consumer => exact absurd rfl ho
  | _ => cases waiting <;> exact h

theorem CompletionInv.consumes_outside {p' : Progress κ φ} (h : CompletionInv tr s p o)
    (hin : s.consumer.holds = false) (hpc : consumer.holds = false) (hshows : p'.Shows (tr ++ ev))
    (hwaits : p'.waiting = p.waiting) (hlate : LateAt s.shared.dfuState consumer p'.late) :
    CompletionInv (tr ++ ev) { s with consumer } p' o := by
  have ho : o ≠ .consumer := by
    intro ho
    have hconsumer := h.owned.consumer.mpr ho
    rw [hin] at hconsumer
    contradiction
  refine ⟨hshows, h.owned.consume_move rfl rfl (hpc.trans hin.symm), ?_, hlate⟩
  rw [hwaits]
  exact h.waits.consumes ho

variable [DecidableEq ι]

theorem CompletionInv.consume_step (h : CompletionInv tr s p o) {outcome : RetCode}
    (hkeeps : KeepsCallbacks b s (.consume outcome)) :
    KeepsCompletion tr (dfuStep b s (.consume outcome)) := by
  have hlate := h.late
  simp only [KeepsCallbacks] at hkeeps
  simp only [dfuStep]
  cases hc : s.consumer with
  | waiting =>
    rw [hc] at hlate
    simp only [consumerStep]
    split_ifs with hfull
    · obtain rfl := h.owned.full.mp hfull
      have hwaits := h.waits
      cases hw : p.waiting with
      | none =>
        rw [hw] at hwaits
        exact hwaits.elim
      | some call =>
        rw [hw] at hwaits
        obtain ⟨hkept, hround⟩ := hwaits
        cases hst : s.shared.dfuState.state with
        | inProgress =>
          have hblocks : call.round = .blocks := by
            cases hr : call.round with
            | blocks => rfl
            | verify =>
              have hverify := hround.mp hr
              rw [hst] at hverify
              contradiction
          refine ⟨p, .consumer, h.shows.quiet ⟨rfl, rfl, rfl⟩, h.owned.consume_take rfl rfl rfl, ?_, hlate⟩
          rw [hw]
          exact ⟨hkept, congrArg some hblocks.symm⟩
        | finishedVerify =>
          refine ⟨p, .consumer, h.shows.quiet ⟨rfl, rfl, rfl⟩, h.owned.consume_take rfl rfl rfl, ?_, hlate⟩
          rw [hw]
          exact ⟨hkept, congrArg some (hround.mpr hst).symm⟩
    · exact ⟨p, o, h.consumes_outside (by rw [hc]; rfl) rfl (h.shows.quiet ⟨rfl, rfl, rfl⟩) rfl hlate⟩
  | openArea =>
    simp only [consumerStep]
    split_ifs <;> exact ⟨p, _, h.processes ⟨rfl, rfl, rfl⟩ (by rw [hc]; rfl) rfl (by rw [hc]; rfl) rfl rfl
      fun _ => id⟩
  | checkSize =>
    simp only [consumerStep]
    split_ifs with hlarge
    · have hcb := hkeeps hc hlarge
      refine ⟨p, _, h.processes ⟨rfl, rfl, rfl⟩ (by rw [hc]; rfl) rfl (by rw [hc]; rfl) rfl rfl
        fun call hkept => ?_⟩
      have hnone := hkept.cb.symm.trans hcb
      exact ⟨hnone.symm, fun hne => absurd hnone hne⟩
    · exact ⟨p, _, h.processes ⟨rfl, rfl, rfl⟩ (by rw [hc]; rfl) rfl (by rw [hc]; rfl) rfl rfl fun _ => id⟩
  | prepare =>
    simp only [consumerStep]
    split_ifs <;> exact ⟨p, _, h.processes ⟨rfl, rfl, rfl⟩ (by rw [hc]; rfl) rfl (by rw [hc]; rfl) rfl rfl
      fun _ hkept => hkept.same rfl rfl⟩
  | erase len =>
    simp only [consumerStep]
    split
    · exact ⟨p, _, h.processes ⟨rfl, rfl, rfl⟩ (by rw [hc]; rfl) rfl (by rw [hc]; rfl) rfl rfl fun _ => id⟩
    · dsimp only
      split_ifs <;> exact ⟨p, _, h.processes ⟨rfl, rfl, rfl⟩ (by rw [hc]; rfl) rfl (by rw [hc]; rfl) rfl rfl
        fun _ => id⟩
  | write len =>
    simp only [consumerStep]
    split_ifs <;> exact ⟨p, _, h.processes ⟨rfl, rfl, rfl⟩ (by rw [hc]; rfl) rfl (by rw [hc]; rfl) rfl rfl
      fun _ => id⟩
  | shift len =>
    simp only [consumerStep]
    split_ifs <;> exact ⟨p, _, h.processes ⟨rfl, rfl, rfl⟩ (by rw [hc]; rfl) rfl (by rw [hc]; rfl) rfl rfl
      fun _ hkept => hkept.same rfl rfl⟩
  | verify =>
    exact ⟨p, _, h.processes ⟨rfl, rfl, rfl⟩ (by rw [hc]; rfl) rfl (by rw [hc]; rfl) rfl rfl fun _ => id⟩
  | give round err =>
    obtain ⟨rfl, hl, call, hw, hkept, hround⟩ := h.processing (by rw [hc]; rfl)
    rw [hc] at hround
    have hround : call.round = round := (Option.some.inj hround).symm
    exact ⟨_, .freeSpace, h.shows.process hw hl hround, h.owned.consume_give rfl rfl rfl, trivial, rfl, hkept⟩
  | testCb err =>
    rw [hc] at hlate
    cases hl : p.late with
    | none =>
      rw [hl] at hlate
      exact hlate.elim
    | some late =>
      obtain ⟨call, ret⟩ := late
      rw [hl] at hlate
      obtain ⟨rfl, hkept⟩ := hlate
      have hcb := hkept.cb
      simp only [consumerStep]
      cases hcall : call.processCb with
      | none =>
        rw [hcall] at hcb
        rw [hcb]
        have hans : answer (call, ret) = none := by
          rw [answer, hcall]
          rfl
        exact ⟨_, o, h.consumes_outside (by rw [hc]; rfl) rfl
          (h.shows.finish hl rfl rfl (by rw [hans]; rfl)) rfl rfl⟩
      | some cb =>
        rw [hcall] at hcb
        rw [hcb]
        refine ⟨p, o, h.consumes_outside (by rw [hc]; rfl) rfl (h.shows.quiet ⟨rfl, rfl, rfl⟩) rfl ?_⟩
        rw [hl]
        exact ⟨rfl, hcall, hkept.ctx (by rw [hcall]; exact Option.some_ne_none cb)⟩
  | callCb cb err =>
    rw [hc] at hlate
    cases hl : p.late with
    | none =>
      rw [hl] at hlate
      exact hlate.elim
    | some late =>
      obtain ⟨call, ret⟩ := late
      rw [hl] at hlate
      obtain ⟨rfl, hcall, hctx⟩ := hlate
      have hans : answer (call, ret) = some (cb, s.shared.dfuState.ctx, ret) := by
        rw [answer, hcall, hctx]
        rfl
      exact ⟨_, o, h.consumes_outside (by rw [hc]; rfl) rfl
        (h.shows.finish hl rfl rfl (by rw [hans]; rfl)) rfl rfl⟩

theorem CompletionInv.step (h : CompletionInv tr s p o) {a : Action ι κ φ} (hkeeps : KeepsCallbacks b s a) :
    KeepsCompletion tr (dfuStep b s a) := by
  have hstay : KeepsCompletion tr (([] : List (Event ι κ φ)), s) := by
    refine ⟨p, o, ?_⟩
    dsimp only
    rwa [List.append_nil]
  cases a with
  | call i call =>
    cases hi : s.callers i with
    | idle =>
      simp only [dfuStep, hi]
      exact ⟨p, o, h.outside ⟨rfl, rfl, rfl⟩ (by rw [hi]; rfl) (by cases call <;> rfl)⟩
    | load | check | activate =>
      simp only [dfuStep, hi]
      exact hstay
  | run i =>
    cases hi : s.callers i with
    | idle =>
      simp only [dfuStep, hi]
      exact hstay
    | load call pc => exact h.load_step hi hkeeps
    | check call pc => exact h.check_step hi hkeeps
    | activate pending =>
      simp only [KeepsCallbacks, hi] at hkeeps
      simp only [dfuStep, hi, activateStep]
      split_ifs with hok
      · exact ⟨p, o, h.clears ⟨rfl, rfl, rfl⟩ (by rw [hi]; rfl) rfl (hkeeps hok)⟩
      · exact ⟨p, o, h.outside ⟨rfl, rfl, rfl⟩ (by rw [hi]; rfl) rfl⟩
  | timeout i =>
    cases hi : s.callers i with
    | idle | load | activate =>
      simp only [dfuStep, hi]
      exact hstay
    | check call pc =>
      cases pc with
      | take =>
        simp only [dfuStep, hi]
        split_ifs
        · exact hstay
        · exact ⟨p, o, h.outside ⟨rfl, rfl, rfl⟩ (by rw [hi]; rfl) rfl⟩
      | state | ctx | cb | crc =>
        simp only [dfuStep, hi]
        exact hstay
  | consume outcome => exact h.consume_step hkeeps

/-! The processing thread comes to the callbacks. -/

/-- How far it is, from the callback of one round to that of the next. -/
def ConsumerPc.rank : ConsumerPc φ → Nat
  | .testCb _ => 0
  | .callCb _ _ => 1
  | .waiting => 2
  | .openArea => 3
  | .checkSize => 4
  | .prepare => 5
  | .erase _ => 6
  | .write _ => 7
  | .shift _ | .verify => 8
  | .give _ _ => 9

theorem ConsumerPc.rank_le (consumer : ConsumerPc φ) : consumer.rank ≤ 9 := by
  cases consumer <;> simp [ConsumerPc.rank]

def score (tr : List (Event ι κ φ)) (s : DfuSystem ι κ φ) : Nat :=
  10*(tr.filterMap roundEvent).length+s.consumer.rank

def Action.consumes : Action ι κ φ → Bool
  | .consume _ => true
  | _ => false

theorem rank_lt (b : Build) (s : DfuSystem ι κ φ) (outcome : RetCode)
    (hbusy : s.consumer = .waiting → s.shared.full = true) (hgive : ∀ round err, s.consumer ≠ .give round err) :
    s.consumer.rank < (dfuStep b s (.consume outcome)).2.consumer.rank := by
  simp only [dfuStep]
  cases hc : s.consumer with
  | waiting =>
    simp only [consumerStep, hbusy hc, if_true]
    cases s.shared.dfuState.state <;> simp [ConsumerPc.rank]
  | openArea | checkSize | prepare | write len =>
    simp only [consumerStep]
    split_ifs <;> simp [ConsumerPc.rank]
  | erase len =>
    simp only [consumerStep]
    split
    · simp [ConsumerPc.rank]
    · dsimp only
      split_ifs <;> simp [ConsumerPc.rank]
  | shift len | verify | callCb cb err => simp [consumerStep, ConsumerPc.rank]
  | give round err => exact absurd hc (hgive round err)
  | testCb err =>
    simp only [consumerStep]
    split <;> simp [ConsumerPc.rank]

/-- A step of the processing thread takes it on, unless it waits. -/
theorem score_consume (b : Build) (tr : List (Event ι κ φ)) (s : DfuSystem ι κ φ) (outcome : RetCode)
    (hbusy : s.consumer = .waiting → s.shared.full = true) :
    score tr s < score (tr ++ (dfuStep b s (.consume outcome)).1) (dfuStep b s (.consume outcome)).2 := by
  have hlt := rank_lt b s outcome hbusy
  rw [score, score, List.filterMap_append, List.length_append]
  cases hc : s.consumer with
  | give round err =>
    simp only [dfuStep, hc, consumerStep, ConsumerPc.rank]
    have hone : ([.processed round err] : List (Event ι κ φ)).filterMap roundEvent = [(round, err)] := rfl
    rw [hone, List.length_singleton]
    omega
  | _ =>
    have hlt := hlt (by simp [hc])
    rw [hc] at hlt
    omega

/-- A step of another thread leaves it where it is. -/
theorem consumer_other (b : Build) (s : DfuSystem ι κ φ) {a : Action ι κ φ} (ha : a.consumes = false) :
    (dfuStep b s a).2.consumer = s.consumer := by
  cases a with
  | call i call =>
    simp only [dfuStep]
    split <;> rfl
  | run i =>
    simp only [dfuStep]
    split
    · rfl
    · rw [DfuSystem.advance_consumer]
    · rw [DfuSystem.advance_consumer]
    · rfl
  | timeout i =>
    simp only [dfuStep]
    split
    · split_ifs <;> rfl
    · rfl
  | consume outcome => contradiction

theorem score_other (b : Build) (tr : List (Event ι κ φ)) (s : DfuSystem ι κ φ) {a : Action ι κ φ}
    (ha : a.consumes = false) : score tr s ≤ score (tr ++ (dfuStep b s a).1) (dfuStep b s a).2 := by
  rw [score, score, List.filterMap_append, List.length_append, consumer_other b s ha]
  omega

omit [DecidableEq ι] in
/-- With nothing to do, it has come to the callbacks of all queued calls. -/
theorem CompletionInv.score_rest (h : CompletionInv tr s p o) (hc : s.consumer = .waiting)
    (hfull : s.shared.full = false) :
    p.late = none ∧ p.waiting = none ∧ score tr s = 10*(tr.filterMap queuedEvent).length+2 := by
  have hlate := h.late
  rw [hc] at hlate
  have hlate : p.late = none := hlate
  have hwaits := h.waits
  have hnone : p.waiting = none := by
    cases o with
    | full =>
      have hfull' := h.owned.full.mpr rfl
      rw [hfull] at hfull'
      contradiction
    | consumer =>
      have hconsumer := h.owned.consumer.mpr rfl
      rw [hc] at hconsumer
      contradiction
    | freeSpace | caller =>
      cases hw : p.waiting with
      | none => rfl
      | some call =>
        rw [hw] at hwaits
        exact hwaits.elim
  refine ⟨hlate, hnone, ?_⟩
  rw [score, hc, h.shows.queued, h.shows.rounds, hlate, hnone]
  simp [ConsumerPc.rank]

omit [DecidableEq ι] in
/-- A callback that is not over shows in the rank. -/
theorem CompletionInv.done_length (h : CompletionInv tr s p o) {n : Nat} (hscore : 10*n+2 ≤ score tr s) :
    n ≤ p.done.length := by
  have hrank := s.consumer.rank_le
  have hlate := h.late
  rw [score, h.shows.rounds, List.length_map, List.length_append] at hscore
  cases hl : p.late with
  | none =>
    rw [hl] at hscore
    have hzero : (none : Option (QueuedCall κ φ × RetCode)).toList.length = 0 := rfl
    omega
  | some call =>
    rw [hl] at hscore hlate
    have hone : (some call).toList.length = 1 := rfl
    have hlow : s.consumer.rank ≤ 1 := by
      cases hc : s.consumer with
      | testCb err | callCb cb err => simp [ConsumerPc.rank]
      | _ =>
        rw [hc] at hlate
        contradiction
    omega

/-! Runs. -/

omit [DecidableEq ι] in
theorem completionInv_start (m : Nor.Mem) :
    CompletionInv [] (.start m : DfuSystem ι κ φ) ⟨[], none, none⟩ .freeSpace :=
  ⟨⟨rfl, rfl, rfl⟩, owned_start m, trivial, rfl⟩

theorem CompletionInv.run (h : CompletionInv tr s p o) {actions : List (Action ι κ φ)}
    (hkeeps : Machine.Meets (dfuStep b) (KeepsCallbacks b) s actions) :
    ∃ p o, CompletionInv (tr ++ Machine.events (dfuStep b) s actions) (Machine.run (dfuStep b) s actions).2 p o :=
  Machine.events_invariant (I := fun tr s => ∃ p o, CompletionInv tr s p o)
    (fun _ _ _ hs ha => hs.elim fun _ hs => hs.elim fun _ hs => hs.step ha) tr s actions ⟨p, o, h⟩ hkeeps

/-- Of the calls queued before, all come to their end, unless the processing thread stands still. -/
theorem CompletionInv.run_score (h : CompletionInv tr s p o) {actions : List (Action ι κ φ)}
    (hkeeps : Machine.Meets (dfuStep b) (KeepsCallbacks b) s actions) {n : Nat}
    (hn : n ≤ (tr.filterMap queuedEvent).length) :
    min (10*n+2) (score tr s+actions.countP Action.consumes) ≤
      score (tr ++ Machine.events (dfuStep b) s actions) (Machine.run (dfuStep b) s actions).2 := by
  induction actions generalizing tr s p o with
  | nil => simp [Machine.events, Machine.run]
  | cons a actions ih =>
    obtain ⟨ha, hactions⟩ := hkeeps
    obtain ⟨p', o', h'⟩ := h.step ha
    have hn' : n ≤ ((tr ++ (dfuStep b s a).1).filterMap queuedEvent).length := by
      rw [List.filterMap_append, List.length_append]
      omega
    have hrun := ih h' hactions hn'
    rw [Machine.events_cons, ← List.append_assoc]
    refine Nat.le_trans ?_ hrun
    rw [List.countP_cons]
    cases hcons : a.consumes with
    | false =>
      have hle := score_other b tr s hcons
      simp only [Bool.false_eq_true, if_false]
      omega
    | true =>
      cases a with
      | consume outcome =>
        simp only [if_true]
        by_cases hrest : s.consumer = .waiting ∧ s.shared.full = false
        · obtain ⟨-, -, hscore⟩ := h.score_rest hrest.1 hrest.2
          have hstay : (dfuStep b s (.consume outcome)) = ([], s) := by
            obtain ⟨hc, hfull⟩ := hrest
            obtain ⟨shared, callers, consumer⟩ := s
            subst hc
            have hfull : shared.full = false := hfull
            simp [dfuStep, consumerStep, hfull]
          rw [hstay]
          dsimp only
          rw [List.append_nil]
          omega
        · have hbusy : s.consumer = .waiting → s.shared.full = true := by
            intro hc
            cases hfull : s.shared.full with
            | true => rfl
            | false => exact absurd ⟨hc, hfull⟩ hrest
          have hlt := score_consume b tr s outcome hbusy
          omega
      | call | run | timeout => contradiction

/-- In every run from power-up whose steps keep the callbacks, whichever threads call and whichever flash
access fails, each queued call gets its callback once, with its own context and the result of its own round,
and no other call gets one; twelve steps of the processing thread bring all calls queued before to their
end. -/
theorem queued_calls_answered_once (b : Build) (m : Nor.Mem) (actions more : List (Action ι κ φ))
    (h : Machine.Meets (dfuStep b) (KeepsCallbacks b) (.start m) (actions ++ more)) :
    let tr := Machine.events (dfuStep b) (.start m) actions
    EachAnsweredOnce tr (Machine.run (dfuStep b) (.start m) actions).2 ∧
      (12 ≤ more.countP Action.consumes →
        ∃ p : Progress κ φ, p.Shows (Machine.events (dfuStep b) (.start m) (actions ++ more)) ∧
          tr.filterMap queuedEvent <+: p.done.map (·.1)) := by
  dsimp only
  obtain ⟨hactions, hmore⟩ := Machine.meets_append.mp h
  obtain ⟨p, o, hinv⟩ := (completionInv_start m).run hactions
  obtain ⟨p', o', hinv'⟩ := hinv.run hmore
  have hscore := hinv.run_score hmore (le_refl _)
  rw [List.nil_append] at hinv hinv' hscore
  refine ⟨⟨p, hinv.shows, fun hc hfull => ?_⟩, fun hsteps => ⟨p', ?_, ?_⟩⟩
  · obtain ⟨hlate, hwaiting, -⟩ := hinv.score_rest hc hfull
    exact ⟨hlate, hwaiting⟩
  · rw [Machine.events_append]
    exact hinv'.shows
  · have hqueued := congrArg List.length hinv.shows.queued
    have hrounds := congrArg List.length hinv.shows.rounds
    have hwait : p.waiting.toList.length ≤ 1 := by
      cases p.waiting <;> simp
    simp only [List.length_append, List.length_map] at hqueued hrounds
    have hstart : 10*p.done.length+10*p.late.toList.length ≤ score (Machine.events (dfuStep b) (.start m) actions)
        (Machine.run (dfuStep b) (.start m) actions).2 := by
      rw [score, hrounds]
      omega
    have hdone := hinv'.done_length
      (n := ((Machine.events (dfuStep b) (.start m) actions).filterMap queuedEvent).length) (by omega)
    have hall := hinv'.shows.queued
    rw [List.filterMap_append, List.append_assoc] at hall
    have hfirst := List.prefix_append
      ((Machine.events (dfuStep b) (.start m) actions).filterMap queuedEvent)
      ((Machine.events (dfuStep b) (Machine.run (dfuStep b) (.start m) actions).2 more).filterMap queuedEvent)
    rw [hall] at hfirst
    exact List.prefix_of_prefix_length_le hfirst (List.prefix_append _ _) (by rwa [List.length_map])

instance (s : DfuSystem ι κ φ) (ctx : Option κ) [DecidableEq κ] : Decidable (KeepsCtx s ctx) := by
  unfold KeepsCtx
  split <;> infer_instance

instance (s : DfuSystem ι κ φ) (cb : Option φ) [DecidableEq φ] : Decidable (KeepsCb s cb) := by
  unfold KeepsCb
  split <;> infer_instance

instance (st : DfuState κ φ) : Decidable (Queues st) := inferInstanceAs (Decidable (_ ∨ _))

instance (st : DfuState κ φ) : Decidable (tooLarge b st) := inferInstanceAs (Decidable (_ ∧ _))

instance (s : DfuSystem ι κ φ) [Fintype ι] [DecidableEq κ] [DecidableEq φ] : Decidable (KeepsClearing s) :=
  decidable_of_iff ((∀ i, (s.callers i).checks = false) ∧
    (s.shared.full = true → s.shared.dfuState.dfuCb = none ∧ s.shared.dfuState.state = .inProgress) ∧
    (s.consumer.holds = true → s.shared.dfuState.dfuCb = none) ∧ KeepsCtx s none ∧ KeepsCb s none)
    ⟨fun ⟨h1, h2, h3, h4, h5⟩ => ⟨h1, h2, h3, h4, h5⟩, fun h => ⟨h.checks, h.full, h.round, h.ctx, h.cb⟩⟩

instance (s : DfuSystem ι κ φ) [Fintype ι] [DecidableEq κ] [DecidableEq φ] (a : Action ι κ φ) :
    Decidable (KeepsCallbacks b s a) := by
  unfold KeepsCallbacks
  split
  · split <;> infer_instance
  · infer_instance
  · infer_instance

/-- One thread loads two blocks and activates the image, the other one checks it. -/
def loadAndCheck : List (Action Bool Nat Nat) :=
  Action.call true (.load ⟨0, 2, [1, 2, 3], some 0, some 10⟩) :: List.replicate 9 (Action.run true) ++
    Action.call true (.load ⟨1, 2, [4], some 1, some 11⟩) :: List.replicate 9 (Action.run true) ++
    Action.call false (.check ⟨7, some 2, some 12⟩) :: List.replicate 10 (Action.consume .success) ++
    List.replicate 5 (Action.run false)

def thenActivate : List (Action Bool Nat Nat) :=
  List.replicate 12 (Action.consume .assertFails) ++ Action.call true (.activate .success) :: [.run true]

/-- On Pearl. -/
theorem queued_calls_answered_once_pearl :
    let tr := Machine.events (dfuStep (.of .pearl)) (.start fun _ => 0) loadAndCheck
    EachAnsweredOnce tr (Machine.run (dfuStep (.of .pearl)) (.start fun _ => 0) loadAndCheck).2 ∧
      ∃ p : Progress Nat Nat,
        p.Shows (Machine.events (dfuStep (.of .pearl)) (.start fun _ => 0) (loadAndCheck ++ thenActivate)) ∧
          tr.filterMap queuedEvent <+: p.done.map (·.1) :=
  have h := queued_calls_answered_once (.of .pearl) (fun _ => 0) loadAndCheck thenActivate (by decide +kernel)
  ⟨h.1, h.2 (by decide)⟩

/-- Block 0 waits in the buffer; block 1 is queued. -/
def largeImage : List (Action Unit Nat Nat) :=
  Action.call () (.load ⟨0, 6000, List.replicate 39 1, some 0, some 10⟩) :: List.replicate 9 (Action.run ()) ++
    Action.call () (.load ⟨1, 6000, List.replicate 39 2, some 1, some 11⟩) :: List.replicate 9 (Action.run ()) ++
    List.replicate 6 (Action.consume .success)

/-- On Pearl, block 1 of an image that does not fit is queued and never answered. -/
theorem queued_call_unanswered :
    ¬ ∀ (b : Build) (m : Nor.Mem) (actions : List (Action Unit Nat Nat)),
      EachAnsweredOnce (Machine.events (dfuStep b) (.start m) actions)
        (Machine.run (dfuStep b) (.start m) actions).2 := by
  intro h
  obtain ⟨p, hshows, hrest⟩ := h (.of .pearl) (fun _ => 0) largeImage
  obtain ⟨hlate, hwaiting⟩ := hrest (by decide +kernel) (by decide +kernel)
  have hqueued := hshows.queued
  have hcallbacks := hshows.callbacks
  have hone : (Machine.events (dfuStep (.of .pearl)) (.start fun _ => 0) largeImage).filterMap queuedEvent =
      [⟨.blocks, some 1, some 11⟩] := by decide +kernel
  have hnone : (Machine.events (dfuStep (.of .pearl)) (.start fun _ => 0) largeImage).filterMap callbackEvent =
      [] := by decide +kernel
  rw [hone, hlate, hwaiting] at hqueued
  simp only [Option.toList_none, List.map_nil, List.append_nil] at hqueued
  obtain ⟨call, hdone, hcall⟩ := List.map_eq_singleton_iff.mp hqueued.symm
  rw [hnone, hdone] at hcallbacks
  simp [answer, hcall] at hcallbacks

end OrbFirmware.Dfu

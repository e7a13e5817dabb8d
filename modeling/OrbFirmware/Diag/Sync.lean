import OrbFirmware.Machine

/-! `diag_sync` of `diag.c`: the chunks of the Memfault packetizer, published one by one, and then the statuses of the
modules. -/
namespace OrbFirmware.Diag
open OrbFirmware.Machine

/-- `orb_mcu_MemfaultEvent`. -/
structure MemfaultEvent where
  counter : UInt32
  chunk : List UInt8
  deriving DecidableEq, Repr

/-- Whether a call is in progress, and where: at the top of the loop, before `publish_new`, or before the statuses.
`more_data` is a variable of the call. -/
inductive DiagPc where
  | idle
  | loop (moreData : Bool)
  | publishing (moreData : Bool)
  | statuses
  deriving DecidableEq, Repr

/-- `queued` are the chunks that the packetizer has not handed out; the others are the static variables. -/
structure DiagSync where
  queued : List (List UInt8)
  mfltEvt : MemfaultEvent
  mfltEvtSynced : Bool
  memfaultCounter : UInt32
  pc : DiagPc
  deriving DecidableEq, Repr

inductive DiagEvent where
  | fetched (chunk : List UInt8)
  | published (event : MemfaultEvent)
  | returned (ret : Int)
  deriving DecidableEq, Repr

/-- The packetizer has a new chunk; `diag_sync` is called; or it goes on with what the packetizer reports or
`publish_new` returns: for all statuses, what it returns for each. -/
inductive DiagAction where
  | arrive (chunk : List UInt8)
  | call (report : Bool)
  | fetch (report : Bool)
  | publish (ret : Int)
  | statuses (rets : List Int)
  deriving DecidableEq, Repr

/-- `memfault_packetizer_data_available`, and what `memfault_packetizer_get_chunk` returns: a report of data is only
about chunks that have not been handed out. -/
def dataAvailable (report : Bool) (queued : List (List UInt8)) : Bool := report && !queued.isEmpty

/-- The top of the loop. -/
def fetchChunk (report moreData : Bool) (s : DiagSync) : List DiagEvent × DiagSync :=
  if s.mfltEvtSynced then
    match s.queued with
    | [] => ([], { s with mfltEvtSynced := false, pc := .publishing false })
    | chunk :: queued =>
      ([.fetched chunk],
        { s with
          queued
          mfltEvt := ⟨s.memfaultCounter, chunk⟩
          mfltEvtSynced := false
          pc := .publishing (dataAvailable report queued) })
  else ([], { s with pc := .publishing moreData })

/-- The rest of the loop, from `publish_new` on. -/
def publishChunk (ret : Int) (moreData : Bool) (s : DiagSync) : List DiagEvent × DiagSync :=
  if ret ≠ 0 then ([.returned ret], { s with pc := .idle })
  else
    ([.published s.mfltEvt],
      { s with
        memfaultCounter := s.memfaultCounter+1
        mfltEvtSynced := true
        pc := if moreData then .loop moreData else .statuses })

/-- `diag_sync`; what it returns is what `publish_new` returned for the last status, and success if there is none. -/
def diagStep (s : DiagSync) (a : DiagAction) : List DiagEvent × DiagSync :=
  match a, s.pc with
  | .arrive chunk, _ => ([], { s with queued := s.queued ++ [chunk] })
  | .call report, .idle =>
    ([], { s with pc := if dataAvailable report s.queued then .loop false else .statuses })
  | .fetch report, .loop moreData => fetchChunk report moreData s
  | .publish ret, .publishing moreData => publishChunk ret moreData s
  | .statuses rets, .statuses => ([.returned (rets.getLastD 0)], { s with pc := .idle })
  | _, _ => ([], s)

def diagInit : DiagSync := ⟨[], ⟨0, []⟩, true, 0, .idle⟩

/-! The chunks fetched and the events published so far. -/

structure ChunkLog where
  fetched : List (List UInt8)
  published : List MemfaultEvent
  deriving DecidableEq, Repr

def ChunkLog.next (log : ChunkLog) : DiagEvent → Unit × ChunkLog
  | .fetched chunk => ((), { log with fetched := log.fetched ++ [chunk] })
  | .published event => ((), { log with published := log.published ++ [event] })
  | .returned _ => ((), log)

/-- A call that returns success leaves no fetched chunk unpublished. -/
def NoneLeft (log : ChunkLog) : DiagEvent → Prop
  | .returned ret => ret = 0 → log.published.map MemfaultEvent.chunk = log.fetched
  | _ => True

instance (log : ChunkLog) : (e : DiagEvent) → Decidable (NoneLeft log e)
  | .returned _ => inferInstanceAs (Decidable (_ → _))
  | .fetched _ | .published _ => isTrue trivial

/-- The chunks the packetizer got. -/
def arrived (actions : List DiagAction) : List (List UInt8) :=
  actions.filterMap fun
    | .arrive chunk => some chunk
    | _ => none

/-- What was published are the chunks of the packetizer in order, each once and the counters without a gap; the last
one that was fetched may be missing. -/
structure Streams (chunks : List (List UInt8)) (log : ChunkLog) : Prop where
  handedOut : log.fetched <+: chunks
  published : log.published.map MemfaultEvent.chunk <+: log.fetched
  last : log.fetched.length ≤ log.published.length+1
  counters : log.published.map MemfaultEvent.counter = (List.range log.published.length).map UInt32.ofNat

/-- No chunk is left from an earlier call when the statuses are sent, or the last of these fails. -/
def NothingPending (s : ChunkLog × DiagSync) : DiagAction → Prop
  | .statuses rets => s.2.pc = .statuses → s.2.mfltEvtSynced = true ∨ rets.getLastD 0 ≠ 0
  | _ => True

variable {chunks : List (List UInt8)} {log : ChunkLog} {s : DiagSync}

/-- A chunk that has been fetched is published or in `mflt_evt`. -/
structure DiagInv (chunks : List (List UInt8)) (log : ChunkLog) (s : DiagSync) : Prop where
  queued : log.fetched ++ s.queued = chunks
  fetched : log.fetched = log.published.map MemfaultEvent.chunk ++ if s.mfltEvtSynced then [] else [s.mfltEvt.chunk]
  counters : log.published.map MemfaultEvent.counter = (List.range log.published.length).map UInt32.ofNat
  counter : s.memfaultCounter = UInt32.ofNat log.published.length
  event : s.mfltEvtSynced = false → s.mfltEvt.counter = s.memfaultCounter
  more : ∀ moreData, s.pc = .loop moreData → s.queued ≠ []
  publishing : ∀ moreData, s.pc = .publishing moreData → s.mfltEvtSynced = false ∧ (moreData = true → s.queued ≠ [])

theorem dataAvailable_nonempty {report : Bool} {queued : List (List UInt8)} (h : dataAvailable report queued = true) :
    queued ≠ [] := by
  rintro rfl
  simp [dataAvailable] at h

theorem DiagInv.nonePending (h : DiagInv chunks log s) :
    log.published.map MemfaultEvent.chunk = log.fetched ↔ s.mfltEvtSynced = true := by
  rw [h.fetched]
  cases s.mfltEvtSynced <;> simp

theorem DiagInv.streams (h : DiagInv chunks log s) : Streams chunks log where
  handedOut := ⟨s.queued, h.queued⟩
  published := h.fetched ▸ List.prefix_append _ _
  last := by
    rw [h.fetched, List.length_append, List.length_map]
    split <;> simp
  counters := h.counters

theorem DiagInv.arrive (h : DiagInv chunks log s) (chunk : List UInt8) :
    DiagInv (chunks ++ [chunk]) log { s with queued := s.queued ++ [chunk] } where
  queued := by rw [← List.append_assoc, h.queued]
  fetched := h.fetched
  counters := h.counters
  counter := h.counter
  event := h.event
  more _ _ := List.append_ne_nil_of_right_ne_nil _ nofun
  publishing moreData hpc := ⟨(h.publishing moreData hpc).1, fun _ => List.append_ne_nil_of_right_ne_nil _ nofun⟩

theorem DiagInv.fetch (h : DiagInv chunks log s) (report : Bool) {moreData : Bool} (hpc : s.pc = .loop moreData) :
    DiagInv chunks (run ChunkLog.next log (fetchChunk report moreData s).1).2 (fetchChunk report moreData s).2 := by
  by_cases hsynced : s.mfltEvtSynced = true
  · have hfetched := h.fetched
    have hqueued := h.queued
    rw [if_pos hsynced, List.append_nil] at hfetched
    rw [fetchChunk, if_pos hsynced]
    cases hq : s.queued with
    | nil => exact absurd hq (h.more moreData hpc)
    | cons chunk queued =>
      rw [hq] at hqueued
      refine ⟨?_, ?_, h.counters, h.counter, fun _ => rfl, nofun, ?_⟩
      · exact (List.append_assoc _ _ _).trans hqueued
      · exact congrArg (· ++ [chunk]) hfetched
      · rintro _ hpublishing
        refine ⟨rfl, fun hmore => dataAvailable_nonempty (?_ : dataAvailable report queued = true)⟩
        rw [← hmore]
        exact DiagPc.publishing.inj hpublishing
  · rw [fetchChunk, if_neg hsynced]
    have hpending := Bool.eq_false_iff.mpr hsynced
    exact ⟨h.queued, h.fetched, h.counters, h.counter, h.event, nofun, fun _ _ => ⟨hpending, fun _ => h.more moreData hpc⟩⟩

theorem DiagInv.publish (h : DiagInv chunks log s) (ret : Int) {moreData : Bool} (hpc : s.pc = .publishing moreData) :
    DiagInv chunks (run ChunkLog.next log (publishChunk ret moreData s).1).2 (publishChunk ret moreData s).2 := by
  obtain ⟨hsynced, hmore⟩ := h.publishing moreData hpc
  by_cases hret : ret ≠ 0
  · rw [publishChunk, if_pos hret]
    exact ⟨h.queued, h.fetched, h.counters, h.counter, h.event, nofun, nofun⟩
  · have hfetched := h.fetched
    rw [hsynced, if_neg nofun] at hfetched
    rw [publishChunk, if_neg hret]
    refine ⟨h.queued, ?_, ?_, ?_, nofun, fun again hagain => ?_, fun again hagain => ?_⟩
    · change log.fetched = (log.published ++ [s.mfltEvt]).map MemfaultEvent.chunk ++ []
      rw [List.append_nil, List.map_append]
      exact hfetched
    · change (log.published ++ [s.mfltEvt]).map MemfaultEvent.counter = (List.range (log.published ++ [s.mfltEvt]).length).map _
      rw [List.map_append, List.length_append, List.length_singleton, List.range_succ, List.map_append, h.counters]
      exact congrArg (_ ++ [·]) ((h.event hsynced).trans h.counter)
    · change s.memfaultCounter+1 = UInt32.ofNat (log.published ++ [s.mfltEvt]).length
      rw [List.length_append, List.length_singleton, UInt32.ofNat_add, h.counter]
      rfl
    · dsimp only at hagain
      split_ifs at hagain with hmoreData
      exact hmore hmoreData
    · dsimp only at hagain
      split_ifs at hagain

theorem DiagInv.call (h : DiagInv chunks log s) (report : Bool) :
    DiagInv chunks log { s with pc := if dataAvailable report s.queued then .loop false else .statuses } := by
  refine ⟨h.queued, h.fetched, h.counters, h.counter, h.event, fun _ hloop => ?_, fun _ hpublishing => ?_⟩
  · dsimp only at hloop
    split_ifs at hloop with havailable
    exact dataAvailable_nonempty havailable
  · dsimp only at hpublishing
    split_ifs at hpublishing

/-- The steps of a call. -/
theorem DiagInv.advance (h : DiagInv chunks log s) {a : DiagAction} (ha : ∀ chunk, a ≠ .arrive chunk) :
    DiagInv chunks (run ChunkLog.next log (diagStep s a).1).2 (diagStep s a).2 := by
  cases hpc : s.pc with
  | idle =>
    cases a with
    | arrive chunk => exact absurd rfl (ha chunk)
    | call report =>
      simp only [diagStep, hpc]
      exact h.call report
    | fetch report | publish ret | statuses rets =>
      simp only [diagStep, hpc]
      exact h
  | loop moreData =>
    cases a with
    | arrive chunk => exact absurd rfl (ha chunk)
    | fetch report =>
      simp only [diagStep, hpc]
      exact h.fetch report hpc
    | call report | publish ret | statuses rets =>
      simp only [diagStep, hpc]
      exact h
  | publishing moreData =>
    cases a with
    | arrive chunk => exact absurd rfl (ha chunk)
    | publish ret =>
      simp only [diagStep, hpc]
      exact h.publish ret hpc
    | call report | fetch report | statuses rets =>
      simp only [diagStep, hpc]
      exact h
  | statuses =>
    cases a with
    | arrive chunk => exact absurd rfl (ha chunk)
    | statuses rets =>
      simp only [diagStep, hpc]
      exact ⟨h.queued, h.fetched, h.counters, h.counter, h.event, nofun, nofun⟩
    | call report | fetch report | publish ret =>
      simp only [diagStep, hpc]
      exact h

theorem DiagInv.step (h : DiagInv chunks log s) (a : DiagAction) :
    DiagInv (chunks ++ arrived [a]) (run ChunkLog.next log (diagStep s a).1).2 (diagStep s a).2 := by
  cases a with
  | arrive chunk => exact h.arrive chunk
  | call | fetch | publish | statuses =>
    change DiagInv (chunks ++ []) _ _
    rw [List.append_nil]
    exact h.advance nofun

theorem DiagInv.run (h : DiagInv chunks log s) (actions : List DiagAction) :
    DiagInv (chunks ++ arrived actions) (run ChunkLog.next log (events diagStep s actions)).2
      (run diagStep s actions).2 := by
  induction actions generalizing chunks log s with
  | nil =>
    change DiagInv (chunks ++ []) _ _
    rw [List.append_nil]
    exact h
  | cons a actions ih =>
    have hcons : arrived (a :: actions) = arrived [a] ++ arrived actions := List.filterMap_append (l := [a])
    rw [hcons, ← List.append_assoc, events_cons, run_append]
    exact ih (h.step a)

/-- A step that returns success leaves nothing, exactly if nothing is pending. -/
theorem DiagInv.noneLeft_iff (h : DiagInv chunks log s) (a : DiagAction) :
    Meets ChunkLog.next NoneLeft log (diagStep s a).1 ↔ NothingPending (log, s) a := by
  cases a with
  | arrive chunk => exact Iff.rfl
  | call report =>
    cases hpc : s.pc with
    | idle | loop moreData | publishing moreData | statuses =>
      simp only [diagStep, hpc]
      exact Iff.rfl
  | fetch report =>
    cases hpc : s.pc with
    | loop moreData =>
      simp only [diagStep, hpc, fetchChunk]
      split
      · split
        · exact Iff.rfl
        · exact iff_of_true ⟨trivial, trivial⟩ trivial
      · exact Iff.rfl
    | idle | publishing moreData | statuses =>
      simp only [diagStep, hpc]
      exact Iff.rfl
  | publish ret =>
    cases hpc : s.pc with
    | publishing moreData =>
      simp only [diagStep, hpc]
      by_cases hret : ret ≠ 0
      · rw [publishChunk, if_pos hret]
        exact iff_of_true ⟨fun hzero => absurd hzero hret, trivial⟩ trivial
      · rw [publishChunk, if_neg hret]
        exact iff_of_true ⟨trivial, trivial⟩ trivial
    | idle | loop moreData | statuses =>
      simp only [diagStep, hpc]
      exact Iff.rfl
  | statuses rets =>
    cases hpc : s.pc with
    | statuses =>
      simp only [diagStep, hpc, NothingPending, forall_const]
      rw [← h.nonePending]
      constructor
      · rintro ⟨hleft, -⟩
        exact (Decidable.em (rets.getLastD 0 = 0)).imp hleft id
      · rintro (hnone | hfailed)
        · exact ⟨fun _ => hnone, trivial⟩
        · exact ⟨fun hzero => absurd hzero hfailed, trivial⟩
    | idle | loop moreData | publishing moreData =>
      simp only [diagStep, hpc, NothingPending]
      exact iff_of_true trivial nofun

theorem DiagInv.init : DiagInv [] ⟨[], []⟩ diagInit := ⟨rfl, rfl, rfl, rfl, nofun, nofun, nofun⟩

end OrbFirmware.Diag

import OrbFirmware.Machine

/-! The heartbeat of the Jetson: `heartbeat_boom` in the steps of its caller, the thread that waits for the next one,
and the time in milliseconds. -/
namespace OrbFirmware.Heartbeat

/-- `K_SECONDS` in milliseconds; the product has 32 bits. -/
def kSeconds (s : UInt32) : Nat := (s * 1000).toNat

/-- Where `heartbeat_thread` stands: there is none; at the read of the delay; at the take of `heartbeat_sem` with the
delay read; pending on it; its wait has run out, before the write of 0; at the call of the callback; at the test of the
delay; out of the loop, before `thread_id` is cleared. -/
inductive ThreadPc where
  | none
  | reads
  | takes (delayS : UInt32)
  | waits (left : Nat)
  | timedOut
  | calls
  | tests
  | leaves
  deriving DecidableEq

/-- Where the caller of `heartbeat_boom` stands: in no call; at the test of `thread_id`; before the write of it, the
thread being created; before it gives `heartbeat_sem`. -/
inductive BoomPc where
  | idle
  | checks (delayS : UInt32)
  | assigns (delayS : UInt32)
  | gives (delayS : UInt32)
  deriving DecidableEq

/-- Of the last heartbeat given, `last` has the time and the delay; `busyMs` is the time since then that the thread
could run; `called` says that the callback was called since the last heartbeat came in, and `outAt` when a wait of the
thread last ran out. -/
structure Monitor where
  now : Nat
  globalDelayS : UInt32
  heartbeatSem : Bool
  threadId : Bool
  thread : ThreadPc
  boom : BoomPc
  last : Option (Nat × UInt32)
  busyMs : Nat
  called : Bool
  outAt : Nat
  deriving DecidableEq

inductive MonitorAction where
  | boom (delayS : UInt32)
  | caller
  | thread
  | tick

/-- The thread takes a step; the output says that it is the call of the callback. A wait of no time does not pend. -/
def heartbeatThread (s : Monitor) : Bool × Monitor :=
  match s.thread with
  | .none => (false, s)
  | .reads => (false, { s with thread := .takes s.globalDelayS })
  | .takes delayS =>
    (false, if s.heartbeatSem then { s with heartbeatSem := false, thread := .tests }
      else if kSeconds delayS = 0 then { s with thread := .tests }
      else { s with thread := .waits (kSeconds delayS) })
  | .waits _ => (false, s)
  | .timedOut => (false, { s with globalDelayS := 0, thread := .calls })
  | .calls => (true, { s with called := true, thread := .tests })
  | .tests => (false, { s with thread := if s.globalDelayS = 0 then .leaves else .reads })
  | .leaves => (false, { s with threadId := false, thread := .none })

/-- `k_sem_give` readies the thread that pends on the semaphore, or counts. -/
def kSemGive (s : Monitor) : Monitor :=
  match s.thread with
  | .waits _ => { s with thread := .tests }
  | _ => { s with heartbeatSem := true }

/-- The caller of `heartbeat_boom` takes its next step. -/
def heartbeatBoom (s : Monitor) : Monitor :=
  match s.boom with
  | .idle => s
  | .checks delayS =>
    if s.threadId = false ∧ s.globalDelayS ≠ 0 then { s with thread := .reads, boom := .assigns delayS }
    else { s with boom := .gives delayS }
  | .assigns delayS => { s with threadId := true, boom := .gives delayS }
  | .gives delayS => { kSemGive s with boom := .idle, last := some (s.now, delayS), busyMs := 0 }

/-- A millisecond passes. -/
def tick (s : Monitor) : Monitor :=
  match s.thread with
  | .waits left =>
    if left ≤ 1 then { s with now := s.now + 1, thread := .timedOut, outAt := s.now + 1 }
    else { s with now := s.now + 1, thread := .waits (left - 1) }
  | _ => { s with now := s.now + 1, busyMs := s.busyMs + 1 }

/-- A heartbeat comes in when no other is under way: one thread handles them all. -/
def monitorStep (s : Monitor) : MonitorAction → Bool × Monitor
  | .boom delayS =>
    (false, if s.boom = .idle then { s with globalDelayS := delayS, boom := .checks delayS, called := false } else s)
  | .caller => (false, heartbeatBoom s)
  | .thread => heartbeatThread s
  | .tick => (false, tick s)

/-- Before the first heartbeat. -/
def monitorInit : Monitor where
  now := 0
  globalDelayS := 0
  heartbeatSem := false
  threadId := false
  thread := .none
  boom := .idle
  last := none
  busyMs := 0
  called := false
  outAt := 0

/-- The delay of the heartbeat that came in last. -/
def Monitor.asked (s : Monitor) : UInt32 :=
  match s.boom with
  | .idle => (s.last.map Prod.snd).getD 0
  | .checks delayS | .assigns delayS | .gives delayS => delayS

/-- The delay that the last heartbeat given asked for, if it did, has run out at this time. -/
def Monitor.Late (s : Monitor) (time : Nat) : Prop :=
  ∃ t delayS, s.last = some (t, delayS) ∧ delayS ≠ 0 ∧ t + kSeconds delayS ≤ time

/-- What each place of the thread knows when no heartbeat is under way. -/
def Monitor.Knows (s : Monitor) : Prop :=
  match s.thread with
  | .takes delayS => s.heartbeatSem = true ∨ delayS = s.asked
  | .waits left => s.Late (s.now + left)
  | .timedOut | .calls => s.Late s.outAt ∨ ∃ t delayS, s.last = some (t, delayS) ∧ s.outAt ≤ t
  | _ => True

/-- The thread has written 0 over the delay. -/
def ThreadPc.zeroed : ThreadPc → Bool
  | .calls | .tests | .leaves | .none => true
  | _ => false

structure MonitorInv (s : Monitor) : Prop where
  id : s.threadId = false → s.thread = .none ∨ ∃ delayS, s.boom = .assigns delayS
  delay : s.globalDelayS = s.asked ∨ s.globalDelayS = 0 ∧ s.thread.zeroed = true
  past : ∀ t delayS, s.last = some (t, delayS) → t ≤ s.now
  out : s.outAt ≤ s.now
  knows : s.boom = .idle → s.Knows

variable {s : Monitor}

theorem Monitor.asked_last (h : s.asked ≠ 0) (hidle : s.boom = .idle) :
    ∃ t, s.last = some (t, s.asked) := by
  unfold Monitor.asked at h ⊢
  rw [hidle] at h ⊢
  cases hlast : s.last with
  | none =>
    rw [hlast] at h
    exact absurd rfl h
  | some last => exact ⟨last.1, rfl⟩

theorem monitorInit_inv : MonitorInv monitorInit where
  id := fun _ => .inl rfl
  delay := .inl rfl
  past := fun t delayS h => by cases h
  out := Nat.le_refl 0
  knows := fun _ => trivial

/-- A heartbeat comes in: nothing is known until it is given. -/
theorem MonitorInv.boom (h : MonitorInv s) (delayS : UInt32) : MonitorInv (monitorStep s (.boom delayS)).2 := by
  unfold monitorStep
  by_cases hidle : s.boom = .idle
  · simp only [hidle, if_true]
    exact {
      id := fun hid => (h.id hid).imp_right fun ⟨_, hassigns⟩ => by simp [hidle] at hassigns
      delay := .inl rfl
      past := h.past
      out := h.out
      knows := fun hboom => BoomPc.noConfusion hboom }
  · simp only [hidle, if_false]
    exact h

/-- A heartbeat under way takes a step that does not give the semaphore. -/
theorem MonitorInv.underway (h : MonitorInv s) {s' : Monitor} (hboom : s'.boom ≠ .idle) (hasked : s'.asked = s.asked)
    (hid : s'.threadId = false → s'.thread = .none ∨ ∃ delayS, s'.boom = .assigns delayS)
    (hdelay : s'.globalDelayS = s.globalDelayS) (hthread : s.thread.zeroed = true → s'.globalDelayS = 0 → s'.thread = s.thread)
    (hlast : s'.last = s.last) (hnow : s'.now = s.now) (hout : s'.outAt = s.outAt) : MonitorInv s' where
  id := hid
  delay := by
    rw [hasked, hdelay]
    rcases h.delay with hdelay' | ⟨hzero, hzeroed⟩
    · exact .inl hdelay'
    · exact .inr ⟨hzero, (hthread hzeroed (hdelay.trans hzero)).symm ▸ hzeroed⟩
  past := by
    rw [hlast, hnow]
    exact h.past
  out := by
    rw [hout, hnow]
    exact h.out
  knows := fun hidle => absurd hidle hboom

/-- Giving the semaphore wakes the thread or lets its next take through: the time is measured from here. -/
theorem MonitorInv.gives (h : MonitorInv s) {delayS : UInt32} (hboom : s.boom = .gives delayS) :
    MonitorInv (heartbeatBoom s) := by
  have hdelay := h.delay
  simp only [Monitor.asked, hboom] at hdelay
  have hid : s.threadId = false → s.thread = .none := by
    intro hfalse
    rcases h.id hfalse with hnone | ⟨_, hassigns⟩
    · exact hnone
    · simp [hboom] at hassigns
  have hpast : ∀ t d, some (s.now, delayS) = some (t, d) → t ≤ s.now := by
    intro t d hlast
    obtain ⟨rfl, -⟩ := Prod.mk.inj (Option.some.inj hlast)
    exact Nat.le_refl _
  cases hthread : s.thread with
  | waits left =>
    simp only [hthread, ThreadPc.zeroed, Bool.false_eq_true, and_false, or_false, reduceCtorEq, imp_false] at hdelay hid
    simp only [heartbeatBoom, hboom, kSemGive, hthread]
    exact ⟨fun hfalse => absurd hfalse hid, .inl hdelay, hpast, h.out, fun _ => trivial⟩
  | _ =>
    simp only [hthread, reduceCtorEq, imp_false] at hdelay hid
    simp only [heartbeatBoom, hboom, kSemGive, hthread]
    refine ⟨fun hfalse => .inl (by simp [hid] at hfalse ⊢), hdelay, hpast, h.out, fun _ => ?_⟩
    first
      | exact True.intro
      | exact .inl rfl
      | exact .inr ⟨s.now, delayS, rfl, h.out⟩

theorem MonitorInv.caller (h : MonitorInv s) : MonitorInv (heartbeatBoom s) := by
  cases hboom : s.boom with
  | idle => simpa only [heartbeatBoom, hboom] using h
  | checks delayS =>
    simp only [heartbeatBoom, hboom]
    split
    case isTrue hnone =>
      refine h.underway (by simp) (by simp only [Monitor.asked, hboom]) (fun _ => .inr ⟨delayS, rfl⟩) rfl ?_ rfl rfl rfl
      exact fun _ hzero => absurd hzero hnone.2
    case isFalse =>
      refine h.underway (by simp) (by simp only [Monitor.asked, hboom]) (fun hfalse => ?_) rfl (fun _ _ => rfl) rfl rfl rfl
      exact (h.id hfalse).imp_right fun ⟨_, hassigns⟩ => by simp [hboom] at hassigns
  | assigns delayS =>
    simp only [heartbeatBoom, hboom]
    exact h.underway (by simp) (by simp only [Monitor.asked, hboom]) (fun hfalse => Bool.noConfusion hfalse) rfl
      (fun _ _ => rfl) rfl rfl rfl
  | gives delayS => exact h.gives hboom

/-- The thread goes on to another place; past the 0 it has written only where there is another delay. -/
theorem MonitorInv.goes (h : MonitorInv s) {pc : ThreadPc} {sem called : Bool} (hold : s.thread ≠ .none)
    (hpc : pc.zeroed = true ∨ s.thread.zeroed = false ∨ s.globalDelayS ≠ 0)
    (hknows : s.boom = .idle → Monitor.Knows { s with thread := pc, heartbeatSem := sem, called := called }) :
    MonitorInv { s with thread := pc, heartbeatSem := sem, called := called } where
  id := fun hfalse => (h.id hfalse).imp_left fun hnone => absurd hnone hold
  delay := by
    rcases h.delay with hdelay | ⟨hzero, hzeroed⟩
    · exact .inl hdelay
    · rcases hpc with hpc | hpc | hpc
      · exact .inr ⟨hzero, hpc⟩
      · exact absurd hzeroed (by simp [hpc])
      · exact absurd hzero hpc
  past := h.past
  out := h.out
  knows := hknows

/-- The wait that starts is for the delay of the last heartbeat given. -/
theorem MonitorInv.late (h : MonitorInv s) {delayS : UInt32} (hidle : s.boom = .idle) (hdelay : delayS = s.asked)
    (hpos : kSeconds delayS ≠ 0) : s.Late (s.now + kSeconds delayS) := by
  have hnonzero : delayS ≠ 0 := by
    rintro rfl
    exact hpos rfl
  obtain ⟨t, hlast⟩ := Monitor.asked_last (hdelay ▸ hnonzero) hidle
  exact ⟨t, delayS, hdelay ▸ hlast, hnonzero, Nat.add_le_add_right (h.past t _ hlast) _⟩

theorem MonitorInv.thread (h : MonitorInv s) : MonitorInv (heartbeatThread s).2 := by
  cases hthread : s.thread with
  | none => simpa only [heartbeatThread, hthread] using h
  | waits left => simpa only [heartbeatThread, hthread] using h
  | reads =>
    simp only [heartbeatThread, hthread]
    refine h.goes (by simp [hthread]) (.inr (.inl (by simp [hthread, ThreadPc.zeroed]))) fun _ => .inr ?_
    rcases h.delay with hdelay | ⟨_, hzeroed⟩
    · exact hdelay
    · simp [hthread, ThreadPc.zeroed] at hzeroed
  | takes delayS =>
    have hold : s.thread ≠ .none := by simp [hthread]
    have hzeroed : s.thread.zeroed = false := by simp [hthread, ThreadPc.zeroed]
    simp only [heartbeatThread, hthread]
    split
    case isTrue => exact h.goes hold (.inl rfl) fun _ => trivial
    case isFalse hsem =>
      split
      case isTrue => exact h.goes hold (.inl rfl) fun _ => trivial
      case isFalse hpos =>
        refine h.goes hold (.inr (.inl hzeroed)) fun hidle => ?_
        have hknows := h.knows hidle
        simp only [Monitor.Knows, hthread] at hknows
        exact h.late hidle (hknows.resolve_left hsem) hpos
  | timedOut =>
    simp only [heartbeatThread, hthread]
    have hknows := h.knows
    simp only [Monitor.Knows, hthread] at hknows
    exact {
      id := fun hfalse => (h.id hfalse).imp_left fun hnone => by simp [hthread] at hnone
      delay := .inr ⟨rfl, rfl⟩
      past := h.past
      out := h.out
      knows := hknows }
  | calls =>
    simp only [heartbeatThread, hthread]
    exact h.goes (by simp [hthread]) (.inl rfl) fun _ => trivial
  | tests =>
    simp only [heartbeatThread, hthread]
    split
    case isTrue => exact h.goes (by simp [hthread]) (.inl rfl) fun _ => trivial
    case isFalse hnonzero => exact h.goes (by simp [hthread]) (.inr (.inr hnonzero)) fun _ => trivial
  | leaves =>
    simp only [heartbeatThread, hthread]
    exact {
      id := fun _ => .inl rfl
      delay := h.delay.imp_right fun hzero => ⟨hzero.1, rfl⟩
      past := h.past
      out := h.out
      knows := fun _ => trivial }

/-- Time that passes while the thread does not pend. -/
theorem tick_runs (hthread : ∀ left, s.thread ≠ .waits left) :
    tick s = { s with now := s.now + 1, busyMs := s.busyMs + 1 } := by
  unfold tick
  split
  case h_1 left heq => exact absurd heq (hthread left)
  case h_2 => rfl

theorem MonitorInv.tick (h : MonitorInv s) : MonitorInv (tick s) := by
  have hpast : ∀ t delayS, s.last = some (t, delayS) → t ≤ s.now + 1 :=
    fun t delayS hlast => Nat.le_succ_of_le (h.past t delayS hlast)
  by_cases hwaits : ∃ left, s.thread = .waits left
  · obtain ⟨left, hthread⟩ := hwaits
    have hid : s.threadId = false → ∃ delayS, s.boom = .assigns delayS :=
      fun hfalse => (h.id hfalse).resolve_left (by simp [hthread])
    have hdelay : s.globalDelayS = s.asked := h.delay.resolve_right (by simp [hthread, ThreadPc.zeroed])
    have hknows := h.knows
    simp only [Monitor.Knows, hthread] at hknows
    simp only [Heartbeat.tick, hthread]
    split
    case isTrue hle =>
      refine ⟨fun hfalse => .inr (hid hfalse), .inl hdelay, hpast, Nat.le_refl _, fun hidle => .inl ?_⟩
      obtain ⟨t, delayS, hlast, hnonzero, hlate⟩ := hknows hidle
      exact ⟨t, delayS, hlast, hnonzero, Nat.le_trans hlate (Nat.add_le_add_left hle s.now)⟩
    case isFalse hlt =>
      refine ⟨fun hfalse => .inr (hid hfalse), .inl hdelay, hpast, Nat.le_succ_of_le h.out, fun hidle => ?_⟩
      obtain ⟨t, delayS, hlast, hnonzero, hlate⟩ := hknows hidle
      exact ⟨t, delayS, hlast, hnonzero, Nat.le_trans hlate (by dsimp only; omega)⟩
  · rw [tick_runs fun left hthread => hwaits ⟨left, hthread⟩]
    refine ⟨h.id, h.delay, hpast, Nat.le_succ_of_le h.out, fun hidle => ?_⟩
    have hknows := h.knows hidle
    cases hthread : s.thread with
    | waits left => exact absurd ⟨left, hthread⟩ hwaits
    | takes delayS =>
      simp only [Monitor.Knows, hthread] at hknows ⊢
      exact hknows
    | timedOut | calls =>
      simp only [Monitor.Knows, hthread] at hknows ⊢
      exact hknows
    | _ => exact True.intro

theorem MonitorInv.step (h : MonitorInv s) (a : MonitorAction) : MonitorInv (monitorStep s a).2 := by
  cases a with
  | boom delayS => exact h.boom delayS
  | caller => exact h.caller
  | thread => exact h.thread
  | tick => exact h.tick

/-- In whatever order the caller and the thread take their steps: when the callback is called and no heartbeat is under
way, the last one given had asked for monitoring and its delay had run out when the wait of the thread did, or it was
given after that. -/
theorem callback_late (actions : List MonitorAction) (a : MonitorAction) (s : Monitor)
    (hs : (Machine.run monitorStep monitorInit actions).2 = s) (hcalled : (monitorStep s a).1 = true)
    (hidle : s.boom = .idle) :
    ∃ t delayS, s.last = some (t, delayS) ∧ s.outAt ≤ s.now ∧
      (delayS ≠ 0 ∧ t + kSeconds delayS ≤ s.outAt ∨ s.outAt ≤ t) := by
  have hinv : MonitorInv s := by
    rw [← hs]
    exact Machine.run_invariant (fun _ a h => h.step a) monitorInit actions monitorInit_inv
  cases a with
  | boom delayS => simp [monitorStep] at hcalled
  | caller => simp [monitorStep] at hcalled
  | tick => simp [monitorStep] at hcalled
  | thread =>
    cases hthread : s.thread with
    | calls =>
      have hknows := hinv.knows hidle
      simp only [Monitor.Knows, hthread] at hknows
      rcases hknows with ⟨t, delayS, hlast, hnonzero, hlate⟩ | ⟨t, delayS, hlast, hbefore⟩
      · exact ⟨t, delayS, hlast, hinv.out, .inl ⟨hnonzero, hlate⟩⟩
      · exact ⟨t, delayS, hlast, hinv.out, .inr hbefore⟩
    | _ => simp [monitorStep, heartbeatThread, hthread] at hcalled

/-- A heartbeat of one second, with none after it. -/
def lateRun : List MonitorAction :=
  [.boom 1, .caller, .caller, .caller, .thread, .thread, .thread, .thread, .thread] ++ List.replicate 1000 .tick ++ [.thread]

theorem callback_late_second :
    ∃ t delayS, (Machine.run monitorStep monitorInit lateRun).2.last = some (t, delayS) ∧
      (Machine.run monitorStep monitorInit lateRun).2.outAt ≤ (Machine.run monitorStep monitorInit lateRun).2.now ∧
      (delayS ≠ 0 ∧ t + kSeconds delayS ≤ (Machine.run monitorStep monitorInit lateRun).2.outAt ∨
        (Machine.run monitorStep monitorInit lateRun).2.outAt ≤ t) :=
  callback_late lateRun .thread _ rfl (by decide +kernel) (by decide +kernel)

/-- The thread is there and has not left its loop. -/
def ThreadPc.loops : ThreadPc → Bool
  | .none | .leaves => false
  | _ => true

/-- A heartbeat that asks for monitoring does not find `thread_id` still set by a thread that has left its loop. -/
def MonitorAction.Timely (s : Monitor) : MonitorAction → Prop
  | .caller => ∀ delayS, s.boom = .checks delayS → delayS ≠ 0 → s.threadId = true → s.thread.loops = true
  | _ => True

/-- What the thread has yet to wait before it calls the callback. -/
def Monitor.waitMs (s : Monitor) : Nat :=
  match s.thread with
  | .reads | .takes _ | .tests => kSeconds s.asked
  | .waits left => left
  | _ => 0

/-- The last heartbeat asked for monitoring, and the callback has not been called since. -/
structure Watched (s : Monitor) : Prop where
  delay : s.globalDelayS = s.asked ∨ s.thread = .calls
  loops : (∀ delayS, s.boom ≠ .checks delayS) → s.thread.loops = true
  time : s.boom = .idle → ∀ t delayS, s.last = some (t, delayS) → s.now + s.waitMs ≤ t + kSeconds delayS + s.busyMs

structure WatchInv (s : Monitor) : Prop where
  inv : MonitorInv s
  pos : ∀ left, s.thread = .waits left → 0 < left
  watched : s.asked ≠ 0 → s.called = false → Watched s

theorem WatchInv.boom (h : WatchInv s) (delayS : UInt32) : WatchInv (monitorStep s (.boom delayS)).2 := by
  refine ⟨h.inv.boom delayS, ?_, ?_⟩ <;> unfold monitorStep <;> by_cases hidle : s.boom = .idle <;>
    simp only [hidle, if_true, if_false]
  · exact h.pos
  · exact h.pos
  · intro _ _
    exact ⟨.inl rfl, fun hnot => absurd rfl (hnot delayS), fun hboom => BoomPc.noConfusion hboom⟩
  · exact h.watched

/-- The heartbeat under way asks for monitoring: its caller has the thread created, or leaves it as it is. -/
theorem WatchInv.checks (h : WatchInv s) {delayS : UInt32} (hboom : s.boom = .checks delayS)
    (htimely : MonitorAction.Timely s .caller) : WatchInv (heartbeatBoom s) := by
  have hinv := h.inv.caller
  have hasked : s.asked = delayS := by simp only [Monitor.asked, hboom]
  simp only [heartbeatBoom, hboom] at hinv ⊢
  split at hinv
  case isTrue hnone =>
    rw [if_pos hnone]
    refine ⟨hinv, fun left hthread => ThreadPc.noConfusion hthread, fun hnonzero hcalled => ?_⟩
    have hwatched := h.watched (hasked ▸ hnonzero) hcalled
    refine ⟨.inl ?_, fun _ => rfl, fun hidle => BoomPc.noConfusion hidle⟩
    rcases h.inv.delay with hdelay | ⟨hzero, _⟩
    · exact hdelay.trans hasked
    · exact absurd hzero hnone.2
  case isFalse hnot =>
    rw [if_neg hnot]
    refine ⟨hinv, h.pos, fun hnonzero hcalled => ?_⟩
    have hwatched := h.watched (hasked ▸ hnonzero) hcalled
    refine ⟨hasked ▸ hwatched.delay, fun _ => ?_, fun hidle => BoomPc.noConfusion hidle⟩
    cases hid : s.threadId with
    | true => exact htimely delayS hboom hnonzero hid
    | false =>
      have hzero : s.globalDelayS = 0 := by
        by_contra hglobal
        exact hnot ⟨hid, hglobal⟩
      rcases hwatched.delay with hdelay | hcalls
      · exact absurd (hasked ▸ hdelay ▸ hzero) hnonzero
      · simp [hcalls, ThreadPc.loops]

theorem WatchInv.assigns (h : WatchInv s) {delayS : UInt32} (hboom : s.boom = .assigns delayS) :
    WatchInv (heartbeatBoom s) := by
  have hinv := h.inv.caller
  have hasked : s.asked = delayS := by simp only [Monitor.asked, hboom]
  simp only [heartbeatBoom, hboom] at hinv ⊢
  refine ⟨hinv, h.pos, fun hnonzero hcalled => ?_⟩
  have hwatched := h.watched (hasked ▸ hnonzero) hcalled
  exact ⟨hasked ▸ hwatched.delay, fun _ => hwatched.loops (by simp [hboom]), fun hidle => BoomPc.noConfusion hidle⟩

/-- A thread that does not pend has at most the whole delay before it. -/
theorem Monitor.waitMs_le (hthread : ∀ left, s.thread ≠ .waits left) : s.waitMs ≤ kSeconds s.asked := by
  cases hpc : s.thread with
  | reads | takes delayS | tests =>
    simp only [Monitor.waitMs, hpc]
    exact Nat.le_refl _
  | waits left => exact absurd hpc (hthread left)
  | none | timedOut | calls | leaves =>
    simp only [Monitor.waitMs, hpc]
    exact Nat.zero_le _

theorem WatchInv.gives (h : WatchInv s) {delayS : UInt32} (hboom : s.boom = .gives delayS) :
    WatchInv (heartbeatBoom s) := by
  have hinv := h.inv.gives hboom
  have hasked : s.asked = delayS := by simp only [Monitor.asked, hboom]
  have hwatched := h.watched
  rw [hasked] at hwatched
  have hloops : ∀ delayS, s.boom ≠ .checks delayS := by simp [hboom]
  by_cases hwaits : ∃ left, s.thread = .waits left
  · obtain ⟨left, hthread⟩ := hwaits
    simp only [heartbeatBoom, hboom, kSemGive, hthread] at hinv ⊢
    refine ⟨hinv, fun left hnot => ThreadPc.noConfusion hnot, fun hnonzero hcalled => ?_⟩
    have hdelay := (hwatched hnonzero hcalled).delay
    rw [hasked, hthread] at hdelay
    refine ⟨.inl (hdelay.resolve_right (by simp)), fun _ => rfl, fun _ t d hlast => ?_⟩
    obtain ⟨rfl, rfl⟩ := Prod.mk.inj (Option.some.inj hlast)
    refine Nat.le_trans (Nat.add_le_add_left (Monitor.waitMs_le ?_) s.now) (Nat.le_add_right _ _)
    exact fun left hnot => ThreadPc.noConfusion hnot
  · have hnot : ∀ left, s.thread ≠ .waits left := fun left hthread => hwaits ⟨left, hthread⟩
    have hgive : kSemGive s = { s with heartbeatSem := true } := by
      unfold kSemGive
      split
      case h_1 left heq => exact absurd heq (hnot left)
      case h_2 => rfl
    simp only [heartbeatBoom, hboom, hgive] at hinv ⊢
    refine ⟨hinv, fun left heq => absurd heq (hnot left), fun hnonzero hcalled => ?_⟩
    have hold := hwatched hnonzero hcalled
    refine ⟨hasked ▸ hold.delay, fun _ => hold.loops hloops, fun _ t d hlast => ?_⟩
    obtain ⟨rfl, rfl⟩ := Prod.mk.inj (Option.some.inj hlast)
    refine Nat.le_trans (Nat.add_le_add_left (Monitor.waitMs_le ?_) s.now) (Nat.le_add_right _ _)
    exact hnot

theorem WatchInv.caller (h : WatchInv s) (htimely : MonitorAction.Timely s .caller) : WatchInv (heartbeatBoom s) := by
  cases hboom : s.boom with
  | idle => simpa only [heartbeatBoom, hboom] using h
  | checks delayS => exact h.checks hboom htimely
  | assigns delayS => exact h.assigns hboom
  | gives delayS => exact h.gives hboom

/-- The thread goes on without calling the callback. -/
theorem Watched.goes (h : Watched s) {pc : ThreadPc} {sem : Bool} {delayS : UInt32}
    (hdelay : delayS = s.globalDelayS ∧ s.thread ≠ .calls ∨ pc = .calls) (hloops : s.thread.loops = true → pc.loops = true)
    (hwait : s.boom = .idle → Monitor.waitMs { s with thread := pc } ≤ s.waitMs) :
    Watched { s with thread := pc, heartbeatSem := sem, globalDelayS := delayS } where
  delay := by
    rcases hdelay with ⟨rfl, hnot⟩ | hcalls
    · exact .inl (h.delay.resolve_right hnot)
    · exact .inr hcalls
  loops := fun hboom => hloops (h.loops hboom)
  time := fun hidle t d hlast => Nat.le_trans (Nat.add_le_add_left (hwait hidle) s.now) (h.time hidle t d hlast)

theorem WatchInv.thread (h : WatchInv s) : WatchInv (heartbeatThread s).2 := by
  have hinv := h.inv.thread
  cases hthread : s.thread with
  | none => simpa only [heartbeatThread, hthread] using h
  | waits left => simpa only [heartbeatThread, hthread] using h
  | reads =>
    simp only [heartbeatThread, hthread] at hinv ⊢
    refine ⟨hinv, fun left hnot => ThreadPc.noConfusion hnot, fun hnonzero hcalled => ?_⟩
    exact (h.watched hnonzero hcalled).goes (.inl ⟨rfl, by simp [hthread]⟩) (fun _ => rfl)
      fun _ => by simp only [Monitor.waitMs, hthread]; exact Nat.le_refl _
  | takes delayS =>
    have hnot : s.thread ≠ .calls := by simp [hthread]
    have hwait : s.waitMs = kSeconds s.asked := by simp only [Monitor.waitMs, hthread]
    simp only [heartbeatThread, hthread] at hinv ⊢
    split at hinv
    case isTrue hsem =>
      rw [if_pos hsem]
      refine ⟨hinv, fun left hnot => ThreadPc.noConfusion hnot, fun hnonzero hcalled => ?_⟩
      exact (h.watched hnonzero hcalled).goes (.inl ⟨rfl, hnot⟩) (fun _ => rfl) fun _ => Nat.le_of_eq hwait.symm
    case isFalse hsem =>
      rw [if_neg hsem]
      split at hinv
      case isTrue hzero =>
        rw [if_pos hzero]
        refine ⟨hinv, fun left hnot => ThreadPc.noConfusion hnot, fun hnonzero hcalled => ?_⟩
        exact (h.watched hnonzero hcalled).goes (.inl ⟨rfl, hnot⟩) (fun _ => rfl) fun _ => Nat.le_of_eq hwait.symm
      case isFalse hpos =>
        rw [if_neg hpos]
        refine ⟨hinv, fun left hwaits => ?_, fun hnonzero hcalled => ?_⟩
        · rw [← ThreadPc.waits.inj hwaits]
          exact Nat.pos_of_ne_zero hpos
        · refine (h.watched hnonzero hcalled).goes (.inl ⟨rfl, hnot⟩) (fun _ => rfl) fun hidle => ?_
          have hknows := h.inv.knows hidle
          simp only [Monitor.Knows, hthread] at hknows
          rw [hwait, ← hknows.resolve_left hsem]
          exact Nat.le_refl _
  | timedOut =>
    simp only [heartbeatThread, hthread] at hinv ⊢
    refine ⟨hinv, fun left hnot => ThreadPc.noConfusion hnot, fun hnonzero hcalled => ?_⟩
    exact (h.watched hnonzero hcalled).goes (.inr rfl) (fun _ => rfl) fun _ => Nat.zero_le _
  | calls =>
    simp only [heartbeatThread, hthread] at hinv ⊢
    exact ⟨hinv, fun left hnot => ThreadPc.noConfusion hnot, fun _ hcalled => Bool.noConfusion hcalled⟩
  | tests =>
    have hnot : s.thread ≠ .calls := by simp [hthread]
    have hwait : s.waitMs = kSeconds s.asked := by simp only [Monitor.waitMs, hthread]
    simp only [heartbeatThread, hthread] at hinv ⊢
    refine ⟨hinv, fun left heq => ?_, fun hnonzero hcalled => ?_⟩
    · split at heq <;> exact ThreadPc.noConfusion heq
    · have hwatched := h.watched hnonzero hcalled
      have hglobal : s.globalDelayS ≠ 0 := (hwatched.delay.resolve_right hnot) ▸ hnonzero
      rw [if_neg hglobal]
      exact hwatched.goes (.inl ⟨rfl, hnot⟩) (fun _ => rfl) fun _ => Nat.le_of_eq hwait.symm
  | leaves =>
    have hloops : s.thread.loops = false := by simp [hthread, ThreadPc.loops]
    simp only [heartbeatThread, hthread] at hinv ⊢
    refine ⟨hinv, fun left hnot => ThreadPc.noConfusion hnot, fun hnonzero hcalled => ?_⟩
    have hwatched := h.watched hnonzero hcalled
    have hnot : ¬∀ delayS, s.boom ≠ .checks delayS := by
      intro hboom
      exact Bool.noConfusion (hloops.symm.trans (hwatched.loops hboom))
    refine ⟨.inl (hwatched.delay.resolve_right (by simp [hthread])), fun hboom => absurd hboom hnot, fun hidle => ?_⟩
    exact absurd (fun delayS => by simp [show s.boom = .idle from hidle]) hnot

theorem WatchInv.tick (h : WatchInv s) : WatchInv (tick s) := by
  have hinv := h.inv.tick
  by_cases hwaits : ∃ left, s.thread = .waits left
  · obtain ⟨left, hthread⟩ := hwaits
    have hpos := h.pos left hthread
    have hwait : s.waitMs = left := by simp only [Monitor.waitMs, hthread]
    simp only [Heartbeat.tick, hthread] at hinv ⊢
    split at hinv
    case isTrue hle =>
      rw [if_pos hle]
      refine ⟨hinv, fun left hnot => ThreadPc.noConfusion hnot, fun hnonzero hcalled => ?_⟩
      have hwatched := h.watched hnonzero hcalled
      refine ⟨.inl (hwatched.delay.resolve_right (by simp [hthread])), fun _ => rfl, fun hidle t delayS hlast => ?_⟩
      have htime := hwatched.time hidle t delayS hlast
      simp only [Monitor.waitMs]
      omega
    case isFalse hlt =>
      rw [if_neg hlt]
      refine ⟨hinv, fun left' heq => ?_, fun hnonzero hcalled => ?_⟩
      · have := ThreadPc.waits.inj heq
        omega
      · have hwatched := h.watched hnonzero hcalled
        refine ⟨.inl (hwatched.delay.resolve_right (by simp [hthread])), fun _ => rfl, fun hidle t delayS hlast => ?_⟩
        have htime := hwatched.time hidle t delayS hlast
        simp only [Monitor.waitMs]
        omega
  · rw [tick_runs fun left hthread => hwaits ⟨left, hthread⟩] at hinv ⊢
    refine ⟨hinv, h.pos, fun hnonzero hcalled => ?_⟩
    have hwatched := h.watched hnonzero hcalled
    refine ⟨hwatched.delay, hwatched.loops, fun hidle t delayS hlast => ?_⟩
    have htime := hwatched.time hidle t delayS hlast
    have hwait : Monitor.waitMs { s with now := s.now + 1, busyMs := s.busyMs + 1 } = s.waitMs := rfl
    rw [hwait]
    dsimp only
    omega

theorem WatchInv.step (h : WatchInv s) (a : MonitorAction) (htimely : a.Timely s) : WatchInv (monitorStep s a).2 := by
  cases a with
  | boom delayS => exact h.boom delayS
  | caller => exact h.caller htimely
  | thread => exact h.thread
  | tick => exact h.tick

theorem monitorInit_watchInv : WatchInv monitorInit where
  inv := monitorInit_inv
  pos := fun _ hthread => ThreadPc.noConfusion hthread
  watched := fun hasked => absurd rfl hasked

/-- Where every heartbeat that asks for monitoring finds a thread or has one created, the callback is called after the
last one given, its delay after that and later only by the time that the thread could run. -/
theorem callback_called (actions : List MonitorAction) (hm : Machine.Meets monitorStep MonitorAction.Timely monitorInit actions)
    (s : Monitor) (hs : (Machine.run monitorStep monitorInit actions).2 = s) (t : Nat) (delayS : UInt32)
    (hidle : s.boom = .idle) (hlast : s.last = some (t, delayS)) (hnonzero : delayS ≠ 0) :
    s.called = true ∨ s.thread.loops = true ∧ s.now ≤ t + kSeconds delayS + s.busyMs := by
  have hinv : WatchInv s := by
    rw [← hs]
    exact Machine.meets_invariant (fun _ a h htimely => h.step a htimely) monitorInit actions monitorInit_watchInv hm
  have hasked : s.asked = delayS := by simp only [Monitor.asked, hidle, hlast, Option.map_some, Option.getD_some]
  cases hcalled : s.called with
  | true => exact .inl rfl
  | false =>
    have hwatched := hinv.watched (hasked ▸ hnonzero) hcalled
    refine .inr ⟨hwatched.loops (by simp [hidle]), ?_⟩
    exact Nat.le_trans (Nat.le_add_right _ _) (hwatched.time hidle t delayS hlast)

def promptRun : List MonitorAction := [.boom 5, .caller, .thread, .thread, .caller, .caller, .tick, .thread]

theorem callback_called_prompt : (Machine.run monitorStep monitorInit promptRun).2.called = true ∨
    (Machine.run monitorStep monitorInit promptRun).2.thread.loops = true ∧
      (Machine.run monitorStep monitorInit promptRun).2.now ≤
        0 + kSeconds 5 + (Machine.run monitorStep monitorInit promptRun).2.busyMs := by
  have htimely : Machine.Meets monitorStep MonitorAction.Timely monitorInit promptRun :=
    ⟨trivial, fun _ _ _ hid => Bool.noConfusion hid, trivial, trivial, fun _ hboom => BoomPc.noConfusion hboom,
      fun _ hboom => BoomPc.noConfusion hboom, trivial, trivial, trivial⟩
  exact callback_called promptRun htimely _ rfl 0 5 rfl rfl (by decide)

-- A heartbeat that finds the thread on its way out is given to nobody.
example : (Machine.run monitorStep monitorInit [.boom 5, .caller, .caller, .caller, .thread, .thread, .boom 0, .caller, .caller,
    .thread, .boom 7, .caller, .caller, .thread]).2.thread = .none := by decide

/-- By their priorities the caller runs only while the thread is not ready to; a heartbeat takes no time. -/
def MonitorAction.Scheduled (s : Monitor) : MonitorAction → Prop
  | .caller => s.thread = .none ∨ (∃ left, s.thread = .waits left) ∨ s.thread = .calls
  | .tick => s.boom = .idle
  | _ => True

/-- The thread that has just been created is on its way to its first wait. -/
def ThreadPc.starts : ThreadPc → Bool
  | .reads | .takes _ | .waits _ | .tests => true
  | _ => false

structure ScheduledInv (s : Monitor) : Prop where
  inv : MonitorInv s
  created : ∀ delayS, s.boom = .assigns delayS → s.globalDelayS ≠ 0 ∧ s.thread.starts = true
  here : s.threadId = true → s.thread ≠ .none

theorem heartbeatBoom_threadId (hboom : ∀ delayS, s.boom ≠ .assigns delayS) :
    (heartbeatBoom s).threadId = s.threadId := by
  unfold heartbeatBoom kSemGive
  split
  case h_3 delayS heq => exact absurd heq (hboom delayS)
  all_goals (repeat' split) <;> rfl

theorem kSemGive_none (h : (kSemGive s).thread = .none) : s.thread = .none := by
  unfold kSemGive at h
  split at h
  case h_1 => exact ThreadPc.noConfusion h
  case h_2 => exact h

theorem ScheduledInv.caller (h : ScheduledInv s) : ScheduledInv (heartbeatBoom s) := by
  have hinv := h.inv.caller
  cases hboom : s.boom with
  | idle => simpa only [heartbeatBoom, hboom] using h
  | checks delayS =>
    simp only [heartbeatBoom, hboom] at hinv ⊢
    split at hinv
    case isTrue hnone =>
      rw [if_pos hnone]
      exact ⟨hinv, fun _ _ => ⟨hnone.2, rfl⟩, fun _ hthread => ThreadPc.noConfusion hthread⟩
    case isFalse hnot =>
      rw [if_neg hnot]
      exact ⟨hinv, fun _ hassigns => BoomPc.noConfusion hassigns, h.here⟩
  | assigns delayS =>
    have hstarts := (h.created delayS hboom).2
    simp only [heartbeatBoom, hboom] at hinv ⊢
    refine ⟨hinv, fun _ hassigns => BoomPc.noConfusion hassigns, fun _ hthread => ?_⟩
    rw [show s.thread = .none from hthread] at hstarts
    exact Bool.noConfusion hstarts
  | gives delayS =>
    refine ⟨hinv, fun _ hassigns => ?_, fun hid => ?_⟩
    · simp [heartbeatBoom, hboom] at hassigns
    · have hthread : (heartbeatBoom s).thread = (kSemGive s).thread := by simp only [heartbeatBoom, hboom]
      rw [heartbeatBoom_threadId (by simp [hboom])] at hid
      rw [hthread]
      exact fun hnone => h.here hid (kSemGive_none hnone)

theorem heartbeatThread_boom (s : Monitor) : (heartbeatThread s).2.boom = s.boom := by
  unfold heartbeatThread
  split <;> (repeat' split) <;> rfl

theorem tick_keeps (s : Monitor) : (tick s).boom = s.boom ∧ (tick s).threadId = s.threadId ∧
    ((tick s).thread = .none → s.thread = .none) := by
  unfold tick
  split
  case h_1 => split <;> exact ⟨rfl, rfl, fun hnone => ThreadPc.noConfusion hnone⟩
  case h_2 => exact ⟨rfl, rfl, id⟩

theorem ScheduledInv.thread (h : ScheduledInv s) : ScheduledInv (heartbeatThread s).2 := by
  refine ⟨h.inv.thread, fun delayS hboom => ?_, fun hid => ?_⟩
  · rw [heartbeatThread_boom] at hboom
    obtain ⟨hnonzero, hstarts⟩ := h.created delayS hboom
    cases hthread : s.thread with
    | reads => simpa only [heartbeatThread, hthread] using ⟨hnonzero, rfl⟩
    | takes delayS =>
      simp only [heartbeatThread, hthread]
      split
      case isTrue => exact ⟨hnonzero, rfl⟩
      case isFalse => split <;> exact ⟨hnonzero, rfl⟩
    | waits left => simpa only [heartbeatThread, hthread] using ⟨hnonzero, rfl⟩
    | tests => simpa only [heartbeatThread, hthread, if_neg hnonzero] using ⟨hnonzero, rfl⟩
    | _ =>
      rw [hthread] at hstarts
      exact Bool.noConfusion hstarts
  · cases hthread : s.thread with
    | takes delayS =>
      simp only [heartbeatThread, hthread]
      split
      case isTrue => simp
      case isFalse => split <;> simp
    | tests =>
      simp only [heartbeatThread, hthread]
      split <;> simp
    | none =>
      simp only [heartbeatThread, hthread] at hid
      exact absurd hthread (h.here hid)
    | leaves =>
      simp only [heartbeatThread, hthread] at hid
      exact Bool.noConfusion hid
    | _ => simp [heartbeatThread, hthread]

theorem ScheduledInv.step (h : ScheduledInv s) (a : MonitorAction) (hscheduled : a.Scheduled s) :
    ScheduledInv (monitorStep s a).2 := by
  cases a with
  | boom delayS =>
    refine ⟨h.inv.boom delayS, ?_, ?_⟩ <;> unfold monitorStep <;> by_cases hidle : s.boom = .idle <;>
      simp only [hidle, if_true, if_false]
    · exact fun _ hassigns => BoomPc.noConfusion hassigns
    · exact h.created
    · exact h.here
    · exact h.here
  | caller => exact h.caller
  | thread => exact h.thread
  | tick =>
    have hidle : s.boom = .idle := hscheduled
    obtain ⟨hboom, hid, hnone⟩ := tick_keeps s
    refine ⟨h.inv.tick, fun delayS hassigns => ?_, fun hset hthread => h.here (hid ▸ hset) (hnone hthread)⟩
    exact absurd (hboom.symm.trans hassigns) (by simp [hidle])

theorem scheduled_timely (actions : List MonitorAction)
    (hm : Machine.Meets monitorStep MonitorAction.Scheduled monitorInit actions) :
    Machine.Meets monitorStep MonitorAction.Timely monitorInit actions := by
  refine Machine.meets_mono (fun _ a h hscheduled => ScheduledInv.step h a hscheduled) ?_ monitorInit actions ?_ hm
  · intro s a h hscheduled
    cases a with
    | caller =>
      intro delayS _ _ hid
      rcases hscheduled with hnone | ⟨left, hwaits⟩ | hcalls
      · exact absurd hnone (h.here hid)
      · simp [hwaits, ThreadPc.loops]
      · simp [hcalls, ThreadPc.loops]
    | _ => exact True.intro
  · exact ⟨monitorInit_inv, fun _ hboom => BoomPc.noConfusion hboom, fun hid => Bool.noConfusion hid⟩

end OrbFirmware.Heartbeat

import OrbFirmware.Machine

/-! The reboot thread and the requests for a reboot, each in its three steps, with the time in milliseconds. -/
namespace OrbFirmware.Boot

def systemResetUiDelayMs : UInt32 := 200

/-- `k_msleep` takes a signed number; it sleeps not at all for a negative one. -/
def kMsleep (ms : UInt32) : Nat := ms.toInt32.toInt.toNat

/-- Where `reboot_thread` stands, with its `delay`: at its take of `sem_reboot`; at its first read of the delay, before
its first sleep, in it, before the write after it; in the loop at the test for a shutdown of the Jetson, waiting for its
reset, at the read of the delay, before the sleep, in it; switching fan and LEDs off, in its last sleep, before the
reset; or after the reset. A sleep that has run out has 0 ms left. -/
inductive RebootPc where
  | waits
  | readsFirst
  | startsFirstSleep (delay : UInt32)
  | firstSleep (delay : UInt32) (left : Nat)
  | writesBack (delay : UInt32)
  | checksShutdown
  | waitsForJetson
  | reads
  | startsSleep (delay : UInt32)
  | sleeps (left : Nat)
  | turnsOff
  | lastSleep (left : Nat)
  | goesDown
  | reset
  deriving DecidableEq

/-- `wakeups` and `gives` count the requests that have yet to wake the thread and to give `sem_reboot`. Of the last
request, `last` has the time and the delay, and `busyMs` is the time since then that the thread could run. -/
structure Reboot where
  now : Nat
  rebootDelayS : UInt32
  jetsonShutdownReq : Bool
  semReboot : Bool
  thread : RebootPc
  wakeups : Nat
  gives : Nat
  last : Option (Nat × UInt32)
  busyMs : Nat
  resetAt : Option Nat

/-- A request stores its delay, `shutdown` being that of `shutdown_requested_work_handler`; wakes the thread; gives the
semaphore. The thread takes a step, the Jetson's reset pin being as given. Or time passes. -/
inductive RebootAction where
  | store (delayS : UInt32) (shutdown : Bool)
  | wakeup
  | give
  | thread (jetsonSystemReset : Bool)
  | tick (ms : Nat)

def rebootThread (jetsonSystemReset : Bool) (s : Reboot) : Reboot :=
  match s.thread with
  | .waits => if s.semReboot then { s with semReboot := false, thread := .readsFirst } else s
  | .readsFirst =>
    { s with thread := if 1 < s.rebootDelayS then .startsFirstSleep s.rebootDelayS else .checksShutdown }
  | .startsFirstSleep delay => { s with thread := .firstSleep delay (kMsleep 1000) }
  | .firstSleep delay left => if left = 0 then { s with thread := .writesBack delay } else s
  | .writesBack delay => { s with rebootDelayS := delay - 1, thread := .checksShutdown }
  | .checksShutdown => { s with thread := if s.jetsonShutdownReq then .waitsForJetson else .reads }
  | .waitsForJetson => if jetsonSystemReset then { s with thread := .reads } else s
  | .reads => { s with thread := .startsSleep s.rebootDelayS }
  | .startsSleep delay => { s with thread := .sleeps (kMsleep (delay * 1000 - systemResetUiDelayMs)) }
  | .sleeps left => if left = 0 then { s with thread := .turnsOff } else s
  | .turnsOff => { s with thread := .lastSleep (kMsleep systemResetUiDelayMs) }
  | .lastSleep left => if left = 0 then { s with thread := .goesDown } else s
  | .goesDown => { s with resetAt := some s.now, thread := .reset }
  | .reset => s

/-- `k_wakeup` ends a sleep that has not run out; `k_msleep` then returns what was left of it. -/
def RebootPc.wake : RebootPc → RebootPc
  | .firstSleep delay left => if left = 0 then .firstSleep delay left else .writesBack delay
  | .sleeps left => if left = 0 then .sleeps left else .checksShutdown
  | .lastSleep left => if left = 0 then .lastSleep left else .goesDown
  | pc => pc

/-- Sleeping time passes. -/
def RebootPc.elapse (ms : Nat) : RebootPc → RebootPc
  | .firstSleep delay left => .firstSleep delay (left - ms)
  | .sleeps left => .sleeps (left - ms)
  | .lastSleep left => .lastSleep (left - ms)
  | pc => pc

/-- What is left of the sleep the thread is in. -/
def RebootPc.asleepMs : RebootPc → Nat
  | .firstSleep _ left | .sleeps left | .lastSleep left => left
  | _ => 0

/-- Requests take no time: it passes when none is under way. -/
def rebootStep (s : Reboot) : RebootAction → Unit × Reboot
  | .store delayS shutdown =>
    ((), if s.thread = .reset then s else
      { s with
        rebootDelayS := delayS
        jetsonShutdownReq := s.jetsonShutdownReq || shutdown
        wakeups := s.wakeups + 1
        last := some (s.now, delayS)
        busyMs := 0 })
  | .wakeup =>
    ((), if s.wakeups = 0 then s else
      { s with thread := s.thread.wake, wakeups := s.wakeups - 1, gives := s.gives + 1 })
  | .give => ((), if s.gives = 0 then s else { s with semReboot := true, gives := s.gives - 1 })
  | .thread jetsonSystemReset => ((), rebootThread jetsonSystemReset s)
  | .tick ms =>
    ((), if s.wakeups ≠ 0 ∨ s.gives ≠ 0 ∨ s.thread = .reset then s
      else if s.thread = .waits ∧ s.semReboot = false then { s with now := s.now + ms }
      else
        { s with
          now := s.now + ms
          thread := s.thread.elapse ms
          busyMs := s.busyMs + (ms - s.thread.asleepMs) })

/-- Before the first request. -/
def rebootInit : Reboot where
  now := 0
  rebootDelayS := 0
  jetsonShutdownReq := false
  semReboot := false
  thread := .waits
  wakeups := 0
  gives := 0
  last := none
  busyMs := 0
  resetAt := none

/-- The requested delay after the request, the system is reset: not more than a second earlier, and later only by the
time that the thread could run but had not got to the reset. The delay in force is that of the request, or one second
less when the thread has counted its first second. -/
structure Prevails (s : Reboot) (storedAt : Nat) (delayS : UInt32) : Prop where
  reset : ∀ resetAt, s.resetAt = some resetAt →
    storedAt + 1000 * delayS.toNat ≤ resetAt + 1000 ∧ resetAt ≤ storedAt + 1000 * delayS.toNat + s.busyMs
  pending : s.resetAt = none → s.now ≤ storedAt + 1000 * delayS.toNat + s.busyMs
  delay : s.rebootDelayS = delayS ∨ s.rebootDelayS = delayS - 1

/-- The thread has read the delay and will write it back decremented. -/
def RebootPc.decrements : RebootPc → Bool
  | .startsFirstSleep _ | .firstSleep _ _ | .writesBack _ => true
  | _ => false

/-- The sleep for the delay has run out. -/
def RebootPc.ends : RebootPc → Bool
  | .sleeps left => left == 0
  | .turnsOff | .lastSleep _ | .goesDown | .reset => true
  | _ => false

/-- No request stores its delay while the thread is to write back an earlier one, or after its sleep; and the last one
under way does not wake the thread when that has read an earlier delay and does not sleep yet. -/
def RebootAction.Timely (s : Reboot) : RebootAction → Prop
  | .store delayS _ => 1 ≤ delayS ∧ delayS ≤ 60 ∧ s.thread.decrements = false ∧ s.thread.ends = false
  | .wakeup => ∀ delay, s.thread = .startsSleep delay → s.wakeups = 1 → delay = s.rebootDelayS
  | _ => True

/-- The sleep the thread has before it, where nothing wakes it. -/
def Reboot.remainingMs (s : Reboot) : Nat :=
  match s.thread with
  | .waits | .readsFirst | .checksShutdown | .waitsForJetson | .reads => 1000 * s.rebootDelayS.toNat
  | .startsFirstSleep delay | .startsSleep delay => 1000 * delay.toNat
  | .firstSleep delay left => left + 1000 * (delay.toNat - 1)
  | .writesBack delay => 1000 * (delay.toNat - 1)
  | .sleeps left => left + 200
  | .turnsOff => 200
  | .lastSleep left => left
  | .goesDown | .reset => 0

/-- The thread may sleep for an earlier request while the last one has yet to wake it. -/
def Reboot.toBeWoken (s : Reboot) : Prop :=
  s.wakeups ≠ 0 ∧ ((∃ delay, s.thread = .startsSleep delay) ∨ ∃ left, s.thread = .sleeps left)

/-- What each place knows of the delay. -/
def RebootPc.Knows (stored : UInt32) (requested : Nat) : RebootPc → Prop
  | .waits | .readsFirst => stored.toNat = requested
  | .startsFirstSleep delay | .firstSleep delay _ | .writesBack delay => delay.toNat = requested ∧ 1 < requested
  | .startsSleep delay => 1 ≤ delay.toNat ∧ delay.toNat ≤ 60
  | _ => True

/-- The last request, made at `storedAt` for `requested` seconds, is being served. -/
structure Served (storedAt requested : Nat) (s : Reboot) : Prop where
  positive : 1 ≤ requested
  bounded : requested ≤ 60
  delay : s.rebootDelayS.toNat = requested ∨ s.rebootDelayS.toNat + 1 = requested
  counts : 1 ≤ s.rebootDelayS.toNat
  knows : s.thread.Knows s.rebootDelayS requested
  instant : s.wakeups ≠ 0 ∨ s.gives ≠ 0 → s.now = storedAt ∧ s.busyMs = 0
  awake : s.wakeups ≠ 0 → s.thread.ends = false
  given : s.thread = .waits → s.wakeups ≠ 0 ∨ s.gives ≠ 0 ∨ s.semReboot = true
  time : s.toBeWoken ∨ (s.now + s.remainingMs ≤ storedAt + 1000 * requested + s.busyMs ∧
    storedAt + 1000 * requested + s.busyMs ≤ s.now + s.remainingMs + 1000)
  reset : s.resetAt = if s.thread = .reset then some s.now else none

variable {s : Reboot} {storedAt requested : Nat}

theorem kMsleep_delay {delay : UInt32} (hpos : 1 ≤ delay.toNat) (hle : delay.toNat ≤ 60) :
    kMsleep (delay * 1000 - systemResetUiDelayMs) + 200 = 1000 * delay.toNat := by
  have hall : ∀ n, n ≤ 60 → 1 ≤ n → kMsleep (UInt32.ofNat n * 1000 - systemResetUiDelayMs) + 200 = 1000 * n := by decide
  simpa using hall delay.toNat hle hpos

theorem sub_one_toNat {delay : UInt32} (hpos : 1 < delay.toNat) : (delay - 1).toNat = delay.toNat - 1 := by
  have hle : (1 : UInt32) ≤ delay := by
    rw [UInt32.le_iff_toNat_le]
    exact Nat.le_of_lt hpos
  rw [UInt32.toNat_sub_of_le _ _ hle]
  rfl

/-- A request starts to be served where it does not come too late or is overwritten. -/
theorem served_store {delayS : UInt32} {shutdown : Bool} (hpos : 1 ≤ delayS) (hle : delayS ≤ 60)
    (hdecrements : s.thread.decrements = false) (hends : s.thread.ends = false) (hreset : s.resetAt = none)
    (hknows : ∀ delay, s.thread = .startsSleep delay → 1 ≤ delay.toNat ∧ delay.toNat ≤ 60) :
    Served s.now delayS.toNat (rebootStep s (.store delayS shutdown)).2 := by
  have hpos' : 1 ≤ delayS.toNat := UInt32.le_iff_toNat_le.mp hpos
  have hle' : delayS.toNat ≤ 60 := UInt32.le_iff_toNat_le.mp hle
  have hthread : s.thread ≠ .reset := by
    intro h
    simp [h, RebootPc.ends] at hends
  simp only [rebootStep, if_neg hthread]
  refine ⟨hpos', hle', .inl rfl, hpos', ?_, fun _ => ⟨rfl, rfl⟩, fun _ => hends, fun _ => .inl (Nat.succ_ne_zero _), ?_, ?_⟩
  · cases hpc : s.thread with
    | startsSleep delay => exact hknows delay hpc
    | startsFirstSleep delay | firstSleep delay left | writesBack delay => simp [hpc, RebootPc.decrements] at hdecrements
    | _ => first | rfl | trivial
  · cases hpc : s.thread with
    | startsSleep delay => exact .inl ⟨Nat.succ_ne_zero _, .inl ⟨delay, rfl⟩⟩
    | sleeps left => exact .inl ⟨Nat.succ_ne_zero _, .inr ⟨left, rfl⟩⟩
    | startsFirstSleep delay | firstSleep delay left | writesBack delay => simp [hpc, RebootPc.decrements] at hdecrements
    | turnsOff | lastSleep left | goesDown | reset => simp [hpc, RebootPc.ends] at hends
    | _ =>
      refine .inr ?_
      simp only [Reboot.remainingMs]
      omega
  · simp [hthread, hreset]

theorem Served.resetAt_none (h : Served storedAt requested s) (hthread : s.thread ≠ .reset) : s.resetAt = none := by
  rw [h.reset, if_neg hthread]

theorem Served.unwoken (h : Served storedAt requested s) (hends : s.thread.ends = true) : s.wakeups = 0 := by
  by_contra hwakeups
  have hawake := h.awake hwakeups
  rw [hends] at hawake
  contradiction

/-- The thread goes on to a place from where it sleeps as long. -/
theorem Served.move (h : Served storedAt requested s) {pc : RebootPc} (hold : s.thread ≠ .reset)
    (hknows : pc.Knows s.rebootDelayS requested) (hends : pc.ends = true → s.wakeups = 0) (hwaits : pc ≠ .waits)
    (hreset : pc ≠ .reset) (htime : ({ s with thread := pc } : Reboot).toBeWoken ∨
      ¬s.toBeWoken ∧ ({ s with thread := pc } : Reboot).remainingMs = s.remainingMs) :
    Served storedAt requested { s with thread := pc } where
  positive := h.positive
  bounded := h.bounded
  delay := h.delay
  counts := h.counts
  knows := hknows
  instant := h.instant
  awake hwakeups := by
    cases hpc : pc.ends with
    | false => rfl
    | true => exact absurd (hends hpc) hwakeups
  given hthread := absurd hthread hwaits
  time := by
    obtain hwoken | ⟨hnot, hsame⟩ := htime
    · exact .inl hwoken
    · rw [hsame]
      exact .inr (h.time.resolve_left hnot)
  reset := by
    rw [h.resetAt_none hold]
    exact (if_neg hreset).symm

/-- A move in which the thread can be woken neither before nor behind it. -/
theorem Served.goes (h : Served storedAt requested s) {pc : RebootPc} (hold : s.thread ≠ .reset) (hnot : ¬s.toBeWoken)
    (hknows : pc.Knows s.rebootDelayS requested) (hends : pc.ends = false) (hwaits : pc ≠ .waits)
    (hsame : ({ s with thread := pc } : Reboot).remainingMs = s.remainingMs) :
    Served storedAt requested { s with thread := pc } := by
  have hreset : pc ≠ .reset := by
    rintro rfl
    contradiction
  exact h.move hold hknows (fun hpc => absurd (hpc.symm.trans hends) (by simp)) hwaits hreset (.inr ⟨hnot, hsame⟩)

theorem not_toBeWoken (hstarts : ∀ delay, s.thread ≠ .startsSleep delay) (hsleeps : ∀ left, s.thread ≠ .sleeps left) :
    ¬s.toBeWoken := by
  rintro ⟨-, ⟨delay, h⟩ | ⟨left, h⟩⟩
  · exact hstarts delay h
  · exact hsleeps left h

theorem Served.thread (h : Served storedAt requested s) (jetsonSystemReset : Bool) :
    Served storedAt requested (rebootThread jetsonSystemReset s) := by
  have hknows := h.knows
  have hcounts := h.counts
  cases hpc : s.thread with
  | waits =>
    simp only [rebootThread, hpc]
    split_ifs
    · have hnot : ¬s.toBeWoken := not_toBeWoken (by simp [hpc]) (by simp [hpc])
      rw [hpc] at hknows
      have hmoved : Served storedAt requested { s with thread := .readsFirst } :=
        h.goes (by simp [hpc]) hnot hknows rfl (by simp) (by simp [Reboot.remainingMs, hpc])
      exact ⟨hmoved.positive, hmoved.bounded, hmoved.delay, hmoved.counts, hmoved.knows, hmoved.instant, hmoved.awake,
        fun hwaits => absurd hwaits (by simp), hmoved.time, hmoved.reset⟩
    · exact h
  | readsFirst =>
    simp only [rebootThread, hpc]
    have hnot : ¬s.toBeWoken := not_toBeWoken (by simp [hpc]) (by simp [hpc])
    rw [hpc] at hknows
    split_ifs with hlong
    · refine h.goes (by simp [hpc]) hnot ⟨hknows, ?_⟩ rfl (by simp) (by simp [Reboot.remainingMs, hpc])
      exact hknows ▸ UInt32.lt_iff_toNat_lt.mp hlong
    · exact h.goes (by simp [hpc]) hnot trivial rfl (by simp) (by simp [Reboot.remainingMs, hpc])
  | startsFirstSleep delay =>
    simp only [rebootThread, hpc]
    have hnot : ¬s.toBeWoken := not_toBeWoken (by simp [hpc]) (by simp [hpc])
    have hfirst : kMsleep 1000 = 1000 := by decide
    rw [hpc] at hknows
    obtain ⟨hdelay, hlong⟩ := hknows
    refine h.goes (by simp [hpc]) hnot ⟨hdelay, hlong⟩ rfl (by simp) ?_
    simp only [Reboot.remainingMs, hpc, hfirst]
    omega
  | firstSleep delay left =>
    simp only [rebootThread, hpc]
    have hnot : ¬s.toBeWoken := not_toBeWoken (by simp [hpc]) (by simp [hpc])
    rw [hpc] at hknows
    split_ifs with hleft
    · exact h.goes (by simp [hpc]) hnot hknows rfl (by simp) (by simp [Reboot.remainingMs, hpc, hleft])
    · exact h
  | writesBack delay =>
    simp only [rebootThread, hpc]
    have hnot : ¬s.toBeWoken := not_toBeWoken (by simp [hpc]) (by simp [hpc])
    rw [hpc] at hknows
    obtain ⟨hdelay, hlong⟩ := hknows
    have hless : (delay - 1).toNat = delay.toNat - 1 := sub_one_toNat (by omega)
    have htime := h.time.resolve_left hnot
    simp only [Reboot.remainingMs, hpc] at htime
    refine ⟨h.positive, h.bounded, .inr ?_, ?_, trivial, h.instant, fun _ => rfl, fun hwaits => absurd hwaits (by simp),
      .inr ?_, ?_⟩
    · change (delay - 1).toNat + 1 = requested
      omega
    · change 1 ≤ (delay - 1).toNat
      omega
    · simp only [Reboot.remainingMs, hless]
      exact htime
    · simpa [hpc] using h.reset
  | checksShutdown =>
    simp only [rebootThread, hpc]
    have hnot : ¬s.toBeWoken := not_toBeWoken (by simp [hpc]) (by simp [hpc])
    split_ifs
    · exact h.goes (by simp [hpc]) hnot trivial rfl (by simp) (by simp [Reboot.remainingMs, hpc])
    · exact h.goes (by simp [hpc]) hnot trivial rfl (by simp) (by simp [Reboot.remainingMs, hpc])
  | waitsForJetson =>
    simp only [rebootThread, hpc]
    have hnot : ¬s.toBeWoken := not_toBeWoken (by simp [hpc]) (by simp [hpc])
    split_ifs
    · exact h.goes (by simp [hpc]) hnot trivial rfl (by simp) (by simp [Reboot.remainingMs, hpc])
    · exact h
  | reads =>
    simp only [rebootThread, hpc]
    have hnot : ¬s.toBeWoken := not_toBeWoken (by simp [hpc]) (by simp [hpc])
    refine h.goes (by simp [hpc]) hnot ⟨hcounts, ?_⟩ rfl (by simp) (by simp [Reboot.remainingMs, hpc])
    have hbounded := h.bounded
    obtain hdelay | hdelay := h.delay
    · omega
    · omega
  | startsSleep delay =>
    simp only [rebootThread, hpc]
    rw [hpc] at hknows
    obtain ⟨hpos, hle⟩ := hknows
    have hsleep := kMsleep_delay hpos hle
    refine h.move (by simp [hpc]) trivial ?_ (by simp) (by simp) ?_
    · simp only [RebootPc.ends, beq_iff_eq]
      omega
    · by_cases hwakeups : s.wakeups = 0
      · refine .inr ⟨fun hwoken => hwoken.1 hwakeups, ?_⟩
        simp only [Reboot.remainingMs, hpc]
        omega
      · exact .inl ⟨hwakeups, .inr ⟨_, rfl⟩⟩
  | sleeps left =>
    simp only [rebootThread, hpc]
    split_ifs with hleft
    · have hwakeups : s.wakeups = 0 := h.unwoken (by simp [hpc, hleft, RebootPc.ends])
      exact h.move (by simp [hpc]) trivial (fun _ => hwakeups) (by simp) (by simp)
        (.inr ⟨fun hwoken => hwoken.1 hwakeups, by simp [Reboot.remainingMs, hpc, hleft]⟩)
    · exact h
  | turnsOff =>
    simp only [rebootThread, hpc]
    have hnot : ¬s.toBeWoken := not_toBeWoken (by simp [hpc]) (by simp [hpc])
    have hwakeups : s.wakeups = 0 := h.unwoken (by simp [hpc, RebootPc.ends])
    have hlast : kMsleep systemResetUiDelayMs = 200 := by decide
    exact h.move (by simp [hpc]) trivial (fun _ => hwakeups) (by simp) (by simp)
      (.inr ⟨hnot, by simp [Reboot.remainingMs, hpc, hlast]⟩)
  | lastSleep left =>
    simp only [rebootThread, hpc]
    have hnot : ¬s.toBeWoken := not_toBeWoken (by simp [hpc]) (by simp [hpc])
    have hwakeups : s.wakeups = 0 := h.unwoken (by simp [hpc, RebootPc.ends])
    split_ifs with hleft
    · exact h.move (by simp [hpc]) trivial (fun _ => hwakeups) (by simp) (by simp)
        (.inr ⟨hnot, by simp [Reboot.remainingMs, hpc, hleft]⟩)
    · exact h
  | goesDown =>
    simp only [rebootThread, hpc]
    have hnot : ¬s.toBeWoken := not_toBeWoken (by simp [hpc]) (by simp [hpc])
    have hwakeups : s.wakeups = 0 := h.unwoken (by simp [hpc, RebootPc.ends])
    have htime := h.time.resolve_left hnot
    simp only [Reboot.remainingMs, hpc] at htime
    exact ⟨h.positive, h.bounded, h.delay, hcounts, trivial, h.instant, fun hpending => absurd hwakeups hpending,
      fun hwaits => absurd hwaits (by simp), .inr htime, rfl⟩
  | reset =>
    simp only [rebootThread, hpc]
    exact h

theorem wake_ends {pc : RebootPc} (h : pc.ends = false) : pc.wake.ends = false := by
  cases pc with
  | firstSleep delay left =>
    simp only [RebootPc.wake]
    split_ifs <;> rfl
  | sleeps left =>
    have hleft : left ≠ 0 := by simpa [RebootPc.ends] using h
    simp only [RebootPc.wake, if_neg hleft]
    rfl
  | lastSleep left => simp [RebootPc.ends] at h
  | _ => exact h

theorem wake_knows {pc : RebootPc} {stored : UInt32} (h : pc.Knows stored requested) :
    pc.wake.Knows stored requested := by
  cases pc with
  | firstSleep delay left =>
    simp only [RebootPc.wake]
    split_ifs
    · exact h
    · exact h
  | sleeps left | lastSleep left =>
    simp only [RebootPc.wake]
    split_ifs <;> trivial
  | _ => exact h

theorem Served.wakeup (h : Served storedAt requested s) (htimely : RebootAction.Timely s .wakeup) :
    Served storedAt requested (rebootStep s .wakeup).2 := by
  simp only [rebootStep]
  split_ifs with hwakeups
  · exact h
  · have hends := h.awake hwakeups
    obtain ⟨hnow, hbusy⟩ := h.instant (.inl hwakeups)
    have hreset : s.thread ≠ .reset := by
      intro hpc
      simp [hpc, RebootPc.ends] at hends
    have hwake : s.thread.wake ≠ .reset := by
      intro hpc
      simpa [hpc, RebootPc.ends] using wake_ends hends
    refine ⟨h.positive, h.bounded, h.delay, h.counts, wake_knows h.knows, fun _ => ⟨hnow, hbusy⟩, fun _ => wake_ends hends,
      fun _ => .inr (.inl (Nat.succ_ne_zero _)), ?_, ?_⟩
    · have hdelay := h.delay
      have hknows := h.knows
      -- the thread sleeps for this request from now on, or has yet to be woken by another one
      cases hpc : s.thread with
      | firstSleep delay left =>
        rw [hpc] at hknows
        obtain ⟨hlocal, hlong⟩ := hknows
        have htime := h.time.resolve_left (not_toBeWoken (by simp [hpc]) (by simp [hpc]))
        simp only [Reboot.remainingMs, hpc] at htime
        refine .inr ?_
        by_cases hleft : left = 0
        · simp only [RebootPc.wake, if_pos hleft, Reboot.remainingMs]
          omega
        · simp only [RebootPc.wake, if_neg hleft, Reboot.remainingMs]
          omega
      | sleeps left =>
        have hleft : left ≠ 0 := by simpa [hpc, RebootPc.ends] using hends
        refine .inr ?_
        simp only [RebootPc.wake, if_neg hleft, Reboot.remainingMs]
        omega
      | startsSleep delay =>
        by_cases hlast : s.wakeups = 1
        · obtain rfl := htimely delay hpc hlast
          refine .inr ?_
          simp only [RebootPc.wake, Reboot.remainingMs]
          omega
        · refine .inl ⟨?_, .inl ⟨delay, rfl⟩⟩
          change s.wakeups - 1 ≠ 0
          omega
      | lastSleep left => simp [hpc, RebootPc.ends] at hends
      | _ =>
        have htime := h.time.resolve_left (not_toBeWoken (by simp [hpc]) (by simp [hpc]))
        refine .inr ?_
        simpa only [Reboot.remainingMs, hpc, RebootPc.wake] using htime
    · rw [h.resetAt_none hreset]
      exact (if_neg hwake).symm

theorem Served.give (h : Served storedAt requested s) : Served storedAt requested (rebootStep s .give).2 := by
  simp only [rebootStep]
  split_ifs with hgives
  · exact h
  · have hinstant := h.instant (.inr hgives)
    exact ⟨h.positive, h.bounded, h.delay, h.counts, h.knows, fun _ => hinstant, h.awake, fun _ => .inr (.inr rfl), h.time,
      h.reset⟩

theorem elapse_knows {pc : RebootPc} {stored : UInt32} (ms : Nat) (h : pc.Knows stored requested) :
    (pc.elapse ms).Knows stored requested := by
  cases pc <;> exact h

theorem Served.tick (h : Served storedAt requested s) (ms : Nat) :
    Served storedAt requested (rebootStep s (.tick ms)).2 := by
  simp only [rebootStep]
  split_ifs with hstill hwaits
  · exact h
  · simp only [not_or, not_not] at hstill
    obtain hwakeups | hgives | hgiven := h.given hwaits.1
    · exact absurd hstill.1 hwakeups
    · exact absurd hstill.2.1 hgives
    · exact absurd hgiven (by simp [hwaits.2])
  · simp only [not_or, not_not] at hstill
    obtain ⟨hwakeups, hgives, hreset⟩ := hstill
    have helapse : s.thread.elapse ms ≠ .reset := by
      intro hpc
      cases hthread : s.thread <;> simp [hthread, RebootPc.elapse] at hpc hreset
    refine ⟨h.positive, h.bounded, h.delay, h.counts, elapse_knows ms h.knows, fun hpending => ?_,
      fun hpending => absurd hwakeups hpending, fun hwaiting => ?_, .inr ?_, ?_⟩
    · exact absurd hpending (by simp [hwakeups, hgives])
    · refine h.given ?_
      cases hthread : s.thread <;> simp [hthread, RebootPc.elapse] at hwaiting ⊢
    · have htime := h.time.resolve_left fun hwoken => hwoken.1 hwakeups
      cases hpc : s.thread with
      | firstSleep delay left | sleeps left | lastSleep left =>
        simp only [Reboot.remainingMs, RebootPc.elapse, RebootPc.asleepMs, hpc] at htime ⊢
        omega
      | _ =>
        simp only [Reboot.remainingMs, RebootPc.elapse, RebootPc.asleepMs, hpc] at htime ⊢
        omega
    · rw [h.resetAt_none hreset]
      exact (if_neg helapse).symm

/-- Before the first request the thread waits. -/
def Waiting (s : Reboot) : Prop :=
  s.thread = .waits ∧ s.semReboot = false ∧ s.wakeups = 0 ∧ s.gives = 0 ∧ s.resetAt = none

def RebootInv (s : Reboot) : Prop :=
  match s.last with
  | none => Waiting s
  | some (storedAt, delayS) => Served storedAt delayS.toNat s

theorem rebootThread_last (jetsonSystemReset : Bool) : (rebootThread jetsonSystemReset s).last = s.last := by
  simp only [rebootThread]
  cases s.thread with
  | waits | firstSleep delay left | waitsForJetson | sleeps left | lastSleep left =>
    dsimp only
    split_ifs <;> rfl
  | _ => rfl

theorem Waiting.wakeup (h : Waiting s) : (rebootStep s .wakeup).2 = s := by
  simp only [rebootStep, h.2.2.1, if_true]

theorem Waiting.give (h : Waiting s) : (rebootStep s .give).2 = s := by
  simp only [rebootStep, h.2.2.2.1, if_true]

theorem Waiting.thread (h : Waiting s) (jetsonSystemReset : Bool) : rebootThread jetsonSystemReset s = s := by
  simp [rebootThread, h.1, h.2.1]

theorem Waiting.tick (h : Waiting s) (ms : Nat) : (rebootStep s (.tick ms)).2 = { s with now := s.now + ms } := by
  obtain ⟨hthread, hsem, hwakeups, hgives, -⟩ := h
  simp [rebootStep, hthread, hsem, hwakeups, hgives]

theorem RebootInv.store (h : RebootInv s) {delayS : UInt32} {shutdown : Bool}
    (htimely : RebootAction.Timely s (.store delayS shutdown)) : RebootInv (rebootStep s (.store delayS shutdown)).2 := by
  obtain ⟨hpos, hle, hdecrements, hends⟩ := htimely
  have hthread : s.thread ≠ .reset := by
    intro hpc
    simp [hpc, RebootPc.ends] at hends
  have hserved : Served s.now delayS.toNat (rebootStep s (.store delayS shutdown)).2 := by
    cases hlast : s.last with
    | none =>
      simp only [RebootInv, hlast] at h
      obtain ⟨hwaits, -, -, -, hreset⟩ := h
      exact served_store hpos hle hdecrements hends hreset (by simp [hwaits])
    | some request =>
      simp only [RebootInv, hlast] at h
      refine served_store hpos hle hdecrements hends (h.resetAt_none hthread) fun delay hpc => ?_
      have hknows := h.knows
      rwa [hpc] at hknows
  simpa only [RebootInv, rebootStep, if_neg hthread] using hserved

theorem RebootInv.of_same {s' : Reboot} (h : RebootInv s) (hlast : s'.last = s.last) (hwaiting : Waiting s → Waiting s')
    (hserved : ∀ storedAt requested, Served storedAt requested s → Served storedAt requested s') : RebootInv s' := by
  simp only [RebootInv, hlast] at h ⊢
  cases hrequest : s.last with
  | none =>
    rw [hrequest] at h
    exact hwaiting h
  | some request =>
    rw [hrequest] at h
    exact hserved _ _ h

theorem RebootInv.step (h : RebootInv s) (a : RebootAction) (htimely : a.Timely s) : RebootInv (rebootStep s a).2 := by
  cases a with
  | store delayS shutdown => exact h.store htimely
  | wakeup =>
    refine h.of_same ?_ (fun hwaiting => hwaiting.wakeup.symm ▸ hwaiting) fun _ _ hserved => hserved.wakeup htimely
    simp only [rebootStep]
    split_ifs <;> rfl
  | give =>
    refine h.of_same ?_ (fun hwaiting => hwaiting.give.symm ▸ hwaiting) fun _ _ hserved => hserved.give
    simp only [rebootStep]
    split_ifs <;> rfl
  | thread jetsonSystemReset =>
    refine h.of_same (rebootThread_last jetsonSystemReset) (fun hwaiting => ?_)
      fun _ _ hserved => hserved.thread jetsonSystemReset
    rw [rebootStep, hwaiting.thread]
    exact hwaiting
  | tick ms =>
    refine h.of_same ?_ (fun hwaiting => ?_) fun _ _ hserved => hserved.tick ms
    · simp only [rebootStep]
      split_ifs <;> rfl
    · rw [hwaiting.tick ms]
      exact hwaiting

theorem Served.prevails {delayS : UInt32} (h : Served storedAt delayS.toNat s) : Prevails s storedAt delayS := by
  have htime : s.now ≤ storedAt + 1000 * delayS.toNat + s.busyMs := by
    obtain hwoken | htime := h.time
    · have hinstant := h.instant (.inl hwoken.1)
      omega
    · omega
  refine ⟨fun resetAt hreset => ?_, fun _ => htime, ?_⟩
  · rw [h.reset] at hreset
    split_ifs at hreset with hthread
    cases hreset
    have hexact := h.time.resolve_left (not_toBeWoken (by simp [hthread]) (by simp [hthread]))
    simp only [Reboot.remainingMs, hthread] at hexact
    omega
  · have hpos := h.positive
    have hcounts := h.counts
    obtain hsame | hless := h.delay
    · exact .inl (UInt32.toNat_inj.mp hsame)
    · refine .inr (UInt32.toNat_inj.mp ?_)
      rw [sub_one_toNat (by omega)]
      omega

/-- A request of 1 to 60 seconds, whenever it comes. -/
def RebootAction.InRange : RebootAction → Prop
  | .store delayS _ => 1 ≤ delayS ∧ delayS ≤ 60
  | _ => True

instance : (a : RebootAction) → Decidable a.InRange
  | .store _ _ => inferInstanceAs (Decidable (_ ∧ _))
  | .wakeup | .give | .thread _ | .tick _ => isTrue trivial

instance (s : Reboot) : (a : RebootAction) → Decidable (a.Timely s)
  | .store _ _ => inferInstanceAs (Decidable (_ ∧ _ ∧ _ ∧ _))
  | .wakeup =>
    match h : s.thread with
    | .startsSleep delay =>
      decidable_of_iff (s.wakeups = 1 → delay = s.rebootDelayS) (by simp [RebootAction.Timely, h])
    | .waits | .readsFirst | .startsFirstSleep _ | .firstSleep _ _ | .writesBack _ | .checksShutdown | .waitsForJetson
    | .reads | .sleeps _ | .turnsOff | .lastSleep _ | .goesDown | .reset =>
      isTrue (by simp [RebootAction.Timely, h])
  | .give => isTrue trivial
  | .thread _ => isTrue trivial
  | .tick _ => isTrue trivial

/-- A request of 4 seconds, and one of 1 second in the main sleep for it. -/
def overtakenRun : List RebootAction :=
  [.store 4 false, .wakeup, .give, .thread true, .thread true, .thread true, .tick 1000, .thread true, .thread true,
    .thread true, .thread true, .thread true, .tick 500, .store 1 false, .wakeup, .give, .thread true, .thread true,
    .thread true, .tick 800, .thread true, .thread true, .tick 200, .thread true, .thread true]

/-- The same two requests, the second in the first sleep: the thread writes 3 seconds over its 1 second. -/
def overwrittenRun : List RebootAction :=
  [.store 4 false, .wakeup, .give, .thread true, .thread true, .thread true, .tick 500, .store 1 false, .wakeup, .give,
    .thread true, .thread true, .thread true, .thread true, .tick 2800, .thread true, .thread true, .tick 200,
    .thread true, .thread true]

end OrbFirmware.Boot

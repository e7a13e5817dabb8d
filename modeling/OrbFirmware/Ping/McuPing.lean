import Mathlib.Data.List.Nodup
import Mathlib.Data.List.Perm.Basic
import OrbFirmware.Flash
import OrbFirmware.Machine

/-! Pings between two microcontrollers that both run this code, over a link that delivers each frame at any time. -/
namespace OrbFirmware.Ping

inductive PingState where
  | idle
  | waitingForPong
  | pongReceived
  deriving DecidableEq

/-- The message, of which pings and pongs are the same; `test` has the `size` first bytes. -/
structure PingMessage where
  counter : UInt32
  test : List UInt8
  deriving DecidableEq

/-- The variables of one peer; `sendCb` says that it is set. -/
structure Peer where
  pingLastSentCounter : UInt32
  pingState : PingState
  sendCb : Bool

/-- "Hello". -/
def pingTestBytes : List UInt8 := [0x48, 0x65, 0x6c, 0x6c, 0x6f]

def pongReceived (peer : Peer) : Bool := peer.pingState = .pongReceived

def pingPongReset (peer : Peer) : Peer := { peer with pingState := .idle }

/-- A new ping, with the counter from `rand` and what `send_cb` returns; the message is given to the link if that is
`RET_SUCCESS`. -/
def pingPongSendPing (counter : UInt32) (sendRet : RetCode) (peer : Peer) : RetCode × Option PingMessage × Peer :=
  if peer.pingState = .waitingForPong then (.busy, none, peer)
  else if peer.sendCb = false then (.notInitialized, none, peer)
  else
    let previousState := if peer.pingState = .pongReceived then .idle else peer.pingState
    let peer := { peer with pingState := .waitingForPong, pingLastSentCounter := counter }
    if sendRet = .success then (sendRet, some ⟨counter, pingTestBytes⟩, peer)
    else (sendRet, none, { peer with pingState := previousState })

/-- The answer to a message; `testBytesMax` is the size of the array `test.bytes`. -/
def pingPongSendPong (testBytesMax : Nat) (ping : PingMessage) (sendRet : RetCode) (peer : Peer) :
    RetCode × Option PingMessage :=
  if peer.sendCb = false then (.notInitialized, none)
  else if testBytesMax < ping.test.length then (.invalidParam, none)
  else (sendRet, if sendRet = .success then some ping else none)

/-- The peer waits for a pong with this counter. -/
def Peer.waitsFor (peer : Peer) (ping : PingMessage) : Bool :=
  peer.pingState = .waitingForPong && ping.counter == peer.pingLastSentCounter

def pingReceived (testBytesMax : Nat) (ping : PingMessage) (sendRet : RetCode) (peer : Peer) :
    RetCode × Option PingMessage × Peer :=
  if peer.waitsFor ping then
    if ping.test ≠ pingTestBytes then (.invalidParam, none, peer)
    else (.success, none, { peer with pingState := .pongReceived })
  else
    let (ret, answer) := pingPongSendPong testBytesMax ping sendRet peer
    (ret, answer, peer)

inductive Side where
  | main
  | sec
  deriving DecidableEq

def Side.other : Side → Side
  | .main => .sec
  | .sec => .main

/-- A frame on the link: where it goes, which ping it goes back to, and how many times that has been answered. -/
structure Frame where
  dest : Side
  message : PingMessage
  origin : Nat
  answers : Nat

/-- Where `ping_sec` stands: not called, or with `ping_sem` taken before the reset, before the ping, or in its sleep. -/
inductive PingSecPc where
  | idle
  | resets
  | sends
  | sleeps
  deriving DecidableEq

/-- `sent` has the ping of every frame that was given to the link. -/
structure Pings where
  peer : Side → Peer
  pingSec : Side → PingSecPc
  link : List Frame
  nextOrigin : Nat
  sent : List Nat

/-- `ping_init`, the next step of `ping_sec`, a new ping or a reset by another caller; or a frame is delivered. -/
inductive PingAction where
  | init (side : Side)
  | pingSec (side : Side) (counter : UInt32) (sendRet : RetCode)
  | send (side : Side) (counter : UInt32) (sendRet : RetCode)
  | reset (side : Side)
  | deliver (frame : Nat) (sendRet : RetCode)

def Pings.setPeer (s : Pings) (side : Side) (peer : Peer) : Pings := { s with peer := Function.update s.peer side peer }

def Pings.setPc (s : Pings) (side : Side) (pc : PingSecPc) : Pings :=
  { s with pingSec := Function.update s.pingSec side pc }

/-- A message is given to the link. -/
def Pings.give (s : Pings) (frame : Frame) : Pings :=
  { s with link := s.link ++ [frame], sent := s.sent ++ [frame.origin] }

/-- A ping, which has no origin but itself. -/
def sendPing (side : Side) (counter : UInt32) (sendRet : RetCode) (s : Pings) : RetCode × Pings :=
  let (ret, message, peer) := pingPongSendPing counter sendRet (s.peer side)
  let s := s.setPeer side peer
  match message with
  | none => (ret, s)
  | some message =>
    (ret, { s.give ⟨side.other, message, s.nextOrigin, 0⟩ with nextOrigin := s.nextOrigin + 1 })

/-- `ping_sec` returns `RET_ERROR_BUSY` while another call has `ping_sem`. -/
def pingSecStep (side : Side) (counter : UInt32) (sendRet : RetCode) (s : Pings) : List RetCode × Pings :=
  match s.pingSec side with
  | .idle => ([], s.setPc side .resets)
  | .resets => ([], (s.setPeer side (pingPongReset (s.peer side))).setPc side .sends)
  | .sends =>
    let (ret, s) := sendPing side counter sendRet s
    if ret ≠ .success then ([ret], s.setPc side .idle) else ([], s.setPc side .sleeps)
  | .sleeps => ([if pongReceived (s.peer side) then .success else .timeout], s.setPc side .idle)

def deliver (testBytesMax : Nat) (i : Nat) (sendRet : RetCode) (s : Pings) : Pings :=
  match s.link[i]? with
  | none => s
  | some frame =>
    let (_, answer, peer) := pingReceived testBytesMax frame.message sendRet (s.peer frame.dest)
    let s := { s.setPeer frame.dest peer with link := s.link.eraseIdx i }
    match answer with
    | none => s
    | some message => s.give ⟨frame.dest.other, message, frame.origin, frame.answers + 1⟩

def pingStep (testBytesMax : Nat) (s : Pings) : PingAction → List RetCode × Pings
  | .init side => ([], s.setPeer side { s.peer side with sendCb := true })
  | .pingSec side counter sendRet => pingSecStep side counter sendRet s
  | .send side counter sendRet => ([(sendPing side counter sendRet s).1], (sendPing side counter sendRet s).2)
  | .reset side => ([], s.setPeer side (pingPongReset (s.peer side)))
  | .deliver i sendRet => ([], deliver testBytesMax i sendRet s)

def pingInit : Pings where
  peer _ := ⟨0, .idle, false⟩
  pingSec _ := .idle
  link := []
  nextOrigin := 0
  sent := []

/-- A pong is delivered to a peer that waits for it, or whose answer cannot be sent. -/
def PingAction.InTime (testBytesMax : Nat) (s : Pings) : PingAction → Prop
  | .deliver i sendRet => ∀ frame, s.link[i]? = some frame → frame.answers ≠ 0 →
    (s.peer frame.dest).waitsFor frame.message = true ∨ (s.peer frame.dest).sendCb = false ∨
      testBytesMax < frame.message.test.length ∨ sendRet ≠ .success
  | _ => True

/-! Each ping is at most two frames. -/

/-- A ping of which a frame is on the link has given as many frames to it as that says, and not two of them are on it
at once. -/
structure PingsInv (s : Pings) : Prop where
  known : ∀ origin ∈ s.sent, origin < s.nextOrigin
  single : (s.link.map Frame.origin).Nodup
  counted : ∀ frame ∈ s.link, s.sent.count frame.origin = frame.answers + 1
  answered : ∀ frame ∈ s.link, frame.answers ≤ 1
  bounded : ∀ origin, s.sent.count origin ≤ 2

variable {testBytesMax : Nat} {s : Pings}

theorem PingsInv.start : PingsInv pingInit where
  known := by simp [pingInit]
  single := by simp [pingInit]
  counted := by simp [pingInit]
  answered := by simp [pingInit]
  bounded := by simp [pingInit]

theorem PingsInv.frame {s' : Pings} (h : PingsInv s) (hlink : s'.link = s.link) (hsent : s'.sent = s.sent)
    (hnext : s'.nextOrigin = s.nextOrigin) : PingsInv s' := by
  obtain ⟨known, single, counted, answered, bounded⟩ := h
  exact ⟨hsent ▸ hnext ▸ known, hlink ▸ single, hlink ▸ hsent ▸ counted, hlink ▸ answered, hsent ▸ bounded⟩

theorem PingsInv.fresh (h : PingsInv s) : s.sent.count s.nextOrigin = 0 := by
  rw [List.count_eq_zero]
  exact fun hsent => Nat.lt_irrefl _ (h.known _ hsent)

theorem PingsInv.give (h : PingsInv s) {frame : Frame} (hknown : frame.origin < s.nextOrigin)
    (hnew : ∀ f ∈ s.link, f.origin ≠ frame.origin) (hcount : s.sent.count frame.origin = frame.answers)
    (hanswers : frame.answers ≤ 1) : PingsInv (s.give frame) where
  known := by
    intro origin horigin
    obtain hsent | rfl := List.mem_append.mp horigin |>.imp_right List.mem_singleton.mp
    · exact h.known origin hsent
    · exact hknown
  single := by
    simp only [Pings.give, List.map_append, List.map_singleton]
    refine List.nodup_append.mpr ⟨h.single, List.nodup_singleton _, ?_⟩
    intro a ha b hb
    obtain ⟨f, hf, rfl⟩ := List.mem_map.mp ha
    obtain rfl := List.mem_singleton.mp hb
    exact hnew f hf
  counted := by
    intro f hf
    simp only [Pings.give, List.count_append, List.count_singleton]
    obtain hlink | rfl := List.mem_append.mp hf |>.imp_right List.mem_singleton.mp
    · have hne : frame.origin ≠ f.origin := (hnew f hlink).symm
      simpa [hne] using h.counted f hlink
    · simp [hcount]
  answered := by
    intro f hf
    obtain hlink | rfl := List.mem_append.mp hf |>.imp_right List.mem_singleton.mp
    · exact h.answered f hlink
    · exact hanswers
  bounded := by
    intro origin
    simp only [Pings.give, List.count_append, List.count_singleton]
    by_cases hsame : frame.origin = origin
    · obtain rfl := hsame
      simp only [hcount, BEq.rfl, if_true]
      omega
    · simpa [hsame] using h.bounded origin

theorem PingsInv.next (h : PingsInv s) : PingsInv { s with nextOrigin := s.nextOrigin + 1 } :=
  ⟨fun origin horigin => Nat.lt_succ_of_lt (h.known origin horigin), h.single, h.counted, h.answered, h.bounded⟩

theorem PingsInv.setPeer (h : PingsInv s) (side : Side) (peer : Peer) : PingsInv (s.setPeer side peer) :=
  h.frame rfl rfl rfl

theorem PingsInv.setPc (h : PingsInv s) (side : Side) (pc : PingSecPc) : PingsInv (s.setPc side pc) :=
  h.frame rfl rfl rfl

theorem PingsInv.sendPing (h : PingsInv s) (side : Side) (counter : UInt32) (sendRet : RetCode) :
    PingsInv (sendPing side counter sendRet s).2 := by
  simp only [Ping.sendPing]
  cases (pingPongSendPing counter sendRet (s.peer side)).2.1 with
  | none => exact h.setPeer side _
  | some message =>
    have hnew : ∀ frame ∈ s.link, frame.origin ≠ s.nextOrigin := by
      intro frame hframe hsame
      have hcount := h.counted frame hframe
      rw [hsame, h.fresh] at hcount
      omega
    exact (h.setPeer side _).next.give (Nat.lt_succ_self _) hnew h.fresh (Nat.zero_le 1)

theorem PingsInv.pingSecStep (h : PingsInv s) (side : Side) (counter : UInt32) (sendRet : RetCode) :
    PingsInv (pingSecStep side counter sendRet s).2 := by
  simp only [Ping.pingSecStep]
  cases s.pingSec side with
  | idle => exact h.setPc side _
  | resets => exact (h.setPeer side _).setPc side _
  | sends =>
    dsimp only
    split_ifs
    · exact (h.sendPing side counter sendRet).setPc side _
    · exact (h.sendPing side counter sendRet).setPc side _
  | sleeps => exact h.setPc side _

/-- A frame leaves the link. -/
theorem PingsInv.take (h : PingsInv s) {i : Nat} {frame : Frame} (hframe : s.link[i]? = some frame) :
    PingsInv { s with link := s.link.eraseIdx i } ∧ (∀ f ∈ s.link.eraseIdx i, f.origin ≠ frame.origin) ∧
      frame ∈ s.link := by
  obtain ⟨hi, hget⟩ := List.getElem?_eq_some_iff.mp hframe
  have hperm : (s.link[i] :: s.link.eraseIdx i).Perm s.link := List.getElem_cons_eraseIdx_perm hi
  have hmem : ∀ f ∈ s.link.eraseIdx i, f ∈ s.link := fun f hf => List.mem_of_mem_eraseIdx hf
  have hnodup := (hperm.map Frame.origin).nodup_iff.mpr h.single
  rw [hget, List.map_cons, List.nodup_cons] at hnodup
  obtain ⟨hnot, hrest⟩ := hnodup
  refine ⟨⟨h.known, hrest, fun f hf => h.counted f (hmem f hf), fun f hf => h.answered f (hmem f hf), h.bounded⟩, ?_, ?_⟩
  · intro f hf hsame
    exact hnot (List.mem_map.mpr ⟨f, hf, hsame⟩)
  · exact List.mem_of_getElem? hframe

/-- When a frame is answered. -/
theorem pingReceived_answer {ping : PingMessage} {sendRet : RetCode} {peer : Peer} :
    (pingReceived testBytesMax ping sendRet peer).2.1 =
      if peer.waitsFor ping = true ∨ peer.sendCb = false ∨ testBytesMax < ping.test.length ∨ sendRet ≠ .success then none
      else some ping := by
  simp only [pingReceived, pingPongSendPong]
  by_cases hwaits : peer.waitsFor ping = true
  · simp only [hwaits, if_true, true_or]
    split_ifs <;> rfl
  · simp only [hwaits, Bool.false_eq_true, if_false, false_or]
    by_cases hset : peer.sendCb = false
    · simp [hset]
    · by_cases hlength : testBytesMax < ping.test.length
      · simp [hset, hlength]
      · by_cases hsent : sendRet = .success
        · simp [hset, hlength, hsent]
        · simp [hset, hlength, hsent]

/-- A delivered frame is taken off the link, and its answer put on it. -/
theorem deliver_eq (testBytesMax : Nat) {i : Nat} (sendRet : RetCode) {frame : Frame} (hframe : s.link[i]? = some frame) :
    ∃ peer, deliver testBytesMax i sendRet s =
      if (s.peer frame.dest).waitsFor frame.message = true ∨ (s.peer frame.dest).sendCb = false ∨
          testBytesMax < frame.message.test.length ∨ sendRet ≠ .success then
        { s.setPeer frame.dest peer with link := s.link.eraseIdx i }
      else
        ({ s.setPeer frame.dest peer with link := s.link.eraseIdx i } : Pings).give
          ⟨frame.dest.other, frame.message, frame.origin, frame.answers + 1⟩ := by
  refine ⟨(pingReceived testBytesMax frame.message sendRet (s.peer frame.dest)).2.2, ?_⟩
  simp only [deliver, hframe, pingReceived_answer]
  split_ifs <;> rfl

theorem PingsInv.deliver (h : PingsInv s) (i : Nat) (sendRet : RetCode)
    (htime : PingAction.InTime testBytesMax s (.deliver i sendRet)) : PingsInv (deliver testBytesMax i sendRet s) := by
  cases hframe : s.link[i]? with
  | none =>
    simp only [Ping.deliver, hframe]
    exact h
  | some frame =>
    obtain ⟨peer, hdelivered⟩ := deliver_eq testBytesMax sendRet hframe
    obtain ⟨htaken, hnew, hmem⟩ := h.take hframe
    have htaken' : PingsInv { s.setPeer frame.dest peer with link := s.link.eraseIdx i } := htaken.frame rfl rfl rfl
    rw [hdelivered]
    split_ifs with hsilent
    · exact htaken'
    · have hping : frame.answers = 0 := by
        by_contra hpong
        exact hsilent (htime frame hframe hpong)
      have hcount := h.counted frame hmem
      have hsent : frame.origin ∈ s.sent := List.count_pos_iff.mp (hcount ▸ Nat.succ_pos _)
      exact htaken'.give (h.known _ hsent) hnew hcount (by rw [hping])

/-- A pong that is answered is a third frame. -/
theorem PingsInv.late (h : PingsInv s) (i : Nat) (sendRet : RetCode)
    (hlate : ¬PingAction.InTime testBytesMax s (.deliver i sendRet)) :
    ¬∀ origin, (Ping.deliver testBytesMax i sendRet s).sent.count origin ≤ 2 := by
  simp only [PingAction.InTime, not_forall] at hlate
  obtain ⟨frame, hframe, hpong, hanswered⟩ := hlate
  obtain ⟨peer, hdelivered⟩ := deliver_eq testBytesMax sendRet hframe
  have hcount := h.counted frame (List.mem_of_getElem? hframe)
  intro hbounded
  have hthree := hbounded frame.origin
  rw [hdelivered, if_neg hanswered] at hthree
  simp only [Pings.give, Pings.setPeer, List.count_append, List.count_singleton, BEq.rfl, if_true] at hthree
  omega

/-- In a run each ping is at most two frames if and only if no pong comes to a peer that does not wait for it and that
sends its answer. -/
theorem ping_at_most_two_frames (testBytesMax : Nat) (actions : List PingAction) :
    (∀ pre, pre <+: actions → ∀ origin, (Machine.run (pingStep testBytesMax) pingInit pre).2.sent.count origin ≤ 2) ↔
      Machine.Meets (pingStep testBytesMax) (fun s a => a.InTime testBytesMax s) pingInit actions := by
  have hstep : ∀ s a, PingsInv s → a.InTime testBytesMax s → PingsInv (pingStep testBytesMax s a).2 := by
    intro s a h htime
    cases a with
    | init side => exact h.setPeer side _
    | pingSec side counter sendRet => exact h.pingSecStep side counter sendRet
    | send side counter sendRet => exact h.sendPing side counter sendRet
    | reset side => exact h.setPeer side _
    | deliver i sendRet => exact h.deliver i sendRet htime
  have hnot : ∀ s a, PingsInv s → ¬a.InTime testBytesMax s →
      ¬∀ origin, (pingStep testBytesMax s a).2.sent.count origin ≤ 2 := by
    intro s a h hlate
    cases a with
    | deliver i sendRet => exact h.late i sendRet hlate
    | _ => exact absurd trivial hlate
  exact Machine.forall_prefix_iff (fun s h => h.bounded) hstep hnot pingInit actions PingsInv.start

/-- A ping whose peer is reset before the pong comes: the pong is answered. -/
def lateRun : List PingAction :=
  [.init .main, .init .sec, .send .main 7 .success, .deliver 0 .success, .reset .main, .deliver 0 .success]

theorem late_pong_answered : ¬∀ testBytesMax actions origin,
    (Machine.run (pingStep testBytesMax) pingInit actions).2.sent.count origin ≤ 2 := by
  intro h
  exact absurd (h 16 lateRun 0) (by decide +kernel)

end OrbFirmware.Ping

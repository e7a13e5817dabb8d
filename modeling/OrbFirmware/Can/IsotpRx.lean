import OrbFirmware.Machine
import Mathlib.Logic.Function.Basic

/-! `canbus_rx_isotp.c`: the thread that puts the messages of the Jetson and its apps together again from the
fragments that `isotp_recv_net` hands out. -/
namespace OrbFirmware.Can
open OrbFirmware.Machine

/-- What the build fixes: `CONFIG_CAN_ISOTP_REMOTE_APP_COUNT`, `CONFIG_CAN_ISOTP_MAX_SIZE_BYTES` and the `rx_addr`
that each context is bound to. -/
structure RxConfig where
  remoteAppCount : Nat
  maxSizeBytes : Nat
  rxAddr : Nat → UInt32

/-- `CAN_ISOTP_STDID_DESTINATION`. -/
def canIsotpStdidDestination (src dest : UInt32) : UInt32 := (0x300 : UInt32) ||| (src <<< 4) ||| dest

/-- What `isotp_recv_net` returns: how many bytes of the message are still to come, or a negative error, and the data
of the buffer it hands out. -/
structure RecvResult where
  remLen : Int
  data : List UInt8
  deriving DecidableEq, Repr

/-- `rx_message`, with the bytes it points to. -/
structure RxMessage where
  destination : UInt32
  bytes : List UInt8
  deriving DecidableEq, Repr

/-- The wait for the contexts, the loop over them and the receiving loop. -/
inductive RxPc where
  | poll
  | check (appId : Nat)
  | receive (appId : Nat)
  deriving DecidableEq, Repr

/-- `available` are the poll events in the state `K_POLL_STATE_DATA_AVAILABLE`. -/
structure IsotpRx where
  pc : RxPc
  available : Nat → Bool
  wrIdx : Nat
  buffer : List UInt8

/-- The thread was created with a message handler, which is called with each message. -/
inductive RxEvent where
  | began (appId : Nat)
  | received (result : RecvResult)
  | handled (message : RxMessage)
  deriving DecidableEq, Repr

/-- What `k_poll` and `isotp_recv_net` return, or a step of the thread's own. -/
inductive RxAction where
  | poll (ret : Int) (available : Nat → Bool)
  | check
  | recv (result : RecvResult)

def eIntr : Int := 4

/-- `memcpy` into an array. -/
def memcpy (buffer : List UInt8) (off : Nat) (data : List UInt8) : List UInt8 :=
  buffer.take off ++ data ++ buffer.drop (off+data.length)

/-- A fragment that does not fit is left out, and the loop goes on. -/
def copyFragment (cfg : RxConfig) (buffer : List UInt8) (wrIdx : Nat) (data : List UInt8) : List UInt8 × Nat :=
  if wrIdx+data.length ≤ cfg.maxSizeBytes then (memcpy buffer wrIdx data, wrIdx+data.length) else (buffer, wrIdx)

/-- The receiving loop, from one `isotp_recv_net` to the next. -/
def receiveStep (cfg : RxConfig) (s : IsotpRx) (appId : Nat) (result : RecvResult) : List RxEvent × IsotpRx :=
  let next := { s with pc := .check (appId+1), available := Function.update s.available appId false }
  if result.remLen < 0 then ([.received result], next)
  else
    let (buffer, wrIdx) := copyFragment cfg s.buffer s.wrIdx result.data
    if 0 < result.remLen then ([.received result], { s with buffer, wrIdx })
    else
      ([.received result, .handled ⟨cfg.rxAddr appId, buffer.take wrIdx⟩], { next with buffer, wrIdx })

/-- `jetson_to_mcu_rx_thread`. -/
def rxStep (cfg : RxConfig) (s : IsotpRx) : RxAction → List RxEvent × IsotpRx
  | .poll ret available =>
    match s.pc with
    | .poll =>
      if ret = 0 then ([], { s with pc := .check 0, available })
      else if ret = -eIntr then ([], { s with available := fun _ => false })
      else ([], s)
    | _ => ([], s)
  | .check =>
    match s.pc with
    | .check appId =>
      if cfg.remoteAppCount < appId then ([], { s with pc := .poll })
      else if s.available appId then ([.began appId], { s with pc := .receive appId, wrIdx := 0 })
      else ([], { s with pc := .check (appId+1) })
    | _ => ([], s)
  | .recv result =>
    match s.pc with
    | .receive appId => receiveStep cfg s appId result
    | _ => ([], s)

def rxStart (cfg : RxConfig) : IsotpRx := ⟨.poll, fun _ => false, 0, List.replicate cfg.maxSizeBytes 0⟩

/-! The fragments of the message that is being received. -/

def fragmentStep (fragments : List (List UInt8)) : RxEvent → Unit × List (List UInt8)
  | .began _ => ((), [])
  | .received result => ((), fragments ++ [result.data])
  | .handled _ => ((), fragments)

/-- The handler gets all of the message. -/
def WholeMessage (fragments : List (List UInt8)) : RxEvent → Prop
  | .handled message => message.bytes = fragments.flatten
  | _ => True

instance (fragments : List (List UInt8)) : (e : RxEvent) → Decidable (WholeMessage fragments e)
  | .handled message => inferInstanceAs (Decidable (message.bytes = fragments.flatten))
  | .began _ | .received _ => isTrue trivial

/-- The message that ends here has room in the buffer. -/
def MessageFits (cfg : RxConfig) (s : List (List UInt8) × IsotpRx) : RxAction → Prop
  | .recv result => ∀ appId, s.2.pc = .receive appId → result.remLen = 0 →
    (s.1 ++ [result.data]).flatten.length ≤ cfg.maxSizeBytes
  | _ => True

variable {cfg : RxConfig} {fragments : List (List UInt8)} {s : IsotpRx}

theorem memcpy_length {buffer data : List UInt8} {off : Nat} (h : off+data.length ≤ buffer.length) :
    (memcpy buffer off data).length = buffer.length := by
  simp only [memcpy, List.length_append, List.length_take, List.length_drop]
  omega

theorem memcpy_take {buffer data : List UInt8} {off : Nat} (h : off+data.length ≤ buffer.length) :
    (memcpy buffer off data).take (off+data.length) = buffer.take off ++ data := by
  have hlen : (buffer.take off ++ data).length = off+data.length := by
    simp only [List.length_append, List.length_take]
    omega
  rw [memcpy, ← hlen, List.take_left']
  rfl

/-- Either the buffer holds what has been received, or that is more than it can hold. -/
structure Reassembling (cfg : RxConfig) (fragments : List (List UInt8)) (buffer : List UInt8) (wrIdx : Nat) : Prop where
  size : buffer.length = cfg.maxSizeBytes
  index : wrIdx ≤ cfg.maxSizeBytes
  content : buffer.take wrIdx = fragments.flatten ∨
    (wrIdx < fragments.flatten.length ∧ cfg.maxSizeBytes < fragments.flatten.length)

structure RxInv (cfg : RxConfig) (fragments : List (List UInt8)) (s : IsotpRx) : Prop where
  size : s.buffer.length = cfg.maxSizeBytes
  receiving : ∀ appId, s.pc = .receive appId → Reassembling cfg fragments s.buffer s.wrIdx

variable {buffer : List UInt8} {wrIdx : Nat}

theorem Reassembling.copy (h : Reassembling cfg fragments buffer wrIdx) (data : List UInt8) :
    Reassembling cfg (fragments ++ [data]) (copyFragment cfg buffer wrIdx data).1
      (copyFragment cfg buffer wrIdx data).2 := by
  have hflatten : (fragments ++ [data]).flatten = fragments.flatten ++ data := by simp
  rw [copyFragment]
  split_ifs with hfits
  · have hroom : wrIdx+data.length ≤ buffer.length := h.size ▸ hfits
    refine ⟨(memcpy_length hroom).trans h.size, hfits, ?_⟩
    rw [memcpy_take hroom, hflatten, List.length_append]
    obtain hall | ⟨hless, hover⟩ := h.content
    · exact .inl (congrArg (· ++ data) hall)
    · exact .inr ⟨by omega, by omega⟩
  · have hle := h.index
    refine ⟨h.size, h.index, .inr ?_⟩
    rw [hflatten, List.length_append]
    obtain hall | ⟨hless, hover⟩ := h.content
    · have hindex := congrArg List.length hall
      rw [List.length_take, h.size, Nat.min_eq_left hle] at hindex
      exact ⟨by omega, by omega⟩
    · exact ⟨by omega, by omega⟩

/-- The buffer holds all of the message exactly if that has room in it. -/
theorem Reassembling.whole_iff (h : Reassembling cfg fragments buffer wrIdx) :
    buffer.take wrIdx = fragments.flatten ↔ fragments.flatten.length ≤ cfg.maxSizeBytes := by
  have hlength : (buffer.take wrIdx).length = wrIdx := by
    rw [List.length_take, h.size, Nat.min_eq_left h.index]
  constructor
  · intro hall
    rw [← hall, hlength]
    exact h.index
  · intro hfits
    obtain hall | ⟨-, hover⟩ := h.content
    · exact hall
    · omega

theorem RxInv.recv (h : RxInv cfg fragments s) {appId : Nat} (hpc : s.pc = .receive appId) (result : RecvResult) :
    RxInv cfg (run fragmentStep fragments (receiveStep cfg s appId result).1).2 (receiveStep cfg s appId result).2 := by
  have hcopied := (h.receiving appId hpc).copy result.data
  simp only [receiveStep]
  split_ifs with herr hmore
  · exact ⟨h.size, nofun⟩
  · exact ⟨hcopied.size, fun _ _ => hcopied⟩
  · exact ⟨hcopied.size, nofun⟩

theorem RxInv.step (h : RxInv cfg fragments s) (a : RxAction) :
    RxInv cfg (run fragmentStep fragments (rxStep cfg s a).1).2 (rxStep cfg s a).2 := by
  cases hpc : s.pc with
  | poll =>
    cases a with
    | poll ret available =>
      simp only [rxStep, hpc]
      split_ifs
      · exact ⟨h.size, nofun⟩
      · refine ⟨h.size, fun appId hreceive => ?_⟩
        dsimp only at hreceive
        contradiction
      · exact h
    | check | recv result =>
      simp only [rxStep, hpc]
      exact h
  | check appId =>
    cases a with
    | check =>
      simp only [rxStep, hpc]
      split_ifs
      · exact ⟨h.size, nofun⟩
      · exact ⟨h.size, fun _ _ => ⟨h.size, Nat.zero_le _, .inl rfl⟩⟩
      · exact ⟨h.size, nofun⟩
    | poll ret available | recv result =>
      simp only [rxStep, hpc]
      exact h
  | receive appId =>
    cases a with
    | recv result =>
      simp only [rxStep, hpc]
      exact h.recv hpc result
    | poll ret available | check =>
      simp only [rxStep, hpc]
      exact h

/-- What a step hands to the handler. -/
theorem RxInv.whole_iff (h : RxInv cfg fragments s) (a : RxAction) :
    Meets fragmentStep WholeMessage fragments (rxStep cfg s a).1 ↔ MessageFits cfg (fragments, s) a := by
  cases a with
  | poll ret available =>
    have hquiet : (rxStep cfg s (.poll ret available)).1 = [] := by
      simp only [rxStep]
      split
      · split_ifs <;> rfl
      · rfl
    rw [hquiet]
    exact Iff.rfl
  | check =>
    simp only [rxStep, MessageFits, iff_true]
    split
    · split_ifs
      · trivial
      · exact ⟨trivial, trivial⟩
      · trivial
    · trivial
  | recv result =>
    cases hpc : s.pc with
    | receive appId =>
      have hcopied := (h.receiving appId hpc).copy result.data
      simp only [rxStep, hpc, receiveStep, MessageFits]
      split_ifs with herr hmore
      · refine iff_of_true ⟨trivial, trivial⟩ fun _ _ hend => ?_
        omega
      · refine iff_of_true ⟨trivial, trivial⟩ fun _ _ hend => ?_
        omega
      · have hend : result.remLen = 0 := by omega
        have hwhole := hcopied.whole_iff
        constructor
        · rintro ⟨-, hall, -⟩ _ _ _
          exact hwhole.mp hall
        · intro hfits
          exact ⟨trivial, hwhole.mpr (hfits appId rfl hend), trivial⟩
    | poll | check appId => simp [rxStep, hpc, MessageFits, Meets]

/-- The handler is called with all fragments of a message, or not at all, exactly for the messages that have room in
the buffer. -/
theorem isotp_reassembles_iff (cfg : RxConfig) (actions : List RxAction) :
    Meets fragmentStep WholeMessage [] (events (rxStep cfg) (rxStart cfg) actions) ↔
      Meets (watched (rxStep cfg) fragmentStep) (MessageFits cfg) ([], rxStart cfg) actions :=
  meets_events_iff (I := RxInv cfg) (fun _ _ a h => h.step a) (fun _ _ a h => h.whole_iff a) [] (rxStart cfg) actions
    ⟨List.length_replicate, nofun⟩

/-- The main board, whose net buffers have 62 bytes. -/
def mainBoardRx : RxConfig := ⟨7, 690, fun appId => canIsotpStdidDestination (0x8+UInt32.ofNat appId) 0x1⟩

/-- The last of twelve fragments does not fit, and the handler gets the other eleven. -/
theorem isotp_truncates : ¬∀ (cfg : RxConfig) (actions : List RxAction),
    Meets fragmentStep WholeMessage [] (events (rxStep cfg) (rxStart cfg) actions) := by
  intro h
  have hmessage := h mainBoardRx ([.poll 0 fun _ => true, .check] ++
    (List.range 12).map fun i => .recv ⟨62*(11-i : Nat), List.replicate 62 1⟩)
  exact absurd hmessage (by decide +kernel)

end OrbFirmware.Can

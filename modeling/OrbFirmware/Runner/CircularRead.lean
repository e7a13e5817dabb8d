import OrbFirmware.Machine
import OrbFirmware.Uart.Frames

/-! `buf_read_circular` of `runner.c` on addresses: what it copies from where to where, read by read. -/
namespace OrbFirmware.Runner
open Machine

/-- `uart_message_t`: a payload in a circular buffer that starts at `bufferAddr`. Addresses are plain numbers, as
a buffer and the sums of its indices fit the address space. -/
structure UartMsg extends Uart.UartMessage where
  bufferAddr : Nat
  bufferSize : Nat

/-- A call of `memcpy`, from address `source` to index `dest` of the requested buffer. -/
structure Memcpy where
  dest : Nat
  source : Nat
  count : Nat
  deriving DecidableEq

def Memcpy.apply (mem : Nat → UInt8) (buf : List UInt8) (copy : Memcpy) : List UInt8 :=
  buf.take copy.dest ++ (List.range copy.count).map (fun j => mem (copy.source+j)) ++
    buf.drop (copy.dest+copy.count)

/-- What a call returns, copies and leaves in the buffer. -/
structure CircularRead where
  ok : Bool
  copies : List Memcpy
  buf : List UInt8
  deriving DecidableEq

/-- `buf_read_circular` for as many bytes as the buffer has; `source` is the state of the stream. -/
def bufReadCircular (msg : UartMsg) (mem : Nat → UInt8) (source : Nat) : Option (List UInt8) → CircularRead × Nat
  | none => (⟨false, [], []⟩, source)
  | some buf =>
    let count := buf.length
    let endPtr := msg.bufferAddr+(source-msg.bufferAddr+count) % msg.bufferSize
    let copies : List Memcpy :=
      if endPtr < source then
        -- the end of the circular buffer is copied first
        let copyIdx := msg.bufferAddr+msg.bufferSize-source
        [⟨0, source, copyIdx⟩, ⟨copyIdx, msg.bufferAddr, count-copyIdx⟩]
      else [⟨0, source, count⟩]
    (⟨true, copies, copies.foldl (Memcpy.apply mem) buf⟩, endPtr)

/-- The reads of a decoder, from the start of the message on. -/
def readMessage (msg : UartMsg) (mem : Nat → UInt8) (requests : List (Option (List UInt8))) : List CircularRead :=
  (run (bufReadCircular msg mem) (msg.bufferAddr+msg.startIdx) requests).1

/-- The ring from its index `start` on. -/
def ringBytes (msg : UartMsg) (mem : Nat → UInt8) (start count : Nat) : List UInt8 :=
  (List.range count).map fun j => mem (msg.bufferAddr+(start+j) % msg.bufferSize)

/-- All copies stay in the ring and in the buffer, and fill the latter. -/
structure ReadsInside (msg : UartMsg) (request : List UInt8) (read : CircularRead) : Prop where
  ok : read.ok = true
  source : ∀ copy ∈ read.copies,
    msg.bufferAddr ≤ copy.source ∧ copy.source+copy.count ≤ msg.bufferAddr+msg.bufferSize
  dest : ∀ copy ∈ read.copies, copy.dest+copy.count ≤ request.length
  filled : read.buf.length = request.length

variable {msg : UartMsg} {mem : Nat → UInt8} {off : Nat} {request : List UInt8}

theorem ringBytes_eq (start count : Nat) :
    ringBytes msg mem start count = Ring.read msg.bufferSize (fun i => mem (msg.bufferAddr+i)) start count := rfl

/-- A copy into the front of the buffer. -/
theorem apply_front (buf : List UInt8) (source count : Nat) :
    Memcpy.apply mem buf ⟨0, source, count⟩ =
      (List.range count).map (fun j => mem (source+j)) ++ buf.drop count := by
  simp only [Memcpy.apply, List.take_zero, List.nil_append, Nat.zero_add]

/-- A copy that goes on where the buffer is filled so far, up to its end. -/
theorem apply_back (mem : Nat → UInt8) (done rest : List UInt8) (source : Nat) :
    Memcpy.apply mem (done ++ rest) ⟨done.length, source, rest.length⟩ =
      done ++ (List.range rest.length).map (fun j => mem (source+j)) := by
  simp only [Memcpy.apply, List.take_left, ← List.length_append, List.drop_length, List.append_nil]

theorem bufReadCircular_straight (hoff : off+request.length < msg.bufferSize) :
    bufReadCircular msg mem (msg.bufferAddr+off) (some request) =
      (⟨true, [⟨0, msg.bufferAddr+off, request.length⟩], ringBytes msg mem off request.length⟩,
        msg.bufferAddr+(off+request.length)) := by
  have hend : (msg.bufferAddr+off-msg.bufferAddr+request.length) % msg.bufferSize = off+request.length := by
    rw [Nat.add_sub_cancel_left, Nat.mod_eq_of_lt hoff]
  have hbytes : ringBytes msg mem off request.length =
      (List.range request.length).map fun j => mem (msg.bufferAddr+off+j) := by
    simp only [ringBytes_eq, Ring.read_straight (Nat.le_of_lt hoff), Nat.add_assoc]
  simp only [bufReadCircular, hend]
  rw [if_neg (by omega), List.foldl_cons, List.foldl_nil, apply_front, List.drop_length, List.append_nil, hbytes]

/-- The copies of a read that reaches the end of the ring. -/
def wrappingCopies (msg : UartMsg) (off count : Nat) : List Memcpy :=
  [⟨0, msg.bufferAddr+off, msg.bufferSize-off⟩, ⟨msg.bufferSize-off, msg.bufferAddr, count-(msg.bufferSize-off)⟩]

theorem bufReadCircular_wrapping (hoff : off < msg.bufferSize) (hwrap : msg.bufferSize ≤ off+request.length)
    (hcount : request.length < msg.bufferSize) :
    bufReadCircular msg mem (msg.bufferAddr+off) (some request) =
      (⟨true, wrappingCopies msg off request.length, ringBytes msg mem off request.length⟩,
        msg.bufferAddr+(off+request.length-msg.bufferSize)) := by
  have hend : (msg.bufferAddr+off-msg.bufferAddr+request.length) % msg.bufferSize =
      off+request.length-msg.bufferSize := by
    rw [Nat.add_sub_cancel_left, Nat.mod_eq_sub_mod hwrap, Nat.mod_eq_of_lt (by omega)]
  have hcopy : msg.bufferAddr+msg.bufferSize-(msg.bufferAddr+off) = msg.bufferSize-off := by omega
  have hfront : ((List.range (msg.bufferSize-off)).map fun j => mem (msg.bufferAddr+off+j)).length =
      msg.bufferSize-off := by
    rw [List.length_map, List.length_range]
  have hrest : (request.drop (msg.bufferSize-off)).length = request.length-(msg.bufferSize-off) := List.length_drop
  have hbytes : ringBytes msg mem off request.length =
      (List.range (msg.bufferSize-off)).map (fun j => mem (msg.bufferAddr+off+j)) ++
        (List.range (request.length-(msg.bufferSize-off))).map fun j => mem (msg.bufferAddr+j) := by
    simp only [ringBytes_eq, Ring.read_wrapping hoff hwrap hcount.le, Nat.add_assoc]
  have hfilled : [⟨0, msg.bufferAddr+off, msg.bufferSize-off⟩,
      ⟨msg.bufferSize-off, msg.bufferAddr, request.length-(msg.bufferSize-off)⟩].foldl (Memcpy.apply mem) request =
      ringBytes msg mem off request.length := by
    rw [List.foldl_cons, List.foldl_cons, List.foldl_nil, apply_front, hbytes]
    have hback := apply_back mem ((List.range (msg.bufferSize-off)).map fun j => mem (msg.bufferAddr+off+j))
      (request.drop (msg.bufferSize-off)) msg.bufferAddr
    rwa [hfront, hrest] at hback
  simp only [bufReadCircular, hend, hcopy]
  rw [if_pos (by omega), hfilled]
  rfl

/-- A read from index `off` of the ring. -/
theorem bufReadCircular_step (msg : UartMsg) (mem : Nat → UInt8) (hoff : off < msg.bufferSize) (hcount : request.length < msg.bufferSize) :
    ReadsInside msg request (bufReadCircular msg mem (msg.bufferAddr+off) (some request)).1 ∧
      (bufReadCircular msg mem (msg.bufferAddr+off) (some request)).1.buf = ringBytes msg mem off request.length ∧
      (bufReadCircular msg mem (msg.bufferAddr+off) (some request)).2 =
        msg.bufferAddr+(off+request.length) % msg.bufferSize := by
  have hlength : (ringBytes msg mem off request.length).length = request.length := by
    rw [ringBytes, List.length_map, List.length_range]
  obtain hstraight | hwrap := Nat.lt_or_ge (off+request.length) msg.bufferSize
  · rw [bufReadCircular_straight hstraight, Nat.mod_eq_of_lt hstraight]
    refine ⟨⟨rfl, ?_, ?_, hlength⟩, rfl, rfl⟩
    · simp only [List.forall_mem_singleton]
      exact ⟨by omega, by omega⟩
    · simp only [List.forall_mem_singleton]
      omega
  · rw [bufReadCircular_wrapping hoff hwrap hcount, Nat.mod_eq_sub_mod hwrap, Nat.mod_eq_of_lt (by omega)]
    refine ⟨⟨rfl, ?_, ?_, hlength⟩, rfl, rfl⟩
    · rw [wrappingCopies, List.forall_mem_cons]
      simp only [List.forall_mem_singleton]
      exact ⟨⟨by omega, by omega⟩, by omega, by omega⟩
    · rw [wrappingCopies, List.forall_mem_cons]
      simp only [List.forall_mem_singleton]
      exact ⟨by omega, by omega⟩

/-- On the ring of the UART it reads what the reader of the receiver reads. -/
theorem bufReadCircular_buf (b : Uart.RxBuf) (message : Uart.UartMessage) (addr : Nat) (hoff : off < b.size)
    (hcount : request.length < b.size) :
    (bufReadCircular ⟨message, addr, b.size⟩ mem (addr+off) (some request)).1.buf =
      (Uart.bufReadCircular b (fun i => mem (addr+i)) off request.length).1 := by
  obtain ⟨-, hbuf, -⟩ := bufReadCircular_step ⟨message, addr, b.size⟩ mem hoff hcount
  rw [hbuf, ringBytes_eq, Uart.bufReadCircular_eq hoff hcount]

/-- Reads from index `off` on, one after the other. -/
theorem reads_from (requests : List (List UInt8)) (hoff : off < msg.bufferSize)
    (htotal : (requests.map List.length).sum < msg.bufferSize) :
    let reads := (run (bufReadCircular msg mem) (msg.bufferAddr+off) (requests.map some)).1
    List.Forall₂ (ReadsInside msg) requests reads ∧
      (reads.map CircularRead.buf).flatten = ringBytes msg mem off (requests.map List.length).sum := by
  induction requests generalizing off with
  | nil => exact ⟨.nil, rfl⟩
  | cons request requests ih =>
    rw [List.map_cons, List.sum_cons] at htotal
    have hcount : request.length < msg.bufferSize := by omega
    obtain ⟨hinside, hbuf, hstate⟩ := bufReadCircular_step msg mem hoff hcount
    obtain ⟨hall, hbytes⟩ := ih (Nat.mod_lt (off+request.length) (by omega)) (by omega)
    have hrun : (run (bufReadCircular msg mem) (msg.bufferAddr+off) ((request :: requests).map some)).1 =
        (bufReadCircular msg mem (msg.bufferAddr+off) (some request)).1 ::
          (run (bufReadCircular msg mem) (msg.bufferAddr+(off+request.length) % msg.bufferSize)
            (requests.map some)).1 := by
      rw [← hstate]
      rfl
    rw [hrun]
    refine ⟨.cons hinside hall, ?_⟩
    rw [List.map_cons, List.flatten_cons, hbuf, hbytes, List.map_cons, List.sum_cons]
    simp only [ringBytes_eq, Ring.read_add, Ring.read_mod]

/-- Whatever the decoder asks for, it gets the payload in order, out of the ring and into its buffers only. -/
theorem circular_reads_payload (msg : UartMsg) (mem : Nat → UInt8) (hstart : msg.startIdx < msg.bufferSize)
    (hlength : msg.length < msg.bufferSize) (requests : List (List UInt8))
    (htotal : (requests.map List.length).sum ≤ msg.length) :
    let reads := readMessage msg mem (requests.map some)
    List.Forall₂ (ReadsInside msg) requests reads ∧
      (reads.map CircularRead.buf).flatten = ringBytes msg mem msg.startIdx (requests.map List.length).sum :=
  reads_from requests hstart (Nat.lt_of_le_of_lt htotal hlength)

/-- A length in the last byte of a ring of eight, and a payload around its end. -/
theorem circular_reads_payload_wraps :
    ((readMessage ⟨⟨7, 4⟩, 0x20000000, 8⟩ (fun addr => .ofNat (addr-0x20000000)) [some [0], some [0, 0, 0]]).map
      CircularRead.buf).flatten = [7, 0, 1, 2] :=
  (circular_reads_payload ⟨⟨7, 4⟩, 0x20000000, 8⟩ (fun addr => .ofNat (addr-0x20000000)) (by decide) (by decide)
    [[0], [0, 0, 0]] (by decide)).2

end OrbFirmware.Runner

import OrbFirmware.Ring

/-! `uart_messaging.c`: the DMA fills a ring buffer, and `uart_event_callback` finds the messages in it; and
`buf_read_circular` of `runner.c`, which reads a message off the ring. -/
namespace OrbFirmware.Uart

/-- `SIZE_MAX`; a `size_t` has 32 bits. -/
def sizeMax : Nat := 2^32-1

/-- `UART_MESSAGE_HEADER_SIZE`: the magic characters and the length, both in two bytes, little endian. -/
def headerSize : Nat := 4

/-- `HEADER_MAGIC_U16`. -/
def headerMagicU16 : Nat := 0xad8e

/-- `CONFIG_ORB_LIB_UART_RX_BUF_SIZE_BYTES`, with its build assertion. -/
structure RxBuf where
  size : Nat
  power : ∃ k < 32, size = 2^k

/-- `uart_message_t` less the buffer's address and size. -/
structure UartMessage where
  startIdx : Nat
  length : Nat
  deriving DecidableEq

/-- `uart_rx_ring_buf` with its two indices; the DMA stores the next byte at `dmaIndex`. -/
structure Receiver where
  ringBuf : Nat → UInt8
  readIndex : Nat
  writeIndex : Nat
  dmaIndex : Nat

/-- `UART_RX_RING_BUFFER_USED_BYTES`, a subtraction of `size_t`s. -/
def usedBytes (b : RxBuf) (start stop : Nat) : Nat := (stop+2^32-start) % 2^32 &&& (b.size-1)

/-- Two bytes of the ring as a `uint16_t`. -/
def uint16At (b : RxBuf) (ringBuf : Nat → UInt8) (index : Nat) : Nat :=
  (((ringBuf ((index+1) % b.size)).toNat <<< 8)+(ringBuf (index % b.size)).toNat) % 2^16

/-- The loop of `uart_event_callback`: the messages it puts into `uart_recv_queue`, and `read_index` when it
is left. Every turn moves `read_index` on, so that `fuel` turns are enough for as many used bytes. -/
def receiveLoop (b : RxBuf) (ringBuf : Nat → UInt8) (writeIndex : Nat) : Nat → Nat → List UartMessage × Nat
  | 0, readIndex => ([], readIndex)
  | fuel+1, readIndex =>
    if readIndex ≠ writeIndex then
      let payloadSize := uint16At b ringBuf (readIndex+2)
      let headerMagic := uint16At b ringBuf readIndex
      if headerSize < usedBytes b readIndex writeIndex ∧ headerMagic = headerMagicU16 ∧
          payloadSize+headerSize ≤ usedBytes b readIndex writeIndex then
        let message : UartMessage := ⟨(readIndex+headerSize) % b.size, payloadSize⟩
        let (messages, readIndex) :=
          receiveLoop b ringBuf writeIndex fuel ((readIndex+message.length+headerSize) % b.size)
        (message :: messages, readIndex)
      else if usedBytes b readIndex writeIndex < headerSize ∨
          headerSize ≤ usedBytes b readIndex writeIndex ∧ headerMagic = headerMagicU16 ∧
            usedBytes b readIndex writeIndex < payloadSize+headerSize then
        -- more bytes needed
        ([], readIndex)
      else receiveLoop b ringBuf writeIndex fuel ((readIndex+1) % b.size)
    else ([], readIndex)

/-- `uart_event_callback` on `UART_RX_RDY`. -/
def uartEventCallback (b : RxBuf) (s : Receiver) (offset len : Nat) : List UartMessage × Receiver :=
  let (readIndex, writeIndex) :=
    if s.readIndex = sizeMax ∧ s.writeIndex = sizeMax then (offset, offset) else (s.readIndex, s.writeIndex)
  let writeIndex := (writeIndex+len) % b.size
  let (messages, readIndex) := receiveLoop b s.ringBuf writeIndex b.size readIndex
  (messages, { s with readIndex, writeIndex })

/-- `buf_read_circular`: the bytes it copies, and where the next read starts. -/
def bufReadCircular (b : RxBuf) (ringBuf : Nat → UInt8) (source count : Nat) : List UInt8 × Nat :=
  let endIdx := (source+count) % b.size
  if endIdx < source then
    -- wraps around: the end of the buffer is copied first
    let copyIdx := b.size-source
    ((List.range copyIdx).map (fun j => ringBuf (source+j)) ++ (List.range (count-copyIdx)).map ringBuf, endIdx)
  else ((List.range count).map (fun j => ringBuf (source+j)), endIdx)

/-- A message put into the queue, with what can be read of it then. -/
structure Emitted where
  message : UartMessage
  bytes : List UInt8
  deriving DecidableEq

/-- The DMA stores a chunk behind the one before it, and the event for it is handled. -/
def receive (b : RxBuf) (s : Receiver) (chunk : List UInt8) : List Emitted × Receiver :=
  let ringBuf := Ring.fill b.size s.ringBuf s.dmaIndex chunk
  let (messages, s') := uartEventCallback b { s with ringBuf } s.dmaIndex chunk.length
  (messages.map fun m => ⟨m, (bufReadCircular b ringBuf m.startIdx m.length).1⟩,
    { s' with dmaIndex := (s.dmaIndex+chunk.length) % b.size })

/-- Before the first byte, which goes to `offset`. -/
def Receiver.initial (offset : Nat) : Receiver := ⟨fun _ => 0, sizeMax, sizeMax, offset⟩

end OrbFirmware.Uart

import OrbFirmware.Runner.CircularRead

/-! From the wire to the decoder: the interrupt queues the messages it finds, a thread takes one at a time and its
decoder reads the payload off the ring, which the DMA goes on writing. -/
namespace OrbFirmware.Uart
open Incremental

/-- The slots of `uart_recv_queue`. -/
def uartRecvQueueLen : Nat := 6

/-- A message, and the position in the stream of its payload. -/
structure Queued where
  message : UartMessage
  pos : Nat

/-- A message that is being handled: where its next read starts, and how much of it has been read. -/
structure Reading extends Queued where
  source : Nat
  done : Nat

/-- `stream` is all that has been received. -/
structure UartSystem where
  receiver : Receiver
  stream : List UInt8
  uartRecvQueue : List Queued
  handling : Option Reading

/-- A chunk is received; `rx_thread` gets a message; the decoder of its handler reads into a buffer; the handler
returns. -/
inductive UartAction where
  | chunk (c : List UInt8)
  | get
  | read (request : List UInt8)
  | handled

inductive UartEvent where
  | got (pos len : Nat)
  | read (pos done : Nat) (bytes : List UInt8)
  deriving DecidableEq

/-- A full queue takes no message. -/
def kMsgqPut (queue : List Queued) (q : Queued) : List Queued :=
  if queue.length < uartRecvQueueLen then queue ++ [q] else queue

/-- The payload starts as many bytes before the end of the stream as it does before the index of the DMA. -/
def payloadPos (b : RxBuf) (dmaIndex received : Nat) (message : UartMessage) : Nat :=
  received-(dmaIndex+b.size-message.startIdx) % b.size

/-- The ring lies at address `addr`. -/
def uartStep (b : RxBuf) (addr : Nat) (s : UartSystem) : UartAction → List UartEvent × UartSystem
  | .chunk c =>
    let (emitted, receiver) := receive b s.receiver c
    let stream := s.stream ++ c
    let found := emitted.map fun e => ⟨e.message, payloadPos b receiver.dmaIndex stream.length e.message⟩
    ([], { s with receiver, stream, uartRecvQueue := found.foldl kMsgqPut s.uartRecvQueue })
  | .get =>
    match s.handling, s.uartRecvQueue with
    | none, q :: queue =>
      ([.got q.pos q.message.length],
        { s with uartRecvQueue := queue, handling := some ⟨q, addr+q.message.startIdx, 0⟩ })
    | _, _ => ([], s)
  | .read request =>
    match s.handling with
    | none => ([], s)
    | some r =>
      let (result, source) := Runner.bufReadCircular ⟨r.message, addr, b.size⟩ (fun a => s.receiver.ringBuf (a-addr))
        r.source (some request)
      ([.read r.pos r.done result.buf], { s with handling := some { r with source, done := r.done+request.length } })
  | .handled => ([], { s with handling := none })

/-- Before the first byte, which goes to `offset`. -/
def UartSystem.initial (offset : Nat) : UartSystem := ⟨.initial offset, [], [], none⟩

/-- A decoder asks for no more than is left of its message, and before the DMA writes over it. -/
def InTime (b : RxBuf) (s : UartSystem) : UartAction → Prop
  | .read request => ∀ r, s.handling = some r →
      r.done+request.length ≤ r.message.length ∧ s.stream.length ≤ r.pos+r.done+b.size
  | _ => True

/-! The specification: frames of the stream. -/

/-- A payload in the stream, behind the header that announces it. -/
structure Frame (x : List UInt8) (m : Nat × Nat) : Prop where
  header_le : headerSize ≤ m.1
  whole : m.1+m.2 ≤ x.length
  header : header (x.drop (m.1-headerSize)) = some m.2

/-- The header of one frame lies behind the payload of the other. -/
def Before (m m' : Nat × Nat) : Prop := m.1+m.2+headerSize ≤ m'.1

/-- The messages handled so far. -/
def gots (tr : List UartEvent) : List (Nat × Nat) :=
  tr.filterMap fun
    | .got pos len => some (pos, len)
    | .read _ _ _ => none

/-- What was read is that part of the payload. -/
def UartEvent.Exact (x : List UInt8) (ms : List (Nat × Nat)) : UartEvent → Prop
  | .got _ _ => True
  | .read pos done bytes => ∃ len, (pos, len) ∈ ms ∧ done+bytes.length ≤ len ∧
      bytes = (x.drop (pos+done)).take bytes.length

variable {b : RxBuf} {o addr r : Nat} {x c : List UInt8}

theorem Frame.append {m : Nat × Nat} (h : Frame x m) (c : List UInt8) : Frame (x ++ c) m where
  header_le := h.header_le
  whole := by
    rw [List.length_append]
    exact Nat.le_add_right_of_le h.whole
  header := by
    have hle := h.whole
    have hlen := header_length h.header
    rw [List.drop_append_of_le_length (by omega), header_append hlen, h.header]

/-- The frames that an event finds. -/
structure Found (b : RxBuf) (o : Nat) (x : List UInt8) (r r' : Nat) (q : Queued) : Prop where
  frame : Frame x (q.pos, q.message.length)
  start : q.message.startIdx = (o+q.pos) % b.size
  length_lt : q.message.length < b.size
  after : r+headerSize ≤ q.pos
  before : q.pos+q.message.length ≤ r'

theorem windowStep_within : Within windowStep := by
  intro u e n h
  simp only [windowStep] at h
  split_ifs at h with hempty
  · obtain ⟨-, rfl⟩ := Prod.mk.inj (Option.some.inj h)
    rw [hempty.1]
    decide
  · exact referenceStep_within u e n h

/-- What the window says of a message in it. -/
theorem window_mem {m : Nat × Nat} (h : m ∈ (window b x r).1) :
    windowStart b x r ≤ m.1 ∧ header (x.drop m.1) = some m.2 ∧ m.1+headerSize+m.2+(window b x r).2.length ≤ x.length ∧
      windowStep ((x.drop (windowStart b x r)).drop (m.1-windowStart b x r)) = some (some m.2, m.2+3) := by
  obtain ⟨hle, n, hstep⟩ := parse_mem h
  obtain ⟨hheader, -, rfl⟩ := windowStep_message hstep
  have hend := parse_mem_end windowStep_within h hstep
  have hstart := windowStart_le b x r
  have hdrop : windowStart b x r+(m.1-windowStart b x r) = m.1 := by omega
  rw [List.length_drop] at hend
  rw [List.drop_drop, hdrop] at hheader
  refine ⟨hle, hheader, ?_, hstep⟩
  simp only [headerSize, window]
  omega

/-- The index of the DMA gives back the position of a message in the window. -/
theorem payloadPos_place {m : Nat × Nat} (h : m ∈ (window b x r).1) :
    payloadPos b ((o+x.length) % b.size) x.length (place b (o+m.1, m.2)) = m.1+headerSize := by
  obtain ⟨hle, -, hend, -⟩ := window_mem h
  have hlt := lt_windowStart b x r
  have hsub : ((o+x.length) % b.size+b.size-(o+m.1+headerSize) % b.size) % b.size =
      (o+x.length-(o+m.1+headerSize)) % b.size :=
    Ring.mod_sub_mod (by omega) (Nat.dvd_refl _) (Nat.le_refl _) b.size_pos
  rw [payloadPos, place, hsub, Nat.mod_eq_of_lt (by omega)]
  omega

/-- The messages of an event, with the positions that the indices give, are frames of the stream behind those before. -/
theorem receive_found {s : Receiver} (h : Reads b o x r s) (c : List UInt8) :
    let found := (receive b s c).1.map fun e : Emitted =>
      (⟨e.message, payloadPos b (receive b s c).2.dmaIndex (x ++ c).length e.message⟩ : Queued)
    ∃ r', r ≤ r' ∧ Reads b o (x ++ c) r' (receive b s c).2 ∧ (∀ q ∈ found, Found b o (x ++ c) r r' q) ∧
      found.Pairwise fun q q' => Before (q.pos, q.message.length) (q'.pos, q'.message.length) := by
  intro found
  obtain ⟨hemitted, hreads⟩ := Reads.receive h c
  have hr : r ≤ (x ++ c).length := by
    rw [List.length_append]
    exact Nat.le_add_right_of_le h.le
  have hstart : r ≤ windowStart b (x ++ c) r := by
    have hmod := Nat.mod_le ((x ++ c).length-r) b.size
    rw [windowStart]
    omega
  have hrest : (window b (x ++ c) r).2.length ≤ (x ++ c).length-windowStart b (x ++ c) r := by
    rw [← List.length_drop]
    exact (parse_rest 0).length_le
  have hwstart := windowStart_le b (x ++ c) r
  have hlt := lt_windowStart b (x ++ c) r
  have hfound : found = (window b (x ++ c) r).1.map fun m =>
      ⟨place b (o+m.1, m.2), m.1+headerSize⟩ := by
    simp only [found, hemitted, hreads.dma, List.map_map]
    refine List.map_congr_left fun m hm => ?_
    simp only [Function.comp_apply, emit, payloadPos_place hm]
  refine ⟨_, by omega, hreads, fun q hq => ?_, ?_⟩
  · rw [hfound] at hq
    obtain ⟨m, hm, rfl⟩ := List.mem_map.mp hq
    obtain ⟨hle, hheader, hend, -⟩ := window_mem hm
    refine ⟨⟨Nat.le_add_left _ _, ?_, ?_⟩, ?_, ?_, ?_, ?_⟩
    · simp only [place]
      omega
    · simp only [place, Nat.add_sub_cancel]
      exact hheader
    · simp only [place, Nat.add_assoc]
    · simp only [place, headerSize] at hend ⊢
      omega
    · dsimp only
      omega
    · simp only [place]
      omega
  · rw [hfound, List.pairwise_map]
    refine (parse_apart 0).imp_of_mem fun hm _ hapart => ?_
    obtain ⟨-, -, -, hstep⟩ := window_mem hm
    have hle := hapart _ hstep
    simp only [Before, place, headerSize]
    omega

/-! Runs. -/

/-- The frame of a queued message. -/
def Queued.frame (q : Queued) : Nat × Nat := (q.pos, q.message.length)

/-- The frames handled, and those that wait. -/
def foundFrames (tr : List UartEvent) (s : UartSystem) : List (Nat × Nat) := gots tr ++ s.uartRecvQueue.map Queued.frame

structure DeliveryInv (b : RxBuf) (o addr : Nat) (tr : List UartEvent) (s : UartSystem) : Prop where
  reads : ∃ r, Reads b o s.stream r s.receiver ∧ ∀ m ∈ foundFrames tr s, m.1+m.2 ≤ r
  frames : ∀ m ∈ foundFrames tr s, Frame s.stream m
  before : (foundFrames tr s).Pairwise Before
  queue : ∀ q ∈ s.uartRecvQueue, q.message.startIdx = (o+q.pos) % b.size ∧ q.message.length < b.size
  handling : ∀ r, s.handling = some r → r.frame ∈ gots tr ∧ r.message.length < b.size ∧
    r.source = addr+(o+r.pos+r.done) % b.size
  exact : ∀ e ∈ tr, e.Exact s.stream (gots tr)

theorem deliveryInv_initial (b : RxBuf) (addr : Nat) (ho : o < b.size) : DeliveryInv b o addr [] (.initial o) where
  reads := ⟨0, reads_initial b ho, fun m hm => absurd hm List.not_mem_nil⟩
  frames := fun m hm => absurd hm List.not_mem_nil
  before := .nil
  queue := fun q hq => absurd hq List.not_mem_nil
  handling := fun r hr => by cases hr
  exact := fun e he => absurd he List.not_mem_nil

/-- The messages that still fit are put behind those that wait. -/
theorem foldl_kMsgqPut (found queue : List Queued) :
    ∃ put, put.Sublist found ∧ found.foldl kMsgqPut queue = queue ++ put := by
  induction found generalizing queue with
  | nil => exact ⟨[], .slnil, (List.append_nil queue).symm⟩
  | cons q found ih =>
    by_cases hroom : queue.length < uartRecvQueueLen
    · obtain ⟨put, hsub, heq⟩ := ih (queue ++ [q])
      refine ⟨q :: put, hsub.cons_cons q, ?_⟩
      rw [List.foldl_cons, kMsgqPut, if_pos hroom, heq, List.append_assoc]
      rfl
    · obtain ⟨put, hsub, heq⟩ := ih queue
      refine ⟨put, hsub.cons q, ?_⟩
      rw [List.foldl_cons, kMsgqPut, if_neg hroom, heq]

/-- What has been read stays what it is when more is received. -/
theorem UartEvent.Exact.append {e : UartEvent} {ms : List (Nat × Nat)} (h : e.Exact x ms) (hms : ∀ m ∈ ms, m.1+m.2 ≤ x.length)
    (c : List UInt8) : e.Exact (x ++ c) ms := by
  cases e with
  | got pos len => trivial
  | read pos done bytes =>
    obtain ⟨len, hm, hlen, hbytes⟩ := h
    have hle : pos+len ≤ x.length := hms _ hm
    refine ⟨len, hm, hlen, ?_⟩
    rw [List.drop_append_of_le_length (by omega), List.take_append_of_le_length (by rw [List.length_drop]; omega)]
    exact hbytes

theorem UartEvent.Exact.mono {e : UartEvent} {ms ms' : List (Nat × Nat)} (h : e.Exact x ms) (hms : ms ⊆ ms') :
    e.Exact x ms' := by
  cases e with
  | got pos len => trivial
  | read pos done bytes =>
    obtain ⟨len, hm, hrest⟩ := h
    exact ⟨len, hms hm, hrest⟩

variable {tr : List UartEvent} {s : UartSystem}

/-- The frames found lie behind all that wait or have been handled. -/
theorem DeliveryInv.chunk (h : DeliveryInv b o addr tr s) (c : List UInt8) :
    DeliveryInv b o addr tr (uartStep b addr s (.chunk c)).2 := by
  obtain ⟨r, hreads, hend⟩ := h.reads
  obtain ⟨r', hle, hreads', hfound, hapart⟩ := receive_found hreads c
  obtain ⟨put, hsub, hput⟩ := foldl_kMsgqPut ((receive b s.receiver c).1.map fun e =>
    ⟨e.message, payloadPos b (receive b s.receiver c).2.dmaIndex (s.stream ++ c).length e.message⟩) s.uartRecvQueue
  have hmem (q : Queued) (hq : q ∈ put) : Found b o (s.stream ++ c) r r' q := hfound q (hsub.subset hq)
  have hframes (m : Nat × Nat) (hm : m ∈ foundFrames tr (uartStep b addr s (.chunk c)).2) :
      m ∈ foundFrames tr s ∨ ∃ q ∈ put, q.frame = m := by
    simp only [foundFrames, uartStep, hput, List.map_append, ← List.append_assoc] at hm
    exact (List.mem_append.mp hm).imp_right List.mem_map.mp
  exact {
    reads := by
      refine ⟨r', hreads', fun m hm => ?_⟩
      obtain hold | ⟨q, hq, rfl⟩ := hframes m hm
      · exact (hend m hold).trans hle
      · exact (hmem q hq).before
    frames := by
      intro m hm
      obtain hold | ⟨q, hq, rfl⟩ := hframes m hm
      · exact (h.frames m hold).append c
      · exact (hmem q hq).frame
    before := by
      simp only [foundFrames, uartStep, hput, List.map_append, ← List.append_assoc]
      refine List.pairwise_append.mpr ⟨h.before, ?_, fun m hm m' hm' => ?_⟩
      · rw [List.pairwise_map]
        exact hapart.sublist hsub
      · obtain ⟨q, hq, rfl⟩ := List.mem_map.mp hm'
        have hbefore := hend m hm
        have hafter := (hmem q hq).after
        simp only [Before, Queued.frame]
        omega
    queue := by
      intro q hq
      simp only [uartStep, hput] at hq
      obtain hold | hnew := List.mem_append.mp hq
      · exact h.queue q hold
      · exact ⟨(hmem q hnew).start, (hmem q hnew).length_lt⟩
    handling := h.handling
    exact := by
      intro e he
      exact (h.exact e he).append (fun m hm => (h.frames m (List.mem_append_left _ hm)).whole) c }

theorem gots_append (tr tr' : List UartEvent) : gots (tr ++ tr') = gots tr ++ gots tr' := List.filterMap_append ..

theorem DeliveryInv.get (h : DeliveryInv b o addr tr s) :
    DeliveryInv b o addr (tr ++ (uartStep b addr s .get).1) (uartStep b addr s .get).2 := by
  simp only [uartStep]
  split
  case h_2 =>
    rw [List.append_nil]
    exact h
  case h_1 q queue hnone hqueue =>
    have hgots : gots (tr ++ [.got q.pos q.message.length]) = gots tr ++ [q.frame] := gots_append tr _
    have hframes : gots (tr ++ [.got q.pos q.message.length]) ++ queue.map Queued.frame = foundFrames tr s := by
      rw [hgots, foundFrames, hqueue, List.append_assoc]
      rfl
    obtain ⟨hstart, hlt⟩ := h.queue q (hqueue ▸ List.mem_cons_self)
    refine ⟨?_, ?_, ?_, ?_, ?_, ?_⟩
    · simpa only [foundFrames, hframes] using h.reads
    · simpa only [foundFrames, hframes] using h.frames
    · simpa only [foundFrames, hframes] using h.before
    · exact fun q' hq' => h.queue q' (hqueue ▸ List.mem_cons_of_mem q hq')
    · rintro r ⟨⟩
      rw [hgots]
      exact ⟨List.mem_append_right _ List.mem_cons_self, hlt, by rw [hstart]; rfl⟩
    · intro e he
      rw [hgots]
      obtain hold | hnew := List.mem_append.mp he
      · exact (h.exact e hold).mono (List.subset_append_left _ _)
      · rw [List.mem_singleton.mp hnew]
        trivial

theorem DeliveryInv.read (h : DeliveryInv b o addr tr s) {request : List UInt8} (hin : InTime b s (.read request)) :
    DeliveryInv b o addr (tr ++ (uartStep b addr s (.read request)).1) (uartStep b addr s (.read request)).2 := by
  simp only [uartStep]
  cases hhandling : s.handling with
  | none =>
    rw [List.append_nil]
    exact h
  | some r =>
    obtain ⟨hmem, hlt, hsource⟩ := h.handling r hhandling
    obtain ⟨hdone, hrecent⟩ := hin r hhandling
    obtain ⟨i, hreads, -⟩ := h.reads
    have hwhole : r.pos+r.message.length ≤ s.stream.length := (h.frames _ (List.mem_append_left _ hmem)).whole
    have hfits : request.length < b.size := by omega
    obtain ⟨hinside, hbuf, hnext⟩ := Runner.bufReadCircular_step ⟨r.message, addr, b.size⟩
      (fun a => s.receiver.ringBuf (a-addr)) (Nat.mod_lt (o+r.pos+r.done) b.size_pos) hfits
    -- the ring still holds what is read
    have hbytes : Runner.ringBytes ⟨r.message, addr, b.size⟩ (fun a => s.receiver.ringBuf (a-addr))
        ((o+r.pos+r.done) % b.size) request.length = (s.stream.drop (r.pos+r.done)).take request.length := by
      rw [Runner.ringBytes_eq]
      simp only [Nat.add_sub_cancel_left]
      rw [Ring.read_mod, Nat.add_assoc]
      exact hreads.recent.read (by omega) hrecent
    dsimp only at hinside hbuf hnext ⊢
    rw [hsource]
    have hgots (bytes : List UInt8) : gots (tr ++ [.read r.pos r.done bytes]) = gots tr := by
      rw [gots_append]
      exact List.append_nil _
    refine ⟨?_, ?_, ?_, h.queue, ?_, ?_⟩
    · simpa only [foundFrames, hgots] using h.reads
    · simpa only [foundFrames, hgots] using h.frames
    · simpa only [foundFrames, hgots] using h.before
    · rintro r' ⟨⟩
      rw [hgots]
      refine ⟨hmem, hlt, ?_⟩
      rw [hnext, Nat.mod_add_mod, Nat.add_assoc]
    · intro e he
      rw [hgots]
      obtain hold | hnew := List.mem_append.mp he
      · exact h.exact e hold
      · rw [List.mem_singleton.mp hnew]
        refine ⟨r.message.length, hmem, ?_, ?_⟩
        · rw [hinside.filled]
          exact hdone
        · rw [hinside.filled, hbuf, hbytes]

theorem DeliveryInv.step (h : DeliveryInv b o addr tr s) (a : UartAction) (hin : InTime b s a) :
    DeliveryInv b o addr (tr ++ (uartStep b addr s a).1) (uartStep b addr s a).2 := by
  cases a with
  | chunk c =>
    have hchunk := h.chunk c
    rwa [show (uartStep b addr s (.chunk c)).1 = [] from rfl, List.append_nil]
  | get => exact h.get
  | read request => exact h.read hin
  | handled =>
    rw [show (uartStep b addr s .handled).1 = [] from rfl, List.append_nil]
    exact ⟨h.reads, h.frames, h.before, h.queue, fun r hr => (by cases hr), h.exact⟩

/-- From the wire to the decoder, in whatever order bytes come in, cut into whatever chunks, messages are taken and
their payloads read: what is handled are frames of the stream, in its order and one behind the other, and each read gives
the bytes of the payload that follow those already read, as long as it comes before the DMA writes over them. -/
theorem uart_delivers (b : RxBuf) (addr offset : Nat) (ho : offset < b.size) (actions : List UartAction)
    (hin : Machine.Meets (uartStep b addr) (InTime b) (.initial offset) actions) :
    let tr := Machine.events (uartStep b addr) (.initial offset) actions
    let stream := (Machine.run (uartStep b addr) (.initial offset) actions).2.stream
    (gots tr).Pairwise Before ∧ (∀ m ∈ gots tr, Frame stream m) ∧ ∀ pos done bytes, .read pos done bytes ∈ tr →
      ∃ len, (pos, len) ∈ gots tr ∧ done+bytes.length ≤ len ∧ bytes = (stream.drop (pos+done)).take bytes.length := by
  intro tr stream
  have hinv : DeliveryInv b offset addr ([] ++ tr) (Machine.run (uartStep b addr) (.initial offset) actions).2 :=
    Machine.events_invariant (fun tr s a h ha => h.step a ha) [] _ actions (deliveryInv_initial b addr ho) hin
  rw [List.nil_append] at hinv
  refine ⟨?_, fun m hm => hinv.frames m (List.mem_append_left _ hm), fun pos done bytes he => hinv.exact _ he⟩
  exact (List.pairwise_append.mp hinv.before).1

/-- Noise and two messages around the end of a ring of 16; the first is read in two parts, the last bytes come in between. -/
def noisyRun : List UartAction :=
  [.chunk [0x55, 0x8E, 0xAD, 3, 0, 1, 2], .chunk [3, 0x8E, 0xAD, 1], .get, .read [0], .chunk [0, 9], .read [0, 0], .handled,
    .get, .read [0]]

theorem uart_delivers_noisy :
    let tr := Machine.events (uartStep ⟨16, 4, by decide, rfl⟩ 0x20000000) (.initial 10) noisyRun
    let stream := (Machine.run (uartStep ⟨16, 4, by decide, rfl⟩ 0x20000000) (.initial 10) noisyRun).2.stream
    (gots tr).Pairwise Before ∧ (∀ m ∈ gots tr, Frame stream m) ∧ ∀ pos done bytes, .read pos done bytes ∈ tr →
      ∃ len, (pos, len) ∈ gots tr ∧ done+bytes.length ≤ len ∧ bytes = (stream.drop (pos+done)).take bytes.length := by
  refine uart_delivers ⟨16, 4, by decide, rfl⟩ 0x20000000 10 (by decide) noisyRun ?_
  refine ⟨trivial, trivial, trivial, ?_, trivial, ?_, trivial, trivial, ?_, trivial⟩ <;> rintro r ⟨⟩ <;> decide +kernel

example : Machine.events (uartStep ⟨16, 4, by decide, rfl⟩ 0x20000000) (.initial 10) noisyRun =
    [.got 5 3, .read 5 0 [1], .read 5 1 [2, 3], .got 12 1, .read 12 0 [9]] := by decide +kernel

end OrbFirmware.Uart

import OrbFirmware.Can.IsotpTx

/-! One transfer at a time over the send context, and every heap buffer freed once, after its transfer: as
long as no timeout, no reset and no cleared flag strikes while a message is on its way. -/
namespace OrbFirmware.Can
open Allocation

/-- The message whose buffer the thread holds. -/
def IsotpThread.message : IsotpThread → Option CanMessage
  | .check new => new
  | .send new | .sendFailed new => some new
  | .absent | .setInit | .semTake | .getMsg | .waitMsg | .semGive => none

/-- The message whose buffer a call holds. -/
def IsotpCall.message : IsotpCall → Option CanMessage
  | .copy toSend _ | .put toSend | .heapFree toSend => some toSend
  | .heapAlloc _ _ | .done _ => none

/-- The thread has the semaphore and may start a transfer. -/
def IsotpThread.sends : IsotpThread → Bool
  | .getMsg | .waitMsg | .check (some _) | .send _ | .sendFailed _ => true
  | .absent | .setInit | .semTake | .check none | .semGive => false

/-- The thread is about to give the semaphore. -/
def IsotpThread.gives : IsotpThread → Bool
  | .check none | .semGive => true
  | .absent | .setInit | .semTake | .getMsg | .waitMsg | .check (some _) | .send _ | .sendFailed _ => false

/-- No timeout expires while a transfer or its callback is under way; no critical section of a reset runs
while one is, while the thread or a call holds a buffer, or between the thread's two waits; and no message
is taken off the queue while `is_init` is cleared. -/
def TransferClear (s : IsotpTx) : IsotpAction → Prop
  | .semTimeout => s.thread = .semTake → s.txSem = false → s.transfers = [] ∧ s.callbacks = 0
  | .initCritical k => s.inits[k]? = some .critical → s.transfers = [] ∧ s.callbacks = 0 ∧
      s.thread.message = none ∧ s.thread ≠ .getMsg ∧ s.calls.filterMap IsotpCall.message = []
  | .check => s.thread.message ≠ none → s.isInit = true
  | _ => True

instance (s : IsotpTx) (a : IsotpAction) : Decidable (TransferClear s a) :=
  match a with
  | .semTimeout | .initCritical _ | .check => inferInstanceAs (Decidable (_ → _))
  | .call _ _ | .heapAlloc _ _ | .copy _ | .put _ | .callFree _ | .setInit | .semTake | .getMsg | .send _
  | .sendFree | .semGive | .txComplete _ | .callbackGive | .init | .initClear _ | .initCreate _ => isTrue trivial

/-! The semaphore. -/

/-- The semaphore is with the kernel, the thread, a transfer or a callback. -/
structure TokenInv (s : IsotpTx) : Prop where
  token : s.txSem.toNat+s.thread.sends.toNat+s.transfers.length+s.callbacks ≤ 1
  giving : s.thread.gives = true → s.transfers = [] ∧ s.callbacks = 0

variable {n k : Nat} {tr : List IsotpEvent} {s s' : IsotpTx} {call : IsotpCall} {pc : IsotpInit} {m : CanMessage}

namespace TokenInv

theorem of_thread (h : TokenInv s) (hsem : s'.txSem = s.txSem) (hthread : s'.thread = s.thread)
    (htransfers : s'.transfers = s.transfers) (hcallbacks : s'.callbacks = s.callbacks) : TokenInv s' :=
  ⟨by rw [hsem, hthread, htransfers, hcallbacks]; exact h.token,
    by rw [hthread, htransfers, hcallbacks]; exact h.giving⟩

theorem callStep (h : TokenInv s) (a : IsotpAction) (call : IsotpCall) :
    TokenInv (isotpCallStep n s k a call).2 := by
  have htoken := h.token
  unfold isotpCallStep
  split
  · exact h.of_thread rfl rfl rfl rfl
  · split <;> exact h.of_thread rfl rfl rfl rfl
  · exact h.of_thread rfl rfl rfl rfl
  · split
    · rename_i hwait
      rw [hwait] at htoken
      exact ⟨htoken, fun hgives => by cases hgives⟩
    · split <;> exact h.of_thread rfl rfl rfl rfl
  · exact h.of_thread rfl rfl rfl rfl
  · exact h

theorem threadStep (h : TokenInv s) (a : IsotpAction) (hclear : TransferClear s a) :
    TokenInv (isotpThreadStep s a s.thread).2 := by
  have htoken := h.token
  have hgiving := h.giving
  unfold isotpThreadStep
  split
  · rename_i hthread
    rw [hthread] at htoken
    exact ⟨htoken, fun hgives => by cases hgives⟩
  · rename_i hthread
    rw [hthread] at htoken
    split
    · rename_i hsem
      rw [hsem] at htoken
      exact ⟨htoken, fun hgives => by cases hgives⟩
    · exact h
  · rename_i hthread
    rw [hthread] at htoken
    split
    · exact h
    · rename_i hsem
      exact ⟨htoken, fun _ => hclear hthread (by simpa using hsem)⟩
  · rename_i hthread
    rw [hthread] at htoken
    split <;> exact ⟨htoken, fun hgives => by cases hgives⟩
  · rename_i ret hthread
    rw [hthread] at htoken hgiving
    cases ret with
    | none => exact ⟨htoken, fun _ => hgiving rfl⟩
    | some new =>
      have hinit : s.isInit = true := hclear (by rw [hthread]; simp [IsotpThread.message])
      simp only [hinit, if_true]
      exact ⟨htoken, fun hgives => by cases hgives⟩
  · rename_i started new hthread
    rw [hthread] at htoken
    simp only [IsotpThread.sends, Bool.toNat_true] at htoken
    split
    · refine ⟨?_, fun hgives => by cases hgives⟩
      simp only [IsotpThread.sends, Bool.toNat_false, List.length_append, List.length_singleton]
      omega
    · exact ⟨htoken, fun hgives => by cases hgives⟩
  · rename_i new hthread
    rw [hthread] at htoken
    simp only [IsotpThread.sends, Bool.toNat_true] at htoken
    refine ⟨?_, fun _ => ⟨List.eq_nil_of_length_eq_zero (by simp only; omega), by simp only; omega⟩⟩
    simp only [IsotpThread.sends, Bool.toNat_false]
    omega
  · rename_i hthread
    rw [hthread] at hgiving
    obtain ⟨htransfers, hcallbacks⟩ := hgiving rfl
    refine ⟨?_, fun hgives => by cases hgives⟩
    simp [IsotpThread.sends, htransfers, hcallbacks]
  · exact h

/-- A thread that a reset is allowed to find, once the purge has woken it. -/
theorem sends_purged {thread : IsotpThread} (hmessage : thread.message = none) (hget : thread ≠ .getMsg) :
    (if thread = .waitMsg then IsotpThread.check none else thread).sends = false := by
  cases thread with
  | getMsg => exact absurd rfl hget
  | check new =>
    cases new with
    | none => rfl
    | some new => simp [IsotpThread.message] at hmessage
  | send new | sendFailed new => simp [IsotpThread.message] at hmessage
  | absent | setInit | semTake | waitMsg | semGive => rfl

theorem initStep (h : TokenInv s) (a : IsotpAction) (hclear : ∀ j, a = .initCritical j → pc = .critical →
      s.transfers = [] ∧ s.callbacks = 0 ∧ s.thread.message = none ∧ s.thread ≠ .getMsg ∧
        s.calls.filterMap IsotpCall.message = []) :
    TokenInv (isotpInitStep s k a pc).2 := by
  unfold isotpInitStep
  split
  · exact h.of_thread rfl rfl rfl rfl
  · have htoken := h.token
    have hgiving := h.giving
    cases hthread : s.thread with
    | absent =>
      rw [hthread] at htoken
      exact ⟨by simpa [hthread, IsotpThread.sends] using htoken, fun hgives => by simp [IsotpThread.gives] at hgives⟩
    | setInit | semTake | getMsg | waitMsg | check new | send new | sendFailed new | semGive =>
      rw [hthread] at htoken hgiving
      exact ⟨htoken, hgiving⟩
  · obtain ⟨htransfers, hcallbacks, hmessage, hget, -⟩ := hclear _ rfl rfl
    refine ⟨?_, fun _ => ⟨htransfers, hcallbacks⟩⟩
    simp [sends_purged hmessage hget, htransfers, hcallbacks]
  · exact h

theorem step (h : TokenInv s) (a : IsotpAction) (hclear : TransferClear s a) : TokenInv (isotpTxStep n s a).2 := by
  cases a with
  | call destination data => exact h.of_thread rfl rfl rfl rfl
  | heapAlloc k buffer | copy k | put k | callFree k =>
    simp only [isotpTxStep]
    split
    · exact h.callStep _ _
    · exact h
  | setInit | semTake | semTimeout | getMsg | check | send started | sendFree | semGive =>
    exact h.threadStep _ hclear
  | txComplete k =>
    have htoken := h.token
    simp only [isotpTxStep]
    split
    · rename_i new hk
      obtain ⟨hlt, -⟩ := List.getElem?_eq_some_iff.mp hk
      have hlen : (s.transfers.eraseIdx k).length = s.transfers.length-1 := List.length_eraseIdx_of_lt hlt
      refine ⟨?_, fun hgives => ?_⟩
      · simp only [hlen]
        omega
      · have hnil := (h.giving hgives).1
        rw [hnil] at hlt
        exact absurd hlt (Nat.not_lt_zero k)
    · exact h
  | callbackGive =>
    have htoken := h.token
    simp only [isotpTxStep]
    split
    · exact h
    · rename_i callbacks hcallbacks
      rw [hcallbacks] at htoken
      refine ⟨?_, fun hgives => ?_⟩
      · simp only [Bool.toNat_true]
        omega
      · have hzero := (h.giving hgives).2
        omega
  | init => exact h.of_thread rfl rfl rfl rfl
  | initClear k | initCreate k =>
    simp only [isotpTxStep]
    split
    · exact h.initStep _ fun j he => by cases he
    · exact h
  | initCritical k =>
    simp only [isotpTxStep]
    split
    · rename_i hk
      exact h.initStep _ fun j he hpc => hclear (hpc ▸ hk)
    · exact h

end TokenInv

/-! The buffers. -/

def CanMessage.buffer (m : CanMessage) : Nat × Nat := (m.bytes, m.allocation)

/-- The messages whose transfer has not started. -/
def IsotpTx.pending (s : IsotpTx) : List CanMessage :=
  s.queue ++ (s.thread.message.toList ++ s.calls.filterMap IsotpCall.message)

def IsotpTx.messages (s : IsotpTx) : List CanMessage := s.transfers ++ s.pending

/-- What happened to the heap. -/
def IsotpEvent.onHeap : IsotpEvent → Option (Event Nat)
  | .heap e => some e
  | .started _ | .failed _ | .finished _ => none

def heapTrace (tr : List IsotpEvent) : List (Event Nat) := tr.filterMap IsotpEvent.onHeap

/-- No buffer is freed while a transfer of its message has started and not finished. -/
def FreesFinished (tr : List IsotpEvent) : Prop :=
  ∀ u v buffer id, tr = u ++ .heap (.free buffer id) :: v → .started id ∈ u → .finished id ∈ u

/-- No transfer starts with a buffer that is freed or of a heap re-initialised since. -/
def StartsLive (tr : List IsotpEvent) : Prop :=
  ∀ u v id, tr = u ++ .started id :: v → ∃ buffer, Live (heapTrace u) buffer id

/-- The buffers allocated are those of the messages, each held once. -/
structure BufferInv (tr : List IsotpEvent) (s : IsotpTx) : Prop where
  ledger : Ledger (heapTrace tr) (s.messages.map CanMessage.buffer) s.allocations
  conserved : s.heap.Perm (s.messages.map CanMessage.bytes)
  notStarted : ∀ m ∈ s.pending, .started m.allocation ∉ tr
  past : ∀ id, .started id ∈ tr → id < s.allocations
  finished : FreesFinished tr
  starts : StartsLive tr

theorem heapTrace_append (u v : List IsotpEvent) : heapTrace (u ++ v) = heapTrace u ++ heapTrace v :=
  List.filterMap_append

theorem FreesFinished.append {e : IsotpEvent} (h : FreesFinished tr)
    (he : ∀ buffer id, e = .heap (.free buffer id) → .started id ∈ tr → .finished id ∈ tr) :
    FreesFinished (tr ++ [e]) := by
  intro u v buffer id hsplit
  cases append_singleton_split hsplit with
  | inl hold =>
    obtain ⟨v', hv⟩ := hold
    exact h u v' buffer id hv
  | inr hnew =>
    obtain ⟨rfl, heq⟩ := hnew
    exact he buffer id heq

theorem StartsLive.append {e : IsotpEvent} (h : StartsLive tr)
    (he : ∀ id, e = .started id → ∃ buffer, Live (heapTrace tr) buffer id) : StartsLive (tr ++ [e]) := by
  intro u v id hsplit
  cases append_singleton_split hsplit with
  | inl hold =>
    obtain ⟨v', hv⟩ := hold
    exact h u v' id hv
  | inr hnew =>
    obtain ⟨rfl, heq⟩ := hnew
    exact he id heq

theorem bufferInv_boot : BufferInv [] isotpTxBoot :=
  ⟨ledger_empty, .nil, fun _ hm => absurd hm List.not_mem_nil, fun _ hin => absurd hin List.not_mem_nil,
    fun u v _ _ h => by simp at h, fun u v _ h => by simp at h⟩

namespace BufferInv

/-- A step that hands messages on, none of them to a transfer. -/
theorem moved (h : BufferInv tr s) (htransfers : s'.transfers = s.transfers) (hm : s.pending.Perm s'.pending)
    (hheap : s'.heap = s.heap) (halloc : s'.allocations = s.allocations) : BufferInv (tr ++ []) s' := by
  rw [List.append_nil]
  have hall : s.messages.Perm s'.messages := by
    rw [IsotpTx.messages, IsotpTx.messages, htransfers]
    exact List.Perm.append_left _ hm
  refine ⟨?_, ?_, fun m hin => h.notStarted m (hm.mem_iff.mpr hin), ?_, h.finished, h.starts⟩
  · rw [halloc]
    exact h.ledger.perm (hall.map _)
  · rw [hheap]
    exact h.conserved.trans (hall.map _)
  · rw [halloc]
    exact h.past

theorem alloc {buffer : Nat} (h : BufferInv tr s) (hbuffer : buffer ∉ s.heap)
    (hm : m.buffer = (buffer, s.allocations)) (htransfers : s'.transfers = s.transfers)
    (hpending : s'.pending.Perm (m :: s.pending)) (hheap : s'.heap = buffer :: s.heap)
    (halloc : s'.allocations = s.allocations+1) :
    BufferInv (tr ++ [.heap (.alloc buffer s.allocations)]) s' := by
  have hbytes : m.bytes = buffer := congrArg Prod.fst hm
  have hid : m.allocation = s.allocations := congrArg Prod.snd hm
  have hall : s'.messages.Perm (m :: s.messages) := by
    rw [IsotpTx.messages, IsotpTx.messages, htransfers]
    exact (List.Perm.append_left _ hpending).trans List.perm_middle
  have hnew : buffer ∉ (s.messages.map CanMessage.buffer).map Prod.fst := by
    have hfst : (s.messages.map CanMessage.buffer).map Prod.fst = s.messages.map CanMessage.bytes := by
      rw [List.map_map]
      rfl
    rw [hfst]
    exact fun hin => hbuffer (h.conserved.mem_iff.mpr hin)
  refine ⟨?_, ?_, fun x hin => ?_, fun id hin => ?_, h.finished.append (by simp), h.starts.append (by simp)⟩
  · rw [halloc, heapTrace_append]
    refine (h.ledger.alloc hnew).perm ?_
    have hmap := (hall.map CanMessage.buffer).symm
    rwa [List.map_cons, hm] at hmap
  · have hmap := (hall.map CanMessage.bytes).symm
    rw [List.map_cons, hbytes] at hmap
    rw [hheap]
    exact (h.conserved.cons buffer).trans hmap
  · intro hstarted
    have hold : IsotpEvent.started x.allocation ∈ tr := by simpa using hstarted
    cases List.mem_cons.mp (hpending.mem_iff.mp hin) with
    | inl heq =>
      have hlt := h.past _ hold
      rw [heq, hid] at hlt
      exact absurd hlt (Nat.lt_irrefl _)
    | inr hpend => exact h.notStarted x hpend hold
  · rw [halloc]
    exact Nat.lt_succ_of_lt (h.past id (by simpa using hin))

/-- The heap takes back the buffer of a message that leaves. -/
theorem ledger_free (h : BufferInv tr s) (hm : s.messages.Perm (m :: s'.messages))
    (hheap : s'.heap = s.heap.erase m.bytes) (halloc : s'.allocations = s.allocations) :
    Ledger (heapTrace tr ++ [.free m.bytes m.allocation]) (s'.messages.map CanMessage.buffer) s'.allocations ∧
      s'.heap.Perm (s'.messages.map CanMessage.bytes) := by
  refine ⟨?_, ?_⟩
  · rw [halloc]
    exact (h.ledger.perm (hm.map CanMessage.buffer)).free
  · have hmap := h.conserved.trans (hm.map CanMessage.bytes)
    have herase := hmap.erase m.bytes
    rw [List.map_cons, List.erase_cons_head] at herase
    rwa [hheap]

/-- A buffer freed without its transfer having started. -/
theorem free (h : BufferInv tr s) (htransfers : s'.transfers = s.transfers)
    (hpending : s.pending.Perm (m :: s'.pending)) (hheap : s'.heap = s.heap.erase m.bytes)
    (halloc : s'.allocations = s.allocations) : BufferInv (tr ++ [.heap (.free m.bytes m.allocation)]) s' := by
  have hall : s.messages.Perm (m :: s'.messages) := by
    rw [IsotpTx.messages, IsotpTx.messages, htransfers]
    exact (List.Perm.append_left _ hpending).trans List.perm_middle
  obtain ⟨hledger, hconserved⟩ := h.ledger_free hall hheap halloc
  refine ⟨?_, hconserved, fun x hin => ?_, fun id hin => ?_, h.finished.append ?_, h.starts.append (by simp)⟩
  · rw [heapTrace_append]
    exact hledger
  · have hpend : x ∈ s.pending := hpending.mem_iff.mpr (List.mem_cons_of_mem m hin)
    simpa using h.notStarted x hpend
  · rw [halloc]
    exact h.past id (by simpa using hin)
  · intro buffer id heq hstarted
    have hid : m.allocation = id := (Event.free.inj (IsotpEvent.heap.inj heq)).2
    rw [← hid] at hstarted
    exact absurd hstarted (h.notStarted m (hpending.mem_iff.mpr List.mem_cons_self))

/-- The completion of a transfer frees its buffer. -/
theorem finish (h : BufferInv tr s) (htransfers : s.transfers.Perm (m :: s'.transfers))
    (hpending : s'.pending = s.pending) (hheap : s'.heap = s.heap.erase m.bytes)
    (halloc : s'.allocations = s.allocations) :
    BufferInv (tr ++ [.finished m.allocation, .heap (.free m.bytes m.allocation)]) s' := by
  have hall : s.messages.Perm (m :: s'.messages) := by
    rw [IsotpTx.messages, IsotpTx.messages, hpending]
    exact htransfers.append_right _
  obtain ⟨hledger, hconserved⟩ := h.ledger_free hall hheap halloc
  have hsplit : tr ++ [.finished m.allocation, .heap (.free m.bytes m.allocation)] =
      (tr ++ [.finished m.allocation]) ++ [.heap (.free m.bytes m.allocation)] := by simp
  refine ⟨?_, hconserved, fun x hin => ?_, fun id hin => ?_, ?_, ?_⟩
  · rw [heapTrace_append]
    exact hledger
  · rw [hpending] at hin
    simpa using h.notStarted x hin
  · rw [halloc]
    exact h.past id (by simpa using hin)
  · rw [hsplit]
    refine (h.finished.append (by simp)).append fun buffer id heq _ => ?_
    rw [← (Event.free.inj (IsotpEvent.heap.inj heq)).2]
    exact List.mem_append_right _ List.mem_cons_self
  · rw [hsplit]
    exact (h.starts.append (by simp)).append (by simp)

/-- The start of a transfer. -/
theorem start (h : BufferInv tr s) (htransfers : s'.transfers = s.transfers ++ [m])
    (hpending : s.pending.Perm (m :: s'.pending)) (hheap : s'.heap = s.heap)
    (halloc : s'.allocations = s.allocations) : BufferInv (tr ++ [.started m.allocation]) s' := by
  have hin : m ∈ s.messages := List.mem_append_right _ (hpending.mem_iff.mpr List.mem_cons_self)
  have hall : s.messages.Perm s'.messages := by
    rw [IsotpTx.messages, IsotpTx.messages, htransfers, List.append_assoc]
    exact List.Perm.append_left _ hpending
  have hledger := h.ledger.perm (hall.map CanMessage.buffer)
  have htrace : heapTrace (tr ++ [.started m.allocation]) = heapTrace tr := by
    rw [heapTrace_append]
    exact List.append_nil _
  refine ⟨?_, ?_, fun x hx hstarted => ?_, fun id hstarted => ?_, h.finished.append (by simp), h.starts.append ?_⟩
  · rw [htrace, halloc]
    exact hledger
  · rw [hheap]
    exact h.conserved.trans (hall.map _)
  · cases List.mem_append.mp hstarted with
    | inl hold => exact h.notStarted x (hpending.mem_iff.mpr (List.mem_cons_of_mem m hx)) hold
    | inr hnew =>
      -- the transfer just started has an allocation of its own
      have hid : x.allocation = m.allocation := by simpa using hnew
      have hrest : s.messages.Perm (m :: (s.transfers ++ s'.pending)) :=
        (List.Perm.append_left _ hpending).trans List.perm_middle
      have hids := (h.ledger.perm (hrest.map CanMessage.buffer)).ids
      rw [List.map_cons, List.map_cons, List.nodup_cons, List.map_map] at hids
      exact hids.1 (List.mem_map.mpr ⟨x, List.mem_append_right _ hx, hid⟩)
  · rw [halloc]
    cases List.mem_append.mp hstarted with
    | inl hold => exact h.past id hold
    | inr hnew =>
      have hid : id = m.allocation := by simpa using hnew
      rw [hid]
      exact h.ledger.fresh _ (List.mem_map.mpr ⟨m, hin, rfl⟩)
  · intro id heq
    rw [← IsotpEvent.started.inj heq]
    exact ⟨m.bytes, h.ledger.live _ (List.mem_map.mpr ⟨m, hin, rfl⟩)⟩

/-- A heap re-initialised takes back the buffers of the queue; nobody else holds one. -/
theorem reset (h : BufferInv tr s) (hmessages : s'.messages = []) (hheap : s'.heap = [])
    (halloc : s'.allocations = s.allocations) : BufferInv (tr ++ [.heap .reset]) s' := by
  have hpending : s'.pending = [] := (List.append_eq_nil_iff.mp hmessages).2
  refine ⟨?_, ?_, fun x hin => ?_, fun id hin => ?_, h.finished.append (by simp), h.starts.append (by simp)⟩
  · rw [heapTrace_append, hmessages, halloc]
    exact h.ledger.reset
  · rw [hmessages, hheap]
    exact .nil
  · rw [hpending] at hin
    exact absurd hin List.not_mem_nil
  · rw [halloc]
    exact h.past id (by simpa using hin)

/-- A transfer that fails to start. -/
theorem fail (h : BufferInv tr s) (htransfers : s'.transfers = s.transfers) (hm : s.pending.Perm s'.pending)
    (hheap : s'.heap = s.heap) (halloc : s'.allocations = s.allocations) (id : Nat) :
    BufferInv (tr ++ [.failed id]) s' := by
  have hmoved := h.moved htransfers hm hheap halloc
  rw [List.append_nil] at hmoved
  refine ⟨?_, hmoved.conserved, fun x hin => ?_, fun id hin => ?_, h.finished.append (by simp), h.starts.append (by simp)⟩
  · rw [heapTrace_append]
    exact (List.append_nil (heapTrace tr)).symm ▸ hmoved.ledger
  · simpa using hmoved.notStarted x hin
  · exact hmoved.past id (by simpa using hin)

end BufferInv

/-! The steps. -/

theorem pending_count (s : IsotpTx) (x : CanMessage) :
    s.pending.count x = s.queue.count x+s.thread.message.toList.count x+
      (s.calls.filterMap IsotpCall.message).count x := by
  rw [IsotpTx.pending, List.count_append, List.count_append, Nat.add_assoc]

theorem isotpCalls_count (hk : s.calls[k]? = some call) (call' : IsotpCall) (x : CanMessage) :
    call.message.toList.count x+((s.calls.set k call').filterMap IsotpCall.message).count x =
      call'.message.toList.count x+(s.calls.filterMap IsotpCall.message).count x := by
  have hset := (filterMap_set_perm (f := IsotpCall.message) hk call').count_eq x
  rwa [List.count_append, List.count_append] at hset

namespace BufferInv

/-- A call that goes on with the message it has. -/
theorem setCall (h : BufferInv tr s) (call' : IsotpCall) (hk : s.calls[k]? = some call)
    (hm : call'.message = call.message) (hcalls : s'.calls = s.calls.set k call') (hqueue : s'.queue = s.queue)
    (hthread : s'.thread = s.thread) (htransfers : s'.transfers = s.transfers) (hheap : s'.heap = s.heap)
    (halloc : s'.allocations = s.allocations) : BufferInv (tr ++ []) s' := by
  refine h.moved htransfers ?_ hheap halloc
  rw [List.perm_iff_count]
  intro x
  have hset := isotpCalls_count hk call' x
  rw [hm] at hset
  rw [pending_count, pending_count, hcalls, hqueue, hthread]
  omega

theorem put (h : BufferInv tr s) (hk : s.calls[k]? = some (.put m)) :
    BufferInv (tr ++ (isotpCallStep n s k (.put k) (.put m)).1) (isotpCallStep n s k (.put k) (.put m)).2 := by
  have hcount (x : CanMessage) := isotpCalls_count hk (.done .success) x
  simp only [IsotpCall.message, Option.toList_some, Option.toList_none, List.count_nil] at hcount
  simp only [isotpCallStep]
  split
  · rename_i hwait
    refine h.moved rfl ?_ rfl rfl
    rw [List.perm_iff_count]
    intro x
    have hx := hcount x
    simp only [pending_count, hwait, IsotpThread.message, Option.toList_some, Option.toList_none, List.count_nil]
    omega
  · split
    · refine h.moved rfl ?_ rfl rfl
      rw [List.perm_iff_count]
      intro x
      have hx := hcount x
      simp only [pending_count, List.count_append]
      omega
    · exact h.setCall (.heapFree m) hk rfl rfl rfl rfl rfl rfl rfl

theorem callStep (h : BufferInv tr s) (a : IsotpAction) (hk : s.calls[k]? = some call) :
    BufferInv (tr ++ (isotpCallStep n s k a call).1) (isotpCallStep n s k a call).2 := by
  unfold isotpCallStep
  split
  · exact h.setCall (.done .noMem) hk rfl rfl rfl rfl rfl rfl rfl
  · rename_i buffer destination data
    split
    · exact h.moved rfl (.refl _) rfl rfl
    · rename_i hbuffer
      refine h.alloc (m := ⟨destination, buffer, data.length, s.allocations⟩) hbuffer rfl rfl ?_ rfl rfl
      rw [List.perm_iff_count]
      intro x
      have hx := isotpCalls_count hk (.copy ⟨destination, buffer, data.length, s.allocations⟩ data) x
      simp only [IsotpCall.message, Option.toList_some, Option.toList_none, List.count_nil] at hx
      rw [pending_count, List.count_cons, ← List.count_singleton, pending_count]
      simp only
      omega
  · rename_i toSend data
    exact h.setCall (.put toSend) hk rfl rfl rfl rfl rfl rfl rfl
  · exact h.put hk
  · rename_i toSend
    refine h.free rfl ?_ rfl rfl
    rw [List.perm_iff_count]
    intro x
    have hx := isotpCalls_count hk (.done .busy) x
    simp only [IsotpCall.message, Option.toList_some, Option.toList_none, List.count_nil] at hx
    rw [pending_count, List.count_cons, ← List.count_singleton, pending_count]
    simp only
    omega
  · exact h.moved rfl (.refl _) rfl rfl

/-- A step of the thread that hands its message on or has none. -/
theorem threadMoved (h : BufferInv tr s) (hqueue : ∀ x, s.queue.count x+s.thread.message.toList.count x =
      s'.queue.count x+s'.thread.message.toList.count x) (hcalls : s'.calls = s.calls)
    (htransfers : s'.transfers = s.transfers) (hheap : s'.heap = s.heap)
    (halloc : s'.allocations = s.allocations) : BufferInv (tr ++ []) s' := by
  refine h.moved htransfers ?_ hheap halloc
  rw [List.perm_iff_count]
  intro x
  rw [pending_count, pending_count, hcalls, hqueue]

/-- The message leaves the thread. -/
theorem thread_leaves (hthread : s.thread.message = some m) (hthread' : s'.thread.message = none)
    (hqueue : s'.queue = s.queue) (hcalls : s'.calls = s.calls) : s.pending.Perm (m :: s'.pending) := by
  rw [List.perm_iff_count]
  intro x
  rw [pending_count, List.count_cons, ← List.count_singleton, pending_count, hthread, hthread', hqueue, hcalls]
  simp only [Option.toList_some, Option.toList_none, List.count_nil]
  omega

theorem threadStep (h : BufferInv tr s) (a : IsotpAction) (hclear : TransferClear s a) :
    BufferInv (tr ++ (isotpThreadStep s a s.thread).1) (isotpThreadStep s a s.thread).2 := by
  unfold isotpThreadStep
  split
  · rename_i hthread
    exact h.threadMoved (fun x => by rw [hthread]; rfl) rfl rfl rfl rfl
  · rename_i hthread
    split
    · exact h.threadMoved (fun x => by rw [hthread]; rfl) rfl rfl rfl rfl
    · exact h.moved rfl (.refl _) rfl rfl
  · rename_i hthread
    split
    · exact h.moved rfl (.refl _) rfl rfl
    · exact h.threadMoved (fun x => by rw [hthread]; rfl) rfl rfl rfl rfl
  · rename_i hthread
    split
    · exact h.threadMoved (fun x => by rw [hthread]; rfl) rfl rfl rfl rfl
    · rename_i new queue hqueue
      refine h.threadMoved (fun x => ?_) rfl rfl rfl rfl
      rw [hthread, hqueue]
      simp [IsotpThread.message, List.count_cons]
  · rename_i ret hthread
    cases ret with
    | none => exact h.threadMoved (fun x => by rw [hthread]; rfl) rfl rfl rfl rfl
    | some new =>
      have hinit : s.isInit = true := hclear (by rw [hthread]; simp [IsotpThread.message])
      simp only [hinit, if_true]
      exact h.threadMoved (fun x => by rw [hthread]; rfl) rfl rfl rfl rfl
  · rename_i started new hthread
    split
    · exact h.start rfl (thread_leaves (by rw [hthread]; rfl) rfl rfl rfl) rfl rfl
    · have hpending : s.pending.Perm { s with thread := .sendFailed new }.pending := by
        rw [IsotpTx.pending, IsotpTx.pending, hthread]
        exact .refl _
      refine h.fail ?_ hpending ?_ ?_ new.allocation <;> rfl
  · rename_i new hthread
    exact h.free rfl (thread_leaves (by rw [hthread]; rfl) rfl rfl rfl) rfl rfl
  · rename_i hthread
    exact h.threadMoved (fun x => by rw [hthread]; rfl) rfl rfl rfl rfl
  · exact h.moved rfl (.refl _) rfl rfl

theorem initStep (h : BufferInv tr s) (a : IsotpAction) (hclear : ∀ j, a = .initCritical j → pc = .critical →
      s.transfers = [] ∧ s.callbacks = 0 ∧ s.thread.message = none ∧ s.thread ≠ .getMsg ∧
        s.calls.filterMap IsotpCall.message = []) :
    BufferInv (tr ++ (isotpInitStep s k a pc).1) (isotpInitStep s k a pc).2 := by
  unfold isotpInitStep
  split
  · exact h.moved rfl (.refl _) rfl rfl
  · refine h.threadMoved (fun x => ?_) rfl rfl rfl rfl
    simp only
    split
    · rename_i hthread
      rw [hthread]
      rfl
    · rfl
  · obtain ⟨htransfers, -, hmessage, -, hcalls⟩ := hclear _ rfl rfl
    have hpurged : (if s.thread = .waitMsg then IsotpThread.check none else s.thread).message = none := by
      split
      · rfl
      · exact hmessage
    refine h.reset ?_ rfl rfl
    simp only [IsotpTx.messages, IsotpTx.pending, htransfers, hpurged, hcalls, Option.toList_none, List.append_nil]
  · exact h.moved rfl (.refl _) rfl rfl

theorem step (h : BufferInv tr s) (a : IsotpAction) (hclear : TransferClear s a) :
    BufferInv (tr ++ (isotpTxStep n s a).1) (isotpTxStep n s a).2 := by
  cases a with
  | call destination data =>
    simp only [isotpTxStep]
    generalize hcall : (if s.isInit then IsotpCall.heapAlloc destination data else .done .invalidState) = call
    have hnone : call.message = none := by
      rw [← hcall]
      split <;> rfl
    refine h.moved rfl ?_ rfl rfl
    simp only [IsotpTx.pending, List.filterMap_append, List.filterMap_cons, hnone, List.filterMap_nil,
      List.append_nil]
    exact .refl _
  | heapAlloc k buffer | copy k | put k | callFree k =>
    simp only [isotpTxStep]
    split
    · rename_i hk
      exact h.callStep _ hk
    · exact h.moved rfl (.refl _) rfl rfl
  | setInit | semTake | semTimeout | getMsg | check | send started | sendFree | semGive =>
    exact h.threadStep _ hclear
  | txComplete k =>
    simp only [isotpTxStep]
    split
    · rename_i new hk
      refine h.finish ?_ rfl rfl rfl
      obtain ⟨hlt, hget⟩ := List.getElem?_eq_some_iff.mp hk
      rw [← hget]
      exact (List.getElem_cons_eraseIdx_perm hlt).symm
    · exact h.moved rfl (.refl _) rfl rfl
  | callbackGive =>
    simp only [isotpTxStep]
    split <;> exact h.moved rfl (.refl _) rfl rfl
  | init => exact h.moved rfl (.refl _) rfl rfl
  | initClear k | initCreate k =>
    simp only [isotpTxStep]
    split
    · exact h.initStep _ fun j he => by cases he
    · exact h.moved rfl (.refl _) rfl rfl
  | initCritical k =>
    simp only [isotpTxStep]
    split
    · rename_i hk
      exact h.initStep _ fun j he hpc => hclear (hpc ▸ hk)
    · exact h.moved rfl (.refl _) rfl rfl

end BufferInv

/-- The thread is about to put a transfer on its send context. -/
def IsotpThread.atSend : IsotpThread → Bool
  | .send _ => true
  | .absent | .setInit | .semTake | .getMsg | .waitMsg | .check _ | .sendFailed _ | .semGive => false

theorem TokenInv.one_transfer (h : TokenInv s) : s.transfers.length+s.thread.atSend.toNat ≤ 1 := by
  have htoken := h.token
  have hat : s.thread.atSend.toNat ≤ s.thread.sends.toNat := by
    cases s.thread with
    | send new => exact le_rfl
    | absent | setInit | semTake | getMsg | waitMsg | check new | sendFailed new | semGive => exact Nat.zero_le _
  omega

/-- Exclusivity and buffers over every interleaving of thread, calls, completions, timeouts and resets in
which no timeout, reset or cleared flag strikes a message on its way. The buffers that the heap has handed
out are always those of the messages, each held once: one that no message holds has been freed. -/
theorem isotp_transfers_exclusive (n : Nat) (acts : List IsotpAction)
    (hclear : Machine.Meets (isotpTxStep n) TransferClear isotpTxBoot acts) :
    let tr := Machine.events (isotpTxStep n) isotpTxBoot acts
    let s := (Machine.run (isotpTxStep n) isotpTxBoot acts).2
    s.transfers.length+s.thread.atSend.toNat ≤ 1 ∧
    ReturnedOnce (heapTrace tr) ∧ FreesLive (heapTrace tr) ∧ FreesFinished tr ∧ StartsLive tr ∧
    s.heap.Perm (s.messages.map CanMessage.bytes) ∧ s.heap.Nodup := by
  intro tr s
  have htoken : TokenInv s :=
    Machine.meets_invariant (fun _ a h ha => h.step a ha) isotpTxBoot acts ⟨by decide, fun _ => ⟨rfl, rfl⟩⟩ hclear
  have hbuffer : BufferInv ([] ++ tr) s :=
    Machine.events_invariant (fun _ _ a h ha => h.step a ha) [] isotpTxBoot acts bufferInv_boot hclear
  have hnodup := hbuffer.ledger.blocks
  rw [List.map_map] at hnodup
  exact ⟨htoken.one_transfer, hbuffer.ledger.once, hbuffer.ledger.frees, hbuffer.finished, hbuffer.starts,
    hbuffer.conserved, hbuffer.conserved.nodup_iff.mpr hnodup⟩

theorem isotp_transfers_exclusive_two_messages :
    let s := (Machine.run (isotpTxStep 4) isotpTxBoot [.init, .initClear 0, .initCreate 0, .initCritical 0, .setInit,
      .call 7 [1], .call 8 [2], .heapAlloc 0 (some 0), .heapAlloc 1 (some 8), .copy 0, .copy 1, .put 0, .put 1,
      .semTake, .getMsg, .check, .send true, .setInit, .txComplete 0, .callbackGive, .semTake, .getMsg, .check,
      .send true]).2
    s.transfers.length+s.thread.atSend.toNat ≤ 1 :=
  (isotp_transfers_exclusive 4 [.init, .initClear 0, .initCreate 0, .initCritical 0, .setInit,
      .call 7 [1], .call 8 [2], .heapAlloc 0 (some 0), .heapAlloc 1 (some 8), .copy 0, .copy 1, .put 0, .put 1,
      .semTake, .getMsg, .check, .send true, .setInit, .txComplete 0, .callbackGive, .semTake, .getMsg, .check,
      .send true] (by decide)).1

/-- A transfer that takes longer than five seconds: the timeout lets the thread start the next one. -/
theorem timeout_starts_second_transfer :
    let s := (Machine.run (isotpTxStep 4) isotpTxBoot [.init, .initClear 0, .initCreate 0, .initCritical 0, .setInit,
      .call 7 [1], .call 8 [2], .heapAlloc 0 (some 0), .heapAlloc 1 (some 8), .copy 0, .copy 1, .put 0, .put 1,
      .semTake, .getMsg, .check, .send true, .setInit, .semTimeout, .semGive, .setInit, .semTake, .getMsg, .check,
      .send true]).2
    s.transfers.length = 2 := by
  decide

end OrbFirmware.Can

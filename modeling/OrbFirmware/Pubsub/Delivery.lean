import OrbFirmware.Pubsub.Publish

/-! Store and forward: what the flush thread hands over is, in order and once, what was stored. -/
namespace OrbFirmware.Pubsub
open Nor Storage
variable {ι : Type} {p : Platform} {cfg : PubConfig}

theorem ofLe32_le32 (x : UInt32) : ofLe32 (le32 x) = x := by
  have hx := x.toNat_lt
  rw [← UInt32.toNat_inj]
  simp only [ofLe32, le32, List.getD_cons_zero, List.getD_cons_succ, UInt32.toNat_ofNat', UInt8.toNat_ofNat']
  omega

theorem length_le32 (x : UInt32) : (le32 x).length = 4 := rfl

theorem slice_copyTo (record : Mem) (data : List UInt8) : slice (copyTo record data) 0 data.length = data := by
  rw [slice_eq_iff]
  intro i hi
  simp only [copyTo, Nat.zero_add]
  exact List.getD_eq_getElem _ _ hi

/-! What the events say. -/

/-- The entry a handed message was made of: its destination, and all but the last four of its bytes. -/
def entryOf (message : CanMessage) : List UInt8 :=
  pubEntry message.destination (message.bytes.take (message.bytes.length-4))

/-- What was stored. -/
def PubEvent.storedEntry : PubEvent ι → Option (List UInt8)
  | .stored destination data => some (pubEntry destination data)
  | _ => none

/-- What the CAN layer accepted or refused for good. -/
def PubEvent.settledEntry : PubEvent ι → Option (List UInt8 × RetCode)
  | .handed message .success => some (entryOf message, .success)
  | .handed message .invalidParam => some (entryOf message, .invalidParam)
  | _ => none

def PubEvent.acceptedEntry : PubEvent ι → Option (List UInt8)
  | .handed message .success => some (entryOf message)
  | _ => none

def stored (tr : List (PubEvent ι)) : List (List UInt8) := tr.filterMap PubEvent.storedEntry

def settled (tr : List (PubEvent ι)) : List (List UInt8 × RetCode) := tr.filterMap PubEvent.settledEntry

def accepted (tr : List (PubEvent ι)) : List (List UInt8) := tr.filterMap PubEvent.acceptedEntry

/-- The entries not yet settled: the whole queue, but for its head while that is being freed. -/
def pending (pc : FlushPc) (q : Queue) : Queue := if pc = .freeing then q.tail else q

/-- An entry is what some call of `publish` would have sent. -/
def Entry (cfg : PubConfig) (record : List UInt8) : Prop :=
  ∃ call direct, directMessage cfg call = some direct ∧ record = pubEntry direct.destination direct.bytes

/-- What the flush thread knows about the head of the queue. -/
def FlushPc.Knows (q : Queue) (record : Mem) : FlushPc → Prop
  | .dropping => False
  | .handing size => ∃ head tail, q = head :: tail ∧ size = head.length ∧ slice record 0 size = head
  | .freeing => q ≠ []
  | _ => True

structure DeliveryInv (p : Platform) (cfg : PubConfig) (q₀ : Queue) (tr : List (PubEvent ι)) (s : PubState ι)
    (q : Queue) : Prop where
  storage : StorageInv p (storagePartition p.board) s.storage q
  entries : ∀ record ∈ q, Entry cfg record
  thread : s.flush.Knows q s.record
  delivered : q₀ ++ stored tr = (settled tr).map Prod.fst ++ pending s.flush q

variable {q₀ q : Queue} {tr : List (PubEvent ι)} {s s' : PubState ι}

theorem Entry.fits {record : List UInt8} (h : Entry cfg record) : record.length ≤ cfg.sizeofPubEntry := by
  obtain ⟨call, direct, hdirect, rfl⟩ := h
  obtain ⟨data, hencode, rfl⟩ := Option.map_eq_some_iff.mp hdirect
  have hlen := cfg.pbEncode_le _ data hencode
  simp only [pubEntry, List.length_append, length_le32, PubConfig.sizeofPubEntry]
  omega

/-- The message handed over for an entry: the bytes of the entry's message and four more. -/
theorem handedMessage_entry {mem : Mem} {direct : CanMessage}
    (hmem : slice mem 0 (4+direct.bytes.length) = pubEntry direct.destination direct.bytes) :
    (handedMessage mem (4+direct.bytes.length)).destination = direct.destination ∧
    (handedMessage mem (4+direct.bytes.length)).bytes.take direct.bytes.length = direct.bytes ∧
    (handedMessage mem (4+direct.bytes.length)).bytes.length = 4+direct.bytes.length := by
  rw [slice_add] at hmem
  obtain ⟨hdest, hdata⟩ := List.append_inj hmem (by simp [length_le32])
  refine ⟨?_, ?_, by simp [handedMessage]⟩
  · rw [handedMessage, hdest, ofLe32_le32]
  · rw [handedMessage, Nat.add_comm, slice_add]
    exact (List.take_left' (by simp)).trans hdata

theorem length_pubEntry (direct : CanMessage) :
    (pubEntry direct.destination direct.bytes).length = 4+direct.bytes.length := by
  simp [pubEntry, length_le32, Nat.add_comm]

/-- The message made of an entry gives it back. -/
theorem entryOf_handed {record : List UInt8} {mem : Mem} (h : Entry cfg record)
    (hmem : slice mem 0 record.length = record) : entryOf (handedMessage mem record.length) = record := by
  obtain ⟨call, direct, -, rfl⟩ := h
  rw [length_pubEntry] at hmem ⊢
  obtain ⟨hdest, hbytes, hlen⟩ := handedMessage_entry hmem
  rw [entryOf, hdest, hlen, Nat.add_sub_cancel_left, hbytes]

theorem DeliveryInv.start (h : StorageInv p (storagePartition p.board) s.storage q)
    (hentries : ∀ record ∈ q, Entry cfg record) (hstopped : s.flush = .stopped) : DeliveryInv p cfg q [] s q := by
  refine ⟨h, hentries, ?_, ?_⟩
  · rw [hstopped]
    exact trivial
  · rw [hstopped]
    exact List.append_nil q

/-- Events about neither, and the same storage and thread. -/
theorem DeliveryInv.quiet (h : DeliveryInv p cfg q₀ tr s q) {events : List (PubEvent ι)}
    (hstored : stored events = []) (hsettled : settled events = []) (hstorage : s'.storage = s.storage)
    (hflush : s'.flush = s.flush) (hrecord : s'.record = s.record) : DeliveryInv p cfg q₀ (tr ++ events) s' q := by
  refine ⟨hstorage ▸ h.storage, h.entries, ?_, ?_⟩
  · rw [hflush, hrecord]
    exact h.thread
  · have hd := h.delivered
    simp only [stored, settled, List.filterMap_append] at hd hstored hsettled ⊢
    rw [hstored, hsettled, List.append_nil, List.append_nil, hflush, hd]

theorem FlushPc.Knows.snoc {pc : FlushPc} {record : Mem} (h : pc.Knows q record) (entry : List UInt8) :
    pc.Knows (q ++ [entry]) record := by
  cases pc with
  | dropping => exact h
  | handing size =>
    obtain ⟨head, tail, hq, hsize, hmem⟩ := h
    exact ⟨head, tail ++ [entry], by rw [hq, List.cons_append], hsize, hmem⟩
  | freeing => exact fun hnil => h (List.append_eq_nil_iff.mp hnil).1
  | stopped | peeking | sleeping => exact trivial

theorem pending_snoc {pc : FlushPc} {record : Mem} (h : pc.Knows q record) (entry : List UInt8) :
    pending pc (q ++ [entry]) = pending pc q ++ [entry] := by
  by_cases hpc : pc = .freeing
  · rw [hpc] at h
    rw [pending, pending, if_pos hpc, if_pos hpc, List.tail_append_of_ne_nil h]
  · rw [pending, pending, if_neg hpc, if_neg hpc]

theorem filterMap_snoc_none {α β : Type} {f : α → Option β} {l l' : List α} (h : l'.filterMap f = []) :
    (l ++ l').filterMap f = l.filterMap f := by
  rw [List.filterMap_append, h, List.append_nil]

/-- Storing an entry appends it to the queue, if it succeeds. -/
theorem DeliveryInv.store (h : DeliveryInv p cfg q₀ tr s q) {destination : UInt32} {data : List UInt8}
    (hentry : Entry cfg (pubEntry destination data)) :
    ∃ q', DeliveryInv p cfg q₀ (tr ++ (storeEntry p destination data s).2.1) (storeEntry p destination data s).2.2 q' := by
  have hfits : FitsSizeField (storagePartition p.board) (.push (pubEntry destination data)) := by
    refine .inl ?_
    cases p.board <;> decide
  obtain ⟨-, hinv⟩ := storageStep_inv s.storage q (.push (pubEntry destination data)) hfits h.storage
  have hd := h.delivered
  simp only [storageStep, fifo] at hinv
  simp only [storeEntry]
  generalize storagePush p s.storage.area (pubEntry destination data) (.ok s.storage.mem) = r at hinv
  obtain ⟨ret, area, fl⟩ := r
  by_cases hret : ret = .success
  · subst hret
    refine ⟨q ++ [pubEntry destination data], hinv, ?_, h.thread.snoc _, ?_⟩
    · exact List.forall_mem_append.mpr ⟨h.entries, List.forall_mem_singleton.mpr hentry⟩
    · have hnew : stored (tr ++ [PubEvent.stored destination data]) = stored tr ++ [pubEntry destination data] :=
        List.filterMap_append
      have hold : settled (tr ++ [PubEvent.stored destination data]) = settled tr := filterMap_snoc_none rfl
      rw [if_pos rfl, hnew, hold, pending_snoc h.thread, ← List.append_assoc, hd, List.append_assoc]
  · have hsame : fifoNext q (.push (pubEntry destination data)) (.code ret) = q := by
      cases ret with
      | success => exact absurd rfl hret
      | _ => rfl
    rw [hsame] at hinv
    refine ⟨q, hinv, h.entries, h.thread, ?_⟩
    rw [if_neg hret, List.append_nil]
    exact hd

/-- `storage_free` of a head that is settled. -/
theorem DeliveryInv.freeHead (h : DeliveryInv p cfg q₀ tr s q) (hpc : s.flush = .freeing) :
    ∃ q', DeliveryInv p cfg q₀ tr (freeEntry p .sleeping s) q' := by
  have hne := h.thread
  have hd := h.delivered
  rw [hpc] at hne hd
  cases q with
  | nil => exact absurd rfl hne
  | cons head tail =>
    obtain ⟨area, m, hfree, hinv⟩ := h.storage.free
    refine ⟨tail, ?_, fun record hr => h.entries record (List.mem_cons_of_mem head hr), trivial, hd⟩
    simp only [freeEntry, hfree]
    exact hinv

/-! The flush thread. -/

theorem DeliveryInv.moved (h : DeliveryInv p cfg q₀ tr s q) {pc : FlushPc} {record : Mem} (hpc : s.flush ≠ .freeing)
    (hpc' : pc ≠ .freeing) (hknows : pc.Knows q record) :
    DeliveryInv p cfg q₀ tr { s with flush := pc, record := record } q := by
  refine ⟨h.storage, h.entries, hknows, ?_⟩
  have hd := h.delivered
  rw [pending, if_neg hpc] at hd
  rw [pending, if_neg hpc']
  exact hd

theorem DeliveryInv.peek (h : DeliveryInv p cfg q₀ tr s q) (hpc : s.flush = .peeking) (outcome : RetCode) :
    DeliveryInv p cfg q₀ (tr ++ (flushStep p cfg outcome s).1) (flushStep p cfg outcome s).2 q := by
  have hpeek := h.storage.peek cfg.sizeofPubEntry
  have hnf : s.flush ≠ .freeing := by
    rw [hpc]
    simp
  simp only [flushStep, hpc, hpeek]
  cases q with
  | nil =>
    simp only [fifoPeek, List.append_nil]
    exact h.moved hnf (by simp) trivial
  | cons head tail =>
    have hfit : ¬cfg.sizeofPubEntry < head.length := not_lt.mpr (h.entries head List.mem_cons_self).fits
    simp only [fifoPeek, if_neg hfit, List.append_nil]
    exact h.moved hnf (by simp) ⟨head, tail, rfl, rfl, slice_copyTo s.record head⟩

theorem afterHanding_cases (message : CanMessage) (outcome : RetCode) :
    (PubEvent.settledEntry (.handed message outcome : PubEvent ι) = some (entryOf message, outcome) ∧
      afterHanding outcome = .freeing) ∨
    (PubEvent.settledEntry (.handed message outcome : PubEvent ι) = none ∧
      (afterHanding outcome = .stopped ∨ afterHanding outcome = .sleeping)) := by
  cases outcome with
  | success | invalidParam => exact .inl ⟨rfl, rfl⟩
  | invalidState | busy | noMem => exact .inr ⟨rfl, .inl rfl⟩
  | _ => exact .inr ⟨rfl, .inr rfl⟩

theorem DeliveryInv.hand (h : DeliveryInv p cfg q₀ tr s q) {size : Nat} (hpc : s.flush = .handing size)
    (outcome : RetCode) :
    DeliveryInv p cfg q₀ (tr ++ (flushStep p cfg outcome s).1) (flushStep p cfg outcome s).2 q := by
  have hknows := h.thread
  have hd := h.delivered
  have hnf : s.flush ≠ .freeing := by
    rw [hpc]
    exact nofun
  rw [hpc] at hknows
  obtain ⟨head, tail, rfl, rfl, hmem⟩ := hknows
  have hentry := entryOf_handed (h.entries head List.mem_cons_self) hmem
  simp only [flushStep, hpc]
  split
  · have hstored : stored (tr ++ [PubEvent.handed (handedMessage s.record head.length) outcome]) = stored tr :=
      filterMap_snoc_none rfl
    rw [pending, if_neg hnf] at hd
    obtain ⟨hsettles, hnext⟩ | ⟨hkeeps, hnext⟩ :=
      afterHanding_cases (ι := ι) (handedMessage s.record head.length) outcome
    · have hsettled : settled (tr ++ [PubEvent.handed (handedMessage s.record head.length) outcome]) =
          settled tr ++ [(head, outcome)] := by
        rw [settled, List.filterMap_append, List.filterMap_cons_some hsettles, hentry]
        rfl
      refine ⟨h.storage, h.entries, ?_, ?_⟩
      · rw [hnext]
        exact List.cons_ne_nil head tail
      · rw [hstored, hsettled, hnext, hd]
        simp [pending]
    · have hsettled : settled (tr ++ [PubEvent.handed (handedMessage s.record head.length) outcome]) =
          settled tr := filterMap_snoc_none (by simp [hkeeps])
      have hpc' : afterHanding outcome ≠ .freeing := by
        rcases hnext with hnext | hnext <;> rw [hnext] <;> exact nofun
      refine ⟨h.storage, h.entries, ?_, ?_⟩
      · rcases hnext with hnext | hnext <;> rw [hnext] <;> exact trivial
      · rw [hstored, hsettled, hd, pending, if_neg hpc']
  · rw [List.append_nil]
    exact h.moved hnf nofun trivial

theorem DeliveryInv.flushStep (h : DeliveryInv p cfg q₀ tr s q) (outcome : RetCode) :
    ∃ q', DeliveryInv p cfg q₀ (tr ++ (flushStep p cfg outcome s).1) (flushStep p cfg outcome s).2 q' := by
  cases hpc : s.flush with
  | stopped =>
    simp only [Pubsub.flushStep, hpc, List.append_nil]
    exact ⟨q, h⟩
  | peeking => exact ⟨q, h.peek hpc outcome⟩
  | dropping =>
    have hknows := h.thread
    rw [hpc] at hknows
    exact hknows.elim
  | handing size => exact ⟨q, h.hand hpc outcome⟩
  | freeing =>
    simp only [Pubsub.flushStep, hpc, List.append_nil]
    exact h.freeHead hpc
  | sleeping =>
    simp only [Pubsub.flushStep, hpc, List.append_nil]
    have hnf : s.flush ≠ .freeing := by
      rw [hpc]
      exact nofun
    exact ⟨q, h.moved hnf nofun trivial⟩

/-! Publishers. -/

theorem publishCheck_quiet (cfg : PubConfig) (call : PublishCall) (activeRemotes : List UInt32) :
    stored (publishCheck cfg call activeRemotes : _ × List (PubEvent ι)).2 = [] ∧
    settled (publishCheck cfg call activeRemotes : _ × List (PubEvent ι)).2 = [] := by
  rw [publishCheck]
  split_ifs <;> exact ⟨rfl, rfl⟩

theorem publishMessage_quiet (cfg : PubConfig) (call : PublishCall) (activeRemotes : List UInt32) :
    stored (publishMessage cfg call activeRemotes : _ × _ × List (PubEvent ι)).2.2 = [] ∧
    settled (publishMessage cfg call activeRemotes : _ × _ × List (PubEvent ι)).2.2 = [] := by
  rw [publishMessage]
  split
  · exact ⟨rfl, rfl⟩
  · dsimp only
    split <;> exact ⟨rfl, rfl⟩

/-- Stored or sent, now or later, the message is the same. -/
theorem publishMessage_same {κ : Type} (cfg : PubConfig) (call : PublishCall) (activeRemotes activeRemotes' : List UInt32) :
    (publishMessage cfg call activeRemotes : _ × _ × List (PubEvent ι)).2.1 =
    (publishMessage cfg call activeRemotes' : _ × _ × List (PubEvent κ)).2.1 := by
  rw [publishMessage, publishMessage]
  split <;> rfl

theorem DeliveryInv.publishRest (h : DeliveryInv p cfg q₀ tr s q) (call : PublishCall) (semTaken : Bool)
    (outcome : RetCode) :
    ∃ q', DeliveryInv p cfg q₀ (tr ++ (publishRest p cfg call semTaken outcome s).2.1)
      (publishRest p cfg call semTaken outcome s).2.2 q' := by
  obtain ⟨hstored, hsettled⟩ := publishMessage_quiet (ι := ι) cfg call s.activeRemotes
  rw [Pubsub.publishRest]
  split
  · rw [List.append_nil]
    exact ⟨q, h⟩
  · have hmessage := publishMessage_same (ι := ι) (κ := Empty) cfg call s.activeRemotes []
    generalize publishMessage cfg call s.activeRemotes = r at hstored hsettled hmessage
    obtain ⟨store, message, events⟩ := r
    dsimp only at hstored hsettled hmessage ⊢
    split
    · exact ⟨q, h.quiet hstored hsettled rfl rfl rfl⟩
    · next data hencode =>
      have hentry : Entry cfg (pubEntry call.remoteAddr data) := by
        refine ⟨call, ⟨call.remoteAddr, data⟩, ?_, rfl⟩
        rw [hmessage] at hencode
        rw [directMessage, hencode]
        rfl
      have hquiet := h.quiet hstored hsettled rfl rfl rfl
      split
      · obtain ⟨q', hq⟩ := hquiet.store hentry
        refine ⟨q', ?_⟩
        rw [← List.append_assoc]
        exact hq
      · refine ⟨q, ?_⟩
        rw [← List.append_assoc]
        exact hquiet.quiet rfl rfl rfl rfl rfl

theorem DeliveryInv.step [DecidableEq ι] (h : DeliveryInv p cfg q₀ tr s q) (a : PubAction ι) :
    ∃ q', DeliveryInv p cfg q₀ (tr ++ (pubStep p cfg s a).1) (pubStep p cfg s a).2 q' := by
  cases a with
  | subscribe remoteAddr => exact ⟨q, h.quiet rfl rfl rfl rfl rfl⟩
  | publish thread call =>
    obtain ⟨hstored, hsettled⟩ := publishCheck_quiet (ι := ι) cfg call s.activeRemotes
    rw [pubStep]
    split
    · split
      · next ret events hcheck =>
        rw [hcheck] at hstored hsettled
        refine ⟨q, h.quiet ?_ ?_ rfl rfl rfl⟩
        · rw [stored, filterMap_snoc_none rfl]
          exact hstored
        · rw [settled, filterMap_snoc_none rfl]
          exact hsettled
      · next events hcheck =>
        rw [hcheck] at hstored hsettled
        exact ⟨q, h.quiet hstored hsettled rfl rfl rfl⟩
    · exact ⟨q, h.quiet rfl rfl rfl rfl rfl⟩
  | proceed thread semTaken outcome =>
    rw [pubStep]
    split
    · exact ⟨q, h.quiet rfl rfl rfl rfl rfl⟩
    · next call hcall =>
      obtain ⟨q', hq⟩ := h.publishRest call semTaken outcome
      dsimp only
      rw [← List.append_assoc]
      exact ⟨q', hq.quiet rfl rfl rfl rfl rfl⟩
  | flush stack =>
    rw [pubStep, List.append_nil]
    split
    · next hstopped =>
      have hnf : s.flush ≠ .freeing := by
        rw [hstopped]
        exact nofun
      exact ⟨q, h.moved hnf nofun trivial⟩
    · exact ⟨q, h⟩
  | flushProceed outcome => exact h.flushStep outcome

/-- What was accepted is what was settled without a refusal. -/
theorem accepted_eq (tr : List (PubEvent ι)) :
    accepted tr = ((settled tr).filter fun e => e.2 = .success).map Prod.fst := by
  induction tr with
  | nil => rfl
  | cons e tr ih =>
    simp only [accepted, settled] at ih ⊢
    cases e with
    | handed message outcome =>
      cases outcome <;> simpa [List.filterMap_cons, PubEvent.acceptedEntry, PubEvent.settledEntry] using ih
    | _ => simpa [List.filterMap_cons, PubEvent.acceptedEntry, PubEvent.settledEntry] using ih

theorem settled_outcome {tr : List (PubEvent ι)} : ∀ e ∈ settled tr, e.2 = .success ∨ e.2 = .invalidParam := by
  intro e he
  obtain ⟨event, -, hevent⟩ := List.mem_filterMap.mp he
  cases event with
  | handed message outcome =>
    cases outcome with
    | success =>
      cases hevent
      exact .inl rfl
    | invalidParam =>
      cases hevent
      exact .inr rfl
    | _ => cases hevent
  | _ => cases hevent

/-- In any run, what the CAN layer accepted or refused for good is, in order, a prefix of what was stored, and
the rest of it is still in flash; accepted is what it did not refuse. -/
theorem flush_delivers_in_order [DecidableEq ι] (h : StorageInv p (storagePartition p.board) s.storage q₀)
    (hentries : ∀ record ∈ q₀, Entry cfg record) (hstopped : s.flush = .stopped) (actions : List (PubAction ι)) :
    let tr := Machine.events (pubStep p cfg) s actions
    let s' := (Machine.run (pubStep p cfg) s actions).2
    accepted tr = ((settled tr).filter fun e => e.2 = .success).map Prod.fst ∧
    (∀ e ∈ settled tr, e.2 = .success ∨ e.2 = .invalidParam) ∧
    ∃ q, StorageInv p (storagePartition p.board) s'.storage q ∧
      q₀ ++ stored tr = (settled tr).map Prod.fst ++ pending s'.flush q := by
  intro tr s'
  refine ⟨accepted_eq tr, settled_outcome, ?_⟩
  have hstart : ∃ q, DeliveryInv p cfg q₀ ([] : List (PubEvent ι)) s q := ⟨q₀, .start h hentries hstopped⟩
  have hstep : ∀ (tr : List (PubEvent ι)) s a, (∃ q, DeliveryInv p cfg q₀ tr s q) → True →
      ∃ q, DeliveryInv p cfg q₀ (tr ++ (pubStep p cfg s a).1) (pubStep p cfg s a).2 q :=
    fun _ _ a ⟨_, h⟩ _ => h.step a
  obtain ⟨q, hq⟩ := Machine.events_invariant_of_prefix (C := fun _ => True) (fun _ _ _ => trivial) hstep []
    s actions hstart trivial
  exact ⟨q, hq.storage, hq.delivered⟩

/-- The length of a message, its tag and its payload. -/
def smallEncode : McuMessage → Option (List UInt8)
  | .mainToSec tag payload | .mMessage tag payload =>
    if payload.length ≤ 8 then some (UInt8.ofNat (payload.length+1) :: UInt8.ofNat tag.toNat :: payload) else none

theorem smallEncode_le (message : McuMessage) (bytes : List UInt8) (h : smallEncode message = some bytes) :
    bytes.length ≤ 10 := by
  cases message with
  | _ tag payload =>
    dsimp only [smallEncode] at h
    split at h
    · cases h
      simp only [List.length_cons]
      omega
    · cases h

/-- A build with small messages. -/
def smallMessages : PubConfig where
  mainToSecPayloadSize := 8
  mcuToJetsonPayloadSize := 4
  numSubPrios := 32
  subPrio _ := .store
  entryDataSize := 10
  pbEncode := smallEncode
  pbEncode_le := smallEncode_le

def erasedStorage : PubState Unit where
  storage := (storageBoot (.of .pearl) (storagePartition .pearl) (fun _ => 0xff)).2
  activeRemotes := [0, 0, 0]

/-- Two messages stored, the second refused for good; then a third while the flush thread waits. -/
def deliveryRun : List (PubAction Unit) :=
  [.publish () ⟨[1], 1, 0x80, true⟩, .proceed () true .success, .publish () ⟨[2], 2, 0x80, false⟩,
    .proceed () true .success, .subscribe 0x80, .flush (fun _ => 0), .flushProceed .success, .flushProceed .success,
    .publish () ⟨[3], 3, 0x80, true⟩, .proceed () true .success, .flushProceed .success, .flushProceed .success,
    .flushProceed .success, .flushProceed .invalidParam]

theorem flush_delivers_in_order_run :
    let tr := Machine.events (pubStep (.of .pearl) smallMessages) erasedStorage deliveryRun
    accepted tr = ((settled tr).filter fun e => e.2 = .success).map Prod.fst ∧
    (∀ e ∈ settled tr, e.2 = .success ∨ e.2 = .invalidParam) ∧
    ∃ q, StorageInv (.of .pearl) (storagePartition .pearl)
        (Machine.run (pubStep (.of .pearl) smallMessages) erasedStorage deliveryRun).2.storage q ∧
      [] ++ stored tr = (settled tr).map Prod.fst ++
        pending (Machine.run (pubStep (.of .pearl) smallMessages) erasedStorage deliveryRun).2.flush q :=
  have h : StorageInv (.of .pearl) (storagePartition .pearl)
      (storageBoot (.of .pearl) (storagePartition .pearl) fun _ => 0xff).2 [] := storageBoot_erased fun _ _ _ => rfl
  flush_delivers_in_order h (fun _ hr => absurd hr List.not_mem_nil) rfl deliveryRun

example : settled (Machine.events (pubStep (.of .pearl) smallMessages) erasedStorage deliveryRun) =
    [(pubEntry 0x80 [5, 1, 1, 0, 0, 0], .success), (pubEntry 0x80 [5, 2, 2, 0, 0, 0], .invalidParam)] := by
  decide +kernel

end OrbFirmware.Pubsub

import OrbFirmware.Pubsub.Delivery

/-! What the flush thread hands over against what `publish` would have handed over: four bytes more. -/
namespace OrbFirmware.Pubsub
open Nor Storage
variable {ι : Type} [DecidableEq ι] {p : Platform} {cfg : PubConfig} {q₀ q : Queue} {tr : List (PubEvent ι)}
  {s : PubState ι} {message : CanMessage} {outcome : RetCode}

/-- A message handed over for an entry, with what `publish` would have sent. -/
def Flushed (cfg : PubConfig) (entries : Queue) (message direct : CanMessage) : Prop :=
  (∃ call, directMessage cfg call = some direct) ∧ pubEntry direct.destination direct.bytes ∈ entries ∧
    message.destination = direct.destination ∧ message.bytes.take direct.bytes.length = direct.bytes ∧
    message.bytes.length = 4+direct.bytes.length

def PubEvent.IsHanded : PubEvent ι → Prop
  | .handed _ _ => True
  | _ => False

omit [DecidableEq ι] in
theorem publishCheck_not_handed (call : PublishCall) (activeRemotes : List UInt32) :
    ∀ e ∈ (publishCheck cfg call activeRemotes : _ × List (PubEvent ι)).2, ¬e.IsHanded := by
  rw [publishCheck]
  split_ifs <;> simp [PubEvent.IsHanded]

omit [DecidableEq ι] in
theorem publishMessage_not_handed (call : PublishCall) (activeRemotes : List UInt32) :
    ∀ e ∈ (publishMessage cfg call activeRemotes : _ × _ × List (PubEvent ι)).2.2, ¬e.IsHanded := by
  rw [publishMessage]
  split
  · simp [PubEvent.IsHanded]
  · dsimp only
    split <;> simp [PubEvent.IsHanded]

omit [DecidableEq ι] in
theorem publishRest_not_handed (call : PublishCall) (semTaken : Bool) (ret : RetCode) :
    ∀ e ∈ (publishRest p cfg call semTaken ret s).2.1, ¬e.IsHanded := by
  have hmessage : ∀ e ∈ (publishMessage cfg call s.activeRemotes).2.2, ¬(e : PubEvent ι).IsHanded :=
    publishMessage_not_handed call s.activeRemotes
  rw [publishRest]
  split
  · exact List.forall_mem_nil _
  · generalize publishMessage cfg call s.activeRemotes = r at hmessage
    obtain ⟨store, mcuMessage, events⟩ := r
    dsimp only at hmessage ⊢
    split
    · exact hmessage
    · split
      · refine List.forall_mem_append.mpr ⟨hmessage, ?_⟩
        simp only [storeEntry]
        split <;> simp [PubEvent.IsHanded]
      · refine List.forall_mem_append.mpr ⟨hmessage, ?_⟩
        simp [PubEvent.IsHanded]

theorem handed_only_by_flush {a : PubAction ι} (hmem : .handed message outcome ∈ (pubStep p cfg s a).1) :
    ∃ size, s.flush = .handing size ∧ message = handedMessage s.record size := by
  cases a with
  | subscribe remoteAddr => cases hmem
  | publish thread call =>
    have hcheck : ∀ e ∈ (publishCheck cfg call s.activeRemotes).2, ¬(e : PubEvent ι).IsHanded :=
      publishCheck_not_handed call s.activeRemotes
    rw [pubStep] at hmem
    split at hmem
    · split at hmem
      · next ret events hsteps =>
        rw [hsteps] at hcheck
        rcases List.mem_append.mp hmem with he | he
        · exact absurd trivial (hcheck _ he)
        · cases List.mem_singleton.mp he
      · next events hsteps =>
        rw [hsteps] at hcheck
        exact absurd trivial (hcheck _ hmem)
    · cases hmem
  | proceed thread semTaken ret =>
    rw [pubStep] at hmem
    split at hmem
    · cases hmem
    · next call hcall =>
      rcases List.mem_append.mp hmem with he | he
      · exact absurd trivial (publishRest_not_handed call semTaken ret _ he)
      · cases List.mem_singleton.mp he
  | flush stack => cases hmem
  | flushProceed ret =>
    rw [pubStep, flushStep] at hmem
    split at hmem
    · cases hmem
    · dsimp only at hmem
      split at hmem <;> cases hmem
    · cases hmem
    · next size hpc =>
      dsimp only at hmem
      split at hmem
      · cases List.mem_singleton.mp hmem
        exact ⟨size, hpc, rfl⟩
      · cases hmem
    · cases hmem
    · cases hmem

theorem DeliveryInv.flushed (h : DeliveryInv p cfg q₀ tr s q) {a : PubAction ι}
    (hmem : .handed message outcome ∈ (pubStep p cfg s a).1) : ∃ direct, Flushed cfg (q₀ ++ stored tr) message direct := by
  obtain ⟨size, hpc, rfl⟩ := handed_only_by_flush hmem
  have hknows := h.thread
  have hd := h.delivered
  rw [hpc] at hknows hd
  obtain ⟨head, tail, rfl, rfl, hslice⟩ := hknows
  obtain ⟨call, direct, hdirect, rfl⟩ := h.entries head List.mem_cons_self
  rw [length_pubEntry] at hslice ⊢
  refine ⟨direct, ⟨call, hdirect⟩, ?_, handedMessage_entry hslice⟩
  rw [hd]
  exact List.mem_append_right _ List.mem_cons_self

omit [DecidableEq ι] in
theorem Flushed.mono {direct : CanMessage} {entries entries' : Queue} (h : Flushed cfg entries message direct)
    (hsub : ∀ entry ∈ entries, entry ∈ entries') : Flushed cfg entries' message direct :=
  ⟨h.1, hsub _ h.2.1, h.2.2⟩

/-- Four bytes more: never the message itself, and too long for a frame from 61 bytes on instead of 65. -/
theorem Flushed.ne_direct {direct : CanMessage} {entries : Queue} (h : Flushed cfg entries message direct) :
    message ≠ direct ∧ (message.Oversized ↔ direct.destination &&& canAddrIsIsotp = 0 ∧ 60 < direct.bytes.length) := by
  obtain ⟨-, -, hdest, -, hlen⟩ := h
  constructor
  · intro heq
    rw [heq] at hlen
    omega
  · have hmax : canFrameMaxSize = 64 := rfl
    have hlong : canFrameMaxSize < message.bytes.length ↔ 60 < direct.bytes.length := by omega
    rw [CanMessage.Oversized, hdest, hlong]

/-- In any run, every message the flush thread hands over has the destination and the bytes that `publish`
would have handed over for a stored call, but is never that message. -/
theorem flushed_never_as_direct (h : StorageInv p (storagePartition p.board) s.storage q₀)
    (hentries : ∀ record ∈ q₀, Entry cfg record) (hstopped : s.flush = .stopped) (actions : List (PubAction ι)) :
    let tr := Machine.events (pubStep p cfg) s actions
    ∀ message outcome, .handed message outcome ∈ tr →
      (∃ direct, Flushed cfg (q₀ ++ stored tr) message direct) ∧
      ∀ direct, Flushed cfg (q₀ ++ stored tr) message direct → message ≠ direct ∧
        (message.Oversized ↔ direct.destination &&& canAddrIsIsotp = 0 ∧ 60 < direct.bytes.length) := by
  intro tr message outcome hmem
  refine ⟨?_, fun direct hflushed => hflushed.ne_direct⟩
  have hstep : ∀ (tr : List (PubEvent ι)) s a,
      (∃ q, DeliveryInv p cfg q₀ tr s q) ∧ (∀ message outcome, .handed message outcome ∈ tr →
        ∃ direct, Flushed cfg (q₀ ++ stored tr) message direct) → True →
      (∃ q, DeliveryInv p cfg q₀ (tr ++ (pubStep p cfg s a).1) (pubStep p cfg s a).2 q) ∧
      (∀ message outcome, .handed message outcome ∈ tr ++ (pubStep p cfg s a).1 →
        ∃ direct, Flushed cfg (q₀ ++ stored (tr ++ (pubStep p cfg s a).1)) message direct) := by
    intro tr s a ⟨⟨q, hq⟩, hold⟩ _
    refine ⟨hq.step a, fun message outcome he => ?_⟩
    have hsub : ∀ entry ∈ q₀ ++ stored tr, entry ∈ q₀ ++ stored (tr ++ (pubStep p cfg s a).1) := by
      intro entry hentry
      rw [stored, List.filterMap_append, ← List.append_assoc]
      exact List.mem_append_left _ hentry
    have hflushed : ∃ direct, Flushed cfg (q₀ ++ stored tr) message direct := by
      cases List.mem_append.mp he with
      | inl hin => exact hold message outcome hin
      | inr hnew => exact hq.flushed hnew
    obtain ⟨direct, hdirect⟩ := hflushed
    exact ⟨direct, hdirect.mono hsub⟩
  have hstart : ∃ q, DeliveryInv p cfg q₀ ([] : List (PubEvent ι)) s q := ⟨q₀, .start h hentries hstopped⟩
  have hrun := Machine.events_invariant_of_prefix (C := fun _ => True) (fun _ _ _ => trivial) hstep [] s actions
    ⟨hstart, fun _ _ he => absurd he List.not_mem_nil⟩ trivial
  exact hrun.2 message outcome hmem

theorem flushed_never_as_direct_run :
    (∃ direct, Flushed smallMessages
      ([] ++ stored (Machine.events (pubStep (.of .pearl) smallMessages) erasedStorage deliveryRun))
      ⟨0x80, [5, 1, 1, 0, 0, 0, 0, 0, 0, 0]⟩ direct) :=
  have h : StorageInv (.of .pearl) (storagePartition .pearl)
      (storageBoot (.of .pearl) (storagePartition .pearl) fun _ => 0xff).2 [] := storageBoot_erased fun _ _ _ => rfl
  (flushed_never_as_direct h (fun _ hr => absurd hr List.not_mem_nil) rfl deliveryRun
    ⟨0x80, [5, 1, 1, 0, 0, 0, 0, 0, 0, 0]⟩ .success (by decide +kernel)).1

/-- The first message of the run: six bytes for `publish`, ten from the flush thread. -/
theorem flushed_with_stale_bytes :
    ¬∀ (actions : List (PubAction Unit)) call direct message outcome, directMessage smallMessages call = some direct →
      .handed message outcome ∈ Machine.events (pubStep (.of .pearl) smallMessages) erasedStorage actions →
      entryOf message = pubEntry direct.destination direct.bytes → message = direct := by
  intro hall
  have h := hall deliveryRun ⟨[1], 1, 0x80, true⟩ ⟨0x80, [5, 1, 1, 0, 0, 0]⟩ ⟨0x80, [5, 1, 1, 0, 0, 0, 0, 0, 0, 0]⟩
    .success (by decide +kernel) (by decide +kernel) (by decide +kernel)
  exact absurd h (by decide)

end OrbFirmware.Pubsub

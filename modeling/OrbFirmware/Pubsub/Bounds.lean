import OrbFirmware.Pubsub.Delivery

/-! What `publish` reads of the table of priorities and what it copies into a payload union: in bounds for the
calls that its check tells apart rightly. -/
namespace OrbFirmware.Pubsub
open Nor Storage
variable {ι : Type} {p : Platform} {cfg : PubConfig}

/-- Neither a priority behind the table nor more bytes than the union has. -/
def PubEvent.InBounds (cfg : PubConfig) : PubEvent ι → Prop
  | .priorityRead index => index.toNat < cfg.numSubPrios
  | .payloadCopied unionSize size => size ≤ unionSize
  | _ => True

/-- What `publish` has to reject. -/
def PublishCall.OutOfBounds (cfg : PubConfig) (call : PublishCall) : Prop :=
  if call.remoteAddr = canAddressMcuToMcuTx then cfg.mainToSecPayloadSize < call.payload.length
  else cfg.numSubPrios ≤ call.whichPayload.toNat ∨ cfg.mcuToJetsonPayloadSize < call.payload.length

/-- For the Jetson, the tag and the size are both in bounds, or neither is. -/
def PublishCall.BothOrNeither (cfg : PubConfig) (call : PublishCall) : Prop :=
  call.remoteAddr ≠ canAddressMcuToMcuTx →
    (cfg.numSubPrios ≤ call.whichPayload.toNat ↔ cfg.mcuToJetsonPayloadSize < call.payload.length)

instance (cfg : PubConfig) (call : PublishCall) : Decidable (call.BothOrNeither cfg) :=
  inferInstanceAs (Decidable (_ → _))

/-- What is asked of a step: everything in bounds, and a call that is out of bounds answered with an error and
nothing else done. -/
structure StaysInBounds [DecidableEq ι] (p : Platform) (cfg : PubConfig) (s : PubState ι) (a : PubAction ι) : Prop where
  events : ∀ e ∈ (pubStep p cfg s a).1, e.InBounds cfg
  rejects : ∀ thread call, a = .publish thread call → s.publishing thread = none → call.OutOfBounds cfg →
    pubStep p cfg s a = ([.returned thread .invalidParam], s)

/-- The calls that a step makes are of the kind that the check tells apart. -/
def ToldApart (cfg : PubConfig) (s : PubState ι) : PubAction ι → Prop
  | .publish thread call => s.publishing thread = none → call.BothOrNeither cfg
  | .subscribe _ | .proceed _ _ _ | .flush _ | .flushProceed _ => True

instance (cfg : PubConfig) (s : PubState ι) (a : PubAction ι) : Decidable (ToldApart cfg s a) := by
  cases a with
  | publish thread call => exact inferInstanceAs (Decidable (_ → _))
  | subscribe _ | proceed _ _ _ | flush _ | flushProceed _ => exact isTrue trivial

variable {call : PublishCall} {activeRemotes : List UInt32}

theorem publishRejects_iff :
    publishRejects cfg call = true ↔
      if call.remoteAddr = canAddressMcuToMcuTx then cfg.mainToSecPayloadSize < call.payload.length
      else cfg.numSubPrios ≤ call.whichPayload.toNat ∧ cfg.mcuToJetsonPayloadSize < call.payload.length := by
  simp only [publishRejects, Bool.or_eq_true, Bool.and_eq_true, decide_eq_true_eq]
  by_cases hmcu : call.remoteAddr = canAddressMcuToMcuTx
  · simp [hmcu]
  · simp [hmcu]

/-- The check is right exactly about these calls. -/
theorem rejects_outOfBounds_iff :
    (call.OutOfBounds cfg → publishRejects cfg call = true) ↔ call.BothOrNeither cfg := by
  rw [publishRejects_iff]
  unfold PublishCall.OutOfBounds PublishCall.BothOrNeither
  by_cases hmcu : call.remoteAddr = canAddressMcuToMcuTx
  · simp [hmcu]
  · rw [if_neg hmcu, if_neg hmcu]
    constructor
    · intro h _
      exact ⟨fun htag => (h (.inl htag)).2, fun hsize => (h (.inr hsize)).1⟩
    · rintro h (htag | hsize)
      · exact ⟨htag, (h hmcu).mp htag⟩
      · exact ⟨(h hmcu).mpr hsize, hsize⟩

/-! A call. -/

theorem publishCheck_rejected (h : publishRejects cfg call = true) :
    (publishCheck cfg call activeRemotes : _ × List (PubEvent ι)) = (some .invalidParam, []) := by
  rw [publishCheck, if_pos h]

/-- A call that is let through is not answered as an invalid one. -/
theorem publishCheck_passed (h : publishRejects cfg call = false) :
    (publishCheck cfg call activeRemotes : _ × List (PubEvent ι)).1 ≠ some .invalidParam := by
  rw [publishCheck, if_neg (by simp [h])]
  split_ifs <;> simp

theorem publishCheck_inBounds (h : ¬call.OutOfBounds cfg) :
    ∀ e ∈ (publishCheck cfg call activeRemotes : _ × List (PubEvent ι)).2, e.InBounds cfg := by
  rw [publishCheck]
  by_cases hrejected : publishRejects cfg call = true
  · rw [if_pos hrejected]
    simp
  · rw [if_neg hrejected]
    by_cases hmcu : call.remoteAddr = canAddressMcuToMcuTx
    · rw [if_pos (by simp [hmcu])]
      simp
    · rw [PublishCall.OutOfBounds, if_neg hmcu, not_or] at h
      split
      · simp
      · intro e he
        rw [List.mem_singleton.mp he]
        exact Nat.lt_of_not_le h.1

theorem publishMessage_inBounds (h : ¬call.OutOfBounds cfg) :
    ∀ e ∈ (publishMessage cfg call activeRemotes : _ × _ × List (PubEvent ι)).2.2, e.InBounds cfg := by
  rw [publishMessage]
  by_cases hmcu : call.remoteAddr = canAddressMcuToMcuTx
  · rw [PublishCall.OutOfBounds, if_pos hmcu] at h
    rw [if_pos hmcu]
    intro e he
    rw [List.mem_singleton.mp he]
    exact Nat.le_of_not_lt h
  · rw [PublishCall.OutOfBounds, if_neg hmcu, not_or] at h
    rw [if_neg hmcu]
    intro e he
    obtain hread | hcopied := List.mem_append.mp he
    · split_ifs at hread
      · rw [List.mem_singleton.mp hread]
        exact Nat.lt_of_not_le h.1
      · exact absurd hread List.not_mem_nil
    · rw [List.mem_singleton.mp hcopied]
      exact Nat.le_of_not_lt h.2

theorem publishRest_inBounds (h : ¬call.OutOfBounds cfg) (semTaken : Bool) (outcome : RetCode) (s : PubState ι) :
    ∀ e ∈ (publishRest p cfg call semTaken outcome s).2.1, e.InBounds cfg := by
  have hmessage : ∀ e ∈ (publishMessage cfg call s.activeRemotes).2.2, (e : PubEvent ι).InBounds cfg :=
    publishMessage_inBounds h
  rw [publishRest]
  split
  · simp
  · generalize publishMessage cfg call s.activeRemotes = r at hmessage
    obtain ⟨store, message, events⟩ := r
    dsimp only at hmessage ⊢
    split
    · exact hmessage
    · split
      · intro e he
        obtain he | he := List.mem_append.mp he
        · exact hmessage e he
        · rw [storeEntry] at he
          dsimp only at he
          split_ifs at he
          · rw [List.mem_singleton.mp he]
            exact trivial
          · exact absurd he List.not_mem_nil
      · intro e he
        obtain he | he := List.mem_append.mp he
        · exact hmessage e he
        · rw [List.mem_singleton.mp he]
          exact trivial

/-! Runs. -/

/-- No call that has passed the check is out of bounds. -/
def PassedInBounds (cfg : PubConfig) (s : PubState ι) : Prop :=
  ∀ thread call, s.publishing thread = some call → ¬call.OutOfBounds cfg

theorem flushStep_inBounds (outcome : RetCode) (s : PubState ι) :
    ∀ e ∈ (flushStep p cfg outcome s).1, e.InBounds cfg := by
  rw [flushStep]
  split
  · simp
  · dsimp only
    split <;> simp
  · simp
  · dsimp only
    split_ifs
    · simp [PubEvent.InBounds]
    · simp
  · simp
  · simp

theorem flushStep_publishing (outcome : RetCode) (s : PubState ι) :
    (flushStep p cfg outcome s).2.publishing = s.publishing := by
  rw [flushStep]
  split
  · rfl
  · dsimp only
    split <;> rfl
  · rfl
  · dsimp only
    split_ifs <;> rfl
  · rfl
  · rfl

theorem publishRest_publishing (call : PublishCall) (semTaken : Bool) (outcome : RetCode) (s : PubState ι) :
    (publishRest p cfg call semTaken outcome s).2.2.publishing = s.publishing := by
  rw [publishRest]
  split
  · rfl
  · dsimp only
    split
    · rfl
    · split_ifs <;> rfl

variable [DecidableEq ι] {s : PubState ι} {a : PubAction ι}

theorem StaysInBounds.toldApart (h : StaysInBounds p cfg s a) : ToldApart cfg s a := by
  cases a with
  | subscribe _ | proceed _ _ _ | flush _ | flushProceed _ => exact trivial
  | publish thread call =>
    intro hidle
    rw [← rejects_outOfBounds_iff]
    intro hout
    by_contra hpassed
    have hanswered := h.rejects thread call rfl hidle hout
    rw [pubStep, if_pos hidle] at hanswered
    have hcode : (publishCheck cfg call s.activeRemotes : _ × List (PubEvent ι)).1 ≠ some .invalidParam :=
      publishCheck_passed (Bool.eq_false_iff.mpr hpassed)
    generalize publishCheck cfg call s.activeRemotes = r at hanswered hcode
    obtain ⟨_ | ret, events⟩ := r
    · have hpublishing := congrFun (congrArg (fun r => r.2.publishing) hanswered) thread
      simp [hidle] at hpublishing
    · have hret := congrArg (fun r => r.1.getLast?) hanswered
      simp only [List.getLast?_concat, List.getLast?_singleton, Option.some.injEq, PubEvent.returned.injEq,
        true_and] at hret
      exact hcode (congrArg some hret)

theorem ToldApart.staysInBounds (hpassed : PassedInBounds cfg s) (h : ToldApart cfg s a) : StaysInBounds p cfg s a := by
  cases a with
  | subscribe remoteAddr => exact ⟨by simp [pubStep], by simp⟩
  | flush stack => exact ⟨by simp [pubStep], by simp⟩
  | flushProceed outcome => exact ⟨flushStep_inBounds outcome s, by simp⟩
  | publish thread call =>
    by_cases hidle : s.publishing thread = none
    · have hright := rejects_outOfBounds_iff.mpr (h hidle)
      refine ⟨?_, ?_⟩
      · rw [pubStep, if_pos hidle]
        have hevents : ∀ e ∈ (publishCheck cfg call s.activeRemotes : _ × List (PubEvent ι)).2, e.InBounds cfg := by
          by_cases hout : call.OutOfBounds cfg
          · rw [publishCheck_rejected (hright hout)]
            simp
          · exact publishCheck_inBounds hout
        generalize publishCheck cfg call s.activeRemotes = r at hevents
        obtain ⟨_ | ret, events⟩ := r
        · exact hevents
        · intro e he
          obtain he | he := List.mem_append.mp he
          · exact hevents e he
          · rw [List.mem_singleton.mp he]
            exact trivial
      · rintro _ _ ⟨⟩ - hout
        rw [pubStep, if_pos hidle, publishCheck_rejected (hright hout)]
        rfl
    · refine ⟨?_, ?_⟩
      · rw [pubStep, if_neg hidle]
        simp
      · rintro _ _ ⟨⟩ hnone
        exact absurd hnone hidle
  | proceed thread semTaken outcome =>
    refine ⟨?_, by simp⟩
    rw [pubStep]
    split
    · simp
    · next call hcall =>
      intro e he
      obtain he | he := List.mem_append.mp he
      · exact publishRest_inBounds (hpassed thread call hcall) semTaken outcome s e he
      · rw [List.mem_singleton.mp he]
        exact trivial

theorem PassedInBounds.step (hpassed : PassedInBounds cfg s) (h : ToldApart cfg s a) :
    PassedInBounds cfg (pubStep p cfg s a).2 := by
  cases a with
  | subscribe remoteAddr => exact hpassed
  | flush stack =>
    rw [pubStep]
    dsimp only
    split_ifs <;> exact hpassed
  | flushProceed outcome =>
    intro thread call hcall
    rw [pubStep, flushStep_publishing] at hcall
    exact hpassed thread call hcall
  | publish thread call =>
    rw [pubStep]
    split_ifs with hidle
    · by_cases hrejected : publishRejects cfg call = true
      · rw [publishCheck_rejected hrejected]
        exact hpassed
      · have hin : ¬call.OutOfBounds cfg := fun hout => hrejected (rejects_outOfBounds_iff.mpr (h hidle) hout)
        split
        · exact hpassed
        · intro other call' hcall'
          dsimp only at hcall'
          by_cases hsame : other = thread
          · subst hsame
            rw [Function.update_self, Option.some.injEq] at hcall'
            exact hcall' ▸ hin
          · rw [Function.update_of_ne hsame] at hcall'
            exact hpassed other call' hcall'
    · exact hpassed
  | proceed thread semTaken outcome =>
    rw [pubStep]
    split
    · exact hpassed
    · intro other call' hcall'
      dsimp only at hcall'
      rw [publishRest_publishing] at hcall'
      by_cases hsame : other = thread
      · subst hsame
        rw [Function.update_self] at hcall'
        contradiction
      · rw [Function.update_of_ne hsame] at hcall'
        exact hpassed other call' hcall'

/-- In a run that begins with no call under way, every step stays in bounds exactly if of each call for the Jetson
the tag and the size are both in bounds or both out of bounds. -/
theorem publish_in_bounds_iff (p : Platform) (cfg : PubConfig) (s : PubState ι) (hidle : ∀ thread, s.publishing thread = none)
    (as : List (PubAction ι)) :
    Machine.Meets (pubStep p cfg) (StaysInBounds p cfg) s as ↔ Machine.Meets (pubStep p cfg) (ToldApart cfg) s as := by
  have hpassed : PassedInBounds cfg s := fun thread call hcall => by simp [hidle] at hcall
  constructor
  · exact Machine.meets_mono (I := PassedInBounds cfg) (fun _ _ hs h => hs.step h.toldApart) (fun _ _ _ h => h.toldApart)
      s as hpassed
  · exact Machine.meets_mono (I := PassedInBounds cfg) (fun _ _ hs h => hs.step h) (fun _ _ hs h => h.staysInBounds hs)
      s as hpassed

/-- Calls from two threads, one of them for the other microcontroller. -/
def callsInBounds : List (PubAction Bool) :=
  [.publish true ⟨[1, 2, 3], 5, 0x80, true⟩, .publish false ⟨[1, 2, 3, 4, 5, 6, 7, 8], 40, canAddressMcuToMcuTx, false⟩,
    .proceed true true .success, .proceed false true .success]

def noCalls : PubState Bool where
  storage := ⟨⟨none, 0, 0⟩, fun _ => 0xff⟩
  activeRemotes := []

theorem publish_in_bounds_two :
    Machine.Meets (pubStep (.of .pearl) smallMessages) (StaysInBounds (.of .pearl) smallMessages) noCalls callsInBounds :=
  (publish_in_bounds_iff (.of .pearl) smallMessages noCalls (fun _ => rfl) callsInBounds).mpr (by decide +kernel)

/-- The handler of assertions hands over a whole message, with a tag of the table: it is let through, and copied. -/
theorem publish_copies_too_much :
    ¬StaysInBounds (.of .pearl) smallMessages noCalls (.publish true ⟨[1, 2, 3, 4, 5, 6], 5, 0x80, true⟩) ∧
      .payloadCopied 4 6 ∈ Machine.events (pubStep (.of .pearl) smallMessages) noCalls
        [.publish true ⟨[1, 2, 3, 4, 5, 6], 5, 0x80, true⟩, .proceed true true .success] := by
  refine ⟨fun h => ?_, by decide +kernel⟩
  exact absurd (h.toldApart rfl) (by decide)

end OrbFirmware.Pubsub

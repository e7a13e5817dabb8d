import OrbFirmware.Runner.Intake
import Mathlib.Data.List.Basic

/-! One producer at a time between the take and the give of `new_job_sem`, and a job of its own in the queue
behind every success: as long as no take of the CLI's times out. -/
namespace OrbFirmware.Runner
variable {ι : Type*} [DecidableEq ι] {decode : List UInt8 → Bool × McuMessage} {s s' : Intake ι}
  {tr evs : List (IntakeEvent ι)} {i j : ι}

/-- Between acquiring the semaphore and releasing it. -/
def IntakePc.inside : IntakePc → Bool
  | .decode _ | .decoding _ | .dispatch _ _ | .store _ _ | .give _ _ => true
  | .idle | .start _ | .take _ | .unheldGive _ => false

def IntakeEvent.producer : IntakeEvent ι → Option ι
  | .called i _ | .placed i _ | .returned i _ => some i
  | .got _ => none

/-- What thread `i` did. -/
def own (i : ι) (tr : List (IntakeEvent ι)) : List (IntakeEvent ι) := tr.filter (·.producer = some i)

def placedJobs (tr : List (IntakeEvent ι)) : List NewJob :=
  tr.filterMap fun
    | .placed _ job => some job
    | _ => none

def gotJobs (tr : List (IntakeEvent ι)) : List NewJob :=
  tr.filterMap fun
    | .got job => some job
    | _ => none

/-- Where answers to a message go. -/
def replyAddr (destination : UInt32) : UInt32 :=
  if destination &&& Pubsub.canAddrIsIsotp ≠ 0 then
    (destination &&& ~~~(0xFF : UInt32)) ||| (destination &&& 0xF) <<< 4 ||| (destination &&& 0xF0) >>> 4
  else canAddressMcuToJetsonTx

/-- The job a call stands for, if it stands for one. -/
def IntakeCall.job? (decode : List UInt8 → Bool × McuMessage) : IntakeCall → Option NewJob
  | .cli message => some ⟨⟨.cli, 0, 0⟩, .jetsonCmd message⟩
  | .can destination bytes =>
    match decode bytes with
    | (true, ⟨.jMessage, cmd, _⟩) =>
      some ⟨⟨.canJetsonMessaging, replyAddr destination, cmd.ackNumber⟩, .jetsonCmd cmd⟩
    | (true, ⟨.secToMainMessage, _, cmd⟩) => some ⟨⟨.canSecMcuMessaging, Pubsub.canAddressMcuToMcuTx, 0⟩, .secCmd cmd⟩
    | _ => none
  | .uart bytes =>
    match decode bytes with
    | (true, ⟨.jMessage, cmd, _⟩) => some ⟨⟨.uartMessaging, 0, 0⟩, .jetsonCmd cmd⟩
    | _ => none

/-- Every success returned so far comes right after the thread's own job went into the queue. -/
def SuccessPlaced (decode : List UInt8 → Bool × McuMessage) (tr : List (IntakeEvent ι)) : Prop :=
  ∀ tr₁ tr₂ i, tr = tr₁ ++ .returned i .success :: tr₂ →
    ∃ call job, call.job? decode = some job ∧ [.called i call, .placed i job] <:+ own i tr₁

/-- What is asked of the producers in a state reached by the events `tr`: one at a time inside, `new` and
`mcu_message` written by no other, the jobs of all successes queued, and what was queued taken out as it was. -/
structure IntakeSafe (decode : List UInt8 → Bool × McuMessage) (tr : List (IntakeEvent ι)) (s : Intake ι) :
    Prop where
  exclusive : ∀ i j, (s.producers i).inside = true → (s.producers j).inside = true → i = j
  modified : ∀ a, (intakeStep decode s a).2.job ≠ s.job ∨ (intakeStep decode s a).2.mcuMessage ≠ s.mcuMessage →
    ∃ i timedOut, a = .run i timedOut ∧ (s.producers i).inside = true ∧
      ∀ j, (s.producers j).inside = true → j = i
  success : SuccessPlaced decode tr
  unmodified : placedJobs tr = gotJobs tr ++ s.processQueue

/-- In the `k_sem_take` of `runner_handle_new_cli`. -/
def IntakePc.cliTakes : IntakePc → Bool
  | .take (.cli _) => true
  | _ => false

/-- The step is not the CLI giving up on the semaphore. -/
def KeepsTrying (s : Intake ι) : IntakeAction ι → Prop
  | .run i true => (s.producers i).cliTakes = true → s.newJobSem = true
  | _ => True

instance (s : Intake ι) (a : IntakeAction ι) : Decidable (KeepsTrying s a) :=
  match a with
  | .run _ true => inferInstanceAs (Decidable (_ → _))
  | .run _ false | .init | .call _ _ | .get => isTrue trivial

/-! What a place says of the thread's events and of the shared variables. -/

/-- The call came last, or, before the return of a success, the call and the job placed for it. -/
def Recorded (decode : List UInt8 → Bool × McuMessage) (tr : List (IntakeEvent ι)) (i : ι) : IntakePc → Prop
  | .idle => True
  | .start call | .take call | .decode call | .decoding call | .dispatch call _ | .store call _ =>
    [.called i call] <:+ own i tr
  | .give call ret =>
    ret = .success → ∃ job, call.job? decode = some job ∧ [.called i call, .placed i job] <:+ own i tr
  | .unheldGive _ => False

/-- `mcu_message` is what was decoded, and the stores that are left make the call's own job of `new`. -/
def Filled (decode : List UInt8 → Bool × McuMessage) (s : Intake ι) : IntakePc → Prop
  | .dispatch call decoded => decode call.bytes = (decoded, s.mcuMessage)
  | .store call rest => call.job? decode = some (rest.foldl (NewStore.apply s.mcuMessage) s.job)
  | _ => True

structure IntakeInv (decode : List UInt8 → Bool × McuMessage) (tr : List (IntakeEvent ι)) (s : Intake ι) :
    Prop where
  free : s.newJobSem = true → ∀ i, (s.producers i).inside = false
  exclusive : ∀ i j, (s.producers i).inside = true → (s.producers j).inside = true → i = j
  recorded : ∀ i, Recorded decode tr i (s.producers i)
  filled : ∀ i, Filled decode s (s.producers i)
  success : SuccessPlaced decode tr
  queued : placedJobs tr = gotJobs tr ++ s.processQueue

omit [DecidableEq ι] in
theorem filled_outside {pc : IntakePc} (h : pc.inside = false) : Filled decode s pc := by
  cases pc with
  | dispatch call decoded => cases h
  | store call rest => cases h
  | _ => trivial

omit [DecidableEq ι] in
theorem Filled.congr {pc : IntakePc} (h : Filled decode s pc) (hjob : s'.job = s.job)
    (hmcu : s'.mcuMessage = s.mcuMessage) : Filled decode s' pc := by
  cases pc with
  | dispatch call decoded =>
    simp only [Filled, hmcu]
    exact h
  | store call rest =>
    simp only [Filled, hjob, hmcu]
    exact h
  | _ => trivial

/-- The stores of each function fill in every field of the job, whatever `new` held. -/
theorem handle_ok {call : IntakeCall} {decoded : Bool} {m : McuMessage} {stores : List NewStore}
    (hdecode : decode call.bytes = (decoded, m)) (h : call.handle decoded m.whichMessage = .ok stores)
    (job : NewJob) : call.job? decode = some (stores.foldl (NewStore.apply m) job) := by
  obtain ⟨whichMessage, cmd, secCmd⟩ := m
  cases call with
  | cli message =>
    obtain rfl := Except.ok.inj h
    rfl
  | can destination bytes =>
    change decode bytes = _ at hdecode
    cases decoded with
    | false => contradiction
    | true =>
      cases whichMessage with
      | jMessage =>
        obtain rfl := Except.ok.inj h
        simp only [IntakeCall.job?, hdecode, replyAddr]
        split_ifs <;> rfl
      | secToMainMessage =>
        obtain rfl := Except.ok.inj h
        simp only [IntakeCall.job?, hdecode]
        rfl
      | other tag => contradiction
  | uart bytes =>
    change decode bytes = _ at hdecode
    cases decoded with
    | false => contradiction
    | true =>
      cases whichMessage with
      | jMessage =>
        obtain rfl := Except.ok.inj h
        simp only [IntakeCall.job?, hdecode]
        rfl
      | secToMainMessage => contradiction
      | other tag => contradiction

theorem handle_error {call : IntakeCall} {decoded : Bool} {whichMessage : WhichMessage} {err : RetCode}
    (h : call.handle decoded whichMessage = .error err) : err ≠ .success := by
  rintro rfl
  cases call <;> cases decoded <;> cases whichMessage <;>
    simp [IntakeCall.handle, runnerHandleNewCan, runnerHandleNewUart] at h

/-! The events. -/

theorem own_append (i : ι) (tr evs : List (IntakeEvent ι)) : own i (tr ++ evs) = own i tr ++ own i evs :=
  List.filter_append ..

theorem own_of_other (h : ∀ e ∈ evs, e.producer = some i) (hij : j ≠ i) : own j evs = [] := by
  refine List.filter_eq_nil_iff.mpr fun e he hj => ?_
  rw [h e he, decide_eq_true_eq, Option.some.injEq] at hj
  exact hij hj.symm

theorem Recorded.append {pc : IntakePc} (h : Recorded decode tr i pc) (hown : own i evs = []) :
    Recorded decode (tr ++ evs) i pc := by
  have heq : own i (tr ++ evs) = own i tr := by rw [own_append, hown, List.append_nil]
  cases pc <;> simp only [Recorded, heq] <;> exact h

omit [DecidableEq ι] in
theorem placedJobs_append (tr evs : List (IntakeEvent ι)) :
    placedJobs (tr ++ evs) = placedJobs tr ++ placedJobs evs := List.filterMap_append

omit [DecidableEq ι] in
theorem gotJobs_append (tr evs : List (IntakeEvent ι)) : gotJobs (tr ++ evs) = gotJobs tr ++ gotJobs evs :=
  List.filterMap_append

theorem SuccessPlaced.snoc (h : SuccessPlaced decode tr) {e : IntakeEvent ι}
    (he : ∀ i, e = .returned i .success →
      ∃ call job, call.job? decode = some job ∧ [.called i call, .placed i job] <:+ own i tr) :
    SuccessPlaced decode (tr ++ [e]) := by
  intro tr₁ tr₂ i heq
  obtain ⟨u, htr₁, hlast⟩ | ⟨u, htr, hrest⟩ := List.append_eq_append_iff.mp heq
  · cases u with
    | nil =>
      obtain ⟨rfl, rfl⟩ := List.cons.inj hlast
      rw [htr₁, List.append_nil]
      exact he i rfl
    | cons e' u =>
      have hlen := congrArg List.length hlast
      simp only [List.length_cons, List.length_nil, List.length_append] at hlen
      omega
  · cases u with
    | nil =>
      obtain ⟨rfl, -⟩ := List.cons.inj hrest
      rw [htr, List.append_nil] at he
      exact he i rfl
    | cons e' u =>
      obtain ⟨rfl, -⟩ := List.cons.inj hrest
      exact h tr₁ u i htr

/-! One step. -/

/-- A thread moves: it holds the semaphore before or takes it, or it touches nothing that is shared. -/
theorem IntakeInv.move (h : IntakeInv decode tr s) {pc : IntakePc}
    (hprod : s'.producers = Function.update s.producers i pc) (howner : ∀ e ∈ evs, e.producer = some i)
    (hfree : s'.newJobSem = true → pc.inside = false ∧ (s.newJobSem = true ∨ (s.producers i).inside = true))
    (hin : pc.inside = true → s.newJobSem = true ∨ (s.producers i).inside = true)
    (hshared : (s'.job = s.job ∧ s'.mcuMessage = s.mcuMessage) ∨ (s.producers i).inside = true)
    (hrecorded : Recorded decode (tr ++ evs) i pc) (hfilled : Filled decode s' pc)
    (hsuccess : SuccessPlaced decode (tr ++ evs))
    (hqueued : placedJobs (tr ++ evs) = gotJobs (tr ++ evs) ++ s'.processQueue) :
    IntakeInv decode (tr ++ evs) s' := by
  have hself : s'.producers i = pc := by rw [hprod, Function.update_self]
  have hother (j : ι) (hj : j ≠ i) : s'.producers j = s.producers j := by rw [hprod, Function.update_of_ne hj]
  have hout (j : ι) (hj : j ≠ i) (hi : s.newJobSem = true ∨ (s.producers i).inside = true) :
      (s.producers j).inside = false := by
    obtain hsem | hi := hi
    · exact h.free hsem j
    · cases hjin : (s.producers j).inside with
      | false => rfl
      | true => exact absurd (h.exclusive j i hjin hi) hj
  refine ⟨?_, ?_, ?_, ?_, hsuccess, hqueued⟩
  · intro hsem j
    obtain ⟨hpc, hi⟩ := hfree hsem
    by_cases hj : j = i
    · rw [hj, hself, hpc]
    · rw [hother j hj, hout j hj hi]
  · intro j k hjin hkin
    by_cases hj : j = i
    · by_cases hk : k = i
      · rw [hj, hk]
      · rw [hj, hself] at hjin
        rw [hother k hk, hout k hk (hin hjin)] at hkin
        contradiction
    · by_cases hk : k = i
      · rw [hk, hself] at hkin
        rw [hother j hj, hout j hj (hin hkin)] at hjin
        contradiction
      · rw [hother j hj] at hjin
        rw [hother k hk] at hkin
        exact h.exclusive j k hjin hkin
  · intro j
    by_cases hj : j = i
    · rw [hj, hself]
      exact hrecorded
    · rw [hother j hj]
      exact (h.recorded j).append (own_of_other howner hj)
  · intro j
    by_cases hj : j = i
    · rw [hj, hself]
      exact hfilled
    · rw [hother j hj]
      obtain ⟨hjob, hmcu⟩ | hi := hshared
      · exact (h.filled j).congr hjob hmcu
      · exact filled_outside (hout j hj (.inr hi))

/-- A move without an event. -/
theorem IntakeInv.silent (h : IntakeInv decode tr s) {pc : IntakePc}
    (hprod : s'.producers = Function.update s.producers i pc) (hqueue : s'.processQueue = s.processQueue)
    (hfree : s'.newJobSem = true → pc.inside = false ∧ (s.newJobSem = true ∨ (s.producers i).inside = true))
    (hin : pc.inside = true → s.newJobSem = true ∨ (s.producers i).inside = true)
    (hshared : (s'.job = s.job ∧ s'.mcuMessage = s.mcuMessage) ∨ (s.producers i).inside = true)
    (hrecorded : Recorded decode tr i pc) (hfilled : Filled decode s' pc) : IntakeInv decode (tr ++ []) s' := by
  have hnil : tr ++ [] = tr := List.append_nil tr
  refine h.move hprod (fun e he => by contradiction) hfree hin hshared ?_ hfilled ?_ ?_
  · rwa [hnil]
  · rw [hnil]
    exact h.success
  · rw [hnil, hqueue]
    exact h.queued

/-- A return, with the semaphore given if it was taken. -/
theorem IntakeInv.returns (h : IntakeInv decode tr s) {ret : RetCode}
    (hprod : s'.producers = Function.update s.producers i .idle) (hqueue : s'.processQueue = s.processQueue)
    (hfree : s'.newJobSem = true → s.newJobSem = true ∨ (s.producers i).inside = true)
    (hshared : s'.job = s.job ∧ s'.mcuMessage = s.mcuMessage)
    (hret : ret = .success →
      ∃ call job, call.job? decode = some job ∧ [.called i call, .placed i job] <:+ own i tr) :
    IntakeInv decode (tr ++ [.returned i ret]) s' := by
  refine h.move hprod ?_ (fun hsem => ⟨rfl, hfree hsem⟩) (fun hin => by contradiction) (.inl hshared) trivial
    trivial (h.success.snoc ?_) ?_
  · intro e he
    rw [List.mem_singleton.mp he]
    rfl
  · intro j hj
    obtain ⟨rfl, rfl⟩ := IntakeEvent.returned.inj hj
    exact hret rfl
  · rw [placedJobs_append, gotJobs_append, hqueue, h.queued]
    exact (List.append_nil _).trans (congrArg (· ++ _) (List.append_nil _).symm)

variable (decode)

theorem IntakeInv.producer_step (h : IntakeInv decode tr s) (timedOut : Bool)
    (hkeeps : KeepsTrying s (.run i timedOut)) :
    IntakeInv decode (tr ++ (producerStep decode s i timedOut (s.producers i)).1)
      (producerStep decode s i timedOut (s.producers i)).2 := by
  have hrecorded := h.recorded i
  have hfilled := h.filled i
  -- inside, the semaphore is taken
  have hbusy (hin : (s.producers i).inside = true) {p : Prop} (hsem : s.newJobSem = true) : p := by
    rw [h.free hsem i] at hin
    contradiction
  cases hpc : s.producers i with
  | idle => simpa only [producerStep, List.append_nil] using h
  | start call =>
    rw [hpc] at hrecorded
    have htake : IntakeInv decode (tr ++ []) (s.at i (.take call)) :=
      h.silent rfl rfl (fun hsem => ⟨rfl, .inl hsem⟩) (fun hin => by contradiction) (.inl ⟨rfl, rfl⟩) hrecorded trivial
    have hreturn : IntakeInv decode (tr ++ [.returned i .invalidState]) (s.at i .idle) :=
      h.returns rfl rfl .inl ⟨rfl, rfl⟩ (fun hret => by contradiction)
    cases call with
    | cli message => exact htake
    | can destination bytes | uart bytes =>
      simp only [producerStep]
      split_ifs
      · exact htake
      · exact hreturn
  | take call =>
    rw [hpc] at hrecorded
    have htimeout : IntakeInv decode (tr ++ [.returned i .busy]) (s.at i .idle) :=
      h.returns rfl rfl .inl ⟨rfl, rfl⟩ (fun hret => by contradiction)
    simp only [producerStep]
    by_cases hsem : s.newJobSem = true
    · have htaken {pc : IntakePc} (hrec : Recorded decode tr i pc)
          (hfill : Filled decode ({ s with newJobSem := false }.at i pc) pc) :
          IntakeInv decode (tr ++ []) ({ s with newJobSem := false }.at i pc) :=
        h.silent rfl rfl (fun hsem => by contradiction) (fun _ => .inl hsem) (.inl ⟨rfl, rfl⟩) hrec hfill
      rw [if_pos hsem]
      cases call with
      | cli message => exact htaken hrecorded rfl
      | can destination bytes => exact htaken hrecorded trivial
      | uart bytes => exact htaken hrecorded trivial
    · rw [if_neg hsem]
      split_ifs with htimed
      · cases call with
        | cli message =>
          simp only [KeepsTrying, htimed, hpc] at hkeeps
          exact absurd (hkeeps rfl) hsem
        | can destination bytes => exact htimeout
        | uart bytes => exact htimeout
      · simpa only [List.append_nil] using h
  | decode call =>
    rw [hpc] at hrecorded
    have hin : (s.producers i).inside = true := by rw [hpc]; rfl
    exact h.silent rfl rfl (hbusy hin) (fun _ => .inr hin) (.inr hin) hrecorded trivial
  | decoding call =>
    rw [hpc] at hrecorded
    have hin : (s.producers i).inside = true := by rw [hpc]; rfl
    exact h.silent rfl rfl (hbusy hin) (fun _ => .inr hin) (.inr hin) hrecorded rfl
  | dispatch call decoded =>
    rw [hpc] at hrecorded hfilled
    have hin : (s.producers i).inside = true := by rw [hpc]; rfl
    have hmove {pc : IntakePc} (hrec : Recorded decode tr i pc) (hfill : Filled decode (s.at i pc) pc) :
        IntakeInv decode (tr ++ []) (s.at i pc) :=
      h.silent rfl rfl (hbusy hin) (fun _ => .inr hin) (.inl ⟨rfl, rfl⟩) hrec hfill
    simp only [producerStep]
    cases hhandle : call.handle decoded s.mcuMessage.whichMessage with
    | ok stores => exact hmove hrecorded (handle_ok hfilled hhandle s.job)
    | error err => exact hmove (fun hret => absurd hret (handle_error hhandle)) trivial
  | store call rest =>
    rw [hpc] at hrecorded hfilled
    have hin : (s.producers i).inside = true := by rw [hpc]; rfl
    cases rest with
    | cons new rest =>
      exact h.silent rfl rfl (hbusy hin) (fun _ => .inr hin) (.inr hin) hrecorded hfilled
    | nil =>
      simp only [producerStep]
      split_ifs
      · refine h.move rfl ?_ (hbusy hin) (fun _ => .inr hin) (.inl ⟨rfl, rfl⟩) ?_ trivial (h.success.snoc ?_) ?_
        · intro e he
          rw [List.mem_singleton.mp he]
          rfl
        · -- the job is placed with no store left to do, and no event of the thread since its call
          intro _
          refine ⟨s.job, hfilled, ?_⟩
          have hown : own i [IntakeEvent.placed i s.job] = [.placed i s.job] := by simp [own, IntakeEvent.producer]
          rw [own_append, hown]
          exact List.suffix_append_self_iff.mpr hrecorded
        · intro j hj
          contradiction
        · rw [placedJobs_append, gotJobs_append, h.queued]
          simp [placedJobs, gotJobs, Intake.at]
      · exact h.silent rfl rfl (hbusy hin) (fun _ => .inr hin) (.inl ⟨rfl, rfl⟩) (fun hret => by contradiction) trivial
      · simpa only [List.append_nil] using h
  | give call ret =>
    rw [hpc] at hrecorded
    have hin : (s.producers i).inside = true := by rw [hpc]; rfl
    exact h.returns rfl rfl (fun _ => .inr hin) ⟨rfl, rfl⟩ fun hret => ⟨call, hrecorded hret⟩
  | unheldGive call =>
    rw [hpc] at hrecorded
    contradiction

theorem IntakeInv.step (h : IntakeInv decode tr s) (a : IntakeAction ι) (hkeeps : KeepsTrying s a) :
    IntakeInv decode (tr ++ (intakeStep decode s a).1) (intakeStep decode s a).2 := by
  cases a with
  | init =>
    simp only [intakeStep, List.append_nil]
    exact ⟨h.free, h.exclusive, h.recorded, fun i => (h.filled i).congr rfl rfl, h.success, h.queued⟩
  | call i call =>
    simp only [intakeStep]
    split
    · rename_i hpc
      have hcalled : own i [IntakeEvent.called i call] = [.called i call] := by simp [own, IntakeEvent.producer]
      refine h.move rfl ?_ (fun hsem => ⟨rfl, .inl hsem⟩) (fun hin => by contradiction) (.inl ⟨rfl, rfl⟩) ?_ trivial
        (h.success.snoc fun j hj => by contradiction) ?_
      · intro e he
        rw [List.mem_singleton.mp he]
        rfl
      · simp only [Recorded, own_append, hcalled]
        exact List.suffix_append _ _
      · rw [placedJobs_append, gotJobs_append, h.queued]
        exact (List.append_nil _).trans (congrArg (· ++ _) (List.append_nil _).symm)
    · rwa [List.append_nil]
  | run i timedOut => exact h.producer_step decode timedOut hkeeps
  | get =>
    simp only [intakeStep]
    split
    · rwa [List.append_nil]
    · rename_i job processQueue hqueue
      have hown (i : ι) : own i ([.got job] : List (IntakeEvent ι)) = [] := by simp [own, IntakeEvent.producer]
      refine ⟨h.free, h.exclusive, fun i => (h.recorded i).append (hown i), fun i => (h.filled i).congr rfl rfl,
        h.success.snoc fun i hi => by contradiction, ?_⟩
      rw [placedJobs_append, gotJobs_append, h.queued, hqueue]
      simp [placedJobs, gotJobs]

theorem intakeInv_initial : IntakeInv decode [] (Intake.initial : Intake ι) where
  free _ _ := rfl
  exclusive _ _ h := by contradiction
  recorded _ := trivial
  filled _ := trivial
  success := by
    intro tr₁ tr₂ i h
    cases tr₁ <;> contradiction
  queued := rfl

/-- Only a thread inside writes to `new` and `mcu_message`. -/
theorem intakeStep_modifies (s : Intake ι) (a : IntakeAction ι)
    (h : (intakeStep decode s a).2.job ≠ s.job ∨ (intakeStep decode s a).2.mcuMessage ≠ s.mcuMessage) :
    ∃ i timedOut, a = .run i timedOut ∧ (s.producers i).inside = true := by
  cases a with
  | init => simp [intakeStep] at h
  | call i call =>
    simp only [intakeStep] at h
    split at h <;> simp [Intake.at] at h
  | get =>
    simp only [intakeStep] at h
    split at h <;> simp at h
  | run i timedOut =>
    refine ⟨i, timedOut, rfl, ?_⟩
    simp only [intakeStep] at h
    cases hpc : s.producers i with
    | idle => simp [hpc, producerStep] at h
    | start call =>
      rw [hpc] at h
      cases call <;> simp only [producerStep] at h <;> try split_ifs at h
      all_goals simp [Intake.at] at h
    | take call =>
      rw [hpc] at h
      cases call <;> simp only [producerStep] at h <;> split_ifs at h
      all_goals simp [Intake.at] at h
    | unheldGive call => simp [hpc, producerStep, Intake.at] at h
    | _ => rfl

/-- As long as the CLI never gives up on the semaphore, the producers exclude each other, and a success means
that the call's own job was queued. -/
theorem intake_exclusive (as : List (IntakeAction ι))
    (h : Machine.Meets (intakeStep decode) KeepsTrying Intake.initial as) :
    IntakeSafe decode (Machine.events (intakeStep decode) Intake.initial as)
      (Machine.run (intakeStep decode) Intake.initial as).2 := by
  have hinv := Machine.events_invariant (I := IntakeInv decode)
    (fun tr s a h hkeeps => IntakeInv.step decode h a hkeeps) [] Intake.initial as (intakeInv_initial decode) h
  rw [List.nil_append] at hinv
  refine ⟨hinv.exclusive, fun a ha => ?_, hinv.success, hinv.queued⟩
  obtain ⟨i, timedOut, rfl, hin⟩ := intakeStep_modifies decode _ a ha
  exact ⟨i, timedOut, rfl, hin, fun j hj => hinv.exclusive j i hj hin⟩

/-- A decoder that takes every message for the command to home the mirrors. -/
def homing : List UInt8 → Bool × McuMessage :=
  fun _ => (true, ⟨.jMessage, ⟨7, .doHoming .stallDetection .both⟩, .other 0⟩)

/-- A CAN message and a command of the CLI, one after the other, the CLI waiting for the semaphore. -/
theorem intake_exclusive_can_cli :
    IntakeSafe homing
      (Machine.events (intakeStep homing) (Intake.initial : Intake (Fin 2))
        ([IntakeAction.init, .call 0 (.can 0x80 [0]), .run 0 false, .run 0 false, .call 1 (.cli ⟨0, .rebootOrb 5⟩),
          .run 1 false, .run 1 false] ++ List.replicate 9 (IntakeAction.run 0 true) ++
          List.replicate 7 (IntakeAction.run 1 true) ++ [IntakeAction.get]))
      (Machine.run (intakeStep homing) Intake.initial
        ([IntakeAction.init, .call 0 (.can 0x80 [0]), .run 0 false, .run 0 false, .call 1 (.cli ⟨0, .rebootOrb 5⟩),
          .run 1 false, .run 1 false] ++ List.replicate 9 (IntakeAction.run 0 true) ++
          List.replicate 7 (IntakeAction.run 1 true) ++ [IntakeAction.get])).2 :=
  intake_exclusive homing _ (by decide +kernel)

/-- The CLI gives up on the semaphore while a CAN message is decoded: it returns a success without a job in the
queue, and its give lets a UART message in. -/
theorem intake_shared :
    ∃ as : List (IntakeAction (Fin 3)),
      (Machine.events (intakeStep homing) Intake.initial as =
        [.called 0 (.can 0x80 [0]), .called 1 (.cli ⟨0, .rebootOrb 5⟩), .called 2 (.uart [0]), .returned 1 .success]) ∧
      ((Machine.run (intakeStep homing) Intake.initial as).2.producers 0).inside = true ∧
      ((Machine.run (intakeStep homing) Intake.initial as).2.producers 2).inside = true ∧
      ¬ IntakeSafe homing (Machine.events (intakeStep homing) Intake.initial as)
        (Machine.run (intakeStep homing) Intake.initial as).2 := by
  refine ⟨[.init, .call 0 (.can 0x80 [0]), .run 0 false, .run 0 false, .run 0 false,
    .call 1 (.cli ⟨0, .rebootOrb 5⟩), .call 2 (.uart [0]), .run 1 false, .run 2 false, .run 1 true, .run 1 false,
    .run 2 false, .run 2 false], by decide +kernel, by decide +kernel, by decide +kernel, fun h => ?_⟩
  have hsame := h.exclusive 0 2 (by decide +kernel) (by decide +kernel)
  contradiction

end OrbFirmware.Runner

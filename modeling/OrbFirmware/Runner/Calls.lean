import OrbFirmware.Runner.Acks

/-! Handlers of the Jetson's commands whose calls are carried out by a component on its state. -/
namespace OrbFirmware.Runner
open Interaction Program
variable {σ : Type} {job : Context}

/-- The component carries out some of the calls that return a code; the others are answered without it. -/
def carryOut (answer : (c : Call) → c.Answer) (component : RetCall → Option (σ → Int × σ)) :
    (c : Call) → σ → c.Answer × σ
  | .ret f, s =>
    match component f with
    | some run => run s
    | none => (answer (.ret f), s)
  | .publishNew payload remoteAddr, s => (answer (.publishNew payload remoteAddr), s)
  | .async f, s => (answer (.async f), s)
  | .bool f, s => (answer (.bool f), s)
  | .void f, s => (answer (.void f), s)
  | .dfuVersionSecondaryGet, s => (answer .dfuVersionSecondaryGet, s)
  | .dfuVersionPrimaryGet, s => (answer .dfuVersionPrimaryGet, s)

/-- Zeros for all calls. -/
def zeroAnswer : (c : Call) → c.Answer
  | .publishNew _ _ | .void _ => ()
  | .async _ | .ret _ => 0
  | .bool _ => false
  | .dfuVersionSecondaryGet => (0, ⟨0, 0, 0⟩)
  | .dfuVersionPrimaryGet => ⟨0, 0, 0⟩

/-- What a handler leaves behind: what it exchanged, and the state of the component. -/
def runHandler (answer : (c : Call) → c.Answer) (component : RetCall → Option (σ → Int × σ)) (handler : Handler Unit)
    (s : σ) : List Event × σ :=
  let r := exec (carryOut answer component) handler s
  (r.1, r.2.2)

/-- The job has been acknowledged with a code. -/
def Acknowledged (job : Context) (error : ErrorCode) (trace : List Event) : Prop :=
  (job.ackNumber, error, job.remoteAddr) ∈ acks trace

instance (error : ErrorCode) (trace : List Event) : Decidable (Acknowledged job error trace) :=
  inferInstanceAs (Decidable (_ ∈ _))

/-- The handler acknowledges with a code, and with no other, and leaves the component in a state. -/
structure EndsWith (answer : (c : Call) → c.Answer) (component : RetCall → Option (σ → Int × σ)) (job : Context)
    (handler : Handler Unit) (s : σ) (error : ErrorCode) (s' : σ) : Prop where
  acknowledged : ∀ code, Acknowledged job code (runHandler answer component handler s).1 ↔
    job.remote = .canJetsonMessaging ∧ code = error
  state : (runHandler answer component handler s).2 = s'

variable {answer : (c : Call) → c.Answer} {component : RetCall → Option (σ → Int × σ)} {s s' : σ} {error : ErrorCode}

theorem value_inj {ret ret' : RetCode} : ret.value = ret'.value ↔ ret = ret' := by
  constructor
  · cases ret <;> cases ret' <;> first | exact fun _ => rfl | exact fun h => nomatch h
  · exact congrArg RetCode.value

/-- Only `RET_SUCCESS` is acknowledged with success, where the other codes have other acknowledgements. -/
theorem ackOf_success {codes : List (RetCode × ErrorCode)} {other : ErrorCode} {result : RetCode}
    (hcodes : ∀ code ∈ codes, code.2 ≠ .success) (hother : other ≠ .success) :
    .success = ackOf ((.success, .success) :: codes) other result.value ↔ result = .success := by
  have hrest : ackOf codes other result.value ≠ .success := by
    induction codes with
    | nil => exact hother
    | cons code codes ih =>
      obtain ⟨hcode, hcodes⟩ := List.forall_mem_cons.mp hcodes
      rw [ackOf]
      split_ifs
      · exact hcode
      · exact ih hcodes
  simp only [ackOf, value_inj]
  split_ifs with h
  · exact iff_of_true rfl h
  · exact iff_of_false hrest.symm h

theorem EndsWith.jobAck (answer : (c : Call) → c.Answer) (component : RetCall → Option (σ → Int × σ)) (job : Context)
    (error : ErrorCode) (s : σ) : EndsWith answer component job (jobAck error job) s error s := by
  have hacks : acks (runHandler answer component (Runner.jobAck error job) s).1 =
        (if job.remote = .canJetsonMessaging then [(job.ackNumber, error, job.remoteAddr)] else []) ∧
      (runHandler answer component (Runner.jobAck error job) s).2 = s := by
    simp only [runHandler, Runner.jobAck]
    split_ifs <;> exact ⟨rfl, rfl⟩
  refine ⟨fun code => ?_, hacks.2⟩
  rw [Acknowledged, hacks.1]
  split_ifs with hcan <;> simp [hcan]

/-- A call before a handler's end, which acknowledges nothing. -/
theorem EndsWith.after {c : Call} {next : c.Answer → Handler Unit}
    (hquiet : ∀ payload remoteAddr, c ≠ .publishNew payload remoteAddr)
    (h : EndsWith answer component job (next (carryOut answer component c s).1) (carryOut answer component c s).2
      error s') : EndsWith answer component job (call c >>= next) s error s' := by
  refine ⟨fun code => ?_, h.state⟩
  rw [← h.acknowledged code]
  cases c with
  | publishNew payload remoteAddr => exact absurd rfl (hquiet payload remoteAddr)
  | _ => exact Iff.rfl

theorem EndsWith.ackResult (answer : (c : Call) → c.Answer) (component : RetCall → Option (σ → Int × σ)) (job : Context)
    (f : RetCall) (codes : List (RetCode × ErrorCode)) (other : ErrorCode) (s : σ) :
    EndsWith answer component job (ackResult f codes other job) s
      (ackOf codes other (carryOut answer component (.ret f) s).1) (carryOut answer component (.ret f) s).2 :=
  .after nofun (.jobAck answer component job _ _)

/-- The result of the two calls of the mirror handlers, with the state they leave. -/
def inSequence (respond : RetCall → σ → Int × σ) (first second : RetCall) (s : σ) : Int × σ :=
  if (respond first s).1 = RetCode.success.value then respond second (respond first s).2 else respond first s

theorem EndsWith.ackMirrorAngles (answer : (c : Call) → c.Answer) (component : RetCall → Option (σ → Int × σ))
    (job : Context) (phi theta : RetCall) (s : σ) :
    let r := inSequence (fun f => carryOut answer component (.ret f)) phi theta s
    if answer (.bool .mirrorAutoHomingInProgress) then
      EndsWith answer component job (ackMirrorAngles phi theta job) s .inProgress s
    else EndsWith answer component job (ackMirrorAngles phi theta job) s
      (ackOf [(.success, .success), (.invalidParam, .range)] .fail r.1) r.2 := by
  intro r
  have hbool : carryOut answer component (.bool .mirrorAutoHomingInProgress) s =
      (answer (.bool .mirrorAutoHomingInProgress), s) := rfl
  cases hhoming : answer (.bool .mirrorAutoHomingInProgress) with
  | true =>
    refine .after nofun ?_
    rw [hbool, hhoming]
    exact .jobAck answer component job _ s
  | false =>
    refine .after nofun ?_
    rw [hbool, hhoming]
    refine .after nofun ?_
    by_cases hfirst : (carryOut answer component (.ret phi) s).1 = RetCode.success.value
    · have hr : r = carryOut answer component (.ret theta) (carryOut answer component (.ret phi) s).2 := if_pos hfirst
      rw [hr, if_pos hfirst]
      exact .after nofun (.jobAck answer component job _ _)
    · have hr : r = carryOut answer component (.ret phi) s := if_neg hfirst
      rw [hr, if_neg hfirst]
      exact .jobAck answer component job _ _

end OrbFirmware.Runner

import Mathlib.Tactic.Common

/-! Programs that call functions defined elsewhere and go on with their answers, the runs they have under
any answers, and the rules for what holds of every run. -/
namespace OrbFirmware.Interaction
universe u

/-- A program over the functions `Call`; a call `c` is answered by an `Answer c`. -/
inductive Program {Call : Type} (Answer : Call → Type) (α : Type u) where
  | done (value : α)
  | call (c : Call) (next : Answer c → Program Answer α)

/-- A call and the answer it got. -/
structure Exchange {Call : Type} (Answer : Call → Type) where
  call : Call
  answer : Answer call

namespace Program
variable {Call : Type} {Answer : Call → Type} {α β : Type u} {σ : Type}

def bind : Program Answer α → (α → Program Answer β) → Program Answer β
  | .done value, k => k value
  | .call c next, k => .call c (fun answer => (next answer).bind k)

instance : Monad (Program Answer) where
  pure := .done
  bind := bind

/-- The runs of a program: the calls it makes with the answers it gets, and its value. -/
inductive Run : Program Answer α → List (Exchange Answer) → α → Prop where
  | done (value : α) : Run (.done value) [] value
  | call {c : Call} {next : Answer c → Program Answer α} {trace : List (Exchange Answer)} {value : α}
      (answer : Answer c) (rest : Run (next answer) trace value) :
      Run (.call c next) (⟨c, answer⟩::trace) value

/-- What has to hold for `Q` to hold of the trace and the value of every run. -/
def Always : Program Answer α → (List (Exchange Answer) → α → Prop) → Prop
  | .done value, Q => Q [] value
  | .call c next, Q => ∀ answer, (next answer).Always fun trace value => Q (⟨c, answer⟩::trace) value

theorem always_iff (p : Program Answer α) (Q : List (Exchange Answer) → α → Prop) :
    p.Always Q ↔ ∀ trace value, p.Run trace value → Q trace value := by
  induction p generalizing Q with
  | done value =>
    constructor
    · intro h trace value' hr
      cases hr
      exact h
    · intro h
      exact h [] value (.done value)
  | call c next ih =>
    constructor
    · intro h trace value hr
      cases hr with
      | call answer rest => exact (ih answer _).mp (h answer) _ _ rest
    · intro h answer
      exact (ih answer _).mpr fun trace value rest => h _ _ (.call answer rest)

theorem Always.imp {p : Program Answer α} {P Q : List (Exchange Answer) → α → Prop} (h : p.Always P)
    (himp : ∀ trace value, P trace value → Q trace value) : p.Always Q := by
  rw [always_iff] at h ⊢
  intro trace value hr
  exact himp trace value (h trace value hr)

@[simp] theorem always_pure (value : α) (Q : List (Exchange Answer) → α → Prop) :
    (pure value : Program Answer α).Always Q ↔ Q [] value := Iff.rfl

@[simp] theorem always_call (c : Call) (next : Answer c → Program Answer α)
    (Q : List (Exchange Answer) → α → Prop) :
    (Program.call c next).Always Q ↔
      ∀ answer, (next answer).Always fun trace value => Q (⟨c, answer⟩::trace) value := Iff.rfl

/-- The rule for sequencing: what comes after extends the trace. -/
theorem always_bind (p : Program Answer α) (k : α → Program Answer β)
    (Q : List (Exchange Answer) → β → Prop) :
    (p >>= k).Always Q ↔
      p.Always fun trace value => (k value).Always fun rest result => Q (trace++rest) result := by
  induction p generalizing Q with
  | done value => exact Iff.rfl
  | call c next ih =>
    constructor
    · intro h answer
      exact (ih answer _).mp (h answer)
    · intro h answer
      exact (ih answer _).mpr (h answer)

/-- Runs the program with the calls carried out by `respond` on a state. -/
def exec (respond : (c : Call) → σ → Answer c × σ) :
    Program Answer α → σ → List (Exchange Answer) × α × σ
  | .done value, s => ([], value, s)
  | .call c next, s =>
    let r := exec respond (next (respond c s).1) (respond c s).2
    (⟨c, (respond c s).1⟩::r.1, r.2)

end Program
end OrbFirmware.Interaction

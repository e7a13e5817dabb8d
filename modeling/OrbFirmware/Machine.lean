import Mathlib.Algebra.GroupWithZero.Nat
import Mathlib.Tactic.Common

/-! Deterministic machines with inputs and outputs, and labelled partial steps whose runs meet a
condition: runs, invariants, and forward simulation of an abstract machine. -/
namespace OrbFirmware
variable {σ τ α β ε : Type*}

namespace Machine

/-- Outputs and last state of a machine fed a list of inputs. -/
def run (step : σ → α → β × σ) : σ → List α → List β × σ
  | s, [] => ([], s)
  | s, a :: as =>
    let (b, s) := step s a
    let (bs, s) := run step s as
    (b :: bs, s)

/-- An abstract machine says which outputs are allowed and how its state follows. -/
structure Spec (τ α β : Type*) where
  allows : τ → α → β → Prop
  next : τ → α → β → τ

def Spec.Run (spec : Spec τ α β) : τ → List α → List β → τ → Prop
  | t, [], [], t' => t = t'
  | t, a :: as, b :: bs, t' => spec.allows t a b ∧ spec.Run (spec.next t a b) as bs t'
  | _, _, _, _ => False

theorem run_cons (step : σ → α → β × σ) (s : σ) (a : α) (as : List α) :
    (run step s (a :: as)).2 = (run step (step s a).2 as).2 := rfl

theorem run_pair (step : σ → α → β × σ) (s : σ) (a a' : α) :
    (run step s [a, a']).2 = (step (step s a).2 a').2 := rfl

theorem run_append (step : σ → α → β × σ) (s : σ) (as as' : List α) :
    (run step s (as ++ as')).2 = (run step (run step s as).2 as').2 := by
  induction as generalizing s with
  | nil => rfl
  | cons a as ih => exact ih (step s a).2

/-- The output of a step in the middle of a run. -/
theorem run_output (step : σ → α → β × σ) (s : σ) (as : List α) (a : α) (as' : List α) :
    (run step s (as ++ a :: as')).1[as.length]? = some (step (run step s as).2 a).1 := by
  induction as generalizing s with
  | nil => rfl
  | cons b as ih => exact ih (step s b).2

theorem run_invariant {step : σ → α → β × σ} {I : σ → Prop} (hstep : ∀ s a, I s → I (step s a).2)
    (s : σ) (as : List α) (h : I s) : I (run step s as).2 := by
  induction as generalizing s with
  | nil => exact h
  | cons a as ih => exact ih _ (hstep s a h)

/-- A relation kept by every step makes every run a run of the abstract machine. -/
theorem run_simulates {step : σ → α → β × σ} {spec : Spec τ α β} {R : σ → τ → Prop} {ok : α → Prop}
    (hstep : ∀ s t a, ok a → R s t →
      spec.allows t a (step s a).1 ∧ R (step s a).2 (spec.next t a (step s a).1))
    (s : σ) (t : τ) (as : List α) (hok : ∀ a ∈ as, ok a) (h : R s t) :
    ∃ t', spec.Run t as (run step s as).1 t' ∧ R (run step s as).2 t' := by
  induction as generalizing s t with
  | nil => exact ⟨t, rfl, h⟩
  | cons a as ih =>
    obtain ⟨hallow, hnext⟩ := hstep s t a (hok a List.mem_cons_self) h
    obtain ⟨t', hrun, hend⟩ := ih _ _ (fun a' ha => hok a' (List.mem_cons_of_mem a ha)) hnext
    exact ⟨t', ⟨hallow, hrun⟩, hend⟩

/-- Every step of the run meets a condition on the input and the state before it. -/
def Meets (step : σ → α → β × σ) (cond : σ → α → Prop) : σ → List α → Prop
  | _, [] => True
  | s, a :: as => cond s a ∧ Meets step cond (step s a).2 as

instance instDecidableMeets {step : σ → α → β × σ} {cond : σ → α → Prop} [∀ s a, Decidable (cond s a)] :
    (s : σ) → (as : List α) → Decidable (Meets step cond s as)
  | _, [] => isTrue trivial
  | s, a :: as =>
    have : Decidable (Meets step cond (step s a).2 as) := instDecidableMeets (step s a).2 as
    instDecidableAnd

theorem meets_append {step : σ → α → β × σ} {cond : σ → α → Prop} {s : σ} {as as' : List α} :
    Meets step cond s (as ++ as') ↔ Meets step cond s as ∧ Meets step cond (run step s as).2 as' := by
  induction as generalizing s with
  | nil => exact ⟨fun h => ⟨trivial, h⟩, fun h => h.2⟩
  | cons a as ih =>
    constructor
    · rintro ⟨ha, has⟩
      obtain ⟨h1, h2⟩ := ih.mp has
      exact ⟨⟨ha, h1⟩, h2⟩
    · rintro ⟨⟨ha, h1⟩, h2⟩
      exact ⟨ha, ih.mpr ⟨h1, h2⟩⟩

theorem meets_invariant {step : σ → α → β × σ} {cond : σ → α → Prop} {I : σ → Prop}
    (hstep : ∀ s a, I s → cond s a → I (step s a).2) (s : σ) (as : List α) (h : I s)
    (hm : Meets step cond s as) : I (run step s as).2 := by
  induction as generalizing s with
  | nil => exact h
  | cons a as ih => exact ih _ (hstep s a h hm.1) hm.2

/-- A condition on the inputs alone. -/
theorem meets_of_forall {step : σ → α → β × σ} {P : α → Prop} (s : σ) (as : List α) (h : ∀ a ∈ as, P a) :
    Meets step (fun _ a => P a) s as := by
  induction as generalizing s with
  | nil => trivial
  | cons a as ih => exact ⟨h a List.mem_cons_self, ih _ fun a' ha => h a' (List.mem_cons_of_mem a ha)⟩

/-- Steps that meet one condition meet another where an invariant holds, and the runs that meet the one meet the other. -/
theorem meets_mono {step : σ → α → β × σ} {P Q : σ → α → Prop} {I : σ → Prop}
    (hI : ∀ s a, I s → P s a → I (step s a).2) (h : ∀ s a, I s → P s a → Q s a) (s : σ) (as : List α)
    (hs : I s) (hm : Meets step P s as) : Meets step Q s as := by
  induction as generalizing s with
  | nil => trivial
  | cons a as ih => exact ⟨h s a hs hm.1, ih _ (hI s a hs hm.1) hm.2⟩

/-- Two conditions that say the same of each step say the same of a run. -/
theorem meets_congr {step : σ → α → β × σ} {ok P Q : σ → α → Prop} {I : σ → Prop}
    (hI : ∀ s a, I s → ok s a → P s a → I (step s a).2) (h : ∀ s a, I s → ok s a → (P s a ↔ Q s a)) (s : σ)
    (as : List α) (hs : I s) (hok : Meets step ok s as) : Meets step P s as ↔ Meets step Q s as := by
  induction as generalizing s with
  | nil => exact Iff.rfl
  | cons a as ih =>
    obtain ⟨ha, has⟩ := hok
    constructor
    · rintro ⟨hP, hrest⟩
      exact ⟨(h s a hs ha).mp hP, (ih _ (hI s a hs ha hP) has).mp hrest⟩
    · rintro ⟨hQ, hrest⟩
      have hP := (h s a hs ha).mpr hQ
      exact ⟨hP, (ih _ (hI s a hs ha hP) has).mpr hrest⟩

/-- A condition on a part of the state that runs by itself. -/
theorem meets_comap {step : σ → α → β × σ} {step' : τ → α → ε × τ} {cond : τ → α → Prop} {f : σ → τ}
    (hf : ∀ s a, f (step s a).2 = (step' (f s) a).2) (s : σ) (as : List α) :
    Meets step (fun s a => cond (f s) a) s as ↔ Meets step' cond (f s) as := by
  induction as generalizing s with
  | nil => exact Iff.rfl
  | cons a as ih =>
    simp only [Meets, ih, hf]

/-- Where the steps that keep `P` are those that meet the condition, the runs that keep it are the same. -/
theorem forall_prefix_iff {step : σ → α → β × σ} {cond : σ → α → Prop} {I P : σ → Prop}
    (hP : ∀ s, I s → P s) (hI : ∀ s a, I s → cond s a → I (step s a).2)
    (hnot : ∀ s a, I s → ¬cond s a → ¬P (step s a).2) (s : σ) (as : List α) (h : I s) :
    (∀ pre, pre <+: as → P (run step s pre).2) ↔ Meets step cond s as := by
  induction as generalizing s with
  | nil => simpa [Meets, run] using hP s h
  | cons a as ih =>
    constructor
    · intro hpre
      have ha : cond s a := by
        by_contra hcond
        exact hnot s a h hcond (hpre [a] ⟨as, rfl⟩)
      refine ⟨ha, (ih _ (hI s a h ha)).mp fun pre hprefix => ?_⟩
      exact hpre (a :: pre) (List.cons_prefix_cons.mpr ⟨rfl, hprefix⟩)
    · rintro ⟨ha, has⟩ pre hprefix
      cases pre with
      | nil => exact hP s h
      | cons a' pre =>
        obtain ⟨rfl, htail⟩ := List.cons_prefix_cons.mp hprefix
        exact (ih _ (hI s a' h ha)).mpr has pre htail

/-- What is going on ends, where it has a cost left that no step adds to. -/
theorem ends_within {step : σ → α → β × σ} {cond : σ → α → Prop} {I : σ → Prop} {going : σ → Bool} {left : σ → Nat}
    {cost : α → Nat} (hI : ∀ s a, I s → cond s a → I (step s a).2) (hpos : ∀ s, I s → going s = true → 0 < left s)
    (hleft : ∀ s a, I s → cond s a → going s = true → going (step s a).2 = true →
      left (step s a).2 + cost a ≤ left s)
    (s : σ) (as : List α) (h : I s) (hm : Meets step cond s as) (hcost : left s ≤ (as.map cost).sum) :
    ∃ pre, pre <+: as ∧ going (run step s pre).2 = false := by
  induction as generalizing s with
  | nil =>
    refine ⟨[], List.nil_prefix, Bool.eq_false_iff.mpr fun hgoing => ?_⟩
    exact absurd (Nat.lt_of_lt_of_le (hpos s h hgoing) hcost) (Nat.lt_irrefl 0)
  | cons a as ih =>
    cases hgoing : going s with
    | false => exact ⟨[], List.nil_prefix, hgoing⟩
    | true =>
      cases hnext : going (step s a).2 with
      | false => exact ⟨[a], ⟨as, rfl⟩, hnext⟩
      | true =>
        have hless := hleft s a h hm.1 hgoing hnext
        rw [List.map_cons, List.sum_cons] at hcost
        obtain ⟨pre, hprefix, hend⟩ := ih _ (hI s a h hm.1) hm.2 (by omega)
        exact ⟨a :: pre, List.cons_prefix_cons.mpr ⟨rfl, hprefix⟩, hend⟩

/-! Machines whose outputs are lists of events. -/

/-- All events of a run. -/
def events (step : σ → α → List ε × σ) (s : σ) (as : List α) : List ε := (run step s as).1.flatten

theorem events_cons (step : σ → α → List ε × σ) (s : σ) (a : α) (as : List α) :
    events step s (a :: as) = (step s a).1 ++ events step (step s a).2 as := rfl

theorem events_append (step : σ → α → List ε × σ) (s : σ) (as as' : List α) :
    events step s (as ++ as') = events step s as ++ events step (run step s as).2 as' := by
  induction as generalizing s with
  | nil => rfl
  | cons a as ih =>
    rw [List.cons_append, events_cons, events_cons, ih, List.append_assoc]
    rfl

/-- A relation between what happened and the state, along a run whose steps meet a condition. -/
theorem events_invariant {step : σ → α → List ε × σ} {cond : σ → α → Prop} {I : List ε → σ → Prop}
    (hstep : ∀ tr s a, I tr s → cond s a → I (tr ++ (step s a).1) (step s a).2) (tr : List ε) (s : σ)
    (as : List α) (h : I tr s) (hm : Meets step cond s as) :
    I (tr ++ events step s as) (run step s as).2 := by
  induction as generalizing tr s with
  | nil => simpa [events, run] using h
  | cons a as ih =>
    rw [events_cons, ← List.append_assoc]
    exact ih _ _ (hstep tr s a h hm.1) hm.2

/-- The same along a run whose inputs, and whose events up to any point of it, meet a condition. -/
theorem events_invariant_of_inputs {step : σ → α → List ε × σ} {P : α → Prop} {C : List ε → Prop}
    {I : List ε → σ → Prop} (hC : ∀ u v, C (u ++ v) → C u)
    (hstep : ∀ tr s a, I tr s → P a → C (tr ++ (step s a).1) → I (tr ++ (step s a).1) (step s a).2)
    (tr : List ε) (s : σ) (as : List α) (h : I tr s) (hP : ∀ a ∈ as, P a)
    (hm : C (tr ++ events step s as)) : I (tr ++ events step s as) (run step s as).2 := by
  induction as generalizing tr s with
  | nil => simpa [events, run] using h
  | cons a as ih =>
    rw [events_cons, ← List.append_assoc] at hm ⊢
    have ha := hP a List.mem_cons_self
    exact ih _ _ (hstep tr s a h ha (hC _ _ hm)) (fun a' ha' => hP a' (List.mem_cons_of_mem a ha')) hm

theorem events_invariant_of_prefix {step : σ → α → List ε × σ} {C : List ε → Prop} {I : List ε → σ → Prop}
    (hC : ∀ u v, C (u ++ v) → C u)
    (hstep : ∀ tr s a, I tr s → C (tr ++ (step s a).1) → I (tr ++ (step s a).1) (step s a).2)
    (tr : List ε) (s : σ) (as : List α) (h : I tr s) (hm : C (tr ++ events step s as)) :
    I (tr ++ events step s as) (run step s as).2 :=
  events_invariant_of_inputs hC (fun tr s a h _ => hstep tr s a h) tr s as h (fun _ _ => trivial) hm

/-- Where the events of each step meet `P` exactly if its condition holds, so do those of a run. -/
theorem events_forall_iff {step : σ → α → List ε × σ} {cond : σ → α → Prop} {I : σ → Prop} {P : ε → Prop}
    (hI : ∀ s a, I s → I (step s a).2) (hstep : ∀ s a, I s → ((∀ e ∈ (step s a).1, P e) ↔ cond s a))
    (s : σ) (as : List α) (h : I s) : (∀ e ∈ events step s as, P e) ↔ Meets step cond s as := by
  induction as generalizing s with
  | nil => simp [events, run, Meets]
  | cons a as ih =>
    rw [events_cons, List.forall_mem_append, hstep s a h, ih _ (hI s a h)]
    rfl

/-- A machine together with one that watches its events. -/
def watched (step : σ → α → List ε × σ) (watch : τ → ε → β × τ) (ts : τ × σ) (a : α) : List ε × τ × σ :=
  ((step ts.2 a).1, (run watch ts.1 (step ts.2 a).1).2, (step ts.2 a).2)

/-- Where the events of each step meet `P` exactly if its condition holds, so do those of a run; both may depend on
what has been seen of the events before. -/
theorem meets_events_iff {step : σ → α → List ε × σ} {watch : τ → ε → β × τ} {P : τ → ε → Prop}
    {cond : τ × σ → α → Prop} {I : τ → σ → Prop}
    (hI : ∀ t s a, I t s → I (run watch t (step s a).1).2 (step s a).2)
    (hstep : ∀ t s a, I t s → (Meets watch P t (step s a).1 ↔ cond (t, s) a)) (t : τ) (s : σ) (as : List α)
    (h : I t s) : Meets watch P t (events step s as) ↔ Meets (watched step watch) cond (t, s) as := by
  induction as generalizing t s with
  | nil => exact Iff.rfl
  | cons a as ih =>
    rw [events_cons, meets_append, hstep t s a h, ih _ _ (hI t s a h)]
    exact Iff.rfl

/-! Machines fed an endless sequence of inputs, and the first time at which something holds. -/

def stateAt (step : σ → α → β × σ) (s : σ) (input : Nat → α) : Nat → σ
  | 0 => s
  | n + 1 => (step (stateAt step s input n) (input n)).2

def outputAt (step : σ → α → β × σ) (s : σ) (input : Nat → α) (n : Nat) : β :=
  (step (stateAt step s input n) (input n)).1

/-- It holds at `n` and at no earlier time. -/
def FirstAt (p : Nat → Prop) (n : Nat) : Prop := p n ∧ ∀ m < n, ¬p m

theorem FirstAt.exists_le {p : Nat → Prop} {n : Nat} (h : p n) : ∃ m, m ≤ n ∧ FirstAt p m := by
  induction n using Nat.strongRecOn with
  | ind n ih =>
    by_cases hearlier : ∃ m, m < n ∧ p m
    · obtain ⟨m, hlt, hm⟩ := hearlier
      obtain ⟨k, hle, hk⟩ := ih m hlt hm
      exact ⟨k, by omega, hk⟩
    · exact ⟨n, Nat.le_refl n, h, fun m hlt hm => hearlier ⟨m, hlt, hm⟩⟩

/-- Where `p` is `q` with a guard up to the first `q`, the first times agree if and only if the guard holds then. -/
theorem firstAt_guarded {p q guard : Nat → Prop}
    (h : ∀ n, (∀ m < n, ¬q m) → (p n ↔ q n ∧ guard n)) :
    (∀ n, FirstAt p n ↔ FirstAt q n) ↔ ∀ n, FirstAt q n → guard n := by
  constructor
  · intro hfirst n hq
    exact ((h n hq.2).mp ((hfirst n).mpr hq).1).2
  · intro hguard n
    constructor
    · rintro ⟨hp, hnone⟩
      have hbefore : ∀ m < n, ¬q m := by
        intro m hlt hm
        obtain ⟨k, hle, hk⟩ := FirstAt.exists_le hm
        exact hnone k (by omega) ((h k hk.2).mpr ⟨hk.1, hguard k hk⟩)
      exact ⟨((h n hbefore).mp hp).1, hbefore⟩
    · intro hq
      refine ⟨(h n hq.2).mpr ⟨hq.1, hguard n hq⟩, ?_⟩
      intro m hlt hp
      have hbefore : ∀ k < m, ¬q k := fun k hk => hq.2 k (by omega)
      exact hq.2 m hlt ((h m hbefore).mp hp).1

theorem firstAt_congr {p q : Nat → Prop} (h : ∀ n, (∀ m < n, ¬q m) → (p n ↔ q n)) (n : Nat) :
    FirstAt p n ↔ FirstAt q n := by
  have hguarded : ∀ n, (∀ m < n, ¬q m) → (p n ↔ q n ∧ True) := by simpa only [and_true] using h
  exact (firstAt_guarded hguarded).mpr (fun _ _ => trivial) n

end Machine
end OrbFirmware

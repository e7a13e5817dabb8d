import Mathlib.Data.List.Basic

/-! Parsers that are fed a list in pieces: a step looks at what is pending and asks for more, or consumes
from its front. -/
namespace OrbFirmware.Incremental
variable {α β : Type*} {step : List α → Option (Option β × Nat)} {n pos : Nat} {xs ys : List α} {e : Option β}

/-- What a list gives from position `pos` on, after `skip` elements: the results with their positions, and
what stays pending. A step's `some (e, n)` consumes `n+1` elements. -/
def parse (step : List α → Option (Option β × Nat)) : Nat → Nat → List α → List (Nat × β) × List α
  | _, _, [] => ([], [])
  | skip+1, pos, _ :: as => parse step skip (pos+1) as
  | 0, pos, a :: as =>
    match step (a :: as) with
    | none => ([], a :: as)
    | some (e, n) => ((e.map (pos, ·)).toList ++ (parse step n (pos+1) as).1, (parse step n (pos+1) as).2)

/-- A step consumes what is there. -/
def Within (step : List α → Option (Option β × Nat)) : Prop :=
  ∀ xs e n, step xs = some (e, n) → n < xs.length

/-- A step that does not ask for more is the same whatever follows. -/
def Stable (step : List α → Option (Option β × Nat)) : Prop :=
  ∀ xs ys e n, step xs = some (e, n) → step (xs ++ ys) = some (e, n)

theorem parse_none {a : α} {as : List α} (h : step (a :: as) = none) :
    parse step 0 pos (a :: as) = ([], a :: as) := by
  rw [parse, h]

theorem parse_some {a : α} {as : List α} (h : step (a :: as) = some (e, n)) :
    parse step 0 pos (a :: as) =
      ((e.map (pos, ·)).toList ++ (parse step n (pos+1) as).1, (parse step n (pos+1) as).2) := by
  rw [parse, h]

theorem parse_skip (h : n ≤ xs.length) : parse step n pos xs = parse step 0 (pos+n) (xs.drop n) := by
  induction n generalizing pos xs with
  | zero => rfl
  | succ n ih =>
    cases xs with
    | nil => contradiction
    | cons a as =>
      rw [parse, List.drop_succ_cons, ih (Nat.le_of_succ_le_succ h)]
      congr 1
      omega

theorem parse_rest (k : Nat) : (parse step k pos xs).2 <:+ xs := by
  induction xs generalizing k pos with
  | nil => cases k <;> exact List.suffix_rfl
  | cons a as ih =>
    cases k with
    | succ k => exact (ih k).trans (List.suffix_cons a as)
    | zero =>
      cases h : step (a :: as) with
      | none =>
        have hrest : (parse step 0 pos (a :: as)).2 = a :: as := by simp only [parse_none h]
        exact ⟨[], hrest⟩
      | some r =>
        rw [parse_some h]
        exact (ih r.2).trans (List.suffix_cons a as)

theorem parse_rest_drop (k : Nat) :
    (parse step k pos xs).2 = xs.drop (xs.length-(parse step k pos xs).2.length) := by
  have hrest : (parse step k pos xs).2 <:+ xs := parse_rest k
  obtain ⟨u, hu⟩ := hrest
  have hlen := congrArg List.length hu
  rw [List.length_append] at hlen
  have hdrop : (u ++ (parse step k pos xs).2).drop (xs.length-(parse step k pos xs).2.length) =
      (parse step k pos xs).2 := List.drop_left' (by omega)
  rw [hu] at hdrop
  exact hdrop.symm

/-- A result comes from the step at its position. -/
theorem parse_mem {k p : Nat} {r : β} (h : (p, r) ∈ (parse step k pos xs).1) :
    pos+k ≤ p ∧ ∃ n, step (xs.drop (p-pos)) = some (some r, n) := by
  induction xs generalizing k pos with
  | nil => cases k <;> contradiction
  | cons a as ih =>
    -- what comes behind the first element
    have htail {m : Nat} (hmem : (p, r) ∈ (parse step m (pos+1) as).1) :
        pos+1+m ≤ p ∧ ∃ n, step ((a :: as).drop (p-pos)) = some (some r, n) := by
      obtain ⟨hle, hstep⟩ := ih hmem
      have hpos : p-pos = p-(pos+1)+1 := by omega
      rw [hpos, List.drop_succ_cons]
      exact ⟨hle, hstep⟩
    cases k with
    | succ k =>
      obtain ⟨hle, hstep⟩ := htail h
      exact ⟨by omega, hstep⟩
    | zero =>
      cases hfirst : step (a :: as) with
      | none =>
        rw [parse_none hfirst] at h
        contradiction
      | some v =>
        obtain ⟨e, n⟩ := v
        rw [parse_some hfirst] at h
        obtain hhead | hrest := List.mem_append.mp h
        · cases e with
          | none => contradiction
          | some e =>
            obtain ⟨rfl, rfl⟩ := Prod.mk.inj (List.mem_singleton.mp hhead)
            rw [Nat.sub_self]
            exact ⟨Nat.le_refl p, n, hfirst⟩
        · obtain ⟨hle, hstep⟩ := htail hrest
          exact ⟨by omega, hstep⟩

/-- A result ends before what stays pending. -/
theorem parse_mem_end (hwithin : Within step) {k p m : Nat} {r : β} (h : (p, r) ∈ (parse step k pos xs).1)
    (hstep : step (xs.drop (p-pos)) = some (some r, m)) : p+1+m+(parse step k pos xs).2.length ≤ pos+xs.length := by
  induction xs generalizing k pos with
  | nil => cases k <;> contradiction
  | cons a as ih =>
    have htail {l : Nat} (hmem : (p, r) ∈ (parse step l (pos+1) as).1) :
        p+1+m+(parse step l (pos+1) as).2.length ≤ pos+(as.length+1) := by
      obtain ⟨hle, -⟩ := parse_mem hmem
      rw [show p-pos = p-(pos+1)+1 by omega, List.drop_succ_cons] at hstep
      have hnext := ih hmem hstep
      omega
    cases k with
    | succ k => exact htail h
    | zero =>
      cases hfirst : step (a :: as) with
      | none =>
        rw [parse_none hfirst] at h
        contradiction
      | some v =>
        obtain ⟨e, n⟩ := v
        rw [parse_some hfirst] at h ⊢
        obtain hhead | hrest := List.mem_append.mp h
        · cases e with
          | none => contradiction
          | some e =>
            obtain ⟨rfl, rfl⟩ := Prod.mk.inj (List.mem_singleton.mp hhead)
            rw [Nat.sub_self, List.drop_zero, hfirst] at hstep
            obtain ⟨-, rfl⟩ := Prod.mk.inj (Option.some.inj hstep)
            have hlt := hwithin _ _ _ hfirst
            rw [List.length_cons] at hlt ⊢
            have hrest : (parse step n (p+1) as).2.length ≤ (as.drop n).length := by
              rw [parse_skip (Nat.le_of_lt_succ hlt)]
              exact (parse_rest 0).length_le
            rw [List.length_drop] at hrest
            dsimp only
            omega
        · exact htail hrest

/-- The results lie one behind the other. -/
theorem parse_apart (k : Nat) : (parse step k pos xs).1.Pairwise fun m m' =>
    ∀ n, step (xs.drop (m.1-pos)) = some (some m.2, n) → m.1+1+n ≤ m'.1 := by
  induction xs generalizing k pos with
  | nil => cases k <;> exact .nil
  | cons a as ih =>
    have htail (l : Nat) : (parse step l (pos+1) as).1.Pairwise fun m m' =>
        ∀ n, step ((a :: as).drop (m.1-pos)) = some (some m.2, n) → m.1+1+n ≤ m'.1 := by
      refine (ih l).imp_of_mem fun hm _ hapart n hstep => hapart n ?_
      have hle := (parse_mem hm).1
      rwa [show ∀ q, pos+1+l ≤ q → q-pos = q-(pos+1)+1 by omega, List.drop_succ_cons] at hstep
      exact hle
    cases k with
    | succ k => exact htail k
    | zero =>
      cases hfirst : step (a :: as) with
      | none =>
        rw [parse_none hfirst]
        exact .nil
      | some v =>
        obtain ⟨e, n⟩ := v
        rw [parse_some hfirst]
        cases e with
        | none => exact htail n
        | some e =>
          refine .cons (fun m hm n' hstep => ?_) (htail n)
          rw [Nat.sub_self, List.drop_zero, hfirst] at hstep
          obtain ⟨-, rfl⟩ := Prod.mk.inj (Option.some.inj hstep)
          exact (parse_mem hm).1

theorem parse_shift (o : Nat) (k : Nat) :
    parse step k (o+pos) xs =
      ((parse step k pos xs).1.map fun m => (o+m.1, m.2), (parse step k pos xs).2) := by
  induction xs generalizing k pos with
  | nil => cases k <;> rfl
  | cons a as ih =>
    cases k with
    | succ k =>
      rw [parse, parse, Nat.add_assoc]
      exact ih k
    | zero =>
      cases h : step (a :: as) with
      | none =>
        rw [parse_none h, parse_none h]
        rfl
      | some v =>
        obtain ⟨e, n⟩ := v
        rw [parse_some h, parse_some h, Nat.add_assoc, ih n, List.map_append]
        cases e <;> rfl

/-- Positions counted from the front. -/
theorem parse_zero (k : Nat) :
    parse step k pos xs = ((parse step k 0 xs).1.map fun m => (pos+m.1, m.2), (parse step k 0 xs).2) := by
  rw [← parse_shift, Nat.add_zero]

/-- Feeding the second piece behind what the first one left pending. -/
theorem parse_append (hwithin : Within step) (hstable : Stable step) {k : Nat} (hk : k ≤ xs.length) :
    parse step k pos (xs ++ ys) =
      ((parse step k pos xs).1 ++
          (parse step 0 (pos+(xs.length-(parse step k pos xs).2.length)) ((parse step k pos xs).2 ++ ys)).1,
        (parse step 0 (pos+(xs.length-(parse step k pos xs).2.length)) ((parse step k pos xs).2 ++ ys)).2) := by
  induction xs generalizing k pos with
  | nil =>
    obtain rfl : k = 0 := Nat.le_zero.mp hk
    rfl
  | cons a as ih =>
    have hlen (m : Nat) : (parse step m (pos+1) as).2.length ≤ as.length := (parse_rest m).length_le
    have hpos (m : Nat) : pos+1+(as.length-(parse step m (pos+1) as).2.length) =
        pos+((a :: as).length-(parse step m (pos+1) as).2.length) := by
      have := hlen m
      rw [List.length_cons]
      omega
    cases k with
    | succ k =>
      rw [List.cons_append, parse, parse, ih (Nat.le_of_succ_le_succ hk), hpos k]
    | zero =>
      cases h : step (a :: as) with
      | none => rw [parse_none h, Nat.sub_self, Nat.add_zero, List.nil_append]
      | some r =>
        obtain ⟨e, n⟩ := r
        have hn : n ≤ as.length := Nat.le_of_lt_succ (hwithin _ _ _ h)
        have hsome : step (a :: (as ++ ys)) = some (e, n) := hstable _ ys _ _ h
        rw [List.cons_append, parse_some h, parse_some hsome, ih hn, hpos n, List.append_assoc]

end OrbFirmware.Incremental

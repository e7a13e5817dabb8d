import Mathlib.Data.List.Perm.Basic
import Mathlib.Data.List.Nodup

/-! Memory handed out and taken back: traces of allocations, and the ledger of who holds what. Every
allocation has an id of its own, however often its block is handed out again. -/
namespace OrbFirmware.Allocation
variable {κ γ μ : Type*}

inductive Event (κ : Type*) where
  | alloc (block : κ) (id : Nat)
  | read (block : κ) (id : Nat)
  | free (block : κ) (id : Nat)
  | reset
  deriving DecidableEq, Repr

/-- The block is still that of the allocation: neither returned since nor swept away by a reset. -/
def Live (tr : List (Event κ)) (block : κ) (id : Nat) : Prop :=
  ∃ u v, tr = u ++ .alloc block id :: v ∧ ∀ e ∈ v, e ≠ .reset ∧ ∀ id', e ≠ .free block id'

def ReadsLive (tr : List (Event κ)) : Prop :=
  ∀ u v block id, tr = u ++ .read block id :: v → Live u block id

def FreesLive (tr : List (Event κ)) : Prop :=
  ∀ u v block id, tr = u ++ .free block id :: v → Live u block id

def Event.returns (id : Nat) : Event κ → Bool
  | .free _ id' => id' == id
  | _ => false

def ReturnedOnce (tr : List (Event κ)) : Prop := ∀ id, tr.countP (Event.returns id) ≤ 1

/-- What is held, each block by one holder, with the trace that led there. -/
structure Ledger (tr : List (Event κ)) (held : List (κ × Nat)) (next : Nat) : Prop where
  live : ∀ x ∈ held, Live tr x.1 x.2
  fresh : ∀ x ∈ held, x.2 < next
  past : ∀ block id, .free block id ∈ tr → id < next
  unreturned : ∀ x ∈ held, ∀ block, .free block x.2 ∉ tr
  blocks : (held.map Prod.fst).Nodup
  ids : (held.map Prod.snd).Nodup
  reads : ReadsLive tr
  frees : FreesLive tr
  once : ReturnedOnce tr

variable {tr : List (Event κ)} {held held' : List (κ × Nat)} {next id : Nat} {block : κ}

theorem Live.append {w : List (Event κ)} (h : Live tr block id)
    (hw : ∀ e ∈ w, e ≠ .reset ∧ ∀ id', e ≠ .free block id') : Live (tr ++ w) block id := by
  obtain ⟨u, v, rfl, hv⟩ := h
  refine ⟨u, v ++ w, by simp, fun e he => ?_⟩
  cases List.mem_append.mp he with
  | inl hin => exact hv e hin
  | inr hin => exact hw e hin

/-- What was held when a reset struck is not live afterwards. -/
theorem Live.alloc_after_reset {u w : List (Event κ)} (h : Live (u ++ .reset :: w) block id) :
    .alloc block id ∈ w := by
  obtain ⟨u', v, heq, hv⟩ := h
  cases List.append_eq_append_iff.mp heq with
  | inl hafter =>
    obtain ⟨a, -, ha⟩ := hafter
    cases a with
    | nil => simp at ha
    | cons e a =>
      rw [(List.cons.inj ha).2]
      exact List.mem_append_right _ List.mem_cons_self
  | inr hbefore =>
    obtain ⟨c, -, hc⟩ := hbefore
    cases c with
    | nil => simp at hc
    | cons e c =>
      rw [(List.cons.inj hc).2] at hv
      exact absurd rfl (hv .reset (List.mem_append_right _ List.mem_cons_self)).1

/-- An event that does not appear in front of the last one. -/
theorem append_singleton_split {ε : Type*} {tr u v : List ε} {e e' : ε} (h : tr ++ [e] = u ++ e' :: v) :
    (∃ v', tr = u ++ e' :: v') ∨ tr = u ∧ e = e' := by
  cases List.eq_nil_or_concat v with
  | inl hnil =>
    rw [hnil] at h
    obtain ⟨htr, he⟩ := List.append_inj' h rfl
    exact .inr ⟨htr, List.head_eq_of_cons_eq he⟩
  | inr hlast =>
    obtain ⟨v', x, rfl⟩ := hlast
    have hsplit : tr ++ [e] = (u ++ e' :: v') ++ [x] := by simpa using h
    exact .inl ⟨v', (List.append_inj' hsplit rfl).1⟩

theorem ReadsLive.append {e : Event κ} (h : ReadsLive tr) (he : ∀ block id, e = .read block id → Live tr block id) :
    ReadsLive (tr ++ [e]) := by
  intro u v block id hsplit
  cases append_singleton_split hsplit with
  | inl hold =>
    obtain ⟨v', hv⟩ := hold
    exact h u v' block id hv
  | inr hnew =>
    obtain ⟨rfl, heq⟩ := hnew
    exact he block id heq

theorem FreesLive.append {e : Event κ} (h : FreesLive tr) (he : ∀ block id, e = .free block id → Live tr block id) :
    FreesLive (tr ++ [e]) := by
  intro u v block id hsplit
  cases append_singleton_split hsplit with
  | inl hold =>
    obtain ⟨v', hv⟩ := hold
    exact h u v' block id hv
  | inr hnew =>
    obtain ⟨rfl, heq⟩ := hnew
    exact he block id heq

theorem ReturnedOnce.append {e : Event κ} (h : ReturnedOnce tr)
    (he : ∀ id, e.returns id = true → ∀ block, .free block id ∉ tr) : ReturnedOnce (tr ++ [e]) := by
  intro id
  rw [List.countP_append, List.countP_singleton]
  by_cases hret : e.returns id = true
  · have hnone : tr.countP (Event.returns id) = 0 := by
      rw [List.countP_eq_zero]
      intro e' hin hret'
      cases e' with
      | free block id' =>
        have hid : id' = id := by simpa [Event.returns] using hret'
        exact he id hret block (hid ▸ hin)
      | alloc | read | reset => simp [Event.returns] at hret'
    simp [hnone, hret]
  · rw [if_neg hret]
    exact h id

theorem ledger_empty : Ledger ([] : List (Event κ)) [] 0 := by
  constructor <;> simp [ReadsLive, FreesLive, ReturnedOnce]

namespace Ledger

theorem perm (h : Ledger tr held next) (hp : held.Perm held') : Ledger tr held' next :=
  ⟨fun x hx => h.live x (hp.mem_iff.mpr hx), fun x hx => h.fresh x (hp.mem_iff.mpr hx), h.past,
    fun x hx => h.unreturned x (hp.mem_iff.mpr hx), (hp.map _).nodup_iff.mp h.blocks,
    (hp.map _).nodup_iff.mp h.ids, h.reads, h.frees, h.once⟩

theorem alloc (h : Ledger tr held next) (hb : block ∉ held.map Prod.fst) :
    Ledger (tr ++ [.alloc block next]) ((block, next) :: held) (next+1) := by
  refine ⟨fun x hx => ?_, fun x hx => ?_, fun b id hin => ?_, fun x hx b hin => ?_, ?_, ?_, ?_, ?_, ?_⟩
  · cases List.mem_cons.mp hx with
    | inl heq => exact ⟨tr, [], by rw [heq], by simp⟩
    | inr hold => exact (h.live x hold).append (by simp)
  · cases List.mem_cons.mp hx with
    | inl heq =>
      rw [heq]
      exact Nat.lt_succ_self next
    | inr hold => exact Nat.lt_succ_of_lt (h.fresh x hold)
  · exact Nat.lt_succ_of_lt (h.past b id (by simpa using hin))
  · have hfree : Event.free b x.2 ∈ tr := by simpa using hin
    cases List.mem_cons.mp hx with
    | inl heq =>
      have hlt := h.past b x.2 hfree
      rw [heq] at hlt
      exact absurd hlt (Nat.lt_irrefl next)
    | inr hold => exact h.unreturned x hold b hfree
  · rw [List.map_cons, List.nodup_cons]
    exact ⟨hb, h.blocks⟩
  · rw [List.map_cons, List.nodup_cons]
    refine ⟨fun hin => ?_, h.ids⟩
    obtain ⟨x, hx, hid⟩ := List.mem_map.mp hin
    have hlt := h.fresh x hx
    rw [hid] at hlt
    exact absurd hlt (Nat.lt_irrefl next)
  · exact h.reads.append (by simp)
  · exact h.frees.append (by simp)
  · exact h.once.append (by simp [Event.returns])

theorem read (h : Ledger tr held next) (hx : (block, id) ∈ held) : Ledger (tr ++ [.read block id]) held next :=
  ⟨fun x hx => (h.live x hx).append (by simp), h.fresh, fun b id hin => h.past b id (by simpa using hin),
    fun x hx b hin => h.unreturned x hx b (by simpa using hin), h.blocks, h.ids,
    h.reads.append (by
      intro b id heq
      cases heq
      exact h.live _ hx),
    h.frees.append (by simp), h.once.append (by simp [Event.returns])⟩

theorem free (h : Ledger tr ((block, id) :: held) next) : Ledger (tr ++ [.free block id]) held next := by
  have hblocks := h.blocks
  have hids := h.ids
  rw [List.map_cons, List.nodup_cons] at hblocks hids
  have hmem (x : κ × Nat) (hx : x ∈ held) := h.live x (List.mem_cons_of_mem _ hx)
  refine ⟨fun x hx => (hmem x hx).append ?_, fun x hx => h.fresh x (List.mem_cons_of_mem _ hx), fun b id' hin => ?_,
    fun x hx b hin => ?_, hblocks.2, hids.2, h.reads.append (by simp), h.frees.append ?_, h.once.append ?_⟩
  · intro e he
    rw [List.mem_singleton.mp he]
    refine ⟨by simp, fun id' heq => ?_⟩
    have hb : block = x.1 := (Event.free.inj heq).1
    rw [hb] at hblocks
    exact hblocks.1 (List.mem_map.mpr ⟨x, hx, rfl⟩)
  · cases List.mem_append.mp hin with
    | inl hold => exact h.past b id' hold
    | inr hnew =>
      cases List.mem_singleton.mp hnew
      exact h.fresh _ List.mem_cons_self
  · cases List.mem_append.mp hin with
    | inl hold => exact h.unreturned x (List.mem_cons_of_mem _ hx) b hold
    | inr hnew =>
      have hid : x.2 = id := (Event.free.inj (List.mem_singleton.mp hnew)).2
      rw [← hid] at hids
      exact hids.1 (List.mem_map.mpr ⟨x, hx, rfl⟩)
  · intro b id' heq
    cases heq
    exact h.live _ List.mem_cons_self
  · intro id' hret b
    have hid : id = id' := by simpa [Event.returns] using hret
    rw [← hid]
    exact h.unreturned _ List.mem_cons_self b

/-- A reset takes everything back; whoever still held something must not use it any more. -/
theorem reset (h : Ledger tr held next) : Ledger (tr ++ [.reset]) [] next :=
  ⟨by simp, by simp, fun b id hin => h.past b id (by simpa using hin), by simp, by simp, by simp,
    h.reads.append (by simp), h.frees.append (by simp), h.once.append (by simp [Event.returns])⟩

end Ledger

/-! Concurrent calls, each at a point of its own that may hold something. -/

theorem filterMap_set_perm {f : γ → Option μ} {calls : List γ} {k : Nat} {c : γ} (h : calls[k]? = some c)
    (c' : γ) :
    ((f c).toList ++ (calls.set k c').filterMap f).Perm ((f c').toList ++ calls.filterMap f) := by
  induction calls generalizing k with
  | nil => simp at h
  | cons a calls ih =>
    cases k with
    | zero =>
      have ha : a = c := by simpa using h
      subst ha
      simp only [List.set_cons_zero, List.filterMap_cons]
      cases f a <;> cases f c' <;> simp [List.Perm.swap]
    | succ k =>
      have hk := ih (k := k) (by simpa using h)
      simp only [List.set_cons_succ, List.filterMap_cons]
      cases f a with
      | none => exact hk
      | some x =>
        simp only
        exact List.perm_middle.trans ((hk.cons x).trans List.perm_middle.symm)

end OrbFirmware.Allocation

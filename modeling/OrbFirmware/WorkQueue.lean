import Mathlib.Data.List.Nodup

/-! Work queues: an item is queued at most once, and one handler runs at a time. -/
namespace OrbFirmware
variable {ι β : Type*}

/-- The items that are queued, in their order, and the one whose handler runs. -/
structure WorkQueue (ι : Type*) where
  pending : List ι
  running : Option ι
  nodup : pending.Nodup

namespace WorkQueue

def empty : WorkQueue ι := ⟨[], none, List.nodup_nil⟩

/-- The thread of the queue goes to its next item. -/
def take (q : WorkQueue ι) : WorkQueue ι :=
  match q with
  | ⟨item :: pending, none, nodup⟩ => ⟨pending, some item, nodup.of_cons⟩
  | q => q

def finish (q : WorkQueue ι) : WorkQueue ι := { q with running := none }

def Drained (q : WorkQueue ι) : Prop := q.running.isNone ∧ q.pending.isEmpty

instance (q : WorkQueue ι) : Decidable q.Drained := inferInstanceAs (Decidable (_ ∧ _))

/-- The items in the order in which their handlers end. -/
def items (q : WorkQueue ι) : List ι := q.running.toList ++ q.pending

theorem items_take (q : WorkQueue ι) : q.take.items = q.items := by
  obtain ⟨pending, running, nodup⟩ := q
  cases pending <;> cases running <;> rfl

theorem items_finish (q : WorkQueue ι) : q.items = q.running.toList ++ q.finish.items := rfl

theorem items_drained {q : WorkQueue ι} (h : q.Drained) : q.items = [] := by
  rw [items, Option.isNone_iff_eq_none.mp h.1, List.isEmpty_iff.mp h.2]
  rfl

variable [DecidableEq ι]

/-- An item that is queued already stays where it is; one whose handler runs is queued again. -/
def submit (q : WorkQueue ι) (item : ι) : WorkQueue ι :=
  if h : item ∈ q.pending then q
  else { q with pending := q.pending ++ [item], nodup := q.nodup.append (List.nodup_singleton item) (by simpa using h) }

def cancel (q : WorkQueue ι) (item : ι) : WorkQueue ι :=
  { q with pending := q.pending.erase item, nodup := q.nodup.erase item }

variable {q : WorkQueue ι} {item : ι}

theorem submit_of_mem (h : item ∈ q.pending) : q.submit item = q := dif_pos h

theorem items_submit (h : item ∉ q.pending) : (q.submit item).items = q.items ++ [item] := by
  simp only [submit, items, dif_neg h, List.append_assoc]

/-! What a function gives of the items, where it gives nothing of the one submitted or cancelled. -/

theorem filterMap_submit {f : ι → Option β} (h : f item = none) :
    (q.submit item).items.filterMap f = q.items.filterMap f := by
  by_cases hmem : item ∈ q.pending
  · rw [submit_of_mem hmem]
  · rw [items_submit hmem, List.filterMap_append, List.filterMap_cons_none h, List.filterMap_nil, List.append_nil]

theorem filterMap_cancel {f : ι → Option β} (h : f item = none) :
    (q.cancel item).items.filterMap f = q.items.filterMap f := by
  have herase : (q.pending.erase item).filterMap f = q.pending.filterMap f := by
    induction q.pending with
    | nil => rfl
    | cons other rest ih =>
      by_cases heq : other = item
      · rw [heq, List.erase_cons_head, List.filterMap_cons_none h]
      · rw [List.erase_cons_tail (by simpa using heq), List.filterMap_cons, List.filterMap_cons, ih]
  simp only [cancel, items, List.filterMap_append, herase]

end WorkQueue
end OrbFirmware

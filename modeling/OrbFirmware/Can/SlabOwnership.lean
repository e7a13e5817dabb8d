import OrbFirmware.Can.Tx

/-! Who holds which slab block: as long as no reset strikes while a block is held outside the queue,
every block is held once or free. -/
namespace OrbFirmware.Can
open Allocation

/-- A reset strikes only while neither the thread nor a call holds a block. -/
def ResetClear (s : CanTx) : TxAction → Prop
  | .reset => s.thread.message = none ∧ s.calls.filterMap TxCall.message = []
  | _ => True

instance (s : CanTx) (a : TxAction) : Decidable (ResetClear s a) :=
  match a with
  | .reset => inferInstanceAs (Decidable (_ ∧ _))
  | .call _ _ | .getState _ _ | .slabAlloc _ | .slabTimeout _ | .copy _ | .put _ | .putFails _ | .callFree _
  | .semTake | .semTimeout | .getMsg | .send _ | .threadFree | .semGive | .txComplete _ | .createThread =>
    isTrue trivial

/-- The allocation that a message's block comes from. -/
def CanMessage.holding (m : CanMessage) : Nat × Nat := (m.bytes, m.allocation)

def slabBlocks (n : Nat) (s : CanTx) : List Nat := if s.isInit then List.range n else []

/-- Free blocks and blocks of messages together are the slab. -/
structure SlabInv (n : Nat) (tr : List (Event Nat)) (s : CanTx) : Prop where
  ledger : Ledger tr (s.messages.map CanMessage.holding) s.allocations
  conserved : (s.freeBlocks ++ s.messages.map CanMessage.bytes).Perm (slabBlocks n s)

variable {n k : Nat} {tr : List (Event Nat)} {s s' : CanTx} {call : TxCall} {m : CanMessage}

theorem map_holding_fst (l : List CanMessage) :
    (l.map CanMessage.holding).map Prod.fst = l.map CanMessage.bytes := by
  rw [List.map_map]
  rfl

theorem slabInv_boot (n : Nat) : SlabInv n [] canTxBoot := ⟨ledger_empty, .nil⟩

namespace SlabInv

theorem nodup (h : SlabInv n tr s) : (s.freeBlocks ++ s.messages.map CanMessage.bytes).Nodup := by
  rw [h.conserved.nodup_iff, slabBlocks]
  split
  · exact List.nodup_range
  · exact List.nodup_nil

/-- A step that hands messages on. -/
theorem moved (h : SlabInv n tr s) (hm : s.messages.Perm s'.messages) (hfree : s'.freeBlocks = s.freeBlocks)
    (hinit : s'.isInit = s.isInit) (halloc : s'.allocations = s.allocations) : SlabInv n (tr ++ []) s' := by
  rw [List.append_nil]
  refine ⟨?_, ?_⟩
  · rw [halloc]
    exact h.ledger.perm (hm.map _)
  · rw [hfree, slabBlocks, hinit]
    exact (List.Perm.append_left _ (hm.symm.map _)).trans h.conserved

theorem alloc {block : Nat} {rest : List Nat} (h : SlabInv n tr s) (hfree : s.freeBlocks = block :: rest)
    (hm : s'.messages.Perm (m :: s.messages)) (hblock : m.holding = (block, s.allocations))
    (hfree' : s'.freeBlocks = rest) (hinit : s'.isInit = s.isInit) (halloc : s'.allocations = s.allocations+1) :
    SlabInv n (tr ++ [.alloc block s.allocations]) s' := by
  have hbytes : m.bytes = block := congrArg Prod.fst hblock
  have hnew : block ∉ (s.messages.map CanMessage.holding).map Prod.fst := by
    have hnodup := h.nodup
    rw [hfree, List.cons_append, List.nodup_cons] at hnodup
    rw [map_holding_fst]
    exact fun hin => hnodup.1 (List.mem_append_right _ hin)
  refine ⟨?_, ?_⟩
  · rw [halloc]
    refine (h.ledger.alloc hnew).perm ?_
    have hmap := (hm.map CanMessage.holding).symm
    rwa [List.map_cons, hblock] at hmap
  · have hc := h.conserved
    rw [hfree, List.cons_append] at hc
    have hmap := hm.map CanMessage.bytes
    rw [List.map_cons, hbytes] at hmap
    rw [hfree', slabBlocks, hinit]
    exact ((List.Perm.append_left rest hmap).trans List.perm_middle).trans hc

theorem free (h : SlabInv n tr s) (hm : s.messages.Perm (m :: s'.messages))
    (hfree : s'.freeBlocks = m.bytes :: s.freeBlocks) (hinit : s'.isInit = s.isInit)
    (halloc : s'.allocations = s.allocations) : SlabInv n (tr ++ [.free m.bytes m.allocation]) s' := by
  refine ⟨?_, ?_⟩
  · rw [halloc]
    exact (h.ledger.perm (hm.map CanMessage.holding)).free
  · have hmap := hm.map CanMessage.bytes
    rw [List.map_cons] at hmap
    rw [hfree, slabBlocks, hinit, List.cons_append]
    exact (List.perm_middle.symm.trans (List.Perm.append_left _ hmap.symm)).trans h.conserved

theorem read (h : SlabInv n tr s) (hin : m ∈ s.messages) (hm : s.messages.Perm s'.messages)
    (hfree : s'.freeBlocks = s.freeBlocks) (hinit : s'.isInit = s.isInit)
    (halloc : s'.allocations = s.allocations) : SlabInv n (tr ++ [.read m.bytes m.allocation]) s' := by
  have hmoved := h.moved hm hfree hinit halloc
  rw [List.append_nil] at hmoved
  refine ⟨hmoved.ledger.read ?_, hmoved.conserved⟩
  exact List.mem_map.mpr ⟨m, hm.mem_iff.mp hin, rfl⟩

/-- A reset takes back the blocks of the queue; nobody else holds one. -/
theorem reset (h : SlabInv n tr s) (hclear : ResetClear s .reset) :
    SlabInv n (tr ++ (resetStep n s).1) (resetStep n s).2 := by
  obtain ⟨hthread, hcalls⟩ := hclear
  rw [resetStep]
  split
  · exact h.moved (.refl _) rfl rfl rfl
  · have hmessage : (if s.thread = .waitMsg then TxThread.semGive else s.thread).message = none := by
      split
      · rfl
      · exact hthread
    refine ⟨?_, ?_⟩
    · simp only [CanTx.messages, hmessage, hcalls, Option.toList_none, List.append_nil, List.map_nil]
      exact h.ledger.reset
    · simp only [CanTx.messages, hmessage, hcalls, Option.toList_none, List.append_nil, List.map_nil, slabBlocks,
        if_true]
      exact List.reverse_perm _

end SlabInv

/-! Where the messages are, counted. -/

theorem messages_count (s : CanTx) (x : CanMessage) :
    s.messages.count x = s.queue.count x+s.thread.message.toList.count x+
      (s.calls.filterMap TxCall.message).count x := by
  rw [CanTx.messages, List.count_append, List.count_append, Nat.add_assoc]

theorem calls_count (hk : s.calls[k]? = some call) (call' : TxCall) (x : CanMessage) :
    call.message.toList.count x+((s.calls.set k call').filterMap TxCall.message).count x =
      call'.message.toList.count x+(s.calls.filterMap TxCall.message).count x := by
  have hset := (filterMap_set_perm (f := TxCall.message) hk call').count_eq x
  rwa [List.count_append, List.count_append] at hset

theorem setCall_messages {call' : TxCall} (hk : s.calls[k]? = some call) (hm : call'.message = call.message) :
    s.messages.Perm (s.setCall k call').messages := by
  rw [List.perm_iff_count]
  intro x
  have hset := calls_count hk call' x
  rw [hm] at hset
  rw [messages_count, messages_count]
  simp only [CanTx.setCall]
  omega

namespace SlabInv

theorem setCall {call' : TxCall} (h : SlabInv n tr s) (hk : s.calls[k]? = some call)
    (hm : call'.message = call.message) : SlabInv n (tr ++ []) (s.setCall k call') :=
  h.moved (setCall_messages hk hm) rfl rfl rfl

/-- The put of a message, to the waiting thread or to the queue. -/
theorem put (h : SlabInv n tr s) (hk : s.calls[k]? = some (.put m)) :
    SlabInv n (tr ++ (callStep n s k (.put k) (.put m)).1) (callStep n s k (.put k) (.put m)).2 := by
  have hcount (x : CanMessage) := calls_count hk (.done .success) x
  simp only [TxCall.message, Option.toList_some, Option.toList_none, List.count_nil] at hcount
  simp only [callStep]
  split
  · rename_i hwait
    refine h.moved ?_ rfl rfl rfl
    rw [List.perm_iff_count]
    intro x
    have hx := hcount x
    simp only [messages_count, hwait, TxThread.message, Option.toList_some, Option.toList_none, List.count_nil]
    omega
  · split
    · refine h.moved ?_ rfl rfl rfl
      rw [List.perm_iff_count]
      intro x
      have hx := hcount x
      simp only [messages_count, List.count_append]
      omega
    · exact h.moved (.refl _) rfl rfl rfl

theorem slabAlloc {destination : Nat} {data : List UInt8} (h : SlabInv n tr s)
    (hk : s.calls[k]? = some (.slabAlloc destination data)) :
    SlabInv n (tr ++ (callStep n s k (.slabAlloc k) (.slabAlloc destination data)).1)
      (callStep n s k (.slabAlloc k) (.slabAlloc destination data)).2 := by
  simp only [callStep]
  cases hfree : s.freeBlocks with
  | nil => exact h.moved (.refl _) rfl rfl rfl
  | cons block rest =>
    refine h.alloc (m := ⟨destination, block, data.length, s.allocations⟩) hfree ?_ rfl rfl rfl rfl
    rw [List.perm_iff_count]
    intro x
    have hx := calls_count hk (.copy ⟨destination, block, data.length, s.allocations⟩ data) x
    simp only [TxCall.message, Option.toList_some, Option.toList_none, List.count_nil] at hx
    rw [messages_count, List.count_cons, ← List.count_singleton, messages_count]
    simp only
    omega

theorem callFree (h : SlabInv n tr s) (hk : s.calls[k]? = some (.slabFree m)) :
    SlabInv n (tr ++ (callStep n s k (.callFree k) (.slabFree m)).1) (callStep n s k (.callFree k) (.slabFree m)).2 := by
  simp only [callStep]
  refine h.free ?_ rfl rfl rfl
  rw [List.perm_iff_count]
  intro x
  have hx := calls_count hk (.done .busy) x
  simp only [TxCall.message, Option.toList_some, Option.toList_none, List.count_nil] at hx
  rw [messages_count, List.count_cons, ← List.count_singleton, messages_count]
  simp only
  omega

theorem callStep (h : SlabInv n tr s) (a : TxAction) (hk : s.calls[k]? = some call) :
    SlabInv n (tr ++ (callStep n s k a call).1) (callStep n s k a call).2 := by
  unfold Can.callStep
  split
  · rename_i off destination data
    split
    · exact h.setCall hk rfl
    · split <;> exact h.setCall hk rfl
  · exact h.slabAlloc hk
  · exact h.setCall hk rfl
  · exact h.moved (setCall_messages hk rfl) rfl rfl rfl
  · exact h.put hk
  · exact h.setCall hk rfl
  · exact h.callFree hk
  · exact h.moved (.refl _) rfl rfl rfl

/-- A step of the thread that hands the message on or touches none. -/
theorem threadMoved (h : SlabInv n tr s) (hqueue : ∀ x, s.queue.count x+s.thread.message.toList.count x =
      s'.queue.count x+s'.thread.message.toList.count x) (hcalls : s'.calls = s.calls)
    (hfree : s'.freeBlocks = s.freeBlocks) (hinit : s'.isInit = s.isInit)
    (halloc : s'.allocations = s.allocations) : SlabInv n (tr ++ []) s' := by
  refine h.moved ?_ hfree hinit halloc
  rw [List.perm_iff_count]
  intro x
  rw [messages_count, messages_count, hcalls, hqueue]

theorem threadStep (h : SlabInv n tr s) (a : TxAction) :
    SlabInv n (tr ++ (threadStep s a s.thread).1) (threadStep s a s.thread).2 := by
  unfold Can.threadStep
  split
  · rename_i hthread
    split
    · exact h.threadMoved (fun x => by rw [hthread]; rfl) rfl rfl rfl rfl
    · exact h.moved (.refl _) rfl rfl rfl
  · rename_i hthread
    split
    · exact h.moved (.refl _) rfl rfl rfl
    · exact h.threadMoved (fun x => by rw [hthread]; rfl) rfl rfl rfl rfl
  · rename_i hthread
    split
    · exact h.threadMoved (fun x => by rw [hthread]; rfl) rfl rfl rfl rfl
    · rename_i new queue hqueue
      refine h.threadMoved (fun x => ?_) rfl rfl rfl rfl
      rw [hthread, hqueue]
      simp [TxThread.message, List.count_cons]
  · rename_i sent new hthread
    refine h.read ?_ ?_ rfl rfl rfl
    · rw [CanTx.messages, hthread]
      simp [TxThread.message]
    · rw [CanTx.messages, CanTx.messages, hthread]
      rfl
  · rename_i new sent hthread
    refine h.free ?_ rfl rfl rfl
    rw [List.perm_iff_count]
    intro x
    have hnone : (if sent = true then TxThread.semTake else TxThread.semGive).message = none := by
      split <;> rfl
    rw [messages_count, hthread, List.count_cons, ← List.count_singleton, messages_count, hnone]
    simp only [TxThread.message, Option.toList_some, Option.toList_none, List.count_nil]
    omega
  · rename_i hthread
    exact h.threadMoved (fun x => by rw [hthread]; rfl) rfl rfl rfl rfl
  · exact h.moved (.refl _) rfl rfl rfl

theorem step (h : SlabInv n tr s) (a : TxAction) (hclear : ResetClear s a) :
    SlabInv n (tr ++ (canTxStep n s a).1) (canTxStep n s a).2 := by
  cases a with
  | call destination data =>
    simp only [canTxStep]
    generalize hcall : (if s.isInit then TxCall.getState destination data else .done .invalidState) = call
    have hnone : call.message = none := by
      rw [← hcall]
      split <;> rfl
    refine h.moved ?_ rfl rfl rfl
    simp only [CanTx.messages, List.filterMap_append, List.filterMap_cons, hnone, List.filterMap_nil,
      List.append_nil]
    exact .refl _
  | getState k off | slabAlloc k | slabTimeout k | copy k | put k | putFails k | callFree k =>
    simp only [canTxStep]
    split
    · rename_i hk
      exact h.callStep _ hk
    · exact h.moved (.refl _) rfl rfl rfl
  | semTake | semTimeout | getMsg | send sent | threadFree | semGive => exact h.threadStep _
  | txComplete k =>
    simp only [canTxStep]
    split <;> exact h.moved (.refl _) rfl rfl rfl
  | createThread =>
    simp only [canTxStep]
    split
    · rename_i hthread
      exact h.threadMoved (fun x => by rw [hthread]; rfl) rfl rfl rfl rfl
    · exact h.moved (.refl _) rfl rfl rfl
  | reset => exact h.reset hclear

end SlabInv

/-- Ownership of the slab's blocks over every interleaving of calls, thread, completions and resets in
which no reset strikes while a block is held outside the queue. -/
theorem slab_blocks_owned (n : Nat) (acts : List TxAction)
    (hclear : Machine.Meets (canTxStep n) ResetClear canTxBoot acts) :
    let tr := Machine.events (canTxStep n) canTxBoot acts
    let s := (Machine.run (canTxStep n) canTxBoot acts).2
    (s.messages.map CanMessage.bytes).Nodup ∧ ReturnedOnce tr ∧ FreesLive tr ∧ ReadsLive tr := by
  intro tr s
  have hinv : SlabInv n ([] ++ tr) s :=
    Machine.events_invariant (fun _ _ a h ha => h.step a ha) [] canTxBoot acts (slabInv_boot n) hclear
  exact ⟨(List.nodup_append.mp hinv.nodup).2.1, hinv.ledger.once, hinv.ledger.frees, hinv.ledger.reads⟩

theorem slab_blocks_owned_two_messages :
    let s := (Machine.run (canTxStep 2) canTxBoot [.createThread, .reset, .call 7 [1], .call 8 [2, 3],
      .getState 0 false, .getState 1 false, .slabAlloc 0, .slabAlloc 1, .copy 1, .copy 0, .put 1, .put 0,
      .semTake, .getMsg, .send true, .threadFree, .txComplete 0, .semTake, .getMsg]).2
    (s.messages.map CanMessage.bytes).Nodup :=
  (slab_blocks_owned 2 [.createThread, .reset, .call 7 [1], .call 8 [2, 3], .getState 0 false, .getState 1 false,
    .slabAlloc 0, .slabAlloc 1, .copy 1, .copy 0, .put 1, .put 0, .semTake, .getMsg, .send true, .threadFree,
    .txComplete 0, .semTake, .getMsg] (by decide)).1

/-- A reset between `k_msgq_get` and `send`: the thread reads a block that the slab has taken back, and a
new message is queued in the same block. -/
theorem reset_with_message_dequeued :
    let acts : List TxAction := [.createThread, .reset, .call 7 [1], .getState 0 false, .slabAlloc 0, .copy 0,
      .put 0, .semTake, .getMsg, .reset, .call 8 [2], .getState 1 false, .slabAlloc 1, .copy 1, .put 1]
    let s := (Machine.run (canTxStep 1) canTxBoot acts).2
    let tr := Machine.events (canTxStep 1) canTxBoot (acts ++ [.send true])
    ¬ (s.messages.map CanMessage.bytes).Nodup ∧ ¬ ReadsLive tr := by
  intro acts s tr
  have htr : tr = [.reset, .alloc 0 0, .reset, .alloc 0 1] ++ .read 0 0 :: [] := by decide
  have hsplit : [.reset, .alloc 0 0, .reset, .alloc 0 1] = [Event.reset, .alloc 0 0] ++ .reset :: [.alloc 0 1] := rfl
  refine ⟨by decide, fun hreads => ?_⟩
  have hlive := hreads _ _ _ _ htr
  rw [hsplit] at hlive
  have hafter := hlive.alloc_after_reset
  simp at hafter

end OrbFirmware.Can

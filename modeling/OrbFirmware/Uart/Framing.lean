import Mathlib.Data.List.Induction
import Mathlib.Data.List.Infix
import OrbFirmware.Machine
import OrbFirmware.Uart.Frames

/-! Messages come out of the ring as they do out of the whole stream, however it is cut into chunks, unless a
chunk ends right behind a message without a byte. -/
namespace OrbFirmware.Uart
open Incremental
variable {b : RxBuf} {o : Nat} {x c : List UInt8} {s : Receiver} {chunks : List (List UInt8)}

/-- Positions and lengths of the messages in a stream. -/
def reference (x : List UInt8) : List (Nat × Nat) := (parse referenceStep 0 0 x).1

/-- The bytes that wait for the rest of their message. -/
def pending (x : List UInt8) : List UInt8 := (parse referenceStep 0 0 x).2

/-- What the callback emits over all chunks. -/
def emitted (b : RxBuf) (o : Nat) (chunks : List (List UInt8)) : List Emitted :=
  Machine.events (receive b) (Receiver.initial o) chunks

/-- The messages of a stream whose first byte went to ring position `o`. -/
def framed (b : RxBuf) (o : Nat) (x : List UInt8) : List UartMessage :=
  (reference x).map fun m => place b (o+m.1, m.2)

/-- The pending bytes and a chunk are never more than the ring holds. -/
def Fits (b : RxBuf) (chunks : List (List UInt8)) : Prop :=
  ∀ cs c, cs ++ [c] <+: chunks → (pending cs.flatten).length+c.length ≤ b.size

/-- Nor do they fill it: with equal indices the ring counts as empty. -/
def NeverFull (b : RxBuf) (chunks : List (List UInt8)) : Prop :=
  ∀ cs c, cs ++ [c] <+: chunks → (pending cs.flatten).length+c.length ≠ b.size

/-- The last thing in the stream is a message without a byte. -/
def EndsEmpty (x : List UInt8) : Prop := ∃ p, (p, 0) ∈ reference x ∧ p+headerSize = x.length

/-! The two parsers. -/

theorem parse_window {k pos : Nat} {u : List UInt8} (hk : k ≤ u.length) :
    (parse windowStep k pos u = parse referenceStep k pos u ∧
        ∀ p, (p, 0) ∈ (parse referenceStep k pos u).1 → p+headerSize ≠ pos+u.length) ∨
      ∃ p, (parse referenceStep k pos u).1 = (parse windowStep k pos u).1 ++ [(p, 0)] ∧
        p+headerSize = pos+u.length := by
  induction u generalizing k pos with
  | nil =>
    obtain rfl : k = 0 := Nat.le_zero.mp hk
    exact .inl ⟨rfl, fun p hp => by contradiction⟩
  | cons a as ih =>
    have hlen : pos+(a :: as).length = pos+1+as.length := by
      rw [List.length_cons]
      omega
    rw [hlen]
    cases k with
    | succ k => exact ih (Nat.le_of_succ_le_succ hk)
    | zero =>
      by_cases hempty : (a :: as).length = headerSize ∧ header (a :: as) = some 0
      · have hthree : as.length = 3 := Nat.succ.inj hempty.1
        have hreference : referenceStep (a :: as) = some (some 0, 3) := by
          rw [referenceStep_frame hempty.2, if_pos (Nat.zero_add headerSize ▸ hempty.1.ge)]
        have hwindow : windowStep (a :: as) = some (none, 0) := if_pos hempty
        have hshort : parse windowStep 0 (pos+1) as = ([], as) := by
          cases as with
          | nil => contradiction
          | cons a' as =>
            refine parse_none ?_
            have hlt : (a' :: as).length < headerSize := hthree ▸ Nat.lt_succ_self 3
            rw [windowStep, if_neg (fun hfour => hlt.ne hfour.1), referenceStep_short hlt]
        have hdrop : as.drop 3 = [] := List.drop_eq_nil_of_le hthree.le
        refine .inr ⟨pos, ?_, by rw [hthree]; rfl⟩
        rw [parse_some hreference, parse_some hwindow, hshort, parse_skip hthree.ge, hdrop]
        rfl
      · have hsame : windowStep (a :: as) = referenceStep (a :: as) := if_neg hempty
        cases hstep : referenceStep (a :: as) with
        | none =>
          rw [hstep] at hsame
          rw [parse_none hstep, parse_none hsame]
          exact .inl ⟨rfl, fun p hp => by contradiction⟩
        | some r =>
          obtain ⟨e, n⟩ := r
          rw [hstep] at hsame
          rw [parse_some hstep, parse_some hsame]
          obtain ⟨heq, hno⟩ | ⟨p, hlast, hp⟩ := @ih n (pos+1) (Nat.le_of_lt_succ (referenceStep_within _ _ _ hstep))
          · refine .inl ⟨by rw [heq], fun p hp => ?_⟩
            obtain hhead | hrest := List.mem_append.mp hp
            · cases e with
              | none => contradiction
              | some l =>
                obtain ⟨rfl, rfl⟩ := Prod.mk.inj (List.mem_singleton.mp hhead)
                intro hend
                obtain ⟨-, -, he, -⟩ | ⟨l, hheader, -, he, -⟩ := referenceStep_some hstep
                · contradiction
                · obtain rfl := Option.some.inj he
                  exact hempty ⟨by rw [List.length_cons]; omega, hheader⟩
            · exact hno p hrest
          · refine .inr ⟨p, ?_, hp⟩
            rw [hlast, List.append_assoc]

/-! One chunk. -/

/-- The callback waits where the parser of the whole stream waits. -/
def InStep (b : RxBuf) (o : Nat) (x : List UInt8) (s : Receiver) : Prop :=
  Reads b o x (x.length-(pending x).length) s

theorem reference_append (x c : List UInt8) :
    reference (x ++ c) = reference x ++ (parse referenceStep 0 (x.length-(pending x).length) (pending x ++ c)).1 ∧
      pending (x ++ c) = (parse referenceStep 0 (x.length-(pending x).length) (pending x ++ c)).2 := by
  have happend : parse referenceStep 0 0 (x ++ c) = _ :=
    parse_append referenceStep_within referenceStep_stable (Nat.zero_le x.length)
  rw [Nat.zero_add] at happend
  constructor
  · exact congrArg Prod.fst happend
  · have hsnd := congrArg Prod.snd happend
    exact hsnd

/-- An event emits the new messages of the stream, all but an empty one at the end. -/
theorem InStep.receive (h : InStep b o x s) (hfits : (pending x).length+c.length < b.size) :
    (InStep b o (x ++ c) (receive b s c).2 ∧ (receive b s c).1.map (·.message) =
        (parse referenceStep 0 (x.length-(pending x).length) (pending x ++ c)).1.map (fun m => place b (o+m.1, m.2)) ∧
      ∀ p, (p, 0) ∈ (parse referenceStep 0 (x.length-(pending x).length) (pending x ++ c)).1 →
        p+headerSize ≠ (x ++ c).length) ∨
    ((receive b s c).1.map (·.message) ≠
        (parse referenceStep 0 (x.length-(pending x).length) (pending x ++ c)).1.map (fun m => place b (o+m.1, m.2)) ∧
      EndsEmpty (x ++ c)) := by
  have hpending : (pending x).length ≤ x.length := (parse_rest 0).length_le
  have hdrop : x.drop (x.length-(pending x).length) = pending x := (parse_rest_drop 0).symm
  have hstart : windowStart b (x ++ c) (x.length-(pending x).length) = x.length-(pending x).length := by
    rw [windowStart, List.length_append, Nat.mod_eq_of_lt (by omega)]
    omega
  have hbytes : (x ++ c).drop (x.length-(pending x).length) = pending x ++ c := by
    rw [List.drop_append_of_le_length (Nat.sub_le ..), hdrop]
  have hlen : x.length-(pending x).length+(pending x ++ c).length = (x ++ c).length := by
    rw [List.length_append, List.length_append]
    omega
  obtain ⟨hemitted, hreads⟩ := Reads.receive h c
  simp only [window, hstart, hbytes] at hemitted hreads
  have hmessages (ms : List (Nat × Nat)) :
      (ms.map (emit b o (x ++ c))).map (·.message) = ms.map fun m => place b (o+m.1, m.2) := by
    rw [List.map_map]
    rfl
  rw [hemitted, hmessages]
  obtain ⟨heq, hno⟩ | ⟨p, hlast, hp⟩ :=
    @parse_window 0 (x.length-(pending x).length) (pending x ++ c) (Nat.zero_le _)
  · refine .inl ⟨?_, by rw [heq], ?_⟩
    · rw [heq, ← (reference_append x c).2] at hreads
      exact hreads
    · rw [hlen] at hno
      exact hno
  · refine .inr ⟨?_, p, ?_, by rw [hp, hlen]⟩
    · intro heq
      have hcount := congrArg List.length heq
      rw [hlast, List.length_map, List.length_map, List.length_append, List.length_singleton] at hcount
      omega
    · rw [(reference_append x c).1, hlast]
      exact List.mem_append_right _ (List.mem_append_right _ (List.mem_singleton.mpr rfl))

theorem reference_mem {p len : Nat} (h : (p, len) ∈ reference x) : p+len+headerSize ≤ x.length := by
  obtain ⟨-, n, hstep⟩ := parse_mem h
  obtain ⟨-, -, he, -⟩ | ⟨l, hheader, hle, he, -⟩ := referenceStep_some hstep
  · contradiction
  · obtain rfl := Option.some.inj he
    have hlen := header_length hheader
    rw [List.length_drop] at hle hlen
    simp only [headerSize] at hle hlen ⊢
    omega

/-- An empty message at the end is one of the new ones. -/
theorem EndsEmpty.news (h : EndsEmpty (x ++ c)) (hx : ¬ EndsEmpty x) :
    ∃ p, (p, 0) ∈ (parse referenceStep 0 (x.length-(pending x).length) (pending x ++ c)).1 ∧
      p+headerSize = (x ++ c).length := by
  obtain ⟨p, hp, hend⟩ := h
  rw [(reference_append x c).1] at hp
  obtain hold | hnew := List.mem_append.mp hp
  · have hle := reference_mem hold
    rw [List.length_append] at hend
    exact absurd ⟨p, hold, by omega⟩ hx
  · exact ⟨p, hnew, hend⟩

/-! Runs. -/

theorem prefix_snoc {P : List (List UInt8) → Prop} {cs : List (List UInt8)} {c : List UInt8} :
    (∀ ds, ds <+: cs ++ [c] → P ds) ↔ (∀ ds, ds <+: cs → P ds) ∧ P (cs ++ [c]) := by
  constructor
  · intro h
    exact ⟨fun ds hds => h ds (hds.trans (List.prefix_append cs [c])), h _ List.prefix_rfl⟩
  · rintro ⟨hcs, hlast⟩ ds hds
    obtain rfl | hds := List.prefix_concat_iff.mp hds
    · exact hlast
    · exact hcs ds hds

theorem emitted_snoc (b : RxBuf) (o : Nat) (cs : List (List UInt8)) (c : List UInt8) :
    emitted b o (cs ++ [c]) =
      emitted b o cs ++ (receive b (Machine.run (receive b) (Receiver.initial o) cs).2 c).1 := by
  rw [emitted, Machine.events_append]
  exact congrArg _ (List.append_nil _)

theorem framed_append (b : RxBuf) (o : Nat) (x c : List UInt8) :
    framed b o (x ++ c) = framed b o x ++
      (parse referenceStep 0 (x.length-(pending x).length) (pending x ++ c)).1.map
        (fun m => place b (o+m.1, m.2)) := by
  rw [framed, (reference_append x c).1, List.map_append]
  rfl

theorem Fits.lt {cs : List (List UInt8)} (hfits : Fits b (cs ++ [c])) (hfull : NeverFull b (cs ++ [c])) :
    (pending cs.flatten).length+c.length < b.size :=
  Nat.lt_of_le_of_ne (hfits cs c List.prefix_rfl) (hfull cs c List.prefix_rfl)

theorem Fits.init {cs : List (List UInt8)} (hfits : Fits b (cs ++ [c])) : Fits b cs :=
  fun ds d hds => hfits ds d (hds.trans (List.prefix_append cs [c]))

theorem NeverFull.init {cs : List (List UInt8)} (hfull : NeverFull b (cs ++ [c])) : NeverFull b cs :=
  fun ds d hds => hfull ds d (hds.trans (List.prefix_append cs [c]))

theorem flatten_snoc (cs : List (List UInt8)) (c : List UInt8) : (cs ++ [c]).flatten = cs.flatten ++ c := by
  rw [List.flatten_append, List.flatten_singleton]

/-- With no empty message at the end of a chunk, the callback keeps step with the parser of the whole stream. -/
theorem run_inStep (ho : o < b.size) (hfits : Fits b chunks) (hfull : NeverFull b chunks)
    (hends : ∀ cs, cs <+: chunks → ¬ EndsEmpty cs.flatten) :
    InStep b o chunks.flatten (Machine.run (receive b) (Receiver.initial o) chunks).2 ∧
      (emitted b o chunks).map (·.message) = framed b o chunks.flatten := by
  induction chunks using List.reverseRecOn with
  | nil => exact ⟨reads_initial b ho, rfl⟩
  | append_singleton cs c ih =>
    obtain ⟨hbefore, hlast⟩ := prefix_snoc.mp hends
    obtain ⟨hstep, hagree⟩ := ih hfits.init hfull.init hbefore
    obtain ⟨hnext, hnew, -⟩ | ⟨-, hempty⟩ := hstep.receive (hfits.lt hfull)
    · rw [flatten_snoc]
      refine ⟨?_, ?_⟩
      · rw [Machine.run_append]
        exact hnext
      · rw [emitted_snoc, List.map_append, hagree, hnew, framed_append]
    · rw [← flatten_snoc] at hempty
      exact absurd hempty hlast

theorem ends_of_agrees (ho : o < b.size) (hfits : Fits b chunks) (hfull : NeverFull b chunks)
    (hagree : ∀ cs, cs <+: chunks → (emitted b o cs).map (·.message) = framed b o cs.flatten) :
    ∀ cs, cs <+: chunks → ¬ EndsEmpty cs.flatten := by
  induction chunks using List.reverseRecOn with
  | nil =>
    intro cs hcs
    rw [List.prefix_nil.mp hcs]
    rintro ⟨p, hp, -⟩
    contradiction
  | append_singleton cs c ih =>
    obtain ⟨hbefore, hlast⟩ := prefix_snoc.mp hagree
    have hends := ih hfits.init hfull.init hbefore
    obtain ⟨hstep, hsame⟩ := run_inStep ho hfits.init hfull.init hends
    refine prefix_snoc.mpr ⟨hends, ?_⟩
    rw [flatten_snoc] at hlast ⊢
    intro hempty
    obtain ⟨-, -, hno⟩ | ⟨hdiffer, -⟩ := hstep.receive (hfits.lt hfull)
    · obtain ⟨p, hp, hend⟩ := hempty.news (hends cs List.prefix_rfl)
      exact hno p hp hend
    · rw [emitted_snoc, List.map_append, hsame, framed_append] at hlast
      exact hdiffer (List.append_cancel_left hlast)

/-- The callback's messages are those of the stream received so far, after every chunk, exactly if no chunk
ends right behind a message without a byte. -/
theorem framing_agrees (ho : o < b.size) (hfits : Fits b chunks) (hfull : NeverFull b chunks) :
    (∀ cs, cs <+: chunks → (emitted b o cs).map (·.message) = framed b o cs.flatten) ↔
      ∀ cs, cs <+: chunks → ¬ EndsEmpty cs.flatten := by
  constructor
  · exact ends_of_agrees ho hfits hfull
  · intro hends cs hcs
    obtain ⟨rest, rfl⟩ := hcs
    have hpre {P : List (List UInt8) → Prop} (h : ∀ ds, ds <+: cs ++ rest → P ds) : ∀ ds, ds <+: cs → P ds :=
      fun ds hds => h ds (hds.trans (List.prefix_append cs rest))
    exact (run_inStep ho (fun ds d hds => hfits ds d (hds.trans (List.prefix_append cs rest)))
      (fun ds d hds => hfull ds d (hds.trans (List.prefix_append cs rest))) (hpre hends)).2

/-! Instances. -/

def rxBuf2048 : RxBuf := ⟨2048, 11, by decide, rfl⟩

def rxBuf8 : RxBuf := ⟨8, 3, by decide, rfl⟩

theorem pending_length (x : List UInt8) : (pending x).length ≤ x.length := (parse_rest 0).length_le

theorem fits_of_length (h : chunks.flatten.length ≤ b.size) : Fits b chunks := by
  rintro cs c ⟨rest, rfl⟩
  have hlen := pending_length cs.flatten
  rw [List.flatten_append, flatten_snoc, List.length_append, List.length_append] at h
  omega

theorem neverFull_of_length (h : chunks.flatten.length < b.size) : NeverFull b chunks := by
  rintro cs c ⟨rest, rfl⟩
  have hlen := pending_length cs.flatten
  rw [List.flatten_append, flatten_snoc, List.length_append, List.length_append] at h
  omega

instance (x : List UInt8) : Decidable (EndsEmpty x) :=
  decidable_of_iff (∃ m ∈ reference x, m.2 = 0 ∧ m.1+headerSize = x.length) (by
    constructor
    · rintro ⟨⟨p, len⟩, hm, hlen, hp⟩
      obtain rfl : len = 0 := hlen
      exact ⟨p, hm, hp⟩
    · rintro ⟨p, hm, hp⟩
      exact ⟨(p, 0), hm, rfl, hp⟩)

/-- A message cut inside the magic, the length and the payload, around the end of the ring. -/
theorem framing_agrees_wrapped :
    framed rxBuf2048 2046 [0x8E, 0xAD, 2, 0, 7, 9, 0x8E] = [⟨2, 2⟩] ∧
      ∀ cs, cs <+: [[0x8E], [0xAD, 2], [0, 7], [9, 0x8E]] →
        (emitted rxBuf2048 2046 cs).map (·.message) = framed rxBuf2048 2046 cs.flatten := by
  have hends : ∀ cs, cs <+: [[0x8E], [0xAD, 2], [0, 7], [9, 0x8E]] → ¬EndsEmpty cs.flatten := by
    simp only [← List.mem_inits]
    decide +kernel
  exact ⟨by decide +kernel,
    (framing_agrees (by decide) (fits_of_length (by decide)) (neverFull_of_length (by decide))).mpr hends⟩

/-- A message without a byte, received alone, is not found any more, whatever follows; received with the next
message it is. And a message that fills the ring is not seen. -/
theorem framing_differs :
    (Fits rxBuf2048 [[0x8E, 0xAD, 0, 0], [0x8E, 0xAD, 1, 0, 7]] ∧
      Fits rxBuf2048 [[0x8E, 0xAD, 0, 0, 0x8E, 0xAD, 1, 0, 7]] ∧
      (emitted rxBuf2048 0 [[0x8E, 0xAD, 0, 0], [0x8E, 0xAD, 1, 0, 7]]).map (·.message) = [⟨8, 1⟩] ∧
      (emitted rxBuf2048 0 [[0x8E, 0xAD, 0, 0, 0x8E, 0xAD, 1, 0, 7]]).map (·.message) = [⟨4, 0⟩, ⟨8, 1⟩] ∧
      framed rxBuf2048 0 [0x8E, 0xAD, 0, 0, 0x8E, 0xAD, 1, 0, 7] = [⟨4, 0⟩, ⟨8, 1⟩]) ∧
    Fits rxBuf8 [[0x8E, 0xAD, 4, 0, 1, 2, 3, 4]] ∧
      emitted rxBuf8 0 [[0x8E, 0xAD, 4, 0, 1, 2, 3, 4]] = [] ∧
      framed rxBuf8 0 [0x8E, 0xAD, 4, 0, 1, 2, 3, 4] = [⟨4, 4⟩] :=
  ⟨⟨fits_of_length (by decide), fits_of_length (by decide), by decide +kernel, by decide +kernel, by decide +kernel⟩,
    fits_of_length (by decide), by decide +kernel, by decide +kernel⟩

end OrbFirmware.Uart

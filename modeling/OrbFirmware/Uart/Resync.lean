import Mathlib.Data.List.Induction
import OrbFirmware.Machine
import OrbFirmware.Uart.Framing

/-! After any garbage the callback finds the messages again within one round of the ring, if a message and a
chunk fit into it together and no message looks like the beginning of another one inside. -/
namespace OrbFirmware.Uart
open Incremental
variable {b : RxBuf} {o g p q r len : Nat} {x garbage payload payload' : List UInt8} {payloads : List (List UInt8)}

/-- A message on the wire. -/
def frame (payload : List UInt8) : List UInt8 :=
  0x8E :: 0xAD :: UInt8.ofNat payload.length :: UInt8.ofNat (payload.length/256) :: payload

def frames (payloads : List (List UInt8)) : List UInt8 := payloads.flatMap frame

/-- Where the messages begin, the first one at `g`. -/
def offsets : Nat → List (List UInt8) → List (Nat × List UInt8)
  | _, [] => []
  | g, payload :: payloads => (g, payload) :: offsets (g+payload.length+headerSize) payloads

def MagicAt (x : List UInt8) (p : Nat) : Prop := x[p]? = some 0x8E ∧ x[p+1]? = some 0xAD

theorem offsets_ge (h : (p, payload) ∈ offsets g payloads) : g ≤ p := by
  induction payloads generalizing g with
  | nil => contradiction
  | cons a payloads ih =>
    obtain heq | hmem := List.mem_cons.mp h
    · exact (Prod.mk.inj heq).1.ge
    · have := ih hmem
      omega

theorem offsets_mem (h : (p, payload) ∈ offsets g payloads) : payload ∈ payloads := by
  induction payloads generalizing g with
  | nil => contradiction
  | cons a payloads ih =>
    obtain heq | hmem := List.mem_cons.mp h
    · exact List.mem_cons.mpr (.inl (Prod.mk.inj heq).2)
    · exact List.mem_cons_of_mem a (ih hmem)

/-- Messages do not overlap. -/
theorem offsets_apart (hp : (p, payload) ∈ offsets g payloads) (hq : (q, payload') ∈ offsets g payloads)
    (hpq : p < q) : p+payload.length+headerSize ≤ q := by
  induction payloads generalizing g with
  | nil => contradiction
  | cons a payloads ih =>
    obtain heq | hmem := List.mem_cons.mp hq
    · have hle := offsets_ge hp
      obtain ⟨rfl, -⟩ := Prod.mk.inj heq
      omega
    · obtain heq | hmem' := List.mem_cons.mp hp
      · obtain ⟨rfl, rfl⟩ := Prod.mk.inj heq
        exact offsets_ge hmem
      · exact ih hmem' hmem

theorem offsets_unique (hp : (p, payload) ∈ offsets g payloads) (hq : (p, payload') ∈ offsets g payloads) :
    payload = payload' := by
  induction payloads generalizing g with
  | nil => contradiction
  | cons a payloads ih =>
    obtain heq | hmem := List.mem_cons.mp hp
    · obtain ⟨rfl, rfl⟩ := Prod.mk.inj heq
      obtain heq' | hmem' := List.mem_cons.mp hq
      · exact (Prod.mk.inj heq').2.symm
      · have := offsets_ge hmem'
        simp only [headerSize] at this
        omega
    · obtain heq' | hmem' := List.mem_cons.mp hq
      · obtain ⟨rfl, rfl⟩ := Prod.mk.inj heq'
        have := offsets_ge hmem
        simp only [headerSize] at this
        omega
      · exact ih hmem hmem'

theorem frame_length (payload : List UInt8) : (frame payload).length = payload.length+headerSize := rfl

/-- The stream has the messages where they are said to be. -/
theorem offsets_drop (h : (p, payload) ∈ offsets garbage.length payloads) :
    frame payload <+: (garbage ++ frames payloads).drop p := by
  induction payloads generalizing garbage with
  | nil => contradiction
  | cons a payloads ih =>
    have hstream : garbage ++ frames (a :: payloads) = (garbage ++ frame a) ++ frames payloads := by
      rw [frames, List.flatMap_cons, List.append_assoc]
      rfl
    obtain heq | hmem := List.mem_cons.mp h
    · obtain ⟨rfl, rfl⟩ := Prod.mk.inj heq
      rw [hstream, List.append_assoc, List.drop_left]
      exact List.prefix_append _ _
    · rw [hstream]
      refine ih ?_
      rwa [List.length_append, frame_length, ← Nat.add_assoc]

theorem offsets_getElem {i : Nat} (h : payloads[i]? = some payload) :
    (g+(frames (payloads.take i)).length, payload) ∈ offsets g payloads := by
  induction payloads generalizing g i with
  | nil => contradiction
  | cons a payloads ih =>
    cases i with
    | zero =>
      obtain rfl := Option.some.inj h
      exact List.mem_cons_self
    | succ i =>
      have hmem := @ih (g+a.length+headerSize) i h
      have hlen : (frames ((a :: payloads).take (i+1))).length =
          a.length+headerSize+(frames (payloads.take i)).length := by
        rw [List.take_succ_cons, frames, List.flatMap_cons, List.length_append, frame_length]
        rfl
      rw [hlen, ← Nat.add_assoc, ← Nat.add_assoc]
      exact List.mem_cons_of_mem _ hmem

theorem frames_length (payloads : List (List UInt8)) : headerSize*payloads.length ≤ (frames payloads).length := by
  induction payloads with
  | nil => exact Nat.zero_le _
  | cons a payloads ih =>
    rw [frames, List.flatMap_cons, List.length_append, frame_length, List.length_cons]
    simp only [frames, headerSize] at ih ⊢
    omega

theorem header_frame (h : payload.length < 2^16) : header (frame payload) = some payload.length := by
  have hmagic : (0x8E : UInt8).toNat+256*(0xAD : UInt8).toNat = headerMagicU16 := rfl
  rw [frame, header, if_pos hmagic, UInt8.toNat_ofNat', UInt8.toNat_ofNat']
  congr 1
  omega

theorem header_magic (h : header x = some len) : MagicAt x 0 := by
  match x with
  | [] | [_] | [_, _] | [_, _, _] => contradiction
  | m₀ :: m₁ :: _ :: _ :: _ =>
    simp only [header] at h
    split_ifs at h with hmagic
    have hlow := m₀.toNat_lt
    have hhigh := m₁.toNat_lt
    simp only [headerMagicU16] at hmagic
    have h₀ : m₀ = 0x8E := UInt8.toNat_inj.mp (by change m₀.toNat = 0x8E; omega)
    have h₁ : m₁ = 0xAD := UInt8.toNat_inj.mp (by change m₁.toNat = 0xAD; omega)
    rw [h₀, h₁]
    exact ⟨rfl, rfl⟩

/-- Behind the garbage, the magic bytes stand nowhere but in front of a message. -/
structure WellFormed (garbage : List UInt8) (payloads : List (List UInt8)) : Prop where
  short : ∀ payload ∈ payloads, payload.length < 2^16
  magic : ∀ p, garbage.length ≤ p → MagicAt (garbage ++ frames payloads) p →
    ∃ payload, (p, payload) ∈ offsets garbage.length payloads

theorem WellFormed.header_at (h : WellFormed garbage payloads) (hx : x <+: garbage ++ frames payloads)
    (hframe : (p, payload) ∈ offsets garbage.length payloads) (hlen : headerSize ≤ (x.drop p).length) :
    header (x.drop p) = some payload.length := by
  obtain ⟨w, hw⟩ := hx
  obtain ⟨v, hv⟩ := offsets_drop hframe
  have hle : p ≤ x.length := by
    rw [List.length_drop] at hlen
    simp only [headerSize] at hlen
    omega
  have hwhole : x.drop p ++ w = frame payload ++ v := by rw [hv, ← hw, List.drop_append_of_le_length hle]
  calc header (x.drop p)
      = header (x.drop p ++ w) := (header_append hlen).symm
    _ = header (frame payload) := by
      rw [hwhole, header_append]
      rw [frame_length]
      exact Nat.le_add_left ..
    _ = some payload.length := header_frame (h.short payload (offsets_mem hframe))

theorem WellFormed.frame_at (h : WellFormed garbage payloads) (hx : x <+: garbage ++ frames payloads)
    (hp : garbage.length ≤ p) (hheader : header (x.drop p) = some len) :
    ∃ payload, (p, payload) ∈ offsets garbage.length payloads ∧ payload.length = len := by
  obtain ⟨w, hw⟩ := hx
  obtain ⟨hlow, hhigh⟩ := header_magic hheader
  have hbyte {k : Nat} {a : UInt8} (hk : (x.drop p)[k]? = some a) : (garbage ++ frames payloads)[p+k]? = some a := by
    rw [List.getElem?_drop] at hk
    rw [← hw, List.getElem?_append_left (List.getElem?_eq_some_iff.mp hk).1, hk]
  obtain ⟨payload, hframe⟩ := h.magic p hp ⟨hbyte hlow, hbyte hhigh⟩
  have hlen := h.header_at ⟨w, hw⟩ hframe (header_length hheader)
  rw [hheader] at hlen
  exact ⟨payload, hframe, (Option.some.inj hlen).symm⟩

/-! One parse of the pending bytes. -/

/-- Where the callback waits, once it is behind the garbage: no message with a byte is complete. -/
structure Waits (garbage : List UInt8) (payloads : List (List UInt8)) (x : List UInt8) (r : Nat) : Prop where
  incomplete : ∀ p payload, (p, payload) ∈ offsets garbage.length payloads → payload ≠ [] → r ≤ p →
    x.length < p+payload.length+headerSize
  near : x.length < r+headerSize ∨ ∃ payload ∈ payloads, x.length < r+payload.length+headerSize

/-- The messages that begin at least `size` bytes behind the garbage are found where the parse passes them. -/
theorem WellFormed.scan (h : WellFormed garbage payloads) (hx : x <+: garbage ++ frames payloads) {size : Nat}
    (hr : r ≤ x.length) (hsize : x.length < r+size) :
    (∀ p payload, (p, payload) ∈ offsets garbage.length payloads → payload ≠ [] → r ≤ p →
        garbage.length+size ≤ p → p < x.length-(parse windowStep 0 r (x.drop r)).2.length →
        (p, payload.length) ∈ (parse windowStep 0 r (x.drop r)).1) ∧
      (garbage.length ≤ x.length-(parse windowStep 0 r (x.drop r)).2.length →
        Waits garbage payloads x (x.length-(parse windowStep 0 r (x.drop r)).2.length)) := by
  induction hm : x.length-r using Nat.strong_induction_on generalizing r with
  | _ m ih =>
  subst hm
  have hrest : (parse windowStep 0 r (x.drop r)).2.length ≤ (x.drop r).length := (parse_rest 0).length_le
  cases hu : x.drop r with
  | nil =>
    have hend : x.length ≤ r := List.drop_eq_nil_iff.mp hu
    refine ⟨fun p payload _ _ hrp _ hp => ?_, fun _ => ⟨fun p payload _ _ hp => ?_, .inl ?_⟩⟩
    · simp only [parse, List.length_nil] at hp
      omega
    · simp only [parse, List.length_nil, headerSize] at hp ⊢
      omega
    · simp only [parse, List.length_nil, headerSize]
      omega
  | cons a as =>
    have htail : x.drop (r+1) = as := by rw [← List.drop_drop, hu, List.drop_one, List.tail_cons]
    have hlength := congrArg List.length hu
    rw [List.length_drop, List.length_cons] at hlength
    cases hstep : windowStep (a :: as) with
    | none =>
      rw [parse_none hstep, ← hu, List.length_drop]
      have hback : x.length-(x.length-r) = r := by omega
      rw [hback]
      refine ⟨fun p payload _ _ hrp _ hp => by omega, fun hg => ?_⟩
      obtain hshort | ⟨len, hheader, hlen⟩ := windowStep_wait hstep
      · rw [List.length_cons] at hshort
        exact ⟨fun p payload _ _ hp => by omega, .inl (by omega)⟩
      · rw [← hu] at hheader
        obtain ⟨payload', hframe', rfl⟩ := h.frame_at hx hg hheader
        rw [List.length_cons] at hlen
        refine ⟨fun p payload hframe _ hp => ?_, .inr ⟨payload', offsets_mem hframe', by omega⟩⟩
        obtain rfl | hlt := Nat.eq_or_lt_of_le hp
        · rw [offsets_unique hframe hframe']
          omega
        · have := offsets_apart hframe' hframe hlt
          omega
    | some v =>
      obtain ⟨e, n⟩ := v
      cases e with
      | none =>
        obtain ⟨rfl, hlen, hheader⟩ := windowStep_scan hstep
        obtain ⟨hfound, hwaits⟩ := ih (x.length-(r+1)) (by omega) (by omega) (by omega) rfl
        rw [htail] at hfound hwaits
        rw [parse_some hstep]
        refine ⟨fun p payload hframe hne hrp hg hp => ?_, hwaits⟩
        obtain rfl | hlt := Nat.eq_or_lt_of_le hrp
        · have hlen' := h.header_at hx hframe (by rw [hu]; exact hlen)
          rw [hu] at hlen'
          have hpos := List.length_pos_of_ne_nil hne
          obtain hnone | hzero := hheader
          · rw [hnone] at hlen'
            contradiction
          · rw [hzero] at hlen'
            have := Option.some.inj hlen'
            omega
        · exact hfound p payload hframe hne hlt hg hp
      | some len =>
        obtain ⟨hheader, hlen, rfl⟩ := windowStep_message hstep
        rw [List.length_cons] at hlen
        simp only [headerSize] at hlen
        have hskip : len+3 ≤ as.length := by omega
        have hdrop : x.drop (r+1+(len+3)) = as.drop (len+3) := by rw [← List.drop_drop, htail]
        obtain ⟨hfound, hwaits⟩ := ih (x.length-(r+1+(len+3))) (by omega) (by omega) (by omega) rfl
        rw [hdrop, ← parse_skip hskip] at hfound hwaits
        rw [parse_some hstep]
        refine ⟨fun p payload hframe hne hrp hg hp => ?_, hwaits⟩
        rw [← hu] at hheader
        obtain rfl | hlt := Nat.eq_or_lt_of_le hrp
        · have hlen' := h.header_at hx hframe (header_length hheader)
          rw [hheader] at hlen'
          rw [← Option.some.inj hlen']
          exact List.mem_append_left _ (List.mem_singleton.mpr rfl)
        · refine List.mem_append_right _ (hfound p payload hframe hne ?_ hg hp)
          -- a message begins behind this one, or behind all that was pending when it was in the garbage
          by_cases hin : garbage.length ≤ r
          · obtain ⟨payload', hframe', rfl⟩ := h.frame_at hx hin hheader
            have := offsets_apart hframe' hframe hlt
            simp only [headerSize] at this
            omega
          · omega

/-! Runs. -/

/-- What was emitted when the stream up to `x` is received and read up to `r`. -/
structure Caught (b : RxBuf) (o : Nat) (garbage : List UInt8) (payloads : List (List UInt8)) (x : List UInt8)
    (r : Nat) (es : List Emitted) : Prop where
  found : ∀ p payload, (p, payload) ∈ offsets garbage.length payloads → payload ≠ [] →
    garbage.length+b.size ≤ p → p < r → ⟨place b (o+p, payload.length), payload⟩ ∈ es
  waits : garbage.length ≤ r → Waits garbage payloads x r

/-- The bytes of a message that is complete. -/
theorem payload_eq (hx : x <+: garbage ++ frames payloads) (hframe : (p, payload) ∈ offsets garbage.length payloads)
    (hlen : p+payload.length+headerSize ≤ x.length) : (x.drop (p+headerSize)).take payload.length = payload := by
  have hle : (frame payload).length ≤ (x.drop p).length := by
    rw [frame_length, List.length_drop]
    omega
  obtain ⟨v, hv⟩ := List.prefix_of_prefix_length_le (offsets_drop hframe) (hx.drop p) hle
  rw [← List.drop_drop, ← hv]
  exact List.take_left

/-- The callback starts to read where it waits, or, having waited in the garbage, at most a round of the ring
behind it. -/
theorem Caught.start {c : List UInt8} {es : List Emitted} {s : Receiver} (h : Caught b o garbage payloads x r es)
    (hreads : Reads b o x r s) (hx : x ++ c <+: garbage ++ frames payloads) (hchunk : c.length < b.size)
    (hfit : garbage.length < (x ++ c).length → ∀ payload ∈ payloads, payload.length+headerSize+c.length ≤ b.size) :
    windowStart b (x ++ c) r = r ∨ windowStart b (x ++ c) r < garbage.length+b.size ∧ r < garbage.length := by
  have hr := hreads.le
  have hlt := hreads.lt
  have hlength : (x ++ c).length = x.length+c.length := List.length_append
  have hsame (hpending : (x ++ c).length-r < b.size) : windowStart b (x ++ c) r = r := by
    rw [windowStart, Nat.mod_eq_of_lt hpending]
    omega
  by_cases hin : garbage.length ≤ r
  · refine .inl (hsame ?_)
    by_cases hbehind : garbage.length < (x ++ c).length
    · have hnear : ∃ payload ∈ payloads, x.length < r+payload.length+headerSize := by
        obtain hshort | hpayload := (h.waits hin).near
        · cases payloads with
          | nil =>
            have := hx.length_le
            simp only [frames, List.flatMap_nil, List.append_nil] at this
            omega
          | cons payload payloads => exact ⟨payload, List.mem_cons_self, by omega⟩
        · exact hpayload
      obtain ⟨payload, hmem, hlen⟩ := hnear
      have := hfit hbehind payload hmem
      omega
    · omega
  · by_cases hpending : (x ++ c).length-r < b.size
    · exact .inl (hsame hpending)
    · refine .inr ⟨?_, Nat.not_le.mp hin⟩
      have hround : ((x ++ c).length-r) % b.size = (x ++ c).length-r-b.size := by
        rw [Nat.mod_eq_sub_mod (by omega), Nat.mod_eq_of_lt (by omega)]
      rw [windowStart, hround]
      omega

theorem Caught.receive {c : List UInt8} {es : List Emitted} {s : Receiver} (h : Caught b o garbage payloads x r es)
    (hwell : WellFormed garbage payloads) (hreads : Reads b o x r s) (hx : x ++ c <+: garbage ++ frames payloads)
    (hchunk : c.length < b.size)
    (hfit : garbage.length < (x ++ c).length → ∀ payload ∈ payloads, payload.length+headerSize+c.length ≤ b.size) :
    Caught b o garbage payloads (x ++ c) ((x ++ c).length-(window b (x ++ c) r).2.length)
      (es ++ (receive b s c).1) := by
  obtain ⟨hfound, hwaits⟩ := hwell.scan hx (windowStart_le b (x ++ c) r) (lt_windowStart b (x ++ c) r)
  refine ⟨fun p payload hframe hne hg hp => ?_, hwaits⟩
  by_cases hstart : windowStart b (x ++ c) r ≤ p
  · refine List.mem_append_right _ ?_
    have hmem := hfound p payload hframe hne hstart hg hp
    obtain ⟨-, n, hstep⟩ := parse_mem hmem
    obtain ⟨-, hlen, -⟩ := windowStep_message hstep
    have hdrop : windowStart b (x ++ c) r+(p-windowStart b (x ++ c) r) = p := by omega
    rw [List.drop_drop, hdrop, List.length_drop] at hlen
    simp only [headerSize] at hlen
    have hbytes := payload_eq hx hframe (by simp only [headerSize]; omega)
    rw [(hreads.receive c).1]
    refine List.mem_map.mpr ⟨_, hmem, ?_⟩
    rw [emit, hbytes]
  · refine List.mem_append_left _ (h.found p payload hframe hne hg ?_)
    obtain heq | ⟨hlt, -⟩ := h.start hreads hx hchunk hfit
    · omega
    · omega

theorem run_caught {chunks : List (List UInt8)} (ho : o < b.size) (hwell : WellFormed garbage payloads)
    (hx : chunks.flatten <+: garbage ++ frames payloads) (hchunk : ∀ c ∈ chunks, c.length < b.size)
    (hfit : ∀ cs c, cs ++ [c] <+: chunks → garbage.length < (cs ++ [c]).flatten.length →
      ∀ payload ∈ payloads, payload.length+headerSize+c.length ≤ b.size) :
    ∃ r, Reads b o chunks.flatten r (Machine.run (Uart.receive b) (Receiver.initial o) chunks).2 ∧
      Caught b o garbage payloads chunks.flatten r (emitted b o chunks) := by
  induction chunks using List.reverseRecOn with
  | nil =>
    refine ⟨0, reads_initial b ho, fun p payload _ _ _ hp => absurd hp (Nat.not_lt_zero p), fun _ => ?_⟩
    refine ⟨fun p payload _ _ _ => ?_, .inl (by simp [headerSize])⟩
    simp only [List.flatten_nil, List.length_nil, headerSize]
    omega
  | append_singleton cs c ih =>
    have hinit : cs <+: cs ++ [c] := List.prefix_append cs [c]
    rw [flatten_snoc] at hx
    obtain ⟨r, hreads, hcaught⟩ := ih ((List.prefix_append _ c).trans hx)
      (fun d hd => hchunk d (List.mem_append_left _ hd)) (fun ds d hds => hfit ds d (hds.trans hinit))
    have hlast := hfit cs c List.prefix_rfl
    rw [flatten_snoc] at hlast
    have hnext := hcaught.receive hwell hreads hx (hchunk c (List.mem_append_right _ List.mem_cons_self)) hlast
    rw [flatten_snoc, emitted_snoc, Machine.run_append]
    exact ⟨_, (hreads.receive c).2, hnext⟩

/-- All messages with a byte that are received whole are emitted with their bytes, but for those among the first
`size/4+1` behind the garbage. -/
theorem messages_caught {chunks : List (List UInt8)} (ho : o < b.size) (hwell : WellFormed garbage payloads)
    (hx : chunks.flatten <+: garbage ++ frames payloads) (hchunk : ∀ c ∈ chunks, c.length < b.size)
    (hfit : ∀ cs c, cs ++ [c] <+: chunks → garbage.length < (cs ++ [c]).flatten.length →
      ∀ payload ∈ payloads, payload.length+headerSize+c.length ≤ b.size) :
    ∀ i payload, payloads[i]? = some payload → payload ≠ [] → b.size/headerSize < i →
      (garbage ++ frames (payloads.take (i+1))).length ≤ chunks.flatten.length →
      ⟨place b (o+(garbage ++ frames (payloads.take i)).length, payload.length), payload⟩ ∈ emitted b o chunks := by
  intro i payload hi hne hbound hcomplete
  obtain ⟨r, hreads, hcaught⟩ := run_caught ho hwell hx hchunk hfit
  have hframe : ((garbage ++ frames (payloads.take i)).length, payload) ∈ offsets garbage.length payloads := by
    rw [List.length_append]
    exact offsets_getElem hi
  have hstop : (garbage ++ frames (payloads.take (i+1))).length =
      (garbage ++ frames (payloads.take i)).length+payload.length+headerSize := by
    rw [List.take_add_one, hi, Option.toList_some, frames, List.flatMap_append, ← List.append_assoc,
      List.length_append, List.flatMap_singleton, frame_length, ← Nat.add_assoc]
    rfl
  have hbehind : garbage.length+b.size ≤ (garbage ++ frames (payloads.take i)).length := by
    have hlen := frames_length (payloads.take i)
    have hlt := (List.getElem?_eq_some_iff.mp hi).1
    rw [List.length_take, Nat.min_eq_left hlt.le] at hlen
    rw [List.length_append]
    simp only [headerSize] at hbound hlen
    omega
  have hlt := hreads.lt
  refine hcaught.found _ payload hframe hne hbehind ?_
  by_contra hr
  have hincomplete := (hcaught.waits (by omega)).incomplete _ payload hframe hne (Nat.not_lt.mp hr)
  omega

theorem getElem?_lt {k : Nat} {a : UInt8} (h : x[k]? = some a) : k < x.length := (List.getElem?_eq_some_iff.mp h).1

instance (x : List UInt8) (p : Nat) : Decidable (MagicAt x p) := inferInstanceAs (Decidable (_ ∧ _))

/-- A header with a length larger than the ring, then messages in chunks of three bytes. -/
theorem messages_caught_rxBuf8 :
    ⟨⟨7, 1⟩, [7]⟩ ∈ emitted rxBuf8 0 [[0x8E, 0xAD, 0xFF], [0xFF, 0x8E, 0xAD], [1, 0, 7], [0x8E, 0xAD, 1], [0, 7, 0x8E],
      [0xAD, 1, 0], [7, 0x8E, 0xAD], [1, 0, 7]] := by
  have hmagic : ∀ p, 4 ≤ p → MagicAt ([0x8E, 0xAD, 0xFF, 0xFF] ++ frames [[7], [7], [7], [7]]) p →
      ∃ payload, (p, payload) ∈ offsets 4 [[7], [7], [7], [7]] := by
    intro p hp hm
    have hlt : p < 24 := getElem?_lt hm.1
    have hfound : ∀ p < 24, 4 ≤ p → MagicAt ([0x8E, 0xAD, 0xFF, 0xFF] ++ frames [[7], [7], [7], [7]]) p →
        ∃ m ∈ offsets 4 [[7], [7], [7], [7]], m.1 = p := by decide +kernel
    obtain ⟨m, hmem, rfl⟩ := hfound p hlt hp hm
    exact ⟨m.2, hmem⟩
  have hwell : WellFormed [0x8E, 0xAD, 0xFF, 0xFF] [[7], [7], [7], [7]] := ⟨by decide, hmagic⟩
  have hx : [[0x8E, 0xAD, 0xFF], [0xFF, 0x8E, 0xAD], [1, 0, 7], [0x8E, 0xAD, 1], [0, 7, 0x8E], [0xAD, 1, 0],
      [7, 0x8E, 0xAD], [1, 0, 7]].flatten <+: [0x8E, 0xAD, 0xFF, 0xFF] ++ frames [[7], [7], [7], [7]] := ⟨[], rfl⟩
  have hchunk : ∀ c ∈ [[0x8E, 0xAD, 0xFF], [0xFF, 0x8E, 0xAD], [1, 0, 7], [0x8E, 0xAD, 1], [0, 7, 0x8E],
      [0xAD, 1, 0], [7, 0x8E, 0xAD], [1, 0, (7 : UInt8)]], c.length = 3 := by decide
  refine messages_caught (Nat.zero_lt_succ 7) hwell hx (fun c hc => ?_) (fun cs c hcs _ payload hpayload => ?_) 3 [7] rfl
    (by decide) (by decide) (by decide)
  · rw [hchunk c hc]
    decide
  · have hlen : ∀ payload ∈ [[7], [7], [7], [(7 : UInt8)]], payload.length = 1 := by decide
    rw [hchunk c (hcs.subset (List.mem_append_right cs List.mem_cons_self)), hlen payload hpayload]
    decide

/-! Streams of which no message is ever found. -/

/-- An event seen from the pending bytes. -/
def pendingStep (b : RxBuf) (u c : List UInt8) : List (Nat × Nat) × List UInt8 :=
  parse windowStep 0 0 ((u ++ c).drop ((u ++ c).length-(u ++ c).length % b.size))

theorem Reads.silent {s : Receiver} (h : Reads b o x r s) {c : List UInt8} (hc : (pendingStep b (x.drop r) c).1 = []) :
    (Uart.receive b s c).1 = [] ∧ ∃ r', Reads b o (x ++ c) r' (Uart.receive b s c).2 ∧
      (x ++ c).drop r' = (pendingStep b (x.drop r) c).2 := by
  have hle := h.le
  have hdrop : (x ++ c).drop r = x.drop r ++ c := List.drop_append_of_le_length hle
  have hlen : (x.drop r ++ c).length = (x ++ c).length-r := by rw [← hdrop, List.length_drop]
  have hx : (x ++ c).length = x.length+c.length := List.length_append
  have hmod := Nat.mod_le ((x ++ c).length-r) b.size
  have hbytes : (x ++ c).drop (windowStart b (x ++ c) r) =
      (x.drop r ++ c).drop ((x.drop r ++ c).length-(x.drop r ++ c).length % b.size) := by
    rw [hlen, ← hdrop, List.drop_drop, windowStart]
    congr 1
    omega
  have hwindow : window b (x ++ c) r =
      ((pendingStep b (x.drop r) c).1.map fun m => (windowStart b (x ++ c) r+m.1, m.2), (pendingStep b (x.drop r) c).2) := by
    rw [window, hbytes]
    exact parse_zero 0
  obtain ⟨hemitted, hreads⟩ := h.receive c
  rw [hwindow] at hemitted hreads
  rw [hc] at hemitted
  refine ⟨hemitted, _, hreads, ?_⟩
  have hrest : (pendingStep b (x.drop r) c).2 <:+ (x ++ c).drop (windowStart b (x ++ c) r) := by
    rw [hbytes]
    exact parse_rest 0
  exact (List.suffix_iff_eq_drop.mp (hrest.trans (List.drop_suffix _ _))).symm

theorem Reads.silent_run {s : Receiver} {chunks : List (List UInt8)} (h : Reads b o x r s)
    (hquiet : Machine.events (pendingStep b) (x.drop r) chunks = []) :
    Machine.events (Uart.receive b) s chunks = [] := by
  induction chunks generalizing x r s with
  | nil => rfl
  | cons c chunks ih =>
    rw [Machine.events_cons] at hquiet ⊢
    obtain ⟨hc, hrest⟩ := List.append_eq_nil_iff.mp hquiet
    obtain ⟨hnone, r', hreads, hpending⟩ := h.silent hc
    rw [hnone, ih hreads (by rw [hpending]; exact hrest)]
    rfl

/-- Chunks that come around to the same pending bytes without a message give none however often they come. -/
theorem cycle_silent {u : List UInt8} {cycle : List (List UInt8)} (hquiet : Machine.events (pendingStep b) u cycle = [])
    (hback : (Machine.run (pendingStep b) u cycle).2 = u) (n : Nat) :
    Machine.events (pendingStep b) u (List.replicate n cycle).flatten = [] := by
  induction n with
  | zero => rfl
  | succ n ih =>
    rw [List.replicate_succ, List.flatten_cons, Machine.events_append, hquiet, hback, ih]
    rfl

theorem emitted_silent (ho : o < b.size) {first : List UInt8} {cycle : List (List UInt8)}
    (hfirst : (pendingStep b [] first).1 = [])
    (hquiet : Machine.events (pendingStep b) (pendingStep b [] first).2 cycle = [])
    (hback : (Machine.run (pendingStep b) (pendingStep b [] first).2 cycle).2 = (pendingStep b [] first).2) (n : Nat) :
    emitted b o (first :: (List.replicate n cycle).flatten) = [] := by
  have hreads := reads_initial b ho
  refine hreads.silent_run ?_
  rw [List.drop_nil, Machine.events_cons, hfirst, cycle_silent hquiet hback]
  rfl

def rxBuf16 : RxBuf := ⟨16, 4, by decide, rfl⟩

/-- In a ring of 16 bytes no message is found, however many come: where each one's payload repeats the corrupt
header at the place of the ring where the callback waits; where messages of 15 bytes come in chunks of 15 that
are not in line with them; and where each chunk is one message without a byte. -/
theorem messages_lost :
    (∀ n, emitted rxBuf16 0 ([0x8E, 0xAD, 0xFF, 0xFF] ::
        (List.replicate n [frame [0x8E, 0xAD, 0xFF, 0xFF], frame [0x8E, 0xAD, 0xFF, 0xFF]]).flatten) = []) ∧
      (∀ n, emitted rxBuf16 0 ((frame (List.replicate 11 0)).take 7 ::
        (List.replicate n (List.replicate 5
          ((frame (List.replicate 11 0)).drop 7 ++ (frame (List.replicate 11 0)).take 7))).flatten) = []) ∧
      ∀ n, emitted rxBuf16 0 (frame [] :: (List.replicate n [frame []]).flatten) = [] :=
  ⟨emitted_silent (by decide) (by decide) (by decide) (by decide),
    emitted_silent (by decide) (by decide) (by decide) (by decide),
    emitted_silent (by decide) (by decide) (by decide) (by decide)⟩

end OrbFirmware.Uart

import OrbFirmware.Incremental
import OrbFirmware.Uart.Receive

/-! The bytes pending in the ring as a list: what the callback does on the ring's indices is a parse of the
pending bytes, one that misses an empty message with nothing behind it. -/
namespace OrbFirmware.Uart
open Incremental
variable {b : RxBuf} {o r n len pos : Nat} {ring : Nat → UInt8} {u v x c : List UInt8}

/-- The length announced by four bytes that begin with the magic ones. -/
def header : List UInt8 → Option Nat
  | m₀ :: m₁ :: l₀ :: l₁ :: _ =>
    if m₀.toNat+256*m₁.toNat = headerMagicU16 then some (l₀.toNat+256*l₁.toNat) else none
  | _ => none

/-- The parser of whole streams: at the magic bytes it emits the message once it is complete, elsewhere it
moves on by one byte. -/
def referenceStep (u : List UInt8) : Option (Option Nat × Nat) :=
  if u.length < headerSize then none
  else
    match header u with
    | none => some (none, 0)
    | some len => if len+headerSize ≤ u.length then some (some len, len+3) else none

/-- What the callback does instead: it passes over a header that announces no byte and is the last thing received. -/
def windowStep (u : List UInt8) : Option (Option Nat × Nat) :=
  if u.length = headerSize ∧ header u = some 0 then some (none, 0) else referenceStep u

/-! The steps. -/

theorem header_length (h : header u = some len) : headerSize ≤ u.length := by
  match u with
  | [] | [_] | [_, _] | [_, _, _] => contradiction
  | _ :: _ :: _ :: _ :: _ => simp [headerSize]

theorem header_append (h : headerSize ≤ u.length) : header (u ++ v) = header u := by
  match u with
  | [] | [_] | [_, _] | [_, _, _] => simp [headerSize] at h
  | _ :: _ :: _ :: _ :: _ => rfl

theorem referenceStep_short (h : u.length < headerSize) : referenceStep u = none := if_pos h

theorem referenceStep_scan (hlen : headerSize ≤ u.length) (h : header u = none) :
    referenceStep u = some (none, 0) := by
  rw [referenceStep, if_neg (Nat.not_lt.mpr hlen), h]

theorem referenceStep_frame (h : header u = some len) :
    referenceStep u = if len+headerSize ≤ u.length then some (some len, len+3) else none := by
  rw [referenceStep, if_neg (Nat.not_lt.mpr (header_length h)), h]

/-- Moving on by a byte, or a complete message. -/
theorem referenceStep_some {e : Option Nat} (h : referenceStep u = some (e, n)) :
    headerSize ≤ u.length ∧ header u = none ∧ e = none ∧ n = 0 ∨
      ∃ len, header u = some len ∧ len+headerSize ≤ u.length ∧ e = some len ∧ n = len+3 := by
  by_cases hlen : headerSize ≤ u.length
  · cases hheader : header u with
    | none =>
      rw [referenceStep_scan hlen hheader] at h
      obtain ⟨rfl, rfl⟩ := Prod.mk.inj (Option.some.inj h)
      exact .inl ⟨hlen, rfl, rfl, rfl⟩
    | some len =>
      rw [referenceStep_frame hheader] at h
      split_ifs at h with hle
      obtain ⟨rfl, rfl⟩ := Prod.mk.inj (Option.some.inj h)
      exact .inr ⟨len, rfl, hle, rfl, rfl⟩
  · rw [referenceStep_short (Nat.not_le.mp hlen)] at h
    contradiction

theorem referenceStep_within : Within referenceStep := by
  intro u e n h
  obtain ⟨hlen, -, -, rfl⟩ | ⟨len, -, hle, -, rfl⟩ := referenceStep_some h
  · exact Nat.lt_of_lt_of_le (by decide) hlen
  · simp only [headerSize] at hle
    omega

theorem referenceStep_stable : Stable referenceStep := by
  intro u v e n h
  have hlen (hle : headerSize ≤ u.length) : headerSize ≤ (u ++ v).length := by
    rw [List.length_append]
    omega
  obtain ⟨hle, hheader, rfl, rfl⟩ | ⟨len, hheader, hle, rfl, rfl⟩ := referenceStep_some h
  · exact referenceStep_scan (hlen hle) (by rw [header_append hle, hheader])
  · have hheader' : header (u ++ v) = some len := by rw [header_append (header_length hheader), hheader]
    rw [referenceStep_frame hheader', if_pos]
    rw [List.length_append]
    omega

theorem windowStep_message (h : windowStep u = some (some len, n)) :
    header u = some len ∧ len+headerSize ≤ u.length ∧ n = len+3 := by
  simp only [windowStep] at h
  split_ifs at h
  · have := (Prod.mk.inj (Option.some.inj h)).1
    contradiction
  · obtain ⟨-, -, he, -⟩ | ⟨l, hheader, hle, he, hn⟩ := referenceStep_some h
    · contradiction
    · obtain rfl := Option.some.inj he
      exact ⟨hheader, hle, hn⟩

theorem windowStep_scan (h : windowStep u = some (none, n)) :
    n = 0 ∧ headerSize ≤ u.length ∧ (header u = none ∨ header u = some 0) := by
  simp only [windowStep] at h
  split_ifs at h with hempty
  · obtain rfl := (Prod.mk.inj (Option.some.inj h)).2
    exact ⟨rfl, hempty.1.ge, .inr hempty.2⟩
  · obtain ⟨hlen, hheader, -, hn⟩ | ⟨l, -, -, he, -⟩ := referenceStep_some h
    · exact ⟨hn, hlen, .inl hheader⟩
    · contradiction

theorem windowStep_wait (h : windowStep u = none) :
    u.length < headerSize ∨ ∃ len, header u = some len ∧ u.length < len+headerSize := by
  simp only [windowStep] at h
  split_ifs at h
  by_cases hlen : u.length < headerSize
  · exact .inl hlen
  · cases hheader : header u with
    | none =>
      rw [referenceStep_scan (Nat.not_lt.mp hlen) hheader] at h
      contradiction
    | some l =>
      rw [referenceStep_frame hheader] at h
      split_ifs at h with hle
      exact .inr ⟨l, rfl, Nat.not_le.mp hle⟩

/-! The callback's loop. -/

/-- The bytes `u` lie in the ring from position `r` on. -/
def Holds (b : RxBuf) (ring : Nat → UInt8) (r : Nat) (u : List UInt8) : Prop :=
  ∀ j < u.length, u[j]? = some (ring ((r+j) % b.size))

theorem RxBuf.size_pos (b : RxBuf) : 0 < b.size := by
  obtain ⟨k, -, hk⟩ := b.power
  rw [hk]
  exact Nat.two_pow_pos k

theorem usedBytes_eq (b : RxBuf) {p q : Nat} (h : p ≤ q) : usedBytes b (p % b.size) (q % b.size) = (q-p) % b.size := by
  obtain ⟨k, hk, hsize⟩ := b.power
  have hdvd : b.size ∣ 2^32 := by
    rw [hsize]
    exact Nat.pow_dvd_pow 2 hk.le
  rw [usedBytes, hsize, Nat.and_two_pow_sub_one_eq_mod, ← hsize, Nat.mod_mod_of_dvd _ hdvd]
  exact Ring.mod_sub_mod h hdvd (Nat.le_of_dvd (by decide) hdvd) b.size_pos

theorem Holds.tail {a : UInt8} (h : Holds b ring r (a :: u)) : Holds b ring (r+1) u := by
  intro j hj
  have := h (j+1) (Nat.succ_lt_succ hj)
  rwa [List.getElem?_cons_succ, ← Nat.add_assoc, Nat.add_right_comm] at this

theorem Holds.drop (h : Holds b ring r u) (k : Nat) : Holds b ring (r+k) (u.drop k) := by
  intro j hj
  rw [List.length_drop] at hj
  rw [List.getElem?_drop, h (k+j) (by omega), ← Nat.add_assoc]

theorem uint16At_mod (b : RxBuf) (ring : Nat → UInt8) (p k : Nat) :
    uint16At b ring (p % b.size+k) = uint16At b ring (p+k) := by
  simp only [uint16At, Nat.add_assoc, Nat.mod_add_mod]

/-- The two numbers the loop reads are the header's, if that much is there. -/
theorem Holds.header (h : Holds b ring r u) (hlen : headerSize ≤ u.length) :
    Uart.header u = if uint16At b ring r = headerMagicU16 then some (uint16At b ring (r+2)) else none := by
  match u with
  | [] | [_] | [_, _] | [_, _, _] => simp [headerSize] at hlen
  | m₀ :: m₁ :: l₀ :: l₁ :: rest =>
    have h₀ := h 0 (by simp)
    have h₁ := h 1 (by simp)
    have h₂ := h 2 (by simp)
    have h₃ := h 3 (by simp)
    simp only [List.getElem?_cons_zero, List.getElem?_cons_succ, Option.some.injEq, Nat.add_zero] at h₀ h₁ h₂ h₃
    have hmagic : uint16At b ring r = m₀.toNat+256*m₁.toNat := by
      rw [uint16At, ← h₀, ← h₁, Nat.shiftLeft_eq, Nat.mod_eq_of_lt]
      · omega
      · have := m₀.toNat_lt
        have := m₁.toNat_lt
        omega
    have hsize : uint16At b ring (r+2) = l₀.toNat+256*l₁.toNat := by
      rw [uint16At, ← h₂, show r+2+1 = r+3 from rfl, ← h₃, Nat.shiftLeft_eq, Nat.mod_eq_of_lt]
      · omega
      · have := l₀.toNat_lt
        have := l₁.toNat_lt
        omega
    rw [hmagic, hsize]
    rfl

/-- A message found at position `p`, as it is queued. -/
def place (b : RxBuf) (m : Nat × Nat) : UartMessage := ⟨(m.1+headerSize) % b.size, m.2⟩

theorem receiveLoop_parse {fuel : Nat} (h : Holds b ring r u) (hlen : u.length < b.size) (hfuel : u.length < fuel) :
    receiveLoop b ring ((r+u.length) % b.size) fuel (r % b.size) =
      ((parse windowStep 0 r u).1.map (place b),
        (r+(u.length-(parse windowStep 0 r u).2.length)) % b.size) := by
  induction fuel generalizing r u with
  | zero => contradiction
  | succ fuel ih =>
    cases u with
    | nil =>
      rw [receiveLoop, if_neg (by simp)]
      rfl
    | cons a as =>
      have hne : r % b.size ≠ (r+(a :: as).length) % b.size := Ring.mod_ne (by simp) (by omega)
      have hused : usedBytes b (r % b.size) ((r+(a :: as).length) % b.size) = (a :: as).length := by
        rw [usedBytes_eq b (Nat.le_add_right _ _), Nat.add_sub_cancel_left, Nat.mod_eq_of_lt hlen]
      -- a turn that moves on by a byte
      have hscan : windowStep (a :: as) = some (none, 0) →
          receiveLoop b ring ((r+(a :: as).length) % b.size) fuel ((r % b.size+1) % b.size) =
            ((parse windowStep 0 r (a :: as)).1.map (place b),
              (r+((a :: as).length-(parse windowStep 0 r (a :: as)).2.length)) % b.size) := by
        intro hstep
        have hnext := ih h.tail (by simp at hlen; omega) (by simpa using hfuel)
        have hrest : (parse windowStep 0 (r+1) as).2.length ≤ as.length := (parse_rest 0).length_le
        rw [parse_some hstep, Nat.mod_add_mod]
        rw [List.length_cons, show r+(as.length+1) = r+1+as.length by omega, hnext]
        refine Prod.ext rfl ?_
        dsimp only
        congr 1
        omega
      rw [receiveLoop, if_pos hne]
      have hmagic : uint16At b ring (r % b.size) = uint16At b ring r := uint16At_mod b ring r 0
      have hwait : windowStep (a :: as) = none →
          (([], r % b.size) : List UartMessage × Nat) = ((parse windowStep 0 r (a :: as)).1.map (place b),
            (r+((a :: as).length-(parse windowStep 0 r (a :: as)).2.length)) % b.size) := by
        intro hstep
        rw [parse_none hstep, Nat.sub_self, Nat.add_zero]
        rfl
      simp only [hused, uint16At_mod, hmagic]
      by_cases hshort : (a :: as).length < headerSize
      · rw [if_neg (by omega), if_pos (.inl hshort)]
        refine hwait ?_
        rw [windowStep, if_neg (by omega), referenceStep_short hshort]
      · have hheader := h.header (Nat.not_lt.mp hshort)
        cases hh : header (a :: as) with
        | none =>
          have hnone : uint16At b ring r ≠ headerMagicU16 := by
            intro heq
            rw [hh, if_pos heq] at hheader
            contradiction
          rw [if_neg (fun hc => hnone hc.2.1), if_neg (fun hc => hc.elim hshort fun hc => hnone hc.2.1)]
          refine hscan ?_
          rw [windowStep, if_neg (fun hc => by rw [hh] at hc; cases hc.2), referenceStep_scan (Nat.not_lt.mp hshort) hh]
        | some l =>
          rw [hh] at hheader
          split_ifs at hheader with heq
          rw [← Option.some.inj hheader]
          by_cases hle : l+headerSize ≤ (a :: as).length
          · by_cases hempty : (a :: as).length = headerSize ∧ l = 0
            · -- an empty message with nothing behind it
              rw [if_neg (by omega), if_neg (by omega)]
              refine hscan ?_
              rw [windowStep, if_pos ⟨hempty.1, by rw [hh, hempty.2]⟩]
            · rw [if_pos ⟨by omega, heq, hle⟩]
              have hstep : windowStep (a :: as) = some (some l, l+3) := by
                rw [windowStep, if_neg, referenceStep_frame hh, if_pos hle]
                rintro ⟨hfour, hzero⟩
                rw [hh] at hzero
                exact hempty ⟨hfour, Option.some.inj hzero⟩
              have hskip : l+3 ≤ as.length := by
                rw [List.length_cons] at hle
                simp only [headerSize] at hle
                omega
              have hnext := ih (h.drop (l+headerSize)) (by rw [List.length_drop]; omega)
                (by rw [List.length_drop]; simp only [headerSize]; omega)
              have hdrop : (a :: as).drop (l+headerSize) = as.drop (l+3) := rfl
              have hpos : r+(l+headerSize) = r+1+(l+3) := by
                simp only [headerSize]
                omega
              rw [hdrop, hpos, ← parse_skip hskip] at hnext
              have hrest : (parse windowStep (l+3) (r+1) as).2.length ≤ (as.drop (l+3)).length := by
                rw [parse_skip hskip]
                exact (parse_rest 0).length_le
              rw [parse_some hstep]
              rw [List.length_drop] at hnext hrest
              have hstop : r+1+(l+3)+(as.length-(l+3)) = r+(a :: as).length := by
                rw [List.length_cons]
                omega
              have hread : (r % b.size+l+headerSize) % b.size = (r+1+(l+3)) % b.size := by
                rw [Nat.add_assoc, Nat.mod_add_mod, hpos]
              rw [hstop] at hnext
              rw [hread, hnext, Nat.mod_add_mod]
              refine Prod.ext rfl ?_
              dsimp only
              rw [List.length_cons]
              congr 1
              omega
          · rw [if_neg (fun hc => hle hc.2.2), if_pos (.inr ⟨by omega, heq, by omega⟩)]
            refine hwait ?_
            rw [windowStep, if_neg, referenceStep_frame hh, if_neg hle]
            rintro ⟨hfour, hzero⟩
            rw [hh] at hzero
            obtain rfl := Option.some.inj hzero
            omega

/-! The receiver. -/

/-- Reading around the end of the buffer. -/
theorem bufReadCircular_eq {source count : Nat} (hsource : source < b.size) (hcount : count < b.size) :
    (bufReadCircular b ring source count).1 = Ring.read b.size ring source count := by
  simp only [bufReadCircular]
  by_cases hwrap : source+count < b.size
  · rw [Nat.mod_eq_of_lt hwrap, if_neg (by omega), Ring.read_straight (by omega)]
  · have hend : (source+count) % b.size = source+count-b.size := by
      rw [Nat.mod_eq_sub_mod (by omega), Nat.mod_eq_of_lt (by omega)]
    rw [hend, if_pos (by omega), Ring.read_wrapping hsource (by omega) (by omega)]

/-- `read_index` and `write_index` as the next event finds them. -/
def Receiver.indices (s : Receiver) : Nat × Nat :=
  if s.readIndex = sizeMax ∧ s.writeIndex = sizeMax then (s.dmaIndex, s.dmaIndex) else (s.readIndex, s.writeIndex)

/-- The bytes `x` have been received from ring position `o` on, and those from the `r`-th on are pending. -/
structure Reads (b : RxBuf) (o : Nat) (x : List UInt8) (r : Nat) (s : Receiver) : Prop where
  recent : Ring.Recent b.size s.ringBuf o x
  dma : s.dmaIndex = (o+x.length) % b.size
  le : r ≤ x.length
  lt : x.length < r+b.size
  indices : s.indices = ((o+r) % b.size, (o+x.length) % b.size)

/-- A message at position `p` of the stream `x`, as it is emitted. -/
def emit (b : RxBuf) (o : Nat) (x : List UInt8) (m : Nat × Nat) : Emitted :=
  ⟨place b (o+m.1, m.2), (x.drop (m.1+headerSize)).take m.2⟩

theorem reads_initial (b : RxBuf) {o : Nat} (h : o < b.size) : Reads b o [] 0 (Receiver.initial o) where
  recent := Ring.recent_nil
  dma := (Nat.mod_eq_of_lt h).symm
  le := Nat.le_refl 0
  lt := by
    rw [Nat.zero_add]
    exact b.size_pos
  indices := by simp [Receiver.indices, Receiver.initial, Nat.mod_eq_of_lt h]

/-- Where the callback takes the pending bytes to begin: it knows their number up to a multiple of the ring's size. -/
def windowStart (b : RxBuf) (x : List UInt8) (r : Nat) : Nat := x.length-(x.length-r) % b.size

/-- What the callback finds once `x` is received. -/
def window (b : RxBuf) (x : List UInt8) (r : Nat) : List (Nat × Nat) × List UInt8 :=
  parse windowStep 0 (windowStart b x r) (x.drop (windowStart b x r))

theorem windowStart_le (b : RxBuf) (x : List UInt8) (r : Nat) : windowStart b x r ≤ x.length := Nat.sub_le ..

theorem lt_windowStart (b : RxBuf) (x : List UInt8) (r : Nat) : x.length < windowStart b x r+b.size := by
  have := Nat.mod_lt (x.length-r) b.size_pos
  rw [windowStart]
  omega

theorem windowStart_mod (h : r ≤ x.length) (o : Nat) : (o+windowStart b x r) % b.size = (o+r) % b.size := by
  have hdiv := Nat.div_add_mod (x.length-r) b.size
  have heq : o+windowStart b x r = o+r+b.size*((x.length-r)/b.size) := by
    rw [windowStart]
    omega
  rw [heq, Nat.add_mul_mod_self_left]

/-- An event is a parse of the pending bytes with the new ones. -/
theorem Reads.receive {s : Receiver} (h : Reads b o x r s) (c : List UInt8) :
    (receive b s c).1 = (window b (x ++ c) r).1.map (emit b o (x ++ c)) ∧
      Reads b o (x ++ c) ((x ++ c).length-(window b (x ++ c) r).2.length) (receive b s c).2 := by
  have hle : r ≤ (x ++ c).length := by
    rw [List.length_append]
    exact Nat.le_add_right_of_le h.le
  have hstart := windowStart_le b (x ++ c) r
  have hlt := lt_windowStart b (x ++ c) r
  have hrest : (window b (x ++ c) r).2.length ≤ (x ++ c).length-windowStart b (x ++ c) r := by
    rw [← List.length_drop]
    exact (parse_rest 0).length_le
  -- the ring and the indices
  have hring : Ring.fill b.size s.ringBuf s.dmaIndex c = Ring.fill b.size s.ringBuf (o+x.length) c :=
    Ring.fill_congr (by rw [h.dma, Nat.mod_mod]) _ _
  have hrecent : Ring.Recent b.size (Ring.fill b.size s.ringBuf s.dmaIndex c) o (x ++ c) := by
    rw [hring]
    exact h.recent.fill c
  have hdma : (s.dmaIndex+c.length) % b.size = (o+(x ++ c).length) % b.size := by
    rw [h.dma, Nat.mod_add_mod, List.length_append, Nat.add_assoc]
  have hholds : Holds b (Ring.fill b.size s.ringBuf s.dmaIndex c) (o+windowStart b (x ++ c) r)
      ((x ++ c).drop (windowStart b (x ++ c) r)) := by
    intro j hj
    rw [List.length_drop] at hj
    rw [List.getElem?_drop, hrecent _ (by omega) (by omega), ← Nat.add_assoc]
  have hloop := receiveLoop_parse hholds (by rw [List.length_drop]; omega)
    (by rw [List.length_drop]; exact Nat.sub_lt_left_of_lt_add hstart hlt)
  have hstop : o+windowStart b (x ++ c) r+((x ++ c).length-windowStart b (x ++ c) r) = o+(x ++ c).length := by omega
  have hread : o+windowStart b (x ++ c) r+((x ++ c).length-windowStart b (x ++ c) r-(window b (x ++ c) r).2.length) =
      o+((x ++ c).length-(window b (x ++ c) r).2.length) := by omega
  rw [List.length_drop, hstop, windowStart_mod hle, parse_shift o] at hloop
  have hwindow : parse windowStep 0 (windowStart b (x ++ c) r) ((x ++ c).drop (windowStart b (x ++ c) r)) =
      window b (x ++ c) r := rfl
  rw [hwindow, hread] at hloop
  have hwrite : ((o+x.length) % b.size+c.length) % b.size = (o+(x ++ c).length) % b.size := by
    rw [Nat.mod_add_mod, List.length_append, Nat.add_assoc]
  have hindices := h.indices
  simp only [Receiver.indices] at hindices
  have hcallback : uartEventCallback b { s with ringBuf := Ring.fill b.size s.ringBuf s.dmaIndex c } s.dmaIndex
      c.length = ((window b (x ++ c) r).1.map fun m => place b (o+m.1, m.2),
        { s with
          ringBuf := Ring.fill b.size s.ringBuf s.dmaIndex c
          readIndex := (o+((x ++ c).length-(window b (x ++ c) r).2.length)) % b.size
          writeIndex := (o+(x ++ c).length) % b.size }) := by
    simp only [uartEventCallback, hindices, hwrite, hloop, List.map_map]
    rfl
  simp only [Uart.receive, hcallback, List.map_map]
  constructor
  · refine List.map_congr_left fun m hm => ?_
    obtain ⟨p, len⟩ := m
    obtain ⟨hp, n, hstep⟩ := parse_mem hm
    obtain ⟨-, hlen, -⟩ := windowStep_message hstep
    have hdrop : windowStart b (x ++ c) r+(p-windowStart b (x ++ c) r) = p := by omega
    rw [List.drop_drop, hdrop, List.length_drop] at hlen
    have hbytes : (bufReadCircular b (Ring.fill b.size s.ringBuf s.dmaIndex c) ((o+p+headerSize) % b.size) len).1 =
        ((x ++ c).drop (p+headerSize)).take len := by
      rw [bufReadCircular_eq (Nat.mod_lt _ b.size_pos) (by omega), Ring.read_mod, Nat.add_assoc]
      exact hrecent.read (by simp only [headerSize] at hlen ⊢; omega) (by omega)
    simp only [Function.comp, emit, place, hbytes]
  · refine ⟨hrecent, hdma, Nat.sub_le .., by omega, ?_⟩
    have hsize : b.size ≤ 2^31 := by
      obtain ⟨k, hk, hsize⟩ := b.power
      rw [hsize]
      exact Nat.pow_le_pow_right (by decide) (Nat.le_of_lt_succ hk)
    have hfresh : ¬ ((o+((x ++ c).length-(window b (x ++ c) r).2.length)) % b.size = sizeMax ∧
        (o+(x ++ c).length) % b.size = sizeMax) := by
      have := Nat.mod_lt (o+(x ++ c).length) b.size_pos
      simp only [sizeMax]
      omega
    simp only [Receiver.indices, if_neg hfresh]

end OrbFirmware.Uart

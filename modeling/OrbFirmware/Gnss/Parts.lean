import Mathlib.Data.List.TakeWhile
import OrbFirmware.Gnss.Thread

/-! `send_nmea_message`: a message goes to the Jetson in two parts, with an even and an odd counter; and how they are put
together there. -/
namespace OrbFirmware.Gnss
open OrbFirmware.Machine

/-- `GNSSDataPartial`; `nmeaPart` is the whole array. -/
structure GnssPart where
  counter : UInt32
  nmeaPart : List UInt8

/-- The characters in front of the NUL. -/
def cString (bytes : List UInt8) : List UInt8 := bytes.takeWhile (· != 0)

/-- At most `n` characters, with NULs behind a shorter string. -/
def strncpy (dest src : List UInt8) (n : Nat) : List UInt8 :=
  src.take n ++ List.replicate (n - src.length) 0 ++ dest.drop n

/-- The array with the first part of a message in it, `partSize` being its size. -/
def firstArray (partSize : Nat) (nmeaPart nmeaStr : List UInt8) : List UInt8 :=
  let min := min nmeaStr.length (partSize - 1)
  nmeaStr.take min ++ 0 :: nmeaPart.drop (min + 1)

/-- The array with the second part in it, behind the first one. -/
def secondArray (partSize : Nat) (nmeaPart nmeaStr : List UInt8) : List UInt8 :=
  strncpy (firstArray partSize nmeaPart nmeaStr) (nmeaStr.drop (min nmeaStr.length (partSize - 1))) (partSize - 1)

/-- `send_nmea_message` with its static variables, where `published` tells which of the parts `publish_new` takes; the
second one is tried only after the first. -/
def sendNmeaMessage (partSize : Nat) (msg : GnssPart) (nmeaStr : List UInt8) (published : Bool × Bool) :
    List GnssPart × GnssPart :=
  let counter := if msg.counter % 2 ≠ 0 then msg.counter + 1 else msg.counter
  let first := firstArray partSize msg.nmeaPart nmeaStr
  let second := secondArray partSize msg.nmeaPart nmeaStr
  if published.1 then
    (⟨counter, first⟩ :: if published.2 then [⟨counter + 1, second⟩] else [], ⟨counter + 2, second⟩)
  else ([], ⟨counter + 2, first⟩)

/-- The static variables: the counter is that of the next message, here and below. -/
def gnssPartStart (partSize : Nat) : GnssPart := ⟨0, List.replicate partSize 0⟩

/-- A text to be sent, and which of its parts will be published. -/
abbrev Sending := List UInt8 × Bool × Bool

def sendStep (partSize : Nat) (msg : GnssPart) (sending : Sending) : List GnssPart × GnssPart :=
  sendNmeaMessage partSize msg sending.1 sending.2

/-! The other end: an even part is kept until the odd one with the next counter comes. -/

def joinParts (first : Option GnssPart) (part : GnssPart) : List (List UInt8) × Option GnssPart :=
  if part.counter % 2 = 0 then ([], some part)
  else
    match first with
    | some kept =>
      (if kept.counter + 1 = part.counter then [cString kept.nmeaPart ++ cString part.nmeaPart] else [], none)
    | none => ([], none)

variable {partSize i : Nat} {msg : GnssPart} {text : List UInt8} {published : Bool × Bool} {sendings : List Sending}

/-! What is sent. -/

/-- The variables before message `i`: the last byte of the array is always NUL. -/
structure SenderInv (partSize i : Nat) (msg : GnssPart) : Prop where
  counter : msg.counter = UInt32.ofNat (2*i)
  terminated : msg.nmeaPart.drop (partSize - 1) = [0]

theorem cString_append (text rest : List UInt8) : cString (text ++ 0 :: rest) = cString text := by
  induction text with
  | nil => rfl
  | cons ch text ih =>
    rw [cString, cString] at *
    rw [List.cons_append, List.takeWhile_cons, List.takeWhile_cons, ih]

theorem cString_append_nul (text rest : List UInt8) (h : 0 ∉ text) : cString (text ++ 0 :: rest) = text := by
  rw [cString_append, cString, List.takeWhile_eq_self_iff]
  exact fun ch hch => bne_iff_ne.mpr fun hzero => h (hzero ▸ hch)

theorem counter_even (i : Nat) : UInt32.ofNat (2*i) % 2 = 0 := by
  have htwo : (2 : UInt32).toNat = 2 := rfl
  rw [← UInt32.toNat_inj, UInt32.toNat_mod, UInt32.toNat_ofNat', htwo, UInt32.toNat_zero]
  omega

theorem counter_odd (i : Nat) : ¬(UInt32.ofNat (2*i) + 1) % 2 = 0 := by
  have htwo : (2 : UInt32).toNat = 2 := rfl
  have hone : (1 : UInt32).toNat = 1 := rfl
  rw [← UInt32.toNat_inj, UInt32.toNat_mod, UInt32.toNat_add, UInt32.toNat_ofNat', htwo, hone, UInt32.toNat_zero]
  omega

/-- Counters of less than 2^31 messages are different. -/
theorem counter_inj {i j : Nat} (hi : i < 2^31) (hj : j < 2^31)
    (h : UInt32.ofNat (2*i) + 1 = UInt32.ofNat (2*j) + 1) : i = j := by
  have hone : (1 : UInt32).toNat = 1 := rfl
  rw [← UInt32.toNat_inj, UInt32.toNat_add, UInt32.toNat_add, UInt32.toNat_ofNat', UInt32.toNat_ofNat', hone] at h
  omega

theorem SenderInv.start (h : 0 < partSize) : SenderInv partSize 0 (gnssPartStart partSize) where
  counter := rfl
  terminated := by
    have hone : partSize - (partSize - 1) = 1 := by omega
    rw [gnssPartStart, List.drop_replicate, hone]
    rfl

theorem firstArray_drop {nmeaPart : List UInt8} (h : nmeaPart.drop (partSize - 1) = [0]) :
    (firstArray partSize nmeaPart text).drop (partSize - 1) = [0] := by
  rw [firstArray]
  by_cases hlong : partSize - 1 ≤ text.length
  · have hlen : (text.take (partSize - 1)).length = partSize - 1 := by
      rw [List.length_take]
      omega
    rw [Nat.min_eq_right hlong, List.drop_left' hlen, ← List.drop_drop, h]
    rfl
  · obtain ⟨k, hk⟩ : ∃ k, partSize - 1 = text.length + (k + 1) := ⟨partSize - 1 - text.length - 1, by omega⟩
    have hrest : text.length + 1 + k = partSize - 1 := by omega
    rw [Nat.min_eq_left (by omega), List.take_length, hk, ← List.drop_drop, List.drop_left, List.drop_succ_cons,
      List.drop_drop, hrest, h]

theorem firstArray_cString {nmeaPart : List UInt8} (htext : 0 ∉ text) :
    cString (firstArray partSize nmeaPart text) = text.take (partSize - 1) := by
  have htake : text.take (min text.length (partSize - 1)) = text.take (partSize - 1) := by
    rw [List.take_eq_take_iff]
    omega
  rw [firstArray, htake]
  exact cString_append_nul _ _ fun hmem => htext (List.mem_of_mem_take hmem)

theorem strncpy_length (src : List UInt8) (n : Nat) :
    (src.take n ++ List.replicate (n - src.length) (0 : UInt8)).length = n := by
  rw [List.length_append, List.length_take, List.length_replicate]
  omega

theorem secondArray_drop {nmeaPart : List UInt8} (h : nmeaPart.drop (partSize - 1) = [0]) :
    (secondArray partSize nmeaPart text).drop (partSize - 1) = [0] := by
  rw [secondArray, strncpy, firstArray_drop h, List.drop_left' (strncpy_length _ _)]

theorem secondArray_cString {nmeaPart : List UInt8} (h : nmeaPart.drop (partSize - 1) = [0]) (htext : 0 ∉ text) :
    cString (secondArray partSize nmeaPart text) = (text.drop (partSize - 1)).take (partSize - 1) := by
  have hsrc : text.drop (min text.length (partSize - 1)) = text.drop (partSize - 1) := by
    by_cases hlong : partSize - 1 ≤ text.length
    · rw [Nat.min_eq_right hlong]
    · rw [List.drop_eq_nil_of_le (by omega), List.drop_eq_nil_of_le (by omega)]
  rw [secondArray, strncpy, firstArray_drop h, hsrc, List.append_assoc, ← List.replicate_succ', List.replicate_succ]
  exact cString_append_nul _ _ fun hmem => htext (List.mem_of_mem_drop (List.mem_of_mem_take hmem))

/-- The two parts of message `i`. -/
structure PartsOf (partSize i : Nat) (text : List UInt8) (first second : GnssPart) : Prop where
  first_counter : first.counter = UInt32.ofNat (2*i)
  first_text : cString first.nmeaPart = text.take (partSize - 1)
  second_counter : second.counter = UInt32.ofNat (2*i) + 1
  second_text : cString second.nmeaPart = (text.drop (partSize - 1)).take (partSize - 1)

/-- Message `i` is sent: its parts, as far as they are published, and the variables before the next one. -/
theorem SenderInv.send (h : SenderInv partSize i msg) (published : Bool × Bool) (htext : 0 ∉ text) :
    SenderInv partSize (i+1) (sendNmeaMessage partSize msg text published).2 ∧
      ∃ first second, PartsOf partSize i text first second ∧ (sendNmeaMessage partSize msg text published).1 =
        if published.1 then first :: if published.2 then [second] else [] else [] := by
  have hcounter : UInt32.ofNat (2*i) + 2 = UInt32.ofNat (2*(i+1)) := (UInt32.ofNat_add (2*i) 2).symm
  have hparts : PartsOf partSize i text ⟨UInt32.ofNat (2*i), firstArray partSize msg.nmeaPart text⟩
      ⟨UInt32.ofNat (2*i) + 1, secondArray partSize msg.nmeaPart text⟩ :=
    ⟨rfl, firstArray_cString htext, rfl, secondArray_cString h.terminated htext⟩
  simp only [sendNmeaMessage, h.counter, counter_even, ne_eq, not_true_eq_false, if_false, hcounter]
  refine ⟨?_, _, _, hparts, ?_⟩
  · split
    · exact ⟨rfl, secondArray_drop h.terminated⟩
    · exact ⟨rfl, firstArray_drop h.terminated⟩
  · split <;> rfl

/-! What is put together of it. -/

/-- Both parts are published. -/
def Sending.whole (sending : Sending) : Bool := sending.2.1 && sending.2.2

/-- As much of the text as two parts hold. -/
def Sending.joined (partSize : Nat) (sending : Sending) : List UInt8 := sending.1.take (2*(partSize - 1))

theorem PartsOf.join {first second : GnssPart} (h : PartsOf partSize i text first second) :
    cString first.nmeaPart ++ cString second.nmeaPart = text.take (2*(partSize - 1)) := by
  rw [h.first_text, h.second_text, Nat.two_mul, List.take_add]

theorem PartsOf.joinParts_first {first second : GnssPart} (h : PartsOf partSize i text first second)
    (kept : Option GnssPart) : joinParts kept first = ([], some first) := by
  rw [joinParts.eq_def, h.first_counter, if_pos (counter_even i)]

theorem PartsOf.joinParts_second {first second : GnssPart} (h : PartsOf partSize i text first second) :
    joinParts (some first) second = ([text.take (2*(partSize - 1))], none) := by
  rw [joinParts.eq_def, h.second_counter, if_neg (counter_odd i)]
  dsimp only
  rw [if_pos (by rw [h.first_counter]), h.join]

/-- Without loss on the way, the messages of which both parts are published come out, in their order. -/
theorem joined_all (h : SenderInv partSize i msg) (htexts : ∀ sending ∈ sendings, 0 ∉ sending.1)
    (kept : Option GnssPart) :
    events joinParts kept (events (sendStep partSize) msg sendings) =
      (sendings.filter Sending.whole).map (Sending.joined partSize) := by
  induction sendings generalizing i msg kept with
  | nil => rfl
  | cons sending sendings ih =>
    obtain ⟨text, published⟩ := sending
    obtain ⟨hnext, first, second, hparts, hsent⟩ := h.send published (htexts _ List.mem_cons_self)
    have hrest := fun kept => ih hnext (fun sending hmem => htexts sending (List.mem_cons_of_mem _ hmem)) kept
    rw [events_cons, events_append, sendStep, hsent]
    obtain ⟨_ | _, _ | _⟩ := published
    · exact hrest kept
    · exact hrest kept
    · rw [if_pos rfl, if_neg Bool.false_ne_true, events_cons, run_cons, hparts.joinParts_first]
      exact hrest (some first)
    · rw [if_pos rfl, if_pos rfl, events_cons, events_cons, run_cons, run_cons, hparts.joinParts_first,
        hparts.joinParts_second, List.filter_cons_of_pos rfl, List.map_cons]
      exact congrArg _ (hrest none)

/-- A part that is published of one of the messages. -/
def SentPart (partSize : Nat) (sendings : List Sending) (part : GnssPart) : Prop :=
  ∃ i sending first second, sendings[i]? = some sending ∧ PartsOf partSize i sending.1 first second ∧
    (part = first ∨ part = second ∧ sending.whole = true)

theorem sentPart_of_event (h : SenderInv partSize i msg) (htexts : ∀ sending ∈ sendings, 0 ∉ sending.1)
    {part : GnssPart} (hpart : part ∈ events (sendStep partSize) msg sendings) :
    ∃ k sending first second, sendings[k]? = some sending ∧ PartsOf partSize (i+k) sending.1 first second ∧
      (part = first ∨ part = second ∧ sending.whole = true) := by
  induction sendings generalizing i msg with
  | nil => exact absurd hpart List.not_mem_nil
  | cons sending sendings ih =>
    obtain ⟨hnext, first, second, hparts, hsent⟩ := h.send sending.2 (htexts _ List.mem_cons_self)
    rw [events_cons, List.mem_append, sendStep, hsent] at hpart
    rcases hpart with hpart | hpart
    · refine ⟨0, sending, first, second, rfl, hparts, ?_⟩
      obtain ⟨text, _ | _, _ | _⟩ := sending
      · exact absurd hpart List.not_mem_nil
      · exact absurd hpart List.not_mem_nil
      · exact .inl (List.mem_singleton.mp hpart)
      · exact (List.mem_pair.mp hpart).imp_right fun hsecond => ⟨hsecond, rfl⟩
    · obtain ⟨k, sending', first', second', hget, hparts', hwhich⟩ :=
        ih hnext (fun sending hmem => htexts sending (List.mem_cons_of_mem _ hmem)) hpart
      exact ⟨k+1, sending', first', second', hget, by rwa [Nat.add_right_comm, Nat.add_assoc] at hparts', hwhich⟩

/-- An even part and an odd one with the next counter are of one message. -/
theorem joined_pair {first second : GnssPart} (hmany : sendings.length ≤ 2^31) (heven : first.counter % 2 = 0)
    (hodd : ¬second.counter % 2 = 0) (hcounter : first.counter + 1 = second.counter)
    (hfirst : SentPart partSize sendings first) (hsecond : SentPart partSize sendings second) :
    ∃ sending ∈ sendings, sending.whole = true ∧
      cString first.nmeaPart ++ cString second.nmeaPart = sending.joined partSize := by
  obtain ⟨i, sending, first', other, hi, hparts, rfl | ⟨rfl, -⟩⟩ := hfirst
  · obtain ⟨j, sending', other', second', hj, hparts', rfl | ⟨rfl, hwhole⟩⟩ := hsecond
    · exact absurd (hparts'.first_counter ▸ counter_even j) hodd
    · have hij : i = j := by
        refine counter_inj ?_ ?_ (by rw [← hparts.first_counter, hcounter, hparts'.second_counter])
        · exact Nat.lt_of_lt_of_le (List.getElem?_eq_some_iff.mp hi).1 hmany
        · exact Nat.lt_of_lt_of_le (List.getElem?_eq_some_iff.mp hj).1 hmany
      subst hij
      obtain rfl : sending = sending' := Option.some.inj (hi.symm.trans hj)
      refine ⟨sending, List.mem_of_getElem? hi, hwhole, ?_⟩
      rw [hparts.first_text, hparts'.second_text, Sending.joined, Nat.two_mul, List.take_add]
  · exact absurd heven (hparts.second_counter ▸ counter_odd i)

/-- Whatever is lost on the way, comes twice or out of order: what is put together is a message. -/
theorem joined_sent {received : List GnssPart} (hmany : sendings.length ≤ 2^31)
    (hreceived : ∀ part ∈ received, SentPart partSize sendings part) (kept : Option GnssPart)
    (hkept : ∀ part ∈ kept, part.counter % 2 = 0 ∧ SentPart partSize sendings part) :
    ∀ text ∈ events joinParts kept received, ∃ sending ∈ sendings, sending.whole = true ∧
      text = sending.joined partSize := by
  induction received generalizing kept with
  | nil => exact fun _ htext => absurd htext List.not_mem_nil
  | cons part received ih =>
    have hpart := hreceived part List.mem_cons_self
    have hrest := ih fun part hmem => hreceived part (List.mem_cons_of_mem _ hmem)
    intro text htext
    rw [events_cons, List.mem_append, joinParts.eq_def] at htext
    split at htext
    case isTrue heven =>
      rcases htext with htext | htext
      · exact absurd htext List.not_mem_nil
      · exact hrest (some part) (fun part' hsome => Option.mem_some.mp hsome ▸ ⟨heven, hpart⟩) text htext
    case isFalse hodd =>
      have hnone : ∀ part ∈ (none : Option GnssPart), part.counter % 2 = 0 ∧ SentPart partSize sendings part :=
        fun _ hmem => absurd hmem (by simp)
      cases hk : kept with
      | none =>
        rw [hk] at htext
        rcases htext with htext | htext
        · exact absurd htext List.not_mem_nil
        · exact hrest none hnone text htext
      | some first =>
        rw [hk] at htext
        rcases htext with htext | htext
        · dsimp only at htext
          split at htext
          case isFalse => exact absurd htext List.not_mem_nil
          case isTrue hcounter =>
            rw [List.mem_singleton.mp htext]
            obtain ⟨heven, hfirst⟩ := hkept first hk
            exact joined_pair hmany heven hodd hcounter hfirst hpart
        · exact hrest none hnone text htext

/-! The thread sends what it parses. -/

/-- The message as a string; `parse_nmea` stores at most 86 characters and a NUL. -/
def Msg.string (msg : Msg) : List UInt8 := cString ((List.range (nmeaMaxSize + 5)).map msg.bytes)

/-- The thread with the variables of `send_nmea_message`; a character comes in, and the parts of the message that it
completes, if it does, are published or not. -/
def gnssSendStep (partSize : Nat) (s : Thread × GnssPart) (input : UInt8 × Bool × Bool) :
    List GnssPart × Thread × GnssPart :=
  match gnssStep s.1 input.1 with
  | (some nmea, thread) => ((sendNmeaMessage partSize s.2 nmea.string input.2).1, thread,
      (sendNmeaMessage partSize s.2 nmea.string input.2).2)
  | (none, thread) => ([], thread, s.2)

/-- The messages that the thread sends. -/
def sendingsOf : Thread → List (UInt8 × Bool × Bool) → List Sending
  | _, [] => []
  | thread, (ch, published) :: input =>
    ((gnssStep thread ch).1.map fun nmea => (nmea.string, published)).toList ++ sendingsOf (gnssStep thread ch).2 input

variable {bytes : Nat → UInt8} {pre body : List UInt8} {ch c0 c1 : UInt8} {nmea : Msg}

theorem cString_nul (bytes : List UInt8) : 0 ∉ cString bytes := fun hmem =>
  absurd (List.mem_takeWhile_imp hmem) (by simp)

theorem events_gnssSend (thread : Thread) (msg : GnssPart) (input : List (UInt8 × Bool × Bool)) :
    events (gnssSendStep partSize) (thread, msg) input = events (sendStep partSize) msg (sendingsOf thread input) := by
  induction input generalizing thread msg with
  | nil => rfl
  | cons head input ih =>
    obtain ⟨ch, published⟩ := head
    rw [events_cons, sendingsOf, gnssSendStep]
    cases hstep : gnssStep thread ch with
    | mk sent next =>
      cases sent with
      | none => exact ih next msg
      | some nmea =>
        dsimp only [Option.map_some, Option.toList_some, List.singleton_append]
        rw [events_cons, ih]
        rfl

theorem Msg.Holds.string_eq (h : nmea.Holds text) (hlen : text.length < nmeaMaxSize + 5) : nmea.string = cString text := by
  obtain ⟨k, hk⟩ : ∃ k, nmeaMaxSize + 5 = text.length + 1 + k := ⟨nmeaMaxSize + 5 - (text.length + 1), by omega⟩
  rw [Msg.string, hk, List.range_add, List.map_append, h, List.append_assoc]
  exact cString_append text _

/-- What the thread sends has been read, with the right checksum. -/
theorem gnss_checked (h : (gnssStep (run gnssStep (gnssStart bytes) pre).2 ch).1 = some nmea) :
    ∃ before body c0 c1, pre ++ [ch] = before ++ sentence body c0 c1 ∧ readChecksum c0 c1 = some (xorOf body) ∧
      nmea.string = cString (sentence body c0 c1) := by
  rcases gnss_cases bytes pre with hnone | ⟨before, text, stage, stored, msg', rfl, hbefore, hafter, hstate⟩
  · simp only [gnssStep, hnone] at h
    split_ifs at h
  · rw [hstate] at h
    rcases hafter.step msg' ch with ⟨stage', stored', hstep, -⟩ | ⟨ret, stored', hstep, hends⟩
    · simp only [gnssStep, hstep] at h
      contradiction
    · simp only [gnssStep, hstep] at h
      split_ifs at h with hret
      subst hret
      generalize htext : text ++ [ch] = consumed at hends
      cases hends with
      | @success body c0 c1 hbody hlen hread =>
        refine ⟨before, body, c0, c1, ?_, hread, ?_⟩
        · rw [List.append_assoc, List.cons_append, htext]
          rfl
        · obtain rfl := Option.some.inj h
          exact (msg'.holds_sentence body c0 c1).string_eq (by rw [sentence_length, nmeaMaxSize]; omega)

theorem sendingsOf_checked (pre : List UInt8) {input : List (UInt8 × Bool × Bool)} {sending : Sending}
    (h : sending ∈ sendingsOf (run gnssStep (gnssStart bytes) pre).2 input) :
    ∃ before body c0 c1 after, pre ++ input.map Prod.fst = before ++ sentence body c0 c1 ++ after ∧
      readChecksum c0 c1 = some (xorOf body) ∧ sending.1 = cString (sentence body c0 c1) := by
  induction input generalizing pre with
  | nil => exact absurd h List.not_mem_nil
  | cons head input ih =>
    obtain ⟨ch, published⟩ := head
    have hnext : (gnssStep (run gnssStep (gnssStart bytes) pre).2 ch).2 =
        (run gnssStep (gnssStart bytes) (pre ++ [ch])).2 := by
      rw [run_append]
      rfl
    have happend : pre ++ ch :: input.map Prod.fst = pre ++ [ch] ++ input.map Prod.fst := by simp
    rw [sendingsOf, List.mem_append, hnext] at h
    rw [List.map_cons, happend]
    rcases h with h | h
    · cases hsent : (gnssStep (run gnssStep (gnssStart bytes) pre).2 ch).1 with
      | none =>
        rw [hsent] at h
        exact absurd h List.not_mem_nil
      | some nmea =>
        rw [hsent] at h
        obtain ⟨before, body, c0, c1, hread, hchecksum, hstring⟩ := gnss_checked hsent
        rw [Option.map_some, Option.toList_some, List.mem_singleton] at h
        exact ⟨before, body, c0, c1, input.map Prod.fst, by rw [hread], hchecksum, by rw [h, hstring]⟩
    · exact ih _ h

theorem sendingsOf_string {thread : Thread} {input : List (UInt8 × Bool × Bool)} :
    ∀ sending ∈ sendingsOf thread input, 0 ∉ sending.1 := by
  induction input generalizing thread with
  | nil => exact fun _ h => absurd h List.not_mem_nil
  | cons head input ih =>
    intro sending h
    rw [sendingsOf, List.mem_append] at h
    rcases h with h | h
    · cases hsent : (gnssStep thread head.1).1 with
      | none =>
        rw [hsent] at h
        exact absurd h List.not_mem_nil
      | some nmea =>
        rw [hsent, Option.map_some, Option.toList_some, List.mem_singleton] at h
        rw [h]
        exact cString_nul _
    · exact ih sending h

/-- From the characters of the receiver to the Jetson, whatever parts are not published, and whatever is lost, doubled or
out of order on the way: what is put together of two parts is a sentence that has been received with the right checksum,
as much of it as two parts hold. This is so for 2^31 messages, after which counters come again. -/
theorem gnss_parts_joined (partSize : Nat) (hsize : 0 < partSize) (bytes : Nat → UInt8)
    (input : List (UInt8 × Bool × Bool)) (hmany : (sendingsOf (gnssStart bytes) input).length ≤ 2^31)
    (received : List GnssPart)
    (hreceived : ∀ part ∈ received,
      part ∈ events (gnssSendStep partSize) (gnssStart bytes, gnssPartStart partSize) input) :
    ∀ text ∈ events joinParts none received, ∃ before body c0 c1 after,
      input.map Prod.fst = before ++ sentence body c0 c1 ++ after ∧ readChecksum c0 c1 = some (xorOf body) ∧
        text = (cString (sentence body c0 c1)).take (2*(partSize - 1)) := by
  have hsent : ∀ part ∈ received, SentPart partSize (sendingsOf (gnssStart bytes) input) part := by
    intro part hpart
    have hevent := hreceived part hpart
    rw [events_gnssSend] at hevent
    obtain ⟨i, sending, first, second, hget, hparts, hwhich⟩ :=
      sentPart_of_event (.start hsize) sendingsOf_string hevent
    rw [Nat.zero_add] at hparts
    exact ⟨i, sending, first, second, hget, hparts, hwhich⟩
  intro text htext
  obtain ⟨sending, hmem, -, rfl⟩ := joined_sent hmany hsent none (fun _ hkept => absurd hkept (by simp)) text htext
  obtain ⟨before, body, c0, c1, after, hread, hchecksum, hstring⟩ := sendingsOf_checked [] hmem
  exact ⟨before, body, c0, c1, after, hread, hchecksum, by rw [Sending.joined, hstring]⟩

/-- "$A*41", of which the second part comes twice. -/
theorem gnss_parts_joined_a : ∃ before body c0 c1 after,
    ((sentence [0x41] 0x34 0x31).map fun ch => (ch, true, true)).map Prod.fst = before ++ sentence body c0 c1 ++ after ∧
      readChecksum c0 c1 = some (xorOf body) ∧
        (sentence [0x41] 0x34 0x31).take 8 = (cString (sentence body c0 c1)).take 8 := by
  let parts := events (gnssSendStep 5) (gnssStart fun _ => 0, gnssPartStart 5)
    ((sentence [0x41] 0x34 0x31).map fun ch => (ch, true, true))
  refine gnss_parts_joined 5 (by decide) (fun _ => 0) ((sentence [0x41] 0x34 0x31).map fun ch => (ch, true, true))
    (by decide +kernel) (parts ++ parts.drop 1) (fun part hpart => ?_) _ (by decide +kernel)
  rcases List.mem_append.mp hpart with hpart | hpart
  · exact hpart
  · exact List.mem_of_mem_drop hpart

/-- Without loss on the way, the messages that the thread sends come out, in their order, except those of which a part is
not published. -/
theorem gnss_parts_lossless (partSize : Nat) (hsize : 0 < partSize) (bytes : Nat → UInt8)
    (input : List (UInt8 × Bool × Bool)) :
    events joinParts none (events (gnssSendStep partSize) (gnssStart bytes, gnssPartStart partSize) input) =
      ((sendingsOf (gnssStart bytes) input).filter Sending.whole).map (Sending.joined partSize) := by
  rw [events_gnssSend]
  exact joined_all (.start hsize) sendingsOf_string none

/-- "$A*41" in parts of 4 characters. -/
theorem gnss_parts_lossless_a :
    events joinParts none (events (gnssSendStep 5) (gnssStart fun _ => 0, gnssPartStart 5)
        ((sentence [0x41] 0x34 0x31).map fun ch => (ch, true, true))) =
      ((sendingsOf (gnssStart fun _ => 0) ((sentence [0x41] 0x34 0x31).map fun ch => (ch, true, true))).filter
        Sending.whole).map (Sending.joined 5) :=
  gnss_parts_lossless 5 (by decide) (fun _ => 0) ((sentence [0x41] 0x34 0x31).map fun ch => (ch, true, true))

end OrbFirmware.Gnss

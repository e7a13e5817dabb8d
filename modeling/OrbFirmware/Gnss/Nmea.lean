import Mathlib.Logic.Function.Basic
import OrbFirmware.Flash
import OrbFirmware.Strtoul

/-! NMEA 0183 sentences read from the GNSS receiver: `parse_nmea`, cut at its calls of `get_char`. -/
namespace OrbFirmware.Gnss
open OrbFirmware.Strtoul

def nmeaMaxSize : Nat := 82

/-! The characters '$', '*', '\r' and '\n'. -/

def dollar : UInt8 := 0x24
def star : UInt8 := 0x2a
def cr : UInt8 := 0x0d
def lf : UInt8 := 0x0a

/-- The memory from `msg` on, of which `nmeaMaxSize + 1` bytes are the array, and the indices written so far. -/
structure Msg where
  bytes : Nat → UInt8
  writes : List Nat

def Msg.set (msg : Msg) (index : Nat) (ch : UInt8) : Msg where
  bytes := Function.update msg.bytes index ch
  writes := msg.writes ++ [index]

/-- The number read from the two characters behind the '*', or `none` where they are not one. -/
def readChecksum (c0 c1 : UInt8) : Option UInt8 :=
  let checksum := [c0, c1, 0]
  let (read, endptr) := strtoul checksum
  if c0 = 0x2d ∨ endptr.head? ≠ some 0 then none else some read.toUInt8

/-- The call of `get_char` in which `parse_nmea` waits, with its variables. -/
inductive Stage where
  | body (index : Nat) (calculatedChecksum : UInt8)
  | checksum0 (index : Nat) (calculatedChecksum : UInt8)
  | checksum1 (index : Nat) (calculatedChecksum checksum0 : UInt8)
  | carriageReturn (index : Nat)
  | newLine (index : Nat)

/-- What `parse_nmea` does with the next character: it waits again, or returns. -/
def parseStep (msg : Msg) : Stage → UInt8 → (Stage ⊕ RetCode) × Msg
  | .body index calculatedChecksum, ch =>
    if index < nmeaMaxSize ∧ ch ≠ star then
      (.inl (.body (index + 1) (calculatedChecksum ^^^ ch)), msg.set index ch)
    else if index = nmeaMaxSize then (.inr .notFound, msg)
    else (.inl (.checksum0 (index + 1) calculatedChecksum), msg.set index ch)
  | .checksum0 index calculatedChecksum, ch => (.inl (.checksum1 index calculatedChecksum ch), msg)
  | .checksum1 index calculatedChecksum checksum0, ch =>
    match readChecksum checksum0 ch with
    | none => (.inr .notFound, msg)
    | some readChecksum =>
      let msg := (msg.set index checksum0).set (index + 1) ch
      if calculatedChecksum ≠ readChecksum then (.inr .notFound, msg) else (.inl (.carriageReturn (index + 2)), msg)
  | .carriageReturn index, ch =>
    if ch ≠ cr then (.inr .notFound, msg) else (.inl (.newLine (index + 1)), msg.set index ch)
  | .newLine index, ch =>
    if ch ≠ lf then (.inr .notFound, msg) else (.inr .success, (msg.set index ch).set (index + 1) 0)

/-- On the characters received, `parse_nmea` returns and leaves some of them, or waits for more. -/
def parseFrom (stage : Stage) (msg : Msg) : List UInt8 → Option RetCode × Msg × List UInt8
  | [] => (none, msg, [])
  | ch :: input =>
    match parseStep msg stage ch with
    | (.inl stage, msg) => parseFrom stage msg input
    | (.inr ret, msg) => (some ret, msg, input)

def parseStart (msg : Msg) : Stage × Msg := (.body 1 0, msg.set 0 dollar)

def parseNmea (msg : Msg) (input : List UInt8) : Option RetCode × Msg × List UInt8 :=
  parseFrom (parseStart msg).1 (parseStart msg).2 input

/-! Sentences. -/

def xorOf (body : List UInt8) : UInt8 := body.foldl (· ^^^ ·) 0

def sentence (body : List UInt8) (c0 c1 : UInt8) : List UInt8 := dollar :: (body ++ [star, c0, c1, cr, lf])

/-- The last two characters are the hexadecimal digits of the body's checksum, and the sentence is not too long. -/
def WellFormed (body : List UInt8) (c0 c1 : UInt8) : Prop :=
  (∃ d0 d1, hexDigit c0 = some d0 ∧ hexDigit c1 = some d1 ∧ (xorOf body).toNat = 16 * d0 + d1) ∧
    (sentence body c0 c1).length ≤ nmeaMaxSize

/-- `msg` is that text, with a NUL behind it. -/
def Msg.Holds (msg : Msg) (text : List UInt8) : Prop := (List.range (text.length + 1)).map msg.bytes = text ++ [0]

/-! Where `parse_nmea` waits or what it has returned, in terms of the characters that it has read. -/

/-- It has read a text and waits, with these characters stored behind the '$'. -/
inductive After : List UInt8 → Stage → List UInt8 → Prop where
  | body {body : List UInt8} (hbody : star ∉ body) (hlen : body.length ≤ 81) :
    After body (.body (body.length + 1) (xorOf body)) body
  | checksum0 {body : List UInt8} (hbody : star ∉ body) (hlen : body.length ≤ 80) :
    After (body ++ [star]) (.checksum0 (body.length + 2) (xorOf body)) (body ++ [star])
  | checksum1 {body : List UInt8} (hbody : star ∉ body) (hlen : body.length ≤ 80) (c0 : UInt8) :
    After (body ++ [star, c0]) (.checksum1 (body.length + 2) (xorOf body) c0) (body ++ [star])
  | carriageReturn {body : List UInt8} {c0 c1 : UInt8} (hbody : star ∉ body) (hlen : body.length ≤ 80)
    (hread : readChecksum c0 c1 = some (xorOf body)) :
    After (body ++ [star, c0, c1]) (.carriageReturn (body.length + 4)) (body ++ [star, c0, c1])
  | newLine {body : List UInt8} {c0 c1 : UInt8} (hbody : star ∉ body) (hlen : body.length ≤ 80)
    (hread : readChecksum c0 c1 = some (xorOf body)) :
    After (body ++ [star, c0, c1, cr]) (.newLine (body.length + 5)) (body ++ [star, c0, c1, cr])

/-- It has read a text and returned. -/
inductive Ends : List UInt8 → RetCode → List UInt8 → Prop where
  | overlong {body : List UInt8} (hbody : star ∉ body) (hlen : body.length = 81) (ch : UInt8) :
    Ends (body ++ [ch]) .notFound body
  | unreadable {body : List UInt8} {c0 c1 : UInt8} (hbody : star ∉ body) (hlen : body.length ≤ 80)
    (hread : readChecksum c0 c1 = none) :
    Ends (body ++ [star, c0, c1]) .notFound (body ++ [star])
  | unequal {body : List UInt8} {c0 c1 read : UInt8} (hbody : star ∉ body) (hlen : body.length ≤ 80)
    (hread : readChecksum c0 c1 = some read) (hne : read ≠ xorOf body) :
    Ends (body ++ [star, c0, c1]) .notFound (body ++ [star, c0, c1])
  | carriageReturn {body : List UInt8} {c0 c1 ch : UInt8} (hbody : star ∉ body) (hlen : body.length ≤ 80)
    (hread : readChecksum c0 c1 = some (xorOf body)) (hch : ch ≠ cr) :
    Ends (body ++ [star, c0, c1, ch]) .notFound (body ++ [star, c0, c1])
  | newLine {body : List UInt8} {c0 c1 ch : UInt8} (hbody : star ∉ body) (hlen : body.length ≤ 80)
    (hread : readChecksum c0 c1 = some (xorOf body)) (hch : ch ≠ lf) :
    Ends (body ++ [star, c0, c1, cr, ch]) .notFound (body ++ [star, c0, c1, cr])
  | success {body : List UInt8} {c0 c1 : UInt8} (hbody : star ∉ body) (hlen : body.length ≤ 80)
    (hread : readChecksum c0 c1 = some (xorOf body)) :
    Ends (body ++ [star, c0, c1, cr, lf]) .success (body ++ [star, c0, c1, cr, lf, 0])

/-! What `parse_nmea` has stored. -/

/-- The characters of a text, stored from an index on. -/
def Msg.store (msg : Msg) (index : Nat) : List UInt8 → Msg
  | [] => msg
  | ch :: text => (msg.set index ch).store (index + 1) text

variable {msg : Msg} {index : Nat} {text body stored : List UInt8} {ch c0 c1 : UInt8} {stage : Stage}

theorem Msg.store_append (text text' : List UInt8) :
    msg.store index (text ++ text') = (msg.store index text).store (index + text.length) text' := by
  induction text generalizing msg index with
  | nil => rfl
  | cons ch text ih =>
    rw [List.cons_append, Msg.store, ih, Msg.store, List.length_cons, Nat.add_assoc, Nat.add_comm 1]

theorem Msg.writes_store (text : List UInt8) :
    (msg.store index text).writes = msg.writes ++ List.range' index text.length := by
  induction text generalizing msg index with
  | nil => exact (List.append_nil _).symm
  | cons ch text ih =>
    rw [Msg.store, ih, Msg.set, List.length_cons, List.range'_succ, List.append_assoc, List.singleton_append]

theorem Msg.bytes_store_before (text : List UInt8) {k : Nat} (h : k < index) :
    (msg.store index text).bytes k = msg.bytes k := by
  induction text generalizing msg index with
  | nil => rfl
  | cons ch text ih =>
    rw [Msg.store, ih (by omega), Msg.set]
    exact Function.update_of_ne (Nat.ne_of_lt h) ch msg.bytes

theorem Msg.bytes_store (msg : Msg) (index : Nat) (text : List UInt8) :
    (List.range' index text.length).map (msg.store index text).bytes = text := by
  induction text generalizing msg index with
  | nil => rfl
  | cons ch text ih =>
    rw [List.length_cons, List.range'_succ, List.map_cons, Msg.store, ih, Msg.bytes_store_before text (by omega)]
    have hself : (msg.set index ch).bytes index = ch := by
      simp [Msg.set]
    rw [hself]

theorem Msg.holds_store (msg : Msg) (text : List UInt8) : (msg.store 0 (text ++ [0])).Holds text := by
  have hstored := msg.bytes_store 0 (text ++ [0])
  rwa [List.length_append, List.length_singleton, ← List.range_eq_range'] at hstored

/-- The memory, once these characters have been stored behind the '$'. -/
def Msg.parsed (msg : Msg) (stored : List UInt8) : Msg := msg.store 0 (dollar :: stored)

theorem Msg.parsed_append (msg : Msg) (stored text : List UInt8) :
    msg.parsed (stored ++ text) = (msg.parsed stored).store (stored.length + 1) text := by
  rw [Msg.parsed, ← List.cons_append, Msg.store_append, Nat.zero_add, List.length_cons]
  rfl

theorem Msg.holds_sentence (msg : Msg) (body : List UInt8) (c0 c1 : UInt8) :
    (msg.parsed (body ++ [star, c0, c1, cr, lf, 0])).Holds (sentence body c0 c1) := by
  have hholds := msg.holds_store (sentence body c0 c1)
  rw [sentence, List.cons_append, List.append_assoc] at hholds
  exact hholds

theorem xorOf_append (body : List UInt8) (ch : UInt8) : xorOf (body ++ [ch]) = xorOf body ^^^ ch :=
  List.foldl_append

theorem after_start : After [] (.body 1 0) [] := .body List.not_mem_nil (Nat.zero_le 81)

/-- One more character of a body. -/
theorem parseStep_body (msg : Msg) (hlen : body.length < 81) (hch : ch ≠ star) :
    parseStep (msg.parsed body) (.body (body.length + 1) (xorOf body)) ch =
      (.inl (.body ((body ++ [ch]).length + 1) (xorOf (body ++ [ch]))), msg.parsed (body ++ [ch])) := by
  have hlt : body.length + 1 < nmeaMaxSize := by
    unfold nmeaMaxSize
    omega
  have hlen' : (body ++ [ch]).length = body.length + 1 := List.length_append
  simp only [parseStep, Msg.parsed_append, Msg.store, ne_eq, hch, not_false_eq_true, hlt, and_self, if_true,
    xorOf_append, hlen']

/-- The '*' behind a body. -/
theorem parseStep_star (msg : Msg) (hlen : body.length < 81) :
    parseStep (msg.parsed body) (.body (body.length + 1) (xorOf body)) star =
      (.inl (.checksum0 (body.length + 2) (xorOf body)), msg.parsed (body ++ [star])) := by
  have hne : body.length + 1 ≠ nmeaMaxSize := by
    unfold nmeaMaxSize
    omega
  simp only [parseStep, Msg.parsed_append, Msg.store, ne_eq, not_true_eq_false, and_false, if_false, hne]

/-- One more character. -/
theorem After.step (h : After text stage stored) (msg : Msg) (ch : UInt8) :
    (∃ stage' stored', parseStep (msg.parsed stored) stage ch = (.inl stage', msg.parsed stored') ∧
      After (text ++ [ch]) stage' stored') ∨
    ∃ ret stored', parseStep (msg.parsed stored) stage ch = (.inr ret, msg.parsed stored') ∧
      Ends (text ++ [ch]) ret stored' := by
  cases h with
  | body hbody hlen =>
    by_cases hfull : text.length = 81
    · right
      refine ⟨.notFound, text, ?_, .overlong hbody hfull ch⟩
      simp [parseStep, hfull, nmeaMaxSize]
    · left
      by_cases hch : ch = star
      · subst hch
        exact ⟨_, _, parseStep_star msg (by omega), .checksum0 hbody (by omega)⟩
      · have hbody' : star ∉ text ++ [ch] := by simpa [hbody] using Ne.symm hch
        have hlen' : (text ++ [ch]).length = text.length + 1 := List.length_append
        exact ⟨_, _, parseStep_body msg (by omega) hch, .body hbody' (by omega)⟩
  | checksum0 hbody hlen =>
    left
    rw [List.append_assoc]
    exact ⟨_, _, rfl, .checksum1 hbody hlen ch⟩
  | checksum1 hbody hlen c0 =>
    rename_i body
    rw [List.append_assoc]
    cases hread : readChecksum c0 ch with
    | none => exact .inr ⟨_, _, by simp only [parseStep, hread], .unreadable hbody hlen hread⟩
    | some read =>
      have hstored : msg.parsed (body ++ [star, c0, ch]) =
          ((msg.parsed (body ++ [star])).set (body.length + 2) c0).set (body.length + 3) ch := by
        have happend : body ++ [star, c0, ch] = body ++ [star] ++ [c0, ch] := by simp
        rw [happend, Msg.parsed_append, List.length_append]
        rfl
      by_cases hne : read = xorOf body
      · subst hne
        exact .inl ⟨_, _, by simp [parseStep, hread, hstored], .carriageReturn hbody hlen hread⟩
      · exact .inr ⟨_, _, by simp [parseStep, hread, hstored, Ne.symm hne], .unequal hbody hlen hread hne⟩
  | carriageReturn hbody hlen hread =>
    rename_i body c0 c1
    rw [List.append_assoc]
    by_cases hch : ch = cr
    · subst hch
      have hstored : msg.parsed (body ++ [star, c0, c1, cr]) =
          (msg.parsed (body ++ [star, c0, c1])).set (body.length + 4) cr := by
        have happend : body ++ [star, c0, c1, cr] = body ++ [star, c0, c1] ++ [cr] := by simp
        rw [happend, Msg.parsed_append, List.length_append]
        rfl
      exact .inl ⟨_, _, by simp [parseStep, hstored], .newLine hbody hlen hread⟩
    · exact .inr ⟨_, _, by simp [parseStep, hch], .carriageReturn hbody hlen hread hch⟩
  | newLine hbody hlen hread =>
    rename_i body c0 c1
    rw [List.append_assoc]
    right
    by_cases hch : ch = lf
    · subst hch
      have hstored : msg.parsed (body ++ [star, c0, c1, cr, lf, 0]) =
          ((msg.parsed (body ++ [star, c0, c1, cr])).set (body.length + 5) lf).set (body.length + 6) 0 := by
        have happend : body ++ [star, c0, c1, cr, lf, 0] = body ++ [star, c0, c1, cr] ++ [lf, 0] := by simp
        rw [happend, Msg.parsed_append, List.length_append]
        rfl
      exact ⟨_, _, by simp [parseStep, hstored], .success hbody hlen hread⟩
    · exact ⟨_, _, by simp [parseStep, hch], .newLine hbody hlen hread hch⟩

/-- All that is received. -/
theorem After.parseFrom (h : After text stage stored) (msg : Msg) (input : List UInt8) :
    (∃ stage' stored', parseFrom stage (msg.parsed stored) input = (none, msg.parsed stored', []) ∧
      After (text ++ input) stage' stored') ∨
    ∃ consumed rest ret stored', input = consumed ++ rest ∧
      parseFrom stage (msg.parsed stored) input = (some ret, msg.parsed stored', rest) ∧
      Ends (text ++ consumed) ret stored' := by
  induction input generalizing text stage stored with
  | nil => exact .inl ⟨stage, stored, rfl, by rwa [List.append_nil]⟩
  | cons ch input ih =>
    rcases h.step msg ch with ⟨stage', stored', hstep, hafter⟩ | ⟨ret, stored', hstep, hends⟩
    · have hparse : Gnss.parseFrom stage (msg.parsed stored) (ch :: input) =
          Gnss.parseFrom stage' (msg.parsed stored') input := by
        rw [Gnss.parseFrom, hstep]
      rcases ih hafter with ⟨stage'', stored'', hrun, hwaits⟩ | ⟨consumed, rest, ret, stored'', rfl, hrun, hends⟩
      · rw [List.append_assoc] at hwaits
        exact .inl ⟨stage'', stored'', hparse.trans hrun, hwaits⟩
      · rw [List.append_assoc] at hends
        exact .inr ⟨ch :: consumed, rest, ret, stored'', rfl, hparse.trans hrun, hends⟩
    · exact .inr ⟨[ch], input, ret, stored', rfl, by rw [Gnss.parseFrom, hstep], hends⟩

theorem parseNmea_cases (msg : Msg) (input : List UInt8) :
    (∃ stage stored, parseNmea msg input = (none, msg.parsed stored, []) ∧ After input stage stored) ∨
    ∃ consumed rest ret stored, input = consumed ++ rest ∧
      parseNmea msg input = (some ret, msg.parsed stored, rest) ∧ Ends consumed ret stored :=
  after_start.parseFrom msg input

end OrbFirmware.Gnss

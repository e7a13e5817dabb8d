import Mathlib.Data.List.Basic
import OrbFirmware.Gnss.Nmea

/-! Which sentences `parse_nmea` accepts, and what it writes. -/
namespace OrbFirmware.Gnss
open OrbFirmware.Strtoul

/-- The characters behind a '$' are parsed as they should be: no index outside the array is written, and `parse_nmea`
returns `RET_SUCCESS` for a well-formed sentence and for nothing else, with the sentence in `msg`. -/
structure ParsesNmea (bytes : Nat → UInt8) (input : List UInt8) : Prop where
  within : ∀ index ∈ (parseNmea ⟨bytes, []⟩ input).2.1.writes, index < nmeaMaxSize + 1
  success_iff : (parseNmea ⟨bytes, []⟩ input).1 = some .success ↔
    ∃ body c0 c1, WellFormed body c0 c1 ∧ dollar :: input = sentence body c0 c1 ++ (parseNmea ⟨bytes, []⟩ input).2.2
  holds : (parseNmea ⟨bytes, []⟩ input).1 = some .success → ∀ body c0 c1,
    dollar :: input = sentence body c0 c1 ++ (parseNmea ⟨bytes, []⟩ input).2.2 →
      (parseNmea ⟨bytes, []⟩ input).2.1.Holds (sentence body c0 c1)

/-- What follows a body and its '*' makes `parse_nmea` write behind the array, or accept two characters that are not
digits: the two convert to a number, and that is equal to the body's checksum where more is read. -/
def Misparsed (body : List UInt8) (c0 c1 : UInt8) (rest : List UInt8) : Prop :=
  ∃ read, readChecksum c0 c1 = some read ∧
    (body.length = 80 ∨
      read = xorOf body ∧
        (body.length = 79 ∧ [cr] <+: rest ∨
          [cr, lf] <+: rest ∧
            (body.length = 77 ∨ body.length = 78 ∨
              body.length ≤ 76 ∧ (hexDigit c0 = none ∨ hexDigit c1 = none))))

variable {bytes : Nat → UInt8} {text body stored input rest : List UInt8} {c0 c1 : UInt8} {stage : Stage}

theorem star_mem {b tail : List UInt8} (h : b ++ tail = body ++ star :: rest) (hlen : body.length < b.length) :
    star ∈ b := by
  have hstar : (b ++ tail)[body.length]? = some star := by
    rw [h, List.getElem?_append_right (Nat.le_refl _), Nat.sub_self]
    rfl
  rw [List.getElem?_append_left hlen] at hstar
  exact List.mem_of_getElem? hstar

/-- A text with less than five characters behind what has no '*' is not a sentence. -/
theorem not_sentence {b tail : List UInt8} (hb : star ∉ b) (htail : tail.length < 5) :
    dollar :: (b ++ tail) ≠ sentence body c0 c1 := by
  intro h
  have htext : b ++ tail = body ++ [star, c0, c1, cr, lf] := (List.cons.inj h).2
  have hlen := congrArg List.length htext
  simp only [List.length_append, List.length_cons, List.length_nil] at hlen
  exact hb (star_mem htext (by omega))

theorem After.not_sentence (h : After text stage stored) : dollar :: text ≠ sentence body c0 c1 := by
  cases h with
  | body hbody =>
    have hshort : dollar :: (text ++ []) ≠ sentence body c0 c1 := Gnss.not_sentence hbody (by decide)
    rwa [List.append_nil] at hshort
  | checksum0 hbody => exact Gnss.not_sentence hbody (by simp)
  | checksum1 hbody => exact Gnss.not_sentence hbody (by simp)
  | carriageReturn hbody => exact Gnss.not_sentence hbody (by simp)
  | newLine hbody => exact Gnss.not_sentence hbody (by simp)

theorem Ends.not_sentence (h : Ends text .notFound stored) : dollar :: text ≠ sentence body c0 c1 := by
  cases h with
  | overlong hbody => exact Gnss.not_sentence hbody (by simp)
  | unreadable hbody => exact Gnss.not_sentence hbody (by simp)
  | unequal hbody => exact Gnss.not_sentence hbody (by simp)
  | carriageReturn hbody => exact Gnss.not_sentence hbody (by simp)
  | newLine _ _ _ hch =>
    intro h
    have hlast := congrArg List.getLast? (List.cons.inj h).2
    simp at hlast
    exact hch hlast

theorem within_parsed (bytes : Nat → UInt8) (stored : List UInt8) :
    (∀ index ∈ (Msg.parsed ⟨bytes, []⟩ stored).writes, index < nmeaMaxSize + 1) ↔ stored.length ≤ 82 := by
  rw [Msg.parsed, Msg.writes_store, List.nil_append, List.length_cons]
  constructor
  · intro h
    have hlast := h stored.length (by simp)
    unfold nmeaMaxSize at hlast
    omega
  · intro hlen index hmem
    rw [List.mem_range'_1] at hmem
    unfold nmeaMaxSize
    omega

/-- Where `parse_nmea` does not accept, only its writes matter. -/
theorem parsesNmea_of_rejects {ret : Option RetCode} (hret : ret ≠ some .success)
    (hparse : parseNmea ⟨bytes, []⟩ input = (ret, Msg.parsed ⟨bytes, []⟩ stored, rest))
    (hnot : ∀ body c0 c1, dollar :: input ≠ sentence body c0 c1 ++ rest) :
    ParsesNmea bytes input ↔ stored.length ≤ 82 := by
  rw [← within_parsed bytes]
  constructor
  · intro h
    have hwithin := h.within
    rwa [hparse] at hwithin
  · intro hwithin
    refine ⟨by rwa [hparse], ?_, ?_⟩
    · rw [hparse]
      constructor
      · intro h
        exact absurd h hret
      · rintro ⟨body, c0, c1, -, hsentence⟩
        exact absurd hsentence (hnot body c0 c1)
    · rw [hparse]
      intro h
      exact absurd h hret

/-- The body of a sentence ends at the first '*'. -/
theorem star_split {body' tail tail' : List UInt8} (h : body ++ star :: tail = body' ++ star :: tail')
    (hbody : star ∉ body) (hbody' : star ∉ body') : body = body' ∧ tail = tail' := by
  induction body generalizing body' with
  | nil =>
    cases body' with
    | nil => exact ⟨rfl, (List.cons.inj h).2⟩
    | cons ch body' => exact absurd ((List.cons.inj h).1 ▸ List.mem_cons_self) hbody'
  | cons ch body ih =>
    cases body' with
    | nil => exact absurd ((List.cons.inj h).1 ▸ List.mem_cons_self) hbody
    | cons ch' body' =>
      obtain ⟨hch, htail⟩ := List.cons.inj h
      obtain ⟨hrest, heq⟩ := ih htail (List.not_mem_of_not_mem_cons hbody) (List.not_mem_of_not_mem_cons hbody')
      exact ⟨List.cons_eq_cons.mpr ⟨hch, hrest⟩, heq⟩

theorem misparsed_unique {tail : List UInt8} (hbody : star ∉ body) (hinput : input = body ++ star :: tail) :
    (∀ body c0 c1 rest, input = body ++ star :: c0 :: c1 :: rest → star ∉ body → ¬Misparsed body c0 c1 rest) ↔
      ∀ c0 c1 rest, tail = c0 :: c1 :: rest → ¬Misparsed body c0 c1 rest := by
  constructor
  · rintro h c0 c1 rest rfl
    exact h body c0 c1 rest hinput hbody
  · intro h body' c0 c1 rest hinput' hbody'
    obtain ⟨rfl, htail⟩ := star_split (hinput.symm.trans hinput') hbody hbody'
    exact h c0 c1 rest htail

theorem misparsed_known (hbody : star ∉ body) (hinput : input = body ++ star :: c0 :: c1 :: rest) :
    (∀ body c0 c1 rest, input = body ++ star :: c0 :: c1 :: rest → star ∉ body → ¬Misparsed body c0 c1 rest) ↔
      ¬Misparsed body c0 c1 rest := by
  rw [misparsed_unique hbody hinput]
  constructor
  · intro h
    exact h c0 c1 rest rfl
  · rintro h c0' c1' rest' htail
    obtain ⟨rfl, rfl, rfl⟩ : c0 = c0' ∧ c1 = c1' ∧ rest = rest' := by simpa using htail
    exact h

/-- What the characters read behind a checksum that is equal say about `Misparsed`. -/
theorem misparsed_of_equal (hread : readChecksum c0 c1 = some (xorOf body)) :
    Misparsed body c0 c1 rest ↔
      body.length = 80 ∨ body.length = 79 ∧ [cr] <+: rest ∨
        [cr, lf] <+: rest ∧ (body.length = 77 ∨ body.length = 78 ∨
          body.length ≤ 76 ∧ (hexDigit c0 = none ∨ hexDigit c1 = none)) := by
  unfold Misparsed
  constructor
  · rintro ⟨read, hread', hlen | ⟨-, hrest⟩⟩
    · exact .inl hlen
    · exact .inr hrest
  · rintro (hlen | hrest)
    · exact ⟨_, hread, .inl hlen⟩
    · exact ⟨_, hread, .inr ⟨rfl, hrest⟩⟩

theorem readChecksum_digits {d0 d1 : Nat} (h0 : hexDigit c0 = some d0) (h1 : hexDigit c1 = some d1) :
    readChecksum c0 c1 = some (UInt8.ofNat (16 * d0 + d1)) := by
  have hminus : c0 ≠ 0x2d := (hexDigit_facts h0).2.2.1
  simp [readChecksum, strtoul_pair h0 h1, hminus]

/-- The condition on the checksum of a sentence, in terms of what is read. -/
theorem readChecksum_equal {d0 d1 : Nat} (h0 : hexDigit c0 = some d0) (h1 : hexDigit c1 = some d1) :
    readChecksum c0 c1 = some (xorOf body) ↔ (xorOf body).toNat = 16 * d0 + d1 := by
  have hlt0 : d0 < 16 := (hexDigit_facts h0).1
  have hlt1 : d1 < 16 := (hexDigit_facts h1).1
  have hvalue : (UInt8.ofNat (16 * d0 + d1)).toNat = 16 * d0 + d1 := by
    rw [UInt8.toNat_ofNat']
    omega
  rw [readChecksum_digits h0 h1, Option.some.injEq, ← UInt8.toNat_inj, hvalue]
  exact eq_comm

/-- Where `parse_nmea` still waits, the text is misparsed if it has written too much. -/
theorem After.misparsed_iff (h : After text stage stored) : stored.length ≤ 82 ↔
    ∀ body c0 c1 rest, text = body ++ star :: c0 :: c1 :: rest → star ∉ body → ¬Misparsed body c0 c1 rest := by
  cases h with
  | body hbody hlen =>
    refine iff_of_true (by omega) ?_
    rintro body c0 c1 rest rfl
    exact absurd (by simp) hbody
  | checksum0 hbody hlen =>
    rw [misparsed_unique hbody rfl, List.length_append]
    exact iff_of_true (by simp; omega) (by simp)
  | checksum1 hbody hlen c0 =>
    rw [misparsed_unique hbody rfl, List.length_append]
    exact iff_of_true (by simp; omega) (by simp)
  | carriageReturn hbody hlen hread =>
    rw [misparsed_known hbody rfl, misparsed_of_equal hread, List.length_append]
    simp
    omega
  | newLine hbody hlen hread =>
    rw [misparsed_known hbody rfl, misparsed_of_equal hread, List.length_append]
    simp
    omega

/-- Where it has returned without accepting, the same. -/
theorem Ends.misparsed_iff (h : Ends text .notFound stored) (rest : List UInt8) : stored.length ≤ 82 ↔
    ∀ body c0 c1 rest', text ++ rest = body ++ star :: c0 :: c1 :: rest' → star ∉ body →
      ¬Misparsed body c0 c1 rest' := by
  cases h with
  | @overlong b hbody hlen ch =>
    refine iff_of_true (by omega) ?_
    rintro body c0 c1 rest' hinput hbody' ⟨read, -, hmisparsed⟩
    rw [List.append_assoc] at hinput
    exact hbody (star_mem hinput (by omega))
  | @unreadable b c0 c1 hbody hlen hread =>
    rw [misparsed_known hbody (by rw [List.append_assoc]; rfl), List.length_append]
    refine iff_of_true (by simp; omega) ?_
    rintro ⟨read, hread', -⟩
    exact absurd (hread.symm.trans hread') (by simp)
  | @unequal b c0 c1 read hbody hlen hread hne =>
    rw [misparsed_known hbody (by rw [List.append_assoc]; rfl), List.length_append]
    constructor
    · rintro hlen' ⟨read', hread', hfull | ⟨heq, -⟩⟩
      · simp at hlen'
        omega
      · rw [hread, Option.some.injEq] at hread'
        exact hne (hread'.trans heq)
    · intro hnot
      have hfull : b.length ≠ 80 := fun hfull => hnot ⟨read, hread, .inl hfull⟩
      simp
      omega
  | carriageReturn hbody hlen hread hch =>
    rw [misparsed_known hbody (by rw [List.append_assoc]; rfl), misparsed_of_equal hread, List.length_append]
    simp [hch.symm]
    omega
  | newLine hbody hlen hread hch =>
    rw [misparsed_known hbody (by rw [List.append_assoc]; rfl), misparsed_of_equal hread, List.length_append]
    simp [hch.symm]
    omega

/-- Where it has accepted, the array has to be large enough and both characters have to be digits. -/
theorem parsesNmea_of_accepts (hread : readChecksum c0 c1 = some (xorOf body))
    (hparse : parseNmea ⟨bytes, []⟩ input =
      (some .success, Msg.parsed ⟨bytes, []⟩ (body ++ [star, c0, c1, cr, lf, 0]), rest))
    (hinput : input = body ++ [star, c0, c1, cr, lf] ++ rest) :
    ParsesNmea bytes input ↔ body.length ≤ 76 ∧ hexDigit c0 ≠ none ∧ hexDigit c1 ≠ none := by
  have hsentence : ∀ body' c0' c1', dollar :: input = sentence body' c0' c1' ++ rest →
      body = body' ∧ c0 = c0' ∧ c1 = c1' := by
    intro body' c0' c1' h
    have htext : body ++ [star, c0, c1, cr, lf] = body' ++ [star, c0', c1', cr, lf] :=
      List.append_cancel_right (hinput.symm.trans (List.cons.inj h).2)
    obtain ⟨hbody, htail⟩ := List.append_inj' htext rfl
    exact ⟨hbody, by simpa using htail⟩
  have hwithin := within_parsed bytes (body ++ [star, c0, c1, cr, lf, 0])
  rw [List.length_append] at hwithin
  constructor
  · intro h
    have hwrites := h.within
    have haccepted := h.success_iff
    rw [hparse] at hwrites haccepted
    have hlen := hwithin.mp hwrites
    obtain ⟨body', c0', c1', ⟨⟨d0, d1, h0, h1, -⟩, -⟩, heq⟩ := haccepted.mp rfl
    obtain ⟨-, rfl, rfl⟩ := hsentence body' c0' c1' heq
    simp only [List.length_cons, List.length_nil] at hlen
    exact ⟨by omega, by simp [h0], by simp [h1]⟩
  · rintro ⟨hlen, h0, h1⟩
    obtain ⟨d0, h0⟩ := Option.ne_none_iff_exists'.mp h0
    obtain ⟨d1, h1⟩ := Option.ne_none_iff_exists'.mp h1
    refine ⟨?_, ?_, ?_⟩
    · rw [hparse]
      refine hwithin.mpr ?_
      simp only [List.length_cons, List.length_nil]
      omega
    · rw [hparse]
      refine iff_of_true rfl ⟨body, c0, c1, ⟨⟨d0, d1, h0, h1, (readChecksum_equal h0 h1).mp hread⟩, ?_⟩, ?_⟩
      · simp [sentence, nmeaMaxSize]
        omega
      · rw [hinput]
        rfl
    · rw [hparse]
      intro _ body' c0' c1' heq
      obtain ⟨rfl, rfl, rfl⟩ := hsentence body' c0' c1' heq
      exact Msg.holds_sentence ⟨bytes, []⟩ body c0 c1

/-- `parse_nmea` parses what follows a '$' as it should if and only if that does not start with a text that it
misparses. -/
theorem parsesNmea_iff (bytes : Nat → UInt8) (input : List UInt8) : ParsesNmea bytes input ↔
    ∀ body c0 c1 rest, input = body ++ star :: c0 :: c1 :: rest → star ∉ body → ¬Misparsed body c0 c1 rest := by
  rcases parseNmea_cases ⟨bytes, []⟩ input with
    ⟨stage, stored, hparse, hafter⟩ | ⟨consumed, rest, ret, stored, rfl, hparse, hends⟩
  · rw [parsesNmea_of_rejects (by decide) hparse (by simpa using fun _ _ _ => hafter.not_sentence)]
    exact hafter.misparsed_iff
  · by_cases hret : ret = .success
    · subst hret
      cases hends with
      | @success body c0 c1 hbody hlen hread =>
        have htext : body ++ [star, c0, c1, cr, lf] ++ rest = body ++ star :: c0 :: c1 :: cr :: lf :: rest := by simp
        rw [parsesNmea_of_accepts hread hparse rfl, misparsed_known hbody htext, misparsed_of_equal hread]
        simp only [List.cons_prefix_cons, List.nil_prefix, and_true, true_and, ne_eq]
        constructor
        · rintro ⟨hshort, h0, h1⟩ (hfull | hfull | hfull | hfull | ⟨-, hdigit | hdigit⟩)
          · omega
          · omega
          · omega
          · omega
          · exact h0 hdigit
          · exact h1 hdigit
        · intro hnot
          refine ⟨by omega, fun h0 => hnot ?_, fun h1 => hnot ?_⟩
          · exact .inr (.inr (.inr (.inr ⟨by omega, .inl h0⟩)))
          · exact .inr (.inr (.inr (.inr ⟨by omega, .inr h1⟩)))
    · have hfound : ret = .notFound := by
        cases hends <;> trivial
      subst hfound
      have hnot : ∀ body c0 c1, dollar :: (consumed ++ rest) ≠ sentence body c0 c1 ++ rest := by
        intro body c0 c1 h
        rw [← List.cons_append] at h
        exact hends.not_sentence (List.append_cancel_right h)
      rw [parsesNmea_of_rejects (by decide) hparse hnot]
      exact hends.misparsed_iff rest

/-- A body of 80 characters and its checksum. -/
def longSentence : List UInt8 := List.replicate 80 0x41 ++ [star, 0x30, 0x30, cr, lf]

theorem long_sentence_overruns : ¬∀ bytes input, ParsesNmea bytes input := by
  intro h
  have hwrites := (h (fun _ => 0) longSentence).within 83 (by decide +kernel)
  exact absurd hwrites (by decide)

end OrbFirmware.Gnss

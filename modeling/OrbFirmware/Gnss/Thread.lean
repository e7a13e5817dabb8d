import Mathlib.Data.List.Induction
import OrbFirmware.Gnss.Sentences
import OrbFirmware.Machine

/-! The GNSS thread: sentences out of the stream of characters. -/
namespace OrbFirmware.Gnss
open OrbFirmware.Strtoul OrbFirmware.Machine

/-- The thread waits for a character in a call of `parse_nmea`, or in its own loop. -/
structure Thread where
  msg : Msg
  parsing : Option Stage

def gnssStart (bytes : Nat → UInt8) : Thread := ⟨⟨bytes, []⟩, none⟩

/-- `gnss_thread_entry_point`, up to the next call of `get_char`; and the message that `send_nmea_message` gets. -/
def gnssStep (s : Thread) (ch : UInt8) : Option Msg × Thread :=
  match s.parsing with
  | none => if ch = dollar then (none, ⟨(parseStart s.msg).2, some (parseStart s.msg).1⟩) else (none, s)
  | some stage =>
    match parseStep s.msg stage ch with
    | (.inl stage, msg) => (none, ⟨msg, some stage⟩)
    | (.inr ret, msg) => (if ret = .success then some msg else none, ⟨msg, none⟩)

/-- A text is given to `send_nmea_message` when its last character, behind `pre`, has been read. -/
def Delivered (bytes : Nat → UInt8) (stream pre text : List UInt8) : Prop :=
  ∃ msg, (run gnssStep (gnssStart bytes) stream).1[pre.length + text.length - 1]? = some (some msg) ∧ msg.Holds text

variable {bytes : Nat → UInt8} {msg : Msg} {pre text body post : List UInt8} {ch c0 c1 : UInt8}

/-- The thread is in its own loop, or in the call for an earlier '$', where it was in its loop. -/
theorem gnss_cases (bytes : Nat → UInt8) (pre : List UInt8) :
    (run gnssStep (gnssStart bytes) pre).2.parsing = none ∨
    ∃ before text stage stored msg, pre = before ++ dollar :: text ∧
      (run gnssStep (gnssStart bytes) before).2.parsing = none ∧ After text stage stored ∧
      (run gnssStep (gnssStart bytes) pre).2 = ⟨Msg.parsed msg stored, some stage⟩ := by
  induction pre using List.reverseRecOn with
  | nil => exact .inl rfl
  | append_singleton pre ch ih =>
    have hrun : (run gnssStep (gnssStart bytes) (pre ++ [ch])).2 =
        (gnssStep (run gnssStep (gnssStart bytes) pre).2 ch).2 := run_append gnssStep _ pre [ch]
    rw [hrun]
    rcases ih with hnone | ⟨before, text, stage, stored, msg, rfl, hbefore, hafter, hstate⟩
    · by_cases hch : ch = dollar
      · subst hch
        refine .inr ⟨pre, [], _, [], (run gnssStep (gnssStart bytes) pre).2.msg, rfl, hnone, after_start, ?_⟩
        simp only [gnssStep, hnone, if_true]
        rfl
      · left
        simp only [gnssStep, hnone, if_neg hch]
    · rw [hstate]
      rcases hafter.step msg ch with ⟨stage', stored', hstep, hafter'⟩ | ⟨ret, stored', hstep, -⟩
      · refine .inr ⟨before, text ++ [ch], stage', stored', msg, by simp, hbefore, hafter', ?_⟩
        simp only [gnssStep, hstep]
      · left
        simp only [gnssStep, hstep]

/-- What is sent is a text that ends here and starts where the thread was in its loop. -/
theorem gnss_sends (h : (gnssStep (run gnssStep (gnssStart bytes) pre).2 ch).1 = some msg) :
    ∃ before body c0 c1, pre ++ [ch] = before ++ sentence body c0 c1 ∧ star ∉ body ∧
      (run gnssStep (gnssStart bytes) before).2.parsing = none ∧ msg.Holds (sentence body c0 c1) := by
  rcases gnss_cases bytes pre with hnone | ⟨before, text, stage, stored, msg', rfl, hbefore, hafter, hstate⟩
  · simp only [gnssStep, hnone] at h
    split_ifs at h
  · rw [hstate] at h
    rcases hafter.step msg' ch with ⟨stage', stored', hstep, -⟩ | ⟨ret, stored', hstep, hends⟩
    · simp only [gnssStep, hstep] at h
      contradiction
    · simp only [gnssStep, hstep] at h
      split_ifs at h with hret
      subst hret
      generalize htext : text ++ [ch] = consumed at hends
      cases hends with
      | @success body c0 c1 hbody hlen hread =>
        refine ⟨before, body, c0, c1, ?_, hbody, hbefore, ?_⟩
        · rw [List.append_assoc, List.cons_append, htext]
          rfl
        · obtain rfl := Option.some.inj h
          exact msg'.holds_sentence body c0 c1

theorem Msg.Holds.getElem? (h : msg.Holds text) {k : Nat} (hk : k < text.length) : text[k]? = some (msg.bytes k) := by
  have hget := congrArg (·[k]?) h
  simp only [List.getElem?_map, List.getElem?_append_left hk] at hget
  rw [← hget, List.getElem?_range (by omega)]
  rfl

theorem sentence_star : (sentence body c0 c1)[body.length + 1]? = some star := by
  simp [sentence]

/-- A text with its '*' at one place is not held together with a longer one that has no '*' up to there. -/
theorem holds_star {body' : List UInt8} {c0' c1' : UInt8} (h : msg.Holds (sentence body c0 c1))
    (h' : msg.Holds (sentence body' c0' c1')) (hbody' : star ∉ body') : body'.length ≤ body.length := by
  by_contra hlt
  have hstar : (sentence body c0 c1)[body.length + 1]? = some (msg.bytes (body.length + 1)) :=
    h.getElem? (by simp [sentence])
  have hother : (sentence body' c0' c1')[body.length + 1]? = some (msg.bytes (body.length + 1)) :=
    h'.getElem? (by simp [sentence]; omega)
  rw [← hstar, sentence_star, sentence, List.getElem?_cons_succ, List.getElem?_append_left (by omega)] at hother
  exact hbody' (List.mem_of_getElem? hother)

/-- The thread reads the characters of a body. -/
theorem run_body (msg : Msg) (text : List UInt8) (hbody : star ∉ text ++ body) (hlen : (text ++ body).length ≤ 81) :
    (run gnssStep ⟨msg.parsed text, some (.body (text.length + 1) (xorOf text))⟩ body).2 =
      ⟨msg.parsed (text ++ body), some (.body ((text ++ body).length + 1) (xorOf (text ++ body)))⟩ := by
  induction body generalizing text with
  | nil =>
    rw [List.append_nil]
    rfl
  | cons ch body ih =>
    have happend : text ++ ch :: body = text ++ [ch] ++ body := by simp
    have hch : ch ≠ star := by
      rintro rfl
      exact hbody (by simp)
    rw [happend] at hbody hlen ⊢
    have htext : text.length < 81 := by
      rw [List.length_append, List.length_append, List.length_singleton] at hlen
      omega
    have hstep : (gnssStep ⟨msg.parsed text, some (.body (text.length + 1) (xorOf text))⟩ ch).2 =
        ⟨msg.parsed (text ++ [ch]), some (.body ((text ++ [ch]).length + 1) (xorOf (text ++ [ch])))⟩ := by
      simp only [gnssStep, parseStep_body msg htext hch]
    rw [run_cons, hstep]
    exact ih (text ++ [ch]) hbody hlen

/-- The thread reads a sentence up to its last character. -/
theorem run_sentence {s : Thread} (hnone : s.parsing = none) (hbody : star ∉ body) (hlen : body.length ≤ 80)
    (hread : readChecksum c0 c1 = some (xorOf body)) :
    (run gnssStep s (dollar :: (body ++ [star, c0, c1, cr]))).2 =
      ⟨s.msg.parsed (body ++ [star, c0, c1, cr]), some (.newLine (body.length + 5))⟩ := by
  have hstart : (gnssStep s dollar).2 = ⟨s.msg.parsed [], some (.body 1 0)⟩ := by
    simp only [gnssStep, hnone, if_true]
    rfl
  have hread' := run_body s.msg [] hbody (by simpa using Nat.le_succ_of_le hlen)
  rw [List.nil_append] at hread'
  have hstored : s.msg.parsed (body ++ [star, c0, c1, cr]) = (((s.msg.parsed (body ++ [star])).set
      (body.length + 2) c0).set (body.length + 3) c1).set (body.length + 4) cr := by
    rw [Msg.parsed_append, Msg.parsed_append]
    rfl
  have hstar : (gnssStep ⟨s.msg.parsed body, some (.body (body.length + 1) (xorOf body))⟩ star).2 =
      ⟨s.msg.parsed (body ++ [star]), some (.checksum0 (body.length + 2) (xorOf body))⟩ := by
    simp only [gnssStep, parseStep_star s.msg (Nat.lt_succ_of_le hlen)]
  have htail : (run gnssStep ⟨s.msg.parsed (body ++ [star]), some (.checksum0 (body.length + 2) (xorOf body))⟩
      [c0, c1, cr]).2 = ⟨s.msg.parsed (body ++ [star, c0, c1, cr]), some (.newLine (body.length + 5))⟩ := by
    simp [run, gnssStep, parseStep, hread, hstored]
  rw [run_cons, hstart, run_append]
  refine (congrArg (fun s => (run gnssStep s [star, c0, c1, cr]).2) hread').trans ?_
  rw [run_cons, hstar, htail]

theorem sentence_length : (sentence body c0 c1).length = body.length + 6 := by
  simp [sentence]

/-- No other '$' than the first starts a sentence at the end of a sentence. -/
theorem sentence_suffix {body' u : List UInt8} {c0' c1' : UInt8} (hwell : WellFormed body c0 c1)
    (hdollar : dollar ∉ body) (h : sentence body c0 c1 = u ++ sentence body' c0' c1') : u = [] ∧ body = body' := by
  obtain ⟨⟨d0, d1, h0, h1, -⟩, -⟩ := hwell
  cases u with
  | nil => exact ⟨rfl, (List.append_inj' (List.cons.inj h).2 rfl).1⟩
  | cons ch u =>
    have hmem : dollar ∈ body ++ [star, c0, c1, cr, lf] := by
      rw [(List.cons.inj h).2]
      exact List.mem_append_right u List.mem_cons_self
    have hdigits : dollar ≠ c0 ∧ dollar ≠ c1 := by
      constructor <;> rintro rfl <;> contradiction
    have hothers : dollar ≠ star ∧ dollar ≠ cr ∧ dollar ≠ lf := by decide
    simp [hdollar, hdigits, hothers] at hmem

/-- A well-formed sentence is delivered if and only if it has no '*' in its body and the thread is in its own loop when
its '$' comes. -/
theorem sentence_delivered_iff (bytes : Nat → UInt8) (pre body post : List UInt8) (c0 c1 : UInt8)
    (hwell : WellFormed body c0 c1) (hdollar : dollar ∉ body) :
    Delivered bytes (pre ++ sentence body c0 c1 ++ post) pre (sentence body c0 c1) ↔
      star ∉ body ∧ (run gnssStep (gnssStart bytes) pre).2.parsing = none := by
  have hstream : pre ++ sentence body c0 c1 ++ post =
      (pre ++ dollar :: (body ++ [star, c0, c1, cr])) ++ lf :: post := by
    simp [sentence]
  have hindex : pre.length + (sentence body c0 c1).length - 1 =
      (pre ++ dollar :: (body ++ [star, c0, c1, cr])).length := by
    simp [sentence]
  have hlast := run_output gnssStep (gnssStart bytes) (pre ++ dollar :: (body ++ [star, c0, c1, cr])) lf post
  unfold Delivered
  rw [hindex, hstream, hlast]
  constructor
  · rintro ⟨msg, hsent, hholds⟩
    obtain ⟨before, body', c0', c1', htext, hbody', hbefore, hholds'⟩ := gnss_sends (Option.some.inj hsent)
    have hshort : body'.length ≤ body.length := holds_star hholds hholds' hbody'
    have hends : pre ++ sentence body c0 c1 = before ++ sentence body' c0' c1' := by
      rw [← htext]
      simp [sentence]
    rcases List.append_eq_append_iff.mp hends with ⟨u, hu, hu'⟩ | ⟨u, hu, hu'⟩
    · obtain ⟨rfl, rfl⟩ := sentence_suffix hwell hdollar hu'
      rw [List.append_nil] at hu
      exact ⟨hbody', hu ▸ hbefore⟩
    · have hlen := congrArg List.length hu'
      rw [List.length_append, sentence_length, sentence_length] at hlen
      obtain rfl : u = [] := List.eq_nil_of_length_eq_zero (by omega)
      obtain ⟨-, rfl⟩ := sentence_suffix (u := []) hwell hdollar hu'.symm
      rw [List.append_nil] at hu
      exact ⟨hbody', hu ▸ hbefore⟩
  · rintro ⟨hbody, hnone⟩
    obtain ⟨⟨d0, d1, h0, h1, hequal⟩, hlen⟩ := hwell
    have hread := (readChecksum_equal h0 h1).mpr hequal
    rw [sentence_length] at hlen
    have hlen' : body.length ≤ 80 := by
      unfold nmeaMaxSize at hlen
      omega
    have hstored : ∀ msg : Msg, msg.parsed (body ++ [star, c0, c1, cr, lf, 0]) =
        ((msg.parsed (body ++ [star, c0, c1, cr])).set (body.length + 5) lf).set (body.length + 6) 0 := by
      intro msg
      rw [Msg.parsed_append, Msg.parsed_append]
      rfl
    refine ⟨(run gnssStep (gnssStart bytes) pre).2.msg.parsed (body ++ [star, c0, c1, cr, lf, 0]), ?_, ?_⟩
    · rw [run_append, run_sentence hnone hbody hlen' hread, hstored]
      simp [gnssStep, parseStep]
    · exact Msg.holds_sentence _ body c0 c1

theorem wellFormed_a : WellFormed [0x41] 0x34 0x31 := ⟨⟨4, 1, by decide⟩, by decide⟩

/-- The sentence "$A*41" behind another one. -/
theorem sentence_delivered_iff_a :
    Delivered (fun _ => 0) (sentence [0x42] 0x34 0x32 ++ sentence [0x41] 0x34 0x31 ++ [dollar])
        (sentence [0x42] 0x34 0x32) (sentence [0x41] 0x34 0x31) ↔
      star ∉ [0x41] ∧ (run gnssStep (gnssStart fun _ => 0) (sentence [0x42] 0x34 0x32)).2.parsing = none :=
  sentence_delivered_iff (fun _ => 0) (sentence [0x42] 0x34 0x32) [0x41] [dollar] 0x34 0x31 wellFormed_a (by decide)

/-- The same sentence directly behind "$B". -/
theorem truncated_sentence_swallows_next : ¬∀ bytes pre body post c0 c1, WellFormed body c0 c1 → dollar ∉ body →
    star ∉ body → Delivered bytes (pre ++ sentence body c0 c1 ++ post) pre (sentence body c0 c1) := by
  intro h
  obtain ⟨msg, hsent, -⟩ := h (fun _ => 0) [dollar, 0x42] [0x41] [] 0x34 0x31 wellFormed_a (by decide) (by decide)
  have hisSome := congrArg (Option.map Option.isSome) hsent
  rw [Option.map_some, Option.isSome_some] at hisSome
  exact absurd hisSome (by decide +kernel)

end OrbFirmware.Gnss

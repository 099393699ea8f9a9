import NordLang.Proofs.Lexing.Cutting

/-!
# Where a scan fails

A scan that fails has read a tiled text up to the place where the offending lexeme begins, and the
fault describes what stands there.

* `Offence before rest fault` relates the text behind `before` to the fault it leads to, without a
  cursor.  There are five ways in which no lexeme starts a text.
* `offence_of_readToken` says that a reader fails for one of these reasons, and `exists_offence` is
  the induction over the scan.
* `Offence.reported` says which part of the text the diagnostic of a fault is about.
-/

namespace NordLang

open TokenKind

/-- No lexeme starts the text, which stands behind `before`. -/
inductive Offence (before : List Char) : List Char → LexicalFault → Prop where
  | tooManyDigits {ds rest : List Char} (hdigits : ∀ d ∈ ds, d.isDigit = true)
      (hnext : ∀ c ∈ rest.head?, c.isDigit = false) (hlength : 4300 < ds.length) :
      Offence before (ds ++ rest) (.tooManyDigits ds.length)
  | outOfRange {ds rest : List Char} (hdigits : ∀ d ∈ ds, d.isDigit = true)
      (hnext : ∀ c ∈ rest.head?, c.isDigit = false) (hlength : ds.length ≤ 4300)
      (hvalue : 9223372036854775807 < Nat.ofDigitChars 10 ds 0) :
      Offence before (ds ++ rest)
        (.integerOutOfRange ds (.after before) before.length (before ++ ds).length)
  /-- The literal reaches up to the end of the line or of the text. -/
  | unterminated {cs value rest : List Char} (hquotes : Quotes cs value)
      (hrest : ∀ c ∈ rest.head?, c = '\n') :
      Offence before ('"' :: cs ++ rest)
        (.unterminatedString ('"' :: cs) (.after before) before.length (before ++ '"' :: cs).length)
  /-- The fault is about the first backslash that starts no escape. -/
  | invalidEscape {cs value rest : List Char} (hquotes : Quotes cs value)
      (hcode : ∀ code ∈ rest.head?, ∀ c, (code, c) ∉ escapes) :
      Offence before ('"' :: cs ++ '\\' :: rest)
        (.invalidEscape rest.head? (.after (before ++ '"' :: cs)) (before ++ '"' :: cs).length)
  | unexpected {c : Char} {rest : List Char} (hblank : c ∉ blankChars)
      (hword : isWordChar c = false) (hquote : c ≠ '"')
      (hsymbol : ∀ kind ∈ symbols, ¬ kind.spelling <+: c :: rest) :
      Offence before (c :: rest) (.unexpectedCharacter c (.after before) before.length)

/-! ## Strings -/

namespace StringBody

/-- What ends a string literal behind `cs`, which means `value`, and its body. -/
inductive Ends (cs value : List Char) : List Char → StringBody → Prop where
  | closed {rest : List Char} : Ends cs value ('"' :: rest) (.closed value (cs.length + 1))
  | unclosed {rest : List Char} (hrest : ∀ c ∈ rest.head?, c = '\n') :
      Ends cs value rest (.unclosed cs.length)
  | badEscape {rest : List Char} (hcode : ∀ code ∈ rest.head?, ∀ c, (code, c) ∉ escapes) :
      Ends cs value ('\\' :: rest) (.badEscape cs.length rest.head?)

theorem Ends.cons {cs value rest : List Char} {body : StringBody} (h : Ends cs value rest body)
    (written : List Char) (c : Char) :
    Ends (written ++ cs) (c :: value) rest (body.cons c written.length) := by
  cases h with
  | closed =>
    rw [StringBody.cons, ← Nat.add_assoc, ← List.length_append]
    exact .closed
  | unclosed hrest =>
    rw [StringBody.cons, ← List.length_append]
    exact .unclosed hrest
  | badEscape hcode =>
    rw [StringBody.cons, ← List.length_append]
    exact .badEscape hcode

theorem exists_ends (text : List Char) :
    ∃ cs value rest, text = cs ++ rest ∧ Quotes cs value ∧ Ends cs value rest (ofChars text) := by
  fun_induction StringBody.ofChars text with
  | case1 => exact ⟨[], [], [], rfl, .nil, .unclosed (by simp)⟩
  | case2 rest => exact ⟨[], [], _, rfl, .nil, .closed⟩
  | case3 rest => exact ⟨[], [], _, rfl, .nil, .unclosed (by simp)⟩
  | case4 => exact ⟨[], [], _, rfl, .nil, .badEscape (by simp)⟩
  | case5 code rest hcode =>
    refine ⟨[], [], _, rfl, .nil, .badEscape ?_⟩
    rintro _ ⟨⟩ c hc
    rw [escape?_eq_some_iff.2 hc] at hcode
    cases hcode
  | case6 code rest c hcode _ _ ih =>
    obtain ⟨cs, value, rest, rfl, hcs, hends⟩ := ih
    have hcode := escape?_eq_some_iff.1 hcode
    exact ⟨_, _, rest, rfl, .escape hcode hcs, hends.cons ['\\', code] c⟩
  | case7 c rest hquote hline hslash ih =>
    obtain ⟨cs, value, rest, rfl, hcs, hends⟩ := ih
    exact ⟨_, _, rest, rfl, .plain hquote hline hslash hcs, hends.cons [c] c⟩

end StringBody

/-! ## Readers -/

namespace Cursor

variable {before text : List Char} {fault : LexicalFault} {stop : Cursor}

theorem offence_of_readString (h : (behind before ('"' :: text)).readString = (.error fault, stop)) :
    Offence before ('"' :: text) fault := by
  obtain ⟨cs, value, rest, rfl, hcs, hends⟩ := StringBody.exists_ends text
  have htail : (behind before ('"' :: (cs ++ rest))).rest.tail = cs ++ rest := rfl
  have hstop : advanceBy (cs.length + 1) (behind before ('"' :: (cs ++ rest))) =
      behind (before ++ '"' :: cs) rest := advanceBy_behind before ('"' :: cs) rest
  have htake : (behind before ('"' :: (cs ++ rest))).rest.take (cs.length + 1) = '"' :: cs := by
    simp [behind]
  rw [readString, htail] at h
  generalize StringBody.ofChars (cs ++ rest) = body at h hends
  cases hends with
  | closed => cases h
  | unclosed hrest =>
    simp only [hstop, htake] at h
    cases h
    exact .unterminated hcs hrest
  | badEscape hcode =>
    simp only [hstop] at h
    cases h
    exact .invalidEscape hcs hcode

theorem offence_of_readInteger {d : Char} (hd : d.isDigit = true)
    (h : (behind before (d :: text)).readInteger = (.error fault, stop)) :
    Offence before (d :: text) fault := by
  obtain ⟨ds, rest, htext, hdigits, hnext⟩ := exists_run Char.isDigit (d :: text)
  have hne : ds ≠ [] := by
    rintro rfl
    have := hnext d (by rw [← List.nil_append rest, ← htext]; rfl)
    rw [hd] at this
    cases this
  have hrun : (behind before (ds ++ rest)).rest.takeWhile Char.isDigit = ds :=
    takeWhile_append_eq hdigits hnext
  rw [htext] at h ⊢
  simp only [readInteger, hrun, advanceBy_behind, List.isEmpty_iff, if_neg hne] at h
  split at h
  · next hlength =>
    cases h
    exact .tooManyDigits hdigits hnext hlength
  · next hlength =>
    split at h
    · next hvalue =>
      cases h
      exact .outOfRange hdigits hnext (Nat.not_lt.1 hlength) hvalue
    · cases h

theorem not_prefix_of_symbolAt? (h : symbolAt? text = none) {kind : TokenKind}
    (hkind : kind ∈ symbols) : ¬ kind.spelling <+: text := by
  rintro ⟨rest, rfl⟩
  rcases spelling_symbol hkind with ⟨a, ha⟩ | ⟨a, b, hab⟩
  · have hsingle := single?_eq_some_iff.2 ⟨hkind, ha⟩
    rw [ha] at h
    cases rest with
    | nil => simp [symbolAt?, hsingle] at h
    | cons b rest =>
      simp only [List.cons_append, List.nil_append, symbolAt?, hsingle] at h
      split at h <;> cases h
  · rw [hab] at h
    simp [symbolAt?, pair?_eq_some_iff.2 ⟨hkind, hab⟩] at h

/-- A reader fails for one of the five reasons. -/
theorem offence_of_readToken (h : (behind before text).readToken = (.error fault, stop))
    (hblank : ∀ c ∈ text.head?, c ∉ blankChars) : Offence before text fault := by
  cases text with
  | nil =>
    rw [readToken_behind_nil] at h
    cases h
  | cons c cs =>
    have hrest : (behind before (c :: cs)).rest = c :: cs := rfl
    unfold readToken at h
    simp only [hrest] at h
    by_cases hquote : c = '"'
    · subst hquote
      exact offence_of_readString h
    rw [if_neg hquote] at h
    by_cases hdigit : c.isDigit = true
    · rw [if_pos hdigit] at h
      exact offence_of_readInteger hdigit h
    rw [if_neg hdigit] at h
    by_cases hword : isWordStart c = true
    · rw [if_pos hword] at h
      cases h
    rw [if_neg hword] at h
    split at h
    · cases h
    · next hsymbol =>
      cases h
      have hchar : isWordChar c = false := by
        simp only [isWordStart, isWordChar, Char.isAlphanum, Bool.or_eq_true, Bool.or_eq_false_iff,
          not_or, Bool.not_eq_true] at hdigit hword ⊢
        exact ⟨⟨hword.1, hdigit⟩, hword.2⟩
      exact .unexpected (hblank c rfl) hchar hquote fun kind => not_prefix_of_symbolAt? hsymbol

/-- A scan that fails has read the tokens of a tiled text, up to the place of an offence. -/
theorem exists_offence (h : (behind before text).scan.fault = some fault) :
    ∃ read rest, text = read ++ rest ∧ Tiled before read (behind before text).scan.tokens ∧
      Offence (before ++ read) rest fault := by
  induction hn : text.length using Nat.strongRecOn generalizing before text with
  | ind n ih =>
    obtain ⟨w, rest, rfl, hw, hblank⟩ := exists_run (fun c => decide (c ∈ blankChars)) text
    simp only [decide_eq_true_eq, decide_eq_false_iff_not] at hw hblank
    have hnext := @next_behind before w rest hw hblank
    rcases hread : (behind (before ++ w) rest).readToken with ⟨fault' | token, stop⟩
    · rw [hread] at hnext
      rw [scan_of_error hnext] at h ⊢
      cases h
      exact ⟨w, rest, rfl, .blanks hw, offence_of_readToken hread hblank⟩
    · have hrest : rest ≠ [] := by
        rintro rfl
        rw [readToken_behind_nil] at hread
        cases hread
        rw [readToken_behind_nil] at hnext
        rw [scan_of_end hnext rfl] at h
        cases h
      obtain ⟨l, rest, kind, value, rfl, hl, rfl, rfl⟩ := lexeme_of_readToken hread hrest
      rw [hread] at hnext
      rw [scan_of_token hnext (isEnd_spanning hl)] at h ⊢
      have hlt : rest.length < n := by
        obtain ⟨c, cs, rfl, _⟩ := hl.head
        simp only [List.length_append, List.length_cons] at hn
        omega
      obtain ⟨read, rest, rfl, hread, hoffence⟩ := ih rest.length hlt h rfl
      refine ⟨w ++ (l ++ read), rest, by simp only [List.append_assoc], .token hw hl.cut hread, ?_⟩
      simpa only [List.append_assoc] using hoffence

end Cursor

/-! ## Diagnostics -/

def LexicalFault.isInvalidEscape : LexicalFault → Bool
  | invalidEscape .. => true
  | _ => false

/-- The diagnostic of a fault is about `bad`, which stands behind `before`. -/
def LexicalFault.IsAbout (fault : LexicalFault) (before bad : List Char) : Prop :=
  ∃ sentence, fault.diagnostic? = some ⟨sentence, .after before,
    .lexical before.length (before ++ bad).length (String.ofList bad)⟩

theorem LexicalFault.isAbout_of_eq {fault : LexicalFault} {before bad : List Char}
    {sentence text : String} {stop : Int} (hfault : fault.diagnostic? =
      some ⟨sentence, .after before, .lexical before.length stop text⟩)
    (hstop : stop = (before ++ bad).length) (htext : text = String.ofList bad) :
    fault.IsAbout before bad :=
  ⟨sentence, by rw [hfault, hstop, htext]⟩

/-- A fault other than too many digits is reported with the text from the start of the offending
lexeme on, or with an escape inside of it. -/
theorem Offence.reported {before rest : List Char} {fault : LexicalFault}
    (h : Offence before rest fault) (hlength : (rest.takeWhile Char.isDigit).length ≤ 4300) :
    ∃ lead bad tail, rest = lead ++ (bad ++ tail) ∧ bad ≠ [] ∧ fault.IsAbout (before ++ lead) bad ∧
      (fault.isInvalidEscape = false → lead = []) ∧
      (fault.isInvalidEscape = true → bad.head? = some '\\' ∧
        ∃ cs value, lead = '"' :: cs ∧ Quotes cs value) := by
  have hlead {bad tail : List Char} (hrest : rest = bad ++ tail) (hne : bad ≠ [])
      (habout : fault.IsAbout before bad) (hescape : fault.isInvalidEscape = false) :
      ∃ lead bad tail, rest = lead ++ (bad ++ tail) ∧ bad ≠ [] ∧
        fault.IsAbout (before ++ lead) bad ∧ (fault.isInvalidEscape = false → lead = []) ∧
        (fault.isInvalidEscape = true → bad.head? = some '\\' ∧
          ∃ cs value, lead = '"' :: cs ∧ Quotes cs value) := by
    refine ⟨[], bad, tail, hrest, hne, by rwa [List.append_nil], fun _ => rfl, fun h => ?_⟩
    rw [hescape] at h
    cases h
  cases h with
  | tooManyDigits hdigits hnext hmany =>
    rw [Cursor.takeWhile_append_eq hdigits hnext] at hlength
    omega
  | @outOfRange ds _ _ _ _ hvalue =>
    have hne : ds ≠ [] := by
      rintro rfl
      simp at hvalue
    exact hlead rfl hne ⟨_, rfl⟩ rfl
  | unterminated => exact hlead rfl (by simp) ⟨_, rfl⟩ rfl
  | @unexpected c rest =>
    refine hlead (show c :: rest = [c] ++ rest from rfl) (by simp) ?_ rfl
    exact LexicalFault.isAbout_of_eq rfl (by simp) String.singleton_eq_ofList
  | @invalidEscape cs value rest hquotes =>
    refine ⟨'"' :: cs, '\\' :: rest.head?.toList, rest.tail, ?_, by simp, ?_, nofun,
      fun _ => ⟨rfl, cs, value, rfl, hquotes⟩⟩
    · cases rest with
      | nil => rfl
      | cons code rest => rfl
    · refine LexicalFault.isAbout_of_eq rfl ?_ rfl
      simp only [List.length_append, List.length_cons]
      omega

theorem Offence.ne_nil {before rest : List Char} {fault : LexicalFault}
    (h : Offence before rest fault) : rest ≠ [] := by
  cases h with
  | tooManyDigits _ _ hlength =>
    refine List.append_ne_nil_of_left_ne_nil (List.ne_nil_of_length_pos ?_) _
    omega
  | @outOfRange ds _ _ _ _ hvalue =>
    refine List.append_ne_nil_of_left_ne_nil ?_ _
    rintro rfl
    simp at hvalue
  | unterminated | invalidEscape | unexpected => exact List.cons_ne_nil _ _

theorem Offence.eq_tooManyDigits {before rest : List Char} {fault : LexicalFault}
    (h : Offence before rest fault) (hlength : 4300 < (rest.takeWhile Char.isDigit).length) :
    fault = .tooManyDigits (rest.takeWhile Char.isDigit).length := by
  cases h with
  | tooManyDigits hdigits hnext => rw [Cursor.takeWhile_append_eq hdigits hnext]
  | outOfRange hdigits hnext hle =>
    rw [Cursor.takeWhile_append_eq hdigits hnext] at hlength
    omega
  | unterminated | invalidEscape => simp at hlength
  | @unexpected c _ _ hword =>
    have hdigit : c.isDigit = false := by
      refine Bool.eq_false_iff.2 fun hdigit => ?_
      rw [isWordChar_of_isDigit hdigit] at hword
      cases hword
    simp [hdigit] at hlength

/-- A scan fails behind the tokens of the text before the offending lexeme.  A number of too many
digits gives no diagnostic; all else gives one about a part of the text, which begins with the
offending lexeme unless an escape inside of it is at fault. -/
theorem tokenize_offence {text : List Char} {e : LexicalFault} (h : tokenize text = .error e) :
    ∃ p < text.length,
      tokenize (text.take p) = .ok ((Cursor.ofText text).scan.tokens ++ [.endOf (text.take p)]) ∧
      Offence (text.take p) (text.drop p) e ∧
      let digits := (text.drop p).takeWhile Char.isDigit
      (4300 < digits.length → e = .tooManyDigits digits.length ∧ e.diagnostic? = none) ∧
      (digits.length ≤ 4300 → ∃ start stop sentence, start < stop ∧ stop ≤ text.length ∧
        e.diagnostic? = some ⟨sentence, .after (text.take start),
          .lexical start stop (String.ofList ((text.take stop).drop start))⟩ ∧
        (e.isInvalidEscape = false → start = p) ∧
        (e.isInvalidEscape = true → p < start ∧ text[p]? = some '"' ∧ text[start]? = some '\\' ∧
          ∃ value, Quotes ((text.take start).drop (p + 1)) value)) := by
  obtain ⟨read, rest, rfl, htiled, hoffence⟩ :=
    @Cursor.exists_offence [] text e (fault_of_tokenize_eq_error h)
  have hlt : read.length < (read ++ rest).length := by
    have := List.length_pos_iff.2 hoffence.ne_nil
    rw [List.length_append]
    omega
  refine ⟨read.length, hlt, ?_⟩
  rw [List.take_left, List.drop_left]
  refine ⟨tokenize_eq_ok.2 ⟨_, htiled, rfl⟩, hoffence, fun hmany => ?_, fun hfew => ?_⟩
  · have heq := hoffence.eq_tooManyDigits hmany
    exact ⟨heq, by rw [heq]; rfl⟩
  · obtain ⟨lead, bad, tail, rfl, hne, ⟨sentence, hdiagnostic⟩, hstart, hescape⟩ :=
      hoffence.reported hfew
    have hbad := List.length_pos_iff.2 hne
    have htake : (read ++ (lead ++ (bad ++ tail))).take (read ++ lead).length = read ++ lead := by
      rw [← List.append_assoc, List.take_left]
    refine ⟨(read ++ lead).length, (read ++ lead ++ bad).length, sentence, ?_, ?_, ?_, ?_, ?_⟩
    · simp only [List.length_append]
      omega
    · simp only [List.length_append]
      omega
    · rw [htake, hdiagnostic, ← List.append_assoc, ← List.append_assoc, List.take_left,
        List.drop_left]
      rfl
    · intro hother
      rw [hstart hother, List.append_nil]
    · intro hinvalid
      obtain ⟨hslash, cs, value, rfl, hquotes⟩ := hescape hinvalid
      rw [htake]
      refine ⟨by simp, by simp, ?_, value, by simpa using hquotes⟩
      rw [← List.head?_drop, ← List.append_assoc, List.drop_left, List.head?_append, hslash]
      rfl

/-- A letter that may not follow a backslash. -/
theorem tokenize_offence_escape :
    let text := ['a', ' ', '"', 'b', '\\', 'q']
    let a : Token := ⟨.identifier, .text "a", ⟨1, 1⟩, 0, 1⟩
    tokenize text = .error (.invalidEscape (some 'q') ⟨1, 5⟩ 4) ∧
      tokenize (text.take 2) = .ok [a, .endOf (text.take 2)] := by
  intro text a
  have hfault : tokenize text = .error (.invalidEscape (some 'q') ⟨1, 5⟩ 4) := by
    with_unfolding_all rfl
  have htokens : (Cursor.ofText text).scan.tokens = [a] := by with_unfolding_all rfl
  obtain ⟨p, hp, hread, _, _, hreported⟩ := tokenize_offence hfault
  have hfew : ∀ i < 6, ((text.drop i).takeWhile Char.isDigit).length ≤ 4300 := by decide
  obtain ⟨start, stop, sentence, _, _, _, _, hescape⟩ := hreported (hfew p hp)
  -- There is one quote in the text.
  have hquote : ∀ i < 6, text[i]? = some '"' → i = 2 := by decide
  obtain rfl := hquote p hp (hescape rfl).2.1
  rw [htokens] at hread
  exact ⟨hfault, hread⟩

end NordLang

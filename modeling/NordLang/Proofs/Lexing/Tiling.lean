import NordLang.Proofs.Lexing.Lexeme

/-!
# Tiling

Scanning a text finds exactly the lexemes that it falls into.

A cursor inside a text is given by what comes before it and what follows (`Cursor.behind`).  For
each reader there is a lemma in either direction: at a lexeme it returns the token of the lexeme
(`readToken_of_lexeme`), and a token it returns is that of a lexeme (`lexeme_of_readToken`).  The
runs of `scan` follow by induction, and `tokenize_iff_tiled` is the whole text.
-/

namespace NordLang

namespace Cursor

/-- The cursor behind `before`, with `rest` to come. -/
def behind (before rest : List Char) : Cursor :=
  ⟨rest, before.length, before.count '\n' + 1,
    (before.reverse.takeWhile (· != '\n')).length + 1⟩

theorem ofText_eq_behind (text : List Char) : ofText text = behind [] text := rfl

@[simp] theorem advance_behind (before : List Char) (c : Char) (rest : List Char) :
    (behind before (c :: rest)).advance = behind (before ++ [c]) rest := by
  by_cases hc : c = '\n'
  · simp [behind, advance, hc]
  · simp [behind, advance, hc, List.count_append]

@[simp] theorem advanceBy_behind (before l rest : List Char) :
    advanceBy l.length (behind before (l ++ rest)) = behind (before ++ l) rest := by
  induction l generalizing before with
  | nil => simp [advanceBy]
  | cons c l ih =>
    rw [List.length_cons, advanceBy, List.cons_append, advance_behind, ih, List.append_assoc]
    rfl

@[simp] theorem token_behind (before l text rest : List Char) (kind : TokenKind) (value : Scalar) :
    (behind before text).token (behind (before ++ l) rest) kind value =
      .spanning before l kind value := rfl

/-- Behind a run of characters that satisfy `p` and before one that does not. -/
theorem takeWhile_append_eq {p : Char → Bool} {l rest : List Char} (hl : ∀ c ∈ l, p c = true)
    (hrest : ∀ c ∈ rest.head?, p c = false) : (l ++ rest).takeWhile p = l := by
  rw [List.takeWhile_append_of_pos hl]
  cases rest with
  | nil => simp
  | cons c rest => simp [hrest c rfl]

/-- Every text starts with its longest run of characters that satisfy `p`. -/
theorem exists_run (p : Char → Bool) (text : List Char) :
    ∃ l rest, text = l ++ rest ∧ (∀ c ∈ l, p c = true) ∧ ∀ c ∈ rest.head?, p c = false := by
  refine ⟨text.takeWhile p, text.dropWhile p, (List.takeWhile_append_dropWhile).symm,
    fun c hc => ?_, ?_⟩
  · have := List.all_takeWhile (p := p) (l := text)
    exact List.all_eq_true.1 this c hc
  · intro c hc
    have := List.head?_dropWhile_not p text
    rw [Option.mem_def.1 hc] at this
    simpa using this

end Cursor

/-! ## Strings -/

namespace StringBody

theorem ofChars_plain {c : Char} {rest : List Char} (hquote : c ≠ '"') (hline : c ≠ '\n')
    (hslash : c ≠ '\\') : ofChars (c :: rest) = (ofChars rest).cons c 1 := by
  rw [ofChars.eq_def]
  simp [hquote, hline, hslash]

theorem ofChars_escape {code c : Char} {rest : List Char} (hcode : (code, c) ∈ escapes) :
    ofChars ('\\' :: code :: rest) = (ofChars rest).cons c 2 := by
  rw [ofChars.eq_def]
  simp [escape?_eq_some_iff.2 hcode]

theorem cons_eq_closed {c : Char} {width length : Nat} {body : StringBody} {value : List Char}
    (h : body.cons c width = .closed value length) :
    ∃ v n, body = .closed v n ∧ value = c :: v ∧ length = width + n := by
  cases body with
  | closed v n =>
    cases h
    exact ⟨v, n, rfl, rfl, rfl⟩
  | unclosed n => cases h
  | badEscape n code => cases h

end StringBody

namespace Quotes

theorem ofChars {cs value : List Char} (h : Quotes cs value) (rest : List Char) :
    StringBody.ofChars (cs ++ '"' :: rest) = .closed value (cs.length + 1) := by
  induction h with
  | nil =>
    rw [List.nil_append, StringBody.ofChars.eq_def]
    rfl
  | plain hquote hline hslash _ ih =>
    rw [List.cons_append, StringBody.ofChars_plain hquote hline hslash, ih, StringBody.cons,
      List.length_cons, Nat.add_comm 1]
  | escape hcode _ ih =>
    rw [List.cons_append, List.cons_append, StringBody.ofChars_escape hcode, ih, StringBody.cons,
      List.length_cons, List.length_cons, Nat.add_comm 2]

theorem of_ofChars {text value : List Char} {length : Nat}
    (h : StringBody.ofChars text = .closed value length) :
    ∃ cs rest, text = cs ++ '"' :: rest ∧ Quotes cs value ∧ length = cs.length + 1 := by
  fun_induction StringBody.ofChars text generalizing value length with
  | case1 => cases h
  | case2 rest =>
    cases h
    exact ⟨[], rest, rfl, .nil, rfl⟩
  | case3 => cases h
  | case4 => cases h
  | case5 => cases h
  | case6 code rest c hcode _ _ ih =>
    obtain ⟨v, n, hbody, rfl, rfl⟩ := StringBody.cons_eq_closed h
    obtain ⟨cs, rest, rfl, hcs, rfl⟩ := ih hbody
    have hcode := escape?_eq_some_iff.1 hcode
    exact ⟨'\\' :: code :: cs, rest, rfl, .escape hcode hcs, Nat.add_comm ..⟩
  | case7 c rest hquote hline hslash ih =>
    obtain ⟨v, n, hbody, rfl, rfl⟩ := StringBody.cons_eq_closed h
    obtain ⟨cs, rest, rfl, hcs, rfl⟩ := ih hbody
    exact ⟨c :: cs, rest, rfl, .plain hquote hline hslash hcs, Nat.add_comm ..⟩

end Quotes

/-! ## Words -/

open TokenKind

namespace Cursor

theorem wordMeaning_keyword {w : List Char} {kind : TokenKind} (h : (w, kind) ∈ reservedWords) :
    wordMeaning w = (kind, .text (String.ofList w)) := by
  have hall : ∀ entry ∈ reservedWords,
      entry.1 ≠ ['t', 'r', 'u', 'e'] ∧ entry.1 ≠ ['f', 'a', 'l', 's', 'e'] := by decide
  obtain ⟨hyes, hno⟩ := hall _ h
  rw [wordMeaning, if_neg hyes, if_neg hno, keyword?_eq_some_iff.2 h]
  rfl

/-- The words that are no keywords. -/
theorem keyword?_eq_none_iff {w : List Char} :
    keyword? w = none ↔ reservedWords.all (·.1 != w) = true := by
  rw [Option.eq_none_iff_forall_ne_some, List.all_eq_true]
  constructor
  · rintro h ⟨w', kind⟩ hentry
    rw [bne_iff_ne]
    rintro rfl
    exact h kind (keyword?_eq_some_iff.2 hentry)
  · intro h kind hkind
    have hne := h _ (keyword?_eq_some_iff.1 hkind)
    simp at hne

theorem wordMeaning_name {w : List Char} (h : isName w = true) :
    wordMeaning w = (.identifier, .text (String.ofList w)) := by
  simp only [isName, Bool.and_eq_true, bne_iff_ne] at h
  obtain ⟨⟨⟨_, hyes⟩, hno⟩, hkeyword⟩ := h
  rw [wordMeaning, if_neg hyes, if_neg hno, keyword?_eq_none_iff.2 hkeyword]
  rfl

/-- A word is a lexeme of what it means. -/
theorem lexeme_wordMeaning {next : Option Char} {w : List Char} (hw : isWord w = true)
    (hnext : ∀ c ∈ next, isWordChar c = false) :
    Lexeme next w (wordMeaning w).1 (wordMeaning w).2 := by
  by_cases hyes : w = ['t', 'r', 'u', 'e']
  · subst hyes
    exact .yes hnext
  by_cases hno : w = ['f', 'a', 'l', 's', 'e']
  · subst hno
    exact .no hnext
  rcases hkeyword : keyword? w with _ | kind
  · have hname : isName w = true := by
      simp only [isName, hw, Bool.and_eq_true, bne_iff_ne, ne_eq, hyes, hno, not_false_eq_true,
        true_and, keyword?_eq_none_iff.1 hkeyword]
    rw [wordMeaning_name hname]
    exact .name hname hnext
  · have hreserved := keyword?_eq_some_iff.1 hkeyword
    rw [wordMeaning_keyword hreserved]
    exact .keyword hreserved hnext

theorem readWord_behind {before w rest : List Char} (hw : ∀ c ∈ w, isWordChar c = true)
    (hnext : ∀ c ∈ rest.head?, isWordChar c = false) :
    (behind before (w ++ rest)).readWord =
      (.spanning before w (wordMeaning w).1 (wordMeaning w).2, behind (before ++ w) rest) := by
  have hrun : (behind before (w ++ rest)).rest.takeWhile isWordChar = w :=
    takeWhile_append_eq hw hnext
  rw [readWord, hrun, advanceBy_behind]
  rfl

/-- At a word the token of the word is read. -/
theorem readToken_word {before w rest : List Char} (hw : isWord w = true)
    (hnext : ∀ c ∈ rest.head?, isWordChar c = false) :
    (behind before (w ++ rest)).readToken =
      (.ok (.spanning before w (wordMeaning w).1 (wordMeaning w).2),
        behind (before ++ w) rest) := by
  have hread := @readWord_behind before w rest (isWord_all hw) hnext
  obtain ⟨c, cs, rfl, hc⟩ := isWord_head hw
  have hquote : c ≠ '"' := by
    rintro rfl
    cases hc
  have hdigit : c.isDigit = false := by
    cases hd : c.isDigit with
    | false => rfl
    | true =>
      rw [isWordStart_eq_false_of_isDigit hd] at hc
      cases hc
  have hrest : (behind before (c :: cs ++ rest)).rest = c :: (cs ++ rest) := rfl
  unfold readToken
  rw [hread]
  simp only [hrest, hquote, hdigit, hc, if_true, if_false, Bool.false_eq_true]

/-! ## Numbers, strings and symbols -/

theorem readToken_number {before ds rest : List Char} (hne : ds ≠ [])
    (hdigits : ∀ d ∈ ds, d.isDigit = true) (hlength : ds.length ≤ digitLimit)
    (hvalue : Nat.ofDigitChars 10 ds 0 ≤ maxInteger)
    (hnext : ∀ c ∈ rest.head?, c.isDigit = false) :
    (behind before (ds ++ rest)).readToken =
      (.ok (.spanning before ds .integer (.int (Nat.ofDigitChars 10 ds 0))),
        behind (before ++ ds) rest) := by
  have hrun : (behind before (ds ++ rest)).rest.takeWhile Char.isDigit = ds :=
    takeWhile_append_eq hdigits hnext
  have hread : (behind before (ds ++ rest)).readInteger =
      (.ok (.spanning before ds .integer (.int (Nat.ofDigitChars 10 ds 0))),
        behind (before ++ ds) rest) := by
    simp only [readInteger, hrun, advanceBy_behind, token_behind]
    rw [if_neg (by simpa using hne), if_neg (Nat.not_lt.2 hlength), if_neg (Nat.not_lt.2 hvalue)]
  cases ds with
  | nil => exact absurd rfl hne
  | cons d ds =>
    have hd : d.isDigit = true := hdigits d List.mem_cons_self
    have hquote : d ≠ '"' := by
      rintro rfl
      cases hd
    have hrest : (behind before (d :: ds ++ rest)).rest = d :: (ds ++ rest) := rfl
    unfold readToken
    rw [hread]
    simp only [hrest, hquote, hd, if_true, if_false]

theorem readString_of_quotes {before cs value rest : List Char} (h : Quotes cs value) :
    (behind before ('"' :: (cs ++ ['"']) ++ rest)).readString =
      (.ok (.spanning before ('"' :: (cs ++ ['"'])) .string (.text (String.ofList value))),
        behind (before ++ '"' :: (cs ++ ['"'])) rest) := by
  have hbody : StringBody.ofChars (behind before ('"' :: (cs ++ ['"']) ++ rest)).rest.tail =
      .closed value (cs.length + 1) := by
    have := h.ofChars rest
    simpa [behind] using this
  have hstop : advanceBy (cs.length + 1 + 1) (behind before ('"' :: (cs ++ ['"']) ++ rest)) =
      behind (before ++ '"' :: (cs ++ ['"'])) rest := by
    rw [← advanceBy_behind]
    simp
  rw [readString, hbody]
  simp only [hstop, token_behind]

theorem readToken_string {before cs value rest : List Char} (h : Quotes cs value) :
    (behind before ('"' :: (cs ++ ['"']) ++ rest)).readToken =
      (.ok (.spanning before ('"' :: (cs ++ ['"'])) .string (.text (String.ofList value))),
        behind (before ++ '"' :: (cs ++ ['"'])) rest) := by
  have hrest : (behind before ('"' :: (cs ++ ['"']) ++ rest)).rest = '"' :: (cs ++ ['"'] ++ rest) :=
    rfl
  unfold readToken
  rw [readString_of_quotes h]
  simp only [hrest, if_true]

theorem readSymbol_behind (before l rest : List Char) (kind : TokenKind) :
    (behind before (l ++ rest)).readSymbol kind l.length =
      (.spanning before l kind (.text (String.ofList l)), behind (before ++ l) rest) := by
  have hlexeme : (behind before (l ++ rest)).rest.take l.length = l := List.take_left
  rw [readSymbol, advanceBy_behind, hlexeme]
  rfl

/-- A symbol is found where it stands, unless the next character makes it longer. -/
theorem symbolAt?_spelling {kind : TokenKind} {rest : List Char} (hkind : kind ∈ symbols)
    (hnext : ∀ b ∈ rest.head?, ∀ k ∈ symbols, k.spelling ≠ kind.spelling ++ [b]) :
    symbolAt? (kind.spelling ++ rest) = some (kind, kind.spelling.length) := by
  rcases spelling_symbol hkind with ⟨a, ha⟩ | ⟨a, b, hab⟩
  · have hsingle : single? a = some kind := single?_eq_some_iff.2 ⟨hkind, ha⟩
    rw [ha] at hnext ⊢
    cases rest with
    | nil => simp [symbolAt?, hsingle]
    | cons b rest =>
      have hpair : pair? a b = none := by
        cases hpair : pair? a b with
        | none => rfl
        | some k =>
          obtain ⟨hk, hspelling⟩ := pair?_eq_some_iff.1 hpair
          exact absurd hspelling (hnext b rfl k hk)
      simp [symbolAt?, hsingle, hpair]
  · rw [hab]
    simp [symbolAt?, pair?_eq_some_iff.2 ⟨hkind, hab⟩]

theorem readToken_symbol {before rest : List Char} {kind : TokenKind} (hkind : kind ∈ symbols)
    (hnext : ∀ b ∈ rest.head?, ∀ k ∈ symbols, k.spelling ≠ kind.spelling ++ [b]) :
    (behind before (kind.spelling ++ rest)).readToken =
      (.ok (.spanning before kind.spelling kind (.text (String.ofList kind.spelling))),
        behind (before ++ kind.spelling) rest) := by
  have hsymbol := symbolAt?_spelling hkind hnext
  obtain ⟨c, cs, hspelling, hchar, hquote, _⟩ := head_symbol hkind
  have hdigit : c.isDigit = false := by
    refine Bool.eq_false_iff.2 fun hdigit => ?_
    rw [isWordChar_of_isDigit hdigit] at hchar
    cases hchar
  have hword : isWordStart c = false := by
    refine Bool.eq_false_iff.2 fun hword => ?_
    rw [isWordChar_of_isWordStart hword] at hchar
    cases hchar
  have htext : kind.spelling ++ rest = c :: (cs ++ rest) := by rw [hspelling]; rfl
  have hrest : (behind before (kind.spelling ++ rest)).rest = c :: (cs ++ rest) := htext
  rw [htext] at hsymbol
  unfold readToken
  simp only [hrest, hquote, hdigit, hword, hsymbol, readSymbol_behind, if_false,
    Bool.false_eq_true]

/-- At a lexeme its token is read. -/
theorem readToken_of_lexeme {before l rest : List Char} {kind : TokenKind} {value : Scalar}
    (h : Lexeme rest.head? l kind value) :
    (behind before (l ++ rest)).readToken =
      (.ok (.spanning before l kind value), behind (before ++ l) rest) := by
  cases h with
  | yes hnext => exact readToken_word (by decide) hnext
  | no hnext => exact readToken_word (by decide) hnext
  | keyword hw hnext =>
    have := @readToken_word before _ _ (isWord_reservedWords hw) hnext
    rwa [wordMeaning_keyword hw] at this
  | name hw hnext =>
    have := @readToken_word before _ _ (isName_isWord hw) hnext
    rwa [wordMeaning_name hw] at this
  | number hne hdigits hlength hvalue hnext =>
    exact readToken_number hne hdigits hlength hvalue hnext
  | string hquotes => exact readToken_string hquotes
  | symbol hkind hnext => exact readToken_symbol hkind hnext

/-! ## Lexemes from readers -/

theorem lexeme_of_single? {a : Char} {kind : TokenKind} {rest : List Char}
    (ha : single? a = some kind) (hnext : ∀ b ∈ rest.head?, pair? a b = none) :
    ∃ rest', a :: rest = kind.spelling ++ rest' ∧
      Lexeme rest'.head? kind.spelling kind (.text (String.ofList kind.spelling)) := by
  obtain ⟨hkind, hspelling⟩ := single?_eq_some_iff.1 ha
  refine ⟨rest, by rw [hspelling]; rfl, .symbol hkind fun b hb k hk heq => ?_⟩
  rw [hspelling] at heq
  have := hnext b hb
  rw [pair?_eq_some_iff.2 ⟨hk, heq⟩] at this
  cases this

theorem lexeme_of_pair? {a b : Char} {kind : TokenKind} {rest : List Char}
    (hab : pair? a b = some kind) :
    ∃ rest', a :: b :: rest = kind.spelling ++ rest' ∧
      Lexeme rest'.head? kind.spelling kind (.text (String.ofList kind.spelling)) := by
  obtain ⟨hkind, hspelling⟩ := pair?_eq_some_iff.1 hab
  refine ⟨rest, by rw [hspelling]; rfl, .symbol hkind fun c _ k hk heq => ?_⟩
  -- No symbol has three characters.
  rw [hspelling] at heq
  rcases spelling_symbol hk with ⟨_, hk⟩ | ⟨_, _, hk⟩
  · rw [hk] at heq
    cases heq
  · rw [hk] at heq
    cases heq

theorem lexeme_of_symbolAt? {text : List Char} {kind : TokenKind} {n : Nat}
    (h : symbolAt? text = some (kind, n)) :
    ∃ rest, text = kind.spelling ++ rest ∧
      Lexeme rest.head? kind.spelling kind (.text (String.ofList kind.spelling)) := by
  rcases text with _ | ⟨a, _ | ⟨b, rest⟩⟩
  · cases h
  · obtain ⟨k, hk, heq⟩ := Option.map_eq_some_iff.1 h
    cases heq
    exact lexeme_of_single? hk (by simp)
  · rcases hpair : pair? a b with _ | k
    · simp only [symbolAt?, hpair] at h
      obtain ⟨k, hk, heq⟩ := Option.map_eq_some_iff.1 h
      cases heq
      refine lexeme_of_single? hk ?_
      rintro _ ⟨⟩
      exact hpair
    · simp only [symbolAt?, hpair, Option.some.injEq, Prod.mk.injEq] at h
      obtain ⟨rfl, _⟩ := h
      exact lexeme_of_pair? hpair

/-- A string that is read ends at its closing quote. -/
theorem quotes_of_readString {before text : List Char} {token : Token} {stop : Cursor}
    (h : (behind before ('"' :: text)).readString = (.ok token, stop)) :
    ∃ cs value rest, '"' :: text = '"' :: (cs ++ ['"']) ++ rest ∧ Quotes cs value := by
  have htail : (behind before ('"' :: text)).rest.tail = text := rfl
  unfold readString at h
  rw [htail] at h
  split at h
  · next value n hbody =>
    obtain ⟨cs, rest, rfl, hcs, _⟩ := Quotes.of_ofChars hbody
    exact ⟨cs, value, rest, by simp, hcs⟩
  · cases h
  · cases h

theorem lexeme_of_readString {before text : List Char} {token : Token} {stop : Cursor}
    (h : (behind before ('"' :: text)).readString = (.ok token, stop)) :
    ∃ l rest kind value, '"' :: text = l ++ rest ∧ Lexeme rest.head? l kind value := by
  obtain ⟨cs, value, rest, htext, hcs⟩ := quotes_of_readString h
  exact ⟨'"' :: (cs ++ ['"']), rest, .string, _, htext, .string hcs⟩

theorem lexeme_of_readInteger {before text : List Char} {token : Token} {stop : Cursor}
    (h : (behind before text).readInteger = (.ok token, stop)) :
    ∃ l rest kind value, text = l ++ rest ∧ Lexeme rest.head? l kind value := by
  obtain ⟨ds, rest, rfl, hdigits, hnext⟩ := exists_run Char.isDigit text
  have hrun : (behind before (ds ++ rest)).rest.takeWhile Char.isDigit = ds :=
    takeWhile_append_eq hdigits hnext
  simp only [readInteger, hrun] at h
  split at h
  · cases h
  · next hne =>
    split at h
    · cases h
    · next hlength =>
      split at h
      · cases h
      · next hvalue =>
        have hne : ds ≠ [] := by simpa using hne
        refine ⟨ds, rest, .integer, _, rfl, .number hne hdigits ?_ ?_ hnext⟩
        · exact Nat.not_lt.1 hlength
        · exact Nat.not_lt.1 hvalue

/-- The longest run of word characters from the start of a word on is a word. -/
theorem lexeme_of_isWordStart {c : Char} {cs : List Char} (hc : isWordStart c = true) :
    ∃ l rest kind value, c :: cs = l ++ rest ∧ Lexeme rest.head? l kind value := by
  obtain ⟨l, rest, rfl, hl, hnext⟩ := exists_run isWordChar cs
  have hword : isWord (c :: l) = true := by
    simp only [isWord, hc, Bool.true_and, List.all_eq_true]
    exact hl
  exact ⟨c :: l, rest, _, _, rfl, lexeme_wordMeaning hword hnext⟩

/-- A token that is read is that of a lexeme. -/
theorem lexeme_of_readToken {before text : List Char} {token : Token} {stop : Cursor}
    (h : (behind before text).readToken = (.ok token, stop)) (htext : text ≠ []) :
    ∃ l rest kind value, text = l ++ rest ∧ Lexeme rest.head? l kind value ∧
      token = .spanning before l kind value ∧ stop = behind (before ++ l) rest := by
  -- Which token it is follows from `readToken_of_lexeme` once there is a lexeme at all.
  suffices hlexeme : ∃ l rest kind value, text = l ++ rest ∧ Lexeme rest.head? l kind value by
    obtain ⟨l, rest, kind, value, rfl, hl⟩ := hlexeme
    rw [readToken_of_lexeme hl] at h
    cases h
    exact ⟨l, rest, kind, value, rfl, hl, rfl, rfl⟩
  cases text with
  | nil => exact absurd rfl htext
  | cons c cs =>
    have hrest : (behind before (c :: cs)).rest = c :: cs := rfl
    unfold readToken at h
    simp only [hrest] at h
    by_cases hquote : c = '"'
    · subst hquote
      exact lexeme_of_readString h
    rw [if_neg hquote] at h
    by_cases hdigit : c.isDigit = true
    · rw [if_pos hdigit] at h
      exact lexeme_of_readInteger h
    rw [if_neg hdigit] at h
    by_cases hword : isWordStart c = true
    · exact lexeme_of_isWordStart hword
    rw [if_neg hword] at h
    split at h
    · next kind n hsymbol =>
      obtain ⟨rest, heq, hl⟩ := lexeme_of_symbolAt? hsymbol
      exact ⟨_, rest, _, _, heq, hl⟩
    · cases h

/-! ## Scans -/

theorem next_behind {before w rest : List Char} (hw : ∀ c ∈ w, c ∈ blankChars)
    (hrest : ∀ c ∈ rest.head?, c ∉ blankChars) :
    (behind before (w ++ rest)).next = (behind (before ++ w) rest).readToken := by
  have hrun : (behind before (w ++ rest)).rest.takeWhile isBlank = w := by
    refine takeWhile_append_eq (fun c hc => isBlank_iff.2 (hw c hc)) fun c hc => ?_
    exact Bool.eq_false_iff.2 fun hblank => hrest c hc (isBlank_iff.1 hblank)
  rw [next, skipBlanks, hrun, advanceBy_behind]

theorem readToken_behind_nil (before : List Char) :
    (behind before []).readToken = (.ok (.endOf before), behind before []) := by
  simp [readToken, behind, Token.endOf, Token.spanning, Cursor.token, Cursor.loc, Location.after]

theorem scan_of_end {c stop : Cursor} {token : Token} (h : c.next = (.ok token, stop))
    (hend : token.isEnd = true) : c.scan = ⟨[token], none, stop⟩ := by
  rw [scan]
  split
  · next h' =>
    rw [h] at h'
    cases h'
  · next h' =>
    rw [h] at h'
    cases h'
    rw [dif_pos hend]

theorem scan_of_token {c stop : Cursor} {token : Token} (h : c.next = (.ok token, stop))
    (hend : token.isEnd = false) :
    c.scan = ⟨token :: stop.scan.tokens, stop.scan.fault, stop.scan.stop⟩ := by
  rw [scan]
  split
  · next h' =>
    rw [h] at h'
    cases h'
  · next h' =>
    rw [h] at h'
    cases h'
    rw [dif_neg (by simp [hend])]

theorem scan_of_error {c stop : Cursor} {fault : LexicalFault}
    (h : c.next = (.error fault, stop)) : c.scan = ⟨[], some fault, stop⟩ := by
  rw [scan]
  split
  · next h' =>
    rw [h] at h'
    cases h'
    rfl
  · next h' =>
    rw [h] at h'
    cases h'

/-- The one fault in a token that is no diagnostic is a number of too many digits.  A number is read
only where a digit stands, so it has some. -/
theorem tooManyDigits_of_readToken {c stop : Cursor} {fault : LexicalFault}
    (h : c.readToken = (.error fault, stop)) (hfault : fault.diagnostic? = none) :
    ∃ n, digitLimit < n ∧ fault = .tooManyDigits n := by
  unfold readToken at h
  split at h
  · cases h
  · next ch rest hrest =>
    split at h
    · unfold readString at h
      split at h <;> cases h <;> cases hfault
    · split at h
      · next hdigit =>
        have hdigits : (c.rest.takeWhile Char.isDigit).isEmpty = false := by
          simp [hrest, hdigit]
        simp only [readInteger, hdigits] at h
        split at h
        · contradiction
        · split at h
          · next hmany =>
            cases h
            exact ⟨_, hmany, rfl⟩
          · split at h <;> cases h
            cases hfault
      · split at h
        · cases h
        · split at h <;> cases h
          cases hfault

theorem tooManyDigits_of_scan {c : Cursor} {fault : LexicalFault} (h : c.scan.fault = some fault)
    (hfault : fault.diagnostic? = none) : ∃ n, digitLimit < n ∧ fault = .tooManyDigits n := by
  fun_induction scan c with
  | case1 c fault' stop hnext =>
    cases h
    exact tooManyDigits_of_readToken hnext hfault
  | case2 => cases h
  | case3 c token stop _ _ _ later ih => exact ih h

theorem isEnd_spanning {before l : List Char} {next : Option Char} {kind : TokenKind}
    {value : Scalar} (h : Lexeme next l kind value) :
    (Token.spanning before l kind value).isEnd = false := by
  simp [Token.isEnd, Token.spanning, h.kind_ne_endOfInput]

end Cursor

open Cursor

/-- Scanning a tiled text gives its tokens and then the end of the input. -/
theorem Tiled.scan {before text : List Char} {ts : List Token} (h : Tiled before text ts) :
    (behind before text).scan =
      ⟨ts ++ [.endOf (before ++ text)], none, behind (before ++ text) []⟩ := by
  induction h with
  | @blanks before w hw =>
    have hnext : (behind before w).next =
        (.ok (.endOf (before ++ w)), behind (before ++ w) []) := by
      have := @next_behind before w [] hw (by simp)
      rwa [List.append_nil, readToken_behind_nil] at this
    exact scan_of_end hnext rfl
  | @token before w l rest kind value ts hw hl later ih =>
    have hblank : ∀ c ∈ (l ++ rest).head?, c ∉ blankChars := by
      obtain ⟨c, cs, rfl, hc⟩ := hl.head
      rintro _ ⟨⟩
      exact hc
    have hnext := @next_behind before w (l ++ rest) hw hblank
    rw [readToken_of_lexeme hl] at hnext
    rw [scan_of_token hnext (isEnd_spanning hl), ih]
    simp

/-- A text that is scanned without a fault is tiled. -/
theorem tiled_of_scan {before text : List Char} (h : (behind before text).scan.fault = none) :
    ∃ ts, Tiled before text ts := by
  induction hn : text.length using Nat.strongRecOn generalizing before text with
  | ind n ih =>
    obtain ⟨w, rest, rfl, hw, hblank⟩ := exists_run (fun c => decide (c ∈ blankChars)) text
    simp only [decide_eq_true_eq, decide_eq_false_iff_not] at hw hblank
    by_cases hrest : rest = []
    · subst hrest
      rw [List.append_nil]
      exact ⟨[], .blanks hw⟩
    have hnext := @next_behind before w rest hw hblank
    rcases hread : (behind (before ++ w) rest).readToken with ⟨fault | token, stop⟩
    · rw [hread] at hnext
      rw [scan_of_error hnext] at h
      cases h
    · obtain ⟨l, rest, kind, value, rfl, hl, rfl, rfl⟩ := lexeme_of_readToken hread hrest
      rw [hread] at hnext
      rw [scan_of_token hnext (isEnd_spanning hl)] at h
      have hlt : rest.length < n := by
        obtain ⟨c, cs, rfl, _⟩ := hl.head
        simp only [List.length_append, List.length_cons] at hn
        omega
      obtain ⟨ts, hts⟩ := ih rest.length hlt h rfl
      exact ⟨_, .token hw hl hts⟩

theorem fault_of_tokenize_eq_error {text : List Char} {e : LexicalFault}
    (h : tokenize text = .error e) : (ofText text).scan.fault = some e := by
  rcases hscan : (ofText text).scan.fault with _ | e'
  · simp [tokenize, Scan.toExcept, hscan] at h
  · simp only [tokenize, Scan.toExcept, hscan] at h
    cases h
    rfl

theorem tokenize_eq_ok {text : List Char} {us : List Token} :
    tokenize text = .ok us ↔ ∃ ts, Tiled [] text ts ∧ us = ts ++ [.endOf text] := by
  have hresult {ts : List Token} (h : Tiled [] text ts) :
      tokenize text = .ok (ts ++ [.endOf text]) := by
    rw [tokenize, ofText_eq_behind, h.scan]
    rfl
  constructor
  · intro h
    have hfault : (behind [] text).scan.fault = none := by
      rw [tokenize, Scan.toExcept, ofText_eq_behind] at h
      split at h
      · cases h
      · assumption
    obtain ⟨ts, hts⟩ := tiled_of_scan hfault
    rw [hresult hts] at h
    exact ⟨ts, hts, (Except.ok.inj h).symm⟩
  · rintro ⟨ts, hts, rfl⟩
    exact hresult hts

/-- A text is read as a list of tokens and then the end of the input exactly if it falls into blanks
and the lexemes of the tokens, none of which could be longer. -/
theorem tokenize_iff_tiled (text : List Char) (ts : List Token) :
    tokenize text = .ok (ts ++ [.endOf text]) ↔ Tiled [] text ts := by
  rw [tokenize_eq_ok]
  constructor
  · rintro ⟨us, hus, heq⟩
    rwa [List.append_cancel_right heq]
  · intro h
    exact ⟨ts, h, rfl⟩

end NordLang

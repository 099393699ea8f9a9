import NordLang.Token.Scan

/-!
# Lexemes

The lexical grammar as relations between texts and tokens, without a cursor and apart from the
tables that scanning looks things up in.

* `Quotes` relates what stands between the quotes of a string literal to the text it means.
* `Lexeme next` relates a text to the kind and payload of the token it is, if the character `next`
  follows it.  Where that character would make the lexeme longer there is none.
* `Tiled before text ts` says that `text`, read after `before`, falls into blanks and the lexemes of
  the tokens `ts`.

`isWord` and `isName` are the shapes of words and of names, which are the words that mean nothing
else.  The lemmas on `isBlank`, `escape?`, `keyword?`, `pair?` and `single?` say that the tables agree
with the grammar.
-/

namespace NordLang

/-- A letter or underscore, and then letters, digits and underscores. -/
def isWord : List Char → Bool
  | [] => false
  | c :: cs => isWordStart c && cs.all isWordChar

/-- The words that are keywords. -/
def reservedWords : List (List Char × TokenKind) :=
  [(['l', 'e', 't'], .letKw), (['f', 'n'], .fnKw), (['i', 'f'], .ifKw),
   (['t', 'h', 'e', 'n'], .thenKw), (['e', 'l', 's', 'e'], .elseKw),
   (['b', 'l', 'o', 'c', 'k'], .blockKw), (['c', 'o', 'n', 't', 'i', 'n', 'u', 'e'], .continueKw),
   (['b', 'r', 'e', 'a', 'k'], .breakKw), (['r', 'e', 't', 'u', 'r', 'n'], .returnKw),
   (['e', 'n', 'd'], .endKw)]

/-- A word that is neither a truth value nor a keyword. -/
def isName (w : List Char) : Bool :=
  isWord w && w != ['t', 'r', 'u', 'e'] && w != ['f', 'a', 'l', 's', 'e'] &&
    reservedWords.all (·.1 != w)

/-- The characters that may stand between lexemes: space, tab, line feed, carriage return and form
feed. -/
def blankChars : List Char := [' ', '\t', '\n', '\r', '\x0c']

/-- The characters that may follow a backslash, and what they mean there. -/
def escapes : List (Char × Char) :=
  [('\\', '\\'), ('"', '"'), ('n', '\n'), ('t', '\t'), ('r', '\r')]

/-- The symbols of one and of two characters. -/
def TokenKind.symbols : List TokenKind :=
  [doubleColon, colon, arrow, fatArrow, atSign, hash, dollar, bang, dot, comma, lparen, rparen,
   lbrace, rbrace, lbracket, rbracket, equals, semicolon, plus, minus, star, slash, percent,
   doubleEquals, notEquals, less, lessEqual, greater, greaterEqual, andAnd, orOr]

/-- What is written between the quotes of a string literal, and what it means. -/
inductive Quotes : List Char → List Char → Prop where
  | nil : Quotes [] []
  | plain {c : Char} {cs value : List Char} (hquote : c ≠ '"') (hline : c ≠ '\n')
      (hslash : c ≠ '\\') (rest : Quotes cs value) : Quotes (c :: cs) (c :: value)
  | escape {code c : Char} {cs value : List Char} (hcode : (code, c) ∈ escapes)
      (rest : Quotes cs value) : Quotes ('\\' :: code :: cs) (c :: value)

/-- A text that is a token of the given kind and payload when the character `next` follows.  Numbers
have at most 4300 digits and fit into 63 bits. -/
inductive Lexeme (next : Option Char) : List Char → TokenKind → Scalar → Prop where
  | yes (hnext : ∀ c ∈ next, isWordChar c = false) :
      Lexeme next ['t', 'r', 'u', 'e'] .boolean (.bool true)
  | no (hnext : ∀ c ∈ next, isWordChar c = false) :
      Lexeme next ['f', 'a', 'l', 's', 'e'] .boolean (.bool false)
  | keyword {w : List Char} {kind : TokenKind} (hw : (w, kind) ∈ reservedWords)
      (hnext : ∀ c ∈ next, isWordChar c = false) :
      Lexeme next w kind (.text (String.ofList w))
  | name {w : List Char} (hw : isName w = true) (hnext : ∀ c ∈ next, isWordChar c = false) :
      Lexeme next w .identifier (.text (String.ofList w))
  | number {ds : List Char} (hne : ds ≠ []) (hdigits : ∀ d ∈ ds, d.isDigit = true)
      (hlength : ds.length ≤ 4300) (hvalue : Nat.ofDigitChars 10 ds 0 ≤ 9223372036854775807)
      (hnext : ∀ c ∈ next, c.isDigit = false) :
      Lexeme next ds .integer (.int (Nat.ofDigitChars 10 ds 0))
  | string {cs value : List Char} (hquotes : Quotes cs value) :
      Lexeme next ('"' :: (cs ++ ['"'])) .string (.text (String.ofList value))
  | symbol {kind : TokenKind} (hkind : kind ∈ TokenKind.symbols)
      (hnext : ∀ b ∈ next, ∀ k ∈ TokenKind.symbols, k.spelling ≠ kind.spelling ++ [b]) :
      Lexeme next kind.spelling kind (.text (String.ofList kind.spelling))

/-- The place behind a text: one line more than its line feeds, and one column more than the
characters since the last of them. -/
def Location.after (before : List Char) : Location :=
  ⟨↑(before.count '\n' + 1), ↑((before.reverse.takeWhile (· != '\n')).length + 1)⟩

/-- The token that starts behind `before` and takes up `lexeme`. -/
def Token.spanning (before lexeme : List Char) (kind : TokenKind) (value : Scalar) : Token :=
  ⟨kind, value, .after before, before.length, (before ++ lexeme).length⟩

/-- The end of the input of a text. -/
def Token.endOf (text : List Char) : Token :=
  .spanning text [] .endOfInput (.text "")

/-- A text falls into blanks and lexemes.  What comes before it decides the places of the tokens. -/
inductive Tiled : List Char → List Char → List Token → Prop where
  | blanks {before w : List Char} (hw : ∀ c ∈ w, c ∈ blankChars) : Tiled before w []
  | token {before w lexeme rest : List Char} {kind : TokenKind} {value : Scalar} {ts : List Token}
      (hw : ∀ c ∈ w, c ∈ blankChars) (hlexeme : Lexeme rest.head? lexeme kind value)
      (later : Tiled (before ++ w ++ lexeme) rest ts) :
      Tiled before (w ++ (lexeme ++ rest)) (.spanning (before ++ w) lexeme kind value :: ts)

/-! ## Characters -/

theorem isBlank_iff {c : Char} : isBlank c = true ↔ c ∈ blankChars := by
  simp [isBlank, blankChars, or_assoc]

theorem escape?_eq_some_iff {code c : Char} : escape? code = some c ↔ (code, c) ∈ escapes := by
  constructor
  · intro h
    unfold escape? at h
    split at h <;> cases h <;> decide
  · intro h
    simp only [escapes, List.mem_cons, Prod.mk.injEq, List.not_mem_nil, or_false] at h
    rcases h with ⟨rfl, rfl⟩ | ⟨rfl, rfl⟩ | ⟨rfl, rfl⟩ | ⟨rfl, rfl⟩ | ⟨rfl, rfl⟩
    all_goals rfl

theorem isWordChar_of_isWordStart {c : Char} (h : isWordStart c = true) : isWordChar c = true := by
  simp only [isWordStart, isWordChar, Char.isAlphanum, Bool.or_eq_true] at h ⊢
  rcases h with h | h
  · exact .inl (.inl h)
  · exact .inr h

theorem isWordChar_of_isDigit {c : Char} (h : c.isDigit = true) : isWordChar c = true := by
  simp [isWordChar, Char.isAlphanum, h]

/-- The characters that start lexemes of one sort start none of another. -/
theorem isWordStart_eq_false_of_isDigit {c : Char} (h : c.isDigit = true) :
    isWordStart c = false := by
  have hne : c ≠ '_' := by
    rintro rfl
    cases h
  have hle : c.val.toNat ≤ 57 := by
    have hbounds := Bool.and_eq_true_iff.1 h
    exact UInt32.le_iff_toNat_le.1 (of_decide_eq_true hbounds.2)
  have hupper : c.isUpper = false := by
    refine Bool.eq_false_iff.2 fun hupper => ?_
    have hge : 65 ≤ c.val.toNat := UInt32.le_iff_toNat_le.1 (of_decide_eq_true hupper).1
    omega
  have hlower : c.isLower = false := by
    refine Bool.eq_false_iff.2 fun hlower => ?_
    have hge : 97 ≤ c.val.toNat :=
      UInt32.le_iff_toNat_le.1 (of_decide_eq_true (Bool.and_eq_true_iff.1 hlower).1)
    omega
  have halpha : c.isAlpha = (c.isUpper || c.isLower) := rfl
  rw [isWordStart, halpha, hupper, hlower]
  simpa using hne

theorem isWordChar_eq_false_of_mem_blankChars {c : Char} (h : c ∈ blankChars) :
    isWordChar c = false := by
  have hall : blankChars.all (fun c => isWordChar c == false) = true := by decide
  exact beq_iff_eq.1 (List.all_eq_true.1 hall c h)

/-! ## Symbols -/

namespace TokenKind

theorem pair?_eq_some_iff {a b : Char} {kind : TokenKind} :
    pair? a b = some kind ↔ kind ∈ symbols ∧ kind.spelling = [a, b] := by
  constructor
  · intro h
    unfold pair? at h
    split at h <;> cases h <;> decide
  · rintro ⟨hkind, hspelling⟩
    cases kind with
    | fnKw | ifKw => exact absurd hkind (by decide)
    | _ => cases hspelling <;> rfl

theorem single?_eq_some_iff {a : Char} {kind : TokenKind} :
    single? a = some kind ↔ kind ∈ symbols ∧ kind.spelling = [a] := by
  constructor
  · intro h
    unfold single? at h
    split at h <;> cases h <;> decide
  · rintro ⟨_, hspelling⟩
    cases kind with
    | _ => cases hspelling <;> rfl

theorem spelling_symbol {kind : TokenKind} (h : kind ∈ symbols) :
    (∃ a, kind.spelling = [a]) ∨ ∃ a b, kind.spelling = [a, b] := by
  have hlength : 0 < kind.spelling.length ∧ kind.spelling.length ≤ 2 := by
    revert kind
    decide
  rcases hspelling : kind.spelling with _ | ⟨a, _ | ⟨b, _ | ⟨c, cs⟩⟩⟩
  · simp [hspelling] at hlength
  · exact .inl ⟨a, rfl⟩
  · exact .inr ⟨a, b, rfl⟩
  · simp [hspelling] at hlength

/-- A character that starts a symbol starts nothing else. -/
theorem head_symbol {kind : TokenKind} (hkind : kind ∈ symbols) :
    ∃ c cs, kind.spelling = c :: cs ∧ isWordChar c = false ∧ c ≠ '"' ∧ c ∉ blankChars := by
  have hall : ∀ kind ∈ symbols, kind.spelling.head?.all (fun c =>
      decide (isWordChar c = false ∧ c ≠ '"' ∧ c ∉ blankChars)) = true := by decide
  have hhead := hall kind hkind
  rcases spelling_symbol hkind with ⟨a, heq⟩ | ⟨a, b, heq⟩
  · rw [heq] at hhead
    exact ⟨a, [], heq, of_decide_eq_true hhead⟩
  · rw [heq] at hhead
    exact ⟨a, [b], heq, of_decide_eq_true hhead⟩

end TokenKind

/-! ## Words -/

theorem isWord_all {w : List Char} (h : isWord w = true) : ∀ c ∈ w, isWordChar c = true := by
  cases w with
  | nil => cases h
  | cons c cs =>
    simp only [isWord, Bool.and_eq_true, List.all_eq_true] at h
    intro d hd
    rcases List.mem_cons.1 hd with rfl | hd
    · exact isWordChar_of_isWordStart h.1
    · exact h.2 d hd

theorem isWord_head {w : List Char} (h : isWord w = true) :
    ∃ c cs, w = c :: cs ∧ isWordStart c = true := by
  cases w with
  | nil => cases h
  | cons c cs =>
    simp only [isWord, Bool.and_eq_true] at h
    exact ⟨c, cs, rfl, h.1⟩

theorem isName_isWord {w : List Char} (h : isName w = true) : isWord w = true := by
  simp only [isName, Bool.and_eq_true] at h
  exact h.1.1.1

theorem isWord_reservedWords {w : List Char} {kind : TokenKind} (h : (w, kind) ∈ reservedWords) :
    isWord w = true := by
  have hall : ∀ entry ∈ reservedWords, isWord entry.1 = true := by decide
  exact hall _ h

theorem mem_reservedWords {w : List Char} {kind : TokenKind} :
    (w, kind) ∈ reservedWords ↔ kind ∈ TokenKind.keywords ∧ kind.spelling = w := by
  constructor
  · intro h
    have hall : ∀ entry ∈ reservedWords,
        entry.2 ∈ TokenKind.keywords ∧ entry.2.spelling = entry.1 := by decide
    exact hall _ h
  · rintro ⟨hkind, rfl⟩
    revert kind
    decide

theorem keyword?_eq_some_iff {w : List Char} {kind : TokenKind} :
    TokenKind.keyword? w = some kind ↔ (w, kind) ∈ reservedWords := by
  constructor
  · intro h
    have hspelling : kind.spelling = w := by simpa using List.find?_some h
    exact mem_reservedWords.2 ⟨List.mem_of_find?_eq_some h, hspelling⟩
  · intro h
    have hall : ∀ entry ∈ reservedWords, TokenKind.keyword? entry.1 = some entry.2 := by decide
    exact hall _ h

/-! ## Lexemes -/

namespace Lexeme

variable {next : Option Char} {l : List Char} {kind : TokenKind} {value : Scalar}

theorem kind_ne_endOfInput (h : Lexeme next l kind value) : kind ≠ .endOfInput := by
  cases h with
  | keyword hw =>
    have hall : ∀ entry ∈ reservedWords, entry.2 ≠ .endOfInput := by decide
    exact hall _ hw
  | symbol hkind =>
    rintro rfl
    exact absurd hkind (by decide)
  | _ => decide

/-- A lexeme starts with a character that is not a blank. -/
theorem head (h : Lexeme next l kind value) : ∃ c cs, l = c :: cs ∧ c ∉ blankChars := by
  have hchar {c : Char} (hc : isWordChar c = true) : c ∉ blankChars := by
    intro hblank
    rw [isWordChar_eq_false_of_mem_blankChars hblank] at hc
    cases hc
  have hword {w : List Char} (hw : isWord w = true) : ∃ c cs, w = c :: cs ∧ c ∉ blankChars := by
    obtain ⟨c, cs, rfl, hc⟩ := isWord_head hw
    exact ⟨c, cs, rfl, hchar (isWordChar_of_isWordStart hc)⟩
  cases h with
  | yes => exact ⟨_, _, rfl, by decide⟩
  | no => exact ⟨_, _, rfl, by decide⟩
  | keyword hw => exact hword (isWord_reservedWords hw)
  | name hw => exact hword (isName_isWord hw)
  | number hne hdigits =>
    cases l with
    | nil => exact absurd rfl hne
    | cons d ds =>
      exact ⟨d, ds, rfl, hchar (isWordChar_of_isDigit (hdigits d List.mem_cons_self))⟩
  | string => exact ⟨_, _, rfl, by decide⟩
  | symbol hkind =>
    obtain ⟨c, cs, heq, _, _, hc⟩ := TokenKind.head_symbol hkind
    exact ⟨c, cs, heq, hc⟩

/-- Lexemes that are neither strings nor symbols consist of word characters. -/
theorem isWordChar_of_mem (h : Lexeme next l kind value) (hstring : kind ≠ .string)
    (hsymbol : kind ∉ TokenKind.symbols) : ∀ c ∈ l, isWordChar c = true := by
  cases h with
  | yes => exact List.all_eq_true.1 rfl
  | no => exact List.all_eq_true.1 rfl
  | keyword hw => exact isWord_all (isWord_reservedWords hw)
  | name hw => exact isWord_all (isName_isWord hw)
  | number _ hdigits => exact fun d hd => isWordChar_of_isDigit (hdigits d hd)
  | string => exact absurd rfl hstring
  | symbol hkind => exact absurd hkind hsymbol

/-- A blank makes no lexeme longer. -/
theorem of_blank (h : Lexeme none l kind value) {c : Char} (hc : c ∈ blankChars) :
    Lexeme (some c) l kind value := by
  have hword : ∀ d ∈ some c, isWordChar d = false := by
    rintro _ ⟨⟩
    exact isWordChar_eq_false_of_mem_blankChars hc
  cases h with
  | yes => exact .yes hword
  | no => exact .no hword
  | keyword hw => exact .keyword hw hword
  | name hw => exact .name hw hword
  | number hne hdigits hlength hvalue =>
    refine .number hne hdigits hlength hvalue fun d hd => ?_
    refine Bool.eq_false_iff.2 fun hdigit => ?_
    have hnot := hword d hd
    rw [isWordChar_of_isDigit hdigit] at hnot
    cases hnot
  | string hquotes => exact .string hquotes
  | symbol hkind =>
    have hsymbols : ∀ k ∈ TokenKind.symbols, k.spelling.getLast?.all (!isBlank ·) = true := by
      decide
    refine .symbol hkind ?_
    rintro _ ⟨⟩ k hk heq
    have hlast := hsymbols k hk
    rw [heq, List.getLast?_concat] at hlast
    simp [isBlank_iff.2 hc] at hlast

end Lexeme

end NordLang

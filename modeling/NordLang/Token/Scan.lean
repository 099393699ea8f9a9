import NordLang.Token.Cursor
import NordLang.Token.Fault

/-!
# Reading tokens from text

Each reader starts at a cursor and returns what it read, or the fault, with the cursor where it
stopped.

* `readString`, `readInteger`, `readWord` and `readSymbol` read one token whatever stands there.
* `next` skips blanks and picks the reader by the next character.
* `scan` reads up to the end of the text or the first fault.
* A `Scanner` hands out tokens one by one and ends after the end of the input or a fault.

`rest_length_next_lt` says that a token which is not the end of the input takes up text.
-/

namespace NordLang

/-- The character that an escape stands for. -/
def escape? : Char → Option Char
  | '\\' => some '\\'
  | '"' => some '"'
  | 'n' => some '\n'
  | 't' => some '\t'
  | 'r' => some '\r'
  | _ => none

/-- What follows the opening quote of a string.  Lengths count the characters taken up. -/
inductive StringBody where
  | closed (value : List Char) (length : Nat)
  | unclosed (length : Nat)
  /-- A backslash after `length` characters that starts no escape. -/
  | badEscape (length : Nat) (code : Option Char)
  deriving DecidableEq, Repr

namespace StringBody

/-- One more character of value, written with `width` characters, in front. -/
def cons (c : Char) (width : Nat) : StringBody → StringBody
  | closed value length => closed (c :: value) (width + length)
  | unclosed length => unclosed (width + length)
  | badEscape length code => badEscape (width + length) code

def ofChars : List Char → StringBody
  | [] => unclosed 0
  | c :: rest =>
    if c = '"' then closed [] 1
    else if c = '\n' then unclosed 0
    else if c = '\\' then
      match rest with
      | [] => badEscape 0 none
      | code :: rest =>
        match escape? code with
        | none => badEscape 0 (some code)
        | some value => (ofChars rest).cons value 2
    else (ofChars rest).cons c 1

end StringBody

/-- Space, tab, line feed, carriage return and form feed separate tokens. -/
def isBlank (c : Char) : Bool :=
  c == ' ' || c == '\t' || c == '\n' || c == '\r' || c == '\x0c'

/-- ASCII letters and the underscore. -/
def isWordStart (c : Char) : Bool :=
  c.isAlpha || c == '_'

/-- ASCII letters, digits and the underscore. -/
def isWordChar (c : Char) : Bool :=
  c.isAlphanum || c == '_'

/-- The largest integer that can be written: 63 bits, all of them ones. -/
def maxInteger : Nat := 0x7fffffffffffffff

namespace Cursor

/-- The token from `c` up to `stop`. -/
def token (c stop : Cursor) (kind : TokenKind) (value : Scalar) : Token :=
  ⟨kind, value, c.loc, c.offset, stop.offset⟩

def skipBlanks (c : Cursor) : Cursor :=
  advanceBy (c.rest.takeWhile isBlank).length c

/-- Reads `length` characters as a symbol, fewer if the text ends before. -/
def readSymbol (kind : TokenKind) (length : Nat) (c : Cursor) : Token × Cursor :=
  let stop := advanceBy length c
  (c.token stop kind (.text (String.ofList (c.rest.take length))), stop)

/-- Reads the string whose opening quote stands at `c`. -/
def readString (c : Cursor) : Except LexicalFault Token × Cursor :=
  match StringBody.ofChars c.rest.tail with
  | .closed value length =>
    let stop := advanceBy (length + 1) c
    (.ok (c.token stop .string (.text (String.ofList value))), stop)
  | .unclosed length =>
    let stop := advanceBy (length + 1) c
    (.error (.unterminatedString (c.rest.take (length + 1)) c.loc c.offset stop.offset), stop)
  | .badEscape length code =>
    let escape := advanceBy (length + 1) c
    (.error (.invalidEscape code escape.loc escape.offset), escape.advance)

/-- Reads the run of digits at `c` as a number. -/
def readInteger (c : Cursor) : Except LexicalFault Token × Cursor :=
  let digits := c.rest.takeWhile Char.isDigit
  let stop := advanceBy digits.length c
  let value := Nat.ofDigitChars 10 digits 0
  if digits.isEmpty then (.error .noDigits, stop)
  else if digitLimit < digits.length then (.error (.tooManyDigits digits.length), stop)
  else if maxInteger < value then
    (.error (.integerOutOfRange digits c.loc c.offset stop.offset), stop)
  else (.ok (c.token stop .integer (.int value)), stop)

/-- What a word means: a truth value, a keyword or a name. -/
def wordMeaning (word : List Char) : TokenKind × Scalar :=
  if word = ['t', 'r', 'u', 'e'] then (.boolean, .bool true)
  else if word = ['f', 'a', 'l', 's', 'e'] then (.boolean, .bool false)
  else ((TokenKind.keyword? word).getD .identifier, .text (String.ofList word))

/-- Reads the run of word characters at `c`. -/
def readWord (c : Cursor) : Token × Cursor :=
  let word := c.rest.takeWhile isWordChar
  let stop := advanceBy word.length c
  let (kind, value) := wordMeaning word
  (c.token stop kind value, stop)

/-- The symbol at the start of a text with the number of its characters, the longer one first. -/
def symbolAt? : List Char → Option (TokenKind × Nat)
  | [] => none
  | [a] => (TokenKind.single? a).map (·, 1)
  | a :: b :: _ =>
    match TokenKind.pair? a b with
    | some kind => some (kind, 2)
    | none => (TokenKind.single? a).map (·, 1)

/-- Reads the token at `c`, which is not a blank. -/
def readToken (c : Cursor) : Except LexicalFault Token × Cursor :=
  match c.rest with
  | [] => (.ok (c.token c .endOfInput (.text "")), c)
  | ch :: _ =>
    if ch = '"' then c.readString
    else if ch.isDigit then c.readInteger
    else if isWordStart ch then
      let (token, stop) := c.readWord
      (.ok token, stop)
    else
      match symbolAt? c.rest with
      | some (kind, length) =>
        let (token, stop) := c.readSymbol kind length
        (.ok token, stop)
      | none => (.error (.unexpectedCharacter ch c.loc c.offset), c)

/-- Reads the next token after any blanks. -/
def next (c : Cursor) : Except LexicalFault Token × Cursor :=
  c.skipBlanks.readToken

theorem rest_length_skipBlanks_le (c : Cursor) :
    c.skipBlanks.rest.length ≤ c.rest.length := by
  rw [skipBlanks, rest_advanceBy, List.length_drop]
  omega

theorem symbolAt?_pos {text : List Char} {kind : TokenKind} {length : Nat}
    (h : symbolAt? text = some (kind, length)) : 0 < length := by
  unfold symbolAt? at h
  split at h
  · cases h
  · obtain ⟨_, _, h⟩ := Option.map_eq_some_iff.1 h
    cases h
    omega
  · split at h
    · cases h
      omega
    · obtain ⟨_, _, h⟩ := Option.map_eq_some_iff.1 h
      cases h
      omega

theorem rest_length_advanceBy_lt {c : Cursor} {n : Nat} (hn : 0 < n) (hc : c.rest ≠ []) :
    (advanceBy n c).rest.length < c.rest.length := by
  have := List.length_pos_iff.2 hc
  rw [rest_advanceBy, List.length_drop]
  omega

theorem rest_length_readToken_lt {c stop : Cursor} {token : Token}
    (h : c.readToken = (.ok token, stop)) (hend : ¬ token.isEnd) :
    stop.rest.length < c.rest.length := by
  have hword : ∀ {p : Char → Bool} {ch : Char} {rest : List Char}, c.rest = ch :: rest → p ch →
      0 < (c.rest.takeWhile p).length := by
    intro p ch rest hc hp
    simp [hc, hp]
  unfold readToken at h
  split at h
  · cases h
    simp [Cursor.token, Token.isEnd] at hend
  · next ch rest hc =>
    have hne : c.rest ≠ [] := by simp [hc]
    split at h
    · unfold readString at h
      split at h
      · cases h
        exact rest_length_advanceBy_lt (by omega) hne
      · cases h
      · cases h
    · split at h
      · next _ hdigit =>
        unfold readInteger at h
        simp only at h
        split at h
        · cases h
        · split at h
          · cases h
          · split at h
            · cases h
            · cases h
              exact rest_length_advanceBy_lt (hword hc hdigit) hne
      · split at h
        · next _ _ hstart =>
          cases h
          refine rest_length_advanceBy_lt (hword hc ?_) hne
          simp only [isWordStart, isWordChar, Char.isAlphanum, Bool.or_eq_true] at hstart ⊢
          grind
        · split at h
          · next kind length hsymbol =>
            cases h
            exact rest_length_advanceBy_lt (symbolAt?_pos hsymbol) hne
          · cases h

/-- A token that is not the end of the input takes up text. -/
theorem rest_length_next_lt {c stop : Cursor} {token : Token}
    (h : c.next = (.ok token, stop)) (hend : ¬ token.isEnd) :
    stop.rest.length < c.rest.length :=
  Nat.lt_of_lt_of_le (rest_length_readToken_lt h hend) (rest_length_skipBlanks_le c)

end Cursor

/-- The tokens up to the end of the input or the first fault, and where reading stopped. -/
structure Scan where
  tokens : List Token
  fault : Option LexicalFault
  stop : Cursor
  deriving DecidableEq, Repr

def Cursor.scan (c : Cursor) : Scan :=
  match h : c.next with
  | (.error fault, stop) => ⟨[], some fault, stop⟩
  | (.ok token, stop) =>
    if hend : token.isEnd then ⟨[token], none, stop⟩
    else
      have : stop.rest.length < c.rest.length := Cursor.rest_length_next_lt h hend
      let later := stop.scan
      { later with tokens := token :: later.tokens }
termination_by c.rest.length

/-- All tokens of a scan, or its fault. -/
def Scan.toExcept (s : Scan) : Except LexicalFault (List Token) :=
  match s.fault with
  | some fault => .error fault
  | none => .ok s.tokens

/-- All tokens of a text, the end of the input included. -/
def tokenize (text : List Char) : Except LexicalFault (List Token) :=
  (Cursor.ofText text).scan.toExcept

/-- Hands out the tokens at a cursor one by one. -/
structure Scanner where
  cursor : Cursor
  finished : Bool
  deriving DecidableEq, Repr

namespace Scanner

/-- The next token, or nothing once the end of the input or a fault has been handed out. -/
def next (s : Scanner) : Except LexicalFault (Option Token) × Scanner :=
  if s.finished then (.ok none, s)
  else
    match s.cursor.next with
    | (.ok token, stop) => (.ok (some token), ⟨stop, token.isEnd⟩)
    | (.error fault, stop) => (.error fault, ⟨stop, true⟩)

end Scanner

end NordLang

/-!
# Places in a settings file

A spot is what is left of a text, with the line and the column at which it starts, both counted
from 0.  Nesting is expressed by columns, and a key has to stand on one line with its colon.

* `gap` goes past spaces, line breaks and comments.
* `isMarker` recognises the lines that separate documents.
-/

namespace NordLang.Settings

/-- The characters that end a line. -/
def isBreak (c : Char) : Bool :=
  c == '\n' || c == '\r' || c == '\x85' || c == '\u2028' || c == '\u2029'

/-- Whether a word or an indicator can end before this character, or before the end of the text. -/
def endsWord : Option Char → Bool
  | none => true
  | some c => c == ' ' || c == '\t' || isBreak c

/-- The characters a settings file may hold at all. -/
def isAllowed (c : Char) : Bool :=
  let n := c.toNat
  c == '\t' || c == '\n' || c == '\r' || (0x20 ≤ n && n ≤ 0x7e) || n == 0x85 ||
    (0xa0 ≤ n && n ≤ 0xfffd) || 0x10000 ≤ n

structure Spot where
  rest : List Char
  column : Nat
  line : Nat

namespace Spot

/-- `n` characters further on the same line. -/
def forward (n : Nat) (s : Spot) : Spot :=
  ⟨s.rest.drop n, s.column + n, s.line⟩

def gapFrom (column line : Nat) (comment : Bool) : List Char → Spot
  | [] => ⟨[], column, line⟩
  | c :: rest =>
    if isBreak c then gapFrom 0 (line + 1) false rest
    else if comment || c == '#' then gapFrom (column + 1) line true rest
    else if c == ' ' then gapFrom (column + 1) line false rest
    else ⟨c :: rest, column, line⟩

/-- Past spaces, line breaks and comments. -/
def gap (s : Spot) : Spot :=
  gapFrom s.column s.line false s.rest

/-- Whether one of the two marks between documents stands here. -/
def isMarker (mark : Char) (s : Spot) : Bool :=
  s.column == 0 && s.rest.take 3 == [mark, mark, mark] && endsWord s.rest[3]?

/-- Whether the document ends here. -/
def isFinal (s : Spot) : Bool :=
  s.rest.isEmpty || s.isMarker '-' || s.isMarker '.'

/-- Whether an entry of a list starts here. -/
def isDash (s : Spot) : Bool :=
  s.rest.head? == some '-' && endsWord s.rest[1]?

/-- Whether the colon after a key stands here. -/
def isColon (s : Spot) : Bool :=
  s.rest.head? == some ':' && endsWord s.rest[1]?

end Spot

end NordLang.Settings

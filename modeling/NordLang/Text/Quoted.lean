import NordLang.Text.Printable

/-!
# Quoted text

The form in which text is shown inside messages and listings.  The text stands between single
quotes, or between double quotes when it holds a single quote and no double one.  A backslash, the
quote in use, a line feed, a carriage return and a tab are escaped by a backslash, and any other
character that is not printable is written by its code point in hexadecimal.
-/

namespace NordLang.Text

/-- `n` in lower-case hexadecimal, filled up with zeros to at least `width` digits. -/
def hex (width n : Nat) : List Char :=
  let digits := Nat.toDigits 16 n
  List.replicate (width - digits.length) '0' ++ digits

/-- The code point of a character in the shortest of the three hexadecimal forms. -/
def escapeCode (c : Char) : List Char :=
  if c.toNat < 0x100 then '\\' :: 'x' :: hex 2 c.toNat
  else if c.toNat < 0x10000 then '\\' :: 'u' :: hex 4 c.toNat
  else '\\' :: 'U' :: hex 8 c.toNat

/-- One character of a text quoted by `mark`. -/
def quoteChar (mark c : Char) : List Char :=
  if c = '\\' then ['\\', '\\']
  else if c = mark then ['\\', c]
  else if c = '\n' then ['\\', 'n']
  else if c = '\r' then ['\\', 'r']
  else if c = '\t' then ['\\', 't']
  else if isPrintable c then [c]
  else escapeCode c

/-- The quote that needs the fewer escapes, the single one if both do as well. -/
def quoteMark (s : List Char) : Char :=
  if s.contains '\'' && !s.contains '"' then '"' else '\''

def quoteChars (s : List Char) : List Char :=
  let mark := quoteMark s
  mark :: (s.flatMap (quoteChar mark) ++ [mark])

/-- Text between quotes, with escapes. -/
def quote (s : String) : String :=
  String.ofList (quoteChars s.toList)

end NordLang.Text

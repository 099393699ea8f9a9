import NordLang.Diagnostic

/-!
# Lexical faults

Why no token can be read at some place.  Four faults are about the text of the program and lead to
a diagnostic.  The other two are about the conversion of digits to a number: there are none, or
more than the limit allows.
-/

namespace NordLang

/-- The largest number of digits that is converted to or from a number. -/
def digitLimit : Nat := 4300

inductive LexicalFault where
  | unexpectedCharacter (c : Char) (loc : Location) (start : Nat)
  /-- A backslash, and the character after it unless the text ends there. -/
  | invalidEscape (code : Option Char) (loc : Location) (start : Nat)
  | unterminatedString (text : List Char) (loc : Location) (start stop : Nat)
  | integerOutOfRange (digits : List Char) (loc : Location) (start stop : Nat)
  | noDigits
  | tooManyDigits (count : Nat)
  deriving DecidableEq, Repr

namespace LexicalFault

/-- The diagnostic for a fault in the program text. -/
def diagnostic? : LexicalFault → Option Diagnostic
  | unexpectedCharacter c loc start =>
    some ⟨"Unexpected character: " ++ Text.quote c.toString, loc,
      .lexical start (start + 1) c.toString⟩
  | invalidEscape code loc start =>
    let text := String.ofList ('\\' :: code.toList)
    some ⟨"Invalid escape sequence: " ++ text, loc,
      .lexical start (start + 1 + code.toList.length) text⟩
  | unterminatedString text loc start stop =>
    some ⟨"Unterminated string literal", loc, .lexical start stop (String.ofList text)⟩
  | integerOutOfRange digits loc start stop =>
    let text := String.ofList digits
    some ⟨"Integer literal out of range: " ++ text, loc, .lexical start stop text⟩
  | noDigits | tooManyDigits _ => none

def message (f : LexicalFault) : String :=
  match f with
  | noDigits => "invalid literal for int() with base 10: ''"
  | tooManyDigits count =>
    s!"Exceeds the limit ({digitLimit} digits) for integer string conversion: value has " ++
      s!"{count} digits; use sys.set_int_max_str_digits() to increase the limit"
  | _ => (f.diagnostic?.map Diagnostic.message).getD ""

end LexicalFault

end NordLang

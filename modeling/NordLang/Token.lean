import NordLang.Scalar
import NordLang.Token.Kind

/-!
# Tokens

A token is a kind with a payload and its place in the text: line and column counted from 1, and the
offsets of its first character and of the one after its last.  Tokens may also be made by hand, so
neither the payload nor the place is tied to the kind.
-/

namespace NordLang

/-- A place in a text by line and column. -/
structure Location where
  line : Int
  column : Int
  deriving DecidableEq, Repr, Inhabited

structure Token where
  kind : TokenKind
  value : Scalar
  loc : Location
  start : Int
  stop : Int
  deriving DecidableEq, Repr, Inhabited

namespace Token

/-- Whether the token stands for the end of the input. -/
def isEnd (t : Token) : Bool :=
  t.kind == .endOfInput

/-- The token as a listing shows it. -/
def shown (t : Token) : String :=
  s!"Token({t.kind.name}, {t.value.shown}, L{t.loc.line}:{t.loc.column})"

/-- The token as a message names it. -/
def describe (t : Token) : String :=
  if t.isEnd then "end of input" else s!"{t.kind.name} ({t.value.shown})"

/-- The end of the input right after `last`, or at the very beginning when nothing came before. -/
def endAfter : Option Token → Token
  | none => ⟨.endOfInput, .text "", ⟨1, 1⟩, 0, 0⟩
  | some last =>
    if last.isEnd then last
    else
      ⟨.endOfInput, .text "", ⟨last.loc.line, last.loc.column + (last.stop - last.start)⟩,
        last.stop, last.stop⟩

end Token

end NordLang

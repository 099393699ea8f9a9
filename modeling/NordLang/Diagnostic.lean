import NordLang.Token

/-!
# Diagnostics

What is reported to the author of a program: a sentence, the place it is about, and a detail that
depends on the stage which found the trouble.
-/

namespace NordLang

/-- What a diagnostic says beyond its sentence and place. -/
inductive Detail where
  /-- Text that is no token: the offsets of the text at fault, and the text. -/
  | lexical (start stop : Int) (text : String)
  /-- A token that does not fit. -/
  | syntactic (token : Option Token)
  /-- Settings that cannot be used. -/
  | settings
  /-- A tree that cannot be laid out. -/
  | layout
  deriving DecidableEq, Repr

structure Diagnostic where
  text : String
  loc : Location
  detail : Detail
  deriving DecidableEq, Repr

namespace Diagnostic

/-- The place that diagnostics without one carry. -/
def nowhere : Location := ⟨0, 0⟩

/-- A diagnostic about a token has the token's place. -/
def ofToken (text : String) (token : Option Token) : Diagnostic :=
  ⟨text, (token.map Token.loc).getD nowhere, .syntactic token⟩

def message (d : Diagnostic) : String :=
  s!"Line {d.loc.line}, Col {d.loc.column}: {d.text}"

end Diagnostic

end NordLang

import NordLang.Token.Scan

/-!
# Supplies of tokens

Where a reader gets its tokens from: a text that is scanned on demand, or a list of tokens made by
hand, in which a gap ends the stream.  A lexical fault is met once, after the tokens before it;
from then on the stream has ended.
-/

namespace NordLang

structure Supply where
  items : List (Option Token)
  fault : Option LexicalFault
  deriving DecidableEq, Repr

/-- What one pull from a supply brings. -/
inductive Pull where
  | token (t : Token)
  | ended
  | fault (f : LexicalFault)
  deriving DecidableEq, Repr

namespace Supply

/-- The tokens of a text, each of them read when it is pulled. -/
def ofText (text : List Char) : Supply :=
  let scan := (Cursor.ofText text).scan
  ⟨scan.tokens.map some, scan.fault⟩

def ofItems (items : List (Option Token)) : Supply :=
  ⟨items, none⟩

def ofTokens (tokens : List Token) : Supply :=
  ofItems (tokens.map some)

def pull (s : Supply) : Pull × Supply :=
  match s.items with
  | some t :: items => (.token t, { s with items })
  | none :: items => (.ended, { s with items })
  | [] =>
    match s.fault with
    | some f => (.fault f, { s with fault := none })
    | none => (.ended, s)

end Supply

end NordLang

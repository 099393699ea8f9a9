import NordLang.Scalar

/-!
# JSON

Data as JSON, with the members of an object in the order in which they were added, and the text of
it.  The text is plain ASCII: every other character is written by its UTF-16 code units.

`render none` puts everything on one line.  `render (some pad)` starts a new line for every item
and member and repeats `pad` once per level of nesting.
-/

namespace NordLang

inductive Json where
  | scalar (value : Scalar)
  | array (items : List Json)
  | object (members : List (String × Json))
  deriving Inhabited

namespace Json

def escapeUnit (n : Nat) : List Char :=
  '\\' :: 'u' :: Text.hex 4 n

/-- One character inside a JSON string. -/
def escapeChar (c : Char) : List Char :=
  match c with
  | '"' => ['\\', '"']
  | '\\' => ['\\', '\\']
  | '\n' => ['\\', 'n']
  | '\r' => ['\\', 'r']
  | '\t' => ['\\', 't']
  | '\x0c' => ['\\', 'f']
  | '\x08' => ['\\', 'b']
  | c =>
    if 0x20 ≤ c.toNat && c.toNat ≤ 0x7e then [c]
    else if c.toNat < 0x10000 then escapeUnit c.toNat
    else
      let n := c.toNat - 0x10000
      escapeUnit (0xd800 + n / 0x400) ++ escapeUnit (0xdc00 + n % 0x400)

def renderText (s : String) : List Char :=
  '"' :: (s.toList.flatMap escapeChar ++ ['"'])

def renderScalar : Scalar → List Char
  | .null => "null".toList
  | .bool true => "true".toList
  | .bool false => "false".toList
  | .int n => (toString n).toList
  | .decimal m p => (Scalar.decimalText m p).toList
  | .text s => renderText s

/-- The line break in front of what stands at `depth`, if lines are broken at all. -/
def lineBreak (pad : Option (List Char)) (depth : Nat) : List Char :=
  match pad with
  | none => []
  | some pad => '\n' :: (List.replicate depth pad).flatten

/-- What stands between two items. -/
def separator (pad : Option (List Char)) (depth : Nat) : List Char :=
  match pad with
  | none => [',', ' ']
  | some _ => ',' :: lineBreak pad depth

mutual

/-- The text of `json` at `depth`, in front of `tail`. -/
def renderOnto (pad : Option (List Char)) (depth : Nat) : Json → List Char → List Char
  | scalar value, tail => renderScalar value ++ tail
  | array [], tail => '[' :: ']' :: tail
  | array (item :: items), tail =>
    '[' :: (lineBreak pad (depth + 1) ++ renderOnto pad (depth + 1) item
      (itemsOnto pad (depth + 1) items (lineBreak pad depth ++ ']' :: tail)))
  | object [], tail => '{' :: '}' :: tail
  | object ((name, value) :: members), tail =>
    '{' :: (lineBreak pad (depth + 1) ++ renderText name ++ ':' :: ' ' ::
      renderOnto pad (depth + 1) value
        (membersOnto pad (depth + 1) members (lineBreak pad depth ++ '}' :: tail)))

/-- The items after the first, each behind its separator. -/
def itemsOnto (pad : Option (List Char)) (depth : Nat) : List Json → List Char → List Char
  | [], tail => tail
  | item :: items, tail =>
    separator pad depth ++ renderOnto pad depth item (itemsOnto pad depth items tail)

/-- The members after the first, each behind its separator. -/
def membersOnto (pad : Option (List Char)) (depth : Nat) :
    List (String × Json) → List Char → List Char
  | [], tail => tail
  | (name, value) :: members, tail =>
    separator pad depth ++ renderText name ++ ':' :: ' ' ::
      renderOnto pad depth value (membersOnto pad depth members tail)

end

def render (pad : Option String) (json : Json) : String :=
  String.ofList (renderOnto (pad.map String.toList) 0 json [])

end Json

end NordLang

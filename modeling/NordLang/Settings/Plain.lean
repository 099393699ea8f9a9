import NordLang.Scalar

/-!
# The meaning of plain words

A word without quotes in a settings file is null, a truth value, an integer, a decimal or else text.

* Truth values are `true`, `yes`, `on` and their opposites, in lower case, capitalised or in upper
  case.
* Integers may have a sign and underscores.  They are decimal, octal after a leading zero, binary
  after `0b`, hexadecimal after `0x`, or written with colons in base 60.
* Decimals have a point and may have an exponent with a sign.
-/

namespace NordLang.Settings

/-- The word in lower case, capitalised and in upper case. -/
def spellings (word : String) : List String :=
  [word, word.capitalize, word.toUpper]

def isNullWord (word : String) : Bool :=
  (["~"] ++ spellings "null").contains word

def truthWord? (word : String) : Option Bool :=
  if (["yes", "true", "on"].flatMap spellings).contains word then some true
  else if (["no", "false", "off"].flatMap spellings).contains word then some false
  else none

/-- A sign in front of a number, and the rest. -/
def splitSign : List Char → Int × List Char
  | '-' :: rest => (-1, rest)
  | '+' :: rest => (1, rest)
  | rest => (1, rest)

def digitValue? (base : Nat) (c : Char) : Option Nat :=
  let value :=
    if '0' ≤ c ∧ c ≤ '9' then some (c.toNat - '0'.toNat)
    else if 'a' ≤ c ∧ c ≤ 'f' then some (c.toNat - 'a'.toNat + 10)
    else if 'A' ≤ c ∧ c ≤ 'F' then some (c.toNat - 'A'.toNat + 10)
    else none
  value.filter (· < base)

/-- The value of digits with underscores among them, of which there is at least one of either. -/
def digitsValue? (base : Nat) (digits : List Char) : Option Nat :=
  if digits.isEmpty then none
  else
    digits.foldl (fun value c => do
      let value ← value
      if c = '_' then return value
      return value * base + (← digitValue? base c)) (some 0)

/-- Pieces of a list between the elements equal to `sep`. -/
def splitAt (sep : Char) : List Char → List (List Char)
  | [] => [[]]
  | c :: rest =>
    if c = sep then [] :: splitAt sep rest
    else
      match splitAt sep rest with
      | piece :: pieces => (c :: piece) :: pieces
      | [] => [[c]]

/-- One of the places after the first in base 60: one or two digits below 60. -/
def sixtieth? : List Char → Option Nat
  | [c] => digitValue? 10 c
  | [c, d] => do return (← digitValue? 6 c) * 10 + (← digitValue? 10 d)
  | _ => none

/-- An integer without a sign. -/
def natural? (digits : List Char) : Option Nat :=
  match digits with
  | ['0'] => some 0
  | '0' :: 'b' :: rest => digitsValue? 2 rest
  | '0' :: 'x' :: rest => digitsValue? 16 rest
  | '0' :: rest => digitsValue? 8 rest
  | c :: _ =>
    if c = '_' then none
    else
      match splitAt ':' digits with
      | [digits] => digitsValue? 10 digits
      | first :: places => do
        let first ← digitsValue? 10 first
        places.foldlM (fun value place => do return value * 60 + (← sixtieth? place)) first
      | [] => none
  | [] => none

/-- The exponent of a decimal, which has to have a sign. -/
def exponent? : List Char → Option Int
  | [] => some 0
  | e :: sign :: digits => do
    if (e = 'e' ∨ e = 'E') ∧ (sign = '+' ∨ sign = '-') ∧ ¬ digits.contains '_' then
      let value ← digitsValue? 10 digits
      return if sign = '-' then -value else value
    else none
  | _ => none

/-- The number `mantissa / 10 ^ places * 10 ^ exponent`. -/
def scaled (mantissa : Int) (places : Nat) (exponent : Int) : Scalar :=
  let shift := exponent - places
  if 0 ≤ shift then .decimal (mantissa * Nat.pow 10 shift.toNat) 0
  else .decimal mantissa (-shift).toNat

/-- A number with a point.  Digits may be missing on one side of it, on the left only if there is no
sign. -/
def decimal? (word : List Char) : Option Scalar := do
  let (sign, digits) := splitSign word
  let isDigit (c : Char) : Bool := c.isDigit || c == '_'
  let whole := digits.takeWhile isDigit
  match digits.dropWhile isDigit with
  | '.' :: rest =>
    let part := rest.takeWhile isDigit
    let exponent ← exponent? (rest.dropWhile isDigit)
    let wholeStarts := whole.head?.any Char.isDigit
    let partStarts := part.head?.any Char.isDigit && whole.isEmpty && digits.length = word.length
    if wholeStarts || partStarts then
      let part := part.filter Char.isDigit
      let value ← digitsValue? 10 (whole ++ part)
      return scaled (sign * value) part.length exponent
    else none
  | _ => none

def integer? (word : List Char) : Option Scalar :=
  let (sign, digits) := splitSign word
  (natural? digits).map fun value => .int (sign * value)

/-- What a plain word means.  The signs for merging and for default values mean nothing here. -/
def plainMeaning? (word : List Char) : Option Scalar :=
  let text := String.ofList word
  if text = "=" ∨ text = "<<" then none
  else if isNullWord text then some .null
  else
    match truthWord? text with
    | some b => some (.bool b)
    | none => some (((decimal? word).orElse fun _ => integer? word).getD (.text text))

end NordLang.Settings

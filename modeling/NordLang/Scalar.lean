import NordLang.Text.Quoted

/-!
# Scalars

The values a token carries and a settings file holds at its leaves.

* `shown` is the form of a scalar in listings and messages, `plain` the form inside a sentence.
* `same` is the equality by which keys and payloads are compared: a truth value counts as the
  number 1 or 0, and a decimal equals the integer of the same value.
-/

namespace NordLang

inductive Scalar where
  | null
  | bool (b : Bool)
  | int (n : Int)
  /-- The number `mantissa / 10 ^ places`. -/
  | decimal (mantissa : Int) (places : Nat)
  | text (s : String)
  deriving DecidableEq, Repr, Inhabited

namespace Scalar

/-- The name of a scalar's type in messages. -/
def typeName : Scalar → String
  | null => "NoneType"
  | bool _ => "bool"
  | int _ => "int"
  | decimal _ _ => "float"
  | text _ => "str"

/-- A decimal with a point and at least one digit on both sides of it. -/
def decimalText (mantissa : Int) (places : Nat) : String :=
  let sign := if mantissa < 0 then "-" else ""
  let scale := Nat.pow 10 places
  let whole := mantissa.natAbs / scale
  let part := (Nat.toDigits 10 (mantissa.natAbs % scale))
  let digits := List.replicate (places - part.length) '0' ++ part
  let digits := (digits.reverse.dropWhile (· == '0')).reverse
  sign ++ toString whole ++ "." ++ (if digits.isEmpty then "0" else String.ofList digits)

def shown : Scalar → String
  | null => "None"
  | bool true => "True"
  | bool false => "False"
  | int n => toString n
  | decimal m p => decimalText m p
  | text s => Text.quote s

def plain : Scalar → String
  | text s => s
  | v => v.shown

/-- Null, false, zero and the empty text count as false. -/
def isTrue : Scalar → Bool
  | null => false
  | bool b => b
  | int n => n != 0
  | decimal m _ => m != 0
  | text s => s != ""

/-- The value of a scalar as a fraction, if it is a number. -/
def fraction? : Scalar → Option (Int × Nat)
  | bool b => some (if b then 1 else 0, 1)
  | int n => some (n, 1)
  | decimal m p => some (m, Nat.pow 10 p)
  | _ => none

def same (a b : Scalar) : Bool :=
  match a.fraction?, b.fraction? with
  | some (m, d), some (n, e) => m * e == n * d
  | none, none => a == b
  | _, _ => false

end Scalar

end NordLang

import NordLang.Token.Kind

/-!
# Operators

Fourteen binary operators in six tiers and two unary ones.  A higher tier binds tighter.  Every
operator is written by one symbol; the minus sign is both subtraction and negation.
-/

namespace NordLang

inductive Operator where
  | assign | either | both
  | equal | notEqual | less | lessEqual | greater | greaterEqual
  | add | sub | mul | div | mod
  | negate | invert
  deriving DecidableEq, Repr, Inhabited

namespace Operator

def all : List Operator :=
  [assign, either, both, equal, notEqual, less, lessEqual, greater, greaterEqual,
   add, sub, mul, div, mod, negate, invert]

theorem mem_all (op : Operator) : op ∈ all := by
  cases op <;> decide

/-- The place of an operator in `all`, counted from 1. -/
def number (op : Operator) : Nat :=
  all.idxOf op + 1

def name : Operator → String
  | assign => "ASSIGN"
  | either => "OR"
  | both => "AND"
  | equal => "EQUAL"
  | notEqual => "NOT_EQUAL"
  | less => "LESS"
  | lessEqual => "LESS_EQUAL"
  | greater => "GREATER"
  | greaterEqual => "GREATER_EQUAL"
  | add => "ADD"
  | sub => "SUB"
  | mul => "MUL"
  | div => "DIV"
  | mod => "MOD"
  | negate => "NEG"
  | invert => "NOT"

def ofName? (s : String) : Option Operator :=
  all.find? (·.name == s)

/-- The operator as a listing shows it. -/
def shown (op : Operator) : String :=
  s!"<Opcode.{op.name}: {op.number}>"

/-- The kind of token that writes the operator. -/
def sign : Operator → TokenKind
  | assign => .equals
  | either => .orOr
  | both => .andAnd
  | equal => .doubleEquals
  | notEqual => .notEquals
  | less => .less
  | lessEqual => .lessEqual
  | greater => .greater
  | greaterEqual => .greaterEqual
  | add => .plus
  | sub => .minus
  | mul => .star
  | div => .slash
  | mod => .percent
  | negate => .minus
  | invert => .bang

/-- The tier of a binary operator, the loosest being 1. -/
def tier? : Operator → Option Nat
  | assign => some 1
  | either => some 2
  | both => some 3
  | equal | notEqual | less | lessEqual | greater | greaterEqual => some 4
  | add | sub => some 5
  | mul | div | mod => some 6
  | negate | invert => none

def isUnary (op : Operator) : Bool :=
  op.tier?.isNone

/-- The binary operator of a tier that a kind of token writes. -/
def ofTier? (tier : Nat) (kind : TokenKind) : Option Operator :=
  all.find? fun op => op.sign == kind && op.tier? == some tier

/-- The unary operator that a kind of token writes. -/
def unary? : TokenKind → Option Operator
  | .minus => some negate
  | .bang => some invert
  | _ => none

/-- No operator is written by the end of the input. -/
theorem ofTier?_endOfInput (tier : Nat) : ofTier? tier .endOfInput = none := by
  rw [ofTier?, List.find?_eq_none]
  intro op _
  cases op <;> simp [sign]

end Operator

end NordLang

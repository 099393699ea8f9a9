import NordLang.Operator
import NordLang.Token

/-!
# Expression trees

Twelve kinds of expression over four kinds of atom.  A tree may be incomplete or ill-assorted: a
child may be missing, an atom, a stray value or a sequence may stand where an expression belongs, a
node or atom may be bare, that is of no particular kind, and a form may be hollow, that is without
its sequence of parts.  Such trees can be shown and dumped, and the layout of a tree says what is
wrong with them.

Names and values are scalars, since they come from tokens as they are.  A parameter, an alternative
branch and an argument may be absent; `Scalar.null` and `Tree.missing` stand for that.
-/

namespace NordLang

/-- The forms that hold a sequence of parts. -/
inductive Form where
  | array | object | block
  deriving DecidableEq, Repr

namespace Form

def kindName : Form → String
  | array => "Array"
  | object => "Object"
  | block => "Block"

/-- What the parts of a form are called. -/
def partsName : Form → String
  | array => "elements"
  | object => "fields"
  | block => "body"

end Form

inductive Tree where
  /-- A value where a tree belongs. -/
  | stray (value : Scalar)
  /-- A sequence where a tree belongs. -/
  | sequence (items : List Tree)
  /-- A form that has something else where its sequence of parts belongs. -/
  | hollow (loc : Location) (form : Form) (parts : Tree)
  | bareNode (loc : Location)
  | bareAtom
  | num (value : Scalar)
  | boolean (value : Scalar)
  | string (value : Scalar)
  | identifier (name : Scalar)
  | constant (loc : Location) (atom : Tree)
  | ifElse (loc : Location) (cond thenBranch elseBranch : Tree)
  | letBind (loc : Location) (name : Scalar) (value : Tree)
  | array (loc : Location) (elements : List Tree)
  | object (loc : Location) (fields : List (Scalar × Tree))
  | lambda (loc : Location) (param : Scalar) (body : Tree)
  | block (loc : Location) (body : List Tree)
  | binary (loc : Location) (left : Tree) (op : Option Operator) (right : Tree)
  | unary (loc : Location) (op : Option Operator) (operand : Tree)
  | call (loc : Location) (callee arg : Tree)
  | index (loc : Location) (callee index : Tree)
  | member (loc : Location) (callee : Tree) (field : Scalar)
  deriving Inhabited

namespace Tree

/-- No tree at all. -/
@[match_pattern]
abbrev missing : Tree := stray .null

/-- The name of a tree's kind. -/
def kindName : Tree → String
  | stray value => value.typeName
  | sequence _ => "tuple"
  | hollow _ form _ => form.kindName
  | bareNode _ => "Expr"
  | bareAtom => "Atom"
  | num _ => "Num"
  | boolean _ => "Boolean"
  | string _ => "String"
  | identifier _ => "Identifier"
  | constant .. => "Constant"
  | ifElse .. => "IfElse"
  | letBind .. => "Let"
  | array .. => "Array"
  | object .. => "Object"
  | lambda .. => "Lambda"
  | block .. => "Block"
  | binary .. => "BinaryOp"
  | unary .. => "UnaryOp"
  | call .. => "Call"
  | index .. => "Index"
  | member .. => "Member"

/-- Where an expression stands; atoms and what is no tree have no place. -/
def loc? : Tree → Option Location
  | stray _ | sequence _ | bareAtom | num _ | boolean _ | string _ | identifier _ => none
  | hollow loc _ _ | bareNode loc | constant loc _ | ifElse loc _ _ _ | letBind loc _ _ | array loc _
  | object loc _ | lambda loc _ _ | block loc _ | binary loc _ _ _ | unary loc _ _
  | call loc _ _ | index loc _ _ | member loc _ _ => some loc

/-- Whether a tree counts as true: a stray value by itself, a sequence if it has items, and all else
always. -/
def isTrue : Tree → Bool
  | stray value => value.isTrue
  | sequence items => !items.isEmpty
  | _ => true

mutual

/-- Equality up to locations. -/
def same : Tree → Tree → Bool
  | stray a, stray b => a.same b
  | sequence as, sequence bs => sameAll as bs
  | hollow _ f p, hollow _ f' p' => f == f' && p.same p'
  | bareNode _, bareNode _ => true
  | bareAtom, bareAtom => true
  | num a, num b => a.same b
  | boolean a, boolean b => a.same b
  | string a, string b => a.same b
  | identifier a, identifier b => a.same b
  | constant _ a, constant _ b => a.same b
  | ifElse _ c t e, ifElse _ c' t' e' => c.same c' && t.same t' && e.same e'
  | letBind _ n v, letBind _ n' v' => n.same n' && v.same v'
  | array _ es, array _ es' => sameAll es es'
  | object _ fs, object _ fs' => sameFields fs fs'
  | lambda _ p b, lambda _ p' b' => p.same p' && b.same b'
  | block _ es, block _ es' => sameAll es es'
  | binary _ l o r, binary _ l' o' r' => l.same l' && o == o' && r.same r'
  | unary _ o t, unary _ o' t' => o == o' && t.same t'
  | call _ c a, call _ c' a' => c.same c' && a.same a'
  | index _ c i, index _ c' i' => c.same c' && i.same i'
  | member _ c f, member _ c' f' => c.same c' && f.same f'
  | _, _ => false

def sameAll : List Tree → List Tree → Bool
  | [], [] => true
  | a :: as, b :: bs => a.same b && sameAll as bs
  | _, _ => false

def sameFields : List (Scalar × Tree) → List (Scalar × Tree) → Bool
  | [], [] => true
  | (n, a) :: as, (m, b) :: bs => n.same m && a.same b && sameFields as bs
  | _, _ => false

end

end Tree

end NordLang

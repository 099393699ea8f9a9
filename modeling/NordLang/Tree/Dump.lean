import NordLang.Json
import NordLang.Tree

/-!
# Trees as data

Every node is an object with its kind first, then its place and its parts.  Atoms have no place.
Nothing of a tree is lost.
-/

namespace NordLang.Tree

def dumpText (s : String) : Json := .scalar (.text s)

def dumpOperator : Option Operator → Json
  | none => .scalar .null
  | some op => dumpText op.name

/-- A node with its place and parts. -/
def dumpNode (kind : String) (loc : Location) (parts : List (String × Json)) : Json :=
  .object (("kind", dumpText kind) :: ("line", .scalar (.int loc.line)) ::
    ("col", .scalar (.int loc.column)) :: parts)

mutual

def dump : Tree → Json
  | stray value => .scalar value
  | sequence items => .array (dumpAll items)
  | hollow loc form parts => dumpNode form.kindName loc [(form.partsName, parts.dump)]
  | bareNode loc => dumpNode "Expr" loc []
  | bareAtom => .object [("kind", dumpText "Atom")]
  | num value => .object [("kind", dumpText "Num"), ("value", .scalar value)]
  | boolean value => .object [("kind", dumpText "Boolean"), ("value", .scalar value)]
  | string value => .object [("kind", dumpText "String"), ("value", .scalar value)]
  | identifier name => .object [("kind", dumpText "Identifier"), ("name", .scalar name)]
  | constant loc atom => dumpNode "Constant" loc [("value", atom.dump)]
  | ifElse loc cond thenBranch elseBranch =>
    dumpNode "IfElse" loc
      [("cond", cond.dump), ("then_branch", thenBranch.dump), ("else_branch", elseBranch.dump)]
  | letBind loc name value => dumpNode "Let" loc [("name", .scalar name), ("value", value.dump)]
  | array loc elements => dumpNode "Array" loc [("elements", .array (dumpAll elements))]
  | object loc fields => dumpNode "Object" loc [("fields", .array (dumpFields fields))]
  | lambda loc param body => dumpNode "Lambda" loc [("param", .scalar param), ("body", body.dump)]
  | block loc body => dumpNode "Block" loc [("body", .array (dumpAll body))]
  | binary loc left op right =>
    dumpNode "BinaryOp" loc
      [("left", left.dump), ("op", dumpOperator op), ("right", right.dump)]
  | unary loc op operand =>
    dumpNode "UnaryOp" loc [("op", dumpOperator op), ("operand", operand.dump)]
  | call loc callee arg => dumpNode "Call" loc [("callee", callee.dump), ("arg", arg.dump)]
  | index loc callee key =>
    dumpNode "Index" loc [("callee", callee.dump), ("index", key.dump)]
  | member loc callee field =>
    dumpNode "Member" loc [("callee", callee.dump), ("field", .scalar field)]

def dumpAll : List Tree → List Json
  | [] => []
  | t :: ts => t.dump :: dumpAll ts

def dumpFields : List (Scalar × Tree) → List Json
  | [] => []
  | (name, value) :: rest => .array [.scalar name, value.dump] :: dumpFields rest

end

end NordLang.Tree

import NordLang.Tree

/-!
# Trees in listings

A tree on one line: the name of its kind with its parts by name, sequences in round brackets.
-/

namespace NordLang.Tree

def showLoc (loc : Location) : String :=
  s!"line={loc.line}, col={loc.column}"

def showOperator : Option Operator → String
  | none => "None"
  | some op => op.shown

/-- A sequence of shown items; a single one is followed by a comma. -/
def showSequence : List String → String
  | [] => "()"
  | [item] => "(" ++ item ++ ",)"
  | items => "(" ++ String.intercalate ", " items ++ ")"

mutual

def shown : Tree → String
  | stray value => value.shown
  | sequence items => showSequence (shownAll items)
  | hollow loc form parts =>
    form.kindName ++ "(" ++ showLoc loc ++ ", " ++ form.partsName ++ "=" ++ parts.shown ++ ")"
  | bareNode loc => "Expr(" ++ showLoc loc ++ ")"
  | bareAtom => "Atom()"
  | num value => "Num(value=" ++ value.shown ++ ")"
  | boolean value => "Boolean(value=" ++ value.shown ++ ")"
  | string value => "String(value=" ++ value.shown ++ ")"
  | identifier name => "Identifier(name=" ++ name.shown ++ ")"
  | constant loc atom => "Constant(" ++ showLoc loc ++ ", value=" ++ atom.shown ++ ")"
  | ifElse loc cond thenBranch elseBranch =>
    "IfElse(" ++ showLoc loc ++ ", cond=" ++ cond.shown ++ ", then_branch=" ++
      thenBranch.shown ++ ", else_branch=" ++ elseBranch.shown ++ ")"
  | letBind loc name value =>
    "Let(" ++ showLoc loc ++ ", name=" ++ name.shown ++ ", value=" ++ value.shown ++ ")"
  | array loc elements =>
    "Array(" ++ showLoc loc ++ ", elements=" ++ showSequence (shownAll elements) ++ ")"
  | object loc fields =>
    "Object(" ++ showLoc loc ++ ", fields=" ++ showSequence (shownFields fields) ++ ")"
  | lambda loc param body =>
    "Lambda(" ++ showLoc loc ++ ", param=" ++ param.shown ++ ", body=" ++ body.shown ++ ")"
  | block loc body => "Block(" ++ showLoc loc ++ ", body=" ++ showSequence (shownAll body) ++ ")"
  | binary loc left op right =>
    "BinaryOp(" ++ showLoc loc ++ ", left=" ++ left.shown ++ ", op=" ++ showOperator op ++
      ", right=" ++ right.shown ++ ")"
  | unary loc op operand =>
    "UnaryOp(" ++ showLoc loc ++ ", op=" ++ showOperator op ++ ", operand=" ++ operand.shown ++ ")"
  | call loc callee arg =>
    "Call(" ++ showLoc loc ++ ", callee=" ++ callee.shown ++ ", arg=" ++ arg.shown ++ ")"
  | index loc callee key =>
    "Index(" ++ showLoc loc ++ ", callee=" ++ callee.shown ++ ", index=" ++ key.shown ++ ")"
  | member loc callee field =>
    "Member(" ++ showLoc loc ++ ", callee=" ++ callee.shown ++ ", field=" ++ field.shown ++ ")"

def shownAll : List Tree → List String
  | [] => []
  | t :: ts => t.shown :: shownAll ts

def shownFields : List (Scalar × Tree) → List String
  | [] => []
  | (name, value) :: rest =>
    ("(" ++ name.shown ++ ", " ++ value.shown ++ ")") :: shownFields rest

end

/-- A tree inside a sentence. -/
def plain : Tree → String
  | stray value => value.plain
  | t => t.shown

end NordLang.Tree

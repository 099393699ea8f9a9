import NordLang.Diagnostic
import NordLang.Token.Fault
import NordLang.Tree.Shown

/-!
# The layout of a tree

A tree is written as a sequence of pieces: the tokens of its text and the blanks between them.
Parentheses go around an operand that binds looser than its place allows, and nowhere else.

* `Piece` and `Piece.chars` are the pieces and their text.
* `strength` is how tightly a tree binds.
* `pieces` lays a tree out, `text` is the text of that.
* `layout` is the text as well, except for a tree that is just a name which is not text.

Laying out fails on trees that have no text.  Parts are laid out from left to right, except that the
argument of a call comes before its callee, and the first failure is reported.

A name that is not text is written out where it stands inside a text.  It cannot be an item of an
array or a body, nor be looked at for a minus sign.
-/

namespace NordLang

/-- Why a tree has no text. -/
inductive LayoutFault where
  | unsupportedNode (kindName : String) (loc : Location)
  | unsupportedAtom (kindName : String) (loc : Location)
  /-- The operator of a binary node belongs to no tier. -/
  | noTier (op : Option Operator)
  /-- A unary node without an operator. -/
  | noSign
  /-- A branch that has no body. -/
  | noBody (kindName : String)
  /-- Something that is no sequence of parts where one is needed. -/
  | noSequence (typeName : String)
  /-- An item of an array or a body that is a name which is not text. -/
  | itemNoText (index : Nat) (typeName : String)
  /-- An operand of a minus sign that is a name which is not text. -/
  | operandNoText (typeName : String)
  /-- A field of an object that has no parts. -/
  | fieldNoParts (typeName : String)
  /-- A field of an object with so many parts and not two. -/
  | fieldParts (count : Nat)
  | tooManyDigits
  deriving DecidableEq, Repr

namespace LayoutFault

def diagnostic? : LayoutFault → Option Diagnostic
  | unsupportedNode kindName loc => some ⟨"Unsupported node type: " ++ kindName, loc, .layout⟩
  | unsupportedAtom kindName loc => some ⟨"Unsupported atom type: " ++ kindName, loc, .layout⟩
  | _ => none

def message (f : LayoutFault) : String :=
  match f with
  | noTier none => "None"
  | noTier (some op) => op.shown
  | noSign => "'NoneType' object has no attribute 'symbol'"
  | noBody kindName => s!"'{kindName}' object has no attribute 'body'"
  | noSequence typeName => s!"'{typeName}' object is not iterable"
  | itemNoText index typeName =>
    s!"sequence item {index}: expected str instance, {typeName} found"
  | operandNoText typeName => s!"'{typeName}' object has no attribute 'startswith'"
  | fieldNoParts typeName => s!"cannot unpack non-iterable {typeName} object"
  | fieldParts count =>
    if count < 2 then s!"not enough values to unpack (expected 2, got {count})"
    else "too many values to unpack (expected 2)"
  | tooManyDigits =>
    s!"Exceeds the limit ({digitLimit} digits) for integer string conversion; " ++
      "use sys.set_int_max_str_digits() to increase the limit"
  | _ => (f.diagnostic?.map Diagnostic.message).getD ""

end LayoutFault

/-- A token of the text of a tree, or a blank. -/
inductive Piece where
  | blank
  /-- A keyword or symbol. -/
  | fixed (kind : TokenKind)
  | name (text : List Char)
  | number (text : List Char)
  | truth (value : Bool)
  | quoted (value : List Char)
  deriving DecidableEq, Repr

/-- One character inside a string literal. -/
def escapeInString (c : Char) : List Char :=
  match c with
  | '\\' => ['\\', '\\']
  | '"' => ['\\', '"']
  | '\n' => ['\\', 'n']
  | '\t' => ['\\', 't']
  | '\r' => ['\\', 'r']
  | c => [c]

/-- The literal for a string. -/
def stringLiteral (value : List Char) : List Char :=
  '"' :: (value.flatMap escapeInString ++ ['"'])

namespace Piece

def chars : Piece → List Char
  | blank => [' ']
  | fixed kind => kind.spelling
  | name text => text
  | number text => text
  | truth true => ['t', 'r', 'u', 'e']
  | truth false => ['f', 'a', 'l', 's', 'e']
  | quoted value => stringLiteral value

/-- The text of a sequence of pieces. -/
def textOf (ps : List Piece) : List Char :=
  ps.flatMap chars

/-- The first character of the text of a sequence of pieces. -/
def firstChar? (ps : List Piece) : Option Char :=
  ps.findSome? fun p => p.chars.head?

/-- Sequences of pieces with a separator and a blank between them. -/
def separated (separator : TokenKind) : List (List Piece) → List Piece
  | [] => []
  | [ps] => ps
  | ps :: rest => ps ++ fixed separator :: blank :: separated separator rest

def parenthesized (ps : List Piece) : List Piece :=
  fixed .lparen :: (ps ++ [fixed .rparen])

end Piece

namespace Tree

/-- How tightly prefix operators, postfix forms and atoms bind. -/
def unaryStrength : Nat := 7

def postfixStrength : Nat := 8

def atomStrength : Nat := 9

/-- How tightly a tree binds.  Forms that are introduced by a keyword or an opening bracket bind
loosest, and binary operations by the tier of their operator. -/
def strength : Tree → Except LayoutFault Nat
  | ifElse .. | letBind .. | array .. | object .. | lambda .. | block .. | hollow .. => .ok 0
  | binary _ _ op _ =>
    match op.bind Operator.tier? with
    | some tier => .ok tier
    | none => .error (.noTier op)
  | unary .. => .ok unaryStrength
  | call .. | index .. | member .. => .ok postfixStrength
  | _ => .ok atomStrength

/-- The pieces of `t` as an operand whose strength has to be at least `least`. -/
def operand (t : Tree) (ps : List Piece) (least : Nat) : Except LayoutFault (List Piece) :=
  t.strength.map fun strength => if strength < least then Piece.parenthesized ps else ps

/-- The number that an atom holds. -/
def numberPiece (value : Scalar) : Except LayoutFault Piece :=
  match value with
  | .int n =>
    if digitLimit < (Nat.toDigits 10 n.natAbs).length then .error .tooManyDigits
    else .ok (.number (toString n).toList)
  | value => .ok (.number value.plain.toList)

/-- The atom of a constant at `loc`. -/
def atomPiece (loc : Location) : Tree → Except LayoutFault Piece
  | boolean value => .ok (.truth value.isTrue)
  | num value => numberPiece value
  | string (.text s) => .ok (.quoted s.toList)
  | string value => .error (.noSequence value.typeName)
  | identifier name => .ok (.name name.plain.toList)
  | t => .error (.unsupportedAtom t.kindName loc)

def namePiece (name : Scalar) : Piece :=
  .name name.plain.toList

/-- The name that a tree consists of, if it is not text. -/
def oddName? : Tree → Option Scalar
  | constant _ (identifier (.text _)) => none
  | constant _ (identifier name) => some name
  | _ => none

/-- The first of the items from `index` on that is a name which is not text. -/
def oddItem? (index : Nat) : List Tree → Option (Nat × Scalar)
  | [] => none
  | t :: ts =>
    match t.oddName? with
    | some name => some (index, name)
    | none => oddItem? (index + 1) ts

/-- Checks that items whose pieces are `ps` can be put side by side. -/
def joinable (items : List Tree) (ps : List (List Piece)) :
    Except LayoutFault (List (List Piece)) :=
  match oddItem? 0 items with
  | some (place, name) => .error (.itemNoText place name.typeName)
  | none => .ok ps

/-- The parameter of a function; whatever counts as false is left out. -/
def paramPieces (param : Scalar) : List Piece :=
  if param.isTrue then [namePiece param] else []

/-- A unary operator in front of its operand `t`, whose pieces are `ps`.  A minus sign is kept apart
from a text that starts with one. -/
def signed (op : Option Operator) (t : Tree) (ps : List Piece) : Except LayoutFault (List Piece) :=
  match op, t.oddName? with
  | none, _ => .error .noSign
  | some .negate, some name => .error (.operandNoText name.typeName)
  | some op, _ =>
    if op = .negate ∧ Piece.firstChar? ps = some '-' then
      .ok (.fixed op.sign :: .blank :: ps)
    else .ok (.fixed op.sign :: ps)

/-- The expressions of a body behind a blank; nothing for an empty body. -/
def bodyPieces : List (List Piece) → List Piece
  | [] => []
  | body => .blank :: Piece.separated .semicolon body

/-- Items between brackets. -/
def arrayPieces (items : List (List Piece)) : List Piece :=
  .fixed .lbracket :: Piece.separated .comma items ++ [.fixed .rbracket]

/-- Fields between braces. -/
def objectPieces (fields : List (List Piece)) : List Piece :=
  .fixed .hash :: .fixed .lbrace :: Piece.separated .comma fields ++ [.fixed .rbrace]

/-- A body between its keywords. -/
def blockPieces (body : List (List Piece)) : List Piece :=
  .fixed .blockKw :: bodyPieces body ++ [.blank, .fixed .endKw]

/-- A field with its name in front. -/
def fieldPieces (name : String) (value : List Piece) : List Piece :=
  .name name.toList :: .fixed .colon :: .blank :: value

/-- What is wrong with a field that is no pair. -/
def fieldFault : Tree → LayoutFault
  | sequence items => .fieldParts items.length
  | stray (.text s) =>
    if s.length = 2 then .unsupportedNode (Scalar.text s).typeName Diagnostic.nowhere
    else .fieldParts s.length
  | t => .fieldNoParts t.kindName

mutual

/-- The pieces of a tree where a full expression may stand. -/
def pieces : Tree → Except LayoutFault (List Piece)
  | constant loc atom => do return [← atomPiece loc atom]
  | ifElse _ cond thenBranch elseBranch => do
    let condPieces ← cond.pieces
    let thenPieces ← branchPieces thenBranch
    let elsePieces ←
      match elseBranch with
      | missing => .ok []
      | _ => (branchPieces elseBranch).map fun ps => .blank :: .fixed .elseKw :: ps
    return .fixed .ifKw :: .blank :: condPieces ++ .blank :: .fixed .thenKw :: thenPieces ++
      elsePieces ++ [.blank, .fixed .endKw]
  | letBind _ name value => do
    let valuePieces ← value.pieces
    return .fixed .letKw :: .blank :: namePiece name :: .blank :: .fixed .equals :: .blank ::
      valuePieces
  | array _ elements => do return arrayPieces (← joinable elements (← piecesAll elements))
  | object _ fields => do return objectPieces (← piecesFields fields)
  | lambda _ param body => do
    let bodyText ← body.pieces
    return .fixed .fnKw :: .fixed .lparen :: paramPieces param ++ .fixed .rparen :: .blank ::
      bodyText
  | block _ body => do return blockPieces (← joinable body (← piecesAll body))
  | binary _ left op right =>
    match op, op.bind Operator.tier? with
    | some sign, some tier => do
      let leftPieces ← left.operand (← left.pieces) tier
      let rightPieces ← right.operand (← right.pieces) (tier + 1)
      return leftPieces ++ .blank :: .fixed sign.sign :: .blank :: rightPieces
    | _, _ => .error (.noTier op)
  | unary _ op operand => do
    signed op operand (← operand.operand (← operand.pieces) unaryStrength)
  | call _ callee arg => do
    let argPieces ←
      match arg with
      | missing => .ok []
      | _ => arg.pieces
    let calleePieces ← callee.operand (← callee.pieces) postfixStrength
    return calleePieces ++ .fixed .lparen :: argPieces ++ [.fixed .rparen]
  | index _ callee key => do
    let calleePieces ← callee.operand (← callee.pieces) postfixStrength
    let keyPieces ← key.pieces
    return calleePieces ++ .fixed .lbracket :: keyPieces ++ [.fixed .rbracket]
  | member _ callee field => do
    let calleePieces ← callee.operand (← callee.pieces) postfixStrength
    return calleePieces ++ [.fixed .dot, namePiece field]
  | hollow _ .array parts => do return arrayPieces (← piecesParts parts)
  | hollow _ .object parts => do return objectPieces (← piecesPairs parts)
  | hollow _ .block parts =>
    if parts.isTrue then do return blockPieces (← piecesParts parts) else .ok (blockPieces [])
  | t => .error (.unsupportedNode t.kindName (t.loc?.getD Diagnostic.nowhere))

/-- The body of a branch of a conditional. -/
def branchPieces : Tree → Except LayoutFault (List Piece)
  | block _ body => do return bodyPieces (← joinable body (← piecesAll body))
  | hollow _ .block body | lambda _ _ body =>
    if body.isTrue then do return bodyPieces (← piecesParts body) else .ok []
  | t => .error (.noBody t.kindName)

def piecesAll : List Tree → Except LayoutFault (List (List Piece))
  | [] => .ok []
  | t :: ts => do return (← t.pieces) :: (← piecesAll ts)

def piecesFields : List (Scalar × Tree) → Except LayoutFault (List (List Piece))
  | [] => .ok []
  | (name, value) :: rest => do
    let valuePieces ← value.pieces
    return fieldPieces name.plain valuePieces :: (← piecesFields rest)

/-- The items of what stands where a sequence of expressions belongs.  A text is a sequence of texts,
which are no expressions. -/
def piecesParts : Tree → Except LayoutFault (List (List Piece))
  | sequence items => do joinable items (← piecesAll items)
  | stray (.text "") => .ok []
  | stray (.text s) =>
    .error (.unsupportedNode (Scalar.text s).typeName Diagnostic.nowhere)
  | t => .error (.noSequence t.kindName)

/-- The fields of what stands where a sequence of fields belongs. -/
def piecesPairs : Tree → Except LayoutFault (List (List Piece))
  | sequence items => piecesItems items
  | stray (.text "") => .ok []
  | stray (.text _) => .error (.fieldParts 1)
  | t => .error (.noSequence t.kindName)

/-- Fields that may be something else than a name with an expression. -/
def piecesItems : List Tree → Except LayoutFault (List (List Piece))
  | [] => .ok []
  | sequence [name, value] :: rest => do
    let valuePieces ← value.pieces
    return fieldPieces name.plain valuePieces :: (← piecesItems rest)
  | t :: _ => .error (fieldFault t)

end

/-- The text of a tree where it stands inside another text. -/
def text (t : Tree) : Except LayoutFault (List Char) :=
  t.pieces.map Piece.textOf

/-- What laying out a tree gives: its text, or the name it consists of if that is not text. -/
def layout (t : Tree) : Except LayoutFault Scalar :=
  match t.oddName? with
  | some name => .ok name
  | none => t.text.map fun chars => .text (String.ofList chars)

end Tree

end NordLang

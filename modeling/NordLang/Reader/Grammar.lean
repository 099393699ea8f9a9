import NordLang.Reader.Outcome
import NordLang.Tree

/-!
# The grammar

One function per form of the language.  All of them take the reading of a full expression as an
argument, `expr`, which may be used on any reader with fewer than `n` tokens left.  At the end
`expression` ties the knot: it reads a full expression by using itself for the inner ones.

From the loosest to the tightest:

* `fullExpression` picks a form by the next token: conditional, binding, array, object, function,
  block, or else a chain of operators.
* `binary k` reads the operators of the `k` tightest tiers, each of them to the left.
* `unary`, then `suffixed` for calls, indices and members, then `primary`.

The functions of `Reader` at the end of the file read one form each from a reader as it stands.
-/

namespace NordLang

namespace Grammar

variable {α : Type} {n : Nat}

/-- Reading that may start whenever fewer than `n` tokens are left. -/
abbrev Inner (n : Nat) (α : Type) : Type :=
  (r : Reader) → r.remaining < n → Outcome r.remaining α

/-- Takes one kind of token. -/
def only (kind found : TokenKind) : Option Unit :=
  if found = kind then some () else none

theorem only_endOfInput {kind : TokenKind} (h : kind ≠ .endOfInput) :
    only kind .endOfInput = none := by
  simp [only, h.symm]

/-- Reads items, each behind a separator, as long as separators follow. -/
def moreItems (separator : TokenKind) (hsep : separator ≠ .endOfInput) (item : Inner n α)
    (r : Reader) (hr : r.remaining ≤ n) : Outcome (r.remaining + 1) (List α) :=
  r.ifNext (only separator) (only_endOfInput hsep)
    (fun _ _ r₁ h₁ =>
      (item r₁ (by omega)).andThen fun a r₂ h₂ =>
      (moreItems separator hsep item r₂ (by omega)).andThen fun as r₃ _ =>
      .done (a :: as) r₃ (by omega))
    (fun r₁ h₁ => .done [] r₁ (by omega))
termination_by r.remaining

/-- Reads one or more items with separators between them. -/
def items (separator : TokenKind) (item : Inner n α) (r : Reader) (hr : r.remaining < n)
    (hsep : separator ≠ .endOfInput := by decide) : Outcome r.remaining (List α) :=
  (item r hr).andThen fun a r₁ h₁ =>
  (moreItems separator hsep item r₁ (by omega)).andThen fun as r₂ h₂ =>
  .done (a :: as) r₂ (by omega)

/-- Reads items up to a closing token, which is left in place; there may be none. -/
def itemsUntil (close : TokenKind) (item : Inner n α) (r : Reader) (hr : r.remaining < n) :
    Outcome (r.remaining + 1) (List α) :=
  r.look.andThen fun t r₁ h₁ =>
  if t.kind = close then .done [] r₁ h₁
  else (items .comma item r₁ (by omega)).mono (by omega)

/-! ## Bodies -/

/-- One or more expressions separated by semicolons. -/
def sequence (expr : Inner n Tree) (r : Reader) (hr : r.remaining < n) :
    Outcome r.remaining (List Tree) :=
  items .semicolon expr r hr

/-- A sequence, or nothing if no expression can start here. -/
def body (expr : Inner n Tree) (r : Reader) (hr : r.remaining < n) :
    Outcome (r.remaining + 1) (List Tree) :=
  r.look.andThen fun t r₁ h₁ =>
  if t.kind.startsExpression then (sequence expr r₁ (by omega)).mono (by omega)
  else .done [] r₁ h₁

/-- A body as a block.  It has the place of the token that opens it, or else of the next token. -/
def bareBlock (opener : Option Token) (expr : Inner n Tree) (r : Reader) (hr : r.remaining < n) :
    Outcome (r.remaining + 1) Tree :=
  match opener with
  | some t =>
    (body expr r hr).andThen fun es r₁ h₁ =>
    .done (.block t.loc es) r₁ h₁
  | none =>
    r.look.andThen fun t r₁ h₁ =>
    (body expr r₁ (by omega)).andThen fun es r₂ _ =>
    .done (.block t.loc es) r₂ (by omega)

/-! ## Forms with a keyword or an opening bracket -/

/-- `if cond then body end` or `if cond then body else body end`. -/
def ifElse (expr : Inner n Tree) (r : Reader) (hr : r.remaining ≤ n) : Outcome r.remaining Tree :=
  (r.require .ifKw "").andThen fun opener r₁ h₁ =>
  (expr r₁ (by omega)).andThen fun cond r₂ h₂ =>
  (r₂.require .thenKw "'then'").andThen fun _ r₃ h₃ =>
  (bareBlock none expr r₃ (by omega)).andThen fun thenBranch r₄ h₄ =>
  (r₄.ifNext (n := r₄.remaining + 1) (only .elseKw) rfl
    (fun _ _ r₅ _ => (bareBlock none expr r₅ (by omega)).mono (by omega))
    (fun r₅ _ => .done .missing r₅ (by omega))).andThen fun elseBranch r₅ h₅ =>
  (r₅.require .endKw "'end'").andThen fun _ r₆ h₆ =>
  .done (.ifElse opener.loc cond thenBranch elseBranch) r₆ (by omega)

/-- `let name = value`. -/
def letBind (expr : Inner n Tree) (r : Reader) (hr : r.remaining ≤ n) : Outcome r.remaining Tree :=
  (r.require .letKw "").andThen fun opener r₁ h₁ =>
  (r₁.require .identifier "identifier").andThen fun name r₂ h₂ =>
  (r₂.require .equals "'='").andThen fun _ r₃ h₃ =>
  (expr r₃ (by omega)).andThen fun value r₄ h₄ =>
  .done (.letBind opener.loc name.value value) r₄ (by omega)

/-- `[a, b]`. -/
def array (expr : Inner n Tree) (r : Reader) (hr : r.remaining ≤ n) : Outcome r.remaining Tree :=
  (r.require .lbracket "").andThen fun opener r₁ h₁ =>
  (itemsUntil .rbracket expr r₁ (by omega)).andThen fun elements r₂ h₂ =>
  (r₂.require .rbracket "',' or ']'").andThen fun _ r₃ h₃ =>
  .done (.array opener.loc elements) r₃ (by omega)

/-- `name: value` inside an object. -/
def objectField (expr : Inner n Tree) (r : Reader) (hr : r.remaining ≤ n) :
    Outcome r.remaining (Scalar × Tree) :=
  (r.require .identifier "field name").andThen fun name r₁ h₁ =>
  (r₁.require .colon "':'").andThen fun _ r₂ h₂ =>
  (expr r₂ (by omega)).andThen fun value r₃ h₃ =>
  .done (name.value, value) r₃ (by omega)

/-- `#` and fields between braces. -/
def object (expr : Inner n Tree) (r : Reader) (hr : r.remaining ≤ n) : Outcome r.remaining Tree :=
  (r.require .hash "").andThen fun opener r₁ h₁ =>
  (r₁.require .lbrace "'\x7b'").andThen fun _ r₂ h₂ =>
  (itemsUntil .rbrace (fun r h => objectField expr r (Nat.le_of_lt h)) r₂
    (by omega)).andThen fun fields r₃ h₃ =>
  (r₃.require .rbrace "',' or '\x7d'").andThen fun _ r₄ h₄ =>
  .done (.object opener.loc fields) r₄ (by omega)

/-- `fn(param) body` or `fn() body`. -/
def lambda (expr : Inner n Tree) (r : Reader) (hr : r.remaining ≤ n) : Outcome r.remaining Tree :=
  (r.require .fnKw "").andThen fun opener r₁ h₁ =>
  (r₁.require .lparen "'('").andThen fun _ r₂ h₂ =>
  (r₂.ifNext (n := r₂.remaining + 1) (only .identifier) rfl
    (fun _ t r₃ _ => .done t.value r₃ (by omega))
    (fun r₃ _ => .done .null r₃ (by omega))).andThen fun param r₃ h₃ =>
  (r₃.require .rparen "')'").andThen fun _ r₄ h₄ =>
  (expr r₄ (by omega)).andThen fun body r₅ h₅ =>
  .done (.lambda opener.loc param body) r₅ (by omega)

/-- `block body end`. -/
def block (expr : Inner n Tree) (r : Reader) (hr : r.remaining ≤ n) : Outcome r.remaining Tree :=
  (r.require .blockKw "").andThen fun opener r₁ h₁ =>
  (bareBlock (some opener) expr r₁ (by omega)).andThen fun tree r₂ h₂ =>
  (r₂.require .endKw "'end'").andThen fun _ r₃ h₃ =>
  .done tree r₃ (by omega)

/-! ## Operators -/

/-- A literal, a name or an expression in parentheses. -/
def primary (expr : Inner n Tree) (r : Reader) (hr : r.remaining ≤ n) : Outcome r.remaining Tree :=
  r.look.andThen fun t r₁ h₁ =>
  match t.kind with
  | .integer =>
    (r₁.require .integer "").andThen fun t r₂ h₂ =>
    .done (.constant t.loc (.num t.value)) r₂ (by omega)
  | .boolean =>
    (r₁.require .boolean "").andThen fun t r₂ h₂ =>
    .done (.constant t.loc (.boolean t.value)) r₂ (by omega)
  | .string =>
    (r₁.require .string "").andThen fun t r₂ h₂ =>
    .done (.constant t.loc (.string t.value)) r₂ (by omega)
  | .identifier =>
    (r₁.require .identifier "").andThen fun t r₂ h₂ =>
    .done (.constant t.loc (.identifier t.value)) r₂ (by omega)
  | .lparen =>
    (r₁.require .lparen "").andThen fun _ r₂ h₂ =>
    (expr r₂ (by omega)).andThen fun tree r₃ h₃ =>
    (r₃.require .rparen "')'").andThen fun _ r₄ h₄ =>
    .done tree r₄ (by omega)
  | _ => .failed (.expected "expression" t) r₁

/-- A call of `callee` with at most one argument. -/
def call (callee : Tree) (expr : Inner n Tree) (r : Reader) (hr : r.remaining ≤ n) :
    Outcome r.remaining Tree :=
  (r.require .lparen "").andThen fun opener r₁ h₁ =>
  (r₁.look.andThen fun t r₂ h₂ =>
    if t.kind = .rparen then .done .missing r₂ h₂
    else (expr r₂ (by omega)).mono (by omega)).andThen fun arg r₂ h₂ =>
  (r₂.require .rparen "')'").andThen fun _ r₃ h₃ =>
  .done (.call opener.loc callee arg) r₃ (by omega)

/-- An index into `callee`. -/
def index (callee : Tree) (expr : Inner n Tree) (r : Reader) (hr : r.remaining ≤ n) :
    Outcome r.remaining Tree :=
  (r.require .lbracket "").andThen fun opener r₁ h₁ =>
  (expr r₁ (by omega)).andThen fun key r₂ h₂ =>
  (r₂.require .rbracket "']'").andThen fun _ r₃ h₃ =>
  .done (.index opener.loc callee key) r₃ (by omega)

/-- A member of `callee`. -/
def member (callee : Tree) (r : Reader) : Outcome r.remaining Tree :=
  (r.require .dot "").andThen fun _ r₁ h₁ =>
  (r₁.require .identifier "field name").andThen fun field r₂ h₂ =>
  .done (.member field.loc callee field.value) r₂ (by omega)

/-- The calls, indices and members that follow `callee`. -/
def suffixes (callee : Tree) (expr : Inner n Tree) (r : Reader) (hr : r.remaining ≤ n) :
    Outcome (r.remaining + 1) Tree :=
  r.look.andThen fun t r₁ h₁ =>
  match t.kind with
  | .lparen =>
    (call callee expr r₁ (by omega)).andThen fun tree r₂ h₂ =>
    (suffixes tree expr r₂ (by omega)).mono (by omega)
  | .lbracket =>
    (index callee expr r₁ (by omega)).andThen fun tree r₂ h₂ =>
    (suffixes tree expr r₂ (by omega)).mono (by omega)
  | .dot =>
    (member callee r₁).andThen fun tree r₂ h₂ =>
    (suffixes tree expr r₂ (by omega)).mono (by omega)
  | _ => .done callee r₁ h₁
termination_by r.remaining

/-- A primary expression with what follows it. -/
def suffixed (expr : Inner n Tree) (r : Reader) (hr : r.remaining ≤ n) :
    Outcome r.remaining Tree :=
  (primary expr r hr).andThen fun tree r₁ h₁ =>
  (suffixes tree expr r₁ (by omega)).mono (by omega)

/-- Unary operators nest to the right. -/
def unary (expr : Inner n Tree) (r : Reader) (hr : r.remaining ≤ n) : Outcome r.remaining Tree :=
  r.ifNext Operator.unary? rfl
    (fun op t r₁ h₁ =>
      (unary expr r₁ (by omega)).andThen fun operand r₂ h₂ =>
      .done (.unary t.loc (some op) operand) r₂ (by omega))
    (fun r₁ h₁ => (suffixed expr r₁ (by omega)).mono h₁)
termination_by r.remaining

/-- The operators of one tier that follow `left`, with their right operands, gathered to the left. -/
def chain (tier : Nat) (operand : (r : Reader) → r.remaining ≤ n → Outcome r.remaining Tree)
    (left : Tree) (r : Reader) (hr : r.remaining ≤ n) : Outcome (r.remaining + 1) Tree :=
  r.ifNext (Operator.ofTier? tier) (Operator.ofTier?_endOfInput tier)
    (fun op t r₁ h₁ =>
      (operand r₁ (by omega)).andThen fun right r₂ h₂ =>
      (chain tier operand (.binary t.loc left (some op) right) r₂ (by omega)).mono (by omega))
    (fun r₁ h₁ => .done left r₁ (by omega))
termination_by r.remaining

/-- The number of tiers of binary operators. -/
def tiers : Nat := 6

/-- An operation of the `k` tightest tiers. -/
def binary (expr : Inner n Tree) :
    (k : Nat) → (r : Reader) → r.remaining ≤ n → Outcome r.remaining Tree
  | 0, r, hr => unary expr r hr
  | k + 1, r, hr =>
    (binary expr k r hr).andThen fun left r₁ h₁ =>
    (chain (tiers - k) (binary expr k) left r₁ (by omega)).mono (by omega)

/-! ## Full expressions -/

def fullExpression (expr : Inner n Tree) (r : Reader) (hr : r.remaining ≤ n) :
    Outcome r.remaining Tree :=
  r.look.andThen fun t r₁ h₁ =>
  (match t.kind with
    | .ifKw => ifElse expr r₁ (by omega)
    | .letKw => letBind expr r₁ (by omega)
    | .lbracket => array expr r₁ (by omega)
    | .hash => object expr r₁ (by omega)
    | .fnKw => lambda expr r₁ (by omega)
    | .blockKw => block expr r₁ (by omega)
    | _ => binary expr tiers r₁ (by omega)).mono (by omega)

/-- Reads a full expression. -/
def expression (r : Reader) : Outcome r.remaining Tree :=
  fullExpression (fun r' _ => expression r') r (Nat.le_refl _)
termination_by r.remaining

/-- The reading of full expressions, without a limit on the tokens left. -/
def inner (n : Nat) : Inner n Tree :=
  fun r _ => expression r

end Grammar

namespace Reader

open Grammar

abbrev Result (α : Type) : Type := Except ParseFault α × Reader

def parseExpression (r : Reader) : Result Tree := (expression r).result

/-- Reads one expression, which has to be all there is. -/
def parse (r : Reader) : Result Tree :=
  match r.parseExpression with
  | (.error fault, r) => (.error fault, r)
  | (.ok tree, r) =>
    match r.current with
    | (.error fault, r) => (.error fault, r)
    | (.ok t, r) => if t.isEnd then (.ok tree, r) else (.error (.trailing t), r)

def parseIf (r : Reader) : Result Tree := (ifElse (inner _) r (Nat.le_refl _)).result

def parseLet (r : Reader) : Result Tree := (letBind (inner _) r (Nat.le_refl _)).result

def parseArray (r : Reader) : Result Tree := (array (inner _) r (Nat.le_refl _)).result

def parseObject (r : Reader) : Result Tree := (object (inner _) r (Nat.le_refl _)).result

def parseObjectField (r : Reader) : Result (Scalar × Tree) :=
  (objectField (inner _) r (Nat.le_refl _)).result

def parseLambda (r : Reader) : Result Tree := (lambda (inner _) r (Nat.le_refl _)).result

def parseBlock (r : Reader) : Result Tree := (block (inner _) r (Nat.le_refl _)).result

def parseBareBlock (opener : Option Token) (r : Reader) : Result Tree :=
  (bareBlock opener (inner _) r (Nat.lt_succ_self _)).result

def parseBody (r : Reader) : Result (List Tree) :=
  (body (inner _) r (Nat.lt_succ_self _)).result

def parseSequence (r : Reader) : Result (List Tree) :=
  (sequence (inner _) r (Nat.lt_succ_self _)).result

/-- Reads an operation of the `k` tightest tiers. -/
def parseBinary (k : Nat) (r : Reader) : Result Tree :=
  (binary (inner _) k r (Nat.le_refl _)).result

def parseUnary (r : Reader) : Result Tree := (unary (inner _) r (Nat.le_refl _)).result

def parseSuffixed (r : Reader) : Result Tree := (suffixed (inner _) r (Nat.le_refl _)).result

def parsePrimary (r : Reader) : Result Tree := (primary (inner _) r (Nat.le_refl _)).result

def parseCall (callee : Tree) (r : Reader) : Result Tree :=
  (call callee (inner _) r (Nat.le_refl _)).result

def parseIndex (callee : Tree) (r : Reader) : Result Tree :=
  (index callee (inner _) r (Nat.le_refl _)).result

end Reader

/-- The tree of a supply of tokens. -/
def Supply.parse (s : Supply) : Except ParseFault Tree :=
  (Reader.ofSupply s).parse.1

/-- The tree of a text. -/
def parseText (text : List Char) : Except ParseFault Tree :=
  (Supply.ofText text).parse

end NordLang

/-!
# Kinds of tokens

The vocabulary of the language: open classes (names, numbers, truth values, strings), ten keywords,
the symbols of one and of two characters, and the end of the input.

* `all` lists the kinds in the order in which they are numbered, from 1.
* `spelling` is the text of a keyword or symbol; `keyword?`, `pair?` and `single?` find the kind
  that a spelling belongs to.
* `startsExpression` says which kinds can be the first token of an expression.
-/

namespace NordLang

inductive TokenKind where
  | identifier | integer | boolean | string
  | letKw | fnKw | ifKw | thenKw | elseKw | blockKw | continueKw | breakKw | returnKw | endKw
  | doubleColon | colon | arrow | fatArrow | atSign | hash | dollar | bang | dot | comma
  | lparen | rparen | lbrace | rbrace | lbracket | rbracket
  | equals | semicolon | plus | minus | star | slash | percent
  | doubleEquals | notEquals | less | lessEqual | greater | greaterEqual | andAnd | orOr
  | endOfInput
  deriving DecidableEq, Repr, Inhabited

namespace TokenKind

def all : List TokenKind :=
  [identifier, integer, boolean, string,
   letKw, fnKw, ifKw, thenKw, elseKw, blockKw, continueKw, breakKw, returnKw, endKw,
   doubleColon, colon, arrow, fatArrow, atSign, hash, dollar, bang, dot, comma,
   lparen, rparen, lbrace, rbrace, lbracket, rbracket,
   equals, semicolon, plus, minus, star, slash, percent,
   doubleEquals, notEquals, less, lessEqual, greater, greaterEqual, andAnd, orOr, endOfInput]

/-- The place of a kind in `all`, counted from 1. -/
def number (k : TokenKind) : Nat :=
  all.idxOf k + 1

def name : TokenKind → String
  | identifier => "IDENTIFIER"
  | integer => "INTEGER"
  | boolean => "BOOLEAN"
  | string => "STRING"
  | letKw => "LET"
  | fnKw => "FN"
  | ifKw => "IF"
  | thenKw => "THEN"
  | elseKw => "ELSE"
  | blockKw => "BLOCK"
  | continueKw => "CONTINUE"
  | breakKw => "BREAK"
  | returnKw => "RETURN"
  | endKw => "END"
  | doubleColon => "DOUBLE_COLON"
  | colon => "COLON"
  | arrow => "ARROW"
  | fatArrow => "FAT_ARROW"
  | atSign => "AT"
  | hash => "HASH"
  | dollar => "DOLLAR"
  | bang => "BANG"
  | dot => "DOT"
  | comma => "COMMA"
  | lparen => "LPAREN"
  | rparen => "RPAREN"
  | lbrace => "LBRACE"
  | rbrace => "RBRACE"
  | lbracket => "LBRACKET"
  | rbracket => "RBRACKET"
  | equals => "EQUALS"
  | semicolon => "SEMICOLON"
  | plus => "PLUS"
  | minus => "MINUS"
  | star => "STAR"
  | slash => "SLASH"
  | percent => "PERCENT"
  | doubleEquals => "DOUBLE_EQUALS"
  | notEquals => "NOT_EQUALS"
  | less => "LT"
  | lessEqual => "LTE"
  | greater => "GT"
  | greaterEqual => "GTE"
  | andAnd => "AND_AND"
  | orOr => "OR_OR"
  | endOfInput => "EOF"

def ofName? (s : String) : Option TokenKind :=
  all.find? (·.name == s)

/-- The text of a keyword or symbol; empty for the open classes and the end of the input. -/
def spelling : TokenKind → List Char
  | letKw => ['l', 'e', 't']
  | fnKw => ['f', 'n']
  | ifKw => ['i', 'f']
  | thenKw => ['t', 'h', 'e', 'n']
  | elseKw => ['e', 'l', 's', 'e']
  | blockKw => ['b', 'l', 'o', 'c', 'k']
  | continueKw => ['c', 'o', 'n', 't', 'i', 'n', 'u', 'e']
  | breakKw => ['b', 'r', 'e', 'a', 'k']
  | returnKw => ['r', 'e', 't', 'u', 'r', 'n']
  | endKw => ['e', 'n', 'd']
  | doubleColon => [':', ':']
  | colon => [':']
  | arrow => ['-', '>']
  | fatArrow => ['=', '>']
  | atSign => ['@']
  | hash => ['#']
  | dollar => ['$']
  | bang => ['!']
  | dot => ['.']
  | comma => [',']
  | lparen => ['(']
  | rparen => [')']
  | lbrace => ['{']
  | rbrace => ['}']
  | lbracket => ['[']
  | rbracket => [']']
  | equals => ['=']
  | semicolon => [';']
  | plus => ['+']
  | minus => ['-']
  | star => ['*']
  | slash => ['/']
  | percent => ['%']
  | doubleEquals => ['=', '=']
  | notEquals => ['!', '=']
  | less => ['<']
  | lessEqual => ['<', '=']
  | greater => ['>']
  | greaterEqual => ['>', '=']
  | andAnd => ['&', '&']
  | orOr => ['|', '|']
  | identifier | integer | boolean | string | endOfInput => []

def keywords : List TokenKind :=
  [letKw, fnKw, ifKw, thenKw, elseKw, blockKw, continueKw, breakKw, returnKw, endKw]

/-- The keyword that a word is, if it is one. -/
def keyword? (word : List Char) : Option TokenKind :=
  keywords.find? (·.spelling == word)

/-- The symbol of two characters. -/
def pair? : Char → Char → Option TokenKind
  | ':', ':' => some doubleColon
  | '-', '>' => some arrow
  | '=', '>' => some fatArrow
  | '=', '=' => some doubleEquals
  | '!', '=' => some notEquals
  | '<', '=' => some lessEqual
  | '>', '=' => some greaterEqual
  | '&', '&' => some andAnd
  | '|', '|' => some orOr
  | _, _ => none

/-- The symbol of one character. -/
def single? : Char → Option TokenKind
  | ':' => some colon
  | '@' => some atSign
  | '#' => some hash
  | '$' => some dollar
  | '!' => some bang
  | '.' => some dot
  | ',' => some comma
  | '(' => some lparen
  | ')' => some rparen
  | '{' => some lbrace
  | '}' => some rbrace
  | '[' => some lbracket
  | ']' => some rbracket
  | '=' => some equals
  | ';' => some semicolon
  | '+' => some plus
  | '-' => some minus
  | '*' => some star
  | '/' => some slash
  | '%' => some percent
  | '<' => some less
  | '>' => some greater
  | _ => none

/-- Whether an expression can start with a token of this kind. -/
def startsExpression : TokenKind → Bool
  | ifKw | letKw | lbracket | hash | fnKw | blockKw | minus | bang | lparen
  | identifier | integer | boolean | string => true
  | _ => false

end TokenKind

end NordLang

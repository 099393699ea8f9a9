import NordLang.Failure
import NordLang.Reader.Grammar
import NordLang.Tree.Dump
import NordLang.Tree.Shown

/-!
# Commands on a program text

A command turns the text of a program into the text of an answer: a list of its tokens, the tree as
JSON, a note that all is well, or the canonical layout.  Unless the settings ask for silence, the
tokens and the tree are also listed on the error channel as they are found.
-/

namespace NordLang

/-- What a command leaves behind: its answer or failure, and the listings. -/
structure Report where
  listing : String
  outcome : Except Failure String

/-- The text of a list of lines, each of them ended by a line feed. -/
def linesText (lines : List String) : String :=
  String.join (lines.map (· ++ "\n"))

namespace Command

/-- The tokens of a text, one a line. -/
def tokenListing (source : List Char) : Except Failure String :=
  match tokenize source with
  | .error fault => .error (.parse (.lexical fault))
  | .ok tokens =>
    .ok ("\n".intercalate ((tokens.filter (!·.isEnd)).map Token.shown))

def parse (source : List Char) : Except Failure Tree :=
  (parseText source).mapError .parse

/-- The tree of a program given as a value, which has to be a text. -/
def parseValue : Scalar → Except Failure Tree
  | .text source => parse source.toList
  | value => .error (.noText value.typeName)

def layout (tree : Tree) : Except Failure String :=
  match tree.layout with
  | .ok value => .ok value.plain
  | .error fault => .error (.layout fault)

/-- A member of a section of the settings. -/
def setting (config : Setting) (sectionName name : String) : Except Failure Setting :=
  ((config.member sectionName).bind (·.member name)).mapError .setting

/-- The tree as JSON, indented as the settings say. -/
def dump (config : Setting) (tree : Tree) : Except Failure String := do
  let indent ← setting config "cli" "json_indent"
  let pad ← indent.indentation.mapError .setting
  return tree.dump.render pad

/-- What is listed about the tokens of a text, and whether they end in a fault. -/
def tokensSeen (source : List Char) : List String × Option Failure :=
  let scan := (Cursor.ofText source).scan
  let lines := "===== Tokens:" :: scan.tokens.map Token.shown
  match scan.fault with
  | some fault => (lines, some (.parse (.lexical fault)))
  | none => (lines ++ [""], none)

/-- What is listed about a tree. -/
def treeSeen (tree : Tree) : List String :=
  ["===== AST:", tree.shown, ""]

/-- The answer to a command about a tree.  Every command without a meaning of its own lays out. -/
def answer (command label : String) (config : Setting) (tree : Tree) : Except Failure String :=
  if command = "check" then .ok ("OK: " ++ label)
  else if command = "parse" then dump config tree
  else layout tree

def run (command : String) (source : List Char) (label : String) (config : Setting) : Report :=
  match setting config "cli" "silent" with
  | .error failure => ⟨"", .error failure⟩
  | .ok silent =>
    if command = "tokens" then ⟨"", tokenListing source⟩
    else
      let (tokens, fault) := if silent.isTrue then ([], none) else tokensSeen source
      match fault with
      | some failure => ⟨linesText tokens, .error failure⟩
      | none =>
        match parse source with
        | .error failure => ⟨linesText tokens, .error failure⟩
        | .ok tree =>
          let seen := if silent.isTrue then [] else treeSeen tree
          ⟨linesText (tokens ++ seen), answer command label config tree⟩

end Command

end NordLang

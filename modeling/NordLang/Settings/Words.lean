import NordLang.Settings.Spot

/-!
# Words in a settings file

The three ways to write a scalar: between single quotes, between double quotes with escapes, or
plain.  All of them may go over several lines; a line break counts as a space, and further ones as
line feeds.
-/

namespace NordLang.Settings

/-- The white space after a word, which counts only if the word goes on. -/
inductive Gap where
  /-- Spaces and tabs on one line, the last one first. -/
  | inLine (blanks : List Char)
  /-- A line break and `more` others. -/
  | folded (more : Nat)
  /-- An escaped line break and `more` others. -/
  | joined (more : Nat)

namespace Gap

def empty : Gap := inLine []

/-- What the gap adds to a word, the last character first. -/
def written : Gap → List Char
  | inLine blanks => blanks
  | folded 0 => [' ']
  | folded more => List.replicate more '\n'
  | joined more => List.replicate more '\n'

def addBlank (c : Char) : Gap → Gap
  | inLine blanks => inLine (c :: blanks)
  | gap => gap

def addBreak : Gap → Gap
  | inLine _ => folded 0
  | folded more => folded (more + 1)
  | joined more => joined (more + 1)

end Gap

/-- The character that a letter after a backslash stands for. -/
def escapeLetter? : Char → Option Char
  | '0' => some '\x00'
  | 'a' => some '\x07'
  | 'b' => some '\x08'
  | 't' => some '\t'
  | '\t' => some '\t'
  | 'n' => some '\n'
  | 'v' => some '\x0b'
  | 'f' => some '\x0c'
  | 'r' => some '\r'
  | 'e' => some '\x1b'
  | ' ' => some ' '
  | '"' => some '"'
  | '/' => some '/'
  | '\\' => some '\\'
  | 'N' => some '\x85'
  | '_' => some '\xa0'
  | 'L' => some '\u2028'
  | 'P' => some '\u2029'
  | _ => none

/-- The number of hexadecimal digits after a letter that introduces a code point. -/
def codeLength? : Char → Option Nat
  | 'x' => some 2
  | 'u' => some 4
  | 'U' => some 8
  | _ => none

def hexValue? (c : Char) : Option Nat :=
  if '0' ≤ c ∧ c ≤ '9' then some (c.toNat - '0'.toNat)
  else if 'a' ≤ c ∧ c ≤ 'f' then some (c.toNat - 'a'.toNat + 10)
  else if 'A' ≤ c ∧ c ≤ 'F' then some (c.toNat - 'A'.toNat + 10)
  else none

def charOfCode? (n : Nat) : Option Char :=
  if h : n.isValidChar then some (Char.ofNatAux n h) else none

/-- What the next character of a quoted word is. -/
inductive QuoteMode where
  | usual
  /-- After a backslash. -/
  | escaped
  /-- A digit of a code point, of which `more` are still to come after it. -/
  | code (more value : Nat)
  /-- After a single quote, which ends the word unless another one follows. -/
  | quote

/-- Reads a quoted word from behind its opening quote.  `word` is what has been read, the last
character first. -/
def quotedFrom (double : Bool) (mode : QuoteMode) (gap : Gap) (word : List Char)
    (column line : Nat) : List Char → Option (List Char × Spot)
  | [] =>
    match mode with
    | .quote => some (word.reverse, ⟨[], column, line⟩)
    | _ => none
  | c :: rest =>
    let keep (word : List Char) := quotedFrom double .usual .empty word (column + 1) line rest
    match mode with
    | .quote =>
      if c == '\'' then keep ('\'' :: word)
      else some (word.reverse, ⟨c :: rest, column, line⟩)
    | .code more value => do
      let value := value * 16 + (← hexValue? c)
      match more with
      | 0 => keep ((← charOfCode? value) :: word)
      | more + 1 => quotedFrom double (.code more value) gap word (column + 1) line rest
    | .escaped =>
      if isBreak c then quotedFrom double .usual (.joined 0) word 0 (line + 1) rest
      else
        match codeLength? c with
        | some (more + 1) => quotedFrom double (.code more 0) gap word (column + 1) line rest
        | _ => do keep ((← escapeLetter? c) :: word)
    | .usual =>
      if isBreak c then quotedFrom double .usual gap.addBreak word 0 (line + 1) rest
      else if Spot.isMarker '-' ⟨c :: rest, column, line⟩ ||
          Spot.isMarker '.' ⟨c :: rest, column, line⟩ then none
      else if c == ' ' || c == '\t' then
        quotedFrom double .usual (gap.addBlank c) word (column + 1) line rest
      else
        let word := gap.written ++ word
        if double then
          if c == '"' then some (word.reverse, ⟨rest, column + 1, line⟩)
          else if c == '\\' then quotedFrom double .escaped .empty word (column + 1) line rest
          else keep (c :: word)
        else if c == '\'' then quotedFrom double .quote .empty word (column + 1) line rest
        else keep (c :: word)

/-- Whether a plain word can start with `c` before `next`. -/
def startsPlain (flow : Bool) (c : Char) (next : Option Char) : Bool :=
  if c == '-' || (!flow && (c == '?' || c == ':')) then !endsWord next
  else !endsWord (some c) && !("?:,[]\x7b\x7d#&*!|>'\"%@`".toList.contains c)

/-- Whether a plain word ends before `c` and `next`. -/
def endsPlain (flow : Bool) (c : Char) (next : Option Char) : Bool :=
  let inFlow (s : String) (c : Char) := flow && s.toList.contains c
  c == '\t' || (c == ':' && (endsWord next || next.any (inFlow ",[]\x7b\x7d"))) ||
    inFlow ",?[]\x7b\x7d" c

/-- Reads on in a plain word that goes on only from column `least` in further lines.  The result is
the word and where it ended, which is `stop` as long as only white space follows. -/
def plainFrom (flow : Bool) (least : Nat) (gap : Gap) (word : List Char) (stop : Spot)
    (column line : Nat) : List Char → List Char × Spot
  | [] => (word.reverse, stop)
  | c :: rest =>
    let here : Spot := ⟨c :: rest, column, line⟩
    if isBreak c then plainFrom flow least gap.addBreak word stop 0 (line + 1) rest
    else if c == ' ' then
      plainFrom flow least (gap.addBlank c) word stop (column + 1) line rest
    else
      let broken := match gap with
        | .inLine _ => false
        | _ => true
      let apart := match gap with
        | .inLine [] => false
        | _ => true
      if (apart && c == '#') || (broken && !flow && column < least) ||
          (broken && (here.isMarker '-' || here.isMarker '.')) ||
          endsPlain flow c rest.head? then
        (word.reverse, stop)
      else
        plainFrom flow least .empty (c :: (gap.written ++ word)) ⟨rest, column + 1, line⟩
          (column + 1) line rest

end NordLang.Settings

import NordLang.Settings.Format
import NordLang.Settings.Plain
import NordLang.Settings.Words

/-!
# Settings files

The format of the settings files that the program reads: one document in the block and flow notation
of YAML, with mappings and lists by indentation or between brackets, and scalars.  Anchors, tags,
block scalars and explicit keys are not read, so this is part of the notation only, and nothing that
is proved about settings rests on it.

* `content` reads a scalar or what stands between brackets.
* `block` reads a value by its column: the value belongs to what surrounds it only if it starts at
  column `least` or further right.
* `parse?` reads a whole file.  There is no value if the file is malformed.
* `documents` is the format.

The functions go down by `fuel`, which bounds how deep the reading can nest.  Every level of nesting
and every entry takes up text, so `parse?` starts with more than it can need.
-/

namespace NordLang.Settings

/-- A key may be at most this long. -/
def maxKeyLength : Nat := 1024

/-- Whether what was read from `start` to `stop` can be the key before a colon at `colon`. -/
def isKey (start stop colon : Spot) : Bool :=
  start.line == colon.line && start.line == stop.line &&
    start.rest.length - colon.rest.length ≤ maxKeyLength

/-- The scalar that a value is, if it can be a key. -/
def keyOf? : Setting → Option Key
  | .scalar key => some (.scalar key)
  | _ => none

/-- Past the spaces on the line. -/
def afterSpaces (s : Spot) : Spot :=
  s.forward (s.rest.takeWhile (· == ' ')).length

mutual

/-- A scalar, or a list or mapping between brackets. -/
def content (fuel : Nat) (flow : Bool) (least : Nat) (s : Spot) : Option (Setting × Spot) :=
  match fuel with
  | 0 => none
  | fuel + 1 =>
    match s.rest with
    | [] => none
    | '[' :: _ => do
      let (items, stop) ← flowItems fuel (s.forward 1)
      return (.list items, stop)
    | '{' :: _ => do
      let (entries, stop) ← flowEntries fuel [] (s.forward 1)
      return (.mapping entries, stop)
    | c :: rest =>
      if c == '"' || c == '\'' then do
        let (word, stop) ← quotedFrom (c == '"') .usual .empty [] (s.column + 1) s.line rest
        return (.scalar (.text (String.ofList word)), stop)
      else if startsPlain flow c rest.head? then do
        let stop := s.forward 1
        let (word, stop) := plainFrom flow least .empty [c] stop stop.column stop.line stop.rest
        return (.scalar (← plainMeaning? word), stop)
      else none

/-- The items of a list after its opening bracket or a comma. -/
def flowItems (fuel : Nat) (s : Spot) : Option (List Setting × Spot) :=
  match fuel with
  | 0 => none
  | fuel + 1 => do
    let start := s.gap
    if start.rest.head? = some ']' then return ([], start.forward 1)
    let (value, stop) ← content fuel true 0 start
    let next := stop.gap
    let (item, next) ←
      if next.rest.head? = some ':' then
        if isKey start stop next then do
          let key ← keyOf? value
          let (value, stop) ← flowValue fuel ']' (next.forward 1)
          pure (Setting.mapping [(key, value)], stop.gap)
        else none
      else pure (value, next)
    match next.rest.head? with
    | some ',' =>
      let (items, stop) ← flowItems fuel (next.forward 1)
      return (item :: items, stop)
    | some ']' => return ([item], next.forward 1)
    | _ => none

/-- The entries of a mapping after its opening brace or a comma, added to those before. -/
def flowEntries (fuel : Nat) (entries : Entries) (s : Spot) : Option (Entries × Spot) :=
  match fuel with
  | 0 => none
  | fuel + 1 => do
    let start := s.gap
    if start.rest.head? = some '}' then return (entries, start.forward 1)
    let (key, stop) ← content fuel true 0 start
    let key ← keyOf? key
    let next := stop.gap
    let (value, next) ←
      if next.rest.head? = some ':' then
        if isKey start stop next then do
          let (value, stop) ← flowValue fuel '}' (next.forward 1)
          pure (value, stop.gap)
        else none
      else pure (Setting.null, next)
    let entries := Entries.insert key value entries
    match next.rest.head? with
    | some ',' => flowEntries fuel entries (next.forward 1)
    | some '}' => return (entries, next.forward 1)
    | _ => none

/-- The value after a colon between brackets, of which there may be none. -/
def flowValue (fuel : Nat) (close : Char) (s : Spot) : Option (Setting × Spot) :=
  match fuel with
  | 0 => none
  | fuel + 1 =>
    let start := s.gap
    if start.rest.head? = some ',' ∨ start.rest.head? = some close then some (.null, start)
    else content fuel true 0 start

/-- A value by its column, after a gap; null if nothing stands far enough right.  `fresh` says
whether keys and dashes may stand here. -/
def block (fuel : Nat) (fresh : Bool) (least : Nat) (s : Spot) : Option (Setting × Spot) :=
  match fuel with
  | 0 => none
  | fuel + 1 =>
    let start := s.gap
    if start.isFinal || start.column < least then some (.null, s)
    else if start.isDash then
      if fresh then do
        let (items, stop) ← blockItems fuel start
        return (.list items, stop)
      else none
    else do
      let (value, stop) ← content fuel false least start
      let next := afterSpaces stop
      if next.isColon then
        if fresh && isKey start stop next then do
          let (entries, stop) ←
            blockEntries fuel start.column [] (← keyOf? value) (next.forward 1)
          return (.mapping entries, stop)
        else none
      else return (value, stop)

/-- The items of a list whose dashes stand in the column of `start`, which is the first of them. -/
def blockItems (fuel : Nat) (start : Spot) : Option (List Setting × Spot) :=
  match fuel with
  | 0 => none
  | fuel + 1 => do
    let (item, stop) ← block fuel true (start.column + 1) (start.forward 1)
    let next := stop.gap
    if next.isFinal || next.column < start.column then return ([item], stop)
    else if start.column < next.column || next.line == stop.line then none
    else if next.isDash then
      let (items, stop) ← blockItems fuel next
      return (item :: items, stop)
    else return ([item], stop)

/-- The value after the colon of `key`, added to the entries before, and the entries that follow.
All keys stand in `column`. -/
def blockEntries (fuel column : Nat) (entries : Entries) (key : Key) (colon : Spot) :
    Option (Entries × Spot) :=
  match fuel with
  | 0 => none
  | fuel + 1 => do
    let start := colon.gap
    let (value, stop) ←
      if start.line == colon.line then block fuel false (column + 1) colon
      else if start.column == column && start.isDash && !start.isFinal then do
        let (items, stop) ← blockItems fuel start
        pure (Setting.list items, stop)
      else block fuel true (column + 1) colon
    let entries := Entries.insert key value entries
    let next := stop.gap
    if next.isFinal || next.column < column then return (entries, stop)
    else if column < next.column || next.line == stop.line then none
    else do
      let (key, stop) ← content fuel false (column + 1) next
      let colon := afterSpaces stop
      if colon.isColon && isKey next stop colon then
        blockEntries fuel column entries (← keyOf? key) (colon.forward 1)
      else none

end

/-- Whether nothing but final marks follows. -/
def isOver (fuel : Nat) (s : Spot) : Bool :=
  match fuel with
  | 0 => false
  | fuel + 1 =>
    let s := s.gap
    s.rest.isEmpty || (s.isMarker '.' && isOver fuel (s.forward 3))

/-- The value of a settings file; null if it is empty. -/
def parse? (text : List Char) : Option Setting := do
  if !text.all isAllowed then none
  let text := if text.head? = some '\ufeff' then text.tail else text
  let fuel := 4 * text.length + 4
  let start := (Spot.mk text 0 0).gap
  if start.isMarker '.' then none
  let (value, stop) ←
    if start.isMarker '-' then
      let opener := start.forward 3
      block fuel (opener.gap.line != opener.line) 0 opener
    else block fuel true 0 start
  if isOver fuel stop then some value else none

/-- The format of documents.  What is wrong with a text is not told, and not before its end.  Files
are read piece by piece. -/
def documents : Format where
  parse text :=
    match parse? text with
    | some value => .ok value
    | none => .error "malformed document"
  refuse bytes fault := .decoding ((Text.Utf8.faultInPieces? bytes).getD fault)

end NordLang.Settings

import NordLang.Text.Raw

/-!
# Files and folders

Files and folders by the names that lead to them from the root, one folder being the working
directory, and the operations on them.  Names are bytes.  A path is given as text, with slashes
between names.  It starts from the root if it begins with a slash and from the working directory
otherwise; `.` and `..` have their usual meaning.

* `read` gives the bytes of a file and `write` replaces them or makes the file.
* `makeFolders` makes a folder and those on the way to it.
* `AccessFault` says why an operation cannot be carried out.  A path that holds a NUL, or a surrogate
  that stands for no byte, names nothing at all (`PathFlaw`).
-/

namespace NordLang

/-- The names that lead from the root to a file or folder. -/
abbrev Place := List (List UInt8)

inductive Entry where
  | file (bytes : List UInt8)
  | folder
  deriving DecidableEq, Repr

inductive FileFault where
  | notFound
  | alreadyExists
  | notDirectory
  | isDirectory
  | nameTooLong
  deriving DecidableEq, Repr

namespace FileFault

def number : FileFault → Nat
  | notFound => 2
  | alreadyExists => 17
  | notDirectory => 20
  | isDirectory => 21
  | nameTooLong => 36

def text : FileFault → String
  | notFound => "No such file or directory"
  | alreadyExists => "File exists"
  | notDirectory => "Not a directory"
  | isDirectory => "Is a directory"
  | nameTooLong => "File name too long"

end FileFault

/-- Why a path names nothing, whatever files there are. -/
inductive PathFlaw where
  | nul
  | surrogates (fault : SurrogateFault)
  deriving DecidableEq, Repr

def PathFlaw.message : PathFlaw → String
  | nul => "embedded null byte"
  | surrogates fault => fault.message

inductive AccessFault where
  | path (flaw : PathFlaw)
  | file (fault : FileFault) (path : RawText)
  deriving DecidableEq, Repr

namespace AccessFault

def message : AccessFault → String
  | path flaw => flaw.message
  | file fault shown => s!"[Errno {fault.number}] {fault.text}: {shown.quote}"

/-- Whether something else stands where a file or folder was to be made. -/
def isInTheWay : AccessFault → Bool
  | file .alreadyExists _ => true
  | _ => false

end AccessFault

/-! ## Paths -/

/-- The names of a path between its slashes. -/
def namesOf (path : RawText) : List RawText :=
  match path with
  | [] => [[]]
  | c :: rest =>
    if c = .char '/' then [] :: namesOf rest
    else
      match namesOf rest with
      | name :: names => (c :: name) :: names
      | [] => [[c]]

/-- The path that consists of the given names. -/
def pathOf (names : List RawText) : RawText :=
  [.char '/'].intercalate names

/-- The names of the folder that a path lies in. -/
def parentNames (names : List RawText) : List RawText :=
  (names.dropLast.reverse.dropWhile (·.isEmpty)).reverse

theorem length_parentNames_lt {names : List RawText} (h : names ≠ []) :
    (parentNames names).length < names.length := by
  have hpos := List.length_pos_iff.2 h
  have hle := (List.dropWhile_sublist (fun name : RawText => name.isEmpty)
    (l := names.dropLast.reverse)).length_le
  simp only [List.length_reverse, List.length_dropLast] at hle
  simp only [parentNames, List.length_reverse]
  omega

/-- A file in a folder. -/
def joinPath (folder name : String) : String :=
  if folder = "" ∨ folder.toList.getLast? = some '/' then folder ++ name else folder ++ "/" ++ name

/-- What keeps a path from naming anything.  Surrogates are noticed before a NUL. -/
def flaw? (path : RawText) : Option PathFlaw :=
  match path.refused? (!CodePoint.standsForByte ·) 0 with
  | some fault => some (.surrogates fault)
  | none => if path.contains (.char '\x00') then some .nul else none

/-- The longest name, in bytes. -/
def maxNameSize : Nat := 255

/-- The longest path, in bytes. -/
def maxPathSize : Nat := 4095

/-! ## The store -/

structure Store where
  /-- The working directory. -/
  folder : Place
  entries : List (Place × Entry)
  deriving DecidableEq, Repr

namespace Store

/-- A working directory with nothing in it. -/
def empty (folder : Place) : Store := ⟨folder, []⟩

/-- What is found at a place.  The working directory and the folders around it are always there. -/
def find? (place : Place) (s : Store) : Option Entry :=
  if place.isPrefixOf s.folder then some .folder else s.entries.lookup place

/-- Sets what is found at a place. -/
def set (place : Place) (entry : Entry) (s : Store) : Store :=
  { s with entries := (place, entry) :: s.entries.filter (·.1 != place) }

/-- Removes what is at a place, and below. -/
def erase (place : Place) (s : Store) : Store :=
  { s with entries := s.entries.filter fun e => !place.isPrefixOf e.1 }

/-- The place that names lead to from a folder.  All places on the way have to be folders, and the
last one need not exist. -/
def walk (s : Store) (place : Place) : List RawText → Except FileFault Place
  | [] => .ok place
  | name :: names =>
    match s.find? place with
    | none => .error .notFound
    | some (.file _) => .error .notDirectory
    | some .folder =>
      if name = [] ∨ name = [.char '.'] then s.walk place names
      else if name = [.char '.', .char '.'] then s.walk place.dropLast names
      else if maxNameSize < name.bytes.length then .error .nameTooLong
      else s.walk (place ++ [name.bytes]) names

/-- The folder that a path starts from. -/
def origin (s : Store) (path : RawText) : Place :=
  if path.head? = some (.char '/') then [] else s.folder

/-- The place that a path names. -/
def resolve (s : Store) (path : RawText) : Except AccessFault Place :=
  match flaw? path with
  | some flaw => .error (.path flaw)
  | none =>
    let result :=
      if maxPathSize < path.bytes.length then .error FileFault.nameTooLong
      else if path = [] then .error .notFound
      else s.walk (s.origin path) (namesOf path)
    result.mapError (.file · path)

/-- What a path leads to. -/
def entry? (s : Store) (path : RawText) : Option Entry :=
  match s.resolve path with
  | .ok place => s.find? place
  | .error _ => none

/-- Whether a path leads to anything. -/
def exists? (s : Store) (path : RawText) : Bool :=
  (s.entry? path).isSome

/-- The bytes of a file. -/
def read (s : Store) (path : RawText) : Except AccessFault (List UInt8) := do
  match s.find? (← s.resolve path) with
  | some (.file bytes) => return bytes
  | some .folder => throw (.file .isDirectory path)
  | none => throw (.file .notFound path)

/-- Replaces the contents of a file, or makes it. -/
def write (s : Store) (path : RawText) (bytes : List UInt8) : Except AccessFault Store := do
  let place ← s.resolve path
  match s.find? place with
  | some .folder => throw (.file .isDirectory path)
  | _ => return s.set place (.file bytes)

/-- Makes a folder in one that exists. -/
def makeFolder (s : Store) (path : RawText) : Except AccessFault Store := do
  let place ← s.resolve path
  match s.find? place with
  | some _ => throw (.file .alreadyExists path)
  | none => return s.set place .folder

/-- Makes a folder unless there is one. -/
def ensureFolder (s : Store) (path : RawText) : Option AccessFault × Store :=
  match s.makeFolder path with
  | .ok s => (none, s)
  | .error fault => if s.entry? path = some .folder then (none, s) else (some fault, s)

/-- Makes a folder unless there is one, and those on the way to it.  On a fault, the folders made
before remain.  Something in the way of the parent does not count as a fault: it is left to the
folder itself to meet it. -/
def makeFolders (s : Store) (names : List RawText) : Option AccessFault × Store :=
  if h : names = [] then (none, s)
  else
    have := length_parentNames_lt h
    let parent := parentNames names
    if parent = [] ∨ s.exists? (pathOf parent) then s.ensureFolder (pathOf names)
    else
      let (fault, s) := s.makeFolders parent
      match fault.filter (!·.isInTheWay) with
      | some fault => (some fault, s)
      | none =>
        if names.getLast? = some [.char '.'] then (none, s) else s.ensureFolder (pathOf names)
termination_by names.length

/-- Makes every place on the way a folder and puts an entry at the last one. -/
def placeFrom (entry : Entry) (place : Place) (s : Store) : List RawText → Store
  | [] => s.set place entry
  | name :: names =>
    let s := if s.find? place = some .folder then s else s.set place .folder
    if name = [] ∨ name = [.char '.'] then s.placeFrom entry place names
    else if name = [.char '.', .char '.'] then s.placeFrom entry place.dropLast names
    else s.placeFrom entry (place ++ [name.bytes]) names

/-- Puts an entry in place, whatever was there, with the folders on the way to it. -/
def place (path : RawText) (entry : Entry) (s : Store) : Store :=
  s.placeFrom entry (s.origin path) (namesOf path)

/-- Removes what a path leads to. -/
def remove (path : RawText) (s : Store) : Except AccessFault Store := do
  let place ← s.resolve path
  match s.find? place with
  | some _ => return s.erase place
  | none => throw (.file .notFound path)

end Store

end NordLang

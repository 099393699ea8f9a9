import NordLang.Command
import NordLang.Settings.Format

/-!
# Sessions

A session is a store of files with the settings that were loaded from it.  Settings are loaded when
they are first needed and kept until `reset`; a failed attempt leaves nothing behind.  A session has
the format of its settings files and the settings that hold where a file says nothing.

* `settings` gives the settings that hold.
* `writeFile`, `checkFile`, `parseFile` and `formatFile` are the tools for programs in files.  They
  answer in a sentence, also when something is wrong with the program or the file.
-/

namespace NordLang

/-- Settings as they were loaded, with the number of the load. -/
structure Loaded where
  entries : Entries
  load : Nat

namespace Loaded

def config (l : Loaded) : Setting := .mapping l.entries

end Loaded

structure Session where
  format : Settings.Format
  /-- The settings that hold unless a file says otherwise. -/
  defaults : Entries
  /-- The name of the working directory. -/
  folder : String
  store : Store
  cache : Option Loaded
  /-- How often settings have been loaded. -/
  loads : Nat

namespace Session

/-- A session in which nothing has been loaded. -/
def start (format : Settings.Format) (folder : String) (store : Store) : Session :=
  ⟨format, Settings.defaults, folder, store, none, 0⟩

/-- Forgets the settings that were loaded. -/
def reset (s : Session) : Session := { s with cache := none }

/-! ## Settings -/

def settingsFile : String := "nord.config"

/-- The settings that the value of a file makes; `path` is the name of it in messages. -/
def settingsFrom (s : Session) (path : String) : Setting → Except Failure Entries
  | .scalar .null => .ok s.defaults
  | .mapping entries => .ok (Setting.override s.defaults entries)
  | _ => .error (.settingsFile (.noMapping path))

/-- A file without a value as a failure. -/
def readFailure (path : String) : Settings.ReadFault → Failure
  | .malformed message => .settingsFile (.malformed path message)
  | .decoding fault => .decoding fault

/-- The settings in the contents of a file. -/
def settingsOf (s : Session) (path : String) (bytes : List UInt8) : Except Failure Entries :=
  match s.format.read bytes with
  | .error fault => .error (readFailure path fault)
  | .ok value => s.settingsFrom path value

/-- The settings that a folder's file holds at the moment. -/
def readSettings (s : Session) (folder : Option String) : Except Failure Entries :=
  let path := (folder.map (joinPath · settingsFile)).getD settingsFile
  let shownPath := joinPath (folder.getD s.folder) settingsFile
  if s.store.exists? path then
    match s.store.read path with
    | .ok bytes => s.settingsOf shownPath bytes
    | .error (.path flaw) => .error (.access (.path flaw))
    | .error (.file fault _) => .error (.access (.file fault shownPath))
  else .ok s.defaults

/-- The settings that hold, loaded from a folder if none have been loaded before. -/
def settings (folder : Option String) (s : Session) : Except Failure Loaded × Session :=
  match s.cache with
  | some loaded => (.ok loaded, s)
  | none =>
    match s.readSettings folder with
    | .error failure => (.error failure, s)
    | .ok entries =>
      let loaded := ⟨entries, s.loads + 1⟩
      (.ok loaded, { s with cache := some loaded, loads := s.loads + 1 })

/-! ## Programs in files -/

/-- The sentence about a file that is missing, in front of its path. -/
def fileNotFound : String := "Error: file not found: "

/-- The text of a file with its line ends unified. -/
def decodeFile (bytes : List UInt8) : Except Failure (List Char) :=
  match Text.Utf8.decode bytes with
  | .error fault => .error (.decoding fault)
  | .ok text => .ok (Text.unifyLines text)

/-- Answers about the program in a file.  A file that cannot be read and a program that cannot be
parsed are answered with a sentence. -/
def withProgram (s : Session) (path : RawText)
    (answer : Tree → Except Failure RawText × Session) : Except Failure RawText × Session :=
  match s.store.read path with
  | .error (.path flaw) => (.error (.access (.path flaw)), s)
  | .error (.file .notFound _) => (.ok (fileNotFound ++ path), s)
  | .error fault => (.ok ("Error reading file: " ++ fault.message : String), s)
  | .ok bytes =>
    match decodeFile bytes with
    | .error failure => (.error failure, s)
    | .ok source =>
      match Command.parse source with
      | .error failure => (failure.reported.map RawText.ofString, s)
      | .ok tree => answer tree

/-- Says whether a file holds a program. -/
def checkFile (path : RawText) (s : Session) : Except Failure RawText × Session :=
  s.withProgram path fun _ => (.ok ("OK: " ++ path), s)

/-- The tree of the program in a file as JSON. -/
def parseFile (path : RawText) (s : Session) : Except Failure RawText × Session :=
  s.withProgram path fun tree =>
    match s.settings none with
    | (.error failure, s) => (.error failure, s)
    | (.ok loaded, s) => ((Command.dump loaded.config tree).map RawText.ofString, s)

/-- The canonical layout of the program in a file. -/
def formatFile (path : RawText) (s : Session) : Except Failure RawText × Session :=
  s.withProgram path fun tree => ((Command.layout tree).map RawText.ofString, s)

/-- Stores a text in a file, with the folders on the way to it.  The file is emptied before the text
is encoded, so a text that cannot be encoded leaves it empty. -/
def store? (s : Session) (path source : RawText) : Except Failure Unit × Session :=
  let (fault, files) := s.store.makeFolders (parentNames (namesOf path))
  match fault with
  | some fault => (.error (.access fault), { s with store := files })
  | none =>
    match files.write path (source.encode.toOption.getD []) with
    | .error fault => (.error (.access fault), { s with store := files })
    | .ok files => ((source.encode.map fun _ => ()).mapError .encoding, { s with store := files })

/-- Writes a program to a file with the right ending. -/
def writeFile (path source : RawText) (s : Session) : Except Failure RawText × Session :=
  match s.settings none with
  | (.error failure, s) => (.error failure, s)
  | (.ok loaded, s) =>
    match (Command.setting loaded.config "files" "extension").bind
        (·.extension.mapError .setting) with
    | .error failure => (.error failure, s)
    | .ok ending =>
      if !(RawText.ofString ending).isSuffixOf path then
        (.ok ("Error: filepath must end with " ++ ending : String), s)
      else
        match s.store? path source with
        | (.ok (), s) => (.ok ("Saved: " ++ path), s)
        | (.error (.access (.file fault shown)), s) =>
          (.ok ("Error writing file: " ++ AccessFault.message (.file fault shown) : String), s)
        | (.error failure, s) => (.error failure, s)

end Session

end NordLang

import NordLang.CommandLine
import NordLang.Settings.Document

/-!
# The program

Reads the settings file and the program file from disk, runs the command line on them, and writes
what it says.
-/

open NordLang

/-- What a path leads to on disk. -/
def entryOnDisk (path : String) : IO (Option Entry) := do
  let target := (← IO.currentDir) / path
  if ← target.isDir then return some .folder
  if ← target.pathExists then return some (.file (← IO.FS.readBinFile target).toList)
  return none

/-- The store with what a path leads to on disk. -/
def addFromDisk (path : String) (store : Store) : IO Store := do
  match ← entryOnDisk path with
  | some entry => return store.place path entry
  | none => return store

def main (args : List String) : IO UInt32 := do
  let folder := (← IO.currentDir).toString
  let names := (namesOf folder).filter (!·.isEmpty)
  let mut store := Store.empty (names.map RawText.bytes)
  store ← addFromDisk Session.settingsFile store
  if let _ :: path :: _ := args then
    store ← addFromDisk path store
  let (call, _) := CommandLine.call args (.start Settings.documents folder store)
  IO.print call.stdout
  IO.eprint call.stderr
  match call.ending with
  | .returned => return 0
  | .exited code => return code.toUInt32
  | .failed failure =>
    IO.eprintln failure.message
    return 1

import NordLang.Session

/-!
# The command line

`nord <command> <file>` or `nord <command> -e <source>`.  What a call writes to the two channels, how
it ends, and the session after it.
-/

namespace NordLang

/-- How a call ends. -/
inductive Ending where
  | returned
  | exited (code : Nat)
  | failed (failure : Failure)

/-- What a call of the command line leaves behind. -/
structure Call where
  stdout : String
  stderr : String
  ending : Ending

namespace CommandLine

def commands : List String := ["check", "tokens", "parse", "fmt"]

def usage (command : String) : String :=
  linesText [s!"Usage: nord {command} <file.nord>", s!"       nord {command} -e <source>",
    "Commands: " ++ ", ".intercalate commands]

/-- A call that ends with a message on the error channel. -/
def refused (stderr : String) : Call := ⟨"", stderr, .exited 1⟩

/-- A call that ends with a failure: reported if it is a diagnostic, passed on otherwise. -/
def broken (stderr : String) (failure : Failure) : Call :=
  match failure.reported with
  | .ok line => refused (stderr ++ line ++ "\n")
  | .error failure => ⟨"", stderr, .failed failure⟩

/-- Runs a command on a program text. -/
def perform (command : String) (source : List Char) (label : String) (config : Setting) : Call :=
  let report := Command.run command source label config
  match report.outcome with
  | .ok text => ⟨text ++ "\n", report.listing, .returned⟩
  | .error failure => broken report.listing failure

/-- Runs a command on the program in a file. -/
def performFile (command path : String) (store : Store) (config : Setting) : Call :=
  if !store.exists? path then refused (Session.fileNotFound ++ path ++ "\n")
  else
    match store.read path with
    | .error fault => ⟨"", "", .failed (.access fault)⟩
    | .ok bytes =>
      match Session.decodeFile bytes with
      | .error failure => ⟨"", "", .failed failure⟩
      | .ok source => perform command source path config

/-- The call with the given arguments. -/
def call (args : List String) (s : Session) : Call × Session :=
  match args with
  | [] => (refused (usage "<command>"), s)
  | command :: rest =>
    if !commands.contains command then (refused s!"Unknown command: {command}\n", s)
    else
      match rest with
      | [] => (refused (usage command), s)
      | path :: rest =>
        match s.settings none with
        | (.error failure, s) => (broken "" failure, s)
        | (.ok loaded, s) =>
          if path = "-e" then
            match rest with
            | [] => (refused (usage command), s)
            | source :: _ => (perform command source.toList "<expr>" loaded.config, s)
          else (performFile command path s.store loaded.config, s)

end CommandLine

end NordLang

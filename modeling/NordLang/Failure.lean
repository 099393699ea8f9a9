import NordLang.Reader
import NordLang.Settings
import NordLang.Store
import NordLang.Text.Utf8
import NordLang.Tree.Layout

/-!
# Failures

Everything that can keep a command from giving its result.  Some failures are diagnostics, which
commands report in their own words.  The others break the command off.
-/

namespace NordLang

/-- Why a settings file cannot be used. -/
inductive SettingsFileFault where
  | malformed (path message : String)
  | noMapping (path : String)
  deriving DecidableEq, Repr

namespace SettingsFileFault

def text : SettingsFileFault → String
  | malformed path message => s!"Invalid YAML in {path}: {message}"
  | noMapping path => s!"{path} must contain a mapping at the top level"

def diagnostic (f : SettingsFileFault) : Diagnostic :=
  ⟨f.text, Diagnostic.nowhere, .settings⟩

end SettingsFileFault

inductive Failure where
  | parse (fault : ParseFault)
  | layout (fault : LayoutFault)
  | settingsFile (fault : SettingsFileFault)
  | setting (fault : SettingFault)
  | access (fault : AccessFault)
  | decoding (fault : Text.Utf8.Fault)
  | encoding (fault : SurrogateFault)
  /-- A program that is not given as text. -/
  | noText (typeName : String)

namespace Failure

def diagnostic? : Failure → Option Diagnostic
  | parse fault => fault.diagnostic?
  | layout fault => fault.diagnostic?
  | settingsFile fault => some fault.diagnostic
  | setting _ | access _ | decoding _ | encoding _ | noText _ => none

def message : Failure → String
  | parse fault => fault.message
  | layout fault => fault.message
  | settingsFile fault => fault.diagnostic.message
  | setting fault => fault.message
  | access fault => fault.message
  | decoding fault => fault.message
  | encoding fault => fault.message
  | noText typeName => s!"object of type '{typeName}' has no len()"

/-- The line in which a command reports a diagnostic; other failures are passed on. -/
def reported (f : Failure) : Except Failure String :=
  match f.diagnostic? with
  | some d => .ok ("Error: " ++ d.message)
  | none => .error f

end Failure

end NordLang

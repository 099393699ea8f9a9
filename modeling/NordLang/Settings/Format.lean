import NordLang.Settings
import NordLang.Text.Lines
import NordLang.Text.Utf8

/-!
# Formats of settings files

A format says what a settings file means.  It is all that is assumed of the notation in which
settings are written: a text has a value, or there is a message that says what is wrong with it.

A file is looked at while it is read.  So if its bytes are no text, the format may have found
something wrong in front of them before, and where the bytes are reported depends on how the file was
cut into pieces.  This is left to the format as well (`Format.refuse`).
-/

namespace NordLang.Settings

/-- Why there is no value in a file. -/
inductive ReadFault where
  | malformed (message : String)
  | decoding (fault : Text.Utf8.Fault)
  deriving DecidableEq, Repr

structure Format where
  /-- The value of a text, or what is wrong with it. -/
  parse : List Char → Except String Setting
  /-- What is found first in a file that is no text, where `fault` is that of decoding it whole. -/
  refuse : (bytes : List UInt8) → (fault : Text.Utf8.Fault) → ReadFault

/-- The value in a file, the line ends of which are unified. -/
def Format.read (format : Format) (bytes : List UInt8) : Except ReadFault Setting :=
  match Text.Utf8.decode bytes with
  | .ok text => (format.parse (Text.unifyLines text)).mapError .malformed
  | .error fault => .error (format.refuse bytes fault)

end NordLang.Settings

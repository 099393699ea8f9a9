import NordLang.Text.Quoted
import NordLang.Text.Utf8

/-!
# Text with surrogates

Text that comes from outside is a sequence of code points, and these need not be characters: a
surrogate may stand among them.  Paths come as such text, and so do programs that are to be written.

* `encode` gives the bytes of a text.  A surrogate has none and is refused.
* In the names of files, the surrogates from 0xdc80 to 0xdcff stand for the bytes from 0x80 to 0xff,
  since the bytes of a name need not be text.  The other surrogates are refused
  (`CodePoint.standsForByte`).
-/

namespace NordLang

inductive CodePoint where
  | char (c : Char)
  /-- The surrogate `0xd800 + index`. -/
  | surrogate (index : Fin 0x800)
  deriving DecidableEq, Repr

namespace CodePoint

def char? : CodePoint → Option Char
  | char c => some c
  | surrogate _ => none

def isSurrogate : CodePoint → Bool
  | char _ => false
  | surrogate _ => true

/-- Whether a surrogate stands for a byte in the names of files. -/
def standsForByte (index : Fin 0x800) : Bool :=
  0x480 ≤ index.val && index.val < 0x500

/-- The bytes of a code point in the names of files. -/
def bytes : CodePoint → List UInt8
  | char c => String.utf8EncodeChar c
  | surrogate index => [UInt8.ofNat index.val]

/-- A surrogate by its code point in hexadecimal. -/
def escapeSurrogate (index : Fin 0x800) : List Char :=
  '\\' :: 'u' :: Text.hex 4 (0xd800 + index.val)

/-- One code point of a text quoted by `mark`. -/
def quoted (mark : Char) : CodePoint → List Char
  | char c => Text.quoteChar mark c
  | surrogate index => escapeSurrogate index

end CodePoint

/-- Surrogates that are refused: the first of them, its place in the text, and how many there are in
a row. -/
structure SurrogateFault where
  offset : Nat
  first : Fin 0x800
  width : Nat
  deriving DecidableEq, Repr

def SurrogateFault.message (f : SurrogateFault) : String :=
  let place :=
    if f.width = 1 then
      s!"character '{String.ofList (CodePoint.escapeSurrogate f.first)}' in position {f.offset}"
    else
      s!"characters in position {f.offset}-{f.offset + f.width - 1}"
  s!"'utf-8' codec can't encode {place}: surrogates not allowed"

/-- Text that may hold surrogates. -/
abbrev RawText := List CodePoint

namespace RawText

def ofList (text : List Char) : RawText := text.map .char

def ofString (text : String) : RawText := ofList text.toList

instance : Coe String RawText := ⟨ofString⟩

@[simp] theorem ofList_append (text more : List Char) :
    ofList (text ++ more) = ofList text ++ ofList more := List.map_append

@[simp] theorem ofString_append (text more : String) :
    ofString (text ++ more) = ofString text ++ ofString more := by
  rw [ofString, String.toList_append, ofList_append]
  rfl

/-- The bytes of a text in the names of files. -/
def bytes (text : RawText) : List UInt8 := text.flatMap CodePoint.bytes

/-- The first surrogate that `refuses` holds of, with those right after it. -/
def refused? (refuses : Fin 0x800 → Bool) (offset : Nat) : RawText → Option SurrogateFault
  | [] => none
  | .char _ :: rest => refused? refuses (offset + 1) rest
  | .surrogate index :: rest =>
    if refuses index then some ⟨offset, index, (rest.takeWhile CodePoint.isSurrogate).length + 1⟩
    else refused? refuses (offset + 1) rest

/-- The bytes of a text without surrogates. -/
def encode (text : RawText) : Except SurrogateFault (List UInt8) :=
  match text.refused? (fun _ => true) 0 with
  | some fault => .error fault
  | none => .ok text.bytes

@[simp] theorem bytes_ofList (text : List Char) : (ofList text).bytes = Text.Utf8.encode text := by
  simp [bytes, ofList, Text.Utf8.encode, List.flatMap_map, CodePoint.bytes]

@[simp] theorem refused?_ofList (refuses : Fin 0x800 → Bool) (offset : Nat) (text : List Char) :
    (ofList text).refused? refuses offset = none := by
  induction text generalizing offset with
  | nil => rfl
  | cons c rest ih => exact ih (offset + 1)

/-- A text without surrogates is encoded as what it is. -/
@[simp] theorem encode_ofList (text : List Char) :
    (ofList text).encode = .ok (Text.Utf8.encode text) := by
  simp [encode]

/-- Text between quotes, with escapes. -/
def quote (text : RawText) : String :=
  let mark := Text.quoteMark (text.filterMap CodePoint.char?)
  String.ofList (mark :: (text.flatMap (CodePoint.quoted mark) ++ [mark]))

end RawText

end NordLang

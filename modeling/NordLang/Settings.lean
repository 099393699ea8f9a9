import NordLang.Scalar

/-!
# Settings

Nested settings: scalars, lists, mappings, and values of other types, which settings files may hold
but nothing can be done with.  The entries of a mapping stand in the order in which their keys were
first added.  Scalars are compared by `Scalar.same` as keys, so the number 1 and the truth value true
are one key.  Settings are finite, so none is part of itself.  Texts in them are sequences of Unicode
scalar values, as are the names of folders to load settings from.

* `find?` and `insert` are the operations on the entries of a mapping.
* `override` lays one mapping over another, entry by entry and level by level.
* `member` is the look-up by name that commands use; it says what is wrong if there is nothing to be
  found.
-/

namespace NordLang

/-- A value of another type: a date, a time, bytes, a set, or a number that is not finite. -/
structure OtherValue where
  typeName : String
  /-- What tells it from the other values of its type. -/
  text : String
  isTrue : Bool
  deriving DecidableEq, Repr

inductive Key where
  | scalar (value : Scalar)
  | other (value : OtherValue)
  deriving DecidableEq, Repr

namespace Key

def text (name : String) : Key := scalar (.text name)

def same : Key → Key → Bool
  | scalar a, scalar b => a.same b
  | other a, other b => a == b
  | _, _ => false

end Key

inductive Setting where
  | scalar (value : Scalar)
  | other (value : OtherValue)
  | list (items : List Setting)
  | mapping (entries : List (Key × Setting))
  deriving Inhabited

abbrev Entries := List (Key × Setting)

namespace Entries

/-- The value of a key. -/
def find? (key : Key) : Entries → Option Setting
  | [] => none
  | (k, v) :: rest => if k.same key then some v else find? key rest

/-- Replaces the value of a key, or adds the key at the end. -/
def insert (key : Key) (value : Setting) : Entries → Entries
  | [] => [(key, value)]
  | (k, v) :: rest => if k.same key then (k, value) :: rest else (k, v) :: insert key value rest

/-- The keys in order. -/
def keys (entries : Entries) : List Key := entries.map Prod.fst

end Entries

namespace Setting

def null : Setting := scalar .null

def typeName : Setting → String
  | scalar value => value.typeName
  | other value => value.typeName
  | list _ => "list"
  | mapping _ => "dict"

/-- Empty collections count as false. -/
def isTrue : Setting → Bool
  | scalar value => value.isTrue
  | other value => value.isTrue
  | list items => !items.isEmpty
  | mapping entries => !entries.isEmpty

mutual

/-- The value that results where `old` stood and `new` is laid over it. -/
def layOver (old : Option Setting) : Setting → Setting
  | mapping entries =>
    match old with
    | some (mapping base) => mapping (override base entries)
    | _ => mapping entries
  | new => new

/-- Lays the second entries over the first ones.  Two mappings under one key are merged in the same
way; otherwise the value on top wins. -/
def override (base : Entries) : Entries → Entries
  | [] => base
  | (key, value) :: rest =>
    override (base.insert key (layOver (base.find? key) value)) rest

end

end Setting

/-- Why a setting cannot be used. -/
inductive SettingFault where
  | noKey (name : String)
  /-- A member of something that is no mapping. -/
  | noMapping (found : Setting)
  | badIndent (typeName : String)
  /-- An indentation that is no index of a text. -/
  | hugeIndent
  | badExtension (typeName : String)

namespace SettingFault

def message : SettingFault → String
  | noKey name => Text.quote name
  | noMapping (.list _) => "list indices must be integers or slices, not str"
  | noMapping (.scalar (.text _)) => "string indices must be integers, not 'str'"
  | noMapping (.other ⟨"bytes", _, _⟩) => "byte indices must be integers or slices, not str"
  | noMapping found => s!"'{found.typeName}' object is not subscriptable"
  | badIndent typeName => s!"can't multiply sequence by non-int of type '{typeName}'"
  | hugeIndent => "cannot fit 'int' into an index-sized integer"
  | badExtension typeName => s!"endswith first arg must be str or a tuple of str, not {typeName}"

end SettingFault

namespace Setting

/-- The member of a mapping with the given name. -/
def member (name : String) : Setting → Except SettingFault Setting
  | mapping entries =>
    match Entries.find? (.text name) entries with
    | some value => .ok value
    | none => .error (.noKey name)
  | found => .error (.noMapping found)

/-- Whether a number can be an index of a text, which has 64 bits. -/
def isIndex (n : Int) : Bool := -0x8000000000000000 ≤ n && n < 0x8000000000000000

/-- What each level of a dump is indented by; nothing if the dump is to stand on one line. -/
def indentation : Setting → Except SettingFault (Option String)
  | scalar .null => .ok none
  | scalar (.bool b) => .ok (some (if b then " " else ""))
  | scalar (.int n) =>
    if isIndex n then .ok (some (String.ofList (List.replicate n.toNat ' ')))
    else .error .hugeIndent
  | scalar (.text s) => .ok (some s)
  | found => .error (.badIndent found.typeName)

/-- The ending of file names. -/
def extension : Setting → Except SettingFault String
  | scalar (.text s) => .ok s
  | found => .error (.badExtension found.typeName)

end Setting

namespace Settings

/-- The settings that hold unless a file says otherwise. -/
def defaults : Entries :=
  [(.text "cli", .mapping
      [(.text "silent", .scalar (.bool true)), (.text "json_indent", .scalar (.int 2))]),
   (.text "files", .mapping [(.text "extension", .scalar (.text ".nord"))])]

end Settings

end NordLang

import NordLang.Token

/-!
# Cursors

A cursor is a place in a text together with the text that follows.  It moves forward only, one
character at a time, and counts lines and columns on the way.  Past the end it still moves: the
offset and the column grow and nothing is read.

Texts that are read are sequences of Unicode scalar values.  Strings with lone surrogates, which no
file holds, are outside of what is described here; paths and programs to be written may hold them
(`RawText`).
-/

namespace NordLang

structure Cursor where
  rest : List Char
  offset : Nat
  line : Nat
  column : Nat
  deriving DecidableEq, Repr

namespace Cursor

/-- The beginning of a text. -/
def ofText (text : List Char) : Cursor := ⟨text, 0, 1, 1⟩

def loc (c : Cursor) : Location := ⟨c.line, c.column⟩

def current? (c : Cursor) : Option Char := c.rest.head?

def peek? (c : Cursor) : Option Char := c.rest[1]?

def advance (c : Cursor) : Cursor :=
  match c.rest with
  | [] => ⟨[], c.offset + 1, c.line, c.column + 1⟩
  | ch :: rest =>
    if ch = '\n' then ⟨rest, c.offset + 1, c.line + 1, 1⟩
    else ⟨rest, c.offset + 1, c.line, c.column + 1⟩

/-- `n` steps forward. -/
def advanceBy : Nat → Cursor → Cursor
  | 0, c => c
  | n + 1, c => advanceBy n c.advance

@[simp] theorem rest_advance (c : Cursor) : c.advance.rest = c.rest.tail := by
  rcases c with ⟨_ | ⟨ch, rest⟩, offset, line, column⟩
  · rfl
  · by_cases h : ch = '\n' <;> simp [advance, h]

@[simp] theorem rest_advanceBy (n : Nat) (c : Cursor) : (advanceBy n c).rest = c.rest.drop n := by
  induction n generalizing c with
  | zero => rfl
  | succ n ih => rw [advanceBy, ih, rest_advance, List.drop_tail]

end Cursor

end NordLang

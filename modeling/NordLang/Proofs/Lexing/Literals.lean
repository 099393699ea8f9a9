import NordLang.Proofs.Layout.Spacing

/-!
# String literals

The literal that the layout writes for a string is read back as that string, whatever stands around
it.  In the other direction a string can be written in several ways, but they differ in tabs and
carriage returns alone: these may stand in a literal as they are, and the layout escapes them.

* `escapeRaw` writes the two characters as escapes and leaves all others alone.
* `Quotes.escaped_eq` compares what stands between the quotes of a literal with what the layout
  writes for its meaning.
-/

namespace NordLang

open Cursor

/-- A tab or carriage return as an escape, and any other character as it is. -/
def escapeRaw (c : Char) : List Char :=
  if c = '\t' then ['\\', 't']
  else if c = '\r' then ['\\', 'r']
  else [c]

theorem escapeRaw_of_ne {c : Char} (htab : c ≠ '\t') (hreturn : c ≠ '\r') :
    escapeRaw c = [c] := by
  rw [escapeRaw, if_neg htab, if_neg hreturn]

/-- Outside of escapes the layout changes nothing but tabs and carriage returns. -/
theorem escapeInString_of_plain {c : Char} (hquote : c ≠ '"') (hline : c ≠ '\n')
    (hslash : c ≠ '\\') : escapeInString c = escapeRaw c := by
  unfold escapeInString
  split
  · exact absurd rfl hslash
  · exact absurd rfl hquote
  · exact absurd rfl hline
  · rfl
  · rfl
  · next htab hreturn => exact (escapeRaw_of_ne htab hreturn).symm

/-- The layout writes the meaning of an escape as that escape. -/
theorem escapeInString_of_escape {code c : Char} (h : (code, c) ∈ escapes) :
    escapeInString c = escapeRaw '\\' ++ escapeRaw code := by
  have hall : ∀ e ∈ escapes, escapeInString e.2 = escapeRaw '\\' ++ escapeRaw e.1 := by decide
  exact hall (code, c) h

theorem Quotes.escaped_eq {cs value : List Char} (h : Quotes cs value) :
    value.flatMap escapeInString = cs.flatMap escapeRaw := by
  induction h with
  | nil => rfl
  | plain hquote hline hslash _ ih =>
    rw [List.flatMap_cons, List.flatMap_cons, ih, escapeInString_of_plain hquote hline hslash]
  | escape hcode _ ih =>
    rw [List.flatMap_cons, List.flatMap_cons, List.flatMap_cons, ih,
      escapeInString_of_escape hcode, List.append_assoc]

theorem Quotes.stringLiteral_eq {cs value : List Char} (h : Quotes cs value) :
    stringLiteral value = ('"' :: (cs ++ ['"'])).flatMap escapeRaw := by
  rw [stringLiteral, h.escaped_eq, List.flatMap_cons, List.flatMap_append]
  rfl

theorem Tree.layout_string (loc : Location) (value : List Char) :
    (constant loc (string (.text (String.ofList value)))).layout =
      .ok (.text (String.ofList (stringLiteral value))) := by
  have htext : (constant loc (string (.text (String.ofList value)))).text =
      .ok (stringLiteral value) := by
    rw [text, pieces_string, String.toList_ofList]
    show Except.ok (stringLiteral value ++ []) = _
    rw [List.append_nil]
  rw [layout, htext]
  rfl

/-- The layout of a string is read back as the string and ends with its closing quote.  And wherever
a string is read, the layout of its value is the text it was read from, with tabs and carriage
returns escaped. -/
theorem string_layout_read_back (loc : Location) :
    (∀ (value : String) (before after : List Char), ∃ literal : List Char,
      (Tree.constant loc (.string (.text value))).layout = .ok (.text (String.ofList literal)) ∧
      (behind before (literal ++ after)).readString =
        (.ok (.spanning before literal .string (.text value)), behind (before ++ literal) after)) ∧
    ∀ (before text : List Char) (token : Token) (stop : Cursor),
      (behind before ('"' :: text)).readString = (.ok token, stop) →
      ∃ (value : String) (lexeme rest : List Char), '"' :: text = lexeme ++ rest ∧
        token = .spanning before lexeme .string (.text value) ∧
        stop = behind (before ++ lexeme) rest ∧
        (Tree.constant loc (.string (.text value))).layout =
          .ok (.text (String.ofList (lexeme.flatMap escapeRaw))) := by
  constructor
  · intro value before after
    have hlayout := Tree.layout_string loc value.toList
    rw [String.ofList_toList] at hlayout
    refine ⟨stringLiteral value.toList, hlayout, ?_⟩
    have hread := @readString_of_quotes before _ _ after (Piece.quotes_escaped value.toList)
    rwa [String.ofList_toList] at hread
  · intro before text token stop hread
    obtain ⟨cs, value, rest, htext, hcs⟩ := quotes_of_readString hread
    rw [htext, readString_of_quotes hcs] at hread
    cases hread
    refine ⟨String.ofList value, '"' :: (cs ++ ['"']), rest, htext, rfl, rfl, ?_⟩
    rw [Tree.layout_string, hcs.stringLiteral_eq]

/-- A raw tab, an escaped one and a backslash before the closing quote, with another quote behind
it. -/
theorem string_layout_read_back_tabs :
    let lexeme := ['"', '\t', '\\', 't', '\\', '\\', '"']
    (behind ['='] (lexeme ++ ['"'])).readString =
      (.ok (.spanning ['='] lexeme .string (.text "\t\t\\")), behind (['='] ++ lexeme) ['"']) ∧
    (Tree.constant ⟨1, 1⟩ (.string (.text "\t\t\\"))).layout =
      .ok (.text (String.ofList (lexeme.flatMap escapeRaw))) := by
  intro lexeme
  have hread : (behind ['='] (lexeme ++ ['"'])).readString =
      (.ok (.spanning ['='] lexeme .string (.text "\t\t\\")), behind (['='] ++ lexeme) ['"']) := by
    decide
  obtain ⟨value, l, rest, htext, htoken, hstop, hlayout⟩ :=
    (string_layout_read_back ⟨1, 1⟩).2 _ _ _ _ hread
  obtain rfl : "\t\t\\" = value := Scalar.text.inj (congrArg Token.value htoken)
  obtain rfl : ['"'] = rest := congrArg Cursor.rest hstop
  obtain rfl : lexeme = l := List.append_cancel_right htext
  exact ⟨hread, hlayout⟩

end NordLang

import NordLang.CommandLine
import NordLang.Proofs.Command.Verbosity
import NordLang.Proofs.Layout.NormalForm
import NordLang.Proofs.Store.Access
import NordLang.Proofs.Text.RoundTrip

/-!
# Layouts in files

A layout can be kept in a file: it is one line without tabs, and its text, a line feed behind it, is
read from the file as it was written and means the same program (`layout_survives_storing`).

Reading a file unifies its line ends, so this rests on the layout having none.  Every piece of it is
a lexeme or a blank, and the only lexemes that may hold such characters are string literals, where
the layout escapes them (`Piece.Settled.isOneLine_chars`).
-/

namespace NordLang

/-- Whether a text has no line feed, carriage return or tab. -/
def isOneLine (text : List Char) : Bool :=
  text.all fun c => c != '\n' && c != '\r' && c != '\t'

theorem isOneLine_iff {text : List Char} :
    isOneLine text = true ↔ ∀ c ∈ text, c ≠ '\n' ∧ c ≠ '\r' ∧ c ≠ '\t' := by
  simp [isOneLine, and_assoc]

namespace Piece

theorem isOneLine_of_isWordChar {l : List Char} (h : ∀ c ∈ l, isWordChar c = true) :
    isOneLine l = true := by
  have hword {c d : Char} (hc : c ∈ l) (hd : isWordChar d = false) : c ≠ d := by
    rintro rfl
    rw [h c hc] at hd
    cases hd
  exact isOneLine_iff.2 fun c hc => ⟨hword hc rfl, hword hc rfl, hword hc rfl⟩

theorem isOneLine_escapeInString (c : Char) : isOneLine (escapeInString c) = true := by
  unfold escapeInString
  split
  · decide
  · decide
  · decide
  · decide
  · decide
  · next hline htab hreturn =>
    refine isOneLine_iff.2 fun d hd => ?_
    cases List.mem_singleton.1 hd
    exact ⟨hline, hreturn, htab⟩

theorem isOneLine_stringLiteral (value : List Char) : isOneLine (stringLiteral value) = true := by
  have hescaped (c : Char) :
      (escapeInString c).all (fun c => c != '\n' && c != '\r' && c != '\t') = true :=
    isOneLine_escapeInString c
  simp [isOneLine, stringLiteral, List.all_flatMap, hescaped]

/-- A piece that is a lexeme or a blank has no line end and no tab in it. -/
theorem Settled.isOneLine_chars {next : Option Char} {p : Piece} (h : p.Settled next) :
    isOneLine p.chars = true := by
  cases p with
  | blank => decide
  | fixed kind => cases kind <;> decide
  | name text =>
    have hlexeme : Lexeme next text .identifier (.text (String.ofList text)) := h _ rfl
    exact isOneLine_of_isWordChar (hlexeme.isWordChar_of_mem (by decide) (by decide))
  | number text =>
    have hlexeme : Lexeme next text .integer (.int (Nat.ofDigitChars 10 text 0)) := h _ rfl
    exact isOneLine_of_isWordChar (hlexeme.isWordChar_of_mem (by decide) (by decide))
  | truth value => cases value <;> decide
  | quoted value => exact isOneLine_stringLiteral value

theorem Apart.isOneLine_textOf {next : Option Char} {ps : List Piece} (h : Apart next ps) :
    isOneLine (textOf ps) = true := by
  induction ps with
  | nil => rfl
  | cons p ps ih =>
    obtain ⟨hp, hps⟩ := h
    have hsplit : isOneLine (textOf (p :: ps)) = (isOneLine p.chars && isOneLine (textOf ps)) :=
      List.all_append
    rw [hsplit, hp.isOneLine_chars, ih hps]
    rfl

end Piece

theorem Tree.WellFormed.isOneLine_written {t : Tree} (h : t.WellFormed) :
    isOneLine (Piece.textOf t.written) = true :=
  (h.compact.apart none (by simp)).isOneLine_textOf

/-! ## Through a file -/

/-- A text is read from a file as it was written, but for its line ends. -/
theorem Session.decodeFile_encode_unified (text : List Char) :
    Session.decodeFile (Text.Utf8.encode text) = .ok (Text.unifyLines text) := by
  rw [Session.decodeFile, Text.Utf8.decode_encode]

/-- A text without carriage returns is read from a file as it was written. -/
theorem Session.decodeFile_encode {text : List Char} (h : '\r' ∉ text) :
    Session.decodeFile (Text.Utf8.encode text) = .ok text := by
  rw [Session.decodeFile_encode_unified, Text.unifyLines_eq_self h]

/-- The command line prints the layout of a program with a line feed behind it. -/
theorem CommandLine.stdout_perform_fmt {source : List Char} {t : Tree} {out label : String}
    {config silent : Setting} (hparse : parseText source = .ok t)
    (hlayout : t.layout = .ok (.text out))
    (hsilent : Command.setting config "cli" "silent" = .ok silent) :
    (CommandLine.perform "fmt" source label config).stdout = out ++ "\n" := by
  have hanswer : Command.answer "fmt" label config t = .ok out := by
    change Command.layout t = .ok out
    rw [Command.layout, hlayout]
    rfl
  rw [perform, Command.outcome_run_of_parse hsilent (by decide) hparse, hanswer]

/-- The layout of a program is one line without tabs.  Printed to a file, it is read as a text that
means the same program and has the same layout. -/
theorem layout_survives_storing {source : List Char} {t : Tree} (h : parseText source = .ok t) :
    ∃ out, t.layout = .ok (.text out) ∧
      (∀ c ∈ out.toList, c ≠ '\n' ∧ c ≠ '\r' ∧ c ≠ '\t') ∧
      (∀ label config silent, Command.setting config "cli" "silent" = .ok silent →
        (CommandLine.perform "fmt" source label config).stdout = out ++ "\n") ∧
      ∀ (store store' : Store) (path : RawText),
        store.write path (Text.Utf8.encode (out ++ "\n").toList) = .ok store' →
        ∃ bytes text u, store'.read path = .ok bytes ∧ Session.decodeFile bytes = .ok text ∧
          parseText text = .ok u ∧ u.same t = true ∧ u.layout = .ok (.text out) := by
  have ht := wellFormed_of_parse h
  have honeLine := isOneLine_iff.1 ht.isOneLine_written
  refine ⟨_, ht.layout, ?_, ?_, ?_⟩
  · rw [String.toList_ofList]
    exact honeLine
  · intro label config silent hsilent
    exact CommandLine.stdout_perform_fmt h ht.layout hsilent
  · intro store store' path hwrite
    rw [String.toList_append, String.toList_ofList] at hwrite
    have hreturn : '\r' ∉ Piece.textOf t.written ++ ['\n'] := by
      intro hmem
      rcases List.mem_append.1 hmem with hmem | hmem
      · exact (honeLine _ hmem).2.1 rfl
      · cases List.mem_singleton.1 hmem
    have hblank : ∀ c ∈ ['\n'], c ∈ blankChars := by
      intro c hc
      cases List.mem_singleton.1 hc
      decide
    obtain ⟨u, hu, hsame⟩ := ht.reread hblank
    refine ⟨_, _, u, Store.read_of_write hwrite, Session.decodeFile_encode hreturn, hu, hsame, ?_⟩
    rw [Tree.layout_eq_of_same (wellFormed_of_parse hu) ht hsame, ht.layout]

/-- A string with a carriage return, a tab and a character of two bytes. -/
theorem layout_survives_storing_escapes :
    let source : List Char := ['f', '(', '"', '\r', '\t', 'é', '"', ')']
    let t : Tree := .call ⟨1, 2⟩ (.constant ⟨1, 1⟩ (.identifier (.text "f")))
      (.constant ⟨1, 3⟩ (.string (.text "\r\té")))
    let out : String := "f(\"\\r\\té\")"
    parseText source = .ok t ∧ t.layout = .ok (.text out) ∧
    ∃ store' bytes text u,
      (Store.empty [RawText.bytes "home"]).write "p.nord"
        (Text.Utf8.encode (out ++ "\n").toList) = .ok store' ∧
      store'.read "p.nord" = .ok bytes ∧ Session.decodeFile bytes = .ok text ∧
      parseText text = .ok u ∧ u.same t = true ∧ u.layout = .ok (.text out) := by
  intro source t out
  have h : parseText source = .ok t := by
    have htext : "\r\té" = String.ofList ['\r', '\t', 'é'] := rfl
    simp only [source, t, htext]
    with_unfolding_all rfl
  have hlayout : t.layout = .ok (.text out) := by with_unfolding_all rfl
  have hwrite : ∃ store', (Store.empty [RawText.bytes "home"]).write "p.nord"
      (Text.Utf8.encode (out ++ "\n").toList) = .ok store' := ⟨_, rfl⟩
  obtain ⟨store', hwrite⟩ := hwrite
  obtain ⟨out', hout', _, _, hstored⟩ := layout_survives_storing h
  cases hlayout.symm.trans hout'
  obtain ⟨bytes, text, u, hread⟩ := hstored _ _ _ hwrite
  exact ⟨h, hlayout, store', bytes, text, u, hwrite, hread⟩

end NordLang

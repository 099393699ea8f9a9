import NordLang.Proofs.Grammar.Steps
import NordLang.Proofs.Grammar.Text

/-!
# The end of the input that is made up

A list of tokens need not hold the end of the input.  Where it is missing, a reader makes it up
right behind the last token, from the place and the extent of that token alone.  For the tokens of a
text that does not end in blanks, this is the end of the input that scanning finds.

No lexeme has a line feed in it (`Lexeme.lineFeed_not_mem`), so the end of a token is on the line it
starts on, as many columns further as it has characters (`Token.endAfter_spanning`).  Readers with
and without the end of the input have the same tokens in sight then, and are read alike.
-/

namespace NordLang

/-! ## Tokens are on one line -/

theorem Quotes.lineFeed_not_mem {cs value : List Char} (h : Quotes cs value) : '\n' ∉ cs := by
  induction h with
  | nil => exact List.not_mem_nil
  | plain _ hline _ _ ih => simp [hline.symm, ih]
  | @escape code c cs value hcode _ ih =>
    have hall : ∀ e ∈ escapes, e.1 ≠ '\n' := by decide
    simp [(hall (code, c) hcode).symm, ih]

theorem Lexeme.lineFeed_not_mem {next : Option Char} {l : List Char} {kind : TokenKind}
    {value : Scalar} (h : Lexeme next l kind value) : '\n' ∉ l := by
  by_cases hstring : kind = .string
  · cases h with
    | string hquotes => simp [hquotes.lineFeed_not_mem]
    | keyword hw =>
      have hall : ∀ entry ∈ reservedWords, entry.2 ≠ .string := by decide
      exact absurd hstring (hall _ hw)
    | symbol hkind =>
      subst hstring
      exact absurd hkind (by decide)
    | _ => cases hstring
  by_cases hsymbol : kind ∈ TokenKind.symbols
  · cases h with
    | symbol hkind =>
      have hall : ∀ kind ∈ TokenKind.symbols, '\n' ∉ kind.spelling := by decide
      exact hall kind hkind
    | keyword hw =>
      have hall : ∀ entry ∈ reservedWords, '\n' ∉ entry.1 := by decide
      exact hall _ hw
    | string => exact absurd rfl hstring
    | _ => exact absurd hsymbol (by decide)
  · intro hmem
    have hchar := h.isWordChar_of_mem hstring hsymbol _ hmem
    revert hchar
    decide

/-- Behind text without a line feed the line is the same, and the column grows by its length. -/
theorem Location.after_append {before l : List Char} (h : '\n' ∉ l) :
    Location.after (before ++ l) =
      ⟨(Location.after before).line, (Location.after before).column + l.length⟩ := by
  have hcount : l.count '\n' = 0 := List.count_eq_zero.2 h
  have hall : ∀ c ∈ l.reverse, (c != '\n') = true := by
    intro c hc
    rw [bne_iff_ne]
    rintro rfl
    exact h (List.mem_reverse.1 hc)
  have hcolumn : ((before ++ l).reverse.takeWhile (· != '\n')).length =
      l.length + (before.reverse.takeWhile (· != '\n')).length := by
    rw [List.reverse_append, List.takeWhile_append_of_pos hall, List.length_append,
      List.length_reverse]
  simp only [after, List.count_append, hcount, hcolumn, Nat.add_zero, Location.mk.injEq, true_and]
  omega

/-- What is made up behind a lexeme is the end of the input of the text up to there. -/
theorem Token.endAfter_spanning {before l : List Char} {next : Option Char} {kind : TokenKind}
    {value : Scalar} (h : Lexeme next l kind value) :
    endAfter (some (spanning before l kind value)) = endOf (before ++ l) := by
  have hlength : ((before ++ l).length : Int) - before.length = l.length := by
    rw [List.length_append]
    omega
  have hend := @Cursor.isEnd_spanning before _ _ _ _ h
  rw [endAfter, if_neg (by simp [hend])]
  simp only [endOf, spanning, hlength, List.append_nil, Location.after_append h.lineFeed_not_mem]

/-! ## The end of a text -/

/-- A token `last` may have come before the text; what counts is that the end of the input behind it
is made up right. -/
theorem Tiled.endAfter_getLast? {before text : List Char} {ts : List Token}
    (h : Tiled before text ts) (hlast : ∀ c ∈ text.getLast?, c ∉ blankChars) (last : Option Token)
    (hbefore : Token.endAfter last = .endOf before) :
    Token.endAfter (ts.getLast?.or last) = .endOf (before ++ text) := by
  induction h generalizing last with
  | @blanks before w hw =>
    rcases List.eq_nil_or_concat w with rfl | ⟨w, c, rfl⟩
    · rw [List.append_nil]
      exact hbefore
    · exact absurd (hw c (by simp)) (hlast c (by simp))
  | @token before w l rest kind value ts _ hl _ ih =>
    have hrest : ∀ c ∈ rest.getLast?, c ∉ blankChars := by
      intro c hc
      refine hlast c ?_
      rw [Option.mem_def] at hc ⊢
      rw [← List.append_assoc, List.getLast?_append, hc]
      rfl
    have hlater := ih hrest (some (.spanning (before ++ w) l kind value))
      (Token.endAfter_spanning hl)
    rw [List.append_assoc, List.append_assoc] at hlater
    rw [List.getLast?_cons, ← hlater]
    cases ts.getLast? <;> rfl

namespace Reader

theorem sight_start (items : List (Option Token)) :
    (ofSupply (.ofItems items)).sight = realTokens items ++ [NordLang.endOf items] := by
  rw [← (tracks_ofItems items).sight, List.nil_append]

/-- With and without the end of the input the same is in sight. -/
theorem sight_without_end {text : List Char} {ts : List Token} (h : Tiled [] text ts)
    (hlast : ∀ c ∈ text.getLast?, c ∉ blankChars) :
    (ofSupply (.ofTokens ts)).sight = (ofSupply (.ofTokens (ts ++ [.endOf text]))).sight := by
  have hends := h.isEnd_eq_false
  have hmade := h.endAfter_getLast? hlast none rfl
  rw [Option.or_none, List.nil_append] at hmade
  have hwithout : NordLang.endOf (ts.map some) = .endOf text := by
    rw [NordLang.endOf, endIn?_map_some hends, realTokens_map_some hends]
    exact hmade
  have hwith : NordLang.endOf ((ts ++ [Token.endOf text]).map some) = .endOf text := by
    rw [NordLang.endOf, endIn?_map_some_append_end hends rfl]
    rfl
  rw [Supply.ofTokens, Supply.ofTokens, sight_start, sight_start, hwithout, hwith,
    realTokens_map_some hends, realTokens_map_some_append_end hends rfl]

end Reader

/-- The tokens of a text that is empty or does not end in a blank are parsed alike with the end of
the input and without it: to the same tree, or with the same fault about the same token. -/
theorem parse_without_end {text : List Char} {us : List Token} (h : tokenize text = .ok us)
    (hlast : ∀ c ∈ text.getLast?, isBlank c = false) :
    (Supply.ofTokens (us.filter (!·.isEnd))).parse = (Supply.ofTokens us).parse := by
  obtain ⟨ts, hts, rfl⟩ := tokenize_eq_ok.1 h
  have hblank : ∀ c ∈ text.getLast?, c ∉ blankChars := by
    intro c hc hmem
    have hnot := hlast c hc
    rw [isBlank_iff.2 hmem] at hnot
    cases hnot
  rw [hts.filter_isEnd]
  exact (Reader.reliable_parse.alike _ _ rfl rfl (Reader.sight_without_end hts hblank)).1

/-- An operand is missing on the second line, behind a string with an escape. -/
theorem parse_without_end_addition :
    let text : List Char := ['\n', '"', '\\', 'n', '"', '+']
    let us : List Token := [⟨.string, .text "\n", ⟨2, 1⟩, 1, 5⟩, ⟨.plus, .text "+", ⟨2, 5⟩, 5, 6⟩,
      ⟨.endOfInput, .text "", ⟨2, 6⟩, 6, 6⟩]
    tokenize text = .ok us ∧ (∀ c ∈ text.getLast?, isBlank c = false) ∧
      (Supply.ofTokens (us.filter (!·.isEnd))).parse =
        .error (.expected "expression" ⟨.endOfInput, .text "", ⟨2, 6⟩, 6, 6⟩) := by
  intro text us
  have hus : tokenize text = .ok us := by with_unfolding_all rfl
  have hlast : ∀ c ∈ text.getLast?, isBlank c = false := by
    intro c hc
    obtain rfl : '+' = c := Option.some.inj hc
    rfl
  have hparse : (Supply.ofTokens us).parse =
      .error (.expected "expression" ⟨.endOfInput, .text "", ⟨2, 6⟩, 6, 6⟩) := by
    with_unfolding_all rfl
  exact ⟨hus, hlast, (parse_without_end hus hlast).trans hparse⟩

end NordLang

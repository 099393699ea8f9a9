import NordLang.Proofs.Lexing.Tiling

/-!
# Places by offset

A cursor counts lines and columns as it moves.  They are nevertheless a function of its offset,
`Location.ofOffset`, however it got there: character by character, past the end of the text, through
readers that were started on characters they are not meant for or broke off inside a token, or
through several scanners that share it.  Up to the end of the text this is the place behind what
comes before, `Location.after` (`Location.ofOffset_of_le`).

* `Cursor.Placed` ties a cursor to its text.  `Placed.advance` is the one step that all movement is
  made of.
* `Cursor.Reads` is what a reader keeps: it stops at a placed cursor, and the token or fault it comes
  back with has the place of its own start.
* `Scanners` are a cursor with the scanners over it, and `Scanners.Step` what can be done with them.
  `Step.placed` says what one step keeps and `places_of_runAll` what a whole run keeps.
-/

namespace NordLang

/-! ## The place of an offset -/

/-- The index of the last line feed of a text, or -1 if there is none. -/
def lastLineFeed (text : List Char) : Int :=
  match text.reverse.idxOf? '\n' with
  | some i => text.length - 1 - i
  | none => -1

/-- The place of an offset in a text: one line more than the line feeds before it, and as many
columns as it is away from the last of them.  The offset may lie past the end. -/
def Location.ofOffset (text : List Char) (offset : Nat) : Location :=
  ⟨1 + (text.take offset).count '\n', offset - lastLineFeed (text.take offset)⟩

/-- The characters before the first line feed are those up to its index, or all of them. -/
theorem idxOf?_lineFeed (text : List Char) :
    (text.idxOf? '\n').getD text.length = (text.takeWhile (· != '\n')).length := by
  induction text with
  | nil => rfl
  | cons c text ih =>
    by_cases hc : c = '\n'
    · simp [List.idxOf?_cons, hc]
    · rcases hindex : text.idxOf? '\n' with _ | i
      · rw [hindex] at ih
        simpa [List.idxOf?_cons, hc, hindex] using ih
      · rw [hindex] at ih
        simpa [List.idxOf?_cons, hc, hindex] using ih

/-- Up to the end of the text the place of an offset is that behind the text before it. -/
theorem Location.ofOffset_of_le {text : List Char} {offset : Nat} (h : offset ≤ text.length) :
    Location.ofOffset text offset = .after (text.take offset) := by
  have hlength : (text.take offset).length = offset := List.length_take_of_le h
  have hindex := idxOf?_lineFeed (text.take offset).reverse
  rw [List.length_reverse, hlength] at hindex
  rw [ofOffset, after, lastLineFeed, ← hindex, hlength, Location.mk.injEq]
  refine ⟨by omega, ?_⟩
  rcases (text.take offset).reverse.idxOf? '\n' with _ | i
  · simp only [Option.getD_none]
    omega
  · simp only [Option.getD_some]
    omega

/-- A token has the place of its start. -/
def Token.LocatedIn (text : List Char) (t : Token) : Prop :=
  ∃ start : Nat, t.start = start ∧ t.loc = .ofOffset text start

/-- A fault that leads to a diagnostic has the place of the start of the text at fault. -/
def LexicalFault.LocatedIn (text : List Char) (f : LexicalFault) : Prop :=
  ∀ d, f.diagnostic? = some d →
    ∃ (start : Nat) (stop : Int) (lexeme : String),
      d.detail = .lexical start stop lexeme ∧ d.loc = .ofOffset text start

namespace Cursor

/-! ## Moving forward -/

/-- The cursor stands in the text, at the place of its offset. -/
structure Placed (text : List Char) (c : Cursor) : Prop where
  rest : c.rest = text.drop c.offset
  loc : c.loc = .ofOffset text c.offset

theorem placed_ofText (text : List Char) : (ofText text).Placed text :=
  ⟨rfl, rfl⟩

variable {text : List Char} {c : Cursor}

theorem placed_behind (before rest : List Char) : (behind before rest).Placed (before ++ rest) := by
  refine ⟨(List.drop_left).symm, ?_⟩
  rw [behind, Location.ofOffset_of_le (by simp), List.take_left]
  rfl

/-- Before the end of the text a placed cursor is the one behind what comes before it. -/
theorem Placed.exists_behind {ch : Char} {rest : List Char} (h : c.Placed text)
    (hrest : c.rest = ch :: rest) :
    ∃ before, text = before ++ ch :: rest ∧ c = behind before (ch :: rest) := by
  have hdrop : text.drop c.offset = ch :: rest := h.rest.symm.trans hrest
  have hle : c.offset ≤ text.length := by
    have hlength := congrArg List.length hdrop
    rw [List.length_drop, List.length_cons] at hlength
    omega
  refine ⟨text.take c.offset, by rw [← hdrop, List.take_append_drop], ?_⟩
  have hloc := h.loc
  rw [Location.ofOffset_of_le hle] at hloc
  simp only [Cursor.loc, Location.after, Location.mk.injEq, Int.natCast_inj] at hloc
  simp only [behind, ← hrest, List.length_take_of_le hle, ← hloc.1, ← hloc.2]

theorem Placed.advance (h : c.Placed text) : c.advance.Placed text := by
  cases hrest : c.rest with
  | nil =>
    -- Past the end nothing new comes before the cursor.
    have hlength : text.length ≤ c.offset := List.drop_eq_nil_iff.1 (h.rest.symm.trans hrest)
    have htake : text.take (c.offset + 1) = text.take c.offset := by
      rw [List.take_of_length_le hlength, List.take_of_length_le (by omega)]
    have hloc := h.loc
    simp only [Cursor.loc, Location.ofOffset, Location.mk.injEq] at hloc
    rw [Cursor.advance, hrest]
    refine ⟨(List.drop_of_length_le (by show text.length ≤ c.offset + 1; omega)).symm, ?_⟩
    simp only [Cursor.loc, Location.ofOffset, htake, Location.mk.injEq]
    omega
  | cons ch rest =>
    obtain ⟨before, rfl, hc⟩ := h.exists_behind hrest
    rw [hc, advance_behind, List.append_cons]
    exact placed_behind (before ++ [ch]) rest

theorem Placed.advanceBy (h : c.Placed text) (n : Nat) : (advanceBy n c).Placed text := by
  induction n generalizing c with
  | zero => exact h
  | succ n ih => exact ih h.advance

/-! ## Readers -/

/-- What a reader returns is located, and it stops at a placed cursor. -/
structure Reads (text : List Char) (result : Except LexicalFault Token × Cursor) : Prop where
  stop : result.2.Placed text
  token : ∀ t, result.1 = .ok t → t.LocatedIn text
  fault : ∀ f, result.1 = .error f → f.LocatedIn text

theorem Placed.token (h : c.Placed text) (stop : Cursor) (kind : TokenKind) (value : Scalar) :
    (c.token stop kind value).LocatedIn text :=
  ⟨c.offset, rfl, h.loc⟩

theorem reads_ok {t : Token} {stop : Cursor} (hstop : stop.Placed text) (ht : t.LocatedIn text) :
    Reads text (.ok t, stop) := by
  refine ⟨hstop, ?_, ?_⟩
  · intro u hu
    cases hu
    exact ht
  · intro f hf
    cases hf

theorem reads_error {f : LexicalFault} {stop : Cursor} (hstop : stop.Placed text)
    (hf : f.LocatedIn text) : Reads text (.error f, stop) := by
  refine ⟨hstop, ?_, ?_⟩
  · intro t ht
    cases ht
  · intro g hg
    cases hg
    exact hf

/-- A fault whose diagnostic is about the text from a placed cursor on. -/
theorem Placed.fault (h : c.Placed text) {f : LexicalFault} {sentence lexeme : String} {stop : Int}
    (hf : f.diagnostic? = some ⟨sentence, c.loc, .lexical c.offset stop lexeme⟩) :
    f.LocatedIn text := by
  intro d hd
  rw [hf] at hd
  cases hd
  exact ⟨c.offset, stop, lexeme, rfl, h.loc⟩

theorem Placed.readSymbol (h : c.Placed text) (kind : TokenKind) (length : Nat) :
    Reads text (.ok (c.readSymbol kind length).1, (c.readSymbol kind length).2) :=
  reads_ok (h.advanceBy length) (h.token _ _ _)

theorem Placed.readWord (h : c.Placed text) :
    Reads text (.ok c.readWord.1, c.readWord.2) :=
  reads_ok (h.advanceBy _) (h.token _ _ _)

theorem Placed.readString (h : c.Placed text) : Reads text c.readString := by
  unfold Cursor.readString
  split
  · exact reads_ok (h.advanceBy _) (h.token _ _ _)
  · exact reads_error (h.advanceBy _) (h.fault rfl)
  · -- The diagnostic is about the escape, which starts inside the literal.
    next length code _ =>
    have hescape := h.advanceBy (length + 1)
    exact reads_error hescape.advance (hescape.fault rfl)

theorem Placed.readInteger (h : c.Placed text) : Reads text c.readInteger := by
  have hstop := h.advanceBy (c.rest.takeWhile Char.isDigit).length
  unfold Cursor.readInteger
  dsimp only
  split
  · exact reads_error hstop (fun d hd => by cases hd)
  · split
    · exact reads_error hstop (fun d hd => by cases hd)
    · split
      · exact reads_error hstop (h.fault rfl)
      · exact reads_ok hstop (h.token _ _ _)

theorem Placed.readToken (h : c.Placed text) : Reads text c.readToken := by
  unfold Cursor.readToken
  split
  · exact reads_ok h (h.token _ _ _)
  · split
    · exact h.readString
    · split
      · exact h.readInteger
      · split
        · exact h.readWord
        · split
          · exact h.readSymbol _ _
          · exact reads_error h (h.fault rfl)

theorem Placed.next (h : c.Placed text) : Reads text c.next :=
  (h.advanceBy _).readToken

/-- A scan, also one that starts inside the text or ends in a fault. -/
theorem Placed.scan (h : c.Placed text) :
    c.scan.stop.Placed text ∧ (∀ t ∈ c.scan.tokens, t.LocatedIn text) ∧
      ∀ f, c.scan.fault = some f → f.LocatedIn text := by
  fun_induction Cursor.scan c with
  | case1 c fault stop hnext =>
    have hreads := h.next
    rw [hnext] at hreads
    refine ⟨hreads.stop, by simp, ?_⟩
    intro f hf
    cases hf
    exact hreads.fault _ rfl
  | case2 c token stop hnext hend =>
    have hreads := h.next
    rw [hnext] at hreads
    refine ⟨hreads.stop, ?_, by simp⟩
    simpa using hreads.token _ rfl
  | case3 c token stop hnext hend _ later ih =>
    have hreads := h.next
    rw [hnext] at hreads
    obtain ⟨hstop, htokens, hfault⟩ := ih hreads.stop
    exact ⟨hstop, List.forall_mem_cons.2 ⟨hreads.token _ rfl, htokens⟩, hfault⟩

end Cursor

/-! ## Scanners that share a cursor -/

/-- A cursor with any number of scanners over it, and which of them have finished. -/
structure Scanners where
  cursor : Cursor
  finished : Nat → Bool

namespace Scanners

def ofText (text : List Char) : Scanners :=
  ⟨.ofText text, fun _ => false⟩

/-- What can be done with a text: single characters, the next token of a scanner, a fresh scanner in
the place of one, all tokens from here on, and each of the readers. -/
inductive Step where
  | current
  | peek
  | advance
  | next (scanner : Nat)
  | restart (scanner : Nat)
  | tokenize
  | readString
  | readInteger
  | readWord
  | readSymbol (kind : TokenKind) (length : Int)

/-- What a step returns. -/
inductive Answer where
  | char (c : Option Char)
  | token (t : Option Token)
  | tokens (ts : List Token)
  | nothing

def Answer.all : Answer → List Token
  | token t => t.toList
  | tokens ts => ts
  | char _ | nothing => []

/-- A step that is the work of a reader at the cursor. -/
def reading (s : Scanners) (result : Except LexicalFault Token × Cursor) :
    Except LexicalFault Answer × Scanners :=
  (result.1.map (fun t => .token (some t)), { s with cursor := result.2 })

def setFinished (s : Scanners) (i : Nat) (finished : Bool) : Scanners :=
  { s with finished := fun j => if j = i then finished else s.finished j }

def Step.run (s : Scanners) : Step → Except LexicalFault Answer × Scanners
  | current => (.ok (.char s.cursor.current?), s)
  | peek => (.ok (.char s.cursor.peek?), s)
  | advance => (.ok (.char s.cursor.current?), { s with cursor := s.cursor.advance })
  | next i =>
    let (result, scanner) := Scanner.next ⟨s.cursor, s.finished i⟩
    (result.map .token, { s with cursor := scanner.cursor }.setFinished i scanner.finished)
  | restart i => (.ok .nothing, s.setFinished i false)
  | tokenize =>
    let scan := s.cursor.scan
    (scan.toExcept.map .tokens, { s with cursor := scan.stop })
  | readString => s.reading s.cursor.readString
  | readInteger => s.reading s.cursor.readInteger
  | readWord => s.reading (.ok s.cursor.readWord.1, s.cursor.readWord.2)
  | readSymbol kind length =>
    let (token, stop) := s.cursor.readSymbol kind length.toNat
    s.reading (.ok token, stop)

/-- The results of steps one after another, and what they lead to.  A fault does not end the run. -/
def runAll : List Step → Scanners → List (Except LexicalFault Answer) × Scanners
  | [], s => ([], s)
  | step :: steps, s =>
    let (result, s) := step.run s
    let (results, s) := runAll steps s
    (result :: results, s)

/-- Every token that is returned and every fault that is met has the place of its own start. -/
def Located (text : List Char) : Except LexicalFault Answer → Prop
  | .ok answer => ∀ t ∈ answer.all, t.LocatedIn text
  | .error f => f.LocatedIn text

theorem placed_reading {text : List Char} {s : Scanners}
    {result : Except LexicalFault Token × Cursor} (h : Cursor.Reads text result) :
    (s.reading result).2.cursor.Placed text ∧ Located text (s.reading result).1 := by
  obtain ⟨fault | token, stop⟩ := result
  · exact ⟨h.stop, h.fault fault rfl⟩
  · refine ⟨h.stop, ?_⟩
    show ∀ t ∈ [token], t.LocatedIn text
    simpa using h.token token rfl

/-- One step keeps the cursor placed, and what it returns is located. -/
theorem Step.placed {text : List Char} {s : Scanners} (h : s.cursor.Placed text) (step : Step) :
    (step.run s).2.cursor.Placed text ∧ Located text (step.run s).1 := by
  have hnone : ∀ t ∈ ([] : List Token), t.LocatedIn text := by simp
  cases step with
  | current => exact ⟨h, hnone⟩
  | peek => exact ⟨h, hnone⟩
  | advance => exact ⟨h.advance, hnone⟩
  | restart i => exact ⟨h, hnone⟩
  | next i =>
    rcases hfinished : s.finished i with _ | _
    · have hreads := h.next
      rcases hnext : s.cursor.next with ⟨fault | token, stop⟩
      · rw [hnext] at hreads
        simp only [Step.run, Scanner.next, hfinished, hnext]
        exact ⟨hreads.stop, hreads.fault fault rfl⟩
      · rw [hnext] at hreads
        simp only [Step.run, Scanner.next, hfinished, hnext]
        refine ⟨hreads.stop, ?_⟩
        show ∀ t ∈ [token], t.LocatedIn text
        simpa using hreads.token token rfl
    · simp only [Step.run, Scanner.next, hfinished]
      exact ⟨h, hnone⟩
  | tokenize =>
    obtain ⟨hstop, htokens, hfault⟩ := h.scan
    refine ⟨hstop, ?_⟩
    simp only [Step.run, Scan.toExcept]
    rcases hscan : s.cursor.scan.fault with _ | fault
    · exact htokens
    · exact hfault fault hscan
  | readString => exact placed_reading h.readString
  | readInteger => exact placed_reading h.readInteger
  | readWord => exact placed_reading h.readWord
  | readSymbol kind length => exact placed_reading (h.readSymbol kind length.toNat)

theorem placed_runAll {text : List Char} {s : Scanners} (h : s.cursor.Placed text)
    (steps : List Step) :
    (runAll steps s).2.cursor.Placed text ∧ ∀ result ∈ (runAll steps s).1, Located text result := by
  induction steps generalizing s with
  | nil => exact ⟨h, by simp [runAll]⟩
  | cons step steps ih =>
    obtain ⟨hcursor, hresult⟩ := step.placed h
    obtain ⟨hlast, hresults⟩ := ih hcursor
    exact ⟨hlast, List.forall_mem_cons.2 ⟨hresult, hresults⟩⟩

/-- Whatever is done with a text, line and column of the cursor are those of its offset, and so are
those of every token and every diagnostic for the offset at which they start. -/
theorem places_of_runAll (text : List Char) (steps : List Step) :
    (runAll steps (ofText text)).2.cursor.loc =
      .ofOffset text (runAll steps (ofText text)).2.cursor.offset ∧
    ∀ result ∈ (runAll steps (ofText text)).1, Located text result := by
  have hstart : (ofText text).cursor.Placed text := Cursor.placed_ofText text
  obtain ⟨hcursor, hresults⟩ := placed_runAll hstart steps
  exact ⟨hcursor.loc, hresults⟩

end Scanners

end NordLang

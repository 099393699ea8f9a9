import NordLang.Token.Supply

/-!
# Reading tokens with lookahead

A reader is a queue between a supply of tokens and the grammar.  It holds the tokens that were pulled
and not yet consumed, the last one consumed, and whether the supply has ended.  It never goes back.

Once the supply has ended, the end of the input is made up as often as it is asked for, right after
the last token seen.  It is never consumed.

* `fill` makes tokens available, `current` shows the next one, `advance` consumes it.
* `expect` and `accept` consume the next token only if it is of a given kind.
* `remaining` counts the tokens that are still to be consumed.  No step makes it larger, and
  consuming a token makes it smaller (`remaining_consume_lt`).
-/

namespace NordLang

/-- Why the tokens form no expression. -/
inductive ParseFault where
  | lexical (fault : LexicalFault)
  | expected (what : String) (found : Token)
  | trailing (found : Token)
  deriving DecidableEq, Repr

namespace ParseFault

def diagnostic? : ParseFault → Option Diagnostic
  | lexical fault => fault.diagnostic?
  | expected what found =>
    let text :=
      if found.isEnd then s!"Unexpected end of input, expected {what}"
      else s!"Expected {what} but got {found.describe}"
    some (.ofToken text (some found))
  | trailing found =>
    some (.ofToken s!"Unexpected token {found.describe} after expression" (some found))

def message (f : ParseFault) : String :=
  match f with
  | lexical fault => fault.message
  | _ => (f.diagnostic?.map Diagnostic.message).getD ""

end ParseFault

structure Reader where
  ahead : List Token
  last : Option Token
  exhausted : Bool
  supply : Supply
  deriving DecidableEq, Repr

namespace Reader

def ofSupply (supply : Supply) : Reader :=
  ⟨[], none, false, supply⟩

/-- The end of the input as it stands after what has been seen. -/
def endToken (r : Reader) : Token :=
  Token.endAfter (r.ahead.getLast?.or r.last)

/-- Adds the end of the input `n` times. -/
def pad (n : Nat) (r : Reader) : Reader :=
  { r with ahead := r.ahead ++ List.replicate n r.endToken }

/-- Makes `n` more tokens available. -/
def fillMore : Nat → Reader → Except ParseFault Unit × Reader
  | 0, r => (.ok (), r)
  | n + 1, r =>
    if r.exhausted then (.ok (), r.pad (n + 1))
    else
      match r.supply.pull with
      | (.token t, supply) =>
        fillMore n { r with ahead := r.ahead ++ [t], exhausted := t.isEnd, supply }
      | (.ended, supply) => (.ok (), ({ r with exhausted := true, supply } : Reader).pad (n + 1))
      | (.fault fault, supply) => (.error (.lexical fault), { r with supply })

/-- Makes at least `n` tokens available. -/
def fill (n : Nat) (r : Reader) : Except ParseFault Unit × Reader :=
  fillMore (n - r.ahead.length) r

/-- The next token. -/
def current (r : Reader) : Except ParseFault Token × Reader :=
  match r.fill 1 with
  | (.error fault, r) => (.error fault, r)
  | (.ok (), r) => (.ok (r.ahead.headD r.endToken), r)

/-- Takes the next token, which is `t`, off the queue, unless it is the end of the input. -/
def consume (t : Token) (r : Reader) : Reader :=
  if t.isEnd then r else { r with ahead := r.ahead.tail, last := some t }

def advance (r : Reader) : Except ParseFault Token × Reader :=
  match r.current with
  | (.error fault, r) => (.error fault, r)
  | (.ok t, r) => (.ok t, r.consume t)

/-- Consumes the next token if it is of the given kind.  A fault names what was expected, which is
the name of the kind if `what` is empty. -/
def expect (kind : TokenKind) (what : String) (r : Reader) : Except ParseFault Token × Reader :=
  match r.current with
  | (.error fault, r) => (.error fault, r)
  | (.ok t, r) =>
    if t.kind = kind then (.ok t, r.consume t)
    else (.error (.expected (if what = "" then kind.name else what) t), r)

/-- Consumes the next token if it is of one of the given kinds. -/
def accept (kinds : List TokenKind) (r : Reader) : Except ParseFault (Option Token) × Reader :=
  match r.current with
  | (.error fault, r) => (.error fault, r)
  | (.ok t, r) => if t.kind ∈ kinds then (.ok (some t), r.consume t) else (.ok none, r)

def atEnd (r : Reader) : Except ParseFault Bool × Reader :=
  match r.current with
  | (.error fault, r) => (.error fault, r)
  | (.ok t, r) => (.ok t.isEnd, r)

/-! ## The tokens that remain -/

/-- How many tokens are still to be consumed at most. -/
def remaining (r : Reader) : Nat :=
  r.ahead.countP (fun t => !t.isEnd) + r.supply.items.length

@[simp] theorem isEnd_endAfter (t : Option Token) : (Token.endAfter t).isEnd = true := by
  unfold Token.endAfter
  split
  · rfl
  · split
    · assumption
    · rfl

@[simp] theorem remaining_pad (n : Nat) (r : Reader) : (r.pad n).remaining = r.remaining := by
  simp [pad, remaining, endToken, List.countP_replicate]

theorem remaining_fillMore_le (n : Nat) (r : Reader) :
    (fillMore n r).2.remaining ≤ r.remaining := by
  induction n generalizing r with
  | zero => exact Nat.le_refl _
  | succ n ih =>
    unfold fillMore
    split
    · exact Nat.le_of_eq (remaining_pad _ _)
    · unfold Supply.pull
      rcases hitems : r.supply.items with _ | ⟨_ | t, items⟩
      · rcases hfault : r.supply.fault with _ | fault
        · refine Nat.le_trans (Nat.le_of_eq (remaining_pad _ _)) ?_
          simp [remaining, hitems]
        · simp [remaining, hitems]
      · refine Nat.le_trans (Nat.le_of_eq (remaining_pad _ _)) ?_
        simp [remaining, hitems]
      · refine Nat.le_trans (ih _) ?_
        simp only [remaining, hitems, List.countP_append, List.countP_cons, List.countP_nil,
          List.length_cons]
        split <;> omega

theorem length_ahead_fillMore {n : Nat} {r r' : Reader} (h : fillMore n r = (.ok (), r')) :
    n ≤ r'.ahead.length := by
  suffices hlength : r.ahead.length + n ≤ r'.ahead.length by omega
  induction n generalizing r with
  | zero =>
    cases h
    exact Nat.le_refl _
  | succ n ih =>
    unfold fillMore at h
    split at h
    · cases h
      simp [pad]
    · split at h
      · have := ih h
        simp only [List.length_append, List.length_cons, List.length_nil] at this
        omega
      · cases h
        simp [pad]
      · cases h

theorem remaining_current_le {r r' : Reader} {t : Token} (h : r.current = (.ok t, r')) :
    r'.remaining ≤ r.remaining := by
  unfold current at h
  split at h
  · cases h
  · next r₁ hfill =>
    cases h
    have := remaining_fillMore_le (1 - r.ahead.length) r
    rw [← fill, hfill] at this
    exact this

/-- The next token stands at the head of the queue. -/
theorem ahead_current {r r' : Reader} {t : Token} (h : r.current = (.ok t, r')) :
    ∃ ts, r'.ahead = t :: ts := by
  unfold current at h
  split at h
  · cases h
  · next r₁ hfill =>
    cases h
    rcases hahead : r'.ahead with _ | ⟨t, ts⟩
    · rcases hold : r.ahead with _ | ⟨t, ts⟩
      · have := length_ahead_fillMore hfill
        simp [hold, hahead] at this
      · simp only [fill, hold, List.length_cons, Nat.le_add_left, Nat.sub_eq_zero_of_le, fillMore]
          at hfill
        cases hfill
        simp [hold] at hahead
    · exact ⟨ts, rfl⟩

/-- Consuming a token leaves fewer. -/
theorem remaining_consume_lt {r r' : Reader} {t : Token} (h : r.current = (.ok t, r'))
    (hend : t.kind ≠ .endOfInput) : (r'.consume t).remaining < r.remaining := by
  have hle := remaining_current_le h
  obtain ⟨ts, hahead⟩ := ahead_current h
  have hisEnd : t.isEnd = false := by simpa [Token.isEnd] using hend
  simp only [remaining, hahead, List.countP_cons, hisEnd] at hle
  simp only [consume, hisEnd, remaining, hahead]
  simp at hle ⊢
  omega

end Reader

end NordLang

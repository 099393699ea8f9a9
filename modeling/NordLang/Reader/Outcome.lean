import NordLang.Reader

/-!
# Outcomes of reading

An outcome is a value with the reader after it, or a fault with the reader where it was met.  A
success also carries that fewer than `bound` tokens remain, so that whoever goes on reading knows
how far the reader has come.  This is what makes the grammar's loops and recursions end.

* `look` shows the next token and `require` consumes one of a given kind.
* `ifNext` consumes the next token if it is one of those asked for.
-/

namespace NordLang

inductive Outcome (bound : Nat) (α : Type) where
  | done (value : α) (reader : Reader) (lt : reader.remaining < bound)
  | failed (fault : ParseFault) (reader : Reader)

namespace Outcome

variable {α β : Type} {m n : Nat}

/-- Goes on with the value and the reader after it. -/
def andThen (o : Outcome m α)
    (f : α → (r : Reader) → r.remaining < m → Outcome n β) : Outcome n β :=
  match o with
  | done value r h => f value r h
  | failed fault r => failed fault r

/-- The same outcome under a larger bound. -/
def mono (h : m ≤ n) : Outcome m α → Outcome n α
  | done value r hr => done value r (Nat.lt_of_lt_of_le hr h)
  | failed fault r => failed fault r

/-- The outcome without the bound. -/
def result : Outcome n α → Except ParseFault α × Reader
  | done value r _ => (.ok value, r)
  | failed fault r => (.error fault, r)

end Outcome

namespace Reader

variable {α β : Type} {n : Nat}

/-- Shows the next token. -/
def look (r : Reader) : Outcome (r.remaining + 1) Token :=
  match h : r.current with
  | (.error fault, r') => .failed fault r'
  | (.ok t, r') => .done t r' (Nat.lt_succ_of_le (remaining_current_le h))

/-- Goes on with `yes` past the next token if `f` takes its kind, and with `no` otherwise. -/
def ifNext (f : TokenKind → Option α) (hf : f .endOfInput = none) (r : Reader)
    (yes : α → Token → (r' : Reader) → r'.remaining < r.remaining → Outcome n β)
    (no : (r' : Reader) → r'.remaining ≤ r.remaining → Outcome n β) : Outcome n β :=
  match h : r.current with
  | (.error fault, r') => .failed fault r'
  | (.ok t, r') =>
    match ha : f t.kind with
    | some a =>
      yes a t (r'.consume t)
        (remaining_consume_lt h fun hend => by rw [hend, hf] at ha; cases ha)
    | none => no r' (remaining_current_le h)

/-- Consumes a token of the given kind, which is not the end of the input. -/
def require (kind : TokenKind) (what : String) (r : Reader)
    (hkind : kind ≠ .endOfInput := by decide) : Outcome r.remaining Token :=
  match h : r.current with
  | (.error fault, r') => .failed fault r'
  | (.ok t, r') =>
    if ht : t.kind = kind then
      .done t (r'.consume t) (remaining_consume_lt h (ht ▸ hkind))
    else .failed (.expected (if what = "" then kind.name else what) t) r'

theorem result_require (kind : TokenKind) (what : String) (r : Reader)
    (hkind : kind ≠ .endOfInput) :
    (r.require kind what hkind).result = r.expect kind what := by
  unfold require
  split
  · next fault r' h => simp [Outcome.result, expect, h]
  · next t r' h =>
    split
    · next ht => simp [Outcome.result, expect, h, ht]
    · next ht => simp [Outcome.result, expect, h, ht]

end Reader

end NordLang

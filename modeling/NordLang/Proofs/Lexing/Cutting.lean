import Mathlib.Data.List.Forall2
import NordLang.Proofs.Lexing.Tiling

/-!
# Cutting and joining tilings

A tiling can be cut between two tokens, and two tilings can be joined where a blank follows.

* No lexeme depends on the text behind it to be one: cut off there, it is a lexeme all the more
  (`Lexeme.cut`).
* `Tiled.split` cuts a tiling at a place that is inside no token, and `Tiled.append` joins tilings.
* `Tiled.moved` puts a tiled text somewhere else.  Its tokens are the same there but for their
  places, and `Token.Moved` says by how much their offsets differ.
-/

namespace NordLang

/-! ## Lexemes -/

namespace Lexeme

variable {next : Option Char} {l : List Char} {kind : TokenKind} {value : Scalar}

theorem alone (h : Lexeme next l kind value) : Lexeme none l kind value := by
  cases h with
  | yes => exact .yes (by simp)
  | no => exact .no (by simp)
  | keyword hw => exact .keyword hw (by simp)
  | name hw => exact .name hw (by simp)
  | number hne hdigits hlength hvalue => exact .number hne hdigits hlength hvalue (by simp)
  | string hquotes => exact .string hquotes
  | symbol hkind => exact .symbol hkind (by simp)

/-- A lexeme stays one when the text behind it is cut off somewhere. -/
theorem cut {text rest : List Char} (h : Lexeme (text ++ rest).head? l kind value) :
    Lexeme text.head? l kind value := by
  cases text with
  | nil => exact h.alone
  | cons c text => exact h

/-- A lexeme stays one when the text behind it is continued by a blank. -/
theorem join {text rest : List Char} (h : Lexeme text.head? l kind value)
    (hrest : ∀ c ∈ rest.head?, c ∈ blankChars) : Lexeme (text ++ rest).head? l kind value := by
  cases text with
  | nil =>
    cases rest with
    | nil => exact h
    | cons c rest => exact h.of_blank (hrest c rfl)
  | cons c text => exact h

end Lexeme

/-! ## Tilings -/

namespace Tiled

variable {before text : List Char} {ts : List Token}

/-- The tokens of a text are inside it and not empty. -/
theorem bounds (h : Tiled before text ts) :
    ∀ t ∈ ts, before.length ≤ t.start ∧ t.start < t.stop ∧ t.stop ≤ (before ++ text).length := by
  induction h with
  | blanks => simp
  | @token before w l rest kind value ts _ hl _ ih =>
    obtain ⟨c, cs, rfl, _⟩ := hl.head
    refine List.forall_mem_cons.2 ⟨?_, fun t ht => ?_⟩
    · simp only [Token.spanning, List.length_append, List.length_cons]
      omega
    · have := ih t ht
      simp only [List.length_append, List.length_cons] at this ⊢
      omega

/-- Blanks in front of a text change none of its tokens. -/
theorem prepend_blanks {w : List Char} (hw : ∀ c ∈ w, c ∈ blankChars)
    (h : Tiled (before ++ w) text ts) : Tiled before (w ++ text) ts := by
  cases h with
  | blanks hv => exact .blanks (List.forall_mem_append.2 ⟨hw, hv⟩)
  | @token _ v l rest kind value ts hv hl later =>
    rw [List.append_assoc before w v] at later ⊢
    rw [← List.append_assoc w v]
    exact .token (List.forall_mem_append.2 ⟨hw, hv⟩) hl later

/-- A tiling and one behind it that starts with a blank. -/
theorem append {text' : List Char} {ts' : List Token} (h : Tiled before text ts)
    (h' : Tiled (before ++ text) text' ts') (hblank : ∀ c ∈ text'.head?, c ∈ blankChars) :
    Tiled before (text ++ text') (ts ++ ts') := by
  induction h with
  | blanks hw => exact h'.prepend_blanks hw
  | @token before w l rest kind value ts hw hl _ ih =>
    rw [List.append_assoc, List.append_assoc]
    refine .token hw (hl.join hblank) (ih ?_)
    simpa only [List.append_assoc] using h'

/-- Blanks behind a text change none of its tokens either. -/
theorem append_blanks {w : List Char} (h : Tiled before text ts) (hw : ∀ c ∈ w, c ∈ blankChars) :
    Tiled before (text ++ w) ts := by
  have := h.append (.blanks hw) fun c hc => hw c (List.mem_of_head? hc)
  rwa [List.append_nil] at this

/-- A tiling can be cut at a place that is inside no token. -/
theorem split {x y : List Char} (h : Tiled before (x ++ y) ts)
    (hcut : ∀ t ∈ ts, ¬ (t.start < (before ++ x).length ∧ (before ++ x).length < t.stop)) :
    ∃ us vs, ts = us ++ vs ∧ Tiled before x us ∧ Tiled (before ++ x) y vs := by
  generalize htext : x ++ y = text at h
  induction h generalizing x with
  | @blanks before w hw =>
    rw [← htext, List.forall_mem_append] at hw
    exact ⟨[], [], rfl, .blanks hw.1, .blanks hw.2⟩
  | @token before w l rest kind value ts hw hl later ih =>
    have hx : x <+: w ++ (l ++ rest) := ⟨y, htext⟩
    rcases Nat.lt_or_ge w.length x.length with hlt | hle
    · -- The cut is behind the token, since it is not inside of it.
      have hle : (w ++ l).length ≤ x.length := by
        have := hcut _ List.mem_cons_self
        simp only [Token.spanning, List.length_append] at this ⊢
        omega
      have hwl : w ++ l <+: w ++ (l ++ rest) := ⟨rest, List.append_assoc ..⟩
      obtain ⟨x, rfl⟩ := List.prefix_of_prefix_length_le hwl hx hle
      rw [List.append_assoc, List.append_assoc] at htext
      have hrest := List.append_cancel_left (List.append_cancel_left htext)
      subst hrest
      have hcut' := fun t ht => hcut t (List.mem_cons_of_mem _ ht)
      rw [← List.append_assoc, ← List.append_assoc] at hcut' ⊢
      obtain ⟨us, vs, rfl, hus, hvs⟩ := ih hcut' rfl
      refine ⟨_ :: us, vs, rfl, ?_, hvs⟩
      rw [List.append_assoc]
      exact .token hw hl.cut hus
    · -- The cut is among the blanks.
      obtain ⟨w, rfl⟩ := List.prefix_of_prefix_length_le hx ⟨_, rfl⟩ hle
      rw [List.append_assoc] at htext
      have hy := List.append_cancel_left htext
      rw [List.forall_mem_append] at hw
      rw [← List.append_assoc] at later ⊢
      refine ⟨[], _, rfl, .blanks hw.1, ?_⟩
      rw [hy]
      exact .token hw.2 hl later

end Tiled

/-! ## Moving -/

/-- The same token, further on by `n`. -/
structure Token.Moved (n : Int) (t t' : Token) : Prop where
  kind : t'.kind = t.kind
  value : t'.value = t.value
  start : t'.start = t.start + n
  stop : t'.stop = t.stop + n

/-- A tiled text is tiled anywhere. -/
theorem Tiled.moved {before text : List Char} {ts : List Token} (h : Tiled before text ts)
    (before' : List Char) : ∃ ts', Tiled before' text ts' ∧
      List.Forall₂ (Token.Moved (before'.length - before.length)) ts ts' := by
  induction h generalizing before' with
  | blanks hw => exact ⟨[], .blanks hw, .nil⟩
  | @token before w l rest kind value ts hw hl _ ih =>
    obtain ⟨ts', hts', hmoved⟩ := ih (before' ++ w ++ l)
    refine ⟨_, .token hw hl hts', .cons ⟨rfl, rfl, ?_, ?_⟩ ?_⟩
    · simp only [Token.spanning, List.length_append]
      omega
    · simp only [Token.spanning, List.length_append]
      omega
    · have hdistance : ((before' ++ w ++ l).length - (before ++ w ++ l).length : Int) =
          before'.length - before.length := by
        simp only [List.length_append]
        omega
      rwa [hdistance] at hmoved

end NordLang

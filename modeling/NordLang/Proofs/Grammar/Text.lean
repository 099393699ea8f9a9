import NordLang.Proofs.Grammar.Recognition
import NordLang.Proofs.Lexing.Tiling

/-!
# Parsing texts

A text is parsed to a tree exactly if it falls into lexemes whose tokens derive the tree
(`parseText_eq_ok`).
-/

namespace NordLang

open Cursor

/-- No end of the input is read before a fault. -/
theorem openEnded_scan {c : Cursor} {fault : LexicalFault} (h : c.scan.fault = some fault) :
    openEnded (c.scan.tokens.map some) = true := by
  fun_induction scan c with
  | case1 => rfl
  | case2 => cases h
  | case3 c token stop _ hend _ later ih =>
    simp only [List.map_cons, openEnded, Bool.and_eq_true, Bool.not_eq_true']
    exact ⟨by simpa using hend, ih h⟩

theorem Tiled.isEnd_eq_false {before text : List Char} {ts : List Token}
    (h : Tiled before text ts) : ∀ t ∈ ts, t.isEnd = false := by
  induction h with
  | blanks => simp
  | token _ hl _ ih => simpa [isEnd_spanning hl] using ih

/-- The end of the input is the only token of a text that is none of a lexeme. -/
theorem Tiled.filter_isEnd {text : List Char} {ts : List Token} (h : Tiled [] text ts) :
    (ts ++ [Token.endOf text]).filter (!·.isEnd) = ts := by
  have hkept : ts.filter (!·.isEnd) = ts :=
    List.filter_eq_self.2 fun t ht => by simp [h.isEnd_eq_false t ht]
  rw [List.filter_append, hkept]
  exact List.append_nil ts

/-- The reader of a tiled text has its tokens ahead. -/
theorem Tiled.shows {text : List Char} {ts : List Token} (h : Tiled [] text ts) :
    (Reader.ofSupply (.ofText text)).Shows ts none := by
  have hscan := h.scan
  constructor
  · rw [Reader.upcoming, Reader.stream]
    simp only [Reader.ofSupply, Supply.ofText, ofText_eq_behind, hscan]
    exact realTokens_map_some_append_end h.isEnd_eq_false rfl
  · simp only [Reader.faultAhead, Reader.ofSupply, Supply.ofText, ofText_eq_behind, hscan, ite_self]

theorem tiled_of_faultAhead {text : List Char}
    (h : (Reader.ofSupply (.ofText text)).faultAhead = none) : ∃ ts, Tiled [] text ts := by
  apply tiled_of_scan
  cases hfault : (behind [] text).scan.fault with
  | none => rfl
  | some fault =>
    have hopen := openEnded_scan hfault
    simp only [Reader.faultAhead, Reader.stream, Reader.ofSupply, Supply.ofText, ofText_eq_behind,
      hfault] at h
    simp [hopen] at h

theorem parseText_eq_ok {text : List Char} {t : Tree} :
    parseText text = .ok t ↔ ∃ ts, Tiled [] text ts ∧ Derives 0 ts t := by
  rw [parseText, Supply.parse, Reader.parse_eq_ok_iff]
  constructor
  · rintro ⟨hfault, h⟩
    obtain ⟨ts, hts⟩ := tiled_of_faultAhead hfault
    rw [hts.shows.upcoming] at h
    exact ⟨ts, hts, h⟩
  · rintro ⟨ts, hts, h⟩
    refine ⟨hts.shows.fault, ?_⟩
    rw [hts.shows.upcoming]
    exact h

end NordLang

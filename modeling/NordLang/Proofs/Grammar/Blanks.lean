import NordLang.Proofs.Grammar.Content
import NordLang.Proofs.Grammar.OnDemand
import NordLang.Proofs.Lexing.Cutting

/-!
# Blanks between tokens

Blanks that are put anywhere but inside a token change neither the tokens nor the tree.  The tokens
behind them are moved, and a parse that fails fails at the same token as before.

* `Tiled.insert_blanks` puts blanks into a tiled text.
* Where a parse fails depends on the contents of the tokens alone.  It is behind the longest
  beginning of them that is viable (`Reader.exists_longest_viable`), and what is viable is so with
  other tokens of the same contents as well (`Viable.of_contents`).
-/

namespace NordLang

/-! ## Tokens -/

theorem Token.moved_zero (t : Token) : t.Moved 0 t :=
  ⟨rfl, rfl, (Int.add_zero _).symm, (Int.add_zero _).symm⟩

/-- Blanks between the tokens of a text move those behind them and leave the others as they are. -/
theorem Tiled.insert_blanks {x y w : List Char} {ts : List Token} (h : Tiled [] (x ++ y) ts)
    (hcut : ∀ t ∈ ts, ¬ (t.start < x.length ∧ x.length < t.stop))
    (hw : ∀ c ∈ w, c ∈ blankChars) :
    ∃ us vs vs', ts = us ++ vs ∧ Tiled [] x us ∧ Tiled x y vs ∧
      Tiled [] (x ++ (w ++ y)) (us ++ vs') ∧ List.Forall₂ (Token.Moved w.length) vs vs' := by
  obtain ⟨us, vs, rfl, hus, hvs⟩ := h.split hcut
  cases w with
  | nil =>
    refine ⟨us, vs, vs, rfl, hus, hvs, h, ?_⟩
    exact List.forall₂_same.2 fun v _ => v.moved_zero
  | cons c w =>
    rw [List.nil_append] at hvs
    obtain ⟨vs', hvs', hmoved⟩ := hvs.moved (x ++ c :: w)
    have hblanks : Tiled x (c :: w ++ y) vs' := hvs'.prepend_blanks hw
    refine ⟨us, vs, vs', rfl, hus, hvs, hus.append hblanks ?_, ?_⟩
    · rintro _ ⟨⟩
      exact hw c List.mem_cons_self
    · have hdistance : ((x ++ c :: w).length - x.length : Int) = (c :: w).length := by
        simp only [List.length_append]
        omega
      rwa [hdistance] at hmoved

/-- How `n` blanks at offset `p` change a token: it is moved unless it ends before them.  The end of
the input is moved in any case. -/
structure Token.Widened (p n : Nat) (t t' : Token) : Prop where
  kind : t'.kind = t.kind
  value : t'.value = t.value
  kept : t.isEnd = false → t.stop ≤ p → t'.start = t.start ∧ t'.stop = t.stop
  moved : t.isEnd = true ∨ p < t.stop → t'.start = t.start + n ∧ t'.stop = t.stop + n

namespace Token

variable {p n : Nat} {t t' : Token}

theorem widened_of_stop_le (ht : t.isEnd = false) (hstop : t.stop ≤ p) : t.Widened p n t where
  kind := rfl
  value := rfl
  kept _ _ := ⟨rfl, rfl⟩
  moved h := by
    rcases h with hend | hlt
    · rw [ht] at hend
      cases hend
    · omega

theorem Moved.widened (h : t.Moved n t') (ht : t.isEnd = true ∨ p < t.stop) :
    t.Widened p n t' where
  kind := h.kind
  value := h.value
  kept hend hstop := by
    rcases ht with ht | hlt
    · rw [hend] at ht
      cases ht
    · omega
  moved _ := ⟨h.start, h.stop⟩

end Token

theorem contents_of_moved {n : Int} {ts ts' : List Token}
    (h : List.Forall₂ (Token.Moved n) ts ts') : contents ts' = contents ts := by
  induction h with
  | nil => rfl
  | cons hmoved _ ih => exact contents_cons.2 ⟨_, _, rfl, Prod.ext hmoved.kind hmoved.value, ih⟩

/-! ## Parses -/

/-- Viability is a matter of contents. -/
theorem Viable.of_contents {ts us : List Token} (h : Viable ts) (hts : ∀ u ∈ ts, u.isEnd = false)
    (hus : contents us = contents ts) : Viable us := by
  obtain ⟨vs, t, ht⟩ := h
  rw [Supply.ofTokens, Supply.parse_ofItems, List.map_append, realTokens_map_some_append hts] at ht
  have hcontents : contents (us ++ realTokens (vs.map some)) =
      contents (ts ++ realTokens (vs.map some)) :=
    contents_append.2 ⟨us, _, rfl, hus, rfl⟩
  obtain ⟨u, hu, _⟩ := ht.transfers _ hcontents
  exact ⟨_, accepted_of_derivable ⟨u, hu⟩⟩

namespace Reader

/-- A parse that fails without a lexical fault does so behind the longest beginning of the tokens
that is viable, and the fault is about the token there or the end of the input. -/
theorem exists_longest_viable {r : Reader} {ts : List Token} (h : r.Shows ts none)
    {fault : ParseFault} (hparse : r.parse.1 = .error fault) :
    ∃ k ≤ ts.length, fault.token? = r.sight[k]? ∧ Viable (ts.take k) ∧
      ∀ j, k < j → j ≤ ts.length → ¬ Viable (ts.take j) := by
  rcases hrun : r.parse with ⟨result, s⟩
  rw [hrun] at hparse
  subst hparse
  obtain ⟨t, ht⟩ := h.exists_token hrun
  obtain ⟨qs, us, hpath, hsight, hothers⟩ := parse_eq_refused hrun ht
  have hup := hpath.moves.upcoming_eq
  have hviable := viable_of_parse_eq_error hrun hup
  rw [h.upcoming] at hup
  refine ⟨qs.length, ?_, ?_, ?_, fun j hj hle => ?_⟩
  · rw [hup, List.length_append]
    omega
  · rw [ht, hsight]
    simp
  · rwa [hup, List.take_left]
  · obtain ⟨m, rfl⟩ := Nat.exists_eq_add_of_lt hj
    have htake : ts.take (qs.length + m + 1) = qs ++ t :: us.take m := by
      rw [← List.take_append_of_le_length hle, ← sight_of_shows h, hsight, Nat.add_assoc,
        List.take_length_add_append]
      rfl
    have hends : ∀ u ∈ ts.take (qs.length + m + 1), u.isEnd = false :=
      fun u hu => h.isEnd_eq_false u (List.mem_of_mem_take hu)
    rw [htake] at hends ⊢
    exact not_viable_of_refused hothers hends

/-- Of two lists with the same contents neither has the longer viable beginning. -/
theorem le_of_longest_viable {ts ts' : List Token} (hcontents : contents ts' = contents ts)
    (hts : ∀ u ∈ ts, u.isEnd = false) {k k' : Nat} (hk : k ≤ ts.length)
    (hviable : Viable (ts.take k))
    (hlongest : ∀ j, k' < j → j ≤ ts'.length → ¬ Viable (ts'.take j)) : k ≤ k' := by
  refine Nat.le_of_not_lt fun hlt => ?_
  have hlength : ts'.length = ts.length := by
    simpa only [contents, List.length_map] using congrArg List.length hcontents
  refine hlongest k hlt (by omega) ?_
  refine hviable.of_contents (fun u hu => hts u (List.mem_of_mem_take hu)) ?_
  simp only [contents, List.map_take] at hcontents ⊢
  rw [hcontents]

/-- Readers of the same contents fail at the same index. -/
theorem exists_same_index {r r' : Reader} {ts ts' : List Token} (h : r.Shows ts none)
    (h' : r'.Shows ts' none) (hcontents : contents ts' = contents ts) {fault fault' : ParseFault}
    (hparse : r.parse.1 = .error fault) (hparse' : r'.parse.1 = .error fault') :
    ∃ k ≤ ts.length, fault.token? = r.sight[k]? ∧ fault'.token? = r'.sight[k]? := by
  obtain ⟨k, hk, htoken, hviable, hlongest⟩ := exists_longest_viable h hparse
  obtain ⟨k', hk', htoken', hviable', hlongest'⟩ := exists_longest_viable h' hparse'
  have hle := le_of_longest_viable hcontents h.isEnd_eq_false hk hviable hlongest'
  have hge := le_of_longest_viable hcontents.symm h'.isEnd_eq_false hk' hviable' hlongest
  obtain rfl := Nat.le_antisymm hle hge
  exact ⟨k, hk, htoken, htoken'⟩

end Reader

/-! ## Texts -/

namespace Tiled

variable {text : List Char} {ts : List Token}

theorem sight (h : Tiled [] text ts) :
    (Reader.ofSupply (.ofText text)).sight = ts ++ [.endOf text] := by
  have hstream : (Reader.ofSupply (.ofText text)).stream =
      (ts ++ [Token.endOf text]).map some := by
    simp [Reader.stream, Reader.ofSupply, Supply.ofText, Cursor.ofText_eq_behind, h.scan]
  rw [Reader.sight_of_shows h.shows, Reader.finish, hstream,
    endIn?_map_some_append_end h.isEnd_eq_false rfl, Option.getD_some]

theorem parseText_eq_ok_iff (h : Tiled [] text ts) {t : Tree} :
    parseText text = .ok t ↔ Derives 0 ts t := by
  rw [parseText, Supply.parse, Reader.parse_eq_ok_iff, h.shows.fault, h.shows.upcoming]
  exact and_iff_right rfl

/-- Two texts whose tokens have the same contents are parsed to the same tree, or not at all and
then fail at the same index. -/
theorem parseText_of_contents {text' : List Char} {ts' : List Token} (h : Tiled [] text ts)
    (h' : Tiled [] text' ts') (hcontents : contents ts' = contents ts) :
    (∃ t t', parseText text = .ok t ∧ parseText text' = .ok t' ∧ t'.same t = true) ∨
    ∃ k fault fault', k ≤ ts.length ∧ parseText text = .error fault ∧
      parseText text' = .error fault' ∧ fault.token? = (ts ++ [.endOf text])[k]? ∧
      fault'.token? = (ts' ++ [.endOf text'])[k]? := by
  rcases hparse : parseText text with fault | t
  · rcases hparse' : parseText text' with fault' | t'
    · obtain ⟨k, hk, htoken, htoken'⟩ :=
        Reader.exists_same_index h.shows h'.shows hcontents hparse hparse'
      rw [h.sight] at htoken
      rw [h'.sight] at htoken'
      exact .inr ⟨k, fault, fault', hk, rfl, rfl, htoken, htoken'⟩
    · obtain ⟨t, ht, _⟩ := (h'.parseText_eq_ok_iff.1 hparse').transfers ts hcontents.symm
      rw [h.parseText_eq_ok_iff.2 ht] at hparse
      cases hparse
  · obtain ⟨t', ht', hsame⟩ := (h.parseText_eq_ok_iff.1 hparse).transfers ts' hcontents
    exact .inl ⟨t, t', rfl, h'.parseText_eq_ok_iff.2 ht', hsame⟩

end Tiled

/-- Blanks that are not put inside a token leave the kinds and payloads of all tokens as they are
and move those behind them.  The text is parsed to the same tree, or fails at the same token. -/
theorem tokenize_insert_blanks {text w : List Char} {us : List Token} {p : Nat}
    (h : tokenize text = .ok us) (hp : p ≤ text.length)
    (hcut : ∀ t ∈ us, ¬ (t.start < p ∧ p < t.stop)) (hw : ∀ c ∈ w, c ∈ blankChars) :
    let text' := text.take p ++ w ++ text.drop p
    ∃ us', tokenize text' = .ok us' ∧ List.Forall₂ (Token.Widened p w.length) us us' ∧
      ((∃ t t', parseText text = .ok t ∧ parseText text' = .ok t' ∧ t'.same t = true) ∨
        ∃ k fault fault', k < us.length ∧ parseText text = .error fault ∧
          parseText text' = .error fault' ∧ fault.token? = us[k]? ∧ fault'.token? = us'[k]?) := by
  intro text'
  obtain ⟨ts, htiled, rfl⟩ := tokenize_eq_ok.1 h
  have hlength : (text.take p).length = p := List.length_take_of_le hp
  have hcut' : ∀ t ∈ ts, ¬ (t.start < (text.take p).length ∧ (text.take p).length < t.stop) := by
    rw [hlength]
    exact fun t ht => hcut t (List.mem_append_left _ ht)
  rw [← List.take_append_drop p text] at htiled
  obtain ⟨us, vs, vs', rfl, hus, hvs, hwidened, hmoved⟩ := htiled.insert_blanks hcut' hw
  rw [List.take_append_drop] at htiled
  rw [← List.append_assoc] at hwidened
  have hend : (Token.endOf text).Moved w.length (.endOf text') := by
    refine ⟨rfl, rfl, ?_, ?_⟩ <;>
    · simp only [Token.endOf, Token.spanning, text', List.length_append, List.length_take,
        List.length_drop, List.append_nil]
      omega
  have hcontents : contents (us ++ vs') = contents (us ++ vs) :=
    contents_append.2 ⟨us, vs', rfl, rfl, contents_of_moved hmoved⟩
  refine ⟨_, tokenize_eq_ok.2 ⟨_, hwidened, rfl⟩, ?_, ?_⟩
  · refine List.rel_append (List.rel_append (List.forall₂_same.2 fun u hu => ?_) ?_)
      (.cons (hend.widened (.inl rfl)) .nil)
    · have hbounds := hus.bounds u hu
      rw [List.nil_append, hlength] at hbounds
      exact Token.widened_of_stop_le (hus.isEnd_eq_false u hu) hbounds.2.2
    · have hbehind : ∀ v ∈ vs, p < v.stop := by
        intro v hv
        have hbounds := hvs.bounds v hv
        rw [hlength] at hbounds
        omega
      refine ((List.forall₂_and_left vs vs').2 ⟨hbehind, hmoved⟩).imp ?_
      rintro v v' ⟨hv, hv'⟩
      exact hv'.widened (.inr hv)
  · rcases htiled.parseText_of_contents hwidened hcontents with hok |
      ⟨k, fault, fault', hk, hfault, hfault', htoken, htoken'⟩
    · exact .inl hok
    · refine .inr ⟨k, fault, fault', ?_, hfault, hfault', htoken, htoken'⟩
      rw [List.length_append]
      exact Nat.lt_succ_of_le hk

/-- A line feed behind a parenthesis that may not be there. -/
theorem tokenize_insert_blanks_parenthesis :
    let closing : Token := ⟨.rparen, .text ")", ⟨1, 1⟩, 0, 1⟩
    let us : List Token := [closing, ⟨.identifier, .text "a", ⟨1, 2⟩, 1, 2⟩, .endOf [')', 'a']]
    tokenize [')', 'a'] = .ok us ∧ parseText [')', 'a'] = .error (.expected "expression" closing) ∧
      ∃ (us' : List Token) (k : Nat) (fault' : ParseFault), tokenize [')', '\n', 'a'] = .ok us' ∧
        List.Forall₂ (Token.Widened 1 1) us us' ∧ us[k]? = some closing ∧
        parseText [')', '\n', 'a'] = .error fault' ∧ fault'.token? = us'[k]? := by
  intro closing us
  have htokens : tokenize [')', 'a'] = .ok us := by with_unfolding_all rfl
  have hparse : parseText [')', 'a'] = .error (.expected "expression" closing) := by
    with_unfolding_all rfl
  have hcut : ∀ t ∈ us, ¬ (t.start < (1 : Nat) ∧ (1 : Nat) < t.stop) := by decide
  have hw : ∀ c ∈ ['\n'], c ∈ blankChars := by simp [blankChars]
  obtain ⟨us', hus', hwidened, ⟨t, _, ht, _⟩ | ⟨k, fault, fault', _, hfault, hfault', hk, hk'⟩⟩ :=
    tokenize_insert_blanks htokens (by decide) hcut hw
  · rw [hparse] at ht
    cases ht
  · rw [hparse] at hfault
    cases hfault
    exact ⟨htokens, hparse, us', k, fault', hus', hwidened, hk.symm, hfault', hk'⟩

end NordLang

import NordLang.Proofs.Grammar.Rejection
import NordLang.Proofs.Grammar.Text

/-!
# Parsing while the text is scanned

A text is scanned only as far as the parser asks for tokens.  Where the whole text can be scanned,
this makes no difference.  Where it cannot, there are two faults, the one of the scanner and the one
that the parser finds in the tokens before it, and the earlier of them is reported: the scanner's if
the tokens before it are viable, and the parser's if they are not (`parse_of_fault`).

`Scanner.supply` relates the supply of a text to the scanner that hands out one token after another.
-/

namespace NordLang

/-! ## The tokens of a scanner -/

/-- What a scanner hands out, as a pull. -/
def Pull.ofNext : Except LexicalFault (Option Token) → Pull
  | .ok (some t) => .token t
  | .ok none => .ended
  | .error e => .fault e

/-- The first `n` pulls from a supply. -/
def Supply.pulls : Nat → Supply → List Pull
  | 0, _ => []
  | n + 1, s => s.pull.1 :: pulls n s.pull.2

namespace Scanner

def ofText (text : List Char) : Scanner :=
  ⟨.ofText text, false⟩

/-- The first `n` pulls from a scanner. -/
def pulls : Nat → Scanner → List Pull
  | 0, _ => []
  | n + 1, s => .ofNext s.next.1 :: pulls n s.next.2

/-- What a scanner will hand out. -/
def supply (s : Scanner) : Supply :=
  if s.finished then ⟨[], none⟩ else ⟨s.cursor.scan.tokens.map some, s.cursor.scan.fault⟩

/-- One pull is one step of the scanner. -/
theorem pull_supply (s : Scanner) : s.supply.pull = (.ofNext s.next.1, s.next.2.supply) := by
  rcases s with ⟨cursor, _ | _⟩
  · rcases hnext : cursor.next with ⟨fault | t, stop⟩
    · simp [supply, next, hnext, Cursor.scan_of_error hnext, Supply.pull, Pull.ofNext]
    · rcases hend : t.isEnd with _ | _
      · simp [supply, next, hnext, Cursor.scan_of_token hnext hend, hend, Supply.pull, Pull.ofNext]
      · simp [supply, next, hnext, Cursor.scan_of_end hnext hend, hend, Supply.pull, Pull.ofNext]
  · simp [supply, next, Supply.pull, Pull.ofNext]

theorem pulls_supply (n : Nat) (s : Scanner) : s.supply.pulls n = s.pulls n := by
  induction n generalizing s with
  | zero => rfl
  | succ n ih => rw [Supply.pulls, pulls, pull_supply, ih]

end Scanner

/-! ## Two faults -/

/-- Where a lexical fault is ahead, it is met exactly if the tokens before it are viable.  Otherwise
one of them is refused, as it would be without the fault. -/
theorem Reader.parse_of_fault {r : Reader} {ts : List Token} {e : LexicalFault}
    (h : r.Shows ts (some e)) :
    (r.parse.1 = .error (.lexical e) ∧ Viable ts) ∨
    (¬ Viable ts ∧ ∃ fault t, r.parse.1 = .error fault ∧
      (Supply.ofTokens ts).parse = .error fault ∧ fault.token? = some t ∧ t ∈ ts) := by
  have hends := h.isEnd_eq_false
  rcases hparse : r.parse with ⟨fault | tree, s⟩
  · rcases ht : fault.token? with _ | t
    · cases fault with
      | lexical e' =>
        obtain ⟨hfault, hnil⟩ := parse_eq_broken hparse
        cases h.fault.symm.trans hfault
        refine .inl ⟨rfl, viable_of_parse_eq_error hparse ?_⟩
        rw [h.upcoming, hnil, List.append_nil]
      | expected _ _ => cases ht
      | trailing _ => cases ht
    · obtain ⟨qs, us, _, hsight, hothers⟩ := parse_eq_refused hparse ht
      rw [sight_of_fault h] at hsight
      refine .inr ⟨?_, fault, t, rfl, ?_, ht, ?_⟩
      · rw [hsight] at hends ⊢
        exact not_viable_of_refused hothers hends
      · obtain ⟨vs, hvs⟩ := sight_ofItems hends []
        rw [List.append_nil] at hvs
        refine hothers _ (us ++ vs) ?_
        rw [Supply.ofTokens, hvs, hsight, List.append_assoc, List.cons_append]
      · rw [hsight]
        exact List.mem_append_right qs List.mem_cons_self
  · have hfault := (derives_of_parse (congrArg Prod.fst hparse)).1
    rw [h.fault] at hfault
    cases hfault

theorem ofText_of_tokenize_eq_ok {text : List Char} {ts : List Token} (h : tokenize text = .ok ts) :
    Supply.ofText text = .ofTokens ts := by
  rcases hscan : (Cursor.ofText text).scan.fault with _ | e
  · simp only [tokenize, Scan.toExcept, hscan] at h
    cases h
    simp [Supply.ofText, Supply.ofTokens, Supply.ofItems, hscan]
  · simp [tokenize, Scan.toExcept, hscan] at h

theorem shows_of_tokenize_eq_error {text : List Char} {e : LexicalFault}
    (h : tokenize text = .error e) :
    (Reader.ofSupply (.ofText text)).Shows (Cursor.ofText text).scan.tokens (some e) := by
  have hfault := fault_of_tokenize_eq_error h
  have hopen := openEnded_scan hfault
  constructor
  · exact realTokens_map_some (isEnd_of_openEnded hopen)
  · simp [Reader.faultAhead, Reader.stream, Reader.ofSupply, Supply.ofText, hopen, hfault]

/-- A lexical fault that the parser reports is the scanner's. -/
theorem fault_scan_of_parseText {text : List Char} {e : LexicalFault}
    (h : parseText text = .error (.lexical e)) : (Cursor.ofText text).scan.fault = some e := by
  rcases hparse : (Reader.ofSupply (.ofText text)).parse with ⟨result, r⟩
  have hresult : result = .error (.lexical e) := by
    rw [← h, parseText, Supply.parse, hparse]
  subst hresult
  have hahead := (Reader.parse_eq_broken hparse).1
  rw [Reader.faultAhead] at hahead
  split at hahead
  · cases hahead
  · exact hahead

/-- What keeps a text from being parsed is a diagnostic, with the one exception of numbers. -/
theorem tooManyDigits_of_parseText {text : List Char} {fault : ParseFault}
    (h : parseText text = .error fault) (hfault : fault.diagnostic? = none) :
    ∃ n, digitLimit < n ∧ fault = .lexical (.tooManyDigits n) := by
  cases fault with
  | lexical e =>
    obtain ⟨n, hn, rfl⟩ := Cursor.tooManyDigits_of_scan (fault_scan_of_parseText h) hfault
    exact ⟨n, hn, rfl⟩
  | expected | trailing => cases hfault

/-- A text that can be scanned is parsed like the list of its tokens.  Otherwise no tree comes out
of it: the scanner's fault is reported as it is if the tokens before it are viable, and the parser's
fault in these tokens if they are not. -/
theorem parseText_on_demand (text : List Char) :
    (∀ n, (Supply.ofText text).pulls n = (Scanner.ofText text).pulls n) ∧
    (∀ ts, tokenize text = .ok ts → parseText text = (Supply.ofTokens ts).parse) ∧
    ∀ e, tokenize text = .error e →
      (∀ t, parseText text ≠ .ok t) ∧
      (parseText text = .error (.lexical e) ↔ Viable (Cursor.ofText text).scan.tokens) ∧
      (¬ Viable (Cursor.ofText text).scan.tokens → ∃ fault t, parseText text = .error fault ∧
        (Supply.ofTokens (Cursor.ofText text).scan.tokens).parse = .error fault ∧
        fault.token? = some t ∧ t ∈ (Cursor.ofText text).scan.tokens) := by
  refine ⟨fun n => Scanner.pulls_supply n (.ofText text), fun ts hts => ?_, fun e he => ?_⟩
  · rw [parseText, ofText_of_tokenize_eq_ok hts]
  · rcases Reader.parse_of_fault (shows_of_tokenize_eq_error he) with
      ⟨hparse, hviable⟩ | ⟨hnot, fault, t, hparse, hlist, ht, hmem⟩
    · have hparse : parseText text = .error (.lexical e) := hparse
      rw [hparse]
      refine ⟨?_, ⟨fun _ => hviable, fun _ => rfl⟩, fun h => absurd hviable h⟩
      intro t h
      cases h
    · have hparse : parseText text = .error fault := hparse
      rw [hparse]
      refine ⟨?_, ⟨fun h => ?_, fun h => absurd h hnot⟩, fun _ => ?_⟩
      · intro t h
        cases h
      · cases h
        cases ht
      · exact ⟨fault, t, rfl, hlist, ht, hmem⟩

/-- Behind an opening parenthesis an unexpected character is met; behind a closing one it is not. -/
theorem parseText_on_demand_parentheses :
    let fault : LexicalFault := .unexpectedCharacter '?' ⟨1, 3⟩ 2
    let opening : Token := ⟨.lparen, .text "(", ⟨1, 1⟩, 0, 1⟩
    let closing : Token := ⟨.rparen, .text ")", ⟨1, 1⟩, 0, 1⟩
    (tokenize ['(', ' ', '?'] = .error fault ∧
      parseText ['(', ' ', '?'] = .error (.lexical fault) ∧ Viable [opening]) ∧
    (tokenize [')', ' ', '?'] = .error fault ∧ ¬ Viable [closing] ∧
      parseText [')', ' ', '?'] = .error (.expected "expression" closing)) := by
  intro fault opening closing
  have hopening : tokenize ['(', ' ', '?'] = .error fault := by with_unfolding_all rfl
  have hclosing : tokenize [')', ' ', '?'] = .error fault := by with_unfolding_all rfl
  have hlexical : parseText ['(', ' ', '?'] = .error (.lexical fault) := by with_unfolding_all rfl
  have hrefused : parseText [')', ' ', '?'] = .error (.expected "expression" closing) := by
    with_unfolding_all rfl
  have htokens : (Cursor.ofText ['(', ' ', '?']).scan.tokens = [opening] := by
    with_unfolding_all rfl
  have htokens' : (Cursor.ofText [')', ' ', '?']).scan.tokens = [closing] := by
    with_unfolding_all rfl
  have hviable := ((parseText_on_demand ['(', ' ', '?']).2.2 fault hopening).2.1.1 hlexical
  have hmet := ((parseText_on_demand [')', ' ', '?']).2.2 fault hclosing).2.1
  rw [htokens] at hviable
  rw [htokens', hrefused] at hmet
  have hnot : ¬ Viable [closing] := by
    intro h
    cases hmet.2 h
  exact ⟨⟨hopening, hlexical, hviable⟩, hclosing, hnot, hrefused⟩

end NordLang

import NordLang.Proofs.Grammar.Recognition
import NordLang.Proofs.Grammar.Viability

/-!
# Where a parse is refused

A list of tokens is refused at the first token that no accepted list has in its place.  What comes
before it is the beginning of an accepted list.  If all tokens are, the end of the input is refused.
-/

namespace NordLang

open Grammar

/-- The tokens parse to a tree. -/
def Accepted (ts : List Token) : Prop :=
  ∃ t, (Supply.ofTokens ts).parse = .ok t

/-- The tokens are the beginning of an accepted list. -/
def Viable (ts : List Token) : Prop :=
  ∃ us, Accepted (ts ++ us)

theorem accepted_of_derivable {ts : List Token} (h : Derivable 0 ts) : Accepted ts := by
  obtain ⟨t, ht⟩ := h
  exact ⟨t, (Supply.parse_ofTokens ht.isEnd_eq_false t).2 ht⟩

namespace Reader

/-- What a parse that fails has consumed is viable. -/
theorem viable_of_parse_eq_error {r s : Reader} {fault : ParseFault} {ts : List Token}
    (h : r.parse = (.error fault, s)) (hup : r.upcoming = ts ++ s.upcoming) : Viable ts := by
  obtain ⟨qs, us, hqs, hderivable⟩ := (whole_attains r).failed fault s (whole_eq_failed h)
  obtain rfl : ts = qs := List.append_cancel_right (hup.symm.trans hqs)
  exact ⟨us, accepted_of_derivable hderivable⟩

theorem sight_ofTokens {ts : List Token} (hts : ∀ u ∈ ts, u.isEnd = false) :
    (ofSupply (.ofTokens ts)).sight = ts ++ [Token.endAfter ts.getLast?] := by
  have hshows := shows_ofTokens hts
  have hend : endIn? (ofSupply (.ofTokens ts)).stream = none := endIn?_map_some hts
  rw [sight_of_shows hshows, finish, hend, hshows.upcoming]
  simp [ofSupply]

theorem sight_ofItems {ts : List Token} (hts : ∀ u ∈ ts, u.isEnd = false)
    (items : List (Option Token)) :
    ∃ us, (ofSupply (.ofItems (ts.map some ++ items))).sight = ts ++ us := by
  have hup : (ofSupply (.ofItems (ts.map some ++ items))).upcoming = ts ++ realTokens items :=
    realTokens_map_some_append hts items
  rw [sight, hup, List.append_assoc]
  exact ⟨_, rfl⟩

/-- Without a lexical fault ahead a fault is about a token. -/
theorem Shows.exists_token {r s : Reader} {ts : List Token} {fault : ParseFault}
    (hshows : r.Shows ts none) (h : r.parse = (.error fault, s)) :
    ∃ t, fault.token? = some t := by
  cases fault with
  | lexical e =>
    have hfault := (parse_eq_broken h).1
    rw [hshows.fault] at hfault
    cases hfault
  | expected _ t => exact ⟨t, rfl⟩
  | trailing t => exact ⟨t, rfl⟩

/-- What is refused behind `qs` by the token `t`, whatever follows, is not viable with it. -/
theorem not_viable_of_refused {qs us : List Token} {t : Token} {fault : ParseFault}
    (hrefused : ∀ (r : Reader) us, r.sight = qs ++ t :: us → r.parse.1 = .error fault)
    (hends : ∀ u ∈ qs ++ t :: us, u.isEnd = false) : ¬ Viable (qs ++ t :: us) := by
  rintro ⟨vs, tree, htree⟩
  obtain ⟨ws, hws⟩ := sight_ofItems hends (vs.map some)
  rw [List.append_assoc, List.cons_append] at hws
  rw [Supply.ofTokens, List.map_append, Supply.parse, hrefused _ _ hws] at htree
  cases htree

end Reader

theorem parse_ofTokens_refused {ts : List Token} (hts : ∀ u ∈ ts, u.isEnd = false)
    {fault : ParseFault} {s : Reader}
    (h : (Reader.ofSupply (.ofTokens ts)).parse = (.error fault, s)) :
    ∃ t qs us, fault.token? = some t ∧ (Reader.ofSupply (.ofTokens ts)).Consumes qs s ∧
      ts = qs ++ s.upcoming ∧ s.upcoming ++ [Token.endAfter ts.getLast?] = t :: us ∧
      ∀ (r : Reader) us', r.sight = qs ++ t :: us' → r.parse.1 = .error fault := by
  have hshows := Reader.shows_ofTokens hts
  obtain ⟨t, ht⟩ := hshows.exists_token h
  obtain ⟨qs, us, hpath, hsight, hothers⟩ := Reader.parse_eq_refused h ht
  have hup := hpath.moves.upcoming_eq
  rw [hshows.upcoming] at hup
  refine ⟨t, qs, us, ht, hpath, hup, ?_, hothers⟩
  rw [Reader.sight_ofTokens hts] at hsight
  generalize Token.endAfter ts.getLast? = e at hsight
  rw [hup, List.append_assoc] at hsight
  exact List.append_cancel_left hsight

/-- The parse of `ts` fails with `fault` behind `k` tokens, and rightly so. -/
structure RefusedAt (ts : List Token) (fault : ParseFault) (s : Reader) (k : Nat) : Prop where
  le : k ≤ ts.length
  consumes : (Reader.ofSupply (.ofTokens ts)).Consumes (ts.take k) s
  upcoming : s.upcoming = ts.drop k
  /-- What was consumed is the beginning of an accepted list, -/
  viable : Viable (ts.take k)
  /-- and the fault is about the next token, -/
  token : k < ts.length → fault.token? = ts[k]?
  /-- with which nothing is accepted, whatever follows it. -/
  dead : k < ts.length → ∀ items t,
    (Supply.ofItems ((ts.take (k + 1)).map some ++ items)).parse ≠ .ok t
  /-- Or no token is left, and the fault is about the end of the input. -/
  ended : k = ts.length → fault.token? = some (Token.endAfter ts.getLast?)

theorem exists_refusedAt {ts : List Token} (hts : ∀ u ∈ ts, u.isEnd = false) {fault : ParseFault}
    {s : Reader} (h : (Reader.ofSupply (.ofTokens ts)).parse = (.error fault, s)) :
    ∃ k, RefusedAt ts fault s k := by
  obtain ⟨t, qs, us, ht, hpath, hup, hnext, hothers⟩ := parse_ofTokens_refused hts h
  have hviable : Viable qs := by
    refine Reader.viable_of_parse_eq_error h ?_
    rw [(Reader.shows_ofTokens hts).upcoming]
    exact hup
  have htake : ts.take qs.length = qs := by rw [hup, List.take_left]
  have hdrop : ts.drop qs.length = s.upcoming := by rw [hup, List.drop_left]
  have hlength : ts.length = qs.length + s.upcoming.length := by rw [hup, List.length_append]
  refine ⟨qs.length, by omega, by rwa [htake], hdrop.symm, by rwa [htake], ?_, ?_, ?_⟩
  · intro hlt
    obtain ⟨v, vs, hvs⟩ := List.exists_cons_of_length_pos (l := s.upcoming) (by omega)
    rw [hvs] at hnext hdrop
    cases hnext
    rw [ht, ← List.head?_drop, hdrop]
    rfl
  · intro hlt items tree htree
    obtain ⟨v, vs, hvs⟩ := List.exists_cons_of_length_pos (l := s.upcoming) (by omega)
    rw [hvs] at hnext hup
    cases hnext
    have hprefix : ts.take (qs.length + 1) = qs ++ [t] := by
      rw [hup, List.take_length_add_append]
      rfl
    have hends : ∀ u ∈ ts.take (qs.length + 1), u.isEnd = false :=
      fun u hu => hts u (List.mem_of_mem_take hu)
    obtain ⟨ws, hws⟩ := Reader.sight_ofItems hends items
    have hfault := hothers _ ws (by rw [hws, hprefix, List.append_assoc]; rfl)
    rw [Supply.parse, hfault] at htree
    cases htree
  · intro hlt
    have hnil : s.upcoming = [] := List.eq_nil_of_length_eq_zero (by omega)
    rw [hnil] at hnext
    cases hnext
    exact ht

/-- No tokens behind a refused one make the list an accepted one. -/
theorem RefusedAt.not_accepted {ts : List Token} {fault : ParseFault} {s : Reader} {k : Nat}
    (h : RefusedAt ts fault s k) (hk : k < ts.length) (us : List Token) :
    ¬ Accepted (ts ++ us) := by
  rintro ⟨t, ht⟩
  refine h.dead hk ((ts.drop (k + 1) ++ us).map some) t ?_
  rwa [← List.map_append, ← List.append_assoc, List.take_append_drop]

/-- A parse is refused at the first token that cannot be right, and at the end of the input exactly
if the tokens are not accepted and with more tokens would be. -/
theorem parse_refused_earliest {ts : List Token} (hts : ∀ u ∈ ts, u.isEnd = false) :
    (∀ fault s, (Reader.ofSupply (.ofTokens ts)).parse = (.error fault, s) →
      ∃ k, RefusedAt ts fault s k) ∧
    ((∃ fault t, (Supply.ofTokens ts).parse = .error fault ∧ fault.token? = some t ∧
        t.isEnd = true) ↔
      ¬ Accepted ts ∧ ∃ us, us ≠ [] ∧ Accepted (ts ++ us)) := by
  refine ⟨fun fault s => exists_refusedAt hts, ?_, ?_⟩
  · rintro ⟨fault, t, hparse, ht, hend⟩
    have hnot : ¬ Accepted ts := by
      rintro ⟨tree, htree⟩
      rw [hparse] at htree
      cases htree
    obtain ⟨k, hk⟩ := exists_refusedAt hts (Prod.ext hparse rfl)
    rcases Nat.lt_or_eq_of_le hk.le with hlt | rfl
    · -- No token of the list is the end of the input.
      have hmem : t ∈ ts := List.mem_of_getElem? ((hk.token hlt).symm.trans ht)
      rw [hts t hmem] at hend
      cases hend
    · obtain ⟨us, haccepted⟩ := hk.viable
      rw [List.take_length] at haccepted
      refine ⟨hnot, us, ?_, haccepted⟩
      rintro rfl
      rw [List.append_nil] at haccepted
      exact hnot haccepted
  · rintro ⟨hnot, us, _, haccepted⟩
    rcases hparse : (Supply.ofTokens ts).parse with fault | tree
    · obtain ⟨k, hk⟩ := exists_refusedAt hts (Prod.ext hparse rfl)
      rcases Nat.lt_or_eq_of_le hk.le with hlt | rfl
      · exact absurd haccepted (hk.not_accepted hlt us)
      · exact ⟨fault, _, rfl, hk.ended rfl, Reader.isEnd_endAfter _⟩
    · exact absurd ⟨tree, hparse⟩ hnot

/-- Nothing but an expression, `else` or `end` may follow `then`. -/
theorem parse_refused_earliest_branch :
    let closing : Token := ⟨.rparen, .text ")", ⟨1, 11⟩, 10, 11⟩
    let ts : List Token :=
      [⟨.ifKw, .text "if", ⟨1, 1⟩, 0, 2⟩, ⟨.identifier, .text "a", ⟨1, 4⟩, 3, 4⟩,
        ⟨.thenKw, .text "then", ⟨1, 6⟩, 5, 9⟩, closing]
    (∀ u ∈ ts, u.isEnd = false) ∧ (Supply.ofTokens ts).parse = .error (.expected "'end'" closing) ∧
      ∃ s, RefusedAt ts (.expected "'end'" closing) s 3 := by
  intro closing ts
  have hends : ∀ u ∈ ts, u.isEnd = false := by decide
  have hparse : (Supply.ofTokens ts).parse = .error (.expected "'end'" closing) := by
    with_unfolding_all rfl
  obtain ⟨k, hk⟩ := (parse_refused_earliest hends).1 _ _ (Prod.ext hparse rfl)
  have hle : k ≤ 4 := hk.le
  -- The fault is about the last token and no other.
  rcases Nat.lt_trichotomy k 3 with hlt | rfl | hgt
  · have hbefore : ∀ j < 3, (ParseFault.expected "'end'" closing).token? ≠ ts[j]? := by decide
    exact absurd (hk.token (Nat.lt_trans hlt (by decide))) (hbefore k hlt)
  · exact ⟨hends, hparse, _, hk⟩
  · have hend : (ParseFault.expected "'end'" closing).token? ≠
        some (Token.endAfter ts.getLast?) := by decide
    exact absurd (hk.ended (show k = 4 by omega)) hend

end NordLang

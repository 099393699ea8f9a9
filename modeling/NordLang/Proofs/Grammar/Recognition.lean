import NordLang.Proofs.Grammar.Completeness
import NordLang.Proofs.Grammar.Soundness

/-!
# Recognition

Parsing accepts exactly what the grammar derives.  `parse_eq_ok_iff` says so for any reader: a tree
is returned if and only if no lexical fault is ahead and the tokens ahead derive the tree as a full
expression.  For a list of tokens made by hand this is `parse_iff_derives`, and since parsing is a
function, no list of tokens derives two trees.
-/

namespace NordLang

open Grammar Reader Outcome

namespace Reader

theorem result_eq_ok {α : Type} {n : Nat} {o : Outcome n α} {a : α} {r : Reader}
    (h : o.result = (.ok a, r)) : ∃ hlt, o = .done a r hlt := by
  cases o with
  | done b r' hlt =>
    cases h
    exact ⟨hlt, rfl⟩
  | failed fault r' => cases h

theorem parse_of_derives {r : Reader} {ts : List Token} {t : Tree} (hshows : r.Shows ts none)
    (h : Derives 0 ts t) : r.parse.1 = .ok t := by
  have hread : (expression r).Yields t [] := by
    refine h.complete.yields (Nat.le_refl _) ?_ (stops_nil 0)
    rw [List.append_nil]
    exact hshows
  obtain ⟨r₁, h₁, hexpr, hshows₁⟩ := hread
  obtain ⟨e, r₂, hcurrent, he, _⟩ := current_of_nil hshows₁
  have hresult : r.parseExpression = (.ok t, r₁) := by
    rw [parseExpression, hexpr]
    rfl
  simp only [parse, hresult, hcurrent, he, if_true]

/-- A parse that succeeds takes what it derives the tree from, and then nothing is ahead. -/
theorem moves_of_parse {r : Reader} {t : Tree} (h : r.parse.1 = .ok t) :
    ∃ ts, r.Moves ts r.parse.2 ∧ Derives 0 ts t ∧ r.parse.2.Shows [] none := by
  rcases hread : r.parseExpression with ⟨_ | tree, r₁⟩
  · simp [parse, hread] at h
  · rcases hcurrent : r₁.current with ⟨_ | e, r₂⟩
    · simp [parse, hread, hcurrent] at h
    · simp only [parse, hread, hcurrent] at h ⊢
      split at h
      · next hend =>
        cases h
        obtain ⟨h₁, hexpr⟩ := result_eq_ok hread
        obtain ⟨ts, hmove, hts⟩ := expression_sound hexpr
        -- Only where nothing is ahead is the end of the input shown.
        have hnil : r₂.Shows [] none := by
          rcases r₁.current_cases with ⟨u, r₃, hr₃, hu, _⟩ | ⟨_, _, hr₃, _, hshows, _⟩ |
            ⟨_, _, hfault, _⟩
          · rw [hcurrent] at hr₃
            cases hr₃
            rw [hend] at hu
            cases hu
          · rw [hcurrent] at hr₃
            cases hr₃
            exact hshows
          · rw [hcurrent] at hfault
            cases hfault
        have hmove₂ := hmove.trans (current_eq_ok hcurrent).1
        rw [List.append_nil] at hmove₂
        rw [if_pos hend]
        exact ⟨ts, hmove₂, hts, hnil⟩
      · cases h

theorem derives_of_parse {r : Reader} {t : Tree} (h : r.parse.1 = .ok t) :
    r.faultAhead = none ∧ Derives 0 r.upcoming t := by
  obtain ⟨ts, hmove, hts, hnil⟩ := moves_of_parse h
  have hup := hmove.upcoming_eq
  rw [hnil.upcoming, List.append_nil] at hup
  rw [hup]
  exact ⟨hmove.fault.trans hnil.fault, hts⟩

/-- A reader is parsed to a tree exactly if its tokens derive the tree and no fault is behind
them. -/
theorem parse_eq_ok_iff {r : Reader} {t : Tree} :
    r.parse.1 = .ok t ↔ r.faultAhead = none ∧ Derives 0 r.upcoming t := by
  refine ⟨derives_of_parse, fun ⟨hfault, h⟩ => ?_⟩
  exact parse_of_derives ⟨rfl, hfault⟩ h

theorem shows_ofTokens {ts : List Token} (hts : ∀ u ∈ ts, u.isEnd = false) :
    (ofSupply (.ofTokens ts)).Shows ts none := by
  constructor
  · exact realTokens_map_some hts
  · simp [ofSupply, Supply.ofTokens, Supply.ofItems, faultAhead]

end Reader

/-- Of a list of items the tokens before the first gap or end of the input count. -/
theorem Supply.parse_ofItems {items : List (Option Token)} {t : Tree} :
    (Supply.ofItems items).parse = .ok t ↔ Derives 0 (realTokens items) t := by
  have hfault : (Reader.ofSupply (.ofItems items)).faultAhead = none := by
    simp [Reader.ofSupply, ofItems, Reader.faultAhead]
  rw [Supply.parse, Reader.parse_eq_ok_iff, hfault]
  exact and_iff_right rfl

theorem Supply.parse_ofTokens {ts : List Token} (hts : ∀ u ∈ ts, u.isEnd = false) (t : Tree) :
    (Supply.ofTokens ts).parse = .ok t ↔ Derives 0 ts t := by
  rw [ofTokens, parse_ofItems, realTokens_map_some hts]

/-- A list of tokens is parsed to a tree if and only if it derives the tree as a full expression,
with the places of its nodes or up to them, and it derives no two trees. -/
theorem parse_iff_derives {ts : List Token} (hts : ∀ u ∈ ts, u.isEnd = false) (t : Tree) :
    ((Supply.ofTokens ts).parse = .ok t ↔ Derives 0 ts t) ∧
    ((∃ u, (Supply.ofTokens ts).parse = .ok u ∧ u.same t = true) ↔
      ∃ u, Derives 0 ts u ∧ u.same t = true) ∧
    ∀ u, Derives 0 ts t → Derives 0 ts u → t = u := by
  have hparse := Supply.parse_ofTokens hts
  refine ⟨hparse t, ?_, fun u ht hu => ?_⟩
  · constructor
    · rintro ⟨u, hu, hsame⟩
      exact ⟨u, (hparse u).1 hu, hsame⟩
    · rintro ⟨u, hu, hsame⟩
      exact ⟨u, (hparse u).2 hu, hsame⟩
  · have heq := (hparse u).2 hu
    rw [(hparse t).2 ht] at heq
    exact Except.ok.inj heq

/-- Two subtractions in a row are parsed from the left. -/
theorem parse_iff_derives_subtractions :
    let name (w : String) (column : Int) : Token := ⟨.identifier, .text w, ⟨1, column⟩, 0, 0⟩
    let minus (column : Int) : Token := ⟨.minus, .text "-", ⟨1, column⟩, 0, 0⟩
    let node (w : String) (column : Int) : Tree := .constant ⟨1, column⟩ (.identifier (.text w))
    (∀ u ∈ [name "a" 1, minus 2, name "b" 3, minus 4, name "c" 5], u.isEnd = false) ∧
    (Supply.ofTokens [name "a" 1, minus 2, name "b" 3, minus 4, name "c" 5]).parse =
      .ok (.binary ⟨1, 4⟩ (.binary ⟨1, 2⟩ (node "a" 1) (some .sub) (node "b" 3)) (some .sub)
        (node "c" 5)) := by
  intro name minus node
  have hends : ∀ u ∈ [name "a" 1, minus 2, name "b" 3, minus 4, name "c" 5], u.isEnd = false := by
    decide
  have hname (w : String) (column : Int) (k : Nat) (hk : k ≤ 9) :
      Derives k [name w column] (node w column) :=
    Derives.mono (.identifier rfl) hk (Nat.le_refl 9)
  have hleft : Derives 5 [name "a" 1, minus 2, name "b" 3]
      (.binary ⟨1, 2⟩ (node "a" 1) (some .sub) (node "b" 3)) :=
    .binary (by decide) (hname "a" 1 5 (by decide)) (hname "b" 3 6 (by decide))
  have hall : Derives 5 [name "a" 1, minus 2, name "b" 3, minus 4, name "c" 5]
      (.binary ⟨1, 4⟩ (.binary ⟨1, 2⟩ (node "a" 1) (some .sub) (node "b" 3)) (some .sub)
        (node "c" 5)) :=
    .binary (by decide) hleft (hname "c" 5 6 (by decide))
  exact ⟨hends, (parse_iff_derives hends _).1.2 (hall.mono (by decide) (by decide))⟩

end NordLang

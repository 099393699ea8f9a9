import NordLang.Reader.Outcome

/-!
# What lies ahead of a reader

A reader keeps its tokens in two places, the queue and the supply.  What the grammar will see of
them is simpler: a list of tokens, and after it either the end of the input or a lexical fault.

* `realTokens` are the tokens of a stream before its first gap or end of the input.
* `upcoming` is the list of tokens ahead and `faultAhead` the fault behind them, if there is one.
* `current_cases` says what `current` does: it shows a token, the end of the input or the fault.
  Most of what comes after it goes through this lemma and does not open the queue.  Where the queue
  matters, `current_shape` says where the token comes from.
* `Moves ts` relates a reader to the one that stands behind the tokens `ts`.
-/

namespace NordLang

/-- The tokens before the first gap or end of the input. -/
def realTokens : List (Option Token) → List Token
  | some t :: items => if t.isEnd then [] else t :: realTokens items
  | none :: _ => []
  | [] => []

/-- Whether a stream has neither a gap nor an end of the input, so that what follows it counts. -/
def openEnded : List (Option Token) → Bool
  | some t :: items => !t.isEnd && openEnded items
  | none :: _ => false
  | [] => true

/-- Whether a stream has ended: nothing is left of it, or a gap comes next. -/
def hasEnded : List (Option Token) → Bool
  | some _ :: _ => false
  | none :: _ => true
  | [] => true

theorem Token.isEnd_eq_false {t : Token} (h : t.kind ≠ .endOfInput) : t.isEnd = false := by
  simpa [Token.isEnd] using h

theorem ne_endOfInput_of_eq_some {α : Type} {f : TokenKind → Option α} {kind : TokenKind} {a : α}
    (hf : f .endOfInput = none) (h : f kind = some a) : kind ≠ .endOfInput := by
  rintro rfl
  rw [hf] at h
  cases h

theorem isEnd_of_mem_realTokens {items : List (Option Token)} {t : Token}
    (h : t ∈ realTokens items) : t.isEnd = false := by
  fun_induction realTokens items with
  | case1 => cases h
  | case2 u items hu ih =>
    rcases List.mem_cons.1 h with rfl | h
    · simpa using hu
    · exact ih h
  | case3 => cases h
  | case4 => cases h

theorem isEnd_of_openEnded {ts : List Token} (h : openEnded (ts.map some) = true) :
    ∀ t ∈ ts, t.isEnd = false := by
  induction ts with
  | nil => simp
  | cons t ts ih =>
    simp only [List.map_cons, openEnded, Bool.and_eq_true, Bool.not_eq_true'] at h
    exact List.forall_mem_cons.2 ⟨h.1, ih h.2⟩

theorem realTokens_map_some_append {ts : List Token} (h : ∀ t ∈ ts, t.isEnd = false)
    (items : List (Option Token)) : realTokens (ts.map some ++ items) = ts ++ realTokens items := by
  induction ts with
  | nil => rfl
  | cons t ts ih =>
    have ht : t.isEnd = false := h t (by simp)
    simp [realTokens, ht, ih fun u hu => h u (by simp [hu])]

theorem realTokens_map_some {ts : List Token} (h : ∀ t ∈ ts, t.isEnd = false) :
    realTokens (ts.map some) = ts := by
  simpa [realTokens] using realTokens_map_some_append h []

theorem realTokens_map_some_append_end {ts : List Token} {e : Token}
    (h : ∀ t ∈ ts, t.isEnd = false) (he : e.isEnd = true) :
    realTokens ((ts ++ [e]).map some) = ts := by
  simpa [realTokens, he] using realTokens_map_some_append h [some e]

namespace Reader

/-- What the queue holds and the supply may still bring. -/
def stream (r : Reader) : List (Option Token) :=
  r.ahead.map some ++ if r.exhausted then [] else r.supply.items

/-- The tokens that are still to be consumed, in order. -/
def upcoming (r : Reader) : List Token :=
  realTokens r.stream

/-- The lexical fault behind the tokens ahead. -/
def faultAhead (r : Reader) : Option LexicalFault :=
  if r.exhausted || !openEnded r.stream then none else r.supply.fault

/-- The tokens ahead are `ts`, and behind them is `fault`, or the end of the input. -/
structure Shows (r : Reader) (ts : List Token) (fault : Option LexicalFault) : Prop where
  upcoming : r.upcoming = ts
  fault : r.faultAhead = fault

theorem shows_self (r : Reader) : r.Shows r.upcoming r.faultAhead := ⟨rfl, rfl⟩

theorem Shows.isEnd_eq_false {r : Reader} {ts : List Token} {fault : Option LexicalFault}
    (h : r.Shows ts fault) : ∀ t ∈ ts, t.isEnd = false := by
  rw [← h.upcoming]
  exact fun t => isEnd_of_mem_realTokens

/-! ## The next token -/

theorem current_of_ahead {r : Reader} {t : Token} {ts : List Token} (h : r.ahead = t :: ts) :
    r.current = (.ok t, r) := by
  simp [current, fill, fillMore, h]

theorem current_of_pull {r : Reader} {supply : Supply} {t : Token} (hahead : r.ahead = [])
    (hex : r.exhausted = false) (hpull : r.supply.pull = (.token t, supply)) :
    r.current = (.ok t, ⟨[t], r.last, t.isEnd, supply⟩) := by
  simp [current, fill, hahead, fillMore, hex, hpull]

theorem current_of_exhausted {r : Reader} (hahead : r.ahead = []) (hex : r.exhausted = true) :
    r.current = (.ok r.endToken, { r with ahead := [r.endToken] }) := by
  simp [current, fill, hahead, fillMore, hex, pad, endToken]

theorem current_of_ended {r : Reader} {supply : Supply} (hahead : r.ahead = [])
    (hex : r.exhausted = false) (hpull : r.supply.pull = (.ended, supply)) :
    r.current = (.ok r.endToken, ⟨[r.endToken], r.last, true, supply⟩) := by
  simp [current, fill, hahead, fillMore, hex, hpull, pad, endToken]

theorem current_of_pull_fault {r : Reader} {supply : Supply} {fault : LexicalFault}
    (hahead : r.ahead = []) (hex : r.exhausted = false)
    (hpull : r.supply.pull = (.fault fault, supply)) :
    r.current = (.error (.lexical fault), { r with supply }) := by
  simp [current, fill, hahead, fillMore, hex, hpull]

@[simp] theorem isEnd_endToken (r : Reader) : r.endToken.isEnd = true :=
  isEnd_endAfter _

theorem shows_of_end {r : Reader} {t : Token} {ts : List Token} (hahead : r.ahead = t :: ts)
    (ht : t.isEnd = true) : r.Shows [] none := by
  constructor <;> simp [upcoming, faultAhead, stream, hahead, realTokens, openEnded, ht]

theorem upcoming_consume {r : Reader} {t : Token} {ts : List Token} (hahead : r.ahead = t :: ts)
    (ht : t.isEnd = false) : r.upcoming = t :: (r.consume t).upcoming := by
  simp [upcoming, stream, hahead, realTokens, ht, consume]

theorem faultAhead_consume {r : Reader} {t : Token} {ts : List Token} (hahead : r.ahead = t :: ts)
    (ht : t.isEnd = false) : (r.consume t).faultAhead = r.faultAhead := by
  simp [faultAhead, stream, hahead, openEnded, ht, consume]

/-- Where the next token comes from: the queue, the supply or, once the stream has ended, nowhere;
or a fault is met in its place. -/
theorem current_shape (r : Reader) :
    (∃ t ts, r.ahead = t :: ts ∧ r.current = (.ok t, r)) ∨
    (∃ t items, r.ahead = [] ∧ r.exhausted = false ∧ r.supply.items = some t :: items ∧
      r.current = (.ok t, ⟨[t], r.last, t.isEnd, { r.supply with items }⟩)) ∨
    (∃ supply, r.ahead = [] ∧ hasEnded r.stream = true ∧ r.faultAhead = none ∧
      r.current = (.ok r.endToken, ⟨[r.endToken], r.last, true, supply⟩)) ∨
    (∃ fault, r.ahead = [] ∧ r.exhausted = false ∧ r.supply = ⟨[], some fault⟩ ∧
      r.current = (.error (.lexical fault), ⟨[], r.last, false, ⟨[], none⟩⟩)) := by
  rcases hahead : r.ahead with _ | ⟨t, ts⟩
  · rcases hex : r.exhausted with _ | _
    · rcases hsupply : r.supply with ⟨_ | ⟨_ | t, items⟩, fault⟩
      · rcases fault with _ | fault
        · have hpull : r.supply.pull = (.ended, r.supply) := by simp [Supply.pull, hsupply]
          refine .inr (.inr (.inl ⟨_, rfl, ?_, ?_, current_of_ended hahead hex hpull⟩))
          · simp [stream, hahead, hex, hsupply, hasEnded]
          · simp [faultAhead, hsupply]
        · have hpull : r.supply.pull = (.fault fault, ⟨[], none⟩) := by
            simp [Supply.pull, hsupply]
          refine .inr (.inr (.inr ⟨fault, rfl, rfl, rfl, ?_⟩))
          rw [current_of_pull_fault hahead hex hpull, hahead, hex]
      · have hpull : r.supply.pull = (.ended, ⟨items, fault⟩) := by simp [Supply.pull, hsupply]
        refine .inr (.inr (.inl ⟨_, rfl, ?_, ?_, current_of_ended hahead hex hpull⟩))
        · simp [stream, hahead, hex, hsupply, hasEnded]
        · simp [faultAhead, stream, hahead, hex, hsupply, openEnded]
      · have hpull : r.supply.pull = (.token t, ⟨items, fault⟩) := by simp [Supply.pull, hsupply]
        exact .inr (.inl ⟨t, items, rfl, rfl, rfl, current_of_pull hahead hex hpull⟩)
    · refine .inr (.inr (.inl ⟨r.supply, rfl, ?_, ?_, ?_⟩))
      · simp [stream, hahead, hex, hasEnded]
      · simp [faultAhead, hex]
      · rw [current_of_exhausted hahead hex, hex]
  · exact .inl ⟨t, ts, rfl, current_of_ahead hahead⟩

theorem upcoming_of_hasEnded {r : Reader} (h : hasEnded r.stream = true) : r.upcoming = [] := by
  rw [upcoming]
  rcases hstream : r.stream with _ | ⟨_ | t, items⟩
  · rfl
  · rfl
  · rw [hstream] at h
    cases h

/-- Every reader shows a token, the end of the input or a fault. -/
theorem current_cases (r : Reader) :
    (∃ t r', r.current = (.ok t, r') ∧ t.isEnd = false ∧ r'.Shows r.upcoming r.faultAhead ∧
      (r'.consume t).faultAhead = r.faultAhead ∧ r.upcoming = t :: (r'.consume t).upcoming) ∨
    (∃ t r', r.current = (.ok t, r') ∧ t.isEnd = true ∧ r'.Shows [] none ∧ r.Shows [] none) ∨
    (∃ fault r', r.current = (.error (.lexical fault), r') ∧ r.Shows [] (some fault)) := by
  rcases r.current_shape with ⟨t, ts, hahead, hcurrent⟩ |
    ⟨t, items, hahead, hex, hitems, hcurrent⟩ | ⟨supply, hahead, hended, hfault, hcurrent⟩ |
    ⟨fault, hahead, hex, hsupply, hcurrent⟩
  · rcases hend : t.isEnd with _ | _
    · exact .inl ⟨t, r, hcurrent, hend, shows_self r, faultAhead_consume hahead hend,
        upcoming_consume hahead hend⟩
    · exact .inr (.inl ⟨t, r, hcurrent, hend, shows_of_end hahead hend, shows_of_end hahead hend⟩)
  · rcases hend : t.isEnd with _ | _
    · -- The token has only moved from the supply to the queue.
      have hshows : Shows ⟨[t], r.last, t.isEnd, { r.supply with items }⟩ r.upcoming
          r.faultAhead := by
        constructor <;> simp [upcoming, faultAhead, stream, hahead, hex, hitems, openEnded, hend]
      refine .inl ⟨t, _, hcurrent, hend, hshows, ?_, ?_⟩
      · rw [faultAhead_consume rfl hend, hshows.fault]
      · rw [← hshows.upcoming, upcoming_consume rfl hend]
    · refine .inr (.inl ⟨t, _, hcurrent, hend, shows_of_end rfl hend, ?_⟩)
      constructor <;>
        simp [upcoming, faultAhead, stream, hahead, hex, hitems, realTokens, openEnded, hend]
  · exact .inr (.inl ⟨_, _, hcurrent, isEnd_endToken r, shows_of_end rfl (isEnd_endToken r),
      upcoming_of_hasEnded hended, hfault⟩)
  · refine .inr (.inr ⟨fault, _, hcurrent, ?_⟩)
    constructor <;> simp [upcoming, faultAhead, stream, hahead, hex, hsupply, realTokens, openEnded]

theorem current_of_cons {r : Reader} {t : Token} {ts : List Token} {fault : Option LexicalFault}
    (h : r.Shows (t :: ts) fault) :
    ∃ r', r.current = (.ok t, r') ∧ r'.Shows (t :: ts) fault ∧ (r'.consume t).Shows ts fault ∧
      t.isEnd = false := by
  obtain ⟨hup, hfault⟩ := h
  rcases r.current_cases with ⟨u, r', hr', hu, hshows, hf, hcons⟩ | ⟨_, _, _, _, _, hr⟩ |
    ⟨_, _, _, hr⟩
  · rw [hup] at hcons hshows
    obtain ⟨rfl, hts⟩ := List.cons.inj hcons
    exact ⟨r', hr', hfault ▸ hshows, ⟨hts.symm, hf.trans hfault⟩, hu⟩
  · rw [hr.upcoming] at hup
    cases hup
  · rw [hr.upcoming] at hup
    cases hup

theorem current_of_nil {r : Reader} (h : r.Shows [] none) :
    ∃ t r', r.current = (.ok t, r') ∧ t.isEnd = true ∧ r'.Shows [] none := by
  obtain ⟨hup, hfault⟩ := h
  rcases r.current_cases with ⟨_, _, _, _, _, _, hcons⟩ | ⟨t, r', hr', ht, hshows, _⟩ |
    ⟨_, _, _, hr⟩
  · rw [hup] at hcons
    cases hcons
  · exact ⟨t, r', hr', ht, hshows⟩
  · rw [hr.fault] at hfault
    cases hfault

/-! ## Moving over tokens -/

/-- From `r` to `r'` the tokens `ts` are consumed and nothing else changes ahead. -/
def Moves (r : Reader) (ts : List Token) (r' : Reader) : Prop :=
  r.Shows (ts ++ r'.upcoming) r'.faultAhead

theorem Moves.refl (r : Reader) : r.Moves [] r :=
  shows_self r

theorem Moves.upcoming_eq {r r' : Reader} {ts : List Token} (h : r.Moves ts r') :
    r.upcoming = ts ++ r'.upcoming :=
  h.upcoming

theorem Moves.trans {r r₁ r₂ : Reader} {ts us : List Token} (h : r.Moves ts r₁)
    (h' : r₁.Moves us r₂) : r.Moves (ts ++ us) r₂ := by
  refine ⟨?_, h.fault.trans h'.fault⟩
  rw [h.upcoming, h'.upcoming, List.append_assoc]

/-- What is shown is consumed, or it is the end of the input. -/
theorem current_eq_ok {r r' : Reader} {t : Token} (h : r.current = (.ok t, r')) :
    r.Moves [] r' ∧ r'.upcoming.headD t = t ∧ (t.isEnd = false → r.Moves [t] (r'.consume t)) := by
  rcases r.current_cases with ⟨u, r₁, hr₁, hu, hshows, hf, hcons⟩ | ⟨u, r₁, hr₁, hu, hshows, hr⟩ |
    ⟨_, _, hr, _⟩
  · rw [h] at hr₁
    cases hr₁
    refine ⟨⟨hshows.upcoming.symm, hshows.fault.symm⟩, ?_, fun _ => ⟨hcons, hf.symm⟩⟩
    rw [hshows.upcoming, hcons]
    rfl
  · rw [h] at hr₁
    cases hr₁
    refine ⟨⟨?_, ?_⟩, ?_, fun ht => by rw [hu] at ht; cases ht⟩
    · rw [hr.upcoming, hshows.upcoming]
      rfl
    · rw [hr.fault, hshows.fault]
    · rw [hshows.upcoming]
      rfl
  · rw [h] at hr
    cases hr

theorem look_eq_done {r r' : Reader} {t : Token} {hlt : r'.remaining < r.remaining + 1}
    (h : r.look = .done t r' hlt) : r.Moves [] r' ∧ r'.upcoming.headD t = t := by
  unfold look at h
  split at h
  · cases h
  · next hcurrent =>
    cases h
    obtain ⟨hmoves, hhead, _⟩ := current_eq_ok hcurrent
    exact ⟨hmoves, hhead⟩

theorem require_eq_done {kind : TokenKind} {what : String} {r r' : Reader} {t : Token}
    {hkind : kind ≠ .endOfInput} {hlt : r'.remaining < r.remaining}
    (h : r.require kind what hkind = .done t r' hlt) : t.kind = kind ∧ r.Moves [t] r' := by
  unfold require at h
  split at h
  · cases h
  · next hcurrent =>
    split at h
    · next ht =>
      cases h
      exact ⟨ht, (current_eq_ok hcurrent).2.2 (Token.isEnd_eq_false (ht ▸ hkind))⟩
    · cases h

theorem ifNext_eq_done {α β : Type} {n : Nat} {f : TokenKind → Option α}
    {hf : f .endOfInput = none} {r r' : Reader} {b : β}
    {yes : α → Token → (r' : Reader) → r'.remaining < r.remaining → Outcome n β}
    {no : (r' : Reader) → r'.remaining ≤ r.remaining → Outcome n β} {hlt : r'.remaining < n}
    (h : r.ifNext f hf yes no = .done b r' hlt) :
    (∃ a t r₁ h₁, f t.kind = some a ∧ r.Moves [t] r₁ ∧ yes a t r₁ h₁ = .done b r' hlt) ∨
    (∃ r₁ h₁, r.Moves [] r₁ ∧ no r₁ h₁ = .done b r' hlt) := by
  unfold ifNext at h
  split at h
  · cases h
  · next t r₁ hcurrent =>
    obtain ⟨hmoves, _, hconsume⟩ := current_eq_ok hcurrent
    split at h
    · next a ha =>
      have hkind := ne_endOfInput_of_eq_some hf ha
      exact .inl ⟨a, t, _, _, ha, hconsume (Token.isEnd_eq_false hkind), h⟩
    · exact .inr ⟨r₁, _, hmoves, h⟩

end Reader

namespace Outcome

variable {α β : Type} {m n : Nat}

theorem andThen_eq_done {o : Outcome m α} {f : α → (r : Reader) → r.remaining < m → Outcome n β}
    {b : β} {r' : Reader} {hlt : r'.remaining < n} (h : o.andThen f = .done b r' hlt) :
    ∃ a r₁ h₁, o = .done a r₁ h₁ ∧ f a r₁ h₁ = .done b r' hlt := by
  cases o with
  | done a r₁ h₁ => exact ⟨a, r₁, h₁, rfl, h⟩
  | failed fault r₁ => cases h

theorem mono_eq_done {o : Outcome m α} {hmn : m ≤ n} {a : α} {r' : Reader}
    {hlt : r'.remaining < n} (h : o.mono hmn = .done a r' hlt) :
    ∃ h₁, o = .done a r' h₁ := by
  cases o with
  | done a r₁ h₁ =>
    cases h
    exact ⟨h₁, rfl⟩
  | failed fault r₁ => cases h

/-! ## Success with given tokens left -/

/-- The outcome is `a`, and exactly the tokens `rest` are left before the end of the input. -/
def Yields (o : Outcome n α) (a : α) (rest : List Token) : Prop :=
  ∃ r h, o = .done a r h ∧ r.Shows rest none

theorem yields_done {a : α} {r : Reader} {h : r.remaining < n} {rest : List Token}
    (hr : r.Shows rest none) : (done a r h).Yields a rest :=
  ⟨r, h, rfl, hr⟩

theorem Yields.andThen {o : Outcome m α} {f : α → (r : Reader) → r.remaining < m → Outcome n β}
    {a : α} {b : β} {s rest : List Token} (ho : o.Yields a s)
    (hf : ∀ r h, r.Shows s none → (f a r h).Yields b rest) : (o.andThen f).Yields b rest := by
  obtain ⟨r, h, rfl, hr⟩ := ho
  exact hf r h hr

theorem Yields.mono {o : Outcome m α} {a : α} {rest : List Token} (ho : o.Yields a rest)
    (hmn : m ≤ n) : (o.mono hmn).Yields a rest := by
  obtain ⟨r, h, rfl, hr⟩ := ho
  exact ⟨r, _, rfl, hr⟩

end Outcome

namespace Reader

open Outcome

theorem look_of_current {r r' : Reader} {t : Token} (h : r.current = (.ok t, r')) :
    r.look = .done t r' (Nat.lt_succ_of_le (remaining_current_le h)) := by
  unfold look
  split
  · next hcurrent =>
    rw [h] at hcurrent
    cases hcurrent
  · next hcurrent =>
    rw [h] at hcurrent
    cases hcurrent
    rfl

theorem look_of_fault {r r' : Reader} {fault : ParseFault} (h : r.current = (.error fault, r')) :
    r.look = .failed fault r' := by
  unfold look
  split
  · next hcurrent =>
    rw [h] at hcurrent
    cases hcurrent
    rfl
  · next hcurrent =>
    rw [h] at hcurrent
    cases hcurrent

section require

variable {kind : TokenKind} {what : String} {hkind : kind ≠ .endOfInput} {r r' : Reader}

theorem require_of_fault {fault : ParseFault} (h : r.current = (.error fault, r')) :
    r.require kind what hkind = .failed fault r' := by
  unfold require
  split
  · next hcurrent =>
    rw [h] at hcurrent
    cases hcurrent
    rfl
  · next hcurrent =>
    rw [h] at hcurrent
    cases hcurrent

theorem require_of_kind {t : Token} (h : r.current = (.ok t, r')) (ht : t.kind = kind) :
    r.require kind what hkind =
      .done t (r'.consume t) (remaining_consume_lt h (ht ▸ hkind)) := by
  unfold require
  split
  · next hcurrent =>
    rw [h] at hcurrent
    cases hcurrent
  · next hcurrent =>
    rw [h] at hcurrent
    cases hcurrent
    rw [dif_pos ht]

theorem require_of_not_kind {t : Token} (h : r.current = (.ok t, r')) (ht : t.kind ≠ kind) :
    r.require kind what hkind =
      .failed (.expected (if what = "" then kind.name else what) t) r' := by
  unfold require
  split
  · next hcurrent =>
    rw [h] at hcurrent
    cases hcurrent
  · next hcurrent =>
    rw [h] at hcurrent
    cases hcurrent
    rw [dif_neg ht]

end require

theorem look_of_cons {r : Reader} {t : Token} {ts : List Token} (h : r.Shows (t :: ts) none) :
    r.look.Yields t (t :: ts) := by
  obtain ⟨r', hr', hshows, _⟩ := current_of_cons h
  exact ⟨r', _, look_of_current hr', hshows⟩

theorem look_of_nil {r : Reader} (h : r.Shows [] none) :
    ∃ t, t.isEnd = true ∧ r.look.Yields t [] := by
  obtain ⟨t, r', hr', ht, hshows⟩ := current_of_nil h
  exact ⟨t, ht, r', _, look_of_current hr', hshows⟩

theorem require_of_cons {kind : TokenKind} {what : String} {r : Reader} {t : Token}
    {ts : List Token} {hkind : kind ≠ .endOfInput} (h : r.Shows (t :: ts) none)
    (ht : t.kind = kind) : (r.require kind what hkind).Yields t ts := by
  obtain ⟨r', hr', _, hshows, _⟩ := current_of_cons h
  exact ⟨_, _, require_of_kind hr' ht, hshows⟩

section ifNext

variable {α β : Type} {n : Nat} {f : TokenKind → Option α} {hf : f .endOfInput = none}
  {r : Reader} {yes : α → Token → (r' : Reader) → r'.remaining < r.remaining → Outcome n β}
  {no : (r' : Reader) → r'.remaining ≤ r.remaining → Outcome n β}

theorem ifNext_of_fault {r' : Reader} {fault : ParseFault} (h : r.current = (.error fault, r')) :
    r.ifNext f hf yes no = .failed fault r' := by
  unfold ifNext
  split
  · next hcurrent =>
    rw [h] at hcurrent
    cases hcurrent
    rfl
  · next hcurrent =>
    rw [h] at hcurrent
    cases hcurrent

theorem ifNext_of_current_some {r' : Reader} {t : Token} {a : α} (h : r.current = (.ok t, r'))
    (ha : f t.kind = some a) :
    r.ifNext f hf yes no = yes a t (r'.consume t)
      (remaining_consume_lt h (ne_endOfInput_of_eq_some hf ha)) := by
  unfold ifNext
  split
  · next hcurrent =>
    rw [h] at hcurrent
    cases hcurrent
  · next hcurrent =>
    rw [h] at hcurrent
    cases hcurrent
    split
    · next b hb =>
      rw [ha] at hb
      cases hb
      rfl
    · next hb =>
      rw [ha] at hb
      cases hb

theorem ifNext_of_current_none {r' : Reader} {t : Token} (h : r.current = (.ok t, r'))
    (ha : f t.kind = none) : r.ifNext f hf yes no = no r' (remaining_current_le h) := by
  unfold ifNext
  split
  · next hcurrent =>
    rw [h] at hcurrent
    cases hcurrent
  · next hcurrent =>
    rw [h] at hcurrent
    cases hcurrent
    split
    · next b hb =>
      rw [ha] at hb
      cases hb
    · rfl

theorem ifNext_of_some {t : Token} {ts : List Token} {a : α} (h : r.Shows (t :: ts) none)
    (ha : f t.kind = some a) :
    ∃ r' h', r'.Shows ts none ∧ r.ifNext f hf yes no = yes a t r' h' := by
  obtain ⟨r', hr', _, hshows, _⟩ := current_of_cons h
  exact ⟨_, _, hshows, ifNext_of_current_some hr' ha⟩

theorem ifNext_of_none {ts : List Token} (h : r.Shows ts none)
    (hnone : ∀ t us, ts = t :: us → f t.kind = none) :
    ∃ r' h', r'.Shows ts none ∧ r.ifNext f hf yes no = no r' h' := by
  cases ts with
  | nil =>
    obtain ⟨t, r', hr', ht, hshows⟩ := current_of_nil h
    rw [Token.isEnd, beq_iff_eq] at ht
    exact ⟨_, _, hshows, ifNext_of_current_none hr' (by rw [ht, hf])⟩
  | cons t ts =>
    obtain ⟨r', hr', hshows, _⟩ := current_of_cons h
    exact ⟨_, _, hshows, ifNext_of_current_none hr' (hnone t ts rfl)⟩

theorem yields_ifNext_of_some {t : Token} {ts rest : List Token} {a : α} {b : β}
    (h : r.Shows (t :: ts) none) (ha : f t.kind = some a)
    (hyes : ∀ r' h', r'.Shows ts none → (yes a t r' h').Yields b rest) :
    (r.ifNext f hf yes no).Yields b rest := by
  obtain ⟨r', h', hshows, heq⟩ := ifNext_of_some h ha
  rw [heq]
  exact hyes r' h' hshows

theorem yields_ifNext_of_none {ts rest : List Token} {b : β} (h : r.Shows ts none)
    (hnone : ∀ t us, ts = t :: us → f t.kind = none)
    (hno : ∀ r' h', r'.Shows ts none → (no r' h').Yields b rest) :
    (r.ifNext f hf yes no).Yields b rest := by
  obtain ⟨r', h', hshows, heq⟩ := ifNext_of_none h hnone
  rw [heq]
  exact hno r' h' hshows

theorem yields_ifNext_of_cons_none {t : Token} {ts rest : List Token} {b : β}
    (h : r.Shows (t :: ts) none) (hnone : f t.kind = none)
    (hno : ∀ r' h', r'.Shows (t :: ts) none → (no r' h').Yields b rest) :
    (r.ifNext f hf yes no).Yields b rest := by
  refine yields_ifNext_of_none h ?_ hno
  intro u us heq
  cases heq
  exact hnone

end ifNext

end Reader

end NordLang

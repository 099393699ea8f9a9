import NordLang.Proofs.Reader.Upcoming

/-!
# What a reader shows one after another

Behind the tokens ahead a reader shows the end of the input, unless a lexical fault is there.  Which
end of the input that will be is settled long before it is shown: it is the one that stands in the
stream, or else the one made up right behind the last token.

* `finish` is that end of the input, and `sight` the tokens ahead with it.
* `sight_cases` says what `current` does in these terms: it shows the first token in sight, or meets
  the fault.
* `Consumes ts` relates a reader to what it becomes by looking at tokens and taking `ts`.  It
  changes the sight by just these tokens (`Consumes.sight_eq`).
-/

namespace NordLang

/-- The end of the input that stands in a stream, before its first gap. -/
def endIn? : List (Option Token) → Option Token
  | some t :: items => if t.isEnd then some t else endIn? items
  | none :: _ => none
  | [] => none

theorem endIn?_map_some {ts : List Token} (h : ∀ t ∈ ts, t.isEnd = false) :
    endIn? (ts.map some) = none := by
  induction ts with
  | nil => rfl
  | cons t ts ih =>
    have ht : t.isEnd = false := h t (by simp)
    simp [endIn?, ht, ih fun u hu => h u (by simp [hu])]

theorem endIn?_map_some_append_end {ts : List Token} {e : Token} (h : ∀ t ∈ ts, t.isEnd = false)
    (he : e.isEnd = true) : endIn? ((ts ++ [e]).map some) = some e := by
  induction ts with
  | nil => simp [endIn?, he]
  | cons t ts ih =>
    rw [List.forall_mem_cons] at h
    simpa [endIn?, h.1] using ih h.2

namespace Reader

/-- The end of the input behind the tokens ahead. -/
def finish (r : Reader) : Token :=
  (endIn? r.stream).getD (Token.endAfter (r.upcoming.getLast?.or r.last))

/-- The tokens ahead and the end of the input, or the tokens alone if a lexical fault is behind
them. -/
def sight (r : Reader) : List Token :=
  r.upcoming ++ if r.faultAhead = none then [r.finish] else []

theorem finish_of_end {r : Reader} {t : Token} {ts : List Token} (hahead : r.ahead = t :: ts)
    (ht : t.isEnd = true) : r.finish = t := by
  simp [finish, stream, hahead, endIn?, ht]

theorem finish_of_hasEnded {r : Reader} (hahead : r.ahead = []) (h : hasEnded r.stream = true) :
    r.finish = r.endToken := by
  have hend : endIn? r.stream = none := by
    rcases hstream : r.stream with _ | ⟨_ | t, items⟩
    · rfl
    · rfl
    · rw [hstream] at h
      cases h
  rw [finish, hend, upcoming_of_hasEnded h, endToken, hahead]
  rfl

theorem finish_current {r r' : Reader} {t : Token} (h : r.current = (.ok t, r')) :
    r'.finish = r.finish := by
  rcases r.current_shape with ⟨u, us, hahead, hcurrent⟩ |
    ⟨u, items, hahead, hex, hitems, hcurrent⟩ | ⟨supply, hahead, hended, _, hcurrent⟩ |
    ⟨fault, _, _, _, hcurrent⟩
  · rw [hcurrent] at h
    cases h
    rfl
  · rw [hcurrent] at h
    cases h
    rcases hend : t.isEnd with _ | _
    · simp [finish, upcoming, stream, hahead, hex, hitems]
    · simp [finish, stream, hahead, hex, hitems, endIn?, hend]
  · rw [hcurrent] at h
    cases h
    rw [finish_of_end rfl (isEnd_endToken r), finish_of_hasEnded hahead hended]
  · rw [hcurrent] at h
    cases h

theorem finish_consume {r : Reader} {t : Token} {ts : List Token} (hahead : r.ahead = t :: ts)
    (ht : t.isEnd = false) : (r.consume t).finish = r.finish := by
  have hlast : (t :: (r.consume t).upcoming).getLast?.or r.last =
      (r.consume t).upcoming.getLast?.or (some t) := by
    rw [List.getLast?_cons]
    cases (r.consume t).upcoming.getLast? <;> rfl
  have hend : endIn? (r.consume t).stream = endIn? r.stream := by
    simp [stream, consume, hahead, ht, endIn?]
  have hnew : (r.consume t).last = some t := by simp [consume, ht]
  rw [finish, finish, hend, upcoming_consume hahead ht, hlast, hnew]

theorem sight_of_shows {r : Reader} {ts : List Token} (h : r.Shows ts none) :
    r.sight = ts ++ [r.finish] := by
  rw [sight, h.upcoming, h.fault]
  rfl

theorem sight_of_fault {r : Reader} {ts : List Token} {fault : LexicalFault}
    (h : r.Shows ts (some fault)) : r.sight = ts := by
  rw [sight, h.upcoming, h.fault]
  exact List.append_nil ts

/-- A reader shows the first token in sight, or it meets the fault behind the tokens. -/
theorem sight_cases (r : Reader) :
    (∃ t r', r.current = (.ok t, r') ∧ t.isEnd = false ∧ r'.sight = r.sight ∧
      r.sight = t :: (r'.consume t).sight) ∨
    (∃ t r', r.current = (.ok t, r') ∧ t.isEnd = true ∧ r'.sight = r.sight ∧ r.sight = [t]) ∨
    (∃ fault r', r.current = (.error (.lexical fault), r') ∧ r.Shows [] (some fault)) := by
  rcases r.current_cases with ⟨t, r', hr', ht, hshows, hfault, hup⟩ | ⟨t, r', hr', ht, hshows, hr⟩ |
    hlexical
  · obtain ⟨ts, hahead⟩ := ahead_current hr'
    have hfinish := finish_current hr'
    refine .inl ⟨t, r', hr', ht, ?_, ?_⟩
    · rw [sight, hshows.upcoming, hshows.fault, hfinish, sight]
    · rw [sight, hup, sight, hfault, finish_consume hahead ht, hfinish, List.cons_append]
  · obtain ⟨ts, hahead⟩ := ahead_current hr'
    have hfinish := finish_current hr'
    have hsight := sight_of_shows hr
    rw [← hfinish, finish_of_end hahead ht] at hsight
    refine .inr (.inl ⟨t, r', hr', ht, ?_, hsight⟩)
    rw [sight_of_shows hshows, finish_of_end hahead ht, hsight]
  · exact .inr (.inr hlexical)

/-! ## Consuming tokens -/

/-- From the first reader to the second, tokens are looked at and those of the list are taken. -/
inductive Consumes : Reader → List Token → Reader → Prop where
  | refl (r : Reader) : Consumes r [] r
  | look {r r₁ r₂ : Reader} {t : Token} {ts : List Token} (h : r.current = (.ok t, r₁))
      (rest : Consumes r₁ ts r₂) : Consumes r ts r₂
  | take {r r₁ r₂ : Reader} {t : Token} {ts : List Token} (h : r.current = (.ok t, r₁))
      (ht : t.isEnd = false) (rest : Consumes (r₁.consume t) ts r₂) : Consumes r (t :: ts) r₂

theorem Consumes.trans {r r₁ r₂ : Reader} {ts us : List Token} (h : r.Consumes ts r₁)
    (h' : r₁.Consumes us r₂) : r.Consumes (ts ++ us) r₂ := by
  induction h with
  | refl => exact h'
  | look hcurrent _ ih => exact .look hcurrent (ih h')
  | take hcurrent ht _ ih => exact .take hcurrent ht (ih h')

theorem sight_current {r r' : Reader} {t : Token} (h : r.current = (.ok t, r')) :
    r'.sight = r.sight ∧ r.sight.head? = some t ∧
      (t.isEnd = false → r.sight = t :: (r'.consume t).sight) := by
  rcases r.sight_cases with ⟨u, s, hs, _, hsight, hcons⟩ | ⟨u, s, hs, hu, hsight, hcons⟩ |
    ⟨_, _, hs, _⟩
  · rw [h] at hs
    cases hs
    exact ⟨hsight, by rw [hcons]; rfl, fun _ => hcons⟩
  · rw [h] at hs
    cases hs
    exact ⟨hsight, by rw [hcons]; rfl, fun ht => by rw [hu] at ht; cases ht⟩
  · rw [h] at hs
    cases hs

/-- What is shown is shown again. -/
theorem current_current {r r' : Reader} {t : Token} (h : r.current = (.ok t, r')) :
    r'.current = (.ok t, r') := by
  obtain ⟨ts, hahead⟩ := ahead_current h
  exact current_of_ahead hahead

theorem current_of_look {r r' : Reader} {t : Token} {h : r'.remaining < r.remaining + 1}
    (hlook : r.look = .done t r' h) : r'.current = (.ok t, r') := by
  rcases hcurrent : r.current with ⟨fault | u, s⟩
  · rw [look_of_fault hcurrent] at hlook
    cases hlook
  · rw [look_of_current hcurrent] at hlook
    cases hlook
    exact current_current hcurrent

theorem current_of_sight {r : Reader} {t : Token} {ts : List Token} (h : r.sight = t :: ts) :
    ∃ r', r.current = (.ok t, r') := by
  rcases r.sight_cases with ⟨u, s, hs, _, _, hcons⟩ | ⟨u, s, hs, _, _, hcons⟩ | ⟨_, _, _, hshows⟩
  · rw [h] at hcons
    cases hcons
    exact ⟨s, hs⟩
  · rw [h] at hcons
    cases hcons
    exact ⟨s, hs⟩
  · rw [sight_of_fault hshows] at h
    cases h

theorem current_eq_error {r r' : Reader} {fault : ParseFault} (h : r.current = (.error fault, r')) :
    ∃ e, fault = .lexical e ∧ r.Shows [] (some e) := by
  rcases r.sight_cases with ⟨_, _, hs, _⟩ | ⟨_, _, hs, _⟩ | ⟨e, _, hs, hshows⟩
  · rw [h] at hs
    cases hs
  · rw [h] at hs
    cases hs
  · rw [h] at hs
    cases hs
    exact ⟨e, rfl, hshows⟩

theorem upcoming_of_fault {r s : Reader} {fault : ParseFault} (h : r.current = (.error fault, s)) :
    r.upcoming = s.upcoming := by
  rcases r.current_shape with ⟨t, ts, _, hcurrent⟩ | ⟨t, items, _, _, _, hcurrent⟩ |
    ⟨supply, _, _, _, hcurrent⟩ | ⟨e, hahead, hex, hsupply, hcurrent⟩
  · rw [hcurrent] at h
    cases h
  · rw [hcurrent] at h
    cases h
  · rw [hcurrent] at h
    cases h
  · rw [hcurrent] at h
    cases h
    simp [upcoming, stream, hahead, hex, hsupply]

theorem Consumes.moves {r r' : Reader} {ts : List Token} (h : r.Consumes ts r') :
    r.Moves ts r' := by
  induction h with
  | refl r => exact .refl r
  | look hcurrent _ ih => exact (current_eq_ok hcurrent).1.trans ih
  | take hcurrent ht _ ih => exact ((current_eq_ok hcurrent).2.2 ht).trans ih

theorem Consumes.sight_eq {r r' : Reader} {ts : List Token} (h : r.Consumes ts r') :
    r.sight = ts ++ r'.sight := by
  induction h with
  | refl => rfl
  | look hcurrent _ ih => rw [← (sight_current hcurrent).1, ih]
  | take hcurrent ht _ ih => rw [(sight_current hcurrent).2.2 ht, ih, List.cons_append]

end Reader

end NordLang

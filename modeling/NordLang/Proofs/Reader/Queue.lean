import NordLang.Proofs.Reader.Sight

/-!
# The queue of a reader

A reader pulls tokens from its supply into a queue and takes them off at the other end.  Whatever
is pulled, and whenever, what the reader has in sight stays the same: pulling early is invisible.

* `sight_fill` says so for the one function that pulls.
* `Draws ts` relates a reader to what it becomes by pulling tokens and taking `ts`.
* `Faithful` says how the tokens taken, the queue and the supply make up the stream that the reader
  was given.  It follows from `Tracks`, which pulling and taking preserve (`Tracks.draws`).
-/

namespace NordLang

variable {items : List (Option Token)} {consumed : List Token}

@[simp] theorem realTokens_append (xs ys : List (Option Token)) :
    realTokens (xs ++ ys) = realTokens xs ++ if openEnded xs then realTokens ys else [] := by
  fun_induction realTokens xs with
  | case1 t xs ht => simp [realTokens, openEnded, ht]
  | case2 t xs ht ih => simp [realTokens, openEnded, ht, ih]
  | case3 xs => simp [realTokens, openEnded]
  | case4 => simp [openEnded]

@[simp] theorem endIn?_append (xs ys : List (Option Token)) :
    endIn? (xs ++ ys) = if openEnded xs then endIn? ys else endIn? xs := by
  fun_induction endIn? xs with
  | case1 t xs ht => simp [endIn?, openEnded, ht]
  | case2 t xs ht ih => simp [endIn?, openEnded, ht, ih]
  | case3 xs => simp [endIn?, openEnded]
  | case4 => simp [openEnded]

@[simp] theorem openEnded_append (xs ys : List (Option Token)) :
    openEnded (xs ++ ys) = (openEnded xs && openEnded ys) := by
  fun_induction openEnded xs with
  | case1 t xs ih => simp [openEnded, ih, Bool.and_assoc]
  | case2 xs => simp [openEnded]
  | case3 => simp

theorem openEnded_map_some {ts : List Token} (h : ∀ t ∈ ts, t.isEnd = false) :
    openEnded (ts.map some) = true := by
  induction ts with
  | nil => rfl
  | cons t ts ih => simp [openEnded, h t (by simp), ih fun u hu => h u (by simp [hu])]

theorem nothing_of_hasEnded (h : hasEnded items = true) :
    realTokens items = [] ∧ endIn? items = none := by
  rcases items with _ | ⟨_ | t, rest⟩
  · exact ⟨rfl, rfl⟩
  · exact ⟨rfl, rfl⟩
  · cases h

/-- The end of the input of a stream: the one that stands in it, or the one behind its tokens. -/
def endOf (items : List (Option Token)) : Token :=
  (endIn? items).getD (Token.endAfter (realTokens items).getLast?)

theorem isEnd_endIn? {e : Token} (h : endIn? items = some e) : e.isEnd = true := by
  fun_induction endIn? items with
  | case1 t items ht =>
    cases h
    exact ht
  | case2 t items ht ih => exact ih h
  | case3 => cases h
  | case4 => cases h

@[simp] theorem isEnd_endOf (items : List (Option Token)) : (endOf items).isEnd = true := by
  unfold endOf
  cases h : endIn? items with
  | none => exact Reader.isEnd_endAfter _
  | some e => exact isEnd_endIn? h

namespace Reader

variable {r r' : Reader} {t : Token} {ts : List Token}

/-! ## Pulling early -/

theorem faultAhead_of_supply (h : r.supply.fault = none) : r.faultAhead = none := by
  simp [faultAhead, h]

theorem sight_of_supply (h : r.supply.fault = none) : r.sight = r.upcoming ++ [r.finish] :=
  sight_of_shows ⟨rfl, faultAhead_of_supply h⟩

theorem sight_eq_of_stream (hup : r'.upcoming = r.upcoming)
    (hend : endIn? r'.stream = endIn? r.stream) (hlast : r'.last = r.last)
    (hfault : r'.faultAhead = r.faultAhead) : r'.sight = r.sight := by
  rw [sight, sight, hup, hfault, finish, finish, hend, hup, hlast]

/-- Once the supply has ended, the end of the input is added where it would have been shown. -/
theorem sight_pad (n : Nat) (hex : r.exhausted = true) : (r.pad n).sight = r.sight := by
  have hstream : (r.pad n).stream = r.stream ++ List.replicate n (some r.endToken) := by
    simp [stream, pad, hex]
  have hfault : (r.pad n).faultAhead = r.faultAhead := by simp [faultAhead, pad, hex]
  have hreal : realTokens (List.replicate n (some r.endToken)) = [] := by
    cases n with
    | zero => rfl
    | succ n => simp [List.replicate_succ, realTokens]
  have hup : (r.pad n).upcoming = r.upcoming := by
    simp [upcoming, hstream, hreal]
  cases n with
  | zero =>
    rw [List.replicate_zero, List.append_nil] at hstream
    exact sight_eq_of_stream hup (by rw [hstream]) rfl hfault
  | succ n =>
    by_cases hopen : openEnded r.stream = true
    · -- No end stands in the queue yet, so the one added is the one made up.
      have hqueue : r.stream = r.ahead.map some := by simp [stream, hex]
      have hahead : r.upcoming = r.ahead := by
        rw [upcoming, hqueue]
        exact realTokens_map_some (isEnd_of_openEnded (hqueue ▸ hopen))
      have hnone : endIn? r.stream = none := by
        rw [hqueue]
        exact endIn?_map_some (isEnd_of_openEnded (hqueue ▸ hopen))
      have hfinish : (r.pad (n + 1)).finish = r.finish := by
        rw [finish, hstream, endIn?_append, if_pos hopen, finish, hnone, hahead]
        simp only [List.replicate_succ, endIn?, isEnd_endToken, if_true, Option.getD_some,
          Option.getD_none]
        rfl
      rw [sight, sight, hup, hfault, hfinish]
    · refine sight_eq_of_stream hup ?_ rfl hfault
      rw [hstream, endIn?_append, if_neg hopen]

/-- A token that is pulled was in sight. -/
theorem sight_pull {rest : List (Option Token)} (hex : r.exhausted = false)
    (hitems : r.supply.items = some t :: rest) :
    sight ⟨r.ahead ++ [t], r.last, t.isEnd, { r.supply with items := rest }⟩ = r.sight := by
  by_cases ht : t.isEnd = true
  · refine sight_eq_of_stream ?_ ?_ rfl ?_
    · simp [upcoming, stream, hex, hitems, ht, realTokens]
    · simp [stream, hex, hitems, ht, endIn?]
    · simp [faultAhead, stream, hex, hitems, ht, openEnded]
  · have hstream : stream ⟨r.ahead ++ [t], r.last, t.isEnd, { r.supply with items := rest }⟩ =
        r.stream := by
      simp [stream, hex, hitems, ht]
    refine sight_eq_of_stream (by rw [upcoming, hstream, upcoming]) (by rw [hstream]) rfl ?_
    rw [faultAhead, hstream, faultAhead, hex, Bool.eq_false_iff.2 ht]

/-- Where nothing more comes, the supply may as well have been found to have ended. -/
theorem sight_ended {supply : Supply} (hended : hasEnded r.supply.items = true)
    (hfault : r.supply.fault = none) (hex : r.exhausted = false) :
    sight ⟨r.ahead, r.last, true, supply⟩ = r.sight := by
  have hnothing := nothing_of_hasEnded hended
  refine sight_eq_of_stream ?_ ?_ rfl ?_
  · simp [upcoming, stream, hex, hnothing.1]
  · by_cases hopen : openEnded (r.ahead.map some) = true
    · have hnone := endIn?_map_some (isEnd_of_openEnded hopen)
      simp [stream, hex, hopen, hnothing.2, hnone]
    · simp [stream, hex, hopen]
  · rw [faultAhead_of_supply hfault]
    rfl

/-- What one more token takes: it is made up, pulled, or found to be missing. -/
theorem fillMore_cases (n : Nat) (h : r.supply.fault = none) :
    (r.exhausted = true ∧ fillMore (n + 1) r = (.ok (), r.pad (n + 1))) ∨
    (∃ t rest, r.exhausted = false ∧ r.supply.items = some t :: rest ∧
      fillMore (n + 1) r =
        fillMore n ⟨r.ahead ++ [t], r.last, t.isEnd, { r.supply with items := rest }⟩) ∨
    (r.exhausted = false ∧ hasEnded r.supply.items = true ∧
      fillMore (n + 1) r = (.ok (), pad (n + 1)
        ⟨r.ahead, r.last, true, { r.supply with items := r.supply.items.tail }⟩)) := by
  by_cases hex : r.exhausted = true
  · exact .inl ⟨hex, by simp [fillMore, hex]⟩
  · rw [Bool.not_eq_true] at hex
    rcases hsupply : r.supply with ⟨_ | ⟨_ | t, rest⟩, fault⟩
    · have hfault : fault = none := by rw [hsupply] at h; exact h
      refine .inr (.inr ⟨hex, rfl, ?_⟩)
      simp [fillMore, hex, Supply.pull, hsupply, hfault]
    · refine .inr (.inr ⟨hex, rfl, ?_⟩)
      simp [fillMore, hex, Supply.pull, hsupply]
    · refine .inr (.inl ⟨t, rest, hex, rfl, ?_⟩)
      simp [fillMore, hex, Supply.pull, hsupply]

theorem fillMore_spec (n : Nat) (h : r.supply.fault = none) :
    (fillMore n r).1 = .ok () ∧ (fillMore n r).2.sight = r.sight ∧
      (fillMore n r).2.supply.fault = none := by
  induction n generalizing r with
  | zero => exact ⟨rfl, rfl, h⟩
  | succ n ih =>
    rcases fillMore_cases n h with ⟨hex, hfill⟩ | ⟨t, rest, hex, hitems, hfill⟩ |
      ⟨hex, hended, hfill⟩
    · rw [hfill]
      exact ⟨rfl, sight_pad (n + 1) hex, h⟩
    · rw [hfill, ← sight_pull hex hitems]
      exact ih h
    · rw [hfill]
      exact ⟨rfl, (sight_pad (n + 1) rfl).trans (sight_ended hended h hex), h⟩

theorem sight_fill (n : Nat) (h : r.supply.fault = none) : (r.fill n).2.sight = r.sight :=
  (fillMore_spec _ h).2.1

/-! ## Drawing tokens -/

/-- From the first reader to the second, tokens are pulled and those of the list are taken. -/
inductive Draws : Reader → List Token → Reader → Prop where
  | refl (r : Reader) : Draws r [] r
  | fill {r r' : Reader} {ts : List Token} (n : Nat) (rest : Draws (r.fill n).2 ts r') :
      Draws r ts r'
  | take {r r' : Reader} {t : Token} {queue ts : List Token} (hahead : r.ahead = t :: queue)
      (ht : t.isEnd = false) (rest : Draws (r.consume t) ts r') : Draws r (t :: ts) r'

theorem Draws.trans {r r₁ r₂ : Reader} {ts us : List Token} (h : r.Draws ts r₁)
    (h' : r₁.Draws us r₂) : r.Draws (ts ++ us) r₂ := by
  induction h with
  | refl => exact h'
  | fill n _ ih => exact .fill n (ih h')
  | take hahead ht _ ih => exact .take hahead ht (ih h')

theorem current_eq_fill (h : r.current = (.ok t, r')) : (r.fill 1).2 = r' := by
  unfold current at h
  split at h
  · cases h
  · next s hfill =>
    cases h
    rw [hfill]

theorem Consumes.draws (h : r.Consumes ts r') : r.Draws ts r' := by
  induction h with
  | refl r => exact .refl r
  | look hcurrent _ ih =>
    rw [← current_eq_fill hcurrent] at ih
    exact .fill 1 ih
  | take hcurrent ht _ ih =>
    obtain ⟨queue, hahead⟩ := ahead_current hcurrent
    have hdraws := Draws.take hahead ht ih
    rw [← current_eq_fill hcurrent] at hdraws
    exact .fill 1 hdraws

@[simp] theorem supply_consume (t : Token) (r : Reader) : (r.consume t).supply = r.supply := by
  unfold consume
  split <;> rfl

theorem sight_consume {queue : List Token} (hahead : r.ahead = t :: queue) (ht : t.isEnd = false) :
    r.sight = t :: (r.consume t).sight :=
  (sight_current (current_of_ahead hahead)).2.2 ht

/-- Taking tokens shortens the sight by them, and nothing else changes it. -/
theorem Draws.sight_eq (h : r.Draws ts r') (hfault : r.supply.fault = none) :
    r.sight = ts ++ r'.sight ∧ r'.supply.fault = none := by
  induction h with
  | refl => exact ⟨rfl, hfault⟩
  | fill n _ ih =>
    rw [← sight_fill n hfault]
    exact ih (fillMore_spec _ hfault).2.2
  | @take r r' t queue ts hahead ht _ ih =>
    obtain ⟨hsight, hleft⟩ := ih (by rw [supply_consume, hfault])
    exact ⟨by rw [sight_consume hahead ht, hsight, List.cons_append], hleft⟩

/-! ## The stream in three parts -/

/-- The tokens of the stream that have not been pulled yet. -/
def unread (items : List (Option Token)) (r : Reader) : List Token :=
  (realTokens items).drop (items.length - r.supply.items.length)

/-- The tokens in the queue, without the ends of the input behind them. -/
def queued (r : Reader) : List Token :=
  r.ahead.filter fun t => !t.isEnd

/-- What a reader of the stream `items` looks like when the tokens `consumed` have been taken. -/
structure Faithful (items : List (Option Token)) (consumed : List Token) (r : Reader) : Prop where
  /-- What is left of the stream is its rest. -/
  supply : r.supply.items <:+ items
  /-- No token is lost, doubled or moved. -/
  tokens : consumed ++ r.queued ++ r.unread items = realTokens items
  /-- Ends of the input stand behind the tokens in the queue, and only if all tokens were pulled. -/
  ends : ∃ n, r.ahead = r.queued ++ List.replicate n (endOf items) ∧
    (0 < n → r.unread items = [])
  last : r.last = consumed.getLast?
  next : r.current.1 = .ok (((realTokens items).drop consumed.length).headD (endOf items))

/-- What is known of the queue and the supply of a reader of the stream `items`. -/
structure Tracks (items : List (Option Token)) (consumed : List Token) (r : Reader) : Prop where
  fault : r.supply.fault = none
  sight : consumed ++ r.sight = realTokens items ++ [endOf items]
  last : r.last = consumed.getLast?
  queue : ∃ n, r.ahead = r.queued ++ List.replicate n (endOf items) ∧ (0 < n → r.exhausted = true)
  supply : r.supply.items <:+ items
  toCome : r.unread items = if r.exhausted then [] else realTokens r.supply.items

theorem Tracks.finish_eq (h : r.Tracks items consumed) : r.finish = endOf items := by
  have hsight := h.sight
  rw [sight_of_supply h.fault, ← List.append_assoc] at hsight
  exact List.singleton_inj.1 (List.append_inj' hsight rfl).2

theorem Tracks.upcoming_eq (h : r.Tracks items consumed) :
    consumed ++ r.upcoming = realTokens items := by
  have hsight := h.sight
  rw [sight_of_supply h.fault, ← List.append_assoc] at hsight
  exact (List.append_inj' hsight rfl).1

/-- The queue holds no end of the input as long as the supply has not ended. -/
theorem Tracks.ahead_eq (h : r.Tracks items consumed) (hex : r.exhausted = false) :
    r.ahead = r.queued := by
  obtain ⟨n, hahead, hn⟩ := h.queue
  rcases n with _ | n
  · rw [List.replicate_zero, List.append_nil] at hahead
    exact hahead
  · rw [hex] at hn
    cases hn (Nat.succ_pos n)

theorem isEnd_of_mem_queued (h : t ∈ r.queued) : t.isEnd = false := by
  simpa using (List.mem_filter.1 h).2

theorem queued_append_replicate (n : Nat) {e : Token} (he : e.isEnd = true)
    (h : r'.ahead = r.ahead ++ List.replicate n e) : r'.queued = r.queued := by
  simp [queued, h, he]

theorem tracks_ofItems (items : List (Option Token)) :
    (ofSupply (.ofItems items)).Tracks items [] := by
  have hstream : (ofSupply (.ofItems items)).stream = items := rfl
  constructor
  · rfl
  · rw [sight_of_supply rfl, finish, upcoming, hstream, List.nil_append, endOf]
    cases (realTokens items).getLast? <;> rfl
  · rfl
  · exact ⟨0, rfl, fun h => absurd h (Nat.lt_irrefl 0)⟩
  · exact List.suffix_refl items
  · simp [unread, ofSupply, Supply.ofItems]

theorem Tracks.endToken_eq (h : r.Tracks items consumed) (hex : r.exhausted = true) :
    r.endToken = endOf items := by
  obtain ⟨n, hahead, _⟩ := h.queue
  rcases n with _ | n
  · -- The end of the input is made up behind the last token, as it would be for the whole stream.
    rw [List.replicate_zero, List.append_nil] at hahead
    have hends : ∀ t ∈ r.ahead, t.isEnd = false := fun t ht =>
      isEnd_of_mem_queued (hahead ▸ ht)
    have hstream : r.stream = r.ahead.map some := by simp [stream, hex]
    rw [← h.finish_eq, finish, upcoming, hstream, endIn?_map_some hends, realTokens_map_some hends]
    rfl
  · have hlast : r.ahead.getLast? = some (endOf items) := by
      rw [hahead, List.getLast?_append, List.getLast?_replicate]
      simp
    rw [endToken, hlast, Option.some_or, Token.endAfter, if_pos (isEnd_endOf items)]

theorem Tracks.pad (h : r.Tracks items consumed) (hex : r.exhausted = true) (n : Nat) :
    (r.pad n).Tracks items consumed := by
  have hend := h.endToken_eq hex
  have hqueued : (r.pad n).queued = r.queued :=
    queued_append_replicate n (isEnd_endToken r) rfl
  refine ⟨h.fault, ?_, h.last, ?_, h.supply, h.toCome⟩
  · rw [sight_pad n hex]
    exact h.sight
  · obtain ⟨m, hahead, _⟩ := h.queue
    refine ⟨m + n, ?_, fun _ => hex⟩
    show r.ahead ++ List.replicate n r.endToken = _
    rw [hend, hqueued, ← List.replicate_append_replicate, ← List.append_assoc, ← hahead]

theorem Tracks.pull (h : r.Tracks items consumed) {rest : List (Option Token)}
    (hex : r.exhausted = false) (hitems : r.supply.items = some t :: rest) :
    Tracks items consumed ⟨r.ahead ++ [t], r.last, t.isEnd, { r.supply with items := rest }⟩ := by
  have hsuffix : some t :: rest <:+ items := hitems ▸ h.supply
  have hunread := h.toCome
  rw [unread, hex, hitems] at hunread
  refine ⟨h.fault, ?_, h.last, ?_, (List.suffix_cons (some t) rest).trans hsuffix, ?_⟩
  · rw [sight_pull hex hitems]
    exact h.sight
  · have hahead := h.ahead_eq hex
    by_cases ht : t.isEnd = true
    · have hfinish : r.finish = t := by
        have hopen : openEnded (r.ahead.map some) = true :=
          openEnded_map_some fun u hu => isEnd_of_mem_queued (hahead ▸ hu)
        simp [finish, stream, hex, hitems, hopen, endIn?, ht]
      rw [h.finish_eq] at hfinish
      refine ⟨1, ?_, fun _ => ht⟩
      rw [queued_append_replicate (r := r) 1 ht rfl, ← hahead, hfinish]
      rfl
    · refine ⟨0, ?_, fun h0 => absurd h0 (Nat.lt_irrefl 0)⟩
      rw [Bool.not_eq_true] at ht
      rw [queued] at hahead
      simp [queued, ht, ← hahead]
  · have hlength := hsuffix.length_le
    rw [List.length_cons] at hlength hunread
    have hstep : items.length - rest.length = (items.length - (rest.length + 1)) + 1 := by omega
    show (realTokens items).drop (items.length - rest.length) = _
    rw [hstep, ← List.tail_drop, hunread]
    by_cases ht : t.isEnd = true
    · simp [realTokens, ht]
    · simp [realTokens, ht]

theorem Tracks.ended (h : r.Tracks items consumed) (hex : r.exhausted = false)
    (hended : hasEnded r.supply.items = true) :
    Tracks items consumed ⟨r.ahead, r.last, true, { r.supply with items := r.supply.items.tail }⟩ := by
  have hsuffix := (List.tail_suffix r.supply.items).trans h.supply
  refine ⟨h.fault, ?_, h.last, ?_, hsuffix, ?_⟩
  · rw [sight_ended hended h.fault hex]
    exact h.sight
  · obtain ⟨n, hahead, _⟩ := h.queue
    exact ⟨n, hahead, fun _ => rfl⟩
  · have hunread := h.toCome
    rw [unread, hex, (nothing_of_hasEnded hended).1] at hunread
    have hlength : r.supply.items.tail.length ≤ r.supply.items.length :=
      (List.tail_suffix r.supply.items).length_le
    show (realTokens items).drop (items.length - r.supply.items.tail.length) = []
    apply List.drop_eq_nil_of_le
    have hdropped : (realTokens items).length ≤ items.length - r.supply.items.length :=
      List.drop_eq_nil_iff.1 hunread
    omega

theorem Tracks.fillMore (h : r.Tracks items consumed) (n : Nat) :
    (Reader.fillMore n r).2.Tracks items consumed := by
  induction n generalizing r with
  | zero => exact h
  | succ n ih =>
    rcases fillMore_cases n h.fault with ⟨hex, hfill⟩ | ⟨t, rest, hex, hitems, hfill⟩ |
      ⟨hex, hended, hfill⟩
    · rw [hfill]
      exact h.pad hex (n + 1)
    · rw [hfill]
      exact ih (h.pull hex hitems)
    · rw [hfill]
      exact (h.ended hex hended).pad rfl (n + 1)

theorem Tracks.take {queue : List Token} (h : r.Tracks items consumed)
    (hahead : r.ahead = t :: queue) (ht : t.isEnd = false) :
    (r.consume t).Tracks items (consumed ++ [t]) := by
  have hconsume : r.consume t = { r with ahead := queue, last := some t } := by
    simp [consume, ht, hahead]
  have hqueued : r.queued = t :: (r.consume t).queued := by
    simp [queued, hahead, ht, hconsume]
  refine ⟨?_, ?_, ?_, ?_, ?_, ?_⟩
  · rw [supply_consume]
    exact h.fault
  · rw [← h.sight, sight_consume hahead ht, List.append_assoc, List.singleton_append]
  · rw [hconsume, List.getLast?_append]
    rfl
  · obtain ⟨n, hold, hn⟩ := h.queue
    rw [hahead, hqueued, List.cons_append] at hold
    refine ⟨n, ?_, fun h0 => ?_⟩
    · rw [← (List.cons.inj hold).2, hconsume]
    · rw [hconsume]
      exact hn h0
  · rw [supply_consume]
    exact h.supply
  · rw [hconsume]
    exact h.toCome

/-- What is known of a reader stays known as tokens are pulled and taken. -/
theorem Tracks.draws (h : r.Tracks items consumed) (hdraws : r.Draws ts r') :
    r'.Tracks items (consumed ++ ts) := by
  induction hdraws generalizing consumed with
  | refl =>
    rw [List.append_nil]
    exact h
  | fill n _ ih => exact ih (h.fillMore _)
  | take hahead ht _ ih =>
    rw [List.append_cons]
    exact ih (h.take hahead ht)

theorem Tracks.faithful (h : r.Tracks items consumed) : r.Faithful items consumed := by
  have htokens : r.upcoming = r.queued ++ r.unread items := by
    rw [h.toCome]
    by_cases hex : r.exhausted = true
    · obtain ⟨n, hahead, _⟩ := h.queue
      have hstream : r.stream = (r.queued ++ List.replicate n (endOf items)).map some := by
        rw [← hahead]
        simp [stream, hex]
      have hends : realTokens ((List.replicate n (endOf items)).map some) = [] := by
        cases n with
        | zero => rfl
        | succ n => simp [List.replicate_succ, realTokens]
      rw [upcoming, hstream, List.map_append,
        realTokens_map_some_append fun t => isEnd_of_mem_queued, hends, if_pos hex]
    · rw [Bool.not_eq_true] at hex
      have hstream : r.stream = r.queued.map some ++ r.supply.items := by
        rw [← h.ahead_eq hex]
        simp [stream, hex]
      rw [upcoming, hstream, realTokens_map_some_append fun t => isEnd_of_mem_queued, hex]
      rfl
  have hup := h.upcoming_eq
  refine ⟨h.supply, ?_, ?_, h.last, ?_⟩
  · rw [List.append_assoc, ← htokens, hup]
  · obtain ⟨n, hahead, hn⟩ := h.queue
    refine ⟨n, hahead, fun h0 => ?_⟩
    rw [h.toCome, if_pos (hn h0)]
  · have hsight := sight_of_supply h.fault
    rw [h.finish_eq] at hsight
    rw [← hup, List.drop_left]
    cases hnext : r.upcoming with
    | nil =>
      rw [hnext] at hsight
      obtain ⟨s, hs⟩ := current_of_sight hsight
      rw [hs]
      rfl
    | cons t ts =>
      rw [hnext] at hsight
      obtain ⟨s, hs⟩ := current_of_sight hsight
      rw [hs]
      rfl

end Reader

end NordLang

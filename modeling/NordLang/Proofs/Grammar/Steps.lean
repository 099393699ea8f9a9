import NordLang.Proofs.Grammar.Lookahead
import NordLang.Proofs.Reader.Queue

/-!
# Steps of a reader

A reader is used step by step: it is asked for a token, told to pull some, or handed to a function
of the grammar.  A step may fail, and others can follow it all the same.

* `Step.run` makes one step and `runAll` many.
* `Reliable` is what all steps have in common.  They only pull and take tokens, they are refused by
  the token that is next afterwards, and their answers depend on what is in sight alone.
* `queue_of_runAll` puts this together with what is known of the queue.  It holds after every run of
  steps over every stream.
-/

namespace NordLang

namespace Reader

open Grammar

variable {α β : Type}

/-- What a step comes to. -/
inductive Answer where
  | nothing
  | token (t : Token)
  | found (t : Option Token)
  | flag (b : Bool)
  | tree (tree : Tree)
  | trees (trees : List Tree)
  | field (field : Scalar × Tree)

inductive Step where
  /-- Pulls until there are `count` tokens in the queue; a negative number asks for none. -/
  | fill (count : Int)
  | current
  | advance
  | atEnd
  | expect (kind : TokenKind) (what : String)
  | accept (kinds : List TokenKind)
  | parse
  | parseExpression
  | parseIf
  | parseLet
  | parseArray
  | parseObject
  | parseObjectField
  | parseLambda
  | parseBlock
  | parseBareBlock (opener : Option Token)
  | parseBody
  | parseSequence
  | parseBinary (k : Nat)
  | parseUnary
  | parseSuffixed
  | parsePrimary
  | parseCall (callee : Tree)
  | parseIndex (callee : Tree)

/-- A result with its value as an answer. -/
def answering (form : α → Answer) (x : Result α) : Result Answer :=
  (x.1.map form, x.2)

def Step.run (step : Step) (r : Reader) : Result Answer :=
  match step with
  | fill count => answering (fun _ => .nothing) (r.fill count.toNat)
  | current => answering .token r.current
  | advance => answering .token r.advance
  | atEnd => answering .flag r.atEnd
  | expect kind what => answering .token (r.expect kind what)
  | accept kinds => answering .found (r.accept kinds)
  | parse => answering .tree r.parse
  | parseExpression => answering .tree r.parseExpression
  | parseIf => answering .tree r.parseIf
  | parseLet => answering .tree r.parseLet
  | parseArray => answering .tree r.parseArray
  | parseObject => answering .tree r.parseObject
  | parseObjectField => answering .field r.parseObjectField
  | parseLambda => answering .tree r.parseLambda
  | parseBlock => answering .tree r.parseBlock
  | parseBareBlock opener => answering .tree (r.parseBareBlock opener)
  | parseBody => answering .trees r.parseBody
  | parseSequence => answering .trees r.parseSequence
  | parseBinary k => answering .tree (r.parseBinary k)
  | parseUnary => answering .tree r.parseUnary
  | parseSuffixed => answering .tree r.parseSuffixed
  | parsePrimary => answering .tree r.parsePrimary
  | parseCall callee => answering .tree (r.parseCall callee)
  | parseIndex callee => answering .tree (r.parseIndex callee)

/-- Makes steps one after another, whether they fail or not. -/
def runAll : List Step → Reader → List (Except ParseFault Answer) × Reader
  | [], r => ([], r)
  | step :: steps, r =>
    let (answer, r₁) := step.run r
    let (answers, r₂) := runAll steps r₁
    (answer :: answers, r₂)

/-! ## What all steps have in common -/

/-- If no lexical fault is to be met, the step `f` pulls and takes tokens and does nothing else to a
reader; it can only be refused by a token; and it does not see what was pulled beforehand. -/
structure Reliable (f : Reader → Result α) : Prop where
  draws : ∀ r : Reader, r.supply.fault = none → ∃ ts, r.Draws ts (f r).2
  refusal : ∀ (r : Reader) fault, r.supply.fault = none → (f r).1 = .error fault →
    ∃ t, fault.token? = some t ∧ (f r).2.current.1 = .ok t
  alike : ∀ r r' : Reader, r.supply.fault = none → r'.supply.fault = none → r'.sight = r.sight →
    (f r').1 = (f r).1 ∧ (f r').2.sight = (f r).2.sight

theorem Reliable.answering {f : Reader → Result α} (h : Reliable f) (form : α → Answer) :
    Reliable fun r => answering form (f r) := by
  refine ⟨h.draws, fun r fault hfault herror => ?_, fun r r' hfault hfault' hsight => ?_⟩
  · refine h.refusal r fault hfault ?_
    rcases hresult : (f r).1 with fault' | a
    · rw [Reader.answering, hresult] at herror
      cases herror
      rfl
    · rw [Reader.answering, hresult] at herror
      cases herror
  · obtain ⟨hvalue, hleft⟩ := h.alike r r' hfault hfault' hsight
    exact ⟨congrArg (Except.map form) hvalue, hleft⟩

theorem reliable_fill (n : Nat) : Reliable fun r => r.fill n := by
  refine ⟨fun r _ => ⟨[], .fill n (.refl _)⟩, fun r fault hfault herror => ?_,
    fun r r' hfault hfault' hsight => ⟨?_, ?_⟩⟩
  · rw [fill, (fillMore_spec _ hfault).1] at herror
    cases herror
  · rw [fill, fill, (fillMore_spec _ hfault).1, (fillMore_spec _ hfault').1]
  · rw [sight_fill n hfault, sight_fill n hfault', hsight]

theorem current_of_supply {r : Reader} (h : r.supply.fault = none) :
    ∃ t s, r.current = (.ok t, s) := by
  rcases hcurrent : r.current with ⟨fault | t, s⟩
  · obtain ⟨e, _, hshows⟩ := current_eq_error hcurrent
    cases (faultAhead_of_supply h).symm.trans hshows.fault
  · exact ⟨t, s, rfl⟩

theorem draws_consume {r s : Reader} {t : Token} (h : r.current = (.ok t, s)) :
    ∃ ts, r.Draws ts (s.consume t) := by
  by_cases ht : t.isEnd = true
  · rw [consume, if_pos ht]
    exact ⟨[], (Consumes.look h (.refl s)).draws⟩
  · rw [Bool.not_eq_true] at ht
    exact ⟨[t], (Consumes.take h ht (.refl _)).draws⟩

/-- What is in sight behind the next token depends on what is in sight with it. -/
theorem sight_consume_current {r s : Reader} {t : Token} (h : r.current = (.ok t, s)) :
    (s.consume t).sight = if t.isEnd then r.sight else r.sight.tail := by
  obtain ⟨hsight, _, hcons⟩ := sight_current h
  by_cases ht : t.isEnd = true
  · rw [consume, if_pos ht, if_pos ht, hsight]
  · rw [if_neg ht, hcons (Bool.eq_false_iff.2 ht), List.tail_cons]

/-- A step may look at the next token, answer by it and take it, unless it is refused. -/
theorem reliable_of_current {f : Reader → Result α} (answer : Token → Except ParseFault α)
    (takes : Token → Bool)
    (hf : ∀ r t s, r.current = (.ok t, s) →
      f r = (answer t, if takes t then s.consume t else s))
    (hrefusal : ∀ t fault, answer t = .error fault → fault.token? = some t ∧ takes t = false) :
    Reliable f := by
  refine ⟨fun r hfault => ?_, fun r fault hfault herror => ?_, fun r r' hfault hfault' hsight => ?_⟩
  · obtain ⟨t, s, hs⟩ := current_of_supply hfault
    rw [hf r t s hs]
    by_cases htakes : takes t = true
    · simp only [if_pos htakes]
      exact draws_consume hs
    · simp only [if_neg htakes]
      exact ⟨[], (Consumes.look hs (.refl s)).draws⟩
  · obtain ⟨t, s, hs⟩ := current_of_supply hfault
    rw [hf r t s hs] at herror ⊢
    obtain ⟨htoken, htakes⟩ := hrefusal t fault herror
    exact ⟨t, htoken, by simp [htakes, current_current hs]⟩
  · obtain ⟨t, s, hs⟩ := current_of_supply hfault
    obtain ⟨t', s', hs'⟩ := current_of_supply hfault'
    obtain ⟨hlooked, hhead, _⟩ := sight_current hs
    obtain ⟨hlooked', hhead', _⟩ := sight_current hs'
    have ht : t' = t := by
      rw [hsight, hhead] at hhead'
      exact (Option.some.inj hhead').symm
    subst ht
    rw [hf r _ s hs, hf r' _ s' hs']
    refine ⟨rfl, ?_⟩
    by_cases htakes : takes t' = true
    · simp only [if_pos htakes]
      rw [sight_consume_current hs, sight_consume_current hs', hsight]
    · simp only [if_neg htakes]
      rw [hlooked, hlooked', hsight]

/-- Where a run of the grammar ends if there is no lexical fault to be met. -/
theorem Runs.ends {n : Nat} {r : Reader} {o : Outcome n α} (h : r.Runs o)
    (hfault : r.supply.fault = none) :
    (∃ ts, r.Draws ts o.result.2) ∧ o.result.2.sight = o.sight ∧
      ∀ fault, o.result.1 = .error fault →
        ∃ t, fault.token? = some t ∧ o.result.2.current.1 = .ok t := by
  cases h with
  | done path => exact ⟨⟨_, path.draws⟩, rfl, fun fault herror => by cases herror⟩
  | @refused fault s s' t ts path hcurrent ht =>
    have hdraws := (path.trans (.look hcurrent (.refl s'))).draws
    refine ⟨⟨_, hdraws⟩, (Outcome.sight_failed s' ht).symm, fun fault' herror => ?_⟩
    cases herror
    exact ⟨t, ht, by rw [Outcome.result, current_current hcurrent]⟩
  | broken path hcurrent =>
    obtain ⟨t, s, hs⟩ := current_of_supply (path.draws.sight_eq hfault).2
    rw [hcurrent] at hs
    cases hs

theorem reliable_of_uniform {ms : Reader → Nat} {o : (r : Reader) → Outcome (ms r) α}
    (h : ∀ r, Uniform r (o r) (fun r' : Reader => r') o) : Reliable fun r => (o r).result := by
  refine ⟨fun r hfault => ((h r).runs.ends hfault).1,
    fun r fault hfault => ((h r).runs.ends hfault).2.2 fault,
    fun r r' hfault hfault' hsight => ?_⟩
  obtain ⟨⟨ts, hdraws⟩, hend, _⟩ := (h r).runs.ends hfault
  obtain ⟨_, hend', _⟩ := (h r').runs.ends hfault'
  obtain ⟨hr, hfault₁⟩ := hdraws.sight_eq hfault
  obtain ⟨t, us, hus⟩ : ∃ t us, (o r).result.2.sight = t :: us := by
    rw [sight_of_supply hfault₁]
    exact List.exists_cons_of_ne_nil (by simp)
  rw [hus] at hr
  obtain ⟨hvalue, hleft⟩ :=
    (h r).agrees r' ts t us us hr (hend.symm.trans hus) (hsight.trans hr)
  exact ⟨hvalue, by rw [hend', hleft, hus]⟩

theorem steady_inner (n : Nat) : Steady n inner :=
  fun _ _ => expression_uniform

theorem reliable_parse : Reliable parse := by
  rw [← funext result_whole]
  exact reliable_of_uniform fun r => whole_uniform

theorem Step.reliable (step : Step) : Reliable step.run := by
  cases step with
  | fill count => exact (reliable_fill count.toNat).answering _
  | current =>
    refine (reliable_of_current .ok (fun _ => false) ?_ ?_).answering _
    · intro r t s hs
      exact hs
    · intro t fault herror
      cases herror
  | advance =>
    refine (reliable_of_current .ok (fun _ => true) ?_ ?_).answering _
    · intro r t s hs
      simp [Reader.advance, hs]
    · intro t fault herror
      cases herror
  | atEnd =>
    refine (reliable_of_current (fun t => .ok t.isEnd) (fun _ => false) ?_ ?_).answering _
    · intro r t s hs
      simp [Reader.atEnd, hs]
    · intro t fault herror
      cases herror
  | expect kind what =>
    refine (reliable_of_current
      (fun t => if t.kind = kind then .ok t
        else .error (.expected (if what = "" then kind.name else what) t))
      (fun t => t.kind = kind) ?_ ?_).answering _
    · intro r t s hs
      by_cases ht : t.kind = kind <;> simp [Reader.expect, hs, ht]
    · intro t fault herror
      by_cases ht : t.kind = kind
      · simp [ht] at herror
      · simp only [if_neg ht] at herror
        cases herror
        exact ⟨rfl, by simp [ht]⟩
  | accept kinds =>
    refine (reliable_of_current (fun t => .ok (if t.kind ∈ kinds then some t else none))
      (fun t => t.kind ∈ kinds) ?_ ?_).answering _
    · intro r t s hs
      by_cases ht : t.kind ∈ kinds <;> simp [Reader.accept, hs, ht]
    · intro t fault herror
      cases herror
  | parse => exact reliable_parse.answering _
  | parseExpression => exact (reliable_of_uniform fun r => expression_uniform).answering _
  | parseIf => exact (reliable_of_uniform fun r => ifElse_uniform (steady_inner _)).answering _
  | parseLet => exact (reliable_of_uniform fun r => letBind_uniform (steady_inner _)).answering _
  | parseArray => exact (reliable_of_uniform fun r => array_uniform (steady_inner _)).answering _
  | parseObject => exact (reliable_of_uniform fun r => object_uniform (steady_inner _)).answering _
  | parseObjectField =>
    exact (reliable_of_uniform fun r => objectField_uniform (steady_inner _)).answering _
  | parseLambda => exact (reliable_of_uniform fun r => lambda_uniform (steady_inner _)).answering _
  | parseBlock => exact (reliable_of_uniform fun r => block_uniform (steady_inner _)).answering _
  | parseBareBlock opener =>
    exact (reliable_of_uniform fun r => bareBlock_uniform (steady_inner _)).answering _
  | parseBody => exact (reliable_of_uniform fun r => body_uniform (steady_inner _)).answering _
  | parseSequence => exact (reliable_of_uniform fun r => items_uniform (steady_inner _)).answering _
  | parseBinary k => exact (reliable_of_uniform fun r => binary_uniform (steady_inner _)).answering _
  | parseUnary => exact (reliable_of_uniform fun r => unary_uniform (steady_inner _)).answering _
  | parseSuffixed =>
    exact (reliable_of_uniform fun r => suffixed_uniform (steady_inner _)).answering _
  | parsePrimary => exact (reliable_of_uniform fun r => primary_uniform (steady_inner _)).answering _
  | parseCall callee => exact (reliable_of_uniform fun r => call_uniform (steady_inner _)).answering _
  | parseIndex callee =>
    exact (reliable_of_uniform fun r => index_uniform (steady_inner _)).answering _

/-! ## Whole runs -/

theorem draws_runAll (steps : List Step) {r : Reader} (hfault : r.supply.fault = none) :
    ∃ ts, r.Draws ts (runAll steps r).2 := by
  induction steps generalizing r with
  | nil => exact ⟨[], .refl r⟩
  | cons step steps ih =>
    obtain ⟨ts, hstep⟩ := step.reliable.draws r hfault
    obtain ⟨us, hrest⟩ := ih (hstep.sight_eq hfault).2
    exact ⟨ts ++ us, hstep.trans hrest⟩

/-- Readers with the same tokens in sight answer alike for ever. -/
theorem answers_runAll (steps : List Step) {r r' : Reader} (hfault : r.supply.fault = none)
    (hfault' : r'.supply.fault = none) (hsight : r'.sight = r.sight) :
    (runAll steps r').1 = (runAll steps r).1 := by
  induction steps generalizing r r' with
  | nil => rfl
  | cons step steps ih =>
    obtain ⟨_, hstep⟩ := step.reliable.draws r hfault
    obtain ⟨_, hstep'⟩ := step.reliable.draws r' hfault'
    obtain ⟨hanswer, hleft⟩ := step.reliable.alike r r' hfault hfault' hsight
    show (step.run r').1 :: (runAll steps (step.run r').2).1 = _
    rw [hanswer, ih (hstep.sight_eq hfault).2 (hstep'.sight_eq hfault').2 hleft]
    rfl

/-- The end of the input is never left behind. -/
theorem current_of_draws_end {r r' : Reader} {e : Token} {ts : List Token}
    (hdraws : r.Draws ts r') (hfault : r.supply.fault = none) (hcurrent : r.current.1 = .ok e)
    (he : e.isEnd = true) : r'.current.1 = .ok e := by
  have hr : r.sight = [e] := by
    rcases r.sight_cases with ⟨t, s, hs, ht, _⟩ | ⟨t, s, hs, _, _, hsight⟩ | ⟨_, s, hs, _⟩
    · rw [hs] at hcurrent
      cases hcurrent
      rw [he] at ht
      cases ht
    · rw [hs] at hcurrent
      cases hcurrent
      exact hsight
    · rw [hs] at hcurrent
      cases hcurrent
  obtain ⟨hsight, hfault'⟩ := hdraws.sight_eq hfault
  have hsplit : [] ++ [e] = (ts ++ r'.upcoming) ++ [r'.finish] := by
    rw [List.nil_append, List.append_assoc, ← sight_of_supply hfault', ← hsight, hr]
  obtain ⟨hnone, hfinish⟩ := List.append_inj' hsplit rfl
  have hup : r'.upcoming = [] := (List.append_eq_nil_iff.1 hnone.symm).2
  have hr' : r'.sight = [e] := by rw [sight_of_supply hfault', hup, hfinish, List.nil_append]
  obtain ⟨s, hs⟩ := current_of_sight hr'
  rw [hs]

/-- A reader is a queue that moves forward over its stream, whatever steps are made with it. -/
theorem queue_of_runAll (items : List (Option Token)) (steps : List Step) :
    let start := ofSupply (.ofItems items)
    let r := (runAll steps start).2
    (∃ consumed, start.Draws consumed r ∧ r.Faithful items consumed) ∧
    (∀ more, r.current.1 = .ok (endOf items) → (runAll more r).2.current.1 = .ok (endOf items)) ∧
    (∀ step fault, (Step.run step r).1 = .error fault →
      ∃ t, fault.token? = some t ∧ (Step.run step r).2.current.1 = .ok t) ∧
    (∀ n more, (runAll more ((Step.fill n).run r).2).1 = (runAll more r).1) := by
  intro start r
  obtain ⟨consumed, hdraws⟩ := draws_runAll steps (r := start) rfl
  have hfault : r.supply.fault = none := (hdraws.sight_eq rfl).2
  refine ⟨⟨consumed, hdraws, ((tracks_ofItems items).draws hdraws).faithful⟩, ?_, ?_, ?_⟩
  · intro more hend
    obtain ⟨ts, hmore⟩ := draws_runAll more hfault
    exact current_of_draws_end hmore hfault hend (isEnd_endOf items)
  · intro step fault herror
    exact step.reliable.refusal r fault hfault herror
  · intro n more
    exact answers_runAll more hfault (fillMore_spec _ hfault).2.2 (sight_fill _ hfault)

end Reader

end NordLang

import NordLang.Proofs.Grammar.Recognition
import NordLang.Proofs.Grammar.Termination

/-!
# Progress

However malformed a stream is and whatever was done with its reader before, every step of the
grammar ends, with a result or with a refusal (`steps_end_consuming`).

* That they end is known from `Step.run_descend`, which does without the bounds.
* `Step.IsOperand.moves` says that an expression, or an operand of one, is never read from nothing.
  A reader may come closer to the end of its supply without taking a token, so this rests on what is
  derived and not on the tokens that remain.
* A parse that succeeds takes all tokens of the stream that count.
-/

namespace NordLang

namespace Reader

open Grammar

variable {n : Nat} {r r' : Reader} {ts us : List Token}

theorem Draws.upcoming_eq (h : r.Draws ts r') (hfault : r.supply.fault = none) :
    r.upcoming = ts ++ r'.upcoming := by
  obtain ⟨hsight, hfault'⟩ := h.sight_eq hfault
  rw [sight_of_supply hfault, sight_of_supply hfault', ← List.append_assoc] at hsight
  exact (List.append_inj' hsight rfl).1

/-- The tokens that are taken are those a reader moves over. -/
theorem Draws.eq_of_moves (h : r.Draws ts r') (hfault : r.supply.fault = none)
    (hmoves : r.Moves us r') : ts = us := by
  have hup := h.upcoming_eq hfault
  rw [hmoves.upcoming_eq] at hup
  exact (List.append_cancel_right hup).symm

/-- The steps that read an expression, or an operand of one. -/
def Step.IsOperand : Step → Prop
  | parseExpression | parseUnary | parseSuffixed | parsePrimary => True
  | parseBinary k => k ≤ tiers
  | _ => False

theorem sound_inner (n : Nat) : Sound (Derives 0) (inner n) :=
  fun h => expression_sound h

/-- What is derived is never derived from nothing. -/
theorem moves_of_sound {k : Nat} {o : Outcome n Tree} {form : Tree → Answer} {a : Answer}
    (hsound : ∀ {t r' hlt}, o = .done t r' hlt → ∃ ts, r.Moves ts r' ∧ Derives k ts t)
    (h : (answering form o.result).1 = .ok a) :
    ∃ ts, ts ≠ [] ∧ r.Moves ts (answering form o.result).2 := by
  cases o with
  | done t r' hlt =>
    obtain ⟨ts, hmoves, hts⟩ := hsound rfl
    obtain ⟨u, us, rfl, _⟩ := hts.head
    exact ⟨u :: us, List.cons_ne_nil u us, hmoves⟩
  | failed fault r' => cases h

theorem Step.IsOperand.moves {step : Step} (hstep : step.IsOperand) {a : Answer}
    (h : (step.run r).1 = .ok a) : ∃ ts, ts ≠ [] ∧ r.Moves ts (step.run r).2 := by
  cases step with
  | parseExpression => exact moves_of_sound expression_sound h
  | parseBinary k => exact moves_of_sound (binary_sound (sound_inner _) hstep) h
  | parseUnary => exact moves_of_sound (unary_sound (sound_inner _)) h
  | parseSuffixed => exact moves_of_sound (suffixed_sound (sound_inner _)) h
  | parsePrimary => exact moves_of_sound (primary_sound (sound_inner _)) h
  | _ => cases hstep

theorem Step.answers (step : Step) (hfault : r.supply.fault = none) :
    (∃ a, (step.run r).1 = .ok a) ∨
      ∃ fault t, (step.run r).1 = .error fault ∧ fault.token? = some t := by
  rcases hanswer : (step.run r).1 with fault | a
  · obtain ⟨t, ht, _⟩ := step.reliable.refusal r fault hfault hanswer
    exact .inr ⟨fault, t, rfl, ht⟩
  · exact .inl ⟨a, rfl⟩

/-- From every state that a reader of a list of tokens and gaps can be in, every step ends without
the help of bounds, with an answer or with a refusal by a token: its calls nest no deeper than
`Step.depth`.  An expression or an operand is read from one token at least, and a parse that
succeeds has taken just the tokens before the first gap or end of the input. -/
theorem steps_end_consuming (items : List (Option Token)) (steps : List Step) :
    let start := ofSupply (.ofItems items)
    let r := (runAll steps start).2
    (∀ step : Step,
      (∀ depth, step.depth r ≤ depth →
        (step.descend (Descent.upTo depth)).run.run r = some (step.run r)) ∧
      ((∃ a, (step.run r).1 = .ok a) ∨
        ∃ fault t, (step.run r).1 = .error fault ∧ fault.token? = some t)) ∧
    (∀ step : Step, step.IsOperand → ∀ a, (step.run r).1 = .ok a →
      ∃ ts, ts ≠ [] ∧ r.Draws ts (step.run r).2) ∧
    (∀ tree, r.parse.1 = .ok tree → ∃ consumed ts, start.Draws consumed r ∧
      r.Draws ts r.parse.2 ∧ consumed ++ ts = realTokens items) := by
  intro start r
  obtain ⟨consumed, hdraws⟩ := draws_runAll steps (r := start) rfl
  have hfault : r.supply.fault = none := (hdraws.sight_eq rfl).2
  refine ⟨fun step => ⟨fun depth => step.run_descend, step.answers hfault⟩, ?_, ?_⟩
  · intro step hstep a ha
    obtain ⟨ts, hne, hmoves⟩ := hstep.moves ha
    obtain ⟨us, hus⟩ := step.reliable.draws r hfault
    obtain rfl := hus.eq_of_moves hfault hmoves
    exact ⟨us, hne, hus⟩
  · intro tree htree
    obtain ⟨ts, hts⟩ := reliable_parse.draws r hfault
    obtain ⟨_, _, _, hnil⟩ := moves_of_parse htree
    refine ⟨consumed, ts, hdraws, hts, ?_⟩
    have hall := ((tracks_ofItems items).draws (hdraws.trans hts)).upcoming_eq
    rw [hnil.upcoming, List.append_nil] at hall
    exact hall

/-- A name before a gap, of which a conditional was asked first. -/
theorem steps_end_consuming_gap :
    let x : Token := ⟨.identifier, .text "x", ⟨1, 1⟩, 0, 1⟩
    let start := ofSupply (.ofItems [some x, none, some x])
    let r := (runAll [.parseIf, .fill 3] start).2
    (Step.descend .parse (Descent.upTo 46)).run.run r = some (Step.run .parse r) ∧
    (Step.run .parsePrimary r).1 = .ok (.tree (.constant ⟨1, 1⟩ (.identifier (.text "x")))) ∧
    (∃ ts, ts ≠ [] ∧ r.Draws ts (Step.run .parsePrimary r).2) ∧
    r.parse.1 = .ok (.constant ⟨1, 1⟩ (.identifier (.text "x"))) ∧
    ∃ consumed ts, start.Draws consumed r ∧ r.Draws ts r.parse.2 ∧ consumed ++ ts = [x] := by
  intro x start r
  obtain ⟨hends, hoperand, hparse⟩ :=
    steps_end_consuming [some x, none, some x] [.parseIf, .fill 3]
  have hdepth : Step.depth .parse r = 46 := by with_unfolding_all rfl
  have hprimary : (Step.run .parsePrimary r).1 =
      .ok (.tree (.constant ⟨1, 1⟩ (.identifier (.text "x")))) := by with_unfolding_all rfl
  have htree : r.parse.1 = .ok (.constant ⟨1, 1⟩ (.identifier (.text "x"))) := by
    have hupcoming : r.upcoming = [x] := by with_unfolding_all rfl
    rw [parse_eq_ok_iff, hupcoming]
    exact ⟨by with_unfolding_all rfl, Derives.mono (.identifier rfl) (by decide) (by decide)⟩
  exact ⟨(hends .parse).1 46 (Nat.le_of_eq hdepth), hprimary,
    hoperand .parsePrimary trivial _ hprimary, htree, hparse _ htree⟩

end Reader

end NordLang

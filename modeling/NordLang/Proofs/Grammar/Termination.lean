import NordLang.Proofs.Grammar.Descent
import NordLang.Proofs.Grammar.Steps

/-!
# The grammar ends

Without the bounds, too, every function of the grammar ends on every reader, and it comes to what it
comes to with them (`Step.run_descend`).

There is one lemma for each function, and it follows the function line by line.  How deep its calls
nest is counted from two sides.  Whatever calls itself has taken a token before, and between two
tokens calls only go down: from a body through an expression and the tiers of operators to an
operand.  These are `14` levels, so that calls nest no deeper than `14` times the tokens that remain
and the level of the function.
-/

namespace NordLang

namespace Descent

open Grammar

variable {α : Type} {n : Nat}

/-! ## Items -/

section

variable {x : Methods → Reading α} {more : Methods → Reading (List α)} {item : Inner n α}
  (hitem : ∀ r h, Ends (14 * r.remaining + 11) x r (item r h))

include hitem

/-- Items behind separators, read by any function whose body goes on as it should. -/
theorem ends_moreItems {separator : TokenKind} {hsep : separator ≠ .endOfInput}
    (hmore : ∀ self : Methods, more self.unfold = do
      match ← self.next? (only separator) with
      | some _ =>
        let a ← x self
        let as ← more self
        return a :: as
      | none => return [])
    (r : Reader) (hr : r.remaining ≤ n) :
    Ends (14 * r.remaining + 1) more r (moreItems separator hsep item r hr) := by
  obtain ⟨m, hm⟩ : ∃ m, r.remaining = m := ⟨_, rfl⟩
  induction m using Nat.strongRecOn generalizing r with
  | ind m ih =>
    refine Ends.unfold ?_
    rw [funext hmore, moreItems]
    refine ends_ifNext (fun _ _ r₁ h₁ => ?_) (fun r₁ _ => ends_done [] r₁ _)
    refine ((hitem r₁ _).le (by omega)).andThen fun a r₂ h₂ => ?_
    refine ((ih _ (by omega) r₂ (by omega) rfl).le (by omega)).andThen fun as r₃ _ => ?_
    exact ends_done (a :: as) r₃ _

variable {separator : TokenKind} {hsep : separator ≠ .endOfInput}
  (hmore : ∀ r h, Ends (14 * r.remaining + 1) more r (moreItems separator hsep item r h))

include hmore

theorem ends_items (r : Reader) (hr : r.remaining < n) :
    Ends (14 * r.remaining + 11)
      (fun self => do
        let a ← x self
        let as ← more self
        return a :: as)
      r (items separator item r hr hsep) := by
  refine (hitem r hr).andThen fun a r₁ h₁ => ?_
  refine ((hmore r₁ _).le (by omega)).andThen fun as r₂ _ => ?_
  exact ends_done (a :: as) r₂ _

end

theorem ends_itemsUntil {x : Methods → Reading α} {more : Methods → Reading (List α)}
    {item : Inner n α} (hitem : ∀ r h, Ends (14 * r.remaining + 11) x r (item r h))
    (hmore : ∀ r h, Ends (14 * r.remaining + 1) more r (moreItems .comma (by decide) item r h))
    (close : TokenKind) (r : Reader) (hr : r.remaining < n) :
    Ends (14 * r.remaining + 11)
      (fun self => do
        let t ← self.current
        if t.kind = close then return []
        else
          let a ← x self
          let as ← more self
          return a :: as)
      r (itemsUntil close item r hr) := by
  refine (ends_look r).andThen fun t r₁ h₁ => ?_
  by_cases ht : t.kind = close
  · simp only [if_pos ht]
    exact ends_done [] r₁ h₁
  · simp only [if_neg ht]
    exact ((ends_items hitem hmore r₁ _).le (by omega)).mono _

/-! ## The forms -/

section

variable {expr : Inner n Tree}
  (hexpr : ∀ r h, Ends (14 * r.remaining + 11) Methods.expression r (expr r h)) (r : Reader)

include hexpr

theorem ends_moreExpressions {separator : TokenKind} {hsep : separator ≠ .endOfInput}
    (hr : r.remaining ≤ n) :
    Ends (14 * r.remaining + 1) (fun self => self.moreExpressions separator) r
      (moreItems separator hsep expr r hr) :=
  ends_moreItems hexpr (fun _ => rfl) r hr

theorem ends_sequence (hr : r.remaining < n) :
    Ends (14 * r.remaining + 12) Methods.sequence r (sequence expr r hr) :=
  .unfold (ends_items hexpr (fun r h => ends_moreExpressions hexpr r h) r hr)

theorem ends_body (hr : r.remaining < n) :
    Ends (14 * r.remaining + 13) Methods.body r (body expr r hr) := by
  refine Ends.unfold ((ends_look r).andThen fun t r₁ h₁ => ?_)
  split
  · exact ((ends_sequence hexpr r₁ _).le (by omega)).mono _
  · exact ends_done [] r₁ h₁

theorem ends_bareBlock (opener : Option Token) (hr : r.remaining < n) :
    Ends (14 * r.remaining + 14) (fun self => self.bareBlock opener) r
      (bareBlock opener expr r hr) := by
  refine Ends.unfold ?_
  cases opener with
  | none =>
    refine (ends_look r).andThen fun t r₁ h₁ => ?_
    refine ((ends_body hexpr r₁ _).le (by omega)).andThen fun es r₂ _ => ?_
    exact ends_done _ r₂ _
  | some t =>
    refine (ends_body hexpr r _).andThen fun es r₁ _ => ?_
    exact ends_done _ r₁ _

theorem ends_ifElse (hr : r.remaining ≤ n) :
    Ends (14 * r.remaining + 1) Methods.ifElse r (ifElse expr r hr) := by
  refine Ends.unfold (ends_require.andThen fun opener r₁ _ => ?_)
  refine ((hexpr r₁ _).le (by omega)).andThen fun cond r₂ _ => ?_
  refine ends_require.andThen fun _ r₃ _ => ?_
  refine ((ends_bareBlock hexpr r₃ none _).le (by omega)).andThen fun thenBranch r₄ _ => ?_
  refine Ends.andThen ?_ fun elseBranch r₅ _ => ?_
  · refine ends_ifNext (fun _ _ r₅ _ => ?_) (fun r₅ _ => ends_done Tree.missing r₅ _)
    exact ((ends_bareBlock hexpr r₅ none _).le (by omega)).mono _
  · refine ends_require.andThen fun _ r₆ _ => ?_
    exact ends_done _ r₆ _

theorem ends_letBind (hr : r.remaining ≤ n) :
    Ends (14 * r.remaining + 1) Methods.letBind r (letBind expr r hr) := by
  refine Ends.unfold (ends_require.andThen fun opener r₁ _ => ?_)
  refine ends_require.andThen fun name r₂ _ => ?_
  refine ends_require.andThen fun _ r₃ _ => ?_
  refine ((hexpr r₃ _).le (by omega)).andThen fun value r₄ _ => ?_
  exact ends_done _ r₄ _

theorem ends_array (hr : r.remaining ≤ n) :
    Ends (14 * r.remaining + 1) Methods.array r (array expr r hr) := by
  have hitems := ends_itemsUntil hexpr (fun r h => ends_moreExpressions hexpr r h) .rbracket
  refine Ends.unfold (ends_require.andThen fun opener r₁ _ => ?_)
  refine ((hitems r₁ _).le (by omega)).andThen fun elements r₂ _ => ?_
  refine ends_require.andThen fun _ r₃ _ => ?_
  exact ends_done _ r₃ _

theorem ends_objectField (hr : r.remaining ≤ n) :
    Ends (14 * r.remaining + 1) Methods.objectField r (objectField expr r hr) := by
  refine Ends.unfold (ends_require.andThen fun name r₁ _ => ?_)
  refine ends_require.andThen fun _ r₂ _ => ?_
  refine ((hexpr r₂ _).le (by omega)).andThen fun value r₃ _ => ?_
  exact ends_done _ r₃ _

theorem ends_object (hr : r.remaining ≤ n) :
    Ends (14 * r.remaining + 1) Methods.object r (object expr r hr) := by
  have hfield (r : Reader) (h : r.remaining < n) :=
    (ends_objectField hexpr r (Nat.le_of_lt h)).le (show _ ≤ 14 * r.remaining + 11 by omega)
  have hmore (r : Reader) (h : r.remaining ≤ n) : Ends (14 * r.remaining + 1) Methods.moreFields r
      (moreItems .comma (by decide) (fun r h => objectField expr r (Nat.le_of_lt h)) r h) :=
    ends_moreItems hfield (fun _ => rfl) r h
  have hfields := ends_itemsUntil hfield hmore .rbrace
  refine Ends.unfold (ends_require.andThen fun opener r₁ _ => ?_)
  refine ends_require.andThen fun _ r₂ _ => ?_
  refine ((hfields r₂ _).le (by omega)).andThen fun fields r₃ _ => ?_
  refine ends_require.andThen fun _ r₄ _ => ?_
  exact ends_done _ r₄ _

theorem ends_lambda (hr : r.remaining ≤ n) :
    Ends (14 * r.remaining + 1) Methods.lambda r (lambda expr r hr) := by
  refine Ends.unfold (ends_require.andThen fun opener r₁ _ => ?_)
  refine ends_require.andThen fun _ r₂ _ => ?_
  refine (ends_ifNext (fun _ t r₃ _ => ends_done t.value r₃ _)
    (fun r₃ _ => ends_done Scalar.null r₃ _)).andThen fun param r₃ _ => ?_
  refine ends_require.andThen fun _ r₄ _ => ?_
  refine ((hexpr r₄ _).le (by omega)).andThen fun body r₅ _ => ?_
  exact ends_done _ r₅ _

theorem ends_block (hr : r.remaining ≤ n) :
    Ends (14 * r.remaining + 1) Methods.block r (block expr r hr) := by
  refine Ends.unfold (ends_require.andThen fun opener r₁ _ => ?_)
  refine ((ends_bareBlock hexpr r₁ (some opener) _).le (by omega)).andThen fun tree r₂ _ => ?_
  refine ends_require.andThen fun _ r₃ _ => ?_
  exact ends_done tree r₃ _

theorem ends_primary (hr : r.remaining ≤ n) :
    Ends (14 * r.remaining + 1) Methods.primary r (primary expr r hr) := by
  refine Ends.unfold ((ends_look r).andThen fun t r₁ _ => ?_)
  generalize t.kind = kind
  cases kind with
  | integer | boolean | string | identifier =>
    refine ends_require.andThen fun t r₂ _ => ?_
    exact ends_done _ r₂ _
  | lparen =>
    refine ends_require.andThen fun _ r₂ _ => ?_
    refine ((hexpr r₂ _).le (by omega)).andThen fun tree r₃ _ => ?_
    refine ends_require.andThen fun _ r₄ _ => ?_
    exact ends_done tree r₄ _
  | _ => exact ends_failed _ r₁

theorem ends_call (callee : Tree) (hr : r.remaining ≤ n) :
    Ends (14 * r.remaining + 1) (fun self => self.call callee) r (call callee expr r hr) := by
  refine Ends.unfold (ends_require.andThen fun opener r₁ _ => ?_)
  refine Ends.andThen ((ends_look r₁).andThen fun t r₂ h₂ => ?_) fun arg r₂ _ => ?_
  · by_cases ht : t.kind = .rparen
    · simp only [if_pos ht]
      exact ends_done Tree.missing r₂ h₂
    · simp only [if_neg ht]
      exact ((hexpr r₂ _).le (by omega)).mono _
  · refine ends_require.andThen fun _ r₃ _ => ?_
    exact ends_done _ r₃ _

theorem ends_index (callee : Tree) (hr : r.remaining ≤ n) :
    Ends (14 * r.remaining + 1) (fun self => self.index callee) r (index callee expr r hr) := by
  refine Ends.unfold (ends_require.andThen fun opener r₁ _ => ?_)
  refine ((hexpr r₁ _).le (by omega)).andThen fun key r₂ _ => ?_
  refine ends_require.andThen fun _ r₃ _ => ?_
  exact ends_done _ r₃ _

omit hexpr in
theorem ends_member {d : Nat} (callee : Tree) :
    Ends d (fun self => self.member callee) r (member callee r) := by
  refine ends_require.andThen fun _ r₁ _ => ?_
  refine ends_require.andThen fun field r₂ _ => ?_
  exact ends_done _ r₂ _

theorem ends_suffixes (callee : Tree) (hr : r.remaining ≤ n) :
    Ends (14 * r.remaining + 2) (fun self => self.suffixes callee) r
      (suffixes callee expr r hr) := by
  obtain ⟨m, hm⟩ : ∃ m, r.remaining = m := ⟨_, rfl⟩
  induction m using Nat.strongRecOn generalizing r callee with
  | ind m ih =>
    rw [suffixes]
    refine Ends.unfold ((ends_look r).andThen fun t r₁ h₁ => ?_)
    generalize t.kind = kind
    cases kind with
    | lparen =>
      refine ((ends_call hexpr r₁ callee _).le (by omega)).andThen fun tree r₂ h₂ => ?_
      exact ((ih _ (by omega) r₂ tree (by omega) rfl).le (by omega)).mono _
    | lbracket =>
      refine ((ends_index hexpr r₁ callee _).le (by omega)).andThen fun tree r₂ h₂ => ?_
      exact ((ih _ (by omega) r₂ tree (by omega) rfl).le (by omega)).mono _
    | dot =>
      refine (ends_member r₁ callee).andThen fun tree r₂ h₂ => ?_
      exact ((ih _ (by omega) r₂ tree (by omega) rfl).le (by omega)).mono _
    | _ => exact ends_done callee r₁ h₁

theorem ends_suffixed (hr : r.remaining ≤ n) :
    Ends (14 * r.remaining + 2) Methods.suffixed r (suffixed expr r hr) := by
  refine Ends.unfold ((ends_primary hexpr r hr).andThen fun tree r₁ _ => ?_)
  exact ((ends_suffixes hexpr r₁ tree _).le (by omega)).mono _

theorem ends_unary (hr : r.remaining ≤ n) :
    Ends (14 * r.remaining + 3) Methods.unary r (unary expr r hr) := by
  obtain ⟨m, hm⟩ : ∃ m, r.remaining = m := ⟨_, rfl⟩
  induction m using Nat.strongRecOn generalizing r with
  | ind m ih =>
    rw [unary]
    refine Ends.unfold (ends_ifNext (fun op t r₁ h₁ => ?_) (fun r₁ h₁ => ?_))
    · refine ((ih _ (by omega) r₁ (by omega) rfl).le (by omega)).andThen fun operand r₂ _ => ?_
      exact ends_done _ r₂ _
    · exact ((ends_suffixed hexpr r₁ _).le (by omega)).mono h₁

end

theorem ends_chain {k : Nat}
    {operand : (r : Reader) → r.remaining ≤ n → Outcome r.remaining Tree}
    (hoperand : ∀ r h, Ends (14 * r.remaining + k + 4) (fun self => self.binary k) r (operand r h))
    (left : Tree) (r : Reader) (hr : r.remaining ≤ n) :
    Ends (14 * r.remaining + k + 4) (fun self => self.chain k left) r
      (chain (tiers - k) operand left r hr) := by
  obtain ⟨m, hm⟩ : ∃ m, r.remaining = m := ⟨_, rfl⟩
  induction m using Nat.strongRecOn generalizing r left with
  | ind m ih =>
    rw [chain]
    refine Ends.unfold (ends_ifNext (fun op t r₁ h₁ => ?_) (fun r₁ _ => ends_done left r₁ _))
    refine ((hoperand r₁ _).le (by omega)).andThen fun right r₂ h₂ => ?_
    exact ((ih _ (by omega) _ r₂ (by omega) rfl).le (by omega)).mono _

section

variable {expr : Inner n Tree}
  (hexpr : ∀ r h, Ends (14 * r.remaining + 11) Methods.expression r (expr r h))

include hexpr

theorem ends_binary (k : Nat) (r : Reader) (hr : r.remaining ≤ n) :
    Ends (14 * r.remaining + k + 4) (fun self => self.binary k) r (binary expr k r hr) := by
  induction k generalizing r with
  | zero => exact .unfold (ends_unary hexpr r hr)
  | succ k ih =>
    refine Ends.unfold (((ih r hr).le (by omega)).andThen fun left r₁ _ => ?_)
    exact ((ends_chain ih left r₁ _).le (by omega)).mono _

theorem ends_fullExpression (r : Reader) (hr : r.remaining ≤ n) :
    Ends (14 * r.remaining + 11) Methods.expression r (fullExpression expr r hr) := by
  refine Ends.unfold ((ends_look r).andThen fun t r₁ _ => ?_)
  refine Ends.mono ?_ _
  generalize t.kind = kind
  cases kind with
  | ifKw => exact (ends_ifElse hexpr r₁ _).le (by omega)
  | letKw => exact (ends_letBind hexpr r₁ _).le (by omega)
  | lbracket => exact (ends_array hexpr r₁ _).le (by omega)
  | hash => exact (ends_object hexpr r₁ _).le (by omega)
  | fnKw => exact (ends_lambda hexpr r₁ _).le (by omega)
  | blockKw => exact (ends_block hexpr r₁ _).le (by omega)
  | _ =>
    refine (ends_binary hexpr tiers r₁ _).le ?_
    unfold tiers
    omega

end

theorem ends_expression (r : Reader) :
    Ends (14 * r.remaining + 11) Methods.expression r (expression r) := by
  obtain ⟨m, hm⟩ : ∃ m, r.remaining = m := ⟨_, rfl⟩
  induction m using Nat.strongRecOn generalizing r with
  | ind m ih =>
    rw [expression]
    exact ends_fullExpression (fun r' h => ih _ (by omega) r' rfl) r _

theorem ends_whole (r : Reader) :
    Ends (14 * r.remaining + 11) Methods.whole r (whole r) := by
  refine (ends_expression r).andThen fun tree r₁ _ => ?_
  refine (ends_look r₁).andThen fun t r₂ _ => ?_
  by_cases ht : t.isEnd = true
  · simp only [if_pos ht]
    exact ends_done tree r₂ _
  · simp only [if_neg ht]
    exact ends_failed _ r₂

end Descent

/-! ## Steps -/

namespace Reader

/-- A step by way of the functions without bounds. -/
def Step.descend (step : Step) (self : Descent.Methods) : Reading Answer :=
  match step with
  | fill count => (fun _ => .nothing) <$> self.fill count.toNat
  | current => .token <$> self.current
  | advance => .token <$> self.advance
  | atEnd => .flag <$> self.atEnd
  | expect kind what => .token <$> self.expect kind what
  | accept kinds => .found <$> self.accept kinds
  | parse => .tree <$> self.whole
  | parseExpression => .tree <$> self.expression
  | parseIf => .tree <$> self.ifElse
  | parseLet => .tree <$> self.letBind
  | parseArray => .tree <$> self.array
  | parseObject => .tree <$> self.object
  | parseObjectField => .field <$> self.objectField
  | parseLambda => .tree <$> self.lambda
  | parseBlock => .tree <$> self.block
  | parseBareBlock opener => .tree <$> self.bareBlock opener
  | parseBody => .trees <$> self.body
  | parseSequence => .trees <$> self.sequence
  | parseBinary k => .tree <$> self.binary k
  | parseUnary => .tree <$> self.unary
  | parseSuffixed => .tree <$> self.suffixed
  | parsePrimary => .tree <$> self.primary
  | parseCall callee => .tree <$> self.call callee
  | parseIndex callee => .tree <$> self.index callee

/-- How deep the calls of a step nest at most. -/
def Step.depth (step : Step) (r : Reader) : Nat :=
  match step with
  | fill count => Descent.turns count.toNat r + 1
  | parseBinary k => 14 * r.remaining + k + 8
  | _ => 14 * r.remaining + 18

theorem run_answering {α : Type} {x : Reading α} {r : Reader} {y : Result α}
    (h : x.run.run r = some y) (form : α → Answer) :
    (form <$> x).run.run r = some (answering form y) := by
  rw [map_eq_pure_bind]
  rcases y with ⟨fault | a, r'⟩
  · exact Descent.run_bind_of_error h _
  · exact Descent.run_bind_of_ok h _

/-- Every step ends, and without the bounds it comes to the same. -/
theorem Step.run_descend (step : Step) {r : Reader} {depth : Nat} (h : step.depth r ≤ depth) :
    (step.descend (Descent.upTo depth)).run.run r = some (step.run r) := by
  have hexpr (n : Nat) (r : Reader) (h : r.remaining < n) :
      Descent.Ends (14 * r.remaining + 11) Descent.Methods.expression r (Grammar.inner n r h) :=
    Descent.ends_expression r
  cases step
  all_goals dsimp only [Step.depth] at h
  case fill count => exact run_answering (Descent.run_fill h) _
  case current => exact run_answering (Descent.run_current (by omega)) _
  case advance => exact run_answering (Descent.run_advance (by omega)) _
  case atEnd => exact run_answering (Descent.run_atEnd (by omega)) _
  case expect kind what => exact run_answering (Descent.run_expect (by omega) kind what) _
  case accept kinds => exact run_answering (Descent.run_accept (by omega) kinds) _
  case parse =>
    rw [run, ← Grammar.result_whole]
    exact run_answering (Descent.ends_whole r depth (by omega)) _
  case parseExpression => exact run_answering (Descent.ends_expression r depth (by omega)) _
  case parseIf => exact run_answering (Descent.ends_ifElse (hexpr _) r _ depth (by omega)) _
  case parseLet => exact run_answering (Descent.ends_letBind (hexpr _) r _ depth (by omega)) _
  case parseArray => exact run_answering (Descent.ends_array (hexpr _) r _ depth (by omega)) _
  case parseObject => exact run_answering (Descent.ends_object (hexpr _) r _ depth (by omega)) _
  case parseObjectField =>
    exact run_answering (Descent.ends_objectField (hexpr _) r _ depth (by omega)) _
  case parseLambda => exact run_answering (Descent.ends_lambda (hexpr _) r _ depth (by omega)) _
  case parseBlock => exact run_answering (Descent.ends_block (hexpr _) r _ depth (by omega)) _
  case parseBareBlock opener =>
    exact run_answering (Descent.ends_bareBlock (hexpr _) r opener _ depth (by omega)) _
  case parseBody => exact run_answering (Descent.ends_body (hexpr _) r _ depth (by omega)) _
  case parseSequence => exact run_answering (Descent.ends_sequence (hexpr _) r _ depth (by omega)) _
  case parseBinary k => exact run_answering (Descent.ends_binary (hexpr _) k r _ depth (by omega)) _
  case parseUnary => exact run_answering (Descent.ends_unary (hexpr _) r _ depth (by omega)) _
  case parseSuffixed => exact run_answering (Descent.ends_suffixed (hexpr _) r _ depth (by omega)) _
  case parsePrimary => exact run_answering (Descent.ends_primary (hexpr _) r _ depth (by omega)) _
  case parseCall callee =>
    exact run_answering (Descent.ends_call (hexpr _) r callee _ depth (by omega)) _
  case parseIndex callee =>
    exact run_answering (Descent.ends_index (hexpr _) r callee _ depth (by omega)) _

end Reader

end NordLang

import NordLang.Proofs.Grammar.Text
import NordLang.Proofs.Layout.Spacing

/-!
# Round trip

The text of a well-formed tree, with blanks behind it or not, is parsed back to the tree, up to
locations (`Tree.WellFormed.reread`).

The text is read as the tokens that its pieces stand for (`WellFormed.compact`).  Here these tokens
are shown to derive the tree.  Since derivations do not depend on places, it is enough to do so for
tokens without a place, `Piece.tokensOf`.

`Rederives.placed` is where the parentheses come in: as an operand a tree derives at the level of
its place, by itself if it binds tightly enough and as a group otherwise.
-/

namespace NordLang

/-- A token with the given kind and payload and no particular place. -/
def Token.ofContent (c : TokenKind × Scalar) : Token :=
  ⟨c.1, c.2, ⟨0, 0⟩, 0, 0⟩

namespace Piece

/-- The tokens that pieces stand for, without places. -/
def tokensOf (ps : List Piece) : List Token :=
  (contentsOf ps).map Token.ofContent

@[simp] theorem contents_tokensOf (ps : List Piece) : contents (tokensOf ps) = contentsOf ps := by
  rw [contents, tokensOf, List.map_map]
  exact List.map_id _

@[simp] theorem tokensOf_append (ps qs : List Piece) :
    tokensOf (ps ++ qs) = tokensOf ps ++ tokensOf qs := by
  rw [tokensOf, contentsOf_append, List.map_append]
  rfl

theorem tokensOf_cons {p : Piece} {c : TokenKind × Scalar} (hp : p.content? = some c)
    (ps : List Piece) : tokensOf (p :: ps) = .ofContent c :: tokensOf ps := by
  rw [tokensOf, contentsOf_cons, hp]
  rfl

@[simp] theorem tokensOf_fixed (kind : TokenKind) (ps : List Piece) :
    tokensOf (.fixed kind :: ps) =
      .ofContent (kind, .text (String.ofList kind.spelling)) :: tokensOf ps := rfl

@[simp] theorem tokensOf_blank (ps : List Piece) : tokensOf (.blank :: ps) = tokensOf ps := rfl

/-- Items that can be read one by one can be read with separators between them. -/
theorem separated_tokensOf {α : Type} {sep : TokenKind} {R : List Token → α → Prop}
    {S : α → α → Prop} {w : α → List Piece} {items : List α}
    (h : ∀ a ∈ items, ∃ b, R (tokensOf (w a)) b ∧ S b a) :
    ∃ bs, Separated sep R (tokensOf (separated sep (items.map w))) bs ∧
      List.Forall₂ S bs items := by
  induction items with
  | nil => exact ⟨[], .nil, .nil⟩
  | cons a items ih =>
    obtain ⟨b, hb, hS⟩ := h a List.mem_cons_self
    obtain ⟨bs, hbs, hSs⟩ := ih fun c hc => h c (List.mem_cons_of_mem _ hc)
    cases hSs with
    | nil => exact ⟨[b], .one hb, .cons hS .nil⟩
    | cons hS' hSs =>
      refine ⟨_, ?_, .cons hS (.cons hS' hSs)⟩
      rw [List.map_cons, List.map_cons, separated, tokensOf_append]
      · exact .more hb rfl hbs
      · simp

end Piece

namespace Tree

open Piece

/-- The tokens of a tree at its rank. -/
def Rederives (t : Tree) : Prop :=
  ∃ u, Derives t.rank (tokensOf t.written) u ∧ u.same t = true

theorem Rederives.placed {t : Tree} (h : t.Rederives) {least : Nat} (hleast : least ≤ 9) :
    ∃ u, Derives least (tokensOf (t.placed least)) u ∧ u.same t = true := by
  obtain ⟨u, hu, hsame⟩ := h
  refine ⟨u, ?_, hsame⟩
  unfold Tree.placed
  split
  · have hgroup : Derives 9 (tokensOf (parenthesized t.written)) u := by
      rw [parenthesized, ← List.singleton_append, tokensOf_append, tokensOf_append]
      exact .group rfl (hu.mono (Nat.zero_le _) t.rank_le) rfl
    exact hgroup.mono hleast (Nat.le_refl 9)
  · next hrank => exact hu.mono (Nat.not_lt.1 hrank) t.rank_le

theorem Rederives.full {t : Tree} (h : t.Rederives) :
    ∃ u, Derives 0 (tokensOf t.written) u ∧ u.same t = true :=
  h.placed (Nat.zero_le 9)

theorem rederives_items {sep : TokenKind} {items : List Tree} (h : ∀ t ∈ items, t.Rederives) :
    ∃ us, Separated sep (Derives 0) (tokensOf (separated sep (items.map written))) us ∧
      sameAll us items = true := by
  obtain ⟨us, hus, hsame⟩ := separated_tokensOf fun t ht => (h t ht).full
  exact ⟨us, hus, sameAll_iff.2 hsame⟩

theorem rederives_body {body : List Tree} (h : ∀ t ∈ body, t.Rederives) :
    ∃ us, Separated .semicolon (Derives 0) (tokensOf (bodyPieces (body.map written))) us ∧
      sameAll us body = true := by
  obtain ⟨us, hus, hsame⟩ := rederives_items h
  refine ⟨us, ?_, hsame⟩
  cases body with
  | nil => exact hus
  | cons t body => exact hus

theorem rederives_fields {fields : List (Scalar × Tree)} (hnames : ∀ f ∈ fields, f.1.isName = true)
    (h : ∀ f ∈ fields, f.2.Rederives) :
    ∃ us, Separated .comma (NamedBy (Derives 0))
        (tokensOf (separated .comma (fields.map fun f => fieldPieces f.1.plain f.2.written))) us ∧
      sameFields us fields = true := by
  have hfield : ∀ f ∈ fields,
      ∃ g, NamedBy (Derives 0) (tokensOf (fieldPieces f.1.plain f.2.written)) g ∧
        g.1.same f.1 = true ∧ g.2.same f.2 = true := by
    intro f hf
    obtain ⟨u, hu, hsame⟩ := (h f hf).full
    refine ⟨(f.1, u), ?_, Scalar.same_self _, hsame⟩
    have htokens : tokensOf (fieldPieces f.1.plain f.2.written) =
        .ofContent (.identifier, f.1) :: tokensOf (.fixed .colon :: .blank :: f.2.written) :=
      tokensOf_cons (content?_namePiece (hnames f hf)) _
    rw [htokens]
    exact .mk rfl rfl hu
  obtain ⟨us, hus, hsame⟩ := separated_tokensOf hfield
  exact ⟨us, hus, sameFields_iff.2 hsame⟩

/-- The tokens of a well-formed tree derive it at its rank. -/
theorem WellFormed.rederives {t : Tree} (h : t.WellFormed) : t.Rederives := by
  induction h with
  | num hn =>
    rw [Rederives, written_eq (pieces_num hn), tokensOf_cons (content?_number _)]
    exact ⟨_, .num rfl, by simp [same, Token.ofContent]⟩
  | boolean =>
    rw [Rederives, written_eq pieces_boolean]
    exact ⟨_, .boolean rfl, by simp [same, Token.ofContent]⟩
  | string =>
    rw [Rederives, written_eq pieces_string, tokensOf_cons (content?_quoted _)]
    exact ⟨_, .string rfl, by simp [same, Token.ofContent]⟩
  | identifier hname =>
    rw [Rederives, written_eq pieces_identifier, tokensOf_cons (content?_namePiece hname)]
    exact ⟨_, .identifier rfl, by simp [same, Token.ofContent]⟩
  | ifThen hcond hbody ihcond ihbody =>
    rw [Rederives, written_eq (pieces_ifThen hcond.laid (laid_all hbody))]
    obtain ⟨u, hu, hsame⟩ := ihcond.full
    obtain ⟨us, hus, hsames⟩ := rederives_body ihbody
    rw [tokensOf_append, tokensOf_append, List.append_assoc]
    refine ⟨_, .ifThen rfl hu rfl hus rfl, ?_⟩
    simp [same, hsame, hsames]
  | ifThenElse hcond hbody hother ihcond ihbody ihother =>
    rw [Rederives, written_eq (pieces_ifThenElse hcond.laid (laid_all hbody) (laid_all hother))]
    obtain ⟨u, hu, hsame⟩ := ihcond.full
    obtain ⟨us, hus, hsames⟩ := rederives_body ihbody
    obtain ⟨vs, hvs, hsames'⟩ := rederives_body ihother
    rw [tokensOf_append, tokensOf_append, tokensOf_append, List.append_assoc, List.append_assoc]
    refine ⟨_, .ifThenElse rfl hu rfl hus rfl hvs rfl, ?_⟩
    simp [same, hsame, hsames, hsames']
  | letBind hname hvalue ih =>
    rw [Rederives, written_eq (pieces_letBind hvalue.laid), tokensOf_fixed, tokensOf_blank,
      tokensOf_cons (content?_namePiece hname)]
    obtain ⟨u, hu, hsame⟩ := ih.full
    exact ⟨_, .letBind rfl rfl rfl hu, by simp [same, hsame, Token.ofContent]⟩
  | array helements ih =>
    rw [Rederives, written_eq (pieces_array (laid_all helements))]
    obtain ⟨us, hus, hsames⟩ := rederives_items ih
    rw [arrayPieces, tokensOf_append]
    exact ⟨_, .array rfl hus rfl, by simp [same, hsames]⟩
  | object hnames hvalues ih =>
    rw [Rederives, written_eq (pieces_object fun f hf => (hvalues f hf).laid)]
    obtain ⟨us, hus, hsames⟩ := rederives_fields hnames ih
    rw [objectPieces, tokensOf_append]
    exact ⟨_, .object rfl rfl hus rfl, by simp [same, hsames]⟩
  | lambdaEmpty hbody ih =>
    rw [Rederives, written_eq (pieces_lambda hbody.laid)]
    obtain ⟨u, hu, hsame⟩ := ih.full
    exact ⟨_, .lambdaEmpty rfl rfl rfl hu, by simp [same, hsame]⟩
  | lambda hparam hbody ih =>
    rw [Rederives, written_eq (pieces_lambda hbody.laid), paramPieces_of_isName hparam,
      List.cons_append, List.cons_append, List.cons_append, tokensOf_fixed, tokensOf_fixed,
      tokensOf_cons (content?_namePiece hparam)]
    obtain ⟨u, hu, hsame⟩ := ih.full
    exact ⟨_, .lambda rfl rfl rfl rfl hu, by simp [same, hsame, Token.ofContent]⟩
  | block hbody ih =>
    rw [Rederives, written_eq (pieces_block (laid_all hbody))]
    obtain ⟨us, hus, hsames⟩ := rederives_body ih
    rw [blockPieces, tokensOf_append]
    exact ⟨_, .block rfl hus rfl, by simp [same, hsames]⟩
  | @binary _ _ _ op hop hleft hright ihleft ihright =>
    obtain ⟨k, hk⟩ := tier?_of_isUnary hop
    rw [Rederives, written_eq (pieces_binary hk hleft.laid hright.laid), rank_binary hk]
    have hbounds := Operator.tier_bounds hk
    obtain ⟨u, hu, hsame⟩ := ihleft.placed (show k ≤ 9 by omega)
    obtain ⟨v, hv, hsame'⟩ := ihright.placed (show k + 1 ≤ 9 by omega)
    rw [tokensOf_append]
    exact ⟨_, .binary (Operator.mem_binaries.2 ⟨hk, rfl⟩) hu hv, by simp [same, hsame, hsame']⟩
  | @unary _ op _ hop hoperand ih =>
    rw [Rederives, written_eq (pieces_unary hoperand.laid)]
    obtain ⟨u, hu, hsame⟩ := ih.placed (show unaryStrength ≤ 9 by decide)
    refine ⟨.unary ⟨0, 0⟩ (some op) u, ?_, by simp [same, hsame]⟩
    rw [tokensOf_fixed]
    refine .unary (Operator.sign_mem_unaries.2 hop) ?_
    split
    · exact hu
    · exact hu
  | callEmpty hcallee ih =>
    rw [Rederives, written_eq (pieces_callEmpty hcallee.laid)]
    obtain ⟨u, hu, hsame⟩ := ih.placed (show postfixStrength ≤ 9 by decide)
    rw [tokensOf_append]
    exact ⟨_, .callEmpty hu rfl rfl, by simp [same, hsame]⟩
  | call hcallee harg ihcallee iharg =>
    rw [Rederives, written_eq (pieces_call hcallee.laid harg.laid)]
    obtain ⟨u, hu, hsame⟩ := ihcallee.placed (show postfixStrength ≤ 9 by decide)
    obtain ⟨v, hv, hsame'⟩ := iharg.full
    rw [tokensOf_append, tokensOf_append, List.append_assoc]
    exact ⟨_, .call hu rfl hv rfl, by simp [same, hsame, hsame']⟩
  | index hcallee hkey ihcallee ihkey =>
    rw [Rederives, written_eq (pieces_index hcallee.laid hkey.laid)]
    obtain ⟨u, hu, hsame⟩ := ihcallee.placed (show postfixStrength ≤ 9 by decide)
    obtain ⟨v, hv, hsame'⟩ := ihkey.full
    rw [tokensOf_append, tokensOf_append, List.append_assoc]
    exact ⟨_, .index hu rfl hv rfl, by simp [same, hsame, hsame']⟩
  | member hcallee hfield ih =>
    rw [Rederives, written_eq (pieces_member hcallee.laid), tokensOf_append, tokensOf_fixed,
      tokensOf_cons (content?_namePiece hfield)]
    obtain ⟨u, hu, hsame⟩ := ih.placed (show postfixStrength ≤ 9 by decide)
    exact ⟨_, .member hu rfl rfl, by simp [same, hsame, Token.ofContent]⟩

/-- The text of a tree, followed by blanks, is parsed to the tree. -/
theorem WellFormed.reread {t : Tree} (h : t.WellFormed) {w : List Char}
    (hw : ∀ c ∈ w, c ∈ blankChars) :
    ∃ u, parseText (Piece.textOf t.written ++ w) = .ok u ∧ u.same t = true := by
  obtain ⟨ts, htiled, hcontents⟩ := (h.compact.apart none (by simp)).tiled []
  obtain ⟨u, hu, hsame⟩ := h.rederives.full
  -- The tokens of the text and those of the derivation differ in their places only.
  rw [← Piece.contents_tokensOf] at hcontents
  obtain ⟨v, hv, hsame'⟩ := hu.transfers ts hcontents
  exact ⟨v, parseText_eq_ok.2 ⟨ts, htiled.append_blanks hw, hv⟩, same_trans hsame' hsame⟩

end Tree

/-- A well-formed tree is laid out as a text, and parsing the text gives the tree back, up to
locations. -/
theorem parseText_layout {t : Tree} (h : t.WellFormed) :
    ∃ s, t.layout = .ok (.text s) ∧ ∃ u, parseText s.toList = .ok u ∧ u.same t = true := by
  refine ⟨_, h.layout, ?_⟩
  obtain ⟨u, hu, hsame⟩ := h.reread (List.forall_mem_nil _)
  rw [List.append_nil] at hu
  rw [String.toList_ofList]
  exact ⟨u, hu, hsame⟩

/-- A negation of a negation under an operator, in a function and behind a call. -/
theorem parseText_layout_negations :
    let x : Tree := .constant ⟨7, 7⟩ (.identifier (.text "x"))
    let negated : Tree := .unary ⟨0, 0⟩ (some .negate) (.unary ⟨0, 0⟩ (some .negate) x)
    let sum : Tree :=
      .binary ⟨3, 1⟩ negated (some .add) (.constant ⟨2, 2⟩ (.string (.text "a\"\n")))
    let t : Tree := .call ⟨0, 0⟩ (.lambda ⟨0, 0⟩ (.text "x") (.binary ⟨4, 4⟩ x (some .mul) sum))
      (.constant ⟨1, 1⟩ (.num (.int 9223372036854775807)))
    t.WellFormed ∧
      ∃ s, t.layout = .ok (.text s) ∧ ∃ u, parseText s.toList = .ok u ∧ u.same t = true := by
  intro x negated sum t
  have hx : x.WellFormed := .identifier (by decide)
  have hnegated : negated.WellFormed := .unary rfl (.unary rfl hx)
  have hsum : sum.WellFormed := .binary rfl hnegated .string
  have ht : t.WellFormed :=
    .call (.lambda (by decide) (.binary rfl hx hsum)) (@Tree.WellFormed.num _ 9223372036854775807
      (by decide))
  exact ⟨ht, parseText_layout ht⟩

end NordLang

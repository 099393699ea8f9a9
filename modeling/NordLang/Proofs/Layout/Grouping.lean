import NordLang.Proofs.Grammar.Text
import NordLang.Proofs.Layout.Canonical
import NordLang.Proofs.Layout.Source
import NordLang.Proofs.Layout.Spacing

/-!
# Redundant parentheses

Laying out a parsed text takes parentheses away, in pairs, and does nothing else to its tokens.

* `Drops l r xs ys` says that `ys` is `xs` without `l` opening and `r` closing parentheses.
* `Ungroups` is the case of equally many of both.  It goes through all ways of putting tokens
  together (`Ungroups.append`), and a group may lose its parentheses (`Ungroups.group`).
* `Derives.covers` follows a derivation: the tokens of a tree at some level, less some pairs of
  parentheses, are the tokens that the tree is written with at a place of that level.
-/

namespace NordLang

/-! ## Taking parentheses away -/

/-- The second list is the first one without `l` opening and `r` closing parentheses. -/
inductive Drops : Nat → Nat → List (TokenKind × Scalar) → List (TokenKind × Scalar) → Prop where
  | nil : Drops 0 0 [] []
  | keep {l r : Nat} {xs ys : List (TokenKind × Scalar)} (c : TokenKind × Scalar)
      (rest : Drops l r xs ys) : Drops l r (c :: xs) (c :: ys)
  | opening {l r : Nat} {xs ys : List (TokenKind × Scalar)} (value : Scalar)
      (rest : Drops l r xs ys) : Drops (l + 1) r ((.lparen, value) :: xs) ys
  | closing {l r : Nat} {xs ys : List (TokenKind × Scalar)} (value : Scalar)
      (rest : Drops l r xs ys) : Drops l (r + 1) ((.rparen, value) :: xs) ys

namespace Drops

variable {l r l' r' : Nat} {xs ys zs xs' ys' : List (TokenKind × Scalar)}

theorem refl (xs : List (TokenKind × Scalar)) : Drops 0 0 xs xs := by
  induction xs with
  | nil => exact .nil
  | cons c xs ih => exact .keep c ih

theorem append (h : Drops l r xs ys) (h' : Drops l' r' xs' ys') :
    Drops (l + l') (r + r') (xs ++ xs') (ys ++ ys') := by
  induction h with
  | nil => simpa using h'
  | keep c _ ih => exact .keep c ih
  | opening value _ ih =>
    rw [Nat.add_right_comm]
    exact .opening value ih
  | @closing _ r _ _ value _ ih =>
    rw [Nat.add_right_comm r]
    exact .closing value ih

theorem trans (h : Drops l r xs ys) (h' : Drops l' r' ys zs) : Drops (l + l') (r + r') xs zs := by
  induction h generalizing l' r' zs with
  | nil => simpa using h'
  | keep c _ ih =>
    cases h' with
    | keep _ rest => exact .keep c (ih rest)
    | opening value rest => exact .opening value (ih rest)
    | closing value rest => exact .closing value (ih rest)
  | opening value _ ih =>
    rw [Nat.add_right_comm]
    exact .opening value (ih h')
  | @closing _ r _ _ value _ ih =>
    rw [Nat.add_right_comm r]
    exact .closing value (ih h')

end Drops

/-- The second list is the first one without some parentheses, equally many of both. -/
def Ungroups (xs ys : List (TokenKind × Scalar)) : Prop :=
  ∃ n, Drops n n xs ys

namespace Ungroups

variable {xs ys zs xs' ys' : List (TokenKind × Scalar)}

theorem refl (xs : List (TokenKind × Scalar)) : Ungroups xs xs := ⟨0, .refl xs⟩

theorem append (h : Ungroups xs ys) (h' : Ungroups xs' ys') : Ungroups (xs ++ xs') (ys ++ ys') := by
  obtain ⟨n, h⟩ := h
  obtain ⟨m, h'⟩ := h'
  exact ⟨n + m, h.append h'⟩

theorem cons (c : TokenKind × Scalar) (h : Ungroups xs ys) : Ungroups (c :: xs) (c :: ys) := by
  obtain ⟨n, h⟩ := h
  exact ⟨n, .keep c h⟩

theorem trans (h : Ungroups xs ys) (h' : Ungroups ys zs) : Ungroups xs zs := by
  obtain ⟨n, h⟩ := h
  obtain ⟨m, h'⟩ := h'
  exact ⟨n + m, h.trans h'⟩

/-- A group may lose its parentheses. -/
theorem group {a b : Scalar} (h : Ungroups xs ys) :
    Ungroups ((.lparen, a) :: (xs ++ [(.rparen, b)])) ys := by
  obtain ⟨n, h⟩ := h
  have hdrop : Drops (n + 0) (n + 1) (xs ++ [(.rparen, b)]) (ys ++ []) :=
    h.append (.closing b .nil)
  rw [List.append_nil] at hdrop
  exact ⟨n + 1, .opening a hdrop⟩

end Ungroups

/-- How many parentheses there are. -/
def parentheses (xs : List (TokenKind × Scalar)) : Nat :=
  xs.countP fun c => c.1 == .lparen || c.1 == .rparen

theorem Drops.parentheses {l r : Nat} {xs ys : List (TokenKind × Scalar)} (h : Drops l r xs ys) :
    parentheses xs = parentheses ys + l + r := by
  induction h with
  | nil => rfl
  | keep c _ ih =>
    simp only [NordLang.parentheses, List.countP_cons] at ih ⊢
    omega
  | opening _ _ ih | closing _ _ ih =>
    simp only [NordLang.parentheses, List.countP_cons] at ih ⊢
    simp
    omega

/-! ## Tokens against pieces -/

open Piece

/-- The tokens are those that the pieces stand for, but for some pairs of parentheses. -/
def Covers (ts : List Token) (ps : List Piece) : Prop :=
  Ungroups (contents ts) (contentsOf ps)

namespace Covers

variable {t : Token} {ts us : List Token} {ps qs : List Piece}

theorem nil : Covers [] [] := .refl []

theorem append (h : Covers ts ps) (h' : Covers us qs) : Covers (ts ++ us) (ps ++ qs) := by
  rw [Covers, contents, List.map_append, contentsOf_append]
  exact Ungroups.append h h'

theorem blank (h : Covers ts ps) : Covers ts (.blank :: ps) := h

theorem cons {p : Piece} (hp : p.content? = some t.content) (h : Covers ts ps) :
    Covers (t :: ts) (p :: ps) := by
  rw [Covers, contentsOf_cons, hp]
  exact Ungroups.cons _ h

theorem fixed {kind : TokenKind} (ht : t.Lexed) (hkind : t.kind = kind)
    (hspelling : kind.spelling ≠ []) (h : Covers ts ps) : Covers (t :: ts) (.fixed kind :: ps) := by
  refine cons ?_ h
  rw [content?, Token.content, hkind, (TokenKind.admits_iff hspelling).1 (ht.admits hkind)]

theorem name (ht : t.Lexed) (hkind : t.kind = .identifier) (h : Covers ts ps) :
    Covers (t :: ts) (Tree.namePiece t.value :: ps) := by
  refine cons ?_ h
  rw [content?_namePiece (ht.admits hkind), Token.content, hkind]

theorem group {o c : Token} (ho : o.kind = .lparen) (hc : c.kind = .rparen) (h : Covers ts ps) :
    Covers (o :: (ts ++ [c])) ps := by
  rw [Covers, contents, List.map_cons, List.map_append, Token.content, ho]
  rw [List.map_singleton, Token.content, hc]
  exact Ungroups.group h

theorem parenthesized {o c : Token} (ho : o.Lexed) (hc : c.Lexed) (hok : o.kind = .lparen)
    (hck : c.kind = .rparen) (h : Covers ts ps) :
    Covers (o :: (ts ++ [c])) (parenthesized ps) :=
  .fixed ho hok (by decide) (h.append (.fixed hc hck (by decide) .nil))

/-- Parentheses of the pieces may be left out as well. -/
theorem ungroup (h : Covers ts (Piece.parenthesized ps)) : Covers ts ps := by
  refine Ungroups.trans h ?_
  rw [Piece.parenthesized, contentsOf_cons, contentsOf_append]
  exact .group (.refl _)

theorem separated {α : Type} {sep : TokenKind} {R : List Token → α → Prop} {w : α → List Piece}
    {as : List α} (hsep : sep.spelling ≠ []) (h : Separated sep R ts as)
    (hts : ∀ u ∈ ts, u.Lexed)
    (hR : ∀ us a, R us a → (∀ u ∈ us, u.Lexed) → Covers us (w a)) :
    Covers ts (Piece.separated sep (as.map w)) := by
  induction h with
  | nil => exact .nil
  | one item => exact hR _ _ item hts
  | @more us rest a b as s item hs _ ih =>
    simp only [List.forall_mem_append, List.forall_mem_cons] at hts
    obtain ⟨hus, hs', hrest⟩ := hts
    rw [List.map_cons, List.map_cons, Piece.separated]
    · exact (hR _ _ item hus).append (.fixed hs' hs hsep (.blank (ih hrest)))
    · simp

end Covers

/-! ## Derivations against layouts -/

open NordLang.Tree

section items

variable {sep : TokenKind} {ts : List Token} {items : List Tree}

/-- What is known of the items of a derivation: they cover what they are written as. -/
def CoversAt (k : Nat) (ts : List Token) (t : Tree) : Prop :=
  (∀ u ∈ ts, u.Lexed) → Covers ts (t.placed k)

theorem laid_of_separated
    (h : Separated sep (fun us u => ∃ _ : Derives 0 us u, CoversAt 0 us u) ts items)
    (hts : ∀ u ∈ ts, u.Lexed) : ∀ t ∈ items, t.Laid := by
  refine h.forall_mem hts ?_
  rintro us t ⟨ht, _⟩ hus
  exact (ht.wellFormed hus).laid

theorem covers_items (hsep : sep.spelling ≠ [])
    (h : Separated sep (fun us u => ∃ _ : Derives 0 us u, CoversAt 0 us u) ts items)
    (hts : ∀ u ∈ ts, u.Lexed) : Covers ts (Piece.separated sep (items.map written)) := by
  refine Covers.separated hsep h hts ?_
  rintro us u ⟨_, hus⟩ hlexed
  rw [← placed_zero]
  exact hus hlexed

theorem covers_body
    (h : Separated .semicolon (fun us u => ∃ _ : Derives 0 us u, CoversAt 0 us u) ts items)
    (hts : ∀ u ∈ ts, u.Lexed) : Covers ts (bodyPieces (items.map written)) := by
  have hitems := covers_items (by decide) h hts
  cases items with
  | nil => exact hitems
  | cons t items => exact hitems.blank

theorem laid_of_fields {fields : List (Scalar × Tree)}
    (h : Separated sep (NamedBy fun us u => ∃ _ : Derives 0 us u, CoversAt 0 us u) ts fields)
    (hts : ∀ u ∈ ts, u.Lexed) : ∀ f ∈ fields, f.2.Laid := by
  refine h.forall_mem hts ?_
  rintro us f ⟨_, _, hvalue, _⟩ hus
  simp only [List.forall_mem_cons] at hus
  exact (hvalue.wellFormed hus.2.2).laid

theorem covers_fields {fields : List (Scalar × Tree)} (hsep : sep.spelling ≠ [])
    (h : Separated sep (NamedBy fun us u => ∃ _ : Derives 0 us u, CoversAt 0 us u) ts fields)
    (hts : ∀ u ∈ ts, u.Lexed) :
    Covers ts (Piece.separated sep (fields.map fun f => fieldPieces f.1.plain f.2.written)) := by
  refine Covers.separated hsep h hts ?_
  rintro us f ⟨hname, hcolon, _, hvalue⟩ hlexed
  simp only [List.forall_mem_cons] at hlexed
  obtain ⟨hlname, hlcolon, hlvalue⟩ := hlexed
  have hcovers := hvalue hlvalue
  rw [placed_zero] at hcovers
  exact .name hlname hname (.fixed hlcolon hcolon (by decide) hcovers.blank)

end items

theorem spelling_sign_ne_nil (op : Operator) : op.sign.spelling ≠ [] := by
  cases op <;> decide

/-- The tokens that derive a tree at some level cover what it is written as at that level. -/
theorem Derives.covers {k : Nat} {ts : List Token} {t : Tree} (h : Derives k ts t) :
    CoversAt k ts t := by
  induction h using Derives.induction with
  | @num t ht =>
    intro hts
    obtain ⟨n, hn, hvalue⟩ := (hts t List.mem_cons_self).admits ht
    have hcontent : t.content = (.integer, .int n) := by rw [Token.content, ht, hvalue]
    rw [placed_of_le (Nat.le_refl 9), hvalue, written_eq (pieces_num hn)]
    exact .cons (by rw [content?_number, hcontent]) .nil
  | @boolean t ht =>
    intro hts
    obtain ⟨b, hvalue⟩ := (hts t List.mem_cons_self).admits ht
    have hcontent : t.content = (.boolean, .bool b) := by rw [Token.content, ht, hvalue]
    rw [placed_of_le (Nat.le_refl 9), hvalue, written_eq pieces_boolean]
    exact .cons (by rw [content?, hcontent]) .nil
  | @string t ht =>
    intro hts
    obtain ⟨s, hvalue⟩ := (hts t List.mem_cons_self).admits ht
    have hcontent : t.content = (.string, .text s) := by rw [Token.content, ht, hvalue]
    rw [placed_of_le (Nat.le_refl 9), hvalue, written_eq pieces_string]
    exact .cons (by rw [content?_quoted, hcontent]) .nil
  | @identifier t ht =>
    intro hts
    rw [placed_of_le (Nat.le_refl 9), written_eq pieces_identifier]
    exact .name (hts t List.mem_cons_self) ht .nil
  | group ho _ hc ih =>
    intro hts
    simp only [List.forall_mem_cons, List.forall_mem_append] at hts
    obtain ⟨hlo, hlts, hlc, _⟩ := hts
    have hinner := ih hlts
    rw [placed_zero] at hinner
    -- An atom loses the parentheses and all else keeps them.
    unfold placed
    split
    · exact hinner.parenthesized hlo hlc ho hc
    · exact hinner.group ho hc
  | callEmpty left ho hc ih =>
    intro hts
    simp only [List.forall_mem_cons, List.forall_mem_append] at hts
    obtain ⟨hlts, hlo, hlc, _⟩ := hts
    rw [placed_of_le (Nat.le_refl 8), written_eq (pieces_callEmpty (left.wellFormed hlts).laid)]
    exact (ih hlts).append (.fixed hlo ho (by decide) (.fixed hlc hc (by decide) .nil))
  | call left ho inner hc ihcallee iharg =>
    intro hts
    simp only [List.forall_mem_cons, List.forall_mem_append] at hts
    obtain ⟨hlts, hlo, hlus, hlc, _⟩ := hts
    have harg := iharg hlus
    rw [placed_zero] at harg
    rw [placed_of_le (Nat.le_refl 8),
      written_eq (pieces_call (left.wellFormed hlts).laid (inner.wellFormed hlus).laid),
      List.append_assoc]
    have hclosed := harg.append (.fixed hlc hc (by decide) .nil)
    exact (ihcallee hlts).append (.fixed hlo ho (by decide) hclosed)
  | index left ho inner hc ihcallee ihkey =>
    intro hts
    simp only [List.forall_mem_cons, List.forall_mem_append] at hts
    obtain ⟨hlts, hlo, hlus, hlc, _⟩ := hts
    have hkey := ihkey hlus
    rw [placed_zero] at hkey
    rw [placed_of_le (Nat.le_refl 8),
      written_eq (pieces_index (left.wellFormed hlts).laid (inner.wellFormed hlus).laid),
      List.append_assoc]
    have hclosed := hkey.append (.fixed hlc hc (by decide) .nil)
    exact (ihcallee hlts).append (.fixed hlo ho (by decide) hclosed)
  | member left hdot hfield ih =>
    intro hts
    simp only [List.forall_mem_cons, List.forall_mem_append] at hts
    obtain ⟨hlts, hldot, hlfield, _⟩ := hts
    rw [placed_of_le (Nat.le_refl 8), written_eq (pieces_member (left.wellFormed hlts).laid)]
    exact (ih hlts).append (.fixed hldot hdot (by decide) (.name hlfield hfield .nil))
  | unary ho right ih =>
    intro hts
    simp only [List.forall_mem_cons] at hts
    obtain ⟨hlo, hlts⟩ := hts
    rw [placed_of_le (Nat.le_refl 7), written_eq (pieces_unary (right.wellFormed hlts).laid)]
    refine .fixed hlo (Operator.sign_of_mem_unaries ho).symm (spelling_sign_ne_nil _) ?_
    split
    · exact (ih hlts).blank
    · exact ih hlts
  | binary ho left right ihleft ihright =>
    intro hts
    obtain ⟨hop, hsign⟩ := Operator.mem_binaries.1 ho
    simp only [List.forall_mem_cons, List.forall_mem_append] at hts
    obtain ⟨hlts, hlo, hlus⟩ := hts
    rw [placed_of_le (Nat.le_of_eq (rank_binary hop).symm),
      written_eq (pieces_binary hop (left.wellFormed hlts).laid (right.wellFormed hlus).laid)]
    refine (ihleft hlts).append (.blank (.fixed hlo hsign.symm (spelling_sign_ne_nil _) ?_))
    exact (ihright hlus).blank
  | ifThen hi condition hth body he ih =>
    intro hts
    simp only [List.forall_mem_cons, List.forall_mem_append] at hts
    obtain ⟨hli, hlcs, hlth, hlbs, hle, _⟩ := hts
    have hcond := ih hlcs
    have hbody := covers_body body hlbs
    rw [placed_zero] at hcond
    rw [placed_zero, written_eq (pieces_ifThen (condition.wellFormed hlcs).laid
      (laid_of_separated body hlbs)), List.append_assoc]
    have hend := hbody.append (.blank (.fixed hle he (by decide) .nil))
    have hthen := hcond.append (.blank (.fixed hlth hth (by decide) hend))
    exact .fixed hli hi (by decide) hthen.blank
  | ifThenElse hi condition hth body hel other he ih =>
    intro hts
    simp only [List.forall_mem_cons, List.forall_mem_append] at hts
    obtain ⟨hli, hlcs, hlth, hlbs, hlel, hlds, hle, _⟩ := hts
    have hcond := ih hlcs
    have hbody := covers_body body hlbs
    have hother := covers_body other hlds
    rw [placed_zero] at hcond
    rw [placed_zero, written_eq (pieces_ifThenElse (condition.wellFormed hlcs).laid
      (laid_of_separated body hlbs) (laid_of_separated other hlds)), List.append_assoc,
      List.append_assoc]
    have hend := hother.append (.blank (.fixed hle he (by decide) .nil))
    have helse := hbody.append (.blank (.fixed hlel hel (by decide) hend))
    have hthen := hcond.append (.blank (.fixed hlth hth (by decide) helse))
    exact .fixed hli hi (by decide) hthen.blank
  | letBind hl hname heq right ih =>
    intro hts
    simp only [List.forall_mem_cons] at hts
    obtain ⟨hll, hlname, hleq, hlts⟩ := hts
    have hvalue := ih hlts
    rw [placed_zero] at hvalue
    rw [placed_zero, written_eq (pieces_letBind (right.wellFormed hlts).laid)]
    have hequals := Covers.fixed hleq heq (by decide) hvalue.blank
    exact .fixed hll hl (by decide) (.blank (.name hlname hname hequals.blank))
  | array ho items hc =>
    intro hts
    simp only [List.forall_mem_cons, List.forall_mem_append] at hts
    obtain ⟨hlo, hlts, hlc, _⟩ := hts
    rw [placed_zero, written_eq (pieces_array (laid_of_separated items hlts))]
    have hitems := covers_items (by decide) items hlts
    exact .fixed hlo ho (by decide) (hitems.append (.fixed hlc hc (by decide) .nil))
  | object hh ho items hc =>
    intro hts
    simp only [List.forall_mem_cons, List.forall_mem_append] at hts
    obtain ⟨hlh, hlo, hlts, hlc, _⟩ := hts
    rw [placed_zero, written_eq (pieces_object (laid_of_fields items hlts))]
    have hfields := (covers_fields (by decide) items hlts).append (.fixed hlc hc (by decide) .nil)
    exact .fixed hlh hh (by decide) (.fixed hlo ho (by decide) hfields)
  | lambdaEmpty hf ho hc inner ih =>
    intro hts
    simp only [List.forall_mem_cons] at hts
    obtain ⟨hlf, hlo, hlc, hlts⟩ := hts
    have hbody := ih hlts
    rw [placed_zero] at hbody
    rw [placed_zero, written_eq (pieces_lambda (inner.wellFormed hlts).laid)]
    have hclosed := Covers.fixed hlc hc (by decide) hbody.blank
    exact .fixed hlf hf (by decide) (.fixed hlo ho (by decide) hclosed)
  | lambda hf ho hparam hc inner ih =>
    intro hts
    simp only [List.forall_mem_cons] at hts
    obtain ⟨hlf, hlo, hlparam, hlc, hlts⟩ := hts
    have hbody := ih hlts
    rw [placed_zero] at hbody
    rw [placed_zero, written_eq (pieces_lambda (inner.wellFormed hlts).laid),
      paramPieces_of_isName (hlparam.admits hparam)]
    have hclosed := Covers.fixed hlc hc (by decide) hbody.blank
    exact .fixed hlf hf (by decide) (.fixed hlo ho (by decide) (.name hlparam hparam hclosed))
  | block hb items he =>
    intro hts
    simp only [List.forall_mem_cons, List.forall_mem_append] at hts
    obtain ⟨hlb, hlts, hle, _⟩ := hts
    rw [placed_zero, written_eq (pieces_block (laid_of_separated items hlts))]
    have hend := (covers_body items hlts).append (.blank (.fixed hle he (by decide) .nil))
    exact .fixed hlb hb (by decide) hend
  | @lift k ts t _ _ ih =>
    intro hts
    have htighter := ih hts
    by_cases hk : t.rank < k
    · rw [placed, if_pos hk]
      rwa [placed, if_pos (by omega)] at htighter
    · rw [placed_of_le (Nat.not_lt.1 hk)]
      by_cases hk' : t.rank < k + 1
      · rw [placed, if_pos hk'] at htighter
        exact htighter.ungroup
      · rwa [placed_of_le (Nat.not_lt.1 hk')] at htighter

/-! ## Texts against layouts -/

/-- What the end of the input is read as. -/
def endContent : TokenKind × Scalar := (.endOfInput, .text "")

theorem ungroups_of_parse {text : List Char} {t : Tree} (h : parseText text = .ok t) :
    t.WellFormed ∧ ∃ us, tokenize text = .ok us ∧
      Ungroups (contents us) (contentsOf t.written ++ [endContent]) := by
  obtain ⟨ts, htiled, hderives⟩ := parseText_eq_ok.1 h
  have hcovers := hderives.covers htiled.lexed
  rw [placed_zero] at hcovers
  refine ⟨hderives.wellFormed htiled.lexed, _, tokenize_eq_ok.2 ⟨ts, htiled, rfl⟩, ?_⟩
  rw [contents, List.map_append]
  exact Ungroups.append hcovers (.refl _)

theorem Tree.WellFormed.tokenize_written {t : Tree} (h : t.WellFormed) :
    ∃ vs, tokenize (textOf t.written) = .ok vs ∧
      contents vs = contentsOf t.written ++ [endContent] := by
  obtain ⟨ts, htiled, hcontents⟩ := (h.compact.apart none (by simp)).tiled []
  refine ⟨_, tokenize_eq_ok.2 ⟨ts, htiled, rfl⟩, ?_⟩
  rw [contents, List.map_append, ← hcontents]
  rfl

/-- A text that is parsed to a tree has the tokens of the layout of the tree and besides them only
pairs of parentheses.  So no text of the same tree has fewer parentheses than the layout. -/
theorem layout_ungroups {text : List Char} {t : Tree} (h : parseText text = .ok t) :
    ∃ out us vs, t.layout = .ok (.text out) ∧ tokenize text = .ok us ∧
      tokenize out.toList = .ok vs ∧ Ungroups (contents us) (contents vs) ∧
      ∀ text' t' us', parseText text' = .ok t' → t'.same t = true → tokenize text' = .ok us' →
        parentheses (contents vs) ≤ parentheses (contents us') := by
  obtain ⟨hwf, us, hus, hungroups⟩ := ungroups_of_parse h
  obtain ⟨vs, hvs, hcontents⟩ := hwf.tokenize_written
  rw [← hcontents] at hungroups
  refine ⟨_, us, vs, hwf.layout, hus, ?_, hungroups, ?_⟩
  · rw [String.toList_ofList]
    exact hvs
  · intro text' t' us' h' hsame hus'
    obtain ⟨hwf', us'', hus'', hungroups'⟩ := ungroups_of_parse h'
    rw [hus'] at hus''
    cases hus''
    rw [(alike_of_same hsame hwf' hwf).written, ← hcontents] at hungroups'
    obtain ⟨n, hdrops⟩ := hungroups'
    rw [hdrops.parentheses]
    omega

/-- Of three pairs of parentheses the layout keeps the one that is needed. -/
theorem layout_ungroups_subtractions :
    let name (w : String) (column : Int) : Tree := .constant ⟨1, column⟩ (.identifier (.text w))
    let t : Tree := .binary ⟨1, 6⟩ (name "a" 3) (some .sub)
      (.binary ⟨1, 11⟩ (name "b" 9) (some .sub) (name "c" 13))
    parseText "((a) - (b - c))".toList = .ok t ∧
    ∃ out us vs, t.layout = .ok (.text out) ∧ tokenize "((a) - (b - c))".toList = .ok us ∧
      tokenize out.toList = .ok vs ∧ Ungroups (contents us) (contents vs) ∧
      ∀ text' t' us', parseText text' = .ok t' → t'.same t = true → tokenize text' = .ok us' →
        parentheses (contents vs) ≤ parentheses (contents us') := by
  intro name t
  have h : parseText "((a) - (b - c))".toList = .ok t := by with_unfolding_all rfl
  exact ⟨h, layout_ungroups h⟩

end NordLang

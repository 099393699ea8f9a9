import NordLang.Tree

/-!
# Derivations

The grammar of the language as a relation between lists of tokens and trees, without a reader and
without lookahead.  `Derives k ts t` says that the tokens `ts` are a text of `t` where a tree of
strength `k` or more may stand:

* level 0 is a full expression: a conditional, binding, array, object, function or block, or else a
  chain of operators,
* levels 1 to 6 are the tiers of binary operators, loosest first, each of them nesting to the left,
* level 7 are the prefix operators, which nest to the right,
* level 8 are calls, indices and members, which nest to the left,
* level 9 are literals, names and full expressions in parentheses.

Every node has the place of the token that introduces it.  A branch of a conditional has no such
token and takes the place of the token that follows the keyword in front of it.

The operators stand here once more, with their levels and signs, apart from the tables that reading
and laying out look them up in; `mem_binaries` and `mem_unaries` say that the two agree.

`Derives.induction` is the induction over derivations: for items with separators it provides the
hypothesis for each item.  `Derives.head` says which tokens a derivation can start with, and
`Derives.isEnd_eq_false` that none of them is the end of the input.
-/

namespace NordLang

/-- Items with a separator between any two of them. -/
inductive Separated {α : Type} (sep : TokenKind) (R : List Token → α → Prop) :
    List Token → List α → Prop where
  | nil : Separated sep R [] []
  | one {ts : List Token} {a : α} (item : R ts a) : Separated sep R ts [a]
  | more {ts rest : List Token} {a b : α} {as : List α} {s : Token} (item : R ts a)
      (hs : s.kind = sep) (others : Separated sep R rest (b :: as)) :
      Separated sep R (ts ++ s :: rest) (a :: b :: as)

/-- A name, a colon and a value. -/
inductive NamedBy (R : List Token → Tree → Prop) : List Token → Scalar × Tree → Prop where
  | mk {name colon : Token} {ts : List Token} {t : Tree} (hname : name.kind = .identifier)
      (hcolon : colon.kind = .colon) (value : R ts t) :
      NamedBy R (name :: colon :: ts) (name.value, t)

namespace Operator

/-- The binary operators: their levels and how they are written. -/
def binaries : List (Nat × TokenKind × Operator) :=
  [(1, .equals, .assign), (2, .orOr, .either), (3, .andAnd, .both),
   (4, .doubleEquals, .equal), (4, .notEquals, .notEqual), (4, .less, .less),
   (4, .lessEqual, .lessEqual), (4, .greater, .greater), (4, .greaterEqual, .greaterEqual),
   (5, .plus, .add), (5, .minus, .sub), (6, .star, .mul), (6, .slash, .div), (6, .percent, .mod)]

/-- The prefix operators and how they are written. -/
def unaries : List (TokenKind × Operator) :=
  [(.minus, .negate), (.bang, .invert)]

end Operator

/-- The place of a body that is followed by `next`. -/
def bodyLoc (ts : List Token) (next : Token) : Location :=
  (ts.headD next).loc

inductive Derives : Nat → List Token → Tree → Prop where
  | num {t : Token} (ht : t.kind = .integer) : Derives 9 [t] (.constant t.loc (.num t.value))
  | boolean {t : Token} (ht : t.kind = .boolean) :
      Derives 9 [t] (.constant t.loc (.boolean t.value))
  | string {t : Token} (ht : t.kind = .string) : Derives 9 [t] (.constant t.loc (.string t.value))
  | identifier {t : Token} (ht : t.kind = .identifier) :
      Derives 9 [t] (.constant t.loc (.identifier t.value))
  | group {o c : Token} {ts : List Token} {t : Tree} (ho : o.kind = .lparen)
      (inner : Derives 0 ts t) (hc : c.kind = .rparen) : Derives 9 (o :: (ts ++ [c])) t
  | callEmpty {o c : Token} {ts : List Token} {callee : Tree} (left : Derives 8 ts callee)
      (ho : o.kind = .lparen) (hc : c.kind = .rparen) :
      Derives 8 (ts ++ [o, c]) (.call o.loc callee .missing)
  | call {o c : Token} {ts us : List Token} {callee arg : Tree} (left : Derives 8 ts callee)
      (ho : o.kind = .lparen) (inner : Derives 0 us arg) (hc : c.kind = .rparen) :
      Derives 8 (ts ++ o :: (us ++ [c])) (.call o.loc callee arg)
  | index {o c : Token} {ts us : List Token} {callee key : Tree} (left : Derives 8 ts callee)
      (ho : o.kind = .lbracket) (inner : Derives 0 us key) (hc : c.kind = .rbracket) :
      Derives 8 (ts ++ o :: (us ++ [c])) (.index o.loc callee key)
  | member {dot field : Token} {ts : List Token} {callee : Tree} (left : Derives 8 ts callee)
      (hdot : dot.kind = .dot) (hfield : field.kind = .identifier) :
      Derives 8 (ts ++ [dot, field]) (.member field.loc callee field.value)
  | unary {o : Token} {op : Operator} {ts : List Token} {operand : Tree}
      (ho : (o.kind, op) ∈ Operator.unaries) (right : Derives 7 ts operand) :
      Derives 7 (o :: ts) (.unary o.loc (some op) operand)
  | binary {k : Nat} {o : Token} {op : Operator} {ts us : List Token} {left right : Tree}
      (ho : (k, o.kind, op) ∈ Operator.binaries) (leftOperand : Derives k ts left)
      (rightOperand : Derives (k + 1) us right) :
      Derives k (ts ++ o :: us) (.binary o.loc left (some op) right)
  | ifThen {i th e : Token} {cs bs : List Token} {cond : Tree} {body : List Tree}
      (hi : i.kind = .ifKw) (condition : Derives 0 cs cond) (hth : th.kind = .thenKw)
      (thenBody : Separated .semicolon (Derives 0) bs body) (he : e.kind = .endKw) :
      Derives 0 (i :: (cs ++ th :: (bs ++ [e])))
        (.ifElse i.loc cond (.block (bodyLoc bs e) body) .missing)
  | ifThenElse {i th el e : Token} {cs bs ds : List Token} {cond : Tree} {body other : List Tree}
      (hi : i.kind = .ifKw) (condition : Derives 0 cs cond) (hth : th.kind = .thenKw)
      (thenBody : Separated .semicolon (Derives 0) bs body) (hel : el.kind = .elseKw)
      (elseBody : Separated .semicolon (Derives 0) ds other) (he : e.kind = .endKw) :
      Derives 0 (i :: (cs ++ th :: (bs ++ el :: (ds ++ [e]))))
        (.ifElse i.loc cond (.block (bodyLoc bs el) body) (.block (bodyLoc ds e) other))
  | letBind {l name eq : Token} {ts : List Token} {value : Tree} (hl : l.kind = .letKw)
      (hname : name.kind = .identifier) (heq : eq.kind = .equals) (right : Derives 0 ts value) :
      Derives 0 (l :: name :: eq :: ts) (.letBind l.loc name.value value)
  | array {o c : Token} {ts : List Token} {elements : List Tree} (ho : o.kind = .lbracket)
      (items : Separated .comma (Derives 0) ts elements) (hc : c.kind = .rbracket) :
      Derives 0 (o :: (ts ++ [c])) (.array o.loc elements)
  | object {h o c : Token} {ts : List Token} {fields : List (Scalar × Tree)} (hh : h.kind = .hash)
      (ho : o.kind = .lbrace) (items : Separated .comma (NamedBy (Derives 0)) ts fields)
      (hc : c.kind = .rbrace) : Derives 0 (h :: o :: (ts ++ [c])) (.object h.loc fields)
  | lambdaEmpty {f o c : Token} {ts : List Token} {body : Tree} (hf : f.kind = .fnKw)
      (ho : o.kind = .lparen) (hc : c.kind = .rparen) (inner : Derives 0 ts body) :
      Derives 0 (f :: o :: c :: ts) (.lambda f.loc .null body)
  | lambda {f o param c : Token} {ts : List Token} {body : Tree} (hf : f.kind = .fnKw)
      (ho : o.kind = .lparen) (hparam : param.kind = .identifier) (hc : c.kind = .rparen)
      (inner : Derives 0 ts body) :
      Derives 0 (f :: o :: param :: c :: ts) (.lambda f.loc param.value body)
  | block {b e : Token} {ts : List Token} {body : List Tree} (hb : b.kind = .blockKw)
      (items : Separated .semicolon (Derives 0) ts body) (he : e.kind = .endKw) :
      Derives 0 (b :: (ts ++ [e])) (.block b.loc body)
  | lift {k : Nat} {ts : List Token} {t : Tree} (hk : k < 9) (tighter : Derives (k + 1) ts t) :
      Derives k ts t

theorem Derives.mono {j k : Nat} {ts : List Token} {t : Tree} (h : Derives k ts t) (hjk : j ≤ k)
    (hk : k ≤ 9) : Derives j ts t := by
  obtain ⟨d, rfl⟩ := Nat.exists_eq_add_of_le hjk
  induction d with
  | zero => exact h
  | succ d ih => exact ih (.lift (by omega) h) (by omega) (by omega)

/-- What is known of every item is known of them together. -/
theorem Separated.imp {α : Type} {sep : TokenKind} {R S : List Token → α → Prop}
    {ts : List Token} {as : List α} (h : Separated sep R ts as) (hRS : ∀ us a, R us a → S us a) :
    Separated sep S ts as := by
  induction h with
  | nil => exact .nil
  | one item => exact .one (hRS _ _ item)
  | more item hs _ ih => exact .more (hRS _ _ item) hs ih

theorem NamedBy.imp {R S : List Token → Tree → Prop} {ts : List Token} {f : Scalar × Tree}
    (h : NamedBy R ts f) (hRS : ∀ us u, R us u → S us u) : NamedBy S ts f := by
  cases h with
  | mk hname hcolon value => exact .mk hname hcolon (hRS _ _ value)

theorem NamedBy.right {P R : List Token → Tree → Prop} {ts : List Token} {f : Scalar × Tree}
    (h : NamedBy (fun us u => ∃ _ : P us u, R us u) ts f) : NamedBy R ts f := by
  refine h.imp fun us u hboth => ?_
  obtain ⟨_, hR⟩ := hboth
  exact hR

/-- Of what is known of every item the second part alone. -/
theorem Separated.right {α : Type} {sep : TokenKind} {P R : List Token → α → Prop}
    {ts : List Token} {as : List α} (h : Separated sep (fun us a => ∃ _ : P us a, R us a) ts as) :
    Separated sep R ts as := by
  refine h.imp fun us a hboth => ?_
  obtain ⟨_, hR⟩ := hboth
  exact hR

/-- Induction over derivations.  Items with separators come with a derivation and the hypothesis for
each of them. -/
@[elab_as_elim]
theorem Derives.induction
    {motive : (k : Nat) → (ts : List Token) → (t : Tree) → Derives k ts t → Prop}
    (num : ∀ {t : Token} (ht : t.kind = .integer), motive 9 [t] _ (.num ht))
    (boolean : ∀ {t : Token} (ht : t.kind = .boolean), motive 9 [t] _ (.boolean ht))
    (string : ∀ {t : Token} (ht : t.kind = .string), motive 9 [t] _ (.string ht))
    (identifier : ∀ {t : Token} (ht : t.kind = .identifier), motive 9 [t] _ (.identifier ht))
    (group : ∀ {o c : Token} {ts : List Token} {t : Tree} (ho : o.kind = .lparen)
      (inner : Derives 0 ts t) (hc : c.kind = .rparen), motive 0 ts t inner →
      motive 9 (o :: (ts ++ [c])) t (.group ho inner hc))
    (callEmpty : ∀ {o c : Token} {ts : List Token} {callee : Tree} (left : Derives 8 ts callee)
      (ho : o.kind = .lparen) (hc : c.kind = .rparen), motive 8 ts callee left →
      motive 8 (ts ++ [o, c]) _ (.callEmpty left ho hc))
    (call : ∀ {o c : Token} {ts us : List Token} {callee arg : Tree} (left : Derives 8 ts callee)
      (ho : o.kind = .lparen) (inner : Derives 0 us arg) (hc : c.kind = .rparen),
      motive 8 ts callee left → motive 0 us arg inner →
      motive 8 (ts ++ o :: (us ++ [c])) _ (.call left ho inner hc))
    (index : ∀ {o c : Token} {ts us : List Token} {callee key : Tree} (left : Derives 8 ts callee)
      (ho : o.kind = .lbracket) (inner : Derives 0 us key) (hc : c.kind = .rbracket),
      motive 8 ts callee left → motive 0 us key inner →
      motive 8 (ts ++ o :: (us ++ [c])) _ (.index left ho inner hc))
    (member : ∀ {dot field : Token} {ts : List Token} {callee : Tree}
      (left : Derives 8 ts callee) (hdot : dot.kind = .dot) (hfield : field.kind = .identifier),
      motive 8 ts callee left → motive 8 (ts ++ [dot, field]) _ (.member left hdot hfield))
    (unary : ∀ {o : Token} {op : Operator} {ts : List Token} {operand : Tree}
      (ho : (o.kind, op) ∈ Operator.unaries) (right : Derives 7 ts operand),
      motive 7 ts operand right → motive 7 (o :: ts) _ (.unary ho right))
    (binary : ∀ {k : Nat} {o : Token} {op : Operator} {ts us : List Token} {left right : Tree}
      (ho : (k, o.kind, op) ∈ Operator.binaries) (leftOperand : Derives k ts left)
      (rightOperand : Derives (k + 1) us right), motive k ts left leftOperand →
      motive (k + 1) us right rightOperand →
      motive k (ts ++ o :: us) _ (.binary ho leftOperand rightOperand))
    (ifThen : ∀ {i th e : Token} {cs bs : List Token} {cond : Tree} {body : List Tree}
      (hi : i.kind = .ifKw) (condition : Derives 0 cs cond) (hth : th.kind = .thenKw)
      (thenBody : Separated .semicolon (fun us u => ∃ h, motive 0 us u h) bs body)
      (he : e.kind = .endKw), motive 0 cs cond condition →
      motive 0 (i :: (cs ++ th :: (bs ++ [e]))) _
        (.ifThen hi condition hth (thenBody.imp fun _ _ ⟨h, _⟩ => h) he))
    (ifThenElse : ∀ {i th el e : Token} {cs bs ds : List Token} {cond : Tree}
      {body other : List Tree} (hi : i.kind = .ifKw) (condition : Derives 0 cs cond)
      (hth : th.kind = .thenKw)
      (thenBody : Separated .semicolon (fun us u => ∃ h, motive 0 us u h) bs body)
      (hel : el.kind = .elseKw)
      (elseBody : Separated .semicolon (fun us u => ∃ h, motive 0 us u h) ds other)
      (he : e.kind = .endKw), motive 0 cs cond condition →
      motive 0 (i :: (cs ++ th :: (bs ++ el :: (ds ++ [e])))) _
        (.ifThenElse hi condition hth (thenBody.imp fun _ _ ⟨h, _⟩ => h) hel
          (elseBody.imp fun _ _ ⟨h, _⟩ => h) he))
    (letBind : ∀ {l name eq : Token} {ts : List Token} {value : Tree} (hl : l.kind = .letKw)
      (hname : name.kind = .identifier) (heq : eq.kind = .equals) (right : Derives 0 ts value),
      motive 0 ts value right →
      motive 0 (l :: name :: eq :: ts) _ (.letBind hl hname heq right))
    (array : ∀ {o c : Token} {ts : List Token} {elements : List Tree} (ho : o.kind = .lbracket)
      (items : Separated .comma (fun us u => ∃ h, motive 0 us u h) ts elements)
      (hc : c.kind = .rbracket),
      motive 0 (o :: (ts ++ [c])) _ (.array ho (items.imp fun _ _ ⟨h, _⟩ => h) hc))
    (object : ∀ {h o c : Token} {ts : List Token} {fields : List (Scalar × Tree)}
      (hh : h.kind = .hash) (ho : o.kind = .lbrace)
      (items : Separated .comma (NamedBy fun us u => ∃ h, motive 0 us u h) ts fields)
      (hc : c.kind = .rbrace),
      motive 0 (h :: o :: (ts ++ [c])) _
        (.object hh ho (items.imp fun _ _ field => field.imp fun _ _ ⟨h, _⟩ => h) hc))
    (lambdaEmpty : ∀ {f o c : Token} {ts : List Token} {body : Tree} (hf : f.kind = .fnKw)
      (ho : o.kind = .lparen) (hc : c.kind = .rparen) (inner : Derives 0 ts body),
      motive 0 ts body inner → motive 0 (f :: o :: c :: ts) _ (.lambdaEmpty hf ho hc inner))
    (lambda : ∀ {f o param c : Token} {ts : List Token} {body : Tree} (hf : f.kind = .fnKw)
      (ho : o.kind = .lparen) (hparam : param.kind = .identifier) (hc : c.kind = .rparen)
      (inner : Derives 0 ts body), motive 0 ts body inner →
      motive 0 (f :: o :: param :: c :: ts) _ (.lambda hf ho hparam hc inner))
    (block : ∀ {b e : Token} {ts : List Token} {body : List Tree} (hb : b.kind = .blockKw)
      (items : Separated .semicolon (fun us u => ∃ h, motive 0 us u h) ts body)
      (he : e.kind = .endKw),
      motive 0 (b :: (ts ++ [e])) _ (.block hb (items.imp fun _ _ ⟨h, _⟩ => h) he))
    (lift : ∀ {k : Nat} {ts : List Token} {t : Tree} (hk : k < 9)
      (tighter : Derives (k + 1) ts t), motive (k + 1) ts t tighter →
      motive k ts t (.lift hk tighter))
    {k : Nat} {ts : List Token} {t : Tree} (h : Derives k ts t) : motive k ts t h := by
  -- Items keep their separators through the recursion and gain the hypothesis.
  refine @Derives.rec motive
    (fun ts es _ => Separated .semicolon (fun us u => ∃ h, motive 0 us u h) ts es)
    (fun ts es _ => Separated .comma (fun us u => ∃ h, motive 0 us u h) ts es)
    (fun ts fs _ => Separated .comma (NamedBy fun us u => ∃ h, motive 0 us u h) ts fs)
    (fun ts f _ => NamedBy (fun us u => ∃ h, motive 0 us u h) ts f)
    num boolean string identifier group callEmpty call index member unary binary
    ?_ ?_ letBind ?_ ?_ lambdaEmpty lambda ?_ lift .nil ?_ ?_ .nil ?_ ?_ .nil ?_ ?_ ?_ k ts t h
  · exact fun hi hc hth _ he ihc ihb => ifThen hi hc hth ihb he ihc
  · exact fun hi hc hth _ hel _ he ihc ihb ihd => ifThenElse hi hc hth ihb hel ihd he ihc
  · exact fun ho _ hc ih => array ho ih hc
  · exact fun hh ho _ hc ih => object hh ho ih hc
  · exact fun hb _ he ih => block hb ih he
  · exact fun h ih => .one ⟨h, ih⟩
  · exact fun h hs _ ih ihs => .more ⟨h, ih⟩ hs ihs
  · exact fun h ih => .one ⟨h, ih⟩
  · exact fun h hs _ ih ihs => .more ⟨h, ih⟩ hs ihs
  · exact fun _ ih => .one ih
  · exact fun _ hs _ ih ihs => .more ih hs ihs
  · exact fun hname hcolon h ih => .mk hname hcolon ⟨h, ih⟩

/-! ## Operators -/

namespace Operator

theorem mem_binaries {k : Nat} {kind : TokenKind} {op : Operator} :
    (k, kind, op) ∈ binaries ↔ op.tier? = some k ∧ op.sign = kind := by
  constructor
  · intro h
    simp only [binaries, List.mem_cons, List.not_mem_nil, or_false, Prod.mk.injEq] at h
    rcases h with ⟨rfl, rfl, rfl⟩ | ⟨rfl, rfl, rfl⟩ | ⟨rfl, rfl, rfl⟩ | ⟨rfl, rfl, rfl⟩ |
      ⟨rfl, rfl, rfl⟩ | ⟨rfl, rfl, rfl⟩ | ⟨rfl, rfl, rfl⟩ | ⟨rfl, rfl, rfl⟩ | ⟨rfl, rfl, rfl⟩ |
      ⟨rfl, rfl, rfl⟩ | ⟨rfl, rfl, rfl⟩ | ⟨rfl, rfl, rfl⟩ | ⟨rfl, rfl, rfl⟩ | ⟨rfl, rfl, rfl⟩
    all_goals exact ⟨rfl, rfl⟩
  · rintro ⟨htier, rfl⟩
    cases op with
    | negate | invert => cases htier
    | _ =>
      cases htier
      decide

theorem mem_unaries {kind : TokenKind} {op : Operator} :
    (kind, op) ∈ unaries ↔ unary? kind = some op := by
  constructor
  · intro h
    simp only [unaries, List.mem_cons, List.not_mem_nil, or_false, Prod.mk.injEq] at h
    rcases h with ⟨rfl, rfl⟩ | ⟨rfl, rfl⟩
    all_goals rfl
  · intro h
    unfold unary? at h
    split at h <;> cases h <;> decide

theorem sign_mem_unaries {op : Operator} :
    (op.sign, op) ∈ unaries ↔ op.isUnary = true := by
  cases op <;> decide

theorem sign_of_mem_unaries {kind : TokenKind} {op : Operator} (h : (kind, op) ∈ unaries) :
    op.sign = kind := by
  simp only [unaries, List.mem_cons, List.not_mem_nil, or_false, Prod.mk.injEq] at h
  rcases h with ⟨rfl, rfl⟩ | ⟨rfl, rfl⟩
  all_goals rfl

end Operator

/-! ## The first token -/

theorem Separated.head {α : Type} {sep : TokenKind} {R : List Token → α → Prop} {ts : List Token}
    {a : α} {as : List α} (h : Separated sep R ts (a :: as)) (p : TokenKind → Prop)
    (hp : ∀ us a, R us a → ∃ u vs, us = u :: vs ∧ p u.kind) : ∃ u vs, ts = u :: vs ∧ p u.kind := by
  cases h with
  | one item => exact hp _ _ item
  | more item hs others =>
    obtain ⟨u, vs, rfl, hu⟩ := hp _ _ item
    exact ⟨u, _, rfl, hu⟩

/-- Whether a full expression that starts with a token of this kind is no chain of operators. -/
def TokenKind.opensForm (kind : TokenKind) : Bool :=
  [ifKw, letKw, lbracket, hash, fnKw, blockKw].contains kind

theorem Derives.head {k : Nat} {ts : List Token} {t : Tree} (h : Derives k ts t) :
    ∃ u us, ts = u :: us ∧ u.kind.startsExpression = true ∧
      (0 < k → u.kind.opensForm = false) ∧ (7 < k → Operator.unary? u.kind = none) := by
  induction h using Derives.induction with
  | num ht | boolean ht | string ht | identifier ht =>
    exact ⟨_, [], rfl, by rw [ht]; rfl, fun _ => by rw [ht]; rfl, fun _ => by rw [ht]; rfl⟩
  | group ho _ _ _ =>
    exact ⟨_, _, rfl, by rw [ho]; rfl, fun _ => by rw [ho]; rfl, fun _ => by rw [ho]; rfl⟩
  | callEmpty _ _ _ ih | member _ _ _ ih =>
    obtain ⟨u, us, rfl, hu⟩ := ih
    exact ⟨u, _, rfl, hu⟩
  | call _ _ _ _ ih _ | index _ _ _ _ ih _ =>
    obtain ⟨u, us, rfl, hu⟩ := ih
    exact ⟨u, _, rfl, hu⟩
  | unary ho _ _ =>
    have hstarts : ∀ entry ∈ Operator.unaries,
        entry.1.startsExpression = true ∧ entry.1.opensForm = false := by decide
    obtain ⟨hstart, hform⟩ := hstarts _ ho
    exact ⟨_, _, rfl, hstart, fun _ => hform, by omega⟩
  | binary _ _ _ ih _ =>
    obtain ⟨u, us, rfl, hu⟩ := ih
    exact ⟨u, _, rfl, hu⟩
  | ifThen hi _ _ _ _ _ => exact ⟨_, _, rfl, by rw [hi]; rfl, by omega, by omega⟩
  | ifThenElse hi _ _ _ _ _ _ _ => exact ⟨_, _, rfl, by rw [hi]; rfl, by omega, by omega⟩
  | letBind hl _ _ _ _ => exact ⟨_, _, rfl, by rw [hl]; rfl, by omega, by omega⟩
  | array ho _ _ => exact ⟨_, _, rfl, by rw [ho]; rfl, by omega, by omega⟩
  | object hh _ _ _ => exact ⟨_, _, rfl, by rw [hh]; rfl, by omega, by omega⟩
  | lambdaEmpty hf _ _ _ _ => exact ⟨_, _, rfl, by rw [hf]; rfl, by omega, by omega⟩
  | lambda hf _ _ _ _ _ => exact ⟨_, _, rfl, by rw [hf]; rfl, by omega, by omega⟩
  | block hb _ _ => exact ⟨_, _, rfl, by rw [hb]; rfl, by omega, by omega⟩
  | lift _ _ ih =>
    obtain ⟨u, us, rfl, hu, hform, hsign⟩ := ih
    exact ⟨u, us, rfl, hu, fun _ => hform (by omega), fun h => hsign (by omega)⟩

/-! ## No end of the input -/

theorem Separated.forall_tokens {α : Type} {sep : TokenKind} {R : List Token → α → Prop}
    {P : Token → Prop} {ts : List Token} {as : List α} (h : Separated sep R ts as)
    (hsep : ∀ s : Token, s.kind = sep → P s) (hR : ∀ us a, R us a → ∀ u ∈ us, P u) :
    ∀ u ∈ ts, P u := by
  induction h with
  | nil => simp
  | one item => exact hR _ _ item
  | more item hs _ ih =>
    rw [List.forall_mem_append, List.forall_mem_cons]
    exact ⟨hR _ _ item, hsep _ hs, ih⟩

/-- What is known of the items of a derivation: no end of the input is among their tokens. -/
abbrev EndlessFrom (ts : List Token) (t : Tree) : Prop :=
  ∃ _ : Derives 0 ts t, ∀ u ∈ ts, u.isEnd = false

theorem isEnd_eq_false_items {sep : TokenKind} {ts : List Token} {items : List Tree}
    (h : Separated sep EndlessFrom ts items) (hsep : sep ≠ .endOfInput) :
    ∀ u ∈ ts, u.isEnd = false := by
  refine h.forall_tokens (fun s hs => by simpa [Token.isEnd, hs] using hsep) ?_
  rintro us t ⟨_, hus⟩
  exact hus

/-- No end of the input is part of a derivation. -/
theorem Derives.isEnd_eq_false {k : Nat} {ts : List Token} {t : Tree} (h : Derives k ts t) :
    ∀ u ∈ ts, u.isEnd = false := by
  induction h using Derives.induction with
  | num ht | boolean ht | string ht | identifier ht => simp [Token.isEnd, ht]
  | group ho _ hc ih =>
    simp only [List.forall_mem_cons, List.forall_mem_append]
    exact ⟨by simp [Token.isEnd, ho], ih, by simp [Token.isEnd, hc]⟩
  | callEmpty _ ho hc ih =>
    simp only [List.forall_mem_cons, List.forall_mem_append]
    exact ⟨ih, by simp [Token.isEnd, ho], by simp [Token.isEnd, hc]⟩
  | call _ ho _ hc ihcallee ihinner | index _ ho _ hc ihcallee ihinner =>
    simp only [List.forall_mem_cons, List.forall_mem_append]
    exact ⟨ihcallee, by simp [Token.isEnd, ho], ihinner, by simp [Token.isEnd, hc]⟩
  | member _ hdot hfield ih =>
    simp only [List.forall_mem_cons, List.forall_mem_append]
    exact ⟨ih, by simp [Token.isEnd, hdot], by simp [Token.isEnd, hfield]⟩
  | unary ho _ ih =>
    rw [List.forall_mem_cons]
    have hsigns : ∀ entry ∈ Operator.unaries, entry.1 ≠ .endOfInput := by decide
    exact ⟨by simpa [Token.isEnd] using hsigns _ ho, ih⟩
  | binary ho _ _ ihleft ihright =>
    rw [List.forall_mem_append, List.forall_mem_cons]
    have hsigns : ∀ entry ∈ Operator.binaries, entry.2.1 ≠ .endOfInput := by decide
    exact ⟨ihleft, by simpa [Token.isEnd] using hsigns _ ho, ihright⟩
  | ifThen hi _ hth body he ih =>
    simp only [List.forall_mem_cons, List.forall_mem_append]
    exact ⟨by simp [Token.isEnd, hi], ih, by simp [Token.isEnd, hth],
      isEnd_eq_false_items body (by decide), by simp [Token.isEnd, he]⟩
  | ifThenElse hi _ hth body hel other he ih =>
    simp only [List.forall_mem_cons, List.forall_mem_append]
    exact ⟨by simp [Token.isEnd, hi], ih, by simp [Token.isEnd, hth],
      isEnd_eq_false_items body (by decide), by simp [Token.isEnd, hel],
      isEnd_eq_false_items other (by decide), by simp [Token.isEnd, he]⟩
  | array ho items hc | block ho items hc =>
    simp only [List.forall_mem_cons, List.forall_mem_append]
    exact ⟨by simp [Token.isEnd, ho], isEnd_eq_false_items items (by decide),
      by simp [Token.isEnd, hc]⟩
  | object hh ho items hc =>
    simp only [List.forall_mem_cons, List.forall_mem_append]
    refine ⟨by simp [Token.isEnd, hh], by simp [Token.isEnd, ho], ?_, by simp [Token.isEnd, hc]⟩
    refine items.forall_tokens (fun s hs => by simp [Token.isEnd, hs]) ?_
    rintro _ _ ⟨hname, hcolon, _, hus⟩
    simp only [List.forall_mem_cons]
    exact ⟨by simp [Token.isEnd, hname], by simp [Token.isEnd, hcolon], hus⟩
  | letBind h₁ h₂ h₃ _ ih | lambdaEmpty h₁ h₂ h₃ _ ih =>
    simp only [List.forall_mem_cons]
    exact ⟨by simp [Token.isEnd, h₁], by simp [Token.isEnd, h₂], by simp [Token.isEnd, h₃], ih⟩
  | lambda hf ho hparam hc _ ih =>
    simp only [List.forall_mem_cons]
    exact ⟨by simp [Token.isEnd, hf], by simp [Token.isEnd, ho], by simp [Token.isEnd, hparam],
      by simp [Token.isEnd, hc], ih⟩
  | lift _ _ ih => exact ih

end NordLang

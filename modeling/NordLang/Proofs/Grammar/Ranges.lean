import NordLang.Proofs.Grammar.Recognition
import NordLang.Proofs.Tree.Same

/-!
# Ranges of nodes

Every node of a parsed tree comes from a range of the tokens, and parentheses around that range
change nothing but places.

* `Tree.parts` are the expressions that a node is made of, and `Tree.nodeAt?` follows a path of
  their numbers.  A branch of a conditional is no node of its own here; its expressions are parts of
  the conditional.
* `Part us u` is one step down in a derivation: what stands before and after the tokens `us` of the
  part `u`.  `Part.derives` puts a derivation of the part back into its place, and `Part.change` puts
  another part there.
* `Within` is a derivation with a path into it.  It says which tokens the node at the end of the path
  is derived from.  `Derives.reaches` finds them for every node, and `Within.grouped` puts
  parentheses around them.
-/

namespace NordLang

/-! ## Nodes -/

namespace Tree

/-- The expressions of a branch. -/
def branchItems : Tree → List Tree
  | block _ body => body
  | _ => []

/-- The expressions that a node is made of, in the order of the text. -/
def parts : Tree → List Tree
  | ifElse _ cond thenBranch elseBranch =>
    cond :: (thenBranch.branchItems ++ elseBranch.branchItems)
  | letBind _ _ value => [value]
  | array _ elements => elements
  | object _ fields => fields.map Prod.snd
  | lambda _ _ body => [body]
  | block _ body => body
  | binary _ left _ right => [left, right]
  | unary _ _ operand => [operand]
  | call _ callee missing => [callee]
  | call _ callee arg => [callee, arg]
  | index _ callee key => [callee, key]
  | member _ callee _ => [callee]
  | _ => []

/-- The node at the end of a path; each number of the path picks a part. -/
def nodeAt? (t : Tree) : List Nat → Option Tree
  | [] => some t
  | i :: path => t.parts[i]?.bind fun u => u.nodeAt? path

theorem parts_call {loc : Location} {callee arg : Tree} (h : arg ≠ missing) :
    (call loc callee arg).parts = [callee, arg] := by
  rw [parts]
  exact h

end Tree

theorem Derives.ne_missing {k : Nat} {ts : List Token} {t : Tree} (h : Derives k ts t) :
    t ≠ .missing := by
  induction h using Derives.induction with
  | group _ _ _ ih | lift _ _ ih => exact ih
  | _ => simp

theorem Derives.le_nine {k : Nat} {ts : List Token} {t : Tree} (h : Derives k ts t) : k ≤ 9 := by
  cases h with
  | binary ho =>
    have := (Operator.tier_bounds (Operator.mem_binaries.1 ho).1).2
    omega
  | _ => omega

/-! ## Items before and after an item -/

/-- Items with a separator behind each of them. -/
inductive Leading {α : Type} (sep : TokenKind) (R : List Token → α → Prop) :
    List Token → List α → Prop where
  | nil : Leading sep R [] []
  | cons {ts rest : List Token} {a : α} {as : List α} {s : Token} (item : R ts a)
      (hs : s.kind = sep) (others : Leading sep R rest as) :
      Leading sep R (ts ++ s :: rest) (a :: as)

/-- Items with a separator in front of each of them. -/
inductive Trailing {α : Type} (sep : TokenKind) (R : List Token → α → Prop) :
    List Token → List α → Prop where
  | nil : Trailing sep R [] []
  | cons {ts rest : List Token} {a : α} {as : List α} {s : Token} (hs : s.kind = sep)
      (item : R ts a) (others : Trailing sep R rest as) :
      Trailing sep R (s :: (ts ++ rest)) (a :: as)

section

variable {α : Type} {sep : TokenKind} {R : List Token → α → Prop}

theorem Trailing.separated {ts us : List Token} {a : α} {as : List α} (h : Trailing sep R us as)
    (item : R ts a) : Separated sep R (ts ++ us) (a :: as) := by
  induction h generalizing ts a with
  | nil =>
    rw [List.append_nil]
    exact .one item
  | cons hs item' _ ih => exact .more item hs (ih item')

theorem Leading.separated {ts us : List Token} {as bs : List α} (h : Leading sep R ts as)
    (others : Separated sep R us bs) (hne : bs ≠ []) : Separated sep R (ts ++ us) (as ++ bs) := by
  induction h with
  | nil => exact others
  | @cons ts rest a as s item hs _ ih =>
    rw [List.append_assoc, List.cons_append]
    -- Whatever follows the separator, there is an item in it.
    obtain ⟨b, cs, hcs⟩ : ∃ b cs, as ++ bs = b :: cs :=
      List.exists_cons_of_ne_nil (by simp [hne])
    rw [hcs] at ih
    rw [List.cons_append, hcs]
    exact .more item hs ih

theorem Leading.imp {S : List Token → α → Prop} {ts : List Token} {as : List α}
    (h : Leading sep R ts as) (hRS : ∀ us a, R us a → S us a) : Leading sep S ts as := by
  induction h with
  | nil => exact .nil
  | cons item hs _ ih => exact .cons (hRS _ _ item) hs ih

theorem Trailing.imp {S : List Token → α → Prop} {ts : List Token} {as : List α}
    (h : Trailing sep R ts as) (hRS : ∀ us a, R us a → S us a) : Trailing sep S ts as := by
  induction h with
  | nil => exact .nil
  | cons hs item _ ih => exact .cons hs (hRS _ _ item) ih

/-- An item and those around it. -/
theorem separated_around {ts us vs : List Token} {a : α} {as bs : List α}
    (front : Leading sep R ts as) (item : R us a) (rear : Trailing sep R vs bs) :
    Separated sep R (ts ++ (us ++ vs)) (as ++ a :: bs) :=
  front.separated (rear.separated item) (List.cons_ne_nil a bs)

theorem Separated.trailing {ts : List Token} {as : List α} {s : Token} (h : Separated sep R ts as)
    (hs : s.kind = sep) (hne : as ≠ []) : Trailing sep R (s :: ts) as := by
  induction h generalizing s with
  | nil => exact absurd rfl hne
  | @one ts a item =>
    have := Trailing.cons hs item .nil
    rwa [List.append_nil] at this
  | more item hs' _ ih => exact .cons hs item (ih hs' (List.cons_ne_nil _ _))

/-- Every item has others before and after it. -/
theorem Separated.around {ts : List Token} {as bs : List α} {a : α}
    (h : Separated sep R ts (as ++ a :: bs)) :
    ∃ before us after, ts = before ++ (us ++ after) ∧ Leading sep R before as ∧ R us a ∧
      Trailing sep R after bs := by
  induction as generalizing ts with
  | nil =>
    cases h with
    | one item => exact ⟨[], ts, [], by simp, .nil, item, .nil⟩
    | more item hs others =>
      exact ⟨[], _, _, rfl, .nil, item, others.trailing hs (List.cons_ne_nil _ _)⟩
  | cons c as ih =>
    obtain ⟨b, cs, hcs⟩ : ∃ b cs, as ++ a :: bs = b :: cs :=
      List.exists_cons_of_ne_nil (by simp)
    rw [List.cons_append, hcs] at h
    cases h with
    | more item hs others =>
      rw [← hcs] at others
      obtain ⟨before, us, after, rfl, front, hus, rear⟩ := ih others
      exact ⟨_, us, after, by simp, .cons item hs front, hus, rear⟩

end

/-! ## One step down -/

/-- What follows the first branch of a conditional: `end`, or a second branch and `end`. -/
inductive Alternative : Token → List Token → Tree → Prop where
  | none {e : Token} (he : e.kind = .endKw) : Alternative e [] .missing
  | some {el e : Token} {ds : List Token} {other : List Tree} (hel : el.kind = .elseKw)
      (elseBody : Separated .semicolon (Derives 0) ds other) (he : e.kind = .endKw) :
      Alternative el (ds ++ [e]) (.block (bodyLoc ds e) other)

/-- Both forms of a conditional. -/
theorem Alternative.derives {i th next : Token} {cs bs rest : List Token} {cond other : Tree}
    {body : List Tree} (h : Alternative next rest other) (hi : i.kind = .ifKw)
    (condition : Derives 0 cs cond) (hth : th.kind = .thenKw)
    (thenBody : Separated .semicolon (Derives 0) bs body) :
    Derives 0 (i :: (cs ++ th :: (bs ++ next :: rest)))
      (.ifElse i.loc cond (.block (bodyLoc bs next) body) other) := by
  cases h with
  | none he => exact .ifThen hi condition hth thenBody he
  | some hel elseBody he => exact .ifThenElse hi condition hth thenBody hel elseBody he

/-- The tree `t` of level `k` has `u` as its part of number `i`, where a tree of level `j` belongs.
The tokens of `t` are `before`, then the tokens `us` of `u`, then `after`. -/
inductive Part (us : List Token) (u : Tree) :
    (k j i : Nat) → (before after : List Token) → (t : Tree) → Prop where
  | calleeEmpty {o c : Token} (ho : o.kind = .lparen) (hc : c.kind = .rparen) :
      Part us u 8 8 0 [] [o, c] (.call o.loc u .missing)
  | callee {o c : Token} {vs : List Token} {arg : Tree} (ho : o.kind = .lparen)
      (inner : Derives 0 vs arg) (hc : c.kind = .rparen) :
      Part us u 8 8 0 [] (o :: (vs ++ [c])) (.call o.loc u arg)
  | argument {o c : Token} {ts : List Token} {callee : Tree} (left : Derives 8 ts callee)
      (ho : o.kind = .lparen) (hc : c.kind = .rparen) :
      Part us u 8 0 1 (ts ++ [o]) [c] (.call o.loc callee u)
  | indexed {o c : Token} {vs : List Token} {key : Tree} (ho : o.kind = .lbracket)
      (inner : Derives 0 vs key) (hc : c.kind = .rbracket) :
      Part us u 8 8 0 [] (o :: (vs ++ [c])) (.index o.loc u key)
  | key {o c : Token} {ts : List Token} {callee : Tree} (left : Derives 8 ts callee)
      (ho : o.kind = .lbracket) (hc : c.kind = .rbracket) :
      Part us u 8 0 1 (ts ++ [o]) [c] (.index o.loc callee u)
  | owner {dot field : Token} (hdot : dot.kind = .dot) (hfield : field.kind = .identifier) :
      Part us u 8 8 0 [] [dot, field] (.member field.loc u field.value)
  | operand {o : Token} {op : Operator} (ho : (o.kind, op) ∈ Operator.unaries) :
      Part us u 7 7 0 [o] [] (.unary o.loc (some op) u)
  | left {k : Nat} {o : Token} {op : Operator} {vs : List Token} {right : Tree}
      (ho : (k, o.kind, op) ∈ Operator.binaries) (rightOperand : Derives (k + 1) vs right) :
      Part us u k k 0 [] (o :: vs) (.binary o.loc u (some op) right)
  | right {k : Nat} {o : Token} {op : Operator} {ts : List Token} {left : Tree}
      (ho : (k, o.kind, op) ∈ Operator.binaries) (leftOperand : Derives k ts left) :
      Part us u k (k + 1) 1 (ts ++ [o]) [] (.binary o.loc left (some op) u)
  | condition {i th next : Token} {bs rest : List Token} {body : List Tree} {other : Tree}
      (hi : i.kind = .ifKw) (hth : th.kind = .thenKw)
      (thenBody : Separated .semicolon (Derives 0) bs body) (alt : Alternative next rest other) :
      Part us u 0 0 0 [i] (th :: (bs ++ next :: rest))
        (.ifElse i.loc u (.block (bodyLoc bs next) body) other)
  | thenItem {i th next : Token} {cs ts vs rest : List Token} {cond other : Tree}
      {as bs : List Tree} (hi : i.kind = .ifKw) (condition : Derives 0 cs cond)
      (hth : th.kind = .thenKw) (front : Leading .semicolon (Derives 0) ts as)
      (rear : Trailing .semicolon (Derives 0) vs bs) (alt : Alternative next rest other) :
      Part us u 0 0 (as.length + 1) (i :: (cs ++ th :: ts)) (vs ++ next :: rest)
        (.ifElse i.loc cond (.block (bodyLoc (ts ++ (us ++ vs)) next) (as ++ u :: bs)) other)
  | elseItem {i th el e : Token} {cs bs ts vs : List Token} {cond : Tree} {body as ds : List Tree}
      (hi : i.kind = .ifKw) (condition : Derives 0 cs cond) (hth : th.kind = .thenKw)
      (thenBody : Separated .semicolon (Derives 0) bs body) (hel : el.kind = .elseKw)
      (front : Leading .semicolon (Derives 0) ts as) (rear : Trailing .semicolon (Derives 0) vs ds)
      (he : e.kind = .endKw) :
      Part us u 0 0 (body.length + as.length + 1) (i :: (cs ++ th :: (bs ++ el :: ts))) (vs ++ [e])
        (.ifElse i.loc cond (.block (bodyLoc bs el) body)
          (.block (bodyLoc (ts ++ (us ++ vs)) e) (as ++ u :: ds)))
  | value {l name eq : Token} (hl : l.kind = .letKw) (hname : name.kind = .identifier)
      (heq : eq.kind = .equals) : Part us u 0 0 0 [l, name, eq] [] (.letBind l.loc name.value u)
  | element {o c : Token} {ts vs : List Token} {as bs : List Tree} (ho : o.kind = .lbracket)
      (front : Leading .comma (Derives 0) ts as) (rear : Trailing .comma (Derives 0) vs bs)
      (hc : c.kind = .rbracket) :
      Part us u 0 0 as.length (o :: ts) (vs ++ [c]) (.array o.loc (as ++ u :: bs))
  | field {h o name colon c : Token} {ts vs : List Token} {as bs : List (Scalar × Tree)}
      (hh : h.kind = .hash) (ho : o.kind = .lbrace)
      (front : Leading .comma (NamedBy (Derives 0)) ts as) (hname : name.kind = .identifier)
      (hcolon : colon.kind = .colon) (rear : Trailing .comma (NamedBy (Derives 0)) vs bs)
      (hc : c.kind = .rbrace) :
      Part us u 0 0 as.length (h :: o :: (ts ++ [name, colon])) (vs ++ [c])
        (.object h.loc (as ++ (name.value, u) :: bs))
  | bodyEmpty {f o c : Token} (hf : f.kind = .fnKw) (ho : o.kind = .lparen)
      (hc : c.kind = .rparen) : Part us u 0 0 0 [f, o, c] [] (.lambda f.loc .null u)
  | body {f o param c : Token} (hf : f.kind = .fnKw) (ho : o.kind = .lparen)
      (hparam : param.kind = .identifier) (hc : c.kind = .rparen) :
      Part us u 0 0 0 [f, o, param, c] [] (.lambda f.loc param.value u)
  | item {b e : Token} {ts vs : List Token} {as bs : List Tree} (hb : b.kind = .blockKw)
      (front : Leading .semicolon (Derives 0) ts as) (rear : Trailing .semicolon (Derives 0) vs bs)
      (he : e.kind = .endKw) :
      Part us u 0 0 as.length (b :: ts) (vs ++ [e]) (.block b.loc (as ++ u :: bs))

namespace Part

open NordLang.Tree

variable {us us' before after : List Token} {u u' t : Tree} {k j i : Nat}

/-- With a derivation of the part the whole is derived. -/
theorem derives (h : Part us u k j i before after t) (hu : Derives j us u) :
    Derives k (before ++ (us ++ after)) t := by
  cases h with
  | calleeEmpty ho hc => exact .callEmpty hu ho hc
  | callee ho inner hc => exact .call hu ho inner hc
  | argument left ho hc => simpa using Derives.call left ho hu hc
  | indexed ho inner hc => exact .index hu ho inner hc
  | key left ho hc => simpa using Derives.index left ho hu hc
  | owner hdot hfield => exact .member hu hdot hfield
  | operand ho => simpa using Derives.unary ho hu
  | left ho rightOperand => exact .binary ho hu rightOperand
  | right ho leftOperand => simpa using Derives.binary ho leftOperand hu
  | condition hi hth thenBody alt => exact alt.derives hi hu hth thenBody
  | thenItem hi condition hth front rear alt =>
    simpa using alt.derives hi condition hth (separated_around front hu rear)
  | elseItem hi condition hth thenBody hel front rear he =>
    simpa using
      Derives.ifThenElse hi condition hth thenBody hel (separated_around front hu rear) he
  | value hl hname heq => simpa using Derives.letBind hl hname heq hu
  | element ho front rear hc => simpa using Derives.array ho (separated_around front hu rear) hc
  | field hh ho front hname hcolon rear hc =>
    simpa using Derives.object hh ho (separated_around front (.mk hname hcolon hu) rear) hc
  | bodyEmpty hf ho hc => simpa using Derives.lambdaEmpty hf ho hc hu
  | body hf ho hparam hc => simpa using Derives.lambda hf ho hparam hc hu
  | item hb front rear he => simpa using Derives.block hb (separated_around front hu rear) he

/-- Another part, the same up to locations, may stand in the place of a part. -/
theorem change (h : Part us u k j i before after t) (us' : List Token) (hsame : u'.same u = true) :
    ∃ t', Part us' u' k j i before after t' ∧ t'.same t = true := by
  cases h with
  | calleeEmpty ho hc =>
    exact ⟨_, .calleeEmpty ho hc, by simp [same, hsame]⟩
  | callee ho inner hc => exact ⟨_, .callee ho inner hc, by simp [same, hsame]⟩
  | argument left ho hc => exact ⟨_, .argument left ho hc, by simp [same, hsame]⟩
  | indexed ho inner hc => exact ⟨_, .indexed ho inner hc, by simp [same, hsame]⟩
  | key left ho hc => exact ⟨_, .key left ho hc, by simp [same, hsame]⟩
  | owner hdot hfield =>
    exact ⟨_, .owner hdot hfield, by simp [same, hsame]⟩
  | operand ho => exact ⟨_, .operand ho, by simp [same, hsame]⟩
  | left ho rightOperand =>
    exact ⟨_, .left ho rightOperand, by simp [same, hsame]⟩
  | right ho leftOperand =>
    exact ⟨_, .right ho leftOperand, by simp [same, hsame]⟩
  | condition hi hth thenBody alt =>
    exact ⟨_, .condition hi hth thenBody alt, by simp [same, hsame]⟩
  | thenItem hi condition hth front rear alt =>
    refine ⟨_, .thenItem hi condition hth front rear alt, ?_⟩
    simp [same, sameAll_append_cons hsame]
  | elseItem hi condition hth thenBody hel front rear he =>
    refine ⟨_, .elseItem hi condition hth thenBody hel front rear he, ?_⟩
    simp [same, sameAll_append_cons hsame]
  | value hl hname heq =>
    exact ⟨_, .value hl hname heq, by simp [same, hsame]⟩
  | element ho front rear hc => exact ⟨_, .element ho front rear hc, sameAll_append_cons hsame⟩
  | field hh ho front hname hcolon rear hc =>
    exact ⟨_, .field hh ho front hname hcolon rear hc, sameFields_append_cons hsame⟩
  | bodyEmpty hf ho hc =>
    exact ⟨_, .bodyEmpty hf ho hc, by simp [same, hsame]⟩
  | body hf ho hparam hc =>
    exact ⟨_, .body hf ho hparam hc, by simp [same, hsame]⟩
  | item hb front rear he => exact ⟨_, .item hb front rear he, sameAll_append_cons hsame⟩

/-- The part has its number among the parts. -/
theorem parts (h : Part us u k j i before after t) (hu : u ≠ .missing) : t.parts[i]? = some u := by
  cases h with
  | calleeEmpty _ _ | owner _ _ | operand _ | left _ _ | right _ _ | value _ _ _
  | bodyEmpty _ _ _ | body _ _ _ _ | indexed _ _ _ | key _ _ _ => rfl
  | callee _ inner _ =>
    rw [parts_call inner.ne_missing]
    rfl
  | argument _ _ _ =>
    rw [parts_call hu]
    rfl
  | condition _ _ _ _ => rfl
  | thenItem _ _ _ _ _ _ => simp [Tree.parts, branchItems]
  | @elseItem _ _ _ _ _ _ _ _ _ body as =>
    simp only [Tree.parts, branchItems, List.getElem?_cons_succ]
    rw [List.getElem?_append_right (by omega), Nat.add_sub_cancel_left]
    simp
  | element _ _ _ _ => simp [Tree.parts]
  | field _ _ _ _ _ _ _ => simp [Tree.parts]
  | item _ _ _ _ => simp [Tree.parts]

end Part

/-! ## Paths into a derivation -/

/-- A derivation of `t` at level `k` in which the node at the end of `path` is derived from the tokens
`inside`.  The tokens of `t` are `before`, `inside` and `after`. -/
inductive Within : (k : Nat) → (t : Tree) → (path : List Nat) →
    (before inside after : List Token) → (node : Tree) → Prop where
  | here {k : Nat} {ts : List Token} {t : Tree} (h : Derives k ts t) : Within k t [] [] ts [] t
  | part {k j i : Nat} {t u node : Tree} {path : List Nat}
      {front before inside after rear : List Token}
      (step : Part (before ++ (inside ++ after)) u k j i front rear t)
      (inner : Within j u path before inside after node) :
      Within k t (i :: path) (front ++ before) inside (after ++ rear) node
  | group {t node : Tree} {path : List Nat} {before inside after : List Token} {o c : Token}
      (ho : o.kind = .lparen) (inner : Within 0 t path before inside after node)
      (hc : c.kind = .rparen) : Within 9 t path (o :: before) inside (after ++ [c]) node
  | lift {k : Nat} {t node : Tree} {path : List Nat} {before inside after : List Token}
      (hk : k < 9) (tighter : Within (k + 1) t path before inside after node) :
      Within k t path before inside after node

namespace Within

variable {k : Nat} {t node : Tree} {path : List Nat} {before inside after : List Token}

theorem derives (h : Within k t path before inside after node) :
    Derives k (before ++ (inside ++ after)) t := by
  induction h with
  | here h => simpa using h
  | part step _ ih => simpa using step.derives ih
  | group ho _ hc ih => simpa using Derives.group ho ih hc
  | lift hk _ ih => exact .lift hk ih

/-- The tokens of the range derive the node. -/
theorem derives_node (h : Within k t path before inside after node) : Derives 0 inside node := by
  induction h with
  | here h => exact h.mono (Nat.zero_le _) h.le_nine
  | part _ _ ih | group _ _ _ ih | lift _ _ ih => exact ih

/-- There is no range but that of the node which the path leads to. -/
theorem nodeAt? (h : Within k t path before inside after node) : t.nodeAt? path = some node := by
  induction h with
  | here _ => rfl
  | part step inner ih =>
    rw [Tree.nodeAt?, step.parts inner.derives.ne_missing]
    exact ih
  | group _ _ _ ih | lift _ _ ih => exact ih

/-- With parentheses around the range the same tree is derived up to locations. -/
theorem grouped {o c : Token} (ho : o.kind = .lparen) (hc : c.kind = .rparen)
    (h : Within k t path before inside after node) :
    ∃ u, Derives k (before ++ o :: (inside ++ c :: after)) u ∧ u.same t = true := by
  induction h with
  | @here k ts t h =>
    have hgroup : Derives 9 (o :: (ts ++ [c])) t := .group ho (h.mono (Nat.zero_le k) h.le_nine) hc
    exact ⟨t, hgroup.mono h.le_nine (Nat.le_refl 9), Tree.same_self t⟩
  | part step _ ih =>
    obtain ⟨v, hv, hsame⟩ := ih
    obtain ⟨u, hu, hsame'⟩ := step.change _ hsame
    exact ⟨u, by simpa using hu.derives hv, hsame'⟩
  | group ho' _ hc' ih =>
    obtain ⟨u, hu, hsame⟩ := ih
    exact ⟨u, by simpa using Derives.group ho' hu hc', hsame⟩
  | lift hk _ ih =>
    obtain ⟨u, hu, hsame⟩ := ih
    exact ⟨u, .lift hk hu, hsame⟩

end Within

/-! ## Every node has a range -/

/-- Every node of `t` is derived from some of the tokens `ts`. -/
def Reaches (k : Nat) (ts : List Token) (t : Tree) : Prop :=
  ∀ path node, t.nodeAt? path = some node → ∃ before inside after,
    ts = before ++ (inside ++ after) ∧ Within k t path before inside after node

/-- All nodes are reached if those of each part are. -/
theorem Derives.reaches_of_parts {k : Nat} {ts : List Token} {t : Tree} (h : Derives k ts t)
    (hparts : ∀ i u, t.parts[i]? = some u → ∃ j us front rear,
      ts = front ++ (us ++ rear) ∧ Part us u k j i front rear t ∧ Reaches j us u) :
    Reaches k ts t := by
  intro path node hnode
  cases path with
  | nil =>
    cases hnode
    exact ⟨[], ts, [], by simp, .here h⟩
  | cons i path =>
    obtain ⟨u, hu, hnode⟩ := Option.bind_eq_some_iff.1 hnode
    obtain ⟨j, us, front, rear, rfl, step, hreach⟩ := hparts i u hu
    obtain ⟨before, inside, after, rfl, inner⟩ := hreach path node hnode
    exact ⟨front ++ before, inside, after ++ rear, by simp, .part step inner⟩

/-- What is known of the items of a derivation: their nodes are reached. -/
abbrev ReachesFrom (ts : List Token) (t : Tree) : Prop :=
  ∃ _ : Derives 0 ts t, Reaches 0 ts t

theorem ReachesFrom.derives {ts : List Token} {t : Tree} (h : ReachesFrom ts t) :
    Derives 0 ts t := by
  obtain ⟨h, _⟩ := h
  exact h

/-- An item by its number. -/
theorem Separated.exists_around {α : Type} {sep : TokenKind} {R S : List Token → α → Prop}
    {ts : List Token} {all : List α} (h : Separated sep R ts all) (hRS : ∀ us a, R us a → S us a)
    {i : Nat} {a : α} (ha : all[i]? = some a) :
    ∃ as bs before us after, all = as ++ a :: bs ∧ as.length = i ∧
      ts = before ++ (us ++ after) ∧ Leading sep S before as ∧ R us a ∧ Trailing sep S after bs := by
  obtain ⟨hi, rfl⟩ := List.getElem?_eq_some_iff.1 ha
  have hsplit : all = all.take i ++ all[i] :: all.drop (i + 1) := by simp
  rw [hsplit] at h
  obtain ⟨before, us, after, hts, front, hus, rear⟩ := h.around
  refine ⟨_, _, before, us, after, hsplit, ?_, hts, front.imp hRS, hus, rear.imp hRS⟩
  rw [List.length_take]
  omega

theorem Derives.reaches {k : Nat} {ts : List Token} {t : Tree} (h : Derives k ts t) :
    Reaches k ts t := by
  induction h using Derives.induction with
  | num ht => exact (Derives.num ht).reaches_of_parts (by simp [Tree.parts])
  | boolean ht => exact (Derives.boolean ht).reaches_of_parts (by simp [Tree.parts])
  | string ht => exact (Derives.string ht).reaches_of_parts (by simp [Tree.parts])
  | identifier ht => exact (Derives.identifier ht).reaches_of_parts (by simp [Tree.parts])
  | group ho _ hc ih =>
    intro path node hnode
    obtain ⟨before, inside, after, rfl, inner⟩ := ih path node hnode
    exact ⟨_, inside, _, by simp, .group ho inner hc⟩
  | callEmpty left ho hc ih =>
    refine (Derives.callEmpty left ho hc).reaches_of_parts fun i u hu => ?_
    rcases i with _ | i
    · cases hu
      exact ⟨8, _, [], _, rfl, .calleeEmpty ho hc, ih⟩
    · cases hu
  | call left ho inner hc ihcallee iharg =>
    refine (Derives.call left ho inner hc).reaches_of_parts fun i u hu => ?_
    rw [Tree.parts_call inner.ne_missing] at hu
    rcases i with _ | _ | i
    · cases hu
      exact ⟨8, _, [], _, rfl, .callee ho inner hc, ihcallee⟩
    · cases hu
      exact ⟨0, _, _, _, by simp, .argument left ho hc, iharg⟩
    · cases hu
  | index left ho inner hc ihcallee ihkey =>
    refine (Derives.index left ho inner hc).reaches_of_parts fun i u hu => ?_
    rcases i with _ | _ | i
    · cases hu
      exact ⟨8, _, [], _, rfl, .indexed ho inner hc, ihcallee⟩
    · cases hu
      exact ⟨0, _, _, _, by simp, .key left ho hc, ihkey⟩
    · cases hu
  | member left hdot hfield ih =>
    refine (Derives.member left hdot hfield).reaches_of_parts fun i u hu => ?_
    rcases i with _ | i
    · cases hu
      exact ⟨8, _, [], _, rfl, .owner hdot hfield, ih⟩
    · cases hu
  | unary ho right ih =>
    refine (Derives.unary ho right).reaches_of_parts fun i u hu => ?_
    rcases i with _ | i
    · cases hu
      exact ⟨7, _, [_], [], by simp, .operand ho, ih⟩
    · cases hu
  | binary ho leftOperand rightOperand ihleft ihright =>
    refine (Derives.binary ho leftOperand rightOperand).reaches_of_parts fun i u hu => ?_
    rcases i with _ | _ | i
    · cases hu
      exact ⟨_, _, [], _, rfl, .left ho rightOperand, ihleft⟩
    · cases hu
      exact ⟨_, _, _, [], by simp, .right ho leftOperand, ihright⟩
    · cases hu
  | ifThen hi condition hth body he ih =>
    have hbody := body.imp fun _ _ => ReachesFrom.derives
    refine (Derives.ifThen hi condition hth hbody he).reaches_of_parts fun i u hu => ?_
    rcases i with _ | i
    · cases hu
      exact ⟨0, _, [_], _, rfl, .condition hi hth hbody (.none he), ih⟩
    · have hu : (_ ++ [])[i]? = some u := hu
      rw [List.append_nil] at hu
      obtain ⟨as, bs, before, us, after, rfl, rfl, rfl, front, ⟨_, hus⟩, rear⟩ :=
        body.exists_around (fun _ _ => ReachesFrom.derives) hu
      exact ⟨0, us, _, _, by simp, .thenItem hi condition hth front rear (.none he), hus⟩
  | @ifThenElse _ _ _ _ _ _ _ _ items _ hi condition hth body hel other he ih =>
    have hbody := body.imp fun _ _ => ReachesFrom.derives
    have hother := other.imp fun _ _ => ReachesFrom.derives
    refine (Derives.ifThenElse hi condition hth hbody hel hother he).reaches_of_parts
      fun i u hu => ?_
    rcases i with _ | i
    · cases hu
      exact ⟨0, _, [_], _, rfl, .condition hi hth hbody (.some hel hother he), ih⟩
    · have hu : (items ++ _)[i]? = some u := hu
      -- The part is in one of the two branches.
      by_cases hi' : i < items.length
      · rw [List.getElem?_append_left hi'] at hu
        obtain ⟨as, bs, before, us, after, rfl, rfl, rfl, front, ⟨_, hus⟩, rear⟩ :=
          body.exists_around (fun _ _ => ReachesFrom.derives) hu
        have step : Part us u 0 0 _ _ _ _ :=
          .thenItem hi condition hth front rear (.some hel hother he)
        exact ⟨0, us, _, _, by simp, step, hus⟩
      · rw [List.getElem?_append_right (by omega)] at hu
        obtain ⟨as, bs, before, us, after, rfl, has, rfl, front, ⟨_, hus⟩, rear⟩ :=
          other.exists_around (fun _ _ => ReachesFrom.derives) hu
        obtain rfl : i = items.length + as.length := by omega
        have step : Part us u 0 0 _ _ _ _ :=
          .elseItem hi condition hth hbody hel front rear he
        exact ⟨0, us, _, _, by simp, step, hus⟩
  | letBind hl hname heq right ih =>
    refine (Derives.letBind hl hname heq right).reaches_of_parts fun i u hu => ?_
    rcases i with _ | i
    · cases hu
      exact ⟨0, _, [_, _, _], [], by simp, .value hl hname heq, ih⟩
    · cases hu
  | array ho items hc =>
    have hitems := items.imp fun _ _ => ReachesFrom.derives
    refine (Derives.array ho hitems hc).reaches_of_parts fun i u hu => ?_
    obtain ⟨as, bs, before, us, after, rfl, rfl, rfl, front, ⟨_, hus⟩, rear⟩ :=
      items.exists_around (fun _ _ => ReachesFrom.derives) hu
    exact ⟨0, us, _, _, by simp, .element ho front rear hc, hus⟩
  | object hh ho items hc =>
    have hvalue : ∀ us f, NamedBy ReachesFrom us f → NamedBy (Derives 0) us f :=
      fun _ _ h => h.imp fun _ _ => ReachesFrom.derives
    refine (Derives.object hh ho (items.imp hvalue) hc).reaches_of_parts fun i u hu => ?_
    rw [Tree.parts, List.getElem?_map, Option.map_eq_some_iff] at hu
    obtain ⟨⟨name, _⟩, hfield, rfl⟩ := hu
    obtain ⟨as, bs, before, us, after, rfl, rfl, rfl, front, hus, rear⟩ :=
      items.exists_around hvalue hfield
    cases hus with
    | mk hname hcolon value =>
      obtain ⟨_, hreach⟩ := value
      exact ⟨0, _, _, _, by simp, .field hh ho front hname hcolon rear hc, hreach⟩
  | lambdaEmpty hf ho hc inner ih =>
    refine (Derives.lambdaEmpty hf ho hc inner).reaches_of_parts fun i u hu => ?_
    rcases i with _ | i
    · cases hu
      exact ⟨0, _, [_, _, _], [], by simp, .bodyEmpty hf ho hc, ih⟩
    · cases hu
  | lambda hf ho hparam hc inner ih =>
    refine (Derives.lambda hf ho hparam hc inner).reaches_of_parts fun i u hu => ?_
    rcases i with _ | i
    · cases hu
      exact ⟨0, _, [_, _, _, _], [], by simp, .body hf ho hparam hc, ih⟩
    · cases hu
  | block hb items he =>
    have hitems := items.imp fun _ _ => ReachesFrom.derives
    refine (Derives.block hb hitems he).reaches_of_parts fun i u hu => ?_
    obtain ⟨as, bs, before, us, after, rfl, rfl, rfl, front, ⟨_, hus⟩, rear⟩ :=
      items.exists_around (fun _ _ => ReachesFrom.derives) hu
    exact ⟨0, us, _, _, by simp, .item hb front rear he, hus⟩
  | lift hk _ ih =>
    intro path node hnode
    obtain ⟨before, inside, after, rfl, tighter⟩ := ih path node hnode
    exact ⟨_, inside, _, rfl, .lift hk tighter⟩

/-! ## Parentheses around a range -/

theorem insertIdx_append_length {α : Type} (xs ys : List α) (a : α) :
    (xs ++ ys).insertIdx xs.length a = xs ++ a :: ys := by
  induction xs with
  | nil => simp
  | cons x xs ih => simp [ih]

theorem insertIdx_around {α : Type} (xs ys zs : List α) (a b : α) :
    ((xs ++ (ys ++ zs)).insertIdx (xs.length + ys.length) b).insertIdx xs.length a =
      xs ++ a :: (ys ++ b :: zs) := by
  have hinner := insertIdx_append_length (xs ++ ys) zs b
  rw [List.length_append, List.append_assoc, List.append_assoc] at hinner
  rw [hinner, insertIdx_append_length]

theorem exists_tail (items : List (Option Token)) :
    ∃ tail, items = (realTokens items).map some ++ tail ∧ realTokens tail = [] := by
  fun_induction realTokens items with
  | case1 t items h => exact ⟨some t :: items, by simp, by simp [realTokens, h]⟩
  | case2 t items h ih =>
    obtain ⟨tail, hitems, htail⟩ := ih
    exact ⟨tail, by simpa using hitems, htail⟩
  | case3 items => exact ⟨none :: items, rfl, rfl⟩
  | case4 => exact ⟨[], rfl, rfl⟩

/-- Every node of a parsed tree comes from a range of the tokens.  By itself the range is parsed to
the node, and with parentheses around it the list is parsed to the same tree up to locations. -/
theorem parse_grouped {items : List (Option Token)} {t node : Tree} {path : List Nat}
    (h : (Supply.ofItems items).parse = .ok t) (hnode : t.nodeAt? path = some node) :
    (∃ before inside after, realTokens items = before ++ (inside ++ after) ∧
      Within 0 t path before inside after node) ∧
    ∀ before inside after, realTokens items = before ++ (inside ++ after) →
      Within 0 t path before inside after node →
      (Supply.ofTokens inside).parse = .ok node ∧
      ∀ o c : Token, o.kind = .lparen → c.kind = .rparen →
        ∃ u, (Supply.ofItems ((items.insertIdx (before.length + inside.length) (some c)).insertIdx
          before.length (some o))).parse = .ok u ∧ u.same t = true := by
  refine ⟨(Supply.parse_ofItems.1 h).reaches path node hnode, ?_⟩
  intro before inside after hreal hwithin
  have hinside := hwithin.derives_node
  refine ⟨(Supply.parse_ofTokens hinside.isEnd_eq_false node).2 hinside, ?_⟩
  intro o c ho hc
  obtain ⟨u, hu, hsame⟩ := hwithin.grouped ho hc
  refine ⟨u, ?_, hsame⟩
  -- What stands behind the real tokens does not matter.
  obtain ⟨tail, hitems, htail⟩ := exists_tail items
  rw [hreal] at hitems
  simp only [List.map_append, List.append_assoc] at hitems
  have hinsert := insertIdx_around (before.map some) (inside.map some) (after.map some ++ tail)
    (some o) (some c)
  rw [← hitems, List.length_map, List.length_map] at hinsert
  have hgrouped := realTokens_map_some_append hu.isEnd_eq_false tail
  simp only [List.map_append, List.map_cons, List.append_assoc, List.cons_append, htail,
    List.append_nil] at hgrouped
  rw [hinsert, Supply.parse_ofItems, hgrouped]
  exact hu

/-- The first expression of a branch decides the place of the branch, in parentheses or not. -/
theorem parse_grouped_branch :
    let i : Token := ⟨.ifKw, .text "if", ⟨1, 1⟩, 0, 2⟩
    let a : Token := ⟨.identifier, .text "a", ⟨1, 4⟩, 3, 4⟩
    let th : Token := ⟨.thenKw, .text "then", ⟨1, 6⟩, 5, 9⟩
    let b : Token := ⟨.identifier, .text "b", ⟨1, 12⟩, 11, 12⟩
    let e : Token := ⟨.endKw, .text "end", ⟨1, 15⟩, 14, 17⟩
    let o : Token := ⟨.lparen, .text "(", ⟨1, 11⟩, 10, 11⟩
    let c : Token := ⟨.rparen, .text ")", ⟨1, 13⟩, 12, 13⟩
    let node (w : String) (column : Int) : Tree := .constant ⟨1, column⟩ (.identifier (.text w))
    let t (column : Int) : Tree :=
      .ifElse ⟨1, 1⟩ (node "a" 4) (.block ⟨1, column⟩ [node "b" 12]) .missing
    (Supply.ofItems [some i, some a, some th, some b, some e, none, some i]).parse = .ok (t 12) ∧
    (t 12).nodeAt? [1] = some (node "b" 12) ∧
    ∃ u, (Supply.ofItems [some i, some a, some th, some o, some b, some c, some e, none,
      some i]).parse = .ok u ∧ u.same (t 12) = true := by
  intro i a th b e o c node t
  have hnode : (t 12).nodeAt? [1] = some (node "b" 12) := rfl
  have ha : Derives 0 [a] (node "a" 4) := Derives.mono (.identifier rfl) (by decide) (by decide)
  have hb : Derives 0 [b] (node "b" 12) := Derives.mono (.identifier rfl) (by decide) (by decide)
  have h : (Supply.ofItems [some i, some a, some th, some b, some e, none, some i]).parse =
      .ok (t 12) := Supply.parse_ofItems.2 (.ifThen rfl ha rfl (.one hb) rfl)
  have step : Part [b] (node "b" 12) 0 0 1 [i, a, th] [e] (t 12) :=
    @Part.thenItem _ _ i th e [a] [] [] [] _ _ [] [] rfl ha rfl .nil .nil (.none rfl)
  have hwithin : Within 0 (t 12) [1] [i, a, th] [b] [e] (node "b" 12) := .part step (.here hb)
  exact ⟨h, hnode, ((parse_grouped h hnode).2 _ _ _ rfl hwithin).2 o c rfl rfl⟩

end NordLang

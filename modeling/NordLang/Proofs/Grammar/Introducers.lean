import Mathlib.Data.List.Forall2
import NordLang.Proofs.Grammar.Text

/-!
# Introducing tokens

Every node of a parsed tree has the place of the token that introduces it, and these tokens follow
each other in the text as the nodes do.

* `Tree.nodes` lists the nodes in the order of the text.  A left operand and a callee come before
  their node, all other parts come after it.  The branches of a conditional are not listed: no token
  introduces them.
* `Token.Introduces` says that a token is of the kind that belongs to a node, and that the node has
  its place.  `Tree.BranchesIn` says which tokens the branches of a conditional have their places
  from.
* `Introduced` joins both for a list of nodes, and `Derives.introduced` is the induction over
  derivations.
* `Location.Before` is the order of places.  The tokens of a text are in it
  (`Tiled.pairwise_before`), so the nodes that they introduce are as well.
-/

namespace NordLang

/-! ## Nodes in the order of the text -/

namespace Tree

mutual

/-- The nodes of a tree, but for the branches of conditionals. -/
def nodes : Tree → List Tree
  | missing => []
  | t@(constant _ _) => [t]
  | t@(ifElse _ cond thenBranch elseBranch) =>
    t :: (cond.nodes ++ (thenBranch.branchNodes ++ elseBranch.branchNodes))
  | t@(letBind _ _ value) => t :: value.nodes
  | t@(array _ elements) => t :: nodesAll elements
  | t@(object _ fields) => t :: nodesFields fields
  | t@(lambda _ _ body) => t :: body.nodes
  | t@(block _ body) => t :: nodesAll body
  | t@(binary _ left _ right) => left.nodes ++ t :: right.nodes
  | t@(unary _ _ operand) => t :: operand.nodes
  | t@(call _ callee arg) => callee.nodes ++ t :: arg.nodes
  | t@(index _ callee key) => callee.nodes ++ t :: key.nodes
  | t@(member _ callee _) => callee.nodes ++ [t]
  | t => [t]

/-- The nodes inside a branch. -/
def branchNodes : Tree → List Tree
  | missing => []
  | block _ body => nodesAll body
  | t => [t]

def nodesAll : List Tree → List Tree
  | [] => []
  | t :: ts => t.nodes ++ nodesAll ts

def nodesFields : List (Scalar × Tree) → List Tree
  | [] => []
  | (_, t) :: fields => t.nodes ++ nodesFields fields

end

/-- The kind of the token that introduces a node, and its payload where the node has it. -/
def introducer? : Tree → Option (TokenKind × Option Scalar)
  | constant _ (num value) => some (.integer, some value)
  | constant _ (boolean value) => some (.boolean, some value)
  | constant _ (string value) => some (.string, some value)
  | constant _ (identifier name) => some (.identifier, some name)
  | ifElse _ _ _ _ => some (.ifKw, none)
  | letBind _ _ _ => some (.letKw, none)
  | array _ _ => some (.lbracket, none)
  | object _ _ => some (.hash, none)
  | lambda _ _ _ => some (.fnKw, none)
  | block _ _ => some (.blockKw, none)
  | binary _ _ op _ => op.map fun op => (op.sign, none)
  | unary _ op _ => op.map fun op => (op.sign, none)
  | call _ _ _ => some (.lparen, none)
  | index _ _ _ => some (.lbracket, none)
  | member _ _ field => some (.identifier, some field)
  | _ => none

end Tree

/-- The node has the place of the token, which is of the right kind and has the right payload. -/
structure Token.Introduces (u : Token) (node : Tree) : Prop where
  loc : node.loc? = some u.loc
  kind : ∃ payload, node.introducer? = some (u.kind, payload) ∧ ∀ value ∈ payload, u.value = value

namespace Token

variable {u : Token} {node : Tree} {kind : TokenKind}

theorem introduces_of_kind (hu : u.kind = kind) (hloc : node.loc? = some u.loc)
    (hnode : node.introducer? = some (kind, none)) : u.Introduces node :=
  ⟨hloc, none, by rw [hu, hnode], by simp⟩

theorem introduces_of_payload (hu : u.kind = kind) (hloc : node.loc? = some u.loc)
    (hnode : node.introducer? = some (kind, some u.value)) : u.Introduces node :=
  ⟨hloc, some u.value, by rw [hu, hnode], by simp⟩

end Token

/-- If the node is a conditional, its branches have the places of the tokens right behind its own
`then` and `else`: the `then` follows the tokens of the condition, and the `else` those of the first
branch. -/
def Tree.BranchesIn (ts : List Token) : Tree → Prop
  | .ifElse loc cond thenBranch elseBranch =>
    ∃ i cs th next rest body, (i :: (cs ++ th :: next :: rest)) <:+: ts ∧
      i.kind = .ifKw ∧ i.loc = loc ∧ Derives 0 cs cond ∧ th.kind = .thenKw ∧
      thenBranch = .block next.loc body ∧
      (elseBranch = .missing ∨ ∃ bs el next' rest' other,
        next :: rest = bs ++ el :: next' :: rest' ∧ Separated .semicolon (Derives 0) bs body ∧
        el.kind = .elseKw ∧ elseBranch = .block next'.loc other)
  | _ => True

theorem Tree.BranchesIn.mono {ts us : List Token} {node : Tree} (h : node.BranchesIn ts)
    (hts : ts <:+: us) : node.BranchesIn us := by
  cases node with
  | ifElse loc cond thenBranch elseBranch =>
    obtain ⟨i, cs, th, next, rest, body, hinfix, hrest⟩ := h
    exact ⟨i, cs, th, next, rest, body, hinfix.trans hts, hrest⟩
  | _ => trivial

/-! ## Nodes among tokens -/

theorem sublistForall₂_append {α β : Type} {R : α → β → Prop} {as as' : List α} {bs bs' : List β}
    (h : List.SublistForall₂ R as bs) (h' : List.SublistForall₂ R as' bs') :
    List.SublistForall₂ R (as ++ as') (bs ++ bs') := by
  induction h with
  | @nil bs =>
    induction bs with
    | nil => exact h'
    | cons b bs ih => exact .cons_right ih
  | cons hab _ ih => exact .cons hab ih
  | cons_right _ ih => exact .cons_right ih

/-- The nodes are introduced by some of the tokens, one after another, and the branches of the
conditionals among them have their places from the tokens. -/
structure Introduced (ts : List Token) (nodes : List Tree) : Prop where
  tokens : List.SublistForall₂ (fun node u => u.Introduces node) nodes ts
  branches : ∀ node ∈ nodes, node.BranchesIn ts

namespace Introduced

variable {u : Token} {ts us : List Token} {node : Tree} {nodes others : List Tree}

theorem nil (ts : List Token) : Introduced ts [] :=
  ⟨.nil, List.forall_mem_nil _⟩

theorem skip (h : Introduced ts nodes) (u : Token) : Introduced (u :: ts) nodes where
  tokens := .cons_right h.tokens
  branches n hn := (h.branches n hn).mono (List.suffix_cons u ts).isInfix

theorem cons (hu : u.Introduces node) (hbranches : node.BranchesIn (u :: ts))
    (h : Introduced ts nodes) : Introduced (u :: ts) (node :: nodes) where
  tokens := .cons hu h.tokens
  branches := List.forall_mem_cons.2 ⟨hbranches, (h.skip u).branches⟩

theorem append (h : Introduced ts nodes) (h' : Introduced us others) :
    Introduced (ts ++ us) (nodes ++ others) where
  tokens := sublistForall₂_append h.tokens h'.tokens
  branches := by
    rw [List.forall_mem_append]
    exact ⟨fun n hn => (h.branches n hn).mono (List.prefix_append ts us).isInfix,
      fun n hn => (h'.branches n hn).mono (List.suffix_append ts us).isInfix⟩

theorem before (h : Introduced ts nodes) (us : List Token) : Introduced (ts ++ us) nodes := by
  have := h.append (nil us)
  rwa [List.append_nil] at this

end Introduced

/-- What is known of the items of a derivation: their nodes are introduced by their tokens. -/
abbrev IntroducedFrom (ts : List Token) (t : Tree) : Prop :=
  ∃ _ : Derives 0 ts t, Introduced ts t.nodes

theorem introduced_items {sep : TokenKind} {ts : List Token} {items : List Tree}
    (h : Separated sep IntroducedFrom ts items) : Introduced ts (Tree.nodesAll items) := by
  induction h with
  | nil => exact .nil []
  | one item =>
    obtain ⟨_, hitem⟩ := item
    simpa only [Tree.nodesAll, List.append_nil] using hitem
  | @more _ _ a b as s item _ _ ih =>
    obtain ⟨_, hitem⟩ := item
    rw [Tree.nodesAll]
    exact hitem.append (ih.skip s)

theorem introduced_fields {ts : List Token} {fields : List (Scalar × Tree)}
    (h : Separated .comma (NamedBy IntroducedFrom) ts fields) :
    Introduced ts (Tree.nodesFields fields) := by
  induction h with
  | nil => exact .nil []
  | one field =>
    obtain ⟨_, _, _, hvalue⟩ := field
    simpa only [Tree.nodesFields, List.append_nil] using (hvalue.skip _).skip _
  | @more _ _ a b as s field _ _ ih =>
    obtain ⟨_, _, _, hvalue⟩ := field
    rw [Tree.nodesFields]
    exact ((hvalue.skip _).skip _).append (ih.skip s)

/-- The token that a body with the token behind it starts with gives the body its place. -/
theorem exists_bodyLoc (bs : List Token) (e : Token) (rest : List Token) :
    ∃ next rest', bs ++ e :: rest = next :: rest' ∧ bodyLoc bs e = next.loc := by
  cases bs with
  | nil => exact ⟨e, rest, rfl, rfl⟩
  | cons b bs => exact ⟨b, bs ++ e :: rest, rfl, rfl⟩

open NordLang.Tree NordLang.Token in
/-- The tokens of a derivation introduce the nodes of its tree, in the order of the text. -/
theorem Derives.introduced {k : Nat} {ts : List Token} {t : Tree} (h : Derives k ts t) :
    Introduced ts t.nodes := by
  induction h using Derives.induction with
  | num ht | boolean ht | string ht | identifier ht =>
    rw [nodes]
    exact .cons (introduces_of_payload ht rfl rfl) trivial (.nil [])
  | group ho _ hc ih => exact (ih.before _).skip _
  | callEmpty _ ho _ ih =>
    rw [nodes, nodes]
    exact ih.append (.cons (introduces_of_kind ho rfl rfl) trivial (.nil _))
  | call _ ho _ _ ihcallee ih | index _ ho _ _ ihcallee ih =>
    rw [nodes]
    exact ihcallee.append (.cons (introduces_of_kind ho rfl rfl) trivial (ih.before _))
  | member _ _ hfield ih =>
    rw [nodes]
    refine ih.append (.skip ?_ _)
    exact .cons (introduces_of_payload hfield rfl rfl) trivial (.nil [])
  | unary ho _ ih =>
    rw [nodes]
    exact .cons (introduces_of_kind (Operator.sign_of_mem_unaries ho).symm rfl rfl) trivial ih
  | binary ho _ _ ihleft ihright =>
    rw [nodes]
    have hsign := (Operator.mem_binaries.1 ho).2.symm
    exact ihleft.append (.cons (introduces_of_kind hsign rfl rfl) trivial ihright)
  | @ifThen i th e cs bs cond body hi condition hth thenBody he ih =>
    obtain ⟨next, rest, hrest, hloc⟩ := exists_bodyLoc bs e []
    rw [nodes, branchNodes, branchNodes, List.append_nil]
    refine .cons (introduces_of_kind hi rfl rfl) ?_
      (ih.append (((introduced_items thenBody).before _).skip th))
    rw [hrest, hloc]
    exact ⟨i, cs, th, next, rest, body, List.infix_refl _, hi, rfl, condition, hth, rfl, .inl rfl⟩
  | @ifThenElse i th el e cs bs ds cond body other hi condition hth thenBody hel elseBody he ih =>
    obtain ⟨next', rest', hrest', hloc'⟩ := exists_bodyLoc ds e []
    obtain ⟨next, rest, hrest, hloc⟩ := exists_bodyLoc bs el (ds ++ [e])
    rw [nodes, branchNodes, branchNodes]
    refine .cons (introduces_of_kind hi rfl rfl) ?_
      (ih.append (.skip ((introduced_items thenBody).append
        (((introduced_items elseBody).before _).skip el)) th))
    rw [hrest, hloc, hloc']
    refine ⟨i, cs, th, next, rest, body, List.infix_refl _, hi, rfl, condition, hth, rfl, .inr ?_⟩
    refine ⟨bs, el, next', rest', other, ?_, thenBody.imp fun _ _ ⟨h, _⟩ => h, hel, rfl⟩
    rw [← hrest, hrest']
  | letBind hl _ _ _ ih | lambdaEmpty hl _ _ _ ih =>
    rw [nodes]
    exact .cons (introduces_of_kind hl rfl rfl) trivial ((ih.skip _).skip _)
  | lambda hf _ _ _ _ ih =>
    rw [nodes]
    exact .cons (introduces_of_kind hf rfl rfl) trivial (((ih.skip _).skip _).skip _)
  | array ho items _ | block ho items _ =>
    rw [nodes]
    exact .cons (introduces_of_kind ho rfl rfl) trivial ((introduced_items items).before _)
  | object hh _ items _ =>
    rw [nodes]
    exact .cons (introduces_of_kind hh rfl rfl) trivial
      (((introduced_fields items).before _).skip _)
  | lift _ _ ih => exact ih

/-! ## The order of places -/

/-- One place is on an earlier line than another, or on the same line and further left. -/
def Location.Before (a b : Location) : Prop :=
  a.line < b.line ∨ a.line = b.line ∧ a.column < b.column

theorem Location.Before.trans {a b c : Location} (hab : a.Before b) (hbc : b.Before c) :
    a.Before c := by
  unfold Before at *
  omega

theorem Location.Before.ne {a b : Location} (h : a.Before b) : a ≠ b := by
  rintro rfl
  unfold Before at h
  omega

theorem Location.before_after_concat (before : List Char) (c : Char) :
    (after before).Before (after (before ++ [c])) := by
  by_cases hc : c = '\n'
  · subst hc
    left
    simp only [after, List.count_append, List.count_singleton_self]
    omega
  · have hcolumn : ((before ++ [c]).reverse.takeWhile (· != '\n')).length =
        (before.reverse.takeWhile (· != '\n')).length + 1 := by simp [hc]
    refine .inr ⟨by simp [after, hc, List.count_append], ?_⟩
    simp only [after, hcolumn]
    omega

/-- The place behind a text is before the place behind a longer one that starts with it. -/
theorem Location.before_after_append (before : List Char) {l : List Char} (hl : l ≠ []) :
    (after before).Before (after (before ++ l)) := by
  induction l generalizing before with
  | nil => exact absurd rfl hl
  | cons c l ih =>
    have hstep := before_after_concat before c
    rw [List.append_cons]
    cases l with
    | nil => rwa [List.append_nil]
    | cons d l => exact hstep.trans (ih _ (List.cons_ne_nil d l))

theorem Tiled.exists_after {before text : List Char} {ts : List Token} (h : Tiled before text ts) :
    ∀ u ∈ ts, ∃ l, u.loc = .after (before ++ l) := by
  induction h with
  | blanks => simp
  | @token before w lexeme rest kind value ts _ _ _ ih =>
    rw [List.forall_mem_cons]
    refine ⟨⟨w, rfl⟩, fun u hu => ?_⟩
    obtain ⟨l, hl⟩ := ih u hu
    exact ⟨w ++ lexeme ++ l, by rw [hl]; simp only [List.append_assoc]⟩

/-- The tokens of a text follow each other. -/
theorem Tiled.pairwise_before {before text : List Char} {ts : List Token}
    (h : Tiled before text ts) : ts.Pairwise fun a b => a.loc.Before b.loc := by
  induction h with
  | blanks => exact .nil
  | @token before w lexeme rest kind value ts _ hlexeme later ih =>
    refine .cons (fun u hu => ?_) ih
    obtain ⟨l, hl⟩ := later.exists_after u hu
    obtain ⟨c, cs, rfl, _⟩ := hlexeme.head
    rw [hl, List.append_assoc]
    exact Location.before_after_append _ (by simp)

/-- Nodes that tokens introduce have places in the order of the tokens. -/
theorem Introduced.pairwise {ts : List Token} {nodes : List Tree} (h : Introduced ts nodes)
    (hts : ts.Pairwise fun a b => a.loc.Before b.loc) :
    nodes.Pairwise fun m n => ∃ a b, m.loc? = some a ∧ n.loc? = some b ∧ a.Before b := by
  obtain ⟨us, hus, hsublist⟩ := List.sublistForall₂_iff.1 h.tokens
  have hplaces : nodes.map Tree.loc? = us.map fun u => some u.loc := by
    clear h hsublist
    induction hus with
    | nil => rfl
    | cons hu _ ih => rw [List.map_cons, List.map_cons, hu.loc, ih]
  have hpairs : (us.map fun u => some u.loc).Pairwise fun x y =>
      ∃ a b, x = some a ∧ y = some b ∧ a.Before b := by
    rw [List.pairwise_map]
    exact (hts.sublist hsublist).imp fun hab => ⟨_, _, rfl, rfl, hab⟩
  rwa [← hplaces, List.pairwise_map] at hpairs

/-- The nodes of a parsed tree have the places of the tokens that introduce them, one after another,
and the branches of conditionals those of the tokens behind `then` and `else`.  So the places grow
strictly from node to node, and no two nodes share one. -/
theorem parseText_places {text : List Char} {t : Tree} (h : parseText text = .ok t) :
    ∃ ts, tokenize text = .ok (ts ++ [.endOf text]) ∧
      List.SublistForall₂ (fun node u => u.Introduces node) t.nodes ts ∧
      (∀ node ∈ t.nodes, node.BranchesIn ts) ∧
      t.nodes.Pairwise (fun m n => ∃ a b, m.loc? = some a ∧ n.loc? = some b ∧ a.Before b) ∧
      (t.nodes.map Tree.loc?).Nodup := by
  obtain ⟨ts, htiled, hts⟩ := parseText_eq_ok.1 h
  have hnodes := hts.introduced
  have hpairs := hnodes.pairwise htiled.pairwise_before
  refine ⟨ts, tokenize_eq_ok.2 ⟨ts, htiled, rfl⟩, hnodes.tokens, hnodes.branches, hpairs, ?_⟩
  refine List.pairwise_map.2 (hpairs.imp ?_)
  rintro m n ⟨a, b, hm, hn, hab⟩ heq
  rw [hm, hn] at heq
  exact hab.ne (Option.some.inj heq)

/-- A conditional with nothing behind `then`, and with a negation on a new line behind `else`. -/
theorem parseText_places_branches :
    let a : Tree := .constant ⟨1, 4⟩ (.identifier (.text "a"))
    let b : Tree := .constant ⟨2, 2⟩ (.identifier (.text "b"))
    let minus : Tree := .unary ⟨2, 1⟩ (some .negate) b
    let t : Tree := .ifElse ⟨1, 1⟩ a (.block ⟨1, 11⟩ []) (.block ⟨2, 1⟩ [minus])
    parseText "if a then else\n-b end".toList = .ok t ∧ t.nodes = [t, a, minus, b] ∧
      [t, a, minus, b].Pairwise fun m n =>
        ∃ a b, m.loc? = some a ∧ n.loc? = some b ∧ a.Before b := by
  intro a b minus t
  have hparse : parseText "if a then else\n-b end".toList = .ok t := by with_unfolding_all rfl
  have hnodes : t.nodes = [t, a, minus, b] := by
    simp [t, minus, b, a, Tree.nodes, Tree.branchNodes, Tree.nodesAll]
  obtain ⟨_, _, _, _, hpairs, _⟩ := parseText_places hparse
  rw [hnodes] at hpairs
  exact ⟨hparse, hnodes, hpairs⟩

end NordLang

import NordLang.Proofs.Grammar.Derivation
import NordLang.Proofs.Tree.Same

/-!
# The contents of tokens

The grammar looks at the kind and the payload of a token and not at its place.  So tokens with the
same contents derive trees that are the same up to locations (`Derives.transfers`).

`contents` are the kinds and payloads of a list of tokens.  `contents_cons`, `contents_append` and
`contents_nil` split a list along the contents of another.
-/

namespace NordLang

/-- The kind and the payload of a token. -/
def Token.content (t : Token) : TokenKind × Scalar := (t.kind, t.value)

theorem Token.kind_of_content {t u : Token} {kind : TokenKind} (h : u.content = t.content)
    (ht : t.kind = kind) : u.kind = kind :=
  (Prod.mk.inj h).1.trans ht

theorem Token.value_of_content {t u : Token} (h : u.content = t.content) : u.value = t.value :=
  (Prod.mk.inj h).2

def contents (ts : List Token) : List (TokenKind × Scalar) := ts.map Token.content

@[simp] theorem contents_nil {us : List Token} : contents us = contents [] ↔ us = [] := by
  simp [contents]

@[simp] theorem contents_cons {us ts : List Token} {t : Token} :
    contents us = contents (t :: ts) ↔
      ∃ u vs, us = u :: vs ∧ u.content = t.content ∧ contents vs = contents ts := by
  simp [contents, List.map_eq_cons_iff]

@[simp] theorem contents_append {us ts ts' : List Token} :
    contents us = contents (ts ++ ts') ↔
      ∃ vs ws, us = vs ++ ws ∧ contents vs = contents ts ∧ contents ws = contents ts' := by
  simp [contents, List.map_eq_append_iff]

theorem Token.same_of_content {t u : Token} (h : u.content = t.content) :
    u.value.same t.value = true := by
  rw [value_of_content h]
  exact Scalar.same_self _

/-! ## Reading from other tokens with the same contents -/

/-- Whatever `R` reads from some tokens it reads, up to `S`, from others with the same contents. -/
def Transfers {α : Type} (R : List Token → α → Prop) (S : α → α → Prop) (ts : List Token) (a : α) :
    Prop :=
  ∀ us, contents us = contents ts → ∃ b, R us b ∧ S b a

theorem Separated.transfers {α : Type} {sep : TokenKind} {R : List Token → α → Prop}
    {S : α → α → Prop} {ts : List Token} {as : List α} (h : Separated sep (Transfers R S) ts as) :
    Transfers (Separated sep R) (List.Forall₂ S) ts as := by
  induction h with
  | nil =>
    intro us hus
    rw [contents_nil.1 hus]
    exact ⟨[], .nil, .nil⟩
  | one item =>
    intro us hus
    obtain ⟨b, hb, hS⟩ := item us hus
    exact ⟨[b], .one hb, .cons hS .nil⟩
  | more item hs _ ih =>
    intro us hus
    simp only [contents_append, contents_cons] at hus
    obtain ⟨us, _, rfl, hus, s, vs, rfl, hs', hvs⟩ := hus
    obtain ⟨b, hb, hS⟩ := item us hus
    obtain ⟨bs, hbs, hSs⟩ := ih vs hvs
    cases hSs with
    | cons hS' hSs =>
      exact ⟨_, .more hb (Token.kind_of_content hs' hs) hbs, .cons hS (.cons hS' hSs)⟩

theorem NamedBy.transfers {R : List Token → Tree → Prop} {ts : List Token} {field : Scalar × Tree}
    (h : NamedBy (Transfers R fun u t => u.same t = true) ts field) :
    Transfers (NamedBy R) (fun a b => a.1.same b.1 = true ∧ a.2.same b.2 = true) ts field := by
  cases h with
  | mk hname hcolon value =>
    intro us hus
    simp only [contents_cons] at hus
    obtain ⟨name, _, rfl, hname', colon, us, rfl, hcolon', hus⟩ := hus
    obtain ⟨u, hu, hsame⟩ := value us hus
    refine ⟨(name.value, u), .mk (Token.kind_of_content hname' hname) ?_ hu, ?_, hsame⟩
    · exact Token.kind_of_content hcolon' hcolon
    · exact Token.same_of_content hname'

/-- A leaf is read again from any token with the same content. -/
theorem transfers_atom {kind : TokenKind} {node : Token → Tree} {t : Token} (ht : t.kind = kind)
    (hnode : ∀ {u : Token}, u.kind = kind → Derives 9 [u] (node u))
    (hsame : ∀ {u : Token}, u.value.same t.value = true → (node u).same (node t) = true) :
    Transfers (Derives 9) (fun u t => u.same t = true) [t] (node t) := by
  intro us hus
  simp only [contents_cons, contents_nil] at hus
  obtain ⟨u, _, rfl, hu, rfl⟩ := hus
  exact ⟨_, hnode (Token.kind_of_content hu ht), hsame (Token.same_of_content hu)⟩

open Token in
/-- Tokens with the same contents derive the same tree up to locations. -/
theorem Derives.transfers {k : Nat} {ts : List Token} {t : Tree} (h : Derives k ts t) :
    Transfers (Derives k) (fun u t => u.same t = true) ts t := by
  -- In each case the other tokens are split along those of the rule.
  induction h using Derives.induction with
  | num ht => exact transfers_atom ht .num id
  | boolean ht => exact transfers_atom ht .boolean id
  | string ht => exact transfers_atom ht .string id
  | identifier ht => exact transfers_atom ht .identifier id
  | group ho _ hc ih =>
    intro us hus
    simp only [contents_cons, contents_append, contents_nil] at hus
    obtain ⟨o, _, rfl, ho', us, _, rfl, hus, c, _, rfl, hc', rfl⟩ := hus
    obtain ⟨u, hu, hsame⟩ := ih us hus
    exact ⟨u, .group (kind_of_content ho' ho) hu (kind_of_content hc' hc), hsame⟩
  | callEmpty _ ho hc ih =>
    intro us hus
    simp only [contents_cons, contents_append, contents_nil] at hus
    obtain ⟨us, _, rfl, hus, o, _, rfl, ho', c, _, rfl, hc', rfl⟩ := hus
    obtain ⟨u, hu, hsame⟩ := ih us hus
    refine ⟨_, .callEmpty hu (kind_of_content ho' ho) (kind_of_content hc' hc), ?_⟩
    simp [Tree.same, hsame]
  | call _ ho _ hc ihcallee iharg =>
    intro us hus
    simp only [contents_cons, contents_append, contents_nil] at hus
    obtain ⟨us, _, rfl, hus, o, _, rfl, ho', vs, _, rfl, hvs, c, _, rfl, hc', rfl⟩ := hus
    obtain ⟨u, hu, hsame⟩ := ihcallee us hus
    obtain ⟨v, hv, hsame'⟩ := iharg vs hvs
    refine ⟨_, .call hu (kind_of_content ho' ho) hv (kind_of_content hc' hc), ?_⟩
    simp [Tree.same, hsame, hsame']
  | index _ ho _ hc ihcallee ihkey =>
    intro us hus
    simp only [contents_cons, contents_append, contents_nil] at hus
    obtain ⟨us, _, rfl, hus, o, _, rfl, ho', vs, _, rfl, hvs, c, _, rfl, hc', rfl⟩ := hus
    obtain ⟨u, hu, hsame⟩ := ihcallee us hus
    obtain ⟨v, hv, hsame'⟩ := ihkey vs hvs
    refine ⟨_, .index hu (kind_of_content ho' ho) hv (kind_of_content hc' hc), ?_⟩
    simp [Tree.same, hsame, hsame']
  | member _ hdot hfield ih =>
    intro us hus
    simp only [contents_cons, contents_append, contents_nil] at hus
    obtain ⟨us, _, rfl, hus, dot, _, rfl, hdot', field, _, rfl, hfield', rfl⟩ := hus
    obtain ⟨u, hu, hsame⟩ := ih us hus
    refine ⟨_, .member hu (kind_of_content hdot' hdot) (kind_of_content hfield' hfield), ?_⟩
    simp [Tree.same, hsame, same_of_content hfield']
  | unary ho _ ih =>
    intro us hus
    simp only [contents_cons] at hus
    obtain ⟨o, us, rfl, ho', hus⟩ := hus
    obtain ⟨u, hu, hsame⟩ := ih us hus
    rw [← kind_of_content ho' rfl] at ho
    exact ⟨_, .unary ho hu, by simp [Tree.same, hsame]⟩
  | binary ho _ _ ihleft ihright =>
    intro us hus
    simp only [contents_cons, contents_append] at hus
    obtain ⟨us, _, rfl, hus, o, vs, rfl, ho', hvs⟩ := hus
    obtain ⟨u, hu, hsame⟩ := ihleft us hus
    obtain ⟨v, hv, hsame'⟩ := ihright vs hvs
    rw [← kind_of_content ho' rfl] at ho
    exact ⟨_, .binary ho hu hv, by simp [Tree.same, hsame, hsame']⟩
  | ifThen hi _ hth body he ih =>
    intro us hus
    simp only [contents_cons, contents_append, contents_nil] at hus
    obtain ⟨i, _, rfl, hi', us, _, rfl, hus, th, _, rfl, hth', vs, _, rfl, hvs, e, _, rfl, he',
      rfl⟩ := hus
    obtain ⟨u, hu, hsame⟩ := ih us hus
    obtain ⟨bs, hbs, hsame'⟩ := body.right.transfers vs hvs
    refine ⟨_, .ifThen (kind_of_content hi' hi) hu (kind_of_content hth' hth) hbs
      (kind_of_content he' he), ?_⟩
    simp [Tree.same, hsame, Tree.sameAll_iff.2 hsame']
  | ifThenElse hi _ hth body hel other he ih =>
    intro us hus
    simp only [contents_cons, contents_append, contents_nil] at hus
    obtain ⟨i, _, rfl, hi', us, _, rfl, hus, th, _, rfl, hth', vs, _, rfl, hvs, el, _, rfl, hel',
      ws, _, rfl, hws, e, _, rfl, he', rfl⟩ := hus
    obtain ⟨u, hu, hsame⟩ := ih us hus
    obtain ⟨bs, hbs, hsame'⟩ := body.right.transfers vs hvs
    obtain ⟨ds, hds, hsame''⟩ := other.right.transfers ws hws
    refine ⟨_, .ifThenElse (kind_of_content hi' hi) hu (kind_of_content hth' hth) hbs
      (kind_of_content hel' hel) hds (kind_of_content he' he), ?_⟩
    simp [Tree.same, hsame, Tree.sameAll_iff.2 hsame', Tree.sameAll_iff.2 hsame'']
  | letBind hl hname heq _ ih =>
    intro us hus
    simp only [contents_cons] at hus
    obtain ⟨l, _, rfl, hl', name, _, rfl, hname', eq, us, rfl, heq', hus⟩ := hus
    obtain ⟨u, hu, hsame⟩ := ih us hus
    refine ⟨_, .letBind (kind_of_content hl' hl) (kind_of_content hname' hname)
      (kind_of_content heq' heq) hu, ?_⟩
    simp [Tree.same, hsame, same_of_content hname']
  | array ho items hc =>
    intro us hus
    simp only [contents_cons, contents_append, contents_nil] at hus
    obtain ⟨o, _, rfl, ho', us, _, rfl, hus, c, _, rfl, hc', rfl⟩ := hus
    obtain ⟨es, hes, hsame⟩ := items.right.transfers us hus
    refine ⟨_, .array (kind_of_content ho' ho) hes (kind_of_content hc' hc), ?_⟩
    simp [Tree.same, Tree.sameAll_iff.2 hsame]
  | object hh ho items hc =>
    intro us hus
    simp only [contents_cons, contents_append, contents_nil] at hus
    obtain ⟨h, _, rfl, hh', o, _, rfl, ho', us, _, rfl, hus, c, _, rfl, hc', rfl⟩ := hus
    have hfields := items.imp fun _ _ field => field.right.transfers
    obtain ⟨fs, hfs, hsame⟩ := hfields.transfers us hus
    refine ⟨_, .object (kind_of_content hh' hh) (kind_of_content ho' ho) hfs
      (kind_of_content hc' hc), ?_⟩
    simp [Tree.same, Tree.sameFields_iff.2 hsame]
  | lambdaEmpty hf ho hc _ ih =>
    intro us hus
    simp only [contents_cons] at hus
    obtain ⟨f, _, rfl, hf', o, _, rfl, ho', c, us, rfl, hc', hus⟩ := hus
    obtain ⟨u, hu, hsame⟩ := ih us hus
    refine ⟨_, .lambdaEmpty (kind_of_content hf' hf) (kind_of_content ho' ho)
      (kind_of_content hc' hc) hu, ?_⟩
    simp [Tree.same, hsame]
  | lambda hf ho hparam hc _ ih =>
    intro us hus
    simp only [contents_cons] at hus
    obtain ⟨f, _, rfl, hf', o, _, rfl, ho', param, _, rfl, hparam', c, us, rfl, hc', hus⟩ := hus
    obtain ⟨u, hu, hsame⟩ := ih us hus
    refine ⟨_, .lambda (kind_of_content hf' hf) (kind_of_content ho' ho)
      (kind_of_content hparam' hparam) (kind_of_content hc' hc) hu, ?_⟩
    simp [Tree.same, hsame, same_of_content hparam']
  | block hb items he =>
    intro us hus
    simp only [contents_cons, contents_append, contents_nil] at hus
    obtain ⟨b, _, rfl, hb', us, _, rfl, hus, e, _, rfl, he', rfl⟩ := hus
    obtain ⟨es, hes, hsame⟩ := items.right.transfers us hus
    refine ⟨_, .block (kind_of_content hb' hb) hes (kind_of_content he' he), ?_⟩
    simp [Tree.same, Tree.sameAll_iff.2 hsame]
  | lift hk _ ih =>
    intro us hus
    obtain ⟨u, hu, hsame⟩ := ih us hus
    exact ⟨u, .lift hk hu, hsame⟩

end NordLang

import NordLang.Proofs.Grammar.Derivation
import NordLang.Proofs.Reader.Upcoming
import NordLang.Reader.Grammar

/-!
# Reading is complete

If the tokens ahead start with tokens that derive a tree, the tree is read and the other tokens are
left, provided that the next of them cannot go on with the tree.

* `continues k` are the kinds of token that go on with a tree of level `k`, and `Stops k rest` says
  that `rest` starts with none of them.
* `Complete k ts t` is the statement for one level.  The tiers that nest to the left are read by a
  loop, so it speaks about the loop that goes on with `t` behind `ts`: the right operand of the next
  operator is then one more round of the same loop.
* `Derives.complete` is the induction over derivations.
-/

namespace NordLang

/-- Whether a token of this kind goes on with a tree of the given level. -/
def TokenKind.continues (k : Nat) (kind : TokenKind) : Bool :=
  (k ≤ 8 && (kind == lparen || kind == lbracket || kind == dot)) ||
    Operator.all.any fun op => op.sign == kind && op.tier?.any (k ≤ ·)

theorem TokenKind.continues_iff {k : Nat} {kind : TokenKind} :
    kind.continues k = true ↔
      k ≤ 8 ∧ (kind = .lparen ∨ kind = .lbracket ∨ kind = .dot) ∨
      ∃ (op : Operator) (tier : Nat), op.sign = kind ∧ op.tier? = some tier ∧ k ≤ tier := by
  simp only [continues, Bool.or_eq_true, Bool.and_eq_true, decide_eq_true_eq, List.any_eq_true,
    Option.any_eq_true, beq_iff_eq, or_assoc]
  refine or_congr Iff.rfl ⟨?_, ?_⟩
  · rintro ⟨op, _, hsign, tier, htier, hle⟩
    exact ⟨op, tier, hsign, htier, hle⟩
  · rintro ⟨op, tier, hsign, htier, hle⟩
    exact ⟨op, Operator.mem_all op, hsign, tier, htier, hle⟩

/-- The tokens do not go on with a tree of the given level. -/
def Stops (k : Nat) (rest : List Token) : Prop :=
  ∀ t us, rest = t :: us → t.kind.continues k = false

theorem stops_nil (k : Nat) : Stops k [] := by
  intro t us h
  cases h

theorem stops_cons {k : Nat} {t : Token} {us : List Token} (h : t.kind.continues k = false) :
    Stops k (t :: us) := by
  intro t' us' heq
  cases heq
  exact h

theorem Stops.of_continues {j k : Nat} {rest : List Token} (h : Stops j rest)
    (hjk : ∀ kind : TokenKind, kind.continues k = true → kind.continues j = true) :
    Stops k rest := by
  intro t us hrest
  have hj := h t us hrest
  rw [Bool.eq_false_iff] at hj ⊢
  exact fun hk => hj (hjk t.kind hk)

theorem Stops.mono {j k : Nat} {rest : List Token} (h : Stops j rest) (hjk : j ≤ k) :
    Stops k rest := by
  refine h.of_continues fun kind hk => ?_
  rw [TokenKind.continues_iff] at hk ⊢
  rcases hk with ⟨hle, hkind⟩ | ⟨op, tier, hsign, htier, hle⟩
  · exact .inl ⟨by omega, hkind⟩
  · exact .inr ⟨op, tier, hsign, htier, by omega⟩

/-- No operator of the tier follows. -/
theorem Stops.ofTier? {k : Nat} {rest : List Token} (h : Stops k rest) {t : Token}
    {us : List Token} (hrest : rest = t :: us) : Operator.ofTier? k t.kind = none := by
  rw [Operator.ofTier?, List.find?_eq_none]
  intro op _ hop
  simp only [Bool.and_eq_true, beq_iff_eq] at hop
  have hk := h t us hrest
  rw [Bool.eq_false_iff] at hk
  exact hk (TokenKind.continues_iff.2 (.inr ⟨op, k, hop.1, hop.2, Nat.le_refl k⟩))

/-- No call, index or member follows. -/
theorem Stops.suffix {k : Nat} {rest : List Token} (h : Stops k rest) (hk : k ≤ 8) {t : Token}
    {us : List Token} (hrest : rest = t :: us) :
    t.kind ≠ .lparen ∧ t.kind ≠ .lbracket ∧ t.kind ≠ .dot := by
  have hstop := h t us hrest
  rw [Bool.eq_false_iff, Ne, TokenKind.continues_iff] at hstop
  simp only [hk, true_and, not_or] at hstop
  exact hstop.1

theorem ne_of_startsExpression {kind close : TokenKind} (h : kind.startsExpression = true)
    (hclose : close.startsExpression = false) : kind ≠ close := by
  rintro rfl
  rw [h] at hclose
  cases hclose

namespace Operator

theorem ofTier?_sign {op : Operator} {k : Nat} (h : op.tier? = some k) :
    ofTier? k op.sign = some op := by
  cases op <;> cases h <;> decide

/-- The sign of an operator does not go on with a tighter operand. -/
theorem continues_sign {op : Operator} {k : Nat} (h : op.tier? = some k) :
    op.sign.continues (k + 1) = false := by
  cases op <;> cases h <;> decide

theorem tier_bounds {op : Operator} {k : Nat} (h : op.tier? = some k) : 0 < k ∧ k ≤ 6 := by
  cases op <;> cases h <;> decide

end Operator

theorem stops_of_stops_one {rest : List Token} (h : Stops 1 rest) : Stops 0 rest := by
  refine h.of_continues fun kind hk => ?_
  rw [TokenKind.continues_iff] at hk ⊢
  rcases hk with ⟨_, hkind⟩ | ⟨op, tier, hsign, htier, _⟩
  · exact .inl ⟨by omega, hkind⟩
  · exact .inr ⟨op, tier, hsign, htier, (Operator.tier_bounds htier).1⟩

theorem stops_nine (rest : List Token) : Stops 9 rest := by
  intro t us _
  rw [Bool.eq_false_iff, Ne, TokenKind.continues_iff]
  rintro (⟨hle, _⟩ | ⟨op, tier, _, htier, hle⟩)
  · omega
  · have := (Operator.tier_bounds htier).2
    omega

namespace Grammar

open Reader Outcome

variable {α : Type} {n : Nat}

/-- Whatever `R` relates to tokens is read from them, if others follow that stop a full
expression. -/
def Readable (R : List Token → α → Prop) (item : Inner n α) : Prop :=
  ∀ {ts : List Token} {a : α}, R ts a → ∀ {r : Reader} {hr : r.remaining < n} {rest : List Token},
    r.Shows (ts ++ rest) none → Stops 0 rest → (item r hr).Yields a rest

/-! ## Items and bodies -/

section items

variable {R : List Token → α → Prop} {item : Inner n α} {separator : TokenKind}
  {hsep : separator ≠ .endOfInput} {c : Token} {rest : List Token}

theorem moreItems_nil (hc : c.kind ≠ separator) {r : Reader} {hr : r.remaining ≤ n}
    (hshows : r.Shows (c :: rest) none) :
    (moreItems separator hsep item r hr).Yields [] (c :: rest) := by
  rw [moreItems]
  exact yields_ifNext_of_cons_none hshows (if_neg hc) fun r₁ h₁ hshows₁ => yields_done hshows₁

/-- Items fall into the first one and what the loop reads. -/
theorem separated_moreItems (hitem : Readable R item) (hstop : separator.continues 0 = false)
    (hc : c.kind ≠ separator) (hcstop : c.kind.continues 0 = false) {ts : List Token} {a : α}
    {as : List α} (h : Separated separator R ts (a :: as)) :
    ∃ us vs, ts = us ++ vs ∧ R us a ∧ Stops 0 (vs ++ c :: rest) ∧
      ∀ {r : Reader} {hr : r.remaining ≤ n}, r.Shows (vs ++ c :: rest) none →
        (moreItems separator hsep item r hr).Yields as (c :: rest) := by
  generalize hlist : a :: as = list at h
  induction h generalizing a as with
  | nil => cases hlist
  | @one ts b item =>
    cases hlist
    refine ⟨ts, [], (List.append_nil ts).symm, item, stops_cons hcstop, ?_⟩
    intro r hr hshows
    exact moreItems_nil hc hshows
  | @more ts vs b d ds s head hs others ih =>
    cases hlist
    refine ⟨ts, s :: vs, rfl, head, stops_cons (hs ▸ hstop), ?_⟩
    intro r hr hshows
    obtain ⟨us', vs', rfl, hb, hstops, hmore⟩ := ih rfl
    rw [List.cons_append, List.append_assoc] at hshows
    rw [moreItems]
    have honly : only separator s.kind = some () := if_pos hs
    refine yields_ifNext_of_some hshows honly fun r₁ h₁ hshows₁ => ?_
    refine (hitem hb hshows₁ hstops).andThen fun r₂ h₂ hshows₂ => ?_
    exact (hmore hshows₂).andThen fun r₃ h₃ hshows₃ => yields_done hshows₃

theorem items_yields (hitem : Readable R item) (hstop : separator.continues 0 = false)
    (hc : c.kind ≠ separator) (hcstop : c.kind.continues 0 = false) {ts : List Token} {a : α}
    {as : List α} (h : Separated separator R ts (a :: as)) {r : Reader} {hr : r.remaining < n}
    (hshows : r.Shows (ts ++ c :: rest) none) :
    (items separator item r hr hsep).Yields (a :: as) (c :: rest) := by
  obtain ⟨us, vs, rfl, ha, hstops, hmore⟩ := separated_moreItems hitem hstop hc hcstop h
  rw [List.append_assoc] at hshows
  refine (hitem ha hshows hstops).andThen fun r₁ h₁ hshows₁ => ?_
  exact (hmore hshows₁).andThen fun r₂ h₂ hshows₂ => yields_done hshows₂

theorem itemsUntil_yields {close : TokenKind} (hitem : Readable R item)
    (hhead : ∀ us a, R us a → ∃ u vs, us = u :: vs ∧ u.kind ≠ close) (hc : c.kind = close)
    (hclose : close ≠ .comma) (hcstop : close.continues 0 = false) {ts : List Token} {as : List α}
    (h : Separated .comma R ts as) {r : Reader} {hr : r.remaining < n}
    (hshows : r.Shows (ts ++ c :: rest) none) :
    (itemsUntil close item r hr).Yields as (c :: rest) := by
  cases as with
  | nil =>
    cases h
    refine (look_of_cons hshows).andThen fun r₁ h₁ hshows₁ => ?_
    rw [if_pos hc]
    exact yields_done hshows₁
  | cons a as =>
    obtain ⟨u, vs, rfl, hu⟩ := h.head (· ≠ close) hhead
    refine (look_of_cons hshows).andThen fun r₁ h₁ hshows₁ => ?_
    rw [if_neg hu]
    exact (items_yields hitem rfl (hc ▸ hclose) (hc ▸ hcstop) h hshows₁).mono _

theorem body_yields {R : List Token → Tree → Prop} {expr : Inner n Tree} (hexpr : Readable R expr)
    (hhead : ∀ us u, R us u → ∃ v vs, us = v :: vs ∧ v.kind.startsExpression = true)
    (hc : c.kind = .elseKw ∨ c.kind = .endKw) {ts : List Token} {es : List Tree}
    (h : Separated .semicolon R ts es) {r : Reader} {hr : r.remaining < n}
    (hshows : r.Shows (ts ++ c :: rest) none) : (body expr r hr).Yields es (c :: rest) := by
  cases es with
  | nil =>
    cases h
    refine (look_of_cons hshows).andThen fun r₁ h₁ hshows₁ => ?_
    have hstart : c.kind.startsExpression = false := by
      rcases hc with hc | hc <;> rw [hc] <;> rfl
    rw [if_neg (by simp [hstart])]
    exact yields_done hshows₁
  | cons e es =>
    obtain ⟨u, vs, rfl, hu⟩ := h.head (·.startsExpression = true) hhead
    refine (look_of_cons hshows).andThen fun r₁ h₁ hshows₁ => ?_
    rw [if_pos hu]
    refine Yields.mono ?_ _
    rcases hc with hc | hc <;>
      exact items_yields hexpr rfl (by rw [hc]; decide) (by rw [hc]; rfl) h hshows₁

theorem bareBlock_none_yields {R : List Token → Tree → Prop} {expr : Inner n Tree}
    (hexpr : Readable R expr)
    (hhead : ∀ us u, R us u → ∃ v vs, us = v :: vs ∧ v.kind.startsExpression = true)
    (hc : c.kind = .elseKw ∨ c.kind = .endKw) {ts : List Token} {es : List Tree}
    (h : Separated .semicolon R ts es) {r : Reader} {hr : r.remaining < n}
    (hshows : r.Shows (ts ++ c :: rest) none) :
    (bareBlock none expr r hr).Yields (.block (bodyLoc ts c) es) (c :: rest) := by
  have hlook : r.look.Yields (ts.headD c) (ts ++ c :: rest) := by
    cases ts with
    | nil => exact look_of_cons hshows
    | cons u us => exact look_of_cons hshows
  refine hlook.andThen fun r₁ h₁ hshows₁ => ?_
  exact (body_yields hexpr hhead hc h hshows₁).andThen fun r₂ h₂ hshows₂ => yields_done hshows₂

end items

/-! ## Forms with a keyword or an opening bracket -/

section forms

variable {R : List Token → Tree → Prop} {expr : Inner n Tree} (hexpr : Readable R expr)
  (hhead : ∀ us u, R us u → ∃ v vs, us = v :: vs ∧ v.kind.startsExpression = true)
  {r : Reader} {hr : r.remaining ≤ n} {rest : List Token}

include hexpr hhead

theorem ifElse_yields {i th e : Token} {cs bs : List Token} {cond : Tree} {body : List Tree}
    (hi : i.kind = .ifKw) (hcond : R cs cond) (hth : th.kind = .thenKw)
    (hbody : Separated .semicolon R bs body) (he : e.kind = .endKw)
    (hshows : r.Shows (i :: (cs ++ th :: (bs ++ e :: rest))) none) :
    (ifElse expr r hr).Yields (.ifElse i.loc cond (.block (bodyLoc bs e) body) .missing) rest := by
  refine (require_of_cons hshows hi).andThen fun r₁ h₁ hshows => ?_
  refine (hexpr hcond hshows (stops_cons (by rw [hth]; rfl))).andThen fun r₂ h₂ hshows => ?_
  refine (require_of_cons hshows hth).andThen fun r₃ h₃ hshows => ?_
  refine (bareBlock_none_yields hexpr hhead (.inr he) hbody hshows).andThen fun r₄ h₄ hshows => ?_
  have hnone : only .elseKw e.kind = none := by rw [he]; rfl
  refine Yields.andThen (s := e :: rest) (a := .missing) ?_ fun r₅ h₅ hshows => ?_
  · exact yields_ifNext_of_cons_none hshows hnone fun r₅ h₅ hshows => yields_done hshows
  · exact (require_of_cons hshows he).andThen fun r₆ h₆ hshows => yields_done hshows

theorem ifElse_else_yields {i th el e : Token} {cs bs ds : List Token} {cond : Tree}
    {body other : List Tree} (hi : i.kind = .ifKw) (hcond : R cs cond) (hth : th.kind = .thenKw)
    (hbody : Separated .semicolon R bs body) (hel : el.kind = .elseKw)
    (hother : Separated .semicolon R ds other) (he : e.kind = .endKw)
    (hshows : r.Shows (i :: (cs ++ th :: (bs ++ el :: (ds ++ e :: rest)))) none) :
    (ifElse expr r hr).Yields
      (.ifElse i.loc cond (.block (bodyLoc bs el) body) (.block (bodyLoc ds e) other)) rest := by
  refine (require_of_cons hshows hi).andThen fun r₁ h₁ hshows => ?_
  refine (hexpr hcond hshows (stops_cons (by rw [hth]; rfl))).andThen fun r₂ h₂ hshows => ?_
  refine (require_of_cons hshows hth).andThen fun r₃ h₃ hshows => ?_
  refine (bareBlock_none_yields hexpr hhead (.inl hel) hbody hshows).andThen fun r₄ h₄ hshows => ?_
  have honly : only .elseKw el.kind = some () := if_pos hel
  refine Yields.andThen (s := e :: rest) (a := .block (bodyLoc ds e) other) ?_
    fun r₅ h₅ hshows => ?_
  · refine yields_ifNext_of_some hshows honly fun r₅ h₅ hshows => ?_
    exact (bareBlock_none_yields hexpr hhead (.inr he) hother hshows).mono _
  · exact (require_of_cons hshows he).andThen fun r₆ h₆ hshows => yields_done hshows

theorem array_yields {o c : Token} {ts : List Token} {elements : List Tree}
    (ho : o.kind = .lbracket) (hitems : Separated .comma R ts elements) (hc : c.kind = .rbracket)
    (hshows : r.Shows (o :: (ts ++ c :: rest)) none) :
    (array expr r hr).Yields (.array o.loc elements) rest := by
  have hfirst : ∀ us u, R us u → ∃ v vs, us = v :: vs ∧ v.kind ≠ .rbracket := by
    intro us u hu
    obtain ⟨v, vs, hus, hv⟩ := hhead us u hu
    exact ⟨v, vs, hus, ne_of_startsExpression hv rfl⟩
  refine (require_of_cons hshows ho).andThen fun r₁ h₁ hshows => ?_
  refine (itemsUntil_yields hexpr hfirst hc (by decide) rfl hitems hshows).andThen
    fun r₂ h₂ hshows => ?_
  exact (require_of_cons hshows hc).andThen fun r₃ h₃ hshows => yields_done hshows

theorem block_yields {b e : Token} {ts : List Token} {body : List Tree} (hb : b.kind = .blockKw)
    (hitems : Separated .semicolon R ts body) (he : e.kind = .endKw)
    (hshows : r.Shows (b :: (ts ++ e :: rest)) none) :
    (block expr r hr).Yields (.block b.loc body) rest := by
  refine (require_of_cons hshows hb).andThen fun r₁ h₁ hshows => ?_
  refine Yields.andThen (s := e :: rest) (a := .block b.loc body) ?_ fun r₂ h₂ hshows => ?_
  · refine (body_yields hexpr hhead (.inr he) hitems hshows).andThen fun r₂ h₂ hshows => ?_
    exact yields_done hshows
  · exact (require_of_cons hshows he).andThen fun r₃ h₃ hshows => yields_done hshows

omit hhead in
theorem letBind_yields {l name eq : Token} {ts : List Token} {value : Tree} (hl : l.kind = .letKw)
    (hname : name.kind = .identifier) (heq : eq.kind = .equals) (hvalue : R ts value)
    (hstop : Stops 0 rest) (hshows : r.Shows (l :: name :: eq :: (ts ++ rest)) none) :
    (letBind expr r hr).Yields (.letBind l.loc name.value value) rest := by
  refine (require_of_cons hshows hl).andThen fun r₁ h₁ hshows => ?_
  refine (require_of_cons hshows hname).andThen fun r₂ h₂ hshows => ?_
  refine (require_of_cons hshows heq).andThen fun r₃ h₃ hshows => ?_
  exact (hexpr hvalue hshows hstop).andThen fun r₄ h₄ hshows => yields_done hshows

omit hhead in
theorem readable_objectField :
    Readable (n := n) (NamedBy R) fun r h => objectField expr r (Nat.le_of_lt h) := by
  intro ts field hfield r hr rest hshows hstop
  cases hfield with
  | mk hname hcolon hvalue =>
    refine (require_of_cons hshows hname).andThen fun r₁ h₁ hshows => ?_
    refine (require_of_cons hshows hcolon).andThen fun r₂ h₂ hshows => ?_
    exact (hexpr hvalue hshows hstop).andThen fun r₃ h₃ hshows => yields_done hshows

omit hhead in
theorem object_yields {h o c : Token} {ts : List Token} {fields : List (Scalar × Tree)}
    (hh : h.kind = .hash) (ho : o.kind = .lbrace) (hitems : Separated .comma (NamedBy R) ts fields)
    (hc : c.kind = .rbrace) (hshows : r.Shows (h :: o :: (ts ++ c :: rest)) none) :
    (object expr r hr).Yields (.object h.loc fields) rest := by
  have hfirst : ∀ us f, NamedBy R us f → ∃ v vs, us = v :: vs ∧ v.kind ≠ .rbrace := by
    intro us f hf
    cases hf with
    | mk hname _ _ => exact ⟨_, _, rfl, by rw [hname]; decide⟩
  refine (require_of_cons hshows hh).andThen fun r₁ h₁ hshows => ?_
  refine (require_of_cons hshows ho).andThen fun r₂ h₂ hshows => ?_
  refine (itemsUntil_yields (readable_objectField hexpr) hfirst hc (by decide) rfl hitems
    hshows).andThen fun r₃ h₃ hshows => ?_
  exact (require_of_cons hshows hc).andThen fun r₄ h₄ hshows => yields_done hshows

omit hhead in
theorem lambda_empty_yields {f o c : Token} {ts : List Token} {body : Tree} (hf : f.kind = .fnKw)
    (ho : o.kind = .lparen) (hc : c.kind = .rparen) (hbody : R ts body) (hstop : Stops 0 rest)
    (hshows : r.Shows (f :: o :: c :: (ts ++ rest)) none) :
    (lambda expr r hr).Yields (.lambda f.loc .null body) rest := by
  refine (require_of_cons hshows hf).andThen fun r₁ h₁ hshows => ?_
  refine (require_of_cons hshows ho).andThen fun r₂ h₂ hshows => ?_
  have hnone : only .identifier c.kind = none := by rw [hc]; rfl
  refine Yields.andThen (s := c :: (ts ++ rest)) (a := .null) ?_ fun r₃ h₃ hshows => ?_
  · exact yields_ifNext_of_cons_none hshows hnone fun r₃ h₃ hshows => yields_done hshows
  · refine (require_of_cons hshows hc).andThen fun r₄ h₄ hshows => ?_
    exact (hexpr hbody hshows hstop).andThen fun r₅ h₅ hshows => yields_done hshows

omit hhead in
theorem lambda_yields {f o param c : Token} {ts : List Token} {body : Tree} (hf : f.kind = .fnKw)
    (ho : o.kind = .lparen) (hparam : param.kind = .identifier) (hc : c.kind = .rparen)
    (hbody : R ts body) (hstop : Stops 0 rest)
    (hshows : r.Shows (f :: o :: param :: c :: (ts ++ rest)) none) :
    (lambda expr r hr).Yields (.lambda f.loc param.value body) rest := by
  refine (require_of_cons hshows hf).andThen fun r₁ h₁ hshows => ?_
  refine (require_of_cons hshows ho).andThen fun r₂ h₂ hshows => ?_
  have honly : only .identifier param.kind = some () := if_pos hparam
  refine Yields.andThen (s := c :: (ts ++ rest)) (a := param.value) ?_ fun r₃ h₃ hshows => ?_
  · exact yields_ifNext_of_some hshows honly fun r₃ h₃ hshows => yields_done hshows
  · refine (require_of_cons hshows hc).andThen fun r₄ h₄ hshows => ?_
    exact (hexpr hbody hshows hstop).andThen fun r₅ h₅ hshows => yields_done hshows

/-! ## Operands -/

omit hhead in
theorem primary_group_yields {o c : Token} {ts : List Token} {t : Tree} (ho : o.kind = .lparen)
    (ht : R ts t) (hc : c.kind = .rparen) (hshows : r.Shows (o :: (ts ++ c :: rest)) none) :
    (primary expr r hr).Yields t rest := by
  refine (look_of_cons hshows).andThen fun r₁ h₁ hshows => ?_
  simp only [ho]
  refine (require_of_cons hshows ho).andThen fun r₂ h₂ hshows => ?_
  refine (hexpr ht hshows (stops_cons (by rw [hc]; rfl))).andThen fun r₃ h₃ hshows => ?_
  exact (require_of_cons hshows hc).andThen fun r₄ h₄ hshows => yields_done hshows

omit hexpr hhead in
theorem call_empty_yields {callee : Tree} {o c : Token} (ho : o.kind = .lparen)
    (hc : c.kind = .rparen) (hshows : r.Shows (o :: c :: rest) none) :
    (call callee expr r hr).Yields (.call o.loc callee .missing) rest := by
  refine (require_of_cons hshows ho).andThen fun r₁ h₁ hshows => ?_
  refine Yields.andThen (s := c :: rest) (a := .missing) ?_ fun r₂ h₂ hshows => ?_
  · refine (look_of_cons hshows).andThen fun r₂ h₂ hshows => ?_
    rw [if_pos hc]
    exact yields_done hshows
  · exact (require_of_cons hshows hc).andThen fun r₃ h₃ hshows => yields_done hshows

theorem call_yields {callee arg : Tree} {o c : Token} {us : List Token} (ho : o.kind = .lparen)
    (harg : R us arg) (hc : c.kind = .rparen) (hshows : r.Shows (o :: (us ++ c :: rest)) none) :
    (call callee expr r hr).Yields (.call o.loc callee arg) rest := by
  refine (require_of_cons hshows ho).andThen fun r₁ h₁ hshows => ?_
  refine Yields.andThen (s := c :: rest) (a := arg) ?_ fun r₂ h₂ hshows => ?_
  · obtain ⟨v, vs, rfl, hv⟩ := hhead us arg harg
    have hne : v.kind ≠ .rparen := ne_of_startsExpression hv rfl
    refine (look_of_cons hshows).andThen fun r₂ h₂ hshows => ?_
    rw [if_neg hne]
    exact (hexpr harg hshows (stops_cons (by rw [hc]; rfl))).mono _
  · exact (require_of_cons hshows hc).andThen fun r₃ h₃ hshows => yields_done hshows

omit hhead in
theorem index_yields {callee key : Tree} {o c : Token} {us : List Token} (ho : o.kind = .lbracket)
    (hkey : R us key) (hc : c.kind = .rbracket)
    (hshows : r.Shows (o :: (us ++ c :: rest)) none) :
    (index callee expr r hr).Yields (.index o.loc callee key) rest := by
  refine (require_of_cons hshows ho).andThen fun r₁ h₁ hshows => ?_
  refine (hexpr hkey hshows (stops_cons (by rw [hc]; rfl))).andThen fun r₂ h₂ hshows => ?_
  exact (require_of_cons hshows hc).andThen fun r₃ h₃ hshows => yields_done hshows

omit hexpr hhead in
theorem member_yields {callee : Tree} {dot field : Token} (hdot : dot.kind = .dot)
    (hfield : field.kind = .identifier) (hshows : r.Shows (dot :: field :: rest) none) :
    (member callee r).Yields (.member field.loc callee field.value) rest := by
  refine (require_of_cons hshows hdot).andThen fun r₁ h₁ hshows => ?_
  exact (require_of_cons hshows hfield).andThen fun r₂ h₂ hshows => yields_done hshows

end forms

/-! ## Levels -/

/-- The reading of a tree of level `k`. -/
def reading (n k : Nat) (r : Reader) (hr : r.remaining ≤ n) : Outcome r.remaining Tree :=
  if k = 0 then expression r
  else if k ≤ 7 then binary (inner n) (7 - k) r hr
  else if k = 8 then suffixed (inner n) r hr
  else primary (inner n) r hr

theorem remaining_lt_succ (r : Reader) : r.remaining < r.remaining + 1 :=
  Nat.lt_succ_self _

/-- The loop that goes on with a tree of level `k`; some levels have none. -/
def readingOn (n k : Nat) (t : Tree) (r : Reader) (hr : r.remaining ≤ n) :
    Outcome (r.remaining + 1) Tree :=
  if 0 < k ∧ k ≤ 6 then chain k (binary (inner n) (6 - k)) t r hr
  else if k = 8 then suffixes t (inner n) r hr
  else .done t r (remaining_lt_succ r)

/-- From tokens that start with `ts`, reading at level `k` gets to the loop that goes on with
`t`. -/
def Complete (k : Nat) (ts : List Token) (t : Tree) : Prop :=
  ∀ (n : Nat) (r : Reader) (hr : r.remaining ≤ n) (rest : List Token),
    r.Shows (ts ++ rest) none → Stops (k + 1) rest →
    ∃ r' hr', r'.Shows rest none ∧ (reading n k r hr).result = (readingOn n k t r' hr').result

theorem yields_of_result {m m' : Nat} {o : Outcome m α} {o' : Outcome m' α} {a : α}
    {rest : List Token} (h : o.result = o'.result) (h' : o'.Yields a rest) : o.Yields a rest := by
  obtain ⟨r, hr, rfl, hshows⟩ := h'
  cases o with
  | done b r' hr' =>
    cases h
    exact ⟨_, hr', rfl, hshows⟩
  | failed fault r' => cases h

@[simp] theorem result_mono {m m' : Nat} {o : Outcome m α} {h : m ≤ m'} : (o.mono h).result = o.result := by
  cases o <;> rfl

theorem suffixes_of_stops {t : Tree} {expr : Inner n Tree} {r : Reader} {hr : r.remaining ≤ n}
    {rest : List Token} (hshows : r.Shows rest none) (hstop : Stops 8 rest) :
    (suffixes t expr r hr).Yields t rest := by
  rw [suffixes]
  cases rest with
  | nil =>
    obtain ⟨e, he, hlook⟩ := look_of_nil hshows
    refine hlook.andThen fun r₁ h₁ hshows₁ => ?_
    rw [Token.isEnd, beq_iff_eq] at he
    simp only [he]
    exact yields_done hshows₁
  | cons u us =>
    obtain ⟨hparen, hbracket, hdot⟩ := hstop.suffix (by omega) rfl
    refine (look_of_cons hshows).andThen fun r₁ h₁ hshows₁ => ?_
    split
    · contradiction
    · contradiction
    · contradiction
    · exact yields_done hshows₁

theorem chain_of_stops {k : Nat} {t : Tree}
    {operand : (r : Reader) → r.remaining ≤ n → Outcome r.remaining Tree} {r : Reader}
    {hr : r.remaining ≤ n} {rest : List Token} (hshows : r.Shows rest none)
    (hstop : Stops k rest) : (chain k operand t r hr).Yields t rest := by
  rw [chain]
  exact yields_ifNext_of_none hshows (fun u us hrest => hstop.ofTier? hrest)
    fun r₁ h₁ hshows₁ => yields_done hshows₁

/-- The loop ends where nothing goes on with its tree. -/
theorem readingOn_of_stops {k : Nat} {t : Tree} {r : Reader} {hr : r.remaining ≤ n}
    {rest : List Token} (hshows : r.Shows rest none) (hstop : Stops k rest) :
    (readingOn n k t r hr).Yields t rest := by
  unfold readingOn
  split
  · exact chain_of_stops hshows hstop
  · split
    · next hk =>
      subst hk
      exact suffixes_of_stops hshows hstop
    · exact yields_done hshows

theorem Complete.yields {k : Nat} {ts : List Token} {t : Tree} (h : Complete k ts t) {r : Reader}
    (hr : r.remaining ≤ n) {rest : List Token} (hshows : r.Shows (ts ++ rest) none)
    (hstop : Stops k rest) : (reading n k r hr).Yields t rest := by
  obtain ⟨r', hr', hshows', heq⟩ := h n r hr rest hshows (hstop.mono (Nat.le_succ k))
  exact yields_of_result heq (readingOn_of_stops hshows' hstop)

/-- At a level that has no loop it is enough to read the tree. -/
theorem complete_of_yields {k : Nat} (hk : k = 0 ∨ k = 7 ∨ k = 9) {ts : List Token} {t : Tree}
    (h : ∀ {n : Nat} {r : Reader} {hr : r.remaining ≤ n} {rest : List Token},
      r.Shows (ts ++ rest) none → Stops (k + 1) rest → (reading n k r hr).Yields t rest) :
    Complete k ts t := by
  intro n r hr rest hshows hstop
  obtain ⟨r', h', heq, hshows'⟩ := @h n r hr rest hshows hstop
  refine ⟨r', by omega, hshows', ?_⟩
  rw [heq, readingOn, if_neg (by omega), if_neg (by omega)]
  rfl

/-! ## One rule at a time -/

theorem result_andThen {β : Type} {m m' : Nat} {o : Outcome m α} {a : α} {r : Reader}
    {h : r.remaining < m} {f : α → (r : Reader) → r.remaining < m → Outcome m' β}
    (ho : o = .done a r h) : (o.andThen f).result = (f a r h).result := by
  rw [ho]
  rfl

theorem complete_primary {ts : List Token} {t : Tree}
    (h : ∀ {n : Nat} {r : Reader} {hr : r.remaining ≤ n} {rest : List Token},
      r.Shows (ts ++ rest) none → (primary (inner n) r hr).Yields t rest) : Complete 9 ts t := by
  refine complete_of_yields (.inr (.inr rfl)) ?_
  intro n r hr rest hshows _
  change (primary (inner n) r hr).Yields t rest
  exact h hshows

/-- A suffix is read by what its first token asks for, and the loop goes on behind it. -/
theorem suffixes_of_cons {expr : Inner n Tree} {callee t : Tree} {o : Token} {ts rest : List Token}
    {read : (r : Reader) → r.remaining ≤ n → Outcome r.remaining Tree}
    (hread : o.kind = .lparen ∧ read = call callee expr ∨
      o.kind = .lbracket ∧ read = index callee expr ∨
      o.kind = .dot ∧ read = fun r _ => member callee r)
    {r : Reader} {hr : r.remaining ≤ n} (hshows : r.Shows (o :: ts) none)
    (h : ∀ (r : Reader) (hr : r.remaining ≤ n), r.Shows (o :: ts) none →
      (read r hr).Yields t rest) :
    ∃ r' hr', r'.Shows rest none ∧
      (suffixes callee expr r hr).result = (suffixes t expr r' hr').result := by
  obtain ⟨r₁, h₁, hlook, hshows₁⟩ := look_of_cons hshows
  obtain ⟨r₂, h₂, hdone, hshows₂⟩ := h r₁ (by omega) hshows₁
  refine ⟨r₂, by omega, hshows₂, ?_⟩
  rw [suffixes, result_andThen hlook]
  rcases hread with ⟨ho, rfl⟩ | ⟨ho, rfl⟩ | ⟨ho, rfl⟩
  all_goals
    simp only [ho]
    rw [result_andThen hdone, result_mono]

/-- One more suffix is one more round of the loop. -/
theorem Complete.suffix {ts us : List Token} {callee t : Tree} (h : Complete 8 ts callee)
    (hround : ∀ {n : Nat} {r : Reader} {hr : r.remaining ≤ n} {rest : List Token},
      r.Shows (us ++ rest) none → ∃ r' hr', r'.Shows rest none ∧
        (suffixes callee (inner n) r hr).result = (suffixes t (inner n) r' hr').result) :
    Complete 8 (ts ++ us) t := by
  intro n r hr rest hshows _
  rw [List.append_assoc] at hshows
  obtain ⟨r₁, hr₁, hshows₁, heq₁⟩ := h n r hr (us ++ rest) hshows (stops_nine _)
  obtain ⟨r₂, hr₂, hshows₂, heq₂⟩ := @hround n r₁ hr₁ rest hshows₁
  exact ⟨r₂, hr₂, hshows₂, heq₁.trans heq₂⟩

theorem reading_tier {k : Nat} (hk : 0 < k) (hk7 : k ≤ 7) {r : Reader} {hr : r.remaining ≤ n} :
    reading n k r hr = binary (inner n) (7 - k) r hr := by
  rw [reading, if_neg (by omega), if_pos hk7]

theorem readingOn_tier {k : Nat} (hk : 0 < k) (hk6 : k ≤ 6) {t : Tree} {r : Reader}
    {hr : r.remaining ≤ n} :
    readingOn n k t r hr = chain k (binary (inner n) (6 - k)) t r hr := by
  rw [readingOn, if_pos ⟨hk, hk6⟩]

theorem complete_unary {o : Token} {op : Operator} {ts : List Token} {operand : Tree}
    (ho : (o.kind, op) ∈ Operator.unaries) (h : Complete 7 ts operand) :
    Complete 7 (o :: ts) (.unary o.loc (some op) operand) := by
  refine complete_of_yields (.inr (.inl rfl)) ?_
  intro n r hr rest hshows hstop
  change (unary (inner n) r hr).Yields _ rest
  rw [unary]
  refine yields_ifNext_of_some hshows (Operator.mem_unaries.1 ho) fun r₁ h₁ hshows₁ => ?_
  obtain ⟨r₂, hr₂, hshows₂, heq⟩ := h n r₁ (by omega) rest hshows₁ hstop
  have hoperand : (unary (inner n) r₁ (by omega)).Yields operand rest :=
    yields_of_result heq (yields_done hshows₂)
  exact hoperand.andThen fun r₃ h₃ hshows₃ => yields_done hshows₃

/-- One more operator of the tier with its right operand is one more round of the loop. -/
theorem complete_binary {k : Nat} {o : Token} {op : Operator} {ts us : List Token}
    {left right : Tree} (ho : (k, o.kind, op) ∈ Operator.binaries)
    (hleft : Complete k ts left) (hright : Complete (k + 1) us right) :
    Complete k (ts ++ o :: us) (.binary o.loc left (some op) right) := by
  intro n r hr rest hshows hstop
  obtain ⟨hop, hsign⟩ := Operator.mem_binaries.1 ho
  obtain ⟨hk, hk6⟩ := Operator.tier_bounds hop
  rw [List.append_assoc, List.cons_append] at hshows
  have hstop₁ : Stops (k + 1) (o :: (us ++ rest)) :=
    stops_cons (by rw [← hsign]; exact Operator.continues_sign hop)
  obtain ⟨r₁, hr₁, hshows₁, heq₁⟩ := hleft n r hr _ hshows hstop₁
  rw [readingOn_tier hk hk6, chain] at heq₁
  have htier : Operator.ofTier? k o.kind = some op := by rw [← hsign, Operator.ofTier?_sign hop]
  obtain ⟨r₂, h₂, hshows₂, hround⟩ := ifNext_of_some hshows₁ htier
  rw [hround] at heq₁
  have hoperand := hright.yields (n := n) (by omega) hshows₂ hstop
  rw [reading_tier (by omega) (by omega), Nat.add_sub_add_right 6 1 k] at hoperand
  obtain ⟨r₃, h₃, hdone, hshows₃⟩ := hoperand
  rw [result_andThen hdone, result_mono] at heq₁
  refine ⟨r₃, by omega, hshows₃, ?_⟩
  rw [heq₁, readingOn_tier hk hk6]

/-! ## From a level to the looser one -/

theorem Complete.lift_primary {ts : List Token} {t : Tree} (h : Complete 9 ts t) :
    Complete 8 ts t := by
  intro n r hr rest hshows hstop
  obtain ⟨r₁, h₁, heq, hshows₁⟩ := h.yields hr hshows hstop
  refine ⟨r₁, by omega, hshows₁, ?_⟩
  change ((primary (inner n) r hr).andThen _).result = _
  change primary (inner n) r hr = _ at heq
  rw [result_andThen heq, result_mono]
  rfl

theorem Complete.lift_suffixed {u : Token} {us : List Token} {t : Tree}
    (h : Complete 8 (u :: us) t) (hu : Operator.unary? u.kind = none) :
    Complete 7 (u :: us) t := by
  refine complete_of_yields (.inr (.inl rfl)) ?_
  intro n r hr rest hshows hstop
  change (unary (inner n) r hr).Yields t rest
  rw [unary]
  refine yields_ifNext_of_cons_none hshows hu fun r₁ h₁ hshows₁ => ?_
  exact Yields.mono (h.yields (by omega) hshows₁ hstop) _

theorem Complete.lift_tier {k : Nat} (hk : 0 < k) (hk6 : k ≤ 6) {ts : List Token} {t : Tree}
    (h : Complete (k + 1) ts t) : Complete k ts t := by
  intro n r hr rest hshows hstop
  have hoperand := h.yields hr hshows hstop
  rw [reading_tier (by omega) (by omega), Nat.add_sub_add_right 6 1 k] at hoperand
  obtain ⟨r₁, h₁, hdone, hshows₁⟩ := hoperand
  refine ⟨r₁, by omega, hshows₁, ?_⟩
  have hlevel : 7 - k = 6 - k + 1 := by omega
  have htier : tiers - (6 - k) = k := by
    change 6 - (6 - k) = k
    omega
  rw [reading_tier hk (by omega), readingOn_tier hk hk6, hlevel, binary, result_andThen hdone,
    result_mono]
  simp only [htier]

/-- A full expression is read by the form that its first token opens. -/
theorem complete_expression {u : Token} {us : List Token} {t : Tree}
    (h : ∀ {n : Nat} {r : Reader} (hr : r.remaining ≤ n) (rest : List Token), Stops 0 rest →
      r.Shows (u :: us ++ rest) none →
      (match u.kind with
        | .ifKw => ifElse (inner n) r hr
        | .letKw => letBind (inner n) r hr
        | .lbracket => array (inner n) r hr
        | .hash => object (inner n) r hr
        | .fnKw => lambda (inner n) r hr
        | .blockKw => block (inner n) r hr
        | _ => binary (inner n) tiers r hr).Yields t rest) : Complete 0 (u :: us) t := by
  refine complete_of_yields (.inl rfl) ?_
  intro n r hr rest hshows hstop
  change (expression r).Yields t rest
  rw [expression]
  refine (look_of_cons hshows).andThen fun r₁ h₁ hshows₁ => ?_
  exact (h (by omega) rest (stops_of_stops_one hstop) hshows₁).mono _

theorem Complete.lift_chain {u : Token} {us : List Token} {t : Tree} (h : Complete 1 (u :: us) t)
    (hu : u.kind.opensForm = false) : Complete 0 (u :: us) t := by
  refine complete_expression fun hr rest hstop hshows => ?_
  split
  case h_7 => exact h.yields hr hshows (hstop.mono (Nat.zero_le 1))
  all_goals
    rename_i hkind
    rw [hkind] at hu
    cases hu

/-- What is known of the items of a derivation: each is derived and can be read. -/
abbrev Reads (ts : List Token) (t : Tree) : Prop :=
  ∃ _ : Derives 0 ts t, Complete 0 ts t

theorem readable_reads : Readable Reads (inner n) := by
  intro ts t h r hr rest hshows hstop
  obtain ⟨_, hcomplete⟩ := h
  exact hcomplete.yields (Nat.le_refl _) hshows hstop

theorem Reads.head (ts : List Token) (t : Tree) (h : Reads ts t) :
    ∃ u us, ts = u :: us ∧ u.kind.startsExpression = true := by
  obtain ⟨hderives, _⟩ := h
  obtain ⟨u, us, hts, hu, _⟩ := hderives.head
  exact ⟨u, us, hts, hu⟩

end Grammar

open Grammar Reader Outcome

/-- Whatever is derived can be read. -/
theorem Derives.complete {k : Nat} {ts : List Token} {t : Tree} (h : Derives k ts t) :
    Complete k ts t := by
  induction h using Derives.induction with
  | num ht | boolean ht | string ht | identifier ht =>
    refine complete_primary fun hshows => ?_
    refine (look_of_cons hshows).andThen fun r₁ h₁ hshows₁ => ?_
    simp only [ht]
    exact (require_of_cons hshows₁ ht).andThen fun r₂ h₂ hshows₂ => yields_done hshows₂
  | group ho inner hc ih =>
    refine complete_primary fun hshows => ?_
    rw [List.cons_append, List.append_assoc] at hshows
    exact primary_group_yields readable_reads ho ⟨inner, ih⟩ hc hshows
  | callEmpty left ho hc ih =>
    refine ih.suffix fun hshows => ?_
    exact suffixes_of_cons (.inl ⟨ho, rfl⟩) hshows fun r hr => call_empty_yields ho hc
  | call left ho inner hc ih ihArg =>
    refine ih.suffix fun hshows => ?_
    rw [List.cons_append, List.append_assoc] at hshows
    exact suffixes_of_cons (.inl ⟨ho, rfl⟩) hshows fun r hr =>
      call_yields readable_reads Reads.head ho ⟨inner, ihArg⟩ hc
  | index left ho inner hc ih ihKey =>
    refine ih.suffix fun hshows => ?_
    rw [List.cons_append, List.append_assoc] at hshows
    exact suffixes_of_cons (.inr (.inl ⟨ho, rfl⟩)) hshows fun r hr =>
      index_yields readable_reads ho ⟨inner, ihKey⟩ hc
  | member left hdot hfield ih =>
    refine ih.suffix fun hshows => ?_
    exact suffixes_of_cons (.inr (.inr ⟨hdot, rfl⟩)) hshows fun r hr => member_yields hdot hfield
  | unary ho right ih => exact complete_unary ho ih
  | binary ho leftOperand rightOperand ihLeft ihRight => exact complete_binary ho ihLeft ihRight
  | ifThen hi condition hth thenBody he ih =>
    refine complete_expression fun hr rest hstop hshows => ?_
    simp only [List.cons_append, List.append_assoc, List.nil_append] at hshows
    simp only [hi]
    exact ifElse_yields readable_reads Reads.head hi ⟨condition, ih⟩ hth thenBody he hshows
  | ifThenElse hi condition hth thenBody hel elseBody he ih =>
    refine complete_expression fun hr rest hstop hshows => ?_
    simp only [List.cons_append, List.append_assoc, List.nil_append] at hshows
    simp only [hi]
    exact ifElse_else_yields readable_reads Reads.head hi ⟨condition, ih⟩ hth thenBody hel elseBody
      he hshows
  | letBind hl hname heq right ih =>
    refine complete_expression fun hr rest hstop hshows => ?_
    simp only [hl]
    exact letBind_yields readable_reads hl hname heq ⟨right, ih⟩ hstop hshows
  | array ho items hc =>
    refine complete_expression fun hr rest hstop hshows => ?_
    rw [List.cons_append, List.append_assoc] at hshows
    simp only [ho]
    exact array_yields readable_reads Reads.head ho items hc hshows
  | object hh ho items hc =>
    refine complete_expression fun hr rest hstop hshows => ?_
    rw [List.cons_append, List.cons_append, List.append_assoc] at hshows
    simp only [hh]
    exact object_yields readable_reads hh ho items hc hshows
  | lambdaEmpty hf ho hc inner ih =>
    refine complete_expression fun hr rest hstop hshows => ?_
    simp only [hf]
    exact lambda_empty_yields readable_reads hf ho hc ⟨inner, ih⟩ hstop hshows
  | lambda hf ho hparam hc inner ih =>
    refine complete_expression fun hr rest hstop hshows => ?_
    simp only [hf]
    exact lambda_yields readable_reads hf ho hparam hc ⟨inner, ih⟩ hstop hshows
  | block hb items he =>
    refine complete_expression fun hr rest hstop hshows => ?_
    rw [List.cons_append, List.append_assoc] at hshows
    simp only [hb]
    exact block_yields readable_reads Reads.head hb items he hshows
  | @lift k ts t hk tighter ih =>
    obtain ⟨u, us, rfl, _, hform, hsign⟩ := tighter.head
    have hcases : k = 0 ∨ 0 < k ∧ k ≤ 6 ∨ k = 7 ∨ k = 8 := by omega
    rcases hcases with rfl | ⟨hpos, hk6⟩ | rfl | rfl
    · exact ih.lift_chain (hform (by omega))
    · exact ih.lift_tier hpos hk6
    · exact ih.lift_suffixed (hsign (by omega))
    · exact ih.lift_primary

end NordLang

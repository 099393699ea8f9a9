import NordLang.Proofs.Grammar.Derivation
import NordLang.Proofs.Reader.Upcoming
import NordLang.Reader.Grammar

/-!
# Reading is sound

What a function of the grammar reads is derived from the tokens it consumes.  There is one lemma per
function.  Each takes as a hypothesis that the reading of inner expressions is sound, and
`expression_sound` discharges it by induction on the number of tokens that remain.

The loops read on from something that has already been read.  Their lemmas say that whatever was
derived before them is extended by the tokens of the loop.
-/

namespace NordLang.Grammar

open Reader Outcome

variable {α : Type} {n : Nat}

/-- Whatever is read is related by `R` to the tokens it was read from. -/
def Sound (R : List Token → α → Prop) (item : Inner n α) : Prop :=
  ∀ {r : Reader} {hr : r.remaining < n} {a : α} {r' : Reader} {hlt : r'.remaining < r.remaining},
    item r hr = .done a r' hlt → ∃ ts, r.Moves ts r' ∧ R ts a

/-- What is read goes on with `left`: its tokens turn every derivation of `left` into one of `t`. -/
def Extends (k : Nat) (r : Reader) (left t : Tree) (r' : Reader) : Prop :=
  ∃ ts, r.Moves ts r' ∧ ∀ us, Derives k us left → Derives k (us ++ ts) t

theorem extends_self {k : Nat} {r r' : Reader} {t : Tree} (h : r.Moves [] r') :
    Extends k r t t r' := by
  refine ⟨[], h, fun us hus => ?_⟩
  rwa [List.append_nil]

theorem Extends.trans {k : Nat} {r r₁ r₂ : Reader} {t u v : Tree} (h : Extends k r t u r₁)
    (h' : Extends k r₁ u v r₂) : Extends k r t v r₂ := by
  obtain ⟨ts, hmove, hts⟩ := h
  obtain ⟨us, hmove', hus⟩ := h'
  refine ⟨ts ++ us, hmove.trans hmove', fun vs hvs => ?_⟩
  rw [← List.append_assoc]
  exact hus _ (hts vs hvs)

theorem eq_of_only_eq_some {kind found : TokenKind} {u : Unit} (h : only kind found = some u) :
    found = kind := by
  unfold only at h
  split at h
  · assumption
  · cases h

/-! ## Items and bodies -/

theorem moreItems_sound {R : List Token → α → Prop} {item : Inner n α} (hitem : Sound R item)
    {separator : TokenKind} {hsep : separator ≠ .endOfInput} {r r' : Reader}
    {hr : r.remaining ≤ n} {as : List α} {hlt : r'.remaining < r.remaining + 1}
    (h : moreItems separator hsep item r hr = .done as r' hlt) :
    ∃ ts, r.Moves ts r' ∧ ∀ us a, R us a → Separated separator R (us ++ ts) (a :: as) := by
  induction hm : r.remaining using Nat.strongRecOn generalizing r as with
  | ind m ih =>
    rw [moreItems] at h
    rcases ifNext_eq_done h with ⟨_, s, r₁, h₁, hs, hmove₁, h⟩ | ⟨r₁, h₁, hmove₁, h⟩
    · obtain ⟨b, r₂, h₂, hb, h⟩ := andThen_eq_done h
      obtain ⟨bs, r₃, h₃, hbs, h⟩ := andThen_eq_done h
      cases h
      obtain ⟨vs, hmove₂, hvs⟩ := hitem hb
      obtain ⟨ws, hmove₃, hws⟩ := ih r₂.remaining (by omega) hbs rfl
      refine ⟨[s] ++ (vs ++ ws), hmove₁.trans (hmove₂.trans hmove₃), fun us a ha => ?_⟩
      exact .more ha (eq_of_only_eq_some hs) (hws vs b hvs)
    · cases h
      refine ⟨[], hmove₁, fun us a ha => ?_⟩
      rw [List.append_nil]
      exact .one ha

theorem items_sound {R : List Token → α → Prop} {item : Inner n α} (hitem : Sound R item)
    {separator : TokenKind} {hsep : separator ≠ .endOfInput} {r r' : Reader}
    {hr : r.remaining < n} {as : List α} {hlt : r'.remaining < r.remaining}
    (h : items separator item r hr hsep = .done as r' hlt) :
    ∃ ts, r.Moves ts r' ∧ Separated separator R ts as := by
  obtain ⟨a, r₁, h₁, ha, h⟩ := andThen_eq_done h
  obtain ⟨bs, r₂, h₂, hbs, h⟩ := andThen_eq_done h
  cases h
  obtain ⟨us, hmove₁, hus⟩ := hitem ha
  obtain ⟨vs, hmove₂, hvs⟩ := moreItems_sound hitem hbs
  exact ⟨us ++ vs, hmove₁.trans hmove₂, hvs us a hus⟩

theorem itemsUntil_sound {R : List Token → α → Prop} {item : Inner n α} (hitem : Sound R item)
    {close : TokenKind} {r r' : Reader} {hr : r.remaining < n} {as : List α}
    {hlt : r'.remaining < r.remaining + 1}
    (h : itemsUntil close item r hr = .done as r' hlt) :
    ∃ ts, r.Moves ts r' ∧ Separated .comma R ts as := by
  obtain ⟨t, r₁, h₁, ht, h⟩ := andThen_eq_done h
  obtain ⟨hmove₁, _⟩ := look_eq_done ht
  split at h
  · cases h
    exact ⟨[], hmove₁, .nil⟩
  · obtain ⟨h₂, h⟩ := mono_eq_done h
    obtain ⟨ts, hmove₂, hts⟩ := items_sound hitem h
    exact ⟨ts, hmove₁.trans hmove₂, hts⟩

section

variable {expr : Inner n Tree} (hexpr : Sound (Derives 0) expr)

include hexpr

theorem body_sound {r r' : Reader} {hr : r.remaining < n} {es : List Tree}
    {hlt : r'.remaining < r.remaining + 1} (h : body expr r hr = .done es r' hlt) :
    ∃ ts, r.Moves ts r' ∧ Separated .semicolon (Derives 0) ts es := by
  obtain ⟨t, r₁, h₁, ht, h⟩ := andThen_eq_done h
  obtain ⟨hmove₁, _⟩ := look_eq_done ht
  split at h
  · obtain ⟨h₂, h⟩ := mono_eq_done h
    obtain ⟨ts, hmove₂, hts⟩ := items_sound hexpr h
    exact ⟨ts, hmove₁.trans hmove₂, hts⟩
  · cases h
    exact ⟨[], hmove₁, .nil⟩

/-- A branch has the place of the token behind the keyword in front of it. -/
theorem bareBlock_none_sound {r r' : Reader} {hr : r.remaining < n} {t : Tree}
    {hlt : r'.remaining < r.remaining + 1} (h : bareBlock none expr r hr = .done t r' hlt) :
    ∃ ts es, r.Moves ts r' ∧ Separated .semicolon (Derives 0) ts es ∧
      ∀ next rest, r'.upcoming = next :: rest → t = .block (bodyLoc ts next) es := by
  obtain ⟨first, r₁, h₁, hfirst, h⟩ := andThen_eq_done h
  obtain ⟨es, r₂, h₂, hes, h⟩ := andThen_eq_done h
  cases h
  obtain ⟨hmove₁, hhead⟩ := look_eq_done hfirst
  obtain ⟨ts, hmove₂, hts⟩ := body_sound hexpr hes
  refine ⟨ts, es, hmove₁.trans hmove₂, hts, fun next rest hnext => ?_⟩
  rw [hmove₂.upcoming_eq, hnext] at hhead
  cases ts with
  | nil =>
    change next = first at hhead
    rw [hhead]
    rfl
  | cons u us =>
    change u = first at hhead
    rw [hhead]
    rfl

/-! ## Forms with a keyword or an opening bracket -/

theorem ifElse_sound {r r' : Reader} {hr : r.remaining ≤ n} {t : Tree}
    {hlt : r'.remaining < r.remaining} (h : ifElse expr r hr = .done t r' hlt) :
    ∃ ts, r.Moves ts r' ∧ Derives 0 ts t := by
  obtain ⟨i, r₁, h₁, hi, h⟩ := andThen_eq_done h
  obtain ⟨cond, r₂, h₂, hcond, h⟩ := andThen_eq_done h
  obtain ⟨th, r₃, h₃, hth, h⟩ := andThen_eq_done h
  obtain ⟨thenBranch, r₄, h₄, hthen, h⟩ := andThen_eq_done h
  obtain ⟨elseBranch, r₅, h₅, helse, h⟩ := andThen_eq_done h
  obtain ⟨e, r₆, h₆, he, h⟩ := andThen_eq_done h
  cases h
  obtain ⟨hi, hmove₁⟩ := require_eq_done hi
  obtain ⟨cs, hmove₂, hcs⟩ := hexpr hcond
  obtain ⟨hth, hmove₃⟩ := require_eq_done hth
  obtain ⟨bs, body, hmove₄, hbs, hthen⟩ := bareBlock_none_sound hexpr hthen
  obtain ⟨he, hmove₆⟩ := require_eq_done he
  rcases ifNext_eq_done helse with ⟨_, el, r₇, h₇, hel, hmove₇, helse⟩ | ⟨r₇, h₇, hmove₇, helse⟩
  · obtain ⟨h₈, helse⟩ := mono_eq_done helse
    obtain ⟨ds, other, hmove₅, hds, helse⟩ := bareBlock_none_sound hexpr helse
    rw [hthen el _ hmove₇.upcoming_eq, helse e _ hmove₆.upcoming_eq]
    have hback := hmove₄.trans (hmove₇.trans (hmove₅.trans hmove₆))
    exact ⟨_, hmove₁.trans (hmove₂.trans (hmove₃.trans hback)),
      .ifThenElse hi hcs hth hbs (eq_of_only_eq_some hel) hds he⟩
  · cases helse
    rw [hthen e _ (hmove₇.trans hmove₆).upcoming_eq]
    have hback := hmove₄.trans (hmove₇.trans hmove₆)
    exact ⟨_, hmove₁.trans (hmove₂.trans (hmove₃.trans hback)), .ifThen hi hcs hth hbs he⟩

theorem letBind_sound {r r' : Reader} {hr : r.remaining ≤ n} {t : Tree}
    {hlt : r'.remaining < r.remaining} (h : letBind expr r hr = .done t r' hlt) :
    ∃ ts, r.Moves ts r' ∧ Derives 0 ts t := by
  obtain ⟨l, r₁, h₁, hl, h⟩ := andThen_eq_done h
  obtain ⟨name, r₂, h₂, hname, h⟩ := andThen_eq_done h
  obtain ⟨eq, r₃, h₃, heq, h⟩ := andThen_eq_done h
  obtain ⟨value, r₄, h₄, hvalue, h⟩ := andThen_eq_done h
  cases h
  obtain ⟨hl, hmove₁⟩ := require_eq_done hl
  obtain ⟨hname, hmove₂⟩ := require_eq_done hname
  obtain ⟨heq, hmove₃⟩ := require_eq_done heq
  obtain ⟨ts, hmove₄, hts⟩ := hexpr hvalue
  exact ⟨_, hmove₁.trans (hmove₂.trans (hmove₃.trans hmove₄)), .letBind hl hname heq hts⟩

theorem array_sound {r r' : Reader} {hr : r.remaining ≤ n} {t : Tree}
    {hlt : r'.remaining < r.remaining} (h : array expr r hr = .done t r' hlt) :
    ∃ ts, r.Moves ts r' ∧ Derives 0 ts t := by
  obtain ⟨o, r₁, h₁, ho, h⟩ := andThen_eq_done h
  obtain ⟨elements, r₂, h₂, helements, h⟩ := andThen_eq_done h
  obtain ⟨c, r₃, h₃, hc, h⟩ := andThen_eq_done h
  cases h
  obtain ⟨ho, hmove₁⟩ := require_eq_done ho
  obtain ⟨ts, hmove₂, hts⟩ := itemsUntil_sound hexpr helements
  obtain ⟨hc, hmove₃⟩ := require_eq_done hc
  exact ⟨_, hmove₁.trans (hmove₂.trans hmove₃), .array ho hts hc⟩

theorem objectField_sound {r r' : Reader} {hr : r.remaining ≤ n} {field : Scalar × Tree}
    {hlt : r'.remaining < r.remaining} (h : objectField expr r hr = .done field r' hlt) :
    ∃ ts, r.Moves ts r' ∧ NamedBy (Derives 0) ts field := by
  obtain ⟨name, r₁, h₁, hname, h⟩ := andThen_eq_done h
  obtain ⟨colon, r₂, h₂, hcolon, h⟩ := andThen_eq_done h
  obtain ⟨value, r₃, h₃, hvalue, h⟩ := andThen_eq_done h
  cases h
  obtain ⟨hname, hmove₁⟩ := require_eq_done hname
  obtain ⟨hcolon, hmove₂⟩ := require_eq_done hcolon
  obtain ⟨ts, hmove₃, hts⟩ := hexpr hvalue
  exact ⟨_, hmove₁.trans (hmove₂.trans hmove₃), .mk hname hcolon hts⟩

theorem object_sound {r r' : Reader} {hr : r.remaining ≤ n} {t : Tree}
    {hlt : r'.remaining < r.remaining} (h : object expr r hr = .done t r' hlt) :
    ∃ ts, r.Moves ts r' ∧ Derives 0 ts t := by
  obtain ⟨hash, r₁, h₁, hhash, h⟩ := andThen_eq_done h
  obtain ⟨o, r₂, h₂, ho, h⟩ := andThen_eq_done h
  obtain ⟨fields, r₃, h₃, hfields, h⟩ := andThen_eq_done h
  obtain ⟨c, r₄, h₄, hc, h⟩ := andThen_eq_done h
  cases h
  obtain ⟨hhash, hmove₁⟩ := require_eq_done hhash
  obtain ⟨ho, hmove₂⟩ := require_eq_done ho
  obtain ⟨ts, hmove₃, hts⟩ := itemsUntil_sound (objectField_sound hexpr) hfields
  obtain ⟨hc, hmove₄⟩ := require_eq_done hc
  exact ⟨_, hmove₁.trans (hmove₂.trans (hmove₃.trans hmove₄)), .object hhash ho hts hc⟩

theorem lambda_sound {r r' : Reader} {hr : r.remaining ≤ n} {t : Tree}
    {hlt : r'.remaining < r.remaining} (h : lambda expr r hr = .done t r' hlt) :
    ∃ ts, r.Moves ts r' ∧ Derives 0 ts t := by
  obtain ⟨f, r₁, h₁, hf, h⟩ := andThen_eq_done h
  obtain ⟨o, r₂, h₂, ho, h⟩ := andThen_eq_done h
  obtain ⟨param, r₃, h₃, hparam, h⟩ := andThen_eq_done h
  obtain ⟨c, r₄, h₄, hc, h⟩ := andThen_eq_done h
  obtain ⟨body, r₅, h₅, hbody, h⟩ := andThen_eq_done h
  cases h
  obtain ⟨hf, hmove₁⟩ := require_eq_done hf
  obtain ⟨ho, hmove₂⟩ := require_eq_done ho
  obtain ⟨hc, hmove₄⟩ := require_eq_done hc
  obtain ⟨ts, hmove₅, hts⟩ := hexpr hbody
  have hback := hmove₄.trans hmove₅
  rcases ifNext_eq_done hparam with ⟨_, p, r₆, h₆, hp, hmove₃, hparam⟩ | ⟨r₆, h₆, hmove₃, hparam⟩
  · cases hparam
    exact ⟨_, hmove₁.trans (hmove₂.trans (hmove₃.trans hback)),
      .lambda hf ho (eq_of_only_eq_some hp) hc hts⟩
  · cases hparam
    exact ⟨_, hmove₁.trans (hmove₂.trans (hmove₃.trans hback)), .lambdaEmpty hf ho hc hts⟩

theorem block_sound {r r' : Reader} {hr : r.remaining ≤ n} {t : Tree}
    {hlt : r'.remaining < r.remaining} (h : block expr r hr = .done t r' hlt) :
    ∃ ts, r.Moves ts r' ∧ Derives 0 ts t := by
  obtain ⟨b, r₁, h₁, hb, h⟩ := andThen_eq_done h
  obtain ⟨tree, r₂, h₂, htree, h⟩ := andThen_eq_done h
  obtain ⟨e, r₃, h₃, he, h⟩ := andThen_eq_done h
  obtain ⟨es, r₄, h₄, hes, htree⟩ := andThen_eq_done htree
  cases h
  cases htree
  obtain ⟨hb, hmove₁⟩ := require_eq_done hb
  obtain ⟨ts, hmove₂, hts⟩ := body_sound hexpr hes
  obtain ⟨he, hmove₃⟩ := require_eq_done he
  exact ⟨_, hmove₁.trans (hmove₂.trans hmove₃), .block hb hts he⟩

/-! ## Operators -/

omit hexpr in
theorem atom_sound {kind : TokenKind} {hkind : kind ≠ .endOfInput} {what : String} {r r' : Reader}
    {node : Token → Tree} {t : Tree} {m : Nat}
    {hm : ∀ r₁ : Reader, r₁.remaining < r.remaining → r₁.remaining < m}
    {hlt : r'.remaining < m} (hnode : ∀ {v : Token}, v.kind = kind → Derives 9 [v] (node v))
    (h : ((r.require kind what hkind).andThen fun v r₁ h₁ => .done (node v) r₁ (hm r₁ h₁)) =
      .done t r' hlt) : ∃ ts, r.Moves ts r' ∧ Derives 9 ts t := by
  obtain ⟨v, r₁, h₁, hv, h⟩ := andThen_eq_done h
  cases h
  obtain ⟨hv, hmove⟩ := require_eq_done hv
  exact ⟨[v], hmove, hnode hv⟩

theorem primary_sound {r r' : Reader} {hr : r.remaining ≤ n} {t : Tree}
    {hlt : r'.remaining < r.remaining} (h : primary expr r hr = .done t r' hlt) :
    ∃ ts, r.Moves ts r' ∧ Derives 9 ts t := by
  obtain ⟨u, r₁, h₁, hu, h⟩ := andThen_eq_done h
  obtain ⟨hmove₁, _⟩ := look_eq_done hu
  suffices hread : ∃ ts, r₁.Moves ts r' ∧ Derives 9 ts t by
    obtain ⟨ts, hmove₂, hts⟩ := hread
    exact ⟨_, hmove₁.trans hmove₂, hts⟩
  split at h
  · exact atom_sound .num h
  · exact atom_sound .boolean h
  · exact atom_sound .string h
  · exact atom_sound .identifier h
  · obtain ⟨o, r₂, h₂, ho, h⟩ := andThen_eq_done h
    obtain ⟨tree, r₃, h₃, htree, h⟩ := andThen_eq_done h
    obtain ⟨c, r₄, h₄, hc, h⟩ := andThen_eq_done h
    cases h
    obtain ⟨ho, hmove₂⟩ := require_eq_done ho
    obtain ⟨ts, hmove₃, hts⟩ := hexpr htree
    obtain ⟨hc, hmove₄⟩ := require_eq_done hc
    exact ⟨_, hmove₂.trans (hmove₃.trans hmove₄), .group ho hts hc⟩
  · cases h

theorem call_sound {callee : Tree} {r r' : Reader} {hr : r.remaining ≤ n} {t : Tree}
    {hlt : r'.remaining < r.remaining} (h : call callee expr r hr = .done t r' hlt) :
    Extends 8 r callee t r' := by
  obtain ⟨o, r₁, h₁, ho, h⟩ := andThen_eq_done h
  obtain ⟨arg, r₂, h₂, harg, h⟩ := andThen_eq_done h
  obtain ⟨c, r₃, h₃, hc, h⟩ := andThen_eq_done h
  obtain ⟨u, r₄, h₄, hu, harg⟩ := andThen_eq_done harg
  cases h
  obtain ⟨ho, hmove₁⟩ := require_eq_done ho
  obtain ⟨hmove₄, _⟩ := look_eq_done hu
  obtain ⟨hc, hmove₃⟩ := require_eq_done hc
  split at harg
  · cases harg
    exact ⟨_, hmove₁.trans (hmove₄.trans hmove₃), fun us hus => .callEmpty hus ho hc⟩
  · obtain ⟨h₅, harg⟩ := mono_eq_done harg
    obtain ⟨ts, hmove₂, hts⟩ := hexpr harg
    exact ⟨_, hmove₁.trans (hmove₄.trans (hmove₂.trans hmove₃)),
      fun us hus => .call hus ho hts hc⟩

theorem index_sound {callee : Tree} {r r' : Reader} {hr : r.remaining ≤ n} {t : Tree}
    {hlt : r'.remaining < r.remaining} (h : index callee expr r hr = .done t r' hlt) :
    Extends 8 r callee t r' := by
  obtain ⟨o, r₁, h₁, ho, h⟩ := andThen_eq_done h
  obtain ⟨key, r₂, h₂, hkey, h⟩ := andThen_eq_done h
  obtain ⟨c, r₃, h₃, hc, h⟩ := andThen_eq_done h
  cases h
  obtain ⟨ho, hmove₁⟩ := require_eq_done ho
  obtain ⟨ts, hmove₂, hts⟩ := hexpr hkey
  obtain ⟨hc, hmove₃⟩ := require_eq_done hc
  exact ⟨_, hmove₁.trans (hmove₂.trans hmove₃), fun us hus => .index hus ho hts hc⟩

omit hexpr in
theorem member_sound {callee : Tree} {r r' : Reader} {t : Tree}
    {hlt : r'.remaining < r.remaining} (h : member callee r = .done t r' hlt) :
    Extends 8 r callee t r' := by
  obtain ⟨dot, r₁, h₁, hdot, h⟩ := andThen_eq_done h
  obtain ⟨field, r₂, h₂, hfield, h⟩ := andThen_eq_done h
  cases h
  obtain ⟨hdot, hmove₁⟩ := require_eq_done hdot
  obtain ⟨hfield, hmove₂⟩ := require_eq_done hfield
  exact ⟨_, hmove₁.trans hmove₂, fun us hus => .member hus hdot hfield⟩

theorem suffixes_sound {callee : Tree} {r r' : Reader} {hr : r.remaining ≤ n} {t : Tree}
    {hlt : r'.remaining < r.remaining + 1} (h : suffixes callee expr r hr = .done t r' hlt) :
    Extends 8 r callee t r' := by
  induction hm : r.remaining using Nat.strongRecOn generalizing r callee with
  | ind m ih =>
    rw [suffixes] at h
    obtain ⟨u, r₁, h₁, hu, h⟩ := andThen_eq_done h
    obtain ⟨hmove₁, _⟩ := look_eq_done hu
    -- One suffix is read, and the loop goes on behind it.
    refine (extends_self hmove₁).trans ?_
    split at h
    · obtain ⟨tree, r₂, h₂, hcall, h⟩ := andThen_eq_done h
      obtain ⟨h₃, h⟩ := mono_eq_done h
      exact (call_sound hexpr hcall).trans (ih r₂.remaining (by omega) h rfl)
    · obtain ⟨tree, r₂, h₂, hindex, h⟩ := andThen_eq_done h
      obtain ⟨h₃, h⟩ := mono_eq_done h
      exact (index_sound hexpr hindex).trans (ih r₂.remaining (by omega) h rfl)
    · obtain ⟨tree, r₂, h₂, hmember, h⟩ := andThen_eq_done h
      obtain ⟨h₃, h⟩ := mono_eq_done h
      exact (member_sound hmember).trans (ih r₂.remaining (by omega) h rfl)
    · cases h
      exact extends_self (shows_self _)

theorem suffixed_sound {r r' : Reader} {hr : r.remaining ≤ n} {t : Tree}
    {hlt : r'.remaining < r.remaining} (h : suffixed expr r hr = .done t r' hlt) :
    ∃ ts, r.Moves ts r' ∧ Derives 8 ts t := by
  obtain ⟨tree, r₁, h₁, htree, h⟩ := andThen_eq_done h
  obtain ⟨h₂, h⟩ := mono_eq_done h
  obtain ⟨ts, hmove₁, hts⟩ := primary_sound hexpr htree
  obtain ⟨us, hmove₂, hus⟩ := suffixes_sound hexpr h
  exact ⟨ts ++ us, hmove₁.trans hmove₂, hus ts (.lift (by omega) hts)⟩

theorem unary_sound {r r' : Reader} {hr : r.remaining ≤ n} {t : Tree}
    {hlt : r'.remaining < r.remaining} (h : unary expr r hr = .done t r' hlt) :
    ∃ ts, r.Moves ts r' ∧ Derives 7 ts t := by
  induction hm : r.remaining using Nat.strongRecOn generalizing r t with
  | ind m ih =>
    rw [unary] at h
    rcases ifNext_eq_done h with ⟨op, o, r₁, h₁, ho, hmove₁, h⟩ | ⟨r₁, h₁, hmove₁, h⟩
    · obtain ⟨operand, r₂, h₂, hoperand, h⟩ := andThen_eq_done h
      cases h
      obtain ⟨ts, hmove₂, hts⟩ := ih r₁.remaining (by omega) hoperand rfl
      exact ⟨_, hmove₁.trans hmove₂, .unary (Operator.mem_unaries.2 ho) hts⟩
    · obtain ⟨h₂, h⟩ := mono_eq_done h
      obtain ⟨ts, hmove₂, hts⟩ := suffixed_sound hexpr h
      exact ⟨_, hmove₁.trans hmove₂, .lift (by omega) hts⟩

end

theorem ofTier?_eq_some {tier : Nat} {kind : TokenKind} {op : Operator}
    (h : Operator.ofTier? tier kind = some op) : (tier, kind, op) ∈ Operator.binaries := by
  have hfound := List.find?_some h
  simp only [Bool.and_eq_true, beq_iff_eq] at hfound
  exact Operator.mem_binaries.2 hfound.symm

theorem chain_sound {tier : Nat}
    {operand : (r : Reader) → r.remaining ≤ n → Outcome r.remaining Tree}
    (hoperand : ∀ {r hr t r' hlt}, operand r hr = .done t r' hlt →
      ∃ ts, r.Moves ts r' ∧ Derives (tier + 1) ts t)
    {left : Tree} {r r' : Reader} {hr : r.remaining ≤ n} {t : Tree}
    {hlt : r'.remaining < r.remaining + 1} (h : chain tier operand left r hr = .done t r' hlt) :
    Extends tier r left t r' := by
  induction hm : r.remaining using Nat.strongRecOn generalizing r left with
  | ind m ih =>
    rw [chain] at h
    rcases ifNext_eq_done h with ⟨op, o, r₁, h₁, hop, hmove₁, h⟩ | ⟨r₁, h₁, hmove₁, h⟩
    · obtain ⟨right, r₂, h₂, hright, h⟩ := andThen_eq_done h
      obtain ⟨h₃, h⟩ := mono_eq_done h
      obtain ⟨vs, hmove₂, hvs⟩ := hoperand hright
      have hround : Extends tier r left (.binary o.loc left (some op) right) r₂ :=
        ⟨_, hmove₁.trans hmove₂, fun us hus => .binary (ofTier?_eq_some hop) hus hvs⟩
      exact hround.trans (ih r₂.remaining (by omega) h rfl)
    · cases h
      exact extends_self hmove₁

theorem binary_sound {expr : Inner n Tree} (hexpr : Sound (Derives 0) expr) {k : Nat}
    (hk : k ≤ tiers) {r r' : Reader} {hr : r.remaining ≤ n} {t : Tree}
    {hlt : r'.remaining < r.remaining} (h : binary expr k r hr = .done t r' hlt) :
    ∃ ts, r.Moves ts r' ∧ Derives (7 - k) ts t := by
  induction k generalizing r r' t with
  | zero => exact unary_sound hexpr h
  | succ k ih =>
    obtain ⟨left, r₁, h₁, hleft, h⟩ := andThen_eq_done h
    obtain ⟨h₂, h⟩ := mono_eq_done h
    have htier : 7 - k = tiers - k + 1 := by
      change k + 1 ≤ 6 at hk
      change 7 - k = 6 - k + 1
      omega
    have hlevel : 7 - (k + 1) = tiers - k := by omega
    rw [htier] at ih
    obtain ⟨ts, hmove₁, hts⟩ := ih (by omega) hleft
    obtain ⟨us, hmove₂, hus⟩ := chain_sound (fun h => ih (by omega) h) h
    rw [hlevel]
    refine ⟨ts ++ us, hmove₁.trans hmove₂, hus ts (.lift ?_ hts)⟩
    change 6 - k < 9
    omega

/-! ## Full expressions -/

theorem fullExpression_sound {expr : Inner n Tree} (hexpr : Sound (Derives 0) expr)
    {r r' : Reader} {hr : r.remaining ≤ n} {t : Tree} {hlt : r'.remaining < r.remaining}
    (h : fullExpression expr r hr = .done t r' hlt) : ∃ ts, r.Moves ts r' ∧ Derives 0 ts t := by
  obtain ⟨u, r₁, h₁, hu, h⟩ := andThen_eq_done h
  obtain ⟨hmove₁, _⟩ := look_eq_done hu
  obtain ⟨h₂, h⟩ := mono_eq_done h
  suffices hread : ∃ ts, r₁.Moves ts r' ∧ Derives 0 ts t by
    obtain ⟨ts, hmove₂, hts⟩ := hread
    exact ⟨_, hmove₁.trans hmove₂, hts⟩
  split at h
  · exact ifElse_sound hexpr h
  · exact letBind_sound hexpr h
  · exact array_sound hexpr h
  · exact object_sound hexpr h
  · exact lambda_sound hexpr h
  · exact block_sound hexpr h
  · obtain ⟨ts, hmove₂, hts⟩ := binary_sound hexpr (Nat.le_refl tiers) h
    exact ⟨ts, hmove₂, .lift (by omega) hts⟩

theorem expression_sound {r r' : Reader} {t : Tree} {hlt : r'.remaining < r.remaining}
    (h : expression r = .done t r' hlt) : ∃ ts, r.Moves ts r' ∧ Derives 0 ts t := by
  induction hm : r.remaining using Nat.strongRecOn generalizing r r' t with
  | ind m ih =>
    rw [expression] at h
    refine fullExpression_sound ?_ h
    intro r₁ hr₁ t₁ r₂ hlt₁ h₁
    exact ih r₁.remaining (by omega) h₁ rfl

end NordLang.Grammar

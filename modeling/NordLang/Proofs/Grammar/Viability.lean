import NordLang.Proofs.Grammar.Lookahead
import NordLang.Proofs.Grammar.Soundness

/-!
# Reading never goes astray

Whenever a function of the grammar fails, what it has consumed up to there is the beginning of
something that it reads.  So a fault is noticed at the first token that cannot be right.

* `Attains P r o` says of a run from `r` that the tokens it consumed satisfy `P` if it succeeds, and
  that they can be completed to tokens that satisfy `P` if it fails.
* `Guided P` says so for a family of runs, and that there are tokens which satisfy `P` at all.  Put
  together step by step (`Guided.andThen`), a later step thereby provides the completion for the
  failure of an earlier one.
* There is one lemma per function of the grammar, up to `whole_guided`.
-/

namespace NordLang

/-- The tokens derive some tree. -/
def Derivable (k : Nat) (ts : List Token) : Prop :=
  ∃ t, Derives k ts t

theorem Derivable.lift {k : Nat} {ts : List Token} (h : Derivable (k + 1) ts) (hk : k < 9) :
    Derivable k ts := by
  obtain ⟨t, ht⟩ := h
  exact ⟨t, .lift hk ht⟩

/-- A token of the given kind. -/
def Token.sample (kind : TokenKind) : Token :=
  ⟨kind, .text "", ⟨1, 1⟩, 0, 0⟩

theorem derivable_sample {k : Nat} (hk : k ≤ 9) : Derivable k [Token.sample .identifier] :=
  ⟨_, Derives.mono (.identifier rfl) hk (Nat.le_refl 9)⟩

namespace Reader

variable {α β : Type} {n : Nat}

structure Attains (P : List Token → Prop) (r : Reader) (o : Outcome n α) : Prop where
  done : ∀ a s hs, o = .done a s hs → ∃ ts, r.Moves ts s ∧ P ts
  failed : ∀ fault s, o = .failed fault s → ∃ ts us, r.upcoming = ts ++ s.upcoming ∧ P (ts ++ us)

structure Guided {ι : Type} {ns : ι → Nat} (P : List Token → Prop) (rs : ι → Reader)
    (os : (i : ι) → Outcome (ns i) α) : Prop where
  fill : ∃ us, P us
  attains : ∀ i, Attains P (rs i) (os i)

section

variable {ι : Type} {ms ns : ι → Nat} {P Q : List Token → Prop} {rs : ι → Reader}

theorem Attains.imp {r : Reader} {o : Outcome n α} (h : Attains P r o) (hPQ : ∀ ts, P ts → Q ts) :
    Attains Q r o where
  done a s hs ho := by
    obtain ⟨ts, hmove, hts⟩ := h.done a s hs ho
    exact ⟨ts, hmove, hPQ ts hts⟩
  failed fault s ho := by
    obtain ⟨ts, us, hup, hts⟩ := h.failed fault s ho
    exact ⟨ts, us, hup, hPQ _ hts⟩

/-- The tokens on the way to a run count as consumed by it. -/
theorem Attains.behind {r s : Reader} {o : Outcome n α} {ts : List Token}
    (h : Attains (fun us => P (ts ++ us)) s o) (hmove : r.Moves ts s) : Attains P r o where
  done a s' hs ho := by
    obtain ⟨us, hmove', hus⟩ := h.done a s' hs ho
    exact ⟨ts ++ us, hmove.trans hmove', hus⟩
  failed fault s' ho := by
    obtain ⟨us, vs, hup, hus⟩ := h.failed fault s' ho
    refine ⟨ts ++ us, vs, ?_, ?_⟩
    · rw [hmove.upcoming_eq, hup, List.append_assoc]
    · rwa [List.append_assoc]

theorem Guided.imp {os : (i : ι) → Outcome (ns i) α} (h : Guided P rs os)
    (hPQ : ∀ ts, P ts → Q ts) : Guided Q rs os where
  fill := by
    obtain ⟨us, hus⟩ := h.fill
    exact ⟨us, hPQ us hus⟩
  attains i := (h.attains i).imp hPQ

theorem attains_done {r s : Reader} {a : α} {hs : s.remaining < n} {ts : List Token}
    (hmove : r.Moves ts s) (h : P ts) : Attains P r (.done a s hs) where
  done b s' hs' ho := by
    cases ho
    exact ⟨ts, hmove, h⟩
  failed fault s' ho := by cases ho

theorem attains_failed {r s : Reader} {fault : ParseFault} (hup : r.upcoming = s.upcoming)
    (h : ∃ us, P us) : Attains P r (.failed fault s : Outcome n α) where
  done b s' hs' ho := by cases ho
  failed fault' s' ho := by
    cases ho
    obtain ⟨us, hus⟩ := h
    exact ⟨[], us, hup, hus⟩

theorem guided_done {a : (i : ι) → α} {hs : ∀ i, (rs i).remaining < ns i} (h : P []) :
    Guided P rs (fun i => .done (a i) (rs i) (hs i)) :=
  ⟨⟨[], h⟩, fun i => attains_done (.refl (rs i)) h⟩

theorem guided_failed {fault : ParseFault} (h : ∃ us, P us) :
    Guided P rs (fun i => (.failed fault (rs i) : Outcome (ns i) α)) :=
  ⟨h, fun _ => attains_failed rfl h⟩

/-- One run is a family. -/
theorem attains_of_guided {r : Reader} {o : Outcome n α}
    (h : Guided P (fun _ : Unit => r) (fun _ => o)) : Attains P r o :=
  h.attains ()

theorem Guided.mono {os : (i : ι) → Outcome (ms i) α} (h : Guided P rs os)
    {hms : ∀ i, ms i ≤ ns i} : Guided P rs (fun i => (os i).mono (hms i)) where
  fill := h.fill
  attains i := by
    obtain ⟨hdone, hfailed⟩ := h.attains i
    rcases hi : os i with ⟨a, s, hs⟩ | ⟨fault, s⟩
    · obtain ⟨ts, hmove, hts⟩ := hdone a s hs hi
      exact attains_done hmove hts
    · refine ⟨fun b s' hs' ho => (by cases ho), fun fault' s' ho => ?_⟩
      cases ho
      exact hfailed fault s hi

/-- One step and what follows it.  Tokens that complete the step are completed in turn by those of
what follows. -/
theorem Guided.andThen {os : (i : ι) → Outcome (ms i) α}
    {fs : (i : ι) → α → (s : Reader) → s.remaining < ms i → Outcome (ns i) β}
    (h : Guided Q rs os)
    (hf : ∀ ts a, Q ts → Guided (fun us => P (ts ++ us)) (fun x : Later ms => x.2.1)
      (fun x => fs x.1 a x.2.1 x.2.2)) [Inhabited α] :
    Guided P rs (fun i => (os i).andThen (fs i)) where
  fill := by
    obtain ⟨ts, hts⟩ := h.fill
    obtain ⟨us, hus⟩ := (hf ts default hts).fill
    exact ⟨ts ++ us, hus⟩
  attains i := by
    obtain ⟨hdone, hfailed⟩ := h.attains i
    rcases hi : os i with ⟨a, s, hs⟩ | ⟨fault, s⟩
    · obtain ⟨ts, hmove, hts⟩ := hdone a s hs hi
      exact ((hf ts a hts).attains ⟨i, s, hs⟩).behind hmove
    · refine ⟨fun b s' hs' ho => (by cases ho), fun fault' s' ho => ?_⟩
      cases ho
      obtain ⟨ts, us, hup, hts⟩ := hfailed fault s hi
      obtain ⟨vs, hvs⟩ := (hf _ default hts).fill
      refine ⟨ts, us ++ vs, hup, ?_⟩
      rwa [← List.append_assoc]

theorem guided_look_andThen
    {fs : (i : ι) → Token → (s : Reader) → s.remaining < (rs i).remaining + 1 → Outcome (ns i) β}
    (hf : ∀ t, Guided P (fun x : Later fun i => (rs i).remaining + 1 => x.2.1)
      (fun x => fs x.1 t x.2.1 x.2.2)) :
    Guided P rs (fun i => (rs i).look.andThen (fs i)) := by
  have hlook : Guided (fun us => us = []) rs (fun i => (rs i).look) := by
    refine ⟨⟨[], rfl⟩, fun i => ?_⟩
    rcases hcurrent : (rs i).current with ⟨fault | t, s⟩
    · rw [look_of_fault hcurrent]
      exact attains_failed (upcoming_of_fault hcurrent) ⟨[], rfl⟩
    · rw [look_of_current hcurrent]
      exact attains_done (current_eq_ok hcurrent).1 rfl
  refine hlook.andThen fun ts t hts => ?_
  subst hts
  exact hf t

theorem guided_require_andThen {kind : TokenKind} {what : String} {hkind : kind ≠ .endOfInput}
    {fs : (i : ι) → Token → (s : Reader) → s.remaining < (rs i).remaining → Outcome (ns i) β}
    (hf : ∀ t u, u.kind = kind →
      Guided (fun us => P (u :: us)) (fun x : Later fun i => (rs i).remaining => x.2.1)
        (fun x => fs x.1 t x.2.1 x.2.2)) :
    Guided P rs (fun i => ((rs i).require kind what hkind).andThen (fs i)) := by
  have hrequire : Guided (fun us => ∃ u : Token, u.kind = kind ∧ us = [u]) rs
      (fun i => (rs i).require kind what hkind) := by
    have hfill : ∃ us, ∃ u : Token, u.kind = kind ∧ us = [u] := ⟨_, .sample kind, rfl, rfl⟩
    refine ⟨hfill, fun i => ?_⟩
    rcases hcurrent : (rs i).current with ⟨fault | t, s⟩
    · rw [require_of_fault hcurrent]
      exact attains_failed (upcoming_of_fault hcurrent) hfill
    · obtain ⟨hlook, _, hconsume⟩ := current_eq_ok hcurrent
      by_cases ht : t.kind = kind
      · rw [require_of_kind hcurrent ht]
        exact attains_done (hconsume (Token.isEnd_eq_false (ht ▸ hkind))) ⟨t, ht, rfl⟩
      · rw [require_of_not_kind hcurrent ht]
        exact attains_failed hlook.upcoming_eq hfill
  refine hrequire.andThen fun ts t hts => ?_
  obtain ⟨u, hu, rfl⟩ := hts
  exact hf t u hu

theorem guided_ifNext {f : TokenKind → Option α} {hf : f .endOfInput = none}
    {yess : (i : ι) → α → Token → (s : Reader) → s.remaining < (rs i).remaining → Outcome (ns i) β}
    {nos : (i : ι) → (s : Reader) → s.remaining ≤ (rs i).remaining → Outcome (ns i) β}
    (hyes : ∀ a t, f t.kind = some a →
      Guided (fun us => P (t :: us)) (fun x : Later fun i => (rs i).remaining => x.2.1)
        (fun x => yess x.1 a t x.2.1 x.2.2))
    (hno : Guided P (fun x : (i : ι) × { s : Reader // s.remaining ≤ (rs i).remaining } => x.2.1)
      (fun x => nos x.1 x.2.1 x.2.2)) :
    Guided P rs (fun i => (rs i).ifNext f hf (yess i) (nos i)) where
  fill := hno.fill
  attains i := by
    rcases hcurrent : (rs i).current with ⟨fault | t, s⟩
    · rw [ifNext_of_fault hcurrent]
      exact attains_failed (upcoming_of_fault hcurrent) hno.fill
    · obtain ⟨hlook, _, hconsume⟩ := current_eq_ok hcurrent
      rcases ha : f t.kind with _ | a
      · rw [ifNext_of_current_none hcurrent ha]
        exact (hno.attains ⟨i, s, remaining_current_le hcurrent⟩).behind hlook
      · have hkind := ne_endOfInput_of_eq_some hf ha
        rw [ifNext_of_current_some hcurrent ha]
        have hattains : Attains (fun us => P ([t] ++ us)) (s.consume t) _ :=
          (hyes a t ha).attains ⟨i, s.consume t, remaining_consume_lt hcurrent hkind⟩
        exact hattains.behind (hconsume (Token.isEnd_eq_false hkind))

end

end Reader

namespace Grammar

open Reader

variable {α : Type}

section

variable {ι : Type} {ns : ι → Nat} {rs : ι → Reader}

/-- The items after the first one. -/
def Continues (separator : TokenKind) (R : List Token → α → Prop) (us : List Token) : Prop :=
  ∀ ts a, R ts a → ∃ as, Separated separator R (ts ++ us) (a :: as)

theorem continues_nil {separator : TokenKind} {R : List Token → α → Prop} :
    Continues separator R [] := by
  intro ts a ha
  rw [List.append_nil]
  exact ⟨[], .one ha⟩

theorem Continues.cons {separator : TokenKind} {R : List Token → α → Prop} {s : Token}
    {ts us : List Token} {a : α} (hs : s.kind = separator) (ha : R ts a)
    (h : Continues separator R us) : Continues separator R (s :: (ts ++ us)) := by
  intro vs b hb
  obtain ⟨as, has⟩ := h ts a ha
  exact ⟨a :: as, .more hb hs has⟩

/-- The reading of an item consumes tokens of an item or the beginning of such tokens. -/
def GuidedItem (R : List Token → α → Prop) (item : (i : ι) → Inner (ns i) α) : Prop :=
  Guided (fun us => ∃ a, R us a) (fun x : Later ns => x.2.1) (fun x => item x.1 x.2.1 x.2.2)

variable {R : List Token → α → Prop} {item : (i : ι) → Inner (ns i) α}

theorem GuidedItem.reindex (h : GuidedItem R item) {κ : Type} (g : κ → ι) :
    GuidedItem R (fun k => item (g k)) :=
  ⟨h.fill, fun x => h.attains ⟨g x.1, x.2⟩⟩

theorem GuidedItem.guided (h : GuidedItem R item) {hrs : ∀ i, (rs i).remaining < ns i} :
    Guided (fun us => ∃ a, R us a) rs (fun i => item i (rs i) (hrs i)) :=
  ⟨h.fill, fun i => h.attains ⟨i, rs i, hrs i⟩⟩

variable [Inhabited α]

theorem moreItems_guided (hitem : GuidedItem R item) {separator : TokenKind}
    {hsep : separator ≠ .endOfInput} {hrs : ∀ i, (rs i).remaining ≤ ns i} :
    Guided (Continues separator R) rs
      (fun i => moreItems separator hsep (item i) (rs i) (hrs i)) := by
  refine ⟨⟨[], continues_nil⟩, fun i => ?_⟩
  generalize rs i = r, hrs i = hr
  obtain ⟨m, hm⟩ : ∃ m, r.remaining = m := ⟨_, rfl⟩
  induction m using Nat.strongRecOn generalizing r with
  | ind m ih =>
    rw [moreItems]
    refine attains_of_guided (guided_ifNext (fun _ s hs => ?_) (guided_done continues_nil))
    refine (hitem.reindex _).guided.andThen fun ts a hts => ?_
    obtain ⟨b, hb⟩ := hts
    refine Guided.andThen (Q := Continues separator R) ⟨⟨[], continues_nil⟩, fun x => ?_⟩
      fun us as hus => guided_done ?_
    · exact ih x.2.1.remaining (hm ▸ Nat.lt_trans x.2.2 x.1.2.2) _ _ rfl
    · rw [List.append_nil]
      exact hus.cons (eq_of_only_eq_some hs) hb

theorem items_guided (hitem : GuidedItem R item) {separator : TokenKind}
    {hsep : separator ≠ .endOfInput} {hrs : ∀ i, (rs i).remaining < ns i} :
    Guided (fun us => ∃ as, Separated separator R us as) rs
      (fun i => items separator (item i) (rs i) (hrs i) hsep) := by
  refine hitem.guided.andThen fun ts a hts => ?_
  obtain ⟨b, hb⟩ := hts
  refine (moreItems_guided (hitem.reindex _)).andThen fun us as hus => guided_done ?_
  obtain ⟨bs, hbs⟩ := hus ts b hb
  rw [List.append_nil]
  exact ⟨b :: bs, hbs⟩

theorem itemsUntil_guided (hitem : GuidedItem R item) {close : TokenKind}
    {hrs : ∀ i, (rs i).remaining < ns i} :
    Guided (fun us => ∃ as, Separated .comma R us as) rs
      (fun i => itemsUntil close (item i) (rs i) (hrs i)) := by
  refine guided_look_andThen fun t => ?_
  by_cases ht : t.kind = close
  · simp only [if_pos ht]
    exact guided_done ⟨[], .nil⟩
  · simp only [if_neg ht]
    exact (items_guided (hitem.reindex _)).mono

end

/-- The tokens may follow whatever is derived at level `k`. -/
def Extending (k : Nat) (us : List Token) : Prop :=
  ∀ ts, Derivable k ts → Derivable k (ts ++ us)

theorem extending_nil {k : Nat} : Extending k [] := by
  intro ts hts
  rwa [List.append_nil]

theorem Extending.append {k : Nat} {us vs : List Token} (hus : Extending k us)
    (hvs : Extending k vs) : Extending k (us ++ vs) := by
  intro ts hts
  rw [← List.append_assoc]
  exact hvs _ (hus ts hts)

section

variable {ι : Type} {ms ns : ι → Nat} {rs : ι → Reader}

/-- One round of a loop: a further operand or suffix is read, and the loop goes on behind it. -/
theorem guided_round {k : Nat} {us : List Token} (hus : Extending k us)
    {os : (i : ι) → Outcome (ms i) Tree} (h : ∀ i, Attains (Extending k) (rs i) (os i))
    {hms : ∀ i, ms i ≤ ns i} :
    Guided (fun vs => Extending k (us ++ vs)) rs (fun i => (os i).mono (hms i)) := by
  have hrest : Guided (Extending k) rs os := ⟨⟨[], extending_nil⟩, h⟩
  exact hrest.mono.imp fun vs => hus.append

end

section

variable {ι : Type} {ns : ι → Nat} {rs : ι → Reader} {expr : (i : ι) → Inner (ns i) Tree}
  (hexpr : GuidedItem (Derives 0) expr)

include hexpr

theorem body_guided {hrs : ∀ i, (rs i).remaining < ns i} :
    Guided (fun us => ∃ es, Separated .semicolon (Derives 0) us es) rs
      (fun i => body (expr i) (rs i) (hrs i)) := by
  refine guided_look_andThen fun t => ?_
  by_cases ht : t.kind.startsExpression = true
  · simp only [if_pos ht]
    exact (items_guided (hexpr.reindex _)).mono
  · simp only [if_neg ht]
    exact guided_done ⟨[], .nil⟩

theorem bareBlock_guided {opener : Option Token} {hrs : ∀ i, (rs i).remaining < ns i} :
    Guided (fun us => ∃ es, Separated .semicolon (Derives 0) us es) rs
      (fun i => bareBlock opener (expr i) (rs i) (hrs i)) := by
  cases opener with
  | some t =>
    refine (body_guided hexpr).andThen fun ts es hts => guided_done ?_
    rwa [List.append_nil]
  | none =>
    refine guided_look_andThen fun t => ?_
    refine (body_guided (hexpr.reindex _)).andThen fun ts es hts => guided_done ?_
    rwa [List.append_nil]

theorem ifElse_guided {hrs : ∀ i, (rs i).remaining ≤ ns i} :
    Guided (Derivable 0) rs (fun i => ifElse (expr i) (rs i) (hrs i)) := by
  refine guided_require_andThen fun _ i hi => ?_
  refine (hexpr.reindex _).guided.andThen fun cs _ hcs => ?_
  refine guided_require_andThen fun _ th hth => ?_
  refine (bareBlock_guided (hexpr.reindex _)).andThen fun bs _ hbs => ?_
  obtain ⟨cond, hcs⟩ := hcs
  obtain ⟨body, hbs⟩ := hbs
  refine Guided.andThen (Q := fun us => us = [] ∨ ∃ el ds other, us = el :: ds ∧
      el.kind = .elseKw ∧ Separated .semicolon (Derives 0) ds other)
    (guided_ifNext (fun _ el hel => ?_) (guided_done (.inl rfl))) fun us _ hus => ?_
  · refine (bareBlock_guided (hexpr.reindex _)).mono.imp fun ds hds => ?_
    obtain ⟨other, hds⟩ := hds
    exact .inr ⟨el, ds, other, rfl, eq_of_only_eq_some hel, hds⟩
  · refine guided_require_andThen fun _ e he => guided_done ?_
    rcases hus with rfl | ⟨el, ds, other, rfl, hel, hds⟩
    · exact ⟨_, .ifThen hi hcs hth hbs he⟩
    · exact ⟨_, .ifThenElse hi hcs hth hbs hel hds he⟩

theorem letBind_guided {hrs : ∀ i, (rs i).remaining ≤ ns i} :
    Guided (Derivable 0) rs (fun i => letBind (expr i) (rs i) (hrs i)) := by
  refine guided_require_andThen fun _ l hl => ?_
  refine guided_require_andThen fun _ name hname => ?_
  refine guided_require_andThen fun _ eq heq => ?_
  refine (hexpr.reindex _).guided.andThen fun ts _ hts => guided_done ?_
  obtain ⟨value, hts⟩ := hts
  rw [List.append_nil]
  exact ⟨_, .letBind hl hname heq hts⟩

theorem array_guided {hrs : ∀ i, (rs i).remaining ≤ ns i} :
    Guided (Derivable 0) rs (fun i => array (expr i) (rs i) (hrs i)) := by
  refine guided_require_andThen fun _ o ho => ?_
  refine (itemsUntil_guided (hexpr.reindex _)).andThen fun ts _ hts => ?_
  refine guided_require_andThen fun _ c hc => guided_done ?_
  obtain ⟨elements, hts⟩ := hts
  exact ⟨_, .array ho hts hc⟩

theorem objectField_guided {hrs : ∀ i, (rs i).remaining ≤ ns i} :
    Guided (fun us => ∃ field, NamedBy (Derives 0) us field) rs
      (fun i => objectField (expr i) (rs i) (hrs i)) := by
  refine guided_require_andThen fun _ name hname => ?_
  refine guided_require_andThen fun _ colon hcolon => ?_
  refine (hexpr.reindex _).guided.andThen fun ts _ hts => guided_done ?_
  obtain ⟨value, hts⟩ := hts
  rw [List.append_nil]
  exact ⟨_, .mk hname hcolon hts⟩

theorem object_guided {hrs : ∀ i, (rs i).remaining ≤ ns i} :
    Guided (Derivable 0) rs (fun i => object (expr i) (rs i) (hrs i)) := by
  refine guided_require_andThen fun _ hash hhash => ?_
  refine guided_require_andThen fun _ o ho => ?_
  have hfield : GuidedItem (NamedBy (Derives 0))
      (fun i r (h : r.remaining < ns i) => objectField (expr i) r (Nat.le_of_lt h)) :=
    objectField_guided (hexpr.reindex _)
  refine (itemsUntil_guided (hfield.reindex _)).andThen fun ts _ hts => ?_
  refine guided_require_andThen fun _ c hc => guided_done ?_
  obtain ⟨fields, hts⟩ := hts
  exact ⟨_, .object hhash ho hts hc⟩

theorem lambda_guided {hrs : ∀ i, (rs i).remaining ≤ ns i} :
    Guided (Derivable 0) rs (fun i => lambda (expr i) (rs i) (hrs i)) := by
  refine guided_require_andThen fun _ f hf => ?_
  refine guided_require_andThen fun _ o ho => ?_
  refine Guided.andThen (Q := fun us => us = [] ∨ ∃ param : Token, us = [param] ∧
      param.kind = .identifier)
    (guided_ifNext (fun _ param hparam => ?_) (guided_done (.inl rfl))) fun us _ hus => ?_
  · exact guided_done (.inr ⟨param, rfl, eq_of_only_eq_some hparam⟩)
  · refine guided_require_andThen fun _ c hc => ?_
    refine (hexpr.reindex _).guided.andThen fun ts _ hts => guided_done ?_
    obtain ⟨body, hts⟩ := hts
    rw [List.append_nil]
    rcases hus with rfl | ⟨param, rfl, hparam⟩
    · exact ⟨_, .lambdaEmpty hf ho hc hts⟩
    · exact ⟨_, .lambda hf ho hparam hc hts⟩

theorem block_guided {hrs : ∀ i, (rs i).remaining ≤ ns i} :
    Guided (Derivable 0) rs (fun i => block (expr i) (rs i) (hrs i)) := by
  refine guided_require_andThen fun opener b hb => ?_
  refine (bareBlock_guided (hexpr.reindex _)).andThen fun ts _ hts => ?_
  refine guided_require_andThen fun _ e he => guided_done ?_
  obtain ⟨es, hts⟩ := hts
  exact ⟨_, .block hb hts he⟩

theorem primary_guided {hrs : ∀ i, (rs i).remaining ≤ ns i} :
    Guided (Derivable 9) rs (fun i => primary (expr i) (rs i) (hrs i)) := by
  refine guided_look_andThen fun t => ?_
  split
  · exact guided_require_andThen fun _ u hu => guided_done ⟨_, .num hu⟩
  · exact guided_require_andThen fun _ u hu => guided_done ⟨_, .boolean hu⟩
  · exact guided_require_andThen fun _ u hu => guided_done ⟨_, .string hu⟩
  · exact guided_require_andThen fun _ u hu => guided_done ⟨_, .identifier hu⟩
  · refine guided_require_andThen fun _ o ho => ?_
    refine (hexpr.reindex _).guided.andThen fun ts _ hts => ?_
    refine guided_require_andThen fun _ c hc => guided_done ?_
    obtain ⟨tree, hts⟩ := hts
    exact ⟨_, .group ho hts hc⟩
  · exact guided_failed ⟨_, derivable_sample (Nat.le_refl 9)⟩

theorem call_guided {callee : Tree} {hrs : ∀ i, (rs i).remaining ≤ ns i} :
    Guided (Extending 8) rs (fun i => call callee (expr i) (rs i) (hrs i)) := by
  refine guided_require_andThen fun _ o ho => ?_
  refine Guided.andThen (Q := fun us => us = [] ∨ Derivable 0 us)
    (guided_look_andThen fun t => ?_) fun us _ hus => ?_
  · by_cases ht : t.kind = .rparen
    · simp only [if_pos ht]
      exact guided_done (.inl rfl)
    · simp only [if_neg ht]
      exact (hexpr.reindex _).guided.mono.imp fun us hus => .inr hus
  · refine guided_require_andThen fun _ c hc => guided_done fun ts hts => ?_
    obtain ⟨callee, hts⟩ := hts
    rcases hus with rfl | ⟨arg, hus⟩
    · exact ⟨_, .callEmpty hts ho hc⟩
    · exact ⟨_, .call hts ho hus hc⟩

theorem index_guided {callee : Tree} {hrs : ∀ i, (rs i).remaining ≤ ns i} :
    Guided (Extending 8) rs (fun i => index callee (expr i) (rs i) (hrs i)) := by
  refine guided_require_andThen fun _ o ho => ?_
  refine (hexpr.reindex _).guided.andThen fun us _ hus => ?_
  refine guided_require_andThen fun _ c hc => guided_done fun ts hts => ?_
  obtain ⟨callee, hts⟩ := hts
  obtain ⟨key, hus⟩ := hus
  exact ⟨_, .index hts ho hus hc⟩

omit hexpr in
theorem member_guided {callee : Tree} :
    Guided (Extending 8) rs (fun i => member callee (rs i)) := by
  refine guided_require_andThen fun _ dot hdot => ?_
  refine guided_require_andThen fun _ field hfield => guided_done fun ts hts => ?_
  obtain ⟨callee, hts⟩ := hts
  exact ⟨_, .member hts hdot hfield⟩

theorem suffixes_guided {callee : Tree} {hrs : ∀ i, (rs i).remaining ≤ ns i} :
    Guided (Extending 8) rs (fun i => suffixes callee (expr i) (rs i) (hrs i)) := by
  refine ⟨⟨[], extending_nil⟩, fun i => ?_⟩
  generalize rs i = r, hrs i = hr
  obtain ⟨m, hm⟩ : ∃ m, r.remaining = m := ⟨_, rfl⟩
  induction m using Nat.strongRecOn generalizing r callee with
  | ind m ih =>
    rw [suffixes]
    refine attains_of_guided (guided_look_andThen fun t => ?_)
    have hlt (x : Later fun y : Later fun _ : Unit => r.remaining + 1 => y.2.1.remaining) :
        x.2.1.remaining < m :=
      hm ▸ Nat.lt_of_lt_of_le x.2.2 (Nat.le_of_lt_succ x.1.2.2)
    split
    · refine (call_guided (hexpr.reindex _)).andThen fun us tree hus => ?_
      exact guided_round hus fun x => ih x.2.1.remaining (hlt x) _ _ rfl
    · refine (index_guided (hexpr.reindex _)).andThen fun us tree hus => ?_
      exact guided_round hus fun x => ih x.2.1.remaining (hlt x) _ _ rfl
    · refine member_guided.andThen fun us tree hus => ?_
      exact guided_round hus fun x => ih x.2.1.remaining (hlt x) _ _ rfl
    · exact guided_done extending_nil

theorem suffixed_guided {hrs : ∀ i, (rs i).remaining ≤ ns i} :
    Guided (Derivable 8) rs (fun i => suffixed (expr i) (rs i) (hrs i)) := by
  refine (primary_guided hexpr).andThen fun ts tree hts => ?_
  exact (suffixes_guided (hexpr.reindex _)).mono.imp fun us hus => hus ts (hts.lift (by omega))

theorem unary_guided {hrs : ∀ i, (rs i).remaining ≤ ns i} :
    Guided (Derivable 7) rs (fun i => unary (expr i) (rs i) (hrs i)) := by
  refine ⟨⟨_, derivable_sample (by omega)⟩, fun i => ?_⟩
  generalize rs i = r, hrs i = hr
  obtain ⟨m, hm⟩ : ∃ m, r.remaining = m := ⟨_, rfl⟩
  induction m using Nat.strongRecOn generalizing r with
  | ind m ih =>
    rw [unary]
    refine attains_of_guided (guided_ifNext (fun op o ho => ?_) ?_)
    · refine Guided.andThen (Q := Derivable 7) ⟨⟨_, derivable_sample (by omega)⟩, fun x => ?_⟩
        fun ts _ hts => guided_done ?_
      · exact ih x.2.1.remaining (hm ▸ x.2.2) _ _ rfl
      · obtain ⟨operand, hts⟩ := hts
        rw [List.append_nil]
        exact ⟨_, .unary (Operator.mem_unaries.2 ho) hts⟩
    · exact (suffixed_guided (hexpr.reindex _)).mono.imp fun ts hts => hts.lift (by omega)

omit hexpr in
theorem chain_guided {tier : Nat} {left : Tree}
    {operand : (i : ι) → (r : Reader) → r.remaining ≤ ns i → Outcome r.remaining Tree}
    (hoperand : Guided (Derivable (tier + 1))
      (fun x : (i : ι) × { s : Reader // s.remaining ≤ ns i } => x.2.1)
      (fun x => operand x.1 x.2.1 x.2.2))
    {hrs : ∀ i, (rs i).remaining ≤ ns i} :
    Guided (Extending tier) rs (fun i => chain tier (operand i) left (rs i) (hrs i)) := by
  refine ⟨⟨[], extending_nil⟩, fun i => ?_⟩
  generalize rs i = r, hrs i = hr
  obtain ⟨m, hm⟩ : ∃ m, r.remaining = m := ⟨_, rfl⟩
  induction m using Nat.strongRecOn generalizing r left with
  | ind m ih =>
    rw [chain]
    refine attains_of_guided
      (guided_ifNext (fun op o ho => ?_) (guided_done extending_nil))
    refine Guided.andThen (Q := Derivable (tier + 1)) ⟨hoperand.fill, fun x => ?_⟩
      fun us _ hus => ?_
    · exact hoperand.attains ⟨i, x.2.1, Nat.le_trans (Nat.le_of_lt x.2.2) hr⟩
    have hround : Extending tier (o :: us) := by
      rintro ts ⟨t, hts⟩
      obtain ⟨u, hus⟩ := hus
      exact ⟨_, .binary (ofTier?_eq_some ho) hts hus⟩
    exact guided_round hround fun x =>
      ih x.2.1.remaining (hm ▸ Nat.lt_trans x.2.2 x.1.2.2) _ _ rfl

theorem binary_guided {k : Nat} (hk : k ≤ tiers) {hrs : ∀ i, (rs i).remaining ≤ ns i} :
    Guided (Derivable (7 - k)) rs (fun i => binary (expr i) k (rs i) (hrs i)) := by
  induction k generalizing ι with
  | zero => exact unary_guided hexpr
  | succ k ih =>
    have htier : 7 - k = tiers - k + 1 := by
      change k + 1 ≤ 6 at hk
      change 7 - k = 6 - k + 1
      omega
    have hlevel : 7 - (k + 1) = tiers - k := by omega
    rw [htier] at ih
    rw [hlevel]
    refine (ih hexpr (by omega)).andThen fun ts left hts => ?_
    refine (chain_guided (ih (hexpr.reindex _) (by omega))).mono.imp fun us hus => hus ts (hts.lift ?_)
    change 6 - k < 9
    omega

theorem fullExpression_guided {hrs : ∀ i, (rs i).remaining ≤ ns i} :
    Guided (Derivable 0) rs (fun i => fullExpression (expr i) (rs i) (hrs i)) := by
  refine guided_look_andThen fun t => Guided.mono ?_
  split
  · exact ifElse_guided (hexpr.reindex _)
  · exact letBind_guided (hexpr.reindex _)
  · exact array_guided (hexpr.reindex _)
  · exact object_guided (hexpr.reindex _)
  · exact lambda_guided (hexpr.reindex _)
  · exact block_guided (hexpr.reindex _)
  · refine (binary_guided (hexpr.reindex _) (Nat.le_refl tiers)).imp fun ts hts => ?_
    exact Derivable.lift hts (by omega)

end

theorem expression_attains (r : Reader) : Attains (Derivable 0) r (expression r) := by
  obtain ⟨m, hm⟩ : ∃ m, r.remaining = m := ⟨_, rfl⟩
  induction m using Nat.strongRecOn generalizing r with
  | ind m ih =>
    rw [expression]
    refine attains_of_guided (fullExpression_guided ⟨⟨_, derivable_sample (by omega)⟩, fun x => ?_⟩)
    exact ih x.2.1.remaining (hm ▸ x.2.2) _ rfl

/-- A parse that fails has consumed the beginning of an expression. -/
theorem whole_attains (r : Reader) : Attains (Derivable 0) r (whole r) := by
  refine attains_of_guided (Guided.andThen (Q := Derivable 0)
    ⟨⟨_, derivable_sample (by omega)⟩, fun _ => expression_attains r⟩ fun ts tree hts => ?_)
  have hall : Derivable 0 (ts ++ []) := by rwa [List.append_nil]
  refine guided_look_andThen fun t => ?_
  by_cases ht : t.isEnd = true
  · simp only [if_pos ht]
    exact guided_done hall
  · simp only [if_neg ht]
    exact guided_failed ⟨[], hall⟩

end Grammar

end NordLang

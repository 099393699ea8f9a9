import NordLang.Proofs.Reader.Sight
import NordLang.Reader.Grammar

/-!
# One token of lookahead

What the grammar makes of a reader depends on the tokens that it consumes and on the next one, and
on nothing behind that.  Two readers that have these tokens in sight are read alike.

* `Runs r o` says where a run that starts at `r` can end: behind some tokens, and if it fails then
  at the token that does not fit, or where a lexical fault stands in its place.
* `Agrees` compares two runs, and `Uniform` one run with a whole family of others.  What comes
  after a run starts at a reader that only this run determines, so a family is what the steps of a
  run can be put together from (`Uniform.andThen`).
* There is one lemma per function of the grammar.  For a whole parse they come to
  `parse_eq_refused` and `parse_eq_broken`.
-/

namespace NordLang

/-- The token that a fault is about. -/
def ParseFault.token? : ParseFault → Option Token
  | lexical _ => none
  | expected _ found => some found
  | trailing found => some found

/-- What is in sight where a run ended; nothing where it met a lexical fault. -/
def Outcome.sight {α : Type} {n : Nat} : Outcome n α → List Token
  | done _ r _ => r.sight
  | failed (.lexical _) _ => []
  | failed _ r => r.sight

theorem Outcome.sight_failed {α : Type} {n : Nat} {fault : ParseFault} {t : Token} (r : Reader)
    (h : fault.token? = some t) : (failed fault r : Outcome n α).sight = r.sight := by
  cases fault with
  | lexical _ => cases h
  | expected _ _ => rfl
  | trailing _ => rfl

namespace Reader

variable {α β : Type} {m n : Nat}

/-! ## Where a run ends -/

inductive Runs (r : Reader) : Outcome n α → Prop where
  | done {a : α} {s : Reader} {h : s.remaining < n} {ts : List Token} (path : r.Consumes ts s) :
      Runs r (.done a s h)
  | refused {fault : ParseFault} {s s' : Reader} {t : Token} {ts : List Token}
      (path : r.Consumes ts s) (hcurrent : s.current = (.ok t, s')) (ht : fault.token? = some t) :
      Runs r (.failed fault s')
  | broken {fault : ParseFault} {s s' : Reader} {ts : List Token} (path : r.Consumes ts s)
      (hcurrent : s.current = (.error fault, s')) : Runs r (.failed fault s')

theorem Runs.after {r s : Reader} {ts : List Token} {o : Outcome n α} (h : s.Runs o)
    (path : r.Consumes ts s) : r.Runs o := by
  cases h with
  | done path' => exact .done (path.trans path')
  | refused path' hcurrent ht => exact .refused (path.trans path') hcurrent ht
  | broken path' hcurrent => exact .broken (path.trans path') hcurrent

/-- A failure does not depend on what was to be read. -/
theorem Runs.failed {r s : Reader} {fault : ParseFault}
    (h : r.Runs (.failed fault s : Outcome m α)) : r.Runs (.failed fault s : Outcome n β) := by
  cases h with
  | refused path hcurrent ht => exact .refused path hcurrent ht
  | broken path hcurrent => exact .broken path hcurrent

/-- A run shortens the sight. -/
theorem Runs.sight_eq {r : Reader} {o : Outcome n α} (h : r.Runs o) :
    ∃ ts, r.sight = ts ++ o.sight := by
  cases h with
  | done path => exact ⟨_, path.sight_eq⟩
  | @refused fault s s' t ts path hcurrent ht =>
    refine ⟨ts, ?_⟩
    rw [path.sight_eq, Outcome.sight_failed s' ht, (sight_current hcurrent).1]
  | broken _ hcurrent =>
    obtain ⟨e, rfl, _⟩ := current_eq_error hcurrent
    exact ⟨r.sight, (List.append_nil _).symm⟩

/-! ## Comparing runs -/

/-- If `r'` has in sight what the run from `r` consumed and the token after it, its run comes to the
same and ends there too. -/
def Agrees (r : Reader) (o : Outcome m α) (r' : Reader) (o' : Outcome n α) : Prop :=
  ∀ ts t us us', r.sight = ts ++ t :: us → o.sight = t :: us → r'.sight = ts ++ t :: us' →
    o'.result.1 = o.result.1 ∧ o'.sight = t :: us'

structure Uniform {ι : Type} {ms : ι → Nat} (r : Reader) (o : Outcome m α) (rs : ι → Reader)
    (os : (i : ι) → Outcome (ms i) α) : Prop where
  runs : r.Runs o
  agrees : ∀ i, Agrees r o (rs i) (os i)

/-- Where the runs of a family can go on. -/
abbrev Later {ι : Type} (ms : ι → Nat) : Type :=
  (i : ι) × { s : Reader // s.remaining < ms i }

section

variable {ι κ : Type} {ms ns : ι → Nat} {r : Reader} {rs : ι → Reader}

theorem Uniform.reindex {o : Outcome m α} {os : (i : ι) → Outcome (ms i) α} (h : Uniform r o rs os)
    (g : κ → ι) : Uniform r o (fun k => rs (g k)) (fun k => os (g k)) :=
  ⟨h.runs, fun k => h.agrees (g k)⟩

theorem uniform_done {a : α} {h : r.remaining < m} {hs : ∀ i, (rs i).remaining < ms i} :
    Uniform r (.done a r h) rs (fun i => .done a (rs i) (hs i)) := by
  refine ⟨.done (.refl r), fun i ts t us us' hr ho hr' => ⟨rfl, ?_⟩⟩
  have hts : ts = [] := List.self_eq_append_left.1 (ho.symm.trans hr)
  rw [Outcome.sight, hr', hts, List.nil_append]

/-- A run can be refused by the token that was just looked at. -/
theorem uniform_refused {fault : ParseFault} {t : Token} (hcurrent : r.current = (.ok t, r))
    (ht : fault.token? = some t) :
    Uniform r (.failed fault r : Outcome m α) rs
      (fun i => (.failed fault (rs i) : Outcome (ms i) α)) := by
  refine ⟨.refused (.refl r) hcurrent ht, fun i ts u us us' hr ho hr' => ⟨rfl, ?_⟩⟩
  rw [Outcome.sight_failed _ ht] at ho ⊢
  have hts : ts = [] := List.self_eq_append_left.1 (ho.symm.trans hr)
  rw [hr', hts, List.nil_append]

theorem Uniform.mono {o : Outcome m α} {os : (i : ι) → Outcome (ms i) α} (h : Uniform r o rs os)
    {hm : m ≤ n} {hms : ∀ i, ms i ≤ ns i} :
    Uniform r (o.mono hm) rs (fun i => (os i).mono (hms i)) := by
  have hsight {m n : Nat} {hm : m ≤ n} (o : Outcome m α) :
      (o.mono hm).sight = o.sight ∧ (o.mono hm).result = o.result := by
    cases o with
    | done a s hs => exact ⟨rfl, rfl⟩
    | failed fault s => cases fault <;> exact ⟨rfl, rfl⟩
  constructor
  · have hruns := h.runs
    cases o with
    | done a s hs =>
      cases hruns with
      | done path => exact .done path
    | failed fault s => exact hruns.failed
  · intro i ts t us us' hr ho hr'
    rw [(hsight o).1] at ho
    rw [(hsight o).2, (hsight (os i)).1, (hsight (os i)).2]
    exact h.agrees i ts t us us' hr ho hr'

/-- Runs that agree are followed by runs that agree. -/
theorem Uniform.andThen {o : Outcome m α} {os : (i : ι) → Outcome (ms i) α}
    {f : α → (s : Reader) → s.remaining < m → Outcome n β}
    {fs : (i : ι) → α → (s : Reader) → s.remaining < ms i → Outcome (ns i) β}
    (h : Uniform r o rs os)
    (hf : ∀ a s hs, o = .done a s hs →
      Uniform s (f a s hs) (fun x : Later ms => x.2.1) (fun x => fs x.1 a x.2.1 x.2.2)) :
    Uniform r (o.andThen f) rs (fun i => (os i).andThen (fs i)) := by
  cases o with
  | failed fault s =>
    refine ⟨h.runs.failed, fun i ts t us us' hr ho hr' => ?_⟩
    have hsight : (.failed fault s : Outcome m α).sight = t :: us := by
      cases fault <;> exact ho
    obtain ⟨hvalue, hleft⟩ := h.agrees i ts t us us' hr hsight hr'
    rcases hi : os i with ⟨b, s', hs'⟩ | ⟨fault', s'⟩
    · rw [hi] at hvalue
      cases hvalue
    · rw [hi] at hvalue hleft
      cases hvalue
      refine ⟨rfl, ?_⟩
      rw [← hleft]
      cases fault <;> rfl
  | done a s hs =>
    obtain ⟨hruns, hagrees⟩ := hf a s hs rfl
    cases h.runs with
    | @done _ _ _ qs path =>
      refine ⟨hruns.after path, fun i ts t us us' hr ho hr' => ?_⟩
      -- The tokens consumed are those of the first run and then those of the second.
      obtain ⟨ps, hps⟩ := hruns.sight_eq
      have ho' : (f a s hs).sight = t :: us := ho
      rw [ho'] at hps
      have hts : ts = qs ++ ps := by
        have := path.sight_eq
        rw [hr, hps, ← List.append_assoc] at this
        exact List.append_cancel_right this
      rw [hts, List.append_assoc] at hr hr'
      obtain ⟨t₁, vs, vs', hvs, hvs'⟩ :
          ∃ t₁ vs vs', ps ++ t :: us = t₁ :: vs ∧ ps ++ t :: us' = t₁ :: vs' := by
        cases ps with
        | nil => exact ⟨t, us, us', rfl, rfl⟩
        | cons p ps => exact ⟨p, _, _, rfl, rfl⟩
      obtain ⟨hvalue, hleft⟩ := h.agrees i qs t₁ vs vs' (hvs ▸ hr) (hps.trans hvs) (hvs' ▸ hr')
      rcases hi : os i with ⟨b, s', hs'⟩ | ⟨fault', s'⟩
      · rw [hi] at hvalue hleft
        cases hvalue
        exact hagrees ⟨i, s', hs'⟩ ps t us us' hps ho' (hleft.trans hvs'.symm)
      · rw [hi] at hvalue
        cases hvalue

/-- The readers of a family that show `t`, each behind the look at it. -/
abbrev Showing (rs : ι → Reader) (t : Token) : Type :=
  { x : ι × Reader // (rs x.1).current = (.ok t, x.2) }

/-- A run starts with a look at the next token. -/
theorem uniform_of_current {o : Outcome m α} {os : (i : ι) → Outcome (ms i) α}
    (hfault : ∀ fault s, r.current = (.error fault, s) → o = .failed fault s)
    (htoken : ∀ t s, r.current = (.ok t, s) →
      Uniform s o (fun x : Showing rs t => x.1.2) (fun x => os x.1.1)) : Uniform r o rs os := by
  rcases hcurrent : r.current with ⟨fault | t, s⟩
  · have ho := hfault fault s hcurrent
    obtain ⟨e, rfl, _⟩ := current_eq_error hcurrent
    rw [ho]
    refine ⟨.broken (.refl r) hcurrent, fun i ts t us us' _ ho _ => ?_⟩
    cases ho
  · obtain ⟨hruns, hagrees⟩ := htoken t s hcurrent
    obtain ⟨hsight, hhead, _⟩ := sight_current hcurrent
    refine ⟨hruns.after (.look hcurrent (.refl s)), fun i ts u us us' hr ho hr' => ?_⟩
    have hfirst : ∃ vs, (rs i).sight = t :: vs := by
      rw [hr] at hhead
      rw [hr']
      cases ts with
      | nil =>
        cases hhead
        exact ⟨us', rfl⟩
      | cons v vs =>
        cases hhead
        exact ⟨_, rfl⟩
    obtain ⟨vs, hvs⟩ := hfirst
    obtain ⟨s', hs'⟩ := current_of_sight hvs
    refine hagrees ⟨⟨i, s'⟩, hs'⟩ ts u us us' (hsight.trans hr) ho ?_
    exact (sight_current hs').1.trans hr'

/-- A run goes on with the consumption of the token looked at. -/
theorem uniform_of_consume {o : Outcome m α} {os : (i : ι) → Outcome (ms i) α} {t : Token}
    (ht : t.isEnd = false) (hcurrent : r.current = (.ok t, r))
    (hcurrents : ∀ i, (rs i).current = (.ok t, rs i))
    (h : Uniform (r.consume t) o (fun i => (rs i).consume t) os) : Uniform r o rs os := by
  refine ⟨h.runs.after (.take hcurrent ht (.refl _)), fun i ts u us us' hr ho hr' => ?_⟩
  obtain ⟨qs, hqs⟩ := h.runs.sight_eq
  have hr₁ := (sight_current hcurrent).2.2 ht
  have hr₂ := (sight_current (hcurrents i)).2.2 ht
  rw [ho] at hqs
  have hts : ts = t :: qs := by
    rw [hr, hqs, ← List.cons_append] at hr₁
    exact List.append_cancel_right hr₁
  rw [hr', hts] at hr₂
  exact h.agrees i qs u us us' hqs ho (List.cons.inj hr₂).2.symm

theorem uniform_look : Uniform r r.look rs (fun i => (rs i).look) := by
  refine uniform_of_current (fun fault s h => look_of_fault h) fun t s h => ?_
  have hlook (x : Showing rs t) := look_of_current x.2
  rw [look_of_current h, funext hlook]
  exact uniform_done

theorem uniform_require {kind : TokenKind} {what : String} {hkind : kind ≠ .endOfInput} :
    Uniform r (r.require kind what hkind) rs (fun i => (rs i).require kind what hkind) := by
  refine uniform_of_current (fun fault s h => require_of_fault h) fun t s h => ?_
  by_cases ht : t.kind = kind
  · have hrequire (x : Showing rs t) : (rs x.1.1).require kind what hkind = _ :=
      require_of_kind x.2 ht
    rw [require_of_kind h ht, funext hrequire]
    exact uniform_of_consume (Token.isEnd_eq_false (ht ▸ hkind)) (current_current h)
      (fun x => current_current x.2) uniform_done
  · have hrequire (x : Showing rs t) : (rs x.1.1).require kind what hkind = _ :=
      require_of_not_kind x.2 ht
    rw [require_of_not_kind h ht, funext hrequire]
    exact uniform_refused (current_current h) rfl

theorem uniform_ifNext {f : TokenKind → Option α} {hf : f .endOfInput = none}
    {yes : α → Token → (s : Reader) → s.remaining < r.remaining → Outcome n β}
    {no : (s : Reader) → s.remaining ≤ r.remaining → Outcome n β}
    {yess : (i : ι) → α → Token → (s : Reader) → s.remaining < (rs i).remaining → Outcome (ns i) β}
    {nos : (i : ι) → (s : Reader) → s.remaining ≤ (rs i).remaining → Outcome (ns i) β}
    (hyes : ∀ a t s hs, Uniform s (yes a t s hs) (fun x : Later fun i => (rs i).remaining => x.2.1)
      (fun x => yess x.1 a t x.2.1 x.2.2))
    (hno : ∀ s hs, Uniform s (no s hs)
      (fun x : (i : ι) × { s : Reader // s.remaining ≤ (rs i).remaining } => x.2.1)
      (fun x => nos x.1 x.2.1 x.2.2)) :
    Uniform r (r.ifNext f hf yes no) rs (fun i => (rs i).ifNext f hf (yess i) (nos i)) := by
  refine uniform_of_current (fun fault s h => ifNext_of_fault h) fun t s h => ?_
  rcases ha : f t.kind with _ | a
  · have hifNext (x : Showing rs t) : (rs x.1.1).ifNext f hf (yess x.1.1) (nos x.1.1) = _ :=
      ifNext_of_current_none x.2 ha
    rw [ifNext_of_current_none h ha, funext hifNext]
    exact (hno s _).reindex fun x : Showing rs t => ⟨x.1.1, x.1.2, remaining_current_le x.2⟩
  · have hkind := ne_endOfInput_of_eq_some hf ha
    have hifNext (x : Showing rs t) : (rs x.1.1).ifNext f hf (yess x.1.1) (nos x.1.1) = _ :=
      ifNext_of_current_some x.2 ha
    rw [ifNext_of_current_some h ha, funext hifNext]
    refine uniform_of_consume (Token.isEnd_eq_false hkind) (current_current h)
      (fun x => current_current x.2) ?_
    exact (hyes a t _ _).reindex fun x : Showing rs t =>
      ⟨x.1.1, x.1.2.consume t, remaining_consume_lt x.2 hkind⟩

end

end Reader

/-! ## The functions of the grammar -/

namespace Grammar

open Reader

variable {α : Type} {n : Nat}

/-- The reading of an item with fewer than `n` tokens left can be compared with every other. -/
def Steady (n : Nat) (item : (n : Nat) → Inner n α) : Prop :=
  ∀ s hs, Uniform s (item n s hs) (fun x : Later (fun n : Nat => n) => x.2.1)
    (fun x => item x.1 x.2.1 x.2.2)

section

variable {ι : Type} {ns : ι → Nat} {r : Reader} {rs : ι → Reader}

theorem Steady.uniform {item : (n : Nat) → Inner n α} (h : Steady n item) {hr : r.remaining < n}
    {hrs : ∀ i, (rs i).remaining < ns i} :
    Uniform r (item n r hr) rs (fun i => item (ns i) (rs i) (hrs i)) :=
  (h r hr).reindex fun i => ⟨ns i, rs i, hrs i⟩

theorem moreItems_uniform {item : (n : Nat) → Inner n α} (hitem : Steady n item)
    {separator : TokenKind} {hsep : separator ≠ .endOfInput} {hr : r.remaining ≤ n}
    {hrs : ∀ i, (rs i).remaining ≤ ns i} :
    Uniform r (moreItems separator hsep (item n) r hr) rs
      (fun i => moreItems separator hsep (item (ns i)) (rs i) (hrs i)) := by
  obtain ⟨m, hm⟩ : ∃ m, r.remaining = m := ⟨_, rfl⟩
  induction m using Nat.strongRecOn generalizing r ι with
  | ind m ih =>
    have hloop (i : ι) := moreItems.eq_def separator hsep (item (ns i)) (rs i) (hrs i)
    rw [moreItems, funext hloop]
    refine uniform_ifNext (fun _ t s hs => ?_) (fun s hs => uniform_done)
    refine hitem.uniform.andThen fun a s₁ hs₁ _ => ?_
    refine (ih s₁.remaining (by omega) rfl).andThen fun as s₂ hs₂ _ => ?_
    exact uniform_done

theorem items_uniform {item : (n : Nat) → Inner n α} (hitem : Steady n item)
    {separator : TokenKind} {hsep : separator ≠ .endOfInput} {hr : r.remaining < n}
    {hrs : ∀ i, (rs i).remaining < ns i} :
    Uniform r (items separator (item n) r hr hsep) rs
      (fun i => items separator (item (ns i)) (rs i) (hrs i) hsep) := by
  refine hitem.uniform.andThen fun a s hs _ => ?_
  refine (moreItems_uniform hitem).andThen fun as s₁ hs₁ _ => ?_
  exact uniform_done

theorem itemsUntil_uniform {item : (n : Nat) → Inner n α} (hitem : Steady n item)
    {close : TokenKind} {hr : r.remaining < n} {hrs : ∀ i, (rs i).remaining < ns i} :
    Uniform r (itemsUntil close (item n) r hr) rs
      (fun i => itemsUntil close (item (ns i)) (rs i) (hrs i)) := by
  refine uniform_look.andThen fun t s hs _ => ?_
  by_cases ht : t.kind = close
  · simp only [if_pos ht]
    exact uniform_done
  · simp only [if_neg ht]
    exact (items_uniform hitem).mono

section

variable (hexpr : Steady n inner)

include hexpr

theorem body_uniform {hr : r.remaining < n} {hrs : ∀ i, (rs i).remaining < ns i} :
    Uniform r (body (inner n) r hr) rs (fun i => body (inner (ns i)) (rs i) (hrs i)) := by
  refine uniform_look.andThen fun t s hs _ => ?_
  by_cases ht : t.kind.startsExpression = true
  · simp only [if_pos ht]
    exact (items_uniform hexpr).mono
  · simp only [if_neg ht]
    exact uniform_done

theorem bareBlock_uniform {opener : Option Token} {hr : r.remaining < n}
    {hrs : ∀ i, (rs i).remaining < ns i} :
    Uniform r (bareBlock opener (inner n) r hr) rs
      (fun i => bareBlock opener (inner (ns i)) (rs i) (hrs i)) := by
  cases opener with
  | some t =>
    refine (body_uniform hexpr).andThen fun es s hs _ => ?_
    exact uniform_done
  | none =>
    refine uniform_look.andThen fun t s hs _ => ?_
    refine (body_uniform hexpr).andThen fun es s₁ hs₁ _ => ?_
    exact uniform_done

theorem ifElse_uniform {hr : r.remaining ≤ n} {hrs : ∀ i, (rs i).remaining ≤ ns i} :
    Uniform r (ifElse (inner n) r hr) rs (fun i => ifElse (inner (ns i)) (rs i) (hrs i)) := by
  refine uniform_require.andThen fun opener s₁ h₁ _ => ?_
  refine hexpr.uniform.andThen fun cond s₂ h₂ _ => ?_
  refine uniform_require.andThen fun _ s₃ h₃ _ => ?_
  refine (bareBlock_uniform hexpr).andThen fun thenBranch s₄ h₄ _ => ?_
  refine (uniform_ifNext (fun _ _ s₅ h₅ => (bareBlock_uniform hexpr).mono)
    fun s₅ h₅ => uniform_done).andThen fun elseBranch s₅ h₅ _ => ?_
  refine uniform_require.andThen fun _ s₆ h₆ _ => ?_
  exact uniform_done

theorem letBind_uniform {hr : r.remaining ≤ n} {hrs : ∀ i, (rs i).remaining ≤ ns i} :
    Uniform r (letBind (inner n) r hr) rs (fun i => letBind (inner (ns i)) (rs i) (hrs i)) := by
  refine uniform_require.andThen fun opener s₁ h₁ _ => ?_
  refine uniform_require.andThen fun name s₂ h₂ _ => ?_
  refine uniform_require.andThen fun _ s₃ h₃ _ => ?_
  refine hexpr.uniform.andThen fun value s₄ h₄ _ => ?_
  exact uniform_done

theorem array_uniform {hr : r.remaining ≤ n} {hrs : ∀ i, (rs i).remaining ≤ ns i} :
    Uniform r (array (inner n) r hr) rs (fun i => array (inner (ns i)) (rs i) (hrs i)) := by
  refine uniform_require.andThen fun opener s₁ h₁ _ => ?_
  refine (itemsUntil_uniform hexpr).andThen fun elements s₂ h₂ _ => ?_
  refine uniform_require.andThen fun _ s₃ h₃ _ => ?_
  exact uniform_done

theorem objectField_uniform {hr : r.remaining ≤ n} {hrs : ∀ i, (rs i).remaining ≤ ns i} :
    Uniform r (objectField (inner n) r hr) rs
      (fun i => objectField (inner (ns i)) (rs i) (hrs i)) := by
  refine uniform_require.andThen fun name s₁ h₁ _ => ?_
  refine uniform_require.andThen fun _ s₂ h₂ _ => ?_
  refine hexpr.uniform.andThen fun value s₃ h₃ _ => ?_
  exact uniform_done

theorem object_uniform {hr : r.remaining ≤ n} {hrs : ∀ i, (rs i).remaining ≤ ns i} :
    Uniform r (object (inner n) r hr) rs (fun i => object (inner (ns i)) (rs i) (hrs i)) := by
  refine uniform_require.andThen fun opener s₁ h₁ _ => ?_
  refine uniform_require.andThen fun _ s₂ h₂ _ => ?_
  have hfield : Steady n fun n r h => objectField (inner n) r (Nat.le_of_lt h) :=
    fun s hs => objectField_uniform hexpr
  refine (itemsUntil_uniform hfield).andThen fun fields s₃ h₃ _ => ?_
  refine uniform_require.andThen fun _ s₄ h₄ _ => ?_
  exact uniform_done

theorem lambda_uniform {hr : r.remaining ≤ n} {hrs : ∀ i, (rs i).remaining ≤ ns i} :
    Uniform r (lambda (inner n) r hr) rs (fun i => lambda (inner (ns i)) (rs i) (hrs i)) := by
  refine uniform_require.andThen fun opener s₁ h₁ _ => ?_
  refine uniform_require.andThen fun _ s₂ h₂ _ => ?_
  refine (uniform_ifNext (fun _ _ s₃ h₃ => uniform_done)
    fun s₃ h₃ => uniform_done).andThen fun param s₃ h₃ _ => ?_
  refine uniform_require.andThen fun _ s₄ h₄ _ => ?_
  refine hexpr.uniform.andThen fun body s₅ h₅ _ => ?_
  exact uniform_done

theorem block_uniform {hr : r.remaining ≤ n} {hrs : ∀ i, (rs i).remaining ≤ ns i} :
    Uniform r (block (inner n) r hr) rs (fun i => block (inner (ns i)) (rs i) (hrs i)) := by
  refine uniform_require.andThen fun opener s₁ h₁ _ => ?_
  refine (bareBlock_uniform hexpr).andThen fun tree s₂ h₂ _ => ?_
  refine uniform_require.andThen fun _ s₃ h₃ _ => ?_
  exact uniform_done

theorem primary_uniform {hr : r.remaining ≤ n} {hrs : ∀ i, (rs i).remaining ≤ ns i} :
    Uniform r (primary (inner n) r hr) rs (fun i => primary (inner (ns i)) (rs i) (hrs i)) := by
  refine uniform_look.andThen fun t s h hlook => ?_
  split
  · refine uniform_require.andThen fun _ s₁ h₁ _ => ?_
    exact uniform_done
  · refine uniform_require.andThen fun _ s₁ h₁ _ => ?_
    exact uniform_done
  · refine uniform_require.andThen fun _ s₁ h₁ _ => ?_
    exact uniform_done
  · refine uniform_require.andThen fun _ s₁ h₁ _ => ?_
    exact uniform_done
  · refine uniform_require.andThen fun _ s₁ h₁ _ => ?_
    refine hexpr.uniform.andThen fun tree s₂ h₂ _ => ?_
    refine uniform_require.andThen fun _ s₃ h₃ _ => ?_
    exact uniform_done
  · exact uniform_refused (current_of_look hlook) rfl

theorem call_uniform {callee : Tree} {hr : r.remaining ≤ n} {hrs : ∀ i, (rs i).remaining ≤ ns i} :
    Uniform r (call callee (inner n) r hr) rs
      (fun i => call callee (inner (ns i)) (rs i) (hrs i)) := by
  refine uniform_require.andThen fun opener s₁ h₁ _ => ?_
  refine Uniform.andThen (uniform_look.andThen fun t s₂ h₂ _ => ?_) fun arg s₂ h₂ _ => ?_
  · by_cases ht : t.kind = .rparen
    · simp only [if_pos ht]
      exact uniform_done
    · simp only [if_neg ht]
      exact hexpr.uniform.mono
  · refine uniform_require.andThen fun _ s₃ h₃ _ => ?_
    exact uniform_done

theorem index_uniform {callee : Tree} {hr : r.remaining ≤ n}
    {hrs : ∀ i, (rs i).remaining ≤ ns i} :
    Uniform r (index callee (inner n) r hr) rs
      (fun i => index callee (inner (ns i)) (rs i) (hrs i)) := by
  refine uniform_require.andThen fun opener s₁ h₁ _ => ?_
  refine hexpr.uniform.andThen fun key s₂ h₂ _ => ?_
  refine uniform_require.andThen fun _ s₃ h₃ _ => ?_
  exact uniform_done

omit hexpr in
theorem member_uniform {callee : Tree} :
    Uniform r (member callee r) rs (fun i => member callee (rs i)) := by
  refine uniform_require.andThen fun _ s₁ h₁ _ => ?_
  refine uniform_require.andThen fun field s₂ h₂ _ => ?_
  exact uniform_done

theorem suffixes_uniform {callee : Tree} {hr : r.remaining ≤ n}
    {hrs : ∀ i, (rs i).remaining ≤ ns i} :
    Uniform r (suffixes callee (inner n) r hr) rs
      (fun i => suffixes callee (inner (ns i)) (rs i) (hrs i)) := by
  obtain ⟨m, hm⟩ : ∃ m, r.remaining = m := ⟨_, rfl⟩
  induction m using Nat.strongRecOn generalizing r ι callee with
  | ind m ih =>
    have hloop (i : ι) := suffixes.eq_def callee (inner (ns i)) (rs i) (hrs i)
    rw [suffixes, funext hloop]
    refine uniform_look.andThen fun t s₁ h₁ _ => ?_
    split
    · refine (call_uniform hexpr).andThen fun tree s₂ h₂ _ => ?_
      exact (ih s₂.remaining (by omega) rfl).mono
    · refine (index_uniform hexpr).andThen fun tree s₂ h₂ _ => ?_
      exact (ih s₂.remaining (by omega) rfl).mono
    · refine member_uniform.andThen fun tree s₂ h₂ _ => ?_
      exact (ih s₂.remaining (by omega) rfl).mono
    · exact uniform_done

theorem suffixed_uniform {hr : r.remaining ≤ n} {hrs : ∀ i, (rs i).remaining ≤ ns i} :
    Uniform r (suffixed (inner n) r hr) rs (fun i => suffixed (inner (ns i)) (rs i) (hrs i)) := by
  refine (primary_uniform hexpr).andThen fun tree s h _ => ?_
  exact (suffixes_uniform hexpr).mono

theorem unary_uniform {hr : r.remaining ≤ n} {hrs : ∀ i, (rs i).remaining ≤ ns i} :
    Uniform r (unary (inner n) r hr) rs (fun i => unary (inner (ns i)) (rs i) (hrs i)) := by
  obtain ⟨m, hm⟩ : ∃ m, r.remaining = m := ⟨_, rfl⟩
  induction m using Nat.strongRecOn generalizing r ι with
  | ind m ih =>
    have hloop (i : ι) := unary.eq_def (inner (ns i)) (rs i) (hrs i)
    rw [unary, funext hloop]
    refine uniform_ifNext (fun op t s₁ h₁ => ?_) (fun s₁ h₁ => (suffixed_uniform hexpr).mono)
    refine (ih s₁.remaining (by omega) rfl).andThen fun operand s₂ h₂ _ => ?_
    exact uniform_done

end

theorem chain_uniform {tier : Nat} {left : Tree}
    (operand : (n : Nat) → (r : Reader) → r.remaining ≤ n → Outcome r.remaining Tree)
    (hoperand : ∀ {ι : Type} {ns : ι → Nat} {r : Reader} {rs : ι → Reader} {hr : r.remaining ≤ n}
      {hrs : ∀ i, (rs i).remaining ≤ ns i},
      Uniform r (operand n r hr) rs (fun i => operand (ns i) (rs i) (hrs i)))
    {hr : r.remaining ≤ n} {hrs : ∀ i, (rs i).remaining ≤ ns i} :
    Uniform r (chain tier (operand n) left r hr) rs
      (fun i => chain tier (operand (ns i)) left (rs i) (hrs i)) := by
  obtain ⟨m, hm⟩ : ∃ m, r.remaining = m := ⟨_, rfl⟩
  induction m using Nat.strongRecOn generalizing r ι left with
  | ind m ih =>
    have hloop (i : ι) := chain.eq_def tier (operand (ns i)) left (rs i) (hrs i)
    rw [chain, funext hloop]
    refine uniform_ifNext (fun op t s₁ h₁ => ?_) (fun s₁ h₁ => uniform_done)
    refine hoperand.andThen fun right s₂ h₂ _ => ?_
    exact (ih s₂.remaining (by omega) rfl).mono

theorem binary_uniform (hexpr : Steady n inner) {k : Nat} {hr : r.remaining ≤ n}
    {hrs : ∀ i, (rs i).remaining ≤ ns i} :
    Uniform r (binary (inner n) k r hr) rs
      (fun i => binary (inner (ns i)) k (rs i) (hrs i)) := by
  induction k generalizing r ι with
  | zero => exact unary_uniform hexpr
  | succ k ih =>
    refine ih.andThen fun left s h _ => ?_
    exact (chain_uniform (fun n => binary (inner n) k) ih).mono

theorem fullExpression_uniform (hexpr : Steady n inner) {hr : r.remaining ≤ n}
    {hrs : ∀ i, (rs i).remaining ≤ ns i} :
    Uniform r (fullExpression (inner n) r hr) rs
      (fun i => fullExpression (inner (ns i)) (rs i) (hrs i)) := by
  refine uniform_look.andThen fun t s h _ => Uniform.mono ?_
  split
  · exact ifElse_uniform hexpr
  · exact letBind_uniform hexpr
  · exact array_uniform hexpr
  · exact object_uniform hexpr
  · exact lambda_uniform hexpr
  · exact block_uniform hexpr
  · exact binary_uniform hexpr

/-- Full expressions are read alike from all readers. -/
theorem expression_uniform : Uniform r (expression r) rs (fun i => expression (rs i)) := by
  obtain ⟨m, hm⟩ : ∃ m, r.remaining = m := ⟨_, rfl⟩
  induction m using Nat.strongRecOn generalizing r ι with
  | ind m ih =>
    have hloop (i : ι) := expression.eq_def (rs i)
    rw [expression, funext hloop]
    exact fullExpression_uniform fun s hs => ih s.remaining (by omega) rfl

/-- Reads one expression, which has to be all there is. -/
def whole (r : Reader) : Outcome (r.remaining + 1) Tree :=
  (expression r).andThen fun tree r₁ h₁ =>
  r₁.look.andThen fun t r₂ h₂ =>
  if t.isEnd then .done tree r₂ (by omega) else .failed (.trailing t) r₂

theorem result_whole (r : Reader) : (whole r).result = r.parse := by
  rw [parse, parseExpression, whole]
  rcases expression r with ⟨tree, r₁, h₁⟩ | ⟨fault, r₁⟩
  · simp only [Outcome.andThen, Outcome.result]
    rcases hcurrent : r₁.current with ⟨fault | t, r₂⟩
    · rw [look_of_fault hcurrent]
    · rw [look_of_current hcurrent]
      by_cases ht : t.isEnd = true
      · simp only [if_pos ht]
      · simp only [if_neg ht]
  · rfl

theorem whole_uniform : Uniform r (whole r) rs (fun i => whole (rs i)) := by
  refine expression_uniform.andThen fun tree s₁ h₁ _ => ?_
  refine uniform_look.andThen fun t s₂ h₂ hlook => ?_
  by_cases ht : t.isEnd = true
  · simp only [if_pos ht]
    exact uniform_done
  · simp only [if_neg ht]
    exact uniform_refused (current_of_look hlook) rfl

end

end Grammar

namespace Reader

open Grammar

theorem whole_eq_failed {r s : Reader} {fault : ParseFault} (h : r.parse = (.error fault, s)) :
    whole r = .failed fault s := by
  rw [← result_whole] at h
  rcases hwhole : whole r with ⟨tree, s', hs'⟩ | ⟨fault', s'⟩
  · rw [hwhole] at h
    cases h
  · rw [hwhole] at h
    cases h
    rfl

/-- A parse is refused by a token in sight, and from every reader that has the same tokens in sight
up to there it is refused for the same reason. -/
theorem parse_eq_refused {r s : Reader} {fault : ParseFault} {t : Token}
    (h : r.parse = (.error fault, s)) (ht : fault.token? = some t) :
    ∃ ts us, r.Consumes ts s ∧ r.sight = ts ++ t :: us ∧
      ∀ (r' : Reader) us', r'.sight = ts ++ t :: us' → r'.parse.1 = .error fault := by
  have hwhole := whole_eq_failed h
  have huniform : Uniform r (whole r) (fun r' : Reader => r') whole := whole_uniform
  rw [hwhole] at huniform
  obtain ⟨hruns, hagrees⟩ := huniform
  cases hruns with
  | @refused _ s₁ _ u ts path hcurrent hu =>
    cases ht.symm.trans hu
    obtain ⟨hsight, hhead, _⟩ := sight_current hcurrent
    obtain ⟨us, hus⟩ := List.head?_eq_some_iff.1 hhead
    have hr : r.sight = ts ++ t :: us := by rw [path.sight_eq, hus]
    refine ⟨ts, us, ?_, hr, fun r' us' hr' => ?_⟩
    · have hpath := path.trans (.look hcurrent (.refl s))
      rwa [List.append_nil] at hpath
    · have hleft : (.failed fault s : Outcome (r.remaining + 1) Tree).sight = t :: us := by
        rw [Outcome.sight_failed s ht, hsight, hus]
      rw [← result_whole]
      exact (hagrees r' ts t us us' hr hleft hr').1
  | broken path hcurrent =>
    obtain ⟨e, rfl, _⟩ := current_eq_error hcurrent
    cases ht

/-- A lexical fault is met by a parse only behind all the tokens. -/
theorem parse_eq_broken {r s : Reader} {e : LexicalFault}
    (h : r.parse = (.error (.lexical e), s)) : r.faultAhead = some e ∧ s.upcoming = [] := by
  have huniform : Uniform r (whole r) (fun r' : Reader => r') whole := whole_uniform
  rw [whole_eq_failed h] at huniform
  cases huniform.runs with
  | refused _ _ ht => cases ht
  | broken path hcurrent =>
    obtain ⟨e', he', hshows⟩ := current_eq_error hcurrent
    cases he'
    exact ⟨path.moves.fault.trans hshows.fault,
      (upcoming_of_fault hcurrent).symm.trans hshows.upcoming⟩

end Reader

end NordLang

import NordLang.Proofs.Layout.WellFormed
import NordLang.Proofs.Tree.Same

/-!
# The layout does not depend on locations

Well-formed trees that are the same up to locations are written alike.
-/

namespace NordLang

namespace Tree

/-- A name is determined up to equality of payloads. -/
theorem eq_of_isName {a b : Scalar} (ha : a.isName = true) (hb : b.isName = true)
    (h : a.same b = true) : a = b := by
  cases a with
  | text s =>
    cases b with
    | text s' => simpa [Scalar.same, Scalar.fraction?] using h
    | _ => cases hb
  | _ => cases ha

theorem not_same_null {a : Scalar} (ha : a.isName = true) : ¬ a.same .null = true := by
  intro h
  cases a with
  | text s => cases h
  | _ => cases ha

/-- What the expressions of a body are written as. -/
def bodyWritten : Tree → List (List Piece)
  | block _ body => body.map written
  | _ => []

/-- Trees that are laid out alike wherever they stand. -/
structure Alike (a b : Tree) : Prop where
  written : a.written = b.written
  rank : a.rank = b.rank
  body : a.bodyWritten = b.bodyWritten

theorem Alike.placed {a b : Tree} (h : Alike a b) (least : Nat) :
    a.placed least = b.placed least := by
  rw [Tree.placed, Tree.placed, h.written, h.rank]

theorem map_written_eq {as bs : List Tree}
    (h : List.Forall₂ (fun a b => ∃ _ : a.same b = true, a.WellFormed → b.WellFormed → Alike a b)
      as bs) (has : ∀ a ∈ as, a.WellFormed) (hbs : ∀ b ∈ bs, b.WellFormed) :
    as.map written = bs.map written := by
  induction h with
  | nil => rfl
  | @cons a b as bs hab _ ih =>
    obtain ⟨_, hab⟩ := hab
    have hwritten := (hab (has a List.mem_cons_self) (hbs b List.mem_cons_self)).written
    rw [List.map_cons, List.map_cons, hwritten, ih (fun a ha => has a (List.mem_cons_of_mem _ ha))
      fun b hb => hbs b (List.mem_cons_of_mem _ hb)]

theorem map_field_eq {as bs : List (Scalar × Tree)}
    (h : List.Forall₂ (fun a b => a.1.same b.1 = true ∧ ∃ _ : a.2.same b.2 = true,
      a.2.WellFormed → b.2.WellFormed → Alike a.2 b.2) as bs)
    (has : ∀ a ∈ as, a.1.isName = true) (hbs : ∀ b ∈ bs, b.1.isName = true)
    (has' : ∀ a ∈ as, a.2.WellFormed) (hbs' : ∀ b ∈ bs, b.2.WellFormed) :
    as.map (fun f => fieldPieces f.1.plain f.2.written) =
      bs.map fun f => fieldPieces f.1.plain f.2.written := by
  induction h with
  | nil => rfl
  | @cons a b as bs hab _ ih =>
    simp only [List.forall_mem_cons] at has hbs has' hbs'
    obtain ⟨hname, _, hvalue⟩ := hab
    rw [List.map_cons, List.map_cons, eq_of_isName has.1 hbs.1 hname,
      (hvalue has'.1 hbs'.1).written, ih has.2 hbs.2 has'.2 hbs'.2]

theorem written_constant_eq {l m : Location} {a b : Tree} (h : a.same b = true)
    (ha : (constant l a).WellFormed) (hb : (constant m b).WellFormed) :
    (constant l a).written = (constant m b).written := by
  cases ha with
  | @num _ n hn =>
    cases hb with
    | @num _ n' hn' =>
      have heq : (n : Int) = n' := by simpa [same, Scalar.same, Scalar.fraction?] using h
      rw [written_eq (pieces_num hn), written_eq (pieces_num hn'), Int.ofNat.inj heq]
    | _ => cases h
  | @boolean _ b =>
    cases hb with
    | @boolean _ b' =>
      have heq : b = b' := by
        revert h
        cases b <;> cases b' <;> decide
      rw [written_eq pieces_boolean, written_eq pieces_boolean, heq]
    | _ => cases h
  | @string _ s =>
    cases hb with
    | @string _ s' =>
      have heq : s = s' := by simpa [same, Scalar.same, Scalar.fraction?] using h
      rw [written_eq pieces_string, written_eq pieces_string, heq]
    | _ => cases h
  | identifier hname =>
    cases hb with
    | identifier hname' =>
      rw [written_eq pieces_identifier, written_eq pieces_identifier, eq_of_isName hname hname' h]
    | _ => cases h

/-- Well-formed trees that are the same up to locations are laid out alike. -/
theorem alike_of_same {a b : Tree} (h : a.same b = true) :
    a.WellFormed → b.WellFormed → Alike a b := by
  induction h using same_induction with
  | constant h _ =>
    intro ha hb
    exact ⟨written_constant_eq h ha hb, rfl, rfl⟩
  | ifElse _ _ he ihc iht ihe _ =>
    intro ha hb
    refine ⟨?_, rfl, rfl⟩
    cases ha with
    | ifThen hcond hbody =>
      cases hb with
      | ifThen hcond' hbody' =>
        have hbodies := (iht (.block hbody) (.block hbody')).body
        simp only [bodyWritten] at hbodies
        rw [written_eq (pieces_ifThen hcond.laid (laid_all hbody)),
          written_eq (pieces_ifThen hcond'.laid (laid_all hbody')),
          (ihc hcond hcond').written, hbodies]
      | ifThenElse => cases he
    | ifThenElse hcond hbody hother =>
      cases hb with
      | ifThen => cases he
      | ifThenElse hcond' hbody' hother' =>
        have hbodies := (iht (.block hbody) (.block hbody')).body
        have hothers := (ihe (.block hother) (.block hother')).body
        simp only [bodyWritten] at hbodies hothers
        rw [written_eq (pieces_ifThenElse hcond.laid (laid_all hbody) (laid_all hother)),
          written_eq (pieces_ifThenElse hcond'.laid (laid_all hbody') (laid_all hother')),
          (ihc hcond hcond').written, hbodies, hothers]
  | letBind hn _ ih _ =>
    intro ha hb
    cases ha with
    | letBind hname hvalue =>
      cases hb with
      | letBind hname' hvalue' =>
        refine ⟨?_, rfl, rfl⟩
        rw [written_eq (pieces_letBind hvalue.laid), written_eq (pieces_letBind hvalue'.laid),
          eq_of_isName hname hname' hn, (ih hvalue hvalue').written]
  | array _ ih =>
    intro ha hb
    cases ha with
    | array helements =>
      cases hb with
      | array helements' =>
        refine ⟨?_, rfl, rfl⟩
        rw [written_eq (pieces_array (laid_all helements)),
          written_eq (pieces_array (laid_all helements')),
          map_written_eq ih helements helements']
  | object _ ih =>
    intro ha hb
    cases ha with
    | object hnames hvalues =>
      cases hb with
      | object hnames' hvalues' =>
        refine ⟨?_, rfl, rfl⟩
        rw [written_eq (pieces_object fun f hf => (hvalues f hf).laid),
          written_eq (pieces_object fun f hf => (hvalues' f hf).laid),
          map_field_eq ih hnames hnames' hvalues hvalues']
  | lambda hp _ ih _ =>
    intro ha hb
    refine ⟨?_, rfl, rfl⟩
    cases ha with
    | lambdaEmpty hbody =>
      cases hb with
      | lambdaEmpty hbody' =>
        rw [written_eq (pieces_lambda hbody.laid), written_eq (pieces_lambda hbody'.laid),
          (ih hbody hbody').written]
      | lambda hparam' => exact absurd (Scalar.same_symm hp) (not_same_null hparam')
    | lambda hparam hbody =>
      cases hb with
      | lambdaEmpty => exact absurd hp (not_same_null hparam)
      | lambda hparam' hbody' =>
        rw [written_eq (pieces_lambda hbody.laid), written_eq (pieces_lambda hbody'.laid),
          eq_of_isName hparam hparam' hp, (ih hbody hbody').written]
  | block _ ih =>
    intro ha hb
    cases ha with
    | block hbody =>
      cases hb with
      | block hbody' =>
        have hbodies := map_written_eq ih hbody hbody'
        refine ⟨?_, rfl, hbodies⟩
        rw [written_eq (pieces_block (laid_all hbody)),
          written_eq (pieces_block (laid_all hbody')), hbodies]
  | binary ho _ _ iha ihb _ =>
    intro ha hb
    cases ha with
    | binary hop hleft hright =>
      cases hb with
      | binary _ hleft' hright' =>
        cases ho
        obtain ⟨k, hk⟩ := tier?_of_isUnary hop
        refine ⟨?_, by rw [rank_binary hk, rank_binary hk], rfl⟩
        rw [written_eq (pieces_binary hk hleft.laid hright.laid),
          written_eq (pieces_binary hk hleft'.laid hright'.laid), (iha hleft hleft').placed,
          (ihb hright hright').placed]
  | unary ho _ ih _ =>
    intro ha hb
    cases ha with
    | unary _ hoperand =>
      cases hb with
      | unary _ hoperand' =>
        cases ho
        refine ⟨?_, rfl, rfl⟩
        rw [written_eq (pieces_unary hoperand.laid), written_eq (pieces_unary hoperand'.laid),
          (ih hoperand hoperand').placed]
  | call _ hsame ihc iha _ =>
    intro ha hb
    refine ⟨?_, rfl, rfl⟩
    cases ha with
    | callEmpty hcallee =>
      cases hb with
      | callEmpty hcallee' =>
        rw [written_eq (pieces_callEmpty hcallee.laid), written_eq (pieces_callEmpty hcallee'.laid),
          (ihc hcallee hcallee').placed]
      | call _ harg' => cases harg' <;> cases hsame
    | call hcallee harg =>
      cases hb with
      | callEmpty => cases harg <;> cases hsame
      | call hcallee' harg' =>
        rw [written_eq (pieces_call hcallee.laid harg.laid),
          written_eq (pieces_call hcallee'.laid harg'.laid), (ihc hcallee hcallee').placed,
          (iha harg harg').written]
  | index _ _ ihc ihi _ =>
    intro ha hb
    cases ha with
    | index hcallee hkey =>
      cases hb with
      | index hcallee' hkey' =>
        refine ⟨?_, rfl, rfl⟩
        rw [written_eq (pieces_index hcallee.laid hkey.laid),
          written_eq (pieces_index hcallee'.laid hkey'.laid), (ihc hcallee hcallee').placed,
          (ihi hkey hkey').written]
  | member _ hf ih _ =>
    intro ha hb
    cases ha with
    | member hcallee hfield =>
      cases hb with
      | member hcallee' hfield' =>
        refine ⟨?_, rfl, rfl⟩
        rw [written_eq (pieces_member hcallee.laid), written_eq (pieces_member hcallee'.laid),
          (ih hcallee hcallee').placed, eq_of_isName hfield hfield' hf]
  | _ =>
    intro ha
    cases ha

end Tree

end NordLang

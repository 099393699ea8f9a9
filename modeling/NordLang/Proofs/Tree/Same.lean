import Mathlib.Data.List.Forall2
import NordLang.Tree

/-!
# Equality up to locations

`Scalar.same` and `Tree.same` are computed; here they are shown to be reflexive, symmetric and
transitive.

`Tree.same_induction` is the induction over two trees that are the same: they have the same form,
and what is to be shown is known of their parts.  Lists of parts are compared item by item
(`sameAll_iff`, `sameFields_iff`).
-/

namespace NordLang

namespace Scalar

@[simp] theorem same_self (a : Scalar) : a.same a = true := by
  cases a <;> simp [same, fraction?]

theorem fraction?_pos {a : Scalar} {m : Int} {d : Nat} (h : a.fraction? = some (m, d)) : 0 < d := by
  cases a with
  | bool b | int n =>
    cases h
    exact Nat.one_pos
  | decimal m p =>
    cases h
    exact Nat.pow_pos (by decide)
  | null | text s => cases h

theorem same_symm {a b : Scalar} (h : a.same b = true) : b.same a = true := by
  unfold same at h ⊢
  rcases ha : a.fraction? with _ | ⟨m, d⟩ <;> rcases hb : b.fraction? with _ | ⟨n, e⟩
  all_goals simp_all

theorem same_trans {a b c : Scalar} (hab : a.same b = true) (hbc : b.same c = true) :
    a.same c = true := by
  unfold same at hab hbc ⊢
  rcases ha : a.fraction? with _ | ⟨m, d⟩ <;> rcases hb : b.fraction? with _ | ⟨n, e⟩ <;>
    rcases hc : c.fraction? with _ | ⟨k, f⟩
  all_goals simp_all
  -- All three are numbers, and the middle denominator can be cancelled.
  have he : (e : Int) ≠ 0 := by
    have := fraction?_pos hb
    omega
  apply Int.eq_of_mul_eq_mul_right he
  calc m * f * e = m * e * f := Int.mul_right_comm ..
    _ = n * f * d := by rw [hab, Int.mul_right_comm]
    _ = k * d * e := by rw [hbc, Int.mul_right_comm]

end Scalar

namespace Tree

theorem sameAll_iff {as bs : List Tree} :
    sameAll as bs = true ↔ List.Forall₂ (fun a b => a.same b = true) as bs := by
  induction as generalizing bs with
  | nil => cases bs <;> simp [sameAll]
  | cons a as ih => cases bs <;> simp [sameAll, ih]

theorem sameFields_iff {as bs : List (Scalar × Tree)} :
    sameFields as bs = true ↔
      List.Forall₂ (fun a b => a.1.same b.1 = true ∧ a.2.same b.2 = true) as bs := by
  induction as generalizing bs with
  | nil => cases bs <;> simp [sameFields]
  | cons a as ih => cases bs <;> simp [sameFields, ih]

mutual

@[simp] theorem same_self : ∀ t : Tree, t.same t = true
  | stray a | num a | boolean a | string a | identifier a => Scalar.same_self a
  | sequence items => sameAll_self items
  | hollow _ _ parts => by simp [same, same_self parts]
  | bareNode _ => rfl
  | bareAtom => rfl
  | constant _ atom => same_self atom
  | ifElse _ c t e => by simp [same, same_self c, same_self t, same_self e]
  | letBind _ n v => by simp [same, same_self v]
  | array _ elements => sameAll_self elements
  | object _ fields => sameFields_self fields
  | lambda _ p b => by simp [same, same_self b]
  | block _ body => sameAll_self body
  | binary _ l _ r => by simp [same, same_self l, same_self r]
  | unary _ _ t => by simp [same, same_self t]
  | call _ c a => by simp [same, same_self c, same_self a]
  | index _ c i => by simp [same, same_self c, same_self i]
  | member _ c f => by simp [same, same_self c]

@[simp] theorem sameAll_self : ∀ ts : List Tree, sameAll ts ts = true
  | [] => rfl
  | t :: ts => by simp [sameAll, same_self t, sameAll_self ts]

@[simp] theorem sameFields_self : ∀ fs : List (Scalar × Tree), sameFields fs fs = true
  | [] => rfl
  | (n, t) :: fs => by simp [sameFields, same_self t, sameFields_self fs]

end

/-- One item of a list may be exchanged. -/
theorem sameAll_append_cons {as bs : List Tree} {t u : Tree} (h : u.same t = true) :
    sameAll (as ++ u :: bs) (as ++ t :: bs) = true := by
  induction as with
  | nil => simp [sameAll, h]
  | cons a as ih => simp [sameAll, ih]

theorem sameFields_append_cons {as bs : List (Scalar × Tree)} {n : Scalar} {t u : Tree}
    (h : u.same t = true) : sameFields (as ++ (n, u) :: bs) (as ++ (n, t) :: bs) = true := by
  induction as with
  | nil => simp [sameFields, h]
  | cons a as ih => simp [sameFields, ih]

/-- Induction over trees that are the same up to locations. -/
@[elab_as_elim]
theorem same_induction {motive : (a b : Tree) → a.same b = true → Prop}
    (stray : ∀ {a b : Scalar} (h : a.same b = true), motive (stray a) (stray b) h)
    (sequence : ∀ {as bs : List Tree} (h : sameAll as bs = true),
      List.Forall₂ (fun a b => ∃ h, motive a b h) as bs → motive (sequence as) (sequence bs) h)
    (hollow : ∀ {l m : Location} {f g : Form} {p q : Tree}, f = g → ∀ hp : p.same q = true,
      motive p q hp → ∀ h, motive (hollow l f p) (hollow m g q) h)
    (bareNode : ∀ {l m : Location} h, motive (bareNode l) (bareNode m) h)
    (bareAtom : ∀ h, motive bareAtom bareAtom h)
    (num : ∀ {a b : Scalar} (h : a.same b = true), motive (num a) (num b) h)
    (boolean : ∀ {a b : Scalar} (h : a.same b = true), motive (boolean a) (boolean b) h)
    (string : ∀ {a b : Scalar} (h : a.same b = true), motive (string a) (string b) h)
    (identifier : ∀ {a b : Scalar} (h : a.same b = true), motive (identifier a) (identifier b) h)
    (constant : ∀ {l m : Location} {a b : Tree} (h : a.same b = true), motive a b h →
      motive (constant l a) (constant m b) h)
    (ifElse : ∀ {l m : Location} {c t e c' t' e' : Tree} (hc : c.same c' = true)
      (ht : t.same t' = true) (he : e.same e' = true), motive c c' hc → motive t t' ht →
      motive e e' he → ∀ h, motive (ifElse l c t e) (ifElse m c' t' e') h)
    (letBind : ∀ {l m : Location} {n n' : Scalar} {v v' : Tree}, n.same n' = true →
      ∀ hv : v.same v' = true, motive v v' hv → ∀ h, motive (letBind l n v) (letBind m n' v') h)
    (array : ∀ {l m : Location} {as bs : List Tree} (h : sameAll as bs = true),
      List.Forall₂ (fun a b => ∃ h, motive a b h) as bs → motive (array l as) (array m bs) h)
    (object : ∀ {l m : Location} {as bs : List (Scalar × Tree)} (h : sameFields as bs = true),
      List.Forall₂ (fun a b => a.1.same b.1 = true ∧ ∃ h, motive a.2 b.2 h) as bs →
      motive (object l as) (object m bs) h)
    (lambda : ∀ {l m : Location} {p p' : Scalar} {b b' : Tree}, p.same p' = true →
      ∀ hb : b.same b' = true, motive b b' hb → ∀ h, motive (lambda l p b) (lambda m p' b') h)
    (block : ∀ {l m : Location} {as bs : List Tree} (h : sameAll as bs = true),
      List.Forall₂ (fun a b => ∃ h, motive a b h) as bs → motive (block l as) (block m bs) h)
    (binary : ∀ {l m : Location} {a b a' b' : Tree} {o o' : Option Operator}, o = o' →
      ∀ (ha : a.same a' = true) (hb : b.same b' = true), motive a a' ha → motive b b' hb →
      ∀ h, motive (binary l a o b) (binary m a' o' b') h)
    (unary : ∀ {l m : Location} {o o' : Option Operator} {t t' : Tree}, o = o' →
      ∀ ht : t.same t' = true, motive t t' ht → ∀ h, motive (unary l o t) (unary m o' t') h)
    (call : ∀ {l m : Location} {c a c' a' : Tree} (hc : c.same c' = true) (ha : a.same a' = true),
      motive c c' hc → motive a a' ha → ∀ h, motive (call l c a) (call m c' a') h)
    (index : ∀ {l m : Location} {c i c' i' : Tree} (hc : c.same c' = true) (hi : i.same i' = true),
      motive c c' hc → motive i i' hi → ∀ h, motive (index l c i) (index m c' i') h)
    (member : ∀ {l m : Location} {c c' : Tree} {f f' : Scalar} (hc : c.same c' = true),
      f.same f' = true → motive c c' hc → ∀ h, motive (member l c f) (member m c' f') h)
    {a b : Tree} (h : a.same b = true) : motive a b h := by
  revert h
  refine Tree.same.induct (fun a b => ∀ h, motive a b h)
    (fun as bs => sameFields as bs = true →
      List.Forall₂ (fun a b => a.1.same b.1 = true ∧ ∃ h, motive a.2 b.2 h) as bs)
    (fun as bs => sameAll as bs = true → List.Forall₂ (fun a b => ∃ h, motive a b h) as bs)
    ?_ ?_ ?_ ?_ ?_ ?_ ?_ ?_ ?_ ?_ ?_ ?_ ?_ ?_ ?_ ?_ ?_ ?_ ?_ ?_ ?_ ?_ ?_ ?_ ?_ ?_ ?_ ?_ a b
  · intro a b h
    exact stray h
  · intro as bs ih h
    exact sequence h (ih h)
  · intro l f p m f' p' ih h
    have hparts := h
    simp only [same, Bool.and_eq_true, beq_iff_eq] at hparts
    exact hollow hparts.1 hparts.2 (ih hparts.2) h
  · intro l m h
    exact bareNode h
  · intro h
    exact bareAtom h
  · intro a b h
    exact num h
  · intro a b h
    exact boolean h
  · intro a b h
    exact string h
  · intro a b h
    exact identifier h
  · intro l a m b ih h
    have ha : a.same b = true := h
    exact constant ha (ih ha)
  · intro l c t e m c' t' e' ihc iht ihe h
    have hparts := h
    simp only [same, Bool.and_eq_true] at hparts
    obtain ⟨⟨hc, ht⟩, he⟩ := hparts
    exact ifElse hc ht he (ihc hc) (iht ht) (ihe he) h
  · intro l n v m n' v' ih h
    have hparts := h
    simp only [same, Bool.and_eq_true] at hparts
    exact letBind hparts.1 hparts.2 (ih hparts.2) h
  · intro l as m bs ih h
    exact array h (ih h)
  · intro l as m bs ih h
    exact object h (ih h)
  · intro l p b m p' b' ih h
    have hparts := h
    simp only [same, Bool.and_eq_true] at hparts
    exact lambda hparts.1 hparts.2 (ih hparts.2) h
  · intro l as m bs ih h
    exact block h (ih h)
  · intro l a o b m a' o' b' iha ihb h
    have hparts := h
    simp only [same, Bool.and_eq_true, beq_iff_eq] at hparts
    obtain ⟨⟨ha, ho⟩, hb⟩ := hparts
    exact binary ho ha hb (iha ha) (ihb hb) h
  · intro l o t m o' t' ih h
    have hparts := h
    simp only [same, Bool.and_eq_true, beq_iff_eq] at hparts
    exact unary hparts.1 hparts.2 (ih hparts.2) h
  · intro l c a m c' a' ihc iha h
    have hparts := h
    simp only [same, Bool.and_eq_true] at hparts
    exact call hparts.1 hparts.2 (ihc hparts.1) (iha hparts.2) h
  · intro l c i m c' i' ihc ihi h
    have hparts := h
    simp only [same, Bool.and_eq_true] at hparts
    exact index hparts.1 hparts.2 (ihc hparts.1) (ihi hparts.2) h
  · intro l c f m c' f' ih h
    have hparts := h
    simp only [same, Bool.and_eq_true] at hparts
    exact member hparts.1 hparts.2 (ih hparts.1) h
  · -- Trees of different forms are not the same.
    intro t x h₁ h₂ h₃ h₄ h₅ h₆ h₇ h₈ h₉ h₁₀ h₁₁ h₁₂ h₁₃ h₁₄ h₁₅ h₁₆ h₁₇ h₁₈ h₁₉ h₂₀ h₂₁ h
    have hfalse := h
    rw [same] at hfalse
    · cases hfalse
    all_goals assumption
  · intro _
    exact .nil
  · intro a as b bs ih ihs h
    simp only [sameAll, Bool.and_eq_true] at h
    exact .cons ⟨h.1, ih h.1⟩ (ihs h.2)
  · intro as bs hnil hcons h
    rw [sameAll] at h
    · cases h
    all_goals assumption
  · intro _
    exact .nil
  · intro n a as m b bs ih ihs h
    simp only [sameFields, Bool.and_eq_true] at h
    exact .cons ⟨h.1.1, h.1.2, ih h.1.2⟩ (ihs h.2)
  · intro as bs hnil hcons h
    rw [sameFields] at h
    · cases h
    all_goals assumption

theorem forall₂_flip {as bs : List Tree} {P : Tree → Tree → Prop}
    (h : List.Forall₂ (fun a b => ∃ _ : a.same b = true, P b a) as bs) : List.Forall₂ P bs as :=
  List.Forall₂.flip (h.imp fun _ _ ⟨_, hba⟩ => hba)

theorem same_symm {a b : Tree} (h : a.same b = true) : b.same a = true := by
  induction h using same_induction with
  | stray h => exact Scalar.same_symm h
  | sequence _ ih => exact sameAll_iff.2 (forall₂_flip ih)
  | hollow hf _ ih _ => simp [same, hf, ih]
  | bareNode _ => rfl
  | bareAtom _ => rfl
  | num h => exact Scalar.same_symm h
  | boolean h => exact Scalar.same_symm h
  | string h => exact Scalar.same_symm h
  | identifier h => exact Scalar.same_symm h
  | constant _ ih => exact ih
  | ifElse _ _ _ ihc iht ihe _ => simp [same, ihc, iht, ihe]
  | letBind hn _ ih _ => simp [same, Scalar.same_symm hn, ih]
  | array _ ih => exact sameAll_iff.2 (forall₂_flip ih)
  | object _ ih =>
    refine sameFields_iff.2 (List.Forall₂.flip (ih.imp fun _ _ hab => ?_))
    obtain ⟨hname, _, hvalue⟩ := hab
    exact ⟨Scalar.same_symm hname, hvalue⟩
  | lambda hp _ ih _ => simp [same, Scalar.same_symm hp, ih]
  | block _ ih => exact sameAll_iff.2 (forall₂_flip ih)
  | binary ho _ _ iha ihb _ => simp [same, ho, iha, ihb]
  | unary ho _ ih _ => simp [same, ho, ih]
  | call _ _ ihc iha _ => simp [same, ihc, iha]
  | index _ _ ihc ihi _ => simp [same, ihc, ihi]
  | member _ hf ih _ => simp [same, ih, Scalar.same_symm hf]

theorem forall₂_trans {α : Type} {R S : α → α → Prop} {as bs cs : List α}
    (hab : List.Forall₂ (fun a b => ∀ c, R b c → S a c) as bs) (hbc : List.Forall₂ R bs cs) :
    List.Forall₂ S as cs := by
  induction hab generalizing cs with
  | nil =>
    cases hbc
    exact .nil
  | cons h _ ih =>
    cases hbc with
    | cons h' hbc => exact .cons (h _ h') (ih hbc)

theorem same_trans {a b c : Tree} (hab : a.same b = true) (hbc : b.same c = true) :
    a.same c = true := by
  revert c
  induction hab using same_induction with
  | stray h =>
    intro c hc
    cases c with
    | stray c =>
      exact Scalar.same_trans h hc
    | _ => cases hc
  | sequence _ ih =>
    intro c hc
    cases c with
    | sequence cs =>
      exact sameAll_iff.2 (forall₂_trans (ih.imp fun _ _ ⟨_, h⟩ _ => h) (sameAll_iff.1 hc))
    | _ => cases hc
  | hollow hf _ ih _ =>
    intro c hc
    cases c with
    | hollow l f q =>
      simp only [same, Bool.and_eq_true, hf] at hc ⊢
      exact ⟨hc.1, ih hc.2⟩
    | _ => cases hc
  | bareNode _ =>
    intro c hc
    cases c with
    | bareNode l =>
      rfl
    | _ => cases hc
  | bareAtom =>
    intro c hc
    cases c with
    | bareAtom =>
      rfl
    | _ => cases hc
  | num h =>
    intro c hc
    cases c with
    | num c =>
      exact Scalar.same_trans h hc
    | _ => cases hc
  | boolean h =>
    intro c hc
    cases c with
    | boolean c =>
      exact Scalar.same_trans h hc
    | _ => cases hc
  | string h =>
    intro c hc
    cases c with
    | string c =>
      exact Scalar.same_trans h hc
    | _ => cases hc
  | identifier h =>
    intro c hc
    cases c with
    | identifier c =>
      exact Scalar.same_trans h hc
    | _ => cases hc
  | constant _ ih =>
    intro c hc
    cases c with
    | constant l c =>
      exact ih hc
    | _ => cases hc
  | ifElse _ _ _ ihc iht ihe _ =>
    intro c hc
    cases c with
    | ifElse l c t e =>
      simp only [same, Bool.and_eq_true] at hc ⊢
      exact ⟨⟨ihc hc.1.1, iht hc.1.2⟩, ihe hc.2⟩
    | _ => cases hc
  | letBind hn _ ih _ =>
    intro c hc
    cases c with
    | letBind l n v =>
      simp only [same, Bool.and_eq_true] at hc ⊢
      exact ⟨Scalar.same_trans hn hc.1, ih hc.2⟩
    | _ => cases hc
  | array _ ih =>
    intro c hc
    cases c with
    | array l cs =>
      exact sameAll_iff.2 (forall₂_trans (ih.imp fun _ _ ⟨_, h⟩ _ => h) (sameAll_iff.1 hc))
    | _ => cases hc
  | object _ ih =>
    intro c hc
    cases c with
    | object l cs =>
      refine sameFields_iff.2 (forall₂_trans (ih.imp fun a b hab c hbc => ?_) (sameFields_iff.1 hc))
      obtain ⟨hname, _, hvalue⟩ := hab
      exact ⟨Scalar.same_trans hname hbc.1, hvalue hbc.2⟩
    | _ => cases hc
  | lambda hp _ ih _ =>
    intro c hc
    cases c with
    | lambda l p b =>
      simp only [same, Bool.and_eq_true] at hc ⊢
      exact ⟨Scalar.same_trans hp hc.1, ih hc.2⟩
    | _ => cases hc
  | block _ ih =>
    intro c hc
    cases c with
    | block l cs =>
      exact sameAll_iff.2 (forall₂_trans (ih.imp fun _ _ ⟨_, h⟩ _ => h) (sameAll_iff.1 hc))
    | _ => cases hc
  | binary ho _ _ iha ihb _ =>
    intro c hc
    cases c with
    | binary l a o b =>
      simp only [same, Bool.and_eq_true, ho] at hc ⊢
      exact ⟨⟨iha hc.1.1, hc.1.2⟩, ihb hc.2⟩
    | _ => cases hc
  | unary ho _ ih _ =>
    intro c hc
    cases c with
    | unary l o t =>
      simp only [same, Bool.and_eq_true, ho] at hc ⊢
      exact ⟨hc.1, ih hc.2⟩
    | _ => cases hc
  | call _ _ ihc iha _ =>
    intro c hc
    cases c with
    | call l c a =>
      simp only [same, Bool.and_eq_true] at hc ⊢
      exact ⟨ihc hc.1, iha hc.2⟩
    | _ => cases hc
  | index _ _ ihc ihi _ =>
    intro c hc
    cases c with
    | index l c i =>
      simp only [same, Bool.and_eq_true] at hc ⊢
      exact ⟨ihc hc.1, ihi hc.2⟩
    | _ => cases hc
  | member _ hf ih _ =>
    intro c hc
    cases c with
    | member l c f =>
      simp only [same, Bool.and_eq_true] at hc ⊢
      exact ⟨ih hc.1, Scalar.same_trans hf hc.2⟩
    | _ => cases hc

end Tree

end NordLang

import NordLang.Proofs.Grammar.Text
import NordLang.Proofs.Layout.WellFormed

/-!
# Trees of source texts

What is read from a text is well-formed: its tokens carry payloads that fit their kinds
(`Token.Lexed`), and the grammar puts them where they belong (`Derives.wellFormed`).  So whatever is
parsed from a text can be laid out (`parseText_wellFormed`).
-/

namespace NordLang

namespace TokenKind

/-- The payloads that tokens of a kind carry when they are read from a text. -/
def Admits : TokenKind → Scalar → Prop
  | integer, value => ∃ n : Nat, n ≤ maxInteger ∧ value = .int n
  | boolean, value => ∃ b, value = .bool b
  | string, value => ∃ s, value = .text s
  | identifier, value => value.isName = true
  | endOfInput, _ => False
  | kind, value => value = .text (String.ofList kind.spelling)

/-- The payload of a keyword or symbol is its text. -/
theorem admits_iff {kind : TokenKind} {value : Scalar} (h : kind.spelling ≠ []) :
    kind.Admits value ↔ value = .text (String.ofList kind.spelling) := by
  cases kind with
  | integer | boolean | string | identifier | endOfInput => exact absurd rfl h
  | _ => exact Iff.rfl

end TokenKind

open TokenKind in
theorem Lexeme.admits {next : Option Char} {l : List Char} {kind : TokenKind} {value : Scalar}
    (h : Lexeme next l kind value) : kind.Admits value := by
  cases h with
  | yes => exact ⟨true, rfl⟩
  | no => exact ⟨false, rfl⟩
  | keyword hw =>
    obtain ⟨c, cs, hne, _⟩ := isWord_head (isWord_reservedWords hw)
    obtain ⟨_, rfl⟩ := mem_reservedWords.1 hw
    exact (admits_iff (by simp [hne])).2 rfl
  | name hw =>
    change isName (String.ofList l).toList = true
    rw [String.toList_ofList]
    exact hw
  | number _ _ _ hvalue => exact ⟨_, hvalue, rfl⟩
  | string => exact ⟨_, rfl⟩
  | symbol hkind =>
    have hne : kind.spelling ≠ [] := by
      obtain ⟨c, cs, heq, _⟩ := head_symbol hkind
      simp [heq]
    exact (admits_iff hne).2 rfl

/-- A token whose payload fits its kind, as those read from a text do. -/
def Token.Lexed (t : Token) : Prop :=
  t.kind.Admits t.value

theorem Token.Lexed.admits {t : Token} (h : t.Lexed) {kind : TokenKind} (ht : t.kind = kind) :
    kind.Admits t.value :=
  ht ▸ h

theorem Tiled.lexed {before text : List Char} {ts : List Token} (h : Tiled before text ts) :
    ∀ t ∈ ts, t.Lexed := by
  induction h with
  | blanks => simp
  | token _ hl _ ih =>
    intro t ht
    rcases List.mem_cons.1 ht with rfl | ht
    · exact hl.admits
    · exact ih t ht

/-! ## Derived trees -/

/-- What holds of all tokens holds of those of each item, and so what follows from that holds of
all items. -/
theorem Separated.forall_mem {α : Type} {sep : TokenKind} {R : List Token → α → Prop}
    {P : Token → Prop} {Q : α → Prop} {ts : List Token} {as : List α} (h : Separated sep R ts as)
    (hts : ∀ u ∈ ts, P u) (hR : ∀ us a, R us a → (∀ u ∈ us, P u) → Q a) : ∀ a ∈ as, Q a := by
  induction h with
  | nil => exact List.forall_mem_nil Q
  | one item => exact List.forall_mem_singleton.2 (hR _ _ item hts)
  | more item _ _ ih =>
    simp only [List.forall_mem_append, List.forall_mem_cons] at hts
    obtain ⟨hus, _, hrest⟩ := hts
    exact List.forall_mem_cons.2 ⟨hR _ _ item hus, ih hrest⟩

/-- What is known of the items of a derivation: they are well-formed if their tokens are lexed. -/
abbrev FormsFrom (ts : List Token) (t : Tree) : Prop :=
  ∃ _ : Derives 0 ts t, (∀ u ∈ ts, u.Lexed) → t.WellFormed

theorem wellFormed_items {sep : TokenKind} {ts : List Token} {items : List Tree}
    (h : Separated sep FormsFrom ts items) (hts : ∀ u ∈ ts, u.Lexed) :
    ∀ t ∈ items, t.WellFormed := by
  refine h.forall_mem hts ?_
  rintro us t ⟨_, ht⟩ hus
  exact ht hus

open NordLang.Tree in
/-- Tokens that are read from a text derive well-formed trees. -/
theorem Derives.wellFormed {k : Nat} {ts : List Token} {t : Tree} (h : Derives k ts t)
    (hts : ∀ u ∈ ts, u.Lexed) : t.WellFormed := by
  induction h using Derives.induction with
  | @num t ht =>
    obtain ⟨n, hn, hvalue⟩ := (hts t List.mem_cons_self).admits ht
    rw [hvalue]
    exact .num hn
  | @boolean t ht =>
    obtain ⟨b, hvalue⟩ := (hts t List.mem_cons_self).admits ht
    rw [hvalue]
    exact .boolean
  | @string t ht =>
    obtain ⟨s, hvalue⟩ := (hts t List.mem_cons_self).admits ht
    rw [hvalue]
    exact .string
  | @identifier t ht => exact .identifier ((hts t List.mem_cons_self).admits ht)
  | group _ _ _ ih =>
    simp only [List.forall_mem_cons, List.forall_mem_append] at hts
    obtain ⟨_, hlts, _⟩ := hts
    exact ih hlts
  | callEmpty _ _ _ ih =>
    rw [List.forall_mem_append] at hts
    exact .callEmpty (ih hts.1)
  | call _ _ _ _ ihcallee iharg =>
    simp only [List.forall_mem_cons, List.forall_mem_append] at hts
    obtain ⟨hlts, _, hlus, _⟩ := hts
    exact .call (ihcallee hlts) (iharg hlus)
  | index _ _ _ _ ihcallee ihkey =>
    simp only [List.forall_mem_cons, List.forall_mem_append] at hts
    obtain ⟨hlts, _, hlus, _⟩ := hts
    exact .index (ihcallee hlts) (ihkey hlus)
  | member _ _ hfield ih =>
    simp only [List.forall_mem_cons, List.forall_mem_append] at hts
    obtain ⟨hlts, _, hlfield, _⟩ := hts
    exact .member (ih hlts) (hlfield.admits hfield)
  | unary ho _ ih =>
    rw [List.forall_mem_cons] at hts
    refine .unary ?_ (ih hts.2)
    rw [← Operator.sign_mem_unaries, Operator.sign_of_mem_unaries ho]
    exact ho
  | binary ho _ _ ihleft ihright =>
    simp only [List.forall_mem_cons, List.forall_mem_append] at hts
    obtain ⟨hlts, _, hlus⟩ := hts
    refine .binary ?_ (ihleft hlts) (ihright hlus)
    rw [Operator.isUnary, (Operator.mem_binaries.1 ho).1]
    rfl
  | ifThen _ _ _ body _ ih =>
    simp only [List.forall_mem_cons, List.forall_mem_append] at hts
    obtain ⟨_, hlcs, _, hlbs, _⟩ := hts
    exact .ifThen (ih hlcs) (wellFormed_items body hlbs)
  | ifThenElse _ _ _ body _ other _ ih =>
    simp only [List.forall_mem_cons, List.forall_mem_append] at hts
    obtain ⟨_, hlcs, _, hlbs, _, hlds, _⟩ := hts
    exact .ifThenElse (ih hlcs) (wellFormed_items body hlbs) (wellFormed_items other hlds)
  | letBind _ hname _ _ ih =>
    simp only [List.forall_mem_cons] at hts
    obtain ⟨_, hlname, _, hlts⟩ := hts
    exact .letBind (hlname.admits hname) (ih hlts)
  | array _ items _ =>
    simp only [List.forall_mem_cons, List.forall_mem_append] at hts
    obtain ⟨_, hlts, _⟩ := hts
    exact .array (wellFormed_items items hlts)
  | object _ _ items _ =>
    simp only [List.forall_mem_cons, List.forall_mem_append] at hts
    obtain ⟨_, _, hlts, _⟩ := hts
    refine .object (items.forall_mem hlts ?_) (items.forall_mem hlts ?_)
    · rintro us f ⟨hname, _, _⟩ hus
      exact (hus _ List.mem_cons_self).admits hname
    · rintro us f ⟨_, _, _, hvalue⟩ hus
      simp only [List.forall_mem_cons] at hus
      exact hvalue hus.2.2
  | lambdaEmpty _ _ _ _ ih =>
    simp only [List.forall_mem_cons] at hts
    exact .lambdaEmpty (ih hts.2.2.2)
  | lambda _ _ hparam _ _ ih =>
    simp only [List.forall_mem_cons] at hts
    obtain ⟨_, _, hlparam, _, hlts⟩ := hts
    exact .lambda (hlparam.admits hparam) (ih hlts)
  | block _ items _ =>
    simp only [List.forall_mem_cons, List.forall_mem_append] at hts
    obtain ⟨_, hlts, _⟩ := hts
    exact .block (wellFormed_items items hlts)
  | lift _ _ ih => exact ih hts

/-! ## Parsed texts -/

theorem wellFormed_of_parse {text : List Char} {t : Tree} (h : parseText text = .ok t) :
    t.WellFormed := by
  obtain ⟨ts, htiled, hderives⟩ := parseText_eq_ok.1 h
  exact hderives.wellFormed htiled.lexed

/-- A text that is parsed gives a well-formed tree, and laying this tree out gives a text. -/
theorem parseText_wellFormed {text : List Char} {t : Tree} (h : parseText text = .ok t) :
    t.WellFormed ∧ ∃ out, t.layout = .ok (.text out) := by
  have hwf := wellFormed_of_parse h
  exact ⟨hwf, _, hwf.layout⟩

/-- A function without a parameter, and a call with a signed argument. -/
theorem parseText_wellFormed_function :
    let t : Tree := .lambda ⟨1, 1⟩ .null (.call ⟨1, 7⟩ (.constant ⟨1, 6⟩ (.identifier (.text "f")))
      (.unary ⟨1, 8⟩ (some .negate) (.constant ⟨1, 9⟩ (.num (.int 1)))))
    parseText "fn() f(-1)".toList = .ok t ∧ t.WellFormed ∧ ∃ out, t.layout = .ok (.text out) := by
  intro t
  have h : parseText "fn() f(-1)".toList = .ok t := by with_unfolding_all rfl
  exact ⟨h, parseText_wellFormed h⟩

/-- The argument of a call and the parameter of a function are missing where none is written. -/
theorem parseText_missing_parts :
    parseText "f()".toList =
      .ok (.call ⟨1, 2⟩ (.constant ⟨1, 1⟩ (.identifier (.text "f"))) .missing) ∧
    parseText "fn() f".toList =
      .ok (.lambda ⟨1, 1⟩ .null (.constant ⟨1, 6⟩ (.identifier (.text "f")))) := by
  constructor
  · with_unfolding_all rfl
  · with_unfolding_all rfl

end NordLang

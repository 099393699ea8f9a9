import NordLang.Proofs.Grammar.Content
import NordLang.Proofs.Layout.WellFormed
import NordLang.Proofs.Lexing.Cutting

/-!
# Spacing

The pieces of a tree stay apart in its text: none of them fuses with the next into another token, so
the text is read back as the tokens that the pieces stand for.

* `Piece.content?` is the token that a piece stands for, without a place.
* `Apart next ps` says that each of the pieces is a lexeme in front of what follows it, `next` being
  the character behind the last one.  `Apart.tiled` reads the text of such pieces.
* `Compact` is what the pieces of a tree have in common: they are apart unless a word follows, and
  they start with a character that no sign in front of them could take in.
-/

namespace NordLang

/-! ## Pieces as tokens -/

namespace Piece

/-- The kind and payload of the token that a piece stands for. -/
def content? : Piece → Option (TokenKind × Scalar)
  | blank => none
  | fixed kind => some (kind, .text (String.ofList kind.spelling))
  | name text => some (.identifier, .text (String.ofList text))
  | number text => some (.integer, .int (Nat.ofDigitChars 10 text 0))
  | truth value => some (.boolean, .bool value)
  | quoted value => some (.string, .text (String.ofList value))

/-- The tokens that pieces stand for. -/
def contentsOf (ps : List Piece) : List (TokenKind × Scalar) :=
  ps.filterMap content?

theorem content?_namePiece {name : Scalar} (hname : name.isName = true) :
    (Tree.namePiece name).content? = some (.identifier, name) := by
  cases name with
  | text s => simp [Tree.namePiece, content?, Scalar.plain]
  | _ => cases hname

theorem content?_number (n : Nat) :
    (number (Nat.toDigits 10 n)).content? = some (.integer, .int n) := by
  rw [content?, Nat.ofDigitChars_toDigits (by decide) (by decide)]

theorem content?_quoted (s : String) : (quoted s.toList).content? = some (.string, .text s) := by
  simp [content?]

@[simp] theorem contentsOf_cons (p : Piece) (ps : List Piece) :
    contentsOf (p :: ps) = p.content?.toList ++ contentsOf ps := by
  cases h : p.content? <;> simp [contentsOf, h]

@[simp] theorem contentsOf_append (ps qs : List Piece) :
    contentsOf (ps ++ qs) = contentsOf ps ++ contentsOf qs :=
  List.filterMap_append

/-- A piece is a lexeme in front of `next`. -/
def Settled (next : Option Char) (p : Piece) : Prop :=
  ∀ c ∈ p.content?, Lexeme next p.chars c.1 c.2

/-- Each piece is a lexeme in front of those behind it and of `next`. -/
def Apart (next : Option Char) : List Piece → Prop
  | [] => True
  | p :: ps => p.Settled ((textOf ps).head?.or next) ∧ Apart next ps

@[simp] theorem textOf_append (ps qs : List Piece) : textOf (ps ++ qs) = textOf ps ++ textOf qs :=
  List.flatMap_append

@[simp] theorem apart_append {next : Option Char} {ps qs : List Piece} :
    Apart next (ps ++ qs) ↔ Apart ((textOf qs).head?.or next) ps ∧ Apart next qs := by
  induction ps with
  | nil => simp [Apart]
  | cons p ps ih =>
    simp only [List.cons_append, Apart, ih, textOf_append, List.head?_append, Option.or_assoc,
      and_assoc]

end Piece

/-- The text of pieces that are apart is read as the tokens they stand for. -/
theorem Piece.Apart.tiled {ps : List Piece} (h : Apart none ps) (before : List Char) :
    ∃ ts, Tiled before (textOf ps) ts ∧ contents ts = contentsOf ps := by
  induction ps generalizing before with
  | nil => exact ⟨[], .blanks (by simp [textOf]), rfl⟩
  | cons p ps ih =>
    obtain ⟨hp, hps⟩ := h
    rw [Option.or_none] at hp
    rw [contentsOf_cons]
    cases hcontent : p.content? with
    | none =>
      have hblank : p = .blank := by
        cases p with
        | blank => rfl
        | _ => cases hcontent
      subst hblank
      obtain ⟨ts, hts, heq⟩ := ih hps (before ++ [' '])
      have hspace : ∀ c ∈ [' '], c ∈ blankChars := by simp [blankChars]
      exact ⟨ts, hts.prepend_blanks hspace, heq⟩
    | some c =>
      obtain ⟨ts, hts, heq⟩ := ih hps (before ++ p.chars)
      have hblanks : ∀ c ∈ ([] : List Char), c ∈ blankChars := List.forall_mem_nil _
      have hlexeme : Lexeme (textOf ps).head? p.chars c.1 c.2 := hp c hcontent
      have later : Tiled (before ++ [] ++ p.chars) (textOf ps) ts := by simpa using hts
      refine ⟨_, .token hblanks hlexeme later, ?_⟩
      rw [← heq]
      rfl

/-! ## Pieces in front of what follows -/

namespace Piece

open TokenKind

variable {next : Option Char}

theorem settled_blank : Settled next .blank := by
  intro c hc
  cases hc

theorem settled_keyword {kind : TokenKind} (hkind : kind ∈ keywords)
    (hnext : ∀ c ∈ next, isWordChar c = false) : Settled next (.fixed kind) := by
  rintro _ ⟨⟩
  exact .keyword (mem_reservedWords.2 ⟨hkind, rfl⟩) hnext

theorem settled_symbol {kind : TokenKind} (hkind : kind ∈ symbols)
    (hnext : ∀ b ∈ next, ∀ k ∈ symbols, k.spelling ≠ kind.spelling ++ [b]) :
    Settled next (.fixed kind) := by
  rintro _ ⟨⟩
  exact .symbol hkind hnext

/-- Brackets and separators are symbols whatever follows them. -/
theorem settled_mark {kind : TokenKind}
    (hkind : kind ∈ [lparen, rparen, lbracket, rbracket, lbrace, rbrace, comma, semicolon, dot,
      hash]) : Settled next (.fixed kind) := by
  -- None of them is another symbol less its last character.
  have hmark : kind ∈ symbols ∧ ∀ k ∈ symbols, k.spelling.dropLast ≠ kind.spelling := by
    revert kind
    decide
  refine settled_symbol hmark.1 fun b _ k hk heq => hmark.2 k hk ?_
  rw [heq, List.dropLast_concat]

/-- An operator is read as itself unless an equals or greater sign follows. -/
theorem settled_sign {op : Operator} (hnext : ∀ c ∈ next, c ≠ '=' ∧ c ≠ '>') :
    Settled next (.fixed op.sign) := by
  have hsign : op.sign ∈ symbols ∧ ∀ k ∈ symbols, k.spelling.dropLast = op.sign.spelling →
      k.spelling.getLast? = some '=' ∨ k.spelling.getLast? = some '>' := by
    cases op <;> decide
  refine settled_symbol hsign.1 fun b hb k hk heq => ?_
  have hlast := hsign.2 k hk (by rw [heq, List.dropLast_concat])
  rw [heq, List.getLast?_concat, Option.some.injEq, Option.some.injEq] at hlast
  rcases hlast with hlast | hlast
  · exact (hnext b hb).1 hlast
  · exact (hnext b hb).2 hlast

theorem settled_name {s : Scalar} (hs : s.isName = true)
    (hnext : ∀ c ∈ next, isWordChar c = false) : Settled next (Tree.namePiece s) := by
  rintro _ ⟨⟩
  cases s with
  | text s => exact .name hs hnext
  | _ => cases hs

theorem settled_number {n : Nat} (hn : n ≤ maxInteger) (hnext : ∀ c ∈ next, isWordChar c = false) :
    Settled next (.number (Nat.toDigits 10 n)) := by
  rintro _ ⟨⟩
  refine .number Nat.toDigits_ne_nil ?_ (Tree.length_toDigits_le hn) ?_ ?_
  · intro d hd
    exact Nat.isDigit_of_mem_toDigits (by decide) (by decide) hd
  · change Nat.ofDigitChars 10 (Nat.toDigits 10 n) 0 ≤ maxInteger
    rw [Nat.ofDigitChars_toDigits (by decide) (by decide)]
    exact hn
  · intro c hc
    refine Bool.eq_false_iff.2 fun hdigit => ?_
    have := hnext c hc
    rw [isWordChar_of_isDigit hdigit] at this
    cases this

theorem settled_truth {b : Bool} (hnext : ∀ c ∈ next, isWordChar c = false) :
    Settled next (.truth b) := by
  rintro _ ⟨⟩
  cases b with
  | true => exact .yes hnext
  | false => exact .no hnext

/-- A string literal is read as the string it was written for. -/
theorem quotes_escaped (value : List Char) : Quotes (value.flatMap escapeInString) value := by
  induction value with
  | nil => exact .nil
  | cons c value ih =>
    rw [List.flatMap_cons]
    unfold escapeInString
    split
    · exact .escape (by decide) ih
    · exact .escape (by decide) ih
    · exact .escape (by decide) ih
    · exact .escape (by decide) ih
    · exact .escape (by decide) ih
    · next hslash hquote hline _ _ => exact .plain hquote hline hslash ih

theorem settled_quoted {value : List Char} : Settled next (.quoted value) := by
  rintro _ ⟨⟩
  exact .string (quotes_escaped value)

/-! ## Pieces that stand together -/

/-- Pieces that are apart from all but a word behind them, and from all signs before them. -/
structure Compact (ps : List Piece) : Prop where
  apart : ∀ next, (∀ c ∈ next, isWordChar c = false) → Apart next ps
  head : ∃ c, (textOf ps).head? = some c ∧ c ≠ '=' ∧ c ≠ '>'

theorem noWord {c : Char} (h : isWordChar c = false) : ∀ d ∈ some c, isWordChar d = false := by
  rintro _ ⟨⟩
  exact h

theorem Compact.single {p : Piece}
    (h : ∀ next, (∀ c ∈ next, isWordChar c = false) → p.Settled next)
    (hhead : ∃ c, p.chars.head? = some c ∧ c ≠ '=' ∧ c ≠ '>') : Compact [p] := by
  refine ⟨fun next hnext => ⟨h next hnext, trivial⟩, ?_⟩
  simpa [textOf] using hhead

theorem not_sign_of_isWordChar {c : Char} (h : isWordChar c = true) : c ≠ '=' ∧ c ≠ '>' := by
  constructor
  · rintro rfl
    cases h
  · rintro rfl
    cases h

theorem head_name {s : Scalar} (hs : s.isName = true) :
    ∃ c, (Tree.namePiece s).chars.head? = some c ∧ c ≠ '=' ∧ c ≠ '>' := by
  cases s with
  | text s =>
    obtain ⟨c, cs, heq, hc⟩ := isWord_head (isName_isWord hs)
    refine ⟨c, ?_, not_sign_of_isWordChar (isWordChar_of_isWordStart hc)⟩
    change s.toList.head? = some c
    rw [heq]
    rfl
  | _ => cases hs

theorem head_number (n : Nat) :
    ∃ c, (Piece.number (Nat.toDigits 10 n)).chars.head? = some c ∧ c ≠ '=' ∧ c ≠ '>' := by
  change ∃ c, (Nat.toDigits 10 n).head? = some c ∧ c ≠ '=' ∧ c ≠ '>'
  cases hdigits : Nat.toDigits 10 n with
  | nil => exact absurd hdigits Nat.toDigits_ne_nil
  | cons d ds =>
    have hd : d ∈ Nat.toDigits 10 n := by simp [hdigits]
    have := Nat.isDigit_of_mem_toDigits (by decide) (by decide) hd
    exact ⟨d, rfl, not_sign_of_isWordChar (isWordChar_of_isDigit this)⟩

theorem Compact.parenthesized {ps : List Piece} (h : Compact ps) : Compact (parenthesized ps) := by
  refine ⟨fun next _ => ?_, '(', rfl, by decide, by decide⟩
  simp only [Piece.parenthesized, Apart, apart_append]
  exact ⟨settled_mark (by decide), h.apart _ (noWord (c := ')') rfl), settled_mark (by decide),
    trivial⟩

/-- Pieces that start with no word can follow compact ones. -/
theorem Compact.append {ps qs : List Piece} (h : Compact ps)
    (hqs : ∀ next, (∀ c ∈ next, isWordChar c = false) → Apart next qs)
    (hhead : ∃ c, (textOf qs).head? = some c ∧ isWordChar c = false) : Compact (ps ++ qs) := by
  obtain ⟨c, hc, hword⟩ := hhead
  obtain ⟨d, hd, hne⟩ := h.head
  constructor
  · intro next hnext
    rw [apart_append, hc]
    exact ⟨h.apart _ (noWord hword), hqs next hnext⟩
  · exact ⟨d, by rw [textOf_append, List.head?_append, hd]; rfl, hne⟩

theorem apart_separated {sep : TokenKind} {items : List (List Piece)}
    (hsep : sep = .comma ∨ sep = .semicolon) (hitems : ∀ ps ∈ items, Compact ps)
    (hnext : ∀ c ∈ next, isWordChar c = false) : Apart next (separated sep items) := by
  fun_induction separated sep items with
  | case1 => trivial
  | case2 ps => exact (hitems ps List.mem_cons_self).apart next hnext
  | case3 ps rest _ ih =>
    have hps := hitems ps List.mem_cons_self
    have hrest := ih fun qs hqs => hitems qs (List.mem_cons_of_mem _ hqs)
    simp only [apart_append, Apart]
    refine ⟨hps.apart _ ?_, settled_mark ?_, settled_blank, hrest⟩
    · rcases hsep with rfl | rfl
      · exact noWord (c := ',') rfl
      · exact noWord (c := ';') rfl
    · rcases hsep with rfl | rfl <;> decide

/-- A body between its keywords. -/
theorem apart_body {kind : TokenKind} {items : List (List Piece)} (hkind : kind ∈ keywords)
    (hitems : ∀ ps ∈ items, Compact ps) :
    Apart (some ' ') (.fixed kind :: Tree.bodyPieces items) := by
  cases items with
  | nil => exact ⟨settled_keyword hkind (noWord rfl), trivial⟩
  | cons ps items =>
    refine ⟨settled_keyword hkind (noWord rfl), settled_blank, ?_⟩
    exact apart_separated (.inr rfl) hitems (noWord rfl)

end Piece

namespace Tree

open Piece

variable {loc : Location}

theorem compact_placed {t : Tree} (h : Compact t.written) (least : Nat) :
    Compact (t.placed least) := by
  unfold placed
  split
  · exact h.parenthesized
  · exact h

theorem compact_array {items : List (List Piece)} (hitems : ∀ ps ∈ items, Compact ps) :
    Compact (arrayPieces items) := by
  refine ⟨fun next _ => ?_, '[', rfl, by decide, by decide⟩
  simp only [arrayPieces, apart_append, Apart]
  exact ⟨⟨settled_mark (by decide), apart_separated (.inl rfl) hitems (noWord (c := ']') rfl)⟩,
    settled_mark (by decide), trivial⟩

theorem compact_object {items : List (List Piece)} (hitems : ∀ ps ∈ items, Compact ps) :
    Compact (objectPieces items) := by
  refine ⟨fun next _ => ?_, '#', rfl, by decide, by decide⟩
  simp only [objectPieces, apart_append, Apart]
  exact ⟨⟨settled_mark (by decide), settled_mark (by decide),
    apart_separated (.inl rfl) hitems (noWord (c := '\x7d') rfl)⟩, settled_mark (by decide),
    trivial⟩

theorem compact_block {items : List (List Piece)} (hitems : ∀ ps ∈ items, Compact ps) :
    Compact (blockPieces items) := by
  refine ⟨fun next hnext => ?_, 'b', rfl, by decide, by decide⟩
  rw [blockPieces, apart_append]
  exact ⟨apart_body (by decide) hitems, settled_blank, settled_keyword (by decide) hnext, trivial⟩

theorem compact_field {name : Scalar} {value : List Piece} (hname : name.isName = true)
    (hvalue : Compact value) : Compact (fieldPieces name.plain value) := by
  obtain ⟨c, hc, hne⟩ := head_name hname
  refine ⟨fun next hnext => ⟨?_, ?_, settled_blank, hvalue.apart next hnext⟩, c, ?_, hne⟩
  · exact settled_name hname (noWord (c := ':') rfl)
  · refine settled_symbol (by decide) ?_
    rintro _ ⟨⟩
    decide
  · change ((namePiece name).chars ++ _).head? = some c
    rw [List.head?_append, hc]
    rfl

theorem compact_ifThen {cond : List Piece} {body : List (List Piece)} (hcond : Compact cond)
    (hbody : ∀ ps ∈ body, Compact ps) :
    Compact (.fixed .ifKw :: .blank :: cond ++ .blank :: .fixed .thenKw :: bodyPieces body ++
      [.blank, .fixed .endKw]) := by
  refine ⟨fun next hnext => ?_, 'i', rfl, by decide, by decide⟩
  rw [apart_append, apart_append]
  refine ⟨⟨⟨settled_keyword (by decide) (noWord (c := ' ') rfl), settled_blank, ?_⟩, settled_blank,
    apart_body (by decide) hbody⟩, settled_blank, settled_keyword (by decide) hnext, trivial⟩
  exact hcond.apart _ (noWord (c := ' ') rfl)

theorem compact_ifThenElse {cond : List Piece} {body other : List (List Piece)}
    (hcond : Compact cond) (hbody : ∀ ps ∈ body, Compact ps) (hother : ∀ ps ∈ other, Compact ps) :
    Compact (.fixed .ifKw :: .blank :: cond ++ .blank :: .fixed .thenKw :: bodyPieces body ++
      .blank :: .fixed .elseKw :: bodyPieces other ++ [.blank, .fixed .endKw]) := by
  refine ⟨fun next hnext => ?_, 'i', rfl, by decide, by decide⟩
  rw [apart_append, apart_append, apart_append]
  refine ⟨⟨⟨⟨settled_keyword (by decide) (noWord (c := ' ') rfl), settled_blank, ?_⟩, settled_blank,
    apart_body (by decide) hbody⟩, settled_blank, apart_body (by decide) hother⟩, settled_blank,
    settled_keyword (by decide) hnext, trivial⟩
  exact hcond.apart _ (noWord (c := ' ') rfl)

theorem compact_letBind {name : Scalar} {value : List Piece} (hname : name.isName = true)
    (hvalue : Compact value) :
    Compact (.fixed .letKw :: .blank :: namePiece name :: .blank :: .fixed .equals :: .blank ::
      value) := by
  refine ⟨fun next hnext => ?_, 'l', rfl, by decide, by decide⟩
  have hequals : Settled (some ' ') (.fixed .equals) := by
    refine @settled_sign _ .assign ?_
    rintro _ ⟨⟩
    decide
  exact ⟨settled_keyword (by decide) (noWord (c := ' ') rfl), settled_blank,
    settled_name hname (noWord (c := ' ') rfl), settled_blank, hequals, settled_blank,
    hvalue.apart next hnext⟩

theorem compact_lambda {param body : List Piece} (hparam : Apart (some ')') param)
    (hbody : Compact body) :
    Compact (.fixed .fnKw :: .fixed .lparen :: param ++ .fixed .rparen :: .blank :: body) := by
  refine ⟨fun next hnext => ?_, 'f', rfl, by decide, by decide⟩
  rw [apart_append]
  exact ⟨⟨settled_keyword (by decide) (noWord (c := '(') rfl), settled_mark (by decide), hparam⟩,
    settled_mark (by decide), settled_blank, hbody.apart next hnext⟩

theorem compact_binary {left right : List Piece} (op : Operator) (hleft : Compact left)
    (hright : Compact right) :
    Compact (left ++ .blank :: .fixed op.sign :: .blank :: right) := by
  refine hleft.append (fun next hnext => ?_) ⟨' ', rfl, rfl⟩
  refine ⟨settled_blank, settled_sign ?_, settled_blank, hright.apart next hnext⟩
  rintro _ ⟨⟩
  decide

theorem compact_unary {operand : List Piece} {op : Operator} (hop : op.isUnary = true)
    (hoperand : Compact operand) :
    Compact (.fixed op.sign ::
      if op = .negate ∧ firstChar? operand = some '-' then .blank :: operand else operand) := by
  constructor
  · intro next hnext
    split
    · refine ⟨settled_sign ?_, settled_blank, hoperand.apart next hnext⟩
      rintro _ ⟨⟩
      decide
    · obtain ⟨c, hc, hne⟩ := hoperand.head
      refine ⟨settled_sign ?_, hoperand.apart next hnext⟩
      rw [hc]
      rintro _ ⟨⟩
      exact hne
  · cases op with
    | negate => exact ⟨'-', rfl, by decide, by decide⟩
    | invert => exact ⟨'!', rfl, by decide, by decide⟩
    | _ => cases hop

/-- An opening bracket, pieces and a closing bracket behind a callee. -/
theorem compact_suffix {callee inner : List Piece} {opening closing : TokenKind}
    (hcallee : Compact callee) (hinner : Apart closing.spelling.head? inner)
    (hkinds : (opening, closing) ∈ [(.lparen, .rparen), (.lbracket, .rbracket)]) :
    Compact (callee ++ .fixed opening :: inner ++ [.fixed closing]) := by
  rw [List.append_assoc]
  refine hcallee.append (fun next _ => ?_) ?_
  · rw [List.cons_append, Apart, apart_append]
    simp only [List.mem_cons, Prod.mk.injEq, List.not_mem_nil, or_false] at hkinds
    rcases hkinds with ⟨rfl, rfl⟩ | ⟨rfl, rfl⟩
    · exact ⟨settled_mark (by decide), hinner, settled_mark (by decide), trivial⟩
    · exact ⟨settled_mark (by decide), hinner, settled_mark (by decide), trivial⟩
  · simp only [List.mem_cons, Prod.mk.injEq, List.not_mem_nil, or_false] at hkinds
    rcases hkinds with ⟨rfl, rfl⟩ | ⟨rfl, rfl⟩
    · exact ⟨'(', rfl, rfl⟩
    · exact ⟨'[', rfl, rfl⟩

theorem compact_member {callee : List Piece} {field : Scalar} (hcallee : Compact callee)
    (hfield : field.isName = true) : Compact (callee ++ [.fixed .dot, namePiece field]) := by
  refine hcallee.append (fun next hnext => ?_) ⟨'.', rfl, rfl⟩
  exact ⟨settled_mark (by decide), settled_name hfield hnext, trivial⟩

theorem compact_items {items : List Tree} (h : ∀ t ∈ items, Compact t.written) :
    ∀ ps ∈ items.map written, Compact ps := by
  intro ps hps
  obtain ⟨t, ht, rfl⟩ := List.mem_map.1 hps
  exact h t ht

theorem WellFormed.compact {t : Tree} (h : t.WellFormed) : Compact t.written := by
  induction h with
  | num hn =>
    rw [written_eq (pieces_num hn)]
    exact .single (fun _ => settled_number hn) (head_number _)
  | @boolean _ b =>
    rw [written_eq pieces_boolean]
    refine .single (fun _ => settled_truth) ?_
    cases b with
    | true => exact ⟨'t', rfl, by decide, by decide⟩
    | false => exact ⟨'f', rfl, by decide, by decide⟩
  | string =>
    rw [written_eq pieces_string]
    exact .single (fun _ _ => settled_quoted) ⟨'"', rfl, by decide, by decide⟩
  | identifier hname =>
    rw [written_eq pieces_identifier]
    exact .single (fun _ => settled_name hname) (head_name hname)
  | ifThen hcond hbody ihcond ihbody =>
    rw [written_eq (pieces_ifThen hcond.laid (laid_all hbody))]
    exact compact_ifThen ihcond (compact_items ihbody)
  | ifThenElse hcond hbody hother ihcond ihbody ihother =>
    rw [written_eq (pieces_ifThenElse hcond.laid (laid_all hbody) (laid_all hother))]
    exact compact_ifThenElse ihcond (compact_items ihbody) (compact_items ihother)
  | letBind hname hvalue ih =>
    rw [written_eq (pieces_letBind hvalue.laid)]
    exact compact_letBind hname ih
  | array helements ih =>
    rw [written_eq (pieces_array (laid_all helements))]
    exact compact_array (compact_items ih)
  | object hnames hvalues ih =>
    rw [written_eq (pieces_object fun f hf => (hvalues f hf).laid)]
    refine compact_object fun ps hps => ?_
    obtain ⟨f, hf, rfl⟩ := List.mem_map.1 hps
    exact compact_field (hnames f hf) (ih f hf)
  | lambdaEmpty hbody ih =>
    rw [written_eq (pieces_lambda hbody.laid)]
    exact @compact_lambda [] _ trivial ih
  | @lambda _ param _ hparam hbody ih =>
    rw [written_eq (pieces_lambda hbody.laid)]
    refine compact_lambda ?_ ih
    unfold paramPieces
    split
    · exact ⟨settled_name hparam (noWord (c := ')') rfl), trivial⟩
    · exact trivial
  | block hbody ih =>
    rw [written_eq (pieces_block (laid_all hbody))]
    exact compact_block (compact_items ih)
  | @binary _ _ _ op hop hleft hright ihleft ihright =>
    obtain ⟨k, hk⟩ := tier?_of_isUnary hop
    rw [written_eq (pieces_binary hk hleft.laid hright.laid)]
    exact compact_binary op (compact_placed ihleft k) (compact_placed ihright (k + 1))
  | unary hop hoperand ih =>
    rw [written_eq (pieces_unary hoperand.laid)]
    exact compact_unary hop (compact_placed ih _)
  | callEmpty hcallee ih =>
    rw [written_eq (pieces_callEmpty hcallee.laid)]
    have := @compact_suffix _ [] .lparen .rparen (compact_placed ih postfixStrength) trivial
      (by decide)
    simpa using this
  | call hcallee harg ihcallee iharg =>
    rw [written_eq (pieces_call hcallee.laid harg.laid)]
    exact compact_suffix (compact_placed ihcallee _) (iharg.apart _ (noWord (c := ')') rfl))
      (by decide)
  | index hcallee hkey ihcallee ihkey =>
    rw [written_eq (pieces_index hcallee.laid hkey.laid)]
    exact compact_suffix (compact_placed ihcallee _) (ihkey.apart _ (noWord (c := ']') rfl))
      (by decide)
  | member hcallee hfield ih =>
    rw [written_eq (pieces_member hcallee.laid)]
    exact compact_member (compact_placed ih _) hfield

end Tree

end NordLang

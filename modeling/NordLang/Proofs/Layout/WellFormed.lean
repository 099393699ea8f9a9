import NordLang.Proofs.Lexing.Lexeme
import NordLang.Proofs.Result
import NordLang.Tree.Layout

/-!
# Well-formed trees

The trees that stand for source texts: numbers in range, names that can be read as names, operators
where they belong and no child missing but the optional ones.

Laying out a well-formed tree does not fail, so the pieces and the strength of such a tree are plain
values, `written` and `rank`.  The lemmas named after the forms say how `written` goes through the
tree.  Later proofs use them and do not open `pieces`.
-/

namespace NordLang

/-- Whether a payload is a text that can be a name. -/
def Scalar.isName : Scalar → Bool
  | .text s => NordLang.isName s.toList
  | _ => false

namespace Tree

inductive WellFormed : Tree → Prop where
  | num {loc : Location} {n : Nat} (hn : n ≤ maxInteger) : WellFormed (constant loc (num (.int n)))
  | boolean {loc : Location} {b : Bool} : WellFormed (constant loc (boolean (.bool b)))
  | string {loc : Location} {s : String} : WellFormed (constant loc (string (.text s)))
  | identifier {loc : Location} {name : Scalar} (hname : name.isName = true) :
      WellFormed (constant loc (identifier name))
  | ifThen {loc bodyLoc : Location} {cond : Tree} {body : List Tree} (hcond : WellFormed cond)
      (hbody : ∀ t ∈ body, WellFormed t) :
      WellFormed (ifElse loc cond (block bodyLoc body) missing)
  | ifThenElse {loc bodyLoc otherLoc : Location} {cond : Tree} {body other : List Tree}
      (hcond : WellFormed cond) (hbody : ∀ t ∈ body, WellFormed t)
      (hother : ∀ t ∈ other, WellFormed t) :
      WellFormed (ifElse loc cond (block bodyLoc body) (block otherLoc other))
  | letBind {loc : Location} {name : Scalar} {value : Tree} (hname : name.isName = true)
      (hvalue : WellFormed value) : WellFormed (letBind loc name value)
  | array {loc : Location} {elements : List Tree} (helements : ∀ t ∈ elements, WellFormed t) :
      WellFormed (array loc elements)
  | object {loc : Location} {fields : List (Scalar × Tree)}
      (hnames : ∀ f ∈ fields, f.1.isName = true) (hvalues : ∀ f ∈ fields, WellFormed f.2) :
      WellFormed (object loc fields)
  | lambdaEmpty {loc : Location} {body : Tree} (hbody : WellFormed body) :
      WellFormed (lambda loc .null body)
  | lambda {loc : Location} {param : Scalar} {body : Tree} (hparam : param.isName = true)
      (hbody : WellFormed body) : WellFormed (lambda loc param body)
  | block {loc : Location} {body : List Tree} (hbody : ∀ t ∈ body, WellFormed t) :
      WellFormed (block loc body)
  | binary {loc : Location} {left right : Tree} {op : Operator} (hop : op.isUnary = false)
      (hleft : WellFormed left) (hright : WellFormed right) :
      WellFormed (binary loc left (some op) right)
  | unary {loc : Location} {op : Operator} {operand : Tree} (hop : op.isUnary = true)
      (hoperand : WellFormed operand) : WellFormed (unary loc (some op) operand)
  | callEmpty {loc : Location} {callee : Tree} (hcallee : WellFormed callee) :
      WellFormed (call loc callee missing)
  | call {loc : Location} {callee arg : Tree} (hcallee : WellFormed callee)
      (harg : WellFormed arg) : WellFormed (call loc callee arg)
  | index {loc : Location} {callee key : Tree} (hcallee : WellFormed callee)
      (hkey : WellFormed key) : WellFormed (index loc callee key)
  | member {loc : Location} {callee : Tree} {field : Scalar} (hcallee : WellFormed callee)
      (hfield : field.isName = true) : WellFormed (member loc callee field)

/-- The pieces of a tree, none if it cannot be laid out. -/
def written (t : Tree) : List Piece :=
  t.pieces.toOption.getD []

/-- How tightly a tree binds, 0 if that is not known. -/
def rank (t : Tree) : Nat :=
  t.strength.toOption.getD 0

/-- The pieces of a tree as an operand whose rank has to be at least `least`. -/
def placed (t : Tree) (least : Nat) : List Piece :=
  if t.rank < least then Piece.parenthesized t.written else t.written

/-- A tree that can be laid out, also as an operand or an item. -/
structure Laid (t : Tree) : Prop where
  pieces : t.pieces = .ok t.written
  strength : t.strength = .ok t.rank
  oddName : t.oddName? = none

attribute [local simp] pieces piecesAll piecesFields

theorem written_eq {t : Tree} {ps : List Piece} (h : t.pieces = .ok ps) : t.written = ps := by
  rw [written, h]
  rfl

theorem placed_of_le {t : Tree} {least : Nat} (h : least ≤ t.rank) : t.placed least = t.written :=
  if_neg (Nat.not_lt.2 h)

@[simp] theorem placed_zero (t : Tree) : t.placed 0 = t.written :=
  placed_of_le (Nat.zero_le _)

theorem Laid.of_pieces {t : Tree} {ps : List Piece} {k : Nat} (hpieces : t.pieces = .ok ps)
    (hstrength : t.strength = .ok k) (hodd : t.oddName? = none) : t.Laid := by
  refine ⟨?_, ?_, hodd⟩
  · rw [written_eq hpieces, hpieces]
  · rw [rank, hstrength]
    rfl

theorem Laid.operand {t : Tree} (h : t.Laid) (least : Nat) :
    t.operand t.written least = .ok (t.placed least) := by
  rw [Tree.operand, h.strength]
  rfl

theorem Laid.ne_missing {t : Tree} (h : t.Laid) : t ≠ missing := by
  rintro rfl
  have := h.pieces
  simp at this

theorem oddItem?_eq_none {items : List Tree} (h : ∀ t ∈ items, t.oddName? = none) (n : Nat) :
    oddItem? n items = none := by
  induction items generalizing n with
  | nil => rfl
  | cons t items ih =>
    rw [oddItem?, h t List.mem_cons_self]
    exact ih (fun u hu => h u (List.mem_cons_of_mem _ hu)) (n + 1)

theorem piecesAll_of_laid {items : List Tree} (h : ∀ t ∈ items, t.Laid) :
    piecesAll items = .ok (items.map written) := by
  induction items with
  | nil => simp
  | cons t items ih =>
    have ht := (h t List.mem_cons_self).pieces
    have hitems := ih fun u hu => h u (List.mem_cons_of_mem _ hu)
    simp [ht, hitems]

theorem joinable_of_laid {items : List Tree} (h : ∀ t ∈ items, t.Laid) (ps : List (List Piece)) :
    joinable items ps = .ok ps := by
  rw [joinable, oddItem?_eq_none fun t ht => (h t ht).oddName]

/-! ## The pieces of each form -/

section forms

variable {loc : Location}

theorem length_toDigits_le {n : Nat} (hn : n ≤ maxInteger) :
    (Nat.toDigits 10 n).length ≤ digitLimit := by
  have hlength : (Nat.toDigits 10 n).length ≤ 19 := by
    rw [Nat.length_toDigits_le_iff (by decide) (by decide)]
    simp only [maxInteger] at hn
    omega
  exact Nat.le_trans hlength (by decide)

theorem numberPiece_of_le {n : Nat} (hn : n ≤ maxInteger) :
    numberPiece (.int n) = .ok (.number (Nat.toDigits 10 n)) := by
  have htext : (toString (n : Int)).toList = Nat.toDigits 10 n := by
    simp [toString, Int.repr, Nat.repr]
  have hlimit : ¬ digitLimit < (Nat.toDigits 10 (n : Int).natAbs).length :=
    Nat.not_lt.2 (length_toDigits_le hn)
  simp only [numberPiece, if_neg hlimit, htext]

theorem pieces_num {n : Nat} (hn : n ≤ maxInteger) :
    (constant loc (num (.int n))).pieces = .ok [.number (Nat.toDigits 10 n)] := by
  simp [atomPiece, numberPiece_of_le hn]

theorem pieces_boolean {b : Bool} : (constant loc (boolean (.bool b))).pieces = .ok [.truth b] := by
  simp [atomPiece, Scalar.isTrue]

theorem pieces_string {s : String} :
    (constant loc (string (.text s))).pieces = .ok [.quoted s.toList] := by
  simp [atomPiece]

theorem pieces_identifier {name : Scalar} :
    (constant loc (identifier name)).pieces = .ok [namePiece name] := by
  simp [atomPiece, namePiece]

theorem pieces_ifThen {l : Location} {cond : Tree} {body : List Tree} (hcond : cond.Laid)
    (hbody : ∀ t ∈ body, t.Laid) :
    (ifElse loc cond (block l body) missing).pieces =
      .ok (.fixed .ifKw :: .blank :: cond.written ++ .blank :: .fixed .thenKw ::
        bodyPieces (body.map written) ++ [.blank, .fixed .endKw]) := by
  simp [branchPieces, hcond.pieces, piecesAll_of_laid hbody, joinable_of_laid hbody]

theorem pieces_ifThenElse {l m : Location} {cond : Tree} {body other : List Tree}
    (hcond : cond.Laid) (hbody : ∀ t ∈ body, t.Laid) (hother : ∀ t ∈ other, t.Laid) :
    (ifElse loc cond (block l body) (block m other)).pieces =
      .ok (.fixed .ifKw :: .blank :: cond.written ++ .blank :: .fixed .thenKw ::
        bodyPieces (body.map written) ++ .blank :: .fixed .elseKw ::
        bodyPieces (other.map written) ++ [.blank, .fixed .endKw]) := by
  simp [branchPieces, hcond.pieces, piecesAll_of_laid hbody, joinable_of_laid hbody,
    piecesAll_of_laid hother, joinable_of_laid hother]

theorem pieces_letBind {name : Scalar} {value : Tree} (hvalue : value.Laid) :
    (letBind loc name value).pieces =
      .ok (.fixed .letKw :: .blank :: namePiece name :: .blank :: .fixed .equals :: .blank ::
        value.written) := by
  simp [hvalue.pieces]

theorem pieces_array {elements : List Tree} (helements : ∀ t ∈ elements, t.Laid) :
    (array loc elements).pieces = .ok (arrayPieces (elements.map written)) := by
  simp [piecesAll_of_laid helements, joinable_of_laid helements]

theorem pieces_object {fields : List (Scalar × Tree)} (hfields : ∀ f ∈ fields, f.2.Laid) :
    (object loc fields).pieces =
      .ok (objectPieces (fields.map fun f => fieldPieces f.1.plain f.2.written)) := by
  have hall : piecesFields fields =
      .ok (fields.map fun f => fieldPieces f.1.plain f.2.written) := by
    induction fields with
    | nil => simp
    | cons f fields ih =>
      have hf := (hfields f List.mem_cons_self).pieces
      have hrest := ih fun g hg => hfields g (List.mem_cons_of_mem _ hg)
      simp [hf, hrest]
  simp [hall]

theorem pieces_lambda {param : Scalar} {body : Tree} (hbody : body.Laid) :
    (lambda loc param body).pieces =
      .ok (.fixed .fnKw :: .fixed .lparen :: paramPieces param ++ .fixed .rparen :: .blank ::
        body.written) := by
  simp [hbody.pieces]

theorem paramPieces_of_isName {param : Scalar} (hparam : param.isName = true) :
    paramPieces param = [namePiece param] := by
  cases param with
  | text s =>
    have hne : s ≠ "" := by
      rintro rfl
      cases hparam
    simp [paramPieces, Scalar.isTrue, hne]
  | _ => cases hparam

theorem pieces_block {body : List Tree} (hbody : ∀ t ∈ body, t.Laid) :
    (block loc body).pieces = .ok (blockPieces (body.map written)) := by
  simp [piecesAll_of_laid hbody, joinable_of_laid hbody]

theorem pieces_binary {left right : Tree} {op : Operator} {k : Nat} (hop : op.tier? = some k)
    (hleft : left.Laid) (hright : right.Laid) :
    (binary loc left (some op) right).pieces =
      .ok (left.placed k ++ .blank :: .fixed op.sign :: .blank :: right.placed (k + 1)) := by
  simp [hop, hleft.pieces, hright.pieces, hleft.operand, hright.operand]

theorem pieces_unary {op : Operator} {operand : Tree} (hoperand : operand.Laid) :
    (unary loc (some op) operand).pieces =
      .ok (.fixed op.sign ::
        if op = .negate ∧ Piece.firstChar? (operand.placed unaryStrength) = some '-' then
          .blank :: operand.placed unaryStrength
        else operand.placed unaryStrength) := by
  simp only [pieces, hoperand.pieces, hoperand.operand, signed, hoperand.oddName, ok_bind]
  split <;> simp_all

theorem pieces_callEmpty {callee : Tree} (hcallee : callee.Laid) :
    (call loc callee missing).pieces =
      .ok (callee.placed postfixStrength ++ [.fixed .lparen, .fixed .rparen]) := by
  simp [hcallee.pieces, hcallee.operand]

theorem pieces_call {callee arg : Tree} (hcallee : callee.Laid) (harg : arg.Laid) :
    (call loc callee arg).pieces =
      .ok (callee.placed postfixStrength ++ .fixed .lparen :: arg.written ++ [.fixed .rparen]) := by
  have hne := harg.ne_missing
  simp only [pieces, hcallee.pieces, harg.pieces, hcallee.operand, ok_bind, pure_eq_ok]

theorem pieces_index {callee key : Tree} (hcallee : callee.Laid) (hkey : key.Laid) :
    (index loc callee key).pieces =
      .ok (callee.placed postfixStrength ++ .fixed .lbracket :: key.written ++
        [.fixed .rbracket]) := by
  simp [hcallee.pieces, hkey.pieces, hcallee.operand]

theorem pieces_member {callee : Tree} {field : Scalar} (hcallee : callee.Laid) :
    (member loc callee field).pieces =
      .ok (callee.placed postfixStrength ++ [.fixed .dot, namePiece field]) := by
  simp [hcallee.pieces, hcallee.operand]

end forms

theorem tier?_of_isUnary {op : Operator} (h : op.isUnary = false) : ∃ k, op.tier? = some k := by
  cases hop : op.tier? with
  | none => simp [Operator.isUnary, hop] at h
  | some k => exact ⟨k, rfl⟩

theorem strength_binary {loc : Location} {left right : Tree} {op : Operator} {k : Nat}
    (hop : op.tier? = some k) : (binary loc left (some op) right).strength = .ok k := by
  simp only [strength, Option.bind_some, hop]

theorem rank_binary {loc : Location} {left right : Tree} {op : Operator} {k : Nat}
    (hop : op.tier? = some k) : (binary loc left (some op) right).rank = k := by
  rw [rank, strength_binary hop]
  rfl

theorem rank_le (t : Tree) : t.rank ≤ 9 := by
  cases t with
  | binary loc left op right =>
    cases hop : op.bind Operator.tier? with
    | none => simp [rank, strength, hop, Except.toOption]
    | some k =>
      obtain ⟨sign, rfl, hk⟩ := Option.bind_eq_some_iff.1 hop
      rw [rank_binary hk]
      cases sign <;> cases hk <;> decide
  | _ => exact Nat.le_of_ble_eq_true rfl

theorem WellFormed.laid {t : Tree} (h : t.WellFormed) : t.Laid := by
  induction h with
  | num hn => exact .of_pieces (pieces_num hn) rfl rfl
  | boolean => exact .of_pieces pieces_boolean rfl rfl
  | string => exact .of_pieces pieces_string rfl rfl
  | @identifier loc name hname =>
    refine .of_pieces pieces_identifier rfl ?_
    cases name with
    | text s => rfl
    | _ => cases hname
  | ifThen _ _ hcond hbody => exact .of_pieces (pieces_ifThen hcond hbody) rfl rfl
  | ifThenElse _ _ _ hcond hbody hother =>
    exact .of_pieces (pieces_ifThenElse hcond hbody hother) rfl rfl
  | letBind _ _ hvalue => exact .of_pieces (pieces_letBind hvalue) rfl rfl
  | array _ helements => exact .of_pieces (pieces_array helements) rfl rfl
  | object _ _ hvalues => exact .of_pieces (pieces_object hvalues) rfl rfl
  | lambdaEmpty _ hbody => exact .of_pieces (pieces_lambda hbody) rfl rfl
  | lambda _ _ hbody => exact .of_pieces (pieces_lambda hbody) rfl rfl
  | block _ hbody => exact .of_pieces (pieces_block hbody) rfl rfl
  | binary hop _ _ hleft hright =>
    obtain ⟨k, hk⟩ := tier?_of_isUnary hop
    exact .of_pieces (pieces_binary hk hleft hright) (strength_binary hk) rfl
  | unary _ _ hoperand => exact .of_pieces (pieces_unary hoperand) rfl rfl
  | callEmpty _ hcallee => exact .of_pieces (pieces_callEmpty hcallee) rfl rfl
  | call _ _ hcallee harg => exact .of_pieces (pieces_call hcallee harg) rfl rfl
  | index _ _ hcallee hkey => exact .of_pieces (pieces_index hcallee hkey) rfl rfl
  | member _ _ hcallee => exact .of_pieces (pieces_member hcallee) rfl rfl

theorem laid_all {items : List Tree} (h : ∀ t ∈ items, t.WellFormed) : ∀ t ∈ items, t.Laid :=
  fun t ht => (h t ht).laid

/-- Laying out a well-formed tree gives a text. -/
theorem WellFormed.layout {t : Tree} (h : t.WellFormed) :
    t.layout = .ok (.text (String.ofList (Piece.textOf t.written))) := by
  rw [Tree.layout, h.laid.oddName, Tree.text, h.laid.pieces]
  rfl

end Tree

end NordLang

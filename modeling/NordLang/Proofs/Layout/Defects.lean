import NordLang.Proofs.Layout.WellFormed

/-!
# Defects of trees

Where a tree cannot be laid out because a part of it is of no kind that has a text.

* `Assembled` are the trees whose nodes are in order, but which may hold anything from the world of
  trees in the place of an expression or an atom.
* `defects` are the places of what does not belong where it stands, in the order in which laying out
  meets them.
* `Settles` ties a step of laying out to the defects it meets, and is put together as the steps are
  (`Settles.bind`).  Laying out an assembled tree settles its defects (`Assembled.settles`), so it
  fails exactly at the first of them.
-/

namespace NordLang

namespace Tree

/-! ## Assembled trees -/

def isAtom : Tree → Bool
  | bareAtom | num _ | boolean _ | string _ | identifier _ => true
  | _ => false

/-- What may stand in a constant: an atom that has a text, or else a bare atom, a node or nothing at
all. -/
inductive Held : Tree → Prop where
  | num {n : Int} (hn : (Nat.toDigits 10 n.natAbs).length ≤ digitLimit) : Held (num (.int n))
  | boolean {b : Bool} : Held (boolean (.bool b))
  | string {s : String} : Held (string (.text s))
  | identifier {s : String} : Held (identifier (.text s))
  | bareAtom : Held bareAtom
  | missing : Held missing
  | node {t : Tree} (h : t.loc?.isSome = true) : Held t

/-- What may stand in the place of an expression: a node with an operator of its own kind, blocks
for its branches and any names, or else a bare node, an atom or nothing at all. -/
inductive Assembled : Tree → Prop where
  | missing : Assembled missing
  | bareNode {loc : Location} : Assembled (bareNode loc)
  | atom {t : Tree} (h : t.isAtom = true) : Assembled t
  | constant {loc : Location} {atom : Tree} (hatom : Held atom) : Assembled (constant loc atom)
  | ifThen {loc bodyLoc : Location} {cond : Tree} {body : List Tree} (hcond : Assembled cond)
      (hbody : ∀ t ∈ body, Assembled t) :
      Assembled (ifElse loc cond (block bodyLoc body) missing)
  | ifThenElse {loc bodyLoc otherLoc : Location} {cond : Tree} {body other : List Tree}
      (hcond : Assembled cond) (hbody : ∀ t ∈ body, Assembled t)
      (hother : ∀ t ∈ other, Assembled t) :
      Assembled (ifElse loc cond (block bodyLoc body) (block otherLoc other))
  | letBind {loc : Location} {name : String} {value : Tree} (hvalue : Assembled value) :
      Assembled (letBind loc (.text name) value)
  | array {loc : Location} {elements : List Tree} (helements : ∀ t ∈ elements, Assembled t) :
      Assembled (array loc elements)
  | object {loc : Location} {fields : List (Scalar × Tree)}
      (hnames : ∀ f ∈ fields, ∃ name, f.1 = .text name) (hvalues : ∀ f ∈ fields, Assembled f.2) :
      Assembled (object loc fields)
  | lambdaEmpty {loc : Location} {body : Tree} (hbody : Assembled body) :
      Assembled (lambda loc .null body)
  | lambda {loc : Location} {param : String} {body : Tree} (hbody : Assembled body) :
      Assembled (lambda loc (.text param) body)
  | block {loc : Location} {body : List Tree} (hbody : ∀ t ∈ body, Assembled t) :
      Assembled (block loc body)
  | binary {loc : Location} {left right : Tree} {op : Operator} (hop : op.isUnary = false)
      (hleft : Assembled left) (hright : Assembled right) :
      Assembled (binary loc left (some op) right)
  | unary {loc : Location} {op : Operator} {operand : Tree} (hop : op.isUnary = true)
      (hoperand : Assembled operand) : Assembled (unary loc (some op) operand)
  | call {loc : Location} {callee arg : Tree} (hcallee : Assembled callee)
      (harg : Assembled arg) : Assembled (call loc callee arg)
  | index {loc : Location} {callee key : Tree} (hcallee : Assembled callee)
      (hkey : Assembled key) : Assembled (index loc callee key)
  | member {loc : Location} {callee : Tree} {field : String} (hcallee : Assembled callee) :
      Assembled (member loc callee (.text field))

theorem Assembled.oddName? {t : Tree} (h : t.Assembled) : t.oddName? = none := by
  cases h with
  | atom h =>
    cases t with
    | constant => cases h
    | _ => rfl
  | @constant _ atom hatom =>
    cases hatom with
    | node h =>
      cases atom with
      | identifier => cases h
      | _ => rfl
    | _ => rfl
  | _ => rfl

theorem Assembled.strength {t : Tree} (h : t.Assembled) : ∃ k, t.strength = .ok k := by
  cases h with
  | binary hop =>
    obtain ⟨k, hk⟩ := tier?_of_isUnary hop
    exact ⟨k, strength_binary hk⟩
  | atom h =>
    cases t with
    | binary => cases h
    | _ => exact ⟨_, rfl⟩
  | _ => exact ⟨_, rfl⟩

/-! ## Defects -/

mutual

/-- The places of the defects of a tree.  A bare node is a defect at its own place, and a constant
that holds no atom with a text at the place of the constant.  An atom or nothing where an expression
belongs is a defect nowhere in particular.  An argument and an alternative may be left out. -/
def defects : Tree → List Location
  | constant loc atom =>
    match atom with
    | num _ | boolean _ | string _ | identifier _ => []
    | _ => [loc]
  | ifElse _ cond thenBranch elseBranch =>
    cond.defects ++ thenBranch.defects ++
      match elseBranch with
      | missing => []
      | _ => elseBranch.defects
  | letBind _ _ value => value.defects
  | array _ elements => defectsAll elements
  | object _ fields => defectsFields fields
  | lambda _ _ body => body.defects
  | block _ body => defectsAll body
  | binary _ left _ right => left.defects ++ right.defects
  | unary _ _ operand => operand.defects
  | call _ callee arg =>
    (match arg with
      | missing => []
      | _ => arg.defects) ++ callee.defects
  | index _ callee key => callee.defects ++ key.defects
  | member _ callee _ => callee.defects
  | t => [t.loc?.getD Diagnostic.nowhere]

def defectsAll : List Tree → List Location
  | [] => []
  | t :: ts => t.defects ++ defectsAll ts

def defectsFields : List (Scalar × Tree) → List Location
  | [] => []
  | (_, value) :: rest => value.defects ++ defectsFields rest

end

/-- A step of laying out that meets the given defects: it comes to a result if there are none, and
is refused for the first of them otherwise. -/
def Settles {α : Type} (step : Except LayoutFault α) : List Location → Prop
  | [] => ∃ result, step = .ok result
  | loc :: _ => ∃ fault d, step = .error fault ∧ fault.diagnostic? = some d ∧ d.detail = .layout ∧
      d.loc = loc

namespace Settles

variable {α β : Type} {step : Except LayoutFault α} {next : α → Except LayoutFault β}
  {places more : List Location}

theorem ok (a : α) : Settles (.ok a) [] := ⟨a, rfl⟩

theorem bind (h : Settles step places) (hnext : ∀ a, Settles (next a) more) :
    Settles (step >>= next) (places ++ more) := by
  cases places with
  | nil =>
    obtain ⟨a, rfl⟩ := h
    exact hnext a
  | cons loc places =>
    obtain ⟨fault, d, rfl, hd⟩ := h
    exact ⟨fault, d, rfl, hd⟩

/-- A step that meets nothing adds nothing. -/
theorem andThen (h : Settles step places) (hnext : ∀ a, Settles (next a) []) :
    Settles (step >>= next) places := by
  simpa using h.bind hnext

theorem map (h : Settles step places) (f : α → β) : Settles (step.map f) places := by
  have hbind : step.map f = step >>= fun a => .ok (f a) := by cases step <;> rfl
  rw [hbind]
  exact h.andThen fun a => .ok (f a)

end Settles

/-! ## Steps of laying out -/

theorem settles_operand {t : Tree} (h : t.Assembled) (ps : List Piece) (least : Nat) :
    Settles (t.operand ps least) [] := by
  obtain ⟨k, hk⟩ := h.strength
  rw [operand, hk]
  exact .ok _

theorem settles_signed {t : Tree} (h : t.Assembled) (op : Operator) (ps : List Piece) :
    Settles (signed (some op) t ps) [] := by
  simp only [signed, h.oddName?]
  split
  · exact .ok _
  · exact .ok _

theorem settles_joinable {items : List Tree} (h : ∀ t ∈ items, t.Assembled)
    (ps : List (List Piece)) : Settles (joinable items ps) [] := by
  rw [joinable, oddItem?_eq_none fun t ht => (h t ht).oddName?]
  exact .ok ps

theorem atomPiece_of_node {t : Tree} (h : t.loc?.isSome = true) (loc : Location) :
    atomPiece loc t = .error (.unsupportedAtom t.kindName loc) := by
  cases t with
  | num | boolean | string | identifier => cases h
  | _ => rfl

theorem settles_atomPiece {atom : Tree} (h : Held atom) (loc : Location) :
    Settles (atomPiece loc atom) (constant loc atom).defects := by
  cases h with
  | num hn =>
    have hlimit := Nat.not_lt.2 hn
    simp only [atomPiece, numberPiece, if_neg hlimit, defects]
    exact .ok _
  | boolean | string | identifier =>
    simp only [atomPiece, defects]
    exact .ok _
  | bareAtom | missing =>
    simp only [defects]
    exact ⟨_, _, rfl, rfl, rfl, rfl⟩
  | node h =>
    have hdefects : (constant loc atom).defects = [loc] := by
      cases atom with
      | num | boolean | string | identifier => cases h
      | _ => simp only [defects]
    rw [atomPiece_of_node h, hdefects]
    exact ⟨_, _, rfl, rfl, rfl, rfl⟩

theorem settles_piecesAll {items : List Tree} (h : ∀ t ∈ items, Settles t.pieces t.defects) :
    Settles (piecesAll items) (defectsAll items) := by
  induction items with
  | nil =>
    simp only [piecesAll, defectsAll]
    exact .ok []
  | cons t items ih =>
    simp only [piecesAll, defectsAll]
    refine (h t List.mem_cons_self).bind fun ps => ?_
    exact (ih fun u hu => h u (List.mem_cons_of_mem t hu)).andThen fun _ => .ok _

theorem settles_piecesFields {fields : List (Scalar × Tree)}
    (h : ∀ f ∈ fields, Settles f.2.pieces f.2.defects) :
    Settles (piecesFields fields) (defectsFields fields) := by
  induction fields with
  | nil =>
    simp only [piecesFields, defectsFields]
    exact .ok []
  | cons f fields ih =>
    simp only [piecesFields, defectsFields]
    refine (h f List.mem_cons_self).bind fun ps => ?_
    exact (ih fun g hg => h g (List.mem_cons_of_mem f hg)).andThen fun _ => .ok _

/-- The items of a body or an array. -/
theorem settles_items {items : List Tree} (h : ∀ t ∈ items, t.Assembled)
    (hitems : ∀ t ∈ items, Settles t.pieces t.defects) {α : Type}
    (f : List (List Piece) → α) :
    Settles (do return f (← joinable items (← piecesAll items))) (defectsAll items) := by
  refine (settles_piecesAll hitems).andThen fun ps => ?_
  exact (settles_joinable h ps).andThen fun _ => .ok _

/-- Laying out an assembled tree meets its defects.  Each step of a form is settled by the induction
hypothesis for a part, or meets nothing. -/
theorem Assembled.settles {t : Tree} (h : t.Assembled) : Settles t.pieces t.defects := by
  induction h with
  | missing =>
    simp only [pieces, defects]
    exact ⟨_, _, rfl, rfl, rfl, rfl⟩
  | bareNode =>
    simp only [pieces, defects]
    exact ⟨_, _, rfl, rfl, rfl, rfl⟩
  | @atom t h =>
    cases t with
    | bareAtom | num | boolean | string | identifier =>
      simp only [pieces, defects]
      exact ⟨_, _, rfl, rfl, rfl, rfl⟩
    | _ => cases h
  | constant hatom =>
    simp only [pieces]
    exact (settles_atomPiece hatom _).andThen fun _ => .ok _
  | ifThen _ hbody hcond hbodies =>
    simp only [pieces, branchPieces, defects, List.append_nil]
    refine hcond.bind fun condPieces => ?_
    refine (settles_items hbody hbodies bodyPieces).andThen fun thenPieces => ?_
    exact .ok _
  | ifThenElse _ hbody hother hcond hbodies hothers =>
    simp only [pieces, branchPieces, defects, List.append_assoc]
    refine hcond.bind fun condPieces => ?_
    refine (settles_items hbody hbodies bodyPieces).bind fun thenPieces => ?_
    refine Settles.andThen ?_ fun _ => .ok _
    exact (settles_items hother hothers bodyPieces).map _
  | letBind _ hvalue =>
    simp only [pieces, defects]
    exact hvalue.andThen fun _ => .ok _
  | array helements hitems =>
    simp only [pieces, defects]
    exact settles_items helements hitems arrayPieces
  | object _ _ hvalues =>
    simp only [pieces, defects]
    exact (settles_piecesFields hvalues).andThen fun _ => .ok _
  | lambdaEmpty _ hbody | lambda _ hbody =>
    simp only [pieces, defects]
    exact hbody.andThen fun _ => .ok _
  | block hbody hitems =>
    simp only [pieces, defects]
    exact settles_items hbody hitems blockPieces
  | binary hop hleft hright hleftPieces hrightPieces =>
    obtain ⟨k, hk⟩ := tier?_of_isUnary hop
    simp only [pieces, defects, Option.bind_some, hk]
    refine hleftPieces.bind fun ps => ?_
    refine (settles_operand hleft ps k).bind fun leftPieces => ?_
    refine hrightPieces.andThen fun qs => ?_
    exact (settles_operand hright qs (k + 1)).andThen fun _ => .ok _
  | unary _ hoperand hpieces =>
    simp only [pieces, defects]
    refine hpieces.andThen fun ps => ?_
    exact (settles_operand hoperand ps unaryStrength).andThen fun qs => settles_signed hoperand _ qs
  | @call _ callee arg hcallee _ hcalleePieces hargPieces =>
    -- The argument is laid out before the callee, unless it is left out.
    have hrest (argPieces : List Piece) :
        Settles (do
          let calleePieces ← callee.operand (← callee.pieces) postfixStrength
          return calleePieces ++ .fixed .lparen :: argPieces ++ [.fixed .rparen])
          callee.defects := by
      refine hcalleePieces.andThen fun ps => ?_
      exact (settles_operand hcallee ps postfixStrength).andThen fun _ => .ok _
    by_cases hmissing : arg = Tree.missing
    · subst hmissing
      simp only [pieces, defects]
      exact hrest []
    · simp only [pieces, defects]
      exact hargPieces.bind hrest
  | index hcallee _ hcalleePieces hkeyPieces =>
    simp only [pieces, defects]
    refine hcalleePieces.bind fun ps => ?_
    refine (settles_operand hcallee ps postfixStrength).bind fun calleePieces => ?_
    exact hkeyPieces.andThen fun _ => .ok _
  | member hcallee hcalleePieces =>
    simp only [pieces, defects]
    refine hcalleePieces.andThen fun ps => ?_
    exact (settles_operand hcallee ps postfixStrength).andThen fun _ => .ok _

/-! ## Layouts -/

theorem Assembled.layout {t : Tree} (h : t.Assembled) :
    t.layout = t.text.map fun chars => .text (String.ofList chars) := by
  rw [Tree.layout, h.oddName?]

/-- An assembled tree is refused exactly if it has a defect, and then for the first one: the failure
is a diagnostic with the place of the defect.  Without a defect there is a text. -/
theorem layout_refused_iff_defects {t : Tree} (h : t.Assembled) :
    ((∃ fault d, t.layout = .error fault ∧ fault.diagnostic? = some d ∧ d.detail = .layout) ↔
      t.defects ≠ []) ∧
    (∀ fault, t.layout = .error fault →
      ∃ d, fault.diagnostic? = some d ∧ d.detail = .layout ∧ t.defects.head? = some d.loc) ∧
    (t.defects = [] → ∃ text, t.layout = .ok (.text text)) := by
  have hsettles : Settles t.text t.defects := h.settles.map Piece.textOf
  cases hdefects : t.defects with
  | nil =>
    rw [hdefects] at hsettles
    obtain ⟨chars, hchars⟩ := hsettles
    have hlayout : t.layout = .ok (.text (String.ofList chars)) := by
      rw [h.layout, hchars]
      rfl
    simp [hlayout]
  | cons loc rest =>
    rw [hdefects] at hsettles
    obtain ⟨fault, d, hfault, hd, hdetail, rfl⟩ := hsettles
    have hlayout : t.layout = .error fault := by
      rw [h.layout, hfault]
      rfl
    refine ⟨⟨fun _ => nofun, fun _ => ⟨fault, d, hlayout, hd, hdetail⟩⟩, fun fault' h' => ?_, nofun⟩
    cases hlayout.symm.trans h'
    exact ⟨d, hd, hdetail, rfl⟩

/-- A call with defects on both sides is refused for the first one in its argument. -/
theorem layout_refused_iff_defects_call :
    let t : Tree := call ⟨1, 2⟩ (bareNode ⟨3, 4⟩)
      (array ⟨5, 6⟩ [constant ⟨7, 8⟩ (num (.int (-1))), constant ⟨9, 10⟩ bareAtom, missing])
    t.Assembled ∧ t.defects = [⟨9, 10⟩, ⟨0, 0⟩, ⟨3, 4⟩] ∧
    ∃ fault d, t.layout = .error fault ∧ fault.diagnostic? = some d ∧ d.detail = .layout ∧
      d.loc = ⟨9, 10⟩ := by
  intro t
  have ht : t.Assembled := by
    refine .call .bareNode (.array ?_)
    simp only [List.forall_mem_cons]
    exact ⟨.constant (.num (by decide)), .constant .bareAtom, .missing, nofun⟩
  have hdefects : t.defects = [⟨9, 10⟩, ⟨0, 0⟩, ⟨3, 4⟩] := rfl
  obtain ⟨hiff, hplace, _⟩ := layout_refused_iff_defects ht
  have hne : t.defects ≠ [] := by
    rw [hdefects]
    nofun
  obtain ⟨fault, _, hfault, _⟩ := hiff.2 hne
  obtain ⟨d, hd, hdetail, hloc⟩ := hplace fault hfault
  rw [hdefects] at hloc
  exact ⟨ht, hdefects, fault, d, hfault, hd, hdetail, (Option.some.inj hloc).symm⟩

end Tree

end NordLang

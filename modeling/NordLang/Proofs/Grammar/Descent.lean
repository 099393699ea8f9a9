import NordLang.Proofs.Reader.Upcoming
import NordLang.Reader.Grammar

/-!
# The grammar without bounds

The functions of a reader and of the grammar carry why they end, most of them by how many tokens are
left.  Here they stand once more with nothing of the kind: they call each other freely, and loops
are calls of themselves.  What they come to is asked with calls that nest up to some depth.

* `Methods` are all functions that call each other.  `Methods.unfold` gives the body of each of
  them, with `self` for the functions it calls, and `upTo depth` does so `depth` times.
* `run_fill` says that filling the queue ends.  The next token is looked at by filling, and all else
  is done by looking.
* `Ends` says that a reading ends on a reader from some depth on, and with which outcome.  It goes
  along with the ways of the grammar to put outcomes together, such as `Ends.andThen` and
  `ends_ifNext`.
-/

namespace NordLang

/-- Reading that may fail, and that comes to nothing if calls nest too deep. -/
abbrev Reading (α : Type) : Type :=
  ExceptT ParseFault (StateT Reader Option) α

/-- One turn of filling the queue.  Where the supply ends that is only noted; the end of the input
is added in the turns after. -/
def Reader.fillTurn (r : Reader) : Reader.Result Unit :=
  if r.exhausted then (.ok (), r.pad 1)
  else
    match r.supply.pull with
    | (.token t, supply) =>
      (.ok (), { r with ahead := r.ahead ++ [t], exhausted := t.isEnd, supply })
    | (.ended, supply) => (.ok (), { r with exhausted := true, supply })
    | (.fault fault, supply) => (.error (.lexical fault), { r with supply })

namespace Descent

variable {α β : Type} {m n : Nat}

/-- The functions that call each other. -/
structure Methods where
  fill : Nat → Reading Unit
  expression : Reading Tree
  moreExpressions : TokenKind → Reading (List Tree)
  sequence : Reading (List Tree)
  body : Reading (List Tree)
  bareBlock : Option Token → Reading Tree
  ifElse : Reading Tree
  letBind : Reading Tree
  array : Reading Tree
  objectField : Reading (Scalar × Tree)
  moreFields : Reading (List (Scalar × Tree))
  object : Reading Tree
  lambda : Reading Tree
  block : Reading Tree
  primary : Reading Tree
  call : Tree → Reading Tree
  index : Tree → Reading Tree
  suffixes : Tree → Reading Tree
  suffixed : Reading Tree
  unary : Reading Tree
  chain : Nat → Tree → Reading Tree
  binary : Nat → Reading Tree

/-- Something done to the reader at once. -/
def act (f : Reader → Reader.Result α) : Reading α :=
  fun r => some (f r)

def take (t : Token) : Reading Unit :=
  act fun r => (.ok (), r.consume t)

namespace Methods

/-! ## Single tokens -/

def current (self : Methods) : Reading Token := do
  self.fill 1
  act fun r => (.ok (r.ahead.headD r.endToken), r)

def advance (self : Methods) : Reading Token := do
  let t ← self.current
  take t
  return t

def expect (self : Methods) (kind : TokenKind) (what : String) : Reading Token := do
  let t ← self.current
  if t.kind = kind then
    take t
    return t
  else throw (.expected (if what = "" then kind.name else what) t)

def accept (self : Methods) (kinds : List TokenKind) : Reading (Option Token) := do
  let t ← self.current
  if t.kind ∈ kinds then
    take t
    return some t
  else return none

def atEnd (self : Methods) : Reading Bool := do
  let t ← self.current
  return t.isEnd

/-- Takes the next token if `f` takes its kind. -/
def next? (self : Methods) (f : TokenKind → Option α) : Reading (Option (α × Token)) := do
  let t ← self.current
  match f t.kind with
  | some a =>
    take t
    return some (a, t)
  | none => return none

/-! ## The forms -/

def member (self : Methods) (callee : Tree) : Reading Tree := do
  let _ ← self.expect .dot ""
  let field ← self.expect .identifier "field name"
  return .member field.loc callee field.value

/-- Reads one expression, which has to be all there is. -/
def whole (self : Methods) : Reading Tree := do
  let tree ← self.expression
  let t ← self.current
  if t.isEnd then return tree else throw (.trailing t)

/-- The bodies of the functions, which call those of `self`. -/
def unfold (self : Methods) : Methods where
  fill count := do
    let r ← act fun r => (.ok r, r)
    if r.ahead.length < count then
      act Reader.fillTurn
      self.fill count
    else return ()
  expression := do
    let t ← self.current
    match t.kind with
    | .ifKw => self.ifElse
    | .letKw => self.letBind
    | .lbracket => self.array
    | .hash => self.object
    | .fnKw => self.lambda
    | .blockKw => self.block
    | _ => self.binary Grammar.tiers
  moreExpressions separator := do
    match ← self.next? (Grammar.only separator) with
    | some _ =>
      let e ← self.expression
      let es ← self.moreExpressions separator
      return e :: es
    | none => return []
  sequence := do
    let e ← self.expression
    let es ← self.moreExpressions .semicolon
    return e :: es
  body := do
    let t ← self.current
    if t.kind.startsExpression then self.sequence else return []
  bareBlock opener := do
    let t ←
      match opener with
      | some t => pure t
      | none => self.current
    let es ← self.body
    return .block t.loc es
  ifElse := do
    let opener ← self.expect .ifKw ""
    let cond ← self.expression
    let _ ← self.expect .thenKw "'then'"
    let thenBranch ← self.bareBlock none
    let elseBranch ← (do
      match ← self.next? (Grammar.only .elseKw) with
      | some _ => self.bareBlock none
      | none => return .missing)
    let _ ← self.expect .endKw "'end'"
    return .ifElse opener.loc cond thenBranch elseBranch
  letBind := do
    let opener ← self.expect .letKw ""
    let name ← self.expect .identifier "identifier"
    let _ ← self.expect .equals "'='"
    let value ← self.expression
    return .letBind opener.loc name.value value
  array := do
    let opener ← self.expect .lbracket ""
    let elements ← (do
      let t ← self.current
      if t.kind = .rbracket then return []
      else
        let e ← self.expression
        let es ← self.moreExpressions .comma
        return e :: es)
    let _ ← self.expect .rbracket "',' or ']'"
    return .array opener.loc elements
  objectField := do
    let name ← self.expect .identifier "field name"
    let _ ← self.expect .colon "':'"
    let value ← self.expression
    return (name.value, value)
  moreFields := do
    match ← self.next? (Grammar.only .comma) with
    | some _ =>
      let field ← self.objectField
      let fields ← self.moreFields
      return field :: fields
    | none => return []
  object := do
    let opener ← self.expect .hash ""
    let _ ← self.expect .lbrace "'\x7b'"
    let fields ← (do
      let t ← self.current
      if t.kind = .rbrace then return []
      else
        let field ← self.objectField
        let fields ← self.moreFields
        return field :: fields)
    let _ ← self.expect .rbrace "',' or '\x7d'"
    return .object opener.loc fields
  lambda := do
    let opener ← self.expect .fnKw ""
    let _ ← self.expect .lparen "'('"
    let param ← (do
      match ← self.next? (Grammar.only .identifier) with
      | some (_, t) => return t.value
      | none => return .null)
    let _ ← self.expect .rparen "')'"
    let body ← self.expression
    return .lambda opener.loc param body
  block := do
    let opener ← self.expect .blockKw ""
    let tree ← self.bareBlock (some opener)
    let _ ← self.expect .endKw "'end'"
    return tree
  primary := do
    let t ← self.current
    match t.kind with
    | .integer =>
      let t ← self.expect .integer ""
      return .constant t.loc (.num t.value)
    | .boolean =>
      let t ← self.expect .boolean ""
      return .constant t.loc (.boolean t.value)
    | .string =>
      let t ← self.expect .string ""
      return .constant t.loc (.string t.value)
    | .identifier =>
      let t ← self.expect .identifier ""
      return .constant t.loc (.identifier t.value)
    | .lparen =>
      let _ ← self.expect .lparen ""
      let tree ← self.expression
      let _ ← self.expect .rparen "')'"
      return tree
    | _ => throw (.expected "expression" t)
  call callee := do
    let opener ← self.expect .lparen ""
    let arg ← (do
      let t ← self.current
      if t.kind = .rparen then return .missing else self.expression)
    let _ ← self.expect .rparen "')'"
    return .call opener.loc callee arg
  index callee := do
    let opener ← self.expect .lbracket ""
    let key ← self.expression
    let _ ← self.expect .rbracket "']'"
    return .index opener.loc callee key
  suffixes callee := do
    let t ← self.current
    match t.kind with
    | .lparen =>
      let tree ← self.call callee
      self.suffixes tree
    | .lbracket =>
      let tree ← self.index callee
      self.suffixes tree
    | .dot =>
      let tree ← self.member callee
      self.suffixes tree
    | _ => return callee
  suffixed := do
    let tree ← self.primary
    self.suffixes tree
  unary := do
    match ← self.next? Operator.unary? with
    | some (op, t) =>
      let operand ← self.unary
      return .unary t.loc (some op) operand
    | none => self.suffixed
  chain k left := do
    match ← self.next? (Operator.ofTier? (Grammar.tiers - k)) with
    | some (op, t) =>
      let right ← self.binary k
      self.chain k (.binary t.loc left (some op) right)
    | none => return left
  binary
    | 0 => self.unary
    | k + 1 => do
      let left ← self.binary k
      self.chain k left

end Methods

/-- The functions with calls that nest at most `depth` deep. -/
def upTo : Nat → Methods
  | 0 =>
    let nothing {α : Type} : Reading α := fun _ => none
    { fill := fun _ => nothing, expression := nothing, moreExpressions := fun _ => nothing,
      sequence := nothing, body := nothing, bareBlock := fun _ => nothing, ifElse := nothing,
      letBind := nothing, array := nothing, objectField := nothing, moreFields := nothing,
      object := nothing, lambda := nothing, block := nothing, primary := nothing,
      call := fun _ => nothing, index := fun _ => nothing, suffixes := fun _ => nothing,
      suffixed := nothing, unary := nothing, chain := fun _ _ => nothing,
      binary := fun _ => nothing }
  | depth + 1 => (upTo depth).unfold

/-! ## Readings that end -/

@[simp] theorem run_act (f : Reader → Reader.Result α) (r : Reader) : (act f).run.run r = some (f r) :=
  rfl

theorem run_bind_of_ok {x : Reading α} {r r' : Reader} {a : α}
    (h : x.run.run r = some (.ok a, r')) (f : α → Reading β) :
    (x >>= f).run.run r = (f a).run.run r' := by
  rw [ExceptT.run_bind, StateT.run_bind, h]
  rfl

theorem run_bind_of_error {x : Reading α} {r r' : Reader} {fault : ParseFault}
    (h : x.run.run r = some (.error fault, r')) (f : α → Reading β) :
    (x >>= f).run.run r = some (.error fault, r') := by
  rw [ExceptT.run_bind, StateT.run_bind, h]
  rfl

/-! ### Filling the queue -/

/-- How many turns it takes at most to have `count` tokens in the queue. -/
def turns (count : Nat) (r : Reader) : Nat :=
  -- Noting the end of the supply is a turn that adds nothing to the queue.
  2 * (count - r.ahead.length) + if r.exhausted then 0 else 1

theorem turns_lt {count : Nat} {r r' : Reader} (hlength : r.ahead.length < count)
    (h : r.fillTurn = (.ok (), r')) : turns count r' < turns count r := by
  unfold Reader.fillTurn at h
  split at h
  · next hex =>
    cases h
    simp only [turns, Reader.pad, hex, List.length_append, List.length_replicate]
    omega
  · next hex =>
    split at h
    · cases h
      simp only [turns, hex, List.length_append, List.length_cons, List.length_nil]
      split <;> omega
    · cases h
      simp [turns, hex]
    · cases h

theorem pad_one_pad (n : Nat) (r : Reader) : (r.pad 1).pad n = r.pad (n + 1) := by
  have hend : (r.pad 1).endToken = r.endToken := by
    have hlast : (r.pad 1).ahead.getLast? = some r.endToken := by simp [Reader.pad]
    rw [Reader.endToken, hlast]
    exact if_pos (Reader.isEnd_endToken r)
  rw [Reader.pad, hend]
  simp [Reader.pad, List.replicate_succ]

/-- Filling goes on turn by turn. -/
theorem fill_eq_fillTurn {count : Nat} {r : Reader} (hlength : r.ahead.length < count) :
    r.fill count =
      match r.fillTurn with
      | (.error fault, r') => (.error fault, r')
      | (.ok (), r') => r'.fill count := by
  obtain ⟨k, hk⟩ : ∃ k, count - r.ahead.length = k + 1 :=
    ⟨count - r.ahead.length - 1, by omega⟩
  rw [Reader.fill, hk, Reader.fillMore, Reader.fillTurn]
  by_cases hex : r.exhausted = true
  · have hpadded : count - (r.pad 1).ahead.length = k := by
      simp only [Reader.pad, List.length_append, List.length_replicate]
      omega
    simp only [if_pos hex]
    rw [Reader.fill, hpadded]
    cases k with
    | zero => rfl
    | succ k =>
      rw [Reader.fillMore, if_pos (show (r.pad 1).exhausted = true from hex), pad_one_pad]
  · simp only [if_neg hex]
    rcases r.supply.pull with ⟨t | _ | fault, supply⟩
    · have hpulled : count - (r.ahead ++ [t]).length = k := by
        simp only [List.length_append, List.length_cons, List.length_nil]
        omega
      simp only [Reader.fill, hpulled]
    · simp only [Reader.fill, hk]
      rfl
    · rfl

theorem run_fill {count depth : Nat} {r : Reader} (h : turns count r < depth) :
    ((upTo depth).fill count).run.run r = some (r.fill count) := by
  induction depth generalizing r with
  | zero => omega
  | succ depth ih =>
    show (act (fun r => (.ok r, r)) >>= _).run.run r = _
    rw [run_bind_of_ok rfl]
    by_cases hlength : r.ahead.length < count
    · rw [if_pos hlength, fill_eq_fillTurn hlength]
      have hrun := run_act Reader.fillTurn r
      rcases hturn : r.fillTurn with ⟨fault | _, r'⟩
      · rw [hturn] at hrun
        exact run_bind_of_error hrun _
      · rw [hturn] at hrun
        rw [run_bind_of_ok hrun]
        have hlt := turns_lt hlength hturn
        exact ih (by omega)
    · rw [if_neg hlength, Reader.fill, Nat.sub_eq_zero_of_le (Nat.le_of_not_lt hlength)]
      rfl

section

variable {depth : Nat} (hdepth : 4 ≤ depth) {r : Reader}

include hdepth

theorem run_current : (upTo depth).current.run.run r = some r.current := by
  have hturns : turns 1 r < depth := by
    unfold turns
    split <;> omega
  have hrun := run_fill hturns
  rw [Methods.current, Reader.current]
  rcases hfill : r.fill 1 with ⟨fault | _, r'⟩
  · rw [hfill] at hrun
    exact run_bind_of_error hrun _
  · rw [hfill] at hrun
    exact run_bind_of_ok hrun _

/-- What starts with a look at the next token ends, if what follows does. -/
theorem run_current_bind {f : Token → Reading α} {y : Reader.Result α}
    (hfault : ∀ fault r', r.current = (.error fault, r') → y = (.error fault, r'))
    (hf : ∀ t r', r.current = (.ok t, r') → (f t).run.run r' = some y) :
    ((upTo depth).current >>= f).run.run r = some y := by
  have hrun := run_current hdepth (r := r)
  rcases hcurrent : r.current with ⟨fault | t, r'⟩
  · rw [hcurrent] at hrun
    rw [run_bind_of_error hrun, hfault fault r' hcurrent]
  · rw [hcurrent] at hrun
    rw [run_bind_of_ok hrun, hf t r' hcurrent]

theorem run_advance : (upTo depth).advance.run.run r = some r.advance := by
  refine run_current_bind hdepth (fun fault r' h => ?_) (fun t r' h => ?_)
  · rw [Reader.advance, h]
  · rw [Reader.advance, h]
    rfl

theorem run_expect (kind : TokenKind) (what : String) :
    ((upTo depth).expect kind what).run.run r = some (r.expect kind what) := by
  refine run_current_bind hdepth (fun fault r' h => ?_) (fun t r' h => ?_)
  · rw [Reader.expect, h]
  · rw [Reader.expect, h]
    by_cases ht : t.kind = kind
    · simp only [if_pos ht]
      rfl
    · simp only [if_neg ht]
      rfl

theorem run_accept (kinds : List TokenKind) :
    ((upTo depth).accept kinds).run.run r = some (r.accept kinds) := by
  refine run_current_bind hdepth (fun fault r' h => ?_) (fun t r' h => ?_)
  · rw [Reader.accept, h]
  · rw [Reader.accept, h]
    by_cases ht : t.kind ∈ kinds
    · simp only [if_pos ht]
      rfl
    · simp only [if_neg ht]
      rfl

theorem run_atEnd : (upTo depth).atEnd.run.run r = some r.atEnd := by
  refine run_current_bind hdepth (fun fault r' h => ?_) (fun t r' h => ?_)
  · rw [Reader.atEnd, h]
  · rw [Reader.atEnd, h]
    rfl

end

/-! ### Outcomes -/

variable {d : Nat}

/-- With calls that nest `d` deep or deeper, the reading ends on `r` with the given outcome.  Calls
that fill the queue to look at the next token are not counted; they nest up to `4` deep. -/
def Ends (d : Nat) (x : Methods → Reading α) (r : Reader) (o : Outcome n α) : Prop :=
  ∀ depth, d + 4 ≤ depth → (x (upTo depth)).run.run r = some o.result

theorem Ends.le {e : Nat} {x : Methods → Reading α} {r : Reader} {o : Outcome n α}
    (h : Ends d x r o) (hle : d ≤ e) : Ends e x r o :=
  fun depth hdepth => h depth (by omega)

/-- A call is one deeper than what it calls. -/
theorem Ends.unfold {x : Methods → Reading α} {r : Reader} {o : Outcome n α}
    (h : Ends d (fun self => x self.unfold) r o) : Ends (d + 1) x r o := by
  intro depth hdepth
  cases depth with
  | zero => omega
  | succ depth => exact h depth (by omega)

theorem ends_done (a : α) (r : Reader) (h : r.remaining < n) :
    Ends d (fun _ => pure a) r (.done a r h) :=
  fun _ _ => rfl

theorem ends_failed (fault : ParseFault) (r : Reader) :
    Ends d (fun _ => throw fault) r (.failed fault r : Outcome n α) :=
  fun _ _ => rfl

theorem Ends.mono {x : Methods → Reading α} {r : Reader} {o : Outcome m α} (h : Ends d x r o)
    (hmn : m ≤ n) : Ends d x r (o.mono hmn) := by
  cases o <;> exact h

theorem Ends.andThen {x : Methods → Reading α} {r : Reader} {o : Outcome m α} (hx : Ends d x r o)
    {f : Methods → α → Reading β} {g : α → (r' : Reader) → r'.remaining < m → Outcome n β}
    (hf : ∀ a r' h, Ends d (fun self => f self a) r' (g a r' h)) :
    Ends d (fun self => x self >>= f self) r (o.andThen g) := by
  intro depth hdepth
  have hrun := hx depth hdepth
  cases o with
  | done a r' h => exact (run_bind_of_ok hrun _).trans (hf a r' h depth hdepth)
  | failed fault r' => exact run_bind_of_error hrun _

theorem ends_look (r : Reader) : Ends d Methods.current r r.look := by
  intro depth hdepth
  rw [run_current (by omega)]
  rcases hcurrent : r.current with ⟨fault | t, r'⟩
  · rw [Reader.look_of_fault hcurrent]
    rfl
  · rw [Reader.look_of_current hcurrent]
    rfl

theorem ends_require {kind : TokenKind} {what : String} {r : Reader}
    {hkind : kind ≠ .endOfInput} :
    Ends d (fun self => self.expect kind what) r (r.require kind what hkind) := by
  intro depth hdepth
  rw [run_expect (by omega), Reader.result_require]

theorem ends_ifNext {f : TokenKind → Option α} {hf : f .endOfInput = none} {r : Reader}
    {k : Methods → Option (α × Token) → Reading β}
    {yes : α → Token → (r' : Reader) → r'.remaining < r.remaining → Outcome n β}
    {no : (r' : Reader) → r'.remaining ≤ r.remaining → Outcome n β}
    (hyes : ∀ a t r' h, Ends d (fun self => k self (some (a, t))) r' (yes a t r' h))
    (hno : ∀ r' h, Ends d (fun self => k self none) r' (no r' h)) :
    Ends d (fun self => self.next? f >>= k self) r (r.ifNext f hf yes no) := by
  intro depth hdepth
  show (((upTo depth).current >>= _) >>= _).run.run r = _
  rw [bind_assoc]
  refine run_current_bind (by omega) (fun fault r' h => ?_) (fun t r' h => ?_)
  · rw [Reader.ifNext_of_fault h]
    rfl
  · rcases ha : f t.kind with _ | a
    · rw [Reader.ifNext_of_current_none h ha, pure_bind]
      exact hno r' _ depth hdepth
    · rw [Reader.ifNext_of_current_some h ha, bind_assoc]
      exact hyes a t (r'.consume t) _ depth hdepth

end Descent

end NordLang

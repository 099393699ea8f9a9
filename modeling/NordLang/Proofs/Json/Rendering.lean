import NordLang.Json
import NordLang.Proofs.Lexing.Tiling
import NordLang.Proofs.Text.Quoted

/-!
# JSON can be read back from its text

Two pieces of JSON that are rendered alike are the same, however lines are broken and indented.  The
text of a value ends where the value ends, so that values are told apart one after another.

* `unescape` reads one character of a JSON string back, from one code unit or two.
* `Shape` is what the first character of a text gives away about the value.
* `Separable` says that an entry can be told whatever stands behind it.  Arrays and objects are both
  entries between brackets, and `enclosedOnto_inj` is the lemma for these.
* `render_injective` is the result.  It leaves decimals out, since they cannot all be told apart: one
  number can be given with more places or fewer.
-/

namespace NordLang

namespace Json

/-! ## Strings -/

/-- The character that a mark behind a backslash stands for. -/
def unmark (mark : Char) : Char :=
  if mark = 'n' then '\n'
  else if mark = 'r' then '\r'
  else if mark = 't' then '\t'
  else if mark = 'f' then '\x0c'
  else if mark = 'b' then '\x08'
  else mark

/-- The character written by the code unit that stands first, or by this one and the next. -/
def ofUnits (text : List Char) : Char × List Char :=
  let high := Text.ofHex (text.take 4)
  let low := Text.ofHex ((text.drop 6).take 4)
  if 0xd800 ≤ high ∧ high < 0xe000 then
    (Char.ofNat (0x10000 + (high - 0xd800) * 0x400 + (low - 0xdc00)), text.drop 10)
  else (Char.ofNat high, text.drop 4)

/-- The first character of what is left of a JSON string, and what follows it. -/
def unescape : List Char → Option (Char × List Char)
  | [] => none
  | c :: text =>
    if c = '\\' then
      match text with
      | [] => none
      | mark :: text => some (if mark = 'u' then ofUnits text else (unmark mark, text))
    else some (c, text)

theorem take_hex_append {n : Nat} (h : n < 0x10000) (text : List Char) :
    (Text.hex 4 n ++ text).take 4 = Text.hex 4 n :=
  List.take_left' (Text.length_hex (by decide) h)

theorem drop_hex_append {n : Nat} (h : n < 0x10000) (text : List Char) :
    (Text.hex 4 n ++ text).drop 4 = text :=
  List.drop_left' (Text.length_hex (by decide) h)

/-- No character has the code of a surrogate, and there is a last one. -/
theorem code_bounds (c : Char) :
    ¬ (0xd800 ≤ c.toNat ∧ c.toNat < 0xe000) ∧ c.toNat < 0x110000 := by
  have hvalid := c.valid
  unfold UInt32.isValidChar Nat.isValidChar at hvalid
  unfold Char.toNat
  omega

theorem unescape_escapeUnit (n : Nat) (text : List Char) :
    unescape (escapeUnit n ++ text) = some (ofUnits (Text.hex 4 n ++ text)) := rfl

theorem unescape_unit {c : Char} (h : c.toNat < 0x10000) (text : List Char) :
    unescape (escapeUnit c.toNat ++ text) = some (c, text) := by
  rw [unescape_escapeUnit]
  unfold ofUnits
  rw [take_hex_append h, Text.ofHex_hex, if_neg (code_bounds c).1, drop_hex_append h,
    Char.ofNat_toNat]

theorem ofUnits_pair {high low : Nat} (hhigh : 0xd800 ≤ high ∧ high < 0xe000)
    (hlow : low < 0x10000) (text : List Char) :
    ofUnits (Text.hex 4 high ++ (escapeUnit low ++ text)) =
      (Char.ofNat (0x10000 + (high - 0xd800) * 0x400 + (low - 0xdc00)), text) := by
  have hunit : high < 0x10000 := by omega
  have hnext : (Text.hex 4 high ++ (escapeUnit low ++ text)).drop 6 = Text.hex 4 low ++ text := by
    rw [show 6 = 4 + 2 from rfl, ← List.drop_drop, drop_hex_append hunit]
    rfl
  have hrest : (Text.hex 4 high ++ (escapeUnit low ++ text)).drop 10 = text := by
    rw [show 10 = 6 + 4 from rfl, ← List.drop_drop, hnext, drop_hex_append hlow]
  unfold ofUnits
  rw [take_hex_append hunit, Text.ofHex_hex, if_pos hhigh, hnext, take_hex_append hlow,
    Text.ofHex_hex, hrest]

theorem unescape_pair {c : Char} (h : 0x10000 ≤ c.toNat) (text : List Char) :
    unescape (escapeUnit (0xd800 + (c.toNat - 0x10000) / 0x400) ++
      escapeUnit (0xdc00 + (c.toNat - 0x10000) % 0x400) ++ text) = some (c, text) := by
  have hlast := (code_bounds c).2
  have hcode : 0x10000 + (0xd800 + (c.toNat - 0x10000) / 0x400 - 0xd800) * 0x400 +
      (0xdc00 + (c.toNat - 0x10000) % 0x400 - 0xdc00) = c.toNat := by omega
  rw [List.append_assoc, unescape_escapeUnit, ofUnits_pair (by omega) (by omega), hcode,
    Char.ofNat_toNat]

/-- Every character can be read back. -/
theorem unescape_escapeChar (c : Char) (text : List Char) :
    unescape (escapeChar c ++ text) = some (c, text) := by
  unfold escapeChar
  split
  · rfl
  · rfl
  · rfl
  · rfl
  · rfl
  · rfl
  · rfl
  · next hquote hslash _ _ _ _ _ =>
    split
    · show unescape (c :: text) = _
      simp only [unescape, if_neg hslash]
    · split
      · next h => exact unescape_unit h text
      · next h =>
        exact unescape_pair (by omega) text

theorem escapeChar_append_inj {c c' : Char} {text text' : List Char}
    (h : escapeChar c ++ text = escapeChar c' ++ text') : c = c' ∧ text = text' := by
  have hread := congrArg unescape h
  rw [unescape_escapeChar, unescape_escapeChar] at hread
  cases hread
  exact ⟨rfl, rfl⟩

/-- No character is written with a quote in front. -/
theorem escapeChar_append_ne_quote (c : Char) (text text' : List Char) :
    escapeChar c ++ text ≠ '"' :: text' := by
  intro h
  have hread := congrArg unescape h
  rw [unescape_escapeChar] at hread
  cases hread
  cases h

/-- The closing quote of a string can be told from what is inside it. -/
theorem renderText_append_inj {s s' : String} {text text' : List Char}
    (h : renderText s ++ text = renderText s' ++ text') : s = s' ∧ text = text' := by
  unfold renderText at h
  rw [List.cons_append, List.cons_append, List.append_assoc, List.append_assoc] at h
  obtain ⟨hs, htext⟩ := Text.flatMap_append_inj (fun _ _ _ _ => escapeChar_append_inj)
    escapeChar_append_ne_quote (List.cons.inj h).2
  exact ⟨String.toList_inj.1 hs, htext⟩

/-! ## Numbers -/

/-- No digit stands first. -/
def Stops (text : List Char) : Prop :=
  ∀ c ∈ text.head?, c.isDigit = false

theorem digits_append_inj {m n : Nat} {text text' : List Char} (hstops : Stops text)
    (hstops' : Stops text') (h : Nat.toDigits 10 m ++ text = Nat.toDigits 10 n ++ text') :
    m = n ∧ text = text' := by
  have hdigits (k : Nat) : ∀ c ∈ Nat.toDigits 10 k, c.isDigit = true :=
    fun c hc => Nat.isDigit_of_mem_toDigits (by omega) (by omega) hc
  have hruns := congrArg (List.takeWhile Char.isDigit) h
  rw [Cursor.takeWhile_append_eq (hdigits m) hstops,
    Cursor.takeWhile_append_eq (hdigits n) hstops'] at hruns
  rw [hruns] at h
  have hvalue := congrArg (Nat.ofDigitChars 10 · 0) hruns
  simp only [Nat.ofDigitChars_ten_toDigits] at hvalue
  exact ⟨hvalue, List.append_cancel_left h⟩

theorem toList_toString_ofNat (n : Nat) : (toString (Int.ofNat n)).toList = Nat.toDigits 10 n := by
  simp [toString, Int.repr, Nat.repr]

theorem toList_toString_negSucc (n : Nat) :
    (toString (Int.negSucc n)).toList = '-' :: Nat.toDigits 10 (n + 1) := by
  simp [toString, Int.repr, Nat.repr]

/-- A minus sign is no digit, so the sign of a number can be told. -/
theorem minus_not_mem_toDigits (n : Nat) : '-' ∉ Nat.toDigits 10 n := by
  intro hmem
  have hdigit := Nat.isDigit_of_mem_toDigits (by omega) (by omega) hmem
  revert hdigit
  decide

theorem toDigits_append_ne_minus (n : Nat) (text text' : List Char) :
    Nat.toDigits 10 n ++ text ≠ '-' :: text' := by
  intro h
  obtain ⟨c, cs, hcs⟩ := List.exists_cons_of_ne_nil (Nat.toDigits_ne_nil (n := n) (b := 10))
  rw [hcs, List.cons_append] at h
  apply minus_not_mem_toDigits n
  rw [hcs, (List.cons.inj h).1]
  exact List.mem_cons_self

theorem int_append_inj {m n : Int} {text text' : List Char} (hstops : Stops text)
    (hstops' : Stops text') (h : (toString m).toList ++ text = (toString n).toList ++ text') :
    m = n ∧ text = text' := by
  cases m with
  | ofNat a =>
    rw [toList_toString_ofNat] at h
    cases n with
    | ofNat b =>
      rw [toList_toString_ofNat] at h
      obtain ⟨rfl, htext⟩ := digits_append_inj hstops hstops' h
      exact ⟨rfl, htext⟩
    | negSucc b =>
      rw [toList_toString_negSucc] at h
      exact absurd h (toDigits_append_ne_minus a _ _)
  | negSucc a =>
    rw [toList_toString_negSucc] at h
    cases n with
    | ofNat b =>
      rw [toList_toString_ofNat] at h
      exact absurd h.symm (toDigits_append_ne_minus b _ _)
    | negSucc b =>
      rw [toList_toString_negSucc] at h
      obtain ⟨hsucc, htext⟩ := digits_append_inj hstops hstops' (List.cons.inj h).2
      cases Nat.succ.inj hsucc
      exact ⟨rfl, htext⟩

/-! ## Values by their first character -/

/-- What can be told about a value from its first character. -/
inductive Shape where
  | null
  | truth (b : Bool)
  | number
  | text
  | array
  | object
  deriving DecidableEq

def Shape.ofChar? (c : Char) : Option Shape :=
  if c = 'n' then some null
  else if c = 't' then some (truth true)
  else if c = 'f' then some (truth false)
  else if c = '"' then some text
  else if c = '[' then some array
  else if c = '\x7b' then some object
  else if c.isDigit || c = '-' then some number
  else none

def shape : Json → Shape
  | scalar .null => .null
  | scalar (.bool b) => .truth b
  | scalar (.int _) => .number
  | scalar (.decimal _ _) => .number
  | scalar (.text _) => .text
  | array _ => .array
  | object _ => .object

/-- JSON without decimals. -/
inductive Plain : Json → Prop where
  | null : Plain (scalar .null)
  | bool (b : Bool) : Plain (scalar (.bool b))
  | int (n : Int) : Plain (scalar (.int n))
  | text (s : String) : Plain (scalar (.text s))
  | array {items : List Json} (h : ∀ item ∈ items, Plain item) : Plain (array items)
  | object {members : List (String × Json)} (h : ∀ m ∈ members, Plain m.2) : Plain (object members)

variable {pad : Option (List Char)}

theorem ofChar?_of_isDigit {c : Char} (h : c.isDigit = true) :
    Shape.ofChar? c = some .number := by
  have hne : ∀ x : Char, x.isDigit = false → c ≠ x := by
    intro x hx heq
    rw [heq, hx] at h
    cases h
  unfold Shape.ofChar?
  rw [if_neg (hne 'n' rfl), if_neg (hne 't' rfl), if_neg (hne 'f' rfl), if_neg (hne '"' rfl),
    if_neg (hne '[' rfl), if_neg (hne '\x7b' rfl), h]
  rfl

/-- The first character of a text gives the shape of the value away. -/
theorem renderOnto_head {json : Json} (h : json.Plain) (depth : Nat) (text : List Char) :
    ∃ c rest, renderOnto pad depth json text = c :: rest ∧
      Shape.ofChar? c = some json.shape := by
  cases h with
  | null => exact ⟨_, _, rfl, rfl⟩
  | bool b => cases b <;> exact ⟨_, _, rfl, rfl⟩
  | int n =>
    show ∃ c rest, (toString n).toList ++ text = c :: rest ∧ Shape.ofChar? c = some .number
    cases n with
    | ofNat a =>
      obtain ⟨c, cs, hcs⟩ := List.exists_cons_of_ne_nil (Nat.toDigits_ne_nil (n := a) (b := 10))
      have hdigit : c.isDigit = true :=
        Nat.isDigit_of_mem_toDigits (by omega) (by omega) (hcs ▸ List.mem_cons_self)
      rw [toList_toString_ofNat, hcs]
      exact ⟨c, _, rfl, ofChar?_of_isDigit hdigit⟩
    | negSucc a =>
      rw [toList_toString_negSucc]
      exact ⟨_, _, rfl, rfl⟩
  | text s => exact ⟨_, _, rfl, rfl⟩
  | @array items _ => cases items <;> exact ⟨_, _, rfl, rfl⟩
  | @object members _ => cases members <;> exact ⟨_, _, rfl, rfl⟩

theorem shape_eq_of_renderOnto {a b : Json} {depth : Nat} {text text' : List Char} (ha : a.Plain)
    (hb : b.Plain) (h : renderOnto pad depth a text = renderOnto pad depth b text') :
    a.shape = b.shape := by
  obtain ⟨c, rest, hc, hshape⟩ := renderOnto_head ha depth text
  obtain ⟨c', rest', hc', hshape'⟩ := renderOnto_head hb depth text'
  rw [hc, hc'] at h
  rw [(List.cons.inj h).1, hshape'] at hshape
  exact (Option.some.inj hshape).symm

/-! ## Items and members -/

/-- What can stand behind the last item of an array or the last member of an object. -/
def Closes (text : List Char) : Prop :=
  ∃ c ∈ text.head?, c = '\n' ∨ c = ']' ∨ c = '\x7d'

theorem Closes.stops {text : List Char} (h : Closes text) : Stops text := by
  obtain ⟨c, hc, hclose⟩ := h
  intro x hx
  rw [Option.mem_def] at hc hx
  cases hc.symm.trans hx
  rcases hclose with rfl | rfl | rfl <;> rfl

theorem closes_lineBreak {c : Char} (h : c = ']' ∨ c = '\x7d') (depth : Nat) (text : List Char) :
    Closes (lineBreak pad depth ++ c :: text) := by
  cases pad with
  | none => exact ⟨c, rfl, .inr h⟩
  | some pad => exact ⟨'\n', rfl, .inl rfl⟩

theorem not_closes_separator (depth : Nat) (text : List Char) :
    ¬ Closes (separator pad depth ++ text) := by
  rintro ⟨c, hc, hclose⟩
  cases pad with
  | _ =>
    cases hc
    revert hclose
    decide

theorem stops_separator (depth : Nat) (text : List Char) : Stops (separator pad depth ++ text) := by
  intro c hc
  cases pad with
  | _ =>
    cases hc
    rfl

section entries

variable {α : Type} {depth : Nat} {entry : α → List Char → List Char} {valid : α → Prop}
  {text text' : List Char}

/-- Entries, each behind a separator. -/
def entriesOnto (pad : Option (List Char)) (depth : Nat) (entry : α → List Char → List Char) :
    List α → List Char → List Char
  | [], text => text
  | a :: as, text => separator pad depth ++ entry a (entriesOnto pad depth entry as text)

/-- Entries up to the bracket that closes them. -/
def enclosedOnto (pad : Option (List Char)) (depth : Nat) (entry : α → List Char → List Char)
    (close : Char) : List α → List Char → List Char
  | [], text => close :: text
  | a :: as, text =>
    lineBreak pad (depth + 1) ++ entry a
      (entriesOnto pad (depth + 1) entry as (lineBreak pad depth ++ close :: text))

/-- An entry can be told from all valid ones, and so can what stands behind it. -/
def Separable (entry : α → List Char → List Char) (valid : α → Prop) (a : α) : Prop :=
  ∀ b text text', valid b → Stops text → Stops text' → entry a text = entry b text' →
    a = b ∧ text = text'

theorem stops_entriesOnto (as : List α) (h : Closes text) :
    Stops (entriesOnto pad depth entry as text) := by
  cases as with
  | nil => exact h.stops
  | cons a as => exact stops_separator depth _

theorem entriesOnto_inj {as bs : List α} (has : ∀ a ∈ as, Separable entry valid a)
    (hbs : ∀ b ∈ bs, valid b) (htext : Closes text) (htext' : Closes text')
    (h : entriesOnto pad depth entry as text = entriesOnto pad depth entry bs text') :
    as = bs ∧ text = text' := by
  induction as generalizing bs with
  | nil =>
    cases bs with
    | nil => exact ⟨rfl, h⟩
    | cons b bs =>
      rw [entriesOnto, entriesOnto] at h
      exact absurd (h ▸ htext) (not_closes_separator depth _)
  | cons a as ih =>
    cases bs with
    | nil =>
      rw [entriesOnto, entriesOnto] at h
      exact absurd (h.symm ▸ htext') (not_closes_separator depth _)
    | cons b bs =>
      rw [entriesOnto, entriesOnto] at h
      obtain ⟨rfl, hmore⟩ := has a (by simp) b _ _ (hbs b (by simp)) (stops_entriesOnto as htext)
        (stops_entriesOnto bs htext') (List.append_cancel_left h)
      obtain ⟨rfl, heq⟩ := ih (fun x hx => has x (by simp [hx])) (fun x hx => hbs x (by simp [hx]))
        hmore
      exact ⟨rfl, heq⟩

/-- Enclosed entries can be told one after another, if none of them starts like the closing
bracket. -/
theorem enclosedOnto_inj {close : Char} {as bs : List α} (hclose : close = ']' ∨ close = '\x7d')
    (hopen : ∀ a, valid a → ∀ text text', close :: text ≠ lineBreak pad (depth + 1) ++ entry a text')
    (has : ∀ a ∈ as, valid a) (hseparable : ∀ a ∈ as, Separable entry valid a)
    (hbs : ∀ b ∈ bs, valid b)
    (h : enclosedOnto pad depth entry close as text =
      enclosedOnto pad depth entry close bs text') : as = bs ∧ text = text' := by
  have hcloses (text : List Char) : Closes (lineBreak pad depth ++ close :: text) :=
    closes_lineBreak hclose depth text
  cases as with
  | nil =>
    cases bs with
    | nil => exact ⟨rfl, (List.cons.inj h).2⟩
    | cons b bs => exact absurd h (hopen b (hbs b (by simp)) _ _)
  | cons a as =>
    cases bs with
    | nil => exact absurd h.symm (hopen a (has a (by simp)) _ _)
    | cons b bs =>
      rw [enclosedOnto, enclosedOnto] at h
      obtain ⟨rfl, hmore⟩ := hseparable a (by simp) b _ _ (hbs b (by simp))
        (stops_entriesOnto as (hcloses text)) (stops_entriesOnto bs (hcloses text'))
        (List.append_cancel_left h)
      obtain ⟨rfl, hend⟩ := entriesOnto_inj (fun x hx => hseparable x (by simp [hx]))
        (fun x hx => hbs x (by simp [hx])) (hcloses text) (hcloses text') hmore
      exact ⟨rfl, (List.cons.inj (List.append_cancel_left hend)).2⟩

end entries

/-- The name and the value of a member. -/
def memberOnto (pad : Option (List Char)) (depth : Nat) (member : String × Json)
    (text : List Char) : List Char :=
  renderText member.1 ++ ':' :: ' ' :: renderOnto pad depth member.2 text

theorem itemsOnto_eq (depth : Nat) (items : List Json) (text : List Char) :
    itemsOnto pad depth items text = entriesOnto pad depth (renderOnto pad depth) items text := by
  induction items with
  | nil => rw [itemsOnto, entriesOnto]
  | cons item items ih => rw [itemsOnto, entriesOnto, ih]

theorem membersOnto_eq (depth : Nat) (members : List (String × Json)) (text : List Char) :
    membersOnto pad depth members text =
      entriesOnto pad depth (memberOnto pad depth) members text := by
  induction members with
  | nil => rw [membersOnto, entriesOnto]
  | cons m members ih => rw [membersOnto, entriesOnto, ih, memberOnto, List.append_assoc]

theorem renderOnto_array (depth : Nat) (items : List Json) (text : List Char) :
    renderOnto pad depth (array items) text =
      '[' :: enclosedOnto pad depth (renderOnto pad (depth + 1)) ']' items text := by
  cases items with
  | nil => rw [renderOnto, enclosedOnto]
  | cons item items => rw [renderOnto, enclosedOnto, itemsOnto_eq]

theorem renderOnto_object (depth : Nat) (members : List (String × Json)) (text : List Char) :
    renderOnto pad depth (object members) text =
      '\x7b' :: enclosedOnto pad depth (memberOnto pad (depth + 1)) '\x7d' members text := by
  cases members with
  | nil => rw [renderOnto, enclosedOnto]
  | cons m members =>
    rw [renderOnto, enclosedOnto, membersOnto_eq, memberOnto, List.append_assoc]

/-! ## Whole values -/

theorem bracket_ne_item {json : Json} (h : json.Plain) (depth : Nat) (text text' : List Char) :
    ']' :: text ≠ lineBreak pad depth ++ renderOnto pad depth json text' := by
  intro heq
  cases pad with
  | none =>
    obtain ⟨c, rest, hc, hshape⟩ := @renderOnto_head none json h depth text'
    have hcons : ']' :: text = c :: rest := heq.trans hc
    cases (List.cons.inj hcons).1
    cases hshape
  | some pad => cases heq

theorem brace_ne_member (m : String × Json) (depth : Nat) (text text' : List Char) :
    '\x7d' :: text ≠ lineBreak pad depth ++ memberOnto pad depth m text' := by
  intro heq
  cases pad with
  | none => cases heq
  | some pad => cases heq

/-- A member is told by its name and then by its value. -/
theorem separable_member {depth : Nat} {m : String × Json}
    (h : Separable (renderOnto pad depth) Plain m.2) :
    Separable (memberOnto pad depth) (fun m => m.2.Plain) m := by
  intro m' text text' hplain htext htext' heq
  obtain ⟨hname, hrest⟩ := renderText_append_inj heq
  obtain ⟨hvalue, hbehind⟩ := h m'.2 _ _ hplain htext htext'
    (List.cons.inj (List.cons.inj hrest).2).2
  exact ⟨Prod.ext hname hvalue, hbehind⟩

/-- Values without decimals can be told apart. -/
theorem separable_of_plain {a : Json} (ha : a.Plain) (depth : Nat) :
    Separable (renderOnto pad depth) Plain a := by
  induction ha generalizing depth with
  | null =>
    intro b text text' hb _ _ h
    have hshape := shape_eq_of_renderOnto .null hb h
    cases hb with
    | null => exact ⟨rfl, List.append_cancel_left h⟩
    | _ => cases hshape
  | bool x =>
    intro b text text' hb _ _ h
    have hshape := shape_eq_of_renderOnto (.bool x) hb h
    cases hb with
    | bool y =>
      cases hshape
      exact ⟨rfl, List.append_cancel_left h⟩
    | _ => cases hshape
  | int m =>
    intro b text text' hb hstops hstops' h
    have hshape := shape_eq_of_renderOnto (.int m) hb h
    cases hb with
    | int n =>
      obtain ⟨rfl, htext⟩ := int_append_inj hstops hstops' h
      exact ⟨rfl, htext⟩
    | _ => cases hshape
  | text s =>
    intro b text text' hb _ _ h
    have hshape := shape_eq_of_renderOnto (.text s) hb h
    cases hb with
    | text s' =>
      obtain ⟨rfl, htext⟩ := renderText_append_inj h
      exact ⟨rfl, htext⟩
    | _ => cases hshape
  | @array items hitems ih =>
    intro b text text' hb _ _ h
    have hshape := shape_eq_of_renderOnto (.array hitems) hb h
    cases hb with
    | array hitems' =>
      rw [renderOnto_array, renderOnto_array] at h
      obtain ⟨rfl, htext⟩ := enclosedOnto_inj (.inl rfl) (fun a ha => bracket_ne_item ha _) hitems
        (fun a ha => ih a ha _) hitems' (List.cons.inj h).2
      exact ⟨rfl, htext⟩
    | _ => cases hshape
  | @object members hmembers ih =>
    intro b text text' hb _ _ h
    have hshape := shape_eq_of_renderOnto (.object hmembers) hb h
    cases hb with
    | object hmembers' =>
      rw [renderOnto_object, renderOnto_object] at h
      obtain ⟨rfl, htext⟩ := enclosedOnto_inj (.inr rfl) (fun m _ => brace_ne_member m _) hmembers
        (fun m hm => separable_member (ih m hm _)) hmembers' (List.cons.inj h).2
      exact ⟨rfl, htext⟩
    | _ => cases hshape

theorem render_injective {pad : Option String} {a b : Json} (ha : a.Plain) (hb : b.Plain)
    (h : a.render pad = b.render pad) : a = b := by
  have hstops : Stops [] := fun c hc => by cases hc
  have htexts := String.ofList_injective h
  exact (separable_of_plain ha 0 b [] [] hb hstops hstops htexts).1

end Json

end NordLang

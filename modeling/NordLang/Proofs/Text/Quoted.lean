import Mathlib.Algebra.Group.Nat.Defs
import NordLang.Text.Quoted
import NordLang.Token.Scan

/-!
# Quoted text can be read back

Two texts that are quoted alike are the same, whatever follows the quotes.  All characters of a
quoted text are printable, so that it takes up one line.

* `ofHex` reads hexadecimal digits back.
* `flatMap_append_inj` tells apart texts that are written character by character up to a mark that
  closes them.
* `unquote` reads one character of a quoted text back, and `quoteChars_append_inj` is the result.
-/

namespace NordLang.Text

/-! ## Hexadecimal numbers -/

def hexDigit (c : Char) : Nat :=
  if c.isDigit then c.toNat - 48 else c.toNat - 87

/-- The number that hexadecimal digits stand for. -/
def ofHex (digits : List Char) : Nat :=
  digits.foldl (fun n c => 16 * n + hexDigit c) 0

theorem hexDigit_digitChar {d : Nat} (h : d < 16) : hexDigit d.digitChar = d := by
  have hall : ∀ d < 16, hexDigit (Nat.digitChar d) = d := by decide
  exact hall d h

theorem ofHex_append (ds : List Char) (c : Char) :
    ofHex (ds ++ [c]) = 16 * ofHex ds + hexDigit c := by
  simp [ofHex]

theorem ofHex_toDigits (n : Nat) : ofHex (Nat.toDigits 16 n) = n := by
  induction n using Nat.strongRecOn with
  | ind n ih =>
    by_cases hn : n < 16
    · rw [Nat.toDigits_of_lt_base hn]
      show 16 * 0 + hexDigit n.digitChar = n
      rw [hexDigit_digitChar hn, Nat.mul_zero, Nat.zero_add]
    · rw [Nat.toDigits_of_base_le (by omega) (by omega), ofHex_append, ih (n / 16) (by omega),
        hexDigit_digitChar (Nat.mod_lt n (by omega))]
      omega

@[simp] theorem ofHex_hex (width n : Nat) : ofHex (hex width n) = n := by
  have hzeros (k : Nat) (ds : List Char) : ofHex (List.replicate k '0' ++ ds) = ofHex ds := by
    induction k with
    | zero => rfl
    | succ k ih => exact ih
  rw [hex, hzeros, ofHex_toDigits]

theorem length_hex {width n : Nat} (hwidth : 0 < width) (h : n < 16 ^ width) :
    (hex width n).length = width := by
  have hdigits : (Nat.toDigits 16 n).length ≤ width :=
    (Nat.length_toDigits_le_iff (by omega) hwidth).2 h
  simp only [hex, List.length_append, List.length_replicate]
  omega

/-! ## Reading back -/

/-- Texts that are written item by item up to `close` are told apart if the items are, and if none
of them starts with `close`. -/
theorem flatMap_append_inj {α : Type} {write : α → List Char} {close : Char}
    (hwrite : ∀ a b x y, write a ++ x = write b ++ y → a = b ∧ x = y)
    (hclose : ∀ a x y, write a ++ x ≠ close :: y) {as bs : List α} {x y : List Char}
    (h : as.flatMap write ++ close :: x = bs.flatMap write ++ close :: y) : as = bs ∧ x = y := by
  induction as generalizing bs with
  | nil =>
    cases bs with
    | nil => exact ⟨rfl, (List.cons.inj h).2⟩
    | cons b bs =>
      rw [List.flatMap_cons, List.append_assoc] at h
      exact absurd h.symm (hclose b _ _)
  | cons a as ih =>
    cases bs with
    | nil =>
      rw [List.flatMap_cons, List.append_assoc] at h
      exact absurd h (hclose a _ _)
    | cons b bs =>
      rw [List.flatMap_cons, List.append_assoc, List.flatMap_cons, List.append_assoc] at h
      obtain ⟨rfl, hrest⟩ := hwrite _ _ _ _ h
      obtain ⟨rfl, hxy⟩ := ih hrest
      exact ⟨rfl, hxy⟩

/-- How many hexadecimal digits follow a letter behind a backslash. -/
def hexWidth? (code : Char) : Option Nat :=
  if code = 'x' then some 2
  else if code = 'u' then some 4
  else if code = 'U' then some 8
  else none

/-- The first character of what is left of a quoted text, and what follows it. -/
def unquote : List Char → Option (Char × List Char)
  | [] => none
  | c :: text =>
    if c = '\\' then
      match text with
      | [] => none
      | code :: text =>
        match hexWidth? code with
        | some width => some (Char.ofNat (ofHex (text.take width)), text.drop width)
        | none => some ((escape? code).getD code, text)
    else some (c, text)

theorem unquote_plain {c : Char} (h : c ≠ '\\') (text : List Char) :
    unquote (c :: text) = some (c, text) := by
  simp only [unquote, if_neg h]

theorem unquote_hex {c code : Char} {width : Nat} (hcode : hexWidth? code = some width)
    (hwidth : 0 < width) (hc : c.toNat < 16 ^ width) (text : List Char) :
    unquote ('\\' :: code :: hex width c.toNat ++ text) = some (c, text) := by
  have hlength := length_hex hwidth hc
  show unquote ('\\' :: code :: (hex width c.toNat ++ text)) = _
  simp only [unquote, if_true, hcode]
  rw [List.take_left' hlength, List.drop_left' hlength, ofHex_hex, Char.ofNat_toNat]

theorem unquote_escapeCode (c : Char) (text : List Char) :
    unquote (escapeCode c ++ text) = some (c, text) := by
  unfold escapeCode
  split
  · next h => exact unquote_hex rfl (by decide) h text
  · split
    · next h => exact unquote_hex rfl (by decide) h text
    · exact unquote_hex rfl (by decide) (UInt32.toNat_lt c.val) text

/-- The two quotes. -/
def IsMark (mark : Char) : Prop :=
  mark = '\'' ∨ mark = '"'

theorem isMark_quoteMark (s : List Char) : IsMark (quoteMark s) := by
  unfold quoteMark
  split
  · exact .inr rfl
  · exact .inl rfl

section mark

variable {mark : Char} (hmark : IsMark mark)

include hmark

/-- A character stands for itself, or for what a mark behind a backslash means, or it is written by
its code point. -/
theorem quoteChar_cases (c : Char) :
    (quoteChar mark c = [c] ∧ c ≠ '\\' ∧ c ≠ mark ∧ isPrintable c = true) ∨
    (∃ code, quoteChar mark c = ['\\', code] ∧ hexWidth? code = none ∧
      (escape? code).getD code = c ∧ isPrintable code = true) ∨
    quoteChar mark c = escapeCode c := by
  unfold quoteChar
  split
  · next h => exact .inr (.inl ⟨'\\', rfl, rfl, h.symm, by decide⟩)
  · next hslash =>
    split
    · next h =>
      subst h
      refine .inr (.inl ⟨c, rfl, ?_⟩)
      rcases hmark with rfl | rfl
      · exact ⟨rfl, rfl, by decide⟩
      · exact ⟨rfl, rfl, by decide⟩
    · next hne =>
      split
      · next h => exact .inr (.inl ⟨'n', rfl, rfl, h.symm, by decide⟩)
      · split
        · next h => exact .inr (.inl ⟨'r', rfl, rfl, h.symm, by decide⟩)
        · split
          · next h => exact .inr (.inl ⟨'t', rfl, rfl, h.symm, by decide⟩)
          · split
            · next h => exact .inl ⟨rfl, hslash, hne, h⟩
            · exact .inr (.inr rfl)

/-- Every character can be read back. -/
theorem unquote_quoteChar (c : Char) (text : List Char) :
    unquote (quoteChar mark c ++ text) = some (c, text) := by
  rcases quoteChar_cases hmark c with ⟨hc, hslash, _⟩ | ⟨code, hc, hcode, hmeaning, _⟩ | hc
  · rw [hc]
    exact unquote_plain hslash text
  · rw [hc]
    show unquote ('\\' :: code :: text) = _
    simp only [unquote, if_true, hcode, hmeaning]
  · rw [hc]
    exact unquote_escapeCode c text

theorem quoteChar_append_inj {c c' : Char} {text text' : List Char}
    (h : quoteChar mark c ++ text = quoteChar mark c' ++ text') : c = c' ∧ text = text' := by
  have hread := congrArg unquote h
  rw [unquote_quoteChar hmark, unquote_quoteChar hmark] at hread
  cases hread
  exact ⟨rfl, rfl⟩

/-- No character is written with the quote in front. -/
theorem quoteChar_append_ne_mark (c : Char) (text text' : List Char) :
    quoteChar mark c ++ text ≠ mark :: text' := by
  have hslash : '\\' ≠ mark := by
    rcases hmark with rfl | rfl <;> decide
  intro h
  rcases quoteChar_cases hmark c with ⟨hc, _, hne, _⟩ | ⟨code, hc, _⟩ | hc
  · rw [hc] at h
    exact hne (List.cons.inj h).1
  · rw [hc] at h
    exact hslash (List.cons.inj h).1
  · obtain ⟨digits, hdigits⟩ : ∃ digits, escapeCode c = '\\' :: digits := by
      unfold escapeCode
      split
      · exact ⟨_, rfl⟩
      · split
        · exact ⟨_, rfl⟩
        · exact ⟨_, rfl⟩
    rw [hc, hdigits] at h
    exact hslash (List.cons.inj h).1

end mark

theorem quoteChars_append_inj {s s' text text' : List Char}
    (h : quoteChars s ++ text = quoteChars s' ++ text') : s = s' ∧ text = text' := by
  unfold quoteChars at h
  rw [List.cons_append, List.cons_append, List.append_assoc, List.append_assoc] at h
  obtain ⟨hmark, hrest⟩ := List.cons.inj h
  rw [← hmark] at hrest
  exact flatMap_append_inj (fun _ _ _ _ => quoteChar_append_inj (isMark_quoteMark s))
    (quoteChar_append_ne_mark (isMark_quoteMark s)) hrest

/-! ## One line -/

theorem isPrintable_of_ascii {c : Char} (hlow : 0x20 ≤ c.toNat) (hhigh : c.toNat < 0x7f) :
    isPrintable c = true := by
  have hascii : c.toNat < 0x80 := by omega
  rw [isPrintable, if_pos hascii]
  simp [hlow, hhigh]

theorem isPrintable_of_isDigit {c : Char} (h : c.isDigit = true) : isPrintable c = true := by
  have hbounds := Bool.and_eq_true_iff.1 h
  have hlow : 48 ≤ c.toNat := UInt32.le_iff_toNat_le.1 (of_decide_eq_true hbounds.1)
  have hhigh : c.toNat ≤ 57 := UInt32.le_iff_toNat_le.1 (of_decide_eq_true hbounds.2)
  exact isPrintable_of_ascii (by omega) (by omega)

theorem isPrintable_of_mem_toDigits {n : Nat} {c : Char} (h : c ∈ Nat.toDigits 16 n) :
    isPrintable c = true := by
  have hall : ∀ d < 16, isPrintable (Nat.digitChar d) = true := by decide
  induction n using Nat.strongRecOn with
  | ind n ih =>
    by_cases hn : n < 16
    · rw [Nat.toDigits_of_lt_base hn, List.mem_singleton] at h
      rw [h]
      exact hall n hn
    · rw [Nat.toDigits_of_base_le (by omega) (by omega), List.mem_append, List.mem_singleton] at h
      rcases h with h | rfl
      · exact ih (n / 16) (by omega) h
      · exact hall _ (Nat.mod_lt n (by omega))

theorem isPrintable_of_mem_hex {width n : Nat} {c : Char} (h : c ∈ hex width n) :
    isPrintable c = true := by
  rcases List.mem_append.1 h with h | h
  · rw [List.eq_of_mem_replicate h]
    decide
  · exact isPrintable_of_mem_toDigits h

theorem isPrintable_of_mem_escapeCode {c d : Char} (h : d ∈ escapeCode c) :
    isPrintable d = true := by
  have hcode {code : Char} {width : Nat} (hcode : isPrintable code = true)
      (h : d ∈ '\\' :: code :: hex width c.toNat) : isPrintable d = true := by
    rw [List.mem_cons, List.mem_cons] at h
    rcases h with rfl | rfl | h
    · decide
    · exact hcode
    · exact isPrintable_of_mem_hex h
  unfold escapeCode at h
  split at h
  · exact hcode (by decide) h
  · split at h
    · exact hcode (by decide) h
    · exact hcode (by decide) h

theorem isPrintable_of_mem_quoteChar {mark c d : Char} (hmark : IsMark mark)
    (h : d ∈ quoteChar mark c) : isPrintable d = true := by
  rcases quoteChar_cases hmark c with ⟨hc, _, _, hprintable⟩ | ⟨code, hc, _, _, hcode⟩ | hc
  · rw [hc, List.mem_singleton] at h
    rw [h]
    exact hprintable
  · rw [hc, List.mem_cons, List.mem_singleton] at h
    rcases h with rfl | rfl
    · decide
    · exact hcode
  · rw [hc] at h
    exact isPrintable_of_mem_escapeCode h

theorem isPrintable_of_mem_quoteChars {s : List Char} {c : Char} (h : c ∈ quoteChars s) :
    isPrintable c = true := by
  have hmark := isMark_quoteMark s
  have hprintable : isPrintable (quoteMark s) = true := by
    rcases hmark with h | h <;> rw [h] <;> decide
  unfold quoteChars at h
  rw [List.mem_cons, List.mem_append, List.mem_flatMap, List.mem_singleton] at h
  rcases h with rfl | ⟨d, _, h⟩ | rfl
  · exact hprintable
  · exact isPrintable_of_mem_quoteChar hmark h
  · exact hprintable

end NordLang.Text

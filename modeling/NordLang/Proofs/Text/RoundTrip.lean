import NordLang.Text.Lines
import NordLang.Text.Utf8

/-!
# Text through bytes

Encoding a text and decoding the bytes gives the text back (`decode_encode`), and a text without
carriage returns keeps its line ends when it is read (`unifyLines_eq_self`).

There is one lemma for each width of a character, `decodeFrom_one` to `decodeFrom_four`, which says
for which bytes decoding takes this width.  `decodeFrom_utf8EncodeChar` shows that the bytes of a
character are such bytes and carry its code point.
-/

namespace NordLang.Text

namespace Utf8

/-! ## Decoding by width -/

section width

variable {offset : Nat} {a b c d : UInt8} {rest : List UInt8}

theorem decodeFrom_one (ha : a.toNat < 0x80) :
    decodeFrom offset (a :: rest) =
      (Char.ofNat a.toNat :: ·) <$> decodeFrom (offset + 1) rest := by
  rw [decodeFrom.eq_def]
  simp [UInt8.lt_iff_toNat_lt, ha]

theorem decodeFrom_two (ha : 0xc2 ≤ a.toNat ∧ a.toNat < 0xe0) (hb : isContinuation b = true) :
    decodeFrom offset (a :: b :: rest) =
      (Char.ofNat (a.toNat % 32 * 64 + low6 b) :: ·) <$> decodeFrom (offset + 2) rest := by
  have hwidth : ¬ a.toNat < 0x80 ∧ ¬ (a.toNat < 0xc2 ∨ 0xf4 < a.toNat) := by omega
  rw [decodeFrom.eq_def]
  simp [UInt8.lt_iff_toNat_lt, hwidth, ha, hb]

theorem decodeFrom_three (ha : 0xe0 ≤ a.toNat ∧ a.toNat < 0xf0) (hb : isSecond a b = true)
    (hc : isContinuation c = true) :
    decodeFrom offset (a :: b :: c :: rest) =
      (Char.ofNat ((a.toNat % 16 * 64 + low6 b) * 64 + low6 c) :: ·) <$>
        decodeFrom (offset + 3) rest := by
  have hwidth : ¬ a.toNat < 0x80 ∧ ¬ (a.toNat < 0xc2 ∨ 0xf4 < a.toNat) ∧ ¬ a.toNat < 0xe0 := by
    omega
  rw [decodeFrom.eq_def]
  simp [UInt8.lt_iff_toNat_lt, hwidth, ha, hb, hc]

theorem decodeFrom_four (ha : 0xf0 ≤ a.toNat ∧ a.toNat ≤ 0xf4) (hb : isSecond a b = true)
    (hc : isContinuation c = true) (hd : isContinuation d = true) :
    decodeFrom offset (a :: b :: c :: d :: rest) =
      (Char.ofNat (((a.toNat % 8 * 64 + low6 b) * 64 + low6 c) * 64 + low6 d) :: ·) <$>
        decodeFrom (offset + 4) rest := by
  have hwidth : ¬ a.toNat < 0x80 ∧ ¬ (a.toNat < 0xc2 ∨ 0xf4 < a.toNat) ∧ ¬ a.toNat < 0xe0 ∧
      ¬ a.toNat < 0xf0 := by
    omega
  rw [decodeFrom.eq_def]
  simp [UInt8.lt_iff_toNat_lt, hwidth, hb, hc, hd]

end width

/-! ## The bytes of a character -/

theorem isContinuation_ofNat {n : Nat} (h : n < 64) :
    isContinuation (UInt8.ofNat (n + 0x80)) = true := by
  have hbyte := UInt8.toNat_ofNat_of_lt' (show n + 0x80 < 256 by omega)
  simp only [isContinuation, UInt8.le_iff_toNat_le, hbyte, UInt8.reduceToNat, Bool.and_eq_true,
    decide_eq_true_eq]
  omega

theorem low6_ofNat {n : Nat} (h : n < 64) : low6 (UInt8.ofNat (n + 0x80)) = n := by
  rw [low6, UInt8.toNat_ofNat_of_lt' (show n + 0x80 < 256 by omega)]
  omega

/-- The second byte of a character is restricted behind four of the first bytes: there the value
would be too small, a surrogate, or too large. -/
theorem isSecond_ofNat {a b : Nat} (ha : a < 256) (hb : b < 64) (hthree : a = 0xe0 → 32 ≤ b)
    (hgap : a = 0xed → b < 32) (hfour : a = 0xf0 → 16 ≤ b) (hlast : a = 0xf4 → b < 16) :
    isSecond (UInt8.ofNat a) (UInt8.ofNat (b + 0x80)) = true := by
  have hfirst := UInt8.toNat_ofNat_of_lt' ha
  have hsecond := UInt8.toNat_ofNat_of_lt' (show b + 0x80 < 256 by omega)
  simp only [isSecond, isContinuation_ofNat hb, bne_iff_ne, ne_eq, ← UInt8.toNat_inj,
    UInt8.le_iff_toNat_le, hfirst, hsecond, UInt8.reduceToNat, Bool.true_and, Bool.and_eq_true,
    Bool.or_eq_true, decide_eq_true_eq]
  omega

/-- The bytes of a character are read as this character, whatever follows. -/
theorem decodeFrom_utf8EncodeChar (offset : Nat) (c : Char) (rest : List UInt8) :
    decodeFrom offset (String.utf8EncodeChar c ++ rest) =
      (c :: ·) <$> decodeFrom (offset + c.utf8Size) rest := by
  -- A character is no surrogate and at most the last code point.
  have hvalid : c.val.toNat < 0xd800 ∨ 0xdfff < c.val.toNat ∧ c.val.toNat < 0x110000 := c.valid
  have hchar : Char.ofNat c.val.toNat = c := Char.ofNat_toNat c
  rw [← String.length_utf8EncodeChar]
  fun_cases String.utf8EncodeChar c with
  | case1 v hone =>
    have hfirst := UInt8.toNat_ofNat_of_lt' (show v < 256 by omega)
    refine (decodeFrom_one (by omega)).trans ?_
    rw [hfirst, hchar]
    rfl
  | case2 v hone htwo =>
    have hfirst := UInt8.toNat_ofNat_of_lt' (show v / 64 % 0x20 + 0xc0 < 256 by omega)
    refine (decodeFrom_two (by omega) (isContinuation_ofNat (by omega))).trans ?_
    have hvalue : (v / 64 % 0x20 + 0xc0) % 32 * 64 + v % 0x40 = c.val.toNat := by omega
    rw [hfirst, low6_ofNat (by omega), hvalue, hchar]
    rfl
  | case3 v hone htwo hthree =>
    have hfirst := UInt8.toNat_ofNat_of_lt' (show v / 4096 % 0x10 + 0xe0 < 256 by omega)
    refine (decodeFrom_three (by omega)
      (isSecond_ofNat (by omega) (by omega) (by omega) (by omega) (by omega) (by omega))
      (isContinuation_ofNat (by omega))).trans ?_
    have hvalue : ((v / 4096 % 0x10 + 0xe0) % 16 * 64 + v / 64 % 0x40) * 64 + v % 0x40 =
        c.val.toNat := by omega
    rw [hfirst, low6_ofNat (by omega), low6_ofNat (by omega), hvalue, hchar]
    rfl
  | case4 v hone htwo hthree =>
    have hfirst := UInt8.toNat_ofNat_of_lt' (show v / 262144 % 0x08 + 0xf0 < 256 by omega)
    refine (decodeFrom_four (by omega)
      (isSecond_ofNat (by omega) (by omega) (by omega) (by omega) (by omega) (by omega))
      (isContinuation_ofNat (by omega)) (isContinuation_ofNat (by omega))).trans ?_
    have hvalue : (((v / 262144 % 0x08 + 0xf0) % 8 * 64 + v / 4096 % 0x40) * 64 +
        v / 64 % 0x40) * 64 + v % 0x40 = c.val.toNat := by omega
    rw [hfirst, low6_ofNat (by omega), low6_ofNat (by omega), low6_ofNat (by omega), hvalue, hchar]
    rfl

theorem decodeFrom_encode (offset : Nat) (text : List Char) :
    decodeFrom offset (encode text) = .ok text := by
  induction text generalizing offset with
  | nil => rfl
  | cons c text ih =>
    rw [encode, List.flatMap_cons, decodeFrom_utf8EncodeChar, ← encode, ih]
    rfl

/-- Bytes that a text was written as are read as this text. -/
theorem decode_encode (text : List Char) : decode (encode text) = .ok text :=
  decodeFrom_encode 0 text

end Utf8

/-- Reading leaves a text without carriage returns as it is. -/
theorem unifyLines_eq_self {text : List Char} (h : '\r' ∉ text) : unifyLines text = text := by
  fun_induction unifyLines text with
  | case1 => rfl
  | case2 => exact absurd List.mem_cons_self h
  | case3 => exact absurd List.mem_cons_self h
  | case4 c rest _ _ ih => rw [ih fun hrest => h (List.mem_cons_of_mem c hrest)]

end NordLang.Text

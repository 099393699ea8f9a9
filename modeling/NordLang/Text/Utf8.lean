/-!
# UTF-8

Text as bytes and back.  Encoding never fails.  Decoding is strict: overlong forms, surrogates and
values above the last code point are refused, and the fault names the bytes of the first bad
sequence and what is wrong with them.

* `encode` and `decode` work on whole texts.
* `faultInPieces?` is for text that is read piece by piece.  A fault is then reported by its place in
  the piece.
-/

namespace NordLang.Text.Utf8

inductive Reason where
  | badStart
  | badContinuation
  | cutShort
  deriving DecidableEq, Repr

def Reason.message : Reason → String
  | .badStart => "invalid start byte"
  | .badContinuation => "invalid continuation byte"
  | .cutShort => "unexpected end of data"

/-- A sequence of bytes that is no character.  `rest` is the input from its first byte on, and the
first `width` bytes of it are at fault. -/
structure Fault where
  offset : Nat
  rest : List UInt8
  width : Nat
  reason : Reason
  deriving DecidableEq, Repr

def hexByte (b : UInt8) : String :=
  let digits := Nat.toDigits 16 b.toNat
  String.ofList (List.replicate (2 - digits.length) '0' ++ digits)

def Fault.message (f : Fault) : String :=
  let place :=
    if f.width = 1 then
      s!"byte 0x{hexByte (f.rest.headD 0)} in position {f.offset}"
    else
      s!"bytes in position {f.offset}-{f.offset + f.width - 1}"
  s!"'utf-8' codec can't decode {place}: {f.reason.message}"

/-- Whether the bytes at fault could be the start of a character that the end of the input cuts
off.  A surrogate shows itself only at its third byte. -/
def Fault.isHeldBack (f : Fault) : Bool :=
  match f.reason, f.rest with
  | .cutShort, _ => true
  | .badContinuation, [first, second] => first == 0xed && 0xa0 ≤ second && second ≤ 0xbf
  | _, _ => false

def isContinuation (b : UInt8) : Bool :=
  0x80 ≤ b && b ≤ 0xbf

/-- Whether `second` may follow the first byte of a sequence of three or four. -/
def isSecond (first second : UInt8) : Bool :=
  isContinuation second &&
    (first != 0xe0 || 0xa0 ≤ second) && (first != 0xed || second ≤ 0x9f) &&
    (first != 0xf0 || 0x90 ≤ second) && (first != 0xf4 || second ≤ 0x8f)

def low6 (b : UInt8) : Nat := b.toNat % 64

def decodeFrom (offset : Nat) : List UInt8 → Except Fault (List Char)
  | [] => .ok []
  | a :: r₁ =>
    let bad (width : Nat) (reason : Reason) : Except Fault (List Char) :=
      .error ⟨offset, a :: r₁, width, reason⟩
    if a < 0x80 then
      (Char.ofNat a.toNat :: ·) <$> decodeFrom (offset + 1) r₁
    else if a < 0xc2 || 0xf4 < a then
      bad 1 .badStart
    else if a < 0xe0 then
      match r₁ with
      | [] => bad 1 .cutShort
      | b :: r₂ =>
        if isContinuation b then
          (Char.ofNat (a.toNat % 32 * 64 + low6 b) :: ·) <$> decodeFrom (offset + 2) r₂
        else bad 1 .badContinuation
    else if a < 0xf0 then
      match r₁ with
      | [] => bad 1 .cutShort
      | b :: r₂ =>
        if isSecond a b then
          match r₂ with
          | [] => bad 2 .cutShort
          | c :: r₃ =>
            if isContinuation c then
              (Char.ofNat ((a.toNat % 16 * 64 + low6 b) * 64 + low6 c) :: ·) <$>
                decodeFrom (offset + 3) r₃
            else bad 2 .badContinuation
        else bad 1 .badContinuation
    else
      match r₁ with
      | [] => bad 1 .cutShort
      | b :: r₂ =>
        if isSecond a b then
          match r₂ with
          | [] => bad 2 .cutShort
          | c :: r₃ =>
            if isContinuation c then
              match r₃ with
              | [] => bad 3 .cutShort
              | d :: r₄ =>
                if isContinuation d then
                  (Char.ofNat (((a.toNat % 8 * 64 + low6 b) * 64 + low6 c) * 64 + low6 d) :: ·) <$>
                    decodeFrom (offset + 4) r₄
                else bad 3 .badContinuation
            else bad 2 .badContinuation
        else bad 1 .badContinuation

/-- The text that the bytes stand for, or the first fault in them. -/
def decode (bytes : List UInt8) : Except Fault (List Char) :=
  decodeFrom 0 bytes

/-! ## Text in pieces -/

/-- Bytes are read in pieces of this size. -/
def pieceSize : Nat := 8192

theorem length_drop_pieceSize_lt {bytes : List UInt8} (h : bytes ≠ []) :
    (bytes.drop pieceSize).length < bytes.length := by
  have hpos := List.length_pos_iff.2 h
  have hsize : 0 < pieceSize := Nat.zero_lt_succ 8191
  rw [List.length_drop]
  omega

/-- How many bytes at the end may be the start of a character that is cut off. -/
def heldBack (bytes : List UInt8) : Nat :=
  match decode bytes with
  | .ok _ => 0
  | .error fault => if fault.isHeldBack then fault.rest.length else 0

/-- The fault of text that is decoded piece by piece.  The bytes that are held back at the end of a
piece belong to the next one, and what is held back at the very end is a piece of its own. -/
def faultFrom? (held bytes : List UInt8) : Option Fault :=
  if _h : bytes = [] then
    match decode held with
    | .ok _ => none
    | .error fault => some fault
  else
    let piece := held ++ bytes.take pieceSize
    let whole := piece.length - heldBack piece
    match decode (piece.take whole) with
    | .ok _ => faultFrom? (piece.drop whole) (bytes.drop pieceSize)
    | .error fault => some fault
termination_by bytes.length
decreasing_by exact length_drop_pieceSize_lt _h

def faultInPieces? (bytes : List UInt8) : Option Fault := faultFrom? [] bytes

def encode (text : List Char) : List UInt8 :=
  text.flatMap String.utf8EncodeChar

end NordLang.Text.Utf8

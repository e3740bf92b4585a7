import LetPrint.Text.Bytes

/-!
# Reading bytes as UTF-8

A byte string is a sequence of pieces: a well-formed encoding of a character, or a stray byte that
belongs to no such encoding.  `pieces` splits a string from the left.
-/

namespace LetPrint.Text

/-- A character, or a byte that is part of no well-formed encoding. -/
inductive Piece where
  | char (c : Char)
  | stray (b : UInt8)
  deriving DecidableEq, Repr

/-- The bytes of a piece. -/
def Piece.bytes : Piece → Bytes
  | .char c => String.utf8EncodeChar c
  | .stray b => [b]

/-- A continuation byte, `10xxxxxx`. -/
def isContinuation (b : UInt8) : Bool :=
  0x80 ≤ b && b ≤ 0xBF

/-- The six payload bits of a continuation byte. -/
def payload (b : UInt8) : Nat :=
  b.toNat % 64

/-- The character that two bytes encode. -/
def decode2? (a b : UInt8) : Option Char :=
  if 0xC2 ≤ a && a ≤ 0xDF && isContinuation b then
    some (Char.ofNat (a.toNat % 32 * 64 + payload b))
  else none

/-- The character that three bytes encode: no overlong form and no surrogate. -/
def decode3? (a b c : UInt8) : Option Char :=
  if 0xE0 ≤ a && a ≤ 0xEF && isContinuation b && isContinuation c
      && (a != 0xE0 || 0xA0 ≤ b) && (a != 0xED || b ≤ 0x9F) then
    some (Char.ofNat ((a.toNat % 16 * 64 + payload b) * 64 + payload c))
  else none

/-- The character that four bytes encode: no overlong form and nothing above U+10FFFF. -/
def decode4? (a b c d : UInt8) : Option Char :=
  if 0xF0 ≤ a && a ≤ 0xF4 && isContinuation b && isContinuation c && isContinuation d
      && (a != 0xF0 || 0x90 ≤ b) && (a != 0xF4 || b ≤ 0x8F) then
    some (Char.ofNat (((a.toNat % 8 * 64 + payload b) * 64 + payload c) * 64 + payload d))
  else none

/-- The character at the front of a byte string and the number of bytes that follow its first. -/
def firstChar? : Bytes → Option (Char × Nat)
  | [] => none
  | [a] => if a < 0x80 then some (Char.ofUInt8 a, 0) else none
  | [a, b] =>
    if a < 0x80 then some (Char.ofUInt8 a, 0) else (decode2? a b).map (·, 1)
  | [a, b, c] =>
    if a < 0x80 then some (Char.ofUInt8 a, 0)
    else ((decode2? a b).map (·, 1)).or ((decode3? a b c).map (·, 2))
  | a :: b :: c :: d :: _ =>
    if a < 0x80 then some (Char.ofUInt8 a, 0)
    else ((decode2? a b).map (·, 1)).or
      (((decode3? a b c).map (·, 2)).or ((decode4? a b c d).map (·, 3)))

/-- The pieces of what remains after the first `skip` bytes. -/
def piecesAfter : Nat → Bytes → List Piece
  | _, [] => []
  | skip + 1, _ :: rest => piecesAfter skip rest
  | 0, a :: rest =>
    match firstChar? (a :: rest) with
    | some (char, more) => .char char :: piecesAfter more rest
    | none => .stray a :: piecesAfter 0 rest

/-- Split a byte string into characters and stray bytes. -/
def pieces (text : Bytes) : List Piece :=
  piecesAfter 0 text

/-- The characters of a byte string, with U+FFFD for each stray byte. -/
def chars (text : Bytes) : List Char :=
  (pieces text).map fun
    | .char c => c
    | .stray _ => '�'

/-- Whether a byte string is well-formed UTF-8. -/
def isUtf8 (text : Bytes) : Bool :=
  (pieces text).all fun
    | .char _ => true
    | .stray _ => false

/-- The encoding of a list of characters. -/
def encodeChars (text : List Char) : Bytes :=
  text.flatMap String.utf8EncodeChar

end LetPrint.Text

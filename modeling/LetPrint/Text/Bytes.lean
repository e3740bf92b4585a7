/-!
# Byte strings

Source text, names, paths, tool output and messages are byte strings: nothing requires them to be
valid UTF-8, and every column and offset counts bytes.

* `Bytes` and `utf8`, the bytes of a text written in this library;
* decimal and hexadecimal numerals (`decimal`, `integer`, `hexByte`);
* the byte classes of the language (`isDigit`, `isWordStart`, `isWordByte`);
* searching, splitting, joining and padding.
-/

namespace LetPrint

/-- A sequence of bytes. -/
abbrev Bytes := List UInt8

/-- The UTF-8 encoding of a text. -/
def utf8 (text : String) : Bytes :=
  text.toList.flatMap String.utf8EncodeChar

namespace Text

/-- The byte of an ASCII character. -/
def byte (c : Char) : UInt8 :=
  UInt8.ofNat c.toNat

/-- The byte that ends a line. -/
def newline : UInt8 := byte '\n'

/-! ## Numerals -/

/-- Decimal digits of a natural number, without leading zeros. -/
def decimal (n : Nat) : Bytes :=
  (Nat.toDigits 10 n).map byte

/-- Decimal text of an integer, with a minus sign if it is negative. -/
def integer : Int → Bytes
  | .ofNat n => decimal n
  | .negSucc n => byte '-' :: decimal (n + 1)

/-- Decimal text padded with zeros on the left to at least `width` digits. -/
def zeroPadded (width n : Nat) : Bytes :=
  let digits := decimal n
  List.replicate (width - digits.length) (byte '0') ++ digits

/-- Lowercase hexadecimal digits, padded with zeros on the left to at least `width` digits. -/
def hexDigits (width n : Nat) : Bytes :=
  let digits := (Nat.toDigits 16 n).map byte
  List.replicate (width - digits.length) (byte '0') ++ digits

/-- One ASCII letter in upper case; every other byte is unchanged. -/
def upper (b : UInt8) : UInt8 :=
  if byte 'a' ≤ b ∧ b ≤ byte 'z' then b - 32 else b

/-- The two uppercase hexadecimal digits of a byte. -/
def hexByte (b : UInt8) : Bytes :=
  (hexDigits 2 b.toNat).map upper

/-- The number that a run of decimal digits denotes. -/
def decimalValue (digits : Bytes) : Nat :=
  digits.foldl (fun n d => 10 * n + (d.toNat - 48)) 0

/-! ## Byte classes -/

/-- `0` to `9`. -/
def isDigit (b : UInt8) : Bool :=
  byte '0' ≤ b && b ≤ byte '9'

/-- A letter or an underscore: the first byte of a name. -/
def isWordStart (b : UInt8) : Bool :=
  b == byte '_' || (byte 'a' ≤ b && b ≤ byte 'z') || (byte 'A' ≤ b && b ≤ byte 'Z')

/-- A byte that continues a name. -/
def isWordByte (b : UInt8) : Bool :=
  isWordStart b || isDigit b

/-! ## Searching, splitting, joining, padding -/

/-- Index of the first occurrence of `pattern`. -/
def indexOf? (pattern : Bytes) : Bytes → Option Nat
  | [] => if pattern.isEmpty then some 0 else none
  | b :: rest =>
    if pattern.isPrefixOf (b :: rest) then some 0
    else (indexOf? pattern rest).map (· + 1)

/-- The pieces between the occurrences of `sep`; always at least one piece. -/
def splitOn (sep : UInt8) : Bytes → List Bytes
  | [] => [[]]
  | b :: rest =>
    if b == sep then [] :: splitOn sep rest
    else
      match splitOn sep rest with
      | piece :: pieces => (b :: piece) :: pieces
      | [] => [[b]]

/-- The pieces one after the other, with `sep` between neighbours. -/
def joinWith (sep : Bytes) : List Bytes → Bytes
  | [] => []
  | [piece] => piece
  | piece :: pieces => piece ++ sep ++ joinWith sep pieces

/-- `text` followed by spaces up to `width` bytes; longer text is kept whole. -/
def padRight (width : Nat) (text : Bytes) : Bytes :=
  text ++ List.replicate (width - text.length) (byte ' ')

/-- Bytewise lexicographic order. -/
def lexLE : Bytes → Bytes → Bool
  | [], _ => true
  | _ :: _, [] => false
  | a :: as, b :: bs => a < b || (a == b && lexLE as bs)

end Text

end LetPrint

import LetPrint.Yaml.Fault

/-!
# The characters of a YAML text

A text is in UTF-8, or, if a byte order mark says so, in UTF-16.  It holds no control characters but
tabs and line ends.

A text is loaded piece by piece, as its characters are asked for, and a character that is not allowed
is a problem of its piece: it shows when the piece is loaded, and not before.  So `Characters` keeps
the sizes of the pieces.
-/

namespace LetPrint.Yaml

open Text

/-- The characters of a text up to the first one that is not allowed. -/
structure Characters where
  chars : List Char
  /-- The numbers of characters in the pieces before the one with the problem. -/
  pieces : List Nat
  problem : Option Problem
  deriving DecidableEq, Repr, Inhabited

/-- Whether the character of a number may stand in a text. -/
def isAllowed (n : Nat) : Bool :=
  n == 0x09 || n == 0x0A || n == 0x0D || (0x20 ≤ n && n ≤ 0x7E) || n == 0x85
    || (0xA0 ≤ n && n ≤ 0xD7FF) || (0xE000 ≤ n && n ≤ 0xFFFD) || 0x10000 ≤ n

/-- Whether a number is that of no character: it belongs to a surrogate or is too great. -/
def isNoCharacter (n : Nat) : Bool :=
  (0xD800 ≤ n && n ≤ 0xDFFF) || 0x10FFFF < n

/-- The character of a number, if it may stand in a text. -/
def allowedCharacter (n : Nat) : Except Problem Char :=
  if isAllowed n then .ok (Char.ofNat n) else .error .control

/-- A way to write characters in bytes. -/
structure Encoding where
  /-- The number of bytes of the character at the front of a text that is not empty. -/
  width : Bytes → Except Problem Nat
  /-- The character of these bytes; at the end of a text some may be missing. -/
  decode : Bytes → Except Problem Char

namespace Encoding

/-! ## UTF-8 -/

/-- The number of bytes of a character, by its first byte. -/
def narrowWidth (text : Bytes) : Except Problem Nat :=
  match text with
  | [] => .error .incompleteCharacter
  | b :: _ =>
    if b < 0x80 then .ok 1
    else if 0xC0 ≤ b && b < 0xE0 then .ok 2
    else if 0xE0 ≤ b && b < 0xF0 then .ok 3
    else if 0xF0 ≤ b && b < 0xF8 then .ok 4
    else .error .leadingByte

/-- The number of a character, by its first byte and those that continue it. -/
def narrowNumber (b : UInt8) (more : Bytes) : Nat :=
  let bits := if more.isEmpty then 128 else Nat.pow 2 (6 - more.length)
  more.foldl (fun n c => 64 * n + c.toNat % 64) (b.toNat % bits)

/-- The least number that needs a number of bytes. -/
def leastOfWidth : Nat → Nat
  | 2 => 0x80
  | 3 => 0x800
  | 4 => 0x10000
  | _ => 0

/-- The character of some bytes in UTF-8. -/
def narrowDecode (bytes : Bytes) : Except Problem Char := do
  let width ← narrowWidth bytes
  match bytes with
  | [] => throw .incompleteCharacter
  | b :: more =>
    let n := narrowNumber b more
    if bytes.length < width then throw .incompleteCharacter
    else if more.any (fun c => c < 0x80 || 0xC0 ≤ c) then throw .trailingByte
    else if n < leastOfWidth width then throw .overlongCharacter
    else if isNoCharacter n then throw .noCharacter
    else allowedCharacter n

/-- Characters in one to four bytes. -/
def narrow : Encoding := ⟨narrowWidth, narrowDecode⟩

/-! ## UTF-16 -/

/-- The 16-bit unit of two bytes; `isBig` says that the high byte comes first. -/
def unit16 (isBig : Bool) (a b : UInt8) : Nat :=
  if isBig then 256 * a.toNat + b.toNat else 256 * b.toNat + a.toNat

/-- A unit that is the first half of a pair. -/
def isFirstHalf (n : Nat) : Bool := n / 0x400 == 0x36

/-- A unit that is the second half of a pair. -/
def isSecondHalf (n : Nat) : Bool := n / 0x400 == 0x37

/-- The number of bytes of a character, by its first unit. -/
def wideWidth (isBig : Bool) : Bytes → Except Problem Nat
  | a :: b :: _ =>
    if isSecondHalf (unit16 isBig a b) then .error .loneSecondHalf
    else if isFirstHalf (unit16 isBig a b) then .ok 4
    else .ok 2
  | _ => .error .incompleteUnit

/-- The character of some bytes in UTF-16. -/
def wideDecode (isBig : Bool) : Bytes → Except Problem Char
  | [a, b, c, d] =>
    let first := unit16 isBig a b
    let second := unit16 isBig c d
    if !isSecondHalf second then .error .loneFirstHalf
    else allowedCharacter (0x10000 + first % 0x400 * 0x400 + second % 0x400)
  | [a, b] =>
    if isFirstHalf (unit16 isBig a b) then .error .incompletePair
    else allowedCharacter (unit16 isBig a b)
  | _ => .error .incompletePair

/-- Characters in one or two 16-bit units. -/
def wide (isBig : Bool) : Encoding := ⟨wideWidth isBig, wideDecode isBig⟩

end Encoding

/-! ## Texts -/

/-- The number of bytes of a piece. -/
def pieceSize : Nat := 512

/-- Whether a problem is that the text ends inside a character.  The end is seen only after all that
stands before it is loaded. -/
def Problem.isOfEnd : Problem → Bool
  | incompleteCharacter | incompleteUnit | incompletePair => true
  | _ => false

/-- The characters of a text from here on.  `skip` bytes belong to the character before them, `room`
bytes are left in the piece, and `count` characters stand in it before.  A character that does not fit
in the room starts the next piece. -/
def Characters.read (e : Encoding) (skip room count : Nat) : Bytes → Characters
  | [] => ⟨[], [count], none⟩
  | b :: rest =>
    match skip with
    | skip + 1 => Characters.read e skip room count rest
    | 0 =>
      match e.width (b :: rest) with
      | .error problem =>
        ⟨[], if room = 0 || problem.isOfEnd then [count] else [], some problem⟩
      | .ok width =>
        let isNext := room < width
        match e.decode ((b :: rest).take width) with
        | .error problem => ⟨[], if isNext || problem.isOfEnd then [count] else [], some problem⟩
        | .ok char =>
          let more :=
            if isNext then Characters.read e (width - 1) (pieceSize - width) 1 rest
            else Characters.read e (width - 1) (room - width) (count + 1) rest
          ⟨char :: more.chars, if isNext then count :: more.pieces else more.pieces, more.problem⟩

/-- The characters of a text, without the byte order mark it may start with. -/
def Characters.ofBytes (text : Bytes) : Characters :=
  match text with
  | 0xFF :: 0xFE :: rest => .read (.wide false) 0 (pieceSize - 2) 0 rest
  | 0xFE :: 0xFF :: rest => .read (.wide true) 0 (pieceSize - 2) 0 rest
  | 0xEF :: 0xBB :: 0xBF :: rest => .read .narrow 0 (pieceSize - 3) 0 rest
  | _ => .read .narrow 0 pieceSize 0 text

/-- Every line end of one line as `\n`: a carriage return, a line feed, both, or the control character
for the next line. -/
def uniformLines : List Char → List Char
  | '\r' :: '\n' :: rest => '\n' :: uniformLines rest
  | c :: rest => (if c == '\r' || c == '\u0085' then '\n' else c) :: uniformLines rest
  | [] => []

end LetPrint.Yaml

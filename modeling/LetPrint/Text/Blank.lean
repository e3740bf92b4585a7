import LetPrint.Text.Bytes

/-!
# White space

Two notions of white space are in use.  Lines and right-hand sides lose every *white-space
character* at both ends (`trim`): the 25 characters of Unicode's White_Space property, recognised by
their UTF-8 encodings.  Between the words of a statement and between the tokens of an expression only
single *blank bytes* are skipped (`isBlankInLine`, `isBlankInExpr`).
-/

namespace LetPrint.Text

/-- The blank bytes of an expression: space, tab, newline, carriage return and form feed. -/
def isBlankInExpr (b : UInt8) : Bool :=
  b == byte ' ' || b == byte '\t' || b == byte '\n' || b == byte '\r' || b == 0x0C

/-- The blank bytes between the words of a statement: space, tab, carriage return and form feed. -/
def isBlankInLine (b : UInt8) : Bool :=
  b == byte ' ' || b == byte '\t' || b == byte '\r' || b == 0x0C

/-! ## White-space characters by their encodings -/

/-- White space of one byte: U+0009 to U+000D and U+0020. -/
def isBlank1 (a : UInt8) : Bool :=
  (0x09 ≤ a && a ≤ 0x0D) || a == 0x20

/-- White space of two bytes: U+0085 and U+00A0. -/
def isBlank2 (a b : UInt8) : Bool :=
  a == 0xC2 && (b == 0x85 || b == 0xA0)

/-- White space of three bytes: U+1680, U+2000 to U+200A, U+2028, U+2029, U+202F, U+205F and
U+3000. -/
def isBlank3 (a b c : UInt8) : Bool :=
  (a == 0xE1 && b == 0x9A && c == 0x80)
    || (a == 0xE2 && b == 0x80
        && ((0x80 ≤ c && c ≤ 0x8A) || c == 0xA8 || c == 0xA9 || c == 0xAF))
    || (a == 0xE2 && b == 0x81 && c == 0x9F)
    || (a == 0xE3 && b == 0x80 && c == 0x80)

/-- `text` without the white space it starts with, where `blank2` and `blank3` tell the white-space
characters of two and of three bytes. -/
def trimStartBy (blank2 : UInt8 → UInt8 → Bool) (blank3 : UInt8 → UInt8 → UInt8 → Bool) :
    Bytes → Bytes
  | a :: b :: c :: rest =>
    if isBlank1 a then trimStartBy blank2 blank3 (b :: c :: rest)
    else if blank2 a b then trimStartBy blank2 blank3 (c :: rest)
    else if blank3 a b c then trimStartBy blank2 blank3 rest
    else a :: b :: c :: rest
  | [a, b] =>
    if isBlank1 a then trimStartBy blank2 blank3 [b] else if blank2 a b then [] else [a, b]
  | [a] => if isBlank1 a then [] else [a]
  | [] => []

/-- `text` without the white-space characters it starts with. -/
def trimStart : Bytes → Bytes :=
  trimStartBy isBlank2 isBlank3

/-- `trimStart` for a text whose bytes stand in reverse order. -/
def trimStartReversed : Bytes → Bytes :=
  trimStartBy (fun b a => isBlank2 a b) (fun c b a => isBlank3 a b c)

/-- `text` without the white-space characters it ends with. -/
def trimEnd (text : Bytes) : Bytes :=
  (trimStartReversed text.reverse).reverse

/-- `text` without the white-space characters at its two ends. -/
def trim (text : Bytes) : Bytes :=
  trimStart (trimEnd text)

end LetPrint.Text

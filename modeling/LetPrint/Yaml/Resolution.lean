import LetPrint.Text.Base64
import LetPrint.Yaml.Fault
import LetPrint.Yaml.Timestamp

/-!
# The tags of scalars

The tag that a plain scalar has by its text: null, a truth value, a number, a timestamp, or a string.
`_` may stand anywhere in a number that starts with a sign or a digit, and between digits in one that
starts with a point.  `scalarText` gives what a text stands for with its tag, which may be written
before it.
-/

namespace LetPrint.Yaml

open Text

/-! ## Integers -/

/-- The value of a hexadecimal digit. -/
def digitValue? (b : UInt8) : Option Nat :=
  if isDigit b then some (b.toNat - 48)
  else if byte 'A' ≤ upper b && upper b ≤ byte 'F' then some ((upper b).toNat - 55)
  else none

/-- The number that digits of a base denote; there is at least one digit. -/
def numeral? (base : Nat) (digits : Bytes) : Option Nat :=
  if digits.isEmpty then none
  else
    digits.foldlM (fun n d => do
      let v ← digitValue? d
      if v < base then some (base * n + v) else none) 0

/-- A numeral with the base that its first characters tell. -/
def basedNumeral? : Bytes → Option Nat
  | 0x30 :: b :: rest =>
    if upper b == byte 'X' then numeral? 16 rest
    else if upper b == byte 'O' then numeral? 8 rest
    else if upper b == byte 'B' then numeral? 2 rest
    else numeral? 8 (b :: rest)
  | digits => numeral? 10 digits

/-- Whether a text is a numeral, as `read` takes it, that fits in 64 bits; a sign may stand before
it, and takes one of the bits. -/
def fitsWord (read : Bytes → Option Nat) (text : Bytes) : Bool :=
  match text with
  | [] => false
  | b :: rest =>
    if b == byte '-' then (read rest).any (· ≤ Nat.pow 2 63)
    else if b == byte '+' then (read rest).any (· < Nat.pow 2 63)
    else (read text).any (· < Nat.pow 2 64)

/-- Whether a text is an integer that fits in 64 bits.  The sign of a binary or octal one may also
stand behind the mark of its base. -/
def isInteger (text : Bytes) : Bool :=
  fitsWord basedNumeral? text ||
    match text with
    | 0x30 :: mark :: rest =>
      (mark == byte 'b' && fitsWord (numeral? 2) rest)
        || (mark == byte 'o' && fitsWord (numeral? 8) rest)
    | _ => false

/-! ## Decimal numbers -/

/-- A text without the sign it may start with. -/
def unsigned (text : Bytes) : Bytes :=
  match text with
  | [] => []
  | b :: rest => if b == byte '-' || b == byte '+' then rest else text

/-- The size of a decimal number: `digits` times a power of ten. -/
structure Magnitude where
  digits : Nat
  exponent : Int
  deriving DecidableEq, Repr

/-- The exponent of a decimal number; it may be missing. -/
def exponent? : Bytes → Option Int
  | [] => some 0
  | e :: text =>
    let digits := unsigned text
    if upper e != byte 'E' || digits.isEmpty || !digits.all isDigit then none
    else if text.head? == some (byte '-') then some (-(decimalValue digits : Int))
    else some (decimalValue digits)

/-- The size of a decimal number; its fraction and its exponent may be missing. -/
def magnitude? (text : Bytes) : Option Magnitude :=
  let body := unsigned text
  let whole := body.takeWhile isDigit
  let rest := body.dropWhile isDigit
  let (fraction, rest) :=
    match rest with
    | 0x2E :: rest => (rest.takeWhile isDigit, rest.dropWhile isDigit)
    | _ => ([], rest)
  if whole.isEmpty && fraction.isEmpty then none
  else
    (exponent? rest).map fun e => ⟨decimalValue (whole ++ fraction), e - (fraction.length : Int)⟩

/-- The least number that is rounded to infinity in 64-bit floating point: half a unit in the last
place above the greatest finite number. -/
def infinite : Nat :=
  Nat.pow 2 1024 - Nat.pow 2 970

/-- Whether a number is rounded to a finite one in 64-bit floating point.  The number of digits before
the point decides all but the close cases, which are compared exactly. -/
def Magnitude.isFinite (m : Magnitude) : Bool :=
  let places := (decimal m.digits).length + m.exponent
  if m.digits = 0 || places < 300 then true
  else if 310 < places then false
  else m.digits * Nat.pow 10 m.exponent.toNat < infinite * Nat.pow 10 (-m.exponent).toNat

/-- Whether a text is a decimal number of a size that can be represented. -/
def isDecimal (text : Bytes) : Bool :=
  (magnitude? text).any (·.isFinite)

/-- Whether every `_` of a text stands between two digits; `before` says whether a digit stands
before the text. -/
def separatesDigits (before : Bool) : Bytes → Bool
  | [] => true
  | b :: rest =>
    (b != byte '_' || (before && rest.head?.any isDigit)) && separatesDigits (isDigit b) rest

/-! ## Tags -/

/-- Whether `text` is one of some words. -/
def isOneOf (words : List String) (text : Bytes) : Bool :=
  words.any (utf8 · == text)

/-- The tag of a text; `dates` says whether it may be a timestamp. -/
def textTag (dates : Bool) (text : Bytes) : Tag :=
  let number := text.filter (· != byte '_')
  if isOneOf ["", "~", "null", "Null", "NULL"] text then .null
  else if isOneOf ["true", "True", "TRUE", "false", "False", "FALSE"] text then .bool
  else if isOneOf [".nan", ".NaN", ".NAN"] text
      || isOneOf [".inf", ".Inf", ".INF"] (unsigned text) then .float
  else if text.head?.any (fun b => isDigit b || b == byte '-' || b == byte '+') then
    if dates && isTimestamp text then .timestamp
    else if isInteger number then .int
    else if isDecimal number then .float
    else .str
  else if text.head? == some (byte '.') && separatesDigits false text && isDecimal number then .float
  else .str

/-- The tag of a plain scalar without one. -/
def plainTag (text : Bytes) : Tag :=
  if text == utf8 "<<" then .merge else textTag true text

/-- What a scalar stands for; null stands for nothing.  A tag that a text can tell must fit the text,
except that a whole number may also be a decimal one. -/
def scalarText (tag : Tag) (text : Bytes) : Except Problem (Option Bytes) :=
  let found := textTag (tag = .timestamp) text
  if tag = .binary then
    match Base64.decode? text with
    | some bytes => .ok (some bytes)
    | none => .error .notBase64
  else if tag ∈ [.null, .bool, .int, .float, .timestamp] && found ≠ tag
      && !(tag = .float && found = .int) then
    .error (.mistagged found tag text)
  else .ok (if tag = .null then none else some text)

end LetPrint.Yaml

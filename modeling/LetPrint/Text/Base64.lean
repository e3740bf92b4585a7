import LetPrint.Text.Bytes

/-!
# Base64

Bytes written six bits to a character, in groups of four characters.  `=` fills up the last group, and
line ends do not count.
-/

namespace LetPrint.Text.Base64

/-- The six bits of a character. -/
def value? (b : UInt8) : Option Nat :=
  if byte 'A' ≤ b && b ≤ byte 'Z' then some (b.toNat - 65)
  else if byte 'a' ≤ b && b ≤ byte 'z' then some (b.toNat - 71)
  else if isDigit b then some (b.toNat + 4)
  else if b == byte '+' then some 62
  else if b == byte '/' then some 63
  else none

/-- The bytes of groups of characters. -/
def groups? : Bytes → Option Bytes
  | [] => some []
  | a :: b :: c :: d :: rest => do
    let isLast := rest.isEmpty && d == byte '='
    let size := if !isLast then 3 else if c == byte '=' then 1 else 2
    let a ← value? a
    let b ← value? b
    let c ← if size < 2 then some 0 else value? c
    let d ← if size < 3 then some 0 else value? d
    let n := ((a * 64 + b) * 64 + c) * 64 + d
    let bytes := [n / 65536, n / 256, n].map UInt8.ofNat
    return bytes.take size ++ (← groups? rest)
  | _ => none

/-- The bytes that a text stands for. -/
def decode? (text : Bytes) : Option Bytes :=
  groups? (text.filter fun b => b != newline && b != byte '\r')

end LetPrint.Text.Base64

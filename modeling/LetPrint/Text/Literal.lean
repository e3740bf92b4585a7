import LetPrint.Text.Bytes

/-!
# String literals

A string literal is a body between double quotes.  A backslash in the body starts one of the escapes
`\n`, `\t`, `\"`, `\\`; every other byte, a bare double quote included, stands for itself.
`unquote` reads a literal, `escape` writes the body of one.
-/

namespace LetPrint.Text

/-- Why a text is no string literal. -/
inductive LiteralFault where
  /-- The text is not enclosed in double quotes. -/
  | notALiteral
  /-- The body ends in the middle of an escape. -/
  | danglingBackslash
  /-- A backslash before a byte that makes no escape. -/
  | unsupportedEscape (b : UInt8)
  deriving DecidableEq, Repr

/-- The wording of a fault; the byte of an unsupported escape is shown as the character of that
number. -/
def LiteralFault.message : LiteralFault → Bytes
  | .notALiteral => utf8 "not a string literal"
  | .danglingBackslash => utf8 "dangling backslash"
  | .unsupportedEscape b => utf8 "unsupported escape \\" ++ String.utf8EncodeChar (Char.ofUInt8 b)

/-- The byte that an escape stands for, by the byte after the backslash. -/
def escapeValue? (b : UInt8) : Option UInt8 :=
  match Char.ofUInt8 b with
  | 'n' => some newline
  | 't' => some (byte '\t')
  | '"' => some (byte '"')
  | '\\' => some (byte '\\')
  | _ => none

/-- The text that a literal's body stands for. -/
def unescape : Bytes → Except LiteralFault Bytes
  | [] => .ok []
  | b :: rest =>
    if b == byte '\\' then
      match rest with
      | [] => .error .danglingBackslash
      | e :: rest' =>
        match escapeValue? e with
        | some value => (unescape rest').map (value :: ·)
        | none => .error (.unsupportedEscape e)
    else (unescape rest).map (b :: ·)

/-- Whether a text has the outline of a string literal: two bytes or more, with a double quote at
each end. -/
def isLiteral (text : Bytes) : Bool :=
  2 ≤ text.length && text.head? == some (byte '"') && text.getLast? == some (byte '"')

/-- The text that a string literal stands for. -/
def unquote (text : Bytes) : Except LiteralFault Bytes :=
  if isLiteral text then unescape text.tail.dropLast else .error .notALiteral

/-- The body of a literal that stands for `text`. -/
def escape (text : Bytes) : Bytes :=
  text.flatMap fun b =>
    match Char.ofUInt8 b with
    | '\n' => utf8 "\\n"
    | '\t' => utf8 "\\t"
    | '"' => utf8 "\\\""
    | '\\' => utf8 "\\\\"
    | _ => [b]

end LetPrint.Text

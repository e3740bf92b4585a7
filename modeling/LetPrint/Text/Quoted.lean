import LetPrint.Text.Printable
import LetPrint.Text.Utf8

/-!
# Quoted text

The escaped form in which messages and dumps show a text: printable characters stand for themselves,
everything else is an escape, and a stray byte is `\xNN`.  `quote` writes a string in double quotes,
`quoteByte` one byte, read as the character of that number, in single quotes.
-/

namespace LetPrint.Text

/-- The letter of a two-character escape. -/
def escapeLetter? (c : Char) : Option Char :=
  match c.toNat with
  | 0x07 => some 'a'
  | 0x08 => some 'b'
  | 0x09 => some 't'
  | 0x0A => some 'n'
  | 0x0B => some 'v'
  | 0x0C => some 'f'
  | 0x0D => some 'r'
  | _ => none

/-- A character inside quotes of the kind `mark`. -/
def quotedChar (mark c : Char) : Bytes :=
  if c == mark || c == '\\' then byte '\\' :: String.utf8EncodeChar c
  else if isPrintable c then String.utf8EncodeChar c
  else
    match escapeLetter? c with
    | some letter => [byte '\\', byte letter]
    | none =>
      if c.toNat < 0x20 || c.toNat == 0x7F then utf8 "\\x" ++ hexDigits 2 c.toNat
      else if c.toNat < 0x10000 then utf8 "\\u" ++ hexDigits 4 c.toNat
      else utf8 "\\U" ++ hexDigits 8 c.toNat

/-- A piece inside quotes of the kind `mark`. -/
def quotedPiece (mark : Char) : Piece → Bytes
  | .char c => quotedChar mark c
  | .stray b => utf8 "\\x" ++ hexDigits 2 b.toNat

/-- A text in double quotes. -/
def quote (text : Bytes) : Bytes :=
  byte '"' :: (pieces text).flatMap (quotedPiece '"') ++ [byte '"']

/-- A byte, read as the character of that number, in single quotes. -/
def quoteByte (b : UInt8) : Bytes :=
  byte '\'' :: quotedChar '\'' (Char.ofUInt8 b) ++ [byte '\'']

end LetPrint.Text

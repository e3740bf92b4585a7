import LetPrint.Position

/-!
# Tokens

The tokens of an expression, with the text they were read from and the place where it starts.
-/

namespace LetPrint

open Text

/-- What a token is. -/
inductive TokenKind where
  | int
  | ident
  | plus
  | minus
  | star
  | slash
  | lparen
  | rparen
  | eof
  deriving DecidableEq, Repr, Inhabited

namespace TokenKind

/-- The name shown in token tables. -/
def name : TokenKind → Bytes
  | int => utf8 "INT"
  | ident => utf8 "IDENT"
  | plus => utf8 "PLUS"
  | minus => utf8 "MINUS"
  | star => utf8 "STAR"
  | slash => utf8 "SLASH"
  | lparen => utf8 "LPAREN"
  | rparen => utf8 "RPAREN"
  | eof => utf8 "EOF"

/-- The kinds in the order of their numbers, from 0. -/
def all : List TokenKind :=
  [int, ident, plus, minus, star, slash, lparen, rparen, eof]

/-- The name of the kind with a given number. -/
def nameOfNumber : Int → Bytes
  | .ofNat n => (all[n]?).elim (utf8 "UNKNOWN") name
  | .negSucc _ => utf8 "UNKNOWN"

/-- The kind of a token that is a single byte. -/
def ofByte? (b : UInt8) : Option TokenKind :=
  match Char.ofUInt8 b with
  | '+' => some plus
  | '-' => some minus
  | '*' => some star
  | '/' => some slash
  | '(' => some lparen
  | ')' => some rparen
  | _ => none

end TokenKind

/-- A token: its kind, its text and where the text starts. -/
structure Token where
  kind : TokenKind
  text : Bytes
  position : Position
  deriving DecidableEq, Repr, Inhabited

namespace Token

/-- The value of an integer token; 0 for every other kind. -/
def value (t : Token) : Int32 :=
  if t.kind = .int then Int32.ofNat (decimalValue t.text) else 0

/-- `KIND('TEXT') at line L, column C`. -/
def render (t : Token) : Bytes :=
  t.kind.name ++ utf8 "('" ++ t.text ++ utf8 "') at " ++ t.position.render

/-- One row of a token table. -/
def tableRow (kind text position : Bytes) : Bytes :=
  padRight 8 kind ++ utf8 " " ++ padRight 12 text ++ utf8 " " ++ padRight 20 position ++ utf8 "\n"

/-- A table of all tokens but the end of the input. -/
def table (tokens : List Token) : Bytes :=
  tableRow (utf8 "TYPE") (utf8 "VALUE") (utf8 "POSITION")
    ++ List.replicate 44 (byte '-') ++ utf8 "\n"
    ++ (tokens.filter (·.kind ≠ .eof)).flatMap fun t =>
      tableRow t.kind.name t.text t.position.render

end Token

end LetPrint

import LetPrint.Diagnostic
import LetPrint.Text.Literal
import LetPrint.Text.Quoted

/-!
# Parse errors

Why a source text is rejected, and where.  Every cause has a place; an unrecognised statement is
placed by its line alone.
-/

namespace LetPrint

open Text

/-- What is wrong with a source text. -/
inductive ParseFault where
  /-- A byte that starts no token. -/
  | unrecognizedByte (b : UInt8)
  /-- A run of digits above the largest 32-bit integer. -/
  | oversizedLiteral (digits : Bytes)
  /-- The text ends where an operand is due. -/
  | expectedExpression
  /-- A token that cannot start an operand. -/
  | unexpectedToken (text : Bytes)
  /-- An open parenthesis is followed by this token, or by the end, in place of its partner. -/
  | unclosed (found : Option Bytes)
  /-- A token after a complete expression. -/
  | trailingToken (text : Bytes)
  /-- A quoted right-hand side that is no string literal. -/
  | badLiteral (fault : LiteralFault)
  /-- A line that has the form of no statement. -/
  | unrecognizedStatement (text : Bytes)
  deriving DecidableEq, Repr

/-- A fault and its place; column 0 stands for the whole line. -/
structure ParseError where
  fault : ParseFault
  line : Int
  column : Int
  deriving DecidableEq, Repr

/-- A token's text in single quotes. -/
private def inQuotes (text : Bytes) : Bytes :=
  byte '\'' :: text ++ [byte '\'']

/-- The message of a fault, without its place, details and cause. -/
def ParseFault.message : ParseFault → Bytes
  | .unrecognizedByte b => utf8 "unrecognized character " ++ quoteByte b
  | .oversizedLiteral digits =>
    utf8 "integer literal " ++ digits ++ utf8 " does not fit in 32 bits"
  | .expectedExpression => utf8 "expected expression"
  | .unexpectedToken text => utf8 "unexpected token " ++ inQuotes text
  | .unclosed (some text) => utf8 "expected ')', found " ++ inQuotes text
  | .unclosed none => utf8 "expected ')', found end of expression"
  | .trailingToken text => utf8 "unexpected trailing token " ++ inQuotes text
  | .badLiteral _ => utf8 "bad string literal"
  | .unrecognizedStatement _ => utf8 "unrecognized statement"

namespace ParseError

/-- The report of a parse error. -/
def report (e : ParseError) : Report :=
  { category := .parse
    message := e.fault.message
    line := e.line
    column := e.column
    details :=
      match e.fault with
      | .unrecognizedStatement text => text
      | _ => [] }

/-- The diagnostic of a parse error; a bad string literal has its fault as the cause. -/
def diagnostic (e : ParseError) : Diagnostic :=
  match e.fault with
  | .badLiteral fault => .because e.report (.plain fault.message)
  | _ => .report e.report

end ParseError

end LetPrint

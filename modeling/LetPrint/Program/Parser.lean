import LetPrint.Expr.Parser
import LetPrint.Program

/-!
# Reading programs

A program is read line by line.  White space around a line is dropped; an empty line and a line that
starts with `//` say nothing; every other line is one statement (`LineShape`).  The right-hand side of
a `let` goes up to the semicolon that ends the line and is a string literal if it starts and ends with
a double quote, else an expression.

`Program.parse` stops at the first line with an error.  `Program.readingTrace` is what tracing shows
of the same reading: the token table of each expression, then each statement that was read.
-/

namespace LetPrint

open Text

/-- The name at the front of a text, and the rest; the name is empty if there is none. -/
def splitWord (text : Bytes) : Bytes × Bytes :=
  match text with
  | b :: _ =>
    if isWordStart b then (text.takeWhile isWordByte, text.dropWhile isWordByte) else ([], text)
  | [] => ([], text)

/-- The form of a line without the white space around it. -/
inductive LineShape where
  /-- Nothing, or a comment. -/
  | skipped
  /-- `let name = body ;`, with the index of the first byte of the body. -/
  | binding (name body : Bytes) (start : Nat)
  /-- `print name ;` -/
  | printing (name : Bytes)
  | unrecognized
  deriving DecidableEq, Repr

namespace LineShape

/-- The form of a line whose first word is `let`; `rest` is what follows the blanks after it. -/
def ofBinding (text rest : Bytes) : LineShape :=
  let (name, rest) := splitWord rest
  if name.isEmpty then unrecognized
  else
    match rest.dropWhile isBlankInLine with
    | b :: body =>
      if b == byte '=' && body.getLast? == some (byte ';') && trim body != utf8 ";" then
        binding name body.dropLast (text.length - body.length)
      else unrecognized
    | [] => unrecognized

/-- The form of a line whose first word is `print`; `rest` is what follows the blanks after it. -/
def ofPrinting (rest : Bytes) : LineShape :=
  let (name, rest) := splitWord rest
  if name.isEmpty then unrecognized
  else
    match rest.dropWhile isBlankInLine with
    | b :: tail => if b == byte ';' && (trim tail).isEmpty then printing name else unrecognized
    | [] => unrecognized

/-- The form of a trimmed line. -/
def of (text : Bytes) : LineShape :=
  if text.isEmpty || (utf8 "//").isPrefixOf text then skipped
  else
    let (word, rest) := splitWord text
    match rest with
    | b :: _ =>
      if isBlankInLine b then
        if word == utf8 "let" then ofBinding text (rest.dropWhile isBlankInLine)
        else if word == utf8 "print" then ofPrinting (rest.dropWhile isBlankInLine)
        else unrecognized
      else unrecognized
    | [] => unrecognized

end LineShape

/-- The value of a right-hand side that starts at the given line and column. -/
def readValue (text : Bytes) (line column : Int) : Except ParseError Expr :=
  if isLiteral text then
    match unquote text with
    | .ok value => .ok (.str value ⟨line, column, 0⟩)
    | .error fault => .error ⟨.badLiteral fault, line, column⟩
  else Expr.parse text line column

/-- The statement on a line, if there is one. -/
def readLine (number : Nat) (raw : Bytes) : Except ParseError (Option Stmt) :=
  let text := trim raw
  match LineShape.of text with
  | .skipped => .ok none
  | .unrecognized => .error ⟨.unrecognizedStatement text, number, 0⟩
  | .printing name => .ok (some (.print name number))
  | .binding name body start =>
    let value := trim body
    let indent := (indexOf? text raw).getD 0 + 1
    let column := indent + start + (indexOf? value body).getD 0
    (readValue value number column).map fun e => some (.bind name e number)

/-- The statements on the given lines, the first of which has the number `number`. -/
def readLines : Nat → List Bytes → Except ParseError Program
  | _, [] => .ok []
  | number, raw :: lines => do
    let statement ← readLine number raw
    let statements ← readLines (number + 1) lines
    return statement.toList ++ statements

/-- The program that a source text spells. -/
def Program.parse (source : Bytes) : Except ParseError Program :=
  readLines 1 (splitOn newline source)

/-! ## Tracing -/

/-- What tracing shows before the value of a line is read: the token table of an expression. -/
def valueTrace (raw : Bytes) : Bytes :=
  match LineShape.of (trim raw) with
  | .binding _ body _ =>
    let value := trim body
    if isLiteral value then []
    else
      match tokenize value with
      | .ok tokens => Token.table tokens
      | .error _ => []
  | _ => []

/-- What tracing shows while the given lines are read. -/
def linesTrace : Nat → List Bytes → Bytes
  | _, [] => []
  | number, raw :: lines =>
    valueTrace raw ++
      match readLine number raw with
      | .error _ => []
      | .ok none => linesTrace (number + 1) lines
      | .ok (some statement) =>
        utf8 "  linha " ++ decimal number ++ utf8 ": " ++ statement.render ++ utf8 "\n"
          ++ linesTrace (number + 1) lines

/-- What tracing shows while a source text is read. -/
def Program.readingTrace (source : Bytes) : Bytes :=
  linesTrace 1 (splitOn newline source)

end LetPrint

import LetPrint.Text.Bytes

/-!
# Positions

A place in a source text: line and column, counted from a start that the reader chooses, and the
byte offset from that start.  Lines and columns are counted exactly and are shown as signed 64-bit
words (`shown`).
-/

namespace LetPrint

open Text

/-- A line, a column and a byte offset. -/
structure Position where
  line : Int
  column : Int
  offset : Nat
  deriving DecidableEq, Repr, Inhabited

namespace Position

/-- A line or column number as it is shown: the signed 64-bit word congruent to it. -/
def shown (n : Int) : Int :=
  n.bmod (Nat.pow 2 64)

/-- The position after one more byte: a newline starts a line, any other byte fills a column. -/
def after (p : Position) (b : UInt8) : Position :=
  if b == newline then ⟨p.line + 1, 1, p.offset + 1⟩ else ⟨p.line, p.column + 1, p.offset + 1⟩

/-- The position after all of `text`. -/
def past (p : Position) (text : Bytes) : Position :=
  text.foldl after p

/-- `line L, column C`. -/
def render (p : Position) : Bytes :=
  utf8 "line " ++ integer (shown p.line) ++ utf8 ", column " ++ integer (shown p.column)

end Position

end LetPrint

import LetPrint.Yaml.Cursor

/-!
# Reading plain scalars

A plain scalar ends before `: `, before a comment, at a document marker, and, inside brackets, before
a mark of the brackets.  It goes on over lines that stand far enough to the right.
-/

namespace LetPrint.Yaml

/-- A character that ends a plain scalar inside brackets. -/
def isFlowMark (c : Char) : Bool :=
  [',', '?', '[', ']', '\x7b', '\x7d'].contains c

/-- The word of a plain scalar at the front of a text. -/
def plainWord (inFlow : Bool) : List Char → List Char
  | [] => []
  | c :: rest =>
    if isGap c || (c == ':' && startsGap rest) || (inFlow && isFlowMark c) then []
    else c :: plainWord inFlow rest

/-- What is read of a plain scalar. -/
structure PlainPart where
  text : List Char
  next : Cursor
  /-- Whether a line has ended since the last word. -/
  isFresh : Bool
  deriving Repr

/-- Read on in a plain scalar that has started on `line`; `gap` is the gap since its last word. -/
def readPlain (fuel : Nat) (inFlow : Bool) (indent : Int) (line : Nat) (gap : List Char) (c : Cursor) :
    Except Fault PlainPart :=
  match fuel with
  | 0 => .ok ⟨[], c, gap.any isBreak⟩
  | fuel + 1 => do
    let c ← c.need 4
    let word := plainWord inFlow c.rest
    if word.isEmpty || (!gap.isEmpty && c.at? '#') || (c.column = 0 && startsAnyMarker c.rest) then
      return ⟨[], c, gap.any isBreak⟩
    let c ← c.advance 2 word.length
    let (more, next) ← c.passGap indent line
    let part ←
      if more.isEmpty || (!inFlow && next.column < indent) then
        pure ⟨[], next, more.any isBreak⟩
      else readPlain fuel inFlow indent line more next
    return { part with text := foldGap gap ++ word ++ part.text }

end LetPrint.Yaml

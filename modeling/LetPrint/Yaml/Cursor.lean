import LetPrint.Yaml.Encoding

/-!
# Places in a YAML text

A `Cursor` is what is still to be read of a text, and the place where that starts.  Before a reader
looks at characters it has them loaded: `need` fails if the piece that holds them has a problem.  A
reader that only looks out for a comment uses `look`, which notes the problem and goes on; it is
reported when the current step of the reading is done, unless that finds another fault.

When more is loaded, what has been read is forgotten, so that the characters that are held start where
the reader stood.  A byte order mark that stands first among them is passed over wherever a line
starts, and takes the place of one character there.
-/

namespace LetPrint.Yaml

/-- A space or a tab. -/
def isBlank (c : Char) : Bool :=
  c == ' ' || c == '\t'

/-- A character that ends a line. -/
def isBreak (c : Char) : Bool :=
  c == '\n' || c == '\r' || c == '\u0085' || c == '\u2028' || c == '\u2029'

/-- A blank or a line end. -/
def isGap (c : Char) : Bool :=
  isBlank c || isBreak c

/-- Whether a text starts with a blank or a line end, or is empty. -/
def startsGap : List Char → Bool
  | [] => true
  | c :: _ => isGap c

/-- Whether a text starts with a line end, or is empty. -/
def startsBreak : List Char → Bool
  | [] => true
  | c :: _ => isBreak c

/-- A letter, a digit, `_` or `-`: what names are made of. -/
def isNameChar (c : Char) : Bool :=
  c.isAlphanum || c == '_' || c == '-'

/-- The quote of a scalar without escapes. -/
def singleQuote : Char := Char.ofNat 39

/-- Whether the text starts with a document marker that is made of `c`. -/
def startsMarker (c : Char) (text : List Char) : Bool :=
  match List.isPrefixOf? [c, c, c] text with
  | some rest => startsGap rest
  | none => false

/-- Whether the text starts with one of the two document markers. -/
def startsAnyMarker (text : List Char) : Bool :=
  startsMarker '-' text || startsMarker '.' text

/-- The line ends in a gap. -/
def lineEnds (gap : List Char) : List Char :=
  (uniformLines gap).filter isBreak

/-- What gaps between two words of a scalar stand for: blanks stand for themselves, one line end for
a space, and each further one for itself.  Blanks around line ends do not count. -/
def foldGap (gap : List Char) : List Char :=
  match lineEnds gap with
  | [] => gap
  | first :: more =>
    if first != '\n' then first :: more
    else if more.isEmpty then [' ']
    else more

/-- What is still to be read, and where it starts.  Lines count from 1, columns from 0. -/
structure Cursor where
  rest : List Char
  index : Nat := 0
  line : Nat := 1
  column : Nat := 0
  /-- The number of line ends since the last character that is not a blank. -/
  breaks : Nat := 0
  /-- The number of characters that are loaded and not yet read; the end of the text counts as one
  each time it is met. -/
  ahead : Nat := 0
  /-- The numbers of characters in the pieces that are not yet loaded. -/
  pieces : List Nat
  /-- The problem of the piece behind them. -/
  problem : Option Problem
  /-- Whether the problem has been noted. -/
  isSpoiled : Bool := false
  /-- The first of the characters that are held. -/
  first : Option Char := none
  deriving DecidableEq, Repr, Inhabited

namespace Cursor

/-- The start of a text. -/
def ofCharacters (text : Characters) : Cursor :=
  { rest := text.chars, pieces := text.pieces, problem := text.problem }

/-! ## Loading -/

/-- Load pieces until `n` characters are ahead; the number that then are, and the pieces left.  Fails
if there are not so many before the problem. -/
def load (problem : Option Problem) (n ahead : Nat) : List Nat → Except Problem (Nat × List Nat)
  | [] =>
    if n ≤ ahead then .ok (ahead, [])
    else
      match problem with
      | some problem => .error problem
      | none => .ok (ahead + 1, [])
  | piece :: pieces =>
    if n ≤ ahead then .ok (ahead, piece :: pieces) else load problem n (ahead + piece) pieces

/-- Have the next `n` characters loaded. -/
def need (c : Cursor) (n : Nat) : Except Fault Cursor :=
  if n ≤ c.ahead then .ok c
  else
    match load c.problem n c.ahead c.pieces with
    | .error problem => .error { problem }
    | .ok (ahead, pieces) => .ok { c with ahead, pieces, first := c.rest.head? }

/-- Have the next `n` characters loaded, and say whether they are.  A problem is noted, and all up to
it is loaded. -/
def look (c : Cursor) (n : Nat) : Bool × Cursor :=
  match c.need n with
  | .ok c => (true, c)
  | .error _ =>
    (false, { c with
      ahead := c.rest.length, pieces := [], isSpoiled := true, first := c.rest.head? })

/-! ## Moving -/

/-- Pass over one character.  Of a carriage return and a line feed only the second ends the line. -/
def step (c : Cursor) : Cursor :=
  match c.rest with
  | [] => c
  | char :: rest =>
    let c := { c with rest, index := c.index + 1, ahead := c.ahead - 1 }
    if char == '\r' && rest.head? == some '\n' then c
    else if isBreak char then { c with line := c.line + 1, column := 0, breaks := c.breaks + 1 }
    else
      { c with column := c.column + 1, breaks := if isBlank char then c.breaks else 0 }

/-- Pass over one character in place of the byte order mark that stands first, if one does and a line
starts here.  A line end that is passed over so does not end the line. -/
def skipMark (c : Cursor) : Cursor :=
  match c.rest with
  | [] => c
  | char :: rest =>
    if c.column ≠ 0 || c.first ≠ some '\ufeff' then c
    else
      { c with
        rest, index := c.index + 1, ahead := c.ahead - 1, column := 1
        breaks := if isBlank char then c.breaks else 0 }

/-- Pass over `n` characters. -/
def skip : Nat → Cursor → Cursor
  | 0, c => c
  | n + 1, c => skip n c.step

/-- Pass over `n` characters, and have `ahead` characters loaded behind each of them. -/
def advance (ahead : Nat) : Nat → Cursor → Except Fault Cursor
  | 0, c => .ok c
  | n + 1, c => do advance ahead n (← c.step.need ahead)

/-- Pass over the line end that stands here, if there is one; what it stands for. -/
def passBreak (c : Cursor) : List Char × Cursor :=
  match c.rest with
  | '\r' :: '\n' :: _ => (['\n'], c.skip 2)
  | char :: _ => if isBreak char then (uniformLines [char], c.step) else ([], c)
  | [] => ([], c)

/-- The characters of a class that stand here, and the place behind them, which is loaded. -/
def pass (p : Char → Bool) (c : Cursor) : Except Fault (List Char × Cursor) := do
  let c ← c.need 1
  let run := c.rest.takeWhile p
  return (run, ← c.advance 1 run.length)

/-- Pass over the gap that stands here, of at most `length` characters, inside a scalar that starts on
`line`.  `isFresh` says that a line has ended in the gap; then no tab may stand left of the column
`indent`. -/
def crossGap (indent : Int) (line : Nat) (length : Nat) (isFresh : Bool) (c : Cursor) :
    Except Fault Cursor :=
  match length, c.rest with
  | length + 1, char :: _ => do
    if isBreak char then
      (← (← c.need 2).passBreak.2.need 1).crossGap indent line length true
    else if !isBlank char then return c
    else if char == '\t' && isFresh && c.column < indent then throw ⟨.tabIndent, line, c.line⟩
    else (← c.step.need 1).crossGap indent line length isFresh
  | _, _ => .ok c

/-- The gap that stands here, inside a scalar that starts on `line`, and the place behind it. -/
def passGap (indent : Int) (line : Nat) (c : Cursor) : Except Fault (List Char × Cursor) := do
  let gap := c.rest.takeWhile isGap
  return (gap, ← c.crossGap indent line gap.length false)

/-- Whether a character stands here. -/
def at? (c : Cursor) (char : Char) : Bool :=
  c.rest.head? == some char

/-! ## Comments -/

/-- The farthest that is looked ahead for a comment. -/
def commentReach : Nat := 512

/-- Look ahead over the characters of a class for a comment; the number of characters before it. -/
def lookForComment (p : Char → Bool) (c : Cursor) : Cursor × Option Nat :=
  let n := ((c.rest.take commentReach).takeWhile p).length
  let (isLoaded, next) := c.look (min (n + 1) commentReach)
  (next, if isLoaded && n < commentReach && (c.rest.drop n).head? == some '#' then some n else none)

/-- Pass over a comment behind blanks, up to the end of its line, if there is one. -/
def skipComment (c : Cursor) : Except Fault Cursor := do
  match c.lookForComment isBlank with
  | (c, some n) => return (← (c.skip n).pass (!isBreak ·)).2
  | (c, none) => return c

/-- Pass over the comment that stands here, and over further ones with nothing but gaps between. -/
def skipComments (fuel : Nat) (c : Cursor) : Except Fault Cursor :=
  match fuel with
  | 0 => .ok c
  | fuel + 1 => do
    let (_, c) ← c.pass (!isBreak ·)
    match c.lookForComment isGap with
    | (c, some n) => (c.skip n).skipComments fuel
    | (c, none) => return c

end Cursor

end LetPrint.Yaml

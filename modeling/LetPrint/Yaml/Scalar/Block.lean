import LetPrint.Yaml.Cursor

/-!
# Block scalars

A block scalar is a run of indented lines under a header: `|` keeps its line ends and `>` folds them.
The header may give the column of the lines and what becomes of the line ends behind the last one.
-/

namespace LetPrint.Yaml

/-- What becomes of the line ends behind the last line of a block scalar. -/
inductive Chomping where
  | strip
  | clip
  | keep
  deriving DecidableEq, Repr

/-- The header of a block scalar. -/
structure BlockHeader where
  chomping : Chomping := .clip
  /-- How far the lines are indented, or 0 if the first of them tells. -/
  increment : Nat := 0
  deriving DecidableEq, Repr

/-- Read the parts of a header, each at most once. -/
def readBlockHeader (line : Nat) (fuel : Nat) (hasSign hasDigit : Bool) (header : BlockHeader)
    (c : Cursor) : Except Fault (BlockHeader × Cursor) := do
  let c ← c.need 1
  match fuel, c.rest with
  | 0, _ => return (header, c)
  | _, [] => return (header, c)
  | fuel + 1, char :: _ =>
    if !hasSign && (char == '+' || char == '-') then
      let chomping := if char == '+' then .keep else .strip
      readBlockHeader line fuel true hasDigit { header with chomping } c.step
    else if !hasDigit && char.isDigit then
      if char == '0' then throw ⟨.zeroIndent, line, c.line⟩
      else
        readBlockHeader line fuel hasSign true { header with increment := char.toNat - 48 } c.step
    else return (header, c)

/-- The gap before the next line of a block scalar. -/
structure BlockGap where
  /-- The line ends in the gap. -/
  breaks : List Char
  /-- The column that is furthest right. -/
  widest : Nat
  next : Cursor
  deriving Repr

/-- Read the empty lines, and the blanks up to the column `indent`, before the next line; an `indent`
of 0 is not known yet.  The scalar starts on `line`. -/
def readBlockGap (line : Nat) (fuel : Nat) (indent : Nat) (breaks : List Char) (widest : Nat)
    (c : Cursor) : Except Fault BlockGap :=
  let widest := max widest c.column
  match fuel with
  | 0 => .ok ⟨breaks, widest, c⟩
  | fuel + 1 => do
    let c ← c.need 1
    let isIndent := indent = 0 || c.column < indent
    match c.rest with
    | [] => return ⟨breaks, widest, c⟩
    | char :: _ =>
      if isIndent && char == ' ' then readBlockGap line fuel indent breaks widest c.step
      else if isIndent && char == '\t' then throw ⟨.tabInBlock, line, c.line⟩
      else if isBreak char then
        let (lineEnd, next) := (← c.need 2).passBreak
        readBlockGap line fuel indent (breaks ++ lineEnd) widest next
      else return ⟨breaks, widest, c⟩

/-- What has been read of a block scalar. -/
structure BlockText where
  text : List Char := []
  /-- The line end of the last line. -/
  lineEnd : List Char := []
  /-- The line ends of the empty lines behind it. -/
  breaks : List Char := []
  /-- Whether the last line starts with a blank. -/
  isBlank : Bool := false
  deriving Repr

/-- What stands between the last line and the next, which starts with a blank if `nextIsBlank`. -/
def BlockText.between (b : BlockText) (isLiteral nextIsBlank : Bool) : List Char :=
  if !isLiteral && !b.isBlank && !nextIsBlank && b.lineEnd == ['\n'] then
    if b.breaks.isEmpty then [' '] else b.breaks
  else b.lineEnd ++ b.breaks

/-- Read the lines at the column `indent`. -/
def readBlockLines (line : Nat) (fuel : Nat) (isLiteral : Bool) (indent : Nat) (b : BlockText)
    (c : Cursor) : Except Fault (BlockText × Cursor) :=
  match fuel with
  | 0 => .ok (b, c)
  | fuel + 1 =>
    if c.column ≠ indent || c.rest.isEmpty then .ok (b, c)
    else do
      let startsBlank := c.rest.head?.any isBlank
      let (body, c) ← c.pass (!isBreak ·)
      let (lineEnd, c) := (← c.need 2).passBreak
      let gap ← readBlockGap line (c.rest.length + 1) indent [] 0 c
      let text := b.text ++ b.between isLiteral startsBlank ++ body
      readBlockLines line fuel isLiteral indent ⟨text, lineEnd, gap.breaks, startsBlank⟩ gap.next

/-- The text of the whole scalar. -/
def BlockText.finish (b : BlockText) : Chomping → List Char
  | .strip => b.text
  | .clip => b.text ++ b.lineEnd
  | .keep => b.text ++ b.lineEnd ++ b.breaks

/-- Read a block scalar whose header stands here, inside a collection at the column `parent`. -/
def readBlock (parent : Int) (isLiteral : Bool) (c : Cursor) : Except Fault (List Char × Cursor) := do
  let line := c.line
  let (header, c) ← readBlockHeader line 2 false false {} c.step
  let c ← (← c.pass isBlank).2.skipComment
  if !startsBreak c.rest then throw ⟨.expectedLineEnd, line, c.line⟩
  let (_, c) := (← c.need 2).passBreak
  let fuel := c.rest.length + 1
  let least := (max parent 0).toNat + header.increment
  let isGiven := header.increment ≠ 0
  let gap ← readBlockGap line fuel (if isGiven then least else 0) [] 0 c
  let indent := if isGiven then least else max (max gap.widest (parent + 1).toNat) 1
  let (b, next) ← readBlockLines line fuel isLiteral indent { breaks := gap.breaks } gap.next
  return (b.finish header.chomping, next)

end LetPrint.Yaml

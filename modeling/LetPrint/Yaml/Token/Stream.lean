import LetPrint.Yaml.Scalar.Block
import LetPrint.Yaml.Scalar.Plain
import LetPrint.Yaml.Scalar.Quoted
import LetPrint.Yaml.Token

/-!
# The stream of tokens

Tokens are read from the text as they are asked for, and some way ahead: a scalar may turn out to be a
key only when the `:` behind it is read, and then tokens are put before it.  So a token is not given
out before two more have been read, nor while it may still be the start of a key.  A fault of a token
that is read ahead comes before a fault in the order of the tokens before it, and what is never
reached has no faults.

* `Stream.peek` gives the next token, and `Stream.advance` passes over it.
* `Stream.fetch` reads one more token.
-/

namespace LetPrint.Yaml

/-- A token that may turn out to be the start of a key: its number and its place. -/
structure KeyCandidate where
  number : Nat
  index : Nat
  line : Nat
  column : Nat
  /-- Whether nothing but a key may stand there. -/
  isRequired : Bool
  deriving DecidableEq, Repr, Inhabited

/-- The tokens that are read and not yet passed over, and the state of the reading. -/
structure Stream where
  cursor : Cursor
  queue : List Token := [⟨.streamStart, 1⟩]
  /-- The number of tokens that are passed over. -/
  taken : Nat := 0
  /-- The possible key at the current depth of brackets. -/
  candidate : Option KeyCandidate := none
  /-- The possible keys at the depths around it, the nearest first. -/
  outer : List (Option KeyCandidate) := []
  /-- The column of the current block collection. -/
  indent : Int := -1
  /-- The columns of the collections around it, the nearest first. -/
  indents : List Int := []
  /-- Whether a key may start here. -/
  allowsKey : Bool := true
  deriving Repr, Inhabited

namespace Stream

/-- The greatest depth of brackets and of block collections. -/
def depthLimit : Nat := 10000

/-- The length of the text from the start of a key to its `:` at most. -/
def keyLimit : Nat := 1024

/-- Whether the text is inside brackets here. -/
def inFlow (s : Stream) : Bool :=
  !s.outer.isEmpty

/-- A problem with what has started on `line`, which shows here. -/
def fault (s : Stream) (problem : Problem) (line : Nat) : Fault :=
  ⟨problem, line, s.cursor.line⟩

/-- Put a token behind the others. -/
def push (s : Stream) (kind : TokenKind) (line : Nat) : Stream :=
  { s with queue := s.queue ++ [⟨kind, line⟩] }

/-- Put a token before the token of a number. -/
def pushBefore (s : Stream) (number : Nat) (kind : TokenKind) (line : Nat) : Stream :=
  let (before, behind) := s.queue.splitAt (number - s.taken)
  { s with queue := before ++ ⟨kind, line⟩ :: behind }

/-- Pass over a mark of `n` characters. -/
def mark (s : Stream) (n : Nat) (kind : TokenKind) : Stream :=
  let line := s.cursor.line
  { s with cursor := s.cursor.skip n }.push kind line

/-! ## Keys -/

/-- Whether a key that starts at a candidate can no longer be completed: it is on one line, and short. -/
def isStale (s : Stream) (k : KeyCandidate) : Bool :=
  k.line < s.cursor.line || k.index + keyLimit < s.cursor.index

/-- The candidate at this depth, if it can still be completed. -/
def liveCandidate (s : Stream) : Except Fault (Option KeyCandidate) :=
  match s.candidate with
  | none => .ok none
  | some k =>
    if !s.isStale k then .ok (some k)
    else if k.isRequired then .error (s.fault .keyWithoutColon k.line)
    else .ok none

/-- Give up the candidate at this depth. -/
def dropCandidate (s : Stream) : Except Fault Stream :=
  match s.candidate with
  | some k =>
    if k.isRequired then .error (s.fault .keyWithoutColon k.line)
    else .ok { s with candidate := none }
  | none => .ok s

/-- Note that the next token may be the start of a key. -/
def noteCandidate (s : Stream) : Except Fault Stream :=
  if !s.allowsKey then .ok s
  else do
    let s ← s.dropCandidate
    let c := s.cursor
    return { s with candidate := some {
      number := s.taken + s.queue.length, index := c.index, line := c.line, column := c.column,
      isRequired := !s.inFlow && s.indent = c.column } }

/-! ## Columns -/

/-- Start a block collection at a column, if it is right of the current one.  Its token comes before
the token of a number, or behind all. -/
def openBlock (s : Stream) (column : Nat) (number : Option Nat) (kind : TokenKind) (line : Nat) :
    Except Fault Stream :=
  if s.inFlow || column ≤ s.indent then .ok s
  else
    let indents := s.indent :: s.indents
    if depthLimit < indents.length then .error (s.fault .tooDeep line)
    else
      let s := { s with indent := column, indents }
      match number with
      | some number => .ok (s.pushBefore number kind line)
      | none => .ok (s.push kind line)

/-- The columns that are left when all right of `column` have ended. -/
def closedColumns (column indent : Int) : List Int → Int × List Int
  | [] => (indent, [])
  | next :: rest => if column < indent then closedColumns column next rest else (indent, next :: rest)

/-- End the block collections right of a column. -/
def closeBlocks (s : Stream) (column : Int) (line : Nat) : Stream :=
  if s.inFlow then s
  else
    let (indent, indents) := closedColumns column s.indent s.indents
    let ends := List.replicate (s.indents.length - indents.length) (⟨.blockEnd, line⟩ : Token)
    { s with indent, indents, queue := s.queue ++ ends }

/-! ## Gaps -/

/-- Pass over blanks, line ends and comments.  Where a key may start, a tab ends the gap; a line end
outside brackets lets a key start. -/
def skipGap (fuel : Nat) (s : Stream) : Except Fault Stream :=
  match fuel with
  | 0 => .ok s
  | fuel + 1 => do
    let c := (← s.cursor.need 1).skipMark
    let tabs := s.inFlow || !s.allowsKey
    let (_, c) ← c.pass (fun char => char == ' ' || (char == '\t' && tabs))
    let c ← if c.at? '#' then c.skipComments (c.rest.length + 1) else pure c
    if c.rest.isEmpty || !startsBreak c.rest then return { s with cursor := c }
    let (_, c) := (← c.need 2).passBreak
    { s with cursor := c, allowsKey := s.allowsKey || !s.inFlow }.skipGap fuel

/-- Pass over a comment behind the last token on its line. -/
def skipComment (s : Stream) : Except Fault Stream := do
  if s.cursor.breaks ≠ 0 || s.queue.getLast?.any (·.kind = .blockEntry) then return s
  return { s with cursor := ← s.cursor.skipComment }

/-! ## Marks -/

/-- Close everything at the end of a document. -/
def closeDocument (s : Stream) : Except Fault Stream := do
  let s ← (s.closeBlocks (-1) s.cursor.line).dropCandidate
  return { s with allowsKey := false }

/-- Read the end of the text. -/
def fetchEnd (s : Stream) : Except Fault Stream := do
  let c := s.cursor
  let c := if c.column = 0 then c else { c with line := c.line + 1, column := 0 }
  let s ← { s with cursor := c }.closeDocument
  return s.push .streamEnd c.line

/-- Read a directive. -/
def fetchDirective (s : Stream) : Except Fault Stream := do
  let s ← s.closeDocument
  let (directive, next) ← readDirective s.cursor
  return { s with cursor := next }.push (.directive directive) s.cursor.line

/-- Read the mark that opens a pair of brackets. -/
def openFlow (s : Stream) (kind : TokenKind) : Except Fault Stream := do
  let s ← s.noteCandidate
  if depthLimit ≤ s.outer.length then throw (s.fault .tooDeep s.cursor.line)
  return { s with candidate := none, outer := s.candidate :: s.outer, allowsKey := true }.mark 1 kind

/-- Read the mark that closes a pair of brackets. -/
def closeFlow (s : Stream) (kind : TokenKind) : Except Fault Stream := do
  let s ← s.dropCandidate
  let s :=
    match s.outer with
    | [] => s
    | candidate :: outer => { s with candidate, outer }
  return { s with allowsKey := false }.mark 1 kind

/-- Read the `,` between items. -/
def fetchFlowEntry (s : Stream) : Except Fault Stream := do
  let s ← s.dropCandidate
  return { s with allowsKey := true }.mark 1 .flowEntry

/-- Read the `-` before an item. -/
def fetchBlockEntry (s : Stream) : Except Fault Stream := do
  if !s.inFlow && !s.allowsKey then throw (s.fault .sequenceEntry s.cursor.line)
  let s ← s.openBlock s.cursor.column none .blockSequenceStart s.cursor.line
  let s ← s.dropCandidate
  return { s with allowsKey := true }.mark 1 .blockEntry

/-- Read the `?` before a key. -/
def fetchKey (s : Stream) : Except Fault Stream := do
  if !s.inFlow && !s.allowsKey then throw (s.fault .mappingKey s.cursor.line)
  let s ← s.openBlock s.cursor.column none .blockMappingStart s.cursor.line
  let s ← s.dropCandidate
  return { s with allowsKey := !s.inFlow }.mark 1 .key

/-- Read the `:` before a value; it turns the candidate into a key. -/
def fetchValue (s : Stream) : Except Fault Stream := do
  match ← s.liveCandidate with
  | some k =>
    let s := s.pushBefore k.number .key k.line
    let s ← s.openBlock k.column (some k.number) .blockMappingStart k.line
    return { s with candidate := none, allowsKey := false }.mark 1 .value
  | none =>
    if !s.inFlow && !s.allowsKey then throw (s.fault .mappingValue s.cursor.line)
    let s ← s.openBlock s.cursor.column none .blockMappingStart s.cursor.line
    return { s with candidate := none, allowsKey := !s.inFlow }.mark 1 .value

/-! ## Words -/

/-- Read an anchor, an alias or a tag. -/
def fetchProperty (s : Stream) (read : Cursor → Except Fault (TokenKind × Cursor)) :
    Except Fault Stream := do
  let s ← s.noteCandidate
  let (kind, next) ← read s.cursor
  return { s with cursor := next, allowsKey := false }.push kind s.cursor.line

/-- Read a scalar in quotes. -/
def fetchQuoted (s : Stream) : Except Fault Stream :=
  s.fetchProperty fun c => do
    let (text, next) ← readQuoted c
    return (.scalar false text, next)

/-- Read a block scalar. -/
def fetchBlock (s : Stream) : Except Fault Stream := do
  let s ← s.dropCandidate
  let (text, next) ← readBlock s.indent (s.cursor.at? '|') s.cursor
  return { s with cursor := next, allowsKey := true }.push (.scalar false text) s.cursor.line

/-- Read a plain scalar. -/
def fetchPlain (s : Stream) : Except Fault Stream := do
  let s ← s.noteCandidate
  let c := s.cursor
  let part ← readPlain c.rest.length s.inFlow (s.indent + 1) c.line [] c
  return { s with cursor := part.next, allowsKey := part.isFresh }.push (.scalar true part.text) c.line

/-! ## Reading ahead -/

/-- Whether a plain scalar may start with `c` before `rest`. -/
def startsPlain (inFlow : Bool) (c : Char) (rest : List Char) : Bool :=
  if c == '-' then !rest.head?.any isBlank
  else if c == '?' || c == ':' then !inFlow && !startsGap rest
  else !(isGap c || isFlowMark c || c == singleQuote || c == Char.ofNat 96
    || ['#', '&', '*', '!', '|', '>', '"', '%', '@'].contains c)

/-- Read the token that starts with `c`. -/
def fetchToken (s : Stream) (c : Char) (rest : List Char) : Except Fault Stream :=
  let isMark := s.inFlow || startsGap rest
  if c == '[' then s.openFlow .flowSequenceStart
  else if c == '\x7b' then s.openFlow .flowMappingStart
  else if c == ']' then s.closeFlow .flowSequenceEnd
  else if c == '\x7d' then s.closeFlow .flowMappingEnd
  else if c == ',' then s.fetchFlowEntry
  else if c == '-' && startsGap rest then s.fetchBlockEntry
  else if c == '?' && isMark then s.fetchKey
  else if c == ':' && isMark then s.fetchValue
  else if c == '*' then
    s.fetchProperty fun c => return ((← readName c).map .reference id)
  else if c == '&' then
    s.fetchProperty fun c => return ((← readName c).map .anchor id)
  else if c == '!' then
    s.fetchProperty fun c => return ((← readTag c).map .tag id)
  else if (c == '|' || c == '>') && !s.inFlow then s.fetchBlock
  else if c == singleQuote || c == '"' then s.fetchQuoted
  else if startsPlain s.inFlow c rest then s.fetchPlain
  else .error (s.fault .startless s.cursor.line)

/-- Read one more token. -/
def fetch (s : Stream) : Except Fault Stream := do
  let line := s.cursor.line
  let s ← s.skipGap (s.cursor.rest.length + 1)
  let c ← s.cursor.need 4
  let s := { s with cursor := c }.closeBlocks c.column line
  match c.rest with
  | [] => s.fetchEnd
  | char :: rest =>
    if c.column = 0 && char == '%' then s.fetchDirective
    else if c.column = 0 && startsMarker '-' c.rest then
      return (← s.closeDocument).mark 3 .documentStart
    else if c.column = 0 && startsMarker '.' c.rest then
      return (← s.closeDocument).mark 3 .documentEnd
    else (← s.fetchToken char rest).skipComment

/-- Read ahead until the next token is settled. -/
def settle (fuel : Nat) (s : Stream) : Except Fault Stream :=
  match fuel with
  | 0 => .ok s
  | fuel + 1 =>
    if s.queue.length < 3 then do (← s.fetch).settle fuel
    else
      let isFirst (k : KeyCandidate) := k.number = s.taken
      match (s.candidate :: s.outer).find? (·.any isFirst) with
      | some (some k) =>
        if !s.isStale k then do (← s.fetch).settle fuel
        else if k.isRequired then .error (s.fault .keyWithoutColon k.line)
        else .ok s
      | _ => .ok s

/-- The next token. -/
def peek (s : Stream) : Except Fault (Token × Stream) := do
  let s ← s.settle (s.cursor.rest.length + 4)
  return (s.queue.headD ⟨.streamEnd, s.cursor.line⟩, s)

/-- Pass over the next token. -/
def advance (s : Stream) : Stream :=
  { s with queue := s.queue.drop 1, taken := s.taken + 1 }

end Stream

end LetPrint.Yaml

import LetPrint.Yaml
import LetPrint.Yaml.Token.Stream

/-!
# Reading documents

`parse` reads the first document of a text.  What follows its node is not part of it, and is looked at
only as far as the tokens are read ahead.

The readers follow the order of the tokens.  An empty scalar stands where a node may be missing: behind
a `-`, as a key, and as a value.
-/

namespace LetPrint.Yaml

open Text

/-- A node that aliases may stand for.  A collection that is not complete stands empty. -/
structure Anchor where
  name : List Char
  number : Nat
  node : Node
  isComplete : Bool
  deriving Repr

/-- The state of the reading of a document. -/
structure Source where
  stream : Stream
  /-- The handles of tags, and what they stand for. -/
  handles : List (List Char × List Char) := []
  /-- The anchors, the last one first. -/
  anchors : List Anchor := []
  deriving Repr

/-- A step of the reading of a document. -/
abbrev Reading := StateT Source (Except Fault)

namespace Reading

/-- The next token. -/
def peek : Reading Token := do
  let source ← get
  let (token, stream) ← source.stream.peek
  set { source with stream }
  return token

/-- Pass over the next token. -/
def advance : Reading Unit :=
  modify fun source => { source with stream := source.stream.advance }

/-- Pass over the next token, and give the one behind it. -/
def next : Reading Token := do
  advance
  peek

/-- Report the problem of the text that has been noted, if there is one.  This ends every step of the
reading. -/
def settle : Reading Unit := do
  let c := (← get).stream.cursor
  if c.isSpoiled then
    if let some problem := c.problem then throw { problem }

/-! ## Properties -/

/-- What stands before the content of a node. -/
structure Properties where
  line : Nat
  anchor : Option (List Char) := none
  /-- The tag that is written, and its line. -/
  tag : Option (TagText × Nat) := none
  deriving Repr

/-- Read an anchor and a tag in any order; each may be missing. -/
def properties : Reading Properties := do
  let first ← peek
  match first.kind with
  | .anchor name =>
    let second ← next
    match second.kind with
    | .tag text =>
      advance
      return ⟨first.line, some name, some (text, second.line)⟩
    | _ => return ⟨first.line, some name, none⟩
  | .tag text =>
    let second ← next
    match second.kind with
    | .anchor name =>
      advance
      return ⟨first.line, some name, some (text, first.line)⟩
    | _ => return ⟨first.line, none, some (text, first.line)⟩
  | _ => return ⟨first.line, none, none⟩

/-- The name of a tag that is written, in full; without one, or with `!` alone, it is empty. -/
def tagName (p : Properties) : Reading (List Char) := do
  match p.tag with
  | none => return []
  | some (⟨[], suffix⟩, _) => return if suffix = ['!'] then [] else suffix
  | some (⟨handle, suffix⟩, line) =>
    match ((← get).handles.lookup handle).map (· ++ suffix) with
    | none | some [] => throw ⟨.unknownHandle, p.line, line⟩
    | some name => return if name = ['!'] then [] else name

/-- The tag of a name, or `usual` if the name is empty. -/
def tagOf (name : List Char) (usual : Tag) : Tag :=
  if name.isEmpty then usual else .ofName (encodeChars name)

/-- Note the anchor of a node, and give its number. -/
def noteAnchor (p : Properties) (node : Node) (isComplete : Bool) : Reading Nat := do
  let source ← get
  let number := source.anchors.length
  if let some name := p.anchor then
    set { source with anchors := ⟨name, number, node, isComplete⟩ :: source.anchors }
  return number

/-- Complete the node of an anchor's number. -/
def completeAnchor (p : Properties) (number : Nat) (node : Node) : Reading Unit :=
  if p.anchor.isNone then return
  else
    modify fun source =>
      { source with anchors := source.anchors.map fun a =>
          if a.number = number then { a with node, isComplete := true } else a }

/-- A scalar with its properties. -/
def scalar (p : Properties) (name : List Char) (isPlain : Bool) (text : List Char) : Reading Node := do
  settle
  let text := encodeChars text
  let node := Node.scalar p.line (tagOf name (if isPlain then plainTag text else .str)) text
  let _ ← noteAnchor p node true
  return node

/-- An empty scalar without properties. -/
def missing (line : Nat) : Reading Node := do
  settle
  return .scalar line .null []

/-- A sequence or a mapping whose content is read by `content`. -/
def collection {α : Type} (p : Properties) (tag : Tag) (make : Nat → Tag → List α → Node)
    (content : Reading (List α)) : Reading Node := do
  settle
  let number ← noteAnchor p (make p.line tag []) false
  let node := make p.line tag (← content)
  settle
  completeAnchor p number node
  return node

/-! ## Nodes -/

mutual

/-- Read a node.  `inBlock` says that a block collection may stand here, and `isLevel` that a sequence
may stand at the column of the keys around it. -/
def node (fuel : Nat) (inBlock isLevel : Bool) : Reading Node :=
  match fuel with
  | 0 => throw { problem := .noNode }
  | fuel + 1 => do
    let first ← peek
    if let .reference name := first.kind then
      settle
      match (← get).anchors.find? (·.name = name) with
      | none => throw { problem := .unknownAnchor (encodeChars name) }
      | some anchor =>
        advance
        return .reference first.line (encodeChars name) (!anchor.isComplete) anchor.node
    let p ← properties
    let token ← peek
    let name ← tagName p
    let sequence := collection p (tagOf name .seq) Node.sequence
    let mapping := collection p (tagOf name .map) Node.mapping
    match token.kind with
    | .scalar isPlain text =>
      advance
      scalar p name isPlain text
    | .flowSequenceStart =>
      advance
      sequence (flowItems fuel token.line true)
    | .flowMappingStart =>
      advance
      mapping (flowEntries fuel token.line true)
    | kind =>
      if isLevel && kind = .blockEntry then sequence (levelItems fuel)
      else if inBlock && kind = .blockSequenceStart then
        advance
        sequence (blockItems fuel token.line)
      else if inBlock && kind = .blockMappingStart then
        advance
        mapping (blockEntries fuel token.line)
      else if p.anchor.isSome || p.tag.isSome then scalar p name true []
      else throw ⟨.noNode, p.line, token.line⟩

/-- Read the items of a block sequence that starts on `line`. -/
def blockItems (fuel : Nat) (line : Nat) : Reading (List Node) :=
  match fuel with
  | 0 => return []
  | fuel + 1 => do
    let token ← peek
    match token.kind with
    | .blockEntry =>
      let item ←
        if (← next).kind ∈ [.blockEntry, .blockEnd] then missing token.line
        else node fuel true false
      return item :: (← blockItems fuel line)
    | .blockEnd =>
      advance
      return []
    | _ => throw ⟨.expectedDash, line, token.line⟩

/-- Read the items of a sequence at the column of the keys around it; a key ends it. -/
def levelItems (fuel : Nat) : Reading (List Node) :=
  match fuel with
  | 0 => return []
  | fuel + 1 => do
    let token ← peek
    if token.kind ≠ .blockEntry then return []
    let item ←
      if (← next).kind ∈ [.blockEntry, .key, .value, .blockEnd] then missing token.line
      else node fuel true false
    return item :: (← levelItems fuel)

/-- Read a key or a value of a block mapping; it may be missing. -/
def blockPart (fuel : Nat) (line : Nat) : Reading Node :=
  match fuel with
  | 0 => missing line
  | fuel + 1 => do
    if (← next).kind ∈ [.key, .value, .blockEnd] then missing line
    else node fuel true true

/-- Read the entries of a block mapping that starts on `line`. -/
def blockEntries (fuel : Nat) (line : Nat) : Reading (List (Node × Node)) :=
  match fuel with
  | 0 => return []
  | fuel + 1 => do
    let token ← peek
    match token.kind with
    | .key =>
      let key ← blockPart fuel token.line
      let colon ← peek
      let value ←
        if colon.kind = .value then blockPart fuel colon.line else missing colon.line
      return (key, value) :: (← blockEntries fuel line)
    | .blockEnd =>
      advance
      return []
    | _ => throw ⟨.expectedKey, line, token.line⟩

/-- Read the items of a sequence in brackets that starts on `line`, from the first or behind one. -/
def flowItems (fuel : Nat) (line : Nat) (isFirst : Bool) : Reading (List Node) :=
  match fuel with
  | 0 => return []
  | fuel + 1 => do
    let token ← peek
    if token.kind = .flowSequenceEnd then
      advance
      return []
    if !isFirst && token.kind ≠ .flowEntry then throw ⟨.unclosedSequence, line, token.line⟩
    let token ← if isFirst then pure token else next
    match token.kind with
    | .flowSequenceEnd =>
      advance
      return []
    | .key =>
      settle
      let entry ← singleEntry fuel
      return .mapping token.line .map [entry] :: (← flowItems fuel line false)
    | _ =>
      let item ← node fuel false false
      return item :: (← flowItems fuel line false)

/-- Read an entry that stands as an item of a sequence in brackets.  The mark that stands in place of a
missing key belongs to it. -/
def singleEntry (fuel : Nat) : Reading (Node × Node) :=
  match fuel with
  | 0 => return (← missing 1, ← missing 1)
  | fuel + 1 => do
    let token ← next
    let key ←
      if token.kind ∈ [.value, .flowEntry, .flowSequenceEnd] then do
        advance
        missing token.line
      else node fuel false false
    let colon ← peek
    if colon.kind = .value then
      let token ← next
      if token.kind ∈ [.flowEntry, .flowSequenceEnd] then return (key, ← missing token.line)
      else return (key, ← node fuel false false)
    else return (key, ← missing colon.line)

/-- Read the entries of a mapping in brackets that starts on `line`, from the first or behind one. -/
def flowEntries (fuel : Nat) (line : Nat) (isFirst : Bool) : Reading (List (Node × Node)) :=
  match fuel with
  | 0 => return []
  | fuel + 1 => do
    let token ← peek
    if token.kind = .flowMappingEnd then
      advance
      return []
    if !isFirst && token.kind ≠ .flowEntry then throw ⟨.unclosedMapping, line, token.line⟩
    let token ← if isFirst then pure token else next
    match token.kind with
    | .flowMappingEnd =>
      advance
      return []
    | .key =>
      let token ← next
      let key ←
        if token.kind ∈ [.value, .flowEntry, .flowMappingEnd] then missing token.line
        else node fuel false false
      let colon ← peek
      let value ←
        if colon.kind = .value then do
          let token ← next
          if token.kind ∈ [.flowEntry, .flowMappingEnd] then missing token.line
          else node fuel false false
        else missing colon.line
      return (key, value) :: (← flowEntries fuel line false)
    | _ =>
      let key ← node fuel false false
      let behind ← peek
      return (key, ← missing behind.line) :: (← flowEntries fuel line false)

end

/-! ## Documents -/

/-- The handles that every document has. -/
def usualHandles : List (List Char × List Char) :=
  [("!".toList, "!".toList), ("!!".toList, "tag:yaml.org,2002:".toList)]

/-- Read the directives before a document, and give the handles that they define. -/
def directives (fuel : Nat) (hasVersion : Bool) (handles : List (List Char × List Char)) :
    Reading (List (List Char × List Char)) :=
  match fuel with
  | 0 => return handles
  | fuel + 1 => do
    let token ← peek
    let fault (problem : Problem) : Fault := { problem, place := token.line }
    match token.kind with
    | .directive (.version major minor) =>
      if hasVersion then throw (fault .repeatedVersion)
      if major ≠ 1 || minor ≠ 1 then throw (fault .otherVersion)
      advance
      directives fuel true handles
    | .directive (.tag handle lead) =>
      if (handles.lookup handle).isSome then throw (fault .repeatedHandle)
      advance
      directives fuel hasVersion (handles ++ [(handle, lead)])
    | _ => return handles

/-- Read a document; there is none in a text of blanks and comments. -/
def document (fuel : Nat) : Reading (Option Node) := do
  let _ ← peek
  settle
  let first ← next
  let root ←
    match first.kind with
    | .streamEnd =>
      settle
      return none
    | .directive _ | .documentStart =>
      let handles ← directives fuel false []
      modify fun source => { source with handles := handles ++ usualHandles }
      let start ← peek
      if start.kind ≠ .documentStart then
        throw { problem := .expectedDocument, place := start.line }
      settle
      let token ← next
      match token.kind with
      | .directive _ | .documentStart | .documentEnd | .streamEnd => missing token.line
      | _ => node fuel true false
    | _ =>
      settle
      modify fun source => { source with handles := usualHandles }
      node fuel true false
  let _ ← peek
  settle
  return some root

end Reading

/-- The first document of a text. -/
def parse (text : Bytes) : Except Fault (Option Node) :=
  let cursor := Cursor.ofCharacters (.ofBytes text)
  (Reading.document (8 * text.length + 16)).run { stream := { cursor } } |>.map (·.1)

end LetPrint.Yaml

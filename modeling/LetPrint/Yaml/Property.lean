import LetPrint.Text.Utf8
import LetPrint.Yaml.Cursor
import LetPrint.Yaml.Resolution

/-!
# Anchors, aliases, tags and directives

The readers of the parts of a document that are no content: the name of an anchor or an alias, a tag
before a node, and the directives before a document.
-/

namespace LetPrint.Yaml

open Text

/-! ## Anchors and aliases -/

/-- Read the name of an anchor or an alias, whose mark stands here. -/
def readName (c : Cursor) : Except Fault (List Char × Cursor) := do
  let (name, next) ← c.step.pass isNameChar
  let ends := startsGap next.rest
    || next.rest.head?.any ['?', ':', ',', ']', '\x7d', '%', '@', Char.ofNat 96].contains
  if name.isEmpty || !ends then throw ⟨.expectedName, c.line, next.line⟩
  return (name, next)

/-! ## Tags -/

/-- A tag as it is written: a handle that stands for the first part of its name, and the rest. -/
structure TagText where
  handle : List Char
  suffix : List Char
  deriving DecidableEq, Repr, Inhabited

/-- A character of a tag's name. -/
def isUriChar (c : Char) : Bool :=
  isNameChar c || c == singleQuote || ";/?:@&=+$,.!~*()[]%".toList.contains c

/-- The name that a run of characters spells, in which `%` stands before two hexadecimal digits. -/
def uriText? : List Char → Option (List Char)
  | [] => some []
  | '%' :: a :: b :: rest => do
    let high ← digitValue? (byte a)
    let low ← digitValue? (byte b)
    guard (high < 8)
    return Char.ofNat (16 * high + low) :: (← uriText? rest)
  | c :: rest => if c == '%' then none else (uriText? rest).map (c :: ·)

/-- Read the rest of a tag's name behind `lead`. -/
def readUri (line : Nat) (lead : List Char) (c : Cursor) : Except Fault (List Char × Cursor) := do
  let (word, next) ← c.pass isUriChar
  let some text := uriText? word | throw ⟨.uriEscape, line, c.line⟩
  if lead.isEmpty && word.isEmpty then throw ⟨.tagUri, line, c.line⟩
  return (lead.drop 1 ++ text, next)

/-- Read a handle: `!`, or a name between two of them. -/
def readHandle (line : Nat) (c : Cursor) : Except Fault (List Char × Cursor) := do
  let c ← c.need 1
  if !c.at? '!' then throw ⟨.tagBang, line, c.line⟩
  let (name, next) ← c.step.pass isNameChar
  if !next.at? '!' then return ('!' :: name, next)
  return ('!' :: name ++ ['!'], ← next.step.need 1)

/-- Whether a handle ends with `!`. -/
def isClosedHandle (handle : List Char) : Bool :=
  1 < handle.length && handle.getLast? == some '!'

/-- Read a tag whose first `!` stands here. -/
def readTag (c : Cursor) : Except Fault (TagText × Cursor) := do
  let (tag, next) ←
    if c.step.at? '<' then do
      let (suffix, next) ← readUri c.line [] (c.skip 2)
      if !next.at? '>' then throw ⟨.tagClose, c.line, next.line⟩
      pure ((⟨[], suffix⟩ : TagText), ← next.step.need 1)
    else do
      let (handle, next) ← readHandle c.line c
      if isClosedHandle handle then
        let (suffix, next) ← readUri c.line [] next
        pure (⟨handle, suffix⟩, next)
      else
        let (suffix, next) ← readUri c.line handle next
        pure (if suffix.isEmpty then ⟨[], ['!']⟩ else ⟨['!'], suffix⟩, next)
  if !startsGap next.rest then throw ⟨.tagEnd, c.line, next.line⟩
  return (tag, next)

/-! ## Directives -/

/-- A line before a document that says how to read it. -/
inductive Directive where
  | version (major minor : Nat)
  /-- A handle and the first part of the names it stands for. -/
  | tag (handle lead : List Char)
  deriving DecidableEq, Repr, Inhabited

/-- Read one of the two numbers of a version. -/
def readVersionNumber (line : Nat) (c : Cursor) : Except Fault (Nat × Cursor) := do
  let (digits, next) ← c.pass (·.isDigit)
  if digits.isEmpty then throw ⟨.versionNumber, line, c.line⟩
  if 2 < digits.length then throw ⟨.longVersionNumber, line, c.line⟩
  return (decimalValue (encodeChars digits), next)

/-- Read what follows the name of a directive. -/
def readDirectiveValue (line : Nat) (name : List Char) (c : Cursor) :
    Except Fault (Directive × Cursor) := do
  if name = "YAML".toList then
    let (_, c) ← c.pass isBlank
    let (major, next) ← readVersionNumber line c
    if !next.at? '.' then throw ⟨.versionPoint, line, next.line⟩
    let (minor, next) ← readVersionNumber line next.step
    return (.version major minor, next)
  else if name = "TAG".toList then
    let (_, c) ← c.pass isBlank
    let (handle, next) ← readHandle line c
    if handle ≠ ['!'] && !isClosedHandle handle then throw ⟨.tagBang, line, next.line⟩
    if !next.rest.head?.any isBlank then throw ⟨.tagBlank, line, next.line⟩
    let (_, next) ← next.pass isBlank
    let (lead, next) ← readUri line [] next
    if !startsGap next.rest then throw ⟨.tagEnd, line, next.line⟩
    return (.tag handle lead, next)
  else throw ⟨.unknownDirective, line, c.line⟩

/-- Read a directive whose `%` stands here, up to the end of its line. -/
def readDirective (c : Cursor) : Except Fault (Directive × Cursor) := do
  let (name, next) ← c.step.pass isNameChar
  if name.isEmpty then throw ⟨.directiveName, c.line, next.line⟩
  if !startsGap next.rest then throw ⟨.directiveNameEnd, c.line, next.line⟩
  let (directive, next) ← readDirectiveValue c.line name next
  let (_, next) ← next.pass isBlank
  let (_, next) ← if next.at? '#' then next.pass (!isBreak ·) else pure ([], next)
  if !startsBreak next.rest then throw ⟨.expectedLineEnd, c.line, next.line⟩
  return (directive, (← next.need 2).passBreak.2)

end LetPrint.Yaml

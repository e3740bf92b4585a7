import LetPrint.Yaml.Property

/-!
# Tokens of YAML texts

A token is a mark of the text, a scalar, or the start or end of a block collection, which the columns
of the text tell.
-/

namespace LetPrint.Yaml

/-- What a token stands for. -/
inductive TokenKind where
  | streamStart
  | streamEnd
  | directive (directive : Directive)
  /-- `---` -/
  | documentStart
  /-- `...` -/
  | documentEnd
  | blockSequenceStart
  | blockMappingStart
  | blockEnd
  | flowSequenceStart
  | flowSequenceEnd
  | flowMappingStart
  | flowMappingEnd
  /-- The `-` before an item. -/
  | blockEntry
  /-- The `,` between items. -/
  | flowEntry
  /-- The start of a key, with or without `?`. -/
  | key
  /-- The `:` before a value. -/
  | value
  | anchor (name : List Char)
  | reference (name : List Char)
  | tag (text : TagText)
  | scalar (isPlain : Bool) (text : List Char)
  deriving DecidableEq, Repr, Inhabited

/-- A token and the line it stands on. -/
structure Token where
  kind : TokenKind
  line : Nat
  deriving DecidableEq, Repr, Inhabited

end LetPrint.Yaml

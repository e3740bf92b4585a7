import LetPrint.Text.Bytes

/-!
# Tags

The kinds of YAML nodes.  A document may name a tag, and every tag has a short form, in which the
namespace that all documents share is written `!!`.
-/

namespace LetPrint.Yaml

/-- The kind of a node. -/
inductive Tag where
  | null
  | bool
  | int
  | float
  | timestamp
  | str
  /-- Bytes in base 64. -/
  | binary
  | seq
  | map
  /-- The key of entries that are taken from other mappings. -/
  | merge
  /-- Any other tag, by its short form. -/
  | other (name : Bytes)
  deriving DecidableEq, Repr, Inhabited

namespace Tag

/-- The short form of a tag. -/
def name : Tag → Bytes
  | null => utf8 "!!null"
  | bool => utf8 "!!bool"
  | int => utf8 "!!int"
  | float => utf8 "!!float"
  | timestamp => utf8 "!!timestamp"
  | str => utf8 "!!str"
  | binary => utf8 "!!binary"
  | seq => utf8 "!!seq"
  | map => utf8 "!!map"
  | merge => utf8 "!!merge"
  | other name => name

/-- The namespace that all documents share. -/
def sharedSpace : Bytes := utf8 "tag:yaml.org,2002:"

/-- The tag of a full name. -/
def ofName (name : Bytes) : Tag :=
  let short :=
    match sharedSpace.isPrefixOf? name with
    | some rest => utf8 "!!" ++ rest
    | none => name
  let known := [null, bool, int, float, timestamp, str, binary, seq, map, merge]
  (known.find? (·.name == short)).getD (other short)

end Tag

end LetPrint.Yaml

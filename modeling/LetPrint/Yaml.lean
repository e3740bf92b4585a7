import LetPrint.Yaml.Resolution

/-!
# YAML documents

The tree of a YAML document, each node with the line it starts on and its tag.
-/

namespace LetPrint.Yaml

/-- A node of a document and the line it starts on. -/
inductive Node where
  | scalar (line : Nat) (tag : Tag) (text : Bytes)
  | sequence (line : Nat) (tag : Tag) (items : List Node)
  | mapping (line : Nat) (tag : Tag) (entries : List (Node × Node))
  /-- A node that stands for another one by the name of its anchor.  Inside the other one, `isInside`,
  the target is empty. -/
  | reference (line : Nat) (name : Bytes) (isInside : Bool) (target : Node)
  deriving Repr, Inhabited

namespace Node

/-- The line that a node starts on. -/
def line : Node → Nat
  | scalar line _ _ => line
  | sequence line _ _ => line
  | mapping line _ _ => line
  | reference line _ _ _ => line

/-- The tag of a node. -/
def tag : Node → Tag
  | scalar _ tag _ => tag
  | sequence _ tag _ => tag
  | mapping _ tag _ => tag
  | reference _ _ _ target => target.tag

/-- The text that a node is written with; a collection has none. -/
def text : Node → Bytes
  | scalar _ _ text => text
  | sequence _ _ _ => []
  | mapping _ _ _ => []
  | reference _ name _ _ => name

/-- Whether two nodes are of one form. -/
def sameShape : Node → Node → Bool
  | scalar _ _ _, scalar _ _ _ => true
  | sequence _ _ _, sequence _ _ _ => true
  | mapping _ _ _, mapping _ _ _ => true
  | reference _ _ _ _, reference _ _ _ _ => true
  | _, _ => false

/-- Whether a node is the key of entries that are taken from other mappings. -/
def isMerge : Node → Bool
  | scalar _ tag text => tag = .merge && text == utf8 "<<"
  | _ => false

/-- Whether a node stands for a string. -/
def isString : Node → Bool
  | scalar _ tag _ => tag ∉ [.null, .bool, .int, .float, .timestamp]
  | sequence _ _ _ => false
  | mapping _ _ _ => false
  | reference _ _ _ target => target.isString

end Node

end LetPrint.Yaml

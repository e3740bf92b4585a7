import LetPrint.Linker
import LetPrint.Target
import LetPrint.Yaml.Document

/-!
# Toolchain profiles

A profile names the target triple and the tools; what it leaves empty has the host's value.  It is
read from a YAML mapping.  All problems of the mapping are reported together; a key that occurs twice
is reported alone.
-/

namespace LetPrint

open Text

/-- The target and the tools that are asked for; an empty field stands for the usual value. -/
structure Profile where
  triple : Bytes := []
  llc : Bytes := []
  cc : Bytes := []
  ld : Bytes := []
  link : Bytes := []
  deriving DecidableEq, Repr, Inhabited

namespace Profile

/-- The triple of the profile, or that of the host. -/
def target (p : Profile) : Bytes :=
  orDefault p.triple Target.host

/-- The linking tools of the profile. -/
def tools (p : Profile) : LinkTools :=
  { cc := p.cc, ld := p.ld, link := p.link }

/-! ## From a document -/

/-- Something in a document that a profile has no place for. -/
inductive Problem where
  | repeatedKey (line : Nat) (key : Bytes) (first : Nat)
  | unknownField (line : Nat) (name : Bytes)
  /-- A field that two different keys name. -/
  | repeatedField (line : Nat) (name : Bytes)
  /-- A node that cannot stand for a `target`. -/
  | mismatch (node : Yaml.Node) (target : Bytes)
  deriving Repr

/-- The text of a node in quotes, cut if it is long; only the tags of collections stand without. -/
def shownValue (node : Yaml.Node) : Bytes :=
  let text := node.text
  if node.tag = .seq || node.tag = .map then text
  else utf8 " `" ++ (if 10 < text.length then text.take 7 ++ utf8 "..." else text) ++ utf8 "`"

/-- The wording of a problem. -/
def Problem.message : Problem → Bytes
  | repeatedKey line key first =>
    utf8 "line " ++ decimal line ++ utf8 ": mapping key " ++ quote key
      ++ utf8 " already defined at line " ++ decimal first
  | unknownField line name =>
    utf8 "line " ++ decimal line ++ utf8 ": field " ++ name
      ++ utf8 " not found in type config.Toolchain"
  | repeatedField line name =>
    utf8 "line " ++ decimal line ++ utf8 ": field " ++ name
      ++ utf8 " already set in type config.Toolchain"
  | mismatch node target =>
    utf8 "line " ++ decimal node.line ++ utf8 ": cannot unmarshal " ++ node.tag.name
      ++ shownValue node ++ utf8 " into " ++ target

/-- The keys that repeat an earlier one, each with every earlier one it repeats. -/
def repeatedKeys : List Yaml.Node → List Problem
  | [] => []
  | key :: rest =>
    (rest.filter fun k => key.sameShape k && key.text == k.text).map
        (fun k => .repeatedKey k.line k.text key.line)
      ++ repeatedKeys rest

/-- Set the field of a name. -/
def setField? (p : Profile) (name value : Bytes) : Option Profile :=
  if name == utf8 "triple" then some { p with triple := value }
  else if name == utf8 "llc" then some { p with llc := value }
  else if name == utf8 "cc" then some { p with cc := value }
  else if name == utf8 "ld" then some { p with ld := value }
  else if name == utf8 "link" then some { p with link := value }
  else none

/-- What has been read of a document. -/
structure Draft where
  profile : Profile := {}
  problems : List Problem := []
  /-- While mappings are merged, the names of the fields that are already given. -/
  given : Option (List Bytes) := none
  /-- The number of nodes that have been read, the document and every repetition included. -/
  visits : Nat := 1
  /-- The number of them that stand behind an alias. -/
  aliased : Nat := 0
  deriving Repr, Inhabited

namespace Draft

/-- Add problems. -/
def report (d : Draft) (problems : List Problem) : Draft :=
  { d with problems := d.problems ++ problems }

/-! ### Aliases

Aliases of aliases make a short document stand for a long one, so only a part of what is read may stand
behind aliases.  The part is 99 % up to 400 000 nodes, and then falls evenly to 10 % at 4 000 000. -/

/-- The part of the nodes that may stand behind aliases, in units of 1 / 360 000 000. -/
def aliasPart (visits : Nat) : Nat :=
  356400000 - 89 * (min visits 4000000 - 400000)

/-- Whether too many of the nodes stand behind aliases; a few may always. -/
def isSwollen (d : Draft) : Bool :=
  100 < d.aliased && 1000 < d.visits && d.visits * aliasPart d.visits < 360000000 * d.aliased

/-- Count a node that is read. -/
def visit (d : Draft) (isAliased : Bool) : Except Yaml.Fault Draft :=
  let d := { d with visits := d.visits + 1, aliased := d.aliased + isAliased.toNat }
  if d.isSwollen then .error { problem := .tooManyAliases } else .ok d

/-! ### Fields -/

/-- Read the text that a node stands for; there is none if it is null or not a scalar. -/
def readText (isAliased : Bool) (node : Yaml.Node) (d : Draft) :
    Except Yaml.Fault (Option Bytes × Draft) := do
  let d ← d.visit isAliased
  let mismatch := Problem.mismatch node (utf8 "string")
  match node with
  | .scalar _ tag text =>
    match Yaml.scalarText tag text with
    | .error problem => throw { problem }
    | .ok text => return (text, d)
  | .sequence _ _ _ => return (none, d.report [mismatch])
  | .mapping _ _ entries =>
    match repeatedKeys (entries.map (·.1)) with
    | [] => return (none, d.report [mismatch])
    | problems => return (none, d.report problems)
  | .reference _ _ _ target => d.readText true target

/-- Read the value of a field. -/
def readField (isAliased : Bool) (name : Bytes) (value : Yaml.Node) (d : Draft) :
    Except Yaml.Fault Draft := do
  match ← d.readText isAliased value with
  | (none, d) => return d
  | (some text, d) => return { d with profile := (d.profile.setField? name text).getD d.profile }

/-- Read the entries of a mapping in order, without those that are merged.  `done` are the names of
the fields that this mapping has set.  A field that is already given is passed over. -/
def readEntries (isAliased : Bool) (done : List Bytes) (d : Draft) :
    List (Yaml.Node × Yaml.Node) → Except Yaml.Fault Draft
  | [] => .ok d
  | (key, value) :: rest => do
    if key.isMerge then d.readEntries isAliased done rest
    else
      match ← d.readText isAliased key with
      | (none, d) => d.readEntries isAliased done rest
      | (some name, d) =>
        if d.given.any (·.contains name) then d.readEntries isAliased done rest
        else
          let d := { d with given := d.given.map (name :: ·) }
          if (d.profile.setField? name []).isNone then
            (d.report [.unknownField key.line name]).readEntries isAliased done rest
          else if done.contains name then
            (d.report [.repeatedField key.line name]).readEntries isAliased done rest
          else (← d.readField isAliased name value).readEntries isAliased (name :: done) rest

/-! ### Merging -/

/-- Read the keys of a mapping again, for the names that are given before anything is merged into it.
Only strings are names. -/
def readNames (isAliased : Bool) (d : Draft) : List Yaml.Node → Except Yaml.Fault (List Bytes × Draft)
  | [] => .ok ([], d)
  | key :: rest => do
    let (name, d) ← d.readText isAliased key
    let (names, d) ← d.readNames isAliased rest
    return (if key.isString then name.toList ++ names else names, d)

mutual

/-- Read a mapping, and then what is merged into it; its own entries come first. -/
def readMapping (fuel : Nat) (isAliased : Bool) (entries : List (Yaml.Node × Yaml.Node)) (d : Draft) :
    Except Yaml.Fault Draft :=
  match fuel with
  | 0 => .ok d
  | fuel + 1 => do
    match repeatedKeys (entries.map (·.1)) with
    | [] =>
      let d ← d.readEntries isAliased [] entries
      match entries.find? (·.1.isMerge) with
      | none => return d
      | some (_, merged) =>
        if d.given.isSome then readMerged fuel isAliased merged d
        else
          let (names, d) ← d.readNames isAliased (entries.map (·.1))
          return { ← readMerged fuel isAliased merged { d with given := some names } with given := none }
    | problems => return d.report problems

/-- Read a mapping that is merged, or the mappings of a sequence in order. -/
def readMerged (fuel : Nat) (isAliased : Bool) (node : Yaml.Node) (d : Draft) :
    Except Yaml.Fault Draft :=
  match fuel with
  | 0 => .ok d
  | fuel + 1 =>
    let readOne (d : Draft) (node : Yaml.Node) : Except Yaml.Fault Draft := do
      match node with
      | .mapping _ _ entries => readMapping fuel isAliased entries (← d.visit isAliased)
      | .reference _ name isInside (.mapping _ _ entries) =>
        let d ← d.visit isAliased
        if isInside then throw { problem := .mergeIntoItself name }
        else readMapping fuel true entries (← d.visit true)
      | _ => throw { problem := .mergeValue }
    match node with
    | .sequence _ _ items => items.foldlM readOne d
    | node => readOne d node

end

end Draft

/-- The profile of a document, and the document's problems. -/
def ofNode (fuel : Nat) (node : Yaml.Node) : Except Yaml.Fault Draft := do
  let d ← ({} : Draft).visit false
  let mismatch := d.report [.mismatch node (utf8 "config.Toolchain")]
  match node with
  | .mapping _ _ entries => d.readMapping fuel false entries
  | .scalar _ tag text =>
    match Yaml.scalarText tag text with
    | .error problem => throw { problem }
    | .ok none => return d
    | .ok (some _) => return mismatch
  | _ => return mismatch

/-- The wording of a document's problems. -/
def problemsMessage (problems : List Problem) : Bytes :=
  utf8 "yaml: unmarshal errors:\n  " ++ joinWith (utf8 "\n  ") (problems.map Problem.message)

/-! ## From a text -/

/-- The error of a profile that cannot be read. -/
def invalid (name reason : Bytes) : Diagnostic :=
  .because { category := .usage, message := utf8 "invalid toolchain profile " ++ name } (.plain reason)

/-- A triple that is given has at least three parts. -/
def validate (p : Profile) : Except Diagnostic Profile :=
  if !p.triple.isEmpty && p.triple.count (byte '-') < 2 then
    .error (.usage (utf8 "toolchain profile: triple " ++ quote p.triple
      ++ utf8 " is not of the form arch-vendor-os"))
  else .ok p

/-- Read a profile; `name` is what errors call it. -/
def parse (text name : Bytes) : Except Diagnostic Profile :=
  let draft : Except Yaml.Fault Draft := do
    match ← Yaml.parse text with
    | none => return {}
    | some node => ofNode (2 * text.length + 2) node
  match draft with
  | .error fault => .error (invalid name fault.message)
  | .ok draft =>
    if draft.problems.isEmpty then draft.profile.validate
    else .error (invalid name (problemsMessage draft.problems))

/-- Read the profile in a file.  The empty path stands for the empty profile. -/
def load (fs : FileSystem) (path : Bytes) : Except Diagnostic Profile :=
  if path.isEmpty then .ok {}
  else
    match fs.stat path with
    | .error fault =>
      .error (.because
        { category := .usage, message := utf8 "cannot open toolchain profile " ++ path }
        (PathError.diagnostic ⟨utf8 "open", path, fault⟩))
    | .ok .dir =>
      .error (invalid path
        (utf8 "yaml: input error: " ++ (PathError.diagnostic ⟨utf8 "read", path, .isADirectory⟩).text))
    | .ok (.file _ content) => parse content path

end Profile

end LetPrint

import LetPrint.Diagnostic
import LetPrint.Path

/-!
# File systems

A file system is a tree of directories and regular files, with a current directory in it.  Paths are
resolved element by element in the tree, so `a/..` exists only if `a` is a directory.

Access is a superuser's: a file has permission bits, and `setMode` changes them, but no operation here
is refused because of them, and a directory has none.  Only starting a program looks at them.

* `resolve`, `create?`: what a path leads to, for reading and for writing;
* `readFile`, `writeFile`, `setMode`, `makeDirectories`: the operations, each of which fails with the
  operation, the path and the cause.
-/

namespace LetPrint

open Text

/-- What a place holds; a file has permission bits. -/
inductive Node where
  | dir
  | file (mode : Nat) (content : Bytes)
  deriving DecidableEq, Repr, Inhabited

/-- A place in the tree: the names from the root down. -/
abbrev Place := List Bytes

/-- Why the operating system refuses an operation. -/
inductive OsFault where
  | missing
  | notADirectory
  | isADirectory
  | denied
  | badFormat
  /-- A path with a zero byte in it. -/
  | invalidArgument
  | nameTooLong
  deriving DecidableEq, Repr, Inhabited

/-- The operating system's wording of a fault. -/
def OsFault.message : OsFault → Bytes
  | missing => utf8 "no such file or directory"
  | notADirectory => utf8 "not a directory"
  | isADirectory => utf8 "is a directory"
  | denied => utf8 "permission denied"
  | badFormat => utf8 "exec format error"
  | invalidArgument => utf8 "invalid argument"
  | nameTooLong => utf8 "file name too long"

/-- A refused operation on a path. -/
structure PathError where
  operation : Bytes
  path : Bytes
  fault : OsFault
  deriving DecidableEq, Repr

/-- `operation path: fault`. -/
def PathError.diagnostic (e : PathError) : Diagnostic :=
  .plain (e.operation ++ utf8 " " ++ e.path ++ utf8 ": " ++ e.fault.message)

/-- The entries of the tree below its root, and the current directory. -/
structure FileSystem where
  entries : List (Place × Node) := []
  cwd : Place := []
  deriving DecidableEq, Repr, Inhabited

namespace FileSystem

/-- What a place holds; the root is a directory. -/
def node? (fs : FileSystem) (place : Place) : Option Node :=
  if place.isEmpty then some .dir else fs.entries.lookup place

/-- Put something at a place, in the stead of what is there. -/
def put (fs : FileSystem) (place : Place) (node : Node) : FileSystem :=
  if fs.entries.any (·.1 == place) then
    { fs with entries := fs.entries.map fun e => if e.1 == place then (place, node) else e }
  else { fs with entries := fs.entries ++ [(place, node)] }

/-! ## Resolving paths -/

/-- The elements of a path that the tree is searched for: `.` stays, as it asks for a directory, and
a slash at the end counts as one. -/
def elements (path : Bytes) : List Bytes :=
  (splitOn Path.slash path).filter (!·.isEmpty)
    ++ (if path.getLast? == some Path.slash then [Path.here] else [])

/-- Where a path starts. -/
def origin (fs : FileSystem) (path : Bytes) : Place :=
  if path.head? == some Path.slash then [] else fs.cwd

/-- The number of bytes that an element of a path may have. -/
def elementLimit : Nat := 255

/-- The number of bytes that a path may have. -/
def pathLimit : Nat := 4095

/-- What is wrong with a path before any directory is searched. -/
def pathFault? (path : Bytes) : Option OsFault :=
  if path.isEmpty then some .missing
  else if path.contains 0 then some .invalidArgument
  else if pathLimit < path.length then some .nameTooLong
  else none

/-- Follow elements from a place. -/
def follow (fs : FileSystem) : Place → List Bytes → Except OsFault Place
  | place, [] => .ok place
  | place, element :: rest =>
    match fs.node? place with
    | some .dir =>
      if element == Path.here then follow fs place rest
      else if element == Path.parent then follow fs place.dropLast rest
      else if elementLimit < element.length then .error .nameTooLong
      else
        match fs.node? (place ++ [element]) with
        | some _ => follow fs (place ++ [element]) rest
        | none => .error .missing
    | _ => .error .notADirectory

/-- The place of an existing file or directory. -/
def resolve (fs : FileSystem) (path : Bytes) : Except OsFault Place :=
  match pathFault? path with
  | some fault => .error fault
  | none => fs.follow (fs.origin path) (elements path)

/-- What an existing path leads to. -/
def stat (fs : FileSystem) (path : Bytes) : Except OsFault Node := do
  let place ← fs.resolve path
  match fs.node? place with
  | some node => return node
  | none => .error .missing

/-- The place that a path names for writing: a file, or a free name in a directory. -/
def resolveForWriting (fs : FileSystem) (path : Bytes) : Except OsFault Place :=
  match pathFault? path with
  | some fault => .error fault
  | none =>
    match (elements path).getLast? with
    | none => .error .isADirectory
    | some last => do
      let directory ← fs.follow (fs.origin path) (elements path).dropLast
      match fs.node? directory with
      | some .dir =>
        if last == Path.here || last == Path.parent then .error .isADirectory
        else if elementLimit < last.length then .error .nameTooLong
        else
          match fs.node? (directory ++ [last]) with
          | some .dir => .error .isADirectory
          | _ => return directory ++ [last]
      | _ => .error .notADirectory

/-! ## Operations -/

/-- The content of a file. -/
def readFile (fs : FileSystem) (path : Bytes) : Except PathError Bytes :=
  match fs.stat path with
  | .ok (.file _ content) => .ok content
  | .ok .dir => .error ⟨utf8 "read", path, .isADirectory⟩
  | .error fault => .error ⟨utf8 "open", path, fault⟩

/-- Write a file; a new file gets the mode `mode`, an existing one keeps its own. -/
def writeFile (fs : FileSystem) (path content : Bytes) (mode : Nat) :
    Except PathError FileSystem :=
  match fs.resolveForWriting path with
  | .error fault => .error ⟨utf8 "open", path, fault⟩
  | .ok place =>
    match fs.node? place with
    | some (.file old _) => .ok (fs.put place (.file old content))
    | _ => .ok (fs.put place (.file mode content))

/-- Set the mode of a file; that of a directory is not kept. -/
def setMode (fs : FileSystem) (path : Bytes) (mode : Nat) : Except PathError FileSystem :=
  match fs.resolve path with
  | .error fault => .error ⟨utf8 "chmod", path, fault⟩
  | .ok place =>
    match fs.node? place with
    | some (.file _ content) => .ok (fs.put place (.file mode content))
    | _ => .ok fs

/-- Make the directories that are missing on the way along `elements`; `done` are the elements
before them.  The first failure ends the way, and what was made before it stays. -/
def makeAlong (fs : FileSystem) (rooted : Bool) : List Bytes → List Bytes →
    FileSystem × Option PathError
  | _, [] => (fs, none)
  | done, element :: rest =>
    let path := Path.ofElements rooted (done ++ [element])
    match fs.stat path with
    | .ok .dir => makeAlong fs rooted (done ++ [element]) rest
    | .ok (.file _ _) => (fs, some ⟨utf8 "mkdir", path, .notADirectory⟩)
    | .error _ =>
      match fs.resolveForWriting path with
      | .error fault => (fs, some ⟨utf8 "mkdir", path, fault⟩)
      | .ok place => makeAlong (fs.put place .dir) rooted (done ++ [element]) rest

/-- Make a directory and all that are missing above it; the path is taken as cleaned text. -/
def makeDirectories (fs : FileSystem) (path : Bytes) : FileSystem × Option PathError :=
  fs.makeAlong (path.head? == some Path.slash) [] (Path.cleanElements path)

/-! ## Listing -/

/-- The entries below the current directory, by their names from there. -/
def listing (fs : FileSystem) : List (Bytes × Node) :=
  fs.entries.filterMap fun (place, node) =>
    match fs.cwd.isPrefixOf? place with
    | some (name :: rest) => some (joinWith [Path.slash] (name :: rest), node)
    | _ => none

end FileSystem

end LetPrint

import LetPrint.CommandLine

/-!
# The executable

`main` takes the files that the arguments name into a `FileSystem`, runs the command line on it, and
writes back what has changed.
-/

namespace LetPrint.Executable

open Text

/-- The place that stands for the current directory. -/
def here : Place := [utf8 "work"]

/-- A path as the operating system takes it. -/
def hostPath (path : Bytes) : String :=
  String.ofList (chars path)

/-- The place of a path. -/
def placeOf (path : Bytes) : Place :=
  (if path.head? == some Path.slash then [] else here) ++ Path.cleanElements path

/-- The path of a place. -/
def pathOf (place : Place) : Bytes :=
  match here.isPrefixOf? place with
  | some rest => Path.ofElements false rest
  | none => Path.ofElements true place

/-- Put a file at a place and directories above it. -/
def putFile (fs : FileSystem) (place : Place) (node : Node) : FileSystem :=
  let parents := (List.range place.length).map place.take
  (parents.foldl (fun fs p => if (fs.node? p).isSome then fs else fs.put p .dir) fs).put place node

/-- Take a file into `fs`, if there is one. -/
def load (mode : Nat) (fs : FileSystem) (path : Bytes) : IO FileSystem := do
  try
    let content ← IO.FS.readBinFile (hostPath path)
    return putFile fs (placeOf path) (.file mode content.toList)
  catch _ => return fs

/-- The files that the arguments name: the input, the output, the profile and its tools. -/
def loadAll (arguments : List Bytes) : IO FileSystem := do
  let fs := FileSystem.host here
  match Options.parse arguments with
  | .error _ => return fs
  | .ok (o, input, output) =>
    let fs ← [input, output, o.toolchain].foldlM (load 0o644) fs
    match Profile.load fs o.toolchain with
    | .error _ => return fs
    | .ok p => [p.llc, p.cc, p.ld].foldlM (load 0o755) fs

/-- The access rights of permission bits: all may read, the owner may write. -/
def rights (mode : Nat) : IO.FileRight :=
  let all : IO.AccessRight := { read := true, execution := isExecutable mode }
  { user := { all with write := true }, group := all, other := all }

/-- Write back what is new or has changed. -/
def store (before after : FileSystem) : IO Unit :=
  for (place, node) in after.entries do
    if before.node? place != some node then
      let path := hostPath (pathOf place)
      match node with
      | .dir => IO.FS.createDirAll path
      | .file mode content =>
        IO.FS.writeBinFile path ⟨content.toArray⟩
        IO.setAccessRights path (rights mode)

/-- Print a result. -/
def print (r : CommandLine.Result) : IO Unit := do
  (← IO.getStdout).write ⟨(r.toolOut ++ r.stdout).toArray⟩
  (← IO.getStderr).write ⟨(r.toolErr ++ r.stderr).toArray⟩

end LetPrint.Executable

/-- Run the command line on the files of the current directory. -/
def main (arguments : List String) : IO UInt32 := do
  let arguments := arguments.map LetPrint.utf8
  let before ← LetPrint.Executable.loadAll arguments
  let result := LetPrint.CommandLine.run arguments before
  LetPrint.Executable.store before result.files
  LetPrint.Executable.print result
  return UInt32.ofNat result.exitCode

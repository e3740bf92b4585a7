import LetPrint.Program.Parser
import LetPrint.Sink
import LetPrint.Tools

/-!
# Sessions

A session is a computation that may fail and that acts on a `World`: the program's output, what is
shown of the program, the trace, the files, and the tools with a record of the calls made to them.  A
failure keeps the world as it is at that point.
-/

namespace LetPrint

open Text

/-- What a session acts on. -/
structure World where
  /-- Whether a trace is kept. -/
  tracing : Bool := false
  trace : Bytes := []
  /-- What was shown of the program. -/
  shown : Bytes := []
  /-- The output of the program. -/
  out : Sink := {}
  files : FileSystem := {}
  runner : Runner := .scripted {}
  /-- The commands given to tools, in order. -/
  calls : List Command := []
  /-- What tools printed on their standard output and their standard error. -/
  toolOut : Bytes := []
  toolErr : Bytes := []
  deriving Inhabited

/-- A computation on a world that may fail. -/
abbrev Session := ExceptT Diagnostic (StateM World)

namespace Session

/-- Run a session in a world. -/
def runIn {α : Type} (s : Session α) (w : World) : Except Diagnostic α × World :=
  (ExceptT.run s).run w

/-- Add to the trace, if one is kept. -/
def note (text : Bytes) : Session Unit :=
  modify fun w => if w.tracing then { w with trace := w.trace ++ text } else w

/-- Show something. -/
def display (text : Bytes) : Session Unit :=
  modify fun w => { w with shown := w.shown ++ text }

/-- The value of a computation without effects, or its failure. -/
def ofExcept {ε α : Type} (diagnostic : ε → Diagnostic) : Except ε α → Session α
  | .ok a => pure a
  | .error e => throw (diagnostic e)

/-! ## Tools -/

/-- The path of a tool. -/
def look (name : Bytes) : Session (Except Diagnostic Bytes) := do
  let w ← get
  return w.runner.look w.files name

/-- Record a call, and trace it where calls are traced. -/
def record (c : Command) : Session Unit := do
  modify fun w => { w with calls := w.calls ++ [c] }
  if (← get).runner.isTraced then note (utf8 "  $ " ++ c.render ++ utf8 "\n")

/-- Run a tool. -/
def call (c : Command) : Session (Except Diagnostic Unit) := do
  record c
  let w ← get
  let ran := w.runner.run w.files c
  set { w with
    files := ran.files, toolOut := w.toolOut ++ ran.stdout, toolErr := w.toolErr ++ ran.stderr }
  return ran.result

/-- Run a tool for its output. -/
def callForOutput (c : Command) : Session (Except Diagnostic Bytes) := do
  record c
  let w ← get
  let ran := w.runner.output w.files c
  set { w with files := ran.files }
  return ran.result

/-- Report the failure of a tool as a toolchain error. -/
def orToolchainError {α : Type} (message : Bytes) : Except Diagnostic α → Session α :=
  ofExcept (Diagnostic.toolchain message)

/-! ## Files -/

/-- A usage error with the failure of an operation on a path. -/
def usageBecause (message : Bytes) (e : PathError) : Diagnostic :=
  .because { category := .usage, message } e.diagnostic

/-- The content of a source file. -/
def readSource (path : Bytes) : Session Bytes := do
  let w ← get
  ofExcept (usageBecause (utf8 "cannot read " ++ path)) (w.files.readFile path)

/-- Change the files by an operation that may fail. -/
def changeFiles (message : Bytes) (change : FileSystem → Except PathError FileSystem) :
    Session Unit := do
  let w ← get
  let files ← ofExcept (fun e : PathError => .toolchain message e.diagnostic) (change w.files)
  set { w with files }

/-- Make the directory of a path. -/
def makeParent (path : Bytes) : Session Unit := do
  let directory := Path.directory path
  let w ← get
  let (files, failure) := w.files.makeDirectories directory
  set { w with files }
  match failure with
  | none => return ()
  | some e => throw (.toolchain (utf8 "cannot create directory " ++ directory) e.diagnostic)

/-- Write a file and make its directory. -/
def save (path content : Bytes) : Session Unit := do
  makeParent path
  changeFiles (utf8 "cannot write " ++ path) (·.writeFile path content 0o644)

/-- Let everyone run a file. -/
def markExecutable (path : Bytes) : Session Unit :=
  changeFiles (utf8 "cannot make " ++ path ++ utf8 " executable") (·.setMode path 0o755)

/-! ## Programs -/

/-- Read a program. -/
def readProgram (source : Bytes) : Session Program := do
  note (Program.readingTrace source)
  ofExcept ParseError.diagnostic (Program.parse source)

end Session

end LetPrint

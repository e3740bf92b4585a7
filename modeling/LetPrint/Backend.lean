import LetPrint.Bytecode.Generate
import LetPrint.Bytecode.Machine
import LetPrint.Interpreter
import LetPrint.Ir.Lower
import LetPrint.Linker

/-!
# Backends

What is done with a program: run it directly, run it as bytecode, write its module as text, or build
an executable.
-/

namespace LetPrint

open Text Session

/-- What a backend made: the paths of the output and of the object, and a message. -/
structure Artifact where
  output : Bytes := []
  object : Bytes := []
  success : Bool := true
  message : Bytes := []
  deriving DecidableEq, Repr, Inhabited

/-- An artifact, with the failure after which it was left behind, if there is one. -/
structure Built where
  artifact : Artifact := {}
  failure : Option Diagnostic := none
  deriving DecidableEq, Repr, Inhabited

/-- A way to handle a program. -/
inductive Backend where
  | interp
  | vm
  /-- Write the module for a target as text. -/
  | ir (triple : Bytes)
  /-- Build an executable for a target with `llc` and a linker. -/
  | native (triple llc : Bytes) (linker : Linker)
  deriving DecidableEq, Repr, Inhabited

namespace Backend

/-- The backend's name. -/
def name : Backend → Bytes
  | interp => utf8 "interp"
  | vm => utf8 "vm"
  | ir _ => utf8 "llvm"
  | native _ _ _ => utf8 "native"

/-- Run a program directly. -/
def interpret (p : Program) : Session Built := do
  let w ← get
  let (out, stop) := p.run w.out
  set { w with out }
  note (p.runTrace stop)
  match stop with
  | none => return {}
  | some halt => throw (runDiagnostic halt)

/-- The bytecode of a program. -/
def generateChunk (p : Program) : Session Chunk := do
  note p.chunkTrace
  ofExcept SemanticError.diagnostic p.chunk

/-- Run a chunk. -/
def executeChunk (c : Chunk) : Session Unit := do
  let w ← get
  let (out, stop) := c.execute w.out
  set { w with out }
  note (c.executeTrace stop)
  match stop.diagnostic? with
  | none => return ()
  | some d => throw d

/-- Run a program as bytecode. -/
def executeProgram (p : Program) : Session Built := do
  let chunk ← generateChunk p
  executeChunk chunk
  return {}

/-- The module of a program. -/
def generateModule (p : Program) (triple : Bytes) : Session Ir.Module := do
  note (p.lowerTrace triple)
  ofExcept SemanticError.diagnostic (p.lower triple)

/-- `Built path`. -/
def builtMessage (path : Bytes) : Bytes :=
  utf8 "Built " ++ path

/-- Write the module of a program as text. -/
def writeModule (p : Program) (triple output : Bytes) : Session Built := do
  let m ← generateModule p triple
  ofExcept Ir.Fault.diagnostic m.verify
  save output m.text
  note (utf8 "Arquivo LLVM IR gerado em: " ++ output ++ utf8 "\n")
  return { artifact := { output, message := builtMessage output } }

/-- Link an object.  A failure is handed on together with what is left: the object. -/
def linkObject (linker : Linker) (object output : Bytes) : Session (Option Diagnostic) :=
  tryCatch (do linker.link object output; return none) fun d => return some d

/-- Build an executable, with its object beside it. -/
def buildExecutable (p : Program) (triple llc : Bytes) (linker : Linker) (output : Bytes) :
    Session Built := do
  let m ← generateModule p triple
  let object := Path.objectBeside output
  makeParent object
  emitObject llc m triple object
  note (utf8 "Ligando " ++ output ++ utf8 " com " ++ linker.name ++ utf8 "...\n")
  match ← linkObject linker object output with
  | some failure =>
    let message := utf8 "object kept at " ++ object
    return { artifact := { object, success := false, message }, failure := some failure }
  | none =>
    markExecutable output
    return { artifact := { output, object, message := builtMessage output } }

/-- Handle a program. -/
def compile (b : Backend) (p : Program) (output : Bytes) : Session Built :=
  match b with
  | interp => interpret p
  | vm => executeProgram p
  | ir triple => writeModule p triple output
  | native triple llc linker => buildExecutable p triple llc linker output

end Backend

end LetPrint

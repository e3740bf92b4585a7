import LetPrint.Backend
import LetPrint.Profile
import LetPrint.Program.Outline
import LetPrint.Program.Tree
import LetPrint.Typing

/-!
# The pipeline

From a source text to what a backend makes of it: read, show on demand, check the kinds, hand on.
Nothing is handed on unless the program is read and checked.
-/

namespace LetPrint

open Text Session

/-- The backend of a name. -/
def Backend.ofName (name : Bytes) (profile : Profile) : Session Backend := do
  if name == utf8 "interp" then return .interp
  else if name == utf8 "vm" then return .vm
  else if name == utf8 "llvm" then return .ir profile.target
  else if name == utf8 "native" || name.isEmpty then
    let linker := Linker.host profile.tools
    note (utf8 "Target " ++ profile.target ++ utf8 ", linker " ++ linker.name ++ utf8 "\n")
    return .native profile.target profile.llc linker
  else
    throw (.usage (utf8 "unknown backend " ++ quote name
      ++ utf8 " (use native, llvm, interp or vm)"))

/-- What to show of a program on the way. -/
structure Showing where
  tree : Bool := false
  outline : Bool := false
  deriving DecidableEq, Repr, Inhabited

/-- The kinds of the names as text, sorted by name. -/
def Kinds.outline (kinds : Kinds) : Bytes :=
  let entries := kinds.toList.mergeSort fun a b => lexLE a.1 b.1
  let shown := entries.map fun (name, kind) => quote name ++ utf8 ":" ++ decimal kind.number
  utf8 "map[string]parser.Kind\x7b" ++ joinWith (utf8 ", ") shown ++ utf8 "\x7d"

/-- Compile a source text. -/
def compileSource (backend : Backend) (showing : Showing) (source output : Bytes) :
    Session Built := do
  note (utf8 "Analisando...\n")
  let program ← readProgram source
  note (decimal program.length ++ utf8 " statements\n")
  if showing.tree then display program.drawn
  if showing.outline then display (Outline.program program ++ utf8 "\n")
  let kinds ← ofExcept SemanticError.diagnostic program.kinds
  note (utf8 "Kinds: " ++ kinds.outline ++ utf8 "\n")
  backend.compile program output

/-- Compile a file. -/
def compileFile (backend : Backend) (showing : Showing) (input output : Bytes) :
    Session Built := do
  let source ← readSource input
  note (utf8 "Compilando " ++ input ++ utf8 " com o backend " ++ backend.name ++ utf8 "...\n")
  compileSource backend showing source output

end LetPrint

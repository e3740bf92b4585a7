import LetPrint.Ir.Verify
import LetPrint.Session

/-!
# Objects and executables

The steps that turn a module into an executable: `emitObject` has `llc` make an object of it, and a
`Linker` has the platform's linker make an executable of the object.
-/

namespace LetPrint

open Text Session

/-- `name`, or `default` if it is empty. -/
def orDefault (name default : Bytes) : Bytes :=
  if name.isEmpty then default else name

/-! ## Objects -/

/-- The command that makes an object for a target. -/
def objectCommand (llc triple object : Bytes) (m : Ir.Module) : Command :=
  { name := llc
    args :=
      [utf8 "-filetype=obj", utf8 "-O0", utf8 "-mtriple=" ++ triple, utf8 "-relocation-model=pic",
       utf8 "-o", object, utf8 "-"]
    stdin := m.text }

/-- Verify a module and make an object of it. -/
def emitObject (llc : Bytes) (m : Ir.Module) (triple object : Bytes) : Session Unit := do
  ofExcept Ir.Fault.diagnostic m.verify
  let llc := orDefault llc (utf8 "llc")
  let path ← orToolchainError (utf8 "cannot find " ++ llc) (← look llc)
  note (utf8 "Emitindo objeto " ++ object ++ utf8 "...\n")
  orToolchainError (utf8 "object emission failed") (← call (objectCommand path triple object m))

/-! ## Linkers -/

/-- The names of the linking tools; an empty name stands for the usual one. -/
structure LinkTools where
  cc : Bytes := []
  ld : Bytes := []
  link : Bytes := []
  deriving DecidableEq, Repr, Inhabited

/-- The linker of a platform. -/
inductive Linker where
  /-- A C compiler driver, or `ld` if there is none. -/
  | gnu (tools : LinkTools)
  /-- The linker of macOS, for an architecture. -/
  | darwin (tools : LinkTools) (arch : Bytes)
  /-- The linker of Windows. -/
  | msvc (tools : LinkTools)
  deriving DecidableEq, Repr, Inhabited

namespace Linker

/-- The linker's name. -/
def name : Linker → Bytes
  | gnu _ => utf8 "gnu"
  | darwin _ _ => utf8 "ld64"
  | msvc _ => utf8 "msvc"

/-- The linker of the host. -/
def host (tools : LinkTools) : Linker :=
  .gnu tools

/-- Run a linking tool. -/
def runTool (tool : Bytes) (args : List Bytes) : Session Unit := do
  orToolchainError (tool ++ utf8 " link failed") (← call { name := tool, args })

/-- The major and minor number of a version, `13` and `0` where they are missing. -/
def platformVersion (product : Bytes) : Bytes :=
  let parts := splitOn (byte '.') (trim product)
  let part (i : Nat) (default : Bytes) := orDefault ((parts[i]?).getD []) default
  part 0 (utf8 "13") ++ utf8 "." ++ part 1 (utf8 "0")

/-- Link with a C compiler driver, or with `ld` if there is none. -/
def linkGnu (tools : LinkTools) (object executable : Bytes) : Session Unit := do
  let args := [object, utf8 "-o", executable, utf8 "-lc"]
  let cc := orDefault tools.cc (utf8 "gcc")
  match ← look cc with
  | .ok path =>
    note (utf8 "Linkando com " ++ path ++ utf8 "...\n")
    runTool path args
  | .error _ =>
    let ld ←
      if tools.ld.isEmpty then
        match ← look (utf8 "ld.lld") with
        | .ok path => pure path
        | .error _ => pure (utf8 "ld")
      else pure tools.ld
    note (cc ++ utf8 " não encontrado, linkando com " ++ ld ++ utf8 "...\n")
    runTool ld args

/-- Link with the linker of macOS. -/
def linkDarwin (tools : LinkTools) (arch object executable : Bytes) : Session Unit := do
  let sdk ← orToolchainError (utf8 "cannot locate the macOS SDK") (← callForOutput
    { name := utf8 "xcrun", args := [utf8 "--sdk", utf8 "macosx", utf8 "--show-sdk-path"] })
  let product ← orToolchainError (utf8 "cannot read the macOS version") (← callForOutput
    { name := utf8 "sw_vers", args := [utf8 "-productVersion"] })
  let version := platformVersion product
  runTool (orDefault tools.ld (utf8 "ld"))
    [utf8 "-o", executable, utf8 "-arch", arch, utf8 "-platform_version", utf8 "macos", version,
     version, utf8 "-syslibroot", trim sdk, utf8 "-e", utf8 "_main", object, utf8 "-lSystem"]

/-- Link with the linker of Windows. -/
def linkMsvc (tools : LinkTools) (object executable : Bytes) : Session Unit :=
  runTool (orDefault tools.link (utf8 "link.exe"))
    [object, utf8 "/OUT:" ++ executable, utf8 "msvcrt.lib", utf8 "legacy_stdio_definitions.lib"]

/-- Make an executable of an object. -/
def link (l : Linker) (object executable : Bytes) : Session Unit :=
  match l with
  | gnu tools => linkGnu tools object executable
  | darwin tools arch => linkDarwin tools arch object executable
  | msvc tools => linkMsvc tools object executable

end Linker

end LetPrint

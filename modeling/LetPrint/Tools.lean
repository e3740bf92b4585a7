import LetPrint.Process
import LetPrint.Text.Blank

/-!
# External tools

How the steps that need other programs reach them (`Runner`): by starting processes, or by a script that
stands in for them.  A tool is looked up by name, run for its effect, or run for its output.  What a
script does when a tool is run is any function of the command and the files (`Effect`).
-/

namespace LetPrint

open Text

/-- The file that a command is told to make: the argument after `-o`, or the rest of `/OUT:`. -/
def outputArgument? : List Bytes → Option Bytes
  | [] => none
  | arg :: rest =>
    match (utf8 "/OUT:").isPrefixOf? arg with
    | some path => some path
    | none =>
      if arg == utf8 "-o" then
        match rest with
        | path :: _ => some path
        | [] => none
      else outputArgument? rest

/-- What a stand-in for a tool does: whether it fails, and the files after it. -/
abbrev Effect := Command → FileSystem → Except Diagnostic Unit × FileSystem

namespace Effect

/-- Nothing happens. -/
def idle : Effect :=
  fun _ fs => (.ok (), fs)

/-- The output file of the command is made, if it has one. -/
def create : Effect :=
  fun c fs =>
    match outputArgument? c.args with
    | none => (.ok (), fs)
    | some path =>
      match fs.writeFile path (utf8 "bin") 0o600 with
      | .ok fs => (.ok (), fs)
      | .error e => (.error e.diagnostic, fs)

end Effect

/-- Answers that stand in for tools: where names are found, what commands print and which fail, by
the last element of the command's name.  A run that is not to fail is left to `onRun`, which may change
any file and may fail as well; with `creates`, and if nothing else is said, it makes the output file. -/
structure Script where
  paths : List (Bytes × Bytes) := []
  outputs : List (Bytes × Bytes) := []
  failures : List (Bytes × Bytes) := []
  creates : Bool := false
  onRun : Effect := if creates then .create else .idle
  deriving Inhabited

/-- Access to tools. -/
inductive Runner where
  | scripted (s : Script)
  | processes
  deriving Inhabited

/-- What a run gives, the files after it, and what the tool printed for the user to see. -/
structure ToolRun (α : Type) where
  result : Except Diagnostic α
  files : FileSystem
  stdout : Bytes := []
  stderr : Bytes := []

namespace Script

/-- The failure of a command, if it is to fail. -/
def failure? (s : Script) (c : Command) : Option Diagnostic :=
  (s.failures.lookup (Path.base c.name)).map .plain

/-- Stand in for a run. -/
def run (s : Script) (fs : FileSystem) (c : Command) : Except Diagnostic Unit × FileSystem :=
  match s.failure? c with
  | some d => (.error d, fs)
  | none => s.onRun c fs

/-- Stand in for a run whose output is asked for. -/
def output (s : Script) (c : Command) : Except Diagnostic Bytes :=
  match s.failure? c with
  | some d => .error d
  | none => .ok ((s.outputs.lookup (Path.base c.name)).getD [])

end Script

namespace Runner

/-- Whether what a runner does is traced. -/
def isTraced : Runner → Bool
  | scripted _ => false
  | processes => true

/-- The path of a tool. -/
def look (r : Runner) (fs : FileSystem) (name : Bytes) : Except Diagnostic Bytes :=
  match r with
  | scripted s =>
    match s.paths.lookup name with
    | some path => .ok path
    | none => .error (notFound name)
  | processes => lookPath fs name

/-- Run a command. -/
def run (r : Runner) (fs : FileSystem) (c : Command) : ToolRun Unit :=
  match r with
  | scripted s =>
    let (result, files) := s.run fs c
    { result, files }
  | processes =>
    match startProcess fs c with
    | .error d => { result := .error (.within c.name d), files := fs }
    | .ok p =>
      let result :=
        match p.failure? with
        | some d => .error (.within c.name d)
        | none => .ok ()
      { result, files := p.files, stdout := p.stdout, stderr := p.stderr }

/-- The failure of a command whose output was asked for; what it wrote to its standard error is
added. -/
def outputFailure (name : Bytes) (d : Diagnostic) (stderr : Bytes) : Diagnostic :=
  let said := trim stderr
  if said.isEmpty then .within name d
  else .within name (.plain (d.text ++ utf8 ": " ++ said))

/-- Run a command for its output. -/
def output (r : Runner) (fs : FileSystem) (c : Command) : ToolRun Bytes :=
  match r with
  | scripted s => { result := s.output c, files := fs }
  | processes =>
    match startProcess fs c with
    | .error d => { result := .error (.within c.name d), files := fs }
    | .ok p =>
      match p.failure? with
      | some d => { result := .error (outputFailure c.name d p.stderr), files := p.files }
      | none => { result := .ok p.stdout, files := p.files }

end Runner

end LetPrint

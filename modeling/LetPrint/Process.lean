import LetPrint.Shell.Run
import LetPrint.Text.Quoted

/-!
# Processes

Starting a program by its path.  The one program at hand is the shell `/bin/sh`; a file that starts
with `#!` and the path of the shell is a script for it.  Names without a slash are never found, as
there is no directory to search for them.
-/

namespace LetPrint

open Text

/-- A program's name, its arguments and its standard input. -/
structure Command where
  name : Bytes
  args : List Bytes := []
  stdin : Bytes := []
  deriving DecidableEq, Repr, Inhabited

/-- The name and the arguments with spaces between them. -/
def Command.render (c : Command) : Bytes :=
  joinWith (utf8 " ") (c.name :: c.args)

/-- `exec: "name": reason`. -/
def lookFault (name reason : Bytes) : Diagnostic :=
  .plain (utf8 "exec: " ++ quote name ++ utf8 ": " ++ reason)

/-- The fault of a name that is found nowhere. -/
def notFound (name : Bytes) : Diagnostic :=
  lookFault name (utf8 "executable file not found in $PATH")

/-- Where the shell is. -/
def shellPlace : Place := [utf8 "bin", utf8 "sh"]

/-- A file system that holds the shell and the directory `cwd`, which is the current one. -/
def FileSystem.host (cwd : Place) : FileSystem :=
  { entries :=
      [([utf8 "bin"], .dir), (shellPlace, .file 0o755 [])]
        ++ (List.range cwd.length).map (fun i => (cwd.take (i + 1), .dir))
    cwd }

/-- Whether permission bits let anyone run a file. -/
def isExecutable (mode : Nat) : Bool :=
  mode &&& 0o111 != 0

/-- The path of a program, if it can be run. -/
def lookPath (fs : FileSystem) (name : Bytes) : Except Diagnostic Bytes :=
  if name.contains Path.slash then
    match fs.stat name with
    | .ok .dir => .error (lookFault name OsFault.isADirectory.message)
    | .ok (.file mode _) =>
      if isExecutable mode then .ok name else .error (lookFault name OsFault.denied.message)
    | .error fault =>
      .error (lookFault name (utf8 "stat " ++ name ++ utf8 ": " ++ fault.message))
  else .error (notFound name)

/-- What a process leaves: what it wrote, the files, and how it ended. -/
structure ProcessResult where
  stdout : Bytes
  stderr : Bytes
  files : FileSystem
  flow : Shell.Flow
  deriving Repr

/-- Run a script with the shell. -/
def runScript (fs : FileSystem) (name script : Bytes) (args : List Bytes) (stdin : Bytes) :
    ProcessResult :=
  let s : Shell.State := { name, args, input := stdin, files := fs }
  let fuel := script.length + stdin.length + args.length + 16
  let (s, flow) := match Shell.parse? script with
    | some c => Shell.run fuel c s
    | none => (s.complain (utf8 "Syntax error") 2, .next)
  ⟨s.out, s.err, s.files, if flow = .next then .exited s.status else flow⟩

/-- Run the shell with the given arguments: `-c script`, a file, or a script on the input. -/
def runShell (fs : FileSystem) (name : Bytes) (args : List Bytes) (stdin : Bytes) : ProcessResult :=
  match args with
  | [] => runScript fs name stdin [] []
  | first :: rest =>
    if first == utf8 "-c" then
      match rest with
      | script :: zero :: args => runScript fs zero script args stdin
      | [script] => runScript fs name script [] stdin
      | [] => ⟨[], name ++ utf8 ": 0: -c requires an argument\n", fs, .exited 2⟩
    else
      match fs.readFile first with
      | .ok script => runScript fs first script rest stdin
      | .error _ => ⟨[], name ++ utf8 ": 0: cannot open " ++ first ++ utf8 ": No such file\n", fs, .exited 2⟩

/-- The interpreter that a script names in its first line. -/
def interpreter? (content : Bytes) : Option Bytes :=
  match (utf8 "#!").isPrefixOf? content with
  | some rest =>
    let blank := fun b => b == byte ' ' || b == byte '\t'
    some (((rest.takeWhile (· != newline)).dropWhile blank).takeWhile (!blank ·))
  | none => none

/-- Start a program that is given by a path.  No argument may hold a zero byte. -/
def startPath (fs : FileSystem) (c : Command) : Except OsFault ProcessResult := do
  if c.args.any (·.contains 0) then .error .invalidArgument
  let place ← fs.resolve c.name
  match fs.node? place with
  | some (.file mode content) =>
    if !isExecutable mode then .error .denied
    else if place = shellPlace then return runShell fs c.name c.args c.stdin
    else
      match interpreter? content with
      | none => .error .badFormat
      | some path =>
        let shell ← fs.resolve path
        if shell = shellPlace then return runShell fs path (c.name :: c.args) c.stdin
        else .error .denied
  | _ => .error .denied

/-- Start a program. -/
def startProcess (fs : FileSystem) (c : Command) : Except Diagnostic ProcessResult :=
  if c.name.isEmpty then .error (.plain (utf8 "exec: no command"))
  else if c.name.contains Path.slash then
    match startPath fs c with
    | .ok result => .ok result
    | .error fault => .error (PathError.diagnostic ⟨utf8 "fork/exec", c.name, fault⟩)
  else .error (notFound c.name)

/-- The name of a signal. -/
def signalName (n : Nat) : Bytes :=
  match n with
  | 1 => utf8 "hangup"
  | 2 => utf8 "interrupt"
  | 3 => utf8 "quit"
  | 6 => utf8 "aborted"
  | 9 => utf8 "killed"
  | 10 => utf8 "user defined signal 1"
  | 11 => utf8 "segmentation fault"
  | 12 => utf8 "user defined signal 2"
  | 13 => utf8 "broken pipe"
  | 14 => utf8 "alarm clock"
  | 15 => utf8 "terminated"
  | _ => utf8 "signal " ++ decimal n

/-- The failure that a process ended with, if it did. -/
def ProcessResult.failure? (r : ProcessResult) : Option Diagnostic :=
  match r.flow with
  | .next | .exited 0 => none
  | .exited n => some (.plain (utf8 "exit status " ++ decimal n))
  | .killed n => some (.plain (utf8 "signal: " ++ signalName n))

end LetPrint

import LetPrint.FileSystem
import LetPrint.Shell.Parser

/-!
# Running shell scripts

A script reads its standard input, writes to its standard output and error, or to files, and ends with
a status or by a signal.  Only built-in commands can be run, as no other program is at hand.
-/

namespace LetPrint.Shell

open Text

/-- Where a descriptor writes to. -/
inductive Target where
  | out
  | err
  /-- What is written is lost. -/
  | null
  | file (place : Place)
  deriving DecidableEq, Repr

/-- How a script goes on: with the next command, to an end with a status, or by a signal. -/
inductive Flow where
  | next
  | exited (status : Nat)
  | killed (signal : Nat)
  deriving DecidableEq, Repr

/-- All that a running script knows and has written. -/
structure State where
  name : Bytes
  args : List Bytes
  bindings : List (Bytes × Bytes) := []
  status : Nat := 0
  input : Bytes
  out : Bytes := []
  err : Bytes := []
  descriptors : List (Nat × Target) := [(1, .out), (2, .err)]
  files : FileSystem
  deriving Repr

namespace State

/-- The number of the running process. -/
def processNumber : Nat := 2

/-- The value of a variable; one that is not set is empty. -/
def value (s : State) (name : Bytes) : Bytes :=
  (s.bindings.lookup name).getD []

/-- Set a variable. -/
def assign (s : State) (name value : Bytes) : State :=
  { s with bindings := (name, value) :: s.bindings.filter (·.1 != name) }

/-- Write to a descriptor. -/
def write (s : State) (fd : Nat) (text : Bytes) : State :=
  match s.descriptors.lookup fd with
  | some .out => { s with out := s.out ++ text }
  | some .err => { s with err := s.err ++ text }
  | some .null => s
  | some (.file place) =>
    match s.files.node? place with
    | some (.file mode content) => { s with files := s.files.put place (.file mode (content ++ text)) }
    | _ => s
  | none => s

/-- Let a descriptor write to a target. -/
def redirect (s : State) (fd : Nat) (target : Target) : State :=
  { s with descriptors := (fd, target) :: s.descriptors.filter (·.1 != fd) }

/-- Report a failure of the script and set the status. -/
def complain (s : State) (message : Bytes) (status : Nat) : State :=
  { s.write 2 (s.name ++ utf8 ": 1: " ++ message ++ utf8 "\n") with status }

/-! ## Expansion -/

/-- The value of a parameter as one text. -/
def parameter (s : State) : Parameter → Bytes
  | .named name => s.value name
  | .argument 0 => s.name
  | .argument (i + 1) => (s.args[i]?).getD []
  | .arguments => joinWith (utf8 " ") s.args
  | .count => decimal s.args.length
  | .status => decimal s.status
  | .process => decimal processNumber

/-- A word being expanded: the fields before the last, the last one, and whether it exists even if
it is empty. -/
structure Fields where
  done : List Bytes := []
  last : Bytes := []
  started : Bool := false

/-- Add text that is not split. -/
def Fields.add (f : Fields) (text : Bytes) : Fields :=
  { f with last := f.last ++ text, started := true }

/-- End the last field, if there is one. -/
def Fields.cut (f : Fields) : Fields :=
  if f.started then { done := f.done ++ [f.last] } else f

/-- Add text that is split at blanks. -/
def Fields.addSplit (f : Fields) (text : Bytes) : Fields :=
  text.foldl
    (fun f b => if b == byte ' ' || b == byte '\t' || b == newline then f.cut else f.add [b]) f

/-- Add a part of a word. -/
def addPart (s : State) (f : Fields) : Part → Fields
  | .literal text _ => f.add text
  | .parameter .arguments true =>
    match s.args with
    | [] => f
    | first :: rest => rest.foldl (fun f arg => f.cut.add arg) (f.add first)
  | .parameter p true => f.add (s.parameter p)
  | .parameter p false => f.addSplit (s.parameter p)

/-- The fields of a word. -/
def expand (s : State) (w : Word) : List Bytes :=
  (w.foldl s.addPart {}).cut.done

/-- A word as one text. -/
def expandOne (s : State) (w : Word) : Bytes :=
  w.flatMap fun
    | .literal text _ => text
    | .parameter p _ => s.parameter p

/-! ## Redirections -/

/-- The path of the file that is always empty. -/
def nullPath : Bytes := utf8 "/dev/null"

/-- Why a file is not opened; `missing` is said where there is no such path. -/
def openFault (verb path missing : Bytes) (fault : OsFault) : Bytes :=
  let reason := match fault with
    | .missing | .notADirectory => missing
    | .isADirectory => utf8 "Is a directory"
    | .denied => utf8 "Permission denied"
    | .badFormat => utf8 "Exec format error"
    | .invalidArgument => utf8 "Invalid argument"
    | .nameTooLong => utf8 "File name too long"
  verb ++ utf8 " " ++ path ++ utf8 ": " ++ reason

/-- Set up one redirection, or tell why it fails. -/
def redirectBy (s : State) : Redirection → Except Bytes State
  | .toFile fd w append =>
    let path := s.expandOne w
    if path == nullPath then .ok (s.redirect fd .null)
    else
      match s.files.resolveForWriting path with
      | .error fault =>
        .error (openFault (utf8 "cannot create") path (utf8 "Directory nonexistent") fault)
      | .ok place =>
        let content := match s.files.node? place with
          | some (.file mode content) => .file mode (if append then content else [])
          | _ => .file 0o644 []
        .ok ({ s with files := s.files.put place content }.redirect fd (.file place))
  | .fromFile w =>
    let path := s.expandOne w
    if path == nullPath then .ok { s with input := [] }
    else
      match s.files.readFile path with
      | .ok input => .ok { s with input }
      | .error e => .error (openFault (utf8 "cannot open") path (utf8 "No such file") e.fault)
  | .duplicate fd w =>
    let other := s.expandOne w
    if !other.isEmpty && other.all isDigit then
      match s.descriptors.lookup (decimalValue other) with
      | some target => .ok (s.redirect fd target)
      | none => .error (other ++ utf8 ": Bad file descriptor")
    else .error (utf8 "Syntax error: Bad fd number")

/-! ## Built-in commands -/

/-- The bytes of the escapes in a text, `\c` apart. -/
def escapes : Nat → Bytes → Bytes
  | 0, rest => rest
  | _, [] => []
  | fuel + 1, b :: rest =>
    if b == byte '\\' then
      match rest with
      | e :: rest' =>
        match Char.ofUInt8 e with
        | 'n' => newline :: escapes fuel rest'
        | 't' => byte '\t' :: escapes fuel rest'
        | 'r' => byte '\r' :: escapes fuel rest'
        | 'a' => 0x07 :: escapes fuel rest'
        | 'b' => 0x08 :: escapes fuel rest'
        | 'f' => 0x0C :: escapes fuel rest'
        | 'v' => 0x0B :: escapes fuel rest'
        | '\\' => b :: escapes fuel rest'
        | _ =>
          let octal := (rest.take 3).takeWhile fun d => byte '0' ≤ d && d ≤ byte '7'
          if octal.isEmpty then b :: e :: escapes fuel rest'
          else
            UInt8.ofNat (octal.foldl (fun n d => 8 * n + (d.toNat - 48)) 0)
              :: escapes fuel (rest.drop octal.length)
      | [] => [b]
    else b :: escapes fuel rest

/-- One pass of `printf` over its format: the text, and the arguments that are left. -/
def formatOnce : Nat → Bytes → List Bytes → Bytes × List Bytes
  | 0, _, args => ([], args)
  | _, [], args => ([], args)
  | fuel + 1, b :: rest, args =>
    let plain (text rest : Bytes) :=
      let (more, left) := formatOnce fuel rest args
      (text ++ more, left)
    if b == byte '%' then
      match rest with
      | d :: rest' =>
        let arg := args.head?.getD []
        let used (text : Bytes) :=
          let (more, left) := formatOnce fuel rest' (args.drop 1)
          (text ++ more, left)
        match Char.ofUInt8 d with
        | '%' => plain [b] rest'
        | 's' => used arg
        | 'b' => used (escapes (arg.length + 1) arg)
        | 'd' | 'i' | 'u' => used (if arg.isEmpty then utf8 "0" else arg)
        | 'c' => used (arg.take 1)
        | _ => plain [b, d] rest'
      | [] => plain [b] []
    else plain [b] rest

/-- What `printf` writes: the format is used again as long as arguments are left. -/
def format : Nat → Bytes → List Bytes → Bytes
  | 0, _, _ => []
  | fuel + 1, text, args =>
    let (written, left) := formatOnce (text.length + 1) text args
    if left.isEmpty || left.length = args.length then written
    else written ++ format fuel text left

/-- The fields of an input line for `count` names: all but the last end at blanks, the last is the
rest of the line without the blanks around it. -/
def splitFields : Nat → Bytes → List Bytes
  | 0, _ => []
  | 1, line =>
    let blank := fun b => b == byte ' ' || b == byte '\t'
    [((line.dropWhile blank).reverse.dropWhile blank).reverse]
  | count + 2, line =>
    let blank := fun b => b == byte ' ' || b == byte '\t'
    let line := line.dropWhile blank
    line.takeWhile (!blank ·) :: splitFields (count + 1) (line.dropWhile (!blank ·))

/-- `read` into the given names; the status tells whether a whole line was there. -/
def readLine (s : State) (names : List Bytes) : State :=
  let line := s.input.takeWhile (· != newline)
  let rest := s.input.dropWhile (· != newline)
  let names := if names.isEmpty then [utf8 "REPLY"] else names
  let splits := (s.bindings.lookup (utf8 "IFS")).all (!·.isEmpty)
  let values :=
    if splits then splitFields names.length line
    else line :: List.replicate (names.length - 1) []
  let s := { s with input := rest.drop 1, status := if rest.isEmpty then 1 else 0 }
  (names.zip values).foldl (fun s (name, value) => s.assign name value) s

/-- Whether a condition of `test` holds. -/
def holds (s : State) : List Bytes → Bool
  | [] => false
  | [text] => !text.isEmpty
  | [op, text] =>
    if op == utf8 "-n" then !text.isEmpty
    else if op == utf8 "-z" then text.isEmpty
    else if op == utf8 "-e" then (s.files.stat text).isOk
    else if op == utf8 "-d" then
      match s.files.stat text with
      | .ok .dir => true
      | _ => false
    else if op == utf8 "-f" then
      match s.files.stat text with
      | .ok (.file _ _) => true
      | _ => false
    else if op == utf8 "!" then text.isEmpty
    else false
  | [a, op, b] =>
    if op == utf8 "=" then a == b
    else if op == utf8 "!=" then a != b
    else if op == utf8 "-eq" then decimalValue a == decimalValue b
    else if op == utf8 "-ne" then decimalValue a != decimalValue b
    else if op == utf8 "-lt" then decimalValue a < decimalValue b
    else if op == utf8 "-gt" then decimalValue a > decimalValue b
    else if op == utf8 "-le" then decimalValue a ≤ decimalValue b
    else if op == utf8 "-ge" then decimalValue a ≥ decimalValue b
    else false
  | _ => false

/-- The number of a signal, by its number or name. -/
def signalNumber? (text : Bytes) : Option Nat :=
  if !text.isEmpty && text.all isDigit then some (decimalValue text)
  else
    [(utf8 "HUP", 1), (utf8 "INT", 2), (utf8 "QUIT", 3), (utf8 "ABRT", 6), (utf8 "KILL", 9),
     (utf8 "USR1", 10), (utf8 "SEGV", 11), (utf8 "USR2", 12), (utf8 "PIPE", 13), (utf8 "ALRM", 14),
     (utf8 "TERM", 15)].lookup (if (utf8 "SIG").isPrefixOf text then text.drop 3 else text)

/-- What `kill` does: it ends the script if the script is its target. -/
def kill (s : State) (args : List Bytes) : State × Flow :=
  let (signal, targets) := match args with
    | first :: second :: rest =>
      if first == utf8 "-s" then (signalNumber? second, rest)
      else if first.head? == some (byte '-') then (signalNumber? (first.drop 1), second :: rest)
      else (some 15, args)
    | _ => (some 15, args)
  match signal with
  | some n =>
    if targets.contains (decimal processNumber) && n != 0 then (s, .killed n)
    else ({ s with status := if n == 0 then 0 else 1 }, .next)
  | none => ({ s with status := 2 }, .next)

/-- Run a built-in command with its arguments. -/
def builtin (s : State) (name : Bytes) (args : List Bytes) : State × Flow :=
  let ok := { s with status := 0 }
  if name == utf8 "echo" then
    match args with
    | first :: rest =>
      if first == utf8 "-n" then
        let text := joinWith (utf8 " ") rest
        (ok.write 1 (escapes (text.length + 1) text), .next)
      else
        let text := joinWith (utf8 " ") args
        (ok.write 1 (escapes (text.length + 1) text ++ utf8 "\n"), .next)
    | [] => (ok.write 1 (utf8 "\n"), .next)
  else if name == utf8 "printf" then
    match args with
    | text :: rest =>
      let text := escapes (text.length + 1) text
      (ok.write 1 (format (rest.length + 1) text rest), .next)
    | [] => (s.complain (utf8 "printf: usage: printf format [arg ...]") 2, .next)
  else if name == utf8 "read" then
    (s.readLine (args.filter (·.head? != some (byte '-'))), .next)
  else if name == utf8 "exit" then
    match args with
    | n :: _ => (s, .exited (decimalValue n % 256))
    | [] => (s, .exited s.status)
  else if name == utf8 "kill" then s.kill args
  else if name == utf8 "true" || name == utf8 ":" then (ok, .next)
  else if name == utf8 "false" then ({ s with status := 1 }, .next)
  else if name == utf8 "test" then ({ s with status := if s.holds args then 0 else 1 }, .next)
  else if name == utf8 "[" then
    ({ s with status := if s.holds args.dropLast then 0 else 1 }, .next)
  else if name == utf8 "shift" then ({ ok with args := s.args.drop 1 }, .next)
  else (s.complain (name ++ utf8 ": not found") 127, .next)

/-- Run a simple command: assignments alone last, in front of a command they hold for it only. -/
def simple (s : State) (assignments : List (Bytes × Word)) (words : List Word) : State × Flow :=
  let assigned := assignments.foldl (fun t (name, w) => t.assign name (s.expandOne w)) s
  match words.flatMap s.expand with
  | [] => ({ assigned with status := 0 }, .next)
  | name :: args =>
    let (t, flow) := assigned.builtin name args
    let restored := assignments.foldl
      (fun t (name, _) => { t with
        bindings := (s.bindings.filter (·.1 == name)) ++ t.bindings.filter (·.1 != name) }) t
    (restored, flow)

end State

mutual

/-- Run a command.  `fuel` bounds the depth of commands and the number of repetitions. -/
def run : Nat → Command → State → State × Flow
  | 0, _, s => (s, .next)
  | fuel + 1, c, s =>
    match c with
    | .skip => (s, .next)
    | .simple assignments words => s.simple assignments words
    | .redirected c rs =>
      match rs.foldlM (fun s r => s.redirectBy r) s with
      | .error message => (s.complain message 2, .next)
      | .ok t =>
        let (t, flow) := run fuel c t
        let input := if rs.any (fun | .fromFile _ => true | _ => false) then s.input else t.input
        ({ t with descriptors := s.descriptors, input }, flow)
    | .not c =>
      match run fuel c s with
      | (t, .next) => ({ t with status := if t.status == 0 then 1 else 0 }, .next)
      | ended => ended
    | .cond test yes no =>
      match run fuel test s with
      | (t, .next) =>
        if t.status == 0 then run fuel yes t else run fuel no { t with status := 0 }
      | ended => ended
    | .loop negated test body =>
      match run fuel test s with
      | (t, .next) =>
        if (t.status == 0) != negated then
          match run fuel body t with
          | (t, .next) => run fuel c t
          | ended => ended
        else ({ t with status := 0 }, .next)
      | ended => ended
    | .next first joint rest =>
      match run fuel first s with
      | (t, .next) => proceed fuel joint rest t
      | ended => ended

/-- Go on behind a command: a command that the joint excludes is passed over. -/
def proceed : Nat → Joint → Command → State → State × Flow
  | 0, _, _, s => (s, .next)
  | fuel + 1, joint, rest, s =>
    let goes := match joint with
      | .always => true
      | .andThen => s.status == 0
      | .orElse => s.status != 0
    if goes then run fuel rest s
    else
      match rest with
      | .next _ joint rest => proceed fuel joint rest s
      | _ => (s, .next)

end

end LetPrint.Shell

import LetPrint.Pipeline

/-!
# The command line

The arguments (`Options.parse`), and one run of the program on them (`CommandLine.run`): what it
prints, the files it leaves and its exit code.  The exit code is 2 if the arguments or the backend's
name are wrong, 1 if anything after that fails, and 0 otherwise.
-/

namespace LetPrint

open Text

/-- What the arguments ask for. -/
structure Options where
  backend : Bytes := utf8 "native"
  toolchain : Bytes := []
  debug : Bool := false
  ast : Bool := false
  dump : Bool := false
  deriving DecidableEq, Repr, Inhabited

/-- What a flag sets: a text, or a switch. -/
inductive Flag where
  | text (set : Options → Bytes → Options)
  | switch (set : Options → Bool → Options)

/-- Why the arguments are not accepted. -/
inductive ArgumentFault where
  /-- Not a fault: the usage is asked for. -/
  | help
  | badSyntax (argument : Bytes)
  | undefined (name : Bytes)
  | missingValue (name : Bytes)
  | badSwitch (name value : Bytes)
  /-- Not two arguments after the flags. -/
  | count (n : Nat)
  deriving DecidableEq, Repr, Inhabited

namespace Flag

/-- The flag of a name. -/
def find? (name : Bytes) : Option Flag :=
  if name == utf8 "backend" then some (.text fun o v => { o with backend := v })
  else if name == utf8 "toolchain" then some (.text fun o v => { o with toolchain := v })
  else if name == utf8 "debug" then some (.switch fun o v => { o with debug := v })
  else if name == utf8 "ast" then some (.switch fun o v => { o with ast := v })
  else if name == utf8 "dump" then some (.switch fun o v => { o with dump := v })
  else none

/-- The truth value of a text. -/
def switchValue? (value : Bytes) : Option Bool :=
  if ["1", "t", "T", "TRUE", "true", "True"].any (utf8 · == value) then some true
  else if ["0", "f", "F", "FALSE", "false", "False"].any (utf8 · == value) then some false
  else none

/-- The part of an argument after its dashes, if the argument is a flag: it has one or two dashes
and something after them. -/
def body? (argument : Bytes) : Option Bytes :=
  match argument with
  | 0x2D :: 0x2D :: rest => some rest
  | 0x2D :: b :: rest => some (b :: rest)
  | _ => none

/-- A flag's name, and the value that stands behind a `=`.  The first byte belongs to the name. -/
def split (body : Bytes) : Bytes × Option Bytes :=
  match body with
  | [] => ([], none)
  | first :: rest =>
    match rest.dropWhile (· != byte '=') with
    | [] => (body, none)
    | _ :: value => (first :: rest.takeWhile (· != byte '='), some value)

/-- Whether what follows the dashes starts like a name. -/
def startsName (body : Bytes) : Bool :=
  match body with
  | [] => false
  | b :: _ => b != byte '-' && b != byte '='

end Flag

namespace Options

/-- Read the flags at the front of the arguments; the rest is left.  `--` ends the flags. -/
def readFlags (o : Options) : List Bytes → Except ArgumentFault (Options × List Bytes)
  | [] => .ok (o, [])
  | argument :: rest =>
    match Flag.body? argument with
    | none => .ok (o, argument :: rest)
    | some body =>
      if argument == utf8 "--" then .ok (o, rest)
      else if !Flag.startsName body then .error (.badSyntax argument)
      else
        let (name, value) := Flag.split body
        match Flag.find? name with
        | none =>
          if name == utf8 "help" || name == utf8 "h" then .error .help
          else .error (.undefined name)
        | some (.switch set) =>
          match value with
          | none => readFlags (set o true) rest
          | some value =>
            match Flag.switchValue? value with
            | some b => readFlags (set o b) rest
            | none => .error (.badSwitch name value)
        | some (.text set) =>
          match value, rest with
          | some value, rest => readFlags (set o value) rest
          | none, value :: rest => readFlags (set o value) rest
          | none, [] => .error (.missingValue name)

/-- Read the arguments: the options, the input and the output. -/
def parse (arguments : List Bytes) : Except ArgumentFault (Options × Bytes × Bytes) :=
  match readFlags {} arguments with
  | .error fault => .error fault
  | .ok (o, [input, output]) => .ok (o, input, output)
  | .ok (_, rest) => .error (.count rest.length)

end Options

namespace ArgumentFault

/-- The wording of a fault. -/
def message : ArgumentFault → Bytes
  | help => utf8 "flag: help requested"
  | badSyntax argument => utf8 "bad flag syntax: " ++ argument
  | undefined name => utf8 "flag provided but not defined: -" ++ name
  | missingValue name => utf8 "flag needs an argument: -" ++ name
  | badSwitch name value =>
    utf8 "invalid boolean value " ++ quote value ++ utf8 " for -" ++ name ++ utf8 ": parse error"
  | count n =>
    (Diagnostic.usage (utf8 "expected <input-file> <output-executable>, got " ++ decimal n
      ++ utf8 " arguments")).text

/-- Whether the fault lies in a flag, and is also told before the usage. -/
def isInFlag : ArgumentFault → Bool
  | help => false
  | count _ => false
  | _ => true

/-- The exit code after a fault. -/
def exitCode : ArgumentFault → Nat
  | help => 0
  | _ => 2

end ArgumentFault

/-- How to use the program, line by line. -/
def usageLines : List String :=
  ["Compilador Mini",
   "",
   "USO:",
   "    compiler [flags] <input-file> <output-executable>",
   "",
   "FLAGS:",
   "  -ast",
   "    \tMostra a árvore de cada statement",
   "  -backend string",
   "    \tBackend a ser usado (native, llvm, interp, vm) (default \"native\")",
   "  -debug",
   "    \tAtivar mensagens de debug",
   "  -dump",
   "    \tMostra o programa analisado",
   "  -toolchain string",
   "    \tPerfil YAML com as ferramentas e o target triple",
   "",
   "BACKENDS DISPONÍVEIS:",
   "",
   "native (padrão)",
   "    - Gera LLVM IR, emite o objeto com llc e liga com o linker do sistema",
   "    - Deixa <saida>.o ao lado do executável",
   "",
   "llvm",
   "    - Escreve o LLVM IR verificado em <output-executable>",
   "",
   "interp",
   "    - Executa o programa direto sobre a AST; a saída é ignorada",
   "",
   "vm",
   "    - Compila para bytecode de pilha e executa na VM; a saída é ignorada",
   "",
   "EXEMPLOS:",
   "    compiler prog.mini prog",
   "    compiler -backend=llvm prog.mini prog.ll",
   "    compiler -toolchain=toolchain.yaml -debug prog.mini build/prog"]

/-- The usage as text. -/
def usageText : Bytes :=
  usageLines.flatMap fun line => utf8 line ++ [newline]

/-- What a run leaves behind. -/
structure CommandLine.Result where
  exitCode : Nat
  stdout : Bytes := []
  stderr : Bytes := []
  /-- What the tools printed. -/
  toolOut : Bytes := []
  toolErr : Bytes := []
  files : FileSystem
  deriving Repr, Inhabited

namespace CommandLine

/-- The line that reports an error. -/
def errorLine (message : Bytes) : Bytes :=
  utf8 "error: " ++ message ++ utf8 "\n"

/-- What is printed about arguments that are not accepted. -/
def faultText (fault : ArgumentFault) : Bytes :=
  (if fault.isInFlag then fault.message ++ utf8 "\n" else []) ++ usageText
    ++ (if fault = .help then [] else errorLine fault.message)

/-- The result of a run that ends in a world. -/
def result (w : World) (code : Nat) (message error : Bytes) : Result :=
  { exitCode := code
    stdout := w.shown ++ w.out.written ++ message
    stderr := w.trace ++ error
    toolOut := w.toolOut
    toolErr := w.toolErr
    files := w.files }

/-- The message of what was built, on a line of its own. -/
def messageLine (message : Bytes) : Bytes :=
  if message.isEmpty then [] else message ++ utf8 "\n"

/-- The exit code of a backend that cannot be had. -/
def backendFailureCode (d : Diagnostic) : Nat :=
  if d.category = .usage then 2 else 1

/-- Compile a file with a backend. -/
def compileWith (o : Options) (backend : Backend) (input output : Bytes) (w : World) : Result :=
  match (compileFile backend { tree := o.ast, outline := o.dump } input output).runIn w with
  | (.error d, w) => result w 1 [] (errorLine d.text)
  | (.ok built, w) =>
    match built.failure with
    | some d => result w 1 [] (errorLine d.text)
    | none => result w 0 (messageLine built.artifact.message) []

/-- One run of the program on files, with tools that are processes. -/
def run (arguments : List Bytes) (files : FileSystem) : Result :=
  match Options.parse arguments with
  | .error fault => { exitCode := fault.exitCode, stderr := faultText fault, files }
  | .ok (o, input, output) =>
    let w : World := { tracing := o.debug, files, runner := .processes }
    match Profile.load files o.toolchain with
    | .error d => result w 1 [] (errorLine d.text)
    | .ok profile =>
      match (Backend.ofName o.backend profile).runIn w with
      | (.error d, w) => result w (backendFailureCode d) [] (errorLine d.text)
      | (.ok backend, w) => compileWith o backend input output w

end CommandLine

end LetPrint

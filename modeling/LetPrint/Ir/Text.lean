import LetPrint.Ir

/-!
# Modules as text

The textual form of a module.  Unnamed functions are numbered in the order of the module's list.
Unnamed parameters, blocks and results of a function share one sequence of numbers, in the order of
the text.
-/

namespace LetPrint.Ir

open Text

/-! ## Names and strings -/

/-- A byte that stands for itself inside double quotes. -/
def isPlainByte (b : UInt8) : Bool :=
  0x20 ≤ b && b ≤ 0x7E && b != byte '"' && b != byte '\\'

/-- A text inside double quotes: every byte that is not plain is `\XX`. -/
def escaped (text : Bytes) : Bytes :=
  text.flatMap fun b => if isPlainByte b then [b] else byte '\\' :: hexByte b

/-- A text in double quotes. -/
def quoted (text : Bytes) : Bytes :=
  byte '"' :: escaped text ++ [byte '"']

/-- A byte of a name that needs no quotes. -/
def isNameByte (b : UInt8) : Bool :=
  isWordByte b || b == byte '$' || b == byte '.' || b == byte '-'

/-- Whether a name could be taken for the number of an unnamed value. -/
def looksNumbered (name : Bytes) : Bool :=
  !name.isEmpty && name.all isDigit && decimalValue name < Nat.pow 2 64

/-- A name, in quotes if it has other bytes than name bytes or looks like a number. -/
def nameText (name : Bytes) : Bytes :=
  if name.all isNameByte && !looksNumbered name then name else quoted name

/-- The identifier of a function: its name, or its number if it has none; a number that is not
assigned is shown as 0. -/
def functionIdent (name : Bytes) (number : Option Nat) : Bytes :=
  byte '@' :: if name.isEmpty then decimal (number.getD 0) else nameText name

/-! ## Types -/

/-- A type. -/
def Ty.text : Ty → Bytes
  | void => utf8 "void"
  | int bits => byte 'i' :: decimal bits
  | float => utf8 "float"
  | double => utf8 "double"
  | array size element => utf8 "[" ++ decimal size ++ utf8 " x " ++ element.text ++ utf8 "]"
  | ptr target space =>
    target.text ++ (if space = 0 then [] else utf8 " addrspace(" ++ decimal space ++ utf8 ")")
      ++ utf8 "*"
  | other text => text

/-- The type of a function. -/
def Signature.text (s : Signature) : Bytes :=
  let params := s.params.map Ty.text ++ (if s.variadic then [utf8 "..."] else [])
  s.ret.text ++ utf8 " (" ++ joinWith (utf8 ", ") params ++ utf8 ")"

/-- The type of an operand. -/
def ValueTy.text : ValueTy → Bytes
  | plain ty => ty.text
  | function s => s.text ++ utf8 "*"

/-! ## Integer constants -/

/-- The share of distinct digits in a numeral. -/
def variety (digits : Bytes) : Float :=
  Float.ofNat digits.eraseDups.length / Float.ofNat digits.length

/-- The largest variety that hexadecimal digits may have, by their number. -/
def varietyCap (length : Nat) : Float :=
  let distinct := if length ≤ 6 then 2 else if length ≤ 10 then 3 else 4
  Float.ofNat distinct / Float.ofNat length

/-- Whether a number is shown in hexadecimal: it is not small, its hexadecimal digits are few, and
distinctly fewer than its decimal ones. -/
def prefersHex (n : Nat) : Bool :=
  let hex := hexDigits 0 n
  4096 ≤ n && variety hex ≤ varietyCap hex.length + 0.01
    && variety (decimal n) ≥ variety hex + 0.2

/-- An integer constant of the given width. -/
def constantText (bits : Nat) (n : Int) : Bytes :=
  if bits = 1 then (if n = 0 then utf8 "false" else utf8 "true")
  else
    match n with
    | .ofNat k => if prefersHex k then utf8 "u0x" ++ (hexDigits 0 k).map upper else decimal k
    | .negSucc _ => integer n

/-! ## Numbers of unnamed values -/

/-- The numbers of the module's unnamed functions, and of a function's unnamed parameters, blocks and
results; named ones have none, nor have results of type `void`. -/
structure Numbering where
  functions : List (Option Nat) := []
  params : List (Option Nat) := []
  blocks : List (Option Nat) := []
  results : Array (Option Nat) := #[]
  next : Nat := 0

namespace Numbering

/-- The next number, if one is needed. -/
def draw (n : Numbering) (needed : Bool) : Option Nat × Numbering :=
  if needed then (some n.next, { n with next := n.next + 1 }) else (none, n)

/-- Number a parameter. -/
def addParam (n : Numbering) (p : Param) : Numbering :=
  let (number, n) := n.draw p.name.isNone
  { n with params := n.params ++ [number] }

/-- Number the result of an instruction. -/
def addInstruction (n : Numbering) (i : Instruction) : Numbering :=
  let (number, n) := n.draw (i.name.isNone && i.operation.ty != .plain .void)
  { n with results := n.results.push number }

/-- Number a block and the results in it. -/
def addBlock (n : Numbering) (b : Block) : Numbering :=
  let (number, n) := n.draw b.name.isNone
  b.instructions.foldl addInstruction { n with blocks := n.blocks ++ [number] }

/-- The numbers of a function, with those of the module's functions. -/
def ofFunction (functions : List (Option Nat)) (f : Function) : Numbering :=
  f.blocks.foldl addBlock (f.params.foldl addParam { functions })

end Numbering

/-- The numbers of the functions without a name, from `next` on. -/
def functionNumbers (next : Nat) : List Function → List (Option Nat)
  | [] => []
  | f :: rest =>
    if f.name.isEmpty then some next :: functionNumbers (next + 1) rest
    else none :: functionNumbers next rest

/-- The identifier of a local value; one whose number is not assigned is shown as number 0. -/
def localIdent (name : Option Bytes) (number : Option Nat) : Bytes :=
  byte '%' ::
    match name with
    | some name => nameText name
    | none => decimal (number.getD 0)

/-! ## Operands and instructions -/

/-- The identifier of an operand. -/
def Operand.ident (n : Numbering) : Operand → Bytes
  | int bits value => constantText bits value
  | undef _ => utf8 "undef"
  | null _ => utf8 "null"
  | register (.named name) _ => localIdent (some name) none
  | register (.unnamed index) _ => localIdent none (n.results[index]?.join)
  | param index _ => localIdent none (n.params[index]?.join)
  | global name _ => byte '@' :: nameText name
  | function f => functionIdent f.name (n.functions[f.index]?.join)
  | other _ ident => ident

/-- An operand with its type. -/
def Operand.text (n : Numbering) (v : Operand) : Bytes :=
  v.ty.text ++ utf8 " " ++ v.ident n

/-- The name of an arithmetic instruction. -/
def Arith.name : Arith → Bytes
  | add => utf8 "add"
  | sub => utf8 "sub"
  | mul => utf8 "mul"
  | sdiv => utf8 "sdiv"
  | or => utf8 "or"

/-- The name of a relation. -/
def Predicate.name : Predicate → Bytes
  | eq => utf8 "eq"
  | ne => utf8 "ne"
  | sgt => utf8 "sgt"
  | sge => utf8 "sge"
  | slt => utf8 "slt"
  | sle => utf8 "sle"
  | ugt => utf8 "ugt"
  | uge => utf8 "uge"
  | ult => utf8 "ult"
  | ule => utf8 "ule"

/-- What a call states before its callee: the whole type of a variadic function, else the type of
the result. -/
def calleeTypeText : Operand → Bytes
  | .function f => if f.signature.variadic then f.signature.text else f.signature.ret.text
  | _ => Ty.void.text

/-- Operands, each with the text that follows it. -/
def operandsText (n : Numbering) (operands : List (Operand × Bytes)) : Bytes :=
  operands.flatMap fun (v, text) => v.ident n ++ text

/-- An operation. -/
def Operation.text (n : Numbering) : Operation → Bytes
  | alloca ty => utf8 "alloca " ++ ty.text
  | load ty source => utf8 "load " ++ ty.text ++ utf8 ", " ++ source.text n
  | store value target => utf8 "store " ++ value.text n ++ utf8 ", " ++ target.text n
  | arith op x y => op.name ++ utf8 " " ++ x.text n ++ utf8 ", " ++ y.ident n
  | icmp predicate x y =>
    utf8 "icmp " ++ predicate.name ++ utf8 " " ++ x.text n ++ utf8 ", " ++ y.ident n
  | select condition x y =>
    utf8 "select " ++ condition.text n ++ utf8 ", " ++ x.text n ++ utf8 ", " ++ y.text n
  | call callee args =>
    utf8 "call " ++ calleeTypeText callee ++ utf8 " " ++ callee.ident n ++ utf8 "("
      ++ joinWith (utf8 ", ") (args.map (Operand.text n)) ++ utf8 ")"
  | firstByte size array =>
    utf8 "getelementptr inbounds " ++ (Ty.array size (.int 8)).text ++ utf8 ", " ++ array.text n
      ++ utf8 ", i64 0, i64 0"
  | other _ text operands => text ++ operandsText n operands

/-- Whether an operation is written with its result in front.  A store, a call of a `void` function and
an unknown instruction without a result are not; any other operation on `void` operands is, though its
result has no number. -/
def Operation.showsResult : Operation → Bool
  | store _ _ => false
  | call callee args => (call callee args).ty != .plain .void
  | other ty _ _ => ty != .void
  | _ => true

/-- An instruction, with its result in front if that is shown. -/
def Instruction.text (n : Numbering) (number : Option Nat) (i : Instruction) : Bytes :=
  (if i.operation.showsResult then localIdent i.name number ++ utf8 " = " else [])
    ++ i.operation.text n

/-- A terminator. -/
def Terminator.text (n : Numbering) : Terminator → Bytes
  | ret value => utf8 "ret " ++ value.text n
  | retVoid => utf8 "ret void"
  | unreachable => utf8 "unreachable"
  | other text operands => text ++ operandsText n operands

/-! ## Blocks, functions, modules -/

/-- A line of a block. -/
private def blockLine (text : Bytes) : Bytes :=
  byte '\t' :: text ++ utf8 "\n"

/-- A block whose first instruction has the given index in the function. -/
def Block.text (n : Numbering) (number : Option Nat) (first : Nat) (b : Block) : Bytes :=
  let label := match b.name with
    | some name => nameText name
    | none => decimal (number.getD 0)
  label ++ utf8 ":\n"
    ++ (b.instructions.zipIdx first).flatMap (fun (i, index) =>
      blockLine (i.text n (n.results[index]?.join)))
    ++ b.terminator.elim [] fun t => blockLine (t.text n)

/-- Blocks from the one with the given number of instructions before it on. -/
def blocksText (n : Numbering) : Nat → List (Block × Option Nat) → List Bytes
  | _, [] => []
  | first, (b, number) :: rest =>
    b.text n number first :: blocksText n (first + b.instructions.length) rest

/-- A parameter. -/
def Param.text (number : Option Nat) (p : Param) : Bytes :=
  p.ty.text ++ utf8 " " ++ localIdent p.name number

/-- A declaration, or a definition with its blocks.  `functions` are the numbers of the module's
functions, and `number` is that of this one. -/
def Function.text (functions : List (Option Nat)) (number : Option Nat) (f : Function) : Bytes :=
  let n := Numbering.ofFunction functions f
  let params := f.params.zipIdx.map (fun (p, i) => p.text (n.params[i]?.join))
    ++ (if f.variadic then [utf8 "..."] else [])
  let header := f.ret.text ++ utf8 " " ++ functionIdent f.name number ++ utf8 "("
    ++ joinWith (utf8 ", ") params ++ utf8 ")"
  if f.blocks.isEmpty then utf8 "declare " ++ header ++ utf8 "\n"
  else
    utf8 "define " ++ header ++ utf8 " \x7b\n"
      ++ joinWith (utf8 "\n") (blocksText n 0 (f.blocks.zip n.blocks)) ++ utf8 "\x7d\n"

/-- A private constant array of bytes. -/
def Global.text (g : Global) : Bytes :=
  byte '@' :: nameText g.name ++ utf8 " = private unnamed_addr constant "
    ++ (Ty.array g.content.length (.int 8)).text ++ utf8 " c" ++ quoted g.content ++ utf8 "\n"

/-- A module: its header, its constants and its functions, with empty lines between them. -/
def Module.text (m : Module) : Bytes :=
  let header :=
    (if m.sourceName.isEmpty then [] else utf8 "source_filename = " ++ quoted m.sourceName ++ utf8 "\n")
      ++ (if m.triple.isEmpty then [] else utf8 "target triple = " ++ quoted m.triple ++ utf8 "\n")
  let globals := m.globals.flatMap Global.text
  let numbers := functionNumbers 0 m.functions
  let functions := joinWith (utf8 "\n") <|
    (m.functions.zip numbers).map fun (f, number) => f.text numbers number
  joinWith (utf8 "\n") ([header, globals, functions].filter (!·.isEmpty))

end LetPrint.Ir

import LetPrint.Ir
import LetPrint.Semantics

/-!
# From programs to modules

A program becomes one function `main` of one block.  Each `let` gets a cell of its own, named after
the variable and the number of bindings before it; a string literal becomes a constant that ends in a
zero byte; `print` calls `printf`.  Division is made of steps that are defined for all operands.
-/

namespace LetPrint.Ir

open Text

/-- The cell and the kind of a name's newest binding. -/
structure Cell where
  name : Bytes
  kind : Kind
  deriving DecidableEq, Repr

/-- The type of what a cell holds. -/
def cellTy : Kind → Ty
  | .int => .i32
  | .str => .bytePtr

/-- The address of a cell. -/
def Cell.address (c : Cell) : Operand :=
  .register (.named c.name) (.plain (.ptr (cellTy c.kind)))

/-- A word as a constant. -/
def word (n : Int32) : Operand :=
  .int 32 n.toInt

/-- The result of the unnamed instruction with the given index. -/
def result (index : Nat) (ty : Ty) : Operand :=
  .register (.unnamed index) (.plain ty)

/-- An instruction without a name. -/
def unnamed (operation : Operation) : Instruction :=
  { operation }

/-- Instructions, and the operand that they compute. -/
abbrev Fragment := List Instruction × Operand

/-- The quotient of two words, from the instruction with index `next` on.  The divisor is replaced
by 1 where division is undefined, and the result chosen afterwards. -/
def divideCode (next : Nat) (a b : Operand) : Fragment :=
  let isZero := result next .i1
  let isMinusOne := result (next + 1) .i1
  let isUndefined := result (next + 2) .i1
  let divisor := result (next + 3) .i32
  let quotient := result (next + 4) .i32
  let negated := result (next + 5) .i32
  let chosen := result (next + 6) .i32
  ([ unnamed (.icmpEq b (word 0)),
     unnamed (.icmpEq b (word (-1))),
     unnamed (.arith .or isZero isMinusOne),
     unnamed (.select isUndefined (word 1) b),
     unnamed (.arith .sdiv a divisor),
     unnamed (.arith .sub (word 0) a),
     unnamed (.select isMinusOne negated quotient),
     unnamed (.select isZero (word 0) chosen) ],
    result (next + 7) .i32)

/-- The result of an operator, from the instruction with index `next` on. -/
def operatorCode (next : Nat) (op : Operator) (a b : Operand) : Except SemanticFault Fragment :=
  let single (arith : Arith) : Fragment := ([unnamed (.arith arith a b)], result next .i32)
  match op with
  | .add => .ok (single .add)
  | .sub => .ok (single .sub)
  | .mul => .ok (single .mul)
  | .div => .ok (divideCode next a b)
  | .unknown => .error (.unknownOperator op)

/-- The value of an integer expression, from the instruction with index `next` on. -/
def exprCode (scope : Scope Cell) (next : Nat) : Expr → Except SemanticFault Fragment
  | .int n _ => .ok ([], word n)
  | .var name _ => do
    let cell ← scope.operand Cell.kind name
    return ([unnamed (.load .i32 cell.address)], result next .i32)
  | .str _ _ => .error .stringLiteral
  | .neg operand _ => do
    let (code, v) ← exprCode scope next operand
    return (code ++ [unnamed (.arith .sub (word 0) v)], result (next + code.length) .i32)
  | .bin op left right _ => do
    let (leftCode, a) ← exprCode scope next left
    let (rightCode, b) ← exprCode scope (next + leftCode.length) right
    let (opCode, v) ← operatorCode (next + leftCode.length + rightCode.length) op a b
    return (leftCode ++ rightCode ++ opCode, v)
  | .missing => .error .missingExpr

/-- A constant that holds `text` and a zero byte. -/
def textConstant (name text : Bytes) : Global :=
  { name, content := text ++ [0] }

/-- The address of the first byte of a constant. -/
def Global.firstByte (g : Global) : Operation :=
  .firstByte g.content.length (.global g.name g.content.length)

/-- The constant for printing words. -/
def wordFormat : Global := textConstant (utf8 ".fmt_int") (utf8 "%d\n")

/-- The constant for printing strings. -/
def textFormat : Global := textConstant (utf8 ".fmt_str") (utf8 "%s\n")

/-- The module made so far: its constants, the instructions of `main`, what the names stand for, and
the numbers of bindings and of string literals. -/
structure LowerState where
  globals : List Global
  code : List Instruction
  scope : Scope Cell := .empty
  bindings : Nat := 0
  literals : Nat := 0
  deriving Repr

/-- The function that prints. -/
def printfFunction : Function :=
  { name := utf8 "printf"
    ret := .i32
    params := [{ name := some (utf8 "format"), ty := .bytePtr }]
    variadic := true }

/-- The function that prints, as an operand. -/
def printf : Operand :=
  .function ⟨0, printfFunction.name, printfFunction.signature⟩

/-- The format that prints a value of the given kind; its address is computed at the start of
`main`. -/
def formatOf : Kind → Operand
  | .int => result 0 .bytePtr
  | .str => result 1 .bytePtr

namespace LowerState

/-- The state before the first statement: the two formats and their addresses. -/
def initial : LowerState :=
  { globals := [wordFormat, textFormat]
    code := [unnamed wordFormat.firstByte, unnamed textFormat.firstByte] }

/-- The cell of the next binding of a name. -/
def nextCell (s : LowerState) (name : Bytes) (kind : Kind) : Cell :=
  { name := name ++ utf8 "." ++ decimal s.bindings, kind }

/-- The value of a right-hand side, and the constant that it adds, if any. -/
def valueCode (s : LowerState) : Expr → Except SemanticFault (Fragment × Option Global)
  | .str text _ =>
    let g := textConstant (utf8 ".str" ++ decimal s.literals) text
    .ok (([unnamed g.firstByte], result s.code.length .bytePtr), some g)
  | e => (exprCode s.scope s.code.length e).map (·, none)

/-- Add the code of one statement. -/
def stmt (s : LowerState) : Stmt → Except SemanticFault LowerState
  | .bind name e _ => do
    s.scope.allow Cell.kind name e.kind
    let ((code, v), constant) ← s.valueCode e
    let cell := s.nextCell name e.kind
    let keep := [
      { name := some cell.name, operation := .alloca (cellTy e.kind) },
      unnamed (.store v cell.address)]
    return {
      globals := s.globals ++ constant.toList
      code := s.code ++ code ++ keep
      scope := s.scope.bind name cell
      bindings := s.bindings + 1
      literals := s.literals + constant.toList.length }
  | .print name _ => do
    let cell ← s.scope.subject name
    let ty := cellTy cell.kind
    let print := [
      unnamed (.load ty cell.address),
      unnamed (.call printf [formatOf cell.kind, result s.code.length ty])]
    return { s with code := s.code ++ print }
  | .foreign typeName _ => .error (.foreignStmt typeName)

/-- The finished module. -/
def finish (s : LowerState) (triple : Bytes) : Module :=
  { sourceName := utf8 "mini"
    triple
    globals := s.globals
    functions := [
      printfFunction,
      { name := utf8 "main"
        ret := .i32
        blocks := [
          { name := some (utf8 "entry")
            instructions := s.code
            terminator := some (.ret (word 0)) }] }] }

end LowerState

end LetPrint.Ir

namespace LetPrint

open Text

/-- The module of a program for a target. -/
def Program.lower (p : Program) (triple : Bytes) : Except SemanticError Ir.Module :=
  match walk Ir.LowerState.stmt 0 .initial p with
  | (s, none) => .ok (s.finish triple)
  | (_, some e) => .error e

/-- What tracing shows while a program is lowered: each statement that is begun. -/
def Program.lowerTrace (p : Program) (triple : Bytes) : Bytes :=
  let stop := (walk Ir.LowerState.stmt 0 .initial p).2
  utf8 "Gerando LLVM IR para " ++ triple ++ utf8 "...\n" ++
    (begun p stop).zipIdx.flatMap fun (stmt, i) =>
      utf8 "  Processando statement " ++ decimal (i + 1) ++ utf8 " (linha " ++ integer stmt.line
        ++ utf8 ")...\n"

end LetPrint

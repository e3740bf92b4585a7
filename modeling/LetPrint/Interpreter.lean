import LetPrint.Semantics
import LetPrint.Sink
import LetPrint.Word

/-!
# Running a program directly

The interpreter keeps a value for each name and evaluates statement by statement.  It enforces the
rules on names itself, so it also runs programs that nothing has checked.
-/

namespace LetPrint

open Text

/-- What a name stands for while a program runs. -/
inductive Value where
  | int (n : Int32)
  | str (text : Bytes)
  deriving DecidableEq, Repr

namespace Value

/-- The kind of a value. -/
def kind : Value → Kind
  | int _ => .int
  | str _ => .str

/-- What printing a value writes: its text and a newline. -/
def line : Value → Bytes
  | int n => integer n.toInt ++ [newline]
  | str text => text ++ [newline]

end Value

/-- Why a run stops. -/
inductive RunFault where
  | semantic (fault : SemanticFault)
  /-- The sink refused a write. -/
  | refused
  deriving DecidableEq, Repr

/-- The diagnostic of a stopped run. -/
def runDiagnostic (h : Halt RunFault) : Diagnostic :=
  match h.fault with
  | .semantic fault => fault.diagnostic h.line
  | .refused => Sink.refusal

/-- The result of an operator on two words. -/
def Operator.apply (op : Operator) (a b : Int32) : Except SemanticFault Int32 :=
  match op with
  | .add => .ok (a + b)
  | .sub => .ok (a - b)
  | .mul => .ok (a * b)
  | .div => .ok (divide a b)
  | .unknown => .error (.unknownOperator op)

/-- The values of the names bound so far. -/
abbrev Values := Scope Value

namespace Values

/-- The word that an integer operand stands for. -/
def operandWord (values : Values) (name : Bytes) : Except SemanticFault Int32 :=
  match values.operand Value.kind name with
  | .ok (.int n) => .ok n
  | .ok (.str _) => .error (.stringOperand name)
  | .error fault => .error fault

/-- The value of an integer expression. -/
def evaluate (values : Values) : Expr → Except SemanticFault Int32
  | .int n _ => .ok n
  | .var name _ => values.operandWord name
  | .str _ _ => .error .stringLiteral
  | .neg operand _ => do
    let n ← evaluate values operand
    return -n
  | .bin op left right _ => do
    let a ← evaluate values left
    let b ← evaluate values right
    op.apply a b
  | .missing => .error .missingExpr

/-- The value of a right-hand side. -/
def evaluateValue (values : Values) : Expr → Except SemanticFault Value
  | .str text _ => .ok (.str text)
  | e => (evaluate values e).map .int

end Values

/-- The values of the names, and the output so far. -/
structure RunState where
  values : Values := .empty
  out : Sink
  deriving Repr

namespace RunState

/-- Bind a name to the value of a right-hand side. -/
def assign (s : RunState) (name : Bytes) (e : Expr) : Except SemanticFault RunState := do
  let value ← s.values.evaluateValue e
  s.values.allow Value.kind name value.kind
  return { s with values := s.values.bind name value }

/-- Execute one statement. -/
def exec (s : RunState) : Stmt → Except RunFault RunState
  | .bind name e _ =>
    match s.assign name e with
    | .ok s' => .ok s'
    | .error fault => .error (.semantic fault)
  | .print name _ =>
    match s.values.subject name with
    | .error fault => .error (.semantic fault)
    | .ok value =>
      match s.out.write? value.line with
      | some out => .ok { s with out }
      | none => .error .refused
  | .foreign typeName _ => .error (.semantic (.foreignStmt typeName))

end RunState

/-- Run a program: the output, and where the run stopped before the end, if it did. -/
def Program.run (p : Program) (out : Sink) : Sink × Option (Halt RunFault) :=
  let (s, stop) := walk RunState.exec 0 { out } p
  (s.out, stop)

/-- What tracing shows of a run: each statement that it begins. -/
def Program.runTrace (p : Program) (stop : Option (Halt RunFault)) : Bytes :=
  utf8 "Interpretando diretamente da AST...\n" ++
    (begun p stop).zipIdx.flatMap fun (stmt, i) =>
      utf8 "--- Statement " ++ decimal (i + 1) ++ utf8 " (linha " ++ integer stmt.line
        ++ utf8 ") ---\n"

end LetPrint

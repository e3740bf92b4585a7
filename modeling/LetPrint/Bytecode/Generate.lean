import LetPrint.Bytecode
import LetPrint.Semantics

/-!
# From programs to bytecode

Each `let` gets a slot of its own, so a slot is written once; a name reads the slot of its newest
binding.  The code of an expression leaves its value on the stack.
-/

namespace LetPrint

open Text

/-- The slot and the kind of a name's newest binding. -/
structure SlotInfo where
  slot : Nat
  kind : Kind
  deriving DecidableEq, Repr

/-- The opcode of an operator. -/
def Operator.opcode (op : Operator) : Except SemanticFault Opcode :=
  match op with
  | .add => .ok .add
  | .sub => .ok .sub
  | .mul => .ok .mul
  | .div => .ok .div
  | .unknown => .error (.unknownOperator op)

/-- The chunk made so far, and what its names stand for. -/
structure CodeState where
  chunk : Chunk := {}
  scope : Scope SlotInfo := .empty
  deriving Repr

namespace CodeState

/-- The code of an integer expression in a statement on the given line. -/
def exprCode (scope : Scope SlotInfo) (line : Int) : Expr → Except SemanticFault (List Instruction)
  | .int n _ => .ok [⟨.const, n, line⟩]
  | .var name _ => do
    let info ← scope.operand SlotInfo.kind name
    return [⟨.load, Int32.ofNat info.slot, line⟩]
  | .str _ _ => .error .stringLiteral
  | .neg operand _ => do
    let code ← exprCode scope line operand
    return code ++ [⟨.neg, 0, line⟩]
  | .bin op left right _ => do
    let leftCode ← exprCode scope line left
    let rightCode ← exprCode scope line right
    let opcode ← op.opcode
    return leftCode ++ rightCode ++ [⟨opcode, 0, line⟩]
  | .missing => .error .missingExpr

/-- The code of a right-hand side, and the strings it adds to the table. -/
def valueCode (s : CodeState) (line : Int) :
    Expr → Except SemanticFault (List Instruction × List Bytes)
  | .str text _ => .ok ([⟨.str, Int32.ofNat s.chunk.strings.length, line⟩], [text])
  | e => (exprCode s.scope line e).map (·, [])

/-- Add the code of one statement. -/
def stmt (s : CodeState) : Stmt → Except SemanticFault CodeState
  | .bind name e line => do
    s.scope.allow SlotInfo.kind name e.kind
    let (code, strings) ← s.valueCode line e
    let slot := s.chunk.slots
    return {
      chunk :=
        { code := s.chunk.code ++ code ++ [⟨.store, Int32.ofNat slot, line⟩]
          strings := s.chunk.strings ++ strings
          slots := slot + 1 }
      scope := s.scope.bind name ⟨slot, e.kind⟩ }
  | .print name line => do
    let info ← s.scope.subject name
    let print := match info.kind with
      | .str => .printStr
      | .int => .printInt
    let code := [⟨.load, Int32.ofNat info.slot, line⟩, ⟨print, 0, line⟩]
    return { s with chunk := { s.chunk with code := s.chunk.code ++ code } }
  | .foreign typeName _ => .error (.foreignStmt typeName)

end CodeState

/-- The bytecode of a program; the last instruction halts. -/
def Program.chunk (p : Program) : Except SemanticError Chunk :=
  match walk CodeState.stmt 0 {} p with
  | (s, none) => .ok { s.chunk with code := s.chunk.code ++ [⟨.halt, 0, 0⟩] }
  | (_, some e) => .error e

/-- What tracing shows while bytecode is made: each statement that is begun. -/
def Program.chunkTrace (p : Program) : Bytes :=
  let stop := (walk CodeState.stmt 0 {} p).2
  utf8 "Compilando para Bytecode...\n" ++
    (begun p stop).zipIdx.flatMap fun (_, i) =>
      utf8 "  Processando statement " ++ decimal (i + 1) ++ utf8 "...\n"

end LetPrint

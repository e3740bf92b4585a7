import LetPrint.Semantics

/-!
# Checking kinds

Every name has one kind, fixed by its first binding; only a string literal makes a string, and every
operand is an integer.  The checker keeps the kinds it has learned, also those it learned from a
program that it rejected further on.
-/

namespace LetPrint

/-- The kinds of the names bound so far. -/
abbrev Kinds := Scope Kind

namespace Kinds

/-- All operands of an expression are integers. -/
def checkInt (kinds : Kinds) : Expr → Except SemanticFault Unit
  | .int _ _ => .ok ()
  | .var name _ => do
    let _ ← kinds.operand id name
    return ()
  | .str _ _ => .error .stringLiteral
  | .neg operand _ => checkInt kinds operand
  | .bin _ left right _ => do
    checkInt kinds left
    checkInt kinds right
  | .missing => .error .missingExpr

/-- Check a right-hand side. -/
def checkValue (kinds : Kinds) (e : Expr) : Except SemanticFault Unit :=
  match e.kind with
  | .str => .ok ()
  | .int => kinds.checkInt e

/-- Check one statement. -/
def checkStmt (kinds : Kinds) : Stmt → Except SemanticFault Kinds
  | .bind name value _ => do
    kinds.checkValue value
    kinds.allow id name value.kind
    return kinds.bind name value.kind
  | .print name _ => do
    let _ ← kinds.subject name
    return kinds
  | .foreign typeName _ => .error (.foreignStmt typeName)

/-- Check a program after others: the kinds known then, and the first error. -/
def check (kinds : Kinds) (p : Program) : Kinds × Option SemanticError :=
  walk checkStmt 0 kinds p

end Kinds

/-- The kinds of a program's names, or its first error. -/
def Program.kinds (p : Program) : Except SemanticError Kinds :=
  match Kinds.check .empty p with
  | (kinds, none) => .ok kinds
  | (_, some e) => .error e

end LetPrint

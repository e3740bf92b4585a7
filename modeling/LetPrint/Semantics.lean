import LetPrint.Diagnostic
import LetPrint.Program
import LetPrint.Scope

/-!
# Semantic errors

The rules that every pass over a program enforces: names are bound before they are used, a name keeps
the kind of its first binding, and operands are integers.  `walk` runs a pass statement by statement
up to its first failure.
-/

namespace LetPrint

open Text

/-- What is wrong with a statement. -/
inductive SemanticFault where
  /-- A name without a binding. -/
  | undefined (name : Bytes)
  /-- A binding of another kind than the name has. -/
  | rebound (name : Bytes) (old new : Kind)
  /-- A name that stands for a string is used as an operand. -/
  | stringOperand (name : Bytes)
  /-- A string literal is used as an operand. -/
  | stringLiteral
  /-- An operator outside the four. -/
  | unknownOperator (op : Operator)
  /-- A missing expression. -/
  | missingExpr
  /-- A statement outside the language. -/
  | foreignStmt (typeName : Bytes)
  deriving DecidableEq, Repr

/-- A name in backquotes. -/
private def named (name : Bytes) : Bytes :=
  0x60 :: name ++ [0x60]

/-- The message of a fault. -/
def SemanticFault.message : SemanticFault → Bytes
  | .undefined name => utf8 "undefined variable " ++ named name
  | .rebound name old new =>
    utf8 "type error: " ++ named name ++ utf8 " is " ++ old.name ++ utf8 ", cannot bind a "
      ++ new.name ++ utf8 " value"
  | .stringOperand name =>
    utf8 "type error: " ++ named name ++ utf8 " is a string, expected integer"
  | .stringLiteral => utf8 "type error: string literal not allowed in integer expression"
  | .unknownOperator op => utf8 "unknown operator " ++ op.symbol
  | .missingExpr => utf8 "unsupported expression <nil>"
  | .foreignStmt typeName => utf8 "unsupported statement " ++ typeName

/-- The diagnostic of a fault in a statement on the given line. -/
def SemanticFault.diagnostic (f : SemanticFault) (line : Int) : Diagnostic :=
  .report { category := .semantic, message := f.message, line }

/-! ## Rules on names -/

namespace Scope

variable {α : Type}

/-- What an operand stands for; it has to be bound, and to an integer. -/
def operand (s : Scope α) (kind : α → Kind) (name : Bytes) : Except SemanticFault α :=
  match s.find? name with
  | none => .error (.undefined name)
  | some a => if kind a = .int then .ok a else .error (.stringOperand name)

/-- What a printed name stands for; it has to be bound. -/
def subject (s : Scope α) (name : Bytes) : Except SemanticFault α :=
  match s.find? name with
  | none => .error (.undefined name)
  | some a => .ok a

/-- Whether a name may be bound to something of the given kind: it has that kind already, or
none. -/
def allow (s : Scope α) (kind : α → Kind) (name : Bytes) (new : Kind) :
    Except SemanticFault Unit :=
  match s.find? name with
  | none => .ok ()
  | some a => if kind a = new then .ok () else .error (.rebound name (kind a) new)

end Scope

/-! ## Passes -/

/-- Where and why a pass over a program stops: the statement's index, its line and the fault. -/
structure Halt (φ : Type) where
  index : Nat
  line : Int
  fault : φ
  deriving DecidableEq, Repr

/-- A semantic fault in a statement of a program. -/
abbrev SemanticError := Halt SemanticFault

/-- The diagnostic of a semantic error. -/
def SemanticError.diagnostic (e : SemanticError) : Diagnostic :=
  e.fault.diagnostic e.line

/-- Run a pass from the statement with the given index on: the state reached, and where the pass
stopped, if it did. -/
def walk {σ φ : Type} (step : σ → Stmt → Except φ σ) : Nat → σ → Program → σ × Option (Halt φ)
  | _, s, [] => (s, none)
  | index, s, stmt :: rest =>
    match step s stmt with
    | .ok s' => walk step (index + 1) s' rest
    | .error fault => (s, some ⟨index, stmt.line, fault⟩)

/-- The statements that a pass began: all up to the one where it stopped. -/
def begun {φ : Type} (p : Program) (stop : Option (Halt φ)) : Program :=
  stop.elim p fun h => p.take (h.index + 1)

end LetPrint

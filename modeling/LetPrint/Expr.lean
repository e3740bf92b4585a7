import LetPrint.Position
import LetPrint.Text.Quoted

/-!
# Expressions

The tree of a right-hand side, each node with the place of its own token.  Trees built by hand may
hold what the parser never makes: an operator outside the four, a string literal below the root, a
missing operand.
-/

namespace LetPrint

open Text

/-- A binary operator; `unknown` is none of the four. -/
inductive Operator where
  | add
  | sub
  | mul
  | div
  | unknown
  deriving DecidableEq, Repr, Inhabited

namespace Operator

/-- The operator's symbol. -/
def symbol : Operator → Bytes
  | add => utf8 "+"
  | sub => utf8 "-"
  | mul => utf8 "*"
  | div => utf8 "/"
  | unknown => utf8 "?"

/-- The operator's number. -/
def number : Operator → Nat
  | add => 0
  | sub => 1
  | mul => 2
  | div => 3
  | unknown => 4

/-- The operator with a given number. -/
def ofNumber (n : Int) : Operator :=
  if n = 0 then add
  else if n = 1 then sub
  else if n = 2 then mul
  else if n = 3 then div
  else unknown

end Operator

/-- An expression. -/
inductive Expr where
  | int (value : Int32) (pos : Position)
  | var (name : Bytes) (pos : Position)
  | str (text : Bytes) (pos : Position)
  | neg (operand : Expr) (pos : Position)
  | bin (op : Operator) (left right : Expr) (pos : Position)
  | missing
  deriving DecidableEq, Repr, Inhabited

/-- What a name stands for: an integer or a string. -/
inductive Kind where
  | int
  | str
  deriving DecidableEq, Repr, Inhabited

namespace Kind

/-- The name shown in messages. -/
def name : Kind → Bytes
  | int => utf8 "Int"
  | str => utf8 "Str"

/-- The kind's number. -/
def number : Kind → Nat
  | int => 0
  | str => 1

/-- The kind with a given number; every number but 1 is `int`. -/
def ofNumber (n : Int) : Kind :=
  if n = 1 then str else int

end Kind

namespace Expr

/-- The kind of a right-hand side: only a string literal is a string. -/
def kind : Expr → Kind
  | str _ _ => .str
  | _ => .int

/-- The expression with every operation in parentheses. -/
def render : Expr → Bytes
  | int value _ => integer value.toInt
  | var name _ => name
  | str text _ => quote text
  | neg operand _ => utf8 "(-" ++ operand.render ++ utf8 ")"
  | bin op left right _ =>
    utf8 "(" ++ left.render ++ utf8 " " ++ op.symbol ++ utf8 " " ++ right.render ++ utf8 ")"
  | missing => utf8 "%!s(<nil>)"

end Expr

end LetPrint

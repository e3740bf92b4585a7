import LetPrint.Expr

/-!
# Programs

A program is a list of statements in the order of their execution.
-/

namespace LetPrint

open Text

/-- A statement and its line.  `foreign` is a statement outside the language, known only by the name
of its type; the parser never makes one. -/
inductive Stmt where
  | bind (name : Bytes) (value : Expr) (line : Int)
  | print (name : Bytes) (line : Int)
  | foreign (typeName : Bytes) (line : Int)
  deriving DecidableEq, Repr, Inhabited

namespace Stmt

/-- The line of a statement. -/
def line : Stmt → Int
  | bind _ _ line => line
  | print _ line => line
  | foreign _ line => line

/-- The statement as source text. -/
def render : Stmt → Bytes
  | bind name value _ => utf8 "let " ++ name ++ utf8 " = " ++ value.render ++ utf8 ";"
  | print name _ => utf8 "print " ++ name ++ utf8 ";"
  | foreign typeName _ => typeName

end Stmt

/-- A sequence of statements. -/
abbrev Program := List Stmt

/-- The program as source text, one statement a line. -/
def Program.render (p : Program) : Bytes :=
  p.flatMap fun s => s.render ++ utf8 "\n"

end LetPrint

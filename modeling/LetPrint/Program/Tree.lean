import LetPrint.Drawing
import LetPrint.Program

/-!
# Drawn programs

Each statement as a tree of labels, and the drawings of a program's statements.
-/

namespace LetPrint

open Text

/-- An expression as a tree of labels.  The trees of the operands are put below their node. -/
def Expr.tree : Expr → LabelTree
  | int n _ => .leaf (integer n.toInt)
  | var name _ => .leaf name
  | str text _ => .leaf (quote text)
  | neg operand _ => (LabelTree.leaf (utf8 "neg")).addSubtree operand.tree
  | bin op left right _ =>
    ((LabelTree.leaf op.symbol).addSubtree left.tree).addSubtree right.tree
  | missing => .leaf (utf8 "ERRO")

/-- A statement as a tree of labels. -/
def Stmt.tree : Stmt → LabelTree
  | bind name value _ => (LabelTree.leaf (utf8 "let " ++ name)).addSubtree value.tree
  | print name _ => .leaf (utf8 "print " ++ name)
  | foreign _ _ => .leaf (utf8 "?")

/-- Neither operators nor statements have more than two parts. -/
theorem Expr.tree_narrow (e : Expr) : e.tree.Narrow := by
  induction e with
  | int | var | str | missing => exact .leaf _
  | neg operand _ ih => exact (LabelTree.Narrow.leaf _).addSubtree ih (by simp)
  | bin op left right _ ihLeft ihRight =>
    have hleft := (LabelTree.Narrow.leaf op.symbol).addSubtree ihLeft (by simp)
    exact hleft.addSubtree ihRight (by simp)

theorem Stmt.tree_narrow (s : Stmt) : s.tree.Narrow := by
  cases s with
  | bind name value _ => exact (LabelTree.Narrow.leaf _).addSubtree value.tree_narrow (by simp)
  | print | foreign => exact .leaf _

/-- The drawing of each statement, under its line and followed by an empty line. -/
def Program.drawn (p : Program) : Bytes :=
  p.flatMap fun s =>
    utf8 "=== line " ++ integer s.line ++ utf8 " ===\n" ++ (s.tree.draw s.tree_narrow).render
      ++ utf8 "\n"

end LetPrint

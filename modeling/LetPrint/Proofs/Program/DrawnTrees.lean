import LetPrint.Program.Tree

/-!
# What the drawn trees show

The tree of a statement is put together from the leaves up, and every node takes copies of the trees of
its operands.  `ShownBy` says which tree an expression has, one rule for each form of expression and
without any copying; `shownBy_iff` says that the copies add up to that tree.
-/

namespace LetPrint

open Text

/-- A tree shows an expression: a node for each node of the expression, with its text as the label and
the trees of its operands as children, in their order.  A missing expression is shown as `ERRO`. -/
inductive Expr.ShownBy : Expr → LabelTree → Prop where
  | int (n : Int32) (pos : Position) : ShownBy (.int n pos) (.node (integer n.toInt) [])
  | var (name : Bytes) (pos : Position) : ShownBy (.var name pos) (.node name [])
  | str (text : Bytes) (pos : Position) : ShownBy (.str text pos) (.node (quote text) [])
  | neg {operand : Expr} {t : LabelTree} (pos : Position) (h : ShownBy operand t) :
      ShownBy (.neg operand pos) (.node (utf8 "neg") [t])
  | bin {left right : Expr} {a b : LabelTree} (op : Operator) (pos : Position)
      (hleft : ShownBy left a) (hright : ShownBy right b) :
      ShownBy (.bin op left right pos) (.node op.symbol [a, b])
  | missing : ShownBy .missing (.node (utf8 "ERRO") [])

namespace Expr

theorem tree_neg (operand : Expr) (pos : Position) :
    (neg operand pos).tree = .node (utf8 "neg") [operand.tree] := by
  show (LabelTree.leaf (utf8 "neg")).addSubtree operand.tree = _
  rw [LabelTree.addSubtree_eq]
  rfl

theorem tree_bin (op : Operator) (left right : Expr) (pos : Position) :
    (bin op left right pos).tree = .node op.symbol [left.tree, right.tree] := by
  show ((LabelTree.leaf op.symbol).addSubtree left.tree).addSubtree right.tree = _
  rw [LabelTree.addSubtree_eq, LabelTree.addSubtree_eq]
  rfl

theorem shownBy_tree (e : Expr) : e.ShownBy e.tree := by
  induction e with
  | int n pos => exact .int n pos
  | var name pos => exact .var name pos
  | str text pos => exact .str text pos
  | neg operand pos ih =>
    rw [tree_neg]
    exact .neg pos ih
  | bin op left right pos ihLeft ihRight =>
    rw [tree_bin]
    exact .bin op pos ihLeft ihRight
  | missing => exact .missing

/-- One tree shows an expression, the one that is built. -/
theorem shownBy_iff {e : Expr} {t : LabelTree} : e.ShownBy t ↔ e.tree = t := by
  constructor
  · intro h
    induction h with
    | int | var | str | missing => rfl
    | neg pos _ ih => rw [tree_neg, ih]
    | bin op pos _ _ ihLeft ihRight => rw [tree_bin, ihLeft, ihRight]
  · intro h
    rw [← h]
    exact shownBy_tree e

end Expr

/-- The tree of a `let` is a root with the name and one child, the tree that shows the value. -/
theorem Stmt.tree_bind_iff (name : Bytes) (value : Expr) (line : Int) (t : LabelTree) :
    (Stmt.bind name value line).tree = t ↔
      ∃ child, t = .node (utf8 "let " ++ name) [child] ∧ value.ShownBy child := by
  have htree : (Stmt.bind name value line).tree =
      .node (utf8 "let " ++ name) [value.tree] := by
    show (LabelTree.leaf (utf8 "let " ++ name)).addSubtree value.tree = _
    rw [LabelTree.addSubtree_eq]
    rfl
  rw [htree]
  constructor
  · intro h
    exact ⟨value.tree, h.symm, value.shownBy_tree⟩
  · rintro ⟨child, rfl, hchild⟩
    rw [Expr.shownBy_iff.1 hchild]

end LetPrint

import LetPrint.Text.Bytes

/-!
# Trees of labels

A tree is built from its root: a node is made, and children are put behind those that it has.  A tree
that is there already is put below a node by copying it label by label.

* `copyChildren`, `addSubtree`: copying, child after child until there is none with the next index;
* `copyChildren_eq`, `addSubtree_eq`: a copy is the tree that was copied;
* `Narrow`: the trees that can be drawn, which have no node with more than two children.
-/

namespace LetPrint

open Text

/-- A tree whose nodes have a label and a list of children. -/
inductive LabelTree where
  | node (label : Bytes) (children : List LabelTree)
  deriving Repr, Inhabited

namespace LabelTree

/-- The label of the root. -/
def label : LabelTree → Bytes
  | node label _ => label

/-- The children of the root, from left to right. -/
def children : LabelTree → List LabelTree
  | node _ children => children

/-- A node without children. -/
def leaf (label : Bytes) : LabelTree :=
  node label []

/-- The child with the given index. -/
def child? (t : LabelTree) (i : Nat) : Option LabelTree :=
  t.children[i]?

/-- The tree with one more child, behind the others. -/
def addChild (t child : LabelTree) : LabelTree :=
  node t.label (t.children ++ [child])

/-! ## Copying -/

theorem sizeOf_lt_of_child? {t child : LabelTree} {i : Nat} (h : t.child? i = some child) :
    sizeOf child < sizeOf t := by
  cases t with
  | node label children =>
    have hmem : child ∈ children := List.mem_of_getElem? h
    have hlt := List.sizeOf_lt_of_mem hmem
    simp only [node.sizeOf_spec]
    omega

theorem lt_length_of_child? {t child : LabelTree} {i : Nat} (h : t.child? i = some child) :
    i < t.children.length :=
  (List.getElem?_eq_some_iff.1 h).1

/-- Copy the children of `source` from the one with index `i` on behind those of `target`, each with
all that is below it. -/
def copyChildren (source : LabelTree) (i : Nat) (target : LabelTree) : LabelTree :=
  match h : source.child? i with
  | none => target
  | some child =>
    copyChildren source (i + 1) (target.addChild (copyChildren child 0 (leaf child.label)))
termination_by (sizeOf source, source.children.length - i)
decreasing_by
  · exact Prod.Lex.left _ _ (sizeOf_lt_of_child? h)
  · have hlt := lt_length_of_child? h
    exact Prod.Lex.right _ (by omega)

/-- Put a copy of a tree below a node, behind the children that the node has. -/
def addSubtree (t sub : LabelTree) : LabelTree :=
  t.addChild (copyChildren sub 0 (leaf sub.label))

@[simp] theorem node_label_children (t : LabelTree) : node t.label t.children = t := by
  cases t
  rfl

/-- The loop leaves the children that were there and puts the ones from the index on behind them. -/
theorem copyChildren_eq (source : LabelTree) (i : Nat) (target : LabelTree) :
    copyChildren source i target =
      node target.label (target.children ++ source.children.drop i) := by
  fun_induction copyChildren source i target with
  | case1 source i target hnone =>
    -- No child has the index, so none is left to copy.
    have hdrop : source.children.drop i = [] := by
      apply List.drop_eq_nil_of_le
      exact List.getElem?_eq_none_iff.1 hnone
    rw [hdrop, List.append_nil, node_label_children]
  | case2 source i target child hchild ihBelow ihBehind =>
    have hcopy : copyChildren child 0 (leaf child.label) = child := by
      rw [ihBelow]
      exact node_label_children child
    have hdrop : source.children.drop i = child :: source.children.drop (i + 1) := by
      obtain ⟨hlt, hget⟩ := List.getElem?_eq_some_iff.1 hchild
      rw [List.drop_eq_getElem_cons hlt, hget]
    rw [ihBehind, hcopy, hdrop]
    simp [addChild, label, children]

/-- A subtree arrives as it is. -/
theorem addSubtree_eq (t sub : LabelTree) : t.addSubtree sub = t.addChild sub := by
  have hcopy : copyChildren sub 0 (leaf sub.label) = node sub.label sub.children :=
    copyChildren_eq sub 0 (leaf sub.label)
  rw [addSubtree, hcopy, node_label_children]

@[simp] theorem children_leaf (label : Bytes) : (leaf label).children = [] := rfl

@[simp] theorem children_addSubtree (t sub : LabelTree) :
    (t.addSubtree sub).children = t.children ++ [sub] := by
  rw [addSubtree_eq]
  rfl

/-! ## Trees that can be drawn -/

/-- No node has more than two children. -/
inductive Narrow : LabelTree → Prop where
  | node {label : Bytes} {children : List LabelTree} (count : children.length ≤ 2)
      (below : ∀ t ∈ children, Narrow t) : Narrow (node label children)

namespace Narrow

variable {label : Bytes} {children : List LabelTree}

theorem length_le (h : Narrow (.node label children)) : children.length ≤ 2 := by
  cases h with
  | node count _ => exact count

theorem of_mem {t : LabelTree} (h : Narrow (.node label children)) (ht : t ∈ children) :
    Narrow t := by
  cases h with
  | node _ below => exact below t ht

theorem leaf (label : Bytes) : Narrow (leaf label) :=
  .node (by simp) (by simp)

theorem addSubtree {t sub : LabelTree} (h : Narrow t) (hsub : Narrow sub)
    (hcount : t.children.length ≤ 1) : Narrow (t.addSubtree sub) := by
  rw [addSubtree_eq]
  cases h with
  | @node label children _ below =>
    have hlength : (children ++ [sub]).length ≤ 2 := by
      rw [List.length_append]
      exact Nat.succ_le_succ hcount
    refine .node hlength fun a ha => ?_
    rcases List.mem_append.1 ha with ha | ha
    · exact below a ha
    · rwa [List.mem_singleton.1 ha]

end Narrow

end LabelTree

end LetPrint

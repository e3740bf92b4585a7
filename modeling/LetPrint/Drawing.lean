import LetPrint.LabelTree
import LetPrint.Text.Utf8

/-!
# Drawing trees

A tree of labels is drawn with its root on top.  Each node is a box around the lines of its label; a
stem leads from the box to its child, or to a bar that spans two children.  A drawing is a list of marks on a
canvas of a given size; where two marks meet, the later one is seen.
-/

namespace LetPrint

open Text

/-- The lines of a label. -/
abbrev LabelLines := List (List Char)

namespace LabelLines

/-- The lines of a text, each as its characters. -/
def ofText (text : Bytes) : LabelLines :=
  (splitOn newline text).map chars

/-- The width of the longest line, at least 1. -/
def width (lines : LabelLines) : Nat :=
  (lines.map List.length).foldl max 1

end LabelLines

/-- A character in a column and a row of a canvas. -/
structure Mark where
  x : Nat
  y : Nat
  char : Char
  deriving DecidableEq, Repr

/-- The size of a canvas and the marks on it, in the order in which they are made. -/
structure Drawing where
  width : Nat
  height : Nat
  marks : List Mark
  deriving DecidableEq, Repr

namespace Drawing

/-- Marks moved to the right and down. -/
def shift (dx dy : Nat) (marks : List Mark) : List Mark :=
  marks.map fun m => { m with x := m.x + dx, y := m.y + dy }

/-- The same mark `n` times in a row. -/
def bar (x y n : Nat) (char : Char) : List Mark :=
  (List.range n).map fun i => ⟨x + i, y, char⟩

/-- One line of a label.  The character NUL leaves its cell empty. -/
def line (x y : Nat) (text : List Char) : List Mark :=
  (text.zipIdx.filter (·.1 != '\x00')).map fun (c, i) => ⟨x + i, y, c⟩

/-- A label in a box whose left edge is in column `x`. -/
def box (x : Nat) (label : LabelLines) : List Mark :=
  let w := label.width
  let bottom := label.length + 1
  [⟨x, 0, '╭'⟩] ++ bar (x + 1) 0 w '─' ++ [⟨x + w + 1, 0, '╮'⟩]
    ++ (label.zipIdx 1).flatMap (fun (text, y) =>
      [⟨x, y, '│'⟩] ++ line (x + 1) y text ++ [⟨x + w + 1, y, '│'⟩])
    ++ [⟨x, bottom, '╰'⟩] ++ bar (x + 1) bottom w '─' ++ [⟨x + w + 1, bottom, '╯'⟩]

/-- A box alone; the canvas has an odd width. -/
def ofLeaf (label : LabelLines) : Drawing :=
  let w := label.width
  { width := if w % 2 = 1 then w + 2 else w + 3, height := label.length + 2, marks := box 0 label }

/-- A box above one drawing. -/
def above (label : LabelLines) (child : Drawing) : Drawing :=
  let least := max (label.width + 2) child.width
  let w := if least % 2 = 0 then least + 1 else least
  let top := label.length + 3
  { width := w
    height := top + child.height
    marks :=
      box ((w - label.width) / 2 - 1) label
        ++ [⟨w / 2, top - 2, '┬'⟩, ⟨w / 2, top - 1, '│'⟩]
        ++ shift ((w - child.width) / 2) top child.marks
        ++ [⟨w / 2, top, '┴'⟩] }

/-- The bar in row `y` above two drawings, from the middle of the left one to that of the right one,
with the stem in column `stem`. -/
def fork (left right stem y : Nat) : List Mark :=
  [⟨left, y, '╭'⟩] ++ bar (left + 1) y (right - left - 1) '─' ++ [⟨right, y, '╮'⟩]
    ++ (if left < stem ∧ stem < right then [⟨stem, y, '┴'⟩] else [])

/-- A box above two drawings. -/
def aboveTwo (label : LabelLines) (a b : Drawing) : Drawing :=
  let base := a.width + 1
  let odd := (base + b.width) % 2 = 1
  let left := if odd then base else base + 1
  let inner := if odd then base + b.width else base + b.width + 1
  let w := max (label.width + 2) inner
  let move := (w - inner) / 2
  let middleA := a.width / 2 + move
  let middleB := left + b.width / 2 + move
  let top := label.length + 3
  { width := w
    height := top + max a.height b.height
    marks :=
      box ((w - label.width) / 2 - 1) label
        ++ shift move top a.marks ++ shift (left + move) top b.marks
        ++ [⟨w / 2, top - 2, '┬'⟩, ⟨middleA, top, '┴'⟩, ⟨middleB, top, '┴'⟩]
        ++ fork middleA middleB (w / 2) (top - 1) }

/-- The rows of a drawing, as wide as the canvas. -/
def rows (d : Drawing) : List (List Char) :=
  let blank := Array.replicate d.height (Array.replicate d.width ' ')
  let canvas := d.marks.foldl
    (fun canvas m => canvas.modify m.y fun row => row.setIfInBounds m.x m.char) blank
  (canvas.map Array.toList).toList

/-- The rows of a drawing, each followed by a newline. -/
def render (d : Drawing) : Bytes :=
  d.rows.flatMap fun row => encodeChars row ++ [newline]

end Drawing

/-- The drawing of a tree. -/
def LabelTree.draw : (t : LabelTree) → t.Narrow → Drawing
  | node label [], _ => .ofLeaf (.ofText label)
  | node label [child], h => .above (.ofText label) (child.draw (h.of_mem (by simp)))
  | node label [left, right], h =>
    .aboveTwo (.ofText label) (left.draw (h.of_mem (by simp))) (right.draw (h.of_mem (by simp)))
  | node _ (_ :: _ :: _ :: _), h => absurd h.length_le (by simp)

end LetPrint

import LetPrint.Program

/-!
# Outlines

A parsed program written out field by field, one level of indentation for each level of the tree.
Fields form groups: a group ends with a field whose value takes several lines, and the values of a
group start in one column.  Expressions below a fixed depth are left out.
-/

namespace LetPrint.Outline

open Text

/-- A label and its value, already written out. -/
abbrev Field := Bytes × Bytes

/-- Groups of fields whose values start in one column. -/
def groups : List Field → List (List Field)
  | [] => []
  | f :: fields =>
    if f.2.contains newline then [f] :: groups fields
    else
      match groups fields with
      | g :: rest => (f :: g) :: rest
      | [] => [[f]]

/-- The lines of one group of fields. -/
def groupLines (indent : Nat) (fields : List Field) : Bytes :=
  let width := (fields.map fun f => f.1.length).foldl max 0 + 1
  fields.flatMap fun f =>
    List.replicate indent (byte ' ') ++ padRight width f.1 ++ f.2 ++ utf8 ",\n"

/-- A record on several lines, inside text that is indented by `indent`. -/
def record (indent : Nat) (head : Bytes) (fields : List Field) : Bytes :=
  head ++ utf8 "\x7b\n" ++ (groups fields).flatMap (groupLines (indent + 4))
    ++ List.replicate indent (byte ' ') ++ utf8 "\x7d"

/-- A position, on one line. -/
def position (p : Position) : Bytes :=
  utf8 "lexer.Position\x7bLine:" ++ integer p.line ++ utf8 ", Column:" ++ integer p.column
    ++ utf8 ", Offset:" ++ decimal p.offset ++ utf8 "\x7d"

/-- The number of levels of an expression that are written out. -/
def depthLimit : Nat := 7

/-- An expression, with as many levels as are left. -/
def expr (indent : Nat) : Nat → Expr → Bytes
  | 0, _ => utf8 "&!%v(DEPTH EXCEEDED)"
  | _ + 1, .int n pos =>
    record indent (utf8 "&parser.IntLiteral")
      [(utf8 "Value:", integer n.toInt), (utf8 "Position:", position pos)]
  | _ + 1, .var name pos =>
    record indent (utf8 "&parser.VariableRef")
      [(utf8 "Name:", quote name), (utf8 "Position:", position pos)]
  | _ + 1, .str text pos =>
    record indent (utf8 "&parser.StringLiteral")
      [(utf8 "Value:", quote text), (utf8 "Position:", position pos)]
  | levels + 1, .neg operand pos =>
    record indent (utf8 "&parser.Negate")
      [(utf8 "Operand:", expr (indent + 4) levels operand), (utf8 "Position:", position pos)]
  | levels + 1, .bin op left right pos =>
    record indent (utf8 "&parser.Binary")
      [(utf8 "Left:", expr (indent + 4) levels left),
       (utf8 "Operator:", decimal op.number),
       (utf8 "Right:", expr (indent + 4) levels right),
       (utf8 "Position:", position pos)]
  | _ + 1, .missing => utf8 "nil"

/-- A statement. -/
def stmt (indent : Nat) : Stmt → Bytes
  | .bind name value line =>
    record indent (utf8 "&parser.LetStatement")
      [(utf8 "Name:", quote name),
       (utf8 "Value:", expr (indent + 4) depthLimit value),
       (utf8 "Linha:", integer line)]
  | .print name line =>
    utf8 "&parser.PrintStatement\x7bName:" ++ quote name ++ utf8 ", Linha:" ++ integer line
      ++ utf8 "\x7d"
  | .foreign typeName _ => typeName

/-- A program and its statements. -/
def program (p : Program) : Bytes :=
  if p.isEmpty then utf8 "&parser.Program\x7b\x7d"
  else
    record 0 (utf8 "&parser.Program")
      [(utf8 "Statements:",
        utf8 "\x7b\n"
          ++ (p.flatMap fun s =>
            List.replicate 8 (byte ' ') ++ stmt 8 s ++ utf8 ",\n")
          ++ List.replicate 4 (byte ' ') ++ utf8 "\x7d")]

end LetPrint.Outline

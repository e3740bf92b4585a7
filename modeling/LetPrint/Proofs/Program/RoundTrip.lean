import LetPrint.Proofs.Expr.Printing
import LetPrint.Proofs.Program.Lines
import LetPrint.Proofs.Text.Quoting
import LetPrint.Proofs.Text.Splitting

/-!
# Printed programs are read back

Printing a program and reading the text again gives the same program with one statement a line
(`Program.parse_render`), if its string literals are plain text: other bytes are printed by escapes
that literals do not have.

* `Stmt.Written`: the statements that a line can spell, and so all statements of a program that was
  read (`Program.written_of_parse`);
* `Stmt.Written.says_render`: one printed statement is read back from its line;
* `splitOn_lines`: no printed statement holds a newline, so printing leaves one line for each.
-/

namespace LetPrint

open Text

/-! ## Statements that a line can spell -/

/-- A right-hand side that a text can spell. -/
inductive Expr.WrittenValue : Expr → Prop where
  | str {text : Bytes} {pos : Position} : WrittenValue (.str text pos)
  | expr {e : Expr} (h : e.Written) : WrittenValue e

/-- A statement that a line can spell. -/
inductive Stmt.Written : Stmt → Prop where
  | bind {name : Bytes} {e : Expr} {line : Int} (hname : isName name = true)
      (hvalue : e.WrittenValue) : Written (.bind name e line)
  | print {name : Bytes} {line : Int} (hname : isName name = true) : Written (.print name line)

theorem ValueSays.written {text : Bytes} {line column : Int} {e : Expr}
    (h : ValueSays text line column e) : e.WrittenValue := by
  cases h with
  | literal htext hbody => exact .str
  | expr h => exact .expr (Expr.written_of_parse h)

theorem LineSays.written {number : Nat} {raw : Bytes} {s : Stmt}
    (h : LineSays number raw (some s)) : s.Written := by
  cases h with
  | bind hgap hne hname hgap' hrhs hline hvalue => exact .bind hname hvalue.written
  | print hgap hne hname hgap' hline => exact .print hname

theorem LinesSay.written {number : Nat} {lines : List Bytes} {said : List (Option Stmt)}
    (h : LinesSay number lines said) : ∀ s ∈ said.filterMap id, s.Written := by
  rw [LinesSay] at h
  generalize lines.zipIdx number = numbered at h
  induction h with
  | nil => nofun
  | @cons line o numbered said hline h ih =>
    cases o with
    | none => exact ih
    | some s => exact List.forall_mem_cons.2 ⟨hline.written, ih⟩

theorem Program.written_of_parse {source : Bytes} {p : Program}
    (h : Program.parse source = .ok p) : ∀ s ∈ p, s.Written := by
  obtain ⟨said, hsaid, rfl⟩ := readLines_eq_ok_iff.1 h
  exact hsaid.written

/-! ## Places -/

/-- The statement without the places in its value. -/
def Stmt.unplaced : Stmt → Stmt
  | bind name e line => .bind name e.unplaced line
  | print name line => .print name line
  | foreign typeName line => .foreign typeName line

/-- The statement on another line. -/
def Stmt.onLine (line : Int) : Stmt → Stmt
  | bind name e _ => .bind name e line
  | print name _ => .print name line
  | foreign typeName _ => .foreign typeName line

theorem Stmt.render_unplaced (s : Stmt) : s.unplaced.render = s.render := by
  cases s with
  | bind name e line => rw [unplaced, render, render, e.render_unplaced]
  | print _ _ | foreign _ _ => rfl

theorem Stmt.render_onLine (line : Int) (s : Stmt) : (s.onLine line).render = s.render := by
  cases s <;> rfl

/-! ## One statement -/

/-- The literals of a statement can be printed with the escapes that literals have. -/
def Stmt.Plain (s : Stmt) : Prop :=
  ∀ text ∈ s.literals, ∀ b ∈ text, isPlain b = true

section

variable {e : Expr} (h : e.WrittenValue) (hplain : ∀ text ∈ e.literals, ∀ b ∈ text, isPlain b = true)

include h hplain

theorem Expr.WrittenValue.solidEnds : SolidEnds e.render := by
  cases h with
  | @str text pos =>
    rw [render, quote_eq_escape (hplain text List.mem_cons_self)]
    exact .enclose (by decide) (by decide) (escape text)
  | expr h => exact h.solidEnds

theorem Expr.WrittenValue.newline_not_mem_render : newline ∉ e.render := by
  cases h with
  | @str text pos =>
    rw [render, quote_eq_escape (hplain text List.mem_cons_self)]
    have hescape := newline_not_mem_escape text
    simp only [List.mem_cons, List.mem_append, List.not_mem_nil, or_false, not_or]
    exact ⟨by decide, hescape, by decide⟩
  | expr h => exact h.newline_not_mem_render

theorem Expr.WrittenValue.says_render (line column : Int) :
    ∃ e', ValueSays e.render line column e' ∧ e'.unplaced = e.unplaced := by
  cases h with
  | @str text pos =>
    exact ⟨_, .literal (quote_eq_escape (hplain text List.mem_cons_self)) (unescape_escape text), rfl⟩
  | expr h =>
    obtain ⟨e', hparse, hunplaced⟩ := h.reads_back line column
    exact ⟨e', .expr hparse, hunplaced⟩

end

theorem blanks_space : Blanks (utf8 " ") :=
  ⟨[utf8 " "], by decide, rfl⟩

namespace Stmt.Written

variable {s : Stmt}

theorem solidEnds (h : s.Written) : SolidEnds s.render := by
  cases h with
  | @bind name e line hname hvalue =>
    exact .enclose (by decide) (by decide) (utf8 "et " ++ name ++ utf8 " = " ++ e.render)
  | @print name line hname =>
    exact .enclose (by decide) (by decide) (utf8 "rint " ++ name)

variable (h : s.Written) (hplain : s.Plain)

include h hplain

theorem newline_not_mem_render : newline ∉ s.render := by
  cases h with
  | bind hname hvalue =>
    simp only [render, List.mem_append, not_or]
    exact ⟨⟨⟨⟨by decide, newline_not_mem_of_isSolid (isSolid_of_mem_name hname)⟩, by decide⟩,
      hvalue.newline_not_mem_render hplain⟩, by decide⟩
  | print hname =>
    simp only [render, List.mem_append, not_or]
    exact ⟨⟨by decide, newline_not_mem_of_isSolid (isSolid_of_mem_name hname)⟩, by decide⟩

/-- A printed statement is read back from its line. -/
theorem says_render (number : Nat) :
    ∃ s', LineSays number s.render (some s') ∧ s'.unplaced = s.unplaced.onLine number := by
  have htrim : trim s.render = s.render := h.solidEnds.trim_self
  cases h with
  | @bind name e line hname hvalue =>
    have hends : SolidEnds e.render := hvalue.solidEnds hplain
    -- The space behind `=` belongs to the right-hand side, and trimming drops it.
    have hrhs : trim (utf8 " " ++ e.render) = e.render := by
      have htrim := hends.trim_eq blanks_space blanks_nil
      rwa [List.append_nil] at htrim
    have hline : trim (Stmt.bind name e line).render =
        utf8 "let" ++ utf8 " " ++ name ++ utf8 " " ++ utf8 "=" ++ (utf8 " " ++ e.render) ++
          utf8 ";" := by
      have hequals : utf8 " = " = utf8 " " ++ (utf8 "=" ++ utf8 " ") := rfl
      have hlet : utf8 "let " = utf8 "let" ++ utf8 " " := rfl
      rw [htrim, render, hequals, hlet]
      simp only [List.append_assoc]
    obtain ⟨e', he', hunplaced⟩ := hvalue.says_render hplain number _
    refine ⟨.bind name e' number,
      .bind isGap_space (by decide) hname isGap_space ?_ hline ?_, ?_⟩
    · rw [hrhs]
      exact hends.ne_nil
    · rw [hrhs]
      exact he'
    · rw [unplaced, hunplaced]
      rfl
  | @print name line hname =>
    refine ⟨.print name number, .print isGap_space (by decide) hname isGap_nil ?_, rfl⟩
    rw [htrim, List.append_nil]
    rfl

end Stmt.Written

/-! ## Lines -/

/-- Lines that each end in a newline are split into the lines and an empty one. -/
theorem splitOn_lines {lines : List Bytes} (h : ∀ line ∈ lines, newline ∉ line) :
    splitOn newline (lines.flatMap fun line => line ++ utf8 "\n") = lines ++ [[]] := by
  induction lines with
  | nil => rfl
  | cons line lines ih =>
    obtain ⟨hline, hlines⟩ := List.forall_mem_cons.1 h
    have hnewline : utf8 "\n" = [newline] := rfl
    rw [List.flatMap_cons, hnewline, List.append_assoc, List.singleton_append, splitOn_append_sep,
      splitOn_of_not_mem hline, ← hnewline, ih hlines, List.singleton_append, List.cons_append]

/-! ## Programs -/

/-- The statements without the places in their values, on lines counted from `number`. -/
def Program.renumbered (number : Nat) (p : Program) : Program :=
  (p.zipIdx number).map fun numbered => numbered.1.unplaced.onLine numbered.2

theorem Program.renumbered_cons (number : Nat) (s : Stmt) (p : Program) :
    Program.renumbered number (s :: p) =
      s.unplaced.onLine number :: Program.renumbered (number + 1) p := rfl

/-- Printed statements are read back from their lines, one statement a line. -/
theorem readLines_render {p : Program} (h : ∀ s ∈ p, s.Written) (hplain : ∀ s ∈ p, s.Plain)
    (number : Nat) :
    ∃ p', readLines number (p.map Stmt.render ++ [[]]) = .ok p' ∧
      p'.map Stmt.unplaced = p.renumbered number := by
  induction p generalizing number with
  | nil => exact ⟨[], rfl, rfl⟩
  | cons s p ih =>
    obtain ⟨hs, hp⟩ := List.forall_mem_cons.1 h
    obtain ⟨hsplain, hpplain⟩ := List.forall_mem_cons.1 hplain
    obtain ⟨s', hline, hs'⟩ := hs.says_render hsplain number
    obtain ⟨p', hread, hp'⟩ := ih hp hpplain (number + 1)
    refine ⟨s' :: p', ?_, ?_⟩
    · rw [List.map_cons, List.cons_append, readLines, readLine_eq_ok_iff.2 hline]
      show (readLines (number + 1) (p.map Stmt.render ++ [[]]) >>= fun statements =>
        pure ((some s').toList ++ statements)) = .ok (s' :: p')
      rw [hread]
      rfl
    · rw [List.map_cons, hs', hp', Program.renumbered_cons]

/-- Neither places nor numbers of lines show in the print. -/
theorem Program.render_of_renumbered {number : Nat} {p p' : Program}
    (h : p'.map Stmt.unplaced = p.renumbered number) : p'.render = p.render := by
  have hunplaced : Program.render (p'.map Stmt.unplaced) = p'.render := by
    simp only [render, List.flatMap_map, Stmt.render_unplaced]
  have hrenumbered : (p.renumbered number).render = p.render := by
    simp only [render, renumbered, List.flatMap_map, Stmt.render_onLine, Stmt.render_unplaced]
    rw [← List.flatMap_map Prod.fst fun s : Stmt => s.render ++ utf8 "\n", List.zipIdx_map_fst]
  rw [← hunplaced, h, hrenumbered]

/-- A program that was read is printed to a text that is read back, if its literals are plain: the
statements are the same, places apart, each on the line of its number, and printing them again gives
the same text. -/
theorem Program.parse_render {source : Bytes} {p : Program} (h : Program.parse source = .ok p)
    (hplain : ∀ s ∈ p, ∀ text ∈ s.literals, ∀ b ∈ text, isPlain b = true) :
    ∃ p', Program.parse p.render = .ok p' ∧ p'.map Stmt.unplaced = p.renumbered 1 ∧
      p'.render = p.render := by
  have hwritten : ∀ s ∈ p, s.Written := written_of_parse h
  have hlines : ∀ line ∈ p.map Stmt.render, newline ∉ line := by
    intro line hline
    obtain ⟨s, hs, rfl⟩ := List.mem_map.1 hline
    exact (hwritten s hs).newline_not_mem_render (hplain s hs)
  have hsplit : splitOn newline p.render = p.map Stmt.render ++ [[]] := by
    rw [render, ← splitOn_lines hlines, List.flatMap_map]
  obtain ⟨p', hread, hp'⟩ := readLines_render hwritten hplain 1
  rw [← hsplit] at hread
  exact ⟨p', hread, hp', render_of_renumbered hp'⟩

/-- A comment, an empty line, an indented line, an expression and a string literal with escapes. -/
def untidySource : Bytes :=
  utf8 "// sum\n\n\tlet x= 7 -y;\nlet s = \"a\\\"\\n;\" ;\nprint s;"

/-- The program that it spells. -/
def untidy : Program :=
  [.bind (utf8 "x") (.bin .sub (.int 7 ⟨3, 9, 0⟩) (.var (utf8 "y") ⟨3, 12, 3⟩) ⟨3, 11, 2⟩) 3,
   .bind (utf8 "s") (.str (utf8 "a\"\n;") ⟨4, 9, 0⟩) 4,
   .print (utf8 "s") 5]

theorem parse_untidySource : Program.parse untidySource = .ok untidy := by
  have hint : (Cursor.start (utf8 "7 -y") 3 9).next =
      (.ok ⟨.int, utf8 "7", ⟨3, 9, 0⟩⟩, { rest := utf8 " -y", position := ⟨3, 10, 1⟩ }) := rfl
  have hminus : ({ rest := utf8 " -y", position := ⟨3, 10, 1⟩ } : Cursor).next =
      (.ok ⟨.minus, utf8 "-", ⟨3, 11, 2⟩⟩, { rest := utf8 "y", position := ⟨3, 12, 3⟩ }) := rfl
  have hname : ({ rest := utf8 "y", position := ⟨3, 12, 3⟩ } : Cursor).next =
      (.ok ⟨.ident, utf8 "y", ⟨3, 12, 3⟩⟩, { rest := [], position := ⟨3, 13, 4⟩ }) := rfl
  have heof : ({ rest := [], position := ⟨3, 13, 4⟩ } : Cursor).next =
      (.ok ⟨.eof, [], ⟨3, 13, 4⟩⟩, { rest := [], position := ⟨3, 13, 4⟩, ended := true }) := rfl
  have hexpr : Expr.parse (utf8 "7 -y") 3 9 =
      .ok (.bin .sub (.int 7 ⟨3, 9, 0⟩) (.var (utf8 "y") ⟨3, 12, 3⟩) ⟨3, 11, 2⟩) := by
    rw [Expr.parse_eq_read, Cursor.scan_token hint (by decide),
      Cursor.scan_token hminus (by decide), Cursor.scan_token hname (by decide), Cursor.scan_eof heof rfl]
    rfl
  have hescape : escape (utf8 "a\"\n;") = utf8 "a\\\"\\n;" := by decide
  have hbody : unescape (utf8 "a\\\"\\n;") = .ok (utf8 "a\"\n;") := by
    rw [← hescape, unescape_escape]
  have hliteral : readValue (utf8 "\"a\\\"\\n;\"") 4 9 = .ok (.str (utf8 "a\"\n;") ⟨4, 9, 0⟩) :=
    readValue_eq_ok_iff.2 (.literal rfl hbody)
  have hline₃ : readLine 3 (utf8 "\tlet x= 7 -y;") =
      (Expr.parse (utf8 "7 -y") 3 9).map fun e => some (.bind (utf8 "x") e 3) := rfl
  have hline₄ : readLine 4 (utf8 "let s = \"a\\\"\\n;\" ;") =
      (readValue (utf8 "\"a\\\"\\n;\"") 4 9).map fun e => some (.bind (utf8 "s") e 4) := rfl
  have hsplit : splitOn newline untidySource =
      [utf8 "// sum", [], utf8 "\tlet x= 7 -y;", utf8 "let s = \"a\\\"\\n;\" ;", utf8 "print s;"] :=
    rfl
  rw [Program.parse, hsplit, readLines, readLines, readLines, readLines, hline₃, hexpr, hline₄,
    hliteral]
  rfl

theorem Program.parse_render_untidy :
    Program.parse untidySource = .ok untidy ∧
      untidy.render = utf8 "let x = (7 - y);\nlet s = \"a\\\"\\n;\";\nprint s;\n" ∧
      ∃ p', Program.parse untidy.render = .ok p' ∧ p'.map Stmt.unplaced = untidy.renumbered 1 ∧
        p'.render = untidy.render := by
  have hplain : ∀ s ∈ untidy, ∀ text ∈ s.literals, ∀ b ∈ text, isPlain b = true := by
    have hall : (untidy.all fun s => s.literals.all fun text => text.all isPlain) = true := by decide
    simpa only [List.all_eq_true] using hall
  exact ⟨parse_untidySource, by decide +kernel, parse_render parse_untidySource hplain⟩

end LetPrint

import LetPrint.Program.Parser
import LetPrint.Proofs.Expr.Parsing
import LetPrint.Proofs.Text.Literals
import LetPrint.Proofs.Text.Trim
import Mathlib.Data.List.Forall2

/-!
# What the lines of a program say

The grammar of lines, beside the reader of lines.

* `LineShape.of_cases`: a trimmed line is skipped, is `let name = body;` or `print name;` with blanks
  where they may stand, or has no form.  The body goes up to the last semicolon, so it may itself hold
  semicolons, quotes and `=`.
* `ValueSays`: a right-hand side is a body between double quotes, or an expression.  No expression
  starts with a double quote, so no text is both.
* `LineSays`: the statement of a line, if it has one.
* `readLine_eq_ok_iff`, `Program.parse_iff_lines`: a line and a program are read exactly as the grammar
  says.

Three kinds of white space meet here.  White space around a line and around a right-hand side may be
any that `trim` drops (`Blanks`); between the words of a statement stand only space, tab, carriage
return and form feed (`IsGap`); in an expression a newline may stand too.  The trimmed right-hand side
starts with a visible byte (`ValueSays.head`), so searching for it in the line finds the place where
it stands.
-/

namespace LetPrint

open Text

/-! ## Words and blanks -/

theorem splitWord_append {name rest : Bytes} (hname : isName name = true)
    (hend : EndsRun isWordByte rest) : splitWord (name ++ rest) = (name, rest) := by
  have hall := isWordByte_of_isName hname
  obtain ⟨b, name, rfl, hstart⟩ := exists_cons_of_isName hname
  rw [List.cons_append, splitWord, if_pos hstart, ← List.cons_append, takeWhile_run hall hend,
    dropWhile_run hall hend]

/-- A text starts with a name and something that does not go on with it, or with no name. -/
theorem splitWord_spec (text : Bytes) :
    splitWord text = ([], text) ∨
      ∃ name rest, splitWord text = (name, rest) ∧ isName name = true ∧
        EndsRun isWordByte rest ∧ text = name ++ rest := by
  cases text with
  | nil => exact .inl rfl
  | cons b text =>
    cases hstart : isWordStart b with
    | false =>
      refine .inl ?_
      rw [splitWord, hstart, if_neg Bool.false_ne_true]
    | true =>
      refine .inr ⟨_, _, ?_, isName_takeWhile hstart text, endsRun_dropWhile isWordByte (b :: text),
        List.takeWhile_append_dropWhile.symm⟩
      rw [splitWord, if_pos hstart]

theorem isEmpty_of_isName {name : Bytes} (h : isName name = true) : name.isEmpty = false := by
  obtain ⟨b, name, rfl, -⟩ := exists_cons_of_isName h
  rfl

/-- Blanks between the words of a statement. -/
def IsGap (gap : Bytes) : Prop :=
  ∀ b ∈ gap, isBlankInLine b = true

theorem isGap_nil : IsGap [] := by
  intro b hb
  cases hb

theorem isGap_space : IsGap (utf8 " ") := by
  intro b hb
  rw [List.mem_singleton.1 hb]
  rfl

/-- A name does not go on into blanks. -/
theorem IsGap.endsRun {gap rest : Bytes} (h : IsGap gap)
    (hrest : gap = [] → EndsRun isWordByte rest) : EndsRun isWordByte (gap ++ rest) := by
  cases gap with
  | nil => exact hrest rfl
  | cons b gap =>
    have hb := isBlankInLine_iff.1 (h b List.mem_cons_self)
    refine endsRun_cons ?_ _
    rw [Bool.eq_false_iff, Ne, isWordByte_iff, isWordStart_iff, isDigit_iff]
    omega

/-- A text starts with no name, or with a name, blanks, and something that does not go on with
them. -/
theorem splitWord_gap (text : Bytes) :
    splitWord text = ([], text) ∨
      ∃ name gap rest, isName name = true ∧ IsGap gap ∧ EndsRun isBlankInLine rest ∧
        splitWord text = (name, gap ++ rest) ∧ text = name ++ (gap ++ rest) := by
  rcases splitWord_spec text with hsplit | ⟨name, rest, hsplit, hname, -, htext⟩
  · exact .inl hsplit
  · have hparts := @List.takeWhile_append_dropWhile _ isBlankInLine rest
    refine .inr ⟨name, rest.takeWhile isBlankInLine, rest.dropWhile isBlankInLine, hname, ?_,
      endsRun_dropWhile isBlankInLine rest, ?_, ?_⟩
    · exact fun b hb => List.all_eq_true.1 List.all_takeWhile b hb
    · rw [hparts, hsplit]
    · rw [hparts, htext]

theorem endsRun_of_isName {name : Bytes} (h : isName name = true) (rest : Bytes) :
    EndsRun isBlankInLine (name ++ rest) := by
  obtain ⟨b, name, rfl, hstart⟩ := exists_cons_of_isName h
  refine endsRun_cons ?_ _
  rw [isWordStart_iff] at hstart
  rw [Bool.eq_false_iff, Ne, isBlankInLine_iff]
  omega

/-! ## The form of a line -/

/-- A line that says nothing. -/
def IsSkipped (text : Bytes) : Prop :=
  text = [] ∨ utf8 "//" <+: text

theorem not_isSkipped_of_isName {name : Bytes} (h : isName name = true) (rest : Bytes) :
    ¬IsSkipped (name ++ rest) := by
  obtain ⟨b, name, rfl, hstart⟩ := exists_cons_of_isName h
  rintro (hnil | ⟨tail, htail⟩)
  · cases hnil
  · have hslash : byte '/' = b := (List.cons.inj htail).1
    rw [← hslash] at hstart
    cases hstart

namespace LineShape

theorem skips_iff {text : Bytes} :
    (text.isEmpty || (utf8 "//").isPrefixOf text) = true ↔ IsSkipped text := by
  rw [Bool.or_eq_true, List.isEmpty_iff, List.isPrefixOf_iff_prefix]
  rfl

/-- A line that starts with a keyword and blanks. -/
theorem of_keyword {keyword gap rest : Bytes} (hkeyword : isName keyword = true)
    (hgap : IsGap gap) (hne : gap ≠ []) (hrest : EndsRun isBlankInLine rest) :
    of (keyword ++ (gap ++ rest)) =
      if keyword = utf8 "let" then ofBinding (keyword ++ (gap ++ rest)) rest
      else if keyword = utf8 "print" then ofPrinting rest
      else unrecognized := by
  have hskip := not_isSkipped_of_isName hkeyword (gap ++ rest)
  have hword : EndsRun isWordByte (gap ++ rest) := hgap.endsRun fun hnil => absurd hnil hne
  have hsplit := splitWord_append hkeyword hword
  have hdrop : (gap ++ rest).dropWhile isBlankInLine = rest := dropWhile_run hgap hrest
  rw [of, if_neg (mt skips_iff.1 hskip), hsplit]
  cases gap with
  | nil => exact absurd rfl hne
  | cons b gap =>
    have hb : isBlankInLine b = true := hgap b List.mem_cons_self
    simp only [List.cons_append, hb, if_true, beq_iff_eq]
    rw [← List.cons_append, hdrop]

/-- Every other line is skipped or has no form. -/
theorem of_spec (text : Bytes) :
    IsSkipped text ∨ of text = unrecognized ∨
      ∃ keyword gap rest, isName keyword = true ∧ IsGap gap ∧ gap ≠ [] ∧
        EndsRun isBlankInLine rest ∧ text = keyword ++ (gap ++ rest) := by
  by_cases hskip : IsSkipped text
  · exact .inl hskip
  refine .inr ?_
  rw [of, if_neg (mt skips_iff.1 hskip)]
  rcases splitWord_gap text with hsplit | ⟨keyword, gap, rest, hkeyword, hgap, hrest, hsplit, rfl⟩
  · refine .inl ?_
    rw [hsplit]
    cases text with
    | nil => rfl
    | cons b text =>
      cases hb : isBlankInLine b with
      | false => simp only [hb, Bool.false_eq_true, if_false]
      | true =>
        have hlet : (([] : Bytes) == utf8 "let") = false := rfl
        have hprint : (([] : Bytes) == utf8 "print") = false := rfl
        simp only [hb, hlet, hprint, if_true, Bool.false_eq_true, if_false]
  · cases gap with
    | cons b gap => exact .inr ⟨keyword, b :: gap, rest, hkeyword, hgap, nofun, hrest, rfl⟩
    | nil =>
      refine .inl ?_
      rw [hsplit]
      cases rest with
      | nil => rfl
      | cons b rest =>
        have hb : isBlankInLine b = false := hrest b rfl
        simp only [List.nil_append, hb, Bool.false_eq_true, if_false]

/-- A body and a semicolon are more than a semicolon between white space if the body is no white
space. -/
theorem trim_semicolon {body : Bytes} :
    trim (body ++ utf8 ";") = utf8 ";" ↔ trim body = [] := by
  have hsolid : isSolid (byte ';') = true := by decide
  have hend : trimEnd (body ++ utf8 ";") = body ++ utf8 ";" := trimEnd_of_solid hsolid body
  rw [trim_eq_nil_iff, trim, hend]
  constructor
  · intro h
    obtain ⟨⟨before, hbefore, htext⟩, -⟩ := trimStart_spec (body ++ utf8 ";")
    rw [h] at htext
    rwa [← List.append_cancel_right htext]
  · intro h
    rw [trimStart_append h]
    exact trimStart_of_solid hsolid []

/-- The form of what stands behind `let` and its blanks. -/
theorem ofBinding_eq {name gap body : Bytes} (hname : isName name = true) (hgap : IsGap gap)
    (hbody : trim body ≠ []) (text : Bytes) :
    ofBinding text (name ++ (gap ++ (utf8 "=" ++ (body ++ utf8 ";")))) =
      binding name body (text.length - (body ++ utf8 ";").length) := by
  have hend : EndsRun isBlankInLine (utf8 "=" ++ (body ++ utf8 ";")) := endsRun_cons rfl _
  have hword : EndsRun isWordByte (gap ++ (utf8 "=" ++ (body ++ utf8 ";"))) :=
    hgap.endsRun fun _ => endsRun_cons rfl _
  have hlast : (body ++ utf8 ";").getLast? = some (byte ';') := List.getLast?_concat
  have hdrop : (body ++ utf8 ";").dropLast = body := List.dropLast_concat
  have htrim : trim (body ++ utf8 ";") ≠ utf8 ";" := mt trim_semicolon.1 hbody
  have hsymbol : utf8 "=" ++ (body ++ utf8 ";") = byte '=' :: (body ++ utf8 ";") := rfl
  rw [ofBinding, splitWord_append hname hword]
  simp only [isEmpty_of_isName hname, Bool.false_eq_true, if_false, dropWhile_run hgap hend]
  rw [hsymbol]
  simp only [hlast, beq_self_eq_true, Bool.true_and, bne_iff_ne, ne_eq, htrim, not_false_eq_true,
    if_true, hdrop]

/-- Nothing else may stand there. -/
theorem ofBinding_cases (text rest : Bytes) :
    ofBinding text rest = unrecognized ∨
      ∃ name gap body, isName name = true ∧ IsGap gap ∧ trim body ≠ [] ∧
        rest = name ++ (gap ++ (utf8 "=" ++ (body ++ utf8 ";"))) := by
  rw [ofBinding]
  rcases splitWord_gap rest with hsplit | ⟨name, gap, rest, hname, hgap, hrest, hsplit, rfl⟩
  · rw [hsplit]
    exact .inl rfl
  rw [hsplit]
  simp only [isEmpty_of_isName hname, Bool.false_eq_true, if_false, dropWhile_run hgap hrest]
  cases rest with
  | nil => exact .inl rfl
  | cons b body =>
    by_cases hcond :
        (b == byte '=' && body.getLast? == some (byte ';') && trim body != utf8 ";") = true
    · simp only [Bool.and_eq_true, beq_iff_eq, bne_iff_ne] at hcond
      obtain ⟨⟨rfl, hlast⟩, htrim⟩ := hcond
      obtain ⟨body, rfl⟩ := List.getLast?_eq_some_iff.1 hlast
      exact .inr ⟨name, gap, body, hname, hgap, mt trim_semicolon.2 htrim, rfl⟩
    · exact .inl (if_neg hcond)

/-- The form of what stands behind `print` and its blanks. -/
theorem ofPrinting_eq {name gap tail : Bytes} (hname : isName name = true) (hgap : IsGap gap)
    (htail : Blanks tail) : ofPrinting (name ++ (gap ++ (utf8 ";" ++ tail))) = printing name := by
  have hend : EndsRun isBlankInLine (utf8 ";" ++ tail) := endsRun_cons rfl _
  have hword : EndsRun isWordByte (gap ++ (utf8 ";" ++ tail)) :=
    hgap.endsRun fun _ => endsRun_cons rfl _
  have hsymbol : utf8 ";" ++ tail = byte ';' :: tail := rfl
  rw [ofPrinting, splitWord_append hname hword]
  simp only [isEmpty_of_isName hname, Bool.false_eq_true, if_false, dropWhile_run hgap hend]
  rw [hsymbol]
  simp only [trim_eq_nil_iff.2 htail, beq_self_eq_true, List.isEmpty_nil, Bool.and_self, if_true]

/-- Nothing else may stand there. -/
theorem ofPrinting_cases (rest : Bytes) :
    ofPrinting rest = unrecognized ∨
      ∃ name gap tail, isName name = true ∧ IsGap gap ∧ Blanks tail ∧
        rest = name ++ (gap ++ (utf8 ";" ++ tail)) := by
  rw [ofPrinting]
  rcases splitWord_gap rest with hsplit | ⟨name, gap, rest, hname, hgap, hrest, hsplit, rfl⟩
  · rw [hsplit]
    exact .inl rfl
  rw [hsplit]
  simp only [isEmpty_of_isName hname, Bool.false_eq_true, if_false, dropWhile_run hgap hrest]
  cases rest with
  | nil => exact .inl rfl
  | cons b tail =>
    by_cases hcond : (b == byte ';' && (trim tail).isEmpty) = true
    · simp only [Bool.and_eq_true, beq_iff_eq, List.isEmpty_iff, trim_eq_nil_iff] at hcond
      obtain ⟨rfl, htail⟩ := hcond
      exact .inr ⟨name, gap, tail, hname, hgap, htail, rfl⟩
    · exact .inl (if_neg hcond)

theorem of_skipped {text : Bytes} (h : IsSkipped text) : of text = skipped := by
  rw [of, if_pos (skips_iff.2 h)]

theorem of_binding {gap name gap' body : Bytes} (hgap : IsGap gap) (hne : gap ≠ [])
    (hname : isName name = true) (hgap' : IsGap gap') (hbody : trim body ≠ []) :
    of (utf8 "let" ++ gap ++ name ++ gap' ++ utf8 "=" ++ body ++ utf8 ";") =
      binding name body (utf8 "let" ++ gap ++ name ++ gap' ++ utf8 "=").length := by
  have hrest := endsRun_of_isName hname (gap' ++ (utf8 "=" ++ (body ++ utf8 ";")))
  have hof := of_keyword (by decide : isName (utf8 "let") = true) hgap hne hrest
  simp only [List.append_assoc]
  rw [hof, if_pos rfl, ofBinding_eq hname hgap' hbody]
  congr 1
  simp only [List.length_append]
  omega

theorem of_printing {gap name gap' tail : Bytes} (hgap : IsGap gap) (hne : gap ≠ [])
    (hname : isName name = true) (hgap' : IsGap gap') (htail : Blanks tail) :
    of (utf8 "print" ++ gap ++ name ++ gap' ++ utf8 ";" ++ tail) = printing name := by
  have hrest := endsRun_of_isName hname (gap' ++ (utf8 ";" ++ tail))
  have hof := of_keyword (by decide : isName (utf8 "print") = true) hgap hne hrest
  simp only [List.append_assoc]
  rw [hof, if_neg (by decide), if_pos rfl, ofPrinting_eq hname hgap' htail]

/-- A line is skipped, binds a name, prints a name, or has no form. -/
theorem of_cases (text : Bytes) :
    IsSkipped text ∨ of text = unrecognized ∨
      (∃ gap name gap' body, IsGap gap ∧ gap ≠ [] ∧ isName name = true ∧ IsGap gap' ∧
        trim body ≠ [] ∧
        text = utf8 "let" ++ gap ++ name ++ gap' ++ utf8 "=" ++ body ++ utf8 ";") ∨
      ∃ gap name gap' tail, IsGap gap ∧ gap ≠ [] ∧ isName name = true ∧ IsGap gap' ∧
        Blanks tail ∧ text = utf8 "print" ++ gap ++ name ++ gap' ++ utf8 ";" ++ tail := by
  rcases of_spec text with hskip | hnone |
    ⟨keyword, gap, rest, hkeyword, hgap, hne, hrest, rfl⟩
  · exact .inl hskip
  · exact .inr (.inl hnone)
  refine .inr ?_
  rw [of_keyword hkeyword hgap hne hrest]
  by_cases hlet : keyword = utf8 "let"
  · rw [if_pos hlet]
    rcases ofBinding_cases (keyword ++ (gap ++ rest)) rest with
      hnone | ⟨name, gap', body, hname, hgap', hbody, rfl⟩
    · exact .inl hnone
    · refine .inr (.inl ⟨gap, name, gap', body, hgap, hne, hname, hgap', hbody, ?_⟩)
      simp only [hlet, List.append_assoc]
  rw [if_neg hlet]
  by_cases hprint : keyword = utf8 "print"
  · rw [if_pos hprint]
    rcases ofPrinting_cases rest with hnone | ⟨name, gap', tail, hname, hgap', htail, rfl⟩
    · exact .inl hnone
    · refine .inr (.inr ⟨gap, name, gap', tail, hgap, hne, hname, hgap', htail, ?_⟩)
      simp only [hprint, List.append_assoc]
  · exact .inl (if_neg hprint)

end LineShape

/-! ## The value of a right-hand side -/

/-- A right-hand side that starts at the given line and column says the value: it is a body between
double quotes, or an expression. -/
inductive ValueSays (text : Bytes) (line column : Int) : Expr → Prop where
  | literal {body value : Bytes} (htext : text = byte '"' :: (body ++ [byte '"']))
      (hbody : unescape body = .ok value) : ValueSays text line column (.str value ⟨line, column, 0⟩)
  | expr {e : Expr} (h : Expr.parse text line column = .ok e) : ValueSays text line column e

/-- The first byte of an expression is a blank or visible, and no double quote. -/
theorem Lexes.head {b : UInt8} {rest : Bytes} {ts : List Terminal} (h : Lexes (b :: rest) ts) :
    isBlankInExpr b = true ∨ isSolid b = true ∧ b ≠ byte '"' := by
  have hquote : (byte '"').toNat = 34 := rfl
  rw [isSolid_iff, Ne, ← UInt8.toNat_inj, hquote]
  obtain ⟨start, tokens, hreaches, -⟩ := h
  rcases front_cases (b :: rest) with
    hnil | ⟨b', rest', htext, hb⟩ | ⟨kind, text, rest', htext, hlexeme⟩ | ⟨fault, hfaulty⟩
  · cases hnil
  · cases htext
    exact .inl hb
  · right
    cases hlexeme with
    | int hdigits hend =>
      obtain ⟨d, digits, rfl, hdigit⟩ := exists_cons_of_isNumeral hdigits
      cases htext
      rw [isDigit_iff] at hdigit
      omega
    | ident hname hend =>
      obtain ⟨d, name, rfl, hstart⟩ := exists_cons_of_isName hname
      cases htext
      rw [isWordStart_iff] at hstart
      omega
    | symbol hb rest' =>
      cases htext
      have hnumber := toNat_of_ofByte? hb
      omega
  · -- Reading would stop at once.
    have hscan := hreaches.scan_end
    rw [Reaches.nil.scan_faulty hfaulty] at hscan
    cases hscan

theorem Expr.head_of_parse {b : UInt8} {rest : Bytes} {line column : Int} {e : Expr}
    (h : Expr.parse (b :: rest) line column = .ok e) :
    isBlankInExpr b = true ∨ isSolid b = true ∧ b ≠ byte '"' := by
  obtain ⟨d, hlexes, -⟩ := Expr.parse_iff_lexes.1 ⟨e, h, rfl⟩
  exact hlexes.head

theorem readValue_eq_ok_iff {text : Bytes} {line column : Int} {e : Expr} :
    readValue text line column = .ok e ↔ ValueSays text line column e := by
  rw [readValue]
  by_cases hliteral : isLiteral text = true
  · rw [if_pos hliteral]
    obtain ⟨body, rfl⟩ := isLiteral_iff.1 hliteral
    rw [unquote_literal]
    constructor
    · intro h
      cases hbody : unescape body with
      | error fault =>
        rw [hbody] at h
        cases h
      | ok value =>
        rw [hbody] at h
        cases h
        exact .literal rfl hbody
    · intro h
      cases h with
      | literal htext hbody =>
        obtain rfl := List.append_cancel_right (List.cons.inj htext).2
        rw [hbody]
      | expr h =>
        -- No expression starts with a double quote.
        rcases Expr.head_of_parse h with hblank | ⟨-, hne⟩
        · exact absurd hblank (by decide)
        · exact absurd rfl hne
  · rw [if_neg hliteral]
    constructor
    · exact .expr
    · intro h
      cases h with
      | literal htext hbody => exact absurd (isLiteral_iff.2 ⟨_, htext⟩) hliteral
      | expr h => exact h

/-- A trimmed right-hand side that says a value starts with a visible byte. -/
theorem ValueSays.head {rhs : Bytes} {line column : Int} {e : Expr} (hne : trim rhs ≠ [])
    (h : ValueSays (trim rhs) line column e) :
    ∃ b, (trim rhs).head? = some b ∧ isSolid b = true := by
  cases h with
  | literal htext hbody => exact ⟨byte '"', by rw [htext]; rfl, by decide⟩
  | expr h =>
    obtain ⟨b, rest, hrest⟩ := List.exists_cons_of_ne_nil hne
    have hnot := isBlankInExpr_of_trim hrest
    rw [hrest] at h ⊢
    rcases Expr.head_of_parse h with hblank | ⟨hsolid, -⟩
    · rw [hnot] at hblank
      cases hblank
    · exact ⟨b, rfl, hsolid⟩

/-! ## What a line says -/

/-- The line with the given number says nothing or the statement. -/
inductive LineSays (number : Nat) (raw : Bytes) : Option Stmt → Prop where
  | empty (h : trim raw = []) : LineSays number raw none
  | comment (h : utf8 "//" <+: trim raw) : LineSays number raw none
  | bind {gap name gap' rhs : Bytes} {e : Expr} (hgap : IsGap gap) (hne : gap ≠ [])
      (hname : isName name = true) (hgap' : IsGap gap') (hrhs : trim rhs ≠ [])
      (hline : trim raw = utf8 "let" ++ gap ++ name ++ gap' ++ utf8 "=" ++ rhs ++ utf8 ";")
      -- The column of the value is counted in the line as it was before trimming.
      (hvalue : ValueSays (trim rhs) number
        (indentation raw + (utf8 "let" ++ gap ++ name ++ gap' ++ utf8 "=").length +
          indentation rhs + 1 : Nat) e) :
      LineSays number raw (some (.bind name e number))
  | print {gap name gap' : Bytes} (hgap : IsGap gap) (hne : gap ≠ []) (hname : isName name = true)
      (hgap' : IsGap gap') (hline : trim raw = utf8 "print" ++ gap ++ name ++ gap' ++ utf8 ";") :
      LineSays number raw (some (.print name number))

/-- Reading a line that binds a name is reading its right-hand side. -/
theorem readLine_binding {number : Nat} {raw gap name gap' rhs : Bytes} {o : Option Stmt}
    (hgap : IsGap gap) (hne : gap ≠ []) (hname : isName name = true) (hgap' : IsGap gap')
    (hrhs : trim rhs ≠ [])
    (hline : trim raw = utf8 "let" ++ gap ++ name ++ gap' ++ utf8 "=" ++ rhs ++ utf8 ";") :
    readLine number raw = .ok o ↔
      ∃ e, ValueSays (trim rhs) number
        (indentation raw + (utf8 "let" ++ gap ++ name ++ gap' ++ utf8 "=").length +
          indentation rhs + 1 : Nat) e ∧ some (.bind name e number) = o := by
  have hindent : indexOf? (trim raw) raw = some (indentation raw) :=
    indexOf?_trim (b := byte 'l') (by rw [hline]; rfl) (by decide)
  have hindex : ∀ {column : Int} {e : Expr}, ValueSays (trim rhs) number column e →
      indexOf? (trim rhs) rhs = some (indentation rhs) := by
    intro column e hvalue
    obtain ⟨b, hb, hsolid⟩ := hvalue.head hrhs
    exact indexOf?_trim hb hsolid
  have hof := LineShape.of_binding hgap hne hname hgap' hrhs
  rw [← hline] at hof
  rw [readLine, hof]
  generalize (utf8 "let" ++ gap ++ name ++ gap' ++ utf8 "=").length = start
  have hcolumn : indentation raw + 1 + start + indentation rhs =
      indentation raw + start + indentation rhs + 1 := by omega
  simp only [hindent, Option.getD_some, map_eq_ok, readValue_eq_ok_iff]
  constructor
  · rintro ⟨e, hvalue, ho⟩
    rw [hindex hvalue, Option.getD_some, hcolumn] at hvalue
    exact ⟨e, hvalue, ho⟩
  · rintro ⟨e, hvalue, ho⟩
    refine ⟨e, ?_, ho⟩
    rwa [hindex hvalue, Option.getD_some, hcolumn]

theorem readLine_eq_ok_iff {number : Nat} {raw : Bytes} {o : Option Stmt} :
    readLine number raw = .ok o ↔ LineSays number raw o := by
  constructor
  · intro h
    rcases LineShape.of_cases (trim raw) with hskip | hnone |
      ⟨gap, name, gap', rhs, hgap, hne, hname, hgap', hrhs, hline⟩ |
      ⟨gap, name, gap', tail, hgap, hne, hname, hgap', htail, hline⟩
    · rw [readLine, LineShape.of_skipped hskip] at h
      cases h
      rcases hskip with hempty | hcomment
      · exact .empty hempty
      · exact .comment hcomment
    · rw [readLine, hnone] at h
      cases h
    · obtain ⟨e, hvalue, rfl⟩ := (readLine_binding hgap hne hname hgap' hrhs hline).1 h
      exact .bind hgap hne hname hgap' hrhs hline hvalue
    · obtain ⟨-, -, hend⟩ := trim_spec raw
      rw [readLine, hline, LineShape.of_printing hgap hne hname hgap' htail] at h
      cases h
      -- White space behind the semicolon would have been trimmed.
      rw [hline] at hend
      have hnil : tail = [] := htail.eq_nil hend
      refine .print hgap hne hname hgap' ?_
      rw [hline, hnil, List.append_nil]
  · intro h
    cases h with
    | empty h => rw [readLine, LineShape.of_skipped (.inl h)]
    | comment h => rw [readLine, LineShape.of_skipped (.inr h)]
    | bind hgap hne hname hgap' hrhs hline hvalue =>
      exact (readLine_binding hgap hne hname hgap' hrhs hline).2 ⟨_, hvalue, rfl⟩
    | print hgap hne hname hgap' hline =>
      have hof := LineShape.of_printing hgap hne hname hgap' blanks_nil
      rw [List.append_nil, ← hline] at hof
      rw [readLine, hof]

/-! ## What a program says -/

/-- The lines, the first of which has the given number, say these things. -/
def LinesSay (number : Nat) (lines : List Bytes) (said : List (Option Stmt)) : Prop :=
  List.Forall₂ (fun line o => LineSays line.2 line.1 o) (lines.zipIdx number) said

theorem readLines_eq_ok_iff {number : Nat} {lines : List Bytes} {p : Program} :
    readLines number lines = .ok p ↔ ∃ said, LinesSay number lines said ∧ p = said.filterMap id := by
  induction lines generalizing number p with
  | nil =>
    rw [readLines, Except.ok.injEq]
    constructor
    · rintro rfl
      exact ⟨[], .nil, rfl⟩
    · rintro ⟨said, hsaid, rfl⟩
      cases hsaid
      rfl
  | cons raw lines ih =>
    have hcons : ∀ (o : Option Stmt) (said : List (Option Stmt)),
        o.toList ++ said.filterMap id = (o :: said).filterMap id := by
      intro o said
      cases o <;> rfl
    simp only [readLines, bind_eq_ok, pure_eq_ok, readLine_eq_ok_iff, ih]
    constructor
    · rintro ⟨o, ho, _, ⟨said, hsaid, rfl⟩, rfl⟩
      exact ⟨o :: said, .cons ho hsaid, hcons o said⟩
    · rintro ⟨_, hsaid, rfl⟩
      cases hsaid with
      | @cons _ o _ said ho hsaid => exact ⟨o, ho, _, ⟨said, hsaid, rfl⟩, hcons o said⟩

/-- Every statement is said by a line. -/
theorem LinesSay.exists_line {number : Nat} {lines : List Bytes} {said : List (Option Stmt)}
    (h : LinesSay number lines said) {s : Stmt} (hs : s ∈ said.filterMap id) :
    ∃ k raw, lines[k]? = some raw ∧ LineSays (number + k) raw (some s) := by
  induction lines generalizing number said with
  | nil =>
    cases h
    cases hs
  | cons raw lines ih =>
    cases h with
    | @cons _ o _ said ho hsaid =>
      have hcases : o = some s ∨ s ∈ said.filterMap id := by
        cases o with
        | none => exact .inr hs
        | some first =>
          rcases List.mem_cons.1 hs with rfl | hs
          · exact .inl rfl
          · exact .inr hs
      rcases hcases with rfl | hs
      · exact ⟨0, raw, rfl, ho⟩
      · obtain ⟨k, raw', hraw', hsays⟩ := ih hsaid hs
        refine ⟨k + 1, raw', hraw', ?_⟩
        rwa [Nat.add_right_comm, Nat.add_assoc] at hsays

/-- A source text is read to a program if and only if each of its lines, without the white space
around it, is empty, a comment, a binding or a printing statement.  The program holds, in their
order, the statements of the lines that are not skipped, each with the number of its line. -/
theorem Program.parse_iff_lines (source : Bytes) (p : Program) :
    Program.parse source = .ok p ↔
      ∃ said, LinesSay 1 (splitOn newline source) said ∧ p = said.filterMap id :=
  readLines_eq_ok_iff

end LetPrint

import LetPrint.Proofs.Expr.Printing
import LetPrint.Proofs.Program.Lines
import LetPrint.Proofs.Text.Quoting
import LetPrint.Proofs.Text.Splitting
import LetPrint.Proofs.Token.Places

/-!
# Where the parts of a program stand

Every node of an expression that was read carries the place of its own token in the source
(`Program.parse_places`).

A node leaves one *mark* in the text: its digits, its name or a symbol.  The marks of an expression,
in the order in which they are written (`Expr.marks`), are those of the tokens that it was read from
(`Expr.marks_of_parse`): the reader keeps the marks of all that it has read, and each token adds its
own (`ExprReader.marks_step`).  The tokens lie in the text by `Reaches.stands`, and the text lies
in its line by the grammar of lines, behind blanks that may have several bytes each.
-/

namespace LetPrint

open Text

/-! ## Marks -/

/-- What a node is in the source. -/
inductive SourceMark where
  | number (n : Int32)
  | name (name : Bytes)
  | symbol (text : Bytes)
  deriving DecidableEq, Repr

/-- A mark stands between two parts of a text: a number as a run of digits that is no part of a
longer one, a name as a word that does not go on. -/
inductive SourceMark.Stands : Bytes → Bytes → SourceMark → Prop where
  | number {before digits rest : Bytes} {n : Int32} (hne : digits ≠ [])
      (hdigits : ∀ b ∈ digits, isDigit b = true) (hbefore : EndsRun isDigit before.reverse)
      (hrest : EndsRun isDigit rest) (hvalue : n.toInt = decimalValue digits) :
      Stands before (digits ++ rest) (.number n)
  | name {name rest : Bytes} (before : Bytes) (hname : isName name = true)
      (hrest : EndsRun isWordByte rest) : Stands before (name ++ rest) (.name name)
  | symbol (before text rest : Bytes) : Stands before (text ++ rest) (.symbol text)

/-- The marks of an expression with their places, from left to right: a minus before its operand,
and an operator between its operands. -/
def Expr.marks : Expr → List (SourceMark × Position)
  | .int n pos => [(.number n, pos)]
  | .var name pos => [(.name name, pos)]
  | .str _ pos => [(.symbol (utf8 "\""), pos)]
  | .neg operand pos => (.symbol (utf8 "-"), pos) :: operand.marks
  | .bin op left right pos => left.marks ++ (.symbol op.symbol, pos) :: right.marks
  | .missing => []

/-- The mark of a token; parentheses leave none. -/
def Token.mark? (t : Token) : Option (SourceMark × Position) :=
  match t.kind with
  | .int => some (.number t.value, t.position)
  | .ident => some (.name t.text, t.position)
  | .plus => some (.symbol (utf8 "+"), t.position)
  | .minus => some (.symbol (utf8 "-"), t.position)
  | .star => some (.symbol (utf8 "*"), t.position)
  | .slash => some (.symbol (utf8 "/"), t.position)
  | .lparen | .rparen | .eof => none

/-! ## The marks of what was read -/

/-- The marks of an operation that waits for its right operand. -/
def Pending.marks : Option Pending → List (SourceMark × Position)
  | none => []
  | some p => p.left.marks ++ [(.symbol p.op.symbol, p.pos)]

/-- The marks of minuses that wait for their operand, the innermost first. -/
def minusMarks (minuses : List Position) : List (SourceMark × Position) :=
  minuses.reverse.map fun pos => (.symbol (utf8 "-"), pos)

/-- The marks of the incomplete part of an expression. -/
def Group.marks (g : Group) : List (SourceMark × Position) :=
  Pending.marks g.sum ++ Pending.marks g.product ++ minusMarks g.minuses

/-- The marks of all that a reader has read. -/
def ExprReader.marks : ExprReader → List (SourceMark × Position)
  | operand g outer => outer.reverse.flatMap Group.marks ++ g.marks
  | operator sum value outer =>
    outer.reverse.flatMap Group.marks ++ Pending.marks sum ++ value.marks

theorem Pending.marks_close (p : Option Pending) (e : Expr) :
    (Pending.close p e).marks = Pending.marks p ++ e.marks := by
  cases p with
  | none => rfl
  | some p => simp [Pending.close, Pending.marks, Expr.marks]

theorem marks_foldl_neg (minuses : List Position) (e : Expr) :
    (minuses.foldl Expr.neg e).marks = minusMarks minuses ++ e.marks := by
  induction minuses generalizing e with
  | nil => rfl
  | cons pos minuses ih => simp [ih, minusMarks, Expr.marks]

namespace ExprReader

theorem marks_supply (g : Group) (outer : List Group) (e : Expr) :
    (supply g outer e).marks = (operand g outer).marks ++ e.marks := by
  simp [supply, marks, Group.closeProduct, Group.marks, Pending.marks_close, marks_foldl_neg]

/-- A token adds its mark to those of what was read before. -/
theorem marks_step {r r' : ExprReader} {t : Token} (h : r.step t = .ok r') :
    r'.marks = r.marks ++ t.mark?.toList := by
  cases r with
  | operand g outer =>
    rw [step] at h
    split at h
    next hkind =>
      cases h
      simp [marks_supply, Token.mark?, hkind, Expr.marks]
    next hkind =>
      cases h
      simp [marks_supply, Token.mark?, hkind, Expr.marks]
    next hkind =>
      cases h
      simp [marks, Group.marks, minusMarks, Token.mark?, hkind]
    next hkind =>
      cases h
      simp [marks, Group.marks, Pending.marks, minusMarks, Token.mark?, hkind]
    next => cases h
  | operator sum value outer =>
    simp only [step] at h
    split at h
    next hkind =>
      cases h
      simp [marks, Group.marks, Pending.marks, minusMarks, Token.mark?, hkind, Operator.symbol]
    next hkind =>
      cases h
      simp [marks, Group.marks, Pending.marks, minusMarks, Token.mark?, hkind, Operator.symbol]
    next hkind =>
      cases h
      simp [marks, Group.marks, Pending.marks, Pending.marks_close, minusMarks, Token.mark?, hkind,
        Operator.symbol]
    next hkind =>
      cases h
      simp [marks, Group.marks, Pending.marks, Pending.marks_close, minusMarks, Token.mark?, hkind,
        Operator.symbol]
    next hkind =>
      cases outer with
      | nil => cases h
      | cons g outer =>
        cases h
        rw [marks_supply, Pending.marks_close]
        simp [marks, Token.mark?, hkind]
    next => cases h

theorem marks_foldlM {r r' : ExprReader} {ts : List Token} (h : ts.foldlM step r = .ok r') :
    r'.marks = r.marks ++ ts.filterMap Token.mark? := by
  induction ts generalizing r with
  | nil =>
    cases h
    rw [List.filterMap_nil, List.append_nil]
  | cons t ts ih =>
    rw [List.foldlM_cons, bind_eq_ok] at h
    obtain ⟨r₁, hstep, hrest⟩ := h
    rw [ih hrest, marks_step hstep, List.append_assoc]
    cases hmark : t.mark? with
    | none => simp [hmark]
    | some mark => simp [hmark]

end ExprReader

/-- The marks of an expression are those of the tokens that it was read from. -/
theorem Expr.marks_of_parse {text : Bytes} {line column : Int} {e : Expr}
    (h : Expr.parse text line column = .ok e) :
    e.marks = (Cursor.start text line column).scan.tokens.filterMap Token.mark? := by
  rw [Expr.parse_eq_read, ExprReader.read, bind_eq_ok] at h
  obtain ⟨r, hfold, h⟩ := h
  rw [bind_eq_ok] at h
  obtain ⟨last, -, h⟩ := h
  have hmarks := ExprReader.marks_foldlM hfold
  cases r with
  | operand g outer => cases h
  | operator sum value outer =>
    cases outer with
    | cons g outer => cases h
    | nil =>
      cases h
      rw [Pending.marks_close]
      exact hmarks

/-! ## Marks in a line -/

/-- The mark of a token of one byte is that byte. -/
theorem Token.mark?_symbol {b : UInt8} {kind : TokenKind} {pos pos' : Position} {mark : SourceMark}
    (hb : TokenKind.ofByte? b = some kind)
    (hmark : Token.mark? ⟨kind, [b], pos⟩ = some (mark, pos')) :
    mark = .symbol [b] := by
  unfold TokenKind.ofByte? at hb
  split at hb
  case h_5 =>
    cases hb
    cases hmark
  case h_6 =>
    cases hb
    cases hmark
  case h_7 => cases hb
  all_goals
    next hc =>
      cases hb
      cases hmark
      rw [eq_byte_of_ofUInt8 hc]
      rfl

theorem Token.mark?_position {t : Token} {mark : SourceMark} {pos : Position}
    (h : t.mark? = some (mark, pos)) : pos = t.position := by
  unfold Token.mark? at h
  split at h <;> cases h <;> rfl

/-- The mark of a token stands where the token does, whatever is around the text. -/
theorem Token.Stands.mark {start : Position} {before rest front back : Bytes} {t : Token}
    {mark : SourceMark} {pos : Position} (h : t.Stands start before rest)
    (hmark : t.mark? = some (mark, pos)) (hfront : EndsRun isDigit front.reverse)
    (hback : EndsRun isWordByte back) :
    mark.Stands (front ++ before) (t.text ++ (rest ++ back)) := by
  obtain ⟨-, hlexeme, hnumber, -⟩ := h
  obtain ⟨kind, text, position⟩ := t
  cases hlexeme with
  | int hdigits hend =>
    cases hmark
    have hbefore : EndsRun isDigit (front ++ before).reverse := by
      rw [List.reverse_append]
      exact (hnumber rfl).digits.append hfront
    have hvalue := toInt_ofNat_of_isNumeral hdigits
    simp only [isNumeral, Bool.and_eq_true, List.all_eq_true] at hdigits
    obtain ⟨⟨hne, hall⟩, -⟩ := hdigits
    refine .number ?_ hall hbefore (hend.append hback.digits) hvalue
    rintro rfl
    cases hne
  | ident hname hend =>
    cases hmark
    exact .name _ hname (hend.append hback)
  | symbol hb rest =>
    rw [mark?_symbol hb hmark]
    exact .symbol _ _ _

/-- The marks of an expression stand in a line at their columns, and the columns go up. -/
structure Expr.StandsIn (line : Int) (raw : Bytes) (e : Expr) : Prop where
  stands : ∀ mark pos, (mark, pos) ∈ e.marks → pos.line = line ∧
    ∃ before after, raw = before ++ after ∧ pos.column = (before.length + 1 : Nat) ∧
      mark.Stands before after
  increasing : e.marks.Pairwise fun m m' => m.2.column < m'.2.column

/-- The marks of an expression stand in every line that its text is part of. -/
theorem Expr.standsIn_of_parse {line : Int} {front text back : Bytes} {e : Expr}
    (h : Expr.parse text line (front.length + 1 : Nat) = .ok e) (hline : newline ∉ text)
    (hfront : EndsRun isDigit front.reverse) (hback : EndsRun isWordByte back) :
    e.StandsIn line (front ++ (text ++ back)) := by
  obtain ⟨reached, left, hreaches⟩ : ∃ reached left,
      Reaches ⟨line, (front.length + 1 : Nat), 0⟩ text reached left
        (Cursor.start text line (front.length + 1 : Nat)).scan.tokens :=
    Cursor.exists_reaches _ text
  have hplace : ∀ t ∈ (Cursor.start text line (front.length + 1 : Nat)).scan.tokens,
      ∃ before rest, text = before ++ (t.text ++ rest) ∧
        t.Stands ⟨line, (front.length + 1 : Nat), 0⟩ before rest ∧
        t.position = ⟨line, (front.length + 1 : Nat) + before.length, before.length⟩ := by
    intro t ht
    obtain ⟨before, rest, htext, hstands⟩ := hreaches.stands ht
    have hbefore : newline ∉ before := fun hmem => hline (by rw [htext]; simp [hmem])
    refine ⟨before, rest, htext, hstands, ?_⟩
    rw [hstands.position, Position.past_of_line hbefore, Nat.zero_add]
  constructor
  · intro mark pos hmem
    rw [marks_of_parse h] at hmem
    obtain ⟨t, ht, hmark⟩ := List.mem_filterMap.1 hmem
    obtain ⟨before, rest, htext, hstands, hposition⟩ := hplace t ht
    rw [Token.mark?_position hmark, hposition]
    refine ⟨rfl, front ++ before, t.text ++ (rest ++ back), ?_, ?_,
      hstands.mark hmark hfront hback⟩
    · rw [htext]
      simp only [List.append_assoc]
    · show ((front.length + 1 : Nat) : Int) + before.length = _
      rw [List.length_append]
      omega
  · rw [marks_of_parse h, List.pairwise_filterMap]
    refine (hreaches.increasing rfl).imp_of_mem ?_
    rintro t t' ht ht' hlt ⟨mark, pos⟩ hmark ⟨mark', pos'⟩ hmark'
    obtain ⟨before, -, -, -, hposition⟩ := hplace t ht
    obtain ⟨before', -, -, -, hposition'⟩ := hplace t' ht'
    rw [hposition, hposition'] at hlt
    rw [Token.mark?_position hmark, Token.mark?_position hmark', hposition, hposition']
    have hlength : before.length < before'.length := hlt
    show ((front.length + 1 : Nat) : Int) + before.length <
      (front.length + 1 : Nat) + before'.length
    omega

/-! ## Lines of a source -/

/-- No word goes on into white space, nor into a semicolon behind it. -/
theorem endsRun_blanks {blanks : Bytes} (h : Blanks blanks) (after : Bytes) :
    EndsRun isWordByte (blanks ++ (utf8 ";" ++ after)) := by
  refine EndsRun.append (fun b hb => ?_) (endsRun_cons rfl after)
  have hnot := h.not_isSolid (List.mem_of_mem_head? hb)
  exact Bool.eq_false_iff.2 fun hword => by simp [isSolid_of_isWordByte hword] at hnot

/-- No digit stands at the end of white space, nor of an equals sign before it. -/
theorem endsRun_reverse_blanks {blanks : Bytes} (h : Blanks blanks) (before : Bytes) :
    EndsRun isDigit (before ++ (utf8 "=" ++ blanks)).reverse := by
  rw [List.reverse_append, List.reverse_append, List.append_assoc]
  refine EndsRun.append (fun b hb => ?_) (endsRun_cons rfl before.reverse)
  have hnot := h.not_isSolid (List.mem_reverse.1 (List.mem_of_mem_head? hb))
  refine Bool.eq_false_iff.2 fun hdigit => ?_
  rw [isSolid_of_isWordByte (isWordByte_iff.2 (.inr hdigit))] at hnot
  cases hnot

/-- The value of a right-hand side stands in every line that its text is part of. -/
theorem ValueSays.standsIn {line : Int} {front text back : Bytes} {e : Expr}
    (h : ValueSays text line (front.length + 1 : Nat) e) (hline : newline ∉ text)
    (hfront : EndsRun isDigit front.reverse) (hback : EndsRun isWordByte back) :
    e.StandsIn line (front ++ (text ++ back)) := by
  cases h with
  | @literal body value htext hbody =>
    refine ⟨?_, List.pairwise_singleton _ _⟩
    intro mark pos hmem
    cases List.mem_singleton.1 hmem
    refine ⟨rfl, front, text ++ back, rfl, rfl, ?_⟩
    rw [htext]
    exact .symbol front (utf8 "\"") (body ++ [byte '"'] ++ back)
  | expr h => exact Expr.standsIn_of_parse h hline hfront hback

/-- The value of a line stands in the line. -/
theorem LineSays.standsIn {number : Nat} {raw name : Bytes} {e : Expr} {line : Int}
    (h : LineSays number raw (some (.bind name e line))) (hraw : newline ∉ raw) :
    line = number ∧ e.StandsIn number raw := by
  cases h with
  | @bind gap _ gap' rhs _ hgap hne hname hgap' hrhs hline hvalue =>
    refine ⟨rfl, ?_⟩
    have hhead : (trim raw).head? = some (byte 'l') := by
      rw [hline]
      rfl
    obtain ⟨before, after, -, -, htext, hindent⟩ := trim_indentation hhead (by decide)
    obtain ⟨b, hb, hsolid⟩ := hvalue.head hrhs
    obtain ⟨before', after', hbefore', hafter', hrhs', hindent'⟩ := trim_indentation hb hsolid
    generalize trim rhs = value at hvalue hrhs'
    generalize trim raw = trimmed at hline htext
    subst hrhs' hline
    -- What stands before the value has the length that its column was counted from.
    have hcolumn : indentation raw + (utf8 "let" ++ gap ++ name ++ gap' ++ utf8 "=").length +
        indentation (before' ++ value ++ after') + 1 =
          (before ++ (utf8 "let" ++ gap ++ name ++ gap') ++ (utf8 "=" ++ before')).length + 1 := by
      rw [hindent, hindent']
      simp only [List.length_append]
      omega
    have hsplit : raw = before ++ (utf8 "let" ++ gap ++ name ++ gap') ++ (utf8 "=" ++ before') ++
        (value ++ (after' ++ (utf8 ";" ++ after))) := by
      rw [htext]
      simp only [List.append_assoc]
    have hvalueLine : newline ∉ value := fun hmem => hraw (by rw [hsplit]; simp [hmem])
    rw [hcolumn] at hvalue
    rw [hsplit]
    exact hvalue.standsIn hvalueLine (endsRun_reverse_blanks hbefore' _)
      (endsRun_blanks hafter' after)

/-- Every node of an expression that was read carries the place of its own token: the line is that
of the statement, in the line as it was before trimming the node's mark stands behind as many bytes as
its column says, and the columns go up in the order in which the marks are written. -/
theorem Program.parse_places {source : Bytes} {p : Program} (h : Program.parse source = .ok p)
    {name : Bytes} {e : Expr} {line : Int} (hs : .bind name e line ∈ p) :
    ∃ k raw, (splitOn newline source)[k]? = some raw ∧ line = (k + 1 : Nat) ∧
      e.StandsIn line raw := by
  obtain ⟨said, hsaid, rfl⟩ := readLines_eq_ok_iff.1 h
  obtain ⟨k, raw, hraw, hsays⟩ := hsaid.exists_line hs
  have hline := not_mem_of_mem_splitOn (List.mem_of_getElem? hraw)
  obtain ⟨rfl, hstands⟩ := hsays.standsIn hline
  exact ⟨k, raw, hraw, by rw [Nat.add_comm], hstands⟩

/-- A source whose second line is indented and spaced by white space of two and of three bytes. -/
def spacedSource : Bytes :=
  utf8 "// sum\n\u00a0let x =\u2003-(10+ y) ;"

/-- The expression of its second line. -/
def spacedExpr : Expr :=
  .neg (.bin .add (.int 10 ⟨2, 15, 2⟩) (.var (utf8 "y") ⟨2, 19, 6⟩) ⟨2, 17, 4⟩) ⟨2, 13, 0⟩

theorem parse_spacedSource :
    Program.parse spacedSource = .ok [.bind (utf8 "x") spacedExpr 2] := by
  have hminus : (Cursor.start (utf8 "-(10+ y)") 2 13).next =
      (.ok ⟨.minus, utf8 "-", ⟨2, 13, 0⟩⟩,
        { rest := utf8 "(10+ y)", position := ⟨2, 14, 1⟩ }) := rfl
  have hopen : ({ rest := utf8 "(10+ y)", position := ⟨2, 14, 1⟩ } : Cursor).next =
      (.ok ⟨.lparen, utf8 "(", ⟨2, 14, 1⟩⟩,
        { rest := utf8 "10+ y)", position := ⟨2, 15, 2⟩ }) := rfl
  have hint : ({ rest := utf8 "10+ y)", position := ⟨2, 15, 2⟩ } : Cursor).next =
      (.ok ⟨.int, utf8 "10", ⟨2, 15, 2⟩⟩, { rest := utf8 "+ y)", position := ⟨2, 17, 4⟩ }) := rfl
  have hplus : ({ rest := utf8 "+ y)", position := ⟨2, 17, 4⟩ } : Cursor).next =
      (.ok ⟨.plus, utf8 "+", ⟨2, 17, 4⟩⟩, { rest := utf8 " y)", position := ⟨2, 18, 5⟩ }) := rfl
  have hname : ({ rest := utf8 " y)", position := ⟨2, 18, 5⟩ } : Cursor).next =
      (.ok ⟨.ident, utf8 "y", ⟨2, 19, 6⟩⟩, { rest := utf8 ")", position := ⟨2, 20, 7⟩ }) := rfl
  have hclose : ({ rest := utf8 ")", position := ⟨2, 20, 7⟩ } : Cursor).next =
      (.ok ⟨.rparen, utf8 ")", ⟨2, 20, 7⟩⟩, { rest := [], position := ⟨2, 21, 8⟩ }) := rfl
  have heof : ({ rest := [], position := ⟨2, 21, 8⟩ } : Cursor).next =
      (.ok ⟨.eof, [], ⟨2, 21, 8⟩⟩, { rest := [], position := ⟨2, 21, 8⟩, ended := true }) := rfl
  have hexpr : Expr.parse (utf8 "-(10+ y)") 2 13 = .ok spacedExpr := by
    rw [Expr.parse_eq_read, Cursor.scan_token hminus (by decide), Cursor.scan_token hopen (by decide),
      Cursor.scan_token hint (by decide), Cursor.scan_token hplus (by decide),
      Cursor.scan_token hname (by decide), Cursor.scan_token hclose (by decide),
      Cursor.scan_eof heof rfl]
    rfl
  have hrhs : trim (utf8 "\u2003-(10+ y) ") = utf8 "-(10+ y)" := by decide +kernel
  have hline : trim (utf8 "\u00a0let x =\u2003-(10+ y) ;") =
      utf8 "let" ++ utf8 " " ++ utf8 "x" ++ utf8 " " ++ utf8 "=" ++ utf8 "\u2003-(10+ y) " ++
        utf8 ";" := by decide +kernel
  have hcolumn : indentation (utf8 "\u00a0let x =\u2003-(10+ y) ;") +
      (utf8 "let" ++ utf8 " " ++ utf8 "x" ++ utf8 " " ++ utf8 "=").length +
        indentation (utf8 "\u2003-(10+ y) ") + 1 = 13 := by decide +kernel
  have hsecond : readLine 2 (utf8 "\u00a0let x =\u2003-(10+ y) ;") =
      .ok (some (.bind (utf8 "x") spacedExpr 2)) := by
    refine readLine_eq_ok_iff.2 (.bind isGap_space (by decide) (by decide) isGap_space ?_ hline ?_)
    · rw [hrhs]
      exact List.cons_ne_nil _ _
    · rw [hrhs, hcolumn]
      exact .expr hexpr
  have hfirst : readLine 1 (utf8 "// sum") = .ok none := rfl
  have hsplit : splitOn newline spacedSource =
      [utf8 "// sum", utf8 "\u00a0let x =\u2003-(10+ y) ;"] := by decide +kernel
  rw [Program.parse, hsplit, readLines, readLines, hfirst, hsecond]
  rfl

theorem Program.parse_places_spaced :
    ∃ p, Program.parse spacedSource = .ok p ∧ .bind (utf8 "x") spacedExpr 2 ∈ p ∧
      ∃ k raw, (splitOn newline spacedSource)[k]? = some raw ∧ (2 : Int) = (k + 1 : Nat) ∧
        spacedExpr.StandsIn 2 raw := by
  exact ⟨_, parse_spacedSource, List.mem_cons_self,
    parse_places parse_spacedSource List.mem_cons_self⟩

end LetPrint

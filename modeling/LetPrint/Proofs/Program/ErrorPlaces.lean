import LetPrint.Proofs.Expr.Leftmost
import LetPrint.Proofs.Program.Concatenation
import LetPrint.Proofs.Program.Places

/-!
# Where errors point

The error of a source that is refused is on its first line that is refused, and its column is that of
the text that it is about (`Program.parse_error_points`).

* `ParseFault.Names`: what a fault names stands at the front of a text.
* `Expr.parse_error_isAt`, `readValue_error_isAt`: an error in a right-hand side is at the place where
  reading stops, and names what stands there, or the end.
* `readLine_binding_error`: the same in the line.  The column is counted from the place where the
  trimmed right-hand side is first found in the untrimmed one.  If its first byte is visible, that is
  where it stands.  If not, it may be found in the white space before it, but then this first byte is
  the fault, and the byte that is found is the same.
* `readLines_error`: no line before the error is refused, and each line is refused in its place if and
  only if it is refused alone (`Program.parse_line_iff`).
-/

namespace LetPrint

open Text

/-! ## What an error names -/

/-- The fault names what stands at the front of the text: a byte, a whole run of digits, or a token as
long as it can be. -/
inductive ParseFault.Names : ParseFault → Bytes → Prop where
  | byte (b : UInt8) (rest : Bytes) : Names (.unrecognizedByte b) (b :: rest)
  | digits {digits rest : Bytes} (hne : digits ≠ []) (hdigits : ∀ b ∈ digits, isDigit b = true)
      (hend : EndsRun isDigit rest) : Names (.oversizedLiteral digits) (digits ++ rest)
  | token {f : ParseFault} {kind : TokenKind} {text rest : Bytes} (hf : f.OfToken text)
      (h : IsLexeme kind text rest) : Names f (text ++ rest)

theorem Faulty.names {rest : Bytes} {f : ParseFault} (h : Faulty rest f) : f.Names rest := by
  cases h with
  | byte rest hblank hdigit hword hsymbol => exact .byte _ rest
  | literal hne hdigits hend hvalue => exact .digits hne hdigits hend

theorem IsLexeme.append {kind : TokenKind} {text rest back : Bytes} (h : IsLexeme kind text rest)
    (hback : EndsRun isWordByte back) : IsLexeme kind text (rest ++ back) := by
  cases h with
  | int hdigits hend => exact .int hdigits (hend.append hback.digits)
  | ident hname hend => exact .ident hname (hend.append hback)
  | symbol hb rest => exact .symbol hb _

/-- What is named does not go on into what follows the text. -/
theorem ParseFault.Names.append {f : ParseFault} {rest back : Bytes} (h : f.Names rest)
    (hback : EndsRun isWordByte back) : f.Names (rest ++ back) := by
  cases h with
  | byte b rest => exact .byte b (rest ++ back)
  | digits hne hdigits hend =>
    rw [List.append_assoc]
    exact .digits hne hdigits (hend.append hback.digits)
  | token hf h =>
    rw [List.append_assoc]
    exact .token hf (h.append hback)

/-! ## Errors in a right-hand side -/

/-- The fault is at the place between two parts of a right-hand side: it names what stands there, or
the text ends there too soon, or the whole text is the literal that is refused. -/
inductive ParseFault.StopsAt : Bytes → Bytes → ParseFault → Prop where
  | names {f : ParseFault} {rest : Bytes} (before : Bytes) (h : f.Names rest) : StopsAt before rest f
  | finish {f : ParseFault} (before : Bytes) (hf : f.OfEnd) : StopsAt before [] f
  | literal (body : Bytes) (fault : LiteralFault) :
      StopsAt [] (byte '"' :: (body ++ [byte '"'])) (.badLiteral fault)

/-- The error of a text that begins at the given line and column is on that line, at the place between
`before` and `rest`. -/
structure ParseError.IsAt (line column : Int) (before rest : Bytes) (e : ParseError) : Prop where
  line : e.line = line
  column : e.column = column + before.length
  fault : e.fault.StopsAt before rest

theorem Expr.parse_error_isAt {text : Bytes} {line column : Int} {e : ParseError}
    (hline : newline ∉ text) (herror : Expr.parse text line column = .error e) :
    ∃ before rest, text = before ++ rest ∧ e.IsAt line column before rest := by
  have hread : ExprReader.read (Cursor.between ⟨line, column, 0⟩ [] text).scan = .error e := by
    rw [Expr.parse_eq_read] at herror
    exact herror
  obtain ⟨before, rest, ts, r, -, hstops⟩ := ExprReader.exists_stop hread
  have hplace : Reaches ⟨line, column, 0⟩ text before rest ts →
      text = before ++ rest ∧
        Position.past ⟨line, column, 0⟩ before = ⟨line, column + before.length, before.length⟩ := by
    intro hreaches
    have htext := hreaches.source_eq
    have hbefore : newline ∉ before := fun hmem => hline (htext ▸ List.mem_append_left rest hmem)
    refine ⟨htext.symm, ?_⟩
    rw [Position.past_of_line hbefore, Nat.zero_add]
  cases hstops with
  | @token before rest t e hreaches hposition hlexeme hstep =>
    obtain ⟨htext, hpast⟩ := hplace hreaches
    obtain ⟨f, hf, rfl⟩ := ExprReader.step_eq_error hstep
    rw [hpast] at hposition
    refine ⟨before, t.text ++ rest, htext, ?_, ?_, .names before (.token hf hlexeme)⟩
    · exact congrArg Position.line hposition
    · exact congrArg Position.column hposition
  | finish hreaches hfinish =>
    obtain ⟨htext, hpast⟩ := hplace hreaches
    obtain ⟨f, hf, rfl⟩ := ExprReader.finish_eq_error hfinish
    refine ⟨text, [], htext, ?_, ?_, .finish text hf⟩
    · exact congrArg Position.line hpast
    · exact congrArg Position.column hpast
  | fault hreaches hfaulty =>
    obtain ⟨htext, hpast⟩ := hplace hreaches
    refine ⟨before, rest, htext, ?_, ?_, .names before hfaulty.names⟩
    · exact congrArg Position.line hpast
    · exact congrArg Position.column hpast

theorem readValue_error_isAt {text : Bytes} {line column : Int} {e : ParseError}
    (hline : newline ∉ text) (h : readValue text line column = .error e) :
    ∃ before rest, text = before ++ rest ∧ e.IsAt line column before rest := by
  rw [readValue] at h
  by_cases hliteral : isLiteral text = true
  · rw [if_pos hliteral] at h
    obtain ⟨body, rfl⟩ := isLiteral_iff.1 hliteral
    split at h
    next => cases h
    next fault hfault =>
      cases h
      exact ⟨[], _, rfl, rfl, (Int.add_zero column).symm, .literal body fault⟩
  · rw [if_neg hliteral] at h
    exact Expr.parse_error_isAt hline h

/-- A byte that is neither visible ASCII nor a blank is no token. -/
theorem faulty_of_not_isSolid {b : UInt8} (hsolid : isSolid b = false)
    (hblank : isBlankInExpr b = false) (rest : Bytes) :
    Faulty (b :: rest) (.unrecognizedByte b) := by
  have hnot : ¬isSolid b = true := by simp [hsolid]
  rw [isSolid_iff] at hnot
  refine .byte rest hblank ?_ ?_ ?_
  · rw [Bool.eq_false_iff, Ne, isDigit_iff]
    omega
  · rw [Bool.eq_false_iff, Ne, isWordStart_iff]
    omega
  · rw [Option.eq_none_iff_forall_ne_some]
    intro kind hkind
    have hnumber := toNat_of_ofByte? hkind
    omega

theorem readValue_of_not_isSolid {b : UInt8} (hsolid : isSolid b = false)
    (hblank : isBlankInExpr b = false) (rest : Bytes) (line column : Int) :
    readValue (b :: rest) line column = .error ⟨.unrecognizedByte b, line, column⟩ := by
  have hliteral : ¬isLiteral (b :: rest) = true := by
    rw [isLiteral_iff]
    rintro ⟨body, hbody⟩
    rw [(List.cons.inj hbody).1] at hsolid
    cases hsolid
  have hscan : (Cursor.between ⟨line, column, 0⟩ [] (b :: rest)).scan =
      ⟨[], .error ⟨.unrecognizedByte b, line, column⟩⟩ :=
    Reaches.nil.scan_faulty (faulty_of_not_isSolid hsolid hblank rest)
  rw [readValue, if_neg hliteral, Expr.parse_eq_read]
  exact congrArg ExprReader.read hscan

/-! ## Errors in a line -/

/-- A line binds a name to `value`, which stands between `front` and `back` without the white space
around it. -/
inductive BindingLine : Bytes → Bytes → Bytes → Prop where
  | intro {indent gap name gap' pad value pad' tail : Bytes} (hindent : Blanks indent)
      (hgap : IsGap gap) (hne : gap ≠ []) (hname : isName name = true) (hgap' : IsGap gap')
      (hpad : Blanks pad) (hpad' : Blanks pad') (htail : Blanks tail) (hvalue : value ≠ [])
      (hstart : ∀ w, isBlankChar w = true → ¬w <+: value)
      (hend : ∀ w, isBlankChar w = true → ¬w <:+ value) :
      BindingLine (indent ++ (utf8 "let" ++ gap ++ name ++ gap' ++ utf8 "=") ++ pad) value
        (pad' ++ (utf8 ";" ++ tail))

/-- The fault is at the place between two parts of a line: it names what stands there, or a right-hand
side has just ended there, or a right-hand side that is a quoted text begins there. -/
inductive ParseFault.PointsAt : Bytes → Bytes → ParseFault → Prop where
  | names {f : ParseFault} {after : Bytes} (before : Bytes) (h : f.Names after) :
      PointsAt before after f
  | finish {f : ParseFault} {front value back : Bytes} (hf : f.OfEnd)
      (h : BindingLine front value back) : PointsAt (front ++ value) back f
  | literal {front body back : Bytes} (fault : LiteralFault)
      (h : BindingLine front (byte '"' :: (body ++ [byte '"'])) back) :
      PointsAt front (byte '"' :: (body ++ [byte '"']) ++ back) (.badLiteral fault)

theorem BindingLine.endsRun {front value back : Bytes} (h : BindingLine front value back) :
    EndsRun isWordByte back := by
  cases h with
  | intro hindent hgap hne hname hgap' hpad hpad' htail hvalue hstart hend =>
    exact endsRun_blanks hpad' _

/-- A place in a right-hand side is a place in the line. -/
theorem ParseFault.StopsAt.pointsAt {f : ParseFault} {front before rest back : Bytes}
    (h : f.StopsAt before rest) (hline : BindingLine front (before ++ rest) back) :
    f.PointsAt (front ++ before) (rest ++ back) := by
  cases h with
  | names before h => exact .names _ (h.append hline.endsRun)
  | finish before hf =>
    rw [List.append_nil] at hline
    exact .finish hf hline
  | literal body fault =>
    rw [List.append_nil]
    exact .literal fault hline

/-- The error in a line that binds a name. -/
theorem readLine_binding_error {number : Nat} {raw gap name gap' rhs : Bytes} {e : ParseError}
    (hgap : IsGap gap) (hne : gap ≠ []) (hname : isName name = true) (hgap' : IsGap gap')
    (hrhs : trim rhs ≠ [])
    (hline : trim raw = utf8 "let" ++ gap ++ name ++ gap' ++ utf8 "=" ++ rhs ++ utf8 ";")
    (hraw : newline ∉ raw) (herror : readLine number raw = .error e) :
    e.line = number ∧ ∃ before after, raw = before ++ after ∧
      e.column = (before.length + 1 : Nat) ∧ e.fault.PointsAt before after := by
  have hhead : (trim raw).head? = some (byte 'l') := by
    rw [hline]
    rfl
  obtain ⟨indent, tail, hindent, htail, htext, hlength⟩ := trim_indentation hhead (by decide)
  have hof := LineShape.of_binding hgap hne hname hgap' hrhs
  rw [← hline] at hof
  rw [readLine, hof] at herror
  simp only [indexOf?_trim hhead (by decide), Option.getD_some] at herror
  have hvalue := map_eq_error.1 herror
  rw [hlength] at hvalue
  rw [hline] at htext
  obtain ⟨b, rest, hrest⟩ := List.exists_cons_of_ne_nil hrhs
  by_cases hsolid : isSolid b = true
  · -- The value is found where it was left by trimming.
    have hfront : (trim rhs).head? = some b := by rw [hrest]; rfl
    obtain ⟨pad, pad', hpad, hpad', hparts, hlength'⟩ := trim_indentation hfront hsolid
    rw [indexOf?_trim hfront hsolid, hlength', Option.getD_some] at hvalue
    obtain ⟨-, hstart, hend⟩ := trim_spec rhs
    generalize trim rhs = value at hvalue hparts hstart hend hrhs
    subst hparts
    have hsplit : raw = indent ++ (utf8 "let" ++ gap ++ name ++ gap' ++ utf8 "=") ++ pad ++
        (value ++ (pad' ++ (utf8 ";" ++ tail))) := by
      rw [htext]
      simp only [List.append_assoc]
    have hvalueLine : newline ∉ value := fun hmem => hraw (by rw [hsplit]; simp [hmem])
    obtain ⟨before, after, rfl, hat⟩ := readValue_error_isAt hvalueLine hvalue
    refine ⟨hat.line, indent ++ (utf8 "let" ++ gap ++ name ++ gap' ++ utf8 "=") ++ pad ++ before,
      after ++ (pad' ++ (utf8 ";" ++ tail)), ?_, ?_, ?_⟩
    · rw [hsplit]
      simp only [List.append_assoc]
    · rw [hat.column]
      simp only [List.length_append]
      omega
    · refine hat.fault.pointsAt ?_
      exact .intro hindent hgap hne hname hgap' hpad hpad' htail hrhs hstart hend
  · -- The value may be found in the white space before it, but its first byte is the fault.
    have hsolid' : isSolid b = false := Bool.eq_false_iff.2 hsolid
    obtain ⟨i, hi⟩ := exists_indexOf?_trim rhs
    obtain ⟨pre, post, hparts, hpre⟩ := indexOf?_eq_some hi
    rw [hi, Option.getD_some, hrest,
      readValue_of_not_isSolid hsolid' (isBlankInExpr_of_trim hrest)] at hvalue
    cases hvalue
    rw [hrest] at hparts
    refine ⟨rfl, indent ++ (utf8 "let" ++ gap ++ name ++ gap' ++ utf8 "=") ++ pre,
      b :: (rest ++ (post ++ (utf8 ";" ++ tail))), ?_, ?_, .names _ (.byte b _)⟩
    · rw [htext, hparts]
      simp only [List.append_assoc, List.cons_append]
    · simp only [List.length_append]
      omega

/-- An error in a line has no column, or points into the line. -/
theorem readLine_error {number : Nat} {raw : Bytes} {e : ParseError} (hraw : newline ∉ raw)
    (herror : readLine number raw = .error e) :
    e.line = number ∧ (0 < e.column → ∃ before after, raw = before ++ after ∧
      e.column = (before.length + 1 : Nat) ∧ e.fault.PointsAt before after) := by
  rcases LineShape.of_cases (trim raw) with hskip | hnone |
    ⟨gap, name, gap', rhs, hgap, hne, hname, hgap', hrhs, hline⟩ |
    ⟨gap, name, gap', tail, hgap, hne, hname, hgap', htail, hline⟩
  · rw [readLine, LineShape.of_skipped hskip] at herror
    cases herror
  · rw [readLine, hnone] at herror
    cases herror
    exact ⟨rfl, fun hpositive => absurd hpositive (Int.lt_irrefl 0)⟩
  · obtain ⟨hnumber, hpoints⟩ :=
      readLine_binding_error hgap hne hname hgap' hrhs hline hraw herror
    exact ⟨hnumber, fun _ => hpoints⟩
  · rw [readLine, hline, LineShape.of_printing hgap hne hname hgap' htail] at herror
    cases herror

/-! ## The first line with an error -/

/-- The error of many lines is that of the first line with an error. -/
theorem readLines_error {number : Nat} {lines : List Bytes} {e : ParseError}
    (h : readLines number lines = .error e) :
    ∃ k raw, lines[k]? = some raw ∧ readLine (number + k) raw = .error e ∧
      ∀ j line, j < k → lines[j]? = some line → ∃ o, readLine (number + j) line = .ok o := by
  induction lines generalizing number with
  | nil => cases h
  | cons raw lines ih =>
    rw [readLines, bind_eq_error] at h
    rcases h with hfirst | ⟨o, hfirst, h⟩
    · exact ⟨0, raw, rfl, hfirst, fun j line hj => absurd hj (Nat.not_lt_zero j)⟩
    rcases bind_eq_error.1 h with hrest | ⟨p, -, h⟩
    · obtain ⟨k, raw', hraw', herror, hbefore⟩ := ih hrest
      have hnumber : ∀ j, number + 1 + j = number + (j + 1) := fun j => by omega
      rw [hnumber] at herror
      refine ⟨k + 1, raw', hraw', herror, ?_⟩
      intro j line hj hline
      cases j with
      | zero =>
        cases hline
        exact ⟨o, hfirst⟩
      | succ j =>
        obtain ⟨o', ho'⟩ := hbefore j line (by omega) hline
        rw [hnumber] at ho'
        exact ⟨o', ho'⟩
    · cases h

/-- A line alone is refused if and only if it is refused in its place. -/
theorem Program.parse_line_iff {line : Bytes} (hline : newline ∉ line) (j : Nat) :
    (∃ p, Program.parse line = .ok p) ↔ ∃ o, readLine (1 + j) line = .ok o := by
  have halone : Program.parse line = (readLine 1 line).map Option.toList := by
    rw [Program.parse, splitOn_of_not_mem hline, readLines, readLines]
    cases readLine 1 line with
    | error e => rfl
    | ok o => exact congrArg Except.ok (List.append_nil o.toList)
  rw [halone, readLine_down j 1 line]
  cases readLine 1 line with
  | error e => simp [Except.map, outcomeDown]
  | ok o => simp [Except.map, outcomeDown]

/-- The error of a source is a parse error on the first line that is refused when it stands alone.  If
it has a column, so many bytes of that line, less one, stand before what it is about: the byte that
starts no token, the run of digits that is too large, the token that is named, the quote that opens the
literal, or the end of the right-hand side. -/
theorem Program.parse_error_points {source : Bytes} {e : ParseError}
    (h : Program.parse source = .error e) :
    e.diagnostic.category = .parse ∧ e.diagnostic.line = e.line ∧
      ∃ k raw, (splitOn newline source)[k]? = some raw ∧ e.line = (k + 1 : Nat) ∧
        (∃ e', Program.parse raw = .error e') ∧
        (∀ j line, j < k → (splitOn newline source)[j]? = some line →
          ∃ p, Program.parse line = .ok p) ∧
        (0 < e.column → ∃ before after, raw = before ++ after ∧
          e.column = (before.length + 1 : Nat) ∧ e.fault.PointsAt before after) := by
  obtain ⟨k, raw, hraw, herror, hbefore⟩ := readLines_error h
  have hlines : ∀ {j : Nat} {line : Bytes}, (splitOn newline source)[j]? = some line →
      newline ∉ line :=
    fun hline => not_mem_of_mem_splitOn (List.mem_of_getElem? hline)
  obtain ⟨hnumber, hpoints⟩ := readLine_error (hlines hraw) herror
  refine ⟨?_, ?_, k, raw, hraw, ?_, ?_, ?_, hpoints⟩
  · cases e with
    | mk fault line column => cases fault <;> rfl
  · cases e with
    | mk fault line column => cases fault <;> rfl
  · rw [hnumber, Nat.add_comm]
  · cases halone : Program.parse raw with
    | error e' => exact ⟨e', rfl⟩
    | ok p =>
      obtain ⟨o, ho⟩ := (Program.parse_line_iff (hlines hraw) k).1 ⟨p, halone⟩
      rw [herror] at ho
      cases ho
  · intro j line hj hline
    exact (Program.parse_line_iff (hlines hline) j).2 (hbefore j line hj hline)

/-- A source whose second line has a stray byte as its right-hand side, behind a white-space character
that ends with the same byte. -/
def straySource : Bytes :=
  utf8 "print a;\nlet b =\u2000" ++ [0x80] ++ utf8 ";"

theorem parse_straySource :
    Program.parse straySource = .error ⟨.unrecognizedByte 0x80, 2, 9⟩ := by
  have hsplit : splitOn newline straySource =
      [utf8 "print a;", utf8 "let b =\u2000" ++ [0x80] ++ utf8 ";"] := by decide +kernel
  have hfirst : readLine 1 (utf8 "print a;") = .ok (some (.print (utf8 "a") 1)) := rfl
  have hof : LineShape.of (trim (utf8 "let b =\u2000" ++ [0x80] ++ utf8 ";")) =
      .binding (utf8 "b") (utf8 "\u2000" ++ [0x80]) 7 := by decide +kernel
  have htrim : trim (utf8 "\u2000" ++ [0x80]) = [0x80] := by decide +kernel
  have hindent : indexOf? (trim (utf8 "let b =\u2000" ++ [0x80] ++ utf8 ";"))
      (utf8 "let b =\u2000" ++ [0x80] ++ utf8 ";") = some 0 := by decide +kernel
  -- The search finds the last byte of the white-space character.
  have hindex : indexOf? [0x80] (utf8 "\u2000" ++ [0x80]) = some 1 := by decide +kernel
  have hsecond : readLine 2 (utf8 "let b =\u2000" ++ [0x80] ++ utf8 ";") =
      .error ⟨.unrecognizedByte 0x80, 2, 9⟩ := by
    rw [readLine, hof]
    simp only [htrim, hindent, hindex]
    rw [readValue_of_not_isSolid (by decide) (by decide)]
    rfl
  rw [Program.parse, hsplit, readLines, readLines, hfirst, hsecond]
  rfl

/-- The error is on the stray byte that is found first, and the byte there is the one that it names. -/
theorem Program.parse_error_points_stray :
    Program.parse straySource = .error ⟨.unrecognizedByte 0x80, 2, 9⟩ ∧
      ∃ k raw, (splitOn newline straySource)[k]? = some raw ∧ (2 : Int) = (k + 1 : Nat) ∧
        (∃ e', Program.parse raw = .error e') ∧
        (∀ j line, j < k → (splitOn newline straySource)[j]? = some line →
          ∃ p, Program.parse line = .ok p) ∧
        ∃ before after, raw = before ++ after ∧ (9 : Int) = (before.length + 1 : Nat) ∧
          (ParseFault.unrecognizedByte 0x80).PointsAt before after := by
  obtain ⟨-, -, k, raw, hraw, hline, halone, hfirst, hpoints⟩ :=
    parse_error_points parse_straySource
  exact ⟨parse_straySource, k, raw, hraw, hline, halone, hfirst, hpoints (by decide)⟩

end LetPrint

import LetPrint.Proofs.Expr.Parsing
import LetPrint.Proofs.Token.Places

/-!
# Errors in expressions are leftmost

What reading meets next is a token, the end of the text, or something that is no token (`Lexeme`).
`Viable ls` says that some expression begins with the lexemes `ls`, its end being one of them.  The first
lexeme that makes them no longer viable is the one that an error should name.

The grammar gives both directions.  Whatever `Progress` has read can be completed: an operand may be
missing, and one closing parenthesis for each open one (`Progress.exists_completion`), so the tokens
read so far are viable (`Reaches.viable`).  A terminal that `Progress` does not take continues no
derivation (`not_viable_token`), and the end may come behind a product outside all parentheses only
(`not_viable_finish`).  The reader of expressions stops at exactly these lexemes, so its error is on the
first of them, and a fault further right is never seen (`Expr.parse_error_leftmost`).
-/

namespace LetPrint

open Text

/-! ## The first lexemes of an expression -/

/-- What reading can meet. -/
inductive Lexeme where
  /-- A token. -/
  | token (t : Terminal)
  /-- The end of the text. -/
  | finish
  /-- Something that is no token. -/
  | fault (f : ParseFault)
  deriving DecidableEq, Repr

/-- A token as a lexeme. -/
def Token.lexeme (t : Token) : Lexeme :=
  .token t.terminal

theorem map_lexeme (ts : List Token) :
    ts.map Token.lexeme = (ts.map Token.terminal).map .token := by
  rw [List.map_map]
  rfl

/-- The terminal of a lexeme that is a token. -/
def Lexeme.terminal? : Lexeme → Option Terminal
  | token t => some t
  | _ => none

/-- The lexeme at the front of a text that starts with no blank. -/
inductive Meets : Bytes → Lexeme → Prop where
  | token {kind : TokenKind} {text rest : Bytes} (h : IsLexeme kind text rest) :
      Meets (text ++ rest) (.token (kind.terminal text))
  | finish : Meets [] .finish
  | fault {rest : Bytes} {f : ParseFault} (h : Faulty rest f) : Meets rest (.fault f)

/-- The lexemes of a text that spells the terminals, its end included. -/
def lexemes (ts : List Terminal) : List Lexeme :=
  ts.map .token ++ [.finish]

/-- Some expression begins with the lexemes. -/
def Viable (ls : List Lexeme) : Prop :=
  ∃ text, ∃ d : SumTree, Lexes text d.terminals ∧ ls <+: lexemes d.terminals

theorem Viable.of_isPrefix {ls ls' : List Lexeme} (h : Viable ls') (hbegins : ls <+: ls') :
    Viable ls := by
  obtain ⟨text, d, hlexes, hd⟩ := h
  exact ⟨text, d, hlexes, hbegins.trans hd⟩

theorem filterMap_terminal? (ts : List Terminal) :
    (ts.map Lexeme.token).filterMap Lexeme.terminal? = ts := by
  rw [List.filterMap_map]
  exact List.filterMap_some

/-- Tokens that begin an expression begin what a derivation derives. -/
theorem isPrefix_of_tokens {ts us : List Terminal} (h : ts.map .token <+: lexemes us) : ts <+: us := by
  have hterminals := h.filterMap Lexeme.terminal?
  rw [lexemes, List.filterMap_append, filterMap_terminal?, filterMap_terminal?] at hterminals
  rwa [← List.append_nil us]

theorem finish_not_mem (ts : List Terminal) : Lexeme.finish ∉ ts.map Lexeme.token := by
  intro h
  obtain ⟨t, -, ht⟩ := List.mem_map.1 h
  cases ht

/-- The end stands behind all tokens. -/
theorem eq_of_finish {ts us : List Terminal} (h : ts.map .token ++ [.finish] <+: lexemes us) :
    ts = us := by
  rcases List.prefix_concat_iff.1 h with heq | hbegins
  · have hmap := (List.append_inj' heq rfl).1
    rw [← filterMap_terminal? ts, hmap, filterMap_terminal?]
  · exact absurd (hbegins.subset (List.mem_append_right _ List.mem_cons_self)) (finish_not_mem us)

/-! ## What is read can be completed -/

/-- A lexeme goes before whatever a text spells, with a blank between them. -/
theorem exists_lexes_cons {kind : TokenKind} {text rest : Bytes} {ts : List Terminal}
    (h : IsLexeme kind text rest) (hts : ∃ source, Lexes source ts) :
    ∃ source, Lexes source (kind.terminal text :: ts) := by
  obtain ⟨source, hsource⟩ := hts
  have hblank : Lexes (byte ' ' :: source) ts := .blank rfl hsource
  cases h with
  | int hdigits _ => exact ⟨_, .token (.int hdigits (endsRun_cons rfl source)) hblank⟩
  | ident hname _ => exact ⟨_, .token (.ident hname (endsRun_cons rfl source)) hblank⟩
  | symbol hb _ => exact ⟨_, .token (.symbol hb _) hblank⟩

theorem exists_lexes_rparens (n : Nat) : ∃ source, Lexes source (List.replicate n .rparen) := by
  induction n with
  | zero => exact ⟨[], .nil⟩
  | succ n ih => exact exists_lexes_cons (.symbol (b := byte ')') rfl []) ih

namespace Progress

/-- Behind a product, the open parentheses can be closed one after the other. -/
theorem run_rparens (sum : Option (SumTree × AddOp)) (value : ProductTree) (outer : List Level) :
    ∃ sum' value', (operator sum value outer).run (List.replicate outer.length .rparen) =
      some (.operator sum' value' []) := by
  induction outer generalizing sum value with
  | nil => exact ⟨sum, value, rfl⟩
  | cons level outer ih => exact ih _ _

/-- Whatever is read can be completed. -/
theorem exists_completion (s : Progress) :
    ∃ us, (∃ source, Lexes source us) ∧ ∃ sum value, s.run us = some (.operator sum value []) := by
  cases s with
  | operator sum value outer =>
    exact ⟨_, exists_lexes_rparens outer.length, run_rparens sum value outer⟩
  | operand level outer =>
    -- Any operand will do.
    have hzero : IsLexeme .int (utf8 "0") [] := .int rfl (endsRun_nil _)
    exact ⟨_, exists_lexes_cons hzero (exists_lexes_rparens outer.length), run_rparens _ _ outer⟩

end Progress

section

variable {start : Position} {source before rest : Bytes} {ts : List Token}

/-- Tokens that have been met can stand before whatever a text spells. -/
theorem Reaches.exists_lexes {us : List Terminal} (h : Reaches start source before rest ts)
    (hus : ∃ text, Lexes text us) : ∃ text, Lexes text (ts.map Token.terminal ++ us) := by
  induction h generalizing us with
  | nil => exact hus
  | blank h hb ih => exact ih hus
  | token h hposition hlexeme ih =>
    rw [List.map_append, List.append_assoc]
    exact ih (exists_lexes_cons hlexeme hus)

/-- Tokens that have been met and read begin an expression. -/
theorem Reaches.viable {s : Progress} (h : Reaches start source before rest ts)
    (hrun : Progress.initial.run (ts.map Token.terminal) = some s) :
    Viable (ts.map Token.lexeme) := by
  obtain ⟨us, hus, sum, value, hclose⟩ := s.exists_completion
  obtain ⟨text, htext⟩ := h.exists_lexes hus
  have hall : Progress.initial.run (ts.map Token.terminal ++ us) = some (.operator sum value []) := by
    rw [Progress.run_append, hrun, Option.bind_some, hclose]
  have hterminals : (SumTree.close sum value).terminals = ts.map Token.terminal ++ us := by
    rw [SumTree.terminals_close]
    exact Progress.terminals_run hall
  refine ⟨text, .close sum value, hterminals ▸ htext, ?_⟩
  rw [hterminals, lexemes, map_lexeme, List.map_append, List.append_assoc]
  exact List.prefix_append _ _

end

/-! ## What is not read cannot -/

section

variable {ts : List Terminal} {s : Progress}

/-- A terminal that does not continue the reading continues no expression. -/
theorem not_viable_token {t : Terminal} (hrun : Progress.initial.run ts = some s)
    (hstep : s.step t = none) : ¬Viable (ts.map .token ++ [.token t]) := by
  rintro ⟨text, d, -, hbegins⟩
  have hterminals : ts ++ [t] <+: d.terminals := by
    refine isPrefix_of_tokens ?_
    rwa [List.map_append]
  obtain ⟨us, hus⟩ := hterminals
  have hnone : Progress.initial.run (ts ++ [t]) = none := by
    rw [Progress.run_append, hrun, Option.bind_some, Progress.run_cons, hstep, Option.bind_none]
  have hall := d.run_terminals []
  rw [← hus, Progress.run_append, ← Progress.initial, hnone] at hall
  cases hall

/-- An expression ends behind a product and outside all parentheses. -/
theorem not_viable_finish (hrun : Progress.initial.run ts = some s)
    (hs : ∀ sum value, s ≠ .operator sum value []) : ¬Viable (ts.map .token ++ [.finish]) := by
  rintro ⟨text, d, -, hbegins⟩
  have hall := d.run_terminals []
  rw [← eq_of_finish hbegins, ← Progress.initial, hrun] at hall
  cases d with
  | product p => exact hs none p (Option.some.inj hall)
  | apply left op p => exact hs (some (left, op)) p (Option.some.inj hall)

/-- What is no token is in no expression. -/
theorem not_viable_fault (ls : List Lexeme) (f : ParseFault) : ¬Viable (ls ++ [.fault f]) := by
  rintro ⟨text, d, -, hbegins⟩
  have hmem : Lexeme.fault f ∈ lexemes d.terminals :=
    hbegins.subset (List.mem_append_right _ List.mem_cons_self)
  rcases List.mem_append.1 hmem with hmem | hmem
  · obtain ⟨t, -, ht⟩ := List.mem_map.1 hmem
    cases ht
  · cases List.mem_singleton.1 hmem

end

/-! ## Where the reader stops -/

/-- The faults that stand in place of a token. -/
def ParseFault.isLexical : ParseFault → Bool
  | unrecognizedByte _ => true
  | oversizedLiteral _ => true
  | _ => false

/-- The faults that name a token. -/
inductive ParseFault.OfToken (text : Bytes) : ParseFault → Prop where
  | unexpected : OfToken text (.unexpectedToken text)
  | unclosed : OfToken text (.unclosed (some text))
  | trailing : OfToken text (.trailingToken text)

/-- The faults of a text that ends too soon. -/
inductive ParseFault.OfEnd : ParseFault → Prop where
  | expected : OfEnd .expectedExpression
  | unclosed : OfEnd (.unclosed none)

theorem Faulty.isLexical {rest : Bytes} {f : ParseFault} (h : Faulty rest f) :
    f.isLexical = true := by
  cases h with
  | byte => rfl
  | literal => rfl

theorem ParseFault.OfToken.isLexical {text : Bytes} {f : ParseFault} (h : f.OfToken text) :
    f.isLexical = false := by
  cases h <;> rfl

theorem ParseFault.OfEnd.isLexical {f : ParseFault} (h : f.OfEnd) : f.isLexical = false := by
  cases h <;> rfl

namespace ExprReader

variable {r : ExprReader} {t last : Token} {e : ParseError}

theorem misplaced_eq (outer : List Group) (t : Token) :
    ∃ f : ParseFault, f.OfToken t.text ∧ misplaced outer t = t.errorAt f := by
  refine ⟨_, ?_, rfl⟩
  split
  · exact .trailing
  · exact .unclosed

/-- A token that is not read is where the error is, and the error names it. -/
theorem step_eq_error (h : r.step t = .error e) :
    ∃ f : ParseFault, f.OfToken t.text ∧ e = t.errorAt f := by
  cases r with
  | operand g outer =>
    simp only [step] at h
    split at h <;> cases h
    exact ⟨_, .unexpected, rfl⟩
  | operator sum value outer =>
    cases outer with
    | nil =>
      simp only [step] at h
      split at h <;> cases h <;> exact misplaced_eq [] t
    | cons g outer =>
      simp only [step] at h
      split at h <;> cases h
      exact misplaced_eq (g :: outer) t

/-- An end that comes too soon is where the error is. -/
theorem finish_eq_error (h : r.finish last = .error e) :
    ∃ f : ParseFault, f.OfEnd ∧ e = last.errorAt f := by
  unfold finish at h
  split at h <;> cases h
  · exact ⟨_, .expected, rfl⟩
  · exact ⟨_, .unclosed, rfl⟩

/-- Tokens that are not all read are read up to one of them. -/
theorem exists_step_error {tokens : List Token} (h : tokens.foldlM step r = .error e) :
    ∃ pre t post r', tokens = pre ++ t :: post ∧ pre.foldlM step r = .ok r' ∧
      r'.step t = .error e := by
  induction tokens generalizing r with
  | nil => cases h
  | cons t tokens ih =>
    rw [List.foldlM_cons] at h
    cases hstep : r.step t with
    | error e' =>
      rw [hstep] at h
      cases h
      exact ⟨[], t, tokens, r, rfl, rfl, hstep⟩
    | ok r₁ =>
      rw [hstep] at h
      obtain ⟨pre, u, post, r', rfl, hfold, herror⟩ := ih h
      refine ⟨t :: pre, u, post, r', rfl, ?_, herror⟩
      rw [List.foldlM_cons, hstep]
      exact hfold

/-- What is read stands for the parts of a derivation. -/
theorem exists_progress {tokens : List Token} (h : tokens.foldlM step .initial = .ok r) :
    ∃ s, Progress.initial.run (tokens.map Token.terminal) = some s ∧ r.unplaced = s.image := by
  have hrun := run_agrees (r := .initial) (s := .initial) rfl tokens
  rw [h] at hrun
  obtain ⟨s, hs, himage⟩ := Option.map_eq_some_iff.1 hrun.symm
  exact ⟨s, hs, himage.symm⟩

theorem step_eq_none {s : Progress} (himage : r.unplaced = s.image) (h : r.step t = .error e) :
    s.step t.terminal = none := by
  have hstep := step_agrees himage t
  rw [h] at hstep
  exact Option.map_eq_none_iff.1 hstep.symm

theorem ne_operator_of_finish {s : Progress} (himage : r.unplaced = s.image)
    (h : r.finish last = .error e) (sum : Option (SumTree × AddOp)) (value : ProductTree) :
    s ≠ .operator sum value [] := by
  rintro rfl
  obtain ⟨x, hx, -⟩ := finish_agrees himage last
  rw [h] at hx
  cases hx

end ExprReader

/-! ## The error is on the first offending lexeme -/

/-- The error `e` is that of the lexeme `l`, met behind the tokens `ts` between `before` and `rest`:
these tokens begin an expression, but none goes on with `l`. -/
structure Offence (start : Position) (source before rest : Bytes) (ts : List Token) (l : Lexeme)
    (e : ParseError) : Prop where
  reaches : Reaches start source before rest ts
  meets : Meets rest l
  viable : Viable (ts.map Token.lexeme)
  hopeless : ¬Viable (ts.map Token.lexeme ++ [l])
  line : e.line = (start.past before).line
  column : e.column = (start.past before).column
  /-- A fault in place of a token is reported if and only if it is the offending lexeme. -/
  lexical : ∀ f, l = .fault f ↔ e.fault = f ∧ f.isLexical = true

section

variable {start : Position} {source before rest : Bytes} {ts : List Token} {e : ParseError}
  {r : ExprReader}

/-- Both sides fail where the offending lexeme is not a fault and the error is not one either. -/
theorem lexical_iff_of_not {l : Lexeme} {f : ParseFault} (hl : ∀ g, l ≠ .fault g)
    (hf : f.isLexical = false) (g : ParseFault) :
    l = .fault g ↔ f = g ∧ g.isLexical = true := by
  constructor
  · exact fun hg => absurd hg (hl g)
  · rintro ⟨rfl, hlexical⟩
    exact absurd (hf.symm.trans hlexical) Bool.false_ne_true

/-- A token where it is not read. -/
theorem Offence.token {t : Token} (h : Reaches start source before (t.text ++ rest) ts)
    (hposition : t.position = start.past before) (hlexeme : IsLexeme t.kind t.text rest)
    (hfold : ts.foldlM ExprReader.step .initial = .ok r) (herror : r.step t = .error e) :
    Offence start source before (t.text ++ rest) ts t.lexeme e := by
  obtain ⟨s, hrun, himage⟩ := ExprReader.exists_progress hfold
  obtain ⟨f, hf, rfl⟩ := ExprReader.step_eq_error herror
  have hhopeless := not_viable_token hrun (ExprReader.step_eq_none himage herror)
  rw [← map_lexeme] at hhopeless
  exact ⟨h, .token hlexeme, h.viable hrun, hhopeless,
    congrArg Position.line hposition, congrArg Position.column hposition,
    lexical_iff_of_not (fun _ => Lexeme.noConfusion) hf.isLexical⟩

/-- The end of the text where it comes too soon. -/
theorem Offence.finish (h : Reaches start source source [] ts)
    (hfold : ts.foldlM ExprReader.step .initial = .ok r)
    (herror : r.finish ⟨.eof, [], start.past source⟩ = .error e) :
    Offence start source source [] ts .finish e := by
  obtain ⟨s, hrun, himage⟩ := ExprReader.exists_progress hfold
  obtain ⟨f, hf, rfl⟩ := ExprReader.finish_eq_error herror
  have hhopeless := not_viable_finish hrun (ExprReader.ne_operator_of_finish himage herror)
  rw [← map_lexeme] at hhopeless
  exact ⟨h, .finish, h.viable hrun, hhopeless, rfl, rfl,
    lexical_iff_of_not (fun _ => Lexeme.noConfusion) hf.isLexical⟩

/-- Something that is no token, behind tokens that are read. -/
theorem Offence.fault {f : ParseFault} (h : Reaches start source before rest ts)
    (hfaulty : Faulty rest f) (hfold : ts.foldlM ExprReader.step .initial = .ok r) :
    Offence start source before rest ts (.fault f)
      ⟨f, (start.past before).line, (start.past before).column⟩ := by
  obtain ⟨s, hrun, -⟩ := ExprReader.exists_progress hfold
  refine ⟨h, .fault hfaulty, h.viable hrun, not_viable_fault _ f, rfl, rfl, fun g => ⟨?_, ?_⟩⟩
  · intro heq
    cases heq
    exact ⟨rfl, hfaulty.isLexical⟩
  · rintro ⟨rfl, -⟩
    rfl

/-- The reader `r`, which has read the tokens `ts`, stops with the error `e` between `before` and
`rest`. -/
inductive ExprReader.Stops (start : Position) (source : Bytes) (ts : List Token) (r : ExprReader) :
    Bytes → Bytes → ParseError → Prop where
  | token {before rest : Bytes} {t : Token} {e : ParseError}
      (h : Reaches start source before (t.text ++ rest) ts)
      (hposition : t.position = start.past before) (hlexeme : IsLexeme t.kind t.text rest)
      (herror : r.step t = .error e) : Stops start source ts r before (t.text ++ rest) e
  | finish {e : ParseError} (h : Reaches start source source [] ts)
      (herror : r.finish ⟨.eof, [], start.past source⟩ = .error e) :
      Stops start source ts r source [] e
  | fault {before rest : Bytes} {f : ParseFault} (h : Reaches start source before rest ts)
      (hfaulty : Faulty rest f) :
      Stops start source ts r before rest ⟨f, (start.past before).line, (start.past before).column⟩

/-- Every error is where the reader stops. -/
theorem ExprReader.exists_stop (herror : read (Cursor.between start [] source).scan = .error e) :
    ∃ before rest ts r, ts.foldlM step .initial = .ok r ∧
      Stops start source ts r before rest e := by
  obtain ⟨before, rest, hreaches⟩ := Cursor.exists_reaches start source
  rcases hscan : (Cursor.between start [] source).scan with ⟨tokens, ending⟩
  rw [hscan] at herror hreaches
  cases hfold : tokens.foldlM step .initial with
  | error e' =>
    -- The tokens before the one that is not read are a beginning of those of the cursor.
    obtain ⟨pre, t, post, r, htokens, hpre, hstep⟩ := exists_step_error hfold
    obtain ⟨before', rest', hbefore, hposition, hlexeme⟩ := hreaches.before_token htokens
    rw [read, hfold] at herror
    cases herror
    exact ⟨_, _, _, r, hpre, .token hbefore hposition hlexeme hstep⟩
  | ok r =>
    rw [read, hfold] at herror
    cases ending with
    | error e' =>
      obtain ⟨before', rest', fault, hbefore, hfaulty, rfl⟩ := Cursor.scan_error_iff.1 hscan
      cases herror
      exact ⟨_, _, _, r, hfold, .fault hbefore hfaulty⟩
    | ok last =>
      obtain ⟨hend, rfl⟩ := Cursor.scan_ok_iff.1 hscan
      exact ⟨_, _, _, r, hfold, .finish hend herror⟩

/-- Every error of the reader is on an offending lexeme. -/
theorem ExprReader.exists_offence (herror : read (Cursor.between start [] source).scan = .error e) :
    ∃ before rest ts l, Offence start source before rest ts l e := by
  obtain ⟨before, rest, ts, r, hfold, hstops⟩ := exists_stop herror
  cases hstops with
  | token h hposition hlexeme herror => exact ⟨_, _, _, _, .token h hposition hlexeme hfold herror⟩
  | finish h herror => exact ⟨_, _, _, _, .finish h hfold herror⟩
  | fault h hfaulty => exact ⟨_, _, _, _, .fault h hfaulty hfold⟩

end

/-- An error in an expression on one line is on that line, at the first lexeme that no expression has
there: the tokens before it begin an expression, and so does each of them with those before it, but no
expression begins with all of them and the lexeme.  What is no token is reported if and only if it is
that lexeme. -/
theorem Expr.parse_error_leftmost {source : Bytes} {line column : Int} {e : ParseError}
    (hline : newline ∉ source) (herror : Expr.parse source line column = .error e) :
    ∃ before rest ts l, Offence ⟨line, column, 0⟩ source before rest ts l e ∧
      (∀ pre t post, ts = pre ++ t :: post →
        Viable (pre.map Token.lexeme ++ [t.lexeme])) ∧
      e.line = line ∧ e.column = column + before.length := by
  have hread : ExprReader.read (Cursor.between ⟨line, column, 0⟩ [] source).scan = .error e := by
    rw [Expr.parse_eq_read] at herror
    exact herror
  obtain ⟨before, rest, ts, l, h⟩ := ExprReader.exists_offence hread
  have hbefore : newline ∉ before := by
    intro hmem
    rw [← h.reaches.source_eq] at hline
    exact hline (List.mem_append_left _ hmem)
  have hpast := Position.past_of_line (p := ⟨line, column, 0⟩) hbefore
  refine ⟨before, rest, ts, l, h, ?_, ?_, ?_⟩
  · rintro pre t post rfl
    refine h.viable.of_isPrefix ⟨post.map Token.lexeme, ?_⟩
    rw [List.map_append, List.map_cons, List.append_assoc, List.singleton_append]
  · rw [h.line, hpast]
  · rw [h.column, hpast]

/-- A text with a second operator where an operand is due, and a byte that is no token behind it. -/
def twoFaultsSource : Bytes := utf8 "1 + * $"

theorem parse_twoFaultsSource :
    Expr.parse twoFaultsSource 2 5 = .error ⟨.unexpectedToken (utf8 "*"), 2, 9⟩ := by
  let one : Token := ⟨.int, utf8 "1", ⟨2, 5, 0⟩⟩
  let plus : Token := ⟨.plus, utf8 "+", ⟨2, 7, 2⟩⟩
  let star : Token := ⟨.star, utf8 "*", ⟨2, 9, 4⟩⟩
  have hone : Reaches ⟨2, 5, 0⟩ twoFaultsSource (utf8 "1 ") (utf8 "+ * $") [one] :=
    (Reaches.nil.token (t := one) rfl (.int rfl (endsRun_cons rfl _))).blank (b := byte ' ') rfl
  have hplus : Reaches ⟨2, 5, 0⟩ twoFaultsSource (utf8 "1 + ") (utf8 "* $") [one, plus] :=
    (hone.token (t := plus) rfl (.symbol rfl _)).blank (b := byte ' ') rfl
  have hstar : Reaches ⟨2, 5, 0⟩ twoFaultsSource (utf8 "1 + * ") (utf8 "$") [one, plus, star] :=
    (hplus.token (t := star) rfl (.symbol rfl _)).blank (b := byte ' ') rfl
  have hscan := hstar.scan_faulty (.byte [] rfl rfl rfl rfl)
  rw [Expr.parse_eq_read]
  exact congrArg ExprReader.read hscan

/-- The error is on the second operator, though there is a fault behind it. -/
theorem Expr.parse_error_leftmost_twoFaults :
    newline ∉ twoFaultsSource ∧
      Expr.parse twoFaultsSource 2 5 = .error ⟨.unexpectedToken (utf8 "*"), 2, 9⟩ ∧
      ∃ before rest ts l,
        Offence ⟨2, 5, 0⟩ twoFaultsSource before rest ts l ⟨.unexpectedToken (utf8 "*"), 2, 9⟩ ∧
        (∀ pre t post, ts = pre ++ t :: post →
          Viable (pre.map Token.lexeme ++ [t.lexeme])) ∧
        (9 : Int) = 5 + before.length := by
  have hline : newline ∉ twoFaultsSource := by decide
  obtain ⟨before, rest, ts, l, h, hviable, -, hcolumn⟩ :=
    parse_error_leftmost hline parse_twoFaultsSource
  exact ⟨hline, parse_twoFaultsSource, before, rest, ts, l, h, hviable, hcolumn⟩

end LetPrint

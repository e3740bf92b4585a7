import LetPrint.Program.Parser
import LetPrint.Proofs.Expr.Reader
import LetPrint.Proofs.Text.Splitting
import LetPrint.Proofs.Token.Lexing

/-!
# Programs are read line by line

A source text of two parts, with a newline between them, says what its parts say, the second as many
lines further down as the first part has (`Program.parse_append`).

Nothing goes from one line to the next but the number of the line.  So the argument has two halves:

* reading `k` lines further down.  Everything that carries a place can be moved down (`Position.down`
  and its kin), and each stage of reading takes what is moved down to its own result moved down
  (`Cursor.scan_down`, `ExprReader.step_down`, `readLine_down`).  `outcomeDown` is what that means
  for a stage that may fail;
* reading one list of lines behind another (`readLines_append`).
-/

namespace LetPrint

open Text

/-! ## Moving down -/

/-- The position `k` lines further down. -/
def Position.down (k : Nat) (p : Position) : Position :=
  { p with line := p.line + k }

/-- The same error `k` lines further down: fault and column stay. -/
def ParseError.down (k : Nat) (e : ParseError) : ParseError :=
  { e with line := e.line + k }

/-- The same token `k` lines further down. -/
def Token.down (k : Nat) (t : Token) : Token :=
  { t with position := t.position.down k }

/-- The same expression with every node `k` lines further down. -/
def Expr.down (k : Nat) : Expr → Expr
  | .int value pos => .int value (pos.down k)
  | .var name pos => .var name (pos.down k)
  | .str text pos => .str text (pos.down k)
  | .neg operand pos => .neg (operand.down k) (pos.down k)
  | .bin op left right pos => .bin op (left.down k) (right.down k) (pos.down k)
  | .missing => .missing

/-- The same statement `k` lines further down, with all nodes of its expression. -/
def Stmt.down (k : Nat) : Stmt → Stmt
  | .bind name value line => .bind name (value.down k) (line + k)
  | .print name line => .print name (line + k)
  | .foreign typeName line => .foreign typeName (line + k)

/-- What a stage of reading gives `k` lines further down: a result moved by `f`, or the error. -/
def outcomeDown {α β : Type} (k : Nat) (f : α → β) : Except ParseError α → Except ParseError β
  | .ok a => .ok (f a)
  | .error e => .error (e.down k)

/-- Stages in a row: it is enough to move down each one. -/
theorem outcomeDown_bind {α β γ δ : Type} {k : Nat} {f : α → β} {f' : γ → δ}
    {x : Except ParseError α} {g : α → Except ParseError γ} {g' : β → Except ParseError δ}
    (h : ∀ a, g' (f a) = outcomeDown k f' (g a)) :
    (outcomeDown k f x >>= g') = outcomeDown k f' (x >>= g) := by
  cases x with
  | error e => rfl
  | ok a => exact h a

/-! ## Tokens -/

theorem Position.after_down (k : Nat) (p : Position) (b : UInt8) :
    (p.down k).after b = (p.after b).down k := by
  by_cases h : (b == newline) = true
  · simp [after, down, h, Int.add_right_comm]
  · simp [after, down, h]

theorem Position.past_down (k : Nat) (p : Position) (text : Bytes) :
    (p.down k).past text = (p.past text).down k := by
  induction text generalizing p with
  | nil => rfl
  | cons b text ih =>
    unfold past at ih ⊢
    rw [List.foldl_cons, List.foldl_cons, after_down, ih]

/-- The same tokens and the same end or error `k` lines further down. -/
def TokenStream.down (k : Nat) (s : TokenStream) : TokenStream :=
  ⟨s.tokens.map (Token.down k), outcomeDown k (Token.down k) s.ending⟩

namespace Cursor

/-- The cursor in the same text `k` lines further down. -/
def down (k : Nat) (c : Cursor) : Cursor :=
  { c with position := c.position.down k }

/-- A text gives the same tokens wherever it begins. -/
theorem scan_down (k : Nat) {c : Cursor} (hended : c.ended = false) :
    (c.down k).scan = c.scan.down k := by
  -- Strong induction on what is left of the text, by what stands at its front.
  induction hlength : c.rest.length using Nat.strongRecOn generalizing c with
  | ind n ih =>
    rcases front_cases c.rest with
      hrest | ⟨b, rest, hrest, hb⟩ | ⟨kind, text, rest, hrest, hlexeme⟩ | ⟨fault, hfaulty⟩
    · have hnext := next_nil hended hrest
      have hnext' := next_nil (c := c.down k) hended hrest
      rw [scan_eof hnext rfl, scan_eof hnext' rfl]
      rfl
    · have hless : rest.length < n := by
        rw [← hlength, hrest]
        simp
      have hscan := scan_congr (next_blank hrest hb)
      have hscan' := scan_congr (next_blank (c := c.down k) hrest hb)
      have hbehind := ih _ hless (c := { c with rest, position := c.position.after b }) hended rfl
      rw [hscan, hscan', ← hbehind, down, down, Position.after_down]
    · have hless : rest.length < n := by
        have hpositive := List.length_pos_iff.2 hlexeme.ne_nil
        rw [← hlength, hrest, List.length_append]
        omega
      have hnext := hlexeme.next hended hrest
      have hnext' := hlexeme.next (c := c.down k) hended hrest
      have hbehind := ih _ hless (c := { rest, position := c.position.past text }) rfl rfl
      rw [down, ← Position.past_down] at hbehind
      rw [scan_token hnext hlexeme.kind_ne_eof, scan_token hnext' hlexeme.kind_ne_eof]
      simp only [down, hbehind]
      rfl
    · obtain ⟨c', hnext⟩ := hfaulty.next hended
      obtain ⟨d', hnext'⟩ := Faulty.next (c := c.down k) hfaulty hended
      rw [scan_error hnext, scan_error hnext']
      rfl

end Cursor

/-! ## Expressions -/

/-- The same operation `k` lines further down, with its left operand. -/
def Pending.down (k : Nat) (p : Pending) : Pending :=
  ⟨p.left.down k, p.op, p.pos.down k⟩

/-- The same incomplete expression `k` lines further down. -/
def Group.down (k : Nat) (g : Group) : Group :=
  { sum := g.sum.map (Pending.down k)
    product := g.product.map (Pending.down k)
    minuses := g.minuses.map (Position.down k) }

theorem Pending.close_down (k : Nat) (p : Option Pending) (e : Expr) :
    Pending.close (p.map (Pending.down k)) (e.down k) = (Pending.close p e).down k := by
  cases p <;> rfl

theorem Expr.foldl_neg_down (k : Nat) (minuses : List Position) (e : Expr) :
    (minuses.map (Position.down k)).foldl Expr.neg (e.down k) =
      (minuses.foldl Expr.neg e).down k := by
  induction minuses generalizing e with
  | nil => rfl
  | cons pos minuses ih => exact ih (.neg e pos)

namespace ExprReader

/-- The same reader, with all that it has read `k` lines further down. -/
def down (k : Nat) : ExprReader → ExprReader
  | .operand g outer => .operand (g.down k) (outer.map (Group.down k))
  | .operator sum value outer =>
    .operator (sum.map (Pending.down k)) (value.down k) (outer.map (Group.down k))

theorem supply_down (k : Nat) (g : Group) (outer : List Group) (e : Expr) :
    supply (g.down k) (outer.map (Group.down k)) (e.down k) = (supply g outer e).down k := by
  simp only [supply, down, Group.closeProduct, Group.down, Expr.foldl_neg_down, Pending.close_down]

theorem misplaced_down (k : Nat) (outer : List Group) (t : Token) :
    misplaced (outer.map (Group.down k)) (t.down k) = (misplaced outer t).down k := by
  cases outer <;> rfl

theorem step_down (k : Nat) (r : ExprReader) (t : Token) :
    (r.down k).step (t.down k) = outcomeDown k (ExprReader.down k) (r.step t) := by
  obtain ⟨kind, text, position⟩ := t
  cases r with
  | operand g outer =>
    cases kind with
    | int => exact congrArg _ (supply_down k g outer (.int _ position))
    | ident => exact congrArg _ (supply_down k g outer (.var text position))
    | _ => rfl
  | operator sum value outer =>
    have hclose := Pending.close_down k sum value
    cases kind with
    | plus | minus =>
      simp only [step, down, Token.down, hclose]
      rfl
    | rparen =>
      cases outer with
      | nil => rfl
      | cons g outer =>
        simp only [step, down, Token.down, hclose, List.map_cons, supply_down]
        rfl
    | star | slash => rfl
    | int | ident | lparen | eof =>
      exact congrArg Except.error (misplaced_down k outer ⟨_, text, position⟩)

theorem foldlM_down (k : Nat) (r : ExprReader) (ts : List Token) :
    (ts.map (Token.down k)).foldlM step (r.down k) =
      outcomeDown k (ExprReader.down k) (ts.foldlM step r) := by
  induction ts generalizing r with
  | nil => rfl
  | cons t ts ih =>
    rw [List.map_cons, List.foldlM_cons, List.foldlM_cons, step_down]
    exact outcomeDown_bind ih

theorem finish_down (k : Nat) (r : ExprReader) (last : Token) :
    (r.down k).finish (last.down k) = outcomeDown k (Expr.down k) (r.finish last) := by
  cases r with
  | operand g outer => rfl
  | operator sum value outer =>
    cases outer with
    | nil => exact congrArg Except.ok (Pending.close_down k sum value)
    | cons g outer => rfl

theorem read_down (k : Nat) (s : TokenStream) :
    read (s.down k) = outcomeDown k (Expr.down k) (read s) := by
  have hread := foldlM_down k initial s.tokens
  change (s.down k).tokens.foldlM step initial = _ at hread
  rw [read, read, hread]
  refine outcomeDown_bind fun r => ?_
  exact outcomeDown_bind fun last => finish_down k r last

end ExprReader

theorem Expr.parse_down (k : Nat) (text : Bytes) (line column : Int) :
    Expr.parse text (line + k) column = outcomeDown k (Expr.down k) (Expr.parse text line column) := by
  have hscan := Cursor.scan_down k (c := .start text line column) rfl
  rw [Expr.parse_eq_read, Expr.parse_eq_read, ← ExprReader.read_down, ← hscan]
  rfl

/-! ## Lines -/

theorem readValue_down (k : Nat) (text : Bytes) (line column : Int) :
    readValue text (line + k) column =
      outcomeDown k (Expr.down k) (readValue text line column) := by
  unfold readValue
  by_cases h : isLiteral text = true
  · rw [if_pos h, if_pos h]
    cases unquote text <;> rfl
  · rw [if_neg h, if_neg h]
    exact Expr.parse_down k text line column

theorem readLine_down (k number : Nat) (raw : Bytes) :
    readLine (number + k) raw =
      outcomeDown k (Option.map (Stmt.down k)) (readLine number raw) := by
  have hnumber : ((number + k : Nat) : Int) = number + k := by omega
  simp only [readLine, hnumber, readValue_down]
  cases LineShape.of (trim raw) with
  | skipped => rfl
  | unrecognized => rfl
  | printing name => rfl
  | binding name body start =>
    simp only
    generalize readValue (trim body) number _ = value
    cases value <;> rfl

theorem readLines_down (k number : Nat) (lines : List Bytes) :
    readLines (number + k) lines =
      outcomeDown k (List.map (Stmt.down k)) (readLines number lines) := by
  induction lines generalizing number with
  | nil => rfl
  | cons raw lines ih =>
    have hnext : number + k + 1 = number + 1 + k := by omega
    rw [readLines, readLines, readLine_down, hnext, ih]
    refine outcomeDown_bind fun statement => ?_
    refine outcomeDown_bind fun statements => ?_
    cases statement <;> rfl

/-- Lines behind others are read as if they were alone, with the numbers that they have there. -/
theorem readLines_append (number : Nat) (lines more : List Bytes) :
    readLines number (lines ++ more) =
      (readLines number lines >>= fun p =>
        (readLines (number + lines.length) more).map (p ++ ·)) := by
  induction lines generalizing number with
  | nil =>
    show readLines number more = (readLines number more).map _
    cases readLines number more <;> rfl
  | cons raw lines ih =>
    have hnumber : number + (raw :: lines).length = number + 1 + lines.length := by
      rw [List.length_cons]
      omega
    rw [List.cons_append, readLines, readLines, ih, hnumber]
    cases readLine number raw with
    | error e => rfl
    | ok statement =>
      cases readLines (number + 1) lines with
      | error e => rfl
      | ok p =>
        cases readLines (number + 1 + lines.length) more with
        | error e => rfl
        | ok q => exact congrArg Except.ok (List.append_assoc _ p q).symm

/-! ## Sources -/

/-- A source of two parts with a newline between them.  An error in the first part is the error of the
whole.  Otherwise the second part is read as it is alone, and its error, or each of its statements with
all their nodes, is moved down by the number of lines of the first part. -/
theorem Program.parse_append (a b : Bytes) :
    let k := a.count newline + 1
    Program.parse (a ++ newline :: b) =
      match Program.parse a, Program.parse b with
      | .error e, _ => .error e
      | .ok _, .error e => .error (e.down k)
      | .ok p, .ok q => .ok (p ++ q.map (Stmt.down k)) := by
  intro k
  have hnumber : 1 + (splitOn newline a).length = 1 + k := by rw [length_splitOn]
  rw [Program.parse, Program.parse, Program.parse, splitOn_append_sep, readLines_append, hnumber,
    readLines_down]
  cases readLines 1 (splitOn newline a) with
  | error e => rfl
  | ok p =>
    cases readLines 1 (splitOn newline b) with
    | error e => rfl
    | ok q => rfl

end LetPrint

import LetPrint.Program.Parser
import LetPrint.Proofs.Expr.Reader

/-!
# What the parser builds

Trees built by hand may hold operators outside the four, string literals as operands, missing
operands and foreign statements.  The parser builds none of these: every statement of a program that
was read is `Stmt.Spelled` (`Program.spelled_of_parse`).

The reader of expressions keeps unfinished operations, so what holds of the finished expression is
stated for all that it keeps (`ExprReader.Spelled`) and carried over one token at a time.
-/

namespace LetPrint

/-- An expression that a text can spell: integers and names under minuses and the four operators. -/
inductive Expr.Spelled : Expr → Prop where
  | int (n : Int32) (pos : Position) : Spelled (.int n pos)
  | var (name : Bytes) (pos : Position) : Spelled (.var name pos)
  | neg {operand : Expr} (pos : Position) (h : operand.Spelled) : Spelled (.neg operand pos)
  | bin {op : Operator} {left right : Expr} (pos : Position) (hop : op ≠ .unknown)
      (hl : left.Spelled) (hr : right.Spelled) : Spelled (.bin op left right pos)

/-- A right-hand side that a text can spell. -/
inductive Expr.SpelledValue : Expr → Prop where
  | str (text : Bytes) (pos : Position) : SpelledValue (.str text pos)
  | expr {e : Expr} (h : e.Spelled) : SpelledValue e

/-- A statement that a line can spell. -/
inductive Stmt.Spelled : Stmt → Prop where
  | bind (name : Bytes) {e : Expr} (line : Int) (h : e.SpelledValue) : Spelled (.bind name e line)
  | print (name : Bytes) (line : Int) : Spelled (.print name line)

/-! ## Reading an expression -/

/-- An operation that waits for its right operand has an operator and a left operand that a text can
spell. -/
structure Pending.Spelled (p : Pending) : Prop where
  op : p.op ≠ .unknown
  left : p.left.Spelled

/-- The operations of a group that wait for their right operands can be spelled. -/
structure Group.Spelled (g : Group) : Prop where
  sum : ∀ p ∈ g.sum, p.Spelled
  product : ∀ p ∈ g.product, p.Spelled

/-- All that a reader has read so far can be spelled. -/
def ExprReader.Spelled : ExprReader → Prop
  | operand g outer => g.Spelled ∧ ∀ g ∈ outer, g.Spelled
  | operator sum value outer =>
    (∀ p ∈ sum, p.Spelled) ∧ value.Spelled ∧ ∀ g ∈ outer, g.Spelled

theorem Pending.spelled_none : ∀ p ∈ (none : Option Pending), p.Spelled := by
  intro p hp
  cases hp

theorem Pending.spelled_close {p : Option Pending} {e : Expr} (hp : ∀ q ∈ p, q.Spelled)
    (he : e.Spelled) : (Pending.close p e).Spelled := by
  cases p with
  | none => exact he
  | some p =>
    obtain ⟨hop, hleft⟩ := hp p rfl
    exact .bin p.pos hop hleft he

theorem Group.spelled_closeProduct {g : Group} {e : Expr} (hg : g.Spelled) (he : e.Spelled) :
    (g.closeProduct e).Spelled := by
  refine Pending.spelled_close hg.product ?_
  generalize g.minuses = minuses
  induction minuses generalizing e with
  | nil => exact he
  | cons pos minuses ih => exact ih (.neg pos he)

namespace ExprReader

variable {g : Group} {outer : List Group}

theorem spelled_supply {e : Expr} (hg : g.Spelled) (houter : ∀ g ∈ outer, g.Spelled)
    (he : e.Spelled) : (supply g outer e).Spelled :=
  ⟨hg.sum, Group.spelled_closeProduct hg he, houter⟩

/-- A token leaves what can be spelled. -/
theorem spelled_step {r r' : ExprReader} {t : Token} (hr : r.Spelled) (h : r.step t = .ok r') :
    r'.Spelled := by
  cases r with
  | operand g outer =>
    obtain ⟨hg, houter⟩ := hr
    rw [step] at h
    split at h
    · cases h
      exact spelled_supply hg houter (.int _ _)
    · cases h
      exact spelled_supply hg houter (.var _ _)
    · cases h
      exact ⟨⟨hg.sum, hg.product⟩, houter⟩
    · cases h
      exact ⟨⟨Pending.spelled_none, Pending.spelled_none⟩, List.forall_mem_cons.2 ⟨hg, houter⟩⟩
    · cases h
  | operator sum value outer =>
    obtain ⟨hsum, hvalue, houter⟩ := hr
    have hclosed := Pending.spelled_close hsum hvalue
    have hproduct : ∀ op, op ≠ .unknown →
        (operand { sum, product := some ⟨value, op, t.position⟩ } outer).Spelled := by
      intro op hop
      refine ⟨⟨hsum, ?_⟩, houter⟩
      rintro p ⟨⟩
      exact ⟨hop, hvalue⟩
    have hsums : ∀ op, op ≠ .unknown →
        (operand { sum := some ⟨Pending.close sum value, op, t.position⟩ } outer).Spelled := by
      intro op hop
      refine ⟨⟨?_, Pending.spelled_none⟩, houter⟩
      rintro p ⟨⟩
      exact ⟨hop, hclosed⟩
    simp only [step] at h
    split at h
    · cases h
      exact hproduct .mul (by decide)
    · cases h
      exact hproduct .div (by decide)
    · cases h
      exact hsums .add (by decide)
    · cases h
      exact hsums .sub (by decide)
    · cases outer with
      | nil => cases h
      | cons g outer =>
        cases h
        obtain ⟨hg, houter⟩ := List.forall_mem_cons.1 houter
        exact spelled_supply hg houter hclosed
    · cases h

theorem spelled_foldlM {r r' : ExprReader} {ts : List Token} (hr : r.Spelled)
    (h : ts.foldlM step r = .ok r') : r'.Spelled := by
  induction ts generalizing r with
  | nil =>
    cases h
    exact hr
  | cons t ts ih =>
    rw [List.foldlM_cons, bind_eq_ok] at h
    obtain ⟨r₁, hstep, hrest⟩ := h
    exact ih (spelled_step hr hstep) hrest

/-- What a stream of tokens spells is an expression that can be spelled. -/
theorem spelled_of_read {s : TokenStream} {e : Expr} (h : read s = .ok e) : e.Spelled := by
  rw [read, bind_eq_ok] at h
  obtain ⟨r, hfold, h⟩ := h
  rw [bind_eq_ok] at h
  obtain ⟨last, -, h⟩ := h
  have hinitial : initial.Spelled :=
    ⟨⟨Pending.spelled_none, Pending.spelled_none⟩, List.forall_mem_nil _⟩
  have hr : r.Spelled := spelled_foldlM hinitial hfold
  cases r with
  | operand g outer => cases h
  | operator sum value outer =>
    cases outer with
    | cons g outer => cases h
    | nil =>
      cases h
      exact Pending.spelled_close hr.1 hr.2.1

end ExprReader

theorem Expr.spelled_of_parse {text : Bytes} {line column : Int} {e : Expr}
    (h : Expr.parse text line column = .ok e) : e.Spelled := by
  rw [Expr.parse_eq_read] at h
  exact ExprReader.spelled_of_read h

/-! ## Reading a program -/

theorem spelled_of_readValue {text : Bytes} {line column : Int} {e : Expr}
    (h : readValue text line column = .ok e) : e.SpelledValue := by
  rw [readValue] at h
  split at h
  · split at h
    · cases h
      exact .str _ _
    · cases h
  · exact .expr (Expr.spelled_of_parse h)

theorem spelled_of_readLine {number : Nat} {raw : Bytes} {s : Stmt}
    (h : readLine number raw = .ok (some s)) : s.Spelled := by
  rw [readLine] at h
  split at h
  · cases h
  · cases h
  · cases h
    exact .print _ _
  · rw [map_eq_ok] at h
    obtain ⟨e, he, heq⟩ := h
    cases heq
    exact .bind _ _ (spelled_of_readValue he)

theorem spelled_of_readLines {number : Nat} {lines : List Bytes} {p : Program}
    (h : readLines number lines = .ok p) : ∀ s ∈ p, s.Spelled := by
  induction lines generalizing number p with
  | nil =>
    cases h
    nofun
  | cons raw lines ih =>
    rw [readLines, bind_eq_ok] at h
    obtain ⟨statement, hstatement, h⟩ := h
    rw [bind_eq_ok] at h
    obtain ⟨statements, hstatements, h⟩ := h
    rw [pure_eq_ok] at h
    rw [← h]
    intro s hs
    rcases List.mem_append.1 hs with hs | hs
    · rw [Option.mem_toList] at hs
      rw [hs] at hstatement
      exact spelled_of_readLine hstatement
    · exact ih hstatements s hs

/-- The parser builds no statement that a line cannot spell. -/
theorem Program.spelled_of_parse {source : Bytes} {p : Program}
    (h : Program.parse source = .ok p) : ∀ s ∈ p, s.Spelled :=
  spelled_of_readLines h

end LetPrint

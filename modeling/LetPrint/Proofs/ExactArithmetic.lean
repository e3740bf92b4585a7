import LetPrint.Proofs.Passes
import LetPrint.Typing

/-!
# Arithmetic is exact modulo 2^32

The interpreter wraps every sum, difference, product and negation to 32 bits, and keeps wrapped words
for the names.  This file runs programs without division a second time, in integers without a bound,
and shows that the words printed are the residues of the integers printed there.

* `ExactValues.prints` is the second run: nothing in it wraps.
* `IsResidue n k` says that `k` is a number of 32 bits congruent to `n`; there is one such number, and
  taking `n` to a word finds it (`isResidue_iff`).
* Taking integers to words respects the operators (`Operator.apply_ofInt`), so it takes the exact value
  of an expression to the value that the interpreter computes (`Tracks.evaluate`).
* `Tracks` holds between the names of the checker, of the exact run and of the interpreter; a `let`
  keeps it (`Tracks.bind`), and `Tracks.walk` carries it through a program.
-/

namespace LetPrint

open Text

/-! ## Programs without division -/

/-- Whether an operator is a sum, a difference or a product. -/
def Operator.isRing : Operator → Bool
  | add | sub | mul => true
  | div | unknown => false

/-- All operators of an expression are sums, differences and products. -/
def Expr.isPolynomial : Expr → Bool
  | neg operand _ => operand.isPolynomial
  | bin op left right _ => op.isRing && left.isPolynomial && right.isPolynomial
  | _ => true

/-- All operators of a statement are sums, differences and products. -/
def Stmt.isPolynomial : Stmt → Bool
  | bind _ e _ => e.isPolynomial
  | _ => true

theorem Expr.isPolynomial_bin {op : Operator} {left right : Expr} {pos : Position}
    (h : (Expr.bin op left right pos).isPolynomial = true) :
    op.isRing = true ∧ left.isPolynomial = true ∧ right.isPolynomial = true := by
  simpa [isPolynomial, and_assoc] using h

/-! ## The exact run -/

/-- What a name stands for when integers have no bound. -/
inductive ExactValue where
  | int (n : Int)
  | str (text : Bytes)
  deriving DecidableEq, Repr

/-- The operator on integers, if it is a sum, a difference or a product. -/
def Operator.exact? : Operator → Option (Int → Int → Int)
  | add => some (· + ·)
  | sub => some (· - ·)
  | mul => some (· * ·)
  | div | unknown => none

/-- The values of the names bound so far, without a bound. -/
abbrev ExactValues := Scope ExactValue

namespace ExactValues

/-- The value of an integer expression. -/
def evaluate (values : ExactValues) : Expr → Option Int
  | .int n _ => some n.toInt
  | .var name _ =>
    match values.find? name with
    | some (.int n) => some n
    | _ => none
  | .neg operand _ => do
    let n ← evaluate values operand
    return -n
  | .bin op left right _ => do
    let a ← evaluate values left
    let b ← evaluate values right
    let f ← op.exact?
    return f a b
  | .str _ _ | .missing => none

/-- The value of a right-hand side. -/
def evaluateValue (values : ExactValues) : Expr → Option ExactValue
  | .str text _ => some (.str text)
  | e => (evaluate values e).map .int

/-- The values that a program prints, in order. -/
def prints (values : ExactValues) : Program → Option (List ExactValue)
  | [] => some []
  | .bind name e _ :: rest => do
    let value ← values.evaluateValue e
    prints (values.bind name value) rest
  | .print name _ :: rest => do
    let value ← values.find? name
    let later ← prints values rest
    return value :: later
  | .foreign _ _ :: _ => none

end ExactValues

/-- The values that a program prints if nothing is ever wrapped. -/
def Program.exactPrints (p : Program) : Option (List ExactValue) :=
  ExactValues.prints .empty p

/-! ## Residues -/

/-- A number of 32 bits that is congruent to `n` modulo 2^32. -/
structure IsResidue (n k : Int) : Prop where
  lower : -Int.pow 2 31 ≤ k
  upper : k < Int.pow 2 31
  congruent : k % Int.pow 2 32 = n % Int.pow 2 32

/-- The word of an integer is its only residue. -/
theorem isResidue_iff {n k : Int} : IsResidue n k ↔ k = (Int32.ofInt n).toInt := by
  have hword : (Int32.ofInt n).toInt = n.bmod 4294967296 := Int32.toInt_ofInt
  have hhalf : Int.pow 2 31 = 2147483648 := rfl
  have hmodulus : Int.pow 2 32 = 4294967296 := rfl
  rw [hword, Int.bmod]
  constructor
  · rintro ⟨hlower, hupper, hcongruent⟩
    rw [hhalf] at hlower hupper
    rw [hmodulus] at hcongruent
    split <;> omega
  · intro hk
    refine ⟨?_, ?_, ?_⟩
    · rw [hhalf]
      split at hk <;> omega
    · rw [hhalf]
      split at hk <;> omega
    · rw [hmodulus]
      split at hk <;> omega

/-- A value of the interpreter stands for an exact value: a word for the integer of which it is the
only residue, a string for itself. -/
def ExactValue.ReducesTo : ExactValue → Value → Prop
  | int n, .int word => ∀ k, IsResidue n k ↔ k = word.toInt
  | str text, .str written => text = written
  | _, _ => False

/-- The value that the interpreter has for an exact value. -/
def ExactValue.wrap : ExactValue → Value
  | int n => .int (Int32.ofInt n)
  | str text => .str text

/-- The kind of an exact value. -/
def ExactValue.kind : ExactValue → Kind
  | int _ => .int
  | str _ => .str

theorem ExactValue.reducesTo_wrap (v : ExactValue) : v.ReducesTo v.wrap := by
  cases v with
  | int n => exact fun k => isResidue_iff
  | str text => rfl

theorem ExactValue.kind_wrap (v : ExactValue) : v.wrap.kind = v.kind := by
  cases v <;> rfl

/-! ## Expressions -/

/-- Taking integers to words respects sums, differences and products. -/
theorem Operator.apply_ofInt {op : Operator} (h : op.isRing = true) (a b : Int) :
    ∃ f, op.exact? = some f ∧ op.apply (Int32.ofInt a) (Int32.ofInt b) = .ok (Int32.ofInt (f a b)) := by
  cases op with
  | add => exact ⟨_, rfl, congrArg Except.ok (Int32.ofInt_add a b).symm⟩
  | sub => exact ⟨_, rfl, congrArg Except.ok (Int32.ofInt_sub a b).symm⟩
  | mul => exact ⟨_, rfl, congrArg Except.ok (Int32.ofInt_mul a b).symm⟩
  | div => cases h
  | unknown => cases h

/-- The checker knows the kinds of the exact values, and the interpreter has them wrapped. -/
structure Tracks (kinds : Kinds) (exact : ExactValues) (values : Values) : Prop where
  kinds : ∀ name, kinds.find? name = (exact.find? name).map ExactValue.kind
  values : ∀ name, values.find? name = (exact.find? name).map ExactValue.wrap

namespace Tracks

variable {kinds kinds' : Kinds} {exact : ExactValues} {values : Values} {name : Bytes} {e : Expr}

theorem empty : Tracks .empty .empty .empty :=
  ⟨fun _ => rfl, fun _ => rfl⟩

/-- A new binding keeps the three in step. -/
theorem bind (h : Tracks kinds exact values) (name : Bytes) (v : ExactValue) :
    Tracks (kinds.bind name v.kind) (exact.bind name v) (values.bind name v.wrap) := by
  constructor
  · intro other
    rw [Scope.find?_bind, Scope.find?_bind, h.kinds]
    by_cases hother : other = name
    · rw [if_pos hother, if_pos hother, Option.map_some]
    · rw [if_neg hother, if_neg hother]
  · intro other
    rw [Scope.find?_bind, Scope.find?_bind, h.values]
    by_cases hother : other = name
    · rw [if_pos hother, if_pos hother, Option.map_some]
    · rw [if_neg hother, if_neg hother]

/-- An operand that the checker accepts is an integer of the exact run, and its word is the operand of
the interpreter. -/
theorem operand (h : Tracks kinds exact values) {kind : Kind}
    (hcheck : kinds.operand id name = .ok kind) :
    ∃ n, exact.find? name = some (.int n) ∧ values.operandWord name = .ok (Int32.ofInt n) := by
  obtain ⟨hfind, hkind⟩ := Scope.operand_eq_ok.1 hcheck
  rw [h.kinds, Option.map_eq_some_iff] at hfind
  obtain ⟨v, hv, rfl⟩ := hfind
  cases v with
  | str text => cases hkind
  | int n =>
    have hvalue : values.find? name = some (.int (Int32.ofInt n)) := by
      rw [h.values, hv]
      rfl
    have hoperand : values.operand Value.kind name = .ok (.int (Int32.ofInt n)) :=
      Scope.operand_eq_ok.2 ⟨hvalue, rfl⟩
    refine ⟨n, hv, ?_⟩
    rw [Values.operandWord, hoperand]

/-- The word that the interpreter computes is that of the exact value. -/
theorem evaluate (h : Tracks kinds exact values) (hcheck : kinds.checkInt e = .ok ())
    (hpoly : e.isPolynomial = true) :
    ∃ n, exact.evaluate e = some n ∧ values.evaluate e = .ok (Int32.ofInt n) := by
  induction e with
  | int n pos => exact ⟨n.toInt, rfl, congrArg Except.ok (Int32.ofInt_toInt n).symm⟩
  | var name pos =>
    rw [Kinds.checkInt, bind_eq_ok] at hcheck
    obtain ⟨kind, hkind, -⟩ := hcheck
    obtain ⟨n, hexact, hword⟩ := h.operand hkind
    exact ⟨n, by rw [ExactValues.evaluate, hexact], hword⟩
  | str text pos => cases hcheck
  | neg operand pos ih =>
    obtain ⟨n, hexact, hword⟩ := ih hcheck hpoly
    refine ⟨-n, ?_, ?_⟩
    · rw [ExactValues.evaluate, hexact]
      rfl
    · rw [Values.evaluate, hword, Int32.ofInt_neg]
      rfl
  | bin op left right pos ihl ihr =>
    obtain ⟨hop, hl, hr⟩ := Expr.isPolynomial_bin hpoly
    rw [Kinds.checkInt, bind_eq_ok] at hcheck
    obtain ⟨⟨⟩, hleft, hright⟩ := hcheck
    obtain ⟨a, hexactl, hwordl⟩ := ihl hleft hl
    obtain ⟨b, hexactr, hwordr⟩ := ihr hright hr
    obtain ⟨f, hf, happly⟩ := Operator.apply_ofInt hop a b
    refine ⟨f a b, ?_, ?_⟩
    · rw [ExactValues.evaluate, hexactl, hexactr, hf]
      rfl
    · rw [Values.evaluate, hwordl, hwordr]
      exact happly
  | missing => cases hcheck

/-- The same of right-hand sides. -/
theorem evaluateValue (h : Tracks kinds exact values) (hcheck : kinds.checkValue e = .ok ())
    (hpoly : e.isPolynomial = true) :
    ∃ v, exact.evaluateValue e = some v ∧ values.evaluateValue e = .ok v.wrap ∧ v.kind = e.kind := by
  cases hkind : e.kind with
  | int =>
    rw [Kinds.checkValue, hkind] at hcheck
    obtain ⟨n, hexact, hword⟩ := h.evaluate hcheck hpoly
    have hvalue : exact.evaluateValue e = (exact.evaluate e).map .int := by
      cases e with
      | str text pos => cases hkind
      | _ => rfl
    refine ⟨.int n, ?_, ?_, rfl⟩
    · rw [hvalue, hexact]
      rfl
    · rw [Values.evaluateValue_int hkind, hword]
      rfl
  | str =>
    cases e with
    | str text pos => exact ⟨.str text, rfl, rfl, rfl⟩
    | _ => cases hkind

/-- What the checker allows to be bound, the interpreter does. -/
theorem allow (h : Tracks kinds exact values) {new : Kind}
    (hcheck : kinds.allow id name new = .ok ()) : values.allow Value.kind name new = .ok () := by
  rw [Scope.allow_eq_ok] at hcheck ⊢
  intro a ha
  rw [h.values, Option.map_eq_some_iff] at ha
  obtain ⟨v, hv, rfl⟩ := ha
  rw [ExactValue.kind_wrap]
  exact hcheck v.kind (by rw [h.kinds, hv]; rfl)

end Tracks

/-! ## Statements -/

section

variable {kinds kinds' : Kinds} {exact : ExactValues} {r : RunState} {name : Bytes} {line : Int}

/-- A `let` that the checker accepts binds the name to an exact value and to its word. -/
theorem Tracks.exec_bind {e : Expr} (h : Tracks kinds exact r.values)
    (hcheck : kinds.checkStmt (.bind name e line) = .ok kinds') (hpoly : e.isPolynomial = true) :
    ∃ v, exact.evaluateValue e = some v ∧
      r.exec (.bind name e line) = .ok { r with values := r.values.bind name v.wrap } ∧
      Tracks kinds' (exact.bind name v) (r.values.bind name v.wrap) := by
  rw [Kinds.checkStmt, bind_eq_ok] at hcheck
  obtain ⟨⟨⟩, hvalue, hcheck⟩ := hcheck
  rw [bind_eq_ok] at hcheck
  obtain ⟨⟨⟩, hallow, hcheck⟩ := hcheck
  cases hcheck
  obtain ⟨v, hexact, hwrapped, hkind⟩ := h.evaluateValue hvalue hpoly
  refine ⟨v, hexact, ?_, ?_⟩
  · have hallow' := h.allow hallow
    rw [← hkind, ← v.kind_wrap] at hallow'
    exact RunState.exec_bind hwrapped hallow' line
  · rw [← hkind]
    exact h.bind name v

/-- A `print` that the checker accepts is of an exact value, and the interpreter has its word. -/
theorem Tracks.find_print (h : Tracks kinds exact r.values)
    (hcheck : kinds.checkStmt (.print name line) = .ok kinds') :
    kinds' = kinds ∧
      ∃ v, exact.find? name = some v ∧ r.values.find? name = some v.wrap := by
  rw [Kinds.checkStmt, bind_eq_ok] at hcheck
  obtain ⟨kind, hsubject, hcheck⟩ := hcheck
  cases hcheck
  have hfind := Scope.subject_eq_ok.1 hsubject
  rw [h.kinds, Option.map_eq_some_iff] at hfind
  obtain ⟨v, hv, -⟩ := hfind
  refine ⟨rfl, v, hv, ?_⟩
  rw [h.values, hv]
  rfl

end

/-! ## Programs -/

/-- The sink behind the lines of the given values. -/
def Sink.withLines (out : Sink) (values : List Value) : Sink :=
  { out with written := out.written ++ values.flatMap Value.line }

theorem Sink.withLines_nil (out : Sink) : out.withLines [] = out := by
  simp [withLines]

theorem Sink.withLines_cons {out out' : Sink} {v : Value} (h : out.write? v.line = some out')
    (values : List Value) : out.withLines (v :: values) = out'.withLines values := by
  unfold write? at h
  split at h
  · cases h
    simp [withLines]
  · cases h

/-- How a run that prints the given values ends: it has written all lines, or those before the first
that the sink refuses. -/
inductive PrintsLines (out : Sink) (values : List Value) : Sink × Option (Halt RunFault) → Prop where
  | all : PrintsLines out values (out.withLines values, none)
  | refused (before after : List Value) (v : Value) (index : Nat) (line : Int)
      (split : values = before ++ v :: after) (full : (out.withLines before).write? v.line = none) :
      PrintsLines out values (out.withLines before, some ⟨index, line, .refused⟩)

theorem PrintsLines.nil (out : Sink) : PrintsLines out [] (out, none) := by
  have hall : PrintsLines out [] (out.withLines [], none) := .all
  rwa [Sink.withLines_nil] at hall

/-- The first line may be refused, whatever would follow, -/
theorem PrintsLines.refused_first {out : Sink} {v : Value} (hwrite : out.write? v.line = none)
    (values : List Value) (index : Nat) (line : Int) :
    PrintsLines out (v :: values) (out, some ⟨index, line, .refused⟩) := by
  have hrefused : PrintsLines out (v :: values) (out.withLines [], some ⟨index, line, .refused⟩) :=
    .refused [] values v index line rfl (by rw [Sink.withLines_nil, hwrite])
  rwa [Sink.withLines_nil] at hrefused

/-- or it is written, and the others follow. -/
theorem PrintsLines.cons {out out' : Sink} {v : Value} {values : List Value}
    {ended : Sink × Option (Halt RunFault)} (hwrite : out.write? v.line = some out')
    (h : PrintsLines out' values ended) : PrintsLines out (v :: values) ended := by
  cases h with
  | all =>
    rw [← Sink.withLines_cons hwrite]
    exact .all
  | refused before after v' index line split full =>
    rw [← Sink.withLines_cons hwrite] at full ⊢
    exact .refused (v :: before) after v' index line (by rw [split]; rfl) full

/-- A program that the checker accepts has an exact run, and the interpreter prints what is printed
there, wrapped. -/
theorem Tracks.walk {kinds kinds' : Kinds} {exact : ExactValues} {r : RunState} {p : Program}
    {index : Nat} (h : Tracks kinds exact r.values)
    (hcheck : LetPrint.walk Kinds.checkStmt index kinds p = (kinds', none))
    (hpoly : ∀ s ∈ p, s.isPolynomial = true) :
    ∃ prints, exact.prints p = some prints ∧
      PrintsLines r.out (prints.map ExactValue.wrap)
        ((LetPrint.walk RunState.exec index r p).1.out,
          (LetPrint.walk RunState.exec index r p).2) := by
  induction p generalizing kinds exact r index with
  | nil => exact ⟨[], rfl, .nil r.out⟩
  | cons s p ih =>
    obtain ⟨known, hs, hrest⟩ := walk_cons_eq_none hcheck
    obtain ⟨hfirst, hlater⟩ := List.forall_mem_cons.1 hpoly
    cases s with
    | bind name e line =>
      obtain ⟨v, hexact, hexec, htracks⟩ := h.exec_bind hs hfirst
      obtain ⟨prints, hprints, hrun⟩ :=
        ih (r := { r with values := r.values.bind name v.wrap }) htracks hrest hlater
      refine ⟨prints, ?_, ?_⟩
      · rw [ExactValues.prints, hexact]
        exact hprints
      · rw [walk_cons_ok hexec]
        exact hrun
    | print name line =>
      obtain ⟨rfl, v, hv, hvalue⟩ := h.find_print hs
      have hexec := RunState.exec_print hvalue line
      -- The exact run goes on, whether or not the sink takes the line.
      have hprints : ∀ {prints}, exact.prints p = some prints →
          exact.prints (.print name line :: p) = some (v :: prints) := by
        intro prints hprints
        rw [ExactValues.prints, hv, hprints]
        rfl
      cases hwrite : r.out.write? v.wrap.line with
      | none =>
        rw [hwrite] at hexec
        obtain ⟨prints, hexact, -⟩ := ih h hrest hlater
        refine ⟨v :: prints, hprints hexact, ?_⟩
        rw [walk_cons_error hexec]
        exact .refused_first hwrite _ index line
      | some out =>
        rw [hwrite] at hexec
        obtain ⟨prints, hexact, hrun⟩ := ih (r := { r with out }) h hrest hlater
        refine ⟨v :: prints, hprints hexact, ?_⟩
        rw [walk_cons_ok hexec]
        exact hrun.cons hwrite
    | foreign typeName line => cases hs

/-- A program without division that the checker accepts prints, value by value and as far as the sink
takes the lines, what it prints when no integer is ever wrapped: a string as it is, and for an integer
the only number of 32 bits that is congruent to it modulo 2^32. -/
theorem Program.run_reduces_exact {p : Program} {kinds : Kinds} (hkinds : p.kinds = .ok kinds)
    (hpoly : ∀ s ∈ p, s.isPolynomial = true) (out : Sink) :
    ∃ exact values, p.exactPrints = some exact ∧
      (∀ i : Nat, Option.Rel ExactValue.ReducesTo exact[i]? values[i]?) ∧
      PrintsLines out values (p.run out) := by
  obtain ⟨known, hcheck⟩ : ∃ known, walk Kinds.checkStmt 0 .empty p = (known, none) := by
    rw [Program.kinds, Kinds.check] at hkinds
    split at hkinds
    next known hcheck => exact ⟨known, hcheck⟩
    next => cases hkinds
  obtain ⟨exact, hexact, hrun⟩ := Tracks.empty.walk (r := { out }) hcheck hpoly
  refine ⟨exact, exact.map ExactValue.wrap, hexact, ?_, hrun⟩
  intro i
  rw [List.getElem?_map]
  cases exact[i]? with
  | none => exact .none
  | some v => exact .some v.reducesTo_wrap

/-- Overflow that is carried through two names, and the negation of the least word. -/
def overflowing : Program :=
  [.bind (utf8 "x") (.int 2147483647 default) 1,
   .bind (utf8 "s") (.str (utf8 "hi") default) 2,
   .bind (utf8 "x") (.bin .add (.bin .mul (.var (utf8 "x") default) (.var (utf8 "x") default) default)
     (.var (utf8 "x") default) default) 3,
   .print (utf8 "x") 4,
   .bind (utf8 "y") (.neg (.var (utf8 "x") default) default) 5,
   .print (utf8 "s") 6,
   .print (utf8 "y") 7,
   .bind (utf8 "x") (.bin .sub (.var (utf8 "y") default) (.int 1 default) default) 8,
   .print (utf8 "x") 9]

theorem Program.run_reduces_exact_overflowing :
    (∃ kinds, overflowing.kinds = .ok kinds) ∧ (∀ s ∈ overflowing, s.isPolynomial = true) ∧
      overflowing.exactPrints =
        some [.int 4611686016279904256, .str (utf8 "hi"), .int (-4611686016279904256),
          .int (-4611686016279904257)] ∧
      overflowing.run {} =
        ({ written := utf8 "-2147483648\nhi\n-2147483648\n2147483647\n" }, none) ∧
      ∃ exact values, overflowing.exactPrints = some exact ∧
        (∀ i : Nat, Option.Rel ExactValue.ReducesTo exact[i]? values[i]?) ∧
        PrintsLines {} values (overflowing.run {}) := by
  have hpoly : ∀ s ∈ overflowing, s.isPolynomial = true := by decide
  exact ⟨⟨_, rfl⟩, hpoly, rfl, rfl, run_reduces_exact rfl hpoly {}⟩

end LetPrint

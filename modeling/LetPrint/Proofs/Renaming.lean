import LetPrint.Proofs.Ir.SingleAssignment
import LetPrint.Proofs.KindRules

/-!
# Renaming variables

The names of variables do not matter: a program whose names are renamed, without two of them becoming
one, has the same bytecode, the same output and, but for the names of the cells, the same module
(`Program.rename_irrelevant`).

The two programs are passed over in step.

* `Scope.Renamed` relates the scopes of the two passes: a name stands for something in the first just
  if the renamed one stands for something related in the second.  A `let` keeps this because the
  renaming is injective on the names of the program (`Scope.Renamed.bind`), and the rules on names
  then answer alike (`Scope.Renamed.operand` and those after it).
* `Alike` says that two computations succeed with related results, or fail with faults that differ by
  the renaming; `Alike.bind` puts computations together, and `walk_rename` takes it from statements
  to programs.
* `CodeState.stmt_rename`, `RunState.exec_rename` and `Ir.LowerState.stmt_rename` are the steps of the
  three passes.
-/

namespace LetPrint

open Text

/-! ## Renamed programs -/

/-- The expression with its names renamed. -/
def Expr.rename (r : Bytes → Bytes) : Expr → Expr
  | .int n pos => .int n pos
  | .var name pos => .var (r name) pos
  | .str text pos => .str text pos
  | .neg operand pos => .neg (operand.rename r) pos
  | .bin op left right pos => .bin op (left.rename r) (right.rename r) pos
  | .missing => .missing

/-- The statement with its names renamed. -/
def Stmt.rename (r : Bytes → Bytes) : Stmt → Stmt
  | .bind name e line => .bind (r name) (e.rename r) line
  | .print name line => .print (r name) line
  | .foreign typeName line => .foreign typeName line

/-- The program with its names renamed. -/
def Program.rename (r : Bytes → Bytes) (p : Program) : Program :=
  p.map (Stmt.rename r)

/-- The names that occur in a statement. -/
def Stmt.names : Stmt → List Bytes
  | .bind name e _ => name :: e.reads
  | .print name _ => [name]
  | .foreign _ _ => []

/-- The names that occur in a program. -/
def Program.names (p : Program) : List Bytes :=
  p.flatMap Stmt.names

/-- The fault with the name in it renamed. -/
def SemanticFault.rename (r : Bytes → Bytes) : SemanticFault → SemanticFault
  | .undefined name => .undefined (r name)
  | .rebound name old new => .rebound (r name) old new
  | .stringOperand name => .stringOperand (r name)
  | .stringLiteral => .stringLiteral
  | .unknownOperator op => .unknownOperator op
  | .missingExpr => .missingExpr
  | .foreignStmt typeName => .foreignStmt typeName

/-- The fault with the name in it renamed. -/
def RunFault.rename (r : Bytes → Bytes) : RunFault → RunFault
  | .semantic fault => .semantic (fault.rename r)
  | .refused => .refused

/-- No two of the names become one. -/
def InjectiveOn (r : Bytes → Bytes) (names : List Bytes) : Prop :=
  ∀ x ∈ names, ∀ y ∈ names, r x = r y → x = y

section

variable (r : Bytes → Bytes)

theorem Expr.kind_rename (e : Expr) : (e.rename r).kind = e.kind := by
  cases e <;> rfl

theorem Stmt.line_rename (s : Stmt) : (s.rename r).line = s.line := by
  cases s <;> rfl

end

/-! ## Computations that come out alike -/

/-- Both computations succeed, with related results, or both fail, the second with the renamed fault
of the first. -/
inductive Alike {φ α β : Type} (ren : φ → φ) (R : α → β → Prop) :
    Except φ α → Except φ β → Prop where
  | ok {a : α} {b : β} (h : R a b) : Alike ren R (.ok a) (.ok b)
  | error (fault : φ) : Alike ren R (.error fault) (.error (ren fault))

section

variable {φ α β γ δ : Type} {ren : φ → φ} {R : α → β → Prop} {S : γ → δ → Prop} {x : Except φ α}
  {y : Except φ β}

theorem Alike.ok_or_error (h : Alike ren R x y) :
    (∃ a b, x = .ok a ∧ y = .ok b ∧ R a b) ∨ ∃ fault, x = .error fault ∧ y = .error (ren fault) := by
  cases h with
  | ok hab => exact .inl ⟨_, _, rfl, rfl, hab⟩
  | error fault => exact .inr ⟨fault, rfl, rfl⟩

theorem Alike.bind {f : α → Except φ γ} {g : β → Except φ δ} (h : Alike ren R x y)
    (hfg : ∀ a b, R a b → Alike ren S (f a) (g b)) : Alike ren S (x >>= f) (y >>= g) := by
  cases h with
  | ok hab => exact hfg _ _ hab
  | error fault => exact .error fault

theorem Alike.map {f : α → γ} {g : β → δ} (h : Alike ren R x y)
    (hfg : ∀ a b, R a b → S (f a) (g b)) : Alike ren S (x.map f) (y.map g) := by
  cases h with
  | ok hab => exact .ok (hfg _ _ hab)
  | error fault => exact .error fault

end

/-- Two passes that answer alike to each statement and its renamed copy go through a program and its
renamed copy in step. -/
theorem walk_rename {σ φ : Type} {step : σ → Stmt → Except φ σ} {ren : φ → φ} {R : σ → σ → Prop}
    {r : Bytes → Bytes} {names : List Bytes}
    (hstep : ∀ {s s' stmt}, R s s' → stmt.names ⊆ names →
      Alike ren R (step s stmt) (step s' (stmt.rename r)))
    {p : Program} (hp : p.names ⊆ names) {s s' : σ} (hs : R s s') (index : Nat) :
    ∃ t t' stop, walk step index s p = (t, stop) ∧
      walk step index s' (p.rename r) = (t', stop.map (Halt.map ren)) ∧ R t t' := by
  induction p generalizing s s' index with
  | nil => exact ⟨s, s', none, rfl, rfl, hs⟩
  | cons stmt p ih =>
    obtain ⟨hstmt, hrest⟩ := List.append_subset.1 hp
    rw [Program.rename, List.map_cons]
    obtain ⟨t, t', hx, hy, ht⟩ | ⟨fault, hx, hy⟩ := (hstep hs hstmt).ok_or_error
    · rw [walk_cons_ok hx, walk_cons_ok hy]
      exact ih hrest ht (index + 1)
    · rw [walk_cons_error hx, walk_cons_error hy, Stmt.line_rename]
      exact ⟨s, s', some ⟨index, stmt.line, fault⟩, rfl, rfl, hs⟩

/-! ## Scopes -/

/-- A name stands for something in the first scope just if the renamed one stands for something
related in the second. -/
def Scope.Renamed {α : Type} (r : Bytes → Bytes) (names : List Bytes) (R : α → α → Prop)
    (s s' : Scope α) : Prop :=
  ∀ x ∈ names, Option.Rel R (s.find? x) (s'.find? (r x))

namespace Scope.Renamed

variable {α : Type} {r : Bytes → Bytes} {names : List Bytes} {R : α → α → Prop} {s s' : Scope α}
  {kind : α → Kind} {x : Bytes}

theorem empty : Renamed r names R Scope.empty Scope.empty := by
  intro x _
  exact .none

/-- Without injectivity, a `let` would give a value to names that are other ones in the first
program. -/
theorem bind (h : Renamed r names R s s') (hr : InjectiveOn r names) (hx : x ∈ names) {a b : α}
    (hab : R a b) : Renamed r names R (s.bind x a) (s'.bind (r x) b) := by
  intro y hy
  rw [find?_bind, find?_bind]
  by_cases heq : y = x
  · rw [if_pos heq, if_pos (congrArg r heq)]
    exact .some hab
  · rw [if_neg heq, if_neg fun hrenamed => heq (hr y hy x hx hrenamed)]
    exact h y hy

theorem find (h : Renamed r names R s s') (hx : x ∈ names) :
    (s.find? x = none ∧ s'.find? (r x) = none) ∨
      ∃ a b, s.find? x = some a ∧ s'.find? (r x) = some b ∧ R a b := by
  have hrel := h x hx
  revert hrel
  generalize s.find? x = a?
  generalize s'.find? (r x) = b?
  intro hrel
  cases hrel with
  | none => exact .inl ⟨rfl, rfl⟩
  | some hab => exact .inr ⟨_, _, rfl, rfl, hab⟩

theorem subject (h : Renamed r names R s s') (hx : x ∈ names) :
    Alike (SemanticFault.rename r) R (s.subject x) (s'.subject (r x)) := by
  unfold Scope.subject
  obtain ⟨hfind, hfind'⟩ | ⟨a, b, hfind, hfind', hab⟩ := h.find hx
  · rw [hfind, hfind']
    exact .error (SemanticFault.undefined x)
  · rw [hfind, hfind']
    exact .ok hab

theorem operand (h : Renamed r names R s s') (hkind : ∀ a b, R a b → kind b = kind a)
    (hx : x ∈ names) :
    Alike (SemanticFault.rename r) R (s.operand kind x) (s'.operand kind (r x)) := by
  unfold Scope.operand
  obtain ⟨hfind, hfind'⟩ | ⟨a, b, hfind, hfind', hab⟩ := h.find hx
  · rw [hfind, hfind']
    exact .error (SemanticFault.undefined x)
  · rw [hfind, hfind']
    simp only [hkind a b hab]
    split
    · exact .ok hab
    · exact .error (SemanticFault.stringOperand x)

theorem allow (h : Renamed r names R s s') (hkind : ∀ a b, R a b → kind b = kind a)
    (hx : x ∈ names) (new : Kind) :
    Alike (SemanticFault.rename r) Eq (s.allow kind x new) (s'.allow kind (r x) new) := by
  unfold Scope.allow
  obtain ⟨hfind, hfind'⟩ | ⟨a, b, hfind, hfind', hab⟩ := h.find hx
  · rw [hfind, hfind']
    exact .ok rfl
  · rw [hfind, hfind']
    simp only [hkind a b hab]
    split
    · exact .ok rfl
    · exact .error (SemanticFault.rebound x (kind a) new)

end Scope.Renamed

section

variable {r : Bytes → Bytes} {names : List Bytes} (hr : InjectiveOn r names)

/-! ## Bytecode -/

namespace CodeState

variable {scope scope' : Scope SlotInfo} {g g' : CodeState} {e : Expr} {s : Stmt} {line : Int}

theorem exprCode_rename (h : scope.Renamed r names Eq scope') (he : e.reads ⊆ names) :
    Alike (SemanticFault.rename r) Eq (exprCode scope line e) (exprCode scope' line (e.rename r)) := by
  induction e with
  | int n pos => exact .ok rfl
  | var name pos =>
    rw [Expr.rename, exprCode, exprCode]
    refine (h.operand (fun _ _ heq => heq ▸ rfl) (he List.mem_cons_self)).bind ?_
    rintro info _ rfl
    exact .ok rfl
  | str text pos => exact .error SemanticFault.stringLiteral
  | neg operand pos ih =>
    rw [Expr.rename, exprCode, exprCode]
    refine (ih he).bind ?_
    rintro code _ rfl
    exact .ok rfl
  | bin op left right pos ihl ihr =>
    obtain ⟨hl, hr⟩ := List.append_subset.1 he
    rw [Expr.rename, exprCode, exprCode]
    refine (ihl hl).bind ?_
    rintro leftCode _ rfl
    refine (ihr hr).bind ?_
    rintro rightCode _ rfl
    cases op with
    | unknown => exact .error (SemanticFault.unknownOperator .unknown)
    | _ => exact .ok rfl
  | missing => exact .error SemanticFault.missingExpr

/-- The states of the two passes: one chunk, and scopes that differ by the renaming. -/
structure Renamed (r : Bytes → Bytes) (names : List Bytes) (g g' : CodeState) : Prop where
  chunk : g'.chunk = g.chunk
  scope : g.scope.Renamed r names Eq g'.scope

theorem valueCode_rename (h : g.Renamed r names g') (he : e.reads ⊆ names) :
    Alike (SemanticFault.rename r) Eq (g.valueCode line e) (g'.valueCode line (e.rename r)) := by
  cases hkind : e.kind with
  | int =>
    have hkind' : (e.rename r).kind = .int := by rw [Expr.kind_rename, hkind]
    rw [valueCode_int hkind, valueCode_int hkind']
    refine (exprCode_rename h.scope he).map ?_
    rintro code _ rfl
    rfl
  | str =>
    cases e with
    | str text pos =>
      rw [Expr.rename, valueCode, valueCode, h.chunk]
      exact .ok rfl
    | _ => cases hkind

include hr

theorem stmt_rename (h : g.Renamed r names g') (hs : s.names ⊆ names) :
    Alike (SemanticFault.rename r) (Renamed r names) (g.stmt s) (g'.stmt (s.rename r)) := by
  cases s with
  | bind name e line =>
    obtain ⟨hname, he⟩ := List.cons_subset.1 hs
    rw [Stmt.rename, stmt, stmt, Expr.kind_rename, h.chunk]
    refine (h.scope.allow (fun _ _ heq => heq ▸ rfl) hname e.kind).bind ?_
    rintro _ _ -
    refine (valueCode_rename h he).bind ?_
    rintro ⟨code, strings⟩ _ rfl
    exact .ok ⟨rfl, h.scope.bind hr hname rfl⟩
  | print name line =>
    rw [Stmt.rename, stmt, stmt, h.chunk]
    refine (h.scope.subject (hs List.mem_cons_self)).bind ?_
    rintro info _ rfl
    exact .ok ⟨rfl, h.scope⟩
  | foreign typeName line => exact .error (SemanticFault.foreignStmt typeName)

end CodeState

/-! ## Runs -/

namespace Values

variable {values values' : Values} {e : Expr} {name : Bytes}

theorem operandWord_rename (h : values.Renamed r names Eq values') (hname : name ∈ names) :
    Alike (SemanticFault.rename r) Eq (values.operandWord name) (values'.operandWord (r name)) := by
  have halike := h.operand (fun _ _ heq => (congrArg Value.kind heq).symm) hname
  unfold operandWord
  obtain ⟨v, _, hx, hy, rfl⟩ | ⟨fault, hx, hy⟩ := halike.ok_or_error
  · rw [hx, hy]
    cases v with
    | int n => exact .ok rfl
    | str text => exact .error (SemanticFault.stringOperand name)
  · rw [hx, hy]
    exact .error fault

theorem evaluate_rename (h : values.Renamed r names Eq values') (he : e.reads ⊆ names) :
    Alike (SemanticFault.rename r) Eq (values.evaluate e) (values'.evaluate (e.rename r)) := by
  induction e with
  | int n pos => exact .ok rfl
  | var name pos => exact operandWord_rename h (he List.mem_cons_self)
  | str text pos => exact .error SemanticFault.stringLiteral
  | neg operand pos ih =>
    rw [Expr.rename, evaluate, evaluate]
    refine (ih he).bind ?_
    rintro n _ rfl
    exact .ok rfl
  | bin op left right pos ihl ihr =>
    obtain ⟨hl, hr⟩ := List.append_subset.1 he
    rw [Expr.rename, evaluate, evaluate]
    refine (ihl hl).bind ?_
    rintro a _ rfl
    refine (ihr hr).bind ?_
    rintro b _ rfl
    cases op with
    | unknown => exact .error (SemanticFault.unknownOperator .unknown)
    | _ => exact .ok rfl
  | missing => exact .error SemanticFault.missingExpr

theorem evaluateValue_rename (h : values.Renamed r names Eq values') (he : e.reads ⊆ names) :
    Alike (SemanticFault.rename r) Eq (values.evaluateValue e)
      (values'.evaluateValue (e.rename r)) := by
  cases hkind : e.kind with
  | int =>
    have hkind' : (e.rename r).kind = .int := by rw [Expr.kind_rename, hkind]
    rw [evaluateValue_int hkind, evaluateValue_int hkind']
    refine (evaluate_rename h he).map ?_
    rintro n _ rfl
    rfl
  | str =>
    cases e with
    | str text pos => exact .ok rfl
    | _ => cases hkind

end Values

namespace RunState

variable {t t' : RunState} {s : Stmt} {e : Expr} {name : Bytes}

/-- The states of the two runs: one output, and values that differ by the renaming. -/
structure Renamed (r : Bytes → Bytes) (names : List Bytes) (t t' : RunState) : Prop where
  out : t'.out = t.out
  values : t.values.Renamed r names Eq t'.values

include hr

theorem assign_rename (h : t.Renamed r names t') (hname : name ∈ names) (he : e.reads ⊆ names) :
    Alike (SemanticFault.rename r) (Renamed r names) (t.assign name e)
      (t'.assign (r name) (e.rename r)) := by
  unfold assign
  refine (Values.evaluateValue_rename h.values he).bind ?_
  rintro v _ rfl
  refine (h.values.allow (fun _ _ heq => heq ▸ rfl) hname v.kind).bind ?_
  rintro _ _ -
  exact .ok ⟨h.out, h.values.bind hr hname rfl⟩

theorem exec_rename (h : t.Renamed r names t') (hs : s.names ⊆ names) :
    Alike (RunFault.rename r) (Renamed r names) (t.exec s) (t'.exec (s.rename r)) := by
  cases s with
  | bind name e line =>
    obtain ⟨hname, he⟩ := List.cons_subset.1 hs
    rw [Stmt.rename, exec, exec]
    obtain ⟨u, u', hx, hy, hu⟩ | ⟨fault, hx, hy⟩ := (assign_rename hr h hname he).ok_or_error
    · rw [hx, hy]
      exact .ok hu
    · rw [hx, hy]
      exact .error (RunFault.semantic fault)
  | print name line =>
    have halike := h.values.subject (hs List.mem_cons_self)
    rw [Stmt.rename, exec, exec, h.out]
    obtain ⟨v, _, hx, hy, rfl⟩ | ⟨fault, hx, hy⟩ := halike.ok_or_error
    · rw [hx, hy]
      cases hwrite : t.out.write? v.line with
      | some out =>
        simp only [hwrite]
        exact .ok ⟨rfl, h.values⟩
      | none =>
        simp only [hwrite]
        exact .error RunFault.refused
    · rw [hx, hy]
      exact .error (RunFault.semantic fault)
  | foreign typeName line => exact .error (RunFault.semantic (.foreignStmt typeName))

end RunState

end

/-! ## Modules -/

namespace Ir

/-- The name of a cell with its variable renamed.  What stands before the last point is the
variable. -/
def renameCell (r : Bytes → Bytes) (cell : Bytes) : Bytes :=
  let number := (cell.reverse.takeWhile (· != byte '.')).reverse
  r (cell.take (cell.length - number.length - 1)) ++ utf8 "." ++ number

/-- The operand with the cells renamed by `f`. -/
def Operand.renameCells (f : Bytes → Bytes) : Operand → Operand
  | .register (.named name) ty => .register (.named (f name)) ty
  | o => o

/-- The operation on renamed cells. -/
def Operation.renameCells (f : Bytes → Bytes) : Operation → Operation
  | .alloca ty => .alloca ty
  | .load ty source => .load ty (source.renameCells f)
  | .store value target => .store (value.renameCells f) (target.renameCells f)
  | .arith op x y => .arith op (x.renameCells f) (y.renameCells f)
  | .icmp predicate x y => .icmp predicate (x.renameCells f) (y.renameCells f)
  | .select condition x y =>
    .select (condition.renameCells f) (x.renameCells f) (y.renameCells f)
  | .call callee args => .call (callee.renameCells f) (args.map (·.renameCells f))
  | .firstByte size array => .firstByte size (array.renameCells f)
  | .other ty text operands => .other ty text (operands.map fun (o, more) => (o.renameCells f, more))

/-- The instruction on renamed cells: an `alloca` makes a cell of the new name, and any other
instruction keeps the name of its result. -/
def Instruction.renameCells (f : Bytes → Bytes) (i : Instruction) : Instruction :=
  match i.operation with
  | .alloca _ => { i with name := i.name.map f }
  | op => { i with operation := op.renameCells f }

/-- The terminator on renamed cells. -/
def Terminator.renameCells (f : Bytes → Bytes) : Terminator → Terminator
  | .ret value => .ret (value.renameCells f)
  | .retVoid => .retVoid
  | .unreachable => .unreachable
  | .other text operands => .other text (operands.map fun (o, more) => (o.renameCells f, more))

/-- The block on renamed cells. -/
def Block.renameCells (f : Bytes → Bytes) (b : Block) : Block :=
  { b with
    instructions := b.instructions.map (·.renameCells f)
    terminator := b.terminator.map (·.renameCells f) }

/-- The function on renamed cells. -/
def Function.renameCells (f : Bytes → Bytes) (g : Function) : Function :=
  { g with blocks := g.blocks.map (·.renameCells f) }

/-- The module on renamed cells; nothing else is changed. -/
def Module.renameCells (f : Bytes → Bytes) (m : Module) : Module :=
  { m with functions := m.functions.map (·.renameCells f) }

/-- The names of the results in a module. -/
def Module.resultNames (m : Module) : List Bytes :=
  m.functions.flatMap fun g => g.blocks.flatMap fun b => b.instructions.filterMap (·.name)

theorem renameCell_eq (r : Bytes → Bytes) (x : Bytes) (k : Nat) :
    renameCell r (x ++ utf8 "." ++ decimal k) = r x ++ utf8 "." ++ decimal k := by
  have hdigits : ∀ b ∈ (decimal k).reverse, (b != byte '.') = true := by
    intro b hb
    have hdigit := isDigit_of_mem_decimal (List.mem_reverse.1 hb)
    refine bne_iff_ne.2 ?_
    rintro rfl
    cases hdigit
  have hpoint : utf8 "." = [byte '.'] := by decide
  have hnumber : ((x ++ utf8 "." ++ decimal k).reverse.takeWhile (· != byte '.')).reverse =
      decimal k := by
    rw [hpoint, List.reverse_append, List.reverse_append, List.reverse_singleton,
      List.takeWhile_append_of_pos hdigits, List.singleton_append,
      List.takeWhile_cons_of_neg (by simp), List.append_nil, List.reverse_reverse]
  have hlength : (x ++ utf8 "." ++ decimal k).length - (decimal k).length - 1 = x.length := by
    rw [hpoint, List.length_append, List.length_append, List.length_singleton]
    omega
  rw [renameCell, hnumber, hlength, List.append_assoc x, List.take_left]

/-- A fragment on renamed cells. -/
def renameFragment (f : Bytes → Bytes) (fragment : Fragment) : Fragment :=
  (fragment.1.map (·.renameCells f), fragment.2.renameCells f)

/-- The cell of the renamed variable. -/
def Cell.rename (r : Bytes → Bytes) (c : Cell) : Cell :=
  { c with name := renameCell r c.name }

theorem Cell.kind_rename (r : Bytes → Bytes) : ∀ c c' : Cell, c' = c.rename r → c'.kind = c.kind := by
  rintro c _ rfl
  rfl

section

variable {r : Bytes → Bytes} {names : List Bytes} {scope scope' : Scope Cell} {g g' : LowerState}
  {e : Expr} {s : Stmt} {next : Nat}

theorem operatorCode_rename (op : Operator) (a b : Operand) :
    Alike (SemanticFault.rename r) (fun x y => y = renameFragment (renameCell r) x)
      (operatorCode next op a b)
      (operatorCode next op (a.renameCells (renameCell r)) (b.renameCells (renameCell r))) := by
  cases op with
  | unknown => exact .error (SemanticFault.unknownOperator .unknown)
  | _ => exact .ok rfl

theorem exprCode_rename (h : scope.Renamed r names (fun c c' => c' = c.rename r) scope')
    (he : e.reads ⊆ names) :
    Alike (SemanticFault.rename r) (fun x y => y = renameFragment (renameCell r) x)
      (exprCode scope next e) (exprCode scope' next (e.rename r)) := by
  induction e generalizing next with
  | int n pos => exact .ok rfl
  | var name pos =>
    rw [Expr.rename, exprCode, exprCode]
    refine (h.operand (Cell.kind_rename r) (he List.mem_cons_self)).bind ?_
    rintro cell _ rfl
    exact .ok rfl
  | str text pos => exact .error SemanticFault.stringLiteral
  | neg operand pos ih =>
    rw [Expr.rename, exprCode, exprCode]
    refine (ih he).bind ?_
    rintro ⟨code, v⟩ _ rfl
    refine .ok ?_
    simp only [renameFragment, List.map_append, List.length_map]
    rfl
  | bin op left right pos ihl ihr =>
    obtain ⟨hl, hr⟩ := List.append_subset.1 he
    rw [Expr.rename, exprCode, exprCode]
    refine (ihl hl).bind ?_
    rintro ⟨leftCode, a⟩ _ rfl
    simp only [renameFragment, List.length_map]
    refine (ihr hr).bind ?_
    rintro ⟨rightCode, b⟩ _ rfl
    simp only [renameFragment, List.length_map]
    refine (operatorCode_rename op a b).bind ?_
    rintro ⟨opCode, v⟩ _ rfl
    refine .ok ?_
    simp only [renameFragment, List.map_append]
  | missing => exact .error SemanticFault.missingExpr

namespace LowerState

/-- The states of the two passes: they differ by the names of the cells. -/
structure Renamed (r : Bytes → Bytes) (names : List Bytes) (g g' : LowerState) : Prop where
  globals : g'.globals = g.globals
  code : g'.code = g.code.map (·.renameCells (renameCell r))
  scope : g.scope.Renamed r names (fun c c' => c' = c.rename r) g'.scope
  bindings : g'.bindings = g.bindings
  literals : g'.literals = g.literals

theorem Renamed.length (h : g.Renamed r names g') : g'.code.length = g.code.length := by
  rw [h.code, List.length_map]

theorem nextCell_rename (h : g.Renamed r names g') (name : Bytes) (kind : Kind) :
    g'.nextCell (r name) kind = (g.nextCell name kind).rename r := by
  rw [nextCell, nextCell, Cell.rename, renameCell_eq, h.bindings]

theorem valueCode_rename (h : g.Renamed r names g') (he : e.reads ⊆ names) :
    Alike (SemanticFault.rename r) (fun x y => y = (renameFragment (renameCell r) x.1, x.2))
      (g.valueCode e) (g'.valueCode (e.rename r)) := by
  cases hkind : e.kind with
  | int =>
    have hkind' : (e.rename r).kind = .int := by rw [Expr.kind_rename, hkind]
    rw [valueCode_int hkind, valueCode_int hkind', h.length]
    refine (exprCode_rename h.scope he).map ?_
    rintro fragment _ rfl
    rfl
  | str =>
    cases e with
    | str text pos =>
      rw [Expr.rename, valueCode, valueCode, h.length, h.literals]
      exact .ok rfl
    | _ => cases hkind

theorem stmt_rename (hr : InjectiveOn r names) (h : g.Renamed r names g') (hs : s.names ⊆ names) :
    Alike (SemanticFault.rename r) (Renamed r names) (g.stmt s) (g'.stmt (s.rename r)) := by
  cases s with
  | bind name e line =>
    obtain ⟨hname, he⟩ := List.cons_subset.1 hs
    rw [Stmt.rename, stmt, stmt, Expr.kind_rename, nextCell_rename h]
    refine (h.scope.allow (Cell.kind_rename r) hname e.kind).bind ?_
    rintro _ _ -
    refine (valueCode_rename h he).bind ?_
    rintro ⟨⟨code, v⟩, constant⟩ _ rfl
    refine .ok ⟨?_, ?_, h.scope.bind hr hname rfl, ?_, ?_⟩
    · simp only [h.globals]
    · simp only [h.code, List.map_append]
      rfl
    · simp only [h.bindings]
    · simp only [h.literals]
  | print name line =>
    rw [Stmt.rename, stmt, stmt]
    refine (h.scope.subject (hs List.mem_cons_self)).bind ?_
    rintro cell _ rfl
    refine .ok ⟨h.globals, ?_, h.scope, h.bindings, h.literals⟩
    simp only [h.code, List.map_append, List.length_map]
    obtain ⟨cellName, kind⟩ := cell
    cases kind with
    | int => rfl
    | str => rfl
  | foreign typeName line => exact .error (SemanticFault.foreignStmt typeName)

theorem Renamed.initial : Renamed r names initial initial :=
  ⟨rfl, rfl, .empty, rfl, rfl⟩

theorem Renamed.finish (h : g.Renamed r names g') (triple : Bytes) :
    g'.finish triple = (g.finish triple).renameCells (renameCell r) := by
  rw [LowerState.finish, h.globals, h.code]
  rfl

end LowerState

/-- The name of a cell begins with a name of the program. -/
theorem mem_names_of_mem_cellNames {p : Program} {cell : Bytes} (h : cell ∈ cellNames 0 p) :
    ∃ x ∈ p.names, ∃ k, cell = x ++ utf8 "." ++ decimal k := by
  obtain ⟨⟨x, k⟩, hmem, rfl⟩ := List.mem_map.1 h
  refine ⟨x, ?_, k, rfl⟩
  obtain ⟨s, hs, hbound⟩ := List.mem_filterMap.1 (List.fst_mem_of_mem_zipIdx hmem)
  refine List.mem_flatMap.2 ⟨s, hs, ?_⟩
  cases s with
  | bind name e line =>
    cases hbound
    exact List.mem_cons_self
  | _ => cases hbound

/-- No two cells become one. -/
theorem renameCell_injectiveOn {p : Program} (hr : InjectiveOn r p.names) :
    InjectiveOn (renameCell r) (cellNames 0 p) := by
  intro a ha b hb heq
  obtain ⟨x, hx, j, rfl⟩ := mem_names_of_mem_cellNames ha
  obtain ⟨y, hy, k, rfl⟩ := mem_names_of_mem_cellNames hb
  rw [renameCell_eq, renameCell_eq] at heq
  obtain rfl : j = k := number_eq_of_name_eq heq
  have hsame := List.append_cancel_right (List.append_cancel_right heq)
  rw [hr x hx y hy hsame]

end

end Ir

/-! ## The passes -/

namespace Program

variable {r : Bytes → Bytes} {p : Program} (hr : InjectiveOn r p.names)

include hr

theorem chunk_rename :
    (p.rename r).chunk = p.chunk.mapError (Halt.map (SemanticFault.rename r)) := by
  have hstart : CodeState.Renamed r p.names {} {} := ⟨rfl, .empty⟩
  obtain ⟨⟨chunk, _⟩, ⟨chunk', _⟩, stop, hx, hy, hg⟩ :=
    walk_rename (CodeState.stmt_rename hr) (List.Subset.refl _) hstart 0
  rw [Program.chunk, Program.chunk, hx, hy]
  cases stop with
  | none =>
    obtain rfl : chunk' = chunk := hg.chunk
    rfl
  | some halt => rfl

theorem run_rename (out : Sink) :
    (p.rename r).run out = ((p.run out).1, (p.run out).2.map (Halt.map (RunFault.rename r))) := by
  have hstart : RunState.Renamed r p.names { out } { out } := ⟨rfl, .empty⟩
  obtain ⟨t, t', stop, hx, hy, ht⟩ :=
    walk_rename (RunState.exec_rename hr) (List.Subset.refl _) hstart 0
  rw [run_eq hx, run_eq hy, ht.out]

theorem lower_rename (triple : Bytes) :
    (p.rename r).lower triple =
      ((p.lower triple).map (Ir.Module.renameCells (Ir.renameCell r))).mapError
        (Halt.map (SemanticFault.rename r)) := by
  obtain ⟨g, g', stop, hx, hy, hg⟩ :=
    walk_rename (Ir.LowerState.stmt_rename hr) (List.Subset.refl _) .initial 0
  rw [lower, lower, hx, hy]
  cases stop with
  | none => exact congrArg Except.ok (hg.finish triple)
  | some halt => rfl

theorem resultNames_injectiveOn {triple : Bytes} {m : Ir.Module} (h : p.lower triple = .ok m) :
    InjectiveOn (Ir.renameCell r) m.resultNames := by
  obtain ⟨g, hwalk, rfl⟩ := Ir.walk_of_lower h
  have hnames : (g.finish triple).resultNames = Ir.cellNames 0 p := by
    rw [← (Ir.LowerState.code_of_walk hwalk).2]
    simp [Ir.Module.resultNames, Ir.LowerState.finish, Ir.printfFunction]
  rw [hnames]
  exact Ir.renameCell_injectiveOn hr

end Program

/-- Renaming the variables of a program, without two of them becoming one, changes the faults and the
cells that are named after them, and nothing else. -/
theorem Program.rename_irrelevant {r : Bytes → Bytes} {p : Program} (hr : InjectiveOn r p.names) :
    (p.rename r).chunk = p.chunk.mapError (Halt.map (SemanticFault.rename r)) ∧
    (∀ out, (p.rename r).run out =
      ((p.run out).1, (p.run out).2.map (Halt.map (RunFault.rename r)))) ∧
    ∀ triple,
      (p.rename r).lower triple =
        ((p.lower triple).map (Ir.Module.renameCells (Ir.renameCell r))).mapError
          (Halt.map (SemanticFault.rename r)) ∧
      ∀ m, p.lower triple = .ok m → InjectiveOn (Ir.renameCell r) m.resultNames :=
  ⟨chunk_rename hr, run_rename hr,
    fun triple => ⟨lower_rename hr triple, fun _ hm => resultNames_injectiveOn hr hm⟩⟩

/-- Exchange two names. -/
def exchange (a b x : Bytes) : Bytes :=
  if x = a then b else if x = b then a else x

theorem exchange_exchange (a b x : Bytes) : exchange a b (exchange a b x) = x := by
  unfold exchange
  split <;> split <;> simp_all

/-- The names `x` and `x.0` exchanged, where a cell of the first could be taken for the second. -/
theorem Program.rename_irrelevant_exchanged :
    ∃ r c m, r = exchange (utf8 "x") (utf8 "x.0") ∧ InjectiveOn r (Program.names confusableNames) ∧
      confusableNames.chunk = .ok c ∧ (Program.rename r confusableNames).chunk = .ok c ∧
      (∀ out, ((Program.rename r confusableNames).run out).1 = (confusableNames.run out).1) ∧
      confusableNames.lower [] = .ok m ∧
      (Program.rename r confusableNames).lower [] = .ok (m.renameCells (Ir.renameCell r)) := by
  obtain ⟨c, hchunk⟩ : ∃ c, confusableNames.chunk = .ok c := ⟨_, rfl⟩
  obtain ⟨m, hlower⟩ : ∃ m, confusableNames.lower [] = .ok m := ⟨_, rfl⟩
  have hr : InjectiveOn (exchange (utf8 "x") (utf8 "x.0")) (Program.names confusableNames) := by
    intro x _ y _ heq
    rw [← exchange_exchange (utf8 "x") (utf8 "x.0") x, heq, exchange_exchange]
  have hrename := Program.rename_irrelevant hr
  rw [hchunk] at hrename
  obtain ⟨hchunk', hrun, hmodules⟩ := hrename
  have hlower' := (hmodules []).1
  rw [hlower] at hlower'
  refine ⟨_, c, m, rfl, hr, hchunk, hchunk', ?_, hlower, hlower'⟩
  intro out
  rw [hrun out]

end LetPrint

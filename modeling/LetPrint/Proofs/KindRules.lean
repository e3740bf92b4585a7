import LetPrint.Proofs.Backend
import LetPrint.Proofs.Passes
import LetPrint.Typing

/-!
# The kind rules

Four passes enforce the rules on names and kinds: the checker, the interpreter, and the generators of
bytecode and of modules.  Each keeps what it knows of a name in a scope of its own, and two of them
look at the name of a `let` before they look at its value.  This file states the rules once and shows
that the four passes follow them.

* `Stmt.WellKinded` is the rules as a relation, without a pass in it.  `FirstBad` is the first
  statement of a program that breaks them.
* `Stmt.fault?` is the fault that a pass reports, in the order in which it looks.
  `Stmt.fault?_eq_none_iff` says that the order does not matter to whether there is one.
* `FollowsRules` says that a pass reports these faults; `FollowsRules.walk` carries it from
  statements to programs.
* `passes_reject_alike` is the result: the four passes accept the same programs, and reject the
  others at the same statement.

An operator outside the four is not covered: the checker does not look at operators.
-/

namespace LetPrint

/-! ## The rules as a relation -/

/-- The kinds of the names that are bound at some point of a program. -/
abbrev KindMap := Bytes → Option Kind

/-- Every operand of an expression is an integer. -/
inductive Expr.IsInteger (κ : KindMap) : Expr → Prop where
  | int (n : Int32) (pos : Position) : IsInteger κ (.int n pos)
  | var {name : Bytes} (pos : Position) (h : κ name = some .int) : IsInteger κ (.var name pos)
  | neg {operand : Expr} (pos : Position) (h : IsInteger κ operand) :
      IsInteger κ (.neg operand pos)
  | bin {left right : Expr} (op : Operator) (pos : Position) (hl : IsInteger κ left)
      (hr : IsInteger κ right) : IsInteger κ (.bin op left right pos)

/-- A name has the given kind, or none yet. -/
def KindMap.Admits (κ : KindMap) (name : Bytes) (kind : Kind) : Prop :=
  ∀ old, κ name = some old → old = kind

/-- A statement keeps the rules where the names have the given kinds. -/
inductive Stmt.WellKinded (κ : KindMap) : Stmt → Prop where
  | bindString {name : Bytes} (text : Bytes) (pos : Position) (line : Int)
      (hname : κ.Admits name .str) : WellKinded κ (.bind name (.str text pos) line)
  | bindInteger {name : Bytes} {e : Expr} (line : Int) (hvalue : e.IsInteger κ)
      (hname : κ.Admits name .int) : WellKinded κ (.bind name e line)
  | print {name : Bytes} {kind : Kind} (line : Int) (hname : κ name = some kind) :
      WellKinded κ (.print name line)

/-- The kinds behind a statement. -/
def Stmt.declare (κ : KindMap) : Stmt → KindMap
  | bind name e _ => fun other => if other = name then some e.kind else κ other
  | _ => κ

/-- All statements of a program keep the rules. -/
inductive WellKinded : KindMap → Program → Prop where
  | nil (κ : KindMap) : WellKinded κ []
  | cons {κ : KindMap} {s : Stmt} {p : Program} (first : s.WellKinded κ)
      (rest : WellKinded (s.declare κ) p) : WellKinded κ (s :: p)

/-- The statement of a program with the given index is the first that breaks the rules. -/
inductive FirstBad : KindMap → Program → Nat → Stmt → Prop where
  | here {κ : KindMap} {s : Stmt} (p : Program) (bad : ¬ s.WellKinded κ) :
      FirstBad κ (s :: p) 0 s
  | later {κ : KindMap} {s bad : Stmt} {p : Program} {index : Nat} (first : s.WellKinded κ)
      (rest : FirstBad (s.declare κ) p index bad) : FirstBad κ (s :: p) (index + 1) bad

/-- A program has at most one first bad statement. -/
theorem FirstBad.unique {κ : KindMap} {p : Program} {i j : Nat} {s t : Stmt}
    (hs : FirstBad κ p i s) (ht : FirstBad κ p j t) : i = j ∧ s = t := by
  induction hs generalizing j with
  | here p bad =>
    cases ht with
    | here => exact ⟨rfl, rfl⟩
    | later first => exact absurd first bad
  | later first rest ih =>
    cases ht with
    | here p bad => exact absurd first bad
    | later first' rest' =>
      obtain ⟨hindex, hstmt⟩ := ih rest'
      exact ⟨by rw [hindex], hstmt⟩

/-- A program without a bad statement has no first one. -/
theorem WellKinded.not_firstBad {κ : KindMap} {p : Program} (h : WellKinded κ p) {i : Nat}
    {s : Stmt} : ¬ FirstBad κ p i s := by
  intro hs
  induction hs with
  | here p bad =>
    cases h with
    | cons first rest => exact bad first
  | later first rest ih =>
    cases h with
    | cons first' rest' => exact ih rest'

/-! ## The fault that is reported -/

/-- The fault of an operand, if it is no integer. -/
def operandFault? (κ : KindMap) (name : Bytes) : Option SemanticFault :=
  match κ name with
  | none => some (.undefined name)
  | some .int => none
  | some .str => some (.stringOperand name)

/-- The fault of the leftmost operand that is no integer. -/
def Expr.fault? (κ : KindMap) : Expr → Option SemanticFault
  | int _ _ => none
  | var name _ => operandFault? κ name
  | str _ _ => some .stringLiteral
  | neg operand _ => operand.fault? κ
  | bin _ left right _ => (left.fault? κ).or (right.fault? κ)
  | missing => some .missingExpr

/-- The fault of a right-hand side. -/
def Expr.valueFault? (κ : KindMap) (e : Expr) : Option SemanticFault :=
  match e.kind with
  | .str => none
  | .int => e.fault? κ

/-- The fault of a name that is bound to another kind than it has. -/
def clash? (κ : KindMap) (name : Bytes) (new : Kind) : Option SemanticFault :=
  match κ name with
  | none => none
  | some old => if old = new then none else some (.rebound name old new)

/-- What a pass looks at first in a `let`. -/
inductive LetOrder where
  | valueFirst
  | nameFirst
  deriving DecidableEq, Repr

/-- The fault of a statement. -/
def Stmt.fault? (order : LetOrder) (κ : KindMap) : Stmt → Option SemanticFault
  | bind name e _ =>
    match order with
    | .valueFirst => (e.valueFault? κ).or (clash? κ name e.kind)
    | .nameFirst => (clash? κ name e.kind).or (e.valueFault? κ)
  | print name _ => if (κ name).isSome then none else some (.undefined name)
  | foreign typeName _ => some (.foreignStmt typeName)

/-- The first fault of a program, the first statement of which has the given index. -/
def Program.fault? (order : LetOrder) : KindMap → Nat → Program → Option SemanticError
  | _, _, [] => none
  | κ, index, s :: p =>
    match s.fault? order κ with
    | some fault => some ⟨index, s.line, fault⟩
    | none => fault? order (s.declare κ) (index + 1) p

theorem Expr.fault?_eq_none_iff {κ : KindMap} {e : Expr} :
    e.fault? κ = none ↔ e.IsInteger κ := by
  induction e with
  | int n pos => exact ⟨fun _ => .int n pos, fun _ => rfl⟩
  | var name pos =>
    unfold fault? operandFault?
    constructor
    · intro h
      split at h
      · cases h
      · exact .var pos ‹_›
      · cases h
    · rintro ⟨⟩
      rename_i h
      rw [h]
  | str text pos => exact ⟨nofun, nofun⟩
  | neg operand pos ih =>
    rw [fault?, ih]
    exact ⟨.neg pos, fun | .neg _ h => h⟩
  | bin op left right pos ihl ihr =>
    rw [fault?, Option.or_eq_none_iff, ihl, ihr]
    exact ⟨fun ⟨hl, hr⟩ => .bin op pos hl hr, fun | .bin _ _ hl hr => ⟨hl, hr⟩⟩
  | missing => exact ⟨nofun, nofun⟩

theorem clash?_eq_none_iff {κ : KindMap} {name : Bytes} {new : Kind} :
    clash? κ name new = none ↔ κ.Admits name new := by
  unfold clash? KindMap.Admits
  cases κ name with
  | none => simp
  | some old => simp

theorem Expr.valueFault?_int {κ : KindMap} {e : Expr} (h : e.kind = .int) :
    e.valueFault? κ = e.fault? κ := by
  rw [valueFault?, h]

/-- A `let` keeps the rules if its value and its name do. -/
theorem Stmt.wellKinded_bind_iff {κ : KindMap} {name : Bytes} {e : Expr} {line : Int} :
    (Stmt.bind name e line).WellKinded κ ↔
      e.valueFault? κ = none ∧ κ.Admits name e.kind := by
  cases hkind : e.kind with
  | int =>
    rw [Expr.valueFault?_int hkind, Expr.fault?_eq_none_iff]
    constructor
    · intro h
      cases h with
      | bindString => cases hkind
      | bindInteger _ hvalue hname => exact ⟨hvalue, hname⟩
    · exact fun ⟨hvalue, hname⟩ => .bindInteger line hvalue hname
  | str =>
    cases e with
    | str text pos =>
      constructor
      · intro h
        cases h with
        | bindString _ _ _ hname => exact ⟨rfl, hname⟩
        | bindInteger _ hvalue => cases hvalue
      · exact fun ⟨_, hname⟩ => .bindString text pos line hname
    | _ => cases hkind

/-- A statement has a fault, in either order, exactly if it breaks the rules. -/
theorem Stmt.fault?_eq_none_iff {order : LetOrder} {κ : KindMap} {s : Stmt} :
    s.fault? order κ = none ↔ s.WellKinded κ := by
  cases s with
  | bind name e line =>
    rw [wellKinded_bind_iff, ← clash?_eq_none_iff]
    cases order with
    | valueFirst => rw [fault?, Option.or_eq_none_iff]
    | nameFirst => rw [fault?, Option.or_eq_none_iff, and_comm]
  | print name line =>
    unfold fault?
    constructor
    · intro h
      cases hname : κ name with
      | none => simp [hname] at h
      | some kind => exact .print line hname
    · intro h
      cases h with
      | print _ hname => simp [hname]
  | foreign typeName line => exact ⟨nofun, nofun⟩

/-- Without a fault all statements keep the rules. -/
theorem Program.wellKinded_of_fault? {order : LetOrder} {κ : KindMap} {index : Nat} {p : Program}
    (h : p.fault? order κ index = none) : WellKinded κ p := by
  induction p generalizing κ index with
  | nil => exact .nil κ
  | cons s p ih =>
    rw [fault?] at h
    split at h
    · cases h
    · exact .cons (Stmt.fault?_eq_none_iff.1 ‹_›) (ih h)

/-- The fault that is reported is in the first statement that breaks the rules. -/
theorem Program.firstBad_of_fault? {order : LetOrder} {κ : KindMap} {index : Nat} {p : Program}
    {e : SemanticError} (h : p.fault? order κ index = some e) :
    ∃ i bad, FirstBad κ p i bad ∧ e.index = index + i ∧ e.line = bad.line := by
  induction p generalizing κ index with
  | nil => cases h
  | cons s p ih =>
    rw [fault?] at h
    split at h
    case h_1 fault hfault =>
      cases h
      refine ⟨0, s, .here p fun hgood => ?_, rfl, rfl⟩
      rw [Stmt.fault?_eq_none_iff.2 hgood] at hfault
      cases hfault
    case h_2 hfault =>
      obtain ⟨i, bad, hbad, hindex, hline⟩ := ih h
      refine ⟨i + 1, bad, .later (Stmt.fault?_eq_none_iff.1 hfault) hbad, ?_, hline⟩
      omega

/-! ## Passes that follow the rules -/

/-- The failure of a computation. -/
def failure? {ε α : Type} : Except ε α → Option ε
  | .ok _ => none
  | .error e => some e

section

variable {ε α β : Type}

@[simp] theorem failure?_ok (a : α) : failure? (.ok a : Except ε α) = none := rfl

@[simp] theorem failure?_pure (a : α) : failure? (pure a : Except ε α) = none := rfl

@[simp] theorem failure?_error (e : ε) : failure? (.error e : Except ε α) = some e := rfl

theorem failure?_map (x : Except ε α) (g : α → β) : failure? (x.map g) = failure? x := by
  cases x <;> rfl

/-- Where the failure of the second part does not depend on the first, the first one counts. -/
theorem failure?_bind {x : Except ε α} {f : α → Except ε β} (second : Option ε)
    (h : ∀ a, x = .ok a → failure? (f a) = second) :
    failure? (x >>= f) = (failure? x).or second := by
  cases x with
  | error e => rfl
  | ok a => simpa [bind, Except.bind] using h a rfl

theorem eq_ok_of_failure? {x : Except ε α} (h : failure? x = none) : ∃ a, x = .ok a := by
  cases x with
  | ok a => exact ⟨a, rfl⟩
  | error e => cases h

theorem eq_error_of_failure? {x : Except ε α} {e : ε} (h : failure? x = some e) :
    x = .error e := by
  cases x with
  | ok a => cases h
  | error e' =>
    cases h
    rfl

end

/-- The kinds of the names of a scope. -/
def Scope.kindMap {α : Type} (s : Scope α) (kind : α → Kind) : KindMap :=
  fun name => (s.find? name).map kind

namespace Scope

variable {α : Type} (s : Scope α) (kind : α → Kind) (name : Bytes)

theorem failure?_operand : failure? (s.operand kind name) = operandFault? (s.kindMap kind) name := by
  unfold operand operandFault? kindMap
  cases s.find? name with
  | none => rfl
  | some a => cases h : kind a <;> simp [h]

theorem failure?_allow (new : Kind) :
    failure? (s.allow kind name new) = clash? (s.kindMap kind) name new := by
  unfold allow clash? kindMap
  cases s.find? name with
  | none => rfl
  | some a => by_cases h : kind a = new <;> simp [h]

theorem failure?_subject :
    failure? (s.subject name) =
      if (s.kindMap kind name).isSome then none else some (.undefined name) := by
  unfold subject kindMap
  cases s.find? name <;> rfl

theorem kindMap_bind {e : Expr} {line : Int} {a : α} (h : kind a = e.kind) :
    (s.bind name a).kindMap kind = (Stmt.bind name e line).declare (s.kindMap kind) := by
  funext other
  unfold kindMap Stmt.declare
  rw [find?_bind]
  by_cases hother : other = name
  · simp [hother, h]
  · simp [hother]

end Scope

/-- All operators of an expression are among the four. -/
def Expr.knownOperators : Expr → Bool
  | neg operand _ => operand.knownOperators
  | bin op left right _ => op != .unknown && left.knownOperators && right.knownOperators
  | _ => true

/-- All operators of a statement are among the four. -/
def Stmt.knownOperators : Stmt → Bool
  | bind _ e _ => e.knownOperators
  | _ => true

/-- A pass reports the faults of the rules and nothing else, in the states where `inv` holds: it looks
at a `let` in the given order, `kinds` is what it knows of the names, and `report` is how it presents
a fault. -/
structure FollowsRules {σ φ : Type} (order : LetOrder) (step : σ → Stmt → Except φ σ)
    (report : SemanticFault → φ) (kinds : σ → KindMap) (inv : σ → Prop) : Prop where
  fault {s : σ} {stmt : Stmt} : inv s → stmt.knownOperators = true →
    failure? (step s stmt) = (stmt.fault? order (kinds s)).map report
  next {s s' : σ} {stmt : Stmt} : inv s → step s stmt = .ok s' →
    inv s' ∧ kinds s' = stmt.declare (kinds s)

/-- The same fault, presented in another way. -/
def Halt.map {φ ψ : Type} (f : φ → ψ) (h : Halt φ) : Halt ψ :=
  ⟨h.index, h.line, f h.fault⟩

theorem Halt.map_id {φ : Type} : (Halt.map id : Halt φ → Halt φ) = id := rfl

/-- A pass that follows the rules stops at the first fault of a program. -/
theorem FollowsRules.walk {σ φ : Type} {order : LetOrder} {step : σ → Stmt → Except φ σ}
    {report : SemanticFault → φ} {kinds : σ → KindMap} {inv : σ → Prop}
    (h : FollowsRules order step report kinds inv) {s : σ} (hs : inv s) {p : Program}
    (hp : ∀ stmt ∈ p, stmt.knownOperators = true) (index : Nat) :
    (walk step index s p).2 = (p.fault? order (kinds s) index).map (Halt.map report) := by
  induction p generalizing s index with
  | nil => rfl
  | cons stmt p ih =>
    have hfault := h.fault hs (hp stmt List.mem_cons_self)
    rw [Program.fault?]
    cases hstep : step s stmt with
    | error fault =>
      rw [hstep] at hfault
      rw [walk_cons_error hstep]
      cases hrule : stmt.fault? order (kinds s) with
      | none => simp [hrule] at hfault
      | some f =>
        simp only [hrule, failure?_error, Option.map_some, Option.some.injEq] at hfault
        rw [hfault]
        rfl
    | ok s' =>
      rw [hstep] at hfault
      rw [walk_cons_ok hstep]
      obtain ⟨hs', hkinds⟩ := h.next hs hstep
      cases hrule : stmt.fault? order (kinds s) with
      | some f => simp [hrule] at hfault
      | none =>
        rw [ih hs' (fun t ht => hp t (List.mem_cons_of_mem stmt ht)) (index + 1), hkinds]

/-- A pass that presents the faults as they are stops with the first one. -/
theorem FollowsRules.walk_fault {σ : Type} {order : LetOrder}
    {step : σ → Stmt → Except SemanticFault σ} {kinds : σ → KindMap} {inv : σ → Prop}
    (h : FollowsRules order step id kinds inv) {s : σ} (hs : inv s) {p : Program}
    (hp : ∀ stmt ∈ p, stmt.knownOperators = true) (index : Nat) :
    (LetPrint.walk step index s p).2 = p.fault? order (kinds s) index := by
  rw [h.walk hs hp, Halt.map_id, Option.map_id]
  rfl

/-! ## The checker -/

namespace Kinds

variable (kinds : Kinds)

theorem failure?_checkInt (e : Expr) :
    failure? (kinds.checkInt e) = e.fault? (kinds.kindMap id) := by
  induction e with
  | int n pos => rfl
  | var name pos =>
    rw [checkInt, failure?_bind _ fun _ _ => failure?_pure (), Option.or_none,
      Scope.failure?_operand, Expr.fault?]
  | str text pos => rfl
  | neg operand pos ih => rw [checkInt, ih, Expr.fault?]
  | bin op left right pos ihl ihr => rw [checkInt, failure?_bind _ fun _ _ => ihr, ihl, Expr.fault?]
  | missing => rfl

theorem failure?_checkValue (e : Expr) :
    failure? (kinds.checkValue e) = e.valueFault? (kinds.kindMap id) := by
  unfold checkValue Expr.valueFault?
  cases e.kind with
  | str => rfl
  | int => exact kinds.failure?_checkInt e

end Kinds

theorem checkStmt_followsRules :
    FollowsRules .valueFirst Kinds.checkStmt id (fun kinds : Kinds => kinds.kindMap id)
      fun _ => True where
  fault := by
    intro kinds stmt _ _
    rw [Option.map_id]
    cases stmt with
    | bind name e line =>
      rw [Kinds.checkStmt, failure?_bind _ fun _ _ => failure?_bind _ fun _ _ => failure?_pure _,
        kinds.failure?_checkValue, Scope.failure?_allow, Option.or_none]
      rfl
    | print name line =>
      rw [Kinds.checkStmt, failure?_bind _ fun _ _ => failure?_pure _, Option.or_none,
        Scope.failure?_subject _ id]
      rfl
    | foreign typeName line => rfl
  next := by
    intro kinds kinds' stmt _ h
    refine ⟨trivial, ?_⟩
    cases stmt with
    | bind name e line =>
      rw [Kinds.checkStmt, bind_eq_ok] at h
      obtain ⟨_, -, h⟩ := h
      rw [bind_eq_ok] at h
      obtain ⟨_, -, h⟩ := h
      cases h
      exact Scope.kindMap_bind _ id name rfl
    | print name line =>
      rw [Kinds.checkStmt, bind_eq_ok] at h
      obtain ⟨_, -, h⟩ := h
      cases h
      rfl
    | foreign typeName line => cases h

/-! ## The interpreter -/

theorem Operator.failure?_apply {op : Operator} (h : op ≠ .unknown) (a b : Int32) :
    failure? (op.apply a b) = none := by
  cases op with
  | unknown => exact absurd rfl h
  | _ => rfl

/-- The operators of a binary expression, taken apart. -/
theorem Expr.knownOperators_bin {op : Operator} {left right : Expr} {pos : Position}
    (h : (Expr.bin op left right pos).knownOperators = true) :
    op ≠ .unknown ∧ left.knownOperators = true ∧ right.knownOperators = true := by
  simpa [knownOperators, and_assoc] using h

namespace Values

variable (values : Values)

theorem failure?_operandWord (name : Bytes) :
    failure? (values.operandWord name) = operandFault? (values.kindMap Value.kind) name := by
  rw [← Scope.failure?_operand, operandWord]
  cases h : values.operand Value.kind name with
  | error fault => rfl
  | ok v =>
    cases v with
    | int n => rfl
    | str text => exact absurd (Scope.operand_eq_ok.1 h).2 (by simp [Value.kind])

theorem failure?_evaluate {e : Expr} (he : e.knownOperators = true) :
    failure? (values.evaluate e) = e.fault? (values.kindMap Value.kind) := by
  induction e with
  | int n pos => rfl
  | var name pos => exact values.failure?_operandWord name
  | str text pos => rfl
  | neg operand pos ih =>
    rw [evaluate, failure?_bind _ fun _ _ => failure?_pure _, Option.or_none, ih he, Expr.fault?]
  | bin op left right pos ihl ihr =>
    obtain ⟨hop, hl, hr⟩ := Expr.knownOperators_bin he
    rw [evaluate, failure?_bind _ fun _ _ => failure?_bind _ fun _ _ =>
        Operator.failure?_apply hop _ _,
      ihl hl, ihr hr, Option.or_none, Expr.fault?]
  | missing => rfl

theorem failure?_evaluateValue {e : Expr} (he : e.knownOperators = true) :
    failure? (values.evaluateValue e) = e.valueFault? (values.kindMap Value.kind) := by
  cases hkind : e.kind with
  | int =>
    rw [evaluateValue_int hkind, failure?_map, failure?_evaluate _ he, Expr.valueFault?_int hkind]
  | str =>
    cases e with
    | str text pos => rfl
    | _ => cases hkind

/-- Values have the kinds of the expressions that they come from. -/
theorem kind_evaluateValue {e : Expr} {v : Value} (h : values.evaluateValue e = .ok v) :
    v.kind = e.kind := by
  cases hkind : e.kind with
  | int =>
    rw [evaluateValue_int hkind, map_eq_ok] at h
    obtain ⟨n, -, rfl⟩ := h
    rfl
  | str =>
    cases e with
    | str text pos =>
      cases h
      rfl
    | _ => cases hkind

end Values

theorem RunState.failure?_assign (r : RunState) (name : Bytes) {e : Expr} (line : Int)
    (he : e.knownOperators = true) :
    failure? (r.assign name e) =
      (Stmt.bind name e line).fault? .valueFirst (r.values.kindMap Value.kind) := by
  -- The value is checked against the kind of its expression.
  have hallow : ∀ v, r.values.evaluateValue e = .ok v →
      failure? (r.values.allow Value.kind name v.kind >>= fun _ =>
        pure { r with values := r.values.bind name v }) =
      clash? (r.values.kindMap Value.kind) name e.kind := by
    intro v hv
    rw [failure?_bind _ fun _ _ => failure?_pure _, Option.or_none, Scope.failure?_allow,
      r.values.kind_evaluateValue hv]
  rw [assign, failure?_bind _ hallow, r.values.failure?_evaluateValue he]
  rfl

/-- With a sink that takes every write, the interpreter follows the rules. -/
theorem exec_followsRules :
    FollowsRules .valueFirst RunState.exec .semantic (fun r => r.values.kindMap Value.kind)
      fun r => r.out.limit = none where
  fault := by
    intro r stmt hout hops
    cases stmt with
    | bind name e line =>
      rw [← r.failure?_assign name line hops, RunState.exec]
      cases r.assign name e <;> rfl
    | print name line =>
      rw [Stmt.fault?, ← Scope.failure?_subject, RunState.exec]
      cases r.values.subject name with
      | error fault => rfl
      | ok v => simp [Sink.write?_of_limit hout]
    | foreign typeName line => rfl
  next := by
    intro r r' stmt hout h
    cases stmt with
    | bind name e line =>
      rw [RunState.exec] at h
      split at h
      case h_2 => cases h
      case h_1 s' hassign =>
        cases h
        rw [RunState.assign, bind_eq_ok] at hassign
        obtain ⟨v, hv, hassign⟩ := hassign
        rw [bind_eq_ok] at hassign
        obtain ⟨_, -, hassign⟩ := hassign
        cases hassign
        exact ⟨hout, Scope.kindMap_bind _ _ name (r.values.kind_evaluateValue hv)⟩
    | print name line =>
      rw [RunState.exec] at h
      split at h
      · cases h
      · rw [Sink.write?_of_limit hout] at h
        cases h
        exact ⟨hout, rfl⟩
    | foreign typeName line => cases h

/-! ## The generators -/

theorem Operator.failure?_opcode {op : Operator} (h : op ≠ .unknown) :
    failure? op.opcode = none := by
  cases op with
  | unknown => exact absurd rfl h
  | _ => rfl

theorem Ir.failure?_operatorCode {op : Operator} (h : op ≠ .unknown) (next : Nat)
    (a b : Ir.Operand) : failure? (Ir.operatorCode next op a b) = none := by
  cases op with
  | unknown => exact absurd rfl h
  | _ => rfl

namespace CodeState

theorem failure?_exprCode (scope : Scope SlotInfo) (line : Int) {e : Expr}
    (he : e.knownOperators = true) :
    failure? (exprCode scope line e) = e.fault? (scope.kindMap SlotInfo.kind) := by
  induction e with
  | int n pos => rfl
  | var name pos =>
    rw [exprCode, failure?_bind _ fun _ _ => failure?_pure _, Option.or_none,
      Scope.failure?_operand, Expr.fault?]
  | str text pos => rfl
  | neg operand pos ih =>
    rw [exprCode, failure?_bind _ fun _ _ => failure?_pure _, Option.or_none, ih he, Expr.fault?]
  | bin op left right pos ihl ihr =>
    obtain ⟨hop, hl, hr⟩ := Expr.knownOperators_bin he
    rw [exprCode, failure?_bind _ fun _ _ => failure?_bind _ fun _ _ =>
        failure?_bind _ fun _ _ => failure?_pure _,
      ihl hl, ihr hr, Operator.failure?_opcode hop, Option.or_none, Option.or_none, Expr.fault?]
  | missing => rfl

theorem failure?_valueCode (g : CodeState) (line : Int) {e : Expr}
    (he : e.knownOperators = true) :
    failure? (g.valueCode line e) = e.valueFault? (g.scope.kindMap SlotInfo.kind) := by
  cases hkind : e.kind with
  | int =>
    rw [valueCode_int hkind, failure?_map, failure?_exprCode _ _ he, Expr.valueFault?_int hkind]
  | str =>
    cases e with
    | str text pos => rfl
    | _ => cases hkind

end CodeState

theorem codeStmt_followsRules :
    FollowsRules .nameFirst CodeState.stmt id (fun g => g.scope.kindMap SlotInfo.kind)
      fun _ => True where
  fault := by
    intro g stmt _ hops
    rw [Option.map_id]
    cases stmt with
    | bind name e line =>
      rw [CodeState.stmt, failure?_bind _ fun _ _ => failure?_bind _ fun _ _ => failure?_pure _,
        g.failure?_valueCode line hops, Scope.failure?_allow, Option.or_none]
      rfl
    | print name line =>
      rw [CodeState.stmt, failure?_bind _ fun _ _ => failure?_pure _, Option.or_none,
        Scope.failure?_subject _ SlotInfo.kind]
      rfl
    | foreign typeName line => rfl
  next := by
    intro g g' stmt _ h
    refine ⟨trivial, ?_⟩
    cases stmt with
    | bind name e line =>
      rw [CodeState.stmt, bind_eq_ok] at h
      obtain ⟨_, -, h⟩ := h
      rw [bind_eq_ok] at h
      obtain ⟨_, -, h⟩ := h
      cases h
      exact Scope.kindMap_bind _ _ name rfl
    | print name line =>
      rw [CodeState.stmt, bind_eq_ok] at h
      obtain ⟨_, -, h⟩ := h
      cases h
      rfl
    | foreign typeName line => cases h

namespace Ir

theorem failure?_exprCode (scope : Scope Cell) (next : Nat) {e : Expr}
    (he : e.knownOperators = true) :
    failure? (exprCode scope next e) = e.fault? (scope.kindMap Cell.kind) := by
  induction e generalizing next with
  | int n pos => rfl
  | var name pos =>
    rw [exprCode, failure?_bind _ fun _ _ => failure?_pure _, Option.or_none,
      Scope.failure?_operand, Expr.fault?]
  | str text pos => rfl
  | neg operand pos ih =>
    rw [exprCode, failure?_bind _ fun _ _ => failure?_pure _, Option.or_none, ih next he,
      Expr.fault?]
  | bin op left right pos ihl ihr =>
    obtain ⟨hop, hl, hr⟩ := Expr.knownOperators_bin he
    rw [exprCode, failure?_bind (right.fault? _), ihl next hl, Expr.fault?]
    rintro ⟨leftCode, a⟩ -
    change failure? (exprCode scope _ right >>= _) = _
    rw [failure?_bind none, ihr _ hr, Option.or_none]
    rintro ⟨rightCode, b⟩ -
    change failure? (operatorCode _ op a b >>= _) = _
    rw [failure?_bind none fun _ _ => failure?_pure _, failure?_operatorCode hop, Option.or_none]
  | missing => rfl

namespace LowerState

theorem failure?_valueCode (g : LowerState) {e : Expr} (he : e.knownOperators = true) :
    failure? (g.valueCode e) = e.valueFault? (g.scope.kindMap Cell.kind) := by
  cases hkind : e.kind with
  | int =>
    rw [valueCode_int hkind, failure?_map, failure?_exprCode _ _ he, Expr.valueFault?_int hkind]
  | str =>
    cases e with
    | str text pos => rfl
    | _ => cases hkind

end LowerState

theorem lowerStmt_followsRules :
    FollowsRules .nameFirst LowerState.stmt id (fun g => g.scope.kindMap Cell.kind)
      fun _ => True where
  fault := by
    intro g stmt _ hops
    rw [Option.map_id]
    cases stmt with
    | bind name e line =>
      rw [LowerState.stmt, failure?_bind _ fun _ _ => failure?_bind _ fun _ _ => failure?_pure _,
        g.failure?_valueCode hops, Scope.failure?_allow, Option.or_none]
      rfl
    | print name line =>
      rw [LowerState.stmt, failure?_bind _ fun _ _ => failure?_pure _, Option.or_none,
        Scope.failure?_subject _ Cell.kind]
      rfl
    | foreign typeName line => rfl
  next := by
    intro g g' stmt _ h
    refine ⟨trivial, ?_⟩
    cases stmt with
    | bind name e line =>
      rw [LowerState.stmt, bind_eq_ok] at h
      obtain ⟨_, -, h⟩ := h
      rw [bind_eq_ok] at h
      obtain ⟨_, -, h⟩ := h
      cases h
      exact Scope.kindMap_bind _ _ name rfl
    | print name line =>
      rw [LowerState.stmt, bind_eq_ok] at h
      obtain ⟨_, -, h⟩ := h
      cases h
      rfl
    | foreign typeName line => cases h

end Ir

/-! ## The four passes -/

namespace Program

/-- The kinds before the first statement. -/
def noKinds : KindMap := fun _ => none

section

variable {p : Program} (hp : ∀ s ∈ p, s.knownOperators = true)

include hp

theorem failure?_kinds : failure? p.kinds = p.fault? .valueFirst noKinds 0 := by
  refine .trans ?_ (checkStmt_followsRules.walk_fault (s := .empty) trivial hp 0)
  unfold kinds Kinds.check
  split <;> simp [*]

theorem run_fault {out : Sink} (hout : out.limit = none) :
    (p.run out).2 = (p.fault? .valueFirst noKinds 0).map (Halt.map .semantic) :=
  exec_followsRules.walk hout hp 0

theorem failure?_chunk : failure? p.chunk = p.fault? .nameFirst noKinds 0 := by
  refine .trans ?_ (codeStmt_followsRules.walk_fault (s := {}) trivial hp 0)
  unfold chunk
  split <;> simp [*]

theorem failure?_lower (triple : Bytes) :
    failure? (p.lower triple) = p.fault? .nameFirst noKinds 0 := by
  refine .trans ?_ (Ir.lowerStmt_followsRules.walk_fault (s := .initial) trivial hp 0)
  unfold lower
  split <;> simp [*]

end

/-- The two orders find their faults in the same statement, or none. -/
theorem fault?_orders (p : Program) (κ : KindMap) :
    (WellKinded κ p ∧ ∀ order, p.fault? order κ 0 = none) ∨
      ∃ index bad, FirstBad κ p index bad ∧
        ∀ order, ∃ fault, p.fault? order κ 0 = some ⟨index, bad.line, fault⟩ := by
  cases h : p.fault? .valueFirst κ 0 with
  | none =>
    have hgood := wellKinded_of_fault? h
    refine .inl ⟨hgood, fun order => ?_⟩
    cases h' : p.fault? order κ 0 with
    | none => rfl
    | some e =>
      obtain ⟨i, bad, hbad, -⟩ := firstBad_of_fault? h'
      exact absurd hbad hgood.not_firstBad
  | some e =>
    obtain ⟨i, bad, hbad, -⟩ := firstBad_of_fault? h
    refine .inr ⟨i, bad, hbad, fun order => ?_⟩
    cases h' : p.fault? order κ 0 with
    | none => exact absurd hbad (wellKinded_of_fault? h').not_firstBad
    | some e' =>
      obtain ⟨j, bad', hbad', hindex, hline⟩ := firstBad_of_fault? h'
      obtain ⟨rfl, rfl⟩ := hbad.unique hbad'
      rw [Nat.zero_add] at hindex
      exact ⟨e'.fault, by rw [← hindex, ← hline]⟩

end Program

/-- The four passes accept the same programs and reject the others at the same statement, the first
that breaks the rules.  The checker and the interpreter report the same fault, and so do the two
generators. -/
theorem passes_reject_alike {p : Program} (hp : ∀ s ∈ p, s.knownOperators = true)
    (triple output : Bytes) {w : World} (hw : w.out.limit = none) :
    (WellKinded Program.noKinds p ∧ (∃ kinds, p.kinds = .ok kinds) ∧
        ((Backend.interp.compile p output).runIn w).1 = .ok {} ∧
        (∃ c, p.chunk = .ok c) ∧ ∃ m, p.lower triple = .ok m) ∨
      ∃ index bad checked generated, FirstBad Program.noKinds p index bad ∧
        p.kinds = .error ⟨index, bad.line, checked⟩ ∧
        ((Backend.interp.compile p output).runIn w).1 = .error (checked.diagnostic bad.line) ∧
        p.chunk = .error ⟨index, bad.line, generated⟩ ∧
        p.lower triple = .error ⟨index, bad.line, generated⟩ := by
  have hkinds := Program.failure?_kinds hp
  have hrun := Program.run_fault hp hw
  have hchunk := Program.failure?_chunk hp
  have hlower := Program.failure?_lower hp triple
  have hinterp := congrArg Prod.fst (Backend.interpret_runIn p w)
  rcases Program.fault?_orders p Program.noKinds with ⟨hgood, hnone⟩ | ⟨index, bad, hbad, hsome⟩
  · rw [hnone] at hkinds hrun hchunk hlower
    rw [hrun] at hinterp
    exact .inl ⟨hgood, eq_ok_of_failure? hkinds, hinterp, eq_ok_of_failure? hchunk,
      eq_ok_of_failure? hlower⟩
  · obtain ⟨checked, hchecked⟩ := hsome .valueFirst
    obtain ⟨generated, hgenerated⟩ := hsome .nameFirst
    rw [hchecked] at hkinds hrun
    rw [hgenerated] at hchunk hlower
    rw [hrun] at hinterp
    exact .inr ⟨index, bad, checked, generated, hbad, eq_error_of_failure? hkinds, hinterp,
      eq_error_of_failure? hchunk, eq_error_of_failure? hlower⟩

/-- A `let` that breaks two rules at once: its value and its name. -/
def clashing : Program :=
  [.bind (utf8 "s") (.str (utf8 "a") default) 1, .bind (utf8 "s") (.var (utf8 "t") default) 2]

/-- The checker reports the value of the second `let`, the generators its name. -/
theorem passes_reject_alike_clashing :
    (∀ s ∈ clashing, s.knownOperators = true) ∧ ({} : World).out.limit = none ∧
      FirstBad Program.noKinds clashing 1 (.bind (utf8 "s") (.var (utf8 "t") default) 2) ∧
      clashing.kinds = .error ⟨1, 2, .undefined (utf8 "t")⟩ ∧
      clashing.chunk = .error ⟨1, 2, .rebound (utf8 "s") .str .int⟩ := by
  have hops : ∀ s ∈ clashing, s.knownOperators = true := by decide
  refine ⟨hops, rfl, ?_, rfl, rfl⟩
  rcases passes_reject_alike hops [] [] (w := {}) rfl with
    ⟨-, ⟨_, hkinds⟩, -⟩ | ⟨index, bad, checked, generated, hbad, hkinds, -⟩
  · cases hkinds
  · cases hbad with
    | here _ bad => exact absurd (.bindString (utf8 "a") default 1 nofun) bad
    | later _ rest =>
      cases rest with
      | here _ bad => exact .later (.bindString (utf8 "a") default 1 nofun) (.here [] bad)
      | later _ rest => cases rest

end LetPrint

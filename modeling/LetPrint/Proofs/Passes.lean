import LetPrint.Bytecode.Generate
import LetPrint.Interpreter
import LetPrint.Ir.Lower

/-!
# What all passes share

A pass is a step function on statements, run by `walk`.  This file holds the facts that do not depend
on what a pass computes:

* computations that may fail, taken apart (`bind_eq_ok`, `map_eq_ok`);
* the rules on names, read as facts on `Scope.find?`, and scopes of two passes that bind the same
  names to related things (`Scope.Related`);
* `walk`, one statement at a time;
* right-hand sides that are no strings, which every pass hands on to its integer expressions, and the
  names and the string literals of a program;
* statements that the interpreter gets through, which the other passes are compared with.
-/

namespace LetPrint

/-! ## Computations that may fail -/

section

variable {ε α β : Type} {x : Except ε α} {f : α → Except ε β}

theorem bind_eq_ok {b : β} : (x >>= f) = .ok b ↔ ∃ a, x = .ok a ∧ f a = .ok b := by
  cases x with
  | error e => simp [bind, Except.bind]
  | ok a => simp [bind, Except.bind]

theorem bind_eq_error {e : ε} :
    (x >>= f) = .error e ↔ x = .error e ∨ ∃ a, x = .ok a ∧ f a = .error e := by
  cases x with
  | error e' => simp [bind, Except.bind]
  | ok a => simp [bind, Except.bind]

theorem map_eq_ok {g : α → β} {b : β} : x.map g = .ok b ↔ ∃ a, x = .ok a ∧ g a = b := by
  cases x with
  | error e => simp [Except.map]
  | ok a => simp [Except.map]

theorem map_eq_error {g : α → β} {e : ε} : x.map g = .error e ↔ x = .error e := by
  cases x with
  | error e' => simp [Except.map]
  | ok a => simp [Except.map]

theorem pure_eq_ok {a b : α} : (pure a : Except ε α) = .ok b ↔ a = b := by
  simp [pure, Except.pure]

end

/-! ## The rules on names -/

namespace Scope

variable {α : Type} {s : Scope α} {kind : α → Kind} {name : Bytes}

theorem operand_eq_ok {a : α} :
    s.operand kind name = .ok a ↔ s.find? name = some a ∧ kind a = .int := by
  unfold operand
  cases s.find? name with
  | none => simp
  | some b =>
    by_cases h : kind b = .int
    · simp only [h, if_true, Except.ok.injEq, Option.some.injEq]
      exact ⟨fun hb => ⟨hb, hb ▸ h⟩, And.left⟩
    · simp only [h, if_false, reduceCtorEq, Option.some.injEq, false_iff, not_and]
      exact fun hb => hb ▸ h

theorem subject_eq_ok {a : α} : s.subject name = .ok a ↔ s.find? name = some a := by
  unfold subject
  cases s.find? name with
  | none => simp
  | some b => simp

theorem allow_eq_ok {new : Kind} :
    s.allow kind name new = .ok () ↔ ∀ a, s.find? name = some a → kind a = new := by
  unfold allow
  cases s.find? name with
  | none => simp
  | some b => by_cases h : kind b = new <;> simp [h]

/-! ## Scopes of two passes -/

/-- Two scopes bind the same names, each to things that are related. -/
def Related {β : Type} (R : α → β → Prop) (s : Scope α) (t : Scope β) : Prop :=
  ∀ name, Option.Rel R (s.find? name) (t.find? name)

namespace Related

variable {β : Type} {R R' : α → β → Prop} {t : Scope β} {a : α} {b : β}

theorem empty : Related R Scope.empty Scope.empty := by
  intro name
  exact .none

theorem find (h : Related R s t) (hfind : s.find? name = some a) :
    ∃ b, t.find? name = some b ∧ R a b := by
  have hrel := h name
  rw [hfind] at hrel
  cases ht : t.find? name with
  | none =>
    rw [ht] at hrel
    cases hrel
  | some b =>
    rw [ht] at hrel
    cases hrel with
    | some hab => exact ⟨b, rfl, hab⟩

theorem mono (h : Related R s t) (hmono : ∀ a b, R a b → R' a b) : Related R' s t := by
  intro name
  have hrel := h name
  revert hrel
  generalize s.find? name = a?
  generalize t.find? name = b?
  intro hrel
  cases hrel with
  | none => exact .none
  | some hab => exact .some (hmono _ _ hab)

theorem bind (h : Related R s t) (hab : R a b) : Related R (s.bind name a) (t.bind name b) := by
  intro other
  rw [find?_bind, find?_bind]
  by_cases hother : other = name
  · rw [if_pos hother, if_pos hother]
    exact .some hab
  · rw [if_neg hother, if_neg hother]
    exact h other

/-- Where related things are of one kind, the two scopes allow the same bindings. -/
theorem allow {kind' : β → Kind} {new : Kind} (h : Related R s t)
    (hkind : ∀ a b, R a b → kind a = kind' b) (hallow : s.allow kind name new = .ok ()) :
    t.allow kind' name new = .ok () := by
  rw [allow_eq_ok] at hallow ⊢
  intro b hb
  have hrel := h name
  rw [hb] at hrel
  cases ha : s.find? name with
  | none =>
    rw [ha] at hrel
    cases hrel
  | some a =>
    rw [ha] at hrel
    cases hrel with
    | some hab => rw [← hkind a b hab, hallow a ha]

end Related

end Scope

/-- A scope of another pass stands for the values of the names: what is an integer operand there is
one in the interpreter. -/
theorem Values.operand_of_related {α : Type} {R : α → Value → Prop} {s : Scope α}
    {kind : α → Kind} {values : Values} {name : Bytes} {a : α} (h : s.Related R values)
    (hkind : ∀ a v, R a v → kind a = v.kind) (ha : s.operand kind name = .ok a) :
    ∃ n, values.operandWord name = .ok n ∧ R a (.int n) := by
  obtain ⟨hfind, hint⟩ := Scope.operand_eq_ok.1 ha
  obtain ⟨v, hv, hav⟩ := h.find hfind
  have hvkind : v.kind = .int := (hkind a v hav).symm.trans hint
  have hoperand : values.operand Value.kind name = .ok v := Scope.operand_eq_ok.2 ⟨hv, hvkind⟩
  cases v with
  | str text => cases hvkind
  | int n =>
    refine ⟨n, ?_, hav⟩
    rw [Values.operandWord, hoperand]

/-! ## Walking over a program -/

section

variable {σ φ : Type} {step : σ → Stmt → Except φ σ} {index : Nat} {s s' : σ} {stmt : Stmt}
  {rest : Program}

theorem walk_cons_ok (h : step s stmt = .ok s') :
    walk step index s (stmt :: rest) = walk step (index + 1) s' rest := by
  rw [walk, h]

theorem walk_cons_error {fault : φ} (h : step s stmt = .error fault) :
    walk step index s (stmt :: rest) = (s, some ⟨index, stmt.line, fault⟩) := by
  rw [walk, h]

/-- A pass that gets through a program gets through its first statement and then through the
rest. -/
theorem walk_cons_eq_none (h : walk step index s (stmt :: rest) = (s', none)) :
    ∃ t, step s stmt = .ok t ∧ walk step (index + 1) t rest = (s', none) := by
  cases hstep : step s stmt with
  | ok t => exact ⟨t, rfl, by rw [← walk_cons_ok hstep, h]⟩
  | error fault => simp [walk_cons_error hstep] at h

/-- Behind statements that a pass gets through, it goes on with those that follow. -/
theorem walk_append {p : Program} (h : walk step index s p = (s', none)) (q : Program) :
    walk step index s (p ++ q) = walk step (index + p.length) s' q := by
  induction p generalizing index s with
  | nil =>
    cases h
    rfl
  | cons stmt p ih =>
    obtain ⟨t, hstep, hrest⟩ := walk_cons_eq_none h
    rw [List.cons_append, walk_cons_ok hstep, ih hrest, List.length_cons, Nat.add_assoc,
      Nat.add_comm 1]

/-- A pass that gets through two parts of a program gets through the first, and then through the
second. -/
theorem walk_append_eq_none {p q : Program} (h : walk step index s (p ++ q) = (s', none)) :
    ∃ t, walk step index s p = (t, none) ∧ walk step (index + p.length) t q = (s', none) := by
  have hfirst : ∃ t, walk step index s p = (t, none) := by
    induction p generalizing index s with
    | nil => exact ⟨s, rfl⟩
    | cons stmt p ih =>
      obtain ⟨t, hstep, hrest⟩ := walk_cons_eq_none h
      rw [walk_cons_ok hstep]
      exact ih hrest
  obtain ⟨t, ht⟩ := hfirst
  rw [walk_append ht] at h
  exact ⟨t, ht, h⟩

end

/-! ## Right-hand sides -/

section

variable {e : Expr} (h : e.kind = .int)

include h

theorem Values.evaluateValue_int {values : Values} :
    values.evaluateValue e = (values.evaluate e).map .int := by
  cases e with
  | str text pos => cases h
  | _ => rfl

theorem CodeState.valueCode_int {g : CodeState} {line : Int} :
    g.valueCode line e = (exprCode g.scope line e).map (·, []) := by
  cases e with
  | str text pos => cases h
  | _ => rfl

theorem Ir.LowerState.valueCode_int {g : LowerState} :
    g.valueCode e = (exprCode g.scope g.code.length e).map (·, none) := by
  cases e with
  | str text pos => cases h
  | _ => rfl

end

/-! ## Names and string literals -/

/-- The names that an expression reads, from left to right. -/
def Expr.reads : Expr → List Bytes
  | .var name _ => [name]
  | .neg operand _ => operand.reads
  | .bin _ left right _ => left.reads ++ right.reads
  | .int _ _ | .str _ _ | .missing => []

/-- The names that a statement reads, from left to right. -/
def Stmt.reads : Stmt → List Bytes
  | .bind _ e _ => e.reads
  | .print name _ => [name]
  | .foreign _ _ => []

/-- The string literals of an expression. -/
def Expr.literals : Expr → List Bytes
  | .str text _ => [text]
  | .neg operand _ => operand.literals
  | .bin _ left right _ => left.literals ++ right.literals
  | .int _ _ | .var _ _ | .missing => []

/-- The string literals of a statement. -/
def Stmt.literals : Stmt → List Bytes
  | .bind _ e _ => e.literals
  | .print _ _ | .foreign _ _ => []

/-! ## Running statements -/

/-- A sink without a limit takes every write. -/
theorem Sink.write?_of_limit {out : Sink} (h : out.limit = none) (text : Bytes) :
    out.write? text = some { out with written := out.written ++ text } := by
  simp [write?, accepts, h]

theorem RunState.exec_bind {r : RunState} {name : Bytes} {e : Expr} {v : Value}
    (heval : r.values.evaluateValue e = .ok v)
    (hallow : r.values.allow Value.kind name v.kind = .ok ()) (line : Int) :
    r.exec (.bind name e line) = .ok { r with values := r.values.bind name v } := by
  simp [exec, assign, heval, hallow, bind, Except.bind, pure, Except.pure]

theorem RunState.exec_print {r : RunState} {name : Bytes} {v : Value}
    (hv : r.values.find? name = some v) (line : Int) :
    r.exec (.print name line) =
      match r.out.write? v.line with
      | some out => .ok { r with out }
      | none => .error .refused := by
  have hsubject := Scope.subject_eq_ok.2 hv
  cases hwrite : r.out.write? v.line with
  | none => simp [exec, hsubject, hwrite]
  | some out => simp [exec, hsubject, hwrite]

/-- The run of a program, from how it walks. -/
theorem Program.run_eq {p : Program} {out : Sink} {r : RunState} {stop : Option (Halt RunFault)}
    (h : walk RunState.exec 0 { out } p = (r, stop)) : p.run out = (r.out, stop) := by
  rw [Program.run, h]

end LetPrint

import LetPrint.Proofs.Passes
import LetPrint.Typing

/-!
# A checker that is given one program after the other

A checker keeps the kinds that it has learned, also from programs that it rejects.  This file says what
such a history of programs comes to.

* `passed` is the part of a program that a pass gets through, and `Kinds.history` puts these parts of
  all programs one behind the other.  A pass over that and one more program goes on as if the programs
  were given one by one (`walk_passed_append`, `Kinds.walk_history_append`).
* `Kinds.checkStmt_cases` says what a statement can do to the kinds.  No kind is lost or changed
  (`Kinds.find?_after`), and what is known are the bindings that were accepted (`Kinds.Learned`).
* `Kinds.check_history` is the result.
-/

namespace LetPrint

/-! ## Passes over programs in a row -/

/-- The same stop in a program that has `n` more statements in front. -/
def Halt.later {φ : Type} (n : Nat) (h : Halt φ) : Halt φ :=
  { h with index := n + h.index }

section

variable {σ φ : Type} (step : σ → Stmt → Except φ σ)

/-- The statements that a pass gets through: those before the first that fails. -/
def passed : σ → Program → Program
  | _, [] => []
  | s, stmt :: rest =>
    match step s stmt with
    | .ok s' => stmt :: passed s' rest
    | .error _ => []

/-- A pass does not depend on where the count of its statements begins. -/
theorem walk_add (n index : Nat) (s : σ) (p : Program) :
    walk step (n + index) s p =
      ((walk step index s p).1, (walk step index s p).2.map (Halt.later n)) := by
  induction p generalizing index s with
  | nil => rfl
  | cons stmt p ih =>
    cases hstep : step s stmt with
    | ok s' =>
      rw [walk_cons_ok hstep, walk_cons_ok hstep]
      exact ih (index + 1) s'
    | error fault =>
      rw [walk_cons_error hstep, walk_cons_error hstep]
      rfl

/-- Behind the part of a program that a pass gets through, the pass goes on in the state that the whole
program leads to. -/
theorem walk_passed_append (index : Nat) (s : σ) (p q : Program) :
    walk step index s (passed step s p ++ q) =
      walk step (index + (passed step s p).length) (walk step index s p).1 q := by
  induction p generalizing index s with
  | nil => rfl
  | cons stmt p ih =>
    cases hstep : step s stmt with
    | ok s' =>
      have hpassed : passed step s (stmt :: p) = stmt :: passed step s' p := by
        rw [passed, hstep]
      have hindex : index + (stmt :: passed step s' p).length =
          index + 1 + (passed step s' p).length := by
        rw [List.length_cons]
        omega
      rw [hpassed, List.cons_append, walk_cons_ok hstep, walk_cons_ok hstep, ih, hindex]
    | error fault =>
      have hpassed : passed step s (stmt :: p) = [] := by rw [passed, hstep]
      rw [hpassed, walk_cons_error hstep]
      rfl

end

/-! ## The checker -/

namespace Kinds

variable {kinds kinds' : Kinds}

/-- The kinds known after the given programs, each accepted or rejected. -/
def after (kinds : Kinds) (ps : List Program) : Kinds :=
  ps.foldl (fun kinds p => (kinds.check p).1) kinds

/-- The statements of the given programs, each program cut just before its first statement that
fails. -/
def history (kinds : Kinds) : List Program → Program
  | [] => []
  | p :: ps => passed checkStmt kinds p ++ history (kinds.check p).1 ps

theorem walk_history_append (index : Nat) (kinds : Kinds) (ps : List Program) (q : Program) :
    walk checkStmt index kinds (kinds.history ps ++ q) =
      walk checkStmt (index + (kinds.history ps).length) (kinds.after ps) q := by
  induction ps generalizing index kinds with
  | nil => rfl
  | cons p ps ih =>
    have hstate : (walk checkStmt index kinds p).1 = (kinds.check p).1 := by
      have hwalk := walk_add checkStmt index 0 kinds p
      rw [Nat.add_zero] at hwalk
      rw [hwalk]
      rfl
    rw [history, List.append_assoc, walk_passed_append, hstate, ih, List.length_append,
      Nat.add_assoc]
    rfl

/-- What a statement that is accepted does to the kinds. -/
theorem checkStmt_cases {s : Stmt} (h : kinds.checkStmt s = .ok kinds') :
    (∃ name value line, s = .bind name value line ∧
        (∀ kind, kinds.find? name = some kind → kind = value.kind) ∧
        kinds' = kinds.bind name value.kind) ∨
      ∃ name line, s = .print name line ∧ kinds' = kinds := by
  cases s with
  | bind name value line =>
    rw [checkStmt, bind_eq_ok] at h
    obtain ⟨_, -, h⟩ := h
    rw [bind_eq_ok] at h
    obtain ⟨_, hallow, h⟩ := h
    cases h
    exact .inl ⟨name, value, line, rfl, Scope.allow_eq_ok.1 hallow, rfl⟩
  | print name line =>
    rw [checkStmt, bind_eq_ok] at h
    obtain ⟨_, -, h⟩ := h
    cases h
    exact .inr ⟨name, line, rfl, rfl⟩
  | foreign typeName line => cases h

/-! ### No kind is lost -/

theorem find?_checkStmt {s : Stmt} (h : kinds.checkStmt s = .ok kinds') {name : Bytes} {kind : Kind}
    (hname : kinds.find? name = some kind) : kinds'.find? name = some kind := by
  obtain ⟨bound, value, line, rfl, hallow, rfl⟩ | ⟨printed, line, rfl, rfl⟩ := checkStmt_cases h
  · rw [Scope.find?_bind]
    by_cases hbound : name = bound
    · subst hbound
      rw [if_pos rfl, hallow kind hname]
    · rw [if_neg hbound, hname]
  · exact hname

theorem find?_walk (index : Nat) (p : Program) {name : Bytes} {kind : Kind}
    (hname : kinds.find? name = some kind) :
    (walk checkStmt index kinds p).1.find? name = some kind := by
  induction p generalizing kinds index with
  | nil => exact hname
  | cons s p ih =>
    cases hstep : kinds.checkStmt s with
    | ok kinds' =>
      rw [walk_cons_ok hstep]
      exact ih (index + 1) (find?_checkStmt hstep hname)
    | error fault =>
      rw [walk_cons_error hstep]
      exact hname

/-- A kind that is known stays known, whatever programs follow. -/
theorem find?_after (ps : List Program) {name : Bytes} {kind : Kind}
    (hname : kinds.find? name = some kind) : (kinds.after ps).find? name = some kind := by
  induction ps generalizing kinds with
  | nil => exact hname
  | cons p ps ih => exact ih (find?_walk 0 p hname)

/-! ### What is known -/

/-- The kinds are those of the bindings of `p`, and of no others. -/
structure Learned (kinds : Kinds) (p : Program) : Prop where
  bound {name : Bytes} {value : Expr} {line : Int} :
    Stmt.bind name value line ∈ p → kinds.find? name = some value.kind
  origin {name : Bytes} {kind : Kind} :
    kinds.find? name = some kind → ∃ value line, Stmt.bind name value line ∈ p ∧ value.kind = kind

theorem Learned.nil : Learned .empty [] :=
  ⟨by simp, by simp⟩

theorem Learned.checkStmt {p : Program} {s : Stmt} (h : kinds.Learned p)
    (hs : kinds.checkStmt s = .ok kinds') : kinds'.Learned (p ++ [s]) := by
  constructor
  · intro name value line hmem
    rcases List.mem_append.1 hmem with hmem | hmem
    · exact find?_checkStmt hs (h.bound hmem)
    · obtain rfl := List.mem_singleton.1 hmem
      obtain ⟨_, _, _, heq, -, rfl⟩ | ⟨_, _, heq, -⟩ := checkStmt_cases hs
      · cases heq
        simp
      · cases heq
  · intro name kind hname
    have hbefore : kinds.find? name = some kind →
        ∃ value line, Stmt.bind name value line ∈ p ++ [s] ∧ value.kind = kind := by
      intro hknown
      obtain ⟨value, line, hmem, hkind⟩ := h.origin hknown
      exact ⟨value, line, List.mem_append_left _ hmem, hkind⟩
    obtain ⟨bound, value, line, rfl, -, rfl⟩ | ⟨printed, line, rfl, rfl⟩ := checkStmt_cases hs
    · rw [Scope.find?_bind] at hname
      by_cases hbound : name = bound
      · rw [if_pos hbound] at hname
        cases hname
        subst hbound
        exact ⟨value, line, by simp, rfl⟩
      · rw [if_neg hbound] at hname
        exact hbefore hname
    · exact hbefore hname

theorem Learned.walk {p q : Program} {index : Nat} (h : kinds.Learned p)
    (hwalk : walk Kinds.checkStmt index kinds q = (kinds', none)) : kinds'.Learned (p ++ q) := by
  induction q generalizing kinds index p with
  | nil =>
    cases hwalk
    rwa [List.append_nil]
  | cons s q ih =>
    obtain ⟨known, hs, hrest⟩ := walk_cons_eq_none hwalk
    have hq := ih (h.checkStmt hs) hrest
    rwa [List.append_assoc] at hq

end Kinds

/-- A string literal. -/
def Expr.IsString (e : Expr) : Prop :=
  ∃ text pos, e = .str text pos

theorem Expr.kind_eq_str_iff {e : Expr} : e.kind = .str ↔ e.IsString := by
  cases e <;> simp [kind, IsString]

/-- What the kinds of the names of a program are. -/
structure Kinds.Describes (kinds : Kinds) (p : Program) : Prop where
  /-- The names with a kind are those that the program binds. -/
  names (name : Bytes) :
    (kinds.find? name).isSome = true ↔ ∃ value line, .bind name value line ∈ p
  /-- A name is a string if and only if all its bindings are string literals, -/
  strings (name : Bytes) (kind : Kind) : kinds.find? name = some kind →
    (kind = .str ↔ ∀ value line, .bind name value line ∈ p → value.IsString)
  /-- and all bindings of a name have one kind. -/
  agree (name : Bytes) (value value' : Expr) (line line' : Int) : .bind name value line ∈ p →
    .bind name value' line' ∈ p → value.kind = value'.kind

theorem Kinds.Learned.describes {kinds : Kinds} {p : Program} (h : kinds.Learned p) :
    kinds.Describes p where
  names name := by
    constructor
    · intro hsome
      obtain ⟨kind, hkind⟩ := Option.isSome_iff_exists.1 hsome
      obtain ⟨value, line, hmem, -⟩ := h.origin hkind
      exact ⟨value, line, hmem⟩
    · rintro ⟨value, line, hmem⟩
      rw [h.bound hmem]
      rfl
  strings name kind hname := by
    constructor
    · rintro rfl value line hmem
      rw [h.bound hmem, Option.some.injEq] at hname
      exact Expr.kind_eq_str_iff.1 hname
    · intro hall
      obtain ⟨value, line, hmem, rfl⟩ := h.origin hname
      exact Expr.kind_eq_str_iff.2 (hall value line hmem)
  agree name value value' line line' hmem hmem' := by
    have hsame := (h.bound hmem).symm.trans (h.bound hmem')
    exact Option.some.inj hsame

/-- One checker is given the programs `ps` and then `p`.  It ends `p` as a checker without a past ends
the statements of `ps`, each program cut just before the first that fails, with `p` behind them: the same
kinds are known, and if there is an error it is the same, in the same statement.  No kind that was known
before `p` is lost or changed by `p` and whatever follows.  If `p` is accepted, the kinds are those of
these statements. -/
theorem Kinds.check_history (ps : List Program) (p : Program) :
    let kinds := Kinds.after .empty ps
    let past := Kinds.history .empty ps
    Kinds.check .empty (past ++ p) =
        ((kinds.check p).1, (kinds.check p).2.map (.later past.length)) ∧
      (∀ name kind, kinds.find? name = some kind →
        ∀ qs, (Kinds.after .empty (ps ++ qs)).find? name = some kind) ∧
      ((kinds.check p).2 = none → (kinds.check p).1.Describes (past ++ p)) := by
  intro kinds past
  have hcheck : Kinds.check .empty (past ++ p) =
      ((kinds.check p).1, (kinds.check p).2.map (.later past.length)) := by
    rw [Kinds.check, walk_history_append, Nat.zero_add]
    exact walk_add Kinds.checkStmt past.length 0 kinds p
  refine ⟨hcheck, ?_, ?_⟩
  · intro name kind hname qs
    rw [Kinds.after, List.foldl_append]
    exact find?_after qs hname
  · intro hstop
    rw [hstop, Option.map_none] at hcheck
    exact (Learned.nil.walk hcheck).describes

/-- A program whose third statement is rejected. -/
def retyped : Program :=
  [.bind (utf8 "n") (.int 1 ⟨1, 9, 0⟩) 1, .bind (utf8 "s") (.str (utf8 "a") ⟨2, 9, 0⟩) 2,
    .bind (utf8 "n") (.str (utf8 "b") ⟨3, 9, 0⟩) 3, .bind (utf8 "m") (.int 2 ⟨4, 9, 0⟩) 4]

/-- A program that uses the names of another one. -/
def resumed : Program :=
  [.print (utf8 "s") 1, .bind (utf8 "n") (.neg (.var (utf8 "n") ⟨2, 10, 1⟩) ⟨2, 9, 0⟩) 2]

/-- The second program is accepted behind the first, which is rejected: the first two statements of that
one are known, and the last one is not. -/
theorem Kinds.check_history_retyped :
    let kinds := Kinds.after .empty [retyped]
    (Kinds.check .empty retyped).2 =
        some ⟨2, 3, .rebound (utf8 "n") .int .str⟩ ∧
      Kinds.history .empty [retyped] = retyped.take 2 ∧
      (kinds.check resumed).2 = none ∧
      (kinds.check resumed).1.Describes (retyped.take 2 ++ resumed) ∧
      ∀ qs, (Kinds.after .empty ([retyped] ++ qs)).find? (utf8 "s") = some .str := by
  intro kinds
  obtain ⟨-, hkept, hknown⟩ := check_history [retyped] resumed
  have hs : kinds.find? (utf8 "s") = some .str := by decide +kernel
  have haccepted : (kinds.check resumed).2 = none := by decide +kernel
  have hhistory : Kinds.history .empty [retyped] = retyped.take 2 := by
    decide +kernel
  rw [hhistory] at hknown
  exact ⟨by decide +kernel, hhistory, haccepted, hknown haccepted, hkept _ _ hs⟩

end LetPrint

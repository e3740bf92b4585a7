import LetPrint.Expr
import LetPrint.Proofs.Token.Terminals

/-!
# The grammar of expressions

Expressions are derived by a grammar of three levels, one nonterminal each:

* `E ::= T | E ('+' | '-') T` (`SumTree`),
* `T ::= U | T ('*' | '/') U` (`ProductTree`),
* `U ::= '-' U | INT | IDENT | '(' E ')'` (`FactorTree`).

A derivation is a tree of these types; `terminals` is what it derives and `tree` the expression that
it stands for.

`Progress` reads terminals from left to right and keeps the parts of a derivation that are not
complete yet.  It gets through what a derivation derives and ends with that derivation
(`SumTree.run_terminals`), so no two derivations derive the same terminals
(`SumTree.eq_of_terminals_eq`); and whatever it has read is what its parts derive
(`Progress.terminals_run`).
-/

namespace LetPrint

open Text

/-! ## Derivations -/

mutual

/-- `U ::= '-' U | INT | IDENT | '(' E ')'` -/
inductive FactorTree where
  | neg (operand : FactorTree)
  | int (digits : Bytes)
  | ident (name : Bytes)
  | group (inner : SumTree)

/-- `T ::= U | T ('*' | '/') U` -/
inductive ProductTree where
  | factor (f : FactorTree)
  | apply (left : ProductTree) (op : MulOp) (right : FactorTree)

/-- `E ::= T | E ('+' | '-') T` -/
inductive SumTree where
  | product (p : ProductTree)
  | apply (left : SumTree) (op : AddOp) (right : ProductTree)

end

mutual

/-- The terminals that a factor derives. -/
def FactorTree.terminals : FactorTree → List Terminal
  | .neg operand => .addOp .sub :: operand.terminals
  | .int digits => [.int digits]
  | .ident name => [.ident name]
  | .group inner => .lparen :: (inner.terminals ++ [.rparen])

/-- The terminals that a product derives. -/
def ProductTree.terminals : ProductTree → List Terminal
  | .factor f => f.terminals
  | .apply left op right => left.terminals ++ .mulOp op :: right.terminals

/-- The terminals that a sum derives. -/
def SumTree.terminals : SumTree → List Terminal
  | .product p => p.terminals
  | .apply left op right => left.terminals ++ .addOp op :: right.terminals

end

/-! ## The expression of a derivation -/

/-- The operator of a sum. -/
def AddOp.operator : AddOp → Operator
  | add => .add
  | sub => .sub

/-- The operator of a product. -/
def MulOp.operator : MulOp → Operator
  | mul => .mul
  | div => .div

/-- The place in an expression that stands nowhere. -/
def Position.nowhere : Position := ⟨0, 0, 0⟩

/-- The expression without its places. -/
def Expr.unplaced : Expr → Expr
  | int n _ => .int n .nowhere
  | var name _ => .var name .nowhere
  | str text _ => .str text .nowhere
  | neg operand _ => .neg operand.unplaced .nowhere
  | bin op left right _ => .bin op left.unplaced right.unplaced .nowhere
  | missing => .missing

mutual

/-- The expression of a factor; parentheses leave no node. -/
def FactorTree.tree : FactorTree → Expr
  | .neg operand => .neg operand.tree .nowhere
  | .int digits => .int (Int32.ofNat (decimalValue digits)) .nowhere
  | .ident name => .var name .nowhere
  | .group inner => inner.tree

/-- The expression of a product. -/
def ProductTree.tree : ProductTree → Expr
  | .factor f => f.tree
  | .apply left op right => .bin op.operator left.tree right.tree .nowhere

/-- The expression of a sum. -/
def SumTree.tree : SumTree → Expr
  | .product p => p.tree
  | .apply left op right => .bin op.operator left.tree right.tree .nowhere

end

/-! ## Reading a derivation -/

/-- The parts of a derivation before an operand, down to the last open parenthesis: a sum and a
product that wait for their right operands, and the number of minuses before the operand. -/
structure Level where
  sum : Option (SumTree × AddOp) := none
  product : Option (ProductTree × MulOp) := none
  minuses : Nat := 0

/-- A sum with its last product. -/
def SumTree.close : Option (SumTree × AddOp) → ProductTree → SumTree
  | none, p => .product p
  | some (left, op), p => .apply left op p

/-- A product with its last factor. -/
def ProductTree.close : Option (ProductTree × MulOp) → FactorTree → ProductTree
  | none, f => .factor f
  | some (left, op), f => .apply left op f

/-- A factor behind minuses. -/
def FactorTree.negated : Nat → FactorTree → FactorTree
  | 0, f => f
  | n + 1, f => negated n (.neg f)

/-- Where the reading of a derivation stands. -/
inductive Progress where
  /-- Before an operand. -/
  | operand (level : Level) (outer : List Level)
  /-- Behind a product. -/
  | operator (sum : Option (SumTree × AddOp)) (value : ProductTree) (outer : List Level)

namespace Progress

/-- Nothing is read yet. -/
def initial : Progress :=
  .operand {} []

/-- Behind an operand. -/
def supply (level : Level) (outer : List Level) (f : FactorTree) : Progress :=
  .operator level.sum (.close level.product (.negated level.minuses f)) outer

/-- Read one terminal. -/
def step : Progress → Terminal → Option Progress
  | operand level outer, .int digits => some (supply level outer (.int digits))
  | operand level outer, .ident name => some (supply level outer (.ident name))
  | operand level outer, .addOp .sub =>
    some (.operand { level with minuses := level.minuses + 1 } outer)
  | operand level outer, .lparen => some (.operand {} (level :: outer))
  | operator sum value outer, .mulOp op =>
    some (.operand { sum, product := some (value, op) } outer)
  | operator sum value outer, .addOp op =>
    some (.operand { sum := some (.close sum value, op) } outer)
  | operator sum value (level :: outer), .rparen =>
    some (supply level outer (.group (.close sum value)))
  | _, _ => none

/-- Read terminals one after the other. -/
def run (s : Progress) (ts : List Terminal) : Option Progress :=
  ts.foldlM step s

@[simp] theorem run_nil (s : Progress) : s.run [] = some s := rfl

@[simp] theorem run_cons (s : Progress) (t : Terminal) (ts : List Terminal) :
    s.run (t :: ts) = (s.step t).bind (·.run ts) := rfl

@[simp] theorem run_append (s : Progress) (ts us : List Terminal) :
    s.run (ts ++ us) = (s.run ts).bind (·.run us) :=
  List.foldlM_append

end Progress

/-! ## What a derivation derives is read -/

/-- Behind a sum. -/
def Progress.behind (outer : List Level) : SumTree → Progress
  | .product p => .operator none p outer
  | .apply left op p => .operator (some (left, op)) p outer

mutual

-- The levels around the tree are arbitrary: a tree inside parentheses is read with more of them.
theorem FactorTree.run_terminals (f : FactorTree) (level : Level) (outer : List Level) :
    (Progress.operand level outer).run f.terminals = some (.supply level outer f) := by
  match f with
  | .int digits => rfl
  | .ident name => rfl
  | .neg operand => exact operand.run_terminals { level with minuses := level.minuses + 1 } outer
  | .group inner =>
    have hinner := inner.run_terminals (level :: outer)
    rw [FactorTree.terminals, Progress.run_cons, Progress.step, Option.bind_some,
      Progress.run_append, hinner, Option.bind_some]
    cases inner <;> rfl

theorem ProductTree.run_terminals (p : ProductTree) (sum : Option (SumTree × AddOp))
    (outer : List Level) :
    (Progress.operand { sum } outer).run p.terminals = some (.operator sum p outer) := by
  match p with
  | .factor f => exact f.run_terminals { sum } outer
  | .apply left op right =>
    have hright := right.run_terminals { sum, product := some (left, op) } outer
    rw [ProductTree.terminals, Progress.run_append, left.run_terminals sum outer, Option.bind_some]
    exact hright

theorem SumTree.run_terminals (d : SumTree) (outer : List Level) :
    (Progress.operand {} outer).run d.terminals = some (.behind outer d) := by
  match d with
  | .product p => exact p.run_terminals none outer
  | .apply left op right =>
    have hright := right.run_terminals (some (left, op)) outer
    rw [SumTree.terminals, Progress.run_append, left.run_terminals outer, Option.bind_some]
    cases left <;> exact hright

end

/-- No two derivations derive the same terminals. -/
theorem SumTree.eq_of_terminals_eq {d d' : SumTree} (h : d.terminals = d'.terminals) : d = d' := by
  -- The run is a function of the terminals, and its end shows the tree.
  have hd := d.run_terminals []
  rw [h, d'.run_terminals []] at hd
  cases d <;> cases d' <;> cases hd <;> rfl

/-! ## What is read is derived -/

/-- The terminals of a sum that waits for its right operand. -/
def sumTerminals : Option (SumTree × AddOp) → List Terminal
  | none => []
  | some (left, op) => left.terminals ++ [.addOp op]

/-- The terminals of a product that waits for its right operand. -/
def productTerminals : Option (ProductTree × MulOp) → List Terminal
  | none => []
  | some (left, op) => left.terminals ++ [.mulOp op]

/-- The terminals of the parts of a level. -/
def Level.terminals (level : Level) : List Terminal :=
  sumTerminals level.sum ++ productTerminals level.product
    ++ List.replicate level.minuses (.addOp .sub)

/-- The terminals of the levels around an open parenthesis, the innermost level first. -/
def outerTerminals : List Level → List Terminal
  | [] => []
  | level :: outer => outerTerminals outer ++ level.terminals ++ [.lparen]

/-- All terminals that have been read. -/
def Progress.terminals : Progress → List Terminal
  | operand level outer => outerTerminals outer ++ level.terminals
  | operator sum value outer => outerTerminals outer ++ sumTerminals sum ++ value.terminals

theorem SumTree.terminals_close (sum : Option (SumTree × AddOp)) (p : ProductTree) :
    (SumTree.close sum p).terminals = sumTerminals sum ++ p.terminals := by
  rcases sum with _ | ⟨left, op⟩
  · rfl
  · simp [SumTree.close, SumTree.terminals, sumTerminals]

theorem ProductTree.terminals_close (product : Option (ProductTree × MulOp)) (f : FactorTree) :
    (ProductTree.close product f).terminals = productTerminals product ++ f.terminals := by
  rcases product with _ | ⟨left, op⟩
  · rfl
  · simp [ProductTree.close, ProductTree.terminals, productTerminals]

theorem FactorTree.terminals_negated (n : Nat) (f : FactorTree) :
    (FactorTree.negated n f).terminals = List.replicate n (.addOp .sub) ++ f.terminals := by
  induction n generalizing f with
  | zero => rfl
  | succ n ih =>
    rw [FactorTree.negated, ih, FactorTree.terminals, List.replicate_succ']
    simp

namespace Progress

theorem terminals_supply (level : Level) (outer : List Level) (f : FactorTree) :
    (supply level outer f).terminals = outerTerminals outer ++ level.terminals ++ f.terminals := by
  simp only [supply, terminals, ProductTree.terminals_close, FactorTree.terminals_negated,
    Level.terminals, List.append_assoc]

/-- A step adds its terminal to what is read. -/
theorem terminals_step {s s' : Progress} {t : Terminal} (h : s.step t = some s') :
    s'.terminals = s.terminals ++ [t] := by
  unfold step at h
  split at h <;> cases h
  -- An operand closes its level; every other terminal opens or extends one.
  · exact terminals_supply _ _ _
  · exact terminals_supply _ _ _
  · simp only [terminals, Level.terminals, List.replicate_succ', List.append_assoc]
  · simp [terminals, outerTerminals, Level.terminals, sumTerminals, productTerminals]
  · simp [terminals, Level.terminals, productTerminals]
  · simp [terminals, Level.terminals, sumTerminals, productTerminals, SumTree.terminals_close]
  · rw [terminals_supply]
    simp [terminals, outerTerminals, FactorTree.terminals, SumTree.terminals_close]

/-- Whatever is read is what the parts derive. -/
theorem terminals_run {s s' : Progress} {ts : List Terminal} (h : s.run ts = some s') :
    s'.terminals = s.terminals ++ ts := by
  induction ts generalizing s with
  | nil =>
    cases h
    simp
  | cons t ts ih =>
    rw [run_cons, Option.bind_eq_some_iff] at h
    obtain ⟨s₁, hstep, hrun⟩ := h
    rw [ih hrun, terminals_step hstep, List.append_assoc, List.singleton_append]

end Progress

end LetPrint

import LetPrint.Expr
import LetPrint.Token.Scan

/-!
# Reading expressions

Expressions are read by binding powers.  An operator holds what stands to its left with one power and
what stands to its right with another (`Binding`), and an operand goes to the side that holds it more
tightly.  `climb` reads an expression in which no operator on the outside holds its left operand with
less than a given power: a `primary`, which `extend` takes as the left operand of one operator after the
other for as long as the power allows it.

One token is looked at ahead.  So an error of the text below the tokens comes to light when the token
before it has been used, and no sooner.
-/

namespace LetPrint

open Text

/-- A binary operator, and how tightly it holds its operands. -/
structure Binding where
  left : Nat
  right : Nat
  op : Operator
  deriving DecidableEq, Repr

/-- The binary operator that a token stands for.  The right power is the greater one, so operators with
the same powers associate to the left. -/
def TokenKind.binding? : TokenKind → Option Binding
  | plus => some ⟨5, 6, .add⟩
  | minus => some ⟨5, 6, .sub⟩
  | star => some ⟨7, 8, .mul⟩
  | slash => some ⟨7, 8, .div⟩
  | _ => none

/-- An error at a token. -/
def Token.errorAt (t : Token) (fault : ParseFault) : ParseError :=
  ⟨fault, t.position.line, t.position.column⟩

namespace ExprParser

/-- The power with which a unary minus holds its operand. -/
def minusPower : Nat := 9

/-- An expression that was read, and the tokens behind it, of which there are fewer than `bound`. -/
structure Reading (bound : Nat) where
  value : Expr
  rest : List Token
  fewer : rest.length < bound

/-- The reading under a greater bound. -/
def Reading.widen {bound bound' : Nat} (r : Reading bound) (h : bound ≤ bound') : Reading bound' :=
  ⟨r.value, r.rest, Nat.lt_of_lt_of_le r.fewer h⟩

mutual

/-- An expression whose operators hold their left operands at least with the power `floor`.  Behind the
tokens comes `ending`, the end of the text or an error. -/
def climb (ending : Except ParseError Token) (floor : Nat) (ts : List Token) :
    Except ParseError (Reading ts.length) := do
  let left ← primary ending ts
  let whole ← extend ending floor left.value left.rest
  return whole.widen left.fewer
termination_by 3 * ts.length + 2
decreasing_by
  · omega
  · have := left.fewer
    omega

/-- An expression without operators on the outside, or a unary minus. -/
def primary (ending : Except ParseError Token) (ts : List Token) :
    Except ParseError (Reading ts.length) :=
  match ts with
  | [] => do
    let last ← ending
    .error (last.errorAt .expectedExpression)
  | t :: ts =>
    match t.kind with
    | .int => .ok ⟨.int t.value t.position, ts, Nat.lt_succ_self _⟩
    | .ident => .ok ⟨.var t.text t.position, ts, Nat.lt_succ_self _⟩
    | .minus => do
      let operand ← climb ending minusPower ts
      return ⟨.neg operand.value t.position, operand.rest, Nat.lt_succ_of_lt operand.fewer⟩
    | .lparen => do
      let inner ← climb ending 0 ts
      match hrest : inner.rest with
      | [] => do
        let last ← ending
        .error (last.errorAt (.unclosed none))
      | close :: rest =>
        if close.kind = .rparen then
          .ok ⟨inner.value, rest, by
            have := inner.fewer
            simp only [hrest, List.length_cons] at this ⊢
            omega⟩
        else .error (close.errorAt (.unclosed (some close.text)))
    | _ => .error (t.errorAt (.unexpectedToken t.text))
termination_by 3 * ts.length + 1
decreasing_by
  all_goals
    simp only [List.length_cons]
    omega

/-- What the tokens make of an expression that stands before them: the left operand of an operator, if
one follows that holds it at least with the power `floor`. -/
def extend (ending : Except ParseError Token) (floor : Nat) (left : Expr) (ts : List Token) :
    Except ParseError (Reading (ts.length + 1)) :=
  match ts with
  | [] => do
    let _ ← ending
    return ⟨left, [], Nat.zero_lt_succ _⟩
  | t :: ts =>
    match t.kind.binding? with
    | none => .ok ⟨left, t :: ts, Nat.lt_succ_self _⟩
    | some b =>
      if b.left < floor then .ok ⟨left, t :: ts, Nat.lt_succ_self _⟩
      else do
        let right ← climb ending b.right ts
        let whole ← extend ending floor (.bin b.op left right.value t.position) right.rest
        return whole.widen (by
          have := right.fewer
          simp only [List.length_cons]
          omega)
termination_by 3 * ts.length
decreasing_by
  · simp only [List.length_cons]
    omega
  · have := right.fewer
    simp only [List.length_cons]
    omega

end

/-- The expression that a stream of tokens spells, if there is nothing behind it. -/
def parseAll (s : TokenStream) : Except ParseError Expr := do
  let whole ← climb s.ending 0 s.tokens
  match whole.rest with
  | [] => do
    let _ ← s.ending
    return whole.value
  | t :: _ => .error (t.errorAt (.trailingToken t.text))

end ExprParser

/-- The expression that a text spells, its first byte being at the given line and column. -/
def Expr.parse (source : Bytes) (line column : Int) : Except ParseError Expr :=
  ExprParser.parseAll (Cursor.start source line column).scan

end LetPrint

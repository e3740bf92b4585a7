import LetPrint.Expr.Parser
import LetPrint.Proofs.Passes

/-!
# Reading expressions token by token

A second reader of expressions, which takes the tokens one by one and does not look ahead.  It stands
before an operand or behind one (`ExprReader`).  What is read but not yet complete is kept by level,
tightest first: unary minuses, a product, a sum, and one `Group` for each parenthesis that is still open.
An operand closes the minuses and the product before it at once; a sum is closed by the next `+` or `-`,
by a parenthesis or by the end.

Because every token is judged as it comes, an error names the first token that no expression could have
at that place, and what holds of a token holds of a whole text by induction on its tokens.  That is why
the reader is here: `Expr.parse_eq_read` says that reading by binding powers comes to the same.

* What the levels are for the reader, the powers are for the parser.  Operands of `*`, `/` and unary
  minus are primaries (`climb_tight`), those of `+` and `-` are products (`drive_product`), and
  parentheses hold sums (`drive_sum`).
* `drive_primary` puts these together, by induction on the number of tokens.
-/

namespace LetPrint

open Text

/-! ## The reader -/

/-- A binary operation that waits for its right operand. -/
structure Pending where
  left : Expr
  op : Operator
  pos : Position
  deriving DecidableEq, Repr

/-- Complete an operation with its right operand; without one, the operand stands alone. -/
def Pending.close (p : Option Pending) (right : Expr) : Expr :=
  match p with
  | none => right
  | some p => .bin p.op p.left right p.pos

/-- The incomplete part of an expression before an operand: a sum, a product and unary minuses,
the innermost minus first. -/
structure Group where
  sum : Option Pending := none
  product : Option Pending := none
  minuses : List Position := []
  deriving DecidableEq, Repr

/-- Complete the minuses and the product of a group with an operand. -/
def Group.closeProduct (g : Group) (operand : Expr) : Expr :=
  Pending.close g.product (g.minuses.foldl Expr.neg operand)

/-- Where the reader stands. -/
inductive ExprReader where
  /-- Before an operand, in the group `g` inside the groups `outer`. -/
  | operand (g : Group) (outer : List Group)
  /-- Behind the operand `value` of a pending sum, inside the groups `outer`. -/
  | operator (sum : Option Pending) (value : Expr) (outer : List Group)
  deriving DecidableEq, Repr

namespace ExprReader

/-- The reader before any token. -/
def initial : ExprReader :=
  .operand {} []

/-- The reader behind an operand. -/
def supply (g : Group) (outer : List Group) (operand : Expr) : ExprReader :=
  .operator g.sum (g.closeProduct operand) outer

/-- What a token that continues nothing is reported as: it stands in place of a closing
parenthesis, or after the whole expression. -/
def misplaced (outer : List Group) (t : Token) : ParseError :=
  t.errorAt (if outer.isEmpty then .trailingToken t.text else .unclosed (some t.text))

/-- Read one token. -/
def step : ExprReader → Token → Except ParseError ExprReader
  | .operand g outer, t =>
    match t.kind with
    | .int => .ok (supply g outer (.int t.value t.position))
    | .ident => .ok (supply g outer (.var t.text t.position))
    | .minus => .ok (.operand { g with minuses := t.position :: g.minuses } outer)
    | .lparen => .ok (.operand {} (g :: outer))
    | _ => .error (t.errorAt (.unexpectedToken t.text))
  | .operator sum value outer, t =>
    let inProduct op := .ok (.operand { sum, product := some ⟨value, op, t.position⟩ } outer)
    let inSum op := .ok (.operand { sum := some ⟨Pending.close sum value, op, t.position⟩ } outer)
    match t.kind with
    | .star => inProduct .mul
    | .slash => inProduct .div
    | .plus => inSum .add
    | .minus => inSum .sub
    | .rparen =>
      match outer with
      | g :: outer' => .ok (supply g outer' (Pending.close sum value))
      | [] => .error (misplaced outer t)
    | _ => .error (misplaced outer t)

/-- The expression that is complete at the end of the text. -/
def finish (r : ExprReader) (last : Token) : Except ParseError Expr :=
  match r with
  | .operand _ _ => .error (last.errorAt .expectedExpression)
  | .operator sum value [] => .ok (Pending.close sum value)
  | .operator _ _ (_ :: _) => .error (last.errorAt (.unclosed none))

/-- The expression that a stream of tokens spells. -/
def read (s : TokenStream) : Except ParseError Expr := do
  let r ← s.tokens.foldlM step initial
  let last ← s.ending
  r.finish last

end ExprReader

/-! ## Both readers side by side -/

namespace ExprParser

variable {ending : Except ParseError Token} {t : Token} {ts : List Token} {floor n : Nat}
  {left value : Expr} {sum : Option Pending} {outer : List Group} {g : Group}

/-- What the reader makes of the rest of the text. -/
def drive (ending : Except ParseError Token) (r : ExprReader) (ts : List Token) :
    Except ParseError Expr := do
  let r ← ts.foldlM ExprReader.step r
  let last ← ending
  r.finish last

theorem drive_nil (r : ExprReader) : drive ending r [] = ending >>= r.finish := rfl

theorem drive_cons (r : ExprReader) :
    drive ending r (t :: ts) = r.step t >>= fun r' => drive ending r' ts := by
  rw [drive, List.foldlM_cons]
  cases r.step t with
  | error e => rfl
  | ok r' => rfl

/-- The next token is no operator that holds its left operand at least with the power `floor`. -/
def Stops (floor : Nat) : List Token → Prop
  | [] => True
  | t :: _ => ∀ b, t.kind.binding? = some b → b.left < floor

theorem exists_of_not_stops (h : ¬Stops floor (t :: ts)) :
    ∃ b, t.kind.binding? = some b ∧ floor ≤ b.left := by
  simp only [Stops, Classical.not_forall, Nat.not_lt] at h
  obtain ⟨b, hb, hleft⟩ := h
  exact ⟨b, hb, hleft⟩

theorem extend_cons {b : Binding} (hb : t.kind.binding? = some b) (h : floor ≤ b.left) :
    extend ending floor left (t :: ts) = (do
      let right ← climb ending b.right ts
      let whole ← extend ending floor (.bin b.op left right.value t.position) right.rest
      return whole.widen (by have := right.fewer; simp only [List.length_cons]; omega)) := by
  rw [extend]
  simp only [hb, if_neg (Nat.not_lt.2 h)]

/-- Where the parser stops, the reader goes on with what is left. -/
theorem extend_bind_of_stops (h : Stops floor ts) (r : Expr → ExprReader) :
    (extend ending floor left ts >>= fun whole => drive ending (r whole.value) whole.rest) =
      drive ending (r left) ts := by
  cases ts with
  | nil =>
    rw [extend, drive_nil]
    cases ending with
    | error e => rfl
    | ok last => rfl
  | cons t ts =>
    rw [extend]
    cases hb : t.kind.binding? with
    | none => rfl
    | some b =>
      simp only [if_pos (h b hb)]
      rfl

/-- The parser does stop behind what it reads. -/
theorem stops_of_extend {left : Expr} {ts : List Token} {whole : Reading (ts.length + 1)}
    (h : extend ending floor left ts = .ok whole) : Stops floor whole.rest := by
  match ts with
  | [] =>
    rw [extend, bind_eq_ok] at h
    obtain ⟨last, -, heq⟩ := h
    cases heq
    trivial
  | t :: ts =>
    by_cases hstops : Stops floor (t :: ts)
    · obtain rfl : whole = ⟨left, t :: ts, Nat.lt_succ_self _⟩ := by
        rw [extend] at h
        cases hb : t.kind.binding? with
        | none =>
          simp only [hb] at h
          exact (Except.ok.inj h).symm
        | some b =>
          simp only [hb, if_pos (hstops b hb)] at h
          exact (Except.ok.inj h).symm
      exact hstops
    · obtain ⟨b, hb, hleft⟩ := exists_of_not_stops hstops
      rw [extend_cons hb hleft, bind_eq_ok] at h
      obtain ⟨right, -, h⟩ := h
      rw [bind_eq_ok] at h
      obtain ⟨whole', hextend, heq⟩ := h
      cases heq
      have hstops' := stops_of_extend hextend
      exact hstops'
termination_by ts.length
decreasing_by
  have := right.fewer
  simp only [List.length_cons]
  omega

theorem bind_congr_of_ok {α β : Type} {x : Except ParseError α} {f f' : α → Except ParseError β}
    (h : ∀ a, x = .ok a → f a = f' a) : (x >>= f) = x >>= f' := by
  cases x with
  | error e => rfl
  | ok a => exact h a rfl

theorem climb_bind (k : Expr → List Token → Except ParseError Expr) :
    (climb ending floor ts >>= fun whole => k whole.value whole.rest) =
      primary ending ts >>= fun left =>
        extend ending floor left.value left.rest >>= fun whole => k whole.value whole.rest := by
  rw [climb]
  simp only [bind_assoc, pure_bind]
  rfl

theorem stops_of_climb {whole : Reading ts.length} (h : climb ending floor ts = .ok whole) :
    Stops floor whole.rest := by
  rw [climb, bind_eq_ok] at h
  obtain ⟨left, -, h⟩ := h
  rw [bind_eq_ok] at h
  obtain ⟨whole', hextend, heq⟩ := h
  cases heq
  exact stops_of_extend hextend

/-! ## Levels and powers -/

theorem stops_of_tight (h : 8 ≤ floor) (ts : List Token) : Stops floor ts := by
  cases ts with
  | nil => trivial
  | cons t ts =>
    intro b hb
    cases hkind : t.kind <;> rw [hkind] at hb <;> cases hb <;> exact Nat.lt_of_lt_of_le (by decide) h

/-- No operator holds an operand of `*`, `/` or unary minus more tightly: it is a primary. -/
theorem climb_tight (h : 8 ≤ floor) (r : Expr → ExprReader) :
    (climb ending floor ts >>= fun whole => drive ending (r whole.value) whole.rest) =
      primary ending ts >>= fun left => drive ending (r left.value) left.rest := by
  rw [climb_bind fun value rest => drive ending (r value) rest]
  refine bind_congr fun left => ?_
  exact extend_bind_of_stops (stops_of_tight h left.rest) r

/-- An operator of a product puts the operand before it into the product. -/
theorem step_of_product {b : Binding} (hb : t.kind.binding? = some b) (h : 6 ≤ b.left)
    (sum : Option Pending) (value : Expr) (outer : List Group) :
    b.right = 8 ∧ (ExprReader.operator sum value outer).step t =
      .ok (.operand { sum, product := some ⟨value, b.op, t.position⟩ } outer) := by
  cases hkind : t.kind <;> rw [hkind] at hb <;> cases hb <;>
    first
    | exact absurd h (by decide)
    | exact ⟨rfl, by simp only [ExprReader.step, hkind]⟩

/-- An operator of a sum closes the sum before it. -/
theorem step_of_sum {b : Binding} (hb : t.kind.binding? = some b) (h : b.left < 6)
    (sum : Option Pending) (value : Expr) (outer : List Group) :
    b.right = 6 ∧ (ExprReader.operator sum value outer).step t =
      .ok (.operand { sum := some ⟨Pending.close sum value, b.op, t.position⟩ } outer) := by
  cases hkind : t.kind <;> rw [hkind] at hb <;> cases hb <;>
    first
    | exact absurd h (by decide)
    | exact ⟨rfl, by simp only [ExprReader.step, hkind]⟩

/-- Any other token behind an operand is out of place, unless it closes a parenthesis. -/
theorem step_of_stops (h : Stops 0 (t :: ts)) (hclose : t.kind = .rparen → outer = []) :
    (ExprReader.operator sum value outer).step t = .error (ExprReader.misplaced outer t) := by
  cases hkind : t.kind with
  | rparen =>
    rw [hclose hkind]
    simp only [ExprReader.step, hkind]
  | plus | minus | star | slash => exact absurd (h _ (by rw [hkind]; rfl)) (Nat.not_lt_zero _)
  | _ => simp only [ExprReader.step, hkind]

/-- Where no product goes on, a pending sum is as good as closed. -/
theorem drive_close (h : Stops 6 ts) :
    drive ending (.operator sum value outer) ts =
      drive ending (.operator none (Pending.close sum value) outer) ts := by
  cases ts with
  | nil =>
    rw [drive_nil, drive_nil]
    cases outer <;> rfl
  | cons t ts =>
    rw [drive_cons, drive_cons]
    refine congrArg (· >>= _) ?_
    cases hkind : t.kind with
    | star => exact absurd (h ⟨7, 8, .mul⟩ (by rw [hkind]; rfl)) (by decide)
    | slash => exact absurd (h ⟨7, 8, .div⟩ (by rw [hkind]; rfl)) (by decide)
    | rparen =>
      cases outer <;> simp only [ExprReader.step, hkind] <;> rfl
    | _ => simp only [ExprReader.step, hkind] <;> rfl

/-- Both readers agree on operands with fewer than `n` tokens to come. -/
def AgreeBelow (ending : Except ParseError Token) (n : Nat) : Prop :=
  ∀ ts : List Token, ts.length < n → ∀ g outer,
    drive ending (.operand g outer) ts =
      primary ending ts >>= fun p => drive ending (.supply g outer p.value) p.rest

section

variable (hagree : AgreeBelow ending n)
include hagree

theorem drive_times {b : Binding} (hb : t.kind.binding? = some b) (h : 6 ≤ b.left)
    (hlength : ts.length < n) :
    drive ending (.operator sum value outer) (t :: ts) =
      climb ending b.right ts >>= fun right =>
        drive ending (.operator sum (.bin b.op value right.value t.position) outer) right.rest := by
  obtain ⟨hright, hstep⟩ := step_of_product hb h sum value outer
  rw [drive_cons, hstep, hright]
  rw [climb_tight (Nat.le_refl 8) fun e => .operator sum (.bin b.op value e t.position) outer]
  exact hagree ts hlength _ outer

/-- Behind an operand, the reader reads on to the end of the product. -/
theorem drive_product {value : Expr} {ts : List Token} (hlength : ts.length ≤ n) :
    drive ending (.operator sum value outer) ts =
      extend ending 6 value ts >>= fun whole =>
        drive ending (.operator sum whole.value outer) whole.rest := by
  by_cases hstops : Stops 6 ts
  · exact (extend_bind_of_stops hstops fun e => .operator sum e outer).symm
  match ts with
  | [] => exact absurd trivial hstops
  | t :: ts =>
    obtain ⟨b, hb, hleft⟩ := exists_of_not_stops hstops
    rw [List.length_cons] at hlength
    rw [drive_times hagree hb hleft (by omega), extend_cons hb hleft, bind_assoc]
    refine bind_congr fun right => ?_
    have hfewer := right.fewer
    rw [drive_product (by omega), bind_assoc]
    rfl
termination_by ts.length
decreasing_by
  simp only [List.length_cons]
  omega

theorem drive_plus {b : Binding} (hb : t.kind.binding? = some b) (h : b.left < 6)
    (hlength : ts.length < n) :
    drive ending (.operator none value outer) (t :: ts) =
      climb ending b.right ts >>= fun right =>
        drive ending (.operator none (.bin b.op value right.value t.position) outer) right.rest := by
  obtain ⟨hright, hstep⟩ := step_of_sum hb h none value outer
  let sum : Option Pending := some ⟨value, b.op, t.position⟩
  calc drive ending (.operator none value outer) (t :: ts)
      = drive ending (.operand { sum } outer) ts := by
        rw [drive_cons, hstep]
        rfl
    _ = primary ending ts >>= fun left =>
          drive ending (.operator sum left.value outer) left.rest := hagree ts hlength { sum } outer
    _ = primary ending ts >>= fun left => extend ending 6 left.value left.rest >>= fun right =>
          drive ending (.operator sum right.value outer) right.rest := by
        refine bind_congr fun left => ?_
        have hfewer := left.fewer
        exact drive_product hagree (by omega)
    _ = climb ending b.right ts >>= fun right =>
          drive ending (.operator sum right.value outer) right.rest := by
        rw [hright, climb_bind fun e rest => drive ending (.operator sum e outer) rest]
    _ = _ := by
        rw [hright]
        exact bind_congr_of_ok fun right hclimb => drive_close (stops_of_climb hclimb)

/-- Behind an operand that no sum waits for, the reader reads on to the end of the sum. -/
theorem drive_sum {value : Expr} {ts : List Token} (hlength : ts.length ≤ n) :
    drive ending (.operator none value outer) ts =
      extend ending 0 value ts >>= fun whole =>
        drive ending (.operator none whole.value outer) whole.rest := by
  by_cases hstops : Stops 0 ts
  · exact (extend_bind_of_stops hstops fun e => .operator none e outer).symm
  match ts with
  | [] => exact absurd trivial hstops
  | t :: ts =>
    obtain ⟨b, hb, hleft⟩ := exists_of_not_stops hstops
    rw [List.length_cons] at hlength
    have hoperator : drive ending (.operator none value outer) (t :: ts) =
        climb ending b.right ts >>= fun right =>
          drive ending (.operator none (.bin b.op value right.value t.position) outer)
            right.rest := by
      rcases Nat.lt_or_ge b.left 6 with hlt | hge
      · exact drive_plus hagree hb hlt (by omega)
      · exact drive_times hagree hb hge (by omega)
    rw [hoperator, extend_cons hb hleft, bind_assoc]
    refine bind_congr fun right => ?_
    have hfewer := right.fewer
    rw [drive_sum (by omega), bind_assoc]
    rfl
termination_by ts.length
decreasing_by
  simp only [List.length_cons]
  omega

/-- Before an operand of a new group, the reader reads on to the end of the sum. -/
theorem drive_group (hlength : ts.length < n) :
    drive ending (.operand {} outer) ts =
      climb ending 0 ts >>= fun whole =>
        drive ending (.operator none whole.value outer) whole.rest := by
  rw [climb_bind fun e rest => drive ending (.operator none e outer) rest, hagree ts hlength]
  refine bind_congr fun left => ?_
  have hfewer := left.fewer
  exact drive_sum hagree (by omega)

end

/-! ## The parser and the reader agree -/

theorem drive_minus (hagree : AgreeBelow ending n) (hlength : ts.length < n)
    (hkind : t.kind = .minus) :
    drive ending (.operand g outer) (t :: ts) =
      primary ending (t :: ts) >>= fun p => drive ending (.supply g outer p.value) p.rest := by
  have hstep : (ExprReader.operand g outer).step t =
      .ok (.operand { g with minuses := t.position :: g.minuses } outer) := by
    simp only [ExprReader.step, hkind]
  rw [drive_cons, hstep, primary]
  simp only [hkind, bind_assoc, pure_bind]
  rw [climb_tight (by decide) fun e => .supply g outer (.neg e t.position)]
  exact hagree ts hlength _ outer

theorem drive_lparen (hagree : AgreeBelow ending n) (hlength : ts.length < n)
    (hkind : t.kind = .lparen) :
    drive ending (.operand g outer) (t :: ts) =
      primary ending (t :: ts) >>= fun p => drive ending (.supply g outer p.value) p.rest := by
  have hstep : (ExprReader.operand g outer).step t = .ok (.operand {} (g :: outer)) := by
    simp only [ExprReader.step, hkind]
  have hgroup : drive ending (.operand g outer) (t :: ts) =
      climb ending 0 ts >>= fun whole =>
        drive ending (.operator none whole.value (g :: outer)) whole.rest := by
    rw [drive_cons, hstep]
    exact drive_group hagree hlength
  rw [hgroup, primary]
  simp only [hkind, bind_assoc]
  refine bind_congr_of_ok fun inner hclimb => ?_
  have hstops := stops_of_climb hclimb
  clear hclimb
  obtain ⟨value, rest, hfewer⟩ := inner
  cases rest with
  | nil =>
    rw [drive_nil]
    cases ending with
    | error e => rfl
    | ok last => rfl
  | cons close rest =>
    rw [drive_cons]
    by_cases hclose : close.kind = .rparen
    · simp only [ExprReader.step, hclose, if_true]
      rfl
    · rw [step_of_stops hstops fun h => absurd h hclose]
      simp only [if_neg hclose]
      rfl

/-- An operand is read alike. -/
theorem drive_primary (ending : Except ParseError Token) (n : Nat) : AgreeBelow ending n := by
  induction n with
  | zero => exact fun ts hlength => absurd hlength (Nat.not_lt_zero _)
  | succ n ih =>
    intro ts hlength g outer
    cases ts with
    | nil =>
      rw [primary, drive_nil]
      cases ending with
      | error e => rfl
      | ok last => rfl
    | cons t ts =>
      rw [List.length_cons] at hlength
      cases hkind : t.kind with
      | minus => exact drive_minus ih (by omega) hkind
      | lparen => exact drive_lparen ih (by omega) hkind
      | _ =>
        rw [drive_cons, primary]
        simp only [hkind, ExprReader.step]
        rfl

/-- The parser reads what the reader reads. -/
theorem parseAll_eq_read (s : TokenStream) : parseAll s = ExprReader.read s := by
  obtain ⟨tokens, ending⟩ := s
  show parseAll ⟨tokens, ending⟩ = drive ending (.operand {} []) tokens
  rw [drive_group (drive_primary ending (tokens.length + 1)) (Nat.lt_succ_self _), parseAll]
  refine bind_congr_of_ok fun whole hclimb => ?_
  have hstops := stops_of_climb hclimb
  clear hclimb
  obtain ⟨value, rest, hfewer⟩ := whole
  cases rest with
  | nil =>
    rw [drive_nil]
    cases ending with
    | error e => rfl
    | ok last => rfl
  | cons t rest =>
    rw [drive_cons, step_of_stops hstops fun _ => rfl]
    rfl

end ExprParser

theorem Expr.parse_eq_read (source : Bytes) (line column : Int) :
    Expr.parse source line column = ExprReader.read (Cursor.start source line column).scan :=
  ExprParser.parseAll_eq_read _

end LetPrint

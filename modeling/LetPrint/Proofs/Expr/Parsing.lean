import LetPrint.Proofs.Expr.Grammar
import LetPrint.Proofs.Expr.Reader

/-!
# The reader of expressions and the grammar

The reader of expressions keeps operands that are complete expressions, `Progress` keeps the parts of
a derivation.  Places apart, the one is the image of the other: `Progress.image` says what the reader
keeps for the parts of a derivation, and each token is read alike (`step_agrees`, `run_agrees`).

So a text is read to an expression if and only if it spells tokens that the grammar derives, and the
expression is that of the derivation (`Expr.parse_iff_lexes`).
-/

namespace LetPrint

open Text

/-! ## What a reader keeps, without places -/

/-- An operation that waits for its right operand, without its places. -/
def Pending.unplaced (p : Pending) : Pending :=
  ⟨p.left.unplaced, p.op, .nowhere⟩

/-- The incomplete part of an expression, without its places. -/
def Group.unplaced (g : Group) : Group :=
  { sum := g.sum.map Pending.unplaced
    product := g.product.map Pending.unplaced
    minuses := g.minuses.map fun _ => .nowhere }

/-- What a reader keeps, without places. -/
def ExprReader.unplaced : ExprReader → ExprReader
  | operand g outer => .operand g.unplaced (outer.map Group.unplaced)
  | operator sum value outer =>
    .operator (sum.map Pending.unplaced) value.unplaced (outer.map Group.unplaced)

theorem Pending.unplaced_close (p : Option Pending) (e : Expr) :
    (Pending.close p e).unplaced = Pending.close (p.map Pending.unplaced) e.unplaced := by
  cases p with
  | none => rfl
  | some p => rfl

theorem Group.unplaced_closeProduct (g : Group) (e : Expr) :
    (g.closeProduct e).unplaced = g.unplaced.closeProduct e.unplaced := by
  have hminuses : ∀ (minuses : List Position) (e : Expr), (minuses.foldl Expr.neg e).unplaced =
      (minuses.map fun _ => Position.nowhere).foldl Expr.neg e.unplaced := by
    intro minuses
    induction minuses with
    | nil => exact fun _ => rfl
    | cons pos minuses ih => exact fun e => ih (.neg e pos)
  rw [closeProduct, Pending.unplaced_close, hminuses]
  rfl

theorem ExprReader.unplaced_supply (g : Group) (outer : List Group) (e : Expr) :
    (supply g outer e).unplaced = supply g.unplaced (outer.map Group.unplaced) e.unplaced := by
  rw [supply, unplaced, Group.unplaced_closeProduct]
  rfl

/-! ## What a reader keeps for the parts of a derivation -/

/-- A sum that waits for its right operand. -/
def SumTree.pending : SumTree × AddOp → Pending
  | (left, op) => ⟨left.tree, op.operator, .nowhere⟩

/-- A product that waits for its right operand. -/
def ProductTree.pending : ProductTree × MulOp → Pending
  | (left, op) => ⟨left.tree, op.operator, .nowhere⟩

/-- What a reader keeps for a level. -/
def Level.group (level : Level) : Group :=
  { sum := level.sum.map SumTree.pending
    product := level.product.map ProductTree.pending
    minuses := List.replicate level.minuses .nowhere }

/-- What a reader keeps for the parts of a derivation. -/
def Progress.image : Progress → ExprReader
  | operand level outer => .operand level.group (outer.map Level.group)
  | operator sum value outer =>
    .operator (sum.map SumTree.pending) value.tree (outer.map Level.group)

theorem SumTree.tree_close (sum : Option (SumTree × AddOp)) (p : ProductTree) :
    (SumTree.close sum p).tree = Pending.close (sum.map SumTree.pending) p.tree := by
  cases sum with
  | none => rfl
  | some left => rfl

theorem ProductTree.tree_close (product : Option (ProductTree × MulOp)) (f : FactorTree) :
    (ProductTree.close product f).tree =
      Pending.close (product.map ProductTree.pending) f.tree := by
  cases product with
  | none => rfl
  | some left => rfl

theorem FactorTree.tree_negated (n : Nat) (f : FactorTree) :
    (FactorTree.negated n f).tree = (List.replicate n Position.nowhere).foldl Expr.neg f.tree := by
  induction n generalizing f with
  | zero => rfl
  | succ n ih => exact ih (.neg f)

theorem Progress.image_supply (level : Level) (outer : List Level) (f : FactorTree) :
    (supply level outer f).image = .supply level.group (outer.map Level.group) f.tree := by
  rw [supply, image, ProductTree.tree_close, FactorTree.tree_negated]
  rfl

/-! ## Both read alike -/

theorem step_agrees_operand {g : Group} {outer : List Group} {level : Level}
    {outer' : List Level} (hg : g.unplaced = level.group)
    (houter : outer.map Group.unplaced = outer'.map Level.group) (t : Token) :
    ((ExprReader.operand g outer).step t).toOption.map ExprReader.unplaced =
      ((Progress.operand level outer').step t.terminal).map Progress.image := by
  have hsupply : ∀ (e : Expr) (f : FactorTree), e.unplaced = f.tree →
      (ExprReader.supply g outer e).unplaced = (Progress.supply level outer' f).image := by
    intro e f he
    rw [ExprReader.unplaced_supply, Progress.image_supply, hg, houter, he]
  cases hkind : t.kind <;>
    simp only [ExprReader.step, Token.terminal, hkind, TokenKind.terminal, Progress.step]
  case int =>
    have hvalue : (Expr.int t.value t.position).unplaced = (FactorTree.int t.text).tree := by
      rw [Token.value, if_pos hkind]
      rfl
    exact congrArg some (hsupply _ _ hvalue)
  case ident => exact congrArg some (hsupply _ (.ident t.text) rfl)
  case minus =>
    refine congrArg some ?_
    show ExprReader.operand { g.unplaced with minuses := .nowhere :: g.unplaced.minuses }
        (outer.map Group.unplaced) =
      .operand { level.group with minuses := .nowhere :: level.group.minuses }
        (outer'.map Level.group)
    rw [hg, houter]
  case lparen =>
    refine congrArg some ?_
    show ExprReader.operand {} (g.unplaced :: outer.map Group.unplaced) =
      .operand {} (level.group :: outer'.map Level.group)
    rw [hg, houter]
  all_goals rfl

theorem step_agrees_operator {sum : Option Pending} {value : Expr} {outer : List Group}
    {sum' : Option (SumTree × AddOp)} {value' : ProductTree} {outer' : List Level}
    (hsum : sum.map Pending.unplaced = sum'.map SumTree.pending)
    (hvalue : value.unplaced = value'.tree)
    (houter : outer.map Group.unplaced = outer'.map Level.group) (t : Token) :
    ((ExprReader.operator sum value outer).step t).toOption.map ExprReader.unplaced =
      ((Progress.operator sum' value' outer').step t.terminal).map Progress.image := by
  have hclose : (Pending.close sum value).unplaced = (SumTree.close sum' value').tree := by
    rw [Pending.unplaced_close, SumTree.tree_close, hsum, hvalue]
  have hproduct : ∀ op : MulOp,
      (ExprReader.operand { sum, product := some ⟨value, op.operator, t.position⟩ } outer).unplaced =
        (Progress.operand { sum := sum', product := some (value', op) } outer').image := by
    intro op
    show ExprReader.operand
        { sum := sum.map Pending.unplaced, product := some ⟨value.unplaced, op.operator, .nowhere⟩ }
        (outer.map Group.unplaced) = _
    rw [hsum, hvalue, houter]
    rfl
  have hsums : ∀ op : AddOp,
      (ExprReader.operand
          { sum := some ⟨Pending.close sum value, op.operator, t.position⟩ } outer).unplaced =
        (Progress.operand { sum := some (SumTree.close sum' value', op) } outer').image := by
    intro op
    show ExprReader.operand
        { sum := some ⟨(Pending.close sum value).unplaced, op.operator, .nowhere⟩ }
        (outer.map Group.unplaced) = _
    rw [hclose, houter]
    rfl
  cases hkind : t.kind <;>
    simp only [ExprReader.step, Token.terminal, hkind, TokenKind.terminal, Progress.step]
  case star => exact congrArg some (hproduct .mul)
  case slash => exact congrArg some (hproduct .div)
  case plus => exact congrArg some (hsums .add)
  case minus => exact congrArg some (hsums .sub)
  case rparen =>
    -- Both have a parenthesis to close, or neither has.
    cases outer with
    | nil =>
      cases outer' with
      | nil => rfl
      | cons level outer' => cases houter
    | cons g outer =>
      cases outer' with
      | nil => cases houter
      | cons level outer' =>
        obtain ⟨hg, houter⟩ := List.cons.inj houter
        refine congrArg some ?_
        rw [ExprReader.unplaced_supply, Progress.image_supply, hg, houter, hclose]
        rfl
  all_goals rfl

/-- A token is read alike. -/
theorem step_agrees {r : ExprReader} {s : Progress} (h : r.unplaced = s.image) (t : Token) :
    (r.step t).toOption.map ExprReader.unplaced = (s.step t.terminal).map Progress.image := by
  cases r with
  | operand g outer =>
    cases s with
    | operator sum value outer' => cases h
    | operand level outer' =>
      obtain ⟨hg, houter⟩ := ExprReader.operand.inj h
      exact step_agrees_operand hg houter t
  | operator sum value outer =>
    cases s with
    | operand level outer' => cases h
    | operator sum' value' outer' =>
      obtain ⟨hsum, hvalue, houter⟩ := ExprReader.operator.inj h
      exact step_agrees_operator hsum hvalue houter t

/-- Tokens are read alike. -/
theorem run_agrees {r : ExprReader} {s : Progress} (h : r.unplaced = s.image)
    (tokens : List Token) :
    (tokens.foldlM ExprReader.step r).toOption.map ExprReader.unplaced =
      (s.run (tokens.map Token.terminal)).map Progress.image := by
  induction tokens generalizing r s with
  | nil => exact congrArg some h
  | cons t tokens ih =>
    have hstep := step_agrees h t
    rw [List.foldlM_cons, List.map_cons, Progress.run_cons]
    cases hr : r.step t with
    | error e =>
      rw [hr] at hstep
      rw [Option.map_eq_none_iff.1 hstep.symm]
      rfl
    | ok r' =>
      rw [hr] at hstep
      obtain ⟨s', hs, hs'⟩ := Option.map_eq_some_iff.1 hstep.symm
      rw [hs]
      exact ih hs'.symm

/-! ## The expressions that are read -/

/-- Behind a product outside all parentheses, the expression is complete. -/
theorem finish_agrees {r : ExprReader} {sum : Option (SumTree × AddOp)} {value : ProductTree}
    (h : r.unplaced = (Progress.operator sum value []).image) (last : Token) :
    ∃ e, r.finish last = .ok e ∧ e.unplaced = (SumTree.close sum value).tree := by
  cases r with
  | operand g outer => cases h
  | operator sum' value' outer =>
    obtain ⟨hsum, hvalue, houter⟩ := ExprReader.operator.inj h
    rw [List.map_nil, List.map_eq_nil_iff] at houter
    subst houter
    refine ⟨Pending.close sum' value', rfl, ?_⟩
    rw [Pending.unplaced_close, SumTree.tree_close, hsum, hvalue]

/-- What is complete at the end of the text is the expression of a derivation. -/
theorem derivation_of_finish {r : ExprReader} {s : Progress} {last : Token} {e : Expr}
    (h : r.unplaced = s.image) (hfinish : r.finish last = .ok e) :
    ∃ d : SumTree, d.terminals = s.terminals ∧ d.tree = e.unplaced := by
  cases s with
  | operand level outer =>
    cases r with
    | operand g outer' => cases hfinish
    | operator sum value outer' => cases h
  | operator sum value outer =>
    cases outer with
    | cons level outer =>
      -- A parenthesis is still open, so the reader does not finish.
      cases r with
      | operand g outer' => cases hfinish
      | operator sum' value' outer' =>
        cases outer' with
        | nil => cases (ExprReader.operator.inj h).2.2
        | cons g outer' => cases hfinish
    | nil =>
      obtain ⟨e', he', htree⟩ := finish_agrees h last
      rw [hfinish] at he'
      cases he'
      refine ⟨SumTree.close sum value, ?_, htree.symm⟩
      rw [SumTree.terminals_close]
      rfl

/-- A stream of tokens is read to an expression if and only if the grammar derives the tokens, and
the expression is that of the derivation. -/
theorem ExprReader.read_iff_derivation {tokens : List Token} {last : Token} {x : Expr} :
    (∃ e, ExprReader.read ⟨tokens, .ok last⟩ = .ok e ∧ e.unplaced = x) ↔
      ∃ d : SumTree, d.terminals = tokens.map Token.terminal ∧ d.tree = x := by
  have hrun := run_agrees (r := .initial) (s := .initial) rfl tokens
  constructor
  · rintro ⟨e, hread, rfl⟩
    rw [read, bind_eq_ok] at hread
    obtain ⟨r, hfold, hfinish⟩ := hread
    rw [hfold] at hrun
    obtain ⟨s, hs, himage⟩ := Option.map_eq_some_iff.1 hrun.symm
    obtain ⟨d, hterminals, htree⟩ := derivation_of_finish himage.symm hfinish
    refine ⟨d, ?_, htree⟩
    rw [hterminals, Progress.terminals_run hs]
    rfl
  · rintro ⟨d, hterminals, rfl⟩
    rw [← hterminals, Progress.initial, d.run_terminals] at hrun
    obtain ⟨r, hr, himage⟩ := Option.map_eq_some_iff.1 hrun
    have hfold : tokens.foldlM ExprReader.step .initial = .ok r := by
      cases hfold : tokens.foldlM ExprReader.step .initial with
      | error e =>
        rw [hfold] at hr
        cases hr
      | ok r' =>
        rw [hfold] at hr
        cases hr
        rfl
    have hfinish : ∃ e, r.finish last = .ok e ∧ e.unplaced = d.tree := by
      cases d with
      | product p => exact finish_agrees himage last
      | apply left op right => exact finish_agrees himage last
    obtain ⟨e, he, htree⟩ := hfinish
    refine ⟨e, ?_, htree⟩
    rw [read, bind_eq_ok]
    exact ⟨r, hfold, he⟩

/-- A text is read to an expression if and only if it spells tokens that the grammar derives, and the
expression is that of the derivation. -/
theorem Expr.parse_iff_lexes {source : Bytes} {line column : Int} {x : Expr} :
    (∃ e, Expr.parse source line column = .ok e ∧ e.unplaced = x) ↔
      ∃ d : SumTree, Lexes source d.terminals ∧ d.tree = x := by
  rw [Expr.parse_eq_read]
  constructor
  · rintro ⟨e, hread, hx⟩
    have hlexes : ∀ last, (Cursor.start source line column).scan.ending = .ok last →
        Lexes source ((Cursor.start source line column).scan.tokens.map Token.terminal) :=
      fun last hlast => lexes_of_ending (c := .start source line column) rfl hlast
    generalize (Cursor.start source line column).scan = stream at hread hlexes
    obtain ⟨tokens, ending⟩ := stream
    cases ending with
    | error err =>
      rw [ExprReader.read, bind_eq_ok] at hread
      obtain ⟨r, -, hread⟩ := hread
      cases hread
    | ok last =>
      obtain ⟨d, hterminals, htree⟩ := ExprReader.read_iff_derivation.1 ⟨e, hread, hx⟩
      exact ⟨d, hterminals ▸ hlexes last rfl, htree⟩
  · rintro ⟨d, hlexes, hx⟩
    obtain ⟨last, hlast, -, htokens⟩ := (lexes_iff_scan (c := .start source line column) rfl).1 hlexes
    generalize (Cursor.start source line column).scan = stream at hlast htokens
    obtain ⟨tokens, ending⟩ := stream
    cases hlast
    exact ExprReader.read_iff_derivation.2 ⟨d, htokens.symm, hx⟩

/-! ## The tokens of a text by themselves -/

theorem tokenize_eq_ok_iff {source : Bytes} {tokens : List Token} {last : Token} :
    tokenize source = .ok (tokens ++ [last]) ↔
      (Cursor.start source 1 1).scan = ⟨tokens, .ok last⟩ := by
  rw [tokenize, TokenStream.collect]
  generalize (Cursor.start source 1 1).scan = stream
  obtain ⟨tokens', ending⟩ := stream
  cases ending with
  | error e => simp
  | ok last' =>
    simp only [Except.ok.injEq, TokenStream.mk.injEq]
    constructor
    · intro h
      obtain ⟨htokens, hlast⟩ := List.append_inj' h rfl
      exact ⟨htokens, List.singleton_inj.1 hlast⟩
    · rintro ⟨rfl, rfl⟩
      rfl

theorem lexes_iff_tokenize {source : Bytes} {ts : List Terminal} :
    Lexes source ts ↔ ∃ tokens last, tokenize source = .ok (tokens ++ [last]) ∧
      last.kind = .eof ∧ tokens.map Token.terminal = ts := by
  have hscans : Lexes source ts ↔ (Cursor.start source 1 1).Scans ts :=
    lexes_iff_scan (c := .start source 1 1) rfl
  simp only [hscans, tokenize_eq_ok_iff]
  rw [Cursor.Scans]
  generalize (Cursor.start source 1 1).scan = stream
  constructor
  · rintro ⟨last, hlast, heof, htokens⟩
    exact ⟨stream.tokens, last, by rw [← hlast], heof, htokens⟩
  · rintro ⟨tokens, last, rfl, heof, htokens⟩
    exact ⟨last, rfl, heof, htokens⟩

/-- The reader of expressions accepts exactly what the grammar derives: a text is read to an
expression if and only if its tokens before the end are derived, and then, places apart, the
expression is that of the derivation.  No two derivations derive the same tokens. -/
theorem Expr.parse_iff_derivation (source : Bytes) (line column : Int) :
    (∀ x : Expr, (∃ e, Expr.parse source line column = .ok e ∧ e.unplaced = x) ↔
        ∃ tokens last, ∃ d : SumTree, tokenize source = .ok (tokens ++ [last]) ∧
          last.kind = .eof ∧ d.terminals = tokens.map Token.terminal ∧ d.tree = x) ∧
      Function.Injective SumTree.terminals := by
  refine ⟨fun x => ?_, fun d d' h => SumTree.eq_of_terminals_eq h⟩
  rw [Expr.parse_iff_lexes]
  constructor
  · rintro ⟨d, hlexes, htree⟩
    obtain ⟨tokens, last, htokenize, heof, htokens⟩ := lexes_iff_tokenize.1 hlexes
    exact ⟨tokens, last, d, htokenize, heof, htokens.symm, htree⟩
  · rintro ⟨tokens, last, d, htokenize, heof, htokens, htree⟩
    exact ⟨d, lexes_iff_tokenize.2 ⟨tokens, last, htokenize, heof, htokens.symm⟩, htree⟩

end LetPrint

import LetPrint.Proofs.Expr.Parsing
import LetPrint.Proofs.Text.Numerals
import LetPrint.Proofs.Text.Trim
import LetPrint.Proofs.Token.Places

/-!
# Printed expressions are read back

Printing puts every operation in parentheses, so a printed expression is a factor whatever stands
around it.  `Expr.Written` holds of the expressions that a text can spell: those that were read
(`Expr.written_of_parse`), and those that are read back, places apart, from their own print
(`Expr.Written.reads_back`).
-/

namespace LetPrint

open Text

/-! ## Expressions that a text can spell -/

/-- An expression of non-negative integers and names under minuses and the four operators. -/
inductive Expr.Written : Expr → Prop where
  | int {n : Int32} {pos : Position} (h : 0 ≤ n.toInt) : Written (.int n pos)
  | var {name : Bytes} {pos : Position} (h : isName name = true) : Written (.var name pos)
  | neg {operand : Expr} {pos : Position} (h : operand.Written) : Written (.neg operand pos)
  | bin {op : Operator} {left right : Expr} {pos : Position} (hop : op ≠ .unknown)
      (hl : left.Written) (hr : right.Written) : Written (.bin op left right pos)

/-- Places play no part in what can be spelled. -/
theorem Expr.Written.of_unplaced {e : Expr} (h : e.unplaced.Written) : e.Written := by
  induction e with
  | int n pos =>
    cases h with
    | int h => exact .int h
  | var name pos =>
    cases h with
    | var h => exact .var h
  | neg operand pos ih =>
    cases h with
    | neg h => exact .neg (ih h)
  | bin op left right pos ihl ihr =>
    cases h with
    | bin hop hl hr => exact .bin hop (ihl hl) (ihr hr)
  | str text pos => cases h
  | missing => cases h

/-- A terminal that a token of a text can be: its number is a literal, its name is a name. -/
def Terminal.isLexical : Terminal → Bool
  | int digits => isNumeral digits
  | ident name => isName name
  | _ => true

theorem IsLexeme.isLexical {kind : TokenKind} {text rest : Bytes} (h : IsLexeme kind text rest) :
    (kind.terminal text).isLexical = true := by
  cases h with
  | int hdigits hend => exact hdigits
  | ident hname hend => exact hname
  | symbol hb rest =>
    unfold TokenKind.ofByte? at hb
    split at hb <;> cases hb <;> rfl

theorem Lexes.isLexical {text : Bytes} {ts : List Terminal} (h : Lexes text ts) :
    ∀ t ∈ ts, t.isLexical = true := by
  obtain ⟨start, tokens, hreaches, rfl⟩ := h
  intro t ht
  obtain ⟨token, htoken, rfl⟩ := List.mem_map.1 ht
  obtain ⟨front, rest, -, hstands⟩ := hreaches.stands htoken
  exact hstands.lexeme.isLexical

/-- A literal is a number that is not negative. -/
theorem toInt_of_isNumeral {digits : Bytes} (h : isNumeral digits = true) :
    0 ≤ (Int32.ofNat (decimalValue digits)).toInt := by
  rw [toInt_ofNat_of_isNumeral h]
  exact Int.natCast_nonneg _

mutual

theorem FactorTree.written {f : FactorTree} (h : ∀ t ∈ f.terminals, t.isLexical = true) :
    f.tree.Written := by
  cases f with
  | neg operand => exact .neg (FactorTree.written (List.forall_mem_cons.1 h).2)
  | int digits => exact .int (toInt_of_isNumeral (h _ List.mem_cons_self))
  | ident name => exact .var (h (.ident name) List.mem_cons_self)
  | group inner =>
    refine SumTree.written fun t ht => h t ?_
    exact List.mem_cons_of_mem _ (List.mem_append_left _ ht)

theorem ProductTree.written {p : ProductTree} (h : ∀ t ∈ p.terminals, t.isLexical = true) :
    p.tree.Written := by
  cases p with
  | factor f => exact FactorTree.written h
  | apply left op right =>
    rw [ProductTree.terminals, List.forall_mem_append, List.forall_mem_cons] at h
    obtain ⟨hleft, -, hright⟩ := h
    refine .bin ?_ (ProductTree.written hleft) (FactorTree.written hright)
    cases op <;> nofun

theorem SumTree.written {d : SumTree} (h : ∀ t ∈ d.terminals, t.isLexical = true) :
    d.tree.Written := by
  cases d with
  | product p => exact ProductTree.written h
  | apply left op right =>
    rw [SumTree.terminals, List.forall_mem_append, List.forall_mem_cons] at h
    obtain ⟨hleft, -, hright⟩ := h
    refine .bin ?_ (SumTree.written hleft) (ProductTree.written hright)
    cases op <;> nofun

end

theorem Expr.written_of_parse {source : Bytes} {line column : Int} {e : Expr}
    (h : Expr.parse source line column = .ok e) : e.Written := by
  obtain ⟨d, hlexes, htree⟩ := Expr.parse_iff_lexes.1 ⟨e, h, rfl⟩
  have hwritten : d.tree.Written := SumTree.written hlexes.isLexical
  rw [htree] at hwritten
  exact .of_unplaced hwritten

/-! ## The print of an expression -/

/-- Places play no part in the print. -/
theorem Expr.render_unplaced (e : Expr) : e.unplaced.render = e.render := by
  induction e with
  | neg operand pos ih => rw [unplaced, render, render, ih]
  | bin op left right pos ihl ihr => rw [unplaced, render, render, ihl, ihr]
  | int _ _ | var _ _ | str _ _ | missing => rfl

theorem integer_of_nonneg {n : Int32} (h : 0 ≤ n.toInt) :
    ∃ k : Nat, k ≤ maxLiteral ∧ integer n.toInt = decimal k ∧ Int32.ofNat k = n := by
  obtain ⟨k, hk⟩ := Int.eq_ofNat_of_zero_le h
  have hlt := n.toInt_lt
  refine ⟨k, ?_, ?_, ?_⟩
  · rw [hk] at hlt
    simp only [maxLiteral]
    omega
  · rw [hk]
    rfl
  · have hof := n.ofInt_toInt
    rw [hk] at hof
    exact hof

theorem decimal_ne_nil (n : Nat) : decimal n ≠ [] := by
  rw [decimal, Ne, List.map_eq_nil_iff]
  exact Nat.toDigits_ne_nil

theorem isNumeral_decimal {n : Nat} (h : n ≤ maxLiteral) : isNumeral (decimal n) = true := by
  have hempty : (decimal n).isEmpty = false := List.isEmpty_eq_false_iff.2 (decimal_ne_nil n)
  have hdigits : (decimal n).all isDigit = true :=
    List.all_eq_true.2 fun b hb => isDigit_of_mem_decimal hb
  rw [isNumeral, hempty, hdigits, decimalValue_decimal, decide_eq_true h]
  rfl

/-- The text spells the terminals wherever it stands before something that does not go on with a
name or a number. -/
def Spells (text : Bytes) (ts : List Terminal) : Prop :=
  ∀ ⦃rest : Bytes⦄ ⦃us : List Terminal⦄,
    EndsRun isWordByte rest → Lexes rest us → Lexes (text ++ rest) (ts ++ us)

namespace Spells

variable {text left right : Bytes} {ts us : List Terminal}

theorem lexes (h : Spells text ts) : Lexes text ts := by
  have hnil : Lexes (text ++ []) (ts ++ []) := h nofun .nil
  rwa [List.append_nil, List.append_nil] at hnil

theorem int {digits : Bytes} (h : isNumeral digits = true) : Spells digits [.int digits] := by
  intro rest us hend hrest
  refine .token (.int h fun b hb => ?_) hrest
  have hword := hend b hb
  rw [isWordByte, Bool.or_eq_false_iff] at hword
  exact hword.2

theorem ident {name : Bytes} (h : isName name = true) : Spells name [.ident name] :=
  fun _ _ hend hrest => .token (.ident h hend) hrest

theorem minus (h : Spells text ts) : Spells (utf8 "-" ++ text) (.addOp .sub :: ts) := by
  intro rest us hend hrest
  have hb : TokenKind.ofByte? (byte '-') = some .minus := rfl
  exact .token (.symbol hb _) (h hend hrest)

theorem group (h : Spells text ts) :
    Spells (utf8 "(" ++ text ++ utf8 ")") (.lparen :: (ts ++ [.rparen])) := by
  intro rest us _ hrest
  have hopen : TokenKind.ofByte? (byte '(') = some .lparen := rfl
  have hclose : TokenKind.ofByte? (byte ')') = some .rparen := rfl
  have hend : EndsRun isWordByte (utf8 ")" ++ rest) := endsRun_cons rfl _
  simp only [List.append_assoc, List.cons_append, List.nil_append]
  exact .token (.symbol hopen _) (h hend (.token (.symbol hclose _) hrest))

/-- A symbol between spaces stands between two texts. -/
theorem operation {b : UInt8} {kind : TokenKind} (hb : TokenKind.ofByte? b = some kind)
    (hl : Spells left ts) (hr : Spells right us) :
    Spells (left ++ utf8 " " ++ [b] ++ utf8 " " ++ right) (ts ++ kind.terminal [b] :: us) := by
  intro rest vs hend hrest
  -- From right to left: what follows a text has to be lexed before the text is.
  have hright : Lexes (right ++ rest) (us ++ vs) := hr hend hrest
  have hspaced : Lexes (utf8 " " ++ ([b] ++ (utf8 " " ++ (right ++ rest))))
      (kind.terminal [b] :: (us ++ vs)) := .blank rfl (.token (.symbol hb _) (.blank rfl hright))
  have hspace : EndsRun isWordByte (utf8 " " ++ ([b] ++ (utf8 " " ++ (right ++ rest)))) :=
    endsRun_cons rfl _
  simp only [List.append_assoc, List.cons_append]
  exact hl hspace hspaced

end Spells

/-- An operator between two factors is derived as a sum. -/
theorem Operator.derived {op : Operator} (hop : op ≠ .unknown) (left right : FactorTree) :
    ∃ b kind, ∃ d : SumTree, op.symbol = [b] ∧ TokenKind.ofByte? b = some kind ∧
      d.terminals = left.terminals ++ kind.terminal [b] :: right.terminals ∧
      d.tree = .bin op left.tree right.tree .nowhere := by
  cases op with
  | add =>
    exact ⟨byte '+', .plus, .apply (.product (.factor left)) .add (.factor right), rfl, rfl, rfl, rfl⟩
  | sub =>
    exact ⟨byte '-', .minus, .apply (.product (.factor left)) .sub (.factor right), rfl, rfl, rfl, rfl⟩
  | mul =>
    exact ⟨byte '*', .star, .product (.apply (.factor left) .mul right), rfl, rfl, rfl, rfl⟩
  | div =>
    exact ⟨byte '/', .slash, .product (.apply (.factor left) .div right), rfl, rfl, rfl, rfl⟩
  | unknown => exact absurd rfl hop

/-- The print of an expression spells a factor, and the factor is that of the expression. -/
theorem Expr.Written.exists_factor {e : Expr} (h : e.Written) :
    ∃ f : FactorTree, f.tree = e.unplaced ∧ Spells e.render f.terminals := by
  induction h with
  | @int n pos h =>
    obtain ⟨k, hk, hrender, hn⟩ := integer_of_nonneg h
    refine ⟨.int (decimal k), ?_, ?_⟩
    · rw [FactorTree.tree, decimalValue_decimal, hn]
      rfl
    · rw [render, hrender]
      exact .int (isNumeral_decimal hk)
  | @var name pos h => exact ⟨.ident name, rfl, .ident h⟩
  | @neg operand pos h ih =>
    obtain ⟨f, htree, hspells⟩ := ih
    -- The parentheses of the print are a group of the grammar, which leaves no node.
    refine ⟨.group (.product (.factor (.neg f))), ?_, ?_⟩
    · simp only [FactorTree.tree, SumTree.tree, ProductTree.tree, htree, unplaced]
    · exact hspells.minus.group
  | @bin op left right pos hop hl hr ihl ihr =>
    obtain ⟨l, hltree, hlspells⟩ := ihl
    obtain ⟨r, hrtree, hrspells⟩ := ihr
    obtain ⟨b, kind, d, hsymbol, hb, hterminals, htree⟩ := Operator.derived hop l r
    refine ⟨.group d, ?_, ?_⟩
    · simp only [FactorTree.tree, htree, hltree, hrtree, unplaced]
    · have hspells := (Spells.operation hb hlspells hrspells).group
      rw [← hterminals, ← hsymbol] at hspells
      simpa only [render, FactorTree.terminals, List.append_assoc] using hspells

/-- The print of an expression is read back, wherever it stands. -/
theorem Expr.Written.reads_back {e : Expr} (h : e.Written) (line column : Int) :
    ∃ e', Expr.parse e.render line column = .ok e' ∧ e'.unplaced = e.unplaced := by
  obtain ⟨f, htree, hspells⟩ := h.exists_factor
  exact Expr.parse_iff_lexes.2 ⟨.product (.factor f), hspells.lexes, htree⟩

/-! ## The bytes of a print -/

theorem isSolid_of_isWordByte {b : UInt8} (h : isWordByte b = true) : isSolid b = true := by
  rw [isWordByte_iff, isWordStart_iff, isDigit_iff] at h
  rw [isSolid_iff]
  omega

theorem newline_not_mem_of_isSolid {text : Bytes} (h : ∀ b ∈ text, isSolid b = true) :
    newline ∉ text :=
  fun hmem => absurd (h newline hmem) (by decide)

theorem isSolid_of_mem_name {name : Bytes} (h : isName name = true) :
    ∀ b ∈ name, isSolid b = true :=
  fun b hb => isSolid_of_isWordByte (isWordByte_of_isName h b hb)

theorem isSolid_of_mem_decimal {n : Nat} : ∀ b ∈ decimal n, isSolid b = true :=
  fun _ hb => isSolid_of_isWordByte (isWordByte_iff.2 (.inr (isDigit_of_mem_decimal hb)))

theorem Expr.Written.solidEnds {e : Expr} (h : e.Written) : SolidEnds e.render := by
  cases h with
  | int h =>
    obtain ⟨k, -, hrender, -⟩ := integer_of_nonneg h
    rw [render, hrender]
    exact .of_forall (decimal_ne_nil k) isSolid_of_mem_decimal
  | @var name pos h =>
    obtain ⟨b, rest, hname, -⟩ := exists_cons_of_isName h
    refine .of_forall ?_ (isSolid_of_mem_name h)
    rw [hname]
    exact List.cons_ne_nil b rest
  | @neg operand pos h => exact .enclose (by decide) (by decide) (utf8 "-" ++ operand.render)
  | @bin op left right pos hop hl hr =>
    exact .enclose (by decide) (by decide)
      (left.render ++ utf8 " " ++ op.symbol ++ utf8 " " ++ right.render)

theorem Expr.Written.newline_not_mem_render {e : Expr} (h : e.Written) : newline ∉ e.render := by
  induction h with
  | int h =>
    obtain ⟨k, -, hrender, -⟩ := integer_of_nonneg h
    rw [render, hrender]
    exact newline_not_mem_of_isSolid isSolid_of_mem_decimal
  | var h => exact newline_not_mem_of_isSolid (isSolid_of_mem_name h)
  | neg h ih =>
    simp only [render, List.mem_append, not_or]
    exact ⟨⟨by decide, ih⟩, by decide⟩
  | @bin op left right pos hop hl hr ihl ihr =>
    have hsymbol : newline ∉ op.symbol := by cases op <;> decide
    simp only [render, List.mem_append, not_or]
    exact ⟨⟨⟨⟨⟨⟨by decide, ihl⟩, by decide⟩, hsymbol⟩, by decide⟩, ihr⟩, by decide⟩

end LetPrint

import LetPrint.Ir.Text
import LetPrint.Proofs.Ir.Execution
import LetPrint.Proofs.Ir.Typing
import LetPrint.Proofs.Text.Splitting

/-!
# Lowered programs are in single-assignment form

The text of a lowered program assigns every identifier once, and before it is used
(`Program.lower_singleAssignment`).

A result without a name is only numbered when the module is printed, and a name is printed in quotes
where it could be taken for something else.  So distinctness is shown of the printed identifiers:

* `nameText_injective`: different names are printed differently, and a name that is no numeral is not
  printed as one (`nameText_ne_decimal`);
* `WellNamed`: code whose results can be told apart by their identifiers (`WellNamed.index_eq`), and
  whose results without a name are numbered in order (`WellNamed.numberedIdents_eq`);
* `Instruction.Proper`: every operand has a value, so the result that it refers to has an identifier;
* `LowerState.stmt_adds`, `LowerState.walk_adds`: a statement, and so a program, adds proper
  instructions, of which only the cells have names, and a cell's name tells the binding;
* `SingleAssignment`: the form of the block, from these facts and from `Typed`.
-/

namespace LetPrint.Ir

open Text

/-! ## Names as text -/

/-- The text of one byte inside quotes tells the byte and what follows it. -/
theorem escaped_byte_inj {b c : UInt8} {s t : Bytes}
    (h : (if isPlainByte b then [b] else byte '\\' :: hexByte b) ++ s =
      (if isPlainByte c then [c] else byte '\\' :: hexByte c) ++ t) : b = c ∧ s = t := by
  have hslash : ¬isPlainByte (byte '\\') = true := by decide
  by_cases hb : isPlainByte b = true
  · by_cases hc : isPlainByte c = true
    · rw [if_pos hb, if_pos hc] at h
      exact List.cons.inj h
    · rw [if_pos hb, if_neg hc] at h
      rw [(List.cons.inj h).1] at hb
      exact absurd hb hslash
  · by_cases hc : isPlainByte c = true
    · rw [if_neg hb, if_pos hc] at h
      rw [← (List.cons.inj h).1] at hc
      exact absurd hc hslash
    · rw [if_neg hb, if_neg hc] at h
      have hlength : (hexByte b).length = (hexByte c).length := by
        rw [(hexByte_spec b).1, (hexByte_spec c).1]
      obtain ⟨hhex, hrest⟩ := List.append_inj (List.cons.inj h).2 hlength
      exact ⟨hexByte_injective hhex, hrest⟩

theorem escaped_injective {a b : Bytes} (h : escaped a = escaped b) : a = b := by
  have hne : ∀ x rest, escaped (x :: rest) ≠ [] := by
    intro x rest
    rw [escaped, List.flatMap_cons]
    split <;> simp
  induction a generalizing b with
  | nil =>
    cases b with
    | nil => rfl
    | cons y b => exact absurd h.symm (hne y b)
  | cons x a ih =>
    cases b with
    | nil => exact absurd h (hne x a)
    | cons y b =>
      rw [escaped, escaped, List.flatMap_cons, List.flatMap_cons] at h
      obtain ⟨rfl, hrest⟩ := escaped_byte_inj h
      rw [ih hrest]

/-- A name that is printed as it is does not start like a quoted one. -/
theorem ne_quoted_of_all {name other : Bytes} (h : name.all isNameByte = true) :
    name ≠ quoted other := by
  rintro rfl
  have hquote : isNameByte (byte '"') = true := List.all_eq_true.1 h _ List.mem_cons_self
  exact absurd hquote (by decide)

/-- Different names are printed differently. -/
theorem nameText_injective {a b : Bytes} (h : nameText a = nameText b) : a = b := by
  unfold nameText at h
  split at h
  next ha =>
    have hbytes := (Bool.and_eq_true _ _ ▸ ha).1
    split at h
    · exact h
    · exact absurd h (ne_quoted_of_all hbytes)
  next =>
    split at h
    next hb =>
      have hbytes := (Bool.and_eq_true _ _ ▸ hb).1
      exact absurd h.symm (ne_quoted_of_all hbytes)
    next =>
      have hinner := List.append_cancel_right (List.cons.inj h).2
      exact escaped_injective hinner

/-- A name with a byte that is no digit is not printed as a numeral. -/
theorem nameText_ne_decimal {name : Bytes} (h : name.all isDigit = false) (k : Nat) :
    nameText name ≠ decimal k := by
  have hdigits : ∀ b ∈ decimal k, isDigit b = true := fun b hb => isDigit_of_mem_decimal hb
  unfold nameText
  split
  · rintro rfl
    rw [List.all_eq_true.2 hdigits] at h
    cases h
  · intro heq
    rw [← heq] at hdigits
    exact absurd (hdigits (byte '"') List.mem_cons_self) (by decide)

/-! ## Numbers of results -/

/-- Whether a result is numbered: it has a value and no name. -/
def Instruction.isNumbered (i : Instruction) : Bool :=
  i.name.isNone && i.operation.ty != .plain .void

/-- The numbers of the results of some code, from `next` on. -/
def resultNumbers (next : Nat) : List Instruction → List (Option Nat)
  | [] => []
  | i :: rest =>
    if i.isNumbered then some next :: resultNumbers (next + 1) rest
    else none :: resultNumbers next rest

theorem addInstruction_eq (n : Numbering) (i : Instruction) :
    n.addInstruction i =
      { n with
        results := n.results.push (if i.isNumbered then some n.next else none)
        next := if i.isNumbered then n.next + 1 else n.next } := by
  rw [Numbering.addInstruction, ← Instruction.isNumbered]
  cases i.isNumbered with
  | true => rfl
  | false => rfl

theorem results_foldl (code : List Instruction) (n : Numbering) :
    (code.foldl Numbering.addInstruction n).results.toList =
      n.results.toList ++ resultNumbers n.next code := by
  induction code generalizing n with
  | nil => simp [resultNumbers]
  | cons i code ih =>
    rw [List.foldl_cons, ih, addInstruction_eq]
    cases h : i.isNumbered with
    | true => simp [resultNumbers, h]
    | false => simp [resultNumbers, h]

theorem blocks_foldl (code : List Instruction) (n : Numbering) :
    (code.foldl Numbering.addInstruction n).blocks = n.blocks := by
  induction code generalizing n with
  | nil => rfl
  | cons i code ih => rw [List.foldl_cons, ih, addInstruction_eq]

/-- The numbers that are given are consecutive. -/
theorem resultNumbers_filterMap (code : List Instruction) (next : Nat) :
    (resultNumbers next code).filterMap id =
      List.range' next (code.countP Instruction.isNumbered) := by
  induction code generalizing next with
  | nil => rfl
  | cons i code ih =>
    by_cases h : i.isNumbered = true
    · rw [resultNumbers, if_pos h, List.filterMap_cons_some (f := id) (a := some next) rfl, ih,
        List.countP_cons_of_pos h, List.range'_succ]
    · rw [resultNumbers, if_neg h, List.filterMap_cons_none (f := id) (a := none) rfl, ih,
        List.countP_cons_of_neg h]

theorem resultNumbers_isSome {code : List Instruction} {i : Instruction} {index : Nat} (next : Nat)
    (hi : code[index]? = some i) (h : i.isNumbered = true) :
    ∃ k, (resultNumbers next code)[index]? = some (some k) := by
  induction code generalizing index next with
  | nil => simp at hi
  | cons j code ih =>
    cases index with
    | zero =>
      cases hi
      exact ⟨next, by simp [resultNumbers, h]⟩
    | succ index =>
      rw [List.getElem?_cons_succ] at hi
      rw [resultNumbers]
      split
      · exact ih _ hi
      · exact ih _ hi

/-- Where the parts that `f` picks are pairwise different, each is picked at one index. -/
theorem index_eq_of_nodup_filterMap {α β : Type} {f : α → Option β} {l : List α} {j k : Nat} {a b : α}
    {x : β} (h : (l.filterMap f).Nodup) (hj : l[j]? = some a) (hk : l[k]? = some b)
    (ha : f a = some x) (hb : f b = some x) : j = k := by
  obtain ⟨hjlt, rfl⟩ := List.getElem?_eq_some_iff.1 hj
  obtain ⟨hklt, rfl⟩ := List.getElem?_eq_some_iff.1 hk
  have hpairs := List.pairwise_iff_getElem.1 (List.pairwise_filterMap.1 h)
  rcases Nat.lt_trichotomy j k with hlt | heq | hlt
  · exact absurd rfl (hpairs j k hjlt hklt hlt x ha x hb)
  · exact heq
  · exact absurd rfl (hpairs k j hklt hjlt hlt x hb x ha)

theorem zipIdx_pairwise {α : Type} (l : List α) (first : Nat) :
    (l.zipIdx first).Pairwise (fun x y => x.2 < y.2) := by
  rw [List.pairwise_iff_getElem]
  intro j k hj hk hlt
  simp only [List.getElem_zipIdx]
  omega

/-! ## Identifiers of results -/

/-- The identifier that the line of an instruction starts with, if its result is shown. -/
def Instruction.resultIdent? (n : Numbering) (index : Nat) (i : Instruction) : Option Bytes :=
  if i.operation.showsResult then some (localIdent i.name (n.results[index]?.join)) else none

/-- The line of an instruction, without the tab and the newline around it. -/
def Instruction.line (n : Numbering) (index : Nat) (i : Instruction) : Bytes :=
  (i.resultIdent? n index).elim [] (· ++ utf8 " = ") ++ i.operation.text n

/-- The identifiers that are assigned in some code, in order. -/
def resultIdents (n : Numbering) (code : List Instruction) : List Bytes :=
  code.zipIdx.filterMap fun (i, index) => i.resultIdent? n index

/-- The identifiers of the results that have a value and no name, in order. -/
def numberedIdents (n : Numbering) (code : List Instruction) : List Bytes :=
  (code.zipIdx.filter fun (i, _) => i.isNumbered).filterMap fun (i, index) => i.resultIdent? n index

/-- Code whose results can be told apart: those with a value are shown, and the names of the others
are pairwise different and no numerals. -/
structure WellNamed (code : List Instruction) : Prop where
  shown : ∀ i ∈ code, i.operation.showsResult = (i.operation.ty != .plain .void)
  nodup : (code.filterMap (·.name)).Nodup
  notNumeral : ∀ name ∈ code.filterMap (·.name), name.all isDigit = false

section

variable {code : List Instruction} {n : Numbering}

/-- The end of some code from the index `first` on, where the numbers go on with `next`. -/
theorem WellNamed.numberedIdents_from (h : WellNamed code) {rest : List Instruction}
    {first next : Nat} (hrest : rest ⊆ code)
    (hnumbers : ∀ j, n.results[first + j]? = (resultNumbers next rest)[j]?) :
    ((rest.zipIdx first).filter fun (i, _) => i.isNumbered).filterMap
        (fun (i, index) => i.resultIdent? n index) =
      (List.range' next (rest.countP Instruction.isNumbered)).map fun k => byte '%' :: decimal k := by
  induction rest generalizing first next with
  | nil => rfl
  | cons i rest ih =>
    obtain ⟨hi, hrest⟩ := List.cons_subset.1 hrest
    have hfirst := hnumbers 0
    have htail : ∀ j, n.results[first + 1 + j]? = (resultNumbers next (i :: rest)).tail[j]? := by
      intro j
      rw [List.getElem?_tail, Nat.add_assoc, Nat.add_comm 1 j]
      exact hnumbers (j + 1)
    cases hnumbered : i.isNumbered with
    | true =>
      simp only [resultNumbers, hnumbered, if_true, List.getElem?_cons_zero, Nat.add_zero,
        List.tail_cons] at hfirst htail
      obtain ⟨hname, hty⟩ : i.name = none ∧ (i.operation.ty != .plain .void) = true := by
        simpa [Instruction.isNumbered] using hnumbered
      have hshown : i.operation.showsResult = true := by
        rw [h.shown i hi, hty]
      have hident : i.resultIdent? n first = some (byte '%' :: decimal next) := by
        rw [Instruction.resultIdent?, if_pos hshown, hfirst, hname]
        rfl
      simp [hnumbered, hident, ih hrest htail, List.range'_succ]
    | false =>
      simp only [resultNumbers, hnumbered, Bool.false_eq_true, if_false, List.tail_cons] at htail
      simp [hnumbered, ih hrest htail]

/-- Results that have a value and no name are shown with the numbers 0, 1, 2 and so on. -/
theorem WellNamed.numberedIdents_eq (h : WellNamed code)
    (hresults : n.results.toList = resultNumbers 0 code) :
    numberedIdents n code =
      (List.range (code.countP Instruction.isNumbered)).map fun k => byte '%' :: decimal k := by
  have hnumbers : ∀ j, n.results[0 + j]? = (resultNumbers 0 code)[j]? := by
    intro j
    rw [Nat.zero_add, ← hresults, Array.getElem?_toList]
  rw [numberedIdents, h.numberedIdents_from (List.Subset.refl code) hnumbers, List.range_eq_range']

/-- Two results are shown with the same identifier only if they are the same. -/
theorem WellNamed.index_eq (h : WellNamed code) (hresults : n.results.toList = resultNumbers 0 code)
    {j k : Nat} {a b : Instruction} {ident : Bytes} (hj : code[j]? = some a) (hk : code[k]? = some b)
    (ha : a.resultIdent? n j = some ident) (hb : b.resultIdent? n k = some ident) : j = k := by
  have hnumber : ∀ {index : Nat} {i : Instruction}, code[index]? = some i →
      i.resultIdent? n index = some ident → i.name = none →
      ∃ x, (resultNumbers 0 code)[index]? = some (some x) ∧ ident = byte '%' :: decimal x := by
    intro index i hi hident hname
    obtain ⟨hshown, hlocal⟩ := Option.ite_some_none_eq_some.1 hident
    rw [h.shown i (List.mem_of_getElem? hi)] at hshown
    have hnumbered : i.isNumbered = true := by
      rw [Instruction.isNumbered, hname, hshown]
      rfl
    obtain ⟨x, hx⟩ := resultNumbers_isSome 0 hi hnumbered
    refine ⟨x, hx, ?_⟩
    rw [← hlocal, ← Array.getElem?_toList, hresults, hx, hname]
    rfl
  have hname : ∀ {index : Nat} {i : Instruction} {name : Bytes}, code[index]? = some i →
      i.resultIdent? n index = some ident → i.name = some name →
      name.all isDigit = false ∧ ident = byte '%' :: nameText name := by
    intro index i name hi hident hname
    obtain ⟨-, hlocal⟩ := Option.ite_some_none_eq_some.1 hident
    refine ⟨h.notNumeral name (List.mem_filterMap.2 ⟨i, List.mem_of_getElem? hi, hname⟩), ?_⟩
    rw [← hlocal, hname]
    rfl
  cases hna : a.name with
  | none =>
    obtain ⟨x, hx, hidentx⟩ := hnumber hj ha hna
    cases hnb : b.name with
    | none =>
      obtain ⟨y, hy, hidenty⟩ := hnumber hk hb hnb
      have hxy : x = y := decimal_injective (List.cons.inj (hidentx.symm.trans hidenty)).2
      have hnodup : ((resultNumbers 0 code).filterMap id).Nodup := by
        rw [resultNumbers_filterMap]
        exact List.nodup_range' ..
      exact index_eq_of_nodup_filterMap hnodup hx hy rfl (congrArg some hxy.symm)
    | some name =>
      obtain ⟨hdigits, hidenty⟩ := hname hk hb hnb
      exact absurd (List.cons.inj (hidenty.symm.trans hidentx)).2 (nameText_ne_decimal hdigits x)
  | some name =>
    obtain ⟨hdigits, hidentx⟩ := hname hj ha hna
    cases hnb : b.name with
    | none =>
      obtain ⟨y, -, hidenty⟩ := hnumber hk hb hnb
      exact absurd (List.cons.inj (hidentx.symm.trans hidenty)).2 (nameText_ne_decimal hdigits y)
    | some other =>
      obtain ⟨-, hidenty⟩ := hname hk hb hnb
      have hsame : name = other :=
        nameText_injective (List.cons.inj (hidentx.symm.trans hidenty)).2
      exact index_eq_of_nodup_filterMap h.nodup hj hk hna (hsame ▸ hnb)

/-- No identifier is assigned twice. -/
theorem WellNamed.resultIdents_nodup (h : WellNamed code)
    (hresults : n.results.toList = resultNumbers 0 code) : (resultIdents n code).Nodup := by
  refine List.pairwise_filterMap.2 ((zipIdx_pairwise code 0).imp_of_mem ?_)
  rintro ⟨a, j⟩ ⟨b, k⟩ hj hk hlt ident ha other hb rfl
  have heq := h.index_eq hresults (List.mem_zipIdx_iff_getElem?.1 hj)
    (List.mem_zipIdx_iff_getElem?.1 hk) ha hb
  exact absurd heq (Nat.ne_of_lt hlt)

end

/-! ## Operands with a value -/

/-- No operand of the operation is `void`, nothing `void` is loaded, and more is known of the operation
than its text. -/
structure Operation.NonVoid (op : Operation) : Prop where
  operands : ∀ o ∈ op.operands, o.ty ≠ .plain .void
  loaded : ∀ ty source, op = .load ty source → ty ≠ .void
  known : ∀ ty text operands, op ≠ .other ty text operands

/-- Then a result is shown just if it has a value. -/
theorem Operation.NonVoid.showsResult_eq {op : Operation} (h : op.NonVoid) :
    op.showsResult = (op.ty != .plain .void) := by
  obtain ⟨hoperands, hloaded, hknown⟩ := h
  cases op with
  | load ty source => simp [showsResult, Operation.ty, hloaded ty source rfl]
  | arith op x y => simp [showsResult, Operation.ty, hoperands x List.mem_cons_self]
  | select condition x y =>
    have hx := hoperands x (List.mem_cons_of_mem condition List.mem_cons_self)
    simp [showsResult, Operation.ty, hx]
  | other ty text operands => exact absurd rfl (hknown ty text operands)
  | _ => rfl

/-- Instructions without names that have values for operands. -/
def NonVoidCode (code : List Instruction) : Prop :=
  ∀ i ∈ code, i.name = none ∧ i.operation.NonVoid

theorem NonVoidCode.append {code more : List Instruction} (h : NonVoidCode code)
    (hmore : NonVoidCode more) : NonVoidCode (code ++ more) := by
  intro i hi
  rcases List.mem_append.1 hi with hi | hi
  · exact h i hi
  · exact hmore i hi

theorem nonVoidCode_nil : NonVoidCode [] := by
  intro i hi
  cases hi

theorem nonVoidCode_single {op : Operation} (h : op.NonVoid) : NonVoidCode [unnamed op] := by
  intro i hi
  rw [List.mem_singleton.1 hi]
  exact ⟨rfl, h⟩

theorem nonVoid_arith (op : Arith) {x y : Operand} (hx : x.ty = .plain .i32)
    (hy : y.ty = .plain .i32) : (Operation.arith op x y).NonVoid where
  operands := by simp [Operation.operands, hx, hy, Ty.i32]
  loaded := by simp
  known := by simp

theorem divideCode_nonVoid (next : Nat) {a b : Operand} (ha : a.ty = .plain .i32)
    (hb : b.ty = .plain .i32) : NonVoidCode (divideCode next a b).1 := by
  have hnames : ∀ i ∈ (divideCode next a b).1, i.name = none := by
    simp [divideCode, unnamed]
  have hword : ∀ n, (word n).ty = .plain .i32 := fun _ => rfl
  have hresult : ∀ k ty, (result k ty).ty = .plain ty := fun _ _ => rfl
  have hoperands : ∀ i ∈ (divideCode next a b).1, ∀ o ∈ i.operation.operands,
      o.ty ≠ .plain .void := by
    simp [divideCode, unnamed, Operation.icmpEq, Operation.operands, ha, hb, hword, hresult, Ty.i1,
      Ty.i32]
  have hloads : ∀ i ∈ (divideCode next a b).1, ∀ ty source,
      i.operation = .load ty source → ty ≠ .void := by
    simp [divideCode, unnamed, Operation.icmpEq]
  have hknown : ∀ i ∈ (divideCode next a b).1, ∀ ty text operands,
      i.operation ≠ .other ty text operands := by
    simp [divideCode, unnamed, Operation.icmpEq]
  intro i hi
  exact ⟨hnames i hi, hoperands i hi, hloads i hi, hknown i hi⟩

theorem operatorCode_nonVoid {next : Nat} {op : Operator} {a b v : Operand}
    {fragment : List Instruction} (ha : a.ty = .plain .i32) (hb : b.ty = .plain .i32)
    (h : operatorCode next op a b = .ok (fragment, v)) :
    NonVoidCode fragment ∧ v.ty = .plain .i32 := by
  cases op with
  | add =>
    cases h
    exact ⟨nonVoidCode_single (nonVoid_arith .add ha hb), rfl⟩
  | sub =>
    cases h
    exact ⟨nonVoidCode_single (nonVoid_arith .sub ha hb), rfl⟩
  | mul =>
    cases h
    exact ⟨nonVoidCode_single (nonVoid_arith .mul ha hb), rfl⟩
  | div =>
    cases h
    exact ⟨divideCode_nonVoid next ha hb, rfl⟩
  | unknown => cases h

theorem nonVoid_load {ty : Ty} {c : Cell} (h : ty ≠ .void) :
    (Operation.load ty c.address).NonVoid where
  operands := by simp [Operation.operands, Cell.address, Operand.ty]
  loaded := by
    rintro ty source ⟨⟩
    exact h
  known := by simp

/-- The code of an expression has values for operands, and its value is a word. -/
theorem exprCode_nonVoid {scope : Scope Cell} {next : Nat} {e : Expr} {fragment : List Instruction}
    {v : Operand} (h : exprCode scope next e = .ok (fragment, v)) :
    NonVoidCode fragment ∧ v.ty = .plain .i32 := by
  induction e generalizing next fragment v with
  | int n pos =>
    cases h
    exact ⟨nonVoidCode_nil, rfl⟩
  | var name pos =>
    rw [exprCode, bind_eq_ok] at h
    obtain ⟨cell, -, heq⟩ := h
    cases heq
    exact ⟨nonVoidCode_single (nonVoid_load (by decide)), rfl⟩
  | str text pos => cases h
  | neg operand pos ih =>
    rw [exprCode, bind_eq_ok] at h
    obtain ⟨⟨before, x⟩, hoperand, heq⟩ := h
    cases heq
    obtain ⟨hbefore, hx⟩ := ih hoperand
    exact ⟨hbefore.append (nonVoidCode_single (nonVoid_arith .sub rfl hx)), rfl⟩
  | bin op left right pos ihl ihr =>
    rw [exprCode, bind_eq_ok] at h
    obtain ⟨⟨leftCode, a⟩, hleft, h⟩ := h
    rw [bind_eq_ok] at h
    obtain ⟨⟨rightCode, b⟩, hright, h⟩ := h
    rw [bind_eq_ok] at h
    obtain ⟨⟨opCode, v⟩, hop, heq⟩ := h
    cases heq
    obtain ⟨hl, ha⟩ := ihl hleft
    obtain ⟨hr, hb⟩ := ihr hright
    obtain ⟨ho, hv⟩ := operatorCode_nonVoid ha hb hop
    exact ⟨(hl.append hr).append ho, hv⟩
  | missing => cases h

theorem nonVoid_firstByte (c : Global) : c.firstByte.NonVoid where
  operands := by simp [Global.firstByte, Operation.operands, Operand.ty]
  loaded := by simp [Global.firstByte]
  known := by simp [Global.firstByte]

/-! ## Statements -/

/-- What holds of every instruction that a program is lowered to: its operands have values, and only
a cell has a name. -/
structure Instruction.Proper (i : Instruction) : Prop where
  nonVoid : i.operation.NonVoid
  alloca : ∀ name, i.name = some name → ∃ ty, i.operation = .alloca ty

theorem NonVoidCode.proper {code : List Instruction} (h : NonVoidCode code) :
    ∀ i ∈ code, i.Proper := by
  intro i hi
  obtain ⟨hname, hop⟩ := h i hi
  refine ⟨hop, ?_⟩
  rw [hname]
  exact nofun

theorem NonVoidCode.names_eq {code : List Instruction} (h : NonVoidCode code) :
    code.filterMap (·.name) = [] :=
  List.filterMap_eq_nil_iff.2 fun i hi => (h i hi).1

/-- The name that a statement binds. -/
def boundName? : Stmt → Option Bytes
  | .bind name _ _ => some name
  | _ => none

/-- The names of the cells of a program, from the binding with number `first` on. -/
def cellNames (first : Nat) (p : Program) : List Bytes :=
  ((p.filterMap boundName?).zipIdx first).map fun (name, k) => name ++ utf8 "." ++ decimal k

theorem cellNames_cons (first : Nat) (s : Stmt) (p : Program) :
    cellNames first (s :: p) =
      cellNames first [s] ++ cellNames (first + (boundName? s).toList.length) p := by
  cases s <;> rfl

theorem cellNames_nodup (first : Nat) (p : Program) : (cellNames first p).Nodup := by
  refine List.pairwise_map.2 ((zipIdx_pairwise _ first).imp ?_)
  rintro ⟨name, j⟩ ⟨other, k⟩ hlt heq
  exact absurd (number_eq_of_name_eq heq) (Nat.ne_of_lt hlt)

/-- The name of a cell has a point in it. -/
theorem point_mem_of_mem_cellNames {first : Nat} {p : Program} {name : Bytes}
    (h : name ∈ cellNames first p) : byte '.' ∈ name := by
  obtain ⟨⟨stem, k⟩, -, rfl⟩ := List.mem_map.1 h
  exact List.mem_append_left _ (List.mem_append_right _ List.mem_cons_self)

namespace LowerState

variable {g g' : LowerState}

theorem valueCode_nonVoid {e : Expr} {fragment : List Instruction} {v : Operand}
    {constant : Option Global} (h : g.valueCode e = .ok ((fragment, v), constant)) :
    NonVoidCode fragment ∧ v.ty ≠ .plain .void := by
  cases hkind : e.kind with
  | int =>
    rw [valueCode_int hkind, map_eq_ok] at h
    obtain ⟨_, hcode, heq⟩ := h
    cases heq
    obtain ⟨hfragment, hv⟩ := exprCode_nonVoid hcode
    rw [hv]
    exact ⟨hfragment, nofun⟩
  | str =>
    cases e with
    | str text pos =>
      cases h
      exact ⟨nonVoidCode_single (nonVoid_firstByte _), nofun⟩
    | _ => cases hkind

/-- What a statement adds to the code: proper instructions, of which only the cell of a `let` has a
name. -/
theorem stmt_adds {s : Stmt} (h : g.stmt s = .ok g') :
    ∃ more, g'.code = g.code ++ more ∧ (∀ i ∈ more, i.Proper) ∧
      more.filterMap (·.name) = cellNames g.bindings [s] ∧
      g'.bindings = g.bindings + (boundName? s).toList.length := by
  cases s with
  | bind name e line =>
    obtain ⟨-, fragment, v, constant, hvalue, rfl⟩ := stmt_bind_ok h
    obtain ⟨hfragment, hv⟩ := valueCode_nonVoid hvalue
    refine ⟨_, rfl, ?_, ?_, rfl⟩
    · have haddress : (g.nextCell name e.kind).address.ty ≠ .plain .void := by
        intro heq
        cases heq
      have hstore : (Operation.store v (g.nextCell name e.kind).address).NonVoid :=
        ⟨by simp [Operation.operands, hv, haddress], by simp, by simp⟩
      have halloca : (Operation.alloca (cellTy e.kind)).NonVoid :=
        ⟨by simp [Operation.operands], by simp, by simp⟩
      have hkeep := (nonVoidCode_single hstore).proper
      rw [List.forall_mem_append, List.forall_mem_cons]
      exact ⟨hfragment.proper, ⟨halloca, fun _ _ => ⟨_, rfl⟩⟩, hkeep⟩
    · rw [List.filterMap_append, hfragment.names_eq]
      rfl
  | print name line =>
    obtain ⟨cell, -, rfl⟩ := stmt_print_ok h
    have hty : cellTy cell.kind ≠ .void := by cases cell.kind <;> decide
    have hformat : (formatOf cell.kind).ty ≠ .plain .void := by cases cell.kind <;> decide
    have hloaded : (result g.code.length (cellTy cell.kind)).ty ≠ .plain .void :=
      fun h => hty (ValueTy.plain.inj h)
    have hprintf : printf.ty ≠ .plain .void := by decide
    have hcall : (Operation.call printf
        [formatOf cell.kind, result g.code.length (cellTy cell.kind)]).NonVoid :=
      ⟨by simp [Operation.operands, hprintf, hformat, hloaded], by simp, by simp⟩
    have hprint := (nonVoidCode_single (nonVoid_load (c := cell) hty)).append
      (nonVoidCode_single hcall)
    exact ⟨_, rfl, hprint.proper, hprint.names_eq, rfl⟩
  | foreign typeName line => cases h

theorem walk_adds {p : Program} {index : Nat} (h : walk stmt index g p = (g', none)) :
    ∃ more, g'.code = g.code ++ more ∧ (∀ i ∈ more, i.Proper) ∧
      more.filterMap (·.name) = cellNames g.bindings p := by
  induction p generalizing g index with
  | nil =>
    cases h
    exact ⟨[], (List.append_nil _).symm, nonVoidCode_nil.proper, rfl⟩
  | cons s p ih =>
    obtain ⟨g₁, hstep, hrest⟩ := walk_cons_eq_none h
    obtain ⟨new, hcode₁, hnew, hnames₁, hbindings⟩ := stmt_adds hstep
    obtain ⟨more, hcode, hmore, hnames⟩ := ih hrest
    refine ⟨new ++ more, ?_, List.forall_mem_append.2 ⟨hnew, hmore⟩, ?_⟩
    · rw [hcode, hcode₁, List.append_assoc]
    · rw [List.filterMap_append, hnames₁, hnames, hbindings, ← cellNames_cons]

/-- The instructions of a program are proper, and its cells are named after the variables and the
bindings before them. -/
theorem code_of_walk {p : Program} (h : walk stmt 0 .initial p = (g, none)) :
    (∀ i ∈ g.code, i.Proper) ∧ g.code.filterMap (·.name) = cellNames 0 p := by
  have hinitial : NonVoidCode initial.code :=
    (nonVoidCode_single (nonVoid_firstByte wordFormat)).append
      (nonVoidCode_single (nonVoid_firstByte textFormat))
  obtain ⟨more, hcode, hmore, hnames⟩ := walk_adds h
  rw [hcode, List.forall_mem_append, List.filterMap_append, hinitial.names_eq]
  exact ⟨⟨hinitial.proper, hmore⟩, hnames⟩

end LowerState

/-! ## The form of a block -/

/-- Whether an operand is local to its function: a result, a parameter, or anything else that is written
as such. -/
def Operand.isLocal : Operand → Bool
  | .register _ _ | .param _ _ => true
  | .other _ ident => ident.head? == some (byte '%')
  | _ => false

/-- The names of a module's constants and functions. -/
def Module.symbols (m : Module) : List Bytes :=
  m.globals.map (·.name) ++ m.functions.map (·.name)

theorem Module.mem_symbols_of_lists {m : Module} {f : FunctionRef} (h : m.lists f = true) :
    f.name ∈ m.symbols := by
  rw [Module.lists] at h
  cases hfind : m.functions[f.index]? with
  | none =>
    rw [hfind] at h
    cases h
  | some listed =>
    rw [hfind, Option.any_some, Bool.and_eq_true, beq_iff_eq] at h
    rw [← h.1]
    exact List.mem_append_right _ (List.mem_map_of_mem (List.mem_of_getElem? hfind))

/-- The numbers under which a function of the module is printed. -/
def Module.numbering (m : Module) (f : Function) : Numbering :=
  Numbering.ofFunction (functionNumbers 0 m.functions) f

/-- Single-assignment form of a block that is the whole body of its function, under the numbers that
it is printed with. -/
structure SingleAssignment (m : Module) (n : Numbering) (b : Block) : Prop where
  /-- Results that have a value and no name are shown as `%0`, `%1`, `%2` and so on, in order. -/
  numbered : numberedIdents n b.instructions =
    (List.range (b.instructions.countP Instruction.isNumbered)).map fun k => byte '%' :: decimal k
  /-- No identifier is assigned twice, and none is that of the block. -/
  assignedOnce : (localIdent b.name none :: resultIdents n b.instructions).Nodup
  /-- A local operand is the result of an instruction before, and is shown as that result is. -/
  assignedBefore : ∀ (index : Nat) (i : Instruction), b.instructions[index]? = some i →
    ∀ o ∈ i.operation.operands, o.isLocal = true →
      ∃ j < index, ∃ d : Instruction, b.instructions[j]? = some d ∧
        o = .register (d.register j) d.operation.ty ∧ d.resultIdent? n j = some (o.ident n)
  /-- No two constants or functions of the module share a name. -/
  symbolsOnce : m.symbols.Nodup
  /-- A constant that is referred to is one of the module's, with its size. -/
  constantDefined : ∀ i ∈ b.instructions, ∀ name size,
    .global name size ∈ i.operation.operands →
      m.symbols.count name = 1 ∧ ∃ g ∈ m.globals, g.name = name ∧ g.content.length = size
  /-- A function that is referred to is one of the module's, with its type. -/
  functionDefined : ∀ i ∈ b.instructions, ∀ f, .function f ∈ i.operation.operands →
    m.symbols.count f.name = 1 ∧ m.lists f = true
  /-- No instruction and no operand is known by its text only, so nothing else is referred to. -/
  known : ∀ i ∈ b.instructions, (∀ ty text operands, i.operation ≠ .other ty text operands) ∧
    ∀ ty ident, .other ty ident ∉ i.operation.operands

/-- In typed code, what an instruction refers to stands before it. -/
theorem Typed.sound_at {m : Module} {code : List Instruction} (h : Typed m code) {index : Nat}
    {i : Instruction} (hi : code[index]? = some i) :
    ∀ o ∈ i.operation.operands, o.IsSound m (code.take index) := by
  induction h with
  | nil => cases hi
  | @snoc code last _ hlast ih =>
    rcases Nat.lt_or_ge index code.length with hlt | hge
    · rw [List.getElem?_append_left hlt] at hi
      rw [List.take_append_of_le_length (Nat.le_of_lt hlt)]
      exact ih hi
    · obtain ⟨hbound, -⟩ := List.getElem?_eq_some_iff.1 hi
      rw [List.length_append, List.length_singleton] at hbound
      obtain rfl : index = code.length := by omega
      rw [List.getElem?_concat_length] at hi
      cases hi
      rw [List.take_left]
      exact hlast.sound

/-- A local operand of typed code is the result of an instruction before. -/
theorem Typed.earlier {m : Module} {code : List Instruction} (h : Typed m code) {index : Nat}
    {i : Instruction} (hi : code[index]? = some i) {o : Operand} (ho : o ∈ i.operation.operands)
    (hlocal : o.isLocal = true) :
    ∃ j < index, ∃ d : Instruction, code[j]? = some d ∧
      o = .register (d.register j) d.operation.ty := by
  have hsound := h.sound_at hi o ho
  cases o with
  | register r ty =>
    cases r with
    | named name =>
      obtain ⟨d, hd, hname, rfl⟩ := hsound
      obtain ⟨j, hj⟩ := List.getElem?_of_mem hd
      rw [List.getElem?_take] at hj
      split at hj
      next hlt => exact ⟨j, hlt, d, hj, by rw [Instruction.register, hname]; rfl⟩
      next => cases hj
    | unnamed j =>
      obtain ⟨d, hj, hname, rfl⟩ := hsound
      rw [List.getElem?_take] at hj
      split at hj
      next hlt => exact ⟨j, hlt, d, hj, by rw [Instruction.register, hname]; rfl⟩
      next => cases hj
  | param => exact absurd hsound (by exact id)
  | other => exact absurd hsound (by exact id)
  | _ => cases hlocal

/-- A result is referred to by the identifier that its line starts with. -/
theorem resultIdent?_eq_ident {n : Numbering} {d : Instruction} {j : Nat} {ty : ValueTy}
    (h : d.operation.showsResult = true) :
    d.resultIdent? n j = some ((Operand.register (d.register j) ty).ident n) := by
  rw [Instruction.resultIdent?, if_pos h, Instruction.register]
  cases d.name with
  | none => rfl
  | some name => rfl

/-- The lines of some code. -/
def codeText (n : Numbering) (code : List Instruction) : Bytes :=
  code.zipIdx.flatMap fun (i, index) => utf8 "\t" ++ i.line n index ++ utf8 "\n"

theorem Instruction.text_eq_line (n : Numbering) (index : Nat) (i : Instruction) :
    i.text n (n.results[index]?.join) = i.line n index := by
  rw [Instruction.text, Instruction.line, Instruction.resultIdent?]
  split
  · rfl
  · rfl

theorem Block.text_eq (n : Numbering) {name : Bytes} {code : List Instruction} {value : Operand} :
    Block.text n none 0 { name := some name, instructions := code, terminator := some (.ret value) } =
      nameText name ++ utf8 ":\n" ++ codeText n code ++
        (utf8 "\tret " ++ value.text n ++ utf8 "\n") := by
  simp only [codeText, ← Instruction.text_eq_line]
  rfl

namespace LowerState

variable (g : LowerState) (triple : Bytes)

/-- The one block of a finished module. -/
def body : Block :=
  { name := some (utf8 "entry"), instructions := g.code, terminator := some (.ret (word 0)) }

/-- The function `main` of a finished module. -/
def main : Function :=
  { name := entryName, ret := .i32, blocks := [g.body] }

theorem results_main :
    ((g.finish triple).numbering g.main).results.toList = resultNumbers 0 g.code := by
  exact results_foldl g.code _

theorem text_main (functions : List (Option Nat)) :
    g.main.text functions none =
      utf8 "define i32 @main() \x7b\nentry:\n" ++
        codeText (Numbering.ofFunction functions g.main) g.code ++ utf8 "\tret i32 0\n\x7d\n" := by
  have hblocks : (Numbering.ofFunction functions g.main).blocks = [none] := blocks_foldl g.code _
  have htext : g.main.text functions none =
      utf8 "define i32 @main() \x7b\n" ++
        joinWith (utf8 "\n") (blocksText (Numbering.ofFunction functions g.main) 0
          ([g.body].zip (Numbering.ofFunction functions g.main).blocks)) ++ utf8 "\x7d\n" := rfl
  have hbody : joinWith (utf8 "\n") (blocksText (Numbering.ofFunction functions g.main) 0
      ([g.body].zip [none])) = g.body.text (Numbering.ofFunction functions g.main) none 0 := rfl
  have hstart : utf8 "define i32 @main() \x7b\nentry:\n" =
      utf8 "define i32 @main() \x7b\n" ++ (nameText (utf8 "entry") ++ utf8 ":\n") := by decide
  have hend : utf8 "\tret i32 0\n\x7d\n" =
      utf8 "\tret " ++ (word 0).text (Numbering.ofFunction functions g.main) ++ utf8 "\n" ++
        utf8 "\x7d\n" := rfl
  rw [htext, hblocks, hbody, body, Block.text_eq, hstart, hend]
  simp only [List.append_assoc]

/-- The text of a finished module ends with that of `main`, line by line. -/
theorem text_finish :
    ∃ before, (g.finish triple).text =
      before ++ (utf8 "define i32 @main() \x7b\nentry:\n" ++
        codeText ((g.finish triple).numbering g.main) g.code ++ utf8 "\tret i32 0\n\x7d\n") := by
  have htext : ∃ header, (g.finish triple).text =
      joinWith (utf8 "\n") (([header, g.globals.flatMap Global.text] ++
        [printfFunction.text [none, none] none ++ utf8 "\n" ++ g.main.text [none, none] none]).filter
          (!·.isEmpty)) := ⟨_, rfl⟩
  obtain ⟨header, htext⟩ := htext
  have hfunctions : [printfFunction.text [none, none] none ++ utf8 "\n" ++
      g.main.text [none, none] none].filter (!·.isEmpty) =
        [printfFunction.text [none, none] none ++ utf8 "\n" ++ g.main.text [none, none] none] := rfl
  rw [htext, List.filter_append, hfunctions]
  obtain ⟨before, hbefore⟩ := joinWith_concat (utf8 "\n")
    (printfFunction.text [none, none] none ++ utf8 "\n" ++ g.main.text [none, none] none)
    ([header, g.globals.flatMap Global.text].filter (!·.isEmpty))
  refine ⟨before ++ (printfFunction.text [none, none] none ++ utf8 "\n"), ?_⟩
  rw [hbefore, text_main, ← List.append_assoc]
  rfl

/-- The constants of a program start with a point, unlike the two functions. -/
theorem symbols_nodup {p : Program} (h : walk stmt 0 .initial p = (g, none)) :
    (g.finish triple).symbols.Nodup := by
  have hglobals : (g.finish triple).globals.map (·.name) = constantNames g.literals :=
    walk_globals_names h rfl
  have hpoint : ∀ name ∈ constantNames g.literals, name.head? = some (byte '.') := by
    intro name hname
    rcases List.mem_append.1 hname with hformat | hliteral
    · simp only [List.mem_cons, List.not_mem_nil, or_false] at hformat
      rcases hformat with rfl | rfl
      · rfl
      · rfl
    · obtain ⟨k, -, rfl⟩ := List.mem_map.1 hliteral
      rfl
  have hfunctions : (g.finish triple).functions.map (·.name) = [utf8 "printf", utf8 "main"] := rfl
  rw [Module.symbols, hglobals, hfunctions, List.nodup_append]
  refine ⟨constantNames_nodup g.literals, by decide, ?_⟩
  rintro name hname other hother rfl
  have hhead := hpoint name hname
  simp only [List.mem_cons, List.not_mem_nil, or_false] at hother
  rcases hother with rfl | rfl
  · exact absurd hhead (by decide)
  · exact absurd hhead (by decide)

/-- The code of a program shows what has a value, under names that are no numerals. -/
theorem wellNamed_of_walk {p : Program} (h : walk stmt 0 .initial p = (g, none)) :
    WellNamed g.code := by
  obtain ⟨hproper, hcells⟩ := code_of_walk h
  refine ⟨fun i hi => (hproper i hi).nonVoid.showsResult_eq, ?_, ?_⟩
  · rw [hcells]
    exact cellNames_nodup 0 p
  · rw [hcells]
    intro name hname
    exact List.all_eq_false.2 ⟨byte '.', point_mem_of_mem_cellNames hname, by decide⟩

/-- No result is shown with the identifier of the block. -/
theorem entry_not_mem_resultIdents {p : Program} (n : Numbering)
    (h : walk stmt 0 .initial p = (g, none)) :
    localIdent g.body.name none ∉ resultIdents n g.code := by
  intro hmem
  obtain ⟨⟨i, index⟩, hi, hident⟩ := List.mem_filterMap.1 hmem
  have hlocal := (Option.ite_some_none_eq_some.1 hident).2
  cases hname : i.name with
  | none =>
    rw [hname] at hlocal
    have htext : nameText (utf8 "entry") = decimal _ := (List.cons.inj hlocal).2.symm
    exact absurd htext (nameText_ne_decimal (by decide) _)
  | some name =>
    rw [hname] at hlocal
    have hentry : name = utf8 "entry" := nameText_injective (List.cons.inj hlocal).2
    have hcell : name ∈ cellNames 0 p := by
      rw [← (code_of_walk h).2]
      exact List.mem_filterMap.2 ⟨i, List.fst_mem_of_mem_zipIdx hi, hname⟩
    have hpoint := point_mem_of_mem_cellNames hcell
    rw [hentry] at hpoint
    exact absurd hpoint (by decide)

/-- The block of a finished module is in single-assignment form. -/
theorem singleAssignment_finish {p : Program} (h : walk stmt 0 .initial p = (g, none)) :
    SingleAssignment (g.finish triple) ((g.finish triple).numbering g.main) g.body := by
  have htyped : Ir.Typed (g.finish triple) g.code := typed_of_walk h
  have hnamed : WellNamed g.code := wellNamed_of_walk g h
  have hresults := g.results_main triple
  have hsymbols := symbols_nodup g triple h
  have hsound : ∀ i ∈ g.code, ∀ o ∈ i.operation.operands, ∃ code,
      o.IsSound (g.finish triple) code := by
    intro i hi o ho
    obtain ⟨index, hindex⟩ := List.getElem?_of_mem hi
    exact ⟨_, htyped.sound_at hindex o ho⟩
  constructor
  case numbered => exact hnamed.numberedIdents_eq hresults
  case assignedOnce =>
    exact List.nodup_cons.2
      ⟨entry_not_mem_resultIdents g _ h, hnamed.resultIdents_nodup hresults⟩
  case assignedBefore =>
    intro index i hi o ho hlocal
    obtain ⟨j, hlt, d, hd, rfl⟩ := htyped.earlier hi ho hlocal
    have hvalue : d.operation.ty ≠ .plain .void :=
      ((code_of_walk h).1 i (List.mem_of_getElem? hi)).nonVoid.operands _ ho
    have hshown : d.operation.showsResult = true := by
      rw [hnamed.shown d (List.mem_of_getElem? hd)]
      exact bne_iff_ne.2 hvalue
    exact ⟨j, hlt, d, hd, rfl, resultIdent?_eq_ident hshown⟩
  case symbolsOnce => exact hsymbols
  case constantDefined =>
    intro i hi name size ho
    obtain ⟨_, c, hc, rfl, rfl⟩ := hsound i hi _ ho
    have hmem : c.name ∈ (g.finish triple).symbols :=
      List.mem_append_left _ (List.mem_map_of_mem hc)
    exact ⟨by rw [hsymbols.count, if_pos hmem], c, hc, rfl, rfl⟩
  case functionDefined =>
    intro i hi f ho
    obtain ⟨_, hlists⟩ := hsound i hi _ ho
    have hmem : f.name ∈ (g.finish triple).symbols := Module.mem_symbols_of_lists hlists
    exact ⟨by rw [hsymbols.count, if_pos hmem], hlists⟩
  case known =>
    intro i hi
    refine ⟨((code_of_walk h).1 i hi).nonVoid.known, fun ty ident ho => ?_⟩
    obtain ⟨_, hfalse⟩ := hsound i hi _ ho
    exact hfalse

end LowerState

end LetPrint.Ir

namespace LetPrint

open Text Ir

/-- The text of a lowered program ends with a `main` of one block in single-assignment form.  Its lines
are those of the block's instructions, each with the identifier that it assigns in front, and its named
results are the cells of the bindings: the variable, a point and the number of bindings before. -/
theorem Program.lower_singleAssignment {p : Program} {triple : Bytes} {m : Module}
    (h : p.lower triple = .ok m) :
    ∃ main b, m.functions.getLast? = some main ∧ main.name = entryName ∧ main.blocks = [b] ∧
      b.name = some (utf8 "entry") ∧ SingleAssignment m (m.numbering main) b ∧
      b.instructions.filterMap (·.name) = cellNames 0 p ∧
      (∀ i ∈ b.instructions, ∀ name, i.name = some name → ∃ ty, i.operation = .alloca ty) ∧
      ∃ before, m.text = before ++ (utf8 "define i32 @main() \x7b\nentry:\n" ++
        codeText (m.numbering main) b.instructions ++ utf8 "\tret i32 0\n\x7d\n") := by
  obtain ⟨g, hwalk, rfl⟩ := walk_of_lower h
  obtain ⟨hproper, hcells⟩ := LowerState.code_of_walk hwalk
  have hform := g.singleAssignment_finish triple hwalk
  have halloca := fun i hi => (hproper i hi).alloca
  exact ⟨g.main, g.body, rfl, rfl, rfl, rfl, hform, hcells, halloca, g.text_finish triple⟩

/-- Names that look like cells of one another, like the block or like nothing at all. -/
def confusableNames : Program :=
  [.bind (utf8 "x") (.int 7 default) 1,
   .bind (utf8 "x.0") (.str (utf8 "hi") default) 2,
   .bind (utf8 "x") (.bin .div (.var (utf8 "x") default) (.neg (.int 2 default) default) default) 3,
   .bind (utf8 "entry") (.var (utf8 "x") default) 4,
   .bind [] (.str (utf8 "ho") default) 5,
   .print (utf8 "x") 6,
   .print (utf8 "x.0") 7]

theorem Program.lower_singleAssignment_confusableNames :
    ∃ m main b, confusableNames.lower (utf8 "x86_64-pc-linux-gnu") = .ok m ∧
      m.functions.getLast? = some main ∧ main.blocks = [b] ∧
      SingleAssignment m (m.numbering main) b ∧
      b.instructions.filterMap (·.name) =
        [utf8 "x.0", utf8 "x.0.1", utf8 "x.2", utf8 "entry.3", utf8 ".4"] := by
  obtain ⟨m, hlower⟩ :
      ∃ m, confusableNames.lower (utf8 "x86_64-pc-linux-gnu") = .ok m := ⟨_, rfl⟩
  obtain ⟨main, b, hmain, -, hblocks, -, hform, hcells, -, -⟩ := lower_singleAssignment hlower
  exact ⟨m, main, b, hlower, hmain, hblocks, hform, hcells⟩

end LetPrint

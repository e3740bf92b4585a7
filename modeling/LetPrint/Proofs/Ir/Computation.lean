import LetPrint.Proofs.Ir.Execution
import LetPrint.Proofs.Text.Numerals

/-!
# Code that computes

The code of an integer expression, run.  Each instruction adds one result and changes nothing else,
so whatever had a value keeps it (`Grows`), and the index of an instruction tells that its result is
new (`Bounded`).

* `Computes`: code that adds nothing but results of its own and leaves a value to an operand;
  `Computes.step` puts one operation before such code, and `Computes.append` joins two pieces;
* `divideCode_computes`: a division has a result for all operands, that of `divide`;
* `CellHolds`: the cell of a binding holds what stands for its value;
* `exprCode_computes`: the code of an expression computes the value of the expression.
-/

namespace LetPrint.Ir

open Text

/-! ## Frames that grow -/

/-- Results stay, and so do the contents of the cells that have been stored to. -/
structure Grows (s s' : Frame) : Prop where
  registers : ∀ r d, s.find? r = some d → s'.find? r = some d
  cells : ∀ (k : Nat) c, s.cells[k]? = some c → s'.cells[k]? = some c

namespace Grows

variable {m : Module} {s s' s'' : Frame}

theorem refl (s : Frame) : Grows s s :=
  ⟨fun _ _ h => h, fun _ _ h => h⟩

theorem trans (h : Grows s s') (h' : Grows s' s'') : Grows s s'' :=
  ⟨fun r d hr => h'.registers r d (h.registers r d hr),
    fun k c hk => h'.cells k c (h.cells k c hk)⟩

theorem set {r : Register} (h : s.find? r = none) (d : Datum) : Grows s (s.set r d) := by
  refine ⟨?_, fun _ _ hk => hk⟩
  intro r' d' hr'
  have hne : r' ≠ r := by
    intro heq
    rw [heq, h] at hr'
    cases hr'
  rw [Frame.find?_set, if_neg hne, hr']

/-- An operand keeps its value. -/
theorem value {o : Operand} {d : Datum} (h : Grows s s') (ho : o.value m s = .ok d) :
    o.value m s' = .ok d := by
  cases o with
  | register r ty =>
    simp only [Operand.value] at ho ⊢
    cases hr : s.find? r with
    | none =>
      rw [hr] at ho
      cases ho
    | some e =>
      rw [hr] at ho
      rw [h.registers r e hr]
      exact ho
  | _ => exact ho

end Grows

/-- The registers of a frame are results of instructions with indices below `next`, and cells of
bindings with numbers below `bindings`. -/
def Bounded (s : Frame) (next bindings : Nat) : Prop :=
  ∀ r d, s.find? r = some d →
    match r with
    | .unnamed i => i < next
    | .named name => ∃ base k, k < bindings ∧ name = base ++ utf8 "." ++ decimal k

namespace Bounded

variable {s : Frame} {next bindings : Nat}

/-- The next instruction has no result yet. -/
theorem find?_unnamed (h : Bounded s next bindings) : s.find? (.unnamed next) = none := by
  cases hr : s.find? (.unnamed next) with
  | none => rfl
  | some d =>
    have hlt : next < next := h _ d hr
    omega

/-- The next binding has no cell yet. -/
theorem find?_named (h : Bounded s next bindings) (name : Bytes) :
    s.find? (.named (name ++ utf8 "." ++ decimal bindings)) = none := by
  cases hr : s.find? (.named (name ++ utf8 "." ++ decimal bindings)) with
  | none => rfl
  | some d =>
    obtain ⟨base, k, hk, heq⟩ := h _ d hr
    have hnumber : bindings = k := number_eq_of_name_eq heq
    omega

theorem mono {next' bindings' : Nat} (h : Bounded s next bindings) (hnext : next ≤ next')
    (hbindings : bindings ≤ bindings') : Bounded s next' bindings' := by
  intro r d hr
  have hbound := h r d hr
  cases r with
  | unnamed i => exact Nat.lt_of_lt_of_le hbound hnext
  | named name =>
    obtain ⟨base, k, hk, heq⟩ := hbound
    exact ⟨base, k, Nat.lt_of_lt_of_le hk hbindings, heq⟩

theorem set_unnamed (h : Bounded s next bindings) (d : Datum) :
    Bounded (s.set (.unnamed next) d) (next + 1) bindings := by
  intro r e hr
  rw [Frame.find?_set] at hr
  by_cases heq : r = .unnamed next
  · rw [heq]
    exact Nat.lt_succ_self next
  · rw [if_neg heq] at hr
    exact h.mono (Nat.le_succ next) (Nat.le_refl bindings) r e hr

theorem set_named (h : Bounded s next bindings) (name : Bytes) (d : Datum) :
    Bounded (s.set (.named (name ++ utf8 "." ++ decimal bindings)) d) next (bindings + 1) := by
  intro r e hr
  rw [Frame.find?_set] at hr
  by_cases heq : r = .named (name ++ utf8 "." ++ decimal bindings)
  · rw [heq]
    exact ⟨name, bindings, Nat.lt_succ_self bindings, rfl⟩
  · rw [if_neg heq] at hr
    exact h.mono (Nat.le_refl next) (Nat.le_succ bindings) r e hr

end Bounded

/-! ## Operations -/

section

variable {m : Module} {s : Frame} {x y : Operand} {a b d : Datum}

@[simp] theorem value_word (n : Int32) : (word n).value m s = .ok (.word n) := by
  simp [word, Operand.value]

theorem value_result {index : Nat} (ty : Ty) (h : s.find? (.unnamed index) = some d) :
    (result index ty).value m s = .ok d := by
  simp [result, Operand.value, h]

theorem exec_arith {op : Arith} (hx : x.value m s = .ok a) (hy : y.value m s = .ok b)
    (hop : op.apply a b = .ok d) : (Operation.arith op x y).exec m s = .ok (some d, s) := by
  rw [Operation.exec, hx, hy]
  simp only [bind, Except.bind, hop]
  rfl

theorem exec_icmpEq {n k : Int32} (hx : x.value m s = .ok (.word n))
    (hy : y.value m s = .ok (.word k)) :
    (Operation.icmpEq x y).exec m s = .ok (some (.truth (n == k)), s) := by
  rw [Operation.icmpEq, Operation.exec, hx, hy]
  rfl

theorem exec_select {c : Operand} {chosen : Bool} (hc : c.value m s = .ok (.truth chosen))
    (hx : x.value m s = .ok a) (hy : y.value m s = .ok b) :
    (Operation.select c x y).exec m s = .ok (some (if chosen then a else b), s) := by
  rw [Operation.exec, hc, hx, hy]
  rfl

end

/-! ## Code that computes -/

section

variable {m : Module} {s s' : Frame} {next bindings : Nat} {code rest : List Instruction}

theorem execAll_append (h : execAll m next s code = .ok s') :
    execAll m next s (code ++ rest) = execAll m (next + code.length) s' rest := by
  induction code generalizing s next with
  | nil =>
    cases h
    rfl
  | cons i code ih =>
    rw [execAll, bind_eq_ok] at h
    obtain ⟨s₁, hi, hcode⟩ := h
    have hindex : next + 1 + code.length = next + (code.length + 1) := by omega
    rw [List.cons_append, execAll, hi, List.length_cons, ← hindex]
    exact ih hcode

/-- An operation with a result of its own, as an instruction. -/
theorem exec_unnamed {op : Operation} {d : Datum} (hop : op.exec m s = .ok (some d, s'))
    (hfind : s'.find? (.unnamed next) = none) :
    (unnamed op).exec m next s = .ok (s'.set (.unnamed next) d) := by
  rw [unnamed, Instruction.exec, hop]
  exact Frame.define_of_find? hfind d

end

/-- Code that runs from `s` to `s'`, adds nothing but results of its own, and leaves the value `d`
to the operand `o`. -/
structure Computes (m : Module) (bindings next : Nat) (s : Frame) (code : List Instruction)
    (o : Operand) (d : Datum) (s' : Frame) : Prop where
  run : execAll m next s code = .ok s'
  value : o.value m s' = .ok d
  bounded : Bounded s' (next + code.length) bindings
  grows : Grows s s'
  cells : s'.cells = s.cells
  out : s'.out = s.out

namespace Computes

variable {m : Module} {bindings next : Nat} {s s' s'' : Frame} {code rest : List Instruction}
  {o o' : Operand} {d e : Datum}

theorem nil (hvalue : o.value m s = .ok d) (hbound : Bounded s next bindings) :
    Computes m bindings next s [] o d s :=
  ⟨rfl, hvalue, hbound, .refl s, rfl, rfl⟩

theorem append (h : Computes m bindings next s code o d s')
    (h' : Computes m bindings (next + code.length) s' rest o' e s'') :
    Computes m bindings next s (code ++ rest) o' e s'' := by
  refine ⟨?_, h'.value, ?_, h.grows.trans h'.grows, h'.cells.trans h.cells, h'.out.trans h.out⟩
  · rw [execAll_append h.run, h'.run]
  · rw [List.length_append, ← Nat.add_assoc]
    exact h'.bounded

/-- One operation before code that may use its result. -/
theorem step {op : Operation} (hop : op.exec m s = .ok (some d, s))
    (hbound : Bounded s next bindings)
    (hrest : ∀ s₁, Bounded s₁ (next + 1) bindings → Grows s s₁ →
      (∀ ty, (result next ty).value m s₁ = .ok d) →
      ∃ s', Computes m bindings (next + 1) s₁ rest o e s') :
    ∃ s', Computes m bindings next s (unnamed op :: rest) o e s' := by
  have hfind := hbound.find?_unnamed
  have hgrows : Grows s (s.set (.unnamed next) d) := .set hfind d
  have hresult : ∀ ty, (result next ty).value m (s.set (.unnamed next) d) = .ok d := by
    intro ty
    exact value_result ty (by simp)
  obtain ⟨s', hrest⟩ := hrest _ (hbound.set_unnamed d) hgrows hresult
  have hfirst : Computes m bindings next s [unnamed op] (result next .i32) d
      (s.set (.unnamed next) d) := by
    refine ⟨?_, hresult .i32, hbound.set_unnamed d, hgrows, rfl, rfl⟩
    rw [execAll, exec_unnamed hop hfind]
    rfl
  exact ⟨s', hfirst.append hrest⟩

/-- One operation computes its result. -/
theorem single {op : Operation} (ty : Ty) (hop : op.exec m s = .ok (some d, s))
    (hbound : Bounded s next bindings) :
    ∃ s', Computes m bindings next s [unnamed op] (result next ty) d s' :=
  step hop hbound fun s₁ hbound₁ _ hresult => ⟨s₁, .nil (hresult ty) hbound₁⟩

end Computes

/-! ## Operators -/

section

variable {m : Module} {bindings next : Nat} {s : Frame} {a b : Operand} {x y : Int32}

/-- The divisor that replaces 0 and -1 makes the division defined, and the two choices behind it give
the quotient of the language. -/
theorem sdiv_guarded (x y : Int32) :
    ∃ q, Arith.sdiv.apply (.word x) (if y == 0 || y == -1 then .word 1 else .word y)
        = .ok (.word q) ∧
      (if y == 0 then .word 0 else if y == -1 then .word (0 - x) else .word q)
        = Datum.word (divide x y) := by
  by_cases hzero : y = 0
  · exact ⟨x / 1, by simp [hzero, Arith.apply], by simp [hzero, divide]⟩
  · by_cases hone : y = -1
    · exact ⟨x / 1, by simp [hone, Arith.apply], by simp [hone, divide]⟩
    · exact ⟨x / y, by simp [hzero, hone, Arith.apply], by simp [hzero, hone, divide]⟩

/-- The steps of a division compute the quotient, whatever the operands are. -/
theorem divideCode_computes (ha : a.value m s = .ok (.word x)) (hb : b.value m s = .ok (.word y))
    (hbound : Bounded s next bindings) :
    ∃ s', Computes m bindings next s (divideCode next a b).1 (divideCode next a b).2
      (.word (divide x y)) s' := by
  obtain ⟨q, hq, hchosen⟩ := sdiv_guarded x y
  rw [← hchosen]
  refine Computes.step (exec_icmpEq hb (value_word 0)) hbound fun s₁ bound₁ grows₁ isZero => ?_
  have hb₁ := grows₁.value hb
  refine Computes.step (exec_icmpEq hb₁ (value_word (-1))) bound₁
    fun s₂ bound₂ grows₂ isMinusOne => ?_
  refine Computes.step (exec_arith (grows₂.value (isZero _)) (isMinusOne _) rfl) bound₂
    fun s₃ bound₃ grows₃ isUndefined => ?_
  have hb₃ := (grows₂.trans grows₃).value hb₁
  refine Computes.step (exec_select (isUndefined _) (value_word 1) hb₃) bound₃
    fun s₄ bound₄ grows₄ divisor => ?_
  have ha₄ := (((grows₁.trans grows₂).trans grows₃).trans grows₄).value ha
  refine Computes.step (exec_arith ha₄ (divisor _) hq) bound₄ fun s₅ bound₅ grows₅ quotient => ?_
  refine Computes.step (exec_arith (value_word 0) (grows₅.value ha₄) rfl) bound₅
    fun s₆ bound₆ grows₆ negated => ?_
  have later := (((grows₃.trans grows₄).trans grows₅).trans grows₆)
  refine Computes.step
    (exec_select (later.value (isMinusOne _)) (negated _) (grows₆.value (quotient _)))
    bound₆ fun s₇ bound₇ grows₇ chosen => ?_
  have isZero₇ := ((grows₂.trans later).trans grows₇).value (isZero .i1)
  exact Computes.single _ (exec_select isZero₇ (value_word 0) (chosen _)) bound₇

/-- The code of an operator computes what the operator gives. -/
theorem operatorCode_computes {op : Operator} {code : List Instruction} {o : Operand}
    (hcode : operatorCode next op a b = .ok (code, o)) (ha : a.value m s = .ok (.word x))
    (hb : b.value m s = .ok (.word y)) (hbound : Bounded s next bindings) :
    ∃ n, op.apply x y = .ok n ∧ ∃ s', Computes m bindings next s code o (.word n) s' := by
  cases op with
  | unknown => cases hcode
  | div =>
    cases hcode
    exact ⟨_, rfl, divideCode_computes ha hb hbound⟩
  | _ =>
    cases hcode
    exact ⟨_, rfl, Computes.single .i32 (exec_arith ha hb rfl) hbound⟩

end

/-! ## What the cells hold -/

/-- A datum stands for a value: a word for itself, and the address of a text for the text. -/
inductive StandsFor (m : Module) : Datum → Value → Prop where
  | word (n : Int32) : StandsFor m (.word n) (.int n)
  | text {name text : Bytes} (h : m.textAt name = .ok text) : StandsFor m (.text name) (.str text)

/-- The cell of a binding holds the value of the binding. -/
structure CellHolds (m : Module) (s : Frame) (c : Cell) (v : Value) : Prop where
  kind : c.kind = v.kind
  content : ∃ k d, s.find? (.named c.name) = some (.cell k) ∧
    s.cells[k]? = some (cellTy c.kind, some d) ∧ StandsFor m d v

section

variable {m : Module} {s s' : Frame} {c : Cell} {v : Value} {d : Datum}

theorem StandsFor.fits (h : StandsFor m d v) : d.fits (cellTy v.kind) = true := by
  cases h <;> rfl

theorem CellHolds.mono (h : CellHolds m s c v) (hgrows : Grows s s') : CellHolds m s' c v := by
  obtain ⟨k, d, hname, hcell, hstands⟩ := h.content
  exact ⟨h.kind, k, d, hgrows.registers _ _ hname, hgrows.cells k _ hcell, hstands⟩

/-- A load from the cell of a binding gives what stands for its value. -/
theorem CellHolds.load (h : CellHolds m s c v) :
    ∃ d, (Operation.load (cellTy c.kind) c.address).exec m s = .ok (some d, s) ∧
      StandsFor m d v := by
  obtain ⟨k, d, hname, hcell, hstands⟩ := h.content
  refine ⟨d, ?_, hstands⟩
  have haddress : c.address.value m s = .ok (.cell k) := by
    simp [Cell.address, Operand.value, hname]
  have hload : s.load (cellTy c.kind) (.cell k) = .ok d := by
    simp [Frame.load, hcell]
  rw [Operation.exec, haddress]
  simp only [bind, Except.bind, hload]
  rfl

end

/-- The code of an integer expression computes its value. -/
theorem exprCode_computes {m : Module} {bindings next : Nat} {s : Frame} {scope : Scope Cell}
    {values : Values} {e : Expr} {code : List Instruction} {o : Operand}
    (hcode : exprCode scope next e = .ok (code, o)) (hscope : scope.Related (CellHolds m s) values)
    (hbound : Bounded s next bindings) :
    ∃ n, values.evaluate e = .ok n ∧ ∃ s', Computes m bindings next s code o (.word n) s' := by
  induction e generalizing next s code o with
  | int n pos =>
    cases hcode
    exact ⟨n, rfl, s, .nil (value_word n) hbound⟩
  | var name pos =>
    rw [exprCode, bind_eq_ok] at hcode
    obtain ⟨cell, hcell, hcode⟩ := hcode
    cases hcode
    obtain ⟨n, hword, hholds⟩ :=
      Values.operand_of_related hscope (fun _ _ hholds => hholds.kind) hcell
    obtain ⟨d, hload, hstands⟩ := hholds.load
    cases hstands
    rw [hholds.kind] at hload
    exact ⟨n, hword, Computes.single .i32 hload hbound⟩
  | str text pos => cases hcode
  | missing => cases hcode
  | neg operand pos ih =>
    rw [exprCode, bind_eq_ok] at hcode
    obtain ⟨⟨inner, v⟩, hinner, hcode⟩ := hcode
    cases hcode
    obtain ⟨n, heval, s₁, hs₁⟩ := ih hinner hscope hbound
    have hneg : Arith.sub.apply (.word 0) (.word n) = .ok (.word (-n)) := by
      simp [Arith.apply]
    obtain ⟨s₂, hs₂⟩ :=
      Computes.single .i32 (exec_arith (value_word 0) hs₁.value hneg) hs₁.bounded
    refine ⟨-n, ?_, s₂, hs₁.append hs₂⟩
    rw [Values.evaluate, heval]
    rfl
  | bin op left right pos ihl ihr =>
    rw [exprCode, bind_eq_ok] at hcode
    obtain ⟨⟨leftCode, a⟩, hleft, hcode⟩ := hcode
    simp only [bind_eq_ok] at hcode
    obtain ⟨⟨rightCode, b⟩, hright, ⟨opCode, v⟩, hop, hcode⟩ := hcode
    cases hcode
    obtain ⟨x, hevall, s₁, hs₁⟩ := ihl hleft hscope hbound
    have hscope₁ := hscope.mono fun _ _ hholds => hholds.mono hs₁.grows
    obtain ⟨y, hevalr, s₂, hs₂⟩ := ihr hright hscope₁ hs₁.bounded
    obtain ⟨n, happly, s₃, hs₃⟩ :=
      operatorCode_computes hop (hs₂.grows.value hs₁.value) hs₂.value hs₂.bounded
    rw [List.append_assoc]
    refine ⟨n, ?_, s₃, hs₁.append (hs₂.append hs₃)⟩
    rw [Values.evaluate, hevall, hevalr]
    exact happly

end LetPrint.Ir

import LetPrint.Ir.Verify
import LetPrint.Proofs.Ir.Lowering

/-!
# Lowered programs are well typed

Every module that lowering makes passes the checker (`Program.lower_verifies`).

An operand carries its type with it, and the checker goes by that type alone.  So the typing rules
here say two things of an operand (`HasTy`): it carries the type, and it is what it carries the type
of: an instruction before it computes a result of that type, or the module holds the constant or the
function that it names.

* `Typed`: code in which every instruction meets the rules with operands that stand before it;
* `Typed.step`: how typed code grows by one instruction;
* `exprCode_typed`, `valueCode_typed`: the code of a right-hand side, whose value has the type of the
  cell that it is stored in;
* `LowerState.Typed`: what holds between two statements, carried over one statement by
  `LowerState.stmt_typed` and over a program by `LowerState.walk_typed`.
-/

namespace LetPrint.Ir

open Text

/-! ## Operands -/

/-- The operands of an operation. -/
def Operation.operands : Operation → List Operand
  | alloca _ => []
  | load _ source => [source]
  | store value target => [value, target]
  | arith _ x y => [x, y]
  | icmp _ x y => [x, y]
  | select condition x y => [condition, x, y]
  | call callee args => callee :: args
  | firstByte _ array => [array]
  | other _ _ operands => operands.map (·.1)

/-- An instruction of the code computes the register, and its result has the type. -/
def Defines (code : List Instruction) (ty : ValueTy) : Register → Prop
  | .named name => ∃ i ∈ code, i.name = some name ∧ i.operation.ty = ty
  | .unnamed index => ∃ i, code[index]? = some i ∧ i.name = none ∧ i.operation.ty = ty

/-- What an operand refers to is there, with the type that the operand carries.  Functions of a
lowered module read no parameters, and nothing that is known by its text only. -/
def Operand.IsSound (m : Module) (code : List Instruction) : Operand → Prop
  | .register r ty => Defines code ty r
  | .global name size => ∃ g ∈ m.globals, g.name = name ∧ g.content.length = size
  | .function f => m.lists f = true
  | .param _ _ | .other _ _ => False
  | .int _ _ | .undef _ | .null _ => True

/-- The operand has the type behind the code. -/
structure HasTy (m : Module) (code : List Instruction) (o : Operand) (ty : Ty) : Prop where
  ty_eq : o.ty = .plain ty
  sound : o.IsSound m code

section

variable {m : Module} {code more : List Instruction} {o : Operand} {ty : Ty}

theorem Defines.mono {ty : ValueTy} {r : Register} (h : Defines code ty r) :
    Defines (code ++ more) ty r := by
  cases r with
  | named name =>
    obtain ⟨i, hi, hname, hty⟩ := h
    exact ⟨i, List.mem_append_left more hi, hname, hty⟩
  | unnamed index =>
    obtain ⟨i, hi, hname, hty⟩ := h
    obtain ⟨hlt, -⟩ := List.getElem?_eq_some_iff.1 hi
    exact ⟨i, by rw [List.getElem?_append_left hlt, hi], hname, hty⟩

/-- An operand keeps its type as code is added. -/
theorem HasTy.mono (h : HasTy m code o ty) : HasTy m (code ++ more) o ty := by
  obtain ⟨hty, hsound⟩ := h
  refine ⟨hty, ?_⟩
  cases o with
  | register r ty => exact Defines.mono hsound
  | _ => exact hsound

theorem hasTy_word (n : Int32) : HasTy m code (word n) .i32 :=
  ⟨rfl, trivial⟩

end

/-! ## Code -/

/-- An operation meets the rules of the checker, and its operands stand before it. -/
structure Operation.Typed (m : Module) (code : List Instruction) (op : Operation) : Prop where
  accepted : op.fault? m = none
  sound : ∀ o ∈ op.operands, o.IsSound m code

/-- Straight-line code in which every operation is typed behind the code before it. -/
inductive Typed (m : Module) : List Instruction → Prop where
  | nil : Typed m []
  | snoc {code : List Instruction} {i : Instruction} (h : Typed m code)
      (hi : i.operation.Typed m code) : Typed m (code ++ [i])

theorem Typed.accepted {m : Module} {code : List Instruction} (h : Typed m code) :
    ∀ i ∈ code, i.operation.fault? m = none := by
  induction h with
  | nil =>
    intro i hi
    cases hi
  | snoc h hi ih =>
    intro j hj
    rcases List.mem_append.1 hj with hj | hj
    · exact ih j hj
    · rw [List.mem_singleton.1 hj]
      exact hi.accepted

section

variable {m : Module} {code : List Instruction} {x y : Operand} {ty : Ty}

theorem sameTypeFault?_eq_none {instruction : Bytes} (hx : x.ty = .plain ty) (hy : y.ty = .plain ty) :
    sameTypeFault? instruction x y = none := by
  rw [sameTypeFault?, if_pos (hx.trans hy.symm)]

theorem accessFault?_eq_none {access : Bytes} (hx : x.ty = .plain (.ptr ty)) :
    accessFault? access x (.plain ty) = none := by
  rw [accessFault?, hx]
  exact if_pos rfl

theorem arith_typed (op : Arith) (hx : HasTy m code x ty) (hy : HasTy m code y ty) :
    (Operation.arith op x y).Typed m code where
  accepted := by
    cases op with
    | or => rfl
    | _ => exact sameTypeFault?_eq_none hx.ty_eq hy.ty_eq
  sound := by
    simp only [Operation.operands, List.forall_mem_cons]
    exact ⟨hx.sound, hy.sound, nofun⟩

theorem icmpEq_typed (hx : HasTy m code x ty) (hy : HasTy m code y ty) :
    (Operation.icmpEq x y).Typed m code where
  accepted := sameTypeFault?_eq_none hx.ty_eq hy.ty_eq
  sound := by
    simp only [Operation.icmpEq, Operation.operands, List.forall_mem_cons]
    exact ⟨hx.sound, hy.sound, nofun⟩

theorem select_typed {condition : Operand} (hcondition : HasTy m code condition .i1)
    (hx : HasTy m code x ty) (hy : HasTy m code y ty) :
    (Operation.select condition x y).Typed m code where
  accepted := sameTypeFault?_eq_none hx.ty_eq hy.ty_eq
  sound := by
    simp only [Operation.operands, List.forall_mem_cons]
    exact ⟨hcondition.sound, hx.sound, hy.sound, nofun⟩

theorem load_typed (hx : HasTy m code x (.ptr ty)) : (Operation.load ty x).Typed m code where
  accepted := accessFault?_eq_none hx.ty_eq
  sound := by
    simp only [Operation.operands, List.forall_mem_cons]
    exact ⟨hx.sound, nofun⟩

theorem store_typed (hx : HasTy m code x ty) (hy : HasTy m code y (.ptr ty)) :
    (Operation.store x y).Typed m code where
  accepted := by
    rw [Operation.fault?, hx.ty_eq]
    exact accessFault?_eq_none hy.ty_eq
  sound := by
    simp only [Operation.operands, List.forall_mem_cons]
    exact ⟨hx.sound, hy.sound, nofun⟩

theorem firstByte_typed {c : Global} (hc : c ∈ m.globals) : c.firstByte.Typed m code where
  accepted := rfl
  sound := by
    simp only [Global.firstByte, Operation.operands, List.forall_mem_cons]
    exact ⟨⟨c, hc, rfl, rfl⟩, nofun⟩

/-- A call of `printf` with a format and one more argument. -/
theorem printf_typed (hprintf : printf.IsSound m code) (hx : HasTy m code x .bytePtr)
    (hy : HasTy m code y ty) : (Operation.call printf [x, y]).Typed m code where
  accepted := by
    have hlists : m.lists ⟨0, printfFunction.name, printfFunction.signature⟩ = true := hprintf
    simp only [Operation.fault?, callFault?, printf, hlists, if_true]
    show argumentFault? (shownName (utf8 "printf")) 1 [x, y] [.bytePtr] = none
    rw [argumentFault?, if_pos hx.ty_eq]
    rfl
  sound := by
    simp only [Operation.operands, List.forall_mem_cons]
    exact ⟨hprintf, hx.sound, hy.sound, nofun⟩

/-- Typed code grows by an instruction without a name, whose result has the type of its operation. -/
theorem Typed.step {op : Operation} {next : Nat} (h : Typed m code) (hnext : code.length = next)
    (hop : op.Typed m code) (hty : op.ty = .plain ty) :
    Typed m (code ++ [unnamed op]) ∧ (code ++ [unnamed op]).length = next + 1 ∧
      HasTy m (code ++ [unnamed op]) (result next ty) ty := by
  refine ⟨h.snoc hop, ?_, rfl, ?_⟩
  · rw [List.length_append, hnext]
    rfl
  · refine ⟨unnamed op, ?_, rfl, hty⟩
    rw [← hnext, List.getElem?_concat_length]

end

/-! ## Expressions -/

section

variable {m : Module} {code fragment : List Instruction} {a b v : Operand} {next : Nat}

/-- The steps of a division are typed one by one. -/
theorem divideCode_typed (h : Typed m code) (hnext : code.length = next) (ha : HasTy m code a .i32)
    (hb : HasTy m code b .i32) :
    Typed m (code ++ (divideCode next a b).1) ∧
      HasTy m (code ++ (divideCode next a b).1) (divideCode next a b).2 .i32 := by
  -- Each operand is carried over the instructions between its own and the one that reads it.
  obtain ⟨h₁, hnext₁, hzero⟩ := h.step hnext (icmpEq_typed hb (hasTy_word 0)) rfl
  obtain ⟨h₂, hnext₂, hminusOne⟩ := h₁.step hnext₁ (icmpEq_typed hb.mono (hasTy_word (-1))) rfl
  obtain ⟨h₃, hnext₃, hundefined⟩ := h₂.step hnext₂ (arith_typed .or hzero.mono hminusOne) rfl
  obtain ⟨h₄, hnext₄, hdivisor⟩ :=
    h₃.step hnext₃ (select_typed hundefined (hasTy_word 1) hb.mono.mono.mono) rfl
  obtain ⟨h₅, hnext₅, hquotient⟩ :=
    h₄.step hnext₄ (arith_typed .sdiv ha.mono.mono.mono.mono hdivisor) ha.ty_eq
  obtain ⟨h₆, hnext₆, hnegated⟩ :=
    h₅.step hnext₅ (arith_typed .sub (hasTy_word 0) ha.mono.mono.mono.mono.mono) rfl
  obtain ⟨h₇, hnext₇, hchosen⟩ :=
    h₆.step hnext₆ (select_typed hminusOne.mono.mono.mono.mono hnegated hquotient.mono) rfl
  obtain ⟨h₈, -, hresult⟩ :=
    h₇.step hnext₇ (select_typed hzero.mono.mono.mono.mono.mono.mono (hasTy_word 0) hchosen) rfl
  simp only [List.append_assoc, List.cons_append, List.nil_append] at h₈ hresult
  exact ⟨h₈, hresult⟩

theorem operatorCode_typed {op : Operator} (h : Typed m code) (hnext : code.length = next)
    (ha : HasTy m code a .i32) (hb : HasTy m code b .i32)
    (hcode : operatorCode next op a b = .ok (fragment, v)) :
    Typed m (code ++ fragment) ∧ HasTy m (code ++ fragment) v .i32 := by
  have hsingle : ∀ op : Arith, Typed m (code ++ [unnamed (.arith op a b)]) ∧
      HasTy m (code ++ [unnamed (.arith op a b)]) (result next .i32) .i32 := by
    intro op
    obtain ⟨hcode, -, hresult⟩ := h.step hnext (arith_typed op ha hb) ha.ty_eq
    exact ⟨hcode, hresult⟩
  cases op with
  | add =>
    cases hcode
    exact hsingle .add
  | sub =>
    cases hcode
    exact hsingle .sub
  | mul =>
    cases hcode
    exact hsingle .mul
  | div =>
    cases hcode
    exact divideCode_typed h hnext ha hb
  | unknown => cases hcode

/-- Every name of the scope stands for a cell that was made for a value of its kind. -/
def CellsTyped (m : Module) (code : List Instruction) (scope : Scope Cell) : Prop :=
  ∀ name cell, scope.find? name = some cell →
    HasTy m code cell.address (.ptr (cellTy cell.kind))

theorem CellsTyped.mono {scope : Scope Cell} {more : List Instruction}
    (h : CellsTyped m code scope) : CellsTyped m (code ++ more) scope :=
  fun name cell hcell => (h name cell hcell).mono

/-- The code of an expression is typed, and its value is a word. -/
theorem exprCode_typed {scope : Scope Cell} {e : Expr} (h : Typed m code)
    (hnext : code.length = next) (hcells : CellsTyped m code scope)
    (hcode : exprCode scope next e = .ok (fragment, v)) :
    Typed m (code ++ fragment) ∧ HasTy m (code ++ fragment) v .i32 := by
  -- The code before is generalised: a right operand stands behind the code of the left one.
  induction e generalizing code fragment v next with
  | int n pos =>
    cases hcode
    rw [List.append_nil]
    exact ⟨h, hasTy_word n⟩
  | var name pos =>
    rw [exprCode, bind_eq_ok] at hcode
    obtain ⟨cell, hcell, heq⟩ := hcode
    cases heq
    obtain ⟨hfind, hkind⟩ := Scope.operand_eq_ok.1 hcell
    have haddress := hcells name cell hfind
    rw [hkind] at haddress
    obtain ⟨hload, -, hresult⟩ := h.step hnext (load_typed haddress) rfl
    exact ⟨hload, hresult⟩
  | str text pos => cases hcode
  | neg operand pos ih =>
    rw [exprCode, bind_eq_ok] at hcode
    obtain ⟨⟨before, x⟩, hoperand, heq⟩ := hcode
    cases heq
    obtain ⟨hbefore, hx⟩ := ih h hnext hcells hoperand
    have hlength : (code ++ before).length = next + before.length := by
      rw [List.length_append, hnext]
    obtain ⟨hsub, -, hresult⟩ :=
      hbefore.step hlength (arith_typed .sub (hasTy_word 0) hx) rfl
    rw [← List.append_assoc]
    exact ⟨hsub, hresult⟩
  | bin op left right pos ihl ihr =>
    rw [exprCode, bind_eq_ok] at hcode
    obtain ⟨⟨leftCode, a⟩, hleft, hcode⟩ := hcode
    rw [bind_eq_ok] at hcode
    obtain ⟨⟨rightCode, b⟩, hright, hcode⟩ := hcode
    rw [bind_eq_ok] at hcode
    obtain ⟨⟨opCode, v⟩, hop, heq⟩ := hcode
    cases heq
    obtain ⟨hl, ha⟩ := ihl h hnext hcells hleft
    have hnextl : (code ++ leftCode).length = next + leftCode.length := by
      rw [List.length_append, hnext]
    obtain ⟨hr, hb⟩ := ihr hl hnextl hcells.mono hright
    have hnextr : (code ++ leftCode ++ rightCode).length =
        next + leftCode.length + rightCode.length := by
      rw [List.length_append, hnextl]
    have htyped := operatorCode_typed hr hnextr ha.mono hb hop
    simpa only [List.append_assoc] using htyped
  | missing => cases hcode

end

/-! ## Statements -/

/-- The instructions that keep a value in a new cell. -/
def keep (c : Cell) (v : Operand) : List Instruction :=
  [{ name := some c.name, operation := .alloca (cellTy c.kind) }, unnamed (.store v c.address)]

/-- A value is kept in a cell of its type, and the cell has an address. -/
theorem keep_typed {m : Module} {code : List Instruction} {v : Operand} {c : Cell}
    (h : Typed m code) (hv : HasTy m code v (cellTy c.kind)) :
    Typed m (code ++ keep c v) ∧ HasTy m (code ++ keep c v) c.address (.ptr (cellTy c.kind)) := by
  have halloca : Typed m (code ++ [{ name := some c.name, operation := .alloca (cellTy c.kind) }]) :=
    h.snoc ⟨rfl, nofun⟩
  have haddress : HasTy m (code ++ [{ name := some c.name, operation := .alloca (cellTy c.kind) }])
      c.address (.ptr (cellTy c.kind)) :=
    ⟨rfl, _, List.mem_append_right code List.mem_cons_self, rfl, rfl⟩
  have hsplit : code ++ keep c v =
      code ++ [{ name := some c.name, operation := .alloca (cellTy c.kind) }] ++
        [unnamed (.store v c.address)] := by
    rw [keep, List.append_assoc]
    rfl
  rw [hsplit]
  exact ⟨halloca.snoc (store_typed hv.mono haddress), haddress.mono⟩

namespace LowerState

variable {m : Module} {g g' : LowerState}

/-- The code of a right-hand side is typed, and its value has the type of its cell.  A string literal
needs its constant in the module. -/
theorem valueCode_typed {e : Expr} {fragment : List Instruction} {v : Operand}
    {constant : Option Global} (h : Ir.Typed m g.code) (hcells : CellsTyped m g.code g.scope)
    (hglobals : constant.toList ⊆ m.globals)
    (hcode : g.valueCode e = .ok ((fragment, v), constant)) :
    Ir.Typed m (g.code ++ fragment) ∧ HasTy m (g.code ++ fragment) v (cellTy e.kind) := by
  cases hkind : e.kind with
  | int =>
    rw [valueCode_int hkind, map_eq_ok] at hcode
    obtain ⟨_, hcode, heq⟩ := hcode
    cases heq
    exact exprCode_typed h rfl hcells hcode
  | str =>
    cases e with
    | str text pos =>
      cases hcode
      have hmem := hglobals List.mem_cons_self
      obtain ⟨htyped, -, hresult⟩ := h.step rfl (firstByte_typed hmem) rfl
      exact ⟨htyped, hresult⟩
    | _ => cases hkind

/-- What holds between two statements: the code is typed, every name has a cell of its kind, and the
addresses of the formats are there. -/
structure Typed (m : Module) (g : LowerState) : Prop where
  code : Ir.Typed m g.code
  cells : CellsTyped m g.code g.scope
  formats : ∀ kind, HasTy m g.code (formatOf kind) .bytePtr

theorem stmt_typed {s : Stmt} (hprintf : ∀ code, printf.IsSound m code)
    (hglobals : g'.globals ⊆ m.globals) (h : g.Typed m) (hstep : g.stmt s = .ok g') :
    g'.Typed m := by
  obtain ⟨hcode, hcells, hformats⟩ := h
  cases s with
  | bind name e line =>
    obtain ⟨-, fragment, v, constant, hvalue, rfl⟩ := stmt_bind_ok hstep
    have hconstant : constant.toList ⊆ m.globals :=
      fun c hc => hglobals (List.mem_append_right g.globals hc)
    obtain ⟨hfragment, hv⟩ := valueCode_typed hcode hcells hconstant hvalue
    obtain ⟨hkeep, haddress⟩ := keep_typed (c := g.nextCell name e.kind) hfragment hv
    rw [List.append_assoc] at hkeep haddress
    refine ⟨hkeep, ?_, fun kind => (hformats kind).mono⟩
    intro other cell hfind
    -- The name now stands for the new cell, whatever it stood for before.
    rw [Scope.find?_bind] at hfind
    split at hfind
    · cases hfind
      exact haddress
    · exact (hcells other cell hfind).mono
  | print name line =>
    obtain ⟨cell, hfind, rfl⟩ := stmt_print_ok hstep
    obtain ⟨hload, -, hloaded⟩ := hcode.step rfl (load_typed (hcells name cell hfind)) rfl
    have hcall := printf_typed (hprintf _) (hformats cell.kind).mono hloaded
    have hprint := hload.snoc (i := unnamed _) hcall
    rw [List.append_assoc] at hprint
    exact ⟨hprint, hcells.mono, fun kind => (hformats kind).mono⟩
  | foreign typeName line => cases hstep

theorem walk_typed {p : Program} {index : Nat} (hprintf : ∀ code, printf.IsSound m code)
    (hglobals : g'.globals ⊆ m.globals) (h : g.Typed m) (hwalk : walk stmt index g p = (g', none)) :
    g'.Typed m := by
  induction p generalizing g index with
  | nil =>
    cases hwalk
    exact h
  | cons s p ih =>
    obtain ⟨g₁, hstep, hrest⟩ := walk_cons_eq_none hwalk
    -- Constants are only added, so those of the state in between are in the module as well.
    have hglobals₁ : g₁.globals ⊆ m.globals :=
      fun c hc => hglobals ((walk_globals hrest).subset hc)
    exact ih (stmt_typed hprintf hglobals₁ h hstep) hrest

theorem initial_typed (hglobals : initial.globals ⊆ m.globals) : initial.Typed m := by
  have hword : wordFormat ∈ m.globals := hglobals List.mem_cons_self
  have htext : textFormat ∈ m.globals := hglobals (List.mem_cons_of_mem _ List.mem_cons_self)
  obtain ⟨hcode₁, hnext₁, hformat₁⟩ := Ir.Typed.nil.step rfl (firstByte_typed hword) rfl
  obtain ⟨hcode₂, -, hformat₂⟩ := hcode₁.step hnext₁ (firstByte_typed htext) rfl
  refine ⟨hcode₂, nofun, fun kind => ?_⟩
  cases kind with
  | int => exact hformat₁.mono
  | str => exact hformat₂

/-- The code of a program is typed in the module that it makes. -/
theorem typed_of_walk {p : Program} {triple : Bytes} (h : walk stmt 0 .initial p = (g, none)) :
    Ir.Typed (g.finish triple) g.code := by
  have hprintf : ∀ code, printf.IsSound (g.finish triple) code := fun _ => rfl
  have hinitial : initial.Typed (g.finish triple) := initial_typed (walk_globals h).subset
  exact (walk_typed hprintf (List.Subset.refl _) hinitial h).code

/-- The one block of a finished module: the code of the program, and the status 0. -/
theorem block_of_finish {triple : Bytes} {f : Function} {b : Block}
    (hf : f ∈ (g.finish triple).functions) (hb : b ∈ f.blocks) :
    f.ret = .i32 ∧ b.instructions = g.code ∧ b.terminator = some (.ret (word 0)) := by
  simp only [finish, List.mem_cons, List.not_mem_nil, or_false] at hf
  rcases hf with rfl | rfl
  · cases hb
  · rw [List.mem_singleton.1 hb]
    exact ⟨rfl, rfl, rfl⟩

/-- Typed code makes a module that the checker accepts. -/
theorem finish_verifies {triple : Bytes} (h : Ir.Typed (g.finish triple) g.code) :
    (g.finish triple).verify = .ok () := by
  have hentry : (g.finish triple).entryFault? = none := rfl
  have hcode : g.code.findSome? (fun i => i.operation.fault? (g.finish triple)) = none :=
    List.findSome?_eq_none_iff.2 h.accepted
  have hblock : ∀ f ∈ (g.finish triple).functions, ∀ b ∈ f.blocks,
      b.fault? (g.finish triple) f = none := by
    intro f hf b hb
    obtain ⟨hret, hinstructions, hterminator⟩ := block_of_finish hf hb
    have hty : (word 0).ty = .plain f.ret := by
      rw [hret]
      rfl
    simp only [Block.fault?, hterminator, hinstructions, hcode, Option.none_or]
    exact if_pos hty
  have hfault : (g.finish triple).fault? = none := by
    rw [Module.fault?, hentry, Option.none_or, List.findSome?_eq_none_iff]
    intro f hf
    exact List.findSome?_eq_none_iff.2 (hblock f hf)
  rw [Module.verify, hfault]

end LowerState

end LetPrint.Ir

namespace LetPrint

open Ir

/-- The checker accepts every module that a program is lowered to.  Moreover the types that it goes
by are true: every operand is computed, before it is used, by an instruction with a result of the
type that the operand carries, or is a constant or a function of the module. -/
theorem Program.lower_verifies {p : Program} {triple : Bytes} {m : Module}
    (h : p.lower triple = .ok m) :
    m.verify = .ok () ∧ ∀ f ∈ m.functions, ∀ b ∈ f.blocks, Typed m b.instructions := by
  obtain ⟨g, hwalk, rfl⟩ := walk_of_lower h
  have hprintf : ∀ code, printf.IsSound (g.finish triple) code := fun _ => rfl
  have hinitial : LowerState.initial.Typed (g.finish triple) :=
    LowerState.initial_typed (LowerState.walk_globals hwalk).subset
  have htyped : Typed (g.finish triple) g.code :=
    (LowerState.walk_typed hprintf (List.Subset.refl _) hinitial hwalk).code
  refine ⟨LowerState.finish_verifies htyped, ?_⟩
  intro f hf b hb
  obtain ⟨-, hinstructions, -⟩ := LowerState.block_of_finish hf hb
  rw [hinstructions]
  exact htyped

/-- Names of both kinds, bound again, divided and printed. -/
def reboundNames : Program :=
  [.bind (utf8 "x") (.int 7 default) 1,
   .bind (utf8 "s") (.str (utf8 "hi") default) 2,
   .bind (utf8 "x") (.bin .div (.var (utf8 "x") default) (.neg (.int 2 default) default) default) 3,
   .bind (utf8 "s") (.str (utf8 "ho") default) 4,
   .print (utf8 "x") 5,
   .print (utf8 "s") 6]

theorem Program.lower_verifies_reboundNames :
    ∃ m, reboundNames.lower (utf8 "x86_64-pc-linux-gnu") = .ok m ∧ m.verify = .ok () ∧
      ∀ f ∈ m.functions, ∀ b ∈ f.blocks, Typed m b.instructions := by
  obtain ⟨m, hlower⟩ : ∃ m, reboundNames.lower (utf8 "x86_64-pc-linux-gnu") = .ok m := ⟨_, rfl⟩
  exact ⟨m, hlower, lower_verifies hlower⟩

end LetPrint

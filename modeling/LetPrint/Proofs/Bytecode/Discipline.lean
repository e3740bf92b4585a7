import LetPrint.Proofs.Bytecode.Safety

/-!
# The discipline of generated code

A machine knows no types and no names: it would add the index of a string to a number, or load a slot
that was never stored.  Generated code never asks for that (`Program.chunk_disciplined`).

* `Program.lets` numbers the bindings of a program, and `LatestLet` says which of them a name stands
  for.
* `ExprCode`, `StmtCode` and `ProgramCode` describe the code of expressions, statements and programs in
  these terms, without the state of the generator.  Generated code is of this form
  (`CodeState.After`, `CodeState.After.stmt`, `CodeState.After.walk`).
* What is to be shown of the code follows from its form: the order of operands (`ProgramCode.stores`,
  `ProgramCode.strings`, `StmtCode.loads`), what stands around an instruction
  (`ProgramCode.fitsAt`), and the height of the stack (`ProgramCode.supported`).
-/

namespace LetPrint

open Text

/-! ## Bindings and uses of a program -/

/-- The name and the right-hand side of a `let`. -/
def Stmt.let? : Stmt → Option (Bytes × Expr)
  | bind name e _ => some (name, e)
  | print _ _ | foreign _ _ => none

/-- The literal of a `let` of a string. -/
def Stmt.stringLet? : Stmt → Option Bytes
  | bind _ (.str text _) _ => some text
  | _ => none

/-- The bindings of a program in order. -/
def Program.lets (p : Program) : List (Bytes × Expr) :=
  p.filterMap Stmt.let?

/-- The string literals that names are bound to, in order. -/
def Program.stringLets (p : Program) : List Bytes :=
  p.filterMap Stmt.stringLet?

/-- The last binding of a name in a program: the one with number `k`, and its right-hand side. -/
structure LatestLet (p : Program) (name : Bytes) (k : Nat) (e : Expr) : Prop where
  bound : p.lets[k]? = some (name, e)
  latest : ∀ (j : Nat) (other : Bytes × Expr), k < j → p.lets[j]? = some other → other.1 ≠ name

/-- The kind of the binding with number `k`. -/
def Program.letKind? (p : Program) (k : Nat) : Option Kind :=
  p.lets[k]?.map (·.2.kind)

section

variable {p : Program} {name : Bytes} {e : Expr} {line : Int} {k : Nat}

theorem Program.lets_snoc (p : Program) (s : Stmt) :
    Program.lets (p ++ [s]) = p.lets ++ s.let?.toList := by
  rw [lets, List.filterMap_append]
  cases h : s.let? with
  | none => rw [List.filterMap_cons_none h]; rfl
  | some binding => rw [List.filterMap_cons_some h]; rfl

theorem Program.stringLets_snoc (p : Program) (s : Stmt) :
    Program.stringLets (p ++ [s]) = p.stringLets ++ s.stringLet?.toList := by
  rw [stringLets, List.filterMap_append]
  cases h : s.stringLet? with
  | none => rw [List.filterMap_cons_none h]; rfl
  | some text => rw [List.filterMap_cons_some h]; rfl

theorem Expr.stringLet?_of_int (h : e.kind = .int) (name : Bytes) (line : Int) :
    (Stmt.bind name e line).stringLet? = none := by
  cases e with
  | str text pos => cases h
  | _ => rfl

theorem Program.stringLets_length_le (p : Program) : p.stringLets.length ≤ p.lets.length := by
  induction p with
  | nil => exact Nat.le_refl 0
  | cons s p ih =>
    cases s with
    | bind name e line =>
      cases e with
      | str text pos => exact Nat.succ_le_succ ih
      | _ => exact Nat.le_succ_of_le ih
    | _ => exact ih

/-- Bindings keep their numbers as statements are added. -/
theorem Program.getElem?_lets_snoc {binding : Bytes × Expr} (h : p.lets[k]? = some binding)
    (s : Stmt) : (Program.lets (p ++ [s]))[k]? = some binding := by
  rw [lets_snoc, List.getElem?_append_left (List.getElem?_eq_some_iff.1 h).1, h]

theorem Program.letKind?_snoc {kind : Kind} (h : p.letKind? k = some kind) (s : Stmt) :
    Program.letKind? (p ++ [s]) k = some kind := by
  obtain ⟨binding, hk, rfl⟩ := Option.map_eq_some_iff.1 h
  rw [letKind?, getElem?_lets_snoc hk]
  rfl

theorem Program.lt_of_letKind? {kind : Kind} (h : p.letKind? k = some kind) : k < p.lets.length := by
  obtain ⟨binding, hk, -⟩ := Option.map_eq_some_iff.1 h
  exact (List.getElem?_eq_some_iff.1 hk).1

theorem LatestLet.letKind? (h : LatestLet p name k e) : p.letKind? k = some e.kind := by
  rw [Program.letKind?, h.bound]
  rfl

/-- A `let` gets the next number and is the latest of its name, -/
theorem LatestLet.new (p : Program) (name : Bytes) (e : Expr) (line : Int) :
    LatestLet (p ++ [.bind name e line]) name p.lets.length e := by
  have hlets : Program.lets (p ++ [.bind name e line]) = p.lets ++ [(name, e)] := p.lets_snoc _
  constructor
  · rw [hlets, List.getElem?_concat_length]
  · intro j other hj hother
    have hlt := (List.getElem?_eq_some_iff.1 hother).1
    rw [hlets, List.length_append, List.length_singleton] at hlt
    omega

/-- and the latest binding of another name stays the latest. -/
theorem LatestLet.keep (h : LatestLet p name k e) {s : Stmt}
    (hs : ∀ binding ∈ s.let?, binding.1 ≠ name) : LatestLet (p ++ [s]) name k e := by
  refine ⟨Program.getElem?_lets_snoc h.bound s, ?_⟩
  intro j other hj hother
  rw [Program.lets_snoc] at hother
  rcases Nat.lt_or_ge j p.lets.length with hlt | hge
  · rw [List.getElem?_append_left hlt] at hother
    exact h.latest j other hj hother
  · rw [List.getElem?_append_right hge] at hother
    exact hs other (Option.mem_toList.1 (List.mem_of_getElem? hother))

end

/-! ## The form of the code -/

/-- The code of an integer expression behind the statements `p`. -/
inductive ExprCode (p : Program) (line : Int) : Expr → List Instruction → Prop where
  | int (n : Int32) (pos : Position) : ExprCode p line (.int n pos) [⟨.const, n, line⟩]
  | var {name : Bytes} {k : Nat} {e : Expr} (pos : Position) (latest : LatestLet p name k e)
      (kind : e.kind = .int) : ExprCode p line (.var name pos) [⟨.load, Int32.ofNat k, line⟩]
  | neg {operand : Expr} {code : List Instruction} (pos : Position)
      (h : ExprCode p line operand code) : ExprCode p line (.neg operand pos) (code ++ [⟨.neg, 0, line⟩])
  | bin {op : Operator} {opcode : Opcode} {left right : Expr} {leftCode rightCode : List Instruction}
      (pos : Position) (hl : ExprCode p line left leftCode) (hr : ExprCode p line right rightCode)
      (hop : op.opcode = .ok opcode) :
      ExprCode p line (.bin op left right pos) (leftCode ++ rightCode ++ [⟨opcode, 0, line⟩])

/-- The code of a statement behind the statements `p`. -/
inductive StmtCode (p : Program) : Stmt → List Instruction → Prop where
  | bindInt {name : Bytes} {e : Expr} {line : Int} {code : List Instruction} (kind : e.kind = .int)
      (h : ExprCode p line e code) :
      StmtCode p (.bind name e line) (code ++ [⟨.store, Int32.ofNat p.lets.length, line⟩])
  | bindStr (name text : Bytes) (pos : Position) (line : Int) :
      StmtCode p (.bind name (.str text pos) line)
        [⟨.str, Int32.ofNat p.stringLets.length, line⟩, ⟨.store, Int32.ofNat p.lets.length, line⟩]
  | print {name : Bytes} {k : Nat} {e : Expr} (line : Int) (latest : LatestLet p name k e) :
      StmtCode p (.print name line)
        [⟨.load, Int32.ofNat k, line⟩, ⟨CodeState.printOpcode e.kind, 0, line⟩]

/-- The code of a program, without the `halt` behind it. -/
inductive ProgramCode : Program → List Instruction → Prop where
  | nil : ProgramCode [] []
  | snoc {p : Program} {s : Stmt} {code piece : List Instruction} (h : ProgramCode p code)
      (hs : StmtCode p s piece) : ProgramCode (p ++ [s]) (code ++ piece)

namespace CodeState

/-- The state of the generator behind the statements `p`. -/
structure After (g : CodeState) (p : Program) : Prop where
  code : ProgramCode p g.chunk.code
  slots : g.chunk.slots = p.lets.length
  strings : g.chunk.strings = p.stringLets
  scope : ∀ name info, g.scope.find? name = some info →
    ∃ e, LatestLet p name info.slot e ∧ info.kind = e.kind

variable {g g' : CodeState} {p : Program} {e : Expr} {line : Int} {code : List Instruction}

theorem After.exprCode (h : g.After p) (hcode : CodeState.exprCode g.scope line e = .ok code) :
    ExprCode p line e code := by
  induction e generalizing code with
  | int n pos =>
    cases hcode
    exact .int n pos
  | var name pos =>
    rw [CodeState.exprCode, bind_eq_ok] at hcode
    obtain ⟨info, hinfo, hcode⟩ := hcode
    cases hcode
    obtain ⟨hfind, hkind⟩ := Scope.operand_eq_ok.1 hinfo
    obtain ⟨e, hlatest, heq⟩ := h.scope name info hfind
    exact .var pos hlatest (heq.symm.trans hkind)
  | str text pos => cases hcode
  | neg operand pos ih =>
    rw [CodeState.exprCode, bind_eq_ok] at hcode
    obtain ⟨inner, hinner, hcode⟩ := hcode
    cases hcode
    exact .neg pos (ih hinner)
  | bin op left right pos ihl ihr =>
    rw [CodeState.exprCode, bind_eq_ok] at hcode
    obtain ⟨leftCode, hleft, hcode⟩ := hcode
    rw [bind_eq_ok] at hcode
    obtain ⟨rightCode, hright, hcode⟩ := hcode
    rw [bind_eq_ok] at hcode
    obtain ⟨opcode, hop, hcode⟩ := hcode
    cases hcode
    exact .bin pos (ihl hleft) (ihr hright) hop
  | missing => cases hcode

/-- What a right-hand side adds has the form of its kind. -/
theorem After.valueCode (h : g.After p) (name : Bytes) {new : List Bytes}
    (hcode : g.valueCode line e = .ok (code, new)) :
    StmtCode p (.bind name e line) (code ++ [⟨.store, Int32.ofNat g.chunk.slots, line⟩]) ∧
      new = (Stmt.bind name e line).stringLet?.toList := by
  rw [h.slots]
  cases hkind : e.kind with
  | int =>
    rw [valueCode_int hkind, map_eq_ok] at hcode
    obtain ⟨code', hcode, heq⟩ := hcode
    cases heq
    rw [Expr.stringLet?_of_int hkind]
    exact ⟨.bindInt hkind (h.exprCode hcode), rfl⟩
  | str =>
    cases e with
    | str text pos =>
      cases hcode
      rw [h.strings]
      exact ⟨.bindStr name text pos line, rfl⟩
    | _ => cases hkind

/-- A statement adds its code to that of the statements before it. -/
theorem After.stmt (h : g.After p) {s : Stmt} (hs : g.stmt s = .ok g') :
    g'.After (p ++ [s]) ∧ ∃ piece, g'.chunk.code = g.chunk.code ++ piece ∧ StmtCode p s piece := by
  cases s with
  | bind name e line =>
    obtain ⟨-, code, new, hvalue, rfl⟩ := stmt_bind_ok hs
    obtain ⟨hpiece, hnew⟩ := h.valueCode name hvalue
    refine ⟨⟨h.code.snoc hpiece, ?_, ?_, ?_⟩, _, rfl, hpiece⟩
    · rw [Program.lets_snoc, List.length_append, h.slots]
      rfl
    · rw [Program.stringLets_snoc, h.strings, hnew]
    · intro other info hfind
      rw [Scope.find?_bind] at hfind
      by_cases hother : other = name
      · rw [if_pos hother] at hfind
        cases hfind
        rw [hother, h.slots]
        exact ⟨e, .new p name e line, rfl⟩
      · rw [if_neg hother] at hfind
        obtain ⟨e', hlatest, hkind⟩ := h.scope other info hfind
        refine ⟨e', hlatest.keep ?_, hkind⟩
        rintro binding ⟨⟩ rfl
        exact hother rfl
  | print name line =>
    obtain ⟨info, hfind, rfl⟩ := stmt_print_ok hs
    obtain ⟨e, hlatest, hkind⟩ := h.scope name info hfind
    rw [hkind]
    have hpiece := StmtCode.print line hlatest
    refine ⟨⟨h.code.snoc hpiece, ?_, ?_, ?_⟩, _, rfl, hpiece⟩
    · rw [Program.lets_snoc, List.length_append, h.slots]
      rfl
    · rw [Program.stringLets_snoc, h.strings]
      exact (List.append_nil _).symm
    · intro other info hfind
      obtain ⟨e', hlatest, hkind⟩ := h.scope other info hfind
      exact ⟨e', hlatest.keep nofun, hkind⟩
  | foreign typeName line => cases hs

theorem After.walk {q : Program} {index : Nat} (h : g.After p)
    (hwalk : LetPrint.walk CodeState.stmt index g q = (g', none)) : g'.After (p ++ q) := by
  induction q generalizing g p index with
  | nil =>
    cases hwalk
    rwa [List.append_nil]
  | cons s q ih =>
    obtain ⟨t, hs, hrest⟩ := walk_cons_eq_none hwalk
    have hq := ih (h.stmt hs).1 hrest
    rwa [List.append_assoc] at hq

theorem After.start : After {} [] :=
  ⟨.nil, rfl, rfl, by simp⟩

end CodeState

/-! ## Opcodes of expressions -/

/-- Opcodes that expressions are made of. -/
def Opcode.isCompute : Opcode → Bool
  | const | neg | add | sub | mul | div | load => true
  | str | store | printInt | printStr | halt | illegal _ => false

theorem Operator.opcode_arity {op : Operator} {opcode : Opcode} (h : op.opcode = .ok opcode) :
    opcode.isCompute = true ∧ opcode ≠ .load ∧ opcode.pops = 2 ∧ opcode.pushes = 1 := by
  cases op with
  | unknown => cases h
  | _ =>
    cases h
    decide

section

variable {p : Program} {s : Stmt} {line : Int} {e : Expr} {code piece : List Instruction}

/-- Expressions only compute, and load integers alone. -/
theorem ExprCode.computes (h : ExprCode p line e code) :
    ∀ i ∈ code, i.opcode.isCompute = true ∧
      (i.opcode = .load → ∃ k, i.operand = Int32.ofNat k ∧ p.letKind? k = some .int) := by
  induction h with
  | int n pos => simp [Opcode.isCompute]
  | @var name k e pos latest kind =>
    intro i hi
    obtain rfl := List.mem_singleton.1 hi
    refine ⟨rfl, fun _ => ⟨k, rfl, ?_⟩⟩
    rw [latest.letKind?, kind]
  | neg pos h ih =>
    rw [List.forall_mem_append, List.forall_mem_singleton]
    exact ⟨ih, rfl, nofun⟩
  | bin pos hl hr hop ihl ihr =>
    obtain ⟨hcompute, hload, -, -⟩ := Operator.opcode_arity hop
    rw [List.forall_mem_append, List.forall_mem_append, List.forall_mem_singleton]
    exact ⟨⟨ihl, ihr⟩, hcompute, fun heq => absurd heq hload⟩

theorem ExprCode.opcode_ne (h : ExprCode p line e code) {op : Opcode} (hop : op.isCompute = false) :
    ∀ i ∈ code, i.opcode ≠ op := by
  intro i hi heq
  have hcompute := (h.computes i hi).1
  rw [heq, hop] at hcompute
  cases hcompute

theorem printOpcode_ne {op : Opcode} (hint : op ≠ .printInt) (hstr : op ≠ .printStr) (kind : Kind) :
    CodeState.printOpcode kind ≠ op := by
  cases kind with
  | int => exact hint.symm
  | str => exact hstr.symm

/-! ## Operands in order -/

/-- The operands of the instructions with the given opcode, in order. -/
def operandsOf (op : Opcode) (code : List Instruction) : List Int :=
  (code.filter (·.opcode == op)).map (·.operand.toInt)

theorem operandsOf_append (op : Opcode) (code more : List Instruction) :
    operandsOf op (code ++ more) = operandsOf op code ++ operandsOf op more := by
  simp [operandsOf]

theorem operandsOf_eq_nil {op : Opcode} (h : ∀ i ∈ code, i.opcode ≠ op) : operandsOf op code = [] := by
  have hfilter : code.filter (·.opcode == op) = [] := by simpa using h
  rw [operandsOf, hfilter, List.map_nil]

theorem operandsOf_nil (op : Opcode) : operandsOf op [] = [] := rfl

theorem operandsOf_same (op : Opcode) (n : Int32) (line : Int) (code : List Instruction) :
    operandsOf op (⟨op, n, line⟩ :: code) = n.toInt :: operandsOf op code := by
  simp [operandsOf]

theorem operandsOf_other {op other : Opcode} (h : other ≠ op) (n : Int32) (line : Int)
    (code : List Instruction) : operandsOf op (⟨other, n, line⟩ :: code) = operandsOf op code := by
  simp [operandsOf, h]

/-- The numbers from `first` on, `count` of them. -/
def numbers (first count : Nat) : List Int :=
  (List.range' first count).map Int.ofNat

theorem numbers_append (first count more : Nat) :
    numbers first count ++ numbers (first + count) more = numbers first (count + more) := by
  rw [numbers, numbers, numbers, ← List.map_append, List.range'_append_1]

/-- A statement stores the next slot, if it is a `let`. -/
theorem StmtCode.stores (h : StmtCode p s piece) (hlets : (Program.lets (p ++ [s])).length ≤ maxSlots) :
    operandsOf .store piece = numbers p.lets.length s.let?.toList.length := by
  rw [Program.lets_snoc, List.length_append] at hlets
  cases h with
  | @bindInt name e line code kind h =>
    have hlt : p.lets.length < maxSlots := hlets
    rw [operandsOf_append, operandsOf_eq_nil (h.opcode_ne rfl), List.nil_append,
      operandsOf_same, toInt_ofNat_of_lt_maxSlots hlt]
    rfl
  | bindStr name text pos line =>
    have hlt : p.lets.length < maxSlots := hlets
    rw [operandsOf_other (by decide), operandsOf_same, toInt_ofNat_of_lt_maxSlots hlt]
    rfl
  | print line latest =>
    rw [operandsOf_other (by decide),
      operandsOf_other (printOpcode_ne (by decide) (by decide) _)]
    rfl

/-- A statement pushes the next string, if it binds one. -/
theorem StmtCode.strings (h : StmtCode p s piece)
    (hstrings : (Program.stringLets (p ++ [s])).length ≤ maxSlots) :
    operandsOf .str piece = numbers p.stringLets.length s.stringLet?.toList.length := by
  rw [Program.stringLets_snoc, List.length_append] at hstrings
  cases h with
  | @bindInt name e line code kind h =>
    rw [operandsOf_append, operandsOf_eq_nil (h.opcode_ne rfl), List.nil_append,
      operandsOf_other (by decide), Expr.stringLet?_of_int kind]
    rfl
  | bindStr name text pos line =>
    have hlt : p.stringLets.length < maxSlots := hstrings
    rw [operandsOf_same, toInt_ofNat_of_lt_maxSlots hlt, operandsOf_other (by decide)]
    rfl
  | print line latest =>
    rw [operandsOf_other (by decide),
      operandsOf_other (printOpcode_ne (by decide) (by decide) _)]
    rfl

/-- The slots of a program are stored in order. -/
theorem ProgramCode.stores (h : ProgramCode p code) (hlets : p.lets.length ≤ maxSlots) :
    operandsOf .store code = numbers 0 p.lets.length := by
  induction h with
  | nil => rfl
  | @snoc p s code piece h hs ih =>
    have hpiece := hs.stores hlets
    rw [Program.lets_snoc, List.length_append] at hlets ⊢
    rw [operandsOf_append, ih (by omega), hpiece, ← numbers_append, Nat.zero_add]

/-- The strings of a program are pushed in order. -/
theorem ProgramCode.strings (h : ProgramCode p code) (hstrings : p.stringLets.length ≤ maxSlots) :
    operandsOf .str code = numbers 0 p.stringLets.length := by
  induction h with
  | nil => rfl
  | @snoc p s code piece h hs ih =>
    have hpiece := hs.strings hstrings
    rw [Program.stringLets_snoc, List.length_append] at hstrings ⊢
    rw [operandsOf_append, ih (by omega), hpiece, ← numbers_append, Nat.zero_add]

/-- Names with the numbers of the bindings that they stand for behind `p`: the names that are read,
and the slots that are loaded. -/
def Resolves (p : Program) (names : List Bytes) (slots : List Int) : Prop :=
  ∃ reads : List (Bytes × Nat), reads.map (·.1) = names ∧ (reads.map fun r => Int.ofNat r.2) = slots ∧
    ∀ r ∈ reads, ∃ e, LatestLet p r.1 r.2 e

theorem Resolves.nil (p : Program) : Resolves p [] [] :=
  ⟨[], rfl, rfl, nofun⟩

theorem Resolves.append {names names' : List Bytes} {slots slots' : List Int}
    (h : Resolves p names slots) (h' : Resolves p names' slots') :
    Resolves p (names ++ names') (slots ++ slots') := by
  obtain ⟨reads, rfl, rfl, hreads⟩ := h
  obtain ⟨reads', rfl, rfl, hreads'⟩ := h'
  exact ⟨reads ++ reads', List.map_append, List.map_append, List.forall_mem_append.2 ⟨hreads, hreads'⟩⟩

/-- One name that is read by one load. -/
theorem LatestLet.resolves {name : Bytes} {k : Nat} (h : LatestLet p name k e)
    (hlets : p.lets.length ≤ maxSlots) : Resolves p [name] [(Int32.ofNat k).toInt] := by
  have hlt : k < p.lets.length := (List.getElem?_eq_some_iff.1 h.bound).1
  rw [toInt_ofNat_of_lt_maxSlots (by omega)]
  refine ⟨[(name, k)], rfl, rfl, ?_⟩
  intro r hr
  obtain rfl := List.mem_singleton.1 hr
  exact ⟨e, h⟩

/-- An expression loads the slots of the names that it reads, from left to right. -/
theorem ExprCode.loads (h : ExprCode p line e code) (hlets : p.lets.length ≤ maxSlots) :
    Resolves p e.reads (operandsOf .load code) := by
  induction h with
  | int n pos => exact .nil p
  | var pos latest kind => exact latest.resolves hlets
  | neg pos h ih =>
    rw [operandsOf_append, operandsOf_other (by decide), operandsOf_nil, List.append_nil]
    exact ih
  | bin pos hl hr hop ihl ihr =>
    rw [operandsOf_append, operandsOf_append, operandsOf_other (Operator.opcode_arity hop).2.1,
      operandsOf_nil, List.append_nil]
    exact ihl.append ihr

theorem StmtCode.loads (h : StmtCode p s piece) (hlets : p.lets.length ≤ maxSlots) :
    Resolves p s.reads (operandsOf .load piece) := by
  cases h with
  | bindInt kind h =>
    rw [operandsOf_append, operandsOf_other (by decide), operandsOf_nil, List.append_nil]
    exact h.loads hlets
  | bindStr name text pos line => exact .nil p
  | print line latest =>
    rw [operandsOf_same, operandsOf_other (printOpcode_ne (by decide) (by decide) _)]
    exact latest.resolves hlets

end

/-! ## What stands next to an instruction -/

section

variable {p : Program} {s : Stmt} {code piece : List Instruction} {i : Instruction} {j k : Nat}

theorem getElem?_append_some {α : Type} {l : List α} {a : α} (h : l[j]? = some a) (more : List α) :
    (l ++ more)[j]? = some a := by
  rw [List.getElem?_append_left (List.getElem?_eq_some_iff.1 h).1, h]

theorem getElem?_length_add {α : Type} (l more : List α) (j : Nat) :
    (l ++ more)[l.length + j]? = more[j]? := by
  rw [List.getElem?_append_right (Nat.le_add_right _ _), Nat.add_sub_cancel_left]

/-- The instruction with index `j` stores the slot. -/
def StoresAt (code : List Instruction) (j : Nat) (slot : Int32) : Prop :=
  ∃ i, code[j]? = some i ∧ i.opcode = .store ∧ i.operand = slot

theorem StoresAt.append {slot : Int32} (h : StoresAt code j slot) (more : List Instruction) :
    StoresAt (code ++ more) j slot := by
  obtain ⟨i, hi, hstore⟩ := h
  exact ⟨i, getElem?_append_some hi more, hstore⟩

/-- A string is pushed by the instruction with index `j`. -/
def PushesStringAt (code : List Instruction) (j : Nat) : Prop :=
  ∃ i, code[j]? = some i ∧ i.opcode = .str

theorem PushesStringAt.append (h : PushesStringAt code j) (more : List Instruction) :
    PushesStringAt (code ++ more) j := by
  obtain ⟨i, hi, hstr⟩ := h
  exact ⟨i, getElem?_append_some hi more, hstr⟩

/-- Every binding has its store, which stands right behind the push of a string if it binds one. -/
theorem ProgramCode.exists_store (h : ProgramCode p code) {kind : Kind}
    (hk : p.letKind? k = some kind) :
    ∃ j, StoresAt code j (Int32.ofNat k) ∧
      (kind = .str → ∃ before, j = before + 1 ∧ PushesStringAt code before) := by
  induction h generalizing k kind with
  | nil => cases hk
  | @snoc p s code piece h hs ih =>
    rcases Nat.lt_or_ge k p.lets.length with hlt | hge
    · have hold : p.letKind? k = some kind := by
        rw [← hk, Program.letKind?, Program.letKind?, Program.lets_snoc, List.getElem?_append_left hlt]
      obtain ⟨j, hstore, hstring⟩ := ih hold
      refine ⟨j, hstore.append piece, fun hkind => ?_⟩
      obtain ⟨before, hj, hpush⟩ := hstring hkind
      exact ⟨before, hj, hpush.append piece⟩
    · -- The binding is that of the last statement.
      have hlt := Program.lt_of_letKind? hk
      rw [Program.lets_snoc, List.length_append] at hlt
      cases hs with
      | @bindInt name e line exprCode hkind h =>
        obtain rfl : k = p.lets.length := by
          change k < p.lets.length + 1 at hlt
          omega
        rw [(LatestLet.new p name e line).letKind?, hkind] at hk
        cases hk
        refine ⟨code.length + exprCode.length,
          ⟨⟨.store, Int32.ofNat p.lets.length, line⟩, ?_, rfl, rfl⟩, nofun⟩
        rw [getElem?_length_add, List.getElem?_concat_length]
      | bindStr name text pos line =>
        obtain rfl : k = p.lets.length := by
          change k < p.lets.length + 1 at hlt
          omega
        refine ⟨code.length + 1, ⟨⟨.store, Int32.ofNat p.lets.length, line⟩,
          getElem?_length_add _ _ 1, rfl, rfl⟩, fun _ => ⟨code.length, rfl, ?_⟩⟩
        exact ⟨⟨.str, Int32.ofNat p.stringLets.length, line⟩, getElem?_length_add _ _ 0, rfl⟩
      | print line latest =>
        change k < p.lets.length + 0 at hlt
        omega

/-- What stands around the instruction `i` with index `j`, in the code of `p`.
* A load comes behind the store of its slot, and if that is the slot of a string, right before the
  instruction that prints a string.
* A string is pushed right before the slot of a string is stored, and printed right behind a load of
  such a slot.
* Nothing halts. -/
def FitsAt (p : Program) (code : List Instruction) (j : Nat) (i : Instruction) : Prop :=
  match i.opcode with
  | .load => ∃ k kind, i.operand = Int32.ofNat k ∧ p.letKind? k = some kind ∧
      (∃ before < j, StoresAt code before i.operand) ∧
      (kind = .str → ∃ print, code[j + 1]? = some print ∧ print.opcode = .printStr)
  | .str => ∃ k, StoresAt code (j + 1) (Int32.ofNat k) ∧ p.letKind? k = some .str
  | .printStr => ∃ before load k, j = before + 1 ∧ code[before]? = some load ∧
      load.opcode = .load ∧ load.operand = Int32.ofNat k ∧ p.letKind? k = some .str
  | .halt => False
  | _ => True

theorem FitsAt.append (h : FitsAt p code j i) (s : Stmt) (piece : List Instruction) :
    FitsAt (p ++ [s]) (code ++ piece) j i := by
  rw [FitsAt] at h ⊢
  cases hop : i.opcode with
  | load =>
    rw [hop] at h
    obtain ⟨k, kind, hoperand, hkind, ⟨before, hlt, hstore⟩, hnext⟩ := h
    refine ⟨k, kind, hoperand, Program.letKind?_snoc hkind s, ⟨before, hlt, hstore.append piece⟩, ?_⟩
    intro hstr
    obtain ⟨print, hprint, hopcode⟩ := hnext hstr
    exact ⟨print, getElem?_append_some hprint piece, hopcode⟩
  | str =>
    rw [hop] at h
    obtain ⟨k, hstore, hkind⟩ := h
    exact ⟨k, hstore.append piece, Program.letKind?_snoc hkind s⟩
  | printStr =>
    rw [hop] at h
    obtain ⟨before, load, k, hj, hload, hopcode, hoperand, hkind⟩ := h
    exact ⟨before, load, k, hj, getElem?_append_some hload piece, hopcode, hoperand,
      Program.letKind?_snoc hkind s⟩
  | halt =>
    rw [hop] at h
    exact h
  | _ => trivial

/-- The instructions of a statement fit in behind the statements before it. -/
theorem StmtCode.fitsAt (hs : StmtCode p s piece) (h : ProgramCode p code) (hi : piece[j]? = some i) :
    FitsAt (p ++ [s]) (code ++ piece) (code.length + j) i := by
  -- A slot that is loaded was stored in the code before.
  have hstored : ∀ {k kind}, p.letKind? k = some kind →
      ∃ before < code.length + j, StoresAt (code ++ piece) before (Int32.ofNat k) := by
    intro k kind hkind
    obtain ⟨before, hstore, -⟩ := h.exists_store hkind
    have hlt : before < code.length := by
      obtain ⟨_, hi, -⟩ := hstore
      exact (List.getElem?_eq_some_iff.1 hi).1
    exact ⟨before, by omega, hstore.append piece⟩
  cases hs with
  | bindInt kind hexpr =>
    rcases List.mem_append.1 (List.mem_of_getElem? hi) with hmem | hmem
    · obtain ⟨hcompute, hloads⟩ := hexpr.computes i hmem
      rw [FitsAt]
      cases hop : i.opcode with
      | load =>
        obtain ⟨k, hoperand, hkind⟩ := hloads hop
        refine ⟨k, .int, hoperand, Program.letKind?_snoc hkind _, ?_, by simp⟩
        rw [hoperand]
        exact hstored hkind
      | str | printStr | halt =>
        rw [hop] at hcompute
        cases hcompute
      | _ => trivial
    · rw [List.mem_singleton.1 hmem]
      trivial
  | bindStr name text pos line =>
    match j, hi with
    | 0, rfl =>
      refine ⟨p.lets.length, ⟨_, getElem?_length_add _ _ 1, rfl, rfl⟩, ?_⟩
      exact (LatestLet.new p name (.str text pos) line).letKind?
    | 1, rfl => trivial
  | @print name k e line latest =>
    have hkind := latest.letKind?
    have hkept := Program.letKind?_snoc hkind (.print name line)
    match j, hi with
    | 0, rfl =>
      refine ⟨k, e.kind, rfl, hkept, hstored hkind, fun hstr => ?_⟩
      exact ⟨_, getElem?_length_add _ _ 1, by rw [hstr]; rfl⟩
    | 1, rfl =>
      cases hprinted : e.kind with
      | int => trivial
      | str =>
        rw [hprinted] at hkept
        exact ⟨code.length, _, k, rfl, getElem?_length_add _ _ 0, rfl, rfl, hkept⟩

/-- Every instruction of a program fits in. -/
theorem ProgramCode.fitsAt (h : ProgramCode p code) (hi : code[j]? = some i) :
    FitsAt p code j i := by
  induction h generalizing j i with
  | nil => cases hi
  | @snoc p s code piece h hs ih =>
    rcases Nat.lt_or_ge j code.length with hlt | hge
    · rw [List.getElem?_append_left hlt] at hi
      exact (ih hi).append s piece
    · rw [List.getElem?_append_right hge] at hi
      have hnew := hs.fitsAt h hi
      rwa [Nat.add_sub_cancel' hge] at hnew

end

/-! ## The height of the stack -/

/-- By how much code changes the height of the stack. -/
def height (code : List Instruction) : Int :=
  code.foldl (fun height i => height + i.opcode.effect) 0

/-- Every instruction finds the values that it takes, put there by the instructions before it. -/
def Supported (code : List Instruction) : Prop :=
  ∀ (j : Nat) (i : Instruction), code[j]? = some i → (i.opcode.pops : Int) ≤ height (code.take j)

section

variable {p : Program} {s : Stmt} {line : Int} {e : Expr} {code more piece : List Instruction}

theorem height_append (code more : List Instruction) :
    height (code ++ more) = height code + height more := by
  have hfrom : ∀ (start : Int) (more : List Instruction),
      more.foldl (fun height i => height + i.opcode.effect) start = start + height more := by
    intro start more
    induction more generalizing start with
    | nil => simp [height]
    | cons i more ih =>
      have hcons : height (i :: more) = 0 + i.opcode.effect + height more := ih _
      rw [List.foldl_cons, ih, hcons]
      omega
  rw [height, List.foldl_append, hfrom]
  rfl

theorem height_singleton (i : Instruction) : height [i] = i.opcode.effect := by
  simp [height]

theorem Supported.append (h : Supported code) (hmore : Supported more) (hheight : 0 ≤ height code) :
    Supported (code ++ more) := by
  intro j i hi
  rcases Nat.lt_or_ge j code.length with hlt | hge
  · rw [List.getElem?_append_left hlt] at hi
    rw [List.take_append_of_le_length (Nat.le_of_lt hlt)]
    exact h j i hi
  · rw [List.getElem?_append_right hge] at hi
    have hpops := hmore _ i hi
    rw [List.take_append, List.take_of_length_le hge, height_append]
    omega

theorem Supported.snoc {i : Instruction} (h : Supported code)
    (hi : (i.opcode.pops : Int) ≤ height code) : Supported (code ++ [i]) := by
  intro j i' hj
  rcases Nat.lt_or_ge j code.length with hlt | hge
  · rw [List.getElem?_append_left hlt] at hj
    rw [List.take_append_of_le_length (Nat.le_of_lt hlt)]
    exact h j i' hj
  · have hlt := (List.getElem?_eq_some_iff.1 hj).1
    rw [List.length_append, List.length_singleton] at hlt
    obtain rfl : j = code.length := by omega
    rw [List.getElem?_concat_length] at hj
    cases hj
    rw [List.take_left]
    exact hi

theorem Supported.nil : Supported [] := by
  intro j i hi
  cases hi

/-- Where every instruction finds its values, the height is negative nowhere before the end. -/
theorem Supported.height_nonneg (h : Supported code) (hend : 0 ≤ height code) (j : Nat) :
    0 ≤ height (code.take j) := by
  rcases Nat.lt_or_ge j code.length with hlt | hge
  · have hpops := h j _ (List.getElem?_eq_getElem hlt)
    exact Int.le_trans (Int.natCast_nonneg _) hpops
  · rwa [List.take_of_length_le hge]

/-- An expression leaves one value. -/
theorem ExprCode.supported (h : ExprCode p line e code) : Supported code ∧ height code = 1 := by
  induction h with
  | int n pos => exact ⟨Supported.nil.snoc (Int.le_refl 0), rfl⟩
  | var pos latest kind => exact ⟨Supported.nil.snoc (Int.le_refl 0), rfl⟩
  | neg pos h ih =>
    obtain ⟨hsupported, hheight⟩ := ih
    refine ⟨hsupported.snoc ?_, ?_⟩
    · rw [hheight]
      exact Int.le_refl 1
    · rw [height_append, hheight]
      rfl
  | @bin op opcode left right leftCode rightCode pos hl hr hop ihl ihr =>
    obtain ⟨hleft, hheightl⟩ := ihl
    obtain ⟨hright, hheightr⟩ := ihr
    obtain ⟨-, -, hpops, hpushes⟩ := Operator.opcode_arity hop
    have hboth : height (leftCode ++ rightCode) = 2 := by
      rw [height_append, hheightl, hheightr]
      rfl
    refine ⟨(hleft.append hright (by omega)).snoc ?_, ?_⟩
    · rw [hboth, hpops]
      exact Int.le_refl 2
    · rw [height_append, hboth, height_singleton, Opcode.effect, hpops, hpushes]
      rfl

/-- A statement leaves nothing. -/
theorem StmtCode.supported (h : StmtCode p s piece) : Supported piece ∧ height piece = 0 := by
  cases h with
  | bindInt kind h =>
    obtain ⟨hsupported, hheight⟩ := h.supported
    refine ⟨hsupported.snoc ?_, ?_⟩
    · rw [hheight]
      exact Int.le_refl 1
    · rw [height_append, hheight]
      rfl
  | bindStr name text pos line =>
    exact ⟨(Supported.nil.snoc (i := ⟨.str, _, line⟩) (Int.le_refl 0)).snoc (Int.le_refl 1), rfl⟩
  | @print name k e line latest =>
    have hload : Supported [⟨.load, Int32.ofNat k, line⟩] := Supported.nil.snoc (Int.le_refl 0)
    cases e.kind with
    | int => exact ⟨hload.snoc (Int.le_refl 1), rfl⟩
    | str => exact ⟨hload.snoc (Int.le_refl 1), rfl⟩

/-- Between two statements the stack is empty. -/
theorem ProgramCode.supported (h : ProgramCode p code) : Supported code ∧ height code = 0 := by
  induction h with
  | nil => exact ⟨.nil, rfl⟩
  | snoc h hs ih =>
    obtain ⟨hsupported, hheight⟩ := ih
    obtain ⟨hpiece, hheight'⟩ := hs.supported
    refine ⟨hsupported.append hpiece (by omega), ?_⟩
    rw [height_append, hheight, hheight']
    rfl

end

/-! ## Chunks -/

/-- The instruction at the end of every chunk. -/
def finalHalt : Instruction := ⟨.halt, 0, 0⟩

/-- The code that is generated for a program, without the `halt` behind it. -/
def Program.HasCode (p : Program) (code : List Instruction) : Prop :=
  ∃ c, p.chunk = .ok c ∧ c.code = code ++ [finalHalt]

/-- The slot is stored right behind the push of a string. -/
def Chunk.StoresString (c : Chunk) (slot : Int32) : Prop :=
  ∃ j, PushesStringAt c.code j ∧ StoresAt c.code (j + 1) slot

/-- The discipline of the code of a program. -/
structure Chunk.Disciplined (c : Chunk) (p : Program) : Prop where
  /-- There is a slot for each `let`, and the slots are stored in order, each once. -/
  slots : c.slots = p.lets.length
  stores : operandsOf .store c.code = numbers 0 p.lets.length
  /-- The strings are the literals that names are bound to, and are pushed in order, each once. -/
  strings : c.strings = p.stringLets
  pushes : operandsOf .str c.code = numbers 0 c.strings.length
  /-- A slot is loaded behind its store. -/
  loads : ∀ (j : Nat) (i : Instruction), c.code[j]? = some i → i.opcode = .load →
    ∃ before < j, StoresAt c.code before i.operand
  /-- A slot that a string is stored in is loaded only to be printed as a string, -/
  stringLoads : ∀ (j : Nat) (i : Instruction), c.code[j]? = some i → i.opcode = .load →
    c.StoresString i.operand → ∃ print, c.code[j + 1]? = some print ∧ print.opcode = .printStr
  /-- and nothing else is printed as a string. -/
  stringPrints : ∀ (j : Nat) (i : Instruction), c.code[j]? = some i → i.opcode = .printStr →
    ∃ before load, j = before + 1 ∧ c.code[before]? = some load ∧ load.opcode = .load ∧
      c.StoresString load.operand
  /-- The stack has the values that an instruction takes, and never fewer than none. -/
  supported : ∀ (j : Nat) (i : Instruction), c.code[j]? = some i → (i.opcode.pops : Int) ≤ c.depth j
  depth_nonneg : ∀ j : Nat, 0 ≤ c.depth j
  /-- The code of a statement begins and ends with an empty stack, and loads, from left to right, the
  slots of the latest bindings of the names that the statement reads. -/
  statements : ∀ (before : Program) (s : Stmt) (after : Program), p = before ++ s :: after →
    ∃ first piece rest, c.code = first ++ piece ++ rest ∧ before.HasCode first ∧
      Program.HasCode (before ++ [s]) (first ++ piece) ∧
      c.depth first.length = 0 ∧ c.depth (first ++ piece).length = 0 ∧
      Resolves before s.reads (operandsOf .load piece)
  /-- The code halts at its end and nowhere else. -/
  halts : ∃ body, c.code = body ++ [finalHalt] ∧ ∀ i ∈ body, i.opcode ≠ .halt

section

variable {p : Program} {c : Chunk} {code : List Instruction} {i : Instruction} {j : Nat}

/-- All instructions but the last are those of the statements. -/
theorem getElem?_of_ne_halt (hi : (code ++ [finalHalt])[j]? = some i) (hop : i.opcode ≠ .halt) :
    code[j]? = some i := by
  rcases Nat.lt_or_ge j code.length with hlt | hge
  · rwa [List.getElem?_append_left hlt] at hi
  · rw [List.getElem?_append_right hge] at hi
    rw [List.mem_singleton.1 (List.mem_of_getElem? hi)] at hop
    exact absurd rfl hop

/-- Bindings that share a slot are the same. -/
theorem letNumber_eq {k k' : Nat} {kind kind' : Kind} (hlets : p.lets.length ≤ maxSlots)
    (hk : p.letKind? k = some kind) (hk' : p.letKind? k' = some kind')
    (h : Int32.ofNat k = Int32.ofNat k') : k = k' := by
  have hlt := Program.lt_of_letKind? hk
  have hlt' := Program.lt_of_letKind? hk'
  have hint := congrArg Int32.toInt h
  rw [toInt_ofNat_of_lt_maxSlots (by omega), toInt_ofNat_of_lt_maxSlots (by omega)] at hint
  omega

/-- A slot that a string is stored in is that of a string. -/
theorem ProgramCode.letKind?_of_storesString (h : ProgramCode p code)
    (hcode : c.code = code ++ [finalHalt]) {slot : Int32} (hslot : c.StoresString slot) :
    ∃ k, slot = Int32.ofNat k ∧ p.letKind? k = some .str := by
  obtain ⟨j, ⟨push, hpush, hstr⟩, store, hstore, -, rfl⟩ := hslot
  rw [hcode] at hpush hstore
  have hpush' := getElem?_of_ne_halt hpush (by rw [hstr]; decide)
  have hfits := h.fitsAt hpush'
  rw [FitsAt, hstr] at hfits
  obtain ⟨k, ⟨store', hstore', -, hk⟩, hkind⟩ := hfits
  rw [getElem?_append_some hstore' [finalHalt]] at hstore
  cases hstore
  exact ⟨k, hk, hkind⟩

/-- The slot of a string has one stored in it. -/
theorem ProgramCode.storesString (h : ProgramCode p code) (hcode : c.code = code ++ [finalHalt])
    {k : Nat} (hk : p.letKind? k = some .str) : c.StoresString (Int32.ofNat k) := by
  obtain ⟨_, hstore, hstring⟩ := h.exists_store hk
  obtain ⟨before, rfl, hpush⟩ := hstring rfl
  rw [Chunk.StoresString, hcode]
  exact ⟨before, hpush.append _, hstore.append _⟩

theorem Chunk.depth_length {rest : List Instruction} (hcode : c.code = code ++ rest) :
    c.depth code.length = height code := by
  rw [Chunk.depth, hcode, List.take_left]
  rfl

/-- A chunk is made of the state behind all statements. -/
theorem walk_of_chunk (h : p.chunk = .ok c) :
    ∃ g, walk CodeState.stmt 0 {} p = (g, none) ∧
      c = { g.chunk with code := g.chunk.code ++ [finalHalt] } := by
  unfold Program.chunk at h
  split at h
  next g hwalk => exact ⟨g, hwalk, (Except.ok.inj h).symm⟩
  next => cases h

theorem hasCode_of_walk {g : CodeState} (h : walk CodeState.stmt 0 {} p = (g, none)) :
    p.HasCode g.chunk.code := by
  refine ⟨{ g.chunk with code := g.chunk.code ++ [finalHalt] }, ?_, rfl⟩
  rw [Program.chunk, h]
  rfl

/-- The code of a statement in that of the program around it. -/
theorem statement_of_walk {g : CodeState} {before after : Program} {s : Stmt}
    (h : walk CodeState.stmt 0 {} (before ++ s :: after) = (g, none))
    (hlets : before.lets.length ≤ maxSlots) :
    let c : Chunk := { g.chunk with code := g.chunk.code ++ [finalHalt] }
    ∃ first piece rest, c.code = first ++ piece ++ rest ∧ before.HasCode first ∧
      Program.HasCode (before ++ [s]) (first ++ piece) ∧
      c.depth first.length = 0 ∧ c.depth (first ++ piece).length = 0 ∧
      Resolves before s.reads (operandsOf .load piece) := by
  intro c
  obtain ⟨g₁, hbefore, hafter⟩ := walk_append_eq_none h
  obtain ⟨g₂, hs, hrest⟩ := walk_cons_eq_none hafter
  have hg₁ : g₁.After before := CodeState.After.start.walk hbefore
  obtain ⟨-, piece, hpiece, hform⟩ := hg₁.stmt hs
  obtain ⟨⟨rest, hgrown⟩, -, -⟩ := CodeState.walk_grows hrest
  have hsnoc : walk CodeState.stmt 0 {} (before ++ [s]) = (g₂, none) := by
    rw [walk_append hbefore, walk_cons_ok hs]
    rfl
  have hcode : c.code = g₁.chunk.code ++ piece ++ (rest ++ [finalHalt]) := by
    rw [← hpiece, ← List.append_assoc, hgrown]
  refine ⟨g₁.chunk.code, piece, rest ++ [finalHalt], hcode, hasCode_of_walk hbefore, ?_, ?_, ?_,
    hform.loads hlets⟩
  · rw [← hpiece]
    exact hasCode_of_walk hsnoc
  · rw [List.append_assoc] at hcode
    rw [Chunk.depth_length hcode]
    exact hg₁.code.supported.2
  · rw [Chunk.depth_length hcode]
    exact (hg₁.code.snoc hform).supported.2

end

/-- The code of every program for which there is any, as long as its words can number the slots. -/
theorem Program.chunk_disciplined {p : Program} {c : Chunk} (h : p.chunk = .ok c)
    (hlets : p.lets.length ≤ maxSlots) : c.Disciplined p := by
  obtain ⟨g, hwalk, rfl⟩ := walk_of_chunk h
  have hafter : g.After p := CodeState.After.start.walk hwalk
  have hstrings : p.stringLets.length ≤ maxSlots := Nat.le_trans p.stringLets_length_le hlets
  have hform := hafter.code
  obtain ⟨hsupported, hheight⟩ := hform.supported
  have hall : Supported (g.chunk.code ++ [finalHalt]) := hsupported.snoc (by rw [hheight]; decide)
  constructor
  case slots => exact hafter.slots
  case stores =>
    rw [operandsOf_append, hform.stores hlets]
    exact List.append_nil _
  case strings => exact hafter.strings
  case pushes =>
    rw [operandsOf_append, hform.strings hstrings, hafter.strings]
    exact List.append_nil _
  case loads =>
    intro j i hi hop
    have hfits := hform.fitsAt (getElem?_of_ne_halt hi (by rw [hop]; decide))
    rw [FitsAt, hop] at hfits
    obtain ⟨_, _, -, -, ⟨before, hlt, hstore⟩, -⟩ := hfits
    exact ⟨before, hlt, hstore.append _⟩
  case stringLoads =>
    intro j i hi hop hslot
    have hfits := hform.fitsAt (getElem?_of_ne_halt hi (by rw [hop]; decide))
    rw [FitsAt, hop] at hfits
    obtain ⟨k, kind, hoperand, hkind, -, hnext⟩ := hfits
    obtain ⟨k', hoperand', hkind'⟩ := hform.letKind?_of_storesString rfl hslot
    obtain rfl : k = k' := letNumber_eq hlets hkind hkind' (hoperand.symm.trans hoperand')
    rw [hkind'] at hkind
    cases hkind
    obtain ⟨print, hprint, hopcode⟩ := hnext rfl
    exact ⟨print, getElem?_append_some hprint _, hopcode⟩
  case stringPrints =>
    intro j i hi hop
    have hfits := hform.fitsAt (getElem?_of_ne_halt hi (by rw [hop]; decide))
    rw [FitsAt, hop] at hfits
    obtain ⟨before, load, k, hj, hload, hopcode, hoperand, hkind⟩ := hfits
    refine ⟨before, load, hj, getElem?_append_some hload _, hopcode, ?_⟩
    rw [hoperand]
    exact hform.storesString rfl hkind
  case supported => exact hall
  case depth_nonneg =>
    refine hall.height_nonneg ?_
    rw [height_append, hheight]
    decide
  case statements =>
    rintro before s after rfl
    refine statement_of_walk hwalk ?_
    rw [Program.lets, List.filterMap_append, List.length_append] at hlets
    exact Nat.le_of_add_right_le hlets
  case halts =>
    refine ⟨_, rfl, ?_⟩
    intro i hi hop
    obtain ⟨j, hj⟩ := List.getElem?_of_mem hi
    have hfits := hform.fitsAt hj
    rw [FitsAt, hop] at hfits
    exact hfits

theorem Program.chunk_disciplined_rebinding :
    ∃ c, Program.chunk rebinding = .ok c ∧ (Program.lets rebinding).length ≤ maxSlots ∧
      c.Disciplined rebinding :=
  ⟨_, rfl, by decide, Program.chunk_disciplined rfl (by decide)⟩

end LetPrint

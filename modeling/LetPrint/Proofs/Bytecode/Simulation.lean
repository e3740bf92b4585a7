import LetPrint.Proofs.Backend
import LetPrint.Proofs.Passes

/-!
# Chunks run like their programs

Stack code and direct execution, compared for every program that code can be generated for and for
every sink, limited or not.

* `exprCode_steps`: the code of an expression pushes the value of the expression;
* `Simulates`: what holds of machine and interpreter between two statements; `Simulates.bind` and
  `Simulates.print` carry it over one statement, `Simulates.walk` over a program;
* `RefusedAt`: both are refused the same print;
* `Backend.vm_agrees_with_interp`: the two backends give the same result and the same output.

A chunk names its slots by 32-bit words, so a program with more than 2 ^ 31 bindings is out of reach
of its code, and of these theorems.
-/

namespace LetPrint

open Text

/-! ## Running straight-line code -/

namespace Machine

variable {strings : List Bytes} {m m' m'' : Machine} {code rest : List Instruction}

/-- Run instructions one after the other up to the first that cannot run. -/
def steps (strings : List Bytes) (m : Machine) (code : List Instruction) :
    Except StepFault Machine :=
  code.foldlM (step strings) m

@[simp] theorem steps_nil : m.steps strings [] = .ok m := rfl

@[simp] theorem steps_cons (i : Instruction) :
    m.steps strings (i :: code) = (m.step strings i >>= fun m' => m'.steps strings code) := by
  simp [steps]

theorem steps_append (h : m.steps strings code = .ok m') :
    m.steps strings (code ++ rest) = m'.steps strings rest := by
  unfold steps at h ⊢
  rw [List.foldlM_append, h]
  rfl

/-- Code that does not halt and can be run is run, and the machine goes on behind it. -/
theorem run_append (hhalt : ∀ i ∈ code, i.opcode ≠ .halt) (h : m.steps strings code = .ok m')
    (pc : Nat) :
    run strings pc m (code ++ rest) = run strings (pc + code.length) m' rest := by
  induction code generalizing m pc with
  | nil =>
    cases h
    rfl
  | cons i code ih =>
    rw [steps_cons, bind_eq_ok] at h
    obtain ⟨m₁, hstep, hsteps⟩ := h
    have hi : i.opcode ≠ .halt := hhalt i List.mem_cons_self
    rw [List.cons_append, run, if_neg hi, hstep]
    simp only
    rw [ih (fun j hj => hhalt j (List.mem_cons_of_mem i hj)) hsteps]
    simp only [List.length_cons]
    congr 1
    omega

end Machine

/-- How many slots and strings the words of an instruction can name: 2 ^ 31. -/
def maxSlots : Nat := Nat.pow 2 31

theorem toInt_ofNat_of_lt_maxSlots {k : Nat} (hk : k < maxSlots) :
    (Int32.ofNat k).toInt = k :=
  Int32.toInt_ofNat_of_lt hk

/-- A word that holds a small number leads to the element with that index. -/
theorem atWord?_ofNat {α : Type} {items : List α} {k : Nat} (hk : k < maxSlots) :
    atWord? items (Int32.ofNat k) = items[k]? := by
  have hint : (Int32.ofNat k).toInt = k := toInt_ofNat_of_lt_maxSlots hk
  have hnonneg : ¬ (k : Int) < 0 := by omega
  simp [atWord?, hint, hnonneg]

/-- Opcodes that write to the output. -/
def Opcode.isPrint : Opcode → Bool
  | printInt | printStr => true
  | _ => false

theorem Opcode.ne_halt_of_isPrint {op : Opcode} (h : op.isPrint = true) : op ≠ .halt := by
  intro hhalt
  rw [hhalt] at h
  cases h

/-- Code that neither prints nor halts. -/
def Quiet (code : List Instruction) : Prop :=
  ∀ i ∈ code, i.opcode.isPrint = false ∧ i.opcode ≠ .halt

namespace Quiet

variable {code rest : List Instruction}

theorem append (hcode : Quiet code) (hrest : Quiet rest) : Quiet (code ++ rest) := by
  intro i hi
  rcases List.mem_append.1 hi with hi | hi
  · exact hcode i hi
  · exact hrest i hi

theorem single {i : Instruction} (hprint : i.opcode.isPrint = false) (hhalt : i.opcode ≠ .halt) :
    Quiet [i] := by
  intro j hj
  rw [List.mem_singleton.1 hj]
  exact ⟨hprint, hhalt⟩

end Quiet

/-! ## What the slots hold -/

/-- A word stands for a value: an integer for itself, a string for its place in the table. -/
def Represents (strings : List Bytes) (n : Int32) : Value → Prop
  | .int k => n = k
  | .str text => atWord? strings n = some text

/-- The slot of a binding is among the first `used` ones and holds the value of the binding. -/
structure SlotHolds (strings : List Bytes) (slots : List Int32) (used : Nat) (info : SlotInfo)
    (v : Value) : Prop where
  kind : info.kind = v.kind
  used : info.slot < used
  word : ∃ n, slots[info.slot]? = some n ∧ Represents strings n v

/-- The names of a scope stand for slots that hold their values. -/
def ScopeHolds (strings : List Bytes) (slots : List Int32) (used : Nat) (scope : Scope SlotInfo)
    (values : Values) : Prop :=
  scope.Related (SlotHolds strings slots used) values

section

variable {strings : List Bytes} {slots : List Int32} {used : Nat} {scope : Scope SlotInfo}
  {values : Values}

/-- An operand of the code is the word that the interpreter reads. -/
theorem ScopeHolds.operand {name : Bytes} {info : SlotInfo}
    (h : ScopeHolds strings slots used scope values)
    (hinfo : scope.operand SlotInfo.kind name = .ok info) :
    info.slot < used ∧ ∃ n, slots[info.slot]? = some n ∧ values.operandWord name = .ok n := by
  obtain ⟨n, hword, hholds⟩ :=
    Values.operand_of_related h (fun _ _ hholds => hholds.kind) hinfo
  obtain ⟨k, hslot, hk⟩ := hholds.word
  rw [Represents] at hk
  exact ⟨hholds.used, n, by rw [hslot, hk], hword⟩

/-- The opcode of an operator replaces its operands by the result. -/
theorem opcode_step (strings : List Bytes) {op : Operator} {opcode : Opcode}
    (hop : op.opcode = .ok opcode) (a b : Int32) :
    opcode.isPrint = false ∧ opcode ≠ .halt ∧ ∃ n, op.apply a b = .ok n ∧
      ∀ (m : Machine) (line : Int),
        ((m.push a).push b).step strings ⟨opcode, 0, line⟩ = .ok (m.push n) := by
  cases op with
  | unknown => cases hop
  | _ =>
    cases hop
    exact ⟨rfl, by simp, _, rfl, fun m line => rfl⟩

/-- The code of an integer expression pushes the value of the expression on whatever is on the
stack, and does nothing else. -/
theorem exprCode_steps {line : Int} {e : Expr} {code : List Instruction}
    (hcode : CodeState.exprCode scope line e = .ok code)
    (hscope : ScopeHolds strings slots used scope values) (hused : used ≤ maxSlots) :
    Quiet code ∧ ∃ n, values.evaluate e = .ok n ∧
      ∀ m : Machine, m.slots = slots → m.steps strings code = .ok (m.push n) := by
  induction e generalizing code with
  | int n pos =>
    cases hcode
    exact ⟨.single rfl (by simp), n, rfl, fun m _ => rfl⟩
  | var name pos =>
    rw [CodeState.exprCode, bind_eq_ok] at hcode
    obtain ⟨info, hinfo, hcode⟩ := hcode
    cases hcode
    obtain ⟨hlt, n, hslot, hword⟩ := hscope.operand hinfo
    refine ⟨.single rfl (by simp), n, hword, ?_⟩
    intro m hm
    have hload : atWord? m.slots (Int32.ofNat info.slot) = some n := by
      rw [atWord?_ofNat (by omega), hm, hslot]
    simp [Machine.step, hload, bind, Except.bind]
  | str text pos => cases hcode
  | missing => cases hcode
  | neg operand pos ih =>
    rw [CodeState.exprCode, bind_eq_ok] at hcode
    obtain ⟨inner, hinner, hcode⟩ := hcode
    cases hcode
    obtain ⟨hquiet, n, heval, hsteps⟩ := ih hinner
    refine ⟨hquiet.append (.single rfl (by simp)), -n, ?_, ?_⟩
    · rw [Values.evaluate, heval]
      rfl
    · intro m hm
      rw [Machine.steps_append (hsteps m hm)]
      rfl
  | bin op left right pos ihl ihr =>
    rw [CodeState.exprCode, bind_eq_ok] at hcode
    obtain ⟨leftCode, hleft, hcode⟩ := hcode
    rw [bind_eq_ok] at hcode
    obtain ⟨rightCode, hright, hcode⟩ := hcode
    rw [bind_eq_ok] at hcode
    obtain ⟨opcode, hop, hcode⟩ := hcode
    cases hcode
    obtain ⟨hquietl, a, hevall, hstepsl⟩ := ihl hleft
    obtain ⟨hquietr, b, hevalr, hstepsr⟩ := ihr hright
    obtain ⟨hprint, hhalt, n, happly, hstep⟩ := opcode_step strings hop a b
    refine ⟨(hquietl.append hquietr).append (.single hprint hhalt), n, ?_, ?_⟩
    · rw [Values.evaluate, hevall, hevalr]
      exact happly
    · intro m hm
      rw [List.append_assoc, Machine.steps_append (hstepsl m hm),
        Machine.steps_append (hstepsr (m.push a) hm)]
      simp [hstep, bind, Except.bind]

/-- A new binding gets the first slot that is not used yet, so it changes what no other name
stands for. -/
theorem ScopeHolds.bind {name : Bytes} {kind : Kind} {n : Int32} {v : Value}
    (h : ScopeHolds strings slots used scope values) (hlen : used < slots.length)
    (hkind : kind = v.kind) (hword : Represents strings n v) :
    ScopeHolds strings (slots.set used n) (used + 1) (scope.bind name ⟨used, kind⟩)
      (values.bind name v) := by
  have hmono : ∀ info v, SlotHolds strings slots used info v →
      SlotHolds strings (slots.set used n) (used + 1) info v := by
    intro info v hholds
    obtain ⟨k, hslot, hrep⟩ := hholds.word
    refine ⟨hholds.kind, Nat.lt_succ_of_lt hholds.used, k, ?_, hrep⟩
    rw [List.getElem?_set_ne (Nat.ne_of_gt hholds.used)]
    exact hslot
  refine (Scope.Related.mono h hmono).bind ⟨hkind, by simp, n, ?_, hword⟩
  exact List.getElem?_set_self hlen

/-- What may be bound in the code may be bound in the interpreter. -/
theorem ScopeHolds.allow {name : Bytes} {new : Kind}
    (h : ScopeHolds strings slots used scope values)
    (hallow : scope.allow SlotInfo.kind name new = .ok ()) :
    values.allow Value.kind name new = .ok () :=
  Scope.Related.allow h (fun _ _ hholds => hholds.kind) hallow

end

/-! ## Right-hand sides -/

/-- A right-hand side adds at most one string. -/
theorem CodeState.valueCode_length {g : CodeState} {line : Int} {e : Expr}
    {code : List Instruction} {new : List Bytes} (h : g.valueCode line e = .ok (code, new)) :
    new.length ≤ 1 := by
  cases hkind : e.kind with
  | int =>
    rw [valueCode_int hkind, map_eq_ok] at h
    obtain ⟨code', -, heq⟩ := h
    cases heq
    simp
  | str =>
    cases e with
    | str text pos =>
      cases h
      simp
    | _ => cases hkind

/-- The code of a right-hand side pushes a word that stands for its value. -/
theorem valueCode_steps {strings new : List Bytes} {slots : List Int32} {used : Nat}
    {g : CodeState} {values : Values} {line : Int} {e : Expr} {code : List Instruction}
    (hcode : g.valueCode line e = .ok (code, new))
    (hscope : ScopeHolds strings slots used g.scope values) (hused : used ≤ maxSlots)
    (hnew : g.chunk.strings ++ new <+: strings) (hlen : g.chunk.strings.length < maxSlots) :
    Quiet code ∧ ∃ v n, values.evaluateValue e = .ok v ∧ v.kind = e.kind ∧
      Represents strings n v ∧
      ∀ m : Machine, m.slots = slots → m.steps strings code = .ok (m.push n) := by
  cases hkind : e.kind with
  | int =>
    rw [CodeState.valueCode_int hkind, map_eq_ok] at hcode
    obtain ⟨code', hcode, heq⟩ := hcode
    cases heq
    obtain ⟨hquiet, n, heval, hsteps⟩ := exprCode_steps hcode hscope hused
    refine ⟨hquiet, .int n, n, ?_, rfl, rfl, hsteps⟩
    rw [Values.evaluateValue_int hkind, heval]
    rfl
  | str =>
    cases e with
    | str text pos =>
      cases hcode
      refine ⟨.single rfl (by simp), .str text, _, rfl, rfl, ?_, fun m _ => rfl⟩
      obtain ⟨later, rfl⟩ := hnew
      rw [Represents, atWord?_ofNat hlen]
      simp
    | _ => cases hkind

/-! ## Statements -/

namespace Stmt

/-- Whether a statement is a `let`. -/
def isLet : Stmt → Bool
  | bind _ _ _ => true
  | _ => false

/-- Whether a statement is a `print`. -/
def isPrint : Stmt → Bool
  | print _ _ => true
  | _ => false

end Stmt

namespace CodeState

variable {g g' : CodeState} {name : Bytes}

/-- What the code of a `let` adds to a chunk. -/
theorem stmt_bind_ok {e : Expr} {line : Int} (h : g.stmt (.bind name e line) = .ok g') :
    g.scope.allow SlotInfo.kind name e.kind = .ok () ∧
      ∃ code new, g.valueCode line e = .ok (code, new) ∧
        g' =
          { chunk :=
              { code := g.chunk.code ++ (code ++ [⟨.store, Int32.ofNat g.chunk.slots, line⟩])
                strings := g.chunk.strings ++ new
                slots := g.chunk.slots + 1 }
            scope := g.scope.bind name ⟨g.chunk.slots, e.kind⟩ } := by
  rw [stmt, bind_eq_ok] at h
  obtain ⟨⟨⟩, hallow, h⟩ := h
  rw [bind_eq_ok] at h
  obtain ⟨⟨code, new⟩, hvalue, h⟩ := h
  rw [pure_eq_ok] at h
  refine ⟨hallow, code, new, hvalue, ?_⟩
  rw [← h, List.append_assoc]

/-- The instruction that prints a value of a kind. -/
def printOpcode : Kind → Opcode
  | .str => .printStr
  | .int => .printInt

/-- What the code of a `print` adds to a chunk. -/
theorem stmt_print_ok {line : Int} (h : g.stmt (.print name line) = .ok g') :
    ∃ info, g.scope.find? name = some info ∧
      g' =
        { g with
          chunk :=
            { g.chunk with
              code := g.chunk.code ++
                [⟨.load, Int32.ofNat info.slot, line⟩, ⟨printOpcode info.kind, 0, line⟩] } } := by
  rw [stmt, bind_eq_ok] at h
  obtain ⟨info, hinfo, h⟩ := h
  rw [pure_eq_ok] at h
  exact ⟨info, Scope.subject_eq_ok.1 hinfo, h.symm⟩

/-- Code and strings are added at the end, and every `let` takes one slot. -/
theorem stmt_grows {s : Stmt} (h : g.stmt s = .ok g') :
    g.chunk.code <+: g'.chunk.code ∧ g.chunk.strings <+: g'.chunk.strings ∧
      g'.chunk.slots = g.chunk.slots + if s.isLet then 1 else 0 := by
  cases s with
  | bind name e line =>
    obtain ⟨-, code, new, -, rfl⟩ := stmt_bind_ok h
    exact ⟨List.prefix_append _ _, List.prefix_append _ _, rfl⟩
  | print name line =>
    obtain ⟨info, -, rfl⟩ := stmt_print_ok h
    exact ⟨List.prefix_append _ _, List.prefix_rfl, rfl⟩
  | foreign typeName line => cases h

/-- Over a whole program, the slots count the `let`s. -/
theorem walk_grows {p : Program} {index : Nat} (h : walk stmt index g p = (g', none)) :
    g.chunk.code <+: g'.chunk.code ∧ g.chunk.strings <+: g'.chunk.strings ∧
      g'.chunk.slots = g.chunk.slots + p.countP Stmt.isLet := by
  induction p generalizing g index with
  | nil =>
    cases h
    exact ⟨List.prefix_rfl, List.prefix_rfl, rfl⟩
  | cons s p ih =>
    obtain ⟨g₁, hstep, hrest⟩ := walk_cons_eq_none h
    obtain ⟨hcode, hstrings, hslots⟩ := stmt_grows hstep
    obtain ⟨hcode', hstrings', hslots'⟩ := ih hrest
    refine ⟨hcode.trans hcode', hstrings.trans hstrings', ?_⟩
    rw [hslots', hslots, List.countP_cons]
    omega

end CodeState

/-- The state of the machine between two statements, beside that of the interpreter: the stack is
empty, the outputs are the same, and the slots hold the values of the names.  `strings` and `total`
are the table and the number of slots of the finished chunk. -/
structure Simulates (strings : List Bytes) (total : Nat) (g : CodeState) (r : RunState)
    (m : Machine) : Prop where
  stack : m.stack = []
  out : m.out = r.out
  slots : m.slots.length = total
  scope : ScopeHolds strings m.slots g.chunk.slots g.scope r.values
  table : g.chunk.strings.length ≤ g.chunk.slots

section

variable {strings : List Bytes} {total : Nat} {g g' : CodeState} {r : RunState} {m : Machine}

/-- The code of a `let` runs without a fault and binds the name to what the interpreter binds
it to. -/
theorem Simulates.bind {name : Bytes} {e : Expr} {line : Int} (h : Simulates strings total g r m)
    (hgen : g.stmt (.bind name e line) = .ok g') (hstrings : g'.chunk.strings <+: strings)
    (hslots : g'.chunk.slots ≤ total) (htotal : total ≤ maxSlots) :
    ∃ code, g'.chunk.code = g.chunk.code ++ code ∧ Quiet code ∧
      ∃ r' m', r.exec (.bind name e line) = .ok r' ∧ m.steps strings code = .ok m' ∧
        Simulates strings total g' r' m' := by
  obtain ⟨hallow, code, new, hvalue, rfl⟩ := CodeState.stmt_bind_ok hgen
  simp only at hstrings hslots
  have htable := h.table
  obtain ⟨hquiet, v, n, heval, hkind, hword, hsteps⟩ :=
    valueCode_steps hvalue h.scope (by omega) hstrings (by omega)
  refine ⟨_, rfl, hquiet.append (.single rfl (by simp)), { r with values := r.values.bind name v },
    { m with slots := m.slots.set g.chunk.slots n }, ?_, ?_, ?_⟩
  · have hallow' := h.scope.allow hallow
    rw [← hkind] at hallow'
    exact RunState.exec_bind heval hallow' line
  · have hlt : g.chunk.slots < m.slots.length := by
      rw [h.slots]
      omega
    have hint : (Int32.ofNat g.chunk.slots).toInt = g.chunk.slots :=
      toInt_ofNat_of_lt_maxSlots (by omega)
    have hslot : atWord? m.slots (Int32.ofNat g.chunk.slots) = some m.slots[g.chunk.slots] := by
      rw [atWord?_ofNat (by omega), List.getElem?_eq_getElem hlt]
    rw [Machine.steps_append (hsteps m rfl)]
    simp [Machine.step, Machine.push, Machine.pop, hslot, hint, Bind.bind, Except.bind, pure,
      Except.pure]
  · have hlen := CodeState.valueCode_length hvalue
    refine ⟨h.stack, h.out, by simp [h.slots], ?_, ?_⟩
    · exact h.scope.bind (by rw [h.slots]; omega) hkind.symm hword
    · simp only [List.length_append]
      omega

/-- The code of a `print` prints what the interpreter prints, or the sink refuses both. -/
theorem Simulates.print {name : Bytes} {line : Int} (h : Simulates strings total g r m)
    (hgen : g.stmt (.print name line) = .ok g') (hslots : g'.chunk.slots ≤ total)
    (htotal : total ≤ maxSlots) :
    ∃ load print m₁, g'.chunk.code = g.chunk.code ++ [load, print] ∧ Quiet [load] ∧
      print.opcode.isPrint = true ∧ print.line = line ∧ m.step strings load = .ok m₁ ∧
      m₁.out = r.out ∧
      ((∃ r' m', r.exec (.print name line) = .ok r' ∧ m₁.step strings print = .ok m' ∧
          Simulates strings total g' r' m') ∨
        (r.exec (.print name line) = .error .refused ∧
          m₁.step strings print = .error .refused)) := by
  obtain ⟨info, hfind, rfl⟩ := CodeState.stmt_print_ok hgen
  simp only at hslots
  obtain ⟨v, hv, hholds⟩ := Scope.Related.find h.scope hfind
  obtain ⟨n, hslot, hword⟩ := hholds.word
  have hused := hholds.used
  have hload : atWord? m.slots (Int32.ofNat info.slot) = some n := by
    rw [atWord?_ofNat (by omega), hslot]
  -- Whatever the kind of the name, the second instruction writes the line of its value.
  have hprint : ∀ m₁ : Machine, m₁.stack = n :: m.stack →
      m₁.step strings ⟨CodeState.printOpcode info.kind, 0, line⟩
        = ({ m₁ with stack := m.stack } : Machine).emit v.line := by
    intro m₁ hstack
    rw [hholds.kind]
    cases v with
    | int k =>
      cases hword
      simp [Machine.step, CodeState.printOpcode, Value.kind, Machine.pop, hstack, Value.line,
        Bind.bind, Except.bind]
    | str text =>
      rw [Represents] at hword
      simp [Machine.step, CodeState.printOpcode, Value.kind, Machine.pop, hstack, Value.line, hword,
        Bind.bind, Except.bind]
  refine ⟨_, _, m.push n, rfl, .single rfl (by simp), ?_, rfl, ?_, h.out, ?_⟩
  · cases info.kind <;> rfl
  · simp [Machine.step, hload]
  · rw [hprint (m.push n) rfl]
    rw [RunState.exec_print hv, Machine.emit, Machine.push, h.out]
    cases r.out.write? v.line with
    | none => exact .inr ⟨rfl, rfl⟩
    | some out => exact .inl ⟨_, _, rfl, rfl, h.stack, rfl, h.slots, h.scope, h.table⟩

end

/-! ## Whole programs -/

/-- A program and code that is run from `m` are refused the same print: it is the statement with the
given index and line, the machine runs all the code before its print instruction, that code has
printed once for each earlier `print`, and `out` is what both have written. -/
def RefusedAt (strings : List Bytes) (m : Machine) (code : List Instruction) (p : Program)
    (index : Nat) (line : Int) (out : Sink) : Prop :=
  ∃ name before i after m', p[index]? = some (.print name line) ∧ code = before ++ i :: after ∧
    i.opcode.isPrint = true ∧ i.line = line ∧
    before.countP (·.opcode.isPrint) = (p.take index).countP Stmt.isPrint ∧
    (∀ j ∈ before, j.opcode ≠ .halt) ∧
    m.steps strings before = .ok m' ∧ m'.step strings i = .error .refused ∧ m'.out = out

/-- How the statements `p`, the first of which has index `k`, and their code run from corresponding
states: both get through, or the sink refuses them the same print. -/
inductive RunsAlike (strings : List Bytes) (total : Nat) (g' : CodeState) (r : RunState)
    (m : Machine) (k : Nat) (p : Program) (code : List Instruction) : Prop where
  | finished {r' : RunState} {m' : Machine} (walked : walk RunState.exec k r p = (r', none))
      (running : ∀ i ∈ code, i.opcode ≠ .halt) (stepped : m.steps strings code = .ok m')
      (simulates : Simulates strings total g' r' m')
  | refused {r' : RunState} (j : Nat) (line : Int)
      (walked : walk RunState.exec k r p = (r', some ⟨k + j, line, .refused⟩))
      (refused : RefusedAt strings m code p j line r'.out)

section

variable {strings : List Bytes} {total : Nat} {g g' : CodeState} {r r₁ : RunState}
  {m m₁ : Machine} {s : Stmt} {p : Program} {first code : List Instruction}

theorem Quiet.countP (h : Quiet code) : code.countP (·.opcode.isPrint) = 0 := by
  rw [List.countP_eq_zero]
  intro i hi
  simp [(h i hi).1]

/-- A refusal in the rest of a program is one in the whole. -/
theorem RefusedAt.cons {index : Nat} {line : Int} {out : Sink}
    (h : RefusedAt strings m₁ code p index line out)
    (hfirst : m.steps strings first = .ok m₁) (hhalt : ∀ i ∈ first, i.opcode ≠ .halt)
    (hprints : first.countP (·.opcode.isPrint) = if s.isPrint then 1 else 0) :
    RefusedAt strings m (first ++ code) (s :: p) (index + 1) line out := by
  obtain ⟨name, before, i, after, m', hstmt, rfl, hi, hline, hcount, hbefore, hsteps, hrest⟩ := h
  refine ⟨name, first ++ before, i, after, m', by simpa using hstmt, by simp, hi, hline, ?_, ?_, ?_,
    hrest⟩
  · rw [List.countP_append, hprints, hcount, List.take_succ_cons, List.countP_cons]
    omega
  · intro j hj
    rcases List.mem_append.1 hj with hj | hj
    · exact hhalt j hj
    · exact hbefore j hj
  · rw [Machine.steps_append hfirst, hsteps]

/-- What follows the code does not matter to a refusal in it. -/
theorem RefusedAt.append {index : Nat} {line : Int} {out : Sink}
    (h : RefusedAt strings m code p index line out) (rest : List Instruction) :
    RefusedAt strings m (code ++ rest) p index line out := by
  obtain ⟨name, before, i, after, m', hstmt, rfl, hrest⟩ := h
  exact ⟨name, before, i, after ++ rest, m', hstmt, by simp, hrest⟩

/-- Statements run alike with a statement before them that got through. -/
theorem RunsAlike.cons {k : Nat} (h : RunsAlike strings total g' r₁ m₁ (k + 1) p code)
    (hexec : r.exec s = .ok r₁) (hfirst : m.steps strings first = .ok m₁)
    (hhalt : ∀ i ∈ first, i.opcode ≠ .halt)
    (hprints : first.countP (·.opcode.isPrint) = if s.isPrint then 1 else 0) :
    RunsAlike strings total g' r m k (s :: p) (first ++ code) := by
  cases h with
  | finished walked running stepped simulates =>
    refine .finished (by rw [walk_cons_ok hexec, walked]) ?_ ?_ simulates
    · intro i hi
      rcases List.mem_append.1 hi with hi | hi
      · exact hhalt i hi
      · exact running i hi
    · rw [Machine.steps_append hfirst, stepped]
  | refused j line walked refused =>
    have hindex : k + 1 + j = k + (j + 1) := by omega
    refine .refused (j + 1) line ?_ (refused.cons hfirst hhalt hprints)
    rw [walk_cons_ok hexec, walked, hindex]

/-- The code of a program runs like the program, from corresponding states on. -/
theorem Simulates.walk {index k : Nat} (h : Simulates strings total g r m)
    (hgen : walk CodeState.stmt index g p = (g', none)) (hstrings : g'.chunk.strings <+: strings)
    (hslots : g'.chunk.slots ≤ total) (htotal : total ≤ maxSlots) :
    ∃ code, g'.chunk.code = g.chunk.code ++ code ∧
      RunsAlike strings total g' r m k p code := by
  induction p generalizing g r m index k with
  | nil =>
    cases hgen
    exact ⟨[], by simp, .finished rfl (by simp) rfl h⟩
  | cons s p ih =>
    obtain ⟨g₁, hstmt, hrest⟩ := walk_cons_eq_none hgen
    obtain ⟨⟨later, hlater⟩, hstrings₁, hslots₁⟩ := CodeState.walk_grows hrest
    cases s with
    | bind name e line =>
      obtain ⟨first, hfirst, hquiet, r₁, m₁, hexec, hsteps, hsim⟩ :=
        h.bind hstmt (hstrings₁.trans hstrings) (by omega) htotal
      obtain ⟨code, hcode, hruns⟩ := ih hsim hrest
      refine ⟨first ++ code, by rw [hcode, hfirst, List.append_assoc], ?_⟩
      exact hruns.cons hexec hsteps (fun i hi => (hquiet i hi).2) hquiet.countP
    | print name line =>
      obtain ⟨load, print, m₁, hfirst, hload, hprint, hline, hsteps, hout, hruns⟩ :=
        h.print hstmt (by omega) htotal
      have hopcode : print.opcode ≠ .halt := Opcode.ne_halt_of_isPrint hprint
      rcases hruns with ⟨r₁, m₂, hexec, hstep, hsim⟩ | ⟨hexec, hstep⟩
      · obtain ⟨code, hcode, hruns⟩ := ih hsim hrest
        refine ⟨[load, print] ++ code, by rw [hcode, hfirst, List.append_assoc], ?_⟩
        refine hruns.cons hexec ?_ ?_ ?_
        · simp [hsteps, hstep, Bind.bind, Except.bind]
        · simp [(hload load List.mem_cons_self).2, hopcode]
        · simp [(hload load List.mem_cons_self).1, hprint, Stmt.isPrint]
      · refine ⟨[load, print] ++ later, by rw [← hlater, hfirst, List.append_assoc], ?_⟩
        refine .refused 0 line (walk_cons_error hexec) ?_
        refine ⟨name, [load], print, later, m₁, rfl, rfl, hprint, hline, ?_, ?_, ?_, hstep, hout⟩
        · simp [(hload load List.mem_cons_self).1]
        · simp [(hload load List.mem_cons_self).2]
        · simp [hsteps, Bind.bind, Except.bind]
    | foreign typeName line => cases hstmt

end

/-- The machine at the start of a chunk. -/
def Chunk.start (c : Chunk) (out : Sink) : Machine :=
  { slots := List.replicate c.slots 0, out }

theorem Chunk.execute_eq {c : Chunk} {out : Sink} {m : Machine} {stop : MachineStop}
    (h : Machine.run c.strings 0 (c.start out) c.code = (m, stop)) :
    c.execute out = (m.out, stop) := by
  unfold Chunk.start at h
  rw [Chunk.execute, h]

/-- Code that is refused a print stops the machine there, whatever follows. -/
theorem RefusedAt.run {strings : List Bytes} {m : Machine} {code rest : List Instruction}
    {p : Program} {index pc : Nat} {line : Int} {out : Sink}
    (h : RefusedAt strings m code p index line out) :
    ∃ m', Machine.run strings pc m (code ++ rest) = (m', .refused) ∧ m'.out = out := by
  obtain ⟨name, before, i, after, m', -, rfl, hi, -, -, hbefore, hsteps, hstep, hout⟩ := h
  refine ⟨m', ?_, hout⟩
  rw [List.append_assoc, Machine.run_append hbefore hsteps, List.cons_append, Machine.run,
    if_neg (Opcode.ne_halt_of_isPrint hi), hstep]

/-- A chunk made of a program runs like the program: to the `halt` at its end, or up to the print
that the sink refuses. -/
theorem Program.chunk_runs_alike {p : Program} {c : Chunk} (hc : p.chunk = .ok c)
    (hlets : p.countP Stmt.isLet ≤ maxSlots) (out : Sink) :
    (∃ out', p.run out = (out', none) ∧ c.execute out = (out', .halted)) ∨
      ∃ out' index line, p.run out = (out', some ⟨index, line, .refused⟩) ∧
        c.execute out = (out', .refused) ∧
        RefusedAt c.strings (c.start out) c.code p index line out' := by
  unfold Program.chunk at hc
  split at hc
  case h_2 => cases hc
  case h_1 g hgen =>
    cases hc
    have hslots : g.chunk.slots = p.countP Stmt.isLet := by
      simpa using (CodeState.walk_grows hgen).2.2
    have hstart : Simulates g.chunk.strings g.chunk.slots {} { out } (g.chunk.start out) :=
      ⟨rfl, rfl, by simp [Chunk.start], Scope.Related.empty, Nat.le_refl 0⟩
    obtain ⟨code, hcode, hruns⟩ :=
      hstart.walk hgen List.prefix_rfl (Nat.le_refl _) (by rw [hslots]; exact hlets)
    rw [List.nil_append] at hcode
    cases hruns with
    | finished walked running stepped simulates =>
      refine .inl ⟨_, Program.run_eq walked, ?_⟩
      rw [← simulates.out]
      apply Chunk.execute_eq
      rw [hcode]
      exact Machine.run_append running stepped 0
    | refused j line walked refused =>
      rw [Nat.zero_add] at walked
      obtain ⟨m', hrun, hout⟩ := refused.run
      refine .inr ⟨_, j, line, Program.run_eq walked, ?_, ?_⟩
      · rw [← hout]
        apply Chunk.execute_eq
        rw [hcode]
        exact hrun
      · rw [hcode]
        exact refused.append _

/-! ## The two backends -/

open Session in
/-- Running a program as bytecode and running it directly have the same result and write the same
output; the worlds after them differ in the trace alone.  Either the program runs to its end, where
the machine comes to the `halt`, or the sink refuses the same print to both. -/
theorem Backend.vm_agrees_with_interp {p : Program} {c : Chunk} (hc : p.chunk = .ok c)
    (hlets : p.countP Stmt.isLet ≤ maxSlots) (output : Bytes) (w : World) :
    ∃ result out vmTrace interpTrace,
      (Backend.vm.compile p output).runIn w = (result, { w with out, trace := vmTrace }) ∧
      (Backend.interp.compile p output).runIn w = (result, { w with out, trace := interpTrace }) ∧
      ((result = .ok {} ∧ (c.execute w.out).2 = .halted) ∨
        result = .error Sink.refusal ∧ (c.execute w.out).2 = .refused ∧
          ∃ index line, (p.run w.out).2 = some ⟨index, line, .refused⟩ ∧
            RefusedAt c.strings (c.start w.out) c.code p index line out) := by
  have hvm := executeProgram_runIn hc w
  have hinterp := interpret_runIn p w
  rw [World.noted_eq { w.noted p.chunkTrace with out := (c.execute w.out).1 },
    World.noted_eq w] at hvm
  rw [World.noted_eq] at hinterp
  rcases Program.chunk_runs_alike hc hlets w.out with
    ⟨out, hrun, hexec⟩ | ⟨out, index, line, hrun, hexec, hrefused⟩
  · rw [hrun] at hinterp
    rw [hexec] at hvm ⊢
    exact ⟨.ok {}, out, _, _, hvm, hinterp, .inl ⟨rfl, rfl⟩⟩
  · rw [hrun] at hinterp ⊢
    rw [hexec] at hvm ⊢
    refine ⟨.error Sink.refusal, out, _, _, hvm, hinterp, .inr ⟨rfl, rfl, ?_⟩⟩
    exact ⟨index, line, rfl, hrefused⟩

/-- A name that is bound twice, a string, and a `print` of each. -/
def rebinding : Program :=
  [.bind (utf8 "x") (.int 7 default) 1,
   .bind (utf8 "x") (.bin .div (.var (utf8 "x") default) (.int 2 default) default) 2,
   .bind (utf8 "s") (.str (utf8 "hi") default) 3,
   .print (utf8 "x") 4,
   .print (utf8 "s") 5]

/-- A sink with room for the first of two lines refuses the second to both backends. -/
theorem Backend.vm_agrees_with_interp_on_small_sink :
    ∃ c, rebinding.chunk = .ok c ∧ rebinding.countP Stmt.isLet ≤ maxSlots ∧
      ((Backend.vm.compile rebinding []).runIn { out := { limit := some 3 } }).1 =
        .error Sink.refusal ∧
      ((Backend.vm.compile rebinding []).runIn { out := { limit := some 3 } }).2.out =
        { limit := some 3, written := utf8 "3\n" } := by
  have hlets : rebinding.countP Stmt.isLet ≤ maxSlots := by decide
  refine ⟨_, rfl, hlets, ?_⟩
  obtain ⟨result, out, _, _, hvm, hinterp, -⟩ :=
    vm_agrees_with_interp (p := rebinding) rfl hlets [] { out := { limit := some 3 } }
  have hsame : (Backend.interp.compile rebinding []).runIn { out := { limit := some 3 } } =
      (.error Sink.refusal, { out := { limit := some 3, written := utf8 "3\n" } }) := rfl
  rw [hinterp] at hsame
  cases hsame
  rw [hvm]
  exact ⟨rfl, rfl⟩

end LetPrint

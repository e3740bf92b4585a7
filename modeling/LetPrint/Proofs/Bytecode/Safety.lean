import LetPrint.Proofs.Bytecode.Simulation
import LetPrint.Proofs.Text.Numerals

/-!
# Any chunk runs safely

Nothing is known here of the code of a chunk: opcodes, operands and strings may be anything.

* `Instruction.Does` gives one rule for each opcode: what it takes from the stack and from the slots,
  what it leaves there and what it prints.  A rule reads only what is there.
* `Instruction.fault?` computes from the height of the stack, the number of slots and the string table
  whether no rule applies, and why.
* A machine follows the rules (`Instruction.Does.step`) and stops where none applies
  (`Frame.step_of_fault`); there is no third case (`Instruction.does_or_fault`).
* `Chunk.Reaches` follows the rules from the start of a chunk, whatever the sink takes.  Code has no
  jumps, so the height of the stack there is a number that can be read off the code (`Chunk.depth`,
  `Chunk.Reaches.length_stack`).
* `Chunk.execute_safe` is the result.
-/

namespace LetPrint

open Text

/-! ## What instructions do -/

/-- What a machine computes with: the stack, top first, and the slots. -/
structure Frame where
  stack : List Int32
  slots : List Int32
  deriving DecidableEq, Repr

namespace Opcode

/-- The operation of an opcode that replaces two values by one. -/
def operation? : Opcode → Option (Int32 → Int32 → Int32)
  | add => some (· + ·)
  | sub => some (· - ·)
  | mul => some (· * ·)
  | div => some divide
  | _ => none

/-- How many values an opcode takes from the stack. -/
def pops : Opcode → Nat
  | add | sub | mul | div => 2
  | neg | store | printInt | printStr => 1
  | const | str | load | halt | illegal _ => 0

/-- How many values an opcode puts on the stack. -/
def pushes : Opcode → Nat
  | const | str | neg | add | sub | mul | div | load => 1
  | store | printInt | printStr | halt | illegal _ => 0

/-- By how much an opcode changes the height of the stack. -/
def effect (op : Opcode) : Int :=
  op.pushes - op.pops

end Opcode

/-- The rules of the instructions: frame before, what is printed, frame behind.  `halt` and opcodes
without a meaning have none. -/
inductive Instruction.Does (strings : List Bytes) :
    Instruction → Frame → List Bytes → Frame → Prop where
  | const (n : Int32) (line : Int) (stack slots : List Int32) :
      Does strings ⟨.const, n, line⟩ ⟨stack, slots⟩ [] ⟨n :: stack, slots⟩
  | str (n : Int32) (line : Int) (stack slots : List Int32) :
      Does strings ⟨.str, n, line⟩ ⟨stack, slots⟩ [] ⟨n :: stack, slots⟩
  | neg (k n : Int32) (line : Int) (stack slots : List Int32) :
      Does strings ⟨.neg, k, line⟩ ⟨n :: stack, slots⟩ [] ⟨-n :: stack, slots⟩
  | binary {op : Opcode} {f : Int32 → Int32 → Int32} (hop : op.operation? = some f)
      (k a b : Int32) (line : Int) (stack slots : List Int32) :
      Does strings ⟨op, k, line⟩ ⟨b :: a :: stack, slots⟩ [] ⟨f a b :: stack, slots⟩
  | load {k n : Int32} {j : Nat} {slots : List Int32} (hk : k.toInt = j)
      (hj : slots[j]? = some n) (line : Int) (stack : List Int32) :
      Does strings ⟨.load, k, line⟩ ⟨stack, slots⟩ [] ⟨n :: stack, slots⟩
  | store {k : Int32} {j : Nat} {slots : List Int32} (hk : k.toInt = j) (hj : j < slots.length)
      (n : Int32) (line : Int) (stack : List Int32) :
      Does strings ⟨.store, k, line⟩ ⟨n :: stack, slots⟩ [] ⟨stack, slots.set j n⟩
  | printInt (k n : Int32) (line : Int) (stack slots : List Int32) :
      Does strings ⟨.printInt, k, line⟩ ⟨n :: stack, slots⟩ [integer n.toInt ++ [newline]]
        ⟨stack, slots⟩
  | printStr {n : Int32} {j : Nat} {text : Bytes} (hn : n.toInt = j) (hj : strings[j]? = some text)
      (k : Int32) (line : Int) (stack slots : List Int32) :
      Does strings ⟨.printStr, k, line⟩ ⟨n :: stack, slots⟩ [text ++ [newline]] ⟨stack, slots⟩

/-- A word is an index into a list of the given length. -/
def Indexes (k : Int32) (length : Nat) : Prop :=
  0 ≤ k.toInt ∧ k.toInt < length

instance (k : Int32) (length : Nat) : Decidable (Indexes k length) :=
  inferInstanceAs (Decidable (_ ∧ _))

/-- Why an instruction cannot run where the stack has the given height and top and there are so many
slots.  Missing values count before a slot or a string that is not there. -/
def Instruction.fault? (strings : List Bytes) (slots : Nat) (height : Int) (top : Option Int32)
    (i : Instruction) : Option MachineFault :=
  if height < i.opcode.pops then some .underflow
  else
    match i.opcode with
    | .load | .store => if Indexes i.operand slots then none else some (.invalidSlot i.operand)
    | .printStr =>
      top.bind fun n => if Indexes n strings.length then none else some (.invalidString n)
    | .illegal code => some (.unknownOpcode code)
    | _ => none

/-! ## One step -/

theorem atWord?_eq_some_iff {α : Type} {items : List α} {k : Int32} {a : α} :
    atWord? items k = some a ↔ ∃ j : Nat, k.toInt = j ∧ items[j]? = some a := by
  unfold atWord?
  constructor
  · intro h
    split at h
    · cases h
    · exact ⟨k.toInt.toNat, by omega, h⟩
  · rintro ⟨j, hj, ha⟩
    have hnonneg : ¬ k.toInt < 0 := by omega
    rw [if_neg hnonneg, hj]
    exact ha

theorem atWord?_eq_none_iff {α : Type} {items : List α} {k : Int32} :
    atWord? items k = none ↔ ¬ Indexes k items.length := by
  unfold atWord? Indexes
  by_cases h : k.toInt < 0
  · simp only [h, if_true, true_iff]
    omega
  · rw [if_neg h, List.getElem?_eq_none_iff]
    omega

namespace Sink

/-- Write lines one after the other, all of them. -/
def writeAll? (s : Sink) (lines : List Bytes) : Option Sink :=
  lines.foldlM write? s

theorem writeAll?_append (s : Sink) (lines more : List Bytes) :
    s.writeAll? (lines ++ more) = (s.writeAll? lines).bind fun s' => s'.writeAll? more :=
  List.foldlM_append

theorem writeAll?_singleton (s : Sink) (line : Bytes) : s.writeAll? [line] = s.write? line := by
  simp [writeAll?]

/-- A sink that takes all lines has them behind what it had before. -/
theorem written_of_writeAll? {s s' : Sink} {lines : List Bytes} (h : s.writeAll? lines = some s') :
    s' = { s with written := s.written ++ lines.flatten } := by
  induction lines generalizing s with
  | nil =>
    cases h
    simp
  | cons line lines ih =>
    rw [writeAll?, List.foldlM_cons] at h
    obtain ⟨s₁, hwrite, hrest⟩ := Option.bind_eq_some_iff.1 h
    unfold write? at hwrite
    split at hwrite
    · cases hwrite
      rw [ih hrest]
      simp
    · cases hwrite

end Sink

theorem Machine.emit_eq (m : Machine) (line : Bytes) :
    m.emit line =
      match m.out.writeAll? [line] with
      | some out => .ok { m with out }
      | none => .error .refused := by
  rw [Sink.writeAll?_singleton]
  rfl

/-- The machine with the given frame and sink. -/
def Frame.machine (frame : Frame) (out : Sink) : Machine :=
  ⟨frame.stack, frame.slots, out⟩

section

variable {strings : List Bytes} {i : Instruction} {frame frame' : Frame} {lines : List Bytes}

/-- A machine follows the rules, if the sink takes what is printed. -/
theorem Instruction.Does.step (h : i.Does strings frame lines frame') (out : Sink) :
    (frame.machine out).step strings i =
      match out.writeAll? lines with
      | some out' => .ok (frame'.machine out')
      | none => .error .refused := by
  cases h with
  | const | str | neg => rfl
  | @binary op f hop k a b line stack slots =>
    cases op <;> cases hop <;> rfl
  | @load k n j slots hk hj line stack =>
    have hslot : atWord? slots k = some n := atWord?_eq_some_iff.2 ⟨j, hk, hj⟩
    simp [Machine.step, Frame.machine, hslot, Sink.writeAll?, Machine.push]
  | @store k j slots hk hj n line stack =>
    have hslot : atWord? slots k = some slots[j] :=
      atWord?_eq_some_iff.2 ⟨j, hk, List.getElem?_eq_getElem hj⟩
    simp [Machine.step, Frame.machine, hslot, hk, Sink.writeAll?, Machine.pop, bind, Except.bind,
      pure, Except.pure]
  | printInt k n line stack slots =>
    exact Machine.emit_eq ⟨stack, slots, out⟩ (integer n.toInt ++ [newline])
  | @printStr n j text hn hj k line stack slots =>
    have htext : atWord? strings n = some text := atWord?_eq_some_iff.2 ⟨j, hn, hj⟩
    have hstep : (Frame.machine ⟨n :: stack, slots⟩ out).step strings ⟨.printStr, k, line⟩ =
        Machine.emit ⟨stack, slots, out⟩ (text ++ [newline]) := by
      simp [Machine.step, Frame.machine, Machine.pop, htext, bind, Except.bind]
    exact hstep.trans (Machine.emit_eq ⟨stack, slots, out⟩ (text ++ [newline]))

theorem Frame.step_of_underflow (h : frame.stack.length < i.opcode.pops) (out : Sink) :
    (frame.machine out).step strings i = .error (.fault .underflow) := by
  obtain ⟨opcode, operand, line⟩ := i
  obtain ⟨stack, slots⟩ := frame
  cases opcode with
  | const | str | load | halt | illegal => cases h
  | neg | store | printInt | printStr =>
    have hnil : stack = [] := List.length_eq_zero_iff.1 (Nat.lt_one_iff.1 h)
    rw [hnil]
    rfl
  | add | sub | mul | div =>
    match stack, h with
    | [], _ => rfl
    | [a], _ => rfl

/-- A machine stops at an instruction that cannot run, with its fault. -/
theorem Frame.step_of_fault {f : MachineFault} (out : Sink)
    (h : i.fault? strings frame.slots.length frame.stack.length frame.stack.head? = some f) :
    (frame.machine out).step strings i = .error (.fault f) := by
  by_cases hheight : (frame.stack.length : Int) < i.opcode.pops
  · rw [Instruction.fault?, if_pos hheight] at h
    cases h
    exact step_of_underflow (by omega) out
  · rw [Instruction.fault?, if_neg hheight] at h
    have hpops : i.opcode.pops ≤ frame.stack.length := by omega
    obtain ⟨opcode, operand, line⟩ := i
    obtain ⟨stack, slots⟩ := frame
    cases opcode with
    | load =>
      simp only at h
      split at h
      next => cases h
      next hslot =>
        cases h
        rw [← atWord?_eq_none_iff] at hslot
        simp only [Machine.step, machine, hslot]
    | store =>
      obtain ⟨n, stack, rfl⟩ := List.exists_cons_of_length_pos hpops
      simp only at h
      split at h
      next => cases h
      next hslot =>
        cases h
        rw [← atWord?_eq_none_iff] at hslot
        simp only [Machine.step, machine, Machine.pop, bind, Except.bind, hslot]
    | printStr =>
      obtain ⟨n, stack, rfl⟩ := List.exists_cons_of_length_pos hpops
      simp only [List.head?_cons, Option.bind_some] at h
      split at h
      next => cases h
      next hstring =>
        cases h
        rw [← atWord?_eq_none_iff] at hstring
        simp only [Machine.step, machine, Machine.pop, bind, Except.bind, hstring]
    | illegal code =>
      cases h
      rfl
    | _ => cases h

theorem Indexes.exists_getElem? {α : Type} {k : Int32} {items : List α}
    (h : Indexes k items.length) : ∃ (j : Nat) (a : α), k.toInt = j ∧ items[j]? = some a := by
  obtain ⟨hnonneg, hlt⟩ := h
  have hj : k.toInt.toNat < items.length := by omega
  exact ⟨k.toInt.toNat, items[k.toInt.toNat], by omega, List.getElem?_eq_getElem hj⟩

/-- A rule applies to an instruction, or it has a fault. -/
theorem Instruction.does_or_fault (strings : List Bytes) (hi : i.opcode ≠ .halt) (frame : Frame) :
    (∃ lines frame', i.Does strings frame lines frame') ∨
      ∃ f, i.fault? strings frame.slots.length frame.stack.length frame.stack.head? = some f := by
  by_cases hheight : (frame.stack.length : Int) < i.opcode.pops
  · exact .inr ⟨.underflow, if_pos hheight⟩
  · rw [Instruction.fault?, if_neg hheight]
    have hpops : i.opcode.pops ≤ frame.stack.length := by omega
    obtain ⟨opcode, operand, line⟩ := i
    obtain ⟨stack, slots⟩ := frame
    cases opcode with
    | const => exact .inl ⟨_, _, .const operand line stack slots⟩
    | str => exact .inl ⟨_, _, .str operand line stack slots⟩
    | neg =>
      obtain ⟨n, stack, rfl⟩ := List.exists_cons_of_length_pos hpops
      exact .inl ⟨_, _, .neg operand n line stack slots⟩
    | add | sub | mul | div =>
      match stack, hpops with
      | b :: a :: stack, _ => exact .inl ⟨_, _, .binary rfl operand a b line stack slots⟩
    | load =>
      by_cases hslot : Indexes operand slots.length
      · obtain ⟨j, n, hk, hj⟩ := hslot.exists_getElem?
        exact .inl ⟨_, _, .load hk hj line stack⟩
      · exact .inr ⟨_, if_neg hslot⟩
    | store =>
      obtain ⟨n, stack, rfl⟩ := List.exists_cons_of_length_pos hpops
      by_cases hslot : Indexes operand slots.length
      · obtain ⟨j, old, hk, hj⟩ := hslot.exists_getElem?
        obtain ⟨hlt, -⟩ := List.getElem?_eq_some_iff.1 hj
        exact .inl ⟨_, _, .store hk hlt n line stack⟩
      · exact .inr ⟨_, if_neg hslot⟩
    | printInt =>
      obtain ⟨n, stack, rfl⟩ := List.exists_cons_of_length_pos hpops
      exact .inl ⟨_, _, .printInt operand n line stack slots⟩
    | printStr =>
      obtain ⟨n, stack, rfl⟩ := List.exists_cons_of_length_pos hpops
      by_cases hstring : Indexes n strings.length
      · obtain ⟨j, text, hn, hj⟩ := hstring.exists_getElem?
        exact .inl ⟨_, _, .printStr hn hj operand line stack slots⟩
      · exact .inr ⟨_, if_neg hstring⟩
    | halt => exact absurd rfl hi
    | illegal code => exact .inr ⟨_, rfl⟩

/-- Where a rule applies there is no fault. -/
theorem Instruction.Does.fault?_eq_none (h : i.Does strings frame lines frame') :
    i.fault? strings frame.slots.length frame.stack.length frame.stack.head? = none := by
  cases hfault : i.fault? strings frame.slots.length frame.stack.length frame.stack.head? with
  | none => rfl
  | some f =>
    have hstep := Frame.step_of_fault {} hfault
    rw [h.step] at hstep
    split at hstep <;> cases hstep

theorem Instruction.Does.opcode_ne_halt (h : i.Does strings frame lines frame') :
    i.opcode ≠ .halt := by
  cases h with
  | binary hop =>
    rintro rfl
    cases hop
  | _ => simp

/-- A rule takes from the stack and puts on it as many values as the opcode says. -/
theorem Instruction.Does.length_stack (h : i.Does strings frame lines frame') :
    frame'.stack.length + i.opcode.pops = frame.stack.length + i.opcode.pushes := by
  cases h with
  | @binary op f hop k a b line stack slots => cases op <;> cases hop <;> rfl
  | _ => rfl

theorem Instruction.Does.length_slots (h : i.Does strings frame lines frame') :
    frame'.slots.length = frame.slots.length := by
  cases h with
  | store => exact List.length_set
  | _ => rfl

end

/-! ## Running a chunk -/

namespace Chunk

/-- The height of the stack before the instruction with index `i`: the effects of all instructions
before it, one after the other. -/
def depth (c : Chunk) (i : Nat) : Int :=
  (c.code.take i).foldl (fun height instr => height + instr.opcode.effect) 0

/-- Why the instruction with index `i` cannot run where `top` is on top of the stack. -/
def fault? (c : Chunk) (i : Nat) (top : Option Int32) (instr : Instruction) :
    Option MachineFault :=
  instr.fault? c.strings c.slots (c.depth i) top

/-- The rules lead from the start of a chunk to its instruction with index `i`: the frame there, and
the lines printed on the way. -/
inductive Reaches (c : Chunk) : Nat → Frame → List Bytes → Prop where
  | start : Reaches c 0 ⟨[], List.replicate c.slots 0⟩ []
  | next {i : Nat} {instr : Instruction} {frame frame' : Frame} {lines new : List Bytes}
      (h : c.Reaches i frame lines) (hi : c.code[i]? = some instr)
      (hdoes : instr.Does c.strings frame new frame') : Reaches c (i + 1) frame' (lines ++ new)

/-- The code from an instruction on. -/
theorem drop_code {c : Chunk} {i : Nat} {instr : Instruction} (hi : c.code[i]? = some instr) :
    c.code.drop i = instr :: c.code.drop (i + 1) := by
  obtain ⟨hlt, rfl⟩ := List.getElem?_eq_some_iff.1 hi
  exact List.drop_eq_getElem_cons hlt

namespace Reaches

variable {c : Chunk} {i : Nat} {frame : Frame} {lines : List Bytes}

theorem length_stack (h : c.Reaches i frame lines) : (frame.stack.length : Int) = c.depth i := by
  induction h with
  | start => rfl
  | @next i instr frame frame' lines new h hi hdoes ih =>
    have hheight := hdoes.length_stack
    have hdepth : c.depth (i + 1) = c.depth i + instr.opcode.effect := by
      rw [depth, List.take_add_one, hi, List.foldl_append]
      rfl
    rw [hdepth, ← ih, Opcode.effect]
    omega

theorem length_slots (h : c.Reaches i frame lines) : frame.slots.length = c.slots := by
  induction h with
  | start => exact List.length_replicate
  | next h hi hdoes ih => rw [hdoes.length_slots, ih]

theorem le_length (h : c.Reaches i frame lines) : i ≤ c.code.length := by
  cases h with
  | start => exact Nat.zero_le _
  | next h hi hdoes => exact (List.getElem?_eq_some_iff.1 hi).1

/-- The fault of an instruction is the one that its place in the code tells. -/
theorem fault?_eq (h : c.Reaches i frame lines) (instr : Instruction) :
    c.fault? i frame.stack.head? instr =
      instr.fault? c.strings frame.slots.length frame.stack.length frame.stack.head? := by
  rw [Chunk.fault?, h.length_stack, h.length_slots]

/-- Every instruction before one that is reached was reached, and could run. -/
theorem before (h : c.Reaches i frame lines) {j : Nat} (hj : j < i) :
    ∃ frame' lines' instr, c.Reaches j frame' lines' ∧ c.code[j]? = some instr ∧
      c.fault? j frame'.stack.head? instr = none := by
  induction h with
  | start => cases hj
  | @next i instr frame frame' lines new h hi hdoes ih =>
    rcases Nat.lt_succ_iff_lt_or_eq.1 hj with hj | rfl
    · exact ih hj
    · exact ⟨frame, lines, instr, h, hi, by rw [h.fault?_eq, hdoes.fault?_eq_none]⟩

/-- A machine comes to every instruction that is reached, if the sink takes what is printed on the
way. -/
theorem run (h : c.Reaches i frame lines) {out out' : Sink} (hout : out.writeAll? lines = some out') :
    Machine.run c.strings 0 (c.start out) c.code =
      Machine.run c.strings i (frame.machine out') (c.code.drop i) := by
  induction h generalizing out' with
  | start =>
    cases hout
    rfl
  | @next i instr frame frame' lines new h hi hdoes ih =>
    rw [Sink.writeAll?_append] at hout
    obtain ⟨out₁, hlines, hnew⟩ := Option.bind_eq_some_iff.1 hout
    rw [ih hlines, drop_code hi, Machine.run, if_neg hdoes.opcode_ne_halt, hdoes.step, hnew]

end Reaches

/-- How a run ends at the instruction with index `i`, if `out` holds what was written before, and what
is reported. -/
inductive Ends (c : Chunk) (out : Sink) (i : Nat) (frame : Frame) : Option Diagnostic → Prop where
  /-- There is no such instruction: all have run. -/
  | finished (hi : i = c.code.length) : Ends c out i frame none
  | halted {instr : Instruction} (hi : c.code[i]? = some instr) (hop : instr.opcode = .halt) :
      Ends c out i frame none
  /-- The instruction can run, but the sink refuses what it prints. -/
  | refused {instr : Instruction} {lines : List Bytes} {frame' : Frame}
      (hi : c.code[i]? = some instr) (hdoes : instr.Does c.strings frame lines frame')
      (hout : out.writeAll? lines = none) : Ends c out i frame (some Sink.refusal)
  /-- The instruction cannot run. -/
  | faulted {instr : Instruction} {fault : MachineFault} (hi : c.code[i]? = some instr)
      (hfault : c.fault? i frame.stack.head? instr = some fault) :
      Ends c out i frame <| some <| .verification <|
        utf8 "vm at " ++ zeroPadded 3 i ++ utf8 " (" ++ instr.render ++ utf8 ", line "
          ++ integer instr.line ++ utf8 "): " ++ fault.message

variable {c : Chunk} {i : Nat} {frame : Frame} {lines : List Bytes} {out out' : Sink}
  {report : Option Diagnostic}

/-- A machine that comes to such an end stops there and reports that. -/
theorem Ends.execute (h : c.Ends out' i frame report) (hreaches : c.Reaches i frame lines)
    (hout : out.writeAll? lines = some out') :
    (c.execute out).1 = out' ∧ (c.execute out).2.diagnostic? = report := by
  have hrun : ∀ stop, Machine.run c.strings i (frame.machine out') (c.code.drop i) =
      (frame.machine out', stop) → c.execute out = (out', stop) := by
    intro stop hstop
    rw [← hreaches.run hout] at hstop
    exact Chunk.execute_eq hstop
  cases h with
  | finished hi =>
    rw [hrun .finished (by rw [hi, List.drop_length]; rfl)]
    exact ⟨rfl, rfl⟩
  | halted hi hop =>
    rw [hrun .halted (by rw [drop_code hi, Machine.run, if_pos hop])]
    exact ⟨rfl, rfl⟩
  | refused hi hdoes hwrite =>
    rw [hrun .refused (by
      rw [drop_code hi, Machine.run, if_neg hdoes.opcode_ne_halt, hdoes.step, hwrite])]
    exact ⟨rfl, rfl⟩
  | @faulted instr fault hi hfault =>
    rw [hreaches.fault?_eq] at hfault
    have hstep := Frame.step_of_fault out' hfault
    have hop : instr.opcode ≠ .halt := by
      intro hop
      rw [Machine.step, hop] at hstep
      cases hstep
    rw [hrun (.faulted i instr fault) (by
      rw [drop_code hi, Machine.run, if_neg hop, hstep])]
    exact ⟨rfl, rfl⟩

/-- A run goes on from every instruction that is reached, and comes to an end. -/
theorem Reaches.exists_ends (h : c.Reaches i frame lines) (hout : out.writeAll? lines = some out') :
    ∃ j frame' lines' out'' report, c.Reaches j frame' lines' ∧
      out.writeAll? lines' = some out'' ∧ c.Ends out'' j frame' report := by
  -- Induction on the number of instructions that are left.
  induction hleft : c.code.length - i generalizing i frame lines out' with
  | zero =>
    have hle := h.le_length
    exact ⟨i, frame, lines, out', none, h, hout, .finished (by omega)⟩
  | succ n ih =>
    have hlt : i < c.code.length := by omega
    have hi : c.code[i]? = some c.code[i] := List.getElem?_eq_getElem hlt
    by_cases hop : c.code[i].opcode = .halt
    · exact ⟨i, frame, lines, out', none, h, hout, .halted hi hop⟩
    · rcases Instruction.does_or_fault c.strings hop frame with
        ⟨new, frame', hdoes⟩ | ⟨fault, hfault⟩
      · cases hwrite : out'.writeAll? new with
        | none => exact ⟨i, frame, lines, out', _, h, hout, .refused hi hdoes hwrite⟩
        | some out₁ =>
          have hnext : out.writeAll? (lines ++ new) = some out₁ := by
            rw [Sink.writeAll?_append, hout]
            exact hwrite
          exact ih (h.next hi hdoes) hnext (by omega)
      · rw [← h.fault?_eq] at hfault
        exact ⟨i, frame, lines, out', _, h, hout, .faulted hi hfault⟩

/-- The report of a fault names the instruction where the run ended. -/
theorem Ends.index_eq {j : Nat} {text : Bytes}
    (h : c.Ends out i frame
      (some (.verification (utf8 "vm at " ++ zeroPadded 3 j ++ utf8 " (" ++ text)))) :
    j = i ∧ ∃ instr fault, c.code[i]? = some instr ∧
      c.fault? i frame.stack.head? instr = some fault := by
  generalize hreport : some (Diagnostic.verification _) = report at h
  cases h with
  | finished | halted => cases hreport
  | refused => cases hreport
  | @faulted instr fault hi hfault =>
    refine ⟨?_, instr, fault, hi, hfault⟩
    simp only [Diagnostic.verification, Option.some.injEq, Diagnostic.report.injEq,
      Report.mk.injEq, List.append_assoc, List.append_cancel_left_eq] at hreport
    exact zeroPadded_append_inj (b := byte ' ') rfl hreport.2.1

/-- Every chunk, with any code, operands and strings, runs safely into every sink.

The run ends after at most as many instructions as there are.  What was written are the lines
printed by the instructions before the end and nothing else, and the report is one of three: none,
at a `halt` or behind the last instruction; that of a sink that refused a line; or that of an
instruction that cannot run.

Wherever the rules lead, the machine comes there if the sink takes the lines.  The stack is then as
high as the code before says, and all instructions before could run: they had the values that they
need, and slots and strings where they looked for them.

A report names an instruction as one that cannot run if and only if the run comes to it and it has
a fault. -/
theorem execute_safe (c : Chunk) (out : Sink) :
    (∃ i frame lines, c.Reaches i frame lines ∧ i ≤ c.code.length ∧
      (c.execute out).1 = { out with written := out.written ++ lines.flatten } ∧
      c.Ends (c.execute out).1 i frame (c.execute out).2.diagnostic?) ∧
    (∀ i frame lines, c.Reaches i frame lines →
      (∀ out', out.writeAll? lines = some out' →
        Machine.run c.strings 0 (c.start out) c.code =
          Machine.run c.strings i (frame.machine out') (c.code.drop i)) ∧
      (frame.stack.length : Int) = c.depth i ∧ frame.slots.length = c.slots ∧
      ∀ j < i, ∃ frame' lines' instr, c.Reaches j frame' lines' ∧ c.code[j]? = some instr ∧
        c.fault? j frame'.stack.head? instr = none) ∧
    ∀ i, (∃ text, (c.execute out).2.diagnostic? =
        some (.verification (utf8 "vm at " ++ zeroPadded 3 i ++ utf8 " (" ++ text))) ↔
      ∃ frame lines instr fault, c.Reaches i frame lines ∧ (out.writeAll? lines).isSome = true ∧
        c.code[i]? = some instr ∧ c.fault? i frame.stack.head? instr = some fault := by
  have hstart : c.Reaches 0 ⟨[], List.replicate c.slots 0⟩ [] := .start
  have hnone : out.writeAll? [] = some out := rfl
  obtain ⟨i, frame, lines, out', report, hreaches, hout, hends⟩ := hstart.exists_ends hnone
  obtain ⟨hwritten, hreport⟩ := hends.execute hreaches hout
  refine ⟨⟨i, frame, lines, hreaches, hreaches.le_length, ?_, ?_⟩, ?_, ?_⟩
  · rw [hwritten, Sink.written_of_writeAll? hout]
  · rw [hwritten, hreport]
    exact hends
  · intro i frame lines h
    exact ⟨fun _ => h.run, h.length_stack, h.length_slots, fun _ => h.before⟩
  · intro j
    constructor
    · rintro ⟨text, htext⟩
      rw [hreport] at htext
      subst htext
      obtain ⟨rfl, instr, fault, hi, hfault⟩ := hends.index_eq
      exact ⟨frame, lines, instr, fault, hreaches, by rw [hout]; rfl, hi, hfault⟩
    · rintro ⟨frame, lines, instr, fault, hreaches, hsome, hi, hfault⟩
      obtain ⟨out', hout⟩ := Option.isSome_iff_exists.1 hsome
      obtain ⟨-, hreport⟩ := Ends.execute (.faulted hi hfault) hreaches hout
      simp only [List.append_assoc] at hreport ⊢
      exact ⟨_, hreport⟩

/-- Code that prints a number and then the second string of a table that has one. -/
def stray : Chunk :=
  { code := [⟨.const, 65, 1⟩, ⟨.printInt, 0, 1⟩, ⟨.const, 1, 2⟩, ⟨.printStr, 0, 2⟩]
    strings := [utf8 "a"] }

/-- The number is printed, and the run ends at the last instruction with one value on the stack. -/
theorem execute_safe_stray :
    (∃ text, (stray.execute {}).2.diagnostic? =
        some (.verification (utf8 "vm at " ++ zeroPadded 3 3 ++ utf8 " (" ++ text))) ∧
      (stray.execute {}).1.written = utf8 "65\n" ∧ stray.depth 3 = 1 := by
  have hpushed : stray.Reaches 1 ⟨[65], []⟩ [] := Reaches.start.next rfl (.const 65 1 [] [])
  have hprinted : stray.Reaches 2 ⟨[], []⟩ [utf8 "65\n"] := hpushed.next rfl (.printInt 0 65 1 [] [])
  have hreaches : stray.Reaches 3 ⟨[1], []⟩ [utf8 "65\n"] := hprinted.next rfl (.const 1 2 [] [])
  obtain ⟨-, hreached, hnamed⟩ := execute_safe stray {}
  have hfault : stray.fault? 3 (some 1) ⟨.printStr, 0, 2⟩ = some (.invalidString 1) := by decide
  obtain ⟨-, hdepth, -, -⟩ := hreached 3 _ _ hreaches
  exact ⟨(hnamed 3).2 ⟨_, _, _, _, hreaches, rfl, rfl, hfault⟩, rfl, hdepth.symm⟩

end Chunk

end LetPrint

import LetPrint.Bytecode
import LetPrint.Sink
import LetPrint.Word

/-!
# The stack machine

The machine runs any chunk, also one that nothing has checked: an instruction that lacks operands, or
names a slot or a string that is not there, stops the run with a fault.  Code has no jumps, so the
instructions run one after the other up to `halt`, a fault or the end.

Memory is taken as unbounded: a run has as many slots as its chunk asks for, and room for every word
that is pushed.  A chunk made by hand can ask for more than any real machine has.
-/

namespace LetPrint

open Text

/-- Why an instruction cannot run. -/
inductive MachineFault where
  | underflow
  | invalidSlot (slot : Int32)
  | invalidString (index : Int32)
  | unknownOpcode (code : UInt8)
  deriving DecidableEq, Repr

/-- The wording of a fault. -/
def MachineFault.message : MachineFault → Bytes
  | .underflow => utf8 "stack underflow"
  | .invalidSlot slot => utf8 "invalid slot " ++ integer slot.toInt
  | .invalidString index => utf8 "invalid string " ++ integer index.toInt
  | .unknownOpcode code => utf8 "unknown opcode " ++ decimal code.toNat

/-- How a run ends. -/
inductive MachineStop where
  /-- At the end of the code. -/
  | finished
  /-- At a `halt`. -/
  | halted
  /-- At the instruction with this index, by a fault. -/
  | faulted (pc : Nat) (instruction : Instruction) (fault : MachineFault)
  /-- The sink refused a write. -/
  | refused
  deriving DecidableEq, Repr

/-- The diagnostic of a run that ends badly. -/
def MachineStop.diagnostic? : MachineStop → Option Diagnostic
  | .finished | .halted => none
  | .faulted pc i fault =>
    some <| .verification <|
      utf8 "vm at " ++ zeroPadded 3 pc ++ utf8 " (" ++ i.render ++ utf8 ", line "
        ++ integer i.line ++ utf8 "): " ++ fault.message
  | .refused => some Sink.refusal

/-- The stack, top first, the slots and the output. -/
structure Machine where
  stack : List Int32 := []
  slots : List Int32
  out : Sink
  deriving Repr

/-- Why a step cannot be taken. -/
inductive StepFault where
  | fault (f : MachineFault)
  | refused
  deriving DecidableEq, Repr

/-- The element of a list at a word index. -/
def atWord? {α : Type} (items : List α) (index : Int32) : Option α :=
  if index.toInt < 0 then none else items[index.toInt.toNat]?

namespace Machine

/-- Push a word. -/
def push (m : Machine) (n : Int32) : Machine :=
  { m with stack := n :: m.stack }

/-- Take the top of the stack. -/
def pop (m : Machine) : Except StepFault (Int32 × Machine) :=
  match m.stack with
  | n :: stack => .ok (n, { m with stack })
  | [] => .error (.fault .underflow)

/-- Replace two words by the result of an operation; the right operand is on top. -/
def binary (m : Machine) (op : Int32 → Int32 → Int32) : Except StepFault Machine := do
  let (b, m) ← m.pop
  let (a, m) ← m.pop
  return m.push (op a b)

/-- Write to the output. -/
def emit (m : Machine) (text : Bytes) : Except StepFault Machine :=
  match m.out.write? text with
  | some out => .ok { m with out }
  | none => .error .refused

/-- Run one instruction; `halt` does nothing here. -/
def step (strings : List Bytes) (m : Machine) (i : Instruction) : Except StepFault Machine :=
  match i.opcode with
  | .const | .str => .ok (m.push i.operand)
  | .neg => do
    let (a, m) ← m.pop
    return m.push (-a)
  | .add => m.binary (· + ·)
  | .sub => m.binary (· - ·)
  | .mul => m.binary (· * ·)
  | .div => m.binary divide
  | .load =>
    match atWord? m.slots i.operand with
    | some n => .ok (m.push n)
    | none => .error (.fault (.invalidSlot i.operand))
  | .store => do
    let (n, m) ← m.pop
    match atWord? m.slots i.operand with
    | some _ => return { m with slots := m.slots.set i.operand.toInt.toNat n }
    | none => .error (.fault (.invalidSlot i.operand))
  | .printInt => do
    let (n, m) ← m.pop
    m.emit (integer n.toInt ++ [newline])
  | .printStr => do
    let (n, m) ← m.pop
    match atWord? strings n with
    | some text => m.emit (text ++ [newline])
    | none => .error (.fault (.invalidString n))
  | .halt => .ok m
  | .illegal code => .error (.fault (.unknownOpcode code))

/-- Run the instructions from the one with index `pc` on. -/
def run (strings : List Bytes) : Nat → Machine → List Instruction → Machine × MachineStop
  | _, m, [] => (m, .finished)
  | pc, m, i :: rest =>
    if i.opcode = .halt then (m, .halted)
    else
      match m.step strings i with
      | .ok m' => run strings (pc + 1) m' rest
      | .error (.fault f) => (m, .faulted pc i f)
      | .error .refused => (m, .refused)

end Machine

namespace Chunk

/-- Run a chunk on an empty stack and slots that hold 0: the output, and how the run ended. -/
def execute (c : Chunk) (out : Sink) : Sink × MachineStop :=
  let (m, stop) := Machine.run c.strings 0 { slots := List.replicate c.slots 0, out } c.code
  (m.out, stop)

/-- What tracing shows of a run: a listing of the code, and whether it came to a `halt`. -/
def executeTrace (c : Chunk) (stop : MachineStop) : Bytes :=
  utf8 "Bytecode gerado (" ++ decimal c.code.length ++ utf8 " instruções):\n"
    ++ (c.code.zipIdx.flatMap fun (i, pc) =>
      utf8 "  " ++ zeroPadded 3 pc ++ utf8 ": " ++ i.render ++ utf8 "\n")
    ++ utf8 "\n"
    ++ (if stop = .halted then utf8 "Execução concluída!\n" else [])

end Chunk

end LetPrint

import LetPrint.Ir.Verify
import LetPrint.Proofs.Passes

/-!
# Running a module

What the instructions of a module do, and where they are undefined.  A run goes through the one block
of `main`, instruction by instruction, and ends with what was printed and the status that is returned.

* Words wrap.  A signed division has no result for the divisor 0, nor for the least word divided
  by -1.
* Every `alloca` makes a cell of its own.  A cell holds nothing until something is stored in it, and
  a load from it then has no result either.
* `printf` is the only function that can be called.  It writes its format up to the first zero byte,
  with `%d` replaced by a decimal numeral and `%s` by a constant up to its first zero byte.

A run that comes to something undefined, to an operand without a value or to operands of the wrong
type is stuck (`Stuck`), so a run with an outcome has met none of these.
-/

namespace LetPrint.Ir

open Text

/-- A value at run time. -/
inductive Datum where
  | word (n : Int32)
  | truth (b : Bool)
  /-- The address of a cell. -/
  | cell (index : Nat)
  /-- The address of a constant. -/
  | constant (name : Bytes)
  /-- The address of the first byte of a constant. -/
  | text (name : Bytes)
  deriving DecidableEq, Repr

/-- Why a run cannot go on. -/
inductive Stuck where
  /-- An operand has no value. -/
  | noValue (o : Operand)
  /-- A result is computed a second time. -/
  | redefined (r : Register)
  /-- A quotient that is not defined. -/
  | division (a b : Int32)
  /-- A load from a cell that holds nothing yet. -/
  | unset (index : Nat)
  /-- Operands of the wrong type. -/
  | mistyped
  /-- A call of anything but `printf`, or of `printf` with arguments that do not suit the format. -/
  | badCall
  /-- An instruction that is known by its text only. -/
  | unknown (text : Bytes)
  /-- A module without a `main` of one block that returns a word. -/
  | badEntry
  deriving DecidableEq, Repr

/-- The state of a run: the results so far, newest first, the cells with their types and contents,
and what was printed. -/
structure Frame where
  registers : List (Register × Datum) := []
  cells : List (Ty × Option Datum) := []
  out : Bytes := []
  deriving DecidableEq, Repr

/-! ## Registers and cells -/

/-- Whether a cell of the given type can hold a datum. -/
def Datum.fits (d : Datum) (ty : Ty) : Bool :=
  match d with
  | word _ => ty == .i32
  | truth _ => ty == .i1
  | text _ => ty == .bytePtr
  | cell _ | constant _ => false

namespace Frame

/-- The result in a register. -/
def find? (s : Frame) (r : Register) : Option Datum :=
  s.registers.lookup r

/-- The frame with one more result. -/
def set (s : Frame) (r : Register) (d : Datum) : Frame :=
  { s with registers := (r, d) :: s.registers }

/-- Keep a result; no register gets a second one. -/
def define (s : Frame) (r : Register) (d : Datum) : Except Stuck Frame :=
  if (s.find? r).isSome then .error (.redefined r) else .ok (s.set r d)

/-- What the cell at an address holds. -/
def load (s : Frame) (ty : Ty) : Datum → Except Stuck Datum
  | .cell k =>
    match s.cells[k]? with
    | some (held, some d) => if held = ty then .ok d else .error .mistyped
    | some (_, none) => .error (.unset k)
    | none => .error .mistyped
  | _ => .error .mistyped

/-- The frame after a store to an address. -/
def store (s : Frame) (d : Datum) : Datum → Except Stuck Frame
  | .cell k =>
    match s.cells[k]? with
    | some (held, _) =>
      if d.fits held then .ok { s with cells := s.cells.set k (held, some d) }
      else .error .mistyped
    | none => .error .mistyped
  | _ => .error .mistyped

@[simp] theorem find?_set (s : Frame) (r other : Register) (d : Datum) :
    (s.set r d).find? other = if other = r then some d else s.find? other := by
  by_cases h : other = r
  · simp [find?, set, h]
  · simp [find?, set, h, List.lookup_cons, beq_false_of_ne h]

@[simp] theorem cells_set (s : Frame) (r : Register) (d : Datum) : (s.set r d).cells = s.cells :=
  rfl

@[simp] theorem out_set (s : Frame) (r : Register) (d : Datum) : (s.set r d).out = s.out := rfl

theorem define_of_find? {s : Frame} {r : Register} (h : s.find? r = none) (d : Datum) :
    s.define r d = .ok (s.set r d) := by
  simp [define, h]

end Frame

/-! ## Constants and formats -/

namespace Module

/-- The bytes of a constant. -/
def constant? (m : Module) (name : Bytes) : Option Bytes :=
  (m.globals.find? (·.name == name)).map (·.content)

/-- The bytes of a constant up to the first zero byte; there has to be one. -/
def textAt (m : Module) (name : Bytes) : Except Stuck Bytes :=
  match m.constant? name with
  | some content => if 0 ∈ content then .ok (content.takeWhile (· != 0)) else .error .badCall
  | none => .error .badCall

/-- What a format writes for the arguments that follow it. -/
def formatted (m : Module) : Bytes → List Datum → Except Stuck Bytes
  | [], _ => .ok []
  | [b], _ => if b = byte '%' then .error .badCall else .ok [b]
  | b :: c :: rest, args =>
    if b = byte '%' then
      match args with
      | .word n :: args =>
        if c = byte 'd' then (m.formatted rest args).map (integer n.toInt ++ ·)
        else .error .badCall
      | .text name :: args =>
        if c = byte 's' then do
          let text ← m.textAt name
          let more ← m.formatted rest args
          return text ++ more
        else .error .badCall
      | _ => .error .badCall
    else (m.formatted (c :: rest) args).map (b :: ·)

/-- What a call prints. -/
def printed (m : Module) (callee : Operand) (args : List Datum) : Except Stuck Bytes :=
  match callee, args with
  | .function f, .text name :: args =>
    if m.lists f && f.name == utf8 "printf" then do
      let format ← m.textAt name
      m.formatted format args
    else .error .badCall
  | _, _ => .error .badCall

/-- The address of the first byte of a constant of `size` bytes. -/
def firstByte (m : Module) (size : Nat) : Datum → Except Stuck Datum
  | .constant name =>
    if (m.constant? name).any (·.length == size) then .ok (.text name) else .error .mistyped
  | _ => .error .mistyped

end Module

/-! ## Instructions -/

/-- The value of an operand. -/
def Operand.value (m : Module) (s : Frame) : Operand → Except Stuck Datum
  | .int bits n =>
    if bits = 32 then .ok (.word (Int32.ofInt n))
    else if bits = 1 then .ok (.truth (n != 0))
    else .error (.noValue (.int bits n))
  | .register r ty =>
    match s.find? r with
    | some d => .ok d
    | none => .error (.noValue (.register r ty))
  | .global name size =>
    if (m.constant? name).any (·.length == size) then .ok (.constant name)
    else .error (.noValue (.global name size))
  | o => .error (.noValue o)

/-- The result of an instruction on two integers. -/
def Arith.apply : Arith → Datum → Datum → Except Stuck Datum
  | .add, .word a, .word b => .ok (.word (a + b))
  | .sub, .word a, .word b => .ok (.word (a - b))
  | .mul, .word a, .word b => .ok (.word (a * b))
  | .sdiv, .word a, .word b =>
    if b = 0 ∨ a = Int32.minValue ∧ b = -1 then .error (.division a b) else .ok (.word (a / b))
  | .or, .word a, .word b => .ok (.word (a ||| b))
  | .or, .truth a, .truth b => .ok (.truth (a || b))
  | _, _, _ => .error .mistyped

/-- Whether a relation holds between two words. -/
def Predicate.holds (p : Predicate) (a b : Int32) : Bool :=
  match p with
  | eq => a == b
  | ne => a != b
  | sgt => b < a
  | sge => b ≤ a
  | slt => a < b
  | sle => a ≤ b
  | ugt => b.toUInt32 < a.toUInt32
  | uge => b.toUInt32 ≤ a.toUInt32
  | ult => a.toUInt32 < b.toUInt32
  | ule => a.toUInt32 ≤ b.toUInt32

/-- Whether a relation holds between two data, which have to be words. -/
def Predicate.apply (p : Predicate) : Datum → Datum → Except Stuck Datum
  | .word a, .word b => .ok (.truth (p.holds a b))
  | _, _ => .error .mistyped

/-- One of two data, by a truth value. -/
def Datum.choose : Datum → Datum → Datum → Except Stuck Datum
  | .truth b, x, y => .ok (if b then x else y)
  | _, _, _ => .error .mistyped

/-- What an operation computes, if it has a result, and the frame after it. -/
def Operation.exec (m : Module) (s : Frame) : Operation → Except Stuck (Option Datum × Frame)
  | .alloca ty =>
    return (some (.cell s.cells.length), { s with cells := s.cells ++ [(ty, none)] })
  | .load ty source => do
    let address ← source.value m s
    let d ← s.load ty address
    return (some d, s)
  | .store value target => do
    let d ← value.value m s
    let address ← target.value m s
    let s ← s.store d address
    return (none, s)
  | .arith op x y => do
    let a ← x.value m s
    let b ← y.value m s
    let d ← op.apply a b
    return (some d, s)
  | .icmp predicate x y => do
    let a ← x.value m s
    let b ← y.value m s
    let d ← predicate.apply a b
    return (some d, s)
  | .select condition x y => do
    let c ← condition.value m s
    let a ← x.value m s
    let b ← y.value m s
    let d ← c.choose a b
    return (some d, s)
  | .call callee args => do
    let data ← args.mapM (·.value m s)
    let text ← m.printed callee data
    return (some (.word (Int32.ofNat text.length)), { s with out := s.out ++ text })
  | .firstByte size array => do
    let address ← array.value m s
    let d ← m.firstByte size address
    return (some d, s)
  | .other _ text _ => .error (.unknown text)

/-- The register of an instruction with the given index. -/
def Instruction.register (i : Instruction) (index : Nat) : Register :=
  i.name.elim (.unnamed index) .named

/-- The frame after an instruction. -/
def Instruction.exec (m : Module) (index : Nat) (s : Frame) (i : Instruction) :
    Except Stuck Frame := do
  match ← i.operation.exec m s with
  | (some d, s) => s.define (i.register index) d
  | (none, s) => return s

/-- The frame after some instructions, the first of which has the given index. -/
def execAll (m : Module) : Nat → Frame → List Instruction → Except Stuck Frame
  | _, s, [] => .ok s
  | index, s, i :: rest => do
    let s ← i.exec m index s
    execAll m (index + 1) s rest

/-! ## Whole modules -/

/-- How a run ends: what it printed, and the status it returns. -/
structure Outcome where
  output : Bytes
  status : Int32
  deriving DecidableEq, Repr

/-- Run a block that stands for itself. -/
def Block.execute (m : Module) (b : Block) : Except Stuck Outcome := do
  let s ← execAll m 0 {} b.instructions
  match b.terminator with
  | some (.ret value) =>
    match ← value.value m s with
    | .word status => return { output := s.out, status }
    | _ => .error .badEntry
  | _ => .error .badEntry

/-- Run a module from the start of its `main`. -/
def Module.execute (m : Module) : Except Stuck Outcome :=
  match m.functions.find? (·.name == entryName) with
  | some { blocks := [b], .. } => b.execute m
  | _ => .error .badEntry

end LetPrint.Ir

import LetPrint.Text.Bytes

/-!
# Intermediate representation

Modules of typed functions in single-assignment form.  What programs are lowered to, and what modules
are checked for, has constructors of its own.  All other types, operands, instructions and ends of blocks
of LLVM's representation are known by their text (`other`), so that any module can be checked.  Among them
are functions that are passed on or stored and not called.  Flags, alignments and attributes of
instructions are left out.

Every operand carries its type.  A result is referred to by its name, or, if it has none, by the index
of its instruction in the function; numbers for unnamed results are chosen only when a module is
printed.
-/

namespace LetPrint.Ir

/-- A first-class type. -/
inductive Ty where
  | void
  | int (bits : Nat)
  | float
  | double
  | array (size : Nat) (element : Ty)
  /-- A pointer into an address space. -/
  | ptr (target : Ty) (space : Nat := 0)
  | other (text : Bytes)
  deriving DecidableEq, Repr, Inhabited

/-- The type of a function. -/
structure Signature where
  ret : Ty
  params : List Ty := []
  variadic : Bool := false
  deriving DecidableEq, Repr, Inhabited

/-- The type of an operand: a plain type, or a pointer to a function. -/
inductive ValueTy where
  | plain (ty : Ty)
  | function (signature : Signature)
  deriving DecidableEq, Repr, Inhabited

/-- Words of the language. -/
def Ty.i32 : Ty := .int 32

/-- Truth values. -/
def Ty.i1 : Ty := .int 1

/-- Pointers to bytes. -/
def Ty.bytePtr : Ty := .ptr (.int 8)

/-- The result of an instruction: its name, or the index of the instruction in its function. -/
inductive Register where
  | named (name : Bytes)
  | unnamed (index : Nat)
  deriving DecidableEq, Repr, Inhabited

/-- A function as an operand: its place in the module's list, its name and its type.  A function
outside the list has a place that the list does not have. -/
structure FunctionRef where
  index : Nat
  name : Bytes
  signature : Signature
  deriving DecidableEq, Repr, Inhabited

/-- An operand. -/
inductive Operand where
  | int (bits : Nat) (n : Int)
  | undef (ty : Ty)
  | null (ty : Ty)
  | register (r : Register) (ty : ValueTy)
  | param (index : Nat) (ty : Ty)
  /-- The address of a constant array of `size` bytes. -/
  | global (name : Bytes) (size : Nat)
  | function (f : FunctionRef)
  | other (ty : Ty) (ident : Bytes)
  deriving DecidableEq, Repr, Inhabited

/-- The type of an operand. -/
def Operand.ty : Operand → ValueTy
  | int bits _ => .plain (.int bits)
  | undef ty => .plain ty
  | null ty => .plain ty
  | register _ ty => ty
  | param _ ty => .plain ty
  | global _ size => .plain (.ptr (.array size (.int 8)))
  | function f => .function f.signature
  | other ty _ => .plain ty

/-- An instruction on two integers. -/
inductive Arith where
  | add
  | sub
  | mul
  | sdiv
  | or
  deriving DecidableEq, Repr, Inhabited

/-- A relation between two integers, signed or unsigned. -/
inductive Predicate where
  | eq
  | ne
  | sgt
  | sge
  | slt
  | sle
  | ugt
  | uge
  | ult
  | ule
  deriving DecidableEq, Repr, Inhabited

/-- What an instruction does. -/
inductive Operation where
  /-- A new cell of the given type. -/
  | alloca (ty : Ty)
  | load (ty : Ty) (source : Operand)
  | store (value target : Operand)
  | arith (op : Arith) (x y : Operand)
  | icmp (predicate : Predicate) (x y : Operand)
  | select (condition x y : Operand)
  | call (callee : Operand) (args : List Operand)
  /-- The address of the first byte of a constant array of `size` bytes. -/
  | firstByte (size : Nat) (array : Operand)
  /-- Any other instruction with a result of the given type: its text up to the first operand, and the
  operands, each with the text that follows it. -/
  | other (ty : Ty) (text : Bytes) (operands : List (Operand × Bytes))
  deriving DecidableEq, Repr, Inhabited

/-- Whether two operands are equal. -/
def Operation.icmpEq (x y : Operand) : Operation :=
  .icmp .eq x y

/-- The type of an operation's result; `void` stands for no result. -/
def Operation.ty : Operation → ValueTy
  | alloca ty => .plain (.ptr ty)
  | load ty _ => .plain ty
  | store _ _ => .plain .void
  | arith _ x _ => x.ty
  | icmp _ _ _ => .plain .i1
  | select _ x _ => x.ty
  | call (.function f) _ => .plain f.signature.ret
  | call _ _ => .plain .void
  | firstByte _ _ => .plain .bytePtr
  | other ty _ _ => .plain ty

/-- An instruction, with the name of its result if it has one. -/
structure Instruction where
  name : Option Bytes := none
  operation : Operation
  deriving DecidableEq, Repr, Inhabited

/-- How a block ends. -/
inductive Terminator where
  | ret (value : Operand)
  | retVoid
  | unreachable
  /-- Any other end: its text up to the first operand, and the operands, each with the text that follows
  it. -/
  | other (text : Bytes) (operands : List (Operand × Bytes))
  deriving DecidableEq, Repr, Inhabited

/-- A block of instructions; a block built by hand may lack its terminator. -/
structure Block where
  name : Option Bytes := none
  instructions : List Instruction
  terminator : Option Terminator
  deriving DecidableEq, Repr, Inhabited

/-- A parameter of a function. -/
structure Param where
  name : Option Bytes := none
  ty : Ty
  deriving DecidableEq, Repr, Inhabited

/-- A function; without blocks it is only declared. -/
structure Function where
  name : Bytes
  ret : Ty
  params : List Param := []
  variadic : Bool := false
  blocks : List Block := []
  deriving DecidableEq, Repr, Inhabited

/-- The type of a function. -/
def Function.signature (f : Function) : Signature :=
  { ret := f.ret, params := f.params.map (·.ty), variadic := f.variadic }

/-- A private constant array of bytes. -/
structure Global where
  name : Bytes
  content : Bytes
  deriving DecidableEq, Repr, Inhabited

/-- A module. -/
structure Module where
  sourceName : Bytes := []
  triple : Bytes := []
  globals : List Global := []
  functions : List Function := []
  deriving DecidableEq, Repr, Inhabited

/-- Whether a module lists the function that an operand refers to. -/
def Module.lists (m : Module) (f : FunctionRef) : Bool :=
  m.functions[f.index]?.any fun g => g.name == f.name && g.signature == f.signature

end LetPrint.Ir

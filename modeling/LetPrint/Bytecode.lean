import LetPrint.Text.Bytes

/-!
# Bytecode

Straight-line code for a stack machine over 32-bit words.  Strings are kept in a table of their own
and are represented on the stack by their index in it.
-/

namespace LetPrint

open Text

/-- What an instruction does; `illegal` is a code without a meaning. -/
inductive Opcode where
  | const
  | str
  | neg
  | add
  | sub
  | mul
  | div
  | load
  | store
  | printInt
  | printStr
  | halt
  | illegal (code : UInt8)
  deriving DecidableEq, Repr, Inhabited

namespace Opcode

/-- The opcodes in the order of their codes, from 0. -/
def all : List Opcode :=
  [const, str, neg, add, sub, mul, div, load, store, printInt, printStr, halt]

/-- The opcode with a given code. -/
def ofCode (code : UInt8) : Opcode :=
  (all[code.toNat]?).getD (illegal code)

/-- The name shown in listings. -/
def name : Opcode → Bytes
  | const => utf8 "CONST"
  | str => utf8 "STR"
  | neg => utf8 "NEG"
  | add => utf8 "ADD"
  | sub => utf8 "SUB"
  | mul => utf8 "MUL"
  | div => utf8 "DIV"
  | load => utf8 "LOAD"
  | store => utf8 "STORE"
  | printInt => utf8 "PRINT_INT"
  | printStr => utf8 "PRINT_STR"
  | halt => utf8 "HALT"
  | illegal _ => utf8 "UNKNOWN"

/-- Whether the operand means something. -/
def takesOperand : Opcode → Bool
  | const | str | load | store => true
  | _ => false

end Opcode

/-- An instruction, with the line of the statement it was made for. -/
structure Instruction where
  opcode : Opcode
  operand : Int32
  line : Int
  deriving DecidableEq, Repr, Inhabited

/-- The opcode's name, and the operand where it means something. -/
def Instruction.render (i : Instruction) : Bytes :=
  if i.opcode.takesOperand then i.opcode.name ++ utf8 " " ++ integer i.operand.toInt
  else i.opcode.name

/-- Code, its strings, and the number of slots it uses. -/
structure Chunk where
  code : List Instruction := []
  strings : List Bytes := []
  slots : Nat := 0
  deriving DecidableEq, Repr, Inhabited

end LetPrint

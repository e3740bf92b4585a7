import LetPrint.Diagnostic
import LetPrint.Ir.Text

/-!
# Checking modules

The structural rules that a module has to meet before an object is made of it.  `Module.fault?` names
the first rule that is broken, in the order of the text.
-/

namespace LetPrint.Ir

open Text

/-- A rule that a module breaks. -/
inductive Fault where
  | noEntry
  | entryReturns (ty : Ty)
  | unterminated (block : Bytes) (function : Bytes)
  | undeclaredCallee (ident : Bytes)
  | argumentCount (callee : Bytes) (given wanted : Nat)
  | argumentType (position : Nat) (callee : Bytes) (given : ValueTy) (wanted : Ty)
  | notAPointer (access : Bytes) (ident : Bytes)
  | pointerType (access : Bytes) (value pointer : ValueTy)
  | operandTypes (instruction : Bytes) (x y : ValueTy)
  | returnsVoid (function : Bytes) (wanted : Ty)
  | returnType (function : Bytes) (given : ValueTy) (wanted : Ty)
  deriving DecidableEq, Repr

/-- The wording of a fault. -/
def Fault.message : Fault → Bytes
  | noEntry => utf8 "module has no definition of @main"
  | entryReturns ty => utf8 "@main must return i32, returns " ++ ty.text
  | unterminated block function =>
    utf8 "block " ++ block ++ utf8 " in @" ++ function ++ utf8 " has no terminator"
  | undeclaredCallee ident => utf8 "call to undeclared function " ++ ident
  | argumentCount callee given wanted =>
    utf8 "call to @" ++ callee ++ utf8 " with " ++ decimal given ++ utf8 " arguments, want "
      ++ decimal wanted
  | argumentType position callee given wanted =>
    utf8 "argument " ++ decimal position ++ utf8 " of call to @" ++ callee ++ utf8 " has type "
      ++ given.text ++ utf8 ", want " ++ wanted.text
  | notAPointer access ident => access ++ utf8 " through non-pointer " ++ ident
  | pointerType access value pointer =>
    access ++ utf8 " of " ++ value.text ++ utf8 " through " ++ pointer.text
  | operandTypes instruction x y =>
    instruction ++ utf8 " with mismatched operand types " ++ x.text ++ utf8 " and " ++ y.text
  | returnsVoid function wanted =>
    utf8 "@" ++ function ++ utf8 " returns void, want " ++ wanted.text
  | returnType function given wanted =>
    utf8 "@" ++ function ++ utf8 " returns " ++ given.text ++ utf8 ", want " ++ wanted.text

/-- The diagnostic of a fault. -/
def Fault.diagnostic (f : Fault) : Diagnostic :=
  .verification f.message

/-- The function that a program starts with. -/
def entryName : Bytes := utf8 "main"

/-- The 64-bit integer that a name spells in decimal, with a sign or without. -/
def spelledInteger? (name : Bytes) : Option Int :=
  let negative := name.head? == some (byte '-')
  let digits := if negative || name.head? == some (byte '+') then name.drop 1 else name
  let value : Int := if negative then -(decimalValue digits : Int) else decimalValue digits
  if !digits.isEmpty && digits.all isDigit && -Int.pow 2 63 ≤ value && value < Int.pow 2 63 then some value
  else none

/-- A function's name in messages.  Without one it is number 0, and a name that spells an integer is
that integer in quotes. -/
def shownName (name : Bytes) : Bytes :=
  if name.isEmpty then utf8 "0"
  else
    match spelledInteger? name with
    | some n => quoted (integer n)
    | none => name

/-- The first argument whose type is not that of its parameter; `position` is that of the first
argument given. -/
def argumentFault? (callee : Bytes) : Nat → List Operand → List Ty → Option Fault
  | position, arg :: args, param :: params =>
    if arg.ty = .plain param then argumentFault? callee (position + 1) args params
    else some (.argumentType position callee arg.ty param)
  | _, _, _ => none

/-- The fault of a call. -/
def callFault? (m : Module) (callee : Operand) (args : List Operand) : Option Fault :=
  match callee with
  | .function f =>
    if m.lists f then
      let wanted := f.signature.params.length
      if args.length < wanted || (!f.signature.variadic && args.length != wanted) then
        some (.argumentCount (shownName f.name) args.length wanted)
      else argumentFault? (shownName f.name) 1 args f.signature.params
    else some (.undeclaredCallee (callee.ident {}))
  | _ => some (.undeclaredCallee (callee.ident {}))

/-- The fault of an access to a value of type `value` through `pointer`. -/
def accessFault? (access : Bytes) (pointer : Operand) (value : ValueTy) : Option Fault :=
  match pointer.ty with
  | .plain (.ptr target _) =>
    if value = .plain target then none else some (.pointerType access value pointer.ty)
  | .function _ => some (.pointerType access value pointer.ty)
  | _ => some (.notAPointer access (pointer.ident {}))

/-- The fault of two operands that ought to have one type. -/
def sameTypeFault? (instruction : Bytes) (x y : Operand) : Option Fault :=
  if x.ty = y.ty then none else some (.operandTypes instruction x.ty y.ty)

/-- The fault of an operation. -/
def Operation.fault? (m : Module) : Operation → Option Fault
  | call callee args => callFault? m callee args
  | store value target => accessFault? (utf8 "store") target value.ty
  | load ty source => accessFault? (utf8 "load") source (.plain ty)
  | arith .or _ _ => none
  | arith op x y => sameTypeFault? op.name x y
  | icmp _ x y => sameTypeFault? (utf8 "icmp") x y
  | select _ x y => sameTypeFault? (utf8 "select") x y
  | alloca _ => none
  | firstByte _ _ => none
  | other _ _ _ => none

/-- The fault of a block's end. -/
def Terminator.fault? (f : Function) : Terminator → Option Fault
  | ret value =>
    if value.ty = .plain f.ret then none else some (.returnType (shownName f.name) value.ty f.ret)
  | retVoid => if f.ret = .void then none else some (.returnsVoid (shownName f.name) f.ret)
  | unreachable => none
  | other _ _ => none

/-- The first fault of a block. -/
def Block.fault? (m : Module) (f : Function) (b : Block) : Option Fault :=
  match b.terminator with
  | none => some (.unterminated (localIdent b.name none) (shownName f.name))
  | some t =>
    (b.instructions.findSome? fun i => i.operation.fault? m).or (t.fault? f)

/-- The fault of the entry function: the last function of that name has to be defined and to return
a word. -/
def Module.entryFault? (m : Module) : Option Fault :=
  match m.functions.reverse.find? (·.name == entryName) with
  | none => some .noEntry
  | some f =>
    if f.blocks.isEmpty then some .noEntry
    else if f.ret = .i32 then none
    else some (.entryReturns f.ret)

/-- The first fault of a module. -/
def Module.fault? (m : Module) : Option Fault :=
  m.entryFault?.or (m.functions.findSome? fun f => f.blocks.findSome? fun b => b.fault? m f)

/-- Accept a module, or name its first fault. -/
def Module.verify (m : Module) : Except Fault Unit :=
  match m.fault? with
  | none => .ok ()
  | some fault => .error fault

end LetPrint.Ir

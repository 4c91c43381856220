import TapeCode.ValueType

/-!
# Opcodes

The kinds of instruction of the intermediate program, with what is known of each one beforehand:
its name, how many arguments it takes, and which values it takes from the stack and leaves there.
-/
namespace TapeCode

inductive Opcode
  | nop
  | breakpoint
  | printInt
  | readChar
  | printChar
  | pushInt
  | popInt
  | dupInt
  | swapInt
  | not
  | add
  | sub
  | mul
  | div
  | greater
  | ifElseBegin
  | ifElseElse
  | ifElseEnd
  | fsmBegin
  | fsmEnd
  | fsmCase
  | fsmJump
  | fsmIf
  | fsmCall
  | fsmReturn
  | jump
  | jumpIf
  | label
  | invoke
  | leave
  | readLocal
  | writeLocal
  | clearLocal
  deriving DecidableEq, Repr

/-- How many arguments an instruction takes. Markers and the instructions on local variables take
as many as they are given. -/
inductive Arity
  | fixed (count : Nat)
  | variable
  deriving DecidableEq, Repr

/-- What is known of an opcode: `inputs` are the types it takes from the stack and `outputs` those
it leaves there, the top of the stack last; a list that depends on the function called is absent. -/
structure Prototype where
  name : String
  arity : Arity
  inputs : Option (List ValueType)
  outputs : Option (List ValueType)
  deriving DecidableEq, Repr

namespace Opcode

/-- All opcodes in the order of their numbers. -/
def all : List Opcode :=
  [.nop, .breakpoint, .printInt, .readChar, .printChar, .pushInt, .popInt, .dupInt, .swapInt, .not,
    .add, .sub, .mul, .div, .greater, .ifElseBegin, .ifElseElse, .ifElseEnd, .fsmBegin, .fsmEnd,
    .fsmCase, .fsmJump, .fsmIf, .fsmCall, .fsmReturn, .jump, .jumpIf, .label, .invoke, .leave,
    .readLocal, .writeLocal, .clearLocal]

def prototype : Opcode → Prototype
  | .nop => ⟨"nop", .variable, some [], some []⟩
  | .breakpoint => ⟨"breakpoint", .fixed 0, some [], some []⟩
  | .printInt => ⟨"printInt", .fixed 0, some [.int], some [.int]⟩
  | .readChar => ⟨"readChar", .fixed 0, some [], some [.int]⟩
  | .printChar => ⟨"printChar", .fixed 0, some [.int], some [.int]⟩
  | .pushInt => ⟨"pushInt", .fixed 1, some [], some [.int]⟩
  | .popInt => ⟨"popInt", .fixed 0, some [.int], some []⟩
  | .dupInt => ⟨"dupInt", .fixed 0, some [.int], some [.int, .int]⟩
  | .swapInt => ⟨"swapInt", .fixed 0, some [.int, .int], some [.int, .int]⟩
  | .not => ⟨"not", .fixed 0, some [.laxBool], some [.bool]⟩
  | .add => ⟨"add", .fixed 0, some [.int, .int], some [.int]⟩
  | .sub => ⟨"sub", .fixed 0, some [.int, .int], some [.int]⟩
  | .mul => ⟨"mul", .fixed 0, some [.int, .int], some [.int]⟩
  | .div => ⟨"div", .fixed 0, some [.int, .int], some [.int]⟩
  | .greater => ⟨"greater", .fixed 0, some [.int, .int], some [.int]⟩
  | .ifElseBegin => ⟨"ifElseBegin", .fixed 0, some [.int], some []⟩
  | .ifElseElse => ⟨"ifElseElse", .fixed 0, some [], some []⟩
  | .ifElseEnd => ⟨"ifElseEnd", .fixed 0, some [], some []⟩
  | .fsmBegin => ⟨"fsmBegin", .fixed 1, some [], some [.int]⟩
  | .fsmEnd => ⟨"fsmEnd", .fixed 0, some [.fsm], some []⟩
  | .fsmCase => ⟨"fsmCase", .fixed 0, some [.fsm], some []⟩
  | .fsmJump => ⟨"fsmJmp", .fixed 1, some [], some [.fsm]⟩
  | .fsmIf => ⟨"fsmIf", .fixed 2, some [.laxBool], some [.fsm]⟩
  | .fsmCall => ⟨"fsmCall", .fixed 1, none, some [.fsm]⟩
  | .fsmReturn => ⟨"fsmReturn", .fixed 0, some [.fsm], some [.fsm]⟩
  | .jump => ⟨"jump", .fixed 1, some [], some []⟩
  | .jumpIf => ⟨"jumpIf", .fixed 1, some [.laxBool], some []⟩
  | .label => ⟨"label", .fixed 1, some [], some []⟩
  | .invoke => ⟨"invoke", .fixed 1, none, none⟩
  | .leave => ⟨"return", .fixed 0, some [], some []⟩
  | .readLocal => ⟨"readLocal", .variable, some [], some [.int]⟩
  | .writeLocal => ⟨"writeLocal", .variable, some [.int], some []⟩
  | .clearLocal => ⟨"clearLocal", .variable, some [], some []⟩

def name (opcode : Opcode) : String := opcode.prototype.name

def ofName? (name : String) : Option Opcode := all.find? (·.name = name)

/-- Control transfers are the instructions behind which another one need not follow. -/
def isTransfer : Opcode → Bool
  | .jump | .jumpIf | .invoke | .leave => true
  | _ => false

end Opcode

/-- How many values are taken and left, where the numbers are known beforehand. -/
structure StackEffect where
  pops : Nat
  pushes : Nat
  deriving DecidableEq, Repr

def Prototype.stackEffect? (prototype : Prototype) : Option StackEffect :=
  match prototype.inputs, prototype.outputs with
  | some inputs, some outputs => some ⟨inputs.length, outputs.length⟩
  | _, _ => none

end TapeCode

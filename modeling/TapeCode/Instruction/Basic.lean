import TapeCode.Instruction.Opcode

/-!
# Instructions

An instruction is an opcode with its arguments. The number of arguments is part of the type, so
every instruction there is has the number that its opcode asks for; `Instruction.make` is the
checked way from an opcode and any arguments.

The arguments of the instructions on local variables are the numbers of the value types in the heap
slots from the first one up to the slot addressed.
-/
namespace TapeCode

inductive Instruction
  | nop (markers : List Int)
  | breakpoint
  | printInt
  | readChar
  | printChar
  | pushInt (value : Int)
  | popInt
  | dupInt
  | swapInt
  | not
  | add
  | sub
  | mul
  | div
  | greater
  | ifElseBegin
  | ifElseElse
  | ifElseEnd
  | fsmBegin (count : Int)
  | fsmEnd
  | fsmCase
  | fsmJump (target : Int)
  | fsmIf (nonzero zero : Int)
  | fsmCall (target : Int)
  | fsmReturn
  | jump (target : Int)
  | jumpIf (target : Int)
  | label (id : Int)
  | invoke (function : Int)
  | leave
  | readLocal (layout : List Int)
  | writeLocal (layout : List Int)
  | clearLocal (layout : List Int)
  deriving DecidableEq, Repr, Inhabited

abbrev Listing := List Instruction

namespace Instruction

def opcode : Instruction → Opcode
  | nop _ => .nop
  | breakpoint => .breakpoint
  | printInt => .printInt
  | readChar => .readChar
  | printChar => .printChar
  | pushInt _ => .pushInt
  | popInt => .popInt
  | dupInt => .dupInt
  | swapInt => .swapInt
  | not => .not
  | add => .add
  | sub => .sub
  | mul => .mul
  | div => .div
  | greater => .greater
  | ifElseBegin => .ifElseBegin
  | ifElseElse => .ifElseElse
  | ifElseEnd => .ifElseEnd
  | fsmBegin _ => .fsmBegin
  | fsmEnd => .fsmEnd
  | fsmCase => .fsmCase
  | fsmJump _ => .fsmJump
  | fsmIf _ _ => .fsmIf
  | fsmCall _ => .fsmCall
  | fsmReturn => .fsmReturn
  | jump _ => .jump
  | jumpIf _ => .jumpIf
  | label _ => .label
  | invoke _ => .invoke
  | leave => .leave
  | readLocal _ => .readLocal
  | writeLocal _ => .writeLocal
  | clearLocal _ => .clearLocal

def arguments : Instruction → List Int
  | nop arguments | readLocal arguments | writeLocal arguments | clearLocal arguments => arguments
  | pushInt argument | fsmBegin argument | fsmJump argument | fsmCall argument | jump argument
  | jumpIf argument | label argument | invoke argument => [argument]
  | fsmIf nonzero zero => [nonzero, zero]
  | _ => []

/-- The instruction of an opcode with these arguments, if their number is right. -/
def make? : Opcode → List Int → Option Instruction
  | .nop, markers => some (nop markers)
  | .breakpoint, [] => some breakpoint
  | .printInt, [] => some printInt
  | .readChar, [] => some readChar
  | .printChar, [] => some printChar
  | .pushInt, [value] => some (pushInt value)
  | .popInt, [] => some popInt
  | .dupInt, [] => some dupInt
  | .swapInt, [] => some swapInt
  | .not, [] => some not
  | .add, [] => some add
  | .sub, [] => some sub
  | .mul, [] => some mul
  | .div, [] => some div
  | .greater, [] => some greater
  | .ifElseBegin, [] => some ifElseBegin
  | .ifElseElse, [] => some ifElseElse
  | .ifElseEnd, [] => some ifElseEnd
  | .fsmBegin, [count] => some (fsmBegin count)
  | .fsmEnd, [] => some fsmEnd
  | .fsmCase, [] => some fsmCase
  | .fsmJump, [target] => some (fsmJump target)
  | .fsmIf, [nonzero, zero] => some (fsmIf nonzero zero)
  | .fsmCall, [target] => some (fsmCall target)
  | .fsmReturn, [] => some fsmReturn
  | .jump, [target] => some (jump target)
  | .jumpIf, [target] => some (jumpIf target)
  | .label, [id] => some (label id)
  | .invoke, [function] => some (invoke function)
  | .leave, [] => some leave
  | .readLocal, layout => some (readLocal layout)
  | .writeLocal, layout => some (writeLocal layout)
  | .clearLocal, layout => some (clearLocal layout)
  | _, _ => none

end Instruction

/-- Why a text or an opcode with arguments is no instruction. -/
inductive InstructionError
  | unknownName (name : String)
  | argumentCount (name : String) (expected got : Nat)
  | malformed (text : String)
  | invalidArgument (argument text : String)
  deriving DecidableEq, Repr

def InstructionError.message : InstructionError → String
  | .unknownName name => s!"cannot find instruction {name}"
  | .argumentCount name expected got =>
    s!"illegal argument count for {name}: expected {expected}, got {got}"
  | .malformed text => s!"invalid instruction syntax: '{text}'"
  | .invalidArgument argument text => s!"invalid argument '{argument}' in '{text}'"

/-- The instruction of an opcode with these arguments. -/
def Instruction.make (opcode : Opcode) (arguments : List Int) :
    Except InstructionError Instruction :=
  match make? opcode arguments with
  | some instruction => .ok instruction
  | none =>
    let expected := match opcode.prototype.arity with
      | .fixed count => count
      | .variable => arguments.length
    .error (.argumentCount opcode.name expected arguments.length)

/-- Whether a number fits the 32 bits that an argument has in text and in binary programs. -/
def fitsArgument (n : Int) : Bool := -2147483648 ≤ n && n ≤ 2147483647

end TapeCode

import TapeCode.Stack.Basic

/-!
# Running state machines

The stack machine with the cases of a state machine. The machine stands in a case, before one of its
instructions; the last instruction of a case selects the next one. A call leaves the case behind the
calling one on the stack, and a return selects the case it finds there. How the stack keeps the
number of a case is left open: as an address that no instruction looks into, or as a byte, which is
what it is on a tape. The cases count from one; the number behind the last case leaves the machine.
-/
namespace TapeCode

/-- How a case selects the next one. -/
inductive CaseDispatch
  | jump (target : Int)
  | branch (nonzero zero : Int)
  | call (target : Int)
  | back
  deriving DecidableEq, Repr

/-- One case of a state machine. -/
structure MachineCase where
  body : Listing
  dispatch : CaseDispatch
  deriving DecidableEq, Repr

def CaseDispatch.instruction : CaseDispatch → Instruction
  | .jump target => .fsmJump target
  | .branch nonzero zero => .fsmIf nonzero zero
  | .call target => .fsmCall target
  | .back => .fsmReturn

def MachineCase.listing (source : MachineCase) : Listing :=
  .fsmCase :: source.body ++ [source.dispatch.instruction]

/-- The stream of instructions for a state machine. -/
def machineListing (cases : List MachineCase) : Listing :=
  .fsmBegin cases.length :: cases.flatMap (·.listing) ++ [.fsmEnd]

/-- How the stack keeps the number of a case. -/
structure CaseKeeping (α : Type) where
  keep : Int → StackValue α
  find? : StackValue α → Option Int

namespace CaseKeeping

/-- Numbers of cases are addresses. -/
def asAddress : CaseKeeping Int where
  keep := .address
  find?
    | .address number => some number
    | .byte _ => none

/-- Numbers of cases are bytes like all others. -/
def asByte : CaseKeeping Empty where
  keep number := .byte (UInt8.ofInt number)
  find?
    | .byte value => some value.toNat

end CaseKeeping

namespace MachineCase

variable {α : Type}

/-- A state between two cases. -/
structure State (α : Type) where
  case : Int
  values : StackState α

/-- The case with that number, if the machine has it. -/
def find? (cases : List MachineCase) (number : Int) : Option MachineCase :=
  if 1 ≤ number then cases[(number - 1).toNat]? else none

/-- The number behind the last case stands for all ways out. -/
def target (cases : List MachineCase) (number : Int) : Int :=
  if number = -1 then cases.length + 1 else number

/-- The case that is selected next, and the values left to it. -/
def select? (keeping : CaseKeeping α) (cases : List MachineCase) (current : Int)
    (values : StackState α) : CaseDispatch → Option (State α)
  | .jump next => some ⟨target cases next, values⟩
  | .branch nonzero zero => do
    let (condition, values) ← values.popByte?
    return ⟨target cases (if condition ≠ 0 then nonzero else zero), values⟩
  | .call next => some ⟨target cases next, values.push (keeping.keep (current + 1))⟩
  | .back => do
    let (value, values) ← values.pop?
    return ⟨← keeping.find? value, values⟩

/-- One case, from its first instruction to its dispatch. -/
def step? (keeping : CaseKeeping α) (cases : List MachineCase) (ending : EndOfInput)
    (state : State α) : Option (State α) := do
  let current ← find? cases state.case
  let values ← state.values.executeAll? ending current.body
  select? keeping cases state.case values current.dispatch

def hasLeft (cases : List MachineCase) (state : State α) : Bool :=
  state.case = cases.length + 1

/-- The state in which the machine was left within so many cases, if it was. -/
def runFor (keeping : CaseKeeping α) (cases : List MachineCase) (ending : EndOfInput) :
    Nat → State α → Option (State α)
  | 0, state => if hasLeft cases state then some state else none
  | turns + 1, state =>
    if hasLeft cases state then some state
    else (step? keeping cases ending state).bind (runFor keeping cases ending turns)

end MachineCase

end TapeCode

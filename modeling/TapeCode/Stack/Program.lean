import TapeCode.Program.Basic
import TapeCode.Stack.Basic

/-!
# Running intermediate programs

The stack machine with the functions of a program. The machine stands at a place of the main block
or of a function. `invoke` leaves the place behind it on the stack and enters a function, `return`
goes back to the place on the stack, and jumps lead to a label of the same body.
-/
namespace TapeCode

/-- A place in a program: the function it lies in, if it is not in the main block, and the
instructions from there on. -/
structure ProgramPlace where
  function : Option Int
  rest : Listing
  deriving DecidableEq, Repr

/-- The instructions behind a label. -/
def Listing.behindLabel? (label : Int) : Listing → Option Listing
  | [] => none
  | instruction :: rest =>
    if instruction = .label label then some rest else behindLabel? label rest

structure ProgramState where
  place : ProgramPlace
  values : StackState ProgramPlace

namespace Program

/-- The instructions of a function, or of the main block. -/
def body? (program : Program) : Option Int → Option Listing
  | none => some program.main
  | some id => program.functions.get? id

def start (program : Program) (input : List UInt8) : ProgramState :=
  ⟨⟨none, program.main⟩, .start input⟩

/-- The state at a label of the body around `place`. -/
def jump? (program : Program) (place : ProgramPlace) (label : Int)
    (values : StackState ProgramPlace) : Option ProgramState := do
  let rest ← Listing.behindLabel? label (← program.body? place.function)
  return ⟨⟨place.function, rest⟩, values⟩

/-- One instruction. There is none behind the end of a body, and a machine that does not find what
its instruction needs is stuck. -/
def step? (program : Program) (ending : EndOfInput) (state : ProgramState) :
    Option ProgramState :=
  match state.place.rest with
  | [] => none
  | instruction :: rest =>
    let behind : ProgramPlace := ⟨state.place.function, rest⟩
    match instruction with
    | .label _ => some ⟨behind, state.values⟩
    | .jump label => program.jump? behind label state.values
    | .jumpIf label => do
      let (condition, values) ← state.values.popByte?
      if condition ≠ 0 then program.jump? behind label values else return ⟨behind, values⟩
    | .invoke id => do
      let body ← program.functions.get? id
      return ⟨⟨some id, body⟩, state.values.push (.address behind)⟩
    | .leave => do
      let (place, values) ← state.values.popAddress?
      return ⟨place, values⟩
    | instruction => do
      return ⟨behind, ← state.values.execute? ending instruction⟩

/-- A program ends at the end of its main block. -/
def hasFinished (state : ProgramState) : Bool :=
  state.place.function.isNone && state.place.rest.isEmpty

/-- The state in which the program ended within so many instructions, if it did. -/
def runFor (program : Program) (ending : EndOfInput) :
    Nat → ProgramState → Option ProgramState
  | 0, state => if hasFinished state then some state else none
  | turns + 1, state =>
    if hasFinished state then some state
    else (program.step? ending state).bind (runFor program ending turns)

end Program

end TapeCode

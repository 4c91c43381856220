import TapeCode.EndOfInput
import TapeCode.Tape.Operation

/-!
# The tape machine

Executes tape code one operation at a time. Running code need not end, so the runs here are given a
number of operations to execute at most, and answer whether they came to an end within it; a run
that did not can be continued from the state it left.
-/
namespace TapeCode

/-- The world around the machine: whether reading fails behind the last byte of the input, and how
many bytes the output takes. -/
structure Devices where
  inputFails : Bool := false
  outputCapacity : Option Nat := none
  deriving DecidableEq, Repr

structure MachineSettings where
  tapeLength : Nat := 30000
  stepLimit : Option Nat := none
  endOfInput : EndOfInput := .zero
  breakpoint : Option Char := some '#'
  devices : Devices := {}
  deriving DecidableEq, Repr

inductive DeviceFailure
  | input
  | output
  deriving DecidableEq, Repr

def DeviceFailure.message : DeviceFailure → String
  | .input => "input failed"
  | .output => "output full"

inductive RuntimeError
  | bracket (error : BracketError)
  | emptyTape
  | hugeTape
  | stepLimit (limit : Nat)
  | device (failure : DeviceFailure)
  deriving DecidableEq, Repr

def RuntimeError.message : RuntimeError → String
  | .bracket (.unmatchedOpen offset) => s!"runtime error: unmatched '[' at offset {offset}"
  | .bracket (.unmatchedClose offset) => s!"runtime error: unmatched ']' at offset {offset}"
  | .emptyTape => "runtime error: tape length must be positive"
  | .hugeTape => "capacity overflow"
  | .stepLimit limit => s!"runtime error: execution step limit exceeded ({limit})"
  | .device failure => s!"runtime error: i/o failed: {failure.message}"

/-- What does not change while code runs. -/
structure Loaded where
  operations : Array TapeOperation
  stepLimit : Option Nat
  endOfInput : EndOfInput
  devices : Devices
  deriving Repr

/-- The number `next` is the place of the operation to execute, and `steps` counts the operations
tried. -/
structure Machine where
  tape : Tape
  next : Nat
  steps : Nat
  input : List UInt8
  output : Array UInt8
  deriving Repr

inductive StepOutcome
  | running
  | breakpoint
  | halted
  deriving DecidableEq, Repr

/-- Code ready to run, and the machine before its first operation. -/
def Machine.load (settings : MachineSettings) (code : List Char) (input : List UInt8) :
    Except RuntimeError (Loaded × Machine) :=
  if positive : 0 < settings.tapeLength then
    match TapeOperation.decode settings.breakpoint code with
    | .error error => .error (.bracket error)
    | .ok operations =>
      .ok (⟨operations, settings.stepLimit, settings.endOfInput, settings.devices⟩,
        ⟨Tape.blank settings.tapeLength positive, 0, 0, input, #[]⟩)
  else .error .emptyTape

/-- Loading with any length of the tape, which has to fit a distance. -/
def Machine.loadWithAny (settings : MachineSettings) (code : List Char) (input : List UInt8) :
    Except RuntimeError (Loaded × Machine) :=
  if settings.tapeLength < Word.signedLimit then Machine.load settings code input
  else
    match TapeOperation.decode settings.breakpoint code with
    | .error error => .error (.bracket error)
    | .ok _ => .error .hugeTape

namespace Machine

def isHalted (loaded : Loaded) (machine : Machine) : Bool :=
  loaded.operations.size ≤ machine.next

/-- Reads a byte into the current cell. -/
def read (loaded : Loaded) : Machine → Machine × Option RuntimeError
  | ⟨tape, next, steps, byte :: input, output⟩ =>
    (⟨tape.put byte, next, steps, input, output⟩, none)
  | ⟨tape, next, steps, [], output⟩ =>
    if loaded.devices.inputFails then (⟨tape, next, steps, [], output⟩, some (.device .input))
    else
      let cell := loaded.endOfInput.replace tape.current
      (⟨tape.put cell, next, steps, [], output⟩, none)

/-- Writes the current cell to the output. -/
def write (loaded : Loaded) (machine : Machine) : Machine × Option RuntimeError :=
  if loaded.devices.outputCapacity.any (· ≤ machine.output.size) then
    (machine, some (.device .output))
  else
    let ⟨tape, next, steps, input, output⟩ := machine
    (⟨tape, next, steps, input, output.push tape.current⟩, none)

/-- The effect of an operation, without going on to the next one. The bracket at either end of a
loop leads to the other one when the loop is left out or repeated. An operation that fails has no
effect. -/
def execute (loaded : Loaded) (machine : Machine) :
    TapeOperation → Machine × Option RuntimeError
  | .move distance =>
    let ⟨tape, next, steps, input, output⟩ := machine
    (⟨tape.move distance, next, steps, input, output⟩, none)
  | .add amount =>
    let ⟨tape, next, steps, input, output⟩ := machine
    let sum := tape.current + amount
    (⟨tape.put sum, next, steps, input, output⟩, none)
  | .output => machine.write loaded
  | .input => machine.read loaded
  | .loopStart finish =>
    (if machine.tape.current = 0 then { machine with next := finish } else machine, none)
  | .loopEnd start =>
    (if machine.tape.current ≠ 0 then { machine with next := start } else machine, none)
  | .breakpoint => (machine, none)

/-- One operation. It is counted before it is tried, so a failing one is counted too; it changes
nothing else. -/
def step (loaded : Loaded) (machine : Machine) : Machine × Except RuntimeError StepOutcome :=
  match loaded.operations[machine.next]? with
  | none => (machine, .ok .halted)
  | some operation =>
    let counted := { machine with steps := machine.steps + 1 }
    match loaded.stepLimit.filter (· < counted.steps) with
    | some limit => (counted, .error (.stepLimit limit))
    | none =>
      match counted.execute loaded operation with
      | (after, some error) => (after, .error error)
      | (after, none) =>
        ({ after with next := after.next + 1 },
          .ok (if operation = .breakpoint then .breakpoint else .running))

/-- How a run ended: the code halted or failed, or there was more to execute. -/
inductive RunOutcome
  | halted
  | breakpoint
  | failed (error : RuntimeError)
  | unfinished
  deriving DecidableEq, Repr, Inhabited

/-- At most `turns` operations, up to a failure, the end of the code or, if `stops`, a
breakpoint. -/
def runFor (loaded : Loaded) (stops : Bool) : Nat → Machine → Machine × RunOutcome
  | 0, machine => (machine, .unfinished)
  | turns + 1, machine =>
    match machine.step loaded with
    | (machine, .error error) => (machine, .failed error)
    | (machine, .ok .halted) => (machine, .halted)
    | (machine, .ok .breakpoint) =>
      if stops then (machine, .breakpoint) else runFor loaded stops turns machine
    | (machine, .ok .running) => runFor loaded stops turns machine

end Machine

end TapeCode

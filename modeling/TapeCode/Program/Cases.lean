import TapeCode.Program.Flat

/-!
# Jumps become cases

A stream is cut into runs: a run starts at each label and behind each control transfer. Every run
becomes one case of a state machine, numbered from one in the order of the stream, and its label and
its transfer are replaced by a dispatch instruction that names the case to execute next. A run
without a transfer goes on to the next case; behind the last case that leaves the machine.
-/
namespace TapeCode

def Instruction.isTransfer (instruction : Instruction) : Bool := instruction.opcode.isTransfer

def Instruction.label? : Instruction → Option Int
  | .label id => some id
  | _ => none

namespace Cases

/-- Runs of instructions, none of them empty. -/
def runs : Listing → List Listing
  | [] => []
  | first :: rest =>
    match rest, runs rest with
    | next :: _, run :: others =>
      if first.isTransfer || next.label?.isSome then [first] :: run :: others
      else (first :: run) :: others
    | _, _ => [[first]]

def label? (run : Listing) : Option Int := run.head?.bind (·.label?)

/-- The run without its label. -/
def unlabelled (run : Listing) : Listing := if (label? run).isSome then run.tail else run

def transfer? (run : Listing) : Option Instruction :=
  (unlabelled run).getLast?.filter (·.isTransfer)

/-- The run without its label and its transfer. -/
def body (run : Listing) : Listing :=
  if (transfer? run).isSome then (unlabelled run).dropLast else unlabelled run

/-- The number of the last case with that label. -/
def caseOf (runs : List Listing) (label : Int) : Except LowerError Int :=
  match ((runs.zipIdx 1).reverse.find? fun (run, _) => label? run = some label) with
  | some (_, number) => .ok number
  | none => .error (.unknownLabel label)

/-- The instructions of one case up to its dispatch. A negation directly before a conditional jump
swaps its two targets instead. -/
def caseCode (all : List Listing) (run : Listing) (number : Nat) : Except LowerError Listing := do
  let body := body run
  let next : Int := number + 1
  match transfer? run with
  | some .leave => return .fsmCase :: body ++ [.fsmReturn]
  | some (.jump target) => return .fsmCase :: body ++ [.fsmJump (← caseOf all target)]
  | some (.invoke function) => return .fsmCase :: body ++ [.fsmCall (← caseOf all function)]
  | some (.jumpIf target) =>
    let target ← caseOf all target
    if body.getLast? = some .not then return .fsmCase :: body.dropLast ++ [.fsmIf next target]
    else return .fsmCase :: body ++ [.fsmIf target next]
  | _ => return .fsmCase :: body ++ [.fsmJump next]

def cases (all : List Listing) (number : Nat) : List Listing → Except LowerError Listing
  | [] => .ok []
  | run :: rest => do
    let code ← caseCode all run number
    return code ++ (← cases all (number + 1) rest)

/-- The state machine of a stream. A stream without jumps and with no label but at its start needs
none and stays as it is. -/
def ofStream (stream : Listing) : Except LowerError Listing :=
  let runs := runs stream
  let isStraight : Bool := match runs with
    | [] => true
    | [only] => (transfer? only).isNone
    | _ => false
  if isStraight then .ok stream
  else do
    let code ← cases runs 1 runs
    return .fsmBegin runs.length :: code ++ [.fsmEnd]

end Cases

/-- A single stream for the whole program, with a state machine in place of labels and jumps. -/
def Program.lower (program : Program) : Except LowerError Listing := do
  Cases.ofStream (← Flat.flatten program.main program.functions program.nextLabel)

end TapeCode

import TapeCode.Emit.Dispatch
import TapeCode.Emit.Template
import TapeCode.Instruction.Text

/-!
# Writing tape code

The writer turns a stream of instructions into tape code. It keeps the state machines that are open,
the innermost first, with the number of their cases begun so far. What an instruction does is a list
of effects in order: text to write, a change of the open machines, a failure. An instruction that
fails may have written a part of its text.

With debug information every instruction is followed by a line end and preceded by a comment, in
which the characters that mean something on the tape are replaced by similar ones.
-/
namespace TapeCode

structure CodeStyle where
  debugInfo : Bool := false
  debugBreakpoint : Bool := false
  breakpoint : Char := '#'
  deriving DecidableEq, Repr

inductive EmitError
  | unsupported (name : String)
  | layout (error : LayoutError)
  | caseCountMismatch (declared found : Int)
  | outsideMachine (name : String)
  | unterminated (machines : Nat)
  | tooManyCases (count : Int)
  | dispatch (error : DispatchError)
  | outputFull
  deriving DecidableEq, Repr

/-- A state machine that is being written: the cases begun and the cases declared. -/
structure OpenMachine where
  begun : Int
  count : Int
  deriving DecidableEq, Repr

def EmitError.message (error : EmitError) : String :=
  match error with
  | .dispatch (.overflow cause) => cause.message
  | .unsupported name => s!"codegen error: unsupported instruction: {name}"
  | .layout error => s!"codegen error: {error.message}"
  | .caseCountMismatch declared found =>
    s!"codegen error: illegal case count: declared {declared}, found {found}"
  | .outsideMachine name => s!"codegen error: {name} outside of an fsm"
  | .unterminated machines => s!"codegen error: {machines} fsm block(s) left open"
  | .tooManyCases count =>
    s!"codegen error: fsm with {count} cases exceeds the limit of {Dispatch.mostCases}"
  | .dispatch error => s!"codegen error: {error.message}"
  | .outputFull => "codegen error: writing output failed"

namespace Writer

inductive Effect
  | write (text : List Char)
  | machines (opened : List OpenMachine)
  | fail (error : EmitError)
  deriving DecidableEq, Repr

/-- The number that leads from the current case of the innermost machine to `target`. -/
def offset (opened : List OpenMachine) (name : String) (target : Int) : Except EmitError Int :=
  match opened with
  | [] => .error (.outsideMachine name)
  | machine :: _ => (Dispatch.caseOffset machine.begun target machine.count).mapError .dispatch

def jumpEffects (opened : List OpenMachine) (target : Int) : List Effect :=
  match offset opened Opcode.fsmJump.name target with
  | .error error => [.fail error]
  | .ok offset => [.write (Template.pushInt offset ++ Template.caseEnd)]

def branchEffects (opened : List OpenMachine) (nonzero zero : Int) : List Effect :=
  let name := Opcode.fsmIf.name
  match offset opened name nonzero, offset opened name zero with
  | .error error, _ | .ok _, .error error => [.fail error]
  | .ok nonzero, .ok zero =>
    [.write (Template.ifElseBegin ++ Template.pushInt nonzero ++ Template.ifElseElse ++
      Template.pushInt zero ++ Template.ifElseEnd ++ Template.caseEnd)]

/-- The return address of a call is the case behind the calling one. -/
def callEffects (opened : List OpenMachine) (target : Int) : List Effect :=
  match opened with
  | [] => [.fail (.outsideMachine Opcode.fsmCall.name)]
  | machine :: _ => .write (Template.pushInt (machine.begun + 1)) :: jumpEffects opened target

/-- The return address on the stack is made an offset by adding the rest of the current lap. -/
def returnEffects (opened : List OpenMachine) : List Effect :=
  match opened with
  | [] => [.fail (.outsideMachine Opcode.fsmReturn.name)]
  | machine :: _ =>
    if machine.count - machine.begun < Dispatch.smallest then
      [.fail (.dispatch (.overflow .subtraction))]
    else
      [.write (Template.pushInt (machine.count - machine.begun + 1) ++ Template.add ++
        Template.caseEnd)]

def beginEffects (opened : List OpenMachine) (count : Int) : List Effect :=
  if Dispatch.mostCases < count then [.fail (.tooManyCases count)]
  else [.machines (⟨0, count⟩ :: opened), .write Template.machineBegin]

def caseEffects (opened : List OpenMachine) : List Effect :=
  match opened with
  | [] => [.fail (.outsideMachine Opcode.fsmCase.name)]
  | machine :: outer =>
    [.machines (⟨machine.begun + 1, machine.count⟩ :: outer), .write Template.caseBegin]

def endEffects (opened : List OpenMachine) : List Effect :=
  match opened with
  | [] => [.fail (.outsideMachine Opcode.fsmEnd.name)]
  | machine :: outer =>
    [.write Template.machineEnd,
      if machine.begun = machine.count then .machines outer
      else .fail (.caseCountMismatch machine.count machine.begun)]

def heapEffects (code : Template.HeapWalk → List Char) (layout : List Int) : List Effect :=
  match Template.heapWalk layout with
  | .error error => [.fail (.layout error)]
  | .ok walk => [.write (code walk)]

/-- What the instruction itself does. -/
def bodyEffects (style : CodeStyle) (opened : List OpenMachine) : Instruction → List Effect
  | .nop _ => []
  | .breakpoint => [.write [style.breakpoint]]
  | .readChar => [.write Template.readChar]
  | .printChar => [.write Template.printChar]
  | .printInt => [.write Template.printInt]
  | .pushInt value => [.write (Template.pushInt value)]
  | .popInt => [.write Template.popInt]
  | .dupInt => [.write Template.dupInt]
  | .swapInt => [.write Template.swapInt]
  | .not => [.write Template.not]
  | .add => [.write Template.add]
  | .sub => [.write Template.sub]
  | .mul => [.write Template.mul]
  | .div => [.write Template.div]
  | .greater => [.write Template.greater]
  | .ifElseBegin => [.write Template.ifElseBegin]
  | .ifElseElse => [.write Template.ifElseElse]
  | .ifElseEnd => [.write Template.ifElseEnd]
  | .writeLocal layout => heapEffects (·.write) layout
  | .readLocal layout => heapEffects (·.read) layout
  | .clearLocal layout => heapEffects (·.erase) layout
  | .fsmBegin count => beginEffects opened count
  | .fsmEnd => endEffects opened
  | .fsmCase => caseEffects opened
  | .fsmJump target => jumpEffects opened target
  | .fsmIf nonzero zero => branchEffects opened nonzero zero
  | .fsmCall target => callEffects opened target
  | .fsmReturn => returnEffects opened
  | .jump _ => [.fail (.unsupported Opcode.jump.name)]
  | .jumpIf _ => [.fail (.unsupported Opcode.jumpIf.name)]
  | .label _ => [.fail (.unsupported Opcode.label.name)]
  | .invoke _ => [.fail (.unsupported Opcode.invoke.name)]
  | .leave => [.fail (.unsupported Opcode.leave.name)]

/-- A character as a comment may show it: nothing in a comment is a command or a breakpoint. -/
def inert (breakpoint c : Char) : Char :=
  match c with
  | '<' => '\x7b'
  | '>' => '\x7d'
  | '-' | '+' => '_'
  | '[' => '('
  | ']' => ')'
  | '.' => ':'
  | ',' => ';'
  | c => if c = breakpoint then '_' else c

/-- A line of comment, if comments are wanted. -/
def commentLine (style : CodeStyle) (text : List Char) : List Effect :=
  if style.debugInfo then [.write (text.map (inert style.breakpoint) ++ ['\n'])] else []

/-- All that one instruction does, its comment included. -/
def effects (style : CodeStyle) (opened : List OpenMachine) (instruction : Instruction) :
    List Effect :=
  (if style.debugBreakpoint then [.write [style.breakpoint]] else []) ++
    commentLine style instruction.text.toList ++
    bodyEffects style opened instruction ++
    commentLine style []

/-- What stands before the first instruction. -/
def startEffects (style : CodeStyle) : List Effect :=
  .write Template.start :: commentLine style []

/-- The text that effects write, up to the first failure, and the open machines after them. -/
structure Emission where
  text : List Char
  opened : List OpenMachine
  failure : Option EmitError
  deriving DecidableEq, Repr

def perform (opened : List OpenMachine) : List Effect → Emission
  | [] => ⟨[], opened, none⟩
  | .write text :: rest =>
    let emission := perform opened rest
    { emission with text := text ++ emission.text }
  | .machines opened :: rest => perform opened rest
  | .fail error :: _ => ⟨[], opened, some error⟩

/-- The code of a stream that is written with these machines open. -/
def streamCode (style : CodeStyle) (opened : List OpenMachine) :
    Listing → Except EmitError (List Char)
  | [] => if opened.isEmpty then .ok [] else .error (.unterminated opened.length)
  | instruction :: rest =>
    let emission := perform opened (effects style opened instruction)
    match emission.failure with
    | some error => .error error
    | none => do
      let code ← streamCode style emission.opened rest
      return emission.text ++ code

/-- The tape code of a whole stream, the sentinel included. -/
def generate (style : CodeStyle) (stream : Listing) : Except EmitError (List Char) := do
  let code ← streamCode style [] stream
  return (perform [] (startEffects style)).text ++ code

/-! ## Writing to an output of limited size -/

/-- An output that takes at most `capacity` bytes of UTF-8. A text that does not fit is not written
at all, and nothing is written after it. -/
structure Output where
  text : String
  capacity : Option Nat
  broken : Bool
  deriving Repr

def Output.write (output : Output) (text : List Char) : Output :=
  let longer := output.text ++ String.ofList text
  if output.broken || output.capacity.any (· < longer.utf8ByteSize) then
    { output with broken := true }
  else { output with text := longer }

/-- A writer in the middle of its work. -/
structure State where
  output : Output
  opened : List OpenMachine
  deriving Repr

def State.start (capacity : Option Nat) : State := ⟨⟨"", capacity, false⟩, []⟩

/-- The state after some effects, and how they failed, if they did. The state is kept in any
case. -/
def State.perform (state : State) : List Effect → State × Option EmitError
  | [] => (state, none)
  | .write text :: rest =>
    let output := state.output.write text
    if output.broken then ({ state with output := output }, some .outputFull)
    else State.perform { state with output := output } rest
  | .machines opened :: rest => State.perform { state with opened := opened } rest
  | .fail error :: _ => (state, some error)

def State.write (style : CodeStyle) (state : State) (instruction : Instruction) :
    State × Option EmitError :=
  state.perform (effects style state.opened instruction)

/-- Writes instructions up to the first failure. -/
def State.writeAll (style : CodeStyle) (state : State) : Listing → State × Option EmitError
  | [] => (state, none)
  | instruction :: rest =>
    match state.write style instruction with
    | (state, none) => State.writeAll style state rest
    | failed => failed

/-- Writing may end when no machine is open. -/
def State.finish (state : State) : Option EmitError :=
  if state.opened.isEmpty then none else some (.unterminated state.opened.length)

end Writer

end TapeCode

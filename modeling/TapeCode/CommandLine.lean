import TapeCode.Build
import TapeCode.Directory
import TapeCode.Program.Binary
import TapeCode.Program.Report
import TapeCode.Tape.Machine
import TapeCode.Tape.Window
import TapeCode.Token.Dump
import TapeCode.Tree.Outline

/-!
# The command line

What a command does, as data: the effects to perform in order and what comes after them, which is
the end of the command or a run of tape code. The contents of the input file are given, and the
effects are left to the caller, who stops at the first file that cannot be written. A run proceeds
in turns of bounded length, so the caller also decides how long to go on with it.
-/
namespace TapeCode

namespace CommandLine

/-- Printing writes to the standard output, and reporting to the error stream. -/
inductive Effect
  | print (bytes : List UInt8)
  | report (text : String)
  | writeFile (path : String) (bytes : List UInt8)
  deriving DecidableEq, Repr

def printText (text : String) : Effect := .print text.toUTF8.toList

/-- The message that ends a command when a file cannot be written. -/
def writeFailure (path : String) (error : FileError) : String :=
  s!"failed to write '{path}': {error.message}\n"

/-! ## Arguments -/

abbrev Arguments := List String

/-- Flags that take a value; the value is never the input file. -/
def valueFlags : List String := ["--emit-ir", "-o", "--tape-len", "--max-steps", "--eof"]

/-- The argument behind the first occurrence of a flag. -/
def value? (flag : String) : Arguments → Option String
  | [] => none
  | first :: rest => if first = flag then rest.head? else value? flag rest

/-- The first argument that is neither a flag nor the value of one. -/
def inputFile? : Arguments → Option String
  | [] => none
  | first :: rest =>
    if first ∈ valueFlags then
      match rest with
      | [] => none
      | _ :: rest => inputFile? rest
    else if first.toList.head? = some '-' then inputFile? rest
    else some first

/-- Whether help is asked for; a command without arguments asks for it too. -/
def asksForHelp (arguments : Arguments) : Bool :=
  arguments.isEmpty || arguments.contains "--help" || arguments.contains "-h"

/-- The name of the file that a path leads to, without the directories on the way. -/
def fileName? (path : String) : Option (List Char) :=
  let components := (Text.split (· = '/') path.toList).filter fun component =>
    component ≠ [] ∧ component ≠ ['.']
  components.getLast?.filter (· ≠ ['.', '.'])

/-- Whether the name of the file ends in `.tc` with something before it. -/
def isSourceFile (path : String) : Bool :=
  match fileName? path with
  | none => false
  | some name => ['.', 't', 'c'].isSuffixOf name && 3 < name.length

def usageLines : List String :=
  ["TAPEC - compiler from a small structured language to tape code",
    "",
    "Usage:",
    "  tapec <file.tc>                 Print the compiled tape code",
    "  tapec --run <file.tc>           Compile and run on stdin/stdout",
    "  tapec --debug <file.tc>         Run, dumping the tape at each breakpoint",
    "  tapec --tokens <file.tc>        Show tokens only (--no-color, --pretty)",
    "  tapec --ast <file.tc>           Show the syntax tree",
    "  tapec --ir <file.tc>            Show the IR before and after the passes",
    "",
    "Options:",
    "  -o <path>                       Write the tape code to <path>",
    "  --emit-ir <path>                Write the binary IR to <path>",
    "  --from-ir                       Input is a binary IR file",
    "  --bf                            Input is tape code",
    "  --debug-info                    Annotate the code with the IR it came from",
    "  --breakpoints                   Put a breakpoint before every instruction",
    "  --tape-len N                    Tape length (default 30000)",
    "  --max-steps N                   Stop after N steps",
    "  --eof zero|unchanged|max        What ',' reads at end of input",
    "  --verbose, --trace              Log to stderr",
    "  --help, -h                      Show this help"]

def usage : String := String.join (usageLines.map (· ++ "\n"))

/-! ## Runs -/

/-- A run of tape code. When it is watched, it stops at breakpoints and shows the tape there. -/
structure Session where
  loaded : Loaded
  machine : Machine
  watched : Bool
  deriving Repr

/-- What comes after some effects. -/
inductive Continuation
  | exit (code : Nat)
  | run (session : Session)
  deriving Repr

def Session.withInput (session : Session) (input : List UInt8) : Session :=
  { session with machine := { session.machine with input := input } }

/-- At most `turns` operations of the run: what they print and show, and what comes after them. -/
def Session.advance (session : Session) (turns : Nat) : List Effect × Continuation :=
  let (machine, outcome) := session.machine.runFor session.loaded session.watched turns
  let printed : Effect := .print machine.output.toList
  let machine := { machine with output := #[] }
  let next : Continuation := .run { session with machine := machine }
  match outcome with
  | .unfinished => ([printed], next)
  | .failed error => ([printed, .report (error.message ++ "\n")], .exit 1)
  | .breakpoint =>
    let place := s!"\n-- breakpoint, step {machine.steps} --\n"
    let window : TapeWindow := {}
    ([printed, .report (place ++ window.text machine.tape)], next)
  | .halted =>
    if session.watched then
      ([printed, .report s!"\n-- halted after {machine.steps} steps --\n"], .exit 0)
    else ([printed], .exit 0)

/-! ## Commands -/

/-- Why a command ends early. -/
structure Failure where
  message : String
  exitCode : Nat
  deriving DecidableEq, Repr

/-- A fault of the input. -/
def Failure.ofMessage (message : String) : Failure := ⟨message, 1⟩

/-- A number that overflows ends the command with an exit code of its own. -/
def Failure.ofOverflow (message : String) : Failure := ⟨message, 101⟩

def Failure.ofBuild (error : BuildError) : Failure :=
  match error with
  | .emit (.dispatch (.overflow cause)) => .ofOverflow cause.message
  | _ => .ofMessage error.message

def Failure.ofRuntime (error : RuntimeError) : Failure :=
  match error with
  | .hugeTape => .ofOverflow error.message
  | _ => .ofMessage error.message

/-- A command collects effects, and may end early. -/
abbrev Command := ExceptT Failure (StateM (List Effect))

def emit (effect : Effect) : Command Unit := modify (· ++ [effect])

abbrev Contents := Except FileError (List UInt8)

def readBytes (path : String) (contents : Contents) : Command (List UInt8) :=
  match contents with
  | .ok bytes => return bytes
  | .error error => throw (.ofMessage s!"failed to read '{path}': {error.message}")

def readText (path : String) (contents : Contents) : Command String := do
  let bytes ← readBytes path contents
  match String.fromUTF8? (ByteArray.mk bytes.toArray) with
  | some text => return text
  | none => throw (.ofMessage s!"failed to read '{path}': stream did not contain valid UTF-8")

def orFail {ε α : Type} (failure : ε → Failure) : Except ε α → Command α
  | .ok value => return value
  | .error error => throw (failure error)

def dumpTokens (arguments : Arguments) (source : String) : Command Unit := do
  let lexemes ← orFail (fun error : LexError => .ofMessage s!"Lexer error: {error.message}")
    (tokenize source)
  let style : DumpStyle :=
    ⟨!arguments.contains "--no-color", arguments.contains "--pretty"⟩
  emit (printText (String.join (lexemes.map fun lexeme => lexeme.dumpLine style ++ "\n")))

def dumpTree (source : String) : Command Unit := do
  let program ← orFail .ofBuild (Build.tree source)
  emit (printText ((Statement.programOutline program).text ++ "\n"))

/-- The intermediate program of the input, which is source text or a program in bytes. -/
def inputProgram (arguments : Arguments) (path : String) (contents : Contents) :
    Command Program := do
  if arguments.contains "--from-ir" then
    orFail (fun error : Program.ReadError => .ofMessage error.message)
      (Program.ofBytes (← readBytes path contents))
  else orFail .ofBuild (Build.program (← readText path contents))

/-- A number of 64 bits behind a flag. -/
def number? (flag : String) (arguments : Arguments) : Command (Option Nat) :=
  match value? flag arguments with
  | none => return none
  | some text =>
    match (Text.readNatural? text.toList).filter (· < Word.limit) with
    | some n => return some n
    | none => throw (.ofMessage s!"{flag} expects a number, got '{text}'")

def machineSettings (arguments : Arguments) : Command MachineSettings := do
  let defaults : MachineSettings := {}
  let endOfInput ← match value? "--eof" arguments with
    | none => pure defaults.endOfInput
    | some name =>
      match EndOfInput.ofName? name with
      | some behaviour => pure behaviour
      | none => throw (.ofMessage s!"--eof expects zero, unchanged or max, got '{name}'")
  let length ← number? "--tape-len" arguments
  let limit ← number? "--max-steps" arguments
  return { defaults with
    tapeLength := length.getD defaults.tapeLength, stepLimit := limit, endOfInput := endOfInput }

/-- Runs tape code, with the input still to come. -/
def startRun (arguments : Arguments) (code : List Char) : Command Continuation := do
  let settings ← machineSettings arguments
  let (loaded, machine) ← orFail .ofRuntime (Machine.loadWithAny settings code [])
  return .run ⟨loaded, machine, arguments.contains "--debug"⟩

/-- Writes and prints tape code as far as that is asked for, and runs it. -/
def useCode (arguments : Arguments) (code : List Char) : Command Continuation := do
  let runs := arguments.contains "--run" || arguments.contains "--debug"
  let text := String.ofList code
  match value? "-o" arguments with
  | some path => emit (.writeFile path text.toUTF8.toList)
  | none => if !runs then emit (printText (text ++ "\n"))
  if runs then startRun arguments code else return .exit 0

def compile (arguments : Arguments) (path : String) (contents : Contents) :
    Command Continuation := do
  let program ← inputProgram arguments path contents
  if let some path := value? "--emit-ir" arguments then emit (.writeFile path program.toBytes)
  let stream ← orFail .ofBuild (Build.stream program)
  if arguments.contains "--ir" then
    emit (printText
      (Report.program program ++ Report.lowered stream ++ Report.statistics stream))
    return .exit 0
  else
    let style : CodeStyle :=
      { debugInfo := arguments.contains "--debug-info"
        debugBreakpoint := arguments.contains "--breakpoints" }
    useCode arguments (← orFail .ofBuild (Build.code style stream))

def command (arguments : Arguments) (path : String) (contents : Contents) :
    Command Continuation := do
  let isCode := arguments.contains "--bf"
  if !isCode && !arguments.contains "--from-ir" && !isSourceFile path then
    throw (.ofMessage s!"Error: expected a .tc file, got {path}")
  if arguments.contains "--tokens" then
    dumpTokens arguments (← readText path contents)
    return .exit 0
  else if arguments.contains "--ast" then
    dumpTree (← readText path contents)
    return .exit 0
  else if isCode then useCode arguments (← readText path contents).toList
  else compile arguments path contents

/-- The effects of a command whose input file has these contents, and what comes after them. -/
def perform (arguments : Arguments) (contents : Contents) : List Effect × Continuation :=
  if asksForHelp arguments then ([printText usage], .exit 0)
  else
    match inputFile? arguments with
    | none => ([printText usage], .exit 1)
    | some path =>
      match (command arguments path contents).run [] with
      | (.ok next, effects) => (effects, next)
      | (.error failure, effects) =>
        (effects ++ [.report (failure.message ++ "\n")], .exit failure.exitCode)

end CommandLine

end TapeCode

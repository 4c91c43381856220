import TapeCode.Instruction.Basic
import TapeCode.Text.Blank
import TapeCode.Text.Numeral
import TapeCode.Text.Split

/-!
# Instructions as text

An instruction is written as its name and its arguments in brackets, `fsmIf[3,2]`. A listing holds
one instruction per line, or several with semicolons between them. Reading allows blanks around
every part.
-/
namespace TapeCode

namespace Instruction

def text (instruction : Instruction) : String :=
  instruction.opcode.name ++ "[" ++ ",".intercalate (instruction.arguments.map toString) ++ "]"

def readArgument (text argument : List Char) : Except InstructionError Int :=
  let trimmed := Text.trim argument
  match Text.readInteger? trimmed with
  | some value =>
    if fitsArgument value then .ok value
    else .error (.invalidArgument (String.ofList trimmed) (String.ofList text))
  | none => .error (.invalidArgument (String.ofList trimmed) (String.ofList text))

/-- The arguments between the brackets of `text`. -/
def readArguments (text inner : List Char) : Except InstructionError (List Int) :=
  if (Text.trim inner).isEmpty then .ok []
  else (Text.split (· = ',') inner).mapM (readArgument text)

def read (source : List Char) : Except InstructionError Instruction :=
  let text := Text.trim source
  match Text.splitOnce? '[' text with
  | none => .error (.malformed (String.ofList text))
  | some (name, rest) =>
    if rest.getLast? ≠ some ']' then .error (.malformed (String.ofList text))
    else
      let name := String.ofList (Text.trim name)
      match Opcode.ofName? name with
      | none => .error (.unknownName name)
      | some opcode => do make opcode (← readArguments text rest.dropLast)

def ofText (source : String) : Except InstructionError Instruction := read source.toList

end Instruction

namespace Listing

/-- The instructions of a listing, up to the first text that is none. -/
def ofText (source : String) : Except InstructionError Listing :=
  let pieces := Text.split (fun c => c = ';' || c = '\n') source.toList
  ((pieces.map Text.trim).filter (!·.isEmpty)).mapM Instruction.read

def text (listing : Listing) : String := "[" ++ ", ".intercalate (listing.map (·.text)) ++ "]"

end Listing

end TapeCode

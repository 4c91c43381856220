import TapeCode.Binary.Varint
import TapeCode.Program.Basic

/-!
# Programs as bytes

A program is written as its main stream, its function table and its next label; a stream as its
instructions, and an instruction as the number of its opcode and its arguments. Bytes are first read
as opcodes with any arguments, and the numbers of the arguments are checked when all is read, so a
body that a later one with the same number replaces is not checked.
-/
namespace TapeCode

/-- The number of an opcode is its place in the order of all opcodes. -/
def Opcode.number (opcode : Opcode) : Nat := opcode.ctorIdx

namespace Program

inductive ReadError
  | malformed (error : Binary.BinaryError)
  | invalid (error : InstructionError)
  deriving DecidableEq, Repr

def ReadError.message : ReadError → String
  | .malformed error => s!"cannot decode program: {error.message}"
  | .invalid error => s!"invalid instruction in program: {error.message}"

/-- An opcode with arguments whose number has not been checked. -/
structure RawInstruction where
  opcode : Opcode
  arguments : List Int
  deriving DecidableEq, Repr

structure RawProgram where
  main : List RawInstruction
  functions : FunctionTable (List RawInstruction)
  nextLabel : Int
  deriving DecidableEq, Repr

def writeInstruction (instruction : Instruction) : List UInt8 :=
  Binary.Varint.write instruction.opcode.number ++
    Binary.writeList Binary.Varint.writeInteger instruction.arguments

def writeListing (listing : Listing) : List UInt8 := Binary.writeList writeInstruction listing

def toBytes (program : Program) : List UInt8 :=
  writeListing program.main ++
    Binary.writeList (fun (id, body) => Binary.Varint.writeInteger id ++ writeListing body)
      program.functions.entries ++
    Binary.Varint.writeInteger program.nextLabel

def readOpcode : Binary.Reader Opcode := do
  match Opcode.all[← Binary.Varint.readWord]? with
  | some opcode => return opcode
  | none => throw .unknownOpcode

def readInstruction : Binary.Reader RawInstruction := do
  let opcode ← readOpcode
  return ⟨opcode, ← Binary.readList Binary.Varint.readInteger⟩

def readListing : Binary.Reader (List RawInstruction) := Binary.readList readInstruction

def readFunction : Binary.Reader (Int × List RawInstruction) := do
  let id ← Binary.Varint.readInteger
  return (id, ← readListing)

def readRaw : Binary.Reader RawProgram := do
  let main ← readListing
  let functions ← Binary.readList readFunction
  return ⟨main, .ofList functions, ← Binary.Varint.readInteger⟩

def checkListing (listing : List RawInstruction) : Except InstructionError Listing :=
  listing.mapM fun raw => Instruction.make raw.opcode raw.arguments

def checkFunctions :
    List (Int × List RawInstruction) → Except InstructionError (List (Int × Listing))
  | [] => .ok []
  | (id, body) :: rest => do
    let body ← checkListing body
    return (id, body) :: (← checkFunctions rest)

def checkRaw (raw : RawProgram) : Except InstructionError Program := do
  let main ← checkListing raw.main
  let functions ← checkFunctions raw.functions.entries
  return ⟨main, .ofList functions, raw.nextLabel⟩

/-- The program at the front of the bytes; what follows it is ignored. -/
def ofBytes (bytes : List UInt8) : Except ReadError Program :=
  match readRaw bytes with
  | .error error => .error (.malformed error)
  | .ok (raw, _) => (checkRaw raw).mapError .invalid

end Program

end TapeCode

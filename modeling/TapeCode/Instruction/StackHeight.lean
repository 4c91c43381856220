import TapeCode.Instruction.Text
import TapeCode.Word

/-!
# Stack heights

A linear scan that follows the height of the stack through a listing, without following jumps,
labels or cases. It ends at the first instruction whose effect depends on the function called.
-/
namespace TapeCode

/-- The instruction at `index` takes `needed` values and finds fewer. -/
structure StackUnderflow where
  index : Nat
  instruction : Instruction
  needed : Nat
  deriving DecidableEq, Repr

def StackUnderflow.message (error : StackUnderflow) : String :=
  s!"stack-check error: stack underflow at ip={error.index}, insn={error.instruction.text}, " ++
    s!"needed {error.needed} items"

/-- The number that selects a case floats above the stack: a case starts below it, and a call
leaves it above the return address. -/
def Instruction.stackEffect? : Instruction → Option StackEffect
  | fsmCase => some ⟨1, 0⟩
  | fsmCall _ => some ⟨0, 2⟩
  | instruction => instruction.opcode.prototype.stackEffect?

namespace StackHeight

/-- The height behind the instructions, the first of which has the number `index`. -/
def scan (index height : Nat) : Listing → Except StackUnderflow Nat
  | [] => .ok height
  | instruction :: rest =>
    match instruction.stackEffect? with
    | none => .ok height
    | some effect =>
      if height < effect.pops then .error ⟨index, instruction, effect.pops⟩
      else scan (index + 1) (height - effect.pops + effect.pushes) rest

def check (listing : Listing) (height : Nat) : Except StackUnderflow Nat := scan 0 height listing

inductive HeightError
  | underflow (error : StackUnderflow)
  | overflow (cause : Overflow)
  deriving DecidableEq, Repr

/-- The heights at the starts of the instructions and behind the last one, as far as they are
known. -/
def heights (listing : Listing) (height : Nat) : List Nat :=
  (List.range (listing.length + 1)).filterMap fun count =>
    (check (listing.take count) height).toOption

/-- The check for any height at the start: no height on the way may need more than 64 bits. -/
def checkFromAny (listing : Listing) (height : Nat) : Except HeightError Nat :=
  if (heights listing height).any (Word.limit ≤ ·) then .error (.overflow .addition)
  else (check listing height).mapError .underflow

end StackHeight

end TapeCode

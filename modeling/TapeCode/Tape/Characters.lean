import TapeCode.EndOfInput
import TapeCode.Tape.Basic

/-!
# Tape code, character by character

The plain meaning of tape code. The machine stands between two characters of the code and executes
the next one; a bracket that leads elsewhere is followed to its partner by counting brackets on the
way. Characters that are no command are passed over. Nothing is folded, and no place is looked up
beforehand.
-/
namespace TapeCode

/-- A machine between the characters of its code: those behind it, the nearest first, and those
ahead of it. -/
structure CharacterMachine where
  behind : List Char
  ahead : List Char
  tape : Tape
  input : List UInt8
  output : List UInt8
  deriving Repr

namespace CharacterMachine

/-- The machine before the first character of the code. -/
def start (code : List Char) (tape : Tape) (input : List UInt8) : CharacterMachine :=
  ⟨[], code, tape, input, []⟩

def isHalted (machine : CharacterMachine) : Bool := machine.ahead.isEmpty

/-- Passes characters on, from `ahead` to `behind`, up to and with the first bracket `closing` that
is not the partner of an `opening` passed before; `depth` counts the partners still to come. -/
def pass (opening closing : Char) (depth : Nat) (behind : List Char) :
    List Char → Option (List Char × List Char)
  | [] => none
  | c :: ahead =>
    if c = closing then
      match depth with
      | 0 => some (c :: behind, ahead)
      | depth + 1 => pass opening closing depth (c :: behind) ahead
    else pass opening closing (if c = opening then depth + 1 else depth) (c :: behind) ahead

/-- One character. There is none after a halt, and a bracket without partner leads nowhere. A loop
whose cell is zero is left behind its closing bracket; a loop to be repeated is entered at its
opening bracket again. -/
def step (ending : EndOfInput) : CharacterMachine → Option CharacterMachine
  | ⟨_, [], _, _, _⟩ => none
  | ⟨behind, c :: ahead, tape, input, output⟩ =>
    let passed : CharacterMachine := ⟨c :: behind, ahead, tape, input, output⟩
    match c with
    | '>' => some { passed with tape := tape.move 1 }
    | '<' => some { passed with tape := tape.move (-1) }
    | '+' => some { passed with tape := tape.put (tape.current + 1) }
    | '-' => some { passed with tape := tape.put (tape.current - 1) }
    | '.' => some { passed with output := output ++ [tape.current] }
    | ',' =>
      match input with
      | byte :: input => some { passed with tape := tape.put byte, input := input }
      | [] => some { passed with tape := tape.put (ending.replace tape.current) }
    | '[' =>
      if tape.current = 0 then
        (pass '[' ']' 0 (c :: behind) ahead).map fun (behind, ahead) =>
          ⟨behind, ahead, tape, input, output⟩
      else some passed
    | ']' =>
      if tape.current = 0 then some passed
      else
        (pass ']' '[' 0 (c :: ahead) behind).map fun (ahead, behind) =>
          ⟨behind, ahead, tape, input, output⟩
    | _ => some passed

/-- The machine that halted within so many characters, if it did. -/
def runFor (ending : EndOfInput) : Nat → CharacterMachine → Option CharacterMachine
  | 0, machine => if machine.isHalted then some machine else none
  | turns + 1, machine =>
    if machine.isHalted then some machine
    else (machine.step ending).bind (runFor ending turns)

end CharacterMachine

end TapeCode

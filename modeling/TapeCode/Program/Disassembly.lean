import TapeCode.Program.Basic
import TapeCode.Text.Column

/-!
# Disassembly

A listing for readers: one numbered line per instruction. A label is set off by a rule above it, and
inside a state machine every case is numbered and its instructions are indented, so the targets of
the dispatch instructions can be found by eye.
-/
namespace TapeCode

namespace Disassembly

/-- The numbers of the current cases of the open machines, the innermost first. -/
abbrev CaseNumbers := List Nat

def numberText (index : Nat) : String := Text.padLeft '0' 4 (toString index)

/-- Every open machine indents by four columns. -/
def indentation (depth : Nat) : String := String.ofList (List.replicate (4 * depth) ' ')

def rule : String := "      ┌" ++ String.ofList (List.replicate 34 '─') ++ "\n"

/-- The lines for one instruction. -/
def lines (index : Nat) (cases : CaseNumbers) (instruction : Instruction) : String :=
  let number := numberText index
  let text := instruction.text
  match instruction, cases with
  | .label _, _ => rule ++ number ++ " ► " ++ text ++ "\n"
  | .fsmCase, current :: outer =>
    number ++ "   " ++ indentation outer.length ++ text ++ s!"  ; case {current + 1}\n"
  | .fsmCase, [] => number ++ "   " ++ text ++ "\n"
  | .fsmEnd, _ => number ++ "   " ++ indentation (cases.length - 1) ++ text ++ "\n"
  | _, _ => number ++ "   " ++ indentation cases.length ++ text ++ "\n"

/-- The current cases behind an instruction. -/
def casesAfter (cases : CaseNumbers) : Instruction → CaseNumbers
  | .fsmBegin _ => 0 :: cases
  | .fsmEnd => cases.tail
  | .fsmCase =>
    match cases with
    | [] => []
    | current :: outer => (current + 1) :: outer
  | _ => cases

def linesFrom (index : Nat) (cases : CaseNumbers) : Listing → List String
  | [] => []
  | instruction :: rest =>
    lines index cases instruction :: linesFrom (index + 1) (casesAfter cases instruction) rest

end Disassembly

def Listing.disassembly (listing : Listing) : String :=
  String.join (Disassembly.linesFrom 0 [] listing)

end TapeCode

import TapeCode.Program.Disassembly
import TapeCode.Text.Fixed

/-!
# Reports

What users are shown of a program: its disassembly before and after lowering, and how often each
kind of instruction occurs.
-/
namespace TapeCode

namespace Report

def border : String := String.ofList (List.replicate 40 '═') ++ "\n"

def block (title : String) (listing : Listing) : String :=
  border ++ s!" {title}\n {listing.length} instructions\n" ++ border ++ listing.disassembly ++ "\n"

def program (program : Program) : String :=
  "=== IR PROGRAM ===\n\n" ++ block "main" program.main ++
    String.join (program.functions.entries.map fun (id, body) => block s!"function #{id}" body)

def lowered (listing : Listing) : String := "=== LOWERED IR ===\n\n" ++ block "program" listing

/-- How often a kind of instruction occurs. -/
structure Frequency where
  name : String
  count : Nat
  deriving DecidableEq, Repr

/-- The kinds that occur, the most frequent first; kinds that occur equally often stand in the order
of their names. -/
def frequencies (listing : Listing) : List Frequency :=
  let counted : List Frequency := Opcode.all.map fun opcode =>
    ⟨opcode.name, listing.countP fun instruction => instruction.opcode = opcode⟩
  let before (first second : Frequency) : Bool :=
    second.count < first.count || (first.count = second.count && first.name ≤ second.name)
  (counted.filter (0 < ·.count)).mergeSort before

def percentage (count total : Nat) : Float := count.toFloat / (max total 1).toFloat * 100

/-- The ten most frequent kinds, with their share in all instructions. -/
def statistics (listing : Listing) : String :=
  let line (entry : Frequency) : String :=
    let share := Text.oneDecimal (percentage entry.count listing.length)
    "  " ++ Text.padRight ' ' 14 entry.name ++ " " ++ Text.padLeft ' ' 4 (toString entry.count) ++
      " (" ++ Text.padLeft ' ' 5 share ++ "%)\n"
  s!"=== IR STATISTICS ===\n\nInstructions: {listing.length}\n\nOpcode frequency:\n" ++
    String.join (((frequencies listing).take 10).map line)

end Report

end TapeCode

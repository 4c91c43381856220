/-!
# The end of the input

A program may go on reading when its input is used up; what it then finds in the cell it reads into
is a matter of convention.
-/
namespace TapeCode

/-- What a cell holds after reading at the end of the input. -/
inductive EndOfInput
  | zero
  | unchanged
  | max
  deriving DecidableEq, Repr

namespace EndOfInput

def ofName? (name : String) : Option EndOfInput :=
  if name = "zero" then some .zero
  else if name = "unchanged" then some .unchanged
  else if name = "max" then some .max
  else none

/-- The cell after reading at the end of the input, when it held `cell` before. -/
def replace (ending : EndOfInput) (cell : UInt8) : UInt8 :=
  match ending with
  | .zero => 0
  | .unchanged => cell
  | .max => 255

end EndOfInput

end TapeCode

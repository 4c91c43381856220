import TapeCode.Word

/-!
# Dispatch offsets

A state machine selects its next case by counting down: the number a case leaves is lowered once
for every case passed and once at the end of each lap, and the case at which it reaches zero is
executed. The number to leave is therefore the forward distance to the target around a ring that
holds the cases and one place for the way out.

Numbers of cases are given with 32 bits, and a sum that does not fit them is an error of its own.
-/
namespace TapeCode

inductive DispatchError
  | illegal (source target count : Int)
  | overflow (cause : Overflow)
  deriving DecidableEq, Repr

def DispatchError.message : DispatchError → String
  | .illegal source target count =>
    s!"illegal fsm offset: source {source}, target {target}, case count {count}"
  | .overflow cause => cause.message

namespace Dispatch

/-- The target that stands for leaving the machine, as the case behind the last one does. -/
def exitCase : Int := -1

/-- The most cases of a machine for which every number of its dispatch fits a cell: a return adds up
to twice the number of cases and one. -/
def mostCases : Int := 127

def largest : Int := 2147483647

def smallest : Int := -2147483648

/-- The number that leads from case `source` to case `target` of a machine with `count` cases. Cases
count from one, and the source zero is the entry of the machine. -/
def caseOffset (source target count : Int) : Except DispatchError Int :=
  if target = exitCase ∧ count = largest then .error (.overflow .addition)
  else
    let target := if target = exitCase then count + 1 else target
    if count < 0 ∨ source < 0 ∨ count < source then .error (.illegal source target count)
    else if count = largest then .error (.overflow .addition)
    else if target < 1 ∨ count + 1 < target then .error (.illegal source target count)
    else if source < target then .ok (target - source)
    else .ok (target - source + count + 1)

end Dispatch

end TapeCode

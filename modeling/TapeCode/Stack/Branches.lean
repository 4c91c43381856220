import TapeCode.Instruction.StackHeight
import TapeCode.Stack.Basic

/-!
# Running structured conditions

The stack machine with structured conditions. Code is a sequence of instructions and of choices, and
each choice holds two pieces of code of its own. A choice takes a byte from the stack and executes
the first piece if the byte is not zero, and the second one otherwise. In a stream of instructions
the three marks around the two pieces must find the stack at one height, whichever piece was
executed, so both pieces have to change the height by the same amount.
-/
namespace TapeCode

inductive BranchCode
  | done
  | plain (instruction : Instruction) (rest : BranchCode)
  | choose (nonzero zero rest : BranchCode)
  deriving DecidableEq, Repr

namespace BranchCode

/-- The stream of instructions for the code. -/
def listing : BranchCode → Listing
  | .done => []
  | .plain instruction rest => instruction :: rest.listing
  | .choose nonzero zero rest =>
    .ifElseBegin :: nonzero.listing ++ .ifElseElse :: zero.listing ++ .ifElseEnd :: rest.listing

/-- The change of the height of the stack. A choice takes its condition, and changes the height as
its first piece does. -/
def change : BranchCode → Int
  | .done => 0
  | .plain instruction rest =>
    (instruction.stackEffect?).elim 0 (fun effect => (effect.pushes : Int) - effect.pops) +
      rest.change
  | .choose nonzero _ rest => nonzero.change - 1 + rest.change

/-- Whether the two pieces of every choice change the height by the same amount. -/
def isBalanced : BranchCode → Bool
  | .done => true
  | .plain _ rest => rest.isBalanced
  | .choose nonzero zero rest =>
    nonzero.change = zero.change && nonzero.isBalanced && zero.isBalanced && rest.isBalanced

/-- The state behind the code, if every instruction on the way finds what it needs. -/
def execute? {α : Type} (ending : EndOfInput) (state : StackState α) :
    BranchCode → Option (StackState α)
  | .done => some state
  | .plain instruction rest => do
    rest.execute? ending (← state.execute? ending instruction)
  | .choose nonzero zero rest => do
    let (condition, state) ← state.popByte?
    let state ← if condition ≠ 0 then nonzero.execute? ending state else zero.execute? ending state
    rest.execute? ending state

end BranchCode

end TapeCode

import TapeCode.Proofs.Ribbon.Basic
import TapeCode.Stack.Basic

/-!
# The stack and the heap on a ribbon

From the pointer leftwards lie the values of the stack, the top one first and each with a zero link
behind it, then the origin, the sentinel, and the slots of the heap. There are no addresses on a
ribbon, so the states are those in which every value is a byte.
-/
namespace TapeCode

open Stream' (cons)

/-- What a cell holds for a value. -/
def StackValue.cell : StackValue Empty → UInt8
  | .byte value => value

@[simp] theorem StackValue.cell_byte (value : UInt8) : (StackValue.byte value).cell = value := rfl

namespace Ribbon

/-- The cells from the pointer leftwards. -/
def column (heap : Stream' UInt8) : List UInt8 → Stream' UInt8
  | [] => cons 0 (cons 255 heap)
  | value :: stack => cons value (cons 0 (column heap stack))

@[simp] theorem column_nil (heap : Stream' UInt8) : column heap [] = cons 0 (cons 255 heap) := rfl

@[simp] theorem column_cons (heap : Stream' UInt8) (value : UInt8) (stack : List UInt8) :
    column heap (value :: stack) = cons value (cons 0 (column heap stack)) := rfl

end Ribbon

namespace StackState

/-- The heap as cells, the slots in their order. -/
def heapCells (state : StackState Empty) : Stream' UInt8 := fun slot => (state.heap slot).cell

def stackCells (state : StackState Empty) : List UInt8 := state.stack.map (·.cell)

/-- The ribbon of a state. -/
def ribbon (state : StackState Empty) : Ribbon :=
  .top (Ribbon.column state.heapCells state.stackCells) state.input state.output

end StackState

end TapeCode

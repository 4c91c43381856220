import TapeCode.Byte
import TapeCode.EndOfInput
import TapeCode.Instruction.Basic

/-!
# The stack machine

What instructions do, said without tape code. The machine has a stack and a heap of values. A value
is a byte, or an address of the type `α` that only calls put there and only returns look into; all
other instructions may move addresses, and none computes with them. Here are the instructions that
always go on to the next one; what calls and jumps do is up to the machines built on this one.
-/
namespace TapeCode

inductive StackValue (α : Type)
  | byte (value : UInt8)
  | address (place : α)
  deriving DecidableEq, Repr

/-- The top of the stack comes first. -/
structure StackState (α : Type) where
  stack : List (StackValue α)
  heap : Nat → StackValue α
  input : List UInt8
  output : List UInt8

namespace StackState

variable {α : Type}

/-- The stack is empty, all slots are zero, and nothing is printed yet. -/
def start (input : List UInt8) : StackState α := ⟨[], fun _ => .byte 0, input, []⟩

def push (state : StackState α) (value : StackValue α) : StackState α :=
  { state with stack := value :: state.stack }

def store (state : StackState α) (slot : Nat) (value : StackValue α) : StackState α :=
  { state with heap := fun other => if other = slot then value else state.heap other }

def print (state : StackState α) (bytes : List UInt8) : StackState α :=
  { state with output := state.output ++ bytes }

/-- The value on top, and the state without it. -/
def pop? (state : StackState α) : Option (StackValue α × StackState α) :=
  match state.stack with
  | [] => none
  | value :: stack => some (value, { state with stack := stack })

/-- The byte on top, and the state without it. -/
def popByte? (state : StackState α) : Option (UInt8 × StackState α) :=
  match state.pop? with
  | some (.byte value, state) => some (value, state)
  | _ => none

/-- The address on top, and the state without it. -/
def popAddress? (state : StackState α) : Option (α × StackState α) :=
  match state.pop? with
  | some (.address place, state) => some (place, state)
  | _ => none

/-- Puts the next byte of the input on the stack. -/
def read (state : StackState α) (ending : EndOfInput) : StackState α :=
  match state.input with
  | byte :: input => { state with input := input }.push (.byte byte)
  | [] => state.push (.byte (ending.replace 0))

/-- Replaces two bytes by what they are combined to; the one on top comes second. -/
def combine? (state : StackState α) (operation : UInt8 → UInt8 → UInt8) :
    Option (StackState α) := do
  let (second, state) ← state.popByte?
  let (first, state) ← state.popByte?
  return state.push (.byte (operation first second))

/-- The slot that a layout addresses is its last one. -/
def slot? (layout : List Int) : Option Nat :=
  match layout with
  | [] => none
  | _ :: before => some before.length

/-- The state behind an instruction, if it goes on to the next one and finds what it needs. Reading
a slot moves the value out of it and leaves zero there. -/
def execute? (ending : EndOfInput) (state : StackState α) :
    Instruction → Option (StackState α)
  | .nop _ | .breakpoint => some state
  | .readChar => some (state.read ending)
  | .printChar => do
    let (value, _) ← state.popByte?
    return state.print [value]
  | .printInt => do
    let (value, _) ← state.popByte?
    return state.print (Byte.digits value)
  | .pushInt value => some (state.push (.byte (UInt8.ofInt value)))
  | .popInt => do
    let (_, state) ← state.pop?
    return state
  | .dupInt => do
    let (value, _) ← state.pop?
    return state.push value
  | .swapInt => do
    let (second, state) ← state.pop?
    let (first, state) ← state.pop?
    return (state.push second).push first
  | .not => do
    let (value, state) ← state.popByte?
    return state.push (.byte (Byte.ofBool (value = 0)))
  | .add => state.combine? (· + ·)
  | .sub => state.combine? (· - ·)
  | .mul => state.combine? (· * ·)
  | .div => state.combine? (· / ·)
  | .greater => state.combine? fun first second => Byte.ofBool (second < first)
  | .readLocal layout => do
    let slot ← slot? layout
    return (state.store slot (.byte 0)).push (state.heap slot)
  | .writeLocal layout => do
    let slot ← slot? layout
    let (value, state) ← state.pop?
    return state.store slot value
  | .clearLocal layout => do
    return state.store (← slot? layout) (.byte 0)
  | _ => none

/-- The state behind a listing without transfers. -/
def executeAll? (ending : EndOfInput) (state : StackState α) : Listing → Option (StackState α)
  | [] => some state
  | instruction :: rest => do (← state.execute? ending instruction).executeAll? ending rest

end StackState

end TapeCode

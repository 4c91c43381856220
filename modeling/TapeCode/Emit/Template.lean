import TapeCode.Instruction.Basic

/-!
# Templates

The tape code of the single instructions. The evaluation stack lives on the even cells right of the
origin, with the pointer on the top value; the odd cells between the values are the links that the
walks to the heap use. Stack templates are written as if the values stood side by side, and
`doubled` makes two steps of each one. The heap lies left of the origin, behind a sentinel, and is
reached by walking over the links, so its templates are used as they are.
-/
namespace TapeCode

/-- Why a heap layout leads to no slot. -/
inductive LayoutError
  | empty
  | unknownType (number : Int)
  | notStorable (type : ValueType)
  deriving DecidableEq, Repr

def LayoutError.message : LayoutError → String
  | .empty => "heap layout is empty"
  | .unknownType number => s!"unknown data type id {number}"
  | .notStorable type => s!"no movement commands found for type {type.name}"

namespace Template

/-- Code for values side by side, as code for values with a cell between them. -/
def doubled (template : List Char) : List Char :=
  template.flatMap fun c => if c = '<' ∨ c = '>' then [c, c] else [c]

def stack (template : String) : List Char := doubled template.toList

/-- Sets the sentinel left of the origin. -/
def start : List Char := "<->".toList

def readChar : List Char := stack ">,"

def printChar : List Char := stack "."

def popInt : List Char := stack "[-]<"

/-- A cell holds the number modulo 256. -/
def pushInt (value : Int) : List Char :=
  stack ">" ++ List.replicate (value.emod 256).toNat '+'

def dupInt : List Char := stack "[->+>+<<]>>[-<<+>>]<"

def swapInt : List Char := stack "[->+<]<[->+<]>>[-<<+>>]<"

def not : List Char := stack "[>+<[-]]+>[<->-]<"

def add : List Char := stack "[-<+>]<"

def sub : List Char := stack "[-<->]<"

def mul : List Char := stack "<[>>>+<<<-]>>>[<<[<+>>+<-]>[<+>-]>-]<<" ++ popInt

/-- Division by repeated subtraction. Above the divisor stand a countdown, the quotient and a test
for zero: whenever the countdown reaches zero, the quotient grows and the countdown starts again
from the divisor. Division by zero leaves zero. -/
def div : List Char :=
  stack "[->+>>+<<<]>>>[-<<<+>>>]<<<<" ++
    stack "[->>-[->>+>+<<<]>>>[-<<<+>>>]<[>+<[-]]+>[<->-]<[-<+<<[->+>>+<<<]>>>[-<<<+>>>]]<<<<]" ++
    stack ">[-]>[-]>[-<<<+>>>]<<<"

def greater : List Char :=
  stack "<[>>>+<<[->>[-]>+<<<]>>[-<+>]>[-<<<+>>>]<<<-<-]>>[-<<+>>]<" ++ popInt

/-- Prints a number in decimal without leading zeros and keeps it. -/
def printInt : List Char :=
  stack "[>>+>+<<<-]>>>[<<<+>>>-]<<+>[<->[>++++++++++<" ++
    stack "[->-[>+>>]>[+[-<+>]>+>>]<<<<<]>[-]++++++++[<++++++>-]>" ++
    stack "[<<+>>-]>[<<+>>-]<<]>]<[->>++++++++[<++++++>-]]<[.[-]<]<"

/-! ## Structured conditions -/

def ifElseBegin : List Char := ">+<[>-<".toList ++ popInt

def ifElseElse : List Char := ">]>[-<".toList ++ stack "<"

def ifElseEnd : List Char := ">>]<<".toList

/-! ## State machines -/

def machineBegin : List Char := pushInt 1 ++ stack "["

def machineEnd : List Char := stack "-]<"

/-- Lowers the countdown and opens a block that is entered when it has reached zero. -/
def caseBegin : List Char :=
  stack "-" ++ stack "[->+>+<<]>>[-<<+>>]<" ++ stack "[>+<[-]]+>[<->-]<" ++ stack "[-<<"

/-- Closes the block of a case that has left the number of the next one. -/
def caseEnd : List Char := stack ">]<"

/-! ## Heap access -/

/-- The way from the top of the stack to a slot and back, and the code that clears the slot. -/
structure HeapWalk where
  away : List Char
  back : List Char
  clear : List Char
  deriving DecidableEq, Repr

def cellCode (number : Int) : Except LayoutError ValueType.CellCode :=
  match ValueType.ofNumber? number with
  | none => .error (.unknownType number)
  | some type =>
    match type.cellCode? with
    | none => .error (.notStorable type)
    | some code => .ok code

def cellCodes : List Int → Except LayoutError (List ValueType.CellCode)
  | [] => .ok []
  | number :: rest => do
    let first ← cellCode number
    return first :: (← cellCodes rest)

/-- The walk to the last slot of the layout. It sets the links on its way to the sentinel, passes
the slots in between, and clears the links again on its way back. -/
def heapWalk (layout : List Int) : Except LayoutError HeapWalk := do
  let codes ← cellCodes layout
  match codes.getLast? with
  | none => throw .empty
  | some target =>
    let before := codes.dropLast
    return {
      away := "<+[<<+]<".toList ++ before.flatMap (·.away.toList)
      back := before.reverse.flatMap (·.back.toList) ++ ">->>[->>]<".toList
      clear := target.clear.toList }

def HeapWalk.write (walk : HeapWalk) : List Char :=
  walk.away ++ "[-]".toList ++ walk.back ++ "[-".toList ++ walk.away ++ "+".toList ++ walk.back ++
    "]<<".toList

def HeapWalk.read (walk : HeapWalk) : List Char :=
  ">>".toList ++ walk.away ++ "[-".toList ++ walk.back ++ "+".toList ++ walk.away ++ "]".toList ++
    walk.back

def HeapWalk.erase (walk : HeapWalk) : List Char := walk.away ++ walk.clear ++ walk.back

end Template

end TapeCode

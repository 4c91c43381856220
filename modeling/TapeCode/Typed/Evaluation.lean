import TapeCode.Byte
import TapeCode.EndOfInput
import TapeCode.Scope.Builtin
import TapeCode.Typed.Basic

/-!
# The meaning of resolved programs

What a resolved program does, said without instructions: statements are executed in order, operands
and arguments are evaluated from left to right, and every variable is the byte in its heap slot,
shared by all activations of its function. Evaluation need not end, so it is given a budget that
bounds how deeply it nests; an evaluation that ends within a budget ends in the same way within
every larger one.
-/
namespace TapeCode

/-- What a running program reads and changes. -/
structure World where
  heap : Nat → UInt8
  input : List UInt8
  output : List UInt8

namespace World

/-- All slots are zero, and nothing is printed yet. -/
def start (input : List UInt8) : World := ⟨fun _ => 0, input, []⟩

def store (world : World) (slot : Nat) (value : UInt8) : World :=
  { world with heap := fun other => if other = slot then value else world.heap other }

def print (world : World) (bytes : List UInt8) : World :=
  { world with output := world.output ++ bytes }

/-- The next byte of the input. A byte that is read goes to a fresh cell, which is zero. -/
def read (world : World) (ending : EndOfInput) : UInt8 × World :=
  match world.input with
  | byte :: input => (byte, { world with input := input })
  | [] => (ending.replace 0, world)

end World

/-- What a program is evaluated with. -/
structure Setting where
  tree : ScopeTree
  functions : List TypedFunction
  ending : EndOfInput

/-- Evaluation changes the world; it has no result when its budget is used up. -/
abbrev Evaluator := StateT World Option

/-- How a statement ends: the next one follows, or the function returns a value. -/
inductive Flow
  | next
  | returned (value : UInt8)
  deriving DecidableEq, Repr

namespace Evaluation

def outOfBudget {α : Type} : Evaluator α := fun _ => none

def slot (setting : Setting) (id : VariableId) : Nat := (setting.tree.slot? id).getD 0

def load (setting : Setting) (id : VariableId) : Evaluator UInt8 :=
  return (← get).heap (slot setting id)

def store (setting : Setting) (id : VariableId) (value : UInt8) : Evaluator Unit :=
  modify (·.store (slot setting id) value)

def print (bytes : List UInt8) : Evaluator Unit := modify (·.print bytes)

def read (setting : Setting) : Evaluator UInt8 := modifyGet (·.read setting.ending)

set_option maxRecDepth 2000 in
/-- A call of a built-in function. One that has no result leaves zero, which nothing uses. -/
def builtin (setting : Setting) (name : String) (arguments : List UInt8) : Evaluator UInt8 :=
  match name, arguments with
  | "print", [value] => do
    print [value]
    return 0
  | "printNumber", [value] => do
    print (Byte.digits value)
    return 0
  | "read", [] => read setting
  | "readDigit", [] => return (← read setting) - 48
  | "==", [left, right] => return Byte.ofBool (left = right)
  | ">", [left, right] => return Byte.ofBool (right < left)
  | "+", [left, right] => return left + right
  | "-", [left, right] => return left - right
  | "*", [left, right] => return left * right
  | "/", [left, right] => return left / right
  | _, _ => return 0

/-- Puts the arguments of a call into the slots of the parameters. -/
def storeParameters (setting : Setting) : List VariableId → List UInt8 → Evaluator Unit
  | parameter :: parameters, value :: values => do
    store setting parameter value
    storeParameters setting parameters values
  | _, _ => return ()

mutual

def expression (setting : Setting) (budget : Nat) (source : TypedExpression) : Evaluator UInt8 :=
  match budget with
  | 0 => outOfBudget
  | budget + 1 =>
    match source with
    | .number value _ => return value
    | .variable id _ => load setting id
    | .assign id value _ => do
      let value ← expression setting budget value
      store setting id value
      return value
    | .call function arguments _ => do
      let values ← expressions setting budget arguments
      call setting budget function values

def expressions (setting : Setting) (budget : Nat) (sources : List TypedExpression) :
    Evaluator (List UInt8) :=
  match budget with
  | 0 => outOfBudget
  | budget + 1 =>
    match sources with
    | [] => return []
    | first :: rest => do
      let value ← expression setting budget first
      return value :: (← expressions setting budget rest)

/-- A function that ends without a `return` statement returns zero. -/
def call (setting : Setting) (budget : Nat) (id : FunctionId) (arguments : List UInt8) :
    Evaluator UInt8 :=
  match budget with
  | 0 => outOfBudget
  | budget + 1 =>
    match setting.functions.find? (·.function = id) with
    | some function => do
      storeParameters setting function.parameters arguments
      match ← statement setting budget function.body with
      | .next => return 0
      | .returned value => return value
    | none => builtin setting ((setting.tree.functions[id]?).elim "" (·.name)) arguments

def statement (setting : Setting) (budget : Nat) (source : TypedStatement) : Evaluator Flow :=
  match budget with
  | 0 => outOfBudget
  | budget + 1 =>
    match source with
    | .block sources => statements setting budget sources
    | .declare id value => do
      store setting id (← expression setting budget value)
      return .next
    | .evaluate value => do
      discard (expression setting budget value)
      return .next
    | .ifThen condition consequence => do
      if (← expression setting budget condition) ≠ 0 then statement setting budget consequence
      else return .next
    | .ifThenElse condition consequence alternative => do
      if (← expression setting budget condition) ≠ 0 then statement setting budget consequence
      else statement setting budget alternative
    | .whileDo condition body => do
      if (← expression setting budget condition) ≠ 0 then
        match ← statement setting budget body with
        | .next => statement setting budget (.whileDo condition body)
        | returned => return returned
      else return .next
    | .doWhile body condition => do
      match ← statement setting budget body with
      | .next =>
        if (← expression setting budget condition) ≠ 0 then
          statement setting budget (.doWhile body condition)
        else return .next
      | returned => return returned
    | .result none => return .returned 0
    | .result (some value) => return .returned (← expression setting budget value)

def statements (setting : Setting) (budget : Nat) (sources : List TypedStatement) :
    Evaluator Flow :=
  match budget with
  | 0 => outOfBudget
  | budget + 1 =>
    match sources with
    | [] => return .next
    | first :: rest => do
      match ← statement setting budget first with
      | .next => statements setting budget rest
      | returned => return returned

end

end Evaluation

/-- The output of a program, if its evaluation ends within the budget. -/
def TypedProgram.evaluate (program : TypedProgram) (tree : ScopeTree) (ending : EndOfInput)
    (budget : Nat) (input : List UInt8) : Option (List UInt8) :=
  (Evaluation.statements ⟨tree, program.functions, ending⟩ budget program.main
    (World.start input)).map fun (_, world) => world.output

end TapeCode

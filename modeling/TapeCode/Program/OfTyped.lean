import TapeCode.Program.Basic
import TapeCode.Scope.Builtin
import TapeCode.Typed.Basic

/-!
# From resolved trees to intermediate programs

Control flow becomes labels and jumps, calls of labelled functions become `invoke`, and built-in
functions are replaced by their instructions.

The caller pushes the arguments, and `invoke` pushes the return address on top of them. The function
first parks the return address in its slot, moves the arguments into the slots of its parameters,
and brings the return address back, so that it stays below everything the body pushes. `return`
expects the return address on top, with the result, if any, right below it.
-/
namespace TapeCode

/-- Where a value is found whose type has no instructions. -/
inductive ValueContext
  | variableRead
  | assignment
  | declaration
  | parameter
  | functionResult
  | expressionStatement
  deriving DecidableEq, Repr

def ValueContext.text : ValueContext → String
  | .variableRead => "a variable read"
  | .assignment => "an assignment"
  | .declaration => "a declaration"
  | .parameter => "a parameter"
  | .functionResult => "a function result"
  | .expressionStatement => "an expression statement"

/-- The last two do not happen for trees made by resolution. -/
inductive CompileError
  | unsupportedType (type : ValueType) (context : ValueContext)
  | missingSlot (name : String)
  | missingLabel
  deriving DecidableEq, Repr

def CompileError.message : CompileError → String
  | .unsupportedType type context =>
    s!"compile error: cannot lower a value of type {type.name} in {context.text}"
  | .missingSlot name => s!"compile error: internal error: variable '{name}' has no heap slot"
  | .missingLabel => "compile error: internal error: user function without a label id"

namespace Compile

/-- The arguments of the instructions that address a variable. -/
def layout (tree : ScopeTree) (id : VariableId) : Except CompileError (List Int) :=
  match tree.layout? id with
  | some types => .ok (types.map fun type => (type.number : Int))
  | none => .error (.missingSlot ((tree.variableName? id).getD ""))

/-- Only numbers can be moved between the stack and the heap by a program. -/
def numberLayout (tree : ScopeTree) (id : VariableId) (context : ValueContext) :
    Except CompileError (List Int) :=
  match tree.declaredVariables[id]? with
  | some ⟨_, .int, _⟩ | none => layout tree id
  | some ⟨_, type, _⟩ => .error (.unsupportedType type context)

def callInstructions (tree : ScopeTree) (id : FunctionId) : Except CompileError Listing :=
  match tree.functions[id]? with
  | some function =>
    match function.body with
    | .inPlace instructions => .ok instructions
    | .labelled label => .ok [.invoke label]
  | none => .error .missingLabel

mutual

/-- Instructions that push the value of an expression. Reading a slot empties it, so the value is
written back. -/
def expression (tree : ScopeTree) : TypedExpression → Except CompileError Listing
  | .number value _ => .ok [.pushInt value.toNat]
  | .variable id _ => do
    let layout ← numberLayout tree id .variableRead
    return [.readLocal layout, .dupInt, .writeLocal layout]
  | .assign id value _ => do
    let value ← expression tree value
    let layout ← numberLayout tree id .assignment
    return value ++ [.dupInt, .writeLocal layout]
  | .call function arguments _ => do
    let arguments ← expressions tree arguments
    return arguments ++ (← callInstructions tree function)

def expressions (tree : ScopeTree) : List TypedExpression → Except CompileError Listing
  | [] => .ok []
  | first :: rest => do
    let first ← expression tree first
    return first ++ (← expressions tree rest)

end

/-- Compilation of statements hands out label numbers. -/
abbrev Compiler := StateT Nat (Except CompileError)

def newLabel : Compiler Int := do
  let label ← get
  set (label + 1)
  return label

/-- What removes the value of an expression that stands as a statement. -/
def dropValue : ValueType → Except CompileError Listing
  | .void => .ok []
  | .int => .ok [.popInt]
  | type => .error (.unsupportedType type .expressionStatement)

mutual

def statement (tree : ScopeTree) : TypedStatement → Compiler Listing
  | .block statements => blockStatements tree statements
  | .declare id value => do
    let value ← expression tree value
    let layout ← numberLayout tree id .declaration
    return value ++ [.writeLocal layout]
  | .evaluate value => do
    let code ← expression tree value
    return code ++ (← dropValue value.type)
  | .ifThen condition consequence => do
    let behind ← newLabel
    let condition ← expression tree condition
    let consequence ← statement tree consequence
    return condition ++ [.not, .jumpIf behind] ++ consequence ++ [.label behind]
  | .ifThenElse condition consequence alternative => do
    let nonzero ← newLabel
    let behind ← newLabel
    let condition ← expression tree condition
    let alternative ← statement tree alternative
    let consequence ← statement tree consequence
    return condition ++ [.jumpIf nonzero] ++ alternative ++ [.jump behind, .label nonzero] ++
      consequence ++ [.label behind]
  | .whileDo condition body => do
    let start ← newLabel
    let behind ← newLabel
    let condition ← expression tree condition
    let body ← statement tree body
    return [.label start] ++ condition ++ [.not, .jumpIf behind] ++ body ++
      [.jump start, .label behind]
  | .doWhile body condition => do
    let start ← newLabel
    let body ← statement tree body
    let condition ← expression tree condition
    return [.label start] ++ body ++ condition ++ [.jumpIf start]
  | .result none => return [.leave]
  | .result (some value) => return (← expression tree value) ++ [.swapInt, .leave]

def blockStatements (tree : ScopeTree) : List TypedStatement → Compiler Listing
  | [] => return []
  | first :: rest => do
    let first ← statement tree first
    return first ++ (← blockStatements tree rest)

end

/-- The instructions that move the arguments from the stack into the slots of the parameters. -/
def storeParameters (tree : ScopeTree) : List VariableId → Except CompileError Listing
  | [] => .ok []
  | first :: rest => do
    let layout ← numberLayout tree first .parameter
    return .writeLocal layout :: (← storeParameters tree rest)

/-- A function that ends without a `return` statement returns; its result is then zero. -/
def ending : ValueType → Except CompileError Listing
  | .void => .ok [.leave]
  | .int => .ok [.pushInt 0, .swapInt, .leave]
  | type => .error (.unsupportedType type .functionResult)

def function (tree : ScopeTree) (source : TypedFunction) : Compiler Listing := do
  let address ← layout tree ScopeTree.returnAddress
  let parameters ← storeParameters tree source.parameters.reverse
  let body ← statement tree source.body
  let ending ← ending source.result
  return .writeLocal address :: parameters ++ [.readLocal address] ++ body ++ ending

def functions (tree : ScopeTree) (table : FunctionTable Listing) :
    List TypedFunction → Compiler (FunctionTable Listing)
  | [] => return table
  | first :: rest => do
    match (tree.functions[first.function]?).bind (·.label?) with
    | none => throw .missingLabel
    | some label =>
      let body ← function tree first
      functions tree (table.insert label body) rest

end Compile

/-- The intermediate program of a resolved program whose names live in `tree`. -/
def TypedProgram.compile (program : TypedProgram) (tree : ScopeTree) :
    Except CompileError Program := do
  let action : Compile.Compiler (Listing × FunctionTable Listing) := do
    let main ← Compile.blockStatements tree program.main
    return (main, ← Compile.functions tree .empty program.functions)
  let ((main, functions), next) ← action.run tree.nextLabel
  return ⟨main, functions, next⟩

end TapeCode

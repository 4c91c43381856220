import TapeCode.Instruction.Basic

/-!
# Scopes

The tree of lexical scopes of one compilation, with the variables and functions declared in them.
A scope is its path to the root. A variable's heap slot is its place in the sequence of all
variables visible from the scope that declares it, the root's first, so addressing is purely
lexical: every activation of a function shares the same slots. Scopes, variables and functions are
named by the order of their creation.

What a scope declares is searched for in the lists of all variables and functions. The arena in which
scopes are stored has a list for each scope and counts labels in 32 bits; as long as these suffice, it
represents the tree.
-/
namespace TapeCode

abbrev ScopeId := Nat
abbrev VariableId := Nat
abbrev FunctionId := Nat

structure Variable where
  name : String
  type : ValueType
  scope : ScopeId
  deriving DecidableEq, Repr

/-- What a call of the function becomes: instructions in its place, or an invocation of the body
with a label. -/
inductive FunctionBody
  | inPlace (instructions : List Instruction)
  | labelled (label : Nat)
  deriving DecidableEq, Repr

structure Function where
  name : String
  parameters : List ValueType
  result : ValueType
  scope : ScopeId
  body : FunctionBody
  deriving DecidableEq, Repr

def Function.label? (function : Function) : Option Nat :=
  match function.body with
  | .inPlace _ => none
  | .labelled label => some label

/-- Whether values of these types may be given to the function. -/
def Function.accepts (function : Function) (arguments : List ValueType) : Bool :=
  function.parameters.length = arguments.length &&
    (arguments.zip function.parameters).all fun (argument, parameter) =>
      argument.acceptsAs parameter

inductive ScopeError
  | duplicateVariable (name : String)
  | duplicateFunction (name : String)
  deriving DecidableEq, Repr

def ScopeError.message : ScopeError → String
  | .duplicateVariable name => s!"variable '{name}' is already declared"
  | .duplicateFunction name => s!"function '{name}' is already declared with the same parameters"

/-- The field `paths` holds for each scope the scopes from itself to the root. -/
structure ScopeTree where
  paths : List (List ScopeId)
  declaredVariables : List Variable
  functions : List Function
  nextLabel : Nat
  deriving Repr

namespace ScopeTree

def root : ScopeId := 0

/-- The scope itself and those around it, the innermost first. -/
def path (tree : ScopeTree) (scope : ScopeId) : List ScopeId := (tree.paths[scope]?).getD []

def newScope (tree : ScopeTree) (parent : ScopeId) : ScopeTree × ScopeId :=
  let scope := tree.paths.length
  ({ tree with paths := tree.paths ++ [scope :: tree.path parent] }, scope)

def newLabel (tree : ScopeTree) : ScopeTree × Nat :=
  ({ tree with nextLabel := tree.nextLabel + 1 }, tree.nextLabel)

/-! ## Variables -/

/-- The variables that a scope declares itself, in the order of their declaration. -/
def variablesIn (tree : ScopeTree) (scope : ScopeId) : List VariableId :=
  (tree.declaredVariables.zipIdx.filter (·.1.scope = scope)).map (·.2)

/-- The variables visible from a scope, the root's first. -/
def visibleVariables (tree : ScopeTree) (scope : ScopeId) : List VariableId :=
  (tree.path scope).reverse.flatMap tree.variablesIn

def variableName? (tree : ScopeTree) (id : VariableId) : Option String :=
  (tree.declaredVariables[id]?).map (·.name)

/-- The innermost variable of that name. -/
def findVariable? (tree : ScopeTree) (scope : ScopeId) (name : String) : Option VariableId :=
  (tree.path scope).findSome? fun scope =>
    (tree.variablesIn scope).find? fun id => tree.variableName? id = some name

/-- A visible name may not be declared again, not even in an inner scope. -/
def declareVariable (tree : ScopeTree) (scope : ScopeId) (name : String) (type : ValueType) :
    ScopeTree × Except ScopeError VariableId :=
  if (tree.findVariable? scope name).isSome then (tree, .error (.duplicateVariable name))
  else
    let known := tree.declaredVariables
    ({ tree with declaredVariables := known ++ [⟨name, type, scope⟩] }, .ok known.length)

/-- The heap slot of a variable. It counts the variables of outer scopes too, and so is settled only
when these are complete. -/
def slot? (tree : ScopeTree) (id : VariableId) : Option Nat := do
  let declared ← tree.declaredVariables[id]?
  (tree.visibleVariables declared.scope).findIdx? (· = id)

/-- The types of the values in the slots up to the one of the variable. -/
def layout? (tree : ScopeTree) (id : VariableId) : Option (List ValueType) := do
  let declared ← tree.declaredVariables[id]?
  let slot ← tree.slot? id
  let visible := (tree.visibleVariables declared.scope).take (slot + 1)
  return visible.filterMap fun other => (tree.declaredVariables[other]?).map (·.type)

/-! ## Functions -/

def functionsIn (tree : ScopeTree) (scope : ScopeId) : List FunctionId :=
  (tree.functions.zipIdx.filter (·.1.scope = scope)).map (·.2)

/-- Functions of one scope must differ in name or parameters; the label is fresh. -/
def declareFunction (tree : ScopeTree) (scope : ScopeId) (name : String)
    (parameters : List ValueType) (result : ValueType) :
    ScopeTree × Except ScopeError FunctionId :=
  if tree.functions.any fun other =>
      other.scope = scope && other.name = name && other.parameters = parameters then
    (tree, .error (.duplicateFunction name))
  else
    let (tree, label) := tree.newLabel
    let function : Function := ⟨name, parameters, result, scope, .labelled label⟩
    ({ tree with functions := tree.functions ++ [function] }, .ok tree.functions.length)

/-- The innermost function of that name which takes these arguments. -/
def findFunction? (tree : ScopeTree) (scope : ScopeId) (name : String)
    (arguments : List ValueType) : Option FunctionId :=
  (tree.path scope).findSome? fun scope =>
    (tree.functionsIn scope).find? fun id =>
      (tree.functions[id]?).any fun function =>
        function.name = name && function.accepts arguments

end ScopeTree

end TapeCode

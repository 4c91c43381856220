import TapeCode.Program.Basic
import TapeCode.Scope.Builtin
import TapeCode.Word

/-!
# Scopes as they are stored

The arena that owns the scopes, variables and functions of one compilation. A scope knows the scope
around it and lists what it declares, functions are found through a map from their labels, and labels
are numbers of 32 bits. Whatever an operation answers, it answers beside the arena it leaves behind, so
a failure too shows what had been done before it.
-/
namespace TapeCode

structure ScopeEntry where
  parent : Option ScopeId
  variableIds : List VariableId
  functionIds : List FunctionId
  deriving DecidableEq, Repr

/-- The label is given on declaration, whatever it was before. -/
structure FunctionEntry where
  name : String
  parameters : List ValueType
  result : ValueType
  label : Option Int
  body : List Instruction
  isBuiltin : Bool
  deriving DecidableEq, Repr

namespace FunctionEntry

/-- A function of a program, before it is declared. -/
def user (name : String) (parameters : List ValueType) (result : ValueType) : FunctionEntry :=
  ⟨name, parameters, result, none, [], false⟩

/-- A function that calls are replaced by; it has no label. -/
def builtin (function : Function) : FunctionEntry :=
  let body := match function.body with
    | .inPlace instructions => instructions
    | .labelled _ => []
  ⟨function.name, function.parameters, function.result, none, body, true⟩

def builtins : List FunctionEntry := Function.builtins.map builtin

/-- Whether values of these types may be given to the function. -/
def accepts (function : FunctionEntry) (arguments : List ValueType) : Bool :=
  function.parameters.length = arguments.length &&
    (arguments.zip function.parameters).all fun (argument, parameter) =>
      argument.acceptsAs parameter

end FunctionEntry

/-- Why an operation on scopes fails: a name is taken, or there is no label left. -/
inductive ScopeFailure
  | refused (error : ScopeError)
  | overflow (cause : Overflow)
  deriving DecidableEq, Repr

/-- The map `labels` leads from the label of a function to its number. -/
structure ScopeArena where
  scopes : List ScopeEntry
  declaredVariables : List Variable
  functions : List FunctionEntry
  labels : FunctionTable FunctionId
  nextLabel : Int
  returnAddress : VariableId
  deriving DecidableEq, Repr

namespace ScopeArena

/-! ## Growing -/

/-- Adds a variable to the arena and to its scope. -/
def pushVariable (arena : ScopeArena) (declared : Variable) : ScopeArena × VariableId :=
  let id := arena.declaredVariables.length
  let arena := { arena with declaredVariables := arena.declaredVariables ++ [declared] }
  let scopes := arena.scopes.modify declared.scope fun entry =>
    { entry with variableIds := entry.variableIds ++ [id] }
  ({ arena with scopes := scopes }, id)

/-- Adds a function to the arena and to a scope. -/
def pushFunction (arena : ScopeArena) (scope : ScopeId) (function : FunctionEntry) :
    ScopeArena × FunctionId :=
  let id := arena.functions.length
  let arena := { arena with functions := arena.functions ++ [function] }
  let scopes := arena.scopes.modify scope fun entry =>
    { entry with functionIds := entry.functionIds ++ [id] }
  ({ arena with scopes := scopes }, id)

def empty : ScopeArena := ⟨[⟨none, [], []⟩], [], [], .empty, 0, 0⟩

/-- The arena in which every compilation starts: a root scope with the built-in functions and the
variable for return addresses. -/
def generate : ScopeArena :=
  let arena := FunctionEntry.builtins.foldl
    (fun arena function => (arena.pushFunction ScopeTree.root function).1) empty
  let (arena, address) := arena.pushVariable ⟨"<return_address>", .fsm, ScopeTree.root⟩
  { arena with returnAddress := address }

def newScope (arena : ScopeArena) (parent : ScopeId) : ScopeArena × ScopeId :=
  let scope := arena.scopes.length
  ({ arena with scopes := arena.scopes ++ [⟨some parent, [], []⟩] }, scope)

/-- The last number of 32 bits is never given away, as there is no next label after it. -/
def newLabel (arena : ScopeArena) : ScopeArena × Except ScopeFailure Int :=
  let label := arena.nextLabel
  if fitsArgument (label + 1) then ({ arena with nextLabel := label + 1 }, .ok label)
  else (arena, .error (.overflow .addition))

/-! ## Variables -/

def parent? (arena : ScopeArena) (scope : ScopeId) : Option ScopeId :=
  (arena.scopes[scope]?).bind (·.parent)

/-- The first scopes, at most `bound`, on the way from a scope to the root. -/
def ancestorsWithin (arena : ScopeArena) : (bound : Nat) → ScopeId → List ScopeId
  | 0, _ => []
  | bound + 1, scope =>
    scope :: match arena.parent? scope with
      | some parent => arena.ancestorsWithin bound parent
      | none => []

/-- The scope itself and those around it, the innermost first. A scope is younger than the one around
it, so there are at most as many around it as there are older ones. -/
def ancestors (arena : ScopeArena) (scope : ScopeId) : List ScopeId :=
  arena.ancestorsWithin (scope + 1) scope

def variablesIn (arena : ScopeArena) (scope : ScopeId) : List VariableId :=
  ((arena.scopes[scope]?).map (·.variableIds)).getD []

/-- The variables visible from a scope, the root's first. -/
def visibleVariables (arena : ScopeArena) (scope : ScopeId) : List VariableId :=
  (arena.ancestors scope).reverse.flatMap arena.variablesIn

def variableName? (arena : ScopeArena) (id : VariableId) : Option String :=
  (arena.declaredVariables[id]?).map (·.name)

/-- The innermost variable of that name. -/
def findVariable? (arena : ScopeArena) (scope : ScopeId) (name : String) : Option VariableId :=
  (arena.ancestors scope).findSome? fun scope =>
    (arena.variablesIn scope).find? fun id => arena.variableName? id = some name

/-- A visible name may not be declared again, not even in an inner scope. -/
def declareVariable (arena : ScopeArena) (scope : ScopeId) (name : String) (type : ValueType) :
    ScopeArena × Except ScopeFailure VariableId :=
  if (arena.findVariable? scope name).isSome then
    (arena, .error (.refused (.duplicateVariable name)))
  else
    let (arena, id) := arena.pushVariable ⟨name, type, scope⟩
    (arena, .ok id)

/-- The heap slot of a variable. It counts the variables of outer scopes too, and so is settled only
when these are complete. -/
def slot? (arena : ScopeArena) (id : VariableId) : Option Nat := do
  let declared ← arena.declaredVariables[id]?
  (arena.visibleVariables declared.scope).findIdx? (· = id)

/-- The types of the values in the slots up to the one of the variable. -/
def layout? (arena : ScopeArena) (id : VariableId) : Option (List ValueType) := do
  let declared ← arena.declaredVariables[id]?
  let visible := arena.visibleVariables declared.scope
  let slot ← visible.findIdx? (· = id)
  return (visible.take (slot + 1)).filterMap fun other =>
    (arena.declaredVariables[other]?).map (·.type)

/-! ## Functions -/

def functionsIn (arena : ScopeArena) (scope : ScopeId) : List FunctionId :=
  ((arena.scopes[scope]?).map (·.functionIds)).getD []

/-- Functions of one scope must differ in name or parameters. Only when that is settled is a label
taken, which the function has from then on. -/
def declareFunction (arena : ScopeArena) (scope : ScopeId) (function : FunctionEntry) :
    ScopeArena × Except ScopeFailure FunctionId :=
  let clash := (arena.functionsIn scope).any fun id =>
    (arena.functions[id]?).any fun other =>
      other.name = function.name && other.parameters = function.parameters
  if clash then (arena, .error (.refused (.duplicateFunction function.name)))
  else
    match arena.newLabel with
    | (arena, .error failure) => (arena, .error failure)
    | (arena, .ok label) =>
      let (arena, id) := arena.pushFunction scope { function with label := some label }
      ({ arena with labels := arena.labels.insert label id }, .ok id)

/-- The innermost function of that name which takes these arguments. -/
def findFunction? (arena : ScopeArena) (scope : ScopeId) (name : String)
    (arguments : List ValueType) : Option FunctionId :=
  (arena.ancestors scope).findSome? fun scope =>
    (arena.functionsIn scope).find? fun id =>
      (arena.functions[id]?).any fun function =>
        function.name = name && function.accepts arguments

def functionWithLabel? (arena : ScopeArena) (label : Int) : Option FunctionEntry :=
  (arena.labels.get? label).bind (arena.functions[·]?)

/-! ## Operations -/

/-- What may be asked of an arena that grows. -/
inductive Operation
  | newScope (parent : ScopeId)
  | declareVariable (scope : ScopeId) (name : String) (type : ValueType)
  | declareFunction (scope : ScopeId) (function : FunctionEntry)
  | newLabel
  deriving DecidableEq, Repr

inductive Answer
  | scope (id : ScopeId)
  | variable (id : VariableId)
  | function (id : FunctionId)
  | label (label : Int)
  deriving DecidableEq, Repr

/-- The arena that an operation leaves behind, and its answer. -/
def perform (arena : ScopeArena) : Operation → ScopeArena × Except ScopeFailure Answer
  | .newScope parent =>
    let (arena, scope) := arena.newScope parent
    (arena, .ok (.scope scope))
  | .declareVariable scope name type =>
    let (arena, result) := arena.declareVariable scope name type
    (arena, result.map .variable)
  | .declareFunction scope function =>
    let (arena, result) := arena.declareFunction scope function
    (arena, result.map .function)
  | .newLabel =>
    let (arena, result) := arena.newLabel
    (arena, result.map .label)

end ScopeArena

end TapeCode

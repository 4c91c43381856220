import TapeCode.Scope.Builtin
import TapeCode.Typed.Basic

/-!
# Sound trees

What resolution promises about its results. Expressions have the types that the scope tree gives to
what they name, calls have the arguments that the function takes, and every statement returns what the
function around it is declared to return. What a function names lies in its own scopes or in those
around it. The scope tree starts with the built-in functions, and the functions of a program are all
there and have names other than that of assignment, which only the assignment operator calls.
-/
namespace TapeCode

/-- The name of assignment, which no call of a program uses. -/
def assignment : String := "="

namespace ScopeTree

/-- The two scopes lie one around the other, or around a third one. -/
def Near (tree : ScopeTree) (home other : ScopeId) : Prop :=
  ∃ path ∈ tree.paths, home ∈ path ∧ other ∈ path

/-- A number that code in the scope `home`, or in one within it, may name. -/
def IsNumber (tree : ScopeTree) (home : ScopeId) (id : VariableId) : Prop :=
  ∃ declared, tree.declaredVariables[id]? = some declared ∧ declared.type = .int ∧
    tree.Near home declared.scope

end ScopeTree

mutual

/-- What an expression in the scope `home` promises about its parts and its type. -/
def TypedExpression.IsSound (tree : ScopeTree) (home : ScopeId) : TypedExpression → Prop
  | .number _ type => type = .int
  | .variable id type => tree.IsNumber home id ∧ type = .int
  | .assign id value type =>
    TypedExpression.IsSound tree home value ∧ value.type = .int ∧ type = .int ∧
      tree.IsNumber home id
  | .call function arguments type =>
    TypedExpression.AreSound tree home arguments ∧ ∃ called,
      tree.functions[function]? = some called ∧ called.name ≠ assignment ∧
      called.accepts (arguments.map (·.type)) = true ∧ type = called.result ∧
      tree.Near home called.scope

def TypedExpression.AreSound (tree : ScopeTree) (home : ScopeId) : List TypedExpression → Prop
  | [] => True
  | first :: rest =>
    TypedExpression.IsSound tree home first ∧ TypedExpression.AreSound tree home rest

end

mutual

/-- The result is the one of the function around the statement, if there is one. -/
def TypedStatement.IsSound (tree : ScopeTree) (home : ScopeId) (result : Option ValueType) :
    TypedStatement → Prop
  | .block statements => TypedStatement.AreSound tree home result statements
  | .declare id value => value.IsSound tree home ∧ value.type = .int ∧ tree.IsNumber home id
  | .evaluate value => value.IsSound tree home
  | .ifThen condition consequence =>
    condition.IsSound tree home ∧ condition.type = .int ∧
      TypedStatement.IsSound tree home result consequence
  | .ifThenElse condition consequence alternative =>
    condition.IsSound tree home ∧ condition.type = .int ∧
      TypedStatement.IsSound tree home result consequence ∧
      TypedStatement.IsSound tree home result alternative
  | .whileDo condition body =>
    condition.IsSound tree home ∧ condition.type = .int ∧
      TypedStatement.IsSound tree home result body
  | .doWhile body condition =>
    condition.IsSound tree home ∧ condition.type = .int ∧
      TypedStatement.IsSound tree home result body
  | .result none => result = some .void
  | .result (some value) => result = some .int ∧ value.IsSound tree home ∧ value.type = .int

def TypedStatement.AreSound (tree : ScopeTree) (home : ScopeId) (result : Option ValueType) :
    List TypedStatement → Prop
  | [] => True
  | first :: rest =>
    TypedStatement.IsSound tree home result first ∧
      TypedStatement.AreSound tree home result rest

end

/-- A function with its parameters, all of them numbers in one scope of their own, the frame, which
lies directly in the scope of the function. -/
structure TypedFunction.IsSound (tree : ScopeTree) (source : TypedFunction) : Prop where
  declared : ∃ called, tree.functions[source.function]? = some called ∧
    called.result = source.result ∧ called.parameters = source.parameters.map fun _ => .int
  user : Function.builtins.length ≤ source.function
  result : source.result = .void ∨ source.result = .int
  distinct : source.parameters.Nodup
  framed : ∃ called around frame, tree.functions[source.function]? = some called ∧
    tree.paths[called.scope]? = some around ∧ tree.paths[frame]? = some (frame :: around) ∧
    (∀ id ∈ source.parameters, ∃ declared, tree.declaredVariables[id]? = some declared ∧
      declared.type = .int ∧ declared.scope = frame) ∧
    source.body.IsSound tree frame (some source.result)

/-- The scope tree of a program: the root with the built-in functions and the slot for return
addresses, and numbers and functions of the program everywhere else. -/
structure ScopeTree.IsSound (tree : ScopeTree) : Prop where
  functions : ∃ users, tree.functions = Function.builtins ++ users ∧
    ∀ function ∈ users, function.name ≠ assignment ∧ function.label?.isSome = true ∧
      (function.result = .void ∨ function.result = .int)
  labels : (tree.functions.filterMap (·.label?)).Nodup
  fresh : ∀ label ∈ tree.functions.filterMap (·.label?), label < tree.nextLabel
  numbers : ∃ rest, tree.declaredVariables = ⟨"<return_address>", .fsm, root⟩ :: rest ∧
    ∀ declared ∈ rest, declared.type = .int ∧ declared.scope < tree.paths.length
  paths : ∀ path ∈ tree.paths, path.getLast? = some root
  heads : ∀ (scope : ScopeId) (path : List ScopeId), tree.paths[scope]? = some path →
    path.head? = some scope
  nested : ∀ path ∈ tree.paths, ∀ scope ∈ path, ∃ outer, tree.paths[scope]? = some outer ∧
    outer <:+ path
  root : tree.paths[root]? = some [root]

/-- A program, its functions and its scope tree. The main block has the first scope below the
root. -/
structure TypedProgram.IsSound (program : TypedProgram) (tree : ScopeTree) : Prop where
  scopes : tree.IsSound
  mainScope : tree.paths[1]? = some [1, ScopeTree.root]
  main : TypedStatement.AreSound tree 1 none program.main
  functions : ∀ source ∈ program.functions, source.IsSound tree
  complete : ∀ id, Function.builtins.length ≤ id → id < tree.functions.length →
    id ∈ program.functions.map (·.function)
  unique : (program.functions.map (·.function)).Nodup

end TapeCode

import TapeCode.Scope.Builtin
import TapeCode.Tree.Basic
import TapeCode.Typed.Basic

/-!
# From names to meanings

Resolution replaces every name by the variable or function it denotes, checks types, and builds the
scope tree on the way. The functions of a block are declared before its statements are resolved, so
calls may precede declarations and functions may call each other. Expressions declare nothing and
only read the scope tree.
-/
namespace TapeCode

inductive ResolveCause
  | undefinedVariable (name : String)
  | unknownFunction (name : String) (arguments : List ValueType)
  | scope (error : ScopeError)
  | typeMismatch (expected found : ValueType)
  | assignTarget
  | returnOutsideFunction
  | missingReturnValue (type : ValueType)
  | unexpectedReturnValue
  | unsupportedVariableType (type : ValueType)
  | unsupportedReturnType (type : ValueType)
  deriving DecidableEq, Repr

structure ResolveError where
  position : Position
  cause : ResolveCause
  deriving DecidableEq, Repr

/-- A call as messages show it: the name and the types of the arguments. -/
def signatureText (name : String) (arguments : List ValueType) : String :=
  name ++ "(" ++ ", ".intercalate (arguments.map (·.name)) ++ ")"

def ResolveCause.message : ResolveCause → String
  | .undefinedVariable name => s!"undefined variable '{name}'"
  | .unknownFunction name arguments => s!"cannot find function {signatureText name arguments}"
  | .scope error => error.message
  | .typeMismatch expected found =>
    s!"type mismatch: expected {expected.name}, found {found.name}"
  | .assignTarget => "left hand side of operator '=' must be a variable"
  | .returnOutsideFunction => "return outside of a function"
  | .missingReturnValue type => s!"function returning {type.name} must return a value"
  | .unexpectedReturnValue => "void function cannot return a value"
  | .unsupportedVariableType type => s!"variables of type {type.name} are not supported"
  | .unsupportedReturnType type => s!"functions returning {type.name} are not supported"

def ResolveError.message (error : ResolveError) : String :=
  error.position.message error.cause.message

namespace Resolve

def expectType (found expected : ValueType) (position : Position) : Except ResolveError Unit :=
  if found.acceptsAs expected then .ok () else .error ⟨position, .typeMismatch expected found⟩

/-! ## Expressions -/

def call (tree : ScopeTree) (scope : ScopeId) (name : String) (arguments : List TypedExpression)
    (position : Position) : Except ResolveError TypedExpression :=
  let types := arguments.map (·.type)
  match tree.findFunction? scope name types with
  | none => .error ⟨position, .unknownFunction name types⟩
  | some id =>
    let result := ((tree.functions[id]?).map (·.result)).getD .void
    .ok (.call id arguments result)

def variableUse (tree : ScopeTree) (scope : ScopeId) (name : String) (position : Position) :
    Except ResolveError (VariableId × ValueType) :=
  match tree.findVariable? scope name with
  | none => .error ⟨position, .undefinedVariable name⟩
  | some id => .ok (id, ((tree.declaredVariables[id]?).map (·.type)).getD .void)

mutual

def expression (tree : ScopeTree) (scope : ScopeId) :
    Expression → Except ResolveError TypedExpression
  | .number value _ => .ok (.number value .int)
  | .variable name position => do
    let (id, type) ← variableUse tree scope name position
    return .variable id type
  | .call name arguments position => do
    let arguments ← expressions tree scope arguments
    call tree scope name arguments position
  | .binary .assign left right position =>
    match left with
    | .variable name place => do
      let (id, type) ← variableUse tree scope name place
      let value ← expression tree scope right
      let assignment ← call tree scope BinaryOperator.assign.symbol [.variable id type, value]
        position
      return .assign id value assignment.type
    | _ => .error ⟨position, .assignTarget⟩
  | .binary operator left right position => do
    let left ← expression tree scope left
    let right ← expression tree scope right
    call tree scope operator.symbol [left, right] position

def expressions (tree : ScopeTree) (scope : ScopeId) :
    List Expression → Except ResolveError (List TypedExpression)
  | [] => .ok []
  | first :: rest => do
    let first ← expression tree scope first
    return first :: (← expressions tree scope rest)

end

def condition (tree : ScopeTree) (scope : ScopeId) (source : Expression) :
    Except ResolveError TypedExpression := do
  let typed ← expression tree scope source
  expectType typed.type .laxBool source.position
  return typed

/-! ## Statements -/

/-- What resolution has built so far: the scope tree, and the functions in the order in which their
bodies were completed. -/
structure State where
  tree : ScopeTree
  functions : List TypedFunction
  deriving Repr

abbrev Resolver := StateT State (Except ResolveError)

/-- Where a statement stands: its scope, and the result type of the function around it, if any. -/
structure Place where
  scope : ScopeId
  result : Option ValueType
  deriving Repr

def inTree {α : Type} (action : ScopeTree → Except ResolveError α) : Resolver α := do
  action (← get).tree

def newScope (parent : ScopeId) : Resolver ScopeId := do
  let state ← get
  let (tree, scope) := state.tree.newScope parent
  set { state with tree := tree }
  return scope

def declareVariable (scope : ScopeId) (name : String) (type : ValueType) (position : Position) :
    Resolver VariableId := do
  let state ← get
  match state.tree.declareVariable scope name type with
  | (_, .error error) => throw ⟨position, .scope error⟩
  | (tree, .ok id) =>
    set { state with tree := tree }
    return id

/-- Functions may return nothing or a number. -/
def declareFunction (scope : ScopeId) (name : String) (parameters : List Parameter)
    (result : ValueType) (position : Position) : Resolver FunctionId := do
  if result ≠ .void ∧ result ≠ .int then throw ⟨position, .unsupportedReturnType result⟩
  let state ← get
  match state.tree.declareFunction scope name (parameters.map (·.type)) result with
  | (_, .error error) => throw ⟨position, .scope error⟩
  | (tree, .ok function) =>
    set { state with tree := tree }
    return function

/-- Declares the functions among the statements of a block. -/
def declareFunctions (scope : ScopeId) : List Statement → Resolver (List FunctionId)
  | [] => return []
  | .function name parameters result _ position :: rest => do
    let function ← declareFunction scope name parameters result position
    return function :: (← declareFunctions scope rest)
  | _ :: rest => declareFunctions scope rest

def declareParameters (frame : ScopeId) : List Parameter → Resolver (List VariableId)
  | [] => return []
  | parameter :: rest => do
    if parameter.type ≠ .int then
      throw ⟨parameter.position, .unsupportedVariableType parameter.type⟩
    let id ← declareVariable frame parameter.name parameter.type parameter.position
    return id :: (← declareParameters frame rest)

def result (place : Place) (value : Option Expression) (position : Position) :
    Resolver TypedStatement := do
  match place.result, value with
  | none, _ => throw ⟨position, .returnOutsideFunction⟩
  | some .void, none => return .result none
  | some .void, some _ => throw ⟨position, .unexpectedReturnValue⟩
  | some type, none => throw ⟨position, .missingReturnValue type⟩
  | some type, some value =>
    let typed ← inTree fun tree => expression tree place.scope value
    expectType typed.type type value.position
    return .result (some typed)

mutual

def statement (place : Place) : Statement → Resolver TypedStatement
  | .block statements => do
    let inner ← newScope place.scope
    let declared ← declareFunctions inner statements
    return .block (← blockStatements ⟨inner, place.result⟩ declared statements)
  | .declare name value position => do
    let typed ← inTree fun tree => expression tree place.scope value
    expectType typed.type .int position
    let id ← declareVariable place.scope name typed.type position
    return .declare id typed
  | .evaluate value => return .evaluate (← inTree fun tree => expression tree place.scope value)
  | .ifThen test consequence => do
    let test ← inTree fun tree => condition tree place.scope test
    return .ifThen test (← statement place consequence)
  | .ifThenElse test consequence alternative => do
    let test ← inTree fun tree => condition tree place.scope test
    let consequence ← statement place consequence
    return .ifThenElse test consequence (← statement place alternative)
  | .whileDo test body => do
    let test ← inTree fun tree => condition tree place.scope test
    return .whileDo test (← statement place body)
  | .doWhile body test => do
    let body ← statement place body
    return .doWhile body (← inTree fun tree => condition tree place.scope test)
  | .result value position => result place value position
  | .function name parameters type body position => do
    let id ← declareFunction place.scope name parameters type position
    let frame ← newScope place.scope
    let parameterIds ← declareParameters frame parameters
    let body ← statement ⟨frame, some type⟩ body
    modify fun state =>
      { state with functions := state.functions ++ [⟨id, parameterIds, type, body⟩] }
    return .block []

/-- The statements of a block whose functions have been declared, in order, as `declared`. -/
def blockStatements (place : Place) (declared : List FunctionId) :
    List Statement → Resolver (List TypedStatement)
  | [] => return []
  | .function _ parameters type body _ :: rest => do
    let frame ← newScope place.scope
    let parameterIds ← declareParameters frame parameters
    let body ← statement ⟨frame, some type⟩ body
    modify fun state =>
      { state with
        functions := state.functions ++ [⟨declared.headD 0, parameterIds, type, body⟩] }
    blockStatements place declared.tail rest
  | first :: rest => do
    let first ← statement place first
    return first :: (← blockStatements place declared rest)

end

end Resolve

/-- The resolved program and the scope tree built for it. The main block has a scope of its own
below the root, so its variables follow the return address. -/
def resolve (program : List Statement) : Except ResolveError (TypedProgram × ScopeTree) := do
  let (tree, scope) := ScopeTree.initial.newScope ScopeTree.root
  let place : Resolve.Place := ⟨scope, none⟩
  let action : Resolve.Resolver (List TypedStatement) := do
    Resolve.blockStatements place (← Resolve.declareFunctions scope program) program
  let (main, state) ← action.run ⟨tree, []⟩
  return (⟨main, state.functions⟩, state.tree)

end TapeCode

import Mathlib.Logic.Function.Basic
import TapeCode.Proofs.Resolution.Resolved
import TapeCode.Tree.Rename

/-!
# Resolution does not look at names

Resolution compares names and never does anything else with them. When all names are replaced through
an injective map that leaves the names of the root scope as they are, the same declarations are found,
the same types are checked and the same clashes reported: the resolved program is the same, the scope
tree differs in its names, and so does the error, if there is one.
-/
namespace TapeCode

/-! ## Names in scope trees and errors -/

def Variable.rename (image : String → String) (variable' : Variable) : Variable :=
  { variable' with name := image variable'.name }

def Function.rename (image : String → String) (function : Function) : Function :=
  { function with name := image function.name }

/-- The tree with every name replaced by its image. -/
def ScopeTree.rename (image : String → String) (tree : ScopeTree) : ScopeTree :=
  { tree with
    declaredVariables := tree.declaredVariables.map (·.rename image)
    functions := tree.functions.map (·.rename image) }

def ScopeError.rename (image : String → String) : ScopeError → ScopeError
  | .duplicateVariable name => .duplicateVariable (image name)
  | .duplicateFunction name => .duplicateFunction (image name)

def ResolveCause.rename (image : String → String) : ResolveCause → ResolveCause
  | .undefinedVariable name => .undefinedVariable (image name)
  | .unknownFunction name arguments => .unknownFunction (image name) arguments
  | .scope error => .scope (error.rename image)
  | cause => cause

def ResolveError.rename (image : String → String) (error : ResolveError) : ResolveError :=
  { error with cause := error.cause.rename image }

/-- The map keeps names apart, and leaves those alone that a program finds declared. -/
structure Renaming (image : String → String) : Prop where
  injective : Function.Injective image
  builtins : ∀ function ∈ Function.builtins, image function.name = function.name
  address : image "<return_address>" = "<return_address>"

variable {image : String → String}

theorem Renaming.symbol (renames : Renaming image) (operator : BinaryOperator) :
    image operator.symbol = operator.symbol := by
  obtain ⟨function, member, named⟩ :
      ∃ function ∈ Function.builtins, function.name = operator.symbol := by
    cases operator <;> decide
  rw [← named]
  exact renames.builtins function member

namespace ScopeTree

theorem initial_rename (renames : Renaming image) : initial.rename image = initial := by
  have same : ∀ function ∈ Function.builtins, function.rename image = function :=
    fun function member => by rw [Function.rename, renames.builtins function member]
  have functions : Function.builtins.map (·.rename image) = Function.builtins :=
    (List.map_congr_left same).trans (List.map_id _)
  simp only [rename, initial, functions, List.map_cons, List.map_nil, Variable.rename,
    renames.address]

variable {tree : ScopeTree}

/-! ## Looking names up -/

theorem path_rename (scope : ScopeId) : (tree.rename image).path scope = tree.path scope := rfl

theorem getElem?_variables_rename (id : VariableId) :
    (tree.rename image).declaredVariables[id]? =
      tree.declaredVariables[id]?.map (·.rename image) :=
  List.getElem?_map

theorem getElem?_functions_rename (id : FunctionId) :
    (tree.rename image).functions[id]? = tree.functions[id]?.map (·.rename image) :=
  List.getElem?_map

theorem variablesIn_rename (scope : ScopeId) :
    (tree.rename image).variablesIn scope = tree.variablesIn scope := by
  simp only [variablesIn, rename, List.zipIdx_map, List.filter_map, List.map_map]
  rfl

theorem functionsIn_rename (scope : ScopeId) :
    (tree.rename image).functionsIn scope = tree.functionsIn scope := by
  simp only [functionsIn, rename, List.zipIdx_map, List.filter_map, List.map_map]
  rfl

theorem findVariable?_rename (injective : Function.Injective image) (scope : ScopeId)
    (name : String) :
    (tree.rename image).findVariable? scope (image name) = tree.findVariable? scope name := by
  have named (id : VariableId) : (tree.rename image).variableName? id = some (image name) ↔
      tree.variableName? id = some name := by
    simp only [variableName?, getElem?_variables_rename, Option.map_map]
    cases tree.declaredVariables[id]? with
    | none => simp
    | some declared => simp [Variable.rename, injective.eq_iff]
  simp only [findVariable?, path_rename, variablesIn_rename, named]

theorem findFunction?_rename (injective : Function.Injective image) (scope : ScopeId)
    (name : String) (arguments : List ValueType) :
    (tree.rename image).findFunction? scope (image name) arguments =
      tree.findFunction? scope name arguments := by
  have suits (id : FunctionId) :
      ((tree.rename image).functions[id]?.any fun function =>
        function.name = image name && function.accepts arguments) =
      (tree.functions[id]?.any fun function =>
        function.name = name && function.accepts arguments) := by
    rw [getElem?_functions_rename]
    cases tree.functions[id]? with
    | none => rfl
    | some function => simp [Function.rename, Function.accepts, injective.eq_iff]
  simp only [findFunction?, path_rename, functionsIn_rename, suits]

/-! ## Declarations -/

theorem declareVariable_rename (injective : Function.Injective image) (scope : ScopeId)
    (name : String) (type : ValueType) :
    (tree.rename image).declareVariable scope (image name) type =
      match tree.declareVariable scope name type with
      | (after, answer) => (after.rename image, answer.mapError (·.rename image)) := by
  simp only [declareVariable, findVariable?_rename injective]
  split
  · rfl
  · simp [rename, Variable.rename, Except.mapError]

theorem declareFunction_rename (injective : Function.Injective image) (scope : ScopeId)
    (name : String) (parameters : List ValueType) (result : ValueType) :
    (tree.rename image).declareFunction scope (image name) parameters result =
      match tree.declareFunction scope name parameters result with
      | (after, answer) => (after.rename image, answer.mapError (·.rename image)) := by
  have clash : ((tree.rename image).functions.any fun other =>
        other.scope = scope && other.name = image name && other.parameters = parameters) =
      tree.functions.any fun other =>
        other.scope = scope && other.name = name && other.parameters = parameters := by
    simp [rename, List.any_map, Function.comp_def, Function.rename, injective.eq_iff]
  simp only [declareFunction, clash]
  split
  · rfl
  · simp [rename, newLabel, Function.rename, Except.mapError]

end ScopeTree

namespace Resolve

/-! ## Expressions -/

/-- Computations that fail give what their parts give, also when names are replaced in the errors. -/
theorem mapError_bind {α β : Type} (action : Except ResolveError α)
    (next : α → Except ResolveError β) :
    (action >>= next).mapError (·.rename image) =
      action.mapError (·.rename image) >>= fun value => (next value).mapError (·.rename image) := by
  cases action <;> rfl

theorem expectType_rename (found expected : ValueType) (position : Position) :
    (expectType found expected position).mapError (·.rename image) =
      expectType found expected position := by
  unfold expectType
  split <;> rfl

variable {tree : ScopeTree} {scope : ScopeId}

theorem call_rename (injective : Function.Injective image) (name : String)
    (arguments : List TypedExpression) (position : Position) :
    call (tree.rename image) scope (image name) arguments position =
      (call tree scope name arguments position).mapError (·.rename image) := by
  simp only [call, ScopeTree.findFunction?_rename injective, ScopeTree.getElem?_functions_rename,
    Option.map_map]
  split <;> rfl

theorem variableUse_rename (injective : Function.Injective image) (name : String)
    (position : Position) :
    variableUse (tree.rename image) scope (image name) position =
      (variableUse tree scope name position).mapError (·.rename image) := by
  simp only [variableUse, ScopeTree.findVariable?_rename injective,
    ScopeTree.getElem?_variables_rename, Option.map_map]
  split <;> rfl

theorem position_rename (source : Expression) : (source.rename image).position = source.position := by
  cases source <;> rfl

mutual

theorem expression_rename (renames : Renaming image) : ∀ source : Expression,
    expression (tree.rename image) scope (source.rename image) =
      (expression tree scope source).mapError (·.rename image)
  | .number value position => rfl
  | .variable name position => by
    simp only [Expression.rename, expression, variableUse_rename renames.injective, mapError_bind]
    rfl
  | .call name arguments position => by
    simp only [Expression.rename, expression, expressions_rename renames arguments, mapError_bind,
      call_rename renames.injective]
  | .binary operator left right position => by
    have called := @call_rename image tree scope renames.injective operator.symbol
    rw [renames.symbol] at called
    by_cases assigns : operator = .assign
    · -- The target is looked up as a variable, and anything else is refused by its position.
      subst assigns
      cases left with
      | «variable» name place =>
        simp only [Expression.rename, expression, variableUse_rename renames.injective,
          expression_rename renames right, called, mapError_bind]
        rfl
      | _ => rfl
    · simp only [Expression.rename, expression_operator assigns, expression_rename renames left,
        expression_rename renames right, called, mapError_bind]

theorem expressions_rename (renames : Renaming image) : ∀ sources : List Expression,
    expressions (tree.rename image) scope (Expression.renameAll image sources) =
      (expressions tree scope sources).mapError (·.rename image)
  | [] => rfl
  | first :: rest => by
    simp only [Expression.renameAll, expressions, expression_rename renames first,
      expressions_rename renames rest, mapError_bind]
    rfl

end

theorem condition_rename (renames : Renaming image) (source : Expression) :
    condition (tree.rename image) scope (source.rename image) =
      (condition tree scope source).mapError (·.rename image) := by
  simp only [condition, expression_rename renames, position_rename, mapError_bind,
    expectType_rename]
  rfl

/-! ## Statements -/

variable {α : Type}

def State.rename (image : String → String) (state : State) : State :=
  { state with tree := state.tree.rename image }

/-- The second computation does under the new names what the first one does under the old ones. -/
def Respells (image : String → String) (action other : Resolver α) : Prop :=
  ∀ state, other (state.rename image) =
    match action state with
    | .error error => .error (error.rename image)
    | .ok (value, after) => .ok (value, after.rename image)

namespace Respells

variable {β : Type} {action other : Resolver α} {next onwards : α → Resolver β}

theorem bind (first : Respells image action other)
    (rest : ∀ value, Respells image (next value) (onwards value)) :
    Respells image (action >>= next) (other >>= onwards) := by
  intro state
  have here := first state
  simp only [Bind.bind, StateT.bind, Except.bind]
  cases ran : action state with
  | error error => simp [here, ran]
  | ok pair => simp [here, ran, rest pair.1 pair.2]

theorem pure (value : α) : Respells image (pure value) (pure value) := fun _ => rfl

theorem throw (error : ResolveError) :
    Respells image (throw error : Resolver α) (throw (error.rename image)) := fun _ => rfl

theorem lift {computed renamed : Except ResolveError α}
    (same : renamed = computed.mapError (·.rename image)) :
    Respells image (liftM computed : Resolver α) (liftM renamed) := by
  intro state
  subst same
  cases computed <;> rfl

theorem inTree {read renamed : ScopeTree → Except ResolveError α}
    (same : ∀ tree, renamed (tree.rename image) = (read tree).mapError (·.rename image)) :
    Respells image (inTree read) (inTree renamed) := by
  intro state
  have here : Resolve.inTree renamed (state.rename image) =
      (liftM (renamed (state.tree.rename image)) : Resolver α) (state.rename image) := rfl
  rw [here, lift (same state.tree)]
  rfl

/-- A check whose error names nothing, or a name that is replaced too. -/
theorem check {condition : Prop} [Decidable condition] {error renamed : ResolveError}
    {checked checkedToo : α → Resolver β} {rest onwards : Resolver β}
    (same : error.rename image = renamed) (passed : Respells image rest onwards) :
    Respells image (if condition then MonadExcept.throw error >>= checked else rest)
      (if condition then MonadExcept.throw renamed >>= checkedToo else onwards) := by
  subst same
  split
  · exact fun _ => rfl
  · exact passed

end Respells

theorem expectType_respells (found expected : ValueType) (position : Position) :
    Respells image (liftM (expectType found expected position))
      (liftM (expectType found expected position)) :=
  .lift (expectType_rename found expected position).symm

theorem newScope_respells (parent : ScopeId) :
    Respells image (newScope parent) (newScope parent) := fun _ => rfl

theorem declareVariable_respells (injective : Function.Injective image) (scope : ScopeId)
    (name : String) (type : ValueType) (position : Position) :
    Respells image (declareVariable scope name type position)
      (declareVariable scope (image name) type position) := by
  intro state
  have declared := @ScopeTree.declareVariable_rename image state.tree injective scope name type
  simp only [declareVariable, bind, StateT.bind, get, getThe, MonadStateOf.get, StateT.get, pure,
    Except.pure, Except.bind, State.rename, declared]
  cases state.tree.declareVariable scope name type with
  | mk after answer => cases answer <;> rfl

theorem declareFunction_respells (injective : Function.Injective image) (scope : ScopeId)
    (name : String) (parameters : List Parameter) (result : ValueType) (position : Position) :
    Respells image (declareFunction scope name parameters result position)
      (declareFunction scope (image name) (parameters.map (·.rename image)) result position) := by
  have types : (parameters.map (·.rename image)).map (·.type) = parameters.map (·.type) := by
    simp [Parameter.rename]
  refine .check rfl fun state => ?_
  have declared := @ScopeTree.declareFunction_rename image state.tree injective scope name
    (parameters.map (·.type)) result
  simp only [bind, StateT.bind, get, getThe, MonadStateOf.get, StateT.get, pure,
    Except.pure, Except.bind, State.rename, types, declared]
  cases state.tree.declareFunction scope name (parameters.map (·.type)) result with
  | mk after answer => cases answer <;> rfl

theorem declareFunctions_respells (injective : Function.Injective image) (scope : ScopeId)
    (statements : List Statement) :
    Respells image (declareFunctions scope statements)
      (declareFunctions scope (Statement.renameAll image statements)) := by
  induction statements with
  | nil => exact .pure []
  | cons first rest ih =>
    cases first with
    | function name parameters result body position =>
      exact (declareFunction_respells injective scope name parameters result position).bind
        fun function => ih.bind fun functions => .pure _
    | _ => exact ih

theorem declareParameters_respells (injective : Function.Injective image) (frame : ScopeId)
    (parameters : List Parameter) :
    Respells image (declareParameters frame parameters)
      (declareParameters frame (parameters.map (·.rename image))) := by
  induction parameters with
  | nil => exact .pure []
  | cons parameter rest ih =>
    exact .check rfl ((declareVariable_respells injective frame parameter.name parameter.type
      parameter.position).bind fun id => ih.bind fun ids => .pure _)

theorem expression_respells (renames : Renaming image) (place : Place) (value : Expression) :
    Respells image (inTree fun tree => expression tree place.scope value)
      (inTree fun tree => expression tree place.scope (value.rename image)) :=
  .inTree fun _ => expression_rename renames value

theorem condition_respells (renames : Renaming image) (place : Place) (test : Expression) :
    Respells image (inTree fun tree => condition tree place.scope test)
      (inTree fun tree => condition tree place.scope (test.rename image)) :=
  .inTree fun _ => condition_rename renames test

theorem result_respells (renames : Renaming image) (place : Place) (value : Option Expression)
    (position : Position) :
    Respells image (result place value position)
      (result place (value.map (·.rename image)) position) := by
  unfold result
  cases place.result with
  | none => exact .throw _
  | some type =>
    cases value with
    | none => cases type <;> first | exact .pure _ | exact .throw _
    | some value =>
      have returned (type : ValueType) := (expression_respells renames place value).bind
        fun typed => (expectType_respells typed.type type value.position).bind fun _ =>
          .pure (TypedStatement.result (some typed))
      cases type <;> simp only [Option.map_some, position_rename] <;>
        first | exact .throw _ | exact returned _

/-- The body of a function in its frame, and the function among those that are completed. -/
theorem body_respells (injective : Function.Injective image) (place : Place)
    (parameters : List Parameter) (type : ValueType) {body renamed : Place → Resolver TypedStatement}
    (inside : ∀ place, Respells image (body place) (renamed place)) (id : FunctionId)
    {next onwards : Resolver α} (rest : Respells image next onwards) :
    Respells image
      (do
        let frame ← newScope place.scope
        let parameterIds ← declareParameters frame parameters
        let body ← body ⟨frame, some type⟩
        modify fun state =>
          { state with functions := state.functions ++ [⟨id, parameterIds, type, body⟩] }
        next)
      (do
        let frame ← newScope place.scope
        let parameterIds ← declareParameters frame (parameters.map (·.rename image))
        let body ← renamed ⟨frame, some type⟩
        modify fun state =>
          { state with functions := state.functions ++ [⟨id, parameterIds, type, body⟩] }
        onwards) :=
  (newScope_respells place.scope).bind fun frame =>
    (declareParameters_respells injective frame parameters).bind fun _ =>
      (inside ⟨frame, some type⟩).bind fun _ => .bind (fun _ => rfl) fun _ => rest

mutual

theorem statement_respells (renames : Renaming image) (place : Place) : ∀ source : Statement,
    Respells image (statement place source) (statement place (source.rename image))
  | .block statements => by
    simp only [Statement.rename, statement]
    exact (newScope_respells place.scope).bind fun inner =>
      (declareFunctions_respells renames.injective inner statements).bind fun declared =>
        (blockStatements_respells renames ⟨inner, place.result⟩ declared statements).bind
          fun typed => .pure _
  | .declare name value position => by
    simp only [Statement.rename, statement]
    exact (expression_respells renames place value).bind fun typed =>
      (expectType_respells typed.type .int position).bind fun _ =>
        (declareVariable_respells renames.injective place.scope name typed.type position).bind
          fun id => .pure _
  | .evaluate value => by
    simp only [Statement.rename, statement]
    exact (expression_respells renames place value).bind fun _ => .pure _
  | .ifThen test consequence => by
    simp only [Statement.rename, statement]
    exact (condition_respells renames place test).bind fun typed =>
      (statement_respells renames place consequence).bind fun _ => .pure _
  | .ifThenElse test consequence alternative => by
    simp only [Statement.rename, statement]
    exact (condition_respells renames place test).bind fun typed =>
      (statement_respells renames place consequence).bind fun _ =>
        (statement_respells renames place alternative).bind fun _ => .pure _
  | .whileDo test body => by
    simp only [Statement.rename, statement]
    exact (condition_respells renames place test).bind fun typed =>
      (statement_respells renames place body).bind fun _ => .pure _
  | .doWhile body test => by
    simp only [Statement.rename, statement]
    exact (statement_respells renames place body).bind fun _ =>
      (condition_respells renames place test).bind fun typed => .pure _
  | .result value position => by
    simp only [Statement.rename, statement]
    exact result_respells renames place value position
  | .function name parameters type body position => by
    simp only [Statement.rename, statement]
    exact (declareFunction_respells renames.injective place.scope name parameters type
      position).bind fun id => body_respells renames.injective place parameters type
        (fun place => statement_respells renames place body) id (.pure _)

theorem blockStatements_respells (renames : Renaming image) (place : Place)
    (declared : List FunctionId) : ∀ sources : List Statement,
      Respells image (blockStatements place declared sources)
        (blockStatements place declared (Statement.renameAll image sources))
  | [] => .pure []
  | first :: rest => by
    -- A function takes the next of the identifiers declared ahead, other statements leave them.
    have onwards (declared : List FunctionId) :=
      blockStatements_respells renames place declared rest
    have ordinary := (statement_respells renames place first).bind fun typed =>
      (onwards declared).bind fun others => .pure (typed :: others)
    cases first with
    | function name parameters type body position =>
      simp only [Statement.renameAll, Statement.rename, blockStatements]
      exact body_respells renames.injective place parameters type
        (fun place => statement_respells renames place body) (declared.headD 0)
        (onwards declared.tail)
    | _ => exact ordinary

end

end Resolve

/-- Names do not matter to resolution: the program resolved from other names is the same, and the scope
tree and the error have the other names. -/
theorem resolve_renameAll (renames : Renaming image) (program : List Statement) :
    resolve (Statement.renameAll image program) =
      ((resolve program).map fun made => (made.1, made.2.rename image)).mapError
        (·.rename image) := by
  let start : Resolve.State := ⟨(ScopeTree.initial.newScope ScopeTree.root).1, []⟩
  let place : Resolve.Place := ⟨(ScopeTree.initial.newScope ScopeTree.root).2, none⟩
  let action (program : List Statement) : Resolve.Resolver (List TypedStatement) := do
    Resolve.blockStatements place (← Resolve.declareFunctions place.scope program) program
  have resolved (program : List Statement) : resolve program =
      action program start >>= fun made => .ok (⟨made.1, made.2.functions⟩, made.2.tree) := rfl
  have begins : start.rename image = start := by
    have opened : start.rename image =
        ⟨((ScopeTree.initial.rename image).newScope ScopeTree.root).1, []⟩ := rfl
    rw [opened, ScopeTree.initial_rename renames]
  have respells : Resolve.Respells image (action program)
      (action (Statement.renameAll image program)) :=
    (Resolve.declareFunctions_respells renames.injective place.scope program).bind fun declared =>
      Resolve.blockStatements_respells renames place declared program
  have whole := respells start
  rw [begins] at whole
  rw [resolved, resolved, whole]
  cases action program start <;> rfl

end TapeCode

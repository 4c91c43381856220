import TapeCode.Proofs.Resolution.Resolved

/-!
# What resolved programs mean

A judgement on statements and what they are resolved to, in terms of scopes and types alone. Each rule
says what a statement may name at its place: a variable that stands in the tree already, in the scope of
the statement or around it, and a function that takes the arguments. The tree is handed on from rule to
rule, so that what it holds at a rule is what has been declared before. At every statement the visible
variables have different names.
-/
namespace TapeCode

/-- How a function is called, and what it returns. -/
structure Signature where
  name : String
  parameters : List ValueType
  result : ValueType
  deriving DecidableEq, Repr

def Statement.signature? : Statement → Option Signature
  | .function name parameters type _ _ => some ⟨name, parameters.map (·.type), type⟩
  | _ => none

namespace ScopeTree

variable (tree : ScopeTree) (scope : ScopeId)

/-- The variables visible from the scope have different names. -/
def SeesDistinct : Prop := ((tree.visibleVariables scope).map tree.variableName?).Nodup

/-- The variable has been declared under this name, in the scope or around it. -/
def Sees (name : String) (id : VariableId) (type : ValueType) : Prop :=
  ∃ declared, tree.declaredVariables[id]? = some declared ∧ declared.name = name ∧
    declared.type = type ∧ declared.scope ∈ tree.path scope

/-- The function has this name, is declared in the scope or around it, and takes these arguments. -/
def Offers (name : String) (arguments : List ValueType) (id : FunctionId) (result : ValueType) :
    Prop :=
  ∃ called, tree.functions[id]? = some called ∧ called.name = name ∧
    called.accepts arguments = true ∧ called.result = result ∧ called.scope ∈ tree.path scope

/-- The function of the program is declared in the scope; it returns nothing or a number. -/
structure Declares (id : FunctionId) (signature : Signature) : Prop where
  found : ∃ label, tree.functions[id]? =
    some ⟨signature.name, signature.parameters, signature.result, scope, .labelled label⟩
  supported : signature.result = .void ∨ signature.result = .int

def addVariables (named : List (String × ValueType)) : ScopeTree :=
  { tree with
    declaredVariables := tree.declaredVariables ++ named.map fun one => ⟨one.1, one.2, scope⟩ }

def addFunction (signature : Signature) : ScopeTree :=
  { tree with
    functions := tree.functions ++
      [tree.declaration scope signature.name signature.parameters signature.result]
    nextLabel := tree.nextLabel + 1 }

def addFunctions (signatures : List Signature) : ScopeTree :=
  signatures.foldl (fun tree signature => tree.addFunction scope signature) tree

end ScopeTree

namespace Resolve

section

variable (tree : ScopeTree) (scope : ScopeId)

mutual

/-- What an expression of the scope means while the tree is the one given. -/
inductive Denotes : Expression → TypedExpression → Prop
  | number {value : UInt8} {position : Position} :
    Denotes (.number value position) (.number value .int)
  | «variable» {name : String} {position : Position} {id : VariableId} {type : ValueType}
    (seen : tree.Sees scope name id type) : Denotes (.variable name position) (.variable id type)
  | call {name : String} {sources : List Expression} {position : Position}
    {arguments : List TypedExpression} {id : FunctionId} {result : ValueType}
    (denote : DenoteAll sources arguments)
    (offered : tree.Offers scope name (arguments.map (·.type)) id result) :
    Denotes (.call name sources position) (.call id arguments result)
  | operation {operator : BinaryOperator} {left right : Expression} {position : Position}
    {first second : TypedExpression} {id : FunctionId} {result : ValueType}
    (other : operator ≠ .assign) (denotesLeft : Denotes left first)
    (denotesRight : Denotes right second)
    (offered : tree.Offers scope operator.symbol [first.type, second.type] id result) :
    Denotes (.binary operator left right position) (.call id [first, second] result)
  | assignment {name : String} {place position : Position} {source : Expression}
    {target : VariableId} {type : ValueType} {value : TypedExpression} {id : FunctionId}
    {result : ValueType} (seen : tree.Sees scope name target type)
    (denotes : Denotes source value)
    (offered : tree.Offers scope BinaryOperator.assign.symbol [type, value.type] id result) :
    Denotes (.binary .assign (.variable name place) source position) (.assign target value result)

inductive DenoteAll : List Expression → List TypedExpression → Prop
  | nil : DenoteAll [] []
  | cons {first : Expression} {rest : List Expression} {one : TypedExpression}
    {others : List TypedExpression} (denotes : Denotes first one) (denote : DenoteAll rest others) :
    DenoteAll (first :: rest) (one :: others)

end

/-- A condition may be of any type that counts as true or false. -/
def IsCondition (source : Expression) (condition : TypedExpression) : Prop :=
  Denotes tree scope source condition ∧ condition.type.acceptsAs .laxBool = true

end

mutual

/-- The statement at this place is resolved to the typed one. The states before and after hold the tree
and the functions completed so far. -/
inductive Elaborates : Place → State → Statement → TypedStatement → State → Prop
  | intro {place : Place} {before after : State} {source : Statement} {typed : TypedStatement}
    (distinct : before.tree.SeesDistinct place.scope) (rule : Rule place before source typed after)
    (stillDistinct : after.tree.SeesDistinct place.scope) :
    Elaborates place before source typed after

/-- One rule for each kind of statement. -/
inductive Rule : Place → State → Statement → TypedStatement → State → Prop
  | block {place : Place} {before after : State} {sources : List Statement}
    {typed : List TypedStatement}
    (statements :
      ElaborateAll ⟨before.tree.paths.length, place.result⟩
        { before with
          tree := (before.tree.newScope place.scope).1.addFunctions before.tree.paths.length
            (sources.filterMap Statement.signature?) }
        (List.range' before.tree.functions.length
          (sources.filterMap Statement.signature?).length)
        sources typed after) :
    Rule place before (.block sources) (.block typed) after
  | declare {place : Place} {state : State} {name : String} {source : Expression}
    {position : Position} {value : TypedExpression}
    (denotes : Denotes state.tree place.scope source value) (number : value.type = .int) :
    Rule place state (.declare name source position)
      (.declare state.tree.declaredVariables.length value)
      { state with tree := state.tree.addVariables place.scope [(name, .int)] }
  | evaluate {place : Place} {state : State} {source : Expression} {value : TypedExpression}
    (denotes : Denotes state.tree place.scope source value) :
    Rule place state (.evaluate source) (.evaluate value) state
  | ifThen {place : Place} {before after : State} {source : Expression} {test : TypedExpression}
    {consequence : Statement} {typed : TypedStatement}
    (condition : IsCondition before.tree place.scope source test)
    (elaborates : Elaborates place before consequence typed after) :
    Rule place before (.ifThen source consequence) (.ifThen test typed) after
  | ifThenElse {place : Place} {before middle after : State} {source : Expression}
    {test : TypedExpression} {consequence alternative : Statement} {first second : TypedStatement}
    (condition : IsCondition before.tree place.scope source test)
    (elaborates : Elaborates place before consequence first middle)
    (otherwise : Elaborates place middle alternative second after) :
    Rule place before (.ifThenElse source consequence alternative) (.ifThenElse test first second)
      after
  | whileDo {place : Place} {before after : State} {source : Expression} {test : TypedExpression}
    {body : Statement} {typed : TypedStatement}
    (condition : IsCondition before.tree place.scope source test)
    (elaborates : Elaborates place before body typed after) :
    Rule place before (.whileDo source body) (.whileDo test typed) after
  | doWhile {place : Place} {before after : State} {source : Expression} {test : TypedExpression}
    {body : Statement} {typed : TypedStatement}
    (elaborates : Elaborates place before body typed after)
    (condition : IsCondition after.tree place.scope source test) :
    Rule place before (.doWhile body source) (.doWhile typed test) after
  | nothing {place : Place} {state : State} {position : Position}
    (returns : place.result = some .void) :
    Rule place state (.result none position) (.result none) state
  | result {place : Place} {state : State} {source : Expression} {position : Position}
    {value : TypedExpression} (returns : place.result = some .int)
    (denotes : Denotes state.tree place.scope source value) (number : value.type = .int) :
    Rule place state (.result (some source) position) (.result (some value)) state
  | function {place : Place} {before after : State} {name : String} {parameters : List Parameter}
    {type : ValueType} {body : Statement} {position : Position}
    (completes :
      ElaboratesFunction place.scope
        { before with
          tree := before.tree.addFunction place.scope ⟨name, parameters.map (·.type), type⟩ }
        before.tree.functions.length name parameters type body after) :
    Rule place before (.function name parameters type body position) (.block []) after

/-- The body of a function is resolved in a frame below the scope of the function. The frame holds the
parameters, in order, and the function is then complete. -/
inductive ElaboratesFunction : ScopeId → State → FunctionId → String → List Parameter → ValueType →
    Statement → State → Prop
  | intro {scope : ScopeId} {before after : State} {id : FunctionId} {name : String}
    {parameters : List Parameter} {type : ValueType} {body : Statement} {typed : TypedStatement}
    (distinct : before.tree.SeesDistinct scope)
    (declared : before.tree.Declares scope id ⟨name, parameters.map (·.type), type⟩)
    (numbers : ∀ parameter ∈ parameters, parameter.type = .int)
    (elaborates :
      Elaborates ⟨before.tree.paths.length, some type⟩
        { before with
          tree := (before.tree.newScope scope).1.addVariables before.tree.paths.length
            (parameters.map fun parameter => (parameter.name, parameter.type)) }
        body typed after) :
    ElaboratesFunction scope before id name parameters type body
      { after with
        functions := after.functions ++
          [⟨id, List.range' before.tree.declaredVariables.length parameters.length, type, typed⟩] }

/-- The statements of a block, whose functions have been declared, in order, as the ones given. -/
inductive ElaborateAll : Place → State → List FunctionId → List Statement → List TypedStatement →
    State → Prop
  | nil {place : Place} {state : State} (distinct : state.tree.SeesDistinct place.scope) :
    ElaborateAll place state [] [] [] state
  | function {place : Place} {before middle after : State} {id : FunctionId}
    {declared : List FunctionId} {name : String} {parameters : List Parameter} {type : ValueType}
    {body : Statement} {position : Position} {rest : List Statement} {typed : List TypedStatement}
    (completes : ElaboratesFunction place.scope before id name parameters type body middle)
    (elaborate : ElaborateAll place middle declared rest typed after) :
    ElaborateAll place before (id :: declared)
      (.function name parameters type body position :: rest) typed after
  | statement {place : Place} {before middle after : State} {declared : List FunctionId}
    {first : Statement} {one : TypedStatement} {rest : List Statement}
    {others : List TypedStatement} (other : first.signature? = none)
    (elaborates : Elaborates place before first one middle)
    (elaborate : ElaborateAll place middle declared rest others after) :
    ElaborateAll place before declared (first :: rest) (one :: others) after

end

end Resolve

/-- A complete function is as it was declared: it has the same result, and its parameters are the first
variables of a frame below the scope of the function, in order and with their types. -/
def TypedFunction.Corresponds (tree : ScopeTree) (function : TypedFunction) : Prop :=
  ∃ called frame around, tree.functions[function.function]? = some called ∧
    called.result = function.result ∧ tree.paths[called.scope]? = some around ∧
    tree.paths[frame]? = some (frame :: around) ∧
    function.parameters <+: tree.variablesIn frame ∧
    List.Forall₂ (fun id type => ∃ declared, tree.declaredVariables[id]? = some declared ∧
      declared.type = type) function.parameters called.parameters

/-- What is promised of a program and its tree. The program is elaborated as a block in the root, and the
functions declared beyond the built-in ones are those of the program, each of them once. -/
structure TypedProgram.IsElaborated (source : List Statement) (program : TypedProgram)
    (tree : ScopeTree) : Prop where
  main : Resolve.Elaborates ⟨ScopeTree.root, none⟩ ⟨ScopeTree.initial, []⟩ (.block source)
    (.block program.main) ⟨tree, program.functions⟩
  builtins : Function.builtins <+: tree.functions
  complete : (program.functions.map (·.function)).Perm
    (List.range' Function.builtins.length (tree.functions.length - Function.builtins.length))
  functions : ∀ function ∈ program.functions, function.Corresponds tree

end TapeCode

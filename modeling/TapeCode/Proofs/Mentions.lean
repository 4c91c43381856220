import Mathlib.Logic.Relation
import TapeCode.Typed.Basic

/-!
# What code mentions

The variables and functions that a part of a resolved program mentions, and how. A call of a function
also does what the functions do that it calls, directly or through others.
-/
namespace TapeCode

inductive Mention
  | declares (id : VariableId)
  | assigns (id : VariableId)
  | reads (id : VariableId)
  | calls (id : FunctionId)
  deriving DecidableEq, Repr

/-- The variable that is mentioned. -/
def Mention.variable? : Mention → Option VariableId
  | .declares id | .assigns id | .reads id => some id
  | .calls _ => none

/-- The function that is mentioned. -/
def Mention.callee? : Mention → Option FunctionId
  | .calls id => some id
  | .declares _ | .assigns _ | .reads _ => none

mutual

def TypedExpression.mentions : TypedExpression → List Mention
  | .number _ _ => []
  | .variable id _ => [.reads id]
  | .assign id value _ => value.mentions ++ [.assigns id]
  | .call function arguments _ => TypedExpression.allMentions arguments ++ [.calls function]

def TypedExpression.allMentions : List TypedExpression → List Mention
  | [] => []
  | first :: rest => first.mentions ++ TypedExpression.allMentions rest

end

mutual

def TypedStatement.mentions : TypedStatement → List Mention
  | .block statements => TypedStatement.allMentions statements
  | .declare id value => value.mentions ++ [.declares id]
  | .evaluate value => value.mentions
  | .ifThen condition consequence => condition.mentions ++ consequence.mentions
  | .ifThenElse condition consequence alternative =>
    condition.mentions ++ consequence.mentions ++ alternative.mentions
  | .whileDo condition body => condition.mentions ++ body.mentions
  | .doWhile body condition => body.mentions ++ condition.mentions
  | .result none => []
  | .result (some value) => value.mentions

def TypedStatement.allMentions : List TypedStatement → List Mention
  | [] => []
  | first :: rest => first.mentions ++ TypedStatement.allMentions rest

end

/-- A function declares its parameters, too. -/
def TypedFunction.mentions (source : TypedFunction) : List Mention :=
  source.parameters.map .declares ++ source.body.mentions

def TypedFunction.variables (source : TypedFunction) : List VariableId :=
  source.mentions.filterMap Mention.variable?

def TypedFunction.callees (source : TypedFunction) : List FunctionId :=
  source.mentions.filterMap Mention.callee?

theorem TypedFunction.mem_variables {source : TypedFunction} {mention : Mention} {id : VariableId}
    (mentions : mention ∈ source.mentions) (named : mention.variable? = some id) :
    id ∈ source.variables :=
  List.mem_filterMap.mpr ⟨mention, mentions, named⟩

theorem TypedFunction.mem_callees {source : TypedFunction} {callee : FunctionId}
    (mentions : .calls callee ∈ source.mentions) : callee ∈ source.callees :=
  List.mem_filterMap.mpr ⟨.calls callee, mentions, rfl⟩

namespace TypedProgram

variable {program : TypedProgram} {caller callee : FunctionId}

def Calls (program : TypedProgram) (caller callee : FunctionId) : Prop :=
  ∃ source ∈ program.functions, source.function = caller ∧ .calls callee ∈ source.mentions

/-- A call of the first function can lead to a call of the second one, or they are the same. -/
abbrev Reaches (program : TypedProgram) : FunctionId → FunctionId → Prop :=
  Relation.ReflTransGen program.Calls

/-- What a function mentions, or one that a call of it can lead to. -/
def Mentions (program : TypedProgram) (id : FunctionId) (mention : Mention) : Prop :=
  ∃ source ∈ program.functions, program.Reaches id source.function ∧ mention ∈ source.mentions

/-- A call leads to every function that is mentioned as called. -/
theorem Mentions.reaches (mentions : program.Mentions caller (.calls callee)) :
    program.Reaches caller callee := by
  obtain ⟨source, member, reaches, among⟩ := mentions
  exact reaches.tail ⟨source, member, rfl, among⟩

end TypedProgram

end TapeCode

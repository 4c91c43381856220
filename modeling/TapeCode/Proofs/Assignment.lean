import Mathlib.Data.Set.Insert
import TapeCode.Proofs.Mentions
import TapeCode.Proofs.Monads

/-!
# Assigned before read

Which variables have been assigned when the evaluation of a part of a program ends, and whether it reads
only such variables, whichever way is taken through it.
-/
namespace TapeCode

mutual

/-- What has been assigned behind an expression, if the variables `known` have been before it. -/
def TypedExpression.assigned (known : Set VariableId) : TypedExpression → Set VariableId
  | .number _ _ | .variable _ _ => known
  | .assign id value _ => insert id (value.assigned known)
  | .call _ arguments _ => TypedExpression.allAssigned known arguments

def TypedExpression.allAssigned (known : Set VariableId) : List TypedExpression → Set VariableId
  | [] => known
  | first :: rest => TypedExpression.allAssigned (first.assigned known) rest

end

mutual

/-- An expression reads only what has been assigned before. -/
def TypedExpression.ReadsAssigned (known : Set VariableId) : TypedExpression → Prop
  | .number _ _ => True
  | .variable id _ => id ∈ known
  | .assign _ value _ => value.ReadsAssigned known
  | .call _ arguments _ => TypedExpression.AllReadAssigned known arguments

def TypedExpression.AllReadAssigned (known : Set VariableId) : List TypedExpression → Prop
  | [] => True
  | first :: rest =>
    first.ReadsAssigned known ∧ TypedExpression.AllReadAssigned (first.assigned known) rest

end

mutual

/-- What has been assigned behind a statement on every way that leads there. Behind a `return` this is
everything, for no way leads there. -/
def TypedStatement.assigned (known : Set VariableId) : TypedStatement → Set VariableId
  | .block statements => TypedStatement.allAssigned known statements
  | .declare id value => insert id (value.assigned known)
  | .evaluate value => value.assigned known
  | .ifThen condition _ | .whileDo condition _ => condition.assigned known
  | .ifThenElse condition consequence alternative =>
    consequence.assigned (condition.assigned known) ∩
      alternative.assigned (condition.assigned known)
  | .doWhile body condition => condition.assigned (body.assigned known)
  | .result _ => Set.univ

def TypedStatement.allAssigned (known : Set VariableId) : List TypedStatement → Set VariableId
  | [] => known
  | first :: rest => TypedStatement.allAssigned (first.assigned known) rest

end

mutual

/-- A statement reads only what has been assigned before, on every way that leads to where it is read. -/
def TypedStatement.ReadsAssigned (known : Set VariableId) : TypedStatement → Prop
  | .block statements => TypedStatement.AllReadAssigned known statements
  | .declare _ value | .evaluate value | .result (some value) => value.ReadsAssigned known
  | .ifThen condition body | .whileDo condition body =>
    condition.ReadsAssigned known ∧ body.ReadsAssigned (condition.assigned known)
  | .ifThenElse condition consequence alternative =>
    condition.ReadsAssigned known ∧ consequence.ReadsAssigned (condition.assigned known) ∧
      alternative.ReadsAssigned (condition.assigned known)
  | .doWhile body condition =>
    body.ReadsAssigned known ∧ condition.ReadsAssigned (body.assigned known)
  | .result none => True

def TypedStatement.AllReadAssigned (known : Set VariableId) : List TypedStatement → Prop
  | [] => True
  | first :: rest =>
    first.ReadsAssigned known ∧ TypedStatement.AllReadAssigned (first.assigned known) rest

end

/-! Both can be computed from variables of which it is decided whether they have been assigned. -/

mutual

instance TypedExpression.decidableAssigned (known : Set VariableId) [DecidablePred (· ∈ known)] :
    (source : TypedExpression) → DecidablePred (· ∈ source.assigned known)
  | .number _ _ | .variable _ _ => inferInstanceAs (DecidablePred (· ∈ known))
  | .assign id value _ => fun other =>
    have := TypedExpression.decidableAssigned known value
    inferInstanceAs (Decidable (other = id ∨ other ∈ value.assigned known))
  | .call _ arguments _ => TypedExpression.decidableAllAssigned known arguments

instance TypedExpression.decidableAllAssigned (known : Set VariableId) [DecidablePred (· ∈ known)] :
    (sources : List TypedExpression) → DecidablePred (· ∈ TypedExpression.allAssigned known sources)
  | [] => inferInstanceAs (DecidablePred (· ∈ known))
  | first :: rest =>
    have := TypedExpression.decidableAssigned known first
    TypedExpression.decidableAllAssigned (first.assigned known) rest

end

mutual

instance TypedExpression.decidableReadsAssigned (known : Set VariableId) [DecidablePred (· ∈ known)] :
    (source : TypedExpression) → Decidable (source.ReadsAssigned known)
  | .number _ _ => isTrue trivial
  | .variable id _ => inferInstanceAs (Decidable (id ∈ known))
  | .assign _ value _ => TypedExpression.decidableReadsAssigned known value
  | .call _ arguments _ => TypedExpression.decidableAllReadAssigned known arguments

instance TypedExpression.decidableAllReadAssigned (known : Set VariableId) [DecidablePred (· ∈ known)] :
    (sources : List TypedExpression) → Decidable (TypedExpression.AllReadAssigned known sources)
  | [] => isTrue trivial
  | first :: rest =>
    have := TypedExpression.decidableReadsAssigned known first
    have := TypedExpression.decidableAllReadAssigned (first.assigned known) rest
    inferInstanceAs (Decidable (_ ∧ _))

end

mutual

instance TypedStatement.decidableAssigned (known : Set VariableId) [DecidablePred (· ∈ known)] :
    (source : TypedStatement) → DecidablePred (· ∈ source.assigned known)
  | .block statements => TypedStatement.decidableAllAssigned known statements
  | .declare id value => fun other =>
    inferInstanceAs (Decidable (other = id ∨ other ∈ value.assigned known))
  | .evaluate value => inferInstanceAs (DecidablePred (· ∈ value.assigned known))
  | .ifThen condition _ | .whileDo condition _ =>
    inferInstanceAs (DecidablePred (· ∈ condition.assigned known))
  | .ifThenElse condition consequence alternative => fun other =>
    have := TypedStatement.decidableAssigned (condition.assigned known) consequence
    have := TypedStatement.decidableAssigned (condition.assigned known) alternative
    inferInstanceAs (Decidable (other ∈ consequence.assigned (condition.assigned known) ∧
      other ∈ alternative.assigned (condition.assigned known)))
  | .doWhile body condition =>
    have := TypedStatement.decidableAssigned known body
    inferInstanceAs (DecidablePred (· ∈ condition.assigned (body.assigned known)))
  | .result _ => fun _ => isTrue trivial

instance TypedStatement.decidableAllAssigned (known : Set VariableId) [DecidablePred (· ∈ known)] :
    (sources : List TypedStatement) → DecidablePred (· ∈ TypedStatement.allAssigned known sources)
  | [] => inferInstanceAs (DecidablePred (· ∈ known))
  | first :: rest =>
    have := TypedStatement.decidableAssigned known first
    TypedStatement.decidableAllAssigned (first.assigned known) rest

end

mutual

instance TypedStatement.decidableReadsAssigned (known : Set VariableId) [DecidablePred (· ∈ known)] :
    (source : TypedStatement) → Decidable (source.ReadsAssigned known)
  | .block statements => TypedStatement.decidableAllReadAssigned known statements
  | .declare _ value | .evaluate value | .result (some value) =>
    inferInstanceAs (Decidable (value.ReadsAssigned known))
  | .ifThen condition body | .whileDo condition body =>
    have := TypedStatement.decidableReadsAssigned (condition.assigned known) body
    inferInstanceAs (Decidable (condition.ReadsAssigned known ∧ _))
  | .ifThenElse condition consequence alternative =>
    have := TypedStatement.decidableReadsAssigned (condition.assigned known) consequence
    have := TypedStatement.decidableReadsAssigned (condition.assigned known) alternative
    inferInstanceAs (Decidable (condition.ReadsAssigned known ∧ _ ∧ _))
  | .doWhile body condition =>
    have := TypedStatement.decidableReadsAssigned known body
    inferInstanceAs (Decidable (_ ∧ condition.ReadsAssigned (body.assigned known)))
  | .result none => isTrue trivial

instance TypedStatement.decidableAllReadAssigned (known : Set VariableId) [DecidablePred (· ∈ known)] :
    (sources : List TypedStatement) → Decidable (TypedStatement.AllReadAssigned known sources)
  | [] => isTrue trivial
  | first :: rest =>
    have := TypedStatement.decidableReadsAssigned known first
    have := TypedStatement.decidableAllReadAssigned (first.assigned known) rest
    inferInstanceAs (Decidable (_ ∧ _))

end

/-- One of the built-in functions that read input. -/
def ScopeTree.ReadsInput (tree : ScopeTree) (id : FunctionId) : Prop :=
  ∃ called, tree.functions[id]? = some called ∧ called.label? = none ∧
    (called.name = "read" ∨ called.name = "readDigit")

instance (tree : ScopeTree) (id : FunctionId) : Decidable (tree.ReadsInput id) :=
  inferInstanceAs (Decidable (∃ called, tree.functions[id]? = some called ∧ called.label? = none ∧
    (called.name = "read" ∨ called.name = "readDigit")))

/-- In the function, and in all functions that a call of it can lead to, every variable is assigned
before it is read, the parameters being assigned by the call, and none of them reads input. -/
structure TypedProgram.IsIndependent (whole : TypedProgram) (tree : ScopeTree) (id : FunctionId) :
    Prop where
  assigned : ∀ source ∈ whole.functions, whole.Reaches id source.function →
    source.body.ReadsAssigned {parameter | parameter ∈ source.parameters}
  inputless : ∀ callee, whole.Reaches id callee → ¬tree.ReadsInput callee

/-- It is enough that all functions of the program are of this kind. -/
theorem TypedProgram.IsIndependent.of_forall {whole : TypedProgram} {tree : ScopeTree} {id : FunctionId}
    (assigned : ∀ source ∈ whole.functions,
      source.body.ReadsAssigned {parameter | parameter ∈ source.parameters})
    (starts : ¬tree.ReadsInput id)
    (inputless : ∀ source ∈ whole.functions, ∀ callee ∈ source.callees, ¬tree.ReadsInput callee) :
    whole.IsIndependent tree id where
  assigned source member _ := assigned source member
  inputless callee reached := by
    cases reached with
    | refl => exact starts
    | tail _ calls =>
      obtain ⟨source, member, -, among⟩ := calls
      exact inputless source member callee (TypedFunction.mem_callees among)

end TapeCode

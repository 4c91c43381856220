import TapeCode.Scope.Basic

/-!
# Resolved trees

Programs in which every name is replaced by what it denotes and every expression has a type.
Functions are listed apart from the statements around them.
-/
namespace TapeCode

inductive TypedExpression
  | number (value : UInt8) (type : ValueType)
  | variable (id : VariableId) (type : ValueType)
  | assign (id : VariableId) (value : TypedExpression) (type : ValueType)
  | call (function : FunctionId) (arguments : List TypedExpression) (type : ValueType)
  deriving Repr, Inhabited

def TypedExpression.type : TypedExpression → ValueType
  | .number _ type | .variable _ type | .assign _ _ type | .call _ _ type => type

inductive TypedStatement
  | block (statements : List TypedStatement)
  | declare (id : VariableId) (value : TypedExpression)
  | evaluate (expression : TypedExpression)
  | ifThen (condition : TypedExpression) (consequence : TypedStatement)
  | ifThenElse (condition : TypedExpression) (consequence alternative : TypedStatement)
  | whileDo (condition : TypedExpression) (body : TypedStatement)
  | doWhile (body : TypedStatement) (condition : TypedExpression)
  | result (value : Option TypedExpression)
  deriving Repr, Inhabited

structure TypedFunction where
  function : FunctionId
  parameters : List VariableId
  result : ValueType
  body : TypedStatement
  deriving Repr

structure TypedProgram where
  main : List TypedStatement
  functions : List TypedFunction
  deriving Repr

end TapeCode

import TapeCode.Tree.Basic

/-!
# Renaming

Programs with other names for their variables, parameters and functions. Operators are no names and
stay as they are.
-/
namespace TapeCode

namespace Expression

mutual

/-- The expression with every name replaced by its image. -/
def rename (image : String → String) : Expression → Expression
  | .number value position => .number value position
  | .variable name position => .variable (image name) position
  | .call name arguments position => .call (image name) (renameAll image arguments) position
  | .binary operator left right position =>
    .binary operator (left.rename image) (right.rename image) position

def renameAll (image : String → String) : List Expression → List Expression
  | [] => []
  | first :: rest => first.rename image :: renameAll image rest

end

end Expression

def Parameter.rename (image : String → String) (parameter : Parameter) : Parameter :=
  { parameter with name := image parameter.name }

namespace Statement

mutual

/-- The statement with every name replaced by its image. -/
def rename (image : String → String) : Statement → Statement
  | .block statements => .block (renameAll image statements)
  | .declare name value position => .declare (image name) (value.rename image) position
  | .evaluate expression => .evaluate (expression.rename image)
  | .ifThen condition consequence =>
    .ifThen (condition.rename image) (consequence.rename image)
  | .ifThenElse condition consequence alternative =>
    .ifThenElse (condition.rename image) (consequence.rename image) (alternative.rename image)
  | .whileDo condition body => .whileDo (condition.rename image) (body.rename image)
  | .doWhile body condition => .doWhile (body.rename image) (condition.rename image)
  | .result value position => .result (value.map (·.rename image)) position
  | .function name parameters type body position =>
    .function (image name) (parameters.map (·.rename image)) type (body.rename image) position

def renameAll (image : String → String) : List Statement → List Statement
  | [] => []
  | first :: rest => first.rename image :: renameAll image rest

end

end Statement

end TapeCode

import TapeCode.Text.Outline
import TapeCode.Tree.Basic

/-!
# Outlines of trees

A syntax tree as users are shown it.
-/
namespace TapeCode

open Text (Outline)

def Position.outline (position : Position) : Outline :=
  .record "Span" [("line", .number position.line), ("col", .number position.column)]

def BinaryOperator.caseName : BinaryOperator → String
  | .assign => "Assign"
  | .equal => "Eq"
  | .greater => "Greater"
  | .add => "Add"
  | .subtract => "Sub"
  | .multiply => "Mul"
  | .divide => "Div"

def ValueType.caseName : ValueType → String
  | .void => "Void"
  | .int => "Int"
  | .laxBool => "LaxBool"
  | .bool => "Bool"
  | .fsm => "Fsm"
  | .string => "String"

namespace Expression

def placed (kind : Outline) (position : Position) : Outline :=
  .record "Expr" [("kind", kind), ("span", position.outline)]

mutual

def outline : Expression → Outline
  | .number value position => placed (.group "Number" [.number value.toNat]) position
  | .variable name position => placed (.group "Variable" [.quoted name]) position
  | .call name arguments position =>
    placed (.record "Call" [("name", .quoted name), ("args", .list (outlines arguments))]) position
  | .binary operator left right position =>
    placed (.record "Binary" [("op", .leaf operator.caseName), ("lhs", left.outline),
      ("rhs", right.outline)]) position

def outlines : List Expression → List Outline
  | [] => []
  | first :: rest => first.outline :: outlines rest

end

end Expression

def Parameter.outline (parameter : Parameter) : Outline :=
  .record "Param" [("name", .quoted parameter.name), ("ty", .leaf parameter.type.caseName),
    ("span", parameter.position.outline)]

namespace Statement

mutual

def outline : Statement → Outline
  | .block statements => .group "Block" [.list (outlines statements)]
  | .declare name value position =>
    .record "Var" [("name", .quoted name), ("value", value.outline), ("span", position.outline)]
  | .evaluate expression => .group "Expr" [expression.outline]
  | .ifThen condition consequence =>
    .record "If" [("cond", condition.outline), ("then_branch", consequence.outline),
      ("else_branch", .optional none)]
  | .ifThenElse condition consequence alternative =>
    .record "If" [("cond", condition.outline), ("then_branch", consequence.outline),
      ("else_branch", .optional (some alternative.outline))]
  | .whileDo condition body =>
    .record "While" [("cond", condition.outline), ("body", body.outline)]
  | .doWhile body condition =>
    .record "DoWhile" [("body", body.outline), ("cond", condition.outline)]
  | .result value position =>
    .record "Return" [("value", .optional (value.map (·.outline))), ("span", position.outline)]
  | .function name parameters type body position =>
    .group "Func" [.record "FuncDecl" [("name", .quoted name),
      ("params", .list (parameters.map (·.outline))), ("return_type", .leaf type.caseName),
      ("body", body.outline), ("span", position.outline)]]

def outlines : List Statement → List Outline
  | [] => []
  | first :: rest => first.outline :: outlines rest

end

/-- The outline of a whole program. -/
def programOutline (program : List Statement) : Outline :=
  .record "Program" [("statements", .list (outlines program))]

end Statement

end TapeCode

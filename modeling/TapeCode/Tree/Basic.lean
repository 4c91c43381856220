import TapeCode.Position
import TapeCode.ValueType

/-!
# Syntax trees

Programs as they are written. A block is a list of statements with a scope of its own, and the
whole program is the list of statements of the main block.
-/
namespace TapeCode

inductive BinaryOperator
  | assign
  | equal
  | greater
  | add
  | subtract
  | multiply
  | divide
  deriving DecidableEq, Repr

namespace BinaryOperator

def symbol : BinaryOperator → String
  | .assign => "="
  | .equal => "=="
  | .greater => ">"
  | .add => "+"
  | .subtract => "-"
  | .multiply => "*"
  | .divide => "/"

/-- An operator of a higher level binds its operands more tightly. -/
def level : BinaryOperator → Nat
  | .assign => 1
  | .equal => 3
  | .greater => 4
  | .add | .subtract => 5
  | .multiply | .divide => 6

end BinaryOperator

/-- Expressions with the place of their first token, or of their operator. Parentheses leave no
trace. -/
inductive Expression
  | number (value : UInt8) (position : Position)
  | variable (name : String) (position : Position)
  | call (name : String) (arguments : List Expression) (position : Position)
  | binary (operator : BinaryOperator) (left right : Expression) (position : Position)
  deriving Repr

def Expression.position : Expression → Position
  | .number _ position => position
  | .variable _ position => position
  | .call _ _ position => position
  | .binary _ _ _ position => position

structure Parameter where
  name : String
  type : ValueType
  position : Position
  deriving DecidableEq, Repr

inductive Statement
  | block (statements : List Statement)
  | declare (name : String) (value : Expression) (position : Position)
  | evaluate (expression : Expression)
  | ifThen (condition : Expression) (consequence : Statement)
  | ifThenElse (condition : Expression) (consequence alternative : Statement)
  | whileDo (condition : Expression) (body : Statement)
  | doWhile (body : Statement) (condition : Expression)
  | result (value : Option Expression) (position : Position)
  | function (name : String) (parameters : List Parameter) (type : ValueType) (body : Statement)
    (position : Position)
  deriving Repr

end TapeCode

import TapeCode.Tree.Grammar

/-!
# From trees to tokens

Programs written with as few parentheses as the grammar allows. Trees keep no trace of parentheses,
so this is the shortest way to write one. An `else` belongs to the nearest `if` before it that is
still open; where the grammar would then read another tree, `elseBindsRight` says so.
-/
namespace TapeCode

namespace Expression

mutual

/-- The tokens of an expression at a level; its own operator may call for parentheses. -/
def tokens (least : Nat) : Expression → List Token
  | .number value _ => [.number value]
  | .variable name _ => [.name name]
  | .call name arguments _ => .name name :: Grammar.parenthesised (argumentTokens arguments)
  | .binary operator left right _ =>
    let inner := left.tokens operator.level ++
      .mark operator.mark :: right.tokens (operator.level + 1)
    if operator.level < least then Grammar.parenthesised inner else inner

def argumentTokens : List Expression → List Token
  | [] => []
  | [only] => only.tokens 0
  | first :: rest => first.tokens 0 ++ .mark .comma :: argumentTokens rest

end

mutual

/-- The expression with all positions forgotten. -/
def unplaced : Expression → Expression
  | .number value _ => .number value .start
  | .variable name _ => .variable name .start
  | .call name arguments _ => .call name (unplacedAll arguments) .start
  | .binary operator left right _ => .binary operator left.unplaced right.unplaced .start

def unplacedAll : List Expression → List Expression
  | [] => []
  | first :: rest => first.unplaced :: unplacedAll rest

end

end Expression

namespace Statement

def resultTokens (type : ValueType) : List Token :=
  if type = .void then [] else [.mark .colon, .name type.name]

mutual

def tokens : Statement → List Token
  | .block statements => .mark .openBrace :: tokensOfAll statements ++ [.mark .closeBrace]
  | .declare name value _ =>
    .keyword .variable :: .name name :: .mark .assign :: value.tokens 0 ++ [.mark .semicolon]
  | .evaluate expression => expression.tokens 0 ++ [.mark .semicolon]
  | .ifThen condition consequence =>
    .keyword .condition :: Grammar.parenthesised (condition.tokens 0) ++ consequence.tokens
  | .ifThenElse condition consequence alternative =>
    .keyword .condition :: Grammar.parenthesised (condition.tokens 0) ++ consequence.tokens ++
      .keyword .otherwise :: alternative.tokens
  | .whileDo condition body =>
    .keyword .whileLoop :: Grammar.parenthesised (condition.tokens 0) ++ body.tokens
  | .doWhile body condition =>
    .keyword .doLoop :: body.tokens ++
      .keyword .whileLoop :: Grammar.parenthesised (condition.tokens 0) ++ [.mark .semicolon]
  | .result none _ => [.keyword .result, .mark .semicolon]
  | .result (some value) _ => .keyword .result :: value.tokens 0 ++ [.mark .semicolon]
  | .function name parameters type body _ =>
    .keyword .function :: .name name ::
      Grammar.parenthesised (Grammar.parametersTokens parameters) ++ resultTokens type ++
      body.tokens

def tokensOfAll : List Statement → List Token
  | [] => []
  | first :: rest => first.tokens ++ tokensOfAll rest

end

/-- Whether an `else` behind the statement would belong to it. -/
def isOpen : Statement → Bool
  | .ifThen _ _ => true
  | .ifThenElse _ _ alternative => alternative.isOpen
  | .whileDo _ body => body.isOpen
  | .function _ _ _ body _ => body.isOpen
  | _ => false

mutual

/-- Whether every `else` of the printed statement belongs to the `if` it was printed for. -/
def elseBindsRight : Statement → Bool
  | .block statements => allElseBindRight statements
  | .ifThen _ consequence => consequence.elseBindsRight
  | .ifThenElse _ consequence alternative =>
    !consequence.isOpen && consequence.elseBindsRight && alternative.elseBindsRight
  | .whileDo _ body | .doWhile body _ | .function _ _ _ body _ => body.elseBindsRight
  | .declare _ _ _ | .evaluate _ | .result _ _ => true

def allElseBindRight : List Statement → Bool
  | [] => true
  | first :: rest => first.elseBindsRight && allElseBindRight rest

end

mutual

/-- The statement with all positions forgotten. -/
def unplaced : Statement → Statement
  | .block statements => .block (unplacedAll statements)
  | .declare name value _ => .declare name value.unplaced .start
  | .evaluate expression => .evaluate expression.unplaced
  | .ifThen condition consequence => .ifThen condition.unplaced consequence.unplaced
  | .ifThenElse condition consequence alternative =>
    .ifThenElse condition.unplaced consequence.unplaced alternative.unplaced
  | .whileDo condition body => .whileDo condition.unplaced body.unplaced
  | .doWhile body condition => .doWhile body.unplaced condition.unplaced
  | .result value _ => .result (value.map (·.unplaced)) .start
  | .function name parameters type body _ =>
    .function name (parameters.map fun parameter => { parameter with position := .start }) type
      body.unplaced .start

def unplacedAll : List Statement → List Statement
  | [] => []
  | first :: rest => first.unplaced :: unplacedAll rest

end

end Statement

end TapeCode

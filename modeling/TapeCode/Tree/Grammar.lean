import TapeCode.Token.Basic
import TapeCode.Tree.Basic

/-!
# The grammar

Which tokens are a program, said by rules of derivation and without a parser. Positions are no part
of it. An expression is derived at a level: outside parentheses, all its operators are of that level
or above. The left operand of an operator may hold operators of the same level and the right one may
not, so all operators associate to the left.
-/
namespace TapeCode

def BinaryOperator.mark : BinaryOperator → Mark
  | .assign => .assign
  | .equal => .equal
  | .greater => .greater
  | .add => .plus
  | .subtract => .minus
  | .multiply => .star
  | .divide => .slash

namespace Grammar

/-- Tokens between parentheses. -/
def parenthesised (tokens : List Token) : List Token :=
  .mark .openParen :: tokens ++ [.mark .closeParen]

mutual

inductive Expressed : Nat → List Token → Expression → Prop
  | number {level : Nat} {value : UInt8} {position : Position} :
      Expressed level [.number value] (.number value position)
  | character {level : Nat} {value : UInt8} {position : Position} :
      Expressed level [.character value] (.number value position)
  | variable {level : Nat} {name : String} {position : Position} :
      Expressed level [.name name] (.variable name position)
  | call {level : Nat} {name : String} {tokens : List Token} {arguments : List Expression}
      {position : Position} :
      Listed tokens arguments →
      Expressed level (.name name :: parenthesised tokens) (.call name arguments position)
  | binary {level : Nat} {operator : BinaryOperator} {leftTokens rightTokens : List Token}
      {left right : Expression} {position : Position} :
      level ≤ operator.level →
      Expressed operator.level leftTokens left →
      Expressed (operator.level + 1) rightTokens right →
      Expressed level (leftTokens ++ .mark operator.mark :: rightTokens)
        (.binary operator left right position)
  | parenthesised {level : Nat} {tokens : List Token} {expression : Expression} :
      Expressed 0 tokens expression → Expressed level (parenthesised tokens) expression

/-- Expressions with commas between them. -/
inductive Listed : List Token → List Expression → Prop
  | none : Listed [] []
  | one {tokens : List Token} {expression : Expression} :
      Expressed 0 tokens expression → Listed tokens [expression]
  | more {tokens others : List Token} {first second : Expression} {rest : List Expression} :
      Expressed 0 tokens first → Listed others (second :: rest) →
      Listed (tokens ++ .mark .comma :: others) (first :: second :: rest)

end

def parameterTokens (parameter : Parameter) : List Token :=
  [.name parameter.name, .mark .colon, .name parameter.type.name]

def parametersTokens : List Parameter → List Token
  | [] => []
  | [only] => parameterTokens only
  | first :: rest => parameterTokens first ++ .mark .comma :: parametersTokens rest

/-- The result type of a function, which may be left out when there is no result. -/
inductive ResultNamed : List Token → ValueType → Prop
  | named {type : ValueType} : ResultNamed [.mark .colon, .name type.name] type
  | omitted : ResultNamed [] .void

mutual

inductive Stated : List Token → Statement → Prop
  | block {tokens : List Token} {statements : List Statement} :
      Sequenced tokens statements →
      Stated (.mark .openBrace :: tokens ++ [.mark .closeBrace]) (.block statements)
  | declare {name : String} {tokens : List Token} {value : Expression} {position : Position} :
      Expressed 0 tokens value →
      Stated (.keyword .variable :: .name name :: .mark .assign :: tokens ++ [.mark .semicolon])
        (.declare name value position)
  | evaluate {tokens : List Token} {expression : Expression} :
      Expressed 0 tokens expression →
      Stated (tokens ++ [.mark .semicolon]) (.evaluate expression)
  | ifThen {tokens inner : List Token} {condition : Expression} {consequence : Statement} :
      Expressed 0 tokens condition → Stated inner consequence →
      Stated (.keyword .condition :: parenthesised tokens ++ inner)
        (.ifThen condition consequence)
  | ifThenElse {tokens inner other : List Token} {condition : Expression}
      {consequence alternative : Statement} :
      Expressed 0 tokens condition → Stated inner consequence → Stated other alternative →
      Stated (.keyword .condition :: parenthesised tokens ++ inner ++ .keyword .otherwise :: other)
        (.ifThenElse condition consequence alternative)
  | whileDo {tokens inner : List Token} {condition : Expression} {body : Statement} :
      Expressed 0 tokens condition → Stated inner body →
      Stated (.keyword .whileLoop :: parenthesised tokens ++ inner) (.whileDo condition body)
  | doWhile {tokens inner : List Token} {condition : Expression} {body : Statement} :
      Stated inner body → Expressed 0 tokens condition →
      Stated (.keyword .doLoop :: inner ++ .keyword .whileLoop :: parenthesised tokens ++
        [.mark .semicolon]) (.doWhile body condition)
  | leave {position : Position} :
      Stated [.keyword .result, .mark .semicolon] (.result none position)
  | result {tokens : List Token} {value : Expression} {position : Position} :
      Expressed 0 tokens value →
      Stated (.keyword .result :: tokens ++ [.mark .semicolon]) (.result (some value) position)
  | function {name : String} {parameters : List Parameter} {type : ValueType}
      {result inner : List Token} {body : Statement} {position : Position} :
      ResultNamed result type → Stated inner body →
      Stated (.keyword .function :: .name name :: parenthesised (parametersTokens parameters) ++
        result ++ inner) (.function name parameters type body position)

/-- Statements one behind the other. -/
inductive Sequenced : List Token → List Statement → Prop
  | none : Sequenced [] []
  | more {tokens others : List Token} {first : Statement} {rest : List Statement} :
      Stated tokens first → Sequenced others rest → Sequenced (tokens ++ others) (first :: rest)

end

end Grammar

end TapeCode

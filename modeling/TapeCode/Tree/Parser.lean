import TapeCode.Token.Basic
import TapeCode.Tree.Basic

/-!
# From tokens to trees

A parser by recursive descent; binary operators are read by their levels and all associate to the
left. The state is the tokens still to read and the position of the last one read, and it is kept
when parsing fails. A budget bounds the depth of the recursion: every call spends one, and at most
four calls follow each other before a token is read, so the budget computed from the number of
tokens is never used up.
-/
namespace TapeCode

/-- What a rule of the grammar needs and did not find. -/
inductive ParseCause
  | expectedToken (expected : Token) (found : Token)
  | expectedFunctionName
  | expectedVariableName
  | expectedParameterName
  | expectedTypeName
  | unknownType (name : String)
  | expectedStatement
  | expectedBlockEnd
  | expectedExpression (found : Token)
  deriving DecidableEq, Repr

structure ParseError where
  position : Position
  cause : ParseCause
  deriving DecidableEq, Repr

def ParseCause.message : ParseCause → String
  | .expectedToken expected found => s!"expected {expected.describe}, found {found.describe}"
  | .expectedFunctionName => "expected function name after 'func'"
  | .expectedVariableName => "expected variable name after 'var'"
  | .expectedParameterName => "expected parameter name"
  | .expectedTypeName => "expected type name"
  | .unknownType name => s!"unknown type '{name}'"
  | .expectedStatement => "unexpected end of file, expected a statement"
  | .expectedBlockEnd => "unexpected end of file, expected '\x7d'"
  | .expectedExpression found => s!"unexpected {found.describe}, expected an expression"

def ParseError.message (error : ParseError) : String := error.position.message error.cause.message

/-- The place in a sequence of tokens: what is still to read, and where the last token read
stood. -/
structure Cursor where
  rest : List Lexeme
  last : Option Position
  deriving Repr

abbrev Parser := EStateM ParseError Cursor

namespace Cursor

def start (lexemes : List Lexeme) : Cursor := ⟨lexemes, none⟩

/-- The next token; nothing more to read counts as the end of the file. -/
def token (cursor : Cursor) : Token := (cursor.rest.head?.map (·.token)).getD .fileEnd

/-- Where an error is reported: at the next token, or at the last one read. -/
def position (cursor : Cursor) : Position :=
  match cursor.rest with
  | lexeme :: _ => lexeme.position
  | [] => cursor.last.getD .start

def advance (cursor : Cursor) : Cursor :=
  match cursor.rest with
  | lexeme :: rest => ⟨rest, some lexeme.position⟩
  | [] => cursor

end Cursor

def BinaryOperator.ofToken? : Token → Option BinaryOperator
  | .mark .assign => some .assign
  | .mark .equal => some .equal
  | .mark .greater => some .greater
  | .mark .plus => some .add
  | .mark .minus => some .subtract
  | .mark .star => some .multiply
  | .mark .slash => some .divide
  | _ => none

namespace Parser

def token : Parser Token := return (← get).token

def position : Parser Position := return (← get).position

def advance : Parser Unit := modify Cursor.advance

def fail {α : Type} (cause : ParseCause) : Parser α := do throw ⟨← position, cause⟩

def sees (expected : Token) : Parser Bool := return (← token) = expected

def expect (expected : Token) : Parser Unit := do
  let found ← token
  if found = expected then advance else fail (.expectedToken expected found)

/-- A name and its position. -/
def name (cause : ParseCause) : Parser (String × Position) := do
  match ← token with
  | .name text =>
    let place ← position
    advance
    return (text, place)
  | _ => fail cause

def type : Parser ValueType := do
  let place ← position
  let (text, _) ← name .expectedTypeName
  match ValueType.ofName? text with
  | some type => return type
  | none => throw ⟨place, .unknownType text⟩

set_option maxRecDepth 2000 in
mutual

/-- An expression whose operators outside parentheses are all of level `least` or above. -/
def binary (budget least : Nat) : Parser Expression :=
  match budget with
  | 0 => do fail (.expectedExpression (← token))
  | budget + 1 => do
    let left ← primary budget
    operands budget least left

/-- The operators of level `least` or above that follow `left`, with their right operands. -/
def operands (budget least : Nat) (left : Expression) : Parser Expression :=
  match budget with
  | 0 => do fail (.expectedExpression (← token))
  | budget + 1 => do
    match BinaryOperator.ofToken? (← token) with
    | none => return left
    | some operator =>
      if operator.level < least then return left
      else
        let place ← position
        advance
        let right ← binary budget (operator.level + 1)
        operands budget least (.binary operator left right place)

def primary (budget : Nat) : Parser Expression :=
  match budget with
  | 0 => do fail (.expectedExpression (← token))
  | budget + 1 => do
    let place ← position
    match ← token with
    | .number value | .character value =>
      advance
      return .number value place
    | .name text =>
      advance
      if ← sees (.mark .openParen) then
        advance
        let arguments ← if ← sees (.mark .closeParen) then pure [] else arguments budget
        expect (.mark .closeParen)
        return .call text arguments place
      else
        return .variable text place
    | .mark .openParen => parenthesised budget
    | found => fail (.expectedExpression found)

/-- One or more expressions with commas between them. -/
def arguments (budget : Nat) : Parser (List Expression) :=
  match budget with
  | 0 => do fail (.expectedExpression (← token))
  | budget + 1 => do
    let first ← binary budget 0
    if ← sees (.mark .comma) then
      advance
      return first :: (← arguments budget)
    else
      return [first]

def parenthesised (budget : Nat) : Parser Expression :=
  match budget with
  | 0 => do fail (.expectedExpression (← token))
  | budget + 1 => do
    expect (.mark .openParen)
    let inner ← binary budget 0
    expect (.mark .closeParen)
    return inner

end

def parameter : Parser Parameter := do
  let (text, place) ← name .expectedParameterName
  expect (.mark .colon)
  return ⟨text, ← type, place⟩

/-- One or more parameters with commas between them. -/
def parameters (budget : Nat) : Parser (List Parameter) :=
  match budget with
  | 0 => fail .expectedParameterName
  | budget + 1 => do
    let first ← parameter
    if ← sees (.mark .comma) then
      advance
      return first :: (← parameters budget)
    else
      return [first]

mutual

def statement (budget : Nat) : Parser Statement :=
  match budget with
  | 0 => fail .expectedStatement
  | budget + 1 => do
    let place ← position
    match ← token with
    | .keyword .function =>
      advance
      function budget place
    | .keyword .result =>
      advance
      let value ← if ← sees (.mark .semicolon) then pure none else some <$> binary budget 0
      expect (.mark .semicolon)
      return .result value place
    | .keyword .variable =>
      advance
      let (text, place) ← name .expectedVariableName
      expect (.mark .assign)
      let value ← binary budget 0
      expect (.mark .semicolon)
      return .declare text value place
    | .mark .openBrace =>
      advance
      return .block (← blockRest budget)
    | .keyword .whileLoop =>
      advance
      let condition ← parenthesised budget
      return .whileDo condition (← statement budget)
    | .keyword .doLoop =>
      advance
      let body ← statement budget
      expect (.keyword .whileLoop)
      let condition ← parenthesised budget
      expect (.mark .semicolon)
      return .doWhile body condition
    | .keyword .condition =>
      advance
      let condition ← parenthesised budget
      let consequence ← statement budget
      if ← sees (.keyword .otherwise) then
        advance
        return .ifThenElse condition consequence (← statement budget)
      else
        return .ifThen condition consequence
    | .fileEnd => fail .expectedStatement
    | _ =>
      let expression ← binary budget 0
      expect (.mark .semicolon)
      return .evaluate expression

/-- The statements of a block, up to and with its closing brace. -/
def blockRest (budget : Nat) : Parser (List Statement) :=
  match budget with
  | 0 => fail .expectedBlockEnd
  | budget + 1 => do
    if ← sees (.mark .closeBrace) then
      advance
      return []
    else if ← sees .fileEnd then fail .expectedBlockEnd
    else
      let first ← statement budget
      return first :: (← blockRest budget)

/-- A function declaration behind its keyword, which stood at `place`. -/
def function (budget : Nat) (place : Position) : Parser Statement :=
  match budget with
  | 0 => fail .expectedFunctionName
  | budget + 1 => do
    let (text, _) ← name .expectedFunctionName
    expect (.mark .openParen)
    let parameters ← if ← sees (.mark .closeParen) then pure [] else parameters budget
    expect (.mark .closeParen)
    let returned ←
      if ← sees (.mark .colon) then
        advance
        type
      else pure .void
    return .function text parameters returned (← statement budget) place

end

/-- All statements up to the end of the file. -/
def statements (budget : Nat) : Parser (List Statement) :=
  match budget with
  | 0 => return []
  | budget + 1 => do
    if ← sees .fileEnd then return []
    else
      let first ← statement budget
      return first :: (← statements budget)

/-- Runs a rule with a budget that the tokens left cannot use up. -/
def budgeted {α : Type} (rule : Nat → Parser α) : Parser α := fun cursor =>
  rule (8 * (cursor.rest.length + 1)) cursor

end Parser

/-- The statements of the main block; layout tokens are dropped beforehand. -/
def parse (lexemes : List Lexeme) : Except ParseError (List Statement) :=
  match Parser.budgeted Parser.statements (.start (withoutLayout lexemes)) with
  | .ok program _ => .ok program
  | .error error _ => .error error

end TapeCode

import TapeCode.Position
import TapeCode.Text.Quoted

/-!
# Tokens

The words of a source text. Number and character literals are already reduced to the value of one
tape cell.
-/
namespace TapeCode

inductive Keyword
  | function
  | variable
  | result
  | whileLoop
  | doLoop
  | condition
  | otherwise
  deriving DecidableEq, Repr

inductive Mark
  | assign
  | equal
  | greater
  | plus
  | minus
  | star
  | slash
  | openParen
  | closeParen
  | openBrace
  | closeBrace
  | comma
  | colon
  | semicolon
  deriving DecidableEq, Repr

inductive Token
  | number (value : UInt8)
  | character (value : UInt8)
  | keyword (word : Keyword)
  | mark (sign : Mark)
  | name (text : String)
  | comment (text : String)
  | lineEnd
  | fileEnd
  deriving DecidableEq, Repr

/-- A token and the position of its first character. -/
structure Lexeme where
  token : Token
  position : Position
  deriving DecidableEq, Repr

def Keyword.all : List Keyword :=
  [.function, .variable, .result, .whileLoop, .doLoop, .condition, .otherwise]

def Keyword.text : Keyword → String
  | .function => "func"
  | .variable => "var"
  | .result => "return"
  | .whileLoop => "while"
  | .doLoop => "do"
  | .condition => "if"
  | .otherwise => "else"

def Keyword.ofText? (text : String) : Option Keyword := all.find? (·.text = text)

def Mark.all : List Mark :=
  [.assign, .equal, .greater, .plus, .minus, .star, .slash, .openParen, .closeParen, .openBrace,
    .closeBrace, .comma, .colon, .semicolon]

def Mark.text : Mark → String
  | .assign => "="
  | .equal => "=="
  | .greater => ">"
  | .plus => "+"
  | .minus => "-"
  | .star => "*"
  | .slash => "/"
  | .openParen => "("
  | .closeParen => ")"
  | .openBrace => "\x7b"
  | .closeBrace => "\x7d"
  | .comma => ","
  | .colon => ":"
  | .semicolon => ";"

namespace Token

/-- How a message about the source names the token. -/
def describe : Token → String
  | .number value => s!"number {value.toNat}"
  | .character value => s!"character literal {Text.quotedChar (Char.ofNat value.toNat)}"
  | .keyword word => s!"'{word.text}'"
  | .mark sign => s!"'{sign.text}'"
  | .name text => s!"identifier '{text}'"
  | .comment _ => "comment"
  | .lineEnd => "newline"
  | .fileEnd => "end of file"

/-- Layout tokens stand between the tokens of the grammar and never inside its rules. -/
def isLayout : Token → Bool
  | .comment _ | .lineEnd => true
  | _ => false

end Token

/-- The tokens that the grammar speaks about. -/
def withoutLayout (lexemes : List Lexeme) : List Lexeme :=
  lexemes.filter fun lexeme => !lexeme.token.isLayout

end TapeCode

import TapeCode.Token.Basic
import TapeCode.Text.Column

/-!
# The token listing

One line per token: its position, its class and its value, with the class deciding the colour.
-/
namespace TapeCode

/-- The name of the token's case. -/
def Keyword.caseName : Keyword → String
  | .function => "Func"
  | .variable => "Var"
  | .result => "Return"
  | .whileLoop => "While"
  | .doLoop => "Do"
  | .condition => "If"
  | .otherwise => "Else"

def Mark.caseName : Mark → String
  | .assign => "Assign"
  | .equal => "EqEq"
  | .greater => "Gt"
  | .plus => "Plus"
  | .minus => "Minus"
  | .star => "Star"
  | .slash => "Slash"
  | .openParen => "LParen"
  | .closeParen => "RParen"
  | .openBrace => "LBrace"
  | .closeBrace => "RBrace"
  | .comma => "Comma"
  | .colon => "Colon"
  | .semicolon => "Semicolon"

namespace Token

def caseName : Token → String
  | .number _ => "Number"
  | .character _ => "Char"
  | .keyword word => word.caseName
  | .mark sign => sign.caseName
  | .name _ => "Ident"
  | .comment _ => "Comment"
  | .lineEnd => "Newline"
  | .fileEnd => "Eof"

/-- The case of the token with its value behind it. -/
def caseText (token : Token) : String :=
  match token with
  | .number value | .character value => s!"{token.caseName}({value.toNat})"
  | .name text | .comment text => s!"{token.caseName}({Text.quotedString text})"
  | _ => token.caseName

/-- The description for a reader, who also wants to see the comments. -/
def readableText : Token → String
  | .comment text => s!"COMMENT: {text}"
  | .lineEnd => "NEWLINE"
  | token => token.describe

def className : Token → String
  | .lineEnd => "NEWLINE"
  | .comment _ => "COMMENT"
  | .fileEnd => "EOF"
  | .number _ => "INT"
  | .character _ => "CHAR"
  | .name _ => "IDENT"
  | .keyword _ => "KEYWORD"
  | .mark sign =>
    match sign with
    | .openParen | .closeParen => "PAREN"
    | .openBrace | .closeBrace => "BRACE"
    | .comma | .colon | .semicolon => "PUNCT"
    | .equal | .greater => "CMP"
    | .assign | .plus | .minus | .star | .slash => "OP"

end Token

/-- Terminal colours as escape sequences. -/
inductive Colour
  | plain
  | dim
  | yellow
  | cyan
  | magenta
  | blue
  deriving DecidableEq, Repr

def Colour.escape : Colour → String
  | .plain => "\x1b[0m"
  | .dim => "\x1b[2m"
  | .yellow => "\x1b[33m"
  | .cyan => "\x1b[36m"
  | .magenta => "\x1b[35m"
  | .blue => "\x1b[34m"

def Token.colour : Token → Colour
  | .lineEnd | .comment _ | .fileEnd => .dim
  | .number _ | .character _ => .cyan
  | .name _ => .yellow
  | .keyword _ => .blue
  | .mark sign =>
    match sign with
    | .assign | .plus | .minus | .star | .slash | .equal | .greater => .magenta
    | _ => .plain

structure DumpStyle where
  coloured : Bool := true
  readable : Bool := false

/-- The line of the listing for one token. -/
def Lexeme.dumpLine (style : DumpStyle) (lexeme : Lexeme) : String :=
  let token := lexeme.token
  let number (n : Nat) : String := Text.padLeft '0' 2 (toString n)
  let place := s!"[{number lexeme.position.line}:{number lexeme.position.column}]"
  let text := if style.readable then token.readableText else token.caseText
  let body := Text.padRight ' ' 8 token.className ++ " " ++ text
  if style.coloured then s!"{place} {token.colour.escape}{body}{Colour.plain.escape}"
  else s!"{place} {body}"

end TapeCode

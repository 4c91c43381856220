import TapeCode.Token.Lexer

/-!
# The spelling of tokens

Every token has one spelling chosen among those that are read as it, and between tokens stands
layout: blanks, newlines and comments. A separator is layout that starts with a blank or a newline,
so the token before it cannot run on into it.
-/
namespace TapeCode

/-- The value of a character literal, as it stands between the quotes. -/
def characterSpelling (value : UInt8) : List Char :=
  match Char.ofNat value.toNat with
  | '\n' => ['\\', 'n']
  | '\\' => ['\\', '\\']
  | '\'' => ['\\', '\'']
  | c => [c]

def Token.spelling : Token → List Char
  | .number value => (toString value.toNat).toList
  | .character value => '\'' :: characterSpelling value ++ ['\'']
  | .keyword word => word.text.toList
  | .mark sign => sign.text.toList
  | .name text => text.toList
  | .comment text => '/' :: '/' :: text.toList
  | .lineEnd => ['\n']
  | .fileEnd => []

/-- Names that the lexer reads back as names. -/
def isPlainName (text : String) : Bool :=
  match text.toList with
  | [] => false
  | first :: rest =>
    Lexer.isNameStart first && rest.all Lexer.isNamePart && (Keyword.ofText? text).isNone

/-- Text that holds no token of the grammar. -/
inductive IsLayout : List Char → Prop
  | none : IsLayout []
  | blank {c : Char} {rest : List Char} :
      Lexer.isSpace c ∨ c = '\n' → IsLayout rest → IsLayout (c :: rest)
  | comment {text rest : List Char} :
      '\n' ∉ text → IsLayout rest → IsLayout ('/' :: '/' :: text ++ '\n' :: rest)

/-- Layout that ends every token before it. -/
def IsSeparator : List Char → Prop
  | [] => False
  | c :: rest => (Lexer.isSpace c ∨ c = '\n') ∧ IsLayout rest

/-- A text in which the tokens stand one behind the other, with a separator around each. -/
inductive Spelled : List Token → List Char → Prop
  | none {separator : List Char} : IsSeparator separator → Spelled [] separator
  | more {separator text : List Char} {token : Token} {rest : List Token} :
      IsSeparator separator → Spelled rest text →
      Spelled (token :: rest) (separator ++ token.spelling ++ text)

end TapeCode

import TapeCode.Token.Basic
import TapeCode.Text.Blank
import TapeCode.Text.Letter
import TapeCode.Text.Numeral

/-!
# From text to tokens

A token is recognised from its first character and the text behind it; the recogniser answers with
the token and the number of further characters that belong to it. Positions are computed from the
characters passed over, so they need no bookkeeping of their own. Spaces, tabs and carriage returns
separate tokens; a newline is a token.
-/
namespace TapeCode

inductive LexCause
  | unknownEscape (c : Char)
  | endInsideEscape
  | emptyCharacter
  | unterminatedCharacter
  | wideCharacter (c : Char)
  | invalidNumber (digits : List Char)
  | numberOutOfRange (digits : List Char)
  | unexpectedCharacter (c : Char)
  deriving DecidableEq, Repr

structure LexError where
  position : Position
  cause : LexCause
  deriving DecidableEq, Repr

def LexCause.message : LexCause → String
  | .unknownEscape c => s!"unknown escape sequence: \\{c}"
  | .endInsideEscape => "unexpected EOF in escape sequence"
  | .emptyCharacter => "empty character literal"
  | .unterminatedCharacter => "unterminated character literal"
  | .wideCharacter c => s!"character {Text.quotedChar c} does not fit in a cell"
  | .invalidNumber digits => s!"invalid number: {String.ofList digits}"
  | .numberOutOfRange digits => s!"integer literal out of range: {String.ofList digits}"
  | .unexpectedCharacter c => s!"unexpected character: '{c}'"

def LexError.message (error : LexError) : String := error.position.message error.cause.message

namespace Lexer

/-- The token that starts at a character, and how many of the characters behind it it takes. -/
structure Match where
  token : Token
  further : Nat
  deriving DecidableEq, Repr

/-- A failure, reported so many characters behind the first one. -/
structure Mismatch where
  cause : LexCause
  behind : Nat
  deriving DecidableEq, Repr

/-- Characters that separate tokens without being one. -/
def isSpace (c : Char) : Bool := c = ' ' || c = '\t' || c = '\r'

def isNameStart (c : Char) : Bool := Text.isLetter c || c = '_'

def isNamePart (c : Char) : Bool := Text.isLetterOrNumber c || c = '_'

/-- A number takes all digits that follow; a letter may not stand directly behind it. -/
def number (first : Char) (rest : List Char) : Except Mismatch Match :=
  let further := rest.takeWhile Char.isDigit
  let digits := first :: further
  if (rest.dropWhile Char.isDigit).head?.any isNameStart then .error ⟨.invalidNumber digits, 0⟩
  else if Text.digitsValue digits ≤ 255 then
    .ok ⟨.number (UInt8.ofNat (Text.digitsValue digits)), further.length⟩
  else .error ⟨.numberOutOfRange digits, 0⟩

/-- A name takes all letters, numbers and underscores that follow; some names are keywords. -/
def word (first : Char) (rest : List Char) : Match :=
  let further := rest.takeWhile isNamePart
  let text := String.ofList (first :: further)
  ⟨(Keyword.ofText? text).elim (.name text) .keyword, further.length⟩

/-- A comment runs to the end of its line and is kept without the blanks around it. The first
character of `rest` is the second slash. -/
def comment (rest : List Char) : Match :=
  let line := rest.takeWhile (· ≠ '\n')
  ⟨.comment (String.ofList (Text.trim (line.drop 1))), line.length⟩

def escape? : Char → Option Char
  | 'n' => some '\n'
  | 'r' => some '\r'
  | 't' => some '\t'
  | '\\' => some '\\'
  | '\'' => some '\''
  | _ => none

/-- The end of a character literal whose value took `length` characters behind the quote. -/
def closeCharacter (value : Char) (length : Nat) (rest : List Char) : Except Mismatch Match :=
  if rest.head? ≠ some '\'' then .error ⟨.unterminatedCharacter, 0⟩
  else if value.toNat ≤ 255 then .ok ⟨.character (UInt8.ofNat value.toNat), length + 1⟩
  else .error ⟨.wideCharacter value, 0⟩

/-- The text behind an opening quote. -/
def character : List Char → Except Mismatch Match
  | [] => .error ⟨.emptyCharacter, 0⟩
  | ['\\'] => .error ⟨.endInsideEscape, 2⟩
  | '\\' :: c :: rest =>
    match escape? c with
    | some value => closeCharacter value 2 rest
    | none => .error ⟨.unknownEscape c, 2⟩
  | c :: rest =>
    if c = '\'' ∨ c = '\n' then .error ⟨.emptyCharacter, 0⟩ else closeCharacter c 1 rest

/-- Only the equality sign takes a second character. -/
def mark? (first : Char) (rest : List Char) : Option Match :=
  let single (mark : Mark) : Option Match := some ⟨.mark mark, 0⟩
  match first with
  | '=' => if rest.head? = some '=' then some ⟨.mark .equal, 1⟩ else single .assign
  | '>' => single .greater
  | '+' => single .plus
  | '-' => single .minus
  | '*' => single .star
  | '/' => single .slash
  | '(' => single .openParen
  | ')' => single .closeParen
  | '\x7b' => single .openBrace
  | '\x7d' => single .closeBrace
  | ',' => single .comma
  | ':' => single .colon
  | ';' => single .semicolon
  | _ => none

/-- The token that starts with `first`, which is no space. -/
def recognise (first : Char) (rest : List Char) : Except Mismatch Match :=
  if first = '\n' then .ok ⟨.lineEnd, 0⟩
  else if first = '/' ∧ rest.head? = some '/' then .ok (comment rest)
  else if first = '\'' then character rest
  else if first.isDigit then number first rest
  else if isNameStart first then .ok (word first rest)
  else
    match mark? first rest with
    | some found => .ok found
    | none => .error ⟨.unexpectedCharacter first, 0⟩

/-- All tokens of a text that stands at `position`, with the end of the file as the last one. -/
def lexemes (position : Position) : List Char → Except LexError (List Lexeme)
  | [] => .ok [⟨.fileEnd, position⟩]
  | first :: rest =>
    if isSpace first then lexemes (position.after first) rest
    else
      match recognise first rest with
      | .error mismatch =>
        .error ⟨position.advance ((first :: rest).take mismatch.behind), mismatch.cause⟩
      | .ok found =>
        let behind := (position.after first).advance (rest.take found.further)
        match lexemes behind (rest.drop found.further) with
        | .error error => .error error
        | .ok others => .ok (⟨found.token, position⟩ :: others)
termination_by text => text.length
decreasing_by
  · simp
  · simp only [List.length_drop, List.length_cons]
    omega

end Lexer

def tokenize (source : String) : Except LexError (List Lexeme) :=
  Lexer.lexemes .start source.toList

end TapeCode

import TapeCode.Text.Visible

/-!
# Quoted text

A quoted text escapes the backslash, the quote that encloses it, the control characters with a
letter of their own, and every character that is not visible by itself.
-/
namespace TapeCode.Text

def hexDigits (n : Nat) : List Char := Nat.toDigits 16 n

/-- One character between two quotes of the kind `quote`. -/
def escaped (quote c : Char) : List Char :=
  if c = '\t' then ['\\', 't']
  else if c = '\r' then ['\\', 'r']
  else if c = '\n' then ['\\', 'n']
  else if c = '\x00' then ['\\', '0']
  else if c = '\\' ∨ c = quote then ['\\', c]
  else if isVisible c ∧ ¬ isExtending c then [c]
  else ['\\', 'u', '\x7b'] ++ hexDigits c.toNat ++ ['\x7d']

def quotedString (text : String) : String :=
  String.ofList ('"' :: text.toList.flatMap (escaped '"') ++ ['"'])

def quotedChar (c : Char) : String :=
  String.ofList ('\'' :: escaped '\'' c ++ ['\''])

end TapeCode.Text

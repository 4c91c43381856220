/-!
# Numerals

Decimal numbers as users write them: digits of ASCII only, one or more of them, with a plus sign or,
where negative numbers are allowed, a minus sign in front. How large a number may be is for the
reader of the number to decide.
-/
namespace TapeCode.Text

def digitsValue (digits : List Char) : Nat :=
  digits.foldl (fun value digit => 10 * value + (digit.toNat - '0'.toNat)) 0

def readDigits? (text : List Char) : Option Nat :=
  if text ≠ [] ∧ text.all Char.isDigit then some (digitsValue text) else none

/-- A number without a minus sign. -/
def readNatural? : List Char → Option Nat
  | '+' :: digits => readDigits? digits
  | digits => readDigits? digits

def readInteger? : List Char → Option Int
  | '-' :: digits => (readDigits? digits).map fun n => -(n : Int)
  | text => (readNatural? text).map fun n => (n : Int)

end TapeCode.Text

/-!
# Fixed decimal places

A fraction is rounded to the nearest value with one decimal place, and of two nearest ones the even
one is taken.
-/
namespace TapeCode.Text

/-- The quotient rounded to the nearest number, a half to the even neighbour. -/
def roundDiv (numerator denominator : Nat) : Nat :=
  let quotient := numerator / denominator
  let twice := 2 * (numerator % denominator)
  if denominator < twice ∨ (twice = denominator ∧ quotient % 2 = 1) then quotient + 1 else quotient

/-- A number in double precision that is not negative, as numerator and denominator. -/
def floatParts (x : Float) : Nat × Nat :=
  let bits := x.toBits.toNat
  let exponent := (bits >>> 52) % 2048
  let fraction := bits % (1 <<< 52)
  let mantissa := if exponent = 0 then fraction else fraction + (1 <<< 52)
  let exponent := max exponent 1
  if 1075 ≤ exponent then (mantissa <<< (exponent - 1075), 1)
  else (mantissa, 1 <<< (1075 - exponent))

/-- A number that is not negative, with one decimal place. -/
def oneDecimal (x : Float) : String :=
  let (numerator, denominator) := floatParts x
  let tenths := roundDiv (10 * numerator) denominator
  s!"{tenths / 10}.{tenths % 10}"

end TapeCode.Text

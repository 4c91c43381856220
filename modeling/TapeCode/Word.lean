/-!
# Numbers of limited width

Sizes, distances and heights are counted with 64 bits. A result that does not fit is an error of its
own, whatever it is a number of.
-/
namespace TapeCode

/-- An operation whose result does not fit. -/
inductive Overflow
  | addition
  | subtraction
  | multiplication
  | negation
  deriving DecidableEq, Repr

def Overflow.message : Overflow → String
  | .addition => "attempt to add with overflow"
  | .subtraction => "attempt to subtract with overflow"
  | .multiplication => "attempt to multiply with overflow"
  | .negation => "attempt to negate with overflow"

namespace Word

/-- The first size that 64 bits cannot hold. -/
def limit : Nat := 1 <<< 64

/-- The first distance that does not fit 64 bits, one of which is the sign. -/
def signedLimit : Nat := 1 <<< 63

/-- What the 64 bits of a size are as a distance. -/
def signed (n : Nat) : Int := Int.bmod n limit

/-- Sizes that fit a distance are kept. -/
theorem signed_eq {n : Nat} (fits : n < signedLimit) : signed n = n := by
  have bound : n < 9223372036854775808 := fits
  show Int.bmod n 18446744073709551616 = n
  exact Int.bmod_eq_of_le (by omega) (by omega)

end Word

end TapeCode

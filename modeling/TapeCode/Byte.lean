/-!
# Bytes

What programs compute with: one tape cell. Sums, differences and products wrap, and division by zero
gives zero, as they do for `UInt8`.
-/
namespace TapeCode.Byte

/-- A truth value as a number. -/
def ofBool (holds : Bool) : UInt8 := if holds then 1 else 0

/-- The decimal digits of a number, without leading zeros, as characters. -/
def digits (value : UInt8) : List UInt8 :=
  (Nat.toDigits 10 value.toNat).map fun digit => UInt8.ofNat digit.toNat

end TapeCode.Byte

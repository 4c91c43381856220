/-!
# Numbers of variable length

A number is written in groups of seven bits, the lowest first, one byte each, and every byte but the
last has its high bit set. A signed number is first folded onto the natural numbers, so that numbers
close to zero stay short. The reader knows how many bytes a number may have and how large the last
of these may be; within these limits it takes any spelling.
-/
namespace TapeCode.Binary

/-- Why bytes are not what they should be. -/
inductive BinaryError
  | outOfBytes
  | numberTooLong
  | unknownOpcode
  deriving DecidableEq, Repr

def BinaryError.message : BinaryError → String
  | .outOfBytes => "Hit the end of buffer, expected more data"
  | .numberTooLong =>
    "Found a varint that didn't terminate. Is the usize too big for this platform?"
  | .unknownOpcode => "Serde Deserialization Error"

/-- Reads from the front of the bytes and leaves the rest. -/
abbrev Reader := StateT (List UInt8) (Except BinaryError)

def readByte : Reader UInt8
  | [] => .error .outOfBytes
  | byte :: rest => .ok (byte, rest)

namespace Varint

def write (n : Nat) : List UInt8 :=
  if n < 128 then [UInt8.ofNat n] else UInt8.ofNat (n % 128 + 128) :: write (n / 128)

/-- A number of at most `most` bytes; the last of so many bytes is at most `last`. -/
def read (last : Nat) : (most : Nat) → Reader Nat
  | 0 => throw .numberTooLong
  | most + 1 => do
    let byte ← readByte
    if byte.toNat < 128 then
      if most = 0 ∧ last < byte.toNat then throw .numberTooLong else return byte.toNat
    else return byte.toNat - 128 + 128 * (← read last most)

/-- Lengths have 64 bits. -/
def readLength : Reader Nat := read 1 10

/-- Other numbers have 32 bits. -/
def readWord : Reader Nat := read 15 5

/-- Nonnegative numbers become the even numbers, negative ones the odd numbers. -/
def zigzag (n : Int) : Nat := if 0 ≤ n then (2 * n).toNat else (-2 * n - 1).toNat

def unzigzag (n : Nat) : Int := if n % 2 = 0 then (n / 2 : Nat) else -((n / 2 : Nat) : Int) - 1

def writeInteger (n : Int) : List UInt8 := write (zigzag n)

def readInteger : Reader Int := unzigzag <$> readWord

end Varint

/-- So many items, one after the other. -/
def readTimes {α : Type} (item : Reader α) : Nat → Reader (List α)
  | 0 => return []
  | count + 1 => do
    let first ← item
    return first :: (← readTimes item count)

/-- The number of items, and then the items. -/
def readList {α : Type} (item : Reader α) : Reader (List α) := do
  readTimes item (← Varint.readLength)

def writeList {α : Type} (item : α → List UInt8) (items : List α) : List UInt8 :=
  Varint.write items.length ++ items.flatMap item

end TapeCode.Binary
